import AiGateway.Codex.Reconciliation

/-! The periods of a quota window, whatever is reported and in whatever order: they follow one
another, and every manual reset explains as many transitions as it may. -/
namespace AiGateway.Codex
open Domain Lib List

namespace WindowPeriod

def SameWindow (p q : WindowPeriod) : Prop :=
  p.credentialId = q.credentialId ∧ p.windowKind = q.windowKind

/-- The period ended before the next one began, up to the tolerance. -/
def Precedes (p q : WindowPeriod) : Prop :=
  p.startedAt < q.startedAt ∧
    ∃ ended, p.endedAt = some ended ∧ ended ≤ q.startedAt + quotaWindowIdentityTolerance

/-- The bounds are the window's length apart; a window that spans the storage epoch may have
lost a microsecond. -/
def Bounded (p : WindowPeriod) : Prop :=
  0 < p.windowSeconds ∧
    (p.scheduledResetAt = p.startedAt + seconds p.windowSeconds ∨
      p.startedAt ≤ storageEpoch ∧ storageEpoch ≤ p.scheduledResetAt ∧
        p.scheduledResetAt = p.startedAt + seconds p.windowSeconds - 1000)

/-- The period of the window was ended by a manual reset. -/
def endedManually (channelId : Uuid) (kind : CodexQuotaWindowKind) (p : WindowPeriod) : Bool :=
  p.credentialId == channelId && p.windowKind == kind && p.resetReason == some .manual

structure WellFormed (p : WindowPeriod) : Prop where
  bounded : p.Bounded
  started : Stored p.startedAt
  scheduled : Stored p.scheduledResetAt
  observed : Stored p.lastObservedAt
  ended : ∀ ended, p.endedAt = some ended → p.startedAt < ended
  reason : p.endedAt = none → p.resetReason = none

end WindowPeriod

/-- The event was used up for a transition of the window. -/
def ResetEvent.usedFor (channelId : Uuid) (kind : CodexQuotaWindowKind) (event : ResetEvent) : Bool :=
  event.credentialId == channelId && (event.appliedAt kind).isSome

/-- What holds of the quota history. -/
structure Sound (history : QuotaHistory) : Prop where
  ids : (history.periods.map (·.id)).Nodup
  eventIds : (history.events.map (·.id)).Nodup
  wellFormed : ∀ p ∈ history.periods, p.WellFormed
  ordered : history.periods.Pairwise (fun p q => p.SameWindow q → p.Precedes q)
  open_exists : ∀ p ∈ history.periods, ∃ q ∈ history.periods, p.SameWindow q ∧ q.endedAt = none
  applied : ∀ event ∈ history.events, event.appliedCount ≤ event.windowsReset
  manual : ∀ channelId kind, history.periods.countP (·.endedManually channelId kind) =
    history.events.countP (·.usedFor channelId kind)

theorem sound_empty : Sound ⟨[], []⟩ :=
  ⟨.nil, .nil, by simp, .nil, by simp, by simp, fun _ _ => rfl⟩

variable {hist hist' : QuotaHistory} {id cid : Uuid} {kind : CodexQuotaWindowKind}
  {cur : WindowPeriod}

theorem current_eq_some (h : hist.current cid kind = some cur) :
    cur ∈ hist.periods ∧ cur.credentialId = cid ∧ cur.windowKind = kind ∧
      cur.endedAt = none := by
  have hp := List.find?_some h
  simp only [Bool.and_eq_true, beq_iff_eq, Option.isNone_iff_eq_none] at hp
  exact ⟨mem_of_find?_eq_some h, hp.1.1, hp.1.2, hp.2⟩

theorem current_eq_none (h : hist.current cid kind = none) (p : WindowPeriod)
    (hp : p ∈ hist.periods) (hc : p.credentialId = cid) (hk : p.windowKind = kind) :
    p.endedAt ≠ none := by
  have hpr := List.find?_eq_none.mp h p hp
  simpa [hc, hk] using hpr

variable {p : WindowPeriod} {ev : ResetEvent} {q : WindowPeriod}

/-- The other periods of a window precede the open one. -/
theorem Sound.precedes_open (h : Sound hist) (hp : p ∈ hist.periods)
    (hq : q ∈ hist.periods) (hne : p ≠ q) (hs : p.SameWindow q) (hop : q.endedAt = none) :
    p.Precedes q := by
  rcases related_of_pairwise h.ordered hp hq hne with hb | ha
  · exact hb hs
  · obtain ⟨-, ended, he, -⟩ := ha ⟨hs.1.symm, hs.2.symm⟩
    rw [hop] at he
    cases he

theorem Sound.open_unique (h : Sound hist) (hp : p ∈ hist.periods)
    (hq : q ∈ hist.periods) (hs : p.SameWindow q) (hpo : p.endedAt = none)
    (hqo : q.endedAt = none) : p = q := by
  by_contra hne
  obtain ⟨-, ended, he, -⟩ := h.precedes_open hp hq hne hs hqo
  rw [hpo] at he
  cases he

/-- A window without an open period has no period at all. -/
theorem Sound.none_of_current_none (h : Sound hist)
    (hn : hist.current cid kind = none) (p : WindowPeriod) (hp : p ∈ hist.periods) :
    ¬ (p.credentialId = cid ∧ p.windowKind = kind) := by
  rintro ⟨hc, hk⟩
  obtain ⟨q, hq, hs, hop⟩ := h.open_exists p hp
  exact current_eq_none hn q hq (hs.1.symm.trans hc) (hs.2.symm.trans hk) hop

section Bounds
variable {obs : ObservedCodexQuotaWindow} {chk : Int}

theorem tolerance_eq : quotaWindowIdentityTolerance = seconds 90 := rfl

variable {t n s ended : Int}

theorem checkedDateTime_near (h : Storable t) (hn : -90 ≤ n ∧ n ≤ 90) :
    checkedDateTime (t + seconds n) = some (t + seconds n) := by
  unfold Storable seconds at h
  refine if_pos ?_
  unfold minUtc maxUtc seconds
  omega

theorem latestSameStart_eq (h : Storable cur.startedAt) :
    cur.latestSameStart = cur.startedAt + seconds 90 := by
  rw [WindowPeriod.latestSameStart, tolerance_eq, checkedDateTime_near h (by omega),
    Option.getD_some]

theorem naturalBoundary_eq (h : Storable cur.scheduledResetAt) :
    cur.naturalBoundary = cur.scheduledResetAt - seconds 90 := by
  have hn : cur.scheduledResetAt - seconds 90 = cur.scheduledResetAt + seconds (-90) := by
    unfold seconds
    omega
  rw [WindowPeriod.naturalBoundary, tolerance_eq, hn, checkedDateTime_near h (by omega),
    Option.getD_some]

/-- A time at or after a stored one, whole seconds apart, is so in storage. -/
theorem le_timestamp (hs : timestamp s = s) (n : Int) (h : s + seconds n ≤ t) :
    s + seconds n ≤ timestamp t := by
  rw [← timestamp_add_seconds hs n]
  exact timestamp_mono h

/-- A report for a later period starts more than the tolerance later, also in storage. -/
theorem start_later (hcu : cur.WellFormed)
    (h : cur.latestSameStart < obs.startedAt) :
    cur.startedAt + seconds 90 ≤ timestamp obs.startedAt := by
  rw [latestSameStart_eq hcu.started.1] at h
  exact le_timestamp hcu.started.2 90 h.le

theorem wellFormed_period (hf : obs.Fits chk) (hp : 0 < obs.windowSeconds)
    (id cid : Uuid) (kind : CodexQuotaWindowKind) :
    (obs.period id cid kind chk).WellFormed where
  bounded := ⟨hp, window_length obs.resetAt obs.windowSeconds hp⟩
  started := hf.start
  scheduled := hf.reset
  observed := hf.check
  ended := by
    intro ended he
    cases he
  reason := fun _ => rfl

theorem WindowPeriod.Bounded.lt (h : p.Bounded) :
    p.startedAt < p.scheduledResetAt := by
  obtain ⟨hp, hb⟩ := h
  unfold seconds at hb
  omega

/-- Where the closed period ends: after its start, and at most the tolerance after the next. -/
theorem ended_bounds (hcu : cur.WellFormed)
    (hl : cur.latestSameStart < obs.startedAt)
    (he : cur.naturalBoundary ≤ obs.startedAt ∧
        ended = timestamp cur.scheduledResetAt ∨ ended = timestamp obs.startedAt) :
    cur.startedAt < ended ∧
      ended ≤ timestamp obs.startedAt + quotaWindowIdentityTolerance := by
  have hs := start_later hcu hl
  rw [tolerance_eq]
  rcases he with ⟨hn, he⟩ | he
  · rw [hcu.scheduled.2] at he
    rw [naturalBoundary_eq hcu.scheduled.1] at hn
    have hb : cur.scheduledResetAt + seconds (-90) ≤ timestamp obs.startedAt := by
      refine le_timestamp hcu.scheduled.2 (-90) ?_
      unfold seconds at hn ⊢
      omega
    have hlt := hcu.bounded.lt
    unfold seconds at hb ⊢
    omega
  · unfold seconds at hs ⊢
    omega

end Bounds

theorem WindowPeriod.WellFormed.not_manual (h : p.WellFormed)
    (hop : p.endedAt = none) (cid : Uuid) (kind : CodexQuotaWindowKind) :
    p.endedManually cid kind = false := by
  rw [WindowPeriod.endedManually, h.reason hop]
  exact Bool.and_false _

/-- The window's rows, when its open row is rewritten in place. -/
structure Rewrites (set : WindowPeriod → WindowPeriod) (p : WindowPeriod) : Prop where
  id : ∀ q, (set q).id = q.id
  channel : (set p).credentialId = p.credentialId
  kind : (set p).windowKind = p.windowKind
  start : p.startedAt ≤ (set p).startedAt
  wellFormed : (set p).WellFormed

variable {set : WindowPeriod → WindowPeriod}

theorem Rewrites.sameWindow_iff (h : Rewrites set cur) (p : WindowPeriod) :
    p.SameWindow (set cur) ↔ p.SameWindow cur := by
  rw [WindowPeriod.SameWindow, WindowPeriod.SameWindow, h.channel, h.kind]

section
variable (h : Sound hist) (hcu : cur ∈ hist.periods)
include h hcu

theorem Sound.mem_update :
    p ∈ updateRow (·.id) cur.id set hist.periods ↔
      (p ∈ hist.periods ∧ p ≠ cur) ∨ p = set cur :=
  mem_updateRow h.ids hcu

theorem Sound.ordered_update (hop : cur.endedAt = none) (hse : Rewrites set cur) :
    (updateRow (·.id) cur.id set hist.periods).Pairwise
      (fun p q => p.SameWindow q → p.Precedes q) := by
  refine pairwise_updateRow h.ids hcu h.ordered ?_ ?_
  · intro p _ _ hb hs
    obtain ⟨hlt, ended, he, hle⟩ := hb ((hse.sameWindow_iff p).mp hs)
    have hst := hse.start
    exact ⟨by omega, ended, he, by omega⟩
  · intro p _ _ ha hs
    have hs' : cur.SameWindow p := by
      rw [WindowPeriod.SameWindow, ← hse.channel, ← hse.kind]
      exact hs
    obtain ⟨-, ended, he, -⟩ := ha hs'
    rw [hop] at he
    cases he

theorem Sound.wellFormed_update (hs : Rewrites set cur) :
    ∀ p ∈ updateRow (·.id) cur.id set hist.periods, p.WellFormed := by
  intro p hp
  rcases (h.mem_update hcu).mp hp with ⟨hp, -⟩ | rfl
  · exact h.wellFormed p hp
  · exact hs.wellFormed

/-- An open period that stays open changes nothing about the others. -/
theorem Sound.update (hop : cur.endedAt = none) (hs : Rewrites set cur)
    (hst : (set cur).endedAt = none) :
    Sound (hist.updatePeriod cur.id set) where
  ids := by
    rw [QuotaHistory.updatePeriod, ids_updateRow hs.id]
    exact h.ids
  eventIds := h.eventIds
  wellFormed := h.wellFormed_update hcu hs
  ordered := h.ordered_update hcu hop hs
  open_exists := by
    intro p hp
    have hso : ∃ p' ∈ hist.periods, p.SameWindow p' := by
      rcases (h.mem_update hcu).mp hp with ⟨hp, -⟩ | rfl
      · exact ⟨p, hp, rfl, rfl⟩
      · exact ⟨cur, hcu, hs.channel, hs.kind⟩
    obtain ⟨p', hp', hsm⟩ := hso
    obtain ⟨q, hq, hsa, hqo⟩ := h.open_exists p' hp'
    have hw : p.SameWindow q := ⟨hsm.1.trans hsa.1, hsm.2.trans hsa.2⟩
    by_cases heq : q = cur
    · subst heq
      exact ⟨set q, (h.mem_update hcu).mpr (.inr rfl), (hs.sameWindow_iff p).mpr hw,
        hst⟩
    · exact ⟨q, (h.mem_update hcu).mpr (.inl ⟨hq, heq⟩), hw, hqo⟩
  applied := h.applied
  manual := by
    intro cid kind
    have hc := countP_updateRow (f := set) (·.endedManually cid kind) h.ids hcu
    rw [(h.wellFormed cur hcu).not_manual hop, hs.wellFormed.not_manual hst] at hc
    exact (Nat.add_right_cancel hc).trans (h.manual cid kind)

end

/-- A used event counts for the window it was used for, and for no other. -/
theorem usedFor_setAppliedAt (hf : (ev.appliedAt kind).isNone = true)
    (hc : ev.credentialId = cid) (time : Int) (cid' : Uuid)
    (kind' : CodexQuotaWindowKind) :
    (if (ev.setAppliedAt time kind).usedFor cid' kind' then 1 else 0) =
      (if ev.usedFor cid' kind' then 1 else 0) +
        (if cid = cid' ∧ kind = kind' then 1 else 0) := by
  by_cases hc : ev.credentialId = cid'
  · cases kind <;> cases kind' <;>
      simp_all [ResetEvent.usedFor, ResetEvent.setAppliedAt, ResetEvent.appliedAt]
  · cases kind <;> cases kind' <;>
      simp_all [ResetEvent.usedFor, ResetEvent.setAppliedAt, ResetEvent.appliedAt]

theorem appliedCount_setAppliedAt (hf : (ev.appliedAt kind).isNone = true) (time : Int) :
    (ev.setAppliedAt time kind).appliedCount = ev.appliedCount + 1 := by
  have hn := Option.isNone_iff_eq_none.mp hf
  cases kind with
  | primary =>
    simp only [ResetEvent.appliedAt] at hn
    cases hot : ev.secondaryAppliedAt <;>
      simp [ResetEvent.appliedCount, ResetEvent.setAppliedAt, hn, hot]
  | secondary =>
    simp only [ResetEvent.appliedAt] at hn
    cases hot : ev.primaryAppliedAt <;>
      simp [ResetEvent.appliedCount, ResetEvent.setAppliedAt, hn, hot]

theorem claimable_eq_true {latest earliest : Int}
    (h : ev.claimable cid kind latest earliest = true) :
    ev.credentialId = cid ∧ ev.appliedCount < ev.windowsReset ∧
      (ev.appliedAt kind).isNone = true := by
  simp only [ResetEvent.claimable, Bool.and_eq_true, beq_iff_eq, decide_eq_true_eq] at h
  exact ⟨h.1.1.1.1.1, h.1.1.1.2, h.2⟩

/-- What explaining a transition leaves of the events: used no more than they may be, and one
use more for a manual reset of this window. -/
theorem Sound.events_explained (h : Sound hist) {reason : ResetReason}
    (he : Explained hist cid kind reason hist') :
    (hist'.events.map (·.id)).Nodup ∧
      (∀ ev ∈ hist'.events, ev.appliedCount ≤ ev.windowsReset) ∧
      ∀ cid' kind', hist'.events.countP (·.usedFor cid' kind') =
        hist.events.countP (·.usedFor cid' kind') +
          (if reason = .manual ∧ cid = cid' ∧ kind = kind' then 1 else 0) := by
  cases he with
  | natural => exact ⟨h.eventIds, h.applied, fun _ _ => by simp⟩
  | official => exact ⟨h.eventIds, h.applied, fun _ _ => by simp⟩
  | manual ev time latest earliest hev hc =>
    obtain ⟨hch, hco, hf⟩ := claimable_eq_true hc
    have hid : ∀ e : ResetEvent, (e.setAppliedAt time kind).id = e.id := by
      intro e
      cases kind <;> rfl
    have hw : (ev.setAppliedAt time kind).windowsReset = ev.windowsReset := by
      cases kind <;> rfl
    refine ⟨?_, ?_, ?_⟩
    · have hk : ((hist.markApplied ev.id kind time).events.map (·.id)) =
          hist.events.map (·.id) := map_key_updateRow hid ev.id
      rw [hk]
      exact h.eventIds
    · intro o hot
      rcases (mem_updateRow h.eventIds hev).mp hot with ⟨hot, -⟩ | rfl
      · exact h.applied o hot
      · rw [appliedCount_setAppliedAt hf, hw]
        omega
    · intro cid' kind'
      have hu := countP_updateRow (f := (·.setAppliedAt time kind))
        (·.usedFor cid' kind') h.eventIds hev
      rw [usedFor_setAppliedAt hf hch] at hu
      simp only [true_and]
      have hg : (hist.markApplied ev.id kind time).events =
          updateRow (·.id) ev.id (·.setAppliedAt time kind) hist.events := rfl
      rw [hg]
      omega

section Steps
variable {obs : ObservedCodexQuotaWindow} {chk : Int}

theorem Sound.opened (h : Sound hist) (hn : hist.current cid kind = none)
    (hft : obs.Fits chk) (hpo : 0 < obs.windowSeconds)
    (hid : ∀ period ∈ hist.periods, period.id ≠ id) :
    Sound { hist with
      periods := hist.periods ++ [obs.period id cid kind chk] } := by
  have hw := wellFormed_period hft hpo id cid kind
  have hfi := h.none_of_current_none hn
  refine ⟨?_, h.eventIds, ?_, ?_, ?_, h.applied, ?_⟩
  · rw [map_append, nodup_append]
    refine ⟨h.ids, by simp, ?_⟩
    rintro first hf second hse rfl
    obtain ⟨p, hp, rfl⟩ := mem_map.mp hf
    exact hid p hp (by simpa [ObservedCodexQuotaWindow.period, openPeriod] using hse)
  · intro p hp
    rcases mem_append.mp hp with hp | hp
    · exact h.wellFormed p hp
    · rw [mem_singleton.mp hp]
      exact hw
  · rw [pairwise_append]
    refine ⟨h.ordered, pairwise_singleton _ _, fun p hp q hq hs => ?_⟩
    rw [mem_singleton.mp hq] at hs
    exact absurd hs (hfi p hp)
  · intro p hp
    rcases mem_append.mp hp with hp | hp
    · obtain ⟨q, hq, hs, hop⟩ := h.open_exists p hp
      exact ⟨q, mem_append_left _ hq, hs, hop⟩
    · exact ⟨p, mem_append_right _ hp, ⟨rfl, rfl⟩, by rw [mem_singleton.mp hp]; rfl⟩
  · intro cid' kind'
    rw [countP_append, countP_singleton, hw.not_manual rfl]
    exact h.manual cid' kind'

variable {ended : Int} {reason : ResetReason}

theorem rewrites_close (hcu : cur.WellFormed) (reason : ResetReason)
    (he : cur.startedAt < ended) : Rewrites (·.close reason ended) cur where
  id := fun _ => rfl
  channel := rfl
  kind := rfl
  start := le_rfl
  wellFormed :=
    { hcu with
      ended := by
        intro found hf
        cases hf
        exact he
      reason := by
        intro hop
        cases hop }

theorem Sound.closed (h : Sound hist) (hcu : hist.current cid kind = some cur)
    (hfi : obs.Fits chk) (hpo : 0 < obs.windowSeconds)
    (hl : cur.latestSameStart < obs.startedAt)
    (he : Explained hist cid kind reason hist')
    (hen : cur.naturalBoundary ≤ obs.startedAt ∧
        ended = timestamp cur.scheduledResetAt ∨ ended = timestamp obs.startedAt)
    (hid : ∀ period ∈ hist.periods, period.id ≠ id) :
    Sound { hist' with
      periods := updateRow (·.id) cur.id (·.close reason ended) hist.periods ++
        [obs.period id cid kind chk] } := by
  obtain ⟨hm, hc, hk, hop⟩ := current_eq_some hcu
  have hw := h.wellFormed cur hm
  have hwe := wellFormed_period hfi hpo id cid kind
  obtain ⟨haf, hb⟩ := ended_bounds hw hl hen
  have hse : Rewrites (·.close reason ended) cur := rewrites_close hw reason haf
  have hst : cur.startedAt < timestamp obs.startedAt := by
    have hg := start_later hw hl
    unfold seconds at hg
    omega
  obtain ⟨hev, ha, hu⟩ := h.events_explained he
  refine ⟨?_, hev, ?_, ?_, ?_, ha, ?_⟩
  · rw [map_append, ids_updateRow hse.id, nodup_append]
    refine ⟨h.ids, by simp, ?_⟩
    rintro first hf second hsc rfl
    obtain ⟨p, hp, rfl⟩ := mem_map.mp hf
    exact hid p hp (by simpa [ObservedCodexQuotaWindow.period, openPeriod] using hsc)
  · intro p hp
    rcases mem_append.mp hp with hp | hp
    · exact h.wellFormed_update hm hse p hp
    · rw [mem_singleton.mp hp]
      exact hwe
  · rw [pairwise_append]
    refine ⟨h.ordered_update hm hop hse, pairwise_singleton _ _, ?_⟩
    intro p hp q hq hs
    rw [mem_singleton.mp hq] at hs ⊢
    rcases (h.mem_update hm).mp hp with ⟨hp, hne⟩ | rfl
    · -- An older period precedes the one just closed, which started before the new one.
      have hwi : p.SameWindow cur :=
        ⟨hs.1.trans hc.symm, hs.2.trans hk.symm⟩
      obtain ⟨hlt, found, hfo, hle⟩ := h.precedes_open hp hm hne hwi hop
      exact ⟨hlt.trans hst, found, hfo, hle.trans (Int.add_le_add_right hst.le _)⟩
    · exact ⟨hst, ended, rfl, hb⟩
  · intro p hp
    by_cases hwi : p.credentialId = cid ∧ p.windowKind = kind
    · exact ⟨_, mem_append_right _ mem_cons_self, hwi, rfl⟩
    · rcases mem_append.mp hp with hp | hp
      · rcases (h.mem_update hm).mp hp with ⟨hp, -⟩ | rfl
        · obtain ⟨q, hq, hs, hqo⟩ := h.open_exists p hp
          have hne : q ≠ cur := by
            rintro rfl
            exact hwi ⟨hs.1.trans hc, hs.2.trans hk⟩
          exact ⟨q, mem_append_left _ ((h.mem_update hm).mpr (.inl ⟨hq, hne⟩)), hs, hqo⟩
        · exact absurd ⟨hc, hk⟩ hwi
      · rw [mem_singleton.mp hp] at hwi
        exact absurd ⟨rfl, rfl⟩ hwi
  · intro cid' kind'
    have hco := countP_updateRow (f := (·.close reason ended))
      (·.endedManually cid' kind') h.ids hm
    rw [hw.not_manual hop] at hco
    rw [countP_append, countP_singleton, hwe.not_manual rfl, hu,
      ← h.manual cid' kind']
    have hcl : (cur.close reason ended).endedManually cid' kind' =
        decide (reason = .manual ∧ cid = cid' ∧ kind = kind') := by
      subst hc hk
      rw [Bool.eq_iff_iff]
      simp only [WindowPeriod.endedManually, WindowPeriod.close, Bool.and_eq_true, beq_iff_eq,
        Option.some.injEq, decide_eq_true_eq]
      exact and_comm
    rw [hcl] at hco
    simp only [decide_eq_true_eq, Bool.false_eq_true, if_false, Nat.add_zero] at hco ⊢
    exact hco

theorem rewrites_observe (hcu : cur.WellFormed) (hc : Stored (timestamp chk))
    (usedPercent : Int) : Rewrites (·.observe usedPercent (timestamp chk)) cur where
  id := fun _ => rfl
  channel := rfl
  kind := rfl
  start := le_rfl
  wellFormed :=
    { hcu with
      observed := by
        show Stored (max cur.lastObservedAt (timestamp chk))
        rcases max_choice cur.lastObservedAt (timestamp chk) with hm | hm
        · rw [hm]
          exact hcu.observed
        · rw [hm]
          exact hc }

theorem rewrites_shift (hcu : cur.WellFormed) (hop : cur.endedAt = none)
    (hf : obs.Fits chk) (hp : 0 < obs.windowSeconds)
    (hl : cur.latestSameStart < obs.startedAt) :
    Rewrites (·.shift obs (timestamp obs.startedAt) (timestamp obs.resetAt)
      (timestamp chk)) cur where
  id := fun _ => rfl
  channel := rfl
  kind := rfl
  start := by
    have hg := start_later hcu hl
    show cur.startedAt ≤ timestamp obs.startedAt
    unfold seconds at hg
    omega
  wellFormed :=
    { bounded := ⟨hp, window_length obs.resetAt obs.windowSeconds hp⟩
      started := hf.start
      scheduled := hf.reset
      observed := (rewrites_observe hcu hf.check obs.usedPercent).wellFormed.observed
      ended := by
        intro ended he
        rw [WindowPeriod.shift, hop] at he
        cases he
      reason := fun _ => hcu.reason hop }

theorem Sound.reconciliation (h : Sound hist) (hp : 0 < obs.windowSeconds)
    (hs : Reconciliation hist id cid kind obs chk hist') :
    Sound hist' := by
  cases hs with
  | opened hno hf hid => exact h.opened hno hf hp hid
  | stale cur hcu hol => exact h
  | observed cur hcu hn hc =>
    obtain ⟨hm, -, -, hop⟩ := current_eq_some hcu
    exact h.update hm hop (rewrites_observe (h.wellFormed cur hm) hc _) hop
  | shifted cur hcu hn hf hl =>
    obtain ⟨hm, -, -, hop⟩ := current_eq_some hcu
    exact h.update hm hop (rewrites_shift (h.wellFormed cur hm) hop hf hp hl)
      hop
  | closed cur hcu hn hf hl reason explained he ended hen hid =>
    exact h.closed hcu hf hp hl he hen hid

def QuotaHistory.window (history : QuotaHistory) (channelId : Uuid) (kind : CodexQuotaWindowKind) :
    List WindowPeriod :=
  history.periods.filter (fun p => p.credentialId == channelId && p.windowKind == kind)

/-- Which events were used for windows of one kind, and when. -/
def QuotaHistory.uses (history : QuotaHistory) (kind : CodexQuotaWindowKind) :
    List (Uuid × Option Int) :=
  history.events.map (fun event => (event.id, event.appliedAt kind))

theorem current_eq_find (hist : QuotaHistory) (cid : Uuid) (kind : CodexQuotaWindowKind) :
    hist.current cid kind =
      (hist.window cid kind).find? (fun p => p.endedAt.isNone) := by
  rw [QuotaHistory.window, List.find?_filter]
  simp only [Bool.decide_and, Bool.decide_eq_true]
  rfl

variable {kind' : CodexQuotaWindowKind}

theorem Explained.uses (h : Explained hist cid kind reason hist')
    (hne : kind' ≠ kind) : hist'.uses kind' = hist.uses kind' := by
  cases h with
  | natural => rfl
  | official => rfl
  | manual ev time latest earliest he hc =>
    rw [QuotaHistory.uses, QuotaHistory.uses, QuotaHistory.markApplied, updateRow, map_map]
    apply map_congr_left
    intro o _
    rw [Function.comp_apply]
    split_ifs
    · cases kind <;> cases kind' <;>
        first
        | exact absurd rfl hne
        | rfl
    · rfl

/-- Reconciling one window leaves the others alone. -/
theorem Sound.window_reconciliation (h : Sound hist)
    (hs : Reconciliation hist id cid kind obs chk hist')
    {cid' : Uuid} (hne : ¬ (cid = cid' ∧ kind = kind')) :
    hist'.window cid' kind' = hist.window cid' kind' := by
  have hot : ∀ p : WindowPeriod, p.credentialId = cid → p.windowKind = kind →
      (p.credentialId == cid' && p.windowKind == kind') = false := by
    rintro p rfl rfl
    simpa using hne
  have hu : ∀ (cur : WindowPeriod) (set : WindowPeriod → WindowPeriod),
      hist.current cid kind = some cur →
      (set cur).credentialId = cur.credentialId →
      (set cur).windowKind = cur.windowKind →
      (updateRow (·.id) cur.id set hist.periods).filter
          (fun p => p.credentialId == cid' && p.windowKind == kind') =
        hist.window cid' kind' := by
    intro cur set hcu hch hk
    obtain ⟨hm, hc, hki, -⟩ := current_eq_some hcu
    exact filter_updateRow _ h.ids hm (hot cur hc hki)
      (hot (set cur) (hch.trans hc) (hk.trans hki))
  cases hs with
  | opened hno hf hid =>
    rw [QuotaHistory.window, filter_append, filter_singleton, hot _ rfl rfl]
    exact append_nil _
  | stale cur hcu hol => rfl
  | observed cur hcu hn hcc => exact hu cur _ hcu rfl rfl
  | shifted cur hcu hn hf hl => exact hu cur _ hcu rfl rfl
  | closed cur hcu hn hf hl reason explained he ended hen hid =>
    have hcl := hu cur (·.close reason ended) hcu rfl rfl
    rw [QuotaHistory.window, filter_append, filter_singleton, hot _ rfl rfl, hcl]
    exact append_nil _

theorem Reconciliation.uses_of_ne
    (h : Reconciliation hist id cid kind obs chk hist')
    (hne : kind' ≠ kind) :
    hist'.uses kind' = hist.uses kind' := by
  cases h with
  | opened hno hf hid => rfl
  | stale cur hcu hol => rfl
  | observed cur hcu hn hc => rfl
  | shifted cur hcu hn hf hl => rfl
  | closed cur hcu hn hf hl reason explained he ended hen hid =>
    exact he.uses hne

/-- An observation older than the open period changes nothing. -/
theorem Reconciliation.of_stale
    (h : Reconciliation hist id cid kind obs chk hist')
    (hcu : hist.current cid kind = some cur)
    (hol : chk < cur.lastObservedAt) : hist' = hist := by
  have hfo : ∀ found, hist.current cid kind = some found →
      ¬ found.lastObservedAt ≤ chk := by
    intro found hfo
    rw [hcu] at hfo
    cases hfo
    exact Int.not_le.mpr hol
  cases h with
  | opened hno hfi hid =>
    rw [hcu] at hno
    cases hno
  | stale found hs holder => rfl
  | observed found hf hn hc => exact absurd hn (hfo found hf)
  | shifted found hf hn hfi hl => exact absurd hn (hfo found hf)
  | closed found hf hn hfi hl reason explained he ended hen hid =>
    exact absurd hn (hfo found hf)

/-- In a sound history the open period is found. -/
theorem Sound.current_of_mem (h : Sound hist) (hp : p ∈ hist.periods)
    (hop : p.endedAt = none) : hist.current p.credentialId p.windowKind = some p := by
  cases hcu : hist.current p.credentialId p.windowKind with
  | none => exact absurd hop (current_eq_none hcu p hp rfl rfl)
  | some q =>
    obtain ⟨hq, hc, hk, hqo⟩ := current_eq_some hcu
    rw [h.open_unique hp hq ⟨hc.symm, hk.symm⟩ hop hqo]

/-- The open period of the reconciled window was last observed no earlier than before. -/
theorem Sound.lastObserved_reconciliation (h : Sound hist) (hps : 0 < obs.windowSeconds)
    (hst : Reconciliation hist id cid kind obs chk hist')
    (hcu : hist.current cid kind = some cur) :
    ∃ cur', hist'.current cid kind = some cur' ∧
      cur.lastObservedAt ≤ cur'.lastObservedAt := by
  have hs' := h.reconciliation hps hst
  obtain ⟨hm, hc, hk, hop⟩ := current_eq_some hcu
  -- The open period of the new history, wherever it comes from.
  have hfo : ∀ p ∈ hist'.periods, p.credentialId = cid → p.windowKind = kind →
      p.endedAt = none → cur.lastObservedAt ≤ p.lastObservedAt →
      ∃ cur', hist'.current cid kind = some cur' ∧
        cur.lastObservedAt ≤ cur'.lastObservedAt := by
    rintro p hp rfl rfl hpo hle
    exact ⟨p, hs'.current_of_mem hp hpo, hle⟩
  cases hst with
  | opened hno hfi hid =>
    rw [hcu] at hno
    cases hno
  | stale found hf hol => exact ⟨cur, hcu, le_rfl⟩
  | observed found hf hn hch =>
    obtain rfl : cur = found := Option.some.inj (hcu.symm.trans hf)
    exact hfo _ ((h.mem_update hm).mpr (.inr rfl)) hc hk hop (le_max_left _ _)
  | shifted found hf hn hfi hl =>
    obtain rfl : cur = found := Option.some.inj (hcu.symm.trans hf)
    exact hfo _ ((h.mem_update hm).mpr (.inr rfl)) hc hk hop (le_max_left _ _)
  | closed found hf hn hfi hl reason explained he ended hen hid =>
    obtain rfl : cur = found := Option.some.inj (hcu.symm.trans hf)
    refine hfo _ (mem_append_right _ mem_cons_self) rfl rfl rfl ?_
    have hs := timestamp_mono hn
    rw [(h.wellFormed cur hm).observed.2] at hs
    exact hs

end Steps
end AiGateway.Codex
