import AiGateway.Codex.QuotaWindows

/-! How stored times relate to reported ones, and what reconciling one window with a report
can do to its history. -/
namespace AiGateway.Codex
open Domain Lib Lib.Stage List

section Times
variable {s t : Int}

/-- A time that reads back from storage as it is. -/
def Stored (t : Int) : Prop := Storable t ∧ timestamp t = t

theorem timestamp_of_le (h : storageEpoch ≤ t) : timestamp t = t - t % 1000 := by
  have hs : 0 ≤ t - storageEpoch := Int.sub_nonneg_of_le h
  rw [timestamp, Int.tdiv_eq_ediv_of_nonneg hs]
  unfold storageEpoch seconds
  omega

theorem timestamp_of_ge (h : t ≤ storageEpoch) : timestamp t = t + (-t) % 1000 := by
  have hs : 0 ≤ storageEpoch - t := Int.sub_nonneg_of_le h
  have hn : (t - storageEpoch).tdiv 1000 = -((storageEpoch - t) / 1000) := by
    rw [← Int.tdiv_eq_ediv_of_nonneg hs, ← Int.neg_tdiv, neg_sub]
  rw [timestamp, hn]
  unfold storageEpoch seconds
  omega

theorem timestamp_eq_self_iff : timestamp t = t ↔ t % 1000 = 0 := by
  rcases le_total storageEpoch t with h | h
  · rw [timestamp_of_le h]
    omega
  · rw [timestamp_of_ge h]
    omega

/-- Whole seconds away from a stored time are kept by storage too. -/
theorem timestamp_add_seconds (h : timestamp t = t) (n : Int) :
    timestamp (t + seconds n) = t + seconds n := by
  rw [timestamp_eq_self_iff] at h ⊢
  unfold seconds
  omega

theorem encodeTimestamp_eq_ok (h : encodeTimestamp t = .ok s) : s = timestamp t ∧ Stored s := by
  unfold encodeTimestamp at h
  split_ifs at h with hs
  cases h
  exact ⟨rfl, hs, timestamp_timestamp t⟩

/-- Storing both ends of a window keeps its length, but for a window that spans the storage
epoch: cutting towards the epoch may take a microsecond from it. -/
theorem window_length (t : Int) (n : Int) (hn : 0 < n) :
    timestamp t = timestamp (t - seconds n) + seconds n ∨
      timestamp (t - seconds n) ≤ storageEpoch ∧ storageEpoch ≤ timestamp t ∧
        timestamp t = timestamp (t - seconds n) + seconds n - 1000 := by
  have hp : 0 < seconds n := by
    unfold seconds
    omega
  rcases le_total storageEpoch (t - seconds n) with hs | hs
  · rw [timestamp_of_le hs, timestamp_of_le (by omega)]
    unfold seconds
    omega
  · rcases le_total storageEpoch t with he | he
    · rw [timestamp_of_ge hs, timestamp_of_le he]
      unfold seconds storageEpoch at *
      unfold seconds at *
      omega
    · rw [timestamp_of_ge hs, timestamp_of_ge he]
      unfold seconds
      omega

end Times

section Outcomes
variable {hist hist' explained : QuotaHistory} {id cid : Uuid} {kind : CodexQuotaWindowKind}
  {obs : ObservedCodexQuotaWindow}
  {chk latest earliest transitionStartedAt observedAt s t ended : Int}

/-- Where a report puts the start of its window. -/
def ObservedCodexQuotaWindow.startedAt (observation : ObservedCodexQuotaWindow) : Int :=
  observation.resetAt - seconds observation.windowSeconds

def ObservedCodexQuotaWindow.period (observation : ObservedCodexQuotaWindow) (id channelId : Uuid)
    (kind : CodexQuotaWindowKind) (checkedAt : Int) : WindowPeriod :=
  openPeriod id channelId kind observation (timestamp observation.startedAt)
    (timestamp observation.resetAt) (timestamp checkedAt)

/-- The bounds of a report fit into storage. -/
structure ObservedCodexQuotaWindow.Fits (observation : ObservedCodexQuotaWindow) (checkedAt : Int) :
    Prop where
  start : Stored (timestamp observation.startedAt)
  reset : Stored (timestamp observation.resetAt)
  check : Stored (timestamp checkedAt)

/-- The history once a transition is explained: a manual reset uses up an event. -/
inductive Explained (history : QuotaHistory) (channelId : Uuid) (kind : CodexQuotaWindowKind) :
    ResetReason → QuotaHistory → Prop
  | natural : Explained history channelId kind .natural history
  | official : Explained history channelId kind .openaiOfficial history
  | manual (event : ResetEvent) (time latest earliest : Int) (hevent : event ∈ history.events)
      (hclaimable : event.claimable channelId kind latest earliest = true) :
      Explained history channelId kind .manual (history.markApplied event.id kind time)

/-- What reconciling one window can do. -/
inductive Reconciliation (history : QuotaHistory) (id channelId : Uuid)
    (kind : CodexQuotaWindowKind) (observation : ObservedCodexQuotaWindow) (checkedAt : Int) :
    QuotaHistory → Prop
  | opened (hnone : history.current channelId kind = none) (hfits : observation.Fits checkedAt)
      (hid : ∀ period ∈ history.periods, period.id ≠ id) :
      Reconciliation history id channelId kind observation checkedAt
        { history with
          periods := history.periods ++ [observation.period id channelId kind checkedAt] }
  | stale (current : WindowPeriod) (hcurrent : history.current channelId kind = some current)
      (hold : checkedAt < current.lastObservedAt) :
      Reconciliation history id channelId kind observation checkedAt history
  | observed (current : WindowPeriod) (hcurrent : history.current channelId kind = some current)
      (hnew : current.lastObservedAt ≤ checkedAt) (hcheck : Stored (timestamp checkedAt)) :
      Reconciliation history id channelId kind observation checkedAt
        (history.updatePeriod current.id (·.observe observation.usedPercent (timestamp checkedAt)))
  | shifted (current : WindowPeriod) (hcurrent : history.current channelId kind = some current)
      (hnew : current.lastObservedAt ≤ checkedAt) (hfits : observation.Fits checkedAt)
      (hlater : current.latestSameStart < observation.startedAt) :
      Reconciliation history id channelId kind observation checkedAt
        (history.updatePeriod current.id
          (·.shift observation (timestamp observation.startedAt) (timestamp observation.resetAt)
            (timestamp checkedAt)))
  | closed (current : WindowPeriod) (hcurrent : history.current channelId kind = some current)
      (hnew : current.lastObservedAt ≤ checkedAt) (hfits : observation.Fits checkedAt)
      (hlater : current.latestSameStart < observation.startedAt) (reason : ResetReason)
      (explained : QuotaHistory) (hexplained : Explained history channelId kind reason explained)
      (ended : Int)
      (hended : current.naturalBoundary ≤ observation.startedAt ∧
          ended = timestamp current.scheduledResetAt ∨
        ended = timestamp observation.startedAt)
      (hid : ∀ period ∈ history.periods, period.id ≠ id) :
      Reconciliation history id channelId kind observation checkedAt
        { explained with
          periods := updateRow (·.id) current.id (·.close reason ended) history.periods ++
            [observation.period id channelId kind checkedAt] }

theorem insertCodexQuotaWindowPeriod_eq_ok
    (h : insertCodexQuotaWindowPeriod hist id cid kind obs obs.startedAt chk = .ok hist') :
    obs.Fits chk ∧ (∀ period ∈ hist.periods, period.id ≠ id) ∧ hist' = { hist with
        periods := hist.periods ++ [obs.period id cid kind chk] } := by
  obtain ⟨start, hs, h⟩ := bind_eq_ok.mp h
  obtain ⟨reset, hr, h⟩ := bind_eq_ok.mp h
  obtain ⟨observedAt, hob, h⟩ := bind_eq_ok.mp h
  obtain ⟨⟨⟩, -, h⟩ := bind_eq_ok.mp h
  obtain ⟨⟨⟩, hid, h⟩ := bind_eq_ok.mp h
  obtain ⟨⟨⟩, -, h⟩ := bind_eq_ok.mp h
  obtain ⟨⟨⟩, -, h⟩ := bind_eq_ok.mp h
  cases h
  obtain ⟨rfl, hs⟩ := encodeTimestamp_eq_ok hs
  obtain ⟨rfl, hr⟩ := encodeTimestamp_eq_ok hr
  obtain ⟨rfl, hob⟩ := encodeTimestamp_eq_ok hob
  refine ⟨⟨hs, hr, hob⟩, ?_, rfl⟩
  simpa using ensure_eq_ok.mp hid

theorem newer_eq_or (ev o : ResetEvent) :
    ev.newer o = ev ∨ ev.newer o = o := by
  unfold ResetEvent.newer
  split_ifs
  · exact .inr rfl
  · exact .inl rfl

theorem foldl_newer_mem (evs : List ResetEvent) (ev : ResetEvent) :
    evs.foldl ResetEvent.newer ev ∈ ev :: evs := by
  induction evs generalizing ev with
  | nil => exact mem_cons_self
  | cons first evs ih =>
    rcases mem_cons.mp (ih (ev.newer first)) with heq | hm
    · rcases newer_eq_or ev first with hn | hn
      · exact mem_cons.mpr (.inl (heq.trans hn))
      · exact mem_cons_of_mem _ (mem_cons.mpr (.inl (heq.trans hn)))
    · exact mem_cons_of_mem _ (mem_cons_of_mem _ hm)

theorem newestClaimable_eq_some {ev : ResetEvent}
    (h : hist.newestClaimable cid kind latest earliest = some ev) :
    ev ∈ hist.events ∧ ev.claimable cid kind latest earliest = true := by
  unfold QuotaHistory.newestClaimable at h
  cases hf : hist.events.filter
      (fun ev => ev.claimable cid kind latest earliest) with
  | nil => simp [hf] at h
  | cons first evs =>
    rw [hf] at h
    have hm := foldl_newer_mem evs first
    rw [Option.some.inj h, ← hf] at hm
    exact mem_filter.mp hm

variable {claimed : Bool} {cur : WindowPeriod}

theorem claimManualCodexQuotaReset_eq_ok
    (h : claimManualCodexQuotaReset hist cid kind transitionStartedAt observedAt =
      .ok (hist', claimed)) :
    claimed = false ∧ hist' = hist ∨ claimed = true ∧ Explained hist cid kind .manual hist' := by
  obtain ⟨latest, -, h⟩ := bind_eq_ok.mp h
  obtain ⟨earliest, -, h⟩ := bind_eq_ok.mp h
  obtain ⟨storedLatest, -, h⟩ := bind_eq_ok.mp h
  obtain ⟨storedEarliest, -, h⟩ := bind_eq_ok.mp h
  cases hf : hist.newestClaimable cid kind storedLatest storedEarliest with
  | none =>
    simp only [hf, Except.ok.injEq, Prod.mk.injEq] at h
    exact .inl ⟨h.2.symm, h.1.symm⟩
  | some ev =>
    simp only [hf] at h
    obtain ⟨appliedAt, -, h⟩ := bind_eq_ok.mp h
    obtain ⟨rfl, rfl⟩ := h
    obtain ⟨hm, hc⟩ := newestClaimable_eq_some hf
    exact .inr ⟨rfl, .manual ev _ _ _ hm hc⟩

variable {reason : ResetReason} {startedAt : Int}

theorem Explained.periods
    (h : Explained hist cid kind reason hist') : hist'.periods = hist.periods := by
  cases h <;> rfl

theorem checkedDateTime_eq_some (h : checkedDateTime t = some s) : s = t := by
  unfold checkedDateTime at h
  split_ifs at h
  exact (Option.some.inj h).symm

theorem ids_updateRow {set : WindowPeriod → WindowPeriod} (hs : ∀ period, (set period).id = period.id)
    (id : Uuid) (periods : List WindowPeriod) :
    (updateRow (·.id) id set periods).map (·.id) = periods.map (·.id) :=
  map_key_updateRow hs id

/-- The branch of a report that starts a new period. -/
theorem reconciliation_of_transition (hcu : hist.current cid kind = some cur)
    (hn : cur.lastObservedAt ≤ chk)
    (hl : cur.latestSameStart < obs.startedAt) (he : Explained hist cid kind reason explained)
    (hen : cur.naturalBoundary ≤ obs.startedAt ∧
        ended = timestamp cur.scheduledResetAt ∨ ended = timestamp obs.startedAt)
    (h : insertCodexQuotaWindowPeriod (explained.updatePeriod cur.id (·.close reason ended)) id
      cid kind obs obs.startedAt chk = .ok hist') :
    Reconciliation hist id cid kind obs chk hist' := by
  obtain ⟨hfi, hid, rfl⟩ := insertCodexQuotaWindowPeriod_eq_ok h
  have hp : (explained.updatePeriod cur.id (·.close reason ended)).periods =
      updateRow (·.id) cur.id (·.close reason ended) hist.periods := by
    rw [QuotaHistory.updatePeriod, he.periods]
  have hf : ∀ period ∈ hist.periods, period.id ≠ id := by
    intro period hpe heq
    have hk : id ∈ (updateRow (fun p : WindowPeriod => p.id) cur.id (·.close reason ended)
        hist.periods).map (·.id) := by
      rw [ids_updateRow (fun row => (rfl : (row.close reason ended).id = row.id))]
      exact mem_map.mpr ⟨period, hpe, heq⟩
    obtain ⟨closed, hc, hcl⟩ := mem_map.mp hk
    rw [← hp] at hc
    exact hid closed hc hcl
  have hr := Reconciliation.closed cur hcu hn hfi hl reason explained
    he ended hen hf
  rw [hp]
  exact hr

section
variable (h : claimTransition hist cid kind cur startedAt chk = .ok (hist', claimed))
include h

theorem claimTransition_eq_ok :
    claimed = false ∧ hist' = hist ∨ startedAt < cur.naturalBoundary ∧ claimed = true ∧
        Explained hist cid kind .manual hist' := by
  unfold claimTransition at h
  split_ifs at h with hea
  · rcases claimManualCodexQuotaReset_eq_ok h with hn | ⟨hc, he⟩
    · exact .inl hn
    · exact .inr ⟨hea, hc, he⟩
  · cases h
    exact .inl ⟨rfl, rfl⟩

/-- The reason given for a transition is one that explains it. -/
theorem explained_transition :
    Explained hist cid kind (cur.transition startedAt claimed).1 hist' := by
  unfold WindowPeriod.transition
  rcases claimTransition_eq_ok h with ⟨rfl, rfl⟩ | ⟨hea, rfl, he⟩
  · by_cases hn : startedAt ≥ cur.naturalBoundary
    · rw [if_pos hn]
      exact .natural
    · rw [if_neg hn, if_neg Bool.false_ne_true]
      exact .official
  · rw [if_neg (Int.not_le.mpr hea), if_pos rfl]
    exact he

end

theorem transition_ended (cur : WindowPeriod) (startedAt : Int) (claimed : Bool) :
    cur.naturalBoundary ≤ startedAt ∧ (cur.transition startedAt claimed).2 = cur.scheduledResetAt ∨
      (cur.transition startedAt claimed).2 = startedAt := by
  unfold WindowPeriod.transition
  split_ifs with hn hc
  · exact .inl ⟨hn, rfl⟩
  · exact .inr rfl
  · exact .inr rfl

theorem advanceCodexQuotaWindow_eq_ok (hc : hist.current cid kind = some cur)
    (hne : cur.lastObservedAt ≤ chk)
    (hl : cur.latestSameStart < obs.startedAt)
    (h : advanceCodexQuotaWindow hist id cid kind obs cur obs.startedAt chk = .ok hist') :
    Reconciliation hist id cid kind obs chk hist' := by
  obtain ⟨⟨claimed, manual⟩, hcl, h⟩ := bind_eq_ok.mp h
  cases hu : cur.initialUsedPercent == 0 && cur.lastUsedPercent == 0 &&
      decide (obs.startedAt < cur.naturalBoundary) && !manual with
  | true =>
    simp only [hu, if_true] at h
    obtain ⟨start, hs, h⟩ := bind_eq_ok.mp h
    obtain ⟨reset, hr, h⟩ := bind_eq_ok.mp h
    obtain ⟨observedAt, hob, h⟩ := bind_eq_ok.mp h
    obtain ⟨⟨⟩, -, h⟩ := bind_eq_ok.mp h
    obtain ⟨⟨⟩, -, h⟩ := bind_eq_ok.mp h
    cases h
    obtain ⟨rfl, hs⟩ := encodeTimestamp_eq_ok hs
    obtain ⟨rfl, hr⟩ := encodeTimestamp_eq_ok hr
    obtain ⟨rfl, hob⟩ := encodeTimestamp_eq_ok hob
    obtain rfl : claimed = hist := by
      rcases claimTransition_eq_ok hcl with ⟨-, heq⟩ | ⟨-, rfl, -⟩
      · exact heq
      · simp at hu
    exact .shifted cur hc hne ⟨hs, hr, hob⟩ hl
  | false =>
    simp only [hu, Bool.false_eq_true, if_false] at h
    obtain ⟨ended, he, h⟩ := bind_eq_ok.mp h
    obtain ⟨⟨⟩, -, h⟩ := bind_eq_ok.mp h
    obtain ⟨rfl, -⟩ := encodeTimestamp_eq_ok he
    refine reconciliation_of_transition hc hne hl (explained_transition hcl) ?_ h
    rcases transition_ended cur obs.startedAt manual with ⟨hn, heq⟩ | heq
    · exact .inl ⟨hn, congrArg timestamp heq⟩
    · exact .inr (congrArg timestamp heq)

theorem reconcileCodexQuotaWindow_eq_ok
    (h : reconcileCodexQuotaWindow hist id cid kind obs chk = .ok hist') :
    Reconciliation hist id cid kind obs chk hist' := by
  obtain ⟨start, hsr, h⟩ := bind_eq_ok.mp h
  obtain rfl : start = obs.startedAt := checkedDateTime_eq_some (orReject_eq_ok.mp hsr)
  cases hc : hist.current cid kind with
  | none =>
    simp only [hc] at h
    obtain ⟨hf, hid, rfl⟩ := insertCodexQuotaWindowPeriod_eq_ok h
    exact .opened hc hf hid
  | some cur =>
    simp only [hc] at h
    by_cases hol : chk < cur.lastObservedAt
    · rw [if_pos hol] at h
      cases h
      exact .stale cur hc hol
    · rw [if_neg hol] at h
      have hn : cur.lastObservedAt ≤ chk := Int.not_lt.mp hol
      cases hs : samePeriod cur obs ||
          decide (obs.startedAt ≤ cur.latestSameStart) with
      | true =>
        rw [hs, if_pos rfl] at h
        obtain ⟨observedAt, hob, h⟩ := bind_eq_ok.mp h
        cases h
        obtain ⟨rfl, hst⟩ := encodeTimestamp_eq_ok hob
        exact .observed cur hc hn hst
      | false =>
        rw [hs, if_neg Bool.false_ne_true] at h
        simp only [Bool.or_eq_false_iff, decide_eq_false_iff_not, Int.not_le] at hs
        exact advanceCodexQuotaWindow_eq_ok hc hn hs.2 h

end Outcomes
end AiGateway.Codex
