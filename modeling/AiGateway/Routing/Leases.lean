import AiGateway.Routing.Selection

/-! Leases and the registry of channel states over whole runs: every live lease is counted
in the state registered for its identity, and a retired channel keeps its state exactly
until its last lease ends. -/
namespace AiGateway.Routing.Leases
open Domain Lib List Option Table

/-- Live leases share registered states and are counted in them. -/
structure Shared (s : RoutingState) (leases : List ChannelLease) : Prop where
  allocated : ∀ identity ref, s.channelStates.get identity = some ref → ref < s.nextRef
  injective : ∀ identity other ref, s.channelStates.get identity = some ref →
    s.channelStates.get other = some ref → identity = other
  leased : ∀ lease ∈ leases, s.channelStates.get lease.identity = some lease.state
  counted : ∀ ref, (s.heap ref).inFlight = leases.countP (fun lease => lease.state = ref)

/-- The active flag of every registered state is the one given for its identity. -/
def Flagged (s : RoutingState) (active : ChannelIdentity → Bool) : Prop :=
  ∀ identity ref, s.channelStates.get identity = some ref → (s.heap ref).active = active identity

section Shared
variable {s : RoutingState} {leases rest : List ChannelLease} {s' : RoutingState}
  {act : ChannelIdentity → Bool} {f : ChannelState → ChannelState} {lease : ChannelLease}

theorem Shared.of_same (h : Shared s leases) (hs : SameChannels s s') : Shared s' leases := by
  constructor
  · rw [hs.states, hs.next]
    exact h.allocated
  · rw [hs.states]
    exact h.injective
  · rw [hs.states]
    exact h.leased
  · rw [hs.heap]
    exact h.counted

theorem Flagged.of_same (h : Flagged s act) (hs : SameChannels s s') : Flagged s' act := by
  unfold Flagged
  rw [hs.states, hs.heap]
  exact h

theorem heap_modify (ref o : ℕ) (f : ChannelState → ChannelState) :
    (s.modify ref f).heap o = if o = ref then f (s.heap ref) else s.heap o := by
  unfold RoutingState.modify
  simp only [Function.update_apply]

theorem Shared.modify (h : Shared s leases) (ref : ℕ)
    (hf : (f (s.heap ref)).inFlight = (s.heap ref).inFlight) : Shared (s.modify ref f) leases := by
  refine ⟨h.allocated, h.injective, h.leased, fun o => ?_⟩
  rw [heap_modify, ← h.counted]
  split_ifs with heq
  · rw [hf, heq]
  · rfl

theorem Flagged.modify (h : Flagged s act) (ref : ℕ)
    (hf : (f (s.heap ref)).active = (s.heap ref).active) :
    Flagged (s.modify ref f) act := by
  intro identity o hg
  rw [heap_modify, ← h identity o hg]
  split_ifs with heq
  · rw [hf, heq]
  · rfl

theorem Shared.insertState (h : Shared s leases) {identity : ChannelIdentity}
    (hfr : s.channelStates.get identity = none) (act : Bool) :
    Shared (s.insertState identity act) leases := by
  have hg : ∀ o ref, (s.insertState identity act).channelStates.get o = some ref →
      (o = identity ∧ ref = s.nextRef) ∨ (o ≠ identity ∧ s.channelStates.get o = some ref) := by
    intro o ref hot
    unfold RoutingState.insertState at hot
    rw [get_insert] at hot
    split_ifs at hot with heq
    · exact .inl ⟨heq, (Option.some.inj hot).symm⟩
    · exact .inr ⟨heq, hot⟩
  constructor
  · intro o ref hot
    show ref < s.nextRef + 1
    rcases hg o ref hot with ⟨-, rfl⟩ | ⟨-, hol⟩
    · omega
    · have := h.allocated o ref hol
      omega
  · intro first second ref hf hs
    rcases hg first ref hf with ⟨rfl, rfl⟩ | ⟨-, hol⟩ <;>
      rcases hg second _ hs with ⟨rfl, heq⟩ | ⟨-, ho'⟩
    · rfl
    · exact absurd (h.allocated _ _ ho') (lt_irrefl _)
    · exact absurd (heq ▸ h.allocated _ _ hol) (lt_irrefl _)
    · exact h.injective _ _ _ hol ho'
  · intro lease hm
    have hl := h.leased lease hm
    have hne : lease.identity ≠ identity := fun heq => by simp [heq, hfr] at hl
    show (s.channelStates.insert identity s.nextRef).get lease.identity = some lease.state
    rw [get_insert_ne _ _ hne]
    exact hl
  · intro ref
    show (Function.update s.heap s.nextRef (ChannelState.new act) ref).inFlight = _
    rw [Function.update_apply]
    split_ifs with heq
    · subst heq
      have hn : leases.countP (fun lease => lease.state = s.nextRef) = 0 := by
        rw [countP_eq_zero]
        intro lease hm
        have := h.allocated _ _ (h.leased lease hm)
        simp only [decide_eq_true_eq]
        omega
      rw [hn]
      rfl
    · exact h.counted ref

theorem Flagged.insertState (h : Flagged s act)
    (hs : Shared s leases) (identity : ChannelIdentity) :
    Flagged (s.insertState identity (act identity)) act := by
  intro o ref hot
  show (Function.update s.heap s.nextRef (ChannelState.new (act identity)) ref).active = _
  unfold RoutingState.insertState at hot
  rw [get_insert] at hot
  rw [Function.update_apply]
  split_ifs at hot with heq
  · rw [if_pos (Option.some.inj hot).symm, heq]
    rfl
  · have hlt := hs.allocated o ref hot
    rw [if_neg (by omega)]
    exact h o ref hot

theorem Shared.restrict (h : Shared s leases) {sts : Table ChannelIdentity ℕ}
    (hs : ∀ identity ref, sts.get identity = some ref → s.channelStates.get identity = some ref)
    (hk : ∀ lease ∈ leases, sts.get lease.identity = some lease.state) :
    Shared { s with channelStates := sts } leases where
  allocated := fun identity ref hg => h.allocated identity ref (hs identity ref hg)
  injective := fun identity o ref hg hg' =>
    h.injective identity o ref (hs _ _ hg) (hs _ _ hg')
  leased := hk
  counted := h.counted

theorem Shared.acquire (h : Shared s leases)
    (hg : s.channelStates.get lease.identity = some lease.state) {st : ChannelState}
    (hc : st.inFlight = (s.heap lease.state).inFlight + 1) :
    Shared (s.modify lease.state (fun _ => st)) (lease :: leases) := by
  refine ⟨h.allocated, h.injective, ?_, fun ref => ?_⟩
  · intro o hm
    rcases mem_cons.mp hm with rfl | hm
    · exact hg
    · exact h.leased o hm
  · rw [heap_modify, countP_cons, ← h.counted]
    by_cases heq : ref = lease.state
    · simp [heq, hc]
    · simp [heq, Ne.symm heq]

theorem Shared.inFlight_pos (h : Shared s leases) (hm : lease ∈ leases) :
    0 < (s.heap lease.state).inFlight := by
  rw [h.counted, countP_pos_iff]
  exact ⟨lease, hm, by simp⟩

/-- The end of a lease, whatever it does to the cooldown word. -/
theorem Shared.release (h : Shared s leases)
    (hp : leases.Perm (lease :: rest))
    (hf : (f (s.heap lease.state)).inFlight = (s.heap lease.state).inFlight - 1) :
    Shared (s.modify lease.state f) rest := by
  refine ⟨h.allocated, h.injective, ?_, fun ref => ?_⟩
  · intro o hm
    exact h.leased o (hp.mem_iff.mpr (mem_cons_of_mem _ hm))
  · have hc := h.counted ref
    rw [hp.countP_eq, countP_cons] at hc
    rw [heap_modify]
    by_cases heq : ref = lease.state
    · subst heq
      simp only [decide_true, if_true] at hc
      rw [if_pos rfl]
      omega
    · simp only [Ne.symm heq, decide_false, Bool.false_eq_true, if_false] at hc
      rw [if_neg heq]
      omega

end Shared

/-- In the last reconciled snapshot, or used while none has been reconciled yet. -/
def Wanted (s : RoutingState) (used : List ChannelIdentity) (identity : ChannelIdentity) : Prop :=
  match s.activeChannels with
  | some active => identity ∈ active
  | none => identity ∈ used

def HasLease (leases : List ChannelLease) (identity : ChannelIdentity) : Prop :=
  ∃ lease ∈ leases, lease.identity = identity

/-- The invariant: sharing and counts, active flags, and what is registered. -/
structure Ledger (s : RoutingState) (used : List ChannelIdentity) (leases : List ChannelLease) :
    Prop extends Shared s leases where
  flagged : Flagged s s.inActiveSet
  usedBy : ∀ lease ∈ leases, lease.identity ∈ used
  registered : ∀ identity, (s.channelStates.get identity).isSome = true ↔
    Wanted s used identity ∨ HasLease leases identity

section Ledger
variable {s s' : RoutingState} {used : List ChannelIdentity} {leases rest : List ChannelLease}

theorem Ledger.of_same (h : Ledger s used leases) (hs : SameChannels s s') :
    Ledger s' used leases := by
  refine ⟨h.toShared.of_same hs, ?_, h.usedBy, ?_⟩
  · unfold RoutingState.inActiveSet
    rw [hs.active]
    exact h.flagged.of_same hs
  · unfold Wanted
    rw [hs.states, hs.active]
    exact h.registered

theorem Ledger.modify (h : Ledger s used leases) (ref : ℕ) {f : ChannelState → ChannelState}
    (hf : (f (s.heap ref)).inFlight = (s.heap ref).inFlight ∧
      (f (s.heap ref)).active = (s.heap ref).active) : Ledger (s.modify ref f) used leases :=
  ⟨h.toShared.modify ref hf.1, h.flagged.modify ref hf.2, h.usedBy, h.registered⟩

variable {identity o : ChannelIdentity} {ref : ℕ} {act : List ChannelIdentity}

theorem wanted_iff_inActiveSet (hu : identity ∈ used) :
    Wanted s used identity ↔ s.inActiveSet identity = true := by
  unfold Wanted RoutingState.inActiveSet
  cases s.activeChannels with
  | none => simpa using hu
  | some act => simp

theorem wanted_cons (hne : o ≠ identity) :
    Wanted s (identity :: used) o ↔ Wanted s used o := by
  unfold Wanted
  cases s.activeChannels with
  | some act => exact Iff.rfl
  | none => simp [hne]

theorem wanted_congr (ha : s'.activeChannels = s.activeChannels) (identity : ChannelIdentity) :
    Wanted s' used identity ↔ Wanted s used identity := by
  unfold Wanted
  rw [ha]

/-- The state an acquisition works on is registered, and nothing else changed before it. -/
theorem channelStateOrInsert_spec (h : Ledger s used leases) (identity : ChannelIdentity)
    (hs : s.channelStateOrInsert identity = (ref, s')) :
    Shared s' leases ∧ Flagged s' s.inActiveSet ∧ s'.activeChannels = s.activeChannels ∧
      s'.channelStates.get identity = some ref ∧
      ∀ o, o ≠ identity → s'.channelStates.get o = s.channelStates.get o := by
  unfold RoutingState.channelStateOrInsert at hs
  cases hg : s.channelStates.get identity with
  | some registered =>
    simp only [hg] at hs
    cases hs
    exact ⟨h.toShared, h.flagged, rfl, hg, fun _ _ => rfl⟩
  | none =>
    simp only [hg] at hs
    cases hs
    refine ⟨h.toShared.insertState hg _, h.flagged.insertState h.toShared identity, rfl, ?_, ?_⟩
    · exact get_insert_self _ _ _
    · intro o hne
      exact get_insert_ne _ _ hne

theorem Ledger.acquire (h : Ledger s used leases) {lease : ChannelLease} {now : Duration}
    {claim : Word}
    (ha : s.tryAcquireChannel lease.identity now = (some (lease.state, claim), s')) :
    Ledger s' (lease.identity :: used) (lease :: leases) := by
  unfold RoutingState.tryAcquireChannel at ha
  cases hs : s.channelStateOrInsert lease.identity with
  | mk ref s₁ =>
    obtain ⟨hsh, hf, hac, hg, hot⟩ := channelStateOrInsert_spec h _ hs
    simp only [hs] at ha
    cases hr : (s₁.heap ref).tryAcquire now with
    | none =>
      simp only [hr] at ha
      cases ha
    | some res =>
      obtain ⟨hc, hfl⟩ := ChannelState.tryAcquire_effect hr
      simp only [hr, Prod.mk.injEq, Option.some.injEq] at ha
      obtain ⟨⟨rfl, rfl⟩, rfl⟩ := ha
      refine ⟨hsh.acquire hg hc, ?_, ?_, ?_⟩
      · have hse : s₁.inActiveSet = s.inActiveSet := by
          unfold RoutingState.inActiveSet
          rw [hac]
        show Flagged _ s₁.inActiveSet
        rw [hse]
        exact hf.modify _ hfl
      · intro o hm
        rcases mem_cons.mp hm with rfl | hm
        · exact mem_cons_self
        · exact mem_cons_of_mem _ (h.usedBy o hm)
      · intro identity
        show (s₁.channelStates.get identity).isSome = true ↔ _
        by_cases heq : identity = lease.identity
        · subst heq
          simp only [hg, isSome_some, true_iff]
          exact .inr ⟨lease, mem_cons_self, rfl⟩
        · have hl : HasLease (lease :: leases) identity ↔ HasLease leases identity := by
            simp [HasLease, Ne.symm heq]
          rw [hot identity heq, h.registered, wanted_cons heq, hl]
          exact or_congr_left (wanted_congr hac identity).symm

theorem release_effect (st : ChannelState) (claim : Word) (hp : 0 < st.inFlight) :
    (st.release.2.cancelProbe claim).inFlight = st.inFlight - 1 ∧
      (st.release.2.cancelProbe claim).active = st.active := by
  obtain ⟨hc, hf⟩ := st.release.2.cancelProbe_keeps claim
  refine ⟨hc.trans ?_, hf⟩
  exact if_neg (by omega)

/-- The lease was the last one of its state iff the count it leaves is zero. -/
theorem Shared.inFlight_eq_zero_iff (h : Shared s leases)
    (hg : s.channelStates.get identity = some ref) :
    (s.heap ref).inFlight = 0 ↔ ¬ HasLease leases identity := by
  rw [h.counted, countP_eq_zero]
  constructor
  · rintro hn ⟨lease, hm, rfl⟩
    have hsa : lease.state = ref := Option.some.inj ((h.leased lease hm).symm.trans hg)
    exact hn lease hm (by simp [hsa])
  · intro hn lease hm hs
    have hl := h.leased lease hm
    rw [of_decide_eq_true hs] at hl
    exact hn ⟨lease, hm, h.injective _ _ _ hl hg⟩

/-- The state is unregistered by the lease that leaves none behind on a retired channel. -/
theorem drop_eq (lease : ChannelLease) (s : RoutingState)
    (hg : s.channelStates.get lease.identity = some lease.state)
    (hp : 0 < (s.heap lease.state).inFlight) :
    lease.drop s =
      let released := s.modify lease.state
        (fun st => st.release.2.cancelProbe lease.halfOpenClaim)
      if (released.heap lease.state).inFlight = 0 ∧ (s.heap lease.state).active = false then
        { released with channelStates := s.channelStates.erase lease.identity }
      else released := by
  obtain ⟨hc, hf⟩ := release_effect (s.heap lease.state) lease.halfOpenClaim hp
  have hr : (s.heap lease.state).release.1 = (s.heap lease.state).inFlight - 1 := rfl
  unfold ChannelLease.drop
  dsimp only
  rw [heap_modify, if_pos rfl, hc, hf, hr]
  by_cases hl : (s.heap lease.state).inFlight - 1 = 0 ∧ (s.heap lease.state).active = false
  · rw [if_pos hl, if_pos hl, if_pos ⟨hg, hl⟩]
    rfl
  · rw [if_neg hl, if_neg hl]

theorem Ledger.drop (h : Ledger s used leases) {lease : ChannelLease}
    (hp : leases.Perm (lease :: rest)) : Ledger (lease.drop s) used rest := by
  have hm : lease ∈ leases := hp.mem_iff.mpr mem_cons_self
  have hsu : ∀ o ∈ rest, o ∈ leases := fun o hot =>
    hp.mem_iff.mpr (mem_cons_of_mem _ hot)
  have hg := h.leased lease hm
  have he := release_effect (s.heap lease.state) lease.halfOpenClaim (h.inFlight_pos hm)
  have hs : Shared (s.modify lease.state
      (fun st => st.release.2.cancelProbe lease.halfOpenClaim)) rest :=
    h.toShared.release hp he.1
  have hf : Flagged (s.modify lease.state
      (fun st => st.release.2.cancelProbe lease.halfOpenClaim)) s.inActiveSet :=
    h.flagged.modify lease.state he.2
  have hot : ∀ identity, identity ≠ lease.identity →
      (HasLease leases identity ↔ HasLease rest identity) := by
    intro identity hne
    simp [HasLease, hp.mem_iff, Ne.symm hne]
  have hz := hs.inFlight_eq_zero_iff hg
  have hfl : (s.heap lease.state).active = s.inActiveSet lease.identity := h.flagged _ _ hg
  rw [drop_eq lease s hg (h.inFlight_pos hm)]
  dsimp only
  split_ifs with hl <;> rw [hz, hfl] at hl
  · refine ⟨hs.restrict ?_ ?_, ?_, fun o ho => h.usedBy o (hsu o ho), ?_⟩
    · intro identity ref hk
      rw [get_erase] at hk
      split_ifs at hk
      exact hk
    · intro o ho
      have hne : o.identity ≠ lease.identity := fun heq => hl.1 ⟨o, ho, heq⟩
      rw [get_erase_ne _ hne]
      exact h.leased o (hsu o ho)
    · intro identity ref hk
      rw [get_erase] at hk
      split_ifs at hk
      exact hf identity ref hk
    · intro identity
      show ((s.channelStates.erase lease.identity).get identity).isSome = true ↔
        Wanted s used identity ∨ _
      by_cases heq : identity = lease.identity
      · subst heq
        have hu : ¬ Wanted s used lease.identity := by
          rw [wanted_iff_inActiveSet (h.usedBy lease hm), hl.2]
          exact Bool.false_ne_true
        simp [hu, hl.1]
      · rw [get_erase_ne _ heq, h.registered, hot identity heq]
  · refine ⟨hs, hf, fun o ho => h.usedBy o (hsu o ho), fun identity => ?_⟩
    show (s.channelStates.get identity).isSome = true ↔ Wanted s used identity ∨ _
    by_cases heq : identity = lease.identity
    · subst heq
      simp only [hg, isSome_some, true_iff]
      rw [wanted_iff_inActiveSet (h.usedBy lease hm)]
      by_contra hn
      rw [not_or] at hn
      exact hl ⟨hn.2, by simpa using hn.1⟩
    · rw [h.registered, hot identity heq]

section
variable (act : List ChannelIdentity) (es : List (ChannelIdentity × ℕ))

theorem markActive_inFlight (s : RoutingState) (ref : ℕ) :
    ((es.foldl (RoutingState.markActive act) s).heap ref).inFlight = (s.heap ref).inFlight := by
  induction es generalizing s with
  | nil => rfl
  | cons e es ih =>
    rw [foldl_cons, ih, RoutingState.markActive, heap_modify]
    split_ifs with heq
    · rw [heq]
    · rfl

theorem markActive_states (s : RoutingState) :
    (es.foldl (RoutingState.markActive act) s).channelStates = s.channelStates ∧
      (es.foldl (RoutingState.markActive act) s).nextRef = s.nextRef := by
  induction es generalizing s with
  | nil => exact ⟨rfl, rfl⟩
  | cons e es ih => exact ih _

theorem markActive_untouched (s : RoutingState)
    (h : ∀ entry ∈ es, entry.2 ≠ ref) :
    (es.foldl (RoutingState.markActive act) s).heap ref = s.heap ref := by
  induction es generalizing s with
  | nil => rfl
  | cons entry es ih =>
    have hne := h entry mem_cons_self
    rw [foldl_cons, ih _ (fun e he => h e (mem_cons_of_mem _ he)),
      RoutingState.markActive, heap_modify, if_neg (Ne.symm hne)]

/-- Entries that share a state share its identity, so every flag is the one of its identity. -/
theorem markActive_flag (hin : ∀ e ∈ es, ∀ e' ∈ es, e.2 = e'.2 → e.1 = e'.1) (s : RoutingState) :
    ∀ e ∈ es, ((es.foldl (RoutingState.markActive act) s).heap e.2).active = act.contains e.1 := by
  induction es generalizing s with
  | nil => simp
  | cons entry es ih =>
    have hr := ih (fun e he e' he' =>
      hin e (mem_cons_of_mem _ he) e' (mem_cons_of_mem _ he'))
      (s.markActive act entry)
    intro e he
    rw [foldl_cons]
    by_cases ha : ∃ e' ∈ es, e'.2 = e.2
    · obtain ⟨e', he', hs⟩ := ha
      rw [← hs, hr e' he', hin e' (mem_cons_of_mem _ he') e he hs]
    · have hn : ∀ e' ∈ es, e'.2 ≠ e.2 := fun e' he' hs => ha ⟨e', he', hs⟩
      have hh : e = entry := by
        rcases mem_cons.mp he with rfl | hm
        · rfl
        · exact absurd rfl (hn e hm)
      rw [markActive_untouched act es _ hn, RoutingState.markActive, heap_modify, hh, if_pos rfl]

end

/-- One turn of the loop that registers the channels of the next snapshot. -/
theorem register_spec (hs : Shared s leases) (hf : Flagged s act.contains)
    (hm : identity ∈ act) :
    Shared (s.register identity) leases ∧ Flagged (s.register identity) act.contains ∧
      ∀ o, ((s.register identity).channelStates.get o).isSome = true ↔
        o = identity ∨ (s.channelStates.get o).isSome = true := by
  have ht : act.contains identity = true := by simpa using hm
  unfold RoutingState.register
  cases hg : s.channelStates.get identity with
  | some ref =>
    have hfl : (s.heap ref).active = true := (hf identity ref hg).trans ht
    refine ⟨hs.modify ref rfl, hf.modify ref hfl.symm, fun o => ?_⟩
    show (s.channelStates.get o).isSome = true ↔ _
    constructor
    · exact .inr
    · rintro (rfl | hso)
      · rw [hg]
        rfl
      · exact hso
  | none =>
    refine ⟨hs.insertState hg true, ht ▸ hf.insertState hs identity, ?_⟩
    intro o
    show ((s.channelStates.insert identity s.nextRef).get o).isSome = true ↔ _
    rw [get_insert]
    split_ifs with heq <;> simp [heq]

theorem register_all (ids : List ChannelIdentity)
    (hsu : ∀ identity ∈ ids, identity ∈ act) (hsh : Shared s leases)
    (hfl : Flagged s act.contains) :
    Shared (ids.foldl RoutingState.register s) leases ∧
      Flagged (ids.foldl RoutingState.register s) act.contains ∧
      ∀ o, ((ids.foldl RoutingState.register s).channelStates.get o).isSome = true ↔
        o ∈ ids ∨ (s.channelStates.get o).isSome = true := by
  induction ids generalizing s with
  | nil => exact ⟨hsh, hfl, by simp⟩
  | cons identity ids ih =>
    obtain ⟨hs, hf, hr⟩ := register_spec hsh hfl (hsu identity mem_cons_self)
    obtain ⟨hs', hf', hr'⟩ := ih (fun i hi => hsu i (mem_cons_of_mem _ hi)) hs hf
    refine ⟨hs', hf', fun o => ?_⟩
    rw [foldl_cons, hr', hr, mem_cons]
    tauto

/-- The flags of all registered states are copied from the next snapshot. -/
theorem markActive_spec (h : Shared s leases) (act : List ChannelIdentity) :
    Shared (s.channelStates.toList.foldl (RoutingState.markActive act) s) leases ∧
      Flagged (s.channelStates.toList.foldl (RoutingState.markActive act) s)
        act.contains := by
  obtain ⟨hs, hn⟩ := markActive_states act s.channelStates.toList s
  constructor
  · refine ⟨?_, ?_, ?_, fun ref => ?_⟩
    · rw [hs, hn]
      exact h.allocated
    · rw [hs]
      exact h.injective
    · rw [hs]
      exact h.leased
    · rw [markActive_inFlight]
      exact h.counted ref
  · intro identity ref hg
    rw [hs, get_eq_some_iff] at hg
    refine markActive_flag act _ ?_ s (identity, ref) hg
    rintro ⟨i, r⟩ hi ⟨j, r'⟩ hj rfl
    rw [← get_eq_some_iff] at hi hj
    exact h.injective i j r hi hj

/-- Idle states of retired channels are unregistered. -/
theorem retire_spec (hs : Shared s leases)
    (hf : Flagged s act.contains) {kept : Table ChannelIdentity ℕ}
    (hke : s.channelStates.retain (fun identity ref =>
      act.contains identity || decide (0 < (s.heap ref).inFlight)) = kept) :
    Shared { s with channelStates := kept } leases ∧
      Flagged { s with channelStates := kept } act.contains ∧
      ∀ identity, (kept.get identity).isSome = true →
        identity ∈ act ∨ HasLease leases identity := by
  have hg : ∀ identity ref, kept.get identity = some ref ↔ s.channelStates.get identity = some ref ∧
        (identity ∈ act ∨ 0 < (s.heap ref).inFlight) := by
    intro identity ref
    rw [← hke, get_retain]
    simp
  refine ⟨?_, fun identity ref hk => hf identity ref ((hg identity ref).mp hk).1, ?_⟩
  · refine hs.restrict (fun identity ref hk => ((hg identity ref).mp hk).1) ?_
    intro lease hm
    exact (hg _ _).mpr ⟨hs.leased lease hm, .inr (hs.inFlight_pos hm)⟩
  · intro identity hso
    obtain ⟨ref, hk⟩ := isSome_iff_exists.mp hso
    obtain ⟨hol, hm | hp⟩ := (hg identity ref).mp hk
    · exact .inl hm
    · have hne : ¬ (s.heap ref).inFlight = 0 := by omega
      rw [hs.inFlight_eq_zero_iff hol, not_not] at hne
      exact .inr hne

theorem Ledger.reconcile (h : Ledger s used leases) (snap : CompiledRuntimeConfig)
    (now : Duration) : Ledger (s.reconcile snap now) used leases := by
  generalize ha : snap.channels.values.map ChannelIdentity.fromChannel = act
  -- the three loops of the source: copy the flags, retire idle states, register the rest
  obtain ⟨hma, hm⟩ := markActive_spec h.toShared act
  generalize hmr : s.channelStates.toList.foldl (RoutingState.markActive act) s = marked
    at hma hm
  generalize hkp : marked.channelStates.retain (fun identity ref =>
    act.contains identity || decide (0 < (marked.heap ref).inFlight)) = kept
  obtain ⟨hk, hke, hre⟩ := retire_spec hma hm hkp
  obtain ⟨hs, hf, hr⟩ := register_all act.dedup (fun i hi => mem_dedup.mp hi)
    hk hke
  generalize hn : act.dedup.foldl RoutingState.register { marked with channelStates := kept } =
    registered at hs hf hr
  have hrc : SameChannels { registered with activeChannels := some act }
      (s.reconcile snap now) := by
    unfold RoutingState.reconcile
    rw [ha]
    dsimp only
    rw [hmr, hkp, hn]
    exact ⟨rfl, rfl, rfl, rfl⟩
  have hl : Ledger { registered with activeChannels := some act } used leases := by
    refine ⟨⟨hs.allocated, hs.injective, hs.leased, hs.counted⟩, hf, h.usedBy, ?_⟩
    intro identity
    rw [hr, mem_dedup]
    constructor
    · rintro (hme | hso)
      · exact .inl hme
      · exact hre identity hso
    · rintro (hme | ⟨lease, hme, rfl⟩)
      · exact .inl hme
      · exact .inr (isSome_iff_exists.mpr ⟨_, hk.leased lease hme⟩)
  exact hl.of_same hrc

end Ledger

/-- The runtime with the live leases. `used` and `reconciled` record the run: the identities
leases were handed out for, and the last reconciled snapshot. -/
structure System where
  runtime : RoutingState
  leases : List ChannelLease
  used : List ChannelIdentity
  reconciled : Option CompiledRuntimeConfig

def System.init (policy : PassiveHealthPolicy) (entropy : Entropy) : System :=
  ⟨.new policy entropy, [], [], none⟩

/-- The arguments of a selection, with the clock readings it takes. -/
structure Request where
  snapshot : CompiledRuntimeConfig
  key : CompiledApiKey
  operation : ApiOperation
  model : String
  affinity : Option SessionAffinityMatch
  excludedCandidateSlots : List ℕ
  capability : ChannelCapability
  lookupAt : Duration
  now : Duration

/-- Live leases are named by their position. -/
inductive Op where
  | reconcile (snapshot : CompiledRuntimeConfig) (now : Duration)
  | updatePolicy (policy : PassiveHealthPolicy)
  | select (request : Request) (fuel : ℕ)
  | selectPreferred (request : Request) (preferredChannelId : Uuid)
      (preferredUpstreamModel : Option String)
  | requestSucceeded (index : ℕ) (now : Duration)
  | requestFailed (index : ℕ)
  | responseHeadersReceived (index : ℕ)
  | connectionFailed (index : ℕ) (now : Duration)
  | probeFailed (index : ℕ) (now : Duration)
  | drop (index : ℕ)

namespace System

/-- The outcome of a call: the new runtime, and the lease it handed out. -/
def accept (sys : System) (runtime : RoutingState) : Option ChannelLease → System
  | none => { sys with runtime := runtime }
  | some lease =>
    { sys with
      runtime := runtime
      leases := lease :: sys.leases
      used := lease.identity :: sys.used }

def report (sys : System) (index : ℕ) (outcome : ChannelLease → RoutingState → RoutingState) :
    System :=
  match sys.leases[index]? with
  | none => sys
  | some lease => { sys with runtime := outcome lease sys.runtime }

def step (sys : System) : Op → System
  | .reconcile snapshot now =>
    { sys with runtime := sys.runtime.reconcile snapshot now, reconciled := some snapshot }
  | .updatePolicy policy => { sys with runtime := sys.runtime.updatePolicy policy }
  | .select r fuel =>
    match selectWithAffinityExcludingCapability r.snapshot r.key r.operation r.model r.affinity
      r.excludedCandidateSlots r.capability r.lookupAt r.now fuel sys.runtime with
    | none => sys
    | some (result, runtime) => sys.accept runtime result.lease
  | .selectPreferred r preferredChannelId preferredUpstreamModel =>
    let (route, runtime) := selectPreferredChannelWithCapability r.snapshot r.key r.operation
      r.model preferredChannelId preferredUpstreamModel r.affinity r.excludedCandidateSlots
      r.capability r.lookupAt r.now sys.runtime
    sys.accept runtime (route.map SelectedRoute.lease)
  | .requestSucceeded index now => sys.report index (fun lease s => lease.requestSucceeded s now)
  | .requestFailed index => sys.report index ChannelLease.requestFailed
  | .responseHeadersReceived index => sys.report index ChannelLease.responseHeadersReceived
  | .connectionFailed index now => sys.report index (fun lease s => lease.connectionFailed s now)
  | .probeFailed index now => sys.report index (fun lease s => lease.probeFailed s now)
  | .drop index =>
    match sys.leases[index]? with
    | none => sys
    | some lease =>
      { sys with runtime := lease.drop sys.runtime, leases := sys.leases.eraseIdx index }

end System

section Run
variable {sys : System}

/-- The ledger of the system, with the active set of the snapshot it has seen last. -/
structure Kept (sys : System) : Prop extends Ledger sys.runtime sys.used sys.leases where
  active : sys.runtime.activeChannels = sys.reconciled.map (fun snapshot =>
    snapshot.channels.values.map ChannelIdentity.fromChannel)

theorem kept_init (policy : PassiveHealthPolicy) (entropy : Entropy) :
    Kept (System.init policy entropy) := by
  have hg : ∀ identity,
      (System.init policy entropy).runtime.channelStates.get identity = none := get_empty
  refine ⟨⟨⟨?_, ?_, by simp [System.init], fun ref => rfl⟩, ?_, by simp [System.init], ?_⟩, rfl⟩
  · simp [hg]
  · simp [hg]
  · intro identity ref
    simp [hg]
  · intro identity
    simp [System.init, Wanted, RoutingState.new, HasLease]

theorem tryAcquireChannel_active {s s' : RoutingState} {identity : ChannelIdentity}
    {now : Duration} {hd : Option (ℕ × Word)}
    (h : s.tryAcquireChannel identity now = (hd, s')) :
    s'.activeChannels = s.activeChannels := by
  have hs : ∀ s : RoutingState, (s.channelStateOrInsert identity).2.activeChannels =
      s.activeChannels := by
    intro s
    unfold RoutingState.channelStateOrInsert
    cases s.channelStates.get identity <;> rfl
  unfold RoutingState.tryAcquireChannel at h
  rw [← hs s]
  generalize s.channelStateOrInsert identity = found at h ⊢
  cases hr : (found.2.heap found.1).tryAcquire now with
  | none =>
    simp only [hr] at h
    cases h
    rfl
  | some res =>
    simp only [hr] at h
    cases h
    rfl

theorem Kept.accept (h : Kept sys) {now : Duration} {runtime : RoutingState}
    {lease : Option ChannelLease} (he : CallEffect now sys.runtime runtime lease) :
    Kept (sys.accept runtime lease) := by
  cases lease with
  | none => exact ⟨h.toLedger.of_same he, he.active.trans h.active⟩
  | some lease =>
    obtain ⟨s₁, s₂, hb, ha, haf⟩ := he
    have hl := ((h.toLedger.of_same hb).acquire ha).of_same haf
    refine ⟨hl, ?_⟩
    show runtime.activeChannels = _
    rw [haf.active, tryAcquireChannel_active ha, hb.active]
    exact h.active

theorem Kept.report (h : Kept sys) (i : ℕ)
    {out : ChannelLease → RoutingState → RoutingState}
    (hou : ∀ lease s, Ledger s sys.used sys.leases → Ledger (out lease s) sys.used sys.leases)
    (ha : ∀ lease s, (out lease s).activeChannels = s.activeChannels) :
    Kept (sys.report i out) := by
  unfold System.report
  split
  · exact h
  · rename_i lease hl
    exact ⟨hou lease sys.runtime h.toLedger, (ha lease sys.runtime).trans h.active⟩

theorem requestSucceeded_same (lease : ChannelLease) (s : RoutingState) (now : Duration) :
    SameChannels s (lease.requestSucceeded s now) := by
  unfold ChannelLease.requestSucceeded
  split
  · exact ⟨rfl, rfl, rfl, rfl⟩
  · exact SameChannels.refl s

theorem requestFailed_same (lease : ChannelLease) (s : RoutingState) :
    SameChannels s (lease.requestFailed s) := by
  unfold ChannelLease.requestFailed
  split
  · split_ifs
    · exact ⟨rfl, rfl, rfl, rfl⟩
    · exact SameChannels.refl s
  · exact SameChannels.refl s

theorem drop_active (lease : ChannelLease) (s : RoutingState) :
    (lease.drop s).activeChannels = s.activeChannels := by
  unfold ChannelLease.drop
  dsimp only
  split_ifs <;> rfl

theorem step_kept (h : Kept sys) (op : Op) : Kept (sys.step op) := by
  cases op with
  | reconcile snap now => exact ⟨h.toLedger.reconcile snap now, rfl⟩
  | updatePolicy policy => exact ⟨h.toLedger.of_same ⟨rfl, rfl, rfl, rfl⟩, h.active⟩
  | select req fuel =>
    dsimp only [System.step]
    split
    · exact h
    · rename_i res runtime hse
      exact h.accept (select_effect hse)
  | selectPreferred req pc pm =>
    exact h.accept (selectPreferred_effect _ _ _ _ _ _ _ _ _ _ _ rfl)
  | requestSucceeded i now =>
    exact h.report i (fun lease s hs => hs.of_same (requestSucceeded_same lease s now))
      (fun lease s => (requestSucceeded_same lease s now).active)
  | requestFailed i =>
    exact h.report i (fun lease s hs => hs.of_same (requestFailed_same lease s))
      (fun lease s => (requestFailed_same lease s).active)
  | responseHeadersReceived i =>
    exact h.report i (fun lease s hs => hs.modify lease.state ⟨rfl, rfl⟩) (fun _ _ => rfl)
  | connectionFailed i now =>
    exact h.report i
      (fun lease s hs => hs.modify lease.state (ChannelState.connectionFailed_keeps _ _ _))
      (fun _ _ => rfl)
  | probeFailed i now =>
    show Kept (sys.report i (fun lease s => lease.probeFailed s now))
    refine h.report i (fun lease s hs => ?_) (fun lease s => ?_)
    · unfold ChannelLease.probeFailed
      split_ifs
      · exact hs
      · exact hs.modify lease.state (ChannelState.probeFailed_keeps _ _ _)
    · unfold ChannelLease.probeFailed
      split_ifs <;> rfl
  | drop i =>
    dsimp only [System.step]
    split
    · exact h
    · rename_i lease hl
      obtain ⟨hlt, hat⟩ := List.getElem?_eq_some_iff.mp hl
      have hp : sys.leases.Perm (lease :: sys.leases.eraseIdx i) := by
        rw [← hat]
        exact (getElem_cons_eraseIdx_perm hlt).symm
      exact ⟨h.toLedger.drop hp, (drop_active lease sys.runtime).trans h.active⟩

/-- A channel of the last reconciled snapshot, or one used before any was reconciled. -/
def System.Current (sys : System) (identity : ChannelIdentity) : Prop :=
  match sys.reconciled with
  | some snapshot => ∃ channel ∈ snapshot.channels.values,
      ChannelIdentity.fromChannel channel = identity
  | none => identity ∈ sys.used

/-- What holds of the leases and the registry between any two operations. -/
structure Accounted (sys : System) : Prop where
  inFlight : ∀ ref, (sys.runtime.heap ref).inFlight =
    sys.leases.countP (fun lease => lease.state = ref)
  noWrap : ∀ lease ∈ sys.leases, 0 < (sys.runtime.heap lease.state).inFlight
  registeredState : ∀ lease ∈ sys.leases,
    sys.runtime.channelStates.get lease.identity = some lease.state
  sharedHealth : ∀ lease ∈ sys.leases, ∀ other ∈ sys.leases,
    lease.identity = other.identity → lease.state = other.state
  registered : ∀ identity, (∃ ref, sys.runtime.channelStates.get identity = some ref) ↔
    sys.Current identity ∨ ∃ lease ∈ sys.leases, lease.identity = identity

theorem Kept.accounted (h : Kept sys) : Accounted sys := by
  refine ⟨h.counted, fun lease hm => h.inFlight_pos hm, h.leased, ?_, fun identity => ?_⟩
  · intro lease hm o hot heq
    have hs := h.leased lease hm
    rw [heq, h.leased o hot] at hs
    exact (Option.some.inj hs).symm
  · have hw : Wanted sys.runtime sys.used identity ↔ sys.Current identity := by
      unfold Wanted System.Current
      rw [h.active]
      cases sys.reconciled with
      | none => exact Iff.rfl
      | some snap => simp
    rw [← isSome_iff_exists, h.registered, hw]
    exact Iff.rfl

/-- Over every run, each live lease is counted in the state registered for its identity, and
a state is registered exactly while its channel is current or has a live lease. -/
theorem leases_accounted (policy : PassiveHealthPolicy) (entropy : Entropy) (ops : List Op) :
    Accounted (run System.step (System.init policy entropy) ops) := by
  have hs : ∀ (sys : System) (op : Op), Kept sys → Kept (sys.step op) :=
    fun _ op h => step_kept h op
  exact (run_invariant hs (kept_init policy entropy) ops).accounted

end Run
end AiGateway.Routing.Leases
