import AiGateway.Admission.Accounting

/-! Deleting the state of idle keys is unobservable: a runtime that never forgets a key answers
every run alike. -/
namespace AiGateway.Admission
open Domain Lib List Option Table

namespace AdmissionState

/-- An admission without its sweep over idle keys. -/
def admitKeeping (now : Duration) (all : AdmissionState) (key : CompiledApiKey) :
    Option (Except AdmissionError Unit × AdmissionState) :=
  if key.quotaExhaustedAt (all.quotaUsed key) then some (.error .insufficientQuota, all)
  else
    (((all.keys.get key.id).getD .default).admitRequest now key).map (fun answer =>
      (answer.1, { all with keys := all.keys.insert key.id answer.2 }))

/-- The drop of a lease without the removal of its key. -/
def dropKeeping (all : AdmissionState) (keyId : Uuid) : Option AdmissionState :=
  (all.keys.get keyId).map (fun state =>
    { all with keys := all.keys.insert keyId { state with inFlight := state.inFlight - 1 } })

end AdmissionState

namespace System

def answer (sys : System) : Op → Option (Except AdmissionError Unit)
  | .admitRequest key => (sys.admission.admitRequest sys.clock key).map Prod.fst
  | .drop _ | .settle _ _ | .advance _ => none

def answerKeeping (sys : System) : Op → Option (Except AdmissionError Unit)
  | .admitRequest key => (sys.admission.admitKeeping sys.clock key).map Prod.fst
  | .drop _ | .settle _ _ | .advance _ => none

/-- One step of the runtime that never forgets a key. -/
def stepKeeping (sys : System) : Op → Option System
  | .admitRequest key =>
    (sys.admission.admitKeeping sys.clock key).map (fun answer => sys.answered key answer.1 answer.2)
  | .drop lease =>
    match sys.leases[lease]? with
    | none => some sys
    | some keyId =>
      (sys.admission.dropKeeping keyId).map (fun admission =>
        { sys with admission := admission, leases := sys.leases.eraseIdx lease })
  | .settle keyId quotaUsedAmount =>
    some { sys with admission := sys.admission.recordSettledQuotaUsage keyId quotaUsedAmount }
  | .advance elapsed => some { sys with clock := sys.clock + elapsed }

end System

/-- A state the next admission of its key reads like a fresh one. -/
def KeyState.Idle (now : Duration) (state : KeyState) : Prop :=
  state.inFlight = 0 ∧ ∀ started, state.windowStartedAt = some started → started + window ≤ now

/-- The first table is the second one without some idle keys. -/
def Forgotten (now : Duration) (keys kept : Table Uuid KeyState) : Prop :=
  ∀ keyId, keys.get keyId = kept.get keyId ∨
    keys.get keyId = none ∧ ∀ state, kept.get keyId = some state → state.Idle now

section Tables
variable {now : Duration} {keys kept : Table Uuid KeyState}

theorem Forgotten.advance (h : Forgotten now keys kept) (elapsed : Duration) :
    Forgotten (now + elapsed) keys kept := by
  intro kid
  refine (h kid).imp_right (fun hid => ⟨hid.1, fun st hst => ?_⟩)
  obtain ⟨hf, hov⟩ := hid.2 st hst
  exact ⟨hf, fun start hs => Nat.le_add_right_of_le (hov start hs)⟩

theorem Forgotten.insert (h : Forgotten now keys kept) (kid : Uuid) (st : KeyState) :
    Forgotten now (keys.insert kid st) (kept.insert kid st) := by
  intro o
  rw [get_insert, get_insert]
  split_ifs with hot
  · exact .inl rfl
  · exact h o

variable {st : KeyState}

theorem Forgotten.erase {kid : Uuid} (h : Forgotten now keys kept)
    (hid : st.Idle now) : Forgotten now (keys.erase kid) (kept.insert kid st) := by
  intro o
  rw [get_erase, get_insert]
  split_ifs with hot
  · refine .inr ⟨rfl, fun st' hs' => ?_⟩
    cases hs'
    exact hid
  · exact h o

theorem idle_of_not_retained (h : ¬ st.retained now = true) : st.Idle now := by
  simp only [KeyState.retained, Bool.or_eq_true, decide_eq_true_eq, not_or] at h
  refine ⟨by omega, fun start hs => ?_⟩
  have hl := h.2
  rw [hs, any_some, decide_eq_true_eq] at hl
  exact window_over (Nat.le_of_not_ge hl)

theorem Forgotten.prune (h : Forgotten now keys kept) :
    Forgotten now (keys.retain (fun _ st => st.retained now)) kept := by
  intro kid
  rw [get_retain]
  rcases h kid with heq | ⟨hn, hid⟩
  · rw [heq]
    cases hs : kept.get kid with
    | none => exact .inl rfl
    | some st =>
      rw [filter_some]
      split_ifs with hr
      · exact .inl rfl
      · refine .inr ⟨rfl, fun o hot => ?_⟩
        cases hot
        exact idle_of_not_retained hr
  · rw [hn]
    exact .inr ⟨rfl, hid⟩

/-- An idle state opens its next window as a new key does. -/
theorem KeyState.Idle.refreshed (h : st.Idle now) :
    st.refreshed now = KeyState.default.refreshed now := by
  have hr : st.windowStartedAt.all (fun start => decide (window ≤ now - start)) := by
    cases hs : st.windowStartedAt with
    | none => rfl
    | some start =>
      have hov : start + window ≤ now := h.2 start hs
      rw [all_some, decide_eq_true_eq]
      exact Nat.le_sub_of_add_le' hov
  have hf : KeyState.default.refreshed now = ⟨some now, 0, 0⟩ := rfl
  rw [hf, KeyState.refreshed, if_pos hr, h.1]

theorem Forgotten.gates (h : Forgotten now keys kept) (key : CompiledApiKey) :
    ((keys.get key.id).getD .default).admitRequest now key =
      ((kept.get key.id).getD .default).admitRequest now key := by
  rcases h key.id with heq | ⟨hn, hid⟩
  · rw [heq]
  · rw [hn]
    cases hs : kept.get key.id with
    | none => rfl
    | some st =>
      unfold KeyState.admitRequest
      rw [getD_none, getD_some, (hid st hs).refreshed]

end Tables

theorem KeyState.admitRequest_returns (now : Duration) (key : CompiledApiKey) (st : KeyState) :
    ∃ answer, st.admitRequest now key = some answer := by
  obtain ⟨start, hs⟩ := refreshed_started now st
  unfold KeyState.admitRequest
  dsimp only
  rw [hs]
  split_ifs <;> exact ⟨_, rfl⟩

theorem Forgotten.admitKeeping {now : Duration} {all kept : AdmissionState}
    (h : Forgotten now all.keys kept.keys) (hs : all.settledQuotaUsed = kept.settledQuotaUsed)
    (key : CompiledApiKey) :
    ∃ res all' kept', all.admitKeeping now key = some (res, all') ∧
      kept.admitKeeping now key = some (res, kept') ∧
      all'.settledQuotaUsed = kept'.settledQuotaUsed ∧ Forgotten now all'.keys kept'.keys := by
  have hq : all.quotaUsed key = kept.quotaUsed key := by
    unfold AdmissionState.quotaUsed
    rw [hs]
  obtain ⟨answer, ha⟩ :=
    KeyState.admitRequest_returns now key ((kept.keys.get key.id).getD .default)
  unfold AdmissionState.admitKeeping
  rw [hq, h.gates key, ha]
  split_ifs with he
  · exact ⟨_, _, _, rfl, rfl, hs, h⟩
  · exact ⟨_, _, _, rfl, rfl, hs, h.insert key.id answer.2⟩

/-- The two runtimes agree on everything but the idle keys one of them has forgotten. -/
structure Agrees (sys kept : System) : Prop where
  clock : sys.clock = kept.clock
  leases : sys.leases = kept.leases
  settled : sys.admission.settledQuotaUsed = kept.admission.settledQuotaUsed
  keys : Forgotten sys.clock sys.admission.keys kept.admission.keys

section Steps
variable {sys kept : System}

/-- An admission answers alike and leaves states that differ only in idle keys. -/
theorem Agrees.admitted (h : Agrees sys kept) (key : CompiledApiKey) :
    ∃ res adm adm', sys.admission.admitRequest sys.clock key = some (res, adm) ∧
      kept.admission.admitKeeping kept.clock key = some (res, adm') ∧
      Agrees (sys.answered key res adm) (kept.answered key res adm') := by
  have hp : Forgotten sys.clock (sys.admission.prune sys.clock).keys kept.admission.keys :=
    h.keys.prune
  obtain ⟨res, adm, adm', hr, hk, hs, hke⟩ := hp.admitKeeping h.settled key
  refine ⟨res, adm, adm', hr, h.clock ▸ hk, h.clock, ?_, hs, hke⟩
  unfold System.answered
  rw [h.leases]

theorem Agrees.drop (h : Agrees sys kept) (hso : sys.Sound) {lease : ℕ} {kid : Uuid}
    (hle : sys.leases[lease]? = some kid) :
    ∃ adm adm', sys.admission.dropLease sys.clock kid = some adm ∧
      kept.admission.dropKeeping kid = some adm' ∧
      Agrees { sys with admission := adm, leases := sys.leases.eraseIdx lease }
        { kept with admission := adm', leases := kept.leases.eraseIdx lease } := by
  obtain ⟨adm, hd, -⟩ := System.dropped_sound hso hle
  obtain ⟨st, hg, ha⟩ := map_eq_some_iff.mp hd
  have hk : kept.admission.keys.get kid = some st := by
    rcases h.keys kid with heq | ⟨hn, -⟩
    · exact heq ▸ hg
    · cases hn.symm.trans hg
  have hl : sys.leases.eraseIdx lease = kept.leases.eraseIdx lease := by rw [h.leases]
  refine ⟨adm, _, hd, by rw [AdmissionState.dropKeeping, hk, map_some], ?_⟩
  dsimp only at ha
  split_ifs at ha with hr
  · subst ha
    refine ⟨h.clock, hl, h.settled, h.keys.erase ⟨hr.1, fun start hs => ?_⟩⟩
    have hla := hr.2
    rw [hs, any_some, decide_eq_true_eq] at hla
    exact window_over (Nat.le_of_lt hla)
  · subst ha
    exact ⟨h.clock, hl, h.settled, h.keys.insert kid _⟩

theorem Agrees.settle (h : Agrees sys kept) (kid : Uuid) (quotaUsedAmount : ℚ) :
    Agrees { sys with admission := sys.admission.recordSettledQuotaUsage kid quotaUsedAmount }
      { kept with admission := kept.admission.recordSettledQuotaUsage kid quotaUsedAmount } := by
  refine ⟨h.clock, h.leases, ?_, h.keys⟩
  unfold AdmissionState.recordSettledQuotaUsage
  rw [h.settled]

/-- Every operation answers alike and keeps the two runtimes in agreement. -/
theorem Agrees.step (h : Agrees sys kept) (hso : sys.Sound) (op : Op) :
    sys.answer op = kept.answerKeeping op ∧ ∃ sys' kept', sys.step op = some sys' ∧
      kept.stepKeeping op = some kept' ∧ (sys'.Fits → sys'.Sound ∧ Agrees sys' kept') := by
  obtain ⟨sys', hs, hfi⟩ := System.step_sound hso op
  cases op with
  | admitRequest key =>
    obtain ⟨res, adm, adm', hr, hk, ha⟩ := h.admitted key
    refine ⟨?_, sys', kept.answered key res adm', hs, ?_, ?_⟩
    · simp only [System.answer, System.answerKeeping, hr, hk, map_some]
    · simp only [System.stepKeeping, hk, map_some]
    · simp only [System.step, hr, map_some, Option.some.injEq] at hs
      subst hs
      exact fun hf => ⟨hfi hf, ha⟩
  | drop lease =>
    refine ⟨rfl, sys', ?_⟩
    unfold System.stepKeeping
    rw [← h.leases]
    cases hl : sys.leases[lease]? with
    | none =>
      simp only [System.step, hl, Option.some.injEq] at hs ⊢
      subst hs
      exact ⟨kept, rfl, rfl, fun hf => ⟨hfi hf, h⟩⟩
    | some kid =>
      obtain ⟨adm, adm', hr, hk, ha⟩ := h.drop hso hl
      simp only [System.step, hl, hr, hk, map_some, Option.some.injEq] at hs ⊢
      subst hs
      exact ⟨_, rfl, rfl, fun hf => ⟨hfi hf, h.leases ▸ ha⟩⟩
  | settle kid quotaUsedAmount =>
    cases hs
    exact ⟨rfl, _, _, rfl, rfl, fun hf => ⟨hfi hf, h.settle kid quotaUsedAmount⟩⟩
  | advance elapsed =>
    cases hs
    refine ⟨rfl, _, _, rfl, rfl, fun hf => ⟨hfi hf, ?_, h.leases, h.settled, ?_⟩⟩
    · exact congrArg (· + elapsed) h.clock
    · exact h.keys.advance elapsed

end Steps

/-- While no key has 2 ^ 32 leases alive, the runtime answers every run as the one that never
forgets a key. -/
theorem forgetting_unobservable (ops : List Op) (hops : Through System.step System.Fits .init ops) :
    ∃ answers, outputs System.step System.answer .init ops = some answers ∧
      outputs System.stepKeeping System.answerKeeping .init ops = some answers := by
  have hin : System.init.Sound ∧ Agrees .init .init :=
    ⟨ledger_empty 0, rfl, rfl, rfl, fun _ => .inl rfl⟩
  exact outputs_eq_of_simulation (R := fun sys kept => sys.Sound ∧ Agrees sys kept)
    (fun _ _ op h => h.2.step h.1 op) hin hops

/-- An idle key is deleted by a drop, and its next window starts from nothing. -/
theorem forgetting_unobservable_late_drop :
    let key := policyKey 1 (some 1) (some 1) none
    let ops : List Op := [.admitRequest key, .advance (Duration.fromSecs 61), .drop 0,
      .admitRequest key, .admitRequest key]
    Through System.step System.Fits .init ops ∧
      ∃ answers, outputs System.step System.answer .init ops = some answers ∧
        outputs System.stepKeeping System.answerKeeping .init ops = some answers :=
  have hop := System.through_of_length (by decide)
  ⟨hop, forgetting_unobservable _ hop⟩

/-- Dropping as many leases as the counter counts forgets the key once its window is over. -/
theorem run_drops (sys : System) {kid : Uuid} {start : Duration} {reqs k r : ℕ}
    (hl : sys.leases = List.replicate (k + 1 + r) kid)
    (hg : sys.admission.keys.get kid = some ⟨some start, reqs, k + 1⟩)
    (hov : window < sys.clock - start) :
    ∃ sys', run? System.step sys (List.replicate (k + 1) (.drop 0)) = some sys' ∧
      sys'.admission.keys.get kid = none ∧ sys'.leases = List.replicate r kid := by
  induction k generalizing sys with
  | zero =>
    have hf : sys.leases[0]? = some kid := by
      rw [hl, Nat.add_comm, replicate_succ, List.getElem?_cons_zero]
    refine ⟨{ sys with admission := { sys.admission with keys := sys.admission.keys.erase kid },
                       leases := sys.leases.eraseIdx 0 }, ?_, get_erase_self _ _, ?_⟩
    · rw [replicate_one, run?_cons]
      simp [System.step, hf, AdmissionState.dropLease, hg, hov]
    · show sys.leases.eraseIdx 0 = _
      rw [hl, Nat.add_comm, replicate_succ, eraseIdx_cons_zero]
  | succ k ih =>
    have hf : sys.leases[0]? = some kid := by
      rw [hl, Nat.add_right_comm, replicate_succ, List.getElem?_cons_zero]
    have hs : sys.step (.drop 0) = some { sys with
        admission := { sys.admission with
          keys := sys.admission.keys.insert kid ⟨some start, reqs, k + 1⟩ },
        leases := sys.leases.eraseIdx 0 } := by
      simp [System.step, hf, AdmissionState.dropLease, hg]
    rw [replicate_succ, run?_cons, hs]
    refine ih _ ?_ (get_insert_self _ _ _) hov
    rw [hl, Nat.add_right_comm, replicate_succ, eraseIdx_cons_zero]

/-- More leases than the counter counts: the drop of the last one finds its key deleted. -/
theorem run_overflow {key : CompiledApiKey} (hr : key.requestsPerMinute = none)
    (hm : key.maxConcurrentRequests = none) (hli : key.quotaLimitAmount = none) {n : ℕ}
    (hn : n = u32Max) :
    run? System.step .init (List.replicate (n + 1) (.admitRequest key) ++
      .advance (Duration.fromSecs 61) :: List.replicate (n + 1) (.drop 0)) = none := by
  obtain ⟨sys, hru, hf, hl, hc, hs⟩ := run_unlimited hr hm hli (n + 1)
  obtain ⟨k, hk⟩ : ∃ k, n = k + 1 := Nat.exists_eq_succ_of_ne_zero (by rw [hn]; decide)
  obtain ⟨st, hg⟩ : ∃ st, sys.admission.keys.get key.id = some st := by
    cases hg : sys.admission.keys.get key.id with
    | none =>
      rw [AdmissionState.inFlight, hg, elim_none] at hf
      omega
    | some st => exact ⟨st, rfl⟩
  have hst : st = ⟨some 0, st.requestsInWindow, k + 1⟩ := by
    rw [AdmissionState.inFlight, hg, elim_some] at hf
    have hfl : st.inFlight = k + 1 := by omega
    rw [← hs st hg, ← hfl]
  rw [run?_append, hru]
  show run? System.step { sys with clock := sys.clock + Duration.fromSecs 61 } _ = none
  rw [replicate_succ', run?_append, hk]
  have hov : window < sys.clock + Duration.fromSecs 61 - 0 := by
    rw [hc]
    decide
  obtain ⟨sys', hd, hfo, hla⟩ := run_drops
    { sys with clock := sys.clock + Duration.fromSecs 61 } (hk ▸ hl)
    (hg.trans (congrArg some hst)) hov
  rw [hd]
  simp [System.step, hla, AdmissionState.dropLease, hfo]

/-- The runtime that forgets nothing has a state for every lease. -/
def System.Held (sys : System) : Prop :=
  ∀ keyId ∈ sys.leases, ∃ state, sys.admission.keys.get keyId = some state

variable {sys : System}

theorem System.Held.insert (h : sys.Held) (kid : Uuid) (st : KeyState) :
    ∀ o ∈ sys.leases ++ [kid], ∃ st', (sys.admission.keys.insert kid st).get o = some st' := by
  intro o hot
  rw [get_insert]
  split_ifs with heq
  · exact ⟨st, rfl⟩
  · rcases mem_append.mp hot with hm | hm
    · exact h o hm
    · exact absurd (mem_singleton.mp hm) heq

theorem System.stepKeeping_held (h : sys.Held) (op : Op) :
    ∃ sys', sys.stepKeeping op = some sys' ∧ sys'.Held := by
  cases op with
  | admitRequest key =>
    obtain ⟨answer, ha⟩ :=
      KeyState.admitRequest_returns sys.clock key ((sys.admission.keys.get key.id).getD .default)
    unfold System.stepKeeping AdmissionState.admitKeeping
    dsimp only
    rw [ha]
    split_ifs with he
    · exact ⟨_, rfl, h⟩
    · refine ⟨_, rfl, fun kid hm => h.insert key.id answer.2 kid ?_⟩
      unfold System.answered at hm
      dsimp only at hm
      split_ifs at hm
      · exact hm
      · exact mem_append_left _ hm
  | drop lease =>
    cases hl : sys.leases[lease]? with
    | none => exact ⟨sys, by simp only [System.stepKeeping, hl], h⟩
    | some kid =>
      obtain ⟨st, hg⟩ := h kid (mem_of_getElem? hl)
      simp only [System.stepKeeping, hl, AdmissionState.dropKeeping, hg, map_some]
      refine ⟨_, rfl, fun o hm => h.insert kid _ o ?_⟩
      exact mem_append_left _ (mem_of_mem_eraseIdx hm)
  | settle kid quotaUsedAmount => exact ⟨_, rfl, h⟩
  | advance elapsed => exact ⟨_, rfl, h⟩

theorem System.runKeeping_returns (ops : List Op) :
    ∃ sys, run? System.stepKeeping .init ops = some sys ∧ sys.Held := by
  have hin : System.init.Held := forall_mem_nil _
  refine run?_invariant (P := fun _ => True) (fun sys op h => ?_) hin ?_
  · obtain ⟨sys', hs, hh⟩ := System.stepKeeping_held h op
    exact ⟨sys', hs, fun _ => hh⟩
  · generalize System.init = sys
    induction ops generalizing sys with
    | nil => trivial
    | cons op ops ih => exact ⟨trivial, fun sys' _ => ih sys'⟩

/-- With 2 ^ 32 leases of one key alive the saturated counter reaches zero one lease early: the
drop of the last lease panics, and only in the runtime that forgets. -/
theorem last_drop_panics :
    let key := policyKey 1 none none none
    let ops : List Op := List.replicate (2 ^ 32) (.admitRequest key) ++
      .advance (Duration.fromSecs 61) :: List.replicate (2 ^ 32) (.drop 0)
    outputs System.step System.answer .init ops = none ∧
      ∃ answers, outputs System.stepKeeping System.answerKeeping .init ops = some answers := by
  intro key ops
  have hp : run? System.step .init ops = none := run_overflow rfl rfl rfl rfl
  obtain ⟨sys, hr, -⟩ := System.runKeeping_returns ops
  constructor
  · rw [← not_isSome_iff_eq_none, outputs_isSome, hp]
    exact Bool.false_ne_true
  · rw [← isSome_iff_exists, outputs_isSome, hr]
    rfl

end AiGateway.Admission
