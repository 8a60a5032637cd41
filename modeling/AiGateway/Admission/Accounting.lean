import AiGateway.Admission.Runtime
import AiGateway.Lib.Run
import Mathlib.Algebra.BigOperators.Group.Finset.Basic

/-! Runs of admissions, lease drops, settlements and clock advances: the counters of a key are
its live leases and the requests of its rate window. -/
namespace AiGateway.Admission
open Domain Lib List Option Table

/-- A request that passed the rate gate. -/
structure Pass where
  keyId : Uuid
  startedAt : Option Duration
  passedAt : Duration
  limit : Option ℕ
  deriving DecidableEq

/-- The runtime with the leases alive and the history of its rate gate. -/
structure System where
  clock : Duration
  admission : AdmissionState
  leases : List Uuid
  passed : List Pass

inductive Op where
  | admitRequest (key : CompiledApiKey)
  | drop (lease : ℕ)
  | settle (keyId : Uuid) (quotaUsedAmount : ℚ)
  | advance (elapsed : Duration)

def passesRateGate : Except AdmissionError Unit → Bool
  | .ok _ | .error .concurrentLimited => true
  | .error (.rateLimited _) | .error .insufficientQuota => false

namespace System

def init : System := ⟨0, .new, [], []⟩

def answered (sys : System) (key : CompiledApiKey) (result : Except AdmissionError Unit)
    (admission : AdmissionState) : System where
  clock := sys.clock
  admission := admission
  leases := if result.toBool then sys.leases ++ [key.id] else sys.leases
  passed :=
    if passesRateGate result then
      sys.passed ++ [⟨key.id, (admission.keys.get key.id).bind KeyState.windowStartedAt, sys.clock,
        key.requestsPerMinute⟩]
    else sys.passed

/-- One step, or no state when it panics. -/
def step (sys : System) : Op → Option System
  | .admitRequest key =>
    (sys.admission.admitRequest sys.clock key).map (fun answer => sys.answered key answer.1 answer.2)
  | .drop lease =>
    match sys.leases[lease]? with
    | none => some sys
    | some keyId =>
      (sys.admission.dropLease sys.clock keyId).map (fun admission =>
        { sys with admission := admission, leases := sys.leases.eraseIdx lease })
  | .settle keyId quotaUsedAmount =>
    some { sys with admission := sys.admission.recordSettledQuotaUsage keyId quotaUsedAmount }
  | .advance elapsed => some { sys with clock := sys.clock + elapsed }

/-- No key has more live leases than a 32-bit counter can count. -/
def Fits (sys : System) : Prop := ∀ keyId ∈ sys.leases, sys.leases.count keyId ≤ u32Max

end System

/-- The requests that passed the rate gate in one window of a key. -/
def passesIn (passed : List Pass) (keyId : Uuid) (startedAt : Duration) : ℕ :=
  passed.countP (fun pass => decide (pass.keyId = keyId ∧ pass.startedAt = some startedAt))

theorem passesIn_append (passed : List Pass) (pass : Pass) (kid : Uuid) (startedAt : Duration) :
    passesIn (passed ++ [pass]) kid startedAt = passesIn passed kid startedAt +
      if pass.keyId = kid ∧ pass.startedAt = some startedAt then 1 else 0 := by
  unfold passesIn
  simp

theorem passesIn_eq_zero {passed : List Pass} {kid : Uuid} {startedAt : Duration}
    (h : ∀ pass ∈ passed, pass.keyId = kid → pass.startedAt ≠ some startedAt) :
    passesIn passed kid startedAt = 0 := by
  rw [passesIn, countP_eq_zero]
  intro pass hp
  simpa using h pass hp

/-- What ties the states of the keys to the leases alive and to the history. -/
structure Ledger (clock : Duration) (keys : Table Uuid KeyState) (leases : List Uuid)
    (passed : List Pass) : Prop where
  flights : ∀ keyId, (keys.get keyId).elim 0 KeyState.inFlight = leases.count keyId
  windows : ∀ keyId state, keys.get keyId = some state → ∃ started,
    state.windowStartedAt = some started ∧ started ≤ clock ∧
      state.requestsInWindow = min (passesIn passed keyId started) u32Max
  current : ∀ pass ∈ passed, ∃ started, pass.startedAt = some started ∧
    started ≤ pass.passedAt ∧ pass.passedAt < started + window ∧ pass.passedAt ≤ clock ∧
    ((keys.get pass.keyId).bind KeyState.windowStartedAt = some started ∨ started + window ≤ clock)
  rate : ∀ keyId started limit, limit ≤ u32Max →
    (∀ pass ∈ passed, pass.keyId = keyId → pass.startedAt = some started →
      pass.limit = some limit) → passesIn passed keyId started ≤ limit

theorem window_pos : (0 : ℕ) < window := by decide

theorem lt_add_window (now : ℕ) : now < now + window := by
  have hp := window_pos
  omega

variable {now start : ℕ} {key : CompiledApiKey}

theorem window_over (h : now - start ≥ window) : start + window ≤ now := by
  have hp := window_pos
  omega

theorem window_open (hle : start ≤ now) (h : ¬ now - start ≥ window) :
    now < start + window := by
  omega

section Steps
variable {now : Duration} {keys keys' : Table Uuid KeyState} {leases : List Uuid}
  {passed : List Pass}

theorem ledger_empty (now : Duration) : Ledger now ∅ [] [] := by
  constructor <;> simp [passesIn]

theorem Ledger.advance (h : Ledger now keys leases passed) (elapsed : Duration) :
    Ledger (now + elapsed) keys leases passed := by
  refine ⟨h.flights, ?_, ?_, h.rate⟩
  · intro kid st hg
    obtain ⟨start, hs, hle, hco⟩ := h.windows kid st hg
    exact ⟨start, hs, Nat.le_add_right_of_le hle, hco⟩
  · intro pass hp
    obtain ⟨start, hs, hle, hlt, hcl, hc⟩ := h.current pass hp
    refine ⟨start, hs, hle, hlt, Nat.le_add_right_of_le hcl, ?_⟩
    exact hc.imp_right Nat.le_add_right_of_le

theorem Ledger.forget (h : Ledger now keys leases passed)
    (hg : ∀ kid, keys'.get kid = keys.get kid ∨ keys'.get kid = none ∧
      ∀ st, keys.get kid = some st → st.inFlight = 0 ∧
        ∀ start, st.windowStartedAt = some start → start + window ≤ now) :
    Ledger now keys' leases passed := by
  refine ⟨?_, ?_, ?_, h.rate⟩
  · intro kid
    rw [← h.flights]
    rcases hg kid with heq | ⟨hn, hid⟩
    · rw [heq]
    · rw [hn]
      cases hs : keys.get kid with
      | none => rfl
      | some st => exact (hid st hs).1.symm
  · intro kid st hs
    rcases hg kid with heq | ⟨hn, -⟩
    · exact h.windows kid st (heq ▸ hs)
    · rw [hn] at hs
      cases hs
  · intro pass hp
    obtain ⟨start, hst, hle, hlt, hcl, hc⟩ := h.current pass hp
    refine ⟨start, hst, hle, hlt, hcl, ?_⟩
    rcases hg pass.keyId with heq | ⟨hn, hid⟩
    · rwa [heq]
    · right
      rcases hc with hc | hc
      · obtain ⟨st, hs, hw⟩ := bind_eq_some_iff.mp hc
        exact (hid st hs).2 start hw
      · exact hc

theorem Ledger.prune (h : Ledger now keys leases passed) :
    Ledger now (keys.retain (fun _ st => st.retained now)) leases passed := by
  apply h.forget
  intro kid
  rw [get_retain]
  cases hst : keys.get kid with
  | none => exact .inl rfl
  | some st =>
    rw [filter_some]
    split_ifs with hr
    · exact .inl rfl
    · refine .inr ⟨rfl, fun o hot => ?_⟩
      cases hot
      simp only [KeyState.retained, Bool.or_eq_true, decide_eq_true_eq, not_or] at hr
      refine ⟨by omega, fun start hs => ?_⟩
      have hov := hr.2
      rw [hs, any_some, decide_eq_true_eq] at hov
      exact window_over (Nat.le_of_not_ge hov)

variable {kid : Uuid} {st : KeyState}

/-- A window that starts now has no passes yet: the key had no open window. -/
theorem Ledger.no_passes (h : Ledger now keys leases passed)
    (hov : ∀ st start, keys.get kid = some st →
      st.windowStartedAt = some start → start + window ≤ now) :
    passesIn passed kid now = 0 := by
  apply passesIn_eq_zero
  rintro pass hp rfl hn
  obtain ⟨start, hs, -, -, -, hc⟩ := h.current pass hp
  cases hs.symm.trans hn
  refine absurd ?_ (Nat.not_le.mpr (lt_add_window now))
  rcases hc with hc | hc
  · obtain ⟨st, hst, hw⟩ := bind_eq_some_iff.mp hc
    exact hov st now hst hw
  · exact hc

variable {start : Duration}

/-- Writing the state of one key: its leases may change with it, and its window only once the
old one is over. -/
theorem Ledger.insert (h : Ledger now keys leases passed) {leases' : List Uuid}
    (hoh : ∀ o, o ≠ kid → leases'.count o = leases.count o)
    (hf : st.inFlight = leases'.count kid)
    (hw : st.windowStartedAt = some start) (hle : start ≤ now)
    (hco : st.requestsInWindow = min (passesIn passed kid start) u32Max)
    (hol : ∀ old s, keys.get kid = some old → old.windowStartedAt = some s →
      s = start ∨ s + window ≤ now) :
    Ledger now (keys.insert kid st) leases' passed := by
  refine ⟨?_, ?_, ?_, h.rate⟩
  · intro o
    rw [get_insert]
    split_ifs with hot
    · subst hot
      exact hf
    · rw [hoh o hot]
      exact h.flights o
  · intro o st' hg
    rw [get_insert] at hg
    split_ifs at hg with hot
    · cases hg
      subst hot
      exact ⟨start, hw, hle, hco⟩
    · exact h.windows o st' hg
  · intro pass hp
    obtain ⟨s, hs, hle', hlt, hcl, hc⟩ := h.current pass hp
    refine ⟨s, hs, hle', hlt, hcl, ?_⟩
    rw [get_insert]
    split_ifs with hot
    · rcases hc with hc | hc
      · obtain ⟨old, hg, hs'⟩ := bind_eq_some_iff.mp hc
        rcases hol old s (hot ▸ hg) hs' with heq | hov
        · exact .inl (heq ▸ hw)
        · exact .inr hov
      · exact .inr hc
    · exact hc

theorem KeyState.refreshed_inFlight (st : KeyState) :
    (st.refreshed now).inFlight = st.inFlight := by
  unfold KeyState.refreshed
  split_ifs <;> rfl

variable (h : Ledger now keys leases passed)
include h

theorem Ledger.refresh (hst : (keys.get kid).getD .default = st) :
    Ledger now (keys.insert kid (st.refreshed now)) leases passed ∧
      ∃ start, (st.refreshed now).windowStartedAt = some start ∧ now < start + window := by
  have hf : (st.refreshed now).inFlight = leases.count kid := by
    rw [KeyState.refreshed_inFlight, ← h.flights, ← hst]
    cases keys.get kid <;> rfl
  by_cases hr : st.windowStartedAt.all (fun start => decide (window ≤ now - start))
  · have hre : st.refreshed now =
        { st with windowStartedAt := some now, requestsInWindow := 0 } := if_pos hr
    have hov : ∀ old s, keys.get kid = some old → old.windowStartedAt = some s →
        s + window ≤ now := by
      intro old s hg hs
      rw [hg, getD_some] at hst
      subst hst
      rw [hs, all_some, decide_eq_true_eq] at hr
      exact window_over hr
    rw [hre] at hf ⊢
    refine ⟨h.insert (fun _ _ => rfl) hf rfl (le_refl now) ?_
      (fun old s hg hs => .inr (hov old s hg hs)), now, rfl, lt_add_window now⟩
    rw [h.no_passes hov]
    rfl
  · have hre : st.refreshed now = st := if_neg hr
    have hg : keys.get kid = some st := by
      cases hg : keys.get kid with
      | none =>
        rw [hg] at hst
        subst hst
        exact absurd rfl hr
      | some old =>
        rw [hg] at hst
        exact congrArg some hst
    obtain ⟨start, hsr, hle, hc⟩ := h.windows kid st hg
    rw [hsr, all_some, decide_eq_true_eq] at hr
    rw [hre] at hf ⊢
    refine ⟨h.insert (fun _ _ => rfl) hf hsr hle hc (fun old s hol hs => ?_),
      start, hsr, window_open hle hr⟩
    cases hg.symm.trans hol
    exact .inl (Option.some.inj (hs.symm.trans hsr))

theorem Ledger.count (hg : keys.get kid = some st)
    (hst : st.windowStartedAt = some start) (hop : now < start + window)
    {limit : Option ℕ} (hga : ∀ l, limit = some l → st.requestsInWindow < l) :
    Ledger now (keys.insert kid st.counted) leases
      (passed ++ [⟨kid, some start, now, limit⟩]) := by
  obtain ⟨start', hs', hle, hco⟩ := h.windows kid st hg
  cases hst.symm.trans hs'
  refine ⟨?_, ?_, ?_, ?_⟩
  · intro o
    rw [← h.flights, get_insert]
    split_ifs with hot
    · subst hot
      rw [hg]
      rfl
    · rfl
  · intro o st' hg'
    rw [get_insert] at hg'
    split_ifs at hg' with hot
    · cases hg'
      subst hot
      refine ⟨start, hst, hle, ?_⟩
      rw [passesIn_append, if_pos ⟨rfl, rfl⟩]
      show saturatingSucc st.requestsInWindow = _
      unfold saturatingSucc
      omega
    · obtain ⟨s, hs, hle', hc'⟩ := h.windows o st' hg'
      refine ⟨s, hs, hle', ?_⟩
      rw [passesIn_append, if_neg (fun heq => hot heq.1.symm)]
      exact hc'
  · intro pass hp
    rcases mem_append.mp hp with hp | hp
    · obtain ⟨s, hs, hle', hlt, hcl, hc⟩ := h.current pass hp
      refine ⟨s, hs, hle', hlt, hcl, ?_⟩
      rw [get_insert]
      split_ifs with hot
      · rw [hot, hg] at hc
        exact hc
      · exact hc
    · rw [mem_singleton.mp hp]
      refine ⟨start, rfl, hle, hop, le_refl now, .inl ?_⟩
      rw [get_insert_self]
      exact hst
  · intro o s l hl ha
    rw [passesIn_append]
    have hr := h.rate o s l hl (fun pass hp => ha pass (mem_append_left _ hp))
    split_ifs with heq
    · obtain ⟨hk, hs⟩ := heq
      change kid = o at hk
      subst hk
      cases hs
      have hlimit := ha _ (mem_append_right _ (mem_singleton_self _)) rfl rfl
      have hlt := hga l hlimit
      omega
    · exact hr

theorem Ledger.occupy (hg : keys.get kid = some st) (hfi : leases.count kid < u32Max) :
    Ledger now (keys.insert kid st.occupied) (leases ++ [kid]) passed := by
  obtain ⟨start, hst, hle, hc⟩ := h.windows kid st hg
  have hf := h.flights kid
  rw [hg, elim_some] at hf
  refine h.insert (fun o hot => ?_) ?_ hst hle hc (fun old s hol hs => ?_)
  · rw [count_append, count_singleton, if_neg (by simpa using Ne.symm hot), Nat.add_zero]
  · rw [count_append, count_singleton_self]
    show saturatingSucc st.inFlight = _
    unfold saturatingSucc
    omega
  · cases hg.symm.trans hol
    exact .inl (Option.some.inj (hs.symm.trans hst))

end Steps

section Admit
variable {now : Duration} {all : AdmissionState} {key : CompiledApiKey} {leases : List Uuid}
  {passed : List Pass}

/-- The state of a key at the rate gate: what the sweep left of it, with its window refreshed. -/
def AdmissionState.opened (all : AdmissionState) (now : Duration) (keyId : Uuid) : KeyState :=
  (((all.prune now).keys.get keyId).getD .default).refreshed now

def AdmissionState.put (all : AdmissionState) (now : Duration) (keyId : Uuid) (state : KeyState) :
    AdmissionState :=
  { all.prune now with keys := (all.prune now).keys.insert keyId state }

/-- The four answers of an admission and what each leaves behind. -/
inductive Answer (now : Duration) (all : AdmissionState) (key : CompiledApiKey) :
    Except AdmissionError Unit → AdmissionState → Prop
  | quota (hquota : key.quotaExhaustedAt ((all.prune now).quotaUsed key) = true) :
    Answer now all key (.error .insufficientQuota) (all.prune now)
  | rate (seconds : ℕ) (hlimited : (all.opened now key.id).rateLimited key = true) :
    Answer now all key (.error (.rateLimited seconds))
      (all.put now key.id (all.opened now key.id))
  | concurrency (hrate : (all.opened now key.id).rateLimited key = false)
    (hlimited : (all.opened now key.id).counted.concurrentLimited key = true) :
    Answer now all key (.error .concurrentLimited)
      (all.put now key.id (all.opened now key.id).counted)
  | admitted (hrate : (all.opened now key.id).rateLimited key = false)
    (hfree : (all.opened now key.id).counted.concurrentLimited key = false) :
    Answer now all key (.ok ()) (all.put now key.id (all.opened now key.id).counted.occupied)

theorem refreshed_started (now : Duration) (st : KeyState) :
    ∃ start, (st.refreshed now).windowStartedAt = some start := by
  unfold KeyState.refreshed
  split_ifs with hr
  · exact ⟨now, rfl⟩
  · cases hs : st.windowStartedAt with
    | none =>
      rw [hs] at hr
      exact absurd rfl hr
    | some start => exact ⟨start, rfl⟩

theorem admitRequest_answer (now : Duration) (all : AdmissionState) (key : CompiledApiKey) :
    ∃ res all', all.admitRequest now key = some (res, all') ∧ Answer now all key res all' := by
  change ∃ res all', ite _ _ (Option.map _ (ite ((all.opened now key.id).rateLimited key = true)
    (Option.map _ (all.opened now key.id).windowStartedAt) (ite _ _ _))) = some (res, all') ∧ _
  split_ifs with hq hr hc
  · exact ⟨_, _, rfl, .quota hq⟩
  · obtain ⟨start, hs⟩ : ∃ start, (all.opened now key.id).windowStartedAt = some start :=
      refreshed_started now _
    rw [hs]
    exact ⟨_, _, rfl, .rate _ hr⟩
  · exact ⟨_, _, rfl, .concurrency (Bool.not_eq_true _ ▸ hr) hc⟩
  · exact ⟨_, _, rfl, .admitted (Bool.not_eq_true _ ▸ hr) (Bool.not_eq_true _ ▸ hc)⟩

variable {all' : AdmissionState} {kid : Uuid}

theorem Answer.of_eq {res : Except AdmissionError Unit}
    (h : all.admitRequest now key = some (res, all')) : Answer now all key res all' := by
  obtain ⟨res', all'', ha, han⟩ := admitRequest_answer now all key
  cases h.symm.trans ha
  exact han

/-- The sweep forgets only what reads as zero. -/
theorem prune_reads (now : Duration) (all : AdmissionState) (kid : Uuid) :
    (all.prune now).inFlight kid = all.inFlight kid ∧
      (all.prune now).currentRequests now kid = all.currentRequests now kid := by
  unfold AdmissionState.inFlight AdmissionState.currentRequests AdmissionState.prune
  rw [get_retain]
  cases hst : all.keys.get kid with
  | none => exact ⟨rfl, rfl⟩
  | some st =>
    rw [filter_some]
    split_ifs with hr
    · exact ⟨rfl, rfl⟩
    · simp only [KeyState.retained, Bool.or_eq_true, decide_eq_true_eq, not_or] at hr
      have hre : st.windowStartedAt.all (fun start => decide (window ≤ now - start)) := by
        cases hs : st.windowStartedAt with
        | none => rfl
        | some start =>
          have hl := hr.2
          rw [hs, any_some, decide_eq_true_eq] at hl
          rw [all_some, decide_eq_true_eq]
          exact Nat.le_of_not_ge hl
      have hf : st.inFlight = 0 := by omega
      simp only [getD_some, KeyState.refreshed, hre, if_true]
      exact ⟨hf.symm, rfl⟩

theorem opened_inFlight (now : Duration) (all : AdmissionState) (kid : Uuid) :
    (all.opened now kid).inFlight = all.inFlight kid := by
  rw [← (prune_reads now all kid).1, AdmissionState.opened, KeyState.refreshed_inFlight,
    AdmissionState.inFlight]
  cases (all.prune now).keys.get kid <;> rfl

theorem opened_startedAt (h : ∀ st, all.keys.get kid = some st →
    st.windowStartedAt = some now) : (all.opened now kid).windowStartedAt = some now := by
  unfold AdmissionState.opened AdmissionState.prune KeyState.refreshed
  rw [get_retain]
  split_ifs with hr
  · rfl
  · cases hs : all.keys.get kid with
    | none =>
      rw [hs] at hr
      exact absurd rfl hr
    | some st =>
      rw [hs, filter_some] at hr
      rw [filter_some]
      split_ifs at hr ⊢ with hre
      · exact h st hs
      · exact absurd rfl hr

theorem refreshed_refreshed (st : KeyState) :
    (st.refreshed now).refreshed now = st.refreshed now := by
  by_cases hre : st.windowStartedAt.all (fun start => decide (window ≤ now - start))
  · have hr : st.refreshed now =
        { st with windowStartedAt := some now, requestsInWindow := 0 } := if_pos hre
    rw [hr]
    refine if_neg ?_
    rw [all_some, decide_eq_true_eq, Nat.sub_self]
    exact Nat.not_le.mpr window_pos
  · have hr : st.refreshed now = st := if_neg hre
    rw [hr, hr]

theorem put_inFlight (st : KeyState) (kid : Uuid) :
    (all.put now key.id st).inFlight kid =
      if kid = key.id then st.inFlight else all.inFlight kid := by
  rw [← (prune_reads now all kid).1]
  unfold AdmissionState.put AdmissionState.inFlight
  rw [get_insert]
  split_ifs <;> rfl

/-- A rejection by quota or rate changes no counter an admission reads. -/
theorem Answer.rejection {err : AdmissionError}
    (h : Answer now all key (.error err) all') (he : err ≠ .concurrentLimited)
    (kid : Uuid) : all'.inFlight kid = all.inFlight kid ∧
      all'.currentRequests now kid = all.currentRequests now kid := by
  cases h with
  | quota _ => exact prune_reads now all kid
  | rate seconds _ =>
    constructor
    · rw [put_inFlight]
      split_ifs with hk
      · rw [hk, opened_inFlight]
      · rfl
    · rw [← (prune_reads now all kid).2]
      unfold AdmissionState.put AdmissionState.currentRequests
      rw [get_insert]
      split_ifs with hk
      · subst hk
        rw [getD_some, AdmissionState.opened, refreshed_refreshed]
      · rfl
  | concurrency _ _ => exact absurd rfl he

theorem Ledger.opened (h : Ledger now all.keys leases passed) (kid : Uuid) :
    Ledger now (all.put now kid (all.opened now kid)).keys leases passed ∧
      ∃ start, (all.opened now kid).windowStartedAt = some start ∧ now < start + window :=
  h.prune.refresh rfl

theorem Ledger.overwrite {keys : Table Uuid KeyState} {st st' : KeyState}
    (h : Ledger now ((keys.insert kid st).insert kid st') leases passed) :
    Ledger now (keys.insert kid st') leases passed := by
  refine h.forget (fun o => .inl ?_)
  simp only [get_insert]
  split_ifs <;> rfl

/-- The request is counted in the window it is recorded with. -/
theorem Ledger.countOpened (h : Ledger now all.keys leases passed)
    (hr : (all.opened now key.id).rateLimited key = false) :
    Ledger now (all.put now key.id (all.opened now key.id).counted).keys leases
      (passed ++ [⟨key.id, (all.opened now key.id).windowStartedAt, now,
        key.requestsPerMinute⟩]) := by
  obtain ⟨hop, start, hs, hon⟩ := h.opened key.id
  rw [hs]
  refine (hop.count (get_insert_self _ _ _) hs hon (fun limit hlimit => ?_)).overwrite
  rw [KeyState.rateLimited, hlimit, any_some, decide_eq_false_iff_not] at hr
  omega

end Admit

namespace System
variable {sys : System}

def Sound (sys : System) : Prop := Ledger sys.clock sys.admission.keys sys.leases sys.passed

theorem answered_sound (h : sys.Sound) {res : Except AdmissionError Unit}
    {adm : AdmissionState} (ha : Answer sys.clock sys.admission key res adm)
    (hf : (sys.answered key res adm).Fits) :
    (sys.answered key res adm).Sound := by
  cases ha with
  | quota _ => exact Ledger.prune h
  | rate seconds _ => exact (Ledger.opened h key.id).1
  | concurrency hr _ =>
    unfold Sound answered
    simp only [AdmissionState.put, get_insert_self]
    exact Ledger.countOpened h hr
  | admitted hr _ =>
    unfold Sound answered
    simp only [AdmissionState.put, get_insert_self]
    have hc : sys.leases.count key.id < u32Max := by
      have hle := hf key.id (mem_append_right _ (mem_singleton_self _))
      change (sys.leases ++ [key.id]).count key.id ≤ u32Max at hle
      rw [count_append, count_singleton_self] at hle
      omega
    exact ((Ledger.countOpened h hr).occupy (get_insert_self _ _ _) hc).overwrite

theorem dropped_sound (h : sys.Sound) {lease : ℕ} {kid : Uuid}
    (hls : sys.leases[lease]? = some kid) :
    ∃ adm, sys.admission.dropLease sys.clock kid = some adm ∧
      Sound { sys with admission := adm, leases := sys.leases.eraseIdx lease } := by
  obtain ⟨hlt, hke⟩ := List.getElem?_eq_some_iff.mp hls
  have hp := getElem_cons_eraseIdx_perm hlt
  rw [hke] at hp
  have hc : ∀ o, sys.leases.count o =
      (sys.leases.eraseIdx lease).count o + if kid = o then 1 else 0 := by
    intro o
    rw [← hp.count_eq, count_cons]
    simp
  have hf := h.flights kid
  rw [hc kid, if_pos rfl] at hf
  obtain ⟨st, hg⟩ : ∃ st, sys.admission.keys.get kid = some st := by
    cases hg : sys.admission.keys.get kid with
    | none =>
      rw [hg, elim_none] at hf
      omega
    | some st => exact ⟨st, rfl⟩
  rw [hg, elim_some] at hf
  obtain ⟨start, hst, hle, hre⟩ := h.windows kid st hg
  have hk : Ledger sys.clock
      (sys.admission.keys.insert kid { st with inFlight := st.inFlight - 1 })
      (sys.leases.eraseIdx lease) sys.passed := by
    refine Ledger.insert h (fun o hot => ?_) ?_ hst hle hre
      (fun old s hol hs => ?_)
    · rw [hc o, if_neg (Ne.symm hot), Nat.add_zero]
    · show st.inFlight - 1 = _
      omega
    · cases hg.symm.trans hol
      exact .inl (Option.some.inj (hs.symm.trans hst))
  unfold AdmissionState.dropLease
  rw [hg]
  refine ⟨_, rfl, ?_⟩
  dsimp only
  split_ifs with hr
  · refine hk.forget (fun o => ?_)
    rw [get_erase, get_insert]
    split_ifs with hot
    · refine .inr ⟨rfl, fun st' hs' => ?_⟩
      cases hs'
      refine ⟨hr.1, fun s hs => ?_⟩
      have hl := hr.2
      rw [hs, any_some, decide_eq_true_eq] at hl
      exact window_over (Nat.le_of_lt hl)
    · exact .inl rfl
  · exact hk

/-- Every step returns, and keeps the books while the counters can hold the leases. -/
theorem step_sound (h : sys.Sound) (op : Op) :
    ∃ sys', sys.step op = some sys' ∧ (sys'.Fits → sys'.Sound) := by
  cases op with
  | admitRequest key =>
    obtain ⟨res, adm, ha, han⟩ := admitRequest_answer sys.clock sys.admission key
    refine ⟨sys.answered key res adm, ?_, answered_sound h han⟩
    simp only [step, ha, map_some]
  | drop lease =>
    cases hl : sys.leases[lease]? with
    | none => exact ⟨sys, by simp only [step, hl], fun _ => h⟩
    | some kid =>
      obtain ⟨adm, hd, hs⟩ := dropped_sound h hl
      exact ⟨_, by simp only [step, hl, hd, map_some], fun _ => hs⟩
  | settle kid quotaUsedAmount => exact ⟨_, rfl, fun _ => h⟩
  | advance elapsed => exact ⟨_, rfl, fun _ => Ledger.advance h elapsed⟩

theorem step_leases {sys' : System} {op : Op} (h : sys.step op = some sys') :
    sys'.leases.length ≤ sys.leases.length + 1 := by
  cases op with
  | admitRequest key =>
    obtain ⟨answer, -, rfl⟩ := map_eq_some_iff.mp h
    unfold answered
    dsimp only
    split_ifs
    · rw [length_append, length_singleton]
    · omega
  | drop lease =>
    unfold step at h
    cases hl : sys.leases[lease]? with
    | none =>
      simp only [hl, Option.some.injEq] at h
      subst h
      exact Nat.le_succ _
    | some kid =>
      simp only [hl] at h
      obtain ⟨adm, -, rfl⟩ := map_eq_some_iff.mp h
      have hle := length_eraseIdx_le sys.leases lease
      exact Nat.le_succ_of_le hle
  | settle kid quotaUsedAmount =>
    cases h
    exact Nat.le_succ _
  | advance elapsed =>
    cases h
    exact Nat.le_succ _

variable {ops : List Op}

/-- A run of fewer than 2 ^ 32 steps cannot have more leases. -/
theorem through_of_length (h : sys.leases.length + ops.length ≤ u32Max) :
    Through step Fits sys ops := by
  have hf : sys.Fits := fun kid _ => le_trans count_le_length (by omega)
  induction ops generalizing sys with
  | nil => exact hf
  | cons op ops ih =>
    refine ⟨hf, fun sys' hs => ?_⟩
    have hl := step_leases hs
    rw [length_cons] at h
    have hn : sys'.leases.length + ops.length ≤ u32Max := by omega
    exact ih hn (fun kid _ => le_trans count_le_length (by omega))

theorem run_sound (hop : Through step Fits init ops) :
    ∃ sys, run? step init ops = some sys ∧ sys.Sound := by
  have hin : init.Sound := ledger_empty 0
  exact run?_invariant (fun _ op h => step_sound h op) hin hop

end System

/-- The books of the runtime at one point of a run: what its counters are, and what an
admission there can do. -/
structure Accounted (sys : System) : Prop where
  inFlight : ∀ keyId, sys.admission.inFlight keyId = sys.leases.count keyId
  returns : ∀ op, ∃ sys', sys.step op = some sys'
  concurrency : ∀ key limit admission, key.maxConcurrentRequests = some limit →
    sys.admission.admitRequest sys.clock key = some (.ok (), admission) →
      sys.leases.count key.id < limit
  passes : ∀ pass ∈ sys.passed, ∃ started, pass.startedAt = some started ∧
    started ≤ pass.passedAt ∧ pass.passedAt < started + window
  rate : ∀ keyId started limit, limit ≤ u32Max →
    (∀ pass ∈ sys.passed, pass.keyId = keyId → pass.startedAt = some started →
      pass.limit = some limit) → passesIn sys.passed keyId started ≤ limit
  rejection : ∀ key error admission, error ≠ .concurrentLimited →
    sys.admission.admitRequest sys.clock key = some (.error error, admission) → ∀ keyId,
      admission.inFlight keyId = sys.admission.inFlight keyId ∧
        admission.currentRequests sys.clock keyId = sys.admission.currentRequests sys.clock keyId

/-- While no key has 2 ^ 32 leases alive, every run returns and its books are right. -/
theorem admission_accounted (ops : List Op) (hops : Through System.step System.Fits .init ops) :
    ∃ sys, run? System.step .init ops = some sys ∧ Accounted sys := by
  obtain ⟨sys, hr, hs⟩ := System.run_sound hops
  refine ⟨sys, hr, hs.flights, fun op => ?_, ?_, ?_, hs.rate, ?_⟩
  · obtain ⟨sys', hsp, -⟩ := System.step_sound hs op
    exact ⟨sys', hsp⟩
  · intro key limit admission hlimit ha
    have hfl := opened_inFlight sys.clock sys.admission key.id
    cases Answer.of_eq ha with
    | admitted hra hf =>
      rw [KeyState.concurrentLimited, hlimit, any_some, decide_eq_false_iff_not] at hf
      change ¬limit ≤ (sys.admission.opened sys.clock key.id).inFlight at hf
      have hc : sys.admission.inFlight key.id = sys.leases.count key.id := hs.flights key.id
      omega
  · intro pass hp
    obtain ⟨started, hst, hle, hlt, -⟩ := hs.current pass hp
    exact ⟨started, hst, hle, hlt⟩
  · intro key error admission he ha
    exact (Answer.of_eq ha).rejection he

/-- A key with the given limits and no usage. -/
def policyKey (id : Uuid) (requestsPerMinute maxConcurrentRequests : Option ℕ)
    (quotaLimitAmount : Option ℚ) : CompiledApiKey where
  id := id
  userId := 1
  websocketEnabled := false
  filterFastMode := false
  allowedApiFormats := []
  permissions := []
  authorization := ⟨[], [], 0⟩
  expiresAt := none
  requestsPerMinute := requestsPerMinute
  maxConcurrentRequests := maxConcurrentRequests
  quotaLimitAmount := quotaLimitAmount
  quotaUsedAmount := 0

/-- A concurrency rejection, a release, and a new window that starts at the boundary. -/
theorem admission_accounted_two_windows :
    let key := policyKey 1 (some 2) (some 1) none
    let ops : List Op := [.admitRequest key, .admitRequest key, .drop 0, .admitRequest key,
      .advance (Duration.fromSecs 60), .admitRequest key, .admitRequest (policyKey 2 none none (some 0))]
    Through System.step System.Fits .init ops ∧
      ∃ sys, run? System.step .init ops = some sys ∧ Accounted sys :=
  have hop := System.through_of_length (by decide)
  ⟨hop, admission_accounted _ hop⟩

section
variable (hrpm : key.requestsPerMinute = none) (hmax : key.maxConcurrentRequests = none)
  (hlimit : key.quotaLimitAmount = none)
include hrpm hmax hlimit

theorem run_unlimited (n : ℕ) :
    ∃ sys, run? System.step .init (List.replicate n (.admitRequest key)) = some sys ∧
      sys.admission.inFlight key.id = min n u32Max ∧ sys.leases = List.replicate n key.id ∧
      sys.clock = 0 ∧ ∀ st, sys.admission.keys.get key.id = some st →
        st.windowStartedAt = some 0 := by
  induction n with
  | zero => exact ⟨.init, rfl, rfl, rfl, rfl, fun _ hs => by cases hs⟩
  | succ n ih =>
    obtain ⟨sys, hru, hf, hle, hc, hst⟩ := ih
    obtain ⟨res, adm, ha, han⟩ := admitRequest_answer sys.clock sys.admission key
    refine ⟨sys.answered key res adm, ?_, ?_⟩
    · rw [replicate_succ', run?_append, hru]
      simp only [bind_some, run?_cons, run?_nil, System.step, ha, map_some]
    · cases han with
      | quota hq => simp [CompiledApiKey.quotaExhaustedAt, hlimit] at hq
      | rate seconds hl => simp [KeyState.rateLimited, hrpm] at hl
      | concurrency hr hl => simp [KeyState.concurrentLimited, hmax] at hl
      | admitted hr hfr =>
        have hop := opened_inFlight sys.clock sys.admission key.id
        refine ⟨?_, ?_, hc, ?_⟩
        · show AdmissionState.inFlight (AdmissionState.put _ _ _ _) key.id = _
          rw [put_inFlight, if_pos rfl]
          show saturatingSucc (sys.admission.opened sys.clock key.id).inFlight = _
          unfold saturatingSucc
          omega
        · show sys.leases ++ [key.id] = _
          rw [hle, replicate_succ']
        · intro st hs
          change Table.get (Table.insert _ _ _) _ = _ at hs
          rw [get_insert_self, Option.some.injEq] at hs
          subst hs
          exact (opened_startedAt (hc.symm ▸ hst)).trans (congrArg some hc)

theorem saturated_count_lt {n : ℕ}
    (hn : u32Max < n) :
    ∃ sys, run? System.step .init (List.replicate n (.admitRequest key)) = some sys ∧
      sys.admission.inFlight key.id < sys.leases.count key.id := by
  obtain ⟨sys, hr, hf, hl, -⟩ := run_unlimited hrpm hmax hlimit n
  refine ⟨sys, hr, ?_⟩
  rw [hl, count_replicate_self]
  omega

end

/-- The counter of a key stops short of its 2 ^ 32 leases, and a quota rejection of one key drops
the count of another key's expired window. -/
theorem counters_drift :
    (∃ sys, run? System.step .init
        (List.replicate (2 ^ 32) (.admitRequest (policyKey 1 none none none))) = some sys ∧
      sys.admission.inFlight 1 < sys.leases.count 1) ∧
    ∃ sys, run? System.step .init [.admitRequest (policyKey 1 none none none), .drop 0,
        .advance (Duration.fromSecs 61)] = some sys ∧
      ∃ admission, sys.admission.admitRequest sys.clock (policyKey 2 none none (some 0)) =
          some (.error .insufficientQuota, admission) ∧
        sys.admission.requestsInWindow 1 = 1 ∧ admission.requestsInWindow 1 = 0 := by
  constructor
  · have hn : u32Max < 2 ^ 32 := by decide
    generalize (2 ^ 32 : ℕ) = n at hn ⊢
    exact saturated_count_lt rfl rfl rfl hn
  · exact ⟨_, rfl, _, rfl, by decide, by decide⟩

end AiGateway.Admission
