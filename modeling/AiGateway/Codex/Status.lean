import AiGateway.Codex.Dispatch

/-! The stored status of every credential is a function of its other columns, as long as no
write repeats the time that a reserved operation has read. -/
namespace AiGateway.Codex
open Domain Lib Option

/-- A row that changes under a reserved operation gets another time than the one the operation
has read. -/
def View.Fresh (v v' : View) : Prop :=
  ∀ operation ∈ v.held, operation.startedAt = none → ∀ row ∈ v'.row, v'.row ≠ v.row →
    row.updatedAt ≠ operation.updatedAt

instance (v v' : View) : Decidable (v.Fresh v') :=
  inferInstanceAs (Decidable (∀ operation ∈ v.held, _ → ∀ row ∈ v'.row, _ → _))

/-- What holds of the status of a credential and of the operation in progress on it. -/
structure StatusKept (v : View) : Prop where
  status : ∀ row, v.row = some row → row.runtimeStatus = statusOf row
  known : ∀ operation, v.held = some operation → v.row.isSome = true
  reserved : ∀ operation row, v.held = some operation → operation.startedAt = none →
    v.row = some row → row.updatedAt = operation.updatedAt → row.enabled = operation.record.enabled
  started : ∀ operation row, v.held = some operation → operation.startedAt.isSome = true →
    operation.kind = .refresh → v.row = some row → row.enabled = true

variable {id : Uuid} {v v' : View} {trace evs : List TraceEvent}

theorem statusKept_initial : StatusKept ⟨none, none, none⟩ := ⟨by simp, by simp, by simp, by simp⟩

variable {now : Int} {row row' : Option CodexCredential} {obs : Option Int}
  {op : SqliteCodexOperation}

theorem RowChange.status {pend : Bool}
    (h : RowChange now pend row row')
    (hs : ∀ found, row = some found → found.runtimeStatus = statusOf found) :
    ∀ found, row' = some found → found.runtimeStatus = statusOf found := by
  intro found hf
  cases h with
  | unchanged => exact hs found hf
  | created _ hn =>
    cases hf
    exact hn
  | edited _ _ he =>
    cases hf
    exact he.status (hs _ rfl)

/-- An operation in progress finds the row it has read, or one with another time. -/
theorem StatusKept.edited (h : StatusKept v) (hfe : Fenced id v trace) (hc : RowChange now v.intent.isSome v.row row)
    (hfr : v.Fresh { v with row }) : StatusKept { v with row } := by
  refine ⟨hc.status h.status, fun op hh => ?_, ?_, ?_⟩
  · obtain ⟨found, hf⟩ := isSome_iff_exists.mp (h.known op hh)
    rw [hf] at hc
    obtain ⟨changed, rfl, -⟩ := hc.generation
    rfl
  · intro op found hh hn hf hsm
    by_cases hs : row = v.row
    · exact h.reserved op found hh hn (hs ▸ hf) hsm
    · exact absurd hsm (hfr op hh hn found hf hs)
  · intro op found hh hst hk hf
    obtain ⟨start, hsr⟩ := isSome_iff_exists.mp hst
    have hin := hfe.started op start hh hsr
    obtain ⟨cur, hcu⟩ := isSome_iff_exists.mp (h.known op hh)
    rw [hin, hcu, isSome_some] at hc
    have hs : row = some cur := hc.eq_of_pending
    obtain rfl : cur = found := Option.some.inj (hs.symm.trans hf)
    exact h.started op cur hh hst hk hcu

theorem StatusKept.lost (h : StatusKept v) {intent : Option OperationRow} :
    StatusKept ⟨intent, v.row, none⟩ :=
  ⟨h.status, by simp, by simp, by simp⟩

/-- The callers let a refresh through only for an enabled credential. -/
theorem enabled_of_callerChecks
    (h : callerChecks obs op = true) : op.record.enabled = true := by
  unfold callerChecks at h
  cases hk : op.kind with
  | refresh =>
    simp only [hk, Bool.and_eq_true] at h
    exact h.1.2.1
  | quotaReset =>
    simp only [hk, Bool.and_eq_true] at h
    exact h.1.1

theorem StatusKept.prepared (h : StatusKept v) {row : CodexCredential}
    (hh : v.held = some op) (ha : callerChecks obs op = true)
    (hne : op.startedAt = none) (hr : v.row = some row)
    (hs : row.updatedAt = op.updatedAt) :
    StatusKept
      { v with
        intent := some (op.intentAt now)
        held := some { op with startedAt := some now } } := by
  have he : row.enabled = true :=
    (h.reserved op row hh hne hr hs).trans (enabled_of_callerChecks ha)
  refine ⟨h.status, fun _ _ => h.known op hh, ?_, ?_⟩
  · intro found _ hf hn
    cases hf
    cases hn
  · intro _ found _ _ _ hf
    obtain rfl : row = found := Option.some.inj (hr.symm.trans hf)
    exact he

theorem StatusKept.change (h : StatusKept v) (hfe : Fenced id v trace)
    (hch : Change callerChecks id v v' evs) (hfr : v.Fresh v') : StatusKept v' := by
  cases hch with
  | elsewhere _ _ => exact h
  | edited now row hr => exact h.edited hfe hr hfr
  | lost => exact h.lost
  | reserved rec kind att hh hr =>
    refine ⟨h.status, fun _ _ => by rw [hr]; rfl, ?_, ?_⟩
    · intro op row hop _ hf _
      cases hop
      obtain rfl : rec = row := Option.some.inj (hr.symm.trans hf)
      rfl
    · intro op row hop hs
      cases hop
      cases hs
  | prepared op row obs now hh ha hn hfre hr hl hg hsm =>
    exact h.prepared hh ha hn hr hsm
  | dispatched op hh hs hnt =>
    refine ⟨h.status, fun _ _ => h.known op hh, ?_, ?_⟩
    · intro found row hf hno
      cases hf
      rw [hno] at hs
      cases hs
    · intro found row hf _ hk hr
      cases hf
      exact h.started op row hh hs hk hr
  | refreshed op row row' hfo hk hne hl hst =>
    refine ⟨fun found hf => ?_, by simp, by simp, by simp⟩
    cases hf
    exact hst
  | failed op row row' start hfo hk hs hsa hl hst =>
    obtain ⟨hh, hso, hr, -⟩ := hfo
    have he := h.started op row hh hso hk hr
    refine ⟨fun found hf => ?_, by simp, by simp, by simp⟩
    cases hf
    exact hst (h.status row hr) he
  | reset op row hfo hk => exact h.lost
  | reauthorized now row row' hp hr hne hsm hl hst =>
    refine ⟨fun found hf => ?_, fun _ _ => rfl, ?_, ?_⟩
    · cases hf
      exact hst
    · intro op found hh hn hf hs'
      -- The generation has moved on, so the row has changed.
      have hc : some row' ≠ v.row := by
        rw [hr]
        intro heq
        have hg := congrArg CodexCredential.refreshGeneration (Option.some.inj heq)
        omega
      exact absurd hs' (hfr op hh hn found hf hc)
    · intro op found hh hs
      obtain ⟨start, hsr⟩ := isSome_iff_exists.mp hs
      have hfre := (hp _ (hfe.started op start hh hsr)).2
      have hso : v.held = some op := hh
      rw [hfre] at hso
      cases hso

/-- No step gives a row that a reserved operation has read the same time again. -/
def StampsFresh (s : System) (move : Move) : Prop :=
  ∀ id, (s.view id).Fresh ((s.step callerChecks move).view id)

/-- Only credentials with an operation in progress are concerned. -/
theorem stampsFresh_iff (s : System) (move : Move) :
    (∀ id ∈ s.held.keys, (s.view id).Fresh ((s.step callerChecks move).view id)) ↔
      StampsFresh s move := by
  constructor
  · intro h id op hh
    exact h id ((Table.mem_keys_iff s.held id).mpr ⟨op, hh⟩) op hh
  · intro h id _
    exact h id

instance (s : System) (move : Move) : Decidable (StampsFresh s move) :=
  @decidable_of_iff _ _ (stampsFresh_iff s move) (List.decidableBAll _ _)

def System.StatusKept (s : System) : Prop := ∀ id, Codex.StatusKept (s.view id)

theorem statusKept_run {moves : List Move}
    (hf : Along (System.step callerChecks) StampsFresh System.initial moves) :
    (run (System.step callerChecks) System.initial moves).StatusKept := by
  suffices hb : ∀ s : System, s.Fenced → s.StatusKept →
      Along (System.step callerChecks) StampsFresh s moves →
      (run (System.step callerChecks) s moves).StatusKept from
    hb System.initial fenced_initial (fun _ => statusKept_initial) hf
  clear hf
  induction moves with
  | nil => exact fun s _ hk _ => hk
  | cons move moves ih =>
    intro s hfe hk hf
    refine ih _ (hfe.step move) (fun id => ?_) hf.2
    obtain ⟨evs, -, hc⟩ := affects_step callerChecks s move id
    exact (hk id).change (hfe id) hc (hf.1 id)

/-- The status of every credential, at the end of every run whose writes are stamped afresh. -/
theorem status_follows_columns (moves : List Move)
    (hfresh : Along (System.step callerChecks) StampsFresh System.initial moves) (id : Uuid)
    (row : CodexCredential)
    (hrow : (run (System.step callerChecks) System.initial moves).database.live id = some row) :
    row.runtimeStatus = statusOf row :=
  (statusKept_run hfresh id).status row (Database.live_eq_some.mp hrow).1

/-- A refresh is reserved, the credential is disabled at `time`, and the refresh fails for good
if it still gets through. -/
def disabledMeanwhile (time : Int) : List Move :=
  [.edit (.create 1 ⟨[97], true, 95, none⟩ (fun _ => 2)) (seconds 1700000000),
    .reserve 1 .refresh 3,
    .edit (.batch [⟨1, seconds 1700000000⟩] .disable) time,
    .prepare 1 none (seconds 1700000002),
    .dispatch 1,
    .report 1 (.fail true "invalid_grant" "refresh token was rejected" (seconds 1700000003))]

/-- With a time of its own for the edit, the reserved refresh notices it. -/
theorem status_follows_columns_disabled :
    Along (System.step callerChecks) StampsFresh System.initial
        (disabledMeanwhile (seconds 1700000001)) ∧
      ∃ row, (run (System.step callerChecks) System.initial
          (disabledMeanwhile (seconds 1700000001))).database.live 1 = some row ∧
        row.enabled = false ∧ row.runtimeStatus = statusOf row := by
  have hf : Along (System.step callerChecks) StampsFresh System.initial
      (disabledMeanwhile (seconds 1700000001)) := by decide +kernel
  have hr : ((run (System.step callerChecks) System.initial
      (disabledMeanwhile (seconds 1700000001))).database.live 1).any (fun row => !row.enabled) =
        true := by decide +kernel
  obtain ⟨row, hl, he⟩ := (any_eq_true _ _).mp hr
  exact ⟨hf, row, hl, by simpa using he,
    status_follows_columns (disabledMeanwhile (seconds 1700000001)) hf 1 row hl⟩

/-- A clock that shows the same microsecond again hides the edit, and the failed refresh leaves
a disabled credential unavailable. -/
theorem repeated_stamp_breaks_status :
    ∃ row, (run (System.step callerChecks) System.initial
        (disabledMeanwhile (seconds 1700000000))).database.live 1 = some row ∧
      row.runtimeStatus ≠ statusOf row := by
  have hr : ((run (System.step callerChecks) System.initial
      (disabledMeanwhile (seconds 1700000000))).database.live 1).any
        (fun row => decide (row.runtimeStatus ≠ statusOf row)) = true := by decide +kernel
  obtain ⟨row, hl, hs⟩ := (any_eq_true _ _).mp hr
  exact ⟨row, hl, of_decide_eq_true hs⟩

end AiGateway.Codex
