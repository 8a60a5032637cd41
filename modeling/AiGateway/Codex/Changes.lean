import AiGateway.Codex.Edits

/-! What one step of the system can do to one credential: its row, its intent, the operation
in progress on it and the events it adds. -/
namespace AiGateway.Codex
open Domain Lib List Table

/-- All that concerns one credential. -/
structure View where
  intent : Option OperationRow
  row : Option CodexCredential
  held : Option SqliteCodexOperation

def System.view (s : System) (id : Uuid) : View :=
  ⟨s.database.operations.get id, s.database.credentials.get id, s.held.get id⟩

def TraceEvent.id : TraceEvent → Uuid
  | .dispatched id _ _ _ => id
  | .completed id _ _ _ => id
  | .reauthorized id => id

namespace SqliteCodexOperation

/-- The intent the operation writes at its start. -/
def intentAt (operation : SqliteCodexOperation) (startedAt : Int) : OperationRow :=
  ⟨operation.attempt, operation.kind, operation.generation, startedAt⟩

/-- Reports count while the intent of the operation is in force. -/
def InForce (operation : SqliteCodexOperation) (v : View) (row : CodexCredential) : Prop :=
  v.held = some operation ∧ operation.startedAt.isSome = true ∧ v.row = some row ∧
    row.deletedAt = none ∧ row.refreshGeneration = operation.generation

end SqliteCodexOperation

/-- One step, as one credential sees it, and the events it adds to the trace. -/
inductive Change (allow : Option Int → SqliteCodexOperation → Bool) (id : Uuid) (v : View) :
    View → List TraceEvent → Prop
  | elsewhere (events : List TraceEvent) (h : ∀ event ∈ events, event.id ≠ id) :
      Change allow id v v events
  | edited (now : Int) (row : Option CodexCredential)
      (h : RowChange now v.intent.isSome v.row row) : Change allow id v { v with row } []
  | lost : Change allow id v { v with held := none } []
  | reserved (record : CodexCredential) (kind : OperationKind) (attempt : Uuid)
      (hheld : v.held = none) (hrow : v.row = some record) :
      Change allow id v
        { v with
          held := some ⟨record, attempt, record.refreshGeneration, record.updatedAt, none, kind,
            false⟩ } []
  | prepared (operation : SqliteCodexOperation) (row : CodexCredential) (observed : Option Int)
      (now : Int) (hheld : v.held = some operation) (hallow : allow observed operation = true)
      (hnew : operation.startedAt = none) (hfree : v.intent = none) (hrow : v.row = some row)
      (hlive : row.deletedAt = none) (hgeneration : row.refreshGeneration = operation.generation)
      (hstamp : row.updatedAt = operation.updatedAt) :
      Change allow id v
        { v with
          intent := some (operation.intentAt now)
          held := some { operation with startedAt := some now } } []
  | dispatched (operation : SqliteCodexOperation) (hheld : v.held = some operation)
      (hstarted : operation.startedAt.isSome = true) (hnot : operation.dispatched = false) :
      Change allow id v { v with held := some { operation with dispatched := true } }
        [.dispatched id operation.kind operation.attempt operation.generation]
  | refreshed (operation : SqliteCodexOperation) (row row' : CodexCredential)
      (hforce : operation.InForce v row) (hkind : operation.kind = .refresh)
      (hnext : row'.refreshGeneration = row.refreshGeneration + 1) (hlive : row'.deletedAt = none)
      (hstatus : row'.runtimeStatus = statusOf row') :
      Change allow id v ⟨none, some row', none⟩
        [.completed id operation.kind operation.attempt operation.generation]
  | failed (operation : SqliteCodexOperation) (row row' : CodexCredential) (startedAt : Int)
      (hforce : operation.InForce v row) (hkind : operation.kind = .refresh)
      (hstarted : operation.startedAt = some startedAt)
      (hsame : row'.refreshGeneration = row.refreshGeneration) (hlive : row'.deletedAt = none)
      (hstatus : row.runtimeStatus = statusOf row → row.enabled = true →
        row'.runtimeStatus = statusOf row') :
      Change allow id v ⟨some (operation.intentAt startedAt), some row', none⟩ []
  | reset (operation : SqliteCodexOperation) (row : CodexCredential)
      (hforce : operation.InForce v row) (hkind : operation.kind = .quotaReset) :
      Change allow id v { v with intent := none, held := none }
        [.completed id operation.kind operation.attempt operation.generation]
  | reauthorized (now : Int) (row row' : CodexCredential)
      (hpending : ∀ intent, v.intent = some intent → intent.kind = .refresh ∧ v.held = none)
      (hrow : v.row = some row) (hnext : row'.refreshGeneration = row.refreshGeneration + 1)
      (hstamp : row'.updatedAt = now) (hlive : row'.deletedAt = none)
      (hstatus : row'.runtimeStatus = statusOf row') :
      Change allow id v { v with intent := none, row := some row' } [.reauthorized id]

variable {allow : Option Int → SqliteCodexOperation → Bool}

/-- The effect of a step on a credential. -/
def Affects (allow : Option Int → SqliteCodexOperation → Bool) (s s' : System) (id : Uuid) : Prop :=
  ∃ events, s'.trace = events ++ s.trace ∧ Change allow id (s.view id) (s'.view id) events

theorem Affects.nothing (s : System) (id : Uuid) : Affects allow s s id :=
  ⟨[], rfl, .elsewhere [] (by simp)⟩

variable {s : System} {id : Uuid} {op : SqliteCodexOperation}

theorem Affects.elsewhere {s' : System} (evs : List TraceEvent)
    (ht : s'.trace = evs ++ s.trace) (hv : s'.view id = s.view id)
    (he : ∀ ev ∈ evs, ev.id ≠ id) : Affects allow s s' id := by
  refine ⟨evs, ht, ?_⟩
  rw [hv]
  exact .elsewhere evs he

variable {database : Database} {report : Report}

theorem affects_edit {now : Int} (h : Edited now s.database database) (id : Uuid) :
    Affects allow s { s with database } id := by
  refine ⟨[], rfl, ?_⟩
  have hin : database.operations.get id = s.database.operations.get id := by
    rw [h.operations]
  have hv : System.view { s with database } id =
      { s.view id with row := database.credentials.get id } := by
    simp only [System.view, hin]
  rw [hv]
  exact .edited now _ (h.rows id)

theorem affects_dropOperation (s : System) (id o : Uuid) :
    Affects allow s (s.dropOperation o) id := by
  by_cases h : id = o
  · subst h
    refine ⟨[], rfl, ?_⟩
    have hv : (s.dropOperation id).view id = { s.view id with held := none } := by
      simp [System.view, System.dropOperation]
    rw [hv]
    exact .lost
  · refine .elsewhere [] rfl ?_ (by simp)
    simp [System.view, System.dropOperation, get_erase_ne _ h]

theorem affects_crash (s : System) (id : Uuid) : Affects allow s { s with held := ∅ } id := by
  refine ⟨[], rfl, ?_⟩
  exact .lost

section
variable (s : System) (id o : Uuid)

theorem affects_reauthorize (input : CodexCredentialCreate)
    (ids : CodexQuotaWindowKind → Uuid) (now : Int) :
    Affects allow s (s.reauthorize o input ids now) id := by
  unfold System.reauthorize
  cases hr : reauthorizeCodexCredential s.database (s.held.get o).isNone ids o input
      now with
  | error err => exact .nothing s id
  | ok database =>
    have he := reauthorizeCodexCredential_eq_ok hr
    obtain ⟨row, row', hro, hc, hn, hst, hl, hs⟩ := he.row
    by_cases h : id = o
    · subst h
      refine ⟨[.reauthorized id], rfl, ?_⟩
      have hv : System.view ⟨database, s.held, .reauthorized id :: s.trace⟩ id =
          { s.view id with intent := none, row := some row' } := by
        simp [System.view, he.cleared, hc]
      rw [hv]
      refine .reauthorized now row row' ?_ (Database.live_eq_some.mp hro).1 hn hst hl
        hs
      intro intent hin
      obtain ⟨hk, hf⟩ := he.pending intent hin
      exact ⟨hk, Option.isNone_iff_eq_none.mp hf⟩
    · refine .elsewhere [.reauthorized o] rfl ?_ ?_
      · simp [System.view, he.cleared, hc, h, get_insert_ne _ _ h]
      · intro ev hev
        rw [mem_singleton.mp hev]
        exact Ne.symm h

theorem affects_reserve (kind : OperationKind) (att : Uuid) :
    Affects allow s (s.reserve o kind att) id := by
  unfold System.reserve
  cases hh : s.held.get o with
  | some op => exact .nothing s id
  | none =>
    simp only [Option.isSome_none, Bool.false_eq_true, if_false]
    cases hr : reserveCodexOperation s.database o kind att with
    | error err => exact .nothing s id
    | ok rsv =>
      cases rsv with
      | none => exact .nothing s id
      | some op =>
        obtain ⟨rec, hro, rfl⟩ := reserveCodexOperation_eq_ok hr
        by_cases h : id = o
        · subst h
          refine ⟨[], rfl, ?_⟩
          simp only [System.view, get_insert_self]
          exact .reserved rec kind att hh (Database.live_eq_some.mp hro).1
        · refine .elsewhere [] rfl ?_ (by simp)
          simp [System.view, get_insert_ne _ _ h]

theorem affects_prepare (obs : Option Int) (now : Int) :
    Affects allow s (s.prepare allow o obs now) id := by
  unfold System.prepare
  cases hh : s.held.get o with
  | none => exact .nothing s id
  | some op =>
    cases ha : allow obs op with
    | false =>
      simp only [ha, Bool.false_eq_true, if_false]
      exact affects_dropOperation s id o
    | true =>
      simp only [ha, if_true]
      cases hr : op.prepareDispatch s.database o now with
      | error err => exact .nothing s id
      | ok res =>
        obtain ⟨database, prep⟩ := res
        obtain ⟨rfl, hn, hf, ⟨row, hro, hg, hs⟩, rfl⟩ := prepareDispatch_eq_ok hr
        by_cases h : id = o
        · subst h
          refine ⟨[], rfl, ?_⟩
          simp only [System.view, get_insert_self]
          exact .prepared op row obs now hh ha hn hf
            (Database.live_eq_some.mp hro).1 (Database.live_eq_some.mp hro).2 hg hs
        · refine .elsewhere [] rfl ?_ (by simp)
          simp [System.view, get_insert_ne _ _ h]

theorem affects_dispatch :
    Affects allow s (s.dispatch o) id := by
  unfold System.dispatch
  cases hh : s.held.get o with
  | none => exact .nothing s id
  | some op =>
    cases hr : op.startedAt.isSome && !op.dispatched with
    | false =>
      simp only [hr, Bool.false_eq_true, if_false]
      exact .nothing s id
    | true =>
      simp only [hr, if_true]
      obtain ⟨hs, hn⟩ := Bool.and_eq_true_iff.mp hr
      by_cases h : id = o
      · subst h
        refine ⟨[.dispatched id op.kind op.attempt op.generation], rfl, ?_⟩
        simp only [System.view, get_insert_self]
        exact .dispatched op hh hs (by simpa using hn)
      · refine .elsewhere [.dispatched o op.kind op.attempt op.generation]
          rfl ?_ ?_
        · simp [System.view, get_insert_ne _ _ h]
        · intro ev he
          rw [mem_singleton.mp he]
          exact Ne.symm h

end

/-- The row and intent a report of an operation finds, if it commits. -/
theorem inForce_view
    (hh : s.held.get id = some op) (hs : op.startedAt.isSome = true)
    (hf : op.inForce s.database id = true) {row : CodexCredential}
    (hr : s.database.live id = some row) : op.InForce (s.view id) row := by
  obtain ⟨intent, found, -, -, -, hfo, hg⟩ := inForce_iff.mp hf
  obtain rfl : found = row := Option.some.inj (hfo.symm.trans hr)
  obtain ⟨hge, hl⟩ := Database.live_eq_some.mp hr
  exact ⟨hh, hs, hge, hl, hg⟩

/-- A report concerns the credential of its operation only. -/
theorem Report.apply_elsewhere {db db' : Database} {o : Uuid}
    (h : report.apply db o op = .ok db') (hne : id ≠ o) :
    db'.operations.get id = db.operations.get id ∧
      db'.credentials.get id = db.credentials.get id := by
  cases report with
  | completeRefresh eg now =>
    obtain ⟨-, -, hop, row, row', -, -, hc, -⟩ := completeRefresh_eq_ok h
    rw [hop, hc, get_erase_ne _ hne, get_insert_ne _ _ hne]
    exact ⟨rfl, rfl⟩
  | fail permanent code summary now =>
    obtain ⟨-, start, row, row', -, -, hop, hc, -⟩ := fail_eq_ok h
    rw [hop, hc, get_insert_ne _ _ hne, get_erase_ne _ hne, get_insert_ne _ _ hne]
    exact ⟨rfl, rfl⟩
  | completeReset ev requested out wins =>
    obtain ⟨-, -, hop, hc⟩ := completeReset_eq_ok h
    rw [hop, hc, get_erase_ne _ hne]
    exact ⟨rfl, rfl⟩

/-- What a committed report does to its own credential. -/
theorem change_of_report
    (hh : s.held.get id = some op) (hk : op.kind = report.kind)
    (h : report.apply s.database id op = .ok database) :
    Change allow id (s.view id) ⟨database.operations.get id, database.credentials.get id, none⟩
      (if report.succeeds then [.completed id op.kind op.attempt op.generation] else []) := by
  cases report with
  | completeRefresh eg now =>
    obtain ⟨hs, hf, hop, row, row', hr, -, hc, hn, hl, hst⟩ := completeRefresh_eq_ok h
    rw [hop, hc, get_erase_self, get_insert_self]
    exact .refreshed op row row' (inForce_view hh hs hf hr) hk hn hl
      hst
  | fail permanent code summary now =>
    obtain ⟨hf, start, row, row', hs, hr, hop, hc, hsa, hl, hst⟩ := fail_eq_ok h
    rw [hop, hc, get_insert_self, get_insert_self]
    have hso : op.startedAt.isSome = true := by rw [hs, Option.isSome_some]
    exact .failed op row row' start (inForce_view hh hso hf hr) hk hs
      hsa hl (fun hri he => hst hri (fun _ => he))
  | completeReset ev requested out wins =>
    obtain ⟨hs, hf, hop, hc⟩ := completeReset_eq_ok h
    obtain ⟨-, row, -, -, -, hr, -⟩ := inForce_iff.mp hf
    rw [hop, hc, get_erase_self]
    exact .reset op row (inForce_view hh hs hf hr) hk

theorem affects_report (s : System) (id o : Uuid) (report : Report) :
    Affects allow s (s.report o report) id := by
  unfold System.report
  cases hh : s.held.get o with
  | none => exact .nothing s id
  | some op =>
    dsimp only
    by_cases hk : op.kind = report.kind
    · rw [if_pos hk]
      cases hr : report.apply s.database o op with
      | error err => exact affects_dropOperation s id o
      | ok database =>
        refine ⟨if report.succeeds then
          [.completed o op.kind op.attempt op.generation] else [], ?_, ?_⟩
        · cases report.succeeds <;> rfl
        · by_cases h : id = o
          · subst h
            simpa [System.view] using change_of_report hh hk hr
          · obtain ⟨hop, hc⟩ := Report.apply_elsewhere hr h
            simp only [System.view, hop, hc, get_erase_ne _ h]
            refine .elsewhere _ (fun ev he => ?_)
            cases hs : report.succeeds with
            | true =>
              rw [hs, if_pos rfl, mem_singleton] at he
              rw [he]
              exact Ne.symm h
            | false => simp [hs] at he
    · rw [if_neg hk]
      exact .nothing s id

/-- Every step changes every credential in one of the ways described. -/
theorem affects_step (allow : Option Int → SqliteCodexOperation → Bool) (s : System) (move : Move)
    (id : Uuid) : Affects allow s (s.step allow move) id := by
  cases move with
  | edit edit now =>
    cases hr : edit.apply s.database now with
    | error err =>
      simp only [System.step, System.commit, hr]
      exact .nothing s id
    | ok database =>
      simp only [System.step, System.commit, hr]
      exact affects_edit (edited_apply hr) id
  | reauthorize o input ids now => exact affects_reauthorize s id o input ids now
  | reserve o kind att => exact affects_reserve s id o kind att
  | prepare o obs now => exact affects_prepare s id o obs now
  | dispatch o => exact affects_dispatch s id o
  | report o report => exact affects_report s id o report
  | drop o => exact affects_dropOperation s id o
  | crash => exact affects_crash s id

end AiGateway.Codex
