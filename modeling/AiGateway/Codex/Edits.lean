import AiGateway.Codex.Operations

/-! What one edit can do to one credential row, said once for all edits. -/
namespace AiGateway.Codex
open Domain Lib Lib.Stage Option Table

/-- The status the other columns of a row stand for. -/
def statusOf (row : CodexCredential) : RuntimeStatus :=
  if row.enabled = false then .disabled
  else if row.reauthRequired = true ∨ row.quotaAllowed = some false ∨
      row.quotaLimitReached = some true then .unavailable
  else if row.quotaThresholdPercent ≤
      max (row.primaryUsedPercent.getD 0) (row.secondaryUsedPercent.getD 0) then .draining
  else .active

variable {row : CodexCredential} {thr : Int}

/-- The columns the status depends on besides the switches, alike in two rows. -/
structure SameQuota (row row' : CodexCredential) : Prop where
  allowed : row'.quotaAllowed = row.quotaAllowed
  limitReached : row'.quotaLimitReached = row.quotaLimitReached
  primary : row'.primaryUsedPercent = row.primaryUsedPercent
  secondary : row'.secondaryUsedPercent = row.secondaryUsedPercent

variable {row' : CodexCredential} {db₁ : Database} {qualifies : CodexCredential → Bool}
  {set : CodexCredential → CodexCredential}

/-- The status expressions over the stored quota agree with the other columns. -/
theorem storedQuotaStatus_eq_statusOf (hq : SameQuota row row') (he : row'.enabled = true)
    (hr : row'.reauthRequired = false) (ht : row'.quotaThresholdPercent = thr) :
    row.storedQuotaStatus thr = statusOf row' := by
  simp only [CodexCredential.storedQuotaStatus, statusOf, he, hr, hq.allowed,
    hq.limitReached, hq.primary, hq.secondary, ht, Bool.true_eq_false,
    Bool.false_eq_true, false_or, if_false, ge_iff_le]

/-- So does the status a report gives, once its columns are stored. -/
theorem runtimeStatusForQuota_eq_statusOf {quota : CodexQuotaUpdate} {chk : Int}
    {prim sec : Option Int}
    (he : row.enabled = true) (hr : row.reauthRequired = false)
    (ht : row.quotaThresholdPercent = thr) :
    runtimeStatusForQuota quota thr = statusOf (row.setQuota quota chk prim sec) := by
  simp only [runtimeStatusForQuota, statusOf, CodexCredential.setQuota, he, hr,
    ht, Bool.true_eq_false, Bool.false_eq_true, false_or, if_false, ge_iff_le,
    Option.some.injEq, Bool.or_eq_true, Bool.not_eq_true']

theorem editedStatus_eq_statusOf {enabled : Bool}
    (hq : SameQuota row row') (he : row'.enabled = enabled)
    (hre : row'.reauthRequired = row.reauthRequired)
    (ht : row'.quotaThresholdPercent = thr) :
    editedStatus row enabled thr = statusOf row' := by
  unfold editedStatus
  cases enabled with
  | false => exact (if_pos he).symm
  | true =>
    cases hr : row.reauthRequired with
    | true => simp [statusOf, he, hre, hr]
    | false => exact storedQuotaStatus_eq_statusOf hq he (hre.trans hr) ht

/-- An edit of a row keeps its generation, stamps it, and leaves the right status behind. -/
structure RowEdited (now : Int) (row row' : CodexCredential) : Prop where
  generation : row'.refreshGeneration = row.refreshGeneration
  stamp : row'.updatedAt = now
  status : row.runtimeStatus = statusOf row → row'.runtimeStatus = statusOf row'

/-- What an edit can do to one row; only a live row without a pending operation is edited. -/
inductive RowChange (now : Int) (pending : Bool) :
    Option CodexCredential → Option CodexCredential → Prop
  | unchanged (row : Option CodexCredential) : RowChange now pending row row
  | created (row : CodexCredential) (hstatus : row.runtimeStatus = statusOf row) :
      RowChange now pending none (some row)
  | edited {row row' : CodexCredential} (hfree : pending = false) (hlive : row.deletedAt = none)
      (hedit : RowEdited now row row') : RowChange now pending (some row) (some row')

/-- What an edit does to the rows and to the pending operations. -/
structure Edited (now : Int) (db db' : Database) : Prop where
  operations : db'.operations = db.operations
  rows : ∀ id, RowChange now (db.pending id) (db.credentials.get id) (db'.credentials.get id)

variable {db db' : Database} {now start eg requested wins : Int} {id : Uuid}

theorem Edited.refl (now : Int) (db : Database) : Edited now db db := ⟨rfl, fun _ => .unchanged _⟩

theorem Edited.pending (h : Edited now db db') (id : Uuid) : db'.pending id = db.pending id := by
  rw [Database.pending, h.operations]
  rfl

theorem Edited.of_history (h : Edited now db₁ db')
    (hc : db₁.credentials = db.credentials) (hop : db₁.operations = db.operations) :
    Edited now db db' := by
  refine ⟨h.operations.trans hop, fun id => ?_⟩
  have hr := h.rows id
  rw [hc] at hr
  rwa [Database.pending, ← hop]

theorem edited_of_updateCredential (h : db.updateCredential id qualifies set = .ok (some db'))
    (hs : ∀ row, RowEdited now row (set row)) : Edited now db db' := by
  obtain ⟨row, hl, -, hf, rfl⟩ := Database.updateCredential_eq_some.mp h
  obtain ⟨hr, hd⟩ := Database.live_eq_some.mp hl
  refine ⟨rfl, fun o => ?_⟩
  by_cases hot : o = id
  · subst hot
    rw [hr, get_insert_self]
    exact .edited (by simp [Database.pending, hf]) hd (hs row)
  · rw [get_insert_ne _ _ hot]
    exact .unchanged _

/-- An edit that leaves alone a row that does not qualify. -/
theorem edited_of_updateCredential_getD {updated : Option Database}
    (h : db.updateCredential id qualifies set = .ok updated)
    (hs : ∀ row, RowEdited now row (set row)) :
    Edited now db (updated.getD db) := by
  cases updated with
  | none => exact .refl now db
  | some db' => exact edited_of_updateCredential h hs

theorem RowChange.trans {pend : Bool} {row row₁ row' : Option CodexCredential}
    (h : RowChange now pend row row₁) (h' : RowChange now pend row₁ row') :
    RowChange now pend row row' := by
  cases h' with
  | unchanged => exact h
  | created row hs =>
    cases h with
    | unchanged => exact .created row hs
  | edited hf hl he =>
    cases h with
    | unchanged => exact .edited hf hl he
    | created row hs => exact .created _ (he.status hs)
    | edited _ hl₀ he₀ =>
      refine .edited hf hl₀ ⟨?_, he.stamp, fun h => he.status (he₀.status h)⟩
      exact he.generation.trans he₀.generation

/-- Two edits in one transaction are one edit. -/
theorem Edited.trans (h : Edited now db db₁) (h' : Edited now db₁ db') : Edited now db db' := by
  refine ⟨h'.operations.trans h.operations, fun id => (h.rows id).trans ?_⟩
  rw [← h.pending id]
  exact h'.rows id

section Transactions
variable {ids : CodexQuotaWindowKind → Uuid} {quota : Option CodexQuotaUpdate} {lockFree : Bool}

theorem reconcileReport_eq_ok (h : reconcileReport db ids id quota = .ok db') :
    db'.credentials = db.credentials ∧ db'.operations = db.operations := by
  cases quota with
  | none =>
    cases h
    exact ⟨rfl, rfl⟩
  | some quota =>
    obtain ⟨hist, -, h⟩ := bind_eq_ok.mp h
    cases h
    exact ⟨rfl, rfl⟩

variable {set : CodexCredential → CodexCredential} {expectedUpdatedAt : Int}
  {input : CodexCredentialCreate}

theorem bindQuota_eq_ok {quota : CodexQuotaUpdate} (h : bindQuota quota = .ok set) :
    ∃ chk prim sec,
      set = (·.setQuota quota chk prim sec) := by
  obtain ⟨prim, -, h⟩ := bind_eq_ok.mp h
  obtain ⟨sec, -, h⟩ := bind_eq_ok.mp h
  obtain ⟨chk, -, h⟩ := bind_eq_ok.mp h
  exact ⟨chk, prim, sec, (Except.ok.inj h).symm⟩

theorem validateCredentialSettings_eq_ok {label : Bytes} {u : Unit}
    (h : validateCredentialSettings label thr = .ok u) : 1 ≤ thr ∧ thr ≤ 100 := by
  have hv := ensure_eq_ok.mp h
  simp only [Bool.not_or, Bool.not_not, Bool.and_eq_true, decide_eq_true_eq] at hv
  exact hv.2

theorem edited_update {input : CodexCredentialUpdateInput}
    (h : updateCodexCredential db id input expectedUpdatedAt now = .ok db') :
    Edited now db db' := by
  obtain ⟨⟨⟩, -, h⟩ := bind_eq_ok.mp h
  obtain ⟨⟨⟩, -, h⟩ := bind_eq_ok.mp h
  obtain ⟨exp, -, h⟩ := bind_eq_ok.mp h
  obtain ⟨updated, hu, h⟩ := bind_eq_ok.mp h
  rw [orReject_eq_ok.mp h] at hu
  refine edited_of_updateCredential hu (fun row => ⟨rfl, rfl, fun _ => ?_⟩)
  exact editedStatus_eq_statusOf ⟨rfl, rfl, rfl, rfl⟩ rfl rfl rfl

theorem edited_setEnabled {enabled : Bool}
    (h : setCodexCredentialEnabled db id expectedUpdatedAt enabled now = .ok db') :
    Edited now db db' := by
  obtain ⟨⟨⟩, -, h⟩ := bind_eq_ok.mp h
  obtain ⟨exp, -, h⟩ := bind_eq_ok.mp h
  obtain ⟨updated, hu, h⟩ := bind_eq_ok.mp h
  rw [orReject_eq_ok.mp h] at hu
  refine edited_of_updateCredential hu (fun row => ⟨rfl, rfl, fun _ => ?_⟩)
  exact editedStatus_eq_statusOf ⟨rfl, rfl, rfl, rfl⟩ rfl rfl rfl

theorem edited_delete
    (h : deleteCodexCredential db id expectedUpdatedAt now = .ok db') : Edited now db db' := by
  obtain ⟨⟨⟩, -, h⟩ := bind_eq_ok.mp h
  obtain ⟨exp, -, h⟩ := bind_eq_ok.mp h
  obtain ⟨updated, hu, h⟩ := bind_eq_ok.mp h
  rw [orReject_eq_ok.mp h] at hu
  exact edited_of_updateCredential hu (fun row => ⟨rfl, rfl, fun _ => rfl⟩)

theorem edited_batch {items : List CodexCredentialBatchTarget}
    {op : CodexCredentialBatchOperation}
    (h : updateCodexCredentialsBatch db items op now = .ok db') : Edited now db db' := by
  obtain ⟨⟨⟩, -, h⟩ := bind_eq_ok.mp h
  obtain ⟨⟨⟩, -, h⟩ := bind_eq_ok.mp h
  refine foldlM_invariant (fun _ db₁ => Edited now db db₁) (.refl now db) ?_ h
  intro done item db₁ db₂ _ hd hit
  refine hd.trans ?_
  cases op with
  | enable => exact edited_setEnabled hit
  | disable => exact edited_setEnabled hit
  | delete => exact edited_delete hit

/-- An error that is not permanent touches neither the status nor what it depends on. -/
theorem edited_recordError {code summary : String}
    (h : markCodexCredentialError db id false code summary now = .ok db') : Edited now db db' := by
  obtain ⟨updated, hu, h⟩ := bind_eq_ok.mp h
  cases h
  refine edited_of_updateCredential_getD hu (fun row => ⟨rfl, rfl, fun hs => ?_⟩)
  simp only [Bool.or_false, Bool.false_eq_true, if_false]
  exact hs

theorem edited_setUserId (h : setCodexUserIdIfMissing db id now = .ok db') : Edited now db db' := by
  obtain ⟨updated, hu, h⟩ := bind_eq_ok.mp h
  cases h
  exact edited_of_updateCredential_getD hu (fun row => ⟨rfl, rfl, fun hs => hs⟩)

theorem edited_recordReset {ev : Uuid} {requestedAt : Int}
    {out : CodexQuotaResetOutcome} {windowsReset : Int} (now : Int)
    (h : recordCodexQuotaReset db id ev requestedAt out windowsReset = .ok db') :
    Edited now db db' := by
  obtain ⟨⟨⟩, -, h⟩ := bind_eq_ok.mp h
  obtain ⟨hist, -, h⟩ := bind_eq_ok.mp h
  cases h
  exact (Edited.refl now _).of_history rfl rfl

theorem edited_persistQuota {quota : CodexQuotaUpdate}
    (h : persistCodexQuota db ids id quota now = .ok db') : Edited now db db' := by
  obtain ⟨⟨⟩, -, h⟩ := bind_eq_ok.mp h
  obtain ⟨db₁, hr, h⟩ := bind_eq_ok.mp h
  obtain ⟨set, hs, h⟩ := bind_eq_ok.mp h
  obtain ⟨chk, -, h⟩ := bind_eq_ok.mp h
  obtain ⟨updated, hu, h⟩ := bind_eq_ok.mp h
  cases h
  obtain ⟨stored, prim, sec, rfl⟩ := bindQuota_eq_ok hs
  obtain ⟨hc, hop⟩ := reconcileReport_eq_ok hr
  refine Edited.of_history (edited_of_updateCredential_getD hu ?_) hc hop
  refine fun row => ⟨rfl, rfl, fun _ => ?_⟩
  cases row.enabled with
  | false => rfl
  | true =>
    cases row.reauthRequired with
    | true => simp [statusOf, CodexCredential.setQuota]
    | false => exact runtimeStatusForQuota_eq_statusOf rfl rfl rfl

/-- Binding a report changes the quota columns only, and changes them all. -/
theorem bindOptionalQuota_eq_ok (h : bindOptionalQuota quota = .ok set) :
    (quota = none ∧ set = fun row => row) ∨ ∃ report chk prim sec, quota = some report ∧
        set = (·.setQuota report chk prim sec) := by
  cases quota with
  | none => exact .inl ⟨rfl, (Except.ok.inj h).symm⟩
  | some report =>
    obtain ⟨chk, prim, sec, hs⟩ := bindQuota_eq_ok h
    exact .inr ⟨report, chk, prim, sec, rfl, hs⟩

theorem status_created (ht : 1 ≤ input.quotaThresholdPercent)
    (hs : bindOptionalQuota input.quota = .ok set) (now : Int) :
    (set (.fresh input (createdStatus input) now)).runtimeStatus =
      statusOf (set (.fresh input (createdStatus input) now)) := by
  rcases bindOptionalQuota_eq_ok hs with ⟨hq, rfl⟩ |
    ⟨report, chk, prim, sec, hq, rfl⟩
  · have hu : ¬ input.quotaThresholdPercent ≤ 0 := by omega
    cases he : input.enabled with
    | false => simp [statusOf, CodexCredential.fresh, createdStatus, he]
    | true => simp [statusOf, CodexCredential.fresh, createdStatus, hq, he, hu]
  · cases he : input.enabled with
    | false =>
      simp [statusOf, CodexCredential.fresh, CodexCredential.setQuota, createdStatus, he]
    | true =>
      have hr : runtimeStatusForQuota report input.quotaThresholdPercent =
          statusOf ((CodexCredential.fresh input (createdStatus input) now).setQuota report chk
            prim sec) := runtimeStatusForQuota_eq_statusOf he rfl rfl
      rw [← hr]
      simp [CodexCredential.fresh, CodexCredential.setQuota, createdStatus, he, hq]

theorem edited_create
    (h : createCodexCredential db ids id input now = .ok db') : Edited now db db' := by
  obtain ⟨⟨⟩, hv, h⟩ := bind_eq_ok.mp h
  obtain ⟨set, hs, h⟩ := bind_eq_ok.mp h
  obtain ⟨⟨⟩, hne, h⟩ := bind_eq_ok.mp h
  obtain ⟨hc, hop⟩ := reconcileReport_eq_ok h
  have hn : db.credentials.get id = none := by
    simpa using ensure_eq_ok.mp hne
  refine ⟨hop, fun o => ?_⟩
  rw [hc]
  by_cases hot : o = id
  · subst hot
    rw [hn, get_insert_self]
    exact .created _ (status_created (validateCredentialSettings_eq_ok hv).1 hs now)
  · rw [get_insert_ne _ _ hot]
    exact .unchanged _

/-- Every edit changes rows as described, whatever it is. -/
theorem edited_apply {edit : Edit} (h : edit.apply db now = .ok db') : Edited now db db' := by
  cases edit with
  | create id input ids => exact edited_create h
  | update id input expectedUpdatedAt => exact edited_update h
  | batch items op => exact edited_batch h
  | delete id expectedUpdatedAt => exact edited_delete h
  | persistQuota id quota ids => exact edited_persistQuota h
  | recordError id code summary => exact edited_recordError h
  | setUserId id => exact edited_setUserId h
  | recordReset id ev requestedAt out windowsReset => exact edited_recordReset now h

/-- What a reauthorization does: the generation moves on, the status is right, and a pending
refresh is forgotten. -/
structure Reauthorized (now : Int) (lockFree : Bool) (id : Uuid) (db db' : Database) : Prop where
  row : ∃ row row', db.live id = some row ∧ db'.credentials = db.credentials.insert id row' ∧
    row'.refreshGeneration = row.refreshGeneration + 1 ∧ row'.updatedAt = now ∧
    row'.deletedAt = none ∧ row'.runtimeStatus = statusOf row'
  pending : ∀ operation, db.operations.get id = some operation →
    operation.kind = .refresh ∧ lockFree = true
  cleared : ∀ other, db'.operations.get other =
    if other = id then none else db.operations.get other

theorem reauthorize_eq_ok (h : reauthorize db lockFree id = .ok db') :
    db'.credentials = db.credentials ∧ (∀ op, db.operations.get id = some op →
        op.kind = .refresh ∧ lockFree = true) ∧
      ∀ o, db'.operations.get o = if o = id then none else db.operations.get o := by
  unfold reauthorize at h
  cases hp : db.operations.get id with
  | none =>
    simp only [hp, Except.ok.injEq] at h
    subst h
    refine ⟨rfl, fun op hop => ?_, fun o => ?_⟩
    · cases hop
    · split_ifs with hot
      · rw [hot, hp]
      · rfl
  | some op =>
    simp only [hp] at h
    obtain ⟨⟨⟩, hk, h⟩ := bind_eq_ok.mp h
    obtain ⟨⟨⟩, hl, h⟩ := bind_eq_ok.mp h
    cases h
    refine ⟨rfl, fun found hf => ?_, fun o => get_erase _ _ _⟩
    cases hf
    exact ⟨beq_iff_eq.mp (ensure_eq_ok.mp hk), ensure_eq_ok.mp hl⟩

theorem reauthorizeCodexCredential_eq_ok
    (h : reauthorizeCodexCredential db lockFree ids id input now = .ok db') :
    Reauthorized now lockFree id db db' := by
  obtain ⟨⟨⟩, -, h⟩ := bind_eq_ok.mp h
  obtain ⟨db₁, hcl, h⟩ := bind_eq_ok.mp h
  obtain ⟨ex, -, h⟩ := bind_eq_ok.mp h
  obtain ⟨set, hs, h⟩ := bind_eq_ok.mp h
  obtain ⟨updated, hu, h⟩ := bind_eq_ok.mp h
  obtain ⟨db₂, hdb₂, hr⟩ := bind_eq_ok.mp h
  rw [orReject_eq_ok.mp hdb₂] at hu
  obtain ⟨hc, hp, hop⟩ := reauthorize_eq_ok hcl
  obtain ⟨row, hro, -, -, rfl⟩ := Database.updateCredential_eq_some.mp hu
  obtain ⟨hc', ho'⟩ := reconcileReport_eq_ok hr
  have hl : db.live id = some row := by
    rw [Database.live, ← hc]
    exact hro
  have hd := (Database.live_eq_some.mp hl).2
  rw [hc] at hc'
  refine ⟨⟨row, _, hl, hc', ?_⟩, hp, fun o => ?_⟩
  · rcases bindOptionalQuota_eq_ok hs with ⟨hq, rfl⟩ |
      ⟨report, chk, prim, sec, hq, rfl⟩
    · refine ⟨rfl, rfl, hd, ?_⟩
      simp only [reauthorizedStatus, hq]
      cases he : input.enabled with
      | false => rfl
      | true => exact storedQuotaStatus_eq_statusOf ⟨rfl, rfl, rfl, rfl⟩ rfl rfl rfl
    · refine ⟨rfl, rfl, hd, ?_⟩
      simp only [reauthorizedStatus, hq]
      cases he : input.enabled with
      | false => rfl
      | true => exact runtimeStatusForQuota_eq_statusOf rfl rfl rfl
  · rw [ho']
    exact hop o

end Transactions

section Reports
variable {op prep : SqliteCodexOperation}

theorem reserveCodexOperation_eq_ok {kind : OperationKind} {att : Uuid}
    (h : reserveCodexOperation db id kind att = .ok (some op)) :
    ∃ rec, db.live id = some rec ∧ op =
      ⟨rec, att, rec.refreshGeneration, rec.updatedAt, none, kind, false⟩ := by
  unfold reserveCodexOperation at h
  cases hr : db.live id with
  | none => simp [hr] at h
  | some rec =>
    simp only [hr] at h
    obtain ⟨⟨⟩, -, h⟩ := bind_eq_ok.mp h
    cases h
    exact ⟨rec, rfl, rfl⟩

theorem inForce_iff : op.inForce db id = true ↔
    ∃ intent row, db.operations.get id = some intent ∧ intent.attempt = op.attempt ∧
      intent.generation = op.generation ∧ db.live id = some row ∧
      row.refreshGeneration = op.generation := by
  simp only [SqliteCodexOperation.inForce, Bool.and_eq_true, any_eq_true, beq_iff_eq]
  constructor
  · rintro ⟨⟨intent, hin, ha, hg⟩, row, hr, hc⟩
    exact ⟨intent, row, hin, ha, hg, hr, hc⟩
  · rintro ⟨intent, row, hin, ha, hg, hr, hc⟩
    exact ⟨⟨intent, hin, ha, hg⟩, row, hr, hc⟩

theorem release_eq_ok (h : op.release db id = .ok db') :
    op.startedAt.isSome = true ∧ op.inForce db id = true ∧
      db' = { db with operations := db.operations.erase id } := by
  obtain ⟨⟨⟩, hs, h⟩ := bind_eq_ok.mp h
  obtain ⟨⟨⟩, hf, h⟩ := bind_eq_ok.mp h
  cases h
  exact ⟨ensure_eq_ok.mp hs, ensure_eq_ok.mp hf, rfl⟩

theorem insertIntent_eq_ok
    (h : op.insertIntent db id start = .ok db') :
    db' = { db with
      operations := db.operations.insert id
        ⟨op.attempt, op.kind, op.generation, start⟩ } := by
  obtain ⟨⟨⟩, -, h⟩ := bind_eq_ok.mp h
  cases h
  rfl

theorem prepareDispatch_eq_ok
    (h : op.prepareDispatch db id now = .ok (db', prep)) :
    prep = { op with startedAt := some now } ∧ op.startedAt = none ∧ db.operations.get id = none ∧
      (∃ row, db.live id = some row ∧ row.refreshGeneration = op.generation ∧
        row.updatedAt = op.updatedAt) ∧
      db' = { db with
        operations := db.operations.insert id
          ⟨op.attempt, op.kind, op.generation, now⟩ } := by
  obtain ⟨⟨⟩, hs, h⟩ := bind_eq_ok.mp h
  obtain ⟨⟨⟩, hc, h⟩ := bind_eq_ok.mp h
  obtain ⟨⟨⟩, hp, h⟩ := bind_eq_ok.mp h
  obtain ⟨db₁, hin, h⟩ := bind_eq_ok.mp h
  cases h
  have hr := ensure_eq_ok.mp hc
  simp only [any_eq_true, SqliteCodexOperation.current, Bool.and_eq_true, beq_iff_eq] at hr
  have hf := ensure_eq_ok.mp hp
  simp only [Database.pending, Bool.not_eq_true', isSome_eq_false_iff, isNone_iff_eq_none] at hf
  exact ⟨rfl, isNone_iff_eq_none.mp (ensure_eq_ok.mp hs), hf, hr, insertIntent_eq_ok hin⟩

/-- A completed refresh: the intent goes, the generation moves on by one. -/
theorem completeRefresh_eq_ok
    (h : op.completeRefresh db id eg now = .ok db') :
    op.startedAt.isSome = true ∧ op.inForce db id = true ∧ db'.operations = db.operations.erase id ∧
      ∃ row row', db.live id = some row ∧ row.refreshGeneration = op.generation ∧
        db'.credentials = db.credentials.insert id row' ∧
        row'.refreshGeneration = row.refreshGeneration + 1 ∧ row'.deletedAt = none ∧
        row'.runtimeStatus = statusOf row' := by
  obtain ⟨⟨⟩, he, h⟩ := bind_eq_ok.mp h
  obtain ⟨db₁, hr, h⟩ := bind_eq_ok.mp h
  obtain ⟨updated, hu, hdo⟩ := bind_eq_ok.mp h
  obtain ⟨hs, hf, rfl⟩ := release_eq_ok hr
  rw [orReject_eq_ok.mp hdo, persistCodexTokenRefresh] at hu
  obtain ⟨row, hro, hg, -, rfl⟩ := Database.updateCredential_eq_some.mp hu
  have hsa : row.refreshGeneration = op.generation :=
    (beq_iff_eq.mp hg).trans (beq_iff_eq.mp (ensure_eq_ok.mp he))
  have hd := (Database.live_eq_some.mp hro).2
  refine ⟨hs, hf, rfl, row, _, hro, hsa, rfl, rfl, hd, ?_⟩
  cases hen : row.enabled with
  | false => rfl
  | true => exact storedQuotaStatus_eq_statusOf ⟨rfl, rfl, rfl, rfl⟩ rfl rfl rfl

/-- A failed refresh: the intent stays, and a permanent failure makes the credential
unavailable whether it is enabled or not. -/
theorem fail_eq_ok {permanent : Bool} {code summary : String}
    (h : op.fail db id permanent code summary now = .ok db') :
    op.inForce db id = true ∧ ∃ start row row', op.startedAt = some start ∧ db.live id = some row ∧
        db'.operations = (db.operations.erase id).insert id
          ⟨op.attempt, op.kind, op.generation, start⟩ ∧
        db'.credentials = db.credentials.insert id row' ∧
        row'.refreshGeneration = row.refreshGeneration ∧ row'.deletedAt = none ∧
        (row.runtimeStatus = statusOf row → (permanent = true → row.enabled = true) →
          row'.runtimeStatus = statusOf row') := by
  obtain ⟨db₁, hr, h⟩ := bind_eq_ok.mp h
  obtain ⟨db₂, hm, h⟩ := bind_eq_ok.mp h
  obtain ⟨start, hs, hin⟩ := bind_eq_ok.mp h
  obtain ⟨-, hf, rfl⟩ := release_eq_ok hr
  obtain ⟨-, live, -, -, -, hl, -⟩ := inForce_iff.mp hf
  obtain ⟨updated, hu, hdb₂⟩ := bind_eq_ok.mp hm
  cases hdb₂
  have hl₁ : Database.live { db with operations := db.operations.erase id } id = some live := hl
  cases updated with
  | none => exact absurd (Database.updateCredential_eq_none hu live hl₁) (by simp)
  | some db₂ =>
    obtain ⟨row, hro, -, -, rfl⟩ := Database.updateCredential_eq_some.mp hu
    have hd := (Database.live_eq_some.mp hro).2
    obtain rfl := insertIntent_eq_ok hin
    refine ⟨hf, start, row, _, orReject_eq_ok.mp hs, hro, rfl, rfl, rfl, hd, fun hst he => ?_⟩
    cases permanent with
    | false =>
      simp only [Bool.or_false, Bool.false_eq_true, if_false]
      exact hst
    | true => simp [statusOf, he rfl]

theorem completeReset_eq_ok {ev : Uuid}
    {out : CodexQuotaResetOutcome}
    (h : op.completeReset db id ev requested out wins = .ok db') :
    op.startedAt.isSome = true ∧ op.inForce db id = true ∧
      db'.operations = db.operations.erase id ∧ db'.credentials = db.credentials := by
  obtain ⟨db₁, hr, h⟩ := bind_eq_ok.mp h
  obtain ⟨hist, -, h⟩ := bind_eq_ok.mp h
  obtain ⟨hs, hf, rfl⟩ := release_eq_ok hr
  cases h
  exact ⟨hs, hf, rfl, rfl⟩

end Reports
end AiGateway.Codex
