import AiGateway.Pipeline.Rows

/-! The projection of batches of events into the query log. -/
namespace AiGateway.Pipeline
open Domain Lib Journal List Table

inductive RequestLogBatchInsertOutcome where
  | inserted
  | exactDuplicate
  | duplicateConflict
  | invalidResponseStatus (status : Fin 65536)
  deriving DecidableEq

def validateResponseStatus (status : Fin 65536) : Except (Fin 65536) (Fin 65536) :=
  if 100 ≤ status.val ∧ status.val ≤ 599 then .ok status else .error status

/-- The status to store, or the one that is refused. -/
def validatedStatus (event : RequestLogEvent) : Except (Fin 65536) (Option (Fin 65536)) :=
  match event.responseStatusCode with
  | none => .ok none
  | some status => some <$> validateResponseStatus status

structure ValidEvent where
  index : ℕ
  event : RequestLogEvent
  status : Option (Fin 65536)

def validFrom : ℕ → List RequestLogEvent → List ValidEvent
  | _, [] => []
  | index, event :: events =>
    match validatedStatus event with
    | .ok status => ⟨index, event, status⟩ :: validFrom (index + 1) events
    | .error _ => validFrom (index + 1) events

def ValidEvent.entry (valid : ValidEvent) : Except RepositoryError (Uuid × RequestLogRow) := do
  let row ← logObject valid.event valid.status
  return (valid.event.id, row)

def firstValidIndex (valid : List ValidEvent) : Table Uuid ℕ :=
  (∅ : Table Uuid ℕ).insertAll (valid.map (fun entry => (entry.event.id, entry.index)))

/-- A row that was there before, or that an earlier event of the batch has added. -/
def compareStored (event : RequestLogEvent) (status : Option (Fin 65536)) :
    Option RequestLogRow → Except RepositoryError RequestLogBatchInsertOutcome
  | none => .error (.duplicateDisappeared event.id)
  | some row =>
    .ok (if row.matchesEvent event status then .exactDuplicate else .duplicateConflict)

section Loop
variable (first : Table Uuid ℕ) (inserted : List Uuid) (stored : Table Uuid RequestLogRow)

def classify (index : ℕ) (event : RequestLogEvent) :
    Except RepositoryError RequestLogBatchInsertOutcome :=
  match validatedStatus event with
  | .error status => .ok (.invalidResponseStatus status)
  | .ok status =>
    if event.id ∈ inserted ∧ first.get event.id = some index then .ok .inserted
    else compareStored event status (stored.get event.id)

def classifyFrom : ℕ → List RequestLogEvent →
    Except RepositoryError (List (Uuid × RequestLogBatchInsertOutcome))
  | _, [] => pure []
  | index, event :: events => do
    let outcome ← classify first inserted stored index event
    let outcomes ← classifyFrom (index + 1) events
    return (event.id, outcome) :: outcomes

end Loop

/-- The outcomes and the log they leave; an error leaves the log as it was. -/
def projectBatch (constraints : Constraints RequestLogRow) (logs : Table Uuid RequestLogRow)
    (events : List RequestLogEvent) :
    Except RepositoryError
      (List (Uuid × RequestLogBatchInsertOutcome) × Table Uuid RequestLogRow) :=
  if events.isEmpty then pure ([], logs)
  else do
    let valid := validFrom 0 events
    let entries ← valid.mapM ValidEvent.entry
    let done ← Stage.orReject (logs.insertRows constraints entries) .storage
    let outcomes ← classifyFrom (firstValidIndex valid) done.2 done.1 0 events
    return (outcomes, done.1)

/-- What an event adds to the log. -/
def rowOf (event : RequestLogEvent) : Option (Uuid × RequestLogRow) :=
  match validatedStatus event with
  | .ok status => some (event.id, logColumns written event status)
  | .error _ => none

def outcomeIn (logs : Table Uuid RequestLogRow) (event : RequestLogEvent) :
    RequestLogBatchInsertOutcome :=
  match validatedStatus event with
  | .error status => .invalidResponseStatus status
  | .ok status =>
    match logs.get event.id with
    | none => .inserted
    | some row => if row.matchesEvent event status then .exactDuplicate else .duplicateConflict

def outcomesIn (logs : Table Uuid RequestLogRow) :
    List RequestLogEvent → List (Uuid × RequestLogBatchInsertOutcome)
  | [] => []
  | event :: events =>
    (event.id, outcomeIn logs event) :: outcomesIn (logs.insertAll (rowOf event).toList) events

/-- An event whose status is valid has columns that hold its decimals, and a row that the table
accepts. -/
def Projectable (constraints : Constraints RequestLogRow) (event : RequestLogEvent) : Prop :=
  ∀ status, validatedStatus event = .ok status →
    Hold (logDecimals event) ∧ constraints.Accepts (logColumns written event status)

theorem validFrom_append (i : ℕ) (pre after : List RequestLogEvent) :
    validFrom i (pre ++ after) =
      validFrom i pre ++ validFrom (i + pre.length) after := by
  induction pre generalizing i with
  | nil => rfl
  | cons ev pre ih =>
    have hn : i + 1 + pre.length = i + (pre.length + 1) := by omega
    rw [cons_append, validFrom, validFrom, ih, hn]
    cases validatedStatus ev <;> rfl

variable {evs : List RequestLogEvent} {constraints : Constraints RequestLogRow}
  {ev : RequestLogEvent}

theorem index_lt_of_mem_validFrom {i : ℕ} {e : ValidEvent}
    (h : e ∈ validFrom i evs) : e.index < i + evs.length := by
  induction evs generalizing i with
  | nil => cases h
  | cons ev evs ih =>
    rw [validFrom] at h
    rw [length_cons]
    cases hs : validatedStatus ev with
    | error status =>
      rw [hs] at h
      have hlt := ih h
      omega
    | ok status =>
      rw [hs] at h
      rcases mem_cons.mp h with rfl | hr
      · simp
      · have hlt := ih hr
        omega

theorem ids_validFrom (i : ℕ) (evs : List RequestLogEvent) :
    (validFrom i evs).map (fun e => e.event.id) =
      (evs.filterMap rowOf).map Prod.fst := by
  induction evs generalizing i with
  | nil => rfl
  | cons ev evs ih =>
    rw [validFrom]
    cases hs : validatedStatus ev <;> simp [rowOf, hs, ih]

theorem mapM_entry (i : ℕ) (h : ∀ ev ∈ evs, Projectable constraints ev) :
    (validFrom i evs).mapM ValidEvent.entry = .ok (evs.filterMap rowOf) := by
  induction evs generalizing i with
  | nil => rfl
  | cons ev evs ih =>
    obtain ⟨hev, he⟩ := forall_mem_cons.mp h
    have hr := ih (i + 1) he
    rw [validFrom]
    cases hs : validatedStatus ev with
    | error status => simp [rowOf, hs, hr]
    | ok status =>
      have hro : logObject ev status = .ok (logColumns written ev status) :=
        logObject_eq_ok.mpr ⟨rfl, (hev status hs).1⟩
      simp [rowOf, hs, hr, ValidEvent.entry, hro, bind, Except.bind, pure, Except.pure]

theorem accepts_rowOf (h : ∀ ev ∈ evs, Projectable constraints ev) :
    ∀ row ∈ evs.filterMap rowOf, constraints.Accepts row.2 := by
  intro row hm
  obtain ⟨ev, he, hr⟩ := mem_filterMap.mp hm
  unfold rowOf at hr
  cases hs : validatedStatus ev with
  | error status => simp [hs] at hr
  | ok status =>
    rw [hs] at hr
    cases hr
    exact (h ev he status hs).2

variable {status : Option (Fin 65536)}

/-- The first valid index of an identifier is that of an event unless an earlier one has it. -/
theorem get_firstValidIndex (pre after : List RequestLogEvent) (hs : validatedStatus ev = .ok status) :
    (firstValidIndex (validFrom 0 (pre ++ ev :: after))).get ev.id = some pre.length ↔
      ev.id ∉ (pre.filterMap rowOf).map Prod.fst := by
  have hv : validFrom 0 (pre ++ ev :: after) = validFrom 0 pre ++
      ⟨pre.length, ev, status⟩ :: validFrom (pre.length + 1) after := by
    rw [validFrom_append, Nat.zero_add, validFrom, hs]
  rw [firstValidIndex, hv, map_append, insertAll_append, get_insertAll]
  cases he : ((∅ : Table Uuid ℕ).insertAll
      ((validFrom 0 pre).map (fun e => (e.event.id, e.index)))).get ev.id with
  | none =>
    have hn := (get_insertAll_eq_none.mp he).2
    rw [map_map, Function.comp_def, ids_validFrom] at hn
    simp [hn]
  | some i =>
    -- the earlier index is smaller
    have hm : ev.id ∈ (pre.filterMap rowOf).map Prod.fst := by
      by_contra hn
      rw [← ids_validFrom 0] at hn
      have hg : ((∅ : Table Uuid ℕ).insertAll ((validFrom 0 pre).map
          (fun e => (e.event.id, e.index)))).get ev.id = none :=
        get_insertAll_eq_none.mpr ⟨get_empty _, by simpa [Function.comp_def] using hn⟩
      rw [hg] at he
      cases he
    have hin : i < pre.length := by
      rw [get_insertAll, get_empty, Option.none_or] at he
      obtain ⟨pair, hf, rfl⟩ := Option.map_eq_some_iff.mp he
      obtain ⟨e, hen, rfl⟩ := mem_map.mp (mem_of_find?_eq_some hf)
      simpa using index_lt_of_mem_validFrom hen
    simp only [Option.some_or, Option.some.injEq, hm, not_true_eq_false, iff_false]
    omega

section
variable (logs : Table Uuid RequestLogRow)

/-- Within a batch an event has the outcome it would have after the ones before it. -/
theorem classify_eq (pre after : List RequestLogEvent)
    (ev : RequestLogEvent) :
    classify (firstValidIndex (validFrom 0 (pre ++ ev :: after)))
        ((logs.added ((pre ++ ev :: after).filterMap rowOf)).map Prod.fst)
        (logs.insertAll ((pre ++ ev :: after).filterMap rowOf)) pre.length ev =
      .ok (outcomeIn (logs.insertAll (pre.filterMap rowOf)) ev) := by
  unfold classify outcomeIn
  cases hs : validatedStatus ev with
  | error status => rfl
  | ok status =>
    have how : ev.id ∈ ((pre ++ ev :: after).filterMap rowOf).map Prod.fst := by
      simp [rowOf, hs]
    have hn : (ev.id ∈ (logs.added ((pre ++ ev :: after).filterMap rowOf)).map Prod.fst ∧
        (firstValidIndex (validFrom 0 (pre ++ ev :: after))).get ev.id =
          some pre.length) ↔ (logs.insertAll (pre.filterMap rowOf)).get ev.id = none := by
      rw [get_firstValidIndex pre after hs, mem_map_added,
        get_insertAll_eq_none]
      simp only [how, and_true]
    dsimp only
    cases hg : (logs.insertAll (pre.filterMap rowOf)).get ev.id with
    | none => rw [if_pos (hn.mpr hg)]
    | some row =>
      have hst := get_insertAll_of_get hg ((ev :: after).filterMap rowOf)
      rw [← insertAll_append, ← filterMap_append] at hst
      have hol := hn.not.mpr (by simp [hg])
      rw [if_neg hol, hst, compareStored]

theorem insertAll_concat (pre : List RequestLogEvent)
    (ev : RequestLogEvent) :
    logs.insertAll ((pre ++ [ev]).filterMap rowOf) =
      (logs.insertAll (pre.filterMap rowOf)).insertAll (rowOf ev).toList := by
  rw [filterMap_append, insertAll_append]
  cases hr : rowOf ev <;> simp [hr]

theorem classifyFrom_eq (pre after : List RequestLogEvent) :
    classifyFrom (firstValidIndex (validFrom 0 (pre ++ after)))
        ((logs.added ((pre ++ after).filterMap rowOf)).map Prod.fst)
        (logs.insertAll ((pre ++ after).filterMap rowOf)) pre.length after =
      .ok (outcomesIn (logs.insertAll (pre.filterMap rowOf)) after) := by
  induction after generalizing pre with
  | nil => rfl
  | cons ev after ih =>
    have hr := ih (pre ++ [ev])
    rw [insertAll_concat, length_append, length_singleton, append_assoc,
      singleton_append] at hr
    rw [classifyFrom, classify_eq, hr]
    rfl

theorem projectBatch_eq (h : ∀ ev ∈ evs, Projectable constraints ev) :
    projectBatch constraints logs evs =
      .ok (outcomesIn logs evs, logs.insertAll (evs.filterMap rowOf)) := by
  unfold projectBatch
  cases evs with
  | nil => rfl
  | cons ev evs =>
    have hin := insertRows_of_accepted logs (accepts_rowOf h)
    have hou := classifyFrom_eq logs [] (ev :: evs)
    rw [nil_append] at hou
    change classifyFrom _ _ _ 0 _ = _ at hou
    dsimp only
    rw [mapM_entry 0 h]
    dsimp only [bind, Except.bind]
    rw [hin]
    dsimp only [Stage.orReject]
    rw [hou]
    rfl

theorem outcomesIn_append (pre after : List RequestLogEvent) :
    outcomesIn logs (pre ++ after) =
      outcomesIn logs pre ++ outcomesIn (logs.insertAll (pre.filterMap rowOf)) after := by
  induction pre generalizing logs with
  | nil => rfl
  | cons ev pre ih =>
    rw [cons_append, outcomesIn, outcomesIn, ih, ← insertAll_append]
    cases hr : rowOf ev <;> simp [hr]

theorem length_outcomesIn (evs : List RequestLogEvent) :
    (outcomesIn logs evs).length = evs.length := by
  induction evs generalizing logs with
  | nil => rfl
  | cons ev evs ih => rw [outcomesIn, length_cons, ih, length_cons]

end

/-- The event itself is not in the log. -/
def RequestLogBatchInsertOutcome.Fails : RequestLogBatchInsertOutcome → Prop
  | .inserted | .exactDuplicate => False
  | .duplicateConflict | .invalidResponseStatus _ => True

theorem insertAll_rowOf_of_fails {logs : Table Uuid RequestLogRow}
    (h : (outcomeIn logs ev).Fails) : logs.insertAll (rowOf ev).toList = logs := by
  unfold outcomeIn at h
  unfold rowOf
  cases hs : validatedStatus ev with
  | error status => rfl
  | ok status =>
    rw [hs] at h
    cases hg : logs.get ev.id with
    | none => simp [hg, RequestLogBatchInsertOutcome.Fails] at h
    | some row => exact insertOrIgnore_of_get hg _

theorem get_of_mem_projected (logs : Table Uuid RequestLogRow) (hm : ev ∈ evs)
    (hs : validatedStatus ev = .ok status) :
    ∃ row, (logs.insertAll (evs.filterMap rowOf)).get ev.id = some row := by
  have hr : rowOf ev = some (ev.id, logColumns written ev status) := by
    simp [rowOf, hs]
  have hk : ev.id ∈ (evs.filterMap rowOf).map Prod.fst :=
    mem_map_of_mem (mem_filterMap.mpr ⟨ev, hm, hr⟩)
  cases hg : (logs.insertAll (evs.filterMap rowOf)).get ev.id with
  | none => exact absurd hk (get_insertAll_eq_none.mp hg).2
  | some row => exact ⟨row, rfl⟩

section Instances
open Billing

def oddStatus : RequestLogEvent := { answered with id := 2, responseStatusCode := some ⟨600, by decide⟩ }

/-- The price of a token is one more than its column can hold. -/
def dearEvent : RequestLogEvent :=
  { answered with
    id := 2
    billing := some
      { usage := none
        price :=
          { currency := "USD"
            priceUnitTokens := .saturating 1
            priceEffectiveAt := 0
            prices := ⟨.ofInt (10 ^ 12) (by decide +kernel), 0, 0, 0⟩ }
        costAmount := none
        outputTokensPerSecond := none
        peakPricing := false } }

/-- A table whose constraints every row meets. -/
def unconstrained : Constraints RequestLogRow := ⟨fun _ => true, fun _ => true⟩

theorem projectable_of_billing (hb : ev.billing = none)
    (hc : ev.outcome.forcesZeroCost = false) : Projectable unconstrained ev := by
  intro status _
  refine ⟨?_, rfl, rfl⟩
  simp [Hold, logDecimals, factDecimals, price, effectiveCostAmount, hb, hc]

end Instances

end AiGateway.Pipeline
