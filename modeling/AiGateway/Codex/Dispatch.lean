import AiGateway.Codex.Changes

/-! What the provider is asked for one credential: no refresh twice in one generation, and
nothing after a dispatch without an answer. -/
namespace AiGateway.Codex
open Domain Lib List

/-- The events after a dispatch that let the credential go on: the dispatch was completed, or
a reauthorization replaced the refresh. -/
def Settles (id : Uuid) (kind : OperationKind) (attempt : Uuid) (generation : Int)
    (events : List TraceEvent) : Prop :=
  .completed id kind attempt generation ∈ events ∨ kind = .refresh ∧ .reauthorized id ∈ events

variable {att : Uuid} {kind : OperationKind} {op : SqliteCodexOperation} {now gen start eg : Int}
  {row row' : CodexCredential} {s : System} {evs newer older : List TraceEvent}

theorem Settles.append {id : Uuid} (h : Settles id kind att gen evs)
    (newer : List TraceEvent) : Settles id kind att gen (newer ++ evs) := by
  rcases h with hc | ⟨hk, hr⟩
  · exact .inl (mem_append_right newer hc)
  · exact .inr ⟨hk, mem_append_right newer hr⟩

/-- The intent of a dispatch is still there, and no operation is about to dispatch again. -/
def View.Outstanding (v : View) (kind : OperationKind) (attempt : Uuid) (generation : Int) : Prop :=
  (∃ startedAt, v.intent = some ⟨attempt, kind, generation, startedAt⟩) ∧
    ∀ operation, v.held = some operation → operation.startedAt.isSome = true →
      operation.dispatched = true

def TraceEvent.isRefreshOf (id : Uuid) (generation : Int) : TraceEvent → Bool
  | .dispatched other .refresh _ g => other == id && g == generation
  | _ => false

/-- Every two dispatches of a credential have something between them that settles the older. -/
def Serial (id : Uuid) (trace : List TraceEvent) : Prop :=
  ∀ newest kind attempt generation between kind' attempt' generation' older,
    trace = newest ++ .dispatched id kind' attempt' generation' ::
      (between ++ .dispatched id kind attempt generation :: older) →
    Settles id kind attempt generation between

/-- What holds of a credential and of its past. -/
structure Fenced (id : Uuid) (v : View) (trace : List TraceEvent) : Prop where
  intents : ∀ intent, v.intent = some intent →
    ∃ row, v.row = some row ∧ row.deletedAt = none ∧ row.refreshGeneration = intent.generation
  started : ∀ operation startedAt, v.held = some operation →
    operation.startedAt = some startedAt → v.intent = some (operation.intentAt startedAt)
  sent : ∀ operation, v.held = some operation → operation.dispatched = true →
    operation.startedAt.isSome = true
  past : ∀ newer kind attempt generation older,
    trace = newer ++ .dispatched id kind attempt generation :: older →
    Settles id kind attempt generation newer ∨ v.Outstanding kind attempt generation
  generations : ∀ attempt generation, .dispatched id .refresh attempt generation ∈ trace →
    (∃ row, v.row = some row ∧ generation < row.refreshGeneration) ∨
      v.Outstanding .refresh attempt generation
  serial : Serial id trace
  once : ∀ generation, trace.countP (TraceEvent.isRefreshOf id generation) ≤ 1

variable {id : Uuid} {v v' : View} {trace evs : List TraceEvent}

theorem fenced_initial (id : Uuid) : Fenced id ⟨none, none, none⟩ [] where
  intents := by simp
  started := by simp
  sent := by simp
  past := by simp
  generations := by simp
  serial := by
    intro newest kind att gen between kind' att' gen' older h
    simp at h
  once := by simp

/-- A dispatch in a longer trace is new or was there before. -/
theorem dispatch_split {ev : TraceEvent}
    (hev : ∀ e ∈ evs, e ≠ ev) (h : evs ++ trace = newer ++ ev :: older) :
    ∃ newer', newer = evs ++ newer' ∧ trace = newer' ++ ev :: older := by
  induction evs generalizing newer with
  | nil => exact ⟨newer, rfl, h⟩
  | cons e evs ih =>
    cases newer with
    | nil =>
      obtain ⟨he, -⟩ := List.cons.inj h
      exact absurd he (hev e mem_cons_self)
    | cons first newer =>
      obtain ⟨rfl, hr⟩ := List.cons.inj h
      obtain ⟨newer', rfl, ht⟩ := ih (fun e' he' => hev e' (mem_cons_of_mem _ he')) hr
      exact ⟨newer', rfl, ht⟩

/-- New events that dispatch nothing for the credential leave its past as it was. -/
def Quiet (id : Uuid) (events : List TraceEvent) : Prop :=
  ∀ kind attempt generation, .dispatched id kind attempt generation ∉ events

theorem Quiet.ne (h : Quiet id evs) (kind : OperationKind) (att : Uuid) (gen : Int) :
    ∀ e ∈ evs, e ≠ .dispatched id kind att gen :=
  fun _ he heq => h kind att gen (heq ▸ he)

theorem Serial.append (h : Serial id trace) (hq : Quiet id evs) :
    Serial id (evs ++ trace) := by
  intro newest kind att gen between kind' att' gen' older ht
  obtain ⟨newest', -, ht'⟩ := dispatch_split (hq.ne kind' att' gen') ht
  exact h newest' kind att gen between kind' att' gen' older ht'

theorem isRefreshOf_eq_true {ev : TraceEvent} :
    ev.isRefreshOf id gen = true ↔ ∃ att, ev = .dispatched id .refresh att gen := by
  cases ev with
  | dispatched o kind att g =>
    cases kind with
    | refresh =>
      simp only [TraceEvent.isRefreshOf, Bool.and_eq_true, beq_iff_eq, TraceEvent.dispatched.injEq,
        true_and]
      constructor
      · rintro ⟨rfl, rfl⟩
        exact ⟨att, rfl, rfl, rfl⟩
      · rintro ⟨_, rfl, -, rfl⟩
        exact ⟨rfl, rfl⟩
    | quotaReset => simp [TraceEvent.isRefreshOf]
  | completed o kind att g => simp [TraceEvent.isRefreshOf]
  | reauthorized o => simp [TraceEvent.isRefreshOf]

theorem Quiet.countP (h : Quiet id evs) (trace : List TraceEvent) (gen : Int) :
    (evs ++ trace).countP (TraceEvent.isRefreshOf id gen) =
      trace.countP (TraceEvent.isRefreshOf id gen) := by
  have hn : evs.countP (TraceEvent.isRefreshOf id gen) = 0 := by
    rw [countP_eq_zero]
    intro ev he hr
    obtain ⟨att, rfl⟩ := isRefreshOf_eq_true.mp hr
    exact h _ _ _ he
  rw [countP_append, hn, Nat.zero_add]

/-- Steps that dispatch nothing: each dispatch that was outstanding stays so or is settled. -/
theorem Fenced.of_quiet (h : Fenced id v trace) (hq : Quiet id evs)
    (hin : ∀ intent, v'.intent = some intent →
      ∃ row, v'.row = some row ∧ row.deletedAt = none ∧ row.refreshGeneration = intent.generation)
    (hst : ∀ op start, v'.held = some op →
      op.startedAt = some start → v'.intent = some (op.intentAt start))
    (hse : ∀ op, v'.held = some op → op.dispatched = true → op.startedAt.isSome = true)
    (hou : ∀ kind att gen, v.Outstanding kind att gen →
      Settles id kind att gen evs ∨ v'.Outstanding kind att gen)
    (hg : ∀ att gen, v.Outstanding .refresh att gen →
      (∃ row, v'.row = some row ∧ gen < row.refreshGeneration) ∨
        v'.Outstanding .refresh att gen) (hro : ∀ row, v.row = some row →
      ∃ row', v'.row = some row' ∧ row.refreshGeneration ≤ row'.refreshGeneration) :
    Fenced id v' (evs ++ trace) where
  intents := hin
  started := hst
  sent := hse
  past := by
    intro newer kind att gen older ht
    obtain ⟨newer', rfl, ht'⟩ := dispatch_split (hq.ne kind att gen) ht
    rcases h.past newer' kind att gen older ht' with hs | hot
    · exact .inl (hs.append evs)
    · rcases hou kind att gen hot with hn | hsl
      · rcases hn with hc | ⟨hk, hr⟩
        · exact .inl (.inl (mem_append_left newer' hc))
        · exact .inl (.inr ⟨hk, mem_append_left newer' hr⟩)
      · exact .inr hsl
  generations := by
    intro att gen hm
    rcases mem_append.mp hm with hn | hol
    · exact absurd hn (hq _ _ _)
    · rcases h.generations att gen hol with ⟨row, hv, hlt⟩ | hot
      · obtain ⟨row', hv', hle⟩ := hro row hv
        exact .inl ⟨row', hv', hlt.trans_le hle⟩
      · exact hg att gen hot
  serial := h.serial.append hq
  once := by
    intro gen
    rw [hq.countP]
    exact h.once gen

theorem View.Outstanding.eq_of_intent (h : v.Outstanding kind att gen)
    (hin : v.intent = some (op.intentAt start)) :
    kind = op.kind ∧ att = op.attempt ∧ gen = op.generation := by
  obtain ⟨⟨start', hv⟩, -⟩ := h
  have heq := Option.some.inj (hv.symm.trans hin)
  simp only [SqliteCodexOperation.intentAt, OperationRow.mk.injEq] at heq
  exact ⟨heq.2.1, heq.1, heq.2.2.1⟩

/-- The generation of an outstanding dispatch is the current one. -/
theorem Fenced.generation_of_outstanding (h : Fenced id v trace)
    (hou : v.Outstanding kind att gen) :
    ∃ row, v.row = some row ∧ row.refreshGeneration = gen := by
  obtain ⟨⟨start, hv⟩, -⟩ := hou
  obtain ⟨row, hr, -, hg⟩ := h.intents _ hv
  exact ⟨row, hr, hg⟩

theorem quiet_nil (id : Uuid) : Quiet id [] := fun _ _ _ => not_mem_nil

theorem RowChange.generation {pend : Bool}
    {row' : Option CodexCredential} (h : RowChange now pend (some row) row') :
    ∃ changed, row' = some changed ∧ changed.refreshGeneration = row.refreshGeneration := by
  cases h with
  | unchanged => exact ⟨row, rfl, rfl⟩
  | edited _ _ he => exact ⟨_, rfl, he.generation⟩

/-- A pending operation keeps edits away from the row. -/
theorem RowChange.eq_of_pending
    {row' : Option CodexCredential} (h : RowChange now true (some row) row') : row' = some row := by
  cases h with
  | unchanged => rfl
  | edited hf _ _ => cases hf

/-- A lost operation dispatches nothing more, and its intent stays. -/
theorem View.Outstanding.lost
    (h : v.Outstanding kind att gen) (hin : v'.intent = v.intent)
    (hh : v'.held = none) : v'.Outstanding kind att gen := by
  obtain ⟨⟨start, hv⟩, -⟩ := h
  refine ⟨⟨start, hin.trans hv⟩, fun op hop => ?_⟩
  rw [hh] at hop
  cases hop

section
variable (h : Fenced id v trace)
include h

theorem Fenced.elsewhere (he : ∀ ev ∈ evs, ev.id ≠ id) :
    Fenced id v (evs ++ trace) := by
  have hq : Quiet id evs := fun _ _ _ hm => he _ hm rfl
  exact h.of_quiet hq h.intents h.started h.sent (fun _ _ _ hou => .inr hou)
    (fun _ _ hou => .inr hou) (fun row hr => ⟨row, hr, le_rfl⟩)

theorem Fenced.edited {row : Option CodexCredential}
    (hc : RowChange now v.intent.isSome v.row row) : Fenced id { v with row } trace := by
  refine h.of_quiet (quiet_nil id) ?_ h.started h.sent (fun _ _ _ hou => .inr hou)
    (fun _ _ hou => .inr hou) ?_
  · intro intent hin
    obtain ⟨found, hf, hl, hg⟩ := h.intents intent hin
    have hp : v.intent.isSome = true := by
      rw [show v.intent = some intent from hin, Option.isSome_some]
    rw [hp, hf] at hc
    exact ⟨found, hc.eq_of_pending, hl, hg⟩
  · intro found hf
    rw [hf] at hc
    obtain ⟨changed, hch, hg⟩ := hc.generation
    exact ⟨changed, hch, hg.ge⟩

theorem Fenced.lost : Fenced id { v with held := none } trace :=
  h.of_quiet (quiet_nil id) h.intents (by simp) (by simp)
    (fun _ _ _ hou => .inr (hou.lost rfl rfl)) (fun _ _ hou => .inr (hou.lost rfl rfl))
    (fun row hr => ⟨row, hr, le_rfl⟩)

theorem Fenced.reserved (hn : op.startedAt = none) (hid : op.dispatched = false) :
    Fenced id { v with held := some op } trace := by
  -- An operation that has not started cannot dispatch, so nothing outstanding changes.
  have hst : ∀ kind att gen, v.Outstanding kind att gen →
      View.Outstanding { v with held := some op } kind att gen := by
    intro kind att gen hou
    refine ⟨hou.1, fun found hf hs => ?_⟩
    cases hf
    rw [hn] at hs
    cases hs
  refine h.of_quiet (quiet_nil id) h.intents ?_ ?_ (fun _ _ _ hou => .inr (hst _ _ _ hou))
    (fun _ _ hou => .inr (hst _ _ _ hou)) (fun row hr => ⟨row, hr, le_rfl⟩)
  · intro found start hf hs
    cases hf
    rw [hn] at hs
    cases hs
  · intro found hf hd
    cases hf
    rw [hid] at hd
    cases hd

theorem Fenced.prepared (hfr : v.intent = none)
    (hr : v.row = some row) (hl : row.deletedAt = none)
    (hg : row.refreshGeneration = op.generation) :
    Fenced id
      { v with
        intent := some (op.intentAt now)
        held := some { op with startedAt := some now } } trace := by
  -- Nothing is outstanding without an intent.
  have hs : ∀ kind att gen, ¬ v.Outstanding kind att gen := by
    rintro kind att gen ⟨⟨start, hin⟩, -⟩
    rw [hfr] at hin
    cases hin
  refine h.of_quiet (quiet_nil id) ?_ ?_ ?_ (fun _ _ _ hou => absurd hou (hs _ _ _))
    (fun _ _ hou => absurd hou (hs _ _ _)) (fun row hr => ⟨row, hr, le_rfl⟩)
  · intro intent hin
    cases hin
    exact ⟨row, hr, hl, hg⟩
  · intro found start hf hst
    cases hf
    cases hst
    rfl
  · intro found hf _
    cases hf
    rfl

end

/-- Before it dispatches, an operation has nothing outstanding to wait for. -/
theorem not_outstanding_of_ready
    (hh : v.held = some op) (hs : op.startedAt.isSome = true)
    (hn : op.dispatched = false) (kind : OperationKind) (att : Uuid)
    (gen : Int) : ¬ v.Outstanding kind att gen := by
  rintro ⟨-, ha⟩
  rw [ha op hh hs] at hn
  cases hn

theorem Fenced.dispatched (h : Fenced id v trace)
    (hh : v.held = some op) (hs : op.startedAt.isSome = true)
    (hno : op.dispatched = false) :
    Fenced id { v with held := some { op with dispatched := true } }
      (.dispatched id op.kind op.attempt op.generation :: trace) := by
  obtain ⟨start, hst⟩ := Option.isSome_iff_exists.mp hs
  have hin := h.started op start hh hst
  obtain ⟨row, hro, hl, hg⟩ := h.intents _ hin
  have hse := not_outstanding_of_ready hh hs hno
  have hou : View.Outstanding { v with held := some { op with dispatched := true } }
      op.kind op.attempt op.generation := by
    refine ⟨⟨start, hin⟩, fun found hf _ => ?_⟩
    cases hf
    rfl
  have hp : ∀ newer kind att gen older, trace = newer ++ .dispatched id kind att gen :: older →
      Settles id kind att gen newer := by
    intro newer kind att gen older ht
    exact (h.past newer kind att gen older ht).resolve_right (hse _ _ _)
  have he : ∀ att gen, .dispatched id .refresh att gen ∈ trace → gen < op.generation := by
    intro att gen hm
    rcases h.generations att gen hm with ⟨found, hf, hlt⟩ | hsl
    · obtain rfl : found = row := Option.some.inj (hf.symm.trans hro)
      exact hlt.trans_eq hg
    · exact absurd hsl (hse _ _ _)
  refine ⟨h.intents, ?_, ?_, ?_, ?_, ?_, ?_⟩
  · intro found start' hf hs'
    cases hf
    exact h.started op start' hh hs'
  · intro found hf _
    cases hf
    exact hs
  · intro newer kind att gen older ht
    cases newer with
    | nil =>
      obtain ⟨heq, -⟩ := List.cons.inj ht
      simp only [TraceEvent.dispatched.injEq, true_and] at heq
      obtain ⟨rfl, rfl, rfl⟩ := heq
      exact .inr hou
    | cons first newer =>
      obtain ⟨-, ht⟩ := List.cons.inj ht
      exact .inl ((hp newer kind att gen older ht).append [first])
  · intro att gen hm
    rcases mem_cons.mp hm with hn | hol
    · simp only [TraceEvent.dispatched.injEq, true_and] at hn
      obtain ⟨hk, rfl, rfl⟩ := hn
      rw [hk]
      exact .inr hou
    · exact .inl ⟨row, hro, (he att gen hol).trans_eq hg.symm⟩
  · intro newest kind att gen between kind' att' gen' older ht
    cases newest with
    | nil =>
      obtain ⟨-, ht⟩ := List.cons.inj ht
      exact hp between kind att gen older ht
    | cons first newest =>
      obtain ⟨-, ht⟩ := List.cons.inj ht
      exact h.serial newest kind att gen between kind' att' gen' older ht
  · intro gen
    rw [countP_cons]
    have hon := h.once gen
    split_ifs with hr
    · -- A refresh of this generation is the first one: the earlier ones are of older generations.
      obtain ⟨att, heq⟩ := isRefreshOf_eq_true.mp hr
      simp only [TraceEvent.dispatched.injEq, true_and] at heq
      have hz : trace.countP (TraceEvent.isRefreshOf id gen) = 0 := by
        rw [countP_eq_zero]
        intro ev hev hot
        obtain ⟨att', rfl⟩ := isRefreshOf_eq_true.mp hot
        have hlt := he att' gen hev
        omega
      omega
    · omega

/-- The intent of an operation whose report counts is the one it wrote. -/
theorem Fenced.intent_of_inForce (h : Fenced id v trace) (hf : op.InForce v row) :
    ∃ start, v.intent = some (op.intentAt start) := by
  obtain ⟨hh, hst, -⟩ := hf
  obtain ⟨start, hs⟩ := Option.isSome_iff_exists.mp hst
  exact ⟨start, h.started op start hh hs⟩

/-- A completed operation settles the only dispatch that can be outstanding. -/
theorem Fenced.settles_of_completed (h : Fenced id v trace) (hf : op.InForce v row)
    (hou : v.Outstanding kind att gen) :
    Settles id kind att gen
      [.completed id op.kind op.attempt op.generation] := by
  obtain ⟨start, hin⟩ := h.intent_of_inForce hf
  obtain ⟨rfl, rfl, rfl⟩ := hou.eq_of_intent hin
  exact .inl mem_cons_self

theorem quiet_completed (id : Uuid) (op : SqliteCodexOperation) :
    Quiet id [.completed id op.kind op.attempt op.generation] := by
  intro kind att gen hm
  cases mem_singleton.mp hm

theorem Fenced.refreshed (h : Fenced id v trace) (hfo : op.InForce v row)
    (hn : row'.refreshGeneration = row.refreshGeneration + 1) :
    Fenced id ⟨none, some row', none⟩
      (.completed id op.kind op.attempt op.generation :: trace) := by
  have hr : v.row = some row := hfo.2.2.1
  refine h.of_quiet (quiet_completed id op) (by simp) (by simp) (by simp)
    (fun _ _ _ hou => .inl (h.settles_of_completed hfo hou)) ?_ ?_
  · intro att gen hou
    obtain ⟨found, hf, hg⟩ := h.generation_of_outstanding hou
    obtain rfl : found = row := Option.some.inj (hf.symm.trans hr)
    exact .inl ⟨row', rfl, by omega⟩
  · intro found hf
    obtain rfl : found = row := Option.some.inj (hf.symm.trans hr)
    exact ⟨row', rfl, by omega⟩

theorem Fenced.failed (h : Fenced id v trace) (hf : op.InForce v row)
    (hs : op.startedAt = some start)
    (hsa : row'.refreshGeneration = row.refreshGeneration) (hl : row'.deletedAt = none) :
    Fenced id ⟨some (op.intentAt start), some row', none⟩ trace := by
  have hr : v.row = some row := hf.2.2.1
  have hin := h.started op start hf.1 hs
  refine h.of_quiet (quiet_nil id) ?_ (by simp) (by simp)
    (fun _ _ _ hou => .inr (hou.lost hin.symm rfl))
    (fun _ _ hou => .inr (hou.lost hin.symm rfl)) ?_
  · intro intent hn
    cases hn
    exact ⟨row', rfl, hl, hsa.trans hf.2.2.2.2⟩
  · intro found hfo
    obtain rfl : found = row := Option.some.inj (hfo.symm.trans hr)
    exact ⟨row', rfl, hsa.ge⟩

theorem Fenced.reset (h : Fenced id v trace) (hf : op.InForce v row)
    (hk : op.kind = .quotaReset) :
    Fenced id { v with intent := none, held := none }
      (.completed id op.kind op.attempt op.generation :: trace) := by
  refine h.of_quiet (quiet_completed id op) (by simp) (by simp) (by simp)
    (fun _ _ _ hou => .inl (h.settles_of_completed hf hou)) ?_
    (fun row hro => ⟨row, hro, le_rfl⟩)
  -- The intent is that of a reset, so no refresh is outstanding.
  intro att gen hou
  obtain ⟨start, hin⟩ := h.intent_of_inForce hf
  have hr := (hou.eq_of_intent hin).1
  rw [hk] at hr
  cases hr

theorem Fenced.reauthorized (h : Fenced id v trace)
    (hp : ∀ intent, v.intent = some intent → intent.kind = .refresh ∧ v.held = none)
    (hr : v.row = some row) (hn : row'.refreshGeneration = row.refreshGeneration + 1) :
    Fenced id { v with intent := none, row := some row' } (.reauthorized id :: trace) := by
  have hq : Quiet id [.reauthorized id] := by
    intro kind att gen hm
    cases mem_singleton.mp hm
  refine h.of_quiet hq (by simp) ?_ h.sent ?_ ?_ ?_
  · -- A started operation holds the lock, and then the reauthorization does not commit.
    intro op start hh hs
    have hin := h.started op start hh hs
    have hfr := (hp _ hin).2
    rw [hfr] at hh
    cases hh
  · rintro kind att gen ⟨⟨start, hin⟩, -⟩
    exact .inl (.inr ⟨(hp _ hin).1, mem_cons_self⟩)
  · intro att gen hou
    obtain ⟨found, hf, hg⟩ := h.generation_of_outstanding hou
    obtain rfl : found = row := Option.some.inj (hf.symm.trans hr)
    exact .inl ⟨row', rfl, by omega⟩
  · intro found hf
    obtain rfl : found = row := Option.some.inj (hf.symm.trans hr)
    exact ⟨row', rfl, by omega⟩

variable {allow : Option Int → SqliteCodexOperation → Bool}

theorem Fenced.change (h : Fenced id v trace) (hc : Change allow id v v' evs) :
    Fenced id v' (evs ++ trace) := by
  cases hc with
  | elsewhere _ he => exact h.elsewhere he
  | edited now row hr => exact h.edited hr
  | lost => exact h.lost
  | reserved rec kind att hh hr => exact h.reserved rfl rfl
  | prepared op row obs now hh ha hne hfr hr hl hg hsm =>
    exact h.prepared hfr hr hl hg
  | dispatched op hh hs hno => exact h.dispatched hh hs hno
  | refreshed op row row' hf hk hn hl hst => exact h.refreshed hf hn
  | failed op row row' start hf hk hs hsa hl hst =>
    exact h.failed hf hs hsa hl
  | reset op row hf hk => exact h.reset hf hk
  | reauthorized now row row' hp hr hn hsm hl hst =>
    exact h.reauthorized hp hr hn

def System.Fenced (s : System) : Prop := ∀ id, Codex.Fenced id (s.view id) s.trace

theorem System.Fenced.step (h : s.Fenced) (move : Move) : (s.step allow move).Fenced := by
  intro id
  obtain ⟨evs, ht, hc⟩ := affects_step allow s move id
  rw [ht]
  exact (h id).change hc

theorem fenced_run (allow : Option Int → SqliteCodexOperation → Bool) (moves : List Move) :
    (run (System.step allow) System.initial moves).Fenced :=
  run_invariant (fun _ move h => h.step move) fenced_initial moves

/-- A report whose operation was superseded is rejected. -/
theorem not_ok_of_superseded {db db' : Database}
    (h : op.inForce db id = false) (report : Report) :
    report.apply db id op ≠ .ok db' := by
  intro hok
  have hf : op.inForce db id = true := by
    cases report with
    | completeRefresh eg now => exact (completeRefresh_eq_ok hok).2.1
    | fail permanent code summary now => exact (fail_eq_ok hok).1
    | completeReset ev requested out wins => exact (completeReset_eq_ok hok).2.1
  rw [hf] at h
  cases h

theorem report_of_superseded
    (hh : s.held.get id = some op) (h : op.inForce s.database id = false)
    (report : Report) :
    (s.report id report).database = s.database ∧ (s.report id report).trace = s.trace := by
  simp only [System.report, hh]
  by_cases hk : op.kind = report.kind
  · rw [if_pos hk]
    cases hr : report.apply s.database id op with
    | error err => exact ⟨rfl, rfl⟩
    | ok db => exact absurd hr (not_ok_of_superseded h report)
  · rw [if_neg hk]
    exact ⟨rfl, rfl⟩

/-- A refresh that completes moves the generation on by one. -/
theorem generation_of_completed
    (h : (s.report id (.completeRefresh eg now)).trace ≠ s.trace) :
    ∃ row row', s.database.live id = some row ∧
      (s.report id (.completeRefresh eg now)).database.live id = some row' ∧
      row'.refreshGeneration = row.refreshGeneration + 1 := by
  unfold System.report at h ⊢
  cases hh : s.held.get id with
  | none => exact absurd (by rw [hh]) h
  | some op =>
    simp only [hh] at h ⊢
    by_cases hk : op.kind = Report.kind (.completeRefresh eg now)
    · rw [if_pos hk] at h ⊢
      cases hr : Report.apply (.completeRefresh eg now) s.database id
          op with
      | error err => simp [hr, System.dropOperation] at h
      | ok db =>
        obtain ⟨-, -, -, row, row', hro, -, hc, hn, hl, -⟩ := completeRefresh_eq_ok hr
        refine ⟨row, row', hro, Database.live_eq_some.mpr ⟨?_, hl⟩, hn⟩
        simp only
        rw [hc, Table.get_insert_self]
    · rw [if_neg hk] at h
      exact absurd rfl h

/-- Whatever the callers check and in whatever order things happen: no generation of a
credential is refreshed twice, between two dispatches the older one is settled, a completed
refresh moves the generation on by one, and a report of a superseded operation changes
nothing. -/
theorem provider_calls_are_fenced (allow : Option Int → SqliteCodexOperation → Bool)
    (moves : List Move) :
    let s := run (System.step allow) System.initial moves
    (∀ id generation, s.trace.countP (TraceEvent.isRefreshOf id generation) ≤ 1) ∧
      (∀ id, Serial id s.trace) ∧
      (∀ id expectedGeneration now,
        (s.step allow (.report id (.completeRefresh expectedGeneration now))).trace ≠ s.trace →
        ∃ row row', s.database.live id = some row ∧
          (s.step allow (.report id (.completeRefresh expectedGeneration now))).database.live id =
            some row' ∧
          row'.refreshGeneration = row.refreshGeneration + 1) ∧
      ∀ (t : System) id operation report, t.held.get id = some operation →
        operation.inForce t.database id = false →
        (t.step allow (.report id report)).database = t.database ∧
          (t.step allow (.report id report)).trace = t.trace := by
  intro s
  have hf : s.Fenced := fenced_run allow moves
  refine ⟨fun id => (hf id).once, fun id => (hf id).serial, ?_, ?_⟩
  · intro id expectedGeneration now h
    exact generation_of_completed h
  · intro t id operation report hh h
    exact report_of_superseded hh h report

end AiGateway.Codex
