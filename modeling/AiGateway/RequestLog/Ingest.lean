import AiGateway.RequestLog.Spool

/-! The spool at work: request threads that admit and append, the sync task, the ingest worker
that moves the records to the database, crashes and restarts. -/
namespace AiGateway.RequestLog
open Domain Lib

/-- Where the loop of the ingest worker is. -/
inductive Worker where
  | reading
  | accepting (batch : SpoolReadBatch)
  | committed (batch : SpoolReadBatch)
  | checkpointing (batch : SpoolReadBatch) (ops : List SpoolOp)
  /-- In front of an attempt to compact. -/
  | checking
  /-- Waiting for the mutex, with the pressure it saw. -/
  | locking (pressure : Bool)
  /-- The call under the mutex is its compaction. -/
  | compacting
  | stopped

inductive Process (Event : Type) where
  | down
  | opening (actions : List (Action Event)) (result : Except SpoolError Unit)
  /-- The call under the mutex, the worker, and the offset of its reader. -/
  | running (call : Option (List (Action Event))) (worker : Worker) (reader : ℕ)

structure System (Event : Type) where
  world : World Event
  process : Process Event

/-- A database that refused a batch, or did not answer in time, may have committed it. -/
inductive DatabaseAnswer where
  | accepted
  | refused (committed : Bool)

inductive Move (Event : Type) where
  | launch
  | admitRequest (intent : RequestLogIntent) (available : Option ℕ)
  | append (event : Event)
  | syncData
  /-- The next action of the call under the mutex, or of the opening. -/
  | perform
  | fail (kept : ℕ)
  | read (maxRecords : ℕ)
  | database (answer : DatabaseAnswer)
  /-- The next step of the worker on its own. -/
  | work
  | workFail (kept : ℕ)
  | stop
  | crash (kept workerKept : ℕ)

section Step
variable {Event : Type} (env : SpoolEnv Event)

def Worker.afterCall (succeeded : Bool) (worker : Worker) (reader : ℕ) : Worker × ℕ :=
  match worker with
  | .compacting => (.reading, if succeeded then 0 else reader)
  | other => (other, reader)

/-- A failed action latches the writer and ends the call. -/
def failCall (kept : ℕ) (action : Action Event) (world : World Event) (worker : Worker)
    (reader : ℕ) : System Event :=
  let stopped := action.cut kept world
  let after := worker.afterCall false reader
  ⟨{ stopped with spool := stopped.spool.latch }, .running none after.1 after.2⟩

def launch (world : World Event) : System Event :=
  let opening := openWithLimits env world.files
  ⟨{ world with spool := opening.spool }, .opening opening.actions opening.result⟩

def perform (world : World Event) : Process Event → Option (System Event)
  | .down => none
  | .opening [] (.error _) => some ⟨world, .down⟩
  | .opening [] (.ok _) => some ⟨world, .running none .reading world.spool.checkpointOffset⟩
  | .opening (action :: rest) result =>
    match action.run world with
    | none => some ⟨action.cut 0 world, .down⟩
    | some world => some ⟨world, .opening rest result⟩
  | .running none _ _ => none
  | .running (some []) worker reader =>
    let after := worker.afterCall true reader
    some ⟨world, .running none after.1 after.2⟩
  | .running (some (action :: rest)) worker reader =>
    match action.run world with
    | none => some (failCall 0 action world worker reader)
    | some world => some ⟨world, .running (some rest) worker reader⟩

/-- Only file operations fail. -/
def fail (kept : ℕ) (world : World Event) : Process Event → Option (System Event)
  | .opening (.file op :: _) _ => some ⟨(Action.file op).cut kept world, .down⟩
  | .running (some (.file op :: _)) worker reader =>
    some (failCall kept (.file op) world worker reader)
  | _ => none

/-- The loop of the worker reads a batch; an empty one leads to an attempt to compact. -/
def readStep (maxRecords : ℕ) (world : World Event) (call : Option (List (Action Event)))
    (reader : ℕ) : System Event :=
  match readBatch env.crc ((fileBytes world.files .events).getD []) world.spool.endOffset reader
      maxRecords with
  | (.error _, offset) => ⟨world, .running call .stopped offset⟩
  | (.ok batch, offset) =>
    if batch.records = [] then ⟨world, .running call .checking offset⟩
    else ⟨world, .running call (.accepting batch) offset⟩

def databaseStep (answer : DatabaseAnswer) (batch : SpoolReadBatch) (world : World Event)
    (call : Option (List (Action Event))) (reader : ℕ) : System Event :=
  match answer with
  | .accepted => ⟨{ world with accepted := world.accepted ++ batch.records },
      .running call (.committed batch) reader⟩
  | .refused committed =>
    ⟨{ world with accepted := world.accepted ++ if committed then batch.records else [] },
      .running call .reading batch.startOffset⟩

def workStep (world : World Event) (call : Option (List (Action Event))) (worker : Worker)
    (reader : ℕ) : Option (System Event) :=
  match worker with
  | .committed batch =>
    match checkpointOps world.spool batch.endOffset with
    | .error _ => some ⟨world, .running call .reading batch.startOffset⟩
    | .ok ops => some ⟨world, .running call (.checkpointing batch ops) reader⟩
  | .checkpointing batch (op :: ops) =>
    match (Action.file op).run world with
    | none => some ⟨(Action.file op).cut 0 world, .running call .reading batch.startOffset⟩
    | some world => some ⟨world, .running call (.checkpointing batch ops) reader⟩
  | .checkpointing batch [] =>
    some ⟨{ world with spool := world.spool.storeCheckpoint batch.endOffset },
      .running call .checking reader⟩
  | .checking =>
    if looksDrained env world.spool then
      some ⟨world, .running call (.locking world.spool.capacityPressure) reader⟩
    else some ⟨world, .running call .reading reader⟩
  | .locking pressure =>
    match call with
    | some _ => none
    | none =>
      let plan := compactPlan env world.spool pressure
      match plan.result with
      | .ok true => some ⟨world, .running (some plan.actions) .compacting reader⟩
      | .ok false | .error _ => some ⟨world, .running none .reading reader⟩
  | .reading | .accepting _ | .compacting | .stopped => none

def crashCall (kept : ℕ) (world : World Event) : List (Action Event) → World Event
  | [] => world
  | action :: _ => action.cut kept world

def crashWorker (kept : ℕ) (world : World Event) : Worker → World Event
  | .checkpointing _ (op :: _) => (Action.file op).cut kept world
  | _ => world

def crash (kept workerKept : ℕ) (world : World Event) : Process Event → World Event
  | .down => world
  | .opening actions _ => crashCall kept world actions
  | .running call worker _ => crashWorker workerKept (crashCall kept world (call.getD [])) worker

/-- One move, unless it is not possible. -/
def System.step (s : System Event) : Move Event → Option (System Event)
  | .launch =>
    match s.process with
    | .down => some (launch env s.world)
    | _ => none
  | .admitRequest intent available =>
    match s.process with
    | .running none worker reader => some ⟨s.world,
        .running (some (admitPlan env s.world.spool intent available).actions) worker reader⟩
    | _ => none
  | .append event =>
    match s.process with
    | .running none worker reader => some ⟨s.world,
        .running (some (appendPlan env s.world.spool event).actions) worker reader⟩
    | _ => none
  | .syncData =>
    match s.process with
    | .running none worker reader =>
      some ⟨s.world, .running (some (syncDataPlan s.world.spool).actions) worker reader⟩
    | _ => none
  | .perform => perform s.world s.process
  | .fail kept => fail kept s.world s.process
  | .read maxRecords =>
    match s.process with
    | .running call .reading reader => some (readStep env maxRecords s.world call reader)
    | _ => none
  | .database answer =>
    match s.process with
    | .running call (.accepting batch) reader => some (databaseStep answer batch s.world call reader)
    | _ => none
  | .work =>
    match s.process with
    | .running call worker reader => workStep env s.world call worker reader
    | _ => none
  | .workFail kept =>
    match s.process with
    | .running call (.checkpointing batch (op :: _)) _ =>
      some ⟨(Action.file op).cut kept s.world, .running call .reading batch.startOffset⟩
    | _ => none
  | .stop =>
    match s.process with
    | .running call .reading reader => some ⟨s.world, .running call .stopped reader⟩
    | _ => none
  | .crash kept workerKept => some ⟨crash kept workerKept s.world s.process, .down⟩

def System.init : System Event := ⟨⟨∅, .closed, [], [], []⟩, .down⟩

end Step
end AiGateway.RequestLog
