import AiGateway.RequestLog.Admissions
import AiGateway.Lib.RelyGuarantee

/-! The calls of the request-log spool. A call under the writer's mutex is a list of actions that
is fixed when it takes the mutex; each action is one file operation or one update of the memory. -/
namespace AiGateway.RequestLog
open Domain Lib

structure SpoolLimits where
  compactionThresholdBytes : ℕ
  maxBytes : ℕ
  minFreeBytes : ℕ

/-- What the spool is built over: the checksum, the codec and the configured limits. -/
structure SpoolEnv (Event : Type) where
  crc : Bytes → UInt32
  codec : JournalCodec Event
  limits : SpoolLimits

/-- The memory of an open spool. The first three fields are the writer's, behind its mutex. -/
structure RequestLogSpool where
  writerEnd : ℕ
  failed : Bool
  admissions : AdmissionStore
  endOffset : ℕ
  checkpointOffset : ℕ
  syncedOffset : ℕ
  capacityPressure : Bool
  deriving DecidableEq

namespace RequestLogSpool

def latch (spool : RequestLogSpool) : RequestLogSpool := { spool with failed := true }

def advance (bytes : ℕ) (spool : RequestLogSpool) : RequestLogSpool :=
  { spool with writerEnd := spool.writerEnd + bytes }

def publish (spool : RequestLogSpool) : RequestLogSpool :=
  { spool with endOffset := spool.writerEnd }

def insertId (id : Uuid) (spool : RequestLogSpool) : RequestLogSpool :=
  { spool with admissions := { spool.admissions with ids := id :: spool.admissions.ids } }

def removeId (id : Uuid) (spool : RequestLogSpool) : RequestLogSpool :=
  { spool with admissions := { spool.admissions with ids := spool.admissions.ids.erase id } }

def storeCheckpoint (offset : ℕ) (spool : RequestLogSpool) : RequestLogSpool :=
  { spool with checkpointOffset := offset }

def storeSynced (offset : ℕ) (spool : RequestLogSpool) : RequestLogSpool :=
  { spool with syncedOffset := offset }

def press (spool : RequestLogSpool) : RequestLogSpool := { spool with capacityPressure := true }

def reset (spool : RequestLogSpool) : RequestLogSpool :=
  { spool with writerEnd := 0, checkpointOffset := 0, endOffset := 0, syncedOffset := 0,
               capacityPressure := false }

end RequestLogSpool

/-- History that the statements refer to and no call reads. -/
inductive Note (Event : Type) where
  /-- The slot of an admitted event is about to be written. -/
  | began (event : Event)
  | saved (event : Event)
  /-- An event goes to the events file without a reservation. -/
  | direct (event : Event)
  /-- An append returned. -/
  | acknowledged (event : Event)

/-- The files, the memory of the process, the records the database accepted, and the history:
the notes and the file operations so far, the latest first. -/
structure World (Event : Type) where
  files : SpoolFiles
  spool : RequestLogSpool
  accepted : List EncodedRequestLog
  history : List (Note Event)
  trace : List SpoolOp

inductive Action (Event : Type) where
  | file (op : SpoolOp)
  | memory (update : RequestLogSpool → RequestLogSpool)
  | note (note : Note Event)

namespace Action
variable {Event : Type}

def run : Action Event → World Event → Option (World Event)
  | .file op, world =>
    (op.run world.files).map (fun files => { world with files := files, trace := op :: world.trace })
  | .memory update, world => some { world with spool := update world.spool }
  | .note entry, world => some { world with history := entry :: world.history }

/-- An action that is stopped: a write keeps some of its bytes. -/
def cut (kept : ℕ) : Action Event → World Event → World Event
  | .file op, world =>
    ((op.cut kept).bind (fun part => (Action.file part).run world)).getD world
  | .memory _, world => world
  | .note _, world => world

def machine : Machine (World Event) (Action Event) := ⟨run, cut⟩

end Action

/-- The actions of a call and what it returns if none of them fails. -/
structure Plan (Event α : Type) where
  actions : List (Action Event)
  result : Except SpoolError α

/-- The encoding of an intent is what its serialization gives. -/
structure RequestLogIntent where
  id : Uuid
  encoded : Option Bytes

section Calls
variable {Event : Type} (env : SpoolEnv Event)

/-- Take the identifier and create its files. Whatever goes wrong latches the writer. -/
def reservePlan (spool : RequestLogSpool) (intent : RequestLogIntent) : Plan Event Unit :=
  match intent.encoded with
  | none =>
    ⟨[.memory RequestLogSpool.latch], .error (.corrupt "cannot encode request-log intent")⟩
  | some bytes =>
    if maxIntentBytes < bytes.length then
      ⟨[.memory RequestLogSpool.latch], .error (.payloadTooLarge bytes.length)⟩
    else if intent.id ∈ spool.admissions.ids then
      ⟨[.memory RequestLogSpool.latch], .error (.corrupt "duplicate request-log admission UUID")⟩
    else ⟨.memory (.insertId intent.id) :: (reserveOps intent.id bytes).map .file, .ok ()⟩

/-- The available space is none when the query for it fails. -/
def admitPlan (spool : RequestLogSpool) (intent : RequestLogIntent) (available : Option ℕ) :
    Plan Event Unit :=
  if spool.failed then ⟨[], .error .unavailableAfterWriteFailure⟩
  else if env.limits.maxBytes < saturatingAdd
      (saturatingAdd spool.writerEnd spool.admissions.reservedBytes) (2 * reservationBytes) then
    ⟨[.memory RequestLogSpool.press], .error .capacity⟩
  else
    match available with
    | none => ⟨[], .error .io⟩
    | some space =>
      if space < saturatingAdd (saturatingAdd env.limits.minFreeBytes
          spool.admissions.terminalHeadroom) (2 * reservationBytes) then
        ⟨[.memory RequestLogSpool.press], .error .capacity⟩
      else reservePlan spool intent

/-- The slot is written before the event goes anywhere else. -/
def saveTerminal (event : Event) (record : EncodedRequestLog) : List (Action Event) :=
  .note (.began event) :: (saveTerminalOps env.crc record).map .file ++ [.note (.saved event)]

/-- The frame of an admitted request is synced before it is published. -/
def writeSynced (record : EncodedRequestLog) : List (Action Event) :=
  [.file (.append .events (frame env.crc record)),
    .memory (.advance (frame env.crc record).length), .file (.sync .events),
    .memory RequestLogSpool.publish]

/-- The slot is given up behind the frame. -/
def writeReserved (event : Event) (record : EncodedRequestLog) : List (Action Event) :=
  writeSynced env record ++ ((retireOps record.requestLogId).map .file ++
    [.memory (.removeId record.requestLogId), .note (.acknowledged event)])

def writeDirect (event : Event) (record : EncodedRequestLog) : List (Action Event) :=
  [.note (.direct event), .file (.append .events (frame env.crc record)),
    .memory (.advance (frame env.crc record).length), .memory RequestLogSpool.publish,
    .note (.acknowledged event)]

/-- The end offset cannot overflow: the events file has just taken the bytes. -/
def appendPlan (spool : RequestLogSpool) (event : Event) : Plan Event ℕ :=
  match env.codec.encode event with
  | .error error => ⟨[], .error (.codec error)⟩
  | .ok record =>
    if maxPayloadBytes < record.payload.length then
      ⟨[], .error (.payloadTooLarge record.payload.length)⟩
    else if record.requestLogId ∈ spool.admissions.ids then
      if spool.failed then
        ⟨saveTerminal env event record, .error .unavailableAfterWriteFailure⟩
      else ⟨saveTerminal env event record ++ writeReserved env event record,
        .ok (frame env.crc record).length⟩
    else if spool.failed then ⟨[], .error .unavailableAfterWriteFailure⟩
    else if env.limits.maxBytes < saturatingAdd
        (saturatingAdd spool.writerEnd spool.admissions.reservedBytes)
        (frame env.crc record).length then ⟨[], .error .capacity⟩
    else ⟨writeDirect env event record, .ok (frame env.crc record).length⟩

def persistCheckpointOps (offset : ℕ) (sync : Bool) : List SpoolOp :=
  [.truncate .checkpointTemp, .append .checkpointTemp (leBytes 8 offset)] ++
  (if sync then [.sync .checkpointTemp] else []) ++ [.rename .checkpointTemp .checkpoint]

/-- The checkpoint call, which does not take the mutex; the offset is stored behind the operations. -/
def checkpointOps (spool : RequestLogSpool) (offset : ℕ) : Except SpoolError (List SpoolOp) :=
  if offset < spool.checkpointOffset ∨ spool.endOffset < offset then
    .error (.invalidCheckpoint offset spool.endOffset)
  else .ok (persistCheckpointOps offset false)

def syncDataPlan (spool : RequestLogSpool) : Plan Event Unit :=
  if spool.endOffset ≤ spool.syncedOffset then ⟨[], .ok ()⟩
  else if spool.endOffset ≤ spool.checkpointOffset then
    ⟨[.memory (.storeSynced spool.endOffset)], .ok ()⟩
  else ⟨[.file (.sync .events), .memory (.storeSynced spool.endOffset)], .ok ()⟩

/-- The test of a compaction in front of the mutex. -/
def looksDrained (spool : RequestLogSpool) : Bool :=
  spool.checkpointOffset = spool.endOffset ∧ spool.endOffset ≠ 0 ∧
    (spool.capacityPressure ∨ env.limits.compactionThresholdBytes ≤ spool.endOffset)

def compactOps : List SpoolOp := .sync .events :: persistCheckpointOps 0 true ++
  [.syncDirectory .spool, .setLen .events 0, .sync .events]

/-- The part of a compaction behind the mutex, with the pressure seen in front of it. -/
def compactPlan (spool : RequestLogSpool) (pressure : Bool) : Plan Event Bool :=
  if spool.failed then ⟨[], .error .unavailableAfterWriteFailure⟩
  else if spool.checkpointOffset ≠ spool.writerEnd ∨
      (¬ pressure ∧ spool.writerEnd < env.limits.compactionThresholdBytes) then ⟨[], .ok false⟩
  else ⟨compactOps.map .file ++ [.memory RequestLogSpool.reset], .ok true⟩

def memoryAfter (actions : List (Action Event)) (spool : RequestLogSpool) : RequestLogSpool :=
  actions.foldl (fun spool action =>
    match action with
    | .memory update => update spool
    | .file _ | .note _ => spool) spool

def reappendPlan : RequestLogSpool → List Event → Plan Event Unit
  | _, [] => ⟨[], .ok ()⟩
  | spool, event :: events =>
    let plan := appendPlan env spool event
    match plan.result with
    | .error error => ⟨plan.actions, .error error⟩
    | .ok _ =>
      let rest := reappendPlan (memoryAfter plan.actions spool) events
      ⟨plan.actions ++ rest.actions, rest.result⟩

/-- An opening: its actions, the memory it builds before the recovered events are appended, and
what it returns if none of the actions fails. -/
structure Opening (Event : Type) where
  actions : List (Action Event)
  spool : RequestLogSpool
  result : Except SpoolError Unit

def RequestLogSpool.closed : RequestLogSpool := ⟨0, false, ⟨[], 0⟩, 0, 0, 0, false⟩

def RequestLogSpool.opened (endOffset checkpointOffset : ℕ) (admissions : AdmissionStore) :
    RequestLogSpool where
  writerEnd := endOffset
  failed := false
  admissions := admissions
  endOffset := endOffset
  checkpointOffset := checkpointOffset
  syncedOffset := endOffset
  capacityPressure := false

/-- The operations of the recovery scan on the events file. -/
def repairOps (events : Bytes) (endOffset : ℕ) : List SpoolOp := .create .events ::
    if endOffset < events.length then [.setLen .events endOffset, .sync .events] else []

/-- No other thread knows the memory of a spool before its opening returns. -/
def openWithLimits (files : SpoolFiles) : Opening Event :=
  let events := (fileBytes files .events).getD []
  match readCheckpoint (fileBytes files .checkpoint) with
  | .error error => ⟨[], .closed, .error error⟩
  | .ok checkpoint =>
    match scanAndRepair env.crc events checkpoint with
    | .error error => ⟨[.file (.create .events)], .closed, .error error⟩
    | .ok scan =>
      let repair := (repairOps events scan.endOffset).map Action.file
      if ¬ scan.checkpointIsBoundary then
        ⟨repair, .closed, .error (.invalidCheckpoint checkpoint scan.endOffset)⟩
      else
        let admissions := AdmissionStore.open env.crc env.codec files
        match admissions.2 with
        | .error error => ⟨repair ++ admissions.1.map .file, .closed, .error error⟩
        | .ok opened =>
          let spool := RequestLogSpool.opened scan.endOffset checkpoint opened.store
          let again := reappendPlan env spool opened.recovered
          ⟨repair ++ admissions.1.map .file ++ .file (.syncDirectory .spool) :: again.actions,
            spool, again.result⟩

/-- An event that can be appended. -/
def Encodes (event : Event) (record : EncodedRequestLog) : Prop :=
  env.codec.encode event = .ok record ∧ record.payload.length ≤ maxPayloadBytes

inductive AppendCase (spool : RequestLogSpool) (event : Event) : Plan Event ℕ → Prop
  | refused (error : SpoolError) : AppendCase spool event ⟨[], .error error⟩
  | latched (record : EncodedRequestLog) (hrecord : Encodes env event record)
      (hid : record.requestLogId ∈ spool.admissions.ids) (hfailed : spool.failed = true) :
      AppendCase spool event ⟨saveTerminal env event record, .error .unavailableAfterWriteFailure⟩
  | reserved (record : EncodedRequestLog) (hrecord : Encodes env event record)
      (hid : record.requestLogId ∈ spool.admissions.ids) (hfailed : spool.failed = false) :
      AppendCase spool event ⟨saveTerminal env event record ++ writeReserved env event record,
        .ok (frame env.crc record).length⟩
  | direct (record : EncodedRequestLog) (hrecord : Encodes env event record)
      (hid : record.requestLogId ∉ spool.admissions.ids) (hfailed : spool.failed = false)
      (hcapacity : saturatingAdd (saturatingAdd spool.writerEnd spool.admissions.reservedBytes)
        (frame env.crc record).length ≤ env.limits.maxBytes) :
      AppendCase spool event ⟨writeDirect env event record, .ok (frame env.crc record).length⟩

theorem appendPlan_cases (spool : RequestLogSpool) (ev : Event) :
    AppendCase env spool ev (appendPlan env spool ev) := by
  unfold appendPlan
  cases he : env.codec.encode ev with
  | error err => exact .refused _
  | ok rec =>
    dsimp only
    split_ifs with hl hid hf hf hc
    · exact .refused _
    · exact .latched rec ⟨he, Nat.le_of_not_lt hl⟩ hid hf
    · exact .reserved rec ⟨he, Nat.le_of_not_lt hl⟩ hid (Bool.eq_false_iff.mpr hf)
    · exact .refused _
    · exact .refused _
    · exact .direct rec ⟨he, Nat.le_of_not_lt hl⟩ hid (Bool.eq_false_iff.mpr hf)
        (Nat.le_of_not_lt hc)

inductive AdmitCase (spool : RequestLogSpool) (intent : RequestLogIntent) : Plan Event Unit → Prop
  | refused (error : SpoolError) : AdmitCase spool intent ⟨[], .error error⟩
  | pressed : AdmitCase spool intent ⟨[.memory RequestLogSpool.press], .error .capacity⟩
  | latched (error : SpoolError) : AdmitCase spool intent ⟨[.memory RequestLogSpool.latch], .error error⟩
  | reserved (bytes : Bytes) (hbytes : bytes.length ≤ maxIntentBytes)
      (hid : intent.id ∉ spool.admissions.ids) (hfailed : spool.failed = false)
      (hcapacity : saturatingAdd (saturatingAdd spool.writerEnd spool.admissions.reservedBytes)
        (2 * reservationBytes) ≤ env.limits.maxBytes) :
      AdmitCase spool intent
        ⟨.memory (.insertId intent.id) :: (reserveOps intent.id bytes).map .file, .ok ()⟩

theorem admitPlan_cases (spool : RequestLogSpool) (intent : RequestLogIntent) (av : Option ℕ) :
    AdmitCase env spool intent (admitPlan env spool intent av : Plan Event Unit) := by
  unfold admitPlan
  split_ifs with hf hc
  · exact .refused _
  · exact .pressed
  · cases av with
    | none => exact .refused _
    | some space =>
      dsimp only
      split_ifs
      · exact .pressed
      · unfold reservePlan
        cases intent.encoded with
        | none => exact .latched _
        | some bs =>
          dsimp only
          split_ifs with hl hid
          · exact .latched _
          · exact .latched _
          · exact .reserved bs (Nat.le_of_not_lt hl) hid (Bool.eq_false_iff.mpr hf)
              (Nat.le_of_not_lt hc)

end Calls
end AiGateway.RequestLog
