import AiGateway.Domain.Basic
import AiGateway.Lib.FileSystem
import Mathlib.Data.UInt

/-! The frames of the request-log spool: how an append lays them out, how the scan of an opening
cuts off a torn one, and how the reader takes batches. The checksum is a parameter. -/
namespace AiGateway.RequestLog
open Domain Lib List

structure EncodedRequestLog where
  requestLogId : Uuid
  schemaVersion : Int16
  payload : Bytes
  deriving DecidableEq

inductive JournalCodecError where
  | serialize
  | deserialize
  | unsupportedVersion (version : Int16)
  | identifierMismatch
  deriving DecidableEq

inductive SpoolError where
  | io
  | codec (source : JournalCodecError)
  | payloadTooLarge (bytes : ℕ)
  | offsetOverflow
  | unavailableAfterWriteFailure
  | capacity
  | invalidCheckpoint (checkpoint endOffset : ℕ)
  | corrupt (message : String)
  deriving DecidableEq

/-- The bytes of "AIGL". -/
def frameMagic : Bytes := [0x41, 0x49, 0x47, 0x4c]

def frameHeaderBytes : ℕ := 32

def maxPayloadBytes : ℕ := 1048576

def checkedAdd (a b : ℕ) : Option ℕ := if a + b < 2 ^ 64 then some (a + b) else none

section Writer
variable (crc : Bytes → UInt32)

def frameHeader (record : EncodedRequestLog) : Bytes :=
  frameMagic ++ (leBytes 2 record.schemaVersion.toUInt16.toNat ++ (leBytes 2 0 ++
    (leBytes 4 record.payload.length ++ (leBytes 4 (crc record.payload).toNat ++
      record.requestLogId.asBytes))))

def frame (record : EncodedRequestLog) : Bytes := frameHeader crc record ++ record.payload

def frames (records : List EncodedRequestLog) : Bytes := records.flatMap (frame crc)

end Writer

structure ParsedHeader where
  schemaVersion : Int16
  payloadLen : ℕ
  checksum : UInt32
  requestLogId : Uuid

def parseHeader (header : Bytes) : Except SpoolError ParsedHeader :=
  if header.take 4 ≠ frameMagic then .error (.corrupt "request-log spool frame magic is invalid")
  else if leNat ((header.drop 6).take 2) ≠ 0 then
    .error (.corrupt "request-log spool frame reserved bits are nonzero")
  else if maxPayloadBytes < leNat ((header.drop 8).take 4) then
    .error (.payloadTooLarge (leNat ((header.drop 8).take 4)))
  else
    match Uuid.fromSlice ((header.drop 16).take 16) with
    | none => .error (.corrupt "request-log spool UUID is invalid")
    | some requestLogId => .ok {
        schemaVersion := ⟨UInt16.ofNat (leNat ((header.drop 4).take 2))⟩
        payloadLen := leNat ((header.drop 8).take 4)
        checksum := UInt32.ofNat (leNat ((header.drop 12).take 4))
        requestLogId := requestLogId }

/-- The end of the frame at an offset, unless it overflows. -/
def frameEnd (offset payloadLen : ℕ) : Option ℕ :=
  (checkedAdd offset frameHeaderBytes).bind (checkedAdd · payloadLen)

variable {offset : ℕ}

theorem frameEnd_eq_some {payloadLen e : ℕ} (h : frameEnd offset payloadLen = some e) :
    e = offset + frameHeaderBytes + payloadLen := by
  obtain ⟨start, hs, he⟩ := Option.bind_eq_some_iff.mp h
  unfold checkedAdd at hs he
  split_ifs at hs he
  cases hs
  cases he
  rfl

def readExact (file : Bytes) (offset count : ℕ) : Except SpoolError Bytes :=
  if offset + count ≤ file.length then .ok ((file.drop offset).take count) else .error .io

structure ScanResult where
  endOffset : ℕ
  checkpointIsBoundary : Bool
  deriving DecidableEq

section Reader
variable (crc : Bytes → UInt32)

/-- The loop of the recovery scan, which stops in front of a frame the file does not hold
completely. -/
def scanFrom (file : Bytes) (checkpoint offset : ℕ) (isBoundary : Bool) :
    Except SpoolError ScanResult :=
  if offset < file.length then
    if file.length - offset < frameHeaderBytes then .ok ⟨offset, isBoundary⟩
    else
      match readExact file offset frameHeaderBytes with
      | .error error => .error error
      | .ok header =>
        match parseHeader header with
        | .error error => .error error
        | .ok parsed =>
          match _hend : frameEnd offset parsed.payloadLen with
          | none => .error .offsetOverflow
          | some next =>
            if file.length < next then .ok ⟨offset, isBoundary⟩
            else
              match readExact file (offset + frameHeaderBytes) parsed.payloadLen with
              | .error error => .error error
              | .ok payload =>
                if crc payload ≠ parsed.checksum then
                  .error (.corrupt "request-log spool frame checksum mismatch")
                else scanFrom file checkpoint next (isBoundary || next = checkpoint)
  else .ok ⟨offset, isBoundary⟩
termination_by file.length - offset
decreasing_by
  have hframe := frameEnd_eq_some ‹_›
  unfold frameHeaderBytes at hframe
  omega

/-- What the scan finds; the file is then cut to the end offset. -/
def scanAndRepair (file : Bytes) (checkpoint : ℕ) : Except SpoolError ScanResult :=
  scanFrom crc file checkpoint 0 (checkpoint = 0)

def readCheckpoint : Option Bytes → Except SpoolError ℕ
  | none => .ok 0
  | some bytes =>
    if bytes.length ≠ 8 then
      .error (.corrupt "request-log spool checkpoint has an invalid length")
    else .ok (leNat bytes)

structure Recovered where
  checkpointOffset : ℕ
  endOffset : ℕ
  events : Bytes
  deriving DecidableEq

/-- The first half of an opening: the checkpoint, the scan, and the repaired events file. -/
def recover (checkpointFile : Option Bytes) (events : Bytes) : Except SpoolError Recovered :=
  match readCheckpoint checkpointFile with
  | .error error => .error error
  | .ok checkpoint =>
    match scanAndRepair crc events checkpoint with
    | .error error => .error error
    | .ok scan =>
      if scan.checkpointIsBoundary then
        .ok ⟨checkpoint, scan.endOffset, events.take scan.endOffset⟩
      else .error (.invalidCheckpoint checkpoint scan.endOffset)

structure SpoolReadBatch where
  records : List EncodedRequestLog
  startOffset : ℕ
  endOffset : ℕ
  deriving DecidableEq

def readRecord (file : Bytes) (availableEnd offset : ℕ) :
    Except SpoolError (EncodedRequestLog × ℕ) :=
  match readExact file offset frameHeaderBytes with
  | .error error => .error error
  | .ok header =>
    match parseHeader header with
    | .error error => .error error
    | .ok parsed =>
      match frameEnd offset parsed.payloadLen with
      | none => .error .offsetOverflow
      | some next =>
        if availableEnd < next then
          .error (.corrupt "published spool frame extends beyond the durable end offset")
        else
          match readExact file (offset + frameHeaderBytes) parsed.payloadLen with
          | .error error => .error error
          | .ok payload =>
            if crc payload ≠ parsed.checksum then
              .error (.corrupt "request-log spool frame checksum mismatch")
            else .ok (⟨parsed.requestLogId, parsed.schemaVersion, payload⟩, next)

/-- The loop over at most so many records, with the offset the reader is left at. -/
def readRecords (file : Bytes) (availableEnd : ℕ) :
    ℕ → ℕ → Except SpoolError (List EncodedRequestLog) × ℕ
  | 0, offset => (.ok [], offset)
  | maxRecords + 1, offset =>
    if offset < availableEnd then
      match readRecord crc file availableEnd offset with
      | .error error => (.error error, offset)
      | .ok (record, next) =>
        let rest := readRecords file availableEnd maxRecords next
        (rest.1.map (record :: ·), rest.2)
    else (.ok [], offset)

/-- A batch from the reader's offset, and the offset it is left at. -/
def readBatch (file : Bytes) (availableEnd offset maxRecords : ℕ) :
    Except SpoolError SpoolReadBatch × ℕ :=
  if maxRecords = 0 ∨ availableEnd ≤ offset then (.ok ⟨[], offset, offset⟩, offset)
  else
    let read := readRecords crc file availableEnd maxRecords offset
    (read.1.map (fun records => ⟨records, offset, read.2⟩), read.2)

/-- Batches of the given sizes, one after the other. -/
def readBatches (file : Bytes) (availableEnd : ℕ) :
    ℕ → List ℕ → Except SpoolError (List SpoolReadBatch)
  | _, [] => .ok []
  | offset, size :: sizes =>
    match readBatch crc file availableEnd offset size with
    | (.error error, _) => .error error
    | (.ok batch, next) => (readBatches file availableEnd next sizes).map (batch :: ·)

theorem length_frameHeader (rec : EncodedRequestLog) :
    (frameHeader crc rec).length = frameHeaderBytes := by
  simp [frameHeader, frameMagic, Uuid.length_asBytes, frameHeaderBytes]

theorem length_frame (rec : EncodedRequestLog) :
    (frame crc rec).length = frameHeaderBytes + rec.payload.length := by
  rw [frame, length_append, length_frameHeader]

theorem frames_cons (rec : EncodedRequestLog) (records : List EncodedRequestLog) :
    frames crc (rec :: records) = frame crc rec ++ frames crc records := flatMap_cons

theorem frames_append (pre after : List EncodedRequestLog) :
    frames crc (pre ++ after) = frames crc pre ++ frames crc after := flatMap_append

/-- The parser reads back every field of a header it is given whole. -/
theorem parseHeader_frameHeader {rec : EncodedRequestLog}
    (h : rec.payload.length ≤ maxPayloadBytes) :
    parseHeader (frameHeader crc rec) = .ok ⟨rec.schemaVersion, rec.payload.length,
      crc rec.payload, rec.requestLogId⟩ := by
  have hm : (frameHeader crc rec).take 4 = frameMagic := take_left' rfl
  have hv : ((frameHeader crc rec).drop 4).take 2 =
      leBytes 2 rec.schemaVersion.toUInt16.toNat :=
    take_drop_field rfl (length_leBytes 2 _)
  have hr : ((frameHeader crc rec).drop 6).take 2 = leBytes 2 0 := by
    unfold frameHeader
    rw [← append_assoc frameMagic]
    exact take_drop_field (by simp [frameMagic]) (length_leBytes 2 _)
  have hl : ((frameHeader crc rec).drop 8).take 4 = leBytes 4 rec.payload.length := by
    unfold frameHeader
    rw [← append_assoc frameMagic, ← append_assoc]
    exact take_drop_field (by simp [frameMagic]) (length_leBytes 4 _)
  have hc : ((frameHeader crc rec).drop 12).take 4 =
      leBytes 4 (crc rec.payload).toNat := by
    unfold frameHeader
    rw [← append_assoc frameMagic, ← append_assoc, ← append_assoc]
    exact take_drop_field (by simp [frameMagic]) (length_leBytes 4 _)
  have hid : ((frameHeader crc rec).drop 16).take 16 = rec.requestLogId.asBytes := by
    unfold frameHeader
    rw [← append_assoc frameMagic, ← append_assoc, ← append_assoc,
      ← append_assoc, ← append_nil rec.requestLogId.asBytes]
    exact take_drop_field (by simp [frameMagic]) (Uuid.length_asBytes _)
  have hpayload : leNat (leBytes 4 rec.payload.length) = rec.payload.length := by
    apply leNat_leBytes_of_lt
    unfold maxPayloadBytes at h
    omega
  have hcr : leNat (leBytes 4 (crc rec.payload).toNat) = (crc rec.payload).toNat :=
    leNat_leBytes_of_lt (crc rec.payload).toNat_lt
  have hs : leNat (leBytes 2 rec.schemaVersion.toUInt16.toNat) =
      rec.schemaVersion.toUInt16.toNat :=
    leNat_leBytes_of_lt rec.schemaVersion.toUInt16.toNat_lt
  unfold parseHeader
  rw [hm, hv, hr, hl, hc, hid, hpayload, hcr, hs,
    Uuid.fromSlice_asBytes, if_neg (not_not.mpr rfl), if_neg (by decide), if_neg (by omega),
    UInt16.ofNat_toNat, UInt32.ofNat_toNat]

variable {crc} {file rest : Bytes} {rec : EncodedRequestLog}
  {offset payloadLen count kept availableEnd : ℕ}

theorem frameEnd_of_lt (h : offset + frameHeaderBytes + payloadLen < 2 ^ 64) :
    frameEnd offset payloadLen = some (offset + frameHeaderBytes + payloadLen) := by
  unfold frameEnd checkedAdd
  rw [if_pos (by omega), Option.bind_some, if_pos h]

theorem readExact_of_drop {field : Bytes} (hc : field.length = count)
    (hp : 0 < count) (h : file.drop offset = field ++ rest) :
    readExact file offset count = .ok field := by
  have hl := congrArg List.length h
  rw [length_drop, length_append] at hl
  unfold readExact
  rw [if_pos (by omega), h, take_left' hc]

theorem frameHeaderBytes_pos : 0 < frameHeaderBytes := by decide

/-- A payload may be empty, so the frame in front of it says where the file ends. -/
theorem readExact_payload (h : file.drop offset = frame crc rec ++ rest) :
    readExact file (offset + frameHeaderBytes) rec.payload.length = .ok rec.payload := by
  have hl := congrArg List.length h
  rw [length_drop, length_append, length_frame] at hl
  have hp := frameHeaderBytes_pos
  unfold readExact
  rw [if_pos (by omega), ← drop_drop, h, frame, append_assoc,
    drop_left' (length_frameHeader crc rec), take_left]

theorem readExact_header (h : file.drop offset = frame crc rec ++ rest) :
    readExact file offset frameHeaderBytes = .ok (frameHeader crc rec) := by
  rw [frame, append_assoc] at h
  exact readExact_of_drop (length_frameHeader crc rec) frameHeaderBytes_pos h

variable (hsz : file.length ≤ maxFileBytes) (hpayload : rec.payload.length ≤ maxPayloadBytes)
include hsz hpayload

theorem end_lt_of_drop (hof : offset ≤ file.length) :
    offset + frameHeaderBytes + rec.payload.length < 2 ^ 64 := by
  unfold maxFileBytes at hsz
  unfold maxPayloadBytes at hpayload
  unfold frameHeaderBytes
  omega

theorem scanFrom_frame (h : file.drop offset = frame crc rec ++ rest) (checkpoint : ℕ) (isBoundary : Bool) :
    scanFrom crc file checkpoint offset isBoundary =
      scanFrom crc file checkpoint (offset + (frame crc rec).length)
        (isBoundary || offset + (frame crc rec).length = checkpoint) := by
  have hl := congrArg List.length h
  rw [length_drop, length_append, length_frame] at hl
  have hp := frameHeaderBytes_pos
  rw [scanFrom, if_pos (by omega), if_neg (by omega), readExact_header h]
  dsimp only
  rw [parseHeader_frameHeader crc hpayload]
  dsimp only
  rw [frameEnd_of_lt (end_lt_of_drop hsz hpayload (by omega))]
  dsimp only
  rw [if_neg (by omega), readExact_payload h]
  dsimp only
  rw [if_neg (not_not.mpr rfl), length_frame, Nat.add_assoc]

theorem scanFrom_torn
    (hk : kept < (frame crc rec).length) (hof : offset ≤ file.length)
    (h : file.drop offset = (frame crc rec).take kept) (checkpoint : ℕ) (isBoundary : Bool) :
    scanFrom crc file checkpoint offset isBoundary = .ok ⟨offset, isBoundary⟩ := by
  have hl := congrArg List.length h
  rw [length_drop, length_take_of_le hk.le] at hl
  rw [length_frame] at hk
  rw [scanFrom]
  by_cases hm : offset < file.length
  · rw [if_pos hm]
    by_cases hh : file.length - offset < frameHeaderBytes
    · rw [if_pos hh]
    · have hr : readExact file offset frameHeaderBytes = .ok (frameHeader crc rec) := by
        unfold readExact
        rw [if_pos (by omega), h, take_take, Nat.min_eq_left (by omega), frame,
          take_left' (length_frameHeader crc rec)]
      rw [if_neg hh, hr]
      dsimp only
      rw [parseHeader_frameHeader crc hpayload]
      dsimp only
      rw [frameEnd_of_lt (end_lt_of_drop hsz hpayload hof)]
      dsimp only
      rw [if_pos (by omega)]
  · rw [if_neg hm]

/-- The reader takes a complete frame that ends at or before the published end. -/
theorem readRecord_frame (h : file.drop offset = frame crc rec ++ rest)
    (he : offset + (frame crc rec).length ≤ availableEnd) :
    readRecord crc file availableEnd offset =
      .ok (rec, offset + (frame crc rec).length) := by
  have hl := congrArg List.length h
  rw [length_drop, length_append, length_frame] at hl
  rw [length_frame] at he ⊢
  unfold readRecord
  rw [readExact_header h]
  dsimp only
  rw [parseHeader_frameHeader crc hpayload]
  dsimp only
  have hp := frameHeaderBytes_pos
  rw [frameEnd_of_lt (end_lt_of_drop hsz hpayload (by omega))]
  dsimp only
  rw [if_neg (by omega), readExact_payload h]
  dsimp only
  rw [if_neg (not_not.mpr rfl), Nat.add_assoc]

end Reader

/-- The offsets at which a complete frame ends, and the start of the file. -/
def boundaries (crc : Bytes → UInt32) (records : List EncodedRequestLog) : List ℕ :=
  records.inits.map (fun before => (frames crc before).length)

theorem mem_boundaries {crc : Bytes → UInt32} {records : List EncodedRequestLog} :
    offset ∈ boundaries crc records ↔
      ∃ pre, pre <+: records ∧ (frames crc pre).length = offset := by
  simp [boundaries, mem_inits]

/-- Every record fits a frame. -/
def Bounded (records : List EncodedRequestLog) : Prop :=
  ∀ record ∈ records, record.payload.length ≤ maxPayloadBytes

section Files
variable {crc : Bytes → UInt32} {file rest : Bytes} {records pre : List EncodedRequestLog}
  {offset : ℕ}

/-- The scan over complete frames: it ends behind them and knows their boundaries. -/
theorem scanFrom_frames (offset : ℕ) (hsz : file.length ≤ maxFileBytes)
    (hbounded : Bounded records) (h : file.drop offset = frames crc records ++ rest)
    (checkpoint : ℕ) (isBoundary : Bool) :
    ∃ flag, scanFrom crc file checkpoint offset isBoundary =
        scanFrom crc file checkpoint (offset + (frames crc records).length) flag ∧
      (flag = true ↔ isBoundary = true ∨ ∃ pre, pre <+: records ∧ pre ≠ [] ∧
        offset + (frames crc pre).length = checkpoint) := by
  induction records generalizing offset isBoundary with
  | nil =>
    refine ⟨isBoundary, rfl, ?_⟩
    constructor
    · exact .inl
    · rintro (hf | ⟨pre, hin, hne, -⟩)
      · exact hf
      · exact absurd (prefix_nil.mp hin) hne
  | cons rec records ih =>
    rw [frames_cons, append_assoc] at h
    have hre : file.drop (offset + (frame crc rec).length) = frames crc records ++ rest := by
      rw [← drop_drop, h, drop_left]
    obtain ⟨flag, hs, hf⟩ := ih _ (fun r hr => hbounded r (mem_cons_of_mem _ hr)) hre
      (isBoundary || offset + (frame crc rec).length = checkpoint)
    refine ⟨flag, ?_, ?_⟩
    · rw [scanFrom_frame hsz (hbounded rec mem_cons_self) h, hs, frames_cons,
        length_append, Nat.add_assoc]
    · rw [hf, Bool.or_eq_true, decide_eq_true_eq, or_assoc]
      apply or_congr_right
      constructor
      · rintro (heq | ⟨pre, hin, -, heq⟩)
        · exact ⟨[rec], ⟨records, rfl⟩, cons_ne_nil _ _, by simpa [frames_cons, frames] using heq⟩
        · refine ⟨rec :: pre, cons_prefix_cons.mpr ⟨rfl, hin⟩,
            cons_ne_nil _ _, ?_⟩
          rw [frames_cons, length_append, ← Nat.add_assoc]
          exact heq
      · rintro ⟨pre, hin, hne, heq⟩
        obtain ⟨first, others, rfl⟩ := exists_cons_of_ne_nil hne
        obtain ⟨rfl, hot⟩ := cons_prefix_cons.mp hin
        rw [frames_cons, length_append, ← Nat.add_assoc] at heq
        by_cases hn : others = []
        · subst hn
          exact .inl heq
        · exact .inr ⟨others, hot, hn, heq⟩

/-- What the scan says about a file of complete frames and a torn one. -/
theorem scanAndRepair_torn {next : EncodedRequestLog} {kept : ℕ}
    (hsz : file.length ≤ maxFileBytes) (hbounded : Bounded records)
    (hne : next.payload.length ≤ maxPayloadBytes) (hk : kept < (frame crc next).length)
    (hf : file = frames crc records ++ (frame crc next).take kept) (checkpoint : ℕ) :
    ∃ flag, scanAndRepair crc file checkpoint = .ok ⟨(frames crc records).length, flag⟩ ∧
      (flag = true ↔ checkpoint ∈ boundaries crc records) := by
  obtain ⟨flag, hs, hfl⟩ := scanFrom_frames 0 hsz hbounded hf checkpoint
    (decide (checkpoint = 0))
  refine ⟨flag, ?_, ?_⟩
  · rw [scanAndRepair, hs, Nat.zero_add]
    refine scanFrom_torn hsz hne hk ?_ ?_ checkpoint flag
    · rw [hf, length_append]
      exact Nat.le_add_right _ _
    · rw [hf, drop_left]
  · rw [hfl, decide_eq_true_eq, mem_boundaries]
    constructor
    · rintro (rfl | ⟨pre, hin, -, heq⟩)
      · exact ⟨[], nil_prefix, rfl⟩
      · exact ⟨pre, hin, (Nat.zero_add _).symm.trans heq⟩
    · rintro ⟨pre, hin, heq⟩
      by_cases hn : pre = []
      · subst hn
        exact .inl heq.symm
      · exact .inr ⟨pre, hin, hn, (Nat.zero_add _).trans heq⟩

variable (hsz : file.length ≤ maxFileBytes) (hbounded : Bounded records)
include hsz hbounded

theorem readRecords_frames (h : file.drop offset = frames crc records ++ rest) (mr : ℕ) :
    readRecords crc file (offset + (frames crc records).length) mr offset =
      (.ok (records.take mr),
        offset + (frames crc (records.take mr)).length) := by
  induction mr generalizing records offset with
  | zero => rfl
  | succ mr ih =>
    cases records with
    | nil =>
      exact if_neg (Nat.lt_irrefl offset)
    | cons rec records =>
      rw [frames_cons, append_assoc] at h
      have hre : file.drop (offset + (frame crc rec).length) = frames crc records ++ rest := by
        rw [← drop_drop, h, drop_left]
      have hp := frameHeaderBytes_pos
      have hl := length_frame crc rec
      rw [frames_cons, length_append, ← Nat.add_assoc, readRecords, if_pos (by omega),
        readRecord_frame hsz (hbounded rec mem_cons_self) h (Nat.le_add_right _ _)]
      dsimp only
      rw [ih (fun r hr => hbounded r (mem_cons_of_mem _ hr)) hre]
      rw [take_succ_cons, frames_cons, length_append, Nat.add_assoc]
      rfl

theorem readBatch_frames (h : file.drop offset = frames crc records ++ rest) (mr : ℕ) :
    readBatch crc file (offset + (frames crc records).length) offset mr =
      (.ok ⟨records.take mr, offset,
          offset + (frames crc (records.take mr)).length⟩,
        offset + (frames crc (records.take mr)).length) := by
  unfold readBatch
  split_ifs with he
  · have hn : records.take mr = [] := by
      rcases he with hz | hen
      · rw [hz, take_zero]
      · cases records with
        | nil => exact take_nil
        | cons rec records =>
          have hp := frameHeaderBytes_pos
          rw [frames_cons, length_append, length_frame] at hen
          omega
    rw [hn]
    rfl
  · rw [readRecords_frames hsz hbounded h]
    rfl

/-- Batches of any sizes return the records in order and end at frame boundaries. -/
theorem readBatches_frames (h : file = frames crc (pre ++ records)) (sizes : List ℕ) :
    ∃ batches, readBatches crc file file.length (frames crc pre).length sizes = .ok batches ∧
      batches.flatMap SpoolReadBatch.records = records.take sizes.sum ∧
      ∀ batch ∈ batches, batch.endOffset ∈ boundaries crc (pre ++ records) := by
  induction sizes generalizing pre records with
  | nil => exact ⟨[], rfl, (take_zero).symm, forall_mem_nil _⟩
  | cons size sizes ih =>
    have hd : file.drop (frames crc pre).length = frames crc records ++ [] := by
      rw [h, frames_append, drop_left, append_nil]
    have hba := readBatch_frames hsz hbounded hd size
    have he : (frames crc pre).length + (frames crc records).length = file.length := by
      rw [h, frames_append, length_append]
    rw [he, ← length_append, ← frames_append] at hba
    have hs : pre ++ records = (pre ++ records.take size) ++ records.drop size := by
      rw [append_assoc, take_append_drop]
    obtain ⟨batches, hbt, hre, hbo⟩ :=
      ih (fun r hr => hbounded r (mem_of_mem_drop hr)) (hs ▸ h)
    refine ⟨_, by rw [readBatches, hba]; dsimp only; rw [hbt]; rfl, ?_, ?_⟩
    · rw [flatMap_cons, hre, sum_cons, take_add]
    · intro batch hm
      rcases mem_cons.mp hm with rfl | hm
      · exact mem_boundaries.mpr ⟨pre ++ records.take size, ⟨records.drop size, hs.symm⟩, rfl⟩
      · rw [hs]
        exact hbo batch hm

end Files

section Unique
variable {crc : Bytes → UInt32}

theorem take_frame (rec : EncodedRequestLog) (rest : Bytes) :
    (frame crc rec ++ rest).take frameHeaderBytes = frameHeader crc rec := by
  rw [frame, append_assoc, take_left' (length_frameHeader crc rec)]

variable {a b rec : EncodedRequestLog} {x tail : Bytes}

section
variable (ha : a.payload.length ≤ maxPayloadBytes) (hb : b.payload.length ≤ maxPayloadBytes)
include ha hb

/-- A header tells everything about its record but the bytes of the payload. -/
theorem eq_of_frameHeader_eq (h : frameHeader crc a = frameHeader crc b) :
    a.schemaVersion = b.schemaVersion ∧ a.payload.length = b.payload.length ∧
      a.requestLogId = b.requestLogId := by
  have hp := parseHeader_frameHeader crc ha
  rw [h, parseHeader_frameHeader crc hb, Except.ok.injEq, ParsedHeader.mk.injEq] at hp
  exact ⟨hp.1.symm, hp.2.1.symm, hp.2.2.2.symm⟩

theorem frame_append_inj {y : Bytes}
    (h : frame crc a ++ x = frame crc b ++ y) : a = b ∧ x = y := by
  have hh : frameHeader crc a = frameHeader crc b := by
    rw [← take_frame a x, h, take_frame]
  obtain ⟨hv, hl, hid⟩ := eq_of_frameHeader_eq ha hb hh
  have hfr : (frame crc a).length = (frame crc b).length := by
    rw [length_frame, length_frame, hl]
  obtain ⟨hf, hr⟩ := append_inj h hfr
  have hpayload : a.payload = b.payload := by
    exact (append_inj hf (congrArg List.length hh)).2
  cases a
  simp_all

end

/-- What is left of a frame whose write was stopped. -/
def Torn (crc : Bytes → UInt32) (tail : Bytes) : Prop :=
  ∃ next : EncodedRequestLog, next.payload.length ≤ maxPayloadBytes ∧
    ∃ kept < (frame crc next).length, tail = (frame crc next).take kept

theorem torn_nil : Torn crc [] :=
  ⟨⟨0, 0, []⟩, Nat.zero_le _, 0, by rw [length_frame]; exact Nat.succ_pos _, rfl⟩

/-- A torn frame does not start with a complete one. -/
theorem Torn.ne_frame_append (h : Torn crc tail)
    (hr : rec.payload.length ≤ maxPayloadBytes) (rest : Bytes) :
    frame crc rec ++ rest ≠ tail := by
  rintro rfl
  obtain ⟨next, hn, kept, hk, ht⟩ := h
  have hl := congrArg List.length ht
  rw [length_append, length_take, length_frame, length_frame,
    min_eq_left (by rw [length_frame] at hk; omega)] at hl
  have hh : frameHeader crc rec = frameHeader crc next := by
    rw [← take_frame rec rest, ht, take_take,
      min_eq_left (by omega), ← take_frame next [], append_nil]
  have hpayload := (eq_of_frameHeader_eq hr hn hh).2.1
  rw [length_frame] at hk
  omega

/-- The complete frames of a file are those in front of its torn end. -/
theorem prefix_of_frames_append_eq {a b : List EncodedRequestLog}
    (ha : Bounded a) (hb : Bounded b) (ht : Torn crc tail)
    (h : frames crc a ++ x = frames crc b ++ tail) : a <+: b := by
  induction a generalizing b with
  | nil => exact nil_prefix
  | cons rec a ih =>
    have hre := ha rec mem_cons_self
    rw [frames_cons, append_assoc] at h
    cases b with
    | nil => exact absurd h (ht.ne_frame_append hre _)
    | cons o b =>
      rw [frames_cons, append_assoc] at h
      obtain ⟨rfl, hrs⟩ := frame_append_inj hre (hb o mem_cons_self) h
      exact cons_prefix_cons.mpr ⟨rfl, ih (fun r hr => ha r (mem_cons_of_mem _ hr))
        (fun r hr => hb r (mem_cons_of_mem _ hr)) hrs⟩

end Unique

/-- The spool at rest: a list of records, the further one a write may have torn, and the file
that holds their bytes. -/
structure SpoolFile (crc : Bytes → UInt32) where
  records : List EncodedRequestLog
  bounded : Bounded records
  next : EncodedRequestLog
  nextBounded : next.payload.length ≤ maxPayloadBytes
  kept : ℕ
  torn : kept < (frame crc next).length
  file : Content
  layout : file.val = frames crc records ++ (frame crc next).take kept

/-- Opening keeps exactly the complete frames and the checkpoints at their boundaries, and the
reader then returns the records behind any boundary, whatever the sizes of its batches. -/
theorem spool_round_trip (crc : Bytes → UInt32) (spool : SpoolFile crc) :
    let written := frames crc spool.records
    recover crc none spool.file.val = .ok ⟨0, written.length, written⟩ ∧
    (∀ checkpoint < 2 ^ 64, recover crc (some (leBytes 8 checkpoint)) spool.file.val =
      if checkpoint ∈ boundaries crc spool.records then .ok ⟨checkpoint, written.length, written⟩
      else .error (.invalidCheckpoint checkpoint written.length)) ∧
    ∀ offset ∈ boundaries crc spool.records, ∃ before after, spool.records = before ++ after ∧
      (frames crc before).length = offset ∧ ∀ sizes, ∃ batches,
        readBatches crc written written.length offset sizes = .ok batches ∧
        batches.flatMap SpoolReadBatch.records = after.take sizes.sum ∧
        ∀ batch ∈ batches, batch.endOffset ∈ boundaries crc spool.records := by
  intro written
  have ht : spool.file.val.take written.length = written := by
    rw [spool.layout, take_left]
  have hsize : written.length ≤ maxFileBytes := by
    have hfi := spool.file.property
    rw [spool.layout, length_append] at hfi
    exact Nat.le_of_add_right_le hfi
  have hs := scanAndRepair_torn spool.file.property spool.bounded spool.nextBounded spool.torn
    spool.layout
  refine ⟨?_, ?_, ?_⟩
  · obtain ⟨flag, hre, hf⟩ := hs 0
    have hz : flag = true := hf.mpr (mem_boundaries.mpr ⟨[], nil_prefix, rfl⟩)
    simp only [recover, readCheckpoint, hre, hz, if_true]
    rw [ht]
  · intro checkpoint hc
    obtain ⟨flag, hre, hf⟩ := hs checkpoint
    have hrd : readCheckpoint (some (leBytes 8 checkpoint)) = .ok checkpoint := by
      rw [readCheckpoint, if_neg (not_not.mpr (length_leBytes 8 _)),
        leNat_leBytes_of_lt (by omega)]
    simp only [recover, hrd, hre, hf]
    rw [ht]
  · intro offset hof
    obtain ⟨before, ⟨after, haf⟩, hl⟩ := mem_boundaries.mp hof
    refine ⟨before, after, haf.symm, hl, fun sizes => ?_⟩
    have hbounded : Bounded after :=
      fun r hr => spool.bounded r (haf ▸ mem_append_right before hr)
    rw [← hl, ← haf]
    exact readBatches_frames hsize hbounded (congrArg (frames crc) haf.symm) sizes

/-- Two records and the first 40 bytes of a third. -/
def tornWrite : SpoolFile (fun payload => payload.sum.toUInt32) where
  records := [⟨1, 8, [0x7b, 0x7d]⟩, ⟨2, 7, []⟩]
  bounded := by simp [Bounded, maxPayloadBytes]
  next := ⟨3, 8, List.replicate 20 0x20⟩
  nextBounded := by decide
  kept := 40
  torn := by decide
  file := ⟨frames _ [⟨1, 8, [0x7b, 0x7d]⟩, ⟨2, 7, []⟩] ++
    (frame _ ⟨3, 8, List.replicate 20 0x20⟩).take 40, by decide⟩
  layout := rfl

theorem spool_round_trip_torn_write :
    recover (fun payload => payload.sum.toUInt32) (some (leBytes 8 34)) tornWrite.file.val =
        .ok ⟨34, 66, frames (fun payload => payload.sum.toUInt32) tornWrite.records⟩ ∧
      recover (fun payload => payload.sum.toUInt32) (some (leBytes 8 40)) tornWrite.file.val =
        .error (.invalidCheckpoint 40 66) :=
  have h := (spool_round_trip _ tornWrite).2.1
  ⟨(h 34 (by decide)).trans (if_pos (by decide)), (h 40 (by decide)).trans (if_neg (by decide))⟩

end AiGateway.RequestLog
