import AiGateway.RequestLog.Frame
import Mathlib.Data.List.DropRight

/-! The admission store: one intent file and one preallocated slot for the terminal event of
every request in flight, and what a restart makes of the slots it finds. -/
namespace AiGateway.RequestLog
open Domain Lib List

def requestLogSchemaVersion : Int16 := 8

/-- The JSON encoding of request-log events, for every schema version that can be read. -/
structure JournalCodec (Event : Type) where
  id : Event → Uuid
  serialize : Event → Option Bytes
  deserialize : Int16 → Bytes → Except JournalCodecError Event
  round_trip : ∀ {event payload}, serialize event = some payload →
    deserialize requestLogSchemaVersion payload = .ok event

namespace JournalCodec
variable {Event : Type} (codec : JournalCodec Event)

def encode (event : Event) : Except JournalCodecError EncodedRequestLog :=
  match codec.serialize event with
  | none => .error .serialize
  | some payload => .ok ⟨codec.id event, requestLogSchemaVersion, payload⟩

def decode (record : EncodedRequestLog) : Except JournalCodecError Event :=
  match codec.deserialize record.schemaVersion record.payload with
  | .error error => .error error
  | .ok event =>
    if codec.id event ≠ record.requestLogId then .error .identifierMismatch else .ok event

variable {codec} {ev : Event} {rec : EncodedRequestLog} (h : codec.encode ev = .ok rec)
include h

theorem encode_eq_ok :
    codec.serialize ev = some rec.payload ∧
      rec = ⟨codec.id ev, requestLogSchemaVersion, rec.payload⟩ := by
  unfold encode at h
  cases hp : codec.serialize ev with
  | none =>
    rw [hp] at h
    cases h
  | some payload =>
    rw [hp] at h
    cases h
    exact ⟨rfl, rfl⟩

theorem encode_id : rec.requestLogId = codec.id ev :=
  congrArg EncodedRequestLog.requestLogId (encode_eq_ok h).2

theorem decode_encode : codec.decode rec = .ok ev := by
  obtain ⟨hp, hr⟩ := encode_eq_ok h
  have hv : rec.schemaVersion = requestLogSchemaVersion :=
    congrArg EncodedRequestLog.schemaVersion hr
  unfold decode
  rw [hv, codec.round_trip hp]
  exact if_neg (not_not.mpr (encode_id h).symm)

end JournalCodec

/-- The files of the spool directory and of the admissions directory in it. -/
inductive SpoolPath where
  | events
  | checkpoint
  | checkpointTemp
  | slot (id : Uuid)
  | intent (id : Uuid)
  deriving DecidableEq

inductive SpoolDirectory where
  | spool
  | admissions
  deriving DecidableEq

abbrev SpoolFiles := Files SpoolPath

abbrev SpoolOp := FileOp SpoolPath SpoolDirectory

def fileBytes (files : SpoolFiles) (path : SpoolPath) : Option Bytes :=
  (files.get path).map Subtype.val

/-- The bytes of "AIGA". -/
def slotMagic : Bytes := [0x41, 0x49, 0x47, 0x41]

def slotHeaderBytes : ℕ := 16

def maxIntentBytes : ℕ := 16384

def slotBytes : ℕ := slotHeaderBytes + maxPayloadBytes

def reservationBytes : ℕ := slotHeaderBytes + maxPayloadBytes + maxIntentBytes

/-- The saturating arithmetic of 64-bit numbers. -/
def saturatingAdd (a b : ℕ) : ℕ := min (a + b) (2 ^ 64 - 1)

def saturatingMul (a b : ℕ) : ℕ := min (a * b) (2 ^ 64 - 1)

structure AdmissionStore where
  ids : List Uuid
  retainedBytes : ℕ
  deriving DecidableEq

namespace AdmissionStore

def reservedBytes (store : AdmissionStore) : ℕ :=
  saturatingAdd (saturatingMul store.ids.length (2 * reservationBytes)) store.retainedBytes

def terminalHeadroom (store : AdmissionStore) : ℕ := saturatingMul store.ids.length reservationBytes

end AdmissionStore

/-- The file operations of a reservation, after the identifier is taken. -/
def reserveOps (id : Uuid) (intent : Bytes) : List SpoolOp :=
  [.createNew (.slot id), .allocate (.slot id) slotBytes, .sync (.slot id),
    .createNew (.intent id), .append (.intent id) intent, .sync (.intent id),
    .syncDirectory .admissions]

section Slots
variable (crc : Bytes → UInt32)

def slotHeader (record : EncodedRequestLog) : Bytes :=
  slotMagic ++ (leBytes 2 record.schemaVersion.toUInt16.toNat ++ (leBytes 2 0 ++
    (leBytes 4 record.payload.length ++ leBytes 4 (crc record.payload).toNat)))

/-- The payload goes in first, then the header. -/
def saveTerminalOps (record : EncodedRequestLog) : List SpoolOp :=
  [.writeAt (.slot record.requestLogId) slotHeaderBytes record.payload,
    .writeAt (.slot record.requestLogId) 0 (slotHeader crc record),
    .sync (.slot record.requestLogId)]

/-- The record of a slot that passes the tests of its magic, length and checksum. -/
def slotRecord (id : Uuid) (slot : Bytes) : Option EncodedRequestLog :=
  let len := leNat ((slot.drop 8).take 4)
  let payload := (slot.drop slotHeaderBytes).take len
  if slot.length < slotHeaderBytes ∨ slot.take 4 ≠ slotMagic then none
  else if maxPayloadBytes < len ∨ (slot.drop 6).take 2 ≠ [0, 0] then none
  else if slot.length < slotHeaderBytes + len ∨
      crc payload ≠ UInt32.ofNat (leNat ((slot.drop 12).take 4)) then none
  else some ⟨id, ⟨UInt16.ofNat (leNat ((slot.drop 4).take 2))⟩, payload⟩

variable {Event : Type} (codec : JournalCodec Event)

/-- The terminal event of a slot; what fails the tests is no event, what passes them has to
decode. -/
def readTerminal (id : Uuid) : Option Bytes → Except SpoolError (Option Event)
  | none => .ok none
  | some slot =>
    match slotRecord crc id slot with
    | none => .ok none
    | some record =>
      match codec.decode record with
      | .error error => .error (.codec error)
      | .ok event =>
        if codec.id event ≠ id then .error (.corrupt "admission terminal UUID mismatch")
        else .ok (some event)

end Slots

/-- The length of a slot without its trailing zeros. -/
def evidenceBytes (slot : Bytes) : ℕ := (slot.rdropWhile (· = 0)).length

/-- What is kept of a request without a terminal event, and the bytes that counts for. -/
def retainUnknown (files : SpoolFiles) (id : Uuid) : Except SpoolError (List SpoolOp × ℕ) :=
  let intent := (fileBytes files (.intent id)).elim 0 (fun bytes => max bytes.length 4096)
  match fileBytes files (.slot id) with
  | none => .ok ([], intent)
  | some slot =>
    if slotBytes < slot.length then .error (.corrupt "admission slot exceeds size limit")
    else .ok ([.setLen (.slot id) (evidenceBytes slot), .sync (.slot id)],
      saturatingAdd intent (max (evidenceBytes slot) 4096))

/-- The first two removals each wait for the directory. -/
def retireOps (id : Uuid) : List SpoolOp :=
  [.remove (.intent id), .syncDirectory .admissions, .remove (.slot id), .syncDirectory .admissions]

def SpoolPath.admissionId? : SpoolPath → Option Uuid
  | .slot id | .intent id => some id
  | .events | .checkpoint | .checkpointTemp => none

/-- The identifiers of the admissions directory in their order. -/
def admissionIds (files : SpoolFiles) : List Uuid :=
  (files.keys.filterMap SpoolPath.admissionId?).dedup.mergeSort (fun a b => a.toNat ≤ b.toNat)

structure Admissions (Event : Type) where
  store : AdmissionStore
  recovered : List Event

section Opening
variable {Event : Type} (crc : Bytes → UInt32) (codec : JournalCodec Event)

/-- The loop over the identifiers: the file operations it performs and its result. -/
def openIds (files : SpoolFiles) :
    List Uuid → List SpoolOp × Except SpoolError (Admissions Event)
  | [] => ([], .ok ⟨⟨[], 0⟩, []⟩)
  | id :: ids =>
    match readTerminal crc codec id (fileBytes files (.slot id)) with
    | .error error => ([], .error error)
    | .ok (some event) =>
      let rest := openIds files ids
      (rest.1, rest.2.map (fun a => ⟨⟨id :: a.store.ids, a.store.retainedBytes⟩,
        event :: a.recovered⟩))
    | .ok none =>
      match retainUnknown files id with
      | .error error => ([], .error error)
      | .ok (ops, bytes) =>
        let rest := openIds files ids
        (ops ++ rest.1, rest.2.map (fun a => ⟨⟨a.store.ids,
          saturatingAdd a.store.retainedBytes bytes⟩, a.recovered⟩))

def AdmissionStore.open (files : SpoolFiles) : List SpoolOp × Except SpoolError (Admissions Event) :=
  let rest := openIds crc codec files (admissionIds files)
  (.syncDirectory .spool :: rest.1, rest.2)

variable {crc} {rec : EncodedRequestLog} {id : Uuid} {slot payload : Bytes}

theorem length_slotHeader (crc : Bytes → UInt32) (rec : EncodedRequestLog) :
    (slotHeader crc rec).length = slotHeaderBytes := by
  simp [slotHeader, slotMagic, slotHeaderBytes]

/-- A slot with the header of a record and as many other bytes behind it. -/
theorem slotRecord_layout (h : rec.payload.length ≤ maxPayloadBytes)
    (hsa : payload.length = rec.payload.length) (id : Uuid) (rest : Bytes) :
    slotRecord crc id (slotHeader crc rec ++ payload ++ rest) =
      if crc payload = crc rec.payload then some ⟨id, rec.schemaVersion, payload⟩ else none := by
  generalize hs : slotHeader crc rec ++ payload ++ rest = slot
  have hh := length_slotHeader crc rec
  have hln : slot.length = slotHeaderBytes + rec.payload.length + rest.length := by
    rw [← hs, length_append, length_append, hh, hsa]
  have hl : slot = slotMagic ++ (leBytes 2 rec.schemaVersion.toUInt16.toNat ++
      (leBytes 2 0 ++ (leBytes 4 rec.payload.length ++ (leBytes 4 (crc rec.payload).toNat ++
        (payload ++ rest))))) := by
    rw [← hs]
    simp only [slotHeader, append_assoc]
  have hma : slot.take 4 = slotMagic := by
    rw [hl]
    exact take_left' rfl
  have hv : (slot.drop 4).take 2 = leBytes 2 rec.schemaVersion.toUInt16.toNat := by
    rw [hl]
    exact take_drop_field rfl (length_leBytes 2 _)
  have hr : (slot.drop 6).take 2 = [0, 0] := by
    rw [hl, ← append_assoc slotMagic]
    exact take_drop_field (by simp [slotMagic]) (length_leBytes 2 0)
  have hle : (slot.drop 8).take 4 = leBytes 4 rec.payload.length := by
    rw [hl, ← append_assoc slotMagic, ← append_assoc]
    exact take_drop_field (by simp [slotMagic]) (length_leBytes 4 _)
  have hc : (slot.drop 12).take 4 = leBytes 4 (crc rec.payload).toNat := by
    rw [hl, ← append_assoc slotMagic, ← append_assoc, ← append_assoc]
    exact take_drop_field (by simp [slotMagic]) (length_leBytes 4 _)
  have hp : (slot.drop slotHeaderBytes).take rec.payload.length = payload := by
    rw [← hs]
    exact take_drop_field hh hsa
  have hcn : leNat (leBytes 4 rec.payload.length) = rec.payload.length :=
    leNat_leBytes_of_lt (by unfold maxPayloadBytes at h; omega)
  have hcr : UInt32.ofNat (leNat (leBytes 4 (crc rec.payload).toNat)) = crc rec.payload := by
    rw [leNat_leBytes_of_lt (by simpa using (crc rec.payload).toNat_lt), UInt32.ofNat_toNat]
  have hsc : (⟨UInt16.ofNat (leNat (leBytes 2 rec.schemaVersion.toUInt16.toNat))⟩ : Int16) =
      rec.schemaVersion := by
    rw [leNat_leBytes_of_lt (by simpa using rec.schemaVersion.toUInt16.toNat_lt),
      UInt16.ofNat_toNat]
  have hco : ¬ slot.length < slotHeaderBytes + rec.payload.length := by omega
  unfold slotRecord
  simp only [hma, hv, hr, hle, hc, hcn, hp, hcr, hsc]
  rw [if_neg (not_or.mpr ⟨by omega, not_not.mpr rfl⟩),
    if_neg (not_or.mpr ⟨Nat.not_lt.mpr h, not_not.mpr rfl⟩)]
  by_cases hm : crc payload = crc rec.payload
  · rw [if_neg (not_or.mpr ⟨hco, not_not.mpr hm⟩), if_pos hm]
  · rw [if_pos (.inr hm), if_neg hm]

/-- A slot with a complete header and payload gives its record back. -/
theorem slotRecord_image (h : rec.payload.length ≤ maxPayloadBytes) (rest : Bytes) :
    slotRecord crc rec.requestLogId (slotHeader crc rec ++ rec.payload ++ rest) = some rec := by
  rw [slotRecord_layout h rfl, if_pos rfl]

/-- The tests of a slot only look at its header and payload. -/
theorem slotRecord_append (h : slotRecord crc id slot = some rec) (rest : Bytes) :
    slotRecord crc id (slot ++ rest) = some rec := by
  have hh : ¬ slot.length < slotHeaderBytes := by
    intro hs
    rw [slotRecord, if_pos (.inl hs)] at h
    cases h
  have hf : ∀ off width, off + width ≤ slotHeaderBytes →
      ((slot ++ rest).drop off).take width = (slot.drop off).take width := by
    intro off width hle
    rw [drop_append_of_le_length (by omega), take_append_of_le_length]
    rw [length_drop]
    omega
  have hm : (slot ++ rest).take 4 = slot.take 4 := by
    rw [take_append_of_le_length]
    unfold slotHeaderBytes at hh
    omega
  unfold slotRecord at h ⊢
  rw [hf 8 4 (by decide), hf 6 2 (by decide), hf 12 4 (by decide), hf 4 2 (by decide), hm]
  simp only at h ⊢
  split_ifs at h with h1 h2 h3
  obtain ⟨hln, hc⟩ := not_or.mp h3
  have hp : ((slot ++ rest).drop slotHeaderBytes).take (leNat ((slot.drop 8).take 4)) =
      (slot.drop slotHeaderBytes).take (leNat ((slot.drop 8).take 4)) := by
    rw [drop_append_of_le_length (by omega), take_append_of_le_length]
    rw [length_drop]
    omega
  have hl : ¬ (slot ++ rest).length < slotHeaderBytes := by
    rw [length_append]
    omega
  rw [hp, if_neg (not_or.mpr ⟨hl, (not_or.mp h1).2⟩), if_neg h2,
    if_neg (not_or.mpr ⟨by rw [length_append]; omega, hc⟩)]
  exact h

/-- Evidence that is cut to its last nonzero byte is no more of an event than before. -/
theorem slotRecord_evidence (h : slotRecord crc id slot = none) :
    slotRecord crc id (slot.take (evidenceBytes slot)) = none := by
  cases hr : slotRecord crc id (slot.take (evidenceBytes slot)) with
  | none => rfl
  | some rec =>
    have hw := slotRecord_append hr (slot.drop (evidenceBytes slot))
    rw [take_append_drop, h] at hw
    cases hw

/-- A slot is no event before its header is written. -/
theorem slotRecord_blank (h : slot.take 4 ≠ slotMagic) : slotRecord crc id slot = none := by
  unfold slotRecord
  rw [if_pos (.inr h)]

/-- What a completed save leaves in a slot, whatever was there. -/
theorem slotRecord_saved (h : rec.payload.length ≤ maxPayloadBytes) (slot : Bytes) :
    slotRecord crc rec.requestLogId
      (overwrite (overwrite slot slotHeaderBytes rec.payload) 0 (slotHeader crc rec)) =
      some rec := by
  rw [overwrite_zero, length_slotHeader, drop_overwrite]
  exact slotRecord_image h _

/-- The magic alone over a blank slot passes the tests, with an empty payload. -/
theorem slotRecord_tornHeader (hc : crc [] = 0) (id : Uuid) (payload : Bytes)
    (rec : EncodedRequestLog) :
    slotRecord crc id (overwrite (overwrite (List.replicate slotBytes 0) slotHeaderBytes payload) 0
      ((slotHeader crc rec).take 4)) = some ⟨id, 0, []⟩ := by
  generalize hs : overwrite (List.replicate slotBytes 0) slotHeaderBytes payload = slot
  have hm : (slotHeader crc rec).take 4 = slotMagic := take_left' rfl
  have hf : slot.take slotHeaderBytes = List.replicate slotHeaderBytes 0 := by
    rw [← hs, take_overwrite (by rw [length_replicate]; exact Nat.le_add_right _ _)]
    rfl
  have hh : slotHeader crc ⟨id, 0, []⟩ = slotMagic ++ List.replicate 12 0 := by
    simp only [slotHeader, hc]
    decide
  have hl : overwrite slot 0 slotMagic =
      slotHeader crc ⟨id, 0, []⟩ ++ [] ++ slot.drop slotHeaderBytes := by
    have hd : slot.drop 4 = List.replicate 12 0 ++ slot.drop slotHeaderBytes := by
      conv_lhs => rw [← take_append_drop slotHeaderBytes slot, hf]
      rfl
    rw [overwrite_zero, hh, append_nil, append_assoc, ← hd]
    rfl
  rw [hm, hl]
  have he : (⟨id, 0, []⟩ : EncodedRequestLog).payload.length ≤ maxPayloadBytes := Nat.zero_le _
  exact slotRecord_image he _

variable {codec}

theorem readTerminal_unknown (h : slotRecord crc id slot = none) :
    readTerminal crc codec id (some slot) = .ok none := by
  simp only [readTerminal, h]

theorem readTerminal_known {ev : Event}
    (h : slotRecord crc id slot = some rec) (he : codec.encode ev = .ok rec)
    (hid : codec.id ev = id) : readTerminal crc codec id (some slot) = .ok (some ev) := by
  simp only [readTerminal, h, JournalCodec.decode_encode he]
  exact if_neg (not_not.mpr hid)

end Opening
end AiGateway.RequestLog
