import AiGateway.Lib.Base64
import AiGateway.Lib.Checked

/-! Images of a request are written as base64 while they are read, in whatever chunks they come. -/
namespace AiGateway.RequestBody
open List

open Lib Lib.Stage

inductive ImageEditBodyError where
  | malformedMultipart | fileTooLarge | bodyTooLarge | storageFailed
  deriving DecidableEq

/-- Contents in memory or in a file. -/
structure ReplayableBodyWriter where
  maxBytes : ℕ
  body : Bytes
  deriving DecidableEq

/-- Whether the storage takes the new contents is not up to the writer. -/
def ReplayableBodyWriter.write (stores : Bytes → Bool) (self : ReplayableBodyWriter)
    (bytes : Bytes) : Except ImageEditBodyError ReplayableBodyWriter := do
  let next := self.body.length + bytes.length
  ensure (decide (next < 2 ^ 64) && decide (next ≤ self.maxBytes)) .bodyTooLarge
  ensure (stores (self.body ++ bytes)) .storageFailed
  return { self with body := self.body ++ bytes }

def ReplayableBodyWriter.writeIf (stores : Bytes → Bool) (self : ReplayableBodyWriter)
    (condition : Bool) (bytes : Bytes) : Except ImageEditBodyError ReplayableBodyWriter :=
  if condition then self.write stores bytes else .ok self

def base64EncodedLen (length : ℕ) : ℕ := min (min (length + 2) (2 ^ 64 - 1) / 3 * 4) (2 ^ 64 - 1)

structure FieldProgress where
  remainder : Bytes
  length : ℕ
  writer : ReplayableBodyWriter

/-- A chunk that cannot be read is `none`. -/
def writeChunk (stores : Bytes → Bool) (maxFileBytes : ℕ) (progress : FieldProgress)
    (chunk : Option Bytes) : Except ImageEditBodyError FieldProgress := do
  let chunk ← orReject chunk .malformedMultipart
  let length := min (progress.length + chunk.length) (2 ^ 64 - 1)
  ensure (decide (length ≤ maxFileBytes)) .fileTooLarge
  let input := progress.remainder ++ chunk
  let encodeBytes := input.length / 3 * 3
  let writer ← progress.writer.writeIf stores (decide (0 < encodeBytes))
    (Base64.encode (input.take encodeBytes))
  return ⟨input.drop encodeBytes, length, writer⟩

def writeBase64Field (stores : Bytes → Bool) (maxFileBytes : ℕ) (writer : ReplayableBodyWriter)
    (chunks : List (Option Bytes)) : Except ImageEditBodyError ReplayableBodyWriter := do
  let progress ← chunks.foldlM (writeChunk stores maxFileBytes) ⟨[], 0, writer⟩
  progress.writer.writeIf stores (!progress.remainder.isEmpty) (Base64.encode progress.remainder)

variable {stores : Bytes → Bool} {maxFileBytes : ℕ} {w u : ReplayableBodyWriter}

/-- The writer takes the bytes. -/
def Takes (stores : Bytes → Bool) (w : ReplayableBodyWriter) (bytes : Bytes) : Prop :=
  w.body.length + bytes.length < 2 ^ 64 ∧ w.body.length + bytes.length ≤ w.maxBytes ∧
    stores (w.body ++ bytes) = true

/-- A write that is skipped when there is nothing to write. -/
theorem writeIf_eq_ok {condition : Bool} {bytes : Bytes} (hc : condition = false → bytes = []) :
    w.writeIf stores condition bytes = .ok u ↔
      (condition = true → Takes stores w bytes) ∧ ⟨w.maxBytes, w.body ++ bytes⟩ = u := by
  cases condition with
  | true =>
    simp only [ReplayableBodyWriter.writeIf, if_true, ReplayableBodyWriter.write, Takes, bind_eq_ok,
      ensure_eq_ok, Bool.and_eq_true, decide_eq_true_iff]
    constructor
    · rintro ⟨⟨⟩, ⟨h64, hmax⟩, ⟨⟩, hs, ⟨⟩⟩
      exact ⟨fun _ => ⟨h64, hmax, hs⟩, rfl⟩
    · rintro ⟨ht, rfl⟩
      obtain ⟨h64, hmax, hs⟩ := ht trivial
      exact ⟨(), ⟨h64, hmax⟩, (), hs, rfl⟩
  | false =>
    rw [hc rfl, append_nil]
    exact ⟨fun hw => ⟨Bool.noConfusion, Except.ok.inj hw⟩, fun hw => congrArg Except.ok hw.2⟩

/-- What was read is written, up to the bytes of an unfinished group. -/
structure Written (w : ReplayableBodyWriter) (read : Bytes) (p : FieldProgress) : Prop where
  length : p.length ≤ read.length
  split : ∃ whole, read = whole ++ p.remainder ∧ whole.length % 3 = 0 ∧
    p.writer = ⟨w.maxBytes, w.body ++ Base64.encode whole⟩ ∧ (Base64.encode whole).length < 2 ^ 64

/-- The field and its text are within the limits. -/
def Fits (maxFileBytes : ℕ) (w : ReplayableBodyWriter) (read : Bytes) : Prop :=
  read.length ≤ maxFileBytes ∧
    w.body.length + (Base64.encode read).length ≤ min w.maxBytes (2 ^ 64 - 1)

variable {p q : FieldProgress} {read c : Bytes}

theorem Fits.of_append (h : Fits maxFileBytes w (read ++ c)) : Fits maxFileBytes w read := by
  unfold Fits at h ⊢
  rw [Base64.length_encode, length_append] at h
  rw [Base64.length_encode]
  omega

/-- One chunk: what it leaves, and that it is written within the limits. -/
theorem Written.chunk (h : Written w read p) :
    (∀ q, writeChunk stores maxFileBytes p (some c) = .ok q → Written w (read ++ c) q) ∧
      ((∀ bytes, stores bytes = true) → Fits maxFileBytes w (read ++ c) →
        ∃ q, writeChunk stores maxFileBytes p (some c) = .ok q) := by
  obtain ⟨hl, whole, rfl, hw, hwr, hb⟩ := h
  unfold writeChunk
  simp only [bind_eq_ok, orReject_eq_ok, ensure_eq_ok, decide_eq_true_iff, Option.some.injEq,
    exists_eq_left']
  have hi : (p.remainder ++ c).length = p.remainder.length + c.length := length_append
  rw [append_assoc]
  rw [length_append] at hl
  generalize p.remainder ++ c = input at hi ⊢
  have hskip (hn : decide (0 < input.length / 3 * 3) = false) :
      Base64.encode (input.take (input.length / 3 * 3)) = [] := by
    rw [Nat.eq_zero_of_not_pos (of_decide_eq_false hn), take_zero, Base64.encode]
  have hlen : (Base64.encode whole ++ Base64.encode (input.take (input.length / 3 * 3))).length ≤
      (Base64.encode (whole ++ input)).length := by
    rw [Base64.encode_append hw, length_append, length_append, Base64.length_encode (take _ _),
      Base64.length_encode input, length_take]
    omega
  constructor
  · rintro q ⟨⟨⟩, -, v, hv, ⟨⟩⟩
    obtain ⟨ht, rfl⟩ := (writeIf_eq_ok hskip).mp hv
    refine ⟨?_, whole ++ input.take (input.length / 3 * 3), ?_, ?_, ?_, ?_⟩
    · rw [length_append]
      exact (Nat.min_le_left _ _).trans (by omega)
    · rw [append_assoc, take_append_drop]
    · rw [length_append, length_take]
      omega
    · rw [hwr, Base64.encode_append hw, append_assoc]
    · rw [Base64.encode_append hw, length_append]
      by_cases hn : 0 < input.length / 3 * 3
      · have h64 := (ht (decide_eq_true hn)).1
        rw [hwr, length_append] at h64
        omega
      · rwa [hskip (decide_eq_false hn), length_nil, Nat.add_zero]
  · rintro hst ⟨hmax, hfit⟩
    refine ⟨_, (), ?_, _, (writeIf_eq_ok hskip).mpr ⟨fun _ => ?_, rfl⟩, rfl⟩
    · rw [length_append] at hmax
      omega
    · rw [length_append] at hlen
      unfold Takes
      rw [hwr, length_append]
      exact ⟨by omega, show _ ≤ w.maxBytes by omega, hst _⟩

theorem Written.chunks (h : Written w read p) (cs : List Bytes) :
    (∀ q, (cs.map some).foldlM (writeChunk stores maxFileBytes) p = .ok q →
      Written w (read ++ cs.flatten) q) ∧
    ((∀ bytes, stores bytes = true) → Fits maxFileBytes w (read ++ cs.flatten) →
      ∃ q, (cs.map some).foldlM (writeChunk stores maxFileBytes) p = .ok q) := by
  induction cs generalizing read p with
  | nil =>
    refine ⟨fun q hq => ?_, fun _ _ => ⟨p, rfl⟩⟩
    cases hq
    rwa [flatten_nil, append_nil]
  | cons c cs ih =>
    simp only [map_cons, foldlM_cons, bind_eq_ok, flatten_cons, ← append_assoc]
    constructor
    · rintro q ⟨next, hn, hq⟩
      exact (ih (h.chunk.1 next hn)).1 q hq
    · intro hst hf
      obtain ⟨next, hn⟩ := h.chunk.2 hst hf.of_append
      obtain ⟨q, hq⟩ := (ih (h.chunk.1 next hn)).2 hst hf
      exact ⟨q, next, hn, hq⟩

/-- Several texts against the text of all their bytes. -/
theorem length_encode_sum (fields : List Bytes) (hne : fields ≠ []) :
    let total := ((fields.map length).sum + 2) / 3 * 4
    let sum := (fields.map (fun field => (Base64.encode field).length)).sum
    total ≤ sum ∧ sum ≤ total + 4 * (fields.length - 1) := by
  induction fields with
  | nil => exact absurd rfl hne
  | cons field fields ih =>
    cases fields with
    | nil => simp [Base64.length_encode]
    | cons second fields =>
      have hsum := ih (cons_ne_nil _ _)
      simp only [map_cons, sum_cons, length_cons, Base64.length_encode] at hsum ⊢
      omega

theorem base64EncodedLen_eq {n : ℕ} (h : (n + 2) / 3 * 4 < 2 ^ 64) :
    base64EncodedLen n = (n + 2) / 3 * 4 := by
  unfold base64EncodedLen
  omega

/-- The text of a field is the base64 of its bytes, in whatever chunks they come, and as long as
computed; a field within the limits is written. The texts of several fields are longer than
computed from their total by four bytes for each further field at most. -/
theorem base64_field_exact (stores : Bytes → Bool) (maxFileBytes : ℕ) (w : ReplayableBodyWriter)
    (chunks : List Bytes) :
    (∀ u, writeBase64Field stores maxFileBytes w (chunks.map some) = .ok u →
      u.body = w.body ++ Base64.encode chunks.flatten ∧
        (Base64.encode chunks.flatten).length = base64EncodedLen chunks.flatten.length) ∧
    ((∀ bytes, stores bytes = true) → Fits maxFileBytes w chunks.flatten →
      ∃ u, writeBase64Field stores maxFileBytes w (chunks.map some) = .ok u) ∧
    ∀ fields : List Bytes, fields ≠ [] →
      (fields.map (fun field => (Base64.encode field).length)).sum < 2 ^ 64 →
      (fields.map (fun field => (Base64.encode field).length)).sum ≤
        base64EncodedLen (fields.map length).sum + 4 * (fields.length - 1) := by
  have hstart : Written w [] ⟨[], 0, w⟩ := ⟨le_rfl, [], rfl, rfl, by simp [Base64.encode]⟩
  have hskip (p : FieldProgress) (hr : (!p.remainder.isEmpty) = false) :
      Base64.encode p.remainder = [] := by
    have hnil : p.remainder = [] := by simpa using hr
    rw [hnil, Base64.encode]
  refine ⟨fun u hu => ?_, fun hst hf => ?_, fun fields hne h64 => ?_⟩
  · obtain ⟨p, hp, hw⟩ := bind_eq_ok.mp hu
    obtain ⟨-, whole, hread, hwhole, hwr, hb⟩ := (hstart.chunks chunks).1 p hp
    obtain ⟨ht, rfl⟩ := (writeIf_eq_ok (hskip p)).mp hw
    rw [nil_append] at hread
    have henc : Base64.encode chunks.flatten = Base64.encode whole ++ Base64.encode p.remainder := by
      rw [hread, Base64.encode_append hwhole]
    refine ⟨by rw [hwr, henc, append_assoc], ?_⟩
    have h64 : (Base64.encode chunks.flatten).length < 2 ^ 64 := by
      rw [henc, length_append]
      cases hr : !p.remainder.isEmpty with
      | true =>
        have h64 := (ht hr).1
        rw [hwr, length_append] at h64
        omega
      | false => rwa [hskip p hr, length_nil, Nat.add_zero]
    rw [Base64.length_encode] at h64 ⊢
    exact (base64EncodedLen_eq h64).symm
  · obtain ⟨p, hp⟩ := (hstart.chunks chunks).2 hst hf
    obtain ⟨-, whole, hread, hwhole, hwr, -⟩ := (hstart.chunks chunks).1 p hp
    obtain ⟨-, hfit⟩ := hf
    rw [nil_append] at hread
    rw [hread, Base64.encode_append hwhole, length_append] at hfit
    refine ⟨_, bind_eq_ok.mpr ⟨p, hp, (writeIf_eq_ok (hskip p)).mpr ⟨fun _ => ?_, rfl⟩⟩⟩
    unfold Takes
    rw [hwr, length_append]
    exact ⟨by omega, show _ ≤ w.maxBytes by omega, hst _⟩
  · obtain ⟨hle, hsum⟩ := length_encode_sum fields hne
    rwa [base64EncodedLen_eq (hle.trans_lt h64)]

end AiGateway.RequestBody
