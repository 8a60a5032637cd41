import Mathlib.Algebra.Order.Ring.Nat

/-! Byte strings and the little-endian encoding of natural numbers. -/
namespace AiGateway.Lib
open List

abbrev Bytes := List UInt8

/-- The lowest `width` base-256 digits, least significant first. -/
def leBytes : ℕ → ℕ → Bytes
  | 0, _ => []
  | width + 1, value => UInt8.ofNat value :: leBytes width (value / 256)

def leNat : Bytes → ℕ
  | [] => 0
  | byte :: bytes => byte.toNat + 256 * leNat bytes

@[simp] theorem length_leBytes (width v : ℕ) : (leBytes width v).length = width := by
  induction width generalizing v with
  | zero => rfl
  | succ width ih => rw [leBytes, length_cons, ih]

theorem leNat_leBytes (width v : ℕ) : leNat (leBytes width v) = v % 256 ^ width := by
  induction width generalizing v with
  | zero => rw [leBytes, leNat, pow_zero, Nat.mod_one]
  | succ width ih =>
    have hb : (UInt8.ofNat v).toNat = v % 256 := UInt8.toNat_ofNat'
    rw [leBytes, leNat, ih, hb, Nat.pow_succ', Nat.mod_mul]

variable {width v off : ℕ} {bs : Bytes} {α : Type} {separator : α} {l piece : List α}

theorem leNat_leBytes_of_lt (h : v < 256 ^ width) : leNat (leBytes width v) = v := by
  rw [leNat_leBytes, Nat.mod_eq_of_lt h]

theorem getElem_leBytes {i : ℕ} (h : i < (leBytes width v).length) :
    (leBytes width v)[i] = UInt8.ofNat (v / 256 ^ i) := by
  induction width generalizing v i with
  | zero => exact absurd h (Nat.not_lt_zero i)
  | succ width ih =>
    cases i with
    | zero => simp [leBytes]
    | succ i => simp only [leBytes, getElem_cons_succ, ih, Nat.div_div_eq_div_mul, Nat.pow_succ']

theorem take_drop_field {pre field after : Bytes}
    (hof : pre.length = off) (hw : field.length = width) :
    ((pre ++ (field ++ after)).drop off).take width = field := by
  subst hof hw
  rw [drop_left, take_left]

/-- A write at a position of a file, whose gap to its end then reads as zeros. -/
def overwrite (bytes : Bytes) (offset : ℕ) (written : Bytes) : Bytes :=
  if written = [] then bytes
  else bytes.take offset ++ List.replicate (offset - bytes.length) 0 ++ written ++
    bytes.drop (offset + written.length)

def resize (bytes : Bytes) (length : ℕ) : Bytes :=
  bytes.take length ++ List.replicate (length - bytes.length) 0

theorem length_overwrite_le (bs : Bytes) (off : ℕ) (written : Bytes) :
    (overwrite bs off written).length ≤ max bs.length (off + written.length) := by
  unfold overwrite
  split_ifs
  · exact le_max_left _ _
  · simp only [length_append, length_take, length_replicate, length_drop]
    omega

theorem overwrite_zero (bs written : Bytes) :
    overwrite bs 0 written = written ++ bs.drop written.length := by
  unfold overwrite
  split_ifs with he
  · rw [he]
    rfl
  · simp

theorem drop_overwrite (bs : Bytes) (off : ℕ) (written : Bytes) :
    (overwrite bs off written).drop off = written ++ bs.drop (off + written.length) := by
  unfold overwrite
  split_ifs with he
  · rw [he]
    rfl
  · have hl : (bs.take off ++ List.replicate (off - bs.length) (0 : UInt8)).length = off := by
      simp only [length_append, length_take, length_replicate]
      omega
    rw [append_assoc, drop_left' hl]

theorem take_overwrite (h : off ≤ bs.length)
    (written : Bytes) : (overwrite bs off written).take off = bs.take off := by
  unfold overwrite
  split_ifs
  · rfl
  · rw [Nat.sub_eq_zero_of_le h, replicate_zero, append_nil, append_assoc,
      take_left' (length_take_of_le h)]

theorem resize_of_le {length : ℕ} (h : length ≤ bs.length) :
    resize bs length = bs.take length := by
  rw [resize, Nat.sub_eq_zero_of_le h, replicate_zero, append_nil]

theorem length_resize (bs : Bytes) (length : ℕ) : (resize bs length).length = length := by
  simp only [resize, length_append, length_take, length_replicate]
  omega

/-- The reflected CRC-32 of one more byte. -/
def crc32Byte (crc : UInt32) (byte : UInt8) : UInt32 :=
  (List.range 8).foldl (fun c _ => if c &&& 1 = 1 then (c >>> 1) ^^^ 0xEDB88320 else c >>> 1)
    (crc ^^^ byte.toUInt32)

def crc32 (bytes : Bytes) : UInt32 := bytes.foldl crc32Byte 0xFFFFFFFF ^^^ 0xFFFFFFFF

example : crc32 [0x31, 0x32, 0x33, 0x34, 0x35, 0x36, 0x37, 0x38, 0x39] = 0xCBF43926 := by
  decide +kernel

theorem not_mem_of_mem_splitOn [DecidableEq α]
    (h : piece ∈ l.splitOn separator) : separator ∉ piece := by
  induction l generalizing piece with
  | nil =>
    rw [splitOn_nil, mem_singleton] at h
    rw [h]
    exact not_mem_nil
  | cons a l ih =>
    rw [splitOn_cons_eq_if_modifyHead] at h
    split_ifs at h with ha
    · rcases mem_cons.mp h with rfl | hm
      · exact not_mem_nil
      · exact ih hm
    · obtain ⟨head, tail, hs⟩ := exists_cons_of_ne_nil (splitOn_ne_nil separator l)
      rw [hs] at h ih
      rcases mem_cons.mp h with rfl | hm
      · refine not_mem_cons_of_ne_of_not_mem (fun heq => ha ?_) (ih mem_cons_self)
        rw [heq]
        exact BEq.rfl
      · exact ih (mem_cons_of_mem _ hm)

/-- The pieces between the separators, put together again. -/
theorem splitOn_join [DecidableEq α] (separator : α) (l : List α) :
    ∃ head tail, l.splitOn separator = head :: tail ∧ l = head ++ tail.flatMap (separator :: ·) := by
  induction l with
  | nil => exact ⟨[], [], splitOn_nil separator, rfl⟩
  | cons a l ih =>
    obtain ⟨head, tail, hs, hj⟩ := ih
    rw [splitOn_cons_eq_if_modifyHead, hs]
    split_ifs with ha
    · rw [beq_iff_eq.mp ha]
      exact ⟨[], head :: tail, rfl, congrArg (separator :: ·) hj⟩
    · exact ⟨a :: head, tail, rfl, congrArg (a :: ·) hj⟩

theorem mem_of_mem_splitOn [DecidableEq α] {a : α}
    (h : piece ∈ l.splitOn separator) (ha : a ∈ piece) : a ∈ l := by
  obtain ⟨head, tail, hs, hj⟩ := splitOn_join separator l
  rw [hs] at h
  rw [hj]
  rcases mem_cons.mp h with rfl | hm
  · exact mem_append_left _ ha
  · exact mem_append_right _ (mem_flatMap.mpr ⟨piece, hm, mem_cons_of_mem _ ha⟩)

end AiGateway.Lib
