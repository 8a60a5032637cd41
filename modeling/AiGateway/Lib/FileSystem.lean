import AiGateway.Lib.Bytes
import AiGateway.Lib.Table

/-! Files named by paths, the operations programs perform on them, and what an operation that
is cut short leaves behind. -/
namespace AiGateway.Lib
open Option Table

/-- File offsets are signed 64-bit numbers. -/
def maxFileBytes : ℕ := 2 ^ 63 - 1

abbrev Content := { bytes : Bytes // bytes.length ≤ maxFileBytes }

namespace Content

def empty : Content := ⟨[], Nat.zero_le _⟩

/-- A file as large as the file system allows, or none. -/
def ofBytes (bytes : Bytes) : Option Content :=
  if h : bytes.length ≤ maxFileBytes then some ⟨bytes, h⟩ else none

theorem ofBytes_eq_some_iff {bs : Bytes} {ct : Content} :
    ofBytes bs = some ct ↔ ct.val = bs := by
  unfold ofBytes
  split_ifs with h
  · rw [Option.some.injEq, Subtype.ext_iff, eq_comm]
  · constructor
    · intro hn
      cases hn
    · intro heq
      exact absurd (heq ▸ ct.property) h

end Content

abbrev Files (P : Type) := Table P Content

/-- The operations of a program on files in directories. -/
inductive FileOp (P D : Type) where
  /-- Open for writing, creating an empty file when there is none. -/
  | create (path : P)
  | createNew (path : P)
  | truncate (path : P)
  | append (path : P) (bytes : Bytes)
  | writeAt (path : P) (offset : ℕ) (bytes : Bytes)
  | setLen (path : P) (length : ℕ)
  | allocate (path : P) (length : ℕ)
  | sync (path : P)
  | syncDirectory (directory : D)
  | rename (source target : P)
  /-- A missing file counts as removed. -/
  | remove (path : P)
  deriving DecidableEq

namespace FileOp
variable {P D : Type} [DecidableEq P]

def edit (files : Files P) (path : P) (f : Bytes → Bytes) : Option (Files P) :=
  (files.get path).bind (fun content =>
    (Content.ofBytes (f content.val)).map (fun content => files.insert path content))

/-- The files after an operation, or none when it fails by its nature. -/
def run : FileOp P D → Files P → Option (Files P)
  | .create path, files =>
    some (if (files.get path).isSome then files else files.insert path .empty)
  | .createNew path, files =>
    if (files.get path).isSome then none else some (files.insert path .empty)
  | .truncate path, files => some (files.insert path .empty)
  | .append path bytes, files => edit files path (· ++ bytes)
  | .writeAt path offset bytes, files => edit files path (overwrite · offset bytes)
  | .setLen path length, files => edit files path (resize · length)
  | .allocate path length, files => edit files path (fun bytes => resize bytes (max bytes.length length))
  | .sync path, files => (files.get path).map (fun _ => files)
  | .syncDirectory _, files => some files
  | .rename source target, files =>
    (files.get source).map (fun content => (files.erase source).insert target content)
  | .remove path, files => some (files.erase path)

/-- The part of an operation that takes effect when it is cut after some bytes: a write keeps
a prefix, anything else has no effect. -/
def cut (kept : ℕ) : FileOp P D → Option (FileOp P D)
  | .append path bytes => some (.append path (bytes.take kept))
  | .writeAt path offset bytes => some (.writeAt path offset (bytes.take kept))
  | .create _ | .createNew _ | .truncate _ | .setLen _ _ | .allocate _ _ | .sync _
  | .syncDirectory _ | .rename _ _ | .remove _ => none

/-- The paths an operation may change. -/
def touches (path : P) : FileOp P D → Bool
  | .create p | .createNew p | .truncate p | .append p _ | .writeAt p _ _ | .setLen p _
  | .allocate p _ | .remove p => p = path
  | .sync _ | .syncDirectory _ => false
  | .rename source target => source = path || target = path

variable {files files' : Files P} {path : P} {f : Bytes → Bytes} {op : FileOp P D}

theorem edit_eq_some
    (h : edit files path f = some files') : ∃ ct ct', files.get path = some ct ∧
      ct'.val = f ct.val ∧ files' = files.insert path ct' := by
  obtain ⟨ct, hg, h⟩ := bind_eq_some_iff.mp h
  obtain ⟨ct', hc, rfl⟩ := map_eq_some_iff.mp h
  exact ⟨ct, ct', hg, Content.ofBytes_eq_some_iff.mp hc, rfl⟩

theorem edit_of_get {ct ct' : Content}
    (hg : files.get path = some ct) (he : ct'.val = f ct.val) :
    edit files path f = some (files.insert path ct') := by
  unfold edit
  rw [hg, bind_some, Content.ofBytes_eq_some_iff.mpr he, map_some]

/-- The frame rule: an operation leaves the other files alone. -/
theorem run_get_of_not_touches (hr : op.run files = some files') (h : op.touches path = false) :
    files'.get path = files.get path := by
  cases op with
  | create p =>
    have hne : path ≠ p := fun heq => by simp [touches, heq] at h
    cases hr
    split_ifs
    · rfl
    · exact get_insert_ne files _ hne
  | createNew p =>
    have hne : path ≠ p := fun heq => by simp [touches, heq] at h
    simp only [run] at hr
    split_ifs at hr
    cases hr
    exact get_insert_ne files _ hne
  | truncate p =>
    have hne : path ≠ p := fun heq => by simp [touches, heq] at h
    cases hr
    exact get_insert_ne files _ hne
  | append p bs | writeAt p off bs | setLen p length | allocate p length =>
    have hne : path ≠ p := fun heq => by simp [touches, heq] at h
    simp only [run] at hr
    obtain ⟨ct, ct', -, -, rfl⟩ := edit_eq_some hr
    exact get_insert_ne files _ hne
  | sync p =>
    obtain ⟨-, -, rfl⟩ := map_eq_some_iff.mp hr
    rfl
  | syncDirectory d =>
    cases hr
    rfl
  | rename src target =>
    simp only [touches, Bool.or_eq_false_iff, decide_eq_false_iff_not] at h
    obtain ⟨ct, -, rfl⟩ := map_eq_some_iff.mp hr
    rw [get_insert_ne _ _ (Ne.symm h.2), get_erase_ne _ (Ne.symm h.1)]
  | remove p =>
    have hne : path ≠ p := fun heq => by simp [touches, heq] at h
    cases hr
    exact get_erase_ne files hne

theorem touches_cut {part : FileOp P D} {kept : ℕ} (h : op.cut kept = some part) (path : P) :
    part.touches path = op.touches path := by
  cases op <;> cases h <;> rfl

end FileOp
end AiGateway.Lib
