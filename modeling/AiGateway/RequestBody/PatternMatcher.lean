import AiGateway.Lib.Bytes
import AiGateway.Lib.Overlap

/-! The matcher that finds a boundary in a body fed byte by byte. An index out of range and a loop
that has run as often as the number of matched bytes allows both end without a result. -/
namespace AiGateway.RequestBody
open List

open Lib

/-- The inner loop: falls back through the table while the next byte of the pattern differs. -/
def fallBack (pattern : Bytes) (table : List ℕ) (byte : UInt8) : (fuel matched : ℕ) → Option ℕ
  | 0, _ => none
  | fuel + 1, matched =>
    if matched = 0 then some 0
    else do
      let expected ← pattern[matched]?
      if byte ≠ expected then
        let matched ← table[matched - 1]?
        fallBack pattern table byte fuel matched
      else return matched

def advance (pattern : Bytes) (table : List ℕ) (byte : UInt8) (matched : ℕ) : Option ℕ := do
  let matched ← fallBack pattern table byte (matched + 1) matched
  let expected ← pattern[matched]?
  return if byte = expected then matched + 1 else matched

def fillTable (pattern : Bytes) : (rest index matched : ℕ) → (table : List ℕ) → Option (List ℕ)
  | 0, _, _, table => some table
  | rest + 1, index, matched, table => do
    let byte ← pattern[index]?
    let matched ← advance pattern table byte matched
    if index < table.length then
      fillTable pattern rest (index + 1) matched (table.set index matched)
    else none

structure BytePatternMatcher where
  pattern : Bytes
  table : List ℕ
  matched : ℕ
  deriving DecidableEq

namespace BytePatternMatcher

def new (pattern : Bytes) : Option BytePatternMatcher := do
  let table ← fillTable pattern (pattern.length - 1) 1 0 (replicate pattern.length 0)
  return ⟨pattern, table, 0⟩

def push (self : BytePatternMatcher) (byte : UInt8) : Option (Bool × BytePatternMatcher) := do
  let matched ← advance self.pattern self.table byte self.matched
  if matched = self.pattern.length then return (true, { self with matched := 0 })
  else return (false, { self with matched })

def reset (self : BytePatternMatcher) : BytePatternMatcher := { self with matched := 0 }

/-- The answers to bytes fed one at a time. -/
def feed : BytePatternMatcher → Bytes → Option (List Bool × BytePatternMatcher)
  | self, [] => some ([], self)
  | self, byte :: bytes => do
    let (found, self) ← self.push byte
    let (answers, self) ← self.feed bytes
    return (found :: answers, self)

end BytePatternMatcher

variable {p t : Bytes} {table : List ℕ} {b : UInt8} {m n : ℕ}

/-- The table holds the longest overlap of the pattern with the end of each of its prefixes up to
the length `n`, the prefix itself apart. -/
def Filled (p : Bytes) (table : List ℕ) (n : ℕ) : Prop :=
  ∀ k, 0 < k → k ≤ n → ∃ j, table[k - 1]? = some j ∧ Overlap p (p.take k).tail j

theorem fallBack_returns {fuel : ℕ} (hm : m < fuel) (hc : Candidate p t b m)
    (hf : Filled p table m) :
    ∃ j, fallBack p table b fuel m = some j ∧ Candidate p t b j ∧ (j = 0 ∨ p[j]? = some b) := by
  induction fuel generalizing m with
  | zero => exact absurd hm (Nat.not_lt_zero _)
  | succ fuel ih =>
    unfold fallBack
    split_ifs with hz
    · exact ⟨0, rfl, hz ▸ hc, .inl rfl⟩
    · rw [getElem?_eq_getElem hc.lt, Option.bind_eq_bind, Option.bind_some]
      split_ifs with hb
      · obtain ⟨j, hj, ho⟩ := hf m (Nat.pos_of_ne_zero hz) le_rfl
        have ha : p[m]? ≠ some b := by
          rw [getElem?_eq_getElem hc.lt, ne_eq, Option.some.injEq]
          exact fun h => hb h.symm
        obtain ⟨hlt, hcand⟩ := hc.fallBack (Nat.pos_of_ne_zero hz) ha ho
        rw [hj, Option.bind_eq_bind, Option.bind_some]
        exact ih (by omega) hcand (fun k h0 hk => hf k h0 (hk.trans hlt.le))
      · refine ⟨m, rfl, hc, .inr ?_⟩
        rw [getElem?_eq_getElem hc.lt]
        exact congrArg some (not_not.mp hb).symm

theorem advance_returns (ho : Overlap p t m) (hm : m < p.length) (hf : Filled p table m) :
    ∃ k, advance p table b m = some k ∧ Overlap p (t ++ [b]) k := by
  obtain ⟨j, hj, hc, hend⟩ := fallBack_returns (b := b) (Nat.lt_add_one m) (ho.candidate hm) hf
  unfold advance
  simp only [hj, Option.bind_eq_bind, Option.bind_some, getElem?_eq_getElem hc.lt]
  refine ⟨_, rfl, ?_⟩
  split_ifs with hb
  · exact hc.extend (by rw [getElem?_eq_getElem hc.lt, ← hb])
  · have hne : p[j]? ≠ some b := by
      rw [getElem?_eq_getElem hc.lt, ne_eq, Option.some.injEq]
      exact fun h => hb h.symm
    obtain rfl := hend.resolve_right hne
    exact hc.nothing hne

theorem fillTable_returns {rest : ℕ} (hn : n + rest = p.length) (h0 : 0 < n)
    (hl : table.length = p.length) (ho : Overlap p (p.take n).tail m) (hf : Filled p table n) :
    ∃ table', fillTable p rest n m table = some table' ∧ Filled p table' p.length := by
  induction rest generalizing n m table with
  | zero => exact ⟨table, rfl, hn ▸ hf⟩
  | succ rest ih =>
    have hlt : n < p.length := by omega
    have hm : m < n := by
      have hs := ho.suffix.length_le
      simp only [length_take, length_tail] at hs
      omega
    obtain ⟨k, hk, hok⟩ := advance_returns (b := p[n]) ho (hm.trans hlt)
      (fun j hj hjm => hf j hj (hjm.trans hm.le))
    have htail : (p.take n).tail ++ [p[n]] = (p.take (n + 1)).tail := by
      rw [take_succ_eq_append_getElem hlt, tail_append_of_ne_nil]
      rw [ne_eq, take_eq_nil_iff, not_or]
      exact ⟨h0.ne', fun hnil => by simp [hnil] at hlt⟩
    rw [htail] at hok
    unfold fillTable
    simp only [getElem?_eq_getElem hlt, Option.bind_eq_bind, Option.bind_some, hk, hl, hlt, if_true]
    refine ih (by omega) (Nat.succ_pos n) (by rw [length_set, hl]) hok (fun j hj hjn => ?_)
    rcases Nat.lt_or_ge j (n + 1) with hjlt | hge
    · rw [getElem?_set_ne (by omega)]
      exact hf j hj (Nat.le_of_lt_succ hjlt)
    · obtain rfl : j = n + 1 := Nat.le_antisymm hjn hge
      exact ⟨k, getElem?_set_self (hl ▸ hlt), hok⟩

namespace BytePatternMatcher

/-- The matcher has seen the text, in which the pattern does not end. -/
structure Tracks (p t : Bytes) (s : BytePatternMatcher) : Prop where
  pattern : s.pattern = p
  filled : Filled p s.table p.length
  overlap : Overlap p t s.matched
  lt : s.matched < p.length

variable {s : BytePatternMatcher}

theorem Tracks.push (h : Tracks p t s) (b : UInt8) :
    ∃ u, s.push b = some (decide (p <:+ t ++ [b]), u) ∧
      (¬ p <:+ t ++ [b] → Tracks p (t ++ [b]) u) := by
  obtain ⟨k, hk, ho⟩ := advance_returns (b := b) h.overlap h.lt
    (fun j hj hjm => h.filled j hj (hjm.trans h.lt.le))
  unfold BytePatternMatcher.push
  rw [h.pattern, hk, Option.bind_eq_bind, Option.bind_some]
  split_ifs with hfull
  · have hs := ho.eq_length_iff.mp hfull
    rw [decide_eq_true hs]
    exact ⟨_, rfl, fun hn => absurd hs hn⟩
  · have hs : ¬ p <:+ t ++ [b] := fun hs => hfull (ho.eq_length_iff.mpr hs)
    rw [decide_eq_false hs]
    exact ⟨⟨p, s.table, k⟩, rfl, fun _ => ⟨rfl, h.filled, ho, lt_of_le_of_ne ho.le hfull⟩⟩

theorem Tracks.feed (h : Tracks p t s) (fed : Bytes)
    (hnone : ∀ before, before <+: fed → before ≠ [] → ¬ p <:+ t ++ before) :
    ∃ u, s.feed fed = some (replicate fed.length false, u) ∧ Tracks p (t ++ fed) u := by
  induction fed generalizing t s with
  | nil => exact ⟨s, rfl, by rwa [append_nil]⟩
  | cons b fed ih =>
    have hb : ¬ p <:+ t ++ [b] := hnone [b] (prefix_append [b] fed) (cons_ne_nil _ _)
    obtain ⟨next, hp, hnext⟩ := h.push b
    obtain ⟨last, hl, hlast⟩ := ih (hnext hb) (fun before hpre hne => by
      rw [append_assoc]
      exact hnone (b :: before) ((prefix_cons_inj b).mpr hpre) (cons_ne_nil _ _))
    refine ⟨last, ?_, by rwa [append_assoc] at hlast⟩
    simp [BytePatternMatcher.feed, hp, hb, hl, replicate_succ]

/-- Fed from a reset, the matcher answers at the first place where the pattern ends, and until
then counts the longest beginning of the pattern that ends what was fed. -/
theorem push_finds_first (pattern : Bytes) (hne : pattern ≠ []) :
    ∃ made, new pattern = some made ∧ ∀ used fed,
      (∀ before, before <+: fed → ¬ pattern <:+ before) →
      ∃ s, ({ made with matched := used }.reset).feed fed = some (replicate fed.length false, s) ∧
        (s.matched < pattern.length ∧ pattern.take s.matched <:+ fed ∧
          ∀ k < pattern.length, pattern.take k <:+ fed → k ≤ s.matched) ∧
        ∀ byte, ∃ next, s.push byte = some (decide (pattern <:+ fed ++ [byte]), next) := by
  have hpos : 0 < pattern.length := length_pos_iff.mpr hne
  have htail : (pattern.take 1).tail = [] := by
    rw [← length_eq_zero_iff, length_tail, length_take]
    omega
  have ho : Overlap pattern (pattern.take 1).tail 0 := htail ▸ .nil pattern
  have h1 : Filled pattern (replicate pattern.length 0) 1 := by
    intro k h0 hk
    obtain rfl : k = 1 := by omega
    exact ⟨0, by simp [hpos], ho⟩
  obtain ⟨table, ht, hf⟩ :=
    fillTable_returns (Nat.add_sub_cancel' hpos) one_pos length_replicate ho h1
  refine ⟨⟨pattern, table, 0⟩, by simp [new, ht], fun used fed hnone => ?_⟩
  have hstart : Tracks pattern [] ⟨pattern, table, 0⟩ := ⟨rfl, hf, .nil pattern, hpos⟩
  obtain ⟨s, hs, h⟩ := hstart.feed fed (fun before hb _ => hnone before hb)
  refine ⟨s, hs, ⟨h.lt, h.overlap.suffix, fun k hk => h.overlap.longest k hk.le⟩, fun byte => ?_⟩
  obtain ⟨next, hp, -⟩ := h.push byte
  exact ⟨next, hp⟩

/-- Three dashes are found behind another byte. -/
theorem push_finds_first_dashes :
    ∃ made s next, new [45, 45, 45] = some made ∧
      made.reset.feed [65, 45, 45] = some ([false, false, false], s) ∧
      s.push 45 = some (true, next) := by
  obtain ⟨made, hm, h⟩ := push_finds_first [45, 45, 45] (by decide)
  obtain ⟨s, hs, -, hpush⟩ := h 0 [65, 45, 45] (fun before hb => by
    rw [← mem_inits] at hb
    revert before
    decide)
  obtain ⟨next, hn⟩ := hpush 45
  exact ⟨made, s, next, hm, hs, hn⟩

end BytePatternMatcher
end AiGateway.RequestBody
