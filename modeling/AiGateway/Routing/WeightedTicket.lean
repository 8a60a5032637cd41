import AiGateway.Routing.Candidates
import AiGateway.Routing.Cooldown

/-! Weighted random selection: a ticket below the total eligible weight is drawn by
rejection sampling and handed to the candidate whose weight interval contains it. -/
namespace AiGateway.Routing
open Domain List Option

abbrev Entropy := Stream' Word

def splitmix (z : Word) : Word :=
  let z := (z ^^^ (z >>> 30)) * 0xbf58476d1ce4e5b9#64
  let z := (z ^^^ (z >>> 27)) * 0x94d049bb133111eb#64
  z ^^^ (z >>> 31)

def entropyIncrement : Word := 0x9e3779b97f4a7c15#64

/-- The entropy source of the process, with the counter it has reached. -/
def processEntropy (counter : Word) : Entropy :=
  fun n => splitmix (counter + (BitVec.ofNat 64 (n + 1)) * entropyIncrement)

namespace WeightedTicket

/-- Numbers at or above the zone are rejected, so that tickets are uniform. -/
def zone (total : ℕ) : ℕ := (2 ^ 64 - 1) - (2 ^ 64 - 1) % total

/-- `none` when the fuel runs out before a number is accepted. -/
def drawTicket (total : ℕ) : ℕ → Entropy → Option (ℕ × Entropy)
  | 0, _ => none
  | fuel + 1, entropy =>
    if entropy.head.toNat < zone total then some (entropy.head.toNat % total, entropy.tail)
    else drawTicket total fuel entropy.tail

structure Scan where
  remaining : ℕ
  observedTotal : ℕ
  selected : Option CompiledCandidate

def Scan.visit (s : Scan) (candidate : CompiledCandidate) : Scan :=
  let s := { s with observedTotal := (s.observedTotal + candidate.weight) % 2 ^ 64 }
  if s.selected.isNone ∧ s.remaining < candidate.weight then { s with selected := some candidate }
  else if s.selected.isNone then { s with remaining := s.remaining - candidate.weight }
  else s

def scan (ticket : ℕ) (candidates : List CompiledCandidate)
    (eligible : CompiledCandidate → Bool) : Scan :=
  candidates.foldl (fun s candidate => if eligible candidate then s.visit candidate else s)
    ⟨ticket, 0, none⟩

def weightSum (candidates : List CompiledCandidate) : ℕ :=
  (candidates.map CompiledCandidate.weight).sum

end WeightedTicket

open WeightedTicket

/-- `none` when the fuel runs out, otherwise the selected candidate, if any. The total is
taken afresh after a scan that observed another one. -/
def weightedTicket (candidates : List CompiledCandidate) (eligible : CompiledCandidate → Bool) :
    ℕ → Entropy → Option (Option CompiledCandidate × Entropy)
  | 0, _ => none
  | fuel + 1, entropy =>
    let total := weightSum (candidates.filter eligible) % 2 ^ 64
    if total = 0 then some (none, entropy)
    else
      match drawTicket total fuel entropy with
      | none => none
      | some (ticket, entropy) =>
        let s := scan ticket candidates eligible
        if s.observedTotal = total then some (s.selected, entropy)
        else weightedTicket candidates eligible fuel entropy

namespace WeightedTicket

variable {total : ℕ} {entropy : Entropy}

theorem zone_ge (hpos : 0 < total) (hlt : total < 2 ^ 64) : 2 ^ 63 ≤ zone total := by
  have hm := Nat.mod_lt (2 ^ 64 - 1) hpos
  have hd := Nat.div_add_mod (2 ^ 64 - 1) total
  have hq : 1 ≤ (2 ^ 64 - 1) / total := (Nat.one_le_div_iff hpos).mpr (by omega)
  have hmu : total ≤ total * ((2 ^ 64 - 1) / total) := Nat.le_mul_of_pos_right total hq
  unfold zone
  omega

theorem zone_lt (total : ℕ) : zone total < 2 ^ 64 := by
  unfold zone
  omega

variable {fuel : ℕ} {s : Scan} {win c : CompiledCandidate}

theorem drawTicket_lt {rest : Entropy} {ticket : ℕ} (hpos : 0 < total)
    (h : drawTicket total fuel entropy = some (ticket, rest)) : ticket < total := by
  induction fuel generalizing entropy with
  | zero => cases h
  | succ fuel ih =>
    unfold drawTicket at h
    split_ifs at h with ha
    · cases h
      exact Nat.mod_lt _ hpos
    · exact ih h

theorem drawTicket_returns (hpos : 0 < total) (hlt : total < 2 ^ 64) {n : ℕ}
    (hn : (entropy.get n).toNat < 2 ^ 63) (hf : n < fuel) :
    (drawTicket total fuel entropy).isSome = true := by
  have hz := zone_ge hpos hlt
  induction fuel generalizing entropy n with
  | zero => omega
  | succ fuel ih =>
    unfold drawTicket
    split_ifs with ha
    · rfl
    · cases n with
      | zero => exact absurd (lt_of_lt_of_le hn hz) ha
      | succ n => exact ih hn (by omega)

/-- Numbers that are all rejected keep the draw from ever returning. -/
theorem drawTicket_stuck (h : ∀ n, zone total ≤ (entropy.get n).toNat) (fuel : ℕ) :
    drawTicket total fuel entropy = none := by
  induction fuel generalizing entropy with
  | zero => rfl
  | succ fuel ih =>
    unfold drawTicket
    rw [if_neg (not_lt.mpr (h 0))]
    exact ih (fun n => h (n + 1))

theorem scan_eq_filter (ticket : ℕ) (cs : List CompiledCandidate)
    (el : CompiledCandidate → Bool) :
    scan ticket cs el = (cs.filter el).foldl Scan.visit ⟨ticket, 0, none⟩ := foldl_filter.symm

theorem visit_observedTotal (s : Scan) (c : CompiledCandidate) :
    (s.visit c).observedTotal = (s.observedTotal + c.weight) % 2 ^ 64 := by
  unfold Scan.visit
  dsimp only
  split_ifs <;> rfl

theorem visit_of_selected (h : s.selected = some win)
    (c : CompiledCandidate) : (s.visit c).selected = some win := by
  simp [Scan.visit, h]

theorem foldl_observedTotal (es : List CompiledCandidate) (s : Scan) (hs : s.observedTotal < 2 ^ 64) :
    (es.foldl Scan.visit s).observedTotal = (s.observedTotal + weightSum es) % 2 ^ 64 := by
  induction es generalizing s with
  | nil => exact (Nat.mod_eq_of_lt hs).symm
  | cons c es ih =>
    have hlt : (s.visit c).observedTotal < 2 ^ 64 := by
      rw [visit_observedTotal]
      exact Nat.mod_lt _ (by omega)
    have hsp : weightSum (c :: es) = c.weight + weightSum es := rfl
    rw [foldl_cons, ih _ hlt, visit_observedTotal]
    omega

theorem foldl_selected_of_some (es : List CompiledCandidate) (h : s.selected = some win) :
    (es.foldl Scan.visit s).selected = some win := by
  induction es generalizing s with
  | nil => exact h
  | cons c es ih => exact ih (visit_of_selected h c)

/-- A ticket below the total weight of the scanned candidates selects one of them. -/
theorem foldl_selected (es : List CompiledCandidate) (s : Scan) (h : s.selected = none)
    (hlt : s.remaining < weightSum es) :
    ∃ win ∈ es, (es.foldl Scan.visit s).selected = some win := by
  induction es generalizing s with
  | nil => exact absurd hlt (Nat.not_lt_zero _)
  | cons c es ih =>
    have hs : weightSum (c :: es) = c.weight + weightSum es := rfl
    by_cases hc : s.remaining < c.weight
    · refine ⟨c, mem_cons_self, foldl_selected_of_some es ?_⟩
      simp [Scan.visit, h, hc]
    · have hn : (s.visit c).selected = none ∧
          (s.visit c).remaining = s.remaining - c.weight := by simp [Scan.visit, h, hc]
      obtain ⟨win, hm, hw⟩ := ih (s.visit c) hn.1 (by omega)
      exact ⟨win, mem_cons_of_mem _ hm, hw⟩

section Spec
variable {cs : List CompiledCandidate} {el : CompiledCandidate → Bool}
  {es : List CompiledCandidate} {rest : Entropy} {sel : Option CompiledCandidate}

theorem weightSum_eq_zero_iff (hpos : ∀ c ∈ es, 0 < c.weight) : weightSum es = 0 ↔ es = [] := by
  cases es with
  | nil => simp [weightSum]
  | cons c es =>
    have hs : weightSum (c :: es) = c.weight + weightSum es := rfl
    have hc := hpos c mem_cons_self
    simp only [reduceCtorEq, iff_false]
    omega

theorem weightSum_filter_lt (hsum : weightSum cs < 2 ^ 64)
    (el : CompiledCandidate → Bool) : weightSum (cs.filter el) < 2 ^ 64 :=
  lt_of_le_of_lt ((filter_sublist.map _).sum_le_sum (fun _ _ => Nat.zero_le _)) hsum

/-- With no other thread acting, the first scan observes the total the ticket was drawn for. -/
theorem weightedTicket_succ (hsum : weightSum (cs.filter el) < 2 ^ 64) (fuel : ℕ)
    (entropy : Entropy) :
    weightedTicket cs el (fuel + 1) entropy =
      if weightSum (cs.filter el) = 0 then some (none, entropy)
      else (drawTicket (weightSum (cs.filter el)) fuel entropy).map
        (fun draw => ((scan draw.1 cs el).selected, draw.2)) := by
  have ht := Nat.mod_eq_of_lt hsum
  unfold weightedTicket
  rw [ht]
  dsimp only
  split_ifs with hz
  · rfl
  · cases hd : drawTicket (weightSum (cs.filter el)) fuel entropy with
    | none => rfl
    | some draw =>
      obtain ⟨ticket, rest⟩ := draw
      have hob : (scan ticket cs el).observedTotal = weightSum (cs.filter el) := by
        rw [scan_eq_filter, foldl_observedTotal _ _ (by norm_num), Nat.zero_add, ht]
      simp only [hob, if_true, map_some]

theorem filter_weightSum_eq_zero_iff (hpos : ∀ c ∈ cs, 0 < c.weight)
    (el : CompiledCandidate → Bool) :
    weightSum (cs.filter el) = 0 ↔ ∀ c ∈ cs, el c = false := by
  rw [weightSum_eq_zero_iff (fun c hc => hpos c (mem_filter.mp hc).1)]
  simp

variable {fuel : ℕ} {entropy : Entropy}

section
variable (hsum : weightSum cs < 2 ^ 64) (hpos : ∀ c ∈ cs, 0 < c.weight)
  (h : weightedTicket cs el fuel entropy = some (sel, rest))
include hsum hpos h

/-- A draw that returns selects an eligible candidate exactly when there is one. -/
theorem weightedTicket_sound :
    (sel = none ↔ ∀ c ∈ cs, el c = false) ∧ ∀ c, sel = some c → c ∈ cs ∧ el c = true := by
  have hz := filter_weightSum_eq_zero_iff hpos el
  cases fuel with
  | zero => cases h
  | succ fuel =>
    rw [weightedTicket_succ (weightSum_filter_lt hsum _)] at h
    split_ifs at h with hn
    · cases h
      exact ⟨⟨fun _ => hz.mp hn, fun _ => rfl⟩, by simp⟩
    · obtain ⟨⟨ticket, entropy'⟩, hd, hm⟩ := map_eq_some_iff.mp h
      have hlt := drawTicket_lt (Nat.pos_of_ne_zero hn) hd
      obtain ⟨win, hme, hw⟩ := foldl_selected _ ⟨ticket, 0, none⟩ rfl hlt
      rw [← scan_eq_filter] at hw
      simp only [hw, Prod.mk.injEq] at hm
      obtain ⟨rfl, rfl⟩ := hm
      refine ⟨⟨by simp, fun ha => absurd (hz.mpr ha) hn⟩, ?_⟩
      rintro c hc
      cases hc
      exact mem_filter.mp hme

/-- A call that finds no candidate eligible draws nothing. -/
theorem weightedTicket_none_entropy (hn : sel = none) : rest = entropy := by
  have ha := (weightedTicket_sound hsum hpos h).1.mp hn
  cases fuel with
  | zero => cases h
  | succ fuel =>
    rw [weightedTicket_succ (weightSum_filter_lt hsum _),
      if_pos ((filter_weightSum_eq_zero_iff hpos el).mpr ha)] at h
    cases h
    rfl

end

theorem weightedTicket_returns (hsum : weightSum cs < 2 ^ 64) {n : ℕ}
    (hn : (entropy.get n).toNat < 2 ^ 63) (hf : n + 1 < fuel) :
    (weightedTicket cs el fuel entropy).isSome = true := by
  cases fuel with
  | zero => omega
  | succ fuel =>
    have hlt := weightSum_filter_lt hsum el
    rw [weightedTicket_succ hlt]
    split_ifs with hz
    · rfl
    · rw [isSome_map]
      exact drawTicket_returns (Nat.pos_of_ne_zero hz) hlt hn (by omega)

/-- A stream of the largest number is rejected for every total. -/
theorem weightedTicket_stuck (hsum : weightSum cs < 2 ^ 64)
    (hpos : ∀ c ∈ cs, 0 < c.weight) (hc : c ∈ cs)
    (he : el c = true) (fuel : ℕ) :
    weightedTicket cs el fuel (Stream'.const (BitVec.allOnes 64)) = none := by
  cases fuel with
  | zero => rfl
  | succ fuel =>
    have hne : weightSum (cs.filter el) ≠ 0 := by
      rw [Ne, filter_weightSum_eq_zero_iff hpos]
      intro ha
      rw [ha c hc] at he
      cases he
    rw [weightedTicket_succ (weightSum_filter_lt hsum _), if_neg hne, map_eq_none_iff]
    apply drawTicket_stuck
    intro n
    have hz := zone_lt (weightSum (cs.filter el))
    have hm : ((Stream'.const (BitVec.allOnes 64)).get n).toNat = 2 ^ 64 - 1 := by
      rw [Stream'.get_const, BitVec.toNat_allOnes]
    omega

end Spec

/-- The increment is odd, so the counter passes through zero and the source yields zero. -/
theorem processEntropy_yields_zero (counter : Word) :
    ∃ n, (processEntropy counter).get n = 0#64 := by
  have hu : 0xf1de83e19937733d#64 * entropyIncrement = 1#64 := by decide
  let steps : Word := -counter * 0xf1de83e19937733d#64
  have hs : BitVec.ofNat 64 (steps.toNat + (2 ^ 64 - 1) + 1) = steps := by
    apply BitVec.eq_of_toNat_eq
    rw [BitVec.toNat_ofNat]
    omega
  refine ⟨steps.toNat + (2 ^ 64 - 1), ?_⟩
  have hz : counter + steps * entropyIncrement = 0#64 := by
    have ha : steps * entropyIncrement = -counter := by
      rw [show steps = -counter * 0xf1de83e19937733d#64 from rfl, BitVec.mul_assoc, hu,
        BitVec.mul_one]
    rw [ha, BitVec.add_neg_eq_sub, BitVec.sub_self]
  show splitmix (counter + BitVec.ofNat 64 (steps.toNat + (2 ^ 64 - 1) + 1) * entropyIncrement) = _
  rw [hs, hz]
  decide

section Proportion
variable {es pre after : List CompiledCandidate} {c : CompiledCandidate}

/-- While nothing is selected, the weights passed are what the ticket has lost. -/
theorem remaining_of_none (h : (es.foldl Scan.visit s).selected = none) :
    s.selected = none ∧ (es.foldl Scan.visit s).remaining + weightSum es = s.remaining := by
  induction es generalizing s with
  | nil => exact ⟨h, rfl⟩
  | cons c es ih =>
    obtain ⟨hv, hr⟩ := ih h
    have hs : weightSum (c :: es) = c.weight + weightSum es := rfl
    have hn : s.selected = none := by
      cases hw : s.selected with
      | none => rfl
      | some win => cases hv.symm.trans (visit_of_selected hw c)
    by_cases hc : s.remaining < c.weight
    · simp [Scan.visit, hn, hc] at hv
    · have hrv : (s.visit c).remaining = s.remaining - c.weight := by simp [Scan.visit, hn, hc]
      rw [foldl_cons]
      exact ⟨hn, by omega⟩

theorem mem_of_selected (h : (es.foldl Scan.visit s).selected = some win) (hn : s.selected = none) :
    win ∈ es ∧ s.remaining < weightSum es := by
  induction es generalizing s with
  | nil => cases hn.symm.trans h
  | cons c es ih =>
    have hs : weightSum (c :: es) = c.weight + weightSum es := rfl
    by_cases hc : s.remaining < c.weight
    · have hw : (s.visit c).selected = some c := by simp [Scan.visit, hn, hc]
      cases (foldl_selected_of_some es hw).symm.trans h
      exact ⟨mem_cons_self, by omega⟩
    · have hv : (s.visit c).selected = none ∧
          (s.visit c).remaining = s.remaining - c.weight := by simp [Scan.visit, hn, hc]
      obtain ⟨hm, hlt⟩ := ih h hv.1
      exact ⟨mem_cons_of_mem _ hm, by omega⟩

/-- A ticket selects the candidate among whose weights it falls. -/
theorem selected_iff (hn : (pre ++ c :: after).Nodup) (ticket : ℕ) :
    ((pre ++ c :: after).foldl Scan.visit ⟨ticket, 0, none⟩).selected = some c ↔
      weightSum pre ≤ ticket ∧ ticket < weightSum pre + c.weight := by
  obtain ⟨-, hca, hd⟩ := nodup_append.mp hn
  obtain ⟨hc, -⟩ := nodup_cons.mp hca
  rw [foldl_append, foldl_cons]
  cases hb : (pre.foldl Scan.visit ⟨ticket, 0, none⟩).selected with
  | some win =>
    obtain ⟨hm, hlt⟩ := mem_of_selected hb rfl
    dsimp only at hlt
    have hw := foldl_selected_of_some after (visit_of_selected hb c)
    refine ⟨fun h => ?_, fun h => by omega⟩
    cases hw.symm.trans h
    exact absurd rfl (hd c hm c mem_cons_self)
  | none =>
    obtain ⟨-, hr⟩ := remaining_of_none hb
    dsimp only at hr
    by_cases hlt : (pre.foldl Scan.visit ⟨ticket, 0, none⟩).remaining < c.weight
    · refine ⟨fun _ => ⟨by omega, by omega⟩, fun _ => foldl_selected_of_some after ?_⟩
      simp [Scan.visit, hb, hlt]
    · refine ⟨fun h => absurd (mem_of_selected h ?_).1 hc, fun h => by omega⟩
      simp [Scan.visit, hb, hlt]

/-- In every block of the total as many numbers have their remainder in an interval. -/
theorem count_residues {low width : ℕ} (h : low + width ≤ total) (blocks : ℕ) :
    Nat.count (fun v => low ≤ v % total ∧ v % total < low + width) (total * blocks) =
      blocks * width := by
  induction blocks with
  | zero => rw [Nat.mul_zero, Nat.count_zero, Nat.zero_mul]
  | succ blocks ih =>
    have hb : Nat.count (fun v => low ≤ v % total ∧ v % total < low + width) total = width := by
      rw [Nat.count_eq_card_filter_range]
      have hf : (Finset.range total).filter (fun v => low ≤ v % total ∧ v % total < low + width) =
          Finset.Ico low (low + width) := by
        ext v
        simp only [Finset.mem_filter, Finset.mem_range, Finset.mem_Ico]
        constructor
        · rintro ⟨hv, hr⟩
          rwa [Nat.mod_eq_of_lt hv] at hr
        · intro hr
          have hv : v < total := by omega
          rw [Nat.mod_eq_of_lt hv]
          exact ⟨hv, hr⟩
      rw [hf, Nat.card_Ico, Nat.add_sub_cancel_left]
    rw [Nat.mul_succ, Nat.count_add, ih]
    simp only [Nat.mul_add_mod]
    rw [hb, Nat.succ_mul]

variable {cs : List CompiledCandidate} {el : CompiledCandidate → Bool}

/-- A number below the zone is the ticket, any other is drawn for nothing. -/
theorem weightedTicket_cons (hpos : 0 < weightSum (cs.filter el))
    (hsum : weightSum (cs.filter el) < 2 ^ 64) (fuel : ℕ) (v : Word)
    (rest : Entropy) :
    weightedTicket cs el (fuel + 2) (Stream'.cons v rest) =
      if v.toNat < zone (weightSum (cs.filter el)) then
        some ((scan (v.toNat % weightSum (cs.filter el)) cs el).selected, rest)
      else weightedTicket cs el (fuel + 1) rest := by
  rw [weightedTicket_succ hsum, weightedTicket_succ hsum, if_neg hpos.ne', if_neg hpos.ne', drawTicket,
    Stream'.head_cons, Stream'.tail_cons]
  split_ifs <;> rfl

/-- The numbers are used in proportion to the weights: those below the zone are shared out exactly,
those at or above it are passed over, and every ticket finds its candidate. -/
theorem weighted_ticket_is_proportional (candidates : List CompiledCandidate)
    (eligible : CompiledCandidate → Bool) (hnodup : candidates.Nodup)
    (hpos : 0 < weightSum (candidates.filter eligible))
    (hsum : weightSum (candidates.filter eligible) < 2 ^ 64) :
    let total := weightSum (candidates.filter eligible)
    let call := fun fuel value rest =>
      weightedTicket candidates eligible (fuel + 2) (Stream'.cons value rest)
    (∀ fuel value rest, zone total ≤ value.toNat →
      call fuel value rest = weightedTicket candidates eligible (fuel + 1) rest) ∧
    (∀ fuel value rest, value.toNat < zone total →
      ∃ c ∈ candidates.filter eligible, call fuel value rest = some (some c, rest)) ∧
    (∀ c ∈ candidates.filter eligible, ∀ fuel rest, {value : ℕ | value < zone total ∧
        call fuel (BitVec.ofNat 64 value) rest = some (some c, rest)}.ncard =
          zone total / total * c.weight) ∧
    ∀ ticket before after, candidates.filter eligible = before ++ after →
      (before.foldl Scan.visit ⟨ticket, 0, none⟩).selected = none →
      (before.foldl Scan.visit ⟨ticket, 0, none⟩).remaining + weightSum before = ticket := by
  intro total call
  have hz : zone total = total * ((2 ^ 64 - 1) / total) := by
    have hd := Nat.div_add_mod (2 ^ 64 - 1) total
    unfold zone
    omega
  have hc := weightedTicket_cons hpos hsum
  refine ⟨?_, ?_, ?_, ?_⟩
  · intro fuel value rest hv
    exact (hc fuel value rest).trans (if_neg (not_lt.mpr hv))
  · intro fuel value rest hv
    obtain ⟨c, hm, hs⟩ := foldl_selected (candidates.filter eligible)
      ⟨value.toNat % total, 0, none⟩ rfl (Nat.mod_lt _ hpos)
    refine ⟨c, hm, (hc fuel value rest).trans ?_⟩
    rw [if_pos hv, scan_eq_filter, hs]
  · intro c hm fuel rest
    obtain ⟨before, after, hsp⟩ := append_of_mem hm
    have hn : (before ++ c :: after).Nodup := hsp ▸ hnodup.filter eligible
    have hw : weightSum before + c.weight ≤ total := by
      change _ ≤ weightSum (candidates.filter eligible)
      rw [hsp, weightSum, weightSum, map_append, sum_append, map_cons, sum_cons]
      omega
    have hset : {value : ℕ | value < zone total ∧
        call fuel (BitVec.ofNat 64 value) rest = some (some c, rest)} =
        (Finset.range (zone total)).filter (fun v => weightSum before ≤ v % total ∧
          v % total < weightSum before + c.weight) := by
      ext value
      simp only [Set.mem_ofPred_eq, Finset.coe_filter, Finset.mem_range]
      refine and_congr_right (fun hv => ?_)
      have hnat : (BitVec.ofNat 64 value).toNat = value := by
        rw [BitVec.toNat_ofNat, Nat.mod_eq_of_lt (hv.trans (zone_lt total))]
      rw [← selected_iff hn (value % total), ← hsp, ← scan_eq_filter]
      change weightedTicket _ _ _ _ = _ ↔ _
      rw [hc, hnat, if_pos hv]
      simp only [some_inj, Prod.mk.injEq, and_true]
      exact Iff.rfl
    rw [hset, Set.ncard_coe_finset, ← Nat.count_eq_card_filter_range, hz, count_residues hw,
      Nat.mul_div_cancel_left _ hpos]
  · intro ticket before after hsp hs
    exact (remaining_of_none hs).2

/-- Of two candidates with the weights 1 and 2 the second gets two thirds of the numbers. -/
theorem weighted_ticket_is_proportional_thirds :
    let first : CompiledCandidate := ⟨0, 0, plainChannel 1, "m", 1⟩
    let second : CompiledCandidate := ⟨1, 1, plainChannel 2, "m", 2⟩
    {value : ℕ | value < 2 ^ 64 - 1 ∧ weightedTicket [first, second] (fun _ => true) 2
      (Stream'.cons (BitVec.ofNat 64 value) (Stream'.const 0)) =
        some (some second, Stream'.const 0)}.ncard = (2 ^ 64 - 1) / 3 * 2 := by
  intro first second
  have ht : weightSum ([first, second].filter (fun _ => true)) = 3 := by decide
  have hz : zone 3 = 2 ^ 64 - 1 := by decide
  have h := (weighted_ticket_is_proportional [first, second] (fun _ => true) (by decide) (by decide)
    (by decide)).2.2.1 second (by decide) 0 (Stream'.const 0)
  rw [ht, hz] at h
  exact h

end Proportion

end WeightedTicket
end AiGateway.Routing
