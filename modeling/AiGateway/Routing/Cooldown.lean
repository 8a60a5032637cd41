import AiGateway.Domain.Basic
import Mathlib.Data.BitVec
import Mathlib.Data.Nat.Bitwise
import Mathlib.Tactic

/-! The packed cooldown word of a channel: zero when healthy, otherwise the
cooldown deadline in milliseconds plus one, with the top bit set while a
half-open probe holds the channel. -/
namespace AiGateway.Routing
open Domain

abbrev Word := BitVec 64

def halfOpenClaim : Word := 1#64 <<< 63

def cooldownMillisMask : Word := halfOpenClaim - 1#64

def saturatingAdd (a b : Word) : Word :=
  if a.toNat + b.toNat < 2 ^ 64 then a + b else BitVec.allOnes 64

def saturatingSub (a b : Word) : Word := if b ≤ a then a - b else 0#64

def durationMillis (value : Duration) : Word :=
  let millis :=
    if value.asMillis < 2 ^ 64 then BitVec.ofNat 64 value.asMillis else cooldownMillisMask - 1#64
  if millis ≤ cooldownMillisMask - 1#64 then millis else cooldownMillisMask - 1#64

def encodeMillis (value : Duration) : Word := saturatingAdd (durationMillis value) 1#64

def decodeMillis (value : Word) : Word := saturatingSub (value &&& cooldownMillisMask) 1#64

def halfOpenClaimed (value : Word) : Bool := value &&& halfOpenClaim != 0#64

theorem cooldownMillisMask_toNat : cooldownMillisMask.toNat = 2 ^ 63 - 1 := by decide

theorem durationMillis_toNat (v : Duration) :
    (durationMillis v).toNat = min v.asMillis (2 ^ 63 - 2) := by
  have hm : (cooldownMillisMask - 1#64).toNat = 2 ^ 63 - 2 := by decide
  unfold durationMillis
  simp only [BitVec.le_def, hm]
  by_cases h : v.asMillis < 2 ^ 64
  · have hn : (BitVec.ofNat 64 v.asMillis).toNat = v.asMillis :=
      BitVec.toNat_ofNat .. ▸ Nat.mod_eq_of_lt h
    split_ifs <;> omega
  · simp only [h, if_false, hm]
    split_ifs <;> omega

/-- Both sides of the comparison with the clock are truncated to milliseconds. -/
theorem encodeMillis_toNat (v : Duration) :
    (encodeMillis v).toNat = min v.asMillis (2 ^ 63 - 2) + 1 := by
  have hd := durationMillis_toNat v
  have h1 : (1#64).toNat = 1 := rfl
  unfold encodeMillis saturatingAdd
  rw [if_pos (by omega), BitVec.toNat_add]
  omega

theorem and_mask_toNat (v : Word) :
    (v &&& cooldownMillisMask).toNat = v.toNat % 2 ^ 63 := by
  rw [BitVec.toNat_and, cooldownMillisMask_toNat, Nat.and_two_pow_sub_one_eq_mod]

theorem decodeMillis_toNat (v : Word) :
    (decodeMillis v).toNat = v.toNat % 2 ^ 63 - 1 := by
  have hv := and_mask_toNat v
  have h1 : (1#64).toNat = 1 := rfl
  unfold decodeMillis saturatingSub
  split_ifs with h
  · rw [BitVec.toNat_sub_of_le h, hv, h1]
  · rw [BitVec.le_def] at h
    change 0 = _
    omega

theorem halfOpenClaim_toNat : halfOpenClaim.toNat = 2 ^ 63 := by decide

theorem halfOpenClaimed_iff (v : Word) :
    halfOpenClaimed v = true ↔ 2 ^ 63 ≤ v.toNat := by
  unfold halfOpenClaimed
  rw [bne_iff_ne, Ne, ← BitVec.toNat_inj, BitVec.toNat_and, halfOpenClaim_toNat, Nat.and_comm,
    Nat.two_pow_and, Nat.testBit_eq_decide_div_mod_eq]
  simp
  omega

theorem or_claim_toNat (v : Word) (h : ¬ halfOpenClaimed v = true) :
    (v ||| halfOpenClaim).toNat = v.toNat + 2 ^ 63 := by
  rw [halfOpenClaimed_iff, not_le] at h
  have hor := Nat.two_pow_add_eq_or_of_lt h 1
  rw [Nat.mul_one] at hor
  rw [BitVec.toNat_or, halfOpenClaim_toNat, Nat.or_comm, ← hor, Nat.add_comm]

theorem claimed_or_claim (v : Word) (h : ¬ halfOpenClaimed v = true) :
    halfOpenClaimed (v ||| halfOpenClaim) = true := by
  rw [halfOpenClaimed_iff, or_claim_toNat v h]
  omega

theorem not_claimed_and_mask (v : Word) :
    ¬ halfOpenClaimed (v &&& cooldownMillisMask) = true := by
  rw [halfOpenClaimed_iff, and_mask_toNat]
  omega

/-- A stored deadline never carries the claim bit, however far in the future it lies. -/
theorem not_claimed_encodeMillis (v : Duration) :
    ¬ halfOpenClaimed (encodeMillis v) = true := by
  rw [halfOpenClaimed_iff, encodeMillis_toNat]
  omega

theorem not_claimed_zero : ¬ halfOpenClaimed 0#64 = true := by decide

theorem claimed_ne_zero {v : Word} (h : halfOpenClaimed v = true) : v ≠ 0#64 := by
  rintro rfl
  exact not_claimed_zero h

/-- Passive connection health shared by all channels. -/
structure PassiveHealthPolicy where
  connectionFailureThreshold : ℕ
  cooldown : Duration
  deriving DecidableEq

def PassiveHealthPolicy.default : PassiveHealthPolicy := ⟨3, Duration.fromSecs 30⟩

structure ChannelState where
  inFlight : ℕ
  consecutiveConnectionFailures : ℕ
  cooldownState : Word
  active : Bool
  deriving DecidableEq

namespace ChannelState

def new (active : Bool) : ChannelState := ⟨0, 0, 0#64, active⟩

def isUsable (state : ChannelState) (now : Duration) : Bool := state.cooldownState == 0#64 ||
    (!halfOpenClaimed state.cooldownState &&
      decide (decodeMillis state.cooldownState ≤ durationMillis now))

/-- The claim taken by a successful acquisition and the state it leaves. Taken as
one step the compare-exchange of the source always finds the word it loaded. -/
def tryAcquire (state : ChannelState) (now : Duration) : Option (Word × ChannelState) :=
  if state.cooldownState = 0#64 then
    some (0#64, { state with inFlight := state.inFlight + 1 })
  else if halfOpenClaimed state.cooldownState ∨
      durationMillis now < decodeMillis state.cooldownState then none
  else
    let claimed := state.cooldownState ||| halfOpenClaim
    some (claimed, { state with cooldownState := claimed, inFlight := state.inFlight + 1 })

/-- Decrement of the 64-bit counter, wrapping at zero as the atomic does. -/
def fetchSub (inFlight : ℕ) : ℕ := if inFlight = 0 then 2 ^ 64 - 1 else inFlight - 1

/-- Returns the number of leases that remain. -/
def release (state : ChannelState) : ℕ × ChannelState :=
  (state.inFlight - 1, { state with inFlight := fetchSub state.inFlight })

/-- Increment of the 32-bit failure counter, saturating. -/
def countFailure (failures : ℕ) : ℕ := min (failures + 1) (2 ^ 32 - 1)

def connectionFailed (state : ChannelState) (threshold : ℕ) (cooldownUntil : Duration) :
    ChannelState :=
  let failures := countFailure state.consecutiveConnectionFailures
  let state := { state with consecutiveConnectionFailures := failures }
  if threshold ≤ failures then { state with cooldownState := encodeMillis cooldownUntil } else state

def responseHeadersReceived (state : ChannelState) : ChannelState :=
  { state with consecutiveConnectionFailures := 0, cooldownState := 0#64 }

def compareExchange (state : ChannelState) (expected new : Word) : ChannelState :=
  if state.cooldownState = expected then { state with cooldownState := new } else state

def probeFailed (state : ChannelState) (claim : Word) (cooldownUntil : Duration) : ChannelState :=
  if claim ≠ 0#64 then state.compareExchange claim (encodeMillis cooldownUntil) else state

/-- Neutral resolution of a probe that ends without a verdict. -/
def cancelProbe (state : ChannelState) (claim : Word) : ChannelState :=
  if claim ≠ 0#64 then state.compareExchange claim (claim &&& cooldownMillisMask) else state

theorem probeFailed_cooldownState (st : ChannelState) (claim : Word) (dl : Duration) :
    (st.probeFailed claim dl).cooldownState =
      if claim ≠ 0#64 ∧ st.cooldownState = claim then encodeMillis dl
      else st.cooldownState := by
  unfold probeFailed compareExchange
  by_cases hz : claim = 0#64
  · simp [hz]
  · by_cases hw : st.cooldownState = claim <;> simp [hz, hw]

theorem cancelProbe_cooldownState (st : ChannelState) (claim : Word) :
    (st.cancelProbe claim).cooldownState =
      if claim ≠ 0#64 ∧ st.cooldownState = claim then claim &&& cooldownMillisMask
      else st.cooldownState := by
  unfold cancelProbe compareExchange
  by_cases hz : claim = 0#64
  · simp [hz]
  · by_cases hw : st.cooldownState = claim <;> simp [hz, hw]

theorem tryAcquire_effect {st st' : ChannelState} {now : Duration} {claim : Word}
    (h : st.tryAcquire now = some (claim, st')) :
    st'.inFlight = st.inFlight + 1 ∧ st'.active = st.active := by
  unfold tryAcquire at h
  split_ifs at h
  all_goals
    cases h
    exact ⟨rfl, rfl⟩

variable (st : ChannelState)

theorem connectionFailed_keeps (thr : ℕ) (dl : Duration) :
    (st.connectionFailed thr dl).inFlight = st.inFlight ∧
      (st.connectionFailed thr dl).active = st.active := by
  unfold connectionFailed
  dsimp only
  split_ifs <;> exact ⟨rfl, rfl⟩

theorem compareExchange_keeps (exp new : Word) :
    (st.compareExchange exp new).inFlight = st.inFlight ∧
      (st.compareExchange exp new).active = st.active := by
  unfold compareExchange
  split_ifs <;> exact ⟨rfl, rfl⟩

theorem probeFailed_keeps (claim : Word) (dl : Duration) :
    (st.probeFailed claim dl).inFlight = st.inFlight ∧
      (st.probeFailed claim dl).active = st.active := by
  unfold probeFailed
  split_ifs
  · exact compareExchange_keeps st _ _
  · exact ⟨rfl, rfl⟩

theorem cancelProbe_keeps (claim : Word) :
    (st.cancelProbe claim).inFlight = st.inFlight ∧ (st.cancelProbe claim).active = st.active := by
  unfold cancelProbe
  split_ifs
  · exact compareExchange_keeps st _ _
  · exact ⟨rfl, rfl⟩

/-- At one instant the read-only check and the acquisition agree. -/
theorem tryAcquire_isSome (now : Duration) :
    (st.tryAcquire now).isSome = st.isUsable now := by
  unfold tryAcquire isUsable
  by_cases hz : st.cooldownState = 0#64
  · simp [hz]
  · by_cases hc : halfOpenClaimed st.cooldownState = true
    · simp [hz, hc]
    · by_cases hd : durationMillis now < decodeMillis st.cooldownState
      · simp [hz, hc, hd, BitVec.not_le]
      · simp [hz, hc, hd, BitVec.not_lt.mp hd]

end ChannelState
end AiGateway.Routing
