import AiGateway.Lib.Run
import AiGateway.Routing.Cooldown

/-! One channel state with its policy, its clock and its live leases, each
operation taken as one step: who may probe a channel after its cooldown. -/
namespace AiGateway.Routing.Probe
open Domain Lib List

/-- A live lease. `resolved` records that it has reported response headers, a
connection failure or a failed probe. -/
structure Lease where
  id : ℕ
  claim : Word
  resolved : Bool
  deriving DecidableEq

/-- An unresolved half-open probe. -/
def Lease.Probing (l : Lease) : Prop := l.claim ≠ 0#64 ∧ l.resolved = false

instance (l : Lease) : Decidable l.Probing := inferInstanceAs (Decidable (_ ∧ _))

/-- `claimant` is the lease whose acquisition wrote the word that stands now. -/
structure Channel where
  state : ChannelState
  policy : PassiveHealthPolicy
  now : Duration
  leases : List Lease
  nextLease : ℕ
  claimant : Option ℕ

def init (active : Bool) (policy : PassiveHealthPolicy) : Channel :=
  ⟨ChannelState.new active, policy, 0, [], 0, none⟩

inductive Op where
  | acquire
  | connectionFailed (lease : ℕ)
  | responseHeadersReceived (lease : ℕ)
  | probeFailed (lease : ℕ)
  | drop (lease : ℕ)
  | advance (elapsed : Duration)
  | updatePolicy (policy : PassiveHealthPolicy)
  deriving DecidableEq

namespace Channel

def word (s : Channel) : Word := s.state.cooldownState

def cooldownUntil (s : Channel) : Duration := s.now + s.policy.cooldown

/-- The claimant stays in charge as long as the word is not rewritten. -/
def write (s : Channel) (state : ChannelState) (leases : List Lease) : Channel := { s with
    state := state
    leases := leases
    claimant := if state.cooldownState = s.state.cooldownState then s.claimant else none }

def resolve (s : Channel) (lease : ℕ) : List Lease :=
  s.leases.map (fun l => if l.id = lease then { l with resolved := true } else l)

def acquire (s : Channel) : Channel :=
  match s.state.tryAcquire s.now with
  | none => s
  | some (claim, state) =>
    { s with
      state := state
      leases := ⟨s.nextLease, claim, false⟩ :: s.leases
      nextLease := s.nextLease + 1
      claimant := if claim = 0#64 then s.claimant else some s.nextLease }

end Channel

/-- A call on a lease that is not live cannot happen and changes nothing. -/
def step (s : Channel) : Op → Channel
  | .acquire => s.acquire
  | .connectionFailed lease =>
    if s.leases.any (·.id = lease) then
      s.write (s.state.connectionFailed s.policy.connectionFailureThreshold s.cooldownUntil)
        (s.resolve lease)
    else s
  | .responseHeadersReceived lease =>
    if s.leases.any (·.id = lease) then
      s.write s.state.responseHeadersReceived (s.resolve lease)
    else s
  | .probeFailed lease =>
    match s.leases.find? (·.id = lease) with
    | some l => s.write (s.state.probeFailed l.claim s.cooldownUntil) (s.resolve lease)
    | none => s
  | .drop lease =>
    match s.leases.find? (·.id = lease) with
    | some l => s.write (s.state.release.2.cancelProbe l.claim) (s.leases.filter (·.id ≠ lease))
    | none => s
  | .advance elapsed => { s with now := s.now + elapsed }
  | .updatePolicy policy =>
    -- `update_policy` asserts both values positive
    if 0 < policy.connectionFailureThreshold ∧ 0 < policy.cooldown then { s with policy := policy }
    else s

/-- The leases after a step are leases from before it, some of them resolved or dropped. -/
structure Inherits (s s' : Channel) : Prop where
  ids : (s'.leases.map Lease.id).Sublist (s.leases.map Lease.id)
  source : ∀ l' ∈ s'.leases, ∃ l ∈ s.leases, l'.id = l.id ∧ l'.claim = l.claim ∧
    (l'.Probing → l.Probing)
  next : s'.nextLease = s.nextLease

/-- The word a rewriting step leaves: healthy, a fresh deadline, or the deadline of the
claim the dropped lease held on the word. -/
inductive Rewrite (s s' : Channel) (lease : ℕ) : Prop where
  | healthy (hw : s'.word = 0#64)
  | deadline (hw : s'.word = encodeMillis s.cooldownUntil)
  | reopened (l : Lease) (hl : l ∈ s.leases) (hid : l.id = lease) (hc : l.claim = s.word)
      (hn : l.claim ≠ 0#64) (hw : s'.word = s.word &&& cooldownMillisMask)
      (hd : ∀ l' ∈ s'.leases, l'.id ≠ lease)

/-- The lease that overwrites the word when the operation is taken in this state. -/
def overwriter (s : Channel) : Op → Option ℕ
  | .connectionFailed lease =>
    if s.policy.connectionFailureThreshold ≤
        ChannelState.countFailure s.state.consecutiveConnectionFailures then some lease else none
  | .responseHeadersReceived lease => some lease
  | .probeFailed lease | .drop lease =>
    if ∃ l ∈ s.leases, l.id = lease ∧ l.claim ≠ 0#64 ∧ l.claim = s.word then some lease else none
  | .acquire | .advance _ | .updatePolicy _ => none

/-- Everything one step can do to the word and to the leases. -/
inductive Effect (s : Channel) (op : Op) (s' : Channel) : Prop where
  | kept (hw : s'.word = s.word) (hc : s'.claimant = s.claimant) (hn : s.now ≤ s'.now)
      (hl : Inherits s s')
  | opened (hz : s.word = 0#64) (hw : s'.word = 0#64) (hn : s'.now = s.now)
      (hl : s'.leases = ⟨s.nextLease, 0#64, false⟩ :: s.leases)
      (hi : s'.nextLease = s.nextLease + 1)
  | probed (hz : s.word ≠ 0#64) (hu : ¬ halfOpenClaimed s.word = true)
      (hd : decodeMillis s.word ≤ durationMillis s.now) (hn : s'.now = s.now)
      (hw : s'.word = s.word ||| halfOpenClaim)
      (hl : s'.leases = ⟨s.nextLease, s'.word, false⟩ :: s.leases)
      (hi : s'.nextLease = s.nextLease + 1) (hc : s'.claimant = some s.nextLease)
  | rewritten (lease : ℕ) (ho : overwriter s op = some lease) (hw : Rewrite s s' lease)
      (hn : s'.now = s.now) (hl : Inherits s s')
      (hp : ∀ l' ∈ s'.leases, l'.Probing → l'.id ≠ lease)

section
variable (s : Channel)

theorem Inherits.refl : Inherits s s :=
  ⟨List.Sublist.refl _, fun l hl => ⟨l, hl, rfl, rfl, id⟩, rfl⟩

theorem inherits_resolve (st : ChannelState) (lease : ℕ) :
    Inherits s (s.write st (s.resolve lease)) := by
  refine ⟨?_, ?_, rfl⟩
  · have hid : (s.resolve lease).map Lease.id = s.leases.map Lease.id := by
      unfold Channel.resolve
      rw [map_map]
      apply map_congr_left
      intro l _
      simp only [Function.comp_apply]
      split_ifs <;> rfl
    exact hid ▸ List.Sublist.refl _
  · intro l' hl'
    obtain ⟨l, hl, rfl⟩ := mem_map.mp hl'
    refine ⟨l, hl, ?_⟩
    split_ifs <;> simp [Lease.Probing]

theorem resolve_not_probing (lease : ℕ) :
    ∀ l' ∈ s.resolve lease, l'.Probing → l'.id ≠ lease := by
  intro l' hl' hp
  obtain ⟨l, hl, rfl⟩ := mem_map.mp hl'
  split_ifs at hp ⊢ with h
  · simp [Lease.Probing] at hp
  · exact h

theorem inherits_drop (st : ChannelState) (lease : ℕ) :
    Inherits s (s.write st (s.leases.filter (·.id ≠ lease))) := by
  refine ⟨List.Sublist.map _ filter_sublist, ?_, rfl⟩
  intro l' hl'
  exact ⟨l', (mem_filter.mp hl').1, rfl, rfl, id⟩

theorem drop_ne (lease : ℕ) :
    ∀ l' ∈ s.leases.filter (·.id ≠ lease), l'.id ≠ lease := by
  intro l' hl'
  simpa using (mem_filter.mp hl').2

theorem write_kept {st : ChannelState} {leases : List Lease} (op : Op)
    (hw : st.cooldownState = s.word) (hl : Inherits s (s.write st leases)) :
    Effect s op (s.write st leases) :=
  .kept hw (if_pos hw) le_rfl hl

theorem acquire_effect (op : Op) : Effect s op s.acquire := by
  unfold Channel.acquire ChannelState.tryAcquire
  by_cases hz : s.state.cooldownState = 0#64
  · simp only [hz, if_true]
    exact .opened hz rfl rfl rfl rfl
  · by_cases hc : halfOpenClaimed s.state.cooldownState = true ∨
        durationMillis s.now < decodeMillis s.state.cooldownState
    · simp only [hz, hc, if_true, if_false]
      exact .kept rfl rfl le_rfl (Inherits.refl s)
    · simp only [hz, hc, if_false]
      rw [not_or] at hc
      have hne := claimed_ne_zero (claimed_or_claim _ hc.1)
      exact .probed hz hc.1 (BitVec.not_lt.mp hc.2) rfl rfl rfl rfl (if_neg hne)

end

variable {l : Lease} {s s' : Channel} {op : Op}

theorem probeFailed_effect (s : Channel) (hl : l ∈ s.leases) :
    Effect s (.probeFailed l.id)
      (s.write (s.state.probeFailed l.claim s.cooldownUntil) (s.resolve l.id)) := by
  have hi := inherits_resolve s (s.state.probeFailed l.claim s.cooldownUntil) l.id
  by_cases hc : l.claim ≠ 0#64 ∧ s.state.cooldownState = l.claim
  · refine .rewritten l.id (if_pos ⟨l, hl, rfl, hc.1, hc.2.symm⟩) (.deadline ?_) rfl hi
      (resolve_not_probing s l.id)
    exact (ChannelState.probeFailed_cooldownState ..).trans (if_pos hc)
  · exact write_kept s _ ((ChannelState.probeFailed_cooldownState ..).trans (if_neg hc)) hi

theorem drop_effect (s : Channel) (hl : l ∈ s.leases) :
    Effect s (.drop l.id)
      (s.write (s.state.release.2.cancelProbe l.claim) (s.leases.filter (·.id ≠ l.id))) := by
  have hi := inherits_drop s (s.state.release.2.cancelProbe l.claim) l.id
  by_cases hc : l.claim ≠ 0#64 ∧ s.state.cooldownState = l.claim
  · refine .rewritten l.id (if_pos ⟨l, hl, rfl, hc.1, hc.2.symm⟩)
      (.reopened l hl rfl hc.2.symm hc.1 ?_ (drop_ne s l.id)) rfl hi
      (fun l' hl' _ => drop_ne s l.id l' hl')
    have hw := (ChannelState.cancelProbe_cooldownState s.state.release.2 l.claim).trans (if_pos hc)
    exact hw.trans (congrArg (· &&& cooldownMillisMask) hc.2.symm)
  · exact write_kept s _ ((ChannelState.cancelProbe_cooldownState ..).trans (if_neg hc)) hi

theorem step_effect (s : Channel) (op : Op) : Effect s op (step s op) := by
  have hk : ∀ op, Effect s op s := fun _ => .kept rfl rfl le_rfl (Inherits.refl s)
  cases op with
  | acquire => exact acquire_effect s _
  | connectionFailed lease =>
    simp only [step]
    split_ifs
    · by_cases ht : s.policy.connectionFailureThreshold ≤
          ChannelState.countFailure s.state.consecutiveConnectionFailures
      · refine .rewritten lease (if_pos ht) (.deadline ?_) rfl (inherits_resolve s _ lease)
          (resolve_not_probing s lease)
        simp [Channel.write, Channel.word, ChannelState.connectionFailed, ht]
      · apply write_kept s _ _ (inherits_resolve s _ lease)
        simp [Channel.word, ChannelState.connectionFailed, ht]
    · exact hk _
  | responseHeadersReceived lease =>
    simp only [step]
    split_ifs
    · exact .rewritten lease rfl (.healthy rfl) rfl (inherits_resolve s _ lease)
        (resolve_not_probing s lease)
    · exact hk _
  | probeFailed lease =>
    simp only [step]
    cases hf : s.leases.find? (·.id = lease) with
    | none => exact hk _
    | some l =>
      have hid : l.id = lease := by simpa using List.find?_some hf
      subst hid
      exact probeFailed_effect s (mem_of_find?_eq_some hf)
  | drop lease =>
    simp only [step]
    cases hf : s.leases.find? (·.id = lease) with
    | none => exact hk _
    | some l =>
      have hid : l.id = lease := by simpa using List.find?_some hf
      subst hid
      exact drop_effect s (mem_of_find?_eq_some hf)
  | advance elapsed =>
    exact .kept rfl rfl (Nat.le_add_right _ _) ⟨.refl _, fun l hl => ⟨l, hl, rfl, rfl, id⟩, rfl⟩
  | updatePolicy policy =>
    simp only [step]
    split_ifs
    · exact .kept rfl rfl le_rfl ⟨.refl _, fun l hl => ⟨l, hl, rfl, rfl, id⟩, rfl⟩
    · exact hk _

/-- At most one live lease is an unresolved half-open probe. -/
def SingleProbe (s : Channel) : Prop :=
  ∀ l ∈ s.leases, ∀ l' ∈ s.leases, l.Probing → l'.Probing → l.id = l'.id

instance (s : Channel) : Decidable (SingleProbe s) := by unfold SingleProbe; infer_instance

/-- A lease from before the cooldown reports its own failure while the probe of lease 2
waits, and lease 3 is admitted as a second probe. -/
theorem late_failure_admits_second_probe :
    ¬ SingleProbe (run step (init true ⟨1, Duration.fromMillis 1⟩)
      [.acquire, .acquire, .connectionFailed 1, .advance (Duration.fromMillis 1), .acquire,
        .connectionFailed 0, .advance (Duration.fromMillis 1), .acquire]) := by decide

/-- No lease overwrites the word while another live lease is an unresolved probe. -/
def Undisturbed (s : Channel) (op : Op) : Prop :=
  ∀ lease ∈ overwriter s op, ∀ l ∈ s.leases, l.Probing → l.id = lease

instance (s : Channel) (op : Op) : Decidable (Undisturbed s op) := by
  unfold Undisturbed; infer_instance

/-- Unresolved probes exist only behind a claimed word, and at most one of them. -/
def Guarded (s : Channel) : Prop :=
  SingleProbe s ∧ (¬ halfOpenClaimed s.word = true → ∀ l ∈ s.leases, ¬ l.Probing)

theorem SingleProbe.inherits (hs : SingleProbe s) (hl : Inherits s s') : SingleProbe s' := by
  intro a ha b hb hpa hpb
  obtain ⟨a₀, ha₀, hid, -, hap⟩ := hl.source a ha
  obtain ⟨b₀, hb₀, hib, -, hbp⟩ := hl.source b hb
  rw [hid, hib]
  exact hs a₀ ha₀ b₀ hb₀ (hap hpa) (hbp hpb)

theorem guarded_of_no_probe (h : ∀ l ∈ s.leases, ¬ l.Probing) : Guarded s :=
  ⟨fun l hl _ _ hp _ => absurd hp (h l hl), fun _ => h⟩

theorem step_guarded (s : Channel) (op : Op) (hs : Guarded s) (hu : Undisturbed s op) :
    Guarded (step s op) := by
  obtain ⟨hsi, hil⟩ := hs
  cases step_effect s op with
  | kept hw hc hn hl =>
    refine ⟨hsi.inherits hl, fun hcl l' hl' hp => ?_⟩
    obtain ⟨l, hm, -, -, hlp⟩ := hl.source l' hl'
    exact hil (hw ▸ hcl) l hm (hlp hp)
  | opened hz hw hn hl hi =>
    apply guarded_of_no_probe
    rw [hl]
    intro l hm
    rcases mem_cons.mp hm with rfl | hm
    · simp [Lease.Probing]
    · exact hil (hz ▸ not_claimed_zero) l hm
  | probed hz hcl hd hn hw hl hi hc =>
    have hol := hil hcl
    refine ⟨?_, fun h => absurd (hw ▸ claimed_or_claim _ hcl) h⟩
    intro a ha b hb hpa hpb
    rw [hl] at ha hb
    rcases mem_cons.mp ha with rfl | ha
    · rcases mem_cons.mp hb with rfl | hb
      · rfl
      · exact absurd hpb (hol b hb)
    · exact absurd hpa (hol a ha)
  | rewritten lease ho hw hn hl hp =>
    apply guarded_of_no_probe
    intro l' hl' hpr
    obtain ⟨l, hm, hid, -, hlp⟩ := hl.source l' hl'
    exact hp l' hl' hpr (hid.trans (hu lease ho l hm (hlp hpr)))

/-- A single probe is admitted at a time in every run in which no lease overwrites the
word while another one probes. -/
theorem single_probe_of_undisturbed (active : Bool) (policy : PassiveHealthPolicy)
    (ops : List Op) (hops : Along step Undisturbed (init active policy) ops) :
    SingleProbe (run step (init active policy) ops) :=
  (run_invariant_along step_guarded (guarded_of_no_probe (by simp [init])) hops).1

/-- Two failing leases, a probe that fails, and a second probe after it. -/
theorem single_probe_of_undisturbed_two_rounds :
    let ops : List Op := [.acquire, .acquire, .connectionFailed 0, .connectionFailed 1,
      .advance (Duration.fromMillis 1), .acquire, .acquire, .probeFailed 2, .drop 2,
      .advance (Duration.fromMillis 1), .acquire]
    Along step Undisturbed (init true ⟨2, Duration.fromMillis 1⟩) ops ∧
      SingleProbe (run step (init true ⟨2, Duration.fromMillis 1⟩) ops) :=
  ⟨by decide, single_probe_of_undisturbed _ _ _ (by decide)⟩

/-- Cooldowns last at least a millisecond and deadlines stay inside the 63 bits of the word. -/
def InRange (s : Channel) (_ : Op) : Prop :=
  Duration.fromMillis 1 ≤ s.policy.cooldown ∧ Duration.asMillis s.cooldownUntil ≤ 2 ^ 63 - 2

instance (s : Channel) (op : Op) : Decidable (InRange s op) := inferInstanceAs (Decidable (_ ∧ _))

/-- Claims are packed deadlines that have passed, no live lease holds the claim the word
would become, and a claimed word is held by its claimant alone. -/
structure Owned (s : Channel) : Prop where
  nodup : (s.leases.map Lease.id).Nodup
  fresh : ∀ l ∈ s.leases, l.id < s.nextLease
  past : ∀ l ∈ s.leases, l.claim ≠ 0#64 →
    2 ^ 63 < l.claim.toNat ∧ l.claim.toNat ≤ 2 ^ 63 + Duration.asMillis s.now + 1
  free : s.word ≠ 0#64 → ¬ halfOpenClaimed s.word = true →
    ∀ l ∈ s.leases, l.claim.toNat ≠ s.word.toNat + 2 ^ 63
  own : halfOpenClaimed s.word = true → ∀ l ∈ s.leases, l.claim = s.word → s.claimant = some l.id

theorem owned_init (act : Bool) (policy : PassiveHealthPolicy) : Owned (init act policy) := by
  constructor <;> simp [init]

/-- A deadline stored now lies beyond every claim taken so far. -/
theorem lt_encodeMillis (hr : InRange s op) :
    Duration.asMillis s.now + 1 < (encodeMillis s.cooldownUntil).toNat := by
  have hc : (1000000 : ℕ) ≤ s.policy.cooldown := hr.1
  have hl : Duration.asMillis s.now + 1 ≤ Duration.asMillis s.cooldownUntil := by
    unfold Channel.cooldownUntil Duration.asMillis
    omega
  rw [encodeMillis_toNat, min_eq_left hr.2]
  omega

section Inherited
variable {s s' : Channel}

theorem Owned.inherits_past (hs : Owned s) (hl : Inherits s s') (hn : s.now ≤ s'.now) :
    ∀ l ∈ s'.leases, l.claim ≠ 0#64 →
      2 ^ 63 < l.claim.toNat ∧ l.claim.toNat ≤ 2 ^ 63 + Duration.asMillis s'.now + 1 := by
  intro l' hl' hne
  obtain ⟨l, hm, -, hc, -⟩ := hl.source l' hl'
  rw [hc] at hne ⊢
  have hp := hs.past l hm hne
  have hmo : Duration.asMillis s.now ≤ Duration.asMillis s'.now := Nat.div_le_div_right hn
  omega

theorem Owned.inherits_fresh (hs : Owned s) (hl : Inherits s s') :
    ∀ l ∈ s'.leases, l.id < s'.nextLease := by
  intro l' hl'
  obtain ⟨l, hm, hid, -, -⟩ := hl.source l' hl'
  rw [hid, hl.next]
  exact hs.fresh l hm

theorem Owned.cons_nodup (hs : Owned s) (claim : Word) :
    ((⟨s.nextLease, claim, false⟩ :: s.leases : List Lease).map Lease.id).Nodup := by
  refine nodup_cons.mpr ⟨?_, hs.nodup⟩
  intro hm
  obtain ⟨l, hl, hid⟩ := mem_map.mp hm
  exact absurd (hs.fresh l hl) (hid ▸ lt_irrefl _)

theorem Owned.cons_fresh (hs : Owned s) (claim : Word) :
    ∀ l ∈ (⟨s.nextLease, claim, false⟩ :: s.leases : List Lease), l.id < s.nextLease + 1 := by
  intro l hl
  rcases mem_cons.mp hl with rfl | hl
  · exact Nat.lt_succ_self _
  · exact (hs.fresh l hl).trans (Nat.lt_succ_self _)

end Inherited

theorem probed_owned (hs : Owned s) (hz : s.word ≠ 0#64)
    (hu : ¬ halfOpenClaimed s.word = true) (hd : decodeMillis s.word ≤ durationMillis s.now)
    (hn : s'.now = s.now) (hw : s'.word = s.word ||| halfOpenClaim)
    (hl : s'.leases = ⟨s.nextLease, s'.word, false⟩ :: s.leases)
    (hi : s'.nextLease = s.nextLease + 1) (hc : s'.claimant = some s.nextLease) : Owned s' := by
  have hcm : s'.word.toNat = s.word.toNat + 2 ^ 63 := hw ▸ or_claim_toNat s.word hu
  have hcl : halfOpenClaimed s'.word = true := hw ▸ claimed_or_claim s.word hu
  refine ⟨hl ▸ hs.cons_nodup _, hl ▸ hi ▸ hs.cons_fresh _, ?_, fun _ h => absurd hcl h, ?_⟩
  · intro l hm hne
    rw [hl] at hm
    rw [hn]
    rcases mem_cons.mp hm with rfl | hm
    · rw [BitVec.le_def, decodeMillis_toNat, durationMillis_toNat] at hd
      have hp : s.word.toNat ≠ 0 := fun h => hz (BitVec.eq_of_toNat_eq (by simpa using h))
      change 2 ^ 63 < s'.word.toNat ∧ s'.word.toNat ≤ _
      omega
    · exact hs.past l hm hne
  · intro _ l hm heq
    rw [hl] at hm
    rcases mem_cons.mp hm with rfl | hm
    · exact hc
    · exact absurd (heq ▸ hcm) (hs.free hz hu l hm)

theorem rewritten_owned {lease : ℕ} (hs : Owned s) (hr : InRange s op)
    (hw : Rewrite s s' lease) (hn : s'.now = s.now) (hl : Inherits s s') : Owned s' := by
  have hno := hs.nodup.sublist hl.ids
  have hpa := hs.inherits_past hl hn.ge
  cases hw with
  | healthy hw =>
    exact ⟨hno, hs.inherits_fresh hl, hpa, fun h => absurd hw h,
      fun h => absurd h (hw ▸ not_claimed_zero)⟩
  | deadline hw =>
    refine ⟨hno, hs.inherits_fresh hl, hpa, fun _ _ l hm heq => ?_,
      fun h => absurd h (hw ▸ not_claimed_encodeMillis _)⟩
    have hlt := lt_encodeMillis hr
    rw [hw] at heq
    have hp := hpa l hm (by rintro h; simp [h] at heq)
    rw [hn] at hp
    omega
  | reopened l hm hid hc hne hw hd =>
    refine ⟨hno, hs.inherits_fresh hl, hpa, fun _ _ l' hl' heq => ?_,
      fun h => absurd h (hw ▸ not_claimed_and_mask _)⟩
    obtain ⟨l₀, hl₀, hid₀, hc₀, -⟩ := hl.source l' hl'
    have hp := hs.past l hm hne
    have hcl : halfOpenClaimed s.word = true := by
      rw [halfOpenClaimed_iff, ← hc]
      omega
    have heq₀ : l₀.claim = s.word := by
      apply BitVec.eq_of_toNat_eq
      rw [← hc₀, heq, hw, and_mask_toNat, ← hc]
      omega
    have how := hs.own hcl l hm hc
    have ho₀ := hs.own hcl l₀ hl₀ heq₀
    rw [how] at ho₀
    exact hd l' hl' (hid₀.trans ((Option.some.inj ho₀).symm.trans hid))

theorem step_owned (s : Channel) (op : Op) (hs : Owned s) (hr : InRange s op) :
    Owned (step s op) := by
  cases step_effect s op with
  | kept hw hc hn hl =>
    refine ⟨hs.nodup.sublist hl.ids, hs.inherits_fresh hl, hs.inherits_past hl hn, ?_, ?_⟩
    · intro hz hu l' hl'
      obtain ⟨l, hm, -, hcl, -⟩ := hl.source l' hl'
      rw [hw] at hz hu ⊢
      exact hcl ▸ hs.free hz hu l hm
    · intro hcm l' hl' heq
      obtain ⟨l, hm, hid, hcl, -⟩ := hl.source l' hl'
      rw [hw] at hcm heq
      rw [hc, hid]
      exact hs.own hcm l hm (hcl ▸ heq)
  | opened hz hw hn hl hi =>
    refine ⟨hl ▸ hs.cons_nodup _, hl ▸ hi ▸ hs.cons_fresh _, ?_, fun h => absurd hw h,
      fun h => absurd h (hw ▸ not_claimed_zero)⟩
    intro l hm hne
    rw [hl] at hm
    rw [hn]
    rcases mem_cons.mp hm with rfl | hm
    · exact absurd rfl hne
    · exact hs.past l hm hne
  | probed hz hu hd hn hw hl hi hc => exact probed_owned hs hz hu hd hn hw hl hi hc
  | rewritten lease ho hw hn hl hp => exact rewritten_owned hs hr hw hn hl

theorem find_of_mem (hs : Owned s) (hl : l ∈ s.leases) : s.leases.find? (·.id = l.id) = some l := by
  cases hf : s.leases.find? (·.id = l.id) with
  | none => simpa using List.find?_eq_none.mp hf l hl
  | some x =>
    have hid : x.id = l.id := by simpa using List.find?_some hf
    rw [inj_on_of_nodup_map hs.nodup (mem_of_find?_eq_some hf) hl hid]

/-- The compare-exchange of a failed probe or a drop misses unless the lease holds the word. -/
theorem probe_end_word (hs : Owned s) (hl : l ∈ s.leases)
    (hop : op ∈ [Op.probeFailed l.id, Op.drop l.id])
    (hh : ¬ (l.claim ≠ 0#64 ∧ s.word = l.claim)) : (step s op).word = s.word := by
  simp only [mem_cons, not_mem_nil, or_false] at hop
  rcases hop with rfl | rfl
  · simp only [step, find_of_mem hs hl]
    exact (ChannelState.probeFailed_cooldownState ..).trans (if_neg hh)
  · simp only [step, find_of_mem hs hl]
    exact (ChannelState.cancelProbe_cooldownState s.state.release.2 l.claim).trans (if_neg hh)

/-- In every reachable state a failed probe or a drop rewrites the word only when the word
is the claim of that lease and that lease was the one to take it. -/
theorem probe_end_rewrites_own_claim (active : Bool) (policy : PassiveHealthPolicy)
    (ops : List Op) (hops : Along step InRange (init active policy) ops) :
    let s := run step (init active policy) ops
    ∀ l ∈ s.leases, ∀ op ∈ [Op.probeFailed l.id, Op.drop l.id], (step s op).word ≠ s.word →
      s.word = l.claim ∧ s.claimant = some l.id ∧ ∀ l' ∈ s.leases, l'.claim = s.word → l' = l := by
  intro s l hl op hop hne
  have hs : Owned s := run_invariant_along step_owned (owned_init active policy) hops
  have hh : l.claim ≠ 0#64 ∧ s.word = l.claim := by_contra fun h => hne (probe_end_word hs hl hop h)
  have hc : halfOpenClaimed s.word = true := by
    rw [halfOpenClaimed_iff, hh.2]
    exact (hs.past l hl hh.1).1.le
  have how := hs.own hc l hl hh.2.symm
  refine ⟨hh.2, how, fun l' hl' heq => ?_⟩
  have hid : l.id = l'.id := Option.some.inj (how.symm.trans (hs.own hc l' hl' heq))
  exact inj_on_of_nodup_map hs.nodup hl' hl hid.symm

/-- The cooldown is shortened while a first probe waits, and the probe then fails. -/
theorem probe_end_rewrites_own_claim_shortened :
    let policy : PassiveHealthPolicy := ⟨1, Duration.fromMillis 3⟩
    let ops : List Op := [.acquire, .connectionFailed 0, .advance (Duration.fromMillis 3),
      .acquire, .updatePolicy ⟨1, Duration.fromMillis 1⟩]
    let s := run step (init true policy) ops
    let probe : Lease := ⟨1, encodeMillis (Duration.fromMillis 3) ||| halfOpenClaim, false⟩
    Along step InRange (init true policy) ops ∧ probe ∈ s.leases ∧
      (step s (.probeFailed 1)).word ≠ s.word ∧ s.word = probe.claim ∧ s.claimant = some probe.id :=
  have h := probe_end_rewrites_own_claim true ⟨1, Duration.fromMillis 3⟩ _ (by decide)
    ⟨1, encodeMillis (Duration.fromMillis 3) ||| halfOpenClaim, false⟩ (by decide)
    (.probeFailed 1) (by decide) (by decide)
  ⟨by decide, by decide, by decide, h.1, h.2.1⟩

end AiGateway.Routing.Probe
