import Mathlib.Data.Int.Notation
import AiGateway.Lib.Pool
import AiGateway.Lib.Run

/-! Shutdown of the WebSocket sessions: guards count the sessions, a phase refuses new ones, and
tasks wait for both. Every atomic step of every call may interleave with those of the others. -/
namespace AiGateway.WebSocket
open Lib List

inductive Phase where
  | running
  | draining
  | forceClosing
  deriving DecidableEq

def Phase.rank : Phase → ℕ
  | .running => 0
  | .draining => 1
  | .forceClosing => 2

/-- The three calls that wait. -/
inductive Wait where
  | waitDrained
  | shutdownRequested
  | forceRequested
  deriving DecidableEq

def Wait.met (wait : Wait) (phase : Phase) (active : ℤ) : Bool :=
  match wait with
  | .waitDrained => decide (active = 0)
  | .shutdownRequested => decide (phase ≠ .running)
  | .forceRequested => decide (phase = .forceClosing)

/-- Where a waiting call is in its loop; from its creation on a future receives notifications. -/
inductive WaitPoint where
  | check
  | create
  | recheck (notified : Bool)
  | waiting (notified : Bool)
  | returned
  deriving DecidableEq

/-- A call in progress, named by the atomic step it takes next, or a live guard. -/
inductive Activity where
  | reserve
  | reserveLoaded
  | reserveAdded
  | releasing
  | guard
  | notifyDrained
  | beginDraining
  | forceClose
  | notifyPhase
  /-- `late` records that draining had begun when the call started. -/
  | waiter (wait : Wait) (late : Bool) (point : WaitPoint)
  | ended
  deriving DecidableEq

/-- What one atomic step does: to the two atomics, to the call itself and to the futures created
by others. -/
structure Effect where
  phase : Phase
  active : ℤ
  next : Activity
  wakes : Wait → Bool

def wakesNone : Wait → Bool := fun _ => false

def wakesDrained : Wait → Bool
  | .waitDrained => true
  | .shutdownRequested => false
  | .forceRequested => false

def wakesPhase : Wait → Bool
  | .waitDrained => false
  | .shutdownRequested => true
  | .forceRequested => true

/-- `fetch_sub`, and the notification if the count was one. -/
def release (phase : Phase) (active : ℤ) : Effect :=
  ⟨phase, active - 1, if active = 1 then .notifyDrained else .ended, wakesNone⟩

def waitStep (phase : Phase) (active : ℤ) (wait : Wait) : WaitPoint → WaitPoint
  | .check => if wait.met phase active then .returned else .create
  | .create => .recheck false
  | .recheck notified => if wait.met phase active then .returned else .waiting notified
  | .waiting true => .check
  | .waiting false => .waiting false
  | .returned => .returned

def Activity.effect (phase : Phase) (active : ℤ) : Activity → Effect
  | .reserve => ⟨phase, active, if phase = .running then .reserveLoaded else .ended, wakesNone⟩
  | .reserveLoaded => ⟨phase, active + 1, .reserveAdded, wakesNone⟩
  | .reserveAdded => ⟨phase, active, if phase = .running then .guard else .releasing, wakesNone⟩
  | .releasing => release phase active
  | .guard => release phase active
  | .notifyDrained => ⟨phase, active, .ended, wakesDrained⟩
  | .beginDraining =>
    if phase = .running then ⟨.draining, active, .notifyPhase, wakesNone⟩
    else ⟨phase, active, .ended, wakesNone⟩
  | .forceClose =>
    ⟨.forceClosing, active, if phase = .forceClosing then .ended else .notifyPhase, wakesNone⟩
  | .notifyPhase => ⟨phase, active, .ended, wakesPhase⟩
  | .waiter wait late point =>
    ⟨phase, active, .waiter wait late (waitStep phase active wait point), wakesNone⟩
  | .ended => ⟨phase, active, .ended, wakesNone⟩

/-- A waiting call may be dropped before it returns. -/
def Activity.cancel (phase : Phase) (active : ℤ) : Activity → Effect
  | .waiter _ _ _ => ⟨phase, active, .ended, wakesNone⟩
  | other => ⟨phase, active, other, wakesNone⟩

/-- `notify_waiters` reaches every future created before it. -/
def Activity.wake (wakes : Wait → Bool) : Activity → Activity
  | .waiter wait late (.recheck notified) => .waiter wait late (.recheck (notified || wakes wait))
  | .waiter wait late (.waiting notified) => .waiter wait late (.waiting (notified || wakes wait))
  | other => other

structure Lifecycle where
  phase : Phase
  active : ℤ
  activities : List Activity
  deriving DecidableEq

namespace Lifecycle

def new : Lifecycle := ⟨.running, 0, []⟩

inductive Call where
  | reserve
  | beginDraining
  | forceClose
  | wait (wait : Wait)
  deriving DecidableEq

def Call.start (phase : Phase) : Call → Activity
  | .reserve => .reserve
  | .beginDraining => .beginDraining
  | .forceClose => .forceClose
  | .wait target => .waiter target (decide (phase ≠ .running)) .check

/-- A task starts a call; a call or a guard takes its next atomic step, which for a guard is its
drop; or a waiting call is dropped. -/
inductive Event where
  | start (call : Call)
  | advance (index : ℕ)
  | cancel (index : ℕ)
  deriving DecidableEq

def apply (s : Lifecycle) (index : ℕ) (effect : Effect) : Lifecycle :=
  ⟨effect.phase, effect.active, (s.activities.map (Activity.wake effect.wakes)).set index effect.next⟩

def perform (s : Lifecycle) (index : ℕ) (act : Phase → ℤ → Activity → Effect) : Lifecycle :=
  match s.activities[index]? with
  | none => s
  | some activity => s.apply index (act s.phase s.active activity)

def step (s : Lifecycle) : Event → Lifecycle
  | .start call => { s with activities := s.activities ++ [call.start s.phase] }
  | .advance index => s.perform index Activity.effect
  | .cancel index => s.perform index Activity.cancel

end Lifecycle

/-- A live guard, or a reservation behind its increment. -/
def Activity.counted : Activity → Bool
  | .reserveAdded => true
  | .releasing => true
  | .guard => true
  | _ => false

/-- The activity between a change and its notification. -/
def Wait.notifier : Wait → Activity
  | .waitDrained => .notifyDrained
  | .shutdownRequested => .notifyPhase
  | .forceRequested => .notifyPhase

/-- All that the proofs use of a step of `activity` between the given atomics. -/
structure Effect.Sound (phase : Phase) (active : ℤ) (activity : Activity) (effect : Effect) :
    Prop where
  rank_le : phase.rank ≤ effect.phase.rank
  counts : effect.active + (if activity.counted then 1 else 0) =
    active + if effect.next.counted then 1 else 0
  of_guard : effect.next = .guard → activity = .guard ∨ phase = .running
  of_late : ∀ wait point, effect.next = .waiter wait true point →
    ∃ before, activity = .waiter wait true before
  of_returned : ∀ late, effect.next = .waiter .waitDrained late .returned →
    activity = effect.next ∨ active = 0
  of_waiting : ∀ wait late, effect.next = .waiter wait late (.waiting false) →
    activity = effect.next ∨ ¬ wait.met effect.phase effect.active
  of_met : ∀ wait : Wait, wait.met effect.phase effect.active →
    wait.met phase active ∨ effect.next = wait.notifier
  of_notifier : ∀ wait : Wait, activity = wait.notifier →
    effect.next = wait.notifier ∨ effect.wakes wait

theorem Wait.notifier_ne_waiter {wait o : Wait} {late : Bool} {point : WaitPoint} :
    wait.notifier ≠ .waiter o late point := by
  cases wait <;> intro h <;> cases h

namespace Effect.Sound
variable {phase : Phase} {active : ℤ} {activity next : Activity}

theorem unchanged : Sound phase active activity ⟨phase, active, activity, wakesNone⟩ where
  rank_le := Nat.le_refl _
  counts := rfl
  of_guard h := .inl h
  of_late _ point h := ⟨point, h⟩
  of_returned _ _ := .inl rfl
  of_waiting _ _ _ := .inl rfl
  of_met _ h := .inl h
  of_notifier _ h := .inl h

/-- A step that touches neither the atomics nor a waiter. -/
theorem still {wakes : Wait → Bool} (hc : next.counted = activity.counted)
    (hg : next = .guard → phase = .running)
    (hw : ∀ wait late point, next ≠ .waiter wait late point)
    (hn : ∀ wait : Wait, activity = wait.notifier → wakes wait) :
    Sound phase active activity ⟨phase, active, next, wakes⟩ where
  rank_le := Nat.le_refl _
  counts := by rw [hc]
  of_guard h := .inr (hg h)
  of_late _ _ h := absurd h (hw _ _ _)
  of_returned _ h := absurd h (hw _ _ _)
  of_waiting _ _ h := absurd h (hw _ _ _)
  of_met _ h := .inl h
  of_notifier wait h := .inr (hn wait h)

theorem waiter {wait : Wait} {late : Bool} {point : WaitPoint} :
    Sound phase active (.waiter wait late point)
      (Activity.effect phase active (.waiter wait late point)) where
  rank_le := Nat.le_refl _
  counts := rfl
  of_guard h := by cases h
  of_late _ _ h := by
    cases h
    exact ⟨point, rfl⟩
  of_returned _ h := by
    obtain ⟨rfl, rfl, hp⟩ := Activity.waiter.inj h
    cases point with
    | check =>
      refine .inr ?_
      by_contra ha
      simp [waitStep, Wait.met, ha] at hp
    | recheck notified =>
      refine .inr ?_
      by_contra ha
      simp [waitStep, Wait.met, ha] at hp
    | create => cases hp
    | waiting notified => cases notified <;> cases hp
    | returned => exact .inl rfl
  of_waiting _ _ h := by
    obtain ⟨rfl, rfl, hp⟩ := Activity.waiter.inj h
    cases point with
    | check =>
      simp only [waitStep] at hp
      split_ifs at hp
    | recheck notified =>
      simp only [waitStep] at hp
      split_ifs at hp with hm
      exact .inr hm
    | create => cases hp
    | waiting notified =>
      cases notified with
      | true => cases hp
      | false => exact .inl rfl
    | returned => cases hp
  of_met _ h := .inl h
  of_notifier _ h := absurd h.symm Wait.notifier_ne_waiter

/-- A decrement announces the zero it may reach. -/
theorem release (hc : activity.counted = true)
    (hn : ∀ wait : Wait, activity ≠ wait.notifier) :
    Sound phase active activity (release phase active) where
  rank_le := Nat.le_refl _
  counts := by
    have hne : (WebSocket.release phase active).next.counted = false := by
      dsimp only [WebSocket.release]
      split_ifs <;> rfl
    rw [hne, hc]
    change active - 1 + 1 = active + 0
    omega
  of_guard h := by
    dsimp only [WebSocket.release] at h
    split_ifs at h
  of_late _ _ h := by
    dsimp only [WebSocket.release] at h
    split_ifs at h
  of_returned _ h := by
    dsimp only [WebSocket.release] at h
    split_ifs at h
  of_waiting _ _ h := by
    dsimp only [WebSocket.release] at h
    split_ifs at h
  of_met wait hm := by
    cases wait with
    | waitDrained =>
      have hz : active - 1 = 0 := of_decide_eq_true hm
      have hon : active = 1 := by omega
      exact .inr (if_pos hon)
    | shutdownRequested => exact .inl hm
    | forceRequested => exact .inl hm
  of_notifier wait h := absurd h (hn wait)

theorem phaseChange {after : Phase} (hr : phase.rank ≤ after.rank)
    (hc : activity.counted = false) (hn : ∀ wait : Wait, activity ≠ wait.notifier) :
    Sound phase active activity ⟨after, active, .notifyPhase, wakesNone⟩ where
  rank_le := hr
  counts := by rw [hc]; rfl
  of_guard h := by cases h
  of_late _ _ h := by cases h
  of_returned _ h := by cases h
  of_waiting _ _ h := by cases h
  of_met wait hm := by
    cases wait with
    | waitDrained => exact .inl hm
    | shutdownRequested => exact .inr rfl
    | forceRequested => exact .inr rfl
  of_notifier wait h := absurd h (hn wait)

theorem reserveLoaded (ha : 0 ≤ active) :
    Sound phase active .reserveLoaded (Activity.effect phase active .reserveLoaded) where
  rank_le := Nat.le_refl _
  counts := by simp [Activity.effect, Activity.counted]
  of_guard h := by cases h
  of_late _ _ h := by cases h
  of_returned _ h := by cases h
  of_waiting _ _ h := by cases h
  of_met wait hm := by
    cases wait with
    | waitDrained =>
      have hz : active + 1 = 0 := of_decide_eq_true hm
      omega
    | shutdownRequested => exact .inl hm
    | forceRequested => exact .inl hm
  of_notifier wait h := by cases wait <;> cases h

theorem effect (ha : 0 ≤ active) :
    Sound phase active activity (activity.effect phase active) := by
  have hno : ∀ {a : Activity}, a ≠ .notifyDrained → a ≠ .notifyPhase →
      ∀ wait : Wait, a ≠ wait.notifier := by
    intro a hd hp wait
    cases wait with
    | waitDrained => exact hd
    | shutdownRequested => exact hp
    | forceRequested => exact hp
  cases activity with
  | reserve =>
    dsimp only [Activity.effect]
    split_ifs
    · exact still rfl (by simp) (by simp) fun wait h => absurd h (hno (by simp) (by simp) wait)
    · exact still rfl (by simp) (by simp) fun wait h => absurd h (hno (by simp) (by simp) wait)
  | reserveLoaded => exact reserveLoaded ha
  | reserveAdded =>
    dsimp only [Activity.effect]
    split_ifs with hr
    · exact still rfl (fun _ => hr) (by simp)
        fun wait h => absurd h (hno (by simp) (by simp) wait)
    · exact still rfl (by simp) (by simp) fun wait h => absurd h (hno (by simp) (by simp) wait)
  | releasing => exact release rfl (hno (by simp) (by simp))
  | guard => exact release rfl (hno (by simp) (by simp))
  | notifyDrained =>
    refine still rfl (by simp) (by simp) fun wait h => ?_
    cases wait with
    | waitDrained => rfl
    | shutdownRequested => cases h
    | forceRequested => cases h
  | beginDraining =>
    dsimp only [Activity.effect]
    split_ifs with hr
    · exact phaseChange (hr ▸ Nat.zero_le _) rfl (hno (by simp) (by simp))
    · exact still rfl (by simp) (by simp) fun wait h => absurd h (hno (by simp) (by simp) wait)
  | forceClose =>
    dsimp only [Activity.effect]
    split_ifs with hf
    · subst hf
      exact still rfl (by simp) (by simp) fun wait h => absurd h (hno (by simp) (by simp) wait)
    · have hra : phase.rank ≤ Phase.forceClosing.rank := by cases phase <;> decide
      exact phaseChange hra rfl (hno (by simp) (by simp))
  | notifyPhase =>
    refine still rfl (by simp) (by simp) fun wait h => ?_
    cases wait with
    | waitDrained => cases h
    | shutdownRequested => rfl
    | forceRequested => rfl
  | waiter wait late point => exact waiter
  | ended => exact unchanged

theorem cancel : Sound phase active activity (activity.cancel phase active) := by
  cases activity with
  | waiter wait late point =>
    exact still rfl (by simp) (by simp) fun _ h => absurd h.symm Wait.notifier_ne_waiter
  | reserve => exact unchanged
  | reserveLoaded => exact unchanged
  | reserveAdded => exact unchanged
  | releasing => exact unchanged
  | guard => exact unchanged
  | notifyDrained => exact unchanged
  | beginDraining => exact unchanged
  | forceClose => exact unchanged
  | notifyPhase => exact unchanged
  | ended => exact unchanged

end Effect.Sound

section Wake
variable {wakes : Wait → Bool} {activity : Activity}

theorem counted_wake : (activity.wake wakes).counted = activity.counted := by
  fun_cases Activity.wake wakes activity <;> rfl

theorem of_wake_eq_guard (h : activity.wake wakes = .guard) : activity = .guard := by
  revert h
  fun_cases Activity.wake wakes activity with
  | case1 wait late notified => exact fun h => by cases h
  | case2 wait late notified => exact fun h => by cases h
  | case3 o => exact id

variable {wait : Wait} {late : Bool}

theorem of_wake_eq_waiter {point : WaitPoint} (h : activity.wake wakes = .waiter wait late point) :
    ∃ pre, activity = .waiter wait late pre := by
  revert h
  fun_cases Activity.wake wakes activity with
  | case1 wait' late' notified =>
    intro h
    cases h
    exact ⟨_, rfl⟩
  | case2 wait' late' notified =>
    intro h
    cases h
    exact ⟨_, rfl⟩
  | case3 o => exact fun h => ⟨point, h⟩

theorem of_wake_eq_returned (h : activity.wake wakes = .waiter wait late .returned) :
    activity = .waiter wait late .returned := by
  revert h
  fun_cases Activity.wake wakes activity with
  | case1 wait' late' notified => exact fun h => by cases h
  | case2 wait' late' notified => exact fun h => by cases h
  | case3 o => exact id

theorem of_wake_eq_waiting (h : activity.wake wakes = .waiter wait late (.waiting false)) :
    activity = .waiter wait late (.waiting false) ∧ wakes wait = false := by
  revert h
  fun_cases Activity.wake wakes activity with
  | case1 wait' late' notified => exact fun h => by cases h
  | case2 wait' late' notified =>
    intro h
    obtain ⟨rfl, rfl, hp⟩ := Activity.waiter.inj h
    obtain ⟨rfl, hwa⟩ := Bool.or_eq_false_iff.mp (WaitPoint.waiting.inj hp)
    exact ⟨rfl, hwa⟩
  | case3 o hr hw => exact fun h => absurd h (hw _ _ _)

theorem wake_notifier (wait : Wait) : wait.notifier.wake wakes = wait.notifier := by
  cases wait <;> rfl

theorem of_wake_eq_notifier (h : activity.wake wakes = wait.notifier) :
    activity = wait.notifier := by
  revert h
  fun_cases Activity.wake wakes activity with
  | case1 wait' late' notified => exact fun h => absurd h.symm Wait.notifier_ne_waiter
  | case2 wait' late' notified => exact fun h => absurd h.symm Wait.notifier_ne_waiter
  | case3 o => exact id

end Wake

namespace Lifecycle
variable {s : Lifecycle} {i : ℕ} {activity : Activity} {effect : Effect} {P : Lifecycle → Prop}
  {x : Activity}

/-- Whatever is true after a sound step of an activity and after the start of a call is true after
every event. -/
theorem step_cases (ha : 0 ≤ s.active) (hs : P s)
    (hst : ∀ call : Call, P { s with activities := s.activities ++ [call.start s.phase] })
    (hac : ∀ i activity effect, s.activities[i]? = some activity →
      Effect.Sound s.phase s.active activity effect → P (s.apply i effect)) (ev : Event) :
    P (s.step ev) := by
  have hp : ∀ (i : ℕ) (act : Phase → ℤ → Activity → Effect),
      (∀ activity, Effect.Sound s.phase s.active activity (act s.phase s.active activity)) →
      P (s.perform i act) := by
    intro i act hsound
    unfold perform
    cases hfound : s.activities[i]? with
    | none => exact hs
    | some activity => exact hac i activity _ hfound (hsound activity)
  cases ev with
  | start call => exact hst call
  | advance i => exact hp i _ fun _ => .effect ha
  | cancel i => exact hp i _ fun _ => .cancel

/-- An activity of the next state is the one that stepped, or was there up to its flag. -/
theorem of_mem_apply (hx : x ∈ (s.apply i effect).activities) :
    x = effect.next ∨ ∃ y ∈ s.activities, y.wake effect.wakes = x := by
  rcases mem_of_mem_set hx with hol | hn
  · exact .inr (mem_map.mp hol)
  · exact .inl hn

/-- The count of live guards and of reservations in progress. -/
def Counted (s : Lifecycle) : Prop := s.active = s.activities.countP Activity.counted

theorem Counted.nonneg (hs : Counted s) : 0 ≤ s.active := by
  rw [hs]
  exact Int.natCast_nonneg _

theorem Counted.step (hs : Counted s) (ev : Event) : Counted (s.step ev) := by
  refine step_cases hs.nonneg hs (fun call => ?_) (fun i activity effect hfound hsound => ?_) ev
  · have hca : (call.start s.phase).counted = false := by cases call <;> rfl
    simpa [Counted, hca] using hs
  · have hw : (s.activities.map (Activity.wake effect.wakes))[i]? =
        some (activity.wake effect.wakes) := by rw [List.getElem?_map, hfound]; rfl
    have hm : (s.activities.map (Activity.wake effect.wakes)).countP Activity.counted =
        s.activities.countP Activity.counted := by
      rw [countP_map]
      exact countP_congr fun x _ => by rw [Function.comp_apply, counted_wake]
    have hse := countP_set_add (p := Activity.counted) (b := effect.next) hw
    rw [hm, counted_wake] at hse
    have hc := hsound.counts
    have hb : s.active = s.activities.countP Activity.counted := hs
    change effect.active = (((s.activities.map (Activity.wake effect.wakes)).set i
      effect.next).countP Activity.counted : ℕ)
    split_ifs at hse hc <;> omega

/-- A call that started late never sees the running phase. -/
def LateAfterDraining (s : Lifecycle) : Prop :=
  ∀ wait point, .waiter wait true point ∈ s.activities → s.phase ≠ .running

theorem ne_running_of_rank_le {phase after : Phase} (hr : phase.rank ≤ after.rank)
    (hp : phase ≠ .running) : after ≠ .running := by
  rintro rfl
  cases phase with
  | running => exact hp rfl
  | draining => exact absurd hr (by decide)
  | forceClosing => exact absurd hr (by decide)

/-- No guard is live and none can appear. -/
def Closed (s : Lifecycle) : Prop := s.phase ≠ .running ∧ .guard ∉ s.activities

theorem Closed.apply (hs : Closed s) (hfound : s.activities[i]? = some activity)
    (hsound : Effect.Sound s.phase s.active activity effect) : Closed (s.apply i effect) := by
  refine ⟨ne_running_of_rank_le hsound.rank_le hs.1, fun hg => ?_⟩
  rcases of_mem_apply hg with hn | ⟨pre, hm, hw⟩
  · rcases hsound.of_guard hn.symm with rfl | hr
    · exact hs.2 (mem_of_getElem? hfound)
    · exact hs.1 hr
  · exact hs.2 (of_wake_eq_guard hw ▸ hm)

/-- A late drained call returns only into a closed state. -/
def DrainsClosed (s : Lifecycle) : Prop :=
  .waiter .waitDrained true .returned ∈ s.activities → Closed s

/-- A call that sleeps although its condition holds is about to be notified. -/
def NoLostWakeup (s : Lifecycle) : Prop :=
  ∀ wait late, .waiter wait late (.waiting false) ∈ s.activities →
    wait.met s.phase s.active → wait.notifier ∈ s.activities

structure Inv (s : Lifecycle) : Prop where
  counted : Counted s
  late : LateAfterDraining s
  drains : DrainsClosed s
  wakes : NoLostWakeup s

theorem guard_not_mem_of_active_eq_zero (hs : Counted s) (ha : s.active = 0) :
    .guard ∉ s.activities := by
  intro hg
  have hp : 0 < s.activities.countP Activity.counted := countP_pos_iff.mpr ⟨.guard, hg, rfl⟩
  have hc : s.active = s.activities.countP Activity.counted := hs
  omega

section
variable (hs : Inv s) (hfound : s.activities[i]? = some activity)
  (hsound : Effect.Sound s.phase s.active activity effect)
include hs hfound hsound

theorem Inv.lateApply :
    LateAfterDraining (s.apply i effect) := by
  intro wait point hm
  refine ne_running_of_rank_le hsound.rank_le ?_
  rcases of_mem_apply hm with hn | ⟨pre, hb, hw⟩
  · obtain ⟨pre, rfl⟩ := hsound.of_late wait point hn.symm
    exact hs.late wait pre (mem_of_getElem? hfound)
  · obtain ⟨point', rfl⟩ := of_wake_eq_waiter hw
    exact hs.late wait point' hb

theorem Inv.drainsApply : DrainsClosed (s.apply i effect) := by
  intro hm
  have hc : Closed s := by
    rcases of_mem_apply hm with hn | ⟨pre, hb, hw⟩
    · rcases hsound.of_returned true hn.symm with hsa | ha
      · exact hs.drains (hn ▸ hsa ▸ mem_of_getElem? hfound)
      · obtain ⟨point, rfl⟩ := hsound.of_late _ _ hn.symm
        exact ⟨hs.late _ point (mem_of_getElem? hfound),
          guard_not_mem_of_active_eq_zero hs.counted ha⟩
    · exact hs.drains (of_wake_eq_returned hw ▸ hb)
  exact hc.apply hfound hsound

/-- The pending notification of a sleeper outlives every step but the one that sends it. -/
theorem Inv.notifierApply {wait : Wait} {late : Bool}
    (hsl : .waiter wait late (.waiting false) ∈ s.activities)
    (hme : wait.met effect.phase effect.active)
    (hk : activity = wait.notifier → effect.next = wait.notifier) :
    wait.notifier ∈ (s.apply i effect).activities := by
  have hw : (s.activities.map (Activity.wake effect.wakes))[i]? =
      some (activity.wake effect.wakes) := by rw [List.getElem?_map, hfound]; rfl
  have hn : effect.next ∈ (s.apply i effect).activities := mem_set_self hw
  rcases hsound.of_met wait hme with hb | hno
  · have hp : wait.notifier ∈ s.activities := hs.wakes wait late hsl hb
    by_cases ha : activity = wait.notifier
    · exact hk ha ▸ hn
    · have hm : wait.notifier ∈ s.activities.map (Activity.wake effect.wakes) :=
        mem_map.mpr ⟨wait.notifier, hp, wake_notifier wait⟩
      exact mem_set_of_ne hm hw fun h => ha (of_wake_eq_notifier h.symm)
  · exact hno ▸ hn

theorem Inv.wakesApply :
    NoLostWakeup (s.apply i effect) := by
  intro wait late hme hm
  rcases of_mem_apply hme with hne | ⟨pre, hb, hwo⟩
  · rcases hsound.of_waiting wait late hne.symm with hsa | hu
    · have ha : activity = .waiter wait late (.waiting false) := hsa.trans hne.symm
      exact hs.notifierApply hfound hsound (ha ▸ mem_of_getElem? hfound) hm
        fun h => absurd (h.symm.trans ha) Wait.notifier_ne_waiter
    · exact absurd hm hu
  · obtain ⟨rfl, hsi⟩ := of_wake_eq_waiting hwo
    refine hs.notifierApply hfound hsound hb hm fun h => ?_
    rcases hsound.of_notifier wait h with hn | hw
    · exact hn
    · rw [hsi] at hw
      cases hw

end

theorem mem_start {call : Call}
    (hx : x ∈ s.activities ++ [call.start s.phase]) : x ∈ s.activities ∨ x = call.start s.phase := by
  rw [mem_append, mem_singleton] at hx
  exact hx

theorem Closed.start (hs : Closed s) (call : Call) :
    Closed { s with activities := s.activities ++ [call.start s.phase] } := by
  refine ⟨hs.1, fun hg => ?_⟩
  rcases mem_start hg with hol | hn
  · exact hs.2 hol
  · cases call <;> cases hn

theorem Inv.start (hs : Inv s) (call : Call) :
    Inv { s with activities := s.activities ++ [call.start s.phase] } where
  counted := hs.counted.step (.start call)
  late wait point hm := by
    rcases mem_start hm with hol | hn
    · exact hs.late wait point hol
    · cases call with
      | wait target => exact of_decide_eq_true (Activity.waiter.inj hn).2.1.symm
      | reserve => cases hn
      | beginDraining => cases hn
      | forceClose => cases hn
  drains hm := by
    rcases mem_start hm with hol | hn
    · exact (hs.drains hol).start call
    · cases call with
      | wait target => cases (Activity.waiter.inj hn).2.2
      | reserve => cases hn
      | beginDraining => cases hn
      | forceClose => cases hn
  wakes wait late hm hme := by
    rcases mem_start hm with hol | hn
    · exact mem_append_left _ (hs.wakes wait late hol hme)
    · cases call <;> cases hn

theorem Inv.step (hs : Inv s) (ev : Event) : Inv (s.step ev) := by
  refine ⟨hs.counted.step ev, ?_, ?_, ?_⟩
  · exact step_cases hs.counted.nonneg hs.late (fun call => (hs.start call).late)
      (fun _ _ _ => hs.lateApply) ev
  · exact step_cases hs.counted.nonneg hs.drains (fun call => (hs.start call).drains)
      (fun _ _ _ => hs.drainsApply) ev
  · exact step_cases hs.counted.nonneg hs.wakes (fun call => (hs.start call).wakes)
      (fun _ _ _ => hs.wakesApply) ev

theorem Inv.new : Inv new where
  counted := rfl
  late _ _ hm := absurd hm not_mem_nil
  drains hm := absurd hm not_mem_nil
  wakes _ _ hm := absurd hm not_mem_nil

def after (events : List Event) : Lifecycle := run step new events

theorem Inv.after (evs : List Event) : Inv (after evs) := by
  have hst : ∀ (s : Lifecycle) ev, Inv s → Inv (s.step ev) := fun _ ev hs => hs.step ev
  exact run_invariant hst Inv.new evs

/-- A property of a reachable state that every event keeps holds ever after. -/
theorem after_append (hst : ∀ s ev, Inv s → P s → P (s.step ev)) {evs : List Event}
    (h : P (after evs)) (more : List Event) : P (after (evs ++ more)) := by
  have hk : ∀ (s : Lifecycle) ev, Inv s ∧ P s → Inv (s.step ev) ∧ P (s.step ev) :=
    fun s ev hs => ⟨hs.1.step ev, hst s ev hs.1 hs.2⟩
  have hsp : after (evs ++ more) = run Lifecycle.step (after evs) more := run_append _ _ _ _
  rw [hsp]
  exact (run_invariant hk ⟨Inv.after evs, h⟩ more).2

theorem countP_counted (activities : List Activity) :
    activities.countP Activity.counted = activities.count .guard +
      (activities.count .reserveAdded + activities.count .releasing) := by
  induction activities with
  | nil => rfl
  | cons activity activities ih =>
    rw [countP_cons]
    cases activity <;> simp [Activity.counted] <;> omega

/-- Over every interleaving: the phase never goes back; the count is that of the live guards and of
the reservations behind their increment; no guard lives after a late drained call has returned; and
a call that sleeps although its condition holds has its notification pending. -/
theorem shutdown_tracks_sessions (events more : List Event) :
    (after events).phase.rank ≤ (after (events ++ more)).phase.rank ∧
    ((after events).active = ((after events).activities.count .guard +
        ((after events).activities.count .reserveAdded +
          (after events).activities.count .releasing) : ℕ) ∧ 0 ≤ (after events).active) ∧
    (.waiter .waitDrained true .returned ∈ (after events).activities →
      .guard ∉ (after (events ++ more)).activities) ∧
    ∀ wait late, .waiter wait late (.waiting false) ∈ (after events).activities →
      wait.met (after events).phase (after events).active →
      wait.notifier ∈ (after events).activities := by
  have hin : Inv (after events) := Inv.after events
  refine ⟨?_, ⟨?_, hin.counted.nonneg⟩, fun hre => ?_, hin.wakes⟩
  · refine after_append (P := fun s => (after events).phase.rank ≤ s.phase.rank) ?_ (Nat.le_refl _) more
    intro s event hs hr
    exact step_cases (P := fun s => (after events).phase.rank ≤ s.phase.rank) hs.counted.nonneg hr
      (fun _ => hr) (fun _ _ _ _ hsound => Nat.le_trans hr hsound.rank_le) event
  · rw [← countP_counted]
    exact hin.counted
  · refine (after_append (P := Closed) ?_ (hin.drains hre) more).2
    intro s event hs hc
    exact step_cases hs.counted.nonneg hc hc.start (fun _ _ _ => hc.apply) event

end Lifecycle

end AiGateway.WebSocket
