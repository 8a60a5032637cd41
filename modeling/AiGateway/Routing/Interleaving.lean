import AiGateway.Lib.Run
import AiGateway.Routing.Cooldown

/-! The channel operations one atomic access at a time, under every interleaving
of any number of tasks. Each task owns at most one lease. -/
namespace AiGateway.Routing.Interleaving
open Domain Lib

/-- The next atomic access of a task. The clock and the policy are read before the
first access, so their values are arguments of the call. -/
inductive Pc where
  | idle
  | acquireLoad (now : Duration)
  | acquireExchange (now : Duration) (observed : Word)
  | acquireCount (claim : Word)
  | held (claim : Word)
  | failedCount (claim : Word) (threshold : ℕ) (cooldownUntil : Duration)
  | failedStore (claim : Word) (cooldownUntil : Duration)
  | headersReset (claim : Word)
  | headersStore (claim : Word)
  | probeExchange (claim : Word) (cooldownUntil : Duration)
  | dropRelease (claim : Word)
  | dropExchange (claim : Word)
  | dropped
  deriving DecidableEq

/-- The half-open claim of a lease that is not dropped yet, or of an acquisition
past its compare-exchange. -/
def Pc.claim? : Pc → Option Word
  | .idle | .acquireLoad _ | .acquireExchange _ _ | .dropped => none
  | .acquireCount claim | .held claim | .failedCount claim _ _ | .failedStore claim _
  | .headersReset claim | .headersStore claim | .probeExchange claim _ | .dropRelease claim
  | .dropExchange claim => some claim

inductive Action where
  | tryAcquire (now : Duration)
  | connectionFailed (threshold : ℕ) (cooldownUntil : Duration)
  | responseHeadersReceived
  | probeFailed (cooldownUntil : Duration)
  | drop
  | access
  deriving DecidableEq

/-- The pending atomic access of a task, `none` between calls. -/
def access (s : ChannelState) : Pc → Option (ChannelState × Pc)
  | .acquireLoad now =>
    if s.cooldownState = 0#64 then some (s, .acquireCount 0#64)
    else if halfOpenClaimed s.cooldownState ∨ durationMillis now < decodeMillis s.cooldownState then
      some (s, .idle)
    else some (s, .acquireExchange now s.cooldownState)
  | .acquireExchange now observed =>
    if s.cooldownState = observed then
      some ({ s with cooldownState := observed ||| halfOpenClaim },
        .acquireCount (observed ||| halfOpenClaim))
    else some (s, .acquireLoad now)
  | .acquireCount claim => some ({ s with inFlight := s.inFlight + 1 }, .held claim)
  | .failedCount claim threshold cooldownUntil =>
    let failures := ChannelState.countFailure s.consecutiveConnectionFailures
    some ({ s with consecutiveConnectionFailures := failures },
      if threshold ≤ failures then .failedStore claim cooldownUntil else .held claim)
  | .failedStore claim cooldownUntil =>
    some ({ s with cooldownState := encodeMillis cooldownUntil }, .held claim)
  | .headersReset claim =>
    some ({ s with consecutiveConnectionFailures := 0 }, .headersStore claim)
  | .headersStore claim => some ({ s with cooldownState := 0#64 }, .held claim)
  | .probeExchange claim cooldownUntil => some (s.probeFailed claim cooldownUntil, .held claim)
  | .dropRelease claim => some (s.release.2, .dropExchange claim)
  | .dropExchange claim => some (s.cancelProbe claim, .dropped)
  | .idle | .held _ | .dropped => none

/-- A call begins between calls only, the lease being borrowed exclusively. -/
def transition (s : ChannelState) : Pc → Action → Option (ChannelState × Pc)
  | .idle, .tryAcquire now => some (s, .acquireLoad now)
  | .held claim, .connectionFailed threshold cooldownUntil =>
    some (s, .failedCount claim threshold cooldownUntil)
  | .held claim, .responseHeadersReceived => some (s, .headersReset claim)
  | .held claim, .probeFailed cooldownUntil => some (s, .probeExchange claim cooldownUntil)
  | .held claim, .drop => some (s, .dropRelease claim)
  | pc, .access => access s pc
  | _, _ => none

structure State where
  channel : ChannelState
  tasks : ℕ → Pc

def init (active : Bool) : State := ⟨ChannelState.new active, fun _ => .idle⟩

/-- One action of one task; an action the task cannot take changes nothing. -/
def step (s : State) (op : ℕ × Action) : State :=
  match transition s.channel (s.tasks op.1) op.2 with
  | some (channel, pc) => ⟨channel, Function.update s.tasks op.1 pc⟩
  | none => s

/-- What one action can do to the word: leave it while the task keeps its claim, leave it
while the task drops another claim, clear the claim bit, or take a claim. -/
inductive Effect (w w' : Word) (pc pc' : Pc) : Prop where
  | kept (hw : w' = w) (hc : ∀ c, pc.claim? = some c → pc'.claim? = some c)
  | forgotten (hw : w' = w) (hc : pc.claim? ≠ some w)
  | cleared (hw : ¬ halfOpenClaimed w' = true)
  | taken (hc : pc'.claim? = some w')

variable {s s' : ChannelState} {pc pc' : Pc}

theorem access_effect (h : access s pc = some (s', pc')) :
    Effect s.cooldownState s'.cooldownState pc pc' := by
  cases pc with
  | idle | held | dropped => simp [access] at h
  | acquireLoad now =>
    simp only [access] at h
    split_ifs at h <;> cases h <;> exact .kept rfl (by simp [Pc.claim?])
  | acquireExchange now obs =>
    simp only [access] at h
    split_ifs at h <;> cases h
    · exact .taken rfl
    · exact .kept rfl (by simp [Pc.claim?])
  | acquireCount claim =>
    cases h
    exact .kept rfl (by simp [Pc.claim?])
  | failedCount claim thr cooldownUntil =>
    simp only [access] at h
    split_ifs at h <;> cases h <;> exact .kept rfl (by simp [Pc.claim?])
  | failedStore claim cooldownUntil =>
    cases h
    exact .cleared (not_claimed_encodeMillis _)
  | headersReset claim =>
    cases h
    exact .kept rfl (by simp [Pc.claim?])
  | headersStore claim =>
    cases h
    exact .cleared not_claimed_zero
  | probeExchange claim cooldownUntil =>
    cases h
    unfold ChannelState.probeFailed ChannelState.compareExchange
    split_ifs
    · exact .cleared (not_claimed_encodeMillis _)
    · exact .kept rfl (by simp [Pc.claim?])
    · exact .kept rfl (by simp [Pc.claim?])
  | dropRelease claim =>
    cases h
    exact .kept rfl (by simp [Pc.claim?])
  | dropExchange claim =>
    cases h
    unfold ChannelState.cancelProbe ChannelState.compareExchange
    split_ifs with hc hw
    · exact .cleared (not_claimed_and_mask _)
    · exact .forgotten rfl (by simpa [Pc.claim?] using Ne.symm hw)
    · by_cases hw : s.cooldownState = 0#64
      · exact .cleared (hw ▸ not_claimed_zero)
      · exact .forgotten rfl (by simpa [Pc.claim?, not_not.mp hc] using Ne.symm hw)

theorem transition_effect {a : Action} (h : transition s pc a = some (s', pc')) :
    Effect s.cooldownState s'.cooldownState pc pc' := by
  cases a with
  | access =>
    have ha : access s pc = some (s', pc') := by cases pc <;> exact h
    exact access_effect ha
  | _ => cases pc <;> first | (cases h; done) | (cases h; exact .kept rfl (by simp [Pc.claim?]))

/-- A claimed word is the claim of some lease or acquisition. -/
def Held (s : State) : Prop := halfOpenClaimed s.channel.cooldownState = true →
    ∃ t, (s.tasks t).claim? = some s.channel.cooldownState

theorem step_held (s : State) (op : ℕ × Action) (hs : Held s) : Held (step s op) := by
  unfold step
  cases ht : transition s.channel (s.tasks op.1) op.2 with
  | none => exact hs
  | some p =>
    intro hcl
    cases transition_effect ht with
    | kept hw hc =>
      obtain ⟨t, hh⟩ := hs (hw ▸ hcl)
      by_cases he : t = op.1
      · subst he
        exact ⟨op.1, by simpa [hw] using hc _ hh⟩
      · exact ⟨t, by simpa [he, hw] using hh⟩
    | forgotten hw hc =>
      obtain ⟨t, hh⟩ := hs (hw ▸ hcl)
      have he : t ≠ op.1 := fun he => hc (he ▸ hh)
      exact ⟨t, by simpa [he, hw] using hh⟩
    | cleared hw => exact absurd hcl hw
    | taken hc => exact ⟨op.1, by simpa using hc⟩

theorem run_held (act : Bool) (ops : List (ℕ × Action)) : Held (run step (init act) ops) :=
  run_invariant step_held (fun h => absurd h not_claimed_zero) ops

/-- One task acting without interference. -/
def solo (p : ChannelState × Pc) (a : Action) : ChannelState × Pc := (transition p.1 p.2 a).getD p

theorem run_solo (s : State) (t : ℕ) (acts : List Action) :
    run step s (acts.map (Prod.mk t)) = ⟨(run solo (s.channel, s.tasks t) acts).1,
        Function.update s.tasks t (run solo (s.channel, s.tasks t) acts).2⟩ := by
  induction acts generalizing s with
  | nil => simp
  | cons a acts ih =>
    simp only [List.map_cons, run_cons, ih]
    cases ht : transition s.channel (s.tasks t) a with
    | none => simp [step, solo, ht]
    | some p => simp [step, solo, ht]

/-- The pending call of a lease holder runs to its end and the lease is dropped. -/
def finish : List Action := [.access, .access, .drop, .access, .access]

theorem finish_dropped (s : ChannelState) {claim : Word} (hpc : pc.claim? = some claim) :
    (run solo (s, pc) finish).2 = .dropped := by
  cases pc with
  | idle | acquireLoad | acquireExchange | dropped => simp [Pc.claim?] at hpc
  | failedCount claim thr cooldownUntil =>
    by_cases h : thr ≤ ChannelState.countFailure s.consecutiveConnectionFailures <;>
      simp [finish, solo, transition, access, h]
  | _ => rfl

theorem solo_held (p : ChannelState × Pc) (a : Action)
    (hp : halfOpenClaimed p.1.cooldownState = true → p.2.claim? = some p.1.cooldownState) :
    halfOpenClaimed (solo p a).1.cooldownState = true →
      (solo p a).2.claim? = some (solo p a).1.cooldownState := by
  unfold solo
  cases ht : transition p.1 p.2 a with
  | none => exact hp
  | some q =>
    intro hcl
    have he : Effect p.1.cooldownState q.1.cooldownState p.2 q.2 := transition_effect ht
    cases he with
    | kept hw hc => exact hw ▸ hc _ (hp (hw ▸ hcl))
    | forgotten hw hc => exact absurd (hp (hw ▸ hcl)) hc
    | cleared hw => exact absurd hcl hw
    | taken hc => exact hc

theorem finish_clears (s : ChannelState) (pc : Pc) (hpc : pc.claim? = some s.cooldownState) :
    ¬ halfOpenClaimed (run solo (s, pc) finish).1.cooldownState = true := by
  intro hc
  have hh := run_invariant solo_held (s := (s, pc)) (fun _ => hpc) finish hc
  rw [finish_dropped s hpc] at hh
  simp [Pc.claim?] at hh

/-- In every interleaving a claimed word is the half-open claim of a lease that is not
dropped yet or of an acquisition past its compare-exchange, and that task resolves the
probe by running to its end: no channel stays half-open without a request in charge. -/
theorem claimed_word_has_holder (active : Bool) (ops : List (ℕ × Action)) :
    let s := run step (init active) ops
    halfOpenClaimed s.channel.cooldownState = true →
      ∃ t, (s.tasks t).claim? = some s.channel.cooldownState ∧ ¬ halfOpenClaimed
          (run step s (finish.map (Prod.mk t))).channel.cooldownState = true := by
  intro s hc
  obtain ⟨t, ht⟩ := run_held active ops hc
  refine ⟨t, ht, ?_⟩
  rw [run_solo]
  exact finish_clears s.channel (s.tasks t) ht

/-- Task 0 fails once, the cooldown ends, and task 1 wins the probe while task 0
still holds its lease. -/
theorem claimed_word_has_holder_probe :
    let ops : List (ℕ × Action) := [(0, .tryAcquire 0), (0, .access), (0, .access),
      (0, .connectionFailed 1 1000000), (0, .access), (0, .access),
      (1, .tryAcquire 1000000), (1, .access), (1, .access)]
    let s := run step (init true) ops
    halfOpenClaimed s.channel.cooldownState = true ∧
      ∃ t, (s.tasks t).claim? = some s.channel.cooldownState ∧ ¬ halfOpenClaimed
          (run step s (finish.map (Prod.mk t))).channel.cooldownState = true :=
  ⟨by decide, claimed_word_has_holder true _ (by decide)⟩

/-- Uninterrupted, the accesses of a call compute the call of `ChannelState`. -/
theorem solo_tryAcquire (s : ChannelState) (now : Duration) :
    run solo (s, .idle) [.tryAcquire now, .access, .access, .access] =
      match s.tryAcquire now with
      | some (claim, s') => (s', .held claim)
      | none => (s, .idle) := by
  unfold ChannelState.tryAcquire
  split_ifs with hz hc
  · simp [solo, transition, access, hz]
  · simp [solo, transition, access, hz, hc]
  · simp [solo, transition, access, hz, hc]

variable (s : ChannelState) (claim : Word)

theorem solo_connectionFailed (thr : ℕ)
    (cooldownUntil : Duration) :
    run solo (s, .held claim) [.connectionFailed thr cooldownUntil, .access, .access] =
      (s.connectionFailed thr cooldownUntil, .held claim) := by
  unfold ChannelState.connectionFailed
  by_cases h : thr ≤ ChannelState.countFailure s.consecutiveConnectionFailures <;>
    simp [solo, transition, access, h]

theorem solo_responseHeadersReceived :
    run solo (s, .held claim) [.responseHeadersReceived, .access, .access] =
      (s.responseHeadersReceived, .held claim) := rfl

theorem solo_probeFailed (cooldownUntil : Duration) :
    run solo (s, .held claim) [.probeFailed cooldownUntil, .access] =
      (s.probeFailed claim cooldownUntil, .held claim) := rfl

theorem solo_drop :
    run solo (s, .held claim) [.drop, .access, .access] =
      (s.release.2.cancelProbe claim, .dropped) := rfl

end AiGateway.Routing.Interleaving
