import AiGateway.ControlPlane.Coordinator

/-! What is published agrees with what is committed, as long as every operation learns of its own
commit. -/
namespace AiGateway.ControlPlane
open Lib Lib.Stage List Option Table Bool

variable {Records Plugin Snapshot Request : Type} (env : Env Records Plugin Snapshot Request)

/-- The artifacts in use are known, so a new one is another. -/
theorem installed_of_new {config config' : Configuration Records} {pluginId digest : String}
    (ha : config'.artifacts = config.artifacts ++ [⟨pluginId, digest, false⟩])
    (hn : ¬ config.artifacts.any (fun artifact =>
      artifact.pluginId == pluginId && artifact.digest == digest) = true)
    {st : PluginStateRecord} (hs : st ∈ config.states) {used : String}
    (hu : st.artifactDigest = some used) :
    config'.installed st.pluginId used = config.installed st.pluginId used := by
  obtain ⟨artifact, har, hpl, hdi⟩ := config.referenced st hs used hu
  have hot : ¬ (pluginId = st.pluginId ∧ digest = used) := by
    rintro ⟨rfl, rfl⟩
    refine hn (any_eq_true.mpr ⟨artifact, har, ?_⟩)
    simp [hpl, hdi]
  rw [Configuration.installed, ha, any_append, Configuration.installed]
  simpa using fun hp hd => absurd ⟨hp, hd⟩ hot

theorem filter_ensureState (sts : List PluginStateRecord) (pluginId : String) :
    (ensureState sts pluginId).filter (·.enabled) = sts.filter (·.enabled) := by
  unfold ensureState
  split_ifs
  · rfl
  · rw [filter_append]
    exact append_nil _

/-- A discovered plugin makes no difference to the snapshot. -/
theorem compile_discover (config : Configuration Records) (pluginId digest : String) :
    env.compile (config.discover pluginId digest) = env.compile config := by
  unfold Configuration.discover
  split_ifs with hn
  · rfl
  · have hl : ∀ config' : Configuration Records, config'.records = config.records →
        config'.artifacts = config.artifacts ++ [⟨pluginId, digest, false⟩] →
        ∀ st ∈ config.states, env.loadPlugin config' st = env.loadPlugin config st := by
      intro config' hr ha st hs
      unfold Env.loadPlugin
      cases hu : st.artifactDigest with
      | none => rfl
      | some used => simp only [installed_of_new ha hn hs hu, hr]
    have hre := map_congr_left (l := config.states.filter (·.enabled))
      (fun st hs => congrArg (Prod.mk st.pluginId)
        (hl ⟨config.records, _, _, config.referenced_discover pluginId digest⟩ rfl rfl st
          (mem_of_mem_filter hs)))
    unfold Env.compile
    simp only [filter_ensureState]
    rw [hre]

namespace State

/-- What the holder of the lock does until it is suspended again. -/
inductive Resumed (s : State Records Snapshot Request)
    (holder : Holder Records Snapshot Request) : State Records Snapshot Request → Prop
  | reloaded (next : Snapshot) (hphase : holder.phase = .locked)
      (hnext : candidate env s.database none = .ok next) :
      Resumed s holder (s.publishAndFinish env holder.task next)
  | prepared (pending : Configuration Records) (hphase : holder.phase = .locked) :
      Resumed s holder { s with holder := some { holder with phase := .prepared pending } }
  | unchanged (hphase : holder.phase = .locked) : Resumed s holder (s.finish holder.task .done)
  | failed (error : ControlPlaneError) (hphase : holder.phase.untold = false) :
      Resumed s holder (s.finish holder.task (.failed error))
  | checked (pending : Configuration Records) (plugin : Option (String × Bool)) (next : Snapshot)
      (hphase : holder.phase = .prepared pending) (hnext : candidate env pending plugin = .ok next) :
      Resumed s holder { s with holder := some { holder with phase := .committing pending next } }
  | committed (pending : Configuration Records) (next : Snapshot)
      (hphase : holder.phase = .committing pending next) :
      Resumed s holder
        { s with database := pending, holder := some { holder with phase := .committed next } }
  | published (next : Snapshot) (hphase : holder.phase = .committed next) :
      Resumed s holder (s.publishAndFinish env holder.task next)
  | stuck (pending : Configuration Records) (hphase : holder.phase = .prepared pending) :
      Resumed s holder s

theorem resumed (s : State Records Snapshot Request) (holder : Holder Records Snapshot Request) :
    Resumed env s holder (s.resume env holder) := by
  obtain ⟨task, op, phase⟩ := holder
  cases phase with
  | locked =>
    cases op with
    | reload =>
      cases hn : candidate env s.database none with
      | ok next =>
        simp only [resume, hn]
        exact .reloaded next rfl hn
      | error err =>
        simp only [resume, hn]
        exact .failed err rfl
    | change req plugin =>
      cases hp : env.prepare req s.database with
      | ok pend =>
        cases pend with
        | some pend =>
          simp only [resume, hp]
          exact .prepared pend rfl
        | none =>
          simp only [resume, hp]
          exact .unchanged rfl
      | error err =>
        simp only [resume, hp]
        exact .failed err rfl
  | prepared pend =>
    cases op with
    | reload => exact .stuck pend rfl
    | change req plugin =>
      cases hn : candidate env pend plugin with
      | ok next =>
        simp only [resume, hn]
        exact .checked pend plugin next rfl hn
      | error err =>
        simp only [resume, hn]
        exact .failed err rfl
  | committing pend next => exact .committed pend next rfl
  | committed next => exact .published next rfl

inductive Moved (s : State Records Snapshot Request) :
    Event Request → State Records Snapshot Request → Prop
  | ignored (event : Event Request) (hevent : event ≠ .poisonRegistry) : Moved s event s
  | called (task : ℕ) (operation : Operation Request) (hnew : s.known task = false) :
      Moved s (.call task operation) { s with waiting := s.waiting.insert task operation }
  | acquired (task : ℕ) (operation : Operation Request) (hfree : s.holder = none)
      (hwaiting : s.waiting.get task = some operation) :
      Moved s (.acquire task)
        { s with waiting := s.waiting.erase task, holder := some ⟨task, operation, .locked⟩ }
  | resumed (holder : Holder Records Snapshot Request) (s' : State Records Snapshot Request)
      (hholder : s.holder = some holder) (hresumed : Resumed env s holder s') :
      Moved s (.answer true) s'
  | refused (holder : Holder Records Snapshot Request) (hholder : s.holder = some holder) :
      Moved s (.answer false) (s.fail holder (.failed .repository))
  | cancelled (holder : Holder Records Snapshot Request) (hholder : s.holder = some holder) :
      Moved s (.drop holder.task) (s.fail holder .cancelled)
  | forgotten (task : ℕ) : Moved s (.drop task) { s with waiting := s.waiting.erase task }
  | discovered (pluginId digest : String) (hwriting : s.writing = false) :
      Moved s (.discover pluginId digest)
        { s with database := s.database.discover pluginId digest }
  | poisoned :
      Moved s .poisonRegistry { s with process := { s.process with registryPoisoned := true } }

theorem moved (s : State Records Snapshot Request) (ev : Event Request) :
    Moved env s ev (s.step env ev) := by
  cases ev with
  | call task op =>
    cases hk : s.known task with
    | true =>
      simp only [step, hk, if_true]
      exact .ignored _ (by simp)
    | false =>
      simp only [step, hk, false_eq_true, if_false]
      exact .called task op hk
  | acquire task =>
    cases hh : s.holder with
    | some holder =>
      simp only [step, acquire, hh]
      exact .ignored _ (by simp)
    | none =>
      cases hw : s.waiting.get task with
      | none =>
        simp only [step, acquire, hh, hw]
        exact .ignored _ (by simp)
      | some op =>
        simp only [step, acquire, hh, hw]
        exact .acquired task op hh hw
  | answer ok =>
    cases hh : s.holder with
    | none =>
      simp only [step, hh]
      exact .ignored _ (by simp)
    | some holder =>
      cases ok with
      | true =>
        simp only [step, hh, if_true]
        exact .resumed holder _ hh (resumed env s holder)
      | false =>
        simp only [step, hh, false_eq_true, if_false]
        exact .refused holder hh
  | drop task =>
    cases hh : s.holder with
    | none =>
      have hs : s.step env (.drop task) = { s with waiting := s.waiting.erase task } := by
        simp only [step, State.drop, hh]
      rw [hs]
      exact .forgotten task
    | some holder =>
      by_cases ht : holder.task = task
      · subst ht
        simp only [step, State.drop, hh, if_true]
        exact .cancelled holder hh
      · have hs : s.step env (.drop task) = { s with waiting := s.waiting.erase task } := by
          simp only [step, State.drop, hh, ht, if_false]
        rw [hs]
        exact .forgotten task
  | discover pluginId digest =>
    cases hwr : s.writing with
    | true =>
      simp only [step, hwr, if_true]
      exact .ignored _ (by simp)
    | false =>
      simp only [step, hwr, false_eq_true, if_false]
      exact .discovered pluginId digest hwr
  | poisonRegistry => exact .poisoned

variable {next : Snapshot} {s' : State Records Snapshot Request} {task : ℕ}
  {config db : Configuration Records} {out : Outcome}

/-- A candidate is the compilation of its configuration, and its policies are valid. -/
theorem candidate_eq_ok {plugin : Option (String × Bool)}
    (h : candidate env config plugin = .ok next) :
    env.compile config = .ok next ∧ env.validUpstreamPolicies next = true := by
  obtain ⟨compiled, hc, h⟩ := bind_eq_ok.mp h
  obtain ⟨⟨⟩, -, h⟩ := bind_eq_ok.mp h
  obtain ⟨⟨⟩, hv, h⟩ := bind_eq_ok.mp h
  cases h
  exact ⟨hc, ensure_eq_ok.mp hv⟩

/-- The parts of the process agree with one another. -/
structure Reconciled (process : Process Snapshot) : Prop where
  available : process.registryPoisoned = false
  policy : process.policy = env.passiveHealth process.snapshot
  routing : process.routing = process.snapshot
  registry : ∀ reconciled, process.registry = some reconciled → reconciled = process.snapshot

/-- What the database holds while the lock holder is suspended. -/
def Stored (s : State Records Snapshot Request) : Option (Phase Records Snapshot) → Prop
  | some (.committed next) =>
    env.compile s.database = .ok next ∧ env.validUpstreamPolicies next = true
  | some (.committing pending next) =>
    env.compile s.database = .ok s.process.snapshot ∧ env.compile pending = .ok next ∧
      env.validUpstreamPolicies next = true
  | _ => env.compile s.database = .ok s.process.snapshot

structure Consistent (s : State Records Snapshot Request) : Prop where
  reconciled : Reconciled env s.process
  stored : s.Stored env (s.holder.map (·.phase))

variable {env} {s s₀ : State Records Snapshot Request} {holder : Holder Records Snapshot Request}

theorem Consistent.finish (h : s.Consistent env) (hh : s.holder = some holder)
    (hp : holder.phase.untold = false) (task : ℕ) (out : Outcome) :
    (s.finish task out).Consistent env := by
  refine ⟨h.reconciled, ?_⟩
  have hs := h.stored
  rw [hh, map_some] at hs
  cases hc : holder.phase with
  | locked =>
    rw [hc] at hs
    exact hs
  | prepared pend =>
    rw [hc] at hs
    exact hs
  | committing pend next =>
    rw [hc] at hs
    exact hs.1
  | committed next =>
    rw [hc] at hp
    cases hp

theorem Reconciled.publish {proc : Process Snapshot} (h : Reconciled env proc)
    (hv : env.validUpstreamPolicies next = true) :
    Reconciled env
      { proc with
        registry := proc.reconcileRegistry env next
        policy := env.passiveHealth next
        routing := next
        snapshot := next } := by
  refine ⟨h.available, rfl, rfl, fun reconciled hr => ?_⟩
  have hre : proc.registry.map (fun _ => next) = some reconciled := by
    rw [← hr]
    simp [Process.reconcileRegistry, h.available, hv]
  obtain ⟨-, -, heq⟩ := map_eq_some_iff.mp hre
  exact heq.symm

theorem Consistent.published (h : s.Consistent env)
    (hc : env.compile s.database = .ok next) (hv : env.validUpstreamPolicies next = true)
    (task : ℕ) : (s.publishAndFinish env task next).Consistent env := by
  -- compiling has already checked what publishing asserts
  rw [publishAndFinish, Process.publish, if_pos (env.passiveHealth next).positive]
  exact ⟨h.reconciled.publish hv, hc⟩

theorem Consistent.resumed (h : s.Consistent env) (hh : s.holder = some holder)
    (hr : Resumed env s holder s') :
    s'.Consistent env := by
  have hs := h.stored
  rw [hh, map_some] at hs
  cases hr with
  | reloaded next hp hn =>
    obtain ⟨hc, hv⟩ := candidate_eq_ok env hn
    exact h.published hc hv holder.task
  | prepared pend hp =>
    rw [hp] at hs
    exact ⟨h.reconciled, hs⟩
  | unchanged hp => exact h.finish hh (by rw [hp]; rfl) holder.task .done
  | failed err hp => exact h.finish hh hp holder.task (.failed err)
  | checked pend plugin next hp hn =>
    rw [hp] at hs
    exact ⟨h.reconciled, hs, candidate_eq_ok env hn⟩
  | committed pend next hp =>
    rw [hp] at hs
    exact ⟨h.reconciled, hs.2⟩
  | published next hp =>
    rw [hp] at hs
    exact h.published hs.1 hs.2 holder.task
  | stuck pend hp => exact h

def untold (s : State Records Snapshot Request) : Bool :=
  s.holder.any (fun holder => holder.phase.untold)

/-- An event that keeps no commit from its operation and leaves the registry usable. -/
def Heard (s : State Records Snapshot Request) : Event Request → Prop
  | .answer ok => s.untold = true → ok = true
  | .drop task => s.untold = true → s.holder.all (fun holder => holder.task != task) = true
  | .poisonRegistry => False
  | _ => True

instance (s : State Records Snapshot Request) : (event : Event Request) → Decidable (s.Heard event)
  | .answer ok => inferInstanceAs (Decidable (s.untold = true → ok = true))
  | .drop task => inferInstanceAs (Decidable (s.untold = true →
      s.holder.all (fun holder => holder.task != task) = true))
  | .poisonRegistry => .isFalse id
  | .call _ _ => .isTrue trivial
  | .acquire _ => .isTrue trivial
  | .discover _ _ => .isTrue trivial

theorem Consistent.fail (h : s.Consistent env) (hh : s.holder = some holder)
    (ht : holder.phase.untold = false) (out : Outcome) :
    (s.fail holder out).Consistent env := by
  rw [State.fail, ht]
  exact h.finish hh ht holder.task out

theorem Stored.discover {phase : Option (Phase Records Snapshot)} (h : s.Stored env phase)
    (hw : phase.any Phase.writing = false) (pluginId digest : String) :
    Stored env { s with database := s.database.discover pluginId digest } phase := by
  cases phase with
  | none => exact (compile_discover env s.database pluginId digest).trans h
  | some phase =>
    cases phase with
    | locked => exact (compile_discover env s.database pluginId digest).trans h
    | prepared pend => cases hw
    | committing pend next => cases hw
    | committed next => exact ⟨(compile_discover env s.database pluginId digest).trans h.1, h.2⟩

theorem told_of_heard (hho : s.holder = some holder) (hh : s.untold ≠ true) :
    holder.phase.untold = false := by
  rw [untold, hho] at hh
  exact eq_false_iff.mpr hh

/-- Every step keeps the process consistent with the database unless a commit goes unheard. -/
theorem Consistent.step (h : s.Consistent env) (ev : Event Request) (hhe : s.Heard ev) :
    (s.step env ev).Consistent env := by
  have hm := moved env s ev
  generalize s.step env ev = s' at hm
  cases hm with
  | ignored => exact h
  | called => exact ⟨h.reconciled, h.stored⟩
  | acquired task op hf hwa =>
    have hs := h.stored
    rw [hf] at hs
    exact ⟨h.reconciled, hs⟩
  | resumed holder _ hh hr => exact h.resumed hh hr
  | refused holder hh =>
    have ht := told_of_heard hh (fun hu => false_ne_true (hhe hu))
    exact h.fail hh ht (.failed .repository)
  | cancelled holder hh =>
    refine h.fail hh (told_of_heard hh (fun hu => ?_)) .cancelled
    have hot := hhe hu
    simp [hh] at hot
  | forgotten task => exact ⟨h.reconciled, h.stored⟩
  | discovered pluginId digest hw =>
    refine ⟨h.reconciled, h.stored.discover ?_ pluginId digest⟩
    rw [Option.any_map]
    exact hw
  | poisoned => exact hhe.elim

/-- A task is in one place: it waits, it holds the lock, or it has returned. -/
structure Separate (s : State Records Snapshot Request) : Prop where
  waiting : ∀ task operation, s.waiting.get task = some operation →
    s.outcomes.get task = none ∧ ∀ holder, s.holder = some holder → holder.task ≠ task
  holding : ∀ holder, s.holder = some holder → s.outcomes.get holder.task = none

theorem Separate.finish (h : s.Separate) (hh : s.holder = some holder) (out : Outcome) :
    (s.finish holder.task out).Separate := by
  refine ⟨fun task op hw => ⟨?_, fun _ hn => ?_⟩, fun _ hn => ?_⟩
  · obtain ⟨hou, hot⟩ := h.waiting task op hw
    rw [State.finish, get_insert_ne _ _ (Ne.symm (hot holder hh))]
    exact hou
  · cases hn
  · cases hn

theorem Separate.advance (h : s.Separate) (hh : s.holder = some holder)
    (database : Configuration Records) (phase : Phase Records Snapshot) :
    Separate { s with database, holder := some { holder with phase } } := by
  refine ⟨fun task op hw => ?_, fun next hn => ?_⟩
  · obtain ⟨hou, hot⟩ := h.waiting task op hw
    refine ⟨hou, fun next hn => ?_⟩
    cases hn
    exact hot holder hh
  · cases hn
    exact h.holding holder hh

theorem publishAndFinish_eq (env : Env Records Plugin Snapshot Request)
    (s : State Records Snapshot Request) (task : ℕ) (next : Snapshot) :
    ∃ process out, (out = .done ∨ out = .lost) ∧
      s.publishAndFinish env task next = { s with process }.finish task out := by
  refine ⟨(s.process.publish env next).1, if (s.process.publish env next).2 then .done else .lost,
    ?_, rfl⟩
  cases (s.process.publish env next).2
  · exact .inr rfl
  · exact .inl rfl

theorem Separate.process (h : s.Separate) (process : Process Snapshot) :
    Separate { s with process } := ⟨h.waiting, h.holding⟩

theorem Separate.resumed (h : s.Separate) (hh : s.holder = some holder)
    (hr : Resumed env s holder s') : s'.Separate := by
  cases hr with
  | reloaded next hp hn =>
    obtain ⟨proc, out, -, heq⟩ := publishAndFinish_eq env s holder.task next
    rw [heq]
    exact (h.process proc).finish hh out
  | prepared pend hp => exact h.advance hh s.database _
  | unchanged hp => exact h.finish hh .done
  | failed err hp => exact h.finish hh (.failed err)
  | checked pend plugin next hp hn => exact h.advance hh s.database _
  | committed pend next hp => exact h.advance hh pend _
  | published next hp =>
    obtain ⟨proc, out, -, heq⟩ := publishAndFinish_eq env s holder.task next
    rw [heq]
    exact (h.process proc).finish hh out
  | stuck pend hp => exact h

theorem known_eq_false (h : s.known task = false) :
    s.outcomes.get task = none ∧ ∀ holder, s.holder = some holder → holder.task ≠ task := by
  simp only [known, or_eq_false_iff, isSome_eq_false_iff, isNone_iff_eq_none] at h
  refine ⟨h.2, fun holder hh ht => ?_⟩
  have hot := h.1.2
  simp [hh, ht] at hot

theorem Separate.step (h : s.Separate) (ev : Event Request) : (s.step env ev).Separate := by
  have hm := moved env s ev
  generalize s.step env ev = s' at hm
  cases hm with
  | ignored => exact h
  | called task op hn =>
    refine ⟨fun o op' hw => ?_, h.holding⟩
    rw [get_insert] at hw
    split_ifs at hw with heq
    · obtain ⟨hou, hot⟩ := known_eq_false hn
      rw [heq]
      exact ⟨hou, hot⟩
    · exact h.waiting o op' hw
  | acquired task op hf hw =>
    refine ⟨fun o op' hot => ?_, fun holder hh => ?_⟩
    · rw [get_erase] at hot
      split_ifs at hot with heq
      refine ⟨(h.waiting o op' hot).1, fun holder hh => ?_⟩
      cases hh
      exact Ne.symm heq
    · cases hh
      exact (h.waiting task op hw).1
  | resumed holder _ hh hr => exact h.resumed hh hr
  | refused holder hh => exact h.finish hh _
  | cancelled holder hh => exact h.finish hh _
  | forgotten task =>
    refine ⟨fun o op hot => ?_, h.holding⟩
    rw [get_erase] at hot
    split_ifs at hot
    exact h.waiting o op hot
  | discovered => exact ⟨h.waiting, h.holding⟩
  | poisoned => exact h.process _

/-- The task has written to the database or the process, or has returned without an error. -/
def Written (s : State Records Snapshot Request) (task : ℕ) : Prop :=
  (∃ holder, s.holder = some holder ∧ holder.task = task ∧ holder.phase.untold = true) ∨
    s.outcomes.get task = some .done ∨ s.outcomes.get task = some .lost

theorem written_publishAndFinish (s : State Records Snapshot Request) (task : ℕ)
    (next : Snapshot) : (s.publishAndFinish env task next).Written task := by
  obtain ⟨proc, out, hou, heq⟩ := publishAndFinish_eq env s task next
  rw [heq]
  refine .inr ?_
  rw [State.finish, get_insert_self, Option.some.injEq, Option.some.injEq]
  exact hou

/-- Another task that returns leaves the outcome of this one alone. -/
theorem Written.finish_other (h : s.Separate) (hh : s.holder = some holder)
    (hw : s.outcomes.get task = some .done ∨ s.outcomes.get task = some .lost)
    (process : Process Snapshot) (out : Outcome) :
    Written ({ s with process }.finish holder.task out) task := by
  have hne : task ≠ holder.task := by
    rintro rfl
    rw [h.holding holder hh] at hw
    rcases hw with hd | hl
    · cases hd
    · cases hl
  refine .inr ?_
  rw [State.finish, get_insert_ne _ _ hne]
  exact hw

theorem Written.resumed (h : s.Separate) (hw : s.Written task)
    (hh : s.holder = some holder) (hre : Resumed env s holder s') : s'.Written task := by
  rcases hw with ⟨found, hf, ht, hu⟩ | hr
  · obtain rfl : found = holder := Option.some.inj (hf.symm.trans hh)
    subst ht
    cases hre with
    | published next hp => exact written_publishAndFinish s found.task next
    | reloaded next hp hn => exact written_publishAndFinish s found.task next
    | prepared pend hp =>
      rw [hp] at hu
      cases hu
    | unchanged hp => exact .inr (.inl (get_insert_self _ _ _))
    | failed err hp =>
      rw [hp] at hu
      cases hu
    | checked pend plugin next hp hn =>
      rw [hp] at hu
      cases hu
    | committed pend next hp =>
      rw [hp] at hu
      cases hu
    | stuck pend hp =>
      rw [hp] at hu
      cases hu
  · cases hre with
    | published next hp =>
      obtain ⟨proc, out, -, heq⟩ := publishAndFinish_eq env s holder.task next
      rw [heq]
      exact .finish_other h hh hr proc out
    | reloaded next hp hn =>
      obtain ⟨proc, out, -, heq⟩ := publishAndFinish_eq env s holder.task next
      rw [heq]
      exact .finish_other h hh hr proc out
    | prepared pend hp => exact .inr hr
    | unchanged hp => exact .finish_other h hh hr s.process .done
    | failed err hp => exact .finish_other h hh hr s.process (.failed err)
    | checked pend plugin next hp hn => exact .inr hr
    | committed pend next hp => exact .inr hr
    | stuck pend hp => exact .inr hr

theorem Written.fail (h : s.Separate) (hw : s.Written task)
    (hh : s.holder = some holder) (out : Outcome) :
    (s.fail holder out).Written task := by
  rcases hw with ⟨found, hf, ht, hu⟩ | hr
  · obtain rfl : found = holder := Option.some.inj (hf.symm.trans hh)
    rw [State.fail, hu, ← ht]
    exact .inr (.inr (get_insert_self _ _ _))
  · exact .finish_other h hh hr s.process _

/-- What a task has written stays written. -/
theorem Written.step (h : s.Separate) (hw : s.Written task)
    (ev : Event Request) : (s.step env ev).Written task := by
  have hm := moved env s ev
  generalize s.step env ev = s' at hm
  cases hm with
  | ignored => exact hw
  | called => exact hw
  | acquired o op hfr hwa =>
    rcases hw with ⟨found, hf, -, -⟩ | hr
    · rw [hfr] at hf
      cases hf
    · exact .inr hr
  | resumed holder _ hh hre => exact hw.resumed h hh hre
  | refused holder hh => exact hw.fail h hh _
  | cancelled holder hh => exact hw.fail h hh _
  | forgotten o => exact hw
  | discovered pluginId digest hwr => exact hw
  | poisoned => exact hw

/-- The steps of a task leave the database and the snapshot alone until it commits or reloads. -/
theorem kept_or_written (env : Env Records Plugin Snapshot Request) {ev : Event Request}
    (ha : s.actor ev = some task) :
    (s.step env ev).database = s.database ∧ (s.step env ev).process.snapshot = s.process.snapshot ∨
      (s.step env ev).Written task := by
  have hm := moved env s ev
  generalize s.step env ev = s' at hm
  cases hm with
  | ignored => exact .inl ⟨rfl, rfl⟩
  | called => exact .inl ⟨rfl, rfl⟩
  | acquired => exact .inl ⟨rfl, rfl⟩
  | resumed holder _ hh hr =>
    have ht : holder.task = task := by
      rw [actor, hh] at ha
      exact Option.some.inj ha
    cases hr with
    | published next hp => exact .inr (ht ▸ written_publishAndFinish s holder.task next)
    | reloaded next hp hn => exact .inr (ht ▸ written_publishAndFinish s holder.task next)
    | committed pend next hp => exact .inr (.inl ⟨_, rfl, ht, rfl⟩)
    | prepared => exact .inl ⟨rfl, rfl⟩
    | unchanged => exact .inl ⟨rfl, rfl⟩
    | failed => exact .inl ⟨rfl, rfl⟩
    | checked => exact .inl ⟨rfl, rfl⟩
    | stuck => exact .inl ⟨rfl, rfl⟩
  | refused => exact .inl ⟨rfl, rfl⟩
  | cancelled => exact .inl ⟨rfl, rfl⟩
  | forgotten => exact .inl ⟨rfl, rfl⟩
  | discovered => cases ha
  | poisoned => cases ha

/-- The coordinator of a process that has published what is committed. -/
def start (env : Env Records Plugin Snapshot Request) (database : Configuration Records)
    (snapshot : Snapshot) (withRegistry : Bool) : State Records Snapshot Request where
  database := database
  process := ⟨snapshot, env.passiveHealth snapshot, snapshot,
    if withRegistry then some snapshot else none, false⟩
  waiting := ∅
  holder := none
  outcomes := ∅

theorem consistent_start {snap : Snapshot}
    (h : env.compile db = .ok snap) (withRegistry : Bool) :
    (start env db snap withRegistry).Consistent env := by
  refine ⟨⟨rfl, rfl, rfl, fun reconciled hr => ?_⟩, h⟩
  cases withRegistry with
  | true => exact (Option.some.inj hr).symm
  | false => cases hr

theorem separate_start (env : Env Records Plugin Snapshot Request)
    (db : Configuration Records) (snap : Snapshot) (withRegistry : Bool) :
    (start env db snap withRegistry).Separate := by
  refine ⟨fun task op hw => ?_, fun holder hh => ?_⟩
  · rw [start, get_empty] at hw
    cases hw
  · cases hh

/-- A task that has written does not report a failure later. -/
theorem Written.returned (h : s.Separate) (hw : s.Written task) (hou : s.outcomes.get task = some out) :
    out = .done ∨ out = .lost := by
  rcases hw with ⟨holder, hh, rfl, -⟩ | hd | hl
  · rw [h.holding holder hh] at hou
    cases hou
  · exact .inl (Option.some.inj (hou.symm.trans hd))
  · exact .inr (Option.some.inj (hou.symm.trans hl))

/-- None of the steps of a task that failed or was cancelled before its commit has changed the
database or the snapshot. -/
theorem kept_of_failed (h : s₀.Separate)
    (pre : List (Event Request)) (ev : Event Request) (after : List (Event Request))
    (ha : (run (step env) s₀ pre).actor ev = some task)
    (hou : (run (step env) s₀ (pre ++ ev :: after)).outcomes.get task = some out)
    (hf : out ≠ .done ∧ out ≠ .lost) :
    (run (step env) s₀ (pre ++ [ev])).database = (run (step env) s₀ pre).database ∧
      (run (step env) s₀ (pre ++ [ev])).process.snapshot =
        (run (step env) s₀ pre).process.snapshot := by
  have hse : (run (step env) s₀ pre).Separate := run_invariant (fun _ op h => h.step op) h pre
  rw [run_append, run_cons] at hou
  rw [run_append]
  rcases kept_or_written env ha with hk | hwr
  · exact hk
  · have hl : ∀ s : State Records Snapshot Request, ∀ op, s.Separate ∧ s.Written task →
        (s.step env op).Separate ∧ (s.step env op).Written task :=
      fun _ op hs => ⟨hs.1.step op, hs.2.step hs.1 op⟩
    obtain ⟨he, hw⟩ := run_invariant hl ⟨hse.step ev, hwr⟩ after
    rcases hw.returned he hou with hd | hlo
    · exact absurd hd hf.1
    · exact absurd hlo hf.2

end State

/-- As long as every operation learns of its own commit: whenever none holds the lock, the
published snapshot is the compilation of the committed configuration and the routing runtime and
the client registry have been reconciled with it. An operation that fails or is cancelled before
its commit has changed neither the database nor the snapshot. -/
theorem published_is_committed (env : Env Records Plugin Snapshot Request)
    (database : Configuration Records) (snapshot : Snapshot) (withRegistry : Bool)
    (hstart : env.compile database = .ok snapshot) (events : List (Event Request))
    (hheard : Along (State.step env) State.Heard
      (State.start env database snapshot withRegistry) events) :
    let reached := run (State.step env) (State.start env database snapshot withRegistry)
    ((reached events).holder = none →
      env.compile (reached events).database = .ok (reached events).process.snapshot ∧
      State.Reconciled env (reached events).process) ∧
    ∀ before event after task outcome, events = before ++ event :: after →
      (reached before).actor event = some task →
      (reached events).outcomes.get task = some outcome → outcome ≠ .done → outcome ≠ .lost →
      (reached (before ++ [event])).database = (reached before).database ∧
      (reached (before ++ [event])).process.snapshot = (reached before).process.snapshot := by
  intro reached
  have hc : (reached events).Consistent env :=
    run_invariant_along (fun _ event h hheard => h.step event hheard)
      (State.consistent_start hstart withRegistry) hheard
  refine ⟨fun hf => ?_, ?_⟩
  · have hs := hc.stored
    rw [hf] at hs
    exact ⟨hs, hc.reconciled⟩
  · rintro before event after task outcome rfl ha hou hd hl
    exact State.kept_of_failed (State.separate_start env database snapshot withRegistry) before event
      after ha hou ⟨hd, hl⟩

theorem referenced_nil (artifacts : List PluginArtifactRecord) :
    ∀ st ∈ ([] : List PluginStateRecord), ∀ digest, st.artifactDigest = some digest →
      ∃ artifact ∈ artifacts, artifact.pluginId = st.pluginId ∧ artifact.digest = digest :=
  forall_mem_nil _

/-- The records are a number, which is also the snapshot; a request replaces it, and zero is no
valid configuration. -/
def numberEnv : Env ℕ Unit ℕ ℕ where
  configuredPlugin _ _ _ := .ok ()
  passiveHealthInput _ := ⟨3, 30⟩
  compileWithPlugins records _ _ _ := if records = 0 then .error .compile else .ok records
  hasPlugin _ _ := true
  validUpstreamPolicies _ := true
  passiveHealth _ := ⟨3, 30, by decide⟩
  prepare request _ := .ok (some ⟨request, [], [], referenced_nil []⟩)

def numberConfiguration (records : ℕ) : Configuration ℕ := ⟨records, [], [], referenced_nil []⟩

/-- An invalid change, a valid one that a plugin is discovered during, and a reload that is
dropped. -/
def eventfulRun : List (Event ℕ) :=
  [.call 1 (.change 0 none), .call 2 (.change 5 none), .acquire 1, .answer true, .answer true,
    .acquire 2, .discover "codex" "d", .answer true, .call 3 .reload, .answer true, .answer true,
    .answer true, .acquire 3, .drop 3]

theorem published_is_committed_eventful :
    let reached := run (State.step numberEnv) (State.start numberEnv (numberConfiguration 1) 1 true)
    numberEnv.compile (reached eventfulRun).database = .ok (reached eventfulRun).process.snapshot ∧
      (reached eventfulRun).outcomes.get 1 = some (.failed .compile) ∧
      (reached eventfulRun).process.snapshot = 5 :=
  ⟨((published_is_committed numberEnv (numberConfiguration 1) 1 true (by decide) eventfulRun
    (by decide)).1 (by decide)).1, by decide, by decide⟩

/-- A caller that goes away while its commit is answered: the commit is durable and nobody
publishes it. -/
def droppedCommit : List (Event ℕ) :=
  [.call 1 (.change 5 none), .acquire 1, .answer true, .answer true, .answer true, .drop 1]

theorem dropped_commit_is_not_published :
    let s := run (State.step numberEnv) (State.start numberEnv (numberConfiguration 1) 1 true)
      droppedCommit
    s.holder.isNone = true ∧ numberEnv.compile s.database = .ok 5 ∧ s.process.snapshot = 1 ∧
      s.process.routing = 1 := by
  decide

end AiGateway.ControlPlane
