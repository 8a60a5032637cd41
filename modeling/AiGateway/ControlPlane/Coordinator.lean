import AiGateway.Lib.Checked
import AiGateway.Lib.Run

/-! The control-plane coordinator: one lock serializes the operations, each compiles its candidate
inside an open transaction, commits it and only then publishes it. -/
namespace AiGateway.ControlPlane
open Lib List

structure PluginArtifactRecord where
  pluginId : String
  digest : String
  deleted : Bool
  deriving DecidableEq

structure PluginStateRecord where
  pluginId : String
  enabled : Bool
  artifactDigest : Option String
  revision : ℤ
  deriving DecidableEq

/-- The configuration in the database: the plugin tables with their foreign key, and the rest. -/
structure Configuration (Records : Type) where
  records : Records
  artifacts : List PluginArtifactRecord
  states : List PluginStateRecord
  referenced : ∀ state ∈ states, ∀ digest, state.artifactDigest = some digest →
    ∃ artifact ∈ artifacts, artifact.pluginId = state.pluginId ∧ artifact.digest = digest

inductive ControlPlaneError where
  | repository
  | compile
  | invalidActor
  deriving DecidableEq

structure PassiveHealthInput where
  connectionFailureThreshold : ℕ
  cooldownSeconds : ℕ

/-- What compiled system settings have of it. -/
structure PassiveHealthPolicy where
  connectionFailureThreshold : ℕ
  cooldown : ℕ
  positive : 0 < connectionFailureThreshold ∧ 0 < cooldown
  deriving DecidableEq

/-- The part of `compile_system_settings_input` that checks it. -/
def compilePassiveHealth (input : PassiveHealthInput) :
    Except ControlPlaneError PassiveHealthPolicy :=
  if h : input.connectionFailureThreshold = 0 ∨ input.cooldownSeconds = 0 then .error .compile
  else .ok ⟨input.connectionFailureThreshold, input.cooldownSeconds, by omega⟩

/-- What the coordinator calls: the plugin catalog, the compiler of the records, the checks of a
snapshot, and the statements a request makes in its transaction, if it has anything to change. -/
structure Env (Records Plugin Snapshot Request : Type) where
  configuredPlugin : Records → PluginStateRecord → String → Except String Plugin
  passiveHealthInput : Records → PassiveHealthInput
  compileWithPlugins : Records → PassiveHealthPolicy → List Plugin → List (String × String) →
    Except ControlPlaneError Snapshot
  hasPlugin : Snapshot → String → Bool
  validUpstreamPolicies : Snapshot → Bool
  passiveHealth : Snapshot → PassiveHealthPolicy
  prepare : Request → Configuration Records →
    Except ControlPlaneError (Option (Configuration Records))

variable {Records Plugin Snapshot Request : Type}

/-- The artifact of a plugin is there unless it was deleted. -/
def Configuration.installed (config : Configuration Records) (pluginId digest : String) : Bool :=
  config.artifacts.any (fun artifact =>
    !artifact.deleted && artifact.pluginId == pluginId && artifact.digest == digest)

/-- A plugin without a state gets one that is disabled. -/
def ensureState (states : List PluginStateRecord) (pluginId : String) : List PluginStateRecord :=
  if states.any (fun state => state.pluginId == pluginId) then states
  else states ++ [⟨pluginId, false, none, 1⟩]

theorem mem_ensureState {sts : List PluginStateRecord} {pluginId : String}
    {st : PluginStateRecord} (h : st ∈ ensureState sts pluginId) :
    st ∈ sts ∨ st = ⟨pluginId, false, none, 1⟩ := by
  unfold ensureState at h
  split_ifs at h
  · exact .inl h
  · rcases mem_append.mp h with hol | hn
    · exact .inl hol
    · exact .inr (mem_singleton.mp hn)

theorem Configuration.referenced_discover (config : Configuration Records)
    (pluginId digest : String) : ∀ st ∈ ensureState config.states pluginId,
      ∀ digest', st.artifactDigest = some digest' →
        ∃ artifact ∈ config.artifacts ++ [⟨pluginId, digest, false⟩],
          artifact.pluginId = st.pluginId ∧ artifact.digest = digest' := by
  intro st hs digest' hd
  rcases mem_ensureState hs with hol | rfl
  · obtain ⟨artifact, ha, hsa⟩ := config.referenced st hol digest' hd
    exact ⟨artifact, mem_append_left _ ha, hsa⟩
  · cases hd

/-- Registering a plugin found in the plugin directory; a known artifact stays as it is. -/
def Configuration.discover (config : Configuration Records) (pluginId digest : String) :
    Configuration Records :=
  if config.artifacts.any (fun artifact =>
      artifact.pluginId == pluginId && artifact.digest == digest) then config
  else
    { records := config.records
      artifacts := config.artifacts ++ [⟨pluginId, digest, false⟩]
      states := ensureState config.states pluginId
      referenced := config.referenced_discover pluginId digest }

namespace Env
variable (env : Env Records Plugin Snapshot Request)

def loadPlugin (config : Configuration Records) (state : PluginStateRecord) :
    Except String Plugin :=
  match state.artifactDigest with
  | none => .error "artifact_missing"
  | some digest =>
    if config.installed state.pluginId digest then env.configuredPlugin config.records state digest
    else .error "artifact_missing"

/-- `compile_runtime_config_with_catalog`: a plugin that does not load is left out and noted. -/
def compile (config : Configuration Records) : Except ControlPlaneError Snapshot := do
  let results := (config.states.filter (·.enabled)).map
    (fun state => (state.pluginId, env.loadPlugin config state))
  let health ← compilePassiveHealth (env.passiveHealthInput config.records)
  env.compileWithPlugins config.records health
    (results.filterMap (fun result => result.2.toOption))
    (results.filterMap (fun result => match result.2 with
      | .ok _ => none
      | .error code => some (result.1, code)))

end Env

/-- What a caller asks of the coordinator. A change carries the request whose statements it
prepares and, for a plugin that is saved, the plugin and whether it is enabled. -/
inductive Operation (Request : Type) where
  | reload
  | change (request : Request) (plugin : Option (String × Bool))

/-- Where the operation that holds the lock is suspended. -/
inductive Phase (Records Snapshot : Type) where
  /-- It waits for the records of a reload, or for the statements of a change. -/
  | locked
  /-- It reads the pending records back. -/
  | prepared (pending : Configuration Records)
  /-- It waits for its commit. -/
  | committing (pending : Configuration Records) (candidate : Snapshot)
  /-- The commit is durable, and the answer is on its way. -/
  | committed (candidate : Snapshot)

/-- A write transaction is open. -/
def Phase.writing : Phase Records Snapshot → Bool
  | .prepared _ => true
  | .committing _ _ => true
  | _ => false

/-- The commit is durable and its operation has not been told. -/
def Phase.untold : Phase Records Snapshot → Bool
  | .committed _ => true
  | _ => false

structure Holder (Records Snapshot Request : Type) where
  task : ℕ
  operation : Operation Request
  phase : Phase Records Snapshot

/-- How an operation ended; `lost` is one that was not told of its own commit. -/
inductive Outcome where
  | done
  | failed (error : ControlPlaneError)
  | cancelled
  | lost
  deriving DecidableEq

structure Process (Snapshot : Type) where
  snapshot : Snapshot
  policy : PassiveHealthPolicy
  /-- What the routing runtime was last reconciled with. -/
  routing : Snapshot
  /-- What the client registry was last reconciled with, if the coordinator has one. -/
  registry : Option Snapshot
  registryPoisoned : Bool

namespace Process
variable (env : Env Records Plugin Snapshot Request)

/-- The registry keeps its clients when it is unavailable. -/
def reconcileRegistry (process : Process Snapshot) (next : Snapshot) : Option Snapshot :=
  if process.registryPoisoned || !env.validUpstreamPolicies next then process.registry
  else process.registry.map (fun _ => next)

/-- Publishing a snapshot, and whether it returns: updating the policy asserts that it is
positive. -/
def publish (process : Process Snapshot) (next : Snapshot) : Process Snapshot × Bool :=
  let process := { process with registry := process.reconcileRegistry env next }
  let health := env.passiveHealth next
  if 0 < health.connectionFailureThreshold ∧ 0 < health.cooldown then
    ({ process with policy := health, routing := next, snapshot := next }, true)
  else (process, false)

end Process

/-- The database, the process and the operations on the coordinator. -/
structure State (Records Snapshot Request : Type) where
  database : Configuration Records
  process : Process Snapshot
  waiting : Table ℕ (Operation Request)
  holder : Option (Holder Records Snapshot Request)
  outcomes : Table ℕ Outcome

inductive Event (Request : Type) where
  | call (task : ℕ) (operation : Operation Request)
  | acquire (task : ℕ)
  /-- What the holder waits for is there, or has failed. -/
  | answer (ok : Bool)
  /-- The caller drops its future. -/
  | drop (task : ℕ)
  | discover (pluginId digest : String)
  /-- A thread panics inside the client registry. -/
  | poisonRegistry

namespace State
variable (env : Env Records Plugin Snapshot Request)

/-- The candidate of a configuration, with the checks made before the commit. -/
def candidate (config : Configuration Records) (plugin : Option (String × Bool)) :
    Except ControlPlaneError Snapshot := do
  let candidate ← env.compile config
  Stage.ensure (!plugin.any (fun saved => saved.2 && !env.hasPlugin candidate saved.1)) .repository
  Stage.ensure (env.validUpstreamPolicies candidate) .compile
  .ok candidate

/-- The holder returns; its guard and its open transaction go with it. -/
def finish (s : State Records Snapshot Request) (task : ℕ) (outcome : Outcome) :
    State Records Snapshot Request :=
  { s with holder := none, outcomes := s.outcomes.insert task outcome }

/-- Publishing ends the operation, by a panic if need be. -/
def publishAndFinish (s : State Records Snapshot Request) (task : ℕ) (next : Snapshot) :
    State Records Snapshot Request :=
  let (process, returned) := s.process.publish env next
  { s with process }.finish task (if returned then .done else .lost)

/-- The holder goes on until it is suspended again or returns. -/
def resume (s : State Records Snapshot Request) (holder : Holder Records Snapshot Request) :
    State Records Snapshot Request :=
  match holder.phase, holder.operation with
  | .locked, .reload =>
    match candidate env s.database none with
    | .ok next => s.publishAndFinish env holder.task next
    | .error error => s.finish holder.task (.failed error)
  | .locked, .change request _ =>
    match env.prepare request s.database with
    | .ok (some pending) => { s with holder := some { holder with phase := .prepared pending } }
    | .ok none => s.finish holder.task .done
    | .error error => s.finish holder.task (.failed error)
  | .prepared pending, .change _ plugin =>
    match candidate env pending plugin with
    | .ok next => { s with holder := some { holder with phase := .committing pending next } }
    | .error error => s.finish holder.task (.failed error)
  | .prepared _, .reload => s
  | .committing pending next, _ =>
    { s with database := pending, holder := some { holder with phase := .committed next } }
  | .committed next, _ => s.publishAndFinish env holder.task next

/-- The holder returns without an answer, or with an error for one. Once the commit is durable
only its answer is lost. -/
def fail (s : State Records Snapshot Request) (holder : Holder Records Snapshot Request)
    (outcome : Outcome) : State Records Snapshot Request :=
  s.finish holder.task (if holder.phase.untold then .lost else outcome)

def writing (s : State Records Snapshot Request) : Bool :=
  s.holder.any (fun holder => holder.phase.writing)

def known (s : State Records Snapshot Request) (task : ℕ) : Bool :=
  (s.waiting.get task).isSome || s.holder.any (fun holder => holder.task == task) ||
    (s.outcomes.get task).isSome

def acquire (s : State Records Snapshot Request) (task : ℕ) : State Records Snapshot Request :=
  match s.holder, s.waiting.get task with
  | none, some operation =>
    { s with waiting := s.waiting.erase task, holder := some ⟨task, operation, .locked⟩ }
  | _, _ => s

def drop (s : State Records Snapshot Request) (task : ℕ) : State Records Snapshot Request :=
  match s.holder with
  | some holder =>
    if holder.task = task then s.fail holder .cancelled
    else { s with waiting := s.waiting.erase task }
  | none => { s with waiting := s.waiting.erase task }

/-- One step of the operations on a coordinator. A discovered plugin is written outside the lock,
but not into another transaction. -/
def step (s : State Records Snapshot Request) : Event Request → State Records Snapshot Request
  | .call task operation =>
    if s.known task then s else { s with waiting := s.waiting.insert task operation }
  | .acquire task => s.acquire task
  | .answer ok =>
    match s.holder with
    | none => s
    | some holder => if ok then s.resume env holder else s.fail holder (.failed .repository)
  | .drop task => s.drop task
  | .discover pluginId digest =>
    if s.writing then s else { s with database := s.database.discover pluginId digest }
  | .poisonRegistry => { s with process := { s.process with registryPoisoned := true } }

/-- The task whose step an event is. -/
def actor (s : State Records Snapshot Request) : Event Request → Option ℕ
  | .call task _ => some task
  | .acquire task => some task
  | .answer _ => s.holder.map (·.task)
  | .drop task => some task
  | .discover _ _ => none
  | .poisonRegistry => none

end State
end AiGateway.ControlPlane
