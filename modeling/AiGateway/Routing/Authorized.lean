import AiGateway.Routing.FirstTier
import AiGateway.RuntimeConfig.Authorization

/-! Routing over a compiled configuration, in terms of the records it was compiled from. -/
namespace AiGateway.Routing.Authorized
open Domain Lib RuntimeConfig FirstTier

variable {Plan Proxy : Type} {env : Env Plan Proxy} {recs : ControlPlaneRecords}
  {settings : SystemRuntimeSettings} {config : CompiledRuntimeConfig}
  (hconfig : compileControlPlane env recs settings = .ok config)
  {rec : ApiKeyRecord} (hre : rec ∈ recs.apiKeys) (hactive : rec.isActive = true)
  {key : CompiledApiKey}
  (hkey : config.apiKeys.get (env.apiKeyHash rec.secretValue) = some key)
include hconfig hre hactive hkey

theorem key_answers : Answers recs config rec key := by
  obtain ⟨rt, keys, -, hr, hk, rfl⟩ := compileControlPlane_ok hconfig
  obtain ⟨key', hg, hf⟩ := hk.complete rec hre hactive
  cases hkey.symm.trans hg
  exact hf.answers hr

/-- The rule record of an operation and a model, and a channel the key reaches it by. -/
def Reaches (records : ControlPlaneRecords) (record : ApiKeyRecord) (operation : ApiOperation)
    (model : String) (ruleRecord : ModelRuleRecord) : Prop :=
  ruleRecord ∈ records.modelRules ∧ ruleRecord.isActive = true ∧
    ruleRecord.routingKey = ⟨operation, model⟩ ∧
    (record.allowed records.channels ∩ ruleRecord.authorizing records.channels).Nonempty

theorem usableRule_iff (op : ApiOperation) (model : String) :
    (∃ rule, UsableRule config key op model rule) ↔
      ∃ ruleRecord, Reaches recs rec op model ruleRecord := by
  have ha := key_answers hconfig hre hactive hkey
  obtain ⟨rt, keys, -, hrt, -, rfl⟩ := compileControlPlane_ok hconfig
  constructor
  · rintro ⟨rule, hru, hp⟩
    have hg : rt.rules.modelRules.get ⟨op, model⟩ = some rule :=
      (CompiledModelRoutes.get_fromFlat _ _ _).symm.trans hru
    obtain ⟨ruleRecord, hm, hr, hro, -⟩ := hrt.rules.source _ rule hg
    cases hro
    exact ⟨ruleRecord, hm, hr, rfl, (ha.route ruleRecord hm hr rule hru).mp hp⟩
  · rintro ⟨ruleRecord, hm, hr, hro, hme⟩
    obtain ⟨rule, hg, -⟩ := hrt.rules.complete ruleRecord hm hr
    have hru := (CompiledModelRoutes.get_fromFlat rt.rules.modelRules ruleRecord.apiOperation
      ruleRecord.clientModel).trans hg
    cases hro
    exact ⟨rule, hru, (ha.route ruleRecord hm hr rule hru).mpr hme⟩

variable {op : ApiOperation} {model : String} {s : RoutingState} {route : SelectedRoute}
  {aff : Option SessionAffinityMatch} {excl : List ℕ}
  {cap : ChannelCapability} {lat now : Duration}

theorem served_allowed {q : Query} (hq : q.key = key)
    {rule : CompiledModelRule} (hr : UsableRule config key op model rule) (h : Serves q rule s route) :
    route.channel.id ∈ rec.allowed recs.channels := by
  obtain ⟨tier, hf, c, hm, he, -, hc, -⟩ := h
  have hv := (CompiledModelRoutes.mem_values_iff config.modelRules rule).mpr
    ⟨op, model, hr.1⟩
  have hp : key.permitsRouteCandidate c.channelSlot = true := by
    simp only [Query.eligible, Query.admits, hq, Bool.and_eq_true] at he
    exact he.1.2.1
  rw [hc]
  exact ((key_answers hconfig hre hactive hkey).candidate rule hv tier hf.1 c hm).mp hp

/-- A request is turned away exactly when no active rule of its model can be reached, and neither
way to select takes it to a channel that the record of its key does not allow. -/
theorem requests_routed_as_recorded :
    (∀ fuel res s', selectWithAffinityExcludingCapability config key op model aff
        excl cap lat now fuel s = some (res, s') →
      (res = .unknownOrInaccessibleModel ↔ ∀ ruleRecord, ¬ Reaches recs rec op model ruleRecord) ∧
      ∀ route, res = .selected route → route.channel.id ∈ rec.allowed recs.channels) ∧
    ∀ pc pm route s', selectPreferredChannelWithCapability config key op model pc pm aff excl
        cap lat now s = (some route, s') → route.channel.id ∈ rec.allowed recs.channels := by
  have hu := usableRule_iff hconfig hre hactive hkey op model
  obtain ⟨snap, rfl⟩ := compileControlPlane_snapshot hconfig
  constructor
  · intro fuel res s' h
    have hc := select_correct snap key op model aff excl cap lat now h
    constructor
    · rw [← not_exists, ← hu]
      exact hc.unknown_iff
    · intro route hr
      obtain ⟨rule, hru, hs⟩ := hc.serves route hr
      exact served_allowed hconfig hre hactive hkey rfl hru hs
  · intro pc pm route s' h
    obtain ⟨rule, hr, hs⟩ := preferred_serves snap key op model aff excl cap lat now h
    exact served_allowed hconfig hre hactive hkey rfl hr hs

omit hconfig hre hactive hkey in
theorem requests_routed_as_recorded_two_channels : ∃ config key,
    compileControlPlane plainEnv twoChannelRecords plainSettings = .ok config ∧
      config.apiKeys.get (plainEnv.apiKeyHash "second") = some key ∧
      ∀ pc route s', selectPreferredChannelWithCapability config key .responses "model" pc none none
        [] .any 0 0 (constantState 5#64) = (some route, s') →
      route.channel.id ∈ (responsesKey 2 "second" [2] []).allowed twoChannelRecords.channels := by
  obtain ⟨config, hc⟩ := twoChannelRecords_accepted
  obtain ⟨rt, keys, -, -, hk, hco⟩ := compileControlPlane_ok hc
  have hm : responsesKey 2 "second" [2] [] ∈ twoChannelRecords.apiKeys := by simp [twoChannelRecords]
  obtain ⟨key, hg, -⟩ := hk.complete _ hm rfl
  have hky : config.apiKeys.get (plainEnv.apiKeyHash "second") = some key := hco ▸ hg
  refine ⟨config, key, hc, hky, fun pc => ?_⟩
  exact (requests_routed_as_recorded hc hm rfl hky).2 pc none

end AiGateway.Routing.Authorized
