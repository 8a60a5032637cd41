import AiGateway.Routing.FirstTier

/-! The WebSocket upgrade preflight answers as WebSocket selection would. -/
namespace AiGateway.Routing.Preflight
open Domain FirstTier List

def websocketQuery (key : CompiledApiKey) (now : Duration) : Query :=
  ⟨key, [], .responsesWebSocket, now⟩

/-- The preflight reads the flag alone, which stands for the whole capability. -/
theorem eligible_websocketQuery (key : CompiledApiKey) (now : Duration) (s : RoutingState)
    (c : CompiledCandidate) :
    (websocketQuery key now).eligible s c =
      (c.channel.supportsWebsocket && key.permitsRouteCandidate c.channelSlot &&
        s.usable (ChannelIdentity.fromChannel c.channel) now) := by
  unfold Query.eligible Query.admits websocketQuery
  rw [ChannelCapability.permits_responsesWebSocket]
  simp

theorem hasAvailableWebsocketRoute_iff (snap : CompiledSnapshot) (key : CompiledApiKey)
    (now : Duration) (s : RoutingState) :
    hasAvailableWebsocketRoute snap.toCompiledRuntimeConfig key (fun _ => true) now s = true ↔
      ∃ model rule, UsableRule snap.toCompiledRuntimeConfig key .responsesWebSocket model rule ∧
        ∃ tier ∈ rule.tiers, HasEligible (websocketQuery key now) s tier := by
  have ht : ∀ rule : CompiledModelRule, (rule.tiers.any (fun tier => tier.candidates.any (fun c =>
        c.channel.supportsWebsocket && key.permitsRouteCandidate c.channelSlot &&
          true && s.usable (ChannelIdentity.fromChannel c.channel) now))) = true ↔
        ∃ tier ∈ rule.tiers, HasEligible (websocketQuery key now) s tier := by
    intro rule
    simp only [any_eq_true, HasEligible, eligible_websocketQuery, Bool.and_true]
  simp only [hasAvailableWebsocketRoute, any_eq_true, Bool.and_eq_true, ht,
    decide_eq_true_eq]
  constructor
  · rintro ⟨rule, hm, ⟨hop, hp⟩, hh⟩
    have hr := snap.operationRule_of_mem hm
    rw [hop] at hr
    exact ⟨rule.clientModel, rule, ⟨hr, hp⟩, hh⟩
  · rintro ⟨model, rule, ⟨hr, hp⟩, hh⟩
    have hm : rule ∈ snap.modelRules.values :=
      (CompiledModelRoutes.mem_values_iff _ _).mpr ⟨_, _, hr⟩
    exact ⟨rule, hm, ⟨(snap.stored _ _ _ hr).1, hp⟩, hh⟩

/-- WebSocket selection of the model returns a route. -/
def Selects (snapshot : CompiledRuntimeConfig) (key : CompiledApiKey) (model : String)
    (lookupAt now : Duration) (s : RoutingState) : Prop :=
  ∃ enough, ∀ fuel ≥ enough, ∃ route s',
    selectWebsocketWithAffinityExcluding snapshot key .openAiResponses model none [] lookupAt now
      fuel s = some (.selected route, s')

theorem selects_iff (snap : CompiledSnapshot) (key : CompiledApiKey) (model : String)
    (lat now : Duration) {s : RoutingState} {n : ℕ} (hn : (s.entropy.get n).toNat < 2 ^ 63) :
    Selects snap.toCompiledRuntimeConfig key model lat now s ↔
      ∃ rule, UsableRule snap.toCompiledRuntimeConfig key .responsesWebSocket model rule ∧
        ∃ tier ∈ rule.tiers, HasEligible (websocketQuery key now) s tier := by
  constructor
  · rintro ⟨enough, h⟩
    obtain ⟨route, s', hro⟩ := h enough le_rfl
    have hc := select_correct snap key .responsesWebSocket model none []
      .responsesWebSocket lat now hro
    exact hc.selected_iff.mp ⟨route, rfl⟩
  · intro h
    refine ⟨n + 3, fun fuel hf => ?_⟩
    have hre := select_returns snap key .responsesWebSocket model none []
      .responsesWebSocket lat now hn (show n + 2 < fuel by omega)
    obtain ⟨⟨res, s'⟩, hr⟩ := Option.isSome_iff_exists.mp hre
    have hc := select_correct snap key .responsesWebSocket model none []
      .responsesWebSocket lat now hr
    obtain ⟨route, rfl⟩ := hc.selected_iff.mpr h
    exact ⟨route, s', hr⟩

/-- With every connector available and the entropy source of the process, the preflight is
positive exactly when some model would be served. -/
theorem preflight_iff_selects (snapshot : CompiledSnapshot) (key : CompiledApiKey)
    (lookupAt now : Duration) (s : RoutingState) (counter : Word)
    (hentropy : s.entropy = processEntropy counter) :
    hasAvailableWebsocketRoute snapshot.toCompiledRuntimeConfig key (fun _ => true) now s = true ↔
      ∃ model, Selects snapshot.toCompiledRuntimeConfig key model lookupAt now s := by
  obtain ⟨n, hz⟩ := WeightedTicket.processEntropy_yields_zero counter
  have hn : (s.entropy.get n).toNat < 2 ^ 63 := by
    rw [hentropy, hz]
    decide
  rw [hasAvailableWebsocketRoute_iff]
  exact exists_congr (fun model => (selects_iff snapshot key model lookupAt now hn).symm)

theorem preflight_iff_selects_two_tiers :
    hasAvailableWebsocketRoute (twoTierSnapshot .responsesWebSocket).toCompiledRuntimeConfig openKey
      (fun _ => true) 0 (.new .default (processEntropy 0#64)) = true ∧
    ∃ model, Selects (twoTierSnapshot .responsesWebSocket).toCompiledRuntimeConfig openKey model 0 0
      (.new .default (processEntropy 0#64)) := by
  have hh : ∃ tier ∈ (twoTierRule .responsesWebSocket).tiers,
      HasEligible (websocketQuery openKey 0) (.new .default (processEntropy 0#64)) tier :=
    ⟨_, mem_cons_self, _, mem_singleton_self _, by decide⟩
  have hp := (hasAvailableWebsocketRoute_iff (twoTierSnapshot .responsesWebSocket) openKey 0
    (.new .default (processEntropy 0#64))).mpr
      ⟨"large", twoTierRule .responsesWebSocket, twoTierSnapshot_rule .responsesWebSocket, hh⟩
  exact ⟨hp, (preflight_iff_selects (twoTierSnapshot .responsesWebSocket) openKey 0 0
    (.new .default (processEntropy 0#64)) 0#64 rfl).mp hp⟩

end AiGateway.Routing.Preflight
