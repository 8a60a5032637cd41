import AiGateway.Codex.Periods
import AiGateway.Codex.Edits

/-! The quota history along whole runs: every transaction keeps it sound, and an old report
leaves its windows alone. -/
namespace AiGateway.Codex
open Domain Lib Lib.Stage List

section Transactions
variable {hist hist' : QuotaHistory} {ids : CodexQuotaWindowKind → Uuid} {cid : Uuid}
  {kind : CodexQuotaWindowKind} {quota : CodexQuotaUpdate} {obs : ObservedCodexQuotaWindow}
  {id : Uuid} {chk requestedAt windowsReset : Int}

theorem observedCodexQuotaWindow_eq_some
    (h : observedCodexQuotaWindow quota kind = .ok (some obs)) :
    0 < obs.windowSeconds := by
  cases kind with
  | primary =>
    simp only [observedCodexQuotaWindow] at h
    split at h
    · cases h
    · split_ifs at h with hr
      cases h
      exact hr.2.2
    · cases h
  | secondary =>
    simp only [observedCodexQuotaWindow] at h
    split at h
    · cases h
    · split_ifs at h with hr
      cases h
      exact hr.2.2
    · cases h

theorem reconcile_round (h : (observedCodexQuotaWindow quota kind >>= fun
      | none => .ok hist
      | some obs =>
        reconcileCodexQuotaWindow hist id cid kind obs chk) = .ok hist') :
    hist' = hist ∨ ∃ obs : ObservedCodexQuotaWindow, 0 < obs.windowSeconds ∧
      Reconciliation hist id cid kind obs chk hist' := by
  obtain ⟨obs, hob, h⟩ := bind_eq_ok.mp h
  cases obs with
  | none =>
    cases h
    exact .inl rfl
  | some obs =>
    exact .inr ⟨obs, observedCodexQuotaWindow_eq_some hob,
      reconcileCodexQuotaWindow_eq_ok h⟩

/-- What a transaction does to the quota history: it stays sound, and no open period is last
observed earlier than before. -/
structure Follows (history history' : QuotaHistory) : Prop where
  sound : Sound history'
  observed : ∀ channelId kind current, history.current channelId kind = some current →
    ∃ current', history'.current channelId kind = some current' ∧
      current.lastObservedAt ≤ current'.lastObservedAt

theorem Follows.refl (h : Sound hist) : Follows hist hist :=
  ⟨h, fun _ _ cur hc => ⟨cur, hc, le_rfl⟩⟩

theorem Follows.trans {hist₁ : QuotaHistory} (h : Follows hist hist₁)
    (h' : Follows hist₁ hist') : Follows hist hist' := by
  refine ⟨h'.sound, fun cid kind cur hc => ?_⟩
  obtain ⟨cur₁, hc₁, hle⟩ := h.observed cid kind cur hc
  obtain ⟨cur', hc', hle'⟩ := h'.observed cid kind cur₁ hc₁
  exact ⟨cur', hc', hle.trans hle'⟩

theorem Follows.reconciliation (h : Sound hist) (hp : 0 < obs.windowSeconds)
    (hs : Reconciliation hist id cid kind obs chk hist') :
    Follows hist hist' := by
  refine ⟨h.reconciliation hp hs, fun cid' kind' cur hc => ?_⟩
  by_cases hsa : cid = cid' ∧ kind = kind'
  · obtain ⟨rfl, rfl⟩ := hsa
    exact h.lastObserved_reconciliation hp hs hc
  · rw [current_eq_find, ← h.window_reconciliation hs hsa, ← current_eq_find] at hc
    exact ⟨cur, hc, le_rfl⟩

theorem follows_reconcile (h : Sound hist)
    (hs : reconcileCodexQuotaWindows hist ids cid quota = .ok hist') :
    Follows hist hist' := by
  refine foldlM_invariant (fun _ reached => Follows hist reached) (.refl h) ?_ hs
  intro done kind reached next _ hd hr
  rcases reconcile_round hr with rfl | ⟨obs, hp, hn⟩
  · exact hd
  · exact hd.trans (.reconciliation hd.sound hp hn)

theorem follows_record {eventId : Uuid} {out : CodexQuotaResetOutcome} (h : Sound hist)
    (hs : recordCodexQuotaResetTransaction hist cid eventId requestedAt out
      windowsReset = .ok hist') : Follows hist hist' := by
  obtain ⟨⟨⟩, hr, hs⟩ := bind_eq_ok.mp hs
  obtain ⟨stored, -, hs⟩ := bind_eq_ok.mp hs
  obtain ⟨⟨⟩, hid, hs⟩ := bind_eq_ok.mp hs
  cases hs
  have hr := of_decide_eq_true (ensure_eq_ok.mp hr)
  have hn : ∀ ev ∈ hist.events, ev.id ≠ eventId := by
    simpa using ensure_eq_ok.mp hid
  refine ⟨{ h with eventIds := ?_, applied := ?_, manual := ?_ }, (Follows.refl h).observed⟩
  · rw [map_append, nodup_append]
    refine ⟨h.eventIds, nodup_singleton _, ?_⟩
    simpa using hn
  · intro ev he
    rcases mem_append.mp he with hol | ha
    · exact h.applied ev hol
    · rw [mem_singleton.mp ha]
      exact hr.1
  · intro cid' kind'
    rw [countP_append, ← h.manual cid' kind']
    cases kind' <;> simp [ResetEvent.usedFor, ResetEvent.appliedAt]

/-- Nothing is recorded about the window: no period of it changes, and no event is used for its
kind. -/
structure Untouched (channelId : Uuid) (kind : CodexQuotaWindowKind)
    (history history' : QuotaHistory) : Prop where
  window : history'.window channelId kind = history.window channelId kind
  uses : history'.uses kind = history.uses kind

/-- A report older than the open period of a window leaves the window alone. -/
theorem untouched_of_stale (h : Sound hist) {cur : WindowPeriod}
    (hc : hist.current cid kind = some cur)
    (hol : quota.checkedAt < cur.lastObservedAt)
    (hst : reconcileCodexQuotaWindows hist ids cid quota = .ok hist') :
    Untouched cid kind hist hist' := by
  have hk : Sound hist' ∧ Untouched cid kind hist hist' := by
    refine foldlM_invariant
      (fun _ reached => Sound reached ∧ Untouched cid kind hist reached)
      ⟨h, rfl, rfl⟩ ?_ hst
    rintro done kind' reached next _ ⟨hs, hu⟩ hro
    rcases reconcile_round hro with rfl | ⟨obs, hp, hn⟩
    · exact ⟨hs, hu⟩
    · refine ⟨hs.reconciliation hp hn, ?_⟩
      by_cases hsa : kind' = kind
      · -- The open period is still the one the report is older than.
        subst hsa
        have hr : reached.current cid kind' = some cur := by
          rw [current_eq_find, hu.window, ← current_eq_find]
          exact hc
        rw [hn.of_stale hr hol]
        exact hu
      · have hot : next.window cid kind = reached.window cid kind :=
          hs.window_reconciliation hn (fun heq => hsa heq.2)
        have hus := hn.uses_of_ne (Ne.symm hsa)
        exact ⟨hot.trans hu.window, hus.trans hu.uses⟩
  exact hk.2

end Transactions

/-- The report that a step brings, with the credential it is about. -/
def Move.quotaReport : Move → Option (Uuid × CodexQuotaUpdate)
  | .edit (.create id input _) _ => input.quota.map (id, ·)
  | .edit (.persistQuota id quota _) _ => some (id, quota)
  | .reauthorize id input _ _ => input.quota.map (id, ·)
  | _ => none

inductive HistoryStep (report : Option (Uuid × CodexQuotaUpdate)) (history : QuotaHistory) :
    QuotaHistory → Prop
  | kept : HistoryStep report history history
  | reported {id : Uuid} {quota : CodexQuotaUpdate} {ids : CodexQuotaWindowKind → Uuid}
      {history' : QuotaHistory} (hreport : report = some (id, quota))
      (h : reconcileCodexQuotaWindows history ids id quota = .ok history') :
      HistoryStep report history history'
  | recorded {id event : Uuid} {requestedAt : Int} {outcome : CodexQuotaResetOutcome}
      {windowsReset : Int} {history' : QuotaHistory} (hreport : report = none)
      (h : recordCodexQuotaResetTransaction history id event requestedAt outcome windowsReset =
        .ok history') : HistoryStep report history history'

section Steps
variable {db db' : Database} {id : Uuid} {now : Int} {ids : CodexQuotaWindowKind → Uuid}
  {qualifies : CodexCredential → Bool} {set : CodexCredential → CodexCredential}
  {expectedUpdatedAt : Int} {quota : CodexQuotaUpdate} {lockFree : Bool}

theorem history_updateCredential
    (h : db.updateCredential id qualifies set = .ok (some db')) : db'.history = db.history := by
  obtain ⟨row, -, -, -, rfl⟩ := Database.updateCredential_eq_some.mp h
  rfl

theorem history_updateCredential_getD {updated : Option Database}
    (h : db.updateCredential id qualifies set = .ok updated) :
    (updated.getD db).history = db.history := by
  cases updated with
  | none => rfl
  | some db' => exact history_updateCredential h

theorem history_reconcileReport {quota : Option CodexQuotaUpdate}
    {report : Option (Uuid × CodexQuotaUpdate)} (h : reconcileReport db ids id quota = .ok db')
    (hre : ∀ found, quota = some found → report = some (id, found)) :
    HistoryStep report db.history db'.history := by
  cases quota with
  | none =>
    cases h
    exact .kept
  | some quota =>
    obtain ⟨hist, hr, h⟩ := bind_eq_ok.mp h
    cases h
    exact .reported (hre quota rfl) hr

theorem history_setEnabled {enabled : Bool}
    (h : setCodexCredentialEnabled db id expectedUpdatedAt enabled now = .ok db') :
    db'.history = db.history := by
  obtain ⟨⟨⟩, -, h⟩ := bind_eq_ok.mp h
  obtain ⟨exp, -, h⟩ := bind_eq_ok.mp h
  obtain ⟨updated, hu, h⟩ := bind_eq_ok.mp h
  rw [orReject_eq_ok.mp h] at hu
  exact history_updateCredential hu

theorem history_delete (h : deleteCodexCredential db id expectedUpdatedAt now = .ok db') :
    db'.history = db.history := by
  obtain ⟨⟨⟩, -, h⟩ := bind_eq_ok.mp h
  obtain ⟨exp, -, h⟩ := bind_eq_ok.mp h
  obtain ⟨updated, hu, h⟩ := bind_eq_ok.mp h
  rw [orReject_eq_ok.mp h] at hu
  exact history_updateCredential hu

theorem history_batch {items : List CodexCredentialBatchTarget}
    {op : CodexCredentialBatchOperation}
    (h : updateCodexCredentialsBatch db items op now = .ok db') :
    db'.history = db.history := by
  obtain ⟨⟨⟩, -, h⟩ := bind_eq_ok.mp h
  obtain ⟨⟨⟩, -, h⟩ := bind_eq_ok.mp h
  refine foldlM_invariant (fun _ db₁ => db₁.history = db.history) rfl ?_ h
  intro done item db₁ db₂ _ hd hit
  refine Eq.trans ?_ hd
  cases op with
  | enable => exact history_setEnabled hit
  | disable => exact history_setEnabled hit
  | delete => exact history_delete hit

theorem history_persistQuota (h : persistCodexQuota db ids id quota now = .ok db') :
    HistoryStep (some (id, quota)) db.history db'.history := by
  obtain ⟨⟨⟩, -, h⟩ := bind_eq_ok.mp h
  obtain ⟨db₁, hr, h⟩ := bind_eq_ok.mp h
  obtain ⟨set, -, h⟩ := bind_eq_ok.mp h
  obtain ⟨chk, -, h⟩ := bind_eq_ok.mp h
  obtain ⟨updated, hu, h⟩ := bind_eq_ok.mp h
  cases h
  rw [history_updateCredential_getD hu]
  refine history_reconcileReport hr (fun found hf => ?_)
  cases hf
  rfl

theorem history_apply {edit : Edit} (h : edit.apply db now = .ok db') :
    HistoryStep (Move.edit edit now).quotaReport db.history db'.history := by
  cases edit with
  | create id input ids =>
    obtain ⟨⟨⟩, -, h⟩ := bind_eq_ok.mp h
    obtain ⟨set, -, h⟩ := bind_eq_ok.mp h
    obtain ⟨⟨⟩, -, hre⟩ := bind_eq_ok.mp h
    have hs : HistoryStep (Move.edit (.create id input ids) now).quotaReport _ db'.history :=
      history_reconcileReport hre (fun found hf => by simp [Move.quotaReport, hf])
    exact hs
  | update id input expectedUpdatedAt =>
    obtain ⟨⟨⟩, -, h⟩ := bind_eq_ok.mp h
    obtain ⟨⟨⟩, -, h⟩ := bind_eq_ok.mp h
    obtain ⟨exp, -, h⟩ := bind_eq_ok.mp h
    obtain ⟨updated, hu, h⟩ := bind_eq_ok.mp h
    rw [orReject_eq_ok.mp h] at hu
    rw [history_updateCredential hu]
    exact .kept
  | batch items op =>
    rw [history_batch h]
    exact .kept
  | delete id expectedUpdatedAt =>
    rw [history_delete h]
    exact .kept
  | persistQuota id quota ids => exact history_persistQuota h
  | recordError id code summary =>
    obtain ⟨updated, hu, h⟩ := bind_eq_ok.mp h
    cases h
    rw [history_updateCredential_getD hu]
    exact .kept
  | setUserId id =>
    obtain ⟨updated, hu, h⟩ := bind_eq_ok.mp h
    cases h
    rw [history_updateCredential_getD hu]
    exact .kept
  | recordReset id ev requestedAt out windowsReset =>
    obtain ⟨⟨⟩, -, h⟩ := bind_eq_ok.mp h
    obtain ⟨hist, hr, h⟩ := bind_eq_ok.mp h
    cases h
    exact .recorded rfl hr

theorem history_reauthorize (h : reauthorize db lockFree id = .ok db') :
    db'.history = db.history := by
  unfold reauthorize at h
  cases hp : db.operations.get id with
  | none =>
    simp only [hp, Except.ok.injEq] at h
    rw [h]
  | some op =>
    simp only [hp] at h
    obtain ⟨⟨⟩, -, h⟩ := bind_eq_ok.mp h
    obtain ⟨⟨⟩, -, h⟩ := bind_eq_ok.mp h
    cases h
    rfl

theorem history_reauthorizeCodexCredential {input : CodexCredentialCreate}
    (h : reauthorizeCodexCredential db lockFree ids id input now = .ok db') :
    HistoryStep (input.quota.map (id, ·)) db.history db'.history := by
  obtain ⟨⟨⟩, -, h⟩ := bind_eq_ok.mp h
  obtain ⟨db₁, hc, h⟩ := bind_eq_ok.mp h
  obtain ⟨ex, -, h⟩ := bind_eq_ok.mp h
  obtain ⟨set, -, h⟩ := bind_eq_ok.mp h
  obtain ⟨updated, hu, h⟩ := bind_eq_ok.mp h
  obtain ⟨db₂, hdb₂, hr⟩ := bind_eq_ok.mp h
  rw [orReject_eq_ok.mp hdb₂] at hu
  have hs : db₂.history = db.history :=
    (history_updateCredential hu).trans (history_reauthorize hc)
  rw [← hs]
  -- A report older than the stored one has been dropped before.
  refine history_reconcileReport hr (fun found hf => ?_)
  rw [(Option.filter_eq_some_iff.mp hf).1]
  rfl

theorem history_report {op : SqliteCodexOperation} {report : Report}
    (h : report.apply db id op = .ok db') :
    HistoryStep none db.history db'.history := by
  cases report with
  | completeRefresh eg now =>
    obtain ⟨⟨⟩, -, h⟩ := bind_eq_ok.mp h
    obtain ⟨db₁, hr, h⟩ := bind_eq_ok.mp h
    obtain ⟨updated, hu, hd⟩ := bind_eq_ok.mp h
    obtain ⟨-, -, rfl⟩ := release_eq_ok hr
    rw [orReject_eq_ok.mp hd, persistCodexTokenRefresh] at hu
    rw [history_updateCredential hu]
    exact .kept
  | fail permanent code summary now =>
    obtain ⟨db₁, hr, h⟩ := bind_eq_ok.mp h
    obtain ⟨db₂, hm, h⟩ := bind_eq_ok.mp h
    obtain ⟨start, -, hin⟩ := bind_eq_ok.mp h
    obtain ⟨-, -, rfl⟩ := release_eq_ok hr
    obtain ⟨updated, hu, hm⟩ := bind_eq_ok.mp hm
    cases hm
    rw [insertIntent_eq_ok hin]
    rw [history_updateCredential_getD hu]
    exact .kept
  | completeReset ev requested out wins =>
    obtain ⟨db₁, hr, h⟩ := bind_eq_ok.mp h
    obtain ⟨hist, hre, h⟩ := bind_eq_ok.mp h
    obtain ⟨-, -, rfl⟩ := release_eq_ok hr
    cases h
    exact .recorded rfl hre

theorem history_step (allow : Option Int → SqliteCodexOperation → Bool) (s : System) (move : Move) :
    HistoryStep move.quotaReport s.database.history (s.step allow move).database.history := by
  cases move with
  | edit edit now =>
    rw [System.step]
    cases ha : edit.apply s.database now with
    | ok db => exact history_apply ha
    | error e => exact .kept
  | reauthorize id input ids now =>
    rw [System.step, System.reauthorize]
    cases ha : reauthorizeCodexCredential s.database (s.held.get id).isNone ids id input now with
    | ok db => exact history_reauthorizeCodexCredential ha
    | error e => exact .kept
  | reserve id kind att =>
    rw [System.step, System.reserve]
    split_ifs
    · exact .kept
    · split <;> exact .kept
  | prepare id observed now =>
    rw [System.step, System.prepare]
    cases hh : s.held.get id with
    | none => exact .kept
    | some op =>
      show HistoryStep _ _ (System.database (if _ then _ else _)).history
      split_ifs
      · cases hp : op.prepareDispatch s.database id now with
        | ok prep =>
          obtain ⟨-, -, -, -, hdb⟩ := prepareDispatch_eq_ok hp
          show HistoryStep _ _ prep.1.history
          rw [hdb]
          exact .kept
        | error e => exact .kept
      · exact .kept
  | dispatch id =>
    rw [System.step, System.dispatch]
    cases hh : s.held.get id with
    | none => exact .kept
    | some op =>
      show HistoryStep _ _ (System.database (if _ then _ else _)).history
      split_ifs <;> exact .kept
  | report id report =>
    rw [System.step, System.report]
    cases hh : s.held.get id with
    | none => exact .kept
    | some op =>
      show HistoryStep _ _ (System.database (if op.kind = report.kind then _ else _)).history
      by_cases hk : op.kind = report.kind
      · rw [if_pos hk]
        cases ha : report.apply s.database id op with
        | ok db => exact history_report ha
        | error e => exact .kept
      · rw [if_neg hk]
        exact .kept
  | drop id => exact .kept
  | crash => exact .kept

variable {s : System} (allow : Option Int → SqliteCodexOperation → Bool)

theorem follows_step (h : Sound s.database.history) (move : Move) :
    Follows s.database.history (s.step allow move).database.history := by
  have hs := history_step allow s move
  generalize (s.step allow move).database.history = hist' at hs
  cases hs with
  | kept => exact .refl h
  | reported _ hr => exact follows_reconcile h hr
  | recorded _ hre => exact follows_record h hre

theorem sound_run (moves : List Move) :
    Sound (run (System.step allow) System.initial moves).database.history := by
  have hs : ∀ (s : System) (move : Move), Sound s.database.history →
      Sound (s.step allow move).database.history :=
    fun s move h => (follows_step allow h move).sound
  exact run_invariant hs sound_empty moves

theorem untouched_step (h : Sound s.database.history) {move : Move}
    (hre : move.quotaReport = some (id, quota)) {kind : CodexQuotaWindowKind}
    {cur : WindowPeriod} (hc : s.database.history.current id kind = some cur)
    (hol : quota.checkedAt < cur.lastObservedAt) :
    Untouched id kind s.database.history (s.step allow move).database.history := by
  have hs := history_step allow s move
  rw [hre] at hs
  generalize (s.step allow move).database.history = hist' at hs
  cases hs with
  | kept => exact ⟨rfl, rfl⟩
  | reported hsa hr =>
    cases hsa
    exact untouched_of_stale h hc hol hr
  | recorded hn _ => cases hn

/-- At most one of the periods that follow one another is open. -/
theorem length_open_le_one {periods : List WindowPeriod}
    (h : periods.Pairwise WindowPeriod.Precedes) :
    (periods.filter (fun p => p.endedAt.isNone)).length ≤ 1 := by
  have hop := h.sublist (filter_sublist (p := fun p : WindowPeriod => p.endedAt.isNone))
  cases hp : periods.filter (fun p => p.endedAt.isNone) with
  | nil => exact Nat.zero_le _
  | cons p rest =>
    cases rest with
    | nil => exact le_rfl
    | cons q rest =>
      have hm : p ∈ periods.filter (fun p => p.endedAt.isNone) := by
        rw [hp]
        exact mem_cons_self
      rw [hp] at hop
      obtain ⟨-, ended, he, -⟩ := (pairwise_cons.mp hop).1 q mem_cons_self
      rw [mem_filter, he] at hm
      cases hm.2

theorem Sound.window_ordered {hist : QuotaHistory} (h : Sound hist) (cid : Uuid)
    (kind : CodexQuotaWindowKind) :
    (hist.window cid kind).Pairwise WindowPeriod.Precedes := by
  refine (h.ordered.sublist filter_sublist).imp_of_mem (fun {p q} hp hq hb => ?_)
  have hp := (mem_filter.mp hp).2
  have hq := (mem_filter.mp hq).2
  simp only [Bool.and_eq_true, beq_iff_eq] at hp hq
  exact hb ⟨hp.1.trans hq.1.symm, hp.2.trans hq.2.symm⟩

end Steps

/-- Whatever is reported, in whatever order and whatever else happens: the periods of a window
follow one another, at most one is open, old reports change nothing, and resets are used up. -/
theorem quota_periods_follow (allow : Option Int → SqliteCodexOperation → Bool)
    (moves : List Move) :
    let s := run (System.step allow) System.initial moves
    let history := s.database.history
    (∀ channelId kind, ((history.window channelId kind).filter (·.endedAt.isNone)).length ≤ 1) ∧
      (∀ p ∈ history.periods, p.Bounded) ∧
      (∀ channelId kind, (history.window channelId kind).Pairwise WindowPeriod.Precedes) ∧
      (∀ p ∈ history.periods, ∀ ended, p.endedAt = some ended → p.startedAt < ended) ∧
      (∀ move channelId kind current, history.current channelId kind = some current →
        ∃ current', (s.step allow move).database.history.current channelId kind = some current' ∧
          current.lastObservedAt ≤ current'.lastObservedAt) ∧
      (∀ move channelId quota kind current, move.quotaReport = some (channelId, quota) →
        history.current channelId kind = some current → quota.checkedAt < current.lastObservedAt →
        Untouched channelId kind history (s.step allow move).database.history) ∧
      (∀ event ∈ history.events, event.appliedCount ≤ event.windowsReset) ∧
      ∀ channelId kind, history.periods.countP (·.endedManually channelId kind) =
        history.events.countP (·.usedFor channelId kind) := by
  intro s history
  have hs : Sound history := sound_run allow moves
  refine ⟨fun channelId kind => length_open_le_one (hs.window_ordered channelId kind),
    fun p hp => (hs.wellFormed p hp).bounded, hs.window_ordered,
    fun p hp => (hs.wellFormed p hp).ended,
    fun move => (follows_step allow hs move).observed, ?_, hs.applied, hs.manual⟩
  intro move channelId quota kind current hr hc hol
  exact untouched_step allow hs hr hc hol

/-- A credential whose primary window is reported to last a second and to reset half a
microsecond after the storage epoch. -/
def reportedAcrossEpoch : List Move :=
  [.edit (.create 1
    { label := [97]
      enabled := true
      quotaThresholdPercent := 90
      quota := some
        { allowed := true
          limitReached := false
          primaryUsedPercent := some 10
          primaryWindowSeconds := some 1
          primaryResetAt := some (storageEpoch + 500)
          secondaryUsedPercent := none
          secondaryWindowSeconds := none
          secondaryResetAt := none
          resetCreditsAvailable := none
          checkedAt := storageEpoch } } (fun _ => 7)) storageEpoch]

/-- Storage cuts both bounds of a period towards the epoch, so one that spans it loses a
microsecond. -/
theorem period_across_epoch_is_shorter :
    ∃ p ∈ (run (System.step callerChecks) System.initial
        reportedAcrossEpoch).database.history.periods,
      p.scheduledResetAt ≠ p.startedAt + seconds p.windowSeconds := by
  decide +kernel

end AiGateway.Codex
