import AiGateway.Admission.Forgetting

/-! The wait a rate rejection advertises is long enough: what other keys and ending leases do
meanwhile never moves the window of the key forward. -/
namespace AiGateway.Admission
open Domain Lib List Option Table

/-- The window of the key, if it has one, started no later than the given time. -/
def StartedBy (keys : Table Uuid KeyState) (keyId : Uuid) (time : Duration) : Prop :=
  ∀ state started, keys.get keyId = some state → state.windowStartedAt = some started →
    started ≤ time

section Window
variable {now time started : ℕ} {keys keys' : Table Uuid KeyState} {kid : Uuid}
  {all all' : AdmissionState}

theorem StartedBy.mono (h : StartedBy keys kid now) (hle : now ≤ time) :
    StartedBy keys kid time :=
  fun st started hg hs => Nat.le_trans (h st started hg hs) hle

theorem StartedBy.within (h : StartedBy keys kid time) (hw : Within keys' keys) :
    StartedBy keys' kid time :=
  fun st started hg hs => h st started (hw kid st hg) hs

/-- The rate gate reads an open window, or one that starts now and has no requests. -/
theorem opened_cases (hs : (all.opened now kid).windowStartedAt = some started) :
    started = now ∧ (all.opened now kid).requestsInWindow = 0 ∨
      ∃ st, all.keys.get kid = some st ∧ st.windowStartedAt = some started ∧
        now - started < window := by
  unfold AdmissionState.opened KeyState.refreshed at hs ⊢
  split_ifs at hs ⊢ with hr
  · exact .inl ⟨(Option.some.inj hs).symm, rfl⟩
  · right
    cases hg : (all.prune now).keys.get kid with
    | none =>
      rw [hg] at hr
      exact absurd rfl hr
    | some st =>
      rw [hg, getD_some] at hs hr
      rw [hs, all_some, decide_eq_true_eq, Nat.not_le] at hr
      exact ⟨st, within_retain _ _ kid st hg, hs, hr⟩

theorem StartedBy.put {key : CompiledApiKey} {st : KeyState}
    (h : StartedBy all.keys kid time) (hn : key.id = kid → now ≤ time)
    (hw : st.windowStartedAt = (all.opened now key.id).windowStartedAt) :
    StartedBy (all.put now key.id st).keys kid time := by
  intro st' started hg hs
  unfold AdmissionState.put at hg
  dsimp only at hg
  rw [get_insert] at hg
  split_ifs at hg with hk
  · subst hk
    cases hg
    rcases opened_cases (hw.symm.trans hs) with ⟨rfl, -⟩ | ⟨old, hol, hso, -⟩
    · exact hn rfl
    · exact h old started hol hso
  · exact h st' started (within_retain _ _ kid st' hg) hs

theorem StartedBy.dropLease {dropped : Uuid} (h : StartedBy all.keys kid time)
    (hd : all.dropLease now dropped = some all') : StartedBy all'.keys kid time := by
  obtain ⟨old, hol, rfl⟩ := map_eq_some_iff.mp hd
  dsimp only
  split_ifs
  · exact h.within (within_erase _ _)
  · intro st started hg hs
    rw [get_insert] at hg
    split_ifs at hg with hk
    · subst hk
      cases hg
      exact h old started hol hs
    · exact h st started hg hs

theorem retryAfter_add (now left : ℕ) :
    retryAfter now (now + left) = (left + 999999999) / 1000000000 := by
  rw [retryAfter, Nat.add_sub_cancel_left]
  change left / 1000000000 + (if (left % 1000000000 : ℕ) ≠ (0 : ℕ) then 1 else 0) = _
  split_ifs <;> omega

/-- The advertised wait: between one second and the whole window, and not too short. -/
theorem retryAfter_bounds (hle : started ≤ now) (hop : now - started < window) :
    1 ≤ retryAfter now (started + window) ∧ retryAfter now (started + window) ≤ 60 ∧
      started + window ≤ now + Duration.fromSecs (retryAfter now (started + window)) := by
  have hw : (60 * 1000000000 : ℕ) = window := rfl
  obtain ⟨left, hl⟩ : ∃ left, started + window = now + left := ⟨started + window - now, by omega⟩
  rw [hl, retryAfter_add, Duration.fromSecs]
  omega

end Window

namespace System
variable {sys sys' : System} {op : Op} {kid : Uuid} {time : Duration}

theorem step_clock (hs : sys.step op = some sys') : sys.clock ≤ sys'.clock := by
  cases op with
  | admitRequest key =>
    obtain ⟨answer, -, rfl⟩ := map_eq_some_iff.mp hs
    exact Nat.le_refl _
  | drop lease =>
    unfold step at hs
    cases hl : sys.leases[lease]? with
    | none =>
      simp only [hl, Option.some.injEq] at hs
      exact hs ▸ Nat.le_refl _
    | some kid =>
      simp only [hl] at hs
      obtain ⟨adm, -, rfl⟩ := map_eq_some_iff.mp hs
      exact Nat.le_refl _
  | settle kid quotaUsedAmount => exact Option.some.inj hs ▸ Nat.le_refl _
  | advance elapsed => exact Option.some.inj hs ▸ Nat.le_add_right _ _

/-- Only an admission of the key itself can start its window later. -/
theorem step_startedBy (h : StartedBy sys.admission.keys kid time)
    (hop : ∀ key, op = .admitRequest key → key.id = kid → sys.clock ≤ time)
    (hs : sys.step op = some sys') : StartedBy sys'.admission.keys kid time := by
  cases op with
  | admitRequest key =>
    obtain ⟨⟨res, adm⟩, ha, rfl⟩ := map_eq_some_iff.mp hs
    have hn := hop key rfl
    cases Answer.of_eq ha with
    | quota _ => exact h.within (within_retain _ _)
    | rate _ _ => exact h.put hn rfl
    | concurrency _ _ => exact h.put hn rfl
    | admitted _ _ => exact h.put hn rfl
  | drop lease =>
    unfold step at hs
    cases hl : sys.leases[lease]? with
    | none =>
      simp only [hl, Option.some.injEq] at hs
      exact hs ▸ h
    | some dropped =>
      simp only [hl] at hs
      obtain ⟨adm, hd, rfl⟩ := map_eq_some_iff.mp hs
      exact h.dropLease hd
  | settle kid quotaUsedAmount => exact Option.some.inj hs ▸ h
  | advance elapsed => exact Option.some.inj hs ▸ h

/-- The clock never runs behind a window. -/
theorem run_startedBy {ops : List Op} (hr : run? step init ops = some sys) (kid : Uuid) :
    StartedBy sys.admission.keys kid sys.clock := by
  let Inv := fun sys : System => StartedBy sys.admission.keys kid sys.clock
  have hst : ∀ s op t, Inv s → step s op = some t → Inv t := fun s op t h hs =>
    have hc := step_clock hs
    step_startedBy (h.mono hc) (fun _ _ _ => hc) hs
  have hinit : Inv init := fun st started hg _ => by cases hg
  exact run?_preserves hst hinit hr

/-- What a rate rejection says and leaves behind. -/
theorem answer_eq_rateLimited {key : CompiledApiKey} {seconds : ℕ}
    (ha : sys.answer (.admitRequest key) = some (.error (.rateLimited seconds))) :
    ∃ started, (sys.admission.opened sys.clock key.id).windowStartedAt = some started ∧
      seconds = retryAfter sys.clock (started + window) ∧
      sys.step (.admitRequest key) = some { sys with
        admission := sys.admission.put sys.clock key.id
          (sys.admission.opened sys.clock key.id) } := by
  obtain ⟨started, hs⟩ : ∃ started,
      (sys.admission.opened sys.clock key.id).windowStartedAt = some started :=
    refreshed_started _ _
  refine ⟨started, hs, ?_⟩
  change Option.map _ (ite _ _ (Option.map _ (ite ((sys.admission.opened _ key.id).rateLimited key =
    true) (Option.map _ (sys.admission.opened _ key.id).windowStartedAt) (ite _ _ _)))) = _ at ha
  rw [hs] at ha
  split_ifs at ha with hq hr hc <;> cases ha
  refine ⟨rfl, ?_⟩
  change Option.map _ (ite _ _ (Option.map _ (ite ((sys.admission.opened _ key.id).rateLimited key =
    true) (Option.map _ (sys.admission.opened _ key.id).windowStartedAt) (ite _ _ _)))) = _
  rw [if_neg hq, if_pos hr, hs]
  rfl

/-- Once the window of a key is over, a positive limit does not reject it. -/
theorem answer_after_window {key : CompiledApiKey} {started : ℕ}
    (hst : StartedBy sys.admission.keys key.id started) (hov : started + window ≤ sys.clock)
    (hpos : ∀ limit, key.requestsPerMinute = some limit → 0 < limit) :
    ∃ res, sys.answer (.admitRequest key) = some res ∧
      ∀ seconds, res ≠ .error (.rateLimited seconds) := by
  obtain ⟨res, adm, ha, han⟩ := admitRequest_answer sys.clock sys.admission key
  refine ⟨res, by simp only [answer, ha, map_some], ?_⟩
  rintro seconds rfl
  cases han with
  | rate _ hl =>
    obtain ⟨s, hs⟩ : ∃ s, (sys.admission.opened sys.clock key.id).windowStartedAt = some s :=
      refreshed_started _ _
    rcases opened_cases hs with ⟨-, hz⟩ | ⟨st, hg, hss, hop⟩
    · rw [KeyState.rateLimited, hz, Option.any_eq_true] at hl
      obtain ⟨limit, hlimit, hle⟩ := hl
      exact absurd (of_decide_eq_true hle) (Nat.not_le.mpr (hpos limit hlimit))
    · have hle : s + window ≤ sys.clock :=
        Nat.le_trans (Nat.add_le_add_right (hst st s hg hss) window) hov
      exact absurd hop (Nat.not_lt.mpr (Nat.le_sub_of_add_le' hle))

end System

/-- A rate rejection names a wait of one to sixty seconds. After it, whatever other keys and
ending leases did meanwhile, the key is not rejected by its rate. -/
theorem retry_after_suffices (before : List Op) (sys : System) (key : CompiledApiKey) (seconds : ℕ)
    (hpos : ∀ limit, key.requestsPerMinute = some limit → 0 < limit)
    (hbefore : run? System.step .init before = some sys)
    (hlimited : sys.answer (.admitRequest key) = some (.error (.rateLimited seconds))) :
    (1 ≤ seconds ∧ seconds ≤ 60) ∧
      ∀ (after : List Op) (sys' : System) (retried : CompiledApiKey), retried.id = key.id →
        retried.requestsPerMinute = key.requestsPerMinute →
        (∀ other, .admitRequest other ∈ after → other.id ≠ key.id) →
        run? System.step sys (.admitRequest key :: after) = some sys' →
        sys.clock + Duration.fromSecs seconds ≤ sys'.clock →
        ∃ result, sys'.answer (.admitRequest retried) = some result ∧
          ∀ seconds', result ≠ .error (.rateLimited seconds') := by
  obtain ⟨started, hs, hse, hst⟩ := System.answer_eq_rateLimited hlimited
  have hopen : started ≤ sys.clock ∧ sys.clock - started < window := by
    rcases opened_cases hs with ⟨rfl, -⟩ | ⟨state, hg, hss, hop⟩
    · exact ⟨Nat.le_refl _, by rw [Nat.sub_self]; exact window_pos⟩
    · exact ⟨System.run_startedBy hbefore key.id state started hg hss, hop⟩
  obtain ⟨hlo, hhi, hlong⟩ := retryAfter_bounds hopen.1 hopen.2
  rw [← hse] at hlo hhi hlong
  refine ⟨⟨hlo, hhi⟩, fun after sys' retried hid hlimit hothers hrun hwait => ?_⟩
  rw [run?_cons, hst, bind_some] at hrun
  have hrejected : StartedBy
      (sys.admission.put sys.clock key.id (sys.admission.opened sys.clock key.id)).keys
      key.id started := by
    intro state s hg hss
    rw [AdmissionState.put, get_insert_self] at hg
    cases hg
    exact Nat.le_of_eq (Option.some.inj (hss.symm.trans hs))
  have hkept : StartedBy sys'.admission.keys key.id started :=
    let Inv := fun sys : System => StartedBy sys.admission.keys key.id started
    have hst : ∀ s op t, Inv s → System.step s op = some t →
        (∀ k, op = .admitRequest k → k.id ≠ key.id) → Inv t := fun s op t h hstep hop =>
      System.step_startedBy h (fun k hk hkid => absurd hkid (hop k hk)) hstep
    run?_invariant_across hst hrejected
      (across_of_forall_mem (Q := fun op => ∀ k, op = Op.admitRequest k → k.id ≠ key.id)
        (fun _ hop k hk => hothers k (hk.subst hop))) hrun
  rw [← hid] at hkept
  exact System.answer_after_window hkept (Nat.le_trans hlong hwait) (hlimit ▸ hpos)

/-- Another key's admission and the end of the lease come between rejection and retry. -/
theorem retry_after_suffices_idle :
    let key := policyKey 1 (some 1) none none
    let before : List Op := [.admitRequest key, .advance (Duration.fromSecs 10)]
    let after : List Op := [.drop 0, .admitRequest (policyKey 2 none none none),
      .advance (Duration.fromSecs 50)]
    ∃ sys sys', run? System.step .init before = some sys ∧
      sys.answer (.admitRequest key) = some (.error (.rateLimited 50)) ∧
      run? System.step sys (.admitRequest key :: after) = some sys' ∧
      ∃ result, sys'.answer (.admitRequest key) = some result ∧
        ∀ seconds, result ≠ .error (.rateLimited seconds) := by
  intro key before after
  have hrej : (run? System.step .init before).bind (fun s => s.answer (.admitRequest key)) =
    some (.error (.rateLimited 50)) := by decide +kernel
  have hend : (run? System.step .init before).bind (fun s =>
      (run? System.step s (.admitRequest key :: after)).map (fun t =>
        decide (s.clock + Duration.fromSecs 50 ≤ t.clock))) = some true := by decide +kernel
  obtain ⟨sys, hb, hl⟩ := bind_eq_some_iff.mp hrej
  rw [hb, bind_some] at hend
  obtain ⟨sys', hr, hc⟩ := map_eq_some_iff.mp hend
  refine ⟨sys, sys', hb, hl, hr, ?_⟩
  exact (retry_after_suffices before sys key 50 (by decide) hb hl).2 after sys' key rfl rfl
    (by simp [after, policyKey, key]) hr (of_decide_eq_true hc)

end AiGateway.Admission
