import AiGateway.RequestLog.Slots

/-! Openings and the whole system with an eye on the slots: as long as nothing that is stopped
leaves a slot that passes the tests without being a saved event, every opening succeeds. -/
namespace AiGateway.RequestLog
open Domain Lib List Machine

section Opening
variable {Event : Type} {env : SpoolEnv Event} {w u : World Event} {c : Contract (World Event)}
  {id : Uuid} {slot : Bytes}

theorem slotRecord_of_unknown {crc : Bytes → UInt32} {codec : JournalCodec Event} (h : readTerminal crc codec id (some slot) = .ok none) :
    slotRecord crc id slot = none := by
  cases hr : slotRecord crc id slot with
  | none => rfl
  | some rec =>
    simp only [readTerminal, hr] at h
    cases hd : codec.decode rec with
    | error err =>
      rw [hd] at h
      cases h
    | ok ev =>
      rw [hd] at h
      dsimp only at h
      split_ifs at h
      cases h

/-- The slots of some requests are still those of the files an opening found. -/
def Unchanged (files : SpoolFiles) (ids : List Uuid) (w : World Event) : Prop :=
  ∀ id ∈ ids, fileBytes w.files (.slot id) = fileBytes files (.slot id)

variable {files : SpoolFiles} {ids : List Uuid}

theorem local_unchanged : Local env (Unchanged files ids) :=
  fun _ _ hs _ hw id hid => (hs id).slot.trans (hw id hid)

/-- The evidence of an unknown request is cut to its last byte. -/
theorem observed_retain (hc : Minds env c) (hsl : fileBytes files (.slot id) = some slot)
    (hbl : slotRecord env.crc id slot = none) (hn : (id :: ids).Nodup) :
    Action.machine.Observed c (SlotsHeld env)
      (fun w => Slots env w ∧ Unchanged files (id :: ids) w)
      (.file (.setLen (.slot id) (evidenceBytes slot)))
      (fun w => Slots env w ∧ Unchanged files ids w) := by
  refine observed_whole (fun _ => rfl) (hc.stable local_unchanged) (fun _ hw => hw.1.1) ?_
  rintro w u ⟨hw, hs⟩ hr h
  have hb := (hs id mem_cons_self).trans hsl
  have ha : fileBytes u.files (.slot id) = some (slot.take (evidenceBytes slot)) := by
    obtain ⟨found, hf, ha⟩ := fileBytes_edit (f := (resize · (evidenceBytes slot))) (fun _ => rfl) hr
    cases hf.symm.trans hb
    have hle : evidenceBytes slot ≤ slot.length := ( rdropWhile_prefix _ _).length_le
    rw [ha, resize_of_le hle]
  have hot : ∀ o ≠ id,
      (FileOp.setLen (.slot id) (evidenceBytes slot) : SpoolOp).touches (.slot o) = false := by
    intro o hne
    simpa [FileOp.touches] using hne.symm
  refine ⟨slots_of_blank hr hot (hc.keeps _ _ h) hw ((hw.1 id).released ?_) ?_ ?_, ?_⟩
  · intro slot' hs'
    cases hb.symm.trans hs'
    exact hbl
  · intro slot' hs'
    cases ha.symm.trans hs'
    exact slotRecord_evidence hbl
  · intro slot' hs'
    cases ha.symm.trans hs'
    have hsi := (hw.1 id).size slot hb
    rw [length_take]
    omega
  · intro o hoh
    have hne : o ≠ id := fun heq => (nodup_cons.mp hn).1 (heq ▸ hoh)
    exact (fileBytes_run hr (hot o hne)).trans
      (hs o (mem_cons_of_mem id hoh))

theorem follows_openIds (hc : Minds env c) (files : SpoolFiles)
    (hno : ids.Nodup) (hw : Slots env w) (hs : Unchanged files ids w) :
    Action.machine.Follows c (SlotsHeld env) (Slots env)
      ((openIds env.crc env.codec files ids).1.map .file) w := by
  induction ids generalizing w with
  | nil => exact follows_slots hc (by simp [openIds]) hw
  | cons id ids ih =>
    have hn : Action.machine.Follows c (SlotsHeld env) (Slots env)
        (([] : List SpoolOp).map .file) w := follows_slots hc (by simp) hw
    have hre : Unchanged files ids w := fun o hot =>
      hs o (mem_cons_of_mem id hot)
    have hn' := (nodup_cons.mp hno).2
    unfold openIds
    cases hr : readTerminal env.crc env.codec id (fileBytes files (.slot id)) with
    | error err => exact hn
    | ok found =>
      cases found with
      | some ev => exact ih hn' hw hre
      | none =>
        unfold retainUnknown
        cases hsl : fileBytes files (.slot id) with
        | none => exact ih hn' hw hre
        | some slot =>
          dsimp only
          split_ifs
          · exact hn
          · rw [hsl] at hr
            refine follows_cons (observed_retain hc hsl (slotRecord_of_unknown hr)
              hno) (fun w1 h1 => ?_) ⟨hw, hs⟩
            refine follows_cons (observed_slotFree hc local_unchanged ?_) (fun w2 h2 => ?_) h1
            · simp [Action.SlotFree, FileOp.touches]
            · exact ih hn' h2.1 h2.2

theorem nodup_admissionIds (files : SpoolFiles) : (admissionIds files).Nodup :=
  (mergeSort_perm _ _).nodup_iff.mpr (nodup_dedup _)

theorem safe_reappendPlan_slots (spool : RequestLogSpool) (evs : List Event) (hw : Exact env w)
    (hs : Slots env w) :
    Action.machine.Safe ((openContract env).also (SlotsHeld env))
      (fun w => Exact env w ∧ Slots env w) (reappendPlan env spool evs).actions w := by
  induction evs generalizing spool w with
  | nil =>
    exact (safe_nil Contract.stable_alone hw).also (follows_slots minds_alone (by simp) hs)
  | cons ev evs ih =>
    have ha : Action.machine.Safe ((openContract env).also (SlotsHeld env))
        (fun w => Exact env w ∧ Slots env w) (appendPlan env spool ev).actions w := by
      refine (safe_appendPlan_slots spool ev hw hs).mono ?_ ?_ ?_ (fun _ => id)
      · rintro s t rfl
        exact Beside.refl s
      · exact fun _ _ hg => Growth.keepsAll hg
      · exact fun _ hso => ⟨Sound.recoverable hso.1, hso.2⟩
    rw [reappendPlan]
    cases (appendPlan env spool ev).result with
    | error err => exact ha
    | ok bs => exact ha.append (fun _ h => ih _ h.1 h.2)

theorem slotFree_repairOps (evs : Bytes) (endOffset : ℕ) :
    ∀ a ∈ (repairOps evs endOffset).map (Action.file : SpoolOp → Action Event), a.SlotFree := by
  unfold repairOps
  split_ifs <;> simp [Action.SlotFree, FileOp.touches]

theorem follows_admissions (hc : Minds env c) (hw : Slots env w)
    (hs : Unchanged files (admissionIds files) w) :
    Action.machine.Follows c (SlotsHeld env) (Slots env)
      ((AdmissionStore.open env.crc env.codec files).1.map .file) w := by
  refine follows_cons (observed_slotFree hc local_unchanged ?_) (fun w1 h1 => ?_) ⟨hw, hs⟩
  · simp [Action.SlotFree, FileOp.touches]
  · exact follows_openIds hc files (nodup_admissionIds files) h1.1 h1.2

/-- An opening keeps what the slots hold until the events file has it. -/
theorem openWithLimits_slots (hw : Recoverable env w) (hsl : Slots env w) :
    let opening := openWithLimits env w.files
    Action.machine.Safe ((openContract env).also (SlotsHeld env))
      (fun w => (Recoverable env w ∧ (opening.result = .ok () → Exact env w)) ∧ Slots env w)
      opening.actions { w with spool := opening.spool } := by
  obtain ⟨⟨log, tail, hb, ht, he, off, hat, hd⟩, hac⟩ := hw
  have hr : ∀ spool, Restored env log tail off { w with spool := spool } :=
    fun spool => ⟨hb, ht, he, hat, hd, hac.memory spool⟩
  have hs : ∀ (opened : Prop) (spool : RequestLogSpool), (opened → Fits env log off spool) →
      Action.machine.Safe ((openContract env).also (SlotsHeld env))
        (fun w => Reopened env log [] off opened w ∧ Slots env w)
        ((repairOps w.events (frames env.crc log).length).map .file ++
          (AdmissionStore.open env.crc env.codec w.files).1.map .file)
        { w with spool := spool } := by
    intro opened spool hf
    have hl : Local env (Unchanged w.files (admissionIds w.files)) := local_unchanged
    refine ((safe_repairOps opened (hr spool) hf).also (follows_slotFree minds_alone
      hl (slotFree_repairOps _ _) ⟨hsl.memory spool, fun _ _ => rfl⟩)).append
      (fun w1 h1 => ?_)
    exact (safe_admissions w.files h1.1).also (follows_admissions minds_alone h1.2.1 h1.2.2)
  intro opening
  have hop : opening = _ := (hr w.spool).openWithLimits
  cases ha : (AdmissionStore.open env.crc env.codec w.files).2 with
  | error err =>
    simp only [ha] at hop
    rw [hop]
    refine (hs False _ False.elim).imp ?_
    exact fun w1 h1 => ⟨⟨h1.1.1.recoverable, fun hok => by cases hok⟩, h1.2⟩
  | ok opened =>
    simp only [ha] at hop
    rw [hop]
    refine (hs True _ (fun _ => ⟨rfl, rfl, rfl⟩)).append (fun w1 h1 => ?_)
    have hsy : Action.machine.Safe ((openContract env).also (SlotsHeld env))
        (fun w => Reopened env log [] off True w ∧ Slots env w)
        [.file (.syncDirectory .spool)] w1 :=
      (safe_cons (triple_reopened rfl rfl) (fun _ h =>
        safe_nil Contract.stable_alone h) h1.1).also
        (follows_slots minds_alone (by simp [Action.SlotFree, FileOp.touches]) h1.2)
    refine hsy.append (fun w2 h2 => ?_)
    refine (safe_reappendPlan_slots _ opened.recovered (h2.1.exact trivial) h2.2).imp ?_
    exact fun w3 h3 => ⟨⟨h3.1.sound.recoverable, fun _ => h3.1⟩, h3.2⟩

variable {rd : ℕ}

def SystemSlots (env : SpoolEnv Event) (s : System Event) : Prop :=
  match s.process with
  | .down => Slots env s.world
  | .opening actions result =>
    Action.machine.Safe ((openContract env).also (SlotsHeld env))
      (fun w => (Recoverable env w ∧ (result = .ok () → Exact env w)) ∧ Slots env w) actions s.world
  | .running none _ _ => Slots env s.world
  | .running (some actions) worker reader =>
    (worker = .compacting ∧ Action.machine.Safe ((compactContract env reader).also (SlotsHeld env))
      (fun w => (Exact env w ∧ w.spool.checkpointOffset = 0) ∧ Slots env w) actions s.world) ∨
    (worker ≠ .compacting ∧ Action.machine.Safe ((callContract env).also (SlotsHeld env))
      (fun w => Idle env w ∧ Slots env w) actions s.world)

variable {wk : Worker} {proc : Process Event} {s : System Event} {act : Action Event}
  {rest : List (Action Event)}

section
variable (h : SystemSlots env ⟨w, .running (some (act :: rest)) wk rd⟩) (kept : ℕ)
include h

theorem SystemSlots.stop :
    SlotsHeld env (act.cut kept w) := by
  rcases h with ⟨-, hs⟩ | ⟨-, hs⟩
  · exact (hs.stop kept).2.2
  · exact (hs.stop kept).2.2

theorem failCall_slots (hs : SlotsSound env (failCall kept act w wk rd).world) :
    SystemSlots env (failCall kept act w wk rd) := ⟨(h.stop kept).memory _, hs⟩

end

theorem crash_slots (h : SystemSound env ⟨w, proc⟩)
    (hs : SystemSlots env ⟨w, proc⟩) (kept workerKept : ℕ) :
    SlotsHeld env (crash kept workerKept w proc) := by
  cases proc with
  | down => exact hs.1
  | opening acts res =>
    cases acts with
    | nil => exact (Machine.Safe.done (m := Action.machine) hs).2.1
    | cons act rest => exact (Machine.Safe.stop hs kept).2.2
  | running call wk rd =>
    refine (crashWorker_beside (crashCall_sound h kept).2.2 workerKept).slotsHeld ?_
    cases call with
    | none => exact hs.1
    | some acts =>
      cases acts with
      | nil =>
        rcases hs with ⟨-, hsa⟩ | ⟨-, hsa⟩
        · exact hsa.done.2.1
        · exact hsa.done.2.1
      | cons act rest => exact hs.stop kept

theorem slotFree_compactOps : ∀ a ∈ (compactOps.map .file ++ [.memory RequestLogSpool.reset] :
    List (Action Event)), a.SlotFree := by
  simp [compactOps, persistCheckpointOps, Action.SlotFree, FileOp.touches]

theorem slotFree_syncDataPlan (spool : RequestLogSpool) :
    ∀ a ∈ (syncDataPlan spool : Plan Event Unit).actions, a.SlotFree := by
  unfold syncDataPlan
  split_ifs <;> simp [Action.SlotFree, FileOp.touches]

theorem WorkerStep.slots {call : Option (List (Action Event))}
    (hs : WorkerStep env w call s) (h : SystemSlots env ⟨w, .running call wk rd⟩)
    (hne : wk ≠ .compacting) : SystemSlots env s := by
  obtain ⟨u, wk', rd', rfl, hb, -, hne'⟩ := hs
  cases call with
  | none => exact hb.slots h
  | some acts =>
    rcases h with ⟨heq, -⟩ | ⟨-, hsa⟩
    · exact absurd heq hne
    · exact .inr ⟨hne', hsa.interfere hb⟩

/-- Every move keeps the invariant, as long as what it interrupts leaves sound slots. -/
theorem step_slots {s' : System Event} {move : Move Event} (h : SystemSound env s)
    (hsl : SystemSlots env s) (hst : s.step env move = some s')
    (hso : Interrupts s move → SlotsSound env s'.world) : SystemSlots env s' := by
  obtain ⟨w, proc⟩ := s
  have hw : move.isWorker = true → SystemSlots env s' := by
    intro hm
    obtain ⟨call, wk, rd, rfl, hne, hs | ⟨rfl, -, hd, rfl⟩⟩ := worker_step h hm hst
    · exact hs.slots hsl hne
    · exact .inl ⟨rfl, (safe_compactOps hd).also
        (follows_slots minds_alone slotFree_compactOps hsl)⟩
  cases turn_of_step hst with
  | launch => exact openWithLimits_slots h hsl
  | admitRequest intent av =>
    exact .inr ⟨h.2.2, (safe_of_neutral (neutral_admitPlan w.spool intent av) h.1).also
      (follows_admitPlan minds_call w.spool intent av hsl)⟩
  | append ev => exact .inr ⟨h.2.2, append_safe_slots ev h.1 hsl⟩
  | syncData =>
    exact .inr ⟨h.2.2, (safe_of_neutral (neutral_syncDataPlan w.spool) h.1).also
      (follows_slots minds_call (slotFree_syncDataPlan w.spool) hsl)⟩
  | opened => exact (Machine.Safe.done (m := Action.machine) hsl).2
  | unopened err => exact (Machine.Safe.done (m := Action.machine) hsl).2
  | openStep hr => exact (Machine.Safe.step hsl hr).2
  | openCut kept hi => exact ⟨(Machine.Safe.stop hsl kept).2.2, hso hi⟩
  | done =>
    rcases hsl with ⟨-, hsa⟩ | ⟨-, hsa⟩
    · exact hsa.done.2
    · exact hsa.done.2
  | callStep hr =>
    rcases hsl with ⟨hw, hsa⟩ | ⟨hw, hsa⟩
    · exact .inl ⟨hw, (hsa.step hr).2⟩
    · exact .inr ⟨hw, (hsa.step hr).2⟩
  | callCut kept hi => exact failCall_slots hsl kept (hso hi)
  | worker hm => exact hw hm
  | crash kept workerKept => exact ⟨crash_slots h hsl kept workerKept, hso trivial⟩

end Opening
end AiGateway.RequestLog
