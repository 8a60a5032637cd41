import AiGateway.RequestLog.AtLeastOnce

/-! Terminal slots across a restart: the last event saved for a request reaches the events file,
a slot that fails the tests produces no event, and its intent stays. -/
namespace AiGateway.RequestLog
open Domain Lib List

section About
variable {Event : Type} {env : SpoolEnv Event} {w u v left opened : World Event}

def Note.event : Note Event → Event
  | .began event | .saved event | .direct event | .acknowledged event => event

/-- An action that concerns some events only: it notes no other event, and no other request loses
its intent. -/
def Action.About (codec : JournalCodec Event) (S : Event → Prop) : Action Event → Prop
  | .file op => ∀ id, op.touches (.intent id) = true → ∃ event, S event ∧ codec.id event = id
  | .memory _ => True
  | .note entry => S entry.event

variable {codec : JournalCodec Event} {S : Event → Prop} {a : Action Event}
  {acts rest : List (Action Event)} {spool : RequestLogSpool} {ev ev' : Event}

theorem Action.About.mono {S' : Event → Prop}
    (h : a.About codec S) (hS : ∀ ev, S ev → S' ev) : a.About codec S' := by
  cases a with
  | file op =>
    intro id hid
    obtain ⟨ev, he, heq⟩ := h id hid
    exact ⟨ev, hS ev he, heq⟩
  | memory update => trivial
  | note e => exact hS _ h

/-- The events noted behind a list of actions, and the intents they leave. -/
structure Concerns (codec : JournalCodec Event) (S : Event → Prop) (w u : World Event) : Prop where
  history : ∀ entry ∈ u.history, entry ∈ w.history ∨ S entry.event
  intents : ∀ id, (∀ event, S event → codec.id event ≠ id) →
    fileBytes u.files (.intent id) = fileBytes w.files (.intent id)

theorem Action.About.run (h : a.About codec S) (hv : Concerns codec S w v) (hr : a.run v = some u) :
    Concerns codec S w u := by
  cases a with
  | file op =>
    refine ⟨by rw [(Action.run_file_same hr).2.2]; exact hv.history, fun id hid => ?_⟩
    refine (fileBytes_run hr ?_).trans (hv.intents id hid)
    rw [← Bool.not_eq_true]
    intro ht
    obtain ⟨ev, he, heq⟩ := h id ht
    exact hid ev he heq
  | memory update =>
    cases hr
    exact ⟨hv.history, hv.intents⟩
  | note e =>
    cases hr
    refine ⟨fun o hot => ?_, hv.intents⟩
    rcases mem_cons.mp hot with rfl | hot
    · exact .inr h
    · exact hv.history o hot

theorem concerns_runAll (h : ∀ a ∈ acts, a.About codec S)
    (hr : Action.machine.runAll w acts = some u) : Concerns codec S w u := by
  have hs : Concerns codec S w w := ⟨fun _ => .inl, fun _ _ => rfl⟩
  suffices ha : ∀ v, Concerns codec S w v → Action.machine.runAll v acts = some u →
      Concerns codec S w u from ha w hs hr
  clear hr
  induction acts with
  | nil =>
    intro v hv hr
    cases hr
    exact hv
  | cons a acts ih =>
    intro v hv hr
    rw [Machine.runAll, run?_cons, Option.bind_eq_some_iff] at hr
    obtain ⟨next, hn, hr⟩ := hr
    exact ih (fun b hb => h b (mem_cons_of_mem a hb)) next
      ((h a mem_cons_self).run hv hn) hr

theorem appendPlan_about (env : SpoolEnv Event) (spool : RequestLogSpool) (ev : Event) :
    ∀ a ∈ (appendPlan env spool ev).actions, a.About env.codec (· = ev) := by
  have hc := appendPlan_cases env spool ev
  generalize appendPlan env spool ev = plan at hc ⊢
  have hs : ∀ rec, ∀ a ∈ saveTerminal env ev rec, a.About env.codec (· = ev) := by
    simp [saveTerminal, saveTerminalOps, Action.About, Note.event, FileOp.touches]
  cases hc with
  | refused err => simp
  | latched rec => exact hs rec
  | reserved rec hr =>
    refine forall_mem_append.mpr ⟨hs rec, ?_⟩
    simp [writeReserved, writeSynced, retireOps, Action.About, Note.event, FileOp.touches,
      JournalCodec.encode_id hr.1]
  | direct rec => simp [writeDirect, Action.About, Note.event, FileOp.touches]

theorem reappendPlan_about (env : SpoolEnv Event) (spool : RequestLogSpool) (evs : List Event) :
    ∀ a ∈ (reappendPlan env spool evs).actions, a.About env.codec (· ∈ evs) := by
  induction evs generalizing spool with
  | nil => simp [reappendPlan]
  | cons ev evs ih =>
    have hf : ∀ a ∈ (appendPlan env spool ev).actions,
        a.About env.codec (· ∈ ev :: evs) := fun a ha =>
      (appendPlan_about env spool ev a ha).mono (fun _ heq => heq ▸ mem_cons_self)
    rw [reappendPlan]
    cases (appendPlan env spool ev).result with
    | error err => exact hf
    | ok bs =>
      exact forall_mem_append.mpr ⟨hf, fun a ha =>
        (ih _ a ha).mono (fun _ => mem_cons_of_mem ev)⟩

theorem appendPlan_acknowledges {bs : ℕ} (h : (appendPlan env spool ev).result = .ok bs) :
    .note (.acknowledged ev) ∈ (appendPlan env spool ev).actions := by
  have hc := appendPlan_cases env spool ev
  generalize appendPlan env spool ev = plan at h hc ⊢
  cases hc with
  | refused err => cases h
  | latched rec => cases h
  | reserved rec => exact mem_append_right _ (by simp [writeReserved])
  | direct rec => simp [writeDirect]

theorem reappendPlan_acknowledges {evs : List Event}
    (h : (reappendPlan env spool evs).result = .ok ()) (he : ev ∈ evs) :
    .note (.acknowledged ev) ∈ (reappendPlan env spool evs).actions := by
  induction evs generalizing spool with
  | nil => exact absurd he not_mem_nil
  | cons first evs ih =>
    rw [reappendPlan] at h ⊢
    cases ha : (appendPlan env spool first).result with
    | error err =>
      rw [ha] at h
      cases h
    | ok bs =>
      rw [ha] at h
      rcases mem_cons.mp he with rfl | he
      · exact mem_append_left _ (appendPlan_acknowledges ha)
      · exact mem_append_right _ (ih h he)

theorem mem_history_runAll {e : Note Event}
    (hr : Action.machine.runAll w acts = some u) (h : e ∈ w.history ∨ .note e ∈ acts) :
    e ∈ u.history := by
  induction acts generalizing w with
  | nil =>
    cases hr
    exact h.resolve_right not_mem_nil
  | cons a acts ih =>
    rw [Machine.runAll, run?_cons, Option.bind_eq_some_iff] at hr
    obtain ⟨v, hv, hr⟩ := hr
    change a.run w = some v at hv
    have hk : e ∈ w.history → e ∈ v.history := by
      intro he
      cases a with
      | file op => rwa [(Action.run_file_same hv).2.2]
      | memory update =>
        cases hv
        exact he
      | note o =>
        cases hv
        exact mem_cons_of_mem o he
    refine ih hr ?_
    rcases h with he | he
    · exact .inl (hk he)
    · rcases mem_cons.mp he with rfl | he
      · cases hv
        exact .inl mem_cons_self
      · exact .inr he

theorem about_repairOps (codec : JournalCodec Event) (S : Event → Prop) (evs : Bytes)
    (endOffset : ℕ) : ∀ a ∈ (repairOps evs endOffset).map Action.file, a.About codec S := by
  unfold repairOps
  split_ifs <;> simp [Action.About, FileOp.touches]

theorem about_admissions (env : SpoolEnv Event) (S : Event → Prop) (files : SpoolFiles) :
    ∀ a ∈ (AdmissionStore.open env.crc env.codec files).1.map Action.file, a.About env.codec S := by
  intro a ha
  obtain ⟨op, hop, rfl⟩ := mem_map.mp ha
  rcases mem_cons.mp hop with rfl | hop
  · simp [Action.About, FileOp.touches]
  · obtain ⟨id, slot, -, -, rfl | rfl⟩ := openIds_ops env.crc env.codec files _ op hop
    · simp [Action.About, FileOp.touches]
    · simp [Action.About, FileOp.touches]

variable {admissions : Admissions Event}

/-- An opening concerns the events it recovers, and acknowledges every one of them. -/
theorem openWithLimits_about (hw : Recoverable env w)
    (ha : (AdmissionStore.open env.crc env.codec w.files).2 = .ok admissions) :
    let opening := openWithLimits env w.files
    (∀ a ∈ opening.actions, a.About env.codec (· ∈ admissions.recovered)) ∧
      (opening.result = .ok () → ∀ ev ∈ admissions.recovered,
        .note (.acknowledged ev) ∈ opening.actions) := by
  obtain ⟨⟨log, tail, hb, ht, he, off, hat, hd⟩, hac⟩ := hw
  have hr : Restored env log tail off w := ⟨hb, ht, he, hat, hd, hac⟩
  intro opening
  have hop : opening = _ := hr.openWithLimits
  simp only [ha] at hop
  rw [hop]
  refine ⟨?_, fun hok ev hev => ?_⟩
  · refine forall_mem_append.mpr ⟨forall_mem_append.mpr
      ⟨about_repairOps _ _ _ _, about_admissions env _ _⟩, forall_mem_cons.mpr
        ⟨?_, reappendPlan_about env _ _⟩⟩
    simp [Action.About, FileOp.touches]
  · exact mem_append_right _ (mem_cons_of_mem _ (reappendPlan_acknowledges hok hev))

variable {v : World Event} {rec rec' : EncodedRequestLog} {rd : ℕ}

def SlotFilled (env : SpoolEnv Event) (id : Uuid) (record : EncodedRequestLog) (w : World Event) :
    Prop :=
  ∃ slot, fileBytes w.files (.slot id) = some slot ∧ slot.length ≤ slotBytes ∧
    slotRecord env.crc id slot = some record

/-- A completed save: the slot holds the record, and everything else is as before. -/
structure Saved (env : SpoolEnv Event) (event : Event) (record : EncodedRequestLog)
    (w u : World Event) : Prop where
  filled : SlotFilled env (env.codec.id event) record u
  others : ∀ path, path ≠ .slot (env.codec.id event) → fileBytes u.files path = fileBytes w.files path
  spool : u.spool = w.spool
  accepted : u.accepted = w.accepted
  history : u.history = .saved event :: .began event :: w.history

variable {slot bs : Bytes}

theorem ends_saved (h : Encodes env ev rec)
    (hsl : fileBytes w.files (.slot (env.codec.id ev)) = some slot)
    (hs : slot.length ≤ slotBytes) :
    Action.machine.Ends (Saved env ev rec w) (saveTerminal env ev rec) w := by
  have hid := JournalCodec.encode_id h.1
  have hp : (overwrite slot slotHeaderBytes rec.payload).length ≤ slotBytes := by
    refine (length_overwrite_le _ _ _).trans (max_le hs ?_)
    have := h.2
    unfold slotBytes
    omega
  have hh : (overwrite (overwrite slot slotHeaderBytes rec.payload) 0
      (slotHeader env.crc rec)).length ≤ slotBytes := by
    refine (length_overwrite_le _ _ _).trans (max_le hp ?_)
    rw [length_slotHeader]
    unfold slotBytes
    omega
  obtain ⟨w1, hr1, hsl1⟩ : ∃ u, (Action.file (.writeAt (.slot (env.codec.id ev))
      slotHeaderBytes rec.payload)).run { w with history := .began ev :: w.history } = some u ∧
      fileBytes u.files (.slot (env.codec.id ev)) = _ :=
    run_edit (f := (overwrite · slotHeaderBytes rec.payload)) (fun _ => rfl) hsl
      (hp.trans slotBytes_le_maxFileBytes)
  obtain ⟨w2, hr2, hs2⟩ : ∃ u, (Action.file (.writeAt (.slot (env.codec.id ev)) 0
      (slotHeader env.crc rec))).run w1 = some u ∧
      fileBytes u.files (.slot (env.codec.id ev)) = _ :=
    run_edit (f := (overwrite · 0 (slotHeader env.crc rec))) (fun _ => rfl) hsl1
      (hh.trans slotBytes_le_maxFileBytes)
  have hr : slotRecord env.crc rec.requestLogId (overwrite (overwrite slot slotHeaderBytes
      rec.payload) 0 (slotHeader env.crc rec)) = some rec := slotRecord_saved h.2 slot
  obtain ⟨hs1, ha1, hh1⟩ := Action.run_file_same hr1
  obtain ⟨hsp2, ha2, hh2⟩ := Action.run_file_same hr2
  refine ⟨{ w2 with trace := .sync (.slot (env.codec.id ev)) :: w2.trace
                    history := .saved ev :: w2.history }, ?_, ?_⟩
  · unfold saveTerminal saveTerminalOps
    rw [hid]
    change Option.bind ((Action.file _).run _) _ = _
    rw [hr1]
    change Option.bind ((Action.file _).run _) _ = _
    rw [hr2]
    change Option.bind ((Action.file _).run _) _ = _
    rw [run_sync hs2]
    rfl
  · rw [hid] at hr
    refine ⟨⟨_, hs2, hh, hr⟩, fun path hpa => ?_, hsp2.trans hs1, ha2.trans ha1, by rw [hh2, hh1]⟩
    have hf : ∀ off bs, (FileOp.writeAt (.slot (env.codec.id ev)) off bs :
        SpoolOp).touches path = false := fun _ _ => by simpa [FileOp.touches] using hpa.symm
    have hfi := fileBytes_run hr1 (hf _ _)
    exact (fileBytes_run hr2 (hf _ _)).trans hfi

/-- A failed write to the events file that kept nothing: only the latch shows it. -/
structure FailedWrite (w u : World Event) : Prop where
  files : ∀ path, fileBytes u.files path = fileBytes w.files path
  spool : u.spool = w.spool.latch
  accepted : u.accepted = w.accepted
  history : u.history = w.history

theorem step_fail {data : Bytes}
    (he : fileBytes w.files .events = some bs) : ∃ u, FailedWrite w u ∧
      System.step env ⟨w, .running (some (.file (.append .events data) :: rest)) .reading rd⟩
        (.fail 0) = some ⟨u, .running none .reading rd⟩ := by
  have hb : bs.length ≤ maxFileBytes := by
    obtain ⟨ct, -, rfl⟩ := Option.map_eq_some_iff.mp he
    exact ct.property
  obtain ⟨u, hr, haf⟩ : ∃ u, (Action.file (.append .events (data.take 0))).run w = some u ∧
      fileBytes u.files .events = some (bs ++ data.take 0) :=
    run_edit (f := (· ++ data.take 0)) (fun _ => rfl) he
      (by rw [take_zero, append_nil]; exact hb)
  obtain ⟨hs, ha, hh⟩ := Action.run_file_same hr
  have hc : (Action.file (.append .events data)).cut 0 w = u := by
    change ((Action.file (.append .events (data.take 0))).run w).getD w = u
    rw [hr]
    rfl
  refine ⟨{ u with spool := u.spool.latch }, ⟨fun path => ?_, by rw [hs], ha, hh⟩, ?_⟩
  · by_cases hp : path = .events
    · subst hp
      rw [take_zero, append_nil] at haf
      exact haf.trans he.symm
    · have hf : (FileOp.append .events (data.take 0) : SpoolOp).touches path = false := by
        simpa [FileOp.touches] using Ne.symm hp
      have hot : fileBytes u.files path = fileBytes w.files path := fileBytes_run hr hf
      exact hot
  · simp only [System.step, fail, failCall, hc]
    rfl

/-- One slot at most, with a record of an event whose save has begun. -/
theorem SlotFilled.sound (h : SlotFilled env (env.codec.id ev) rec w)
    (he : env.codec.encode ev = .ok rec) (hb : .began ev ∈ w.history)
    (hot : ∀ id ≠ env.codec.id ev, fileBytes w.files (.slot id) = none) :
    SlotsSound env w := by
  intro id slot hs
  by_cases hid : id = env.codec.id ev
  · subst hid
    obtain ⟨slot', hs', -, hr⟩ := h
    cases hs.symm.trans hs'
    exact .inr ⟨ev, rec, hb, rfl, he, hr⟩
  · cases (hot id hid).symm.trans hs

/-- A save that completes, and a write to the events file that fails behind it. -/
theorem run_saveFailed (h : Encodes env ev rec)
    (hid : env.codec.id ev ∈ w.spool.admissions.ids) (hfl : w.spool.failed = false)
    (hsl : fileBytes w.files (.slot (env.codec.id ev)) = some slot)
    (hsi : slot.length ≤ slotBytes) (he : fileBytes w.files .events = some bs) :
    ∃ moves u u', Saved env ev rec w u ∧ FailedWrite u u' ∧
      run? (System.step env) ⟨w, .running none .reading rd⟩ moves =
        some ⟨u', .running none .reading rd⟩ ∧
      (SlotsSound env u' → Across (System.step env) (fun s move s' => Interrupts s move →
        SlotsSound env s'.world) ⟨w, .running none .reading rd⟩ moves) := by
  obtain ⟨u, hsv, hu⟩ := ends_saved h hsl hsi
  have hst : System.step env ⟨w, .running none .reading rd⟩ (.append ev) =
      some ⟨w, .running (some (saveTerminal env ev rec ++ writeReserved env ev rec))
        .reading rd⟩ := by
    simp only [System.step, appendPlan_reserved h hid hfl]
  have hb : fileBytes u.files .events = some bs := (hu.others _ (by simp)).trans he
  obtain ⟨u', hu', hfa⟩ : ∃ u', FailedWrite u u' ∧ System.step env
      ⟨u, .running (some (writeReserved env ev rec)) .reading rd⟩ (.fail 0) =
        some ⟨u', .running none .reading rd⟩ := step_fail hb
  refine ⟨.append ev :: List.replicate (saveTerminal env ev rec).length .perform ++ [.fail 0], u, u',
    hu, hu', run?_trans (run_start hst hsv) ?_, fun hsp s hs => ?_⟩
  · rw [run?_cons, hfa]
    rfl
  · cases hst.symm.trans hs
    refine ⟨False.elim, (clean_performs hsv _).append (fun t ht t' ht' => ⟨fun _ => ?_, trivial⟩)⟩
    cases (run_performs hsv _).symm.trans ht
    cases hfa.symm.trans ht'
    exact hsp

/-- What an opening makes of the slots: the last event saved for a request is kept or recovered
from its slot, everything else comes from a save or an append without a reservation, and what fails
the tests is left with its intent. -/
structure Recovery (env : SpoolEnv Event) (left opened : World Event)
    (admissions : Admissions Event) : Prop where
  latest : ∀ id event, latestSaved env.codec id left.history = some event → ∃ record,
    env.codec.encode event = .ok record ∧ (Kept env left record ∨
      (event ∈ admissions.recovered ∧ Holds env.crc opened.events record))
  recovered : ∀ event ∈ admissions.recovered, .began event ∈ left.history ∧ ∃ record,
    env.codec.encode event = .ok record ∧ SlotHolds env left (env.codec.id event) record
  sources : ∀ record, Holds env.crc opened.events record → ∃ event,
    env.codec.encode event = .ok record ∧ (.saved event ∈ left.history ∨
      .direct event ∈ left.history ∨ event ∈ admissions.recovered)
  unknown : ∀ id, Blank env id left → (∀ event ∈ admissions.recovered, env.codec.id event ≠ id) ∧
    fileBytes opened.files (.intent id) = fileBytes left.files (.intent id)

theorem encode_injective (h : codec.encode ev = .ok rec)
    (h' : codec.encode ev' = .ok rec) : ev = ev' :=
  Except.ok.inj ((JournalCodec.decode_encode h).symm.trans (JournalCodec.decode_encode h'))

theorem Recovers.recovery
    (hr : Recovers env left (admissionIds left.files) admissions)
    (hhe : SlotsHeld env left) (hex : Exact env opened)
    (hac : opened.accepted = left.accepted)
    (hc : Concerns env.codec (· ∈ admissions.recovered) left opened)
    (hak : ∀ ev ∈ admissions.recovered, .acknowledged ev ∈ opened.history) :
    Recovery env left opened admissions where
  latest := by
    intro id ev hl
    obtain ⟨rec, he, hk | hh⟩ := (hhe id).latest ev hl
    · exact ⟨rec, he, .inl hk⟩
    obtain ⟨slot, hs, hre⟩ := hh
    obtain ⟨ev', he', hen'⟩ := hr.complete id (mem_admissionIds hs) rec ⟨slot, hs, hre⟩
    obtain rfl := encode_injective he hen'
    obtain ⟨log, -, -, ha⟩ := hex
    obtain ⟨rec', hr', hk⟩ := ha.acks ev (hak ev he')
    cases he.symm.trans hr'
    refine ⟨rec, he, ?_⟩
    rcases hk with hm | hh
    · exact .inl (.inl (hac ▸ hm))
    · exact .inr ⟨he', hh⟩
  recovered := hr.saved
  sources := by
    intro rec hh
    obtain ⟨log, -, -, ha⟩ := hex
    obtain ⟨ev, he, hsa | hd⟩ := ha.sources rec hh
    · exact ⟨ev, he, (hc.history _ hsa).imp_right .inr⟩
    · exact ⟨ev, he, .inr (hc.history _ hd)⟩
  unknown := by
    intro id hb
    have hot : ∀ ev ∈ admissions.recovered, env.codec.id ev ≠ id := by
      rintro ev hev rfl
      obtain ⟨-, rec, -, slot, hs, hre⟩ := hr.saved ev hev
      rw [hb slot hs] at hre
      cases hre
    exact ⟨hot, hc.intents id hot⟩

/-- Wherever a process stops, the next opening recovers what its slots hold. -/
theorem terminal_slots_recover {moves : List (Move Event)} {s : System Event}
    (hrun : run? (System.step env) System.init moves = some s) (hclean : CleanStops env moves)
    (kept workerKept : ℕ) (hleft : SlotsSound env (crash kept workerKept s.world s.process))
    (hroom : (crash kept workerKept s.world s.process).events.length +
      (admissionIds (crash kept workerKept s.world s.process).files).length *
        (frameHeaderBytes + maxPayloadBytes) ≤ maxFileBytes) :
    let left := crash kept workerKept s.world s.process
    let opening := openWithLimits env left.files
    opening.result = .ok () ∧ ∃ admissions opened,
      (AdmissionStore.open env.crc env.codec left.files).2 = .ok admissions ∧
      Action.machine.runAll { left with spool := opening.spool } opening.actions = some opened ∧
      Recovery env left opened admissions := by
  intro left opening
  have hs := reachable_sound hrun
  have hr : Recoverable env left := (crash_sound hs kept workerKept).1
  have hh : SlotsHeld env left := crash_slots hs (reachable_slots hclean hrun) kept workerKept
  obtain ⟨hre, opened, hop, -⟩ := openWithLimits_returns hr ⟨hh, hleft⟩ hroom
  obtain ⟨admissions, ha, hrc⟩ := openIds_recovers ⟨hh, hleft⟩ (admissionIds left.files)
  obtain ⟨hac, -, hex⟩ := openWithLimits_runAll hr hop
  obtain ⟨hab, hak⟩ := openWithLimits_about hr ha
  refine ⟨hre, admissions, opened, ha, hop, ?_⟩
  have hc := concerns_runAll hab hop
  exact hrc.recovery hh (hex hre) hac
    ⟨hc.history, hc.intents⟩
    (fun event he => mem_history_runAll hop (.inr (hak hre event he)))

theorem length_admissionIds_le {files : SpoolFiles} {id : Uuid}
    (h : ∀ o ≠ id, fileBytes files (.slot o) = none ∧ fileBytes files (.intent o) = none) :
    (admissionIds files).length ≤ 1 := by
  have hs : admissionIds files ⊆ [id] := by
    intro o hot
    unfold admissionIds at hot
    rw [mem_mergeSort, mem_dedup, mem_filterMap] at hot
    obtain ⟨path, hp, hid⟩ := hot
    obtain ⟨ct, hg⟩ := (Table.mem_keys_iff files path).mp hp
    have hb : fileBytes files path = some ct.val := by
      rw [fileBytes, hg]
      rfl
    by_contra hne
    obtain ⟨hsl, hin⟩ := h o (fun heq => hne (heq ▸ mem_singleton_self id))
    cases path with
    | slot o' =>
      cases hid
      cases hsl.symm.trans hb
    | intent o' =>
      cases hid
      cases hin.symm.trans hb
    | events | checkpoint | checkpointTemp => cases hid
  exact (subperm_of_subset (nodup_admissionIds files) hs).length_le

theorem encodes_byte (event : Uuid × UInt8) : Encodes byteEnv event
    ⟨event.1, requestLogSchemaVersion, event.1.asBytes ++ [event.2]⟩ := by
  refine ⟨rfl, ?_⟩
  rw [length_append, Uuid.length_asBytes]
  exact (by decide : 17 ≤ maxPayloadBytes)

/-- A run that saves the event of the request it has admitted, and cannot write its frame. -/
theorem run_byteSaved : ∃ moves w, run? (System.step byteEnv) System.init moves =
      some ⟨w, .running none .reading 0⟩ ∧ CleanStops byteEnv moves ∧ SlotsSound byteEnv w ∧
    w.events.length + (admissionIds w.files).length * (frameHeaderBytes + maxPayloadBytes) ≤
      maxFileBytes ∧ w.events = [] ∧ w.accepted = [] ∧
    w.history = [.saved (1, 7), .began (1, 7)] := by
  obtain ⟨moves, w, hr, hc, hw⟩ := run_reserved
  have hsl : ∀ id ≠ 1, fileBytes w.files (.slot id) = none ∧
      fileBytes w.files (.intent id) = none := fun id hne =>
    ⟨hw.others _ (by simpa using hne) (by simp), hw.others _ (by simp) (by simpa using hne)⟩
  have hev : fileBytes w.files .events = some [] := hw.others _ (by simp) (by simp)
  obtain ⟨moves', u, u', hu, hu', hru, hac⟩ := run_saveFailed (encodes_byte (1, 7))
    (by rw [hw.spool]; exact mem_cons_self) (by rw [hw.spool]; rfl) hw.slot
    (by rw [length_replicate]) hev
  have hot : ∀ path, path ≠ .slot 1 → fileBytes u'.files path = fileBytes w.files path :=
    fun path hp => (hu'.files path).trans (hu.others path hp)
  have hh : u'.history = [.saved (1, 7), .began (1, 7)] := by
    rw [hu'.history, hu.history, hw.history]
    rfl
  have hso : SlotsSound byteEnv u' := by
    obtain ⟨filled, hf, hrs⟩ := hu.filled
    refine SlotFilled.sound ⟨filled, (hu'.files _).trans hf, hrs⟩ (encodes_byte (1, 7)).1
      (by rw [hh]; simp) (fun id hne => ?_)
    exact (hot _ (fun heq => hne (SpoolPath.slot.inj heq))).trans (hsl id hne).1
  have hem : u'.events = [] := by
    rw [World.events, hot _ (by simp), hev]
    rfl
  refine ⟨_, u', run?_trans hr hru, ?_, hso, ?_, hem, ?_, hh⟩
  · exact hc.append (fun s hs => by
      cases hr.symm.trans hs
      exact hac hso)
  · have hid : (admissionIds u'.files).length ≤ 1 := length_admissionIds_le fun id hne =>
      ⟨(hot _ (fun heq => hne (SpoolPath.slot.inj heq))).trans (hsl id hne).1,
        (hot _ (by simp)).trans (hsl id hne).2⟩
    have hro : 0 + 1 * (frameHeaderBytes + maxPayloadBytes) ≤ maxFileBytes := by decide
    rw [hem]
    refine le_trans ?_ hro
    exact Nat.add_le_add_left (Nat.mul_le_mul_right _ hid) 0
  · rw [hu'.accepted, hu.accepted, hw.accepted]
    rfl

/-- The header of a second request's first save is cut behind its magic: the event that was saved before
is in no file that is read, and no opening succeeds any more. -/
theorem torn_header_hides_saved : ∃ moves s event record,
    run? (System.step byteEnv) System.init moves = some s ∧
    let left := crash 4 0 s.world s.process
    latestSaved byteEnv.codec 1 left.history = some event ∧
    byteEnv.codec.encode event = .ok record ∧ ¬ Kept byteEnv left record ∧
    ∃ error, (AdmissionStore.open byteEnv.crc byteEnv.codec left.files).2 = .error error ∧
      (openWithLimits byteEnv left.files).result = .error error := by
  obtain ⟨moves, w₁, hr₁, -, hw₁⟩ := run_reserved
  have hp : admitPlan byteEnv (.insertId 1 (.opened 0 0 ⟨[], 0⟩)) ⟨2, some []⟩ (some (2 ^ 40)) =
      ⟨.memory (.insertId 2) :: (reserveOps 2 []).map .file, .ok ()⟩ :=
    admitPlan_reserves rfl (by decide) (by decide) (by decide) (by decide)
  obtain ⟨w₂, hr₂, -, hw₂⟩ := run_admission (by rw [hw₁.spool]; exact hp)
    (hw₁.others _ (by decide) (by decide)) (hw₁.others _ (by decide) (by decide))
  have hs₂ := hw₂.spool.trans (congrArg (RequestLogSpool.insertId 2) hw₁.spool)
  have hids : w₂.spool.admissions.ids = [2, 1] := congrArg (·.admissions.ids) hs₂
  have he₂ : fileBytes w₂.files .events = some [] := (hw₂.others _ (by decide) (by decide)).trans
    (hw₁.others _ (by decide) (by decide))
  obtain ⟨moves', u, u', hu, hu', hr₃, -⟩ := run_saveFailed (encodes_byte (1, 7)) (by rw [hids]; decide)
    (congrArg RequestLogSpool.failed hs₂) ((hw₂.others _ (by decide) (by decide)).trans hw₁.slot)
    (by rw [length_replicate]) he₂
  obtain ⟨s, hr₄, hsl, hev, hac, hh⟩ := run_tornHeader (encodes_byte (2, 5))
    (by rw [hu'.spool, hu.spool]; exact hids ▸ mem_cons_self)
    ((hu'.files _).trans ((hu.others _ (by decide)).trans hw₂.slot))
  have hru := run?_trans (run?_trans (run?_trans hr₁ hr₂) hr₃) hr₄
  have hr := (crash_sound (reachable_sound hru) 4 0).1
  refine ⟨_, s, (1, 7), _, hru, ?_, (encodes_byte (1, 7)).1, ?_,
    openWithLimits_fails_of_tornHeader (by decide) ⟨.unsupportedVersion 0, rfl⟩ hr hsl⟩
  · rw [hh, hu'.history, hu.history]
    rfl
  · have hem : u'.events = [] := by
      rw [World.events, hu'.files, hu.others _ (by decide), he₂]
      rfl
    rw [Kept, hac, hev, hem, hu'.accepted, hu.accepted, hw₂.accepted, hw₁.accepted]
    exact not_or.mpr ⟨not_mem_nil, not_holds_nil _ _⟩

/-- The event is recovered from its slot. -/
theorem terminal_slots_recover_saved : ∃ moves s record,
    run? (System.step byteEnv) System.init moves = some s ∧
    byteEnv.codec.encode (1, 7) = .ok record ∧ ∃ opened, Action.machine.runAll
      { s.world with spool := (openWithLimits byteEnv s.world.files).spool }
      (openWithLimits byteEnv s.world.files).actions = some opened ∧
    ¬ Holds byteEnv.crc s.world.events record ∧ Holds byteEnv.crc opened.events record := by
  obtain ⟨moves, w, hru, hc, hs, hro, he, ha, hh⟩ := run_byteSaved
  obtain ⟨-, admissions, opened, -, hop, hr⟩ := terminal_slots_recover hru hc 0 0 hs hro
  obtain ⟨record, hen, hk | ⟨-, hho⟩⟩ := hr.latest 1 (1, 7) (by
      rw [show crash 0 0 w (.running none .reading 0) = w from rfl, hh]
      rfl)
  · rw [show crash 0 0 w (.running none .reading 0) = w from rfl, Kept, ha, he] at hk
    exact (hk.elim not_mem_nil (not_holds_nil _ _)).elim
  · exact ⟨moves, _, record, hru, hen, opened, hop, by rw [he]; exact not_holds_nil _ _, hho⟩

end About
end AiGateway.RequestLog
