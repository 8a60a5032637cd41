import AiGateway.RequestLog.Delivery

/-! The slots of admitted requests: the last event saved for a request stays in its slot until the
events file or the database has it, and a slot passes the tests only with a record that was saved. -/
namespace AiGateway.RequestLog
open Domain Lib List Machine

section Assertions
variable {Event : Type} (env : SpoolEnv Event)

/-- The event saved last for a request, while no other save has begun for it. -/
def latestSaved (codec : JournalCodec Event) (id : Uuid) : List (Note Event) → Option Event
  | [] => none
  | .saved event :: notes => if codec.id event = id then some event else latestSaved codec id notes
  | .began event :: notes => if codec.id event = id then none else latestSaved codec id notes
  | .direct _ :: notes => latestSaved codec id notes
  | .acknowledged _ :: notes => latestSaved codec id notes

/-- A slot that passes the tests with a record. -/
def SlotHolds (w : World Event) (id : Uuid) (record : EncodedRequestLog) : Prop :=
  ∃ slot, fileBytes w.files (.slot id) = some slot ∧ slotRecord env.crc id slot = some record

/-- A slot fails the tests or holds the record of an event whose save has begun. -/
def SlotSound (w : World Event) (id : Uuid) : Prop :=
  ∀ slot, fileBytes w.files (.slot id) = some slot → slotRecord env.crc id slot = none ∨
    ∃ event record, .began event ∈ w.history ∧ env.codec.id event = id ∧
      env.codec.encode event = .ok record ∧ slotRecord env.crc id slot = some record

structure SlotHeld (w : World Event) (id : Uuid) : Prop where
  size : ∀ slot, fileBytes w.files (.slot id) = some slot → slot.length ≤ slotBytes
  latest : ∀ event, latestSaved env.codec id w.history = some event → ∃ record,
    env.codec.encode event = .ok record ∧ (Kept env w record ∨ SlotHolds env w id record)

/-- What holds of the slots at every moment. -/
def SlotsHeld (w : World Event) : Prop := ∀ id, SlotHeld env w id

/-- What a crash or a failed operation may break. -/
def SlotsSound (w : World Event) : Prop := ∀ id, SlotSound env w id

def Slots (w : World Event) : Prop := SlotsHeld env w ∧ SlotsSound env w

variable {env} {w u : World Event} {id : Uuid} {rec : EncodedRequestLog}

/-- The slot of a request and its history are the same as before. -/
structure SameSlot (codec : JournalCodec Event) (id : Uuid) (w u : World Event) : Prop where
  slot : fileBytes u.files (.slot id) = fileBytes w.files (.slot id)
  latest : latestSaved codec id u.history = latestSaved codec id w.history
  history : w.history ⊆ u.history

theorem SameSlot.holds (h : SameSlot env.codec id w u) (hw : SlotHolds env w id rec) :
    SlotHolds env u id rec := by
  obtain ⟨slot, hs, hr⟩ := hw
  exact ⟨slot, h.slot.trans hs, hr⟩

theorem SameSlot.held (h : SameSlot env.codec id w u) (hk : KeepsAll env w u)
    (hw : SlotHeld env w id) : SlotHeld env u id where
  size := fun slot hs => hw.size slot (h.slot ▸ hs)
  latest := by
    intro ev hl
    rw [h.latest] at hl
    obtain ⟨rec, he, hr⟩ := hw.latest ev hl
    exact ⟨rec, he, hr.imp (hk rec) h.holds⟩

theorem SameSlot.sound (h : SameSlot env.codec id w u) (hw : SlotSound env w id) :
    SlotSound env u id := by
  intro slot hs
  rw [h.slot] at hs
  refine (hw slot hs).imp_right ?_
  rintro ⟨ev, rec, hb, hid, he, hr⟩
  exact ⟨ev, rec, h.history hb, hid, he, hr⟩

theorem slotsHeld_of_same (h : ∀ id, SameSlot env.codec id w u) (hk : KeepsAll env w u)
    (hw : SlotsHeld env w) : SlotsHeld env u := fun id => (h id).held hk (hw id)

theorem slots_of_same (h : ∀ id, SameSlot env.codec id w u) (hk : KeepsAll env w u)
    (hw : Slots env w) : Slots env u :=
  ⟨slotsHeld_of_same h hk hw.1, fun id => (h id).sound (hw.2 id)⟩

theorem SameSlot.memory (codec : JournalCodec Event) (w : World Event) (spool : RequestLogSpool)
    (id : Uuid) : SameSlot codec id w { w with spool := spool } := ⟨rfl, rfl, List.Subset.refl _⟩

theorem KeepsAll.memory (w : World Event) (spool : RequestLogSpool) :
    KeepsAll env w { w with spool := spool } := fun _ => id

theorem Slots.memory (h : Slots env w) (spool : RequestLogSpool) :
    Slots env { w with spool := spool } :=
  slots_of_same (SameSlot.memory env.codec w spool) (KeepsAll.memory w spool) h

theorem SlotsHeld.memory (h : SlotsHeld env w) (spool : RequestLogSpool) :
    SlotsHeld env { w with spool := spool } :=
  slotsHeld_of_same (SameSlot.memory env.codec w spool) (KeepsAll.memory w spool) h

theorem Beside.sameSlot (h : Beside env w u) (codec : JournalCodec Event) (id : Uuid) :
    SameSlot codec id w u where
  slot := h.files _ (by simp) (by simp)
  latest := by rw [h.history]
  history := by rw [h.history]; exact List.Subset.refl _

theorem Beside.slotsHeld (h : Beside env w u) (hw : SlotsHeld env w) : SlotsHeld env u :=
  slotsHeld_of_same (fun id => h.sameSlot env.codec id) (fun _ => h.kept) hw

theorem Beside.slots (h : Beside env w u) (hw : Slots env w) : Slots env u :=
  slots_of_same (fun id => h.sameSlot env.codec id) (fun _ => h.kept) hw

theorem slotRecord_bounded {crc : Bytes → UInt32} {slot : Bytes}
    (h : slotRecord crc id slot = some rec) : rec.payload.length ≤ maxPayloadBytes := by
  unfold slotRecord at h
  dsimp only at h
  split_ifs at h with h1 h2 h3
  cases h
  rw [length_take]
  omega

/-- An action that leaves the slots and what was saved in them alone. -/
def Action.SlotFree : Action Event → Prop
  | .file op => ∀ id, op.touches (.slot id) = false
  | .memory _ => True
  | .note (.began _) | .note (.saved _) => False
  | .note (.direct _) | .note (.acknowledged _) => True

variable {op : SpoolOp} {a : Action Event} {acts : List (Action Event)}

theorem sameSlot_of_run (codec : JournalCodec Event)
    (hr : (Action.file op).run w = some u) (h : op.touches (.slot id) = false) :
    SameSlot codec id w u := by
  have hh := (Action.run_file_same hr).2.2
  exact ⟨fileBytes_run hr h, by rw [hh], by rw [hh]; exact List.Subset.refl _⟩

theorem SameSlot.refl (codec : JournalCodec Event) (id : Uuid) (w : World Event) :
    SameSlot codec id w w := ⟨rfl, rfl, List.Subset.refl _⟩

theorem sameSlot_of_cut (codec : JournalCodec Event) (kept : ℕ)
    (w : World Event) (h : op.touches (.slot id) = false) :
    SameSlot codec id w ((Action.file op).cut kept w) := by
  rcases Action.cut_file op kept w with heq | ⟨part, hp, hr⟩
  · rw [heq]
    exact .refl codec id w
  · exact sameSlot_of_run codec hr ((FileOp.touches_cut hp _).trans h)

theorem Action.SlotFree.run (h : a.SlotFree) (codec : JournalCodec Event)
    (hr : a.run w = some u) (id : Uuid) : SameSlot codec id w u := by
  cases a with
  | file op => exact sameSlot_of_run codec hr (h id)
  | memory update =>
    cases hr
    exact ⟨rfl, rfl, List.Subset.refl _⟩
  | note e =>
    cases hr
    cases e with
    | began ev | saved ev => exact h.elim
    | direct ev | acknowledged ev => exact ⟨rfl, rfl, subset_cons_self _ _⟩

theorem Action.SlotFree.cut (h : a.SlotFree) (codec : JournalCodec Event)
    (kept : ℕ) (w : World Event) (id : Uuid) : SameSlot codec id w (a.cut kept w) := by
  cases a with
  | file op => exact sameSlot_of_cut codec kept w (h id)
  | memory update => exact .refl codec id w
  | note e => exact .refl codec id w

/-- Calls that have at most the worker beside them and lose no record. -/
structure Minds (env : SpoolEnv Event) (c : Contract (World Event)) : Prop where
  beside : ∀ w u, c.rely w u → Beside env w u
  keeps : ∀ w u, c.guarantee w u → KeepsAll env w u

theorem minds_call : Minds env (callContract env) :=
  ⟨fun _ _ h => h, fun _ _ h => Growth.keepsAll h⟩

theorem minds_alone {stopped : World Event → Prop} : Minds env (.alone (KeepsAll env) stopped) :=
  ⟨fun w _ heq => heq ▸ Beside.refl w, fun _ _ h => h⟩

/-- An assertion about the slots and what is kept. -/
def Local (env : SpoolEnv Event) (X : World Event → Prop) : Prop :=
  ∀ w u, (∀ id, SameSlot env.codec id w u) → KeepsAll env w u → X w → X u

variable {c : Contract (World Event)} {X : World Event → Prop}

theorem Minds.stable (hc : Minds env c) (hX : Local env X) :
    c.Stable (fun w => Slots env w ∧ X w) := fun w u h hw =>
  ⟨(hc.beside w u h).slots hw.1,
    hX w u ((hc.beside w u h).sameSlot env.codec) (fun _ => (hc.beside w u h).kept) hw.2⟩

theorem observed_slotFree (hc : Minds env c) (hX : Local env X)
    (ha : a.SlotFree) : Action.machine.Observed c (SlotsHeld env) (fun w => Slots env w ∧ X w) a
      (fun w => Slots env w ∧ X w) where
  stable := hc.stable hX
  halt := fun _ hw => hw.1.1
  stop := fun w hw kept h =>
    (slots_of_same (ha.cut env.codec kept w) (hc.keeps _ _ h) hw.1).1
  step := fun w u hw hr h =>
    ⟨slots_of_same (ha.run env.codec hr) (hc.keeps _ _ h) hw.1,
      hX w u (ha.run env.codec hr) (hc.keeps _ _ h) hw.2⟩

theorem follows_slotFree (hc : Minds env c) (hX : Local env X)
    (h : ∀ a ∈ acts, a.SlotFree) (hw : Slots env w ∧ X w) :
    Action.machine.Follows c (SlotsHeld env) (fun w => Slots env w ∧ X w) acts w :=
  follows_skip (hc.stable hX) (fun a ha => observed_slotFree hc hX (h a ha)) hw

theorem follows_slots (hc : Minds env c) (h : ∀ a ∈ acts, a.SlotFree) (hw : Slots env w) :
    Action.machine.Follows c (SlotsHeld env) (Slots env) acts w :=
  (follows_slotFree (X := fun _ => True) hc (fun _ _ _ _ => id) h ⟨hw, trivial⟩).mono
    (fun _ h => h.1)

/-- An operation that is stopped has no effect, unless it is a write. -/
theorem observed_whole {P Q : World Event → Prop} (hc : ∀ kept, op.cut kept = none)
    (hs : c.Stable P) (hh : ∀ w, P w → SlotsHeld env w)
    (hst : ∀ w u, P w → (Action.file op).run w = some u → c.guarantee w u → Q u) :
    Action.machine.Observed c (SlotsHeld env) P (.file op) Q where
  stable := hs
  halt := hh
  stop := by
    intro w hw kept _
    have hsa : Action.machine.cut kept (.file op) w = w := by
      change (Action.file op).cut kept w = w
      rw [Action.cut, hc]
      rfl
    rw [hsa]
    exact hh w hw
  step := hst

variable {ev : Event}

/-- A save in progress: nothing counts as the last event of the request. -/
structure Saving (env : SpoolEnv Event) (event : Event) (w : World Event) : Prop where
  others : ∀ id ≠ env.codec.id event, SlotHeld env w id ∧ SlotSound env w id
  size : ∀ slot, fileBytes w.files (.slot (env.codec.id event)) = some slot →
    slot.length ≤ slotBytes
  latest : latestSaved env.codec (env.codec.id event) w.history = none
  began : .began event ∈ w.history

theorem Saving.held (h : Saving env ev w) : SlotsHeld env w := by
  intro id
  by_cases hid : id = env.codec.id ev
  · subst hid
    exact ⟨h.size, fun _ hs => by rw [h.latest] at hs; cases hs⟩
  · exact (h.others id hid).1

/-- The slot of the request apart, everything is as before. -/
theorem Saving.of_same (h : Saving env ev w) (hk : KeepsAll env w u)
    (hot : ∀ id ≠ env.codec.id ev, SameSlot env.codec id w u)
    (hh : u.history = w.history)
    (hs : ∀ slot, fileBytes u.files (.slot (env.codec.id ev)) = some slot →
      slot.length ≤ slotBytes) : Saving env ev u where
  others := fun id hid =>
    ⟨(hot id hid).held hk (h.others id hid).1, (hot id hid).sound (h.others id hid).2⟩
  size := hs
  latest := by rw [hh]; exact h.latest
  began := by rw [hh]; exact h.began

theorem Beside.saving (hb : Beside env w u) (h : Saving env ev w) : Saving env ev u := by
  refine h.of_same (fun _ => hb.kept) (fun id _ => hb.sameSlot env.codec id) hb.history ?_
  rw [hb.files _ (by simp) (by simp)]
  exact h.size

variable {off : ℕ} {bs : Bytes}

theorem Saving.write (h : Saving env ev w)
    (hsi : off + bs.length ≤ slotBytes) (hk : KeepsAll env w u)
    (hr : (Action.file (.writeAt (.slot (env.codec.id ev)) off bs)).run w = some u) :
    Saving env ev u := by
  obtain ⟨pre, hb, ha⟩ := fileBytes_edit (f := (overwrite · off bs)) (fun _ => rfl) hr
  refine h.of_same hk ?_ (Action.run_file_same hr).2.2 ?_
  · intro id hid
    refine sameSlot_of_run env.codec hr ?_
    simpa [FileOp.touches] using hid.symm
  · intro slot hs
    rw [ha] at hs
    cases hs
    have hl := length_overwrite_le pre off bs
    have hol := h.size pre hb
    omega

theorem observed_write (hc : Minds env c)
    (hsi : off + bs.length ≤ slotBytes) (pre after : Bytes → Prop)
    (hsl : ∀ slot, pre slot → after (overwrite slot off bs)) :
    Action.machine.Observed c (SlotsHeld env)
      (fun w => Saving env ev w ∧
        ∀ slot, fileBytes w.files (.slot (env.codec.id ev)) = some slot → pre slot)
      (.file (.writeAt (.slot (env.codec.id ev)) off bs))
      (fun w => Saving env ev w ∧
        ∃ slot, fileBytes w.files (.slot (env.codec.id ev)) = some slot ∧ after slot) where
  stable := by
    intro w u h hw
    have hb := hc.beside w u h
    refine ⟨hb.saving hw.1, ?_⟩
    rw [hb.files _ (by simp) (by simp)]
    exact hw.2
  halt := fun _ hw => hw.1.held
  stop := by
    intro w hw kept h
    have hk := hc.keeps _ _ h
    rcases Action.cut_file (.writeAt (.slot (env.codec.id ev)) off bs) kept w with
      heq | ⟨part, hp, hr⟩
    · have hcu : Action.machine.cut kept
          (.file (.writeAt (.slot (env.codec.id ev)) off bs)) w = w := heq
      rw [hcu]
      exact hw.1.held
    · cases hp
      have hs : off + (bs.take kept).length ≤ slotBytes := by
        rw [length_take]
        omega
      exact (hw.1.write hs hk hr).held
  step := by
    intro w u hw hr h
    obtain ⟨slot, hbe, ha⟩ := fileBytes_edit (f := (overwrite · off bs)) (fun _ => rfl) hr
    exact ⟨hw.1.write hsi (hc.keeps _ _ h) hr, _, ha, hsl slot (hw.2 slot hbe)⟩

theorem observed_began (hc : Minds env c) :
    Action.machine.Observed c (SlotsHeld env) (Slots env) (.note (.began ev))
      (Saving env ev) where
  stable := fun w u h hw => (hc.beside w u h).slots hw
  halt := fun _ hw => hw.1
  stop := fun _ hw _ _ => hw.1
  step := by
    intro w u hw hr h
    have hk := hc.keeps w u h
    cases hr
    refine ⟨?_, (hw.1 _).size, by simp [latestSaved], mem_cons_self⟩
    intro id hid
    have hs : SameSlot env.codec id w { w with history := .began ev :: w.history } :=
      ⟨rfl, by simp [latestSaved, hid.symm], subset_cons_self _ _⟩
    exact ⟨hs.held hk (hw.1 id), hs.sound (hw.2 id)⟩

theorem observed_saved (hc : Minds env c) (he : env.codec.encode ev = .ok rec) :
    Action.machine.Observed c (SlotsHeld env)
      (fun w => Saving env ev w ∧ SlotHolds env w (env.codec.id ev) rec)
      (.note (.saved ev))
      (fun w => Slots env w ∧ SlotHolds env w (env.codec.id ev) rec) where
  stable := fun w u h hw =>
    ⟨(hc.beside w u h).saving hw.1, ((hc.beside w u h).sameSlot env.codec _).holds hw.2⟩
  halt := fun _ hw => hw.1.held
  stop := fun _ hw _ _ => hw.1.held
  step := by
    rintro w u ⟨hw, hh⟩ hru h
    have hk := hc.keeps w u h
    cases hru
    have hot : ∀ id ≠ env.codec.id ev,
        SameSlot env.codec id w { w with history := .saved ev :: w.history } :=
      fun id hid => ⟨rfl, by simp [latestSaved, hid.symm], subset_cons_self _ _⟩
    refine ⟨⟨fun id => ?_, fun id => ?_⟩, hh⟩
    · by_cases hid : id = env.codec.id ev
      · subst hid
        refine ⟨hw.size, fun ev' hl => ?_⟩
        have heq : ev = ev' := by simpa [latestSaved] using hl
        subst heq
        exact ⟨rec, he, .inr hh⟩
      · exact (hot id hid).held hk (hw.others id hid).1
    · by_cases hid : id = env.codec.id ev
      · subst hid
        obtain ⟨slot, hs, hr⟩ := hh
        intro slot' hs'
        cases hs.symm.trans hs'
        exact .inr ⟨ev, rec, mem_cons_of_mem _ hw.began, rfl, he, hr⟩
      · exact (hot id hid).sound (hw.others id hid).2

theorem observed_sync (hc : Minds env c) (path : SpoolPath) :
    Action.machine.Observed c (SlotsHeld env)
      (fun w => Saving env ev w ∧ SlotHolds env w (env.codec.id ev) rec)
      (.file (.sync path))
      (fun w => Saving env ev w ∧ SlotHolds env w (env.codec.id ev) rec) := by
  refine observed_whole (fun _ => rfl) ?_ (fun _ hw => hw.1.held) ?_
  · exact fun w u h hw =>
      ⟨(hc.beside w u h).saving hw.1, ((hc.beside w u h).sameSlot env.codec _).holds hw.2⟩
  · intro w u hw hr h
    have hs : ∀ id, SameSlot env.codec id w u := fun _ => sameSlot_of_run env.codec hr rfl
    refine ⟨hw.1.of_same (hc.keeps _ _ h) (fun id _ => hs id)
      (Action.run_file_same hr).2.2 ?_, (hs _).holds hw.2⟩
    rw [(hs _).slot]
    exact hw.1.size

theorem local_holds : Local env (fun w => SlotHolds env w id rec) :=
  fun _ _ hs _ => (hs id).holds

/-- A save ends with its record in the slot; wherever it stops, the other slots are as before. -/
theorem follows_saveTerminal (hc : Minds env c) (he : env.codec.encode ev = .ok rec)
    (hr : rec.payload.length ≤ maxPayloadBytes) (hw : Slots env w) :
    Action.machine.Follows c (SlotsHeld env)
      (fun w => Slots env w ∧ SlotHolds env w (env.codec.id ev) rec)
      (saveTerminal env ev rec) w := by
  have hid := JournalCodec.encode_id he
  have hp : slotHeaderBytes + rec.payload.length ≤ slotBytes := by
    unfold slotBytes
    omega
  have hh : 0 + (slotHeader env.crc rec).length ≤ slotBytes := by
    rw [length_slotHeader]
    omega
  have hs : ∀ first, slotRecord env.crc rec.requestLogId (overwrite
      (overwrite first slotHeaderBytes rec.payload) 0 (slotHeader env.crc rec)) =
      some rec := slotRecord_saved hr
  unfold saveTerminal saveTerminalOps
  rw [hid] at hs ⊢
  refine follows_cons (observed_began hc) (fun w1 h1 => ?_) hw
  refine follows_cons (observed_write hc hp (fun _ => True)
    (fun slot => ∃ first, slot = overwrite first slotHeaderBytes rec.payload)
    (fun slot _ => ⟨slot, rfl⟩)) (fun w2 h2 => ?_) ⟨h1, fun _ _ => trivial⟩
  obtain ⟨slot, hsl, hf⟩ := h2.2
  refine follows_cons (observed_write hc hh
    (fun slot => ∃ first, slot = overwrite first slotHeaderBytes rec.payload)
    (fun slot => slotRecord env.crc (env.codec.id ev) slot = some rec)
    (fun slot ⟨first, hf⟩ => hf ▸ hs first)) (fun w3 h3 => ?_)
    ⟨h2.1, fun slot' hs' => by cases hsl.symm.trans hs'; exact hf⟩
  refine follows_cons (observed_sync hc _) (fun w4 h4 => ?_) h3
  refine follows_cons (observed_saved hc he) (fun w5 h5 => ?_) h4
  exact follows_nil (hc.stable local_holds) h5

/-- The last event saved for a request no longer needs its slot. -/
def Released (env : SpoolEnv Event) (id : Uuid) (w : World Event) : Prop :=
  ∀ event, latestSaved env.codec id w.history = some event →
    ∃ record, env.codec.encode event = .ok record ∧ Kept env w record

/-- A slot that fails the tests. -/
def Blank (env : SpoolEnv Event) (id : Uuid) (w : World Event) : Prop :=
  ∀ slot, fileBytes w.files (.slot id) = some slot → slotRecord env.crc id slot = none

theorem SlotHeld.released (h : SlotHeld env w id) (hb : Blank env id w) :
    Released env id w := by
  intro ev hl
  obtain ⟨rec, he, hk | ⟨slot, hs, hr⟩⟩ := h.latest ev hl
  · exact ⟨rec, he, hk⟩
  · rw [hb slot hs] at hr
    cases hr

theorem Released.of_holds (h : SlotHeld env w id)
    (hh : SlotHolds env w id rec) (hk : Kept env w rec) : Released env id w := by
  intro ev hl
  obtain ⟨rec', he, hk' | ⟨slot, hs, hr⟩⟩ := h.latest ev hl
  · exact ⟨rec', he, hk'⟩
  · obtain ⟨slot', hs', hr'⟩ := hh
    cases hs.symm.trans hs'
    cases hr.symm.trans hr'
    exact ⟨rec, he, hk⟩

/-- An operation on the slot of a released request that leaves it failing the tests. -/
theorem slots_of_blank (hru : (Action.file op).run w = some u)
    (hot : ∀ o ≠ id, op.touches (.slot o) = false) (hk : KeepsAll env w u)
    (hw : Slots env w) (hr : Released env id w) (hb : Blank env id u)
    (hsi : ∀ slot, fileBytes u.files (.slot id) = some slot → slot.length ≤ slotBytes) :
    Slots env u := by
  have hs : ∀ o ≠ id, SameSlot env.codec o w u :=
    fun o hne => sameSlot_of_run env.codec hru (hot o hne)
  have hh := (Action.run_file_same hru).2.2
  constructor
  · intro o
    by_cases hne : o = id
    · subst hne
      refine ⟨hsi, fun ev hl => ?_⟩
      obtain ⟨rec, he, hke⟩ := hr ev (hh ▸ hl)
      exact ⟨rec, he, .inl (hk rec hke)⟩
    · exact (hs o hne).held hk (hw.1 o)
  · intro o
    by_cases hne : o = id
    · subst hne
      exact fun slot hsl => .inl (hb slot hsl)
    · exact (hs o hne).sound (hw.2 o)

theorem local_released : Local env (Released env id) := by
  intro w u hs hk hw ev hl
  obtain ⟨rec, he, hke⟩ := hw ev ((hs id).latest ▸ hl)
  exact ⟨rec, he, hk rec hke⟩

theorem observed_remove (hc : Minds env c) :
    Action.machine.Observed c (SlotsHeld env) (fun w => Slots env w ∧ Released env id w)
      (.file (.remove (.slot id))) (Slots env) := by
  refine observed_whole (fun _ => rfl) (hc.stable local_released) (fun _ hw => hw.1.1) ?_
  intro w u hw hr h
  have hn : fileBytes u.files (.slot id) = none := by
    obtain ⟨files, hf, rfl⟩ := Action.run_file hr
    cases hf
    rw [fileBytes, Table.get_erase_self]
    rfl
  refine slots_of_blank hr ?_ (hc.keeps _ _ h) hw.1 hw.2 ?_ ?_
  · intro o hne
    simpa [FileOp.touches] using hne.symm
  · intro slot hs
    rw [hn] at hs
    cases hs
  · intro slot hs
    rw [hn] at hs
    cases hs

theorem follows_retire (hc : Minds env c) (ev : Event) (hw : Slots env w ∧ Released env id w) :
    Action.machine.Follows c (SlotsHeld env) (Slots env) (retire ev id) w := by
  refine follows_cons (observed_slotFree hc local_released ?_) (fun w1 h1 => ?_) hw
  · simp [Action.SlotFree, FileOp.touches]
  refine follows_cons (observed_slotFree hc local_released ?_) (fun w2 h2 => ?_) h1
  · simp [Action.SlotFree, FileOp.touches]
  refine follows_cons (observed_remove hc) (fun w3 h3 => ?_) h2
  exact follows_slots hc (by simp [Action.SlotFree, FileOp.touches]) h3

theorem observed_createSlot (hc : Minds env c) :
    Action.machine.Observed c (SlotsHeld env) (Slots env) (.file (.createNew (.slot id)))
      (fun w => Slots env w ∧ fileBytes w.files (.slot id) = some []) := by
  refine observed_whole (fun _ => rfl) (fun w u h hw => (hc.beside w u h).slots hw)
    (fun _ hw => hw.1) ?_
  intro w u hw hr h
  obtain ⟨hm, he⟩ : fileBytes w.files (.slot id) = none ∧
      fileBytes u.files (.slot id) = some [] := by
    obtain ⟨files, hf, rfl⟩ := Action.run_file hr
    simp only [FileOp.run] at hf
    split_ifs at hf with hex
    cases hf
    rw [fileBytes, fileBytes, Table.get_insert_self, Option.not_isSome_iff_eq_none.mp hex]
    exact ⟨rfl, rfl⟩
  refine ⟨slots_of_blank hr ?_ (hc.keeps _ _ h) hw ((hw.1 id).released ?_) ?_ ?_, he⟩
  · intro o hne
    simpa [FileOp.touches] using hne.symm
  · intro slot hs
    rw [hm] at hs
    cases hs
  · intro slot hs
    cases he.symm.trans hs
    exact slotRecord_blank (by decide)
  · intro slot hs
    cases he.symm.trans hs
    exact Nat.zero_le _

theorem local_bytes :
    Local env (fun w => fileBytes w.files (.slot id) = some bs) :=
  fun _ _ hs _ hw => (hs id).slot.trans hw

theorem observed_allocate (hc : Minds env c) :
    Action.machine.Observed c (SlotsHeld env)
      (fun w => Slots env w ∧ fileBytes w.files (.slot id) = some [])
      (.file (.allocate (.slot id) slotBytes)) (Slots env) := by
  refine observed_whole (fun _ => rfl) (hc.stable local_bytes) (fun _ hw => hw.1.1) ?_
  intro w u hw hr h
  have hz : fileBytes u.files (.slot id) = some (List.replicate slotBytes 0) := by
    obtain ⟨found, hf, ha⟩ := fileBytes_edit
      (f := (fun bs => resize bs (max bs.length slotBytes))) (fun _ => rfl) hr
    cases hf.symm.trans hw.2
    rw [ha]
    simp [resize]
  refine slots_of_blank hr ?_ (hc.keeps _ _ h) hw.1 ((hw.1.1 id).released ?_) ?_ ?_
  · intro o hne
    simpa [FileOp.touches] using hne.symm
  · intro slot hs
    cases hw.2.symm.trans hs
    exact slotRecord_blank (by decide)
  · intro slot hs
    cases hz.symm.trans hs
    refine slotRecord_blank ?_
    decide
  · intro slot hs
    cases hz.symm.trans hs
    rw [length_replicate]

theorem follows_admitPlan (hc : Minds env c) (spool : RequestLogSpool) (intent : RequestLogIntent)
    (av : Option ℕ) (hw : Slots env w) : Action.machine.Follows c (SlotsHeld env)
      (Slots env) (admitPlan env spool intent av).actions w := by
  have hca := admitPlan_cases env spool intent av
  generalize admitPlan env spool intent av = plan at hca ⊢
  cases hca with
  | refused err => exact follows_slots hc (by simp) hw
  | pressed => exact follows_slots hc (by simp [Action.SlotFree]) hw
  | latched err => exact follows_slots hc (by simp [Action.SlotFree]) hw
  | reserved bs =>
    have ht : Action.machine.Follows c (SlotsHeld env) (Slots env)
        [.memory (.insertId intent.id)] w := follows_slots hc (by simp [Action.SlotFree]) hw
    refine ht.append (fun w1 h1 => ?_)
    refine follows_cons (observed_createSlot hc) (fun w2 h2 => ?_) h1
    refine follows_cons (observed_allocate hc) (fun w3 h3 => ?_) h2
    exact follows_slots hc (by simp [Action.SlotFree, FileOp.touches]) h3

theorem ExactWith.kept (h : ExactWith env rec w) : Kept env w rec := by
  obtain ⟨log, hw, hm⟩ := h
  right
  rw [hw.1.world_events]
  exact holds_of_mem hw.1.bounded hm []

theorem slotFree_writeSynced (env : SpoolEnv Event) (rec : EncodedRequestLog) :
    ∀ a ∈ (writeSynced env rec : List (Action Event)), a.SlotFree := by
  simp [writeSynced, Action.SlotFree, FileOp.touches]

/-- An admitted append: the slot holds the event until the events file does. -/
theorem safe_writeReserved_slots (he : env.codec.encode ev = .ok rec)
    (hr : rec.payload.length ≤ maxPayloadBytes) (hw : Exact env w) (hn : Noted ev w)
    (hs : Slots env w ∧ SlotHolds env w (env.codec.id ev) rec) :
    Action.machine.Safe ((callContract env).also (SlotsHeld env))
      (fun w => Exact env w ∧ Slots env w) (writeReserved env ev rec) w := by
  have hid := JournalCodec.encode_id he
  refine ((safe_writeSynced he hr hw hn).also
    (follows_slotFree minds_call local_holds (slotFree_writeSynced env rec) hs)).append ?_
  rintro w1 ⟨hex, hs1, hh⟩
  refine (safe_retire he rec.requestLogId hex).also
    (follows_retire minds_call ev ⟨hs1, ?_⟩)
  rw [hid]
  exact .of_holds (hs1.1 _) hh hex.kept

theorem slotFree_writeDirect (env : SpoolEnv Event) (ev : Event) (rec : EncodedRequestLog) :
    ∀ a ∈ writeDirect env ev rec, a.SlotFree := by
  simp [writeDirect, Action.SlotFree, FileOp.touches]

theorem safe_appendPlan_slots (spool : RequestLogSpool) (ev : Event) (hw : Exact env w)
    (hs : Slots env w) :
    Action.machine.Safe ((callContract env).also (SlotsHeld env))
      (fun w => Exact env w ∧ Slots env w) (appendPlan env spool ev).actions w := by
  have hc := appendPlan_cases env spool ev
  generalize appendPlan env spool ev = plan at hc ⊢
  have hsa := fun (rec : EncodedRequestLog) (hr : Encodes env ev rec) =>
    (safe_saveTerminal ev rec hw).also
      (follows_saveTerminal minds_call hr.1 hr.2 hs)
  cases hc with
  | refused err =>
    exact (safe_nil stable_exact hw).also (follows_slots minds_call (by simp) hs)
  | latched rec hr =>
    exact (hsa rec hr).imp (fun _ h => ⟨h.1.1, h.2.1⟩)
  | reserved rec hr =>
    exact (hsa rec hr).append
      (fun _ h => safe_writeReserved_slots hr.1 hr.2 h.1.1 h.1.2 h.2)
  | direct rec hr =>
    exact (safe_writeDirect hr.1 hr.2 hw).also
      (follows_slots minds_call (slotFree_writeDirect env ev rec) hs)

theorem follows_appendPlan_of_failed {spool : RequestLogSpool} (hf : spool.failed = true)
    (ev : Event) (hw : Slots env w) : Action.machine.Follows (callContract env) (SlotsHeld env)
      (Slots env) (appendPlan env spool ev).actions w := by
  have hc := appendPlan_cases env spool ev
  generalize appendPlan env spool ev = plan at hc ⊢
  cases hc with
  | refused err => exact follows_slots minds_call (by simp) hw
  | latched rec hr =>
    exact (follows_saveTerminal minds_call hr.1 hr.2 hw).mono (fun _ h => h.1)
  | reserved rec _ _ hop => cases hf.symm.trans hop
  | direct rec _ _ hop => cases hf.symm.trans hop

theorem append_safe_slots (ev : Event) (hw : Idle env w) (hs : Slots env w) :
    Action.machine.Safe ((callContract env).also (SlotsHeld env))
      (fun w => Idle env w ∧ Slots env w) (appendPlan env w.spool ev).actions w := by
  cases hf : w.spool.failed with
  | false =>
    exact (safe_appendPlan_slots w.spool ev (hw.2 hf) hs).imp (fun _ h => ⟨h.1.idle, h.2⟩)
  | true =>
    exact (append_safe ev hw).also (follows_appendPlan_of_failed hf ev hs)

end Assertions
end AiGateway.RequestLog
