import AiGateway.RequestLog.Reopen

/-! At-least-once delivery: an opening of sound slots returns, and behind it the reader still
returns every acknowledged event that the database has not accepted. -/
namespace AiGateway.RequestLog
open Domain Lib List Table Machine

section Results
variable {Event : Type} {env : SpoolEnv Event} {w : World Event}

/-- The events an opening recovers are those of the slots that pass the tests. -/
structure Recovers (env : SpoolEnv Event) (w : World Event) (ids : List Uuid)
    (admissions : Admissions Event) : Prop where
  store : admissions.store.ids = admissions.recovered.map env.codec.id
  sublist : admissions.store.ids.Sublist ids
  saved : ∀ event ∈ admissions.recovered, .began event ∈ w.history ∧ ∃ record,
    env.codec.encode event = .ok record ∧ SlotHolds env w (env.codec.id event) record
  complete : ∀ id ∈ ids, ∀ record, SlotHolds env w id record →
    ∃ event ∈ admissions.recovered, env.codec.encode event = .ok record

variable {id : Uuid} {ids : List Uuid} {rest : Admissions Event} {files : SpoolFiles}

theorem retainUnknown_ok
    (h : ∀ slot, fileBytes files (.slot id) = some slot → slot.length ≤ slotBytes) :
    ∃ kept, retainUnknown files id = .ok kept := by
  unfold retainUnknown
  cases hs : fileBytes files (.slot id) with
  | none => exact ⟨_, rfl⟩
  | some slot => exact ⟨_, if_neg (Nat.not_lt.mpr (h slot hs))⟩

/-- A request without a terminal event adds nothing to what is recovered. -/
theorem Recovers.unknown
    (h : Recovers env w ids rest) (hu : ∀ rec, ¬ SlotHolds env w id rec) (bs : ℕ) :
    Recovers env w (id :: ids) ⟨⟨rest.store.ids, bs⟩, rest.recovered⟩ where
  store := h.store
  sublist := h.sublist.cons id
  saved := h.saved
  complete := by
    intro o hot rec hh
    rcases mem_cons.mp hot with rfl | hot
    · exact absurd hh (hu rec)
    · exact h.complete o hot rec hh

variable {ev : Event} {rec : EncodedRequestLog} {spool : RequestLogSpool}

theorem Recovers.known (h : Recovers env w ids rest) (hb : .began ev ∈ w.history)
    (he : env.codec.encode ev = .ok rec)
    (hh : SlotHolds env w (env.codec.id ev) rec) :
    Recovers env w (env.codec.id ev :: ids)
      ⟨⟨env.codec.id ev :: rest.store.ids, rest.store.retainedBytes⟩, ev :: rest.recovered⟩ where
  store := congrArg (env.codec.id ev :: ·) h.store
  sublist := h.sublist.cons_cons _
  saved := by
    intro o hot
    rcases mem_cons.mp hot with rfl | hot
    · exact ⟨hb, rec, he, hh⟩
    · exact h.saved o hot
  complete := by
    intro o hot rec' hh'
    rcases mem_cons.mp hot with rfl | hot
    · obtain ⟨slot, hs, hr⟩ := hh
      obtain ⟨slot', hs', hr'⟩ := hh'
      cases hs.symm.trans hs'
      cases hr.symm.trans hr'
      exact ⟨ev, mem_cons_self, he⟩
    · obtain ⟨ev', hm, he'⟩ := h.complete o hot rec' hh'
      exact ⟨ev', mem_cons_of_mem _ hm, he'⟩

theorem openIds_recovers (hsl : Slots env w) (ids : List Uuid) :
    ∃ admissions, (openIds env.crc env.codec w.files ids).2 = .ok admissions ∧
      Recovers env w ids admissions := by
  induction ids with
  | nil =>
    exact ⟨_, rfl, rfl, nil_sublist _, forall_mem_nil _, forall_mem_nil _⟩
  | cons id ids ih =>
    obtain ⟨rest, hrs, hre⟩ := ih
    have hu : readTerminal env.crc env.codec id (fileBytes w.files (.slot id)) = .ok none →
        (∀ rec, ¬ SlotHolds env w id rec) → ∃ admissions,
          (openIds env.crc env.codec w.files (id :: ids)).2 = .ok admissions ∧
            Recovers env w (id :: ids) admissions := by
      intro hrd hno
      obtain ⟨kept, hk⟩ := retainUnknown_ok (hsl.1 id).size
      refine ⟨_, ?_, hre.unknown hno (saturatingAdd rest.store.retainedBytes kept.2)⟩
      simp only [openIds, hrd, hk, hrs]
      rfl
    cases hs : fileBytes w.files (.slot id) with
    | none =>
      refine hu (by rw [hs]; rfl) ?_
      rintro rec ⟨slot, hso, -⟩
      cases hs.symm.trans hso
    | some slot =>
      rcases hsl.2 id slot hs with hb | ⟨ev, rec, hbe, rfl, he, hr⟩
      · refine hu (by rw [hs]; exact readTerminal_unknown hb) ?_
        rintro rec ⟨slot', hso, hr⟩
        cases hs.symm.trans hso
        cases hb.symm.trans hr
      · refine ⟨_, ?_, hre.known hbe he ⟨slot, hs, hr⟩⟩
        simp only [openIds, hs, readTerminal_known hr he rfl, hrs]
        rfl

/-- What the append of an admitted event does while the writer is not latched. -/
theorem appendPlan_reserved
    (h : Encodes env ev rec) (hid : env.codec.id ev ∈ spool.admissions.ids)
    (hf : spool.failed = false) : appendPlan env spool ev =
      ⟨saveTerminal env ev rec ++ writeReserved env ev rec, .ok (frame env.crc rec).length⟩ := by
  unfold appendPlan
  rw [h.1]
  dsimp only
  rw [if_neg (Nat.not_lt.mpr h.2), JournalCodec.encode_id h.1, if_pos hid, hf,
    if_neg Bool.false_ne_true]

/-- What the append of an admitted event does once the writer is latched. -/
theorem appendPlan_latched (h : Encodes env ev rec)
    (hid : env.codec.id ev ∈ spool.admissions.ids) (hf : spool.failed = true) :
    appendPlan env spool ev = ⟨saveTerminal env ev rec, .error .unavailableAfterWriteFailure⟩ := by
  unfold appendPlan
  rw [h.1]
  dsimp only
  rw [if_neg (Nat.not_lt.mpr h.2), JournalCodec.encode_id h.1, if_pos hid, if_pos hf]

theorem appendPlan_direct
    (h : Encodes env ev rec) (hid : env.codec.id ev ∉ spool.admissions.ids)
    (hf : spool.failed = false)
    (hc : saturatingAdd (saturatingAdd spool.writerEnd spool.admissions.reservedBytes)
      (frame env.crc rec).length ≤ env.limits.maxBytes) : appendPlan env spool ev =
      ⟨writeDirect env ev rec, .ok (frame env.crc rec).length⟩ := by
  unfold appendPlan
  rw [h.1]
  dsimp only
  rw [if_neg (Nat.not_lt.mpr h.2), JournalCodec.encode_id h.1, if_neg hid, hf,
    if_neg Bool.false_ne_true, if_neg (Nat.not_lt.mpr hc)]

theorem memoryAfter_reserved (ev : Event) (rec : EncodedRequestLog)
    (spool : RequestLogSpool) :
    memoryAfter (saveTerminal env ev rec ++ writeReserved env ev rec) spool =
      ((spool.advance (frame env.crc rec).length).publish).removeId rec.requestLogId := rfl

variable {u opened v : World Event} {S : Uuid → Prop} {room : ℕ}

/-- The files that appends of admitted events need, with room for more in the events file. -/
structure Ready (S : Uuid → Prop) (room : ℕ) (w : World Event) : Prop where
  events : ∃ bytes, fileBytes w.files .events = some bytes ∧ bytes.length + room ≤ maxFileBytes
  slots : ∀ id, S id → ∃ slot, fileBytes w.files (.slot id) = some slot ∧ slot.length ≤ slotBytes

theorem Ready.same (h : Ready S room w) (hf : u.files = w.files) : Ready S room u :=
  ⟨hf ▸ h.events, hf ▸ h.slots⟩

variable {op : SpoolOp} {bs intent payload : Bytes}

/-- The frame rule: an operation on other files, or on a slot that is given up. -/
theorem Ready.untouched (h : Ready S room w) {S' : Uuid → Prop}
    (hr : (Action.file op).run w = some u) (he : op.touches .events = false)
    (hs : ∀ id, S' id → S id ∧ op.touches (.slot id) = false) : Ready S' room u := by
  constructor
  · rw [fileBytes_run hr he]
    exact h.events
  · intro id hid
    rw [fileBytes_run hr (hs id hid).2]
    exact h.slots id (hs id hid).1

variable {path : SpoolPath} {f : Bytes → Bytes}

theorem run_edit (hop : ∀ files, op.run files = FileOp.edit files path f)
    (hb : fileBytes w.files path = some bs) (hs : (f bs).length ≤ maxFileBytes) :
    ∃ u, (Action.file op).run w = some u ∧ fileBytes u.files path = some (f bs) := by
  obtain ⟨ct, hg, rfl⟩ := Option.map_eq_some_iff.mp hb
  have he : FileOp.edit w.files path f = some (w.files.insert path ⟨f ct.val, hs⟩) :=
    FileOp.edit_of_get hg rfl
  refine ⟨{ w with files := w.files.insert path ⟨f ct.val, hs⟩, trace := op :: w.trace }, ?_, ?_⟩
  · rw [Action.run, hop, he]
    rfl
  · rw [fileBytes, get_insert_self]
    rfl

theorem slotBytes_le_maxFileBytes : slotBytes ≤ maxFileBytes := by decide

/-- A write or a truncation of a slot that stays within its size. -/
theorem Ready.slot (h : Ready S room w) (hid : S id)
    (hop : ∀ files, op.run files = FileOp.edit files (.slot id) f)
    (ht : ∀ path, op.touches path = decide (.slot id = path))
    (hf : ∀ bs, bs.length ≤ slotBytes → (f bs).length ≤ slotBytes) :
    ∃ u, (Action.file op).run w = some u ∧ Ready S room u := by
  obtain ⟨slot, hsl, hs⟩ := h.slots id hid
  obtain ⟨u, hr, hb⟩ := run_edit hop hsl ((hf slot hs).trans slotBytes_le_maxFileBytes)
  refine ⟨u, hr, ?_, ?_⟩
  · rw [fileBytes_run hr ((ht _).trans rfl)]
    exact h.events
  · intro o hot
    by_cases heq : o = id
    · subst heq
      exact ⟨f slot, hb, hf slot hs⟩
    · rw [fileBytes_run hr ((ht _).trans (by simpa using Ne.symm heq))]
      exact h.slots o hot

theorem run_sync (h : fileBytes w.files path = some bs) :
    (Action.file (.sync path)).run w = some { w with trace := .sync path :: w.trace } := by
  obtain ⟨ct, hg, -⟩ := Option.map_eq_some_iff.mp h
  simp only [Action.run, FileOp.run, hg, Option.map_some]

theorem Ready.syncEvents (h : Ready S room w) :
    ∃ u, (Action.file (.sync .events)).run w = some u ∧ Ready S room u := by
  obtain ⟨bs, hb, -⟩ := h.events
  exact ⟨_, run_sync hb, h.same rfl⟩

theorem Ready.syncSlot (h : Ready S room w) (hid : S id) :
    ∃ u, (Action.file (.sync (.slot id))).run w = some u ∧ Ready S room u := by
  obtain ⟨slot, hs, -⟩ := h.slots id hid
  exact ⟨_, run_sync hs, h.same rfl⟩

theorem Ready.append (h : Ready S (bs.length + room) w) :
    ∃ u, (Action.file (.append .events bs)).run w = some u ∧ Ready S room u := by
  obtain ⟨evs, he, hs⟩ := h.events
  have hl : (evs ++ bs).length = evs.length + bs.length := length_append
  obtain ⟨u, hr, ha⟩ : ∃ u, (Action.file (.append .events bs)).run w = some u ∧
      fileBytes u.files .events = some (evs ++ bs) :=
    run_edit (f := (· ++ bs)) (fun _ => rfl) he (by omega)
  refine ⟨u, hr, ⟨_, ha, by omega⟩, ?_⟩
  intro id hid
  rw [fileBytes_run hr rfl]
  exact h.slots id hid

theorem Ready.removeIntent (h : Ready S room w) (id : Uuid) :
    ∃ u, (Action.file (.remove (.intent id))).run w = some u ∧ Ready S room u :=
  ⟨_, rfl, h.untouched (show (Action.file (.remove (.intent id))).run w = some _ from rfl) rfl
    (fun _ hot => ⟨hot, rfl⟩)⟩

theorem Ready.removeSlot (h : Ready S room w) (id : Uuid) :
    ∃ u, (Action.file (.remove (.slot id))).run w = some u ∧
      Ready (fun o => S o ∧ o ≠ id) room u := by
  refine ⟨_, rfl, h.untouched (show (Action.file (.remove (.slot id))).run w = some _ from rfl) rfl ?_⟩
  rintro o ⟨hot, hne⟩
  exact ⟨hot, by simpa [FileOp.touches] using hne.symm⟩

theorem ends_saveTerminal (h : Encodes env ev rec)
    (hid : S (env.codec.id ev)) (hw : Ready S room w) :
    Action.machine.Ends (Ready S room) (saveTerminal env ev rec) w := by
  have hp : ∀ bs : Bytes, bs.length ≤ slotBytes →
      (overwrite bs slotHeaderBytes rec.payload).length ≤ slotBytes := by
    intro bs hb
    refine (length_overwrite_le _ _ _).trans (max_le hb ?_)
    have := h.2
    unfold slotBytes
    omega
  have hh : ∀ bs : Bytes, bs.length ≤ slotBytes →
      (overwrite bs 0 (slotHeader env.crc rec)).length ≤ slotBytes := by
    intro bs hb
    refine (length_overwrite_le _ _ _).trans (max_le hb ?_)
    rw [length_slotHeader]
    unfold slotBytes
    omega
  unfold saveTerminal saveTerminalOps
  rw [JournalCodec.encode_id h.1]
  refine ends_cons ⟨_, rfl, hw.same rfl⟩ (fun w1 h1 => ?_)
  refine ends_cons (Ready.slot h1 hid (fun _ => rfl) (fun _ => rfl) hp)
    (fun w2 h2 => ?_)
  refine ends_cons (Ready.slot h2 hid (fun _ => rfl) (fun _ => rfl) hh)
    (fun w3 h3 => ?_)
  refine ends_cons (Ready.syncSlot h3 hid) (fun w4 h4 => ?_)
  exact ends_cons ⟨_, rfl, h4.same rfl⟩ (fun w5 h5 => ends_nil h5)

theorem ends_writeReserved (ev : Event) (rec : EncodedRequestLog)
    (hw : Ready S ((frame env.crc rec).length + room) w) :
    Action.machine.Ends (Ready (fun id => S id ∧ id ≠ rec.requestLogId) room)
      (writeReserved env ev rec) w := by
  refine ends_cons hw.append (fun w1 h1 => ?_)
  refine ends_cons ⟨_, rfl, h1.same rfl⟩ (fun w2 h2 => ?_)
  refine ends_cons h2.syncEvents (fun w3 h3 => ?_)
  refine ends_cons ⟨_, rfl, h3.same rfl⟩ (fun w4 h4 => ?_)
  refine ends_cons (Ready.removeIntent h4 _) (fun w5 h5 => ?_)
  refine ends_cons ⟨_, rfl, h5.same rfl⟩ (fun w6 h6 => ?_)
  refine ends_cons (Ready.removeSlot h6 _) (fun w7 h7 => ?_)
  refine ends_cons ⟨_, rfl, h7.same rfl⟩ (fun w8 h8 => ?_)
  refine ends_cons ⟨_, rfl, h8.same rfl⟩ (fun w9 h9 => ?_)
  exact ends_cons ⟨_, rfl, h9.same rfl⟩ (fun w10 h10 => ends_nil h10)

/-- The room that the appends of some events need at most. -/
def frameRoom (events : List Event) : ℕ := events.length * (frameHeaderBytes + maxPayloadBytes)

theorem ends_reappendPlan {evs : List Event}
    (hev : ∀ ev ∈ evs, ∃ rec, Encodes env ev rec)
    (his : spool.admissions.ids = evs.map env.codec.id) (hn : spool.admissions.ids.Nodup)
    (hf : spool.failed = false) (hw : Ready (· ∈ spool.admissions.ids) (frameRoom evs) w) :
    Action.machine.Ends (fun _ => (reappendPlan env spool evs).result = .ok ())
      (reappendPlan env spool evs).actions w := by
  induction evs generalizing spool w with
  | nil => exact ends_nil rfl
  | cons ev evs ih =>
    obtain ⟨rec, hr⟩ := hev ev mem_cons_self
    have hid : env.codec.id ev ∈ spool.admissions.ids := by
      rw [his]
      exact mem_cons_self
    have hre : spool.admissions.ids.erase (env.codec.id ev) = evs.map env.codec.id := by
      rw [his, map_cons, erase_cons_head]
    have hro : Ready (· ∈ spool.admissions.ids)
        ((frame env.crc rec).length + frameRoom evs) w := by
      obtain ⟨bs, hb, hs⟩ := hw.events
      refine ⟨⟨bs, hb, ?_⟩, hw.slots⟩
      have := hr.2
      rw [length_frame]
      unfold frameRoom at hs ⊢
      rw [length_cons, Nat.succ_mul] at hs
      omega
    rw [reappendPlan, appendPlan_reserved hr hid hf, memoryAfter_reserved,
      JournalCodec.encode_id hr.1]
    refine ((ends_saveTerminal hr hid hro).append
      (fun w1 h1 => ends_writeReserved ev rec h1)).append (fun w2 h2 => ?_)
    refine ih (fun e he => hev e (mem_cons_of_mem _ he)) hre (hn.erase _) hf ?_
    refine ⟨h2.events, fun o hot => h2.slots o ?_⟩
    rw [JournalCodec.encode_id hr.1]
    exact (hn.mem_erase_iff.mp hot).symm

/-- The repair of the events file, which exists from then on. -/
theorem ends_repairOps {endOffset : ℕ} (hsi : w.events.length + room ≤ maxFileBytes)
    (hs : ∀ id, S id → ∃ slot, fileBytes w.files (.slot id) = some slot ∧ slot.length ≤ slotBytes) :
    Action.machine.Ends (Ready S room) ((repairOps w.events endOffset).map .file) w := by
  have hc : ∃ u, (Action.file (.create .events)).run w = some u ∧ Ready S room u := by
    obtain ⟨u, hr⟩ : ∃ u, (Action.file (.create .events)).run w = some u := ⟨_, rfl⟩
    obtain ⟨hsa, hp⟩ := run_create hr
    obtain ⟨bs, hb⟩ := Option.isSome_iff_exists.mp hp
    have hl : bs = w.events := (events_of_fileBytes hb).symm.trans hsa
    refine ⟨u, hr, ⟨bs, hb, hl ▸ hsi⟩, fun id hid => ?_⟩
    rw [fileBytes_run hr rfl]
    exact hs id hid
  refine ends_cons hc (fun w1 h1 => ?_)
  split_ifs with hto
  · have ht : ∃ u, (Action.file (.setLen .events endOffset)).run w1 = some u ∧ Ready S room u := by
      obtain ⟨bs, hb, -⟩ := h1.events
      obtain ⟨u, hr, ha⟩ : ∃ u, (Action.file (.setLen .events endOffset)).run w1 = some u ∧
          fileBytes u.files .events = some (resize bs endOffset) :=
        run_edit (f := (resize · endOffset)) (fun _ => rfl) hb (by rw [length_resize]; omega)
      refine ⟨u, hr, ⟨_, ha, by rw [length_resize]; omega⟩, ?_⟩
      intro id hid
      rw [fileBytes_run hr rfl]
      exact h1.slots id hid
    refine ends_cons ht (fun w2 h2 => ?_)
    exact ends_cons h2.syncEvents (fun w3 h3 => ends_nil h3)
  · exact ends_nil h1

theorem ends_admissions (env : SpoolEnv Event)
    (hS : ∀ id slot, fileBytes files (.slot id) = some slot → S id) (hw : Ready S room w) :
    Action.machine.Ends (Ready S room)
      ((AdmissionStore.open env.crc env.codec files).1.map .file) w := by
  refine ends_cons ⟨_, rfl, hw.same rfl⟩ (fun w1 h1 => ?_)
  refine ends_skip (fun a ha w2 h2 => ?_) h1
  obtain ⟨op, hop, rfl⟩ := mem_map.mp ha
  obtain ⟨id, slot, hs, hsi, rfl | rfl⟩ := openIds_ops env.crc env.codec files _ op hop
  · refine h2.slot (f := (resize · (evidenceBytes slot))) (hS id slot hs) (fun _ => rfl)
      (fun _ => rfl) (fun _ _ => ?_)
    have hle : evidenceBytes slot ≤ slot.length := ( rdropWhile_prefix _ _).length_le
    rw [length_resize]
    omega
  · exact h2.syncSlot (hS id slot hs)

/-- An opening of sound slots returns, and none of its operations fails. -/
theorem openWithLimits_returns (hw : Recoverable env w) (hsl : Slots env w)
    (hro : w.events.length +
      (admissionIds w.files).length * (frameHeaderBytes + maxPayloadBytes) ≤ maxFileBytes) :
    let opening := openWithLimits env w.files
    opening.result = .ok () ∧ Action.machine.Ends (fun _ => True) opening.actions
      { w with spool := opening.spool } := by
  obtain ⟨⟨log, tail, hb, ht, het, off, hat, hd⟩, hac⟩ := hw
  have hre : Restored env log tail off w := ⟨hb, ht, het, hat, hd, hac⟩
  obtain ⟨opened, hon, hr⟩ := openIds_recovers hsl (admissionIds w.files)
  have ha : (AdmissionStore.open env.crc env.codec w.files).2 = .ok opened := hon
  have he : ∀ ev ∈ opened.recovered, ∃ rec, Encodes env ev rec := by
    intro ev hev
    obtain ⟨-, rec, hen, slot, -, hrc⟩ := hr.saved ev hev
    exact ⟨rec, hen, slotRecord_bounded hrc⟩
  have hn : opened.store.ids.Nodup := hr.sublist.nodup (nodup_admissionIds w.files)
  intro opening
  have hop : opening = _ := hre.openWithLimits
  simp only [ha] at hop
  rw [hop]
  suffices hends : Action.machine.Ends (fun _ => (reappendPlan env _ opened.recovered).result =
      .ok ()) _ { w with spool := _ } from
    ⟨hends.elim (fun _ h => h.2), hends.elim (fun u h => ⟨u, h.1, trivial⟩)⟩
  have hc : frameRoom opened.recovered ≤
      (admissionIds w.files).length * (frameHeaderBytes + maxPayloadBytes) := by
    refine Nat.mul_le_mul_right _ ?_
    rw [← length_map (f := env.codec.id), ← hr.store]
    exact hr.sublist.length_le
  have hsi : w.events.length + frameRoom opened.recovered ≤ maxFileBytes := by omega
  have hp : ∀ id, (fileBytes w.files (.slot id)).isSome →
      ∃ slot, fileBytes w.files (.slot id) = some slot ∧ slot.length ≤ slotBytes := by
    intro id hid
    obtain ⟨slot, hs⟩ := Option.isSome_iff_exists.mp hid
    exact ⟨slot, hs, (hsl.1 id).size slot hs⟩
  have hst : ∀ spool, Action.machine.Ends
      (Ready (fun id => (fileBytes w.files (.slot id)).isSome) (frameRoom opened.recovered))
      ((repairOps w.events (frames env.crc log).length).map .file) { w with spool := spool } :=
    fun spool => ends_repairOps hsi hp
  refine ((hst _).append (fun w1 h1 => ends_admissions env ?_ h1)).append (fun w2 h2 => ?_)
  · exact fun id slot hs => Option.isSome_of_eq_some hs
  · refine ends_cons ⟨_, rfl, h2.same rfl⟩ (fun w3 h3 => ?_)
    refine ends_reappendPlan he hr.store hn rfl ⟨h3.events, fun id hid => ?_⟩
    refine h3.slots id ?_
    change id ∈ opened.store.ids at hid
    rw [hr.store] at hid
    obtain ⟨ev, hev, rfl⟩ := mem_map.mp hid
    obtain ⟨-, rec, -, slot, hs, -⟩ := hr.saved ev hev
    exact Option.isSome_of_eq_some hs

theorem not_holds_nil (crc : Bytes → UInt32) (rec : EncodedRequestLog) :
    ¬ Holds crc [] rec := by
  rintro ⟨pre, rest, -, heq⟩
  have hl := congrArg List.length heq
  rw [length_append, length_nil] at hl
  have hp := length_frames_pos crc (append_ne_nil_of_right_ne_nil pre (cons_ne_nil rec []))
  omega

theorem recoverable_init : Recoverable env (System.init : System Event).world := by
  refine ⟨⟨[], [], forall_mem_nil _, torn_nil, rfl, 0, .inl ⟨rfl, rfl⟩, [],
    nil_prefix, forall_mem_nil _, rfl⟩, ?_, ?_⟩
  · exact fun _ h => absurd h not_mem_nil
  · exact fun rec h => absurd h (not_holds_nil env.crc rec)

theorem slots_init : Slots env (System.init : System Event).world := by
  refine ⟨fun id => ⟨?_, ?_⟩, fun id => ?_⟩
  · intro slot hs
    cases hs
  · intro ev hl
    cases hl
  · intro slot hs
    cases hs

/-- Whatever is stopped leaves no slot that passes the tests without being a saved event. -/
def CleanStops (env : SpoolEnv Event) (moves : List (Move Event)) : Prop := Across (System.step env)
    (fun s move s' => Interrupts s move → SlotsSound env s'.world) System.init moves

variable {moves : List (Move Event)} {s : System Event}

theorem reachable_sound
    (hr : run? (System.step env) System.init moves = some s) : SystemSound env s := by
  have hin : SystemSound env System.init := recoverable_init
  exact run?_preserves (fun _ _ _ h hs => (step_sound h hs).1) hin hr

theorem reachable_slots
    (hc : CleanStops env moves) (hr : run? (System.step env) System.init moves = some s) :
    SystemSlots env s := by
  have hin : SystemSound env System.init ∧ SystemSlots env System.init :=
    ⟨recoverable_init, slots_init⟩
  have hs : ∀ s move s', SystemSound env s ∧ SystemSlots env s → s.step env move = some s' →
      (Interrupts s move → SlotsSound env s'.world) → SystemSound env s' ∧ SystemSlots env s' :=
    fun _ _ _ h hs hst => ⟨(step_sound h.1 hs).1, step_slots h.1 h.2 hs hst⟩
  exact (run?_invariant_across hs hin hc hr).2

/-- What the reader of an open spool returns, in batches of any sizes. -/
def Returns (env : SpoolEnv Event) (w : World Event) (pending : List EncodedRequestLog) : Prop :=
  ∀ sizes, ∃ batches, readBatches env.crc w.events w.spool.endOffset w.spool.checkpointOffset
    sizes = .ok batches ∧ batches.flatMap SpoolReadBatch.records = pending.take sizes.sum

theorem Exact.returns (h : Exact env w) : ∃ pend, Returns env w pend ∧
    ∀ rec, Kept env w rec → rec ∈ w.accepted ∨ rec ∈ pend := by
  obtain ⟨log, hl, -, -⟩ := h
  obtain ⟨done, ⟨pend, rfl⟩, hd, hof⟩ := hl.done
  have he := hl.world_events
  rw [append_nil] at he
  refine ⟨pend, fun sizes => ?_, ?_⟩
  · obtain ⟨batches, hb, hre, -⟩ := readBatches_frames (length_events_le w)
      (fun r hr => hl.bounded r (mem_append_right done hr)) he sizes
    refine ⟨batches, ?_, hre⟩
    rw [hl.endOffset, hof, ← he]
    exact hb
  · rintro rec (ha | hh)
    · exact .inl ha
    · rw [hl.world_events] at hh
      exact (mem_append.mp (hh.mem hl.bounded torn_nil)).imp_left (hd rec)

theorem Action.run_accepted {a : Action Event} (h : a.run w = some u) :
    u.accepted = w.accepted := by
  cases a with
  | file op => exact (Action.run_file_same h).2.1
  | memory update =>
    cases h
    rfl
  | note e =>
    cases h
    rfl

theorem accepted_runAll {acts : List (Action Event)}
    (h : Action.machine.runAll w acts = some u) : u.accepted = w.accepted := by
  have hst : ∀ (s : World Event) (a : Action Event) (t : World Event),
      s.accepted = w.accepted → a.run s = some t → t.accepted = w.accepted :=
    fun _ _ _ hs hr => (Action.run_accepted hr).trans hs
  exact run?_preserves hst rfl h

theorem openWithLimits_runAll (hw : Recoverable env w)
    (hop : Action.machine.runAll { w with spool := (openWithLimits env w.files).spool }
      (openWithLimits env w.files).actions = some opened) :
    opened.accepted = w.accepted ∧ KeepsAll env w opened ∧
      ((openWithLimits env w.files).result = .ok () → Exact env opened) := by
  have hr : ∀ w : World Event, KeepsAll env w w := fun _ _ => id
  have ht : ∀ {w u v : World Event}, KeepsAll env w u → KeepsAll env u v →
      KeepsAll env w v := fun h h' rec hke => h' rec (h rec hke)
  obtain ⟨hk, -, he⟩ := (openWithLimits_safe hw).runAll hr ht hop
  have ha := accepted_runAll hop
  exact ⟨ha, hk, he⟩

variable {wk : Worker} {rd : ℕ} {acts : List (Action Event)} {move : Move Event}

theorem step_perform {act : Action Event} (h : act.run w = some u) :
    System.step env ⟨w, .running (some (act :: acts)) wk rd⟩ .perform =
      some ⟨u, .running (some acts) wk rd⟩ := by
  simp only [System.step, perform, h]

theorem run_performs (h : Action.machine.runAll w acts = some u) (rest : List (Action Event)) :
    run? (System.step env) ⟨w, .running (some (acts ++ rest)) wk rd⟩
      (List.replicate acts.length .perform) = some ⟨u, .running (some rest) wk rd⟩ := by
  induction acts generalizing w with
  | nil =>
    cases h
    rfl
  | cons act acts ih =>
    rw [Machine.runAll, run?_cons, Option.bind_eq_some_iff] at h
    obtain ⟨v, hv, h⟩ := h
    rw [length_cons, replicate_succ, run?_cons, cons_append, step_perform hv]
    exact ih h

/-- A reservation in progress: its two files so far, and everything else as before. -/
structure Reserving (id : Uuid) (w : World Event) (slot intent : Option Bytes)
    (u : World Event) : Prop where
  slot : fileBytes u.files (.slot id) = slot
  intent : fileBytes u.files (.intent id) = intent
  others : ∀ path, path ≠ .slot id → path ≠ .intent id →
    fileBytes u.files path = fileBytes w.files path
  spool : u.spool = w.spool.insertId id
  accepted : u.accepted = w.accepted
  history : u.history = w.history

theorem Reserving.next {slot intent slot' intent' : Option Bytes}
    (h : Reserving id w slot intent u) (hr : (Action.file op).run u = some v)
    (hot : ∀ path, path ≠ .slot id → path ≠ .intent id → op.touches path = false)
    (hsl : fileBytes v.files (.slot id) = slot')
    (hin : fileBytes v.files (.intent id) = intent') : Reserving id w slot' intent' v := by
  obtain ⟨hsp, ha, hh⟩ := Action.run_file_same hr
  exact ⟨hsl, hin, fun path hs hi => (fileBytes_run hr (hot path hs hi)).trans
    (h.others path hs hi), hsp.trans h.spool, ha.trans h.accepted,
    hh.trans h.history⟩

theorem run_createNew (h : fileBytes w.files path = none) :
    ∃ u, (Action.file (.createNew path)).run w = some u ∧ fileBytes u.files path = some [] := by
  have hg : w.files.get path = none := Option.map_eq_none_iff.mp h
  refine ⟨{ w with files := w.files.insert path .empty, trace := .createNew path :: w.trace },
    ?_, ?_⟩
  · simp only [Action.run, FileOp.run, hg, Option.isSome_none, Bool.false_eq_true, if_false,
      Option.map_some]
  · rw [fileBytes, get_insert_self]
    rfl

/-- A reservation completes where there is no file of the request yet. -/
theorem ends_reserve (hin : intent.length ≤ maxIntentBytes)
    (hsl : fileBytes w.files (.slot id) = none) (hf : fileBytes w.files (.intent id) = none) :
    Action.machine.Ends (Reserving id w (some (List.replicate slotBytes 0)) (some intent))
      (.memory (.insertId id) :: (reserveOps id intent).map .file) w := by
  have hst : Reserving id w none none { w with spool := w.spool.insertId id } :=
    ⟨hsl, hf, fun _ _ _ => rfl, rfl, rfl, rfl⟩
  refine ends_cons ⟨_, rfl, hst⟩ (fun w1 h1 => ?_)
  -- the slot
  obtain ⟨w2, hr2, hs2⟩ := run_createNew h1.slot
  have h2 : Reserving id w (some []) none w2 := h1.next hr2
    (fun path hs _ => by simpa [FileOp.touches] using hs.symm) hs2
    ((fileBytes_run hr2 rfl).trans h1.intent)
  refine ends_cons ⟨w2, hr2, h2⟩ (fun w2 h2 => ?_)
  obtain ⟨w3, hr3, hs3⟩ : ∃ u, (Action.file (.allocate (.slot id) slotBytes)).run w2 = some u ∧
      fileBytes u.files (.slot id) = some (resize [] (max ([] : Bytes).length slotBytes)) :=
    run_edit (f := fun bs => resize bs (max bs.length slotBytes)) (fun _ => rfl) h2.slot
      (by rw [length_resize]; exact slotBytes_le_maxFileBytes)
  have h3 := h2.next hr3 (fun path hs _ => by simpa [FileOp.touches] using hs.symm) hs3
    ((fileBytes_run hr3 rfl).trans h2.intent)
  refine ends_cons ⟨w3, hr3, h3⟩ (fun w3 h3 => ?_)
  refine ends_cons ⟨_, run_sync h3.slot, h3.next (run_sync h3.slot) (fun _ _ _ => rfl)
    h3.slot h3.intent⟩ (fun w4 h4 => ?_)
  -- the intent
  obtain ⟨w5, hr5, hi5⟩ := run_createNew h4.intent
  have h5 := h4.next hr5 (fun path _ hi => by simpa [FileOp.touches] using hi.symm)
    ((fileBytes_run hr5 rfl).trans h4.slot) hi5
  refine ends_cons ⟨w5, hr5, h5⟩ (fun w5 h5 => ?_)
  obtain ⟨w6, hr6, hi6⟩ : ∃ u, (Action.file (.append (.intent id) intent)).run w5 = some u ∧
      fileBytes u.files (.intent id) = some ([] ++ intent) :=
    run_edit (f := (· ++ intent)) (fun _ => rfl) h5.intent (hin.trans (by decide))
  have h6 := h5.next hr6 (fun path _ hi => by simpa [FileOp.touches] using hi.symm)
    ((fileBytes_run hr6 rfl).trans h5.slot) hi6
  refine ends_cons ⟨w6, hr6, h6⟩ (fun w6 h6 => ?_)
  refine ends_cons ⟨_, run_sync h6.intent, h6.next (run_sync h6.intent) (fun _ _ _ => rfl)
    h6.slot h6.intent⟩ (fun w7 h7 => ?_)
  exact ends_cons ⟨_, rfl, ⟨h7.slot, h7.intent, h7.others, h7.spool, h7.accepted,
    h7.history⟩⟩ (fun w8 h8 => ends_nil h8)

theorem run_start {rest : List (Action Event)}
    (hs : System.step env ⟨w, .running none wk rd⟩ move =
      some ⟨w, .running (some (acts ++ rest)) wk rd⟩)
    (h : Action.machine.runAll w acts = some u) :
    run? (System.step env) ⟨w, .running none wk rd⟩
      (move :: List.replicate acts.length .perform) =
      some ⟨u, .running (some rest) wk rd⟩ := by
  rw [run?_cons, hs]
  exact run_performs h rest

/-- A call that completes, from the move that starts it to the one that ends it. -/
theorem run_call (hs : System.step env ⟨w, .running none wk rd⟩ move =
      some ⟨w, .running (some acts) wk rd⟩) (hw : wk ≠ .compacting)
    (h : Action.machine.runAll w acts = some u) :
    run? (System.step env) ⟨w, .running none wk rd⟩
      (move :: List.replicate acts.length .perform ++ [.perform]) =
      some ⟨u, .running none wk rd⟩ := by
  have hp : run? (System.step env) ⟨w, .running none wk rd⟩
      (move :: List.replicate acts.length .perform) = some ⟨u, .running (some []) wk rd⟩ := by
    refine run_start ?_ h
    rw [hs, append_nil]
  refine run?_trans hp ?_
  rw [run?_cons]
  simp only [System.step, perform, afterCall_of_ne hw]
  rfl

variable {P : World Event → Prop}

theorem clean_performs (h : Action.machine.runAll w acts = some u) (rest : List (Action Event)) :
    Across (System.step env) (fun s move s' => Interrupts s move → P s'.world)
      ⟨w, .running (some (acts ++ rest)) wk rd⟩
      (List.replicate acts.length .perform) := by
  induction acts generalizing w with
  | nil => trivial
  | cons act acts ih =>
    rw [Machine.runAll, run?_cons, Option.bind_eq_some_iff] at h
    obtain ⟨v, hv, h⟩ := h
    intro s hs
    cases (step_perform hv).symm.trans hs
    refine ⟨fun hin => ?_, ih h⟩
    have hn : act.run w = none := hin
    cases hv.symm.trans hn

theorem clean_call (hst : System.step env ⟨w, .running none wk rd⟩ move =
      some ⟨w, .running (some acts) wk rd⟩)
    (hm : ¬ Interrupts ⟨w, .running none wk rd⟩ move)
    (h : Action.machine.runAll w acts = some u) :
    Across (System.step env) (fun s move s' => Interrupts s move → P s'.world)
      ⟨w, .running none wk rd⟩
      (move :: List.replicate acts.length .perform ++ [.perform]) := by
  intro s hs
  cases hst.symm.trans hs
  refine ⟨fun hin => absurd hin hm, ?_⟩
  have hp : Across (System.step env) (fun s move s' => Interrupts s move → P s'.world)
      ⟨w, .running (some (acts ++ [])) wk rd⟩
      (List.replicate acts.length .perform) := clean_performs h []
  have hr : run? (System.step env) ⟨w, .running (some (acts ++ [])) wk rd⟩
      (List.replicate acts.length .perform) = some ⟨u, .running (some []) wk rd⟩ :=
    run_performs h []
  rw [append_nil] at hp hr
  refine hp.append (fun t ht s' hs' => ⟨fun hin => ?_, trivial⟩)
  cases hr.symm.trans ht
  exact hin.elim

/-- An admission with room for it is a reservation. -/
theorem admitPlan_reserves {space : ℕ}
    (hf : spool.failed = false)
    (hc : saturatingAdd (saturatingAdd spool.writerEnd spool.admissions.reservedBytes)
      (2 * reservationBytes) ≤ env.limits.maxBytes)
    (hs : saturatingAdd (saturatingAdd env.limits.minFreeBytes
      spool.admissions.terminalHeadroom) (2 * reservationBytes) ≤ space)
    (hb : bs.length ≤ maxIntentBytes) (hid : id ∉ spool.admissions.ids) :
    admitPlan env spool ⟨id, some bs⟩ (some space) =
      ⟨.memory (.insertId id) :: (reserveOps id bs).map .file, .ok ()⟩ := by
  unfold admitPlan reservePlan
  rw [hf, if_neg Bool.false_ne_true, if_neg (Nat.not_lt.mpr hc)]
  dsimp only
  rw [if_neg (Nat.not_lt.mpr hs), if_neg (Nat.not_lt.mpr hb), if_neg hid]

/-- The header of a first save, cut behind its magic. -/
theorem run_tornHeader (h : Encodes env ev rec)
    (hid : env.codec.id ev ∈ w.spool.admissions.ids)
    (hsl : fileBytes w.files (.slot rec.requestLogId) = some (List.replicate slotBytes 0)) :
    ∃ s, run? (System.step env) ⟨w, .running none .reading rd⟩
        [.append ev, .perform, .perform] = some s ∧
      let left := crash 4 0 s.world s.process
      fileBytes left.files (.slot rec.requestLogId) =
        some (overwrite (overwrite (List.replicate slotBytes 0) slotHeaderBytes rec.payload) 0
          ((slotHeader env.crc rec).take 4)) ∧
      left.events = w.events ∧ left.accepted = w.accepted ∧ left.history = .began ev :: w.history := by
  have hs : max (List.replicate slotBytes (0 : UInt8)).length
      (slotHeaderBytes + rec.payload.length) ≤ maxFileBytes := by
    have hp := h.2
    rw [length_replicate, max_eq_left (by unfold slotBytes; omega)]
    exact slotBytes_le_maxFileBytes
  obtain ⟨w2, hw, hs2⟩ : ∃ u, (Action.file (.writeAt (.slot rec.requestLogId)
      slotHeaderBytes rec.payload)).run { w with history := .began ev :: w.history } = some u ∧
      fileBytes u.files (.slot rec.requestLogId) =
        some (overwrite (List.replicate slotBytes 0) slotHeaderBytes rec.payload) :=
    run_edit (f := (overwrite · slotHeaderBytes rec.payload)) (fun _ => rfl) hsl
      ((length_overwrite_le _ _ _).trans hs)
  obtain ⟨w3, hh, hs3⟩ : ∃ u, (Action.file (.writeAt (.slot rec.requestLogId) 0
      ((slotHeader env.crc rec).take 4))).run w2 = some u ∧
      fileBytes u.files (.slot rec.requestLogId) =
        some (overwrite (overwrite (List.replicate slotBytes 0) slotHeaderBytes rec.payload) 0
          ((slotHeader env.crc rec).take 4)) := by
    refine run_edit (f := (overwrite · 0 ((slotHeader env.crc rec).take 4))) (fun _ => rfl) hs2
      ((length_overwrite_le _ _ _).trans (max_le ((length_overwrite_le _ _ _).trans hs) ?_))
    rw [length_take, length_slotHeader]
    decide
  -- a latched writer saves too
  obtain ⟨rest, result, hpl⟩ : ∃ rest result,
      appendPlan env w.spool ev = ⟨saveTerminal env ev rec ++ rest, result⟩ := by
    cases hf : w.spool.failed with
    | false => exact ⟨_, _, appendPlan_reserved h hid hf⟩
    | true => exact ⟨[], _, (append_nil (saveTerminal env ev rec)).symm ▸ appendPlan_latched h hid hf⟩
  have hst : System.step env ⟨w, .running none .reading rd⟩ (.append ev) =
      some ⟨w, .running (some ([.note (.began ev), .file (.writeAt (.slot rec.requestLogId)
        slotHeaderBytes rec.payload)] ++
          (.file (.writeAt (.slot rec.requestLogId) 0 (slotHeader env.crc rec)) ::
            .file (.sync (.slot rec.requestLogId)) :: .note (.saved ev) :: rest))) .reading rd⟩ := by
    simp only [System.step, hpl]
    rfl
  have hb : Action.machine.runAll w [.note (.began ev),
      .file (.writeAt (.slot rec.requestLogId) slotHeaderBytes rec.payload)] = some w2 := by
    change Option.bind ((Action.file _).run _) _ = _
    rw [hw]
    rfl
  refine ⟨_, run_start hst hb, ?_⟩
  have hc : crash 4 0 w2 (.running (some (.file (.writeAt (.slot rec.requestLogId) 0
      (slotHeader env.crc rec)) :: .file (.sync (.slot rec.requestLogId)) :: .note (.saved ev) ::
        rest)) .reading rd) = w3 := by
    change ((Action.file (.writeAt (.slot rec.requestLogId) 0
      ((slotHeader env.crc rec).take 4))).run w2).getD w2 = w3
    rw [hh]
    rfl
  obtain ⟨-, ha2, hh2⟩ := Action.run_file_same hw
  obtain ⟨-, ha3, hh3⟩ := Action.run_file_same hh
  have he : w3.events = w.events := by
    rw [World.events, fileBytes_run hh rfl, fileBytes_run hw rfl]
    rfl
  exact hc.symm ▸ ⟨hs3, he, ha3.trans ha2, hh3.trans hh2⟩

variable {files : SpoolFiles} {slot : Bytes}

theorem mem_admissionIds
    (h : fileBytes files (.slot id) = some slot) : id ∈ admissionIds files := by
  obtain ⟨ct, hg, -⟩ := Option.map_eq_some_iff.mp h
  unfold admissionIds
  rw [mem_mergeSort, mem_dedup, mem_filterMap]
  exact ⟨.slot id, (mem_keys_iff files _).mpr ⟨ct, hg⟩, rfl⟩

/-- An opening fails on a slot that passes the tests without being an event. -/
theorem openIds_fails {crc : Bytes → UInt32} {codec : JournalCodec Event} {err : SpoolError}
    (h : readTerminal crc codec id (fileBytes files (.slot id)) = .error err)
    (hm : id ∈ ids) : ∃ err', (openIds crc codec files ids).2 = .error err' := by
  induction ids with
  | nil => exact absurd hm not_mem_nil
  | cons o ids ih =>
    unfold openIds
    rcases mem_cons.mp hm with rfl | hm
    · rw [h]
      exact ⟨err, rfl⟩
    · obtain ⟨err', hr⟩ := ih hm
      cases readTerminal crc codec o (fileBytes files (.slot o)) with
      | error first => exact ⟨first, rfl⟩
      | ok found =>
        cases found with
        | some ev => exact ⟨err', by dsimp only; rw [hr]; rfl⟩
        | none =>
          cases retainUnknown files o with
          | error first => exact ⟨first, rfl⟩
          | ok kept => exact ⟨err', by dsimp only; rw [hr]; rfl⟩

theorem openWithLimits_fails (hw : Recoverable env w)
    (hs : fileBytes w.files (.slot id) = some slot)
    (h : ∃ err, readTerminal env.crc env.codec id (some slot) = .error err) :
    ∃ err, (AdmissionStore.open env.crc env.codec w.files).2 = .error err ∧
      (openWithLimits env w.files).result = .error err := by
  obtain ⟨err, h⟩ := h
  obtain ⟨⟨log, tail, hb, ht, he, off, hat, hd⟩, hac⟩ := hw
  have hr : Restored env log tail off w := ⟨hb, ht, he, hat, hd, hac⟩
  obtain ⟨err', her⟩ := openIds_fails (by rw [hs]; exact h) (mem_admissionIds hs)
  have ha : (AdmissionStore.open env.crc env.codec w.files).2 = .error err' := her
  have hop := hr.openWithLimits
  simp only [ha] at hop
  exact ⟨err', ha, by rw [hop]⟩

theorem openWithLimits_fails_of_tornHeader
    (hc : env.crc [] = 0) (hd : ∃ err, env.codec.decode ⟨id, 0, []⟩ = .error err)
    (hw : Recoverable env w) (hs : fileBytes w.files (.slot id) =
      some (overwrite (overwrite (List.replicate slotBytes 0) slotHeaderBytes payload) 0
        ((slotHeader env.crc rec).take 4))) :
    ∃ err, (AdmissionStore.open env.crc env.codec w.files).2 = .error err ∧
      (openWithLimits env w.files).result = .error err := by
  obtain ⟨err, hd⟩ := hd
  refine openWithLimits_fails hw hs ⟨.codec err, ?_⟩
  simp only [readTerminal, slotRecord_tornHeader hc, hd]

theorem openWithLimits_empty (env : SpoolEnv Event) : openWithLimits env ∅ =
    ⟨[.file (.create .events), .file (.syncDirectory .spool), .file (.syncDirectory .spool)],
      .opened 0 0 ⟨[], 0⟩, .ok ()⟩ := by
  have hr : Restored env [] [] 0 (System.init : System Event).world :=
    ⟨forall_mem_nil _, torn_nil, rfl, .inl ⟨rfl, rfl⟩,
      ⟨[], nil_prefix, forall_mem_nil _, rfl⟩, recoverable_init.2⟩
  have ha : AdmissionStore.open env.crc env.codec (System.init : System Event).world.files =
      ([.syncDirectory .spool], .ok ⟨⟨[], 0⟩, []⟩) := by
    have hid : admissionIds (System.init : System Event).world.files = [] := mergeSort_nil
    unfold AdmissionStore.open
    rw [hid]
    rfl
  have hop := hr.openWithLimits
  simp only [ha] at hop
  exact hop

/-- A spool that was just opened in an empty directory. -/
def fresh (Event : Type) : World Event where
  files := (∅ : SpoolFiles).insert .events .empty
  spool := .opened 0 0 ⟨[], 0⟩
  accepted := []
  history := []
  trace := [.syncDirectory .spool, .syncDirectory .spool, .create .events]

def freshMoves : List (Move Event) := [.launch, .perform, .perform, .perform, .perform]

theorem launch_init (env : SpoolEnv Event) : System.step env System.init .launch =
    some ⟨{ System.init.world with spool := .opened 0 0 ⟨[], 0⟩ },
      .opening [.file (.create .events), .file (.syncDirectory .spool),
        .file (.syncDirectory .spool)] (.ok ())⟩ := by
  change some (launch env System.init.world) = _
  unfold launch
  rw [show (System.init : System Event).world.files = ∅ from rfl, openWithLimits_empty]
  rfl

theorem run_fresh (env : SpoolEnv Event) : run? (System.step env) System.init freshMoves =
    some ⟨fresh Event, .running none .reading 0⟩ := by
  rw [freshMoves, run?_cons, launch_init]
  rfl

theorem clean_fresh (env : SpoolEnv Event) : CleanStops env freshMoves := by
  intro s hs
  cases (launch_init env).symm.trans hs
  refine ⟨False.elim, fun s hs => ?_⟩
  obtain rfl := Option.some.inj hs
  refine ⟨fun hn => (Option.some_ne_none _ hn).elim, fun s hs => ?_⟩
  obtain rfl := Option.some.inj hs
  refine ⟨fun hn => (Option.some_ne_none _ hn).elim, fun s hs => ?_⟩
  obtain rfl := Option.some.inj hs
  refine ⟨fun hn => (Option.some_ne_none _ hn).elim, fun s hs => ⟨False.elim, trivial⟩⟩

def admitMoves (id : Uuid) : List (Move Event) :=
  .admitRequest ⟨id, some []⟩ (some (2 ^ 40)) :: List.replicate ((reserveOps id []).length + 1) .perform ++
    [.perform]

theorem run_admission (hp : admitPlan env w.spool ⟨id, some []⟩ (some (2 ^ 40)) =
      ⟨.memory (.insertId id) :: (reserveOps id []).map .file, .ok ()⟩)
    (hsl : fileBytes w.files (.slot id) = none) (hin : fileBytes w.files (.intent id) = none) :
    ∃ u, run? (System.step env) ⟨w, .running none .reading rd⟩ (admitMoves id) =
        some ⟨u, .running none .reading rd⟩ ∧
      Across (System.step env) (fun s move s' => Interrupts s move → SlotsSound env s'.world)
        ⟨w, .running none .reading rd⟩ (admitMoves id) ∧
      Reserving id w (some (List.replicate slotBytes 0)) (some []) u := by
  obtain ⟨u, hr, hu⟩ := ends_reserve (show ([] : Bytes).length ≤ _ by decide) hsl hin
  have hs : System.step env ⟨w, .running none .reading rd⟩
      (.admitRequest ⟨id, some []⟩ (some (2 ^ 40))) = some ⟨w, .running (some
        (.memory (.insertId id) :: (reserveOps id []).map .file)) .reading rd⟩ := by
    simp only [System.step, hp]
  have hl : (reserveOps id []).length + 1 =
      (.memory (.insertId id) :: (reserveOps id []).map .file : List (Action Event)).length := rfl
  rw [admitMoves, hl]
  exact ⟨u, run_call hs Worker.noConfusion hr, clean_call hs not_false hr, hu⟩

theorem run_admitted (hm : 2 * reservationBytes ≤ env.limits.maxBytes)
    (hf : env.limits.minFreeBytes = 0) (id : Uuid) : ∃ w,
      run? (System.step env) ⟨fresh Event, .running none .reading 0⟩ (admitMoves id) =
        some ⟨w, .running none .reading 0⟩ ∧
      Across (System.step env) (fun s move s' => Interrupts s move → SlotsSound env s'.world)
        ⟨fresh Event, .running none .reading 0⟩ (admitMoves id) ∧
      Reserving id (fresh Event) (some (List.replicate slotBytes 0)) (some []) w := by
  have hp : admitPlan env (.opened 0 0 ⟨[], 0⟩) ⟨id, some []⟩ (some (2 ^ 40)) =
      ⟨.memory (.insertId id) :: (reserveOps id []).map .file, .ok ()⟩ := by
    refine admitPlan_reserves rfl (le_trans (by decide) hm) ?_ (by decide) not_mem_nil
    rw [hf]
    decide
  exact run_admission hp rfl rfl

end Results

/-- Events that are an identifier and one byte. -/
def byteCodec : JournalCodec (Uuid × UInt8) where
  id := Prod.fst
  serialize := fun event => some (event.1.asBytes ++ [event.2])
  deserialize := fun version payload =>
    if version ≠ requestLogSchemaVersion then .error (.unsupportedVersion version)
    else
      match Uuid.fromSlice (payload.take 16), payload.drop 16 with
      | some id, [body] => .ok (id, body)
      | _, _ => .error .deserialize
  round_trip := by
    rintro ⟨id, body⟩ payload hpayload
    cases hpayload
    have hlength := Uuid.length_asBytes id
    rw [if_neg (not_not.mpr rfl), take_left' hlength, drop_left' hlength, Uuid.fromSlice_asBytes]

def byteEnv : SpoolEnv (Uuid × UInt8) := ⟨crc32, byteCodec, ⟨2 ^ 20, 2 ^ 30, 0⟩⟩

theorem run_reserved : ∃ moves w,
    run? (System.step byteEnv) System.init moves = some ⟨w, .running none .reading 0⟩ ∧
      CleanStops byteEnv moves ∧
      Reserving 1 (fresh _) (some (List.replicate slotBytes 0)) (some []) w := by
  obtain ⟨w, hr, ha, hw⟩ :=
    run_admitted (show 2 * reservationBytes ≤ byteEnv.limits.maxBytes by decide) rfl 1
  refine ⟨_, w, run?_trans (run_fresh byteEnv) hr, ?_, hw⟩
  exact (clean_fresh byteEnv).append (fun s hs => by
    cases (run_fresh byteEnv).symm.trans hs
    exact ha)

section Main
variable {Event : Type} {env : SpoolEnv Event}

/-- However the process is stopped, the next opening finds complete frames and at most one torn
frame, and a checkpoint with only accepted records behind it. -/
theorem stopped_spool_recoverable {moves : List (Move Event)} {s : System Event}
    (hrun : run? (System.step env) System.init moves = some s) (kept workerKept : ℕ) :
    Recoverable env (crash kept workerKept s.world s.process) :=
  (crash_sound (reachable_sound hrun) kept workerKept).1

theorem stopped_spool_recoverable_reserved : ∃ moves s,
    run? (System.step byteEnv) System.init moves = some s ∧
      Recoverable byteEnv (crash 0 0 s.world s.process) := by
  obtain ⟨moves, w, hr, -⟩ := run_reserved
  exact ⟨moves, _, hr, stopped_spool_recoverable hr 0 0⟩

/-- No step loses a record before it is accepted, and every opening returns and hands the reader
all acknowledged events that are not accepted. -/
theorem spool_delivers {moves : List (Move Event)} {s : System Event}
    (hrun : run? (System.step env) System.init moves = some s) :
    (∀ move s', s.step env move = some s' → ∀ record, Holds env.crc s.world.events record →
      record ∈ s'.world.accepted ∨ Holds env.crc s'.world.events record) ∧
    (CleanStops env moves → ∀ kept workerKept,
      let left := crash kept workerKept s.world s.process
      let opening := openWithLimits env left.files
      SlotsSound env left → left.events.length +
        (admissionIds left.files).length * (frameHeaderBytes + maxPayloadBytes) ≤ maxFileBytes →
      opening.result = .ok () ∧ ∃ opened pending,
        Action.machine.runAll { left with spool := opening.spool } opening.actions = some opened ∧
        Returns env opened pending ∧ ∀ event, .acknowledged event ∈ left.history →
          ∃ record, env.codec.encode event = .ok record ∧
            (record ∈ left.accepted ∨ record ∈ pending)) := by
  have hs := reachable_sound hrun
  refine ⟨?_, ?_⟩
  · intro move s' hst record hh
    exact (step_sound hs hst).2 record (.inr hh)
  · intro hc kept workerKept left opening hle hro
    have hr : Recoverable env left := (crash_sound hs kept workerKept).1
    have hl : Slots env left := ⟨crash_slots hs (reachable_slots hc hrun) kept workerKept, hle⟩
    obtain ⟨hre, opened, hop, -⟩ := openWithLimits_returns hr hl hro
    obtain ⟨ha, hk, hex⟩ := openWithLimits_runAll hr hop
    obtain ⟨pending, hrt, hp⟩ := (hex hre).returns
    refine ⟨hre, opened, pending, hop, hrt, fun event hac => ?_⟩
    obtain ⟨record, he, hke⟩ := hr.2.acks event hac
    exact ⟨record, he, ha ▸ hp record (hk record hke)⟩

/-- A crash behind the first four bytes of a slot's header, and no opening succeeds any more. -/
theorem reopen_fails_after_torn_header : ∃ moves s,
    run? (System.step byteEnv) System.init moves = some s ∧
      (openWithLimits byteEnv (crash 4 0 s.world s.process).files).result ≠ .ok () := by
  obtain ⟨moves, w, hre, -, hw⟩ := run_reserved
  have he : Encodes byteEnv (1, 7) ⟨1, requestLogSchemaVersion, (1 : Uuid).asBytes ++ [7]⟩ :=
    ⟨rfl, by decide⟩
  obtain ⟨s, ht, hs, -⟩ := run_tornHeader he (by rw [hw.spool]; exact mem_cons_self) hw.slot
  have hru := run?_trans hre ht
  refine ⟨_, s, hru, ?_⟩
  have hr := (crash_sound (reachable_sound hru) 4 0).1
  obtain ⟨err, -, ho⟩ :=
    openWithLimits_fails_of_tornHeader (by decide) ⟨.unsupportedVersion 0, rfl⟩ hr hs
  exact ho ▸ nofun

/-- An event that is appended without a reservation, and a crash behind it. -/
theorem spool_delivers_appended : ∃ moves s,
    run? (System.step byteEnv) System.init moves = some s ∧ s.world.accepted = [] ∧
      ∃ opened pending, Action.machine.runAll
        { s.world with spool := (openWithLimits byteEnv s.world.files).spool }
        (openWithLimits byteEnv s.world.files).actions = some opened ∧
        Returns byteEnv opened pending ∧
        ⟨2, requestLogSchemaVersion, (2 : Uuid).asBytes ++ [5]⟩ ∈ pending := by
  obtain ⟨record, hr⟩ : ∃ record : EncodedRequestLog,
      record = ⟨2, requestLogSchemaVersion, (2 : Uuid).asBytes ++ [5]⟩ := ⟨_, rfl⟩
  have he : Encodes byteEnv (2, 5) record := hr ▸ ⟨rfl, by decide⟩
  have hl : (frame byteEnv.crc record).length = 49 := by
    rw [length_frame, hr]
    rfl
  have hpl : appendPlan byteEnv (.opened 0 0 ⟨[], 0⟩) (2, 5) = _ :=
    appendPlan_direct he (by decide) rfl (by rw [hl]; decide)
  have hsi : (frame byteEnv.crc record).length ≤ maxFileBytes := by
    rw [hl]
    decide
  obtain ⟨u, hu⟩ : ∃ u : World (Uuid × UInt8), u = {
      files := (∅ : SpoolFiles).insert .events ⟨frame byteEnv.crc record, hsi⟩
      spool := (RequestLogSpool.opened 0 0 ⟨[], 0⟩ |>.advance (frame byteEnv.crc record).length).publish
      accepted := []
      history := [.acknowledged (2, 5), .direct (2, 5)]
      trace := .append .events (frame byteEnv.crc record) :: (fresh (Uuid × UInt8)).trace } :=
    ⟨_, rfl⟩
  have ha : Action.machine.runAll (fresh _) (writeDirect byteEnv (2, 5) record) = some u := by
    have hed : FileOp.edit (fresh (Uuid × UInt8)).files .events (· ++ frame byteEnv.crc record) =
        some ((∅ : SpoolFiles).insert .events ⟨frame byteEnv.crc record, hsi⟩) :=
      FileOp.edit_of_get rfl rfl
    change Option.bind ((FileOp.edit (fresh (Uuid × UInt8)).files .events
      (· ++ frame byteEnv.crc record)).map _) _ = _
    rw [hed, hu]
    rfl
  have hst : System.step byteEnv ⟨fresh _, .running none .reading 0⟩ (.append (2, 5)) =
      some ⟨fresh _, .running (some (writeDirect byteEnv (2, 5) record)) .reading 0⟩ := by
    simp only [System.step, fresh, hpl]
  have hru := run?_trans (run_fresh byteEnv) (run_call hst Worker.noConfusion ha)
  have hc : CleanStops byteEnv _ := (clean_fresh byteEnv).append (fun s hs => by
    cases (run_fresh byteEnv).symm.trans hs
    exact clean_call hst not_false ha)
  have hss : SlotsSound byteEnv u := by
    intro id slot hsl
    rw [hu, fileBytes, get_insert_ne _ _ (by simp)] at hsl
    cases hsl
  have hid : admissionIds u.files = [] := by
    rw [hu]
    exact mergeSort_nil
  have hro : u.events.length +
      (admissionIds u.files).length * (frameHeaderBytes + maxPayloadBytes) ≤ maxFileBytes := by
    rw [hid]
    exact length_events_le u
  obtain ⟨-, opened, pending, hop, hre, hp⟩ := (spool_delivers hru).2 hc 0 0 hss hro
  obtain ⟨record', hen, hk⟩ := hp (2, 5) (by rw [hu]; exact mem_cons_self)
  cases he.1.symm.trans hen
  refine ⟨_, _, hru, by rw [hu], opened, pending, hop, hre, hr ▸ ?_⟩
  exact hk.resolve_left (by rw [hu]; exact not_mem_nil)

end Main
end AiGateway.RequestLog
