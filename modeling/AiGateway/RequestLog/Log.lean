import AiGateway.RequestLog.Ingest

/-! What the events file and the checkpoint hold while the spool is at work, and that every call
under the mutex keeps it that way beside the ingest worker. -/
namespace AiGateway.RequestLog
open Domain Lib List Option Table Machine

section Assertions
variable {Event : Type} (env : SpoolEnv Event)

def World.events (w : World Event) : Bytes := (fileBytes w.files .events).getD []

/-- A complete frame behind complete frames. -/
def Holds (crc : Bytes → UInt32) (file : Bytes) (record : EncodedRequestLog) : Prop :=
  ∃ before rest, Bounded (before ++ [record]) ∧ file = frames crc (before ++ [record]) ++ rest

/-- The database has the record or the events file does. -/
def Kept (w : World Event) (record : EncodedRequestLog) : Prop :=
  record ∈ w.accepted ∨ Holds env.crc w.events record

/-- An offset behind records that are all accepted. -/
def DoneAt (crc : Bytes → UInt32) (accepted log : List EncodedRequestLog) (offset : ℕ) : Prop :=
  ∃ done, done <+: log ∧ (∀ r ∈ done, r ∈ accepted) ∧ offset = (frames crc done).length

def CheckpointAt (files : SpoolFiles) (offset : ℕ) : Prop :=
  (fileBytes files .checkpoint = none ∧ offset = 0) ∨
    fileBytes files .checkpoint = some (leBytes 8 offset)

/-- A spool at work: complete frames, the last write maybe torn, of which a front part is
published and a front part of that is done. -/
structure Live (w : World Event) (log : List EncodedRequestLog) (tail : Bytes)
    (published : List EncodedRequestLog) : Prop where
  bounded : Bounded log
  torn : Torn env.crc tail
  events : fileBytes w.files .events = some (frames env.crc log ++ tail)
  visible : published <+: log
  endOffset : w.spool.endOffset = (frames env.crc published).length
  done : DoneAt env.crc w.accepted published w.spool.checkpointOffset
  checkpoint : ∃ offset, CheckpointAt w.files offset ∧ DoneAt env.crc w.accepted published offset

/-- Between the truncation of a compaction and the reset of the memory. -/
structure Emptied (w : World Event) : Prop where
  events : fileBytes w.files .events = some []
  checkpoint : CheckpointAt w.files 0
  drained : w.spool.checkpointOffset = w.spool.endOffset

/-- What was acknowledged is kept, and what is in the events file was saved first or came
without a reservation. -/
structure Accounted (w : World Event) : Prop where
  acks : ∀ event, .acknowledged event ∈ w.history → ∃ record,
    env.codec.encode event = .ok record ∧ Kept env w record
  sources : ∀ record, Holds env.crc w.events record → ∃ event,
    env.codec.encode event = .ok record ∧ (.saved event ∈ w.history ∨ .direct event ∈ w.history)

/-- Whatever happens to the calls. -/
def Sound (w : World Event) : Prop :=
  ((∃ log tail published, Live env w log tail published) ∨ Emptied w) ∧ Accounted env w

/-- What a stopped process leaves to the next opening. -/
def Recoverable (w : World Event) : Prop :=
  (∃ log tail, Bounded log ∧ Torn env.crc tail ∧ w.events = frames env.crc log ++ tail ∧
    ∃ offset, CheckpointAt w.files offset ∧ DoneAt env.crc w.accepted log offset) ∧
  Accounted env w

/-- The writer knows the events file up to its last byte. -/
def Writing (log published : List EncodedRequestLog) (writerEnd : ℕ) (w : World Event) : Prop :=
  Live env w log [] published ∧ w.spool.writerEnd = writerEnd ∧ Accounted env w

def Exact (w : World Event) : Prop := ∃ log, Writing env log log (frames env.crc log).length w

def Idle (w : World Event) : Prop := Sound env w ∧ (w.spool.failed = false → Exact env w)

variable {crc : Bytes → UInt32} {log : List EncodedRequestLog} {tail a b bs pre : Bytes}
  {rec : EncodedRequestLog}

theorem Holds.mono (hin : a <+: b) (h : Holds crc a rec) :
    Holds crc b rec := by
  obtain ⟨pre, rest, hb, rfl⟩ := h
  obtain ⟨more, rfl⟩ := hin
  exact ⟨pre, rest ++ more, hb, by rw [append_assoc]⟩

theorem holds_of_mem (hb : Bounded log) (hm : rec ∈ log) (tail : Bytes) :
    Holds crc (frames crc log ++ tail) rec := by
  obtain ⟨pre, after, rfl⟩ := append_of_mem hm
  have hs : pre ++ rec :: after = pre ++ [rec] ++ after := by simp
  refine ⟨pre, frames crc after ++ tail, ?_, ?_⟩
  · intro r hr
    rw [hs] at hb
    exact hb r (mem_append_left after hr)
  · rw [hs, frames_append, append_assoc]

theorem Holds.mem (hb : Bounded log) (ht : Torn crc tail)
    (h : Holds crc (frames crc log ++ tail) rec) : rec ∈ log := by
  obtain ⟨pre, rest, hbe, heq⟩ := h
  have hin := prefix_of_frames_append_eq hbe hb ht heq.symm
  exact hin.subset (mem_append_right pre mem_cons_self)

theorem Bounded.concat (hl : Bounded log) (hrecord : rec.payload.length ≤ maxPayloadBytes) :
    Bounded (log ++ [rec]) := by
  intro r hr
  rcases mem_append.mp hr with hr | hr
  · exact hl r hr
  · rw [mem_singleton.mp hr]
    exact hrecord

theorem frames_concat (log : List EncodedRequestLog) (rec : EncodedRequestLog) :
    frames crc (log ++ [rec]) = frames crc log ++ frame crc rec := by
  simp [frames]

variable {offset wend : ℕ}

theorem DoneAt.mono {acc acc' log' : List EncodedRequestLog}
    (h : DoneAt crc acc log offset) (ha : acc ⊆ acc')
    (hl : log <+: log') : DoneAt crc acc' log' offset := by
  obtain ⟨done, hin, hd, hof⟩ := h
  exact ⟨done, hin.trans hl, fun r hr => ha (hd r hr), hof⟩

variable {env} {w u : World Event}

/-- Two worlds that the assertions about the log do not tell apart. -/
structure SameLog (w u : World Event) : Prop where
  events : fileBytes u.files .events = fileBytes w.files .events
  checkpoint : fileBytes u.files .checkpoint = fileBytes w.files .checkpoint
  writerEnd : u.spool.writerEnd = w.spool.writerEnd
  endOffset : u.spool.endOffset = w.spool.endOffset
  checkpointOffset : u.spool.checkpointOffset = w.spool.checkpointOffset
  failed : w.spool.failed = true → u.spool.failed = true
  accepted : u.accepted = w.accepted
  acknowledged : ∀ event, .acknowledged event ∈ u.history → .acknowledged event ∈ w.history
  history : w.history ⊆ u.history

theorem SameLog.refl (w : World Event) : SameLog w w :=
  ⟨rfl, rfl, rfl, rfl, rfl, id, rfl, fun _ h => h, List.Subset.refl _⟩

theorem SameLog.world_events (h : SameLog w u) : u.events = w.events := by
  unfold World.events
  rw [h.events]

theorem SameLog.kept (h : SameLog w u) (hk : Kept env w rec) :
    Kept env u rec := by
  unfold Kept
  rwa [h.accepted, h.world_events]

theorem SameLog.checkpointAt (h : SameLog w u) (hat : CheckpointAt w.files offset) :
    CheckpointAt u.files offset := by
  unfold CheckpointAt
  rwa [h.checkpoint]

variable {pub : List EncodedRequestLog}

theorem SameLog.live (h : SameLog w u)
    (hl : Live env w log tail pub) : Live env u log tail pub where
  bounded := hl.bounded
  torn := hl.torn
  events := h.events.trans hl.events
  visible := hl.visible
  endOffset := h.endOffset.trans hl.endOffset
  done := by
    rw [h.accepted, h.checkpointOffset]
    exact hl.done
  checkpoint := by
    obtain ⟨offset, hat, hd⟩ := hl.checkpoint
    exact ⟨offset, h.checkpointAt hat, h.accepted ▸ hd⟩

theorem SameLog.emptied (h : SameLog w u) (he : Emptied w) : Emptied u :=
  ⟨h.events.trans he.events, h.checkpointAt he.checkpoint,
    (h.checkpointOffset.trans he.drained).trans h.endOffset.symm⟩

/-- Nothing new is acknowledged, and nothing new is in the events file. -/
theorem Accounted.shrink (hw : Accounted env w)
    (ha : ∀ ev, .acknowledged ev ∈ u.history → .acknowledged ev ∈ w.history)
    (hh : w.history ⊆ u.history) (hk : ∀ rec, Kept env w rec → Kept env u rec)
    (hhe : ∀ rec, Holds env.crc u.events rec → Holds env.crc w.events rec) :
    Accounted env u where
  acks := by
    intro ev hm
    obtain ⟨rec, hen, hrecord⟩ := hw.acks ev (ha ev hm)
    exact ⟨rec, hen, hk rec hrecord⟩
  sources := by
    intro rec hho
    obtain ⟨ev, hen, hs⟩ := hw.sources rec (hhe rec hho)
    exact ⟨ev, hen, hs.imp (fun h => hh h) (fun h => hh h)⟩

theorem Accounted.memory (hw : Accounted env w) (spool : RequestLogSpool) :
    Accounted env { w with spool := spool } := ⟨hw.acks, hw.sources⟩

theorem SameLog.accounted (h : SameLog w u) (hw : Accounted env w) : Accounted env u :=
  hw.shrink h.acknowledged h.history (fun _ => h.kept)
    (fun _ hh => h.world_events ▸ hh)

theorem SameLog.sound (h : SameLog w u) (hs : Sound env w) : Sound env u := by
  refine ⟨?_, h.accounted hs.2⟩
  rcases hs.1 with ⟨log, tail, pub, hl⟩ | he
  · exact .inl ⟨log, tail, pub, h.live hl⟩
  · exact .inr (h.emptied he)

theorem SameLog.writing (h : SameLog w u)
    (hw : Writing env log pub wend w) : Writing env log pub wend u :=
  ⟨h.live hw.1, h.writerEnd.trans hw.2.1, h.accounted hw.2.2⟩

theorem events_of_fileBytes (h : fileBytes w.files .events = some bs) :
    w.events = bs := by
  unfold World.events
  rw [h, getD_some]

theorem Live.world_events
    (h : Live env w log tail pub) : w.events = frames env.crc log ++ tail :=
  events_of_fileBytes h.events

theorem Emptied.world_events (h : Emptied w) : w.events = [] := events_of_fileBytes h.events

theorem Sound.recoverable (h : Sound env w) : Recoverable env w := by
  refine ⟨?_, h.2⟩
  rcases h.1 with ⟨log, tail, pub, hl⟩ | he
  · obtain ⟨offset, hat, hd⟩ := hl.checkpoint
    exact ⟨log, tail, hl.bounded, hl.torn, hl.world_events, offset, hat,
      hd.mono (List.Subset.refl _) hl.visible⟩
  · exact ⟨[], [], forall_mem_nil _, torn_nil, he.world_events, 0,
      he.checkpoint, [], nil_prefix, forall_mem_nil _, rfl⟩

theorem Writing.sound (h : Writing env log pub wend w) : Sound env w :=
  ⟨.inl ⟨log, [], pub, h.1⟩, h.2.2⟩

theorem Exact.sound (h : Exact env w) : Sound env w := h.elim (fun _ hw => hw.sound)

theorem Exact.idle (h : Exact env w) : Idle env w := ⟨h.sound, fun _ => h⟩

variable (env)

/-- What the worker does beside a call under the mutex. -/
structure Beside (w u : World Event) : Prop where
  files : ∀ path, path ≠ .checkpoint → path ≠ .checkpointTemp →
    fileBytes u.files path = fileBytes w.files path
  spool : u.spool = { w.spool with checkpointOffset := u.spool.checkpointOffset }
  accepted : w.accepted ⊆ u.accepted
  history : u.history = w.history
  live : ∀ log tail published, Live env w log tail published → Live env u log tail published
  emptied : Emptied w → Emptied u

/-- What a call under the mutex does, a compaction apart. -/
structure Growth (w u : World Event) : Prop where
  events : w.events <+: u.events
  checkpoint : fileBytes u.files .checkpoint = fileBytes w.files .checkpoint
  temp : fileBytes u.files .checkpointTemp = fileBytes w.files .checkpointTemp
  checkpointOffset : u.spool.checkpointOffset = w.spool.checkpointOffset
  endOffset : w.spool.endOffset ≤ u.spool.endOffset
  accepted : u.accepted = w.accepted

variable {env} {v : World Event}

theorem Beside.refl (w : World Event) : Beside env w w :=
  ⟨fun _ _ _ => rfl, rfl, List.Subset.refl _, rfl, fun _ _ _ h => h, id⟩

theorem Beside.trans (h : Beside env w u) (h' : Beside env u v) : Beside env w v where
  files := fun path hc ht => (h'.files path hc ht).trans (h.files path hc ht)
  spool := by
    rw [h'.spool, h.spool]
  accepted := fun _ hr => h'.accepted (h.accepted hr)
  history := h'.history.trans h.history
  live := fun log tail pub hl => h'.live _ _ _ (h.live log tail pub hl)
  emptied := fun he => h'.emptied (h.emptied he)

theorem Beside.world_events (h : Beside env w u) : u.events = w.events := by
  unfold World.events
  rw [h.files .events (by decide) (by decide)]

section
variable (h : Beside env w u)
include h

theorem Beside.kept (hk : Kept env w rec) : Kept env u rec := by
  unfold Kept
  rw [h.world_events]
  exact hk.imp_left (fun hm => h.accepted hm)

theorem Beside.accounted (hw : Accounted env w) : Accounted env u :=
  hw.shrink (fun _ hm => h.history ▸ hm) (fun _ hm => h.history ▸ hm) (fun _ => h.kept)
    (fun _ hh => h.world_events ▸ hh)

theorem Beside.sound (hs : Sound env w) : Sound env u := by
  refine ⟨?_, h.accounted hs.2⟩
  rcases hs.1 with ⟨log, tail, pub, hl⟩ | he
  · exact .inl ⟨log, tail, pub, h.live log tail pub hl⟩
  · exact .inr (h.emptied he)

theorem Beside.writing
    {wend : ℕ} (hw : Writing env log pub wend w) :
    Writing env log pub wend u :=
  ⟨h.live _ _ _ hw.1, by rw [h.spool]; exact hw.2.1, h.accounted hw.2.2⟩

theorem Beside.exact (he : Exact env w) : Exact env u := by
  obtain ⟨log, hw⟩ := he
  exact ⟨log, h.writing hw⟩

theorem Beside.idle (hid : Idle env w) : Idle env u := by
  refine ⟨h.sound hid.1, fun hf => h.exact (hid.2 ?_)⟩
  rw [h.spool] at hf
  exact hf

end

theorem Growth.refl (w : World Event) : Growth w w :=
  ⟨prefix_refl _, rfl, rfl, rfl, Nat.le_refl _, rfl⟩

theorem SameLog.growth (h : SameLog w u)
    (ht : fileBytes u.files .checkpointTemp = fileBytes w.files .checkpointTemp) :
    Growth w u where
  events := by
    rw [h.world_events]
  checkpoint := h.checkpoint
  temp := ht
  checkpointOffset := h.checkpointOffset
  endOffset := Nat.le_of_eq h.endOffset.symm
  accepted := h.accepted

theorem Growth.kept (h : Growth w u) (hk : Kept env w rec) : Kept env u rec := by
  unfold Kept
  rw [h.accepted]
  exact hk.imp_right (Holds.mono h.events)

def callContract (env : SpoolEnv Event) : Contract (World Event) where
  rely := Beside env
  guarantee := Growth
  stopped := Sound env
  rely_refl := Beside.refl
  rely_trans := Beside.trans

variable {op : SpoolOp}

theorem Action.run_file (h : (Action.file op).run w = some u) :
    ∃ files, op.run w.files = some files ∧
      u = { w with files := files, trace := op :: w.trace } := by
  obtain ⟨files, hr, rfl⟩ := map_eq_some_iff.mp h
  exact ⟨files, hr, rfl⟩

theorem Action.run_file_same (h : (Action.file op).run w = some u) :
    u.spool = w.spool ∧ u.accepted = w.accepted ∧ u.history = w.history := by
  obtain ⟨files, -, rfl⟩ := Action.run_file h
  exact ⟨rfl, rfl, rfl⟩

/-- A stopped operation did nothing, or a part of it completely. -/
theorem Action.cut_file (op : SpoolOp) (kept : ℕ) (w : World Event) :
    (Action.file op).cut kept w = w ∨
      ∃ part, op.cut kept = some part ∧ (Action.file part).run w = some ((Action.file op).cut kept w) := by
  simp only [Action.cut]
  cases hp : op.cut kept with
  | none => exact .inl rfl
  | some part =>
    rw [bind_some]
    cases hr : (Action.file part).run w with
    | none => exact .inl rfl
    | some u => exact .inr ⟨part, rfl, hr⟩

variable {path : SpoolPath} {a : Action Event}

theorem fileBytes_run (hr : (Action.file op).run w = some u) (h : op.touches path = false) :
    fileBytes u.files path = fileBytes w.files path := by
  obtain ⟨files, hf, rfl⟩ := Action.run_file hr
  unfold fileBytes
  rw [FileOp.run_get_of_not_touches hf h]

theorem fileBytes_edit {f : Bytes → Bytes} (hop : ∀ files, op.run files = FileOp.edit files path f)
    (hr : (Action.file op).run w = some u) :
    ∃ pre, fileBytes w.files path = some pre ∧ fileBytes u.files path = some (f pre) := by
  obtain ⟨files, hf, rfl⟩ := Action.run_file hr
  rw [hop] at hf
  obtain ⟨ct, ct', hg, hc', rfl⟩ := FileOp.edit_eq_some hf
  exact ⟨ct.val, by rw [fileBytes, hg]; rfl, by rw [fileBytes, get_insert_self, map_some, hc']⟩

/-- The other files are as good as the log itself. -/
theorem sameLog_of_run (hev : op.touches .events = false)
    (hch : op.touches .checkpoint = false) (hr : (Action.file op).run w = some u) :
    SameLog w u := by
  have he := fileBytes_run hr hev
  have hc := fileBytes_run hr hch
  obtain ⟨files, -, rfl⟩ := Action.run_file hr
  exact ⟨he, hc, rfl, rfl, rfl, id, rfl, fun _ hm => hm, List.Subset.refl _⟩

theorem sameLog_of_cut (he : op.touches .events = false)
    (hc : op.touches .checkpoint = false) (kept : ℕ) (w : World Event) :
    SameLog w ((Action.file op).cut kept w) := by
  rcases Action.cut_file op kept w with heq | ⟨part, hp, hr⟩
  · rw [heq]
    exact .refl w
  · have ht := FileOp.touches_cut hp
    exact sameLog_of_run ((ht _).trans he) ((ht _).trans hc) hr

/-- An action that neither the assertions about the log nor the worker see. -/
def Action.Neutral : Action Event → Prop
  | .file op => op.touches .events = false ∧ op.touches .checkpoint = false ∧
      op.touches .checkpointTemp = false
  | .memory update => ∀ spool : RequestLogSpool, (update spool).writerEnd = spool.writerEnd ∧
      (update spool).endOffset = spool.endOffset ∧
      (update spool).checkpointOffset = spool.checkpointOffset ∧
      (spool.failed = true → (update spool).failed = true)
  | .note entry => ∀ event, entry ≠ .acknowledged event

theorem Action.Neutral.run (h : a.Neutral) (hr : a.run w = some u) :
    SameLog w u ∧ Growth w u := by
  cases a with
  | file op =>
    have hs := sameLog_of_run h.1 h.2.1 hr
    exact ⟨hs, hs.growth (fileBytes_run hr h.2.2)⟩
  | memory update =>
    cases hr
    obtain ⟨hwr, he, hc, hf⟩ := h w.spool
    have hs : SameLog w { w with spool := update w.spool } :=
      ⟨rfl, rfl, hwr, he, hc, hf, rfl, fun _ hm => hm, List.Subset.refl _⟩
    exact ⟨hs, hs.growth rfl⟩
  | note e =>
    cases hr
    have hs : SameLog w { w with history := e :: w.history } := by
      refine ⟨rfl, rfl, rfl, rfl, rfl, id, rfl, fun ev hm => ?_, subset_cons_self _ _⟩
      rcases mem_cons.mp hm with heq | hm
      · exact absurd heq.symm (h ev)
      · exact hm
    exact ⟨hs, hs.growth rfl⟩

theorem Action.Neutral.cut (h : a.Neutral) (kept : ℕ) (w : World Event) :
    SameLog w (a.cut kept w) ∧ Growth w (a.cut kept w) := by
  cases a with
  | file op =>
    rcases Action.cut_file op kept w with heq | ⟨part, hp, hr⟩
    · rw [heq]
      exact ⟨.refl w, .refl w⟩
    · have ht := FileOp.touches_cut hp
      have hn : (.file part : Action Event).Neutral :=
        ⟨(ht _).trans h.1, (ht _).trans h.2.1, (ht _).trans h.2.2⟩
      exact hn.run hr
  | memory update => exact ⟨.refl w, .refl w⟩
  | note e => exact ⟨.refl w, .refl w⟩

variable {wend : ℕ}

theorem stable_writing : (callContract env).Stable (Writing env log pub wend) :=
  fun _ _ h hw => h.writing hw

theorem stable_exact : (callContract env).Stable (Exact env) := fun _ _ h hw => h.exact hw

theorem triple_neutral {P : World Event → Prop} (ha : a.Neutral)
    (hst : (callContract env).Stable P) (hsa : ∀ {w u : World Event}, SameLog w u → P w → P u)
    (hs : ∀ w, P w → Sound env w) : Action.machine.Triple (callContract env) P a P where
  stable := hst
  halt := hs
  stop := fun w hw kept => ⟨(ha.cut kept w).2, hs _ (hsa (ha.cut kept w).1 hw)⟩
  step := fun _ _ hw hr => ⟨(ha.run hr).2, hsa (ha.run hr).1 hw⟩

variable {bs : Bytes} {ev : Event} {log' : List EncodedRequestLog}

theorem Live.append
    (h : Live env w log [] pub) (hr : (Action.file (.append .events bs)).run w = some u)
    (hl' : Bounded log') (ht : Torn env.crc tail) (hin : log <+: log')
    (hby : frames env.crc log ++ bs = frames env.crc log' ++ tail) :
    Live env u log' tail pub := by
  have hc : fileBytes u.files .checkpoint = fileBytes w.files .checkpoint := fileBytes_run hr rfl
  obtain ⟨pre, hb, ha⟩ := fileBytes_edit (f := (· ++ bs)) (fun _ => rfl) hr
  cases hb.symm.trans h.events
  obtain ⟨files, -, rfl⟩ := Action.run_file hr
  refine ⟨hl', ht, ?_, h.visible.trans hin, h.endOffset, h.done, ?_⟩
  · rw [ha, append_nil, hby]
  · obtain ⟨offset, hat, hd⟩ := h.checkpoint
    refine ⟨offset, ?_, hd⟩
    unfold CheckpointAt
    rwa [hc]

theorem events_append (hr : (Action.file (.append .events bs)).run w = some u) :
    u.events = w.events ++ bs := by
  obtain ⟨pre, hb, ha⟩ := fileBytes_edit (f := (· ++ bs)) (fun _ => rfl) hr
  rw [events_of_fileBytes hb, events_of_fileBytes ha]

theorem growth_append
    (hr : (Action.file (.append .events bs)).run w = some u) : Growth w u := by
  have he := events_append hr
  have hc : fileBytes u.files .checkpoint = fileBytes w.files .checkpoint := fileBytes_run hr rfl
  have ht : fileBytes u.files .checkpointTemp = fileBytes w.files .checkpointTemp :=
    fileBytes_run hr rfl
  obtain ⟨files, hf, rfl⟩ := Action.run_file hr
  exact ⟨he ▸ prefix_append _ _, hc, ht, rfl, Nat.le_refl _, rfl⟩

/-- The event of a frame that is about to be written. -/
def Noted (event : Event) (w : World Event) : Prop :=
  .saved event ∈ w.history ∨ .direct event ∈ w.history

theorem Accounted.append {pub' : List EncodedRequestLog} (hw : Accounted env w)
    (hl : Live env w log [] pub) (hl' : Live env u log' tail pub')
    (hg : Growth w u) (hh : u.history = w.history) (hn : Noted ev w)
    (hen : env.codec.encode ev = .ok rec) (hlo' : ∀ r ∈ log', r ∈ log ∨ r = rec) :
    Accounted env u where
  acks := by
    intro ev hm
    obtain ⟨rec, hen, hk⟩ := hw.acks ev (hh ▸ hm)
    exact ⟨rec, hen, hg.kept hk⟩
  sources := by
    intro r hho
    rw [hh]
    rw [hl'.world_events] at hho
    rcases hlo' r (hho.mem hl'.bounded hl'.torn) with hm | rfl
    · refine hw.sources r ?_
      rw [hl.world_events]
      exact holds_of_mem hl.bounded hm []
    · exact ⟨ev, hen, hn⟩

theorem triple_append (hen : env.codec.encode ev = .ok rec)
    (hrecord : rec.payload.length ≤ maxPayloadBytes) :
    Action.machine.Triple (callContract env)
      (fun w => Writing env log pub wend w ∧ Noted ev w)
      (.file (.append .events (frame env.crc rec)))
      (Writing env (log ++ [rec]) pub wend) where
  stable := fun _ _ h hw => ⟨h.writing hw.1, by unfold Noted; rw [h.history]; exact hw.2⟩
  halt := fun _ hw => hw.1.sound
  stop := by
    rintro w ⟨hw, hn⟩ kept
    rcases Action.cut_file (.append .events (frame env.crc rec)) kept w with
      heq | ⟨part, hp, hr⟩
    · have hc : Action.machine.cut kept (.file (.append .events (frame env.crc rec))) w = w := heq
      rw [hc]
      exact ⟨Growth.refl w, hw.sound⟩
    · cases hp
      have hg := growth_append hr
      have hh := (Action.run_file_same hr).2.2
      refine ⟨hg, ?_⟩
      by_cases hk : kept < (frame env.crc rec).length
      · have hl := hw.1.append hr hw.1.bounded ⟨rec, hrecord, kept, hk, rfl⟩
          (prefix_refl log) rfl
        exact ⟨.inl ⟨log, _, pub, hl⟩, hw.2.2.append hw.1 hl hg hh hn hen (fun _ => .inl)⟩
      · have hl := hw.1.append hr (hw.1.bounded.concat hrecord) torn_nil
          (prefix_append log [rec])
          (by rw [take_of_length_le (Nat.le_of_not_lt hk), frames_concat, append_nil])
        exact ⟨.inl ⟨log ++ [rec], [], pub, hl⟩, hw.2.2.append hw.1 hl hg hh hn hen (by simp)⟩
  step := by
    rintro w u ⟨hw, hn⟩ hr
    have hg := growth_append hr
    obtain ⟨hs, -, hh⟩ := Action.run_file_same hr
    have hl := hw.1.append hr (hw.1.bounded.concat hrecord) torn_nil
      (prefix_append log [rec]) (by rw [frames_concat, append_nil])
    refine ⟨hg, hl, by rw [hs]; exact hw.2.1, ?_⟩
    exact hw.2.2.append hw.1 hl hg hh hn hen (by simp)

theorem triple_advance (bs : ℕ) :
    Action.machine.Triple (callContract env) (Writing env log pub wend)
      (.memory (.advance bs)) (Writing env log pub (wend + bs)) where
  stable := stable_writing
  halt := fun _ hw => hw.sound
  stop := fun w hw _ => ⟨Growth.refl w, hw.sound⟩
  step := by
    intro w u hw hr
    cases hr
    exact ⟨⟨prefix_refl _, rfl, rfl, rfl, Nat.le_refl _, rfl⟩,
      ⟨hw.1.bounded, hw.1.torn, hw.1.events, hw.1.visible, hw.1.endOffset, hw.1.done,
        hw.1.checkpoint⟩, congrArg (· + bs) hw.2.1, hw.2.2.memory _⟩

theorem length_frames_le_of_prefix (crc : Bytes → UInt32) {a b : List EncodedRequestLog}
    (h : a <+: b) : (frames crc a).length ≤ (frames crc b).length := by
  obtain ⟨rest, rfl⟩ := h
  rw [frames_append, length_append]
  exact Nat.le_add_right _ _

/-- The published end follows the writer's once the writer is behind the last frame. -/
theorem triple_publish :
    Action.machine.Triple (callContract env)
      (Writing env log pub (frames env.crc log).length) (.memory RequestLogSpool.publish)
      (Writing env log log (frames env.crc log).length) where
  stable := stable_writing
  halt := fun _ hw => hw.sound
  stop := fun w hw _ => ⟨Growth.refl w, hw.sound⟩
  step := by
    intro w u hw hr
    cases hr
    obtain ⟨hl, hwr, ha⟩ := hw
    have hle := length_frames_le_of_prefix env.crc hl.visible
    refine ⟨⟨prefix_refl _, rfl, rfl, rfl, ?_, rfl⟩, ?_, hwr, ha.memory _⟩
    · change w.spool.endOffset ≤ w.spool.writerEnd
      rw [hl.endOffset, hwr]
      exact hle
    · obtain ⟨offset, hat, hd⟩ := hl.checkpoint
      exact ⟨hl.bounded, hl.torn, hl.events, prefix_refl _, hwr,
        hl.done.mono (List.Subset.refl _) hl.visible,
        offset, hat, hd.mono (List.Subset.refl _) hl.visible⟩

/-- An append returns when its record is in the log. -/
theorem triple_acknowledge (hen : env.codec.encode ev = .ok rec) (hm : rec ∈ log) :
    Action.machine.Triple (callContract env) (Writing env log pub wend)
      (.note (.acknowledged ev)) (Writing env log pub wend) where
  stable := stable_writing
  halt := fun _ hw => hw.sound
  stop := fun w hw _ => ⟨Growth.refl w, hw.sound⟩
  step := by
    intro w u hw hr
    cases hr
    refine ⟨⟨prefix_refl _, rfl, rfl, rfl, Nat.le_refl _, rfl⟩,
      ⟨hw.1.bounded, hw.1.torn, hw.1.events, hw.1.visible, hw.1.endOffset, hw.1.done,
        hw.1.checkpoint⟩, hw.2.1, ?_⟩
    constructor
    · intro ev' hm'
      rcases mem_cons.mp hm' with heq | hm'
      · cases heq
        refine ⟨rec, hen, .inr ?_⟩
        change Holds env.crc w.events rec
        rw [hw.1.world_events]
        exact holds_of_mem hw.1.bounded hm []
      · exact hw.2.2.acks ev' hm'
    · intro rec' hh
      obtain ⟨ev', he', hn⟩ := hw.2.2.sources rec' hh
      exact ⟨ev', he', hn.imp (mem_cons_of_mem _) (mem_cons_of_mem _)⟩

theorem neutral_saveTerminal (env : SpoolEnv Event) (ev : Event) (rec : EncodedRequestLog) :
    ∀ a ∈ saveTerminal env ev rec, a.Neutral := by
  simp [saveTerminal, saveTerminalOps, Action.Neutral, FileOp.touches]

theorem neutral_retireOps (id : Uuid) :
    ∀ a ∈ (retireOps id).map (Action.file : SpoolOp → Action Event), a.Neutral := by
  simp [retireOps, Action.Neutral, FileOp.touches]

theorem neutral_admitPlan (spool : RequestLogSpool) (intent : RequestLogIntent)
    (av : Option ℕ) : ∀ a ∈ (admitPlan env spool intent av).actions, a.Neutral := by
  have hc := admitPlan_cases env spool intent av
  generalize admitPlan env spool intent av = plan at hc ⊢
  cases hc with
  | refused err => simp
  | pressed => simp [Action.Neutral, RequestLogSpool.press]
  | latched err => simp [Action.Neutral, RequestLogSpool.latch]
  | reserved bs => simp [reserveOps, Action.Neutral, FileOp.touches, RequestLogSpool.insertId]

theorem neutral_syncDataPlan (spool : RequestLogSpool) :
    ∀ a ∈ (syncDataPlan spool : Plan Event Unit).actions, a.Neutral := by
  unfold syncDataPlan
  split_ifs <;> simp [Action.Neutral, FileOp.touches, RequestLogSpool.storeSynced]

/-- A latched writer stays latched. -/
def Latched (env : SpoolEnv Event) (w : World Event) : Prop := Sound env w ∧ w.spool.failed = true

theorem stable_latched : (callContract env).Stable (Latched env) := by
  intro w u h hw
  refine ⟨h.sound hw.1, ?_⟩
  rw [h.spool]
  exact hw.2

variable {acts : List (Action Event)}

theorem safe_exact_of_neutral (h : ∀ a ∈ acts, a.Neutral)
    (hw : Exact env w) : Action.machine.Safe (callContract env) (Exact env) acts w :=
  safe_skip stable_exact (fun a ha => triple_neutral (h a ha) stable_exact
    (fun hs ⟨log, hl⟩ => ⟨log, hs.writing hl⟩) (fun _ he => he.sound)) hw

theorem safe_latched_of_neutral (h : ∀ a ∈ acts, a.Neutral)
    (hw : Latched env w) : Action.machine.Safe (callContract env) (Latched env) acts w :=
  safe_skip stable_latched (fun a ha => triple_neutral (h a ha) stable_latched
    (fun hs hl => ⟨hs.sound hl.1, hs.failed hl.2⟩)
    (fun _ hl => hl.1)) hw

theorem Idle.exact_or_latched (h : Idle env w) : Exact env w ∨ Latched env w := by
  cases hf : w.spool.failed with
  | false => exact .inl (h.2 hf)
  | true => exact .inr ⟨h.1, hf⟩

theorem Latched.idle (h : Latched env w) : Idle env w :=
  ⟨h.1, fun hf => absurd (h.2.symm.trans hf) (by decide)⟩

/-- A call that the log does not see leaves the spool as idle as it was. -/
theorem safe_of_neutral (h : ∀ a ∈ acts, a.Neutral)
    (hw : Idle env w) : Action.machine.Safe (callContract env) (Idle env) acts w := by
  rcases hw.exact_or_latched with he | hl
  · exact (safe_exact_of_neutral h he).imp (fun _ he => he.idle)
  · exact (safe_latched_of_neutral h hl).imp (fun _ hl => hl.idle)

theorem triple_note {P : World Event → Prop} {e : Note Event}
    (he : ∀ ev, e ≠ .acknowledged ev) (hst : (callContract env).Stable P)
    (hsa : ∀ {w u : World Event}, SameLog w u → P w → P u) (hs : ∀ w, P w → Sound env w) :
    Action.machine.Triple (callContract env) P (.note e)
      (fun w => P w ∧ e ∈ w.history) where
  stable := hst
  halt := hs
  stop := fun w hw _ => ⟨Growth.refl w, hs w hw⟩
  step := by
    intro w u hw hr
    have hn : (.note e : Action Event).Neutral := he
    obtain ⟨hs', hg⟩ := hn.run hr
    cases hr
    exact ⟨hg, hsa hs' hw, mem_cons_self⟩

theorem safe_saveTerminal (ev : Event) (rec : EncodedRequestLog) (hw : Exact env w) :
    Action.machine.Safe (callContract env) (fun w => Exact env w ∧ Noted ev w)
      (saveTerminal env ev rec) w := by
  have hop := safe_exact_of_neutral (fun a ha => neutral_saveTerminal env ev rec a
    (mem_append_left _ ha)) hw
  refine hop.append (fun w1 h1 => ?_)
  refine safe_cons (triple_note (fun _ heq => by cases heq) stable_exact
    (fun hs ⟨log, hl⟩ => ⟨log, hs.writing hl⟩) (fun _ he => he.sound))
    (fun w2 h2 => ?_) h1
  refine safe_nil ?_ ⟨h2.1, .inl h2.2⟩
  exact fun _ _ h hw => ⟨h.exact hw.1, by unfold Noted; rw [h.history]; exact hw.2⟩

/-- An exact spool with the record of the call in its events file. -/
def ExactWith (env : SpoolEnv Event) (record : EncodedRequestLog) (w : World Event) : Prop :=
  ∃ log, Writing env log log (frames env.crc log).length w ∧ record ∈ log

theorem stable_exactWith : (callContract env).Stable (ExactWith env rec) :=
  fun _ _ h ⟨log, hw, hm⟩ => ⟨log, h.writing hw, hm⟩

theorem ExactWith.exact (h : ExactWith env rec w) : Exact env w :=
  h.elim (fun log hl => ⟨log, hl.1⟩)

theorem triple_exactWith (ha : a.Neutral) :
    Action.machine.Triple (callContract env) (ExactWith env rec) a (ExactWith env rec) :=
  triple_neutral ha stable_exactWith (fun hs ⟨log, hw, hm⟩ => ⟨log, hs.writing hw, hm⟩)
    (fun _ h => h.exact.sound)

theorem triple_acknowledgeWith (hen : env.codec.encode ev = .ok rec) :
    Action.machine.Triple (callContract env) (ExactWith env rec) (.note (.acknowledged ev))
      (Exact env) where
  stable := stable_exactWith
  halt := fun _ h => h.exact.sound
  stop := fun w h _ => ⟨Growth.refl w, h.exact.sound⟩
  step := by
    rintro w u ⟨log, hw, hm⟩ hr
    obtain ⟨hg, hu⟩ := (triple_acknowledge hen hm).step w u hw hr
    exact ⟨hg, log, hu⟩

/-- The frame and the two ends. -/
theorem safe_writeSynced (hen : env.codec.encode ev = .ok rec)
    (hrecord : rec.payload.length ≤ maxPayloadBytes) (hw : Exact env w)
    (hn : Noted ev w) :
    Action.machine.Safe (callContract env) (ExactWith env rec) (writeSynced env rec) w := by
  obtain ⟨log, hlo⟩ := hw
  have hl : (frames env.crc (log ++ [rec])).length =
      (frames env.crc log).length + (frame env.crc rec).length := by
    rw [frames_concat, length_append]
  have hsy : (.file (.sync .events) : Action Event).Neutral := ⟨rfl, rfl, rfl⟩
  refine safe_cons (triple_append hen hrecord) (fun w1 h1 => ?_) ⟨hlo, hn⟩
  refine safe_cons (triple_advance _) (fun w2 h2 => ?_) h1
  rw [← hl] at h2
  refine safe_cons (triple_neutral hsy stable_writing (fun hs => hs.writing)
    (fun _ hwr => hwr.sound)) (fun w3 h3 => ?_) h2
  refine safe_cons triple_publish (fun w4 h4 => ?_) h3
  exact safe_nil stable_exactWith
    ⟨_, h4, mem_append_right log mem_cons_self⟩

theorem neutral_removeId (id : Uuid) : (.memory (.removeId id) : Action Event).Neutral :=
  fun _ => ⟨rfl, rfl, rfl, fun hf => hf⟩

/-- The end of an admitted append, once its record is in the log. -/
def retire (event : Event) (id : Uuid) : List (Action Event) :=
  (retireOps id).map .file ++ [.memory (.removeId id), .note (.acknowledged event)]

theorem safe_retire (hen : env.codec.encode ev = .ok rec) (id : Uuid)
    (hw : ExactWith env rec w) :
    Action.machine.Safe (callContract env) (Exact env) (retire ev id) w := by
  refine (safe_skip stable_exactWith
    (fun a ha => triple_exactWith (neutral_retireOps _ a ha)) hw).append (fun w1 h1 => ?_)
  refine safe_cons (triple_exactWith (neutral_removeId _)) (fun w2 h2 => ?_) h1
  exact safe_cons (triple_acknowledgeWith hen)
    (fun w3 h3 => safe_nil stable_exact h3) h2

section
variable (hen : env.codec.encode ev = .ok rec)
  (hrecord : rec.payload.length ≤ maxPayloadBytes) (hw : Exact env w)
include hen hrecord hw

theorem safe_writeReserved (hn : Noted ev w) :
    Action.machine.Safe (callContract env) (Exact env) (writeReserved env ev rec) w :=
  (safe_writeSynced hen hrecord hw hn).append (fun _ h => safe_retire hen _ h)

theorem safe_writeDirect :
    Action.machine.Safe (callContract env) (Exact env) (writeDirect env ev rec) w := by
  obtain ⟨log, hlo⟩ := hw
  have hl : (frames env.crc (log ++ [rec])).length =
      (frames env.crc log).length + (frame env.crc rec).length := by
    rw [frames_concat, length_append]
  refine safe_cons (triple_note (fun _ heq => by cases heq) stable_writing
    (fun hs => hs.writing) (fun _ hwr => hwr.sound)) (fun w1 h1 => ?_) hlo
  refine safe_cons (triple_append hen hrecord) (fun w2 h2 => ?_) ⟨h1.1, .inr h1.2⟩
  refine safe_cons (triple_advance _) (fun w3 h3 => ?_) h2
  rw [← hl] at h3
  refine safe_cons triple_publish (fun w4 h4 => ?_) h3
  refine safe_cons (triple_acknowledge hen
    (mem_append_right log mem_cons_self)) (fun w5 h5 => ?_) h4
  exact safe_nil stable_exact ⟨_, h5⟩

end

/-- While the writer knows the file, an append of any kind ends with it knowing the file. -/
theorem safe_appendPlan (spool : RequestLogSpool) (ev : Event) (hw : Exact env w) :
    Action.machine.Safe (callContract env) (Exact env) (appendPlan env spool ev).actions w := by
  have hc := appendPlan_cases env spool ev
  generalize appendPlan env spool ev = plan at hc ⊢
  cases hc with
  | refused err => exact safe_nil stable_exact hw
  | latched rec =>
    exact (safe_saveTerminal ev rec hw).imp (fun _ h => h.1)
  | reserved rec hrecord =>
    exact (safe_saveTerminal ev rec hw).append
      (fun _ hs => safe_writeReserved hrecord.1 hrecord.2 hs.1 hs.2)
  | direct rec hrecord => exact safe_writeDirect hrecord.1 hrecord.2 hw

theorem neutral_appendPlan_of_failed {spool : RequestLogSpool} (hf : spool.failed = true)
    (ev : Event) : ∀ a ∈ (appendPlan env spool ev).actions, a.Neutral := by
  have hc := appendPlan_cases env spool ev
  generalize appendPlan env spool ev = plan at hc ⊢
  cases hc with
  | refused err => simp
  | latched rec => exact neutral_saveTerminal env ev rec
  | reserved rec _ _ hop => cases hf.symm.trans hop
  | direct rec _ _ hop => cases hf.symm.trans hop

theorem append_safe (ev : Event) (hw : Idle env w) :
    Action.machine.Safe (callContract env) (Idle env) (appendPlan env w.spool ev).actions w := by
  cases hf : w.spool.failed with
  | false =>
    exact (safe_appendPlan w.spool ev (hw.2 hf)).imp (fun _ he => he.idle)
  | true => exact safe_of_neutral (neutral_appendPlan_of_failed hf ev) hw

variable (env)

/-- No record is lost. -/
def KeepsAll (w u : World Event) : Prop := ∀ record, Kept env w record → Kept env u record

/-- The contract of a compaction, during which the worker waits with its reader at an offset. -/
def compactContract (reader : ℕ) : Contract (World Event) :=
  .alone (KeepsAll env) (fun w => Sound env w ∧ w.spool.checkpointOffset = reader)

def openContract : Contract (World Event) := .alone (KeepsAll env) (Recoverable env)

variable {env}

theorem KeepsAll.accounted (h : KeepsAll env w u) (hh : u.history = w.history)
    (hhe : ∀ rec, Holds env.crc u.events rec → Holds env.crc w.events rec)
    (hw : Accounted env w) : Accounted env u :=
  hw.shrink (fun _ hm => hh ▸ hm) (fun _ hm => hh ▸ hm) h hhe

theorem SameLog.keepsAll (h : SameLog w u) : KeepsAll env w u := fun _ => h.kept

theorem Growth.keepsAll (h : Growth w u) : KeepsAll env w u := fun _ => h.kept

theorem triple_untouched {stopped P : World Event → Prop}
    (he : op.touches .events = false) (hc : op.touches .checkpoint = false)
    (hsa : ∀ {w u : World Event}, SameLog w u → P w → P u) (hs : ∀ w, P w → stopped w) :
    Action.machine.Triple (.alone (KeepsAll env) stopped) P (.file op) P where
  stable := Contract.stable_alone
  halt := hs
  stop := fun w hw kept =>
    have h := sameLog_of_cut he hc kept w
    ⟨h.keepsAll, hs _ (hsa h hw)⟩
  step := fun _ _ hw hr =>
    have h := sameLog_of_run he hc hr
    ⟨h.keepsAll, hsa h hw⟩

variable {rd : ℕ}

/-- A spool whose records are all accepted, with the reader behind the last of them. -/
def Drained (env : SpoolEnv Event) (reader : ℕ) (w : World Event) : Prop :=
  ∃ log, Writing env log log (frames env.crc log).length w ∧ (∀ r ∈ log, r ∈ w.accepted) ∧
    w.spool.checkpointOffset = reader ∧ reader = (frames env.crc log).length

theorem SameLog.drained (h : SameLog w u) (hw : Drained env rd w) : Drained env rd u := by
  obtain ⟨log, hwr, ha, hof, hr⟩ := hw
  exact ⟨log, h.writing hwr, h.accepted ▸ ha, h.checkpointOffset.trans hof, hr⟩

theorem Drained.stopped (h : Drained env rd w) :
    Sound env w ∧ w.spool.checkpointOffset = rd :=
  ⟨h.elim (fun _ hl => hl.1.sound), h.elim (fun _ hl => hl.2.2.1)⟩

/-- The checkpoint goes back to zero while every record is still in the file. -/
theorem triple_rename_zero :
    Action.machine.Triple (compactContract env rd)
      (fun w => Drained env rd w ∧ fileBytes w.files .checkpointTemp = some (leBytes 8 0))
      (.file (.rename .checkpointTemp .checkpoint))
      (fun w => Drained env rd w ∧ CheckpointAt w.files 0) where
  stable := Contract.stable_alone
  halt := fun _ hw => hw.1.stopped
  stop := fun _ hw _ => ⟨fun _ => id, hw.1.stopped⟩
  step := by
    rintro w u ⟨⟨log, ⟨hl, hwr, hak⟩, ha, hof, hre⟩, ht⟩ hr
    have he : fileBytes u.files .events = fileBytes w.files .events := fileBytes_run hr rfl
    have hwo : u.events = w.events := by
      unfold World.events
      rw [he]
    have hc : CheckpointAt u.files 0 := by
      obtain ⟨files, hf, rfl⟩ := Action.run_file hr
      obtain ⟨ct, hg, rfl⟩ := map_eq_some_iff.mp hf
      right
      rw [fileBytes, hg] at ht
      exact ht
    obtain ⟨hs, hac, hh⟩ := Action.run_file_same hr
    have hk : KeepsAll env w u := by
      intro rec hke
      unfold Kept
      rwa [hac, hwo]
    refine ⟨hk, ⟨log, ⟨?_, ?_, hk.accounted hh (fun _ h => hwo ▸ h) hak⟩, ?_, ?_, hre⟩, hc⟩
    · refine ⟨hl.bounded, hl.torn, he.trans hl.events, hl.visible, ?_, ?_, ?_⟩
      · rw [hs]
        exact hl.endOffset
      · rw [hs, hac]
        exact hl.done
      · exact ⟨0, hc, [], nil_prefix, forall_mem_nil _, rfl⟩
    · rw [hs]
      exact hwr
    · rw [hac]
      exact ha
    · rw [hs]
      exact hof

/-- The truncation only removes accepted records. -/
theorem triple_truncate :
    Action.machine.Triple (compactContract env rd)
      (fun w => Drained env rd w ∧ CheckpointAt w.files 0) (.file (.setLen .events 0))
      (fun w => Emptied w ∧ Accounted env w ∧ w.spool.checkpointOffset = rd) where
  stable := Contract.stable_alone
  halt := fun _ hw => hw.1.stopped
  stop := fun _ hw _ => ⟨fun _ => id, hw.1.stopped⟩
  step := by
    rintro w u ⟨⟨log, ⟨hl, hwr, hak⟩, ha, hof, hre⟩, hz⟩ hr
    have hc : fileBytes u.files .checkpoint = fileBytes w.files .checkpoint := fileBytes_run hr rfl
    obtain ⟨hs, hac, hhi⟩ := Action.run_file_same hr
    have hk : KeepsAll env w u := by
      rintro rec (hm | hh)
      · exact .inl (hac ▸ hm)
      · rw [hl.world_events] at hh
        exact .inl (hac ▸ ha rec (hh.mem hl.bounded hl.torn))
    have he : fileBytes u.files .events = some [] := by
      obtain ⟨pre, -, haf⟩ := fileBytes_edit (f := (resize · 0)) (fun _ => rfl) hr
      rw [haf, resize_of_le (Nat.zero_le _), take_zero]
    have hn : ∀ rec, Holds env.crc u.events rec → Holds env.crc w.events rec := by
      intro rec hh
      rw [events_of_fileBytes he] at hh
      exact hh.mono nil_prefix
    refine ⟨hk, ⟨he, ?_, ?_⟩, hk.accounted hhi hn hak, ?_⟩
    · unfold CheckpointAt
      rwa [hc]
    · rw [hs, hof, hre, hl.endOffset]
    · rw [hs]
      exact hof

theorem triple_reset :
    Action.machine.Triple (compactContract env rd)
      (fun w => Emptied w ∧ Accounted env w ∧ w.spool.checkpointOffset = rd)
      (.memory RequestLogSpool.reset)
      (fun w => Exact env w ∧ w.spool.checkpointOffset = 0) where
  stable := Contract.stable_alone
  halt := fun _ hw => ⟨⟨.inr hw.1, hw.2.1⟩, hw.2.2⟩
  stop := fun _ hw _ => ⟨fun _ => id, ⟨.inr hw.1, hw.2.1⟩, hw.2.2⟩
  step := by
    rintro w u ⟨he, ha, -⟩ hr
    cases hr
    have hd : DoneAt env.crc w.accepted [] 0 := ⟨[], nil_prefix, forall_mem_nil _, rfl⟩
    refine ⟨fun _ => id, ⟨[], ⟨?_, rfl, ha.memory _⟩⟩, rfl⟩
    exact ⟨forall_mem_nil _, torn_nil, he.events, prefix_refl _, rfl, hd, 0, he.checkpoint, hd⟩

theorem fileBytes_truncate
    (hr : (Action.file (.truncate path)).run w = some u) : fileBytes u.files path = some [] := by
  obtain ⟨files, hf, rfl⟩ := Action.run_file hr
  cases hf
  rw [fileBytes, get_insert_self]
  rfl

theorem fileBytes_append (hb : fileBytes w.files path = some pre)
    (hr : (Action.file (.append path bs)).run w = some u) :
    fileBytes u.files path = some (pre ++ bs) := by
  obtain ⟨found, hf, ha⟩ := fileBytes_edit (f := (· ++ bs)) (fun _ => rfl) hr
  cases hf.symm.trans hb
  exact ha

theorem triple_temp (pre after : Option Bytes → Prop)
    (he : op.touches .events = false) (hc : op.touches .checkpoint = false)
    (ht : ∀ {w u : World Event}, pre (fileBytes w.files .checkpointTemp) →
      (Action.file op).run w = some u → after (fileBytes u.files .checkpointTemp)) :
    Action.machine.Triple (compactContract env rd)
      (fun w => Drained env rd w ∧ pre (fileBytes w.files .checkpointTemp)) (.file op)
      (fun w => Drained env rd w ∧ after (fileBytes w.files .checkpointTemp)) where
  stable := Contract.stable_alone
  halt := fun _ hw => hw.1.stopped
  stop := fun w hw kept =>
    have h := sameLog_of_cut he hc kept w
    ⟨h.keepsAll, (h.drained hw.1).stopped⟩
  step := fun _ _ hw hr =>
    have h := sameLog_of_run he hc hr
    ⟨h.keepsAll, h.drained hw.1, ht hw.2 hr⟩

theorem safe_compactOps (hw : Drained env rd w) :
    Action.machine.Safe (compactContract env rd)
      (fun w => Exact env w ∧ w.spool.checkpointOffset = 0)
      (compactOps.map .file ++ [.memory RequestLogSpool.reset]) w := by
  refine safe_cons (triple_untouched rfl rfl (fun h => h.drained) (fun _ h => h.stopped))
    (fun w1 h1 => ?_) hw
  refine safe_cons (triple_temp (fun _ => True) (· = some [])
    rfl rfl (fun _ hr => fileBytes_truncate hr)) (fun w2 h2 => ?_) ⟨h1, trivial⟩
  refine safe_cons (triple_temp (· = some []) (· = some (leBytes 8 0))
    rfl rfl (fun he hr => fileBytes_append he hr)) (fun w3 h3 => ?_) h2
  refine safe_cons (triple_temp (· = some (leBytes 8 0)) (· = some (leBytes 8 0))
    rfl rfl (fun hz hr => (fileBytes_run hr rfl).trans hz)) (fun w4 h4 => ?_) h3
  refine safe_cons triple_rename_zero (fun w5 h5 => ?_) h4
  refine safe_cons (triple_untouched
    (P := fun w => Drained env rd w ∧ CheckpointAt w.files 0) rfl rfl
    (fun h hz => ⟨h.drained hz.1, h.checkpointAt hz.2⟩) (fun _ h => h.1.stopped))
    (fun w6 h6 => ?_) h5
  refine safe_cons triple_truncate (fun w7 h7 => ?_) h6
  refine safe_cons (triple_untouched
    (P := fun w => Emptied w ∧ Accounted env w ∧ w.spool.checkpointOffset = rd) rfl rfl
    (fun h he => ⟨h.emptied he.1, h.accounted he.2.1, h.checkpointOffset.trans he.2.2⟩)
    (fun _ h => ⟨⟨.inr h.1, h.2.1⟩, h.2.2⟩)) (fun w8 h8 => ?_) h7
  exact safe_cons triple_reset (fun w9 h9 => safe_nil Contract.stable_alone h9) h8

variable {offset : ℕ}

/-- The files an opening finds, and those it leaves the events file as when the tail is gone. -/
structure Restored (env : SpoolEnv Event) (log : List EncodedRequestLog) (tail : Bytes)
    (offset : ℕ) (w : World Event) : Prop where
  bounded : Bounded log
  torn : Torn env.crc tail
  events : w.events = frames env.crc log ++ tail
  checkpoint : CheckpointAt w.files offset
  done : DoneAt env.crc w.accepted log offset
  accounted : Accounted env w

/-- The memory that fits a list of records and a checkpoint. -/
structure Fits (env : SpoolEnv Event) (log : List EncodedRequestLog) (offset : ℕ)
    (spool : RequestLogSpool) : Prop where
  writerEnd : spool.writerEnd = (frames env.crc log).length
  endOffset : spool.endOffset = (frames env.crc log).length
  checkpointOffset : spool.checkpointOffset = offset

theorem Restored.recoverable (h : Restored env log tail offset w) : Recoverable env w :=
  ⟨⟨log, tail, h.bounded, h.torn, h.events, offset, h.checkpoint, h.done⟩, h.accounted⟩

variable {opened : Prop}

theorem SameLog.restored (h : SameLog w u)
    (hw : Restored env log tail offset w) : Restored env log tail offset u :=
  ⟨hw.bounded, hw.torn, h.world_events.trans hw.events, h.checkpointAt hw.checkpoint,
    h.accepted ▸ hw.done, h.accounted hw.accounted⟩

theorem SameLog.fits (h : SameLog w u) (hw : Fits env log offset w.spool) :
    Fits env log offset u.spool :=
  ⟨h.writerEnd.trans hw.writerEnd, h.endOffset.trans hw.endOffset,
    h.checkpointOffset.trans hw.checkpointOffset⟩

/-- The files an opening works on once the events file exists; the memory only fits them when
the admissions could be opened too. -/
def Reopened (env : SpoolEnv Event) (log : List EncodedRequestLog) (tail : Bytes) (offset : ℕ)
    (opened : Prop) (w : World Event) : Prop :=
  Restored env log tail offset w ∧ (fileBytes w.files .events).isSome ∧
    (opened → Fits env log offset w.spool)

theorem SameLog.reopened (h : SameLog w u)
    (hw : Reopened env log tail offset opened w) : Reopened env log tail offset opened u :=
  ⟨h.restored hw.1, by rw [h.events]; exact hw.2.1, fun hop => h.fits (hw.2.2 hop)⟩

theorem Reopened.exact (h : Reopened env log [] offset opened w)
    (hop : opened) : Exact env w := by
  obtain ⟨hw, hp, hf⟩ := h
  obtain ⟨bs, hb⟩ := isSome_iff_exists.mp hp
  have hf := hf hop
  have he : bs = frames env.crc log ++ [] := (events_of_fileBytes hb).symm.trans hw.events
  refine ⟨log, ⟨hw.bounded, torn_nil, he ▸ hb, prefix_refl _, hf.endOffset,
    hf.checkpointOffset ▸ hw.done, offset, hw.checkpoint, hw.done⟩, hf.writerEnd, hw.accounted⟩

theorem readCheckpoint_of_checkpointAt {files : SpoolFiles} (h : CheckpointAt files offset)
    (hof : offset < 2 ^ 64) : readCheckpoint (fileBytes files .checkpoint) = .ok offset := by
  rcases h with ⟨hn, rfl⟩ | hs
  · rw [hn]
    rfl
  · rw [hs, readCheckpoint, if_neg (not_not.mpr (length_leBytes 8 _)),
      leNat_leBytes_of_lt (by omega)]

theorem length_events_le (w : World Event) : w.events.length ≤ maxFileBytes := by
  unfold World.events fileBytes
  cases w.files.get .events with
  | none => exact Nat.zero_le _
  | some ct => exact ct.property

theorem Restored.offset_lt (h : Restored env log tail offset w) : offset < 2 ^ 64 := by
  obtain ⟨done, hin, -, rfl⟩ := h.done
  have hf := length_events_le w
  rw [h.events, length_append] at hf
  have hle := length_frames_le_of_prefix env.crc hin
  unfold maxFileBytes at hf
  omega

theorem Restored.scan (h : Restored env log tail offset w) :
    scanAndRepair env.crc w.events offset = .ok ⟨(frames env.crc log).length, true⟩ := by
  obtain ⟨next, hn, kept, hk, ht⟩ := h.torn
  obtain ⟨flag, hs, hf⟩ := scanAndRepair_torn (length_events_le w) h.bounded hn hk
    (ht ▸ h.events) offset
  obtain ⟨done, hin, -, hof⟩ := h.done
  rw [hs, hf.mpr (mem_boundaries.mpr ⟨done, hin, hof.symm⟩)]

theorem run_create (hr : (Action.file (.create .events)).run w = some u) :
    u.events = w.events ∧ (fileBytes u.files .events).isSome := by
  obtain ⟨files, hf, rfl⟩ := Action.run_file hr
  cases hf
  unfold World.events fileBytes
  cases hg : w.files.get .events with
  | none =>
    exact ⟨rfl, rfl⟩
  | some ct =>
    rw [isSome_some, if_pos rfl, hg]
    exact ⟨rfl, rfl⟩

theorem triple_create (opened : Prop) :
    Action.machine.Triple (openContract env)
      (fun w => Restored env log tail offset w ∧ (opened → Fits env log offset w.spool))
      (.file (.create .events)) (Reopened env log tail offset opened) where
  stable := Contract.stable_alone
  halt := fun _ hw => hw.1.recoverable
  stop := fun _ hw _ => ⟨fun _ => id, hw.1.recoverable⟩
  step := by
    rintro w u ⟨hw, hf⟩ hr
    change (Action.file (.create .events)).run w = some u at hr
    have hc : fileBytes u.files .checkpoint = fileBytes w.files .checkpoint := fileBytes_run hr rfl
    have he := run_create hr
    obtain ⟨hs, ha, hh⟩ := Action.run_file_same hr
    have hk : KeepsAll env w u := by
      intro rec hke
      unfold Kept
      rwa [ha, he.1]
    refine ⟨hk, ⟨hw.bounded, hw.torn, he.1.trans hw.events, ?_, ha ▸ hw.done,
      hk.accounted hh (fun _ h => he.1 ▸ h) hw.accounted⟩, he.2, hs ▸ hf⟩
    unfold CheckpointAt
    rw [hc]
    exact hw.checkpoint

/-- The repair cuts the torn tail off and no complete frame. -/
theorem triple_repair (opened : Prop) :
    Action.machine.Triple (openContract env) (Reopened env log tail offset opened)
      (.file (.setLen .events (frames env.crc log).length))
      (Reopened env log [] offset opened) where
  stable := Contract.stable_alone
  halt := fun _ hw => hw.1.recoverable
  stop := fun _ hw _ => ⟨fun _ => id, hw.1.recoverable⟩
  step := by
    rintro w u ⟨hw, -, hf⟩ hr
    have hc : fileBytes u.files .checkpoint = fileBytes w.files .checkpoint := fileBytes_run hr rfl
    have he : fileBytes u.files .events = some (frames env.crc log) := by
      obtain ⟨pre, hb, haf⟩ := fileBytes_edit
        (f := (resize · (frames env.crc log).length)) (fun _ => rfl) hr
      rw [haf, ← events_of_fileBytes hb, hw.events,
        resize_of_le (by rw [length_append]; exact Nat.le_add_right _ _), take_left]
    have hwo : u.events = frames env.crc log := events_of_fileBytes he
    obtain ⟨hsp, ha, hhi⟩ := Action.run_file_same hr
    have hk : KeepsAll env w u := by
      rintro rec (hm | hh)
      · exact .inl (ha ▸ hm)
      · rw [hw.events] at hh
        right
        rw [hwo, ← append_nil (frames env.crc log)]
        exact holds_of_mem hw.bounded (hh.mem hw.bounded hw.torn) []
    have hs : ∀ rec, Holds env.crc u.events rec → Holds env.crc w.events rec := by
      intro rec hh
      rw [hwo] at hh
      rw [hw.events]
      exact hh.mono (prefix_append _ _)
    refine ⟨hk, ⟨hw.bounded, torn_nil, by rw [hwo, append_nil], ?_, ha ▸ hw.done,
      hk.accounted hhi hs hw.accounted⟩, by rw [he]; rfl, hsp ▸ hf⟩
    unfold CheckpointAt
    rw [hc]
    exact hw.checkpoint

theorem triple_reopened (he : op.touches .events = false)
    (hc : op.touches .checkpoint = false) :
    Action.machine.Triple (openContract env) (Reopened env log tail offset opened) (.file op)
      (Reopened env log tail offset opened) :=
  triple_untouched he hc (fun h => h.reopened) (fun _ hw => hw.1.recoverable)

theorem safe_repairOps (opened : Prop) (hw : Restored env log tail offset w)
    (hf : opened → Fits env log offset w.spool) :
    Action.machine.Safe (openContract env) (Reopened env log [] offset opened)
      ((repairOps w.events (frames env.crc log).length).map .file) w := by
  refine safe_cons (triple_create opened) (fun w1 h1 => ?_) ⟨hw, hf⟩
  split_ifs with hto
  · refine safe_cons (triple_repair opened) (fun w2 h2 => ?_) h1
    exact safe_cons (triple_reopened rfl rfl)
      (fun w3 h3 => safe_nil Contract.stable_alone h3) h2
  · have ht : tail = [] := by
      rw [hw.events, length_append] at hto
      exact length_eq_zero_iff.mp (by omega)
    subst ht
    exact safe_nil Contract.stable_alone h1

theorem openIds_ops (crc : Bytes → UInt32) (codec : JournalCodec Event) (files : SpoolFiles)
    (ids : List Uuid) : ∀ op ∈ (openIds crc codec files ids).1, ∃ id slot,
      fileBytes files (.slot id) = some slot ∧ slot.length ≤ slotBytes ∧
      (op = .setLen (.slot id) (evidenceBytes slot) ∨ op = .sync (.slot id)) := by
  induction ids with
  | nil => simp [openIds]
  | cons id ids ih =>
    unfold openIds
    cases readTerminal crc codec id (fileBytes files (.slot id)) with
    | error err => simp
    | ok found =>
      cases found with
      | some ev => exact ih
      | none =>
        unfold retainUnknown
        cases hs : fileBytes files (.slot id) with
        | none => exact ih
        | some slot =>
          dsimp only
          split_ifs with hl
          · simp
          · intro op hop
            rcases mem_append.mp hop with hop | hop
            · exact ⟨id, slot, hs, Nat.le_of_not_lt hl, mem_pair.mp hop⟩
            · exact ih op hop

theorem safe_reappendPlan (spool : RequestLogSpool) (evs : List Event) (hw : Exact env w) :
    Action.machine.Safe (openContract env) (Exact env) (reappendPlan env spool evs).actions w := by
  induction evs generalizing spool w with
  | nil => exact safe_nil Contract.stable_alone hw
  | cons ev evs ih =>
    have hc := safe_appendPlan spool ev hw
    have ha : Action.machine.Safe (openContract env) (Exact env)
        (appendPlan env spool ev).actions w := by
      refine hc.mono ?_ ?_ ?_ (fun _ => id)
      · rintro s t rfl
        exact Beside.refl s
      · exact fun _ _ hg => Growth.keepsAll hg
      · exact fun _ hs => Sound.recoverable hs
    rw [reappendPlan]
    cases (appendPlan env spool ev).result with
    | error err => exact ha
    | ok bs => exact ha.append (fun _ he => ih _ he)

theorem safe_admissions (files : SpoolFiles) (hw : Reopened env log tail offset opened w) :
    Action.machine.Safe (openContract env) (Reopened env log tail offset opened)
      ((AdmissionStore.open env.crc env.codec files).1.map .file) w := by
  refine safe_cons (triple_reopened rfl rfl) (fun w1 h1 => ?_) hw
  refine safe_skip Contract.stable_alone (fun a ha => ?_) h1
  obtain ⟨op, hop, rfl⟩ := mem_map.mp ha
  obtain ⟨id, slot, -, -, rfl | rfl⟩ := openIds_ops env.crc env.codec files _ op hop
  · exact triple_reopened rfl rfl
  · exact triple_reopened rfl rfl

/-- An opening of what a stopped process left only depends on its admissions. -/
theorem Restored.openWithLimits (h : Restored env log tail offset w) :
    let repair := (repairOps w.events (frames env.crc log).length).map Action.file
    let admissions := AdmissionStore.open env.crc env.codec w.files
    RequestLog.openWithLimits env w.files = match admissions.2 with
      | .error err => ⟨repair ++ admissions.1.map .file, .closed, .error err⟩
      | .ok opened =>
        let spool := RequestLogSpool.opened (frames env.crc log).length offset opened.store
        let again := reappendPlan env spool opened.recovered
        ⟨repair ++ admissions.1.map .file ++ .file (.syncDirectory .spool) :: again.actions, spool,
          again.result⟩ := by
  have hs := h.scan
  unfold World.events at hs
  unfold RequestLog.openWithLimits
  rw [readCheckpoint_of_checkpointAt h.checkpoint h.offset_lt]
  dsimp only
  rw [hs]
  rfl

/-- Opening what a stopped process left: every point of it can be recovered from again, and
behind it the writer knows the events file. -/
theorem openWithLimits_safe (hw : Recoverable env w) :
    let opening := openWithLimits env w.files
    Action.machine.Safe (openContract env)
      (fun w => Recoverable env w ∧ (opening.result = .ok () → Exact env w)) opening.actions
      { w with spool := opening.spool } := by
  obtain ⟨⟨log, tail, hb, ht, he, offset, hat, hd⟩, hac⟩ := hw
  have hr : ∀ spool, Restored env log tail offset { w with spool := spool } :=
    fun spool => ⟨hb, ht, he, hat, hd, hac.memory spool⟩
  intro opening
  have hop : opening = _ := (hr w.spool).openWithLimits
  cases ha : (AdmissionStore.open env.crc env.codec w.files).2 with
  | error err =>
    simp only [ha] at hop
    rw [hop]
    refine ((safe_repairOps False (hr _) False.elim).append
      (fun w1 h1 => safe_admissions w.files h1)).imp ?_
    exact fun w2 h2 => ⟨h2.1.recoverable, fun hok => by cases hok⟩
  | ok opened =>
    simp only [ha] at hop
    rw [hop]
    have hf : True → Fits env log offset
        (RequestLogSpool.opened (frames env.crc log).length offset opened.store) :=
      fun _ => ⟨rfl, rfl, rfl⟩
    have hs := (safe_repairOps True (hr _) hf).append (fun w1 h1 => safe_admissions w.files h1)
    refine (hs.append (fun w2 h2 => ?_))
    refine safe_cons (triple_reopened rfl rfl) (fun w3 h3 => ?_) h2
    refine (safe_reappendPlan _ opened.recovered (h3.exact trivial)).imp ?_
    exact fun w4 h4 => ⟨h4.sound.recoverable, fun _ => h4⟩

end Assertions
end AiGateway.RequestLog
