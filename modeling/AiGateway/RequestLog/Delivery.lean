import AiGateway.RequestLog.Log

/-! The spool and its ingest worker together: no move of any thread, no crash and no restart loses
a record before the database has accepted it. -/
namespace AiGateway.RequestLog
open Domain Lib List

section Frames
variable (crc : Bytes → UInt32) {a b log : List EncodedRequestLog}

theorem length_frames_pos (h : a ≠ []) : 0 < (frames crc a).length := by
  cases a with
  | nil => exact absurd rfl h
  | cons rec a =>
    rw [frames_cons, length_append, length_frame]
    have := frameHeaderBytes_pos
    omega

/-- Of two front parts of a log the one with fewer bytes is the front part of the other. -/
theorem prefix_of_length_frames_le (ha : a <+: log) (hb : b <+: log)
    (h : (frames crc a).length ≤ (frames crc b).length) : a <+: b := by
  rcases prefix_or_prefix_of_prefix ha hb with hab | ⟨more, rfl⟩
  · exact hab
  · rw [frames_append, length_append] at h
    by_cases hm : more = []
    · rw [hm, append_nil]
    · have hp := length_frames_pos crc hm
      omega

end Frames

section Worker
variable {Event : Type} {env : SpoolEnv Event} {w u : World Event} {batch : SpoolReadBatch}
  {rd off : ℕ}

/-- A batch the reader took from behind the checkpoint. -/
structure Batch (env : SpoolEnv Event) (w : World Event) (batch : SpoolReadBatch) (reader : ℕ) :
    Prop where
  nonempty : batch.records ≠ []
  bounded : Bounded batch.records
  start : batch.startOffset = w.spool.checkpointOffset
  finish : batch.endOffset = w.spool.checkpointOffset + (frames env.crc batch.records).length
  reader : reader = batch.endOffset
  content : ∃ rest, w.events.drop w.spool.checkpointOffset = frames env.crc batch.records ++ rest

inductive Persisting (files : SpoolFiles) (offset : ℕ) : List SpoolOp → Prop where
  | start : Persisting files offset (persistCheckpointOps offset false)
  | truncated (h : fileBytes files .checkpointTemp = some []) :
    Persisting files offset [.append .checkpointTemp (leBytes 8 offset),
      .rename .checkpointTemp .checkpoint]
  | written (h : fileBytes files .checkpointTemp = some (leBytes 8 offset)) :
    Persisting files offset [.rename .checkpointTemp .checkpoint]
  | renamed : Persisting files offset []

/-- What the worker knows at each point of its loop. -/
def WorkerSound (env : SpoolEnv Event) (w : World Event) (reader : ℕ) : Worker → Prop
  | .reading | .checking | .locking _ | .compacting => reader = w.spool.checkpointOffset
  | .accepting batch => Batch env w batch reader
  | .committed batch => Batch env w batch reader ∧ ∀ r ∈ batch.records, r ∈ w.accepted
  | .checkpointing batch ops => Batch env w batch reader ∧ (∀ r ∈ batch.records, r ∈ w.accepted) ∧
      batch.endOffset ≤ w.spool.endOffset ∧ Persisting w.files batch.endOffset ops
  | .stopped => True

theorem Batch.drop_ne_nil (h : Batch env w batch rd) :
    w.events.drop w.spool.checkpointOffset ≠ [] := by
  obtain ⟨rest, hr⟩ := h.content
  intro hn
  have hp := length_frames_pos env.crc h.nonempty
  rw [hn] at hr
  have hl := congrArg List.length hr
  rw [length_append, length_nil] at hl
  omega

theorem Growth.keepsBatch (h : Growth w u) (hbatch : Batch env w batch rd) :
    Batch env u batch rd := by
  obtain ⟨more, hm⟩ := h.events
  have hne := hbatch.drop_ne_nil
  obtain ⟨rest, hr⟩ := hbatch.content
  refine ⟨hbatch.nonempty, hbatch.bounded, ?_, ?_, hbatch.reader, rest ++ more, ?_⟩
  · rw [h.checkpointOffset]
    exact hbatch.start
  · rw [h.checkpointOffset]
    exact hbatch.finish
  · have hle : w.spool.checkpointOffset ≤ w.events.length := by
      by_contra hlt
      exact hne (drop_eq_nil_of_le (by omega))
    rw [h.checkpointOffset, ← hm, drop_append_of_le_length hle, hr, append_assoc]

theorem Growth.keepsPersisting (h : Growth w u) {ops : List SpoolOp}
    (hop : Persisting w.files off ops) : Persisting u.files off ops := by
  cases hop with
  | start => exact .start
  | truncated ht => exact .truncated (h.temp.trans ht)
  | written ht => exact .written (h.temp.trans ht)
  | renamed => exact .renamed

variable {wk : Worker}

theorem Growth.workerSound (h : Growth w u)
    (hw : WorkerSound env w rd wk) : WorkerSound env u rd wk := by
  cases wk with
  | reading | checking | locking pressure | compacting => exact hw.trans h.checkpointOffset.symm
  | accepting batch => exact h.keepsBatch hw
  | committed batch => exact ⟨h.keepsBatch hw.1, h.accepted ▸ hw.2⟩
  | checkpointing batch ops =>
    exact ⟨h.keepsBatch hw.1, h.accepted ▸ hw.2.1, hw.2.2.1.trans h.endOffset,
      h.keepsPersisting hw.2.2.2⟩
  | stopped => trivial

variable {log pub : List EncodedRequestLog}

/-- The records of a batch stand right behind the checkpoint. -/
theorem Live.doneAt_batch {tail : Bytes}
    (h : Live env w log tail pub) (hbatch : Batch env w batch rd)
    (haccepted : ∀ r ∈ batch.records, r ∈ w.accepted) (hend : batch.endOffset ≤ w.spool.endOffset) :
    DoneAt env.crc w.accepted pub batch.endOffset := by
  obtain ⟨done, hdo, hd, hof⟩ := h.done
  obtain ⟨more, hm⟩ := hdo.trans h.visible
  obtain ⟨rest, hre⟩ := hbatch.content
  have hb : frames env.crc batch.records ++ rest = frames env.crc more ++ tail := by
    rw [← hre, h.world_events, ← hm, frames_append, hof, append_assoc, drop_left]
  have hlo : done ++ batch.records <+: log := by
    obtain ⟨others, hot⟩ := prefix_of_frames_append_eq hbatch.bounded
      (fun r hr => h.bounded r (hm ▸ mem_append_right done hr)) h.torn hb
    exact ⟨others, by rw [append_assoc, hot, hm]⟩
  have hl : batch.endOffset = (frames env.crc (done ++ batch.records)).length := by
    rw [hbatch.finish, hof, frames_append, length_append]
  refine ⟨done ++ batch.records, ?_, ?_, hl⟩
  · refine prefix_of_length_frames_le env.crc hlo h.visible ?_
    rw [← hl, ← h.endOffset]
    exact hend
  · intro r hr
    rcases mem_append.mp hr with hr | hr
    · exact hd r hr
    · exact haccepted r hr

theorem Emptied.not_batch (h : Emptied w) : ¬ Batch env w batch rd := by
  intro hbatch
  refine hbatch.drop_ne_nil ?_
  rw [h.world_events, drop_nil]

theorem beside_accepted (w : World Event) (recs : List EncodedRequestLog) :
    Beside env w { w with accepted := w.accepted ++ recs } where
  files := fun _ _ _ => rfl
  spool := rfl
  accepted := subset_append_left _ _
  history := rfl
  live := by
    intro log tail pub h
    obtain ⟨off, hat, hd⟩ := h.checkpoint
    have hm := subset_append_left w.accepted recs
    exact ⟨h.bounded, h.torn, h.events, h.visible, h.endOffset,
      h.done.mono hm (prefix_refl _), off, hat, hd.mono hm (prefix_refl _)⟩
  emptied := fun h => ⟨h.events, h.checkpoint, h.drained⟩

/-- The temporary file of the checkpoint is nobody else's. -/
theorem beside_temp {op : SpoolOp} (hon : ∀ path, path ≠ .checkpointTemp → op.touches path = false)
    (hru : (Action.file op).run w = some u) : Beside env w u := by
  have hs : SameLog w u := sameLog_of_run (hon _ (by decide)) (hon _ (by decide)) hru
  obtain ⟨hsp, ha, hh⟩ := Action.run_file_same hru
  exact ⟨fun path _ ht => fileBytes_run hru (hon path ht), by rw [hsp],
    fun _ hr => ha ▸ hr, hh, fun _ _ _ => hs.live, hs.emptied⟩

section
variable (hbatch : Batch env w batch rd) (haccepted : ∀ r ∈ batch.records, r ∈ w.accepted)
  (hend : batch.endOffset ≤ w.spool.endOffset)
include hbatch haccepted hend

theorem beside_rename (hte : fileBytes w.files .checkpointTemp = some (leBytes 8 batch.endOffset))
    (hru : (Action.file (.rename .checkpointTemp .checkpoint)).run w = some u) :
    Beside env w u := by
  have hf : ∀ path, path ≠ .checkpoint → path ≠ .checkpointTemp →
      fileBytes u.files path = fileBytes w.files path := by
    intro path hc ht
    refine fileBytes_run hru ?_
    simp [FileOp.touches, hc.symm, ht.symm]
  have hch : CheckpointAt u.files batch.endOffset := by
    obtain ⟨files, hre, rfl⟩ := Action.run_file hru
    obtain ⟨ct, hg, rfl⟩ := Option.map_eq_some_iff.mp hre
    right
    rw [fileBytes, hg] at hte
    exact hte
  obtain ⟨hs, ha, hh⟩ := Action.run_file_same hru
  refine ⟨hf, by rw [hs], fun _ hr => ha ▸ hr, hh, ?_, ?_⟩
  · intro log tail pub h
    have hd := h.doneAt_batch hbatch haccepted hend
    refine ⟨h.bounded, h.torn, (hf _ (by decide) (by decide)).trans h.events, h.visible, ?_, ?_,
      batch.endOffset, hch, ha ▸ hd⟩
    · rw [hs]
      exact h.endOffset
    · rw [hs, ha]
      exact h.done
  · exact fun he => absurd hbatch he.not_batch

theorem beside_store :
    Beside env w { w with spool := w.spool.storeCheckpoint batch.endOffset } where
  files := fun _ _ _ => rfl
  spool := rfl
  accepted := List.Subset.refl _
  history := rfl
  live := fun _ _ _ h => ⟨h.bounded, h.torn, h.events, h.visible, h.endOffset,
    h.doneAt_batch hbatch haccepted hend, h.checkpoint⟩
  emptied := fun he => absurd hbatch he.not_batch

end

/-- What the worker reads behind its checkpoint. -/
theorem readBatch_live {tail : Bytes}
    (h : Live env w log tail pub) (hre : rd = w.spool.checkpointOffset)
    (mr : ℕ) : ∃ pend, Bounded pend ∧
      (∃ rest, w.events.drop w.spool.checkpointOffset = frames env.crc pend ++ rest) ∧
      readBatch env.crc w.events w.spool.endOffset rd mr =
        (.ok ⟨pend.take mr, w.spool.checkpointOffset, w.spool.checkpointOffset +
            (frames env.crc (pend.take mr)).length⟩,
          w.spool.checkpointOffset + (frames env.crc (pend.take mr)).length) := by
  obtain ⟨done, ⟨pend, rfl⟩, -, hof⟩ := h.done
  obtain ⟨extra, rfl⟩ := h.visible
  have hb : Bounded pend := fun r hr =>
    h.bounded r (mem_append_left extra (mem_append_right done hr))
  have hd : w.events.drop w.spool.checkpointOffset =
      frames env.crc pend ++ (frames env.crc extra ++ tail) := by
    rw [h.world_events, hof, frames_append, frames_append, append_assoc, append_assoc, drop_left]
  have hend : w.spool.endOffset = w.spool.checkpointOffset + (frames env.crc pend).length := by
    rw [h.endOffset, hof, frames_append, length_append]
  refine ⟨pend, hb, ⟨_, hd⟩, ?_⟩
  rw [hre, hend]
  exact readBatch_frames (length_events_le w) hb hd mr

def WorkerStep (env : SpoolEnv Event) (w : World Event) (call : Option (List (Action Event)))
    (s : System Event) : Prop :=
  ∃ u worker reader, s = ⟨u, .running call worker reader⟩ ∧ Beside env w u ∧
    WorkerSound env u reader worker ∧ worker ≠ .compacting

theorem readStep_sound (h : Sound env w) (hre : rd = w.spool.checkpointOffset)
    (call : Option (List (Action Event))) (mr : ℕ) :
    WorkerStep env w call (readStep env mr w call rd) := by
  have he : (fileBytes w.files .events).getD [] = w.events := rfl
  unfold readStep
  rw [he]
  rcases h.1 with ⟨log, tail, pub, hl⟩ | hem
  · obtain ⟨pend, hb, ⟨rest, hrs⟩, hbatch⟩ := readBatch_live hl hre mr
    rw [hbatch]
    dsimp only
    split_ifs with hn
    · refine ⟨w, .checking, _, rfl, .refl w, ?_, Worker.noConfusion⟩
      rw [hn]
      rfl
    · refine ⟨w, _, _, rfl, .refl w, ⟨hn, ?_, rfl, rfl, rfl,
        frames env.crc (pend.drop mr) ++ rest, ?_⟩, Worker.noConfusion⟩
      · exact fun r hr => hb r (mem_of_mem_take hr)
      · rw [hrs, ← append_assoc, ← frames_append, take_append_drop]
  · have hbatch : readBatch env.crc w.events w.spool.endOffset rd mr = (.ok ⟨[], rd, rd⟩, rd) := by
      unfold readBatch
      rw [if_pos (.inr (by rw [hre, hem.drained]))]
    rw [hbatch]
    exact ⟨w, .checking, rd, rfl, .refl w, hre, Worker.noConfusion⟩

def SystemSound (env : SpoolEnv Event) (s : System Event) : Prop :=
  match s.process with
  | .down => Recoverable env s.world
  | .opening actions result =>
    Action.machine.Safe (openContract env)
      (fun w => Recoverable env w ∧ (result = .ok () → Exact env w)) actions s.world
  | .running none worker reader =>
    Idle env s.world ∧ WorkerSound env s.world reader worker ∧ worker ≠ .compacting
  | .running (some actions) worker reader =>
    (worker = .compacting ∧ Action.machine.Safe (compactContract env reader)
      (fun w => Exact env w ∧ w.spool.checkpointOffset = 0) actions s.world) ∨
    (worker ≠ .compacting ∧ WorkerSound env s.world reader worker ∧
      Action.machine.Safe (callContract env) (Idle env) actions s.world)

theorem Sound.latched (h : Sound env w) : Idle env { w with spool := w.spool.latch } := by
  refine ⟨⟨?_, h.2.memory _⟩, fun hf => by cases hf⟩
  rcases h.1 with ⟨log, tail, pub, hl⟩ | he
  · exact .inl ⟨log, tail, pub, hl.bounded, hl.torn, hl.events, hl.visible,
      hl.endOffset, hl.done, hl.checkpoint⟩
  · exact .inr ⟨he.events, he.checkpoint, he.drained⟩

theorem Growth.latch (h : Growth w u) : Growth w { u with spool := u.spool.latch } :=
  ⟨h.events, h.checkpoint, h.temp, h.checkpointOffset, h.endOffset, h.accepted⟩

theorem afterCall_of_ne (h : wk ≠ .compacting) (succeeded : Bool) :
    wk.afterCall succeeded rd = (wk, rd) := by
  cases wk with
  | compacting => exact absurd rfl h
  | reading | accepting batch | committed batch | checkpointing batch ops | checking
  | locking pressure | stopped => rfl

/-- A call that fails, for whatever reason, leaves a latched writer and nothing lost. -/
theorem failCall_sound {act : Action Event} {rest : List (Action Event)}
    (h : SystemSound env ⟨w, .running (some (act :: rest)) wk rd⟩) (kept : ℕ) :
    SystemSound env (failCall kept act w wk rd) ∧
      KeepsAll env w (failCall kept act w wk rd).world := by
  rcases h with ⟨rfl, hsa⟩ | ⟨hne, hw, hsa⟩
  · obtain ⟨hk, hs, hof⟩ := hsa.stop kept
    exact ⟨⟨Sound.latched hs, hof.symm, Worker.noConfusion⟩, hk⟩
  · obtain ⟨hg, hs⟩ := hsa.stop kept
    unfold failCall
    rw [afterCall_of_ne hne]
    have hl := Growth.latch hg
    exact ⟨⟨Sound.latched hs, hl.workerSound hw, hne⟩, hl.keepsAll⟩

/-- The world of the system after a step, and what the step has to show. -/
def Advances (env : SpoolEnv Event) (w : World Event) (s : System Event) : Prop :=
  SystemSound env s ∧ KeepsAll env w s.world

variable {proc : Process Event} {s s' : System Event} {call : Option (List (Action Event))}
  {op : SpoolOp} {ops : List SpoolOp}

theorem advances_same (h : SystemSound env ⟨w, proc⟩) :
    Advances env w ⟨w, proc⟩ := ⟨h, fun _ => id⟩

theorem WorkerStep.advances (hs : WorkerStep env w call s)
    (h : SystemSound env ⟨w, .running call wk rd⟩) (hne : wk ≠ .compacting) :
    Advances env w s := by
  obtain ⟨u, wk', rd', rfl, hb, hw, hne'⟩ := hs
  refine ⟨?_, fun _ => hb.kept⟩
  cases call with
  | none => exact ⟨hb.idle h.1, hw, hne'⟩
  | some acts =>
    rcases h with ⟨heq, -⟩ | ⟨-, -, hsa⟩
    · exact absurd heq hne
    · exact .inr ⟨hne', hw, hsa.interfere hb⟩

theorem SystemSound.worker
    (h : SystemSound env ⟨w, .running call wk rd⟩) (hne : wk ≠ .compacting) :
    WorkerSound env w rd wk := by
  cases call with
  | none => exact h.2.1
  | some acts =>
    rcases h with ⟨heq, -⟩ | ⟨-, hw, -⟩
    · exact absurd heq hne
    · exact hw

theorem Safe.sound {acts : List (Action Event)}
    (h : Action.machine.Safe (callContract env) (Idle env) acts w) : Sound env w := by
  cases acts with
  | nil => exact h.done.1
  | cons act rest => exact h.halt

theorem SystemSound.sound
    (h : SystemSound env ⟨w, .running call wk rd⟩) (hne : wk ≠ .compacting) :
    Sound env w := by
  cases call with
  | none => exact h.1.1
  | some acts =>
    rcases h with ⟨heq, -⟩ | ⟨-, -, hs⟩
    · exact absurd heq hne
    · exact Safe.sound hs

/-- A checkpoint call that is stopped leaves at most a partial temporary file. -/
theorem Persisting.beside_cut (h : Persisting w.files off (op :: ops)) (kept : ℕ) :
    Beside env w ((Action.file op).cut kept w) := by
  cases h with
  | start => exact .refl w
  | written => exact .refl w
  | truncated =>
    rcases Action.cut_file (.append .checkpointTemp (leBytes 8 off)) kept w with
      heq | ⟨part, hp, hr⟩
    · rw [heq]
      exact .refl w
    · cases hp
      exact beside_temp (fun path hne => by simp [FileOp.touches, hne.symm]) hr

theorem Action.cut_file_spool (op : SpoolOp) (kept : ℕ) (w : World Event) :
    ((Action.file op).cut kept w).spool = w.spool := by
  rcases Action.cut_file op kept w with heq | ⟨part, -, hr⟩
  · rw [heq]
  · exact (Action.run_file_same hr).1

theorem WorkerSound.stopped (h : WorkerSound env w rd (.checkpointing batch (op :: ops)))
    (kept : ℕ) : WorkerStep env w call
      ⟨(Action.file op).cut kept w, .running call .reading batch.startOffset⟩ := by
  refine ⟨_, _, _, rfl, h.2.2.2.beside_cut kept, ?_, Worker.noConfusion⟩
  change _ = ((Action.file op).cut kept w).spool.checkpointOffset
  rw [Action.cut_file_spool]
  exact h.1.start

theorem checkpointing_sound (hw : WorkerSound env w rd (.checkpointing batch (op :: ops)))
    (hr : (Action.file op).run w = some u) :
    Beside env w u ∧ WorkerSound env u rd (.checkpointing batch ops) := by
  obtain ⟨hbatch, haccepted, hend, hop⟩ := hw
  obtain ⟨hs, ha, -⟩ := Action.run_file_same hr
  have hn : Beside env w u → Persisting u.files batch.endOffset ops →
      Beside env w u ∧ WorkerSound env u rd (.checkpointing batch ops) := by
    intro hb ho'
    refine ⟨hb, ⟨hbatch.nonempty, hbatch.bounded, ?_, ?_, hbatch.reader, ?_⟩, ?_, ?_, ho'⟩
    · rw [hs]
      exact hbatch.start
    · rw [hs]
      exact hbatch.finish
    · rw [hs, hb.world_events]
      exact hbatch.content
    · rw [ha]
      exact haccepted
    · rw [hs]
      exact hend
  cases hop with
  | start =>
    exact hn (beside_temp (fun path hne => by simp [FileOp.touches, hne.symm]) hr)
      (.truncated (fileBytes_truncate hr))
  | truncated ht =>
    exact hn (beside_temp (fun path hne => by simp [FileOp.touches, hne.symm]) hr)
      (.written (fileBytes_append ht hr))
  | written ht => exact hn (beside_rename hbatch haccepted hend ht hr) .renamed

theorem Exact.drained (h : Exact env w) (hre : rd = w.spool.checkpointOffset)
    (hend : w.spool.checkpointOffset = w.spool.writerEnd) : Drained env rd w := by
  obtain ⟨log, hw⟩ := h
  obtain ⟨done, hin, haccepted, hof⟩ := hw.1.done
  have hl : (frames env.crc log).length ≤ (frames env.crc done).length := by
    rw [← hof, hend, hw.2.1]
  have ha : log <+: done := prefix_of_length_frames_le env.crc (prefix_refl log) hin hl
  refine ⟨log, hw, fun r hr => haccepted r (ha.subset hr), hre.symm, ?_⟩
  rw [hre, hend, hw.2.1]

def Compacts (env : SpoolEnv Event) (w : World Event) (call : Option (List (Action Event)))
    (reader : ℕ) (s : System Event) : Prop :=
  call = none ∧ w.spool.failed = false ∧ Drained env reader w ∧ s = ⟨w, .running
    (some (compactOps.map .file ++ [.memory RequestLogSpool.reset])) .compacting reader⟩

theorem locking_sound {pressure : Bool}
    (h : SystemSound env ⟨w, .running none (.locking pressure) rd⟩)
    (hs : workStep env w none (.locking pressure) rd = some s) :
    WorkerStep env w none s ∨ Compacts env w none rd s := by
  obtain ⟨hid, hre, -⟩ := h
  have hr : WorkerStep env w none ⟨w, .running none .reading rd⟩ :=
    ⟨w, .reading, rd, rfl, .refl w, hre, Worker.noConfusion⟩
  simp only [workStep, compactPlan] at hs
  split_ifs at hs with hf hd
  · cases hs
    exact .inl hr
  · cases hs
    exact .inl hr
  · cases hs
    obtain ⟨hend, -⟩ := not_or.mp hd
    have hop := Bool.eq_false_iff.mpr hf
    exact .inr ⟨rfl, hop, (hid.2 hop).drained hre (not_not.mp hend), rfl⟩

theorem workStep_sound (h : SystemSound env ⟨w, .running call wk rd⟩)
    (hs : workStep env w call wk rd = some s) :
    WorkerStep env w call s ∨ Compacts env w call rd s := by
  have hsa : ∀ {wk' rd'}, WorkerSound env w rd' wk' → wk' ≠ .compacting →
      WorkerStep env w call ⟨w, .running call wk' rd'⟩ :=
    fun hw hne => ⟨w, _, _, rfl, .refl w, hw, hne⟩
  cases wk with
  | committed batch =>
    have hw := h.worker Worker.noConfusion
    simp only [workStep, checkpointOps] at hs
    split_ifs at hs with hin
    · cases hs
      exact .inl (hsa hw.1.start Worker.noConfusion)
    · cases hs
      exact .inl (hsa ⟨hw.1, hw.2, Nat.le_of_not_lt (not_or.mp hin).2, .start⟩ Worker.noConfusion)
  | checkpointing batch ops =>
    have hw := h.worker Worker.noConfusion
    cases ops with
    | nil =>
      cases hs
      exact .inl ⟨_, _, _, rfl, beside_store hw.1 hw.2.1 hw.2.2.1, hw.1.reader, Worker.noConfusion⟩
    | cons op ops =>
      simp only [workStep] at hs
      cases hr : (Action.file op).run w with
      | none =>
        rw [hr] at hs
        cases hs
        exact .inl (hw.stopped 0)
      | some u =>
        rw [hr] at hs
        cases hs
        obtain ⟨hb, hn⟩ := checkpointing_sound hw hr
        exact .inl ⟨u, _, _, rfl, hb, hn, Worker.noConfusion⟩
  | checking =>
    have hw := h.worker Worker.noConfusion
    simp only [workStep] at hs
    split_ifs at hs
    · cases hs
      exact .inl (hsa hw Worker.noConfusion)
    · cases hs
      exact .inl (hsa hw Worker.noConfusion)
  | locking pressure =>
    cases call with
    | none => exact locking_sound h hs
    | some acts => cases hs
  | reading | accepting batch | compacting | stopped => cases hs

theorem databaseStep_sound
    (hbatch : WorkerSound env w rd (.accepting batch)) (answer : DatabaseAnswer)
    (call : Option (List (Action Event))) :
    WorkerStep env w call (databaseStep answer batch w call rd) := by
  cases answer with
  | accepted =>
    refine ⟨_, _, _, rfl, beside_accepted w batch.records, ⟨?_, ?_⟩, Worker.noConfusion⟩
    · exact ⟨hbatch.nonempty, hbatch.bounded, hbatch.start, hbatch.finish, hbatch.reader,
        hbatch.content⟩
    · exact fun r hr => mem_append_right w.accepted hr
  | refused committed =>
    exact ⟨_, _, _, rfl, beside_accepted w _, hbatch.start, Worker.noConfusion⟩

def Move.isWorker : Move Event → Bool
  | .read _ | .database _ | .work | .workFail _ | .stop => true
  | .launch | .admitRequest _ _ | .append _ | .syncData | .perform | .fail _ | .crash _ _ => false

/-- What the worker can do: a step beside the calls, or the start of a compaction. -/
theorem worker_step {move : Move Event} (h : SystemSound env s)
    (hm : move.isWorker) (hs : s.step env move = some s') : ∃ call wk rd,
      s.process = .running call wk rd ∧ wk ≠ .compacting ∧
      (WorkerStep env s.world call s' ∨ Compacts env s.world call rd s') := by
  obtain ⟨w, proc⟩ := s
  cases move with
  | read mr =>
    simp only [System.step] at hs
    split at hs
    · rename_i call rd
      cases hs
      exact ⟨call, _, rd, rfl, Worker.noConfusion, .inl (readStep_sound
        (h.sound Worker.noConfusion) (h.worker Worker.noConfusion) call mr)⟩
    · cases hs
  | database answer =>
    simp only [System.step] at hs
    split at hs
    · cases hs
      exact ⟨_, _, _, rfl, Worker.noConfusion,
        .inl (databaseStep_sound (h.worker Worker.noConfusion) answer _)⟩
    · cases hs
  | work =>
    simp only [System.step] at hs
    split at hs
    · rename_i call wk rd
      refine ⟨call, wk, rd, rfl, ?_, workStep_sound h hs⟩
      rintro rfl
      cases hs
    · cases hs
  | workFail kept =>
    simp only [System.step] at hs
    split at hs
    · cases hs
      exact ⟨_, _, _, rfl, Worker.noConfusion, .inl ((h.worker Worker.noConfusion).stopped kept)⟩
    · cases hs
  | stop =>
    simp only [System.step] at hs
    split at hs
    · cases hs
      exact ⟨_, _, _, rfl, Worker.noConfusion,
        .inl ⟨w, .stopped, _, rfl, .refl w, trivial, Worker.noConfusion⟩⟩
    · cases hs
  | launch | admitRequest _ _ | append _ | syncData | perform | fail _ | crash _ _ => cases hm

/-- The moves that stop the process or leave a call, or an opening, with an action that failed. -/
def Interrupts (s : System Event) : Move Event → Prop
  | .crash _ _ | .fail _ => True
  | .perform =>
    match s.process with
    | .opening (action :: _) _ | .running (some (action :: _)) _ _ => action.run s.world = none
    | _ => False
  | _ => False

inductive Turn (env : SpoolEnv Event) (w : World Event) :
    Process Event → Move Event → System Event → Prop
  | launch : Turn env w .down .launch (launch env w)
  | admitRequest (intent : RequestLogIntent) (available : Option ℕ) :
    Turn env w (.running none worker reader) (.admitRequest intent available)
      ⟨w, .running (some (admitPlan env w.spool intent available).actions) worker reader⟩
  | append (event : Event) : Turn env w (.running none worker reader) (.append event)
      ⟨w, .running (some (appendPlan env w.spool event).actions) worker reader⟩
  | syncData : Turn env w (.running none worker reader) .syncData
      ⟨w, .running (some (syncDataPlan w.spool).actions) worker reader⟩
  | opened : Turn env w (.opening [] (.ok ⟨⟩)) .perform
      ⟨w, .running none .reading w.spool.checkpointOffset⟩
  | unopened (error : SpoolError) : Turn env w (.opening [] (.error error)) .perform ⟨w, .down⟩
  | openStep (h : action.run w = some w') :
    Turn env w (.opening (action :: rest) result) .perform ⟨w', .opening rest result⟩
  | openCut (kept : ℕ) (h : Interrupts ⟨w, .opening (action :: rest) result⟩ move) :
    Turn env w (.opening (action :: rest) result) move ⟨action.cut kept w, .down⟩
  | done : Turn env w (.running (some []) worker reader) .perform
      ⟨w, .running none (worker.afterCall true reader).1 (worker.afterCall true reader).2⟩
  | callStep (h : action.run w = some w') :
    Turn env w (.running (some (action :: rest)) worker reader) .perform
      ⟨w', .running (some rest) worker reader⟩
  | callCut (kept : ℕ) (h : Interrupts ⟨w, .running (some (action :: rest)) worker reader⟩ move) :
    Turn env w (.running (some (action :: rest)) worker reader) move
      (failCall kept action w worker reader)
  | worker (h : move.isWorker = true) : Turn env w process move result
  | crash (kept workerKept : ℕ) :
    Turn env w process (.crash kept workerKept) ⟨crash kept workerKept w process, .down⟩

theorem turn_of_step {move : Move Event} (h : System.step env ⟨w, proc⟩ move = some s) :
    Turn env w proc move s := by
  cases move with
  | launch =>
    simp only [System.step] at h
    split at h <;> cases h
    exact .launch
  | admitRequest intent av =>
    simp only [System.step] at h
    split at h <;> cases h
    exact .admitRequest intent av
  | append ev =>
    simp only [System.step] at h
    split at h <;> cases h
    exact .append ev
  | syncData =>
    simp only [System.step] at h
    split at h <;> cases h
    exact .syncData
  | perform =>
    simp only [System.step] at h
    revert h
    fun_cases perform w proc with
    | case1 => exact nofun
    | case2 err =>
      rintro ⟨⟩
      exact .unopened err
    | case3 =>
      rintro ⟨⟩
      exact .opened
    | case4 act rest res hr =>
      rintro ⟨⟩
      exact .openCut 0 hr
    | case5 act rest res u hr =>
      rintro ⟨⟩
      exact .openStep hr
    | case6 => exact nofun
    | case7 =>
      rintro ⟨⟩
      exact .done
    | case8 wk rd act rest hr =>
      rintro ⟨⟩
      exact .callCut 0 hr
    | case9 wk rd act rest u hr =>
      rintro ⟨⟩
      exact .callStep hr
  | fail kept =>
    simp only [System.step, fail] at h
    split at h
    · cases h
      exact .openCut kept trivial
    · cases h
      exact .callCut kept trivial
    · cases h
  | read _ | database _ | work | workFail _ | stop => exact .worker rfl
  | crash kept workerKept =>
    cases h
    exact .crash kept workerKept

theorem crashCall_sound
    (h : SystemSound env ⟨w, .running call wk rd⟩) (kept : ℕ) :
    Sound env (crashCall kept w (call.getD [])) ∧ KeepsAll env w (crashCall kept w (call.getD [])) ∧
      (wk ≠ .compacting → WorkerSound env (crashCall kept w (call.getD [])) rd wk) := by
  cases call with
  | none => exact ⟨h.1.1, fun _ => id, fun _ => h.2.1⟩
  | some acts =>
    rcases h with ⟨rfl, hs⟩ | ⟨hne, hw, hs⟩
    · cases acts with
      | nil => exact ⟨hs.done.1.sound, fun _ => id, fun hne => absurd rfl hne⟩
      | cons act rest =>
        obtain ⟨hk, hso, -⟩ := hs.stop kept
        exact ⟨hso, hk, fun hne => absurd rfl hne⟩
    · cases acts with
      | nil => exact ⟨hs.done.1, fun _ => id, fun _ => hw⟩
      | cons act rest =>
        obtain ⟨hg, hso⟩ := hs.stop kept
        exact ⟨hso, Growth.keepsAll hg, fun _ => Growth.workerSound hg hw⟩

theorem crashWorker_beside
    (h : wk ≠ .compacting → WorkerSound env w rd wk) (kept : ℕ) :
    Beside env w (crashWorker kept w wk) := by
  unfold crashWorker
  split
  · exact (h Worker.noConfusion).2.2.2.beside_cut kept
  · exact .refl w

/-- A crash at any point leaves what the next opening needs. -/
theorem crash_sound (h : SystemSound env ⟨w, proc⟩)
    (kept workerKept : ℕ) : Recoverable env (crash kept workerKept w proc) ∧
      KeepsAll env w (crash kept workerKept w proc) := by
  cases proc with
  | down => exact ⟨h, fun _ => id⟩
  | opening acts res =>
    cases acts with
    | nil => exact ⟨(Machine.Safe.done (m := Action.machine) h).1, fun _ => id⟩
    | cons act rest => exact (Machine.Safe.stop h kept).symm
  | running call wk rd =>
    obtain ⟨hs, hk, hw⟩ := crashCall_sound h kept
    have hb := crashWorker_beside hw workerKept
    exact ⟨(hb.sound hs).recoverable, fun rec hke =>
      hb.kept (hk rec hke)⟩

/-- Every move keeps the invariant, and every record that was kept. -/
theorem step_sound {move : Move Event} (h : SystemSound env s)
    (hst : s.step env move = some s') : Advances env s.world s' := by
  obtain ⟨w, proc⟩ := s
  have hc : ∀ {wk rd} {acts : List (Action Event)}, SystemSound env ⟨w, .running none wk rd⟩ →
      Action.machine.Safe (callContract env) (Idle env) acts w →
      Advances env w ⟨w, .running (some acts) wk rd⟩ :=
    fun hid hsa => advances_same (.inr ⟨hid.2.2, hid.2.1, hsa⟩)
  have hw : move.isWorker = true → Advances env w s' := by
    intro hm
    obtain ⟨call, wk, rd, rfl, hne, hs | ⟨rfl, -, hd, rfl⟩⟩ := worker_step h hm hst
    · exact hs.advances h hne
    · exact advances_same (.inl ⟨rfl, safe_compactOps hd⟩)
  cases turn_of_step hst with
  | launch => exact ⟨openWithLimits_safe h, fun _ => id⟩
  | admitRequest intent av => exact hc h (safe_of_neutral (neutral_admitPlan w.spool intent av) h.1)
  | append ev => exact hc h (append_safe ev h.1)
  | syncData => exact hc h (safe_of_neutral (neutral_syncDataPlan w.spool) h.1)
  | opened =>
    have hd := Machine.Safe.done (m := Action.machine) h
    exact advances_same ⟨(hd.2 rfl).idle, rfl, Worker.noConfusion⟩
  | unopened err => exact advances_same (Machine.Safe.done (m := Action.machine) h).1
  | openStep hr => exact (Machine.Safe.step h hr).symm
  | openCut kept _ => exact (Machine.Safe.stop h kept).symm
  | done =>
    rcases h with ⟨rfl, hsa⟩ | ⟨hne, hw, hsa⟩
    · obtain ⟨he, hz⟩ := hsa.done
      exact advances_same ⟨he.idle, hz.symm, Worker.noConfusion⟩
    · rw [afterCall_of_ne hne]
      exact advances_same ⟨hsa.done, hw, hne⟩
  | callStep hr =>
    rcases h with ⟨rfl, hsa⟩ | ⟨hne, hw, hsa⟩
    · obtain ⟨hk, hre⟩ := hsa.step hr
      exact ⟨.inl ⟨rfl, hre⟩, hk⟩
    · obtain ⟨hg, hre⟩ := hsa.step hr
      exact ⟨.inr ⟨hne, Growth.workerSound hg hw, hre⟩, Growth.keepsAll hg⟩
  | callCut kept _ => exact failCall_sound h kept
  | worker hm => exact hw hm
  | crash kept workerKept => exact crash_sound h kept workerKept

end Worker
end AiGateway.RequestLog
