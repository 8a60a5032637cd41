import AiGateway.RequestLog.TerminalSlots

/-! The capacity of the spool: admissions reserve the room that their terminal events take, so the
events file never grows past its limit. -/
namespace AiGateway.RequestLog
open Domain Lib List Machine

/-- The bound that the writer keeps: the bytes written and the bytes reserved. -/
def Within (limits : SpoolLimits) (writerEnd : ℕ) (store : AdmissionStore) : Prop :=
  saturatingAdd writerEnd store.reservedBytes ≤ limits.maxBytes

section Arithmetic
variable {limits : SpoolLimits} {store : AdmissionStore} {wend bs : ℕ} {m : ℕ}

theorem saturatingAdd_le_iff {a b : ℕ} (h : m < 2 ^ 64 - 1) : saturatingAdd a b ≤ m ↔ a + b ≤ m := by
  unfold saturatingAdd
  omega

/-- Below the largest number nothing saturates. -/
theorem within_iff (h : limits.maxBytes < 2 ^ 64 - 1) : Within limits wend store ↔
    wend + (store.ids.length * (2 * reservationBytes) + store.retainedBytes) ≤ limits.maxBytes := by
  rw [Within, AdmissionStore.reservedBytes]
  unfold saturatingAdd saturatingMul
  omega

theorem within_of_le (h : 2 ^ 64 - 1 ≤ limits.maxBytes) (wend : ℕ) (store : AdmissionStore) :
    Within limits wend store := (min_le_right _ _).trans h

/-- A frame of an admitted event takes less than was reserved for it. -/
theorem length_frame_le (crc : Bytes → UInt32) {rec : EncodedRequestLog}
    (h : rec.payload.length ≤ maxPayloadBytes) :
    (frame crc rec).length ≤ 2 * reservationBytes := by
  rw [length_frame]
  unfold frameHeaderBytes reservationBytes slotHeaderBytes
  omega

/-- The check of an admission leaves the room for its reservation. -/
theorem Within.insert (h : saturatingAdd (saturatingAdd wend store.reservedBytes)
    (2 * reservationBytes) ≤ limits.maxBytes) (id : Uuid) :
    Within limits wend { store with ids := id :: store.ids } := by
  by_cases hm : limits.maxBytes < 2 ^ 64 - 1
  · rw [saturatingAdd_le_iff hm] at h
    have hb : Within limits wend store := le_trans (Nat.le_add_right _ _) h
    have hs : saturatingAdd wend store.reservedBytes =
        wend + (store.ids.length * (2 * reservationBytes) + store.retainedBytes) := by
      have he := (within_iff hm).mp hb
      unfold saturatingAdd AdmissionStore.reservedBytes saturatingAdd saturatingMul
      omega
    rw [hs] at h
    rw [within_iff hm]
    dsimp only
    rw [length_cons, Nat.succ_mul]
    omega
  · exact within_of_le (Nat.le_of_not_lt hm) _ _

/-- The check of an append without a reservation leaves the room for its frame. -/
theorem Within.advance (h : saturatingAdd (saturatingAdd wend store.reservedBytes) bs ≤
    limits.maxBytes) : Within limits (wend + bs) store := by
  by_cases hm : limits.maxBytes < 2 ^ 64 - 1
  · rw [saturatingAdd_le_iff hm] at h
    rw [Within, saturatingAdd_le_iff hm]
    unfold saturatingAdd at h
    omega
  · exact within_of_le (Nat.le_of_not_lt hm) _ _

theorem Within.le_maxBytes (h : Within limits wend store) (he : wend < 2 ^ 64) :
    wend ≤ limits.maxBytes := by
  by_cases hm : limits.maxBytes < 2 ^ 64 - 1
  · have := (within_iff hm).mp h
    omega
  · omega

/-- No file is larger than that. -/
theorem Within.end_le (h : Within limits wend store) :
    min wend maxFileBytes ≤ limits.maxBytes := by
  by_cases he : wend < 2 ^ 64
  · exact (min_le_left _ _).trans (h.le_maxBytes he)
  · unfold Within saturatingAdd at h
    unfold maxFileBytes
    omega

/-- The reservation of a request pays for its frame. -/
theorem Within.retire {id : Uuid} (h : Within limits wend store) (hid : id ∈ store.ids)
    (hb : bs ≤ 2 * reservationBytes) :
    Within limits (wend + bs) { store with ids := store.ids.erase id } := by
  by_cases hm : limits.maxBytes < 2 ^ 64 - 1
  · rw [within_iff hm] at h ⊢
    dsimp only
    have hc : store.ids.length = (store.ids.erase id).length + 1 := (length_erase_add_one hid).symm
    rw [hc, Nat.succ_mul] at h
    omega
  · exact within_of_le (Nat.le_of_not_lt hm) _ _

theorem Within.reset (h : Within limits wend store) : Within limits 0 store := by
  refine le_trans ?_ h
  unfold saturatingAdd
  omega

variable {Event : Type} {env : SpoolEnv Event} {w u : World Event} {size : ℕ}
  {P Q : World Event → Prop}

/-- The size of the events file, the end that the writer knows and the reservations. -/
structure RoomAt (size writerEnd : ℕ) (store : AdmissionStore) (w : World Event) : Prop where
  size : w.events.length = size
  writerEnd : w.spool.writerEnd = writerEnd
  admissions : w.spool.admissions = store

/-- The spool between two calls. -/
structure Room (env : SpoolEnv Event) (w : World Event) : Prop where
  size : w.events.length ≤ env.limits.maxBytes
  within : w.spool.failed = false → w.spool.writerEnd = w.events.length ∧
    Within env.limits w.spool.writerEnd w.spool.admissions

structure SameRoom (w u : World Event) : Prop where
  events : u.events = w.events
  writerEnd : u.spool.writerEnd = w.spool.writerEnd
  admissions : u.spool.admissions = w.spool.admissions
  failed : u.spool.failed = w.spool.failed

def roomContract (env : SpoolEnv Event) : Contract (World Event) where
  rely := SameRoom
  guarantee := fun _ _ => True
  stopped := fun w => w.events.length ≤ env.limits.maxBytes
  rely_refl := fun _ => ⟨rfl, rfl, rfl, rfl⟩
  rely_trans := fun h h' => ⟨h'.events.trans h.events, h'.writerEnd.trans h.writerEnd,
    h'.admissions.trans h.admissions, h'.failed.trans h.failed⟩

theorem stable_roomAt : (roomContract env).Stable (RoomAt size wend store) :=
  fun _ _ h hw => ⟨(congrArg List.length h.events).trans hw.size, h.writerEnd.trans hw.writerEnd,
    h.admissions.trans hw.admissions⟩

theorem stable_room : (roomContract env).Stable (Room env) := by
  intro w u h hw
  refine ⟨h.events ▸ hw.size, fun hf => ?_⟩
  rw [h.writerEnd, h.events, h.admissions]
  exact hw.within (h.failed ▸ hf)

theorem RoomAt.room (h : RoomAt size size store w) (hw : Within env.limits size store) :
    Room env w where
  size := by
    have hle := hw.end_le
    have hf := length_events_le w
    rw [h.size] at hf ⊢
    rwa [min_eq_left hf] at hle
  within := fun _ => by rw [h.writerEnd, h.size, h.admissions]; exact ⟨rfl, hw⟩

theorem Room.at (h : Room env w) (hf : w.spool.failed = false) :
    RoomAt w.spool.writerEnd w.spool.writerEnd w.spool.admissions w :=
  ⟨(h.within hf).1.symm, rfl, rfl⟩

/-- An action that neither the events file nor the writer's count sees. -/
def Action.RoomFree : Action Event → Prop
  | .file op => op.touches .events = false
  | .memory update => ∀ spool : RequestLogSpool, (update spool).writerEnd = spool.writerEnd ∧
      (update spool).admissions = spool.admissions ∧ (update spool).failed = spool.failed
  | .note _ => True

variable {a : Action Event} {acts : List (Action Event)}
  {update : RequestLogSpool → RequestLogSpool}

theorem Action.RoomFree.run (h : a.RoomFree) (hr : a.run w = some u) : SameRoom w u := by
  cases a with
  | file op =>
    have hs := (Action.run_file_same hr).1
    refine ⟨?_, by rw [hs], by rw [hs], by rw [hs]⟩
    rw [World.events, World.events, fileBytes_run hr h]
  | memory update =>
    cases hr
    obtain ⟨he, ha, hf⟩ := h w.spool
    exact ⟨rfl, he, ha, hf⟩
  | note e =>
    cases hr
    exact ⟨rfl, rfl, rfl, rfl⟩

theorem Action.RoomFree.cut (h : a.RoomFree) (kept : ℕ) (w : World Event) :
    SameRoom w (a.cut kept w) := by
  have hs : SameRoom w w := ⟨rfl, rfl, rfl, rfl⟩
  cases a with
  | file op =>
    rcases Action.cut_file op kept w with heq | ⟨part, hpa, hr⟩
    · rw [heq]
      exact hs
    · have hp : (.file part : Action Event).RoomFree := (FileOp.touches_cut hpa _).trans h
      exact hp.run hr
  | memory update => exact hs
  | note e => exact hs

theorem safe_roomFree (hs : (roomContract env).Stable P)
    (hsz : ∀ w, P w → w.events.length ≤ env.limits.maxBytes)
    (h : ∀ a ∈ acts, a.RoomFree) (hw : P w) :
    Action.machine.Safe (roomContract env) P acts w := by
  refine safe_skip hs (fun a ha => ⟨hs, hsz, fun w hw kept => ⟨trivial, ?_⟩,
    fun w u hw hr => ⟨trivial, hs w u ((h a ha).run hr) hw⟩⟩) hw
  exact hsz (a.cut kept w) (hs w _ ((h a ha).cut kept w) hw)

theorem safe_roomAt (hsz : min size maxFileBytes ≤ env.limits.maxBytes) (h : ∀ a ∈ acts, a.RoomFree)
    (hw : RoomAt size wend store w) :
    Action.machine.Safe (roomContract env) (RoomAt size wend store) acts w := by
  refine safe_roomFree stable_roomAt (fun w hw => ?_) h hw
  have hf := length_events_le w
  rw [hw.size] at hf ⊢
  rwa [min_eq_left hf] at hsz

theorem triple_appendRoom {bs : Bytes}
    (hsz : min (size + bs.length) maxFileBytes ≤ env.limits.maxBytes) :
    Action.machine.Triple (roomContract env) (RoomAt size wend store)
      (.file (.append .events bs)) (RoomAt (size + bs.length) wend store) := by
  have hf : ∀ w : World Event, w.events.length ≤ size + bs.length →
      w.events.length ≤ env.limits.maxBytes :=
    fun w hw => (le_min hw (length_events_le w)).trans hsz
  refine ⟨stable_roomAt, fun w hw => hf w (by rw [hw.size]; omega), fun w hw kept => ⟨trivial, ?_⟩,
    fun w u hw hr => ⟨trivial, ?_⟩⟩
  · refine hf _ ?_
    rcases Action.cut_file (.append .events bs) kept w with heq | ⟨part, hp, hr⟩
    · have hc : Action.machine.cut kept (.file (.append .events bs)) w = w := heq
      rw [hc, hw.size]
      omega
    · cases hp
      have he := congrArg List.length (events_append hr)
      rw [length_append, length_take, hw.size] at he
      change (Action.machine.cut kept (.file (.append .events bs)) w).events.length = _ at he
      omega
  · have hs := (Action.run_file_same hr).1
    refine ⟨?_, by rw [hs]; exact hw.writerEnd, by rw [hs]; exact hw.admissions⟩
    rw [events_append hr, length_append, hw.size]

theorem triple_memoryRoom (hs : (roomContract env).Stable P)
    (hsz : ∀ w, P w → w.events.length ≤ env.limits.maxBytes)
    (hst : ∀ w, P w → Q { w with spool := update w.spool }) :
    Action.machine.Triple (roomContract env) P (.memory update) Q :=
  ⟨hs, hsz, fun w hw _ => ⟨trivial, hsz w hw⟩, fun w u hw hr => by
    cases hr
    exact ⟨trivial, hst w hw⟩⟩

theorem triple_memoryAt {wend' : ℕ} {store' : AdmissionStore}
    (hsz : min size maxFileBytes ≤ env.limits.maxBytes)
    (hst : ∀ spool : RequestLogSpool, spool.writerEnd = wend → spool.admissions = store →
      (update spool).writerEnd = wend' ∧ (update spool).admissions = store') :
    Action.machine.Triple (roomContract env) (RoomAt size wend store) (.memory update)
      (RoomAt size wend' store') := by
  refine triple_memoryRoom stable_roomAt (fun w hw => ?_) (fun w hw => ?_)
  · have hf := length_events_le w
    rw [hw.size] at hf ⊢
    rwa [min_eq_left hf] at hsz
  · obtain ⟨he, hs⟩ := hst w.spool hw.writerEnd hw.admissions
    exact ⟨hw.size, he, hs⟩

variable (hsz : min size maxFileBytes ≤ env.limits.maxBytes)
include hsz

theorem triple_advanceRoom (bs : ℕ) :
    Action.machine.Triple (roomContract env) (RoomAt size wend store)
      (.memory (.advance bs)) (RoomAt size (wend + bs) store) :=
  triple_memoryAt hsz (fun _ he hs => ⟨by rw [← he]; rfl, hs⟩)

theorem triple_insertRoom (id : Uuid) :
    Action.machine.Triple (roomContract env) (RoomAt size wend store) (.memory (.insertId id))
      (RoomAt size wend { store with ids := id :: store.ids }) :=
  triple_memoryAt hsz (fun _ he hs => ⟨he, by rw [← hs]; rfl⟩)

theorem triple_removeRoom (id : Uuid) :
    Action.machine.Triple (roomContract env) (RoomAt size wend store) (.memory (.removeId id))
      (RoomAt size wend { store with ids := store.ids.erase id }) :=
  triple_memoryAt hsz (fun _ he hs => ⟨he, by rw [← hs]; rfl⟩)

theorem triple_resetRoom :
    Action.machine.Triple (roomContract env) (RoomAt size wend store)
      (.memory RequestLogSpool.reset) (RoomAt size 0 store) :=
  triple_memoryAt hsz (fun _ _ hs => ⟨rfl, hs⟩)

theorem triple_truncateRoom :
    Action.machine.Triple (roomContract env) (RoomAt size wend store)
      (.file (.setLen .events 0)) (RoomAt 0 wend store) := by
  have hfi : ∀ w : World Event, RoomAt size wend store w →
      w.events.length ≤ env.limits.maxBytes := by
    intro w hw
    have hf := length_events_le w
    rw [hw.size] at hf ⊢
    rwa [min_eq_left hf] at hsz
  refine ⟨stable_roomAt, hfi, fun w hw _ => ⟨trivial, hfi w hw⟩, fun w u hw hr =>
    ⟨trivial, ?_⟩⟩
  have hs := (Action.run_file_same hr).1
  refine ⟨?_, by rw [hs]; exact hw.writerEnd, by rw [hs]; exact hw.admissions⟩
  obtain ⟨pre, -, ha⟩ := fileBytes_edit (f := (resize · 0)) (fun _ => rfl) hr
  rw [events_of_fileBytes ha, length_resize]

end Arithmetic

section Calls
variable {Event : Type} {env : SpoolEnv Event} {w : World Event} {ev : Event}
  {rec : EncodedRequestLog}

theorem roomFree_saveTerminal (env : SpoolEnv Event) (ev : Event) (rec : EncodedRequestLog) :
    ∀ a ∈ saveTerminal env ev rec, a.RoomFree := by
  simp [saveTerminal, saveTerminalOps, Action.RoomFree, FileOp.touches]

variable {size : ℕ} {store : AdmissionStore}

/-- An admitted append: the room for its frame is the one that was reserved. -/
theorem safe_reservedRoom (hr : rec.payload.length ≤ maxPayloadBytes) (hid : rec.requestLogId ∈ store.ids)
    (hwi : Within env.limits size store) (hw : RoomAt size size store w) :
    Action.machine.Safe (roomContract env) (Room env)
      (saveTerminal env ev rec ++ writeReserved env ev rec) w := by
  have ha := hwi.retire hid (length_frame_le env.crc hr)
  have hsz := ha.end_le
  refine (safe_roomAt hwi.end_le (roomFree_saveTerminal env ev rec) hw).append
    (fun w1 h1 => ?_)
  refine safe_cons (triple_appendRoom hsz) (fun w2 h2 => ?_) h1
  refine safe_cons (triple_advanceRoom hsz _) (fun w3 h3 => ?_) h2
  have hm : Action.machine.Safe (roomContract env) _
      (.file (.sync .events) :: .memory RequestLogSpool.publish ::
        (retireOps rec.requestLogId).map .file) w3 :=
    safe_roomAt hsz (by simp [retireOps, Action.RoomFree, FileOp.touches, RequestLogSpool.publish]) h3
  refine hm.append (fun w4 h4 => ?_)
  refine safe_cons (triple_removeRoom hsz _) (fun w5 h5 => ?_) h4
  exact (safe_roomAt hsz (by simp [Action.RoomFree]) h5).imp (fun _ h => h.room ha)

theorem safe_directRoom (hwi : Within env.limits size store)
    (ha : Within env.limits (size + (frame env.crc rec).length) store)
    (hw : RoomAt size size store w) :
    Action.machine.Safe (roomContract env) (Room env) (writeDirect env ev rec) w := by
  have hsz := ha.end_le
  have hn : Action.machine.Safe (roomContract env) (RoomAt size size store)
      [.note (.direct ev)] w := safe_roomAt hwi.end_le (by simp [Action.RoomFree]) hw
  refine hn.append (fun w1 h1 => ?_)
  refine safe_cons (triple_appendRoom hsz) (fun w2 h2 => ?_) h1
  refine safe_cons (triple_advanceRoom hsz _) (fun w3 h3 => ?_) h2
  exact (safe_roomAt hsz (by simp [Action.RoomFree, RequestLogSpool.publish]) h3).imp
    (fun _ h => h.room ha)

variable (h : Room env w)
include h

theorem safe_room {acts : List (Action Event)} (hf : ∀ a ∈ acts, a.RoomFree) :
    Action.machine.Safe (roomContract env) (Room env) acts w :=
  safe_roomFree stable_room (fun _ hw => hw.size) hf h

theorem appendPlan_room (ev : Event) :
    Action.machine.Safe (roomContract env) (Room env) (appendPlan env w.spool ev).actions w := by
  have hca := appendPlan_cases env w.spool ev
  generalize appendPlan env w.spool ev = plan at hca ⊢
  cases hca with
  | refused err => exact safe_room h (by simp)
  | latched rec => exact safe_room h (roomFree_saveTerminal env ev rec)
  | reserved rec hr hid hop =>
    exact safe_reservedRoom hr.2 hid (h.within hop).2 (h.at hop)
  | direct rec hr _ hop hc =>
    exact safe_directRoom (h.within hop).2 (.advance hc) (h.at hop)

theorem safe_latch :
    Action.machine.Safe (roomContract env) (Room env) [.memory RequestLogSpool.latch] w := by
  refine safe_cons (triple_memoryRoom stable_room (fun _ hw => hw.size) ?_)
    (fun w1 h1 => safe_nil stable_room h1) h
  exact fun w hw => ⟨hw.size, fun hf => by cases hf⟩

theorem admitPlan_room (intent : RequestLogIntent) (av : Option ℕ) :
    Action.machine.Safe (roomContract env) (Room env)
      (admitPlan env w.spool intent av).actions w := by
  have hca := admitPlan_cases env w.spool intent av
  generalize admitPlan env w.spool intent av = plan at hca ⊢
  cases hca with
  | refused err => exact safe_room h (by simp)
  | pressed => exact safe_room h (by simp [Action.RoomFree, RequestLogSpool.press])
  | latched err => exact safe_latch h
  | reserved bs _ _ hop hc =>
    have ha := Within.insert hc intent.id
    refine safe_cons (triple_insertRoom (h.within hop).2.end_le _) (fun w1 h1 => ?_)
      (h.at hop)
    exact (safe_roomAt ha.end_le (by simp [reserveOps, Action.RoomFree, FileOp.touches]) h1).imp
      (fun _ h => h.room ha)

theorem syncDataPlan_room :
    Action.machine.Safe (roomContract env) (Room env) (syncDataPlan w.spool).actions w := by
  refine safe_room h ?_
  unfold syncDataPlan
  split_ifs <;> simp [Action.RoomFree, FileOp.touches, RequestLogSpool.storeSynced]

theorem compactOps_room (hop : w.spool.failed = false) :
    Action.machine.Safe (roomContract env) (Room env)
      (compactOps.map .file ++ [.memory RequestLogSpool.reset]) w := by
  have hw := (h.within hop).2
  have he : min 0 maxFileBytes ≤ env.limits.maxBytes := Nat.zero_le _
  have hf : Action.machine.Safe (roomContract env) _
      ((.sync .events :: persistCheckpointOps 0 true ++ [.syncDirectory .spool] : List SpoolOp).map
        .file) w := safe_roomAt hw.end_le
    (by simp [persistCheckpointOps, Action.RoomFree, FileOp.touches]) (h.at hop)
  refine hf.append (fun w1 h1 => ?_)
  refine safe_cons (triple_truncateRoom hw.end_le) (fun w2 h2 => ?_) h1
  have hs : Action.machine.Safe (roomContract env) _ [.file (.sync .events)] w2 :=
    safe_roomAt he (by simp [Action.RoomFree, FileOp.touches]) h2
  refine hs.append (fun w3 h3 => ?_)
  exact safe_cons (triple_resetRoom he)
    (fun w4 h4 => safe_nil stable_room (h4.room hw.reset)) h3

end Calls

section System
variable {Event : Type} {env : SpoolEnv Event} {w u : World Event}

def SystemRoom (env : SpoolEnv Event) (s : System Event) : Prop :=
  match s.process with
  | .down | .opening _ _ => False
  | .running none _ _ => Room env s.world
  | .running (some actions) _ _ =>
    Action.machine.Safe (roomContract env) (Room env) actions s.world

theorem Beside.sameRoom (h : Beside env w u) : SameRoom w u := by
  refine ⟨?_, by rw [h.spool], by rw [h.spool], by rw [h.spool]⟩
  rw [World.events, World.events, h.files _ (by simp) (by simp)]

variable {wk : Worker} {rd : ℕ} {s : System Event}

theorem WorkerStep.room {call : Option (List (Action Event))} (hs : WorkerStep env w call s)
    (h : SystemRoom env ⟨w, .running call wk rd⟩) : SystemRoom env s := by
  obtain ⟨u, wk', rd', rfl, hb, -, -⟩ := hs
  cases call with
  | none => exact stable_room w u hb.sameRoom h
  | some acts => exact Machine.Safe.interfere h hb.sameRoom

theorem failCall_room {act : Action Event} {rest : List (Action Event)} (h : SystemRoom env ⟨w, .running (some (act :: rest)) wk rd⟩) (kept : ℕ) :
    SystemRoom env (failCall kept act w wk rd) :=
  ⟨(Machine.Safe.stop h kept).2, fun hf => by cases hf⟩

def Move.isCrash : Move Event → Bool
  | .crash _ _ => true
  | _ => false

/-- Every move but a crash keeps the room. -/
theorem step_room {s' : System Event} {move : Move Event} (hso : SystemSound env s)
    (h : SystemRoom env s) (hm : move.isCrash = false) (hst : s.step env move = some s') :
    SystemRoom env s' := by
  obtain ⟨w, proc⟩ := s
  have hw : move.isWorker = true → SystemRoom env s' := by
    intro hm
    obtain ⟨call, wk, rd, rfl, -, hs | ⟨rfl, hop, -, rfl⟩⟩ := worker_step hso hm hst
    · exact hs.room h
    · exact compactOps_room h hop
  cases turn_of_step hst with
  | launch | opened | unopened _ | openStep _ | openCut _ _ => exact h.elim
  | admitRequest intent av => exact admitPlan_room h intent av
  | append ev => exact appendPlan_room h ev
  | syncData => exact syncDataPlan_room h
  | done => exact Machine.Safe.done (m := Action.machine) h
  | callStep hr => exact (Machine.Safe.step h hr).2
  | callCut kept _ => exact failCall_room h kept
  | worker hm => exact hw hm
  | crash kept workerKept => cases hm

theorem SystemRoom.size (h : SystemRoom env s) : s.world.events.length ≤ env.limits.maxBytes := by
  obtain ⟨w, proc⟩ := s
  cases proc with
  | down => exact h.elim
  | opening acts res => exact h.elim
  | running call wk rd =>
    cases call with
    | none => exact Room.size h
    | some acts =>
      cases acts with
      | nil => exact (Machine.Safe.done (m := Action.machine) h).size
      | cons act rest => exact Machine.Safe.halt (m := Action.machine) h

theorem Exact.room (h : Exact env w) (hw : Within env.limits w.spool.writerEnd w.spool.admissions) :
    Room env w := by
  obtain ⟨log, hl, he, -⟩ := h
  refine RoomAt.room ⟨?_, rfl, rfl⟩ hw
  rw [hl.world_events, append_nil, he]

/-- From an open spool within its capacity, as long as the process does not stop: the events file
stays within the limit, and while no operation has failed there is room for the terminal event of
every admitted request. -/
theorem capacity_kept {moves moves' : List (Move Event)} {w : World Event} {worker : Worker}
    {reader : ℕ} {s : System Event}
    (hrun : run? (System.step env) System.init moves = some ⟨w, .running none worker reader⟩)
    (hopen : w.spool.failed = false)
    (hwithin : Within env.limits w.spool.writerEnd w.spool.admissions)
    (hmoves : ∀ move ∈ moves', move.isCrash = false)
    (hrun' : run? (System.step env) ⟨w, .running none worker reader⟩ moves' = some s) :
    s.world.events.length ≤ env.limits.maxBytes ∧
    ∀ worker reader, s.process = .running none worker reader → s.world.spool.failed = false →
      Within env.limits s.world.spool.writerEnd s.world.spool.admissions ∧
      ∀ event record, Encodes env event record → env.codec.id event ∈ s.world.spool.admissions.ids →
        (appendPlan env s.world.spool event).result = .ok (frame env.crc record).length ∧
        s.world.events.length + (frame env.crc record).length ≤ env.limits.maxBytes := by
  have hso := reachable_sound hrun
  have hst : SystemSound env ⟨w, .running none worker reader⟩ ∧
      SystemRoom env ⟨w, .running none worker reader⟩ := ⟨hso, (hso.1.2 hopen).room hwithin⟩
  have hs : ∀ s move s', SystemSound env s ∧ SystemRoom env s → s.step env move = some s' →
      move.isCrash = false → SystemSound env s' ∧ SystemRoom env s' :=
    fun _ _ _ h hs hm => ⟨(step_sound h.1 hs).1, step_room h.1 h.2 hm hs⟩
  have hr := (run?_invariant_across hs hst (across_of_forall_mem hmoves) hrun').2
  refine ⟨hr.size, fun worker reader hp hf => ?_⟩
  obtain ⟨u, process⟩ := s
  subst hp
  obtain ⟨hen, hw'⟩ := Room.within hr hf
  refine ⟨hw', fun event record he hid => ?_⟩
  have hb : (frame env.crc record).length ≤ 2 * reservationBytes := length_frame_le env.crc he.2
  refine ⟨by rw [appendPlan_reserved he hid hf], ?_⟩
  have hsu : u.spool.writerEnd + (frame env.crc record).length < 2 ^ 64 := by
    have hfi := length_events_le u
    have hsm : maxFileBytes + 2 * reservationBytes < 2 ^ 64 := by decide
    change u.spool.writerEnd = u.events.length at hen
    omega
  rw [← hen]
  exact (hw'.retire hid hb).le_maxBytes hsu

/-- Room for one admitted request and nothing else. -/
def tightEnv : SpoolEnv (Uuid × UInt8) := ⟨crc32, byteCodec, ⟨2 ^ 20, 2 * reservationBytes, 0⟩⟩

theorem isCrash_admitMoves (id : Uuid) :
    ∀ move ∈ (admitMoves id : List (Move Event)), move.isCrash = false := by
  intro move hm
  simp only [admitMoves, mem_append, mem_cons, mem_replicate, not_mem_nil, or_false] at hm
  rcases hm with (rfl | ⟨-, rfl⟩) | rfl
  · rfl
  · rfl
  · rfl

/-- The capacity is all reserved, and the request can still append its terminal event. -/
theorem capacity_kept_tight : ∃ s, run? (System.step tightEnv)
      ⟨fresh _, .running none .reading 0⟩ (admitMoves 1) = some s ∧
    s.world.spool.admissions.ids = [1] ∧
    Within tightEnv.limits s.world.spool.writerEnd s.world.spool.admissions ∧
    ∃ bytes, (appendPlan tightEnv s.world.spool (1, 7)).result = .ok bytes ∧
      s.world.events.length + bytes ≤ tightEnv.limits.maxBytes := by
  obtain ⟨w, hru, -, hw⟩ :=
    run_admitted (show 2 * reservationBytes ≤ tightEnv.limits.maxBytes from le_rfl) rfl 1
  have hid : w.spool.admissions.ids = [1] := by
    rw [hw.spool]
    rfl
  have he : Encodes tightEnv (1, 7) ⟨1, requestLogSchemaVersion, (1 : Uuid).asBytes ++ [7]⟩ :=
    ⟨rfl, by decide⟩
  obtain ⟨-, haf⟩ := capacity_kept (run_fresh tightEnv) rfl (show Within _ 0 _ by
    unfold Within; decide) (isCrash_admitMoves 1) hru
  obtain ⟨hwi, ha⟩ := haf .reading 0 rfl (by rw [hw.spool]; rfl)
  obtain ⟨hr, hsize⟩ := ha _ _ he (by rw [hid]; exact mem_singleton_self _)
  exact ⟨_, hru, hid, hwi, _, hr, hsize⟩

/-- The append of an admitted event whose sync fails: the frame counts, and so does the
reservation. -/
theorem run_failedSync {ev : Event} {rec : EncodedRequestLog} {slot : Bytes}
    (h : Encodes env ev rec)
    (hid : env.codec.id ev ∈ w.spool.admissions.ids) (hf : w.spool.failed = false)
    (hsl : fileBytes w.files (.slot (env.codec.id ev)) = some slot)
    (hsz : slot.length ≤ slotBytes) (he : fileBytes w.files .events = some []) :
    ∃ moves u, (∀ move ∈ moves, move.isCrash = false) ∧
      run? (System.step env) ⟨w, .running none .reading rd⟩ moves =
        some ⟨u, .running none .reading rd⟩ ∧
      u.spool = (w.spool.advance (frame env.crc rec).length).latch := by
  obtain ⟨u, hs, hu⟩ := ends_saved h hsl hsz
  have hfr : ([] ++ frame env.crc rec).length ≤ maxFileBytes := by
    have := length_frame_le env.crc h.2
    have hsm : 2 * reservationBytes ≤ maxFileBytes := by decide
    rw [nil_append]
    omega
  obtain ⟨v, ha, -⟩ : ∃ v, (Action.file (.append .events (frame env.crc rec))).run u = some v ∧
      fileBytes v.files .events = some ([] ++ frame env.crc rec) :=
    run_edit (f := (· ++ frame env.crc rec)) (fun _ => rfl)
      ((hu.others _ (by simp)).trans he) hfr
  have hw : Action.machine.runAll w (saveTerminal env ev rec ++
      [.file (.append .events (frame env.crc rec)),
        .memory (.advance (frame env.crc rec).length)]) =
      some { v with spool := v.spool.advance (frame env.crc rec).length } := by
    rw [Machine.runAll, run?_append]
    rw [Machine.runAll] at hs
    rw [hs]
    change Option.bind ((Action.file _).run _) _ = _
    rw [ha]
    rfl
  have hst : System.step env ⟨w, .running none .reading rd⟩ (.append ev) =
      some ⟨w, .running (some ((saveTerminal env ev rec ++
        [.file (.append .events (frame env.crc rec)),
          .memory (.advance (frame env.crc rec).length)]) ++
        (.file (.sync .events) :: .memory RequestLogSpool.publish ::
          ((retireOps rec.requestLogId).map .file ++
            [.memory (.removeId rec.requestLogId), .note (.acknowledged ev)]))))
        .reading rd⟩ := by
    simp only [System.step, appendPlan_reserved h hid hf, append_assoc]
    rfl
  refine ⟨_, _, ?_, run?_trans (run_start hst hw) (show run? _ _ [.fail 0] = _ from rfl), ?_⟩
  · intro move hm
    simp only [mem_append, mem_cons, mem_replicate, not_mem_nil, or_false] at hm
    rcases hm with (rfl | ⟨-, rfl⟩) | rfl
    · rfl
    · rfl
    · rfl
  · have hsp : v.spool = w.spool := (Action.run_file_same ha).1.trans hu.spool
    exact congrArg (fun spool => (RequestLogSpool.advance _ spool).latch) hsp

/-- A sync of the events file fails behind a frame that used up a reservation, and the two together
no longer fit; the sync task that runs next returns all the same. -/
theorem reservation_kept_after_failed_sync : ∃ moves s,
    Within tightEnv.limits (fresh (Uuid × UInt8)).spool.writerEnd
      (fresh (Uuid × UInt8)).spool.admissions ∧
    (∀ move ∈ moves, move.isCrash = false) ∧
    run? (System.step tightEnv) ⟨fresh _, .running none .reading 0⟩ moves = some s ∧
    s.process = .running none .reading 0 ∧
    ¬ Within tightEnv.limits s.world.spool.writerEnd s.world.spool.admissions := by
  obtain ⟨w, hru, -, hw⟩ :=
    run_admitted (show 2 * reservationBytes ≤ tightEnv.limits.maxBytes from le_rfl) rfl 1
  obtain ⟨record, hr⟩ : ∃ record : EncodedRequestLog,
      record = ⟨1, requestLogSchemaVersion, (1 : Uuid).asBytes ++ [7]⟩ := ⟨_, rfl⟩
  have he : Encodes tightEnv (1, 7) record := hr ▸ ⟨rfl, by decide⟩
  have hl : (frame tightEnv.crc record).length = 49 := by
    rw [length_frame, hr]
    rfl
  obtain ⟨moves, u, hmo, hf, hs⟩ := run_failedSync he
    (by rw [hw.spool]; exact mem_cons_self) (by rw [hw.spool]; rfl) hw.slot
    (by rw [length_replicate]) (hw.others _ (by simp) (by simp))
  rw [hl, hw.spool] at hs
  have hsy : run? (System.step tightEnv) ⟨u, .running none .reading 0⟩ [.syncData, .perform] =
      some ⟨u, .running none .reading 0⟩ := by
    have hp : (syncDataPlan u.spool : Plan (Uuid × UInt8) Unit).actions = [] := by
      rw [hs]
      rfl
    rw [run?_cons]
    simp only [System.step, hp]
    rfl
  refine ⟨_, _, by unfold Within; decide, ?_, run?_trans hru (run?_trans hf hsy), rfl, ?_⟩
  · intro move hm
    rcases mem_append.mp hm with hm | hm
    · exact isCrash_admitMoves 1 move hm
    rcases mem_append.mp hm with hm | hm
    · exact hmo move hm
    · simp only [mem_cons, not_mem_nil, or_false] at hm
      rcases hm with rfl | rfl
      · rfl
      · rfl
  · change ¬ Within tightEnv.limits u.spool.writerEnd u.spool.admissions
    rw [hs]
    unfold Within
    decide

end System
end AiGateway.RequestLog
