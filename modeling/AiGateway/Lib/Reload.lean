import AiGateway.Lib.Pool
import AiGateway.Lib.Run

/-! A store with a view of it in memory. Tasks change the store and reload the view, which is a
read of the store and, in a later step, the replacement of the view. -/
namespace AiGateway.Lib.Reload
open List

variable {σ β : Type}

/-- What a task does next. A read keeps its number. -/
inductive Task (σ : Type) where
  | commit (change : σ → Option σ)
  | read
  | replace (stamp : ℕ) (seen : σ)
  | ended

/-- `reads` counts the reads, `newest` is what the last one saw, and `installed` the number of the
read the view in memory is from. -/
structure State (σ β : Type) where
  store : σ
  memory : β
  tasks : List (Task σ)
  reads : ℕ
  newest : σ
  installed : ℕ

/-- The state after the first load. -/
def loaded (view : σ → β) (store : σ) : State σ β := ⟨store, view store, [], 0, store, 0⟩

inductive Event (σ : Type) where
  /-- A task begins with a change of the store, or with a mere reload. -/
  | start (change : Option (σ → Option σ))
  | advance (index : ℕ)
  /-- A task is dropped, or its read fails. -/
  | abandon (index : ℕ)

def Task.first : Option (σ → Option σ) → Task σ
  | some change => .commit change
  | none => .read

namespace State

def perform (view : σ → β) (s : State σ β) (index : ℕ) : Task σ → State σ β
  | .commit change =>
    match change s.store with
    | some store => { s with store := store, tasks := s.tasks.set index .read }
    | none => { s with tasks := s.tasks.set index .ended }
  | .read =>
    { s with
      tasks := s.tasks.set index (.replace (s.reads + 1) s.store)
      reads := s.reads + 1
      newest := s.store }
  | .replace stamp seen =>
    { s with memory := view seen, installed := stamp, tasks := s.tasks.set index .ended }
  | .ended => s

def step (view : σ → β) (s : State σ β) : Event σ → State σ β
  | .start change => { s with tasks := s.tasks ++ [.first change] }
  | .advance index =>
    match s.tasks[index]? with
    | some task => s.perform view index task
    | none => s
  | .abandon index => { s with tasks := s.tasks.set index .ended }

def Quiet (s : State σ β) : Prop := ∀ task ∈ s.tasks, task = .ended

/-- A view is not replaced by one of an older read, and a reload that has begun is finished. -/
def InOrder (s : State σ β) : Event σ → Prop
  | .start _ => True
  | .advance index => ∀ stamp seen, s.tasks[index]? = some (.replace stamp seen) → s.installed ≤ stamp
  | .abandon index => s.tasks[index]? ≠ some .read ∧
    ∀ stamp seen, s.tasks[index]? ≠ some (.replace stamp seen)

/-- The newest read saw the store as it is, or another read is due; and its view is in memory, or
about to be. -/
structure Inv (view : σ → β) (s : State σ β) : Prop where
  current : .read ∈ s.tasks ∨ s.newest = s.store
  stamps : ∀ stamp seen, .replace stamp seen ∈ s.tasks →
    stamp ≤ s.reads ∧ (stamp = s.reads → seen = s.newest)
  pending : (∃ seen, .replace s.reads seen ∈ s.tasks) ∨
    s.installed = s.reads ∧ s.memory = view s.newest

section Inv
variable {view : σ → β} {s : State σ β} {i : ℕ}

theorem Inv.loaded (store : σ) : Inv view (loaded view store) where
  current := .inr rfl
  stamps _ _ hm := absurd hm not_mem_nil
  pending := .inr ⟨rfl, rfl⟩

section
variable (hs : Inv view s)
include hs

/-- A task that neither reads nor replaces may turn into anything but a replacement. -/
theorem Inv.set {task next : Task σ} (hf : s.tasks[i]? = some task)
    (hre : task ≠ .read) (hr : ∀ stamp seen, task ≠ .replace stamp seen)
    (hne : ∀ stamp seen, next ≠ .replace stamp seen) :
    Inv view { s with tasks := s.tasks.set i next } where
  current := by
    rcases hs.current with hm | hn
    · exact .inl (mem_set_of_ne hm hf hre.symm)
    · exact .inr hn
  stamps stamp seen hm := by
    rcases mem_of_mem_set hm with hol | hnw
    · exact hs.stamps stamp seen hol
    · exact absurd hnw.symm (hne stamp seen)
  pending := by
    rcases hs.pending with ⟨seen, hm⟩ | hme
    · exact .inl ⟨seen, mem_set_of_ne hm hf (hr _ _).symm⟩
    · exact .inr hme

theorem Inv.start (change : Option (σ → Option σ)) :
    Inv view (s.step view (.start change)) where
  current := hs.current.imp_left (mem_append_left _)
  stamps stamp seen hm := by
    rcases mem_append.mp hm with hol | hn
    · exact hs.stamps stamp seen hol
    · cases change <;> cases mem_singleton.mp hn
  pending := hs.pending.imp_left fun ⟨seen, hm⟩ => ⟨seen, mem_append_left _ hm⟩

theorem Inv.commit {change : σ → Option σ}
    (hf : s.tasks[i]? = some (.commit change)) :
    Inv view (s.perform view i (.commit change)) := by
  have hre : Task.commit change ≠ .read := fun h => by cases h
  have hr : ∀ stamp seen, Task.commit change ≠ .replace stamp seen := fun _ _ h => by cases h
  cases hc : change s.store with
  | none =>
    have he : ∀ stamp seen, (Task.ended : Task σ) ≠ .replace stamp seen := fun _ _ h => by cases h
    simp only [perform, hc]
    exact hs.set hf hre hr he
  | some store =>
    have hd : ∀ stamp seen, (Task.read : Task σ) ≠ .replace stamp seen := fun _ _ h => by cases h
    have hse := hs.set hf hre hr hd
    simp only [perform, hc]
    exact ⟨.inl (mem_set_self hf), hse.stamps, hse.pending⟩

theorem Inv.read (hf : s.tasks[i]? = some .read) :
    Inv view (s.perform view i .read) where
  current := .inr rfl
  stamps stamp seen hm := by
    rcases mem_of_mem_set hm with hol | hn
    · have hle : stamp ≤ s.reads := (hs.stamps stamp seen hol).1
      exact ⟨Nat.le_succ_of_le hle, fun heq => absurd (heq ▸ hle) (Nat.not_succ_le_self _)⟩
    · cases hn
      exact ⟨Nat.le_refl _, fun _ => rfl⟩
  pending := .inl ⟨s.store, mem_set_self hf⟩

theorem Inv.replace {stamp : ℕ} {seen : σ}
    (hf : s.tasks[i]? = some (.replace stamp seen)) (hor : s.installed ≤ stamp) :
    Inv view (s.perform view i (.replace stamp seen)) where
  current := by
    rcases hs.current with hm | hn
    · exact .inl (mem_set_of_ne hm hf fun h => by cases h)
    · exact .inr hn
  stamps stamp' seen' hm := by
    rcases mem_of_mem_set hm with hol | hne
    · exact hs.stamps stamp' seen' hol
    · cases hne
  pending := by
    obtain ⟨hle, hn⟩ := hs.stamps stamp seen (mem_of_getElem? hf)
    by_cases hl : stamp = s.reads
    · exact .inr ⟨hl, congrArg view (hn hl)⟩
    · -- an older view replaces the one in memory, so the newest is still to come
      rcases hs.pending with ⟨newest, hm⟩ | ⟨hin, -⟩
      · exact .inl ⟨newest, mem_set_of_ne hm hf fun h => hl (Task.replace.inj h).1.symm⟩
      · omega

theorem Inv.step {ev : Event σ} (hor : s.InOrder ev) :
    Inv view (s.step view ev) := by
  cases ev with
  | start change => exact hs.start change
  | advance i =>
    cases hf : s.tasks[i]? with
    | none =>
      simp only [State.step, hf]
      exact hs
    | some task =>
      simp only [State.step, hf]
      cases task with
      | commit change => exact hs.commit hf
      | read => exact hs.read hf
      | replace stamp seen => exact hs.replace hf (hor stamp seen hf)
      | ended => exact hs
  | abandon i =>
    obtain ⟨hre, hr⟩ := hor
    cases hf : s.tasks[i]? with
    | none =>
      have hsa : s.tasks.set i .ended = s.tasks :=
        set_eq_of_length_le (List.getElem?_eq_none_iff.mp hf)
      simp only [State.step, hsa]
      exact hs
    | some task =>
      refine hs.set hf (fun h => hre (h ▸ hf)) (fun stamp seen h => ?_)
        fun _ _ h => by cases h
      exact hr stamp seen (h ▸ hf)

end

/-- Between operations the view in memory is that of the store, if views are replaced in the order
of their reads. -/
theorem memory_of_quiet {store : σ} {evs : List (Event σ)}
    (hor : Along (step view) InOrder (Reload.loaded view store) evs)
    (hq : (run (step view) (Reload.loaded view store) evs).Quiet) :
    (run (step view) (Reload.loaded view store) evs).memory =
      view (run (step view) (Reload.loaded view store) evs).store := by
  have hst : ∀ (s : State σ β) (ev : Event σ), Inv view s → s.InOrder ev →
      Inv view (s.step view ev) := fun s ev hs he => hs.step he
  have hin := run_invariant_along hst (Inv.loaded store) hor
  have hn : (run (step view) (Reload.loaded view store) evs).newest =
      (run (step view) (Reload.loaded view store) evs).store := by
    rcases hin.current with hm | hn
    · cases hq _ hm
    · exact hn
  rcases hin.pending with ⟨seen, hm⟩ | ⟨-, hme⟩
  · cases hq _ hm
  · rw [hme, hn]

end Inv
end State
end AiGateway.Lib.Reload
