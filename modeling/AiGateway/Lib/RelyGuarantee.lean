import AiGateway.Lib.Run

/-! Calls that are lists of actions, stopped at any point and interfered with by other threads:
the rely-guarantee rules for them. -/
namespace AiGateway.Lib
open List

/-- Actions on a state: a completed one, none when it fails by its nature, and one that is
stopped after some of its bytes. -/
structure Machine (σ α : Type) where
  run : α → σ → Option σ
  cut : ℕ → α → σ → σ

/-- What a call expects of the other threads, what each of its actions keeps to, and what
holds wherever it is stopped. -/
structure Contract (σ : Type) where
  rely : σ → σ → Prop
  guarantee : σ → σ → Prop
  stopped : σ → Prop
  rely_refl : ∀ s, rely s s
  rely_trans : ∀ {s t u}, rely s t → rely t u → rely s u

namespace Contract
variable {σ : Type}

/-- An assertion that the other threads cannot invalidate. -/
def Stable (c : Contract σ) (P : σ → Prop) : Prop := ∀ s t, c.rely s t → P s → P t

/-- The contract of a call that no other thread interferes with. -/
def alone (guarantee : σ → σ → Prop) (stopped : σ → Prop) : Contract σ where
  rely := Eq
  guarantee := guarantee
  stopped := stopped
  rely_refl := fun _ => rfl
  rely_trans := Eq.trans

theorem stable_alone {guarantee : σ → σ → Prop} {stopped P : σ → Prop} :
    (alone guarantee stopped).Stable P := fun _ _ heq hs => heq ▸ hs

/-- The same contract with more to hold wherever the call is stopped. -/
def also (c : Contract σ) (extra : σ → Prop) : Contract σ :=
  { c with stopped := fun s => c.stopped s ∧ extra s }

end Contract

namespace Machine
variable {σ α : Type}

/-- Every action of the list keeps to the contract, and the list ends in `Post`. -/
def Safe (m : Machine σ α) (c : Contract σ) (Post : σ → Prop) : List α → σ → Prop
  | [], s => ∀ t, c.rely s t → Post t
  | a :: rest, s => ∀ t, c.rely s t → c.stopped t ∧
      (∀ kept, c.guarantee t (m.cut kept a t) ∧ c.stopped (m.cut kept a t)) ∧
      ∀ u, m.run a t = some u → c.guarantee t u ∧ m.Safe c Post rest u

/-- One action between two assertions. -/
structure Triple (m : Machine σ α) (c : Contract σ) (P : σ → Prop) (a : α) (Q : σ → Prop) :
    Prop where
  stable : c.Stable P
  halt : ∀ s, P s → c.stopped s
  stop : ∀ s, P s → ∀ kept, c.guarantee s (m.cut kept a s) ∧ c.stopped (m.cut kept a s)
  step : ∀ s t, P s → m.run a s = some t → c.guarantee s t ∧ Q t

variable {m : Machine σ α} {c : Contract σ} {Post : σ → Prop} {acts : List α} {s t : σ} {a : α}
  {rest : List α} {P Q Mid : σ → Prop} {first second : List α} {Post' : σ → Prop}

theorem Safe.interfere (h : m.Safe c Post acts s)
    (hr : c.rely s t) : m.Safe c Post acts t := by
  cases acts with
  | nil => exact fun u hu => h u (c.rely_trans hr hu)
  | cons a rest => exact fun u hu => h u (c.rely_trans hr hu)

theorem Safe.done (h : m.Safe c Post [] s) : Post s := h s (c.rely_refl s)

theorem Safe.halt (h : m.Safe c Post (a :: rest) s) :
    c.stopped s := (h s (c.rely_refl s)).1

theorem Safe.stop (h : m.Safe c Post (a :: rest) s) (kept : ℕ) :
    c.guarantee s (m.cut kept a s) ∧ c.stopped (m.cut kept a s) := (h s (c.rely_refl s)).2.1 kept

theorem Safe.step (h : m.Safe c Post (a :: rest) s)
    (hr : m.run a s = some t) : c.guarantee s t ∧ m.Safe c Post rest t :=
  (h s (c.rely_refl s)).2.2 t hr

theorem safe_nil (hst : c.Stable Post) (hs : Post s) : m.Safe c Post [] s :=
  fun t ht => hst s t ht hs

theorem safe_cons (h : m.Triple c P a Q) (hr : ∀ t, Q t → m.Safe c Post rest t) (hs : P s) :
    m.Safe c Post (a :: rest) s := by
  intro t ht
  have hP := h.stable s t ht hs
  refine ⟨h.halt t hP, h.stop t hP, fun u hu => ?_⟩
  obtain ⟨hg, hQ⟩ := h.step t u hP hu
  exact ⟨hg, hr u hQ⟩

theorem Safe.append (h : m.Safe c Mid first s) (hse : ∀ t, Mid t → m.Safe c Post second t) :
    m.Safe c Post (first ++ second) s := by
  induction first generalizing s with
  | nil => exact hse s h.done
  | cons a rest ih =>
    intro t ht
    obtain ⟨hh, hst, hs⟩ := h t ht
    exact ⟨hh, hst, fun u hu => ⟨(hs u hu).1, ih (hs u hu).2⟩⟩

theorem safe_skip (hst : c.Stable P)
    (h : ∀ a ∈ acts, m.Triple c P a P) (hs : P s) : m.Safe c P acts s := by
  induction acts generalizing s with
  | nil => exact safe_nil hst hs
  | cons a rest ih =>
    exact safe_cons (h a mem_cons_self)
      (fun t ht => ih (fun b hb => h b (mem_cons_of_mem a hb)) ht) hs

theorem Safe.mono {c' : Contract σ} (hr : ∀ s t, c'.rely s t → c.rely s t)
    (hg : ∀ s t, c.guarantee s t → c'.guarantee s t)
    (hs : ∀ s, c.stopped s → c'.stopped s) (hp : ∀ s, Post s → Post' s)
    (h : m.Safe c Post acts s) : m.Safe c' Post' acts s := by
  induction acts generalizing s with
  | nil => exact fun t ht => hp t (h t (hr s t ht))
  | cons a rest ih =>
    intro t ht
    obtain ⟨hh, hsp, hst⟩ := h t (hr s t ht)
    refine ⟨hs t hh, fun kept => ⟨hg _ _ (hsp kept).1, hs _ (hsp kept).2⟩,
      fun u hu => ⟨hg _ _ (hst u hu).1, ih (hst u hu).2⟩⟩

theorem Safe.imp (h : m.Safe c Post acts s) (hp : ∀ s, Post s → Post' s) :
    m.Safe c Post' acts s := h.mono (fun _ _ => id) (fun _ _ => id) (fun _ => id) hp

/-- More that holds along a list whose actions are known to keep to the contract. -/
def Follows (m : Machine σ α) (c : Contract σ) (extra Post : σ → Prop) : List α → σ → Prop
  | [], s => ∀ t, c.rely s t → Post t
  | a :: rest, s => ∀ t, c.rely s t → extra t ∧
      (∀ kept, c.guarantee t (m.cut kept a t) → extra (m.cut kept a t)) ∧
      ∀ u, m.run a t = some u → c.guarantee t u → m.Follows c extra Post rest u

/-- One such action between two assertions. -/
structure Observed (m : Machine σ α) (c : Contract σ) (extra P : σ → Prop) (a : α)
    (Q : σ → Prop) : Prop where
  stable : c.Stable P
  halt : ∀ s, P s → extra s
  stop : ∀ s, P s → ∀ kept, c.guarantee s (m.cut kept a s) → extra (m.cut kept a s)
  step : ∀ s t, P s → m.run a s = some t → c.guarantee s t → Q t

variable {extra : σ → Prop}

theorem follows_nil (hst : c.Stable Post) (hs : Post s) :
    m.Follows c extra Post [] s := fun t ht => hst s t ht hs

theorem follows_cons (h : m.Observed c extra P a Q)
    (hr : ∀ t, Q t → m.Follows c extra Post rest t) (hs : P s) :
    m.Follows c extra Post (a :: rest) s := by
  intro t ht
  have hP := h.stable s t ht hs
  exact ⟨h.halt t hP, h.stop t hP, fun u hu hg => hr u (h.step t u hP hu hg)⟩

theorem Follows.append
    (h : m.Follows c extra Mid first s) (hs : ∀ t, Mid t → m.Follows c extra Post second t) :
    m.Follows c extra Post (first ++ second) s := by
  induction first generalizing s with
  | nil => exact hs s (h s (c.rely_refl s))
  | cons a rest ih =>
    intro t ht
    obtain ⟨hh, hsp, hst⟩ := h t ht
    exact ⟨hh, hsp, fun u hu hg => ih (hst u hu hg)⟩

theorem Follows.mono (hp : ∀ s, Post s → Post' s)
    (h : m.Follows c extra Post acts s) : m.Follows c extra Post' acts s := by
  induction acts generalizing s with
  | nil => exact fun t ht => hp t (h t ht)
  | cons a rest ih =>
    intro t ht
    obtain ⟨hh, hst, hs⟩ := h t ht
    exact ⟨hh, hst, fun u hu hg => ih (hs u hu hg)⟩

theorem follows_skip (hst : c.Stable P)
    (h : ∀ a ∈ acts, m.Observed c extra P a P) (hs : P s) :
    m.Follows c extra P acts s := by
  induction acts generalizing s with
  | nil => exact follows_nil hst hs
  | cons a rest ih =>
    exact follows_cons (h a mem_cons_self)
      (fun t ht => ih (fun b hb => h b (mem_cons_of_mem a hb)) ht) hs

/-- A call that keeps to its contract, and what follows along it. -/
theorem Safe.also (h : m.Safe c Post acts s) (h' : m.Follows c extra Post' acts s) :
    m.Safe (c.also extra) (fun s => Post s ∧ Post' s) acts s := by
  induction acts generalizing s with
  | nil => exact fun t ht => ⟨h t ht, h' t ht⟩
  | cons a rest ih =>
    intro t ht
    obtain ⟨hh, hst, hs⟩ := h t ht
    obtain ⟨hh', hst', hs'⟩ := h' t ht
    exact ⟨⟨hh, hh'⟩, fun kept => ⟨(hst kept).1, (hst kept).2, hst' kept (hst kept).1⟩,
      fun u hu => ⟨(hs u hu).1, ih (hs u hu).2 (hs' u hu (hs u hu).1)⟩⟩

/-- The state behind a list of actions, when every one of them completes. -/
def runAll (m : Machine σ α) (s : σ) (actions : List α) : Option σ :=
  run? (fun s a => m.run a s) s actions

/-- Every action of the list completes, and the list ends in `Post`. -/
def Ends (m : Machine σ α) (Post : σ → Prop) (actions : List α) (s : σ) : Prop :=
  ∃ t, m.runAll s actions = some t ∧ Post t

theorem ends_nil (hs : Post s) : m.Ends Post [] s := ⟨s, rfl, hs⟩

theorem ends_cons (h : ∃ t, m.run a s = some t ∧ Q t) (hr : ∀ t, Q t → m.Ends Post rest t) :
    m.Ends Post (a :: rest) s := by
  obtain ⟨t, ht, hQ⟩ := h
  obtain ⟨u, hu, hPost⟩ := hr t hQ
  refine ⟨u, ?_, hPost⟩
  rw [runAll, run?_cons, ht]
  exact hu

theorem Ends.append (h : m.Ends Mid first s)
    (hs : ∀ t, Mid t → m.Ends Post second t) : m.Ends Post (first ++ second) s := by
  obtain ⟨t, ht, hMid⟩ := h
  obtain ⟨u, hu, hPost⟩ := hs t hMid
  refine ⟨u, ?_, hPost⟩
  rw [runAll, run?_append]
  rw [runAll] at ht
  rw [ht]
  exact hu

theorem ends_skip (h : ∀ a ∈ acts, ∀ s, P s → ∃ t, m.run a s = some t ∧ P t) (hs : P s) :
    m.Ends P acts s := by
  induction acts generalizing s with
  | nil => exact ends_nil hs
  | cons a rest ih =>
    exact ends_cons (h a mem_cons_self s hs)
      (fun t ht => ih (fun b hb => h b (mem_cons_of_mem a hb)) ht)

/-- What a call that completes has done, when no other thread interfered. -/
theorem Safe.runAll (hre : ∀ s, c.guarantee s s)
    (ht : ∀ {s t u}, c.guarantee s t → c.guarantee t u → c.guarantee s u)
    (h : m.Safe c Post acts s) (hr : m.runAll s acts = some t) :
    c.guarantee s t ∧ Post t := by
  induction acts generalizing s with
  | nil =>
    cases hr
    exact ⟨hre _, h.done⟩
  | cons a rest ih =>
    rw [Machine.runAll, run?_cons, Option.bind_eq_some_iff] at hr
    obtain ⟨u, hu, hr⟩ := hr
    obtain ⟨hg, hrs⟩ := h.step hu
    obtain ⟨hr', hPost⟩ := ih hrs hr
    exact ⟨ht hg hr', hPost⟩

end Machine
end AiGateway.Lib
