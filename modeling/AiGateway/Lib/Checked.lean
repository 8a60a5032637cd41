import AiGateway.Lib.Table

/-! Computations that return, reject their input with an error, or panic, with rules for
what they promise when they return. -/
namespace AiGateway.Lib
open List

variable {ε α β γ : Type}

inductive Failure (ε : Type) where
  | rejected (error : ε)
  | panicked
  deriving DecidableEq

abbrev Checked (ε α : Type) := Except (Failure ε) α

namespace Checked

/-- A stage that can reject but not panic. -/
def lift : Except ε α → Checked ε α
  | .ok a => .ok a
  | .error error => .error (.rejected error)

/-- A lookup that is not expected to fail: indexing, or unwrapping an option. -/
def demand : Option α → Checked ε α
  | some a => .ok a
  | none => .error .panicked

def assert (condition : Bool) : Checked ε Unit :=
  if condition then .ok () else .error .panicked

/-- The computation does not panic, rejects only when it may, and what it returns has the
property. -/
def Meets (mayReject : Prop) (x : Checked ε α) (Q : α → Prop) : Prop :=
  match x with
  | .ok a => Q a
  | .error (.rejected _) => mayReject
  | .error .panicked => False

variable {mrej : Prop} {x : Checked ε α} {Q : α → Prop} {a : α} {f : α → Checked ε β}
  {R : β → Prop}

theorem Meets.of_ok (h : Meets mrej x Q) (hx : x = .ok a) : Q a := by
  subst hx
  exact h

theorem Meets.not_panicked (h : Meets mrej x Q) : x ≠ .error .panicked := by
  rintro rfl
  exact h

theorem Meets.returns (h : Meets False x Q) : ∃ a, x = .ok a ∧ Q a := by
  cases x with
  | ok a => exact ⟨a, rfl, h⟩
  | error failure =>
    cases failure with
    | rejected err => exact h.elim
    | panicked => exact h.elim

theorem meets_pure (h : Q a) :
    Meets mrej (pure a : Checked ε α) Q := h

theorem meets_demand {o : Option α} (ho : o = some a) (h : Q a) :
    Meets mrej (demand o : Checked ε α) Q := by
  subst ho
  exact h

theorem meets_assert {Q : Unit → Prop} {condition : Bool} (hc : condition = true) (h : Q ()) :
    Meets mrej (assert condition : Checked ε Unit) Q := by
  subst hc
  exact h

theorem meets_lift {x : Except ε α} (h : ∀ a, x = .ok a → Q a) : Meets True (lift x) Q := by
  cases x with
  | ok a => exact h a rfl
  | error err => trivial

theorem Meets.mono {R : α → Prop} (h : Meets mrej x Q)
    (hQR : ∀ a, Q a → R a) : Meets mrej x R := by
  cases x with
  | ok a => exact hQR a h
  | error failure =>
    cases failure with
    | rejected err => exact h
    | panicked => exact h

/-- Sequencing: what the first stage promises is what the second may use. -/
theorem Meets.bind (h : Meets mrej x Q) (hf : ∀ a, Q a → Meets mrej (f a) R) :
    Meets mrej (x >>= f) R := by
  cases x with
  | ok a => exact hf a h
  | error failure =>
    cases failure with
    | rejected err => exact h
    | panicked => exact h

theorem meets_lift_bind {x : Except ε α}
    (h : ∀ a, x = .ok a → Meets True (f a) R) : Meets True (lift x >>= f) R :=
  (meets_lift (fun _ ha => ha)).bind h

theorem meets_demand_bind {o : Option α}
    (ho : o = some a) (h : Meets mrej (f a) R) : Meets mrej (demand o >>= f) R := by
  subst ho
  exact h

/-- The loop rule: the invariant speaks of the elements already visited. -/
theorem meets_foldlM (Inv : List α → β → Prop) {f : β → α → Checked ε β} {l : List α} {b : β}
    (hit : Inv [] b)
    (hst : ∀ done a b, a ∈ l → Inv done b → Meets mrej (f b a) (Inv (done ++ [a]))) :
    Meets mrej (l.foldlM f b) (Inv l) := by
  suffices h : ∀ rest done b, (∀ a ∈ rest, a ∈ l) → Inv done b →
      Meets mrej (rest.foldlM f b) (Inv (done ++ rest)) by
    simpa using h l [] b (fun _ ha => ha) hit
  intro rest
  induction rest with
  | nil =>
    intro done b _ hin
    rw [append_nil]
    exact hin
  | cons a rest ih =>
    intro done b hs hin
    refine (hst done a b (hs a mem_cons_self) hin).bind (fun b' hb' => ?_)
    have hr := ih (done ++ [a]) b' (fun x hx => hs x (mem_cons_of_mem _ hx)) hb'
    rwa [append_assoc] at hr

theorem meets_mapM {Q : α → β → Prop} {l : List α} (h : ∀ a ∈ l, Meets mrej (f a) (Q a)) :
    Meets mrej (l.mapM f) (List.Forall₂ Q l) := by
  induction l with
  | nil =>
    rw [mapM_nil]
    exact meets_pure .nil
  | cons a l ih =>
    rw [mapM_cons]
    refine (h a mem_cons_self).bind (fun b hb => ?_)
    refine (ih (fun x hx => h x (mem_cons_of_mem _ hx))).bind (fun bs hbs => ?_)
    exact meets_pure (.cons hb hbs)

end Checked

/-! Stages that can reject but not panic. -/
namespace Stage

variable {f : α → Except ε β} {l : List α}

theorem bind_eq_ok {x : Except ε α} {b : β} : (x >>= f) = .ok b ↔ ∃ a, x = .ok a ∧ f a = .ok b := by
  cases x with
  | ok a => simp [bind, Except.bind]
  | error err => simp [bind, Except.bind]

/-- The check passes, or the input is rejected with the error. -/
def ensure (condition : Bool) (error : ε) : Except ε Unit :=
  if condition then .ok () else .error error

theorem ensure_eq_ok {condition : Bool} {err : ε} {u : Unit} :
    ensure condition err = .ok u ↔ condition = true := by
  cases condition <;> simp [ensure]

def orReject (o : Option α) (error : ε) : Except ε α :=
  match o with
  | some a => .ok a
  | none => .error error

theorem orReject_eq_ok {o : Option α} {err : ε} {a : α} :
    orReject o err = .ok a ↔ o = some a := by
  cases o <;> simp [orReject]

theorem forM_eq_ok {f : α → Except ε Unit} {u : Unit} :
    forM l f = .ok u ↔ ∀ a ∈ l, f a = .ok () := by
  induction l with
  | nil => simp [pure, Except.pure]
  | cons a l ih =>
    rw [forM_cons, bind_eq_ok]
    simp only [ih, forall_mem_cons]
    exact ⟨fun ⟨_, ha, hl⟩ => ⟨ha, hl⟩, fun ⟨ha, hl⟩ => ⟨(), ha, hl⟩⟩

theorem mapM_eq_ok {bs : List β} :
    l.mapM f = .ok bs ↔ List.Forall₂ (fun a b => f a = .ok b) l bs := by
  induction l generalizing bs with
  | nil =>
    rw [mapM_nil, forall₂_nil_left_iff]
    exact ⟨fun h => (Except.ok.inj h).symm, fun h => congrArg Except.ok h.symm⟩
  | cons a l ih =>
    rw [mapM_cons, bind_eq_ok, forall₂_cons_left_iff]
    constructor
    · rintro ⟨b, hb, hr⟩
      obtain ⟨tail, ht, heq⟩ := bind_eq_ok.mp hr
      exact ⟨b, tail, hb, ih.mp ht, (Except.ok.inj heq).symm⟩
    · rintro ⟨b, tail, hb, ht, rfl⟩
      exact ⟨b, hb, bind_eq_ok.mpr ⟨tail, ih.mpr ht, rfl⟩⟩

/-- Every result comes from an element, and every element has one. -/
theorem mem_of_mapM_eq_ok {bs : List β} (h : l.mapM f = .ok bs) :
    (∀ b ∈ bs, ∃ a ∈ l, f a = .ok b) ∧ ∀ a ∈ l, ∃ b ∈ bs, f a = .ok b := by
  have hro := mapM_eq_ok.mp h
  induction hro with
  | nil => simp
  | cons hab _ ih =>
    rename_i a b l bs ht
    obtain ⟨hr, he⟩ := ih (mapM_eq_ok.mpr ht)
    refine ⟨forall_mem_cons.mpr ⟨⟨a, mem_cons_self, hab⟩, fun b' hb' => ?_⟩,
      forall_mem_cons.mpr ⟨⟨b, mem_cons_self, hab⟩, fun a' ha' => ?_⟩⟩
    · obtain ⟨a', ha', hf⟩ := hr b' hb'
      exact ⟨a', mem_cons_of_mem _ ha', hf⟩
    · obtain ⟨b', hb', hf⟩ := he a' ha'
      exact ⟨b', mem_cons_of_mem _ hb', hf⟩

theorem foldlM_invariant (Inv : List α → β → Prop) {f : β → α → Except ε β}
    {b b' : β} (hit : Inv [] b)
    (hst : ∀ done a b b', a ∈ l → Inv done b → f b a = .ok b' → Inv (done ++ [a]) b')
    (h : l.foldlM f b = .ok b') : Inv l b' := by
  suffices key : ∀ rest done b, (∀ a ∈ rest, a ∈ l) → Inv done b → rest.foldlM f b = .ok b' →
      Inv (done ++ rest) b' by
    simpa using key l [] b (fun _ ha => ha) hit h
  intro rest
  induction rest with
  | nil =>
    intro done b _ hin hf
    cases hf
    rwa [append_nil]
  | cons a rest ih =>
    intro done b hs hin hf
    rw [foldlM_cons, bind_eq_ok] at hf
    obtain ⟨b₁, hb₁, hf⟩ := hf
    have hn := hst done a b b₁ (hs a mem_cons_self) hin hb₁
    have hr := ih (done ++ [a]) b₁ (fun x hx => hs x (mem_cons_of_mem _ hx)) hn hf
    rwa [append_assoc] at hr

end Stage
end AiGateway.Lib
