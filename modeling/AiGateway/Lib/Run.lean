import Mathlib.Data.List.Basic

/-! Runs of a deterministic transition function and the induction rules for them. -/
namespace AiGateway.Lib
open List Option

variable {σ ι τ ο : Type}

def run (step : σ → ι → σ) (s : σ) (ops : List ι) : σ := ops.foldl step s

@[simp] theorem run_nil (step : σ → ι → σ) (s : σ) : run step s [] = s := rfl

@[simp] theorem run_cons (step : σ → ι → σ) (s : σ) (op : ι) (ops : List ι) :
    run step s (op :: ops) = run step (step s op) ops := rfl

theorem run_append (step : σ → ι → σ) (s : σ) (ops ops' : List ι) :
    run step s (ops ++ ops') = run step (run step s ops) ops' := foldl_append

variable {Inv P : σ → Prop} {s t u : σ} {step : σ → ι → σ}

theorem run_invariant
    (hst : ∀ s op, Inv s → Inv (step s op)) (hs : Inv s) (ops : List ι) :
    Inv (run step s ops) := by
  induction ops generalizing s with
  | nil => exact hs
  | cons op ops ih => exact ih (hst s op hs)

/-- `P` holds of every operation of a run together with the state it is applied to. -/
def Along (step : σ → ι → σ) (P : σ → ι → Prop) : σ → List ι → Prop
  | _, [] => True
  | s, op :: ops => P s op ∧ Along step P (step s op) ops

instance decidableAlong (step : σ → ι → σ) (P : σ → ι → Prop) [∀ s op, Decidable (P s op)] :
    (s : σ) → (ops : List ι) → Decidable (Along step P s ops)
  | _, [] => .isTrue trivial
  | s, op :: ops => @instDecidableAnd _ _ _ (decidableAlong step P (step s op) ops)

variable {ops ops' : List ι}

/-- The invariant rule for runs whose operations all meet a side condition. -/
theorem run_invariant_along {P : σ → ι → Prop}
    (hst : ∀ s op, Inv s → P s op → Inv (step s op)) (hs : Inv s)
    (hop : Along step P s ops) : Inv (run step s ops) := by
  induction ops generalizing s with
  | nil => exact hs
  | cons op ops ih => exact ih (hst s op hs hop.1) hop.2

/-- The state after a list of operations, when every one of them returns. -/
def run? (step : σ → ι → Option σ) (s : σ) (ops : List ι) : Option σ := ops.foldlM step s

@[simp] theorem run?_nil (step : σ → ι → Option σ) (s : σ) : run? step s [] = some s := rfl

@[simp] theorem run?_cons (step : σ → ι → Option σ) (s : σ) (op : ι) (ops : List ι) :
    run? step s (op :: ops) = (step s op).bind (fun t => run? step t ops) := rfl

theorem run?_append (step : σ → ι → Option σ) (s : σ) (ops ops' : List ι) :
    run? step s (ops ++ ops') = (run? step s ops).bind (fun t => run? step t ops') :=
  foldlM_append

variable {step : σ → ι → Option σ}

theorem run?_trans
    (h : run? step s ops = some t) (h' : run? step t ops' = some u) :
    run? step s (ops ++ ops') = some u := by
  rw [run?_append, h]
  exact h'

/-- `P` holds of every state a run passes through. -/
def Through (step : σ → ι → Option σ) (P : σ → Prop) : σ → List ι → Prop
  | s, [] => P s
  | s, op :: ops => P s ∧ ∀ t ∈ step s op, Through step P t ops

theorem Through.head
    (h : Through step P s ops) : P s := by
  cases ops with
  | nil => exact h
  | cons op ops => exact h.1

/-- Runs return and keep an invariant when every operation does so from the states that
satisfy `P`. -/
theorem run?_invariant
    (hst : ∀ s op, Inv s → ∃ t, step s op = some t ∧ (P t → Inv t)) (hs : Inv s)
    (hop : Through step P s ops) : ∃ t, run? step s ops = some t ∧ Inv t := by
  induction ops generalizing s with
  | nil => exact ⟨s, rfl, hs⟩
  | cons op ops ih =>
    obtain ⟨t, ht, hn⟩ := hst s op hs
    have hr := hop.2 t ht
    rw [run?_cons, ht]
    exact ih (hn hr.head) hr

theorem run?_preserves
    (hst : ∀ s op t, Inv s → step s op = some t → Inv t) {s t : σ} (hs : Inv s)
    (hr : run? step s ops = some t) : Inv t := by
  induction ops generalizing s with
  | nil =>
    cases hr
    exact hs
  | cons op ops ih =>
    rw [run?_cons, bind_eq_some_iff] at hr
    obtain ⟨u, hu, hr⟩ := hr
    exact ih (hst s op u hs hu) hr

/-- `P` holds of every operation of a run with the states before and after it. -/
def Across (step : σ → ι → Option σ) (P : σ → ι → σ → Prop) : σ → List ι → Prop
  | _, [] => True
  | s, op :: ops => ∀ t ∈ step s op, P s op t ∧ Across step P t ops

theorem across_of_forall_mem {Q : ι → Prop}
    (h : ∀ op ∈ ops, Q op) : Across step (fun _ op _ => Q op) s ops := by
  induction ops generalizing s with
  | nil => trivial
  | cons op ops ih =>
    exact fun t _ => ⟨h op mem_cons_self, ih (fun o ho => h o (mem_cons_of_mem op ho))⟩

theorem Across.append {P : σ → ι → σ → Prop}
    (h : Across step P s ops) (h' : ∀ t, run? step s ops = some t → Across step P t ops') :
    Across step P s (ops ++ ops') := by
  induction ops generalizing s with
  | nil => exact h' s rfl
  | cons op ops ih =>
    intro t ht
    refine ⟨(h t ht).1, ih (h t ht).2 (fun u hu => h' u ?_)⟩
    rw [run?_cons, mem_def.mp ht]
    exact hu

/-- The invariant rule for runs whose operations all meet a side condition on their effect. -/
theorem run?_invariant_across {P : σ → ι → σ → Prop}
    (hst : ∀ s op t, Inv s → step s op = some t → P s op t → Inv t) {s t : σ} (hs : Inv s)
    (hop : Across step P s ops) (hr : run? step s ops = some t) : Inv t := by
  induction ops generalizing s with
  | nil =>
    cases hr
    exact hs
  | cons op ops ih =>
    rw [run?_cons, bind_eq_some_iff] at hr
    obtain ⟨u, hu, hr⟩ := hr
    obtain ⟨hP, hre⟩ := hop u hu
    exact ih (hst s op u hs hu hP) hre hr

/-- What the operations of a run answer, when every one of them returns. -/
def outputs {ο : Type} (step : σ → ι → Option σ) (out : σ → ι → ο) : σ → List ι → Option (List ο)
  | _, [] => some []
  | s, op :: ops => (step s op).bind (fun t => (outputs step out t ops).map (out s op :: ·))

/-- Two machines that stay related answer alike, while the first satisfies `P`. -/
theorem outputs_eq_of_simulation {out : σ → ι → ο}
    {step' : τ → ι → Option τ} {out' : τ → ι → ο} {R : σ → τ → Prop}
    (hsp : ∀ s t op, R s t → out s op = out' t op ∧ ∃ s' t', step s op = some s' ∧
      step' t op = some t' ∧ (P s' → R s' t')) {t : τ} (hst : R s t)
    (hop : Through step P s ops) :
    ∃ answers, outputs step out s ops = some answers ∧ outputs step' out' t ops = some answers := by
  induction ops generalizing s t with
  | nil => exact ⟨[], rfl, rfl⟩
  | cons op ops ih =>
    obtain ⟨hou, s', t', hs, ht, hn⟩ := hsp s t op hst
    have hr := hop.2 s' hs
    obtain ⟨answers, ha, ha'⟩ := ih (hn hr.head) hr
    refine ⟨out s op :: answers, ?_, ?_⟩
    · rw [outputs, hs, bind_some, ha, map_some]
    · rw [outputs, ht, bind_some, ha', map_some, hou]

theorem outputs_isSome (step : σ → ι → Option σ) (out : σ → ι → ο) (s : σ)
    (ops : List ι) : (outputs step out s ops).isSome = (run? step s ops).isSome := by
  induction ops generalizing s with
  | nil => rfl
  | cons op ops ih =>
    rw [outputs, run?_cons]
    cases step s op with
    | none => rfl
    | some t =>
      rw [bind_some, isSome_map]
      exact ih t

end AiGateway.Lib
