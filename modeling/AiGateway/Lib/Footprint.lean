import Mathlib.Data.List.Nodup
import Mathlib.Data.List.Pairwise
import Mathlib.Data.List.Perm.Basic

/-! Updates of a family of values that read and write only the indices of a footprint. Updates
with disjoint footprints can be made in any order. -/
namespace AiGateway.Lib
open List

variable {κ α ι : Type}

structure LocalTo (footprint : List κ) (f : (κ → α) → κ → α) : Prop where
  frame : ∀ v {k}, k ∉ footprint → f v k = v k
  reads : ∀ {v w}, (∀ k ∈ footprint, v k = w k) → ∀ k ∈ footprint, f v k = f w k

namespace LocalTo

variable {s t : List κ} {f g : (κ → α) → κ → α}

/-- Inside its footprint an update does not see one made elsewhere. -/
theorem apply_apply (hf : LocalTo s f) (hg : LocalTo t g) (hd : s.Disjoint t) (v : κ → α) {k : κ}
    (hk : k ∈ s) : f (g v) k = f v k :=
  hf.reads (fun _ hj => hg.frame v (hd hj)) k hk

theorem comm (hf : LocalTo s f) (hg : LocalTo t g) (hd : s.Disjoint t) (v : κ → α) :
    f (g v) = g (f v) := by
  funext k
  by_cases hs : k ∈ s
  · rw [hf.apply_apply hg hd v hs, hg.frame _ (hd hs)]
  · by_cases ht : k ∈ t
    · rw [hg.apply_apply hf (disjoint_symm hd) v ht, hf.frame _ hs]
    · rw [hf.frame _ hs, hg.frame _ ht, hg.frame _ ht, hf.frame _ hs]

/-- Updates whose footprints do not meet. -/
theorem foldl_perm {footprint : ι → List κ} {act : (κ → α) → ι → κ → α} {l l' : List ι}
    (hp : l ~ l') (hnd : (l.flatMap footprint).Nodup)
    (hl : ∀ i ∈ l, LocalTo (footprint i) (act · i)) (v : κ → α) :
    l.foldl act v = l'.foldl act v := by
  have hsymm : Std.Symm (Function.onFun Disjoint footprint) := ⟨fun _ _ => disjoint_symm⟩
  refine hp.foldl_eq' (fun i hi j hj v => ?_) v
  by_cases heq : i = j
  · rw [heq]
  · have hd : (footprint i).Disjoint (footprint j) := (nodup_flatMap.mp hnd).2.forall hi hj heq
    exact ((hl i hi).comm (hl j hj) hd v).symm

end LocalTo
end AiGateway.Lib
