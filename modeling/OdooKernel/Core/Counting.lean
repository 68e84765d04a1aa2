import Mathlib.Algebra.BigOperators.Group.Finset.Piecewise
import Mathlib.Algebra.Order.BigOperators.Group.Finset

/-!
# Counting over a family

A finite family of parties, each in a state of its own, and a weight for every state.

* `countOf` — the sum of the weights; `countOf_update` is what one party that changes changes.
-/

namespace OdooKernel

variable {ι β : Type} [Fintype ι]

/-- The sum of the weights of a family. -/
def countOf (weight : β → ℕ) (state : ι → β) : ℕ := ∑ i, weight (state i)

lemma countOf_update [DecidableEq ι] (weight : β → ℕ) (state : ι → β) (i : ι) (b : β) :
    countOf weight (Function.update state i b) + weight (state i) =
      countOf weight state + weight b := by
  have hcomp : (fun j => weight (Function.update state i b j)) =
      Function.update (fun j => weight (state j)) i (weight b) :=
    Function.comp_update weight state i b
  have hmem := Finset.mem_univ i
  simp only [countOf, hcomp, Finset.sum_update_of_mem hmem]
  rw [Finset.sdiff_singleton_eq_erase, ← Finset.add_sum_erase _ _ hmem]
  omega

/-- One party weighs at most as much as the family. -/
lemma weight_le_countOf (weight : β → ℕ) (state : ι → β) (i : ι) :
    weight (state i) ≤ countOf weight state :=
  Finset.single_le_sum (f := fun j => weight (state j)) (fun _ _ => Nat.zero_le _)
    (Finset.mem_univ i)

lemma countOf_eq_zero {weight : β → ℕ} {state : ι → β} (h : ∀ i, weight (state i) = 0) :
    countOf weight state = 0 := Finset.sum_eq_zero fun i _ => h i

end OdooKernel
