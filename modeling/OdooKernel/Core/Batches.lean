import Mathlib.Data.List.Basic
import Mathlib.Tactic.Common

/-!
# Lists a batch at a time

* `batches` — the slices of a list that start at each multiple of a size.
* `flatten_batches` — one after the other they are the list.
-/

namespace OdooKernel

section Batches

variable {α : Type}

/-- The slices of a list that start at each multiple of `size`, until the list ends. -/
def batches (size : ℕ) (xs : List α) : List (List α) :=
  (List.range ((xs.length + size - 1) / size)).map fun i => (xs.drop (i * size)).take size

/-- The first slices are the front of the list. -/
lemma flatten_first_batches (size : ℕ) (xs : List α) (n : ℕ) :
    ((List.range n).map fun i => (xs.drop (i * size)).take size).flatten = xs.take (n * size) := by
  induction n with
  | zero => simp
  | succ n ih =>
      rw [List.range_succ, List.map_append, List.flatten_append, ih, Nat.succ_mul, List.take_add]
      simp

/-- **The batches, one after the other, are the list.** -/
lemma flatten_batches {size : ℕ} (hsize : 0 < size) (xs : List α) : (batches size xs).flatten = xs := by
  rw [batches, flatten_first_batches]
  apply List.take_of_length_le
  have hdiv := Nat.lt_div_mul_add (a := xs.length + size - 1) hsize
  omega

lemma mem_of_mem_batches {size : ℕ} {xs batch : List α} (h : batch ∈ batches size xs) {x : α}
    (hx : x ∈ batch) : x ∈ xs := by
  obtain ⟨i, -, rfl⟩ := List.mem_map.mp h
  exact List.mem_of_mem_drop (List.mem_of_mem_take hx)

end Batches

end OdooKernel
