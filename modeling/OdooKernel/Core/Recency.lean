import Mathlib.Data.List.Basic
import Mathlib.Data.Nat.Notation

/-!
# A queue of the keys that were used last

What a cache of a fixed capacity that evicts the key used longest ago is for: a list of keys and
values, from the one used longest ago to the one used last.  It has no clock and no ages, so that a
cache that has them can be compared with it by what it answers.

* `Recency.Op`, `Recency.Answer` — what is asked of such a cache, and what it answers: the value it
  found, or the key it evicted.
* `Recency.step`, `Recency.run` — the queue's answers, and what is left in it.
* `Recency.WellKept` — every key once, and no more of them than the capacity; kept by every step and
  run.
-/

namespace OdooKernel

namespace Recency

variable {κ τ : Type} [DecidableEq κ]

/-- What is asked of a cache. -/
inductive Op (κ τ : Type) where
  | get (key : κ)
  | insert (key : κ) (value : τ)
  | remove (key : κ)
  | clear

/-- What a cache answers: the value it found, or the key it evicted. -/
inductive Answer (κ τ : Type) where
  | found (value : Option τ)
  | evicted (key : Option κ)
  | done
deriving DecidableEq

/-- A queue without a key. -/
def without (key : κ) (queue : List (κ × τ)) : List (κ × τ) := queue.filter (·.1 ≠ key)

/-- The value of a key. -/
def find (key : κ) (queue : List (κ × τ)) : Option τ :=
  (queue.find? (·.1 = key)).map (·.2)

/-- The key and its value at the end of the queue. -/
def use (key : κ) (value : τ) (queue : List (κ × τ)) : List (κ × τ) :=
  without key queue ++ [(key, value)]

/-- The queue after a step, and the answer: what exceeds the capacity leaves at the front. -/
def step (capacity : ℕ) (queue : List (κ × τ)) : Op κ τ → List (κ × τ) × Answer κ τ
  | .get key =>
    match find key queue with
    | some value => (use key value queue, .found (some value))
    | none => (queue, .found none)
  | .insert key value =>
    let used := use key value queue
    if used.length > capacity then (used.tail, .evicted (used.head?.map (·.1)))
    else (used, .evicted none)
  | .remove key => (without key queue, .done)
  | .clear => ([], .done)

/-- The queue after some steps, and the answers. -/
def run (capacity : ℕ) : List (κ × τ) → List (Op κ τ) → List (κ × τ) × List (Answer κ τ)
  | queue, [] => (queue, [])
  | queue, op :: ops =>
    let (queue, answer) := step capacity queue op
    let (queue, answers) := run capacity queue ops
    (queue, answer :: answers)

/-- Every key once, and no more of them than the capacity. -/
structure WellKept (capacity : ℕ) (queue : List (κ × τ)) : Prop where
  nodup : (queue.map (·.1)).Nodup
  bounded : queue.length ≤ capacity

variable {capacity : ℕ} {queue : List (κ × τ)} {key : κ} {value : τ}

lemma mem_without {entry : κ × τ} : entry ∈ without key queue ↔ entry ∈ queue ∧ entry.1 ≠ key := by
  simp [without]

lemma nodup_without (h : (queue.map (·.1)).Nodup) : ((without key queue).map (·.1)).Nodup :=
  h.sublist ((List.filter_sublist).map _)

lemma nodup_use (key : κ) (value : τ) (h : (queue.map (·.1)).Nodup) :
    ((use key value queue).map (·.1)).Nodup := by
  rw [use, List.map_append, List.nodup_append]
  refine ⟨nodup_without h, by simp, ?_⟩
  rintro k hk k' hk' rfl
  obtain ⟨entry, hentry, rfl⟩ := List.mem_map.mp hk
  exact (mem_without.mp hentry).2 (by simpa using hk')

/-- The value of a key is the value that is kept with it. -/
lemma find_eq_some (h : (queue.map (·.1)).Nodup) :
    find key queue = some value ↔ (key, value) ∈ queue := by
  induction queue with
  | nil => simp [find]
  | cons entry queue ih =>
      obtain ⟨k, v⟩ := entry
      rw [List.map_cons, List.nodup_cons] at h
      by_cases hk : k = key
      · subst hk
        have hnot : (k, value) ∉ queue := fun hmem => h.1 (List.mem_map.mpr ⟨_, hmem, rfl⟩)
        simp [find, hnot, eq_comm]
      · rw [List.mem_cons, ← ih h.2]
        simp [find, hk, Ne.symm hk]

/-- A key that is used again takes its own place. -/
lemma length_without_of_mem (h : (queue.map (·.1)).Nodup) (hmem : (key, value) ∈ queue) :
    (without key queue).length + 1 = queue.length := by
  induction queue with
  | nil => simp at hmem
  | cons entry queue ih =>
      obtain ⟨k, v⟩ := entry
      rw [List.map_cons, List.nodup_cons] at h
      by_cases hk : k = key
      · subst hk
        have hall : without k queue = queue := by
          refine List.filter_eq_self.mpr fun entry hentry => ?_
          have hne : entry.1 ≠ k := fun heq => h.1 (List.mem_map.mpr ⟨entry, hentry, heq⟩)
          simpa using hne
        have hcons : without k ((k, v) :: queue) = without k queue := by simp [without]
        rw [hcons, hall, List.length_cons]
      · have hmem' : (key, value) ∈ queue := by
          rcases List.mem_cons.mp hmem with heq | hmem
          · exact absurd (Prod.mk.inj heq).1.symm hk
          · exact hmem
        have hcons : without key ((k, v) :: queue) = (k, v) :: without key queue := by
          simp [without, hk]
        rw [hcons, List.length_cons, List.length_cons, ih h.2 hmem']

/-- **What a step keeps.** -/
lemma WellKept.step (h : WellKept capacity queue) (op : Op κ τ) :
    WellKept capacity (step capacity queue op).1 := by
  cases op with
  | get key =>
      rw [Recency.step]
      split
      · next value hfind =>
          refine ⟨nodup_use key value h.nodup, ?_⟩
          have hlen := length_without_of_mem h.nodup ((find_eq_some h.nodup).mp hfind)
          have hbound := h.bounded
          simp only [use, List.length_append, List.length_singleton]
          omega
      · exact h
  | insert key value =>
      have hnodup := nodup_use key value h.nodup
      rw [Recency.step]
      split_ifs with hlen
      · refine ⟨?_, ?_⟩
        · exact hnodup.sublist ((List.tail_sublist _).map _)
        · have hle : (without key queue).length ≤ queue.length := List.length_filter_le _ _
          have hbound := h.bounded
          simp only [use, List.length_tail, List.length_append, List.length_singleton]
          omega
      · exact ⟨hnodup, Nat.le_of_not_lt hlen⟩
  | remove key =>
      exact ⟨nodup_without h.nodup, Nat.le_trans (List.length_filter_le _ _) h.bounded⟩
  | clear => exact ⟨List.nodup_nil, Nat.zero_le _⟩

/-- **What a run keeps.** -/
lemma WellKept.run (h : WellKept capacity queue) (ops : List (Op κ τ)) :
    WellKept capacity (run capacity queue ops).1 := by
  induction ops generalizing queue with
  | nil => exact h
  | cons op ops ih => exact ih (h.step op)

omit [DecidableEq κ] in
lemma wellKept_nil : WellKept capacity ([] : List (κ × τ)) := ⟨List.nodup_nil, Nat.zero_le _⟩

end Recency

end OdooKernel
