import Mathlib.Algebra.BigOperators.Group.List.Lemmas
import Mathlib.Algebra.GroupWithZero.Nat
import Mathlib.Data.List.Dedup
import Mathlib.Tactic.Common

/-!
# The groups of a list

The elements of a list, grouped by a key: one group for each key that some element has.

* `groupsBy` — the groups.
* `sum_length_groupsBy` — each element is in one group.
* `ne_nil_of_mem_groupsBy`, `groupsBy_apart` — no group is empty, and two groups have two keys.
-/

namespace OdooKernel

variable {α κ : Type} [DecidableEq κ] (key : α → κ)

/-- The elements with a key. -/
def withKey (rows : List α) (k : κ) : List α := rows.filter fun a => key a = k

/-- **The groups of a list**, one for each key. -/
def groupsBy (rows : List α) : List (List α) := (rows.map key).dedup.map (withKey key rows)

variable {key} {rows : List α}

lemma mem_withKey {k : κ} {a : α} : a ∈ withKey key rows k ↔ a ∈ rows ∧ key a = k := by
  simp [withKey]

/-- A group is that of the key of each of its elements. -/
lemma eq_withKey_of_mem {group : List α} (hgroup : group ∈ groupsBy key rows) {a : α}
    (ha : a ∈ group) : group = withKey key rows (key a) := by
  obtain ⟨k, -, rfl⟩ := List.mem_map.mp hgroup
  rw [(mem_withKey.mp ha).2]

lemma mem_of_mem_groupsBy {group : List α} (hgroup : group ∈ groupsBy key rows) {a : α}
    (ha : a ∈ group) : a ∈ rows := by
  obtain ⟨k, -, rfl⟩ := List.mem_map.mp hgroup
  exact (mem_withKey.mp ha).1

/-- No group is empty. -/
lemma ne_nil_of_mem_groupsBy {group : List α} (hgroup : group ∈ groupsBy key rows) :
    group ≠ [] := by
  obtain ⟨k, hk, rfl⟩ := List.mem_map.mp hgroup
  obtain ⟨a, ha, rfl⟩ := List.mem_map.mp (List.mem_dedup.mp hk)
  exact List.ne_nil_of_mem (mem_withKey.mpr ⟨ha, rfl⟩)

/-- Every element is in the group of its key. -/
lemma withKey_mem_groupsBy (key : α → κ) {a : α} (ha : a ∈ rows) :
    withKey key rows (key a) ∈ groupsBy key rows :=
  List.mem_map.mpr ⟨key a, List.mem_dedup.mpr (List.mem_map.mpr ⟨a, ha, rfl⟩), rfl⟩

/-- **Two groups have two keys.** -/
lemma groupsBy_apart : (groupsBy key rows).Pairwise fun group group' =>
    ∀ a ∈ group, ∀ b ∈ group', key a ≠ key b := by
  rw [groupsBy, List.pairwise_map]
  refine (List.nodup_dedup _).imp fun hne a ha b hb heq => hne ?_
  rw [← (mem_withKey.mp ha).2, heq, (mem_withKey.mp hb).2]

/-- **Each element is in one group.** -/
lemma sum_length_groupsBy : ((groupsBy key rows).map List.length).sum = rows.length := by
  have hcount : ∀ k, (withKey key rows k).length = (rows.map key).count k := by
    intro k
    rw [withKey, ← List.countP_eq_length_filter, List.count, List.countP_map]
    exact List.countP_congr fun a _ => by simp
  rw [groupsBy, List.map_map, ← @List.length_map _ _ rows key,
    ← List.sum_map_count_dedup_eq_length (rows.map key)]
  exact congrArg List.sum (List.map_congr_left fun k _ => hcount k)

end OdooKernel
