import Mathlib.Data.List.Induction
import Mathlib.Tactic.Common

/-!
# Finite maps as association lists

A map whose iteration order is whatever order the list has.  Only the first entry of a key is seen.

* `Dict.get?` — the value of a key.
* `Dict.extendAt` — more values under a key, which is made when it is missing; `get?_extendAt` is
  its one equation.
* `Dict.insert`, `Dict.ofEntries` — a value in place of the one a key had, and several.
-/

namespace OdooKernel

variable {κ α : Type} [DecidableEq κ]

/-- A finite map. -/
abbrev Dict (κ α : Type) := List (κ × α)

/-- The value of a key. -/
def Dict.get? : Dict κ α → κ → Option α
  | [], _ => none
  | (k', a) :: d, k => if k' = k then some a else Dict.get? d k

/-- Whether a key has a value. -/
def Dict.containsKey (d : Dict κ α) (k : κ) : Bool := (d.get? k).isSome

/-- The value of a key that has a list. -/
def Dict.listAt (d : Dict κ (List α)) (k : κ) : List α := (d.get? k).getD []

/-- More values at the end of a key's list. -/
def Dict.extendAt : Dict κ (List α) → κ → List α → Dict κ (List α)
  | [], k, xs => [(k, xs)]
  | (k', ys) :: d, k, xs => if k' = k then (k', ys ++ xs) :: d else (k', ys) :: Dict.extendAt d k xs

/-- A value under a key, in place of the one it had. -/
def Dict.insert (d : Dict κ α) (k : κ) (a : α) : Dict κ α := (k, a) :: d.filter (·.1 ≠ k)

/-- A key has no value any more. -/
def Dict.pop (d : Dict κ α) (k : κ) : Dict κ α := d.filter (·.1 ≠ k)

/-- A map of some entries, one after the other. -/
def Dict.ofEntries (entries : List (κ × α)) : Dict κ α :=
  entries.foldl (fun d e => d.insert e.1 e.2) []

@[simp] lemma Dict.get?_nil (k : κ) : Dict.get? ([] : Dict κ α) k = none := rfl

lemma Dict.get?_cons (k' : κ) (a : α) (d : Dict κ α) (k : κ) :
    Dict.get? ((k', a) :: d) k = if k' = k then some a else Dict.get? d k := rfl

lemma Dict.get?_extendAt (d : Dict κ (List α)) (k : κ) (xs : List α) (k' : κ) :
    (d.extendAt k xs).get? k' = if k = k' then some (d.listAt k ++ xs) else d.get? k' := by
  induction d with
  | nil => simp [Dict.extendAt, Dict.get?_cons, Dict.listAt]
  | cons e d ih =>
      obtain ⟨l, ys⟩ := e
      by_cases hl : l = k
      · subst hl
        by_cases hk : l = k' <;> simp [Dict.extendAt, Dict.get?_cons, Dict.listAt, hk]
      · by_cases hk : k = k'
        · subst hk
          simp only [if_true, Dict.listAt] at ih
          simp [Dict.extendAt, Dict.get?_cons, Dict.listAt, hl, ih]
        · simp only [if_neg hk] at ih
          rw [Dict.extendAt, if_neg hl, Dict.get?_cons, Dict.get?_cons, ih, if_neg hk]

lemma Dict.listAt_extendAt (d : Dict κ (List α)) (k : κ) (xs : List α) (k' : κ) :
    (d.extendAt k xs).listAt k' = if k = k' then d.listAt k ++ xs else d.listAt k' := by
  simp only [Dict.listAt, Dict.get?_extendAt]
  split <;> rfl

lemma Dict.mem_of_get? {d : Dict κ α} {k : κ} {a : α} (h : d.get? k = some a) : (k, a) ∈ d := by
  induction d with
  | nil => simp at h
  | cons e d ih =>
      obtain ⟨l, b⟩ := e
      rw [Dict.get?_cons] at h
      split at h
      · next hl => subst hl; obtain rfl := Option.some.inj h; exact List.mem_cons_self
      · exact List.mem_cons_of_mem _ (ih h)

/-- A key of an entry has a value. -/
lemma Dict.isSome_get?_of_mem {d : Dict κ α} {e : κ × α} (h : e ∈ d) : (d.get? e.1).isSome := by
  induction d with
  | nil => exact absurd h List.not_mem_nil
  | cons e' d ih =>
      obtain ⟨k, a⟩ := e'
      rw [Dict.get?_cons]
      split
      · rfl
      · next hk =>
          rcases List.mem_cons.mp h with rfl | h
          · exact absurd rfl hk
          · exact ih h

lemma Dict.get?_filter (d : Dict κ α) (p : κ → Bool) (k : κ) :
    Dict.get? (d.filter fun e => p e.1) k = if p k then d.get? k else none := by
  induction d with
  | nil => simp
  | cons e d ih =>
      obtain ⟨l, a⟩ := e
      by_cases hl : l = k
      · subst hl
        by_cases hp : p l = true <;> simp [hp, Dict.get?_cons, ih]
      · by_cases hp : p l = true <;> simp [hp, Dict.get?_cons, hl, ih]

lemma Dict.get?_map {β : Type} (d : Dict κ α) (f : α → β) (k : κ) :
    Dict.get? (d.map fun e => (e.1, f e.2)) k = (d.get? k).map f := by
  induction d with
  | nil => simp
  | cons e d ih =>
      obtain ⟨l, a⟩ := e
      by_cases hl : l = k <;> simp [Dict.get?_cons, hl, ih]

lemma Dict.get?_insert (d : Dict κ α) (k : κ) (a : α) (k' : κ) :
    (d.insert k a).get? k' = if k = k' then some a else d.get? k' := by
  rw [Dict.insert, Dict.get?_cons, Dict.get?_filter d (fun l => l ≠ k)]
  split
  · rfl
  · next hk => simp [Ne.symm hk]

lemma Dict.get?_pop (d : Dict κ α) (k k' : κ) :
    (d.pop k).get? k' = if k = k' then none else d.get? k' := by
  rw [Dict.pop, Dict.get?_filter d (fun l => l ≠ k)]
  by_cases hk : k = k'
  · simp [hk]
  · simp [hk, Ne.symm hk]

end OdooKernel
