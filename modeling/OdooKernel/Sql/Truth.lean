import Mathlib.Tactic.Common

/-!
# Three-valued logic

A condition of SQL is true, false or unknown, and a row is selected where it is true.

* `Truth.and`, `Truth.or`, `Truth.not`, `Truth.isNotTrue` — the connectives.
* `Truth.all`, `Truth.any` — a junction of any number of conditions.
* `IsTrue` — where a row is selected, and what it is for each connective.
* `Truth.memberOf` — membership, which is unknown where an unknown comparison could decide it.
-/

namespace OdooKernel

/-- True, false, or unknown. -/
abbrev Truth := Option Bool

namespace Truth

protected def and : Truth → Truth → Truth
  | some false, _ | _, some false => some false
  | some true, t | t, some true => t
  | none, none => none

protected def or : Truth → Truth → Truth
  | some true, _ | _, some true => some true
  | some false, t | t, some false => t
  | none, none => none

protected def not : Truth → Truth := Option.map (!·)

/-- `IS NOT TRUE`, which is never unknown. -/
def isNotTrue (t : Truth) : Truth := some (t ≠ some true)

/-- A conjunction of any number of conditions: true when there is none. -/
def all (ts : List Truth) : Truth := ts.foldr Truth.and (some true)

/-- A disjunction of any number of conditions: false when there is none. -/
def any (ts : List Truth) : Truth := ts.foldr Truth.or (some false)

/-- Whether a value is among others, when `eq` compares two values. -/
def memberOf {α β : Type} (eq : α → β → Truth) (x : α) (ys : List β) : Truth := any (ys.map (eq x))

end Truth

/-- A row is selected where its condition is true. -/
def IsTrue (t : Truth) : Prop := t = some true

instance (t : Truth) : Decidable (IsTrue t) := inferInstanceAs (Decidable (_ = _))

section

variable {s t : Truth}

@[simp] lemma isTrue_some (b : Bool) : IsTrue (some b) ↔ b = true := by simp [IsTrue]

@[simp] lemma not_isTrue_none : ¬ IsTrue none := by simp [IsTrue]

@[simp] lemma isTrue_and : IsTrue (s.and t) ↔ IsTrue s ∧ IsTrue t := by
  rcases s with _ | _ | _ <;> rcases t with _ | _ | _ <;> simp [Truth.and, IsTrue]

@[simp] lemma isTrue_or : IsTrue (s.or t) ↔ IsTrue s ∨ IsTrue t := by
  rcases s with _ | _ | _ <;> rcases t with _ | _ | _ <;> simp [Truth.or, IsTrue]

@[simp] lemma isTrue_isNotTrue : IsTrue t.isNotTrue ↔ ¬ IsTrue t := by
  simp [Truth.isNotTrue, IsTrue]

/-- What is known is either true or its negation is. -/
lemma isTrue_not_of_known (h : t ≠ none) : IsTrue t.not ↔ ¬ IsTrue t := by
  rcases t with _ | _ | _
  · exact absurd rfl h
  · simp [Truth.not, IsTrue]
  · simp [Truth.not, IsTrue]

@[simp] lemma isTrue_all (ts : List Truth) : IsTrue (Truth.all ts) ↔ ∀ t ∈ ts, IsTrue t := by
  induction ts with
  | nil => simp [Truth.all]
  | cons t ts ih => simpa [Truth.all] using and_congr_right fun _ => ih

@[simp] lemma isTrue_any (ts : List Truth) : IsTrue (Truth.any ts) ↔ ∃ t ∈ ts, IsTrue t := by
  induction ts with
  | nil => simp [Truth.any]
  | cons t ts ih => simpa [Truth.any] using or_congr_right ih

/-- What a disjunction is worth. -/
lemma any_eq (ts : List Truth) : Truth.any ts =
    if some true ∈ ts then some true else if none ∈ ts then none else some false := by
  induction ts with
  | nil => rfl
  | cons t ts ih =>
      have hcons : Truth.any (t :: ts) = t.or (Truth.any ts) := rfl
      rw [hcons, ih]
      rcases t with _ | _ | _ <;> simp only [List.mem_cons] <;> split_ifs <;> simp_all [Truth.or]

/-- A disjunction depends on which its members are. -/
lemma Truth.any_congr {ts ts' : List Truth} (h : ∀ t, t ∈ ts ↔ t ∈ ts') :
    Truth.any ts = Truth.any ts' := by
  simp only [any_eq, h]

/-- A disjunction of known conditions is known. -/
lemma any_known {ts : List Truth} (h : ∀ t ∈ ts, t ≠ none) : Truth.any ts ≠ none := by
  induction ts with
  | nil => simp [Truth.any]
  | cons t ts ih =>
      rw [List.forall_mem_cons] at h
      have hrest := ih h.2
      have : Truth.any (t :: ts) = t.or (Truth.any ts) := rfl
      rw [this]
      rcases ht : t with _ | _ | _
      · exact absurd ht h.1
      · rcases hts : Truth.any ts with _ | _ | _ <;> simp_all [Truth.or]
      · simp [Truth.or]

lemma any_eq_none_of_unknown {ts : List Truth} (hne : ts ≠ []) (h : ∀ t ∈ ts, t = none) :
    Truth.any ts = none := by
  induction ts with
  | nil => exact absurd rfl hne
  | cons t ts ih =>
      rw [List.forall_mem_cons] at h
      have hcons : Truth.any (t :: ts) = t.or (Truth.any ts) := rfl
      rw [hcons, h.1]
      cases ts with
      | nil => simp [Truth.any, Truth.or]
      | cons t' ts => rw [ih (by simp) h.2]; rfl

end

end OdooKernel
