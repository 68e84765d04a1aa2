import Mathlib.Algebra.GroupWithZero.Nat
import Mathlib.Algebra.Ring.Int.Defs
import Mathlib.Data.Rat.Defs
import Mathlib.Tactic.Common

/-!
# JSON values

The values that domains, access rows and requests are made of.  A number is an integer or a double; a
double is the rational it denotes, so that what is said of numbers needs no arithmetic of floats but
the rounding of an integer (`Number.toDouble`).

* `Json.depth` — how deeply arrays and objects nest, the measure of every recursion into a value.
* `depth_lt_of_mem` — an item of an array nests less deeply than the array.
* `Number.asI64`, `Json.asStr`, `Json.asArray` — a value read as one of a type, as the source reads
  it.
-/

namespace OdooKernel

/-- A JSON number: an integer, or the rational a double denotes. -/
inductive Number where
  | int (n : Int)
  | float (q : Rat)
deriving DecidableEq, Repr

/-- A JSON value. -/
inductive Json where
  | null
  | bool (b : Bool)
  | number (n : Number)
  | string (s : String)
  | array (items : List Json)
  | object (fields : List (String × Json))
deriving Repr

mutual
/-- Equality of values, decided along the nesting. -/
def Json.decEq : (a b : Json) → Decidable (a = b)
  | .null, .null => isTrue rfl
  | .bool a, .bool b => decidable_of_iff (a = b) (by simp)
  | .number a, .number b => decidable_of_iff (a = b) (by simp)
  | .string a, .string b => decidable_of_iff (a = b) (by simp)
  | .array a, .array b => match Json.decEqItems a b with
    | isTrue h => isTrue (by rw [h])
    | isFalse h => isFalse (by simpa using h)
  | .object a, .object b => match Json.decEqFields a b with
    | isTrue h => isTrue (by rw [h])
    | isFalse h => isFalse (by simpa using h)
  | .null, .bool _ | .null, .number _ | .null, .string _ | .null, .array _ | .null, .object _
  | .bool _, .null | .bool _, .number _ | .bool _, .string _ | .bool _, .array _
  | .bool _, .object _ | .number _, .null | .number _, .bool _ | .number _, .string _
  | .number _, .array _ | .number _, .object _ | .string _, .null | .string _, .bool _
  | .string _, .number _ | .string _, .array _ | .string _, .object _
  | .array _, .null | .array _, .bool _ | .array _, .number _ | .array _, .string _
  | .array _, .object _ | .object _, .null | .object _, .bool _ | .object _, .number _
  | .object _, .string _ | .object _, .array _ => isFalse (by simp)

/-- Equality of the items of two arrays. -/
def Json.decEqItems : (a b : List Json) → Decidable (a = b)
  | [], [] => isTrue rfl
  | [], _ :: _ | _ :: _, [] => isFalse (by simp)
  | x :: xs, y :: ys => match Json.decEq x y, Json.decEqItems xs ys with
    | isTrue h, isTrue hs => isTrue (by rw [h, hs])
    | isFalse h, _ => isFalse (by simp [h])
    | _, isFalse h => isFalse (by simp [h])

/-- Equality of the fields of two objects. -/
def Json.decEqFields : (a b : List (String × Json)) → Decidable (a = b)
  | [], [] => isTrue rfl
  | [], _ :: _ | _ :: _, [] => isFalse (by simp)
  | (k, x) :: xs, (l, y) :: ys =>
    match (inferInstance : Decidable (k = l)), Json.decEq x y, Json.decEqFields xs ys with
    | isTrue hk, isTrue h, isTrue hs => isTrue (by rw [hk, h, hs])
    | isFalse h, _, _ => isFalse (by simp [h])
    | _, isFalse h, _ => isFalse (by simp [h])
    | _, _, isFalse h => isFalse (by simp [h])
end
instance : DecidableEq Json := Json.decEq

/-! ## Depth -/

mutual
/-- How deeply arrays and objects nest in a value. -/
def Json.depth : Json → ℕ
  | .array items => 1 + Json.depthItems items
  | .object fields => 1 + Json.depthFields fields
  | _ => 0

/-- The depth of the deepest item. -/
def Json.depthItems : List Json → ℕ
  | [] => 0
  | j :: js => max j.depth (Json.depthItems js)

/-- The depth of the deepest field. -/
def Json.depthFields : List (String × Json) → ℕ
  | [] => 0
  | (_, j) :: js => max j.depth (Json.depthFields js)
end

lemma Json.depth_le_depthItems {j : Json} : ∀ {items : List Json}, j ∈ items →
    j.depth ≤ Json.depthItems items
  | i :: items, h => by
      rcases List.mem_cons.mp h with rfl | h
      · exact le_max_left _ _
      · exact (Json.depth_le_depthItems h).trans (le_max_right _ _)

/-- An item of an array nests less deeply than the array. -/
lemma Json.depth_lt_of_mem {j : Json} {items : List Json} (h : j ∈ items) :
    j.depth < (Json.array items).depth := by
  have := Json.depth_le_depthItems h
  simp only [Json.depth]
  omega

/-! ## Reading a value -/

/-- The rational a number denotes. -/
def Number.toRat : Number → ℚ
  | .int n => n
  | .float q => q

/-- An integer that fits an `i64`. -/
def Number.asI64 : Number → Option ℤ
  | .int n => if -2 ^ 63 ≤ n ∧ n < 2 ^ 63 then some n else none
  | .float _ => none

/-- The text of a string. -/
def Json.asStr : Json → Option String
  | .string s => some s
  | _ => none

/-- The items of an array. -/
def Json.asArray : Json → Option (List Json)
  | .array items => some items
  | _ => none

/-- An integer that fits an `i64`. -/
def Json.asI64 : Json → Option ℤ
  | .number n => n.asI64
  | _ => none

/-- The double nearest to an integer, the even one of two. -/
def doubleOfInt (n : ℤ) : ℤ :=
  let m := n.natAbs
  if m < 2 ^ 53 then n
  else
    let unit := 2 ^ (Nat.log2 m - 52)
    let down := m / unit
    let rest := m % unit
    let rounded := if 2 * rest < unit ∨ (2 * rest = unit ∧ down % 2 = 0) then down else down + 1
    n.sign * (rounded * unit : ℕ)

/-- The double a number is read as. -/
def Number.toDouble : Number → ℚ
  | .int n => doubleOfInt n
  | .float q => q

/-- The value of a number, as a double. -/
def Json.asF64 : Json → Option ℚ
  | .number n => some n.toDouble
  | _ => none

/-- Whether a value is a string. -/
def Json.isString (j : Json) : Bool := j.asStr.isSome

/-- Whether a value is an array. -/
def Json.isArray (j : Json) : Bool := j.asArray.isSome

/-- The array of an integer list. -/
def Json.ints (ns : List ℤ) : Json := .array (ns.map fun n => .number (.int n))

@[simp] lemma Json.asStr_eq_some {j : Json} {s : String} : j.asStr = some s ↔ j = .string s := by
  cases j <;> simp [Json.asStr]

@[simp] lemma Json.asArray_eq_some {j : Json} {items : List Json} :
    j.asArray = some items ↔ j = .array items := by
  cases j <;> simp [Json.asArray]

lemma Json.isArray_iff {j : Json} : j.isArray = true ↔ ∃ items, j = .array items := by
  cases j <;> simp [Json.isArray, Json.asArray]

end OdooKernel
