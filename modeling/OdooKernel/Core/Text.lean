import Mathlib.Data.List.Infix
import Mathlib.Data.Nat.Notation
import Mathlib.Tactic.Common

/-!
# Texts as lists of characters

* `splitDots`, `joinDots` — a dotted path and its steps; `joinDots_splitDots`.
* `splitOnce` — a path's first step and the rest of it.
* `isWhitespace`, `trimmed` — white space, and a text without what surrounds it.
* `span_append`, `exists_span` — the first of a text, up to what does not belong to it.
* `startsWith`, `endsWith`, `containsText` — how operators are told apart.
-/

namespace OdooKernel

/-- The value of a list of digits. -/
def digitsValue (ds : List Char) : ℕ := ds.foldl (fun n d => 10 * n + (d.toNat - 48)) 0

/-- Unicode white space. -/
def isWhitespace (c : Char) : Bool :=
  let n := c.toNat
  (9 ≤ n && n ≤ 13) || n = 32 || n = 0x85 || n = 0xA0 || n = 0x1680 || (0x2000 ≤ n && n ≤ 0x200A) ||
    n = 0x2028 || n = 0x2029 || n = 0x202F || n = 0x205F || n = 0x3000

/-- A text without the white space around it. -/
def trimmed (cs : List Char) : List Char :=
  ((cs.dropWhile isWhitespace).reverse.dropWhile isWhitespace).reverse

/-! ## Characters -/

lemma char_eq_iff {c d : Char} : c = d ↔ c.toNat = d.toNat :=
  ⟨fun h => h ▸ rfl, fun h => Char.ext (UInt32.toNat_inj.mp h)⟩

lemma isUpper_iff (c : Char) : c.isUpper = true ↔ 65 ≤ c.toNat ∧ c.toNat ≤ 90 := by
  show decide (c.val ≥ 'A'.val ∧ c.val ≤ 'Z'.val) = true ↔ _
  rw [decide_eq_true_iff]
  exact and_congr UInt32.le_iff_toNat_le UInt32.le_iff_toNat_le

lemma isLower_iff (c : Char) : c.isLower = true ↔ 97 ≤ c.toNat ∧ c.toNat ≤ 122 := by
  show (decide (c.val ≥ 'a'.val) && decide (c.val ≤ 'z'.val)) = true ↔ _
  rw [Bool.and_eq_true, decide_eq_true_iff, decide_eq_true_iff]
  exact and_congr UInt32.le_iff_toNat_le UInt32.le_iff_toNat_le

lemma isDigit_iff (c : Char) : c.isDigit = true ↔ 48 ≤ c.toNat ∧ c.toNat ≤ 57 := by
  simp [Char.isDigit, UInt32.le_iff_toNat_le]

lemma isAlpha_iff (c : Char) : c.isAlpha = true ↔
    65 ≤ c.toNat ∧ c.toNat ≤ 90 ∨ 97 ≤ c.toNat ∧ c.toNat ≤ 122 :=
  Bool.or_eq_true_iff.trans (or_congr (isUpper_iff c) (isLower_iff c))

lemma toNat_toLower (c : Char) :
    c.toLower.toNat = if 65 ≤ c.toNat ∧ c.toNat ≤ 90 then c.toNat + 32 else c.toNat := by
  unfold Char.toLower
  by_cases h : 65 ≤ c.toNat ∧ c.toNat ≤ 90
  · have hupper : c.val ≥ 'A'.val ∧ c.val ≤ 'Z'.val :=
      ⟨UInt32.le_iff_toNat_le.mpr h.1, UInt32.le_iff_toNat_le.mpr h.2⟩
    rw [dif_pos hupper, if_pos h]
    show (c.val + ('a'.val - 'A'.val)).toNat = c.val.toNat + 32
    rw [UInt32.toNat_add]
    have hlt : c.val.toNat ≤ 90 := h.2
    have hdiff : ('a'.val - 'A'.val).toNat = 32 := by decide
    omega
  · have hupper : ¬ (c.val ≥ 'A'.val ∧ c.val ≤ 'Z'.val) := fun hupper =>
      h ⟨UInt32.le_iff_toNat_le.mp hupper.1, UInt32.le_iff_toNat_le.mp hupper.2⟩
    rw [dif_neg hupper, if_neg h]

lemma toNat_toUpper (c : Char) :
    c.toUpper.toNat = if 97 ≤ c.toNat ∧ c.toNat ≤ 122 then c.toNat - 32 else c.toNat := by
  unfold Char.toUpper
  by_cases h : 97 ≤ c.toNat ∧ c.toNat ≤ 122
  · have hlower : 'a'.val ≤ c.val ∧ c.val ≤ 'z'.val :=
      ⟨UInt32.le_iff_toNat_le.mpr h.1, UInt32.le_iff_toNat_le.mpr h.2⟩
    rw [dif_pos hlower, if_pos h]
    show (c.val + ('A'.val - 'a'.val)).toNat = c.val.toNat - 32
    rw [UInt32.toNat_add]
    have hlow : 97 ≤ c.val.toNat := h.1
    have hlt : c.val.toNat ≤ 122 := h.2
    have hdiff : ('A'.val - 'a'.val).toNat = 2 ^ 32 - 32 := by decide
    omega
  · have hlower : ¬ ('a'.val ≤ c.val ∧ c.val ≤ 'z'.val) := fun hlower =>
      h ⟨UInt32.le_iff_toNat_le.mp hlower.1, UInt32.le_iff_toNat_le.mp hlower.2⟩
    rw [dif_neg hlower, if_neg h]

/-- A capital is small again. -/
lemma toLower_toUpper (c : Char) : c.toUpper.toLower = c.toLower := by
  rw [char_eq_iff, toNat_toLower, toNat_toLower, toNat_toUpper]
  split_ifs <;> omega

/-! ## Paths -/

/-- The steps of a dotted path. -/
def splitDots (path : String) : List String := (path.toList.splitOn '.').map String.ofList

/-- The dotted path of some steps. -/
def joinDots (steps : List String) : String :=
  String.ofList (['.'].intercalate (steps.map String.toList))

/-- The first step of a dotted path, and the rest of it; nothing for a path of one step. -/
def splitOnce (path : String) : Option (String × String) :=
  match splitDots path with
  | head :: step :: rest => some (head, joinDots (step :: rest))
  | _ => none

/-- The first segment of a dotted path. -/
def headOf (path : String) : String := (splitDots path).headD path

@[simp] lemma joinDots_splitDots (path : String) : joinDots (splitDots path) = path := by
  have htoList : (splitDots path).map String.toList = path.toList.splitOn '.' := by
    simp [splitDots, Function.comp_def]
  rw [joinDots, htoList, List.intercalate_splitOn, String.ofList_toList]

/-! ## Parts of a text -/

/-- What satisfies a condition, up to the first that does not. -/
lemma span_append {α : Type} {p : α → Bool} {xs rest : List α} (hxs : ∀ c ∈ xs, p c)
    (hrest : ∀ c ∈ rest.head?, p c = false) :
    (xs ++ rest).takeWhile p = xs ∧ (xs ++ rest).dropWhile p = rest := by
  rw [List.takeWhile_append_of_pos hxs, List.dropWhile_append_of_pos hxs]
  cases rest with
  | nil => simp
  | cons c cs => simp [hrest c rfl]

lemma exists_span {α : Type} (p : α → Bool) (text : List α) : ∃ xs rest, text = xs ++ rest ∧
    (∀ c ∈ xs, p c) ∧ ∀ c ∈ rest.head?, p c = false := by
  refine ⟨text.takeWhile p, text.dropWhile p, List.takeWhile_append_dropWhile.symm,
    fun c hc => List.all_eq_true.mp List.all_takeWhile c hc, fun c hc => ?_⟩
  have hhead := List.head?_dropWhile_not p text
  rw [Option.mem_def.mp hc] at hhead
  simpa using hhead

def startsWith (start text : String) : Bool := start.toList.isPrefixOf text.toList

def endsWith (ending text : String) : Bool := ending.toList.isSuffixOf text.toList

def containsText (part text : String) : Bool := decide (part.toList <:+: text.toList)

end OdooKernel
