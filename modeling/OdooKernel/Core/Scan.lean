import Mathlib.Data.Nat.Notation
import Mathlib.Tactic.Common

/-!
# Reading a list a piece at a time

A reader looks at a position: the element before it, the element at it and the elements behind it.
It says what stands there and how many of the elements behind it belong to it.

**Why this shape.**  Lexers differ in what they look for and go over a text in the same way, so that
a reader is a function of a position and `scan` is the way.  A reader that looks at nothing before a
position reads the same wherever a text is cut (`scan_before`); one that does needs the last element
of the piece before it (`scan_skip`), and no more.

* `scan` — what a reader finds, from a position to the end of the list.
* `flatMap_scan` — a reader that keeps what it takes loses nothing.
* `scan_induct` — a property of the rest of a list, from one piece at a time.
-/

namespace OdooKernel

variable {α β : Type}

/-- What stands at a position, and how many of the elements behind it belong to it. -/
abbrev Scanner (α β : Type) := Option α → α → List α → ℕ × β

/-- What a reader finds, the first `n` elements left out. -/
def scan (read : Scanner α β) : ℕ → Option α → List α → List β
  | _, _, [] => []
  | 0, before, x :: xs => (read before x xs).2 :: scan read (read before x xs).1 (some x) xs
  | n + 1, _, x :: xs => scan read n (some x) xs

@[simp] lemma scan_nil (read : Scanner α β) (n : ℕ) (before : Option α) :
    scan read n before [] = [] := by
  cases n <;> rfl

/-- The element before the rest of a list. -/
def lastOr (before : Option α) : List α → Option α
  | [] => before
  | x :: xs => lastOr (some x) xs

@[simp] lemma lastOr_append (before : Option α) (xs ys : List α) :
    lastOr before (xs ++ ys) = lastOr (lastOr before xs) ys := by
  induction xs generalizing before with
  | nil => rfl
  | cons x xs ih => exact ih (some x)

/-- Behind a piece the scan goes on. -/
lemma scan_skip (read : Scanner α β) (xs rest : List α) (before : Option α) :
    scan read xs.length before (xs ++ rest) = scan read 0 (lastOr before xs) rest := by
  induction xs generalizing before with
  | nil => rfl
  | cons x xs ih => exact ih (some x)

/-- The same, for as many elements as there are. -/
lemma scan_drop (read : Scanner α β) (n : ℕ) (before : Option α) (xs : List α) :
    scan read n before xs = scan read 0 (lastOr before (xs.take n)) (xs.drop n) := by
  induction n generalizing before xs with
  | zero => rfl
  | succ n ih =>
      cases xs with
      | nil => rfl
      | cons x xs => exact ih (some x) xs

/-- What stands at a position, and what stands behind it. -/
lemma scan_cons (read : Scanner α β) (before : Option α) (x : α) (xs : List α) :
    scan read 0 before (x :: xs) = (read before x xs).2 ::
      scan read 0 (lastOr (some x) (xs.take (read before x xs).1))
        (xs.drop (read before x xs).1) :=
  congrArg _ (scan_drop read _ _ _)

/-- A piece, and what stands behind it. -/
lemma scan_piece {read : Scanner α β} {before : Option α} {x : α} {piece rest : List α} {out : β}
    (h : read before x (piece ++ rest) = (piece.length, out)) :
    scan read 0 before (x :: piece ++ rest)
      = out :: scan read 0 (lastOr (some x) piece) rest := by
  have hscan : scan read 0 before (x :: (piece ++ rest))
      = (read before x (piece ++ rest)).2
        :: scan read (read before x (piece ++ rest)).1 (some x) (piece ++ rest) := rfl
  rw [List.cons_append, hscan, h, scan_skip]

/-- What is made of each thing that is found. -/
lemma map_scan {γ : Type} (f : β → γ) (read : Scanner α β) :
    ∀ (xs : List α) (n : ℕ) (before : Option α),
      (scan read n before xs).map f
        = scan (fun before x xs => ((read before x xs).1, f (read before x xs).2)) n before xs
  | [], n, before => by rw [scan_nil, scan_nil, List.map_nil]
  | x :: xs, 0, before => congrArg _ (map_scan f read xs _ (some x))
  | x :: xs, n + 1, before => map_scan f read xs n (some x)

/-- A reader that looks at no element before a position. -/
lemma scan_before {read : Scanner α β} (h : ∀ before before' x xs, read before x xs = read before' x xs)
    (n : ℕ) (before before' : Option α) (xs : List α) :
    scan read n before xs = scan read n before' xs := by
  cases xs with
  | nil => rw [scan_nil, scan_nil]
  | cons x xs =>
      cases n with
      | zero =>
          show _ :: scan read (read before x xs).1 (some x) xs = _
          rw [h before before']
          rfl
      | succ n => rfl

/-- **A reader that keeps what it takes loses nothing.** -/
lemma flatMap_scan {read : Scanner α β} {kept : β → List α}
    (h : ∀ before x xs,
      kept (read before x xs).2 = x :: xs.take (read before x xs).1) :
    ∀ (xs : List α) (n : ℕ) (before : Option α),
      (scan read n before xs).flatMap kept = xs.drop n
  | [], n, before => by simp
  | x :: xs, 0, before => by
      show (_ :: scan read _ _ xs).flatMap kept = x :: xs
      rw [List.flatMap_cons, h, flatMap_scan h xs, List.cons_append, List.take_append_drop]
  | x :: xs, n + 1, before => flatMap_scan h xs n (some x)

/-- **A property of the rest of a list, from one piece at a time.** -/
lemma scan_induct {read : Scanner α β} {motive : Option α → List α → Prop}
    (hnil : ∀ before, motive before [])
    (hcons : ∀ before x xs,
      motive (lastOr (some x) (xs.take (read before x xs).1)) (xs.drop (read before x xs).1) →
      motive before (x :: xs)) :
    ∀ before xs, motive before xs := by
  have hall : ∀ (n : ℕ) (xs : List α), xs.length ≤ n → ∀ before, motive before xs := by
    intro n
    induction n with
    | zero =>
        intro xs hlen before
        rw [List.length_eq_zero_iff.mp (Nat.le_zero.mp hlen)]
        exact hnil before
    | succ n ih =>
        intro xs hlen before
        cases xs with
        | nil => exact hnil before
        | cons x xs =>
            refine hcons before x xs (ih _ ?_ _)
            rw [List.length_drop]
            rw [List.length_cons] at hlen
            omega
  exact fun before xs => hall xs.length xs (Nat.le_refl _) before

end OdooKernel
