import Mathlib.Data.Nat.Notation
import Mathlib.Tactic.Common

/-!
# Pages of an ordered list

A query returns its rows in some order that its sort keys allow, and a page is a part of such a
list.  Keys that tie leave the order open, so that two pages may be parts of two orders, and then a
row may be on both or on neither.

**Keys.**  Each key is a relation that says which of two rows is before the other, and decides where
those before it tie (`Before`).  Nothing is asked of a key: a key that never says anything is one.

* `Before`, `Tied` — the order of several keys.
* `IsOrdering`, `IsPage`, `IsPart` — what a query may return.
* `IsOrdering.unique` — where no two rows tie, there is one order.
* **`pages_perm`** — there the pages of one size are the rows, each once.
-/

namespace OdooKernel

variable {α : Type}

/-- One element is before another by the first key that tells them apart. -/
def Before : List (α → α → Prop) → α → α → Prop
  | [], _, _ => False
  | key :: keys, a, b => key a b ∨ (¬ key b a ∧ Before keys a b)

/-- No key tells two elements apart. -/
def Tied (keys : List (α → α → Prop)) (a b : α) : Prop := ∀ key ∈ keys, ¬ key a b ∧ ¬ key b a

/-- Two elements tie where neither is before the other. -/
lemma tied_of_not_before {keys : List (α → α → Prop)} {a b : α} (hab : ¬ Before keys a b)
    (hba : ¬ Before keys b a) : Tied keys a b := by
  induction keys with
  | nil => exact fun key hkey => absurd hkey List.not_mem_nil
  | cons key keys ih =>
      simp only [Before, not_or, not_and] at hab hba
      obtain ⟨hab, hrest⟩ := hab
      obtain ⟨hba, hrest'⟩ := hba
      intro key' hkey'
      rcases List.mem_cons.mp hkey' with rfl | hkey'
      · exact ⟨hab, hba⟩
      · exact ih (hrest hba) (hrest' hab) key' hkey'

/-- Some rows in an order that the keys allow. -/
structure IsOrdering (keys : List (α → α → Prop)) (rows l : List α) : Prop where
  perm : l.Perm rows
  ordered : l.Pairwise fun a b => ¬ Before keys b a

/-- A part of the rows in an order that the keys allow. -/
def IsPage (keys : List (α → α → Prop)) (rows : List α) (offset limit : ℕ) (page : List α) : Prop :=
  ∃ l, IsOrdering keys rows l ∧ page = (l.drop offset).take limit

/-- The elements of a list up to a limit, if there is one. -/
def limited (limit : Option ℕ) (l : List α) : List α :=
  match limit with
  | some n => l.take n
  | none => l

/-- A part of the rows in an order that the keys allow, up to a limit if there is one. -/
def IsPart (keys : List (α → α → Prop)) (rows : List α) (offset : ℕ) (limit : Option ℕ)
    (page : List α) : Prop :=
  ∃ l, IsOrdering keys rows l ∧ page = limited limit (l.drop offset)

/-- The keys leave no two rows tied. -/
def IsTotal (keys : List (α → α → Prop)) (rows : List α) : Prop :=
  ∀ a ∈ rows, ∀ b ∈ rows, Tied keys a b → a = b

variable {keys : List (α → α → Prop)} {rows l l' : List α}

/-- Without an offset and a limit, all rows are returned. -/
lemma IsPart.isOrdering {page : List α} (h : IsPart keys rows 0 none page) :
    IsOrdering keys rows page := by
  obtain ⟨l, hl, rfl⟩ := h
  exact hl

/-- With a limit alone, as many rows as there are up to the limit. -/
lemma IsPart.length_limit {page : List α} {n : ℕ} (h : IsPart keys rows 0 (some n) page) :
    page.length = min n rows.length := by
  obtain ⟨l, hl, rfl⟩ := h
  rw [← hl.perm.length_eq]
  exact List.length_take

/-- **Without ties there is one order.** -/
lemma IsOrdering.unique (htotal : IsTotal keys rows) (hl : IsOrdering keys rows l)
    (hl' : IsOrdering keys rows l') : l = l' := by
  refine List.Perm.eq_of_pairwise (fun a b ha hb hab hba => ?_) hl.ordered hl'.ordered
    (hl.perm.trans hl'.perm.symm)
  exact htotal a (hl.perm.mem_iff.mp ha) b (hl'.perm.mem_iff.mp hb) (tied_of_not_before hba hab)

/-- The parts of a list, one after the other. -/
lemma flatMap_pages (l : List α) (size n : ℕ) :
    ((List.range n).flatMap fun i => (l.drop (i * size)).take size) = l.take (n * size) := by
  induction n with
  | zero => simp
  | succ n ih =>
      rw [List.range_succ, List.flatMap_append, ih, List.flatMap_singleton, Nat.succ_mul, List.take_add]

/-- **Pages of one size are the rows, each once**, where no two rows tie. -/
lemma pages_perm (htotal : IsTotal keys rows) {size n : ℕ} {pages : ℕ → List α}
    (hpages : ∀ i, IsPage keys rows (i * size) size (pages i)) (hn : rows.length ≤ n * size) :
    ((List.range n).flatMap pages).Perm rows := by
  obtain ⟨l, hl, -⟩ := hpages 0
  have hpage : pages = fun i => (l.drop (i * size)).take size := by
    funext i
    obtain ⟨l', hl', hpage⟩ := hpages i
    rw [hpage, IsOrdering.unique htotal hl' hl]
  have hlength : l.length ≤ n * size := by rwa [hl.perm.length_eq]
  rw [hpage, flatMap_pages, List.take_of_length_le hlength]
  exact hl.perm

end OdooKernel
