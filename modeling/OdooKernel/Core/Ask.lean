import Mathlib.Tactic.Common

/-!
# Computations that ask

A computation that learns of the world only by asking questions, each of which may depend on the
answers before it.  It is a tree: a result, or a question and, for each answer, what comes after it.

**Why a tree.**  A program that reads a database in between could be said as a function of the
database, but then every two databases that differ are different arguments.  As a tree it has what it
asked (`Ask.asked`), and where that has the same answers elsewhere, the result is the same there
(`run_congr`), whatever else differs.

* `Ask`, `Ask.bind` — such a computation, and one after another.
* `Ask.run`, `Ask.asked` — its result, and what it asked, where the questions have given answers.
-/

namespace OdooKernel

/-- A computation that asks questions, each with its own kind of answer. -/
inductive Ask (Q : Type) (A : Q → Type) (α : Type) where
  | done (a : α)
  | ask (q : Q) (next : A q → Ask Q A α)

namespace Ask

variable {Q : Type} {A : Q → Type} {α β : Type}

/-- One computation after another. -/
protected def bind : Ask Q A α → (α → Ask Q A β) → Ask Q A β
  | .done a, f => f a
  | .ask q next, f => .ask q fun answer => (next answer).bind f

/-- The result where the questions have these answers. -/
def run (answers : ∀ q, A q) : Ask Q A α → α
  | .done a => a
  | .ask q next => (next (answers q)).run answers

/-- The questions that are asked where they have these answers. -/
def asked (answers : ∀ q, A q) : Ask Q A α → List Q
  | .done _ => []
  | .ask q next => q :: (next (answers q)).asked answers

variable {answers answers' : ∀ q, A q}

/-- **The answers to what is asked decide the result.** -/
lemma run_congr (x : Ask Q A α) (h : ∀ q ∈ x.asked answers, answers q = answers' q) :
    x.run answers = x.run answers' := by
  induction x with
  | done a => rfl
  | ask q next ih =>
      have hq : answers q = answers' q := h q List.mem_cons_self
      show (next (answers q)).run answers = (next (answers' q)).run answers'
      rw [← hq]
      exact ih _ fun q' hq' => h q' (List.mem_cons_of_mem _ hq')

end Ask

end OdooKernel
