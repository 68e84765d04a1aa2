import Mathlib.Data.Nat.Notation
import Mathlib.Tactic.Common

/-!
# Loops that may fail

The body of a loop goes on with a new state, ends the loop with a result, or fails.

* `Turn`, `loop` — what a body does, and so many turns of it.
* `Returns` — some number of turns gets to a result.
* `Computes` — the result that a loop ends with, a turn at a time.
* `returns_of_measure` — a loop returns where an invariant keeps its body from failing and every turn
  makes a measure smaller.
-/

namespace OdooKernel

section Loop

variable {σ ρ : Type}

/-- What the body of a loop does. -/
inductive Turn (σ ρ : Type) where
  | again (s : σ)
  | done (r : ρ)
  | fails

/-- What a loop comes to: nothing yet, no result, or one. -/
inductive LoopEnd (ρ : Type) where
  | unfinished
  | failed
  | returned (r : ρ)

/-- So many turns of a loop. -/
def loop (body : σ → Turn σ ρ) : ℕ → σ → LoopEnd ρ
  | 0, _ => .unfinished
  | n + 1, s =>
    match body s with
    | .again s' => loop body n s'
    | .done r => .returned r
    | .fails => .failed

/-- **The loop ends, and does not fail.** -/
def Returns (body : σ → Turn σ ρ) (s : σ) : Prop := ∃ n r, loop body n s = .returned r

/-- **The loop ends with a result.** -/
def Computes (body : σ → Turn σ ρ) (s : σ) (r : ρ) : Prop := ∃ n, loop body n s = .returned r

lemma Computes.done {body : σ → Turn σ ρ} {s : σ} {r : ρ} (h : body s = .done r) : Computes body s r :=
  ⟨1, by rw [loop, h]⟩

/-- Over a turn that goes on the result stays. -/
lemma computes_again_iff {body : σ → Turn σ ρ} {s s' : σ} {r : ρ} (h : body s = .again s') :
    Computes body s r ↔ Computes body s' r := by
  constructor
  · rintro ⟨n, hn⟩
    cases n with
    | zero => cases hn
    | succ n =>
        rw [loop, h] at hn
        exact ⟨n, hn⟩
  · rintro ⟨n, hn⟩
    exact ⟨n + 1, by rw [loop, h]; exact hn⟩

/-- A turn that ends the loop, or goes on with less to do. -/
def Progress (Inv : σ → Prop) (μ : σ → ℕ) (s : σ) : Turn σ ρ → Prop
  | .again s' => Inv s' ∧ μ s' < μ s
  | .done _ => True
  | .fails => False

/-- **A loop returns** whose turns all make progress. -/
lemma returns_of_measure {body : σ → Turn σ ρ} {Inv : σ → Prop} (μ : σ → ℕ)
    (hturn : ∀ s, Inv s → Progress Inv μ s (body s)) {s : σ} (hs : Inv s) : Returns body s := by
  induction hμ : μ s using Nat.strongRecOn generalizing s with
  | ind m ih =>
      subst hμ
      have hprogress := hturn s hs
      cases hbody : body s with
      | again s' =>
          rw [hbody] at hprogress
          obtain ⟨n, r, hloop⟩ := ih (μ s') hprogress.2 hprogress.1 rfl
          exact ⟨n + 1, r, by rw [loop, hbody]; exact hloop⟩
      | done r => exact ⟨1, r, by rw [loop, hbody]⟩
      | fails =>
          rw [hbody] at hprogress
          exact hprogress.elim

end Loop

end OdooKernel
