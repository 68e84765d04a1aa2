import Mathlib.Tactic.Common

/-!
# Runs of a system that takes steps

A system is a function that gives the state after an action, or `none` where the action cannot be
taken.  A run takes its actions in any order, so that whatever the parties of a system do between one
another's actions is one of its runs.

**Conditions.**  A property of a system may hold only as long as each step meets a condition on the
state before it.  `RunsWhile` is such a run, and what every such step keeps holds where it ends
(`RunsWhile.keeps`).

**Examples** are computed: `run` gives the state after some actions, and whether they all meet the
condition is decided by taking them (`Throughout`).

* `runsWhile_of_run` — a run that is computed is a run.
* `run_keeps` — what every step keeps, without a condition.
-/

namespace OdooKernel

section Runs

variable {σ α : Type}

/-- A run from one state to another, every step of which meets the condition. -/
inductive RunsWhile (step : σ → α → Option σ) (ok : σ → α → Prop) : σ → List α → σ → Prop where
  | nil (s : σ) : RunsWhile step ok s [] s
  | cons {s s' t : σ} {a : α} {as : List α} (hok : ok s a) (hstep : step s a = some s')
      (rest : RunsWhile step ok s' as t) : RunsWhile step ok s (a :: as) t

variable {step : σ → α → Option σ} {ok : σ → α → Prop}

/-- What a step keeps, a run keeps. -/
lemma RunsWhile.keeps {Inv : σ → Prop}
    (hkeeps : ∀ s a s', Inv s → ok s a → step s a = some s' → Inv s')
    {s t : σ} {as : List α} (h : RunsWhile step ok s as t) : Inv s → Inv t := by
  induction h with
  | nil => exact id
  | cons hok hstep _ ih => exact fun hs => ih (hkeeps _ _ _ hs hok hstep)

/-- The state after some actions. -/
def run (step : σ → α → Option σ) : σ → List α → Option σ
  | s, [] => some s
  | s, a :: as => (step s a).bind fun s' => run step s' as

/-- The condition holds at every step of the actions. -/
def Throughout (step : σ → α → Option σ) (ok : σ → α → Prop) : σ → List α → Prop
  | _, [] => True
  | s, a :: as => ok s a ∧ ∀ s' ∈ step s a, Throughout step ok s' as

/-- Whether the condition holds at every step is decided by taking them. -/
instance Throughout.decidable [∀ s a, Decidable (ok s a)] :
    ∀ (s : σ) (as : List α), Decidable (Throughout step ok s as)
  | _, [] => isTrue trivial
  | s, a :: as =>
    have : ∀ s', Decidable (Throughout step ok s' as) := fun s' => Throughout.decidable s' as
    inferInstanceAs (Decidable (ok s a ∧ ∀ s' ∈ step s a, Throughout step ok s' as))

/-- A run that is computed. -/
lemma runsWhile_of_run : ∀ {s t : σ} {as : List α}, Throughout step ok s as →
    run step s as = some t → RunsWhile step ok s as t
  | s, t, [], _, h => by
      obtain rfl := Option.some.inj h
      exact .nil s
  | s, t, a :: as, hok, h => by
      obtain ⟨s', hstep, hrest⟩ := Option.bind_eq_some_iff.mp h
      exact .cons hok.1 hstep (runsWhile_of_run (hok.2 s' hstep) hrest)

/-- A run that is computed, of actions that meet a condition of their own. -/
lemma runsWhile_of_forall {ok : α → Prop} {s t : σ} {as : List α} (hok : ∀ a ∈ as, ok a)
    (h : run step s as = some t) : RunsWhile step (fun _ a => ok a) s as t := by
  induction as generalizing s with
  | nil =>
      obtain rfl := Option.some.inj h
      exact .nil s
  | cons a as ih =>
      rw [List.forall_mem_cons] at hok
      obtain ⟨s', hstep, hrest⟩ := Option.bind_eq_some_iff.mp h
      exact .cons hok.1 hstep (ih hok.2 hrest)

/-- What every step keeps, a run that is computed keeps. -/
lemma run_keeps (Inv : σ → Prop) (hkeeps : ∀ s a s', Inv s → step s a = some s' → Inv s') :
    ∀ {s t : σ} {as : List α}, run step s as = some t → Inv s → Inv t
  | s, t, [], h, hs => by
      obtain rfl := Option.some.inj h
      exact hs
  | s, t, a :: as, h, hs => by
      obtain ⟨s', hstep, hrest⟩ := Option.bind_eq_some_iff.mp h
      exact run_keeps Inv hkeeps hrest (hkeeps s a s' hs hstep)

lemma run_append (as bs : List α) :
    ∀ s : σ, run step s (as ++ bs) = (run step s as).bind fun t => run step t bs := by
  induction as with
  | nil => exact fun _ => rfl
  | cons a as ih =>
      intro s
      simp only [List.cons_append, run, ih, Option.bind_assoc]

end Runs

end OdooKernel
