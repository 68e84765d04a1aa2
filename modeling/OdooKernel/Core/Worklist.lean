import Mathlib.Algebra.GroupWithZero.Nat
import Mathlib.Data.List.Dedup
import Mathlib.Logic.Relation
import Mathlib.Tactic.Common

/-!
# Working off a stack

The things that can be reached from some roots, found by taking one after the other from a stack and
pushing what it leads to, unless it was met before.

**Why it ends.**  A thing may be on the stack more than once, and the stack may grow for long.  What
shrinks is the stack together with all that the things not met yet can still push (`ahead`): a step
takes a thing off the stack, and what it pushes was still ahead.

* `exhaust` — the loop, in so many steps at most.
* `exhaust_isSome` — with enough steps the loop ends.
* **`mem_exhaust`** — it ends with what can be reached, and nothing else.
-/

namespace OdooKernel

section Exhaust

variable {ι : Type} [DecidableEq ι] (next : ι → List ι)

/-- What was met when the stack is empty, if the steps suffice. -/
def exhaust : ℕ → List ι → List ι → Option (List ι)
  | _, met, [] => some met
  | 0, _, _ :: _ => none
  | steps + 1, met, x :: stack =>
    if x ∈ met then exhaust steps met stack else exhaust steps (x :: met) (next x ++ stack)

/-- How much the things that were not met yet can still push. -/
def ahead (things met : List ι) : ℕ :=
  ((things.filter (· ∉ met)).map fun x => (next x).length).sum

variable {next}

lemma ahead_thing (y : ι) (things met : List ι) :
    ahead next (y :: things) met =
      (if y ∈ met then 0 else (next y).length) + ahead next things met := by
  unfold ahead
  by_cases hy : y ∈ met
  · simp [hy]
  · simp [hy]

lemma ahead_cons_le (things met : List ι) (x : ι) :
    ahead next things (x :: met) ≤ ahead next things met := by
  induction things with
  | nil => exact Nat.le_refl _
  | cons y things ih =>
      rw [ahead_thing, ahead_thing]
      by_cases hy : y ∈ met
      · simpa [hy] using ih
      · have hle : (if y ∈ x :: met then 0 else (next y).length) ≤ (next y).length := by
          split <;> omega
        simp only [hy, if_false]
        omega

/-- **A thing that is met now pushes nothing later.** -/
lemma ahead_cons {things met : List ι} {x : ι} (hx : x ∉ met) (hthing : next x ≠ [] → x ∈ things) :
    ahead next things (x :: met) + (next x).length ≤ ahead next things met := by
  by_cases hnil : next x = []
  · simpa [hnil] using ahead_cons_le things met x
  · have hmem := hthing hnil
    clear hthing
    induction things with
    | nil => exact absurd hmem List.not_mem_nil
    | cons y things ih =>
        rw [ahead_thing, ahead_thing]
        rcases List.mem_cons.mp hmem with rfl | hmem
        · have hle := @ahead_cons_le _ _ next things met x
          simp only [List.mem_cons, true_or, if_true, hx, if_false]
          omega
        · have hrest := ih hmem
          have hle : (if y ∈ x :: met then 0 else (next y).length) ≤
              if y ∈ met then 0 else (next y).length := by
            by_cases hy : y ∈ met
            · simp [hy]
            · simp only [hy, if_false]
              split <;> omega
          omega

/-- **The loop ends**: a step takes a thing from the stack, and what it pushes was still ahead. -/
lemma exhaust_isSome (things : List ι) (hthings : ∀ x, next x ≠ [] → x ∈ things) :
    ∀ (steps : ℕ) (met stack : List ι), stack.length + ahead next things met ≤ steps →
      ∃ out, exhaust next steps met stack = some out := by
  intro steps
  induction steps with
  | zero =>
      intro met stack h
      obtain rfl : stack = [] := List.eq_nil_of_length_eq_zero (by omega)
      exact ⟨met, rfl⟩
  | succ steps ih =>
      intro met stack h
      cases stack with
      | nil => exact ⟨met, rfl⟩
      | cons x stack =>
          rw [List.length_cons] at h
          rw [exhaust]
          by_cases hx : x ∈ met
          · rw [if_pos hx]
            exact ih met stack (by omega)
          · rw [if_neg hx]
            have hahead := ahead_cons hx (hthings x)
            refine ih (x :: met) (next x ++ stack) ?_
            rw [List.length_append]
            omega

/-- What was met or is on the stack is found, and what is found is closed: whatever a thing that was
met leads to was met as well or is on the stack. -/
lemma exhaust_closed : ∀ {steps : ℕ} {met stack out : List ι},
    exhaust next steps met stack = some out →
      (∀ x ∈ met, ∀ y ∈ next x, y ∈ met ∨ y ∈ stack) →
      (∀ x, x ∈ met ∨ x ∈ stack → x ∈ out) ∧ ∀ x ∈ out, ∀ y ∈ next x, y ∈ out := by
  intro steps
  induction steps with
  | zero =>
      intro met stack out h hclosed
      cases stack with
      | nil =>
          obtain rfl := Option.some.inj h
          exact ⟨by simp, fun x hx y hy => by simpa using hclosed x hx y hy⟩
      | cons x stack => cases h
  | succ steps ih =>
      intro met stack out h hclosed
      cases stack with
      | nil =>
          obtain rfl := Option.some.inj h
          exact ⟨by simp, fun x hx y hy => by simpa using hclosed x hx y hy⟩
      | cons x stack =>
          rw [exhaust] at h
          by_cases hx : x ∈ met
          · rw [if_pos hx] at h
            obtain ⟨hfound, hout⟩ := ih h fun z hz y hy => by
              rcases hclosed z hz y hy with hmet | hstack
              · exact .inl hmet
              · rcases List.mem_cons.mp hstack with rfl | hstack
                · exact .inl hx
                · exact .inr hstack
            refine ⟨fun z hz => hfound z ?_, hout⟩
            rcases hz with hz | hz
            · exact .inl hz
            · rcases List.mem_cons.mp hz with rfl | hz
              · exact .inl hx
              · exact .inr hz
          · rw [if_neg hx] at h
            obtain ⟨hfound, hout⟩ := ih h fun z hz y hy => by
              rcases List.mem_cons.mp hz with rfl | hz
              · exact .inr (List.mem_append_left _ hy)
              · rcases hclosed z hz y hy with hmet | hstack
                · exact .inl (List.mem_cons_of_mem x hmet)
                · rcases List.mem_cons.mp hstack with rfl | hstack
                  · exact .inl List.mem_cons_self
                  · exact .inr (List.mem_append_right _ hstack)
            refine ⟨fun z hz => hfound z ?_, hout⟩
            rcases hz with hz | hz
            · exact .inl (List.mem_cons_of_mem x hz)
            · rcases List.mem_cons.mp hz with rfl | hz
              · exact .inl List.mem_cons_self
              · exact .inr (List.mem_append_right _ hz)

/-- What is found was met, or can be reached from the stack. -/
lemma reachable_of_mem_exhaust {P : ι → Prop} (hP : ∀ x, P x → ∀ y ∈ next x, P y) :
    ∀ {steps : ℕ} {met stack out : List ι}, exhaust next steps met stack = some out →
      (∀ x ∈ met, P x) → (∀ x ∈ stack, P x) → ∀ x ∈ out, P x := by
  intro steps
  induction steps with
  | zero =>
      intro met stack out h hmet hstack
      cases stack with
      | nil =>
          obtain rfl := Option.some.inj h
          exact hmet
      | cons x stack => cases h
  | succ steps ih =>
      intro met stack out h hmet hstack
      cases stack with
      | nil =>
          obtain rfl := Option.some.inj h
          exact hmet
      | cons x stack =>
          rw [List.forall_mem_cons] at hstack
          rw [exhaust] at h
          by_cases hx : x ∈ met
          · rw [if_pos hx] at h
            exact ih h hmet hstack.2
          · rw [if_neg hx] at h
            refine ih h (List.forall_mem_cons.mpr ⟨hstack.1, hmet⟩) fun y hy => ?_
            rcases List.mem_append.mp hy with hy | hy
            · exact hP x hstack.1 y hy
            · exact hstack.2 y hy

/-- **The loop finds what can be reached**, and nothing else. -/
theorem mem_exhaust {steps : ℕ} {roots out : List ι} (h : exhaust next steps [] roots = some out)
    (x : ι) :
    x ∈ out ↔ ∃ r ∈ roots, Relation.ReflTransGen (fun x y => y ∈ next x) r x := by
  constructor
  · have hnext : ∀ x, (∃ r ∈ roots, Relation.ReflTransGen (fun x y => y ∈ next x) r x) →
        ∀ y ∈ next x, ∃ r ∈ roots, Relation.ReflTransGen (fun x y => y ∈ next x) r y := by
      rintro x ⟨r, hr, hrx⟩ y hy
      exact ⟨r, hr, hrx.tail hy⟩
    exact reachable_of_mem_exhaust hnext h (List.forall_mem_nil _) (fun r hr => ⟨r, hr, .refl⟩) x
  · rintro ⟨r, hr, hrx⟩
    obtain ⟨hfound, hclosed⟩ := exhaust_closed h (List.forall_mem_nil _)
    induction hrx with
    | refl => exact hfound r (.inr hr)
    | tail _ hxy ih => exact hclosed _ ih _ hxy

end Exhaust

end OdooKernel
