import Mathlib.Algebra.BigOperators.Group.List.Basic
import Mathlib.Algebra.Ring.Int.Defs
import Mathlib.Data.Int.Order.Basic

/-!
# The rows of the last statement

A cursor of the Python process keeps the result of a statement, how many of its rows were fetched,
and the count that a statement with several sets of parameters has in place of the result's.

**What belongs to a call.**  `Issue.produced` and `Issue.reported` say it without the cursor: the
rows of the statement, or of all sets of parameters where they are asked for, or of the last set
otherwise.  `Lawful` compares a cursor with it by what can be seen of a cursor, its fetches and its
count.

**Where it fails.**  A call that raises before a statement of its own returned leaves the result of
an earlier call in place, with the place up to which it was fetched.  `Fine` says of a cursor and a
call that this does not happen, and the theorem is an equivalence over every sequence of calls
before.

* `FakeCursor` — the cursor; `FakeCursor.execute`, `FakeCursor.executemany`, `FakeCursor.fetch`.
* `Issue.produced`, `Issue.reported` — the rows and the count that belong to a statement.
* `Lawful` — what is fetched after a statement is what it produced, in order, each row once.
* `Fine` — the statement leaves nothing of an earlier one behind.
* **`lawful_iff_fine`** — the condition is exact, whatever was called before.
-/

namespace OdooKernel

/-- The result of a statement. -/
structure RustResult (ρ : Type) where
  rowcount : ℤ
  rows : List ρ
deriving DecidableEq

/-- A cursor. -/
structure FakeCursor (ρ : Type) where
  result : Option (RustResult ρ)
  pos : ℕ
  rowcountOverride : Option ℤ
deriving DecidableEq

/-- What becomes of a statement: its text may be no UTF-8, and the server or the driver may refuse
it. -/
inductive Executed (ρ : Type) where
  | undecodable
  | refused
  | returned (r : RustResult ρ)
deriving DecidableEq

/-- The rows that are asked for: one, as many as a number says, or all that are left. -/
inductive Fetch where
  | one
  | many (size : ℤ)
  | all
deriving DecidableEq

/-- A statement, or one for each set of parameters. -/
inductive Issue (ρ : Type) where
  | execute (outcome : Executed ρ)
  | executemany (outcomes : List (Executed ρ)) (returning : Bool)
deriving DecidableEq

/-- A call on a cursor. -/
inductive CursorCall (ρ : Type) where
  | issue (s : Issue ρ)
  | fetch (f : Fetch)
deriving DecidableEq

namespace FakeCursor

variable {ρ : Type}

/-- A new cursor. -/
def new : FakeCursor ρ where
  result := none
  pos := 0
  rowcountOverride := none

variable (c : FakeCursor ρ)

/-! ## Statements -/

/-- `execute`: whether it returns, and the cursor after it. -/
def execute : Executed ρ → Bool × FakeCursor ρ
  -- the text is decoded before anything is reset
  | .undecodable => (false, c)
  | .refused => (false, { c with rowcountOverride := none })
  | .returned r => (true, { result := some r, pos := 0, rowcountOverride := none })

/-- The loop over the sets of parameters, with the rows and the total so far. -/
def executeAll (returning : Bool) :
    FakeCursor ρ → List ρ → ℤ → List (Executed ρ) → Option (List ρ × ℤ) × FakeCursor ρ
  | c, rows, total, [] => (some (rows, total), c)
  | c, rows, total, outcome :: outcomes =>
    match c.execute outcome with
    | (false, after) => (none, after)
    | (true, after) =>
      match after.result with
      | none => (none, after)
      | some r =>
        executeAll returning after (if returning then rows ++ r.rows else rows) (total + r.rowcount)
          outcomes

/-- `executemany`: whether it returns, and the cursor after it. -/
def executemany (outcomes : List (Executed ρ)) (returning : Bool) : Bool × FakeCursor ρ :=
  match executeAll returning c [] 0 outcomes with
  | (none, after) => (false, after)
  | (some (rows, total), after) =>
    if returning then
      match after.result with
      -- `None` has no rows to replace
      | none => (false, after)
      | some r =>
        (true, { after with result := some { r with rows }, rowcountOverride := some total })
    else (true, { after with rowcountOverride := some total })

def issue : Issue ρ → Bool × FakeCursor ρ
  | .execute outcome => c.execute outcome
  | .executemany outcomes returning => c.executemany outcomes returning

def rowcount : ℤ :=
  match c.rowcountOverride with
  | some total => total
  | none =>
    match c.result with
    | some r => r.rowcount
    | none => -1

/-! ## Fetches -/

/-- The rows that were not fetched yet. -/
def left : List ρ := ((c.result.map RustResult.rows).getD []).drop c.pos

/-- A slice of a list: an end below zero counts from the end of the list. -/
def slice (rows : List ρ) (start : ℕ) (stop : ℤ) : List ρ :=
  let stop := if stop < 0 then stop + rows.length else stop
  (rows.take stop.toNat).drop start

/-- **A fetch**: the rows it returns, and the cursor after it.  Without a result it raises. -/
def fetch (f : Fetch) : List ρ × FakeCursor ρ :=
  match c.result with
  | none => ([], c)
  | some r =>
    match f with
    | .one =>
      match r.rows[c.pos]? with
      | none => ([], c)
      | some row => ([row], { c with pos := c.pos + 1 })
    | .many size =>
      let rows := slice r.rows c.pos (c.pos + size)
      (rows, { c with pos := c.pos + rows.length })
    | .all => (r.rows.drop c.pos, { c with pos := r.rows.length })

/-- The rows that some fetches return, and the cursor after them. -/
def fetches : FakeCursor ρ → List Fetch → List ρ × FakeCursor ρ
  | c, [] => ([], c)
  | c, f :: fs => ((c.fetch f).1 ++ (fetches (c.fetch f).2 fs).1, (fetches (c.fetch f).2 fs).2)

/-- The cursor after a call. -/
def call : CursorCall ρ → FakeCursor ρ
  | .issue s => (c.issue s).2
  | .fetch f => (c.fetch f).2

/-- The cursor after some calls on a new one. -/
def after (calls : List (CursorCall ρ)) : FakeCursor ρ := calls.foldl call new

end FakeCursor

/-! ## What belongs to a statement -/

section Belongs

variable {ρ : Type}

/-- The rows of the statements that returned before one did not. -/
def Executed.result? : Executed ρ → Option (RustResult ρ)
  | .returned r => some r
  | _ => none

/-- The results of the sets of parameters, up to the first one that is refused. -/
def resultsOf (outcomes : List (Executed ρ)) : List (RustResult ρ) :=
  (outcomes.takeWhile fun outcome => outcome.result?.isSome).filterMap Executed.result?

/-- A statement is refused. -/
def fails (outcomes : List (Executed ρ)) : Bool :=
  outcomes.any fun outcome => outcome.result?.isNone

/-- **The rows that belong to a call**: those of its statement, those of all sets of parameters where
they are asked for, and of the last one otherwise. -/
def Issue.produced : Issue ρ → List ρ
  | .execute outcome => (outcome.result?.map RustResult.rows).getD []
  | .executemany outcomes returning =>
    if returning && !fails outcomes then (resultsOf outcomes).flatMap RustResult.rows
    else ((resultsOf outcomes).getLast?.map RustResult.rows).getD []

/-- **The count that belongs to a call**, if there is one. -/
def Issue.reported : Issue ρ → Option ℤ
  | .execute outcome => outcome.result?.map RustResult.rowcount
  | .executemany outcomes _ =>
    if fails outcomes then (resultsOf outcomes).getLast?.map RustResult.rowcount
    else some ((resultsOf outcomes).map RustResult.rowcount).sum

/-- Whether a statement of a call is refused. -/
def Issue.refused : Issue ρ → Bool
  | .execute outcome => fails [outcome]
  | .executemany outcomes _ => fails outcomes

/-- **After a call only its own rows are fetched**, in order and each at most once, the last fetch of
all returns those that are left, and no other count is reported; the call raises for a statement of
its own only. -/
structure Lawful (c : FakeCursor ρ) (s : Issue ρ) : Prop where
  raised : (c.issue s).1 = !s.refused
  inOrder (fs : List Fetch) : ((c.issue s).2.fetches fs).1 <+: s.produced
  complete (fs : List Fetch) : ((c.issue s).2.fetches (fs ++ [.all])).1 = s.produced
  counted (fs : List Fetch) : ((c.issue s).2.fetches fs).2.rowcount = s.reported.getD (-1)

/-- **A call leaves nothing of an earlier one behind**: where no statement of its own returns, the
cursor has no rows and no count left, and where there are no parameters whose rows are asked for, it
has a result. -/
def Fine (c : FakeCursor ρ) : Issue ρ → Prop
  | .execute .undecodable | .executemany (.undecodable :: _) _ => c.left = [] ∧ c.rowcount = -1
  | .execute .refused | .executemany (.refused :: _) _ =>
    c.left = [] ∧ ∀ r ∈ c.result, r.rowcount = -1
  | .executemany [] returning => if returning then c.result.isSome else c.left = []
  | .execute (.returned _) | .executemany (.returned _ :: _) _ => True

end Belongs

namespace FakeCursor

variable {ρ : Type} {c : FakeCursor ρ}

/-! ## Fetches take what is left -/

/-- A slice takes the first of what stands behind its start. -/
lemma slice_append (rows : List ρ) (start : ℕ) (stop : ℤ) :
    slice rows start stop ++ rows.drop (start + (slice rows start stop).length) = rows.drop start := by
  obtain ⟨k, hk⟩ : ∃ k, slice rows start stop = (rows.drop start).take k := ⟨_, List.drop_take⟩
  rw [hk, ← List.drop_drop, List.length_take]
  rcases Nat.le_total k (rows.drop start).length with hle | hle
  · rw [Nat.min_eq_left hle, List.take_append_drop]
  · rw [Nat.min_eq_right hle, List.take_of_length_le hle, List.drop_length, List.append_nil]

/-- **A fetch takes the first of the rows that are left.** -/
lemma fetch_left (f : Fetch) : (c.fetch f).1 ++ (c.fetch f).2.left = c.left := by
  obtain ⟨result, pos, rowcountOverride⟩ := c
  cases result with
  | none => rfl
  | some r =>
      cases f with
      | one =>
          show _ = r.rows.drop pos
          cases hrow : r.rows[pos]? with
          | none => simp [fetch, hrow, left]
          | some row =>
              obtain ⟨hpos, hget⟩ := List.getElem?_eq_some_iff.mp hrow
              rw [List.drop_eq_getElem_cons hpos, hget]
              simp [fetch, hrow, left]
      | many size => exact slice_append r.rows pos _
      | all =>
          show r.rows.drop pos ++ r.rows.drop r.rows.length = r.rows.drop pos
          rw [List.drop_length, List.append_nil]

lemma fetch_rowcount (f : Fetch) : (c.fetch f).2.rowcount = c.rowcount := by
  obtain ⟨result, pos, rowcountOverride⟩ := c
  cases result with
  | none => rfl
  | some r =>
      cases f with
      | one => cases hrow : r.rows[pos]? <;> simp [fetch, hrow, rowcount]
      | many size => rfl
      | all => rfl

lemma fetch_all : (c.fetch .all).1 = c.left := by
  unfold fetch left
  cases c.result <;> simp

lemma fetches_left (fs : List Fetch) : (c.fetches fs).1 ++ (c.fetches fs).2.left = c.left := by
  induction fs generalizing c with
  | nil => rfl
  | cons f fs ih =>
      show ((c.fetch f).1 ++ ((c.fetch f).2.fetches fs).1) ++ ((c.fetch f).2.fetches fs).2.left = _
      rw [List.append_assoc, ih, fetch_left]

lemma fetches_rowcount (fs : List Fetch) : (c.fetches fs).2.rowcount = c.rowcount := by
  induction fs generalizing c with
  | nil => rfl
  | cons f fs ih => exact ih.trans (fetch_rowcount f)

lemma fetches_all (fs : List Fetch) : (c.fetches (fs ++ [.all])).1 = c.left := by
  induction fs generalizing c with
  | nil =>
      show (c.fetch .all).1 ++ [] = c.left
      rw [List.append_nil, fetch_all]
  | cons f fs ih =>
      show (c.fetch f).1 ++ ((c.fetch f).2.fetches (fs ++ [.all])).1 = _
      rw [ih, fetch_left]

end FakeCursor

open FakeCursor

variable {ρ : Type} {c : FakeCursor ρ}

/-- What is fetched after a call is what the call leaves. -/
lemma lawful_iff (s : Issue ρ) : Lawful c s ↔ (c.issue s).1 = !s.refused ∧
    (c.issue s).2.left = s.produced ∧ (c.issue s).2.rowcount = s.reported.getD (-1) := by
  constructor
  · intro h
    refine ⟨h.raised, ?_, h.counted []⟩
    rw [← h.complete [], fetches_all]
  · rintro ⟨hraised, hleft, hcount⟩
    refine ⟨hraised, fun fs => ⟨_, (fetches_left fs).trans hleft⟩, fun fs => ?_, fun fs => ?_⟩
    · rw [fetches_all, hleft]
    · rw [fetches_rowcount, hcount]

/-! ## Several sets of parameters -/

/-- A cursor that holds a result of which nothing was fetched. -/
def holding (r : RustResult ρ) : FakeCursor ρ where
  result := some r
  pos := 0
  rowcountOverride := none

lemma resultsOf_returned (r : RustResult ρ) (outcomes : List (Executed ρ)) :
    resultsOf (.returned r :: outcomes) = r :: resultsOf outcomes := rfl

lemma fails_returned (r : RustResult ρ) (outcomes : List (Executed ρ)) :
    fails (.returned r :: outcomes) = fails outcomes := rfl

/-- Once a statement has returned the cursor holds the result of the last one that did. -/
lemma executeAll_holding (returning : Bool) : ∀ (outcomes : List (Executed ρ)) (r : RustResult ρ)
    (rows : List ρ) (total : ℤ), executeAll returning (holding r) rows total outcomes =
      (if fails outcomes then none
        else some (if returning then rows ++ (resultsOf outcomes).flatMap RustResult.rows else rows,
          total + ((resultsOf outcomes).map RustResult.rowcount).sum),
      holding ((resultsOf outcomes).getLast?.getD r))
  | [], r, rows, total => by
      cases returning <;> simp [executeAll, fails, resultsOf]
  | .undecodable :: outcomes, r, rows, total => rfl
  | .refused :: outcomes, r, rows, total => rfl
  | .returned r' :: outcomes, r, rows, total => by
      have hlast : (resultsOf (.returned r' :: outcomes)).getLast?.getD r =
          (resultsOf outcomes).getLast?.getD r' := by
        rw [resultsOf_returned, List.getLast?_cons]
        rfl
      have hstep : executeAll returning (holding r) rows total (.returned r' :: outcomes) =
          executeAll returning (holding r') (if returning then rows ++ r'.rows else rows)
            (total + r'.rowcount) outcomes := rfl
      rw [hstep, executeAll_holding returning outcomes, hlast, fails_returned, resultsOf_returned,
        List.map_cons, List.sum_cons, List.flatMap_cons, add_assoc]
      cases returning <;> simp

/-- A call whose first statement returns leaves what belongs to it. -/
lemma executemany_returned (c : FakeCursor ρ) (r : RustResult ρ) (outcomes : List (Executed ρ))
    (returning : Bool) :
    let s : Issue ρ := .executemany (.returned r :: outcomes) returning
    (c.issue s).1 = !s.refused ∧ (c.issue s).2.left = s.produced ∧
      (c.issue s).2.rowcount = s.reported.getD (-1) := by
  have hloop : executeAll returning c [] 0 (.returned r :: outcomes) =
      executeAll returning (holding r) (if returning then [] ++ r.rows else []) (0 + r.rowcount)
        outcomes := rfl
  have hlast : (resultsOf (.returned r :: outcomes)).getLast? =
      some ((resultsOf outcomes).getLast?.getD r) := by
    rw [resultsOf_returned, List.getLast?_cons]
  simp only [issue, executemany, hloop, executeAll_holding, Issue.refused, Issue.produced,
    Issue.reported, fails_returned, hlast]
  cases hfails : fails outcomes with
  | true => simp [left, holding, rowcount]
  | false =>
      cases returning with
      | true => simp [left, holding, rowcount, resultsOf_returned]
      | false => simp [left, holding, rowcount, resultsOf_returned]

/-- Where the first statement is refused, what was left before is left. -/
lemma executemany_first (c : FakeCursor ρ) {outcome : Executed ρ} (h : outcome.result? = none)
    (outcomes : List (Executed ρ)) (returning : Bool) :
    c.issue (.executemany (outcome :: outcomes) returning) = c.issue (.execute outcome) := by
  cases outcome with
  | undecodable => rfl
  | refused => rfl
  | returned r => cases h

/-- What belongs to a call whose first statement does not return: nothing. -/
lemma fails_first {outcome : Executed ρ} (h : outcome.result? = none) (outcomes : List (Executed ρ)) :
    fails (outcome :: outcomes) = true ∧ resultsOf (outcome :: outcomes) = [] := by
  simp [fails, resultsOf, h]

/-- A call whose first statement does not return is as that statement. -/
lemma lawful_first {outcome : Executed ρ} (h : outcome.result? = none) (outcomes : List (Executed ρ))
    (returning : Bool) :
    Lawful c (.executemany (outcome :: outcomes) returning) ↔ Lawful c (.execute outcome) := by
  obtain ⟨hfails, hresults⟩ := fails_first h outcomes
  have hrefused : Issue.refused (.executemany (outcome :: outcomes) returning) =
      Issue.refused (.execute outcome) := hfails.trans (fails_first h []).1.symm
  have hproduced : Issue.produced (.executemany (outcome :: outcomes) returning) =
      Issue.produced (.execute outcome) := by
    simp [Issue.produced, hfails, hresults, h]
  have hreported : Issue.reported (.executemany (outcome :: outcomes) returning) =
      Issue.reported (.execute outcome) := by
    simp [Issue.reported, hfails, hresults, h]
  rw [lawful_iff, lawful_iff, executemany_first c h, hrefused, hproduced, hreported]

/-- A statement that does not return leaves the rows that were there. -/
lemma lawful_execute_iff (outcome : Executed ρ) :
    Lawful c (.execute outcome) ↔ Fine c (.execute outcome) := by
  rw [lawful_iff]
  cases outcome with
  | undecodable => exact ⟨fun h => h.2, fun h => ⟨rfl, h⟩⟩
  | refused =>
      have hcount : (c.issue (.execute .refused)).2.rowcount = -1 ↔
          ∀ r ∈ c.result, r.rowcount = -1 := by
        show (match c.result with | some r => r.rowcount | none => -1) = -1 ↔ _
        cases c.result <;> simp
      exact ⟨fun h => ⟨h.2.1, hcount.mp h.2.2⟩, fun h => ⟨rfl, h.1, hcount.mpr h.2⟩⟩
  | returned r => exact ⟨fun _ => trivial, fun _ => ⟨rfl, rfl, rfl⟩⟩

/-- No parameters at all: the rows of the result are replaced where they are asked for, and kept
otherwise. -/
lemma lawful_executemany_nil (returning : Bool) :
    Lawful c (.executemany [] returning) ↔ Fine c (.executemany [] returning) := by
  rw [lawful_iff]
  cases returning with
  | false =>
      have hfine : Fine c (.executemany [] false) ↔ c.left = [] := by simp [Fine]
      rw [hfine]
      exact ⟨fun h => h.2.1, fun h => ⟨rfl, h, rfl⟩⟩
  | true =>
      obtain ⟨result, pos, rowcountOverride⟩ := c
      cases result with
      | none => simp [Fine, issue, executemany, executeAll, Issue.refused, fails]
      | some r =>
          simp [Fine, issue, executemany, executeAll, Issue.refused, fails, left, rowcount,
            Issue.produced, Issue.reported, resultsOf]

/-- **The condition is exact**: whatever was called before, what is fetched after a call is its own just
where the call leaves nothing of an earlier one behind. -/
theorem lawful_iff_fine (calls : List (CursorCall ρ)) (s : Issue ρ) :
    Lawful (after calls) s ↔ Fine (after calls) s := by
  generalize after calls = c
  cases s with
  | execute outcome => exact lawful_execute_iff outcome
  | executemany outcomes returning =>
      cases outcomes with
      | nil => exact lawful_executemany_nil returning
      | cons outcome outcomes =>
          cases outcome with
          | undecodable => exact (lawful_first rfl outcomes returning).trans (lawful_execute_iff _)
          | refused => exact (lawful_first rfl outcomes returning).trans (lawful_execute_iff _)
          | returned r =>
              rw [lawful_iff]
              exact ⟨fun _ => trivial, fun _ => executemany_returned c r outcomes returning⟩

/-- A statement that the server refuses leaves the rows of the one before it. -/
theorem refused_keeps_rows :
    ¬ ∀ (calls : List (CursorCall ℕ)) (s : Issue ℕ), Lawful (after calls) s := by
  intro h
  have hcomplete := (h [.issue (.execute (.returned ⟨1, [5]⟩))] (.execute .refused)).complete []
  cases hcomplete

end OdooKernel
