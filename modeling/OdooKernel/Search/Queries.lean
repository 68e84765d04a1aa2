import OdooKernel.Core.Ask
import OdooKernel.Search.Groups

/-!
# Queries

A method of the kernel builds a statement, asks the database for its rows, and goes on with what the
database returns.  All statements of a request are asked of one snapshot.

**Asking.**  A method is a computation that asks (`Reading`), as in `Core/Ask`, and what it may
return is whatever it returns for answers that the database may give (`Query.Returns`,
`Reading.Returns`).  So nothing is assumed of the order of rows that tie, and two queries of one
method may tie differently.

* `Output`, `LinkStatement` — a column of a statement, and a statement over a relation table.
* `Query` — what is asked: the columns of some rows, those of a relation table, a count, a grouping.
* `returns_bind` — what two computations in sequence may return.
-/

namespace OdooKernel

/-! ## What is asked -/

/-- A column that a statement returns: a value, NULL, or the first text of some that is not empty. -/
inductive Output where
  | expr (e : Expr)
  | null
  | firstText (es : List Expr)

/-- The value of a column. -/
def Output.eval (db : Database) : Output → Env → Option Datum
  | .expr e, env => e.eval db env
  | .null, _ => none
  | .firstText es, env =>
    (es.filterMap fun e => (e.eval db env).filter (· ≠ .text "")).head?

/-- A statement over a relation table that is joined to a comodel. -/
structure LinkStatement where
  rel : String
  column1 : String
  column2 : String
  members : Statement

namespace LinkStatement

variable (s : LinkStatement) (engine : Engine) (db : Database)

/-- The server takes a statement only if its aliases are distinct. -/
def Accepted : Prop := s.members.Accepted ∧ s.rel ∉ s.members.table :: s.members.joins.map (·.aliasName)

/-- A row of the comodel under a row of the relation table. -/
def linkEnv (link row : Row) : Env :=
  (Env.bind (fun _ => absentRow) s.rel link).bind s.members.table row

/-- The rows of the comodel that a row of the relation table leads to. -/
def linked (link : Row) : List Row :=
  (db.table s.members.table).filter fun row =>
    IsTrue (compareData db.server .eq (link s.column2) (row "id"))

/-- The rows that a statement selects. -/
def envs : List Env :=
  ((db.table s.rel).flatMap fun link => (s.linked db link).flatMap fun row =>
    joinAll db s.members.joins (s.linkEnv link row)).filter
      fun env => IsTrue (s.members.condition.toPredicate.eval db env)

end LinkStatement

/-- A row of values. -/
abbrev Record := List (Option Datum)

/-- **What is asked of the database**: the columns of some rows, those of a relation table and its
comodel, how many rows there are, up to a limit, and the rows of a grouping. -/
inductive Query where
  | records (s : Statement) (columns : List Output) (offset : ℕ) (limit : Option ℕ)
  | members (s : LinkStatement) (columns : List Output)
  | count (s : Statement) (limit : Option ℕ)
  | groups (s : GroupStatement) (offset : ℕ) (limit : Option ℕ)

/-- The kind of a query's answer. -/
def Query.Answer : Query → Type
  | .records _ _ _ _ | .members _ _ => List Record
  | .count _ _ => ℕ
  | .groups _ _ _ => List (List AggValue)

/-- The columns of some rows. -/
def columnsOf (db : Database) (columns : List Output) (page : List Env) : List Record :=
  page.map fun env => columns.map fun c => c.eval db env

/-- **What the database may answer.** -/
def Query.Returns (engine : Engine) (db : Database) : (q : Query) → q.Answer → Prop
  | .records s columns offset limit, rows => s.Accepted ∧
    ∃ page, IsPart (s.keys db engine.resolved) (s.envs db) offset limit page ∧
      rows = columnsOf db columns page
  | .members s columns, rows => s.Accepted ∧
    ∃ page, IsOrdering (s.members.keys db engine.resolved) (s.envs db) page ∧
      rows = columnsOf db columns page
  | .count s limit, n => s.Accepted ∧
    ∃ page, IsPart (s.keys db engine.resolved) (s.envs db) 0 limit page ∧ n = page.length
  | .groups s offset limit, rows => s.Returns engine db offset limit rows

/-! ## Computations -/

/-- A computation that asks the database. -/
def Reading (α : Type) : Type := Ask Query Query.Answer (Result α)

namespace Reading

variable {α β : Type}

/-- A computation that asks nothing. -/
def ofResult (x : Result α) : Reading α := .done x

/-- One computation after another. -/
protected def bind (x : Reading α) (f : α → Reading β) : Reading β :=
  Ask.bind x fun
    | .error e => .done (.error e)
    | .ok a => f a

instance : Monad Reading where
  pure a := ofResult (.ok a)
  bind := Reading.bind

instance : MonadLift Result Reading := ⟨ofResult⟩

/-- What a compilation returns, whatever it records. -/
def ofCompile (x : Compile α) : Reading α := ofResult (x.run.map (·.1))

instance : MonadLift Compile Reading := ⟨ofCompile⟩

/-- Ask a query. -/
def asks (q : Query) : Reading q.Answer := .ask q fun answer => .done (.ok answer)

variable (engine : Engine) (db : Database)

/-- **What a computation may return**, where the database answers from one snapshot. -/
def Returns : Reading α → α → Prop
  | .done result, a => result = .ok a
  | .ask q next, a => ∃ answer, q.Returns engine db answer ∧ Returns (next answer) a

variable {engine db}

@[simp] lemma liftM_result (x : Result α) : (liftM x : Reading α) = ofResult x := rfl

@[simp] lemma liftM_compile (x : Compile α) : (liftM x : Reading α) = ofCompile x := rfl

@[simp] lemma returns_ofResult {x : Result α} {a : α} :
    Returns engine db (ofResult x) a ↔ x = .ok a := Iff.rfl

@[simp] lemma returns_pure {a b : α} : Returns engine db (pure a) b ↔ a = b := by
  show (Except.ok a : Result α) = .ok b ↔ _
  simp

@[simp] lemma returns_asks {q : Query} {answer : q.Answer} :
    Returns engine db (asks q) answer ↔ q.Returns engine db answer := by
  show (∃ a, q.Returns engine db a ∧ (Except.ok a : Result q.Answer) = .ok answer) ↔ _
  simp

lemma returns_ofCompile {x : Compile α} {a : α} :
    Returns engine db (ofCompile x) a ↔ Yields x a := by
  show x.run.map (·.1) = .ok a ↔ ∃ log, x.run = .ok (a, log)
  rcases x.run with e | ⟨b, log⟩
  · simp [Except.map]
  · simp [Except.map, eq_comm]

/-- **A sequence of two computations.** -/
lemma returns_bind {x : Reading α} {f : α → Reading β} {b : β} :
    Returns engine db (x >>= f) b ↔ ∃ a, Returns engine db x a ∧ Returns engine db (f a) b := by
  show Returns engine db (Ask.bind x _) b ↔ _
  induction x with
  | done result =>
      rcases result with e | a
      · show (Except.error e : Result β) = .ok b ↔ ∃ a, (Except.error e : Result α) = .ok a ∧ _
        simp
      · show Returns engine db (f a) b ↔ ∃ a', (Except.ok a : Result α) = .ok a' ∧ _
        simp
  | ask q next ih =>
      show (∃ answer, q.Returns engine db answer ∧ Returns engine db (Ask.bind (next answer) _) b) ↔
        ∃ a, (∃ answer, q.Returns engine db answer ∧ Returns engine db (next answer) a) ∧ _
      simp only [ih]
      constructor
      · rintro ⟨answer, hanswer, a, ha, hb⟩
        exact ⟨a, ⟨answer, hanswer, ha⟩, hb⟩
      · rintro ⟨a, ⟨answer, hanswer, ha⟩, hb⟩
        exact ⟨answer, hanswer, a, ha, hb⟩

end Reading

end OdooKernel
