import OdooKernel.Sql.Value

/-!
# The SQL that is built

The expressions, conditions and subqueries that the compiler builds, and what they are worth over a
database.  The compiler builds trees and not texts, and so does this: what is said of a compiled
domain is said of the tree.

**Rows and aliases.**  A row is the values of its columns, an environment the row that each alias
stands for; a subquery binds its own alias.  The tables of a database are lists, so that the order of
rows is there where a subquery takes the first one.

**The server** decides what SQL does not: the order of texts, casts, and which letters are one letter
(`Server`).  What Python's subqueries return is part of the database.

* `Expr`, `Predicate`, `Select` — values, conditions and subqueries.
* `Condition` — a junction of conditions; `Condition.add` puts a junction of one member in as that
  member.
* `Expr.eval`, `Predicate.eval`, `Select.rows` — their worth.
* `Selects` — where a condition is true.
-/

namespace OdooKernel

/-! ## Expressions -/

mutual
/-- An expression that is a value. -/
inductive Expr where
  | col (aliasName column : String)
  | val (d : Datum)
  | castAs (e : Expr) (ty : String)
  | trimScale (e : Expr)
  | translation (e : Expr) (lang : String)
  | companyJson (e : Expr) (company ty : String) (fallback : Option Datum)
  | castJson (e : Expr) (ty : String)
  | castItem (e : Expr) (ty : String)
  | pathTexts (e : Expr)
  | unaccent (e : Expr)
  | select (s : Select)

/-- An expression that is true, false or unknown. -/
inductive Predicate where
  | const (b : Bool)
  | isNull (e : Expr)
  | isNotNull (e : Expr)
  | isIn (e : Expr) (values : List Datum)
  | isNotIn (e : Expr) (values : List Datum)
  | eqAny (e : Expr) (values : List Datum)
  | neAll (e : Expr) (values : List Datum)
  | compare (op : Comparison) (a b : Expr)
  | like (insensitive negative : Bool) (e pattern : Expr)
  | inSelect (e : Expr) (s : Select)
  | notInSelect (e : Expr) (s : Select)
  | and (a b : Predicate)
  | or (a b : Predicate)
  | not (a : Predicate)
  | isNotTrue (a : Predicate)
  | junction (conj : Bool) (members : List Predicate)

/-- A subquery of one column: over a table, over a table joined to another, or one that Python
resolved. -/
inductive Select where
  | from (result : Expr) (table aliasName : String) (wheres : List Predicate)
  | joined (result : Expr) (first table aliasName : String) (on : Predicate) (wheres : List Predicate)
  | fragment (value : Json)
end

/-- A junction under construction. -/
structure Condition where
  conj : Bool
  members : List Predicate

namespace Condition

/-- The junction that is true without members. -/
def all : Condition := { conj := true, members := [] }

/-- The junction that is false without members. -/
def any : Condition := { conj := false, members := [] }

def isEmpty (c : Condition) : Bool := c.members.isEmpty

/-- A condition as an expression. -/
def toPredicate (c : Condition) : Predicate := .junction c.conj c.members

/-- One more member. -/
def addPredicate (c : Condition) (p : Predicate) : Condition :=
  { c with members := c.members ++ [p] }

/-- One more junction, which is its member when it has one only. -/
def add (c d : Condition) : Condition :=
  match d.members with
  | [p] => c.addPredicate p
  | _ => c.addPredicate d.toPredicate

@[simp] lemma conj_all : Condition.all.conj = true := rfl

@[simp] lemma conj_any : Condition.any.conj = false := rfl

@[simp] lemma add_conj (c d : Condition) : (c.add d).conj = c.conj := by
  unfold Condition.add
  split <;> rfl

@[simp] lemma add_members_length (c d : Condition) :
    (c.add d).members.length = c.members.length + 1 := by
  unfold Condition.add
  split <;> simp [addPredicate]

@[simp] lemma addPredicate_conj (c : Condition) (p : Predicate) :
    (c.addPredicate p).conj = c.conj := rfl

@[simp] lemma addPredicate_members (c : Condition) (p : Predicate) :
    (c.addPredicate p).members = c.members ++ [p] := rfl

end Condition

/-! ## Worth -/

/-- A row of a table: the values of its columns. -/
abbrev Row := String → Option Datum

/-- The row that each alias of a statement stands for. -/
abbrev Env := String → Row

/-- A database: its tables, what Python's subqueries return in it, and its server. -/
structure Database where
  table : String → List Row
  fragment : Json → List (Option Datum)
  server : Server

/-- An alias stands for a row. -/
def Env.bind (env : Env) (aliasName : String) (row : Row) : Env := Function.update env aliasName row

/-- A text of an optional text. -/
def textDatum (s : Option String) : Option Datum := s.map .text

/-- `COALESCE`. -/
def coalesce (a b : Option Datum) : Option Datum := a.orElse fun _ => b

/-- A translated column in a language, or in the one that is always there. -/
def translate (server : Server) (lang : String) : Option Datum → Option Datum
  | some (.json j) =>
    coalesce (textDatum ((j.at? lang).bind (Json.unquoted server)))
      (textDatum ((j.at? "en_US").bind (Json.unquoted server)))
  | _ => none

/-- A company's value of a column, or the fallback. -/
def companyValue (server : Server) (company : String) (fallback : Option Datum) :
    Option Datum → Option Datum
  | some (.json j) =>
    coalesce ((j.at? company).map .json) (fallback.map fun d => .json (server.toJson d))
  | _ => fallback.map fun d => .json (server.toJson d)

/-- A number without the zeros at its end, as a text. -/
def trimScale (server : Server) : Datum → Option Datum
  | .nonFinite d => some (.text d.text)
  | d => d.toRat?.map fun q => .text (server.trimmedText q)

/-- A value converted to a type. -/
def castDatum (server : Server) (ty : String) (d : Datum) : Option Datum :=
  match ty, d with
  | "float8", .nonFinite d => some (.nonFinite d)
  | "float8", d => d.toRat?.map fun q => .double (server.toDouble q)
  | "text", d => some (.text (server.textOf d))
  | _, d => some d

/-- Whether a value equals one of a list. -/
def memberOfValues (x : Option Datum) (values : List Datum) : Truth :=
  Truth.memberOf (fun x d => x.map fun x => x.equals d) x values

/-- Whether a value equals one that a subquery returns. -/
def memberOfRows (x : Option Datum) (rows : List (Option Datum)) : Truth :=
  Truth.memberOf (fun (x y : Option Datum) => x.bind fun x => y.map fun y => x.equals y) x rows

section Eval

variable (db : Database)

mutual
/-- What an expression is worth. -/
def Expr.eval : Expr → Env → Option Datum
  | .col aliasName column, env => env aliasName column
  | .val d, _ => some d
  | .castAs e ty, env => (e.eval env).bind (castDatum db.server ty)
  | .trimScale e, env => (e.eval env).bind (trimScale db.server)
  | .translation e lang, env => translate db.server lang (e.eval env)
  | .companyJson e company _ fallback, env =>
    companyValue db.server company fallback (e.eval env)
  | .castJson e ty, env =>
    match e.eval env with
    | some (.json j) => db.server.ofJson ty j
    | _ => none
  | .castItem e ty, env =>
    match e.eval env with
    | some (.json j) => (j.firstText db.server).bind (db.server.ofText ty)
    | _ => none
  | .pathTexts e, env =>
    match e.eval env with
    | some (.json j) => some (.text (String.ofList ((Json.array j.values).text db.server)))
    | _ => none
  | .unaccent e, env =>
    match e.eval env with
    | some (.text s) => some (.text (db.server.unaccent s))
    | _ => none
  | .select s, env => (s.rows env).head?.getD none

/-- Whether a condition is true. -/
def Predicate.eval : Predicate → Env → Truth
  | .const b, _ => some b
  | .isNull e, env => some (e.eval env).isNone
  | .isNotNull e, env => some (e.eval env).isSome
  | .isIn e values, env => memberOfValues (e.eval env) values
  | .isNotIn e values, env => (memberOfValues (e.eval env) values).not
  | .eqAny e values, env => memberOfValues (e.eval env) values
  | .neAll e values, env => (memberOfValues (e.eval env) values).not
  | .compare op a b, env => compareData db.server op (a.eval env) (b.eval env)
  | .like insensitive negative e pattern, env =>
    let t := likeData db.server insensitive (e.eval env) (pattern.eval env)
    if negative then t.not else t
  | .inSelect e s, env => memberOfRows (e.eval env) (s.rows env)
  | .notInSelect e s, env => (memberOfRows (e.eval env) (s.rows env)).not
  | .and a b, env => (a.eval env).and (b.eval env)
  | .or a b, env => (a.eval env).or (b.eval env)
  | .not a, env => (a.eval env).not
  | .isNotTrue a, env => (a.eval env).isNotTrue
  | .junction conj members, env =>
    if conj then Truth.all (Predicate.evalAll members env)
    else Truth.any (Predicate.evalAll members env)

/-- Whether each of some conditions is true. -/
def Predicate.evalAll : List Predicate → Env → List Truth
  | [], _ => []
  | p :: ps, env => p.eval env :: Predicate.evalAll ps env

/-- The values that a subquery returns. -/
def Select.rows : Select → Env → List (Option Datum)
  | .from result table aliasName wheres, env =>
    (db.table table).filterMap fun row =>
      let inner := env.bind aliasName row
      if IsTrue (Truth.all (Predicate.evalAll wheres inner)) then some (result.eval inner) else none
  | .joined result first table aliasName on wheres, env =>
    (db.table first).flatMap fun link => (db.table table).filterMap fun row =>
      let inner := (env.bind first link).bind aliasName row
      if IsTrue ((on.eval inner).and (Truth.all (Predicate.evalAll wheres inner))) then
        some (result.eval inner)
      else none
  | .fragment value, _ => db.fragment value
end

end Eval

/-- The rows an environment stands for satisfy a condition. -/
def Selects (db : Database) (env : Env) (p : Predicate) : Prop := IsTrue (p.eval db env)

/-! ## Where a condition is true -/

section Selects

variable {db : Database} {env : Env}

attribute [local simp] Expr.eval Predicate.eval Predicate.evalAll Select.rows

lemma evalAll_eq (ps : List Predicate) :
    Predicate.evalAll db ps env = ps.map fun p => p.eval db env := by
  induction ps with
  | nil => rfl
  | cons p ps ih => simp [ih]

@[simp] lemma selects_const (b : Bool) : Selects db env (.const b) ↔ b = true := by
  simp [Selects]

@[simp] lemma selects_and (p q : Predicate) :
    Selects db env (.and p q) ↔ Selects db env p ∧ Selects db env q := by
  simp [Selects]

@[simp] lemma selects_or (p q : Predicate) :
    Selects db env (.or p q) ↔ Selects db env p ∨ Selects db env q := by
  simp [Selects]

@[simp] lemma selects_isNotTrue (p : Predicate) :
    Selects db env (.isNotTrue p) ↔ ¬ Selects db env p := by
  simp [Selects]

@[simp] lemma selects_isNull (e : Expr) :
    Selects db env (.isNull e) ↔ e.eval db env = none := by
  simp [Selects]

@[simp] lemma selects_isNotNull (e : Expr) :
    Selects db env (.isNotNull e) ↔ e.eval db env ≠ none := by
  simp [Selects, Option.isSome_iff_ne_none]

@[simp] lemma selects_all (ps : List Predicate) :
    Selects db env (.junction true ps) ↔ ∀ p ∈ ps, Selects db env p := by
  simp [Selects, evalAll_eq]

@[simp] lemma selects_any (ps : List Predicate) :
    Selects db env (.junction false ps) ↔ ∃ p ∈ ps, Selects db env p := by
  simp [Selects, evalAll_eq]

/-- Where a junction is true. -/
def Condition.Holds (db : Database) (env : Env) (c : Condition) : Prop :=
  Selects db env c.toPredicate

@[simp] lemma holds_all : Condition.all.Holds db env := by
  simp [Condition.Holds, Condition.toPredicate, Condition.all]

@[simp] lemma not_holds_any : ¬ Condition.any.Holds db env := by
  simp [Condition.Holds, Condition.toPredicate, Condition.any]

/-- What adding a junction means does not depend on how many members it has. -/
lemma add_members (db : Database) (env : Env) (c d : Condition) : ∃ p, (c.add d).members = c.members ++ [p] ∧
    (c.add d).conj = c.conj ∧ (Selects db env p ↔ d.Holds db env) := by
  unfold Condition.add
  split
  · next p hp =>
      refine ⟨p, rfl, rfl, ?_⟩
      cases hconj : d.conj <;> simp [Condition.Holds, Condition.toPredicate, hp, hconj]
  · exact ⟨d.toPredicate, rfl, rfl, Iff.rfl⟩

lemma holds_add_all (c d : Condition) (h : c.conj = true) :
    (c.add d).Holds db env ↔ c.Holds db env ∧ d.Holds db env := by
  obtain ⟨p, hmembers, hconj, hp⟩ := add_members db env c d
  simp only [Condition.Holds, Condition.toPredicate, hmembers, hconj, h, selects_all,
    List.mem_append, List.mem_singleton] at hp ⊢
  rw [← hp]
  constructor
  · exact fun hall => ⟨fun q hq => hall q (.inl hq), hall p (.inr rfl)⟩
  · rintro ⟨hall, hlast⟩ q (hq | rfl)
    · exact hall q hq
    · exact hlast

lemma holds_add_any (c d : Condition) (h : c.conj = false) :
    (c.add d).Holds db env ↔ c.Holds db env ∨ d.Holds db env := by
  obtain ⟨p, hmembers, hconj, hp⟩ := add_members db env c d
  simp only [Condition.Holds, Condition.toPredicate, hmembers, hconj, h, selects_any,
    List.mem_append, List.mem_singleton] at hp ⊢
  rw [← hp]
  constructor
  · rintro ⟨q, hq | rfl, hs⟩
    · exact .inl ⟨q, hq, hs⟩
    · exact .inr hs
  · rintro (⟨q, hq, hs⟩ | hs)
    · exact ⟨q, .inl hq, hs⟩
    · exact ⟨p, .inr rfl, hs⟩

/-- An empty conjunction is true. -/
lemma holds_of_isEmpty {c : Condition} (hempty : c.isEmpty = true) (hconj : c.conj = true) :
    c.Holds db env := by
  rw [Condition.isEmpty, List.isEmpty_iff] at hempty
  simp [Condition.Holds, Condition.toPredicate, hconj, hempty]

/-- A conjunction of junctions, put in one after the other. -/
lemma holds_foldl_add {parts : List Condition} : ∀ {c : Condition}, c.conj = true →
    ((parts.foldl Condition.add c).Holds db env ↔
      c.Holds db env ∧ ∀ part ∈ parts, part.Holds db env) := by
  induction parts with
  | nil => simp
  | cons part parts ih =>
      intro c hc
      rw [List.foldl_cons, ih (by rwa [Condition.add_conj]), holds_add_all _ _ hc,
        List.forall_mem_cons, and_assoc]

lemma holds_addPredicate {c : Condition} (h : c.conj = true) (p : Predicate) :
    (c.addPredicate p).Holds db env ↔ c.Holds db env ∧ Selects db env p := by
  simp only [Condition.Holds, Condition.toPredicate, Condition.addPredicate_conj,
    Condition.addPredicate_members, h, selects_all, List.mem_append, List.mem_singleton]
  constructor
  · exact fun hall => ⟨fun q hq => hall q (.inl hq), hall p (.inr rfl)⟩
  · rintro ⟨hall, hlast⟩ q (hq | rfl)
    · exact hall q hq
    · exact hlast

/-! ## Membership -/

/-- A value is the value of a column. -/
def Equals (x : Datum) (o : Option Datum) : Prop := ∃ y ∈ o, x.equals y = true

lemma isTrue_memberOfRows {x : Option Datum} {rows : List (Option Datum)} :
    IsTrue (memberOfRows x rows) ↔ ∃ d ∈ x, ∃ row ∈ rows, Equals d row := by
  simp only [memberOfRows, Truth.memberOf, isTrue_any, List.mem_map]
  constructor
  · rintro ⟨-, ⟨row, hrow, rfl⟩, htrue⟩
    obtain ⟨d, rfl⟩ : ∃ d, x = some d := by
      cases x with
      | none => simp at htrue
      | some d => exact ⟨d, rfl⟩
    refine ⟨d, rfl, row, hrow, ?_⟩
    cases row with
    | none => simp at htrue
    | some y => exact ⟨y, rfl, by simpa using htrue⟩
  · rintro ⟨d, hd, row, hrow, y, hy, heq⟩
    rw [Option.mem_def] at hd hy
    exact ⟨_, ⟨row, hrow, rfl⟩, by simp [hd, hy, heq]⟩

@[simp] lemma selects_inSelect (e : Expr) (s : Select) :
    Selects db env (.inSelect e s) ↔ ∃ d ∈ e.eval db env, ∃ row ∈ s.rows db env, Equals d row := by
  rw [Selects, Predicate.eval, isTrue_memberOfRows]

lemma mem_rows_from {result : Expr} {table aliasName : String} {cond : Condition}
    {y : Option Datum} :
    y ∈ (Select.from result table aliasName [cond.toPredicate]).rows db env ↔
      ∃ row ∈ db.table table, cond.Holds db (env.bind aliasName row) ∧
        result.eval db (env.bind aliasName row) = y := by
  simp only [Select.rows, List.mem_filterMap, Predicate.evalAll, isTrue_all, List.mem_singleton,
    forall_eq, Option.ite_none_right_eq_some, Option.some.injEq, Condition.Holds, Selects]

end Selects

end OdooKernel
