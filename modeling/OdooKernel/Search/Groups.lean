import OdooKernel.Compile.GroupJoin
import OdooKernel.Core.Grouping
import OdooKernel.Search.Statement
import OdooKernel.Sql.Decode

/-!
# The statement of a grouping

A grouping reads one table under its own name, the comodels on the way to its fields and those of its
order joined on the left, and returns a row for each key that some record has.

**Keys and aggregates.**  What rows are grouped by is a value, or what a granularity makes of a date;
a text whose empty one counts as NULL and a boolean whose NULL counts as false are keys of their own
kind (`GroupExpr`).  An aggregate is what the server makes of the values of a group (`Engine`), of
which nothing is assumed; the number of the rows is not among them, and is counted here.

**What the server may return.**  The groups come in any order that the order of the statement allows,
and a column that is not grouped by takes its value from any row of the group.

* `DateStep`, `granularitySteps` — what a date or an instant is grouped by.
* `GroupExpr`, `AggExpr`, `GroupColumn` — what a grouping selects.
* `GroupStatement`, `GroupStatement.groups` — a grouping, and its groups.
* `GroupStatement.Returns` — the rows that the server may return.
-/

namespace OdooKernel

/-! ## Dates -/

/-- What the server makes of a date or an instant: the time in a zone, a part of it, its start of a
unit, the start of its week where weeks start so many days later than on Monday, and its date. -/
inductive DateStep where
  | inZone (tz : String)
  | part (name : String)
  | trunc (unit : String)
  | truncWeek (days : ℤ)
  | toDate
deriving DecidableEq, Repr

/-- The granularities that are numbers, each with the part of a date that it is. -/
def numberGranularities : List (String × String) :=
  [("year_number", "year"), ("quarter_number", "quarter"), ("month_number", "month"),
    ("iso_week_number", "week"), ("day_of_year", "doy"), ("day_of_month", "day"),
    ("day_of_week", "dow"), ("hour_number", "hour"), ("minute_number", "minute"),
    ("second_number", "second")]

def isNumberGranularity (gran : String) : Bool := numberGranularities.any (·.1 = gran)

/-- The start of a unit that a granularity names. -/
def granularityUnit (gran : String) (weekStart : Option ℤ) : Result DateStep :=
  if gran ∈ ["hour", "day", "month", "quarter", "year"] then .ok (.trunc gran)
  else if gran = "week" then
    match weekStart with
    | none => refuse ("a week groupby starts on the language's first weekday, and the request names "
        ++ "no language")
    | some start => .ok (.truncWeek (if start - 1 = 0 then 0 else 7 - (start - 1)))
  else refuse ("unsupported granularity " ++ gran)

/-- **What a date or an instant is grouped by.** -/
def granularitySteps (gran : String) (isDate : Bool) (tz : Option String) (weekStart : Option ℤ) :
    Result (List DateStep) :=
  let zone := if isDate then [] else (tz.map DateStep.inZone).toList
  match numberGranularities.find? (·.1 = gran) with
  | some (_, part) => .ok (zone ++ [.part part])
  | none => do
    let unit ← granularityUnit gran weekStart
    return zone ++ unit :: if isDate then [.toDate] else []

/-! ## What a grouping selects -/

/-- What the rows are grouped by: a value, a text whose empty one counts as NULL, a boolean whose NULL
counts as false, a date or an instant, or the place of a weekday in a week. -/
inductive GroupExpr where
  | value (e : Expr)
  | nullIfEmpty (e : Expr)
  | orFalse (e : Expr)
  | dated (e : Expr) (steps : List DateStep)
  | weekday (start : ℤ) (day : GroupExpr)

/-- What is computed of the rows of a group. -/
inductive AggExpr where
  | countAll
  | call (func : String) (e : Expr) (table : String)
  | asDouble (agg : AggExpr)

/-- The aggregate functions. -/
def aggregateFunctions : List String :=
  ["sum", "min", "max", "count", "avg", "count_distinct", "bool_and", "bool_or", "array_agg",
    "array_agg_distinct"]

def aggExpr (func : String) (inner : Expr) (table : String) : Result AggExpr :=
  if func ∈ aggregateFunctions then .ok (.call func inner table)
  else refuse ("unsupported aggregate function " ++ func)

/-- A column of a grouping: the rows are grouped by its value, or it is computed of each group. -/
inductive GroupColumn where
  | key (e : GroupExpr)
  | aggregate (agg : AggExpr)

/-- A value of a row that a grouping returns. -/
inductive AggValue where
  | one (d : Option Datum)
  | many (items : Option (List (Option Datum)))

/-- **What the server computes beside the tables**: the worth of the request's subqueries for a row, of
a date, and of an aggregate function on some values, each with the id of its row; which row of a group
ANY_VALUE takes; and the order of arrays. -/
structure Engine where
  resolved : Json → Row → Option Datum
  dated : DateStep → Datum → Option Datum
  aggregate : String → List (Option Datum × Option Datum) → AggValue
  anyValue : List Env → Env
  arrayBefore : List (Option Datum) → List (Option Datum) → Bool

/-- The number of a weekday, counted from the first day of a week; the numbers count from Sunday. -/
def weekdayPlace (start : ℤ) : Datum → Option Datum
  | .double q => some (.int (Int.tmod (7 - start + (q + 1 / 2).floor) 7))
  | _ => none

section Eval

variable (engine : Engine) (db : Database)

/-- What a row is grouped by. -/
def GroupExpr.eval : GroupExpr → Env → Option Datum
  | .value e, env => e.eval db env
  | .nullIfEmpty e, env => (e.eval db env).filter (· ≠ .text "")
  | .orFalse e, env => coalesce (e.eval db env) (some (.bool false))
  | .dated e steps, env => steps.foldl (fun d step => d.bind (engine.dated step)) (e.eval db env)
  | .weekday start day, env => (day.eval env).bind (weekdayPlace start)

/-- What is computed of a group. -/
def AggExpr.eval : AggExpr → List Env → AggValue
  | .countAll, group => .one (some (.int group.length))
  | .call func e table, group =>
    engine.aggregate func (group.map fun env => (env table "id", e.eval db env))
  | .asDouble agg, group =>
    match agg.eval group with
    | .one d => .one (d.bind (castDatum db.server "float8"))
    | many => many

/-- A column of a group: all its rows have one key. -/
def GroupColumn.eval : GroupColumn → List Env → AggValue
  | .key e, group => .one (group.head?.bind (e.eval engine db))
  | .aggregate agg, group => agg.eval engine db group

end Eval

/-! ## Joins -/

/-- A left join on a condition. -/
structure HopJoin where
  table : String
  aliasName : String
  on : Condition

/-- The rows that a join finds. -/
def HopJoin.found (db : Database) (join : HopJoin) (env : Env) : List Row :=
  (db.table join.table).filter fun row =>
    IsTrue (join.on.toPredicate.eval db (env.bind join.aliasName row))

/-- A row with each row that a join finds, or with NULLs. -/
def HopJoin.extend (db : Database) (join : HopJoin) (env : Env) : List Env :=
  match join.found db env with
  | [] => [env.bind join.aliasName absentRow]
  | rows => rows.map (env.bind join.aliasName)

/-- A row with all that is joined to it. -/
def hopAll (db : Database) : List HopJoin → Env → List Env
  | [], env => [env]
  | join :: joins, env => (join.extend db env).flatMap (hopAll db joins)

/-! ## Groupings -/

/-- What the rows of a grouping are ordered by: a column, by its place, or any value of a group. -/
inductive GroupOrderExpr where
  | ordinal (n : ℕ)
  | anyValue (e : OrderExpr)

/-- A term of the order of a grouping. -/
structure GroupItem where
  expr : GroupOrderExpr
  desc : Bool
  nulls : Option NullOrdering
  joins : List OrderJoin

/-- One value is before another in the order of a term; NULL is first where the term says so, or where
it is descending and says nothing. -/
def GroupItem.before (server : Server) (item : GroupItem) : Option Datum → Option Datum → Bool
  | some x, some y => if item.desc then y.before server x else x.before server y
  | none, some _ => item.nulls.elim item.desc (· = .First)
  | some _, none => !item.nulls.elim item.desc (· = .First)
  | none, none => false

/-- A grouping over a table, under its own name. -/
structure GroupStatement where
  table : String
  hops : List HopJoin
  condition : Condition
  columns : List GroupColumn
  items : List GroupItem

namespace GroupStatement

variable (s : GroupStatement) (engine : Engine) (db : Database)

/-- The joins of the order. -/
def joins : List OrderJoin := distinctJoins [] (s.items.flatMap (·.joins))

/-- The server takes a statement only if its aliases are distinct. -/
def Accepted : Prop :=
  (s.table :: s.hops.map (·.aliasName) ++ s.joins.map (·.aliasName)).Nodup

/-- A row of the table, and nothing joined to it. -/
def rowEnv (row : Row) : Env := Env.bind (fun _ => absentRow) s.table row

/-- The rows that are grouped, each with what is joined to it. -/
def envs : List Env :=
  ((db.table s.table).flatMap fun row =>
    (hopAll db s.hops (s.rowEnv row)).flatMap (joinAll db s.joins)).filter
      fun env => IsTrue (s.condition.toPredicate.eval db env)

/-- What the rows are grouped by. -/
def keyExprs : List GroupExpr := s.columns.filterMap fun
  | .key e => some e
  | .aggregate _ => none

/-- The key of a row.  The values of a column are of one type, so they are equal where they are the
same. -/
def keyOf (env : Env) : List (Option Datum) := s.keyExprs.map fun e => e.eval engine db env

/-- **The groups**, one for each key. -/
def groups : List (List Env) := groupsBy (s.keyOf engine db) (s.envs db)

/-- The row of a group. -/
def row (group : List Env) : List AggValue := s.columns.map fun c => c.eval engine db group

/-- What a group is ordered by. -/
def orderValue (item : GroupItem) (group : List Env) : AggValue :=
  match item.expr with
  | .ordinal n => (s.row engine db group).getD (n - 1) (.one none)
  | .anyValue e => .one (e.eval db engine.resolved (engine.anyValue group))

/-- One value is before another in the order of a term. -/
def valueBefore (item : GroupItem) : AggValue → AggValue → Bool
  | .one a, .one b => item.before db.server a b
  | .many (some a), .many (some b) =>
    if item.desc then engine.arrayBefore b a else engine.arrayBefore a b
  | _, _ => false

/-- The keys that the groups are ordered by. -/
def keys : List (List Env → List Env → Prop) := s.items.map fun item group group' =>
  valueBefore engine db item (s.orderValue engine db item group) (s.orderValue engine db item group')
    = true

/-- **What the server may return** of a grouping. -/
def Returns (offset : ℕ) (limit : Option ℕ) (rows : List (List AggValue)) : Prop :=
  s.Accepted ∧ ∃ page, IsPart (s.keys engine db) (s.groups engine db) offset limit page ∧
    rows = page.map (s.row engine db)

end GroupStatement

end OdooKernel
