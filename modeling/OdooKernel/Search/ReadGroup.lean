import OdooKernel.Search.Read

/-!
# Reading groups

A grouping reads what its records are grouped by, through many2one fields where it names a path, and
what is computed of each group.  Its rows become lists of cells, and the records among its keys get
their labels.

**Three kinds of joins.**  The comodels on the way to a field are joined once each, in the order of
the specs (`walkHops`); the relation table of a many2many is joined where it is grouped by; and the
order of the groups joins what it goes through.  `Search/Aliases` says when their names meet.

**The order** may add columns to the statement, behind the aggregates: they are counted on from
there, and the cells of a group do not show them.

* `GroupRequest`, `GbSpec` — a grouping, and what one of its specs names.
* `GroupRequest.gbSpecs`, `GroupRequest.keyColumns` — the specs and what they group by.
* `GroupRequest.aggregateOf` — what is computed.
* `GroupRequest.orderColumns` — the order of the groups, and the columns that it adds.
* `GroupRequest.decodeGroupRow`, `GroupRequest.labelKeys` — the cells of a group.
* `GroupRequest.readGroup` — a grouping.
-/

namespace OdooKernel

/-- A grouping of the records of a search. -/
structure GroupRequest extends SearchRequest where
  groupby : Json
  aggregates : List String
  order : Option String
  offset : ℕ
  limit : Option ℕ
  labels : Bool
  hiddenLabelsEmpty : Bool
  tz : Option String
  weekStart : Option ℤ

/-- What a spec names: a field, where it is read, and the granularity of a date. -/
structure GbSpec where
  field : Field
  granularity : Option String
  holder : Model
  aliasName : String

/-- What an aggregate is decoded as. -/
inductive AggKind where
  | Count
  | SumInt
  | Float
  | Bool
  | IntArray
  | FloatArray
  | TextArray
  | ByField (kind : ColKind)

/-- The methods of reading that the labels of a model go through. -/
def labelMethods : List String := ["search_fetch", "fetch", "_fetch_query", "_field_to_sql"]

/-- Whether a model overrides no method that its labels go through. -/
def Model.labelsPure (model : Model) : Bool :=
  (model.impureReadMethods.filter (· ∈ labelMethods)).isEmpty

/-- The two parts of a text around its first character of a kind. -/
def splitAtFirst (c : Char) (text : String) : String × Option String :=
  match text.toList.span (· ≠ c) with
  | (start, _ :: rest) => (String.ofList start, some (String.ofList rest))
  | (_, []) => (text, none)

/-- The two parts of a text around its last character of a kind. -/
def splitAtLast (c : Char) (text : String) : Option (String × String) :=
  match text.toList.reverse.span (· ≠ c) with
  | (rest, _ :: start) => some (String.ofList start.reverse, String.ofList rest.reverse)
  | (_, []) => none

namespace GroupRequest

variable (r : GroupRequest) (calls : ℕ) (model : Model)

/-- The specs of a request: one, or several. -/
def groupbyNames : Result (List String) :=
  match r.groupby with
  | .string s => .ok [s]
  | .array items => items.mapM fun item => orRefuse "bad groupby" item.asStr
  | .null => refuse "read_group requires groupby"
  | _ => refuse "bad groupby"

/-! ## Keys -/

/-- The comodels on the way to a field, each joined once. -/
def walkHops (spec : String) : Compiler → List HopJoin → List String →
    Compile (Compiler × List HopJoin)
  | c, joins, [] => pure (c, joins)
  | c, joins, hop :: hops => do
    let field ← (orRefuse ("unknown groupby field " ++ c.model.name ++ "." ++ hop ++ " in " ++ spec)
      (c.model.fields.get? hop) : Result Field)
    r.checkFieldAccess field
    let (co, coalias, on) ← c.many2oneHopJoin (Compiler.compile calls) field
    let joins := if coalias ∈ joins.map (·.aliasName) then joins
      else joins ++ [{ table := co.table, aliasName := coalias, on }]
    walkHops spec (c.subCompiler co coalias) joins hops

/-- The field that a field is grouped through. -/
def groupedField (holder : Model) (fname : String) : Result Field := do
  let field ← orRefuse ("unknown groupby field " ++ holder.name ++ "." ++ fname)
    (holder.fields.get? fname)
  r.checkFieldAccess field
  match field.groupByField with
  | none => return field
  | some standIn =>
    let through ← orRefuse (holder.name ++ "." ++ fname ++ " groups through " ++ standIn ++ ", which "
      ++ "this registry does not read") (holder.fields.get? standIn)
    r.checkFieldAccess through
    return through

/-- **What a spec names**, with the joins of the specs before it. -/
def gbSpec (joins : List HopJoin) (spec : String) : Compile (GbSpec × List HopJoin) := do
  let (path, granularity) := splitAtFirst ':' spec
  let hops := splitDots path
  let (c, joins) ← r.walkHops calls spec (r.compiler model) joins hops.dropLast
  let field ← r.groupedField c.model (hops.getLastD "")
  if !hops.dropLast.isEmpty ∧ field.ttype = .Many2many then
    (refuse ("grouping " ++ r.model ++ " by " ++ spec ++ ": a many2many at the end of a path can "
      ++ "duplicate rows, which Python's grouping-sets check decides") :
      Result (GbSpec × List HopJoin))
  else return ({ field, granularity, holder := c.model, aliasName := c.aliasName }, joins)

/-- What some specs name, one after the other. -/
def gbSpecs : List HopJoin → List String → Compile (List GbSpec × List HopJoin)
  | joins, [] => pure ([], joins)
  | joins, spec :: specs => do
    let (gb, joins) ← r.gbSpec calls model joins spec
    let (gbs, joins) ← gbSpecs joins specs
    return (gb :: gbs, joins)

/-- What the worth of a field is grouped by. -/
def keyExpr (gb : GbSpec) (base : Expr) : Result GroupExpr :=
  match gb.granularity with
  | some g => do
    return .dated base (← granularitySteps g (gb.field.ttype = .Date) r.tz r.weekStart)
  | none =>
    if gb.field.ttype = .Date ∨ gb.field.ttype = .Datetime then
      refuse ("granularity not set on the date(time) groupby " ++ model.name ++ "." ++ gb.field.name
        ++ "; Odoo requires `" ++ gb.field.name ++ ":day|month|quarter|year`")
    else if gb.field.ttype.isText then .ok (.nullIfEmpty base)
    else if gb.field.ttype = .Boolean then .ok (.orFalse base)
    else .ok (.value base)

/-- The worth of a field, and the join of its relation table if it is a many2many. -/
def keyBase (gb : GbSpec) : Compile (Expr × List HopJoin) :=
  if gb.field.ttype = .Many2many then
    if gb.granularity.isSome then
      liftM (refuse ("a granularity on the many2many groupby " ++ model.name ++ "." ++ gb.field.name) :
        Result (Expr × List HopJoin))
    else do
      let (rel, relAlias, on) ←
        (r.compiler model).many2manyGroupJoin (Compiler.compile calls) gb.field
      let (_, _, column2) ← gb.field.m2mColumns
      return (.col relAlias column2, [{ table := rel, aliasName := relAlias, on }])
  else do return (← r.ctx.readExpr calls gb.holder gb.field gb.aliasName, [])

/-- **What the records are grouped by**, and the joins of relation tables. -/
def keyColumns : List GbSpec → Compile (List GroupExpr × List HopJoin)
  | [] => pure ([], [])
  | gb :: gbs => do
    let (base, joins) ← r.keyBase calls model gb
    let e ← r.keyExpr model gb base
    let (es, rest) ← keyColumns gbs
    return (e :: es, joins ++ rest)

/-! ## Aggregates -/

/-- What an aggregate is decoded as. -/
def aggKind (func : String) (f : Field) : Result AggKind :=
  if func = "count" ∨ func = "count_distinct" then .ok .Count
  else if func = "sum" ∧ f.ttype = .Integer then .ok .SumInt
  else if func = "avg" ∨ func = "sum" then .ok .Float
  else if func = "min" ∨ func = "max" then do
    return .ByField (← colKind (← r.ctx.finalField model f))
  else if (func = "bool_and" ∨ func = "bool_or") ∧ f.ttype = .Boolean then .ok .Bool
  else if func = "array_agg" ∨ func = "array_agg_distinct" then
    if f.ttype = .Integer ∨ f.ttype = .Many2one then .ok .IntArray
    else if f.ttype = .Float ∨ f.ttype = .Monetary then .ok .FloatArray
    else if f.ttype.isText ∨ f.ttype = .Selection then .ok .TextArray
    else refuse (func ++ " over a field (" ++ model.name ++ "." ++ f.name ++ ") is not decoded by this "
      ++ "kernel")
  else refuse ("unsupported aggregate function " ++ func ++ " on " ++ model.name ++ "." ++ f.name)

/-- An aggregate of a field. -/
def fieldAggregate (f : Field) (func : String) : Compile (AggExpr × AggKind) := do
  let numeric := f.hasColumn && f.pgType = "numeric"
  let inner ← if numeric then r.ctx.fieldExpr model f model.table
    else r.ctx.readExpr calls model f model.table
  if numeric ∧ (func = "array_agg" ∨ func = "array_agg_distinct") then
    (refuse (func ++ " over the numeric column " ++ model.name ++ "." ++ f.name ++ " returns Decimals "
      ++ "in Python; the kernel's float array would not compare equal") : Result (AggExpr × AggKind))
  else
    let agg ← aggExpr func inner model.table
    let agg := if numeric ∧ (func = "sum" ∨ func = "min" ∨ func = "max") then .asDouble agg else agg
    return (agg, ← r.aggKind model func f)

/-- **What is computed of each group.** -/
def aggregateOf (agg : String) : Compile (AggExpr × AggKind) :=
  if agg = "__count" then pure (.countAll, .Count)
  else do
    let (fname, func) ← (orRefuse ("bad aggregate spec " ++ agg) (splitAtLast ':' agg) :
      Result (String × String))
    let f ← (orRefuse ("unknown aggregate field " ++ fname) (model.fields.get? fname) : Result Field)
    r.checkFieldAccess f
    r.fieldAggregate calls model f func

/-- What some aggregates compute, one after the other. -/
def aggregatesOf : List String → Compile (List (AggExpr × AggKind))
  | [] => pure []
  | agg :: aggs => do
    let first ← r.aggregateOf calls model agg
    return first :: (← aggregatesOf aggs)

/-! ## The order of the groups -/

/-- The terms that the groups are ordered by: those of the request, or the specs. -/
def orderTerms (groupby : List String) : Result (List OrderTerm) :=
  match r.order with
  | some order => do return (← (orderParts order).mapM parseOrderTerm).filterMap id
  | none => .ok (groupby.map fun spec => { field := spec, desc := false, nulls := none })

/-- Whether a many2one is ordered by more than the ids of its comodel. -/
def comodelOrdered (field : Field) : Bool :=
  field.ttype = .Many2one &&
    ((field.comodel.toOption.bind fun c => (r.ctx.registry.get c).toOption).any
      fun co => trimmed co.order.toList ≠ "id".toList)

/-- A term by a column of the statement. -/
def ordinalItem (n : ℕ) (term : OrderTerm) : GroupItem where
  expr := .ordinal n
  desc := term.desc
  nulls := term.nulls
  joins := []

/-- A term of the order of a model, of any row of a group. -/
def anyItem (item : OrderItem) : GroupItem where
  expr := .anyValue item.expr
  desc := item.desc
  nulls := item.nulls
  joins := item.joins

/-- A term on a spec: by its column, by the order of its comodel, or by a column of its own that puts
the first day of the week first. -/
def specItems (gb : GbSpec) (key : GroupExpr) (n next : ℕ) (term : OrderTerm) :
    Compile (List GroupItem × List GroupColumn) :=
  if r.order.isSome ∧ gb.granularity = none ∧ r.comodelOrdered gb.field then
    if gb.aliasName ≠ model.table then
      liftM (refuse ("ordering the path groupby " ++ term.field ++ " through its comodel's _order; the "
        ++ "kernel orders a path by its ordinal only") : Result (List GroupItem × List GroupColumn))
    else do
      let items ← r.ctx.parseOrder calls model model.table (ExprCtx.standInTerm term gb.field.name)
      return (items.map anyItem, [])
  else if gb.granularity = some "day_of_week" then
    match r.weekStart with
    | none => liftM (refuse ("day_of_week groups are ordered from the language's first weekday, and the "
        ++ "request names no language") : Result (List GroupItem × List GroupColumn))
    | some start => pure ([ordinalItem next term], [.key (.weekday start key)])
  else pure ([ordinalItem n term], [])

/-- What a term orders by, and the column that it adds, where the next column is the given one. -/
def termItems (groupby : List String) (gbs : List (GbSpec × GroupExpr)) (next : ℕ) (term : OrderTerm) :
    Compile (List GroupItem × List GroupColumn) :=
  match groupby.findIdx? (· = term.field) with
  | some i =>
    match gbs[i]? with
    | some (gb, key) => r.specItems calls model gb key (i + 1) next term
    | none => liftM (.error (.internal "index out of bounds") : Result (List GroupItem × List GroupColumn))
  | none =>
    if term.field = "__count" ∧ "__count" ∉ r.aggregates then
      pure ([ordinalItem next term], [.aggregate .countAll])
    else
      match r.aggregates.findIdx? (· = term.field) with
      | some j => pure ([ordinalItem (gbs.length + j + 1) term], [])
      | none => liftM (refuse ("read_group order term " ++ term.field ++ " is neither a groupby nor one "
          ++ "of the requested aggregates; Odoo would compute it, this kernel refuses rather than "
          ++ "guess") : Result (List GroupItem × List GroupColumn))

/-- **What the groups are ordered by**, and the columns that are added for it. -/
def orderColumns (groupby : List String) (gbs : List (GbSpec × GroupExpr)) :
    ℕ → List OrderTerm → Compile (List GroupItem × List GroupColumn)
  | _, [] => pure ([], [])
  | next, term :: terms => do
    let (items, columns) ← r.termItems calls model groupby gbs next term
    let (rest, more) ← orderColumns groupby gbs (next + columns.length) terms
    return (items ++ rest, columns ++ more)

/-! ## Cells -/

/-- A list of values as JSON. -/
def arrayCell (item : Datum → Result Json) (items : Option (List (Option Datum))) : Result Json := do
  let cells ← (items.getD []).mapM fun d => d.elim (.ok .null) item
  return .array cells

/-- The cell of an aggregate. -/
def decodeAggregate : AggKind → AggValue → Result Json
  | .Count, .one (some (.int n)) => .ok (.int n)
  | .Count, .one none => .ok (.int 0)
  | .SumInt, .one d => decodeGroup .IntZero d
  | .Float, .one d => decodeGroup .Float d
  | .Bool, .one d => decode .Bool d
  | .IntArray, .many items => arrayCell (fun d => decode .IntZero (some d)) items
  | .FloatArray, .many items => arrayCell (fun d => decode .Float (some d)) items
  | .TextArray, .many items => arrayCell (fun d => decode .Str (some d)) items
  | .ByField kind, .one d => decodeGroup kind d
  | _, _ => wrongType

/-- What the key of a spec is decoded as. -/
def keyKind (gb : GbSpec) : Result ColKind :=
  match gb.granularity with
  | some g =>
    .ok (if isNumberGranularity g then .Float else if gb.field.ttype = .Date then .Date else .Datetime)
  | none =>
    if gb.field.ttype = .Many2many then .ok (.M2o (gb.field.relation.getD ""))
    else do colKind (← r.ctx.finalField gb.holder gb.field)

/-- The cells of the keys of a group, and the values after them. -/
def decodeKeys : List GbSpec → List AggValue → Result (List Json × List AggValue)
  | [], values => .ok ([], values)
  | gb :: gbs, .one d :: values => do
    let kind ← r.keyKind gb
    let cell ← decodeGroup kind d
    let (cells, rest) ← decodeKeys gbs values
    return (cell :: cells, rest)
  | _ :: _, _ => wrongType.map fun _ => ([], [])

/-- The cells of the aggregates of a group. -/
def decodeAggregates : List AggKind → List AggValue → Result (List Json)
  | [], _ => .ok []
  | kind :: kinds, value :: values => do
    let cell ← decodeAggregate kind value
    let cells ← decodeAggregates kinds values
    return cell :: cells
  | _ :: _, [] => .error (.internal "invalid column index")

/-- **The cells of a group**: its keys, and its aggregates. -/
def decodeGroupRow (gbs : List GbSpec) (kinds : List AggKind) (values : List AggValue) :
    Result (List Json) := do
  let (keys, rest) ← r.decodeKeys gbs values
  return keys ++ (← decodeAggregates kinds rest)

/-! ## Labels -/

/-- Whether the keys of a spec are records. -/
def relational (gb : GbSpec) : Bool :=
  (gb.field.ttype = .Many2one && gb.field.hasColumn) || gb.field.ttype = .Many2many

/-- The key of a record with its label, which may be empty where the principal may not see it. -/
def labelKey (gb : GbSpec) (comodel : String) (pureLabels : Bool) (names : Dict ℤ Json) (cell : Json) :
    Result Json :=
  match cell.asI64 with
  | none => .ok cell
  | some id =>
    match names.get? id with
    | some name => .ok (.array [.int id, name])
    | none =>
      if r.hiddenLabelsEmpty then .ok (.array [.int id, .string ""])
      else refuse ("grouping " ++ model.name ++ "." ++ gb.field.name ++ " by " ++ comodel ++ " "
        ++ toString id ++ ", which the principal may not read"
        ++ if pureLabels then "; Python raises AccessError rendering its display name"
          else ", and " ++ comodel ++ " defines its read path in Python, which may widen or narrow that")

/-- The cell at a place, with something done to it. -/
def modifyCell (f : Json → Result Json) : ℕ → List Json → Result (List Json)
  | _, [] => .ok []
  | 0, cell :: cells => do return (← f cell) :: cells
  | i + 1, cell :: cells => do return cell :: (← modifyCell f i cells)

/-- The labels of the keys of one spec. -/
def labelKeys (gb : GbSpec) (i : ℕ) (groups : List (List Json)) : Reading (List (List Json)) :=
  if !relational gb then pure groups
  else do
    let comodel ← (gb.field.comodel : Result String)
    let pureLabels := (← (r.ctx.registry.get comodel : Result Model)).labelsPure
    if r.hiddenLabelsEmpty ∧ !pureLabels then
      (refuse (comodel ++ " defines its read path in Python, so the kernel cannot tell which group "
        ++ "labels the principal may see") : Result (List (List Json)))
    else
      let ids := sortDedup (groups.filterMap fun group => group[i]?.bind Json.asI64)
      let names ← r.displayNames calls comodel ids
      (groups.mapM (modifyCell (r.labelKey model gb comodel pureLabels names) i) :
        Result (List (List Json)))

/-- The labels of the keys of some specs, one after the other. -/
def labelAllKeys : ℕ → List GbSpec → List (List Json) → Reading (List (List Json))
  | _, [], groups => pure groups
  | i, gb :: gbs, groups => do labelAllKeys (i + 1) gbs (← r.labelKeys calls model gb i groups)

/-! ## Groupings -/

/-- What a grouping is: its statement, its specs, and what its aggregates are decoded as. -/
structure Plan where
  statement : GroupStatement
  specs : List GbSpec
  kinds : List AggKind

/-- **The statement of a grouping.** -/
def plan (cond : Condition) : Compile Plan := do
  let groupby ← r.groupbyNames
  let (gbs, hops) ← r.gbSpecs calls model [] groupby
  let (keys, relations) ← r.keyColumns calls model gbs
  let aggs ← r.aggregatesOf calls model r.aggregates
  let terms ← r.orderTerms groupby
  let (items, hidden) ← r.orderColumns calls model groupby (gbs.zip keys)
    (gbs.length + aggs.length + 1) terms
  return {
    statement := {
      table := model.table
      hops := hops ++ relations
      condition := cond
      columns := keys.map .key ++ aggs.map (fun agg => .aggregate agg.1) ++ hidden
      items }
    specs := gbs
    kinds := aggs.map (·.2) }

/-- **A grouping**: the cells of each group, where the hierarchies that its domain names have these
answers. -/
def readGroup (answers : ∀ q : Question, q.Answer) : Reading (List (List Json)) := do
  let model ← r.ctx.registry.get r.model
  if !model.readGroupPure then
    (refuse (r.model ++ " customises _read_group in Python (a _read_group_* hook); the kernel cannot "
      ++ "reproduce it from the columns") : Result (List (List Json)))
  else
    let (cond, _) ← ((r.buildCondition calls model).run answers : Result (Condition × List Event))
    let plan ← r.plan calls model cond
    let rows ← Reading.asks (.groups plan.statement r.offset (r.limit.filter (· > 0)))
    let groups ← (rows.mapM (r.decodeGroupRow plan.specs plan.kinds) : Result (List (List Json)))
    if r.labels then r.labelAllKeys calls model 0 plan.specs groups else return groups

end GroupRequest

end OdooKernel
