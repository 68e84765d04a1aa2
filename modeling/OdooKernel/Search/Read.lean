import OdooKernel.Search.Names

/-!
# Reading records

A search that reads records asks for their columns by one query, for the labels of its many2one
fields by one query for each comodel, and for each x2many field by one query over its relation.  What
these return is put together by the places of the columns and by the ids.

**Order.**  The columns come first, because their ids are what the other queries ask for.  Labels are
put on a cell of the column, x2many fields are added behind the columns, and neither moves a record
(`Search/Records`).

**Labels.**  The label of a record is its display name under the rules of its model; a record that
the principal may not see has none, and its cell is false, but for the columns of which the id is
kept (`ReadRequest.keepsHidden`).

* `ReadRequest`, `Plan`, `planFields` — a search, and what is read of its records: columns and x2many
  fields.
* `finalField` — the field that a related field leads to.
* `mainQuery`, `decodeRow` — the columns of the records.
* `labelColumns`, `x2manyIds` — the labels, and the records of an x2many.
* `searchRead`, `searchCount` — a search with what it reads, and one that counts alone.
-/

namespace OdooKernel

/-- A search, and what is read of its records. -/
structure ReadRequest extends SearchRequest where
  fields : List String
  order : Option String
  offset : ℕ
  limit : Option ℕ
  rawMany2one : List String
  unredactedMany2one : List String
  x2manyActiveTest : Bool

/-- The field that a related field leads to, whose type its column has. -/
def ExprCtx.finalField (ctx : ExprCtx) (model : Model) (field : Field) : Result Field :=
  if field.hasColumn || field.related.isNone then .ok field
  else do
    let path ← ctx.normalizePath model [field.name]
    let target ← ctx.pathTarget model path.dropLast
    orRefuse ("bad related target for " ++ model.name ++ "." ++ field.name)
      (target.fields.get? (path.getLastD ""))

namespace ReadRequest

variable (r : ReadRequest) (calls : ℕ) (model : Model)

/-! ## What is read -/

/-- What a search reads: columns, x2many fields, and the name, where there may be nothing to render it
from. -/
structure Plan where
  selected : List Field
  x2many : List Field
  displayName : Option (Option Output)

/-- What a field adds to what is read. -/
def planField (plan : Plan) (fname : String) : Compile Plan :=
  if fname = "id" then pure plan
  else if fname = "display_name" then
    if !model.displayNameDefault then
      liftM (refuse (r.model ++ " computes display_name in Python; the kernel cannot render it from "
        ++ "_rec_name") : Result Plan)
    else do
      let source ← r.displayNameExpr calls model model.table
      if source.isNone && model.recName.isSome && model.displayNameColumn.isEmpty then
        (refuse (r.model ++ " has no readable _rec_name to render display_name from") : Result Plan)
      else return { plan with displayName := some source }
  else do
    let f ← (orRefuse ("unknown field " ++ r.model ++ "." ++ fname) (model.fields.get? fname) :
      Result Field)
    r.checkFieldAccess f
    if f.ttype.isX2many then return { plan with x2many := plan.x2many ++ [f] }
    else if f.hasColumn || f.related.isSome then return { plan with selected := plan.selected ++ [f] }
    else (refuse ("field " ++ r.model ++ "." ++ fname ++ " is not stored/readable") : Result Plan)

/-- **What a search reads**, field after field. -/
def planFields (plan : Plan) : List String → Compile Plan
  | [] => pure plan
  | fname :: fnames => do planFields (← r.planField calls model plan fname) fnames

/-- The expressions of some columns, each with its name and its kind. -/
def selectColumns : List Field → Compile (List (Expr × String × ColKind))
  | [] => pure []
  | f :: fs => do
    let e ← r.ctx.readExpr calls model f model.table
    let kind ← (do colKind (← r.ctx.finalField model f) : Result ColKind)
    return (e, f.name, kind) :: (← selectColumns fs)

/-- The columns of the records, each with its name and its kind: the id is the first, the name the
last. -/
def kindsOf (columns : List (Expr × String × ColKind)) (displayName : Option (Option Output)) :
    List (String × ColKind) :=
  ("id", .IntZero) :: columns.map (·.2) ++ (displayName.map fun _ => ("display_name", .Str)).toList

/-- What the query returns of a record: its columns, and the guard of its name. -/
def outputsOf (columns : List (Expr × String × ColKind)) (displayName : Option (Option Output)) :
    List Output :=
  .expr (.col model.table "id") :: columns.map (fun c => .expr c.1)
    ++ (displayName.map fun source => source.getD .null).toList
    ++ ((r.guardColumn model displayName.isSome).map fun guard => .expr (.col model.table guard)).toList

/-- The query for the columns of the records. -/
def mainQuery (cond : Condition) (columns : List (Expr × String × ColKind))
    (displayName : Option (Option Output)) : Compile Query := do
  let items ← r.ctx.parseTotalOrder calls model model.table (r.order.getD model.order)
  return .records (.ofOrder model.table cond items) (r.outputsOf model columns displayName) r.offset
    r.limit

/-! ## Cells -/

/-- The cells of some columns. -/
def decodeCells : List ColKind → Record → Result (List Json)
  | [], _ => .ok []
  | kind :: kinds, d :: ds => do
    let cell ← decode kind d
    let cells ← decodeCells kinds ds
    return cell :: cells
  | _ :: _, [] => .error (.internal "invalid column index")

/-- The name of a record in place of what it is rendered from. -/
def renderName (displayName : Option (Option Output)) (record : List Json) : List Json :=
  match displayName with
  | none => record
  | some source =>
    let value := if source.isSome then record.getLast? else none
    record.dropLast ++ [displayNameCell model.name ((record.head?.bind Json.asI64).getD 0) value]

/-- **The cells of a record**, without labels and x2many fields. -/
def decodeRow (kinds : List ColKind) (displayName : Option (Option Output)) (values : Record) :
    Result (List Json) := do
  let record ← decodeCells kinds values
  if (r.guardColumn model displayName.isSome).isSome then
    SearchRequest.checkGuard (r.model ++ " renders display_name from a translated placeholder for a "
      ++ "record whose " ++ model.displayNameGuard.getD "guard" ++ " is empty; only en_US reads the "
      ++ "stored column") (values.getD kinds.length none)
  return renderName model displayName record

/-! ## Labels -/

/-- The places of the many2one columns of each comodel, counted from the column of the id. -/
def labelPlaces : List (Expr × String × ColKind) → ℕ → Dict String (List ℕ) → Dict String (List ℕ)
  | [], _, places => places
  | (_, name, kind) :: columns, i, places =>
    labelPlaces columns (i + 1) <|
      match kind with
      | .M2o comodel => if name ∈ r.rawMany2one then places else places.extendAt comodel [i]
      | _ => places

/-- Whether the id of a record without a label is kept. -/
def keepsHidden (columns : List (Expr × String × ColKind)) (i : ℕ) : Bool :=
  (columns[i - 1]?).any fun c => c.2.1 ∈ r.unredactedMany2one && c.2.1 ∉ r.rawMany2one

/-- **A many2one with its label**: false where there is none. -/
def labelCell (names : Dict ℤ Json) (keepHidden : Bool) (cell : Json) : Json :=
  match cell.asI64 with
  | none => cell
  | some id =>
    match names.get? id with
    | some name => .array [.int id, name]
    | none => if keepHidden then .int id else .bool false

/-- The ids in some columns. -/
def idsAt (places : List ℕ) (cells : List (List Json)) : List ℤ :=
  sortDedup (cells.flatMap fun record => places.filterMap fun i => record[i]?.bind Json.asI64)

/-- The labels of the columns of one comodel. -/
def labelComodel (columns : List (Expr × String × ColKind)) (cells : List (List Json))
    (comodel : String) (places : List ℕ) : Reading (List (List Json)) := do
  let names ← r.displayNames calls comodel (idsAt places cells)
  return cells.map fun record => record.mapIdx fun i cell =>
    if i ∈ places then labelCell names (r.keepsHidden columns i) cell else cell

/-- The labels of the columns of some comodels, one after the other. -/
def labelAll (columns : List (Expr × String × ColKind)) :
    List (String × List ℕ) → List (List Json) → Reading (List (List Json))
  | [], cells => pure cells
  | (comodel, places) :: rest, cells => do
    labelAll columns rest (← r.labelComodel calls columns cells comodel places)

/-- **The cells with their labels**, by the names of the comodels. -/
def labelColumns (columns : List (Expr × String × ColKind)) (cells : List (List Json)) :
    Reading (List (List Json)) :=
  r.labelAll calls columns ((r.labelPlaces columns 1 []).mergeSort fun a b => decide (a.1 ≤ b.1)) cells

/-! ## The records of an x2many -/

/-- The records that a field may hold: its domain, the filter on active records, and the rules of the
comodel. -/
def memberCondition (owner comodel : Model) (field : Field) : Compile Condition := do
  let c := r.compiler comodel
  let own ← c.fieldDomainCond (Compiler.compile calls) field comodel owner
  let activeTest ← (if comodel.activeName.isSome then
    do return (← field.contextActiveTest).getD r.x2manyActiveTest else .ok false : Result Bool)
  let cond := match comodel.activeName.filter fun _ => activeTest with
    | some activeName => own.addPredicate (.isIn (.col comodel.table activeName) [.bool true])
    | none => own
  if r.su then return cond
  else
    match r.rules.get comodel.name with
    | none => return cond
    | some node => return cond.add (← c.compileRules (Compiler.compile calls) node)

/-- Whether an id is among those of the records that are read. -/
def amongParents (e : Expr) (parents : List ℤ) : Predicate := inOrAny e "in" (parents.map .int)

/-- The query for the records of an x2many, each with the record that holds it. -/
def membersQuery (owner comodel : Model) (field : Field) (parents : List ℤ) : Compile Query := do
  let cond ← r.memberCondition calls owner comodel field
  let parents ← (parents.mapM Compiler.recordId : Result (List ℤ))
  if field.ttype = .One2many then
    let inverse ← field.o2mInverseColumn owner.name comodel
    let items ← r.ctx.parseTotalOrder calls comodel comodel.table comodel.order
    let parent := Expr.col comodel.table inverse
    return .records
      (.ofOrder comodel.table ((Condition.all.addPredicate (amongParents parent parents)).add cond) items)
      [.expr parent, .expr (.col comodel.table "id")] 0 none
  else
    let (rel, column1, column2) ← field.m2mColumns
    let items ← r.ctx.parseTotalOrder calls comodel comodel.table comodel.order
    let parent := Expr.col rel column1
    return .members
      { rel, column1, column2
        members := .ofOrder comodel.table
          ((Condition.all.addPredicate (amongParents parent parents)).add cond) items }
      [.expr parent, .expr (.col rel column2)]

/-- The rows of a query for records. -/
def asksRecords : Query → Reading (List Record)
  | .records s columns offset limit => Reading.asks (.records s columns offset limit)
  | .members s columns => Reading.asks (.members s columns)
  | _ => Reading.ofResult (.error (.internal "no query for records"))

/-- The records of an x2many, under the ids of those that hold them. -/
def collectMembers : List Record → Result (Dict ℤ (List ℤ))
  | rows => rows.foldlM (fun members row =>
    match row with
    | [some (.int parent), some (.int id)] => .ok (members.extendAt parent [id])
    | [none, some (.int _)] => .ok members
    | _ => .error (.internal "error retrieving column")) []

/-- **The records of an x2many**, under the ids of the records that are read. -/
def x2manyIds (owner : Model) (field : Field) (parents : List ℤ) : Reading (Dict ℤ (List ℤ)) :=
  if parents.isEmpty then pure []
  else do
    let comodel ← r.ctx.registry.get (← (field.comodel : Result String))
    if !comodel.searchPure then
      (refuse (owner.name ++ "." ++ field.name ++ " reads through " ++ comodel.name ++ ", which defines "
        ++ "_search in Python; the relation table is a wider answer") : Result (Dict ℤ (List ℤ)))
    else
      if !r.su then
        ((r.compiler model).checkComodelAccess comodel : Result Unit)
        (r.rules.ensureEvaluated comodel.name : Result Unit)
      let query ← r.membersQuery calls owner comodel field parents
      collectMembers (← asksRecords query)

/-- The records of the x2many fields at the end of each record, one field after the other. -/
def readX2many (parents : List ℤ) : List Field → List (List Json) → Reading (List (List Json))
  | [], cells => pure cells
  | f :: fs, cells => do
    let members ← r.x2manyIds calls model model f parents
    readX2many parents fs (cells.map fun record =>
      record ++ [.ints (members.listAt ((record.head?.bind Json.asI64).getD 0))])

/-! ## Searches -/

/-- The records that are found, with the names of their cells. -/
def readRecords (cond : Condition) : Reading (List String × List (List Json)) := do
  let plan ← r.planFields calls model { selected := [], x2many := [], displayName := none } r.fields
  let columns ← r.selectColumns calls model plan.selected
  let rows ← asksRecords (← r.mainQuery calls model cond columns plan.displayName)
  let kinds := kindsOf columns plan.displayName
  let cells ← (rows.mapM (r.decodeRow model (kinds.map (·.2)) plan.displayName) :
    Result (List (List Json)))
  let labelled ← r.labelColumns calls columns cells
  let parents := labelled.filterMap fun record => record.head?.bind Json.asI64
  let complete ← r.readX2many calls model parents plan.x2many labelled
  return (kinds.map (·.1) ++ plan.x2many.map (·.name), complete)

/-- **A search that reads records**, where the hierarchies that its domain names have these
answers. -/
def searchRead (answers : ∀ q : Question, q.Answer) (printNumber : Number → List Char) :
    Reading (List Char) := do
  let model ← r.ctx.registry.get r.model
  let (cond, _) ← ((r.buildCondition calls model).run answers : Result (Condition × List Event))
  let (names, cells) ← r.readRecords calls model cond
  recordsToJson printNumber names cells

/-- **A search that counts its records**, up to a limit. -/
def searchCount (answers : ∀ q : Question, q.Answer) (limit : Option ℕ) : Reading ℕ := do
  let model ← r.ctx.registry.get r.model
  let (cond, _) ← ((r.buildCondition calls model).run answers : Result (Condition × List Event))
  Reading.asks (.count (.ofOrder model.table cond []) limit)

end ReadRequest

end OdooKernel
