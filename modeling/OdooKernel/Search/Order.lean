import OdooKernel.Compile.Compiler

/-!
# The order of a search

An order is a list of terms.  A term on a field of the model orders by its column; one on a many2one
by the order of its comodel, which is joined for it; one on a field with a stand-in by the stand-in;
and one on a field that the principal may not read not at all.

**Places.**  An order that goes through a many2one stands at another model, under another alias, and
perhaps the other way round (`OrderPlace`); it knows the fields on the way, because a many2one that
was met before orders by nothing.  The functions that need the order of the comodel take it as a
parameter.

**Aliases.**  What is joined is named by the path that leads to it, cut and hashed where it is too
long for the server (`orderAlias`).  `Search/Paths` says when two paths have one name.

* `OrderExpr`, `OrderItem` — what a statement is ordered by, and through which joins.
* `parseOrderTerm` — a term, its direction, and the place of NULL.
* `ExprCtx.readExpr` — the expression that a field is read with, a related one through its steps.
* `ExprCtx.orderTerms`, `ExprCtx.parseTotalOrder` — the order of a model, and the order that ends in
  the id unless it names it.
-/

namespace OdooKernel

/-! ## What a statement is ordered by -/

/-- Where NULL stands. -/
inductive NullOrdering where
  | First
  | Last
deriving DecidableEq, Repr

/-- The other place. -/
def NullOrdering.flip : NullOrdering → NullOrdering
  | .First => .Last
  | .Last => .First

/-- What a statement is ordered by: a value, a boolean whose NULL counts as false, whether a value is
there, or a subquery that Python resolved over the model's own rows. -/
inductive OrderExpr where
  | value (e : Expr)
  | orFalse (e : Expr)
  | isNull (e : Expr)
  | isNotNull (e : Expr)
  | fragment (query : Json) (aliasName : String)

/-- A left join of a table, on its id and an expression over what is joined before. -/
structure OrderJoin where
  table : String
  aliasName : String
  source : Expr

/-- A term of an order as it is written in a statement. -/
structure OrderItem where
  expr : OrderExpr
  desc : Bool
  nulls : Option NullOrdering
  joins : List OrderJoin

/-! ## Terms -/

/-- The words of a text. -/
def splitWhitespace (text : String) : List String :=
  ((text.toList.splitOnP isWhitespace).filter (· ≠ [])).map String.ofList

/-- The terms of an order. -/
def orderParts (order : String) : List String := (order.toList.splitOn ',').map String.ofList

/-- A term of an order. -/
structure OrderTerm where
  field : String
  desc : Bool
  nulls : Option NullOrdering
deriving DecidableEq, Repr

/-- The direction of a term, and the words after it. -/
def orderDirection : List String → Bool × List String
  | "desc" :: rest => (true, rest)
  | "asc" :: rest => (false, rest)
  | rest => (false, rest)

/-- A term as it is written: nothing where there is no word. -/
def parseOrderTerm (part : String) : Result (Option OrderTerm) :=
  match splitWhitespace part with
  | [] => .ok none
  | field :: words =>
    let (desc, rest) := orderDirection (words.map fun w => String.ofList (asciiLower w.toList))
    match rest with
    | [] => .ok (some { field, desc, nulls := none })
    | ["nulls", "first"] => .ok (some { field, desc, nulls := some .First })
    | ["nulls", "last"] => .ok (some { field, desc, nulls := some .Last })
    | _ => refuse ("cannot parse order term " ++ part)

/-- Whether some term of an order is on the id. -/
def namesId (order : String) : Bool :=
  (orderParts order).any fun part => (splitWhitespace part).head? = some "id"

namespace ExprCtx

variable (ctx : ExprCtx)

/-! ## Related fields -/

/-- A related field is read without access checks only where Odoo does so. -/
def relatedAllowed (model : Model) (f : Field) : Result Unit :=
  if ctx.access.isNone || f.computeSudo || f.inherited then .ok ()
  else refuse ("related " ++ model.name ++ "." ++ f.name ++ " is neither sudoed nor inherited: Odoo "
    ++ "computes it in Python under the caller's access, and a subquery here would read "
    ++ f.related.getD "its comodel" ++ " without ACL or rules")

/-- The field at the end of a path, each step of which is a subquery. -/
def relatedExprAs (read : Model → Field → String → Compile Expr) (start : String) :
    String → Model → List String → ℕ → Compile Expr
  | _, _, [], _ => liftM (.error (.internal "index out of bounds: the len is 0 but the index is 0") :
      Result Expr)
  | aliasName, model, [name], _ => do
    let field ← (orRefuse ("unknown field " ++ model.name ++ "." ++ name) (model.fields.get? name) :
      Result Field)
    read model field aliasName
  | aliasName, model, name :: rest, depth => do
    let field ← (orRefuse ("unknown field " ++ model.name ++ "." ++ name) (model.fields.get? name) :
      Result Field)
    if field.ttype ≠ .Many2one ∨ !field.hasColumn then
      (refuse ("related path hop " ++ model.name ++ "." ++ field.name ++ " is not a stored many2one") :
        Result Expr)
    else
      let co ← ctx.registry.get (← field.comodel)
      let subAlias := start ++ toString depth ++ "_" ++ co.table
      let inner ← relatedExprAs read start subAlias co rest (depth + 1)
      Compile.touch model.name field.name
      return .select (.from inner co.table subAlias
        [.compare .eq (.col subAlias "id") (.col aliasName field.name)])

/-- **The expression that a field is read with**, up to so many related fields through related
fields. -/
def readExpr : ℕ → Model → Field → String → Compile Expr
  | 0, _, _, _ => liftM (outOfCalls : Result Expr)
  | fuel + 1, model, f, aliasName =>
    if !f.hasColumn then
      if f.related.isSome then do
        ctx.relatedAllowed model f
        let path ← ctx.normalizePath model [f.name]
        ctx.relatedExprAs (readExpr fuel) "r" aliasName model path 0
      else liftM (refuse ("field " ++ model.name ++ "." ++ f.name ++ " is not readable") : Result Expr)
    else do
      let e ← ctx.fieldExpr model f aliasName
      return if f.pgType = "numeric" then .castAs e "float8" else e

/-! ## The order of a model -/

/-- What a column is ordered by. -/
def orderExpr (model : Model) (f : Field) (aliasName : String) : Compile OrderExpr := do
  let e ← ctx.fieldExpr model f aliasName
  return if f.ttype = .Boolean ∧ !f.notNull then .orFalse e else .value e

/-- The alias of a comodel that is joined, short enough for the server. -/
def orderAlias (aliasName fname : String) : String :=
  let full := aliasName ++ "__" ++ fname
  if full.utf8ByteSize ≤ 56 then full
  else "o" ++ ctx.aliasHash aliasName ++ "__" ++ String.ofList (fname.toList.take 40)

/-- A part of an order where a term stands: the model, its alias, whether the order is reversed, the
many2one fields that lead there, and the joins. -/
structure OrderPlace where
  model : Model
  aliasName : String
  reverse : Bool
  seen : List (String × String)
  joins : List OrderJoin

/-- The place of a comodel's own order. -/
def OrderPlace.through (place : OrderPlace) (field : String) (co : Model) (aliasName : String)
    (fk : Expr) (desc : Bool) : OrderPlace where
  model := co
  aliasName := aliasName
  reverse := desc
  seen := place.seen ++ [(place.model.name, field)]
  joins := place.joins ++ [{ table := co.table, aliasName, source := fk }]

section Again

variable (again : OrderPlace → String → Compile (List OrderItem)) (place : OrderPlace)

/-- Whether the principal, if there is one, may order by a field. -/
def mayOrderBy (field : Field) : Result Bool :=
  match ctx.access with
  | none => .ok true
  | some access => ctx.registry.fieldReadable field access.groups access.scopes.containsKey

/-- A place among the subqueries of the request. -/
def readIndex (cs : List Char) : Option ℕ :=
  let digits := if cs.head? = some '+' then cs.tail else cs
  if digits.isEmpty ∨ !digits.all Char.isDigit ∨ digitsValue digits ≥ 2 ^ 64 then none
  else some (digitsValue digits)

/-- A term that Python resolved to a subquery of the request. -/
def fragmentItem (term : OrderTerm) (index : List Char) (desc : Bool) (nulls : Option NullOrdering) :
    Compile (List OrderItem) :=
  if place.aliasName ≠ place.model.table ∨ !place.joins.isEmpty then
    liftM (refuse ("an order term Python resolved to SQL names " ++ place.model.name ++ "'s own table; "
      ++ "it cannot order a traversal") : Result (List OrderItem))
  else do
    let fragment ← (orRefuse ("order term " ++ term.field ++ " names no fragment of this request")
      ((readIndex index).bind (ctx.orderFragments[·]?)) : Result Json)
    match fragment with
    | .object _ =>
      let _select ← fragmentSelect ctx fragment
      return [{ expr := .fragment fragment place.aliasName, desc, nulls, joins := [] }]
    | _ => (refuse "a SQL comparand must be an object" : Result (List OrderItem))

/-- A stand-in as a term, with the direction and the place of NULL of the term that it stands in
for. -/
def standInTerm (term : OrderTerm) (standIn : String) : String :=
  standIn ++ (if term.desc then " desc" else "") ++
    match term.nulls with
    | some .First => " nulls first"
    | some .Last => " nulls last"
    | none => ""

/-- A term on a related field without a column of its own. -/
def relatedItem (calls : ℕ) (field : Field) (fname : String) (desc : Bool)
    (nulls : Option NullOrdering) : Compile (List OrderItem) :=
  if field.related.isNone then
    liftM (refuse ("cannot order " ++ place.model.name ++ " by non-stored " ++ fname) :
      Result (List OrderItem))
  else do
    ctx.relatedAllowed place.model field
    let path ← ctx.normalizePath place.model [field.name]
    let e ← ctx.relatedExprAs (ctx.readExpr calls) "ord" place.aliasName place.model path 0
    return [{ expr := .value e, desc, nulls, joins := place.joins }]

/-- A term that says where NULL stands puts the rows without a record on that side first. -/
def unsetItem (fk : Expr) (nulls : Option NullOrdering) : List OrderItem :=
  match nulls with
  | none => []
  | some n =>
    [{ expr := if n = .First then .isNotNull fk else .isNull fk, desc := false, nulls := none
       joins := place.joins }]

/-- A term on a stored many2one: its comodel's own order, unless that is the id. -/
def many2oneItems (field : Field) (fname : String) (desc : Bool) (nulls : Option NullOrdering) :
    Compile (List OrderItem) :=
  if (place.model.name, fname) ∈ place.seen then pure []
  else do
    let co ← ctx.registry.get (← field.comodel)
    -- what a many2one is ordered by is its column, which is no boolean
    let fk ← ctx.fieldExpr place.model field place.aliasName
    if trimmed co.order.toList = "id".toList then
      return [{ expr := .value fk, desc, nulls, joins := place.joins }]
    else
      let next := place.through fname co (ctx.orderAlias place.aliasName fname) fk desc
      let items ← again next co.order
      return unsetItem place fk nulls ++ items

/-- A term on a field that may be read. -/
def fieldItems (calls : ℕ) (term : OrderTerm) (field : Field) (desc : Bool)
    (nulls : Option NullOrdering) : Compile (List OrderItem) :=
  match field.orderByField with
  | some standIn => again place (standInTerm term standIn)
  | none =>
    if !field.hasColumn then ctx.relatedItem place calls field term.field desc nulls
    else if field.ttype ≠ .Many2one then do
      let e ← ctx.orderExpr place.model field place.aliasName
      return [{ expr := e, desc, nulls, joins := place.joins }]
    else ctx.many2oneItems again place field term.field desc nulls

/-- **What a term is ordered by.** -/
def termItems (calls : ℕ) (term : OrderTerm) : Compile (List OrderItem) :=
  let desc := term.desc ^^ place.reverse
  let nulls := if place.reverse then term.nulls.map NullOrdering.flip else term.nulls
  match term.field.toList with
  | '$' :: index => ctx.fragmentItem place term index desc nulls
  | _ => do
    let field ← (orRefuse ("unknown order field " ++ place.model.name ++ "." ++ term.field)
      (place.model.fields.get? term.field) : Result Field)
    -- a term that the principal may not read orders by nothing
    if !(← ctx.mayOrderBy field) then return []
    else ctx.fieldItems again place calls term field desc nulls

/-- What a part of an order is ordered by, if it holds a term. -/
def partItems (calls : ℕ) (part : String) : Compile (List OrderItem) := do
  match ← parseOrderTerm part with
  | none => return []
  | some term => ctx.termItems again place calls term

/-- What some parts of an order are ordered by, one after the other. -/
def allItems (calls : ℕ) : List String → Compile (List OrderItem)
  | [] => pure []
  | part :: parts => do
    let items ← ctx.partItems again place calls part
    let rest ← allItems calls parts
    return items ++ rest

end Again

/-- **What an order is ordered by**, up to so many nested calls. -/
def orderTerms : ℕ → OrderPlace → String → Compile (List OrderItem)
  | 0, _, _ => liftM (outOfCalls : Result (List OrderItem))
  | calls + 1, place, order =>
    if !place.model.orderPure then
      liftM (refuse (place.model.name ++ " orders its rows in Python (_order_to_sql / "
        ++ "_order_field_to_sql); the kernel cannot reproduce that from `_order`") :
        Result (List OrderItem))
    else ctx.allItems (orderTerms calls) place calls (orderParts order)

/-- Where the order of a search stands. -/
def OrderPlace.root (model : Model) (aliasName : String) : OrderPlace where
  model := model
  aliasName := aliasName
  reverse := false
  seen := []
  joins := []

def parseOrder (calls : ℕ) (model : Model) (aliasName order : String) : Compile (List OrderItem) :=
  ctx.orderTerms calls (OrderPlace.root model aliasName) order

/-- The term that ends an order. -/
def idItem (aliasName : String) : OrderItem where
  expr := .value (.col aliasName "id")
  desc := false
  nulls := none
  joins := []

/-- **An order that ends in the id**, unless it names it. -/
def parseTotalOrder (calls : ℕ) (model : Model) (aliasName order : String) :
    Compile (List OrderItem) := do
  let items ← ctx.parseOrder calls model aliasName order
  return if namesId order then items else items ++ [idItem aliasName]

end ExprCtx

end OdooKernel
