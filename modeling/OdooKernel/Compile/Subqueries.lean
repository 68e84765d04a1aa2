import OdooKernel.Compile.Rewrite

/-!
# The subqueries of relational fields

A subquery over a comodel carries the comodel's record rules, unless the operator or the field makes
it bypass them; a principal who may not read the comodel is refused.  The functions that call the
compiler again take it as the parameter `again`.

**What decides the records of a field** beside a sub-domain: the field's own domain, the filter on
active records, and the rules.  A many2one is searched from the side of its column, an x2many from
the side of the records that it holds, whose owners are the result (`ownersSelect`).

**Rules are compiled without a principal** (`Compiler.atRules`): they say themselves whom they are
for, and the subqueries in them carry no rules again.

* `Compiler.comodelRules` — the rules that a subquery applies, or the refusal to build it.
* `Compiler.fieldDomainCond`, `Compiler.activeFilter` — what else decides the records of a field.
* `Compiler.m2oAny`, `Compiler.x2manySubselect` — the subqueries.
* `Compiler.x2manyCondition` — the condition of a leaf on an x2many field.
-/

namespace OdooKernel

namespace Compiler

variable (c : Compiler)

/-! ## The rules of a subquery -/

/-- Whether the principal, if there is one, may read a comodel. -/
def checkComodelAccess (co : Model) : Result Unit :=
  match c.ctx.access with
  | some access => checkReadAccess c.ctx.security co.name access.uid access.groups access.scopes
  | none => .ok ()

/-- The rules that a subquery over a comodel applies. -/
def comodelRules (co : Model) (bypassAccess : Option Bool) : Result (Option Node) :=
  if !co.searchPure then
    refuse ("the subquery traverses " ++ co.name ++ ", which defines `_search` in Python")
  else if c.su ∨ bypassAccess = some true then .ok none
  else if co.name ∈ c.stack then
    refuse ("record rules on " ++ co.name ++ " recurse through " ++ c.model.name
      ++ "; refusing to compile the subquery without them")
  else do
    c.checkComodelAccess co
    c.rules.ensureEvaluated co.name
    let rules := c.rules.get co.name
    if bypassAccess.isNone ∧ rules.isSome then
      refuse ("whether " ++ c.model.name ++ " bypasses " ++ co.name ++ "'s record rules is not "
        ++ "recorded in `ir_model_fields`, and applying them when Odoo would not answers with fewer "
        ++ "rows; build the registry from a live-registry export")
    else return rules

/-- Record the rules that a subquery carries, unless it bypasses them. -/
def noteRules (co : Model) (bypassAccess : Option Bool) (rules : Option Node) : Compile Unit :=
  if c.su ∨ bypassAccess = some true then pure () else Compile.emit (.subquery co.name rules)

/-- Record the columns that a model's rules read. -/
def touchAll : List (String × String) → Compile Unit
  | [] => pure ()
  | (model, field) :: reads => do
    Compile.touch model field
    touchAll reads

/-- A subquery may only count active records. -/
def activeFilter (field : Field) (co : Model) (subNode : Option Node) : Compile Condition :=
  match co.activeName with
  | none => pure .all
  | some activeName => do
    if !((← field.contextActiveTest).getD c.ctx.activeTest) then return .all
    else
      let inNode := (subNode.map referencedFields).getD []
      let inDomain ← (match field.domain with
        | some dom => referencedFields <$> parse dom
        | none => .ok [] : Result (List String))
      if activeName ∈ inNode ++ inDomain then return .all
      else
        Compile.touch co.name activeName
        return Condition.all.addPredicate (.isIn (.col c.aliasName activeName) [.bool true])

section Again

variable (again : Compiler → Node → Compile Condition)

/-- The same place, for the rules of the model. -/
def atRules : Compiler := { c.asSudo with origin := .rules }

/-- Compile the rules of a model. -/
def compileRules (node : Node) : Compile Condition := do
  touchAll (c.rules.readsOf c.model.name)
  again c.atRules node

/-- The domain of a field, if it has one. -/
def ownDomainCond (field : Field) : Compile Condition :=
  match field.domain with
  | none => pure .all
  | some dom => do
    let node ← parse dom
    return Condition.all.add (← again { c with origin := .fieldDomain } node)

/-- The records of a comodel that a field may hold. -/
def fieldDomainCond (field : Field) (co owner : Model) : Compile Condition :=
  if c.ctx.registry.source = .bootstrap then
    liftM (refuse ("x2many " ++ owner.name ++ "." ++ field.name ++ " cannot be read from an ir_model "
      ++ "bootstrap registry: field-level domains are not recorded there. Build the registry from a "
      ++ "live-registry export.") : Result Condition)
  else if field.domainCallable then
    liftM (refuse (owner.name ++ "." ++ field.name ++ " carries a domain computed in Python; which "
      ++ co.name ++ " rows count as its members is decided per record, and the relation table is a "
      ++ "wider answer") : Result Condition)
  else do
    let own ← c.ownDomainCond again field
    if field.ttype = .One2many then
      let inverse ← field.o2mInverse
      match co.fields.get? inverse with
      | some inv =>
        if inv.ttype = .Many2oneReference then
          let modelField ← (orRefuse (co.name ++ "." ++ inverse ++ " is a many2one_reference with "
            ++ "no model_field; a one2many over it would read other models' rows")
            inv.modelField : Result String)
          Compile.touch co.name modelField
          return own.addPredicate
            (.compare .eq (.col c.aliasName modelField) (.val (.text owner.name)))
        else return own
      | none => return own
    else return own

/-- The alias of a subquery. -/
def subAlias (co : Model) : String := "s" ++ toString c.depth ++ "_" ++ co.table

/-- The condition of a subquery with the rules of its comodel, if it has to carry them. -/
def restricted (co : Model) (bypassAccess : Option Bool) (sub : Compiler) (cond : Condition) :
    Compile Condition := do
  match ← c.comodelRules co bypassAccess with
  | some node =>
    let rules ← sub.compileRules again node
    c.noteRules co bypassAccess (some node)
    return cond.add rules
  | none =>
    c.noteRules co bypassAccess none
    return cond

/-- **The records whose many2one leads to a record of a domain**, or to none. -/
def m2oAny (field : Field) (subNode : Node) (positive : Bool) (bypassAccess : Option Bool) :
    Compile Predicate := do
  let co ← c.ctx.registry.get (← field.comodel)
  let sub := c.subCompiler co (c.subAlias co)
  let found ← again sub subNode
  let cond ← c.restricted again co bypassAccess sub (Condition.all.add found)
  let select := Select.from (.col sub.aliasName "id") co.table sub.aliasName [cond.toPredicate]
  let sqlField ← c.ctx.fieldExpr c.model field c.aliasName
  if positive then return .inSelect sqlField select
  else if !field.notNull then return .or (.isNull sqlField) (.notInSelect sqlField select)
  else return .notInSelect sqlField select

/-- The subquery of the owners of some records of an x2many field. -/
def ownersSelect (field : Field) (co : Model) (sub : Compiler) (cond : Condition) :
    Compile Select :=
  match field.ttype with
  | .One2many => do
    let inverse ← field.o2mInverseColumn c.model.name co
    Compile.touch co.name inverse
    return .from (.col sub.aliasName inverse) co.table sub.aliasName
      [.isNotNull (.col sub.aliasName inverse), cond.toPredicate]
  | _ => do
    let (rel, column1, column2) ← field.m2mColumns
    Compile.touch c.model.name field.name
    return .joined (.col rel column1) rel co.table sub.aliasName
      (.compare .eq (.col rel column2) (.col sub.aliasName "id")) [cond.toPredicate]

/-- A condition with a sub-domain, if there is one, and with the filter on active records. -/
def addSubNode (field : Field) (co : Model) (applyActive : Bool) (cond : Condition) :
    Option Node → Compile Condition
  | none => pure cond
  | some node => do
    let cond := cond.add (← again c node)
    if applyActive then return cond.add (← c.activeFilter field co (some node)) else return cond

/-- The condition on the records of an x2many field: its own domain, a sub-domain, and the rules. -/
def x2manyCond (field : Field) (co : Model) (sub : Compiler) (subNode : Option Node)
    (applyActive : Bool) (bypassAccess : Option Bool) : Compile Condition := do
  let own ← sub.fieldDomainCond again field co c.model
  let cond ← sub.addSubNode again field co applyActive (Condition.all.add own) subNode
  sub.restricted again co bypassAccess sub cond

/-- **The records whose x2many holds a record of a domain**, or holds none. -/
def x2manySubselect (field : Field) (subNode : Option Node) (positive applyActive asSudo : Bool)
    (bypassAccess : Option Bool) : Compile Predicate := do
  let co ← c.ctx.registry.get (← field.comodel)
  let sub := c.subCompiler co (c.subAlias co)
  let sub := if asSudo then sub.asSudo else sub
  let cond ← c.x2manyCond again field co sub subNode applyActive bypassAccess
  let select ← c.ownersSelect field co sub cond
  let id := Expr.col c.aliasName "id"
  return if positive then .inSelect id select else .not (.inSelect id select)

/-- The ids among some values, and whether no value is among them. -/
def splitIds (model field op : String) : List Json → Result (List ℤ × Bool)
  | [] => .ok ([], false)
  | v :: vs => do
    if isNullLike v then
      let (ids, _) ← splitIds model field op vs
      return (ids, true)
    else
      match v.asI64 with
      | some id =>
        let (ids, empty) ← splitIds model field op vs
        return (id :: ids, empty)
      | none => refuse ("unsupported value for " ++ model ++ "." ++ field ++ " " ++ op)

/-- The records whose x2many holds one of some ids, if there are any. -/
def holdsOneOf (field : Field) (ids : List ℤ) : Compile (Option Predicate) :=
  if ids.isEmpty then pure none
  else some <$> c.x2manySubselect again field (some (leafNode "id" "in" (Json.ints ids))) true false
    true field.bypassSearchAccess

/-- The records whose x2many is empty, if they are asked for. -/
def holdsNone (field : Field) (matchEmpty : Bool) : Compile (Option Predicate) :=
  if matchEmpty then
    some <$> c.x2manySubselect again field none false false true field.bypassSearchAccess
  else pure none

/-- The records whose x2many holds one of some ids, or is empty. -/
def x2manyMembers (field : Field) (op : String) (value : Json) : Compile Predicate := do
  let (ids, matchEmpty) ← splitIds c.model.name field.name op (comparands value)
  let matching ← c.holdsOneOf again field ids
  let empty ← c.holdsNone again field matchEmpty
  return match matching, empty with
    | some m, some e => .or e m
    | some m, none => m
    | none, some e => e
    | none, none => .const false

/-- Whether an operator is one of the family of `any`. -/
def isAny (op : String) : Bool := op ∈ ["any", "not any", "any!", "not any!"]

/-- Whether a subquery bypasses the rules: the operator says so, or else the field. -/
def bypassOf (field : Field) (op : String) : Option Bool :=
  if endsWith "!" op then some true else field.bypassSearchAccess

/-- Record that an operator makes a subquery bypass the rules. -/
def noteBypass (leaf : Leaf) : Compile Unit :=
  if endsWith "!" leaf.op then Compile.emit (.bypass c.origin c.model.name leaf) else pure ()

/-- The condition of a leaf on an x2many field. -/
def x2manyCondition (field : Field) (leaf : Leaf) : Compile Predicate :=
  if isAny leaf.op then do
    let sub ← parse leaf.value
    c.noteBypass leaf
    c.x2manySubselect again field (some sub) (!startsWith "not" leaf.op) true false
      (bypassOf field leaf.op)
  else if leaf.op = "in" ∨ leaf.op = "=" then c.x2manyMembers again field leaf.op leaf.value
  else if leaf.op = "not in" ∨ leaf.op = "!=" then
    Predicate.not <$> c.x2manyMembers again field leaf.op leaf.value
  else liftM (refuse ("unsupported x2many operator " ++ leaf.op) : Result Predicate)

end Again

end Compiler

end OdooKernel
