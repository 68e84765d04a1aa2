import OdooKernel.Compile.Columns
import OdooKernel.Compile.Negation
import OdooKernel.Compile.Subqueries

/-!
# The compiler of domains

A domain is compiled to a condition on the rows of a model.  A negation is pushed down to the leaves,
a relational leaf becomes a subquery over the comodel, and a subquery carries the record rules of its
comodel.

**One function per kind of leaf.**  A leaf is first rewritten (`Compile/Rewrite`), and what is left
of it is a leaf on a path, on a related field, on a display name, on the followers, on a relational
field or on a column; each has a function of its own here or in the modules before.  The functions
that call the compiler again take it as the parameter `again`, so that a statement about one of them
is a statement about what it makes of any compiler.  `Compiler.compile` ties the knot, up to some
number of nested calls; `Compile/Fuel` says that more of them change nothing.

**Refusals.**  What the kernel does not compile is refused with a reason, and Python serves the
request.  A refusal anywhere refuses the whole domain.

* `relatedDomain` — a related field, searched through its steps.
* `displayNameNode` — a display name, searched in the fields that it is made of.
* `Compiler.fragmentCondition` — a comparand that Python resolved to a subquery.
* `Compiler.compileLeaf`, `Compiler.compileNode`, `Compiler.compile` — the compiler.
-/

namespace OdooKernel

/-! ## Related fields -/

/-- The condition that is asked of the end of a chain of steps. -/
def chained (anyOp notAnyOp : String) (canBeNull : Bool) (asked : Json) :
    List (String × Field) → List Json
  | [] => [asked]
  | (step, hop) :: hops =>
    let reached := term step anyOp (.array (chained anyOp notAnyOp canBeNull asked hops))
    if hop.ttype.isX2many && canBeNull then
      [.string "|", reached, term step notAnyOp (.array [])]
    else if hop.ttype = .Many2one ∧ canBeNull ∧ !hop.required then
      [.string "|", reached, term step "=" (.bool false)]
    else [reached]

/-- **A related field, searched through its steps**: a step that reaches no record is let through
where the condition holds of no value. -/
def relatedDomain (f : Field) (rel op : String) (value : Json) (canBeNull : Bool)
    (hops : List Field) : Result Node :=
  let steps := splitDots rel
  let (anyOp, notAnyOp) := if f.computeSudo then ("any!", "not any!") else ("any", "not any")
  parse (.array (chained anyOp notAnyOp canBeNull (term (steps.getLastD "") op value)
    (steps.dropLast.zip hops)))

/-! ## Display names -/

/-- A value that a display name reads as none. -/
def unsetName : Json → Bool
  | .null => true
  | .bool b => !b
  | .string s => s = ""
  | _ => false

/-- The junction of some conditions, the conjunction for a negative operator. -/
def aggregate (negative : Bool) : List Node → Node
  | [n] => n
  | ns => if negative then .And ns else .Or ns

/-- A field that a name is made of is another record, whose own name counts. -/
def relationalName (co : Model) (name : String) : Bool :=
  (co.fields.get? name).any (·.relation.isSome)

/-- A condition on each field that a name is made of. -/
def nameMatching (co : Model) (names : List String) (negative : Bool) (op : String) (value : Json) :
    Node :=
  aggregate negative (names.map fun name =>
    leafNode (if relationalName co name then name ++ ".display_name" else name) op value)

/-- No field that a name is made of has a value. -/
def namesUnset (co : Model) (names : List String) : Node :=
  .And (names.map fun name =>
    if relationalName co name then
      .Or [leafNode name "=" (.bool false), leafNode (name ++ ".display_name") "=" (.bool false)]
    else leafNode name "=" (.bool false))

/-- An equality on a display name. -/
def nameEquality (co : Model) (names : List String) (negative : Bool) (op : String) (value : Json) :
    Node :=
  let values := Compiler.comparands value
  let present := values.filter (!unsetName ·)
  if present.length = values.length then nameMatching co names negative op value
  else
    let unset := if negative then Node.Not (namesUnset co names) else namesUnset co names
    let parts := if present.isEmpty then []
      else [nameMatching co names negative op (.array present)]
    aggregate negative (parts ++ [unset])

/-- An operator that a display name is equal by. -/
def isEquality (op : String) : Bool := op ∈ ["=", "!=", "in", "not in"]

/-- **A display name, searched in the fields that it is made of.** -/
def displayNameNode (co : Model) (op : String) (value : Json) : Result Node :=
  match co.nameSearchFields with
  | none => refuse (co.name ++ " defines its display name in Python (_search_display_name, "
      ++ "_rec_names_search or a relational _rec_name); the columns cannot express a search on it")
  | some names =>
    let negative := op ∈ ["!=", "not in"] || startsWith "not " op
    if names.contains "display_name" then
      refuse (co.name ++ " searches display_name to answer display_name; Odoo breaks that loop in "
        ++ "Python and this kernel refuses it")
    else if endsWith "like" op && unsetName value && !containsText "=" op then
      .ok (if negative then .False else .True)
    else if !co.displayNameSearchExact.isEmpty && (op = "in" || op = "ilike") && !unsetName value then
      refuse (co.name ++ " lets an exact match on " ++ ", ".intercalate co.displayNameSearchExact
        ++ " take precedence over its display name; the shim resolves that before the kernel and "
        ++ "this leaf was not resolved")
    else
      let names := if isOrdering op then names.take 1 else names
      if isEquality op then .ok (nameEquality co names negative op value)
      else .ok (nameMatching co names negative op value)

/-! ## Comparands that Python resolved -/

/-- A comparand that is a subquery. -/
def isFragment : Json → Bool
  | .object fields => fields.any (·.1 = "$sql")
  | _ => false

mutual
/-- The type that a parameter of a subquery is bound with. -/
def paramCast : Json → Result String
  | .bool _ => .ok "bool"
  | .number (.int n) =>
    if (Number.int n).asI64.isSome then .ok "int8"
    else refuse "a SQL comparand's integer is outside int8 range"
  | .number (.float _) => .ok "float8"
  | .string _ => .ok "text"
  | .array items => do
    let kinds ← paramCasts items
    match kinds.head? with
    | some kind =>
      if kind ≠ "int8" ∧ kind ≠ "text" then
        refuse "a SQL comparand's array parameter is not a list of integers or strings"
      else if kinds.any (· ≠ kind) then
        refuse "a SQL comparand's array parameter mixes element types"
      else return kind ++ "[]"
    | none => refuse "a SQL comparand's array parameter is not a list of integers or strings"
  | .null | .object _ => refuse "a SQL comparand's parameter has no typed wire form"

/-- The types that some parameters are bound with. -/
def paramCasts : List Json → Result (List String)
  | [] => .ok []
  | v :: vs => do
    let kind ← paramCast v
    let kinds ← paramCasts vs
    return kind :: kinds
end

/-- **A subquery that Python resolved**, if it carries the nonce of the request. -/
def fragmentSelect (ctx : ExprCtx) (value : Json) : Result Select := do
  let expected ← orRefuse "a SQL comparand reached a request that carries no nonce for it"
    ctx.sqlNonce
  if (value.at? "$nonce").bind Json.asStr ≠ some expected then
    refuse "a SQL comparand does not carry this request's nonce"
  else
    let code ← orRefuse "a SQL comparand's code must be a string"
      ((value.at? "$sql").bind Json.asStr)
    let params ← (match value.at? "$params" with
      | some (.array items) => .ok items
      | none => .ok []
      | some _ => refuse "a SQL comparand's params must be a list" : Result (List Json))
    let casts ← paramCasts params
    let _sql ← ctx.rewriteFragment code casts
    return .fragment value

namespace Compiler

variable (c : Compiler)

section Again

variable (again : Compiler → Node → Compile Condition)

/-- A comparand that Python resolved is compiled for `any` and `in` only. -/
def fragmentSign (leaf : Leaf) : Result Bool :=
  if leaf.op ∈ ["any", "any!", "in"] then .ok true
  else if leaf.op ∈ ["not any", "not any!", "not in"] then .ok false
  else refuse (c.model.name ++ "." ++ leaf.field ++ " " ++ leaf.op
    ++ ": a SQL comparand is compiled for any and in only")

/-- The membership in a subquery, or its complement. -/
def membership (positive notNull : Bool) (e : Expr) (select : Select) : Predicate :=
  if positive then .inSelect e select
  else if notNull then .notInSelect e select
  else .or (.isNull e) (.notInSelect e select)

/-- **The condition of a leaf whose comparand Python resolved.** -/
def fragmentCondition (leaf : Leaf) : Compile Predicate := do
  let positive ← c.fragmentSign leaf
  let path := splitDots leaf.field
  let isMember := leaf.op = "in" || leaf.op = "not in"
  match path with
  | [name] =>
    c.ctx.checkPathReadable c.model path
    let field ← (orRefuse ("unknown field " ++ c.model.name ++ "." ++ name)
      (c.model.fields.get? name) : Result Field)
    let select ← fragmentSelect c.ctx leaf.value
    if field.ttype.isX2many && !field.hasColumn then
      if isMember then
        (refuse (c.model.name ++ "." ++ name ++ " " ++ leaf.op
          ++ ": an x2many compares a SQL comparand through any only") : Result Predicate)
      else
        c.x2manySubselect again field (some (leafNode "id" "any" leaf.value)) positive true true
          field.bypassSearchAccess
    else if field.ttype = .Many2one ∧ field.hasColumn ∧ !field.companyDependent then
      if isMember then
        (refuse (c.model.name ++ "." ++ name ++ " " ++ leaf.op
          ++ ": a many2one compares a SQL comparand through any only") : Result Predicate)
      else
        return membership positive field.notNull (← c.ctx.fieldExpr c.model field c.aliasName) select
    else if field.ttype = .Integer ∧ field.name = "id" then
      return membership positive true (← c.ctx.fieldExpr c.model field c.aliasName) select
    else
      (refuse (c.model.name ++ "." ++ name
        ++ ": a SQL comparand is compiled against id, a stored many2one or an x2many") :
        Result Predicate)
  | _ =>
    (refuse (c.model.name ++ "." ++ leaf.field
      ++ ": a SQL comparand on a dotted path is left to Python") : Result Predicate)

/-! ## The conditions of relational leaves -/

/-- The condition on the end of a path through relational fields. -/
def dotted (path : List String) (op : String) (value : Json) : Compile Predicate := do
  let head ← (orRefuse ("unknown field " ++ c.model.name ++ "." ++ path.headD "")
    (c.model.fields.get? (path.headD "")) : Result Field)
  let sub := leafNode (joinDots path.tail) op value
  match head.ttype with
  | .Many2one => c.m2oAny again head sub true head.bypassSearchAccess
  | .One2many | .Many2many =>
    c.x2manySubselect again head (some sub) true true false head.bypassSearchAccess
  | _ => (refuse ("cannot traverse non-relational " ++ c.model.name ++ "." ++ path.headD "") :
      Result Predicate)

/-- The origin of the steps of a related field. -/
def stepsOrigin (f : Field) (hops : List Field) : Origin :=
  if hops.isEmpty then c.origin else .steps hops.length f.computeSudo c.origin

/-- **The condition on a related field**: a negative one that a missing or a repeated step satisfies
is the complement of the positive one. -/
def relatedSearch (f : Field) (rel op : String) (value : Json) : Compile Predicate := do
  let hops ← c.relatedHops f rel
  let flags ← (hops.mapM multivaluedHop : Result (List Bool))
  let inSteps := { c with origin := c.stepsOrigin f hops }
  let canBeNull := holdsOnMissingStep f op value
  match (positiveOperator op).filter fun _ => canBeNull || flags.any id with
  | some positive =>
    let node ← relatedDomain f rel positive value (holdsOnMissingStep f positive value) hops
    return (← again inSteps (.Not node)).toPredicate
  | none =>
    let node ← relatedDomain f rel op value canBeNull hops
    return (← again inSteps node).toPredicate

/-- The condition on a display name. -/
def displayNameCondition (op : String) (value : Json) : Compile Predicate :=
  if !containsText "like" op ∧ !isEquality op then
    liftM (refuse ("display_name " ++ op ++ " on " ++ c.model.name
      ++ ": only the like family and equality are compiled from the name columns") :
      Result Predicate)
  else do
    let node ← displayNameNode c.model op value
    return (← again c node).toPredicate

/-- An operator without the `not` in front of it. -/
def withoutNot (op : String) : String :=
  if startsWith "not " op then String.ofList (op.toList.drop 4) else op

/-- A many2one is searched by the name of its record. -/
def m2oNameSearch (field : Field) (op : String) (value : Json) : Compile Predicate := do
  let co ← c.ctx.registry.get (← field.comodel)
  let sub ← displayNameNode co (withoutNot op) value
  c.m2oAny again field sub (!startsWith "not " op) field.bypassSearchAccess

/-- An id of the kernel's range. -/
def recordId (n : ℤ) : Result ℤ :=
  if -2 ^ 31 ≤ n ∧ n < 2 ^ 31 then .ok n
  else refuse ("record id " ++ toString n ++ " is outside the kernel's int4 range")

/-- The partners that a follower search names. -/
def partnerIds (field : Field) (op : String) : List Json → Result (List ℤ)
  | [] => .ok []
  | v :: vs => do
    let id ← orRefuse (c.model.name ++ "." ++ field.name ++ " " ++ op
      ++ ": a follower search by anything but partner ids is left to Python") v.asI64
    let id ← recordId id
    let ids ← partnerIds field op vs
    return id :: ids

/-- The columns that a follower search reads. -/
def followerColumns : List String := ["res_model", "res_id", "partner_id"]

/-- The sign of a follower search. -/
def followerSign (field : Field) (op : String) : Result Bool :=
  if op = "in" ∨ op = "=" then .ok true
  else if op = "not in" ∨ op = "!=" then .ok false
  else refuse (c.model.name ++ "." ++ field.name ++ " " ++ op
    ++ ": _search_message_partner_ids is compiled for in and = only")

/-- The records that some partners follow. -/
def followedByPartners (field : Field) (op : String) (value : Json) : Compile Predicate :=
  if !c.su then
    liftM (refuse (c.model.name ++ "." ++ field.name ++ " searches followers as the requesting user, "
      ++ "where _search_message_partner_ids checks portal partners in Python") : Result Predicate)
  else do
    let positive ← c.followerSign field op
    let ids ← c.partnerIds field op (comparands value)
    if ids.isEmpty then return .const !positive
    else
      let followers ← c.ctx.registry.get "mail.followers"
      if followerColumns.all fun column => (followers.fields.get? column).any (·.hasColumn) then
        Compile.emit (.followers c.model.name)
        let sub := c.subAlias followers
        let followed := Predicate.inSelect (.col c.aliasName "id")
          (.from (.col sub "res_id") followers.table sub
            [.compare .eq (.col sub "res_model") (.val (.text c.model.name)),
              inOrAny (.col sub "partner_id") "in" (ids.map .int)])
        return if positive then followed else .not followed
      else
        (refuse "mail.followers has a column that this registry does not read" : Result Predicate)

/-! ## The compiler -/

/-- The condition of a leaf on a field of the model's own. -/
def fieldCondition (field : Field) (leaf : Leaf) : Compile Predicate :=
  let named := c.model.name ++ "." ++ field.name
  if field.searchKind = some "mail_followers_partner" then
    c.followedByPartners field leaf.op leaf.value
  else if field.customSearch then
    liftM (refuse (named ++ " defines a custom search method; its domain cannot be compiled from the "
      ++ "column") : Result Predicate)
  else if field.ttype = .Properties then
    liftM (refuse (named ++ " is a properties field; Odoo searches it by property name with JSON "
      ++ "semantics the kernel does not compile") : Result Predicate)
  else if field.ttype = .Many2one ∧ containsText "like" leaf.op then
    c.m2oNameSearch again field leaf.op leaf.value
  else if field.ttype = .Boolean
      ∧ (isOrdering leaf.op || containsText "like" leaf.op || containsText "any" leaf.op) then
    liftM (refuse ("operator " ++ leaf.op ++ " is not supported on the boolean field " ++ named) :
      Result Predicate)
  else if field.ttype.isX2many && !field.hasColumn then c.x2manyCondition again field leaf
  else if field.ttype = .Many2one ∧ isAny leaf.op then do
    let sub ← parse leaf.value
    c.noteBypass leaf
    c.m2oAny again field sub (!startsWith "not" leaf.op) (bypassOf field leaf.op)
  else c.columnCondition field leaf

/-- A related field without a column of its own, and the path it stands for. -/
def relatedOf : List String → Option (Field × String)
  | [name] => (c.model.fields.get? name).bind fun f =>
    if f.hasColumn then none else f.related.map fun rel => (f, rel)
  | _ => none

/-- The condition of a leaf that is compiled as it is. -/
def plainLeaf (leaf : Leaf) : Compile Predicate :=
  let raw := splitDots leaf.field
  if raw = ["display_name"] then c.displayNameCondition again leaf.op leaf.value
  else do
    c.ctx.checkPathReadable c.model raw
    match c.relatedOf raw with
    | some (f, rel) => c.relatedSearch again f rel leaf.op leaf.value
    | none =>
      match ← c.ctx.normalizePath c.model raw with
      | [name] =>
        let field ← (orRefuse ("unknown field " ++ c.model.name ++ "." ++ name)
          (c.model.fields.get? name) : Result Field)
        c.fieldCondition again field leaf
      | path => c.dotted again path leaf.op leaf.value

/-- **The condition of a leaf.** -/
def compileLeaf (leaf : Leaf) : Compile Predicate :=
  if isFragment leaf.value then c.fragmentCondition again leaf
  else do
    match ← c.optimizeLeaf leaf with
    | some rewritten => return (← again c rewritten).toPredicate
    | none => c.plainLeaf again leaf

/-- The conditions of the children of a junction, one after the other. -/
def compileAll (cond : Condition) : List Node → Compile Condition
  | [] => pure cond
  | n :: ns => do compileAll (cond.add (← again c n)) ns

/-- The deepest nesting of subqueries. -/
def maxDepth : ℕ := 32

/-- **The condition of a domain**, with `fuel` calls for its negations. -/
def compileNode (fuel : ℕ) (n : Node) : Compile Condition :=
  if c.depth > maxDepth then
    liftM (refuse ("domain nesting exceeded " ++ toString maxDepth ++ " levels at " ++ c.model.name
      ++ "; refusing rather than recursing further") : Result Condition)
  else
    match n with
    | .True => pure .all
    | .False => pure .any
    | .And children => c.compileAll again .all children
    | .Or children => c.compileAll again .any children
    | .Not child => do
      match ← c.negate fuel child with
      | .Not kept =>
        return Condition.all.addPredicate (.isNotTrue (← again c kept).toPredicate)
      | negated => again c negated
    | .Leaf leaf => do return Condition.all.addPredicate (← c.compileLeaf again leaf)

end Again

end Compiler

/-- **The compiler**, up to some number of nested calls. -/
def Compiler.compile : ℕ → Compiler → Node → Compile Condition
  | 0, _, _ => liftM (outOfCalls : Result Condition)
  | fuel + 1, c, n => c.compileNode (Compiler.compile fuel) fuel n

end OdooKernel
