import OdooKernel.Access.RuleSet
import OdooKernel.Compile.Context

/-!
# Rewriting a leaf before it is compiled

A leaf is brought to the few operators that are compiled, and its value to the type of its field, by
one pass after another.

**Passes.**  A pass looks at the leaf and at the field that its path starts with.  It goes on to the
next one, keeps the leaf as it is, or ends with a domain that is compiled in its place, and the first
pass that does not go on decides (`Pass.first`).  The passes stand in the order of the source; a
result about all of them takes each once and says that it goes on, or what it makes of the leaf.

**Days.**  A date without a time names a whole day where the field has instants.  When a day starts
is the zone's business, which is a table here (`startOf`, `requestZone`).

* `Compiler` — where a domain is compiled.
* `Pass` — what a pass says.
* `Compiler.optimizeLeaf` — the passes, in order.
* `Compiler.relatedHops`, `Compiler.negatesByOperator` — what a related field goes through.
-/

namespace OdooKernel

/-- A domain of one leaf. -/
def leafNode (field op : String) (value : Json) : Node := .Leaf { field, op, value }

/-- Where a domain is compiled: the model whose rows it selects, under an alias, with the rules that
apply to the subqueries.  The origin of the domain decides nothing. -/
structure Compiler where
  ctx : ExprCtx
  model : Model
  aliasName : String
  rules : RuleSet
  su : Bool
  depth : ℕ
  stack : List String
  origin : Origin

/-- The root of a compilation. -/
def Compiler.root (ctx : ExprCtx) (model : Model) (rules : RuleSet) (su : Bool) : Compiler where
  ctx := ctx
  model := model
  aliasName := model.table
  rules := rules
  su := su
  depth := 0
  stack := []
  origin := .caller

/-- A subquery over a comodel. -/
def Compiler.subCompiler (c : Compiler) (co : Model) (aliasName : String) : Compiler :=
  { c with
    model := co
    aliasName
    depth := c.depth + 1
    stack := c.stack ++ [c.model.name]
    origin := c.origin.inside }

/-- The same place, without a principal. -/
def Compiler.asSudo (c : Compiler) : Compiler := { c with ctx := c.ctx.forRules, su := true }

/-! ## Passes -/

/-- What a pass says: nothing, or how the rewriting ends. -/
abbrev Pass := Result (Option (Option Node))

/-- The pass does not apply. -/
def Pass.next : Pass := .ok none

/-- The leaf is compiled as it is. -/
def Pass.keep : Pass := .ok (some none)

/-- The leaf is compiled as a domain. -/
def Pass.into (n : Node) : Pass := .ok (some (some n))

/-- The first pass that applies. -/
def Pass.first : List Pass → Result (Option Node)
  | [] => .ok none
  | pass :: passes =>
    match pass with
    | .error e => .error e
    | .ok none => Pass.first passes
    | .ok (some out) => .ok out

/-- A leaf, and what its path starts with. -/
structure LeafView where
  leaf : Leaf
  head : String
  field : Option Field

namespace LeafView

def dotted (l : LeafView) : Bool := l.head ≠ l.leaf.field

def ttype (l : LeafView) : Option FieldType := l.field.map (·.ttype)

/-- The first field refers to records. -/
def headRelational (l : LeafView) : Bool :=
  l.ttype ∈ [some .Many2one, some .Many2oneReference, some .One2many, some .Many2many]

def relational (l : LeafView) : Bool := l.dotted || l.headRelational

/-- The same field and operator, with another value. -/
def withValue (l : LeafView) (value : Json) : Node := leafNode l.leaf.field l.leaf.op value

/-- `in` or `not in`. -/
def isMembership (l : LeafView) : Bool := l.leaf.op = "in" || l.leaf.op = "not in"

/-- The operators whose values are converted. -/
def comparesValues (l : LeafView) : Bool := l.isMembership || isOrdering l.leaf.op

end LeafView

/-! ## What a related field goes through -/

/-- The fields that some steps of a path lead through. -/
def hopsFrom (registry : Registry) (owner : Model) (f : Field) :
    Model → List String → Result (List Field)
  | _, [] => .ok []
  | m, step :: steps => do
    let hop ← orRefuse ("related " ++ owner.name ++ "." ++ f.name ++ " names unknown " ++ step)
      (m.fields.get? step)
    let next ← registry.get (← hop.comodel)
    return hop :: (← hopsFrom registry owner f next steps)

/-- Whether a step may reach several records. -/
def multivaluedHop (hop : Field) : Result Bool :=
  match hop.ttype with
  | .Many2many => .ok true
  | .One2many =>
    match hop.one2one with
    | some one => .ok !one
    | none => refuse ("whether the one2many " ++ hop.name ++ " holds one record is unknown to this "
        ++ "registry; regenerate the live Python registry export")
  | _ => .ok false

namespace Compiler

variable (c : Compiler)

/-- The fields that a related field goes through, but for the last. -/
def relatedHops (f : Field) (rel : String) : Result (List Field) :=
  hopsFrom c.ctx.registry c.model f c.model (splitDots rel).dropLast

/-- Whether some step reaches several records, up to the first that does. -/
def anyMultivalued : List Field → Result Bool
  | [] => .ok false
  | hop :: hops => do
    if ← multivaluedHop hop then return true else anyMultivalued hops

/-- `_negates_by_operator`: a field related through a multivalued hop reads its negation as a
complement, never as the negated operator. -/
def negatesByOperator (f : Field) : Result Bool :=
  match f.related with
  | none => .ok true
  | some rel => do return !(← anyMultivalued (← c.relatedHops f rel))

/-! ## Days -/

/-- The instant at which a day starts in the time zone of the request. -/
def startOf (zone : Option (Date → Option Instant)) (day : Date) : Result Json :=
  match zone with
  | some starts =>
    if day.year = 1 ∨ day.year = 9999 then .ok (.string (Instant.text (day * dayLength)))
    else
      match starts day with
      | some instant => .ok (.string (Instant.text instant))
      | none => refuse ("midnight of " ++ day.text ++ " is ambiguous or missing in its zone")
  | none => .ok (.string (Instant.text (day * dayLength)))

/-- The day after, unless Python's calendar ends. -/
def dayAfter (day : Date) : Option Date := if Date.year (day + 1) ≤ 9999 then some (day + 1) else none

/-- A value that is a date without a time. -/
def bareDate (v : Json) : Option Date := v.asStr.bind strictDate

/-- The condition that a day orders against. -/
def orderedDay (zone : Option (Date → Option Instant)) (fname op : String) (day : Date) :
    Result Node :=
  match op, dayAfter day with
  | ">", some after => do return leafNode fname ">=" (← startOf zone after)
  | ">", none => .ok .False
  | "<=", some after => do return leafNode fname "<" (← startOf zone after)
  | "<=", none => .ok (leafNode fname "!=" (.bool false))
  | _, _ => do return leafNode fname op (← startOf zone day)

/-- The condition of being within a day. -/
def withinDay (zone : Option (Date → Option Instant)) (fname : String) (day : Date) : Result Node :=
  match dayAfter day with
  | some after => do
    return .And [leafNode fname ">=" (← startOf zone day), leafNode fname "<" (← startOf zone after)]
  | none => do return leafNode fname ">=" (← startOf zone day)

/-- The values of a comparand. -/
def comparands : Json → List Json
  | .array items => items
  | other => [other]

/-- The zone of the request: none for UTC. -/
def requestZone (fname op : String) : Result (Option (Date → Option Instant)) :=
  match c.ctx.tz with
  | none => .ok none
  | some "UTC" => .ok none
  | some name =>
    match c.ctx.zones name with
    | some starts => .ok (some starts)
    | none => refuse (fname ++ " " ++ op ++ " names a whole day in timezone " ++ name ++ ", which "
        ++ "the kernel's zone table does not know")

/-- **A bare date names a whole day** in the request's time zone. -/
def datetimeDayComparand (fname op : String) (v : Json) : Result (Option Node) :=
  let values := comparands v
  if !values.any fun x => (bareDate x).isSome then .ok none
  else do
    let zone ← c.requestZone fname op
    if isOrdering op then
      match bareDate v with
      | none => return none
      | some day => return some (← orderedDay zone fname op day)
    else
      let days ← (values.filterMap bareDate).mapM (withinDay zone fname)
      let exact := values.filter fun x => (bareDate x).isNone
      let days := if exact.isEmpty then days else days ++ [leafNode fname "in" (.array exact)]
      let node := match days with
        | [day] => day
        | days => .Or days
      return some (if op = "not in" then .Not node else node)

/-! ## The passes in order -/

/-- An ordering takes one value. -/
def refuseOrderings (l : LeafView) : Pass :=
  if isOrdering l.leaf.op ∧ (l.leaf.value.isArray ∨ l.leaf.value = .bool true) then
    refuse (l.leaf.field ++ " " ++ l.leaf.op
      ++ ": an ordering comparison takes a single value of the field")
  else Pass.next

/-- The part of a dotted path after its head. -/
def restOf (l : LeafView) : String := (splitOnce l.leaf.field).elim "" (·.2)

/-- `=?` is true of everything when it compares with nothing. -/
def rewriteUnlessUnset (l : LeafView) : Pass :=
  if l.leaf.op = "=?" then
    if l.dotted ∧ l.headRelational then
      Pass.into (leafNode l.head "any" (.array [term (restOf l) "=?" l.leaf.value]))
    else if isPyFalsy l.leaf.value then Pass.into .True
    else Pass.into (leafNode l.leaf.field "=" l.leaf.value)
  else Pass.next

/-- An equality is a membership. -/
def rewriteEquality (l : LeafView) : Pass :=
  if (l.dotted ∨ l.head ≠ "display_name") ∧ l.leaf.op ∈ ["=", "==", "!=", "<>"] then
    let op := if l.leaf.op ∈ ["=", "=="] then "in" else "not in"
    let items := match l.leaf.value with
      | .array [] => [.bool false]
      | .array items => items
      | other => [other]
    Pass.into (leafNode l.leaf.field op (.array items))
  else Pass.next

/-- A membership is one of a list. -/
def wrapMember (l : LeafView) : Pass :=
  if l.isMembership ∧ !l.leaf.value.isArray then
    if l.dotted then Pass.keep else Pass.into (l.withValue (.array [l.leaf.value]))
  else Pass.next

/-- A pattern that any text matches. -/
def onlyWildcards : Json → Bool
  | .string s => s ≠ "" && s.toList.all (· = '%')
  | _ => false

/-- Whether a pattern that says only whether there is a value is kept as it is. -/
def keepsPattern (l : LeafView) (onlyPresence : Bool) : Result Bool :=
  match l.field with
  | some f =>
    if l.relational && onlyPresence then (!·) <$> c.negatesByOperator f else .ok false
  | none => .ok false

/-- A pattern that is empty, matches everything, or is a number. -/
def rewritePattern (l : LeafView) : Pass :=
  let op := l.leaf.op
  let v := l.leaf.value
  if endsWith "like" op then do
    let negative := startsWith "not " op
    let equalForm := containsText "=" op
    let falsy := isPyFalsy v
    let number := match v with
      | .number n => some n
      | _ => none
    if l.dotted && (falsy || onlyWildcards v || number.isSome) then Pass.keep
    else
      let complemented ← c.keepsPattern l (falsy || onlyWildcards v)
      let empty := falsy && number.isNone
      if complemented then Pass.keep
      else if empty || onlyWildcards v then
        let result := if empty then negative == equalForm else !negative
        if l.relational || (empty && equalForm) then
          Pass.into (leafNode l.leaf.field (if result then "!=" else "=") (.bool false))
        else Pass.into (if result then .True else .False)
      else
        match number with
        | some n => do
          if equalForm then
            refuse ("the pattern for " ++ op ++ " on " ++ l.leaf.field ++ " must be a string")
          else
            let pattern ← if l.ttype ∈ [some .Float, some .Monetary] then floatPatternText n
              else numberAsPythonText n
            Pass.into (l.withValue (.string pattern))
        | none => Pass.next
  else Pass.next

/-- A number as a text, any other value as it is. -/
def numberToText : Json → Result Json
  | .number n => Json.string <$> numberAsPythonText n
  | other => .ok other

def isNumber : Json → Bool
  | .number _ => true
  | _ => false

/-- A text field compares texts. -/
def textNumbers (l : LeafView) : Pass :=
  if !l.dotted ∧ l.ttype ∈ [some .Char, some .Text, some .Html] ∧ l.comparesValues then
    match l.leaf.value with
    | .number n => do Pass.into (l.withValue (← numberToText (.number n)))
    | .array items =>
      if items.any isNumber then do Pass.into (l.withValue (.array (← items.mapM numberToText)))
      else Pass.next
    | _ => Pass.next
  else Pass.next

/-- An instant field compares with whole days. -/
def wholeDays (l : LeafView) : Pass :=
  if !l.dotted ∧ l.ttype = some .Datetime ∧ l.comparesValues then do
    match ← c.datetimeDayComparand l.leaf.field l.leaf.op l.leaf.value with
    | some node => Pass.into node
    | none => Pass.next
  else Pass.next

/-- The values a relational field is not compared with. -/
def refuseRelational (l : LeafView) : Pass :=
  match l.field with
  | some f =>
    if !l.dotted ∧ f.ttype ∈ [.Many2one, .One2many, .Many2many] then
      if isOrdering l.leaf.op ∧ l.leaf.value.isString then
        refuse (l.leaf.field ++ " " ++ l.leaf.op
          ++ ": a relational field orders against a single record id")
      else if l.isMembership ∧ f.stored ∧ !f.customSearch
          ∧ Json.bool true ∈ comparands l.leaf.value then
        refuse (l.leaf.field ++ " " ++ l.leaf.op
          ++ ": a relational field compares with record ids or names")
      else Pass.next
    else Pass.next
  | none => Pass.next

/-- A relational field compares an id of zero as unset, and texts as names. -/
def namesAndIds (l : LeafView) : Pass :=
  if !l.dotted ∧ l.relational ∧ l.isMembership then
    match l.leaf.value with
    | .array items =>
      if items.any isFalsyId then
        Pass.into (l.withValue (.array (items.map fun i => if isFalsyId i then .bool false else i)))
      else if items.any Json.isString then
        let positive := l.leaf.op = "in"
        let byName := leafNode l.leaf.field (if positive then "any" else "not any")
          (.array [term "display_name" "in" (.array (items.filter Json.isString))])
        let others := items.filter (!·.isString)
        if others.isEmpty then Pass.into byName
        else if positive then Pass.into (.Or [byName, l.withValue (.array others)])
        else Pass.into (.And [byName, l.withValue (.array others)])
      else Pass.next
    | v => if isFalsyId v then Pass.into (l.withValue (.bool false)) else Pass.next
  else Pass.next

/-- The numbers of a list of comparands, without the texts that are none. -/
def coerceAll (integer : Bool) : List Json → Result (List Json)
  | [] => .ok []
  | item :: items => do
    let value ← coerceNumeric c.ctx.toDouble item integer
    let rest ← coerceAll integer items
    return value.toList ++ rest

/-- A numeric field compares numbers. -/
def numericTexts (l : LeafView) : Pass :=
  if !l.dotted ∧ l.ttype ∈ [some .Integer, some .Float, some .Monetary] ∧ l.comparesValues then
    let integer := l.ttype = some .Integer
    match l.leaf.value with
    | .array items =>
      if items.any Json.isString then do Pass.into (l.withValue (.array (← c.coerceAll integer items)))
      else Pass.next
    | .string s => do
      match ← coerceNumeric c.ctx.toDouble (.string s) integer with
      | some n => Pass.into (l.withValue n)
      | none =>
        if l.leaf.op = "in" then Pass.into .False
        else if l.leaf.op = "not in" then Pass.into .True
        else refuse ("cannot compare the numeric field " ++ l.leaf.field)
    | _ => Pass.next
  else Pass.next

/-- What a comparand is to a boolean field. -/
def toBoolean : Json → Json
  | .string s => .bool (pyStr2bool s)
  | other => .bool !(isPyFalsy other)

def isBoolean : Json → Bool
  | .bool _ => true
  | _ => false

/-- A boolean field compares booleans. -/
def booleanValues (l : LeafView) : Pass :=
  match l.leaf.value with
  | .array items =>
    if !l.dotted ∧ l.ttype = some .Boolean ∧ l.isMembership ∧ items.any (!isBoolean ·) then
      Pass.into (l.withValue (.array (items.map toBoolean)))
    else Pass.next
  | _ => Pass.next

/-- An ordering against no value is one against the field's falsy value. -/
def unsetOrdering (l : LeafView) : Pass :=
  match l.field with
  | some f =>
    if !l.dotted ∧ isOrdering l.leaf.op ∧ isNullLike l.leaf.value then
      match f.inequalityFalsyJson with
      | some falsy => if isNullLike falsy then Pass.keep else Pass.into (l.withValue falsy)
      | none => Pass.into .False
    else Pass.next
  | none => Pass.next

/-- A leaf, and what its path starts with. -/
def view (l : Leaf) : LeafView :=
  let head := headOf l.field
  { leaf := l, head, field := c.model.fields.get? head }

/-- The field a leaf starts with is known, and its read access can be judged. -/
def checkHead (l : LeafView) : Result Unit :=
  match l.field with
  | none => if l.leaf.field ≠ "display_name" then
      refuse ("unknown field " ++ c.model.name ++ "." ++ l.head) else .ok ()
  | some f => if c.ctx.access.isSome then f.ensureSupportedReadAccess else .ok ()

/-- **Rewrite a leaf**, if it is not compiled as it is. -/
def optimizeLeaf (l : Leaf) : Result (Option Node) := do
  let v := c.view l
  c.checkHead v
  Pass.first [refuseOrderings v, rewriteUnlessUnset v, rewriteEquality v, wrapMember v,
    c.rewritePattern v, textNumbers v, c.wholeDays v, refuseRelational v, namesAndIds v,
    c.numericTexts v, booleanValues v, unsetOrdering v]

end Compiler

end OdooKernel
