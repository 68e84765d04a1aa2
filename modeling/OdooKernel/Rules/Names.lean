import Mathlib.Data.Finset.Sort
import OdooKernel.Access.Security
import OdooKernel.Compile.Values
import OdooKernel.Sql.Expr

/-!
# The names of access rows

The expression of an access row reads the principal's records through chains of names, xml ids
through `ref()`, and the principal's partner where its reach compares with it.  All of it is read out
of the tables when the row is evaluated, and an error of one name is an error of the row.

**Groups.**  `Security.groupsOf` are the groups of a user, the implied ones included; `Rules/Implied`
says which these are.

**Chains of names.**  `hopFrom`, `readName` and `resolveName` follow a chain of names from the user
or from a company, one field after the other.

**Xml ids and partners.**  `resolveRef` and `accessPartner`.

**The evaluator.**  `rulesEvaluator` is all of it: what `rulesDomain` evaluates the rows with.  What
two evaluators have to agree on is in `Rules/Reads`.
-/

namespace OdooKernel

/-! ## Reading tables -/

/-- The integer in a column. -/
def Row.int? (row : Row) (column : String) : Option ℤ :=
  match row column with
  | some (.int n) => some n
  | _ => none

/-- The text in a column. -/
def Row.text? (row : Row) (column : String) : Option String :=
  match row column with
  | some (.text s) => some s
  | _ => none

/-- The record of a table with an id. -/
def Database.record? (db : Database) (table : String) (id : ℤ) : Option Row :=
  (db.table table).find? fun row => row.int? "id" = some id

/-- The rows a column of which is one of some ids. -/
def Database.rowsWhere (db : Database) (table column : String) (ids : List ℤ) : List Row :=
  (db.table table).filter fun row => (row.int? column).any (· ∈ ids)

/-! ## Groups -/

/-- The groups met so far, and those that the next ones imply. -/
def closeGroups (implied : Dict ℤ (List ℤ)) : ℕ → List ℤ → List ℤ → List ℤ
  | 0, met, _ => met
  | _, met, [] => met
  | fuel + 1, met, g :: stack =>
    if g ∈ met then closeGroups implied fuel met stack
    else closeGroups implied fuel (g :: met) (implied.listAt g ++ stack)

/-- The groups of a user, with those they imply.  A group's implied groups are pushed once, which
bounds the steps. -/
def Security.groupsOf (security : Security) (uid : ℤ) : List ℤ :=
  let start := security.userGroups.listAt uid ++ security.everyone.toList
  closeGroups security.implied
    (start.length + (security.implied.map fun e => e.2.length).sum + 1) [] start

/-! ## Chains of names -/

/-- A chain of names, as messages show it. -/
def quotedChain (chain : List String) : String :=
  "[" ++ ", ".intercalate (chain.map fun name => "\"" ++ name ++ "\"") ++ "]"

/-- A step through `mapped('…')`. -/
def isMapped (name : String) : Bool := startsWith "*" name

/-- A step's name, without the star of `mapped('…')`. -/
def bareName (name : String) : String :=
  if isMapped name then String.ofList (name.toList.drop 1) else name

/-- A record set as the value of a chain. -/
def recordsetJson : List ℤ → Json
  | [] => .bool false
  | [one] => .number (.int one)
  | ids => .ints ids

/-- A stored value as the value of a chain. -/
def scalarJson (toDouble : ℚ → Option ℚ) (field : Field) : Option String → Result Json
  | none =>
    match field.ttype with
    | .Integer | .Many2oneReference => .ok (.number (.int 0))
    | .Float | .Monetary => .ok (.number (.float 0))
    | _ => .ok (.bool false)
  | some s =>
    match field.ttype with
    | .Integer | .Many2oneReference =>
      match readInteger s.toList with
      | some n => .ok (.number (.int n))
      | none => .error (.internal "invalid digit found in string")
    | .Boolean => .ok (.bool (s = "true" || s = "t"))
    | .Float | .Monetary =>
      match readDouble s.toList with
      | .finite q => floatJson (toDouble q)
      | .nonFinite => floatJson none
      | .noNumber => .error (.internal "invalid float literal")
    | _ => .ok (.string s)

section Names

variable (registry : Registry) (security : Security) (toDouble : ℚ → Option ℚ) (db : Database)
  (user : UserCtx)

/-- A field that a chain of names cannot go through. -/
def refuseField (modelName attr : String) (field : Field) : Result Unit :=
  let named := "cannot traverse " ++ modelName ++ "." ++ attr
  if field.translated then
    refuse (named ++ ": translated storage requires Python's field conversion")
  else if field.companyDependent then
    refuse (named ++ ": a company-dependent value is a jsonb the rule evaluator does not resolve")
  else if field.ttype.isX2many
      && (field.domainCallable || field.domain.any (· ≠ .array [])) then
    refuse (named ++ ": its field domain requires Python")
  else .ok ()

/-- The records of a comodel that a relational step counts: the active ones, unless the field's
context says otherwise. -/
def stepCounts (field : Field) (co : Model) : Result (Row → Bool) := do
  match co.activeName, (← field.contextActiveTest).getD true with
  | some active, true => return fun row => row active = some (.bool true)
  | _, _ => return fun _ => true

/-- The records that a stored one2many leads to. -/
def one2manyStep (modelName attr : String) (ids : List ℤ) (field : Field) : Result (List ℤ) := do
  let co ← registry.get (← field.comodel)
  let inverse ← field.o2mInverseColumn modelName co
  if (co.fields.get? inverse).any (·.ttype = .Many2oneReference) then
    refuse ("cannot traverse " ++ modelName ++ "." ++ attr ++ ": its polymorphic inverse requires "
      ++ "Python's model discriminator")
  else
    let counts ← stepCounts field co
    return ((db.rowsWhere co.table inverse ids).filter counts).filterMap (·.int? "id")

/-- The records that a stored many2many leads to, each once. -/
def many2manyStep (ids : List ℤ) (field : Field) : Result (List ℤ) := do
  let (rel, column1, column2) ← field.m2mColumns
  let co ← registry.get (← field.comodel)
  let counts ← stepCounts field co
  let linked := (db.rowsWhere rel column1 ids).filterMap (·.int? column2)
  return (linked.filter fun id => (db.record? co.table id).any counts).eraseDups

/-- The records that a many2one leads to, each once. -/
def many2oneStep (model : Model) (attr : String) (field : Field) : List ℤ → Result (List ℤ)
  | [] => .ok []
  | id :: ids => do
    let row ← orRefuse ("missing " ++ model.name ++ " record while traversing " ++ attr)
      (db.record? model.table id)
    let rest ← many2oneStep model attr field ids
    return ((row.int? field.name).toList ++ rest).eraseDups

/-- **One relational step** of a chain, with the model it leads to; no step where the field holds a
value of its own. -/
def hopFrom (model : Model) (attr : String) (field : Field) (ids : List ℤ) :
    Result (Option (String × List ℤ)) := do
  refuseField model.name attr field
  if field.ttype = .One2many ∧ field.stored then
    let ids ← one2manyStep registry db model.name attr ids field
    return some (← field.comodel, ids)
  else if field.ttype = .Many2many ∧ field.stored then
    let ids ← many2manyStep registry db ids field
    return some (← field.comodel, ids)
  else if !field.hasColumn then
    refuse ("cannot traverse " ++ model.name ++ "." ++ attr ++ ": it is computed in Python")
  else if field.ttype = .Many2one then
    let ids ← many2oneStep db model attr field ids
    return some (← field.comodel, ids)
  else return none

/-- The texts of a column, of some records. -/
def columnTexts (verb : String) (model : Model) (attr : String) (field : Field) :
    List ℤ → Result (List (Option String))
  | [] => .ok []
  | id :: ids => do
    let row ← orRefuse ("missing " ++ model.name ++ " record while " ++ verb ++ " " ++ attr)
      (db.record? model.table id)
    let texts ← columnTexts verb model attr field ids
    return (row field.name).map db.server.textOf :: texts

/-- The value at the end of a chain: of one record, or of all of them in `mapped('…')`. -/
def readScalar (mapped : Bool) (model : Model) (attr : String) (field : Field) (ids : List ℤ) :
    Result Json :=
  if mapped then do
    let texts ← columnTexts db "mapping" model attr field ids
    return .array (← texts.mapM (scalarJson toDouble field))
  else
    match ids with
    | [] => scalarJson toDouble field none
    | [id] => do
      let texts ← columnTexts db "reading" model attr field [id]
      scalarJson toDouble field (texts.headD none)
    | _ => refuse (model.name ++ "." ++ attr ++ " read on " ++ toString ids.length ++ " records: "
        ++ "Python raises 'Expected singleton'; use mapped() for a list")

/-- The groups that some users hold, with the implied ones or without. -/
def groupsHeld (implied : Bool) (uids : List ℤ) : Json :=
  .ints (sortDedup (uids.flatMap fun uid =>
    if implied then security.groupsOf uid else security.userGroups.listAt uid))

/-- The ids at the end of a chain. -/
def readIds (chain : List String) (modelName attr : String) (ids : List ℤ) : Result Json :=
  if attr = "ids" then
    if chain.getLast? = some "*ids" then
      refuse "mapped('ids') names a recordset property, not a field"
    else .ok (.ints ids)
  else if chain.getLast? = some "*id" then .ok (.ints ids)
  else if ids.length ≤ 1 then .ok (recordsetJson ids)
  else refuse (modelName ++ ".id read on " ++ toString ids.length
    ++ " records: Python raises 'Expected singleton'")

/-- **The value of the steps of a chain** from some records, in at most so many turns: a related
field takes one without a step. -/
def readName (chain : List String) (mapped : Bool) : ℕ → String → List ℤ → List String → Result Json
  | _, _, ids, [] => .ok (recordsetJson ids)
  | 0, _, _, _ :: _ => refuse ("related expansion loop in " ++ quotedChain chain)
  | turns + 1, modelName, ids, attr :: rest =>
    if attr = "id" ∨ attr = "ids" then
      if rest ≠ [] then refuse ("attribute after .id in " ++ quotedChain chain)
      else readIds chain modelName attr ids
    else if modelName = "res.users" ∧ (attr = "all_group_ids" ∨ attr = "group_ids") then
      if rest = [] ∨ rest = ["ids"] then .ok (groupsHeld security (attr = "all_group_ids") ids)
      else refuse ("unsupported attribute path after " ++ modelName ++ "." ++ attr)
    else do
      let model ← registry.get modelName
      let field ← orRefuse ("unknown attr " ++ modelName ++ "." ++ attr) (model.fields.get? attr)
      match field.related with
      | some related => readName chain mapped turns modelName ids (splitDots related ++ rest)
      | none =>
        match ← hopFrom registry db model attr field ids with
        | some (next, ids) => readName chain mapped turns next ids rest
        | none =>
          if rest ≠ [] then
            refuse ("scalar " ++ modelName ++ "." ++ attr ++ " mid-path in " ++ quotedChain chain)
          else readScalar toDouble db mapped model attr field ids

/-- How many turns the steps of a chain may take. -/
def maxNameTurns : ℕ := 32

/-- The record set that `user` and what follows it starts from. -/
def nameStart : List String → Result (String × List ℤ × List String)
  | "env" :: "companies" :: path => .ok ("res.company", user.companyIds, path)
  | "env" :: "company" :: path => .ok ("res.company", [user.companyId], path)
  | "env" :: "user" :: path => .ok ("res.users", [user.uid], path)
  | "env" :: _ => refuse "unsupported user.env attribute in a rule domain"
  | path => .ok ("res.users", [user.uid], path)

/-- **The value of a chain of names.** -/
def resolveName (chain : List String) : Result Json :=
  match chain with
  | [] => .error (.internal "an empty chain of names")
  | "user" :: rest => do
    let (modelName, ids, path) ← nameStart user (rest.map bareName)
    readName registry security toDouble db chain (rest.getLast?.any isMapped) maxNameTurns modelName
      ids path
  | ["company_id"] => .ok (.number (.int user.companyId))
  | ["company_ids"] => .ok (.ints user.companyIds)
  | ["group_ids"] => .ok (.ints (user.groups.sort (· ≤ ·)))
  | name :: _ =>
    if name ∈ ["company_id", "company_ids", "group_ids"] then
      refuse ("unsupported attribute path on a rule context value: " ++ quotedChain chain)
    else refuse ("unknown name \"" ++ name ++ "\" in rule expression")

/-! ## Xml ids and partners -/

/-- The record that an xml id names. -/
def resolveRef (xmlid : String) : Result ℤ :=
  match splitOnce xmlid with
  | none => refuse ("ref(\"" ++ xmlid ++ "\") names no module; Python raises")
  | some (module, name) =>
    let named := (db.table "ir_model_data").find? fun row =>
      row.text? "module" = some module && row.text? "name" = some name
    match (named.bind (·.int? "res_id")).filter (· ≠ 0) with
    | some id => .ok id
    | none => refuse ("ref(\"" ++ xmlid ++ "\"): External ID not found in the system")

/-- The partner and the commercial partner of the principal. -/
def accessPartner : Result (ℤ × ℤ) := do
  let found := (db.record? "res_users" user.uid).bind fun row =>
    (row.int? "partner_id").bind fun partner => (db.record? "res_partner" partner).map
      fun record => (partner, record.int? "commercial_partner_id")
  match found with
  | some (partner, some commercial) => return (partner, commercial)
  | some (_, none) =>
    refuse ("uid " ++ toString user.uid ++ " has no partner or commercial partner to reach")
  | none => refuse ("unknown uid " ++ toString user.uid)

/-- **What the rows of a principal are evaluated with.** -/
def rulesEvaluator : Evaluator where
  resolveName := resolveName registry security toDouble db user
  resolveRef := resolveRef db
  addDoubles p q := toDouble (p + q)
  accessPartner := accessPartner db user

end Names

end OdooKernel
