import OdooKernel.Search.Condition
import OdooKernel.Search.Queries

/-!
# Display names

The label of a record is its display name, which the kernel renders from a column or two.  The labels
of some records are read by one query that carries the rules of their model; a record that it does
not return has no label.

**What is not rendered here.**  A model whose names or whose read access Python decides is refused,
and so are names that Python may show to more principals than the query would.  A failure to find
what a name is rendered from is not one of the request: the name is then made of the model and the id
(`Compile.attempt`, `displayNameCell`).

* `SearchRequest.displayNameExpr` — what a name is rendered from.
* `SearchRequest.displayNames` — the names of some records that the principal may see.
-/

namespace OdooKernel

/-- A computation whose failure is taken for nothing, unless it ran out of nested calls. -/
def Compile.attempt {α : Type} (x : Compile α) : Compile (Option α) :=
  match x.run with
  | .ok (a, log) => .ok (some a, log)
  | .error e =>
    if (Except.error e : Result Unit) = outOfCalls then .error e else .ok (none, [])

/-- **The name of a record**: what it is rendered from, or else its model and its id. -/
def displayNameCell (model : String) (id : ℤ) : Option Json → Json
  | none => .string (model ++ "," ++ toString id)
  | some (.string s) => if s ≠ "" then .string s else .bool false
  | some _ => .bool false

namespace SearchRequest

variable (r : SearchRequest) (calls : ℕ)

/-- Whether the principal, if there is one, may read a field. -/
def fieldReadable (field : Field) : Result Bool := r.ctx.mayOrderBy field

/-- A field that the principal may not read is denied. -/
def checkFieldAccess (field : Field) : Result Unit := do
  if ← r.fieldReadable field then return ()
  else denyAccess ("access denied: uid " ++ ((r.ctx.access.map (toString ·.uid)).getD "") ++ " may not "
    ++ "read " ++ field.name ++ " (" ++ field.pgType ++ "): the field is restricted to "
    ++ field.groups.getD ".")

/-- A field that a name is rendered from is denied like any other. -/
def checkNameAccess (model : Model) (field : Field) : Result Unit := do
  if ← r.fieldReadable field then return ()
  else denyAccess ("access denied: uid " ++ ((r.ctx.access.map (toString ·.uid)).getD "") ++ " may not "
    ++ "read " ++ model.name ++ "." ++ field.name)

/-- The expressions that a name is rendered from, the first that is not empty. -/
def nameParts (model : Model) (aliasName : String) : List String → Compile (List Expr)
  | [] => pure []
  | name :: names => do
    let f ← (orRefuse ("unknown display-name column " ++ model.name ++ "." ++ name)
      (model.fields.get? name) : Result Field)
    r.checkNameAccess model f
    let e ← r.ctx.readExpr calls model f aliasName
    return e :: (← nameParts model aliasName names)

/-- **What a name is rendered from**: the columns that the model says, or the field that names its
records, if it has a readable one. -/
def displayNameExpr (model : Model) (aliasName : String) : Compile (Option Output) :=
  if !model.displayNameColumn.isEmpty then do
    return some (.firstText (← r.nameParts calls model aliasName model.displayNameColumn))
  else
    match model.recName.bind model.fields.get? with
    | none => pure none
    | some f => do
      match ← (r.ctx.readExpr calls model f aliasName).attempt with
      | none => return none
      | some e =>
        r.checkNameAccess model f
        return some (.expr e)

/-- The column that guards a name: a record without it is named by a translated placeholder, which
the stored column holds in English only. -/
def guardColumn (model : Model) (named : Bool) : Option String :=
  if named && r.ctx.lang ≠ "en_US" then model.displayNameGuard else none

/-- A guard that is there and not empty. -/
def checkGuard (reason : String) : Option Datum → Result Unit
  | some (.text s) => if s ≠ "" then .ok () else refuse reason
  | none => refuse reason
  | some _ => .error (.internal "error deserializing column")

/-! ## The names of some records -/

/-- Whether the principal may read a model at all. -/
def deniedRead (model : String) : Bool :=
  match r.ctx.access with
  | none => false
  | some access =>
    (checkReadAccess r.ctx.security model access.uid access.groups access.scopes).toOption.isNone

/-- The refusal of names that Python may show to more principals. -/
def widened {α : Type} (comodel : String) : Result α :=
  refuse (comodel ++ " widens display_name visibility in Python (_get_display_name_visible_ids) for "
    ++ "records uid " ++ ((r.ctx.access.map (toString ·.uid)).getD "") ++ " may not read")

/-- The condition of the records with some ids that the rules of their model admit. -/
def namesCondition (comodelName : String) (comodel : Model) (ids : List ℤ) : Compile Condition := do
  let ids ← (ids.mapM Compiler.recordId : Result (List ℤ))
  let cond := Condition.all.addPredicate
    (if ids.isEmpty then .const false else inOrAny (.col comodel.table "id") "in" (ids.map .int))
  if r.su then return cond
  else
    r.rules.ensureEvaluated comodelName
    match r.rules.get comodelName with
    | none => return cond
    | some node =>
      return cond.add (← (r.compiler comodel).compileRules (Compiler.compile calls) node)

/-- The name in a row: its id, what it is rendered from if anything, and the guard if there is one. -/
def nameOfRow (comodel : String) (named guarded : Bool) : Record → Result (ℤ × Json)
  | some (.int id) :: values => do
    if guarded then
      checkGuard (comodel ++ " renders display_name from a translated placeholder for record "
        ++ toString id ++ "; only en_US reads the stored column") (values.getD 1 none)
    let value ← if named then
        match values.getD 0 none with
        | some (.text s) => .ok (some (.string s))
        | none => .ok (some .null)
        | some _ => .error (.internal "error deserializing column")
      else .ok none
    return (id, displayNameCell comodel id value)
  | _ => .error (.internal "error deserializing column")

/-- The columns of a query for names. -/
def nameColumns (comodel : Model) (name : Option Output) : List Output :=
  .expr (.col comodel.table "id") :: name.toList ++
    ((r.guardColumn comodel name.isSome).map fun guard => .expr (.col comodel.table guard)).toList

/-- The query for the names of some records. -/
def namesQuery (comodelName : String) (comodel : Model) (ids : List ℤ) (name : Option Output) :
    Reading (List Record) := do
  let cond ← r.namesCondition calls comodelName comodel ids
  Reading.asks (.records (.ofOrder comodel.table cond []) (r.nameColumns comodel name) 0 none)

/-- **The names of some records** that the principal may see, each under its id. -/
def displayNames (comodelName : String) (ids : List ℤ) : Reading (Dict ℤ Json) :=
  if ids.isEmpty then pure []
  else do
    let comodel ← r.ctx.registry.get comodelName
    if !comodel.displayNameDefault then
      (refuse (comodelName ++ " computes display_name in Python; the kernel cannot render it from "
        ++ "_rec_name") : Result (Dict ℤ Json))
    else if !r.su && !comodel.checkAccessPure then
      (refuse (comodelName ++ " decides read access in Python (_get_records_forbidden_and_error_"
        ++ "factory); the kernel cannot tell which of its records may be named") : Result (Dict ℤ Json))
    else if r.deniedRead comodelName then
      if !comodel.displayNameAccessPure then (r.widened comodelName : Result (Dict ℤ Json))
      else return []
    else
      let name ← r.displayNameExpr calls comodel comodel.table
      let rows ← r.namesQuery calls comodelName comodel ids name
      let named ← (rows.mapM (nameOfRow comodelName name.isSome
        (r.guardColumn comodel name.isSome).isSome) : Result (List (ℤ × Json)))
      let names := Dict.ofEntries named
      if !r.su ∧ !comodel.displayNameAccessPure ∧ names.length < ids.length then
        (r.widened comodelName : Result (Dict ℤ Json))
      else return names

end SearchRequest

end OdooKernel
