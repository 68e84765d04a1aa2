import Mathlib.Data.Finset.Basic
import Mathlib.Data.Int.Notation
import OdooKernel.Core.Dict
import OdooKernel.Core.Error
import OdooKernel.Core.Text
import OdooKernel.Domain.Json

/-!
# The registry: models and fields

What the kernel knows of the models, as an export of the live Python registry states it.  A field or
a model has many properties that only say that Python does something of its own there; the kernel
then refuses the request, with a reason that names the field or the model.

**What moves** is not part of it: the access data, the defaults of companies and the sequences of
signals are read from the database again and again (`Cache/Interleaving`), while a registry stays as
it was built.

* `FieldType`, `Field`, `Model` — the data a domain is compiled against.
* `Field.m2mColumns`, `Field.o2mInverse`, `Field.contextActiveTest` — what a relational field is
  stored in, or why it cannot be read from there.
* `Registry.fieldReadable` — the verdict on a field's `groups=`.
* `AccessAnchor`, `Reach` — where a model's records meet a principal.
* `Registry` — the models, and the graph of delegated parents.
-/

namespace OdooKernel

/-- The kinds of fields. -/
inductive FieldType where
  | Boolean
  | Integer
  | Float
  | Monetary
  | Char
  | Text
  | Html
  | Date
  | Datetime
  | Selection
  | Many2one
  | One2many
  | Many2many
  | Binary
  | Json
  | Properties
  | Reference
  | Many2oneReference
  | Other
deriving DecidableEq, Repr

/-- Whether a field holds text. -/
def FieldType.isText : FieldType → Bool
  | .Char | .Text | .Html => true
  | _ => false

/-- Whether a field holds several records. -/
def FieldType.isX2many : FieldType → Bool
  | .One2many | .Many2many => true
  | _ => false

/-- A field of a model. -/
structure Field where
  name : String
  ttype : FieldType
  relation : Option String
  relationTable : Option String
  column1 : Option String
  column2 : Option String
  relationField : Option String
  one2one : Option Bool
  companyDependent : Bool
  hasColumn : Bool
  stored : Bool
  pgType : String
  notNull : Bool
  translated : Bool
  translateWhole : Bool
  columnCast : Option String
  related : Option String
  domain : Option Json
  domainCallable : Bool
  modelField : Option String
  index : Option String
  cdFallback : Option Json
  customSearch : Bool
  context : Option Json
  groups : Option String
  pythonReadAccess : Option Bool
  falsy : Option Json
  bypassSearchAccess : Option Bool
  computeSudo : Bool
  inherited : Bool
  required : Bool
  groupByField : Option String
  orderByField : Option String
  searchKind : Option String

/-- One of a model's anchors: the path from a record to the anchor's kind of record, whether an
unset anchor is shared, and the company hierarchy a company reach reads. -/
structure AccessAnchor where
  path : String
  kind : String
  shared : Bool
  hierarchy : String
deriving DecidableEq, Repr

/-- An access row's reach: the rung (`own`, `company`, `partner`) and the anchor it names, if not
its rung's. -/
structure Reach where
  rung : String
  anchor : Option String
deriving DecidableEq, Repr

/-- A model. -/
structure Model where
  name : String
  table : String
  order : String
  fields : Dict String Field
  recName : Option String
  parentName : Option String
  parentStore : Bool
  inheritsRules : Bool
  tableInheritanceRoot : Option String
  impureReadMethods : List String
  searchPure : Bool
  orderPure : Bool
  readGroupPure : Bool
  nameSearchFields : Option (List String)
  displayNameSearchExact : List String
  displayNameDefault : Bool
  displayNameAccessPure : Bool
  checkAccessPure : Bool
  accessGuardPure : Bool
  accessCompanyAnchor : Option String
  accessAnchors : Option (Dict String AccessAnchor)
  activeName : Option String
  displayNameColumn : List String
  displayNameGuard : Option String

/-- Where a registry was read from. -/
inductive Source where
  | bootstrap
  | export
deriving DecidableEq, Repr

/-- The registry, without the snapshot of the data that moves. -/
structure Registry where
  models : Dict String Model
  inherits : Dict String (List (String × String))
  hasUnaccent : Bool
  hasTrigram : Bool
  source : Source
  groupIds : Dict String ℤ

/-- A model that may be missing. -/
def Registry.lookup (registry : Registry) (model : String) : Option Model :=
  registry.models.get? model

/-- A model that has to be there. -/
def Registry.get (registry : Registry) (model : String) : Result Model :=
  orRefuse ("unknown or table-less model " ++ model) (registry.lookup model)

/-- The delegated parents of a model, each with the field that leads to it. -/
def Registry.inheritsOf (registry : Registry) (model : String) : List (String × String) :=
  registry.inherits.listAt model

/-- The model a relational field leads to. -/
def Field.comodel (field : Field) : Result String :=
  orRefuse ("field " ++ field.name ++ " has no comodel") field.relation

/-! ## What a field is stored in -/

/-- A field whose read access Python computes, or may compute, cannot be judged. -/
def Field.ensureSupportedReadAccess (field : Field) : Result Unit :=
  match field.pythonReadAccess with
  | some false => .ok ()
  | some true => refuse ("field " ++ field.name ++ " uses a Python read-access class policy")
  | none => refuse ("field " ++ field.name ++ " has unknown read-access policy; regenerate the live "
      ++ "Python registry export")

/-- The value of a field that reads as unset. -/
def Field.falsyJson (field : Field) : Option Json := field.falsy

/-- The value an unset field is compared as. -/
def Field.inequalityFalsyJson (field : Field) : Option Json := field.falsyJson

def Field.computedX2manyRefusal (field : Field) (kind reads : String) : Result Unit :=
  if field.stored then .ok ()
  else refuse (kind ++ " " ++ field.name ++ " is computed in Python"
    ++ (match field.related with
      | some r => " (related: " ++ r ++ ")"
      | none => "")
    ++ ", so its " ++ reads ++ " does not hold its value")

/-- The relation table of a many2many, and its columns for the owner and the comodel. -/
def Field.m2mColumns (field : Field) : Result (String × String × String) := do
  field.computedX2manyRefusal "many2many" "relation table"
  match field.relationTable, field.column1, field.column2 with
  | some table, some column1, some column2 => return (table, column1, column2)
  | _, _, _ => refuse ("many2many " ++ field.name
      ++ " is stored but its relation table/columns are missing from the registry")

/-- The field of the comodel that a one2many inverts. -/
def Field.o2mInverse (field : Field) : Result String := do
  field.computedX2manyRefusal "one2many" "inverse column"
  orRefuse ("one2many " ++ field.name ++ " has no inverse field") field.relationField

/-- The column of the comodel that a one2many joins on. -/
def Field.o2mInverseColumn (field : Field) (owner : String) (comodel : Model) : Result String := do
  let inverse ← field.o2mInverse
  match comodel.fields.get? inverse with
  | some f =>
    if f.hasColumn then return inverse
    else refuse ("one2many " ++ owner ++ "." ++ field.name ++ " inverts " ++ comodel.name ++ "."
      ++ inverse ++ ", which is computed in Python and has no column to join on")
  | none => refuse ("one2many " ++ owner ++ "." ++ field.name ++ " names an inverse " ++ comodel.name
      ++ "." ++ inverse ++ " that the registry does not have")

/-- The only key of a field's context that is known, and the refusal of any other. -/
def activeTestOf (name : String) : Option Bool → List (String × Json) → Result (Option Bool)
  | out, [] => .ok out
  | _, ("active_test", .bool b) :: rest => activeTestOf name (some b) rest
  | _, ("active_test", _) :: _ =>
    refuse ("field " ++ name ++ " has a non-boolean active_test")
  | _, (other, _) :: _ => refuse ("field " ++ name ++ " carries the context key " ++ other
      ++ ", which this kernel does not model; refusing rather than reading it as absent")

/-- Whether a field's context asks for active records only, where it says so. -/
def Field.contextActiveTest (field : Field) : Result (Option Bool) :=
  match field.context with
  | none => .ok none
  | some (.object fields) => activeTestOf field.name none fields
  | some _ => refuse ("field " ++ field.name ++ " has a non-object context")

/-! ## Who may read a field -/

/-- A group that no principal holds. -/
def debugGroup : String := "base.group_no_one"

/-- The names of a `groups=` spec that are not empty. -/
def groupTokens (spec : String) : List (List Char) :=
  ((spec.toList.splitOn ',').map trimmed).filter (· ≠ [])

/-- The id of a group that a principal holds. -/
def Registry.heldGroup (registry : Registry) (groups : Finset ℤ) (xmlid : String) : Option ℤ :=
  if xmlid = debugGroup then none
  else (registry.groupIds.get? xmlid).filter (· ∈ groups)

/-- **The verdict on a field's `groups=`** for a principal: a negated group that is held everywhere
denies, and one of the others has to be held; what is held in some companies only is refused. -/
def Registry.fieldReadable (registry : Registry) (field : Field) (groups : Finset ℤ)
    (limited : ℤ → Bool) : Result Bool := do
  field.ensureSupportedReadAccess
  match field.groups with
  | none => return true
  | some "." => return false
  | some spec =>
    let tokens := groupTokens spec
    let negatives := tokens.filterMap fun token =>
      match token with
      | '!' :: rest => some (String.ofList rest)
      | _ => none
    let positives := (tokens.filter fun token => token.head? ≠ some '!').map String.ofList
    let heldNegatives := negatives.filterMap (registry.heldGroup groups)
    let heldPositives := positives.filterMap (registry.heldGroup groups)
    if positives.isEmpty && negatives.isEmpty then return false
    else if heldNegatives.any (!limited ·) then return false
    else if !positives.isEmpty && heldPositives.isEmpty then return false
    else if !heldNegatives.isEmpty || (!positives.isEmpty && heldPositives.all limited) then
      refuse ("field " ++ field.name ++ " is restricted to " ++ spec ++ ", which this principal "
        ++ "holds or is excluded by only through a grant limited to some companies; Python masks it "
        ++ "per record")
    else return true

/-! ## Fields and models without anything special -/

/-- A stored field with a column. -/
def Field.column (name : String) (ttype : FieldType) (pgType : String) (falsy : Option Json) :
    Field where
  name := name
  ttype := ttype
  relation := none
  relationTable := none
  column1 := none
  column2 := none
  relationField := none
  one2one := none
  companyDependent := false
  hasColumn := true
  stored := true
  pgType := pgType
  notNull := false
  translated := false
  translateWhole := false
  columnCast := none
  related := none
  domain := none
  domainCallable := false
  modelField := none
  index := none
  cdFallback := none
  customSearch := false
  context := none
  groups := none
  pythonReadAccess := some false
  falsy := falsy
  bypassSearchAccess := some false
  computeSudo := false
  inherited := false
  required := false
  groupByField := none
  orderByField := none
  searchKind := none

/-- A required many2one. -/
def linkField (name comodel : String) : Field :=
  { Field.column name .Many2one "int4" none with
    relation := some comodel, notNull := true, required := true }

/-- A model with the given fields. -/
def plainModel (name table : String) (fields : Dict String Field) : Model where
  name := name
  table := table
  order := "id"
  fields := fields
  recName := none
  parentName := none
  parentStore := false
  inheritsRules := true
  tableInheritanceRoot := none
  impureReadMethods := []
  searchPure := true
  orderPure := true
  readGroupPure := true
  nameSearchFields := none
  displayNameSearchExact := []
  displayNameDefault := true
  displayNameAccessPure := true
  checkAccessPure := true
  accessGuardPure := true
  accessCompanyAnchor := none
  accessAnchors := none
  activeName := none
  displayNameColumn := []
  displayNameGuard := none

/-- A registry of some models, without delegation, groups or extensions. -/
def plainRegistry (models : Dict String Model) : Registry where
  models := models
  inherits := []
  hasUnaccent := false
  hasTrigram := false
  source := .export
  groupIds := []

end OdooKernel
