import OdooKernel.Access.Security

/-!
# Loading the access rows

The rows of `ir.access`, as the database stores them, become the data that the check and the combined
domain read: the groups that hold a permission, the guards that are literally FALSE, and the rows
themselves, each with its expression read once.

**Literally FALSE.**  The loader tells it by the text alone, spaces and quotes dropped
(`isLiterallyFalse`), before anything is evaluated.  A permission that is literally FALSE grants
nothing, and a guard that is denies at the check.

**Owners.**  A model under a root of table inheritance is bound by the rows of the models that own
the root's table as well (`AccessTopology`, `bindRows`); they are added when all rows are there, in
the order of the owners' names.

* `loadRow` — one row.
* `loadSecurity` — all of it, with the topology of the registry (`AccessTopology.of`).
-/

namespace OdooKernel

/-- A row of `ir.access`. -/
structure AccessRow where
  id : ℤ
  model : String
  group : ℤ
  guard : Bool
  membersOnly : Bool
  domain : Option String
  reach : Option String
  anchor : Option String

/-- Which rows beyond its own govern a model's read access: a model under a table-inheritance root
is also bound by the rows of the models owning the root's table, and a delegating model by its
parents' access. -/
structure AccessTopology where
  boundBy : Dict String (List String)
  parents : Dict String (List String)
  anchors : Dict String String

/-- The models that own a table, but for one of them. -/
def ownersOf (models : Dict String Model) (root name : String) : List String :=
  ((models.filter fun (_, other) => other.table = root ∧ other.name ≠ name).map
    fun (_, other) => other.name).mergeSort (· ≤ ·)

/-- The topology of a registry. -/
def AccessTopology.of (registry : Registry) : AccessTopology where
  boundBy := registry.models.filterMap fun (name, model) =>
    match model.tableInheritanceRoot with
    | none => none
    | some root =>
      if model.table = root then none
      else
        let owners := ownersOf registry.models root name
        if owners.isEmpty then none else some (name, owners)
  parents := (registry.inherits.filter fun (child, _) => climbs registry child).map
    fun (child, links) => (child, links.map (·.1))
  anchors := registry.models.filterMap fun (name, model) =>
    model.accessCompanyAnchor.map fun anchor => (name, anchor)

/-- The text of a row that admits nothing. -/
def nothingText : String := "[(0, '=', 1)]"

/-- Whether a text states FALSE, whatever its spaces and quotes. -/
def isLiterallyFalse (domain : String) : Bool :=
  let compact := String.ofList
    (domain.toList.filter fun c => !isWhitespace c && c ≠ '\'' && c ≠ '"')
  compact = "[(0,=,1)]" || compact = "[[0,=,1]]" || compact = "((0,=,1),)"

/-- What a row's reach leaves to compile: its domain, and a reach bound per principal. -/
def rowReach (reach anchor domain : Option String) :
    Except String (Option String × Option Reach) :=
  let domain := domain.filter fun d => !d.toList.all isWhitespace
  match reach.getD "" with
  | "" | "all" => .ok (domain, none)
  | "none" => .ok (some nothingText, none)
  | rung =>
    if rung = "own" ∨ rung = "company" ∨ rung = "partner" then
      .ok (domain, some { rung, anchor := anchor.filter (· ≠ "") })
    else .error ("reach " ++ rung ++ " is compiled per principal in Python")

/-- The text of an error. -/
def errorText : KernelError → String
  | .refusal reason => reason
  | .accessDenied reason => reason
  | .registryStale => "the Odoo registry changed"
  | .needsRoundTrip => "answering this needs a round trip to the database"
  | .database reason => reason
  | .internal reason => reason

/-- A row's domain, read once. -/
def parseRow (cls : CharClass) (reach : Option Reach) (src : String) : Except String PyExpr :=
  match parsePy cls src with
  | .error e => .error (errorText e)
  | .ok expr =>
    if reach.isSome && readsNames expr then
      .error ("the fixed filter beside a reach reads the principal, which ir.access._row_domains "
        ++ "does not evaluate")
    else .ok expr

/-- The rule a row states.  A row's exemptions are those of its id. -/
def rowRule (cls : CharClass) (exemptions : Dict ℤ (List ℤ)) (row : AccessRow) : Rule :=
  let (domainForce, reach, compiledInPython) :=
    match rowReach row.reach row.anchor row.domain with
    | .ok (domain, reach) => (domain, reach, none)
    | .error why => (none, none, some why)
  { -- a permission is a group row the principal's permissions OR; a guard binding everyone is a row
    -- without a group; a guard binding the members of its group is ANDed for those members
    groups := if row.guard && !row.membersOnly then [] else [row.group]
    restrict := row.guard
    domainForce
    parsed := match compiledInPython with
      | some why => some (.error why)
      | none => domainForce.map (parseRow cls reach)
    reach
    exempt := if row.guard then exemptions.listAt row.id else [] }

/-- Whether a row's text states FALSE. -/
def Rule.never (rule : Rule) : Bool := rule.domainForce.any isLiterallyFalse

/-- One row more: a guard that is literally FALSE denies, a permission that is not grants. -/
def loadRow (cls : CharClass) (exemptions : Dict ℤ (List ℤ)) (security : Security)
    (row : AccessRow) : Security :=
  let rule := rowRule cls exemptions row
  { security with
    denyingGuards :=
      if row.guard && rule.never then
        security.denyingGuards.extendAt row.model
          [(if row.membersOnly then some row.group else none, rule.exempt)]
      else security.denyingGuards
    access :=
      if !row.guard && !rule.never then security.access.extendAt row.model [row.group]
      else security.access
    rules := security.rules.extendAt row.model [rule] }

/-- The values of a key go to another key as well, when there are any. -/
def Dict.copyTo {α : Type} (d : Dict String (List α)) (source target : String) :
    Dict String (List α) :=
  match d.get? source with
  | some xs => d.extendAt target xs
  | none => d

/-- The rows of an owner bind a model as well. -/
def bindRows (security : Security) (model owner : String) : Security :=
  { security with
    access := security.access.copyTo owner model
    denyingGuards := security.denyingGuards.copyTo owner model
    rules := security.rules.copyTo owner model }

/-- **Load the access data**: the rows in the order of their ids, then the rows of the owners, and
the registry's parents and anchors.  `base` holds the groups and the companies of the users. -/
def loadSecurity (cls : CharClass) (topology : AccessTopology) (base : Security)
    (exemptions : Dict ℤ (List ℤ)) (rows : List AccessRow) : Security :=
  let security := rows.foldl (loadRow cls exemptions)
    { base with access := [], denyingGuards := [], rules := [] }
  let security := topology.boundBy.foldl
    (fun security (model, owners) => owners.foldl (fun s owner => bindRows s model owner) security)
    security
  { security with parents := topology.parents, anchors := topology.anchors }

end OdooKernel
