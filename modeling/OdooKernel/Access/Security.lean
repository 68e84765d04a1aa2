import Mathlib.Data.Finset.Insert
import Mathlib.Data.List.Dedup
import OdooKernel.Access.PyExpr
import OdooKernel.Registry.Model

/-!
# Access rows

The rows of `ir.access` that bind a principal are evaluated one by one and spliced into a single
domain in prefix notation.  What a row says is a filter, a Python expression, and a reach, which
compares the record's anchor with the principal; a row may name groups, and a guard may spare the
holders of some.

**Companies.**  A group may be held in some companies only.  Where all the groups of a row that are
held are held so, the row is narrowed to these companies (`heldScope`, `scopedDomain`): its domain is
put beside one on the field that anchors the model to a company, in the way of a permission or of a
guard.

**Errors.**  A row that cannot be evaluated fails the whole domain, with the reason in it; nothing is
skipped.  The texts of the reasons are those of the source.

**Delegation.**  A model that delegates takes the domains of its parents as sub-domains, one level
after the other, up to the number of levels the source allows (`rulesDomainInner`).

* `Rule`, `Security`, `UserCtx` — the rows of the models and the principal.
* `orDomains`, `normalizeDomain`, `combineDomains` — the splicing.
* `rulesDomain` — the domain of all rows that bind a principal, its delegated parents included.
* `checkReadAccess` — the check on the groups alone, made before any row is evaluated.
-/

namespace OdooKernel

/-! ## Rows and principals -/

/-- An access row. -/
structure Rule where
  groups : List ℤ
  restrict : Bool
  domainForce : Option String
  parsed : Option (Except String PyExpr)
  reach : Option Reach
  exempt : List ℤ

/-- A read guard whose domain is literally FALSE: the group whose members it binds (`none`:
everyone), and the groups whose holders it spares. -/
abbrev DenyingGuard := Option ℤ × List ℤ

/-- The access data of all models. -/
structure Security where
  implied : Dict ℤ (List ℤ)
  everyone : Option ℤ
  userGroups : Dict ℤ (List ℤ)
  access : Dict String (List ℤ)
  denyingGuards : Dict String (List DenyingGuard)
  parents : Dict String (List String)
  rules : Dict String (List Rule)
  userCompanies : Dict ℤ (List ℤ)
  anchors : Dict String String
  boundedUsers : Finset ℤ

/-- The access data of models with read permissions, and rows, and nothing else. -/
def Security.plain (access : Dict String (List ℤ)) (rules : Dict String (List Rule)) : Security where
  implied := []
  everyone := none
  userGroups := []
  access := access
  denyingGuards := []
  parents := []
  rules := rules
  userCompanies := []
  anchors := []
  boundedUsers := ∅

/-- The companies each group is held in, for the groups a grant limits to some companies; a held
group absent from it is held in every company. -/
abbrev GroupScopes := Dict ℤ (List ℤ)

/-- A principal. -/
structure UserCtx where
  uid : ℤ
  companyId : ℤ
  companyIds : List ℤ
  groups : Finset ℤ
  scopes : GroupScopes
  accessPartner : Option (ℤ × ℤ)
deriving DecidableEq

/-- A term of a domain. -/
def term (field op : String) (value : Json) : Json := .array [.string field, .string op, value]

/-- The constant term FALSE. -/
def falseTerm : Json := .array [.number (.int 0), .string "=", .number (.int 1)]

/-- The items of a value that should be a list: what is no list has none. -/
def Json.itemsOrEmpty (j : Json) : List Json := j.asArray.getD []

@[simp] lemma Json.itemsOrEmpty_array (items : List Json) :
    (Json.array items).itemsOrEmpty = items := rfl

/-! ## Reach -/

/-- The anchor key a rung reads when the row names none. -/
def rungAnchor (rung : String) : Result String :=
  if rung = "own" then .ok "owner"
  else if rung = "company" then .ok "company"
  else if rung = "partner" then .ok "partner"
  else refuse ("reach " ++ rung ++ " is compiled per principal in Python")

/-- The anchor a row's reach reads on the model it applies to. -/
def reachAnchor (model : String) (anchors : Option (Dict String AccessAnchor)) (reach : Reach) :
    Result AccessAnchor := do
  let anchors ← orRefuse (model ++ ": this registry does not know the model's anchors, which reach "
    ++ reach.rung ++ " compiles against") anchors
  let key ← match reach.anchor with
    | some key => pure key
    | none => rungAnchor reach.rung
  orRefuse (model ++ " declares no anchor " ++ key ++ " for reach " ++ reach.rung
    ++ "; Python's row admits nothing") (anchors.get? key)

/-- Whether a reach compares with the principal's partner. -/
def needsPartner (reach : Reach) (anchor : AccessAnchor) : Bool :=
  reach.rung = "partner" || (reach.rung = "own" && anchor.kind = "partner")

/-- The term that compares a record's anchor with the principal. -/
def reachLeaf (model : String) (reach : Reach) (anchor : AccessAnchor) (uid : ℤ)
    (companies : List ℤ) (partner : Option (ℤ × ℤ)) : Result Json :=
  let partner := orRefuse ("reach " ++ reach.rung ++ " of " ++ model
    ++ " needs the principal's partner") partner
  if reach.rung = "own" then
    if anchor.kind = "owner" ∨ anchor.kind = "creator" then
      .ok (term anchor.path "in" (.ints [uid]))
    else if anchor.kind = "partner" then
      (fun p => term anchor.path "in" (.ints [p.1])) <$> partner
    else refuse ("reach own through the " ++ anchor.kind ++ " anchor " ++ anchor.path ++ " of "
      ++ model ++ " binds what a module the kernel does not read gives")
  else if reach.rung = "company" then
    .ok (term anchor.path (if anchor.hierarchy = "" then "in" else anchor.hierarchy)
      (.ints companies))
  else if reach.rung = "partner" then
    (fun p => term anchor.path "child_of" (.ints [p.2])) <$> partner
  else refuse ("reach " ++ reach.rung ++ " is compiled per principal in Python")

/-- The terms of a reach; a shared anchor also admits the records where it is unset. -/
def reachLeaves (model : String) (reach : Reach) (anchor : AccessAnchor) (uid : ℤ)
    (companies : List ℤ) (partner : Option (ℤ × ℤ)) : Result Json := do
  let leaf ← reachLeaf model reach anchor uid companies partner
  if anchor.shared then return .array [.string "|", leaf, term anchor.path "=" (.bool false)]
  else return .array [leaf]

/-- The partner and commercial partner a reach compares with, when it needs them: those the request
brings, or the user's own. -/
def reachPartner (ev : Evaluator) (user : UserCtx) (reach : Reach) (anchor : AccessAnchor) :
    Result (Option (ℤ × ℤ)) :=
  if needsPartner reach anchor then
    match user.accessPartner with
    | some binds => .ok (some binds)
    | none => some <$> ev.accessPartner
  else .ok none

/-- The reach of a row, for the rungs the kernel binds. -/
def reachDomain (registry : Registry) (ev : Evaluator) (model : String) (reach : Reach)
    (user : UserCtx) : Result Json := do
  let anchor ← reachAnchor model (← registry.get model).accessAnchors reach
  let partner ← reachPartner ev user reach anchor
  reachLeaves model reach anchor user.uid user.companyIds partner

/-! ## Splicing domains -/

/-- Ordered, and each once. -/
def sortDedup (ids : List ℤ) : List ℤ := (ids.mergeSort (· ≤ ·)).dedup

/-- The companies the row's groups are held in, `none` when one of them is held in every company. -/
def heldScope (ruleGroups : List ℤ) (user : UserCtx) : Option (List ℤ) := do
  let companies ← (ruleGroups.filter (· ∈ user.groups)).mapM user.scopes.get?
  return sortDedup companies.flatten

/-- How many operands are expected after an item. -/
def expectedAfter (expected : ℕ) : Json → ℕ
  | .string "&" | .string "|" => expected + 1
  | .string "!" => expected
  | _ => expected - 1

/-- One step of `normalizeDomain`: the items so far, and how many operands are expected. -/
def normalizeDomainStep (acc : List Json × ℕ) (item : Json) : List Json × ℕ :=
  let acc := if acc.2 = 0 then (.string "&" :: acc.1, 1) else acc
  (acc.1 ++ [item], expectedAfter acc.2 item)

/-- Put the missing conjunctions in front. -/
def normalizeDomain (items : List Json) : List Json :=
  (items.foldl normalizeDomainStep ([], 1)).1

/-- The disjunction of some domains.  An empty one is TRUE, and so is then the whole. -/
def orDomains (domains : List Json) : Json :=
  let terms := domains.map Json.itemsOrEmpty
  if terms.any List.isEmpty then .array []
  else if terms.isEmpty then .array [falseTerm]
  else .array (List.replicate (terms.length - 1) (.string "|") ++ terms.flatMap normalizeDomain)

/-- The records of some companies, and the shared ones. -/
def withinCompanies (anchor : String) (companies : List ℤ) : List Json :=
  if anchor = "id" then [term "id" "in" (.ints companies)]
  else [.string "|", term anchor "in" (.ints companies), term anchor "=" (.bool false)]

/-- A row narrowed to the companies its group is held in: a permission reaches their records and the
shared ones, a guard of the members binds them there only. -/
def scopedDomain (domain : Json) (anchor : String) (companies : List ℤ) (guard : Bool) : Json :=
  let within := withinCompanies anchor companies
  if guard then orDomains [domain, .array (.string "!" :: within)]
  else
    let items := domain.itemsOrEmpty
    if items.isEmpty then .array within
    else .array (.string "&" :: normalizeDomain items ++ within)

/-! ## The rows that bind a principal -/

/-- Whether a row names groups. -/
def Rule.isGroup (rule : Rule) : Bool := !rule.groups.isEmpty

/-- Whether a row is a permission: the others are guards. -/
def Rule.isPermission (rule : Rule) : Bool := rule.isGroup && !rule.restrict

/-- Whether a row binds a principal: it names no group or one that is held, and no exempt group is
held. -/
def Rule.binds (rule : Rule) (user : UserCtx) : Bool :=
  (!rule.isGroup || rule.groups.any (· ∈ user.groups)) &&
    !(rule.restrict && rule.exempt.any (· ∈ user.groups))

/-- The value a row's domain evaluates to. -/
def ruleValue (ev : Evaluator) (model : String) (rule : Rule) : Result Json :=
  match rule.parsed with
  | some (.ok parsed) => evalPy ev parsed
  | some (.error why) => refuse ("rule on " ++ model ++ " does not parse: " ++ why)
  | none => .ok (.array [])

/-- The companies a row is narrowed to, with the field that anchors them. -/
def ruleScope (security : Security) (model : String) (rule : Rule) (user : UserCtx) :
    Option (String × List ℤ) :=
  if rule.isGroup then do
    let anchor ← security.anchors.get? model
    let companies ← heldScope rule.groups user
    return (anchor, companies)
  else none

/-- The terms of a row's reach, when it has one. -/
def ruleReach (registry : Registry) (ev : Evaluator) (user : UserCtx) (model : String)
    (rule : Rule) : Result (Option Json) :=
  match rule.reach with
  | some reach => some <$> reachDomain registry ev model reach user
  | none => .ok none

/-- A row's domain beside its reach. -/
def withReach (reached : Option Json) (dom : Json) : Json :=
  match reached with
  | some reached => .array (reached.itemsOrEmpty ++ normalizeDomain dom.itemsOrEmpty)
  | none => dom

/-- A row's domain narrowed to the companies its groups are held in, when they are limited. -/
def narrowed (scope : Option (String × List ℤ)) (guard : Bool) (dom : Json) : Json :=
  match scope with
  | some (anchor, companies) => scopedDomain dom anchor companies guard
  | none => dom

/-- The domain of a row for the principal it binds. -/
def ruleDomain (registry : Registry) (security : Security) (ev : Evaluator) (user : UserCtx)
    (model : String) (rule : Rule) : Result Json := do
  let dom ← ruleValue ev model rule
  let reached ← ruleReach registry ev user model rule
  return narrowed (ruleScope security model rule user) rule.restrict (withReach reached dom)

/-- A delegation goes through a field that has a column. -/
def checkLink (registry : Registry) (model via : String) : Result Unit :=
  match (registry.lookup model).bind fun m => m.fields.get? via with
  | some f =>
    if f.hasColumn then .ok ()
    else refuse ("_inherits field " ++ model ++ "." ++ via ++ " has no column: Python binds the "
      ++ "parent's access through its search, which the kernel does not compile")
  | none => refuse ("_inherits field " ++ model ++ "." ++ via ++ " is not in the registry")

/-- The terms of the delegated parents: for each that is restricted, that the record reached
satisfies its domain. -/
def inheritedTerms (registry : Registry) (parentDomain : String → Result (Option Json))
    (model : String) : List (String × String) → Result (List Json)
  | [] => .ok []
  | (parent, via) :: links => do
    checkLink registry model via
    let dom ← parentDomain parent
    let rest ← inheritedTerms registry parentDomain model links
    return (dom.map (term via "any")).toList ++ rest

/-- Whether a model's access includes that of its delegated parents. -/
def climbs (registry : Registry) (model : String) : Bool :=
  ((registry.lookup model).map (·.inheritsRules)).getD true

/-- The delegated parents that a model's access includes, each with the field that leads to it. -/
def parentLinks (registry : Registry) (model : String) : List (String × String) :=
  if climbs registry model then registry.inheritsOf model else []

/-- A model that adds to its rows in Python is not compiled. -/
def checkGuardPure (registry : Registry) (model : String) : Result Unit :=
  if (registry.lookup model).any (!·.accessGuardPure) then
    refuse (model ++ " adds an access guard in Python (_access_guard); the kernel compiles only "
      ++ "its ir.access rows")
  else .ok ()

/-- The rows and the parents combined: the parents, the guards one after the other, and the
disjunction of the permissions. -/
def combineDomains (inherited guards permissions : List Json) : List Json :=
  inherited ++ guards.flatMap Json.itemsOrEmpty ++ (orDomains permissions).itemsOrEmpty

/-- A domain, or no restriction when it has no term. -/
def unlessEmpty (items : List Json) : Option Json :=
  if items.isEmpty then none else some (.array items)

/-- The domains of the guards among some rows. -/
def guardsAmong (rows : List (Rule × Json)) : List Json :=
  (rows.filter (!·.1.isPermission)).map (·.2)

/-- The domains of the permissions among some rows. -/
def permissionsAmong (rows : List (Rule × Json)) : List Json :=
  (rows.filter (·.1.isPermission)).map (·.2)

/-- The rows of a model and its parents combined, for the principal. -/
def combineRules (registry : Registry) (security : Security) (ev : Evaluator) (user : UserCtx)
    (model : String) (inherited : List Json) (rules : List Rule) : Result (List Json) := do
  let bound := rules.filter (·.binds user)
  let domains ← bound.mapM (ruleDomain registry security ev user model)
  let rows := bound.zip domains
  return combineDomains inherited (guardsAmong rows) (permissionsAmong rows)

/-- The domain of the access rows, through at most `remaining` delegated parents.  A model without
rows has its parents' domain only. -/
def rulesDomainInner (registry : Registry) (security : Security) (ev : Evaluator) (user : UserCtx) :
    ℕ → String → Result (Option Json)
  | 0, model => refuse ("_inherits chain too deep at " ++ model)
  | remaining + 1, model => do
    checkGuardPure registry model
    let inherited ← inheritedTerms registry
      (rulesDomainInner registry security ev user remaining) model (parentLinks registry model)
    match security.rules.get? model with
    | none => return unlessEmpty inherited
    | some rules =>
      -- TRUE is no restriction: a parent that admits everything adds no subquery
      return unlessEmpty (← combineRules registry security ev user model inherited rules)

/-- How many models a chain of delegation may name. -/
def maxInheritsChain : ℕ := 17

/-- **The domain of the access rows** of a model for a principal; `none` when nothing restricts. -/
def rulesDomain (registry : Registry) (security : Security) (ev : Evaluator) (user : UserCtx)
    (model : String) : Result (Option Json) :=
  rulesDomainInner registry security ev user maxInheritsChain model

/-! ## The check on the groups -/

/-- Whether a literally FALSE guard binds a principal. -/
def DenyingGuard.binds (guard : DenyingGuard) (anchored : Bool) (groups : Finset ℤ)
    (scopes : GroupScopes) : Bool :=
  !guard.2.any (· ∈ groups) &&
    match guard.1 with
    | none => true
    | some gid => gid ∈ groups && !(anchored && scopes.containsKey gid)

/-- The check of each parent in turn. -/
def checkParents (check : String → Result Unit) : List String → Result Unit
  | [] => .ok ()
  | parent :: parents => do
    check parent
    checkParents check parents

/-- The check through at most `remaining` delegated parents. -/
def checkReadAccessInner (security : Security) (uid : ℤ) (groups : Finset ℤ) (scopes : GroupScopes) :
    ℕ → String → Result Unit
  | 0, model => refuse ("_inherits chain too deep at " ++ model)
  | remaining + 1, model =>
    match security.access.get? model with
    | none => denyAccess ("access denied: no ir.access read permission on " ++ model)
    | some granted =>
      if !granted.any (· ∈ groups) then
        denyAccess ("access denied on " ++ model ++ " for uid " ++ toString uid
          ++ ": no read permission held")
      else if (security.denyingGuards.listAt model).any
          (·.binds (security.anchors.containsKey model) groups scopes) then
        denyAccess ("access denied on " ++ model ++ " for uid " ++ toString uid
          ++ ": a guard binding it admits nothing")
      else checkParents (checkReadAccessInner security uid groups scopes remaining)
        (security.parents.listAt model)

/-- **The check on the groups**: a read permission is held, no guard denies, and every delegated
parent allows. -/
def checkReadAccess (security : Security) (model : String) (uid : ℤ) (groups : Finset ℤ)
    (scopes : GroupScopes) : Result Unit :=
  checkReadAccessInner security uid groups scopes maxInheritsChain model

end OdooKernel
