import OdooKernel.Rules.Hierarchy

/-!
# The condition of a search

The records of a search satisfy the domain of the request, the filter on active records unless the
domain names the field of it, and the rules of the model unless a superuser asks.

**Where it is put together.**  Hierarchy leaves are resolved first, which asks the database
(`Rules/Hierarchy`); what is left is compiled without asking.  A domain from outside may hold no
internal operator at any level; a trusted one is the kernel's own and may.

**FALSE.**  A search whose domain is false as it stands gets FALSE for a condition, when all is
compiled: the compilation refuses what Python would raise on.  `Search/Shortcut` says that nothing is
lost.

* `SearchRequest` — what a search is compiled from.
* `SearchRequest.whereOf` — the condition of a domain without hierarchy leaves.
* `SearchRequest.buildCondition` — the condition of a search.
* `SearchRequest.compileWhere` — the condition that Python searches with, and the columns that it
  flushes before.
-/

namespace OdooKernel

/-- What a search is compiled from: the context of the request, the name of the model, the domain, and
the rules of the principal, which a superuser does without.  A trusted domain is the kernel's own. -/
structure SearchRequest where
  ctx : ExprCtx
  model : String
  domain : Json
  rules : RuleSet
  su : Bool
  trusted : Bool
  rootActiveTest : Bool

namespace SearchRequest

variable (r : SearchRequest) (calls : ℕ) (model : Model)

/-- Where the domain of a search is compiled. -/
def compiler : Compiler := Compiler.root r.ctx model r.rules r.su

/-- A condition with the filter on active records, unless the domain names their field. -/
def implicitActive (node : Node) (cond : Condition) : Compile Condition :=
  match model.activeName.filter fun _ => r.rootActiveTest with
  | none => pure cond
  | some activeName =>
    if activeName ∈ referencedFields node then pure cond
    else do
      Compile.touch model.name activeName
      return cond.addPredicate (.isIn (.col model.table activeName) [.bool true])

/-- A condition with the rules of the model. -/
def ruleCondition (cond : Condition) : Compile Condition :=
  if r.su then pure cond
  else do
    r.rules.ensureEvaluated model.name
    match r.rules.get model.name with
    | none => return cond
    | some node =>
      return cond.add (← (r.compiler model).compileRules (Compiler.compile calls) node)

/-- The condition of a domain without hierarchy leaves. -/
def whereOf (node : Node) : Compile Condition := do
  let found ← Compiler.compile calls (r.compiler model) node
  let cond ← r.implicitActive model node (Condition.all.add found)
  r.ruleCondition calls model cond

/-- The domain of a search: none is the empty one. -/
def domainJson : Json := if r.domain = .null then .array [] else r.domain

/-- A domain from outside holds no internal operator. -/
def checkDomain : Result Unit :=
  if r.trusted then .ok ()
  else do
    let node ← parse r.domainJson
    rejectInternalOperators node

/-- **The condition of a search.** -/
def buildCondition : Asking Condition := do
  r.checkDomain
  let resolved ← resolveHierarchy r.ctx.registry r.ctx.activeTest model r.domainJson
  let node ← (parse resolved : Result Node)
  r.whereOf calls model node

/-- A condition that Python searches with, and the columns that have to be flushed before. -/
structure CompiledWhere where
  fragment : Predicate
  touched : List (String × String)

/-- The columns among what was recorded. -/
def touchedOf (log : List Event) : List (String × String) :=
  log.filterMap fun
    | .touch model column => some (model, column)
    | _ => none

lemma mem_touchedOf {log : List Event} {model column : String} :
    (model, column) ∈ touchedOf log ↔ Event.touch model column ∈ log := by
  simp only [touchedOf, List.mem_filterMap]
  constructor
  · rintro ⟨e, he, h⟩
    cases e with
    | touch m f =>
        obtain ⟨rfl, rfl⟩ := Prod.mk.inj (Option.some.inj h)
        exact he
    | bypass | subquery | followers => simp at h
  · exact fun h => ⟨_, h, rfl⟩

/-- Whether a domain selects nothing as it stands. -/
def domainIsFalse : Result Bool :=
  if r.domain = .null then .ok false else isFalse <$> parse r.domain

/-- **The condition that Python searches with**, where the database gives these answers. -/
def compileWhere (answers : ∀ q : Question, q.Answer) : Result CompiledWhere := do
  let model ← r.ctx.registry.get r.model
  let (cond, log) ← (r.buildCondition calls model).run answers
  -- after the compilation, which refuses what the search of Python would raise on
  if ← r.domainIsFalse then return { fragment := .const false, touched := [] }
  else return { fragment := cond.toPredicate, touched := touchedOf log }

/-- The ids of the records that a condition selects. -/
def selected (table : String) (p : Predicate) (db : Database) : List (Option Datum) :=
  (Select.from (.col table "id") table table [p]).rows db fun _ _ => none

end SearchRequest

end OdooKernel
