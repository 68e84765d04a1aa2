import OdooKernel.Compile.Compiler
import OdooKernel.Core.Ask
import OdooKernel.Core.Walk
import OdooKernel.Rules.Names

/-!
# Hierarchy leaves

A `child_of` or `parent_of` leaf is resolved against the data before its domain is compiled: its
roots are found, the hierarchy is walked from them, and what the walk found is written into the
domain.

**Asking.**  The resolution is a computation that asks the database (`Asking`): for the roots of some
names, for the descendants of some records, for their ancestors or for the prefixes of their paths.
What it does with the answers does not depend on where they come from, so that whether two
resolutions come to the same is a question of which answers they get (`Core/Ask`).

**The two strategies.**  A model that stores the path of each record is searched by the path, any
other by the ids that a walk finds (`Walked`).  The walk goes one level at a time and ends in every
table, because a record that was met is not met again (`Core/Walk`).

* `hierarchySeeds`, `hierarchyTarget` — the roots of a leaf, and the model they are records of.
* `Walked.terms` — what a walk puts in the place of a leaf.
* `resolveHierarchy` — the leaves of a domain at every level of its sub-domains.
* `answersOf` — the answers of a database; `mem_descendants`, `mem_linkAncestors`.
-/

namespace OdooKernel

/-! ## What is asked -/

/-- What the resolution of a hierarchy leaf asks of the database. -/
inductive Question where
  | parentPaths (table : String) (roots : List ℤ)
  | descendants (table link : String) (roots : List ℤ)
  | pathAncestors (table : String) (roots : List ℤ)
  | linkAncestors (table link : String) (roots : List ℤ)
  | named (target : Model) (names : List Json) (ids : List ℤ) (active : Bool)

/-- The kind of a question's answer. -/
def Question.Answer : Question → Type
  | .parentPaths _ _ => List String
  | .descendants _ _ _ | .pathAncestors _ _ | .linkAncestors _ _ _ => List ℤ
  | .named _ _ _ _ => Compile (List ℤ)

/-- A computation that asks the database, may fail, and records the columns it reads. -/
def Asking (α : Type) : Type := Ask Question Question.Answer (Result (α × List Event))

namespace Asking

variable {α β : Type}

/-- A computation that asks nothing. -/
def ofCompile (x : Compile α) : Asking α := .done x

/-- One computation after another. -/
protected def bind (x : Asking α) (f : α → Asking β) : Asking β :=
  Ask.bind x fun
    | .error e => .done (.error e)
    | .ok (a, log) => Ask.bind (f a) fun result => .done (result.map fun p => (p.1, log ++ p.2))

instance : Monad Asking where
  pure a := ofCompile (pure a)
  bind := Asking.bind

instance : MonadLift Compile Asking := ⟨ofCompile⟩

/-- Ask where to start or how far a walk leads. -/
def asks (q : Question) (f : q.Answer → α) : Asking α := .ask q fun a => .done (.ok (f a, []))

/-- Ask for the records of some names. -/
def asksNamed (target : Model) (names : List Json) (ids : List ℤ) (active : Bool) :
    Asking (List ℤ) :=
  .ask (.named target names ids active) fun (found : Compile (List ℤ)) => .done found

end Asking

/-! ## The walks -/

/-- The disjunction of some leaves: FALSE when there is none. -/
def orLeaves (leaves : List Json) : List Json :=
  if leaves.isEmpty then [falseTerm]
  else List.replicate (leaves.length - 1) (.string "|") ++ leaves

/-- What a walk found: the parent paths that the descendants' begin with, or ids. -/
inductive Walked where
  | Prefixes (prefixes : List String)
  | Ids (ids : List ℤ)
deriving DecidableEq, Repr

/-- What a walk puts in the place of a leaf. -/
def Walked.terms (keyField : String) : Walked → List Json
  | .Prefixes prefixes =>
    let orDomain := orLeaves (prefixes.map fun p => term "parent_path" "=like" (.string p))
    if keyField = "id" then orDomain else [term keyField "any!" (.array orDomain)]
  | .Ids ids => [term keyField "in" (.ints ids)]

/-- The roots of a leaf: ids, and names to search for. -/
def hierarchySeeds : List Json → Result (List ℤ × List Json)
  | [] => .ok ([], [])
  | value :: values => do
    match value with
    | .bool false => hierarchySeeds values
    | .bool true => refuse "True is not a valid hierarchy value"
    | .string _ => do
      let (seeds, names) ← hierarchySeeds values
      return (seeds, value :: names)
    | .number n => do
      let id ← orRefuse "hierarchy value is not a supported integer id" n.asI64
      let id ← Compiler.recordId id
      let (seeds, names) ← hierarchySeeds values
      return (id :: seeds, names)
    | _ => refuse "unsupported hierarchy root"

/-- The comparand of a leaf, as a list of roots. -/
def hierarchyRoots (op : String) (value : Json) : Result (List Json) :=
  match value with
  | .array items => .ok items
  | .bool false => .ok []
  | .number _ | .string _ => .ok [value]
  | _ => refuse ("unsupported " ++ op ++ " value")

/-- The parent field of a model, if it has a usable one. -/
def parentName (model : Model) : Option String :=
  model.parentName.filter fun declared =>
    (model.fields.get? declared).any fun f =>
      f.hasColumn && f.ttype = .Many2one && f.relation = some model.name

/-- Whether the stored paths of a model follow a parent link. -/
def canUseParentPath (model : Model) (parentLink : String) : Bool :=
  model.parentStore && (model.fields.get? "parent_path").any (·.hasColumn)
    && parentName model = some parentLink

/-- Walk a hierarchy from its roots. -/
def walkHierarchy (model : Model) (parentLink : String) (down : Bool) (roots : List ℤ) :
    Asking Walked :=
  if canUseParentPath model parentLink then
    if down then Asking.asks (.parentPaths model.table roots) Walked.Prefixes
    else Asking.asks (.pathAncestors model.table roots) Walked.Ids
  else if down then Asking.asks (.descendants model.table parentLink roots) Walked.Ids
  else Asking.asks (.linkAncestors model.table parentLink roots) Walked.Ids

/-! ## The resolution -/

/-- Paths are read in the registry alone: no other part of a context decides them. -/
def Registry.paths (registry : Registry) : ExprCtx :=
  ExprCtx.plain registry (Security.plain [] []) none

/-- What a leaf is about: the model its roots are records of, the link that is walked, and the field
that is compared with what the walk finds. -/
structure HierarchyTarget where
  target : Model
  parentLink : Option String
  keyField : String
  seedActive : Bool
  seedViaSearch : Bool

section Resolve

variable (registry : Registry) (activeTest : Bool)

/-- The target of a leaf on a field. -/
def fieldTarget (model : Model) (fname op : String) : Result HierarchyTarget := do
  let norm ← registry.paths.normalizePath model (splitDots fname)
  let holder ← registry.paths.pathTarget model norm.dropLast
  match holder.fields.get? (norm.getLast?.getD "") with
  | none => .error (.internal "called `Option::unwrap()` on a `None` value")
  | some f =>
    let comodelName ← orRefuse (op ++ " on non-relational " ++ fname) f.relation
    let seedActive ← if f.ttype = .Many2one then .ok false
      else (·.getD activeTest) <$> f.contextActiveTest
    if comodelName = holder.name ∧ f.ttype ≠ .Many2one then
      refuse (op ++ " on " ++ holder.name ++ "." ++ f.name ++ ": a self-referencing x2many is walked "
        ++ "as its own parent link in Python, which no column expresses")
    else if comodelName = holder.name ∧ norm.length = 1 then
      return { target := holder, parentLink := norm.head?, keyField := "id", seedActive
               seedViaSearch := f.ttype = .Many2many }
    else
      let co ← registry.get comodelName
      return { target := co, parentLink := parentName co, keyField := joinDots norm, seedActive
               seedViaSearch := f.ttype = .Many2many }

/-- The target of a leaf. -/
def hierarchyTarget (model : Model) (fname op : String) : Result HierarchyTarget :=
  if fname = "id" then
    .ok { target := model, parentLink := parentName model, keyField := "id", seedActive := activeTest
          seedViaSearch := false }
  else fieldTarget registry activeTest model fname op

/-- The roots of a leaf as ids: names are searched, and so are the ids that a many2many shows through
a search. -/
def rootIds (h : HierarchyTarget) (seeds : List ℤ) (names : List Json) : Asking (List ℤ) :=
  if !names.isEmpty || (h.seedViaSearch && !seeds.isEmpty) then
    if h.seedViaSearch then Asking.asksNamed h.target names seeds h.seedActive
    else do return seeds ++ (← Asking.asksNamed h.target names [] h.seedActive)
  else pure seeds

/-- **What takes the place of a leaf** on a field of the model's own. -/
def resolveLeaf (model : Model) (op : String) (value : Json) (fname : String) :
    Asking (List Json) := do
  let h ← hierarchyTarget registry activeTest model fname op
  let raw ← hierarchyRoots op value
  let (seeds, names) ← hierarchySeeds raw
  let roots ← rootIds h seeds names
  let parentLink ← (orRefuse (h.target.name ++ " has no parent field for " ++ op) h.parentLink :
    Result String)
  -- the walk reads the parent link, so a pending write to it has to be flushed first
  Compile.touch h.target.name parentLink
  let walked ← walkHierarchy h.target parentLink (op = "child_of") roots
  return walked.terms h.keyField

/-- What takes the place of a leaf on a path: a sub-domain on each of its steps. -/
def resolveDotted (op : String) (value : Json) : Model → List String → Asking (List Json)
  | model, [] => resolveLeaf registry activeTest model op value ""
  | model, [fname] => resolveLeaf registry activeTest model op value fname
  | model, head :: rest => do
    let norm ← registry.paths.normalizePath model [head]
    let comodel ← registry.paths.pathTarget model norm
    let sub ← resolveDotted op value comodel rest
    return [term head "any" (.array sub)]

mutual
/-- **Resolve the hierarchy leaves of a domain.**  What is no list of terms is left as it is. -/
def resolveHierarchy : Model → Json → Asking Json
  | model, .array items => do return .array (← resolveItems model items)
  | _, value => pure value

/-- Resolve one item after the other. -/
def resolveItems : Model → List Json → Asking (List Json)
  | _, [] => pure []
  | model, item :: items => do
    let out ← resolveItem model item
    return out ++ (← resolveItems model items)

/-- Resolve one item. -/
def resolveItem : Model → Json → Asking (List Json)
  | model, .array [.string fname, .string op, value] =>
    if op = "child_of" ∨ op = "parent_of" then
      if fname = "id" then resolveLeaf registry activeTest model op value fname
      else resolveDotted registry activeTest op value model (splitDots fname)
    else if Compiler.isAny op ∧ !isFragment value then do
      let norm ← registry.paths.normalizePath model (splitDots fname)
      let comodel ← registry.paths.pathTarget model norm
      let sub ← resolveHierarchy comodel value
      return [term fname op sub]
    else pure [.array [.string fname, .string op, value]]
  | _, item => pure [item]
end

end Resolve

/-! ## The answers -/

/-- A text by a separator, the empty pieces left out. -/
def pathSegments (path : String) : List (List Char) :=
  (path.toList.splitOn '/').filter (· ≠ [])

namespace Database

variable (db : Database)

/-- What the stored paths of the descendants of some records begin with. -/
def parentPathPrefixes (table : String) (roots : List ℤ) : List String :=
  let rows := (db.rowsWhere table "id" roots).filterMap fun row =>
    (row.int? "id").map fun id => (id, row.text? "parent_path")
  (rows.insertionSort fun a b => a.1 ≤ b.1).filterMap fun row => row.2.map (· ++ "%")

/-- The records whose parent is one of some. -/
def childrenOf (table link : String) (ids : List ℤ) : List ℤ :=
  (db.rowsWhere table link ids).filterMap (·.int? "id")

/-- The parents of some records. -/
def parentsOf (table link : String) (ids : List ℤ) : List ℤ :=
  (db.rowsWhere table "id" ids).filterMap (·.int? link)

/-- **The descendants of some records**, these included. -/
def descendants (table link : String) (roots : List ℤ) : List ℤ :=
  ordered (walkRounds (db.childrenOf table link) ((db.table table).length + 1) roots roots)

/-- **The ancestors of some records**, these included, one parent after the other. -/
def linkAncestors (table link : String) (roots : List ℤ) : List ℤ :=
  ordered (walkRounds (db.parentsOf table link) ((db.table table).length + 1) roots roots)

/-- The ancestors of some records, out of their stored paths. -/
def pathAncestors (table : String) (roots : List ℤ) : List ℤ :=
  ordered ((db.rowsWhere table "id" roots).flatMap fun row =>
    (row.text? "parent_path").elim [] fun path => (pathSegments path).filterMap readInteger)

/-- One record is the parent of another. -/
def IsParent (table link : String) (parent child : ℤ) : Prop :=
  ∃ row ∈ db.table table, row.int? link = some parent ∧ row.int? "id" = some child

variable {db} {table link column : String} {ids roots : List ℤ} {id : ℤ}

lemma mem_rowsWhere {row : Row} :
    row ∈ db.rowsWhere table column ids ↔
      row ∈ db.table table ∧ ∃ x ∈ ids, row.int? column = some x := by
  simp only [rowsWhere, List.mem_filter, Option.any_eq_true, decide_eq_true_eq]
  refine and_congr_right fun _ => ⟨?_, ?_⟩
  · rintro ⟨x, hx, hmem⟩
    exact ⟨x, hmem, hx⟩
  · rintro ⟨x, hmem, hx⟩
    exact ⟨x, hx, hmem⟩

lemma mem_childrenOf :
    id ∈ db.childrenOf table link ids ↔ ∃ parent ∈ ids, db.IsParent table link parent id := by
  simp only [childrenOf, List.mem_filterMap, mem_rowsWhere, IsParent]
  constructor
  · rintro ⟨row, ⟨hrow, parent, hmem, hlink⟩, hid⟩
    exact ⟨parent, hmem, row, hrow, hlink, hid⟩
  · rintro ⟨parent, hmem, row, hrow, hlink, hid⟩
    exact ⟨row, ⟨hrow, parent, hmem, hlink⟩, hid⟩

lemma mem_parentsOf :
    id ∈ db.parentsOf table link ids ↔ ∃ child ∈ ids, db.IsParent table link id child := by
  simp only [parentsOf, List.mem_filterMap, mem_rowsWhere, IsParent]
  constructor
  · rintro ⟨row, ⟨hrow, child, hmem, hid⟩, hlink⟩
    exact ⟨child, hmem, row, hrow, hlink, hid⟩
  · rintro ⟨child, hmem, row, hrow, hlink, hid⟩
    exact ⟨row, ⟨hrow, child, hmem, hid⟩, hlink⟩

/-- **The descendants are the records that a chain of parents joins to a root.** -/
theorem mem_descendants :
    id ∈ db.descendants table link roots ↔
      ∃ r ∈ roots, Relation.ReflTransGen (db.IsParent table link) r id := by
  rw [descendants, mem_ordered]
  refine mem_walkRounds (fun _ _ => mem_childrenOf) ((db.table table).filterMap (·.int? "id"))
    ?_ ?_ roots id
  · rintro parent child ⟨row, hrow, -, hid⟩
    exact List.mem_filterMap.mpr ⟨row, hrow, hid⟩
  · exact Nat.lt_succ_of_le (List.length_filterMap_le _ _)

/-- **The ancestors are the records that a chain of parents joins a root to.** -/
theorem mem_linkAncestors :
    id ∈ db.linkAncestors table link roots ↔
      ∃ r ∈ roots, Relation.ReflTransGen (Function.swap (db.IsParent table link)) r id := by
  rw [linkAncestors, mem_ordered]
  refine mem_walkRounds (fun _ _ => mem_parentsOf) ((db.table table).filterMap (·.int? link))
    ?_ ?_ roots id
  · rintro child parent ⟨row, hrow, hlink, -⟩
    exact List.mem_filterMap.mpr ⟨row, hrow, hlink⟩
  · exact Nat.lt_succ_of_le (List.length_filterMap_le _ _)

end Database

section Names

variable (calls : ℕ) (ctx : ExprCtx) (db : Database)

/-- The domain that the names and ids of a leaf are searched with. -/
def seedsNode (names : List Json) (idSeeds : List ℤ) : Node :=
  let byName := names.map (leafNode "display_name" "ilike")
  let terms := if idSeeds.isEmpty then byName else byName ++ [leafNode "id" "in" (.ints idSeeds)]
  match terms with
  | [one] => one
  | terms => .Or terms

/-- Whether the principal may search for the roots, and with which rules. -/
def seedsRules (scope : Option (RuleSet × Bool)) (target : Model) : Result (RuleSet × Bool) :=
  match scope with
  | none => .ok (RuleSet.empty, true)
  | some (rules, true) => .ok (rules, true)
  | some (rules, false) => do
    match ctx.access with
    | some access =>
      checkReadAccess ctx.security target.name access.uid access.groups access.scopes
    | none => .ok ()
    rules.ensureEvaluated target.name
    return (rules, false)

/-- The roots that a search finds, active ones only where the field asks for them. -/
def seedsCondition (c : Compiler) (target : Model) (names : List Json) (idSeeds : List ℤ)
    (activeFilter : Bool) : Compile Condition := do
  let found ← Compiler.compile calls c (seedsNode names idSeeds)
  let cond := Condition.all.add found
  let cond := match target.activeName.filter fun _ => activeFilter with
    | some active => cond.addPredicate (.isIn (.col target.table active) [.bool true])
    | none => cond
  match (c.rules.get target.name).filter fun _ => !c.su with
  | some node => do return cond.add (← c.compileRules (Compiler.compile calls) node)
  | none => return cond

/-- **The roots of some names and ids, by a search.** -/
def seedsByName (scope : Option (RuleSet × Bool)) (target : Model) (names : List Json)
    (idSeeds : List ℤ) (activeFilter : Bool) : Compile (List ℤ) := do
  let (rules, su) ← seedsRules ctx scope target
  let cond ← seedsCondition calls (Compiler.root ctx target rules su) target names idSeeds
    activeFilter
  let select := Select.from (.col target.table "id") target.table target.table [cond.toPredicate]
  let ids := (select.rows db fun _ _ => none).filterMap fun
    | some (.int id) => some id
    | _ => none
  return ids.insertionSort (· ≤ ·)

end Names

/-- **The answers of a database** to a resolution in some context. -/
def answersOf (calls : ℕ) (ctx : ExprCtx) (db : Database) (scope : Option (RuleSet × Bool)) :
    ∀ q : Question, q.Answer
  | .parentPaths table roots => db.parentPathPrefixes table roots
  | .descendants table link roots => db.descendants table link roots
  | .pathAncestors table roots => db.pathAncestors table roots
  | .linkAncestors table link roots => db.linkAncestors table link roots
  | .named target names ids active => seedsByName calls ctx db scope target names ids active

end OdooKernel
