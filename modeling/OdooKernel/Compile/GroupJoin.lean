import OdooKernel.Compile.Compiler

/-!
# Grouping through a relation

A grouping reads the records of a relational field through a left join.  Which of them it may read
is decided in the condition of the join: the records that it leaves out group as unset.

* `Compiler.many2manyGroupJoin` — the join of the relation table of a many2many.
* `Compiler.many2oneHopJoin` — the join of the comodel of a many2one on the way to a field.
-/

namespace OdooKernel

namespace Compiler

variable (c : Compiler) (again : Compiler → Node → Compile Condition)

/-- The conditions that are not empty, one after the other. -/
def joinParts (parts : List Condition) : Condition :=
  (parts.filter (!·.isEmpty)).foldl Condition.add .all

/-- The alias of what a field is joined through. -/
def joinAlias (field : Field) : String := c.aliasName ++ "__" ++ field.name

/-- The rules of a comodel among the parts of a join, if the join has to carry them. -/
def joinRules (co : Model) (bypassAccess : Option Bool) (sub : Compiler) :
    Compile (List Condition) := do
  match ← sub.comodelRules co bypassAccess with
  | some node =>
    let rules ← sub.compileRules again node
    -- an empty part is left out of the join, be it the empty disjunction
    sub.noteRules co bypassAccess (if rules.isEmpty && !rules.conj then none else some node)
    return [rules]
  | none =>
    sub.noteRules co bypassAccess none
    return []

/-- The records of a comodel that some conditions hold of. -/
def recordsWhere (co : Model) (sub : Compiler) (cond : Condition) : Select :=
  .from (.col sub.aliasName "id") co.table sub.aliasName [cond.toPredicate]

/-- The condition of the join of a relation table, whose columns lead to the record and to the
comodel's. -/
def membersOn (field : Field) (co : Model) (sub : Compiler) (column1 column2 : String)
    (cond : Condition) : Condition :=
  let on := Condition.all.addPredicate
    (.compare .eq (.col c.aliasName "id") (.col (c.joinAlias field) column1))
  if cond.isEmpty then on
  else on.addPredicate (.inSelect (.col (c.joinAlias field) column2) (recordsWhere co sub cond))

/-- **The join of the relation table of a many2many**: the table, its alias, and the condition. -/
def many2manyGroupJoin (field : Field) : Compile (String × String × Condition) :=
  if field.related.isSome || !field.stored then
    liftM (refuse ("grouping " ++ c.model.name ++ "." ++ field.name ++ " needs a stored many2many; "
      ++ "a related one groups through its target in Python") : Result (String × String × Condition))
  else do
    let (rel, column1, column2) ← field.m2mColumns
    let co ← c.ctx.registry.get (← field.comodel)
    let sub := c.subCompiler co (c.subAlias co)
    let own ← sub.fieldDomainCond again field co c.model
    let active ← sub.activeFilter field co none
    let rules ← joinRules again co field.bypassSearchAccess sub
    let cond := joinParts (own :: active :: rules)
    Compile.touch c.model.name field.name
    return (rel, c.joinAlias field, c.membersOn field co sub column1 column2 cond)

/-- **The join of the comodel of a many2one**: the comodel, its alias, and the condition. -/
def many2oneHopJoin (field : Field) : Compile (Model × String × Condition) :=
  if field.companyDependent then
    liftM (refuse ("grouping through " ++ c.model.name ++ "." ++ field.name ++ " joins a "
      ++ "company-dependent many2one, a jsonb column keyed by company that Python unwraps with "
      ++ "_field_to_sql") : Result (Model × String × Condition))
  else if field.ttype ≠ .Many2one ∨ !field.hasColumn then
    liftM (refuse ("grouping through " ++ c.model.name ++ "." ++ field.name ++ " needs a stored "
      ++ "many2one; Python traverses the path with _field_to_sql, which this kernel does not for it") :
      Result (Model × String × Condition))
  else do
    let co ← c.ctx.registry.get (← field.comodel)
    let coalias := c.joinAlias field
    let sub := c.subCompiler co coalias
    let on := Condition.all.addPredicate
      (.compare .eq (.col c.aliasName field.name) (.col coalias "id"))
    let rules ← joinRules again co (some false) sub
    Compile.touch c.model.name field.name
    return (co, coalias, (rules.filter (!·.isEmpty)).foldl Condition.add on)

end Compiler

end OdooKernel
