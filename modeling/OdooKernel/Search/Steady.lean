import OdooKernel.Compile.Compiler
import OdooKernel.Search.Twins

/-!
# Every column that a condition reads is recorded

The conditions that the compiler builds are worth the same in two databases that agree on what it
records, whatever the construct.  The followers of a record are the exception: their columns are read
and not recorded.

**What is proved of a computation** is that its condition is steady if all that it records is agreed
on (`Given`, with `Twins.Allows`), so that a function whose parts record for themselves needs nothing
more.  There is one lemma for each function of the compiler, and `given_compileNode` has one case for
each shape of a domain.

* `FollowersAgree` — two databases with the same followers.
* `Twins.Placed` — a place of compilation in the registry of two databases.
* **`given_compile`** — the condition of a domain is steady.
-/

namespace OdooKernel

/-- Two databases have the same followers, in the columns that a search of them reads. -/
def FollowersAgree (registry : Registry) (db db' : Database) : Prop :=
  ∀ followers, registry.lookup "mail.followers" = some followers →
    Matched (fun row row' => ∀ column ∈ Compiler.followerColumns, row column = row' column)
      (db.table followers.table) (db'.table followers.table)

namespace Twins

variable (t : Twins)

/-- What a compilation records is agreed on. -/
def Allows : Event → Prop
  | .touch model column => t.read model column
  | .followers _ => FollowersAgree t.registry t.db t.db'
  | .bypass _ _ _ | .subquery _ _ => True

/-- A place of compilation, over a model of the registry. -/
structure Placed (c : Compiler) : Prop where
  registry : c.ctx.registry = t.registry
  known : ∃ k, t.registry.lookup k = some c.model
  aliasName : t.db ≠ t.db' → c.aliasName ≠ "e"

/-- The condition of a place is steady there. -/
abbrev SteadyAt (c : Compiler) (cond : Condition) : Prop :=
  t.SteadyCondition c.model.table c.aliasName cond

/-- The condition of a place is steady there. -/
abbrev SteadyPredicateAt (c : Compiler) (p : Predicate) : Prop :=
  t.Steady c.model.table c.aliasName p

variable {t}

lemma registry_get_eq_ok {registry : Registry} {k : String} {m : Model} :
    registry.get k = .ok m ↔ registry.lookup k = some m := by
  rw [Registry.get, orRefuse_eq_ok]

lemma Placed.isRead {c : Compiler} (hc : t.Placed c) {column : String}
    (h : t.read c.model.name column) : t.IsRead c.model.table column := by
  obtain ⟨k, hk⟩ := hc.known
  exact ⟨k, c.model, hk, rfl, h⟩

lemma Placed.lookup {c : Compiler} (hc : t.Placed c) {k : String} {co : Model}
    (hco : c.ctx.registry.get k = .ok co) : t.registry.lookup k = some co := by
  rwa [hc.registry, registry_get_eq_ok] at hco

lemma subAlias_ne (depth : ℕ) (table : String) : "s" ++ toString depth ++ "_" ++ table ≠ "e" := by
  intro h
  have hlist := congrArg String.toList h
  simp at hlist

lemma Placed.sub {c : Compiler} (hc : t.Placed c) {k : String} {co : Model}
    (hco : c.ctx.registry.get k = .ok co) : t.Placed (c.subCompiler co (c.subAlias co)) where
  registry := hc.registry
  known := ⟨k, hc.lookup hco⟩
  aliasName _ := subAlias_ne _ _

lemma Placed.asSudo {c : Compiler} (hc : t.Placed c) : t.Placed c.asSudo where
  registry := hc.registry
  known := hc.known
  aliasName := hc.aliasName

lemma Placed.atRules {c : Compiler} (hc : t.Placed c) : t.Placed c.atRules where
  registry := hc.registry
  known := hc.known
  aliasName := hc.aliasName

lemma Placed.from {c : Compiler} (hc : t.Placed c) (origin : Origin) :
    t.Placed { c with origin } where
  registry := hc.registry
  known := hc.known
  aliasName := hc.aliasName

/-! ## Columns -/

section Columns

variable {c : Compiler} (hc : t.Placed c)

include hc

lemma steadyExpr_companyDependent {f : Field} {raw e : Expr}
    (hraw : t.SteadyExpr c.model.table c.aliasName raw)
    (h : c.ctx.companyDependentExpr c.model f raw = .ok e) :
    t.SteadyExpr c.model.table c.aliasName e := by
  unfold ExprCtx.companyDependentExpr at h
  dsimp only at h
  split at h
  all_goals
    simp only [bind_eq_ok] at h
    obtain ⟨fallback, -, h⟩ := h
    have hjson := steadyExpr_companyJson hraw (toString c.ctx.companyId) (pgCastType f.ttype) fallback
    split at h
  all_goals first
    | obtain rfl := pure_eq_ok.mp h
      first
        | exact steadyExpr_castJson hjson _
        | exact steadyExpr_castItem hjson _
    | simp only [bind_eq_ok, pure_eq_ok] at h
      obtain ⟨k, -, co, hco, rfl⟩ := h
      exact steadyExpr_recordOf (hc.lookup hco) hc.aliasName (steadyExpr_castItem hjson _)

/-- **The expression that a stored field is read with.** -/
lemma given_fieldExpr (f : Field) :
    Given t.Allows (c.ctx.fieldExpr c.model f c.aliasName)
      (t.SteadyExpr c.model.table c.aliasName) := by
  unfold ExprCtx.fieldExpr
  split
  · exact .refuse
  · refine .emit fun hread => ?_
    have hraw : t.SteadyExpr c.model.table c.aliasName (.col c.aliasName f.name) :=
      steadyExpr_col (hc.isRead hread)
    dsimp only
    split
    · exact .ofResult fun e he => steadyExpr_companyDependent hc hraw he
    · split
      · exact .pure (steadyExpr_translation hraw _)
      · exact .pure hraw

omit hc in
lemma steady_inCondition {f : Field} {e : Expr} {op : String} {values : List Json}
    {canBeNull : Bool} {p : Predicate} (he : t.SteadyExpr c.model.table c.aliasName e)
    (h : inCondition f e op values canBeNull = .ok p) : t.SteadyPredicateAt c p := by
  unfold inCondition at h
  split at h
  · obtain rfl := Except.ok.inj h
    exact steady_const _
  simp only [bind_eq_ok] at h
  obtain ⟨test, htest, h⟩ := h
  have hsteady : ∀ s ∈ test, t.SteadyPredicateAt c s := by
    intro s hs
    unfold memberTest at htest
    split at htest
    · obtain rfl := Except.ok.inj htest
      simp at hs
    · simp only [bind_eq_ok, pure_eq_ok] at htest
      obtain ⟨data, -, rfl⟩ := htest
      obtain rfl := Option.some.inj hs
      exact steady_inOrAny he op data
  have hget : t.SteadyPredicateAt c (test.getD (.const false)) := by
    cases test with
    | none => exact steady_const false
    | some s => exact hsteady s rfl
  split at h
  · split at h
    · obtain rfl := pure_eq_ok.mp h
      exact hget
    · cases test with
      | some s =>
          obtain rfl := pure_eq_ok.mp h
          exact steady_or (hsteady s rfl) (steady_isNull he)
      | none =>
          obtain rfl := pure_eq_ok.mp h
          exact steady_isNull he
  · split at h
    · obtain rfl := pure_eq_ok.mp h
      split
      · exact steady_isNotNull he
      · exact steady_const true
    · cases test with
      | some s =>
          obtain rfl := pure_eq_ok.mp h
          exact hsteady s rfl
      | none => simp at h

omit hc in
lemma steady_inequalityCondition {f : Field} {e : Expr} {op : String} {value : Json}
    {canBeNull : Bool} {p : Predicate} (he : t.SteadyExpr c.model.table c.aliasName e)
    (h : inequalityCondition f e op value canBeNull = .ok p) : t.SteadyPredicateAt c p := by
  unfold inequalityCondition at h
  split at h
  · simp at h
  · simp only [bind_eq_ok, pure_eq_ok] at h
    obtain ⟨comparand, -, v, -, rfl⟩ := h
    have hsql := steady_compare he (orderingOf op) (steadyExpr_val v)
    split
    · exact steady_or hsql (steady_isNull he)
    · exact hsql

lemma given_trigramConjunct (f : Field) (pattern : List Char) (insensitive : Bool) :
    Given t.Allows (c.trigramConjunct f pattern insensitive) (t.SteadyPredicateAt c) := by
  refine .emit fun hread => ?_
  have hleft : t.SteadyExpr c.model.table c.aliasName (.pathTexts (.col c.aliasName f.name)) :=
    steadyExpr_pathTexts (steadyExpr_col (hc.isRead hread))
  dsimp only
  split
  · exact .pure (steady_like (steadyExpr_unaccent hleft) _ _ (steadyExpr_unaccent (steadyExpr_val _)))
  · exact .pure (steady_like hleft _ _ (steadyExpr_val _))

/-- What an index answers, if anything. -/
abbrev SteadyOption (t : Twins) (c : Compiler) (accelerator : Option Predicate) : Prop :=
  ∀ p ∈ accelerator, t.SteadyPredicateAt c p

omit hc in
lemma steadyOption_none : SteadyOption t c none := fun _ hp => by simp at hp

omit hc in
lemma steadyOption_some {p : Predicate} (hp : t.SteadyPredicateAt c p) :
    SteadyOption t c (some p) := by
  intro q hq
  obtain rfl := Option.some.inj hq
  exact hp

omit hc in
lemma steady_accelerated {accelerator : Option Predicate} {p : Predicate}
    (ha : SteadyOption t c accelerator) (hp : t.SteadyPredicateAt c p) :
    t.SteadyPredicateAt c (Compiler.accelerated accelerator p) := by
  cases accelerator with
  | none => exact hp
  | some a => exact steady_and (ha a rfl) hp

lemma given_trigramAccelerator (f : Field) (op raw : String) :
    Given t.Allows (c.trigramAccelerator f op raw) (SteadyOption t c) := by
  unfold Compiler.trigramAccelerator
  split
  · exact .pure steadyOption_none
  · dsimp only
    split
    · exact .pure steadyOption_none
    · exact .map fun p log hp hlog => steadyOption_some (given_trigramConjunct hc f _ _ p log hp hlog)

lemma given_trigramAcceleratorForValue (f : Field) (values : List Json) :
    Given t.Allows (c.trigramAcceleratorForValue f values) (SteadyOption t c) := by
  unfold Compiler.trigramAcceleratorForValue
  split
  · split
    · exact .pure steadyOption_none
    · dsimp only
      split
      · exact .pure steadyOption_none
      · exact .map fun p log hp hlog =>
          steadyOption_some (given_trigramConjunct hc f _ _ p log hp hlog)
  · exact .pure steadyOption_none

omit hc in
lemma steadyExpr_patternText (f : Field) {e : Expr} (he : t.SteadyExpr c.model.table c.aliasName e) :
    t.SteadyExpr c.model.table c.aliasName (patternText f e) := by
  unfold patternText
  split_ifs
  · exact he
  · exact steadyExpr_trimScale he
  · exact steadyExpr_castAs he _

omit hc in
lemma steady_likeExpr (hasUnaccent : Bool) (op pattern : String) {e : Expr}
    (he : t.SteadyExpr c.model.table c.aliasName e) :
    t.SteadyPredicateAt c (likeExpr hasUnaccent op e pattern) := by
  unfold likeExpr
  dsimp only
  split
  · exact steady_like (steadyExpr_unaccent he) _ _ (steadyExpr_unaccent (steadyExpr_val _))
  · exact steady_like he _ _ (steadyExpr_val _)

lemma given_likeCondition (f : Field) {e : Expr} (he : t.SteadyExpr c.model.table c.aliasName e)
    (op : String) (value : Json) (canBeNull : Bool) :
    Given t.Allows (c.likeCondition f e op value canBeNull) (t.SteadyPredicateAt c) := by
  unfold Compiler.likeCondition
  split
  · next raw =>
      refine (given_trigramAccelerator hc f op raw).bind fun accelerator ha => ?_
      have hsql := steady_likeExpr c.ctx.registry.hasUnaccent op (patternOf op raw)
        (steadyExpr_patternText f he)
      refine .pure (steady_accelerated ha ?_)
      split
      · exact steady_or hsql (steady_isNull he)
      · exact hsql
  · exact .refuse

lemma given_companyDependentGuard (f : Field) (op : String) (values : List Json) {p : Predicate}
    (hp : t.SteadyPredicateAt c p) :
    Given t.Allows (c.companyDependentGuard f op values p) (t.SteadyPredicateAt c) := by
  unfold Compiler.companyDependentGuard
  split
  · exact .pure hp
  split
  · exact .pure hp
  · exact .emit fun hread =>
      .pure (steady_and (steady_isNotNull (steadyExpr_col (hc.isRead hread))) hp)

lemma given_operatorCondition (f : Field) {e : Expr}
    (he : t.SteadyExpr c.model.table c.aliasName e) (op : String) (values : List Json) :
    Given t.Allows (c.operatorCondition f e op values) (t.SteadyPredicateAt c) := by
  unfold Compiler.operatorCondition
  split
  · exact .ofResult fun p hp => steady_inCondition he hp
  split
  · exact .refuse
  split
  · exact given_likeCondition hc f he _ _ _
  split
  · exact .ofResult fun p hp => steady_inequalityCondition he hp
  · exact .refuse

/-- **The condition of a leaf on a column.** -/
lemma given_columnCondition (f : Field) (leaf : Leaf) :
    Given t.Allows (c.columnCondition f leaf) (t.SteadyPredicateAt c) := by
  refine .lift fun form _ => ?_
  rcases form with _ | ⟨op, values⟩
  · exact .pure (steady_const true)
  · refine (given_fieldExpr hc f).bind fun e he => ?_
    have hcompared : t.SteadyExpr c.model.table c.aliasName (Compiler.comparedExpr f e) := by
      unfold Compiler.comparedExpr
      split
      · exact steadyExpr_castAs he _
      · exact he
    refine (given_operatorCondition hc f hcompared op values).bind fun p hp => ?_
    refine (given_trigramAcceleratorForValue hc f values).bind fun accelerator ha => ?_
    refine given_companyDependentGuard hc f op values ?_
    split
    · exact steady_accelerated ha hp
    · exact hp

end Columns

/-! ## Subqueries -/

lemma given_touchAll : ∀ reads : List (String × String),
    Given t.Allows (Compiler.touchAll reads) fun _ => True
  | [] => .pure trivial
  | _ :: reads => .emit fun _ => given_touchAll reads

lemma given_activeFilter {c : Compiler} (hc : t.Placed c) (field : Field) (node : Option Node) :
    Given t.Allows (c.activeFilter field c.model node) (t.SteadyAt c) := by
  unfold Compiler.activeFilter
  split
  · exact .pure (steadyCondition_empty true)
  · refine .lift fun own _ => ?_
    split
    · exact .pure (steadyCondition_empty true)
    · refine .lift fun inDomain _ => ?_
      split
      · exact .pure (steadyCondition_empty true)
      · refine .emit fun hread => .pure ?_
        exact (steadyCondition_empty true).addPredicate
          (steady_isIn (steadyExpr_col (hc.isRead hread)) _)

section Again

variable {c : Compiler} (hc : t.Placed c) {again : Compiler → Node → Compile Condition}
  (hagain : ∀ c, t.Placed c → ∀ n, Given t.Allows (again c n) (t.SteadyAt c))

include hc hagain

lemma given_compileRules (node : Node) :
    Given t.Allows (c.compileRules again node) (t.SteadyAt c) :=
  (given_touchAll _).bind fun _ _ => hagain _ hc.atRules node

lemma given_ownDomainCond (field : Field) :
    Given t.Allows (c.ownDomainCond again field) (t.SteadyAt c) := by
  unfold Compiler.ownDomainCond
  split
  · exact .pure (steadyCondition_empty true)
  · exact .lift fun n _ => (hagain _ (hc.from .fieldDomain) n).bind fun cond hcond =>
      .pure ((steadyCondition_empty true).add hcond)

/-- The inverse of a generic many2one is read with the model that it leads to. -/
lemma given_fieldDomainCond (field : Field) (owner : Model) :
    Given t.Allows (c.fieldDomainCond again field c.model owner) (t.SteadyAt c) := by
  unfold Compiler.fieldDomainCond
  split
  · exact .refuse
  split
  · exact .refuse
  refine (given_ownDomainCond hc hagain field).bind fun own hown => ?_
  split
  · refine .lift fun inverse _ => ?_
    split
    · split
      · refine .lift fun modelField _ => .emit fun hread => .pure (hown.addPredicate ?_)
        exact steady_compare (steadyExpr_col (hc.isRead hread)) _ (steadyExpr_val _)
      · exact .pure hown
    · exact .pure hown
  · exact .pure hown

/-- A subquery's condition stays steady with the rules of its comodel. -/
lemma given_restricted (outer : Compiler) (bypassAccess : Option Bool) {cond : Condition}
    (hcond : t.SteadyAt c cond) :
    Given t.Allows (outer.restricted again c.model bypassAccess c cond) (t.SteadyAt c) := by
  have hnote : ∀ rules, Given t.Allows (outer.noteRules c.model bypassAccess rules) fun _ => True :=
    fun _ => .any
  refine .lift fun rules _ => ?_
  cases rules with
  | none => exact (hnote none).bind fun _ _ => .pure hcond
  | some node =>
      refine (given_compileRules hc hagain node).bind fun rules hrules => ?_
      exact (hnote (some node)).bind fun _ _ => .pure (hcond.add hrules)

lemma given_addSubNode (field : Field) (applyActive : Bool) {cond : Condition}
    (hcond : t.SteadyAt c cond) (subNode : Option Node) :
    Given t.Allows (c.addSubNode again field c.model applyActive cond subNode) (t.SteadyAt c) := by
  cases subNode with
  | none => exact .pure hcond
  | some node =>
      refine (hagain _ hc node).bind fun found hfound => ?_
      dsimp only
      split
      · exact (given_activeFilter hc field (some node)).bind fun active hactive =>
          .pure ((hcond.add hfound).add hactive)
      · exact .pure (hcond.add hfound)

lemma given_x2manyCond (outer : Compiler) (field : Field) (subNode : Option Node)
    (applyActive : Bool) (bypassAccess : Option Bool) :
    Given t.Allows (outer.x2manyCond again field c.model c subNode applyActive bypassAccess)
      (t.SteadyAt c) := by
  refine (given_fieldDomainCond hc hagain field outer.model).bind fun own hown => ?_
  refine (given_addSubNode hc hagain field applyActive
    ((steadyCondition_empty true).add hown) subNode).bind fun cond hcond => ?_
  exact given_restricted hc hagain c bypassAccess hcond

omit hagain in
/-- The owners of the records of a subquery: what leads to them is read. -/
lemma given_ownersSelect {field : Field} {name : String}
    (hfield : c.model.fields.get? name = some field) {k : String} {co : Model}
    (hco : t.registry.lookup k = some co) {sub : Compiler} (hmodel : sub.model = co)
    (halias : sub.aliasName = c.subAlias co) {cond : Condition} (hcond : t.SteadyAt sub cond) :
    Given t.Allows (c.ownersSelect field co sub cond)
      (t.SteadySelect c.model.table c.aliasName) := by
  subst hmodel
  have hwhere := hcond.toPredicate
  unfold Compiler.ownersSelect
  split
  · refine .lift fun inverse _ => .emit fun hread => .pure ?_
    have hinverse : t.SteadyExpr sub.model.table sub.aliasName (.col sub.aliasName inverse) :=
      steadyExpr_col ⟨k, sub.model, hco, rfl, hread⟩
    refine steadySelect_from hco hinverse fun p hp => ?_
    rcases List.mem_cons.mp hp with rfl | hp
    · exact steady_isNotNull hinverse
    · rw [List.mem_singleton.mp hp]
      exact hwhere
  · refine .lift fun ⟨rel, column1, column2⟩ hrel => .emit fun hread => .pure ?_
    obtain ⟨k', hk'⟩ := hc.known
    have hne : t.db ≠ t.db' → rel ≠ sub.aliasName := by
      intro hdb
      rw [halias]
      exact t.relations hdb k' c.model name field rel column1 column2 hk' hfield hrel _ _
    refine steadySelect_joined hk' hfield hrel hread hco hne fun p hp => ?_
    rw [List.mem_singleton.mp hp]
    exact hwhere

/-- **The records whose many2one leads to a record of a domain.** -/
lemma given_m2oAny (field : Field) (subNode : Node) (positive : Bool) (bypassAccess : Option Bool) :
    Given t.Allows (c.m2oAny again field subNode positive bypassAccess) (t.SteadyPredicateAt c) := by
  refine .lift fun k _ => .lift fun co hco => ?_
  have hsub := hc.sub hco
  refine (hagain _ hsub subNode).bind fun found hfound => ?_
  refine (given_restricted hsub hagain c bypassAccess
    ((steadyCondition_empty true).add hfound)).bind fun cond hcond => ?_
  refine (given_fieldExpr hc field).bind fun e he => ?_
  have hselect : t.SteadySelect c.model.table c.aliasName
      (.from (.col (c.subAlias co) "id") co.table (c.subAlias co) [cond.toPredicate]) := by
    refine steadySelect_from (hc.lookup hco) steadyExpr_id fun p hp => ?_
    rw [List.mem_singleton.mp hp]
    exact hcond.toPredicate
  split
  · exact .pure (steady_inSelect he hselect)
  split
  · exact .pure (steady_or (steady_isNull he) (steady_notInSelect he hselect))
  · exact .pure (steady_notInSelect he hselect)

/-- **The records whose x2many holds a record of a domain.** -/
lemma given_x2manySubselect {field : Field} {name : String}
    (hfield : c.model.fields.get? name = some field) (subNode : Option Node)
    (positive applyActive asSudo : Bool) (bypassAccess : Option Bool) :
    Given t.Allows (c.x2manySubselect again field subNode positive applyActive asSudo bypassAccess)
      (t.SteadyPredicateAt c) := by
  refine .lift fun k _ => .lift fun co hco => ?_
  have hplain := hc.sub hco
  have hsub : ∀ sub, t.Placed sub → sub.model = co → sub.aliasName = c.subAlias co →
      Given t.Allows (do
        let cond ← c.x2manyCond again field co sub subNode applyActive bypassAccess
        let select ← c.ownersSelect field co sub cond
        let id := Expr.col c.aliasName "id"
        return if positive then .inSelect id select else .not (.inSelect id select))
        (t.SteadyPredicateAt c) := by
    rintro sub hplaced rfl halias
    refine (given_x2manyCond hplaced hagain c field subNode applyActive bypassAccess).bind
      fun cond hcond => ?_
    refine (given_ownersSelect hc hfield (hc.lookup hco) rfl halias hcond).bind fun select hselect => .pure ?_
    split
    · exact steady_inSelect steadyExpr_id hselect
    · exact steady_not (steady_inSelect steadyExpr_id hselect)
  dsimp only
  split
  · exact hsub _ hplain.asSudo rfl rfl
  · exact hsub _ hplain rfl rfl

section Field

variable {field : Field} {name : String} (hfield : c.model.fields.get? name = some field)

include hfield

lemma given_x2manyMembers (op : String) (value : Json) :
    Given t.Allows (c.x2manyMembers again field op value) (t.SteadyPredicateAt c) := by
  refine .lift fun ⟨ids, matchEmpty⟩ _ => ?_
  have hone : Given t.Allows (c.holdsOneOf again field ids) (SteadyOption t c) := by
    unfold Compiler.holdsOneOf
    split
    · exact .pure steadyOption_none
    · exact .map fun p log hp hlog => steadyOption_some
        (given_x2manySubselect hc hagain hfield _ _ _ _ _ p log hp hlog)
  have hnone : Given t.Allows (c.holdsNone again field matchEmpty) (SteadyOption t c) := by
    unfold Compiler.holdsNone
    split
    · exact .map fun p log hp hlog => steadyOption_some
        (given_x2manySubselect hc hagain hfield _ _ _ _ _ p log hp hlog)
    · exact .pure steadyOption_none
  refine hone.bind fun matching hmatching => hnone.bind fun empty hempty => .pure ?_
  rcases matching with _ | m <;> rcases empty with _ | e
  · exact steady_const false
  · exact hempty e rfl
  · exact hmatching m rfl
  · exact steady_or (hempty e rfl) (hmatching m rfl)

/-- **The condition of a leaf on an x2many field.** -/
lemma given_x2manyCondition (leaf : Leaf) :
    Given t.Allows (c.x2manyCondition again field leaf) (t.SteadyPredicateAt c) := by
  unfold Compiler.x2manyCondition
  split
  · exact .lift fun sub _ => Given.any.bind fun _ _ =>
      given_x2manySubselect hc hagain hfield _ _ _ _ _
  split
  · exact given_x2manyMembers hc hagain hfield _ _
  split
  · exact .map fun p log hp hlog => steady_not
      (given_x2manyMembers hc hagain hfield _ _ p log hp hlog)
  · exact .refuse

omit hagain hfield in
/-- **The records that some partners follow**: nothing is recorded of what it reads, so the followers
have to be the same. -/
lemma given_followedByPartners (field : Field) (op : String) (value : Json) :
    Given t.Allows (c.followedByPartners field op value) (t.SteadyPredicateAt c) := by
  unfold Compiler.followedByPartners
  split
  · exact .refuse
  refine .lift fun positive _ => .lift fun ids _ => ?_
  split
  · exact .pure (steady_const _)
  refine .lift fun followers hfollowers => ?_
  split
  · refine .emit fun hagree => ?_
    have hmatched := hagree followers (hc.lookup hfollowers)
    set sub := c.subAlias followers with hsub
    have hselect : t.SteadySelect c.model.table c.aliasName
        (.from (.col sub "res_id") followers.table sub
          [.compare .eq (.col sub "res_model") (.val (.text c.model.name)),
            inOrAny (.col sub "partner_id") "in" (ids.map .int)]) := by
      intro env env' _ y
      simp only [Select.rows, Predicate.evalAll]
      refine hmatched.mem_filterMap_iff (fun row row' hrow => ?_) y
      have hcol : ∀ column ∈ Compiler.followerColumns,
          (Expr.col sub column).eval t.db (env.bind sub row)
            = (Expr.col sub column).eval t.db' (env'.bind sub row') := by
        intro column hcolumn
        simpa [Expr.eval, Env.bind] using hrow column hcolumn
      have hmodel := hcol "res_model" (by decide)
      have hid := hcol "res_id" (by decide)
      have hpartner := hcol "partner_id" (by decide)
      refine selected_congr ?_ hid
      simp only [Expr.eval] at hmodel hpartner
      unfold inOrAny
      split_ifs <;> simp only [Predicate.eval, hmodel, hpartner, Expr.eval, t.agree.server]
    have hfollowed := steady_inSelect steadyExpr_id hselect
    dsimp only
    split
    · exact .pure hfollowed
    · exact .pure (steady_not hfollowed)
  · exact .refuse

/-- The condition of a leaf on a field of the model's own. -/
lemma given_fieldCondition (leaf : Leaf) :
    Given t.Allows (c.fieldCondition again field leaf) (t.SteadyPredicateAt c) := by
  unfold Compiler.fieldCondition
  dsimp only
  split
  · exact given_followedByPartners hc _ _ _
  split
  · exact .refuse
  split
  · exact .refuse
  split
  · exact .lift fun _ _ => .lift fun _ _ => .lift fun _ _ => given_m2oAny hc hagain _ _ _ _
  split
  · exact .refuse
  split
  · exact given_x2manyCondition hc hagain hfield leaf
  split
  · exact .lift fun _ _ => Given.any.bind fun _ _ => given_m2oAny hc hagain _ _ _ _
  · exact given_columnCondition hc _ _

end Field

/-! ## Leaves -/

omit hc hagain in
lemma steady_membership {positive notNull : Bool} {e : Expr} {s : Select}
    (he : t.SteadyExpr c.model.table c.aliasName e)
    (hs : t.SteadySelect c.model.table c.aliasName s) :
    t.SteadyPredicateAt c (Compiler.membership positive notNull e s) := by
  unfold Compiler.membership
  split_ifs
  · exact steady_inSelect he hs
  · exact steady_notInSelect he hs
  · exact steady_or (steady_isNull he) (steady_notInSelect he hs)

omit hc hagain in
lemma steadySelect_of_fragment {ctx : ExprCtx} {value : Json} {s : Select}
    (h : fragmentSelect ctx value = .ok s) :
    t.SteadySelect c.model.table c.aliasName s := by
  simp only [fragmentSelect, bind_eq_ok] at h
  obtain ⟨expected, -, h⟩ := h
  split at h
  · simp at h
  · simp only [bind_eq_ok, pure_eq_ok] at h
    obtain ⟨code, -, params, -, casts, -, sql, -, rfl⟩ := h
    exact steadySelect_fragment value

lemma given_fragmentCondition (leaf : Leaf) :
    Given t.Allows (c.fragmentCondition again leaf) (t.SteadyPredicateAt c) := by
  refine .lift fun positive _ => ?_
  dsimp only
  split
  · refine .lift fun _ _ => .lift fun field hfield => .lift fun select hselect => ?_
    rw [monadLift_self, orRefuse_eq_ok] at hfield
    have hs : t.SteadySelect c.model.table c.aliasName select := steadySelect_of_fragment hselect
    split
    · split
      · exact .refuse
      · exact given_x2manySubselect hc hagain hfield _ _ _ _ _
    split
    · split
      · exact .refuse
      · exact (given_fieldExpr hc field).bind fun e he => .pure (steady_membership he hs)
    split
    · exact (given_fieldExpr hc field).bind fun e he => .pure (steady_membership he hs)
    · exact .refuse
  · exact .refuse

/-- The condition on the end of a path. -/
lemma given_dotted (path : List String) (op : String) (value : Json) :
    Given t.Allows (c.dotted again path op value) (t.SteadyPredicateAt c) := by
  refine .lift fun head hhead => ?_
  rw [monadLift_self, orRefuse_eq_ok] at hhead
  dsimp only
  split
  · exact given_m2oAny hc hagain _ _ _ _
  · exact given_x2manySubselect hc hagain hhead _ _ _ _ _
  · exact given_x2manySubselect hc hagain hhead _ _ _ _ _
  · exact .refuse

lemma given_relatedSearch (f : Field) (rel op : String) (value : Json) :
    Given t.Allows (c.relatedSearch again f rel op value) (t.SteadyPredicateAt c) := by
  refine .lift fun hops _ => .lift fun flags _ => ?_
  dsimp only
  split
  all_goals
    refine .lift fun node _ => (hagain _ (hc.from _) _).bind fun cond hcond => .pure ?_
    exact hcond.toPredicate

lemma given_displayNameCondition (op : String) (value : Json) :
    Given t.Allows (c.displayNameCondition again op value) (t.SteadyPredicateAt c) := by
  unfold Compiler.displayNameCondition
  split
  · exact .refuse
  · exact .lift fun node _ => (hagain _ hc node).bind fun cond hcond => .pure hcond.toPredicate

lemma given_plainLeaf (leaf : Leaf) :
    Given t.Allows (c.plainLeaf again leaf) (t.SteadyPredicateAt c) := by
  unfold Compiler.plainLeaf
  dsimp only
  split
  · exact given_displayNameCondition hc hagain _ _
  · refine .lift fun _ _ => ?_
    split
    · exact given_relatedSearch hc hagain _ _ _ _
    · refine .lift fun path _ => ?_
      split
      · refine .lift fun field hfield => ?_
        rw [monadLift_self, orRefuse_eq_ok] at hfield
        exact given_fieldCondition hc hagain hfield leaf
      · exact given_dotted hc hagain _ _ _

lemma given_compileLeaf (leaf : Leaf) :
    Given t.Allows (c.compileLeaf again leaf) (t.SteadyPredicateAt c) := by
  unfold Compiler.compileLeaf
  split
  · exact given_fragmentCondition hc hagain leaf
  · refine .lift fun rewritten _ => ?_
    cases rewritten with
    | none => exact given_plainLeaf hc hagain leaf
    | some n => exact (hagain _ hc n).bind fun cond hcond => .pure hcond.toPredicate

lemma given_compileAll : ∀ (children : List Node) {cond : Condition}, t.SteadyAt c cond →
    Given t.Allows (c.compileAll again cond children) (t.SteadyAt c)
  | [], _, hcond => .pure hcond
  | n :: ns, _, hcond => (hagain _ hc n).bind fun _ hfirst => given_compileAll ns (hcond.add hfirst)

/-- **One call of the compiler**: one case for each construct of a domain. -/
lemma given_compileNode (fuel : ℕ) (n : Node) :
    Given t.Allows (c.compileNode again fuel n) (t.SteadyAt c) := by
  unfold Compiler.compileNode
  split
  · exact .refuse
  · cases n with
    | True => exact .pure (steadyCondition_empty true)
    | False => exact .pure (steadyCondition_empty false)
    | And children => exact given_compileAll hc hagain children (steadyCondition_empty true)
    | Or children => exact given_compileAll hc hagain children (steadyCondition_empty false)
    | Leaf leaf =>
        exact (given_compileLeaf hc hagain leaf).bind fun p hp =>
          .pure ((steadyCondition_empty true).addPredicate hp)
    | Not child =>
        refine .lift fun negated _ => ?_
        split
        · exact (hagain _ hc _).bind fun cond hcond =>
            .pure ((steadyCondition_empty true).addPredicate (steady_isNotTrue hcond.toPredicate))
        · exact hagain _ hc _

end Again

/-- **The condition of a domain is steady**, if all that its compilation records is agreed on. -/
lemma given_compile (calls : ℕ) : ∀ {c : Compiler}, t.Placed c → ∀ n,
    Given t.Allows (Compiler.compile calls c n) (t.SteadyAt c) := by
  induction calls with
  | zero =>
      intro c _ n
      show Given t.Allows (Compile.ofResult outOfCalls) _
      exact .ofResult fun _ h => by simp [outOfCalls] at h
  | succ calls ih => exact fun hc n => given_compileNode hc (fun _ hc n => ih hc n) calls n

end Twins

end OdooKernel
