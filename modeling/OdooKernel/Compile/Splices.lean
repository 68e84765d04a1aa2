import OdooKernel.Compile.Fuel

/-!
# Comparands that are SQL

A comparand that Python resolved is SQL text, which stands in the condition as it is.  Anybody can
write a comparand of that form; the nonce of the request tells which ones are Python's.

**What is followed.**  The comparands that are SQL in an expression, a condition or a subquery are a
list (`Predicate.splices`), and what is said of them is that each carries the nonce of the request
(`Carries`).  There is one lemma for each function of the compiler, at every depth of subqueries: a
subquery is compiled in a place with the same nonce.

* `columnCondition_splices` — a column is compared without any.
* `Compiler.fragmentCondition_carries` — a comparand is spliced with the nonce only.
* **`compile_carries`** — what is spliced into a condition that is compiled carries the nonce.
-/

namespace OdooKernel

/-! ## What is spliced -/

mutual
/-- The comparands that are SQL in an expression. -/
def Expr.splices : Expr → List Json
  | .col _ _ => []
  | .val _ => []
  | .castAs e _ => e.splices
  | .trimScale e => e.splices
  | .translation e _ => e.splices
  | .companyJson e _ _ _ => e.splices
  | .castJson e _ => e.splices
  | .castItem e _ => e.splices
  | .pathTexts e => e.splices
  | .unaccent e => e.splices
  | .select s => s.splices

/-- The comparands that are SQL in a condition. -/
def Predicate.splices : Predicate → List Json
  | .const _ => []
  | .isNull e => e.splices
  | .isNotNull e => e.splices
  | .isIn e _ => e.splices
  | .isNotIn e _ => e.splices
  | .eqAny e _ => e.splices
  | .neAll e _ => e.splices
  | .compare _ a b => a.splices ++ b.splices
  | .like _ _ e pattern => e.splices ++ pattern.splices
  | .inSelect e s => e.splices ++ s.splices
  | .notInSelect e s => e.splices ++ s.splices
  | .and a b => a.splices ++ b.splices
  | .or a b => a.splices ++ b.splices
  | .not a => a.splices
  | .isNotTrue a => a.splices
  | .junction _ members => Predicate.splicesAll members

/-- Those of some conditions. -/
def Predicate.splicesAll : List Predicate → List Json
  | [] => []
  | p :: ps => p.splices ++ Predicate.splicesAll ps

/-- The comparands that are SQL in a subquery. -/
def Select.splices : Select → List Json
  | .from result _ _ wheres => result.splices ++ Predicate.splicesAll wheres
  | .joined result _ _ _ on wheres => result.splices ++ (on.splices ++ Predicate.splicesAll wheres)
  | .fragment value => [value]
end

/-- A comparand carries the nonce of the request. -/
def CarriesNonce (nonce : Option String) (value : Json) : Prop :=
  ∃ s, nonce = some s ∧ (value.at? "$nonce").bind Json.asStr = some s

/-- Some comparands all carry the nonce of the request. -/
def Carries (nonce : Option String) (values : List Json) : Prop :=
  ∀ value ∈ values, CarriesNonce nonce value

section Carries

variable {nonce : Option String}

@[simp] lemma carries_nil : Carries nonce [] := List.forall_mem_nil _

@[simp] lemma carries_append {xs ys : List Json} :
    Carries nonce (xs ++ ys) ↔ Carries nonce xs ∧ Carries nonce ys := List.forall_mem_append

lemma carries_splicesAll_append {ps qs : List Predicate} :
    Carries nonce (Predicate.splicesAll (ps ++ qs)) ↔
      Carries nonce (Predicate.splicesAll ps) ∧ Carries nonce (Predicate.splicesAll qs) := by
  induction ps with
  | nil => simp [Predicate.splicesAll]
  | cons p ps ih => simp [Predicate.splicesAll, ih, and_assoc]

/-- The members of a junction under construction. -/
abbrev Condition.Carries (nonce : Option String) (cond : Condition) : Prop :=
  OdooKernel.Carries nonce (Predicate.splicesAll cond.members)

lemma Condition.carries_toPredicate {cond : Condition} (h : cond.Carries nonce) :
    OdooKernel.Carries nonce cond.toPredicate.splices := h

lemma Condition.Carries.addPredicate {cond : Condition} {p : Predicate} (h : cond.Carries nonce)
    (hp : OdooKernel.Carries nonce p.splices) : (cond.addPredicate p).Carries nonce :=
  carries_splicesAll_append.mpr ⟨h, by simpa [Predicate.splicesAll] using hp⟩

lemma Condition.Carries.add {cond d : Condition} (h : cond.Carries nonce) (hd : d.Carries nonce) :
    (cond.add d).Carries nonce := by
  unfold Condition.add
  split
  · next p hp =>
      refine h.addPredicate ?_
      simpa [Condition.Carries, hp, Predicate.splicesAll] using hd
  · exact h.addPredicate (Condition.carries_toPredicate hd)

end Carries

/-! ## Columns -/

attribute [local simp] Expr.splices Predicate.splices Predicate.splicesAll Select.splices

/-- Whatever is recorded. -/
abbrev Anything : Event → Prop := fun _ => True

section Columns

variable {c : Compiler} {e : Expr} {f : Field}

lemma companyDependentExpr_splices {ctx : ExprCtx} {model : Model} {out : Expr} (he : e.splices = [])
    (h : ctx.companyDependentExpr model f e = .ok out) : out.splices = [] := by
  unfold ExprCtx.companyDependentExpr at h
  dsimp only at h
  split at h
  all_goals
    obtain ⟨fallback, -, h⟩ := bind_eq_ok.mp h
    split at h
    all_goals first
      | (cases h; simp [he])
      | (obtain ⟨name, -, h⟩ := bind_eq_ok.mp h
         obtain ⟨co, -, h⟩ := bind_eq_ok.mp h
         cases h
         simp [he])

lemma fieldExpr_splices (ctx : ExprCtx) (model : Model) (aliasName : String) :
    Ensures (ctx.fieldExpr model f aliasName) (·.splices = []) Anything := by
  unfold ExprCtx.fieldExpr
  split
  · exact .refuse
  · refine Ensures.nothing.bind fun _ _ => ?_
    dsimp only
    split
    · exact .ofResult fun out hout => companyDependentExpr_splices (by simp) hout
    split
    · exact .pure (by simp)
    · exact .pure (by simp)

lemma inOrAny_splices (he : e.splices = []) (op : String) (values : List Datum) :
    (inOrAny e op values).splices = [] := by
  unfold inOrAny
  split_ifs <;> simp [he]

lemma inCondition_splices (he : e.splices = []) {op : String} {values : List Json} {canBeNull : Bool}
    {p : Predicate} (h : inCondition f e op values canBeNull = .ok p) : p.splices = [] := by
  have htest : ∀ {params : List Json} {sql : Option Predicate}, memberTest f e op params = .ok sql →
      ∀ s ∈ sql, s.splices = [] := by
    intro params sql hsql
    unfold memberTest at hsql
    split_ifs at hsql
    · cases hsql
      exact nofun
    · obtain ⟨data, -, hsql⟩ := bind_eq_ok.mp hsql
      cases hsql
      rintro s hs
      obtain rfl := Option.some.inj hs
      exact inOrAny_splices he op data
  unfold inCondition at h
  by_cases hempty : values.isEmpty = true
  · rw [if_pos hempty] at h
    cases h
    simp
  · rw [if_neg hempty] at h
    dsimp only at h
    obtain ⟨sql, hsql, h⟩ := bind_eq_ok.mp h
    have hall := htest hsql
    cases sql with
    | none => split_ifs at h <;> cases h <;> simp [he]
    | some s =>
        have hs := hall s rfl
        split_ifs at h <;> cases h <;> simp [he, hs]

lemma inequalityCondition_splices (he : e.splices = []) {op : String} {value : Json}
    {canBeNull : Bool} {p : Predicate} (h : inequalityCondition f e op value canBeNull = .ok p) :
    p.splices = [] := by
  unfold inequalityCondition at h
  split at h
  · simp at h
  · obtain ⟨comparand, -, h⟩ := bind_eq_ok.mp h
    obtain ⟨v, -, h⟩ := bind_eq_ok.mp h
    cases h
    split_ifs <;> simp [he]

lemma patternText_splices (he : e.splices = []) : (patternText f e).splices = [] := by
  unfold patternText
  split_ifs <;> simp [he]

lemma likeExpr_splices (he : e.splices = []) (hasUnaccent : Bool) (op pattern : String) :
    (likeExpr hasUnaccent op e pattern).splices = [] := by
  unfold likeExpr
  dsimp only
  split_ifs <;> simp [he]

namespace Compiler

lemma trigramConjunct_splices (pattern : List Char) (insensitive : Bool) :
    Ensures (c.trigramConjunct f pattern insensitive) (·.splices = []) Anything := by
  unfold trigramConjunct
  refine Ensures.nothing.bind fun _ _ => .pure ?_
  split_ifs <;> simp

/-- An accelerator, if there is one, splices nothing. -/
abbrev PlainAccelerator (accelerator : Option Predicate) : Prop := ∀ a ∈ accelerator, a.splices = []

lemma trigramAccelerator_splices (op raw : String) :
    Ensures (c.trigramAccelerator f op raw) PlainAccelerator Anything := by
  unfold trigramAccelerator
  split
  · exact .pure nofun
  dsimp only
  split
  · exact .pure nofun
  · exact .map ((trigramConjunct_splices _ _).imp fun a ha b hb => Option.some.inj hb ▸ ha)

lemma trigramAcceleratorForValue_splices (values : List Json) :
    Ensures (c.trigramAcceleratorForValue f values) PlainAccelerator Anything := by
  unfold trigramAcceleratorForValue
  split
  · split
    · exact .pure nofun
    dsimp only
    split
    · exact .pure nofun
    · exact .map ((trigramConjunct_splices _ _).imp fun a ha b hb => Option.some.inj hb ▸ ha)
  · exact .pure nofun

lemma accelerated_splices {accelerator : Option Predicate} (ha : PlainAccelerator accelerator)
    {p : Predicate} (hp : p.splices = []) : (accelerated accelerator p).splices = [] := by
  cases accelerator with
  | none => exact hp
  | some a =>
      have := ha a rfl
      simp [accelerated, this, hp]

lemma likeCondition_splices (he : e.splices = []) (op : String) (value : Json) (canBeNull : Bool) :
    Ensures (c.likeCondition f e op value canBeNull) (·.splices = []) Anything := by
  unfold likeCondition
  split
  · refine (trigramAccelerator_splices _ _).bind fun accelerator ha => .pure ?_
    refine accelerated_splices ha ?_
    have hlike := likeExpr_splices (patternText_splices (f := f) he) c.ctx.registry.hasUnaccent op
    split_ifs <;> simp [hlike, he]
  · exact .refuse

lemma companyDependentGuard_splices (op : String) (values : List Json) {cond : Predicate}
    (hcond : cond.splices = []) :
    Ensures (c.companyDependentGuard f op values cond) (·.splices = []) Anything := by
  unfold companyDependentGuard
  split
  · exact .pure hcond
  split
  · exact .pure hcond
  · exact Ensures.nothing.bind fun _ _ => .pure (by simp [hcond])

lemma operatorCondition_splices (he : e.splices = []) (op : String) (values : List Json) :
    Ensures (c.operatorCondition f e op values) (·.splices = []) Anything := by
  unfold operatorCondition
  split
  · exact .ofResult fun p hp => inCondition_splices he hp
  split
  · exact .refuse
  split
  · exact likeCondition_splices he _ _ _
  split
  · exact .ofResult fun p hp => inequalityCondition_splices he hp
  · exact .refuse

/-- **A column is compared without any SQL of a comparand.** -/
lemma columnCondition_splices (leaf : Leaf) :
    Ensures (c.columnCondition f leaf) (·.splices = []) Anything := by
  unfold columnCondition
  refine .lift fun form _ => ?_
  cases form with
  | none => exact .pure (by simp)
  | some form =>
      obtain ⟨op, values⟩ := form
      refine (fieldExpr_splices _ _ _).bind fun e he => ?_
      have hcompared : (comparedExpr f e).splices = [] := by
        unfold comparedExpr
        split_ifs <;> simp [he]
      refine (operatorCondition_splices hcompared _ _).bind fun cond hcond => ?_
      refine (trigramAcceleratorForValue_splices _).bind fun accelerator ha => ?_
      refine companyDependentGuard_splices _ _ ?_
      split_ifs
      · exact accelerated_splices ha hcond
      · exact hcond

end Compiler

end Columns

/-! ## Subqueries -/

section Subqueries

variable {nonce : Option String}

lemma carries_of_splices {p : Predicate} (h : p.splices = []) : Carries nonce p.splices := by
  simp [h]

lemma Condition.Carries.all : Condition.all.Carries nonce := carries_nil

lemma Condition.Carries.any : Condition.any.Carries nonce := carries_nil

/-- **A comparand that is compiled carries the nonce.** -/
lemma fragmentSelect_eq {ctx : ExprCtx} {value : Json} {select : Select}
    (h : fragmentSelect ctx value = .ok select) :
    select = .fragment value ∧ CarriesNonce ctx.sqlNonce value := by
  unfold fragmentSelect at h
  obtain ⟨expected, hexpected, h⟩ := bind_eq_ok.mp h
  split at h
  · simp at h
  · next hnonce =>
      obtain ⟨code, -, h⟩ := bind_eq_ok.mp h
      obtain ⟨params, -, h⟩ := bind_eq_ok.mp h
      obtain ⟨casts, -, h⟩ := bind_eq_ok.mp h
      obtain ⟨sql, -, h⟩ := bind_eq_ok.mp h
      cases h
      exact ⟨rfl, expected, orRefuse_eq_ok.mp hexpected, not_not.mp hnonce⟩

lemma fragmentSelect_carries {ctx : ExprCtx} {value : Json} {select : Select}
    (h : fragmentSelect ctx value = .ok select) : Carries ctx.sqlNonce select.splices := by
  obtain ⟨rfl, hvalue⟩ := fragmentSelect_eq h
  simpa [Carries] using hvalue

namespace Compiler

variable {c : Compiler} {again : Compiler → Node → Compile Condition}

/-- A compiler is called again with the nonce of the request. -/
abbrev AgainCarries (nonce : Option String) (again : Compiler → Node → Compile Condition) : Prop :=
  ∀ (c : Compiler) (n : Node), c.ctx.sqlNonce = nonce →
    Ensures (again c n) (Condition.Carries nonce) Anything

lemma activeFilter_carries (field : Field) (co : Model) (subNode : Option Node) :
    Ensures (c.activeFilter field co subNode) (Condition.Carries nonce) Anything := by
  unfold activeFilter
  split
  · exact .pure .all
  · refine .lift fun active _ => ?_
    split
    · exact .pure .all
    · refine .lift fun inDomain _ => ?_
      split
      · exact .pure .all
      · exact Ensures.nothing.bind fun _ _ => .pure
          (Condition.Carries.all.addPredicate (carries_of_splices (by simp)))

section Again

variable (hagain : AgainCarries nonce again) (hc : c.ctx.sqlNonce = nonce)

include hagain hc

lemma compileRules_carries (node : Node) :
    Ensures (c.compileRules again node) (Condition.Carries nonce) Anything :=
  Ensures.nothing.bind fun _ _ => hagain _ _ hc

lemma ownDomainCond_carries (field : Field) :
    Ensures (c.ownDomainCond again field) (Condition.Carries nonce) Anything := by
  unfold ownDomainCond
  split
  · exact .pure .all
  · refine .lift fun node _ => ?_
    exact (hagain { c with origin := .fieldDomain } node hc).bind fun own hown =>
      .pure (Condition.Carries.all.add hown)

lemma fieldDomainCond_carries (field : Field) (co owner : Model) :
    Ensures (c.fieldDomainCond again field co owner) (Condition.Carries nonce) Anything := by
  unfold fieldDomainCond
  split
  · exact .refuse
  split
  · exact .refuse
  · refine (ownDomainCond_carries hagain hc field).bind fun own hown => ?_
    split
    · refine .lift fun inverse _ => ?_
      split
      · split
        · refine .lift fun modelField _ => Ensures.nothing.bind fun _ _ => .pure ?_
          exact hown.addPredicate (carries_of_splices (by simp))
        · exact .pure hown
      · exact .pure hown
    · exact .pure hown

omit hc in
lemma restricted_carries (co : Model) (bypassAccess : Option Bool) {sub : Compiler}
    (hsub : sub.ctx.sqlNonce = nonce) {cond : Condition} (hcond : cond.Carries nonce) :
    Ensures (c.restricted again co bypassAccess sub cond) (Condition.Carries nonce) Anything := by
  unfold restricted
  refine .lift fun rules _ => ?_
  cases rules with
  | none => exact Ensures.nothing.bind fun _ _ => .pure hcond
  | some node =>
      refine (compileRules_carries hagain hsub node).bind fun rules hrules => ?_
      exact Ensures.nothing.bind fun _ _ => .pure (hcond.add hrules)

lemma m2oAny_carries (field : Field) (subNode : Node) (positive : Bool)
    (bypassAccess : Option Bool) :
    Ensures (c.m2oAny again field subNode positive bypassAccess)
      (fun p => Carries nonce p.splices) Anything := by
  unfold m2oAny
  refine .lift fun name _ => .lift fun co _ => ?_
  dsimp only
  have hsub : (c.subCompiler co (c.subAlias co)).ctx.sqlNonce = nonce := hc
  refine (hagain _ subNode hsub).bind fun found hfound => ?_
  refine (restricted_carries hagain co bypassAccess hsub (Condition.Carries.all.add hfound)).bind
    fun cond hcond => ?_
  refine (fieldExpr_splices _ _ _).bind fun e he => ?_
  have hpredicate := Condition.carries_toPredicate hcond
  split
  · exact .pure (by simpa [he] using hpredicate)
  split
  · exact .pure (by simpa [he] using hpredicate)
  · exact .pure (by simpa [he] using hpredicate)

omit hagain hc in
lemma ownersSelect_carries (field : Field) (co : Model) (sub : Compiler) {cond : Condition}
    (hcond : cond.Carries nonce) :
    Ensures (c.ownersSelect field co sub cond) (fun s => Carries nonce s.splices) Anything := by
  have hpredicate := Condition.carries_toPredicate hcond
  unfold ownersSelect
  split
  · refine .lift fun inverse _ => Ensures.nothing.bind fun _ _ => .pure ?_
    simpa using hpredicate
  · refine .lift fun columns _ => ?_
    obtain ⟨rel, column1, column2⟩ := columns
    refine Ensures.nothing.bind fun _ _ => .pure ?_
    simpa using hpredicate

lemma addSubNode_carries (field : Field) (co : Model) (applyActive : Bool) {cond : Condition}
    (hcond : cond.Carries nonce) (subNode : Option Node) :
    Ensures (c.addSubNode again field co applyActive cond subNode) (Condition.Carries nonce)
      Anything := by
  cases subNode with
  | none => exact .pure hcond
  | some node =>
      refine (hagain c node hc).bind fun found hfound => ?_
      dsimp only
      split
      · exact (activeFilter_carries _ _ _).bind fun active hactive =>
          .pure ((hcond.add hfound).add hactive)
      · exact .pure (hcond.add hfound)

omit hc in
lemma x2manyCond_carries (field : Field) (co : Model) {sub : Compiler}
    (hsub : sub.ctx.sqlNonce = nonce) (subNode : Option Node) (applyActive : Bool)
    (bypassAccess : Option Bool) :
    Ensures (c.x2manyCond again field co sub subNode applyActive bypassAccess)
      (Condition.Carries nonce) Anything := by
  refine (fieldDomainCond_carries hagain hsub field co c.model).bind fun own hown => ?_
  refine (addSubNode_carries hagain hsub field co applyActive (Condition.Carries.all.add hown)
    subNode).bind fun cond hcond => ?_
  exact restricted_carries hagain co bypassAccess hsub hcond

lemma x2manySubselect_carries (field : Field) (subNode : Option Node)
    (positive applyActive asSudo : Bool) (bypassAccess : Option Bool) :
    Ensures (c.x2manySubselect again field subNode positive applyActive asSudo bypassAccess)
      (fun p => Carries nonce p.splices) Anything := by
  unfold x2manySubselect
  refine .lift fun name _ => .lift fun co _ => ?_
  dsimp only
  refine (x2manyCond_carries hagain field co ?_ subNode applyActive bypassAccess).bind
    fun cond hcond => ?_
  · split_ifs
    · exact hc
    · exact hc
  · refine (ownersSelect_carries field co _ hcond).bind fun select hselect => ?_
    split_ifs
    · exact .pure (by simpa using hselect)
    · exact .pure (by simpa using hselect)

/-! ## Leaves -/

/-- A condition carries the nonce if its splices do. -/
abbrev CarriesAll (nonce : Option String) (p : Predicate) : Prop := Carries nonce p.splices

lemma holdsOneOf_carries (field : Field) (ids : List ℤ) :
    Ensures (c.holdsOneOf again field ids) (fun p => ∀ a ∈ p, CarriesAll nonce a) Anything := by
  unfold holdsOneOf
  split
  · exact .pure nofun
  · exact .map ((x2manySubselect_carries hagain hc _ _ _ _ _ _).imp
      fun a ha b hb => Option.some.inj hb ▸ ha)

lemma holdsNone_carries (field : Field) (matchEmpty : Bool) :
    Ensures (c.holdsNone again field matchEmpty) (fun p => ∀ a ∈ p, CarriesAll nonce a)
      Anything := by
  unfold holdsNone
  split
  · exact .map ((x2manySubselect_carries hagain hc _ _ _ _ _ _).imp
      fun a ha b hb => Option.some.inj hb ▸ ha)
  · exact .pure nofun

lemma x2manyMembers_carries (field : Field) (op : String) (value : Json) :
    Ensures (c.x2manyMembers again field op value) (CarriesAll nonce) Anything := by
  unfold x2manyMembers
  refine .lift fun members _ => ?_
  obtain ⟨ids, matchEmpty⟩ := members
  refine (holdsOneOf_carries hagain hc field ids).bind fun matching hmatching => ?_
  refine (holdsNone_carries hagain hc field matchEmpty).bind fun empty hempty => .pure ?_
  cases matching with
  | none =>
      cases empty with
      | none => exact carries_nil
      | some e => exact hempty e rfl
  | some m =>
      cases empty with
      | none => exact hmatching m rfl
      | some e => exact carries_append.mpr ⟨hempty e rfl, hmatching m rfl⟩

lemma x2manyCondition_carries (field : Field) (leaf : Leaf) :
    Ensures (c.x2manyCondition again field leaf) (CarriesAll nonce) Anything := by
  unfold x2manyCondition
  split
  · refine .lift fun sub _ => Ensures.nothing.bind fun _ _ => ?_
    exact x2manySubselect_carries hagain hc _ _ _ _ _ _
  split
  · exact x2manyMembers_carries hagain hc _ _ _
  split
  · exact .map ((x2manyMembers_carries hagain hc _ _ _).imp fun p hp => hp)
  · exact .refuse

omit hagain hc in
lemma membership_carries (positive notNull : Bool) {e : Expr} (he : e.splices = []) {select : Select}
    (hselect : Carries nonce select.splices) :
    CarriesAll nonce (membership positive notNull e select) := by
  show Carries nonce _
  unfold membership
  split_ifs <;> simpa [he] using hselect

/-- **A comparand that Python resolved is spliced with the nonce of the request.** -/
lemma fragmentCondition_carries (leaf : Leaf) :
    Ensures (c.fragmentCondition again leaf) (CarriesAll nonce) Anything := by
  unfold fragmentCondition
  refine .lift fun positive _ => ?_
  dsimp only
  split
  · refine .lift fun _ _ => .lift fun field _ => .lift fun select hselect => ?_
    have hcarries : Carries nonce select.splices := hc ▸ fragmentSelect_carries hselect
    split
    · split
      · exact .refuse
      · exact x2manySubselect_carries hagain hc _ _ _ _ _ _
    split
    · split
      · exact .refuse
      · exact (fieldExpr_splices _ _ _).bind fun e he => .pure (membership_carries _ _ he hcarries)
    split
    · exact (fieldExpr_splices _ _ _).bind fun e he => .pure (membership_carries _ _ he hcarries)
    · exact .refuse
  · exact .refuse

lemma dotted_carries (path : List String) (op : String) (value : Json) :
    Ensures (c.dotted again path op value) (CarriesAll nonce) Anything := by
  unfold dotted
  refine .lift fun head _ => ?_
  dsimp only
  split
  · exact m2oAny_carries hagain hc _ _ _ _
  · exact x2manySubselect_carries hagain hc _ _ _ _ _ _
  · exact x2manySubselect_carries hagain hc _ _ _ _ _ _
  · exact .refuse

lemma relatedSearch_carries (f : Field) (rel op : String) (value : Json) :
    Ensures (c.relatedSearch again f rel op value) (CarriesAll nonce) Anything := by
  unfold relatedSearch
  refine .lift fun hops _ => .lift fun flags _ => ?_
  dsimp only
  split
  · refine .lift fun node _ => (hagain { c with origin := c.stepsOrigin f hops } _ hc).bind ?_
    exact fun cond hcond => .pure (Condition.carries_toPredicate hcond)
  · refine .lift fun node _ => (hagain { c with origin := c.stepsOrigin f hops } _ hc).bind ?_
    exact fun cond hcond => .pure (Condition.carries_toPredicate hcond)

lemma displayNameCondition_carries (op : String) (value : Json) :
    Ensures (c.displayNameCondition again op value) (CarriesAll nonce) Anything := by
  unfold displayNameCondition
  split
  · exact .refuse
  · exact .lift fun node _ => (hagain c node hc).bind fun cond hcond =>
      .pure (Condition.carries_toPredicate hcond)

lemma m2oNameSearch_carries (field : Field) (op : String) (value : Json) :
    Ensures (c.m2oNameSearch again field op value) (CarriesAll nonce) Anything :=
  .lift fun _ _ => .lift fun _ _ => .lift fun _ _ => m2oAny_carries hagain hc _ _ _ _

omit hagain hc in
lemma followedByPartners_carries (field : Field) (op : String) (value : Json) :
    Ensures (c.followedByPartners field op value) (CarriesAll nonce) Anything := by
  unfold followedByPartners
  split
  · exact .refuse
  · refine .lift fun positive _ => .lift fun ids _ => ?_
    split
    · exact .pure carries_nil
    · refine .lift fun followers _ => ?_
      dsimp only
      split
      · refine Ensures.nothing.bind fun _ _ => .pure ?_
        show Carries nonce _
        split_ifs
        · simpa using carries_of_splices (inOrAny_splices rfl "in" _)
        · simpa using carries_of_splices (inOrAny_splices rfl "in" _)
      · exact .refuse

lemma fieldCondition_carries (field : Field) (leaf : Leaf) :
    Ensures (c.fieldCondition again field leaf) (CarriesAll nonce) Anything := by
  unfold fieldCondition
  dsimp only
  split
  · exact followedByPartners_carries _ _ _
  split
  · exact .refuse
  split
  · exact .refuse
  split
  · exact m2oNameSearch_carries hagain hc _ _ _
  split
  · exact .refuse
  split
  · exact x2manyCondition_carries hagain hc _ _
  split
  · exact .lift fun sub _ => Ensures.nothing.bind fun _ _ => m2oAny_carries hagain hc _ _ _ _
  · exact (columnCondition_splices leaf).imp fun p hp => carries_of_splices hp

lemma plainLeaf_carries (leaf : Leaf) :
    Ensures (c.plainLeaf again leaf) (CarriesAll nonce) Anything := by
  unfold plainLeaf
  dsimp only
  split
  · exact displayNameCondition_carries hagain hc _ _
  · refine .lift fun _ _ => ?_
    split
    · exact relatedSearch_carries hagain hc _ _ _ _
    · refine .lift fun path _ => ?_
      split
      · exact .lift fun field _ => fieldCondition_carries hagain hc _ _
      · exact dotted_carries hagain hc _ _ _

lemma compileLeaf_carries (leaf : Leaf) :
    Ensures (c.compileLeaf again leaf) (CarriesAll nonce) Anything := by
  unfold compileLeaf
  split
  · exact fragmentCondition_carries hagain hc _
  · refine .lift fun rewritten _ => ?_
    cases rewritten with
    | none => exact plainLeaf_carries hagain hc _
    | some n =>
        exact (hagain c n hc).bind fun cond hcond => .pure (Condition.carries_toPredicate hcond)

lemma compileAll_carries : ∀ (children : List Node) {cond : Condition}, cond.Carries nonce →
    Ensures (c.compileAll again cond children) (Condition.Carries nonce) Anything
  | [], _, hcond => .pure hcond
  | n :: ns, _, hcond => (hagain c n hc).bind fun _ hd => compileAll_carries ns (hcond.add hd)

lemma compileNode_carries (fuel : ℕ) (n : Node) :
    Ensures (c.compileNode again fuel n) (Condition.Carries nonce) Anything := by
  unfold compileNode
  split
  · exact .refuse
  · cases n with
    | True => exact .pure .all
    | False => exact .pure .any
    | And children => exact compileAll_carries hagain hc _ .all
    | Or children => exact compileAll_carries hagain hc _ .any
    | Leaf leaf =>
        exact (compileLeaf_carries hagain hc _).bind fun p hp =>
          .pure (Condition.Carries.all.addPredicate hp)
    | Not child =>
        refine .lift fun m _ => ?_
        split
        · refine (hagain c _ hc).bind fun cond hcond => .pure ?_
          exact Condition.Carries.all.addPredicate (Condition.carries_toPredicate hcond)
        · exact hagain c _ hc

end Again

end Compiler

/-- **What is spliced into a condition carries the nonce of the request.** -/
lemma compile_carries (nonce : Option String) :
    ∀ fuel, Compiler.AgainCarries nonce (Compiler.compile fuel) := by
  intro fuel
  induction fuel with
  | zero => exact fun _ _ _ => Ensures.error
  | succ fuel ih => exact fun _ n hc => Compiler.compileNode_carries ih hc fuel n

end Subqueries

end OdooKernel
