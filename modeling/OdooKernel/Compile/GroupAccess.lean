import OdooKernel.Compile.Fuel

/-!
# What a group join admits

A grouping reads the records of a relational field through a left join, and the rules of their model
stand in the condition of the join.  It leaves out the parts that are empty: the empty conjunction,
which is true of every record, and the empty disjunction, which is true of none.

**What the join should ensure.**  `MembersRestricted` and `HopRestricted`: a join admits the linked
records that satisfy the field's domain, its filter on active records and the rules, and no others.

**Where it does.**  Rules are compiled to the empty disjunction exactly where they are the constant
FALSE (`Compiler.IsConstantFalse`, `Compiles.isEmptyAny_iff`), and leaving these out is the only way
in which a join admits more.  So the condition is on the rules, or there is no record that they would
keep out.

* `membersOn_holds_iff_parts` — a join admits a linked record exactly when the parts that it kept
  hold of it.
* **`group_joins_restrict_iff`** — when the joins admit the records that satisfy the rules only.
* `group_join_widens` — a model that nobody may read is read by a grouping.
-/

namespace OdooKernel

/-! ## The empty disjunction -/

/-- A disjunction without members, as it is written. -/
def Node.emptyDisjunction : Node → Bool
  | .False => true
  | .Or children => children.isEmpty
  | _ => false

/-- A junction without members that is false. -/
def Condition.isEmptyAny (cond : Condition) : Bool := cond.isEmpty && !cond.conj

namespace Compiler

variable {c : Compiler} {again : Compiler → Node → Compile Condition} {fuel : ℕ}

/-- The domain is the constant FALSE, once its negation is pushed down. -/
def IsConstantFalse (c : Compiler) : Node → Prop
  | .Not n => ∃ m, c.Negates n m ∧ m.emptyDisjunction
  | n => n.emptyDisjunction

lemma compileAll_shape : ∀ {children : List Node} {cond out : Condition},
    Yields (c.compileAll again cond children) out →
      out.conj = cond.conj ∧ out.members.length = cond.members.length + children.length
  | [], cond, out, h => by
      rw [compileAll, yields_pure] at h
      subst h
      exact ⟨rfl, rfl⟩
  | n :: ns, cond, out, h => by
      rw [compileAll, yields_bind] at h
      obtain ⟨first, -, hrest⟩ := h
      obtain ⟨hconj, hlength⟩ := compileAll_shape hrest
      rw [Condition.add_conj] at hconj
      rw [Condition.add_members_length] at hlength
      refine ⟨hconj, ?_⟩
      rw [hlength, List.length_cons]
      omega

/-- A domain without a negation is compiled to the empty disjunction exactly when it is one. -/
lemma compileNode_isEmptyAny {n : Node} (hn : ∀ m, n ≠ .Not m) {cond : Condition}
    (h : Yields (c.compileNode again fuel n) cond) :
    cond.isEmptyAny = n.emptyDisjunction := by
  unfold compileNode at h
  split at h
  · simp at h
  · cases n with
    | True =>
        simp only [yields_pure] at h
        subst h
        rfl
    | False =>
        simp only [yields_pure] at h
        subst h
        rfl
    | And children =>
        obtain ⟨hconj, -⟩ := compileAll_shape h
        simp [Condition.isEmptyAny, hconj, Condition.all, Node.emptyDisjunction]
    | Or children =>
        obtain ⟨hconj, hlength⟩ := compileAll_shape h
        cases children with
        | nil => simp_all [Condition.isEmptyAny, Condition.isEmpty, Condition.any,
            Node.emptyDisjunction]
        | cons n ns =>
            have : cond.members ≠ [] := by
              intro hnil
              simp [hnil] at hlength
            simp [Condition.isEmptyAny, Condition.isEmpty, this, Node.emptyDisjunction]
    | Leaf leaf =>
        simp only [yields_bind, yields_pure] at h
        obtain ⟨p, -, rfl⟩ := h
        rfl
    | Not m => exact absurd rfl (hn m)

lemma isConstantFalse_of_plain {n : Node} (hn : ∀ m, n ≠ .Not m) :
    c.IsConstantFalse n ↔ n.emptyDisjunction = true := by
  cases n with
  | Not m => exact absurd rfl (hn m)
  | _ => rfl

/-- **The domains that are compiled to the empty disjunction.** -/
lemma Compiles.isEmptyAny_iff {n : Node} {cond : Condition} (h : c.Compiles n cond) :
    cond.isEmptyAny = true ↔ c.IsConstantFalse n := by
  by_cases hn : ∃ m, n = .Not m
  · obtain ⟨m, rfl⟩ := hn
    rcases h.not_cases with ⟨kept, k, hneg, -, rfl⟩ | ⟨negated, hneg, hplain, hcond⟩
    · refine iff_of_false (by simp [Condition.isEmptyAny, Condition.isEmpty]) ?_
      rintro ⟨m', hneg', hempty⟩
      obtain rfl := hneg.unique hneg'
      simp [Node.emptyDisjunction] at hempty
    · obtain ⟨-, fuel, hcond⟩ := hcond.node
      rw [compileNode_isEmptyAny hplain hcond]
      constructor
      · exact fun hempty => ⟨negated, hneg, hempty⟩
      · rintro ⟨m', hneg', hempty⟩
        rwa [hneg.unique hneg']
  · push Not at hn
    obtain ⟨-, fuel, h⟩ := h.node
    rw [compileNode_isEmptyAny hn h, isConstantFalse_of_plain hn]

/-! ## The parts of a join -/

/-- A junction that is a conjunction. -/
abbrev Conjunctive (cond : Condition) : Prop := cond.conj = true

lemma ownDomainCond_conj {field : Field} :
    Ensures (c.ownDomainCond again field) Conjunctive fun _ => True := by
  unfold ownDomainCond
  split
  · exact .pure rfl
  · exact .lift fun n _ => Ensures.nothing.bind fun cond _ => .pure (Condition.add_conj _ _)

lemma fieldDomainCond_conj {field : Field} {co owner : Model} :
    Ensures (c.fieldDomainCond again field co owner) Conjunctive fun _ => True := by
  unfold fieldDomainCond
  split
  · exact .refuse
  split
  · exact .refuse
  refine ownDomainCond_conj.bind fun own hown => ?_
  split
  · refine .lift fun inverse _ => ?_
    split
    · split
      · exact .lift fun modelField _ => Ensures.nothing.bind fun _ _ => .pure hown
      · exact .pure hown
    · exact .pure hown
  · exact .pure hown

lemma activeFilter_conj {field : Field} {co : Model} {node : Option Node} :
    Ensures (c.activeFilter field co node) Conjunctive fun _ => True := by
  unfold activeFilter
  split
  · exact .pure rfl
  · refine .lift fun own _ => ?_
    split
    · exact .pure rfl
    · refine .lift fun inDomain _ => ?_
      split
      · exact .pure rfl
      · exact Ensures.nothing.bind fun _ _ => .pure rfl

/-- What a comodel's subquery carries, when it does not bypass the rules. -/
lemma comodelRules_eq_get {co : Model} {bypassAccess : Option Bool} {rules : Option Node}
    (h : c.comodelRules co bypassAccess = .ok rules) (hsu : c.su = false)
    (hbypass : bypassAccess ≠ some true) : rules = c.rules.get co.name := by
  unfold comodelRules at h
  split at h
  · simp at h
  split at h
  · next hsudo => simp [hsu, hbypass] at hsudo
  split at h
  · simp at h
  simp only [bind_eq_ok] at h
  obtain ⟨-, -, -, -, h⟩ := h
  split at h
  · simp at h
  · exact (pure_eq_ok.mp h).symm

/-- The rules among the parts of a join. -/
lemma joinRules_cases {co : Model} {bypassAccess : Option Bool} {parts : List Condition}
    (h : Yields (joinRules (compile fuel) co bypassAccess c) parts) (hsu : c.su = false)
    (hbypass : bypassAccess ≠ some true) :
    (c.rules.get co.name = none ∧ parts = []) ∨
      ∃ node cond, c.rules.get co.name = some node ∧ c.atRules.Compiles node cond ∧
        parts = [cond] := by
  simp only [joinRules, liftM_eq_ofResult, yields_bind, yields_ofResult] at h
  obtain ⟨rules, hrules, h⟩ := h
  have hget := comodelRules_eq_get hrules hsu hbypass
  cases rules with
  | none =>
      simp only [yields_bind, yields_pure] at h
      obtain ⟨-, -, rfl⟩ := h
      exact .inl ⟨hget.symm, rfl⟩
  | some node =>
      simp only [yields_bind, yields_pure, compileRules] at h
      obtain ⟨cond, ⟨-, -, hcond⟩, -, -, rfl⟩ := h
      exact .inr ⟨node, cond, hget.symm, ⟨fuel, hcond⟩, rfl⟩

lemma joinParts_holds {parts : List Condition} {db : Database} {env : Env} :
    (joinParts parts).Holds db env ↔ ∀ part ∈ parts, part.isEmpty = false → part.Holds db env := by
  rw [joinParts, holds_foldl_add rfl]
  simp only [holds_all, true_and, List.mem_filter, Bool.not_eq_true', and_imp]

lemma foldl_add_length (parts : List Condition) : ∀ cond : Condition,
    (parts.foldl Condition.add cond).members.length = cond.members.length + parts.length := by
  induction parts with
  | nil => simp
  | cons part parts ih =>
      intro cond
      rw [List.foldl_cons, ih, Condition.add_members_length, List.length_cons]
      omega

lemma isEmpty_of_joinParts {parts : List Condition} (h : (joinParts parts).isEmpty = true) :
    ∀ part ∈ parts, part.isEmpty = true := by
  have hlength := foldl_add_length (parts.filter (!·.isEmpty)) .all
  rw [Condition.isEmpty, List.isEmpty_iff, joinParts] at h
  rw [h, List.length_nil] at hlength
  have hfilter : parts.filter (!·.isEmpty) = [] := List.length_eq_zero_iff.mp (by omega)
  intro part hpart
  by_contra hempty
  exact List.filter_eq_nil_iff.mp hfilter part hpart (by simpa using hempty)

lemma not_holds_of_isEmptyAny {cond : Condition} (h : cond.isEmptyAny = true) {db : Database}
    {env : Env} : ¬ cond.Holds db env := by
  simp only [Condition.isEmptyAny, Condition.isEmpty, Bool.and_eq_true, List.isEmpty_iff,
    Bool.not_eq_true'] at h
  simp [Condition.Holds, Condition.toPredicate, h.1, h.2]

/-! ## What a join has to ensure -/

/-- Every value is the id of at most one record. -/
def UniqueIds (db : Database) (table : String) : Prop :=
  ∀ x, ∀ r ∈ db.table table, ∀ r' ∈ db.table table,
    Equals x (r "id") → Equals x ( r' "id") → r = r'

/-- The rules of a comodel hold of the record that the alias stands for. -/
def RulesHold (c : Compiler) (co : Model) (db : Database) (env : Env) : Prop :=
  ∀ node, c.rules.get co.name = some node → c.atRules.Satisfies node db env

/-- The rules of a comodel are the constant FALSE. -/
def RulesAreFalse (c : Compiler) (co : Model) : Prop :=
  ∃ node, c.rules.get co.name = some node ∧ c.atRules.IsConstantFalse node

/-- The domain of a field and its filter on active records hold of the record that the alias stands
for. -/
def MemberHolds (c : Compiler) (field : Field) (co owner : Model) (db : Database) (env : Env) :
    Prop :=
  ∃ fuel own active, Yields (c.fieldDomainCond (compile fuel) field co owner) own ∧
    Yields (c.activeFilter field co none) active ∧ own.Holds db env ∧ active.Holds db env

/-- The relation row of the environment links its record to a record of the comodel. -/
def Links (c : Compiler) (field : Field) (db : Database) (env : Env) (r : Row) : Prop :=
  ∃ rel column1 column2, field.m2mColumns = .ok (rel, column1, column2) ∧
    Selects db env (.compare .eq (.col c.aliasName "id") (.col (c.joinAlias field) column1)) ∧
    ∃ x ∈ env (c.joinAlias field) column2, Equals x (r "id")

/-- The subquery of a many2many's join. -/
def membersSub (c : Compiler) (co : Model) : Compiler := c.subCompiler co (c.subAlias co)

/-- A join admits the linked records that satisfy the field's domain, its filter on active records
and the rules, and no others. -/
def MembersRestricted (c : Compiler) (field : Field) (co : Model) (on : Condition) : Prop :=
  ∀ db env r, UniqueIds db co.table → r ∈ db.table co.table → c.Links field db env r →
    on.Holds db env →
      (c.membersSub co).MemberHolds field co c.model db (env.bind (c.membersSub co).aliasName r) ∧
      (c.membersSub co).RulesHold co db (env.bind (c.membersSub co).aliasName r)

/-- No linked record satisfies the field's domain and its filter on active records. -/
def NoMember (c : Compiler) (field : Field) (co : Model) : Prop :=
  ∀ db env r, UniqueIds db co.table → r ∈ db.table co.table → c.Links field db env r →
    ¬ (c.membersSub co).MemberHolds field co c.model db (env.bind (c.membersSub co).aliasName r)

/-- A join admits the records that satisfy the rules, and no others. -/
def HopRestricted (c : Compiler) (co : Model) (on : Condition) : Prop :=
  ∀ db env, on.Holds db env → c.RulesHold co db env

/-! ## The joins, part by part -/

section Joins

variable {db : Database} {env : Env} {field : Field} {co : Model}

/-- The comodel of a field. -/
def IsComodel (c : Compiler) (field : Field) (co : Model) : Prop :=
  field.relation.bind c.ctx.registry.lookup = some co

lemma IsComodel.eq {co' : Model} (h : c.IsComodel field co) {name : String}
    (hname : field.comodel = .ok name) (hget : c.ctx.registry.get name = .ok co') : co' = co := by
  rw [Field.comodel, orRefuse_eq_ok] at hname
  rw [Registry.get, orRefuse_eq_ok] at hget
  rw [IsComodel, hname, Option.bind_some, hget] at h
  exact Option.some.inj h

lemma many2manyGroupJoin_parts {rel relAlias : String} {on : Condition}
    (h : Yields (c.many2manyGroupJoin (compile fuel) field) (rel, relAlias, on))
    (hco : c.IsComodel field co) :
    ∃ column1 column2 own active rules, field.m2mColumns = .ok (rel, column1, column2) ∧
      Yields ((c.membersSub co).fieldDomainCond (compile fuel) field co c.model) own ∧
      Yields ((c.membersSub co).activeFilter field co none) active ∧
      Yields (joinRules (compile fuel) co field.bypassSearchAccess (c.membersSub co)) rules ∧
      on = c.membersOn field co (c.membersSub co) column1 column2
        (joinParts (own :: active :: rules)) := by
  unfold many2manyGroupJoin at h
  split at h
  · simp at h
  simp only [liftM_eq_ofResult, yields_bind, yields_ofResult, yields_pure, Prod.exists] at h
  obtain ⟨table, column1, column2, hcolumns, name, hname, co', hget, own, hown, active, hactive,
    rules, hrules, -, -, heq⟩ := h
  obtain rfl := hco.eq hname hget
  simp only [Prod.mk.injEq] at heq
  obtain ⟨rfl, -, rfl⟩ := heq
  exact ⟨column1, column2, own, active, rules, hcolumns, hown, hactive, hrules, rfl⟩

lemma membersOn_holds {sub : Compiler} {column1 column2 : String} {cond : Condition} :
    (c.membersOn field co sub column1 column2 cond).Holds db env ↔
      Selects db env (.compare .eq (.col c.aliasName "id") (.col (c.joinAlias field) column1)) ∧
      (cond.isEmpty = false → ∃ x ∈ env (c.joinAlias field) column2, ∃ r ∈ db.table co.table,
        cond.Holds db (env.bind sub.aliasName r) ∧ Equals x (r "id")) := by
  unfold membersOn
  cases hempty : cond.isEmpty with
  | true =>
      rw [if_pos rfl, holds_addPredicate rfl]
      simp
  | false =>
      rw [if_neg (by simp), holds_addPredicate rfl, holds_addPredicate rfl]
      simp only [holds_all, true_and, selects_inSelect, recordsWhere, mem_rows_from, Expr.eval,
        Env.bind, Function.update_self]
      refine and_congr_right fun _ => ⟨?_, ?_⟩
      · rintro ⟨x, hx, -, ⟨r, hr, hholds, rfl⟩, heq⟩ -
        exact ⟨x, hx, r, hr, hholds, heq⟩
      · intro h
        obtain ⟨x, hx, r, hr, hholds, heq⟩ := h trivial
        exact ⟨x, hx, _, ⟨r, hr, hholds, rfl⟩, heq⟩

/-- **A join admits a linked record exactly when the parts that it kept hold of it.** -/
lemma membersOn_holds_iff_parts {r : Row} (hids : UniqueIds db co.table) (hr : r ∈ db.table co.table)
    (hlinks : c.Links field db env r) {rel column1 column2 : String}
    (hcolumns : field.m2mColumns = .ok (rel, column1, column2)) {sub : Compiler}
    {parts : List Condition} :
    (c.membersOn field co sub column1 column2 (joinParts parts)).Holds db env ↔
      ∀ part ∈ parts, part.isEmpty = false → part.Holds db (env.bind sub.aliasName r) := by
  obtain ⟨rel', column1', column2', hcolumns', hid, x, hx, hequals⟩ := hlinks
  rw [hcolumns] at hcolumns'
  obtain ⟨rfl, rfl, rfl⟩ : rel = rel' ∧ column1 = column1' ∧ column2 = column2' := by
    simpa using hcolumns'
  rw [membersOn_holds, ← joinParts_holds]
  constructor
  · rintro ⟨-, hadmits⟩
    cases hempty : (joinParts parts).isEmpty with
    | true =>
        rw [joinParts_holds]
        intro part hpart hfull
        rw [isEmpty_of_joinParts hempty part hpart] at hfull
        exact absurd hfull (by simp)
    | false =>
        obtain ⟨x', hx', r', hr', hholds, hequals'⟩ := hadmits hempty
        obtain rfl : x' = x := Option.some.inj (hx'.symm.trans hx)
        rwa [hids x' r hr r' hr' hequals hequals']
  · exact fun hholds => ⟨hid, fun _ => ⟨x, hx, r, hr, hholds, hequals⟩⟩

lemma isEmpty_eq_true_or_holds {part : Condition} (hconj : part.conj = true)
    (h : part.isEmpty = false → part.Holds db env) : part.Holds db env := by
  cases hempty : part.isEmpty with
  | true => exact holds_of_isEmpty hempty hconj
  | false => exact h hempty

/-- Rules that a join leaves out are true, unless they are the constant FALSE. -/
lemma rules_hold_of_kept {node : Node} {cond : Condition} (hcond : c.atRules.Compiles node cond)
    (hnot : ¬ c.atRules.IsConstantFalse node) (h : cond.isEmpty = false → cond.Holds db env) :
    cond.Holds db env := by
  rw [← hcond.isEmptyAny_iff] at hnot
  cases hempty : cond.isEmpty with
  | true =>
      refine holds_of_isEmpty hempty ?_
      simpa [Condition.isEmptyAny, hempty] using hnot
  | false => exact h hempty

lemma memberHolds_iff {owner : Model} {own active : Condition}
    (hown : Yields (c.fieldDomainCond (compile fuel) field co owner) own)
    (hactive : Yields (c.activeFilter field co none) active) :
    c.MemberHolds field co owner db env ↔ own.Holds db env ∧ active.Holds db env := by
  constructor
  · rintro ⟨fuel', own', active', hown', hactive', hholds, hholds'⟩
    obtain rfl := hactive'.unique hactive
    have hmore := (fieldDomainCond_mono (compile_mono (le_max_left fuel fuel')) field co owner).yields
      hown
    have hmore' := (fieldDomainCond_mono (compile_mono (le_max_right fuel fuel')) field co
      owner).yields hown'
    obtain rfl := hmore'.unique hmore
    exact ⟨hholds, hholds'⟩
  · exact fun h => ⟨fuel, own, active, hown, hactive, h.1, h.2⟩

lemma rulesHold_of_get {node : Node} {cond : Condition} (hnode : c.rules.get co.name = some node)
    (hcond : c.atRules.Compiles node cond) :
    c.RulesHold co db env ↔ cond.Holds db env := by
  rw [← satisfies_iff hcond]
  constructor
  · exact fun h => h node hnode
  · intro h node' hnode'
    rwa [← Option.some.inj (hnode.symm.trans hnode')]

lemma rulesHold_of_none (hnone : c.rules.get co.name = none) : c.RulesHold co db env := by
  intro node hnode
  rw [hnone] at hnode
  exact absurd hnode (by simp)

lemma not_rulesAreFalse_of_none (hnone : c.rules.get co.name = none) : ¬ c.RulesAreFalse co := by
  rintro ⟨node, hnode, -⟩
  rw [hnone] at hnode
  exact absurd hnode (by simp)

lemma rulesAreFalse_of_get {node : Node} (hnode : c.rules.get co.name = some node) :
    c.RulesAreFalse co ↔ c.atRules.IsConstantFalse node := by
  constructor
  · rintro ⟨node', hnode', h⟩
    rwa [Option.some.inj (hnode.symm.trans hnode')]
  · exact fun h => ⟨node, hnode, h⟩

/-- **The join of a many2many** admits the members only that satisfy the rules, exactly when the
rules are not the constant FALSE, or there is no member. -/
lemma many2manyGroupJoin_restricted_iff (hco : c.IsComodel field co) (hsu : c.su = false)
    (hbypass : field.bypassSearchAccess ≠ some true) {rel relAlias : String} {on : Condition}
    (h : Yields (c.many2manyGroupJoin (compile fuel) field) (rel, relAlias, on)) :
    c.MembersRestricted field co on ↔
      ¬ (c.membersSub co).RulesAreFalse co ∨ c.NoMember field co := by
  obtain ⟨column1, column2, own, active, rules, hcolumns, hown, hactive, hrules, rfl⟩ :=
    many2manyGroupJoin_parts h hco
  have hconj := fieldDomainCond_conj.of_yields hown
  have hconj' := activeFilter_conj.of_yields hactive
  have hcases := joinRules_cases hrules hsu hbypass
  constructor
  · intro hrestricted
    refine or_iff_not_imp_left.mpr fun hfalse db env r hids hr hlinks hmember => ?_
    rw [not_not] at hfalse
    have hholds := (memberHolds_iff hown hactive).mp hmember
    obtain ⟨hnone, -⟩ | ⟨node, cond, hnode, hcond, rfl⟩ := hcases
    · exact not_rulesAreFalse_of_none hnone hfalse
    · rw [rulesAreFalse_of_get hnode, ← hcond.isEmptyAny_iff] at hfalse
      have hon : (c.membersOn field co (c.membersSub co) column1 column2
          (joinParts [own, active, cond])).Holds db env := by
        rw [membersOn_holds_iff_parts hids hr hlinks hcolumns]
        intro part hpart hfull
        simp only [List.mem_cons, List.not_mem_nil, or_false] at hpart
        obtain rfl | rfl | rfl := hpart
        · exact hholds.1
        · exact hholds.2
        · simp [Condition.isEmptyAny, hfull] at hfalse
      have hrule := (hrestricted db env r hids hr hlinks hon).2
      rw [rulesHold_of_get hnode hcond] at hrule
      exact not_holds_of_isEmptyAny hfalse hrule
  · intro hcondition db env r hids hr hlinks hon
    rw [membersOn_holds_iff_parts hids hr hlinks hcolumns] at hon
    have hmember := (memberHolds_iff hown hactive).mpr
      ⟨isEmpty_eq_true_or_holds hconj (hon own (by simp)),
        isEmpty_eq_true_or_holds hconj' (hon active (by simp))⟩
    refine ⟨hmember, ?_⟩
    obtain ⟨hnone, -⟩ | ⟨node, cond, hnode, hcond, rfl⟩ := hcases
    · exact rulesHold_of_none hnone
    · rw [rulesHold_of_get hnode hcond]
      rcases hcondition with hfalse | hnomember
      · rw [rulesAreFalse_of_get hnode] at hfalse
        exact rules_hold_of_kept hcond hfalse (hon cond (by simp))
      · exact absurd hmember (hnomember db env r hids hr hlinks)

lemma many2oneHopJoin_parts {coalias : String} {on : Condition}
    (h : Yields (c.many2oneHopJoin (compile fuel) field) (co, coalias, on)) :
    ∃ rules, Yields (joinRules (compile fuel) co (some false) (c.subCompiler co coalias)) rules ∧
      on = (rules.filter (!·.isEmpty)).foldl Condition.add (Condition.all.addPredicate
        (.compare .eq (.col c.aliasName field.name) (.col coalias "id"))) := by
  unfold many2oneHopJoin at h
  split at h
  · simp at h
  split at h
  · simp at h
  simp only [liftM_eq_ofResult, yields_bind, yields_ofResult, yields_pure] at h
  obtain ⟨-, -, co', -, rules, hrules, -, -, heq⟩ := h
  simp only [Prod.mk.injEq] at heq
  obtain ⟨rfl, rfl, rfl⟩ := heq
  exact ⟨rules, hrules, rfl⟩

/-- A row that compares equal with every other one of its kind. -/
def sameEverywhere : Env := fun _ _ => some (.int 1)

/-- **The join of a many2one** admits the records only that satisfy the rules, exactly when the
rules are not the constant FALSE. -/
lemma many2oneHopJoin_restricted_iff (hsu : c.su = false) {coalias : String} {on : Condition}
    (h : Yields (c.many2oneHopJoin (compile fuel) field) (co, coalias, on)) :
    (c.subCompiler co coalias).HopRestricted co on ↔
      ¬ (c.subCompiler co coalias).RulesAreFalse co := by
  obtain ⟨rules, hrules, rfl⟩ := many2oneHopJoin_parts h
  obtain ⟨hnone, rfl⟩ | ⟨node, cond, hnode, hcond, rfl⟩ := joinRules_cases hrules hsu (by simp)
  · exact iff_of_true (fun db env _ => rulesHold_of_none hnone) (not_rulesAreFalse_of_none hnone)
  · rw [rulesAreFalse_of_get hnode]
    constructor
    · intro hrestricted hfalse
      have hempty := hcond.isEmptyAny_iff.mpr hfalse
      have hholds := hrestricted ⟨fun _ => [], fun _ => [], .plain⟩ sameEverywhere (by
        have : cond.isEmpty = true := (Bool.and_eq_true_iff.mp hempty).1
        rw [holds_foldl_add rfl, holds_addPredicate rfl]
        simp [this, Selects, Predicate.eval, Expr.eval, sameEverywhere, compareData,
          Comparison.holds, Datum.equals, Datum.toRat?])
      rw [rulesHold_of_get hnode hcond] at hholds
      exact not_holds_of_isEmptyAny hempty hholds
    · intro hnot db env hon
      rw [rulesHold_of_get hnode hcond]
      rw [holds_foldl_add rfl] at hon
      exact rules_hold_of_kept hcond hnot fun hfull => hon.2 cond (by simp [hfull])

end Joins

end Compiler

/-- **What a grouping reads**: the joins admit the records only that satisfy the rules of their
model, exactly when these are not the constant FALSE, or nothing else satisfies the join. -/
theorem group_joins_restrict_iff (c : Compiler) (hsu : c.su = false) (fuel : ℕ) (field : Field)
    (co : Model) (hco : c.IsComodel field co) :
    (∀ rel relAlias on, field.bypassSearchAccess ≠ some true →
      Yields (c.many2manyGroupJoin (Compiler.compile fuel) field) (rel, relAlias, on) →
      (c.MembersRestricted field co on ↔
        ¬ (c.membersSub co).RulesAreFalse co ∨ c.NoMember field co)) ∧
    (∀ coalias on, Yields (c.many2oneHopJoin (Compiler.compile fuel) field) (co, coalias, on) →
      ((c.subCompiler co coalias).HopRestricted co on ↔
        ¬ (c.subCompiler co coalias).RulesAreFalse co)) :=
  ⟨fun _ _ _ hbypass h => Compiler.many2manyGroupJoin_restricted_iff hco hsu hbypass h,
    fun _ _ h => Compiler.many2oneHopJoin_restricted_iff hsu h⟩

/-! ## A model that nobody may read -/

namespace Forbidden

/-- The projects. -/
def project : Model := plainModel "project" "project" []

/-- The tasks, each of a project. -/
def task : Model := plainModel "task" "task" [("project_id", linkField "project_id" "project")]

/-- A principal whose rules admit no project, and the place where a grouping of tasks is compiled
for it. -/
def tasks : Compiler :=
  .root
    (.plain (plainRegistry [("project", project), ("task", task)])
      (.plain [("project", [1])] [("project", [])])
      (some { uid := 2, groups := {1}, scopes := [] }))
    task ((RuleSet.withRuled ["project"]).insert "project" .False) false

/-- The condition of the join that the grouping makes. -/
def onProject : Condition :=
  .addPredicate .all (.compare .eq (.col "task" "project_id") (.col "task__project_id" "id"))

lemma many2oneHopJoin_tasks :
    Yields (tasks.many2oneHopJoin (Compiler.compile 2) (linkField "project_id" "project"))
      (project, "task__project_id", onProject) :=
  ⟨_, rfl⟩

lemma rulesAreFalse : (tasks.subCompiler project "task__project_id").RulesAreFalse project :=
  ⟨.False, rfl, rfl⟩

/-- **A grouping reads a model that nobody may read**: the condition of the join admits projects,
though the rules admit none. -/
theorem group_join_widens :
    Yields (tasks.many2oneHopJoin (Compiler.compile 2) (linkField "project_id" "project"))
      (project, "task__project_id", onProject) ∧
    tasks.su = false ∧
    ¬ ∀ db env, onProject.Holds db env →
      (tasks.subCompiler project "task__project_id").RulesHold project db env :=
  ⟨many2oneHopJoin_tasks, rfl, fun h =>
    (Compiler.many2oneHopJoin_restricted_iff rfl many2oneHopJoin_tasks).mp h rulesAreFalse⟩

/-- The grouping of the tasks by their projects. -/
theorem group_joins_restrict_iff_tasks :
    (tasks.subCompiler project "task__project_id").HopRestricted project onProject ↔
      ¬ (tasks.subCompiler project "task__project_id").RulesAreFalse project :=
  (group_joins_restrict_iff tasks rfl 2 (linkField "project_id" "project") project rfl).2
    "task__project_id" onProject many2oneHopJoin_tasks

end Forbidden

end OdooKernel
