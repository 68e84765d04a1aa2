import OdooKernel.Compile.Selection

/-!
# Domains that select nothing

A membership in nothing is false of every row, whatever its field is: a column, a relation, a path, a
field that is related to another, a display name or the followers of a record.

**Leaves.**  `Hopeless` are the operators and values that nothing satisfies: a membership in the
empty list, or the existence of a record that satisfies a domain that selects nothing.  No pass
rewrites such a leaf (`Hopeless.optimizeLeaf`), so that what is compiled is the leaf as it stands.

**Computations.**  A computation is `Barren` where whatever condition it returns holds nowhere.
There is one lemma for each function of the compiler, which takes the compiler that it calls again to
be barren on such domains (`AgainBarren`), and `compile_barren` is the induction on the calls.

* `Unsatisfied` — the domains that are false because of such leaves.
* **`compile_barren`** — what such a domain is compiled to holds of no row.
-/

namespace OdooKernel

/-! ## What selects nothing as it stands -/

/-- An operator and a value that nothing satisfies: a membership in nothing, or the existence of a
record that satisfies such a condition. -/
inductive Hopeless : String → Json → Prop
  | unlisted : Hopeless "in" (.array [])
  | reached {op field op' : String} {value : Json} : op = "any" ∨ op = "any!" →
      Hopeless op' value → Hopeless op (.array [term field op' value])

/-- A domain that selects nothing. -/
inductive Unsatisfied : Node → Prop
  | constant : Unsatisfied .False
  | leaf {op : String} {value : Json} (field : String) : Hopeless op value →
      Unsatisfied (leafNode field op value)
  | and {ns : List Node} {n : Node} : n ∈ ns → Unsatisfied n → Unsatisfied (.And ns)
  | or {ns : List Node} : (∀ n ∈ ns, Unsatisfied n) → Unsatisfied (.Or ns)

mutual
/-- What is told to be false selects nothing. -/
lemma unsatisfied_of_isFalse : ∀ n, isFalse n = true → Unsatisfied n
  | .False, _ => .constant
  | .Leaf l, h => by
      rw [isFalse, Bool.and_eq_true, decide_eq_true_eq, decide_eq_true_eq] at h
      obtain ⟨hop, hvalue⟩ := h
      have hleaf : Node.Leaf l = leafNode l.field "in" (.array []) := by rw [← hop, ← hvalue]; rfl
      rw [hleaf]
      exact .leaf l.field .unlisted
  | .And ns, h => by
      obtain ⟨n, hn, hfalse⟩ := unsatisfied_of_anyIsFalse ns h
      exact .and hn hfalse
  | .Or ns, h => by
      rw [isFalse, Bool.and_eq_true] at h
      exact .or (unsatisfied_of_allAreFalse ns h.2)
  | .Not _, h => by cases h
  | .True, h => by cases h

lemma unsatisfied_of_anyIsFalse : ∀ ns, anyIsFalse ns = true → ∃ n ∈ ns, Unsatisfied n
  | [], h => by cases h
  | n :: ns, h => by
      rw [anyIsFalse, Bool.or_eq_true] at h
      rcases h with h | h
      · exact ⟨n, List.mem_cons_self, unsatisfied_of_isFalse n h⟩
      · obtain ⟨m, hm, hfalse⟩ := unsatisfied_of_anyIsFalse ns h
        exact ⟨m, List.mem_cons_of_mem n hm, hfalse⟩

lemma unsatisfied_of_allAreFalse : ∀ ns, allAreFalse ns = true → ∀ n ∈ ns, Unsatisfied n
  | [], _ => List.forall_mem_nil _
  | n :: ns, h => by
      rw [allAreFalse, Bool.and_eq_true] at h
      exact List.forall_mem_cons.mpr
        ⟨unsatisfied_of_isFalse n h.1, unsatisfied_of_allAreFalse ns h.2⟩
end

/-- The domain of one term. -/
lemma parse_term (field op : String) (value : Json) :
    parse (.array [term field op value]) = .ok (leafNode field op value) := rfl

namespace Hopeless

variable {op : String} {value : Json}

/-- The operators are positive, and the value is a list. -/
lemma shape (h : Hopeless op value) : op ∈ ["in", "any", "any!"] ∧ ∃ items, value = .array items := by
  cases h with
  | unlisted => exact ⟨by decide, _, rfl⟩
  | reached hop _ =>
      refine ⟨?_, _, rfl⟩
      rcases hop with rfl | rfl <;> decide

/-- A membership is one in nothing. -/
lemma unlisted_of_in (h : Hopeless "in" value) : value = .array [] := by
  generalize hop : "in" = op at h
  cases h with
  | unlisted => rfl
  | reached hany _ => rcases hany with rfl | rfl <;> exact absurd hop (by decide)

lemma not_fragment (h : Hopeless op value) : isFragment value = false := by
  obtain ⟨-, items, rfl⟩ := h.shape
  rfl

/-- The sub-domain selects nothing. -/
lemma sub_domain (h : Hopeless op value) (hop : op ≠ "in") {n : Node} (hn : parse value = .ok n) :
    Unsatisfied n := by
  cases h with
  | unlisted => exact absurd rfl hop
  | reached _ hsub =>
      rw [parse_term, Except.ok.injEq] at hn
      rw [← hn]
      exact .leaf _ hsub

/-- Every pass leaves such a leaf as it is. -/
lemma first_pass {c : Compiler} {l : LeafView} (h : Hopeless l.leaf.op l.leaf.value) :
    Pass.first [Compiler.refuseOrderings l, Compiler.rewriteUnlessUnset l,
      Compiler.rewriteEquality l, Compiler.wrapMember l, c.rewritePattern l, Compiler.textNumbers l,
      c.wholeDays l, Compiler.refuseRelational l, Compiler.namesAndIds l, c.numericTexts l,
      Compiler.booleanValues l, Compiler.unsetOrdering l] = .ok none := by
  obtain ⟨hop, items, hitems⟩ := h.shape
  have hops : isOrdering l.leaf.op = false ∧ endsWith "like" l.leaf.op = false ∧
      l.leaf.op ≠ "=?" ∧ l.leaf.op ∉ ["=", "==", "!=", "<>"] ∧ l.leaf.op ≠ "not in" := by
    simp only [List.mem_cons, List.not_mem_nil, or_false] at hop
    rcases hop with hop | hop | hop <;> rw [hop] <;> decide +kernel
  obtain ⟨hordering, hlike, hunless, hequality, hnegative⟩ := hops
  have hcompares : l.comparesValues = l.isMembership := by
    rw [LeafView.comparesValues, hordering, Bool.or_false]
  have hmember : l.isMembership = true → items = [] := by
    intro hin
    rw [LeafView.isMembership, Bool.or_eq_true, decide_eq_true_eq, decide_eq_true_eq] at hin
    have hin := hin.resolve_right hnegative
    rw [hin, hitems] at h
    exact Json.array.inj h.unlisted_of_in
  have hfirst : Compiler.refuseOrderings l = Pass.next ∧ Compiler.rewriteUnlessUnset l = Pass.next ∧
      Compiler.rewriteEquality l = Pass.next ∧ Compiler.wrapMember l = Pass.next ∧
      c.rewritePattern l = Pass.next ∧ Compiler.unsetOrdering l = Pass.next := by
    refine ⟨?_, if_neg hunless, if_neg fun h => hequality h.2, ?_, ?_, ?_⟩
    · simp [Compiler.refuseOrderings, hordering]
    · simp [Compiler.wrapMember, hitems, Json.isArray, Json.asArray]
    · simp [Compiler.rewritePattern, hlike]
    · simp only [Compiler.unsetOrdering, hordering, Bool.false_eq_true, false_and, and_false,
        if_false]
      split <;> rfl
  have hvalues : Compiler.textNumbers l = Pass.next ∧ c.wholeDays l = Pass.next ∧
      Compiler.refuseRelational l = Pass.next ∧ Compiler.namesAndIds l = Pass.next ∧
      c.numericTexts l = Pass.next ∧ Compiler.booleanValues l = Pass.next := by
    cases hin : l.isMembership with
    | false =>
        refine ⟨?_, ?_, ?_, ?_, ?_, ?_⟩
        · simp [Compiler.textNumbers, hcompares, hin]
        · simp [Compiler.wholeDays, hcompares, hin]
        · unfold Compiler.refuseRelational
          split <;> simp [hordering, hin]
        · simp [Compiler.namesAndIds, hin]
        · simp [Compiler.numericTexts, hcompares, hin]
        · simp [Compiler.booleanValues, hitems, hin]
    | true =>
        obtain rfl := hmember hin
        refine ⟨?_, ?_, ?_, ?_, ?_, ?_⟩
        · simp [Compiler.textNumbers, hitems]
        · simp only [Compiler.wholeDays, Compiler.datetimeDayComparand, hitems, Compiler.comparands]
          split <;> rfl
        · unfold Compiler.refuseRelational
          split <;> simp [hordering, hitems, Compiler.comparands]
        · simp [Compiler.namesAndIds, hitems]
        · simp [Compiler.numericTexts, hitems]
        · simp [Compiler.booleanValues, hitems]
  obtain ⟨hrefuse, hunset, hequal, hwrap, hpattern, hnull⟩ := hfirst
  obtain ⟨htext, hdays, hrelational, hnames, hnumeric, hboolean⟩ := hvalues
  simp only [hrefuse, hunset, hequal, hwrap, hpattern, hnull, htext, hdays, hrelational, hnames,
    hnumeric, hboolean, Pass.first, Pass.next]

/-- **Nothing is rewritten in such a leaf.** -/
lemma optimizeLeaf {c : Compiler} (h : Hopeless op value) {field : String} {out : Option Node}
    (hout : c.optimizeLeaf { field, op, value } = .ok out) : out = none := by
  unfold Compiler.optimizeLeaf at hout
  obtain ⟨-, -, hout⟩ := bind_eq_ok.mp hout
  rw [@first_pass c (c.view { field, op, value }) h, Except.ok.injEq] at hout
  exact hout.symm

end Hopeless

/-! ## Conditions that hold nowhere -/

/-- Whatever condition is returned, it holds nowhere. -/
def Barren (x : Compile Predicate) : Prop := ∀ p, Yields x p → ∀ db env, ¬ Selects db env p

/-- Whatever junction is returned, it holds nowhere. -/
def BarrenJunction (x : Compile Condition) : Prop :=
  ∀ cond, Yields x cond → ∀ db env, ¬ cond.Holds db env

lemma Barren.refuse (reason : String) :
    Barren (Compile.ofResult (OdooKernel.refuse reason : Result Predicate)) := by
  intro p hp
  cases yields_ofResult.mp hp

lemma Barren.lift {α : Type} {x : Result α} {f : α → Compile Predicate}
    (h : ∀ a, x = .ok a → Barren (f a)) : Barren (Compile.ofResult x >>= f) := by
  intro p hp
  obtain ⟨a, ha, hp⟩ := yields_bind.mp hp
  exact h a (yields_ofResult.mp ha) p hp

lemma Barren.then {α : Type} {x : Compile α} {f : α → Compile Predicate} (h : ∀ a, Barren (f a)) :
    Barren (x >>= f) := by
  intro p hp
  obtain ⟨a, -, hp⟩ := yields_bind.mp hp
  exact h a p hp

/-- A junction that holds nowhere, as a condition. -/
lemma BarrenJunction.toPredicate {x : Compile Condition} (h : BarrenJunction x) :
    Barren (x >>= fun cond => pure cond.toPredicate) := by
  intro p hp
  obtain ⟨cond, hcond, hp⟩ := yields_bind.mp hp
  obtain rfl := yields_pure.mp hp
  exact h cond hcond

/-- The falsy values of fields, as the exporter writes them, are no lists. -/
def Model.ScalarFalsy (m : Model) : Prop :=
  ∀ name f, m.fields.get? name = some f → ∀ v ∈ f.falsyJson, v.isArray = false

/-- The same of every model. -/
def Registry.ScalarFalsy (registry : Registry) : Prop :=
  ∀ name m, registry.get name = .ok m → m.ScalarFalsy

namespace Compiler

/-- Where the falsy values of fields are no lists. -/
structure Plain (c : Compiler) : Prop where
  model : c.model.ScalarFalsy
  registry : c.ctx.registry.ScalarFalsy

section Again

variable {c : Compiler} {again : Compiler → Node → Compile Condition}

/-- The compiler is called again on a domain that selects nothing. -/
def AgainBarren (again : Compiler → Node → Compile Condition) : Prop :=
  ∀ (c : Compiler) n, c.Plain → Unsatisfied n → BarrenJunction (again c n)

/-- The rules of a comodel take records away only. -/
lemma restricted_holds {co : Model} {bypassAccess : Option Bool} {sub : Compiler}
    {cond out : Condition} (h : Yields (c.restricted again co bypassAccess sub cond) out)
    (hconj : cond.conj = true) {db : Database} {env : Env} (hout : out.Holds db env) :
    cond.Holds db env := by
  obtain ⟨rules, -, h⟩ := yields_bind.mp h
  cases rules with
  | none =>
      obtain ⟨-, -, h⟩ := yields_bind.mp h
      obtain rfl := yields_pure.mp h
      exact hout
  | some node =>
      obtain ⟨k, -, h⟩ := yields_bind.mp h
      obtain ⟨-, -, h⟩ := yields_bind.mp h
      obtain rfl := yields_pure.mp h
      exact ((holds_add_all _ _ hconj).mp hout).1

lemma Plain.sub (hc : c.Plain) {name : String} {co : Model} (hco : c.ctx.registry.get name = .ok co)
    (aliasName : String) : (c.subCompiler co aliasName).Plain :=
  ⟨hc.registry name co hco, hc.registry⟩

lemma Plain.asSudo (hc : c.Plain) : c.asSudo.Plain := ⟨hc.model, hc.registry⟩

/-- **A many2one reaches no record** of a domain that selects nothing. -/
lemma m2oAny_barren (hagain : AgainBarren again) (hc : c.Plain) (field : Field) {n : Node}
    (hn : Unsatisfied n) (bypassAccess : Option Bool) :
    Barren (c.m2oAny again field n true bypassAccess) := by
  refine Barren.lift fun name hname => Barren.lift fun co hco => ?_
  intro p hp db env hselects
  obtain ⟨found, hfound, hp⟩ := yields_bind.mp hp
  obtain ⟨cond, hcond, hp⟩ := yields_bind.mp hp
  obtain ⟨e, -, hp⟩ := yields_bind.mp hp
  rw [if_pos rfl] at hp
  obtain rfl := yields_pure.mp hp
  obtain ⟨-, -, row, hrow, -⟩ := (selects_inSelect _ _).mp hselects
  obtain ⟨inner, -, hholds, -⟩ := mem_rows_from.mp hrow
  have hsub := restricted_holds hcond (Condition.add_conj _ _) hholds
  exact hagain _ n (hc.sub hco _) hn found hfound db _
    ((holds_add_all _ _ Condition.conj_all).mp hsub).2

/-- A record that owns others owns one that satisfies their condition. -/
lemma ownersSelect_rows {field : Field} {co : Model} {sub : Compiler} {cond : Condition}
    {select : Select} (h : Yields (c.ownersSelect field co sub cond) select) {db : Database}
    {env : Env} {row : Option Datum} (hrow : row ∈ select.rows db env) :
    ∃ inner, cond.Holds db inner := by
  unfold ownersSelect at h
  split at h
  · obtain ⟨inverse, -, h⟩ := yields_bind.mp h
    obtain ⟨-, -, h⟩ := yields_bind.mp h
    obtain rfl := yields_pure.mp h
    simp only [Select.rows, List.mem_filterMap, Option.ite_none_right_eq_some, evalAll_eq,
      isTrue_all, List.map_cons, List.map_nil, List.mem_cons, List.not_mem_nil, or_false,
      forall_eq_or_imp, forall_eq] at hrow
    obtain ⟨r, -, ⟨-, hholds⟩, -⟩ := hrow
    exact ⟨_, hholds⟩
  · obtain ⟨columns, -, h⟩ := yields_bind.mp h
    obtain ⟨-, -, h⟩ := yields_bind.mp h
    obtain rfl := yields_pure.mp h
    simp only [Select.rows, List.mem_flatMap, List.mem_filterMap, Option.ite_none_right_eq_some,
      evalAll_eq, isTrue_and, isTrue_all, List.map_cons, List.map_nil, List.mem_singleton,
      forall_eq] at hrow
    obtain ⟨link, -, r, -, ⟨-, hholds⟩, -⟩ := hrow
    exact ⟨_, hholds⟩

/-- **An x2many holds no record** of a domain that selects nothing. -/
lemma x2manySubselect_barren (hagain : AgainBarren again) (hc : c.Plain) (field : Field) {n : Node}
    (hn : Unsatisfied n) (applyActive asSudo : Bool) (bypassAccess : Option Bool) :
    Barren (c.x2manySubselect again field (some n) true applyActive asSudo bypassAccess) := by
  refine Barren.lift fun name hname => Barren.lift fun co hco => ?_
  intro p hp db env hselects
  obtain ⟨cond, hcond, hp⟩ := yields_bind.mp hp
  obtain ⟨select, hselect, hp⟩ := yields_bind.mp hp
  obtain rfl := yields_pure.mp hp
  rw [if_pos rfl] at hselects
  obtain ⟨-, -, row, hrow, -⟩ := (selects_inSelect _ _).mp hselects
  obtain ⟨inner, hholds⟩ := ownersSelect_rows hselect hrow
  have hplain : ∀ aliasName, (if asSudo then (c.subCompiler co aliasName).asSudo
      else c.subCompiler co aliasName).Plain := by
    intro aliasName
    split
    · exact (hc.sub hco aliasName).asSudo
    · exact hc.sub hco aliasName
  obtain ⟨own, -, hcond⟩ := yields_bind.mp hcond
  obtain ⟨withSub, hwithSub, hcond⟩ := yields_bind.mp hcond
  obtain ⟨found, hfound, hwithSub⟩ := yields_bind.mp hwithSub
  have hnot := hagain _ n (hplain _) hn found hfound db inner
  have hconj : ((Condition.all.add own).add found).conj = true := by
    rw [Condition.add_conj, Condition.add_conj]
    rfl
  have hsub : withSub.conj = true ∧ (withSub.Holds db inner → found.Holds db inner) := by
    have hholdsFound : ((Condition.all.add own).add found).Holds db inner → found.Holds db inner :=
      fun h => ((holds_add_all _ _ (Condition.add_conj _ _)).mp h).2
    cases applyActive with
    | false =>
        obtain rfl := yields_pure.mp hwithSub
        exact ⟨hconj, hholdsFound⟩
    | true =>
        obtain ⟨active, -, hwithSub⟩ := yields_bind.mp hwithSub
        obtain rfl := yields_pure.mp hwithSub
        exact ⟨by rw [Condition.add_conj, hconj],
          fun h => hholdsFound ((holds_add_all _ _ hconj).mp h).1⟩
  exact hnot (hsub.2 (restricted_holds hcond hsub.1 hholds))

/-- No record is a member of nothing. -/
lemma x2manyMembers_barren (field : Field) (op : String) :
    Barren (c.x2manyMembers again field op (.array [])) := by
  refine Barren.lift fun split hsplit => ?_
  obtain rfl := Except.ok.inj hsplit
  intro p hp db env hselects
  obtain ⟨matching, hmatching, hp⟩ := yields_bind.mp hp
  obtain ⟨empty, hempty, hp⟩ := yields_bind.mp hp
  obtain rfl := yields_pure.mp hmatching
  obtain rfl := yields_pure.mp hempty
  obtain rfl := yields_pure.mp hp
  simp at hselects

lemma x2manyCondition_barren (hagain : AgainBarren again) (hc : c.Plain) (field : Field)
    {leaf : Leaf} (h : Hopeless leaf.op leaf.value) :
    Barren (c.x2manyCondition again field leaf) := by
  obtain ⟨hop, -⟩ := h.shape
  unfold x2manyCondition
  split
  · next hany =>
      have hin : leaf.op ≠ "in" := by
        intro heq
        rw [heq] at hany
        exact absurd hany (by decide)
      have hpositive : (!startsWith "not" leaf.op) = true := by
        simp only [List.mem_cons, List.not_mem_nil, or_false] at hop
        rcases hop with heq | heq | heq <;> rw [heq] <;> decide +kernel
      rw [hpositive]
      refine Barren.lift fun n hn => Barren.then fun _ => ?_
      exact x2manySubselect_barren hagain hc field (h.sub_domain hin hn) _ _ _
  · next hany =>
      have hin : leaf.op = "in" := by
        simp only [List.mem_cons, List.not_mem_nil, or_false] at hop
        rcases hop with heq | heq | heq
        · exact heq
        · rw [heq] at hany
          exact absurd (by decide) hany
        · rw [heq] at hany
          exact absurd (by decide) hany
      rw [hin] at h ⊢
      rw [if_pos (Or.inl rfl), h.unlisted_of_in]
      exact x2manyMembers_barren field "in"

/-- **A path ends at no record.** -/
lemma dotted_barren (hagain : AgainBarren again) (hc : c.Plain) (path : List String) {op : String}
    {value : Json} (h : Hopeless op value) : Barren (c.dotted again path op value) := by
  refine Barren.lift fun head _ => ?_
  have hsub : Unsatisfied (leafNode (joinDots path.tail) op value) := .leaf _ h
  dsimp only
  split
  · exact m2oAny_barren hagain hc head hsub _
  · exact x2manySubselect_barren hagain hc head hsub _ _ _
  · exact x2manySubselect_barren hagain hc head hsub _ _ _
  · exact Barren.refuse _

/-- A step that is missing satisfies no such condition. -/
lemma holdsOnMissingStep_hopeless {f : Field} (hf : ∀ v ∈ f.falsyJson, v.isArray = false)
    {op : String} {value : Json} (h : Hopeless op value) : holdsOnMissingStep f op value = false := by
  obtain ⟨hop, -⟩ := h.shape
  have hpositive : positiveOperator op = none ∧ isOrdering op = false := by
    simp only [List.mem_cons, List.not_mem_nil, or_false] at hop
    rcases hop with rfl | rfl | rfl <;> decide
  unfold holdsOnMissingStep
  simp only [hpositive, Option.getD_none, Bool.false_eq_true, if_false, if_true]
  cases h with
  | unlisted => rfl
  | @reached op field' op' value' hop _ =>
      have hother : ∀ v ∈ f.falsyJson, pyEq (term field' op' value') v = false := by
        intro v hv
        have hscalar := hf v hv
        have hne : term field' op' value' ≠ v := by
          rintro rfl
          exact absurd hscalar (by simp [term, Json.isArray, Json.asArray])
        unfold pyEq
        split
        · next heq _ => exact absurd heq (by simp [term, pyNumber, Json.asF64])
        · exact decide_eq_false hne
      have hany : f.falsyJson.any (pyEq (term field' op' value')) = false := by
        cases hfalsy : f.falsyJson with
        | none => rfl
        | some v => exact hother v hfalsy
      simp only [List.any_cons, List.any_nil, Bool.or_false, hany]
      rfl

/-- The chain of a related field ends where nothing is found. -/
lemma relatedDomain_unsatisfied {f : Field} {rel op : String} {value : Json} (h : Hopeless op value)
    (hops : List Field) {n : Node} (hn : relatedDomain f rel op value false hops = .ok n) :
    Unsatisfied n := by
  have hchained : ∀ (anyOp notAnyOp last : String) (steps : List (String × Field)),
      anyOp = "any" ∨ anyOp = "any!" → ∃ field op' value', Hopeless op' value' ∧
        chained anyOp notAnyOp false (term last op value) steps = [term field op' value'] := by
    intro anyOp notAnyOp last steps hany
    induction steps with
    | nil => exact ⟨last, op, value, h, rfl⟩
    | cons step steps ih =>
        obtain ⟨field, op', value', hsub, hsteps⟩ := ih
        refine ⟨step.1, anyOp, .array [term field op' value'], .reached hany hsub, ?_⟩
        simp [chained, hsteps]
  unfold relatedDomain at hn
  simp only at hn
  cases hsudo : f.computeSudo with
  | false =>
      obtain ⟨field, op', value', hsub, hsteps⟩ := hchained "any" "not any"
        ((splitDots rel).getLastD "") ((splitDots rel).dropLast.zip hops) (Or.inl rfl)
      simp only [hsudo, Bool.false_eq_true, if_false, hsteps] at hn
      rw [parse_term, Except.ok.injEq] at hn
      rw [← hn]
      exact .leaf field hsub
  | true =>
      obtain ⟨field, op', value', hsub, hsteps⟩ := hchained "any!" "not any!"
        ((splitDots rel).getLastD "") ((splitDots rel).dropLast.zip hops) (Or.inr rfl)
      simp only [hsudo, if_true, hsteps] at hn
      rw [parse_term, Except.ok.injEq] at hn
      rw [← hn]
      exact .leaf field hsub

/-- **A related field is nothing through any of its steps.** -/
lemma relatedSearch_barren (hagain : AgainBarren again) (hc : c.Plain) {f : Field}
    (hf : ∀ v ∈ f.falsyJson, v.isArray = false) (rel : String) {op : String} {value : Json}
    (h : Hopeless op value) : Barren (c.relatedSearch again f rel op value) := by
  have hpositive : positiveOperator op = none := by
    have hop := h.shape.1
    simp only [List.mem_cons, List.not_mem_nil, or_false] at hop
    rcases hop with rfl | rfl | rfl <;> decide
  refine Barren.lift fun hops _ => Barren.lift fun flags _ => ?_
  simp only [hpositive, Option.filter_none, holdsOnMissingStep_hopeless hf h]
  refine Barren.lift fun n hn => BarrenJunction.toPredicate ?_
  exact hagain _ n ⟨hc.model, hc.registry⟩ (relatedDomain_unsatisfied h hops hn)

/-- A condition on each of no or more names is one that nothing satisfies. -/
lemma nameMatching_unsatisfied (co : Model) (names : List String) {op : String} {value : Json}
    (h : Hopeless op value) : Unsatisfied (nameMatching co names false op value) := by
  unfold nameMatching
  generalize hns : (names.map fun name =>
    leafNode (if relationalName co name then name ++ ".display_name" else name) op value) = ns
  have hall : ∀ n ∈ ns, Unsatisfied n := by
    intro n hn
    rw [← hns] at hn
    obtain ⟨name, -, rfl⟩ := List.mem_map.mp hn
    exact .leaf _ h
  unfold aggregate
  split
  · next n => exact hall n (List.mem_singleton_self n)
  · exact .or hall

/-- **A display name is nothing in any of the fields that it is made of.** -/
lemma displayNameCondition_barren (hagain : AgainBarren again) (hc : c.Plain) {op : String}
    {value : Json} (h : Hopeless op value) : Barren (c.displayNameCondition again op value) := by
  unfold displayNameCondition
  split
  · exact Barren.refuse _
  · next hop =>
      have hin : op = "in" := by
        have hops := h.shape.1
        simp only [List.mem_cons, List.not_mem_nil, or_false] at hops
        rcases hops with rfl | rfl | rfl
        · rfl
        · exact absurd (by decide +kernel) hop
        · exact absurd (by decide +kernel) hop
      subst hin
      obtain rfl := h.unlisted_of_in
      refine Barren.lift fun n hn => BarrenJunction.toPredicate (hagain c n hc ?_)
      unfold displayNameNode at hn
      split at hn
      · cases hn
      · next names hnames =>
          have hequality : endsWith "like" "in" = false ∧ isOrdering "in" = false ∧
              isEquality "in" = true := by decide +kernel
          have hnegative : (decide (("in" : String) ∈ ["!=", "not in"]) || startsWith "not " "in")
              = false := by decide +kernel
          simp only [hequality, hnegative, Bool.false_and, Bool.false_eq_true, if_false, if_true] at hn
          split_ifs at hn
          · cases hn
          · cases hn
          · obtain rfl := Except.ok.inj hn
            exact nameMatching_unsatisfied c.model names h

/-- No record is followed by one of no partners. -/
lemma followedByPartners_barren {field : Field} {op : String} {value : Json} (h : Hopeless op value) :
    Barren (c.followedByPartners field op value) := by
  unfold followedByPartners
  split
  · exact Barren.refuse _
  · refine Barren.lift fun positive hpositive => Barren.lift fun ids hids => ?_
    have hin : op = "in" ∧ positive = true := by
      have hops := h.shape.1
      simp only [List.mem_cons, List.not_mem_nil, or_false] at hops
      rcases hops with rfl | rfl | rfl
      · exact ⟨rfl, (Except.ok.inj hpositive).symm⟩
      · cases hpositive
      · cases hpositive
    obtain ⟨rfl, rfl⟩ := hin
    obtain rfl := h.unlisted_of_in
    obtain rfl := Except.ok.inj hids
    intro p hp db env hselects
    obtain rfl := yields_pure.mp hp
    simp at hselects

/-- **A column is a member of nothing**, whatever guards and accelerates its condition. -/
lemma columnCondition_barren (field : Field) {leaf : Leaf} (h : Hopeless leaf.op leaf.value) :
    Barren (c.columnCondition field leaf) := by
  obtain ⟨name, op, value⟩ := leaf
  cases h with
  | unlisted =>
      refine Barren.lift fun form hform => ?_
      obtain rfl := Except.ok.inj hform
      refine Barren.then fun e => ?_
      have hoperator : c.operatorCondition field (comparedExpr field e) "in" []
          = Compile.ofResult (.ok (.const false)) := by
        rw [operatorCondition, if_pos (Or.inl rfl)]
        rfl
      intro p hp db env hselects
      obtain ⟨cond, hcond, hp⟩ := yields_bind.mp hp
      rw [hoperator, yields_ofResult] at hcond
      obtain rfl := Except.ok.inj hcond
      obtain ⟨accelerator, haccelerator, hp⟩ := yields_bind.mp hp
      obtain rfl := yields_pure.mp haccelerator
      have hguard : Yields (c.companyDependentGuard field "in" [] (.const false)) p := hp
      unfold companyDependentGuard at hguard
      split at hguard
      · obtain rfl := yields_pure.mp hguard
        simp at hselects
      · split at hguard
        · obtain rfl := yields_pure.mp hguard
          simp at hselects
        · obtain ⟨-, -, hguard⟩ := yields_bind.mp hguard
          obtain rfl := yields_pure.mp hguard
          simp at hselects
  | @reached op field' op' value' hop hsub =>
      have hrefused : ∀ e values cond, ¬ Yields (c.operatorCondition field e op values) cond := by
        intro e values cond
        have hops : op ≠ "in" ∧ op ≠ "not in" ∧ endsWith "like" op = false ∧
            isOrdering op = false := by rcases hop with rfl | rfl <;> decide +kernel
        unfold operatorCondition
        rw [if_neg fun h => h.elim hops.1 hops.2.1, hops.2.2.1, hops.2.2.2]
        split
        · simp
        · simp
      refine Barren.lift fun form hform => ?_
      have hform' : form = some (op, [.array [term field' op' value']]) := by
        rcases hop with rfl | rfl <;> exact (Except.ok.inj hform).symm
      subst hform'
      refine Barren.then fun e => ?_
      intro p hp
      obtain ⟨cond, hcond, -⟩ := yields_bind.mp hp
      exact absurd hcond (hrefused _ _ cond)

lemma fieldCondition_barren (hagain : AgainBarren again) (hc : c.Plain) (field : Field)
    {leaf : Leaf} (h : Hopeless leaf.op leaf.value) :
    Barren (c.fieldCondition again field leaf) := by
  have hop := h.shape.1
  unfold fieldCondition
  dsimp only
  split
  · exact followedByPartners_barren h
  split
  · exact Barren.refuse _
  split
  · exact Barren.refuse _
  split
  · next hlike =>
      refine absurd hlike.2 ?_
      simp only [List.mem_cons, List.not_mem_nil, or_false] at hop
      rcases hop with heq | heq | heq <;> rw [heq] <;> decide +kernel
  split
  · exact Barren.refuse _
  split
  · exact x2manyCondition_barren hagain hc field h
  split
  · next hany =>
      have hin : leaf.op ≠ "in" := by
        intro heq
        rw [heq] at hany
        exact absurd hany.2 (by decide)
      have hpositive : (!startsWith "not" leaf.op) = true := by
        simp only [List.mem_cons, List.not_mem_nil, or_false] at hop
        rcases hop with heq | heq | heq <;> rw [heq] <;> decide +kernel
      rw [hpositive]
      refine Barren.lift fun n hn => Barren.then fun _ => ?_
      exact m2oAny_barren hagain hc field (h.sub_domain hin hn) _
  · exact columnCondition_barren field h

/-- **A leaf that nothing satisfies**, as it is. -/
lemma plainLeaf_barren (hagain : AgainBarren again) (hc : c.Plain) {leaf : Leaf}
    (h : Hopeless leaf.op leaf.value) : Barren (c.plainLeaf again leaf) := by
  unfold plainLeaf
  dsimp only
  split
  · exact displayNameCondition_barren hagain hc h
  · refine Barren.lift fun _ _ => ?_
    split
    · next f rel hrelated =>
        have hf : ∃ name, c.model.fields.get? name = some f := by
          unfold relatedOf at hrelated
          split at hrelated
          · next name _ =>
              obtain ⟨f', hf', hrel⟩ := Option.bind_eq_some_iff.mp hrelated
              split at hrel
              · cases hrel
              · obtain ⟨rel', -, heq⟩ := Option.map_eq_some_iff.mp hrel
                obtain ⟨rfl, -⟩ := Prod.mk.inj heq
                exact ⟨name, hf'⟩
          · cases hrelated
        obtain ⟨name, hf⟩ := hf
        exact relatedSearch_barren hagain hc (hc.model name f hf) rel h
    · refine Barren.lift fun path _ => ?_
      split
      · exact Barren.lift fun field _ => fieldCondition_barren hagain hc field h
      · exact dotted_barren hagain hc _ h

lemma compileLeaf_barren (hagain : AgainBarren again) (hc : c.Plain) {leaf : Leaf}
    (h : Hopeless leaf.op leaf.value) : Barren (c.compileLeaf again leaf) := by
  rw [compileLeaf, h.not_fragment, if_neg Bool.false_ne_true]
  refine Barren.lift fun rewritten hrewritten => ?_
  obtain rfl := h.optimizeLeaf hrewritten
  exact plainLeaf_barren hagain hc h

/-- A conjunction with a member that selects nothing. -/
lemma compileAll_barren_and {ns : List Node} {n : Node} (hn : n ∈ ns)
    (hbarren : BarrenJunction (again c n)) : ∀ cond : Condition, cond.conj = true →
      BarrenJunction (c.compileAll again cond ns) := by
  intro cond hconj out hout db env hholds
  have hkeeps : ∀ (ns : List Node) (cond out : Condition), cond.conj = true →
      Yields (c.compileAll again cond ns) out → out.Holds db env → cond.Holds db env := by
    intro ns
    induction ns with
    | nil =>
        intro cond out _ hout hholds
        obtain rfl := yields_pure.mp hout
        exact hholds
    | cons m ms ih =>
        intro cond out hconj hout hholds
        obtain ⟨k, -, hout⟩ := yields_bind.mp hout
        have hadd := ih _ out (by rwa [Condition.add_conj]) hout hholds
        exact ((holds_add_all _ _ hconj).mp hadd).1
  induction ns generalizing cond with
  | nil => exact absurd hn List.not_mem_nil
  | cons m ms ih =>
      obtain ⟨k, hk, hrest⟩ := yields_bind.mp hout
      have hadd : (cond.add k).conj = true := by rwa [Condition.add_conj]
      rcases List.mem_cons.mp hn with rfl | hn
      · have hfirst := hkeeps ms _ out hadd hrest hholds
        exact hbarren k hk db env ((holds_add_all _ _ hconj).mp hfirst).2
      · exact ih hn _ hadd hrest

/-- A disjunction whose members select nothing. -/
lemma compileAll_barren_or {ns : List Node} (hns : ∀ n ∈ ns, BarrenJunction (again c n))
    (db : Database) (env : Env) : ∀ cond out : Condition, cond.conj = false → ¬ cond.Holds db env →
      Yields (c.compileAll again cond ns) out → ¬ out.Holds db env := by
  induction ns with
  | nil =>
      intro cond out _ hcond hout
      obtain rfl := yields_pure.mp hout
      exact hcond
  | cons m ms ih =>
      intro cond out hconj hcond hout
      rw [List.forall_mem_cons] at hns
      obtain ⟨k, hk, hout⟩ := yields_bind.mp hout
      refine ih hns.2 _ out (by rwa [Condition.add_conj]) ?_ hout
      rw [holds_add_any _ _ hconj]
      exact fun h => h.elim hcond (hns.1 k hk db env)

/-- **One call of the compiler** on a domain that selects nothing. -/
lemma compileNode_barren (hagain : AgainBarren again) (hc : c.Plain) (fuel : ℕ) {n : Node}
    (hn : Unsatisfied n) : BarrenJunction (c.compileNode again fuel n) := by
  intro cond hcond db env
  unfold compileNode at hcond
  split at hcond
  · simp at hcond
  · cases hn with
    | constant =>
        obtain rfl := yields_pure.mp hcond
        exact not_holds_any
    | leaf field h =>
        obtain ⟨p, hp, hcond⟩ := yields_bind.mp hcond
        obtain rfl := yields_pure.mp hcond
        rw [holds_addPredicate Condition.conj_all]
        exact fun hholds => compileLeaf_barren hagain hc h p hp db env hholds.2
    | and hm hsub => exact compileAll_barren_and hm (hagain c _ hc hsub) _ rfl cond hcond db env
    | or hns =>
        exact compileAll_barren_or (fun m hm => hagain c m hc (hns m hm)) db env _ cond rfl
          not_holds_any hcond

end Again

/-- **What a domain that selects nothing is compiled to holds nowhere.** -/
lemma compile_barren : ∀ fuel, AgainBarren (compile fuel)
  | 0, c, n, _, _ => by
      intro cond hcond
      simp [compile, outOfCalls] at hcond
  | fuel + 1, _, _, hc, hn => compileNode_barren (compile_barren fuel) hc fuel hn

end Compiler

end OdooKernel
