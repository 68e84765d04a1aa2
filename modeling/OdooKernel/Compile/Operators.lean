import OdooKernel.Compile.Nothing

/-!
# Operators that are none

A leaf whose operator is none of the condition operators is refused on every route through the
compiler, unless its operator ends like one of the patterns.

**Where it may be.**  Such a leaf may stand at any depth, in the domain that another leaf asks of the
records it reaches too (`Occurs`).  A negation keeps it, whatever becomes of the leaf's operator
(`Compiler.negate_occurs`); the passes leave it as it is (`Foreign.optimizeLeaf`); a display name and
a related field ask for it further on.

**Operators that end like a pattern.**  The source tells patterns by the end of the operator, so
`unlike` is one, and folds to a constant on a pattern that every text matches (`unlike_compiles`).
The condition is exact: it names these operators and no others.

* `Unrecognised`, `Foreign` — an operator that no suffix test takes for a pattern, and the leaves
  that ask for one.
* `Refused` — a computation that returns nothing.
* `Compiler.compileNode_refused` — one call of the compiler on such a domain, by its shapes.
* **`unknown_refused_iff`** — when an operator that is none is always refused.
-/

namespace OdooKernel

/-- The operators of a condition. -/
def conditionOperators : List String :=
  ["=", "==", "!=", "<>", "=?", "<", ">", "<=", ">=", "in", "not in", "like", "not like", "ilike",
    "not ilike", "=like", "not =like", "=ilike", "not =ilike", "any", "not any", "any!", "not any!",
    "child_of", "parent_of"]

/-- A leaf with such an operator occurs in a domain, or in the domain that one of its leaves asks of
the records it reaches. -/
inductive Occurs (P : String → Prop) : Node → Prop
  | leaf {op : String} (field : String) (value : Json) : P op → Occurs P (leafNode field op value)
  | reached {op : String} {value : Json} {n : Node} (field : String) : Compiler.isAny op = true →
      parse value = .ok n → Occurs P n → Occurs P (leafNode field op value)
  | and {ns : List Node} {n : Node} : n ∈ ns → Occurs P n → Occurs P (.And ns)
  | or {ns : List Node} {n : Node} : n ∈ ns → Occurs P n → Occurs P (.Or ns)
  | not {n : Node} : Occurs P n → Occurs P (.Not n)

lemma Occurs.mono {P Q : String → Prop} (h : ∀ op, P op → Q op) {n : Node} (hn : Occurs P n) :
    Occurs Q n := by
  induction hn with
  | leaf field value hop => exact .leaf field value (h _ hop)
  | reached field hany hparse _ ih => exact .reached field hany hparse ih
  | and hmem _ ih => exact .and hmem ih
  | or hmem _ ih => exact .or hmem ih
  | not _ ih => exact .not ih

/-! ## Operators that no test recognises -/

/-- No condition operator, and no suffix of a pattern's. -/
structure Unrecognised (op : String) : Prop where
  foreign : op ∉ conditionOperators
  noPattern : endsWith "like" op = false

/-- A leaf with an operator that is not recognised, or with a domain in which one occurs. -/
def Foreign (op : String) (value : Json) : Prop :=
  Unrecognised op ∨ Compiler.isAny op = true ∧ ∃ n, parse value = .ok n ∧ Occurs Unrecognised n

lemma occurs_leaf {field op : String} {value : Json} :
    Occurs Unrecognised (leafNode field op value) ↔ Foreign op value := by
  constructor
  · intro h
    generalize hn : leafNode field op value = n at h
    cases h with
    | leaf field' value' hop =>
        obtain ⟨-, rfl, -⟩ := Leaf.mk.inj (Node.Leaf.inj hn)
        exact .inl hop
    | reached field' hany hparse hsub =>
        obtain ⟨-, rfl, rfl⟩ := Leaf.mk.inj (Node.Leaf.inj hn)
        exact .inr ⟨hany, _, hparse, hsub⟩
    | and _ _ => cases hn
    | or _ _ => cases hn
    | not _ => cases hn
  · rintro (hop | ⟨hany, n, hparse, hsub⟩)
    · exact .leaf field value hop
    · exact .reached field hany hparse hsub

namespace Unrecognised

variable {op : String}

lemma ne (h : Unrecognised op) {known : String} (hknown : known ∈ conditionOperators) : op ≠ known := by
  rintro rfl
  exact h.foreign hknown

lemma notMem (h : Unrecognised op) {known : List String} (hknown : known ⊆ conditionOperators) :
    op ∉ known := fun hop => h.foreign (hknown hop)

/-- Without a `not` in front it is no operator either: where it has a pattern's name inside. -/
lemma withoutNot (h : Unrecognised op) (hlike : containsText "like" op = true) :
    Unrecognised (Compiler.withoutNot op) := by
  unfold Compiler.withoutNot
  split
  · next hnot =>
      obtain ⟨rest, hrest⟩ : "not ".toList <+: op.toList := List.isPrefixOf_iff_prefix.mp hnot
      have hdrop : op.toList.drop 4 = rest := by
        rw [← hrest]
        rfl
      rw [hdrop]
      constructor
      · intro hmem
        have hop : op = "not " ++ String.ofList rest := by
          apply String.toList_injective
          rw [String.toList_append, @String.toList_ofList rest]
          exact hrest.symm
        have hall : ∀ known ∈ conditionOperators, containsText "like" ("not " ++ known) = true →
            endsWith "like" ("not " ++ known) = true := by decide +kernel
        have hends := hall _ hmem (hop ▸ hlike)
        rw [← hop, h.noPattern] at hends
        cases hends
      · rw [Bool.eq_false_iff]
        intro hends
        have hsuffix : "like".toList <:+ rest := by
          simpa [endsWith, List.isSuffixOf_iff_suffix] using hends
        have hop : endsWith "like" op = true := by
          rw [endsWith, List.isSuffixOf_iff_suffix, ← hrest]
          exact hsuffix.trans (List.suffix_append _ _)
        rw [h.noPattern] at hop
        cases hop
  · exact h

end Unrecognised

namespace Foreign

variable {op : String} {value : Json}

/-- The tests that such an operator fails. -/
lemma untested (h : Foreign op value) : isOrdering op = false ∧ endsWith "like" op = false ∧
    op ∉ ["=?", "=", "==", "!=", "<>", "in", "not in"] := by
  rcases h with h | ⟨hany, -⟩
  · exact ⟨decide_eq_false (h.notMem (by decide)), h.noPattern, h.notMem (by decide)⟩
  · have hall : ∀ any ∈ ["any", "not any", "any!", "not any!"], isOrdering any = false ∧
        endsWith "like" any = false ∧ any ∉ ["=?", "=", "==", "!=", "<>", "in", "not in"] := by
      decide +kernel
    exact hall op (of_decide_eq_true hany)

/-- What is asked of a field is asked of the field at the end of a path to it. -/
lemma term (h : Foreign op value) (field : String) {any : String} (hany : Compiler.isAny any = true) :
    Foreign any (.array [OdooKernel.term field op value]) :=
  .inr ⟨hany, _, parse_term field op value, occurs_leaf.mpr h⟩

/-- The domain that is asked of the records a field reaches. -/
lemma sub_domain (h : Foreign op value) (hany : Compiler.isAny op = true) {n : Node}
    (hn : parse value = .ok n) : Occurs Unrecognised n := by
  rcases h with h | ⟨-, m, hm, hoccurs⟩
  · have hall : ["any", "not any", "any!", "not any!"] ⊆ conditionOperators := by decide
    exact absurd (of_decide_eq_true hany) (h.notMem hall)
  · rwa [Except.ok.inj (hn.symm.trans hm)]

/-- The positive operator asks for the same. -/
lemma positive (h : Foreign op value) {p : String} (hp : positiveOperator op = some p) :
    Foreign p value := by
  rcases h with h | ⟨hany, hsub⟩
  · have hnone : positiveOperator op = none := by
      unfold positiveOperator
      split <;> first | rfl | exact absurd rfl (h.ne (by decide))
    rw [hnone] at hp
    cases hp
  · refine .inr ⟨?_, hsub⟩
    have hall : ∀ any ∈ ["any", "not any", "any!", "not any!"], ∀ p ∈ positiveOperator any,
        Compiler.isAny p = true := by decide
    exact hall op (of_decide_eq_true hany) p hp

/-- The operator that selects the other rows asks for the same. -/
lemma flipped (h : Foreign op value) {p : String} (hp : Compiler.flipped op = some p) :
    Foreign p value := by
  rcases h with h | ⟨hany, hsub⟩
  · have hnone : Compiler.flipped op = none := by
      unfold Compiler.flipped
      split <;> first | rfl | exact absurd rfl (h.ne (by decide))
    rw [hnone] at hp
    cases hp
  · refine .inr ⟨?_, hsub⟩
    have hall : ∀ any ∈ ["any", "not any", "any!", "not any!"], ∀ p ∈ Compiler.flipped any,
        Compiler.isAny p = true := by decide
    exact hall op (of_decide_eq_true hany) p hp

/-- Every pass leaves such a leaf as it is. -/
lemma first_pass {c : Compiler} {l : LeafView} (h : Foreign l.leaf.op l.leaf.value) :
    Pass.first [Compiler.refuseOrderings l, Compiler.rewriteUnlessUnset l,
      Compiler.rewriteEquality l, Compiler.wrapMember l, c.rewritePattern l, Compiler.textNumbers l,
      c.wholeDays l, Compiler.refuseRelational l, Compiler.namesAndIds l, c.numericTexts l,
      Compiler.booleanValues l, Compiler.unsetOrdering l] = .ok none := by
  obtain ⟨hordering, hlike, hops⟩ := h.untested
  simp only [List.mem_cons, List.not_mem_nil, or_false, not_or] at hops
  have hmember : l.isMembership = false := by simp [LeafView.isMembership, hops]
  have hcompares : l.comparesValues = false := by simp [LeafView.comparesValues, hmember, hordering]
  have hrelational : Compiler.refuseRelational l = Pass.next := by
    unfold Compiler.refuseRelational
    split <;> simp [hordering, hmember]
  have hboolean : Compiler.booleanValues l = Pass.next := by
    unfold Compiler.booleanValues
    split <;> simp [hmember]
  have hunset : Compiler.unsetOrdering l = Pass.next := by
    unfold Compiler.unsetOrdering
    split <;> simp [hordering]
  have hfirst : Compiler.refuseOrderings l = Pass.next ∧ Compiler.rewriteUnlessUnset l = Pass.next ∧
      Compiler.rewriteEquality l = Pass.next ∧ Compiler.wrapMember l = Pass.next ∧
      c.rewritePattern l = Pass.next := by
    refine ⟨?_, if_neg hops.1, ?_, ?_, ?_⟩
    · simp [Compiler.refuseOrderings, hordering]
    · simp [Compiler.rewriteEquality, hops]
    · simp [Compiler.wrapMember, hmember]
    · simp [Compiler.rewritePattern, hlike]
  have hvalues : Compiler.textNumbers l = Pass.next ∧ c.wholeDays l = Pass.next ∧
      Compiler.namesAndIds l = Pass.next ∧ c.numericTexts l = Pass.next := by
    refine ⟨?_, ?_, ?_, ?_⟩
    · simp [Compiler.textNumbers, hcompares]
    · simp [Compiler.wholeDays, hcompares]
    · simp [Compiler.namesAndIds, hmember]
    · simp [Compiler.numericTexts, hcompares]
  obtain ⟨hrefuse, hunless, hequality, hwrap, hpattern⟩ := hfirst
  obtain ⟨htext, hdays, hnames, hnumeric⟩ := hvalues
  simp only [hrefuse, hunless, hequality, hwrap, hpattern, hunset, htext, hdays, hrelational, hnames,
    hnumeric, hboolean, Pass.first, Pass.next]

/-- **Nothing is rewritten in such a leaf.** -/
lemma optimizeLeaf {c : Compiler} {leaf : Leaf} (h : Foreign leaf.op leaf.value) {out : Option Node}
    (hout : c.optimizeLeaf leaf = .ok out) : out = none := by
  unfold Compiler.optimizeLeaf at hout
  obtain ⟨-, -, hout⟩ := bind_eq_ok.mp hout
  rw [@first_pass c (c.view leaf) h, Except.ok.injEq] at hout
  exact hout.symm

end Foreign

/-! ## Where names are searched -/

/-- A model whose name is searched in fields is searched in at least one, as the exporter writes it. -/
def Model.Nameable (m : Model) : Prop := m.nameSearchFields ≠ some []

/-- A display name asks each field that it is made of. -/
lemma displayNameNode_occurs {co : Model} (hco : co.Nameable) {op : String} {value : Json}
    (h : Unrecognised op) {n : Node} (hn : displayNameNode co op value = .ok n) :
    Occurs Unrecognised n := by
  unfold displayNameNode at hn
  split at hn
  · cases hn
  · next names hnames =>
      have hordering : isOrdering op = false := decide_eq_false (h.notMem (by decide))
      have hequality : isEquality op = false := decide_eq_false (h.notMem (by decide))
      simp only [h.noPattern, hordering, hequality, Bool.false_and, Bool.false_eq_true, if_false] at hn
      split_ifs at hn
      · cases hn
      · cases hn
      · obtain rfl := Except.ok.inj hn
        obtain ⟨name, hname⟩ := List.exists_mem_of_ne_nil names fun hnil => hco (hnil ▸ hnames)
        unfold nameMatching
        generalize hns : (names.map fun name =>
          leafNode (if relationalName co name then name ++ ".display_name" else name) op value) = ns
        have hmem : leafNode (if relationalName co name then name ++ ".display_name" else name) op
            value ∈ ns := hns ▸ List.mem_map_of_mem hname
        have hoccurs : ∀ field, Occurs Unrecognised (leafNode field op value) :=
          fun field => .leaf field value h
        unfold aggregate
        split
        · next n => exact List.mem_singleton.mp hmem ▸ hoccurs _
        · split
          · exact .and hmem (hoccurs _)
          · exact .or hmem (hoccurs _)

/-- The chain of a related field ends at what is asked. -/
lemma relatedDomain_occurs {f : Field} {rel op : String} {value : Json} (h : Foreign op value)
    {canBeNull : Bool} {hops : List Field} {n : Node}
    (hn : relatedDomain f rel op value canBeNull hops = .ok n) : Occurs Unrecognised n := by
  have hchained : ∀ (anyOp notAnyOp last : String) (steps : List (String × Field)),
      Compiler.isAny anyOp = true → ∃ n, Occurs Unrecognised n ∧
        parse (.array (chained anyOp notAnyOp canBeNull (term last op value) steps)) = .ok n := by
    intro anyOp notAnyOp last steps hany
    induction steps with
    | nil => exact ⟨_, occurs_leaf.mpr h, parse_term last op value⟩
    | cons step steps ih =>
        obtain ⟨inner, hinner, hparse⟩ := ih
        have hstep : Occurs Unrecognised (leafNode step.1 anyOp
            (.array (chained anyOp notAnyOp canBeNull (term last op value) steps))) :=
          .reached step.1 hany hparse hinner
        rw [chained]
        split
        · exact ⟨_, .or List.mem_cons_self hstep, rfl⟩
        · split
          · exact ⟨_, .or List.mem_cons_self hstep, rfl⟩
          · exact ⟨_, hstep, parse_term _ _ _⟩
  have hsudo : ∃ anyOp notAnyOp, Compiler.isAny anyOp = true ∧
      (if f.computeSudo then ("any!", "not any!") else ("any", "not any")) = (anyOp, notAnyOp) := by
    cases f.computeSudo with
    | false => exact ⟨"any", "not any", by decide, rfl⟩
    | true => exact ⟨"any!", "not any!", by decide, rfl⟩
  obtain ⟨anyOp, notAnyOp, hany, hpair⟩ := hsudo
  unfold relatedDomain at hn
  rw [hpair] at hn
  obtain ⟨m, hm, hparse⟩ := hchained anyOp notAnyOp ((splitDots rel).getLastD "")
    ((splitDots rel).dropLast.zip hops) hany
  rw [← Except.ok.inj (hparse.symm.trans hn)]
  exact hm

/-! ## Negation -/

namespace Compiler

variable {c : Compiler}

lemma negatePlain_occurs {fuel : ℕ} {leaf : Leaf} (h : Foreign leaf.op leaf.value) {m : Node}
    (hm : c.negatePlain fuel leaf = .ok m) : Occurs Unrecognised m := by
  have hinequality : c.negateInequality leaf ≠ .ok m := by
    intro hm
    obtain ⟨op, hop, -⟩ := bind_eq_ok.mp hm
    have hordering := h.untested.1
    unfold inverseInequality at hop
    split at hop
    · next heq => exact absurd (heq ▸ hordering) (by decide)
    · next heq => exact absurd (heq ▸ hordering) (by decide)
    · next heq => exact absurd (heq ▸ hordering) (by decide)
    · next heq => exact absurd (heq ▸ hordering) (by decide)
    · cases hop
  unfold negatePlain at hm
  split at hm
  · next op f hop _ =>
      obtain ⟨negates, -, hm⟩ := bind_eq_ok.mp hm
      split at hm
      · obtain rfl := Except.ok.inj hm
        exact occurs_leaf.mpr (h.flipped hop)
      · obtain rfl := Except.ok.inj hm
        exact .not (occurs_leaf.mpr h)
  · next op hop _ =>
      obtain rfl := Except.ok.inj hm
      exact occurs_leaf.mpr (h.flipped hop)
  · obtain ⟨keeps, hkeeps, hm⟩ := bind_eq_ok.mp hm
    rw [keepsOrdering, h.untested.1] at hkeeps
    obtain rfl := Except.ok.inj hkeeps
    exact absurd hm hinequality
  · exact absurd hm hinequality

/-- A leaf on a path becomes one on its head, any other takes the opposite operator or is kept. -/
lemma negateLeaf_occurs {fuel : ℕ} {again : Node → Result Node} {leaf : Leaf}
    (h : Foreign leaf.op leaf.value) {m : Node} (hm : c.negateLeaf fuel again leaf = .ok m) :
    Occurs Unrecognised m := by
  obtain ⟨rewritten, hrewritten, hm⟩ := bind_eq_ok.mp hm
  obtain rfl := h.optimizeLeaf hrewritten
  dsimp only at hm
  split at hm
  · next head rest _ =>
      obtain rfl := Except.ok.inj hm
      exact occurs_leaf.mpr (h.term rest (by decide))
  · exact negatePlain_occurs h hm

mutual
lemma negateWith_occurs {f : Leaf → Result Node}
    (hf : ∀ leaf m, Foreign leaf.op leaf.value → f leaf = .ok m → Occurs Unrecognised m) :
    ∀ n m, Occurs Unrecognised n → negateWith f n = .ok m → Occurs Unrecognised m
  | .True, _, h, _ => by cases h
  | .False, _, h, _ => by cases h
  | .Not inner, m, h, hm => by
      obtain rfl := Except.ok.inj hm
      cases h with
      | not h => exact h
  | .And ns, m, h, hm => by
      obtain ⟨ms, hms, hm⟩ := bind_eq_ok.mp hm
      obtain rfl := Except.ok.inj hm
      cases h with
      | and hn h =>
          obtain ⟨m, hm, hoccurs⟩ := negateAll_occurs hf ns ms ⟨_, hn, h⟩ hms
          exact .or hm hoccurs
  | .Or ns, m, h, hm => by
      obtain ⟨ms, hms, hm⟩ := bind_eq_ok.mp hm
      obtain rfl := Except.ok.inj hm
      cases h with
      | or hn h =>
          obtain ⟨m, hm, hoccurs⟩ := negateAll_occurs hf ns ms ⟨_, hn, h⟩ hms
          exact .and hm hoccurs
  | .Leaf leaf, m, h, hm => hf leaf m (occurs_leaf.mp h) hm

lemma negateAll_occurs {f : Leaf → Result Node}
    (hf : ∀ leaf m, Foreign leaf.op leaf.value → f leaf = .ok m → Occurs Unrecognised m) :
    ∀ ns ms, (∃ n ∈ ns, Occurs Unrecognised n) → negateAll f ns = .ok ms →
      ∃ m ∈ ms, Occurs Unrecognised m
  | [], _, h, _ => by
      obtain ⟨n, hn, -⟩ := h
      exact absurd hn List.not_mem_nil
  | n :: ns, ms, h, hms => by
      obtain ⟨first, hfirst, hms⟩ := bind_eq_ok.mp hms
      obtain ⟨rest, hrest, hms⟩ := bind_eq_ok.mp hms
      obtain rfl := Except.ok.inj hms
      obtain ⟨k, hk, h⟩ := h
      rcases List.mem_cons.mp hk with heq | hk
      · exact ⟨first, List.mem_cons_self, negateWith_occurs hf n first (heq ▸ h) hfirst⟩
      · obtain ⟨m, hm, hoccurs⟩ := negateAll_occurs hf ns rest ⟨k, hk, h⟩ hrest
        exact ⟨m, List.mem_cons_of_mem first hm, hoccurs⟩
end

/-- **A negation keeps such a leaf.** -/
lemma negate_occurs : ∀ {fuel : ℕ} {n m : Node}, Occurs Unrecognised n → c.negate fuel n = .ok m →
    Occurs Unrecognised m
  | 0, _, _, _, hm => by cases hm
  | _ + 1, n, m, h, hm =>
      negateWith_occurs (fun _ _ hleaf hm => negateLeaf_occurs hleaf hm) n m h hm

end Compiler

/-! ## Computations that return nothing -/

/-- No value is returned. -/
def Refused {α : Type} (x : Compile α) : Prop := ∀ a, ¬ Yields x a

section

variable {α β : Type}

lemma Refused.error {x : Result α} (h : ∀ a, x ≠ .ok a) : Refused (Compile.ofResult x) :=
  fun a ha => h a (yields_ofResult.mp ha)

lemma Refused.refuse (reason : String) :
    Refused (Compile.ofResult (OdooKernel.refuse reason : Result α)) :=
  Refused.error fun _ h => by cases h

lemma Refused.first {x : Compile α} (h : Refused x) (f : α → Compile β) : Refused (x >>= f) := by
  intro b hb
  obtain ⟨a, ha, -⟩ := yields_bind.mp hb
  exact h a ha

lemma Refused.then {x : Compile α} {f : α → Compile β} (h : ∀ a, Refused (f a)) : Refused (x >>= f) := by
  intro b hb
  obtain ⟨a, -, hb⟩ := yields_bind.mp hb
  exact h a b hb

lemma Refused.lift {x : Result α} {f : α → Compile β} (h : ∀ a, x = .ok a → Refused (f a)) :
    Refused (Compile.ofResult x >>= f) := by
  intro b hb
  obtain ⟨a, ha, hb⟩ := yields_bind.mp hb
  exact h a (yields_ofResult.mp ha) b hb

end

namespace Compiler

/-- Where every model whose name is searched in fields is searched in at least one. -/
structure Nameable (c : Compiler) : Prop where
  model : c.model.Nameable
  registry : ∀ name m, c.ctx.registry.get name = .ok m → m.Nameable

lemma Nameable.sub {c : Compiler} (hc : c.Nameable) {name : String} {co : Model}
    (hco : c.ctx.registry.get name = .ok co) (aliasName : String) :
    (c.subCompiler co aliasName).Nameable := ⟨hc.registry name co hco, hc.registry⟩

lemma Nameable.asSudo {c : Compiler} (hc : c.Nameable) : c.asSudo.Nameable := ⟨hc.model, hc.registry⟩

section Again

variable {c : Compiler} {again : Compiler → Node → Compile Condition}

/-- The compiler is called again on a domain with such a leaf. -/
def AgainRefused (again : Compiler → Node → Compile Condition) : Prop :=
  ∀ (c : Compiler) n, c.Nameable → Occurs Unrecognised n → Refused (again c n)

lemma m2oAny_refused (hagain : AgainRefused again) (hc : c.Nameable) (field : Field) {n : Node}
    (hn : Occurs Unrecognised n) (positive : Bool) (bypassAccess : Option Bool) :
    Refused (c.m2oAny again field n positive bypassAccess) :=
  Refused.lift fun _ _ => Refused.lift fun _ hco => (hagain _ n (hc.sub hco _) hn).first _

lemma x2manySubselect_refused (hagain : AgainRefused again) (hc : c.Nameable) (field : Field)
    {n : Node} (hn : Occurs Unrecognised n) (positive applyActive asSudo : Bool)
    (bypassAccess : Option Bool) :
    Refused (c.x2manySubselect again field (some n) positive applyActive asSudo bypassAccess) := by
  refine Refused.lift fun name hname => Refused.lift fun co hco => Refused.first ?_ _
  have hsub : ∀ aliasName, (if asSudo then (c.subCompiler co aliasName).asSudo
      else c.subCompiler co aliasName).Nameable := by
    intro aliasName
    cases asSudo with
    | false => exact hc.sub hco aliasName
    | true => exact (hc.sub hco aliasName).asSudo
  exact Refused.then fun own => ((hagain _ n (hsub _) hn).first _).first _

lemma x2manyCondition_refused (hagain : AgainRefused again) (hc : c.Nameable) (field : Field)
    {leaf : Leaf} (h : Foreign leaf.op leaf.value) :
    Refused (c.x2manyCondition again field leaf) := by
  have hops := h.untested.2.2
  simp only [List.mem_cons, List.not_mem_nil, or_false, not_or] at hops
  unfold x2manyCondition
  split
  · next hany =>
      refine Refused.lift fun n hn => Refused.then fun _ => ?_
      exact x2manySubselect_refused hagain hc field (h.sub_domain hany hn) _ _ _ _
  · rw [if_neg (by simp [hops]), if_neg (by simp [hops])]
    exact Refused.refuse _

/-- **A path leads to a leaf of the same operator.** -/
lemma dotted_refused (hagain : AgainRefused again) (hc : c.Nameable) (path : List String) {op : String}
    {value : Json} (h : Foreign op value) : Refused (c.dotted again path op value) := by
  have hsub : Occurs Unrecognised (leafNode (joinDots path.tail) op value) := occurs_leaf.mpr h
  refine Refused.lift fun head _ => ?_
  dsimp only
  split
  · exact m2oAny_refused hagain hc head hsub _ _
  · exact x2manySubselect_refused hagain hc head hsub _ _ _ _
  · exact x2manySubselect_refused hagain hc head hsub _ _ _ _
  · exact Refused.refuse _

/-- **A related field is asked through its steps**, by the positive operator where it is negated. -/
lemma relatedSearch_refused (hagain : AgainRefused again) (hc : c.Nameable) (f : Field) (rel : String)
    {op : String} {value : Json} (h : Foreign op value) :
    Refused (c.relatedSearch again f rel op value) := by
  refine Refused.lift fun hops _ => Refused.lift fun flags _ => ?_
  have hsteps : ({ c with origin := c.stepsOrigin f hops } : Compiler).Nameable :=
    ⟨hc.model, hc.registry⟩
  dsimp only
  split
  · next positive hpositive =>
      have hforeign := h.positive (Option.filter_eq_some_iff.mp hpositive).1
      refine Refused.lift fun n hn => Refused.first ?_ _
      exact hagain _ _ hsteps (.not (relatedDomain_occurs hforeign hn))
  · refine Refused.lift fun n hn => Refused.first ?_ _
    exact hagain _ _ hsteps (relatedDomain_occurs h hn)

/-- **A display name is asked of the fields that it is made of.** -/
lemma displayNameCondition_refused (hagain : AgainRefused again) (hc : c.Nameable) {op : String}
    {value : Json} (h : Foreign op value) : Refused (c.displayNameCondition again op value) := by
  unfold displayNameCondition
  split
  · exact Refused.refuse _
  · next hop =>
      refine Refused.lift fun n hn => Refused.first (hagain c n hc ?_) _
      rcases h with h | ⟨hany, -⟩
      · exact displayNameNode_occurs hc.model h hn
      · have hall : ∀ any ∈ ["any", "not any", "any!", "not any!"],
            containsText "like" any = false ∧ isEquality any = false := by decide +kernel
        obtain ⟨hlike, hequality⟩ := hall op (of_decide_eq_true hany)
        exact absurd ⟨by rw [hlike]; rfl, by rw [hequality]; decide⟩ hop

/-- **A many2one is asked by the name of its record.** -/
lemma m2oNameSearch_refused (hagain : AgainRefused again) (hc : c.Nameable) (field : Field)
    {op : String} {value : Json} (h : Unrecognised op) (hlike : containsText "like" op = true) :
    Refused (c.m2oNameSearch again field op value) := by
  refine Refused.lift fun name _ => Refused.lift fun co hco => Refused.lift fun n hn => ?_
  exact m2oAny_refused hagain hc field
    (displayNameNode_occurs (hc.registry name co hco) (h.withoutNot hlike) hn) _ _

lemma columnCondition_refused (field : Field) {leaf : Leaf} (h : Foreign leaf.op leaf.value) :
    Refused (c.columnCondition field leaf) := by
  obtain ⟨hordering, hpattern, hops⟩ := h.untested
  simp only [List.mem_cons, List.not_mem_nil, or_false, not_or] at hops
  refine Refused.lift fun form hform => ?_
  have hform : form = some (leaf.op, [leaf.value]) := by
    unfold memberForm at hform
    split at hform
    · next heq => exact absurd heq hops.2.1
    · next heq => exact absurd heq hops.2.2.1
    · next heq => exact absurd heq hops.2.2.2.1
    · next heq => exact absurd heq hops.2.2.2.2.1
    · next heq => exact absurd heq hops.1
    · next heq => exact absurd heq hops.2.2.2.2.2.1
    · next heq => exact absurd heq hops.2.2.2.2.2.2
    · cases hform
    · cases hform
    · exact (Except.ok.inj hform).symm
  subst hform
  refine Refused.then fun e => Refused.first ?_ _
  unfold operatorCondition
  rw [if_neg (by simp [hops]), hpattern, hordering]
  split
  · exact Refused.refuse _
  · exact Refused.refuse _

lemma fieldCondition_refused (hagain : AgainRefused again) (hc : c.Nameable) (field : Field)
    {leaf : Leaf} (h : Foreign leaf.op leaf.value) : Refused (c.fieldCondition again field leaf) := by
  have hops := h.untested.2.2
  simp only [List.mem_cons, List.not_mem_nil, or_false, not_or] at hops
  unfold fieldCondition
  dsimp only
  split
  · unfold followedByPartners
    split
    · exact Refused.refuse _
    · unfold followerSign
      rw [if_neg (by simp [hops]), if_neg (by simp [hops])]
      exact (Refused.refuse _).first _
  split
  · exact Refused.refuse _
  split
  · exact Refused.refuse _
  split
  · next hlike =>
      rcases h with h | ⟨hany, -⟩
      · exact m2oNameSearch_refused hagain hc field h hlike.2
      · have hall : ∀ any ∈ ["any", "not any", "any!", "not any!"],
            containsText "like" any = false := by decide +kernel
        rw [hall leaf.op (of_decide_eq_true hany)] at hlike
        cases hlike.2
  split
  · exact Refused.refuse _
  split
  · exact x2manyCondition_refused hagain hc field h
  split
  · next hany =>
      refine Refused.lift fun n hn => Refused.then fun _ => ?_
      exact m2oAny_refused hagain hc field (h.sub_domain hany.2 hn) _ _
  · exact columnCondition_refused field h

lemma plainLeaf_refused (hagain : AgainRefused again) (hc : c.Nameable) {leaf : Leaf}
    (h : Foreign leaf.op leaf.value) : Refused (c.plainLeaf again leaf) := by
  unfold plainLeaf
  dsimp only
  split
  · exact displayNameCondition_refused hagain hc h
  · refine Refused.lift fun _ _ => ?_
    split
    · exact relatedSearch_refused hagain hc _ _ h
    · refine Refused.lift fun path _ => ?_
      split
      · exact Refused.lift fun field _ => fieldCondition_refused hagain hc field h
      · exact dotted_refused hagain hc _ h

/-- **A leaf that asks for no operator**: neither a subquery of Python's nor a rewriting lets it in. -/
lemma compileLeaf_refused (hagain : AgainRefused again) (hc : c.Nameable) {leaf : Leaf}
    (h : Foreign leaf.op leaf.value) : Refused (c.compileLeaf again leaf) := by
  unfold compileLeaf
  split
  · next hfragment =>
      rcases h with h | ⟨-, n, hparse, -⟩
      · unfold fragmentCondition fragmentSign
        rw [if_neg (h.notMem (by decide)), if_neg (h.notMem (by decide))]
        exact (Refused.refuse _).first _
      · cases hvalue : leaf.value with
        | object fields =>
            rw [hvalue] at hparse
            cases hparse
        | _ =>
            rw [hvalue] at hfragment
            cases hfragment
  · refine Refused.lift fun rewritten hrewritten => ?_
    obtain rfl := h.optimizeLeaf hrewritten
    exact plainLeaf_refused hagain hc h

/-- A junction is compiled with all its members. -/
lemma compileAll_refused (hagain : AgainRefused again) (hc : c.Nameable) {ns : List Node} {n : Node}
    (hn : n ∈ ns) (h : Occurs Unrecognised n) : ∀ cond, Refused (c.compileAll again cond ns) := by
  induction ns with
  | nil => exact absurd hn List.not_mem_nil
  | cons m ms ih =>
      intro cond
      rcases List.mem_cons.mp hn with rfl | hn
      · exact (hagain c n hc h).first _
      · exact Refused.then fun _ => ih hn _

/-- **One call of the compiler** on a domain with such a leaf. -/
lemma compileNode_refused (hagain : AgainRefused again) (hc : c.Nameable) (fuel : ℕ) {n : Node}
    (h : Occurs Unrecognised n) : Refused (c.compileNode again fuel n) := by
  unfold compileNode
  split
  · exact Refused.refuse _
  · cases h with
    | leaf field value hop => exact (compileLeaf_refused hagain hc (.inl hop)).first _
    | reached field hany hparse hsub =>
        exact (compileLeaf_refused hagain hc (.inr ⟨hany, _, hparse, hsub⟩)).first _
    | and hm hsub => exact compileAll_refused hagain hc hm hsub _
    | or hm hsub => exact compileAll_refused hagain hc hm hsub _
    | not hsub =>
        refine Refused.lift fun m hm => ?_
        have hoccurs := negate_occurs hsub hm
        split
        · next kept =>
            cases hoccurs with
            | not hkept => exact (hagain c kept hc hkept).first _
        · exact hagain c _ hc hoccurs

end Again

/-- **A domain with such a leaf is refused**, by induction on the calls of the compiler. -/
lemma compile_refused : ∀ fuel, AgainRefused (compile fuel)
  | 0, c, n, _, _ => by
      intro cond hcond
      simp [compile, outOfCalls] at hcond
  | fuel + 1, _, _, hc, h => compileNode_refused (compile_refused fuel) hc fuel h

end Compiler

/-! ## Operators that end like a pattern -/

namespace Contacts

def name : Field := Field.column "name" .Char "varchar" (some (.string ""))

def contact : Model := plainModel "contact" "contact" [("name", name)]

def compiler : Compiler :=
  .root (ExprCtx.plain (plainRegistry [("contact", contact)]) (Security.plain [] []) none) contact
    .empty true

lemma nameable : compiler.Nameable where
  model h := by cases h
  registry key m hm := by
    have hlookup : Dict.get? [("contact", contact)] key = some m := orRefuse_eq_ok.mp hm
    rw [Dict.get?_cons] at hlookup
    split at hlookup
    · obtain rfl := Option.some.inj hlookup
      exact fun h => by cases h
    · cases hlookup

/-- A leaf on the name, with a pattern that every text matches. -/
def wildcard (op : String) : LeafView where
  leaf := { field := "name", op, value := .string "%" }
  head := "name"
  field := some name

lemma view_wildcard (op : String) : compiler.view (wildcard op).leaf = wildcard op := by
  have hhead : headOf "name" = "name" := by decide +kernel
  simp [Compiler.view, wildcard, hhead, compiler, Compiler.root, contact, plainModel, Dict.get?_cons]

/-- **Whatever ends like a pattern is one**, and folds to a constant here. -/
lemma optimizeLeaf_wildcard {op : String} (hlike : endsWith "like" op = true) :
    compiler.optimizeLeaf (wildcard op).leaf =
      .ok (some (if startsWith "not " op then .False else .True)) := by
  have hother : ∀ known ∈ ["<", ">", "<=", ">=", "=?", "=", "==", "!=", "<>", "in", "not in"],
      op ≠ known := by
    have hall : ∀ known ∈ ["<", ">", "<=", ">=", "=?", "=", "==", "!=", "<>", "in", "not in"],
        endsWith "like" known = false := by decide +kernel
    rintro known hknown rfl
    rw [hall op hknown] at hlike
    cases hlike
  simp only [List.mem_cons, List.not_mem_nil, or_false, forall_eq_or_imp, forall_eq] at hother
  have hop : (wildcard op).leaf.op = op := rfl
  have hrefuse : Compiler.refuseOrderings (wildcard op) = Pass.next := by
    simp [Compiler.refuseOrderings, hop, isOrdering, hother]
  have hunless : Compiler.rewriteUnlessUnset (wildcard op) = Pass.next := by
    simp [Compiler.rewriteUnlessUnset, hop, hother]
  have hequality : Compiler.rewriteEquality (wildcard op) = Pass.next := by
    simp [Compiler.rewriteEquality, hop, hother]
  have hwrap : Compiler.wrapMember (wildcard op) = Pass.next := by
    simp [Compiler.wrapMember, LeafView.isMembership, hop, hother]
  have hpattern : compiler.rewritePattern (wildcard op) =
      Pass.into (if startsWith "not " op then .False else .True) := by
    unfold Compiler.rewritePattern Compiler.keepsPattern
    simp only [hop, hlike]
    cases startsWith "not " op <;> rfl
  simp only [Compiler.optimizeLeaf, view_wildcard, hrefuse, hunless, hequality, hwrap, hpattern]
  rfl

end Contacts

/-- **What is no operator is always refused**, and never folded, just where it does not end like a
pattern. -/
theorem unknown_refused_iff {op : String} (hop : op ∉ conditionOperators) :
    ((∀ c : Compiler, c.Nameable → ∀ n, Occurs (· = op) n → ∀ cond, ¬ c.Compiles n cond) ∧
      ∀ (c : Compiler) (leaf : Leaf) n, leaf.op = op → c.optimizeLeaf leaf ≠ .ok (some n)) ↔
      endsWith "like" op = false := by
  constructor
  · rintro ⟨-, hfolds⟩
    rw [Bool.eq_false_iff]
    exact fun hlike => hfolds Contacts.compiler _ _ rfl (Contacts.optimizeLeaf_wildcard hlike)
  · intro hlike
    have hunrecognised : Unrecognised op := ⟨hop, hlike⟩
    refine ⟨fun c hc n hn cond hcond => ?_, ?_⟩
    · obtain ⟨fuel, hcond⟩ := hcond
      refine Compiler.compile_refused fuel c n hc (hn.mono ?_) cond hcond
      rintro _ rfl
      exact hunrecognised
    · rintro c leaf n rfl hn
      cases Foreign.optimizeLeaf (.inl hunrecognised) hn

/-- An arrow is refused. -/
theorem arrow_refused :
    (∀ c : Compiler, c.Nameable → ∀ n, Occurs (· = "=>") n → ∀ cond, ¬ c.Compiles n cond) ∧
      ∀ (c : Compiler) (leaf : Leaf) n, leaf.op = "=>" → c.optimizeLeaf leaf ≠ .ok (some n) :=
  (unknown_refused_iff (by decide)).mpr (by decide +kernel)

/-- What is unlike something is like it. -/
theorem unlike_compiles : "unlike" ∉ conditionOperators ∧ Contacts.compiler.Nameable ∧
    Contacts.compiler.Compiles (leafNode "name" "unlike" (.string "abc"))
      (Condition.all.addPredicate
        (.like false false (.col "contact" "name") (.val (.text "%abc%")))) := by
  refine ⟨by decide, Contacts.nameable, 2, ?_⟩
  exact ⟨_, rfl⟩

end OdooKernel
