import OdooKernel.Access.Security

/-!
# What the access rows of a model read

The domain of a model's access rows depends on the rows of the model and of its delegated parents,
and on what the expressions of those that bind the principal read.  Two states of the access data and
of the database that agree on this give the same domain, whatever else they differ in.

**Expressions** read chains of names and xml ids, each of which can be read off the expression
(`namesIn`, `refsIn`); two evaluators that give these one value give the expression one
(`evalPy_congr`).

**Rows** also have a reach, which may read the principal's partner (`RowAgrees`).

**Models.**  `Governs` are the models whose rows make the domain of a model: its own and those of the
delegated parents that its access includes.

* `RowsAgree` — two states that the rows of a model read the same; `rulesDomain_congr`.
-/

namespace OdooKernel

/-! ## Expressions -/

mutual
/-- The chains of names in an expression. -/
def namesIn : PyExpr → List (List String)
  | .Name chain => [chain]
  | .Seq items => namesInAll items
  | .Add a b => namesIn a ++ namesIn b
  | .Str _ | .Int _ | .Float _ | .Bool _ | .None | .Ref _ => []

/-- The chains of names in some expressions. -/
def namesInAll : List PyExpr → List (List String)
  | [] => []
  | e :: es => namesIn e ++ namesInAll es
end

mutual
/-- The xml ids in an expression. -/
def refsIn : PyExpr → List String
  | .Ref xmlid => [xmlid]
  | .Seq items => refsInAll items
  | .Add a b => refsIn a ++ refsIn b
  | .Str _ | .Int _ | .Float _ | .Bool _ | .None | .Name _ => []

/-- The xml ids in some expressions. -/
def refsInAll : List PyExpr → List String
  | [] => []
  | e :: es => refsIn e ++ refsInAll es
end

/-- Two evaluators give an expression's names and xml ids one value. -/
structure ReadsAlike (ev ev' : Evaluator) (e : PyExpr) : Prop where
  names : ∀ chain ∈ namesIn e, ev.resolveName chain = ev'.resolveName chain
  refs : ∀ xmlid ∈ refsIn e, ev.resolveRef xmlid = ev'.resolveRef xmlid

section Eval

variable {ev ev' : Evaluator}

lemma addValues_congr (hadd : ev.addDoubles = ev'.addDoubles) (a b : Json) :
    addValues ev a b = addValues ev' a b := by
  unfold addValues
  rw [hadd]

lemma ReadsAlike.left {a b : PyExpr} (h : ReadsAlike ev ev' (.Add a b)) : ReadsAlike ev ev' a where
  names chain hc := h.names chain (List.mem_append_left _ hc)
  refs x hx := h.refs x (List.mem_append_left _ hx)

lemma ReadsAlike.right {a b : PyExpr} (h : ReadsAlike ev ev' (.Add a b)) :
    ReadsAlike ev ev' b where
  names chain hc := h.names chain (List.mem_append_right _ hc)
  refs x hx := h.refs x (List.mem_append_right _ hx)

lemma ReadsAlike.head {e : PyExpr} {es : List PyExpr} (h : ReadsAlike ev ev' (.Seq (e :: es))) :
    ReadsAlike ev ev' e where
  names chain hc := h.names chain (List.mem_append_left _ hc)
  refs x hx := h.refs x (List.mem_append_left _ hx)

lemma ReadsAlike.tail {e : PyExpr} {es : List PyExpr} (h : ReadsAlike ev ev' (.Seq (e :: es))) :
    ReadsAlike ev ev' (.Seq es) where
  names chain hc := h.names chain (List.mem_append_right _ hc)
  refs x hx := h.refs x (List.mem_append_right _ hx)

mutual
/-- **The names and xml ids of an expression decide its value.** -/
lemma evalPy_congr (hadd : ev.addDoubles = ev'.addDoubles) :
    ∀ e : PyExpr, ReadsAlike ev ev' e → evalPy ev e = evalPy ev' e
  | .Str _, _ | .Int _, _ | .Float _, _ | .Bool _, _ | .None, _ => rfl
  | .Name chain, h => h.names chain List.mem_cons_self
  | .Ref xmlid, h => by rw [evalPy, evalPy, h.refs xmlid List.mem_cons_self]
  | .Seq items, h => by rw [evalPy, evalPy, evalItems_congr hadd items h]
  | .Add a b, h => by
      simp only [evalPy, evalPy_congr hadd a h.left, evalPy_congr hadd b h.right,
        addValues_congr hadd]

lemma evalItems_congr (hadd : ev.addDoubles = ev'.addDoubles) :
    ∀ es : List PyExpr, ReadsAlike ev ev' (.Seq es) → evalItems ev es = evalItems ev' es
  | [], _ => rfl
  | e :: es, h => by
      simp only [evalItems, evalPy_congr hadd e h.head, evalItems_congr hadd es h.tail]
end

end Eval

/-! ## Rows -/

/-- Two evaluators give what a row reads one value. -/
structure RowAgrees (registry : Registry) (user : UserCtx) (model : String) (ev ev' : Evaluator)
    (rule : Rule) : Prop where
  expression : ∀ e, rule.parsed = some (.ok e) → ReadsAlike ev ev' e
  partner : ∀ reach m anchor, rule.reach = some reach → registry.get model = .ok m →
    reachAnchor model m.accessAnchors reach = .ok anchor →
      reachPartner ev user reach anchor = reachPartner ev' user reach anchor

/-- The models whose rows make the domain of a model: its own, and those of its delegated parents,
as far as its access includes them. -/
inductive Governs (registry : Registry) : String → String → Prop where
  | self (model : String) : Governs registry model model
  | parent {model parent via other : String} (hlink : (parent, via) ∈ parentLinks registry model)
      (h : Governs registry other parent) : Governs registry other model

/-- The access data and what evaluation reads of the database. -/
structure RowSource where
  security : Security
  ev : Evaluator

/-- **Two states that the rows of a model read the same.** -/
structure RowsAgree (registry : Registry) (user : UserCtx) (before after : RowSource)
    (model : String) : Prop where
  sums : before.ev.addDoubles = after.ev.addDoubles
  rules : ∀ other, Governs registry other model →
    before.security.rules.get? other = after.security.rules.get? other
  anchors : ∀ other, Governs registry other model →
    before.security.anchors.get? other = after.security.anchors.get? other
  rows : ∀ other, Governs registry other model →
    ∀ rule ∈ before.security.rules.listAt other, rule.binds user = true →
      RowAgrees registry user other before.ev after.ev rule

section Rows

variable {registry : Registry} {user : UserCtx} {before after : RowSource} {model : String}

lemma RowsAgree.of_parent {parent via : String} (h : RowsAgree registry user before after model)
    (hlink : (parent, via) ∈ parentLinks registry model) :
    RowsAgree registry user before after parent where
  sums := h.sums
  rules other hother := h.rules other (.parent hlink hother)
  anchors other hother := h.anchors other (.parent hlink hother)
  rows other hother := h.rows other (.parent hlink hother)

lemma RowsAgree.refl (registry : Registry) (user : UserCtx) (source : RowSource) (model : String) :
    RowsAgree registry user source source model where
  sums := rfl
  rules _ _ := rfl
  anchors _ _ := rfl
  rows _ _ _ _ _ := ⟨fun _ _ => ⟨fun _ _ => rfl, fun _ _ => rfl⟩, fun _ _ _ _ _ _ => rfl⟩

lemma ruleValue_congr {ev ev' : Evaluator} {rule : Rule} (hadd : ev.addDoubles = ev'.addDoubles)
    (h : RowAgrees registry user model ev ev' rule) :
    ruleValue ev model rule = ruleValue ev' model rule := by
  unfold ruleValue
  split
  · next parsed hparsed => exact evalPy_congr hadd parsed (h.expression parsed hparsed)
  · rfl
  · rfl

lemma ruleReach_congr {ev ev' : Evaluator} {rule : Rule}
    (h : RowAgrees registry user model ev ev' rule) :
    ruleReach registry ev user model rule = ruleReach registry ev' user model rule := by
  unfold ruleReach
  split
  · next reach hreach =>
      congr 1
      unfold reachDomain
      cases hm : registry.get model with
      | error e => rfl
      | ok m =>
          cases hanchor : reachAnchor model m.accessAnchors reach with
          | error e => simp only [Except.bind, bind, hanchor]
          | ok anchor =>
              simp only [Except.bind, bind, hanchor, h.partner reach m anchor hreach hm hanchor]
  · rfl

lemma ruleScope_congr {security security' : Security} {rule : Rule}
    (h : security.anchors.get? model = security'.anchors.get? model) :
    ruleScope security model rule user = ruleScope security' model rule user := by
  unfold ruleScope
  rw [h]

lemma ruleDomain_congr {rule : Rule} (h : RowsAgree registry user before after model)
    (hrow : RowAgrees registry user model before.ev after.ev rule) :
    ruleDomain registry before.security before.ev user model rule
      = ruleDomain registry after.security after.ev user model rule := by
  unfold ruleDomain
  rw [ruleValue_congr h.sums hrow, ruleReach_congr hrow,
    ruleScope_congr (h.anchors model (.self model))]

/-- A computation over a list depends on its values at the elements. -/
lemma mapM_congr {α β : Type} {f g : α → Result β} :
    ∀ {as : List α}, (∀ a ∈ as, f a = g a) → as.mapM f = as.mapM g
  | [], _ => rfl
  | a :: as, h => by
      rw [List.mapM_cons, List.mapM_cons, h a List.mem_cons_self,
        mapM_congr fun b hb => h b (List.mem_cons_of_mem _ hb)]

lemma combineRules_congr {inherited : List Json} {rules : List Rule}
    (h : RowsAgree registry user before after model)
    (hrules : before.security.rules.get? model = some rules) :
    combineRules registry before.security before.ev user model inherited rules
      = combineRules registry after.security after.ev user model inherited rules := by
  have hdomains : (rules.filter (·.binds user)).mapM
        (ruleDomain registry before.security before.ev user model)
      = (rules.filter (·.binds user)).mapM
        (ruleDomain registry after.security after.ev user model) := by
    refine mapM_congr fun rule hrule => ruleDomain_congr h ?_
    obtain ⟨hmem, hbinds⟩ := List.mem_filter.mp hrule
    refine h.rows model (.self model) rule ?_ hbinds
    rwa [Dict.listAt, hrules]
  simp only [combineRules, hdomains]

lemma inheritedTerms_congr {f g : String → Result (Option Json)} :
    ∀ {links : List (String × String)}, (∀ link ∈ links, f link.1 = g link.1) →
      inheritedTerms registry f model links = inheritedTerms registry g model links
  | [], _ => rfl
  | (parent, via) :: links, h => by
      simp only [inheritedTerms, h (parent, via) List.mem_cons_self,
        inheritedTerms_congr fun link hlink => h link (List.mem_cons_of_mem _ hlink)]

lemma rulesDomainInner_congr (remaining : ℕ) :
    ∀ {model : String}, RowsAgree registry user before after model →
      rulesDomainInner registry before.security before.ev user remaining model
        = rulesDomainInner registry after.security after.ev user remaining model := by
  induction remaining with
  | zero => exact fun _ => rfl
  | succ remaining ih =>
      intro model h
      have hlinks : ∀ link ∈ parentLinks registry model,
          rulesDomainInner registry before.security before.ev user remaining link.1
            = rulesDomainInner registry after.security after.ev user remaining link.1 := by
        rintro ⟨parent, via⟩ hlink
        exact ih (h.of_parent hlink)
      unfold rulesDomainInner
      rw [inheritedTerms_congr hlinks, ← h.rules model (.self model)]
      cases hrules : before.security.rules.get? model with
      | none => rfl
      | some rules => simp only [combineRules_congr h hrules]

/-- **What the rows of a model read decides their domain.** -/
theorem rulesDomain_congr (h : RowsAgree registry user before after model) :
    rulesDomain registry before.security before.ev user model
      = rulesDomain registry after.security after.ev user model :=
  rulesDomainInner_congr maxInheritsChain h

end Rows

end OdooKernel
