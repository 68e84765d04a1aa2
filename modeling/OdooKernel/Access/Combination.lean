import OdooKernel.Access.Splicing

/-!
# What the combined domain of the access rows admits

`rulesDomain` puts the domains of the rows together in prefix notation: the delegated parents first,
the guards one after the other, and the permissions with the disjunctions in front.  Here the domain
that comes out is compared with what the rows are for: some permission that the principal holds,
every guard that binds it, and every delegated parent.

**One row** says what its filter and its reach say, within the companies that its groups are held in
(`PermissionHolds`, `GuardHolds`); outside of these a permission admits nothing and a guard asks for
nothing.  `ruleDomain_spec` is the one statement about a row.

**All rows and the parents.**  `combineRules_spec` has the rows of one model and
`inheritedTerms_spec` the terms of the parents, which are sub-domains on the record that the
delegation reaches.  The levels of delegation are counted down, and what a parent gives by itself it
gives with one level less (`parentsHold_rulesDomain`).

**What the source does by design** is in the statement: a model without rows is not restricted by
itself, and a domain that nests past the bound of the reader is refused.
`rulesDomain_rowless_and_deep` has both.

* `HeldPermission`, `BindingGuard` — the rows that count for a principal.
* **`rulesDomain_combines`** — the combined domain.
-/

namespace OdooKernel

open PrefixNotation

/-! ## What the rows say -/

section Rows

variable (registry : Registry) (security : Security) (ev : Evaluator) (user : UserCtx)
  (model : String)

/-- A permission whose group the principal holds. -/
def HeldPermission (rule : Rule) : Prop :=
  rule.groups ≠ [] ∧ rule.restrict = false ∧ ∃ g ∈ rule.groups, g ∈ user.groups

/-- A guard on everyone, or on the members of a group the principal holds, that no held group
exempts it from. -/
def BindingGuard (rule : Rule) : Prop :=
  (rule.groups = [] ∨ rule.restrict = true ∧ ∃ g ∈ rule.groups, g ∈ user.groups) ∧
    ¬ (rule.restrict = true ∧ ∃ g ∈ rule.exempt, g ∈ user.groups)

/-- The fixed filter of a row. -/
def FilterHolds (v : Leaf → Prop) (rule : Rule) : Prop :=
  ∃ items, ruleValue ev model rule = .ok (.array items) ∧ Admits v items

/-- The reach of a row, when it has one. -/
def ReachHolds (v : Leaf → Prop) (rule : Rule) : Prop :=
  ∀ reach, rule.reach = some reach →
    ∃ items, reachDomain registry ev model reach user = .ok (.array items) ∧ Admits v items

/-- The companies a row's groups are held in, when they are limited: their records and, but for the
companies themselves, the shared ones. -/
def ScopeHolds (v : Leaf → Prop) (rule : Rule) : Prop :=
  ∀ anchor companies, ruleScope security model rule user = some (anchor, companies) →
    WithinCompanies v anchor companies

/-- A permission admits what its filter and its reach do, within its companies. -/
def PermissionHolds (v : Leaf → Prop) (rule : Rule) : Prop :=
  FilterHolds ev model v rule ∧ ReachHolds registry ev user model v rule ∧
    ScopeHolds security user model v rule

/-- A guard asks for its filter and its reach within its companies, and for nothing outside. -/
def GuardHolds (v : Leaf → Prop) (rule : Rule) : Prop :=
  ScopeHolds security user model v rule →
    FilterHolds ev model v rule ∧ ReachHolds registry ev user model v rule

/-- A row whose domain evaluates to a well-formed domain, if it does to anything. -/
def RowWellFormed (rule : Rule) : Prop :=
  ∀ value, ruleValue ev model rule = .ok value → ∃ items, value = .array items ∧ WellFormed items

end Rows

variable {registry : Registry} {security : Security} {ev : Evaluator} {user : UserCtx}
  {model : String}

lemma isPermission_iff {rule : Rule} :
    rule.isPermission = true ↔ rule.groups ≠ [] ∧ rule.restrict = false := by
  simp [Rule.isPermission, Rule.isGroup]

/-- The permissions that bind a principal are those it holds. -/
lemma binds_permission_iff {rule : Rule} :
    rule.binds user = true ∧ rule.isPermission = true ↔ HeldPermission user rule := by
  rw [isPermission_iff]
  simp only [Rule.binds, Rule.isGroup, HeldPermission, Bool.and_eq_true, Bool.or_eq_true,
    Bool.not_eq_true', Bool.not_eq_false', Bool.and_eq_false_iff, List.isEmpty_iff, List.any_eq_true,
    decide_eq_true_eq]
  constructor
  · rintro ⟨⟨hg | hg, -⟩, hne, hr⟩
    · exact absurd hg hne
    · exact ⟨hne, hr, hg⟩
  · rintro ⟨hne, hr, hg⟩
    exact ⟨⟨.inr hg, .inl hr⟩, hne, hr⟩

/-- The guards that bind a principal are the others. -/
lemma binds_guard_iff {rule : Rule} :
    rule.binds user = true ∧ rule.isPermission = false ↔ BindingGuard user rule := by
  have hnot : rule.isPermission = false ↔ rule.groups = [] ∨ rule.restrict = true := by
    rw [← Bool.not_eq_true, isPermission_iff, not_and_or, not_not, Bool.not_eq_false]
  rw [hnot]
  simp only [Rule.binds, Rule.isGroup, BindingGuard, Bool.and_eq_true, Bool.or_eq_true,
    Bool.not_eq_true', Bool.not_eq_false', Bool.and_eq_false_iff, List.isEmpty_iff, List.any_eq_true,
    decide_eq_true_eq]
  by_cases hg : rule.groups = [] <;> by_cases hr : rule.restrict = true <;> simp [hg, hr]

/-! ## One row -/

lemma reachLeaf_eq_ok {reach : Reach} {anchor : AccessAnchor} {uid : ℤ} {companies : List ℤ}
    {partner : Option (ℤ × ℤ)} {leaf : Json}
    (h : reachLeaf model reach anchor uid companies partner = .ok leaf) :
    ∃ op value, leaf = term anchor.path op value := by
  unfold reachLeaf at h
  by_cases hown : reach.rung = "own"
  · rw [if_pos hown] at h
    split at h
    · exact ⟨_, _, (Except.ok.inj h).symm⟩
    · split at h
      · obtain ⟨p, -, rfl⟩ := map_eq_ok.mp h
        exact ⟨_, _, rfl⟩
      · simp at h
  · rw [if_neg hown] at h
    by_cases hcompany : reach.rung = "company"
    · rw [if_pos hcompany] at h
      exact ⟨_, _, (Except.ok.inj h).symm⟩
    · rw [if_neg hcompany] at h
      split at h
      · obtain ⟨p, -, rfl⟩ := map_eq_ok.mp h
        exact ⟨_, _, rfl⟩
      · simp at h

/-- A reach is one well-formed expression. -/
lemma reachDomain_wellFormed {reach : Reach} {j : Json}
    (h : reachDomain registry ev model reach user = .ok j) :
    ∃ items, j = .array items ∧ WellFormed items := by
  simp only [reachDomain, bind_eq_ok] at h
  obtain ⟨m, -, anchor, -, partner, -, h⟩ := h
  obtain ⟨leaf, hleaf, h⟩ := bind_eq_ok.mp h
  obtain ⟨op, value, rfl⟩ := reachLeaf_eq_ok hleaf
  split at h
  · obtain rfl := Except.ok.inj h
    exact ⟨_, rfl, ((spellsOne_term anchor.path op value).or
      (spellsOne_term anchor.path "=" (.bool false))).wellFormed⟩
  · obtain rfl := Except.ok.inj h
    exact ⟨_, rfl, (spellsOne_term anchor.path op value).wellFormed⟩

/-- What a row's filter and reach say together. -/
lemma withReach_spec {rule : Rule} {value : Json} {reached : Option Json}
    (hwf : RowWellFormed ev model rule) (hvalue : ruleValue ev model rule = .ok value)
    (hreach : ruleReach registry ev user model rule = .ok reached) :
    WellFormed (withReach reached value).itemsOrEmpty ∧
      ∀ v, Admits v (withReach reached value).itemsOrEmpty ↔
        FilterHolds ev model v rule ∧ ReachHolds registry ev user model v rule := by
  obtain ⟨items, rfl, hitems⟩ := hwf value hvalue
  have hfilter : ∀ v, FilterHolds ev model v rule ↔ Admits v items := by
    intro v
    simp [FilterHolds, hvalue]
  unfold ruleReach at hreach
  split at hreach
  · next reach hr =>
      obtain ⟨j, hj, rfl⟩ := map_eq_ok.mp hreach
      obtain ⟨leaves, rfl, hleaves⟩ := reachDomain_wellFormed hj
      have hreaches : ∀ v, ReachHolds registry ev user model v rule ↔ Admits v leaves := by
        intro v
        simp [ReachHolds, hr, hj]
      have hnorm := wellFormed_normalize hitems
      refine ⟨by simpa [withReach] using hleaves.append hnorm, fun v => ?_⟩
      simp only [withReach, Json.itemsOrEmpty_array]
      rw [admits_append hleaves hnorm, admits_normalize hitems, hfilter, hreaches, and_comm]
  · next hr =>
      obtain rfl := Except.ok.inj hreach
      refine ⟨by simpa [withReach] using hitems, fun v => ?_⟩
      simp [withReach, hfilter, ReachHolds, hr]

/-- A row with a scope names groups. -/
lemma isGroup_of_ruleScope {rule : Rule} {scope : String × List ℤ}
    (h : ruleScope security model rule user = some scope) : rule.isGroup = true := by
  unfold ruleScope at h
  split at h
  · assumption
  · simp at h

/-- **One row.**  The domain of a row is well formed when its filter is, and says what the row
says. -/
lemma ruleDomain_spec {rule : Rule} {dom : Json} (hwf : RowWellFormed ev model rule)
    (h : ruleDomain registry security ev user model rule = .ok dom) :
    WellFormed dom.itemsOrEmpty ∧ ∀ v, Admits v dom.itemsOrEmpty ↔
      if rule.isPermission then PermissionHolds registry security ev user model v rule
      else GuardHolds registry security ev user model v rule := by
  simp only [ruleDomain, bind_eq_ok, pure_eq_ok] at h
  obtain ⟨value, hvalue, reached, hreached, rfl⟩ := h
  obtain ⟨hbase, hmean⟩ := withReach_spec hwf hvalue hreached
  cases hscope : ruleScope security model rule user with
  | none =>
      refine ⟨hbase, fun v => ?_⟩
      have hfree : ScopeHolds security user model v rule := by simp [ScopeHolds, hscope]
      simp only [narrowed, hmean]
      split <;> simp [PermissionHolds, GuardHolds, hfree]
  | some scope =>
      obtain ⟨anchor, companies⟩ := scope
      have hgroup := isGroup_of_ruleScope hscope
      have hwithin : ∀ v, ScopeHolds security user model v rule ↔
          WithinCompanies v anchor companies := by
        intro v
        simp [ScopeHolds, hscope]
      cases hr : rule.restrict with
      | true =>
          obtain ⟨hwell, hadmits⟩ := scopedDomain_guard hbase anchor companies
          refine ⟨hwell, fun v => ?_⟩
          simp only [narrowed]
          rw [hadmits, hmean]
          simp [Rule.isPermission, hr, GuardHolds, hwithin]
      | false =>
          obtain ⟨hwell, hadmits⟩ := scopedDomain_permission hbase anchor companies
          refine ⟨hwell, fun v => ?_⟩
          simp only [narrowed]
          rw [hadmits, hmean]
          simp [Rule.isPermission, hgroup, hr, PermissionHolds, hwithin, and_assoc]

/-! ## All rows -/

/-- The domains of some bound rows, among those of a kind. -/
lemma mem_domains_of_kind (kind : Rule → Bool) {rules : List Rule} {domains : List Json}
    (h : List.Forall₂ (fun rule dom => ruleDomain registry security ev user model rule = .ok dom)
      rules domains) (dom : Json) :
    dom ∈ ((rules.zip domains).filter (kind ·.1)).map (·.2) ↔
      ∃ rule ∈ rules, kind rule = true ∧
        ruleDomain registry security ev user model rule = .ok dom := by
  induction h with
  | nil => simp
  | @cons rule dom' rules domains hdom _ ih =>
      by_cases hk : kind rule = true
      · simp only [List.zip_cons_cons, List.filter_cons, hk, if_true, List.map_cons, List.mem_cons,
          ih, exists_eq_or_imp, true_and, hdom, Except.ok.injEq]
        rw [eq_comm]
      · simp [hk, ih]

/-- The bound rows of a model evaluate to something, when the whole does. -/
lemma exists_ruleDomain {rules : List Rule} {domains : List Json}
    (h : List.Forall₂ (fun rule dom => ruleDomain registry security ev user model rule = .ok dom)
      rules domains) {rule : Rule} (hr : rule ∈ rules) :
    ∃ dom, ruleDomain registry security ev user model rule = .ok dom := by
  induction h with
  | nil => simp at hr
  | cons hdom _ ih =>
      rcases List.mem_cons.mp hr with rfl | hr
      · exact ⟨_, hdom⟩
      · exact ih hr

/-- Every binding row evaluates to a well-formed domain. -/
def RowsWellFormed (ev : Evaluator) (user : UserCtx) (model : String) (rules : List Rule) : Prop :=
  ∀ rule ∈ rules, rule.binds user = true → RowWellFormed ev model rule

/-- What the rows say of a record: a held permission admits it, and every binding guard does. -/
def RowsHold (registry : Registry) (security : Security) (ev : Evaluator) (user : UserCtx)
    (model : String) (v : Leaf → Prop) (rules : List Rule) : Prop :=
  (∃ rule ∈ rules, HeldPermission user rule ∧
    PermissionHolds registry security ev user model v rule) ∧
  (∀ rule ∈ rules, BindingGuard user rule → GuardHolds registry security ev user model v rule)

/-- **All rows.**  The combined terms are well formed, and say what the parents' terms and the rows
say. -/
lemma combineRules_spec {inherited combined : List Json} {rules : List Rule}
    (hwf : RowsWellFormed ev user model rules) (hin : WellFormed inherited)
    (h : combineRules registry security ev user model inherited rules = .ok combined) :
    WellFormed combined ∧ ∀ v, Admits v combined ↔
      Admits v inherited ∧ RowsHold registry security ev user model v rules := by
  simp only [combineRules, bind_eq_ok, pure_eq_ok] at h
  obtain ⟨domains, hdomains, rfl⟩ := h
  have hrows := mapM_eq_ok.mp hdomains
  have hspec : ∀ {rule : Rule} {dom : Json}, rule ∈ rules.filter (·.binds user) →
      ruleDomain registry security ev user model rule = .ok dom → _ := fun hr hdom =>
    ruleDomain_spec (hwf _ (List.mem_filter.mp hr).1 (List.mem_filter.mp hr).2) hdom
  set guards := guardsAmong ((rules.filter (·.binds user)).zip domains)
  set permissions := permissionsAmong ((rules.filter (·.binds user)).zip domains)
  have hmemg : ∀ dom, dom ∈ guards ↔ _ :=
    mem_domains_of_kind (fun rule => !rule.isPermission) hrows
  have hmemp : ∀ dom, dom ∈ permissions ↔ _ :=
    mem_domains_of_kind Rule.isPermission hrows
  have hwfg : ∀ items ∈ guards.map Json.itemsOrEmpty, WellFormed items := by
    intro items hitems
    obtain ⟨dom, hdom, rfl⟩ := List.mem_map.mp hitems
    obtain ⟨rule, hr, -, hrule⟩ := (hmemg dom).mp hdom
    exact (hspec hr hrule).1
  have hwfp : ∀ dom ∈ permissions, WellFormed dom.itemsOrEmpty := by
    intro dom hdom
    obtain ⟨rule, hr, -, hrule⟩ := (hmemp dom).mp hdom
    exact (hspec hr hrule).1
  have hor := orDomains_spec hwfp
  have hflat : guards.flatMap Json.itemsOrEmpty = (guards.map Json.itemsOrEmpty).flatten := by
    rw [List.flatMap_def]
  have hmid := hin.append (wellFormed_flatten hwfg)
  refine ⟨by rw [combineDomains, hflat]; exact hmid.append hor.1, fun v => ?_⟩
  rw [combineDomains, hflat, admits_append hmid hor.1, admits_append hin (wellFormed_flatten hwfg),
    admits_flatten v hwfg, hor.2, and_assoc, RowsHold, and_comm (a := ∃ rule ∈ rules, _)]
  refine and_congr_right fun _ => and_congr ?_ ?_
  · constructor
    · intro h rule hr hbind
      obtain ⟨hb, hk⟩ := binds_guard_iff.mpr hbind
      have hmem : rule ∈ rules.filter (·.binds user) := List.mem_filter.mpr ⟨hr, hb⟩
      obtain ⟨dom, hdom⟩ := exists_ruleDomain hrows hmem
      have hv := h dom.itemsOrEmpty
        (List.mem_map_of_mem ((hmemg dom).mpr ⟨rule, hmem, by simp [hk], hdom⟩))
      simpa [hk] using ((hspec hmem hdom).2 v).mp hv
    · intro h items hitems
      obtain ⟨dom, hdom, rfl⟩ := List.mem_map.mp hitems
      obtain ⟨rule, hmem, hk, hrule⟩ := (hmemg dom).mp hdom
      have hk : rule.isPermission = false := by simpa using hk
      refine ((hspec hmem hrule).2 v).mpr ?_
      simpa [hk] using h rule (List.mem_filter.mp hmem).1
        (binds_guard_iff.mp ⟨(List.mem_filter.mp hmem).2, hk⟩)
  · constructor
    · rintro ⟨dom, hdom, hv⟩
      obtain ⟨rule, hmem, hk, hrule⟩ := (hmemp dom).mp hdom
      refine ⟨rule, (List.mem_filter.mp hmem).1,
        binds_permission_iff.mp ⟨(List.mem_filter.mp hmem).2, hk⟩, ?_⟩
      simpa [hk] using ((hspec hmem hrule).2 v).mp hv
    · rintro ⟨rule, hr, hheld, hv⟩
      obtain ⟨hb, hk⟩ := binds_permission_iff.mpr hheld
      have hmem : rule ∈ rules.filter (·.binds user) := List.mem_filter.mpr ⟨hr, hb⟩
      obtain ⟨dom, hdom⟩ := exists_ruleDomain hrows hmem
      exact ⟨dom, (hmemp dom).mpr ⟨rule, hmem, hk, hdom⟩,
        ((hspec hmem hdom).2 v).mpr (by simpa [hk] using hv)⟩

/-! ## The delegated parents -/

/-- Each parent's own domain holds of a record reached through its field. -/
def ParentsHold (parentDomain : String → Result (Option Json)) (w : World) (r : w.Rec)
    (links : List (String × String)) : Prop :=
  ∀ link ∈ links, ∀ dom, parentDomain link.1 = .ok (some dom) →
    ∃ r', w.reaches r link.2 r' ∧ w.Satisfies r' dom

/-- **The parents.**  Their terms are well formed, and say that each parent's domain holds of the
record reached. -/
lemma inheritedTerms_spec {parentDomain : String → Result (Option Json)} :
    ∀ {links : List (String × String)} {terms : List Json},
      inheritedTerms registry parentDomain model links = .ok terms →
      WellFormed terms ∧ ∀ (w : World) (r : w.Rec),
        Admits (w.truth r) terms ↔ ParentsHold parentDomain w r links
  | [], terms, h => by
      obtain rfl := Except.ok.inj h
      exact ⟨wellFormed_nil, fun w r => by simp [ParentsHold]⟩
  | (parent, via) :: links, terms, h => by
      simp only [inheritedTerms, bind_eq_ok, pure_eq_ok] at h
      obtain ⟨-, -, dom, hdom, rest, hrest, rfl⟩ := h
      obtain ⟨hwf, hmean⟩ := inheritedTerms_spec hrest
      cases dom with
      | none =>
          refine ⟨by simpa using hwf, fun w r => ?_⟩
          simp only [Option.map_none, Option.toList_none, List.nil_append, hmean, ParentsHold,
            List.forall_mem_cons, hdom, Except.ok.injEq, reduceCtorEq, false_imp_iff, implies_true,
            true_and]
      | some dom =>
          have hterm := spellsOne_term via "any" dom
          refine ⟨hterm.wellFormed.append hwf, fun w r => ?_⟩
          have hcons : (Option.map (term via "any") (some dom)).toList ++ rest
              = [term via "any" dom] ++ rest := rfl
          rw [hcons, admits_append hterm.wellFormed hwf, hterm.admits_iff, hmean, w.truth_any]
          simp only [ParentsHold, List.forall_mem_cons, hdom, Except.ok.injEq, Option.some.injEq,
            forall_eq', World.Satisfies]

/-- What succeeds through some delegated parents gives the same through more. -/
lemma inheritedTerms_mono {parentDomain parentDomain' : String → Result (Option Json)}
    (hmono : ∀ parent d, parentDomain parent = .ok d → parentDomain' parent = .ok d) :
    ∀ {links : List (String × String)} {terms : List Json},
      inheritedTerms registry parentDomain model links = .ok terms →
      inheritedTerms registry parentDomain' model links = .ok terms ∧
        ∀ link ∈ links, ∃ d, parentDomain link.1 = .ok d
  | [], terms, h => ⟨h, by simp⟩
  | (parent, via) :: links, terms, h => by
      simp only [inheritedTerms, bind_eq_ok, pure_eq_ok] at h ⊢
      obtain ⟨u, hu, dom, hdom, rest, hrest, rfl⟩ := h
      obtain ⟨hrest', hall⟩ := inheritedTerms_mono hmono hrest
      exact ⟨⟨u, hu, dom, hmono _ _ hdom, rest, hrest', rfl⟩,
        List.forall_mem_cons.mpr ⟨⟨dom, hdom⟩, hall⟩⟩

lemma rulesDomainInner_succ : ∀ {remaining : ℕ} {model : String} {d : Option Json},
    rulesDomainInner registry security ev user remaining model = .ok d →
      rulesDomainInner registry security ev user (remaining + 1) model = .ok d
  | 0, model, d, h => by simp [rulesDomainInner] at h
  | remaining + 1, model, d, h => by
      simp only [rulesDomainInner, bind_eq_ok] at h
      obtain ⟨u, hu, inherited, hin, h⟩ := h
      have hin' := (inheritedTerms_mono (fun _ _ => rulesDomainInner_succ) hin).1
      rw [rulesDomainInner]
      exact bind_eq_ok.mpr ⟨u, hu, bind_eq_ok.mpr ⟨inherited, hin', h⟩⟩

/-- What one level of delegation computes. -/
lemma rulesDomainInner_eq_ok {remaining : ℕ} {d : Option Json}
    (h : rulesDomainInner registry security ev user (remaining + 1) model = .ok d) :
    ∃ inherited,
      inheritedTerms registry (rulesDomainInner registry security ev user remaining) model
        (parentLinks registry model) = .ok inherited ∧
      (security.rules.get? model = none ∧ d = unlessEmpty inherited ∨
        ∃ rules combined, security.rules.get? model = some rules ∧
          combineRules registry security ev user model inherited rules = .ok combined ∧
          d = unlessEmpty combined) := by
  simp only [rulesDomainInner, bind_eq_ok] at h
  obtain ⟨-, -, inherited, hin, h⟩ := h
  refine ⟨inherited, hin, ?_⟩
  split at h
  · next hnone =>
      obtain rfl := Except.ok.inj h
      exact .inl ⟨hnone, rfl⟩
  · next rules hsome =>
      obtain ⟨combined, hcombined, h⟩ := bind_eq_ok.mp h
      obtain rfl := Except.ok.inj h
      exact .inr ⟨rules, combined, hsome, hcombined, rfl⟩

/-- The terms behind a domain, and what they say: the parents' domains, and the rows when the model
has any. -/
lemma rulesDomainInner_terms {remaining : ℕ} {d : Option Json}
    (hwf : ∀ rules, security.rules.get? model = some rules → RowsWellFormed ev user model rules)
    (h : rulesDomainInner registry security ev user (remaining + 1) model = .ok d) :
    ∃ items, d = unlessEmpty items ∧ WellFormed items ∧ ∀ (w : World) (r : w.Rec),
      Admits (w.truth r) items ↔
        (∀ rules, security.rules.get? model = some rules →
          RowsHold registry security ev user model (w.truth r) rules) ∧
        ParentsHold (rulesDomainInner registry security ev user remaining) w r
          (parentLinks registry model) := by
  obtain ⟨inherited, hin, hrest⟩ := rulesDomainInner_eq_ok h
  obtain ⟨hwfin, hparents⟩ := inheritedTerms_spec hin
  rcases hrest with ⟨hnone, rfl⟩ | ⟨rules, combined, hsome, hcombined, rfl⟩
  · exact ⟨inherited, rfl, hwfin, fun w r => by simp [hparents, hnone]⟩
  · obtain ⟨hwfc, hmean⟩ := combineRules_spec (hwf rules hsome) hwfin hcombined
    refine ⟨combined, rfl, hwfc, fun w r => ?_⟩
    rw [hmean, hparents, and_comm]
    simp [hsome]

/-- Each parent is combined with one level less, and gives there what it gives by itself. -/
lemma parentsHold_rulesDomain {d : Option Json}
    (h : rulesDomain registry security ev user model = .ok d) (w : World) (r : w.Rec) :
    ParentsHold (rulesDomainInner registry security ev user (maxInheritsChain - 1)) w r
        (parentLinks registry model)
      ↔ ParentsHold (rulesDomain registry security ev user) w r (parentLinks registry model) := by
  have hmono : ∀ parent dom, rulesDomainInner registry security ev user (maxInheritsChain - 1) parent
      = .ok dom → rulesDomain registry security ev user parent = .ok dom :=
    fun _ _ => rulesDomainInner_succ
  obtain ⟨inherited, hin, -⟩ := rulesDomainInner_eq_ok h
  have hall := (inheritedTerms_mono hmono hin).2
  refine forall₂_congr fun link hlink => forall_congr' fun dom => ?_
  obtain ⟨d', hd'⟩ := hall link hlink
  rw [hd', hmono _ _ hd']

/-! ## The combined domain -/

/-- **The access rows combine as they should.**  When the rows that bind a principal evaluate to
well-formed domains, the combined domain parses unless it nests past the bound, and a record
satisfies it exactly when a held permission admits it within its companies, every binding guard
does, and each delegated parent's own domain holds of the record reached.  A model without rows has
its parents' domains only. -/
theorem rulesDomain_combines {d : Json}
    (hwf : ∀ rules, security.rules.get? model = some rules → RowsWellFormed ev user model rules)
    (h : rulesDomain registry security ev user model = .ok (some d)) :
    parse d = refuse nestingTooDeep ∨
      ∃ n, parse d = .ok n ∧ ∀ (w : World) (r : w.Rec), holds (w.truth r) n ↔
        (∀ rules, security.rules.get? model = some rules →
          RowsHold registry security ev user model (w.truth r) rules) ∧
        ParentsHold (rulesDomain registry security ev user) w r (parentLinks registry model) := by
  obtain ⟨items, hd, hitems, hmean⟩ := rulesDomainInner_terms hwf h
  have hd : d = .array items := by
    unfold unlessEmpty at hd
    split at hd
    · simp at hd
    · exact Option.some.inj hd
  subst hd
  rcases parse_cases hitems with ⟨n, hn⟩ | hdeep
  · refine .inr ⟨n, hn, fun w r => ?_⟩
    rw [holds_iff_admits hn, hmean]
    exact and_congr_right fun _ => parentsHold_rulesDomain h w r
  · exact .inl hdeep

/-! ### A delegating model -/

/-- Users that delegate to partners. -/
def delegatingRegistry : Registry where
  models := [("res.users", plainModel "res.users" "res_users"
      [("partner_id", linkField "partner_id" "res.partner")]),
    ("res.partner", plainModel "res.partner" "res_partner" [])]
  inherits := [("res.users", [("res.partner", "partner_id")])]
  hasUnaccent := false
  hasTrigram := false
  source := .export
  groupIds := []

/-- A permission of group `1`. -/
def permissionRow (parsed : PyExpr) : Rule where
  groups := [1]
  restrict := false
  domainForce := none
  parsed := some (.ok parsed)
  reach := none
  exempt := []

/-- Access data with the given rows. -/
def securityOf (rules : Dict String (List Rule)) : Security where
  implied := []
  everyone := none
  userGroups := []
  access := []
  denyingGuards := []
  parents := []
  rules := rules
  userCompanies := []
  anchors := []
  boundedUsers := ∅

/-- A principal that holds group `1`. -/
def memberUser : UserCtx where
  uid := 2
  companyId := 1
  companyIds := [1]
  groups := {1}
  scopes := []
  accessPartner := none

/-- An evaluation that reads nothing from the database. -/
def literalsOnly : Evaluator where
  resolveName _ := refuse "no names"
  resolveRef _ := refuse "no references"
  addDoubles p q := some (p + q)
  accessPartner := refuse "no partner"

/-- The expression `[('active', '=', True)]`. -/
def activeExpr : PyExpr := .Seq [.Seq [.Str "active", .Str "=", .Bool true]]

/-- Rows on the users and on the partners. -/
def usersAndPartnersRows : Security := securityOf
  [("res.users", [permissionRow activeExpr]), ("res.partner", [permissionRow activeExpr])]

/-- The domain of the users: their partner is active, and so are they. -/
def activeUsers : Json :=
  .array [term "partner_id" "any" (.array [term "active" "=" (.bool true)]),
    term "active" "=" (.bool true)]

/-- A row that asks for active records is well formed. -/
lemma rowWellFormed_active (model : String) :
    RowWellFormed literalsOnly model (permissionRow activeExpr) := by
  intro value hvalue
  obtain rfl := Except.ok.inj hvalue
  exact ⟨_, rfl, (spellsOne_term "active" "=" (.bool true)).wellFormed⟩

theorem rulesDomain_combines_users :
    parse activeUsers = refuse nestingTooDeep ∨
      ∃ n, parse activeUsers = .ok n ∧ ∀ (w : World) (r : w.Rec), holds (w.truth r) n ↔
        (∀ rules, usersAndPartnersRows.rules.get? "res.users" = some rules →
          RowsHold delegatingRegistry usersAndPartnersRows literalsOnly memberUser "res.users"
            (w.truth r) rules) ∧
        ParentsHold (rulesDomain delegatingRegistry usersAndPartnersRows literalsOnly memberUser)
          w r (parentLinks delegatingRegistry "res.users") := by
  refine rulesDomain_combines ?_ (by decide +kernel)
  rintro rules hrules rule hr -
  obtain rfl := Option.some.inj hrules
  obtain rfl := List.mem_singleton.mp hr
  exact rowWellFormed_active "res.users"

/-! ### A model without rows, and a row that nests too deeply -/

/-- Rows on the partners only. -/
def partnersRows : Security := securityOf [("res.partner", [permissionRow activeExpr])]

/-- The expression of the chain of alternating operators. -/
def chainExprs : ℕ → List PyExpr
  | 0 => [.Seq [.Str "id", .Str "=", .Int 1]]
  | n + 1 => .Str (if n % 2 = 0 then "&" else "|") :: .Seq [.Str "id", .Str "=", .Int 1] ::
      chainExprs n

lemma evalItems_chainExprs (ev : Evaluator) :
    ∀ n, evalItems ev (chainExprs n) = .ok (alternatingChain n)
  | 0 => rfl
  | n + 1 => by
      simp only [chainExprs, evalItems, evalPy, evalItems_chainExprs ev n, alternatingChain]
      rfl

/-- A row on the partners whose domain nests one operator too deeply. -/
def deepRows : Security := securityOf [("res.partner", [permissionRow (.Seq (chainExprs 100))])]

/-- The access rows combined as if a model without rows held no permission, and as if nesting did
not matter. -/
def CombinesWithoutException (registry : Registry) (security : Security) (ev : Evaluator)
    (user : UserCtx) (model : String) (d : Json) : Prop :=
  ∃ n, parse d = .ok n ∧ ∀ (w : World) (r : w.Rec), holds (w.truth r) n ↔
    RowsHold registry security ev user model (w.truth r) (security.rules.listAt model) ∧
    ParentsHold (rulesDomain registry security ev user) w r (parentLinks registry model)

/-- The users, which have no rows, take their partners' domain although no permission on them is
held; and a well-formed row that nests past the bound gives a domain that does not parse. -/
theorem rulesDomain_rowless_and_deep :
    (rulesDomain delegatingRegistry partnersRows literalsOnly memberUser "res.users"
        = .ok (some (.array [term "partner_id" "any" (.array [term "active" "=" (.bool true)])])) ∧
      RowsWellFormed literalsOnly memberUser "res.users" (partnersRows.rules.listAt "res.users") ∧
      ¬ CombinesWithoutException delegatingRegistry partnersRows literalsOnly memberUser "res.users"
        (.array [term "partner_id" "any" (.array [term "active" "=" (.bool true)])])) ∧
    (rulesDomain delegatingRegistry deepRows literalsOnly memberUser "res.partner"
        = .ok (some (.array (alternatingChain 100))) ∧
      RowsWellFormed literalsOnly memberUser "res.partner" (deepRows.rules.listAt "res.partner") ∧
      ¬ CombinesWithoutException delegatingRegistry deepRows literalsOnly memberUser "res.partner"
        (.array (alternatingChain 100))) := by
  refine ⟨⟨by decide +kernel, by simp [RowsWellFormed, partnersRows, securityOf, Dict.listAt,
    Dict.get?], ?_⟩, ?_, ?_, ?_⟩
  · rintro ⟨n, hn, hmean⟩
    -- in a world where everything is true of one record, no permission is needed
    let w : World := World.of (fun (_ : Unit) _ => True) (fun _ _ _ => True)
    have hactive : w.truth () { field := "active", op := "=", value := .bool true } := by
      show leafTruth _ _ _ _
      rw [leafTruth]
      simp
    have hone := spellsOne_term "partner_id" "any" (.array [term "active" "=" (.bool true)])
    have hholds : holds (w.truth ()) n :=
      (holds_iff_admits hn _).mpr ((hone.admits_iff _).mpr
        ((w.truth_any () _ _).mpr ⟨(), trivial, _, rfl, hactive⟩))
    obtain ⟨⟨rule, hr, -⟩, -⟩ := ((hmean w ()).mp hholds).1
    simp [partnersRows, securityOf, Dict.listAt, Dict.get?] at hr
  · decide +kernel
  · rintro rule hr - value hvalue
    obtain rfl := List.mem_singleton.mp hr
    have hvalue : value = .array (alternatingChain 100) := by
      simp only [ruleValue, permissionRow, evalPy, evalItems_chainExprs] at hvalue
      exact (Except.ok.inj hvalue).symm
    exact ⟨_, hvalue, _, alternatingChain_spells 100⟩
  · rintro ⟨n, hn, -⟩
    have : (parse (.array (alternatingChain 100))).toOption.isSome = false := by decide +kernel
    rw [hn] at this
    simp [Except.toOption] at this

end OdooKernel
