import OdooKernel.Access.Combination

/-!
# Rows that evaluate to no domain

A row may evaluate to any JSON value.  A list that is no sequence of complete expressions leaves an
operator short; spliced between other rows, such an operator takes its operands from the rows that
follow.  A value that is no list is read as the empty one, which is TRUE.

**The promise** (`NeverWidens`) is that none of this gives access: what is admitted is what the
well-formed rows admit, no row takes operands from another (`Captures`), and no value but the empty
list is read as TRUE. It is about what is accepted, since a domain that is refused admits nothing.

**The condition** (`RowsAreSafe`) is on the values of the rows that bind: they are lists, and those
of the guards are well formed, unless the terms they are spliced into cannot be read at all.
Permissions need not be well formed: an operator that runs short among them finds nothing to take at
the end of the disjunction, and the whole is refused (`wellFormed_of_joined_or`).

**Counting.**  Whether an operator runs short is a matter of weights, and so are the proofs: an array
that is spliced from rows and can be read weighs what its rows weigh.

* `Unreadable` — the terms spliced together are no prefix notation, or nest too deeply.
* **`neverWidens_iff`** — exactly when the rows keep the promise.
-/

namespace OdooKernel

open PrefixNotation

/-! ## Counting the operands of spliced rows -/

/-- An array is well formed when it has only terms and none of its operators runs short. -/
lemma wellFormed_iff {items : List Json} :
    WellFormed items ↔ OnlyTerms items ∧ Supplied 0 (items.map token) := by
  rw [supplied_zero_iff]
  exact ⟨fun ⟨fs, honly, hspell⟩ => ⟨honly, fs, hspell⟩, fun ⟨honly, fs, hspell⟩ => ⟨fs, honly, hspell⟩⟩

/-- A normalised array that weighs one operand was well formed. -/
lemma wellFormed_of_weight {items : List Json} (honly : OnlyTerms items)
    (hw : 1 ≤ weight ((normalizeDomain items).map token)) : WellFormed items := by
  refine wellFormed_iff.mpr ⟨honly, ?_⟩
  by_contra hshort
  have := weight_normalize_nonpos hshort
  rw [map_token_normalizeDomain] at hw
  omega

lemma weight_normalizeDomain_le_one (items : List Json) :
    weight ((normalizeDomain items).map token) ≤ 1 := by
  rw [map_token_normalizeDomain]
  exact weight_normalize_le_one _

lemma weight_flatMap_normalizeDomain_le : ∀ domains : List (List Json),
    weight ((domains.flatMap normalizeDomain).map token) ≤ domains.length
  | [] => by simp
  | d :: ds => by
      have hd := weight_normalizeDomain_le_one d
      have hds := weight_flatMap_normalizeDomain_le ds
      simp only [List.flatMap_cons, List.map_append, weight_append, List.length_cons, Nat.cast_add,
        Nat.cast_one]
      omega

/-- Rows that weigh one operand each weigh as many as they are. -/
lemma wellFormed_of_weight_flatMap : ∀ {domains : List (List Json)},
    (∀ d ∈ domains, OnlyTerms d) →
      (domains.length : ℤ) ≤ weight ((domains.flatMap normalizeDomain).map token) →
      ∀ d ∈ domains, WellFormed d
  | [], _, _ => by simp
  | d :: ds, honly, hw => by
      rw [List.forall_mem_cons] at honly
      have hd := weight_normalizeDomain_le_one d
      have hds := weight_flatMap_normalizeDomain_le ds
      simp only [List.flatMap_cons, List.map_append, weight_append, List.length_cons, Nat.cast_add,
        Nat.cast_one] at hw
      exact List.forall_mem_cons.mpr ⟨wellFormed_of_weight honly.1 (by omega),
        wellFormed_of_weight_flatMap honly.2 (by omega)⟩

lemma weight_replicate_or (k : ℕ) :
    weight ((List.replicate k (Json.string "|")).map token) = -k := by
  induction k with
  | zero => simp
  | succ k ih =>
      simp only [List.replicate_succ, List.map_cons, weight_cons, ih, token, Tok.weight]
      push_cast
      omega

lemma onlyTerms_flatMap_normalizeDomain {domains : List (List Json)} :
    OnlyTerms (domains.flatMap normalizeDomain) ↔ ∀ d ∈ domains, OnlyTerms d := by
  induction domains with
  | nil => simp [OnlyTerms]
  | cons d ds ih => rw [List.flatMap_cons, onlyTerms_append, ih, List.forall_mem_cons,
      onlyTerms_normalizeDomain]

/-- **Rows that are joined by a disjunction** are all well formed when the whole can be read: an
operator that runs short in one of them has nothing left to take at the end. -/
lemma wellFormed_of_joined_or {domains : List (List Json)}
    (h : WellFormed (List.replicate (domains.length - 1) (.string "|")
      ++ domains.flatMap normalizeDomain)) (hne : ∃ d ∈ domains, d ≠ []) :
    ∀ d ∈ domains, WellFormed d := by
  obtain ⟨honly, hs⟩ := wellFormed_iff.mp h
  obtain ⟨d, hd, hdne⟩ := hne
  have hlen : 1 ≤ domains.length := List.length_pos_of_mem hd
  have hitems : domains.flatMap normalizeDomain ≠ [] := by
    intro hnil
    obtain ⟨k, hk⟩ := normalizeDomain_eq d
    have := List.flatMap_eq_nil_iff.mp hnil d hd
    rw [hk] at this
    exact hdne (List.append_eq_nil_iff.mp this).2
  have hw := hs.one_le_weight (by simp [hitems])
  rw [List.map_append, weight_append, weight_replicate_or] at hw
  exact wellFormed_of_weight_flatMap
    (onlyTerms_flatMap_normalizeDomain.mp (onlyTerms_append.mp honly).2) (by omega)

/-- A disjunction that can be read is one of well-formed domains, or has an empty one. -/
lemma wellFormed_of_orDomains {domains : List Json}
    (h : WellFormed (orDomains domains).itemsOrEmpty) :
    (∃ d ∈ domains, d.itemsOrEmpty = []) ∨ ∀ d ∈ domains, WellFormed d.itemsOrEmpty := by
  by_cases hempty : (domains.map Json.itemsOrEmpty).any List.isEmpty
  · obtain ⟨items, hmem, hnil⟩ := List.any_eq_true.mp hempty
    obtain ⟨d, hd, rfl⟩ := List.mem_map.mp hmem
    exact .inl ⟨d, hd, List.isEmpty_iff.mp hnil⟩
  · cases domains with
    | nil => exact .inr (by simp)
    | cons d ds =>
        rw [orDomains, if_neg hempty, if_neg (by simp), Json.itemsOrEmpty_array] at h
        refine .inr fun d' hd' => wellFormed_of_joined_or h ?_ _ (List.mem_map_of_mem hd')
        refine ⟨d.itemsOrEmpty, by simp, fun hnil => hempty ?_⟩
        exact List.any_eq_true.mpr ⟨d.itemsOrEmpty, by simp, List.isEmpty_iff.mpr hnil⟩

/-! ## From what a row contributes back to its value -/

section Row

variable {registry : Registry} {security : Security} {ev : Evaluator} {user : UserCtx}
  {model : String}

lemma wellFormed_of_append {items items' : List Json} (h : WellFormed (items ++ items')) :
    WellFormed items' := by
  obtain ⟨honly, hs⟩ := wellFormed_iff.mp h
  rw [List.map_append] at hs
  exact wellFormed_iff.mpr ⟨(onlyTerms_append.mp honly).2, hs.of_append⟩

lemma wellFormed_of_normalizeDomain {items : List Json} (h : WellFormed (normalizeDomain items)) :
    WellFormed items := by
  obtain ⟨k, hk⟩ := normalizeDomain_eq items
  rw [hk] at h
  exact wellFormed_of_append h

/-- A conjunction in front of two arrays, the second one expression, is readable only when the
first is well formed. -/
lemma wellFormed_of_and {items within : List Json} {mean : (Leaf → Prop) → Prop}
    (hin : SpellsOne within mean)
    (h : WellFormed (.string "&" :: normalizeDomain items ++ within)) : WellFormed items := by
  obtain ⟨honly, hs⟩ := wellFormed_iff.mp h
  obtain ⟨f, ⟨-, hspell⟩, -⟩ := hin
  have hw := hs.one_le_weight (by simp)
  simp only [List.cons_append, List.map_cons, List.map_append, weight_cons, weight_append, hspell,
    token, Tok.weight, weight_spell, List.length_singleton, Nat.cast_one] at hw
  have honly := (onlyTerms_append.mp (onlyTerms_cons.mp honly).2).1
  exact wellFormed_of_weight (onlyTerms_normalizeDomain.mp honly) (by omega)

/-- A narrowed row that is well formed was so before. -/
lemma wellFormed_of_narrowed {scope : Option (String × List ℤ)} {guard : Bool} {dom : Json}
    (h : WellFormed (narrowed scope guard dom).itemsOrEmpty) : WellFormed dom.itemsOrEmpty := by
  cases scope with
  | none => exact h
  | some scope =>
      obtain ⟨anchor, companies⟩ := scope
      by_cases hnil : dom.itemsOrEmpty = []
      · rw [hnil]; exact wellFormed_nil
      cases guard with
      | true =>
          simp only [narrowed, scopedDomain, if_true] at h
          rcases wellFormed_of_orDomains h with ⟨d, hd, hd'⟩ | hall
          · simp only [List.mem_cons, List.not_mem_nil, or_false] at hd
            rcases hd with rfl | rfl
            · exact absurd hd' hnil
            · simp at hd'
          · exact hall dom (by simp)
      | false =>
          have heq : (narrowed (some (anchor, companies)) false dom).itemsOrEmpty
              = .string "&" :: normalizeDomain dom.itemsOrEmpty
                ++ withinCompanies anchor companies := by
            simp only [narrowed, scopedDomain, Bool.false_eq_true, if_false, List.isEmpty_iff, hnil]
            rfl
          rw [heq] at h
          exact wellFormed_of_and (spellsOne_within anchor companies) h

/-- A row that contributes a well-formed domain evaluates to one. -/
lemma wellFormed_of_ruleDomain {rule : Rule} {dom value : Json}
    (h : ruleDomain registry security ev user model rule = .ok dom)
    (hvalue : ruleValue ev model rule = .ok value) (hwf : WellFormed dom.itemsOrEmpty) :
    WellFormed value.itemsOrEmpty := by
  simp only [ruleDomain, bind_eq_ok, pure_eq_ok] at h
  obtain ⟨value', hvalue', reached, -, rfl⟩ := h
  obtain rfl := Except.ok.inj (hvalue.symm.trans hvalue')
  have hbase := wellFormed_of_narrowed hwf
  cases reached with
  | none => exact hbase
  | some reached => exact wellFormed_of_normalizeDomain (wellFormed_of_append hbase)

end Row

/-! ## Capture -/

/-- The terms of a row, read on what follows them, take some of it as operands. -/
def Captures (row after : List Json) : Prop :=
  ∃ st st', readForest (after.map token) = some st ∧ readOnto (row.map token) st = some st' ∧
    ∀ fs, st' ≠ fs ++ st

lemma not_captures_of_wellFormed {row : List Json} (h : WellFormed row) (after : List Json) :
    ¬ Captures row after := by
  obtain ⟨fs, -, hspell⟩ := h
  rintro ⟨st, st', -, hread, hne⟩
  rw [hspell, readOnto_spell] at hread
  exact hne fs (Option.some.inj hread).symm

/-- A row that captures nothing of what it is readable with is a forest of its own. -/
lemma wellFormed_of_not_captures {row after : List Json} (hcap : ¬ Captures row after)
    (h : WellFormed (row ++ after)) : WellFormed row := by
  obtain ⟨honly, hs⟩ := wellFormed_iff.mp h
  have honly := onlyTerms_append.mp honly
  obtain ⟨st, -, hst⟩ := wellFormed_of_append h
  have hread := readForest_eq_some.mpr hst
  rw [List.map_append, supplied_append] at hs
  have hsome : (readOnto (row.map token) st).isSome := by
    rw [readOnto_isSome]
    have hlen : weight (after.map token) = st.length := by rw [hst, weight_spell]
    simpa [hlen] using hs.1
  obtain ⟨st', hst'⟩ := Option.isSome_iff_exists.mp hsome
  by_contra hno
  refine hcap ⟨st, st', hread, hst', fun fs hfs => hno ⟨fs, honly.1, ?_⟩⟩
  rw [hfs] at hst'
  exact readOnto_eq_append.mp hst'

/-! ## The promise -/

/-- The domain of the access rows, read; no restriction is TRUE. -/
def accessNode (registry : Registry) (security : Security) (ev : Evaluator) (user : UserCtx)
    (model : String) : Result Node := do
  match ← rulesDomain registry security ev user model with
  | none => return .True
  | some d => parse d

/-- The domains of the rows that bind a principal. -/
def boundDomains (registry : Registry) (security : Security) (ev : Evaluator) (user : UserCtx)
    (model : String) (rules : List Rule) : Result (List Json) :=
  (rules.filter (·.binds user)).mapM (ruleDomain registry security ev user model)

/-- The bound rows with their domains. -/
def boundRows (user : UserCtx) (rules : List Rule) (domains : List Json) : List (Rule × Json) :=
  (rules.filter (·.binds user)).zip domains

/-- A row whose domain evaluates to a well-formed domain. -/
def RowIsDomain (ev : Evaluator) (model : String) (rule : Rule) : Prop :=
  ∃ items, ruleValue ev model rule = .ok (.array items) ∧ WellFormed items

/-- What is admitted, every well-formed binding guard admits, and so does some well-formed
permission that is held. -/
def AdmitsOnlyWhatRowsDo (registry : Registry) (security : Security) (ev : Evaluator)
    (user : UserCtx) (model : String) (rules : List Rule) (n : Node) : Prop :=
  ∀ v, holds v n →
    (∀ rule ∈ rules, BindingGuard user rule → RowIsDomain ev model rule →
      GuardHolds registry security ev user model v rule) ∧
    ∃ rule ∈ rules, HeldPermission user rule ∧ RowIsDomain ev model rule ∧
      PermissionHolds registry security ev user model v rule

/-- No row takes its operands from the rows after it: not a guard from what follows it, and not a
permission from the next ones, where they are joined. -/
def NoRowCaptures (guards permissions : List Json) : Prop :=
  (∀ before row after, guards = before ++ row :: after →
    ¬ Captures row.itemsOrEmpty
      (after.flatMap Json.itemsOrEmpty ++ (orDomains permissions).itemsOrEmpty)) ∧
  ((∀ p ∈ permissions, p.itemsOrEmpty ≠ []) →
    ∀ before row after, permissions = before ++ row :: after →
      ¬ Captures (normalizeDomain row.itemsOrEmpty)
        (after.flatMap fun d => normalizeDomain d.itemsOrEmpty))

/-- A bound row is read as TRUE only when it evaluates to the empty list. -/
def OnlyEmptyListIsTrue (ev : Evaluator) (user : UserCtx) (model : String) (rules : List Rule) :
    Prop :=
  ∀ rule ∈ rules, rule.binds user = true → ∀ value, ruleValue ev model rule = .ok value →
    value.itemsOrEmpty = [] → value = .array []

/-- **No row widens access.**  Whenever a model with rows is not refused, what it admits is what its
well-formed rows do, no row captures another's terms, and no value that is no domain is TRUE. -/
def NeverWidens (registry : Registry) (security : Security) (ev : Evaluator) (user : UserCtx)
    (model : String) : Prop :=
  ∀ rules domains n, security.rules.get? model = some rules →
    boundDomains registry security ev user model rules = .ok domains →
    accessNode registry security ev user model = .ok n →
    AdmitsOnlyWhatRowsDo registry security ev user model rules n ∧
      NoRowCaptures (guardsAmong (boundRows user rules domains))
        (permissionsAmong (boundRows user rules domains)) ∧
      OnlyEmptyListIsTrue ev user model rules

/-- The terms are no prefix notation: one is no term, an operator finds fewer operands to its right
than it takes, or they nest past the bound. -/
def Unreadable (items : List Json) : Prop :=
  ¬ OnlyTerms items ∨ ¬ Supplied 0 (items.map token) ∨
    parse (.array items) = refuse nestingTooDeep

/-- Every bound row evaluates to a list, and every guard among them to a well-formed one. -/
def ListsAndGuardsWellFormed (ev : Evaluator) (user : UserCtx) (model : String)
    (rules : List Rule) : Prop :=
  (∀ rule ∈ rules, rule.binds user = true → ∀ value, ruleValue ev model rule = .ok value →
    value.isArray = true) ∧
  ∀ rule ∈ rules, BindingGuard user rule → RowWellFormed ev model rule

/-- **When no row widens access**: the rows that bind evaluate to lists, the guards to well-formed
ones, unless the terms they are spliced into cannot be read. -/
def RowsAreSafe (registry : Registry) (security : Security) (ev : Evaluator) (user : UserCtx)
    (model : String) : Prop :=
  ∀ rules domains inherited, security.rules.get? model = some rules →
    boundDomains registry security ev user model rules = .ok domains →
    checkGuardPure registry model = .ok () →
    inheritedTerms registry (rulesDomainInner registry security ev user (maxInheritsChain - 1))
      model (parentLinks registry model) = .ok inherited →
    ListsAndGuardsWellFormed ev user model rules ∨
      Unreadable (combineDomains inherited (guardsAmong (boundRows user rules domains))
        (permissionsAmong (boundRows user rules domains)))

lemma unreadable_iff {items : List Json} :
    Unreadable items ↔ ∀ n, parse (.array items) ≠ .ok n := by
  constructor
  · rintro (h | h | h) n hn
    · obtain ⟨fs, hfs, -⟩ := parse_eq_ok hn
      exact h hfs.1
    · obtain ⟨fs, hfs, -⟩ := parse_eq_ok hn
      exact h (wellFormed_iff.mp ⟨fs, hfs⟩).2
    · rw [hn] at h
      simp [refuse] at h
  · intro h
    by_cases honly : OnlyTerms items
    · by_cases hs : Supplied 0 (items.map token)
      · rcases parse_cases (wellFormed_iff.mpr ⟨honly, hs⟩) with ⟨n, hn⟩ | hdeep
        · exact absurd hn (h n)
        · exact .inr (.inr hdeep)
      · exact .inr (.inl hs)
    · exact .inl honly

section Promise

variable {registry : Registry} {security : Security} {ev : Evaluator} {user : UserCtx}
  {model : String} {rules : List Rule} {domains inherited : List Json}

/-- The access node is the reading of the combined terms. -/
lemma accessNode_eq (hrules : security.rules.get? model = some rules)
    (hdomains : boundDomains registry security ev user model rules = .ok domains)
    (hpure : checkGuardPure registry model = .ok ())
    (hin : inheritedTerms registry (rulesDomainInner registry security ev user
      (maxInheritsChain - 1)) model (parentLinks registry model) = .ok inherited) :
    accessNode registry security ev user model
      = parse (.array (combineDomains inherited (guardsAmong (boundRows user rules domains))
          (permissionsAmong (boundRows user rules domains)))) := by
  have hcombined : combineRules registry security ev user model inherited rules
      = .ok (combineDomains inherited (guardsAmong (boundRows user rules domains))
          (permissionsAmong (boundRows user rules domains))) :=
    bind_eq_ok.mpr ⟨domains, hdomains, rfl⟩
  have hdomain : rulesDomain registry security ev user model
      = .ok (unlessEmpty (combineDomains inherited (guardsAmong (boundRows user rules domains))
          (permissionsAmong (boundRows user rules domains)))) := by
    refine bind_eq_ok.mpr ⟨(), hpure, bind_eq_ok.mpr ⟨inherited, hin, ?_⟩⟩
    rw [hrules]
    exact bind_eq_ok.mpr ⟨_, hcombined, rfl⟩
  rw [accessNode, hdomain]
  generalize combineDomains inherited _ _ = items
  cases items with
  | nil => rfl
  | cons item items => rfl

/-- Where a model with rows is accepted, its rows and parents evaluated. -/
lemma exists_of_accessNode {n : Node} (hrules : security.rules.get? model = some rules)
    (h : accessNode registry security ev user model = .ok n) :
    checkGuardPure registry model = .ok () ∧ ∃ domains inherited,
      boundDomains registry security ev user model rules = .ok domains ∧
      inheritedTerms registry (rulesDomainInner registry security ev user (maxInheritsChain - 1))
        model (parentLinks registry model) = .ok inherited := by
  obtain ⟨d, hd, -⟩ := bind_eq_ok.mp h
  obtain ⟨u, hpure, hd⟩ := bind_eq_ok.mp hd
  obtain ⟨inherited, hin, hd⟩ := bind_eq_ok.mp hd
  rw [hrules] at hd
  obtain ⟨combined, hcombined, -⟩ := bind_eq_ok.mp hd
  obtain ⟨domains, hdomains, -⟩ := bind_eq_ok.mp hcombined
  exact ⟨hpure, domains, inherited, hdomains, hin⟩

lemma mem_guards {dom : Json} (hdomains : boundDomains registry security ev user model rules
    = .ok domains) :
    dom ∈ guardsAmong (boundRows user rules domains) ↔ ∃ rule ∈ rules, BindingGuard user rule ∧
      ruleDomain registry security ev user model rule = .ok dom := by
  refine (mem_domains_of_kind (fun rule => !rule.isPermission) (mapM_eq_ok.mp hdomains)
    dom).trans (exists_congr fun rule => ?_)
  rw [List.mem_filter, ← binds_guard_iff, Bool.not_eq_true']
  tauto

lemma mem_permissions {dom : Json} (hdomains : boundDomains registry security ev user model rules
    = .ok domains) :
    dom ∈ permissionsAmong (boundRows user rules domains) ↔ ∃ rule ∈ rules,
      HeldPermission user rule ∧ ruleDomain registry security ev user model rule = .ok dom := by
  refine (mem_domains_of_kind Rule.isPermission (mapM_eq_ok.mp hdomains)
    dom).trans (exists_congr fun rule => ?_)
  rw [List.mem_filter, ← binds_permission_iff]
  tauto

lemma exists_boundDomain (hdomains : boundDomains registry security ev user model rules
    = .ok domains) {rule : Rule} (hr : rule ∈ rules) (hb : rule.binds user = true) :
    ∃ dom, ruleDomain registry security ev user model rule = .ok dom :=
  exists_ruleDomain (mapM_eq_ok.mp hdomains) (List.mem_filter.mpr ⟨hr, hb⟩)

lemma exists_value {rule : Rule} {dom : Json}
    (h : ruleDomain registry security ev user model rule = .ok dom) :
    ∃ value, ruleValue ev model rule = .ok value := by
  obtain ⟨value, hvalue, -⟩ := bind_eq_ok.mp h
  exact ⟨value, hvalue⟩

/-- A row that contributes a well-formed domain, and evaluates to a list, evaluates to a domain. -/
lemma rowWellFormed_of_ruleDomain {rule : Rule} {dom : Json}
    (hlists : ∀ value, ruleValue ev model rule = .ok value → value.isArray = true)
    (h : ruleDomain registry security ev user model rule = .ok dom)
    (hwf : WellFormed dom.itemsOrEmpty) : RowWellFormed ev model rule := by
  intro value hvalue
  obtain ⟨items, rfl⟩ := Json.isArray_iff.mp (hlists value hvalue)
  exact ⟨items, rfl, by simpa using wellFormed_of_ruleDomain h hvalue hwf⟩

lemma rowIsDomain_of_wellFormed {rule : Rule} {dom : Json} (hwf : RowWellFormed ev model rule)
    (h : ruleDomain registry security ev user model rule = .ok dom) : RowIsDomain ev model rule := by
  obtain ⟨value, hvalue⟩ := exists_value h
  obtain ⟨items, rfl, hitems⟩ := hwf value hvalue
  exact ⟨items, hvalue, hitems⟩

/-- Among permissions that are read together, one that admits a record is well formed. -/
lemma exists_wellFormed_permission {permissions : List Json}
    (hwf : WellFormed (orDomains permissions).itemsOrEmpty) {v : Leaf → Prop}
    (h : Admits v (orDomains permissions).itemsOrEmpty) :
    ∃ d ∈ permissions, WellFormed d.itemsOrEmpty ∧ Admits v d.itemsOrEmpty := by
  rcases wellFormed_of_orDomains hwf with ⟨d, hd, hnil⟩ | hall
  · exact ⟨d, hd, by rw [hnil]; exact wellFormed_nil, by rw [hnil]; exact admits_nil v⟩
  · obtain ⟨d, hd, hv⟩ := ((orDomains_spec hall).2 v).mp h
    exact ⟨d, hd, hall d hd, hv⟩

/-- What safe rows admit is what they say. -/
lemma admitsOnlyWhatRowsDo_of_lists {n : Node}
    (hsafe : ListsAndGuardsWellFormed ev user model rules)
    (hdomains : boundDomains registry security ev user model rules = .ok domains)
    (hin : WellFormed inherited)
    (hn : parse (.array (combineDomains inherited (guardsAmong (boundRows user rules domains))
      (permissionsAmong (boundRows user rules domains)))) = .ok n) :
    AdmitsOnlyWhatRowsDo registry security ev user model rules n := by
  obtain ⟨hlists, hguards⟩ := hsafe
  intro v hv
  obtain ⟨fs, hfs, -⟩ := parse_eq_ok hn
  have hperm := wellFormed_of_append ⟨fs, hfs⟩
  have hspec : ∀ {rule : Rule} {dom : Json}, rule ∈ rules → BindingGuard user rule →
      ruleDomain registry security ev user model rule = .ok dom → _ := fun hr hbind hdom =>
    ruleDomain_spec (hguards _ hr hbind) hdom
  have hwfg : ∀ items ∈ (guardsAmong (boundRows user rules domains)).map Json.itemsOrEmpty,
      WellFormed items := by
    intro items hitems
    obtain ⟨dom, hdom, rfl⟩ := List.mem_map.mp hitems
    obtain ⟨rule, hr, hbind, hrule⟩ := (mem_guards hdomains).mp hdom
    exact (hspec hr hbind hrule).1
  have hadm := (holds_iff_admits hn v).mp hv
  rw [combineDomains, List.flatMap_def, admits_append (hin.append (wellFormed_flatten hwfg)) hperm,
    admits_append hin (wellFormed_flatten hwfg), admits_flatten v hwfg] at hadm
  obtain ⟨⟨-, hadmg⟩, hadmp⟩ := hadm
  refine ⟨fun rule hr hbind _ => ?_, ?_⟩
  · obtain ⟨hb, hk⟩ := binds_guard_iff.mpr hbind
    obtain ⟨dom, hdom⟩ := exists_boundDomain hdomains hr hb
    have hdv := hadmg _ (List.mem_map_of_mem ((mem_guards hdomains).mpr ⟨rule, hr, hbind, hdom⟩))
    simpa [hk] using ((hspec hr hbind hdom).2 v).mp hdv
  · obtain ⟨dom, hdom, hwf, hdv⟩ := exists_wellFormed_permission hperm hadmp
    obtain ⟨rule, hr, hheld, hrule⟩ := (mem_permissions hdomains).mp hdom
    obtain ⟨hb, hk⟩ := binds_permission_iff.mpr hheld
    have hrow := rowWellFormed_of_ruleDomain (hlists rule hr hb) hrule hwf
    refine ⟨rule, hr, hheld, rowIsDomain_of_wellFormed hrow hrule, ?_⟩
    simpa [hk] using ((ruleDomain_spec hrow hrule).2 v).mp hdv

/-- Safe rows capture nothing. -/
lemma noRowCaptures_of_lists (hsafe : ListsAndGuardsWellFormed ev user model rules)
    (hdomains : boundDomains registry security ev user model rules = .ok domains)
    (hperm : WellFormed (orDomains (permissionsAmong (boundRows user rules domains))).itemsOrEmpty) :
    NoRowCaptures (guardsAmong (boundRows user rules domains))
      (permissionsAmong (boundRows user rules domains)) := by
  refine ⟨fun before row after hrow => not_captures_of_wellFormed ?_ _,
    fun hne before row after hrow => not_captures_of_wellFormed (wellFormed_normalize ?_) _⟩
  · have hmem : row ∈ guardsAmong (boundRows user rules domains) := by simp [hrow]
    obtain ⟨rule, hr, hbind, hrule⟩ := (mem_guards hdomains).mp hmem
    exact (ruleDomain_spec (hsafe.2 rule hr hbind) hrule).1
  · rcases wellFormed_of_orDomains hperm with ⟨d, hd, hnil⟩ | hall
    · exact absurd hnil (hne d hd)
    · exact hall row (by simp [hrow])

/-- Rows that keep the promise where they are accepted are safe. -/
lemma listsAndGuardsWellFormed_of_neverWidens {n : Node}
    (hdomains : boundDomains registry security ev user model rules = .ok domains)
    (hn : parse (.array (combineDomains inherited (guardsAmong (boundRows user rules domains))
      (permissionsAmong (boundRows user rules domains)))) = .ok n)
    (hcap : NoRowCaptures (guardsAmong (boundRows user rules domains))
      (permissionsAmong (boundRows user rules domains)))
    (htrue : OnlyEmptyListIsTrue ev user model rules) :
    ListsAndGuardsWellFormed ev user model rules := by
  have hlists : ∀ rule ∈ rules, rule.binds user = true → ∀ value,
      ruleValue ev model rule = .ok value → value.isArray = true := by
    intro rule hr hb value hvalue
    by_contra hno
    have hnil : value.itemsOrEmpty = [] := by
      cases value <;> first | rfl | exact absurd rfl hno
    rw [htrue rule hr hb value hvalue hnil] at hno
    exact hno rfl
  refine ⟨hlists, fun rule hr hbind => ?_⟩
  obtain ⟨hb, -⟩ := binds_guard_iff.mpr hbind
  obtain ⟨dom, hdom⟩ := exists_boundDomain hdomains hr hb
  obtain ⟨before, after, hsplit⟩ :=
    List.append_of_mem ((mem_guards hdomains).mpr ⟨rule, hr, hbind, hdom⟩)
  refine rowWellFormed_of_ruleDomain (hlists rule hr hb) hdom
    (wellFormed_of_not_captures (hcap.1 before dom after hsplit) ?_)
  obtain ⟨fs, hfs, -⟩ := parse_eq_ok hn
  have hall : combineDomains inherited (guardsAmong (boundRows user rules domains))
      (permissionsAmong (boundRows user rules domains))
      = (inherited ++ before.flatMap Json.itemsOrEmpty) ++ (dom.itemsOrEmpty ++
        (after.flatMap Json.itemsOrEmpty
          ++ (orDomains (permissionsAmong (boundRows user rules domains))).itemsOrEmpty)) := by
    rw [combineDomains, hsplit]
    simp [List.append_assoc]
  rw [hall] at hfs
  exact wellFormed_of_append ⟨fs, hfs⟩

/-- **Exactly when no row widens access**: the rows that bind a principal evaluate to lists and its
guards to well-formed ones, or the terms they are spliced into cannot be read and the model is
refused. -/
theorem neverWidens_iff : NeverWidens registry security ev user model ↔
    RowsAreSafe registry security ev user model := by
  constructor
  · intro h rules domains inherited hrules hdomains hpure hin
    by_cases hread : ∃ n, parse (.array (combineDomains inherited
        (guardsAmong (boundRows user rules domains))
        (permissionsAmong (boundRows user rules domains)))) = .ok n
    · obtain ⟨n, hn⟩ := hread
      obtain ⟨-, hcap, htrue⟩ := h rules domains n hrules hdomains
        ((accessNode_eq hrules hdomains hpure hin).trans hn)
      exact .inl (listsAndGuardsWellFormed_of_neverWidens hdomains hn hcap htrue)
    · exact .inr (unreadable_iff.mpr fun n hn => hread ⟨n, hn⟩)
  · intro h rules domains n hrules hdomains hnode
    obtain ⟨hpure, -, inherited, -, hin⟩ := exists_of_accessNode hrules hnode
    rw [accessNode_eq hrules hdomains hpure hin] at hnode
    rcases h rules domains inherited hrules hdomains hpure hin with hsafe | hun
    · obtain ⟨fs, hfs, -⟩ := parse_eq_ok hnode
      have hinherited := (inheritedTerms_spec hin).1
      refine ⟨admitsOnlyWhatRowsDo_of_lists hsafe hdomains hinherited hnode,
        noRowCaptures_of_lists hsafe hdomains (wellFormed_of_append ⟨fs, hfs⟩),
        fun rule hr hb value hvalue hnil => ?_⟩
      obtain ⟨items, rfl⟩ := Json.isArray_iff.mp (hsafe.1 rule hr hb value hvalue)
      exact congrArg Json.array hnil
    · exact absurd hnode (unreadable_iff.mp hun n)

end Promise

/-! ### A value that is no list, and an operator without its operand -/

/-- A guard on everyone. -/
def guardRow (parsed : PyExpr) : Rule where
  groups := []
  restrict := true
  domainForce := none
  parsed := some (.ok parsed)
  reach := none
  exempt := []

/-- A permission on the partners whose domain is `False`. -/
def falseValueRows : Security := securityOf [("res.partner", [permissionRow (.Bool false)])]

/-- A guard on the partners whose disjunction lacks its second operand, beside a permission. -/
def openGuardRows : Security := securityOf
  [("res.partner", [guardRow (.Seq [.Str "|", .Seq [.Str "shared", .Str "=", .Bool true]]),
    permissionRow activeExpr])]

/-- The permission whose domain is `False` admits everything; and the open guard takes the
permission for its second operand, so that a shared record needs no permission. -/
theorem rows_widen_access :
    ¬ NeverWidens delegatingRegistry falseValueRows literalsOnly memberUser "res.partner" ∧
      ¬ NeverWidens delegatingRegistry openGuardRows literalsOnly memberUser "res.partner" := by
  constructor
  · intro h
    obtain ⟨-, -, htrue⟩ := h [permissionRow (.Bool false)] [.bool false] .True rfl rfl rfl
    exact absurd (htrue _ (List.mem_singleton.mpr rfl) (by decide) (.bool false) rfl rfl) (by decide)
  · intro h
    obtain ⟨hadm, -⟩ := h _ [.array [.string "|", term "shared" "=" (.bool true)],
      .array [term "active" "=" (.bool true)]]
      (.Or [.Leaf ⟨"shared", "=", .bool true⟩, .Leaf ⟨"active", "=", .bool true⟩]) rfl rfl rfl
    -- a shared record that is not active
    obtain ⟨-, rule, hr, hheld, -, ⟨items, hitems, hv⟩, -⟩ :=
      hadm (fun l => l.field = "shared") (by simp)
    rcases List.mem_cons.mp hr with rfl | hr
    · exact absurd rfl hheld.1
    · obtain rfl := List.mem_singleton.mp hr
      obtain rfl : [term "active" "=" (.bool true)] = items := Json.array.inj (Except.ok.inj hitems)
      have := ((spellsOne_term "active" "=" (.bool true)).admits_iff _).mp hv
      simp at this

end OdooKernel
