import OdooKernel.Access.Combination
import OdooKernel.Access.Loading

/-!
# The check on the groups and the domain of the rows

Access is decided twice.  `checkReadAccess` looks at lists of groups that were made when the rows
were loaded, and denies without evaluating anything; `rulesDomain` evaluates the rows and says which
records are left.  This module says that the first is no stricter than the second: where the check
denies, the domain admits nothing.

**What loading keeps.**  A permission that is not literally FALSE is in the list of groups that
grant, and a guard that is literally FALSE is in the list of those that deny (`Agrees`).  It holds of
empty data, and a row more, the rows of an owner and the whole load keep it (`agrees_loadRow`,
`agrees_bindRows`, `agrees_loadSecurity`).

**What literally FALSE is worth.**  The loader reads it off the text, spaces and quotes dropped, and
the rows are evaluated.  So the theorem asks something of each model on the chain of delegation
(`RowsReadable`): that it has rows, that those which bind evaluate to well-formed domains, and those
whose text states FALSE to a domain that admits nothing.  `denied_admits_something` has an example
without each of the three.

* `DelegatesTo` — the models on a chain of delegation.
* `denied_cases` — the reasons why the check denies.
* **`denied_admits_nothing`** — the two agree.
-/

namespace OdooKernel

open PrefixNotation

/-! ## What loading keeps -/

/-- A row that is a literally FALSE guard. -/
def Rule.Denies (rule : Rule) (guard : DenyingGuard) : Prop :=
  rule.restrict = true ∧ rule.never = true ∧ rule.groups = guard.1.toList ∧ rule.exempt = guard.2

/-- The group lists of a model agree with its rows. -/
structure Agrees (security : Security) : Prop where
  granted : ∀ model, ∀ rule ∈ security.rules.listAt model, rule.isPermission = true →
    rule.never = true ∨ ∀ g ∈ rule.groups, g ∈ security.access.listAt model
  denied : ∀ model, ∀ guard ∈ security.denyingGuards.listAt model,
    ∃ rule ∈ security.rules.listAt model, rule.Denies guard

/-- A list that is extended keeps what it had. -/
lemma Dict.mem_listAt_extendAt {κ α : Type} [DecidableEq κ] {d : Dict κ (List α)} {k k' : κ}
    {xs : List α} {x : α} (h : x ∈ d.listAt k') : x ∈ (d.extendAt k xs).listAt k' := by
  rw [Dict.listAt_extendAt]
  split
  · next hk => subst hk; exact List.mem_append_left _ h
  · exact h

lemma Dict.listAt_copyTo {α : Type} (d : Dict String (List α)) (source target k : String) :
    (d.copyTo source target).listAt k
      = if target = k then d.listAt k ++ d.listAt source else d.listAt k := by
  unfold Dict.copyTo
  split
  · next xs hxs =>
      rw [Dict.listAt_extendAt]
      have hsource : d.listAt source = xs := by simp [Dict.listAt, hxs]
      split
      · next hk => rw [hk, hsource]
      · rfl
  · next hnone =>
      have hsource : d.listAt source = [] := by simp [Dict.listAt, hnone]
      simp [hsource]

/-- **One row more** keeps the lists in agreement. -/
lemma agrees_loadRow {cls : CharClass} {exemptions : Dict ℤ (List ℤ)} {security : Security}
    (h : Agrees security) (row : AccessRow) : Agrees (loadRow cls exemptions security row) := by
  set rule := rowRule cls exemptions row with hrule
  have hmem : rule ∈ (security.rules.extendAt row.model [rule]).listAt row.model := by
    rw [Dict.listAt_extendAt, if_pos rfl]
    simp
  refine ⟨fun m rule' hr hp => ?_, fun m guard hg => ?_⟩
  · have haccess : ∀ g ∈ security.access.listAt m,
        g ∈ (loadRow cls exemptions security row).access.listAt m := by
      intro g hg
      simp only [loadRow]
      split
      · exact Dict.mem_listAt_extendAt hg
      · exact hg
    simp only [loadRow, Dict.listAt_extendAt, ← hrule] at hr
    by_cases hm : row.model = m
    · subst hm
      rw [if_pos rfl, List.mem_append] at hr
      rcases hr with hr | hr
      · exact (h.granted _ rule' hr hp).imp_right fun hall g hg => haccess g (hall g hg)
      · -- the row itself: a permission grants its group unless it states FALSE
        obtain rfl := List.mem_singleton.mp hr
        obtain ⟨-, hguard⟩ := isPermission_iff.mp hp
        have hguard : row.guard = false := hguard
        by_cases hnever : rule.never = true
        · exact .inl hnever
        · have hgroups : rule.groups = [row.group] := by
            show (if row.guard && !row.membersOnly then [] else [row.group]) = [row.group]
            simp [hguard]
          refine .inr fun g hg => ?_
          rw [hgroups, List.mem_singleton] at hg
          subst hg
          simp [loadRow, hguard, ← hrule, hnever, Dict.listAt_extendAt]
    · rw [if_neg hm] at hr
      exact (h.granted m rule' hr hp).imp_right fun hall g hg => haccess g (hall g hg)
  · have hold : ∀ m, guard ∈ security.denyingGuards.listAt m →
        ∃ rule' ∈ (loadRow cls exemptions security row).rules.listAt m, rule'.Denies guard := by
      intro m hg
      obtain ⟨rule', hr, hd⟩ := h.denied m guard hg
      exact ⟨rule', Dict.mem_listAt_extendAt hr, hd⟩
    simp only [loadRow, ← hrule] at hg
    split at hg
    · next hdeny =>
        rw [Bool.and_eq_true] at hdeny
        rw [Dict.listAt_extendAt] at hg
        by_cases hm : row.model = m
        · subst hm
          rw [if_pos rfl, List.mem_append, List.mem_singleton] at hg
          rcases hg with hg | rfl
          · exact hold _ hg
          · refine ⟨rule, hmem, hdeny.1, hdeny.2, ?_, rfl⟩
            show (if row.guard && !row.membersOnly then [] else [row.group]) = _
            cases hmembers : row.membersOnly <;> simp [hdeny.1]
        · rw [if_neg hm] at hg
          exact hold m hg
    · exact hold m hg

/-- **The rows of an owner** keep the lists in agreement. -/
lemma agrees_bindRows {security : Security} (h : Agrees security) (model owner : String) :
    Agrees (bindRows security model owner) := by
  refine ⟨fun m rule hr hp => ?_, fun m guard hg => ?_⟩
  · simp only [bindRows, Dict.listAt_copyTo] at hr ⊢
    by_cases hm : model = m
    · subst hm
      simp only [if_true, List.mem_append] at hr ⊢
      rcases hr with hr | hr
      · exact (h.granted model rule hr hp).imp_right fun hall g hg => .inl (hall g hg)
      · exact (h.granted owner rule hr hp).imp_right fun hall g hg => .inr (hall g hg)
    · simp only [if_neg hm] at hr ⊢
      exact h.granted m rule hr hp
  · simp only [bindRows, Dict.listAt_copyTo] at hg ⊢
    by_cases hm : model = m
    · subst hm
      simp only [if_true, List.mem_append] at hg ⊢
      rcases hg with hg | hg
      · obtain ⟨rule, hr, hd⟩ := h.denied model guard hg
        exact ⟨rule, .inl hr, hd⟩
      · obtain ⟨rule, hr, hd⟩ := h.denied owner guard hg
        exact ⟨rule, .inr hr, hd⟩
    · simp only [if_neg hm] at hg ⊢
      exact h.denied m guard hg

/-- What every step of a fold keeps, the fold keeps. -/
lemma foldl_keeps {α β : Type} (P : β → Prop) {f : β → α → β} (hf : ∀ b a, P b → P (f b a)) :
    ∀ (as : List α) (b : β), P b → P (as.foldl f b)
  | [], _, hb => hb
  | a :: as, b, hb => foldl_keeps P hf as (f b a) (hf b a hb)

/-- **The whole load** leaves the lists in agreement. -/
lemma agrees_loadSecurity (cls : CharClass) (topology : AccessTopology) (base : Security)
    (exemptions : Dict ℤ (List ℤ)) (rows : List AccessRow) :
    Agrees (loadSecurity cls topology base exemptions rows) := by
  have hempty : Agrees { base with access := [], denyingGuards := [], rules := [] } :=
    ⟨by simp [Dict.listAt], by simp [Dict.listAt]⟩
  have hrows : Agrees (rows.foldl (loadRow cls exemptions)
      { base with access := [], denyingGuards := [], rules := [] }) :=
    foldl_keeps Agrees (fun _ row h => agrees_loadRow h row) rows _ hempty
  have hbound := foldl_keeps Agrees
    (fun _ entry h => foldl_keeps Agrees (fun _ owner h => agrees_bindRows h entry.1 owner)
      entry.2 _ h) topology.boundBy _ hrows
  exact ⟨hbound.granted, hbound.denied⟩

/-! ## The parents of the check are those of the domain -/

/-- The parents the check climbs to are the ones whose domains are combined. -/
lemma parents_of_topology (registry : Registry) (model : String) :
    (AccessTopology.of registry).parents.listAt model
      = (parentLinks registry model).map (·.1) := by
  have hmap : (AccessTopology.of registry).parents
      = (registry.inherits.filter fun e => climbs registry e.1).map
          fun e => (e.1, e.2.map (·.1)) := rfl
  rw [Dict.listAt, hmap, Dict.get?_map, Dict.get?_filter, parentLinks]
  split
  · cases h : registry.inherits.get? model <;> simp [Registry.inheritsOf, Dict.listAt, h]
  · rfl

/-- A model and the models its access climbs to. -/
inductive DelegatesTo (registry : Registry) : String → String → Prop where
  | self (model : String) : DelegatesTo registry model model
  | parent {model parent via ancestor : String} (link : (parent, via) ∈ parentLinks registry model)
      (rest : DelegatesTo registry parent ancestor) : DelegatesTo registry model ancestor

/-- A model has rows; those that bind a principal evaluate to well-formed domains, and those whose
text states FALSE to a domain that admits nothing. -/
def RowsReadable (security : Security) (ev : Evaluator) (user : UserCtx) (model : String) : Prop :=
  ∃ rules, security.rules.get? model = some rules ∧ RowsWellFormed ev user model rules ∧
    ∀ rule ∈ rules, rule.never = true → ∀ v, ¬ FilterHolds ev model v rule

/-! ## Where the check denies -/

section Denied

variable {registry : Registry} {security : Security} {ev : Evaluator} {user : UserCtx}
  {model : String} {rules : List Rule}

/-- A permission that is held is literally FALSE, when no group that grants is held. -/
lemma not_rowsHold_of_no_grant (h : Agrees security)
    (hrules : security.rules.get? model = some rules)
    (hnever : ∀ rule ∈ rules, rule.never = true → ∀ v, ¬ FilterHolds ev model v rule)
    (hgrant : ∀ g ∈ security.access.listAt model, g ∉ user.groups) (v : Leaf → Prop) :
    ¬ RowsHold registry security ev user model v rules := by
  rintro ⟨⟨rule, hr, ⟨hne, hrestrict, g, hg, hheld⟩, hfilter, -⟩, -⟩
  have hlist : rule ∈ security.rules.listAt model := by simpa [Dict.listAt, hrules] using hr
  rcases h.granted model rule hlist (isPermission_iff.mpr ⟨hne, hrestrict⟩) with hn | hall
  · exact hnever rule hr hn v hfilter
  · exact hgrant g (hall g hg) hheld

/-- A guard of one group, held in every company or on a model without an anchor, is not narrowed. -/
lemma ruleScope_eq_none {rule : Rule} {gid : ℤ} (hgroups : rule.groups = [gid])
    (hheld : gid ∈ user.groups)
    (hscope : ¬ (security.anchors.containsKey model = true ∧ user.scopes.containsKey gid = true)) :
    ruleScope security model rule user = none := by
  unfold ruleScope
  split
  · cases ha : security.anchors.get? model with
    | none => rfl
    | some anchor =>
        cases hs : user.scopes.get? gid with
        | none => simp [heldScope, hgroups, hheld, hs]
        | some companies => simp [Dict.containsKey, ha, hs] at hscope
  · rfl

/-- A denying guard that binds is a guard row that binds, and it is literally FALSE. -/
lemma not_rowsHold_of_guard (h : Agrees security)
    (hrules : security.rules.get? model = some rules)
    (hnever : ∀ rule ∈ rules, rule.never = true → ∀ v, ¬ FilterHolds ev model v rule)
    {guard : DenyingGuard} (hguard : guard ∈ security.denyingGuards.listAt model)
    (hbinds : guard.binds (security.anchors.containsKey model) user.groups user.scopes = true)
    (v : Leaf → Prop) : ¬ RowsHold registry security ev user model v rules := by
  rintro ⟨-, hguards⟩
  obtain ⟨rule, hlist, hrestrict, hn, hgroups, hexempt⟩ := h.denied model guard hguard
  have hr : rule ∈ rules := by simpa [Dict.listAt, hrules] using hlist
  obtain ⟨group, exempt⟩ := guard
  simp only [DenyingGuard.binds, Bool.and_eq_true, Bool.not_eq_true', List.any_eq_false,
    decide_eq_true_eq] at hbinds
  obtain ⟨hspared, hbound⟩ := hbinds
  have hfree : ¬ (rule.restrict = true ∧ ∃ g ∈ rule.exempt, g ∈ user.groups) := by
    rintro ⟨-, g, hg, hheld⟩
    rw [hexempt] at hg
    exact hspared g hg hheld
  cases group with
  | none =>
      have hnil : rule.groups = [] := hgroups
      have hscope : ruleScope security model rule user = none := by
        simp [ruleScope, Rule.isGroup, hnil]
      have hholds := hguards rule hr ⟨.inl hnil, hfree⟩ (by simp [ScopeHolds, hscope])
      exact hnever rule hr hn v hholds.1
  | some gid =>
      have hone : rule.groups = [gid] := hgroups
      simp only [Bool.and_eq_true, decide_eq_true_eq, Bool.not_eq_true', Bool.and_eq_false_iff]
        at hbound
      obtain ⟨hheld, hout⟩ := hbound
      have hscope : ruleScope security model rule user = none :=
        ruleScope_eq_none hone hheld (by rcases hout with h' | h' <;> simp [h'])
      have hbinding : BindingGuard user rule :=
        ⟨.inr ⟨hrestrict, gid, by simp [hone], hheld⟩, hfree⟩
      have hholds := hguards rule hr hbinding (by simp [ScopeHolds, hscope])
      exact hnever rule hr hn v hholds.1

/-- A check of several parents that denies, denies at one of them. -/
lemma exists_of_checkParents {check : String → Result Unit} {reason : String} :
    ∀ {parents : List String}, checkParents check parents = denyAccess reason →
      ∃ parent ∈ parents, check parent = denyAccess reason
  | [], h => by simp [checkParents, denyAccess] at h
  | parent :: parents, h => by
      cases hcheck : check parent with
      | error e =>
          refine ⟨parent, by simp, ?_⟩
          simp only [checkParents, hcheck, bind, Except.bind] at h
          rw [hcheck, h]
      | ok u =>
          simp only [checkParents, hcheck, bind, Except.bind] at h
          obtain ⟨p, hp, hdeny⟩ := exists_of_checkParents h
          exact ⟨p, List.mem_cons_of_mem _ hp, hdeny⟩

/-- What the check denies, it denies for one of three reasons. -/
lemma denied_cases {remaining : ℕ} {uid : ℤ} {groups : Finset ℤ} {scopes : GroupScopes}
    {reason : String}
    (h : checkReadAccessInner security uid groups scopes (remaining + 1) model
      = denyAccess reason) :
    (∀ g ∈ security.access.listAt model, g ∉ groups) ∨
      (∃ guard ∈ security.denyingGuards.listAt model,
        guard.binds (security.anchors.containsKey model) groups scopes = true) ∨
      ∃ parent ∈ security.parents.listAt model,
        checkReadAccessInner security uid groups scopes remaining parent = denyAccess reason := by
  unfold checkReadAccessInner at h
  split at h
  · next hnone => exact .inl (by simp [Dict.listAt, hnone])
  · next granted hsome =>
      have hlist : security.access.listAt model = granted := by simp [Dict.listAt, hsome]
      split at h
      · next hno =>
          refine .inl fun g hg hheld => ?_
          rw [hlist] at hg
          simp only [Bool.not_eq_true', List.any_eq_false, decide_eq_true_eq] at hno
          exact hno g hg hheld
      · split at h
        · next hdeny => exact .inr (.inl (List.any_eq_true.mp hdeny))
        · exact .inr (.inr (exists_of_checkParents h))

end Denied

/-- A domain, there, that no record of any world satisfies. -/
def AdmitsNothing (d : Option Json) : Prop :=
  ∃ dom, d = some dom ∧ ∀ (w : World) (r : w.Rec), ¬ w.Satisfies r dom

/-- Terms that no record of any world satisfies are a domain that admits nothing. -/
lemma admitsNothing_of_terms {items : List Json}
    (h : ∀ (w : World) (r : w.Rec), ¬ Admits (w.truth r) items) :
    AdmitsNothing (unlessEmpty items) := by
  cases items with
  | nil =>
      let w : World := World.of (fun (_ : Unit) _ => True) (fun _ _ _ => True)
      exact absurd (admits_nil _) (h w ())
  | cons item items =>
      refine ⟨.array (item :: items), rfl, fun w r hsat => ?_⟩
      obtain ⟨n, hn, hv⟩ := hsat
      exact h w r ((holds_iff_admits hn _).mp hv)

/-- **One level after the other.**  Where the lists agree with the rows, and the parents with the
links, a model that is denied has a domain that admits nothing. -/
lemma admitsNothing_of_denied {registry : Registry} {security : Security} {ev : Evaluator}
    {user : UserCtx} (h : Agrees security)
    (hparents : ∀ model, security.parents.listAt model
      = (parentLinks registry model).map (·.1)) :
    ∀ {remaining : ℕ} {model reason : String} {d : Option Json},
      (∀ ancestor, DelegatesTo registry model ancestor →
        RowsReadable security ev user ancestor) →
      checkReadAccessInner security user.uid user.groups user.scopes remaining model
        = denyAccess reason →
      rulesDomainInner registry security ev user remaining model = .ok d → AdmitsNothing d
  | 0, _, _, _, _, hcheck, _ => by simp [checkReadAccessInner, refuse, denyAccess] at hcheck
  | remaining + 1, model, reason, d, hrows, hcheck, hdomain => by
      obtain ⟨rules, hrules, hwf, hnever⟩ := hrows model (.self model)
      have hwf' : ∀ rules', security.rules.get? model = some rules' →
          RowsWellFormed ev user model rules' := by
        intro rules' hrules'
        obtain rfl := Option.some.inj (hrules.symm.trans hrules')
        exact hwf
      obtain ⟨items, rfl, -, hmean⟩ := rulesDomainInner_terms hwf' hdomain
      refine admitsNothing_of_terms fun w r hadm => ?_
      obtain ⟨hhold, hlinks⟩ := (hmean w r).mp hadm
      have hhold := hhold rules hrules
      rcases denied_cases hcheck with hgrant | ⟨guard, hguard, hbinds⟩ | ⟨parent, hparent, hdeny⟩
      · exact not_rowsHold_of_no_grant h hrules hnever hgrant _ hhold
      · exact not_rowsHold_of_guard h hrules hnever hguard hbinds _ hhold
      · rw [hparents model] at hparent
        obtain ⟨⟨parent, via⟩, hlink, rfl⟩ := List.mem_map.mp hparent
        have hrows' : ∀ ancestor, DelegatesTo registry parent ancestor →
            RowsReadable security ev user ancestor := fun ancestor hanc =>
          hrows ancestor (.parent hlink hanc)
        obtain ⟨inherited, hin, -⟩ := rulesDomainInner_eq_ok hdomain
        obtain ⟨d', hd'⟩ := (inheritedTerms_mono (fun _ _ => rulesDomainInner_succ) hin).2 _ hlink
        obtain ⟨dom, rfl, hnothing⟩ := admitsNothing_of_denied h hparents hrows' hdeny hd'
        obtain ⟨r', -, hsat⟩ := hlinks _ hlink dom hd'
        exact hnothing w r' hsat

/-- **The two access checks agree.**  Over access data as it is loaded, when every model on the
chain of delegation has rows, the binding ones evaluate to well-formed domains and the ones whose
text states FALSE evaluate to a domain that admits nothing, then a model the check on the groups
denies has a domain that no record satisfies. -/
theorem denied_admits_nothing {cls : CharClass} {registry : Registry} {base : Security}
    {exemptions : Dict ℤ (List ℤ)} {rows : List AccessRow} {ev : Evaluator} {user : UserCtx}
    {model reason : String} {d : Option Json}
    (hrows : ∀ ancestor, DelegatesTo registry model ancestor → RowsReadable
      (loadSecurity cls (AccessTopology.of registry) base exemptions rows) ev user ancestor)
    (hdenied : checkReadAccess
      (loadSecurity cls (AccessTopology.of registry) base exemptions rows) model user.uid
      user.groups user.scopes = denyAccess reason)
    (hdomain : rulesDomain registry
      (loadSecurity cls (AccessTopology.of registry) base exemptions rows) ev user model = .ok d) :
    AdmitsNothing d := by
  have hparents : ∀ model, (loadSecurity cls (AccessTopology.of registry) base exemptions
      rows).parents.listAt model = (parentLinks registry model).map (·.1) :=
    parents_of_topology registry
  exact admitsNothing_of_denied (agrees_loadSecurity _ _ _ _ _) hparents hrows hdenied hdomain

/-! ### Loaded rows -/

/-- The ASCII characters, and doubles that are read exactly. -/
def asciiClass : CharClass where
  isAlphabetic := Char.isAlpha
  isNumeric := Char.isDigit
  toDouble := some

/-- A row of group `1` on a model. -/
def storedRow (id : ℤ) (model : String) (guard : Bool) (domain : Option String) : AccessRow where
  id := id
  model := model
  group := 1
  guard := guard
  membersOnly := false
  domain := domain
  reach := none
  anchor := none

/-- The access data of the delegating models, from some rows. -/
def loadedFrom (rows : List AccessRow) : Security :=
  loadSecurity asciiClass (AccessTopology.of delegatingRegistry) (securityOf []) [] rows

/-- A permission on the users. -/
def usersPermission : AccessRow := storedRow 1 "res.users" false none

/-- A permission on the partners. -/
def partnersPermission : AccessRow := storedRow 2 "res.partner" false none

/-- A guard that closes the partners. -/
def partnersClosed : AccessRow := storedRow 3 "res.partner" true (some nothingText)

/-- Permissions on the users and their partners, and the guard. -/
def closedPartners : Security := loadedFrom [usersPermission, partnersPermission, partnersClosed]

/-- A row without a domain is TRUE. -/
lemma ruleValue_permission (id : ℤ) (model : String) :
    ruleValue literalsOnly model (rowRule asciiClass [] (storedRow id model false none))
      = .ok (.array []) := rfl

lemma never_permission (id : ℤ) (model : String) :
    (rowRule asciiClass [] (storedRow id model false none)).never = false := rfl

/-- The text of the guard evaluates to FALSE. -/
lemma ruleValue_closed :
    ruleValue literalsOnly "res.partner" (rowRule asciiClass [] partnersClosed)
      = .ok (.array [falseTerm]) := by
  decide +kernel

lemma rowsReadable_closedUsers :
    RowsReadable closedPartners literalsOnly memberUser "res.users" := by
  refine ⟨[rowRule asciiClass [] usersPermission], rfl, ?_, ?_⟩
  · rintro rule hr - value hvalue
    obtain rfl := List.mem_singleton.mp hr
    obtain rfl := Except.ok.inj ((ruleValue_permission _ _).symm.trans hvalue)
    exact ⟨[], rfl, wellFormed_nil⟩
  · intro rule hr hnever
    obtain rfl := List.mem_singleton.mp hr
    exact absurd hnever (by rw [usersPermission, never_permission]; decide)

lemma rowsReadable_closedPartners :
    RowsReadable closedPartners literalsOnly memberUser "res.partner" := by
  refine ⟨[rowRule asciiClass [] partnersPermission, rowRule asciiClass [] partnersClosed], rfl,
    ?_, ?_⟩
  · rintro rule hr - value hvalue
    rcases List.mem_cons.mp hr with rfl | hr
    · obtain rfl := Except.ok.inj ((ruleValue_permission _ _).symm.trans hvalue)
      exact ⟨[], rfl, wellFormed_nil⟩
    · obtain rfl := List.mem_singleton.mp hr
      obtain rfl := Except.ok.inj (ruleValue_closed.symm.trans hvalue)
      exact ⟨_, rfl, spellsOne_falseTerm.wellFormed⟩
  · intro rule hr hnever v
    rcases List.mem_cons.mp hr with rfl | hr
    · exact absurd hnever (by rw [partnersPermission, never_permission]; decide)
    · obtain rfl := List.mem_singleton.mp hr
      rintro ⟨items, hitems, hv⟩
      obtain rfl := Json.array.inj (Except.ok.inj (ruleValue_closed.symm.trans hitems))
      exact (spellsOne_falseTerm.admits_iff v).mp hv

/-- The chain of delegation from the users ends with their partners. -/
lemma delegatesTo_users {ancestor : String}
    (h : DelegatesTo delegatingRegistry "res.users" ancestor) :
    ancestor = "res.users" ∨ ancestor = "res.partner" := by
  have hlinks : parentLinks delegatingRegistry "res.users" = [("res.partner", "partner_id")] := rfl
  have hend : parentLinks delegatingRegistry "res.partner" = [] := rfl
  cases h with
  | self => exact .inl rfl
  | parent link rest =>
      rw [hlinks, List.mem_singleton, Prod.mk.injEq] at link
      obtain ⟨rfl, -⟩ := link
      cases rest with
      | self => exact .inr rfl
      | parent link _ => simp [hend] at link

/-- The users are denied through their closed partners, and their domain admits nothing. -/
theorem denied_users_admit_nothing : AdmitsNothing (some (.array [term "partner_id" "any"
    (.array [falseTerm])])) := by
  have hrows : ∀ ancestor, DelegatesTo delegatingRegistry "res.users" ancestor →
      RowsReadable closedPartners literalsOnly memberUser ancestor := by
    intro ancestor h
    rcases delegatesTo_users h with rfl | rfl
    · exact rowsReadable_closedUsers
    · exact rowsReadable_closedPartners
  have hdenied : checkReadAccess closedPartners "res.users" 2 {1} []
      = denyAccess "access denied on res.partner for uid 2: a guard binding it admits nothing" := by
    decide +kernel
  have hdomain : rulesDomain delegatingRegistry closedPartners literalsOnly memberUser "res.users"
      = .ok (some (.array [term "partner_id" "any" (.array [falseTerm])])) := by
    decide +kernel
  exact denied_admits_nothing hrows hdenied hdomain

/-! ### No rows, a quoted sentinel, and an operator without its operand -/

/-- A permission that compares a field named `0`: its text states FALSE once the quotes are
dropped. -/
def quotedPermission : AccessRow := storedRow 1 "res.partner" false (some "[('0', '=', 1)]")

/-- A guard whose disjunction lacks its second operand. -/
def openGuard : AccessRow := storedRow 1 "res.partner" true (some "['|', ('shared', '=', True)]")

/-- A world of one record of which everything is true. -/
def everythingTrue : World := World.of (fun (_ : Unit) _ => True) (fun _ _ _ => True)

lemma everythingTrue_leaf {l : Leaf} (h : l.op ≠ "any") : everythingTrue.truth () l := by
  show leafTruth _ _ _ _
  rw [leafTruth]
  simp [h]

/-- Where the partners have no row, they are denied and not restricted. -/
lemma denied_without_rows :
    checkReadAccess (loadedFrom []) "res.partner" 2 {1} []
        = denyAccess "access denied: no ir.access read permission on res.partner" ∧
      rulesDomain delegatingRegistry (loadedFrom []) literalsOnly memberUser "res.partner"
        = .ok none ∧
      ¬ AdmitsNothing none := by
  refine ⟨by decide +kernel, by decide +kernel, ?_⟩
  rintro ⟨dom, hdom, -⟩
  exact absurd hdom (by simp)

/-- A row that reads as FALSE to the loader only, denies; its domain is a comparison. -/
lemma denied_by_quotes :
    checkReadAccess (loadedFrom [quotedPermission]) "res.partner" 2 {1} []
        = denyAccess "access denied: no ir.access read permission on res.partner" ∧
      rulesDomain delegatingRegistry (loadedFrom [quotedPermission]) literalsOnly memberUser
        "res.partner" = .ok (some (.array [term "0" "=" (.number (.int 1))])) ∧
      ¬ AdmitsNothing (some (.array [term "0" "=" (.number (.int 1))])) := by
  refine ⟨by decide +kernel, by decide +kernel, ?_⟩
  rintro ⟨dom, hdom, hnothing⟩
  obtain rfl := Option.some.inj hdom
  exact hnothing everythingTrue () ⟨.Leaf ⟨"0", "=", .number (.int 1)⟩, rfl, everythingTrue_leaf (by decide)⟩

/-- Where no permission is held, an open guard takes the FALSE that stands for it. -/
lemma denied_beside_open_guard :
    checkReadAccess (loadedFrom [openGuard]) "res.partner" 2 {1} []
        = denyAccess "access denied: no ir.access read permission on res.partner" ∧
      rulesDomain delegatingRegistry (loadedFrom [openGuard]) literalsOnly memberUser
        "res.partner" = .ok (some (.array [.string "|", term "shared" "=" (.bool true),
          falseTerm])) ∧
      ¬ AdmitsNothing (some (.array [.string "|", term "shared" "=" (.bool true), falseTerm])) := by
  refine ⟨by decide +kernel, by decide +kernel, ?_⟩
  rintro ⟨dom, hdom, hnothing⟩
  obtain rfl := Option.some.inj hdom
  exact hnothing everythingTrue () ⟨.Or [.Leaf ⟨"shared", "=", .bool true⟩, .False], rfl,
    .inl (everythingTrue_leaf (by decide))⟩

/-- The three ways in which a denied model is left with a domain that admits a record. -/
theorem denied_admits_something :
    (∃ d, rulesDomain delegatingRegistry (loadedFrom []) literalsOnly memberUser "res.partner"
        = .ok d ∧ ¬ AdmitsNothing d) ∧
      (∃ d, rulesDomain delegatingRegistry (loadedFrom [quotedPermission]) literalsOnly memberUser
        "res.partner" = .ok d ∧ ¬ AdmitsNothing d) ∧
      (∃ d, rulesDomain delegatingRegistry (loadedFrom [openGuard]) literalsOnly memberUser
        "res.partner" = .ok d ∧ ¬ AdmitsNothing d) ∧
      ∀ rows ∈ [[], [quotedPermission], [openGuard]],
        checkReadAccess (loadedFrom rows) "res.partner" 2 {1} []
          = denyAccess "access denied: no ir.access read permission on res.partner" := by
  refine ⟨⟨_, denied_without_rows.2⟩, ⟨_, denied_by_quotes.2⟩, ⟨_, denied_beside_open_guard.2⟩, ?_⟩
  intro rows hrows
  simp only [List.mem_cons, List.not_mem_nil, or_false] at hrows
  rcases hrows with rfl | rfl | rfl
  · exact denied_without_rows.1
  · exact denied_by_quotes.1
  · exact denied_beside_open_guard.1

end OdooKernel
