import OdooKernel.Search.Paths
import OdooKernel.Search.Shape

/-!
# The aliases of a grouping

A grouping joins the comodels on the way to its fields, the relation tables of its many2many fields,
and the comodels that its order goes through.  Each of the three keeps its own record of what it has
joined, or none, and all spell their aliases alike, from the table's name on; the server refuses a
statement that names one alias twice.

**Paths and names.**  What is joined is a path, and its alias is how the path is spelled (`spell`).
Each of the three has a lemma that says which paths it joins and that their aliases are spelled so;
that the server takes the statement is then a question of spelling alone
(`GroupRequest.AliasesApart`).

* `specHops`, `specField` — what a spec names.
* `gbSpecs_named`, `keyColumns_aliases`, `orderColumns_aliases` — the aliases of the three.
* **`accepted_iff`** — no alias is joined twice exactly where the three spell different names.
* `owner_joined_twice` — a comodel that is on the way to a field and in the order.
-/

namespace OdooKernel

/-! ## Names -/

/-- How a path is spelled, from where it starts. -/
def spell (start : String) (path : List String) : String :=
  path.foldl (fun aliasName hop => aliasName ++ "__" ++ hop) start

/-- The fields on the way to the field that a spec names. -/
def specHops (spec : String) : List String := (splitDots (splitAtFirst ':' spec).1).dropLast

/-- The field of a model that a spec is grouped by, where it names no path. -/
def specField (model : Model) (spec : String) : Option Field :=
  (model.fields.get? ((splitDots (splitAtFirst ':' spec).1).getLastD "")).bind fun field =>
    match field.groupByField with
    | none => some field
    | some standIn => model.fields.get? standIn

/-- A spelled path is longer than its start. -/
lemma length_spell_le (path : List String) : ∀ start : String,
    start.toList.length ≤ (spell start path).toList.length := by
  induction path with
  | nil => exact fun _ => le_refl _
  | cons hop path ih =>
      intro start
      have hlonger := ih (start ++ "__" ++ hop)
      simp only [String.toList_append, List.length_append] at hlonger
      show _ ≤ (spell (start ++ "__" ++ hop) path).toList.length
      omega

lemma spell_ne {start : String} {path : List String} (hne : path ≠ []) : spell start path ≠ start := by
  cases path with
  | nil => exact absurd rfl hne
  | cons hop path =>
      intro heq
      have hlonger := length_spell_le path (start ++ "__" ++ hop)
      have hlength := congrArg (fun s : String => s.toList.length) heq
      simp only [String.toList_append, List.length_append, String.reduceToList, List.length_cons,
        List.length_nil] at hlonger
      have hshow : spell start (hop :: path) = spell (start ++ "__" ++ hop) path := rfl
      rw [hshow] at hlength
      omega

namespace GroupRequest

variable {r : GroupRequest} {calls : ℕ} {model : Model}

/-! ## The comodels on the way -/

/-- A path on the way to a field that some spec names, or a part of it. -/
def HopPath (specs : List String) (path : List String) : Prop :=
  path ≠ [] ∧ ∃ spec ∈ specs, ∃ rest, specHops spec = path ++ rest

/-- The aliases of some joins are distinct, and those that were there before and those of some
paths. -/
structure JoinsSpelled (start : String) (before after : List HopJoin) (hops : List String) : Prop where
  nodup : (after.map (·.aliasName)).Nodup
  mem : ∀ a, a ∈ after.map (·.aliasName) ↔
    a ∈ before.map (·.aliasName) ∨ ∃ path rest, hops = path ++ rest ∧ path ≠ [] ∧ a = spell start path

/-- The parts of a path that begins with a field. -/
lemma exists_part_cons {start hop a : String} {hops : List String} :
    (∃ path rest, hop :: hops = path ++ rest ∧ path ≠ [] ∧ a = spell start path) ↔
      a = start ++ "__" ++ hop ∨
        ∃ path rest, hops = path ++ rest ∧ path ≠ [] ∧ a = spell (start ++ "__" ++ hop) path := by
  constructor
  · rintro ⟨_ | ⟨step, steps⟩, rest, hpath, hne, rfl⟩
    · exact absurd rfl hne
    · rw [List.cons_append] at hpath
      obtain ⟨rfl, rfl⟩ := List.cons.inj hpath
      cases steps with
      | nil => exact .inl rfl
      | cons next steps => exact .inr ⟨next :: steps, rest, rfl, List.cons_ne_nil _ _, rfl⟩
  · rintro (rfl | ⟨path, rest, rfl, hne, rfl⟩)
    · exact ⟨[hop], hops, rfl, List.cons_ne_nil _ _, rfl⟩
    · exact ⟨hop :: path, rest, rfl, List.cons_ne_nil _ _, rfl⟩

lemma many2oneHopJoin_alias {c : Compiler} {field : Field} {co : Model} {coalias : String}
    {on : Condition} {again : Compiler → Node → Compile Condition}
    (h : Yields (c.many2oneHopJoin again field) (co, coalias, on)) :
    coalias = c.aliasName ++ "__" ++ field.name ∧ ∃ k, c.ctx.registry.get k = .ok co := by
  unfold Compiler.many2oneHopJoin at h
  split_ifs at h
  · simp at h
  · simp at h
  · simp only [liftM_eq_ofResult, yields_bind, yields_ofResult, yields_pure, Prod.mk.injEq] at h
    obtain ⟨k, -, co', hco, rules, -, -, -, rfl, rfl, rfl⟩ := h
    exact ⟨rfl, k, hco⟩

/-- **The joins on the way to a field** spell the parts of its path. -/
lemma walkHops_aliases {spec : String} : ∀ {hops : List String} {c : Compiler} {joins : List HopJoin}
    {c' : Compiler} {joins' : List HopJoin}, c.ctx.registry.FieldsNamed →
    (∃ k, c.ctx.registry.get k = .ok c.model) → (joins.map (·.aliasName)).Nodup →
    Yields (r.walkHops calls spec c joins hops) (c', joins') →
    c'.aliasName = spell c.aliasName hops ∧ (hops = [] → c' = c) ∧
      JoinsSpelled c.aliasName joins joins' hops
  | [], c, joins, c', joins', _, _, hnodup, h => by
      simp only [walkHops, yields_pure, Prod.mk.injEq] at h
      obtain ⟨rfl, rfl⟩ := h
      refine ⟨rfl, fun _ => rfl, hnodup, fun a => ⟨.inl, ?_⟩⟩
      rintro (ha | ⟨path, rest, hpath, hne, -⟩)
      · exact ha
      · exact absurd (List.append_eq_nil_iff.mp hpath.symm).1 hne
  | hop :: hops, c, joins, c', joins', hnamed, ⟨k, hk⟩, hnodup, h => by
      simp only [walkHops, liftM_eq_ofResult, yields_bind, yields_ofResult, orRefuse_eq_ok] at h
      obtain ⟨field, hfield, -, -, ⟨co, coalias, on⟩, hjoin, h⟩ := h
      obtain ⟨rfl, hco⟩ := many2oneHopJoin_alias hjoin
      rw [hnamed k c.model hk hop field hfield] at h
      have hnext : (c.aliasName ++ "__" ++ hop) = spell c.aliasName [hop] := rfl
      obtain ⟨halias, -, hnodup', hmem⟩ := walkHops_aliases
        (c := c.subCompiler co (c.aliasName ++ "__" ++ hop)) hnamed hco (by
          split_ifs with hin
          · exact hnodup
          · rw [List.map_append, List.nodup_append]
            exact ⟨hnodup, by simp, by simpa using hin⟩) h
      refine ⟨halias, fun h => absurd h (List.cons_ne_nil _ _), hnodup', fun a => ?_⟩
      have hadded : a ∈ (if c.aliasName ++ "__" ++ hop ∈ joins.map (·.aliasName) then joins
            else joins ++ [{ table := co.table, aliasName := c.aliasName ++ "__" ++ hop, on }]).map
              (·.aliasName) ↔ a ∈ joins.map (·.aliasName) ∨ a = c.aliasName ++ "__" ++ hop := by
        split_ifs with hin
        · exact ⟨.inl, fun h => h.elim id fun h => h ▸ hin⟩
        · rw [List.map_append, List.mem_append, List.map_singleton, List.mem_singleton]
      rw [hmem a, hadded, exists_part_cons, or_assoc]
      rfl

/-- **What a spec names**: its field, its granularity, and the joins on the way. -/
structure SpecNamed (r : GroupRequest) (model : Model) (spec : String) (gb : GbSpec) : Prop where
  granularity : gb.granularity = (splitAtFirst ':' spec).2
  aliasName : gb.aliasName = spell model.table (specHops spec)
  field : specHops spec = [] → specField model spec = some gb.field
  root : gb.field.ttype = .Many2many → specHops spec = []

lemma groupedField_eq_ok {holder : Model} {fname : String} {field : Field}
    (h : r.groupedField holder fname = .ok field) :
    ((holder.fields.get? fname).bind fun field =>
      match field.groupByField with
      | none => some field
      | some standIn => holder.fields.get? standIn) = some field := by
  simp only [groupedField, bind_eq_ok, orRefuse_eq_ok] at h
  obtain ⟨own, hown, -, -, h⟩ := h
  rw [hown, Option.bind_some]
  cases hstandIn : own.groupByField with
  | none =>
      simp only [hstandIn] at h
      rw [Except.ok.inj h]
  | some standIn =>
      simp only [hstandIn, bind_eq_ok, orRefuse_eq_ok] at h
      obtain ⟨through, hthrough, -, -, h⟩ := h
      obtain rfl := Except.ok.inj h
      exact hthrough

section Named

variable (hmodel : ∃ k, r.ctx.registry.get k = .ok model) (hnamed : r.ctx.registry.FieldsNamed)

include hmodel hnamed

lemma gbSpec_named {spec : String} {joins joins' : List HopJoin} {gb : GbSpec}
    (hnodup : (joins.map (·.aliasName)).Nodup)
    (h : Yields (r.gbSpec calls model joins spec) (gb, joins')) :
    r.SpecNamed model spec gb ∧ JoinsSpelled model.table joins joins' (specHops spec) := by
  simp only [gbSpec, liftM_eq_ofResult, yields_bind, yields_ofResult] at h
  obtain ⟨⟨c, walked⟩, hwalk, field, hfield, h⟩ := h
  obtain ⟨halias, hroot, hspelled⟩ :=
    walkHops_aliases (c := r.compiler model) hnamed hmodel hnodup hwalk
  split_ifs at h with hpath
  · simp at h
  · obtain ⟨rfl, rfl⟩ := Prod.mk.inj (yields_pure.mp h)
    refine ⟨⟨rfl, halias, fun hhops => ?_, fun hmany => ?_⟩, hspelled⟩
    · rw [hroot hhops] at hfield
      exact groupedField_eq_ok hfield
    · by_contra hhops
      exact hpath ⟨by simpa [specHops] using hhops, hmany⟩

/-- **What the specs name, and the joins on the way.** -/
lemma gbSpecs_named : ∀ {specs : List String} {joins joins' : List HopJoin} {gbs : List GbSpec},
    (joins.map (·.aliasName)).Nodup → Yields (r.gbSpecs calls model joins specs) (gbs, joins') →
    List.Forall₂ (r.SpecNamed model) specs gbs ∧ (joins'.map (·.aliasName)).Nodup ∧
      ∀ a, a ∈ joins'.map (·.aliasName) ↔ a ∈ joins.map (·.aliasName) ∨
        ∃ path, HopPath specs path ∧ a = spell model.table path
  | [], joins, joins', gbs, hnodup, h => by
      simp only [gbSpecs, yields_pure, Prod.mk.injEq] at h
      obtain ⟨rfl, rfl⟩ := h
      refine ⟨.nil, hnodup, fun a => ⟨.inl, ?_⟩⟩
      rintro (ha | ⟨path, ⟨-, spec, hspec, -⟩, -⟩)
      · exact ha
      · exact absurd hspec List.not_mem_nil
  | spec :: specs, joins, joins', gbs, hnodup, h => by
      simp only [gbSpecs, yields_bind, yields_pure, Prod.mk.injEq] at h
      obtain ⟨⟨gb, first⟩, hspec, ⟨rest, last⟩, hspecs, rfl, rfl⟩ := h
      obtain ⟨hgb, hfirst⟩ := gbSpec_named hmodel hnamed hnodup hspec
      obtain ⟨hgbs, hlast, hmem⟩ := gbSpecs_named hfirst.nodup hspecs
      refine ⟨.cons hgb hgbs, hlast, fun a => ?_⟩
      rw [hmem a, hfirst.mem a, or_assoc]
      refine or_congr_right ⟨?_, ?_⟩
      · rintro (⟨path, rest, hpath, hne, rfl⟩ | ⟨path, ⟨hne, spec', hspec', hpath⟩, rfl⟩)
        · exact ⟨path, ⟨hne, spec, List.mem_cons_self, rest, hpath⟩, rfl⟩
        · exact ⟨path, ⟨hne, spec', List.mem_cons_of_mem _ hspec', hpath⟩, rfl⟩
      · rintro ⟨path, ⟨hne, spec', hspec', rest, hpath⟩, rfl⟩
        rcases List.mem_cons.mp hspec' with rfl | hspec'
        · exact .inl ⟨path, rest, hpath, hne, rfl⟩
        · exact .inr ⟨path, ⟨hne, spec', hspec', rest, hpath⟩, rfl⟩

end Named

/-! ## Relation tables -/

/-- The many2many field that a spec is grouped by, if it is one. -/
def manyField (model : Model) (spec : String) : Option String :=
  if specHops spec = [] then ((specField model spec).filter (·.ttype = .Many2many)).map (·.name)
  else none

lemma manyField_eq {spec : String} {gb : GbSpec} (h : r.SpecNamed model spec gb) :
    manyField model spec = if gb.field.ttype = .Many2many then some gb.field.name else none := by
  unfold manyField
  split_ifs with hroot hmany hmany
  · simp [h.field hroot, hmany]
  · simp [h.field hroot, hmany]
  · exact absurd (h.root hmany) hroot
  · rfl

lemma many2manyGroupJoin_alias {c : Compiler} {field : Field} {rel aliasName : String} {on : Condition}
    {again : Compiler → Node → Compile Condition}
    (h : Yields (c.many2manyGroupJoin again field) (rel, aliasName, on)) :
    aliasName = c.aliasName ++ "__" ++ field.name := by
  unfold Compiler.many2manyGroupJoin at h
  split_ifs at h
  · simp at h
  · simp only [liftM_eq_ofResult, yields_bind, yields_ofResult, yields_pure, Prod.mk.injEq] at h
    obtain ⟨-, -, -, -, -, -, own, -, active, -, rules, -, -, -, -, rfl, -⟩ := h
    rfl

/-- **The joins of relation tables**, one for each many2many that is grouped by. -/
lemma keyColumns_aliases {specs : List String} {gbs : List GbSpec}
    (hspecs : List.Forall₂ (r.SpecNamed model) specs gbs) : ∀ {keys : List GroupExpr}
    {joins : List HopJoin}, Yields (r.keyColumns calls model gbs) (keys, joins) →
    joins.map (·.aliasName) =
      (specs.filterMap (manyField model)).map fun f => spell model.table [f] := by
  induction hspecs with
  | nil =>
      intro keys joins h
      simp only [keyColumns, yields_pure, Prod.mk.injEq] at h
      obtain ⟨-, rfl⟩ := h
      rfl
  | @cons spec gb specs gbs hgb hgbs ih =>
      intro keys joins h
      simp only [keyColumns, liftM_eq_ofResult, yields_bind, yields_ofResult, yields_pure,
        Prod.mk.injEq] at h
      obtain ⟨⟨base, own⟩, hbase, key, -, ⟨rest, later⟩, hrest, -, rfl⟩ := h
      rw [List.map_append, ih hrest, List.filterMap_cons, manyField_eq hgb]
      unfold keyBase at hbase
      split_ifs at hbase ⊢ with hmany
      · simp at hbase
      · simp only [liftM_eq_ofResult, yields_bind, yields_ofResult, yields_pure,
          Prod.mk.injEq] at hbase
        obtain ⟨⟨rel, relAlias, on⟩, hjoin, ⟨-, -, column⟩, -, -, rfl⟩ := hbase
        obtain rfl := many2manyGroupJoin_alias hjoin
        rfl
      · simp only [yields_bind, yields_pure, Prod.mk.injEq] at hbase
        obtain ⟨e, -, -, rfl⟩ := hbase
        rfl

lemma keyColumns_length : ∀ {gbs : List GbSpec} {keys : List GroupExpr} {joins : List HopJoin},
    Yields (r.keyColumns calls model gbs) (keys, joins) → keys.length = gbs.length
  | [], keys, joins, h => by
      simp only [keyColumns, yields_pure, Prod.mk.injEq] at h
      rw [← h.1, List.length_nil, List.length_nil]
  | gb :: gbs, keys, joins, h => by
      simp only [keyColumns, liftM_eq_ofResult, yields_bind, yields_ofResult, yields_pure,
        Prod.mk.injEq] at h
      obtain ⟨-, -, key, -, ⟨rest, later⟩, hrest, rfl, -⟩ := h
      rw [List.length_cons, List.length_cons, keyColumns_length hrest]

/-! ## The order -/

/-- A many2one path that a term of the order of the groups walks: from a field that is grouped by and
whose comodel has an order of its own. -/
structure TermPath (r : GroupRequest) (model : Model) (specs : List String) (term : OrderTerm)
    (path : List String) : Prop where
  ne_nil : path ≠ []
  asked : r.order.isSome = true
  grouped : term.field ∈ specs
  root : specHops term.field = []
  plain : (splitAtFirst ':' term.field).2 = none
  walked : ∃ field, specField model term.field = some field ∧ r.comodelOrdered field = true ∧
    r.ctx.Walked model (ExprCtx.standInTerm term field.name) path

/-- The joins of an order that is accepted spell the paths that it walks. -/
lemma parseOrder_aliases {ctx : ExprCtx} {order : String} {items : List OrderItem}
    (h : Yields (ctx.parseOrder calls model model.table order) items) (a : String) :
    (∃ item ∈ items, ∃ join ∈ item.joins, a = join.aliasName) ↔
      ∃ path, path ≠ [] ∧ ctx.Walked model order path ∧ a = ctx.pathAlias model.table path := by
  constructor
  · rintro ⟨item, hitem, join, hjoin, rfl⟩
    obtain ⟨start, fname, before, hwalked, hchain⟩ := ExprCtx.exists_walked h hitem hjoin
    obtain ⟨_, last, -, -, hlast, halias, -⟩ := hchain.last
    obtain ⟨-, rfl⟩ := List.append_singleton_inj.mp hlast
    exact ⟨start ++ [fname], by simp, hwalked, halias⟩
  · rintro ⟨path, hne, hwalked, rfl⟩
    obtain ⟨start, fname, rfl⟩ := (path.eq_nil_or_concat').resolve_left hne
    obtain ⟨item, hitem, join, hjoin, halias, -⟩ := ExprCtx.exists_join h hwalked
    exact ⟨item, hitem, join, hjoin, halias.symm⟩

/-- The aliases of the joins of some terms. -/
def joinedAliases (items : List GroupItem) : List String :=
  items.flatMap fun item => item.joins.map (·.aliasName)

lemma specItems_aliases {specs : List String} {gb : GbSpec} {key : GroupExpr} {n next : ℕ}
    {term : OrderTerm} {out : List GroupItem × List GroupColumn} (hgrouped : term.field ∈ specs)
    (hgb : r.SpecNamed model term.field gb) (h : Yields (r.specItems calls model gb key n next term) out)
    (a : String) : a ∈ joinedAliases out.1 ↔
      ∃ path, r.TermPath model specs term path ∧ a = r.ctx.pathAlias model.table path := by
  unfold specItems at h
  split_ifs at h with hordered hpath
  · simp at h
  · simp only [yields_bind, yields_pure] at h
    obtain ⟨items, hitems, rfl⟩ := h
    obtain ⟨hasked, hplain, hcomodel⟩ := hordered
    have hroot : specHops term.field = [] := by
      by_contra hne
      exact hpath (hgb.aliasName ▸ spell_ne hne)
    have hmem : a ∈ joinedAliases (items.map anyItem) ↔
        ∃ item ∈ items, ∃ join ∈ item.joins, a = join.aliasName := by
      simp only [joinedAliases, List.flatMap_map, List.mem_flatMap, List.mem_map, anyItem, eq_comm]
    rw [hmem, parseOrder_aliases hitems]
    constructor
    · rintro ⟨path, hne, hwalked, rfl⟩
      exact ⟨path, ⟨hne, hasked, hgrouped, hroot, hgb.granularity ▸ hplain, gb.field, hgb.field hroot,
        hcomodel, hwalked⟩, rfl⟩
    · rintro ⟨path, hterm, rfl⟩
      obtain ⟨field, hfield, -, hwalked⟩ := hterm.walked
      rw [hgb.field hroot] at hfield
      obtain rfl := Option.some.inj hfield
      exact ⟨path, hterm.ne_nil, hwalked, rfl⟩
  all_goals
    have hnone : ¬ ∃ path, r.TermPath model specs term path ∧ a = r.ctx.pathAlias model.table path := by
      rintro ⟨path, hterm, -⟩
      obtain ⟨field, hfield, hcomodel, -⟩ := hterm.walked
      rw [hgb.field hterm.root] at hfield
      obtain rfl := Option.some.inj hfield
      exact hordered ⟨hterm.asked, hgb.granularity.trans hterm.plain, hcomodel⟩
    rw [iff_false_right hnone]
  · split at h
    · simp at h
    · obtain rfl := yields_pure.mp h
      exact List.not_mem_nil
  · obtain rfl := yields_pure.mp h
    exact List.not_mem_nil

lemma termItems_aliases {specs : List String} {gbs : List (GbSpec × GroupExpr)} {next : ℕ}
    {term : OrderTerm} {out : List GroupItem × List GroupColumn}
    (hgbs : List.Forall₂ (r.SpecNamed model) specs (gbs.map (·.1)))
    (h : Yields (r.termItems calls model specs gbs next term) out) (a : String) :
    a ∈ joinedAliases out.1 ↔
      ∃ path, r.TermPath model specs term path ∧ a = r.ctx.pathAlias model.table path := by
  unfold termItems at h
  split at h
  · next i hi =>
      obtain ⟨hlt, hfield, -⟩ := List.findIdx?_eq_some_iff_getElem.mp hi
      have heq : specs[i] = term.field := by simpa using hfield
      split at h
      · next gb key hgb =>
          obtain ⟨hlt', hget⟩ := List.getElem?_eq_some_iff.mp hgb
          have hone := hgbs.get hlt (by simpa using hlt')
          simp only [List.get_eq_getElem, List.getElem_map, hget, heq] at hone
          exact specItems_aliases (heq ▸ List.getElem_mem hlt) hone h a
      · simp at h
  · next hnone =>
      have hnot : term.field ∉ specs := fun hmem =>
        (by simpa using hnone : ∀ spec ∈ specs, ¬ spec = term.field) _ hmem rfl
      have hnopath : ¬ ∃ path, r.TermPath model specs term path ∧
          a = r.ctx.pathAlias model.table path := fun ⟨_, hterm, _⟩ => hnot hterm.grouped
      rw [iff_false_right hnopath]
      split_ifs at h
      · obtain rfl := yields_pure.mp h
        exact List.not_mem_nil
      · split at h
        · obtain rfl := yields_pure.mp h
          exact List.not_mem_nil
        · simp at h

/-- **The joins of the order** spell the paths that its terms walk. -/
lemma orderColumns_aliases {specs : List String} {gbs : List (GbSpec × GroupExpr)}
    (hgbs : List.Forall₂ (r.SpecNamed model) specs (gbs.map (·.1))) (a : String) :
    ∀ {terms : List OrderTerm} {next : ℕ} {out : List GroupItem × List GroupColumn},
    Yields (r.orderColumns calls model specs gbs next terms) out →
    (a ∈ joinedAliases out.1 ↔ ∃ term ∈ terms, ∃ path, r.TermPath model specs term path ∧
      a = r.ctx.pathAlias model.table path)
  | [], next, out, h => by
      simp only [orderColumns, yields_pure] at h
      subst h
      simp [joinedAliases]
  | term :: terms, next, out, h => by
      simp only [orderColumns, yields_bind, yields_pure] at h
      obtain ⟨⟨items, columns⟩, hterm, ⟨rest, more⟩, hterms, rfl⟩ := h
      rw [joinedAliases, List.flatMap_append, List.mem_append]
      simp only [List.mem_cons, exists_eq_or_imp]
      rw [← termItems_aliases hgbs hterm a, ← orderColumns_aliases hgbs a hterms]
      rfl

/-! ## All together -/

/-- **The names that a grouping spells are apart**: no many2many field is grouped by twice, none is
spelled as a path on the way to a field, and no path of the order is spelled as either or as the
table. -/
structure AliasesApart (r : GroupRequest) (model : Model) (specs : List String)
    (terms : List OrderTerm) : Prop where
  once : (specs.filterMap (manyField model)).Nodup
  relations : ∀ path, HopPath specs path → ∀ f ∈ specs.filterMap (manyField model),
    spell model.table path ≠ spell model.table [f]
  table : ∀ term ∈ terms, ∀ path, r.TermPath model specs term path →
    r.ctx.pathAlias model.table path ≠ model.table
  hops : ∀ term ∈ terms, ∀ path, r.TermPath model specs term path → ∀ way, HopPath specs way →
    r.ctx.pathAlias model.table path ≠ spell model.table way
  order : ∀ term ∈ terms, ∀ path, r.TermPath model specs term path →
    ∀ f ∈ specs.filterMap (manyField model),
      r.ctx.pathAlias model.table path ≠ spell model.table [f]

/-- Each alias of some joins is joined once. -/
lemma distinctJoins_aliases : ∀ (joins : List OrderJoin) (joined : List String),
    ((distinctJoins joined joins).map (·.aliasName)).Nodup ∧
      ∀ a, a ∈ (distinctJoins joined joins).map (·.aliasName) ↔
        a ∈ joins.map (·.aliasName) ∧ a ∉ joined
  | [], joined => ⟨List.nodup_nil, fun a => by simp [distinctJoins]⟩
  | join :: joins, joined => by
      unfold distinctJoins
      split_ifs with hin
      · obtain ⟨hnodup, hmem⟩ := distinctJoins_aliases joins joined
        refine ⟨hnodup, fun a => ?_⟩
        rw [hmem a, List.map_cons, List.mem_cons, or_and_right]
        refine (or_iff_right ?_).symm
        rintro ⟨rfl, hnot⟩
        exact hnot hin
      · obtain ⟨hnodup, hmem⟩ := distinctJoins_aliases joins (join.aliasName :: joined)
        rw [List.map_cons]
        refine ⟨List.nodup_cons.mpr ⟨fun h => ?_, hnodup⟩, fun a => ?_⟩
        · exact ((hmem _).mp h).2 List.mem_cons_self
        · rw [List.mem_cons, hmem a, List.map_cons, List.mem_cons, List.mem_cons, not_or]
          by_cases ha : a = join.aliasName
          · simp [ha, hin]
          · simp [ha]

lemma spell_one_inj {table f g : String} (h : spell table [f] = spell table [g]) : f = g :=
  (String.append_right_inj _).mp h

/-- **No alias is joined twice** exactly where the names that the grouping spells are apart. -/
theorem accepted_iff {k : String} {cond : Condition} {plan : Plan} {specs : List String}
    {terms : List OrderTerm} (hmodel : r.ctx.registry.get k = .ok model)
    (hnamed : r.ctx.registry.FieldsNamed) (hspecs : r.groupbyNames = .ok specs)
    (hterms : r.orderTerms specs = .ok terms) (hplan : Yields (r.plan calls model cond) plan) :
    plan.statement.Accepted ↔ r.AliasesApart model specs terms := by
  simp only [GroupRequest.plan, liftM_eq_ofResult, yields_bind, yields_ofResult, yields_pure] at hplan
  obtain ⟨specs', hspecs', ⟨gbs, hops⟩, hgbs, ⟨keys, relations⟩, hkeys, aggs, -, terms', hterms',
    ⟨items, hidden⟩, horder, rfl⟩ := hplan
  obtain rfl := Except.ok.inj (hspecs.symm.trans hspecs')
  obtain rfl := Except.ok.inj (hterms.symm.trans hterms')
  obtain ⟨hall, hnodup, hhops⟩ :=
    gbSpecs_named ⟨k, hmodel⟩ hnamed (List.map_nil (f := HopJoin.aliasName) ▸ List.nodup_nil) hgbs
  have hrelations := keyColumns_aliases hall hkeys
  have hzip : List.Forall₂ (r.SpecNamed model) specs ((gbs.zip keys).map (·.1)) := by
    rwa [List.map_fst_zip (keyColumns_length hkeys).ge]
  obtain ⟨hdistinct, hmem⟩ := distinctJoins_aliases (items.flatMap (·.joins)) []
  have hjoins : ∀ a, a ∈ (distinctJoins [] (items.flatMap (·.joins))).map (·.aliasName) ↔
      ∃ term ∈ terms, ∃ path, r.TermPath model specs term path ∧
        a = r.ctx.pathAlias model.table path := by
    intro a
    rw [hmem a, ← orderColumns_aliases hzip a horder, joinedAliases, List.map_flatMap]
    simp
  have hway : ∀ a, a ∈ hops.map (·.aliasName) ↔
      ∃ path, HopPath specs path ∧ a = spell model.table path := by
    intro a
    rw [hhops a]
    simp
  have hrelation : ∀ a, a ∈ relations.map (·.aliasName) ↔
      ∃ f ∈ specs.filterMap (manyField model), a = spell model.table [f] := by
    intro a
    rw [hrelations, List.mem_map]
    simp only [eq_comm]
  have honce : (relations.map (·.aliasName)).Nodup ↔ (specs.filterMap (manyField model)).Nodup := by
    rw [hrelations]
    exact List.nodup_map_iff fun _ _ => spell_one_inj
  simp only [GroupStatement.Accepted, GroupStatement.joins, List.map_append, List.cons_append,
    List.nodup_cons, List.nodup_append, List.mem_append, not_or, hnodup, hdistinct, honce, true_and]
  constructor
  · rintro ⟨⟨-, htable⟩, ⟨hrels, hapart⟩, horder⟩
    have hordered : ∀ term ∈ terms, ∀ path, r.TermPath model specs term path →
        r.ctx.pathAlias model.table path ∈ (distinctJoins [] (items.flatMap (·.joins))).map (·.aliasName) :=
      fun term hterm path hpath => (hjoins _).mpr ⟨term, hterm, path, hpath, rfl⟩
    exact
      { once := hrels
        relations := fun path hpath f hf =>
          hapart _ ((hway _).mpr ⟨path, hpath, rfl⟩) _ ((hrelation _).mpr ⟨f, hf, rfl⟩)
        table := fun term hterm path hpath heq => htable (heq ▸ hordered term hterm path hpath)
        hops := fun term hterm path hpath way hw heq =>
          horder _ (.inl ((hway _).mpr ⟨way, hw, rfl⟩)) _ (hordered term hterm path hpath) heq.symm
        order := fun term hterm path hpath f hf heq =>
          horder _ (.inr ((hrelation _).mpr ⟨f, hf, rfl⟩)) _ (hordered term hterm path hpath) heq.symm }
  · intro h
    refine ⟨⟨⟨fun htable => ?_, fun htable => ?_⟩, fun htable => ?_⟩, ⟨h.once, ?_⟩, ?_⟩
    · obtain ⟨path, hpath, heq⟩ := (hway _).mp htable
      exact spell_ne hpath.1 heq.symm
    · obtain ⟨f, -, heq⟩ := (hrelation _).mp htable
      exact spell_ne (List.cons_ne_nil f []) heq.symm
    · obtain ⟨term, hterm, path, hpath, heq⟩ := (hjoins _).mp htable
      exact h.table term hterm path hpath heq.symm
    · intro a ha b hb
      obtain ⟨path, hpath, rfl⟩ := (hway _).mp ha
      obtain ⟨f, hf, rfl⟩ := (hrelation _).mp hb
      exact h.relations path hpath f hf
    · intro a ha b hb
      obtain ⟨term, hterm, path, hpath, rfl⟩ := (hjoins _).mp hb
      rcases ha with ha | ha
      · obtain ⟨way, hw, rfl⟩ := (hway _).mp ha
        exact (h.hops term hterm path hpath way hw).symm
      · obtain ⟨f, hf, rfl⟩ := (hrelation _).mp ha
        exact (h.order term hterm path hpath f hf).symm

end GroupRequest

/-! ## A comodel that is joined twice -/

namespace Twice

def task : Model :=
  plainModel "task" "task" [("id", Field.column "id" .Integer "int4" none),
    ("owner_id", linkField "owner_id" "owner")]

/-- Owners are ordered by their names. -/
def owner : Model :=
  { plainModel "owner" "owner" [("id", Field.column "id" .Integer "int4" none),
      ("name", Field.column "name" .Char "varchar" (some (.string "")))] with order := "name" }

def registry : Registry := plainRegistry [("task", task), ("owner", owner)]

/-- A grouping by the names of the owners and by the owners, in the order of the owners. -/
def grouping : GroupRequest where
  ctx := ExprCtx.plain registry (Security.plain [] []) none
  model := "task"
  domain := .null
  rules := RuleSet.empty
  su := true
  trusted := false
  rootActiveTest := true
  groupby := .array [.string "owner_id.name", .string "owner_id"]
  aggregates := ["__count"]
  order := some "owner_id"
  offset := 0
  limit := none
  labels := false
  hiddenLabelsEmpty := false
  tz := none
  weekStart := none

def specs : List String := ["owner_id.name", "owner_id"]

def terms : List OrderTerm := [{ field := "owner_id", desc := false, nulls := none }]

def ownerJoin : HopJoin where
  table := "owner"
  aliasName := "task__owner_id"
  on := Condition.all.addPredicate (.compare .eq (.col "task" "owner_id") (.col "task__owner_id" "id"))

/-- The statement that is sent. -/
def statement : GroupStatement where
  table := "task"
  hops := [ownerJoin]
  condition := Condition.all
  columns := [.key (.nullIfEmpty (.col "task__owner_id" "name")), .key (.value (.col "task" "owner_id")),
    .aggregate .countAll]
  items := [{
    expr := .anyValue (.value (.col "task__owner_id" "name")), desc := false, nulls := none
    joins := [⟨"owner", "task__owner_id", .col "task" "owner_id"⟩] }]

def plan : GroupRequest.Plan where
  statement := statement
  specs := [⟨Field.column "name" .Char "varchar" (some (.string "")), none, owner, "task__owner_id"⟩,
    ⟨linkField "owner_id" "owner", none, task, "task"⟩]
  kinds := [.Count]

lemma planned : Yields (grouping.plan 10 task Condition.all) plan := ⟨_, rfl⟩

lemma not_accepted : ¬ statement.Accepted := by
  intro h
  have hnodup : ["task", "task__owner_id", "task__owner_id"].Nodup := h
  exact absurd hnodup (by decide)

/-- **A comodel that is joined twice**, on the way to a field and in the order. -/
theorem owner_joined_twice : Yields (grouping.plan 10 task Condition.all) plan ∧
    statement.hops.map (·.aliasName) = ["task__owner_id"] ∧
    statement.joins.map (·.aliasName) = ["task__owner_id"] ∧ ¬ statement.Accepted :=
  ⟨planned, rfl, rfl, not_accepted⟩

lemma fieldsNamed : registry.FieldsNamed := by
  intro k m hm f field hf
  have hmem := Dict.mem_of_get? (Twins.registry_get_eq_ok.mp hm)
  have hf' := Dict.mem_of_get? hf
  simp only [registry, plainRegistry, List.mem_cons, Prod.mk.injEq, List.not_mem_nil, or_false] at hmem
  rcases hmem with ⟨-, rfl⟩ | ⟨-, rfl⟩
  all_goals
    simp only [task, owner, plainModel, List.mem_cons, Prod.mk.injEq, List.not_mem_nil, or_false] at hf'
    rcases hf' with ⟨rfl, rfl⟩ | ⟨rfl, rfl⟩ <;> rfl

/-- The way to the names and the order are spelled alike. -/
theorem names_met : ¬ grouping.AliasesApart task specs terms := by
  intro hapart
  have hmodel : grouping.ctx.registry.get "task" = .ok task := rfl
  exact not_accepted ((GroupRequest.accepted_iff hmodel fieldsNamed rfl rfl planned).mpr hapart)

end Twice

end OdooKernel
