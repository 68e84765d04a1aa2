import OdooKernel.Search.Pages
import OdooKernel.Search.Partition

/-!
# The shape of a grouping

The statement of a grouping selects the keys of its specs, the aggregates, and the columns that its
order adds, in this order.  The columns that the order adds are functions of the keys or counts, so
that they neither split a group nor add one; a grouping by fields of which a record has one value has
a statement of this shape, and the results on its answers are said of the shape.

* `GbSpec.SingleValued` — a spec that each record has one value for.
* `HiddenColumn` — a column that the order adds.
* `orderColumns_shape` — what the terms of the order add, one after the other.
* `GroupRequest.PlanShape`, `plan_shape` — the shape of a statement.
-/

namespace OdooKernel

/-- A spec that each record has one value for, which is no JSON: a stored scalar, a date or a
many2one. -/
structure GbSpec.SingleValued (gb : GbSpec) : Prop where
  hasColumn : gb.field.hasColumn = true
  single : gb.field.ttype ≠ .Many2many
  scalar : gb.field.ttype ≠ .Json

/-- A column that the order adds: a count, or the place of a weekday that is grouped by. -/
inductive HiddenColumn (keys : List GroupExpr) : GroupColumn → Prop where
  | count : HiddenColumn keys (.aggregate .countAll)
  | weekday (start : ℤ) {key : GroupExpr} (hkey : key ∈ keys) : HiddenColumn keys (.key (.weekday start key))

namespace GroupRequest

variable {r : GroupRequest} {calls : ℕ} {model : Model}

/-! ## Specs -/

lemma walkHops_byId {spec : String} : ∀ {hops : List String} {c : Compiler} {joins : List HopJoin}
    {c' : Compiler} {joins' : List HopJoin},
    Yields (r.walkHops calls spec c joins hops) (c', joins') →
    (∀ join ∈ joins, join.ById c.ctx.registry) → ∀ join ∈ joins', join.ById c.ctx.registry
  | [], c, joins, c', joins', h, hjoins => by
      simp only [walkHops, yields_pure, Prod.mk.injEq] at h
      obtain ⟨-, rfl⟩ := h
      exact hjoins
  | hop :: hops, c, joins, c', joins', h, hjoins => by
      simp only [walkHops, liftM_eq_ofResult, yields_bind, yields_ofResult] at h
      obtain ⟨field, -, -, -, ⟨co, coalias, on⟩, hjoin, h⟩ := h
      have hnew : HopJoin.ById c.ctx.registry { table := co.table, aliasName := coalias, on } :=
        Compiler.many2oneHopJoin_byId hjoin
      refine walkHops_byId (c := c.subCompiler co coalias) h fun join hmem => ?_
      split at hmem
      · exact hjoins join hmem
      · rcases List.mem_append.mp hmem with hmem | hmem
        · exact hjoins join hmem
        · rw [List.mem_singleton.mp hmem]
          exact hnew

lemma gbSpecs_byId : ∀ {specs : List String} {joins : List HopJoin} {gbs : List GbSpec}
    {joins' : List HopJoin}, Yields (r.gbSpecs calls model joins specs) (gbs, joins') →
    (∀ join ∈ joins, join.ById r.ctx.registry) →
    gbs.length = specs.length ∧ ∀ join ∈ joins', join.ById r.ctx.registry
  | [], joins, gbs, joins', h, hjoins => by
      simp only [gbSpecs, yields_pure, Prod.mk.injEq] at h
      obtain ⟨rfl, rfl⟩ := h
      exact ⟨rfl, hjoins⟩
  | spec :: specs, joins, gbs, joins', h, hjoins => by
      simp only [gbSpecs, yields_bind, yields_pure, Prod.mk.injEq] at h
      obtain ⟨⟨gb, first⟩, hspec, ⟨rest, last⟩, hspecs, rfl, rfl⟩ := h
      simp only [gbSpec, liftM_eq_ofResult, yields_bind, yields_ofResult] at hspec
      obtain ⟨⟨c, walked⟩, hwalk, field, -, hspec⟩ := hspec
      have hwalked := walkHops_byId hwalk hjoins
      split at hspec
      · simp at hspec
      · obtain ⟨-, rfl⟩ := Prod.mk.inj (yields_pure.mp hspec)
        obtain ⟨hlength, hlast⟩ := gbSpecs_byId hspecs hwalked
        exact ⟨by rw [List.length_cons, List.length_cons, hlength], hlast⟩

/-- What a spec is grouped by. -/
def KeyFor (r : GroupRequest) (model : Model) (gb : GbSpec) (key : GroupExpr) : Prop :=
  ∃ base, r.keyExpr model gb base = .ok key

/-- Without a many2many no relation table is joined. -/
lemma keyColumns_single : ∀ {gbs : List GbSpec} {keys : List GroupExpr} {joins : List HopJoin},
    Yields (r.keyColumns calls model gbs) (keys, joins) → (∀ gb ∈ gbs, gb.SingleValued) →
    joins = [] ∧ List.Forall₂ (r.KeyFor model) gbs keys
  | [], keys, joins, h, _ => by
      simp only [keyColumns, yields_pure, Prod.mk.injEq] at h
      obtain ⟨rfl, rfl⟩ := h
      exact ⟨rfl, .nil⟩
  | gb :: gbs, keys, joins, h, hsingle => by
      obtain ⟨hgb, hgbs⟩ := List.forall_mem_cons.mp hsingle
      simp only [keyColumns, liftM_eq_ofResult, yields_bind, yields_ofResult, yields_pure,
        Prod.mk.injEq] at h
      obtain ⟨⟨base, own⟩, hbase, key, hkey, ⟨rest, more⟩, hrest, rfl, rfl⟩ := h
      obtain ⟨rfl, hkeys⟩ := keyColumns_single hrest hgbs
      rw [keyBase, if_neg hgb.single] at hbase
      simp only [yields_bind, yields_pure, Prod.mk.injEq] at hbase
      obtain ⟨e, -, rfl, rfl⟩ := hbase
      exact ⟨rfl, .cons ⟨e, hkey⟩ hkeys⟩

/-! ## The order -/

/-- Joins of an order and columns that it adds. -/
def OrderShape (r : GroupRequest) (keys : List GroupExpr) (out : List GroupItem × List GroupColumn) :
    Prop :=
  (∀ item ∈ out.1, r.ctx.JoinsKnown item.joins) ∧ ∀ column ∈ out.2, HiddenColumn keys column

lemma orderShape_ordinal {keys : List GroupExpr} {columns : List GroupColumn}
    (h : ∀ column ∈ columns, HiddenColumn keys column) (n : ℕ) (term : OrderTerm) :
    r.OrderShape keys ([ordinalItem n term], columns) := by
  refine ⟨fun item hitem => ?_, h⟩
  rw [List.mem_singleton.mp hitem]
  exact fun join hjoin => absurd hjoin List.not_mem_nil

lemma specItems_shape {keys : List GroupExpr} {gb : GbSpec} {key : GroupExpr} (hkey : key ∈ keys)
    {n next : ℕ} {term : OrderTerm} {out : List GroupItem × List GroupColumn}
    (h : Yields (r.specItems calls model gb key n next term) out) : r.OrderShape keys out := by
  unfold specItems at h
  split at h
  · split at h
    · simp at h
    · simp only [yields_bind, yields_pure] at h
      obtain ⟨items, hitems, rfl⟩ := h
      have hroot : r.ctx.PlaceKnown (ExprCtx.OrderPlace.root model model.table) :=
        fun _ h => absurd h List.not_mem_nil
      have hknown : r.ctx.ItemsKnown items := (ExprCtx.orderTerms_known hroot _).of_yields hitems
      refine ⟨fun item hitem => ?_, fun _ h => absurd h List.not_mem_nil⟩
      obtain ⟨ordered, hordered, rfl⟩ := List.mem_map.mp hitem
      exact hknown ordered hordered
  split at h
  · split at h
    · simp at h
    · obtain rfl := yields_pure.mp h
      refine orderShape_ordinal (fun column hcolumn => ?_) _ _
      rw [List.mem_singleton.mp hcolumn]
      exact .weekday _ hkey
  · obtain rfl := yields_pure.mp h
    exact orderShape_ordinal (fun _ h => absurd h List.not_mem_nil) _ _

lemma termItems_shape {groupby : List String} {gbs : List (GbSpec × GroupExpr)} {next : ℕ}
    {term : OrderTerm} {out : List GroupItem × List GroupColumn}
    (h : Yields (r.termItems calls model groupby gbs next term) out) :
    r.OrderShape (gbs.map (·.2)) out := by
  unfold termItems at h
  split at h
  · split at h
    · next gb key hgb =>
        exact specItems_shape (List.mem_map.mpr ⟨(gb, key), List.mem_of_getElem? hgb, rfl⟩) h
    · simp at h
  · split at h
    · obtain rfl := yields_pure.mp h
      refine orderShape_ordinal (fun column hcolumn => ?_) _ _
      rw [List.mem_singleton.mp hcolumn]
      exact .count
    · split at h
      · obtain rfl := yields_pure.mp h
        exact orderShape_ordinal (fun _ h => absurd h List.not_mem_nil) _ _
      · simp at h

/-- **What the order of the groups adds.** -/
lemma orderColumns_shape {groupby : List String} {gbs : List (GbSpec × GroupExpr)} :
    ∀ {terms : List OrderTerm} {next : ℕ} {out : List GroupItem × List GroupColumn},
    Yields (r.orderColumns calls model groupby gbs next terms) out →
    r.OrderShape (gbs.map (·.2)) out
  | [], next, out, h => by
      simp only [orderColumns, yields_pure] at h
      subst h
      exact ⟨fun _ h => absurd h List.not_mem_nil, fun _ h => absurd h List.not_mem_nil⟩
  | term :: terms, next, out, h => by
      simp only [orderColumns, yields_bind, yields_pure] at h
      obtain ⟨⟨items, columns⟩, hterm, ⟨rest, more⟩, hterms, rfl⟩ := h
      obtain ⟨hitems, hcolumns⟩ := termItems_shape hterm
      obtain ⟨hrest, hmore⟩ := orderColumns_shape hterms
      refine ⟨fun item hitem => ?_, fun column hcolumn => ?_⟩
      · exact (List.mem_append.mp hitem).elim (hitems item) (hrest item)
      · exact (List.mem_append.mp hcolumn).elim (hcolumns column) (hmore column)

/-! ## The statement -/

/-- **The shape of a grouping**: its keys, its aggregates, and the columns that its order adds. -/
structure PlanShape (r : GroupRequest) (calls : ℕ) (model : Model) (cond : Condition) (plan : Plan)
    (keys : List GroupExpr) (aggs : List (AggExpr × AggKind)) (hidden : List GroupColumn) : Prop where
  table : plan.statement.table = model.table
  condition : plan.statement.condition = cond
  columns : plan.statement.columns = keys.map .key ++ aggs.map (fun agg => .aggregate agg.1) ++ hidden
  kinds : plan.kinds = aggs.map (·.2)
  aggregates : Yields (r.aggregatesOf calls model r.aggregates) aggs
  specs : ∃ groupby, r.groupbyNames = .ok groupby ∧ plan.specs.length = groupby.length
  keyFor : List.Forall₂ (r.KeyFor model) plan.specs keys
  hidden : ∀ column ∈ hidden, HiddenColumn keys column
  hops : ∀ join ∈ plan.statement.hops, join.ById r.ctx.registry
  joins : ∀ join ∈ plan.statement.joins, join.Known r.ctx.registry

theorem plan_shape {cond : Condition} {plan : Plan} (h : Yields (r.plan calls model cond) plan)
    (hsingle : ∀ gb ∈ plan.specs, gb.SingleValued) :
    ∃ keys aggs hidden, r.PlanShape calls model cond plan keys aggs hidden := by
  simp only [GroupRequest.plan, liftM_eq_ofResult, yields_bind, yields_ofResult, yields_pure] at h
  obtain ⟨groupby, hgroupby, ⟨gbs, hops⟩, hspecs, ⟨keys, relations⟩, hkeys, aggs, haggs, terms, -,
    ⟨items, hidden⟩, horder, rfl⟩ := h
  obtain ⟨hlength, hhops⟩ := gbSpecs_byId hspecs fun _ h => absurd h List.not_mem_nil
  obtain ⟨rfl, hkeyFor⟩ := keyColumns_single hkeys hsingle
  have hzip : (gbs.zip keys).map (·.2) = keys := by
    rw [List.map_snd_zip hkeyFor.length_eq.ge]
  obtain ⟨hitems, hhidden⟩ := orderColumns_shape horder
  rw [hzip] at hhidden
  refine ⟨keys, aggs, hidden, ?_⟩
  exact
    { table := rfl
      condition := rfl
      columns := rfl
      kinds := rfl
      aggregates := haggs
      specs := ⟨groupby, hgroupby, hlength⟩
      keyFor := hkeyFor
      hidden := hhidden
      hops := by simpa using hhops
      joins := fun join hjoin => by
        obtain ⟨item, hitem, hjoin⟩ := List.mem_flatMap.mp (mem_of_mem_distinctJoins hjoin)
        exact hitems item hitem join hjoin }

end GroupRequest

end OdooKernel
