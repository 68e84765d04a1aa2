import OdooKernel.Search.Statement

/-!
# The opposite of an order

A many2one that is ordered downwards reverses the order of its comodel: every term is taken the other
way round, NULL at the other end, at each many2one on the way.  What is left out of an order, because
it is not readable or has been met before, is left out of its opposite.

**Not only the direction.**  A term on whether a value is there is negated instead
(`OrderItem.opposite`), so the opposite of a term is said by what it does to two rows
(`OrderItem.Opposes`), and the result is about rows: two rows stand in opposite ways, key by key, in
the two orders.

**Recursion.**  The terms of an order lead to other orders; the two compilations are followed
together, one lemma for each kind of term, by induction on the nested calls.

* `precedes_opposite` — a term the other way round.
* `orderTerms_opposite` — the opposite of an order has the opposite terms, and fails where the order
  does.
* **`orderTerms_reverses`** — the two orders put any two rows in opposite ways.
-/

namespace OdooKernel

/-! ## Terms -/

/-- A term the other way round: whether a value is there becomes whether it is not. -/
def OrderItem.opposite (item : OrderItem) : OrderItem :=
  match item.expr with
  | .isNull e => { item with expr := .isNotNull e }
  | .isNotNull e => { item with expr := .isNull e }
  | _ => { item with desc := !item.desc, nulls := item.nulls.map NullOrdering.flip }

@[simp] lemma NullOrdering.flip_flip (n : NullOrdering) : n.flip.flip = n := by
  cases n <;> rfl

lemma OrderItem.opposite_joins (item : OrderItem) : item.opposite.joins = item.joins := by
  unfold opposite
  split <;> rfl

/-- A value before another is after it the other way round. -/
lemma OrderItem.before_flip (server : Server) (item : OrderItem) (x y : Option Datum) :
    { item with desc := !item.desc, nulls := item.nulls.map NullOrdering.flip }.before server x y
      = item.before server y x := by
  have hnulls : { item with desc := !item.desc, nulls := item.nulls.map NullOrdering.flip }.nullsFirst
      = !item.nullsFirst := by
    rcases item with ⟨expr, desc, _ | _ | _, joins⟩ <;> rfl
  cases x <;> cases y <;> simp only [before, hnulls, Bool.not_not]
  cases item.desc <;> rfl

/-- Whether a value is there, the other way round. -/
lemma Datum.before_not (server : Server) (a b : Bool) :
    (Datum.bool !a).before server (.bool !b) = (Datum.bool b).before server (.bool a) := by
  cases a <;> cases b <;> rfl

/-- **A term the other way round** puts two rows the other way round. -/
lemma OrderItem.precedes_opposite {db : Database} {resolved : Json → Row → Option Datum}
    (item : OrderItem) (env env' : Env) :
    item.opposite.precedes db resolved env env' ↔ item.precedes db resolved env' env := by
  unfold opposite
  split
  · next e he =>
      simp only [precedes, OrderExpr.eval, he, before, ← Option.not_isSome, Datum.before_not]
  · next e he =>
      simp only [precedes, OrderExpr.eval, he, before, ← Option.not_isSome, Datum.before_not]
  · simp only [precedes]
    rw [before_flip]

/-- Two terms that put any two rows in opposite ways, through the same joins. -/
structure OrderItem.Opposes (item item' : OrderItem) : Prop where
  joins : item'.joins = item.joins
  precedes : ∀ db resolved env env',
    item'.precedes db resolved env env' ↔ item.precedes db resolved env' env

lemma OrderItem.opposes_opposite (item : OrderItem) : item.Opposes item.opposite :=
  ⟨item.opposite_joins, fun _ _ => item.precedes_opposite⟩

/-- **The keys of opposite terms** put any two rows in opposite ways. -/
lemma before_opposite {items items' : List OrderItem}
    (h : List.Forall₂ OrderItem.Opposes items items') (db : Database)
    (resolved : Json → Row → Option Datum) (env env' : Env) :
    Before (items'.map fun item => item.precedes db resolved) env env' ↔
      Before (items.map fun item => item.precedes db resolved) env' env := by
  induction h with
  | nil => exact Iff.rfl
  | cons hfirst hrest ih =>
      rw [List.map_cons, List.map_cons, Before, Before, ih, hfirst.precedes, hfirst.precedes]

namespace ExprCtx

variable (ctx : ExprCtx)

/-! ## Orders -/

/-- A part of an order, the other way round. -/
def OrderPlace.opposite (place : OrderPlace) : OrderPlace := { place with reverse := !place.reverse }

section Again

variable {again : OrderPlace → String → Compile (List OrderItem)}
  (hagain : ∀ place order, again place.opposite order
    = List.map OrderItem.opposite <$> again place order) (place : OrderPlace)

lemma fragmentItem_opposite (term : OrderTerm) (index : List Char) (desc : Bool)
    (nulls : Option NullOrdering) :
    ctx.fragmentItem place.opposite term index (!desc) (nulls.map NullOrdering.flip)
      = List.map OrderItem.opposite <$> ctx.fragmentItem place term index desc nulls := by
  unfold fragmentItem
  by_cases hroot : place.aliasName ≠ place.model.table ∨ (!place.joins.isEmpty) = true
  · rw [if_pos hroot]
    exact if_pos hroot
  · rw [if_neg hroot, map_bind]
    refine (if_neg hroot).trans ?_
    refine bind_congr fun fragment => ?_
    split
    · rw [map_bind]
      exact bind_congr fun _ => rfl
    · rfl

lemma relatedItem_opposite (calls : ℕ) (field : Field) (fname : String) (desc : Bool)
    (nulls : Option NullOrdering) :
    ctx.relatedItem place.opposite calls field fname (!desc) (nulls.map NullOrdering.flip)
      = List.map OrderItem.opposite <$> ctx.relatedItem place calls field fname desc nulls := by
  have hmodel : place.opposite.model = place.model := rfl
  have halias : place.opposite.aliasName = place.aliasName := rfl
  have hjoins : place.opposite.joins = place.joins := rfl
  simp only [relatedItem, hmodel, halias, hjoins]
  split_ifs
  · rfl
  · simp only [map_bind, map_pure]
    rfl

/-- The key of a record that may be unset, the other way round. -/
lemma unsetItem_opposite (fk : Expr) (nulls : Option NullOrdering) :
    unsetItem place.opposite fk (nulls.map NullOrdering.flip)
      = (unsetItem place fk nulls).map OrderItem.opposite := by
  rcases nulls with _ | _ | _ <;> rfl

include hagain

/-- **A many2one the other way round** takes the order of its comodel the other way round. -/
lemma many2oneItems_opposite (field : Field) (fname : String) (desc : Bool)
    (nulls : Option NullOrdering) :
    ctx.many2oneItems again place.opposite field fname (!desc) (nulls.map NullOrdering.flip)
      = List.map OrderItem.opposite <$> ctx.many2oneItems again place field fname desc nulls := by
  have hnext : ∀ co aliasName fk,
      OrderPlace.through place.opposite fname co aliasName fk (!desc)
        = (OrderPlace.through place fname co aliasName fk desc).opposite := fun _ _ _ => rfl
  have hmodel : place.opposite.model = place.model := rfl
  have halias : place.opposite.aliasName = place.aliasName := rfl
  have hseen : place.opposite.seen = place.seen := rfl
  simp only [many2oneItems, hmodel, halias, hseen, hnext, hagain, unsetItem_opposite]
  split_ifs
  · rfl
  · simp only [map_bind]
    refine bind_congr fun comodel => bind_congr fun co => bind_congr fun fk => ?_
    split_ifs
    · rfl
    · simp only [map_bind, map_pure, bind_map_left, List.map_append]

lemma fieldItems_opposite (calls : ℕ) (term : OrderTerm) (field : Field) (desc : Bool)
    (nulls : Option NullOrdering) :
    ctx.fieldItems again place.opposite calls term field (!desc) (nulls.map NullOrdering.flip)
      = List.map OrderItem.opposite <$> ctx.fieldItems again place calls term field desc nulls := by
  unfold fieldItems
  split
  · exact hagain place _
  · split_ifs
    · exact ctx.relatedItem_opposite place calls field term.field desc nulls
    · simp only [orderExpr, bind_assoc, pure_bind, map_bind, map_pure]
      refine bind_congr fun e => ?_
      split_ifs <;> rfl
    · exact ctx.many2oneItems_opposite hagain place field term.field desc nulls

/-- **A term the other way round.** -/
lemma termItems_opposite (calls : ℕ) (term : OrderTerm) :
    ctx.termItems again place.opposite calls term
      = List.map OrderItem.opposite <$> ctx.termItems again place calls term := by
  have hdesc : (term.desc ^^ place.opposite.reverse) = !(term.desc ^^ place.reverse) := by
    simp [OrderPlace.opposite]
  have hnulls : (if place.opposite.reverse then term.nulls.map NullOrdering.flip else term.nulls)
      = (if place.reverse then term.nulls.map NullOrdering.flip else term.nulls).map
          NullOrdering.flip := by
    cases hreverse : place.reverse <;> cases term.nulls <;> simp [OrderPlace.opposite, hreverse]
  simp only [termItems, hdesc, hnulls]
  split
  · exact ctx.fragmentItem_opposite place term _ _ _
  · rw [map_bind]
    refine bind_congr fun field => ?_
    rw [map_bind]
    refine bind_congr fun readable => ?_
    cases readable with
    | false => rfl
    | true => exact ctx.fieldItems_opposite hagain place calls term field _ _

lemma allItems_opposite (calls : ℕ) : ∀ parts : List String,
    ctx.allItems again place.opposite calls parts
      = List.map OrderItem.opposite <$> ctx.allItems again place calls parts
  | [] => rfl
  | part :: parts => by
      have hpart : ctx.partItems again place.opposite calls part
          = List.map OrderItem.opposite <$> ctx.partItems again place calls part := by
        unfold partItems
        rw [map_bind]
        refine bind_congr fun term => ?_
        cases term with
        | none => rfl
        | some term => exact ctx.termItems_opposite hagain place calls term
      simp only [allItems, hpart, allItems_opposite calls parts, map_bind, map_pure, bind_map_left,
        List.map_append]

end Again

/-- **The opposite of an order has the opposite terms**, and fails where the order does. -/
lemma orderTerms_opposite : ∀ (calls : ℕ) (place : OrderPlace) (order : String),
    ctx.orderTerms calls place.opposite order
      = List.map OrderItem.opposite <$> ctx.orderTerms calls place order
  | 0, _, _ => rfl
  | calls + 1, place, order => by
      have hmodel : place.opposite.model = place.model := rfl
      simp only [orderTerms, hmodel]
      split_ifs
      · rfl
      · exact ctx.allItems_opposite (orderTerms_opposite calls) place calls (orderParts order)

/-- Two orders that are accepted together, have the same joins, and put any two rows of any tables in
opposite ways, key by key. -/
structure Reverses (up down : Compile (List OrderItem)) : Prop where
  accepts : (∃ items, Yields down items) ↔ ∃ items, Yields up items
  terms : ∀ items items', Yields up items → Yields down items' →
    List.Forall₂ OrderItem.Opposes items items'
  joins : ∀ items items', Yields up items → Yields down items' → ∀ table condition db,
    (Statement.ofOrder table condition items').envs db = (Statement.ofOrder table condition items).envs db
  order : ∀ items items', Yields up items → Yields down items' → ∀ table condition db resolved env env',
    Before ((Statement.ofOrder table condition items').keys db resolved) env env' ↔
      Before ((Statement.ofOrder table condition items).keys db resolved) env' env

/-- **Descending reverses exactly.** -/
theorem orderTerms_reverses (calls : ℕ) (place : OrderPlace) (order : String) :
    Reverses (ctx.orderTerms calls { place with reverse := false } order)
      (ctx.orderTerms calls { place with reverse := true } order) := by
  have hdown := ctx.orderTerms_opposite calls { place with reverse := false } order
  have hyields : ∀ items', Yields (ctx.orderTerms calls { place with reverse := true } order) items' ↔
      ∃ items, Yields (ctx.orderTerms calls { place with reverse := false } order) items ∧
        items.map OrderItem.opposite = items' := by
    intro items'
    have hplace : { place with reverse := true } = { place with reverse := false }.opposite := rfl
    rw [hplace, hdown, map_eq_pure_bind, yields_bind]
    simp only [yields_pure]
  have hterms : ∀ items items',
      Yields (ctx.orderTerms calls { place with reverse := false } order) items →
      Yields (ctx.orderTerms calls { place with reverse := true } order) items' →
      List.Forall₂ OrderItem.Opposes items items' := by
    intro items items' hitems hitems'
    obtain ⟨items₀, hitems₀, rfl⟩ := (hyields items').mp hitems'
    rw [hitems.unique hitems₀]
    exact List.forall₂_map_right_iff.mpr (List.forall₂_same.mpr fun item _ => item.opposes_opposite)
  have hjoins : ∀ {items items'}, List.Forall₂ OrderItem.Opposes items items' →
      items'.flatMap (·.joins) = items.flatMap (·.joins) := by
    intro items items' h
    induction h with
    | nil => rfl
    | cons hfirst hrest ih => rw [List.flatMap_cons, List.flatMap_cons, ih, hfirst.joins]
  constructor
  · constructor
    · rintro ⟨items', h⟩
      obtain ⟨items, hitems, -⟩ := (hyields items').mp h
      exact ⟨items, hitems⟩
    · rintro ⟨items, hitems⟩
      exact ⟨_, (hyields _).mpr ⟨items, hitems, rfl⟩⟩
  · exact hterms
  · intro items items' hitems hitems' table condition db
    have henvs : (Statement.ofOrder table condition items').joins
        = (Statement.ofOrder table condition items).joins := by
      rw [Statement.ofOrder, Statement.ofOrder, hjoins (hterms items items' hitems hitems')]
    unfold Statement.envs
    rw [henvs]
    rfl
  · intro items items' hitems hitems' table condition db resolved env env'
    exact before_opposite (hterms items items' hitems hitems') db resolved env env'

end ExprCtx

end OdooKernel
