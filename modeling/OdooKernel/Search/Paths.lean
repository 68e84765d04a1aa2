import OdooKernel.Search.Statement

/-!
# The paths of an order

A term of an order stands at the end of a path of many2one fields, each of which is joined under an
alias that spells the path.  Field names may hold what stands between two names of a path, so that
two paths may be spelled alike; the statement then joins one of them only, and both terms order by
it.

**Terms and paths.**  `TermItems` says what a term does, one case for each kind, and `Walks` which
paths an order walks, without aliases.  An item of the statement stands at the end of such a path
(`walks_of_mem`), and each such path has an item at its end (`exists_item_of_walks`).  `Chain` are
the joins of a path, and the last of them tells the path (`Chain.last`).

**The condition** (`PathsApart`) is on the spelling of the paths alone, those of their parts
included, and of the table, which is the empty path.

* `Unconfused` — no join of an order stands for another one.
* **`unconfused_iff`** — exactly where no two paths are spelled alike.
* `separator_confuses` — two paths of one spelling.
-/

namespace OdooKernel

namespace ExprCtx

variable {ctx : ExprCtx}

/-! ## Terms -/

/-- A term of an order. -/
def TermOf (order : String) (term : OrderTerm) : Prop :=
  ∃ part ∈ orderParts order, parseOrderTerm part = .ok (some term)

/-- The field that a term names, where the principal may read it. -/
structure Named (ctx : ExprCtx) (model : Model) (term : OrderTerm) (field : Field) : Prop where
  plain : term.field.toList.head? ≠ some '$'
  found : model.fields.get? term.field = some field
  readable : ctx.mayOrderBy field = .ok true

/-- The comodel of a stored many2one that has not been met on the way. -/
structure Through (ctx : ExprCtx) (model : Model) (seen : List (String × String)) (term : OrderTerm)
    (field : Field) (co : Model) : Prop where
  own : field.orderByField = none
  stored : field.hasColumn = true
  many2one : field.ttype = .Many2one
  unseen : (model.name, term.field) ∉ seen
  comodel : ∃ c, field.comodel = .ok c ∧ ctx.registry.get c = .ok co

/-- Whether a comodel is ordered by its ids alone. -/
def OrderedById (co : Model) : Prop := trimmed co.order.toList = "id".toList

/-- **What a term on a readable field does**, where what it leads to is ordered again. -/
inductive FieldItems (ctx : ExprCtx) (again : OrderPlace → String → Compile (List OrderItem))
    (place : OrderPlace) (term : OrderTerm) (field : Field) : List OrderItem → Prop where
  | standIn {standIn : String} {items : List OrderItem} (hstandIn : field.orderByField = some standIn)
      (hitems : Yields (again place (standInTerm term standIn)) items) :
      FieldItems ctx again place term field items
  | column {item : OrderItem} (hown : field.orderByField = none)
      (hcolumn : field.hasColumn = false ∨ field.ttype ≠ .Many2one) (hitem : item.joins = place.joins) :
      FieldItems ctx again place term field [item]
  | met (hown : field.orderByField = none) (hstored : field.hasColumn = true)
      (hmany2one : field.ttype = .Many2one) (hseen : (place.model.name, term.field) ∈ place.seen) :
      FieldItems ctx again place term field []
  | record {co : Model} {item : OrderItem}
      (hthrough : ctx.Through place.model place.seen term field co) (hid : OrderedById co)
      (hitem : item.joins = place.joins) : FieldItems ctx again place term field [item]
  | step {co : Model} {fk : Expr} {desc : Bool} {unset items : List OrderItem}
      (hthrough : ctx.Through place.model place.seen term field co) (hid : ¬ OrderedById co)
      (hfk : Yields (ctx.fieldExpr place.model field place.aliasName) fk)
      (hitems : Yields (again (place.through term.field co
        (ctx.orderAlias place.aliasName term.field) fk desc) co.order) items)
      (hunset : ∀ item ∈ unset, item.joins = place.joins)
      (hnulls : unset ≠ [] ↔ term.nulls.isSome) : FieldItems ctx again place term field (unset ++ items)

/-- **What a term does.** -/
inductive TermItems (ctx : ExprCtx) (again : OrderPlace → String → Compile (List OrderItem))
    (place : OrderPlace) (term : OrderTerm) : List OrderItem → Prop where
  | fragment {item : OrderItem} (h : term.field.toList.head? = some '$') (hroot : place.joins = [])
      (hitem : item.joins = []) : TermItems ctx again place term [item]
  | unreadable {field : Field} (hplain : term.field.toList.head? ≠ some '$')
      (hfield : place.model.fields.get? term.field = some field)
      (hdenied : ctx.mayOrderBy field = .ok false) : TermItems ctx again place term []
  | named {field : Field} {items : List OrderItem} (hnamed : ctx.Named place.model term field)
      (hitems : FieldItems ctx again place term field items) : TermItems ctx again place term items

section Again

variable {again : OrderPlace → String → Compile (List OrderItem)} {place : OrderPlace} {calls : ℕ}

lemma termItems_fragment {term : OrderTerm} (hhead : term.field.toList.head? = some '$')
    {index : List Char} {desc : Bool} {nulls : Option NullOrdering} {items : List OrderItem}
    (h : Yields (ctx.fragmentItem place term index desc nulls) items) :
    ctx.TermItems again place term items := by
  unfold fragmentItem at h
  split_ifs at h with hroot
  · simp at h
  · simp only [liftM_eq_ofResult, yields_bind, yields_ofResult] at h
    obtain ⟨fragment, -, h⟩ := h
    split at h
    · simp only [yields_bind, yields_ofResult, yields_pure] at h
      obtain ⟨-, -, rfl⟩ := h
      simp only [not_or, Bool.not_eq_true', Bool.not_eq_false, List.isEmpty_iff] at hroot
      exact .fragment hhead hroot.2 rfl
    · simp at h

lemma fieldItems_many2one {term : OrderTerm} {field : Field} (hown : field.orderByField = none)
    (hstored : field.hasColumn = true) (hmany2one : field.ttype = .Many2one) {desc : Bool}
    {nulls : Option NullOrdering} (hnulls : nulls.isSome = term.nulls.isSome) {items : List OrderItem}
    (h : Yields (ctx.many2oneItems again place field term.field desc nulls) items) :
    ctx.FieldItems again place term field items := by
  unfold many2oneItems at h
  split_ifs at h with hseen
  · obtain rfl := yields_pure.mp h
    exact .met hown hstored hmany2one hseen
  · simp only [liftM_eq_ofResult, yields_bind, yields_ofResult] at h
    obtain ⟨c, hc, co, hco, fk, hfk, h⟩ := h
    have hthrough : ctx.Through place.model place.seen term field co :=
      ⟨hown, hstored, hmany2one, hseen, c, hc, hco⟩
    split_ifs at h with hid
    · obtain rfl := yields_pure.mp h
      exact .record hthrough hid rfl
    · simp only [yields_bind, yields_pure] at h
      obtain ⟨items, hitems, rfl⟩ := h
      refine .step hthrough hid hfk hitems ?_ ?_
      · intro item hitem
        cases nulls with
        | none => exact absurd hitem List.not_mem_nil
        | some n => rw [List.mem_singleton.mp hitem]
      · rw [← hnulls]
        cases nulls <;> simp [unsetItem]

lemma fieldItems_of_yields {term : OrderTerm} {field : Field} {desc : Bool}
    {nulls : Option NullOrdering} (hnulls : nulls.isSome = term.nulls.isSome) {items : List OrderItem}
    (h : Yields (ctx.fieldItems again place calls term field desc nulls) items) :
    ctx.FieldItems again place term field items := by
  unfold fieldItems at h
  split at h
  · next standIn hstandIn => exact .standIn hstandIn h
  · next hown =>
      split_ifs at h with hcolumn hmany2one
      · have hnone : field.hasColumn = false := by simpa using hcolumn
        unfold relatedItem at h
        split_ifs at h
        · simp at h
        · simp only [liftM_eq_ofResult, yields_bind, yields_ofResult, yields_pure] at h
          obtain ⟨-, -, path, -, e, -, rfl⟩ := h
          exact .column hown (.inl hnone) rfl
      · simp only [yields_bind, yields_pure] at h
        obtain ⟨e, -, rfl⟩ := h
        exact .column hown (.inr hmany2one) rfl
      · have hstored : field.hasColumn = true := by simpa using hcolumn
        exact fieldItems_many2one hown hstored (not_not.mp hmany2one) hnulls h

/-- **What a term does**: one case for each kind of term. -/
lemma termItems_of_yields {term : OrderTerm} {items : List OrderItem}
    (h : Yields (ctx.termItems again place calls term) items) : ctx.TermItems again place term items := by
  have hnulls : (if place.reverse then term.nulls.map NullOrdering.flip else term.nulls).isSome
      = term.nulls.isSome := by
    split_ifs <;> simp
  unfold termItems at h
  simp only at h
  split at h
  · next index hindex => exact termItems_fragment (by rw [hindex]; rfl) h
  · next hplain =>
      have hhead : term.field.toList.head? ≠ some '$' := by
        intro hhead
        obtain ⟨rest, hrest⟩ := List.head?_eq_some_iff.mp hhead
        exact hplain rest hrest
      simp only [liftM_eq_ofResult, yields_bind, yields_ofResult, orRefuse_eq_ok] at h
      obtain ⟨field, hfield, readable, hreadable, h⟩ := h
      cases readable with
      | false =>
          obtain rfl := yields_pure.mp h
          exact .unreadable hhead hfield hreadable
      | true => exact .named ⟨hhead, hfield, hreadable⟩ (fieldItems_of_yields hnulls h)

/-- **What an order does**: what each of its terms does, one after the other. -/
lemma allItems_terms : ∀ {parts : List String} {items : List OrderItem},
    Yields (ctx.allItems again place calls parts) items →
    (∀ part ∈ parts, ∀ term, parseOrderTerm part = .ok (some term) →
      ∃ its, ctx.TermItems again place term its ∧ its ⊆ items) ∧
    ∀ item ∈ items, ∃ part ∈ parts, ∃ term, parseOrderTerm part = .ok (some term) ∧
      ∃ its, ctx.TermItems again place term its ∧ item ∈ its
  | [], items, h => by
      obtain rfl := yields_pure.mp h
      exact ⟨fun _ h => absurd h List.not_mem_nil, fun _ h => absurd h List.not_mem_nil⟩
  | part :: parts, items, h => by
      simp only [allItems, partItems, liftM_eq_ofResult, yields_bind, yields_ofResult, yields_pure] at h
      obtain ⟨first, ⟨term?, hterm, hfirst⟩, rest, hrest, rfl⟩ := h
      obtain ⟨hall, hfrom⟩ := allItems_terms hrest
      have hlater : ∀ item ∈ rest, ∃ part' ∈ part :: parts, ∃ term,
          parseOrderTerm part' = .ok (some term) ∧
            ∃ its, ctx.TermItems again place term its ∧ item ∈ its := by
        intro item hitem
        obtain ⟨part', hpart', h⟩ := hfrom item hitem
        exact ⟨part', List.mem_cons_of_mem _ hpart', h⟩
      cases term? with
      | none =>
          obtain rfl := yields_pure.mp hfirst
          refine ⟨fun part' hpart' term hterm' => ?_, hlater⟩
          rcases List.mem_cons.mp hpart' with rfl | hpart'
          · rw [hterm] at hterm'
            simp at hterm'
          · exact hall part' hpart' term hterm'
      | some term =>
          have hits := termItems_of_yields hfirst
          refine ⟨fun part' hpart' term' hterm' => ?_, fun item hitem => ?_⟩
          · rcases List.mem_cons.mp hpart' with rfl | hpart'
            · rw [hterm] at hterm'
              obtain rfl := Option.some.inj (Except.ok.inj hterm')
              exact ⟨first, hits, List.subset_append_left first rest⟩
            · obtain ⟨its, hits', hsub⟩ := hall part' hpart' term' hterm'
              exact ⟨its, hits', List.subset_append_of_subset_right first hsub⟩
          · rcases List.mem_append.mp hitem with hitem | hitem
            · exact ⟨part, List.mem_cons_self, term, hterm, first, hits, hitem⟩
            · exact hlater item hitem

/-- A term on a readable field does what one on this field does. -/
lemma TermItems.field {term : OrderTerm} {items : List OrderItem}
    (h : ctx.TermItems again place term items) {field : Field}
    (hnamed : ctx.Named place.model term field) : ctx.FieldItems again place term field items := by
  cases h with
  | fragment hhead => exact absurd hhead hnamed.plain
  | unreadable _ hfield hdenied =>
      obtain rfl := Option.some.inj (hnamed.found.symm.trans hfield)
      have hreadable := hnamed.readable
      rw [hdenied] at hreadable
      simp at hreadable
  | named hnamed' hitems =>
      obtain rfl := Option.some.inj (hnamed.found.symm.trans hnamed'.found)
      exact hitems

end Again

/-! ## Paths -/

/-- **The paths that an order walks**: each of its terms stands at the end of one. -/
inductive Walks (ctx : ExprCtx) : Model → List (String × String) → String → List String → Prop where
  | fragment {model : Model} {seen : List (String × String)} {order : String} {term : OrderTerm}
      (hterm : TermOf order term) (h : term.field.toList.head? = some '$') : Walks ctx model seen order []
  | standIn {model : Model} {seen : List (String × String)} {order : String} {term : OrderTerm}
      {field : Field} {standIn : String} {path : List String} (hterm : TermOf order term)
      (hnamed : ctx.Named model term field) (hstandIn : field.orderByField = some standIn)
      (hrest : Walks ctx model seen (standInTerm term standIn) path) : Walks ctx model seen order path
  | column {model : Model} {seen : List (String × String)} {order : String} {term : OrderTerm}
      {field : Field} (hterm : TermOf order term) (hnamed : ctx.Named model term field)
      (hown : field.orderByField = none) (hcolumn : field.hasColumn = false ∨ field.ttype ≠ .Many2one) :
      Walks ctx model seen order []
  | record {model : Model} {seen : List (String × String)} {order : String} {term : OrderTerm}
      {field : Field} {co : Model} (hterm : TermOf order term) (hnamed : ctx.Named model term field)
      (hthrough : ctx.Through model seen term field co) (hend : OrderedById co ∨ term.nulls.isSome) :
      Walks ctx model seen order []
  | step {model : Model} {seen : List (String × String)} {order : String} {term : OrderTerm}
      {field : Field} {co : Model} {path : List String} (hterm : TermOf order term)
      (hnamed : ctx.Named model term field) (hthrough : ctx.Through model seen term field co)
      (hid : ¬ OrderedById co)
      (hrest : Walks ctx co (seen ++ [(model.name, term.field)]) co.order path) :
      Walks ctx model seen order (term.field :: path)

/-- How a path is spelled, from where it starts. -/
def pathAlias (ctx : ExprCtx) (start : String) (path : List String) : String :=
  path.foldl ctx.orderAlias start

/-- **The joins of a path**, one for each of its fields. -/
inductive Chain (ctx : ExprCtx) : String → Model → List String → List OrderJoin → Prop where
  | nil {aliasName : String} {model : Model} : Chain ctx aliasName model [] []
  | cons {aliasName fname c : String} {model co : Model} {field : Field} {fk : Expr}
      {path : List String} {joins : List OrderJoin} (hfield : model.fields.get? fname = some field)
      (hc : field.comodel = .ok c) (hco : ctx.registry.get c = .ok co)
      (hfk : Yields (ctx.fieldExpr model field aliasName) fk)
      (hrest : Chain ctx (ctx.orderAlias aliasName fname) co path joins) :
      Chain ctx aliasName model (fname :: path)
        ({ table := co.table, aliasName := ctx.orderAlias aliasName fname, source := fk } :: joins)

/-- A path has one list of joins. -/
lemma Chain.unique {aliasName : String} {model : Model} {path : List String}
    {joins joins' : List OrderJoin} (h : ctx.Chain aliasName model path joins)
    (h' : ctx.Chain aliasName model path joins') : joins = joins' := by
  induction h generalizing joins' with
  | nil =>
      cases h'
      rfl
  | cons hfield hc hco hfk hrest ih =>
      cases h' with
      | cons hfield' hc' hco' hfk' hrest' =>
          obtain rfl := Option.some.inj (hfield.symm.trans hfield')
          obtain rfl := Except.ok.inj (hc.symm.trans hc')
          obtain rfl := Except.ok.inj (hco.symm.trans hco')
          rw [hfk.unique hfk', ih hrest']

/-- Each join of a path ends the joins of a part of it. -/
lemma Chain.part {aliasName : String} {model : Model} {path : List String} {joins : List OrderJoin}
    (h : ctx.Chain aliasName model path joins) {join : OrderJoin} (hjoin : join ∈ joins) :
    ∃ start rest before, path = start ++ rest ∧ start ≠ [] ∧
      ctx.Chain aliasName model start (before ++ [join]) := by
  induction h with
  | nil => exact absurd hjoin List.not_mem_nil
  | @cons _ fname _ _ _ _ _ _ _ hfield hc hco hfk hrest ih =>
      rcases List.mem_cons.mp hjoin with rfl | hjoin
      · exact ⟨[fname], _, [], rfl, List.cons_ne_nil _ _, .cons hfield hc hco hfk .nil⟩
      · obtain ⟨start, rest, before, rfl, -, hstart⟩ := ih hjoin
        exact ⟨fname :: start, rest, _ :: before, rfl, List.cons_ne_nil _ _,
          .cons hfield hc hco hfk hstart⟩

/-- The joins of a part of a path. -/
lemma Chain.left {aliasName : String} {model : Model} : ∀ {start rest : List String}
    {joins : List OrderJoin}, ctx.Chain aliasName model (start ++ rest) joins →
    ∃ before after, joins = before ++ after ∧ ctx.Chain aliasName model start before
  | [], rest, joins, h => ⟨[], joins, rfl, .nil⟩
  | fname :: start, rest, joins, h => by
      cases h with
      | cons hfield hc hco hfk hrest =>
          obtain ⟨before, after, rfl, hbefore⟩ := hrest.left
          exact ⟨_ :: before, after, rfl, .cons hfield hc hco hfk hbefore⟩

/-- **The last join of a path**: its alias spells the path, and it is found by the last field, read
where the path before it leads. -/
lemma Chain.last {aliasName fname : String} : ∀ {model : Model} {start : List String}
    {joins : List OrderJoin}, ctx.Chain aliasName model (start ++ [fname]) joins →
    ∃ before join holder field, joins = before ++ [join] ∧
      join.aliasName = ctx.pathAlias aliasName (start ++ [fname]) ∧
      (holder = model ∨ ∃ k, ctx.registry.get k = .ok holder) ∧
      holder.fields.get? fname = some field ∧
      Yields (ctx.fieldExpr holder field (ctx.pathAlias aliasName start)) join.source
  | model, [], joins, h => by
      cases h with
      | cons hfield hc hco hfk hrest =>
          cases hrest
          exact ⟨[], _, model, _, rfl, rfl, .inl rfl, hfield, hfk⟩
  | model, step :: start, joins, h => by
      cases h with
      | @cons _ _ c _ co _ _ _ _ hfield hc hco hfk hrest =>
          obtain ⟨before, join, holder, field, rfl, halias, hholder, hfound, hsource⟩ := hrest.last
          refine ⟨_ :: before, join, holder, field, rfl, halias, .inr ?_, hfound, hsource⟩
          rcases hholder with rfl | hholder
          · exact ⟨c, hco⟩
          · exact hholder

/-! ## The joins of an order -/

/-- An order that is accepted does what its terms do. -/
lemma orderTerms_terms {calls : ℕ} {place : OrderPlace} {order : String} {items : List OrderItem}
    (h : Yields (ctx.orderTerms (calls + 1) place order) items) :
    (∀ term, TermOf order term → ∃ its, ctx.TermItems (ctx.orderTerms calls) place term its ∧
      its ⊆ items) ∧
    ∀ item ∈ items, ∃ term, TermOf order term ∧
      ∃ its, ctx.TermItems (ctx.orderTerms calls) place term its ∧ item ∈ its := by
  unfold orderTerms at h
  split_ifs at h
  · simp at h
  · obtain ⟨hall, hfrom⟩ := allItems_terms h
    refine ⟨fun term ⟨part, hpart, hterm⟩ => hall part hpart term hterm, fun item hitem => ?_⟩
    obtain ⟨part, hpart, term, hterm, hits⟩ := hfrom item hitem
    exact ⟨term, ⟨part, hpart, hterm⟩, hits⟩

/-- **Each item stands at the end of a path that the order walks.** -/
lemma walks_of_mem : ∀ {calls : ℕ} {place : OrderPlace} {order : String} {items : List OrderItem},
    Yields (ctx.orderTerms calls place order) items → ∀ item ∈ items,
      ∃ path joins, ctx.Walks place.model place.seen order path ∧
        ctx.Chain place.aliasName place.model path joins ∧ item.joins = place.joins ++ joins
  | 0, _, _, _, h => by simp [orderTerms, outOfCalls] at h
  | calls + 1, place, order, items, h => by
      intro item hitem
      obtain ⟨term, hterm, its, hits, hitem⟩ := (orderTerms_terms h).2 item hitem
      cases hits with
      | fragment hhead hroot hjoins =>
          obtain rfl := List.mem_singleton.mp hitem
          exact ⟨[], [], .fragment hterm hhead, .nil, by rw [hjoins, hroot, List.append_nil]⟩
      | unreadable => exact absurd hitem List.not_mem_nil
      | named hnamed hits =>
          cases hits with
          | standIn hstandIn hitems =>
              obtain ⟨path, joins, hwalks, hchain, hjoins⟩ := walks_of_mem hitems item hitem
              exact ⟨path, joins, .standIn hterm hnamed hstandIn hwalks, hchain, hjoins⟩
          | column hown hcolumn hjoins =>
              obtain rfl := List.mem_singleton.mp hitem
              exact ⟨[], [], .column hterm hnamed hown hcolumn, .nil, by rw [hjoins, List.append_nil]⟩
          | met => exact absurd hitem List.not_mem_nil
          | record hthrough hid hjoins =>
              obtain rfl := List.mem_singleton.mp hitem
              exact ⟨[], [], .record hterm hnamed hthrough (.inl hid), .nil,
                by rw [hjoins, List.append_nil]⟩
          | step hthrough hid hfk hitems hunset hnulls =>
              rcases List.mem_append.mp hitem with hitem | hitem
              · have hnulls := hnulls.mp (List.ne_nil_of_mem hitem)
                exact ⟨[], [], .record hterm hnamed hthrough (.inr hnulls), .nil,
                  by rw [hunset item hitem, List.append_nil]⟩
              · obtain ⟨path, joins, hwalks, hchain, hjoins⟩ := walks_of_mem hitems item hitem
                obtain ⟨c, hc, hco⟩ := hthrough.comodel
                refine ⟨term.field :: path, _, .step hterm hnamed hthrough hid hwalks,
                  .cons hnamed.found hc hco hfk hchain, ?_⟩
                rw [hjoins, OrderPlace.through, List.append_assoc]
                rfl

/-- A many2one has one comodel. -/
lemma Through.unique {model : Model} {seen : List (String × String)} {term : OrderTerm}
    {field : Field} {co co' : Model} (h : ctx.Through model seen term field co)
    (h' : ctx.Through model seen term field co') : co = co' := by
  obtain ⟨c, hc, hco⟩ := h.comodel
  obtain ⟨c', hc', hco'⟩ := h'.comodel
  obtain rfl := Except.ok.inj (hc.symm.trans hc')
  exact Except.ok.inj (hco.symm.trans hco')

/-- An item that is joined as its place is. -/
lemma exists_item {place : OrderPlace} {its items : List OrderItem} (hsub : its ⊆ items)
    {item : OrderItem} (hitem : item ∈ its) (hjoins : item.joins = place.joins) :
    ∃ item ∈ items, ∃ joins, ctx.Chain place.aliasName place.model [] joins ∧
      item.joins = place.joins ++ joins :=
  ⟨item, hsub hitem, [], .nil, by rw [hjoins, List.append_nil]⟩

/-- **Each path that the order walks has an item at its end.** -/
lemma exists_item_of_walks {model : Model} {seen : List (String × String)} {order : String}
    {path : List String} (h : ctx.Walks model seen order path) :
    ∀ {calls : ℕ} {place : OrderPlace} {items : List OrderItem}, place.model = model →
      place.seen = seen → Yields (ctx.orderTerms calls place order) items →
      ∃ item ∈ items, ∃ joins, ctx.Chain place.aliasName place.model path joins ∧
        item.joins = place.joins ++ joins := by
  have hnone : ∀ {place : OrderPlace} {order : String} {items : List OrderItem},
      ¬ Yields (ctx.orderTerms 0 place order) items := fun h => by simp [orderTerms, outOfCalls] at h
  induction h with
  | fragment hterm hhead =>
      rintro (_ | calls) place items rfl rfl hitems
      · exact absurd hitems hnone
      obtain ⟨its, hits, hsub⟩ := (orderTerms_terms hitems).1 _ hterm
      cases hits with
      | fragment _ hroot hjoins =>
          exact exists_item hsub (List.mem_singleton_self _) (hjoins.trans hroot.symm)
      | unreadable hplain => exact absurd hhead hplain
      | named hnamed => exact absurd hhead hnamed.plain
  | standIn hterm hnamed hstandIn hrest ih =>
      rintro (_ | calls) place items rfl rfl hitems
      · exact absurd hitems hnone
      obtain ⟨its, hits, hsub⟩ := (orderTerms_terms hitems).1 _ hterm
      cases hits.field hnamed with
      | standIn hstandIn' hitems =>
          obtain rfl := Option.some.inj (hstandIn.symm.trans hstandIn')
          obtain ⟨item, hitem, hjoins⟩ := ih rfl rfl hitems
          exact ⟨item, hsub hitem, hjoins⟩
      | column hown | met hown => simp [hown] at hstandIn
      | record hthrough | step hthrough => simp [hthrough.own] at hstandIn
  | column hterm hnamed hown hcolumn =>
      rintro (_ | calls) place items rfl rfl hitems
      · exact absurd hitems hnone
      obtain ⟨its, hits, hsub⟩ := (orderTerms_terms hitems).1 _ hterm
      cases hits.field hnamed with
      | standIn hstandIn => simp [hown] at hstandIn
      | column _ _ hjoins => exact exists_item hsub (List.mem_singleton_self _) hjoins
      | met _ hstored hmany2one => simp [hstored, hmany2one] at hcolumn
      | record hthrough | step hthrough => simp [hthrough.stored, hthrough.many2one] at hcolumn
  | record hterm hnamed hthrough hend =>
      rintro (_ | calls) place items rfl rfl hitems
      · exact absurd hitems hnone
      obtain ⟨its, hits, hsub⟩ := (orderTerms_terms hitems).1 _ hterm
      cases hits.field hnamed with
      | standIn hstandIn => simp [hthrough.own] at hstandIn
      | column _ hcolumn => simp [hthrough.stored, hthrough.many2one] at hcolumn
      | met _ _ _ hseen => exact absurd hseen hthrough.unseen
      | record _ _ hjoins => exact exists_item hsub (List.mem_singleton_self _) hjoins
      | step hthrough' hid _ _ hunset hnulls =>
          obtain rfl := hthrough.unique hthrough'
          obtain ⟨item, hitem⟩ := List.exists_mem_of_ne_nil _ (hnulls.mpr (hend.resolve_left hid))
          exact exists_item hsub (List.mem_append_left _ hitem) (hunset item hitem)
  | step hterm hnamed hthrough hid hrest ih =>
      rintro (_ | calls) place items rfl rfl hitems
      · exact absurd hitems hnone
      obtain ⟨its, hits, hsub⟩ := (orderTerms_terms hitems).1 _ hterm
      cases hits.field hnamed with
      | standIn hstandIn => simp [hthrough.own] at hstandIn
      | column _ hcolumn => simp [hthrough.stored, hthrough.many2one] at hcolumn
      | met _ _ _ hseen => exact absurd hseen hthrough.unseen
      | record hthrough' hid' =>
          obtain rfl := hthrough.unique hthrough'
          exact absurd hid' hid
      | step hthrough' _ hfk hitems =>
          obtain rfl := hthrough.unique hthrough'
          obtain ⟨item, hitem, joins, hchain, hjoins⟩ := ih rfl rfl hitems
          obtain ⟨c, hc, hco⟩ := hthrough.comodel
          refine ⟨item, hsub (List.mem_append_right _ hitem), _,
            .cons hnamed.found hc hco hfk hchain, ?_⟩
          rw [hjoins, OrderPlace.through, List.append_assoc]
          rfl

/-! ## Spelling -/

/-- The column that the expression of a stored field reads. -/
def columnRead : Expr → Option (String × String)
  | .col aliasName column => some (aliasName, column)
  | .translation (.col aliasName column) _ => some (aliasName, column)
  | .castJson (.companyJson (.col aliasName column) _ _ _) _ => some (aliasName, column)
  | .castItem (.companyJson (.col aliasName column) _ _ _) _ => some (aliasName, column)
  | .select (.from _ _ _ [.compare _ _ (.castItem (.companyJson (.col aliasName column) _ _ _) _)]) =>
    some (aliasName, column)
  | _ => none

lemma columnRead_companyDependent {model : Model} {field : Field} {aliasName column : String} {e : Expr}
    (h : ctx.companyDependentExpr model field (.col aliasName column) = .ok e) :
    columnRead e = some (aliasName, column) := by
  unfold companyDependentExpr at h
  simp only at h
  split at h
  all_goals
    obtain ⟨fallback, -, h⟩ := bind_eq_ok.mp h
    split at h
    all_goals first
      | obtain rfl := Except.ok.inj h
        rfl
      | obtain ⟨c, -, h⟩ := bind_eq_ok.mp h
        obtain ⟨co, -, h⟩ := bind_eq_ok.mp h
        obtain rfl := Except.ok.inj h
        rfl

/-- **The expression of a stored field reads its column.** -/
lemma columnRead_fieldExpr {model : Model} {field : Field} {aliasName : String} {e : Expr}
    (h : Yields (ctx.fieldExpr model field aliasName) e) : columnRead e = some (aliasName, field.name) := by
  unfold fieldExpr at h
  split_ifs at h
  · simp at h
  all_goals
    obtain ⟨-, -, h⟩ := yields_bind.mp h
    first
      | exact columnRead_companyDependent (yields_ofResult.mp h)
      | obtain rfl := yields_pure.mp h
        rfl

/-- A path that the order walks, or a part of one from its start. -/
def Walked (ctx : ExprCtx) (model : Model) (order : String) (path : List String) : Prop :=
  ∃ rest, ctx.Walks model [] order (path ++ rest)

/-- **No two paths that an order walks are spelled alike**; the empty one is spelled as the table. -/
def PathsApart (ctx : ExprCtx) (model : Model) (order : String) : Prop :=
  ∀ path path', ctx.Walked model order path → ctx.Walked model order path' →
    ctx.pathAlias model.table path = ctx.pathAlias model.table path' → path = path'

/-- **No join of an order stands for another one**: those with one alias have one table and one source,
and none has the alias of the table itself. -/
structure Unconfused (table : String) (items : List OrderItem) : Prop where
  one : ∀ item ∈ items, ∀ join ∈ item.joins, ∀ item' ∈ items, ∀ join' ∈ item'.joins,
    join.aliasName = join'.aliasName → join.table = join'.table ∧ join.source = join'.source
  root : ∀ item ∈ items, ∀ join ∈ item.joins, join.aliasName ≠ table

end ExprCtx

/-- Each field of a registry is kept under its own name. -/
def Registry.FieldsNamed (registry : Registry) : Prop :=
  ∀ k m, registry.get k = .ok m → ∀ f field, m.fields.get? f = some field → field.name = f

namespace ExprCtx

variable {ctx : ExprCtx}

section

variable {calls : ℕ} {k : String} {model : Model} {order : String} {items : List OrderItem}
  (hitems : Yields (ctx.parseOrder calls model model.table order) items)

include hitems

/-- Each join of an order ends the joins of a path that the order walks. -/
lemma exists_walked {item : OrderItem} (hitem : item ∈ items) {join : OrderJoin}
    (hjoin : join ∈ item.joins) : ∃ start fname before, ctx.Walked model order (start ++ [fname]) ∧
      ctx.Chain model.table model (start ++ [fname]) (before ++ [join]) := by
  obtain ⟨path, joins, hwalks, hchain, hjoins⟩ := walks_of_mem hitems item hitem
  rw [hjoins] at hjoin
  obtain ⟨start, rest, before, rfl, hne, hstart⟩ := hchain.part hjoin
  rw [← List.dropLast_append_getLast hne] at hstart hwalks
  exact ⟨_, _, before, ⟨rest, hwalks⟩, hstart⟩

/-- Each path that an order walks ends in a join of the order. -/
lemma exists_join {start : List String} {fname : String}
    (hwalked : ctx.Walked model order (start ++ [fname])) :
    ∃ item ∈ items, ∃ join ∈ item.joins,
      join.aliasName = ctx.pathAlias model.table (start ++ [fname]) ∧
      ∃ holder field, (holder = model ∨ ∃ k, ctx.registry.get k = .ok holder) ∧
        holder.fields.get? fname = some field ∧
        Yields (ctx.fieldExpr holder field (ctx.pathAlias model.table start)) join.source := by
  obtain ⟨rest, hwalks⟩ := hwalked
  obtain ⟨item, hitem, joins, hchain, hjoins⟩ := exists_item_of_walks hwalks rfl rfl hitems
  obtain ⟨before, after, rfl, hbefore⟩ := hchain.left
  obtain ⟨first, join, holder, field, rfl, halias, hholder, hfound, hsource⟩ := hbefore.last
  refine ⟨item, hitem, join, ?_, halias, holder, field, hholder, hfound, hsource⟩
  rw [hjoins]
  simp

/-- **No join stands for another one** exactly where no two paths are spelled alike. -/
theorem unconfused_iff (hmodel : ctx.registry.get k = .ok model) (hnamed : ctx.registry.FieldsNamed) :
    Unconfused model.table items ↔ ctx.PathsApart model order := by
  constructor
  · intro h path
    induction path using List.reverseRecOn with
    | nil =>
        intro path' hpath hpath' heq
        rcases path'.eq_nil_or_concat' with rfl | ⟨start, fname, rfl⟩
        · rfl
        · obtain ⟨item, hitem, join, hjoin, halias, -⟩ := exists_join hitems hpath'
          exact absurd (halias.trans heq.symm) (h.root item hitem join hjoin)
    | append_singleton start fname ih =>
        intro path' hpath hpath' heq
        obtain ⟨item, hitem, join, hjoin, halias, holder, field, hholder, hfound, hsource⟩ :=
          exists_join hitems hpath
        rcases path'.eq_nil_or_concat' with rfl | ⟨start', fname', rfl⟩
        · exact absurd (halias.trans heq) (h.root item hitem join hjoin)
        · obtain ⟨item', hitem', join', hjoin', halias', holder', field', hholder', hfound', hsource'⟩ :=
            exists_join hitems hpath'
          have hone := (h.one item hitem join hjoin item' hitem' join' hjoin'
            (halias.trans (heq.trans halias'.symm))).2
          have hcolumn := columnRead_fieldExpr hsource
          rw [hone, columnRead_fieldExpr hsource'] at hcolumn
          obtain ⟨hstart, hname⟩ := Prod.mk.inj (Option.some.inj hcolumn)
          have hkept : ∀ {holder : Model} {f : String} {field : Field},
              (holder = model ∨ ∃ k, ctx.registry.get k = .ok holder) →
              holder.fields.get? f = some field → field.name = f := by
            rintro holder f field (rfl | ⟨k', hk'⟩) hfound
            · exact hnamed k holder hmodel f field hfound
            · exact hnamed k' holder hk' f field hfound
          have hshorter : ∀ {start : List String} {fname : String},
              ctx.Walked model order (start ++ [fname]) → ctx.Walked model order start := by
            rintro start fname ⟨rest, hwalks⟩
            exact ⟨fname :: rest, by simpa using hwalks⟩
          rw [ih start' (hshorter hpath) (hshorter hpath') hstart.symm,
            ← hkept hholder hfound, ← hkept hholder' hfound', hname]
  · intro h
    constructor
    · intro item hitem join hjoin item' hitem' join' hjoin' heq
      obtain ⟨start, fname, before, hwalked, hchain⟩ := exists_walked hitems hitem hjoin
      obtain ⟨start', fname', before', hwalked', hchain'⟩ := exists_walked hitems hitem' hjoin'
      obtain ⟨_, last, -, -, hlast, halias, -⟩ := hchain.last
      obtain ⟨_, last', -, -, hlast', halias', -⟩ := hchain'.last
      obtain ⟨-, rfl⟩ := List.append_singleton_inj.mp hlast
      obtain ⟨-, rfl⟩ := List.append_singleton_inj.mp hlast'
      have hpath := h _ _ hwalked hwalked' (halias.symm.trans (heq.trans halias'))
      rw [hpath] at hchain
      obtain ⟨-, rfl⟩ := List.append_singleton_inj.mp (hchain.unique hchain')
      exact ⟨rfl, rfl⟩
    · intro item hitem join hjoin heq
      obtain ⟨start, fname, before, hwalked, hchain⟩ := exists_walked hitems hitem hjoin
      obtain ⟨_, last, -, -, hlast, halias, -⟩ := hchain.last
      obtain ⟨-, rfl⟩ := List.append_singleton_inj.mp hlast
      have hroot : ctx.Walked model order [] := by
        obtain ⟨rest, hwalks⟩ := hwalked
        exact ⟨_, hwalks⟩
      exact absurd (h _ [] hwalked hroot (halias.symm.trans heq)) (by simp)

end

end ExprCtx

/-! ## Names that hold what stands between names -/

namespace Separators

def task : Model :=
  plainModel "task" "task" [("id", Field.column "id" .Integer "int4" none), ("team", linkField "team" "team"),
    ("team__lead", linkField "team__lead" "person")]

/-- Teams are ordered by their leads. -/
def team : Model :=
  { plainModel "team" "team" [("id", Field.column "id" .Integer "int4" none),
      ("lead", linkField "lead" "person")] with order := "lead" }

def person : Model :=
  { plainModel "person" "person" [("id", Field.column "id" .Integer "int4" none),
      ("name", Field.column "name" .Char "varchar" (some (.string "")))] with order := "name" }

def registry : Registry := plainRegistry [("task", task), ("team", team), ("person", person)]

def ctx : ExprCtx := ExprCtx.plain registry (Security.plain [] []) none

/-- The join of a task's team. -/
def teamJoin : OrderJoin where
  table := "team"
  aliasName := "task__team"
  source := .col "task" "team"

/-- The join of the lead of a task's team. -/
def teamLeadJoin : OrderJoin where
  table := "person"
  aliasName := "task__team__lead"
  source := .col "task__team" "lead"

/-- The join of the lead that a task names itself. -/
def ownLeadJoin : OrderJoin where
  table := "person"
  aliasName := "task__team__lead"
  source := .col "task" "team__lead"

/-- The lead of a task's team. -/
def teamLead : OrderItem where
  expr := .value (.col "task__team__lead" "name")
  desc := false
  nulls := none
  joins := [teamJoin, teamLeadJoin]

/-- The lead that a task names itself. -/
def ownLead : OrderItem where
  expr := .value (.col "task__team__lead" "name")
  desc := false
  nulls := none
  joins := [ownLeadJoin]

lemma ordered : Yields (ctx.parseOrder 10 task "task" "team, team__lead") [teamLead, ownLead] := ⟨_, rfl⟩

lemma fieldsNamed : registry.FieldsNamed := by
  intro k m hm f field hf
  have hmem := Dict.mem_of_get? (Twins.registry_get_eq_ok.mp hm)
  simp only [registry, plainRegistry, List.mem_cons, Prod.mk.injEq, List.not_mem_nil, or_false] at hmem
  have hf' := Dict.mem_of_get? hf
  rcases hmem with ⟨-, rfl⟩ | ⟨-, rfl⟩ | ⟨-, rfl⟩
  all_goals
    simp only [task, team, person, plainModel, List.mem_cons, Prod.mk.injEq, List.not_mem_nil, or_false] at hf'
    first
      | rcases hf' with ⟨rfl, rfl⟩ | ⟨rfl, rfl⟩ | ⟨rfl, rfl⟩ <;> rfl
      | rcases hf' with ⟨rfl, rfl⟩ | ⟨rfl, rfl⟩ <;> rfl

/-- **Two paths of one spelling**: the lead of a task's team and the lead that the task names itself are
joined under one alias, from two columns. -/
theorem separator_confuses : registry.get "task" = .ok task ∧ registry.FieldsNamed ∧
    Yields (ctx.parseOrder 10 task "task" "team, team__lead") [teamLead, ownLead] ∧
    teamLeadJoin ∈ teamLead.joins ∧ ownLeadJoin ∈ ownLead.joins ∧
    teamLeadJoin.aliasName = ownLeadJoin.aliasName ∧ teamLeadJoin.source ≠ ownLeadJoin.source :=
  ⟨rfl, fieldsNamed, ordered, List.mem_cons_of_mem _ List.mem_cons_self, List.mem_cons_self, rfl,
    fun h => absurd (Expr.col.inj h).1 (by decide)⟩

/-- The order spells two of its paths alike. -/
theorem spelled_alike : ¬ ctx.PathsApart task "team, team__lead" := by
  intro hapart
  have hmodel : ctx.registry.get "task" = .ok task := rfl
  have hone := ((ExprCtx.unconfused_iff ordered hmodel fieldsNamed).mpr hapart).one
  have hsource := (hone teamLead List.mem_cons_self teamLeadJoin
    (List.mem_cons_of_mem _ List.mem_cons_self) ownLead (List.mem_cons_of_mem _ List.mem_cons_self)
    ownLeadJoin List.mem_cons_self rfl).2
  exact absurd (Expr.col.inj hsource).1 (by decide)

end Separators

end OdooKernel
