import OdooKernel.Search.Statement

/-!
# The pages of a search

The order of a search ends in the id unless it names it.  Whether it names it is read off the text,
and a term may order by nothing, or by something else: a field that the principal may not read, a
stand-in.

**What is enough.**  The pages of a search are its records where a term on the id is the id
(`ExprCtx.OrdersById`): the field is there, is the column, may be read and has no stand-in.  The rest
is that every join of an order is of a model (`orderTerms_known`), so that no row is repeated by it,
and the total order of `Search/Statement`.

* `allItems_id`, `parseTotalOrder_id` — the id is among the terms.
* **`pages_of_order`** — the pages of a search are its records, if a term on the id is the id.
* `id_skipped` — a principal who may not read the id gets one record twice and another never.
-/

namespace OdooKernel

namespace ExprCtx

variable {ctx : ExprCtx} {again : OrderPlace → String → Compile (List OrderItem)}
  {place : OrderPlace} {calls : ℕ}

/-! ## The joins of an order -/

/-- All joins are of models. -/
def JoinsKnown (ctx : ExprCtx) (joins : List OrderJoin) : Prop :=
  ∀ join ∈ joins, join.Known ctx.registry

/-- All joins of some items are of models. -/
def ItemsKnown (ctx : ExprCtx) (items : List OrderItem) : Prop :=
  ∀ item ∈ items, ctx.JoinsKnown item.joins

lemma itemsKnown_nil : ctx.ItemsKnown [] := fun _ h => absurd h List.not_mem_nil

lemma itemsKnown_singleton {item : OrderItem} (h : ctx.JoinsKnown item.joins) :
    ctx.ItemsKnown [item] := by
  intro item' hitem'
  rwa [List.mem_singleton.mp hitem']

lemma ItemsKnown.append {items items' : List OrderItem} (h : ctx.ItemsKnown items)
    (h' : ctx.ItemsKnown items') : ctx.ItemsKnown (items ++ items') := by
  intro item hitem
  rcases List.mem_append.mp hitem with hitem | hitem
  · exact h item hitem
  · exact h' item hitem

/-- A place whose joins are of models. -/
abbrev PlaceKnown (ctx : ExprCtx) (place : OrderPlace) : Prop := ctx.JoinsKnown place.joins

lemma placeKnown_through (hplace : ctx.PlaceKnown place) {k : String} {co : Model}
    (hco : ctx.registry.get k = .ok co) (field aliasName : String) (fk : Expr) (desc : Bool) :
    ctx.PlaceKnown (place.through field co aliasName fk desc) := by
  intro join hjoin
  rcases List.mem_append.mp hjoin with hjoin | hjoin
  · exact hplace join hjoin
  · rw [List.mem_singleton.mp hjoin]
    exact ⟨k, co, Twins.registry_get_eq_ok.mp hco, rfl⟩

section Known

variable (hplace : ctx.PlaceKnown place)
  (hagain : ∀ place, ctx.PlaceKnown place → ∀ order,
    Ensures (again place order) ctx.ItemsKnown fun _ => True)

include hplace

omit hplace in
lemma fragmentItem_known (term : OrderTerm) (index : List Char) (desc : Bool)
    (nulls : Option NullOrdering) :
    Ensures (ctx.fragmentItem place term index desc nulls) ctx.ItemsKnown fun _ => True := by
  unfold fragmentItem
  split
  · exact .refuse
  · refine .lift fun fragment _ => ?_
    split
    · exact .lift fun _ _ => .pure (itemsKnown_singleton fun _ h => absurd h List.not_mem_nil)
    · exact .refuse

lemma relatedItem_known (field : Field) (fname : String) (desc : Bool)
    (nulls : Option NullOrdering) :
    Ensures (ctx.relatedItem place calls field fname desc nulls) ctx.ItemsKnown fun _ => True := by
  unfold relatedItem
  split
  · exact .refuse
  · exact .lift fun _ _ => .lift fun _ _ => Ensures.nothing.bind fun _ _ =>
      .pure (itemsKnown_singleton hplace)

lemma unsetItem_known (fk : Expr) (nulls : Option NullOrdering) :
    ctx.ItemsKnown (unsetItem place fk nulls) := by
  unfold unsetItem
  split
  · exact itemsKnown_nil
  · exact itemsKnown_singleton hplace

include hagain

lemma many2oneItems_known (field : Field) (fname : String) (desc : Bool)
    (nulls : Option NullOrdering) :
    Ensures (ctx.many2oneItems again place field fname desc nulls) ctx.ItemsKnown fun _ => True := by
  unfold many2oneItems
  split
  · exact .pure itemsKnown_nil
  · refine .lift fun k _ => .lift fun co hco => Ensures.nothing.bind fun fk _ => ?_
    split
    · exact .pure (itemsKnown_singleton hplace)
    · refine (hagain _ (placeKnown_through hplace hco _ _ fk desc) co.order).bind fun items hitems => ?_
      exact .pure ((unsetItem_known hplace fk nulls).append hitems)

lemma termItems_known (term : OrderTerm) :
    Ensures (ctx.termItems again place calls term) ctx.ItemsKnown fun _ => True := by
  unfold termItems
  dsimp only
  split
  · exact fragmentItem_known _ _ _ _
  · refine .lift fun field _ => .lift fun readable _ => ?_
    split
    · exact .pure itemsKnown_nil
    · unfold fieldItems
      split
      · exact hagain _ hplace _
      split
      · exact relatedItem_known hplace _ _ _ _
      split
      · exact Ensures.nothing.bind fun _ _ => .pure (itemsKnown_singleton hplace)
      · exact many2oneItems_known hplace hagain _ _ _ _

lemma allItems_known : ∀ parts : List String,
    Ensures (ctx.allItems again place calls parts) ctx.ItemsKnown fun _ => True
  | [] => .pure itemsKnown_nil
  | part :: parts => by
      have hpart : Ensures (ctx.partItems again place calls part) ctx.ItemsKnown fun _ => True := by
        refine .lift fun term _ => ?_
        split
        · exact .pure itemsKnown_nil
        · exact termItems_known hplace hagain _
      exact hpart.bind fun items hitems => (allItems_known parts).bind fun rest hrest =>
        .pure (hitems.append hrest)

end Known

/-- **The joins of an order are of models**, however far it leads. -/
lemma orderTerms_known : ∀ {place : OrderPlace}, ctx.PlaceKnown place → ∀ order,
    Ensures (ctx.orderTerms calls place order) ctx.ItemsKnown fun _ => True := by
  induction calls with
  | zero =>
      intro place _ order
      show Ensures (Compile.ofResult outOfCalls) _ _
      exact .ofResult fun _ h => by simp [outOfCalls] at h
  | succ calls ih =>
      intro place hplace order
      unfold orderTerms
      split
      · exact .refuse
      · exact allItems_known hplace (fun place hplace => ih hplace) _

lemma parseTotalOrder_known {model : Model} {aliasName order : String} {items : List OrderItem}
    (h : Yields (ctx.parseTotalOrder calls model aliasName order) items) : ctx.ItemsKnown items := by
  have hroot : ctx.PlaceKnown (OrderPlace.root model aliasName) := fun _ h => absurd h List.not_mem_nil
  have hensures : Ensures (ctx.parseTotalOrder calls model aliasName order) ctx.ItemsKnown
      fun _ => True := by
    refine (orderTerms_known hroot order).bind fun items hitems => .pure ?_
    split
    · exact hitems
    · exact hitems.append (itemsKnown_singleton fun _ h => absurd h List.not_mem_nil)
  exact hensures.of_yields h

/-! ## The id in an order -/

/-- **A term on the id is the id**: the field is the integer column that it is named after, the
principal may read it, and nothing stands in for it. -/
structure IdField (ctx : ExprCtx) (f : Field) : Prop where
  name : f.name = "id"
  hasColumn : f.hasColumn = true
  integer : f.ttype = .Integer
  everywhere : f.companyDependent = false
  untranslated : f.translated = false
  orderByField : f.orderByField = none
  readable : ctx.mayOrderBy f = .ok true

/-- A term on the id of a model is the id. -/
def OrdersById (ctx : ExprCtx) (model : Model) : Prop :=
  ∃ f, model.fields.get? "id" = some f ∧ ctx.IdField f

/-- Some item orders by the id of an alias. -/
def HasId (aliasName : String) (items : List OrderItem) : Prop :=
  ∃ item ∈ items, item.expr = .value (.col aliasName "id")

lemma HasId.append_left {aliasName : String} {items : List OrderItem} (h : HasId aliasName items)
    (items' : List OrderItem) : HasId aliasName (items ++ items') := by
  obtain ⟨item, hitem, hexpr⟩ := h
  exact ⟨item, List.mem_append_left _ hitem, hexpr⟩

lemma HasId.append_right {aliasName : String} {items' : List OrderItem} (items : List OrderItem)
    (h : HasId aliasName items') : HasId aliasName (items ++ items') := by
  obtain ⟨item, hitem, hexpr⟩ := h
  exact ⟨item, List.mem_append_right _ hitem, hexpr⟩

/-- The column of the id is read as it is. -/
lemma fieldExpr_id {f : Field} (hf : ctx.IdField f) {model : Model} {aliasName : String} {e : Expr}
    (h : Yields (ctx.fieldExpr model f aliasName) e) : e = .col aliasName "id" := by
  simp only [fieldExpr, hf.hasColumn, hf.everywhere, hf.untranslated, hf.name, Bool.not_true,
    Bool.false_eq_true, if_false, yields_bind, yields_pure] at h
  obtain ⟨-, -, rfl⟩ := h
  rfl

/-- **A term on the id orders by it.** -/
lemma termItems_id (hid : ctx.OrdersById place.model) {term : OrderTerm} (hterm : term.field = "id")
    {items : List OrderItem} (h : Yields (ctx.termItems again place calls term) items) :
    HasId place.aliasName items := by
  obtain ⟨f, hfield, hf⟩ := hid
  unfold termItems at h
  dsimp only at h
  split at h
  · next index hindex =>
      rw [hterm] at hindex
      simp at hindex
  · simp only [hterm, hfield, liftM_eq_ofResult, yields_bind, yields_ofResult, orRefuse_eq_ok,
      Option.some.injEq] at h
    obtain ⟨field, rfl, readable, hreadable, h⟩ := h
    obtain rfl := Except.ok.inj (hf.readable.symm.trans hreadable)
    simp only [fieldItems, hf.orderByField, hf.hasColumn, hf.integer, orderExpr, Bool.not_true,
      Bool.false_eq_true, if_false, if_true, ne_eq, reduceCtorEq, not_false_eq_true, false_and,
      yields_bind, yields_pure] at h
    obtain ⟨expr, ⟨e, he, rfl⟩, rfl⟩ := h
    exact ⟨_, List.mem_singleton_self _, by rw [fieldExpr_id hf he]⟩

/-- The field of a term is its first word. -/
lemma parseOrderTerm_field {part : String} {term : Option OrderTerm}
    (h : parseOrderTerm part = .ok term) (hword : (splitWhitespace part).head? = some "id") :
    ∃ t, term = some t ∧ t.field = "id" := by
  unfold parseOrderTerm at h
  cases hwords : splitWhitespace part with
  | nil => simp [hwords] at hword
  | cons word words =>
      rw [hwords, List.head?_cons, Option.some.injEq] at hword
      subst hword
      simp only [hwords] at h
      split at h
      · exact ⟨_, (Except.ok.inj h).symm, rfl⟩
      · exact ⟨_, (Except.ok.inj h).symm, rfl⟩
      · exact ⟨_, (Except.ok.inj h).symm, rfl⟩
      · simp at h

lemma allItems_id (hid : ctx.OrdersById place.model) {part : String}
    (hword : (splitWhitespace part).head? = some "id") : ∀ {parts : List String} {items : List OrderItem},
    part ∈ parts → Yields (ctx.allItems again place calls parts) items →
    HasId place.aliasName items := by
  intro parts
  induction parts with
  | nil => exact fun hpart _ => absurd hpart List.not_mem_nil
  | cons first parts ih =>
      intro items hpart h
      simp only [allItems, yields_bind, yields_pure] at h
      obtain ⟨found, hfound, rest, hrest, rfl⟩ := h
      rcases List.mem_cons.mp hpart with rfl | hpart
      · simp only [partItems, liftM_eq_ofResult, yields_bind, yields_ofResult] at hfound
        obtain ⟨term, hterm, hfound⟩ := hfound
        obtain ⟨t, rfl, ht⟩ := parseOrderTerm_field hterm hword
        exact (termItems_id hid ht hfound).append_left rest
      · exact (ih hpart hrest).append_right found

/-- **An order orders by the id**, if a term on the id is the id. -/
lemma parseTotalOrder_id {model : Model} {aliasName order : String} {items : List OrderItem}
    (h : Yields (ctx.parseTotalOrder calls model aliasName order) items)
    (hid : namesId order = true → ctx.OrdersById model) : HasId aliasName items := by
  simp only [parseTotalOrder, parseOrder, yields_bind, yields_pure] at h
  obtain ⟨found, hfound, rfl⟩ := h
  split
  · next hnames =>
      obtain ⟨part, hpart, hword⟩ := List.any_eq_true.mp hnames
      cases calls with
      | zero => simp [orderTerms, outOfCalls] at hfound
      | succ calls =>
          unfold orderTerms at hfound
          split at hfound
          · simp at hfound
          · exact allItems_id (hid hnames) (of_decide_eq_true hword) hpart hfound
  · exact HasId.append_right found ⟨_, List.mem_singleton_self _, rfl⟩

end ExprCtx

/-! ## The pages -/

lemma mem_of_mem_distinctJoins {join : OrderJoin} : ∀ {joins : List OrderJoin} {joined : List String},
    join ∈ distinctJoins joined joins → join ∈ joins
  | [], _, h => absurd h List.not_mem_nil
  | first :: joins, joined, h => by
      unfold distinctJoins at h
      split at h
      · exact List.mem_cons_of_mem _ (mem_of_mem_distinctJoins h)
      · rcases List.mem_cons.mp h with rfl | h
        · exact List.mem_cons_self
        · exact List.mem_cons_of_mem _ (mem_of_mem_distinctJoins h)

/-- **The pages of a search are its records**: no record is repeated or dropped by the joins of the
order, no two tie, and pages of one size are the records that match, each once.  It is so whatever
the order is, if a term on the id, where the order names it, is the id. -/
theorem pages_of_order {r : SearchRequest} {calls : ℕ} {answers : ∀ q : Question, q.Answer}
    {model : Model} (hmodel : r.ctx.registry.get r.model = .ok model) {cond : Condition}
    {log : List Event} (hcond : (r.buildCondition calls model).run answers = .ok (cond, log))
    {order : String} {items : List OrderItem}
    (hitems : Yields (r.ctx.parseTotalOrder calls model model.table order) items)
    (hid : namesId order = true → r.ctx.OrdersById model)
    {db : Database} (hids : UniqueIds r.ctx.registry db)
    (haccepted : (Statement.ofOrder model.table cond items).Accepted)
    (resolved : Json → Row → Option Datum) :
    (Statement.ofOrder model.table cond items).Pages db resolved := by
  refine Statement.pages_of_id hids (Twins.registry_get_eq_ok.mp hmodel) rfl (fun join hjoin => ?_)
    haccepted (fun env env' henv => ?_) (ExprCtx.parseTotalOrder_id hitems hid)
  · obtain ⟨item, hitem, hjoin⟩ := List.mem_flatMap.mp (mem_of_mem_distinctJoins hjoin)
    exact ExprCtx.parseTotalOrder_known hitems item hitem join hjoin
  · exact SearchRequest.buildCondition_scoped hmodel hcond db henv

/-! ## An id that may not be read -/

namespace Grouped

/-- An id that is for one group only. -/
def groupedId : Field :=
  { Field.column "id" .Integer "int4" none with groups := some "base.group_system" }

def task : Model :=
  plainModel "task" "task" [("id", groupedId),
    ("name", Field.column "name" .Char "varchar" (some (.string ""))),
    ("owner_id", linkField "owner_id" "owner")]

def owner : Model :=
  { plainModel "owner" "owner" [("id", Field.column "id" .Integer "int4" none),
      ("name", Field.column "name" .Char "varchar" (some (.string "")))] with order := "name" }

def registry : Registry := plainRegistry [("task", task), ("owner", owner)]

/-- A principal without groups. -/
def access : Access := { uid := 2, groups := ∅, scopes := [] }

def request : SearchRequest where
  ctx := ExprCtx.plain registry (Security.plain [] []) (some access)
  model := "task"
  domain := .null
  rules := RuleSet.empty
  su := false
  trusted := false
  rootActiveTest := true

def taskRow (id : ℤ) : Row
  | "id" => some (.int id)
  | "name" => some (.text "task")
  | "owner_id" => some (.int 1)
  | _ => none

def ownerRow : Row
  | "id" => some (.int 1)
  | "name" => some (.text "owner")
  | _ => none

/-- Two tasks of one owner and of one name. -/
def database : Database where
  table name := if name = "task" then [taskRow 1, taskRow 2] else if name = "owner" then [ownerRow] else []
  fragment _ := []
  server := Server.plain

def answers : ∀ q : Question, q.Answer :=
  answersOf 10 request.ctx database (some (RuleSet.empty, false))

/-- No subquery of the request orders its records. -/
def unresolved : Json → Row → Option Datum := fun _ _ => none

lemma uniqueIds : UniqueIds registry database := by
  intro k m hm
  have hmem := Dict.mem_of_get? hm
  simp only [registry, plainRegistry, List.mem_cons, Prod.mk.injEq, List.not_mem_nil, or_false] at hmem
  rcases hmem with ⟨-, rfl⟩ | ⟨-, rfl⟩
  · refine ⟨fun row hrow => ?_, by decide +kernel⟩
    simp only [task, plainModel, database, if_true, List.mem_cons, List.not_mem_nil, or_false] at hrow
    rcases hrow with rfl | rfl
    · exact ⟨1, rfl⟩
    · exact ⟨2, rfl⟩
  · refine ⟨fun row hrow => ?_, by decide +kernel⟩
    obtain rfl := List.mem_singleton.mp hrow
    exact ⟨1, rfl⟩

/-- The condition of a search for all tasks. -/
def everyTask : Condition := Condition.all.add Condition.all

/-- All tasks, in no order. -/
def unordered : Statement := Statement.ofOrder "task" everyTask []

/-- **An order by the id alone is none** for a principal who may not read it: the server may return
one task on both of two pages. -/
theorem id_skipped : UniqueIds registry database ∧
    (∃ log, (request.buildCondition 10 task).run answers = .ok (everyTask, log)) ∧
      Yields (request.ctx.parseTotalOrder 10 task "task" "id") unordered.items ∧
      ¬ unordered.Pages database unresolved ∧
      ∃ env, unordered.Returns database unresolved 0 1 [env] ∧
        unordered.Returns database unresolved 1 1 [env] := by
  refine ⟨uniqueIds, ⟨_, rfl⟩, ⟨_, rfl⟩, fun h => ?_, ?_⟩
  · have hrows : unordered.matching database = [taskRow 1, taskRow 2] := rfl
    have hmem : ∀ row ∈ [taskRow 1, taskRow 2], ∃ env ∈ unordered.envs database, env "task" = row := by
      intro row hrow
      rw [← hrows, ← h.once] at hrow
      exact List.mem_map.mp hrow
    obtain ⟨env, henv, hfirst⟩ := hmem (taskRow 1) (by simp)
    obtain ⟨env', henv', hsecond⟩ := hmem (taskRow 2) (by simp)
    have heq := h.total env henv env' henv' fun key hkey => absurd hkey List.not_mem_nil
    rw [heq, hsecond] at hfirst
    exact absurd (congrFun hfirst "id") (by decide)
  · refine ⟨Env.bind (fun _ => absentRow) "task" (taskRow 1),
      ⟨[_, Env.bind (fun _ => absentRow) "task" (taskRow 2)], ⟨.refl _, ?_⟩, rfl⟩,
      ⟨[Env.bind (fun _ => absentRow) "task" (taskRow 2), _], ⟨.swap _ _ _, ?_⟩, rfl⟩⟩
    all_goals simp [Statement.keys, unordered, Statement.ofOrder, Before]

/-- The order of the owners and the id that ends it. -/
def ownerItems : List OrderItem :=
  [{ expr := .value (.col "task__owner_id" "name"), desc := false, nulls := none
     joins := [{ table := "owner", aliasName := "task__owner_id", source := .col "task" "owner_id" }] },
    ExprCtx.idItem "task"]

/-- The same principal pages through the tasks of each owner. -/
theorem pages_of_order_owner :
    (Statement.ofOrder "task" everyTask ownerItems).Pages database unresolved := by
  obtain ⟨log, hcond⟩ : ∃ log, (request.buildCondition 10 task).run answers = .ok (everyTask, log) :=
    ⟨_, rfl⟩
  have hitems : Yields (request.ctx.parseTotalOrder 10 task "task" "owner_id") ownerItems := ⟨_, rfl⟩
  have haccepted : (Statement.ofOrder "task" everyTask ownerItems).Accepted := by
    show "task" ∉ ["task__owner_id"]
    decide
  exact pages_of_order rfl hcond hitems (fun h => absurd h (by decide +kernel)) uniqueIds haccepted
    unresolved

end Grouped

end OdooKernel
