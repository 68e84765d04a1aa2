import OdooKernel.Compile.Splices
import OdooKernel.Search.Pages

/-!
# The statement of a search splices no foreign SQL

The condition and the order of a search may hold SQL that Python resolved, which stands in the
statement as it is.  A request says by its nonce which SQL that is; one from outside has no nonce.

**Where it comes from.**  A comparand of the domain is spliced with the nonce alone
(`Compile/Splices`), at any depth and in the rules as well.  A term of the order names a subquery of
the request by its place, which is looked at for the nonce like a comparand.

* `Statement.splices` — the SQL of a request that a statement holds.
* `SearchRequest.buildCondition_carries`, `ExprCtx.parseTotalOrder_carries` — the two parts.
* **`splices_carry_nonce`** — all of it carries the nonce of the request.
-/

namespace OdooKernel

/-! ## What a statement holds -/

/-- The SQL of a request in an expression that rows are ordered by. -/
def OrderExpr.splices : OrderExpr → List Json
  | .value e => e.splices
  | .orFalse e => e.splices
  | .isNull e => e.splices
  | .isNotNull e => e.splices
  | .fragment query _ => [query]

/-- The SQL of a request in a term of an order, with its joins. -/
def OrderItem.splices (item : OrderItem) : List Json :=
  item.expr.splices ++ item.joins.flatMap (·.source.splices)

/-- The SQL of a request in a statement. -/
def Statement.splices (s : Statement) : List Json :=
  s.joins.flatMap (·.source.splices) ++ (s.condition.toPredicate.splices
    ++ s.items.flatMap (·.expr.splices))

/-! ## Orders -/

namespace ExprCtx

variable {ctx : ExprCtx} {nonce : Option String}

lemma relatedExprAs_splices {read : Model → Field → String → Compile Expr}
    (hread : ∀ model f aliasName, Ensures (read model f aliasName) (·.splices = []) Anything)
    (start : String) : ∀ (path : List String) (aliasName : String) (model : Model) (depth : ℕ),
    Ensures (ctx.relatedExprAs read start aliasName model path depth) (·.splices = []) Anything := by
  intro path
  induction path with
  | nil => exact fun _ _ _ => Ensures.error
  | cons name rest ih =>
      intro aliasName model depth
      cases rest with
      | nil => exact .lift fun field _ => hread _ _ _
      | cons next rest =>
          unfold relatedExprAs
          refine .lift fun field _ => ?_
          split
          · exact .refuse
          · refine .lift fun name _ => .lift fun co _ => ?_
            refine (ih _ _ _).bind fun inner hinner => Ensures.nothing.bind fun _ _ => .pure ?_
            simp [Expr.splices, Select.splices, Predicate.splices, Predicate.splicesAll, hinner]

/-- A field is read without any SQL of the request. -/
lemma readExpr_splices : ∀ (fuel : ℕ) (model : Model) (f : Field) (aliasName : String),
    Ensures (ctx.readExpr fuel model f aliasName) (·.splices = []) Anything := by
  intro fuel
  induction fuel with
  | zero => exact fun _ _ _ => Ensures.error
  | succ fuel ih =>
      intro model f aliasName
      unfold readExpr
      split
      · split
        · exact .lift fun _ _ => .lift fun path _ => relatedExprAs_splices ih "r" path _ _ 0
        · exact .refuse
      · refine (fieldExpr_splices ctx model aliasName).bind fun e he => .pure ?_
        split_ifs
        · exact he
        · exact he

lemma orderExpr_splices (model : Model) (f : Field) (aliasName : String) :
    Ensures (ctx.orderExpr model f aliasName) (·.splices = []) Anything := by
  refine (fieldExpr_splices ctx model aliasName).bind fun e he => .pure ?_
  split_ifs
  · exact he
  · exact he

/-- The SQL of the request in the terms of an order carries its nonce. -/
abbrev ItemsCarry (nonce : Option String) (items : List OrderItem) : Prop :=
  ∀ item ∈ items, Carries nonce item.splices

/-- The joins of a place hold no SQL of the request. -/
abbrev PlainPlace (place : OrderPlace) : Prop := ∀ join ∈ place.joins, join.source.splices = []

variable {again : OrderPlace → String → Compile (List OrderItem)} {place : OrderPlace} {calls : ℕ}

lemma carries_joins {joins : List OrderJoin} (h : ∀ join ∈ joins, join.source.splices = []) :
    Carries nonce (joins.flatMap (·.source.splices)) := by
  rw [List.flatMap_eq_nil_iff.mpr h]
  exact carries_nil

lemma itemsCarry_singleton (hplace : PlainPlace place) {expr : OrderExpr} (hexpr : expr.splices = [])
    {desc : Bool} {nulls : Option NullOrdering} :
    ItemsCarry nonce [{ expr, desc, nulls, joins := place.joins }] := by
  intro item hitem
  obtain rfl := List.mem_singleton.mp hitem
  refine carries_append.mpr ⟨?_, carries_joins hplace⟩
  rw [hexpr]
  exact carries_nil

lemma ItemsCarry.append {items items' : List OrderItem} (h : ItemsCarry nonce items)
    (h' : ItemsCarry nonce items') : ItemsCarry nonce (items ++ items') :=
  List.forall_mem_append.mpr ⟨h, h'⟩

lemma fragmentItem_carries (term : OrderTerm) (index : List Char) (desc : Bool)
    (nulls : Option NullOrdering) :
    Ensures (ctx.fragmentItem place term index desc nulls) (ItemsCarry ctx.sqlNonce) Anything := by
  unfold fragmentItem
  split
  · exact .refuse
  · refine .lift fun fragment _ => ?_
    split
    · refine .lift fun select hselect => .pure fun item hitem => ?_
      obtain rfl := List.mem_singleton.mp hitem
      simpa [OrderItem.splices, OrderExpr.splices, Carries] using (fragmentSelect_eq hselect).2
    · exact .refuse

section Again

variable (hplace : PlainPlace place)
  (hagain : ∀ place, PlainPlace place → ∀ order,
    Ensures (again place order) (ItemsCarry ctx.sqlNonce) Anything)

include hplace

lemma relatedItem_carries (field : Field) (fname : String) (desc : Bool)
    (nulls : Option NullOrdering) :
    Ensures (ctx.relatedItem place calls field fname desc nulls) (ItemsCarry nonce) Anything := by
  unfold relatedItem
  split
  · exact .refuse
  · refine .lift fun _ _ => .lift fun path _ => ?_
    refine (relatedExprAs_splices (readExpr_splices calls) "ord" path _ _ 0).bind fun e he => ?_
    exact .pure (itemsCarry_singleton hplace (show (OrderExpr.value e).splices = [] from he))

lemma unsetItem_carries {fk : Expr} (hfk : fk.splices = []) (nulls : Option NullOrdering) :
    ItemsCarry nonce (unsetItem place fk nulls) := by
  unfold unsetItem
  split
  · exact List.forall_mem_nil _
  · exact itemsCarry_singleton hplace (by split_ifs <;> exact hfk)

include hagain

lemma many2oneItems_carries (field : Field) (fname : String) (desc : Bool)
    (nulls : Option NullOrdering) :
    Ensures (ctx.many2oneItems again place field fname desc nulls) (ItemsCarry ctx.sqlNonce)
      Anything := by
  unfold many2oneItems
  split
  · exact .pure (List.forall_mem_nil _)
  · refine .lift fun k _ => .lift fun co _ => (fieldExpr_splices _ _ _).bind fun fk hfk => ?_
    split
    · exact .pure (itemsCarry_singleton hplace (show (OrderExpr.value fk).splices = [] from hfk))
    · have hthrough : PlainPlace (place.through fname co (ctx.orderAlias place.aliasName fname) fk
          desc) := List.forall_mem_append.mpr ⟨hplace, by simpa using hfk⟩
      exact (hagain _ hthrough co.order).bind fun items hitems =>
        .pure ((unsetItem_carries hplace hfk nulls).append hitems)

lemma fieldItems_carries (term : OrderTerm) (field : Field) (desc : Bool)
    (nulls : Option NullOrdering) :
    Ensures (ctx.fieldItems again place calls term field desc nulls) (ItemsCarry ctx.sqlNonce)
      Anything := by
  unfold fieldItems
  split
  · exact hagain _ hplace _
  split
  · exact relatedItem_carries hplace _ _ _ _
  split
  · exact (orderExpr_splices _ _ _).bind fun e he => .pure (itemsCarry_singleton hplace he)
  · exact many2oneItems_carries hplace hagain _ _ _ _

lemma termItems_carries (term : OrderTerm) :
    Ensures (ctx.termItems again place calls term) (ItemsCarry ctx.sqlNonce) Anything := by
  unfold termItems
  dsimp only
  split
  · exact fragmentItem_carries _ _ _ _
  · refine .lift fun field _ => .lift fun readable _ => ?_
    split
    · exact .pure (List.forall_mem_nil _)
    · exact fieldItems_carries hplace hagain _ _ _ _

lemma allItems_carries : ∀ parts : List String,
    Ensures (ctx.allItems again place calls parts) (ItemsCarry ctx.sqlNonce) Anything
  | [] => .pure (List.forall_mem_nil _)
  | part :: parts => by
      have hpart : Ensures (ctx.partItems again place calls part) (ItemsCarry ctx.sqlNonce)
          Anything := by
        refine .lift fun term _ => ?_
        split
        · exact .pure (List.forall_mem_nil _)
        · exact termItems_carries hplace hagain _
      exact hpart.bind fun items hitems => (allItems_carries parts).bind fun rest hrest =>
        .pure (hitems.append hrest)

end Again

lemma orderTerms_carries : ∀ {place : OrderPlace}, PlainPlace place → ∀ order,
    Ensures (ctx.orderTerms calls place order) (ItemsCarry ctx.sqlNonce) Anything := by
  induction calls with
  | zero => exact fun _ _ => Ensures.error
  | succ calls ih =>
      intro place hplace order
      unfold orderTerms
      split
      · exact .refuse
      · exact allItems_carries hplace (fun place hplace => ih hplace) _

/-- **The SQL in an order carries the nonce of the request.** -/
lemma parseTotalOrder_carries {model : Model} {aliasName order : String} {items : List OrderItem}
    (h : Yields (ctx.parseTotalOrder calls model aliasName order) items) :
    ItemsCarry ctx.sqlNonce items := by
  have hroot : PlainPlace (OrderPlace.root model aliasName) := List.forall_mem_nil _
  have hensures : Ensures (ctx.parseTotalOrder calls model aliasName order)
      (ItemsCarry ctx.sqlNonce) Anything := by
    refine (orderTerms_carries hroot order).bind fun items hitems => .pure ?_
    split
    · exact hitems
    · exact hitems.append (itemsCarry_singleton hroot rfl)
  exact hensures.of_yields h

end ExprCtx

/-! ## Conditions -/

namespace SearchRequest

variable {r : SearchRequest} {calls : ℕ} {model : Model} {nonce : Option String}

lemma implicitActive_carries (node : Node) {cond : Condition} (hcond : cond.Carries nonce) :
    Ensures (r.implicitActive model node cond) (Condition.Carries nonce) Anything := by
  unfold implicitActive
  split
  · exact .pure hcond
  split
  · exact .pure hcond
  · exact Ensures.nothing.bind fun _ _ => .pure (hcond.addPredicate (carries_of_splices rfl))

lemma ruleCondition_carries {cond : Condition} (hcond : cond.Carries r.ctx.sqlNonce) :
    Ensures (r.ruleCondition calls model cond) (Condition.Carries r.ctx.sqlNonce) Anything := by
  unfold ruleCondition
  split
  · exact .pure hcond
  · refine .lift fun _ _ => ?_
    split
    · exact .pure hcond
    · exact (Compiler.compileRules_carries (compile_carries _ calls) rfl _).bind
        fun rules hrules => .pure (hcond.add hrules)

lemma whereOf_carries (node : Node) :
    Ensures (r.whereOf calls model node) (Condition.Carries r.ctx.sqlNonce) Anything := by
  unfold whereOf
  refine (compile_carries r.ctx.sqlNonce calls (r.compiler model) node rfl).bind fun found hfound => ?_
  refine (implicitActive_carries node (Condition.Carries.all.add hfound)).bind fun cond hcond => ?_
  exact ruleCondition_carries hcond

/-- **The SQL in a condition carries the nonce of the request.** -/
lemma buildCondition_carries {answers : ∀ q : Question, q.Answer} {cond : Condition}
    {log : List Event} (h : (r.buildCondition calls model).run answers = .ok (cond, log)) :
    cond.Carries r.ctx.sqlNonce := by
  have hsees : Asking.Sees answers Anything (r.buildCondition calls model)
      (Condition.Carries r.ctx.sqlNonce) :=
    .bind fun _ => .bind fun _ => .bind fun node => .ofCompile
      fun cond log hrun _ => (whereOf_carries node cond log hrun).1
  exact hsees cond log h fun _ _ => trivial

end SearchRequest

/-- **No SQL without the nonce of the request**: all that a search splices into its statement, in the
condition or in the order, carries it. -/
theorem splices_carry_nonce {r : SearchRequest} {calls : ℕ} {answers : ∀ q : Question, q.Answer}
    {model : Model} {cond : Condition} {log : List Event}
    (hcond : (r.buildCondition calls model).run answers = .ok (cond, log)) {order : String}
    {items : List OrderItem}
    (hitems : Yields (r.ctx.parseTotalOrder calls model model.table order) items) :
    ∀ value ∈ (Statement.ofOrder model.table cond items).splices,
      CarriesNonce r.ctx.sqlNonce value := by
  have hall := ExprCtx.parseTotalOrder_carries hitems
  refine carries_append.mpr ⟨?_, carries_append.mpr ⟨?_, ?_⟩⟩
  · intro value hvalue
    obtain ⟨join, hjoin, hvalue⟩ := List.mem_flatMap.mp hvalue
    obtain ⟨item, hitem, hjoin⟩ := List.mem_flatMap.mp (mem_of_mem_distinctJoins hjoin)
    refine hall item hitem value (List.mem_append_right _ ?_)
    exact List.mem_flatMap.mpr ⟨join, hjoin, hvalue⟩
  · exact Condition.carries_toPredicate (SearchRequest.buildCondition_carries hcond)
  · intro value hvalue
    obtain ⟨item, hitem, hvalue⟩ := List.mem_flatMap.mp hvalue
    exact hall item hitem value (List.mem_append_left _ hvalue)

/-! ## Some tasks -/

namespace Selected

def task : Model := plainModel "task" "task" [("id", Field.column "id" .Integer "int4" none)]

/-- The tasks that Python selected. -/
def selection : Json := .object [("$sql", .string "SELECT 1"), ("$nonce", .string "n")]

/-- What Python orders them by. -/
def ranking : Json := .object [("$sql", .string "SELECT 2"), ("$nonce", .string "n")]

/-- A request of Python's for the tasks of a selection, in an order of its own. -/
def request : SearchRequest where
  ctx := { ExprCtx.plain (plainRegistry [("task", task)]) (Security.plain [] []) none with
    sqlNonce := some "n", orderFragments := [ranking] }
  model := "task"
  domain := .array [.array [.string "id", .string "in", selection]]
  rules := RuleSet.empty
  su := true
  trusted := true
  rootActiveTest := true

/-- No hierarchy is asked for. -/
def answers : ∀ q : Question, q.Answer :=
  answersOf 10 request.ctx { table := fun _ => [], fragment := fun _ => [], server := Server.plain }
    (some (RuleSet.empty, false))

/-- The condition and the order of the request. -/
def selected : Condition :=
  Condition.all.add (Condition.all.addPredicate
    (.inSelect (.col "task" "id") (.fragment selection)))

def ranked : List OrderItem :=
  [{ expr := .fragment ranking "task", desc := true, nulls := none, joins := [] },
    ExprCtx.idItem "task"]

/-- The statement holds two comparands, which carry the nonce of the request. -/
theorem selection_carries_nonce :
    (Statement.ofOrder "task" selected ranked).splices = [selection, ranking] ∧
      ∀ value ∈ (Statement.ofOrder "task" selected ranked).splices,
        CarriesNonce (some "n") value := by
  obtain ⟨log, hcond⟩ : ∃ log, (request.buildCondition 10 task).run answers = .ok (selected, log) :=
    ⟨_, rfl⟩
  have hitems : Yields (request.ctx.parseTotalOrder 10 task "task" "$0 desc") ranked := ⟨_, rfl⟩
  exact ⟨rfl, splices_carry_nonce hcond hitems⟩

end Selected

end OdooKernel
