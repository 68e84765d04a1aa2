import OdooKernel.Compile.Membership

/-!
# The rows without a value of a company-dependent column

A row whose column is NULL reads the default of the company.  Its index has no entry for NULL, so the
compiler puts a guard in front that leaves these rows out, and does so only where the default fails
the condition.  It decides that on JSON values, before anything is bound.

**What the guard relies on** (`ReadsFallback`): the server reads a default back as it was given,
orders texts by their characters, and keeps the column in the type that the field says.

**Where it is right** (`GuardRight`): a comparand equals the default as JSON exactly if their values
are equal, and an ordering that fails of the one fails of the other.  There the guard changes
nothing, and elsewhere it loses rows that the condition selects (`guard_loses_default`: `true` is 1
to an integer column and not to JSON).

* `eval_unset` — such a row reads the default.
* `not_selects_iff` — the condition fails of it where the guard is right to think so.
* **`selects_guarded_iff`** — the guard changes nothing exactly where it is right.
-/

namespace OdooKernel

/-- A value that is converted to `jsonb` and back to its type is the same. -/
structure ReadBack (server : Server) (ty : String) (d : Datum) : Prop where
  json : server.ofJson ty (server.toJson d) = some d
  text : ((server.toJson d).firstText server).bind (server.ofText ty) = some d

namespace Compiler

variable (c : Compiler)

/-- The database of a company-dependent column: the column is `jsonb`, and never NULL where the
field says so; texts are ordered by their characters; the server reads the default back, and a
many2one's default is a record. -/
structure ReadsFallback (f : Field) (db : Database) (env : Env) : Prop where
  jsonb : f.pgType = "jsonb"
  apart : c.aliasName ≠ "e"
  notNull : f.notNull = true → env c.aliasName f.name ≠ none
  bytewise : ∀ a b, db.server.precedes a b = textBefore a b
  readsBack : ∀ v d, c.ctx.cdFallbackFor c.model f = some v → toValue f v = .ok d →
    ReadBack db.server (pgCastType f.ttype) d
  record : ∀ name co v d, f.ttype = .Many2one → f.comodel = .ok name →
    c.ctx.registry.get name = .ok co → c.ctx.cdFallbackFor c.model f = some v →
      toValue f v = .ok d → (∀ row ∈ db.table co.table, ∃ n : ℤ, row "id" = some (.int n)) ∧
        ∃ row ∈ db.table co.table, row "id" = some d

/-- A value equals itself. -/
lemma equals_self (d : Datum) : d.equals d = true := by
  unfold Datum.equals
  cases d.toRat? <;> simp

variable {c} {f : Field} {db : Database} {env : Env} {e : Expr}

/-- The first record with an id is one with that id. -/
lemma eval_record {co : Model} {x : Expr} {d : Datum}
    (hx : ∀ row, x.eval db (env.bind "e" row) = some d) (hint : ∃ n, d = .int n)
    (hids : ∀ row ∈ db.table co.table, ∃ n : ℤ, row "id" = some (.int n))
    (hrow : ∃ row ∈ db.table co.table, row "id" = some d) :
    (Expr.select (.from (.col "e" "id") co.table "e" [.compare .eq (.col "e" "id") x])).eval db env
      = some d := by
  have hrows : ∀ y, y ∈ (Select.from (.col "e" "id") co.table "e"
      [.compare .eq (.col "e" "id") x]).rows db env ↔
        ∃ row ∈ db.table co.table, IsTrue (compareData db.server .eq (row "id") (some d)) ∧
          row "id" = y := by
    intro y
    have hself : ∀ row, env.bind "e" row "e" = row := fun row => by simp [Env.bind]
    simp only [Select.rows, List.mem_filterMap, Predicate.evalAll, isTrue_all, List.mem_singleton,
      forall_eq, Option.ite_none_right_eq_some, Option.some.injEq, Predicate.eval, Expr.eval, hx,
      hself]
  have hsome : ∀ y ∈ (Select.from (.col "e" "id") co.table "e"
      [.compare .eq (.col "e" "id") x]).rows db env, y = some d := by
    intro y hy
    obtain ⟨row, hrow, htrue, rfl⟩ := (hrows y).mp hy
    obtain ⟨m, hm⟩ := hids row hrow
    obtain ⟨n, rfl⟩ := hint
    rw [hm] at htrue ⊢
    simpa [compareData, Comparison.holds, Datum.equals, Datum.toRat?] using htrue
  obtain ⟨row, hrow, hid⟩ := hrow
  have hmem : some d ∈ (Select.from (.col "e" "id") co.table "e"
      [.compare .eq (.col "e" "id") x]).rows db env := by
    refine (hrows _).mpr ⟨row, hrow, ?_, hid⟩
    rw [hid]
    simp [compareData, Comparison.holds, equals_self]
  rw [Expr.eval]
  cases hlist : (Select.from (.col "e" "id") co.table "e"
      [.compare .eq (.col "e" "id") x]).rows db env with
  | nil =>
      rw [hlist] at hmem
      cases hmem
  | cons y ys => exact hsome y (by simp [hlist])

/-- Without an id there is no record. -/
lemma eval_no_record {co : Model} {x : Expr} (hx : ∀ row, x.eval db (env.bind "e" row) = none) :
    (Expr.select (.from (.col "e" "id") co.table "e" [.compare .eq (.col "e" "id") x])).eval db env
      = none := by
  have hrows : (Select.from (.col "e" "id") co.table "e"
      [.compare .eq (.col "e" "id") x]).rows db env = [] := by
    refine List.eq_nil_iff_forall_not_mem.mpr fun y hy => ?_
    simp only [Select.rows, List.mem_filterMap, Predicate.evalAll, isTrue_all, List.mem_singleton,
      forall_eq, Option.ite_none_right_eq_some, Predicate.eval, hx] at hy
    obtain ⟨row, -, htrue, -⟩ := hy
    cases hid : (Expr.col "e" "id").eval db (env.bind "e" row) <;> simp [hid, compareData] at htrue
  rw [Expr.eval, hrows]
  rfl

/-- The value of a company that has none. -/
lemma eval_companyJson {aliasName column company ty : String} {fallback : Option Datum}
    (hnull : env aliasName column = none) :
    (Expr.companyJson (.col aliasName column) company ty fallback).eval db env =
      fallback.map fun d => .json (db.server.toJson d) := by
  simp [Expr.eval, companyValue, hnull]

/-- **A row whose column is NULL reads the default of the company.** -/
lemma eval_unset (hreads : c.ReadsFallback f db env) (hcd : f.companyDependent = true)
    (hfield : Yields (c.ctx.fieldExpr c.model f c.aliasName) e)
    (hnull : env c.aliasName f.name = none) :
    (comparedExpr f e).eval db env = none ∧ c.ctx.cdFallbackFor c.model f = none ∨
      ∃ v d, c.ctx.cdFallbackFor c.model f = some v ∧ toValue f v = .ok d ∧
        (comparedExpr f e).eval db env = some d := by
  have hcompared : comparedExpr f e = e := by
    rw [comparedExpr, hreads.jsonb]
    rfl
  have hbind : ∀ row, env.bind "e" row c.aliasName f.name = none := by
    intro row
    rw [Env.bind, Function.update_of_ne hreads.apart, hnull]
  rw [hcompared]
  unfold ExprCtx.fieldExpr at hfield
  cases hcolumn : f.hasColumn with
  | false => simp [hcolumn] at hfield
  | true =>
      simp only [hcolumn, Bool.not_true, Bool.false_eq_true, if_false, hcd, if_true, yields_bind,
        yields_touch, true_and, exists_const, liftM_eq_ofResult, yields_ofResult] at hfield
      unfold ExprCtx.companyDependentExpr at hfield
      cases hcdf : c.ctx.cdFallbackFor c.model f with
      | none =>
          simp only [hcdf] at hfield
          refine .inl ⟨?_, rfl⟩
          obtain ⟨-, ⟨⟩, hfield⟩ := bind_eq_ok.mp hfield
          cases ht : f.ttype <;> rw [ht] at hfield
          case Many2one =>
            obtain ⟨name, -, hfield⟩ := bind_eq_ok.mp hfield
            obtain ⟨co, -, hfield⟩ := bind_eq_ok.mp hfield
            cases hfield
            refine eval_no_record fun row => ?_
            rw [Expr.eval, eval_companyJson (hbind row)]
            rfl
          all_goals
            cases hfield
            rw [Expr.eval, eval_companyJson hnull]
            rfl
      | some v =>
          simp only [hcdf] at hfield
          obtain ⟨fallback, hfallback, hfield⟩ := bind_eq_ok.mp hfield
          obtain ⟨d, hd, rfl⟩ := map_eq_ok.mp hfallback
          refine .inr ⟨v, d, rfl, hd, ?_⟩
          obtain ⟨hjson, htext⟩ := hreads.readsBack v d hcdf hd
          cases ht : f.ttype <;> rw [ht] at hfield hjson htext
          case Many2one =>
            obtain ⟨name, hname, hfield⟩ := bind_eq_ok.mp hfield
            obtain ⟨co, hco, hfield⟩ := bind_eq_ok.mp hfield
            cases hfield
            obtain ⟨hids, hrow⟩ := hreads.record name co v d ht hname hco hcdf hd
            have hint : ∃ n, d = .int n := by
              obtain ⟨n, -, -, hn⟩ := (toValue_int (by rw [ht]; rfl)).mp hd
              exact ⟨n, hn⟩
            refine eval_record (fun row => ?_) hint hids hrow
            rw [Expr.eval, eval_companyJson (hbind row)]
            exact htext
          case Boolean | Integer | Float | Monetary =>
            cases hfield
            rw [Expr.eval, eval_companyJson hnull]
            exact hjson
          all_goals
            cases hfield
            rw [Expr.eval, eval_companyJson hnull]
            exact htext

/-! ## Where the guard is right -/

variable {op : String} {values : List Json} {cond guarded : Predicate}

variable (c f op values) in
/-- **Where the guard is right.**  For a membership, a comparand is equal to the default as JSON, or
as unset as it, exactly if one of the values compared is its value; an ordering that fails of the
default as JSON fails of its value. -/
def GuardRight : Prop :=
  match c.ctx.cdFallbackFor c.model f with
  | some v =>
    (op = "in" → (∃ w ∈ (memberParams f values).1, SameValue f w v) →
      c.fallbackSatisfies f "in" values = true) ∧
    (op = "not in" → c.fallbackSatisfies f "in" values = true →
      ∃ w ∈ (memberParams f values).1, SameValue f w v) ∧
    (isOrdering op = true → ∀ w ∈ values.head?, jsonCmpOp v w op = some false →
      ∀ x y, toValue f v = .ok x → toValue f w = .ok y → (orderingOf op).holds .plain x y = false)
  | none => op = "not in" → c.fallbackSatisfies f "in" values = true →
      (memberParams f values).2 = true

/-- The default is a comparand's value. -/
lemma compared_some {v : Json} {d : Datum} (hd : toValue f v = .ok d) :
    Compared f values (some d) ↔ ∃ w ∈ (memberParams f values).1, SameValue f w v := by
  have hvalue : ∀ w, IsValue f w d ↔ SameValue f w v := by
    intro w
    constructor
    · rintro ⟨x, hx, heq⟩
      have hsame := eq_of_equals (converts_of_toValue hx) (converts_of_toValue hd) heq
      exact ⟨⟨x, hx⟩, by rw [hx, hd, hsame]⟩
    · rintro ⟨-, heq⟩
      exact ⟨d, heq.trans hd, equals_self d⟩
  simp [Compared, hvalue]

lemma compared_unset : Compared f values none ↔ (memberParams f values).2 = true := by
  simp [Compared]

lemma jsonEq_self (v : Json) : jsonEq v v = true := by
  unfold jsonEq
  cases v.asF64 <;> simp

variable (c f) in
/-- The default as the guard compares it. -/
def guardFallback : Json := ((c.ctx.cdFallbackFor c.model f).orElse fun _ => f.falsyJson).getD .null

variable (f) in
/-- A comparand that the guard takes for unset. -/
def unsetJson (v : Json) : Bool := isNullLike v || f.falsyJson.any (jsonEq · v)

lemma fallbackSatisfies_in : c.fallbackSatisfies f "in" values = true ↔
    ∃ v ∈ values, (unsetJson f v = true ∧ unsetJson f (c.guardFallback f) = true) ∨
      jsonEq v (c.guardFallback f) = true := by
  simp [fallbackSatisfies, unsetJson, guardFallback]

lemma fallbackSatisfies_not_in :
    c.fallbackSatisfies f "not in" values = !c.fallbackSatisfies f "in" values := by
  simp [fallbackSatisfies]

/-- Where NULL is compared, a comparand is as unset as a default that is not given. -/
lemma satisfies_of_unset (hcdf : c.ctx.cdFallbackFor c.model f = none)
    (h : (memberParams f values).2 = true) : c.fallbackSatisfies f "in" values = true := by
  rw [fallbackSatisfies_in]
  have hfallback : c.guardFallback f = f.falsyJson.getD .null := by
    rw [guardFallback, hcdf]
    rfl
  have hunset : unsetJson f (c.guardFallback f) = true := by
    rw [hfallback]
    cases hf : f.falsyJson <;> simp [unsetJson, hf, isNullLike, jsonEq_self]
  have hnull : (∃ v ∈ values, isNullLike v = true) →
      ∃ v ∈ values, (unsetJson f v = true ∧ unsetJson f (c.guardFallback f) = true) ∨
        jsonEq v (c.guardFallback f) = true := by
    rintro ⟨v, hv, hnull⟩
    exact ⟨v, hv, .inl ⟨by simp [unsetJson, hnull], hunset⟩⟩
  unfold memberParams at h
  cases hf : f.falsyJson with
  | none =>
      rw [hf] at h
      exact hnull (unset_of_given.mp h)
  | some falsy =>
      rw [hf] at h
      dsimp only at h
      split_ifs at h with hbool hun hlisted hun
      · exact hnull (unset_of_given.mp h)
      · exact hnull (unset_of_given.mp h)
      · obtain ⟨v, hv, heq⟩ := List.any_eq_true.mp hlisted
        refine ⟨v, List.mem_of_mem_filter hv, .inr ?_⟩
        rw [hfallback, hf]
        exact heq
      · exact hnull (unset_of_given.mp hun)

/-! ## Orderings -/

/-- An ordering selects the values that satisfy it, and NULL where the falsy value does. -/
lemma selects_inequality {value : Json} {canBeNull : Bool}
    (h : inequalityCondition f e op value canBeNull = .ok cond) (db : Database) (env : Env) :
    ∃ x comparand, toValue f value = .ok x ∧ orderComparand f value = .ok comparand ∧
      (Selects db env cond ↔
        (∃ d ∈ e.eval db env, (orderingOf op).holds db.server d x = true) ∨
          (e.eval db env = none ∧ canBeNull = true ∧
            ∃ falsy ∈ f.falsyJson, jsonCmpOp falsy comparand op = some true)) := by
  unfold inequalityCondition at h
  split_ifs at h
  · simp at h
  · obtain ⟨comparand, hcomparand, h⟩ := bind_eq_ok.mp h
    obtain ⟨x, hx, h⟩ := bind_eq_ok.mp h
    refine ⟨x, comparand, hx, hcomparand, ?_⟩
    have haccept : (f.falsyJson.any fun falsy =>
        canBeNull && (jsonCmpOp falsy comparand op).getD false) = true ↔
        canBeNull = true ∧ ∃ falsy ∈ f.falsyJson, jsonCmpOp falsy comparand op = some true := by
      cases f.falsyJson with
      | none => simp
      | some falsy => cases hcmp : jsonCmpOp falsy comparand op <;> simp [hcmp]
    have hcompare : Selects db env (.compare (orderingOf op) e (.val x)) ↔
        ∃ d ∈ e.eval db env, (orderingOf op).holds db.server d x = true := by
      rw [Selects, Predicate.eval, Expr.eval]
      cases e.eval db env <;> simp [compareData]
    rw [← haccept]
    cases h
    split_ifs with hnull
    · rw [selects_or, hcompare, selects_isNull, hnull]
      simp
    · rw [hcompare, Bool.eq_false_iff.mpr hnull]
      simp

/-- A default that is not given orders before or after a comparand as the falsy value does. -/
lemma not_accepted_of_fallback (hcdf : c.ctx.cdFallbackFor c.model f = none) {w comparand : Json}
    (hcomparand : orderComparand f w = .ok comparand)
    (hfails : jsonCmpOp (c.guardFallback f) w op = some false) :
    ¬ ∃ falsy ∈ f.falsyJson, jsonCmpOp falsy comparand op = some true := by
  rintro ⟨falsy, hfalsy, htrue⟩
  have hfallback : c.guardFallback f = falsy := by
    rw [guardFallback, hcdf, hfalsy]
    rfl
  rw [hfallback] at hfails
  by_cases hsame : comparand = w
  · rw [hsame, hfails] at htrue
    cases htrue
  · -- a number that orders as a text, against a falsy value that orders with the number
    have hnumber : ∃ n s, w = .number n ∧ comparand = .string s := by
      cases w with
      | number n =>
          unfold orderComparand at hcomparand
          dsimp only at hcomparand
          split_ifs at hcomparand
          · obtain ⟨s, -, rfl⟩ := map_eq_ok.mp hcomparand
            exact ⟨n, s, rfl, rfl⟩
          · cases hcomparand
            exact absurd rfl hsame
      | null | bool | string | array | object =>
          cases hcomparand
          exact absurd rfl hsame
    obtain ⟨n, s, rfl, rfl⟩ := hnumber
    cases falsy <;> simp [jsonCmpOp, jsonOrdering, Json.asF64] at hfails htrue

/-! ## The guard -/

/-- The order of the values of a server that compares texts by their characters. -/
lemma holds_bytewise {server : Server} (h : ∀ a b, server.precedes a b = textBefore a b)
    (x y : Datum) (o : Comparison) : o.holds server x y = o.holds .plain x y := by
  have hbefore : ∀ a b : Datum, a.before server b = a.before .plain b := by
    intro a b
    unfold Datum.before
    cases a <;> cases b <;> simp [Datum.toRat?, Datum.rank?, h, Server.plain, textBefore]
  cases o <;> simp [Comparison.holds, hbefore]

/-- The guard's condition, by what it finds of the default. -/
lemma companyDependentGuard_yields (hcd : f.companyDependent = true)
    (hindex : f.index = some "btree_not_null")
    (h : Yields (c.companyDependentGuard f op values cond) guarded) :
    guarded = if c.fallbackSatisfies f op values then cond
      else .and (.isNotNull (.col c.aliasName f.name)) cond := by
  unfold companyDependentGuard at h
  rw [if_neg (by simp [hcd, hindex])] at h
  split_ifs at h ⊢ with hsatisfies
  · exact (yields_pure.mp h).symm
  · obtain ⟨-, -, h⟩ := yields_bind.mp h
    exact (yields_pure.mp h).symm

/-- An index of the trigrams is another one. -/
lemma accelerator_eq_none (hindex : f.index = some "btree_not_null") {acc : Option Predicate}
    (h : Yields (c.trigramAcceleratorForValue f values) acc) : acc = none := by
  have hother : c.trigramIndexed f = false := by
    simp [trigramIndexed, hindex]
  unfold trigramAcceleratorForValue at h
  split at h
  · rw [hother, Bool.not_false, Bool.true_or, if_pos rfl] at h
    exact (yields_pure.mp h).symm
  · exact (yields_pure.mp h).symm

/-- What the guard decides of an operator. -/
lemma operator_cases (hcond : Yields (c.operatorCondition f e op values) cond)
    (h : c.fallbackSatisfies f op values = false) :
    (op = "in" ∧ inCondition f e "in" values (!f.notNull) = .ok cond) ∨
      (op = "not in" ∧ inCondition f e "not in" values (!f.notNull) = .ok cond) ∨
      (isOrdering op = true ∧ ∃ w, values.head? = some w ∧
        jsonCmpOp (c.guardFallback f) w op = some false ∧
        inequalityCondition f e op w (!f.notNull) = .ok cond) := by
  unfold operatorCondition at hcond
  by_cases hin : op = "in"
  · subst hin
    rw [if_pos (.inl rfl), liftM_eq_ofResult, yields_ofResult] at hcond
    exact .inl ⟨rfl, hcond⟩
  by_cases hnotIn : op = "not in"
  · subst hnotIn
    rw [if_pos (.inr rfl), liftM_eq_ofResult, yields_ofResult] at hcond
    exact .inr (.inl ⟨rfl, hcond⟩)
  rw [if_neg (by tauto)] at hcond
  unfold fallbackSatisfies at h
  rw [if_neg hin, if_neg hnotIn] at h
  split_ifs at h with hordering
  · refine .inr (.inr ⟨hordering, ?_⟩)
    have hlike : endsWith "like" op = false := by
      simp only [isOrdering, List.mem_cons, List.not_mem_nil, or_false, decide_eq_true_eq] at hordering
      rcases hordering with rfl | rfl | rfl | rfl <;> decide +kernel
    cases hhead : values.head? with
    | none => simp [hhead] at h
    | some w =>
        have hvalue : values.headD .null = w := by
          rw [List.headD_eq_head?_getD, hhead]
          rfl
        rw [hlike, hvalue] at hcond
        split_ifs at hcond with hbool hno
        · simp at hcond
        · cases hno
        · rw [liftM_eq_ofResult, yields_ofResult] at hcond
          refine ⟨w, rfl, ?_, hcond⟩
          rw [hhead, Option.bind_some] at h
          change (jsonCmpOp (c.guardFallback f) w op).getD true = false at h
          cases hcmp : jsonCmpOp (c.guardFallback f) w op with
          | none => simp [hcmp] at h
          | some b => simpa [hcmp] using h

/-- The guard is right where it leaves the condition as it is. -/
lemma guardRight_of_satisfies (h : c.fallbackSatisfies f op values = true) :
    c.GuardRight f op values := by
  unfold GuardRight
  cases hcdf : c.ctx.cdFallbackFor c.model f with
  | none =>
      rintro rfl hin
      rw [fallbackSatisfies_not_in, hin] at h
      cases h
  | some v =>
      refine ⟨?_, ?_, ?_⟩
      · rintro rfl -
        exact h
      · rintro rfl hin
        rw [fallbackSatisfies_not_in, hin] at h
        cases h
      · intro hordering w hw hfails
        have hin : op ≠ "in" := by
          rintro rfl
          revert hordering
          decide
        have hnotIn : op ≠ "not in" := by
          rintro rfl
          revert hordering
          decide
        rw [fallbackSatisfies, if_neg hin, if_neg hnotIn, if_pos hordering, hw, Option.bind_some] at h
        simp [hcdf, hfails] at h

/-- Of a row that reads the default, the condition fails where the guard is right to think so. -/
lemma not_selects_iff (hcd : f.companyDependent = true)
    (hfield : Yields (c.ctx.fieldExpr c.model f c.aliasName) e)
    (hcond : Yields (c.operatorCondition f (comparedExpr f e) op values) cond)
    (hreads : c.ReadsFallback f db env) (hnull : env c.aliasName f.name = none)
    (h : c.fallbackSatisfies f op values = false) :
    ¬ Selects db env cond ↔ c.GuardRight f op values := by
  have hnullable : (!f.notNull) = false → (comparedExpr f e).eval db env ≠ none := by
    intro hnot
    exact absurd hnull (hreads.notNull (by simpa using hnot))
  have hfallback : ∀ v, c.ctx.cdFallbackFor c.model f = some v → c.guardFallback f = v := by
    intro v hv
    rw [guardFallback, hv]
    rfl
  rcases operator_cases hcond h with ⟨rfl, hin⟩ | ⟨rfl, hin⟩ | ⟨hordering, w, hw, hfails, hineq⟩
  · -- a membership that the default is not found in
    rw [inCondition_selects (.inl rfl) hin hnullable]
    rcases eval_unset hreads hcd hfield hnull with ⟨heval, hcdf⟩ | ⟨v, d, hcdf, hd, heval⟩
    · have hno : (memberParams f values).2 ≠ true := by
        intro hyes
        rw [satisfies_of_unset hcdf hyes] at h
        cases h
      simp [heval, compared_unset, GuardRight, hcdf, hno]
    · simp [heval, compared_some hd, GuardRight, hcdf, h, isOrdering]
  · have hmatches : c.fallbackSatisfies f "in" values = true := by
      rw [fallbackSatisfies_not_in] at h
      simpa using h
    rw [inCondition_selects (.inr rfl) hin hnullable]
    rcases eval_unset hreads hcd hfield hnull with ⟨heval, hcdf⟩ | ⟨v, d, hcdf, hd, heval⟩
    · simp [heval, compared_unset, GuardRight, hcdf, hmatches]
    · simp [heval, compared_some hd, GuardRight, hcdf, hmatches, isOrdering]
  · have hin : op ≠ "in" := by
      rintro rfl
      revert hordering
      decide
    have hnotIn : op ≠ "not in" := by
      rintro rfl
      revert hordering
      decide
    obtain ⟨x, comparand, hx, hcomparand, hselects⟩ := selects_inequality hineq db env
    rw [hselects]
    rcases eval_unset hreads hcd hfield hnull with ⟨heval, hcdf⟩ | ⟨v, d, hcdf, hd, heval⟩
    · have hno := not_accepted_of_fallback hcdf hcomparand hfails
      refine iff_of_true ?_ ?_
      · rintro (⟨d, hd, -⟩ | ⟨-, -, hyes⟩)
        · rw [heval] at hd
          cases hd
        · exact hno hyes
      · rw [GuardRight, hcdf]
        exact fun hop => absurd hop hnotIn
    · rw [hfallback v hcdf] at hfails
      have hright : c.GuardRight f op values ↔ (orderingOf op).holds .plain d x = false := by
        rw [GuardRight, hcdf]
        constructor
        · rintro ⟨-, -, hvalues⟩
          exact hvalues hordering w hw hfails d x hd hx
        · intro hholds
          refine ⟨fun hop => absurd hop hin, fun hop => absurd hop hnotIn, ?_⟩
          intro _ w' hw' _ y z hy hz
          rw [hw, Option.mem_some_iff] at hw'
          subst hw'
          rw [hd, Except.ok.injEq] at hy
          rw [hx, Except.ok.injEq] at hz
          rw [← hy, ← hz]
          exact hholds
      rw [hright, ← holds_bytewise hreads.bytewise]
      simp [heval]

/-- **The guard changes nothing exactly where it is right**, and nothing of a row with a value. -/
theorem selects_guarded_iff {leaf : Leaf} (hcd : f.companyDependent = true)
    (hindex : f.index = some "btree_not_null") (hleaf : memberForm leaf = .ok (some (op, values)))
    (hfield : Yields (c.ctx.fieldExpr c.model f c.aliasName) e)
    (hcond : Yields (c.operatorCondition f (comparedExpr f e) op values) cond)
    (hguarded : Yields (c.columnCondition f leaf) guarded) (hreads : c.ReadsFallback f db env) :
    (Selects db env guarded ↔ Selects db env cond) ↔
      (env c.aliasName f.name = none → c.GuardRight f op values) := by
  have hguard : guarded = if c.fallbackSatisfies f op values then cond
      else .and (.isNotNull (.col c.aliasName f.name)) cond := by
    unfold columnCondition at hguarded
    obtain ⟨form, hform, hguarded⟩ := yields_bind.mp hguarded
    rw [liftM_eq_ofResult, yields_ofResult, hleaf, Except.ok.injEq] at hform
    subst hform
    obtain ⟨e', he', hguarded⟩ := yields_bind.mp hguarded
    obtain ⟨cond', hcond', hguarded⟩ := yields_bind.mp hguarded
    obtain ⟨acc, hacc, hguarded⟩ := yields_bind.mp hguarded
    rw [accelerator_eq_none hindex hacc] at hguarded
    rw [he'.unique hfield] at hcond'
    rw [hcond'.unique hcond] at hguarded
    have hplain : (if op = "in" then accelerated none cond else cond) = cond := by
      split_ifs <;> rfl
    rw [hplain] at hguarded
    exact companyDependentGuard_yields hcd hindex hguarded
  cases hsatisfies : c.fallbackSatisfies f op values with
  | true =>
      rw [hsatisfies, if_pos rfl] at hguard
      rw [hguard]
      exact iff_of_true Iff.rfl fun _ => guardRight_of_satisfies hsatisfies
  | false =>
      rw [hsatisfies, if_neg Bool.false_ne_true] at hguard
      rw [hguard, selects_and, selects_isNotNull]
      have hcol : (Expr.col c.aliasName f.name).eval db env = env c.aliasName f.name := by
        rw [Expr.eval]
      rw [hcol]
      by_cases hnull : env c.aliasName f.name = none
      · simp only [hnull, ne_eq, not_true_eq_false, false_and, false_iff, true_implies]
        exact not_selects_iff hcd hfield hcond hreads hnull hsatisfies
      · exact iff_of_true (and_iff_right hnull) fun h => absurd h hnull

end Compiler

/-! ## A priority that is set for the company -/

namespace Priority

/-- A number for each company, one by default. -/
def priority : Field :=
  { Field.column "priority" .Integer "jsonb" (some (.number (.int 0))) with
    companyDependent := true
    index := some "btree_not_null"
    cdFallback := some (.number (.int 1)) }

def partner : Model := plainModel "res.partner" "res_partner" [("priority", priority)]

def compiler : Compiler :=
  .root (.plain (plainRegistry [("res.partner", partner)]) (Security.plain [] []) none) partner .empty
    true

/-- The server, as far as it converts integers. -/
def server : Server :=
  { Server.plain with
    toJson := fun
      | .int n => .number (.int n)
      | _ => .null
    ofJson := fun _ j => j.asI64.map .int
    ofText := fun _ s => (readInteger s.toList).map .int
    numberText := fun
      | .int n => toString n
      | .float _ => "" }

def database : Database where
  table _ := []
  fragment _ := []
  server := server

/-- A partner without a priority of its own. -/
def unset : Env := fun _ _ => none

lemma readsFallback : compiler.ReadsFallback priority database unset where
  jsonb := rfl
  apart := by decide
  notNull h := by cases h
  bytewise _ _ := rfl
  readsBack v d hv hd := by
    cases hv
    cases hd
    exact ⟨rfl, by decide +kernel⟩
  record name co v d hm := by cases hm

/-- The priority, out of its `jsonb`. -/
def expr : Expr :=
  .castJson (.companyJson (.col "res_partner" "priority") "1" "int4" (some (.int 1))) "int4"

/-- A leaf that compares the priority with some values. -/
def leaf (values : List Json) : Leaf := { field := "priority", op := "in", value := .array values }

lemma field_yields : Yields (compiler.ctx.fieldExpr partner priority "res_partner") expr :=
  ⟨_, rfl⟩

lemma eval_expr : expr.eval database unset = some (.int 1) := rfl

/-- The default is 1, and so is `true` to an integer column, but not as JSON. -/
theorem guard_loses_default : ∃ cond guarded,
    Yields (compiler.operatorCondition priority (Compiler.comparedExpr priority expr) "in"
      [.bool true]) cond ∧
      Yields (compiler.columnCondition priority (leaf [.bool true])) guarded ∧
      compiler.ReadsFallback priority database unset ∧
      Selects database unset cond ∧ ¬ Selects database unset guarded := by
  refine ⟨.isIn expr [.int 1],
    .and (.isNotNull (.col "res_partner" "priority")) (.isIn expr [.int 1]), ⟨_, rfl⟩, ⟨_, rfl⟩,
    readsFallback, ?_, ?_⟩
  · rw [Selects, Predicate.eval, eval_expr]
    decide
  · rw [selects_and, selects_isNotNull]
    exact fun h => h.1 rfl

/-- A guard that leaves out the partners whose default is another one. -/
theorem guard_keeps_others :
    Selects database unset
        (.and (.isNotNull (.col "res_partner" "priority")) (.isIn expr [.int 2])) ↔
      Selects database unset (.isIn expr [.int 2]) := by
  have hcond : Yields (compiler.operatorCondition priority (Compiler.comparedExpr priority expr) "in"
      [.number (.int 2)]) (.isIn expr [.int 2]) := ⟨_, rfl⟩
  have hguarded : Yields (compiler.columnCondition priority (leaf [.number (.int 2)]))
      (.and (.isNotNull (.col "res_partner" "priority")) (.isIn expr [.int 2])) := ⟨_, rfl⟩
  have hright : compiler.GuardRight priority "in" [.number (.int 2)] := by
    refine ⟨fun _ h => ?_, fun hop => absurd hop (by decide), fun hop => absurd hop (by decide)⟩
    obtain ⟨w, hw, -, hsame⟩ := h
    rcases List.mem_singleton.mp (show w ∈ [Json.number (.int 2)] from hw) with rfl
    exact absurd hsame (by decide)
  exact (Compiler.selects_guarded_iff rfl rfl rfl field_yields hcond hguarded readsFallback).mpr
    fun _ => hright

end Priority

end OdooKernel
