import OdooKernel.Core.Paging
import OdooKernel.Search.Flush
import OdooKernel.Search.Order

/-!
# The statement of a search

A search reads one table under the table's own name, the comodels that its order goes through joined
on the left, and orders what its condition selects.

**What the server may return.**  A statement does not say in which order rows that tie come back, so
what is returned is any page of any list that the order allows (`Statement.Returns`), and two pages
of one search may be pages of two lists.  `Statement.Pages` is what one wants of them all the same:
that no row is repeated, dropped or tied with another.

**Joins.**  A left join on the id neither repeats a row nor drops one where ids are unique
(`OrderJoin.extend_eq`), so that what a statement selects is the rows that match, each with one row
joined to it (`envs_eq_map`).

* `Statement`, `Statement.envs` — a statement, and the rows that it selects, with what is joined to
  each.
* `OrderItem.precedes` — the order of the rows.
* **`pages_of_id`** — where the order names the id of a table with unique ids, the pages are the
  rows.
-/

namespace OdooKernel

/-! ## Left joins -/

/-- A row of NULLs. -/
def absentRow : Row := fun _ => none

/-- The rows that a join finds. -/
def OrderJoin.found (db : Database) (join : OrderJoin) (env : Env) : List Row :=
  (db.table join.table).filter fun row =>
    IsTrue (compareData db.server .eq (join.source.eval db env) (row "id"))

/-- A row with each row that a join finds, or with NULLs. -/
def OrderJoin.extend (db : Database) (join : OrderJoin) (env : Env) : List Env :=
  match join.found db env with
  | [] => [env.bind join.aliasName absentRow]
  | rows => rows.map (env.bind join.aliasName)

/-- A row with all that is joined to it. -/
def joinAll (db : Database) : List OrderJoin → Env → List Env
  | [], env => [env]
  | join :: joins, env => (join.extend db env).flatMap (joinAll db joins)

/-- The joins of some items, each alias once. -/
def distinctJoins : List String → List OrderJoin → List OrderJoin
  | _, [] => []
  | joined, join :: joins =>
    if join.aliasName ∈ joined then distinctJoins joined joins
    else join :: distinctJoins (join.aliasName :: joined) joins

/-! ## Statements -/

/-- A statement over a table, under its own name. -/
structure Statement where
  table : String
  joins : List OrderJoin
  condition : Condition
  items : List OrderItem

/-- The statement of a search, with the joins of its order. -/
def Statement.ofOrder (table : String) (condition : Condition) (items : List OrderItem) :
    Statement where
  table := table
  joins := distinctJoins [] (items.flatMap (·.joins))
  condition := condition
  items := items

/-- What a row is ordered by, where the subqueries of the request are worth something for each row of
the model. -/
def OrderExpr.eval (db : Database) (resolved : Json → Row → Option Datum) :
    OrderExpr → Env → Option Datum
  | .value e, env => e.eval db env
  | .orFalse e, env => coalesce (e.eval db env) (some (.bool false))
  | .isNull e, env => some (.bool (e.eval db env).isNone)
  | .isNotNull e, env => some (.bool (e.eval db env).isSome)
  | .fragment query aliasName, env => resolved query (env aliasName)

/-- NULL is first where the term says so, or where it is descending and says nothing. -/
def OrderItem.nullsFirst (item : OrderItem) : Bool :=
  match item.nulls with
  | some .First => true
  | some .Last => false
  | none => item.desc

/-- One value is before another in the order of a term. -/
def OrderItem.before (server : Server) (item : OrderItem) : Option Datum → Option Datum → Bool
  | some x, some y => if item.desc then y.before server x else x.before server y
  | none, some _ => item.nullsFirst
  | some _, none => !item.nullsFirst
  | none, none => false

/-- One row is before another in the order of a term. -/
def OrderItem.precedes (db : Database) (resolved : Json → Row → Option Datum) (item : OrderItem)
    (env env' : Env) : Prop :=
  item.before db.server (item.expr.eval db resolved env) (item.expr.eval db resolved env') = true

namespace Statement

variable (s : Statement) (db : Database) (resolved : Json → Row → Option Datum)

/-- The server takes a statement only if its aliases are distinct. -/
def Accepted : Prop := s.table ∉ s.joins.map (·.aliasName)

/-- A row of the table, and nothing joined to it. -/
def rowEnv (row : Row) : Env := Env.bind (fun _ => absentRow) s.table row

/-- **The rows that a statement selects**, each with what is joined to it. -/
def envs : List Env :=
  ((db.table s.table).flatMap fun row => joinAll db s.joins (s.rowEnv row)).filter
    fun env => IsTrue (s.condition.toPredicate.eval db env)

/-- The keys that a statement is ordered by. -/
def keys : List (Env → Env → Prop) := s.items.map fun item => item.precedes db resolved

/-- **What the server may return** of a statement from an offset on, up to a limit. -/
def Returns (offset limit : ℕ) (page : List Env) : Prop :=
  IsPage (s.keys db resolved) (s.envs db) offset limit page

/-- The rows of the table that satisfy the condition by themselves. -/
def matching : List Row :=
  (db.table s.table).filter fun row => IsTrue (s.condition.toPredicate.eval db (s.rowEnv row))

/-- **A statement returns the rows that match**: none is repeated or dropped, no two tie, and pages of
one size, one after the other, are these rows. -/
structure Pages : Prop where
  once : (s.envs db).map (fun env => env s.table) = s.matching db
  nodup : (s.matching db).Nodup
  total : IsTotal (s.keys db resolved) (s.envs db)
  pages : ∀ (size n : ℕ) (pages : ℕ → List Env),
    (∀ i, s.Returns db resolved (i * size) size (pages i)) → (s.matching db).length ≤ n * size →
    (((List.range n).flatMap pages).map fun env => env s.table).Perm (s.matching db)

end Statement

/-! ## Unique ids -/

/-- The ids of the records of a database are numbers, each of one record. -/
def UniqueIds (registry : Registry) (db : Database) : Prop :=
  ∀ k m, registry.lookup k = some m →
    (∀ row ∈ db.table m.table, ∃ n : ℤ, row "id" = some (.int n)) ∧
      ((db.table m.table).map fun row => row "id").Nodup

/-- A join is of a model's table. -/
def OrderJoin.Known (registry : Registry) (join : OrderJoin) : Prop :=
  ∃ k m, registry.lookup k = some m ∧ m.table = join.table

section Joins

variable {registry : Registry} {db : Database} (hids : UniqueIds registry db)

lemma equals_comm (a b : Datum) : a.equals b = b.equals a := by
  unfold Datum.equals
  cases a.toRat? <;> cases b.toRat? <;> simp [eq_comm]

include hids

/-- Rows of a model that all have one id are one at most. -/
lemma one_row {k : String} {m : Model} (hm : registry.lookup k = some m) {rows : List Row}
    (hrows : rows.Sublist (db.table m.table))
    (hsame : ∀ row ∈ rows, ∀ row' ∈ rows, row "id" = row' "id") : rows = [] ∨ ∃ row, rows = [row] := by
  have hdistinct : (rows.map fun row => row "id").Nodup := (hids k m hm).2.sublist (hrows.map _)
  rcases rows with _ | ⟨row, _ | ⟨row', rows⟩⟩
  · exact .inl rfl
  · exact .inr ⟨row, rfl⟩
  · have hid := hsame row List.mem_cons_self row' (List.mem_cons_of_mem _ List.mem_cons_self)
    simp [hid] at hdistinct

/-- Two records whose ids equal one value have one id. -/
lemma id_eq_of_equal {k : String} {m : Model} (hm : registry.lookup k = some m) {x : Option Datum}
    {row row' : Row} (hrow : row ∈ db.table m.table) (hrow' : row' ∈ db.table m.table)
    (h : IsTrue (compareData db.server .eq x (row "id")))
    (h' : IsTrue (compareData db.server .eq x ( row' "id"))) : row "id" = row' "id" := by
  obtain ⟨n, hn⟩ := (hids k m hm).1 row hrow
  obtain ⟨n', hn'⟩ := (hids k m hm).1 row' hrow'
  cases x with
  | none => simp [compareData] at h
  | some d =>
      rw [hn] at h
      rw [hn'] at h'
      simp only [compareData, Comparison.holds, isTrue_some] at h h'
      rw [equals_comm] at h h'
      rw [hn, hn', Twins.int_eq_of_equals h h']

/-- A join finds one row at most. -/
lemma found_eq {join : OrderJoin} (hjoin : join.Known registry) (env : Env) :
    join.found db env = [] ∨ ∃ row, join.found db env = [row] := by
  obtain ⟨k, m, hm, htable⟩ := hjoin
  have hmem : ∀ row ∈ join.found db env, row ∈ db.table m.table ∧
      IsTrue (compareData db.server .eq (join.source.eval db env) (row "id")) := by
    intro row hrow
    obtain ⟨hrow, htrue⟩ := List.mem_filter.mp hrow
    exact ⟨htable ▸ hrow, of_decide_eq_true htrue⟩
  refine one_row hids hm ?_ fun row hrow row' hrow' => ?_
  · rw [htable]
    exact List.filter_sublist
  · exact id_eq_of_equal hids hm (hmem row hrow).1 (hmem row' hrow').1 (hmem row hrow).2
      (hmem row' hrow').2

/-- **A left join neither repeats a row nor drops one.** -/
lemma extend_eq {join : OrderJoin} (hjoin : join.Known registry) (env : Env) :
    ∃ row, join.extend db env = [env.bind join.aliasName row] := by
  unfold OrderJoin.extend
  rcases found_eq hids hjoin env with hfound | ⟨row, hfound⟩
  · exact ⟨absentRow, by rw [hfound]⟩
  · exact ⟨row, by rw [hfound]; rfl⟩

/-- Nor do several, and what they join does not touch the other aliases. -/
lemma joinAll_eq {joins : List OrderJoin} (hjoins : ∀ join ∈ joins, join.Known registry) :
    ∀ env : Env, ∃ env', joinAll db joins env = [env'] ∧
      ∀ aliasName ∉ joins.map (·.aliasName), env' aliasName = env aliasName := by
  induction joins with
  | nil => exact fun env => ⟨env, rfl, fun _ _ => rfl⟩
  | cons join joins ih =>
      intro env
      obtain ⟨row, hrow⟩ := extend_eq hids (hjoins join List.mem_cons_self) env
      obtain ⟨env', henv', hother⟩ :=
        ih (fun j hj => hjoins j (List.mem_cons_of_mem _ hj)) (env.bind join.aliasName row)
      refine ⟨env', ?_, fun aliasName hne => ?_⟩
      · rw [joinAll, hrow, List.flatMap_singleton, henv']
      · rw [List.map_cons, List.mem_cons, not_or] at hne
        rw [hother aliasName hne.2, Env.bind, Function.update_of_ne hne.1]

/-- Two records of a model with one id are one. -/
lemma row_eq_of_id {k : String} {m : Model} (hm : registry.lookup k = some m) {row row' : Row}
    (hrow : row ∈ db.table m.table) (hrow' : row' ∈ db.table m.table) (hid : row "id" = row' "id") :
    row = row' :=
  List.inj_on_of_nodup_map (hids k m hm).2 hrow hrow' hid

end Joins

/-! ## Where the order names the id -/

/-- Two ids that no direction puts in an order are one. -/
lemma int_eq_of_not_before {server : Server} {item : OrderItem} {m n : ℤ}
    (hmn : item.before server (some (.int m)) (some (.int n)) ≠ true)
    (hnm : item.before server (some (.int n)) (some (.int m)) ≠ true) : m = n := by
  have hbefore : ∀ i j : ℤ, (Datum.int i).before server (.int j) = true ↔ i < j := by
    intro i j
    simp only [Datum.before, Datum.toRat?, decide_eq_true_eq]
    exact_mod_cast Iff.rfl
  cases hdesc : item.desc <;> simp [OrderItem.before, hdesc, hbefore] at hmn hnm <;> omega

namespace Statement

variable {s : Statement} {registry : Registry} {db : Database}
  {resolved : Json → Row → Option Datum}

@[simp] lemma rowEnv_table (row : Row) : s.rowEnv row s.table = row := by simp [rowEnv, Env.bind]

/-- **What a statement selects is the rows that match, each with one row joined to it.** -/
lemma envs_eq_map (hids : UniqueIds registry db) (hjoins : ∀ join ∈ s.joins, join.Known registry)
    (haccepted : s.Accepted)
    (hscope : ∀ env env', env s.table = env' s.table →
      s.condition.toPredicate.eval db env = s.condition.toPredicate.eval db env') :
    ∃ f : Row → Env, (∀ row, f row s.table = row) ∧ s.envs db = (s.matching db).map f := by
  choose f hf hother using fun row => joinAll_eq hids hjoins (s.rowEnv row)
  have hroot : ∀ row, f row s.table = row := fun row => by rw [hother row s.table haccepted, rowEnv_table]
  refine ⟨f, hroot, ?_⟩
  have hsingle : ((db.table s.table).flatMap fun row => joinAll db s.joins (s.rowEnv row))
      = (db.table s.table).map f := by
    rw [← List.flatMap_pure_eq_map]
    exact List.flatMap_congr fun row _ => hf row
  rw [envs, hsingle, List.filter_map, matching]
  refine congrArg (List.map f) (List.filter_congr fun row _ => ?_)
  rw [Function.comp_apply, hscope (f row) (s.rowEnv row) (by rw [hroot, rowEnv_table])]

/-- **An order that names the id is total**: the pages are the rows. -/
theorem pages_of_id (hids : UniqueIds registry db) {k : String} {m : Model}
    (hm : registry.lookup k = some m) (htable : s.table = m.table)
    (hjoins : ∀ join ∈ s.joins, join.Known registry) (haccepted : s.Accepted)
    (hscope : ∀ env env', env s.table = env' s.table →
      s.condition.toPredicate.eval db env = s.condition.toPredicate.eval db env')
    (hid : ∃ item ∈ s.items, item.expr = .value (.col s.table "id")) :
    s.Pages db resolved := by
  obtain ⟨f, hroot, henvs⟩ := envs_eq_map hids hjoins haccepted hscope
  have hsub : ∀ row ∈ s.matching db, row ∈ db.table m.table := by
    intro row hrow
    rw [← htable]
    exact (List.mem_filter.mp hrow).1
  have htotal : IsTotal (s.keys db resolved) (s.envs db) := by
    intro a ha b hb htied
    rw [henvs] at ha hb
    obtain ⟨row, hrow, rfl⟩ := List.mem_map.mp ha
    obtain ⟨row', hrow', rfl⟩ := List.mem_map.mp hb
    obtain ⟨item, hitem, hexpr⟩ := hid
    obtain ⟨n, hn⟩ := (hids k m hm).1 row (hsub row hrow)
    obtain ⟨n', hn'⟩ := (hids k m hm).1 row' (hsub row' hrow')
    obtain ⟨hab, hba⟩ := htied _ (List.mem_map.mpr ⟨item, hitem, rfl⟩)
    simp only [OrderItem.precedes, hexpr, OrderExpr.eval, Expr.eval, hroot, hn, hn'] at hab hba
    have hrows : row = row' := row_eq_of_id hids hm (hsub row hrow) (hsub row' hrow')
      (by rw [hn, hn', int_eq_of_not_before hab hba])
    rw [hrows]
  have hmap : (s.envs db).map (fun env => env s.table) = s.matching db := by
    rw [henvs, List.map_map]
    simp [Function.comp_def, hroot]
  have hlength : (s.envs db).length = (s.matching db).length := by rw [henvs, List.length_map]
  exact
    { once := hmap
      nodup := by
        have hnodup := (hids k m hm).2.of_map
        rw [← htable] at hnodup
        exact hnodup.filter _
      total := htotal
      pages := fun size n pages hpages hn => by
        rw [← hmap]
        exact (pages_perm htotal hpages (by rwa [hlength])).map _ }

end Statement

end OdooKernel
