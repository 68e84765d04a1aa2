import OdooKernel.Search.ReadGroup

/-!
# The groups of a grouping are its records

A grouping joins what it groups by to each record.  A join that finds by an id finds one row at most,
so that the rows that are grouped are the records, each once, and each record is in one group.  The
relation table of a many2many is the exception: a grouping by one has a record once for each of its
links, and is no subject of this module.

* `HopJoin.ById` — a join that finds by an id; `hopAll_eq`.
* `many2oneHopJoin_byId` — the joins on the way to a field are such joins, with their rules.
* `GroupStatement.envs_eq_map` — what is grouped is the records that match, each with one row.
-/

namespace OdooKernel

/-! ## Joins on an id -/

/-- A join finds by an id: a row that it finds has the value of some column before it as its id. -/
def HopJoin.ById (registry : Registry) (join : HopJoin) : Prop :=
  ∃ k m source column, registry.lookup k = some m ∧ m.table = join.table ∧ source ≠ join.aliasName ∧
    ∀ (db : Database) (env : Env), Condition.Holds db env join.on →
      IsTrue (compareData db.server .eq (env source column) (env join.aliasName "id"))

section Joins

variable {registry : Registry} {db : Database} (hids : UniqueIds registry db)

include hids

/-- **A join on an id neither repeats a row nor drops one.** -/
lemma hopExtend_eq {join : HopJoin} (hjoin : join.ById registry) (env : Env) :
    ∃ row, join.extend db env = [env.bind join.aliasName row] := by
  obtain ⟨k, m, source, column, hm, htable, hne, hid⟩ := hjoin
  have hmem : ∀ row ∈ join.found db env, row ∈ db.table m.table ∧
      IsTrue (compareData db.server .eq (env source column) (row "id")) := by
    intro row hrow
    obtain ⟨hrow, htrue⟩ := List.mem_filter.mp hrow
    have hon := of_decide_eq_true htrue
    have hequal := hid db (env.bind join.aliasName row) hon
    rw [Env.bind, Function.update_self, Function.update_of_ne hne] at hequal
    exact ⟨htable ▸ hrow, hequal⟩
  have hfound : join.found db env = [] ∨ ∃ row, join.found db env = [row] := by
    refine one_row hids hm ?_ fun row hrow row' hrow' => ?_
    · rw [htable]
      exact List.filter_sublist
    · exact id_eq_of_equal hids hm (hmem row hrow).1 (hmem row' hrow').1 (hmem row hrow).2
        (hmem row' hrow').2
  unfold HopJoin.extend
  rcases hfound with hfound | ⟨row, hfound⟩
  · exact ⟨absentRow, by rw [hfound]⟩
  · exact ⟨row, by rw [hfound]; rfl⟩

/-- Nor do several. -/
lemma hopAll_eq {joins : List HopJoin} (hjoins : ∀ join ∈ joins, join.ById registry) :
    ∀ env : Env, ∃ env', hopAll db joins env = [env'] ∧
      ∀ aliasName ∉ joins.map (·.aliasName), env' aliasName = env aliasName := by
  induction joins with
  | nil => exact fun env => ⟨env, rfl, fun _ _ => rfl⟩
  | cons join joins ih =>
      intro env
      obtain ⟨row, hrow⟩ := hopExtend_eq hids (hjoins join List.mem_cons_self) env
      obtain ⟨env', henv', hother⟩ :=
        ih (fun j hj => hjoins j (List.mem_cons_of_mem _ hj)) (env.bind join.aliasName row)
      refine ⟨env', ?_, fun aliasName hne => ?_⟩
      · rw [hopAll, hrow, List.flatMap_singleton, henv']
      · rw [List.map_cons, List.mem_cons, not_or] at hne
        rw [hother aliasName hne.2, Env.bind, Function.update_of_ne hne.1]

end Joins

/-! ## The joins on the way to a field -/

namespace Compiler

variable {c : Compiler} {again : Compiler → Node → Compile Condition}

/-- The alias of a join is not that of what it joins to. -/
lemma joinAlias_ne (field : Field) : c.aliasName ≠ c.joinAlias field := by
  intro h
  have hlength := congrArg (fun s : String => s.toList.length) h
  simp [joinAlias] at hlength

/-- **The join of the comodel of a many2one finds by its id.** -/
lemma many2oneHopJoin_byId {field : Field} {co : Model} {coalias : String} {on : Condition}
    (h : Yields (c.many2oneHopJoin again field) (co, coalias, on)) :
    HopJoin.ById c.ctx.registry { table := co.table, aliasName := coalias, on } := by
  unfold many2oneHopJoin at h
  split at h
  · simp at h
  split at h
  · simp at h
  simp only [liftM_eq_ofResult, yields_bind, yields_ofResult, yields_pure, Prod.mk.injEq] at h
  obtain ⟨k, -, co', hco, rules, -, -, -, rfl, rfl, rfl⟩ := h
  refine ⟨k, _, c.aliasName, field.name, Twins.registry_get_eq_ok.mp hco, rfl, joinAlias_ne field, ?_⟩
  intro db env hon
  have hbase := ((holds_foldl_add rfl).mp hon).1
  exact ((holds_addPredicate rfl _).mp hbase).2

end Compiler

/-! ## What is grouped -/

namespace GroupStatement

variable {s : GroupStatement} {engine : Engine} {registry : Registry} {db : Database}

/-- The rows of the table that satisfy the condition by themselves. -/
def matching (s : GroupStatement) (db : Database) : List Row :=
  (db.table s.table).filter fun row => IsTrue (s.condition.toPredicate.eval db (s.rowEnv row))

@[simp] lemma rowEnv_table (row : Row) : s.rowEnv row s.table = row := by simp [rowEnv, Env.bind]

/-- **What is grouped is the rows that match, each with one row joined to it.** -/
lemma envs_eq_map (hids : UniqueIds registry db) (hhops : ∀ join ∈ s.hops, join.ById registry)
    (hjoins : ∀ join ∈ s.joins, join.Known registry) (haccepted : s.Accepted)
    (hscope : ∀ env env', env s.table = env' s.table →
      s.condition.toPredicate.eval db env = s.condition.toPredicate.eval db env') :
    ∃ f : Row → Env, s.envs db = (s.matching db).map f := by
  choose g hg hgother using fun env => hopAll_eq hids hhops env
  choose f hf hfother using fun env => joinAll_eq hids hjoins env
  have htable : s.table ∉ s.hops.map (·.aliasName) ∧ s.table ∉ s.joins.map (·.aliasName) := by
    rw [Accepted, List.cons_append, List.nodup_cons, List.mem_append, not_or] at haccepted
    exact haccepted.1
  have hroot : ∀ row, f (g (s.rowEnv row)) s.table = row := fun row => by
    rw [hfother _ _ htable.2, hgother _ _ htable.1, rowEnv_table]
  refine ⟨fun row => f (g (s.rowEnv row)), ?_⟩
  have hsingle : ((db.table s.table).flatMap fun row =>
      (hopAll db s.hops (s.rowEnv row)).flatMap (joinAll db s.joins))
        = (db.table s.table).map fun row => f (g (s.rowEnv row)) := by
    rw [← List.flatMap_pure_eq_map]
    refine List.flatMap_congr fun row _ => ?_
    rw [hg, List.flatMap_singleton, hf]
    rfl
  rw [envs, hsingle, List.filter_map, matching]
  refine congrArg (List.map _) (List.filter_congr fun row _ => ?_)
  rw [Function.comp_apply, hscope _ (s.rowEnv row) (by rw [hroot, rowEnv_table])]

end GroupStatement

end OdooKernel
