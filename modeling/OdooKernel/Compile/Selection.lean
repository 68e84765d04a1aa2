import OdooKernel.Compile.Fuel

/-!
# What the shapes of a domain select

A compiled domain is spoken of by its shape: what a junction selects by what its members select, and
what a leaf selects by what it is rewritten to or by its column.  This is where the conditions that
the compiler builds are left behind; the results on single kinds of leaves are made of these.

**Negation.**  The negation of a domain is compiled from another domain, so that it selects the rows
that the domain does not select is a property that a domain may have (`Complementary`); junctions of
domains that have it have it.

* `Compiles.and_holds`, `Compiles.or_holds` — junctions.
* `Compiles.rewritten_holds`, `Compiles.plain_holds` — a leaf, rewritten and as it is.
* `OwnColumn`, `Compiles.column_holds` — a leaf on a column of the model.
-/

namespace OdooKernel

namespace Compiler

variable {c : Compiler} {db : Database} {env : Env}

/-! ## Junctions -/

/-- A conjunction, one member after the other. -/
lemma compileAll_and (db : Database) (env : Env) {fuel : ℕ} : ∀ {ns : List Node} {cond out : Condition}, cond.conj = true →
    Yields (c.compileAll (compile fuel) cond ns) out →
      (∀ n ∈ ns, ∃ k, c.Compiles n k) ∧
        (out.Holds db env ↔ cond.Holds db env ∧ ∀ n ∈ ns, c.Satisfies n db env)
  | [], cond, out, _, h => by
      obtain rfl := yields_pure.mp h
      simp
  | n :: ns, cond, out, hconj, h => by
      obtain ⟨k, hk, h⟩ := yields_bind.mp h
      obtain ⟨hcompiles, hholds⟩ := compileAll_and db env (by rwa [Condition.add_conj]) h
      have hn : c.Compiles n k := ⟨fuel, hk⟩
      refine ⟨List.forall_mem_cons.mpr ⟨⟨k, hn⟩, hcompiles⟩, ?_⟩
      rw [hholds, holds_add_all _ _ hconj, List.forall_mem_cons, satisfies_iff hn, and_assoc]

/-- A disjunction, one member after the other. -/
lemma compileAll_or (db : Database) (env : Env) {fuel : ℕ} : ∀ {ns : List Node} {cond out : Condition}, cond.conj = false →
    Yields (c.compileAll (compile fuel) cond ns) out →
      (∀ n ∈ ns, ∃ k, c.Compiles n k) ∧
        (out.Holds db env ↔ cond.Holds db env ∨ ∃ n ∈ ns, c.Satisfies n db env)
  | [], cond, out, _, h => by
      obtain rfl := yields_pure.mp h
      simp
  | n :: ns, cond, out, hconj, h => by
      obtain ⟨k, hk, h⟩ := yields_bind.mp h
      obtain ⟨hcompiles, hholds⟩ := compileAll_or db env (by rwa [Condition.add_conj]) h
      have hn : c.Compiles n k := ⟨fuel, hk⟩
      refine ⟨List.forall_mem_cons.mpr ⟨⟨k, hn⟩, hcompiles⟩, ?_⟩
      rw [hholds, holds_add_any _ _ hconj, List.exists_mem_cons_iff, satisfies_iff hn, or_assoc]

/-- What a domain is compiled to, where its nesting is not too deep. -/
lemma Compiles.shape {n : Node} {cond : Condition} (h : c.Compiles n cond) (hnot : ∀ m, n ≠ .Not m) :
    ∃ fuel, Yields (match n with
      | .True => pure .all
      | .False => pure .any
      | .And children => c.compileAll (compile fuel) .all children
      | .Or children => c.compileAll (compile fuel) .any children
      | .Not _ => pure .all
      | .Leaf leaf => do return Condition.all.addPredicate (← c.compileLeaf (compile fuel) leaf))
      cond := by
  obtain ⟨hdepth, fuel, h⟩ := h.node
  refine ⟨fuel, ?_⟩
  unfold compileNode at h
  rw [if_neg (by omega)] at h
  cases n with
  | Not m => exact absurd rfl (hnot m)
  | True | False | And _ | Or _ | Leaf _ => exact h

/-- **A conjunction selects what all of its members select.** -/
lemma Compiles.and_holds {ns : List Node} {cond : Condition} (h : c.Compiles (.And ns) cond)
    (db : Database) (env : Env) :
    (∀ n ∈ ns, ∃ k, c.Compiles n k) ∧ (cond.Holds db env ↔ ∀ n ∈ ns, c.Satisfies n db env) := by
  obtain ⟨fuel, h⟩ := h.shape (by simp)
  simpa using compileAll_and db env Condition.conj_all h

/-- **A disjunction selects what one of its members selects.** -/
lemma Compiles.or_holds {ns : List Node} {cond : Condition} (h : c.Compiles (.Or ns) cond)
    (db : Database) (env : Env) :
    (∀ n ∈ ns, ∃ k, c.Compiles n k) ∧ (cond.Holds db env ↔ ∃ n ∈ ns, c.Satisfies n db env) := by
  obtain ⟨fuel, h⟩ := h.shape (by simp)
  simpa using compileAll_or db env Condition.conj_any h

lemma Compiles.false_holds {cond : Condition} (h : c.Compiles .False cond) :
    ¬ cond.Holds db env := by
  obtain ⟨fuel, h⟩ := h.shape (by simp)
  obtain rfl := yields_pure.mp h
  exact not_holds_any

/-! ## Leaves -/

/-- A leaf is compiled as its condition. -/
lemma Compiles.leaf_holds {l : Leaf} {cond : Condition} (h : c.Compiles (.Leaf l) cond)
    (db : Database) (env : Env) :
    ∃ fuel p, Yields (c.compileLeaf (compile fuel) l) p ∧
      (cond.Holds db env ↔ Selects db env p) := by
  obtain ⟨fuel, h⟩ := h.shape (by simp)
  obtain ⟨p, hp, h⟩ := yields_bind.mp h
  obtain rfl := yields_pure.mp h
  refine ⟨fuel, p, hp, ?_⟩
  rw [holds_addPredicate Condition.conj_all, and_iff_right holds_all]

/-- A leaf that is compiled is rewritten, or not. -/
lemma Compiles.optimized {l : Leaf} {cond : Condition} (h : c.Compiles (.Leaf l) cond)
    (hfragment : isFragment l.value = false) : ∃ rewritten, c.optimizeLeaf l = .ok rewritten := by
  obtain ⟨fuel, p, hp, -⟩ := h.leaf_holds ⟨fun _ => [], fun _ => [], .plain⟩
    fun _ _ => none
  rw [compileLeaf, hfragment, if_neg Bool.false_ne_true, liftM_eq_ofResult] at hp
  obtain ⟨rewritten, hrewritten, -⟩ := yields_bind.mp hp
  exact ⟨rewritten, yields_ofResult.mp hrewritten⟩

/-- **A leaf that is rewritten selects what it is rewritten to.** -/
lemma Compiles.rewritten_holds {l : Leaf} {cond : Condition} {n : Node}
    (h : c.Compiles (.Leaf l) cond) (hfragment : isFragment l.value = false)
    (hrewritten : c.optimizeLeaf l = .ok (some n)) (db : Database) (env : Env) :
    (∃ k, c.Compiles n k) ∧ (cond.Holds db env ↔ c.Satisfies n db env) := by
  obtain ⟨fuel, p, hp, hholds⟩ := h.leaf_holds db env
  rw [compileLeaf, hfragment, if_neg Bool.false_ne_true, liftM_eq_ofResult] at hp
  obtain ⟨rewritten, hrewritten', hp⟩ := yields_bind.mp hp
  rw [yields_ofResult, hrewritten, Except.ok.injEq] at hrewritten'
  subst hrewritten'
  obtain ⟨k, hk, hp⟩ := yields_bind.mp hp
  obtain rfl := yields_pure.mp hp
  have hn : c.Compiles n k := ⟨fuel, hk⟩
  refine ⟨⟨k, hn⟩, ?_⟩
  rw [hholds, satisfies_iff hn]
  rfl

/-- **A leaf that is compiled as it is.** -/
lemma Compiles.plain_holds {l : Leaf} {cond : Condition} (h : c.Compiles (.Leaf l) cond)
    (hfragment : isFragment l.value = false) (hrewritten : c.optimizeLeaf l = .ok none)
    (db : Database) (env : Env) :
    ∃ fuel p, Yields (c.plainLeaf (compile fuel) l) p ∧ (cond.Holds db env ↔ Selects db env p) := by
  obtain ⟨fuel, p, hp, hholds⟩ := h.leaf_holds db env
  rw [compileLeaf, hfragment, if_neg Bool.false_ne_true, liftM_eq_ofResult] at hp
  obtain ⟨rewritten, hrewritten', hp⟩ := yields_bind.mp hp
  rw [yields_ofResult, hrewritten, Except.ok.injEq] at hrewritten'
  subst hrewritten'
  exact ⟨fuel, p, hp, hholds⟩

/-! ## Negation -/

/-- The negation of a domain selects the rows that the domain does not select. -/
def Complementary (c : Compiler) (db : Database) (env : Env) (n : Node) : Prop :=
  ∀ m k p, c.Negates n m → c.Compiles m k → c.Compiles n p → (k.Holds db env ↔ ¬ p.Holds db env)

lemma negateAll_eq_ok {f : Leaf → Result Node} {ns ms : List Node} (h : negateAll f ns = .ok ms) :
    List.Forall₂ (fun n m => negateWith f n = .ok m) ns ms := by
  induction ns generalizing ms with
  | nil =>
      cases h
      exact .nil
  | cons n ns ih =>
      simp only [negateAll, bind_eq_ok, pure_eq_ok] at h
      obtain ⟨m, hm, ms', hms, rfl⟩ := h
      exact .cons hm (ih hms)

/-- A conjunction is negated to the disjunction of the negations. -/
lemma Negates.and_cases {ns : List Node} {m : Node} (h : c.Negates (.And ns) m) :
    ∃ ms, m = .Or ms ∧ List.Forall₂ c.Negates ns ms := by
  obtain ⟨_ | fuel, h⟩ := h
  · simp [negate, outOfCalls] at h
  · obtain ⟨ms, hms, h⟩ := bind_eq_ok.mp h
    cases h
    exact ⟨ms, rfl, (negateAll_eq_ok hms).imp fun _ _ hm => ⟨fuel + 1, hm⟩⟩

/-- A disjunction is negated to the conjunction of the negations. -/
lemma Negates.or_cases {ns : List Node} {m : Node} (h : c.Negates (.Or ns) m) :
    ∃ ms, m = .And ms ∧ List.Forall₂ c.Negates ns ms := by
  obtain ⟨_ | fuel, h⟩ := h
  · simp [negate, outOfCalls] at h
  · obtain ⟨ms, hms, h⟩ := bind_eq_ok.mp h
    cases h
    exact ⟨ms, rfl, (negateAll_eq_ok hms).imp fun _ _ hm => ⟨fuel + 1, hm⟩⟩

/-- A leaf is negated as it is rewritten, to `not any` of its path, or by its operator. -/
lemma Negates.leaf_cases {l : Leaf} {m : Node} (h : c.Negates (.Leaf l) m) :
    ∃ fuel, c.negateLeaf fuel (c.negate fuel) l = .ok m := by
  obtain ⟨_ | fuel, h⟩ := h
  · simp [negate, outOfCalls] at h
  · exact ⟨fuel, h⟩

/-- The negations of some domains select the rows that the domains do not select. -/
lemma satisfies_negations {ns ms : List Node} (hns : ∀ n ∈ ns, c.Complementary db env n)
    (hp : ∀ n ∈ ns, ∃ k, c.Compiles n k) (hk : ∀ m ∈ ms, ∃ k, c.Compiles m k)
    (h : List.Forall₂ c.Negates ns ms) :
    List.Forall₂ (fun n m => c.Satisfies m db env ↔ ¬ c.Satisfies n db env) ns ms := by
  induction h with
  | nil => exact .nil
  | @cons n m ns ms hm _ ih =>
      rw [List.forall_mem_cons] at hns hp hk
      obtain ⟨p, hp'⟩ := hp.1
      obtain ⟨k, hk'⟩ := hk.1
      refine .cons ?_ (ih hns.2 hp.2 hk.2)
      rw [satisfies_iff hp', satisfies_iff hk']
      exact hns.1 m k p hm hk' hp'

lemma Complementary.and {ns : List Node} (hns : ∀ n ∈ ns, c.Complementary db env n) :
    c.Complementary db env (.And ns) := by
  intro m k p hm hk hp
  obtain ⟨ms, rfl, hms⟩ := hm.and_cases
  obtain ⟨hcompiles, hholds⟩ := hp.and_holds db env
  obtain ⟨hcompiles', hholds'⟩ := hk.or_holds db env
  rw [hholds, hholds']
  have hall := satisfies_negations hns hcompiles hcompiles' hms
  clear hns hcompiles hcompiles' hms hholds hholds' hp hk hm
  induction hall with
  | nil => simp
  | cons hm _ ih =>
      rw [List.exists_mem_cons_iff, List.forall_mem_cons, not_and_or]
      exact or_congr hm ih

lemma Complementary.or {ns : List Node} (hns : ∀ n ∈ ns, c.Complementary db env n) :
    c.Complementary db env (.Or ns) := by
  intro m k p hm hk hp
  obtain ⟨ms, rfl, hms⟩ := hm.or_cases
  obtain ⟨hcompiles, hholds⟩ := hp.or_holds db env
  obtain ⟨hcompiles', hholds'⟩ := hk.and_holds db env
  rw [hholds, hholds']
  have hall := satisfies_negations hns hcompiles hcompiles' hms
  clear hns hcompiles hcompiles' hms hholds hholds' hp hk hm
  induction hall with
  | nil => simp
  | cons hm _ ih =>
      rw [List.exists_mem_cons_iff, List.forall_mem_cons, not_or]
      exact and_congr hm ih

/-- **The negation of a domain that is complementary selects the other rows.** -/
lemma Complementary.not_holds {n : Node} (hn : c.Complementary db env n)
    (hkept : ∀ kept, ¬ c.Negates n (.Not kept)) {k p : Condition} (hk : c.Compiles (.Not n) k)
    (hp : c.Compiles n p) : k.Holds db env ↔ ¬ p.Holds db env := by
  rcases hk.not_cases with ⟨kept, -, hm, -, -⟩ | ⟨m, hm, -, hk⟩
  · exact absurd hm (hkept kept)
  · exact hn m k p hm hk hp

/-! ## Columns of the model -/

variable (c) in
/-- A field of the model with a column, under its own name, that is not searched in another way. -/
structure OwnColumn (name : String) (f : Field) : Prop where
  steps : splitDots name = [name]
  notName : name ≠ "display_name"
  registered : c.ctx.registry.get c.model.name = .ok c.model
  field : c.model.fields.get? name = some f
  hasColumn : f.hasColumn = true
  searchKind : f.searchKind ≠ some "mail_followers_partner"

/-- The operators that compare the values of a column. -/
def comparing (op : String) : Bool := op ∈ ["in", "not in", "<", ">", "<=", ">="]

namespace OwnColumn

variable {name : String} {f : Field}

lemma head (h : c.OwnColumn name f) : headOf name = name := by
  rw [headOf, h.steps]
  rfl

lemma splitOnce (h : c.OwnColumn name f) : splitOnce name = none := by
  rw [OdooKernel.splitOnce, h.steps]

lemma normalizePath (h : c.OwnColumn name f) : c.ctx.normalizePath c.model [name] = .ok [name] := by
  simp [ExprCtx.normalizePath, ExprCtx.maxExpansions, ExprCtx.normalizeFrom, h.registered, h.field,
    h.hasColumn, orRefuse, bind, Except.bind]

lemma inequalityTarget (h : c.OwnColumn name f) {op : String} {value : Json} :
    c.inequalityTarget { field := name, op, value } = .ok f := by
  simp [Compiler.inequalityTarget, h.steps, h.normalizePath, ExprCtx.pathTarget, h.field, orRefuse,
    bind, Except.bind]

/-- The field is compared by its column. -/
lemma fieldCondition (h : c.OwnColumn name f) (again : Compiler → Node → Compile Condition)
    {op : String} {value : Json} (hop : comparing op = true) {p : Predicate}
    (hp : Yields (c.fieldCondition again f { field := name, op, value }) p) :
    Yields (c.columnCondition f { field := name, op, value }) p := by
  have hlike : containsText "like" op = false ∧ containsText "any" op = false ∧ isAny op = false := by
    simp only [comparing, List.mem_cons, List.not_mem_nil, or_false, decide_eq_true_eq] at hop
    rcases hop with rfl | rfl | rfl | rfl | rfl | rfl <;> decide +kernel
  unfold Compiler.fieldCondition at hp
  simp only [h.searchKind, if_false, hlike, Bool.false_eq_true, and_false, Bool.or_false, h.hasColumn,
    Bool.not_true, Bool.and_false] at hp
  split_ifs at hp
  · simp at hp
  · simp at hp
  · simp at hp
  · exact hp

end OwnColumn

/-- A leaf on a field of the model with a column is compiled as the condition on the field. -/
lemma Compiles.field_holds {name op : String} {f : Field} {value : Json} {cond : Condition}
    (h : c.Compiles (leafNode name op value) cond) (hf : c.OwnColumn name f)
    (hfragment : isFragment value = false)
    (hrewritten : c.optimizeLeaf { field := name, op, value } = .ok none) (db : Database)
    (env : Env) :
    ∃ fuel p, Yields (c.fieldCondition (compile fuel) f { field := name, op, value }) p ∧
      (cond.Holds db env ↔ Selects db env p) := by
  obtain ⟨fuel, p, hp, hholds⟩ := Compiles.plain_holds h hfragment hrewritten db env
  refine ⟨fuel, p, ?_, hholds⟩
  unfold plainLeaf at hp
  simp only [hf.steps, List.cons.injEq, hf.notName, and_true, if_false, liftM_eq_ofResult] at hp
  obtain ⟨-, -, hp⟩ := yields_bind.mp hp
  have hrelated : c.relatedOf [name] = none := by
    simp [relatedOf, hf.field, hf.hasColumn]
  rw [hrelated] at hp
  obtain ⟨path, hpath, hp⟩ := yields_bind.mp hp
  rw [yields_ofResult, hf.normalizePath, Except.ok.injEq] at hpath
  subst hpath
  obtain ⟨field, hfield, hp⟩ := yields_bind.mp hp
  rw [yields_ofResult, orRefuse_eq_ok, hf.field, Option.some.injEq] at hfield
  rwa [← hfield] at hp

/-- **A leaf on a column of the model** is compiled as the condition on the column. -/
lemma Compiles.column_holds {name op : String} {f : Field} {value : Json} {cond : Condition}
    (h : c.Compiles (leafNode name op value) cond) (hf : c.OwnColumn name f)
    (hop : comparing op = true) (hfragment : isFragment value = false)
    (hrewritten : c.optimizeLeaf { field := name, op, value } = .ok none) (db : Database)
    (env : Env) :
    ∃ p, Yields (c.columnCondition f { field := name, op, value }) p ∧
      (cond.Holds db env ↔ Selects db env p) := by
  obtain ⟨fuel, p, hp, hholds⟩ := h.field_holds hf hfragment hrewritten db env
  exact ⟨p, hf.fieldCondition (compile fuel) hop hp, hholds⟩

end Compiler

end OdooKernel
