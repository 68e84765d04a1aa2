import OdooKernel.Compile.Columns

/-!
# Databases that agree on some columns

Two databases with the same records may differ in the columns that nothing reads.  An expression is
*steady* when it is worth the same in both, wherever its alias stands for like rows.

**Agreement** (`Agree`) is on the columns and the links that are read, as they are recorded.  The
rows of a table are like one another across the two databases by their ids, and come in any order.

**One lemma a form.**  Each form of expression, condition and subquery is steady if its parts are;
the proofs about the compiler in `Search/Steady` use these and look into no expression again.  A
subquery that looks for the record with an id is steady because ids are numbers, of which equal ones
are the same (`steadyExpr_recordOf`).

**One database.**  The twins may be one and the same, and then nothing is asked of ids and names:
that a condition is about its own row alone is the case of one database (`Search/Flush`).

* `Twins` — two such databases.
* `Twins.SteadyExpr`, `Twins.Steady`, `Twins.SteadySelect`, `Twins.SteadyCondition` — what is worth
  the same in both.
-/

namespace OdooKernel

/-! ## Agreement -/

/-- Each element of one list has its like in another, and the other way round. -/
def Matched {α : Type} (R : α → α → Prop) (as bs : List α) : Prop :=
  (∀ a ∈ as, ∃ b ∈ bs, R a b) ∧ ∀ b ∈ bs, ∃ a ∈ as, R a b

lemma Matched.refl {α : Type} {R : α → α → Prop} {as : List α} (h : ∀ a ∈ as, R a a) :
    Matched R as as :=
  ⟨fun a ha => ⟨a, ha, h a ha⟩, fun a ha => ⟨a, ha, h a ha⟩⟩

/-- Like elements give the same values. -/
lemma Matched.mem_filterMap_iff {α β : Type} {R : α → α → Prop} {as bs : List α}
    (h : Matched R as bs) {f g : α → Option β} (hfg : ∀ a b, R a b → f a = g b) (y : β) :
    y ∈ as.filterMap f ↔ y ∈ bs.filterMap g := by
  simp only [List.mem_filterMap]
  constructor
  · rintro ⟨a, ha, hy⟩
    obtain ⟨b, hb, hab⟩ := h.1 a ha
    exact ⟨b, hb, by rw [← hfg a b hab, hy]⟩
  · rintro ⟨b, hb, hy⟩
    obtain ⟨a, ha, hab⟩ := h.2 b hb
    exact ⟨a, ha, by rw [hfg a b hab, hy]⟩

lemma Matched.mem_flatMap_iff {α β : Type} {R : α → α → Prop} {as bs : List α}
    (h : Matched R as bs) {f g : α → List β} {y : β} (hfg : ∀ a b, R a b → (y ∈ f a ↔ y ∈ g b)) :
    y ∈ as.flatMap f ↔ y ∈ bs.flatMap g := by
  simp only [List.mem_flatMap]
  constructor
  · rintro ⟨a, ha, hy⟩
    obtain ⟨b, hb, hab⟩ := h.1 a ha
    exact ⟨b, hb, (hfg a b hab).mp hy⟩
  · rintro ⟨b, hb, hy⟩
    obtain ⟨a, ha, hab⟩ := h.2 b hb
    exact ⟨a, ha, (hfg a b hab).mpr hy⟩

section

variable (registry : Registry) (read : String → String → Prop)

/-- Two rows of a table have one id, and one value in each column that is read of a model of the
table. -/
def RowsAlike (table : String) (row row' : Row) : Prop :=
  row "id" = row' "id" ∧ ∀ k m column, registry.lookup k = some m → m.table = table →
    read m.name column → row column = row' column

/-- Two rows of a relation table relate the same records. -/
def LinksAlike (column1 column2 : String) (link link' : Row) : Prop :=
  link column1 = link' column1 ∧ link column2 = link' column2

/-- **Two databases agree on the columns that are read**: they have the same records with the same
values there, the same links of each many2many that is read, and one server. -/
structure Agree (db db' : Database) : Prop where
  server : db.server = db'.server
  fragment : db.fragment = db'.fragment
  tables : ∀ k m, registry.lookup k = some m →
    Matched (RowsAlike registry read m.table) (db.table m.table) (db'.table m.table)
  links : ∀ k m name field rel column1 column2, registry.lookup k = some m →
    m.fields.get? name = some field → field.m2mColumns = .ok (rel, column1, column2) →
    read m.name field.name → Matched (LinksAlike column1 column2) (db.table rel) (db'.table rel)

/-- The ids of the records of a database are numbers. -/
def NumberedIds (db : Database) : Prop :=
  ∀ k m, registry.lookup k = some m → ∀ row ∈ db.table m.table, ∃ n : ℤ, row "id" = some (.int n)

/-- No relation table is named like the alias of a subquery. -/
def PlainRelations : Prop :=
  ∀ k m name field rel column1 column2, registry.lookup k = some m →
    m.fields.get? name = some field → field.m2mColumns = .ok (rel, column1, column2) →
    ∀ (depth : ℕ) (table : String), rel ≠ "s" ++ toString depth ++ "_" ++ table

variable {registry read}

lemma RowsAlike.refl (table : String) (row : Row) : RowsAlike registry read table row row :=
  ⟨rfl, fun _ _ _ _ _ _ => rfl⟩

/-- A database agrees with itself. -/
lemma Agree.refl (db : Database) : Agree registry read db db where
  server := rfl
  fragment := rfl
  tables _ _ _ := Matched.refl fun row _ => RowsAlike.refl _ row
  links _ _ _ _ _ _ _ _ _ _ _ := Matched.refl fun _ _ => ⟨rfl, rfl⟩

end

/-- Two databases that agree on the columns that are read.  They may be one and the same; what is
asked of the ids and of the names of tables matters only if they are not. -/
structure Twins where
  registry : Registry
  read : String → String → Prop
  db : Database
  db' : Database
  agree : Agree registry read db db'
  numbered : db ≠ db' → NumberedIds registry db
  relations : db ≠ db' → PlainRelations registry

namespace Twins

variable (t : Twins)

/-- Two environments stand for like rows at an alias. -/
def Alike (table aliasName : String) (env env' : Env) : Prop :=
  RowsAlike t.registry t.read table (env aliasName) (env' aliasName)

/-- An expression is worth the same in both databases, where its alias stands for like rows. -/
def SteadyExpr (table aliasName : String) (e : Expr) : Prop :=
  ∀ env env', t.Alike table aliasName env env' → e.eval t.db env = e.eval t.db' env'

/-- A condition is worth the same in both databases. -/
def Steady (table aliasName : String) (p : Predicate) : Prop :=
  ∀ env env', t.Alike table aliasName env env' → p.eval t.db env = p.eval t.db' env'

/-- A subquery returns the same values in both databases, in whatever order. -/
def SteadySelect (table aliasName : String) (s : Select) : Prop :=
  ∀ env env', t.Alike table aliasName env env' → ∀ y, y ∈ s.rows t.db env ↔ y ∈ s.rows t.db' env'

/-- Each member of a junction is worth the same in both databases. -/
def SteadyCondition (table aliasName : String) (cond : Condition) : Prop :=
  ∀ p ∈ cond.members, t.Steady table aliasName p

/-- A column of a model's table that is read. -/
def IsRead (table column : String) : Prop :=
  ∃ k m, t.registry.lookup k = some m ∧ m.table = table ∧ t.read m.name column

variable {t} {table aliasName : String}

/-! ## Expressions -/

lemma steadyExpr_col {column : String} (h : t.IsRead table column) :
    t.SteadyExpr table aliasName (.col aliasName column) := by
  intro env env' halike
  obtain ⟨k, m, hlookup, htable, hread⟩ := h
  exact halike.2 k m column hlookup htable hread

lemma steadyExpr_id : t.SteadyExpr table aliasName (.col aliasName "id") :=
  fun _ _ halike => halike.1

lemma steadyExpr_val (d : Datum) : t.SteadyExpr table aliasName (.val d) := fun _ _ _ => rfl

section

variable {e e' : Expr} (he : t.SteadyExpr table aliasName e)

include he

lemma steadyExpr_castAs (ty : String) : t.SteadyExpr table aliasName (.castAs e ty) := by
  intro env env' halike
  simp only [Expr.eval, he env env' halike, t.agree.server]

lemma steadyExpr_trimScale : t.SteadyExpr table aliasName (.trimScale e) := by
  intro env env' halike
  simp only [Expr.eval, he env env' halike, t.agree.server]

lemma steadyExpr_translation (lang : String) :
    t.SteadyExpr table aliasName (.translation e lang) := by
  intro env env' halike
  simp only [Expr.eval, he env env' halike, t.agree.server]

lemma steadyExpr_companyJson (company ty : String) (fallback : Option Datum) :
    t.SteadyExpr table aliasName (.companyJson e company ty fallback) := by
  intro env env' halike
  simp only [Expr.eval, he env env' halike, t.agree.server]

lemma steadyExpr_castJson (ty : String) : t.SteadyExpr table aliasName (.castJson e ty) := by
  intro env env' halike
  simp only [Expr.eval, he env env' halike, t.agree.server]

lemma steadyExpr_castItem (ty : String) : t.SteadyExpr table aliasName (.castItem e ty) := by
  intro env env' halike
  simp only [Expr.eval, he env env' halike, t.agree.server]

lemma steadyExpr_pathTexts : t.SteadyExpr table aliasName (.pathTexts e) := by
  intro env env' halike
  simp only [Expr.eval, he env env' halike, t.agree.server]

lemma steadyExpr_unaccent : t.SteadyExpr table aliasName (.unaccent e) := by
  intro env env' halike
  simp only [Expr.eval, he env env' halike, t.agree.server]

/-! ## Conditions -/

lemma steady_isNull : t.Steady table aliasName (.isNull e) := by
  intro env env' halike
  simp only [Predicate.eval, he env env' halike]

lemma steady_isNotNull : t.Steady table aliasName (.isNotNull e) := by
  intro env env' halike
  simp only [Predicate.eval, he env env' halike]

lemma steady_isIn (values : List Datum) : t.Steady table aliasName (.isIn e values) := by
  intro env env' halike
  simp only [Predicate.eval, he env env' halike]

lemma steady_inOrAny (op : String) (values : List Datum) :
    t.Steady table aliasName (inOrAny e op values) := by
  intro env env' halike
  unfold inOrAny
  split_ifs <;> simp only [Predicate.eval, he env env' halike]

lemma steady_compare (op : Comparison) (he' : t.SteadyExpr table aliasName e') :
    t.Steady table aliasName (.compare op e e') := by
  intro env env' halike
  simp only [Predicate.eval, he env env' halike, he' env env' halike, t.agree.server]

lemma steady_like (insensitive negative : Bool) (he' : t.SteadyExpr table aliasName e') :
    t.Steady table aliasName (.like insensitive negative e e') := by
  intro env env' halike
  simp only [Predicate.eval, he env env' halike, he' env env' halike, t.agree.server]

end

lemma steady_const (b : Bool) : t.Steady table aliasName (.const b) := fun _ _ _ => rfl

section

variable {p q : Predicate} (hp : t.Steady table aliasName p)

include hp

lemma steady_or (hq : t.Steady table aliasName q) : t.Steady table aliasName (.or p q) := by
  intro env env' halike
  simp only [Predicate.eval, hp env env' halike, hq env env' halike]

lemma steady_and (hq : t.Steady table aliasName q) : t.Steady table aliasName (.and p q) := by
  intro env env' halike
  simp only [Predicate.eval, hp env env' halike, hq env env' halike]

lemma steady_not : t.Steady table aliasName (.not p) := by
  intro env env' halike
  simp only [Predicate.eval, hp env env' halike]

lemma steady_isNotTrue : t.Steady table aliasName (.isNotTrue p) := by
  intro env env' halike
  simp only [Predicate.eval, hp env env' halike]

end

/-! ## Subqueries -/

/-- Whether a value is among others depends on which they are. -/
lemma memberOfRows_congr {x : Option Datum} {ys zs : List (Option Datum)}
    (h : ∀ y, y ∈ ys ↔ y ∈ zs) : memberOfRows x ys = memberOfRows x zs := by
  refine Truth.any_congr fun t => ?_
  simp only [List.mem_map, h]

section

variable {e : Expr} {s : Select} (he : t.SteadyExpr table aliasName e)
  (hs : t.SteadySelect table aliasName s)

include he hs

lemma steady_inSelect : t.Steady table aliasName (.inSelect e s) := by
  intro env env' halike
  simp only [Predicate.eval, he env env' halike]
  exact memberOfRows_congr (hs env env' halike)

lemma steady_notInSelect : t.Steady table aliasName (.notInSelect e s) := by
  intro env env' halike
  simp only [Predicate.eval, he env env' halike]
  exact congrArg Truth.not (memberOfRows_congr (hs env env' halike))

end

lemma steadySelect_fragment (value : Json) : t.SteadySelect table aliasName (.fragment value) := by
  intro env env' _ y
  simp only [Select.rows, t.agree.fragment]

/-! ## Junctions -/

lemma evalAll_steady {ps : List Predicate} (h : ∀ p ∈ ps, t.Steady table aliasName p)
    {env env' : Env} (halike : t.Alike table aliasName env env') :
    Predicate.evalAll t.db ps env = Predicate.evalAll t.db' ps env' := by
  rw [evalAll_eq, evalAll_eq]
  exact List.map_congr_left fun p hp => h p hp env env' halike

lemma SteadyCondition.toPredicate {cond : Condition}
    (h : t.SteadyCondition table aliasName cond) :
    t.Steady table aliasName cond.toPredicate := by
  intro env env' halike
  simp only [Condition.toPredicate, Predicate.eval, evalAll_steady h halike]

lemma steadyCondition_empty (conj : Bool) :
    t.SteadyCondition table aliasName { conj, members := [] } :=
  fun _ hp => absurd hp List.not_mem_nil

lemma SteadyCondition.addPredicate {cond : Condition} {p : Predicate}
    (h : t.SteadyCondition table aliasName cond) (hp : t.Steady table aliasName p) :
    t.SteadyCondition table aliasName (cond.addPredicate p) := by
  intro q hq
  rcases List.mem_append.mp hq with hq | hq
  · exact h q hq
  · rw [List.mem_singleton.mp hq]
    exact hp

lemma SteadyCondition.add {cond cond' : Condition} (h : t.SteadyCondition table aliasName cond)
    (h' : t.SteadyCondition table aliasName cond') :
    t.SteadyCondition table aliasName (cond.add cond') := by
  unfold Condition.add
  split
  · next p hp => exact h.addPredicate (h' p (by rw [hp]; exact List.mem_singleton_self p))
  · exact h.addPredicate h'.toPredicate

/-! ## Rows of a table -/

/-- A row that an alias stands for is what it is alike by. -/
lemma alike_bind {env env' : Env} {row row' : Row}
    (h : RowsAlike t.registry t.read table row row') :
    t.Alike table aliasName (env.bind aliasName row) (env'.bind aliasName row') := by
  simpa [Alike, Env.bind] using h

/-- Another alias keeps its row. -/
lemma alike_bind_of_ne {other : String} (hne : aliasName ≠ other) {env env' : Env}
    {row row' : Row} (h : t.Alike table aliasName env env') :
    t.Alike table aliasName (env.bind other row) (env'.bind other row') := by
  simpa [Alike, Env.bind, Function.update_of_ne hne] using h

/-- A row is selected by its condition and gives its value. -/
lemma selected_congr {p q : Truth} {a b : Option Datum} (hpq : p = q) (hab : a = b) :
    (if IsTrue p then some a else none) = if IsTrue q then some b else none := by
  subst hpq hab
  rfl

/-- One row under an alias keeps what is alike. -/
lemma alike_bind_same {other : String} {env env' : Env} {row : Row}
    (h : t.Alike table aliasName env env') :
    t.Alike table aliasName (env.bind other row) (env'.bind other row) := by
  by_cases hne : aliasName = other
  · subst hne
    exact alike_bind (RowsAlike.refl _ row)
  · exact alike_bind_of_ne hne h

/-- A subquery over a model, of what is steady there. -/
lemma steadySelect_from {k : String} {co : Model} (hco : t.registry.lookup k = some co)
    {result : Expr} {sub : String} {wheres : List Predicate}
    (hresult : t.SteadyExpr co.table sub result)
    (hwheres : ∀ p ∈ wheres, t.Steady co.table sub p) :
    t.SteadySelect table aliasName (.from result co.table sub wheres) := by
  intro env env' _ y
  simp only [Select.rows]
  refine (t.agree.tables k co hco).mem_filterMap_iff (fun row row' hrow => ?_) y
  have halike : t.Alike co.table sub (env.bind sub row) (env'.bind sub row') := alike_bind hrow
  exact selected_congr (congrArg Truth.all (evalAll_steady hwheres halike)) (hresult _ _ halike)

/-- The subquery over a relation table joined to a model. -/
def ownersOf (rel column1 column2 : String) (co : Model) (sub : String) (wheres : List Predicate) :
    Select :=
  .joined (.col rel column1) rel co.table sub (.compare .eq (.col rel column2) (.col sub "id")) wheres

/-- A subquery over a relation table that is read, joined to a model. -/
lemma steadySelect_joined {k k' name rel column1 column2 sub : String} {m co : Model} {field : Field}
    (hm : t.registry.lookup k = some m) (hfield : m.fields.get? name = some field)
    (hrel : field.m2mColumns = .ok (rel, column1, column2)) (hread : t.read m.name field.name)
    (hco : t.registry.lookup k' = some co) (hne : t.db ≠ t.db' → rel ≠ sub) {wheres : List Predicate}
    (hwheres : ∀ p ∈ wheres, t.Steady co.table sub p) :
    t.SteadySelect table aliasName (ownersOf rel column1 column2 co sub wheres) := by
  intro env env' _ y
  have hselected : ∀ link link' row row', RowsAlike t.registry t.read co.table row row' →
      (∀ column ∈ [column1, column2], (Expr.col rel column).eval t.db ((env.bind rel link).bind sub row)
        = (Expr.col rel column).eval t.db' ((env'.bind rel link').bind sub row')) →
      (if IsTrue (((Predicate.compare .eq (.col rel column2) (.col sub "id")).eval t.db
          ((env.bind rel link).bind sub row)).and
          (Truth.all (Predicate.evalAll t.db wheres ((env.bind rel link).bind sub row)))) then
        some ((Expr.col rel column1).eval t.db ((env.bind rel link).bind sub row)) else none)
      = if IsTrue (((Predicate.compare .eq (.col rel column2) (.col sub "id")).eval t.db'
          ((env'.bind rel link').bind sub row')).and
          (Truth.all (Predicate.evalAll t.db' wheres ((env'.bind rel link').bind sub row')))) then
        some ((Expr.col rel column1).eval t.db' ((env'.bind rel link').bind sub row')) else none := by
    intro link link' row row' hrow hcol
    have halike : t.Alike co.table sub ((env.bind rel link).bind sub row)
        ((env'.bind rel link').bind sub row') := alike_bind hrow
    refine selected_congr ?_ (hcol column1 (by simp))
    simp only [evalAll_steady hwheres halike, Predicate.eval, hcol column2 (by simp), t.agree.server,
      steadyExpr_id _ _ halike]
  simp only [ownersOf, Select.rows]
  by_cases hdb : t.db = t.db'
  · rw [← hdb] at hselected ⊢
    refine Matched.mem_flatMap_iff (Matched.refl fun _ _ => rfl) fun link _ hlink => ?_
    subst hlink
    refine Matched.mem_filterMap_iff (Matched.refl fun _ _ => rfl) (fun row _ hrow => ?_) y
    subst hrow
    refine hselected link link row row (RowsAlike.refl _ row) fun column _ => ?_
    simp only [Expr.eval, Env.bind, Function.update_apply, if_true]
  · refine (t.agree.links k m name field rel column1 column2 hm hfield hrel hread).mem_flatMap_iff
      fun link link' hlink => ?_
    refine (t.agree.tables k' co hco).mem_filterMap_iff (fun row row' hrow => ?_) y
    refine hselected link link' row row' hrow fun column hcolumn => ?_
    simp only [Expr.eval, Env.bind, Function.update_of_ne (hne hdb), Function.update_self]
    rcases List.mem_cons.mp hcolumn with rfl | hcolumn
    · exact hlink.1
    · rw [List.mem_singleton.mp hcolumn]
      exact hlink.2

/-! ## The first value of a subquery -/

lemma head?_congr {α : Type} {ys zs : List α} (h : ∀ y, y ∈ ys ↔ y ∈ zs)
    (hone : ∀ y ∈ ys, ∀ z ∈ ys, y = z) : ys.head? = zs.head? := by
  cases ys with
  | nil =>
      cases zs with
      | nil => rfl
      | cons z zs => exact absurd ((h z).mpr List.mem_cons_self) List.not_mem_nil
  | cons y ys =>
      cases zs with
      | nil => exact absurd ((h y).mp List.mem_cons_self) List.not_mem_nil
      | cons z zs => exact congrArg some (hone y List.mem_cons_self z ((h z).mpr List.mem_cons_self))

/-- Two ids that equal one value are one id. -/
lemma int_eq_of_equals {d : Datum} {m n : ℤ} (hm : (Datum.int m).equals d = true)
    (hn : (Datum.int n).equals d = true) : m = n := by
  cases d with
  | int k =>
      simp only [Datum.equals, Datum.toRat?, decide_eq_true_eq] at hm hn
      exact_mod_cast hm.trans hn.symm
  | double q | numeric q =>
      simp only [Datum.equals, Datum.toRat?, decide_eq_true_eq] at hm hn
      exact_mod_cast hm.trans hn.symm
  | bool b | text s | date d | timestamp t | json j | nonFinite x => simp [Datum.equals, Datum.toRat?] at hm

/-- The subquery for the record that a value is the id of. -/
def recordOf (co : Model) (sub : String) (x : Expr) : Select :=
  .from (.col sub "id") co.table sub [.compare .eq (.col sub "id") x]

lemma steadySelect_recordOf {k : String} {co : Model} (hco : t.registry.lookup k = some co)
    {sub : String} {x : Expr} (hne : aliasName ≠ sub) (hx : t.SteadyExpr table aliasName x) :
    t.SteadySelect table aliasName (recordOf co sub x) := by
  intro env env' halike y
  simp only [recordOf, Select.rows, Predicate.evalAll]
  refine (t.agree.tables k co hco).mem_filterMap_iff (fun row row' hrow => ?_) y
  have hsub : t.Alike co.table sub (env.bind sub row) (env'.bind sub row') := alike_bind hrow
  have hout : t.Alike table aliasName (env.bind sub row) (env'.bind sub row') :=
    alike_bind_of_ne hne halike
  refine selected_congr ?_ (steadyExpr_id _ _ hsub)
  simp only [Predicate.eval, steadyExpr_id _ _ hsub, hx _ _ hout, t.agree.server]

/-- In one database it returns the same values in the same order. -/
lemma rows_recordOf (hdb : t.db = t.db') {co : Model} {sub : String} {x : Expr}
    (hx : t.SteadyExpr table aliasName x) {env env' : Env} (halike : t.Alike table aliasName env env') :
    (recordOf co sub x).rows t.db env = (recordOf co sub x).rows t.db' env' := by
  simp only [recordOf, Select.rows, Predicate.evalAll, ← hdb]
  refine List.filterMap_congr fun row _ => ?_
  have hout := hx (env.bind sub row) (env'.bind sub row) (alike_bind_same halike)
  rw [← hdb] at hout
  refine selected_congr ?_ ?_
  · simp only [Predicate.eval, Expr.eval, Env.bind, Function.update_self] at hout ⊢
    rw [hout]
  · simp only [Expr.eval, Env.bind, Function.update_self]

/-- The record has the value as its id. -/
lemma equals_of_mem_recordOf (hnumbered : NumberedIds t.registry t.db) {k : String} {co : Model}
    (hco : t.registry.lookup k = some co) {sub : String} {x : Expr} (hne : aliasName ≠ sub) (hx : t.SteadyExpr table aliasName x)
    {env : Env} {y : Option Datum} (hy : y ∈ (recordOf co sub x).rows t.db env) :
    ∃ n d, y = some (.int n) ∧ x.eval t.db env = some d ∧ (Datum.int n).equals d = true := by
  simp only [recordOf, Select.rows, Predicate.evalAll, List.mem_filterMap,
    Option.ite_none_right_eq_some, Option.some.injEq, isTrue_all, List.mem_singleton,
    forall_eq] at hy
  obtain ⟨row, hrow, htrue, rfl⟩ := hy
  obtain ⟨n, hn⟩ := hnumbered k co hco row hrow
  have hbind : x.eval t.db (env.bind sub row) = x.eval t.db env := by
    have hself := (hx env env (RowsAlike.refl _ _))
    have hother := (hx (env.bind sub row) env ?_)
    · rw [hother, hself]
    · simpa [Alike, Env.bind, Function.update_of_ne hne] using RowsAlike.refl _ _
  simp only [Predicate.eval, Expr.eval, hbind] at htrue
  have hid : env.bind sub row sub "id" = some (.int n) := by simp [Env.bind, hn]
  rw [hid] at htrue
  cases hvalue : x.eval t.db env with
  | none => simp [hvalue, compareData] at htrue
  | some d =>
      simp only [hvalue, compareData, isTrue_some, Comparison.holds] at htrue
      exact ⟨n, d, by simp [Expr.eval, hid], rfl, htrue⟩

/-- **The record that a value is the id of** is the same in both databases. -/
lemma steadyExpr_recordOf {k : String} {co : Model} (hco : t.registry.lookup k = some co)
    {sub : String} {x : Expr} (hne : t.db ≠ t.db' → aliasName ≠ sub)
    (hx : t.SteadyExpr table aliasName x) :
    t.SteadyExpr table aliasName (.select (recordOf co sub x)) := by
  intro env env' halike
  simp only [Expr.eval]
  by_cases hdb : t.db = t.db'
  · rw [rows_recordOf hdb hx halike]
  · have hne := hne hdb
    have hnumbered := t.numbered hdb
    refine congrArg (Option.getD · none)
      (head?_congr (steadySelect_recordOf hco hne hx env env' halike) fun y hy z hz => ?_)
    obtain ⟨m, d, rfl, hd, hm⟩ := equals_of_mem_recordOf hnumbered hco hne hx hy
    obtain ⟨n, d', rfl, hd', hn⟩ := equals_of_mem_recordOf hnumbered hco hne hx hz
    obtain rfl := Option.some.inj (hd.symm.trans hd')
    rw [int_eq_of_equals hm hn]

end Twins

end OdooKernel
