import OdooKernel.Search.Condition
import OdooKernel.Search.Steady

/-!
# What a search has to flush

A search in Python flushes the columns that the kernel says its condition reads, and no others.  The
kernel records each column where it builds the expression that reads it, but for the columns of the
followers.

**What complete means** (`FlushComplete`): the condition selects the same records in any two
databases that agree on the columns that are flushed.  A column that is not flushed is one in which
Python's records and the database may differ.

**Resolution.**  The hierarchy leaves are resolved against the data before, and what the resolution
records is among what is flushed; what it makes of a domain is compiled like any other
(`Asking.Sees`).

* `ReadsFollowers` — the search asks for the records that some partners follow.
* **`compileWhere_steady`** — what is flushed is complete, unless the search is one for followers
  that differ.
* `followers_not_flushed` — a search that is.
-/

namespace OdooKernel

/-! ## Computations that ask -/

/-- If all that a computation records has one property, the value it returns has another, whatever
the answers are. -/
def Asking.Sees {α : Type} (answers : ∀ q : Question, q.Answer) (E : Event → Prop) (x : Asking α)
    (P : α → Prop) : Prop :=
  ∀ a log, x.run answers = .ok (a, log) → (∀ e ∈ log, E e) → P a

section Sees

variable {α β : Type} {answers : ∀ q : Question, q.Answer} {E : Event → Prop} {P : α → Prop}
  {Q : β → Prop}

lemma Asking.Sees.ofCompile {x : Compile α} (h : Given E x P) :
    Asking.Sees answers E (Asking.ofCompile x) P :=
  fun a log ha hlog => h a log ha hlog

/-- What one computation records, and what the next one does. -/
lemma Asking.run_bind (x : Asking α) (f : α → Asking β) :
    (x >>= f).run answers = (x.run answers >>= fun p =>
      (f p.1).run answers >>= fun q => .ok (q.1, p.2 ++ q.2)) := by
  show (Ask.bind x _).run answers = _
  induction x with
  | ask q next ih => exact ih (answers q)
  | done result =>
      rcases result with e | ⟨a, log⟩
      · rfl
      · show (Ask.bind (f a) _).run answers = Except.bind ((f a).run answers) _
        induction f a with
        | ask q next ih => exact ih (answers q)
        | done result => cases result <;> rfl

lemma Asking.Sees.bind {x : Asking α} {f : α → Asking β}
    (hf : ∀ a, Asking.Sees answers E (f a) Q) : Asking.Sees answers E (x >>= f) Q := by
  intro b log hb hlog
  rw [Asking.run_bind] at hb
  simp only [bind_eq_ok, Except.ok.injEq, Prod.mk.injEq] at hb
  obtain ⟨⟨a, log₁⟩, -, ⟨b', log₂⟩, hfb, rfl, rfl⟩ := hb
  exact hf a b' log₂ hfb fun e he => hlog e (List.mem_append_right _ he)

end Sees

/-! ## The condition of a search -/

namespace SearchRequest

variable (r : SearchRequest) (calls : ℕ) (answers : ∀ q : Question, q.Answer)

/-- **The columns that are flushed are all that a condition reads**: it selects the same records in
any two databases that agree on these. -/
def FlushComplete (w : CompiledWhere) (db db' : Database) : Prop :=
  NumberedIds r.ctx.registry db →
    Agree r.ctx.registry (fun model column => (model, column) ∈ w.touched) db db' →
    ∀ model, r.ctx.registry.get r.model = .ok model →
      ∀ id, id ∈ selected model.table w.fragment db ↔ id ∈ selected model.table w.fragment db'

/-- The search asks for the records that some partners follow. -/
def ReadsFollowers : Prop :=
  ∃ model cond log follower, r.ctx.registry.get r.model = .ok model ∧
    (r.buildCondition calls model).run answers = .ok (cond, log) ∧ Event.followers follower ∈ log

/-- No table is named like an alias that the kernel makes up: neither the model's, nor that of a
many2many. -/
def PlainTables : Prop :=
  PlainRelations r.ctx.registry ∧ ∀ model, r.ctx.registry.get r.model = .ok model → model.table ≠ "e"

variable {r calls answers}

/-- The root of a compilation is a place in its registry. -/
lemma placed_root {t : Twins} (hregistry : r.ctx.registry = t.registry) {model : Model}
    (hmodel : r.ctx.registry.get r.model = .ok model)
    (htable : t.db ≠ t.db' → model.table ≠ "e") : t.Placed (r.compiler model) where
  registry := hregistry
  known := ⟨r.model, by rwa [← hregistry, ← Twins.registry_get_eq_ok]⟩
  aliasName := htable

variable {t : Twins} {model : Model}

lemma given_implicitActive (hplaced : t.Placed (r.compiler model)) (node : Node) {cond : Condition}
    (hcond : t.SteadyCondition model.table model.table cond) :
    Given t.Allows (r.implicitActive model node cond)
      (t.SteadyCondition model.table model.table) := by
  unfold implicitActive
  split
  · exact .pure hcond
  split
  · exact .pure hcond
  · exact .emit fun hread => .pure (hcond.addPredicate
      (Twins.steady_isIn (Twins.steadyExpr_col (hplaced.isRead hread)) _))

lemma given_ruleCondition (hplaced : t.Placed (r.compiler model)) {cond : Condition}
    (hcond : t.SteadyCondition model.table model.table cond) :
    Given t.Allows (r.ruleCondition calls model cond)
      (t.SteadyCondition model.table model.table) := by
  unfold ruleCondition
  split
  · exact .pure hcond
  · refine .lift fun _ _ => ?_
    split
    · exact .pure hcond
    · refine (Twins.given_compileRules hplaced (fun _ hc n => Twins.given_compile calls hc n) _).bind
        fun rules hrules => .pure ?_
      exact hcond.add hrules

/-- **The condition of a domain, with all that is added to it.** -/
lemma given_whereOf (hplaced : t.Placed (r.compiler model)) (node : Node) :
    Given t.Allows (r.whereOf calls model node) (t.SteadyCondition model.table model.table) := by
  refine (Twins.given_compile calls hplaced node).bind fun found hfound => ?_
  refine (given_implicitActive hplaced node
    ((Twins.steadyCondition_empty true).add hfound)).bind fun cond hcond => ?_
  exact given_ruleCondition hplaced hcond

lemma sees_buildCondition (hplaced : t.Placed (r.compiler model)) :
    Asking.Sees answers t.Allows (r.buildCondition calls model)
      (t.SteadyCondition model.table model.table) :=
  .bind fun _ => .bind fun _ => .bind fun node => .ofCompile (given_whereOf hplaced node)

/-- **The condition of a search is about the row of the model alone**: it is worth the same whatever
the other aliases of the statement stand for. -/
lemma buildCondition_scoped (hmodel : r.ctx.registry.get r.model = .ok model) {cond : Condition}
    {log : List Event} (hrun : (r.buildCondition calls model).run answers = .ok (cond, log))
    (db : Database) {env env' : Env} (henv : env model.table = env' model.table) :
    cond.toPredicate.eval db env = cond.toPredicate.eval db env' := by
  let t : Twins :=
    { registry := r.ctx.registry, read := fun _ _ => True, db, db' := db, agree := Agree.refl db
      numbered := fun h => absurd rfl h, relations := fun h => absurd rfl h }
  have hplaced : t.Placed (r.compiler model) := placed_root rfl hmodel fun h => absurd rfl h
  have hsteady := sees_buildCondition hplaced cond log hrun fun e _ => by
    cases e with
    | touch | bypass | subquery => exact trivial
    | followers => exact fun _ _ => Matched.refl fun _ _ _ _ => rfl
  refine hsteady.toPredicate env env' ?_
  show RowsAlike _ _ _ (env model.table) (env' model.table)
  rw [henv]
  exact RowsAlike.refl _ _

/-- What a request compiles to: FALSE, or the condition with the columns recorded for it. -/
lemma compileWhere_cases {w : CompiledWhere} (h : r.compileWhere calls answers = .ok w) :
    ∃ model cond log, r.ctx.registry.get r.model = .ok model ∧
      (r.buildCondition calls model).run answers = .ok (cond, log) ∧
      (w = { fragment := .const false, touched := [] } ∨
        w = { fragment := cond.toPredicate, touched := touchedOf log }) := by
  simp only [compileWhere, bind_eq_ok] at h
  obtain ⟨model, hmodel, ⟨cond, log⟩, hrun, false?, -, h⟩ := h
  refine ⟨model, cond, log, hmodel, hrun, ?_⟩
  cases false? with
  | true => exact .inl (pure_eq_ok.mp h).symm
  | false => exact .inr (pure_eq_ok.mp h).symm

/-- **What Python flushes is all that the search reads**, unless the search is one for followers and
the databases differ there. -/
theorem compileWhere_steady {w : CompiledWhere} (hw : r.compileWhere calls answers = .ok w)
    (htables : r.PlainTables) {db db' : Database}
    (hfollowers : r.ReadsFollowers calls answers → FollowersAgree r.ctx.registry db db') :
    r.FlushComplete w db db' := by
  intro hnumbered hagree model' hmodel'
  obtain ⟨model, cond, log, hmodel, hrun, hw⟩ := compileWhere_cases hw
  obtain rfl : model = model' := Except.ok.inj (hmodel.symm.trans hmodel')
  let t : Twins :=
    { registry := r.ctx.registry, read := fun model column => (model, column) ∈ w.touched
      db, db', agree := hagree, numbered := fun _ => hnumbered, relations := fun _ => htables.1 }
  have hplaced : t.Placed (r.compiler model) := placed_root rfl hmodel fun _ => htables.2 model hmodel
  have hsteady : t.Steady model.table model.table w.fragment := by
    rcases hw with rfl | rfl
    · exact Twins.steady_const false
    · refine (sees_buildCondition hplaced cond log hrun fun e he => ?_).toPredicate
      cases e with
      | touch model column => exact mem_touchedOf.mpr he
      | followers follower => exact hfollowers ⟨model, cond, log, follower, hmodel, hrun, he⟩
      | bypass | subquery => exact trivial
  have hselect : t.SteadySelect model.table model.table
      (.from (.col model.table "id") model.table model.table [w.fragment]) := by
    refine Twins.steadySelect_from (Twins.registry_get_eq_ok.mp hmodel) Twins.steadyExpr_id
      fun p hp => ?_
    rw [List.mem_singleton.mp hp]
    exact hsteady
  exact hselect _ _ (RowsAlike.refl _ _)

end SearchRequest

/-! ## A search for followers -/

namespace Followed

open SearchRequest

/-- The partners that follow a record, as a field that is searched and not stored. -/
def messagePartnerIds : Field :=
  { Field.column "message_partner_ids" .Many2many "" none with
    relation := some "res.partner", hasColumn := false, stored := false
    searchKind := some "mail_followers_partner" }

def doc : Model :=
  plainModel "doc" "doc" [("id", Field.column "id" .Integer "int4" none),
    ("name", Field.column "name" .Char "varchar" (some (.string ""))),
    ("note", Field.column "note" .Char "varchar" (some (.string ""))),
    ("message_partner_ids", messagePartnerIds)]

def followers : Model :=
  plainModel "mail.followers" "mail_followers" [
    ("res_model", Field.column "res_model" .Char "varchar" (some (.string ""))),
    ("res_id", Field.column "res_id" .Many2oneReference "int4" none),
    ("partner_id", linkField "partner_id" "res.partner")]

def registry : Registry := plainRegistry [("doc", doc), ("mail.followers", followers)]

/-- A row with an id and one more column of each kind. -/
def docRow (id : ℤ) (name note : String) : Row
  | "id" => some (.int id)
  | "name" => some (.text name)
  | "note" => some (.text note)
  | _ => none

def followerRow (resId : ℤ) : Row
  | "id" => some (.int 1)
  | "res_model" => some (.text "doc")
  | "res_id" => some (.int resId)
  | "partner_id" => some (.int 5)
  | _ => none

/-- Two documents, and a partner that follows one of them. -/
def database (note : String) (followed : ℤ) : Database where
  table name := if name = "doc" then [docRow 1 "a" note, docRow 2 "b" note]
    else if name = "mail_followers" then [followerRow followed] else []
  fragment _ := []
  server := Server.plain

def request (domain : Json) : SearchRequest where
  ctx := ExprCtx.plain registry (Security.plain [] []) none
  model := "doc"
  domain := domain
  rules := RuleSet.empty
  su := true
  trusted := false
  rootActiveTest := true

def followedBy : SearchRequest := request (.array [term "message_partner_ids" "in" (.ints [5])])

def named : SearchRequest := request (.array [term "name" "=" (.string "a")])

/-- A model of the registry is one of the two. -/
lemma eq_of_lookup {k : String} {m : Model} (h : registry.lookup k = some m) :
    m = doc ∨ m = followers := by
  have hmem := Dict.mem_of_get? h
  simp only [registry, plainRegistry, List.mem_cons, Prod.mk.injEq, List.not_mem_nil, or_false] at hmem
  exact hmem.imp And.right And.right

lemma numbered (note : String) (followed : ℤ) : NumberedIds registry (database note followed) := by
  intro k m hm row hrow
  rcases eq_of_lookup hm with rfl | rfl
  · simp only [doc, plainModel, database, if_true, List.mem_cons, List.not_mem_nil, or_false] at hrow
    rcases hrow with rfl | rfl
    · exact ⟨1, rfl⟩
    · exact ⟨2, rfl⟩
  · obtain rfl := List.mem_singleton.mp hrow
    exact ⟨1, rfl⟩

/-- No field of the registry has a relation table. -/
lemma not_m2mColumns {k name : String} {m : Model} {field : Field} {columns : String × String × String}
    (hm : registry.lookup k = some m) (hfield : m.fields.get? name = some field) :
    field.m2mColumns ≠ .ok columns := by
  have hmem := Dict.mem_of_get? hfield
  rcases eq_of_lookup hm with rfl | rfl
  · simp only [doc, plainModel, List.mem_cons, Prod.mk.injEq, List.not_mem_nil, or_false] at hmem
    rcases hmem with ⟨-, rfl⟩ | ⟨-, rfl⟩ | ⟨-, rfl⟩ | ⟨-, rfl⟩ <;> exact nofun
  · simp only [followers, plainModel, List.mem_cons, Prod.mk.injEq, List.not_mem_nil, or_false] at hmem
    rcases hmem with ⟨-, rfl⟩ | ⟨-, rfl⟩ | ⟨-, rfl⟩ <;> exact nofun

/-- Rows that differ in columns that are not read agree. -/
lemma agree {read : String → String → Prop} {note note' : String} {followed followed' : ℤ}
    (hnote : read "doc" "note" → note = note')
    (hfollowed : read "mail.followers" "res_id" → followed = followed') :
    Agree registry read (database note followed) (database note' followed') where
  server := rfl
  fragment := rfl
  links _ _ _ _ _ _ _ hm hfield hcolumns _ := absurd hcolumns (not_m2mColumns hm hfield)
  tables k m hm := by
    have hdoc : ∀ id name, RowsAlike registry read "doc" (docRow id name note)
        (docRow id name note') := by
      refine fun id name => ⟨rfl, fun k' m' column hm' htable hread => ?_⟩
      rcases eq_of_lookup hm' with rfl | rfl
      · unfold docRow
        split
        · rfl
        · rfl
        · rw [hnote hread]
        · rfl
      · exact absurd htable (by decide)
    rcases eq_of_lookup hm with rfl | rfl
    · refine ⟨fun row hrow => ?_, fun row hrow => ?_⟩
      all_goals
        simp only [doc, plainModel, database, if_true, List.mem_cons, List.not_mem_nil,
          or_false] at hrow
        rcases hrow with rfl | rfl
      · exact ⟨_, List.mem_cons_self, hdoc 1 "a"⟩
      · exact ⟨_, List.mem_cons_of_mem _ List.mem_cons_self, hdoc 2 "b"⟩
      · exact ⟨_, List.mem_cons_self, hdoc 1 "a"⟩
      · exact ⟨_, List.mem_cons_of_mem _ List.mem_cons_self, hdoc 2 "b"⟩
    · have hrow : RowsAlike registry read "mail_followers" (followerRow followed)
          (followerRow followed') := by
        refine ⟨rfl, fun k' m' column hm' htable hread => ?_⟩
        rcases eq_of_lookup hm' with rfl | rfl
        · exact absurd htable (by decide)
        · unfold followerRow
          split
          · rfl
          · rfl
          · rw [hfollowed hread]
          · rfl
          · rfl
      refine ⟨fun row h => ?_, fun row h => ?_⟩
      · obtain rfl := List.mem_singleton.mp h
        exact ⟨_, List.mem_cons_self, hrow⟩
      · obtain rfl := List.mem_singleton.mp h
        exact ⟨_, List.mem_cons_self, hrow⟩

/-- No question is asked. -/
def answers : ∀ q : Question, q.Answer :=
  answersOf 10 named.ctx (database "" 1) (some (RuleSet.empty, true))

/-- **A search for followers flushes nothing**: the partner's document is not found where the row that
says so is still to be written. -/
theorem followers_not_flushed : ∃ w, followedBy.compileWhere 10 answers = .ok w ∧ w.touched = [] ∧
    ¬ followedBy.FlushComplete w (database "" 1) (database "" 2) := by
  refine ⟨_, rfl, rfl, fun h => ?_⟩
  have hone := (h (numbered "" 1) (agree (fun _ => rfl) fun h => absurd h List.not_mem_nil) doc rfl
    (some (.int 1))).mp (by decide +kernel)
  exact absurd hone (by decide +kernel)

/-- A search by name flushes the names, and need not flush the notes. -/
theorem compileWhere_steady_named : ∃ w, named.compileWhere 10 answers = .ok w ∧
    named.FlushComplete w (database "" 1) (database "x" 1) := by
  obtain ⟨w, hw⟩ : ∃ w, named.compileWhere 10 answers = .ok w := ⟨_, rfl⟩
  refine ⟨w, hw, compileWhere_steady hw ⟨?_, ?_⟩ ?_⟩
  · exact fun k m name field rel c1 c2 hm hfield hcolumns => absurd hcolumns (not_m2mColumns hm hfield)
  · intro model hmodel
    obtain rfl := Except.ok.inj (hmodel.symm.trans (rfl : _ = Except.ok doc))
    decide
  · intro _ model hmodel
    obtain rfl : followers = model := Option.some.inj hmodel
    exact Matched.refl fun _ _ _ _ => rfl

end Followed

end OdooKernel
