import OdooKernel.Core.Dict
import OdooKernel.Core.Runs
import OdooKernel.Cursor.Keywords
import OdooKernel.Cursor.Placeholders
import OdooKernel.Sql.Decode

/-!
# The plans a cursor keeps

A statement is prepared once and its plan is kept under its text: with the declared types of its
parameters behind a zero character where it has parameters, alone where it has none.

**One dictionary, two kinds of keys.**  A text that itself holds a zero character and digits could be
the key of another statement with types.  The server never prepares such a text, which is all that is
asked of it (`Preparing`); the keys of statements with types are apart among themselves
(`typedKey_injective`).  A plan is kept here with what it was prepared for, so that it can be said
that the plan that is found is a plan for the statement and the types at hand.

**Room.**  All plans are dropped where there is no room for one more, but only by a statement with
parameters: a query without any is kept beyond the bound.  `Fine` excludes that, on the state before
the call, and a run of fine calls stays within the bound.

* `typedKey` — the key of a statement with parameters; `typedKey_injective`.
* `executeStatement` — what a call does to the plans, and the plan it uses.
* `step` — the calls on a connection.
* `Fine` — no call keeps one plan more where there is no room, or finds a plan that is not its own.
* `fine_iff` — the condition is exact.
* **`bounded_of_fine_run`** — the plans stay few, and each is used for its own text and types.

The flags of the transaction are the subject of `Cursor/Connection`; the plans of the kernel's own
statements are that of `Cache/Statements`.
-/

namespace OdooKernel

namespace Plans

/-- How many plans a cursor keeps. -/
def maxPrepared : ℕ := 256

/-- A plan, with what it was prepared for: a text, and the declared types of its parameters. -/
structure Plan where
  sql : List Char
  types : List ℕ
deriving DecidableEq, Repr

/-- What the server and its driver make of the texts they are to prepare.  The protocol ends a text
with a zero character, so the driver refuses one that holds it. -/
structure Preparing where
  grants : List Char → Bool
  refuses_nul : ∀ sql, '\x00' ∈ sql → grants sql = false

/-- A parameter: the type its value is declared with, and whether its text holds a zero
character. -/
structure Param where
  oid : ℕ
  holdsNul : Bool
deriving DecidableEq, Repr

/-- The parameters of a call; a sequence may not tell its length. -/
inductive Params where
  | none
  | dict (items : List (List Char × Param))
  | sequence (sized : Bool) (items : List Param)
  | failing
deriving DecidableEq, Repr

/-- Whether the parameters are known to be none. -/
def Params.unparameterised : Params → Bool
  | .none => true
  | .dict items => items.isEmpty
  | .sequence sized items => sized && items.isEmpty
  | .failing => false

/-- The values of the parameters that a text names. -/
def Params.values (names : List (List Char)) : Params → Option (List Param)
  | .none | .failing => Option.none
  | .dict items => names.mapM fun name => Dict.get? items name
  | .sequence _ items => if items.length = names.length then some items else Option.none

/-- The key of a statement with parameters. -/
def typedKey (sql : List Char) (types : List ℕ) : List Char :=
  sql ++ '\x00' :: [','].intercalate (types.map (Nat.toDigits 10))

/-- A connection: whether it is closed, and the plans it keeps. -/
structure RustConn where
  closed : Bool
  stmtCache : Dict (List Char) Plan
deriving DecidableEq, Repr

/-- The plan that a call uses, and whether it was kept from an earlier one. -/
structure Use where
  plan : Plan
  kept : Bool
deriving DecidableEq, Repr

/-! ## A statement -/

section Statements

variable (conn : RustConn)

/-- `clear_prepared`; `clear_prepared_after_rollback` does the same to these plans. -/
def clearPrepared : RustConn := { conn with stmtCache := [] }

/-- A plan is kept. -/
def keep (key : List Char) (plan : Plan) : RustConn :=
  { conn with stmtCache := conn.stmtCache.insert key plan }

/-- The statements that end prepared ones end these. -/
def invalidated (query : List Char) : RustConn :=
  if statementDrops query || statementInvalidatesPrepared query then clearPrepared conn else conn

/-- The plan of a statement with parameters: all plans go where there is no room for one more. -/
def typedPlan (preparing : Preparing) (sql : List Char) (types : List ℕ) :
    RustConn × Option Use :=
  match conn.stmtCache.get? (typedKey sql types) with
  | some plan => (conn, some { plan, kept := true })
  | none =>
    if preparing.grants sql then
      let room := if maxPrepared ≤ conn.stmtCache.length then clearPrepared conn else conn
      (keep room (typedKey sql types) { sql, types },
        some { plan := { sql, types }, kept := false })
    else (conn, none)

/-- The plan of a query without parameters. -/
def plainPlan (preparing : Preparing) (sql : List Char) : RustConn × Option Use :=
  match conn.stmtCache.get? sql with
  | some plan => (conn, some { plan, kept := true })
  | none =>
    if preparing.grants sql then
      (keep conn sql { sql, types := [] },
        some { plan := { sql, types := [] }, kept := false })
    else (conn, none)

/-- One statement: with parameters it is prepared for their types, without them only a query is
prepared. -/
def singleStatement (preparing : Preparing) (query : List Char) (params : Params) :
    RustConn × Option Use :=
  if params = .none then
    if returnsRows query then plainPlan conn preparing query else (conn, none)
  else
    let (sql, names) := translatePlaceholders query
    match params.values names with
    | none => (conn, none)
    | some values =>
      if values.any Param.holdsNul then (conn, none)
      else typedPlan conn preparing sql (values.map Param.oid)

/-- What a statement does to the plans, and the plan it uses.  `begun` tells whether a transaction
is open or could be opened; what comes behind the plan changes no plan. -/
def executeStatement (begun : Bool) (preparing : Preparing) (query : List Char)
    (params : Params) : RustConn × Option Use :=
  if conn.closed ∨ ¬ begun then (conn, none)
  else
    let conn := invalidated conn query
    if params.unparameterised && hasMultipleStatements query then (clearPrepared conn, none)
    else singleStatement conn preparing query params

end Statements

/-! ## Runs -/

/-- The calls on a connection.  `fatal` tells whether the call ends with an error after which the
connection is closed. -/
inductive Call where
  | execute (begun : Bool) (preparing : Preparing) (query : List Char) (params : Params)
      (fatal : Bool)
  | execSimple (sql : List Char) (fatal : Bool)
  | kernelRead (begun failed : Bool)
  | copy (statement : List Char)
  | commit
  | rollback
  | resetSession (ended ran discard : Bool)
  | clearPrepared
  | close

/-- What a call does to the connection. -/
def step (conn : RustConn) : Call → Option RustConn
  | .execute begun preparing query params fatal =>
    let after := (executeStatement conn begun preparing query params).1
    some { after with closed := after.closed || fatal }
  | .execSimple _ fatal => some { conn with closed := conn.closed || fatal }
  | .kernelRead begun failed => some (if begun ∧ failed then Plans.clearPrepared conn else conn)
  | .copy _ | .commit => some conn
  | .rollback => some (Plans.clearPrepared conn)
  | .resetSession ended ran discard =>
    let ending := Plans.clearPrepared conn
    some (if conn.closed then conn
      else if ended ∧ ran ∧ discard then Plans.clearPrepared ending else ending)
  | .clearPrepared => some (Plans.clearPrepared conn)
  | .close => some (if conn.closed then conn else { Plans.clearPrepared conn with closed := true })

/-- A connection as it is opened. -/
def fresh : RustConn := { closed := false, stmtCache := [] }

/-! ## What is asked of the plans -/

/-- What the plan of a call is to be prepared for: the text that is sent, and the types that the
parameters are declared with. -/
def asked (query : List Char) (params : Params) : Plan :=
  if params = .none then { sql := query, types := [] }
  else
    let (sql, names) := translatePlaceholders query
    { sql, types := ((params.values names).getD []).map Param.oid }

/-- A query without parameters is neither found under the key of another statement nor kept where
there is no room. -/
def Fine (conn : RustConn) : Call → Prop
  | .execute begun preparing query .none _ =>
    ¬ conn.closed → begun → ¬ hasMultipleStatements query → returnsRows query →
      let kept := (invalidated conn query).stmtCache
      ('\x00' ∈ query → kept.get? query = none) ∧
        (kept.get? query = none → preparing.grants query → kept.length < maxPrepared)
  | _ => True

instance (conn : RustConn) : (call : Call) → Decidable (Fine conn call)
  | .execute begun preparing query .none _ =>
    inferInstanceAs (Decidable (¬ conn.closed → begun → ¬ hasMultipleStatements query →
      returnsRows query →
        ('\x00' ∈ query → (invalidated conn query).stmtCache.get? query = none) ∧
          ((invalidated conn query).stmtCache.get? query = none → preparing.grants query →
            (invalidated conn query).stmtCache.length < maxPrepared)))
  | .execute _ _ _ (.dict _) _ | .execute _ _ _ (.sequence _ _) _ | .execute _ _ _ .failing _
  | .execSimple _ _ | .kernelRead _ _ | .copy _ | .commit | .rollback | .resetSession _ _ _
  | .clearPrepared | .close => isTrue trivial

/-- A plan under a key of what it was prepared for. -/
def Filed (key : List Char) (plan : Plan) : Prop :=
  key = typedKey plan.sql plan.types ∨
    key = plan.sql ∧ plan.types = [] ∧ '\x00' ∉ plan.sql

/-- The plans are few, and each is filed under a key of its own. -/
structure Tidy (conn : RustConn) : Prop where
  few : conn.stmtCache.length ≤ maxPrepared
  filed : ∀ entry ∈ conn.stmtCache, Filed entry.1 entry.2

/-! ## Keys -/

lemma toDigits_injective : Function.Injective (Nat.toDigits 10) := by
  intro m n h
  have hread := congrArg (fun ds => Nat.ofDigitChars 10 ds 0) h
  simpa only [Nat.ofDigitChars_ten_toDigits] using hread

/-- The text of some types is digits and commas. -/
lemma mem_typesText {types : List ℕ} {c : Char}
    (h : c ∈ [','].intercalate (types.map (Nat.toDigits 10))) : c.isDigit ∨ c = ',' := by
  induction types with
  | nil => exact absurd h (by simp [List.intercalate])
  | cons n types ih =>
      rw [List.map_cons, intercalate_cons, List.mem_append] at h
      rcases h with h | h
      · exact Or.inl (Nat.isDigit_of_mem_toDigits (by omega) (by omega) h)
      · obtain ⟨digits, hdigits, hc⟩ := List.mem_flatMap.mp h
        obtain ⟨m, _, rfl⟩ := List.mem_map.mp hdigits
        rcases List.mem_cons.mp hc with rfl | hc
        · exact Or.inr rfl
        · exact Or.inl (Nat.isDigit_of_mem_toDigits (by omega) (by omega) hc)

lemma nul_not_mem_typesText (types : List ℕ) :
    '\x00' ∉ [','].intercalate (types.map (Nat.toDigits 10)) := by
  intro h
  rcases mem_typesText h with h | h
  · exact absurd h (by decide)
  · exact absurd h (by decide)

lemma typesText_eq_nil {types : List ℕ}
    (h : [','].intercalate (types.map (Nat.toDigits 10)) = []) : types = [] := by
  cases types with
  | nil => rfl
  | cons n types =>
      rw [List.map_cons, intercalate_cons] at h
      exact absurd (List.append_eq_nil_iff.mp h).1 Nat.toDigits_ne_nil

/-- The types can be read off their text. -/
lemma typesText_injective :
    Function.Injective fun types : List ℕ => [','].intercalate (types.map (Nat.toDigits 10)) := by
  intro types types' h
  have hcomma : ∀ (ns : List ℕ), ∀ digits ∈ ns.map (Nat.toDigits 10), ',' ∉ digits := by
    intro ns digits hdigits hc
    obtain ⟨n, _, rfl⟩ := List.mem_map.mp hdigits
    exact absurd (Nat.isDigit_of_mem_toDigits (by omega) (by omega) hc) (by decide)
  by_cases hnil : types = []
  · subst hnil
    exact (typesText_eq_nil h.symm).symm
  · have hnil' : types' ≠ [] := by
      rintro rfl
      exact hnil (typesText_eq_nil h)
    have hsplit := congrArg (List.splitOn ',') h
    simp only at hsplit
    rw [List.splitOn_intercalate ',' (hcomma types) (by simpa using hnil),
      List.splitOn_intercalate ',' (hcomma types') (by simpa using hnil')] at hsplit
    exact List.map_injective_iff.mpr toDigits_injective hsplit

/-- What stands behind the last of a character tells the text before it. -/
lemma append_cons_inj {c : Char} {xs ys as bs : List Char} (has : c ∉ as) (hbs : c ∉ bs)
    (h : xs ++ c :: as = ys ++ c :: bs) : xs = ys ∧ as = bs := by
  rcases List.append_eq_append_iff.mp h with ⟨zs, rfl, hzs⟩ | ⟨zs, rfl, hzs⟩
  · cases zs with
    | nil => exact ⟨by simp, (List.cons.inj hzs).2⟩
    | cons z zs =>
        rw [List.cons_append] at hzs
        exact absurd ((List.cons.inj hzs).2 ▸ List.mem_append_right zs List.mem_cons_self) has
  · cases zs with
    | nil => exact ⟨by simp, (List.cons.inj hzs).2.symm⟩
    | cons z zs =>
        rw [List.cons_append] at hzs
        exact absurd ((List.cons.inj hzs).2 ▸ List.mem_append_right zs List.mem_cons_self) hbs

/-- **The key tells the text and the types**: the last zero character parts them. -/
lemma typedKey_injective {sql sql' : List Char} {types types' : List ℕ}
    (h : typedKey sql types = typedKey sql' types') : sql = sql' ∧ types = types' := by
  obtain ⟨hsql, htypes⟩ :=
    append_cons_inj (nul_not_mem_typesText types) (nul_not_mem_typesText types') h
  exact ⟨hsql, typesText_injective htypes⟩

lemma nul_mem_typedKey (sql : List Char) (types : List ℕ) : '\x00' ∈ typedKey sql types :=
  List.mem_append_right _ List.mem_cons_self

/-! ## What is filed under a key -/

/-- Under the key of a statement with parameters there is its own plan. -/
lemma Filed.typed {sql : List Char} {types : List ℕ} {plan : Plan}
    (h : Filed (typedKey sql types) plan) : plan = { sql, types } := by
  rcases h with h | ⟨h, _, hnul⟩
  · obtain ⟨hsql, htypes⟩ := typedKey_injective h
    rw [hsql, htypes]
  · exact absurd (h ▸ nul_mem_typedKey sql types) hnul

/-- Under a text without a zero character there is its own plan. -/
lemma Filed.plain {sql : List Char} {plan : Plan} (h : Filed sql plan) (hnul : '\x00' ∉ sql) :
    plan = { sql, types := [] } := by
  rcases h with h | ⟨h, htypes, _⟩
  · exact absurd (h ▸ nul_mem_typedKey plan.sql plan.types) hnul
  · rw [h, ← htypes]

/-- A plan that is granted holds no zero character. -/
lemma Preparing.nul_not_mem (preparing : Preparing) {sql : List Char}
    (h : preparing.grants sql) : '\x00' ∉ sql := by
  intro hnul
  rw [preparing.refuses_nul sql hnul] at h
  exact absurd h (by decide)

/-! ## What the parts of a call keep -/

section Keeps

variable {conn : RustConn}

lemma tidy_clearPrepared (conn : RustConn) : Tidy (clearPrepared conn) where
  few := Nat.zero_le _
  filed := fun _ h => absurd h List.not_mem_nil

lemma tidy_invalidated (h : Tidy conn) (query : List Char) : Tidy (invalidated conn query) := by
  unfold invalidated
  split
  · exact tidy_clearPrepared conn
  · exact h

/-- A plan is kept where there is room for it. -/
lemma tidy_keep (h : Tidy conn) {key : List Char} {plan : Plan}
    (hroom : conn.stmtCache.length < maxPrepared) (hfiled : Filed key plan) :
    Tidy (keep conn key plan) where
  few := by
    have hfewer := List.length_filter_le (fun e : List Char × Plan => decide (e.1 ≠ key))
      conn.stmtCache
    simp only [keep, Dict.insert, List.length_cons]
    omega
  filed := by
    intro entry hentry
    rcases List.mem_cons.mp hentry with rfl | hentry
    · exact hfiled
    · exact h.filed entry (List.mem_filter.mp hentry).1

/-- A plan that is found is one that is filed. -/
lemma Tidy.filed_of_get? (h : Tidy conn) {key : List Char} {plan : Plan}
    (hget : conn.stmtCache.get? key = some plan) : Filed key plan :=
  h.filed (key, plan) (Dict.mem_of_get? hget)

/-- **With parameters**: the plans stay few, and the one that is used is the statement's own. -/
lemma typedPlan_keeps (h : Tidy conn) (preparing : Preparing) (sql : List Char)
    (types : List ℕ) :
    Tidy (typedPlan conn preparing sql types).1 ∧
      ∀ use ∈ (typedPlan conn preparing sql types).2, use.plan = { sql, types } := by
  unfold typedPlan
  cases hget : conn.stmtCache.get? (typedKey sql types) with
  | some plan =>
      refine ⟨h, ?_⟩
      intro use huse
      obtain rfl := Option.some.inj huse
      exact (h.filed_of_get? hget).typed
  | none =>
      simp only
      split
      · refine ⟨?_, ?_⟩
        · by_cases hfull : maxPrepared ≤ conn.stmtCache.length
          · rw [if_pos hfull]
            exact tidy_keep (tidy_clearPrepared conn) (show 0 < maxPrepared by decide) (Or.inl rfl)
          · rw [if_neg hfull]
            exact tidy_keep h (by omega) (Or.inl rfl)
        · intro use huse
          obtain rfl := Option.some.inj huse
          rfl
      · exact ⟨h, fun use huse => absurd huse (by simp)⟩

/-- **Without parameters**: the same, for a query that is not found under another statement's key
and not kept where there is no room. -/
lemma plainPlan_keeps (h : Tidy conn) (preparing : Preparing) {sql : List Char}
    (hnul : '\x00' ∈ sql → conn.stmtCache.get? sql = none)
    (hroom : conn.stmtCache.get? sql = none → preparing.grants sql →
      conn.stmtCache.length < maxPrepared) :
    Tidy (plainPlan conn preparing sql).1 ∧
      ∀ use ∈ (plainPlan conn preparing sql).2, use.plan = { sql, types := [] } := by
  unfold plainPlan
  cases hget : conn.stmtCache.get? sql with
  | some plan =>
      refine ⟨h, ?_⟩
      intro use huse
      obtain rfl := Option.some.inj huse
      refine (h.filed_of_get? hget).plain fun hmem => ?_
      rw [hnul hmem] at hget
      exact absurd hget (by simp)
  | none =>
      simp only
      split
      · next hgrants =>
          refine ⟨tidy_keep h (hroom hget hgrants)
            (Or.inr ⟨rfl, rfl, preparing.nul_not_mem hgrants⟩), ?_⟩
          intro use huse
          obtain rfl := Option.some.inj huse
          rfl
      · exact ⟨h, fun use huse => absurd huse (by simp)⟩

/-- **A statement**: the plans stay few, and the one it uses was prepared for its own text and
types. -/
lemma executeStatement_keeps (h : Tidy conn) {begun : Bool} {preparing : Preparing}
    {query : List Char} {params : Params} {fatal : Bool}
    (hfine : Fine conn (.execute begun preparing query params fatal)) :
    Tidy (executeStatement conn begun preparing query params).1 ∧
      ∀ use ∈ (executeStatement conn begun preparing query params).2,
        use.plan = asked query params := by
  have hnone : ∀ use ∈ (none : Option Use), use.plan = asked query params :=
    fun use huse => absurd huse (by simp)
  unfold executeStatement
  by_cases hopen : conn.closed ∨ ¬ begun
  · rw [if_pos hopen]
    exact ⟨h, hnone⟩
  have htidy := tidy_invalidated h query
  rw [if_neg hopen]
  by_cases hseveral : params.unparameterised && hasMultipleStatements query
  · simp only [hseveral, if_true]
    exact ⟨tidy_clearPrepared _, hnone⟩
  simp only [hseveral]
  unfold singleStatement
  by_cases hparams : params = .none
  · subst hparams
    by_cases hrows : returnsRows query
    · -- a query without parameters, which is prepared
      obtain ⟨hnul, hroom⟩ := hfine (fun hclosed => hopen (Or.inl hclosed))
        (by simpa using fun hbegun => hopen (Or.inr hbegun)) (by simpa [Params.unparameterised]
          using hseveral) hrows
      simp only [hrows, if_true]
      exact plainPlan_keeps htidy preparing hnul hroom
    · simp only [hrows]
      exact ⟨htidy, hnone⟩
  · cases hvalues : params.values (translatePlaceholders query).2 with
    | none =>
        simp only [hparams, hvalues]
        exact ⟨htidy, hnone⟩
    | some values =>
        by_cases hheld : values.any Param.holdsNul
        · simp only [hparams, hvalues, hheld]
          exact ⟨htidy, hnone⟩
        · have hasked : asked query params
              = { sql := (translatePlaceholders query).1, types := values.map Param.oid } := by
            simp only [asked, hparams, if_false, hvalues, Option.getD_some]
          simp only [hparams, hvalues, hheld, hasked]
          exact typedPlan_keeps htidy preparing _ _

/-- A plan under a new key is one plan more. -/
lemma length_keep {key : List Char} (hget : conn.stmtCache.get? key = none) (plan : Plan) :
    (keep conn key plan).stmtCache.length = conn.stmtCache.length + 1 := by
  have hall : conn.stmtCache.filter (fun e => decide (e.1 ≠ key)) = conn.stmtCache := by
    refine List.filter_eq_self.mpr fun e he => ?_
    simp only [decide_eq_true_eq]
    rintro rfl
    have hsome := Dict.isSome_get?_of_mem he
    rw [hget] at hsome
    exact absurd hsome (by simp)
  rw [keep, Dict.insert, List.length_cons, hall]

/-- A plan under the text of a query that holds a zero character is another statement's. -/
lemma Filed.ne_of_nul {sql : List Char} {plan : Plan} (h : Filed sql plan) (hnul : '\x00' ∈ sql) :
    plan ≠ { sql, types := [] } := by
  rintro rfl
  rcases h with h | ⟨_, _, hfree⟩
  · have hlength := congrArg List.length h
    rw [typedKey, List.length_append, List.length_cons] at hlength
    simp only at hlength
    omega
  · exact hfree hnul

/-- **The condition is exact**: a call that does not meet it keeps one plan too many, or uses a
plan that is not its own. -/
lemma fine_iff (h : Tidy conn) {begun : Bool} {preparing : Preparing} {query : List Char}
    {params : Params} {fatal : Bool} :
    Fine conn (.execute begun preparing query params fatal) ↔
      (executeStatement conn begun preparing query params).1.stmtCache.length ≤ maxPrepared ∧
        ∀ use ∈ (executeStatement conn begun preparing query params).2,
          use.plan = asked query params := by
  constructor
  · intro hfine
    obtain ⟨htidy, huse⟩ := executeStatement_keeps h hfine
    exact ⟨htidy.few, huse⟩
  rintro ⟨hfew, huse⟩
  cases params with
  | dict items => trivial
  | sequence sized items => trivial
  | failing => trivial
  | none =>
      intro hopen hbegun hsingle hrows
      have hcourse : executeStatement conn begun preparing query .none
          = plainPlan (invalidated conn query) preparing query := by
        simp only [executeStatement, hopen, hbegun, singleStatement, hrows,
          Bool.eq_false_iff.mpr hsingle]
        simp
      rw [hcourse] at hfew huse
      have htidy := tidy_invalidated h query
      refine ⟨fun hnul => ?_, fun hget hgrants => ?_⟩
      · cases hget : (invalidated conn query).stmtCache.get? query with
        | none => rfl
        | some plan =>
            refine absurd (huse { plan, kept := true } ?_)
              ((htidy.filed_of_get? hget).ne_of_nul hnul)
            rw [plainPlan, hget]
            rfl
      · rw [plainPlan, hget] at hfew
        simp only [hgrants, if_true, length_keep hget] at hfew
        omega

end Keeps

/-! ## Runs -/

/-- Closing a connection keeps its plans as they are. -/
lemma Tidy.closing {conn : RustConn} (h : Tidy conn) (closed : Bool) :
    Tidy { conn with closed } where
  few := h.few
  filed := h.filed

/-- **Every call keeps the plans few and filed.** -/
lemma step_keeps (conn : RustConn) (call : Call) (conn' : RustConn) (h : Tidy conn)
    (hfine : Fine conn call) (hstep : step conn call = some conn') : Tidy conn' := by
  cases call with
  | execute begun preparing query params fatal =>
      obtain rfl := Option.some.inj hstep
      exact (executeStatement_keeps h hfine).1.closing _
  | execSimple sql fatal =>
      obtain rfl := Option.some.inj hstep
      exact h.closing _
  | kernelRead begun failed =>
      obtain rfl := Option.some.inj hstep
      split
      · exact tidy_clearPrepared conn
      · exact h
  | copy statement =>
      obtain rfl := Option.some.inj hstep
      exact h
  | commit =>
      obtain rfl := Option.some.inj hstep
      exact h
  | rollback =>
      obtain rfl := Option.some.inj hstep
      exact tidy_clearPrepared conn
  | resetSession ended ran discard =>
      obtain rfl := Option.some.inj hstep
      split
      · exact h
      · split
        · exact tidy_clearPrepared _
        · exact tidy_clearPrepared conn
  | clearPrepared =>
      obtain rfl := Option.some.inj hstep
      exact tidy_clearPrepared conn
  | close =>
      obtain rfl := Option.some.inj hstep
      split
      · exact h
      · exact (tidy_clearPrepared conn).closing true

lemma tidy_fresh : Tidy fresh where
  few := Nat.zero_le _
  filed := fun _ h => absurd h List.not_mem_nil

/-- A server that prepares whatever the protocol can send. -/
def obliging : Preparing where
  grants sql := decide ('\x00' ∉ sql)
  refuses_nul sql h := by simp [h]

/-- A query without parameters, on an open connection. -/
def plainCall (query : List Char) : Call := .execute true obliging query .none false

/-- **The plans stay few, and each is used for what it was prepared for**, as long as no query
without parameters is kept where there is no room or is found under another statement's key; and the
next call keeps it so exactly if it is such a call. -/
theorem bounded_of_fine_run {calls : List Call} {conn : RustConn}
    (h : RunsWhile step Fine fresh calls conn) :
    conn.stmtCache.length ≤ maxPrepared ∧
      ∀ (begun : Bool) (preparing : Preparing) (query : List Char) (params : Params)
        (fatal : Bool), Fine conn (.execute begun preparing query params fatal) ↔
          (executeStatement conn begun preparing query params).1.stmtCache.length ≤ maxPrepared ∧
            ∀ use ∈ (executeStatement conn begun preparing query params).2,
              use.plan = asked query params := by
  have htidy := h.keeps step_keeps tidy_fresh
  exact ⟨htidy.few, fun _ _ _ _ _ => fine_iff htidy⟩

/-- An update with a parameter, and a query. -/
def updateAndQuery : List Call :=
  [.execute true obliging "UPDATE t SET a = %s".toList
      (.sequence true [{ oid := 23, holdsNul := false }]) false,
    plainCall "SELECT 1".toList]

/-- Two plans are kept, and the query uses its own again. -/
theorem updateAndQuery_run :
    ∃ conn, run step fresh updateAndQuery = some conn ∧ conn.stmtCache.length ≤ maxPrepared ∧
      ∀ use ∈ (executeStatement conn true obliging "SELECT 1".toList .none).2,
        use.plan = { sql := "SELECT 1".toList, types := [] } := by
  have hbounded := bounded_of_fine_run
    (runsWhile_of_run (by decide +kernel : Throughout step Fine fresh updateAndQuery) rfl)
  exact ⟨_, rfl, hbounded.1,
    ((hbounded.2 true obliging _ .none false).mp (by decide +kernel)).2⟩

/-! ## Queries without parameters -/

/-- A query alone, that ends no prepared statement. -/
def IsQuery (sql : List Char) : Prop :=
  statementDrops sql = false ∧ statementInvalidatesPrepared sql = false ∧
    hasMultipleStatements sql = false ∧ returnsRows sql = true ∧ '\x00' ∉ sql

instance (sql : List Char) : Decidable (IsQuery sql) :=
  inferInstanceAs (Decidable (_ ∧ _ ∧ _ ∧ _ ∧ _))

/-- **Every new text is one plan more**, however many there are. -/
lemma run_plainCalls : ∀ (queries : List (List Char)) (conn : RustConn), conn.closed = false →
    (∀ query ∈ queries, IsQuery query ∧ conn.stmtCache.get? query = none) → queries.Nodup →
    ∃ conn', run step conn (queries.map plainCall) = some conn' ∧
      conn'.stmtCache.length = conn.stmtCache.length + queries.length
  | [], conn, _, _, _ => ⟨conn, rfl, rfl⟩
  | query :: queries, conn, hopen, hnew, hnodup => by
      obtain ⟨⟨hdrops, hends, hsingle, hrows, hnul⟩, hget⟩ := hnew query List.mem_cons_self
      obtain ⟨hnotMem, hrest⟩ := List.nodup_cons.mp hnodup
      have hstep : step conn (plainCall query) = some (keep conn query ⟨query, []⟩) := by
        have hgrants : obliging.grants query = true := by simpa [obliging] using hnul
        simp only [step, plainCall, executeStatement, hopen, invalidated, hdrops, hends, hsingle,
          singleStatement, hrows, plainPlan]
        simp [hget, hgrants, keep, hopen]
      have hnext : ∀ q ∈ queries, IsQuery q ∧
          (keep conn query ⟨query, []⟩).stmtCache.get? q = none := by
        intro q hq
        refine ⟨(hnew q (List.mem_cons_of_mem _ hq)).1, ?_⟩
        have hne : query ≠ q := by
          rintro rfl
          exact hnotMem hq
        rw [keep, Dict.get?_insert, if_neg hne]
        exact (hnew q (List.mem_cons_of_mem _ hq)).2
      obtain ⟨conn', hrun, hlength⟩ := run_plainCalls queries (keep conn query ⟨query, []⟩) hopen hnext
        hrest
      refine ⟨conn', ?_, ?_⟩
      · rw [List.map_cons, run, hstep]
        exact hrun
      · rw [hlength, length_keep hget, List.length_cons]
        omega

/-- A query for a number. -/
def selectNumber (n : ℕ) : List Char := "SELECT ".toList ++ Nat.toDigits 10 n

/-- One query more than there is room for keeps one plan more. -/
theorem one_plan_too_many :
    ∃ conn, run step fresh (((List.range 257).map selectNumber).map plainCall) = some conn ∧
      maxPrepared < conn.stmtCache.length := by
  obtain ⟨conn, hrun, hlength⟩ := run_plainCalls ((List.range 257).map selectNumber) fresh rfl
    (fun query hquery => ⟨by
      revert query
      decide +kernel, rfl⟩)
    (List.nodup_range.map fun m n h => toDigits_injective (List.append_cancel_left h))
  refine ⟨conn, hrun, ?_⟩
  rw [hlength, List.length_map, List.length_range]
  decide

end Plans

end OdooKernel
