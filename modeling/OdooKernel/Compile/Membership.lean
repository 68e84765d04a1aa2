import OdooKernel.Compile.Columns

/-!
# What a membership selects

The comparands of a membership are JSON values, and the column holds values of its type.  NULL,
`false` and the field's falsy value read as one value, *unset*.

**What it should be.**  A comparand is the value that it is converted to (`IsValue`), or it stands
for no value (`Field.GivesUnset`); a row is a member where its value is that of a comparand, or both
are unset (`Member`).

**What it is.**  The condition compares the column with the parameters that are left when the
null-like comparands and the falsy value are taken out (`memberParams`), and with NULL where one of
them was there (`Compared`).  `inCondition_selects` says so of `in` and of `not in`, a row without a
value included.

**Where the two are the same.**  Whether the falsy value is among the comparands is decided on the
JSON values by `jsonEq`, and its value may be written in two ways.  `membershipExact_iff` is the
exact condition; `epoch_misses_unset` is a membership that misses it.

* `SameValue` — comparands with one value.
* `inCondition_spec` — comparands that the type accepts have a condition.
-/

namespace OdooKernel

/-! ## Comparands as values -/

/-- A comparand that the column's type accepts. -/
def Accepted (f : Field) (v : Json) : Prop := ∃ d, toValue f v = .ok d

/-- A value of the column is the value of a comparand. -/
def IsValue (f : Field) (v : Json) (d : Datum) : Prop :=
  ∃ x, toValue f v = .ok x ∧ d.equals x = true

/-- Two comparands are one value of the column. -/
def SameValue (f : Field) (v w : Json) : Prop := Accepted f v ∧ toValue f v = toValue f w

/-- A comparand that stands for no value. -/
def Field.GivesUnset (f : Field) (v : Json) : Prop :=
  isNullLike v = true ∨ ∃ falsy ∈ f.falsyJson, SameValue f v falsy

/-- A value of the column that reads as no value. -/
def Field.ReadsUnset (f : Field) (o : Option Datum) : Prop :=
  ∀ d ∈ o, (f.ttype = .Boolean ∧ d = .bool false) ∨ ∃ falsy ∈ f.falsyJson, IsValue f falsy d

/-- **Membership**: a value is among the comparands, where all that stands for no value is one
value. -/
def Member (f : Field) (values : List Json) (o : Option Datum) : Prop :=
  ∃ v ∈ values, (f.GivesUnset v ∧ f.ReadsUnset o) ∨
    (isNullLike v = false ∧ ∃ d ∈ o, IsValue f v d)

/-- What a comparand of a type is converted to. -/
def FieldType.converts : FieldType → Datum → Bool
  | .Integer, .int _ | .Many2one, .int _ | .Many2oneReference, .int _ => true
  | .Float, .double _ | .Monetary, .double _ => true
  | .Boolean, .bool _ => true
  | .Char, .text _ | .Text, .text _ | .Html, .text _ | .Selection, .text _ => true
  | .Date, .date _ => true
  | .Datetime, .timestamp _ => true
  | _, _ => false

/-- The integer that a comparand of an integer column is. -/
def comparandInt : Json → Option ℤ
  | .number n => n.asI64
  | .bool b => some (if b then 1 else 0)
  | _ => none

/-- An integer is converted as it is, if the column is wide enough. -/
lemma toValue_int {f : Field} (ht : f.ttype.converts (.int 0) = true) {v : Json} {x : Datum} :
    toValue f v = .ok x ↔
      ∃ n ∈ comparandInt v, (f.pgType = "int8" ∨ (-2 ^ 31 ≤ n ∧ n < 2 ^ 31)) ∧ x = .int n := by
  have hcast : ∀ n : ℤ, ((if f.pgType = "int8" ∨ (-2 ^ 31 ≤ n ∧ n < 2 ^ 31) then pure (.int n)
      else refuse ("cannot convert for " ++ f.pgType ++ " field " ++ f.name) : Result Datum)
        = .ok x) ↔ (f.pgType = "int8" ∨ (-2 ^ 31 ≤ n ∧ n < 2 ^ 31)) ∧ x = .int n := by
    intro n
    split_ifs with hfits
    · rw [pure_eq_ok, and_iff_right hfits]
      exact eq_comm
    · simp only [refuse_eq_ok, hfits, false_and]
  unfold toValue
  cases hkind : f.ttype <;> rw [hkind] at ht <;>
    simp only [FieldType.converts, Bool.false_eq_true] at ht
  all_goals
    cases v with
    | number n =>
        cases hn : n.asI64 with
        | none => simp [comparandInt, hn, bind_eq_ok]
        | some m => simpa [comparandInt, hn, bind_eq_ok] using hcast m
    | bool b => simpa [comparandInt, bind_eq_ok] using hcast (if b then 1 else 0)
    | null | string _ | array _ | object _ => simp [comparandInt, bind_eq_ok]

lemma converts_of_toValue {f : Field} {v : Json} {x : Datum} (h : toValue f v = .ok x) :
    f.ttype.converts x = true := by
  by_cases hint : f.ttype.converts (.int 0) = true
  · obtain ⟨n, -, -, rfl⟩ := (toValue_int hint).mp h
    cases ht : f.ttype <;> simp_all [FieldType.converts]
  unfold toValue at h
  cases ht : f.ttype <;> rw [ht] at h hint <;> dsimp only at h
  case Integer | Many2one | Many2oneReference => exact absurd rfl hint
  case Char | Text | Html | Selection =>
    split at h
    · cases h
      rfl
    · obtain ⟨s, -, rfl⟩ := map_eq_ok.mp h
      rfl
    · simp at h
  all_goals
    first
    | (simp at h; done)
    | (split at h
       · cases h
         rfl
       · simp at h)

/-- Values of one type that are equal are the same. -/
lemma eq_of_equals {t : FieldType} {x y : Datum} (hx : t.converts x = true)
    (hy : t.converts y = true) (h : y.equals x = true) : x = y := by
  cases x <;> cases y <;> simp_all [Datum.equals, Datum.toRat?] <;>
    cases t <;> simp [FieldType.converts] at hx hy

lemma SameValue.isValue {f : Field} {v w : Json} (h : SameValue f v w) (d : Datum) :
    IsValue f v d ↔ IsValue f w d := by
  unfold IsValue
  rw [h.2]

/-- The falsy value of a boolean field is one of its two values. -/
lemma accepted_boolean {f : Field} {v : Json} (hbool : f.ttype = .Boolean) (h : Accepted f v) :
    ∃ b, v = .bool b := by
  obtain ⟨d, hd⟩ := h
  cases v with
  | bool b => exact ⟨b, rfl⟩
  | null | number _ | string _ | array _ | object _ => simp [toValue, hbool] at hd

lemma isValue_bool {f : Field} (hbool : f.ttype = .Boolean) (b : Bool) (d : Datum) :
    IsValue f (.bool b) d ↔ d = .bool b := by
  constructor
  · rintro ⟨x, hx, heq⟩
    simp only [toValue, hbool, Except.ok.injEq] at hx
    subst hx
    cases d <;> simp_all [Datum.equals, Datum.toRat?]
  · rintro rfl
    exact ⟨.bool b, by simp [toValue, hbool], by simp [Datum.equals, Datum.toRat?]⟩

lemma sameValue_bool {f : Field} (hbool : f.ttype = .Boolean) {v : Json} {b : Bool} :
    SameValue f v (.bool b) ↔ v = .bool b := by
  constructor
  · rintro ⟨haccepted, heq⟩
    obtain ⟨b', rfl⟩ := accepted_boolean hbool haccepted
    simpa [toValue, hbool] using heq
  · rintro rfl
    exact ⟨⟨.bool b, by simp [toValue, hbool]⟩, rfl⟩

/-! ## What is compared -/

/-- What the parameters and NULL, where it is among them, are compared equal with. -/
def Compared (f : Field) (values : List Json) (o : Option Datum) : Prop :=
  (∃ v ∈ (memberParams f values).1, ∃ d ∈ o, IsValue f v d) ∨
    ((memberParams f values).2 = true ∧ o = none)

section Spec

variable {f : Field} {db : Database} {env : Env} {e : Expr}

/-- Membership in a list of values, in either form. -/
lemma selects_in {ds : List Datum} :
    Selects db env (inOrAny e "in" ds) ↔ ∃ d ∈ e.eval db env, ∃ x ∈ ds, d.equals x = true := by
  have hmember : Selects db env (inOrAny e "in" ds) ↔ IsTrue (memberOfValues (e.eval db env) ds) := by
    unfold inOrAny
    split <;> rfl
  rw [hmember, memberOfValues, Truth.memberOf, isTrue_any]
  cases e.eval db env <;> simp [IsTrue]

/-- No row is outside of a list of values by being NULL. -/
lemma selects_not_in {ds : List Datum} (hne : ds ≠ []) :
    Selects db env (inOrAny e "not in" ds) ↔
      ∃ d ∈ e.eval db env, ∀ x ∈ ds, ¬ d.equals x = true := by
  have hmember : Selects db env (inOrAny e "not in" ds) ↔
      IsTrue (memberOfValues (e.eval db env) ds).not := by
    unfold inOrAny
    split <;> rfl
  rw [hmember, memberOfValues, Truth.memberOf]
  cases e.eval db env with
  | none =>
      have hnone : Truth.any (ds.map fun d => (none : Option Datum).map fun x => x.equals d) = none :=
        any_eq_none_of_unknown (by simpa using hne) (by simp)
      rw [hnone]
      simp [Truth.not]
  | some d =>
      have hknown : ∀ t ∈ ds.map (fun x => (some d).map fun y => y.equals x), t ≠ none := by simp
      rw [isTrue_not_of_known (any_known hknown), isTrue_any]
      simp [IsTrue]

/-- What the parameters are converted to. -/
lemma isValue_of_mapM {params : List Json} {ds : List Datum}
    (h : params.mapM (toValue f) = .ok ds) (d : Datum) :
    (∃ x ∈ ds, d.equals x = true) ↔ ∃ v ∈ params, IsValue f v d := by
  rw [mapM_eq_ok] at h
  induction h with
  | nil => simp
  | @cons v x params ds hx _ ih =>
      simp only [List.exists_mem_cons_iff, ih]
      refine or_congr ⟨fun heq => ⟨x, hx, heq⟩, ?_⟩ Iff.rfl
      rintro ⟨x', hx', heq⟩
      rw [hx] at hx'
      cases hx'
      exact heq

lemma mapM_of_accepted {params : List Json} (h : ∀ v ∈ params, Accepted f v) :
    ∃ ds, params.mapM (toValue f) = .ok ds := by
  induction params with
  | nil => exact ⟨[], rfl⟩
  | cons v params ih =>
      rw [List.forall_mem_cons] at h
      obtain ⟨x, hx⟩ := h.1
      obtain ⟨ds, hds⟩ := ih h.2
      exact ⟨x :: ds, by rw [List.mapM_cons, hx, hds]; rfl⟩

/-- The test of the parameters, if there are any. -/
lemma memberTest_cases {params : List Json} {op : String} {sql : Option Predicate}
    (h : memberTest f e op params = .ok sql) :
    (params = [] ∧ sql = none) ∨
      ∃ ds, ds ≠ [] ∧ params.mapM (toValue f) = .ok ds ∧ sql = some (inOrAny e op ds) := by
  cases params with
  | nil =>
      cases h
      exact .inl ⟨rfl, rfl⟩
  | cons v params =>
      obtain ⟨ds, hds, h⟩ := bind_eq_ok.mp h
      cases h
      refine .inr ⟨ds, ?_, hds, rfl⟩
      rintro rfl
      cases mapM_eq_ok.mp hds

lemma memberTest_of_accepted {params : List Json} (op : String) (h : ∀ v ∈ params, Accepted f v) :
    ∃ sql, memberTest f e op params = .ok sql := by
  cases params with
  | nil => exact ⟨none, rfl⟩
  | cons v params =>
      obtain ⟨ds, hds⟩ := mapM_of_accepted h
      exact ⟨some (inOrAny e op ds), bind_eq_ok.mpr ⟨ds, hds, rfl⟩⟩

/-- The parameters are comparands and the falsy value. -/
lemma memberParams_accepted {values : List Json}
    (haccepts : ∀ v ∈ values, isNullLike v = false → Accepted f v)
    (hfalsy : ∀ falsy ∈ f.falsyJson, Accepted f falsy) :
    ∀ v ∈ (memberParams f values).1, Accepted f v := by
  have hgiven : ∀ v ∈ values.filter (!isNullLike ·), Accepted f v := by
    intro v hv
    rw [List.mem_filter] at hv
    exact haccepts v hv.1 (by simpa using hv.2)
  intro v hv
  unfold memberParams at hv
  cases hf : f.falsyJson with
  | none =>
      rw [hf] at hv
      exact hgiven v hv
  | some falsy =>
      have hlast : ∀ w ∈ values.filter (!isNullLike ·) ++ [falsy], Accepted f w := by
        intro w hw
        rcases List.mem_append.mp hw with hw | hw
        · exact hgiven w hw
        · rw [List.mem_singleton.mp hw]
          exact hfalsy falsy hf
      rw [hf] at hv
      dsimp only at hv
      split_ifs at hv
      · exact hlast v hv
      · exact hgiven v hv
      · exact hgiven v hv
      · exact hlast v hv
      · exact hgiven v hv

/-- What stands for no value is left out of the parameters only where NULL is compared. -/
lemma memberParams_eq_nil {values : List Json} (hne : values ≠ [])
    (h : (memberParams f values).1 = []) : (memberParams f values).2 = true := by
  have hunset : values.filter (!isNullLike ·) = [] →
      (values.filter (!isNullLike ·)).length < values.length := by
    intro hnil
    rw [hnil]
    exact List.length_pos_of_ne_nil hne
  unfold memberParams at h ⊢
  cases hf : f.falsyJson with
  | none =>
      rw [hf] at h
      exact decide_eq_true (hunset h)
  | some falsy =>
      rw [hf] at h
      dsimp only at h ⊢
      split_ifs at h ⊢ with hbool hun hlisted hun
      · simp at h
      · exact decide_eq_true (hunset h)
      · rfl
      · simp at h
      · exact absurd (decide_eq_true (hunset h)) hun

lemma compared_nil (o : Option Datum) : ¬ Compared f [] o := by
  have hparams : memberParams f [] = ([], false) := by
    unfold memberParams
    cases f.falsyJson <;> simp
  simp [Compared, hparams]

/-- What is compared, by the row. -/
lemma compared_of_test {values : List Json} {ds : List Datum} (o : Option Datum)
    (h : (memberParams f values).1.mapM (toValue f) = .ok ds) :
    Compared f values o ↔
      (∃ d ∈ o, ∃ x ∈ ds, d.equals x = true) ∨ ((memberParams f values).2 = true ∧ o = none) := by
  refine or_congr ?_ Iff.rfl
  constructor
  · rintro ⟨v, hv, d, hd, hvalue⟩
    exact ⟨d, hd, (isValue_of_mapM h d).mpr ⟨v, hv, hvalue⟩⟩
  · rintro ⟨d, hd, hx⟩
    obtain ⟨v, hv, hvalue⟩ := (isValue_of_mapM h d).mp hx
    exact ⟨v, hv, d, hd, hvalue⟩

/-- Where the parameters can be tested there is a condition, and it selects what is compared
equal, or the other rows. -/
lemma inCondition_of_test {op : String} {values : List Json} {sql : Option Predicate}
    (canBeNull : Bool) (hop : op = "in" ∨ op = "not in") (hne : values ≠ [])
    (htest : memberTest f e op (memberParams f values).1 = .ok sql) :
    ∃ p, inCondition f e op values canBeNull = .ok p ∧ ∀ db env,
      (canBeNull = false → e.eval db env ≠ none) →
        (Selects db env p ↔ (op = "in" ↔ Compared f values (e.eval db env))) := by
  unfold inCondition
  rw [if_neg (by simpa using hne)]
  rcases memberTest_cases htest with ⟨hnil, rfl⟩ | ⟨ds, hds, hmap, rfl⟩
  · -- nothing but NULL is compared
    have hunset := memberParams_eq_nil hne hnil
    have hcompared : ∀ o, Compared f values o ↔ o = none := by
      intro o
      simp [Compared, hnil, hunset]
    rcases hop with rfl | rfl <;> cases canBeNull <;>
      simp [htest, hunset, hcompared, bind, Except.bind, pure, Except.pure]
  · have hcompared := fun o => compared_of_test o hmap
    cases hunset : (memberParams f values).2 <;> rw [hunset] at hcompared <;>
      rcases hop with rfl | rfl <;> cases canBeNull <;>
      simp [htest, hunset, hcompared, selects_in, selects_not_in hds, bind, Except.bind, pure,
        Except.pure]
    -- a row is NULL or has a value
    all_goals
      intro db env
      rcases e.eval db env with _ | d <;> simp

/-- **A membership selects what is compared equal, and its negation the other rows.** -/
theorem inCondition_selects {op : String} {values : List Json} {canBeNull : Bool} {p : Predicate}
    (hop : op = "in" ∨ op = "not in") (hp : inCondition f e op values canBeNull = .ok p)
    (hnull : canBeNull = false → e.eval db env ≠ none) :
    Selects db env p ↔ (op = "in" ↔ Compared f values (e.eval db env)) := by
  by_cases hne : values = []
  · subst hne
    cases hp
    simp [compared_nil]
  · have htest : ∃ sql, memberTest f e op (memberParams f values).1 = .ok sql := by
      rw [inCondition, if_neg (by simpa using hne)] at hp
      obtain ⟨sql, hsql, -⟩ := bind_eq_ok.mp hp
      exact ⟨sql, hsql⟩
    obtain ⟨sql, hsql⟩ := htest
    obtain ⟨p', hp', hselects⟩ := inCondition_of_test canBeNull hop hne hsql
    rw [hp, Except.ok.injEq] at hp'
    rw [hp']
    exact hselects db env hnull

/-- A membership of comparands that the type accepts has a condition. -/
theorem inCondition_spec {op : String} {values : List Json} (canBeNull : Bool)
    (hop : op = "in" ∨ op = "not in")
    (haccepts : ∀ v ∈ values, isNullLike v = false → Accepted f v)
    (hfalsy : ∀ falsy ∈ f.falsyJson, Accepted f falsy) :
    ∃ p, inCondition f e op values canBeNull = .ok p ∧ ∀ db env,
      (canBeNull = false → e.eval db env ≠ none) →
        (Selects db env p ↔ (op = "in" ↔ Compared f values (e.eval db env))) := by
  by_cases hne : values = []
  · subst hne
    refine ⟨_, rfl, fun db env _ => ?_⟩
    simp [compared_nil]
  · obtain ⟨sql, hsql⟩ := memberTest_of_accepted op (memberParams_accepted haccepts hfalsy)
    exact inCondition_of_test canBeNull hop hne hsql

end Spec

/-! ## Where it is membership -/

/-- The condition of a membership selects its members, for `in`, or the other rows, for
`not in`. -/
def MembershipExact (f : Field) (op : String) (values : List Json) (canBeNull : Bool) : Prop :=
  ∀ e, ∃ p, inCondition f e op values canBeNull = .ok p ∧ ∀ db env,
    (canBeNull = false → e.eval db env ≠ none) →
      (Selects db env p ↔ (op = "in" ↔ Member f values (e.eval db env)))

/-- A comparand that `jsonEq` takes for the falsy value. -/
def FalsyListed (values : List Json) (falsy : Json) : Prop :=
  ∃ v ∈ values, isNullLike v = false ∧ jsonEq v falsy = true

/-- A comparand with the falsy value as its value. -/
def FalsyGiven (f : Field) (values : List Json) (falsy : Json) : Prop :=
  ∃ v ∈ values, isNullLike v = false ∧ SameValue f v falsy

/-- **Where a membership is exact.**  A boolean's falsy value is `false`; another field's is listed
exactly if it is given, unless a comparand is null-like or the column is never NULL, where it does
not matter that it is given without being listed. -/
def FalsyRecognised (f : Field) (values : List Json) (canBeNull : Bool) : Prop :=
  if f.ttype = .Boolean then
    values = [] ∨ f.falsyJson = some (.bool false) ∨
      (f.falsyJson = none ∧ ∀ v ∈ values, isNullLike v = false)
  else
    ∀ falsy ∈ f.falsyJson,
      (FalsyListed values falsy → (∃ v ∈ values, isNullLike v = true) ∨ canBeNull = true →
        FalsyGiven f values falsy) ∧
      (FalsyGiven f values falsy → (∀ v ∈ values, isNullLike v = false) → canBeNull = true →
        FalsyListed values falsy)

section Exact

variable {f : Field} {values : List Json}

lemma unset_of_given :
    decide ((values.filter (!isNullLike ·)).length < values.length) = true ↔
      ∃ v ∈ values, isNullLike v = true := by
  rw [decide_eq_true_eq, List.length_filter_lt_length_iff_exists]
  simp

lemma isValue_filter (o : Option Datum) :
    (∃ v ∈ values.filter (!isNullLike ·), ∃ d ∈ o, IsValue f v d) ↔
      ∃ v ∈ values, isNullLike v = false ∧ ∃ d ∈ o, IsValue f v d := by
  simp only [List.mem_filter, Bool.not_eq_true', and_assoc]

/-- The members, by what is among the comparands. -/
lemma member_iff (o : Option Datum) :
    Member f values o ↔ ((∃ v ∈ values, f.GivesUnset v) ∧ f.ReadsUnset o) ∨
      ∃ v ∈ values, isNullLike v = false ∧ ∃ d ∈ o, IsValue f v d := by
  unfold Member
  constructor
  · rintro ⟨v, hv, ⟨hgives, hreads⟩ | hvalue⟩
    · exact .inl ⟨⟨v, hv, hgives⟩, hreads⟩
    · exact .inr ⟨v, hv, hvalue⟩
  · rintro (⟨⟨v, hv, hgives⟩, hreads⟩ | ⟨v, hv, hvalue⟩)
    · exact ⟨v, hv, .inl ⟨hgives, hreads⟩⟩
    · exact ⟨v, hv, .inr hvalue⟩

/-- The comparands' values, and NULL where a comparand is null-like. -/
lemma compared_none (hf : f.falsyJson = none) (o : Option Datum) :
    Compared f values o ↔ (∃ v ∈ values, isNullLike v = false ∧ ∃ d ∈ o, IsValue f v d) ∨
      ((∃ v ∈ values, isNullLike v = true) ∧ o = none) := by
  rw [← isValue_filter, ← unset_of_given]
  simp only [Compared, memberParams, hf]

/-- The falsy value and NULL, where a boolean is compared with `false`. -/
lemma compared_boolean (hbool : f.ttype = .Boolean) {falsy : Json} (hf : f.falsyJson = some falsy)
    (o : Option Datum) :
    Compared f values o ↔ (∃ v ∈ values, isNullLike v = false ∧ ∃ d ∈ o, IsValue f v d) ∨
      ((∃ v ∈ values, isNullLike v = true) ∧ (o = none ∨ ∃ d ∈ o, IsValue f falsy d)) := by
  rw [← isValue_filter, ← unset_of_given]
  simp only [Compared, memberParams, hf, if_pos hbool]
  split_ifs with hunset
  · simp only [hunset, List.mem_append, List.mem_singleton, or_and_right, exists_or,
      exists_eq_left, true_and, or_assoc]
    exact or_congr Iff.rfl or_comm
  · simp only [hunset, Bool.false_eq_true, false_and]

/-- The falsy value and NULL: NULL alone where the falsy value is listed. -/
lemma compared_falsy (hbool : f.ttype ≠ .Boolean) {falsy : Json} (hf : f.falsyJson = some falsy)
    (o : Option Datum) :
    Compared f values o ↔ (∃ v ∈ values, isNullLike v = false ∧ ∃ d ∈ o, IsValue f v d) ∨
      (FalsyListed values falsy ∧ o = none) ∨
      (¬ FalsyListed values falsy ∧ (∃ v ∈ values, isNullLike v = true) ∧
        (o = none ∨ ∃ d ∈ o, IsValue f falsy d)) := by
  have hlisted : ((values.filter (!isNullLike ·)).any (jsonEq · falsy)) = true ↔
      FalsyListed values falsy := by
    simp [FalsyListed, List.any_eq_true]
  rw [← isValue_filter, ← unset_of_given, ← hlisted]
  simp only [Compared, memberParams, hf, if_neg hbool]
  split_ifs with hmem hunset
  · simp only [hmem, true_and, not_true_eq_false, false_and, or_false]
  · simp only [hmem, hunset, List.mem_append, List.mem_singleton, or_and_right, exists_or,
      exists_eq_left, true_and, or_assoc, Bool.false_eq_true, not_false_eq_true, false_and, false_or]
    exact or_congr Iff.rfl or_comm
  · simp only [hmem, hunset, Bool.false_eq_true, false_and, and_false, or_false]

/-- A membership is exact where every value is a member exactly if it is compared equal. -/
lemma membershipExact_iff_compared {op : String} {canBeNull : Bool}
    (hop : op = "in" ∨ op = "not in")
    (haccepts : ∀ v ∈ values, isNullLike v = false → Accepted f v)
    (hfalsy : ∀ falsy ∈ f.falsyJson, Accepted f falsy) :
    MembershipExact f op values canBeNull ↔
      ∀ o, (canBeNull = false → o ≠ none) → (Compared f values o ↔ Member f values o) := by
  constructor
  · intro hexact o hnull
    obtain ⟨p, hp, hselects⟩ := hexact (.col "" "")
    obtain ⟨p', hp', hspec⟩ := inCondition_spec (e := .col "" "") canBeNull hop
      haccepts hfalsy
    rw [hp, Except.ok.injEq] at hp'
    subst hp'
    have hdb : ∃ db : Database, True := ⟨⟨fun _ => [], fun _ => [], .plain⟩, trivial⟩
    obtain ⟨db, -⟩ := hdb
    have h : (op = "in" ↔ Compared f values o) ↔ (op = "in" ↔ Member f values o) :=
      (hspec db (fun _ _ => o) hnull).symm.trans (hselects db (fun _ _ => o) hnull)
    by_cases hin : op = "in"
    · simpa [hin] using h
    · simpa [hin, not_iff_not] using h
  · intro h e
    obtain ⟨p, hp, hspec⟩ := inCondition_spec (e := e) canBeNull hop haccepts hfalsy
    refine ⟨p, hp, fun db env hnull => ?_⟩
    rw [hspec db env hnull, h _ hnull]

/-- A comparand is the value that it is converted to. -/
lemma accepted_isValue {v : Json} (h : Accepted f v) :
    ∃ x, toValue f v = .ok x ∧ IsValue f v x := by
  obtain ⟨x, hx⟩ := h
  refine ⟨x, hx, x, hx, ?_⟩
  unfold Datum.equals
  cases x.toRat? <;> simp

/-- A boolean field is compared with `true` or with nothing. -/
lemma eq_true_of_accepted (hbool : f.ttype = .Boolean) {v : Json} (hv : isNullLike v = false)
    (h : Accepted f v) : v = .bool true := by
  obtain ⟨b, rfl⟩ := accepted_boolean hbool h
  cases b with
  | true => rfl
  | false => simp [isNullLike] at hv

/-- What a boolean column without a falsy value of its own is a member of. -/
lemma boolean_exact_none (hbool : f.ttype = .Boolean) (hf : f.falsyJson = none) (o : Option Datum) :
    Member f values o ↔ (∃ v ∈ values, isNullLike v = false ∧ ∃ d ∈ o, IsValue f v d) ∨
      ((∃ v ∈ values, isNullLike v = true) ∧ (o = none ∨ o = some (.bool false))) := by
  rw [member_iff, or_comm]
  refine or_congr Iff.rfl (and_congr ?_ ?_)
  · simp [Field.GivesUnset, hf]
  · cases o <;> simp [Field.ReadsUnset, hf, hbool]

/-- A membership that is exact of a boolean column. -/
lemma boolean_exact (hbool : f.ttype = .Boolean) {canBeNull : Bool}
    (haccepts : ∀ v ∈ values, isNullLike v = false → Accepted f v)
    (hfalsy : ∀ falsy ∈ f.falsyJson, Accepted f falsy) :
    (∀ o, (canBeNull = false → o ≠ none) → (Compared f values o ↔ Member f values o)) ↔
      values = [] ∨ f.falsyJson = some (.bool false) ∨
        (f.falsyJson = none ∧ ∀ v ∈ values, isNullLike v = false) := by
  have hother : ¬ ∃ v ∈ values, isNullLike v = false ∧
      ∃ d ∈ some (Datum.bool false), IsValue f v d := by
    rintro ⟨v, hv, hnull, d, hd, hvalue⟩
    cases hd
    rw [eq_true_of_accepted hbool hnull (haccepts v hv hnull), isValue_bool hbool] at hvalue
    cases hvalue
  cases hf : f.falsyJson with
  | none =>
      simp only [compared_none hf, boolean_exact_none hbool hf]
      constructor
      · intro h
        refine .inr (.inr ⟨trivial, fun v hv => ?_⟩)
        have hfalse := h (some (.bool false)) (by simp)
        simp only [hother, false_or, reduceCtorEq, and_false, or_true, and_true] at hfalse
        cases hnull : isNullLike v with
        | false => rfl
        | true => exact absurd (hfalse.mpr ⟨v, hv, hnull⟩) not_false
      · rintro (rfl | h | ⟨-, h⟩) o -
        · simp
        · cases h
        · have hno : ¬ ∃ v ∈ values, isNullLike v = true := by
            rintro ⟨v, hv, hnull⟩
            rw [h v hv] at hnull
            cases hnull
          simp only [hno, false_and]
  | some falsy =>
      obtain ⟨b, rfl⟩ := accepted_boolean hbool (hfalsy falsy hf)
      simp only [compared_boolean hbool hf, member_iff]
      cases b with
      | false =>
          have hgives : ∀ v, f.GivesUnset v ↔ isNullLike v = true := by
            intro v
            simp only [Field.GivesUnset, hf, Option.mem_some_iff, exists_eq_left', sameValue_bool hbool]
            refine ⟨?_, .inl⟩
            rintro (h | rfl)
            · exact h
            · rfl
          have hreads : ∀ o, f.ReadsUnset o ↔ o = none ∨ ∃ d ∈ o, IsValue f (.bool false) d := by
            intro o
            cases o <;> simp [Field.ReadsUnset, hf, hbool, isValue_bool hbool]
          simp only [hgives, hreads]
          exact iff_of_true (fun o _ => or_comm) (.inr (.inl trivial))
      | true =>
          constructor
          · intro h
            refine .inl (List.eq_nil_iff_forall_not_mem.mpr fun v hv => ?_)
            have hfalse := h (some (.bool false)) (by simp)
            have hreads : f.ReadsUnset (some (.bool false)) := by simp [Field.ReadsUnset, hbool]
            have hgives : f.GivesUnset v := by
              cases hnull : isNullLike v with
              | true => exact .inl hnull
              | false =>
                  refine .inr ⟨.bool true, hf, (sameValue_bool hbool).mpr ?_⟩
                  exact eq_true_of_accepted hbool hnull (haccepts v hv hnull)
            have hmember := hfalse.mpr (.inl ⟨⟨v, hv, hgives⟩, hreads⟩)
            rcases hmember with hmember | ⟨-, hmember | ⟨d, hd, hvalue⟩⟩
            · exact hother hmember
            · cases hmember
            · cases hd
              cases (isValue_bool hbool true _).mp hvalue
          · rintro (rfl | h | ⟨h, -⟩) o -
            · simp
            · cases h
            · cases h

/-- A membership that is exact of another column. -/
lemma scalar_exact (hbool : f.ttype ≠ .Boolean) {canBeNull : Bool} {falsy : Json}
    (hf : f.falsyJson = some falsy) (hfalsy : Accepted f falsy) :
    (∀ o, (canBeNull = false → o ≠ none) → (Compared f values o ↔ Member f values o)) ↔
      (FalsyListed values falsy → (∃ v ∈ values, isNullLike v = true) ∨ canBeNull = true →
        FalsyGiven f values falsy) ∧
      (FalsyGiven f values falsy → (∀ v ∈ values, isNullLike v = false) → canBeNull = true →
        FalsyListed values falsy) := by
  have hgives : (∃ v ∈ values, f.GivesUnset v) ↔
      (∃ v ∈ values, isNullLike v = true) ∨ FalsyGiven f values falsy := by
    simp only [Field.GivesUnset, hf, Option.mem_some_iff, exists_eq_left', FalsyGiven]
    constructor
    · rintro ⟨v, hv, hnull | hsame⟩
      · exact .inl ⟨v, hv, hnull⟩
      · cases hnull : isNullLike v with
        | true => exact .inl ⟨v, hv, hnull⟩
        | false => exact .inr ⟨v, hv, hnull, hsame⟩
    · rintro (⟨v, hv, hnull⟩ | ⟨v, hv, -, hsame⟩)
      · exact ⟨v, hv, .inl hnull⟩
      · exact ⟨v, hv, .inr hsame⟩
  have hreads : ∀ o, f.ReadsUnset o ↔ o = none ∨ ∃ d ∈ o, IsValue f falsy d := by
    intro o
    cases o <;> simp [Field.ReadsUnset, hf, hbool]
  have hgiven : FalsyGiven f values falsy → ∀ o : Option Datum, (∃ d ∈ o, IsValue f falsy d) →
      ∃ v ∈ values, isNullLike v = false ∧ ∃ d ∈ o, IsValue f v d := by
    rintro ⟨v, hv, hnull, hsame⟩ o ⟨d, hd, hvalue⟩
    exact ⟨v, hv, hnull, d, hd, (hsame.isValue d).mpr hvalue⟩
  simp only [compared_falsy hbool hf, member_iff, hgives, hreads]
  obtain ⟨x, hx, hvalue⟩ := accepted_isValue hfalsy
  have hback : (∃ v ∈ values, isNullLike v = false ∧ ∃ d ∈ some x, IsValue f v d) →
      FalsyGiven f values falsy := by
    rintro ⟨v, hv, hnull, d, hd, y, hy, heq⟩
    cases hd
    have hsame := eq_of_equals (converts_of_toValue hy) (converts_of_toValue hx) heq
    exact ⟨v, hv, hnull, ⟨y, hy⟩, by rw [hy, hx, hsame]⟩
  constructor
  · intro h
    -- a row with the falsy value, and one that is NULL
    have hvalued : (∃ v ∈ values, isNullLike v = true) → FalsyListed values falsy →
        FalsyGiven f values falsy := by
      intro hunset hlisted
      have hmember := (h (some x) (by simp)).mpr (.inl ⟨.inl hunset, .inr ⟨x, rfl, hvalue⟩⟩)
      rcases hmember with hmember | ⟨-, hmember⟩ | ⟨hmember, -⟩
      · exact hback hmember
      · cases hmember
      · exact absurd hlisted hmember
    have hnone : canBeNull = true → _ := fun hnull => h none (by simp [hnull])
    refine ⟨fun hlisted hnull => ?_, fun hsame hunset hnull => ?_⟩
    · rcases hnull with hunset | hnull
      · exact hvalued hunset hlisted
      · rcases (hnone hnull).mp (.inr (.inl ⟨hlisted, rfl⟩)) with ⟨hunset | hsame, -⟩ | hmember
        · exact hvalued hunset hlisted
        · exact hsame
        · simp at hmember
    · rcases (hnone hnull).mpr (.inl ⟨.inr hsame, .inl rfl⟩) with hmember | ⟨hlisted, -⟩ | hmember
      · simp at hmember
      · exact hlisted
      · obtain ⟨-, ⟨v, hv, hnullv⟩, -⟩ := hmember
        simp [hunset v hv] at hnullv
  · rintro ⟨hlisted, hsame⟩ o hnull
    have hnullable : o = none → canBeNull = true := by
      intro ho
      by_contra hne
      exact hnull (by simpa using hne) ho
    constructor
    · rintro (hmember | ⟨hl, ho⟩ | ⟨-, hunset, hreads⟩)
      · exact .inr hmember
      · exact .inl ⟨.inr (hlisted hl (.inr (hnullable ho))), .inl ho⟩
      · exact .inl ⟨.inl hunset, hreads⟩
    · rintro (⟨hgives, hreads⟩ | hmember)
      · by_cases hunset : ∃ v ∈ values, isNullLike v = true
        · by_cases hl : FalsyListed values falsy
          · rcases hreads with ho | hreads
            · exact .inr (.inl ⟨hl, ho⟩)
            · exact .inl (hgiven (hlisted hl (.inl hunset)) o hreads)
          · exact .inr (.inr ⟨hl, hunset, hreads⟩)
        · have hg := hgives.resolve_left hunset
          rcases hreads with ho | hreads
          · refine .inr (.inl ⟨hsame hg ?_ (hnullable ho), ho⟩)
            intro v hv
            exact Bool.eq_false_iff.mpr fun hnullv => hunset ⟨v, hv, hnullv⟩
          · exact .inl (hgiven hg o hreads)
      · exact .inl hmember

/-- **Where a membership is exact.** -/
theorem membershipExact_iff {op : String} {canBeNull : Bool} (hop : op = "in" ∨ op = "not in")
    (haccepts : ∀ v ∈ values, isNullLike v = false → Accepted f v)
    (hfalsy : ∀ falsy ∈ f.falsyJson, Accepted f falsy) :
    MembershipExact f op values canBeNull ↔ FalsyRecognised f values canBeNull := by
  rw [membershipExact_iff_compared hop haccepts hfalsy]
  unfold FalsyRecognised
  split_ifs with hbool
  · exact boolean_exact hbool haccepts hfalsy
  · cases hf : f.falsyJson with
    | none =>
        refine iff_of_true (fun o _ => ?_) (by simp)
        have hreads : f.ReadsUnset o ↔ o = none := by
          cases o <;> simp [Field.ReadsUnset, hf, hbool]
        rw [compared_none hf, member_iff, hreads, or_comm]
        simp [Field.GivesUnset, hf]
    | some falsy =>
        simp only [Option.mem_some_iff, forall_eq']
        exact scalar_exact hbool hf (hfalsy falsy hf)

end Exact

/-! ## A falsy value written in two ways -/

/-- A moment with the epoch for its falsy value. -/
def writtenOn : Field :=
  Field.column "written_on" .Datetime "timestamp" (some (.string "1970-01-01 00:00:00"))

lemma epoch_plain : toValue writtenOn (.string "1970-01-01 00:00:00") = .ok (.timestamp 0) := by
  decide +kernel

lemma epoch_fraction : toValue writtenOn (.string "1970-01-01 00:00:00.0") = .ok (.timestamp 0) := by
  decide +kernel

lemma writtenOn_falsy : ∀ falsy ∈ writtenOn.falsyJson, Accepted writtenOn falsy := by
  intro falsy hfalsy
  cases hfalsy
  exact ⟨_, epoch_plain⟩

/-- The epoch with a fraction of a second misses the rows without a moment. -/
theorem epoch_misses_unset :
    ¬ MembershipExact writtenOn "in" [.string "1970-01-01 00:00:00.0"] true := by
  intro h
  have haccepts : ∀ v ∈ [Json.string "1970-01-01 00:00:00.0"], isNullLike v = false →
      Accepted writtenOn v := by
    intro v hv _
    rw [List.mem_singleton.mp hv]
    exact ⟨_, epoch_fraction⟩
  have hiff := (membershipExact_iff_compared (.inl rfl) haccepts writtenOn_falsy).mp h none (by simp)
  have hmember : Member writtenOn [.string "1970-01-01 00:00:00.0"] none := by
    refine ⟨_, List.mem_singleton_self _, .inl ⟨.inr ⟨_, rfl, ⟨_, epoch_fraction⟩, ?_⟩, ?_⟩⟩
    · rw [epoch_fraction, epoch_plain]
    · simp [Field.ReadsUnset]
  rcases hiff.mpr hmember with ⟨v, -, d, hd, -⟩ | ⟨hunset, -⟩
  · cases hd
  · exact absurd hunset (by decide)

/-- The epoch as the field has it finds them. -/
theorem epoch_exact :
    MembershipExact writtenOn "not in" [.null, .string "1970-01-01 00:00:00"] true := by
  refine (membershipExact_iff (.inr rfl) ?_ writtenOn_falsy).mpr ?_
  · intro v hv hnull
    rcases List.mem_pair.mp hv with rfl | rfl
    · cases hnull
    · exact ⟨_, epoch_plain⟩
  · have hgiven : FalsyGiven writtenOn [.null, .string "1970-01-01 00:00:00"]
        (.string "1970-01-01 00:00:00") :=
      ⟨_, List.mem_pair.mpr (.inr rfl), rfl, ⟨_, epoch_plain⟩, rfl⟩
    rw [FalsyRecognised, if_neg (by decide)]
    intro falsy hfalsy
    cases hfalsy
    refine ⟨fun _ _ => hgiven, fun _ hunset _ => ?_⟩
    have hnull := hunset .null (List.mem_pair.mpr (.inl rfl))
    cases hnull

end OdooKernel
