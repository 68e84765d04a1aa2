import Mathlib.Data.List.Forall2
import OdooKernel.Domain.Meaning
import OdooKernel.Sql.Dialect

/-!
# Conditions on groups

What groups have to meet comes as a list in prefix notation, like a domain, of comparisons with an
aggregate.  It has a reader of its own, with a stack of expressions.

**The notation** is that of domains, with comparisons for terms; which of them are accepted is said
by their parts (`Comparable`): a spec that names an aggregate, a comparator, and a value that can be
bound.

**What a comparison means** is said as it is written (`WrittenHolds`): the aggregate that the spec
names stands to the value that the JSON is in the relation that the comparator is written for, and
among no values it is not.  That the expression which is built means this is a theorem
(`havingComparison_holds`).

**The stack** is compared with that of the prefix reader, item by item, as the reader of domains is.

* `Having` — the expressions that are built, over the comparisons of aggregates with values.
* `havingCondition`, `havingTerm`, `havingValue` — the reader.
* `havingTerms_sound`, `havingTerms_complete` — the stack holds what the prefix reader leaves.
* **`havingCondition_means`** — what is accepted, what it means, and that a domain of the same shape
  means the same.
-/

namespace OdooKernel

open PrefixNotation

/-! ## Expressions -/

inductive Comparator where
  | eq
  | ne
  | lt
  | gt
  | lte
  | gte
  | isIn
  | isNotIn
deriving DecidableEq, Repr

/-- A comparison of an aggregate with a value, or with some. -/
structure AggregateComparison (ε : Type) where
  left : ε
  comparator : Comparator
  values : List BoundValue

/-- An expression over comparisons; one that is custom is `TRUE` or `FALSE`. -/
inductive Having (ε : Type) where
  | comparison (c : AggregateComparison ε)
  | custom (b : Bool)
  | not (e : Having ε)
  | and (e f : Having ε)
  | or (e f : Having ε)

variable {ε κ : Type}

/-- The truth of an expression under an assignment to its comparisons. -/
def Having.Holds (v : AggregateComparison ε → Prop) : Having ε → Prop
  | .comparison c => v c
  | .custom b => b = true
  | .not e => ¬ e.Holds v
  | .and e f => e.Holds v ∧ f.Holds v
  | .or e f => e.Holds v ∨ f.Holds v

/-! ## Reading them -/

/-- A value as it is bound. -/
def havingValue : Json → Result BoundValue
  | .number n =>
    match n.asI64 with
    | some i => .ok (.bigInt (some i))
    | none => .ok (.double (some (.finite n.toDouble)))
  | .bool b => .ok (.bool (some b))
  | .string s => .ok (.string (some s))
  | _ => refuse "unsupported having value"

/-- The values of a list, or one alone. -/
def havingValues : Json → Result (List BoundValue)
  | .array values => values.mapM havingValue
  | scalar => (fun value => [value]) <$> havingValue scalar

/-- An aggregate compared with one value. -/
def compareWith (left : ε) (comparator : Comparator) (right : Json) : Result (Having ε) :=
  (fun value => .comparison ⟨left, comparator, [value]⟩) <$> havingValue right

/-- An aggregate among some values; among none it is not. -/
def compareAmong (left : ε) (among : Bool) (right : Json) : Result (Having ε) :=
  (fun values =>
    if values.isEmpty then .custom (!among)
    else .comparison ⟨left, if among then .isIn else .isNotIn, values⟩) <$> havingValues right

/-- A comparison of three values. -/
def havingComparison (aggregateOf : String → Result (ε × κ)) (spec operator right : Json) :
    Result (Having ε) := do
  let spec ← orRefuse "having spec must be a string" spec.asStr
  let operator ← orRefuse "having operator must be a string" operator.asStr
  let (left, _) ← aggregateOf spec
  match operator with
  | "in" => compareAmong left true right
  | "not in" => compareAmong left false right
  | "=" => compareWith left .eq right
  | "!=" => compareWith left .ne right
  | "<" => compareWith left .lt right
  | ">" => compareWith left .gt right
  | "<=" => compareWith left .lte right
  | ">=" => compareWith left .gte right
  | other => refuse ("unsupported having comparator " ++ other)

/-- An item of the list onto the stack. -/
def havingTerm (aggregateOf : String → Result (ε × κ)) (item : Json) (stack : List (Having ε)) :
    Result (List (Having ε)) :=
  match item with
  | .string "!" =>
    match stack with
    | a :: stack => .ok (.not a :: stack)
    | _ => refuse "malformed having"
  | .string "&" =>
    match stack with
    | a :: b :: stack => .ok (.and a b :: stack)
    | _ => refuse "malformed having"
  | .string "|" =>
    match stack with
    | a :: b :: stack => .ok (.or a b :: stack)
    | _ => refuse "malformed having"
  | .array [spec, operator, right] =>
    (fun e => e :: stack) <$> havingComparison aggregateOf spec operator right
  | _ => refuse "malformed having clause"

/-- The items of the list onto an empty stack, from the right. -/
def havingTerms (aggregateOf : String → Result (ε × κ)) : List Json → Result (List (Having ε))
  | [] => .ok []
  | item :: items => do havingTerm aggregateOf item (← havingTerms aggregateOf items)

/-- The two on top of the stack are joined as long as there are two. -/
def joinStack (top : Having ε) : List (Having ε) → Having ε
  | [] => top
  | next :: stack => joinStack (.and top next) stack

/-- The condition of a list; null and the empty list are none. -/
def havingCondition (aggregateOf : String → Result (ε × κ)) : Json → Result (Option (Having ε))
  | .null => .ok none
  | .array [] => .ok none
  | .array items => do
    match ← havingTerms aggregateOf items with
    | [] => return none
    | top :: stack => return some (joinStack top stack)
  | _ => refuse "having must be a list"

/-! ## The notation -/

/-- A value that is a number, a boolean or a string. -/
def IsScalar : Json → Prop
  | .number _ | .bool _ | .string _ => True
  | _ => False

/-- The values of `in`: some of a list, or one. -/
def AreScalars : Json → Prop
  | .array values => ∀ value ∈ values, IsScalar value
  | value => IsScalar value

/-- A comparison whose spec, comparator and value are each accepted. -/
def Comparable (aggregateOf : String → Result (ε × κ)) (item : Json) : Prop :=
  ∃ spec operator right aggregate, item = .array [.string spec, .string operator, right] ∧
    aggregateOf spec = .ok aggregate ∧
    (operator ∈ ["in", "not in"] ∧ AreScalars right ∨
      operator ∈ ["=", "!=", "<", ">", "<=", ">="] ∧ IsScalar right)

/-- The expression of a comparison. -/
def comparisonOf (aggregateOf : String → Result (ε × κ)) : Json → Option (Having ε)
  | .array [spec, operator, right] => (havingComparison aggregateOf spec operator right).toOption
  | _ => none

/-- A scalar, bound as the value that it is: an integer of the size of a `bigint`, any other number as
a double, a boolean and a string. -/
inductive BindsScalar : Json → BoundValue → Prop where
  | integer {n : Number} {i : ℤ} (h : n.asI64 = some i) :
      BindsScalar (.number n) (.bigInt (some i))
  | double {n : Number} (h : n.asI64 = none) :
      BindsScalar (.number n) (.double (some (.finite n.toDouble)))
  | bool (b : Bool) : BindsScalar (.bool b) (.bool (some b))
  | string (s : String) : BindsScalar (.string s) (.string (some s))

/-- What an aggregate is to be among: the values of a list, or one value alone. -/
inductive BindsAmong : Json → List BoundValue → Prop where
  | list {values : List Json} {bound : List BoundValue} (h : List.Forall₂ BindsScalar values bound) :
      BindsAmong (.array values) bound
  | alone {value : Json} {bound : BoundValue} (h : BindsScalar value bound) :
      BindsAmong value [bound]

/-- The comparators of one value, as they are written. -/
def writtenComparators : List (String × Comparator) :=
  [("=", .eq), ("!=", .ne), ("<", .lt), (">", .gt), ("<=", .lte), (">=", .gte)]

/-- **The truth of a comparison with an aggregate**, as it is written: the comparison of the value that
is bound, `in` some values among which it is, and `not in` some among which it is not, or none. -/
inductive WrittenHolds (v : AggregateComparison ε → Prop) (left : ε) : String → Json → Prop where
  | one {operator : String} {comparator : Comparator} {right : Json} {value : BoundValue}
      (hwritten : (operator, comparator) ∈ writtenComparators) (hvalue : BindsScalar right value)
      (h : v ⟨left, comparator, [value]⟩) : WrittenHolds v left operator right
  | among {operator : String} {right : Json} {values : List BoundValue}
      (hwritten : operator = "in") (hvalues : BindsAmong right values) (hne : values ≠ [])
      (h : v ⟨left, .isIn, values⟩) : WrittenHolds v left operator right
  | notAmong {operator : String} {right : Json} {values : List BoundValue}
      (hwritten : operator = "not in") (hvalues : BindsAmong right values)
      (h : values = [] ∨ v ⟨left, .isNotIn, values⟩) : WrittenHolds v left operator right

/-- The truth of an item: that of the comparison of the aggregate its spec names. -/
def comparisonHolds (aggregateOf : String → Result (ε × κ)) (v : AggregateComparison ε → Prop)
    (item : Json) : Prop :=
  ∃ spec operator right aggregate, item = .array [.string spec, .string operator, right] ∧
    aggregateOf spec = .ok aggregate ∧ WrittenHolds v aggregate.1 operator right

/-- Every item of a list is an operator or a comparison that is accepted. -/
def OnlyComparisons (aggregateOf : String → Result (ε × κ)) (items : List Json) : Prop :=
  ∀ item ∈ items, token item = .atom item → Comparable aggregateOf item

/-! ## Values and comparisons -/

lemma havingValue_isOk (value : Json) : (∃ b, havingValue value = .ok b) ↔ IsScalar value := by
  cases value with
  | number n =>
      refine ⟨fun _ => trivial, fun _ => ?_⟩
      cases hn : n.asI64 with
      | none => exact ⟨.double (some (.finite n.toDouble)), by rw [havingValue, hn]⟩
      | some i => exact ⟨.bigInt (some i), by rw [havingValue, hn]⟩
  | bool b => exact ⟨fun _ => trivial, fun _ => ⟨_, rfl⟩⟩
  | string s => exact ⟨fun _ => trivial, fun _ => ⟨_, rfl⟩⟩
  | null => simp [havingValue, IsScalar]
  | array items => simp [havingValue, IsScalar]
  | object fields => simp [havingValue, IsScalar]

lemma havingValues_isOk (right : Json) : (∃ bs, havingValues right = .ok bs) ↔ AreScalars right := by
  have hscalar : ∀ value : Json, (∃ bs, (fun b => [b]) <$> havingValue value = .ok bs) ↔
      IsScalar value := by
    intro value
    rw [← havingValue_isOk]
    constructor
    · rintro ⟨bs, h⟩
      obtain ⟨b, hb, -⟩ := map_eq_ok.mp h
      exact ⟨b, hb⟩
    · rintro ⟨b, hb⟩
      exact ⟨[b], map_eq_ok.mpr ⟨b, hb, rfl⟩⟩
  cases right with
  | array values =>
      show (∃ bs, values.mapM havingValue = .ok bs) ↔ ∀ value ∈ values, IsScalar value
      induction values with
      | nil => exact ⟨fun _ => List.forall_mem_nil _, fun _ => ⟨[], rfl⟩⟩
      | cons value values ih =>
          rw [List.forall_mem_cons, ← ih, ← havingValue_isOk]
          constructor
          · rintro ⟨bs, h⟩
            cases mapM_eq_ok.mp h with
            | cons hb hbs => exact ⟨⟨_, hb⟩, ⟨_, mapM_eq_ok.mpr hbs⟩⟩
          · rintro ⟨⟨b, hb⟩, ⟨bs, hbs⟩⟩
            exact ⟨b :: bs, mapM_eq_ok.mpr (.cons hb (mapM_eq_ok.mp hbs))⟩
  | null => exact hscalar _
  | bool b => exact hscalar _
  | number n => exact hscalar _
  | string s => exact hscalar _
  | object fields => exact hscalar _

/-- A comparison has an expression exactly if its spec, comparator and value are accepted. -/
lemma havingComparison_isOk (aggregateOf : String → Result (ε × κ)) (spec operator right : Json) :
    (∃ e, havingComparison aggregateOf spec operator right = .ok e) ↔
      Comparable aggregateOf (.array [spec, operator, right]) := by
  have hwith : ∀ (left : ε) (comparator : Comparator),
      (∃ e, compareWith left comparator right = .ok e) ↔ IsScalar right := by
    intro left comparator
    rw [← havingValue_isOk]
    constructor
    · rintro ⟨e, h⟩
      obtain ⟨b, hb, -⟩ := map_eq_ok.mp h
      exact ⟨b, hb⟩
    · rintro ⟨b, hb⟩
      exact ⟨_, map_eq_ok.mpr ⟨b, hb, rfl⟩⟩
  have hamong : ∀ (left : ε) (among : Bool),
      (∃ e, compareAmong left among right = .ok e) ↔ AreScalars right := by
    intro left among
    rw [← havingValues_isOk]
    constructor
    · rintro ⟨e, h⟩
      obtain ⟨bs, hbs, -⟩ := map_eq_ok.mp h
      exact ⟨bs, hbs⟩
    · rintro ⟨bs, hbs⟩
      exact ⟨_, map_eq_ok.mpr ⟨bs, hbs, rfl⟩⟩
  constructor
  · rintro ⟨e, h⟩
    simp only [havingComparison, bind_eq_ok, orRefuse_eq_ok, Json.asStr_eq_some] at h
    obtain ⟨specText, rfl, operatorText, rfl, ⟨left, kind⟩, haggregate, h⟩ := h
    refine ⟨specText, operatorText, right, (left, kind), rfl, haggregate, ?_⟩
    split at h
    all_goals first
      | exact Or.inl ⟨by decide, (hamong left _).mp ⟨e, h⟩⟩
      | exact Or.inr ⟨by decide, (hwith left _).mp ⟨e, h⟩⟩
      | simp at h
  · rintro ⟨specText, operatorText, value, ⟨left, kind⟩, hitem, haggregate, hvalue⟩
    simp only [Json.array.injEq, List.cons.injEq, and_true] at hitem
    obtain ⟨rfl, rfl, rfl⟩ := hitem
    simp only [havingComparison, bind_eq_ok, orRefuse_eq_ok, Json.asStr_eq_some]
    suffices hrest : ∃ e, (match operatorText with
        | "in" => compareAmong left true right
        | "not in" => compareAmong left false right
        | "=" => compareWith left .eq right
        | "!=" => compareWith left .ne right
        | "<" => compareWith left .lt right
        | ">" => compareWith left .gt right
        | "<=" => compareWith left .lte right
        | ">=" => compareWith left .gte right
        | other => refuse ("unsupported having comparator " ++ other)) = .ok e by
      obtain ⟨e, he⟩ := hrest
      exact ⟨e, specText, rfl, operatorText, rfl, (left, kind), haggregate, he⟩
    rcases hvalue with ⟨hoperator, hvalue⟩ | ⟨hoperator, hvalue⟩
    · simp only [List.mem_cons, List.not_mem_nil, or_false] at hoperator
      rcases hoperator with rfl | rfl
      · exact (hamong left true).mpr hvalue
      · exact (hamong left false).mpr hvalue
    · simp only [List.mem_cons, List.not_mem_nil, or_false] at hoperator
      rcases hoperator with rfl | rfl | rfl | rfl | rfl | rfl
      all_goals exact (hwith left _).mpr hvalue

lemma comparisonOf_eq_some {aggregateOf : String → Result (ε × κ)} {spec operator right : Json}
    {e : Having ε} :
    comparisonOf aggregateOf (.array [spec, operator, right]) = some e ↔
      havingComparison aggregateOf spec operator right = .ok e := by
  show (havingComparison aggregateOf spec operator right).toOption = some e ↔ _
  cases havingComparison aggregateOf spec operator right with
  | error e => simp [Except.toOption]
  | ok e => simp [Except.toOption]

lemma comparisonOf_isSome (aggregateOf : String → Result (ε × κ)) (item : Json) :
    (∃ e, comparisonOf aggregateOf item = some e) ↔ Comparable aggregateOf item := by
  constructor
  · rintro ⟨e, h⟩
    unfold comparisonOf at h
    split at h
    · next spec operator right =>
        exact (havingComparison_isOk aggregateOf spec operator right).mp
          ⟨e, comparisonOf_eq_some.mp h⟩
    · contradiction
  · intro h
    obtain ⟨spec, operator, right, aggregate, rfl, -⟩ := id h
    obtain ⟨e, he⟩ := (havingComparison_isOk aggregateOf _ _ right).mpr h
    exact ⟨e, comparisonOf_eq_some.mpr he⟩

/-! ## What a comparison means -/

lemma bindsScalar_of_havingValue {value : Json} {bound : BoundValue}
    (h : havingValue value = .ok bound) : BindsScalar value bound := by
  unfold havingValue at h
  split at h
  · split at h
    · next i hi =>
        obtain rfl := Except.ok.inj h
        exact .integer hi
    · next hi =>
        obtain rfl := Except.ok.inj h
        exact .double hi
  · obtain rfl := Except.ok.inj h
    exact .bool _
  · obtain rfl := Except.ok.inj h
    exact .string _
  · simp at h

/-- A scalar is bound as one value. -/
lemma BindsScalar.unique {value : Json} {bound bound' : BoundValue} (h : BindsScalar value bound)
    (h' : BindsScalar value bound') : bound = bound' := by
  cases h <;> cases h' <;> simp_all

lemma bindsAmong_of_havingValues {right : Json} {values : List BoundValue}
    (h : havingValues right = .ok values) : BindsAmong right values := by
  unfold havingValues at h
  split at h
  · exact .list ((mapM_eq_ok.mp h).imp fun _ _ => bindsScalar_of_havingValue)
  · obtain ⟨bound, hbound, rfl⟩ := map_eq_ok.mp h
    exact .alone (bindsScalar_of_havingValue hbound)

lemma BindsAmong.unique {right : Json} {values values' : List BoundValue}
    (h : BindsAmong right values) (h' : BindsAmong right values') : values = values' := by
  cases h with
  | list hall =>
      cases h' with
      | list hall' =>
          induction hall generalizing values' with
          | nil =>
              cases hall'
              rfl
          | cons hbound _ ih =>
              cases hall' with
              | cons hbound' hall' => rw [hbound.unique hbound', ih hall']
      | alone hbound => cases hbound
  | alone hbound =>
      cases h' with
      | list hall => cases hbound
      | alone hbound' => rw [hbound.unique hbound']

/-- A comparator is written in one way. -/
lemma writtenComparators_unique : ∀ {operator : String} {comparator comparator' : Comparator},
    (operator, comparator) ∈ writtenComparators → (operator, comparator') ∈ writtenComparators →
      comparator = comparator' := by
  intro operator comparator comparator' h h'
  simp only [writtenComparators, List.mem_cons, Prod.mk.injEq, List.not_mem_nil, or_false] at h h'
  rcases h with ⟨rfl, rfl⟩ | ⟨rfl, rfl⟩ | ⟨rfl, rfl⟩ | ⟨rfl, rfl⟩ | ⟨rfl, rfl⟩ | ⟨rfl, rfl⟩ <;>
    simp_all

section Written

variable {v : AggregateComparison ε → Prop} {left : ε} {right : Json} {e : Having ε}

lemma compareWith_holds {operator : String} {comparator : Comparator}
    (hwritten : (operator, comparator) ∈ writtenComparators)
    (h : compareWith left comparator right = .ok e) :
    e.Holds v ↔ WrittenHolds v left operator right := by
  obtain ⟨value, hvalue, rfl⟩ := map_eq_ok.mp h
  have hbinds := bindsScalar_of_havingValue hvalue
  constructor
  · exact fun hv => .one hwritten hbinds hv
  · intro hholds
    cases hholds with
    | one hwritten' hbinds' hv =>
        rw [writtenComparators_unique hwritten hwritten', hbinds.unique hbinds']
        exact hv
    | among hin | notAmong hin =>
        subst hin
        exact absurd hwritten (by simp [writtenComparators])

lemma compareAmong_holds {operator : String} {among : Bool}
    (hwritten : operator = if among then "in" else "not in")
    (h : compareAmong left among right = .ok e) :
    e.Holds v ↔ WrittenHolds v left operator right := by
  obtain ⟨values, hvalues, rfl⟩ := map_eq_ok.mp h
  have hbinds := bindsAmong_of_havingValues hvalues
  subst hwritten
  constructor
  · intro hv
    split at hv
    · next hnone =>
        cases among with
        | true => exact absurd hv Bool.noConfusion
        | false => exact .notAmong rfl hbinds (.inl (by simpa using hnone))
    · next hne =>
        cases among with
        | true => exact .among rfl hbinds (by simpa using hne) hv
        | false => exact .notAmong rfl hbinds (.inr hv)
  · intro hholds
    cases hholds with
    | one hwritten => exact absurd hwritten (by cases among <;> simp [writtenComparators])
    | among hwritten hbinds' hne hv =>
        obtain rfl := hbinds.unique hbinds'
        cases among with
        | true => rwa [if_neg (by simpa using hne)]
        | false => exact absurd hwritten (by decide)
    | notAmong hwritten hbinds' hv =>
        obtain rfl := hbinds.unique hbinds'
        cases among with
        | true => exact absurd hwritten (by decide)
        | false =>
            split
            · rfl
            · next hne => exact hv.resolve_left (by simpa using hne)

end Written

/-- **A comparison is compiled to what is written.** -/
lemma havingComparison_holds {aggregateOf : String → Result (ε × κ)} {item : Json} {e : Having ε}
    (h : comparisonOf aggregateOf item = some e) (v : AggregateComparison ε → Prop) :
    e.Holds v ↔ comparisonHolds aggregateOf v item := by
  obtain ⟨spec, operator, right, aggregate, rfl, haggregate, -⟩ :=
    (comparisonOf_isSome aggregateOf item).mp ⟨e, h⟩
  have hwritten : e.Holds v ↔ WrittenHolds v aggregate.1 operator right := by
    have hcompiled := comparisonOf_eq_some.mp h
    simp only [havingComparison, Json.asStr, orRefuse, bind_eq_ok, haggregate, Except.ok.injEq,
      exists_eq_left'] at hcompiled
    split at hcompiled
    · exact compareAmong_holds rfl hcompiled
    · exact compareAmong_holds rfl hcompiled
    all_goals first
      | exact compareWith_holds (by simp [writtenComparators]) hcompiled
      | simp at hcompiled
  rw [hwritten]
  constructor
  · exact fun hholds => ⟨spec, operator, right, aggregate, rfl, haggregate, hholds⟩
  · rintro ⟨spec', operator', right', aggregate', hitem, haggregate', hholds⟩
    simp only [Json.array.injEq, List.cons.injEq, Json.string.injEq, and_true] at hitem
    obtain ⟨rfl, rfl, rfl⟩ := hitem
    obtain rfl := Except.ok.inj (haggregate.symm.trans haggregate')
    exact hholds

/-! ## The stack -/

/-- An expression is the formula, with the expressions of its comparisons. -/
inductive Compiles (aggregateOf : String → Result (ε × κ)) : Having ε → Formula Json → Prop where
  | atom {item : Json} {e : Having ε} (h : comparisonOf aggregateOf item = some e) :
      Compiles aggregateOf e (.atom item)
  | neg {e : Having ε} {f : Formula Json} (h : Compiles aggregateOf e f) :
      Compiles aggregateOf (.not e) (.neg f)
  | and {e e' : Having ε} {f f' : Formula Json} (h : Compiles aggregateOf e f)
      (h' : Compiles aggregateOf e' f') : Compiles aggregateOf (.and e e') (.bin .and f f')
  | or {e e' : Having ε} {f f' : Formula Json} (h : Compiles aggregateOf e f)
      (h' : Compiles aggregateOf e' f') : Compiles aggregateOf (.or e e') (.bin .or f f')

/-- An expression means what its formula does. -/
lemma Compiles.holds {aggregateOf : String → Result (ε × κ)} {e : Having ε} {f : Formula Json}
    (h : Compiles aggregateOf e f) (v : AggregateComparison ε → Prop) :
    e.Holds v ↔ f.Holds (comparisonHolds aggregateOf v) := by
  induction h with
  | atom h => exact havingComparison_holds h v
  | neg _ ih => exact not_congr ih
  | and _ _ ih ih' => exact and_congr ih ih'
  | or _ _ ih ih' => exact or_congr ih ih'

/-- A stack stands for a forest, item by item. -/
abbrev CompilesAll (aggregateOf : String → Result (ε × κ)) :
    List (Having ε) → List (Formula Json) → Prop :=
  List.Forall₂ (Compiles aggregateOf)

lemma havingTerm_sound {aggregateOf : String → Result (ε × κ)} {item : Json}
    {stack stack' : List (Having ε)} {fs : List (Formula Json)}
    (hs : CompilesAll aggregateOf stack fs) (h : havingTerm aggregateOf item stack = .ok stack') :
    (token item = .atom item → Comparable aggregateOf item) ∧
      ∃ fs', push (token item) fs = some fs' ∧ CompilesAll aggregateOf stack' fs' := by
  unfold havingTerm at h
  split at h
  · cases hs with
    | nil => simp at h
    | cons ha hs =>
        obtain rfl := Except.ok.inj h
        exact ⟨nofun, _, rfl, .cons (.neg ha) hs⟩
  · cases hs with
    | nil => simp at h
    | cons ha hs =>
      cases hs with
      | nil => simp at h
      | cons hb hs =>
          obtain rfl := Except.ok.inj h
          exact ⟨nofun, _, rfl, .cons (.and ha hb) hs⟩
  · cases hs with
    | nil => simp at h
    | cons ha hs =>
      cases hs with
      | nil => simp at h
      | cons hb hs =>
          obtain rfl := Except.ok.inj h
          exact ⟨nofun, _, rfl, .cons (.or ha hb) hs⟩
  · next spec operator right =>
      obtain ⟨e, he, rfl⟩ := map_eq_ok.mp h
      have hof := comparisonOf_eq_some.mpr he
      exact ⟨fun _ => (comparisonOf_isSome aggregateOf _).mp ⟨e, hof⟩, _, rfl,
        .cons (.atom hof) hs⟩
  · simp at h

/-- What the prefix reader takes, the stack takes, where comparisons are accepted. -/
lemma havingTerm_complete {aggregateOf : String → Result (ε × κ)} {item : Json}
    {stack : List (Having ε)} {fs fs' : List (Formula Json)}
    (hs : CompilesAll aggregateOf stack fs)
    (hitem : token item = .atom item → Comparable aggregateOf item)
    (hpush : push (token item) fs = some fs') :
    ∃ stack', havingTerm aggregateOf item stack = .ok stack' := by
  rcases token_eq_self_or item with rfl | rfl | rfl | hatom
  · match fs, hpush, hs with
    | f :: g :: fs, _, .cons _ (.cons _ _) => exact ⟨_, rfl⟩
  · match fs, hpush, hs with
    | f :: g :: fs, _, .cons _ (.cons _ _) => exact ⟨_, rfl⟩
  · match fs, hpush, hs with
    | f :: fs, _, .cons _ _ => exact ⟨_, rfl⟩
  · have haccepted := hitem hatom
    obtain ⟨spec, operator, right, aggregate, rfl, -⟩ := id haccepted
    obtain ⟨e, he⟩ := (havingComparison_isOk aggregateOf _ _ right).mpr haccepted
    exact ⟨e :: stack, map_eq_ok.mpr ⟨e, he, rfl⟩⟩

/-- **The stack is what the prefix reader leaves**, and the list consists of operators and of
comparisons that are accepted. -/
lemma havingTerms_sound {aggregateOf : String → Result (ε × κ)} :
    ∀ {items : List Json} {stack : List (Having ε)}, havingTerms aggregateOf items = .ok stack →
      OnlyComparisons aggregateOf items ∧
        ∃ fs, readForest (items.map token) = some fs ∧ CompilesAll aggregateOf stack fs
  | [], stack, h => by
      obtain rfl := Except.ok.inj h
      exact ⟨List.forall_mem_nil _, [], rfl, .nil⟩
  | item :: items, stack, h => by
      obtain ⟨mid, hmid, hterm⟩ := bind_eq_ok.mp h
      obtain ⟨honly, fs, hfs, hall⟩ := havingTerms_sound hmid
      obtain ⟨hitem, fs', hpush, hall'⟩ := havingTerm_sound hall hterm
      refine ⟨List.forall_mem_cons.mpr ⟨hitem, honly⟩, fs', ?_, hall'⟩
      rw [List.map_cons, readForest_cons, hfs]
      exact hpush

lemma havingTerms_complete {aggregateOf : String → Result (ε × κ)} :
    ∀ {items : List Json} {fs : List (Formula Json)}, OnlyComparisons aggregateOf items →
      readForest (items.map token) = some fs →
        ∃ stack, havingTerms aggregateOf items = .ok stack
  | [], _, _, _ => ⟨[], rfl⟩
  | item :: items, fs, honly, h => by
      obtain ⟨hitem, honly⟩ := List.forall_mem_cons.mp honly
      rw [List.map_cons, readForest_cons] at h
      obtain ⟨mid, hmid, hpush⟩ := Option.bind_eq_some_iff.mp h
      obtain ⟨stack, hstack⟩ := havingTerms_complete honly hmid
      obtain ⟨-, fs', hfs', hall⟩ := havingTerms_sound hstack
      obtain rfl := Option.some.inj (hmid.symm.trans hfs')
      obtain ⟨stack', hstack'⟩ := havingTerm_complete hall hitem hpush
      exact ⟨stack', bind_eq_ok.mpr ⟨stack, hstack, hstack'⟩⟩

/-- The expressions that are left are joined as the formulas are. -/
lemma compiles_joinStack {aggregateOf : String → Result (ε × κ)} :
    ∀ {stack : List (Having ε)} {fs : List (Formula Json)} {top : Having ε} {f : Formula Json},
      Compiles aggregateOf top f → CompilesAll aggregateOf stack fs →
        Compiles aggregateOf (joinStack top stack) (joined .and f fs)
  | [], _, top, f, h, .nil => h
  | next :: stack, g :: fs, top, f, h, .cons hnext hall => by
      show Compiles aggregateOf (joinStack (.and top next) stack) (joined .and (.bin .and f g) fs)
      exact compiles_joinStack (.and h hnext) hall

/-! ## What a list means -/

/-- **What is accepted**: a sequence of complete expressions over accepted comparisons, read as
their conjunction. -/
lemma havingCondition_eq_ok {aggregateOf : String → Result (ε × κ)} {items : List Json}
    {e : Having ε} (h : havingCondition aggregateOf (.array items) = .ok (some e)) :
    OnlyComparisons aggregateOf items ∧ ∃ f fs, items.map token = spell (f :: fs) ∧
      Compiles aggregateOf e (joined .and f fs) := by
  cases items with
  | nil => simp [havingCondition] at h
  | cons item items =>
      obtain ⟨stack, hstack, he⟩ := bind_eq_ok.mp h
      obtain ⟨honly, fs, hread, hall⟩ := havingTerms_sound hstack
      refine ⟨honly, ?_⟩
      cases hall with
      | nil => simp at he
      | @cons top f stack fs htop hall =>
          obtain rfl := Option.some.inj (pure_eq_ok.mp he)
          exact ⟨f, fs, readForest_eq_some.mp hread, compiles_joinStack htop hall⟩

/-- **What is accepted is every such list.** -/
lemma exists_havingCondition {aggregateOf : String → Result (ε × κ)} {items : List Json}
    (honly : OnlyComparisons aggregateOf items) {fs : List (Formula Json)}
    (hspell : items.map token = spell fs) (hne : items ≠ []) :
    ∃ e, havingCondition aggregateOf (.array items) = .ok (some e) := by
  have hread := readForest_eq_some.mpr hspell
  obtain ⟨stack, hstack⟩ := havingTerms_complete honly hread
  obtain ⟨-, gs, hgs, hall⟩ := havingTerms_sound hstack
  obtain rfl := Option.some.inj (hread.symm.trans hgs)
  cases items with
  | nil => contradiction
  | cons item items =>
      cases hall with
      | nil => simp [spell] at hspell
      | @cons top f stack fs htop hall => exact ⟨_, bind_eq_ok.mpr ⟨_, hstack, rfl⟩⟩

/-- A term of a domain that stands where a comparison does, and is true where it is. -/
def StandsWhere (aggregateOf : String → Result (ε × κ)) (v : AggregateComparison ε → Prop)
    (w : Leaf → Prop) (item term : Json) : Prop :=
  (termOf term).isSome ∧ (comparisonHolds aggregateOf v item ↔ termHolds w term)

/-- What has the shape of a list consists of operators and terms. -/
lemma onlyTerms_of_alike {aggregateOf : String → Result (ε × κ)}
    {v : AggregateComparison ε → Prop} {w : Leaf → Prop} {ts : List (Tok Json)} :
    ∀ {terms : List Json},
      List.Forall₂ (Tok.Alike (StandsWhere aggregateOf v w)) ts (terms.map token) →
        OnlyTerms terms
  | [], _ => spells_nil.1
  | term :: terms, h => by
      rw [List.map_cons] at h
      cases h with
      | cons hterm hterms =>
          refine onlyTerms_cons.mpr ⟨fun hatom => ?_, onlyTerms_of_alike hterms⟩
          rw [hatom] at hterm
          cases hterm with
          | atom h => exact h.1

/-- **A list means the conjunction of the prefix expressions it consists of**, and what a domain of
the same shape means.  Without a list, and for an empty one, there is no condition. -/
theorem havingCondition_means (aggregateOf : String → Result (ε × κ)) (items : List Json) :
    (∀ e, havingCondition aggregateOf (.array items) = .ok (some e) →
      OnlyComparisons aggregateOf items ∧ ∃ fs, fs ≠ [] ∧ items.map token = spell fs ∧
        ∀ v, e.Holds v ↔ AllHold (comparisonHolds aggregateOf v) fs) ∧
    (∀ fs, OnlyComparisons aggregateOf items → items.map token = spell fs → items ≠ [] →
      ∃ e, havingCondition aggregateOf (.array items) = .ok (some e)) ∧
    (∀ e v w terms, havingCondition aggregateOf (.array items) = .ok (some e) →
      List.Forall₂ (Tok.Alike (StandsWhere aggregateOf v w)) (items.map token)
        (terms.map token) →
      ((∃ n, parse (.array terms) = .ok n) ∨
          parse (.array terms) = refuse nestingTooDeep) ∧
        ∀ n, parse (.array terms) = .ok n → (e.Holds v ↔ holds w n)) ∧
    havingCondition aggregateOf .null = .ok none ∧
    havingCondition aggregateOf (.array []) = .ok none := by
  refine ⟨fun e h => ?_, fun fs honly hspell hne => ?_, fun e v w terms h halike => ?_, rfl, rfl⟩
  · obtain ⟨honly, f, fs, hspell, hcompiles⟩ := havingCondition_eq_ok h
    refine ⟨honly, f :: fs, List.cons_ne_nil f fs, hspell, fun v => ?_⟩
    rw [hcompiles.holds v, holds_joined_and]
  · exact exists_havingCondition honly hspell hne
  · obtain ⟨-, f, fs, hspell, hcompiles⟩ := havingCondition_eq_ok h
    rw [hspell] at halike
    obtain ⟨gs, hgs, hmeaning⟩ := exists_of_alike_spell halike fun _ _ hsame => hsame.2
    have hspells : Spells terms gs := ⟨onlyTerms_of_alike halike, hgs⟩
    refine ⟨parse_cases ⟨gs, hspells⟩, fun n hn => ?_⟩
    rw [hcompiles.holds v, holds_joined_and, hmeaning, holds_of_spells hspells hn]

/-- The number of a group's records is the only aggregate. -/
def countOnly (spec : String) : Result (String × Unit) :=
  if spec = "__count" then .ok ("COUNT(*)", ()) else refuse "unknown aggregate"

/-- One record, or more than five; and then among none. -/
def oneOrMany : List Json :=
  [.string "|", .array [.string "__count", .string "=", .number (.int 1)],
    .array [.string "__count", .string ">", .number (.int 5)],
    .array [.string "__count", .string "not in", .array []]]

/-- The list is two expressions, and the last of its comparisons is true of every group. -/
theorem oneOrMany_means :
    ∃ fs, fs ≠ [] ∧ oneOrMany.map token = spell fs ∧
      ∀ v : AggregateComparison String → Prop,
        ((v ⟨"COUNT(*)", .eq, [.bigInt (some 1)]⟩ ∨ v ⟨"COUNT(*)", .gt, [.bigInt (some 5)]⟩) ∧
          true = true) ↔ AllHold (comparisonHolds countOnly v) fs := by
  obtain ⟨-, fs, hne, hspell, hmeaning⟩ := (havingCondition_means countOnly oneOrMany).1
    (.and (.or (.comparison ⟨"COUNT(*)", .eq, [.bigInt (some 1)]⟩)
      (.comparison ⟨"COUNT(*)", .gt, [.bigInt (some 5)]⟩)) (.custom true)) rfl
  exact ⟨fs, hne, hspell, hmeaning⟩

end OdooKernel
