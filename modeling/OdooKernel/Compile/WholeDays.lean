import OdooKernel.Compile.Fallback
import OdooKernel.Compile.Selection
import OdooKernel.Domain.Calendar

/-!
# Whole days partition time

A date without a time names a whole day in the time zone of the request, and every operator is
rewritten to orderings against the instants at which days start: `<` against the start of the day,
`<=` against the start of the next, and a membership to both.

**Zones.**  When a day starts is read in a table (`Starts`).  What is relied on is that days start
one after the other, less than a day from their midnight in UTC and at whole seconds (`DayStarts`);
the last day of Python's calendar has no next one, and then nothing is after it.

**From a leaf to an instant.**  A leaf is rewritten to comparisons without a day (`days_rewritten`,
`day_holds`), each of which says something of the instant that the row has (`ordering_holds`,
`membership_holds`).  Their negations are said beside them, because a negation of the rewritten
domain is pushed down to such comparisons.

* `InstantColumn`, `Compiler.Stores` — a stored field of instants, and the instant that a row has.
* `day_cases` — before a day, within it and after it.
* `days_complement` — `not in` selects the rows that `in` does not.
* **`days_partition_time`** — both.
-/

namespace OdooKernel

/-- **What the zone table is relied on for**: days start one after the other, less than a day from
their midnight in UTC, at whole seconds. -/
structure DayStarts (starts : Date → Option Instant) : Prop where
  increasing : ∀ d d' t t' : ℤ, d < d' → starts d = some t → starts d' = some t' → t < t'
  near : ∀ d t : ℤ, starts d = some t → d * dayLength - dayLength < t ∧ t < d * dayLength + dayLength
  seconds : ∀ d t : ℤ, starts d = some t → t % 1000000 = 0

namespace Compiler

/-! ## Where days start -/

/-- The instant at which a day starts. -/
def Starts (zone : Option (Date → Option Instant)) (day : Date) (t : ℤ) : Prop :=
  match zone with
  | some starts => if day.year = 1 ∨ day.year = 9999 then t = day * dayLength else starts day = some t
  | none => t = day * dayLength

section Zone

variable {zone : Option (Date → Option Instant)}

lemma Starts.unique {day : Date} {t t' : ℤ} (h : Starts zone day t) (h' : Starts zone day t') :
    t = t' := by
  unfold Starts at h h'
  cases zone with
  | none => rw [h, h']
  | some starts =>
      dsimp only at h h'
      split_ifs at h h'
      · rw [h, h']
      · rw [h, Option.some.injEq] at h'
        exact h'

/-- What a day is compared as is the text of the instant at which it starts. -/
lemma starts_of_startOf {day : Date} {v : Json} (h : startOf zone day = .ok v) :
    ∃ t, Starts zone day t ∧ v = .string (Instant.text t) := by
  unfold startOf at h
  unfold Starts
  cases zone with
  | none =>
      cases h
      exact ⟨_, rfl, rfl⟩
  | some starts =>
      dsimp only at h ⊢
      split_ifs at h ⊢
      · cases h
        exact ⟨_, rfl, rfl⟩
      · cases hstart : starts day with
        | none => simp [hstart] at h
        | some t =>
            rw [hstart, Except.ok.injEq] at h
            exact ⟨t, rfl, h.symm⟩

variable (hzone : ∀ starts ∈ zone, DayStarts starts)

include hzone

lemma Starts.seconds {day t : ℤ} (h : Starts zone day t) : t % 1000000 = 0 := by
  have hmidnight : day * dayLength % 1000000 = 0 := by
    simp only [dayLength]
    omega
  unfold Starts at h
  cases zone with
  | none => rwa [h]
  | some starts =>
      dsimp only at h
      split_ifs at h
      · rwa [h]
      · exact (hzone starts rfl).seconds day t h

/-- **Days start one after the other.** -/
lemma Starts.lt {day day' : ℤ} {t t' : ℤ} (h : Starts zone day t) (h' : Starts zone day' t')
    (hlt : day < day') : t < t' := by
  have hlength : 0 < dayLength := by decide
  have hmidnights : day * dayLength + dayLength ≤ day' * dayLength := by
    have := Int.mul_le_mul_of_nonneg_right (show day + 1 ≤ day' from hlt) hlength.le
    rwa [Int.add_mul, Int.one_mul] at this
  unfold Starts at h h'
  cases zone with
  | none => omega
  | some starts =>
      have htable := hzone starts rfl
      dsimp only at h h'
      split_ifs at h h'
      · omega
      · have := (htable.near _ _ h').1
        omega
      · have := (htable.near _ _ h).2
        omega
      · exact htable.increasing _ _ _ _ hlt h h'

end Zone

/-! ## A field of instants -/

variable {c : Compiler} {name : String} {f : Field} {db : Database} {env : Env}

variable (c) in
/-- A stored field of instants, without a value that reads as unset. -/
structure InstantColumn (name : String) (f : Field) : Prop extends c.OwnColumn name f where
  ttype : f.ttype = .Datetime
  stored : f.stored = true
  falsy : f.falsyJson = none
  untranslated : f.translated = false
  timestamp : f.pgType ≠ "numeric"
  unguarded : f.companyDependent = true → f.index ≠ some "btree_not_null"

variable (c db env) in
/-- The instant that a row has, if any. -/
structure Stores (f : Field) (stored : Option Instant) : Prop where
  value : ∀ e, Yields (c.ctx.fieldExpr c.model f c.aliasName) e →
    e.eval db env = stored.map Datum.timestamp
  notNull : f.notNull = true → stored ≠ none

/-- The passes but for the one of whole days leave a comparison of instants as it is. -/
lemma first_wholeDays {l : LeafView} (hfield : l.field = some f) (ht : f.ttype = .Datetime)
    (hdotted : l.dotted = false)
    (hv : isOrdering l.leaf.op = true ∧ (∃ s, l.leaf.value = .string s) ∨
      (l.leaf.op = "in" ∨ l.leaf.op = "not in") ∧ ∃ items, l.leaf.value = .array items) :
    Pass.first [refuseOrderings l, rewriteUnlessUnset l, rewriteEquality l, wrapMember l,
      c.rewritePattern l, textNumbers l, c.wholeDays l, refuseRelational l, namesAndIds l,
      c.numericTexts l, booleanValues l, unsetOrdering l] =
      c.datetimeDayComparand l.leaf.field l.leaf.op l.leaf.value := by
  have htype : l.ttype = some .Datetime := by
    rw [LeafView.ttype, hfield, Option.map_some, ht]
  have hrelational : l.relational = false := by
    simp [LeafView.relational, LeafView.headRelational, hdotted, htype]
  have hops : endsWith "like" l.leaf.op = false ∧ l.leaf.op ≠ "=?" ∧
      l.leaf.op ∉ ["=", "==", "!=", "<>"] ∧ l.comparesValues = true := by
    rcases hv with ⟨hop, -⟩ | ⟨hop, -⟩
    · simp only [isOrdering, List.mem_cons, List.not_mem_nil, or_false, decide_eq_true_eq] at hop
      rcases hop with hop | hop | hop | hop <;> rw [LeafView.comparesValues, hop] <;>
        simp [isOrdering] <;> decide +kernel
    · rcases hop with hop | hop <;> rw [LeafView.comparesValues, LeafView.isMembership, hop] <;>
        simp <;> decide +kernel
  obtain ⟨hlike, hunless, hequality, hcompares⟩ := hops
  have hrefuse : refuseOrderings l = Pass.next ∧ wrapMember l = Pass.next ∧
      unsetOrdering l = Pass.next := by
    rcases hv with ⟨hop, s, hs⟩ | ⟨hop, items, hitems⟩
    · have hmember : l.isMembership = false := by
        simp only [isOrdering, List.mem_cons, List.not_mem_nil, or_false, decide_eq_true_eq] at hop
        rcases hop with hop | hop | hop | hop <;> simp [LeafView.isMembership, hop]
      simp [refuseOrderings, wrapMember, unsetOrdering, hs, Json.isArray, Json.asArray, hfield,
        isNullLike, hmember]
    · have hordering : isOrdering l.leaf.op = false := by
        rcases hop with hop | hop <;> simp [isOrdering, hop]
      simp [refuseOrderings, wrapMember, unsetOrdering, hitems, Json.isArray, Json.asArray, hfield,
        hordering]
  have hothers : rewriteUnlessUnset l = Pass.next ∧ rewriteEquality l = Pass.next ∧
      c.rewritePattern l = Pass.next ∧ textNumbers l = Pass.next ∧ refuseRelational l = Pass.next ∧
      namesAndIds l = Pass.next ∧ c.numericTexts l = Pass.next ∧ booleanValues l = Pass.next := by
    refine ⟨if_neg hunless, if_neg fun h => hequality h.2, ?_, ?_, ?_, ?_, ?_, ?_⟩
    · simp [rewritePattern, hlike]
    · simp [textNumbers, htype]
    · simp [refuseRelational, hfield, ht]
    · simp [namesAndIds, hrelational]
    · simp [numericTexts, htype]
    · unfold booleanValues
      split
      · simp [htype]
      · rfl
  obtain ⟨hunset, heq, hpattern, htext, hrel, hnames, hnumeric, hboolean⟩ := hothers
  have hdays : c.wholeDays l =
      (c.datetimeDayComparand l.leaf.field l.leaf.op l.leaf.value >>= fun rewritten =>
        rewritten.elim Pass.next Pass.into) := by
    refine (if_pos ⟨by simp [hdotted], htype, hcompares⟩).trans (bind_congr fun rewritten => ?_)
    cases rewritten <;> rfl
  simp only [Pass.first, hrefuse, hunset, heq, hpattern, htext, hrel, hnames, hnumeric, hboolean, hdays,
    Pass.next]
  cases c.datetimeDayComparand l.leaf.field l.leaf.op l.leaf.value with
  | error e => rfl
  | ok rewritten => cases rewritten <;> rfl

/-- **What a comparison of instants is rewritten to.** -/
lemma InstantColumn.optimizeLeaf (hf : c.InstantColumn name f) {op : String} {v : Json}
    (hv : isOrdering op = true ∧ (∃ s, v = .string s) ∨
      (op = "in" ∨ op = "not in") ∧ ∃ items, v = .array items) {rewritten : Option Node}
    (h : c.optimizeLeaf { field := name, op, value := v } = .ok rewritten) :
    c.datetimeDayComparand name op v = .ok rewritten := by
  have hview : c.view { field := name, op, value := v } =
      { leaf := { field := name, op, value := v }, head := name, field := some f } := by
    simp only [view, hf.head, hf.field]
  obtain ⟨-, -, h⟩ := bind_eq_ok.mp h
  rw [hview] at h
  rwa [first_wholeDays rfl hf.ttype (by simp [LeafView.dotted]) hv] at h

/-! ## Comparands without a day -/

/-- A comparison in which no day is left is one with the column. -/
lemma InstantColumn.column_holds (hf : c.InstantColumn name f) {op : String} {v : Json}
    {cond : Condition} (h : c.Compiles (leafNode name op v) cond)
    (hv : isOrdering op = true ∧ (∃ s, v = .string s) ∨
      (op = "in" ∨ op = "not in") ∧ ∃ items, v = .array items)
    (hdays : c.datetimeDayComparand name op v = .ok none) (db : Database) (env : Env) :
    ∃ e p, Yields (c.ctx.fieldExpr c.model f c.aliasName) e ∧
      Yields (c.operatorCondition f e op (comparands v)) p ∧
      (cond.Holds db env ↔ Selects db env p) := by
  have hfragment : isFragment v = false := by
    rcases hv with ⟨-, s, rfl⟩ | ⟨-, items, rfl⟩ <;> rfl
  have hcomparing : comparing op = true := by
    rcases hv with ⟨hop, -⟩ | ⟨rfl | rfl, -⟩
    · simp only [isOrdering, List.mem_cons, List.not_mem_nil, or_false, decide_eq_true_eq] at hop
      rcases hop with rfl | rfl | rfl | rfl <;> decide
    · decide
    · decide
  have hform : memberForm { field := name, op, value := v } = .ok (some (op, comparands v)) := by
    rcases hv with ⟨hop, s, rfl⟩ | ⟨rfl | rfl, items, rfl⟩
    · simp only [isOrdering, List.mem_cons, List.not_mem_nil, or_false, decide_eq_true_eq] at hop
      rcases hop with rfl | rfl | rfl | rfl <;> rfl
    · rfl
    · rfl
  have hrewritten : c.optimizeLeaf { field := name, op, value := v } = .ok none := by
    obtain ⟨rewritten, hrewritten⟩ := h.optimized hfragment
    rw [hrewritten, ← hf.optimizeLeaf hv hrewritten, hdays]
  obtain ⟨p, hp, hholds⟩ := h.column_holds hf.toOwnColumn hcomparing hfragment hrewritten
    db env
  unfold columnCondition at hp
  obtain ⟨form, hform', hp⟩ := yields_bind.mp hp
  rw [liftM_eq_ofResult, yields_ofResult, hform, Except.ok.injEq] at hform'
  subst hform'
  obtain ⟨e, he, hp⟩ := yields_bind.mp hp
  obtain ⟨q, hq, hp⟩ := yields_bind.mp hp
  obtain ⟨acc, hacc, hp⟩ := yields_bind.mp hp
  have hnone : acc = none := by
    have hother : c.trigramIndexed f = false := by
      simp [trigramIndexed, hf.untranslated]
    unfold trigramAcceleratorForValue at hacc
    split at hacc
    · rw [hother, Bool.not_false, Bool.true_or, if_pos rfl] at hacc
      exact (yields_pure.mp hacc).symm
    · exact (yields_pure.mp hacc).symm
  have hguard : ¬ (f.companyDependent = true ∧ f.index = some "btree_not_null") := by
    rintro ⟨hcompany, hindex⟩
    exact hf.unguarded hcompany hindex
  have hplain : (if op = "in" then accelerated none q else q) = q := by
    split_ifs <;> rfl
  rw [hnone, hplain, companyDependentGuard, if_pos (by
    cases hcompany : f.companyDependent with
    | false => exact .inl (by simp)
    | true => exact .inr fun hindex => hguard ⟨hcompany, hindex⟩)] at hp
  obtain rfl := yields_pure.mp hp
  rw [comparedExpr, if_neg hf.timestamp] at hq
  exact ⟨e, q, he, hq, hholds⟩

/-- An instant is before, after or at another one. -/
def ordered (op : String) (t t₀ : ℤ) : Prop :=
  match orderingOf op with
  | .lt => t < t₀
  | .gt => t₀ < t
  | .le => t ≤ t₀
  | .ge => t₀ ≤ t
  | .eq => t = t₀

lemma holds_ordered {server : Server} {op : String} {t t₀ : ℤ} :
    (orderingOf op).holds server (.timestamp t) (.timestamp t₀) = true ↔ ordered op t t₀ := by
  unfold ordered
  cases orderingOf op <;> simp [Comparison.holds, Datum.before, Datum.equals, Datum.toRat?, Datum.rank?]

/-- **An ordering against an instant.** -/
lemma InstantColumn.ordering_holds (hf : c.InstantColumn name f) {op s : String} {cond : Condition}
    (h : c.Compiles (leafNode name op (.string s)) cond) (hop : isOrdering op = true)
    (hday : strictDate s = none) {stored : Option Instant} (hstored : c.Stores db env f stored)
    {t₀ : ℤ} (hread : readInstant s = some t₀) :
    cond.Holds db env ↔ ∃ t ∈ stored, ordered op t t₀ := by
  have hdays : c.datetimeDayComparand name op (.string s) = .ok none := by
    simp [datetimeDayComparand, comparands, bareDate, Json.asStr, hday]
  obtain ⟨e, p, he, hp, hholds⟩ := hf.column_holds h (.inl ⟨hop, s, rfl⟩) hdays db env
  have hmember : ¬ (op = "in" ∨ op = "not in") := by
    rintro (rfl | rfl) <;> exact absurd hop (by decide)
  have hlike : endsWith "like" op = false := by
    simp only [isOrdering, List.mem_cons, List.not_mem_nil, or_false, decide_eq_true_eq] at hop
    rcases hop with rfl | rfl | rfl | rfl <;> decide +kernel
  rw [operatorCondition, if_neg hmember, hf.ttype, if_neg (by decide), hlike,
    if_neg Bool.false_ne_true, if_pos hop, liftM_eq_ofResult, yields_ofResult] at hp
  obtain ⟨x, comparand, hx, -, hselects⟩ := selects_inequality hp db env
  have hvalue : x = .timestamp t₀ := by
    simp only [toValue, hf.ttype, comparands, List.headD_cons, Json.asStr, Option.bind_some, hread,
      Except.ok.injEq] at hx
    exact hx.symm
  rw [hholds, hselects, hf.falsy, hstored.value e he, hvalue]
  simp [holds_ordered]

/-- **A membership in a list without a day.** -/
lemma InstantColumn.membership_holds (hf : c.InstantColumn name f) {op : String} {items : List Json}
    {cond : Condition} (h : c.Compiles (leafNode name op (.array items)) cond)
    (hop : op = "in" ∨ op = "not in") (hdays : ∀ v ∈ items, bareDate v = none)
    {stored : Option Instant} (hstored : c.Stores db env f stored) :
    cond.Holds db env ↔ (op = "in" ↔ Compared f items (stored.map Datum.timestamp)) := by
  have hnone : c.datetimeDayComparand name op (.array items) = .ok none := by
    have hany : (items.any fun v => (bareDate v).isSome) = false := by
      simpa using hdays
    simp [datetimeDayComparand, comparands, hany]
  obtain ⟨e, p, he, hp, hholds⟩ := hf.column_holds h (.inr ⟨hop, items, rfl⟩) hnone
    db env
  rw [operatorCondition, if_pos hop, liftM_eq_ofResult, yields_ofResult] at hp
  rw [hholds, inCondition_selects hop hp, hstored.value e he]
  · rfl
  · intro hnull
    rw [hstored.value e he]
    have hsome := hstored.notNull (by simpa using hnull)
    simpa using hsome

/-! ## Their negations -/

lemma compared_false (hf : f.falsyJson = none) (o : Option Datum) :
    Compared f [.bool false] o ↔ o = none := by
  simp [compared_none hf, isNullLike]

/-- The inverse ordering is of the other instants. -/
lemma ordered_inverse {op op' : String} (h : inverseInequality name op = .ok op') (t t₀ : ℤ) :
    isOrdering op' = true ∧ (ordered op' t t₀ ↔ ¬ ordered op t t₀) := by
  unfold inverseInequality at h
  split at h
  · cases h
    exact ⟨by decide, not_lt.symm⟩
  · cases h
    exact ⟨by decide, not_lt.symm⟩
  · cases h
    exact ⟨by decide, not_le.symm⟩
  · cases h
    exact ⟨by decide, not_le.symm⟩
  · simp at h

/-- What the negation of a comparison without a day is. -/
lemma InstantColumn.negated (hf : c.InstantColumn name f) {op : String} {v : Json} {m : Node}
    (hm : c.Negates (leafNode name op v) m)
    (hv : isOrdering op = true ∧ (∃ s, v = .string s) ∨
      (op = "in" ∨ op = "not in") ∧ ∃ items, v = .array items)
    (hdays : c.datetimeDayComparand name op v = .ok none) :
    ∃ fuel, c.negatePlain fuel { field := name, op, value := v } = .ok m := by
  obtain ⟨fuel, hm⟩ := hm.leaf_cases
  obtain ⟨rewritten, hrewritten, hm⟩ := bind_eq_ok.mp hm
  have hnone := hf.optimizeLeaf hv hrewritten
  rw [hdays, Except.ok.injEq] at hnone
  subst hnone
  refine ⟨fuel, ?_⟩
  simpa only [hf.splitOnce] using hm

/-- **The negation of an ordering** is the inverse one or no instant. -/
lemma InstantColumn.negated_ordering (hf : c.InstantColumn name f) {op s : String} {m : Node}
    (hm : c.Negates (leafNode name op (.string s)) m) (hop : isOrdering op = true)
    (hday : strictDate s = none) :
    ∃ op', inverseInequality name op = .ok op' ∧
      m = .Or [leafNode name "in" (.array [.bool false]), leafNode name op' (.string s)] := by
  have hdays : c.datetimeDayComparand name op (.string s) = .ok none := by
    simp [datetimeDayComparand, comparands, bareDate, Json.asStr, hday]
  obtain ⟨fuel, hm⟩ := hf.negated hm (.inl ⟨hop, s, rfl⟩) hdays
  have hflipped : flipped op = none := by
    simp only [isOrdering, List.mem_cons, List.not_mem_nil, or_false, decide_eq_true_eq] at hop
    rcases hop with rfl | rfl | rfl | rfl <;> rfl
  unfold negatePlain at hm
  rw [hflipped, hf.field] at hm
  obtain ⟨keeps, hkeeps, hm⟩ := bind_eq_ok.mp hm
  have hone : keeps = false := by
    rw [keepsOrdering, if_pos hop] at hkeeps
    obtain ⟨one, hone, rfl⟩ := map_eq_ok.mp hkeeps
    cases fuel with
    | zero => simp [searchesOneValue, outOfCalls] at hone
    | succ fuel =>
        simp only [searchesOneValue, hf.ttype, hf.stored, FieldType.isX2many, if_true,
          Bool.false_eq_true, if_false, Except.ok.injEq] at hone
        rw [← hone]
        rfl
  rw [hone, if_neg Bool.false_ne_true] at hm
  obtain ⟨op', hop', hm⟩ := bind_eq_ok.mp hm
  obtain ⟨field, hfield, hm⟩ := bind_eq_ok.mp hm
  rw [hf.inequalityTarget, Except.ok.injEq] at hfield
  subst hfield
  rw [hf.falsy] at hm
  cases hm
  exact ⟨op', hop', rfl⟩

lemma InstantColumn.complementary_ordering (hf : c.InstantColumn name f) {op s : String}
    (hop : isOrdering op = true) (hday : strictDate s = none) {stored : Option Instant}
    (hstored : c.Stores db env f stored) {t₀ : ℤ} (hread : readInstant s = some t₀) :
    c.Complementary db env (leafNode name op (.string s)) := by
  intro m k p hm hk hp
  obtain ⟨op', hop', rfl⟩ := hf.negated_ordering hm hop hday
  have hinverse := fun t => ordered_inverse hop' t t₀
  obtain ⟨hcompiles, hholds⟩ := hk.or_holds db env
  simp only [List.forall_mem_cons, List.not_mem_nil, false_imp_iff, implies_true, and_true] at hcompiles
  obtain ⟨⟨unset, hunset⟩, inverse, hinverse'⟩ := hcompiles
  have hno : unset.Holds db env ↔ stored = none := by
    rw [hf.membership_holds hunset (.inl rfl) (by simp [bareDate, Json.asStr]) hstored,
      compared_false hf.falsy]
    simp
  have hother := hf.ordering_holds hinverse' (hinverse 0).1 hday hstored hread
  have hthis := hf.ordering_holds hp hop hday hstored hread
  rw [hholds, hthis]
  simp only [List.exists_mem_cons_iff, List.not_mem_nil, false_and, exists_false, or_false,
    satisfies_iff hunset, satisfies_iff hinverse', hno, hother]
  cases stored with
  | none => simp
  | some t => simp [(hinverse t).2]

lemma InstantColumn.complementary_in (hf : c.InstantColumn name f) {items : List Json}
    (hdays : ∀ v ∈ items, bareDate v = none) {stored : Option Instant}
    (hstored : c.Stores db env f stored) :
    c.Complementary db env (leafNode name "in" (.array items)) := by
  intro m k p hm hk hp
  have hnone : c.datetimeDayComparand name "in" (.array items) = .ok none := by
    have hany : (items.any fun v => (bareDate v).isSome) = false := by
      simpa using hdays
    simp [datetimeDayComparand, comparands, hany]
  have hin := hf.membership_holds hp (.inl rfl) hdays hstored
  obtain ⟨fuel, hm'⟩ := hf.negated hm (.inr ⟨.inl rfl, items, rfl⟩) hnone
  unfold negatePlain at hm'
  rw [show flipped "in" = some "not in" from rfl, hf.field] at hm'
  obtain ⟨byOperator, hby, hm'⟩ := bind_eq_ok.mp hm'
  cases byOperator with
  | true =>
      cases hm'
      have hnot := hf.membership_holds hk (.inr rfl) hdays hstored
      rw [hnot, hin]
      simp
  | false =>
      -- a field related through several records keeps its complement
      cases hm'
      rcases hk.not_cases with ⟨kept, k', hkept, hk', rfl⟩ | ⟨m', hm', hkept, -⟩
      · obtain rfl : kept = leafNode name "in" (.array items) := by
          have heq := hkept.unique hm
          cases heq
          rfl
        rw [hk'.unique hp, holds_addPredicate Condition.conj_all, and_iff_right holds_all,
          selects_isNotTrue]
        rfl
      · exact absurd (hm'.unique hm) (hkept _)

/-- **Being set.** -/
lemma InstantColumn.set_holds (hf : c.InstantColumn name f) {cond : Condition}
    (h : c.Compiles (leafNode name "!=" (.bool false)) cond) {stored : Option Instant}
    (hstored : c.Stores db env f stored) : cond.Holds db env ↔ stored ≠ none := by
  obtain ⟨rewritten, hrewritten⟩ := h.optimized (by rfl)
  have hmember : rewritten = some (leafNode name "not in" (.array [.bool false])) := by
    have hview : c.view { field := name, op := "!=", value := .bool false } =
        { leaf := { field := name, op := "!=", value := .bool false }, head := name, field := some f } := by
      simp only [view, hf.head, hf.field]
    obtain ⟨-, -, hfirst⟩ := bind_eq_ok.mp hrewritten
    rw [hview] at hfirst
    simp only [Pass.first, refuseOrderings, isOrdering, rewriteUnlessUnset, rewriteEquality, Pass.next,
      Pass.into, List.mem_cons, List.not_mem_nil, String.reduceEq, or_false, decide_false,
      Bool.false_eq_true, false_and, if_false, hf.notName, ne_eq, not_false_eq_true, or_true, true_and,
      or_self, if_true, Except.ok.injEq] at hfirst
    exact hfirst.symm
  subst hmember
  obtain ⟨⟨k, hk⟩, hholds⟩ := h.rewritten_holds rfl hrewritten db env
  rw [hholds, satisfies_iff hk, hf.membership_holds hk (.inr rfl) (by simp [bareDate, Json.asStr])
    hstored, compared_false hf.falsy]
  simp

/-! ## Days -/

variable {zone : Option (Date → Option Instant)} {day : Date} {stored : Option Instant}

/-- An instant is before a day. -/
def Before (zone : Option (Date → Option Instant)) (day : Date) (t : ℤ) : Prop :=
  ∀ t₀, Starts zone day t₀ → t < t₀

/-- An instant is before the end of a day. -/
def Until (zone : Option (Date → Option Instant)) (day : Date) (t : ℤ) : Prop :=
  ∀ after, dayAfter day = some after → Before zone after t

lemma before_iff {t₀ t : ℤ} (h : Starts zone day t₀) : Before zone day t ↔ t < t₀ :=
  ⟨fun hbefore => hbefore t₀ h, fun hlt _ h' => h.unique h' ▸ hlt⟩

lemma until_some {after : Date} (h : dayAfter day = some after) (t : ℤ) :
    Until zone day t ↔ Before zone after t := by
  simp [Until, h]

lemma until_none (h : dayAfter day = none) (t : ℤ) : Until zone day t := by
  simp [Until, h]

/-- What is before a day is before its end. -/
lemma Before.until (hzone : ∀ starts ∈ zone, DayStarts starts) {t₀ t : ℤ} (hstart : Starts zone day t₀)
    (h : Before zone day t) : Until zone day t := by
  intro after hafter t₁ hstart'
  have hnext : day < after := by
    unfold dayAfter at hafter
    split_ifs at hafter
    cases hafter
    exact Int.lt_succ day
  exact (h t₀ hstart).trans (Starts.lt hzone hstart hstart' hnext)

/-- An instant and a day, by an ordering. -/
def dayOrdered (zone : Option (Date → Option Instant)) (op : String) (day : Date) (t : ℤ) : Prop :=
  match op with
  | "<" => Before zone day t
  | ">" => ¬ Until zone day t
  | "<=" => Until zone day t
  | _ => ¬ Before zone day t

/-- An ordering against the instant at which a day starts. -/
lemma InstantColumn.start_holds (hf : c.InstantColumn name f)
    (hzone : ∀ starts ∈ zone, DayStarts starts) {op : String} {v : Json} {cond : Condition}
    (hv : startOf zone day = .ok v) (h : c.Compiles (leafNode name op v) cond)
    (hop : isOrdering op = true) (hstored : c.Stores db env f stored) :
    ∃ t₀, Starts zone day t₀ ∧ (cond.Holds db env ↔ ∃ t ∈ stored, ordered op t t₀) := by
  obtain ⟨t₀, hstart, rfl⟩ := starts_of_startOf hv
  exact ⟨t₀, hstart, hf.ordering_holds h hop (strictDate_text t₀) hstored
    (readInstant_text (hstart.seconds hzone))⟩

/-- **An ordering against a day.** -/
lemma InstantColumn.orderedDay_holds (hf : c.InstantColumn name f)
    (hzone : ∀ starts ∈ zone, DayStarts starts) {op : String} (hop : isOrdering op = true) {n : Node}
    (hn : orderedDay zone name op day = .ok n) {cond : Condition} (h : c.Compiles n cond)
    (hstored : c.Stores db env f stored) :
    cond.Holds db env ↔ ∃ t ∈ stored, dayOrdered zone op day t := by
  unfold orderedDay at hn
  unfold dayOrdered
  split at hn
  · next after hafter =>
      obtain ⟨v, hv, hn⟩ := bind_eq_ok.mp hn
      cases hn
      obtain ⟨t₀, hstart, hholds⟩ := hf.start_holds hzone hv h (by decide) hstored
      simp only [hholds, until_some hafter, before_iff hstart, not_lt]
      rfl
  · next hafter =>
      cases hn
      simp [h.false_holds, until_none hafter]
  · next after hafter =>
      obtain ⟨v, hv, hn⟩ := bind_eq_ok.mp hn
      cases hn
      obtain ⟨t₀, hstart, hholds⟩ := hf.start_holds hzone hv h (by decide) hstored
      simp only [hholds, until_some hafter, before_iff hstart]
      rfl
  · next hafter =>
      cases hn
      simp [hf.set_holds h hstored, until_none hafter, Option.ne_none_iff_exists']
  · next op _ _ hlater hlast hupto hend =>
      -- the other two are about the instant at which the day starts
      obtain ⟨v, hv, hn⟩ := bind_eq_ok.mp hn
      cases hn
      obtain ⟨t₀, hstart, hholds⟩ := hf.start_holds hzone hv h hop hstored
      have hcases : op = "<" ∨ op = ">=" := by
        simp only [isOrdering, List.mem_cons, List.not_mem_nil, or_false, decide_eq_true_eq] at hop
        cases hafter : dayAfter day with
        | none =>
            rcases hop with hop | hop | hop | hop
            · exact .inl hop
            · exact (hlast hop hafter).elim
            · exact (hend hop hafter).elim
            · exact .inr hop
        | some after =>
            rcases hop with hop | hop | hop | hop
            · exact .inl hop
            · exact (hlater after hop hafter).elim
            · exact (hupto after hop hafter).elim
            · exact .inr hop
      rcases hcases with rfl | rfl
      · simp only [hholds, before_iff hstart]
        rfl
      · simp only [hholds, before_iff hstart, not_lt]
        rfl

/-- **Being within a day.** -/
lemma InstantColumn.withinDay_holds (hf : c.InstantColumn name f)
    (hzone : ∀ starts ∈ zone, DayStarts starts) {n : Node} (hn : withinDay zone name day = .ok n)
    {cond : Condition} (h : c.Compiles n cond) (hstored : c.Stores db env f stored) :
    (∃ t₀, Starts zone day t₀) ∧
      (cond.Holds db env ↔ ∃ t ∈ stored, ¬ Before zone day t ∧ Until zone day t) := by
  unfold withinDay at hn
  cases hafter : dayAfter day with
  | none =>
      rw [hafter] at hn
      obtain ⟨v, hv, hn⟩ := bind_eq_ok.mp hn
      cases hn
      obtain ⟨t₀, hstart, hholds⟩ := hf.start_holds hzone hv h (by decide) hstored
      refine ⟨⟨t₀, hstart⟩, ?_⟩
      simp only [hholds, before_iff hstart, until_none hafter, and_true, not_lt]
      rfl
  | some after =>
      rw [hafter] at hn
      obtain ⟨v, hv, hn⟩ := bind_eq_ok.mp hn
      obtain ⟨v', hv', hn⟩ := bind_eq_ok.mp hn
      cases hn
      obtain ⟨hcompiles, hholds⟩ := h.and_holds db env
      simp only [List.forall_mem_cons, List.not_mem_nil, false_imp_iff, implies_true, and_true]
        at hcompiles
      obtain ⟨⟨k, hk⟩, k', hk'⟩ := hcompiles
      obtain ⟨t₀, hstart, hfirst⟩ := hf.start_holds hzone hv hk (by decide) hstored
      obtain ⟨t₁, hstart', hlast⟩ := hf.start_holds hzone hv' hk' (by decide) hstored
      refine ⟨⟨t₀, hstart⟩, ?_⟩
      rw [hholds]
      simp only [List.forall_mem_cons, List.not_mem_nil, false_imp_iff, implies_true, and_true,
        satisfies_iff hk, satisfies_iff hk', hfirst, hlast, before_iff hstart, until_some hafter,
        before_iff hstart', not_lt]
      cases stored with
      | none => simp
      | some t => simp [ordered, orderingOf]

/-- Being outside of a day is the negation of being within it. -/
lemma InstantColumn.withinDay_complementary (hf : c.InstantColumn name f)
    (hzone : ∀ starts ∈ zone, DayStarts starts) {n : Node} (hn : withinDay zone name day = .ok n)
    (hstored : c.Stores db env f stored) :
    c.Complementary db env n ∧ ∀ kept, ¬ c.Negates n (.Not kept) := by
  have hstart : ∀ {op : String} {day' : Date} {v : Json}, isOrdering op = true →
      startOf zone day' = .ok v → c.Complementary db env (leafNode name op v) := by
    intro op day' v hop hv
    obtain ⟨t₀, hstart, rfl⟩ := starts_of_startOf hv
    exact hf.complementary_ordering hop (strictDate_text t₀) hstored
      (readInstant_text (hstart.seconds hzone))
  unfold withinDay at hn
  cases hafter : dayAfter day with
  | none =>
      rw [hafter] at hn
      obtain ⟨v, hv, hn⟩ := bind_eq_ok.mp hn
      cases hn
      refine ⟨hstart (by decide) hv, fun kept hm => ?_⟩
      obtain ⟨t₀, -, rfl⟩ := starts_of_startOf hv
      obtain ⟨op', -, hnode⟩ := hf.negated_ordering hm (by decide) (strictDate_text t₀)
      cases hnode
  | some after =>
      rw [hafter] at hn
      obtain ⟨v, hv, hn⟩ := bind_eq_ok.mp hn
      obtain ⟨v', hv', hn⟩ := bind_eq_ok.mp hn
      cases hn
      refine ⟨.and ?_, fun kept hm => ?_⟩
      · simp [hstart (show isOrdering ">=" = true by decide) hv,
          hstart (show isOrdering "<" = true by decide) hv']
      · obtain ⟨ms, hms, -⟩ := hm.and_cases
        cases hms

/-! ## Comparands with days -/

lemma requestZone_op {op op' : String} (h : c.requestZone name op = .ok zone) :
    c.requestZone name op' = .ok zone := by
  unfold requestZone at h ⊢
  split at h
  · exact h
  · exact h
  · next z _ hz =>
      cases hstarts : c.ctx.zones z with
      | none => simp [hstarts] at h
      | some starts =>
          rw [hstarts] at h
          exact h

lemma requestZone_starts {op : String} (h : c.requestZone name op = .ok zone)
    (hzones : ∀ z starts, c.ctx.zones z = some starts → DayStarts starts) :
    ∀ starts ∈ zone, DayStarts starts := by
  unfold requestZone at h
  split at h
  · cases h
    simp
  · cases h
    simp
  · next z _ hz =>
      cases hstarts : c.ctx.zones z with
      | none => simp [hstarts] at h
      | some starts =>
          rw [hstarts] at h
          cases h
          intro s hs
          cases hs
          exact hzones z starts hstarts

lemma bareDate_string {v : Json} (h : bareDate v = some day) : ∃ s, v = .string s := by
  cases v with
  | string s => exact ⟨s, rfl⟩
  | null | bool | number | array | object => simp [bareDate, Json.asStr] at h

/-- **A leaf that orders against a day.** -/
lemma InstantColumn.day_holds (hf : c.InstantColumn name f)
    (hzones : ∀ z starts, c.ctx.zones z = some starts → DayStarts starts) {op : String}
    (hop : isOrdering op = true) {v : Json} (hday : bareDate v = some day) {cond : Condition}
    (h : c.Compiles (leafNode name op v) cond) (hstored : c.Stores db env f stored) :
    ∃ zone, c.requestZone name "in" = .ok zone ∧
      (cond.Holds db env ↔ ∃ t ∈ stored, dayOrdered zone op day t) := by
  obtain ⟨s, rfl⟩ := bareDate_string hday
  obtain ⟨rewritten, hrewritten⟩ := h.optimized rfl
  have hn := hf.optimizeLeaf (.inl ⟨hop, s, rfl⟩) hrewritten
  unfold datetimeDayComparand at hn
  simp only [comparands, List.any_cons, List.any_nil, hday, Option.isSome_some, Bool.or_false,
    Bool.not_true, Bool.false_eq_true, if_false, hop, if_true] at hn
  obtain ⟨zone, hzone, hn⟩ := bind_eq_ok.mp hn
  obtain ⟨n, hnode, heq⟩ := bind_eq_ok.mp hn
  cases heq
  obtain ⟨⟨k, hk⟩, hholds⟩ := h.rewritten_holds rfl hrewritten db env
  refine ⟨zone, requestZone_op hzone, ?_⟩
  rw [hholds, satisfies_iff hk]
  exact hf.orderedDay_holds (requestZone_starts hzone hzones) hop hnode hk hstored

/-- The conditions of being within some days or among exact comparands. -/
def memberNodes (name : String) (days : List Node) (exact : List Json) : List Node :=
  if exact.isEmpty then days else days ++ [leafNode name "in" (.array exact)]

/-- A disjunction, unless it has one member. -/
def disjunction : List Node → Node
  | [day] => day
  | days => .Or days

/-- **What a membership in a list with a day is rewritten to.** -/
lemma InstantColumn.days_rewritten (hf : c.InstantColumn name f) {op : String}
    (hop : op = "in" ∨ op = "not in") {items : List Json} (hany : ∃ v ∈ items, (bareDate v).isSome)
    {rewritten : Option Node}
    (h : c.optimizeLeaf { field := name, op, value := .array items } = .ok rewritten) :
    ∃ zone days, c.requestZone name "in" = .ok zone ∧
      (items.filterMap bareDate).mapM (withinDay zone name) = .ok days ∧
      rewritten = some (
        let node := disjunction (memberNodes name days (items.filter fun x => (bareDate x).isNone))
        if op = "not in" then .Not node else node) := by
  have hn := hf.optimizeLeaf (.inr ⟨hop, items, rfl⟩) h
  have hordering : isOrdering op = false := by
    rcases hop with rfl | rfl <;> decide
  have hsome : (items.any fun x => (bareDate x).isSome) = true := List.any_eq_true.mpr hany
  unfold datetimeDayComparand at hn
  simp only [comparands, hsome, Bool.not_true, Bool.false_eq_true, if_false, hordering] at hn
  obtain ⟨zone, hzone, hn⟩ := bind_eq_ok.mp hn
  obtain ⟨days, hdays, hn⟩ := bind_eq_ok.mp hn
  cases hn
  refine ⟨zone, days, requestZone_op hzone, hdays, ?_⟩
  rfl

/-- **A leaf of one day.** -/
lemma InstantColumn.one_day_holds (hf : c.InstantColumn name f)
    (hzones : ∀ z starts, c.ctx.zones z = some starts → DayStarts starts) {v : Json}
    (hday : bareDate v = some day) {cond : Condition}
    (h : c.Compiles (leafNode name "in" (.array [v])) cond) (hstored : c.Stores db env f stored) :
    ∃ zone, c.requestZone name "in" = .ok zone ∧ (∀ starts ∈ zone, DayStarts starts) ∧
      (∃ t₀, Starts zone day t₀) ∧
      (cond.Holds db env ↔ ∃ t ∈ stored, ¬ Before zone day t ∧ Until zone day t) := by
  obtain ⟨rewritten, hrewritten⟩ := h.optimized rfl
  obtain ⟨zone, days, hzone, hdays, rfl⟩ := hf.days_rewritten (.inl rfl)
    ⟨v, List.mem_singleton_self v, by simp [hday]⟩ hrewritten
  have hstarts := requestZone_starts hzone hzones
  rw [mapM_eq_ok] at hdays
  simp only [List.filterMap_cons, hday, List.filterMap_nil] at hdays
  obtain ⟨n, days, hn, hnil, hcons⟩ := List.forall₂_cons_left_iff.mp hdays
  cases hnil
  subst hcons
  have hexact : [v].filter (fun x => (bareDate x).isNone) = [] := by simp [hday]
  obtain ⟨⟨k, hk⟩, hholds⟩ := h.rewritten_holds rfl hrewritten db env
  rw [hexact] at hk hholds
  obtain ⟨hstart, hwithin⟩ := hf.withinDay_holds hstarts hn hk hstored
  refine ⟨zone, hzone, hstarts, hstart, ?_⟩
  rw [hholds, ← hwithin]
  exact satisfies_iff hk

/-- One of three, and no other. -/
def ExactlyOne (p q r : Prop) : Prop := (p ∧ ¬ q ∧ ¬ r) ∨ (¬ p ∧ q ∧ ¬ r) ∨ (¬ p ∧ ¬ q ∧ r)

/-- An instant is before a day, within it or after it, and no instant is none of them. -/
lemma day_cases (hf : c.InstantColumn name f)
    (hzones : ∀ z starts, c.ctx.zones z = some starts → DayStarts starts) {v : Json}
    (hday : bareDate v = some day) {before within after upto since : Condition}
    (hbefore : c.Compiles (leafNode name "<" v) before)
    (hwithin : c.Compiles (leafNode name "in" (.array [v])) within)
    (hafter : c.Compiles (leafNode name ">" v) after)
    (hupto : c.Compiles (leafNode name "<=" v) upto)
    (hsince : c.Compiles (leafNode name ">=" v) since) (hstored : c.Stores db env f stored) :
    (stored ≠ none → ExactlyOne (before.Holds db env) (within.Holds db env) (after.Holds db env)) ∧
      (upto.Holds db env ↔ before.Holds db env ∨ within.Holds db env) ∧
      (since.Holds db env ↔ within.Holds db env ∨ after.Holds db env) ∧
      (stored = none → ¬ before.Holds db env ∧ ¬ within.Holds db env ∧ ¬ after.Holds db env) := by
  obtain ⟨zone, hzone, hstarts, ⟨t₀, hstart⟩, hin⟩ := hf.one_day_holds hzones hday hwithin hstored
  have hordered : ∀ {op : String} {cond : Condition}, isOrdering op = true →
      c.Compiles (leafNode name op v) cond →
      (cond.Holds db env ↔ ∃ t ∈ stored, dayOrdered zone op day t) := by
    intro op cond hop hcond
    obtain ⟨zone', hzone', hholds⟩ := hf.day_holds hzones hop hday hcond hstored
    rw [hzone, Except.ok.injEq] at hzone'
    rwa [hzone']
  rw [hin, hordered (by decide) hbefore, hordered (by decide) hafter, hordered (by decide) hupto,
    hordered (by decide) hsince]
  cases stored with
  | none => simp
  | some t =>
      have huntil : Before zone day t → Until zone day t := fun h => h.until hstarts hstart
      simp only [dayOrdered, Option.mem_some_iff, exists_eq_left', ExactlyOne]
      by_cases hbefore : Before zone day t
      · simp [hbefore, huntil hbefore]
      · by_cases hend : Until zone day t <;> simp [hbefore, hend]

lemma complementary_disjunction {ns : List Node} (hns : ∀ n ∈ ns, c.Complementary db env n) :
    c.Complementary db env (disjunction ns) := by
  unfold disjunction
  split
  · next day => exact hns day (List.mem_singleton_self day)
  · exact .or hns

/-- The negation of a disjunction of days is not kept as it is. -/
lemma not_kept_disjunction {days : List Node} {exact : List Json} (hne : days ≠ [])
    (hdays : ∀ n ∈ days, ∀ kept, ¬ c.Negates n (.Not kept)) (kept : Node) :
    ¬ c.Negates (disjunction (memberNodes name days exact)) (.Not kept) := by
  intro hm
  unfold disjunction at hm
  split at hm
  · next day hday =>
      -- the one member is a day
      have hmem : day ∈ days := by
        cases days with
        | nil => exact absurd rfl hne
        | cons n ns =>
            unfold memberNodes at hday
            split_ifs at hday
            · rw [hday]
              exact List.mem_singleton_self day
            · have hlength := congrArg List.length hday
              simp at hlength
      exact hdays day hmem kept hm
  · obtain ⟨ms, hms, -⟩ := hm.or_cases
    cases hms

/-- `not in` selects the rows that `in` does not, whatever days, instants and unset values are among
the comparands. -/
lemma days_complement (hf : c.InstantColumn name f)
    (hzones : ∀ z starts, c.ctx.zones z = some starts → DayStarts starts) {items : List Json}
    {within outside : Condition} (hwithin : c.Compiles (leafNode name "in" (.array items)) within)
    (houtside : c.Compiles (leafNode name "not in" (.array items)) outside)
    (hstored : c.Stores db env f stored) : outside.Holds db env ↔ ¬ within.Holds db env := by
  by_cases hany : ∃ v ∈ items, (bareDate v).isSome
  · obtain ⟨rewritten, hin⟩ := hwithin.optimized rfl
    obtain ⟨rewritten', hout⟩ := houtside.optimized rfl
    obtain ⟨zone, days, hzone, hdays, rfl⟩ := hf.days_rewritten (.inl rfl) hany hin
    obtain ⟨zone', days', hzone', hdays', rfl⟩ := hf.days_rewritten (.inr rfl) hany hout
    rw [hzone, Except.ok.injEq] at hzone'
    subst hzone'
    rw [hdays, Except.ok.injEq] at hdays'
    subst hdays'
    have hstarts := requestZone_starts hzone hzones
    have hdayNodes : ∀ n ∈ days, c.Complementary db env n ∧ ∀ kept, ¬ c.Negates n (.Not kept) := by
      intro n hn
      obtain ⟨day, -, hday⟩ := exists_of_mem_mapM hdays hn
      exact hf.withinDay_complementary hstarts hday hstored
    have hne : days ≠ [] := by
      rintro rfl
      obtain ⟨v, hv, hday⟩ := hany
      obtain ⟨day, hday⟩ := Option.isSome_iff_exists.mp hday
      have hmem := List.mem_filterMap.mpr ⟨v, hv, hday⟩
      rw [List.forall₂_nil_right_iff.mp (mapM_eq_ok.mp hdays)] at hmem
      cases hmem
    have hcomplementary : c.Complementary db env
        (disjunction (memberNodes name days (items.filter fun x => (bareDate x).isNone))) := by
      refine complementary_disjunction fun n hn => ?_
      unfold memberNodes at hn
      split_ifs at hn
      · exact (hdayNodes n hn).1
      · rcases List.mem_append.mp hn with hn | hn
        · exact (hdayNodes n hn).1
        · rw [List.mem_singleton.mp hn]
          refine hf.complementary_in (fun v hv => ?_) hstored
          simpa using (List.mem_filter.mp hv).2
    obtain ⟨⟨p, hp⟩, hwithin'⟩ := hwithin.rewritten_holds rfl hin db env
    obtain ⟨⟨q, hq⟩, houtside'⟩ := houtside.rewritten_holds rfl hout db env
    rw [hwithin', houtside', satisfies_iff hp, satisfies_iff hq]
    exact hcomplementary.not_holds
      (not_kept_disjunction hne fun n hn => (hdayNodes n hn).2) hq hp
  · have hdays : ∀ v ∈ items, bareDate v = none := by
      intro v hv
      by_contra hsome
      exact hany ⟨v, hv, Option.isSome_iff_ne_none.mpr hsome⟩
    rw [hf.membership_holds houtside (.inr rfl) hdays hstored,
      hf.membership_holds hwithin (.inl rfl) hdays hstored]
    simp

/-- **Days partition time.**  Of the conditions of being before a day, within it and after it exactly
one holds of an instant, and none of a row without one; `<=` and `>=` are two of them each, and
`not in` is the complement of `in`, whatever the comparands. -/
theorem days_partition_time (hf : c.InstantColumn name f)
    (hzones : ∀ z starts, c.ctx.zones z = some starts → DayStarts starts)
    (hstored : c.Stores db env f stored) :
    (∀ v day before within after upto since, bareDate v = some day →
      c.Compiles (leafNode name "<" v) before → c.Compiles (leafNode name "in" (.array [v])) within →
      c.Compiles (leafNode name ">" v) after → c.Compiles (leafNode name "<=" v) upto →
      c.Compiles (leafNode name ">=" v) since →
        (stored ≠ none →
          ExactlyOne (before.Holds db env) (within.Holds db env) (after.Holds db env)) ∧
        (upto.Holds db env ↔ before.Holds db env ∨ within.Holds db env) ∧
        (since.Holds db env ↔ within.Holds db env ∨ after.Holds db env) ∧
        (stored = none → ¬ before.Holds db env ∧ ¬ within.Holds db env ∧ ¬ after.Holds db env)) ∧
    ∀ items within outside, c.Compiles (leafNode name "in" (.array items)) within →
      c.Compiles (leafNode name "not in" (.array items)) outside →
        (outside.Holds db env ↔ ¬ within.Holds db env) := by
  refine ⟨?_, fun _ _ _ hwithin houtside => days_complement hf hzones hwithin houtside hstored⟩
  intro v day before within after upto since hday hbefore hwithin hafter hupto hsince
  exact day_cases hf hzones hday hbefore hwithin hafter hupto hsince hstored

end Compiler

/-! ## Visits an hour east of Greenwich -/

namespace Visits

def metOn : Field := Field.column "met_on" .Datetime "timestamp" none

def visit : Model := plainModel "visit" "visit" [("met_on", metOn)]

def compiler : Compiler :=
  .root
    { ExprCtx.plain (plainRegistry [("visit", visit)]) (Security.plain [] []) none with
      tz := some "Africa/Lagos"
      zones := fun _ => some fun day => some (day * dayLength - 3600000000) }
    visit .empty true

def database : Database where
  table _ := []
  fragment _ := []
  server := .plain

/-- Half past midnight of a day, in Lagos. -/
def met : Instant := 19782 * dayLength - 1800000000

def row : Env := fun _ _ => some (.timestamp met)

lemma instantColumn : compiler.InstantColumn "met_on" metOn where
  steps := by decide +kernel
  notName := by decide
  registered := rfl
  field := rfl
  hasColumn := rfl
  searchKind := by decide
  ttype := rfl
  stored := rfl
  falsy := rfl
  untranslated := rfl
  timestamp := by decide
  unguarded h := by cases h

lemma stores : compiler.Stores database row metOn (some met) where
  value e he := by
    have hcol : Yields (compiler.ctx.fieldExpr compiler.model metOn compiler.aliasName)
        (.col "visit" "met_on") := ⟨_, rfl⟩
    rw [he.unique hcol]
    rfl
  notNull h := by cases h

lemma dayStarts : ∀ z starts, compiler.ctx.zones z = some starts → DayStarts starts := by
  intro z starts h
  cases h
  have hmidnight : ∀ d : ℤ, d * dayLength % 1000000 = 0 := by
    intro d
    simp only [dayLength]
    omega
  constructor
  · intro d d' t t' hlt ht ht'
    cases ht
    cases ht'
    show d * dayLength - 3600000000 < d' * dayLength - 3600000000
    simp only [dayLength]
    omega
  · intro d t ht
    cases ht
    show d * dayLength - dayLength < d * dayLength - 3600000000 ∧ _
    simp only [dayLength]
    omega
  · intro d t ht
    cases ht
    have := hmidnight d
    show (d * dayLength - 3600000000) % 1000000 = 0
    omega

/-- A leap day. -/
def day : Json := .string "2024-02-29"

/-- A day, an instant and no instant at all. -/
def mixed : Json := .array [day, .string "2024-01-01 10:00:00", .bool false]

/-- The visit is before the day, within it or after it, and among some comparands or not. -/
theorem met_partition : ∃ before within after among outside,
    compiler.Compiles (leafNode "met_on" "<" day) before ∧
    compiler.Compiles (leafNode "met_on" "in" (.array [day])) within ∧
    compiler.Compiles (leafNode "met_on" ">" day) after ∧
    compiler.Compiles (leafNode "met_on" "in" mixed) among ∧
    compiler.Compiles (leafNode "met_on" "not in" mixed) outside ∧
    Compiler.ExactlyOne (before.Holds database row) (within.Holds database row)
      (after.Holds database row) ∧
    (outside.Holds database row ↔ ¬ among.Holds database row) := by
  have hleaf : ∀ op v, (Compiler.compile 6 compiler (leafNode "met_on" op v)).run.isOk = true →
      ∃ cond, compiler.Compiles (leafNode "met_on" op v) cond := by
    intro op v hok
    obtain ⟨cond, hcond⟩ := yields_of_isOk hok
    exact ⟨cond, 6, hcond⟩
  obtain ⟨before, hbefore⟩ := hleaf "<" day (by decide +kernel)
  obtain ⟨within, hwithin⟩ := hleaf "in" (.array [day]) (by decide +kernel)
  obtain ⟨after, hafter⟩ := hleaf ">" day (by decide +kernel)
  obtain ⟨upto, hupto⟩ := hleaf "<=" day (by decide +kernel)
  obtain ⟨since, hsince⟩ := hleaf ">=" day (by decide +kernel)
  obtain ⟨among, hamong⟩ := hleaf "in" mixed (by decide +kernel)
  obtain ⟨outside, houtside⟩ := hleaf "not in" mixed (by decide +kernel)
  obtain ⟨hdays, hlists⟩ := Compiler.days_partition_time instantColumn dayStarts stores
  have hday : Compiler.bareDate day = some 19782 := by decide +kernel
  obtain ⟨hone, -, -, -⟩ := hdays day 19782 before within after upto since hday hbefore hwithin hafter
    hupto hsince
  exact ⟨before, within, after, among, outside, hbefore, hwithin, hafter, hamong, houtside,
    hone (by simp), hlists _ among outside hamong houtside⟩

end Visits

end OdooKernel
