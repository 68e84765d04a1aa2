import OdooKernel.Compile.Fallback
import OdooKernel.Compile.WholeDays

/-!
# The rows that a negation selects

A leaf on a column of the model says something of the value that a row has there, and a domain of
such leaves means what its shape makes of that, for a row without a value too.  SQL would not have it
so: a comparison with NULL is neither true nor false, and neither is its complement.  The compiler
keeps the two apart by what it does to a negation before it compiles it, and this file says that it
does enough.

**Leaves.**  `PlainColumn` is a field that is compared as it is stored, and `ColumnSays` what a leaf
says of the value of one, NULL being read as the falsy value of the field.  A pattern is held against
the text of a value (`patternDatum`), which for a number is the number written out.
`PlainColumn.leaf_holds` is what the compiled leaf selects; `columnSays_flipped` and
`columnSays_inverse` are what the opposite operators say, and `Pass.first_kept` that no pass rewrites
one of two opposite leaves only.

**Domains.**  `OverColumns` are the domains over such leaves, `Means` what they say of a row.  A
negation means the opposite (`Means.negate`), and a condition holds where its domain is true
(`holds_of_means`).

**The result.**  `negation_exact`: a negation selects the rows that its domain does not select.
-/

namespace OdooKernel

/-! ## Leaves that no pass rewrites -/

/-- The second pass leaves a leaf as it is where the first one does. -/
def Pass.KeepsLike (p q : Pass) : Prop :=
  (p = .ok none → q = .ok none) ∧ (p = .ok (some none) → q = .ok (some none))

namespace Pass.KeepsLike

variable {p q p' q' : Pass} {P Q : Prop} [Decidable P] [Decidable Q]

@[refl] lemma refl (p : Pass) : KeepsLike p p := ⟨id, id⟩

lemma into (n : Node) (q : Pass) : KeepsLike (.into n) q := ⟨nofun, nofun⟩

lemma error (e : KernelError) (q : Pass) : KeepsLike (.error e) q := ⟨nofun, nofun⟩

lemma ite (h : P ↔ Q) (hp : KeepsLike p p') (hq : KeepsLike q q') :
    KeepsLike (if P then p else q) (if Q then p' else q') := by
  by_cases hP : P
  · rwa [if_pos hP, if_pos (h.mp hP)]
  · rwa [if_neg hP, if_neg fun hQ => hP (h.mpr hQ)]

/-- After the same computation. -/
lemma bind {α : Type} (x : Result α) {f g : α → Pass} (h : ∀ a, KeepsLike (f a) (g a)) :
    KeepsLike (x >>= f) (x >>= g) := by
  cases x with
  | error e => exact error e _
  | ok a => exact h a

end Pass.KeepsLike

lemma Pass.first_kept {ps qs : List Pass} (h : List.Forall₂ Pass.KeepsLike ps qs)
    (hfirst : Pass.first ps = .ok none) : Pass.first qs = .ok none := by
  induction h with
  | nil => rfl
  | @cons p q ps qs hpq _ ih =>
      rcases p with e | _ | out
      · simp [Pass.first] at hfirst
      · rw [hpq.1 rfl]
        exact ih hfirst
      · obtain rfl : out = none := by simpa [Pass.first] using hfirst
        rw [hpq.2 rfl]
        rfl

lemma Pass.first_next {ps : List Pass} (h : ∀ p ∈ ps, p = Pass.next) : Pass.first ps = .ok none := by
  induction ps with
  | nil => rfl
  | cons p ps ih =>
      rw [List.forall_mem_cons] at h
      rw [h.1]
      exact ih h.2

/-- The same leaf with another operator. -/
def LeafView.withOp (v : LeafView) (op : String) : LeafView := { v with leaf := { v.leaf with op } }

namespace Compiler

variable {c : Compiler} {name op op' : String} {value : Json} {f : Field} {db : Database} {env : Env}

/-- The operators that are each other's complement. -/
def opposites : List (String × String) :=
  [("in", "not in"), ("not in", "in"), ("<", ">="), (">", "<="), (">=", "<"), ("<=", ">"),
    ("like", "not like"), ("not like", "like"), ("ilike", "not ilike"), ("not ilike", "ilike"),
    ("=like", "not =like"), ("not =like", "=like"), ("=ilike", "not =ilike"),
    ("not =ilike", "=ilike")]

/-- Two operators that the passes tell apart only by what they rewrite a leaf to. -/
structure SameKind (op op' : String) : Prop where
  unlessUnset : op ≠ "=?" ∧ op' ≠ "=?"
  equality : op ∉ ["=", "==", "!=", "<>"] ∧ op' ∉ ["=", "==", "!=", "<>"]
  ordering : isOrdering op = isOrdering op'
  member : (op = "in" ∨ op = "not in") ↔ (op' = "in" ∨ op' = "not in")
  like : endsWith "like" op = endsWith "like" op'
  equalForm : containsText "=" op = containsText "=" op' ∨ endsWith "like" op = false

lemma sameKind_of_opposites (hop : (op, op') ∈ opposites) : SameKind op op' := by
  simp only [opposites, List.mem_cons, List.not_mem_nil, or_false, Prod.mk.injEq] at hop
  rcases hop with ⟨rfl, rfl⟩ | ⟨rfl, rfl⟩ | ⟨rfl, rfl⟩ | ⟨rfl, rfl⟩ | ⟨rfl, rfl⟩ | ⟨rfl, rfl⟩ |
    ⟨rfl, rfl⟩ | ⟨rfl, rfl⟩ | ⟨rfl, rfl⟩ | ⟨rfl, rfl⟩ | ⟨rfl, rfl⟩ | ⟨rfl, rfl⟩ | ⟨rfl, rfl⟩ |
    ⟨rfl, rfl⟩
  all_goals
    constructor <;> decide +kernel

section Passes

variable {v : LeafView} (hkind : SameKind v.leaf.op op')

include hkind

lemma isMembership_withOp : v.isMembership = (v.withOp op').isMembership := by
  have hmember : (v.withOp op').leaf.op = op' := rfl
  simp only [LeafView.isMembership, ← Bool.decide_or, hmember, hkind.member]

lemma comparesValues_withOp : v.comparesValues = (v.withOp op').comparesValues := by
  have hordering : isOrdering v.leaf.op = isOrdering (v.withOp op').leaf.op := hkind.ordering
  rw [LeafView.comparesValues, isMembership_withOp hkind, hordering]
  rfl

lemma refuseOrderings_keeps : (refuseOrderings v).KeepsLike (refuseOrderings (v.withOp op')) :=
  .ite (and_congr_left' (by rw [hkind.ordering]; rfl)) (.error _ _) (.refl _)

lemma rewriteUnlessUnset_keeps :
    (rewriteUnlessUnset v).KeepsLike (rewriteUnlessUnset (v.withOp op')) :=
  .ite (iff_of_false hkind.unlessUnset.1 hkind.unlessUnset.2)
    (.ite Iff.rfl (.into _ _) (.ite Iff.rfl (.into _ _) (.into _ _))) (.refl _)

lemma rewriteEquality_keeps : (rewriteEquality v).KeepsLike (rewriteEquality (v.withOp op')) :=
  .ite (iff_of_false (fun h => hkind.equality.1 h.2) fun h => hkind.equality.2 h.2) (.into _ _) (.refl _)

lemma wrapMember_keeps : (wrapMember v).KeepsLike (wrapMember (v.withOp op')) :=
  .ite (and_congr_left' (by rw [isMembership_withOp hkind])) (.ite Iff.rfl (.refl _) (.into _ _))
    (.refl _)

lemma rewritePattern_keeps : (c.rewritePattern v).KeepsLike (c.rewritePattern (v.withOp op')) := by
  obtain ⟨⟨field, op, value⟩, head, own⟩ := v
  by_cases hlike : endsWith "like" op = true
  · have hequal : containsText "=" op = containsText "=" op' :=
      hkind.equalForm.resolve_right fun h => by simp_all
    refine .ite (by rw [hkind.like]; rfl)
      (.ite Iff.rfl (.refl _) (.bind _ fun complemented => .ite Iff.rfl (.refl _) (.ite Iff.rfl ?_ ?_)))
      (.refl _)
    · split_ifs <;> exact .into _ _
    · cases value with
      | number n =>
          refine .ite (by rw [hequal]; rfl) (.error _ _) (.ite Iff.rfl ?_ ?_)
          · exact .bind _ fun _ => .into _ _
          · exact .bind _ fun _ => .into _ _
      | null | bool _ | string _ | object _ | array _ => exact .refl _
  · have hlike' : ¬ endsWith "like" op' = true := fun h => hlike (hkind.like.trans h)
    have hnext : ∀ o, endsWith "like" o ≠ true →
        c.rewritePattern { leaf := { field, op := o, value }, head, field := own } = Pass.next :=
      fun o ho => if_neg ho
    rw [hnext op hlike]
    exact hnext op' hlike' ▸ .refl _

lemma textNumbers_keeps : (textNumbers v).KeepsLike (textNumbers (v.withOp op')) := by
  refine .ite (and_congr_right' (and_congr_right' (by rw [comparesValues_withOp hkind]))) ?_ (.refl _)
  obtain ⟨⟨field, op, value⟩, head, own⟩ := v
  cases value with
  | number n => exact .bind _ fun _ => .into _ _
  | array items => exact .ite Iff.rfl (.bind _ fun _ => .into _ _) (.refl _)
  | null | bool _ | string _ | object _ => exact .refl _

lemma datetimeDayComparand_kept (h : c.datetimeDayComparand name v.leaf.op value = .ok none) :
    c.datetimeDayComparand name op' value = .ok none := by
  unfold datetimeDayComparand at h ⊢
  dsimp only at h ⊢
  by_cases hdays : (!(comparands value).any fun x => (bareDate x).isSome) = true
  · rw [if_pos hdays]
  · rw [if_neg hdays] at h ⊢
    obtain ⟨zone, hzone, h⟩ := bind_eq_ok.mp h
    refine bind_eq_ok.mpr ⟨zone, requestZone_op hzone, ?_⟩
    rw [← hkind.ordering]
    by_cases hordering : isOrdering v.leaf.op = true
    · rw [if_pos hordering] at h ⊢
      cases hday : bareDate value with
      | none => rfl
      | some day =>
          rw [hday] at h
          obtain ⟨node, -, h⟩ := bind_eq_ok.mp h
          cases h
    · rw [if_neg hordering] at h
      obtain ⟨days, -, h⟩ := bind_eq_ok.mp h
      cases h

lemma wholeDays_keeps : (c.wholeDays v).KeepsLike (c.wholeDays (v.withOp op')) := by
  refine .ite (and_congr_right' (and_congr_right' (by rw [comparesValues_withOp hkind]))) ?_ (.refl _)
  cases hdays : c.datetimeDayComparand v.leaf.field v.leaf.op v.leaf.value with
  | error e => exact .error e _
  | ok node =>
      cases node with
      | some node => exact .into _ _
      | none =>
          have hdays' : c.datetimeDayComparand (v.withOp op').leaf.field (v.withOp op').leaf.op
              (v.withOp op').leaf.value = .ok none := datetimeDayComparand_kept hkind hdays
          rw [hdays']

lemma refuseRelational_keeps :
    (refuseRelational v).KeepsLike (refuseRelational (v.withOp op')) := by
  have hmember := isMembership_withOp hkind
  obtain ⟨⟨field, op, value⟩, head, own⟩ := v
  cases own with
  | none => exact .refl _
  | some f =>
      refine .ite Iff.rfl (.ite (and_congr_left' ?_) (.error _ _)
        (.ite (and_congr_left' ?_) (.error _ _) (.refl _))) (.refl _)
      · rw [hkind.ordering]
        rfl
      · rw [hmember]

lemma namesAndIds_keeps : (namesAndIds v).KeepsLike (namesAndIds (v.withOp op')) := by
  refine .ite (and_congr_right' (and_congr_right' (by rw [isMembership_withOp hkind]))) ?_ (.refl _)
  obtain ⟨⟨field, op, value⟩, head, own⟩ := v
  cases value with
  | array items =>
      refine .ite Iff.rfl (.into _ _) (.ite Iff.rfl (.ite Iff.rfl (.into _ _) ?_) (.refl _))
      split_ifs <;> exact .into _ _
  | null | bool _ | string _ | object _ | number _ => exact .ite Iff.rfl (.into _ _) (.refl _)

lemma numericTexts_keeps : (c.numericTexts v).KeepsLike (c.numericTexts (v.withOp op')) := by
  refine .ite (and_congr_right' (and_congr_right' (by rw [comparesValues_withOp hkind]))) ?_ (.refl _)
  obtain ⟨⟨field, op, value⟩, head, own⟩ := v
  cases value with
  | array items => exact .ite Iff.rfl (.bind _ fun _ => .into _ _) (.refl _)
  | string s =>
      refine .bind _ fun number => ?_
      cases number with
      | some n => exact .into _ _
      | none =>
          dsimp only
          split_ifs <;> first | exact .into _ _ | exact .error _ _
  | null | bool _ | object _ | number _ => exact .refl _

lemma booleanValues_keeps : (booleanValues v).KeepsLike (booleanValues (v.withOp op')) := by
  have hmember := isMembership_withOp hkind
  obtain ⟨⟨field, op, value⟩, head, own⟩ := v
  cases value with
  | array items =>
      exact .ite (and_congr_right' (and_congr_right' (and_congr_left' (by rw [hmember]))))
        (.into _ _) (.refl _)
  | null | bool _ | string _ | object _ | number _ => exact .refl _

lemma unsetOrdering_keeps : (unsetOrdering v).KeepsLike (unsetOrdering (v.withOp op')) := by
  obtain ⟨⟨field, op, value⟩, head, own⟩ := v
  cases own with
  | none => exact .refl _
  | some f =>
      refine .ite (and_congr_right' (and_congr_left' (by rw [hkind.ordering]; rfl))) ?_ (.refl _)
      cases hfalsy : f.inequalityFalsyJson with
      | none => exact .into _ _
      | some falsy => exact .ite Iff.rfl (.refl _) (.into _ _)

end Passes

/-- **A leaf that is not rewritten is not rewritten with the opposite operator.** -/
lemma optimizeLeaf_opposite (hop : (op, op') ∈ opposites)
    (h : c.optimizeLeaf { field := name, op, value } = .ok none) :
    c.optimizeLeaf { field := name, op := op', value } = .ok none := by
  have hkind : SameKind (c.view { field := name, op, value }).leaf.op op' := sameKind_of_opposites hop
  simp only [optimizeLeaf, bind_eq_ok] at h ⊢
  obtain ⟨hchecked, hcheck, hfirst⟩ := h
  refine ⟨hchecked, hcheck, Pass.first_kept ?_ hfirst⟩
  refine .cons (refuseOrderings_keeps hkind) (.cons (rewriteUnlessUnset_keeps hkind)
    (.cons (rewriteEquality_keeps hkind) (.cons (wrapMember_keeps hkind)
    (.cons (rewritePattern_keeps hkind) (.cons (textNumbers_keeps hkind)
    (.cons (wholeDays_keeps hkind) (.cons (refuseRelational_keeps hkind)
    (.cons (namesAndIds_keeps hkind) (.cons (numericTexts_keeps hkind)
    (.cons (booleanValues_keeps hkind) (.cons (unsetOrdering_keeps hkind) .nil)))))))))))

/-- The comparison with no value is not rewritten, where the field can be compared at all. -/
lemma optimizeLeaf_unset {rewritten : Option Node}
    (h : c.optimizeLeaf { field := name, op, value } = .ok rewritten) :
    c.optimizeLeaf { field := name, op := "in", value := .array [.bool false] } = .ok none := by
  simp only [optimizeLeaf, bind_eq_ok] at h ⊢
  obtain ⟨hchecked, hcheck, -⟩ := h
  refine ⟨hchecked, hcheck, Pass.first_next ?_⟩
  simp only [List.forall_mem_cons, List.not_mem_nil, false_imp_iff, implies_true, and_true]
  have hordering : isOrdering "in" = false := rfl
  have hlike : endsWith "like" "in" = false := by decide +kernel
  have hdays : c.datetimeDayComparand name "in" (.array [.bool false]) = .ok none := rfl
  refine ⟨?_, ?_, ?_, ?_, ?_, ?_, ?_, ?_, ?_, ?_, ?_, ?_⟩
  · simp [refuseOrderings, view, hordering]
  · simp [rewriteUnlessUnset, view]
  · simp [rewriteEquality, view]
  · simp [wrapMember, view, Json.isArray, Json.asArray]
  · simp [rewritePattern, view, hlike]
  · simp [textNumbers, view, isNumber]
  · simp [wholeDays, view, hdays, bind, Except.bind]
  · cases hfield : c.model.fields.get? (headOf name) <;>
      simp [refuseRelational, view, hfield, hordering, comparands]
  · simp [namesAndIds, view, isFalsyId, Json.isString, Json.asStr]
  · simp [numericTexts, view, Json.isString, Json.asStr]
  · simp [booleanValues, view, isBoolean]
  · cases hfield : c.model.fields.get? (headOf name) <;> simp [unsetOrdering, view, hfield, hordering]

/-! ## Columns -/

variable (c) in
/-- A field of the model with a column whose values are compared as they are stored. -/
structure PlainColumn (name : String) (f : Field) : Prop extends c.OwnColumn name f where
  companyDependent : f.companyDependent = false
  translated : f.translated = false

variable (c) in
/-- What a column is compared as. -/
def columnExpr (f : Field) : Expr := comparedExpr f (.col c.aliasName f.name)

/-- The operators of patterns. -/
def matching (op : String) : Bool :=
  op ∈ ["like", "not like", "ilike", "not ilike", "=like", "not =like", "=ilike", "not =ilike"]

/-- The text that a pattern is held against: a text itself, a number of a float field without the zeros at
its end, and else what the server writes for a value. -/
def patternDatum (server : Server) (f : Field) (d : Datum) : Option Datum :=
  if f.ttype.isText then some d
  else if f.ttype = .Float ∨ f.ttype = .Monetary then trimScale server d
  else some (.text (server.textOf d))

/-- The text of a column matches a pattern. -/
def Matches (hasUnaccent : Bool) (server : Server) (op : String) (raw s : String) : Bool :=
  let insensitive := endsWith "ilike" op
  let folded := fun s => if insensitive && hasUnaccent then server.unaccent s else s
  matchesPattern server insensitive (folded s) (folded (patternOf op raw))

/-- **What a leaf says of the value of a column**, NULL being read as the falsy value of its field. -/
def ColumnSays (hasUnaccent : Bool) (server : Server) (f : Field) (op : String) (value : Json)
    (o : Option Datum) : Prop :=
  if op = "in" then Compared f (Compiler.comparands value) o
  else if op = "not in" then ¬ Compared f (Compiler.comparands value) o
  else if isOrdering op then
    (∃ d ∈ o, ∃ x, toValue f value = .ok x ∧ (orderingOf op).holds server d x = true) ∨
      (o = none ∧ f.notNull = false ∧ ∃ comparand, orderComparand f value = .ok comparand ∧
        ∃ falsy ∈ f.falsyJson, jsonCmpOp falsy comparand op = some true)
  else if startsWith "not " op then
    ∀ raw, value = .string raw → ∀ s, o.bind (patternDatum server f) = some (.text s) →
      Matches hasUnaccent server op raw s = false
  else ∃ raw s, value = .string raw ∧ o.bind (patternDatum server f) = some (.text s) ∧
    Matches hasUnaccent server op raw s = true

section Column

variable {p : Predicate} {cond : Condition}

/-- A column is compared as it is stored. -/
lemma PlainColumn.operatorCondition (hf : c.PlainColumn name f) {values : List Json}
    (hform : memberForm { field := name, op, value } = .ok (some (op, values)))
    (h : Yields (c.columnCondition f { field := name, op, value }) p) :
    Yields (c.operatorCondition f (c.columnExpr f) op values) p := by
  have hindex : c.trigramIndexed f = false := by
    simp [trigramIndexed, hf.translated]
  unfold columnCondition at h
  obtain ⟨form, hform', h⟩ := yields_bind.mp h
  rw [liftM_eq_ofResult, yields_ofResult, hform, Except.ok.injEq] at hform'
  subst hform'
  obtain ⟨e, he, h⟩ := yields_bind.mp h
  obtain ⟨q, hq, h⟩ := yields_bind.mp h
  obtain ⟨acc, hacc, h⟩ := yields_bind.mp h
  have hexpr : e = .col c.aliasName f.name := by
    unfold ExprCtx.fieldExpr at he
    rw [hf.hasColumn, Bool.not_true, if_neg Bool.false_ne_true] at he
    obtain ⟨-, -, he⟩ := yields_bind.mp he
    rw [hf.companyDependent, hf.translated, if_neg Bool.false_ne_true, if_neg Bool.false_ne_true] at he
    exact (yields_pure.mp he).symm
  have hnone : acc = none := by
    unfold trigramAcceleratorForValue at hacc
    split at hacc
    · rw [hindex, Bool.not_false, Bool.true_or, if_pos rfl] at hacc
      exact (yields_pure.mp hacc).symm
    · exact (yields_pure.mp hacc).symm
  have hplain : (if op = "in" then accelerated none q else q) = q := by
    split_ifs <;> rfl
  rw [hnone, hplain, companyDependentGuard, if_pos (.inl (by simp [hf.companyDependent]))] at h
  obtain rfl := yields_pure.mp h
  rw [hexpr] at hq
  exact hq

variable (c) in
/-- The row has a value where the column says so, a text where it holds texts, and a number where it
holds numbers that are not integers. -/
structure FitsColumn (db : Database) (env : Env) (f : Field) : Prop where
  notNull : f.notNull = true → (c.columnExpr f).eval db env ≠ none
  text : f.ttype.isText = true → ∀ d ∈ (c.columnExpr f).eval db env, ∃ s, d = .text s
  number : f.ttype = .Float ∨ f.ttype = .Monetary → ∀ d ∈ (c.columnExpr f).eval db env,
    (trimScale db.server d).isSome = true

/-- A membership. -/
lemma PlainColumn.member_holds (hf : c.PlainColumn name f) (hfits : c.FitsColumn db env f)
    (hop : op = "in" ∨ op = "not in") {items : List Json}
    (h : Yields (c.columnCondition f { field := name, op, value := .array items }) p) :
    Selects db env p ↔ ColumnSays c.ctx.registry.hasUnaccent db.server f op (.array items)
      ((c.columnExpr f).eval db env) := by
  have hform : memberForm { field := name, op, value := .array items } = .ok (some (op, items)) := by
    rcases hop with rfl | rfl <;> rfl
  have hp := hf.operatorCondition hform h
  rw [Compiler.operatorCondition, if_pos hop, liftM_eq_ofResult, yields_ofResult] at hp
  rw [inCondition_selects hop hp (by simpa using hfits.notNull)]
  rcases hop with rfl | rfl <;> simp [ColumnSays, comparands]

/-- An ordering. -/
lemma PlainColumn.ordering_holds (hf : c.PlainColumn name f) (hop : isOrdering op = true)
    (h : Yields (c.columnCondition f { field := name, op, value }) p) :
    Selects db env p ↔ ColumnSays c.ctx.registry.hasUnaccent db.server f op value
      ((c.columnExpr f).eval db env) := by
  have hops : op = "<" ∨ op = ">" ∨ op = "<=" ∨ op = ">=" := by
    simpa [isOrdering] using hop
  have hform : memberForm { field := name, op, value } = .ok (some (op, [value])) := by
    rcases hops with rfl | rfl | rfl | rfl <;> rfl
  have hp := hf.operatorCondition hform h
  have hmember : ¬ (op = "in" ∨ op = "not in") := by
    rcases hops with rfl | rfl | rfl | rfl <;> decide
  have hlike : endsWith "like" op = false := by
    rcases hops with rfl | rfl | rfl | rfl <;> decide +kernel
  rw [Compiler.operatorCondition, if_neg hmember, hlike] at hp
  split_ifs at hp with hbool hno
  · simp at hp
  · cases hno
  · rw [liftM_eq_ofResult, yields_ofResult] at hp
    obtain ⟨x, comparand, hx, hcomparand, hselects⟩ := selects_inequality hp db env
    rw [List.headD_cons] at hx hcomparand
    rw [hselects, ColumnSays, if_neg (not_or.mp hmember).1, if_neg (not_or.mp hmember).2, if_pos hop]
    simp [hx, hcomparand]

/-- The operators of patterns, one by one. -/
lemma matching_cases (hop : matching op = true) : op = "like" ∨ op = "not like" ∨ op = "ilike" ∨
    op = "not ilike" ∨ op = "=like" ∨ op = "not =like" ∨ op = "=ilike" ∨ op = "not =ilike" := by
  simpa [matching] using hop

/-- What a column's pattern is held against is the text of its value. -/
lemma eval_patternText (f : Field) (e : Expr) :
    (patternText f e).eval db env = (e.eval db env).bind (patternDatum db.server f) := by
  have hkept : patternDatum db.server f = if f.ttype.isText then some else
      if f.ttype = .Float ∨ f.ttype = .Monetary then trimScale db.server
      else castDatum db.server "text" := by
    funext d
    unfold patternDatum
    split_ifs <;> rfl
  rw [hkept]
  unfold patternText
  split_ifs
  · exact (Option.bind_fun_some _).symm
  · rfl
  · rfl

lemma trimScale_text {server : Server} {d d' : Datum} (h : trimScale server d = some d') :
    ∃ s, d' = .text s := by
  cases d <;> simp only [trimScale, Option.map_eq_some_iff, Option.some.injEq] at h
  all_goals first
    | exact ⟨_, h.symm⟩
    | obtain ⟨_, -, h⟩ := h
      exact ⟨_, h.symm⟩

/-- A value of a column has a text. -/
lemma FitsColumn.patternDatum (hfits : c.FitsColumn db env f) {d : Datum}
    (hd : (c.columnExpr f).eval db env = some d) :
    ∃ s, Compiler.patternDatum db.server f d = some (.text s) := by
  unfold Compiler.patternDatum
  split_ifs with htext hnumber
  · obtain ⟨s, rfl⟩ := hfits.text htext d hd
    exact ⟨s, rfl⟩
  · obtain ⟨d', hd'⟩ := Option.isSome_iff_exists.mp (hfits.number hnumber d hd)
    obtain ⟨s, rfl⟩ := trimScale_text hd'
    exact ⟨s, hd'⟩
  · exact ⟨_, rfl⟩

lemma selects_likeExpr {hasUnaccent : Bool} {e : Expr} {raw : String}
    (htext : ∀ d ∈ e.eval db env, ∃ s, d = .text s) :
    Selects db env (likeExpr hasUnaccent op e (patternOf op raw)) ↔
      ∃ s, e.eval db env = some (.text s) ∧
        (Matches hasUnaccent db.server op raw s = !startsWith "not " op) := by
  unfold Matches likeExpr
  dsimp only
  cases he : e.eval db env with
  | none => split_ifs <;> simp [Selects, Predicate.eval, Expr.eval, he, likeData, Truth.not]
  | some d =>
      obtain ⟨s, rfl⟩ := htext d he
      split_ifs <;> cases hnot : startsWith "not " op <;>
        simp_all [Selects, Predicate.eval, Expr.eval, likeData, Truth.not]

/-- A pattern. -/
lemma PlainColumn.pattern_holds (hf : c.PlainColumn name f) (hfits : c.FitsColumn db env f)
    (hmany2one : f.ttype ≠ .Many2one) (hop : matching op = true)
    {again : Compiler → Node → Compile Condition}
    (h : Yields (c.fieldCondition again f { field := name, op, value }) p) :
    Selects db env p ↔ ColumnSays c.ctx.registry.hasUnaccent db.server f op value
      ((c.columnExpr f).eval db env) := by
  have hops := matching_cases hop
  have hany : isAny op = false := by
    rcases hops with rfl | rfl | rfl | rfl | rfl | rfl | rfl | rfl <;> decide +kernel
  have hmember : ¬ (op = "in" ∨ op = "not in") := by
    rcases hops with rfl | rfl | rfl | rfl | rfl | rfl | rfl | rfl <;> decide
  have hlike : endsWith "like" op = true ∧ containsText "like" op = true := by
    rcases hops with rfl | rfl | rfl | rfl | rfl | rfl | rfl | rfl <;> decide +kernel
  have hordering : isOrdering op = false := by
    rcases hops with rfl | rfl | rfl | rfl | rfl | rfl | rfl | rfl <;> rfl
  have hform : memberForm { field := name, op, value } = .ok (some (op, [value])) := by
    rcases hops with rfl | rfl | rfl | rfl | rfl | rfl | rfl | rfl <;> rfl
  unfold Compiler.fieldCondition at h
  simp only [hf.searchKind, if_false, hmany2one, hany, false_and, hf.hasColumn, hlike, Bool.not_true,
    Bool.and_false, Bool.or_true, Bool.true_or, and_true, Bool.false_eq_true] at h
  split_ifs at h with hcustom hproperties hboolean
  · simp at h
  · simp at h
  · simp at h
  · have hp := hf.operatorCondition hform h
    rw [Compiler.operatorCondition, if_neg hmember, if_neg hboolean, hlike.1, if_pos rfl,
      List.headD_cons] at hp
    unfold likeCondition at hp
    cases value with
    | string raw =>
        obtain ⟨acc, hacc, hp⟩ := yields_bind.mp hp
        have hnone : acc = none := by
          rw [trigramAccelerator, trigramIndexed, hf.translated, Bool.and_false, Bool.false_and,
            Bool.not_false, Bool.true_or, Bool.true_or, Bool.true_or, if_pos rfl] at hacc
          exact (yields_pure.mp hacc).symm
        have hpattern : Selects db env (likeExpr c.ctx.registry.hasUnaccent op
            (patternText f (c.columnExpr f)) (patternOf op raw)) ↔
              ∃ s, ((c.columnExpr f).eval db env).bind (patternDatum db.server f) = some (.text s) ∧
                (Matches c.ctx.registry.hasUnaccent db.server op raw s = !startsWith "not " op) := by
          rw [← eval_patternText]
          refine selects_likeExpr fun d hd => ?_
          rw [eval_patternText, Option.mem_def, Option.bind_eq_some_iff] at hd
          obtain ⟨stored, hstored, hd⟩ := hd
          obtain ⟨s, hs⟩ := hfits.patternDatum hstored
          exact ⟨s, by rw [hd] at hs; exact Option.some.inj hs⟩
        rw [hnone] at hp
        obtain rfl := yields_pure.mp hp
        rw [ColumnSays, if_neg (not_or.mp hmember).1, if_neg (not_or.mp hmember).2, hordering,
          if_neg Bool.false_ne_true, accelerated]
        cases hvalue : (c.columnExpr f).eval db env with
        | none =>
            have hnullable : f.notNull = false := by
              by_contra hnotNull
              exact hfits.notNull (by simpa using hnotNull) hvalue
            cases hnot : startsWith "not " op <;> simp [hpattern, hvalue, hnot, hnullable]
        | some d =>
            obtain ⟨s, hs⟩ := hfits.patternDatum hvalue
            cases hnot : startsWith "not " op <;> cases hnull : f.notNull <;>
              simp [hpattern, hvalue, hs, hnot]
    | null | bool _ | number _ | array _ | object _ => simp at hp

/-- The operators that say something of a column's value: comparisons, and patterns, which a many2one
holds against the names of its records instead. -/
def columnOperator (f : Field) (op : String) : Bool :=
  comparing op || (f.ttype ≠ .Many2one && matching op)

/-- **A leaf on a column selects the rows that it is true of.** -/
lemma PlainColumn.leaf_holds (hf : c.PlainColumn name f) (hfits : c.FitsColumn db env f)
    (hop : columnOperator f op = true) (hfragment : isFragment value = false)
    (hplain : c.optimizeLeaf { field := name, op, value } = .ok none)
    (h : c.Compiles (leafNode name op value) cond) :
    cond.Holds db env ↔ ColumnSays c.ctx.registry.hasUnaccent db.server f op value
      ((c.columnExpr f).eval db env) := by
  rcases Bool.or_eq_true_iff.mp hop with hcomparing | hpattern
  · obtain ⟨p, hp, hholds⟩ := h.column_holds hf.toOwnColumn hcomparing hfragment hplain db env
    rw [hholds]
    have hops : (op = "in" ∨ op = "not in") ∨ isOrdering op = true := by
      simp only [comparing, List.mem_cons, List.not_mem_nil, or_false, decide_eq_true_eq] at hcomparing
      rcases hcomparing with rfl | rfl | rfl | rfl | rfl | rfl <;> simp [isOrdering]
    rcases hops with hmember | hordering
    · cases value with
      | array items => exact hf.member_holds hfits hmember hp
      | null | bool _ | number _ | string _ | object _ =>
          rcases hmember with rfl | rfl <;> simp [columnCondition, memberForm, yields_bind] at hp
    · exact hf.ordering_holds hordering hp
  · obtain ⟨hmany2one, hmatching⟩ := Bool.and_eq_true_iff.mp hpattern
    obtain ⟨fuel, p, hp, hholds⟩ := h.field_holds hf.toOwnColumn hfragment hplain db env
    rw [hholds]
    exact hf.pattern_holds hfits (of_decide_eq_true hmany2one) hmatching hp

end Column

/-! ## The opposite of what a leaf says -/

/-- A comparand that a value of the field, and the falsy value that NULL is read as, are before, after
or at. -/
def Orders (f : Field) (value : Json) : Prop :=
  (∃ x, toValue f value = .ok x) ∧ ∃ comparand, orderComparand f value = .ok comparand ∧
    (f.notNull = true ∨ ∀ falsy ∈ f.falsyJson, (jsonOrdering falsy comparand).isSome = true)

/-- A pattern matches, or does not, for the opposite operator. -/
lemma matches_opposite (hop : matching op = true) {op' : String} (hop' : flipped op = some op')
    (hasUnaccent : Bool) (server : Server) (raw s : String) :
    Matches hasUnaccent server op' raw s = Matches hasUnaccent server op raw s := by
  have hsame : endsWith "ilike" op' = endsWith "ilike" op ∧ containsText "=" op' = containsText "=" op := by
    rcases matching_cases hop with rfl | rfl | rfl | rfl | rfl | rfl | rfl | rfl <;>
      cases hop' <;> decide +kernel
  unfold Matches patternOf
  rw [hsame.1, hsame.2]

/-- **The opposite operator says the opposite.** -/
lemma columnSays_flipped (hop : columnOperator f op = true) (hop' : flipped op = some op')
    (hasUnaccent : Bool) (server : Server) (o : Option Datum) :
    ColumnSays hasUnaccent server f op' value o ↔ ¬ ColumnSays hasUnaccent server f op value o := by
  rcases Bool.or_eq_true_iff.mp hop with hcomparing | hpattern
  · simp only [comparing, List.mem_cons, List.not_mem_nil, or_false, decide_eq_true_eq] at hcomparing
    rcases hcomparing with rfl | rfl | rfl | rfl | rfl | rfl <;> cases hop' <;> simp [ColumnSays]
  · obtain ⟨-, hmatching⟩ := Bool.and_eq_true_iff.mp hpattern
    have hsame := matches_opposite hmatching hop' hasUnaccent server
    have hmeaning : ∀ o', matching o' = true → (ColumnSays hasUnaccent server f o' value o ↔
        if startsWith "not " o' then ∀ raw, value = .string raw →
          ∀ s, o.bind (patternDatum server f) = some (.text s) → Matches hasUnaccent server o' raw s = false
        else ∃ raw s, value = .string raw ∧ o.bind (patternDatum server f) = some (.text s) ∧
          Matches hasUnaccent server o' raw s = true) := by
      intro o' ho'
      rcases matching_cases ho' with rfl | rfl | rfl | rfl | rfl | rfl | rfl | rfl <;> rfl
    have hflipped : matching op' = true ∧ startsWith "not " op' = !startsWith "not " op := by
      rcases matching_cases hmatching with rfl | rfl | rfl | rfl | rfl | rfl | rfl | rfl <;>
        cases hop' <;> decide +kernel
    rw [hmeaning op' hflipped.1, hmeaning op hmatching, hflipped.2]
    cases startsWith "not " op <;> simp [hsame]

/-- **The inverse ordering says the opposite**, NULL apart where there is no falsy value. -/
lemma columnSays_inverse (hordering : isOrdering op = true) (hop' : inverseInequality name op = .ok op')
    (horders : Orders f value) (hasUnaccent : Bool) (server : Server) {o : Option Datum}
    (hnull : f.notNull = true → o ≠ none) :
    (ColumnSays hasUnaccent server f op' value o ∨ (f.falsyJson = none ∧ o = none)) ↔
      ¬ ColumnSays hasUnaccent server f op value o := by
  obtain ⟨⟨x, hx⟩, comparand, hcomparand, horders⟩ := horders
  have hops : op = "<" ∨ op = ">" ∨ op = "<=" ∨ op = ">=" := by
    simpa [isOrdering] using hordering
  cases o with
  | some d =>
      rcases hops with rfl | rfl | rfl | rfl <;> cases hop' <;>
        simp [ColumnSays, isOrdering, hx, orderingOf, Comparison.holds]
  | none =>
      have hnullable : f.notNull = false := by
        by_contra hnotNull
        exact hnull (by simpa using hnotNull) rfl
      have horders := horders.resolve_left (by simp [hnullable])
      cases hfalsy : f.falsyJson with
      | none =>
          rcases hops with rfl | rfl | rfl | rfl <;> cases hop' <;>
            simp [ColumnSays, isOrdering, hfalsy]
      | some falsy =>
          obtain ⟨order, horder⟩ := Option.isSome_iff_exists.mp (horders falsy hfalsy)
          rcases hops with rfl | rfl | rfl | rfl <;> cases hop' <;> cases order <;>
            simp [ColumnSays, isOrdering, hfalsy, hcomparand, hnullable, jsonCmpOp, horder]

/-! ## Domains -/

variable (c) in
/-- The leaves of a domain, once they are rewritten, are on columns. -/
inductive OverColumns : Node → Prop
  | true : OverColumns .True
  | false : OverColumns .False
  | and {ns : List Node} : (∀ n ∈ ns, OverColumns n) → OverColumns (.And ns)
  | or {ns : List Node} : (∀ n ∈ ns, OverColumns n) → OverColumns (.Or ns)
  | not {n : Node} : OverColumns n → OverColumns (.Not n)
  | rewritten {l : Leaf} {n : Node} : isFragment l.value = false →
      c.optimizeLeaf l = .ok (some n) → OverColumns n → OverColumns (.Leaf l)
  | column {name op : String} {value : Json} {f : Field} : c.PlainColumn name f →
      columnOperator f op = true → isFragment value = false →
      c.optimizeLeaf { field := name, op, value } = .ok none →
      (isOrdering op = true → Orders f value) → OverColumns (leafNode name op value)

variable (c db env) in
/-- Whether a row satisfies such a domain. -/
inductive Means : Node → Bool → Prop
  | true : Means .True true
  | false : Means .False false
  | andNil : Means (.And []) true
  | andCons {n : Node} {ns : List Node} {b v : Bool} :
      Means n b → Means (.And ns) v → Means (.And (n :: ns)) (b && v)
  | orNil : Means (.Or []) false
  | orCons {n : Node} {ns : List Node} {b v : Bool} :
      Means n b → Means (.Or ns) v → Means (.Or (n :: ns)) (b || v)
  | not {n : Node} {v : Bool} : Means n v → Means (.Not n) (!v)
  | rewritten {l : Leaf} {n : Node} {v : Bool} : isFragment l.value = false →
      c.optimizeLeaf l = .ok (some n) → Means n v → Means (.Leaf l) v
  | column {name op : String} {value : Json} {f : Field} {v : Bool} : c.PlainColumn name f →
      c.FitsColumn db env f → columnOperator f op = true → isFragment value = false →
      c.optimizeLeaf { field := name, op, value } = .ok none →
      (isOrdering op = true → Orders f value) →
      (v = true ↔ ColumnSays c.ctx.registry.hasUnaccent db.server f op value
        ((c.columnExpr f).eval db env)) → Means (leafNode name op value) v

variable {n m : Node} {v : Bool}

lemma Means.exists_and {ns : List Node} (h : ∀ n ∈ ns, ∃ v, c.Means db env n v) :
    ∃ v, c.Means db env (.And ns) v := by
  induction ns with
  | nil => exact ⟨_, .andNil⟩
  | cons n ns ih =>
      rw [List.forall_mem_cons] at h
      obtain ⟨b, hb⟩ := h.1
      obtain ⟨v, hv⟩ := ih h.2
      exact ⟨_, .andCons hb hv⟩

lemma Means.exists_or {ns : List Node} (h : ∀ n ∈ ns, ∃ v, c.Means db env n v) :
    ∃ v, c.Means db env (.Or ns) v := by
  induction ns with
  | nil => exact ⟨_, .orNil⟩
  | cons n ns ih =>
      rw [List.forall_mem_cons] at h
      obtain ⟨b, hb⟩ := h.1
      obtain ⟨v, hv⟩ := ih h.2
      exact ⟨_, .orCons hb hv⟩

/-- A row satisfies a domain over columns, or it does not. -/
lemma OverColumns.means (hn : c.OverColumns n)
    (hfits : ∀ name f, c.PlainColumn name f → c.FitsColumn db env f) : ∃ v, c.Means db env n v := by
  induction hn with
  | true => exact ⟨_, .true⟩
  | false => exact ⟨_, .false⟩
  | and _ ih => exact Means.exists_and ih
  | or _ ih => exact Means.exists_or ih
  | not _ ih =>
      obtain ⟨v, hv⟩ := ih
      exact ⟨_, .not hv⟩
  | rewritten hfragment hrewritten _ ih =>
      obtain ⟨v, hv⟩ := ih
      exact ⟨v, .rewritten hfragment hrewritten hv⟩
  | column hf hop hfragment hplain horders =>
      classical
      exact ⟨_, .column hf (hfits _ _ hf) hop hfragment hplain horders (decide_eq_true_iff)⟩

lemma columnOperator_of_ordering (hordering : isOrdering op = true) : columnOperator f op = true := by
  have hops : op = "<" ∨ op = ">" ∨ op = "<=" ∨ op = ">=" := by
    simpa [isOrdering] using hordering
  rcases hops with rfl | rfl | rfl | rfl <;> rfl

lemma opposite_of_inverse (hordering : isOrdering op = true) (h : inverseInequality name op = .ok op') :
    (op, op') ∈ opposites ∧ isOrdering op' = true := by
  have hops : op = "<" ∨ op = ">" ∨ op = "<=" ∨ op = ">=" := by
    simpa [isOrdering] using hordering
  rcases hops with rfl | rfl | rfl | rfl <;> cases h <;> decide

lemma opposite_of_flipped (hop : columnOperator f op = true) (h : flipped op = some op') :
    (op, op') ∈ opposites ∧ columnOperator f op' = true ∧ isOrdering op' = false := by
  rcases Bool.or_eq_true_iff.mp hop with hcomparing | hpattern
  · simp only [comparing, List.mem_cons, List.not_mem_nil, or_false, decide_eq_true_eq] at hcomparing
    rcases hcomparing with rfl | rfl | rfl | rfl | rfl | rfl <;> cases h <;>
      exact ⟨by decide, rfl, rfl⟩
  · obtain ⟨hmany2one, hmatching⟩ := Bool.and_eq_true_iff.mp hpattern
    unfold columnOperator
    rw [hmany2one]
    rcases matching_cases hmatching with rfl | rfl | rfl | rfl | rfl | rfl | rfl | rfl <;>
      cases h <;> decide

lemma isOrdering_of_flipped (hop : columnOperator f op = true) (h : flipped op = none) :
    isOrdering op = true := by
  rcases Bool.or_eq_true_iff.mp hop with hcomparing | hpattern
  · simp only [comparing, List.mem_cons, List.not_mem_nil, or_false, decide_eq_true_eq] at hcomparing
    rcases hcomparing with rfl | rfl | rfl | rfl | rfl | rfl
    · cases h
    · cases h
    all_goals rfl
  · obtain ⟨-, hmatching⟩ := Bool.and_eq_true_iff.mp hpattern
    rcases matching_cases hmatching with rfl | rfl | rfl | rfl | rfl | rfl | rfl | rfl <;> cases h

/-- The negation of a leaf on a column means the opposite. -/
lemma negatePlain_means {fuel : ℕ} (hf : c.PlainColumn name f) (hfits : c.FitsColumn db env f)
    (hop : columnOperator f op = true) (hfragment : isFragment value = false)
    (hplain : c.optimizeLeaf { field := name, op, value } = .ok none)
    (horders : isOrdering op = true → Orders f value)
    (hv : v = true ↔ ColumnSays c.ctx.registry.hasUnaccent db.server f op value
      ((c.columnExpr f).eval db env))
    (hm : c.negatePlain fuel { field := name, op, value } = .ok m) : c.Means db env m (!v) := by
  have hkept : c.Means db env (complement { field := name, op, value }) (!v) :=
    .not (.column hf hfits hop hfragment hplain horders hv)
  unfold negatePlain at hm
  cases hflipped : flipped op with
  | some op' =>
      simp only [hflipped, hf.field, bind_eq_ok] at hm
      obtain ⟨byOperator, -, hm⟩ := hm
      split_ifs at hm
      · cases hm
        obtain ⟨hopposite, hop', hordering⟩ := opposite_of_flipped hop hflipped
        refine .column hf hfits hop' hfragment (optimizeLeaf_opposite hopposite hplain)
          (fun h => absurd h (by simp [hordering])) ?_
        rw [columnSays_flipped hop hflipped, ← hv]
        simp
      · cases hm
        exact hkept
  | none =>
      simp only [hflipped, hf.field, bind_eq_ok] at hm
      obtain ⟨keeps, -, hm⟩ := hm
      split_ifs at hm
      · cases hm
        exact hkept
      · have hordering := isOrdering_of_flipped hop hflipped
        obtain ⟨op', hop', hm⟩ := bind_eq_ok.mp hm
        obtain ⟨field, hfield, hm⟩ := bind_eq_ok.mp hm
        rw [hf.inequalityTarget, Except.ok.injEq] at hfield
        subst hfield
        obtain ⟨hopposite, hordering'⟩ := opposite_of_inverse hordering hop'
        have hinverse := columnSays_inverse (o := (c.columnExpr f).eval db env) hordering hop'
          (horders hordering) c.ctx.registry.hasUnaccent db.server hfits.notNull
        have hcolumn : ∀ w, (w = true ↔ ColumnSays c.ctx.registry.hasUnaccent db.server f op' value
            ((c.columnExpr f).eval db env)) → c.Means db env (leafNode name op' value) w :=
          fun w hw => .column hf hfits (columnOperator_of_ordering hordering') hfragment
            (optimizeLeaf_opposite hopposite hplain) (fun _ => horders hordering) hw
        split_ifs at hm with hfalsy
        · cases hm
          refine hcolumn _ ?_
          rw [Bool.not_eq_true', ← Bool.not_eq_true, hv, ← hinverse, or_iff_left]
          rintro ⟨hnone, -⟩
          simp [hnone] at hfalsy
        · cases hm
          have hnone : f.falsyJson = none := by simpa using hfalsy
          classical
          have hunset : c.Means db env (leafNode name "in" (.array [.bool false]))
              (decide ((c.columnExpr f).eval db env = none)) := by
            refine .column hf hfits rfl rfl (optimizeLeaf_unset hplain) (fun h => by cases h) ?_
            rw [decide_eq_true_iff, ← compared_false hnone]
            rfl
          have hor := Means.orCons hunset (.orCons (hcolumn _ decide_eq_true_iff) .orNil)
          have hvalue : (decide ((c.columnExpr f).eval db env = none) ||
              (decide (ColumnSays c.ctx.registry.hasUnaccent db.server f op' value
                ((c.columnExpr f).eval db env)) || false)) = !v := by
            rw [Bool.eq_iff_iff, Bool.or_false, Bool.or_eq_true, decide_eq_true_iff, decide_eq_true_iff,
              Bool.not_eq_true', ← Bool.not_eq_true, hv, ← hinverse, or_comm]
            simp [hnone]
          rwa [hvalue] at hor

lemma Means.of_not (h : c.Means db env (.Not n) v) : c.Means db env n (!v) := by
  cases h with
  | not h => rwa [Bool.not_not]

/-- **A negation means the opposite.** -/
lemma Means.negate (h : c.Means db env n v) : ∀ {fuel : ℕ} {m : Node}, c.negate fuel n = .ok m →
    c.Means db env m (!v) := by
  induction h with
  | true =>
      rintro (_ | fuel) m hm
      · cases hm
      · cases hm
        exact .false
  | false =>
      rintro (_ | fuel) m hm
      · cases hm
      · cases hm
        exact .true
  | andNil =>
      rintro (_ | fuel) m hm
      · cases hm
      · cases hm
        exact .orNil
  | orNil =>
      rintro (_ | fuel) m hm
      · cases hm
      · cases hm
        exact .andNil
  | @andCons n ns b v _ _ ihn ihns =>
      rintro (_ | fuel) m hm
      · cases hm
      · simp only [Compiler.negate, negateWith, negateAll, bind_eq_ok, pure_eq_ok] at hm
        obtain ⟨_, ⟨first, hfirst, rest, hrest, rfl⟩, rfl⟩ := hm
        have hns : c.negate (fuel + 1) (.And ns) = .ok (.Or rest) := bind_eq_ok.mpr ⟨rest, hrest, rfl⟩
        rw [Bool.not_and]
        exact .orCons (@ihn (fuel + 1) first hfirst) (ihns hns)
  | @orCons n ns b v _ _ ihn ihns =>
      rintro (_ | fuel) m hm
      · cases hm
      · simp only [Compiler.negate, negateWith, negateAll, bind_eq_ok, pure_eq_ok] at hm
        obtain ⟨_, ⟨first, hfirst, rest, hrest, rfl⟩, rfl⟩ := hm
        have hns : c.negate (fuel + 1) (.Or ns) = .ok (.And rest) := bind_eq_ok.mpr ⟨rest, hrest, rfl⟩
        rw [Bool.not_or]
        exact .andCons (@ihn (fuel + 1) first hfirst) (ihns hns)
  | @not n v h _ =>
      rintro (_ | fuel) m hm
      · cases hm
      · cases hm
        rwa [Bool.not_not]
  | rewritten hfragment hrewritten _ ih =>
      rintro (_ | fuel) m hm
      · cases hm
      · have hm : c.negateLeaf fuel (c.negate fuel) _ = .ok m := hm
        rw [negateLeaf, hrewritten] at hm
        exact ih hm
  | @column name op value f v hf hfits hop hfragment hplain horders hv =>
      rintro (_ | fuel) m hm
      · cases hm
      · have hm : c.negatePlain fuel { field := name, op, value } = .ok m := by
          have hm : c.negateLeaf fuel (c.negate fuel) { field := name, op, value } = .ok m := hm
          rw [negateLeaf, hplain] at hm
          simpa [bind, Except.bind, hf.splitOnce] using hm
        exact negatePlain_means hf hfits hop hfragment hplain horders hv hm

/-! ## The rows that are selected -/

/-- The members of a conjunction, one after the other. -/
lemma compileAll_means_and {fuel : ℕ} {ns : List Node} {cond out : Condition}
    (ih : ∀ {n v k}, c.Means db env n v → Yields (compile fuel c n) k → (k.Holds db env ↔ v = true))
    (hconj : cond.conj = true) (hns : c.Means db env (.And ns) v)
    (h : Yields (c.compileAll (compile fuel) cond ns) out) :
    out.Holds db env ↔ cond.Holds db env ∧ v = true := by
  induction ns generalizing cond v with
  | nil =>
      cases hns
      obtain rfl := yields_pure.mp h
      simp
  | cons n ns ihs =>
      obtain ⟨k, hk, h⟩ := yields_bind.mp h
      cases hns with
      | andCons hn hns =>
          rw [ihs (by rwa [Condition.add_conj]) hns h, holds_add_all _ _ hconj, ih hn hk, and_assoc,
            Bool.and_eq_true]

/-- The members of a disjunction, one after the other. -/
lemma compileAll_means_or {fuel : ℕ} {ns : List Node} {cond out : Condition}
    (ih : ∀ {n v k}, c.Means db env n v → Yields (compile fuel c n) k → (k.Holds db env ↔ v = true))
    (hconj : cond.conj = false) (hns : c.Means db env (.Or ns) v)
    (h : Yields (c.compileAll (compile fuel) cond ns) out) :
    out.Holds db env ↔ cond.Holds db env ∨ v = true := by
  induction ns generalizing cond v with
  | nil =>
      cases hns
      obtain rfl := yields_pure.mp h
      simp
  | cons n ns ihs =>
      obtain ⟨k, hk, h⟩ := yields_bind.mp h
      cases hns with
      | orCons hn hns =>
          rw [ihs (by rwa [Condition.add_conj]) hns h, holds_add_any _ _ hconj, ih hn hk, or_assoc,
            Bool.or_eq_true]

/-- **A condition holds of the rows that its domain is true of.** -/
lemma holds_of_means {fuel : ℕ} : ∀ {n : Node} {v : Bool} {k : Condition}, c.Means db env n v →
    Yields (compile fuel c n) k → (k.Holds db env ↔ v = true) := by
  induction fuel with
  | zero =>
      intro n v k _ hk
      simp [compile, outOfCalls] at hk
  | succ fuel ih =>
      intro n v k h hk
      have hcompiles : c.Compiles n k := ⟨fuel + 1, hk⟩
      have hdepth := hcompiles.node.1
      unfold compile compileNode at hk
      rw [if_neg (by omega)] at hk
      cases h with
      | true =>
          obtain rfl := yields_pure.mp hk
          simp
      | false =>
          obtain rfl := yields_pure.mp hk
          simp
      | andNil => simpa using compileAll_means_and ih Condition.conj_all .andNil hk
      | andCons hn hns => simpa using compileAll_means_and ih Condition.conj_all (.andCons hn hns) hk
      | orNil => simpa using compileAll_means_or ih Condition.conj_any .orNil hk
      | orCons hn hns => simpa using compileAll_means_or ih Condition.conj_any (.orCons hn hns) hk
      | @not n v hn =>
          obtain ⟨m, hm, hk⟩ := yields_bind.mp hk
          rw [liftM_eq_ofResult, yields_ofResult] at hm
          have hnegated := hn.negate hm
          split at hk
          · next kept =>
              obtain ⟨k', hk', hk⟩ := yields_bind.mp hk
              obtain rfl := yields_pure.mp hk
              have hkept := ih hnegated.of_not hk'
              rw [Bool.not_not] at hkept
              rw [holds_addPredicate Condition.conj_all, and_iff_right holds_all, selects_isNotTrue,
                Bool.not_eq_true', ← Bool.not_eq_true, ← hkept]
              rfl
          · exact ih hnegated hk
      | rewritten hfragment hrewritten hn =>
          obtain ⟨p, hp, hk⟩ := yields_bind.mp hk
          obtain rfl := yields_pure.mp hk
          rw [compileLeaf, hfragment, if_neg Bool.false_ne_true, hrewritten] at hp
          obtain ⟨out, hout, hp⟩ := yields_bind.mp hp
          rw [liftM_eq_ofResult, yields_ofResult, Except.ok.injEq] at hout
          subst hout
          obtain ⟨k', hk', hp⟩ := yields_bind.mp hp
          obtain rfl := yields_pure.mp hp
          rw [holds_addPredicate Condition.conj_all, and_iff_right holds_all]
          exact ih hn hk'
      | column hf hfits hop hfragment hplain horders hv =>
          rw [hf.leaf_holds hfits hop hfragment hplain hcompiles, hv]

/-- **A negation selects the rows that its domain does not select**, for a domain whose leaves, once they
are rewritten, are memberships, orderings by what NULL can be ordered against, and patterns on columns of
the model. -/
theorem negation_exact (hn : c.OverColumns n)
    (hfits : ∀ name f, c.PlainColumn name f → c.FitsColumn db env f) {k k' : Condition}
    (hk : c.Compiles n k) (hk' : c.Compiles (.Not n) k') : k'.Holds db env ↔ ¬ k.Holds db env := by
  obtain ⟨v, hv⟩ := hn.means hfits
  obtain ⟨fuel, hk⟩ := hk
  obtain ⟨fuel', hk'⟩ := hk'
  rw [holds_of_means hv hk, holds_of_means hv.not hk']
  simp

end Compiler

/-! ## Parcels -/

namespace Parcels

def label : Field := Field.column "label" .Char "varchar" (some (.string ""))

def weight : Field := Field.column "weight" .Integer "int4" (some (.number (.int 0)))

def volume : Field := Field.column "volume" .Float "float8" (some (.number (.int 0)))

def sent : Field := Field.column "sent" .Date "date" none

def parcel : Model :=
  plainModel "parcel" "parcel"
    [("label", label), ("weight", weight), ("volume", volume), ("sent", sent)]

def compiler : Compiler :=
  .root (ExprCtx.plain (plainRegistry [("parcel", parcel)]) (Security.plain [] []) none) parcel .empty
    true

def database : Database where
  table _ := []
  fragment _ := []
  server := .plain

/-- A parcel that has no label and was not sent. -/
def row : Env := fun _ column =>
  if column = "weight" then some (.int 3)
  else if column = "volume" then some (.double (5 / 2)) else none

lemma plainColumn {name : String} {f : Field} (h : (name, f) ∈ parcel.fields) :
    compiler.PlainColumn name f := by
  have hcases : (name = "label" ∧ f = label) ∨ (name = "weight" ∧ f = weight) ∨
      (name = "volume" ∧ f = volume) ∨ (name = "sent" ∧ f = sent) := by
    simpa [parcel, plainModel] using h
  rcases hcases with ⟨rfl, rfl⟩ | ⟨rfl, rfl⟩ | ⟨rfl, rfl⟩ | ⟨rfl, rfl⟩
  all_goals
    refine ⟨⟨by decide +kernel, by decide, rfl, rfl, rfl, by decide⟩, rfl, rfl⟩

lemma fitsColumn (name : String) (f : Field) (h : compiler.PlainColumn name f) :
    compiler.FitsColumn database row f := by
  have hcases : f = label ∨ f = weight ∨ f = volume ∨ f = sent := by
    have hmem := Dict.mem_of_get? h.field
    have hnamed : (name = "label" ∧ f = label) ∨ (name = "weight" ∧ f = weight) ∨
        (name = "volume" ∧ f = volume) ∨ (name = "sent" ∧ f = sent) := by
      simpa [compiler, Compiler.root, parcel, plainModel] using hmem
    exact hnamed.imp And.right (Or.imp And.right (Or.imp And.right And.right))
  rcases hcases with rfl | rfl | rfl | rfl
  · exact { notNull := nofun, text := fun _ => nofun, number := nofun }
  · exact { notNull := nofun, text := nofun, number := nofun }
  · refine { notNull := nofun, text := nofun, number := fun _ d hd => ?_ }
    cases hd
    rfl
  · exact { notNull := nofun, text := nofun, number := nofun }

def domain : Node :=
  .And [leafNode "label" "=" (.string "fragile"),
    .Or [leafNode "weight" "<" (.number (.int 5)), .Not (leafNode "sent" ">" (.string "2024-01-01")),
      leafNode "label" "not ilike" (.string "box"), leafNode "weight" "not like" (.string "3"),
      leafNode "volume" "ilike" (.string "2.5")]]

lemma overColumns : compiler.OverColumns domain := by
  have hcolumn : ∀ {name f op value}, (name, f) ∈ parcel.fields → Compiler.columnOperator f op = true →
      isFragment value = false → compiler.optimizeLeaf { field := name, op, value } = .ok none →
      (isOrdering op = true → Compiler.Orders f value) → compiler.OverColumns (leafNode name op value) :=
    fun hf => .column (plainColumn hf)
  refine .and ?_
  simp only [List.forall_mem_cons, List.not_mem_nil, false_imp_iff, implies_true, and_true]
  refine ⟨?_, .or ?_⟩
  · refine .rewritten rfl (n := leafNode "label" "in" (.array [.string "fragile"])) rfl ?_
    exact hcolumn (f := label) (by simp [parcel, plainModel]) rfl rfl rfl nofun
  · simp only [List.forall_mem_cons, List.not_mem_nil, false_imp_iff, implies_true, and_true]
    refine ⟨?_, .not ?_, ?_, ?_, ?_⟩
    · refine hcolumn (f := weight) (by simp [parcel, plainModel]) rfl rfl rfl fun _ => ?_
      exact ⟨⟨.int 5, rfl⟩, .number (.int 5), rfl, .inr fun falsy hfalsy => by cases hfalsy; rfl⟩
    · refine hcolumn (f := sent) (by simp [parcel, plainModel]) rfl rfl rfl fun _ => ?_
      exact ⟨⟨.date 19723, by decide +kernel⟩, .string "2024-01-01", rfl, .inr nofun⟩
    · exact hcolumn (f := label) (by simp [parcel, plainModel]) rfl rfl rfl nofun
    · exact hcolumn (f := weight) (by simp [parcel, plainModel]) rfl rfl rfl nofun
    · exact hcolumn (f := volume) (by simp [parcel, plainModel]) rfl rfl rfl nofun

/-- A parcel of weight 3 without a label and a day is not selected by a domain, and is by its
negation. -/
theorem parcel_negation : ∃ k k', compiler.Compiles domain k ∧ compiler.Compiles (.Not domain) k' ∧
    (k'.Holds database row ↔ ¬ k.Holds database row) := by
  have hcompiles : ∀ n, (Compiler.compile 9 compiler n).run.isOk = true → ∃ k, compiler.Compiles n k := by
    intro n hok
    obtain ⟨k, hk⟩ := yields_of_isOk hok
    exact ⟨k, 9, hk⟩
  obtain ⟨k, hk⟩ := hcompiles domain (by decide +kernel)
  obtain ⟨k', hk'⟩ := hcompiles (.Not domain) (by decide +kernel)
  exact ⟨k, k', hk, hk', Compiler.negation_exact overColumns fitsColumn hk hk'⟩

end Parcels

end OdooKernel
