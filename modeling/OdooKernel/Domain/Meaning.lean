import OdooKernel.Core.PrefixNotation
import OdooKernel.Domain.Node

/-!
# What a domain array spells

The array of a domain is prefix notation: `"&"` and `"|"` are the binary operators, `"!"` the
negation, and every other item is an atom, which has to be one of the terms `termOf` recognises.
`parse` is compared with the prefix reader over these tokens, of which `Core/PrefixNotation` says
what it accepts.

**One stack against another.**  The reader's stack holds nodes, the prefix reader's formulas.  An
item stands for a formula (`Represents`) where it has the same truth under every assignment, the same
leaves in order, and a depth that is the height of its node.  Joining, negating and cancelling keep
that, and one run of the loop follows from one lemma for each kind of term (`parseTerms_sound`,
`parseTerms_complete`).

**The bound** is the only way in which the two readers differ: a domain that is well formed is read,
or refused for its depth (`parse_cases`).  A term is a level of its own, so the operators may nest
one level less than the bound says (`parse_refuses_bound_many_operators`).

* `token`, `termOf`, `WellFormed`, `Spells` — the notation, independently of the reader.
* **`parse_eq_ok`**, **`exists_parse`** — what `parse` accepts and what the node it builds means.
* **`parse_has_prefix_meaning`** — both, and the bound.
-/

namespace OdooKernel

open PrefixNotation

/-! ## The notation -/

/-- A term of a domain. -/
inductive Term where
  | leaf (l : Leaf)
  | const (b : Bool)
deriving DecidableEq, Repr

/-- The value `1`, as a number or as a boolean. -/
def isOne : Json → Bool
  | .bool b => b
  | .number n => n.toRat = 1
  | _ => false

/-- The value `0`, as a number or as a boolean. -/
def isZero : Json → Bool
  | .bool b => !b
  | .number n => n.toRat = 0
  | _ => false

/-- The term an item denotes: a leaf on a field, or one of the two constant leaves. -/
def termOf : Json → Option Term
  | .array [.string field, .string op, value] => some (.leaf { field, op, value })
  | .array [left, .string op, right] =>
    if op = "=" ∧ isOne right then
      if isOne left then some (.const true) else if isZero left then some (.const false) else none
    else none
  | _ => none

/-- The token of an item. -/
def token : Json → Tok Json
  | .string "&" => .bin .and
  | .string "|" => .bin .or
  | .string "!" => .neg
  | item => .atom item

/-- The truth of a term under an assignment to the leaves. -/
def Term.Holds (v : Leaf → Prop) : Term → Prop
  | .leaf l => v l
  | .const b => b = true

/-- The truth of an item that is a term. -/
def termHolds (v : Leaf → Prop) (item : Json) : Prop := ∃ t, termOf item = some t ∧ t.Holds v

/-- The leaf an item denotes. -/
def leafOf (item : Json) : Option Leaf :=
  match termOf item with
  | some (.leaf l) => some l
  | _ => none

/-- The leaves of an array, in the order in which they are written. -/
def sourceLeaves (items : List Json) : List Leaf := items.filterMap leafOf

/-- Every item is an operator or a term. -/
def OnlyTerms (items : List Json) : Prop :=
  ∀ item ∈ items, token item = .atom item → (termOf item).isSome

/-- The array spells a forest of formulas over terms. -/
def Spells (items : List Json) (fs : List (Formula Json)) : Prop :=
  OnlyTerms items ∧ items.map token = spell fs

/-- **A well-formed domain**: a sequence of complete prefix expressions over terms. -/
def WellFormed (items : List Json) : Prop := ∃ fs, Spells items fs

/-- How deeply the operators of a forest nest, the implicit conjunction included. -/
def forestNesting : List (Formula Json) → ℕ
  | [] => 0
  | [f] => f.nesting
  | f :: fs => (f :: fs).foldr (fun g d => max g.nesting d) 0 + 1

lemma token_eq_self_or (item : Json) :
    item = .string "&" ∨ item = .string "|" ∨ item = .string "!" ∨ token item = .atom item := by
  unfold token
  split <;> simp

lemma Spells.unique {items : List Json} {fs gs : List (Formula Json)} (hf : Spells items fs)
    (hg : Spells items gs) : fs = gs :=
  spell_injective (hf.2.symm.trans hg.2)

lemma onlyTerms_cons {item : Json} {items : List Json} :
    OnlyTerms (item :: items)
      ↔ (token item = .atom item → (termOf item).isSome) ∧ OnlyTerms items := by
  simp [OnlyTerms]

lemma onlyTerms_append {items items' : List Json} :
    OnlyTerms (items ++ items') ↔ OnlyTerms items ∧ OnlyTerms items' := by
  simp [OnlyTerms, or_imp, forall_and]

lemma Spells.append {items items' : List Json} {fs fs' : List (Formula Json)}
    (h : Spells items fs) (h' : Spells items' fs') : Spells (items ++ items') (fs ++ fs') :=
  ⟨onlyTerms_append.mpr ⟨h.1, h'.1⟩, by simp [h.2, h'.2]⟩

lemma spells_nil : Spells [] [] := ⟨by simp [OnlyTerms], rfl⟩

/-- The node a term becomes. -/
def Term.node : Term → Node
  | .leaf l => .Leaf l
  | .const true => .True
  | .const false => .False

lemma holds_term (v : Leaf → Prop) (t : Term) : holds v t.node ↔ t.Holds v := by
  rcases t with l | b
  · exact Iff.rfl
  · cases b <;> simp [Term.node, Term.Holds]

lemma height_term (t : Term) : height t.node = 1 := by
  rcases t with l | b
  · rfl
  · cases b <;> rfl

/-- Reading a constant leaf asks for equality with `1` and `0`. -/
lemma sentinelNumber_eq (j : Json) :
    (sentinelNumber j = some 1 ↔ isOne j = true) ∧ (sentinelNumber j = some 0 ↔ isZero j = true) := by
  cases j with
  | bool b => cases b <;> simp [sentinelNumber, isOne, isZero]
  | number n => simp [sentinelNumber, isOne, isZero]
  | _ => simp [sentinelNumber, isOne, isZero]

/-- What `parseLeaf` makes of a leaf on something that is no field name. -/
lemma parseLeaf_const {left right : Json} {op : String} {n : Node} (hl : left.asStr = none) :
    parseLeaf left (.string op) right = .ok n ↔
      op = "=" ∧ sentinelNumber right = some 1 ∧
        (sentinelNumber left = some 1 ∧ n = .True ∨ sentinelNumber left = some 0 ∧ n = .False) := by
  cases left with
  | string s => cases hl
  | _ =>
      simp only [parseLeaf, Json.asStr, orRefuse, bind, Except.bind, pure, Except.pure]
      split
      · next a b ha hb =>
          simp only [ha, hb, Option.some.injEq, true_and]
          by_cases hb1 : b = 1
          · by_cases ha1 : a = 1
            · simp [ha1, hb1, eq_comm]
            · by_cases ha0 : a = 0 <;> simp [ha1, ha0, hb1, eq_comm (a := Node.False)]
          · simp [hb1]
      · next hne =>
          simp only [refuse_eq_ok, false_iff]
          rintro ⟨rfl, hr, ⟨hl, -⟩ | ⟨hl, -⟩⟩ <;> exact hne _ _ hl rfl hr

/-- `parseLeaf` reads exactly the terms of the notation. -/
lemma parseLeaf_eq_ok {left op right : Json} {n : Node} :
    parseLeaf left op right = .ok n ↔
      ∃ t, termOf (.array [left, op, right]) = some t ∧ n = t.node := by
  cases hop : op.asStr with
  | none =>
      have hno : ∀ s, op ≠ .string s := by rintro s rfl; simp [Json.asStr] at hop
      have hterm : termOf (.array [left, op, right]) = none := by
        cases op <;> first | (cases left <;> rfl) | exact absurd rfl (hno _)
      simp [parseLeaf, hop, orRefuse, hterm, bind, Except.bind, refuse]
  | some s =>
      obtain rfl := Json.asStr_eq_some.mp hop
      cases hl : left.asStr with
      | some field =>
          obtain rfl := Json.asStr_eq_some.mp hl
          simp [parseLeaf, termOf, Json.asStr, orRefuse, bind, Except.bind, pure, Except.pure,
            Term.node, eq_comm]
      | none =>
          have hterm : termOf (.array [left, .string s, right]) =
              if s = "=" ∧ isOne right then
                if isOne left then some (.const true)
                else if isZero left then some (.const false) else none
              else none := by
            cases left <;> first | rfl | simp [Json.asStr] at hl
          rw [parseLeaf_const hl, hterm, (sentinelNumber_eq left).1, (sentinelNumber_eq left).2,
            (sentinelNumber_eq right).1]
          have hboth : isOne left = true → isZero left = true → False := by
            cases left <;> simp_all [isOne, isZero]
          by_cases h : s = "=" ∧ isOne right = true
          · obtain ⟨rfl, hr⟩ := h
            by_cases h1 : isOne left = true <;> by_cases h0 : isZero left = true <;>
              simp_all [Term.node]
          · simp [h]; tauto

lemma checked_eq_ok {d e : ℕ} : checked d = .ok e ↔ e = d ∧ d ≤ maxDomainNesting := by
  unfold checked
  split
  · simp only [refuse_eq_ok, false_iff]; omega
  · simp only [Except.ok.injEq]; constructor <;> intro h <;> omega

/-! ## One stack item, one formula -/

/-- An item of the reader's stack stands for a formula over terms. -/
structure Represents (item : Item) (f : Formula Json) : Prop where
  meaning : ∀ v, holds v item.node.finish ↔ f.Holds (termHolds v)
  leaves : leaves item.node.finish = f.atoms.filterMap leafOf
  depth : item.depth = height item.node.finish
  bound : item.depth ≤ maxDomainNesting
  nesting : item.depth ≤ f.nesting + 1

/-- What an operand contributes to a junction: the children of a junction of the same connective,
or itself. -/
def absorbed (conj : Bool) (item : Item) : List Node :=
  match item.node with
  | .junction other inner => if conj = other then inner else [item.node.finish]
  | .node _ => [item.node.finish]

@[simp] lemma finish_ofNode (n : Node) : (Pending.ofNode n).finish = n := by
  cases n <;> rfl

lemma finish_junction (conj : Bool) (cs : List Node) :
    (Pending.junction conj cs).finish = if conj then .And cs else .Or cs := rfl

lemma height_junction (conj : Bool) (cs : List Node) :
    height (Pending.junction conj cs).finish = heightOf cs + 1 := by
  cases conj <;> rfl

lemma leaves_junction (conj : Bool) (cs : List Node) :
    leaves (Pending.junction conj cs).finish = leavesOf cs := by
  cases conj <;> rfl

lemma foldl_push_front (cs inner : List Node) :
    cs.reverse.foldl (fun inner child => child :: inner) inner = cs ++ inner := by
  induction cs with
  | nil => rfl
  | cons c cs ih => simp [List.foldl_append, ih]

/-- One operand more: its contribution at the end, whichever side is moved. -/
lemma naryStep_eq (conj : Bool) (acc : List Node × ℕ) (item : Item)
    (h : item.depth = height item.node.finish) :
    naryStep conj acc item
      = (acc.1 ++ absorbed conj item, max acc.2 (heightOf (absorbed conj item) + 1)) := by
  obtain ⟨children, depth⟩ := acc
  obtain ⟨node, d⟩ := item
  simp only at h
  cases node with
  | node n => simp [naryStep, absorbed, Pending.finish, heightOf, h]
  | junction other inner =>
      by_cases hc : conj = other
      · subst hc
        rw [height_junction] at h
        by_cases hlen : children.length < inner.length
        · simp only [naryStep, if_true, if_pos hlen, foldl_push_front, absorbed, h]
        · simp only [naryStep, if_true, if_neg hlen, absorbed, h]
      · simp only [naryStep, absorbed, if_neg hc, h, heightOf, Nat.max_zero]

lemma foldl_naryStep (conj : Bool) (items : List Item) (acc : List Node × ℕ)
    (h : ∀ item ∈ items, item.depth = height item.node.finish) :
    items.foldl (naryStep conj) acc
      = (acc.1 ++ items.flatMap (absorbed conj),
         if items = [] then acc.2 else max acc.2 (heightOf (items.flatMap (absorbed conj)) + 1)) := by
  induction items generalizing acc with
  | nil => simp
  | cons item items ih =>
      have hitem := h item (by simp)
      rw [List.foldl_cons, naryStep_eq conj acc item hitem,
        ih _ fun i hi => h i (List.mem_cons_of_mem _ hi)]
      simp only [List.flatMap_cons, List.append_assoc, reduceCtorEq, if_false, heightOf_append]
      split
      · next hnil => simp [hnil, heightOf]
      · congr 1; omega

/-- A junction of operands: its children are their contributions, and its depth is its height. -/
lemma nary_eq_ok {conj : Bool} {items : List Item} {r : Item}
    (h : ∀ item ∈ items, item.depth = height item.node.finish) :
    nary conj items = .ok r ↔
      r = { node := .junction conj (items.flatMap (absorbed conj)),
            depth := heightOf (items.flatMap (absorbed conj)) + 1 } ∧
      r.depth ≤ maxDomainNesting := by
  have hdepth : (items.foldl (naryStep conj) ([], 1))
      = (items.flatMap (absorbed conj), heightOf (items.flatMap (absorbed conj)) + 1) := by
    rw [foldl_naryStep conj items _ h]
    by_cases hnil : items = []
    · subst hnil; simp [heightOf]
    · simp [hnil]
  simp only [nary, hdepth, bind_eq_ok, checked_eq_ok, pure_eq_ok]
  constructor
  · rintro ⟨d, ⟨rfl, hle⟩, rfl⟩; exact ⟨rfl, hle⟩
  · rintro ⟨rfl, hle⟩; exact ⟨_, ⟨rfl, hle⟩, rfl⟩

/-! ## One term onto the stack -/

/-- The absorbed children of a disjunction or a conjunction say what the operand says. -/
lemma holds_absorbed_and (v : Leaf → Prop) (item : Item) :
    (∀ c ∈ absorbed true item, holds v c) ↔ holds v item.node.finish := by
  obtain ⟨node, d⟩ := item
  cases node with
  | node n => simp [absorbed]
  | junction other inner => cases other <;> simp [absorbed, finish_junction]

lemma holds_absorbed_or (v : Leaf → Prop) (item : Item) :
    (∃ c ∈ absorbed false item, holds v c) ↔ holds v item.node.finish := by
  obtain ⟨node, d⟩ := item
  cases node with
  | node n => simp [absorbed]
  | junction other inner => cases other <;> simp [absorbed, finish_junction]

lemma leavesOf_absorbed (conj : Bool) (item : Item) :
    leavesOf (absorbed conj item) = leaves item.node.finish := by
  obtain ⟨node, d⟩ := item
  cases node with
  | node n => simp [absorbed]
  | junction other inner =>
      by_cases hc : conj = other
      · simp only [absorbed, if_pos hc, leaves_junction]
      · simp [absorbed, if_neg hc]

lemma heightOf_absorbed_le (conj : Bool) (item : Item) :
    heightOf (absorbed conj item) ≤ height item.node.finish := by
  obtain ⟨node, d⟩ := item
  cases node with
  | node n => simp [absorbed, heightOf]
  | junction other inner =>
      by_cases hc : conj = other
      · simp only [absorbed, if_pos hc, height_junction]; omega
      · simp [absorbed, if_neg hc, heightOf]

/-- Two operands joined stand for the formula that joins theirs. -/
lemma represents_nary {op : BinOp} {a b r : Item} {f g : Formula Json} (ha : Represents a f)
    (hb : Represents b g) (h : nary (op = .and) [a, b] = .ok r) :
    Represents r (.bin op f g) := by
  have hd : ∀ item ∈ [a, b], item.depth = height item.node.finish := by
    simp [ha.depth, hb.depth]
  obtain ⟨rfl, hbound⟩ := (nary_eq_ok hd).mp h
  have hha := heightOf_absorbed_le (op = .and) a
  have hhb := heightOf_absorbed_le (op = .and) b
  rw [← ha.depth] at hha
  rw [← hb.depth] at hhb
  have hna := ha.nesting
  have hnb := hb.nesting
  refine ⟨fun v => ?_, ?_, ?_, hbound, ?_⟩
  · cases op with
    | and =>
        simp only [decide_true, finish_junction, if_true, holds_and, List.flatMap_cons,
          List.flatMap_nil, List.append_nil, List.forall_mem_append, holds_absorbed_and,
          ha.meaning, hb.meaning, Formula.Holds, BinOp.Holds]
    | or =>
        simp only [reduceCtorEq, decide_false, finish_junction, Bool.false_eq_true, if_false,
          holds_or, List.flatMap_cons, List.flatMap_nil, List.append_nil, List.mem_append,
          or_and_right, exists_or, holds_absorbed_or, ha.meaning, hb.meaning, Formula.Holds,
          BinOp.Holds]
  · rw [leaves_junction]
    simp only [List.flatMap_cons, List.flatMap_nil, List.append_nil, leavesOf_append,
      leavesOf_absorbed, ha.leaves, hb.leaves, Formula.atoms, List.filterMap_append]
  · rw [height_junction]
  · simp only [List.flatMap_cons, List.flatMap_nil, List.append_nil, heightOf_append,
      Formula.nesting]
    omega

/-- A term on the stack stands for its atom. -/
lemma represents_term {item : Json} {t : Term} (h : termOf item = some t) :
    Represents { node := .ofNode t.node, depth := 1 } (.atom item) := by
  refine ⟨fun v => ?_, ?_, ?_, ?_, ?_⟩
  · simp [holds_term, Formula.Holds, termHolds, h]
  · rcases t with l | b
    · simp [Term.node, leaves, Formula.atoms, leafOf, h]
    · cases b <;> simp [Term.node, leaves, Formula.atoms, leafOf, h]
  · rw [finish_ofNode, height_term]
  · simp [maxDomainNesting]
  · simp [Formula.nesting]

/-- A negation that cancels stands for the negated formula. -/
lemma represents_cancel {item : Item} {f : Formula Json} {inner : Node} (h : Represents item f)
    (hn : item.node.finish = .Not inner) :
    Represents { node := .ofNode inner, depth := item.depth - 1 } (.neg f) := by
  obtain ⟨hm, hl, hd, hb, hnest⟩ := h
  simp only [hn, height] at hd
  refine ⟨fun v => ?_, ?_, ?_, ?_, ?_⟩
  · have := hm v
    simp only [hn, holds_not] at this
    simp only [finish_ofNode, Formula.Holds, ← this, not_not]
  · simpa only [finish_ofNode, Formula.atoms, hn, leaves] using hl
  · simp only [finish_ofNode, hd]; omega
  · simp only; omega
  · simp only [Formula.nesting]; omega

/-- A negation that is built stands for the negated formula. -/
lemma represents_not {item : Item} {f : Formula Json} (h : Represents item f)
    (hb : item.depth + 1 ≤ maxDomainNesting) :
    Represents { node := .node (.Not item.node.finish), depth := item.depth + 1 } (.neg f) := by
  have hnest := h.nesting
  refine ⟨fun v => not_congr (h.meaning v), h.leaves, ?_, hb, ?_⟩
  · simp only [Pending.finish, height, h.depth]
  · simp only [Formula.nesting]; omega

/-- The stack of the reader stands for a forest, item by item. -/
abbrev StandsFor (stack : List Item) (fs : List (Formula Json)) : Prop :=
  List.Forall₂ Represents stack fs

/-- **One term is read soundly**: the stack it leaves stands for what the prefix reader leaves. -/
lemma parseTerm_sound {item : Json} {stack stack' : List Item} {fs : List (Formula Json)}
    (hs : StandsFor stack fs) (h : parseTerm item stack = .ok stack') :
    (token item = .atom item → (termOf item).isSome) ∧
      ∃ fs', push (token item) fs = some fs' ∧ StandsFor stack' fs' := by
  unfold parseTerm at h
  split at h
  · cases hs with
    | nil => simp at h
    | cons ha hs =>
      cases hs with
      | nil => simp at h
      | cons hb hs =>
        obtain ⟨r, hr, rfl⟩ := map_eq_ok.mp h
        exact ⟨nofun, _, rfl, .cons (represents_nary ha hb hr) hs⟩
  · cases hs with
    | nil => simp at h
    | cons ha hs =>
      cases hs with
      | nil => simp at h
      | cons hb hs =>
        obtain ⟨r, hr, rfl⟩ := map_eq_ok.mp h
        exact ⟨nofun, _, rfl, .cons (represents_nary ha hb hr) hs⟩
  · cases hs with
    | nil => simp at h
    | cons ha hs =>
      refine ⟨nofun, _, rfl, ?_⟩
      simp only at h
      split at h
      · next inner hinner =>
          obtain rfl := Except.ok.inj h
          exact .cons (represents_cancel ha hinner) hs
      · next other _ =>
          obtain ⟨d, hd, rfl⟩ := map_eq_ok.mp h
          obtain ⟨rfl, hle⟩ := checked_eq_ok.mp hd
          exact .cons (represents_not ha hle) hs
  · next left op right =>
      obtain ⟨n, hn, rfl⟩ := map_eq_ok.mp h
      obtain ⟨t, ht, rfl⟩ := parseLeaf_eq_ok.mp hn
      exact ⟨fun _ => by simp [ht], _, rfl, .cons (represents_term ht) hs⟩
  · simp at h

/-- **The run is read soundly**: the array consists of operators and terms, and the stack stands
for the forest the prefix reader leaves. -/
theorem parseTerms_sound : ∀ {items : List Json} {stack : List Item},
    parseTerms items = .ok stack →
      OnlyTerms items ∧ ∃ fs, readForest (items.map token) = some fs ∧ StandsFor stack fs
  | [], stack, h => by
      obtain rfl := Except.ok.inj h
      exact ⟨spells_nil.1, [], rfl, .nil⟩
  | item :: items, stack, h => by
      obtain ⟨mid, hmid, hterm⟩ := bind_eq_ok.mp h
      obtain ⟨honly, fs, hfs, hstands⟩ := parseTerms_sound hmid
      obtain ⟨hitem, fs', hpush, hstands'⟩ := parseTerm_sound hstands hterm
      refine ⟨onlyTerms_cons.mpr ⟨hitem, honly⟩, fs', ?_, hstands'⟩
      rw [List.map_cons, readForest_cons, hfs]
      exact hpush

/-- What the reader builds stands over what it took: no nesting is lost. -/
lemma exists_nesting_le_of_push {t : Tok Json} {fs fs' : List (Formula Json)}
    (h : push t fs = some fs') {f : Formula Json} (hf : f ∈ fs) :
    ∃ g ∈ fs', f.nesting ≤ g.nesting := by
  match t, fs with
  | .atom a, fs =>
      obtain rfl := Option.some.inj h
      exact ⟨f, List.mem_cons_of_mem _ hf, le_rfl⟩
  | .neg, g :: fs =>
      obtain rfl := Option.some.inj h
      rcases List.mem_cons.mp hf with rfl | hf
      · exact ⟨.neg f, by simp, by simp [Formula.nesting]⟩
      · exact ⟨f, List.mem_cons_of_mem _ hf, le_rfl⟩
  | .bin op, g :: k :: fs =>
      obtain rfl := Option.some.inj h
      simp only [List.mem_cons] at hf
      rcases hf with rfl | rfl | hf
      · exact ⟨.bin op f k, by simp, by simp only [Formula.nesting]; omega⟩
      · exact ⟨.bin op g f, by simp, by simp only [Formula.nesting]; omega⟩
      · exact ⟨f, List.mem_cons_of_mem _ hf, le_rfl⟩
  | .neg, [] => simp [push] at h
  | .bin op, [] => simp [push] at h
  | .bin op, [g] => simp [push] at h

/-- Two operands that nest within the bound are joined. -/
lemma exists_nary {op : BinOp} {a b : Item} {f g : Formula Json} (ha : Represents a f)
    (hb : Represents b g) (hnest : (Formula.bin op f g).nesting + 1 ≤ maxDomainNesting) :
    ∃ r, nary (op = .and) [a, b] = .ok r := by
  have hd : ∀ item ∈ [a, b], item.depth = height item.node.finish := by
    simp [ha.depth, hb.depth]
  refine ⟨_, (nary_eq_ok hd).mpr ⟨rfl, ?_⟩⟩
  have hha := heightOf_absorbed_le (op = .and) a
  have hhb := heightOf_absorbed_le (op = .and) b
  rw [← ha.depth] at hha
  rw [← hb.depth] at hhb
  have hna := ha.nesting
  have hnb := hb.nesting
  simp only [Formula.nesting] at hnest
  simp only [List.flatMap_cons, List.flatMap_nil, List.append_nil, heightOf_append]
  omega

/-- A term of the notation is taken whatever the stack. -/
lemma exists_parseTerm_term {item : Json} {t : Term} (ht : termOf item = some t)
    {stack : List Item} : ∃ stack', parseTerm item stack = .ok stack' := by
  have hshape : ∃ left op right, item = .array [left, op, right] := by
    unfold termOf at ht
    split at ht <;> simp_all
  obtain ⟨left, op, right, rfl⟩ := hshape
  exact ⟨_, map_eq_ok.mpr ⟨_, parseLeaf_eq_ok.mpr ⟨t, ht, rfl⟩, rfl⟩⟩

/-- **One term is read completely**: what the prefix reader takes, the stack takes, unless the
nesting passes the bound. -/
lemma parseTerm_complete {item : Json} {stack : List Item} {fs fs' : List (Formula Json)}
    (hs : StandsFor stack fs) (hitem : token item = .atom item → (termOf item).isSome)
    (hpush : push (token item) fs = some fs')
    (hnest : ∀ f ∈ fs', f.nesting + 1 ≤ maxDomainNesting) :
    ∃ stack', parseTerm item stack = .ok stack' := by
  rcases token_eq_self_or item with rfl | rfl | rfl | hatom
  · match fs, hpush, hs with
    | f :: g :: fs, hpush, .cons ha (.cons hb _) =>
        obtain rfl := Option.some.inj hpush
        obtain ⟨r, hr⟩ := exists_nary ha hb (hnest _ List.mem_cons_self)
        exact ⟨_, map_eq_ok.mpr ⟨r, hr, rfl⟩⟩
  · match fs, hpush, hs with
    | f :: g :: fs, hpush, .cons ha (.cons hb _) =>
        obtain rfl := Option.some.inj hpush
        obtain ⟨r, hr⟩ := exists_nary ha hb (hnest _ List.mem_cons_self)
        exact ⟨_, map_eq_ok.mpr ⟨r, hr, rfl⟩⟩
  · match fs, hpush, hs with
    | f :: fs, hpush, .cons (a := a) ha _ =>
        obtain rfl := Option.some.inj hpush
        have hle := hnest _ List.mem_cons_self
        have hna := ha.nesting
        simp only [Formula.nesting] at hle
        simp only [parseTerm]
        split
        · exact ⟨_, rfl⟩
        · exact ⟨_, map_eq_ok.mpr ⟨_, checked_eq_ok.mpr ⟨rfl, by omega⟩, rfl⟩⟩
  · obtain ⟨t, ht⟩ := Option.isSome_iff_exists.mp (hitem hatom)
    exact exists_parseTerm_term ht

/-- **The run is read completely**: a spelled forest that nests within the bound is read. -/
theorem parseTerms_complete : ∀ {items : List Json} {fs : List (Formula Json)},
    OnlyTerms items → readForest (items.map token) = some fs →
      (∀ f ∈ fs, f.nesting + 1 ≤ maxDomainNesting) →
      ∃ stack, parseTerms items = .ok stack ∧ StandsFor stack fs
  | [], fs, _, h, _ => ⟨[], rfl, by obtain rfl := Option.some.inj h; exact .nil⟩
  | item :: items, fs, honly, h, hnest => by
      obtain ⟨hitem, honly⟩ := onlyTerms_cons.mp honly
      rw [List.map_cons, readForest_cons] at h
      obtain ⟨mid, hmid, hpush⟩ := Option.bind_eq_some_iff.mp h
      have hnest' : ∀ f ∈ mid, f.nesting + 1 ≤ maxDomainNesting := by
        intro f hf
        obtain ⟨g, hg, hle⟩ := exists_nesting_le_of_push hpush hf
        have := hnest g hg
        omega
      obtain ⟨stack, hstack, hstands⟩ := parseTerms_complete honly hmid hnest'
      obtain ⟨stack', hstack'⟩ := parseTerm_complete hstands hitem hpush hnest
      obtain ⟨-, fs', hpush', hstands'⟩ := parseTerm_sound hstands hstack'
      obtain rfl := Option.some.inj (hpush.symm.trans hpush')
      exact ⟨stack', bind_eq_ok.mpr ⟨stack, hstack, hstack'⟩, hstands'⟩

/-! ## The reader -/

/-- The leaf of a token. -/
def leafOfTok : Tok Json → Option Leaf
  | .atom item => leafOf item
  | .neg => none
  | .bin _ => none

lemma leafOfTok_token (item : Json) : leafOfTok (token item) = leafOf item := by
  rcases token_eq_self_or item with rfl | rfl | rfl | h
  · rfl
  · rfl
  · rfl
  · rw [h]; rfl

lemma filterMap_tokens (f : Formula Json) :
    f.tokens.filterMap leafOfTok = f.atoms.filterMap leafOf := by
  induction f with
  | atom a => rfl
  | neg f ih => simpa [Formula.tokens, Formula.atoms, List.filterMap_cons, leafOfTok] using ih
  | bin op f g ihf ihg =>
      simp [Formula.tokens, Formula.atoms, List.filterMap_cons, leafOfTok, ihf, ihg]

/-- The leaves of a forest that an array spells are those of the array. -/
lemma atoms_of_spells {items : List Json} {fs : List (Formula Json)} (h : Spells items fs) :
    fs.flatMap (fun f => f.atoms.filterMap leafOf) = sourceLeaves items := by
  have hitems : sourceLeaves items = (items.map token).filterMap leafOfTok := by
    have hcomp : leafOfTok ∘ token = leafOf := funext leafOfTok_token
    rw [List.filterMap_map, hcomp, sourceLeaves]
  rw [hitems, h.2, spell, List.filterMap_flatMap]
  simp only [filterMap_tokens]

/-- The contributions of a stack to the implicit conjunction. -/
lemma standsFor_absorbed {stack : List Item} {fs : List (Formula Json)} (h : StandsFor stack fs) :
    (∀ item ∈ stack, item.depth = height item.node.finish) ∧
      (∀ v, (∀ c ∈ stack.flatMap (absorbed true), holds v c) ↔ AllHold (termHolds v) fs) ∧
      leavesOf (stack.flatMap (absorbed true)) = fs.flatMap (fun f => f.atoms.filterMap leafOf) ∧
      heightOf (stack.flatMap (absorbed true)) ≤ fs.foldr (fun g d => max g.nesting d) 0 + 1 := by
  induction h with
  | nil => simp [heightOf]
  | @cons item f stack fs hitem hs ih =>
      obtain ⟨hd, hm, hl, hh⟩ := ih
      have habs := heightOf_absorbed_le true item
      rw [← hitem.depth] at habs
      have hnest := hitem.nesting
      refine ⟨?_, fun v => ?_, ?_, ?_⟩
      · exact List.forall_mem_cons.mpr ⟨hitem.depth, hd⟩
      · rw [List.flatMap_cons, List.forall_mem_append, holds_absorbed_and, hitem.meaning, hm,
          allHold_cons]
      · rw [List.flatMap_cons, leavesOf_append, leavesOf_absorbed, hitem.leaves, hl,
          List.flatMap_cons]
      · rw [List.flatMap_cons, heightOf_append, List.foldr_cons]
        omega

/-- **What `parse` accepts and what it builds**: a sequence of complete prefix expressions, read
as their conjunction, with the leaves in source order and a bounded height. -/
theorem parse_eq_ok {items : List Json} {n : Node} (h : parse (.array items) = .ok n) :
    ∃ fs, Spells items fs ∧ (∀ v, holds v n ↔ AllHold (termHolds v) fs) ∧
      leaves n = sourceLeaves items ∧ height n ≤ maxDomainNesting := by
  obtain ⟨stack, hstack, hn⟩ := bind_eq_ok.mp h
  obtain ⟨honly, fs, hread, hstands⟩ := parseTerms_sound hstack
  have hspells : Spells items fs := ⟨honly, readForest_eq_some.mp hread⟩
  refine ⟨fs, hspells, ?_⟩
  rw [← atoms_of_spells hspells]
  match stack, fs, hstands with
  | [], _, .nil =>
      obtain rfl := Except.ok.inj hn
      exact ⟨by simp, rfl, by simp [height, maxDomainNesting]⟩
  | [item], [f], .cons hitem .nil =>
      obtain rfl := Except.ok.inj hn
      refine ⟨fun v => by simp [hitem.meaning], by simp [hitem.leaves], ?_⟩
      rw [← hitem.depth]
      exact hitem.bound
  | item :: item' :: stack, _, hstands =>
      obtain ⟨r, hr, rfl⟩ := map_eq_ok.mp hn
      obtain ⟨hd, hm, hl, -⟩ := standsFor_absorbed hstands
      obtain ⟨rfl, hbound⟩ := (nary_eq_ok hd).mp hr
      refine ⟨fun v => by rw [← hm]; exact holds_and v _, ?_, ?_⟩
      · rw [← hl, leaves_junction]
      · rw [height_junction]; exact hbound

lemma nesting_le_foldr {f : Formula Json} : ∀ {fs : List (Formula Json)}, f ∈ fs →
    f.nesting ≤ fs.foldr (fun g d => max g.nesting d) 0
  | g :: fs, hf => by
      rcases List.mem_cons.mp hf with rfl | hf
      · exact le_max_left _ _
      · exact (nesting_le_foldr hf).trans (le_max_right _ _)

lemma nesting_le_forestNesting {f : Formula Json} {fs : List (Formula Json)} (hf : f ∈ fs) :
    f.nesting ≤ forestNesting fs := by
  match fs, hf with
  | [g], hf => rw [List.mem_singleton.mp hf]; exact le_rfl
  | g :: g' :: fs, hf => exact (nesting_le_foldr hf).trans (Nat.le_succ _)

/-- **Every well-formed array within the bound is accepted.**  A term is a level of its own, so the
operators may nest one level less than the bound. -/
theorem exists_parse {items : List Json} {fs : List (Formula Json)} (h : Spells items fs)
    (hnest : forestNesting fs + 1 ≤ maxDomainNesting) : ∃ n, parse (.array items) = .ok n := by
  have hle : ∀ f ∈ fs, f.nesting ≤ forestNesting fs := fun f hf => nesting_le_forestNesting hf
  obtain ⟨stack, hstack, hstands⟩ := parseTerms_complete h.1 (readForest_eq_some.mpr h.2)
    fun f hf => (Nat.succ_le_succ (hle f hf)).trans hnest
  match stack, fs, hstands with
  | [], _, .nil => exact ⟨_, bind_eq_ok.mpr ⟨_, hstack, rfl⟩⟩
  | [item], _, _ => exact ⟨_, bind_eq_ok.mpr ⟨_, hstack, rfl⟩⟩
  | item :: item' :: stack, f :: f' :: fs, hstands =>
      obtain ⟨hd, -, -, hh⟩ := standsFor_absorbed hstands
      have hbound : heightOf ((item :: item' :: stack).flatMap (absorbed true)) + 1
          ≤ maxDomainNesting := by
        simp only [forestNesting] at hnest
        omega
      have hr := (nary_eq_ok hd).mpr ⟨rfl, hbound⟩
      exact ⟨_, bind_eq_ok.mpr ⟨_, hstack, map_eq_ok.mpr ⟨_, hr, rfl⟩⟩⟩

/-! ## The only refusal of a well-formed domain -/

lemma checked_cases (d : ℕ) : (∃ e, checked d = .ok e) ∨ checked d = refuse nestingTooDeep := by
  unfold checked
  split
  · exact .inr rfl
  · exact .inl ⟨_, rfl⟩

/-- A computation that goes on with a value can only be refused where the value is. -/
lemma ok_or_refused_bind {α β : Type} {x : Result α} {f : α → Result β} {reason : String}
    (hx : (∃ a, x = .ok a) ∨ x = refuse reason)
    (hf : ∀ a, x = .ok a → (∃ b, f a = .ok b) ∨ f a = refuse reason) :
    (∃ b, (x >>= f) = .ok b) ∨ (x >>= f) = refuse reason := by
  rcases hx with ⟨a, rfl⟩ | rfl
  · exact hf a rfl
  · exact .inr rfl

lemma nary_cases (conj : Bool) (items : List Item) :
    (∃ r, nary conj items = .ok r) ∨ nary conj items = refuse nestingTooDeep :=
  ok_or_refused_bind (checked_cases _) fun _ _ => .inl ⟨_, rfl⟩

/-- What the prefix reader takes, the stack takes or refuses for its depth. -/
lemma parseTerm_cases {item : Json} {stack : List Item} {fs fs' : List (Formula Json)}
    (hs : StandsFor stack fs) (hitem : token item = .atom item → (termOf item).isSome)
    (hpush : push (token item) fs = some fs') :
    (∃ stack', parseTerm item stack = .ok stack') ∨
      parseTerm item stack = refuse nestingTooDeep := by
  rcases token_eq_self_or item with rfl | rfl | rfl | hatom
  · match fs, hpush, hs with
    | f :: g :: fs, _, .cons _ (.cons _ _) =>
        exact ok_or_refused_bind (nary_cases _ _) fun _ _ => .inl ⟨_, rfl⟩
  · match fs, hpush, hs with
    | f :: g :: fs, _, .cons _ (.cons _ _) =>
        exact ok_or_refused_bind (nary_cases _ _) fun _ _ => .inl ⟨_, rfl⟩
  · match fs, hpush, hs with
    | f :: fs, _, .cons _ _ =>
        simp only [parseTerm]
        split
        · exact .inl ⟨_, rfl⟩
        · exact ok_or_refused_bind (checked_cases _) fun _ _ => .inl ⟨_, rfl⟩
  · obtain ⟨t, ht⟩ := Option.isSome_iff_exists.mp (hitem hatom)
    exact .inl (exists_parseTerm_term ht)

lemma parseTerms_cases : ∀ {items : List Json} {fs : List (Formula Json)},
    OnlyTerms items → readForest (items.map token) = some fs →
      (∃ stack, parseTerms items = .ok stack) ∨ parseTerms items = refuse nestingTooDeep
  | [], _, _, _ => .inl ⟨[], rfl⟩
  | item :: items, fs, honly, h => by
      obtain ⟨hitem, honly⟩ := onlyTerms_cons.mp honly
      rw [List.map_cons, readForest_cons] at h
      obtain ⟨mid, hmid, hpush⟩ := Option.bind_eq_some_iff.mp h
      refine ok_or_refused_bind (parseTerms_cases honly hmid) fun stack hstack => ?_
      obtain ⟨-, fs', hfs', hstands⟩ := parseTerms_sound hstack
      obtain rfl := Option.some.inj (hmid.symm.trans hfs')
      exact parseTerm_cases hstands hitem hpush

/-- **A well-formed domain is refused for its depth only.** -/
theorem parse_cases {items : List Json} (h : WellFormed items) :
    (∃ n, parse (.array items) = .ok n) ∨ parse (.array items) = refuse nestingTooDeep := by
  obtain ⟨fs, honly, hspell⟩ := h
  refine ok_or_refused_bind (parseTerms_cases honly (readForest_eq_some.mpr hspell))
    fun stack _ => ?_
  match stack with
  | [] => exact .inl ⟨_, rfl⟩
  | [item] => exact .inl ⟨_, rfl⟩
  | item :: item' :: stack => exact ok_or_refused_bind (nary_cases _ _) fun _ _ => .inl ⟨_, rfl⟩

/-- What is accepted is well formed, and means what it spells. -/
lemma holds_of_spells {items : List Json} {fs : List (Formula Json)} {n : Node}
    (hs : Spells items fs) (h : parse (.array items) = .ok n) (v : Leaf → Prop) :
    holds v n ↔ AllHold (termHolds v) fs := by
  obtain ⟨gs, hgs, hmeaning, -⟩ := parse_eq_ok h
  rw [hmeaning, hgs.unique hs]

/-- **Parsing has the prefix-notation meaning.**  A node that is read means the conjunction of the
complete expressions the array consists of; and an array of complete expressions is read whenever
its operators, the implicit conjunction counted, nest at least one level less than the bound. -/
theorem parse_has_prefix_meaning (items : List Json) :
    (∀ n, parse (.array items) = .ok n →
      ∃ fs, Spells items fs ∧ (∀ v, holds v n ↔ AllHold (termHolds v) fs) ∧
        leaves n = sourceLeaves items ∧ height n ≤ maxDomainNesting) ∧
    (∀ fs, Spells items fs → forestNesting fs ≤ maxDomainNesting - 1 →
      ∃ n, parse (.array items) = .ok n) := by
  refine ⟨fun n h => parse_eq_ok h, fun fs h hnest => exists_parse h ?_⟩
  have : 1 ≤ maxDomainNesting := by decide
  omega

/-- The term of the chain below. -/
def chainTerm : Json := .array [.string "id", .string "=", .number (.int 1)]

/-- A chain of `n` operators that alternate between `&` and `|`. -/
def alternatingChain : ℕ → List Json
  | 0 => [chainTerm]
  | n + 1 => .string (if n % 2 = 0 then "&" else "|") :: chainTerm :: alternatingChain n

/-- The formula the chain spells. -/
def alternatingFormula : ℕ → Formula Json
  | 0 => .atom chainTerm
  | n + 1 => .bin (if n % 2 = 0 then .and else .or) (.atom chainTerm) (alternatingFormula n)

lemma alternatingChain_spells : ∀ n, Spells (alternatingChain n) [alternatingFormula n]
  | 0 => ⟨by simp [OnlyTerms, alternatingChain, chainTerm, termOf], rfl⟩
  | n + 1 => by
      obtain ⟨honly, hspell⟩ := alternatingChain_spells n
      refine ⟨?_, ?_⟩
      · refine onlyTerms_cons.mpr ⟨?_, onlyTerms_cons.mpr ⟨fun _ => rfl, honly⟩⟩
        split <;> nofun
      · simp only [alternatingChain, List.map_cons, hspell, alternatingFormula, spell_cons,
          spell_nil, Formula.tokens, List.append_nil]
        split <;> rfl

/-- The chain nests exactly as deeply as the bound allows for operators and terms together, and is
refused. -/
theorem parse_refuses_bound_many_operators :
    ¬ ∀ (items : List Json) (fs : List (Formula Json)), Spells items fs →
      forestNesting fs ≤ maxDomainNesting → ∃ n, parse (.array items) = .ok n := by
  intro h
  obtain ⟨n, hn⟩ := h _ _ (alternatingChain_spells 100) (by decide +kernel)
  have : (parse (.array (alternatingChain 100))).toOption.isSome = false := by decide +kernel
  rw [hn] at this
  simp [Except.toOption] at this

end OdooKernel
