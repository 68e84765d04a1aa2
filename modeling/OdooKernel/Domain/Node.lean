import OdooKernel.Core.Error
import OdooKernel.Core.Text
import OdooKernel.Domain.Json

/-!
# Domains

A domain comes as a JSON array in prefix notation and is read into a `Node`, from its right end, with
a stack of items that carry their own depth.

**Depth.**  Every recursion over a node would overflow the stack on a deep one, so the reader bounds
the depth as it builds (`checked`); an item carries its depth, so that this is no recursion either.
`nary` joins operands into one junction and keeps it flat, which is why a long chain of one operator
is not deep.

**Passes.**  `foldConstants` removes `True` and `False` from inside a domain, `isFalse` tells domains
that select nothing as they stand, and `rejectInternalOperators` is the check that a domain from
outside has to pass, at every level of sub-domains.

* `Node`, `Leaf` — the parsed domain.
* `parse`, `parseNested` — the reader.
* `holds`, `leaves`, `height` — what a domain means under a truth assignment to its leaves, its
  leaves in order, and how deeply it nests.
-/

namespace OdooKernel

/-- One term of a domain. -/
structure Leaf where
  field : String
  op : String
  value : Json
deriving DecidableEq, Repr

/-- A parsed domain. -/
inductive Node where
  | And (children : List Node)
  | Or (children : List Node)
  | Not (inner : Node)
  | Leaf (leaf : Leaf)
  | True
  | False
deriving Repr

/-- The deepest nesting that is built. -/
def maxDomainNesting : ℕ := 100

mutual
/-- **Induction over domains**, with a hypothesis for every child of a junction. -/
theorem nodeInduction {P : Node → Prop} (And : ∀ cs, (∀ c ∈ cs, P c) → P (.And cs))
    (Or : ∀ cs, (∀ c ∈ cs, P c) → P (.Or cs)) (Not : ∀ n, P n → P (.Not n))
    (Leaf : ∀ l, P (.Leaf l)) (True : P .True) (False : P .False) : ∀ n, P n
  | .And cs => And cs (nodesInduction And Or Not Leaf True False cs)
  | .Or cs => Or cs (nodesInduction And Or Not Leaf True False cs)
  | .Not n => Not n (nodeInduction And Or Not Leaf True False n)
  | .Leaf l => Leaf l
  | .True => True
  | .False => False

theorem nodesInduction {P : Node → Prop} (And : ∀ cs, (∀ c ∈ cs, P c) → P (.And cs))
    (Or : ∀ cs, (∀ c ∈ cs, P c) → P (.Or cs)) (Not : ∀ n, P n → P (.Not n))
    (Leaf : ∀ l, P (.Leaf l)) (True : P .True) (False : P .False) :
    ∀ cs : List Node, ∀ c ∈ cs, P c
  | [] => List.forall_mem_nil _
  | n :: ns => List.forall_mem_cons.mpr
      ⟨nodeInduction And Or Not Leaf True False n, nodesInduction And Or Not Leaf True False ns⟩
end

/-! ## Meaning -/

mutual
/-- The truth of a domain under an assignment to its leaves. -/
def holds (v : Leaf → Prop) : Node → Prop
  | .And children => allHold v children
  | .Or children => anyHolds v children
  | .Not inner => ¬ holds v inner
  | .Leaf l => v l
  | .True => True
  | .False => False

/-- Every child holds. -/
def allHold (v : Leaf → Prop) : List Node → Prop
  | [] => True
  | n :: ns => holds v n ∧ allHold v ns

/-- Some child holds. -/
def anyHolds (v : Leaf → Prop) : List Node → Prop
  | [] => False
  | n :: ns => holds v n ∨ anyHolds v ns
end

lemma allHold_iff (v : Leaf → Prop) : ∀ cs, allHold v cs ↔ ∀ c ∈ cs, holds v c
  | [] => by simp [allHold]
  | n :: ns => by simp [allHold, allHold_iff v ns]

lemma anyHolds_iff (v : Leaf → Prop) : ∀ cs, anyHolds v cs ↔ ∃ c ∈ cs, holds v c
  | [] => by simp [anyHolds]
  | n :: ns => by simp [anyHolds, anyHolds_iff v ns]

@[simp] lemma holds_and (v : Leaf → Prop) (cs : List Node) :
    holds v (.And cs) ↔ ∀ c ∈ cs, holds v c := allHold_iff v cs

@[simp] lemma holds_or (v : Leaf → Prop) (cs : List Node) :
    holds v (.Or cs) ↔ ∃ c ∈ cs, holds v c := anyHolds_iff v cs

@[simp] lemma holds_not (v : Leaf → Prop) (n : Node) : holds v (.Not n) ↔ ¬ holds v n := Iff.rfl

@[simp] lemma holds_leaf (v : Leaf → Prop) (l : Leaf) : holds v (.Leaf l) ↔ v l := Iff.rfl

@[simp] lemma holds_true (v : Leaf → Prop) : holds v .True ↔ True := Iff.rfl

@[simp] lemma holds_false (v : Leaf → Prop) : holds v .False ↔ False := Iff.rfl

mutual
/-- The leaves of a domain, in order. -/
def leaves : Node → List Leaf
  | .And children => leavesOf children
  | .Or children => leavesOf children
  | .Not inner => leaves inner
  | .Leaf l => [l]
  | .True => []
  | .False => []

/-- The leaves of the children of a junction, in order. -/
def leavesOf : List Node → List Leaf
  | [] => []
  | n :: ns => leaves n ++ leavesOf ns
end

@[simp] lemma leavesOf_eq : ∀ cs, leavesOf cs = cs.flatMap leaves
  | [] => rfl
  | n :: ns => by simp [leavesOf, leavesOf_eq ns]

lemma leavesOf_append (cs ds : List Node) : leavesOf (cs ++ ds) = leavesOf cs ++ leavesOf ds := by
  simp

mutual
/-- How deeply a domain nests: one level for a term, one more for every operator above it. -/
def height : Node → ℕ
  | .And children => heightOf children + 1
  | .Or children => heightOf children + 1
  | .Not inner => height inner + 1
  | .Leaf _ => 1
  | .True => 1
  | .False => 1

/-- The height of the highest child. -/
def heightOf : List Node → ℕ
  | [] => 0
  | n :: ns => max (height n) (heightOf ns)
end

lemma heightOf_append (cs ds : List Node) :
    heightOf (cs ++ ds) = max (heightOf cs) (heightOf ds) := by
  induction cs with
  | nil => simp [heightOf]
  | cons c cs ih => simp [heightOf, ih, max_assoc]

/-- The truth of a domain depends on the assignment to its own leaves only. -/
lemma holds_congr {v w : Leaf → Prop} (n : Node) (h : ∀ l ∈ leaves n, v l ↔ w l) :
    holds v n ↔ holds w n := by
  induction n using nodeInduction with
  | And cs ih =>
      simp only [holds_and]
      refine forall₂_congr fun c hc => ih c hc fun l hl => h l ?_
      simp only [leaves, leavesOf_eq, List.mem_flatMap]
      exact ⟨c, hc, hl⟩
  | Or cs ih =>
      simp only [holds_or]
      refine exists_congr fun c => and_congr_right fun hc => ih c hc fun l hl => h l ?_
      simp only [leaves, leavesOf_eq, List.mem_flatMap]
      exact ⟨c, hc, hl⟩
  | Not n ih => exact not_congr (ih h)
  | Leaf l => exact h l (by simp [leaves])
  | True => exact Iff.rfl
  | False => exact Iff.rfl

/-! ## Reading a domain -/

/-- A node under construction.  The children of a junction stay appendable at both ends while
parsing. -/
inductive Pending where
  | node (n : Node)
  | junction (conj : Bool) (children : List Node)

/-- A node under construction, with its depth. -/
structure Item where
  node : Pending
  depth : ℕ

/-- A node opened for construction again. -/
def Pending.ofNode : Node → Pending
  | .And children => .junction true children
  | .Or children => .junction false children
  | n => .node n

/-- The node that was under construction. -/
def Pending.finish : Pending → Node
  | .node n => n
  | .junction conj children => if conj then .And children else .Or children

/-- The refusal of a domain that nests too deeply. -/
def nestingTooDeep : String :=
  "domain nesting too deep (>100 levels); refusing to build it rather than recurse over it"

/-- The bound on the depth. -/
def checked (depth : ℕ) : Result ℕ :=
  if depth > maxDomainNesting then refuse nestingTooDeep else .ok depth

/-- One operand into a junction: a junction of the same connective is merged, any other node
becomes a child. -/
def naryStep (conj : Bool) (acc : List Node × ℕ) (item : Item) : List Node × ℕ :=
  let (children, depth) := acc
  match item.node with
  | .junction other inner =>
    if conj = other then
      -- the smaller side moves; prepending in reverse preserves the order
      if children.length < inner.length then
        (children.reverse.foldl (fun inner child => child :: inner) inner, max depth item.depth)
      else (children ++ inner, max depth item.depth)
    else (children ++ [item.node.finish], max depth (item.depth + 1))
  | .node _ => (children ++ [item.node.finish], max depth (item.depth + 1))

/-- Join operands into one junction. -/
def nary (conj : Bool) (operands : List Item) : Result Item := do
  let (children, depth) := operands.foldl (naryStep conj) ([], 1)
  return { node := .junction conj children, depth := ← checked depth }

/-- A number or a boolean where a constant leaf has one. -/
def sentinelNumber : Json → Option ℚ
  | .bool b => some (if b then 1 else 0)
  | .number n => some n.toRat
  | _ => none

/-- A term of three values: a leaf on a field, or one of the two constant leaves `(1, '=', 1)` and
`(0, '=', 1)`. -/
def parseLeaf (left op right : Json) : Result Node := do
  let op ← orRefuse "leaf operator must be a string" op.asStr
  match left with
  | .string field => return .Leaf { field, op, value := right }
  | _ =>
    match sentinelNumber left, op, sentinelNumber right with
    | some a, "=", some b =>
      if a = 1 ∧ b = 1 then return .True
      else if a = 0 ∧ b = 1 then return .False
      else refuse "invalid constant domain leaf"
    | _, _, _ => refuse "invalid constant domain leaf"

/-- One term of the array onto the stack. -/
def parseTerm (item : Json) (stack : List Item) : Result (List Item) :=
  match item with
  | .string "&" =>
    match stack with
    | a :: b :: stack => do return (← nary true [a, b]) :: stack
    | _ => refuse "operator & missing operands"
  | .string "|" =>
    match stack with
    | a :: b :: stack => do return (← nary false [a, b]) :: stack
    | _ => refuse "operator | missing operands"
  | .string "!" =>
    match stack with
    | a :: stack =>
      match a.node.finish with
      -- a double negation cancels
      | .Not inner => return { node := .ofNode inner, depth := a.depth - 1 } :: stack
      | other => do return { node := .node (.Not other), depth := ← checked (a.depth + 1) } :: stack
    | _ => refuse "operator ! missing operand"
  | .array [left, op, right] => do
    return { node := .ofNode (← parseLeaf left op right), depth := 1 } :: stack
  | _ => refuse "invalid domain term"

/-- The terms of the array onto an empty stack, from the right. -/
def parseTerms : List Json → Result (List Item)
  | [] => .ok []
  | item :: items => do parseTerm item (← parseTerms items)

/-- **Read a domain.**  What is left on the stack is joined by an implicit conjunction. -/
def parse : Json → Result Node
  | .array items => do
    match ← parseTerms items with
    | [] => return .True
    | [item] => return item.node.finish
    | stack => return (← nary true stack).node.finish
  | _ => refuse "domain must be a JSON array"

/-- Whether the terms of a value are shaped like those of a domain. -/
def looksLikeADomain (items : List Json) : Bool :=
  items.all fun
    | .string s => s = "&" || s = "|" || s = "!"
    | .array leaf => leaf.length = 3
    | _ => false

/-- Read the value of an `any` leaf, quietly: what is no domain is nothing. -/
def parseNested (value : Json) : Option Node :=
  match value with
  | .array items => if looksLikeADomain items then (parse value).toOption else none
  | _ => none

/-! ## Passes over a domain -/

mutual
/-- Remove the constants from inside a domain. -/
def foldConstants : Node → Node
  | .And children =>
    match foldAnd children with
    | none => .False
    | some [] => .True
    | some [kept] => kept
    | some kept => .And kept
  | .Or children =>
    match foldOr children with
    | none => .True
    | some [] => .False
    | some [kept] => kept
    | some kept => .Or kept
  | .Not inner =>
    match foldConstants inner with
    | .True => .False
    | .False => .True
    | other => .Not other
  | leaf => leaf

/-- The children a conjunction keeps, or nothing when one of them is `False`. -/
def foldAnd : List Node → Option (List Node)
  | [] => some []
  | child :: children =>
    match foldConstants child with
    | .False => none
    | .True => foldAnd children
    | other => (foldAnd children).map (other :: ·)

/-- The children a disjunction keeps, or nothing when one of them is `True`. -/
def foldOr : List Node → Option (List Node)
  | [] => some []
  | child :: children =>
    match foldConstants child with
    | .True => none
    | .False => foldOr children
    | other => (foldOr children).map (other :: ·)
end

/-- The fields a domain names, in order. -/
def referencedFields (n : Node) : List String := (leaves n).map fun l => headOf l.field

mutual
/-- Whether the domain selects no row whatever the rows hold. -/
def isFalse : Node → Bool
  | .False => true
  | .Leaf l => l.op = "in" && l.value = .array []
  | .And children => anyIsFalse children
  | .Or children => !children.isEmpty && allAreFalse children
  | .Not _ => false
  | .True => false

/-- Whether some child selects no row. -/
def anyIsFalse : List Node → Bool
  | [] => false
  | n :: ns => isFalse n || anyIsFalse ns

/-- Whether no child selects a row. -/
def allAreFalse : List Node → Bool
  | [] => true
  | n :: ns => isFalse n && allAreFalse ns
end

mutual
/-- Refuse an operator a caller may not use, with a check for the sub-domains below. -/
def rejectWith (nested : Node → Result Unit) : Node → Result Unit
  | .And children => rejectAllWith nested children
  | .Or children => rejectAllWith nested children
  | .Not inner => rejectWith nested inner
  | .Leaf l =>
    if l.op = "any!" ∨ l.op = "not any!" then
      refuse (l.op ++ " is an internal operator that Domain() rejects from a caller")
    else if l.op = "any" ∨ l.op = "not any" then
      match parseNested l.value with
      | some sub => nested sub
      | none => .ok ()
    else .ok ()
  | .True => .ok ()
  | .False => .ok ()

/-- The check over the children of a junction. -/
def rejectAllWith (nested : Node → Result Unit) : List Node → Result Unit
  | [] => .ok ()
  | n :: ns => do rejectWith nested n; rejectAllWith nested ns
end

/-- The check through at most `fuel` levels of sub-domains. -/
def rejectWithin : ℕ → Node → Result Unit
  | 0 => rejectWith fun _ => .error (.internal "sub-domains nest deeper than their value")
  | fuel + 1 => rejectWith (rejectWithin fuel)

/-- How deeply the values of a domain nest. -/
def valueDepth (n : Node) : ℕ := (leaves n).foldr (fun l d => max l.value.depth d) 0

/-- **The caller's check**: no `any!` and no `not any!`, at any level of sub-domains. -/
def rejectInternalOperators (n : Node) : Result Unit := rejectWithin (valueDepth n) n

end OdooKernel
