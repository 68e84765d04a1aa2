import OdooKernel.Compile.Rewrite

/-!
# The negation of a domain

A negation is pushed down to the leaves: a junction becomes the other junction, and a leaf takes the
operator that selects the other rows.

* `Compiler.flipped`, `Compiler.inverseInequality` — the operator that selects the other rows.
* `Compiler.negateLeaf`, `Compiler.negate` — the negation of a leaf and of a domain.
-/

namespace OdooKernel

/-- The refusal that stands for more nested calls than were provided for. -/
def outOfCalls {α : Type} : Result α := .error (.internal "the compiler calls itself too deeply")

namespace Compiler

/-! ## Negation -/

mutual
/-- The negation of a domain, pushed down to its leaves. -/
def negateWith (negateLeaf : Leaf → Result Node) : Node → Result Node
  | .True => .ok .False
  | .False => .ok .True
  | .Not inner => .ok inner
  | .And children => do return .Or (← negateAll negateLeaf children)
  | .Or children => do return .And (← negateAll negateLeaf children)
  | .Leaf l => negateLeaf l

/-- The negations of the children of a junction. -/
def negateAll (negateLeaf : Leaf → Result Node) : List Node → Result (List Node)
  | [] => .ok []
  | n :: ns => do
    let first ← negateWith negateLeaf n
    let rest ← negateAll negateLeaf ns
    return first :: rest
end

/-- The operator that selects the other rows, where there is one. -/
def flipped : String → Option String
  | "any" => some "not any"
  | "not any" => some "any"
  | "any!" => some "not any!"
  | "not any!" => some "any!"
  | "in" => some "not in"
  | "not in" => some "in"
  | "like" => some "not like"
  | "not like" => some "like"
  | "ilike" => some "not ilike"
  | "not ilike" => some "ilike"
  | "=like" => some "not =like"
  | "not =like" => some "=like"
  | "=ilike" => some "not =ilike"
  | "not =ilike" => some "=ilike"
  | "=" => some "!="
  | "==" => some "!="
  | "!=" => some "="
  | "<>" => some "="
  | _ => none

/-- The inequality of the other order. -/
def inverseInequality (field : String) : String → Result String
  | "<" => .ok ">="
  | ">" => .ok "<="
  | ">=" => .ok "<"
  | "<=" => .ok ">"
  | other => refuse ("cannot negate the operator " ++ other ++ " on " ++ field)

/-- Whether each step of a related field has one value that its condition is about. -/
def eachSearchesOne (registry : Registry) (one : Model → Field → Result Bool) (owner : Model)
    (f : Field) : Model → List String → Result Bool
  | _, [] => .ok true
  | m, step :: steps => do
    let stepField ← orRefuse ("related " ++ owner.name ++ "." ++ f.name ++ " names unknown " ++ step)
      (m.fields.get? step)
    if ← one m stepField then
      if steps.isEmpty then return true
      else eachSearchesOne registry one owner f (← registry.get (← stepField.comodel)) steps
    else return false

/-- Whether a field has one value that its condition is about, up to some number of related fields
through related fields. -/
def searchesOneValue (registry : Registry) : ℕ → Model → Field → Result Bool
  | 0, _, _ => outOfCalls
  | fuel + 1, model, f =>
    if f.ttype.isX2many then .ok false
    else if f.stored then .ok true
    else
      match f.related with
      | none => .ok false
      | some rel =>
        eachSearchesOne registry (searchesOneValue registry fuel) model f model (splitDots rel)

variable (c : Compiler)

/-- The field that the inequality on a path is about. -/
def inequalityTarget (leaf : Leaf) : Result Field := do
  let path ← c.ctx.normalizePath c.model (splitDots leaf.field)
  let target ← c.ctx.pathTarget c.model path.dropLast
  orRefuse ("unknown field " ++ leaf.field) (target.fields.get? (path.getLast?.getD ""))

/-- The negation of an inequality: the inverse one, or no value where no value reads as falsy. -/
def negateInequality (leaf : Leaf) : Result Node := do
  let op ← inverseInequality leaf.field leaf.op
  let inverted := leafNode leaf.field op leaf.value
  let field ← c.inequalityTarget leaf
  if field.falsyJson.isSome then return inverted
  else return .Or [leafNode leaf.field "in" (.array [.bool false]), inverted]

/-- What the negation cannot rewrite it keeps: the complement of the rows that the leaf selects. -/
def complement (leaf : Leaf) : Node := .Not (.Leaf leaf)

/-- Whether an ordering is negated to the complement of the rows that it selects. -/
def keepsOrdering (fuel : ℕ) (f : Field) (op : String) : Result Bool :=
  if isOrdering op then (!·) <$> searchesOneValue c.ctx.registry fuel c.model f else .ok false

/-- The negation of a leaf that is compiled as it is, on a field of the model's own if there is
one. -/
def negatePlain (fuel : ℕ) (leaf : Leaf) : Result Node :=
  match flipped leaf.op, c.model.fields.get? leaf.field with
  | some op, some f => do
    if ← c.negatesByOperator f then return leafNode leaf.field op leaf.value
    else return complement leaf
  | some op, none => .ok (leafNode leaf.field op leaf.value)
  | none, some f => do
    if ← c.keepsOrdering fuel f leaf.op then return complement leaf else c.negateInequality leaf
  | none, none => c.negateInequality leaf

/-- The negation of a leaf. -/
def negateLeaf (fuel : ℕ) (negateAgain : Node → Result Node) (leaf : Leaf) : Result Node := do
  match ← c.optimizeLeaf leaf with
  | some rewritten => negateAgain rewritten
  | none =>
    match splitOnce leaf.field with
    | some (head, rest) =>
      return leafNode head "not any" (.array [term rest leaf.op leaf.value])
    | none => c.negatePlain fuel leaf

/-- **The negation of a domain.** -/
def negate : ℕ → Node → Result Node
  | 0 => fun _ => outOfCalls
  | fuel + 1 => negateWith (c.negateLeaf fuel (negate fuel))

end Compiler

end OdooKernel
