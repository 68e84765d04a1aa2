import OdooKernel.Compile.Rewrite
import OdooKernel.Compile.Trigram

/-!
# Conditions on a column

A column is compared with the values of a leaf.  A column that may be NULL reads as its field's falsy
value, which a NULL has to be selected with, or left out with.

**NULL.**  Every condition says what it does with NULL: a membership takes it for the falsy value and
for the comparands that stand for no value, an ordering for the falsy value, and a negative pattern
selects it.  `Compile/Membership` and `Compile/Complement` say what that comes to.

**Indexes.**  Two kinds of conjunct are there for an index alone: the pattern over all translations
(`Compile/Trigram`), and the guard of a company-dependent column (`Compiler.companyDependentGuard`).
`Compile/Accelerator` and `Compile/Fallback` say when they change nothing.

* `inCondition` — membership in a list of values.
* `likeCondition` — the patterns, with the conjuncts that a trigram index answers.
* `inequalityCondition` — the orderings.
* `Compiler.columnCondition` — the condition of a leaf on a column.
-/

namespace OdooKernel

/-! ## Membership -/

/-- How many values are compared one by one. -/
def inToAnyThreshold : ℕ := 100

/-- A membership, as `IN` or with an array. -/
def inOrAny (e : Expr) (op : String) (values : List Datum) : Predicate :=
  if values.length ≤ inToAnyThreshold then
    if op = "in" then .isIn e values else .isNotIn e values
  else if op = "in" then .eqAny e values
  else .neAll e values

/-- The values that a membership compares with, and whether NULL is among them: a falsy value and
NULL stand for each other. -/
def memberParams (f : Field) (values : List Json) : List Json × Bool :=
  let given := values.filter (!isNullLike ·)
  let unset := decide (given.length < values.length)
  match f.falsyJson with
  | none => (given, unset)
  | some falsy =>
    if f.ttype = .Boolean then (if unset then given ++ [falsy] else given, unset)
    else if given.any (jsonEq · falsy) then (given, true)
    else if unset then (given ++ [falsy], true)
    else (given, false)

/-- The comparison with the values of a membership, if it has any. -/
def memberTest (f : Field) (e : Expr) (op : String) (params : List Json) :
    Result (Option Predicate) :=
  if params.isEmpty then .ok none
  else do return some (inOrAny e op (← params.mapM (toValue f)))

/-- **The membership of a column in a list of values.** -/
def inCondition (f : Field) (e : Expr) (op : String) (values : List Json) (canBeNull : Bool) :
    Result Predicate :=
  if values.isEmpty then .ok (.const (op ≠ "in"))
  else do
    let (params, unset) := memberParams f values
    let sql ← memberTest f e op params
    if decide (op = "in") = unset then
      if !canBeNull then return sql.getD (.const false)
      else
        match sql with
        | some s => return .or s (.isNull e)
        | none => return .isNull e
    else if op = "not in" ∧ unset ∧ sql.isNone then
      return if canBeNull then .isNotNull e else .const true
    else
      match sql with
      | some s => return s
      | none => .error (.internal ("missing sql for " ++ op))

/-! ## Orderings -/

/-- A number that orders against a text is one. -/
def orderComparand (f : Field) : Json → Result Json
  | .number n =>
    if f.ttype ∈ [.Char, .Text, .Selection] then Json.string <$> numberAsPythonText n
    else .ok (.number n)
  | other => .ok other

/-- The comparison of an ordering. -/
def orderingOf : String → Comparison
  | "<" => .lt
  | ">" => .gt
  | "<=" => .le
  | _ => .ge

/-- **The ordering of a column against a value**: a NULL orders as the falsy value. -/
def inequalityCondition (f : Field) (e : Expr) (op : String) (value : Json) (canBeNull : Bool) :
    Result Predicate :=
  if f.ttype = .Html then
    refuse (f.name ++ " " ++ op ++ " compares against the sanitized value, which Python computes")
  else do
    let comparand ← orderComparand f value
    let acceptNull := f.falsyJson.any fun falsy =>
      canBeNull && (jsonCmpOp falsy comparand op).getD false
    let v ← toValue f value
    let sql := Predicate.compare (orderingOf op) e (.val v)
    return if acceptNull then .or sql (.isNull e) else sql

/-! ## Patterns -/

/-- The text that a pattern is matched with. -/
def patternText (f : Field) (e : Expr) : Expr :=
  if f.ttype.isText then e
  else if f.ttype = .Float ∨ f.ttype = .Monetary then .trimScale e
  else .castAs e "text"

/-- A pattern that has to be found anywhere in a text, but for the operators with `=`. -/
def patternOf (op raw : String) : String :=
  if containsText "=" op then raw else "%" ++ raw ++ "%"

/-- A match of a pattern, without accents where the server has `unaccent` and the case does not
matter. -/
def likeExpr (hasUnaccent : Bool) (op : String) (e : Expr) (pattern : String) : Predicate :=
  let insensitive := endsWith "ilike" op
  let negative := startsWith "not " op
  if insensitive && hasUnaccent then
    .like true negative (.unaccent e) (.unaccent (.val (.text pattern)))
  else .like insensitive negative e (.val (.text pattern))

namespace Compiler

variable (c : Compiler)

/-- A translated field with a trigram index. -/
def trigramIndexed (f : Field) : Bool :=
  c.ctx.registry.hasTrigram && f.translated && f.index = some "trigram"

/-- A condition on the text of all translations, which the index answers. -/
def trigramConjunct (f : Field) (pattern : List Char) (insensitive : Bool) : Compile Predicate := do
  Compile.touch c.model.name f.name
  let left := Expr.pathTexts (.col c.aliasName f.name)
  let right := Expr.val (.text (String.ofList pattern))
  return if c.ctx.registry.hasUnaccent then .like insensitive false (.unaccent left) (.unaccent right)
    else .like insensitive false left right

/-- What the index answers of a pattern, if anything. -/
def trigramAccelerator (f : Field) (op raw : String) : Compile (Option Predicate) :=
  if !c.trigramIndexed f || startsWith "not " op || raw = "" || !isExactOn raw.toList then pure none
  else
    let pattern := patternToPattern raw.toList
    if pattern = ['%'] then pure none
    else some <$> c.trigramConjunct f pattern (endsWith "ilike" op)

/-- What the index answers of an equality, if anything. -/
def trigramAcceleratorForValue (f : Field) (values : List Json) : Compile (Option Predicate) :=
  match values with
  | [.string one] =>
    if !c.trigramIndexed f || !isExactOn one.toList then pure none
    else
      let pattern := valueToPattern one.toList
      if pattern = ['%'] then pure none else some <$> c.trigramConjunct f pattern false
  | _ => pure none

/-- A condition after the one that the index answers, if there is one. -/
def accelerated (accelerator : Option Predicate) (p : Predicate) : Predicate :=
  match accelerator with
  | some a => .and a p
  | none => p

/-- **The match of a column with a pattern.** -/
def likeCondition (f : Field) (e : Expr) (op : String) (value : Json) (canBeNull : Bool) :
    Compile Predicate :=
  match value with
  | .string raw => do
    let sql := likeExpr c.ctx.registry.hasUnaccent op (patternText f e) (patternOf op raw)
    let sql := if startsWith "not " op && canBeNull then .or sql (.isNull e) else sql
    return accelerated (← c.trigramAccelerator f op raw) sql
  | _ => liftM (refuse ("invalid value for " ++ op) : Result Predicate)

/-! ## Company-dependent columns -/

/-- Whether a row without a value of a company-dependent column may be selected: its value is the
fallback. -/
def fallbackSatisfies (f : Field) (op : String) (values : List Json) : Bool :=
  let fallback := ((c.ctx.cdFallbackFor c.model f).orElse fun _ => f.falsyJson).getD .null
  let unset := fun v => isNullLike v || f.falsyJson.any (jsonEq · v)
  let matchesFallback := fun v => (unset v && unset fallback) || jsonEq v fallback
  if op = "in" then values.any matchesFallback
  else if op = "not in" then !values.any matchesFallback
  else if isOrdering op then (values.head?.bind fun v => jsonCmpOp fallback v op).getD true
  -- whether a fallback matches a pattern is left to the database
  else true

/-- **The guard of an index that has no entry for NULL**: only where the fallback fails the
condition, the rows without a value are left out beforehand. -/
def companyDependentGuard (f : Field) (op : String) (values : List Json) (cond : Predicate) :
    Compile Predicate :=
  if !f.companyDependent ∨ f.index ≠ some "btree_not_null" then pure cond
  else if c.fallbackSatisfies f op values then pure cond
  else do
    Compile.touch c.model.name f.name
    return .and (.isNotNull (.col c.aliasName f.name)) cond

/-! ## The condition of a leaf -/

/-- The operator that a leaf on a column is compiled with, and its values; nothing for one that
holds of every record. -/
def memberForm (leaf : Leaf) : Result (Option (String × List Json)) :=
  match leaf.op with
  | "=" | "==" => .ok (some ("in", [leaf.value]))
  | "!=" | "<>" => .ok (some ("not in", [leaf.value]))
  | "=?" => .ok (if isNullLike leaf.value then none else some ("in", [leaf.value]))
  | "in" | "not in" =>
    match leaf.value with
    | .array items => .ok (some (leaf.op, items))
    | _ => refuse (leaf.op ++ " operator expects a list")
  | "child_of" | "parent_of" => refuse ("hierarchy operator " ++ leaf.op ++ " must be pre-resolved")
  | other => .ok (some (other, [leaf.value]))

/-- The condition of an operator on a column. -/
def operatorCondition (f : Field) (e : Expr) (op : String) (values : List Json) :
    Compile Predicate :=
  if op = "in" ∨ op = "not in" then liftM (inCondition f e op values !f.notNull)
  else if f.ttype = .Boolean then
    liftM (refuse ("operator " ++ op ++ " is not supported on the boolean field " ++ c.model.name
      ++ "." ++ f.name) : Result Predicate)
  else if endsWith "like" op then c.likeCondition f e op (values.headD .null) !f.notNull
  else if isOrdering op then liftM (inequalityCondition f e op (values.headD .null) !f.notNull)
  else liftM (refuse ("unsupported operator " ++ op) : Result Predicate)

/-- The expression that a column is compared as. -/
def comparedExpr (f : Field) (e : Expr) : Expr :=
  if f.pgType = "numeric" then .castAs e "float8" else e

/-- **The condition of a leaf on a column.** -/
def columnCondition (f : Field) (leaf : Leaf) : Compile Predicate := do
  match ← memberForm leaf with
  | none => return .const true
  | some (op, values) =>
    let e ← c.ctx.fieldExpr c.model f c.aliasName
    let cond ← c.operatorCondition f (comparedExpr f e) op values
    let accelerator ← c.trigramAcceleratorForValue f values
    let cond := if op = "in" then accelerated accelerator cond else cond
    c.companyDependentGuard f op values cond

end Compiler

end OdooKernel
