import OdooKernel.Registry.Model
import OdooKernel.Sql.Value

/-!
# The values of comparisons

A comparand comes as JSON and is compared in four worlds: as the kernel compares JSON, as Python
would have compared it, as a text that Rust reads, and as a value of a column.  They do not agree,
and which of them decides is the source's choice at each place; so each has its own function here.

* `toValue` — a comparand as a value of a field's column.
* `isNullLike`, `isPyFalsy`, `isFalsyId` — the values that stand for no value.
* `jsonEq`, `pyEq`, `jsonCmpOp` — comparisons of comparands, as the kernel and as Python make them.
* `coerceNumeric`, `floatPatternText` — what a comparand of another type is read as.
* `holdsOnMissingStep` — whether a condition holds for a record that a related field reaches no value
  of.
-/

namespace OdooKernel

/-! ## Values that stand for no value -/

def isNullLike : Json → Bool
  | .null => true
  | .bool b => !b
  | _ => false

def isPyFalsy : Json → Bool
  | .null => true
  | .bool b => !b
  | .number n => n.toDouble = 0
  | .string s => s = ""
  | .array items => items.isEmpty
  | .object fields => fields.isEmpty

def isFalsyId : Json → Bool
  | .number n => n.toDouble = 0
  | _ => false

/-! ## Comparisons -/

def jsonEq (a b : Json) : Bool :=
  match a.asF64, b.asF64 with
  | some x, some y => x = y
  | _, _ => a = b

/-- A number, or the number a boolean is to Python. -/
def pyNumber : Json → Option ℚ
  | .bool b => some (if b then 1 else 0)
  | j => j.asF64

/-- Python's `==` between two comparands: `False == 0` and `1 == 1.0`. -/
def pyEq (a b : Json) : Bool :=
  match pyNumber a, pyNumber b with
  | some x, some y => x = y
  | _, _ => a = b

/-- The order of two texts by their scalar values. -/
def textBefore (a b : String) : Bool := decide (a.toList < b.toList)

/-- The order of two comparands, where they have one. -/
def jsonOrdering (a b : Json) : Option Ordering :=
  match a, b with
  | .string x, .string y =>
    some (if textBefore x y then .lt else if textBefore y x then .gt else .eq)
  | _, _ =>
    match a.asF64, b.asF64 with
    | some x, some y => some (if x < y then .lt else if y < x then .gt else .eq)
    | _, _ => none

def jsonCmpOp (a b : Json) (op : String) : Option Bool :=
  match jsonOrdering a b, op with
  | some ord, "<" => some ord.isLT
  | some ord, ">" => some ord.isGT
  | some ord, "<=" => some ord.isLE
  | some ord, ">=" => some ord.isGE
  | _, _ => none

/-! ## Conversions -/

/-- An integer as Python writes it; a float is Python's to write. -/
def numberAsPythonText : Number → Result String
  | .int n => .ok (toString n)
  | .float _ => refuse "converting a float to text requires Python's formatting"

/-- `_float_to_pattern_text`, for the values whose `.15g` rendering is their integer digits; any
other float is left to Python's formatting. -/
def floatPatternText (n : Number) : Result String :=
  let q := n.toDouble
  if q.den = 1 ∧ -10 ^ 15 < q ∧ q < 10 ^ 15 then .ok (toString q.num)
  else refuse "the float pattern needs Python's formatting"

/-- A comparand as a value of a field's column. -/
def toValue (f : Field) (v : Json) : Result Datum :=
  let err {α : Type} : Result α := refuse ("cannot convert for " ++ f.pgType ++ " field " ++ f.name)
  match f.ttype with
  | .Integer | .Many2one | .Many2oneReference => do
    let n ← match v with
      | .number n =>
        match n.asI64 with
        | some n => .ok n
        | none => err
      | .bool b => .ok (if b then 1 else 0)
      | _ => err
    if f.pgType = "int8" ∨ (-2 ^ 31 ≤ n ∧ n < 2 ^ 31) then return .int n else err
  | .Float | .Monetary =>
    match v.asF64 with
    | some q => .ok (.double q)
    | none => err
  | .Boolean =>
    match v with
    | .bool b => .ok (.bool b)
    | _ => err
  | .Char | .Text | .Html | .Selection =>
    match v with
    | .string s => .ok (.text s)
    | .number n => Datum.text <$> numberAsPythonText n
    | _ => err
  | .Date =>
    match v.asStr.bind strictDate with
    | some d => .ok (.date d)
    | none => err
  | .Datetime =>
    match v.asStr.bind readInstant with
    | some t => .ok (.timestamp t)
    | none => err
  | _ => err

/-- A character in lower case, of ASCII only. -/
def asciiLower (cs : List Char) : List Char := cs.map Char.toLower

/-- The texts that Python reads as true. -/
def pyStr2bool (s : String) : Bool :=
  String.ofList (asciiLower (trimmed s.toList)) ∈ ["1", "true", "yes", "y", "on", "t"]

/-- A character that a decimal number is not written with. -/
def isSign (c : Char) : Bool := c = '+' || c = '-'

/-- The digits of an unsigned decimal number, and its exponent: `12.5e3`. -/
def readDecimal (cs : List Char) : Option ℚ :=
  let whole := cs.takeWhile Char.isDigit
  let rest := cs.drop whole.length
  let (decimals, rest) := match rest with
    | '.' :: rest => (rest.takeWhile Char.isDigit, rest.dropWhile Char.isDigit)
    | rest => ([], rest)
  if (whole ++ decimals).isEmpty then none
  else
    let mantissa : ℚ := digitsValue (whole ++ decimals) / 10 ^ decimals.length
    match rest with
    | [] => some mantissa
    | e :: rest =>
      if e = 'e' ∨ e = 'E' then
        let negative := rest.head? = some '-'
        let digits := if rest.head?.any isSign then rest.tail else rest
        if digits.isEmpty ∨ !digits.all Char.isDigit then none
        else if negative then some (mantissa / 10 ^ digitsValue digits)
        else some (mantissa * 10 ^ digitsValue digits)
      else none

/-- A text that Rust reads as a double: a number, or one of the names of what is no number. -/
inductive DoubleText where
  | finite (q : ℚ)
  | nonFinite
  | noNumber

/-- What a text is as a double. -/
def readDouble (cs : List Char) : DoubleText :=
  let negative := cs.head? = some '-'
  let unsigned := if cs.head?.any isSign then cs.tail else cs
  if String.ofList (asciiLower unsigned) ∈ ["inf", "infinity", "nan"] then .nonFinite
  else
    match readDecimal unsigned with
    | some q => .finite (if negative then -q else q)
    | none => .noNumber

/-- An integer that Rust reads as an `i64`. -/
def readInteger (cs : List Char) : Option ℤ :=
  let negative := cs.head? = some '-'
  let digits := if cs.head?.any isSign then cs.tail else cs
  if digits.isEmpty ∨ !digits.all Char.isDigit then none
  else
    let n : ℤ := if negative then -(digitsValue digits : ℤ) else digitsValue digits
    if -2 ^ 63 ≤ n ∧ n < 2 ^ 63 then some n else none

/-- A number for a comparand of a numeric field: a text is read as one, and a text that is none is
no number. `toDouble` gives the double nearest to a rational, if it is finite. -/
def coerceNumeric (toDouble : ℚ → Option ℚ) (v : Json) (integer : Bool) : Result (Option Json) :=
  match v with
  | .string s =>
    let cs := s.toList
    if cs.any (fun c => c.toNat ≥ 128) || '_' ∈ cs then
      refuse ("numeric string " ++ s ++ " requires Python's numeric parser")
    else
      match if integer then readInteger (trimmed cs) else none with
      | some n => .ok (some (.number (.int n)))
      | none =>
        match readDouble (trimmed cs) with
        | .noNumber => .ok none
        | .nonFinite => refuse ("non-finite numeric string " ++ s ++ " cannot be preserved in JSON")
        | .finite q =>
          match toDouble q with
          | some d => .ok (some (.number (.float d)))
          | none => refuse ("non-finite numeric string " ++ s ++ " cannot be preserved in JSON")
  | v => .ok (some v)

/-! ## Operators -/

/-- The operator that a negative one negates. -/
def positiveOperator : String → Option String
  | "not any" => some "any"
  | "not any!" => some "any!"
  | "not in" => some "in"
  | "not like" => some "like"
  | "not ilike" => some "ilike"
  | "not =like" => some "=like"
  | "not =ilike" => some "=ilike"
  | "!=" | "<>" => some "="
  | _ => none

/-- An operator that orders two values. -/
def isOrdering (op : String) : Bool := op ∈ ["<", ">", "<=", ">="]

/-- `_holds_on_missing_step`: whether the condition holds for a record that a related field reaches
no value of, whose value reads as the falsy one. -/
def holdsOnMissingStep (f : Field) (op : String) (value : Json) : Bool :=
  let positive := (positiveOperator op).getD op
  let falsy := f.falsyJson
  let unset := fun v => isNullLike v || falsy.any (pyEq v)
  let holds :=
    if isOrdering positive then
      falsy.any fun falsy =>
        (jsonCmpOp falsy (if isNullLike value then falsy else value) positive).getD false
    else
      match value with
      | .array items => items.any unset
      | other => unset other
  if positive = op then holds else !holds

end OdooKernel
