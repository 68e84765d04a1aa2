import OdooKernel.Core.Text
import OdooKernel.Core.Error
import OdooKernel.Domain.Json

/-!
# The Python expressions of access rows

An access row states its domain as a Python expression.  The kernel reads the subset of literals,
sequences, names of the evaluation context, `ref()` and `+`, and refuses the rest, so that Python
serves the request instead.

**Reading.**  The parts of the reader call one another on what is left of the text.  They take a
number of calls that is a multiple of the length of the text; `Access/PyFuel` says that it never runs
out, so that the error for it is no answer of the reader.  What the standard library knows of
characters and of doubles is a parameter (`CharClass`).

**Evaluating.**  What evaluation reads from the database is a parameter as well (`Evaluator`): name
chains, xml ids and the principal's partners; `Rules/Names` has the one that the kernel uses.

* `parsePy` — the reader, on the characters that are left to read.
* `evalPy` — the value of an expression for a principal.
-/

namespace OdooKernel

/-- A Python expression of the subset.  A double that overflowed has no value. -/
inductive PyExpr where
  | Str (s : String)
  | Int (n : ℤ)
  | Float (q : Option ℚ)
  | Bool (b : Bool)
  | None
  | Seq (items : List PyExpr)
  | Name (chain : List String)
  | Ref (xmlid : String)
  | Add (a b : PyExpr)

mutual
/-- Whether an expression reads a name of the evaluation context, as opposed to literals and `ref()`
calls alone. -/
def readsNames : PyExpr → Bool
  | .Name _ => true
  | .Seq items => anyReadsNames items
  | .Add a b => readsNames a || readsNames b
  | .Str _ | .Int _ | .Float _ | .Bool _ | .None | .Ref _ => false

/-- Whether some expression reads a name. -/
def anyReadsNames : List PyExpr → Bool
  | [] => false
  | e :: es => readsNames e || anyReadsNames es
end

/-! ## Reading an expression -/

/-- Unicode's classes of characters, and the double nearest to a decimal (`none` past the largest). -/
structure CharClass where
  isAlphabetic : Char → Bool
  isNumeric : Char → Bool
  toDouble : ℚ → Option ℚ

/-- Past white space and comments; a comment ends with its line. -/
def skipWs (inComment : Bool) : List Char → List Char
  | [] => []
  | c :: cs =>
    if inComment then skipWs (c ≠ '\n') cs
    else if isWhitespace c then skipWs false cs
    else if c = '#' then skipWs true cs
    else c :: cs

/-- A string after its opening quote; `escaped` after a backslash. -/
def parseString (quote : Char) (escaped : Bool) (acc : List Char) :
    List Char → Result (String × List Char)
  | [] => refuse (if escaped then "unterminated escape in string" else "unterminated string")
  | x :: cs =>
    if escaped then
      match x with
      | 'n' => parseString quote false (acc ++ ['\n']) cs
      | 't' => parseString quote false (acc ++ ['\t']) cs
      | 'r' => parseString quote false (acc ++ ['\r']) cs
      | '\\' | '\'' | '"' => parseString quote false (acc ++ [x]) cs
      | _ => refuse "unsupported escape in string"
    else if x = '\\' then parseString quote true acc cs
    else if x = quote then .ok (String.ofList acc, cs)
    else parseString quote false (acc ++ [x]) cs

/-- The characters of a number: digits, and at most one point. -/
def numberText (point : Bool) : List Char → List Char × List Char
  | [] => ([], [])
  | x :: cs =>
    if x.isDigit then let (t, r) := numberText point cs; (x :: t, r)
    else if x = '.' ∧ !point then let (t, r) := numberText true cs; (x :: t, r)
    else ([], x :: cs)

/-- An integer as `i64` parses it. -/
def parseI64 (negative : Bool) (digits : List Char) : Result PyExpr :=
  let n : ℤ := if negative then -(digitsValue digits : ℤ) else digitsValue digits
  if digits = [] then .error (.internal "cannot parse integer from empty string")
  else if -2 ^ 63 ≤ n ∧ n < 2 ^ 63 then .ok (.Int n)
  else .error (.internal "number too large to fit in target type")

/-- A double as `f64` parses it: digits on one side of the point at least. -/
def parseDouble (toDouble : ℚ → Option ℚ) (negative : Bool) (text : List Char) : Result PyExpr :=
  let whole := text.takeWhile (· ≠ '.')
  let decimals := (text.dropWhile (· ≠ '.')).drop 1
  let q : ℚ := digitsValue (whole ++ decimals) / 10 ^ decimals.length
  if whole ++ decimals = [] then .error (.internal "invalid float literal")
  else .ok (.Float ((toDouble q).map fun d => if negative then -d else d))

/-- A number. -/
def parseNumber (cls : CharClass) (cs : List Char) : Result (PyExpr × List Char) :=
  let negative := cs.head? = some '-'
  let (text, rest) := numberText false (if negative then cs.drop 1 else cs)
  if '.' ∈ text then do return (← parseDouble cls.toDouble negative text, rest)
  else do return (← parseI64 negative text, rest)

/-- The characters of an identifier. -/
def identifier (cls : CharClass) : List Char → List Char × List Char
  | [] => ([], [])
  | x :: cs =>
    if cls.isAlphabetic x || cls.isNumeric x || x = '_' then
      let (t, r) := identifier cls cs
      (x :: t, r)
    else ([], x :: cs)

/-- A name chain, once it is read: the literals, or the chain. -/
def nameOrLiteral (names : List String) : Result PyExpr :=
  match names with
  | ["True"] => .ok (.Bool true)
  | ["False"] => .ok (.Bool false)
  | ["None"] => .ok .None
  | "True" :: _ => refuse "attribute access on the literal True"
  | "False" :: _ => refuse "attribute access on the literal False"
  | "None" :: _ => refuse "attribute access on the literal None"
  | _ => .ok (.Name names)

/-- The error of a recursion that is cut off. -/
def outOfFuel {α : Type} : Result α := .error (.internal "expression nests deeper than its text")

mutual
/-- An expression: atoms joined by `+`. -/
def parseExpr (cls : CharClass) : ℕ → List Char → Result (PyExpr × List Char)
  | 0, _ => outOfFuel
  | fuel + 1, cs => do
    let (left, cs) ← parseAtom cls fuel cs
    parseSum cls fuel left cs

/-- What follows the left operand of a sum. -/
def parseSum (cls : CharClass) : ℕ → PyExpr → List Char → Result (PyExpr × List Char)
  | 0, _, _ => outOfFuel
  | fuel + 1, left, cs =>
    match skipWs false cs with
    | '+' :: cs => do
      let (right, cs) ← parseAtom cls fuel cs
      parseSum cls fuel (.Add left right) cs
    | cs => return (left, cs)

/-- An atom: a sequence, a string, a number or a name. -/
def parseAtom (cls : CharClass) : ℕ → List Char → Result (PyExpr × List Char)
  | 0, _ => outOfFuel
  | fuel + 1, cs =>
    match skipWs false cs with
    | [] => refuse "unexpected end of expression"
    | ch :: cs =>
      if ch = '[' then parseItems cls fuel ']' [] cs
      else if ch = '(' then parseItems cls fuel ')' [] cs
      else if ch = '\'' ∨ ch = '"' then do
        let (s, cs) ← parseString ch false [] cs
        return (.Str s, cs)
      else if ch = '-' ∨ ch.isDigit then parseNumber cls (ch :: cs)
      else if cls.isAlphabetic ch ∨ ch = '_' then parseNames cls fuel [] (ch :: cs)
      else refuse "unexpected character in expression"

/-- The items of a sequence, up to its closing bracket.  Without a comma, parentheses group one
expression. -/
def parseItems (cls : CharClass) : ℕ → Char → List PyExpr → List Char → Result (PyExpr × List Char)
  | 0, _, _, _ => outOfFuel
  | fuel + 1, close, items, cs =>
    let cs := skipWs false cs
    if cs.head? = some close then return (.Seq items, cs.drop 1)
    else do
      let (item, cs) ← parseExpr cls fuel cs
      let cs := skipWs false cs
      match cs.head?, items with
      | some ',', _ => parseItems cls fuel close (items ++ [item]) (cs.drop 1)
      | some ')', [] =>
        if close = ')' then return (item, cs.drop 1)
        else refuse "expected ',' or a closing bracket"
      | some x, _ =>
        if x = close then parseItems cls fuel close (items ++ [item]) cs
        else refuse "expected ',' or a closing bracket"
      | none, _ => refuse "expected ',' or a closing bracket"

/-- A chain of names joined by points, with `mapped('…')` steps starred; or one `ref('…')`. -/
def parseNames (cls : CharClass) : ℕ → List String → List Char → Result (PyExpr × List Char)
  | 0, _, _ => outOfFuel
  | fuel + 1, names, cs => do
    let (segment, cs) := identifier cls cs
    if segment = [] then refuse "expected identifier"
    else
      let seg := String.ofList segment
      if seg = "ref" ∧ names = [] ∧ cs.head? = some '(' then
        let (inner, cs) ← parseExpr cls fuel (cs.drop 1)
        let cs := skipWs false cs
        if cs.head? = some ')' then
          match inner with
          | .Str xmlid => return (.Ref xmlid, cs.drop 1)
          | _ => refuse "ref() takes a literal xml id"
        else refuse "ref() takes one xml id"
      else
        let (names, cs) ←
          if seg = "mapped" ∧ cs.head? = some '(' then do
            let (inner, cs) ← parseExpr cls fuel (cs.drop 1)
            let cs := skipWs false cs
            if cs.head? = some ')' then
              match inner with
              | .Str field => pure (names ++ (field.splitOn ".").map ("*" ++ ·), cs.drop 1)
              | _ => refuse "mapped() takes a field name"
            else refuse "expected ')' closing mapped("
          else pure (names ++ [seg], cs)
        if cs.head? = some '.' then parseNames cls fuel names (cs.drop 1)
        else return (← nameOrLiteral names, cs)
end

/-- **Read a Python expression.**  A character that is consumed opens three calls at most, so the
fuel outlasts the text. -/
def parsePy (cls : CharClass) (src : String) : Result PyExpr := do
  let chars := src.toList
  let (expr, cs) ← parseExpr cls (4 * chars.length + 4) chars
  if skipWs false cs = [] then return expr
  else refuse "trailing input in expression"

/-! ## Evaluating an expression -/

/-- What evaluation reads from the database for a principal: the value of a name chain, the record
an xml id names, the sum of two doubles, and the principal's partner and commercial partner. -/
structure Evaluator where
  resolveName : List String → Result Json
  resolveRef : String → Result ℤ
  addDoubles : ℚ → ℚ → Option ℚ
  accessPartner : Result (ℤ × ℤ)

/-- A double as a JSON value. -/
def floatJson : Option ℚ → Result Json
  | some q => .ok (.number (.float q))
  | none => refuse "non-finite rule value cannot be represented in JSON"

/-- The sum of two values. -/
def addValues (ev : Evaluator) : Json → Json → Result Json
  | .array x, .array y => .ok (.array (x ++ y))
  | .string x, .string y => .ok (.string (x ++ y))
  | .number x, .number y =>
    match x.asI64, y.asI64 with
    | some i, some j =>
      if -2 ^ 63 ≤ i + j ∧ i + j < 2 ^ 63 then .ok (.number (.int (i + j)))
      else refuse "rule integer addition overflows int8"
    | _, _ =>
      match x, y with
      | .float p, .float q => floatJson (ev.addDoubles p q)
      | .float p, .int j =>
        if (Number.int j).asI64 = none then refuse "rule addition contains an integer outside int8"
        else floatJson (ev.addDoubles p j)
      | .int i, .float q =>
        if (Number.int i).asI64 = none then refuse "rule addition contains an integer outside int8"
        else floatJson (ev.addDoubles i q)
      | .int _, .int _ => refuse "rule addition contains an integer outside int8"
  | _, _ => refuse "unsupported operands for +"

mutual
/-- The value of an expression for a principal. -/
def evalPy (ev : Evaluator) : PyExpr → Result Json
  | .Str s => .ok (.string s)
  | .Int i => .ok (.number (.int i))
  | .Float q => floatJson q
  | .Bool b => .ok (.bool b)
  | .None => .ok .null
  | .Seq items => do return .array (← evalItems ev items)
  | .Name chain => ev.resolveName chain
  | .Ref xmlid => do return .number (.int (← ev.resolveRef xmlid))
  | .Add a b => do
    let a ← evalPy ev a
    let b ← evalPy ev b
    addValues ev a b

/-- The values of the items of a sequence. -/
def evalItems (ev : Evaluator) : List PyExpr → Result (List Json)
  | [] => .ok []
  | e :: es => do
    let v ← evalPy ev e
    let vs ← evalItems ev es
    return v :: vs
end

end OdooKernel
