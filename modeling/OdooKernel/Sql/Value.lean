import OdooKernel.Core.Text
import OdooKernel.Domain.Json
import OdooKernel.Domain.Temporal
import OdooKernel.Sql.Truth

/-!
# The values of a database

What the values of columns are, and how the server compares them.  A value is one of the types that
the fields have; NULL is no value, and a comparison with it is unknown.

**What the server decides.**  The order of texts, the case and the accents of characters, and
conversions between types depend on its locale and its settings (`Server`), of which only what holds
everywhere is assumed: that the characters of ASCII are as they are in ASCII.

**Numbers.**  A double and a numeric may be no number, and then equal themselves and stand above or
below all numbers, as the server has it.

* `Datum` — a value of a column that is not NULL.
* `likeChars` — `LIKE`, on characters.
* `compareData` — the comparison operators, unknown where a side is NULL.
* `Json.text` and its kin — the operators on `jsonb`.
-/

namespace OdooKernel

/-- The doubles and numerics that are no number. -/
inductive NonFinite where
  | negInfinity
  | infinity
  | nan
deriving DecidableEq, Repr

/-- A value of a column. -/
inductive Datum where
  | int (n : ℤ)
  | double (q : ℚ)
  | numeric (q : ℚ)
  | nonFinite (d : NonFinite)
  | bool (b : Bool)
  | text (s : String)
  | date (d : Date)
  | timestamp (t : Instant)
  | json (j : Json)
deriving DecidableEq, Repr

/-- The rational a number of the database is. -/
def Datum.toRat? : Datum → Option ℚ
  | .int n => some n
  | .double q => some q
  | .numeric q => some q
  | _ => none

/-- Where a value of a numeric type stands: below the numbers, among them, or above. -/
def Datum.rank? : Datum → Option ℕ
  | .nonFinite .negInfinity => some 0
  | .nonFinite .infinity => some 2
  | .nonFinite .nan => some 3
  | d => d.toRat?.map fun _ => 1

/-- The text of a value that is no number. -/
def NonFinite.text : NonFinite → String
  | .negInfinity => "-Infinity"
  | .infinity => "Infinity"
  | .nan => "NaN"

/-- What the server's locale and its conversions decide. -/
structure Server where
  unaccentChar : Char → List Char
  unaccent_ascii : ∀ c : Char, c.toNat < 128 → unaccentChar c = [c]
  lowerChar : Char → Char
  lower_ascii : ∀ c : Char, c.toNat < 128 → lowerChar c = c.toLower
  precedes : String → String → Bool
  textOf : Datum → String
  ofText : String → String → Option Datum
  ofJson : String → Json → Option Datum
  toJson : Datum → Json
  toDouble : ℚ → ℚ
  trimmedText : ℚ → String
  numberText : Number → String

namespace Server

variable (server : Server)

/-- `unaccent`, a character at a time. -/
def unaccent (s : String) : String := String.ofList (s.toList.flatMap server.unaccentChar)

/-- The characters in the case that `ILIKE` compares them in. -/
def lower (cs : List Char) : List Char := cs.map server.lowerChar

/-- A server that changes no character but the case of ASCII, and orders texts by their
characters. -/
def plain : Server where
  unaccentChar c := [c]
  unaccent_ascii _ _ := rfl
  lowerChar := Char.toLower
  lower_ascii _ _ := rfl
  precedes a b := decide (a.toList < b.toList)
  textOf
    | .text s => s
    | _ => ""
  ofText _ s := some (.text s)
  ofJson _ _ := none
  toJson _ := .null
  toDouble q := q
  trimmedText _ := ""
  numberText _ := ""

end Server

/-! ## Comparisons -/

/-- The operators that compare two values. -/
inductive Comparison where
  | eq
  | lt
  | gt
  | le
  | ge
deriving DecidableEq, Repr

/-- Two values are equal; what is no number equals itself. -/
def Datum.equals (a b : Datum) : Bool :=
  match a.toRat?, b.toRat? with
  | some p, some q => p = q
  | _, _ => a = b

/-- One value is before another. -/
def Datum.before (server : Server) (a b : Datum) : Bool :=
  match a.toRat?, b.toRat? with
  | some p, some q => p < q
  | _, _ =>
    match a.rank?, b.rank? with
    | some i, some j => i < j
    | _, _ =>
      match a, b with
      | .bool x, .bool y => !x && y
      | .text x, .text y => server.precedes x y
      | .date x, .date y => x < y
      | .timestamp x, .timestamp y => x < y
      | _, _ => false

/-- The order of a type is total: one value is not before another exactly when it is equal or
after it. -/
def Comparison.holds (server : Server) (a b : Datum) : Comparison → Bool
  | .eq => a.equals b
  | .lt => a.before server b
  | .gt => b.before server a
  | .le => !b.before server a
  | .ge => !a.before server b

/-- A comparison with NULL is unknown. -/
def compareData (server : Server) (op : Comparison) : Option Datum → Option Datum → Truth
  | some a, some b => some (op.holds server a b)
  | _, _ => none

/-! ## Patterns -/

/-- `LIKE`: `%` is any text, `_` any character, and a backslash takes the next character as it is.
A pattern that ends in a backslash, which the server rejects, matches nothing. -/
def likeChars : List Char → List Char → Bool
  | [], text => text.isEmpty
  | '%' :: pattern, text => text.tails.any (likeChars pattern)
  | '_' :: pattern, text =>
    match text with
    | [] => false
    | _ :: text => likeChars pattern text
  | '\\' :: c :: pattern, text =>
    match text with
    | [] => false
    | d :: text => d = c && likeChars pattern text
  | ['\\'], _ => false
  | c :: pattern, text =>
    match text with
    | [] => false
    | d :: text => d = c && likeChars pattern text

/-- `LIKE` and `ILIKE` of two texts. -/
def matchesPattern (server : Server) (insensitive : Bool) (text pattern : String) : Bool :=
  if insensitive then likeChars (server.lower pattern.toList) (server.lower text.toList)
  else likeChars pattern.toList text.toList

/-- A match with NULL, and a match of what is no text, is unknown. -/
def likeData (server : Server) (insensitive : Bool) : Option Datum → Option Datum → Truth
  | some (.text text), some (.text pattern) =>
    some (matchesPattern server insensitive text pattern)
  | _, _ => none

/-! ## `jsonb` -/

/-- A hexadecimal digit. -/
def hexDigit (n : ℕ) : Char := if n < 10 then Char.ofNat (48 + n) else Char.ofNat (87 + n)

/-- A character of a JSON string. -/
def jsonEscapeChar (c : Char) : List Char :=
  if c = '"' then ['\\', '"']
  else if c = '\\' then ['\\', '\\']
  else if c.toNat = 8 then ['\\', 'b']
  else if c.toNat = 12 then ['\\', 'f']
  else if c = '\n' then ['\\', 'n']
  else if c = '\r' then ['\\', 'r']
  else if c = '\t' then ['\\', 't']
  else if c.toNat < 32 then
    ['\\', 'u', '0', '0', hexDigit (c.toNat / 16), hexDigit (c.toNat % 16)]
  else [c]

/-- The characters of a JSON string between its quotes. -/
def jsonEscape (cs : List Char) : List Char := cs.flatMap jsonEscapeChar

/-- A JSON string with its quotes. -/
def jsonQuoted (s : String) : List Char := '"' :: jsonEscape s.toList ++ ['"']

mutual
/-- The text of a `jsonb` value. -/
def Json.text (server : Server) : Json → List Char
  | .null => "null".toList
  | .bool b => (if b then "true" else "false").toList
  | .number n => (server.numberText n).toList
  | .string s => jsonQuoted s
  | .array items => '[' :: [',', ' '].intercalate (Json.texts server items) ++ [']']
  | .object fields => '{' :: [',', ' '].intercalate (Json.fieldTexts server fields) ++ ['}']

/-- The texts of some values. -/
def Json.texts (server : Server) : List Json → List (List Char)
  | [] => []
  | j :: js => Json.text server j :: Json.texts server js

/-- The texts of some fields. -/
def Json.fieldTexts (server : Server) : List (String × Json) → List (List Char)
  | [] => []
  | (k, j) :: js => (jsonQuoted k ++ ':' :: ' ' :: Json.text server j) :: Json.fieldTexts server js
end

/-- `->`: the value under a key. -/
def Json.at? (key : String) : Json → Option Json
  | .object fields => (fields.find? (·.1 = key)).map (·.2)
  | _ => none

/-- A `jsonb` value as text: a string without its quotes, and no text for `null`. -/
def Json.unquoted (server : Server) : Json → Option String
  | .null => none
  | .string s => some s
  | j => some (String.ofList (j.text server))

/-- `->> 0`: the first item of an array; a scalar counts as its own first item. -/
def Json.firstText (server : Server) : Json → Option String
  | .array items => items.head?.bind (Json.unquoted server)
  | .object _ => none
  | j => j.unquoted server

/-- `jsonb_path_query_array(.., '$.*')`: the values of an object. -/
def Json.values : Json → List Json
  | .object fields => fields.map (·.2)
  | _ => []

end OdooKernel
