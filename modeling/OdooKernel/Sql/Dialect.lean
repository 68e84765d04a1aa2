import OdooKernel.Core.Error
import OdooKernel.Domain.Calendar
import OdooKernel.Sql.Lexing
import OdooKernel.Sql.Value

/-!
# Rendered SQL in the dialect of the persistence port

The query builder numbers its placeholders, `$1` and on, and may name one value twice; the port wants
`%s`, one parameter for each, and every other percent sign doubled.

**Reading.**  A placeholder is one where no quoted text, identifier or comment is and no identifier
goes on; all that is told at a position (`readSql`), so that what comes out can be compared with what
was read.

**Values.**  Each placeholder sends the value that it names, in text order.  What the form of a value
has to be is a relation of its own (`JsonForm`), whatever the port computes: numbers, booleans and
strings as they are, days and instants as objects that name what their text is, and null for NULL.

* `valueToJson` — a bound value as it is sent.
* `toOdooDialect` — the text with `%s` for its placeholders, and their values in text order.
* `renumbered` — the same text with its placeholders numbered in text order.
-/

namespace OdooKernel

/-! ## Reading SQL -/

/-- What stands at a position of SQL. -/
inductive Lexeme where
  | region (kind : Kind) (terminated : Bool) (text : List Char)
  | bound (digits : List Char)
  | plain (c : Char)
deriving DecidableEq, Repr

/-- The characters that were read. -/
def Lexeme.text : Lexeme → List Char
  | .region _ _ text => text
  | .bound digits => '$' :: digits
  | .plain c => [c]

/-- A dollar sign binds a value where digits follow it, outside the regions and not within an
identifier. -/
def readSql : Scanner Char Lexeme := fun before c cs =>
  match opaqueAt before c cs with
  | some o => (o.more, .region o.kind o.terminated (c :: cs.take o.more))
  | none =>
    if c = '$' ∧ ¬ afterIdent before ∧ cs.head?.any Char.isDigit then
      let digits := cs.takeWhile Char.isDigit
      (digits.length, .bound digits)
    else (0, .plain c)

/-- A text of SQL as the kernel reads it. -/
def lexemes (sql : List Char) : List Lexeme := scan readSql 0 none sql

/-! ## Bound values -/

/-- A double: a rational, or none. -/
inductive Double where
  | finite (q : ℚ)
  | nonFinite (d : NonFinite)
deriving DecidableEq, Repr

/-- The elements of an array. -/
inductive ArrayType where
  | bigInt
  | string
  | other (name : String)
deriving DecidableEq, Repr

/-- The values the query builder binds; an instant is in nanoseconds. -/
inductive BoundValue where
  | bool (v : Option Bool)
  | tinyInt (v : Option ℤ)
  | smallInt (v : Option ℤ)
  | int (v : Option ℤ)
  | bigInt (v : Option ℤ)
  | double (v : Option Double)
  | float (v : Option Double)
  | string (v : Option String)
  | chronoDate (v : Option Date)
  | chronoDateTime (v : Option ℤ)
  | array (elements : ArrayType) (v : Option (List BoundValue))
  | other (kind : String)
deriving Repr

/-- JSON has no number for a double that is none. -/
def Double.json : Double → Json
  | .finite q => .number (.float q)
  | .nonFinite _ => .null

/-- The part of a second, in as many digits as it takes of three, six or nine. -/
def fractionText (nanos : ℕ) : List Char :=
  if nanos = 0 then []
  else if nanos % 1000000 = 0 then '.' :: padded 3 (nanos / 1000000)
  else if nanos % 1000 = 0 then '.' :: padded 6 (nanos / 1000)
  else '.' :: padded 9 nanos

/-- An instant in nanoseconds as `%Y-%m-%d %H:%M:%S%.f`. -/
def nanosText (t : ℤ) : String :=
  Instant.text (t / 1000) ++ String.ofList (fractionText (t % 1000000000).toNat)

mutual
/-- A bound value as it is sent. -/
def valueToJson : BoundValue → Result Json
  | .bool v => .ok (v.elim .null .bool)
  | .tinyInt v | .smallInt v | .int v | .bigInt v => .ok (v.elim .null fun n => .number (.int n))
  | .double v | .float v => .ok (v.elim .null Double.json)
  | .string v => .ok (v.elim .null .string)
  | .chronoDate v => .ok (v.elim .null fun d => .object [("__date__", .string d.text)])
  | .chronoDateTime v =>
    .ok (v.elim .null fun t => .object [("__datetime__", .string (nanosText t))])
  | .array _ none => .ok .null
  | .array _ (some items) => do return .array (← valuesToJson items)
  | .other kind => refuse s!"a bound value of kind {kind} has no wire form for the port"

/-- The items of an array, up to the first that has no form. -/
def valuesToJson : List BoundValue → Result (List Json)
  | [] => .ok []
  | v :: vs => do return (← valueToJson v) :: (← valuesToJson vs)
end

/-! ## The port's dialect -/

/-- Every percent sign twice. -/
def doubled (text : List Char) : List Char :=
  text.flatMap fun c => if c = '%' then ['%', '%'] else [c]

/-- An index of the size of a machine word. -/
def parseIndex (digits : List Char) : Result ℕ :=
  if digitsValue digits < 2 ^ 64 then .ok (digitsValue digits)
  else .error (.internal "number too large to fit in target type")

/-- The value a placeholder names. -/
def boundValue (values : List BoundValue) (index : ℕ) : Option BoundValue :=
  if index = 0 then none else values[index - 1]?

/-- What a reading becomes, and the parameter it binds. -/
def dialectOf (sql : List Char) (values : List BoundValue) :
    Lexeme → Result (List Char × List Json)
  | .region _ false _ =>
    refuse s!"unterminated quoted text or comment in rendered SQL: {String.ofList sql}"
  | .region _ true text => .ok (doubled text, [])
  | .plain c => .ok (doubled [c], [])
  | .bound digits => do
    let index ← parseIndex digits
    let value ← orRefuse s!"placeholder ${index} has no value among {values.length}"
      (boundValue values index)
    let param ← valueToJson value
    return (['%', 's'], [param])

/-- The text in the port's dialect, and its parameters. -/
def toOdooDialect (sql : List Char) (values : List BoundValue) :
    Result (List Char × List Json) := do
  let parts ← (lexemes sql).mapM (dialectOf sql values)
  return (parts.flatMap Prod.fst, parts.flatMap Prod.snd)

/-! ## What it stands for -/

/-- A bound NULL, of any kind. -/
def BoundValue.isNull : BoundValue → Bool
  | .bool v => v.isNone
  | .tinyInt v | .smallInt v | .int v | .bigInt v | .chronoDate v | .chronoDateTime v => v.isNone
  | .double v | .float v => v.isNone
  | .string v => v.isNone
  | .array _ v => v.isNone
  | .other _ => false

/-- A bound integer, of any width. -/
def BoundValue.integer? : BoundValue → Option ℤ
  | .tinyInt v | .smallInt v | .int v | .bigInt v => v
  | _ => none

/-- A bound double, of either width. -/
def BoundValue.double? : BoundValue → Option Double
  | .double v | .float v => v
  | _ => none

/-- **The JSON form of a bound value**: numbers, booleans and strings as they are, a day and an instant
as an object that names what its text is, an array item by item, and null for a NULL and for a double
that JSON has no number for. -/
inductive JsonForm : BoundValue → Json → Prop where
  | null {v : BoundValue} (h : v.isNull = true) : JsonForm v .null
  | bool (b : Bool) : JsonForm (.bool (some b)) (.bool b)
  | integer {v : BoundValue} {n : ℤ} (h : v.integer? = some n) : JsonForm v (.number (.int n))
  | double {v : BoundValue} {q : ℚ} (h : v.double? = some (.finite q)) :
      JsonForm v (.number (.float q))
  | noNumber {v : BoundValue} {d : NonFinite} (h : v.double? = some (.nonFinite d)) :
      JsonForm v .null
  | string (s : String) : JsonForm (.string (some s)) (.string s)
  | day (d : Date) : JsonForm (.chronoDate (some d)) (.object [("__date__", .string d.text)])
  | instant (t : ℤ) :
      JsonForm (.chronoDateTime (some t)) (.object [("__datetime__", .string (nanosText t))])
  | array {elements : ArrayType} {items : List BoundValue} {forms : List Json}
      (h : List.Forall₂ JsonForm items forms) :
      JsonForm (.array elements (some items)) (.array forms)

/-- The digits of a placeholder. -/
def Lexeme.bound? : Lexeme → Option (List Char)
  | .bound digits => some digits
  | _ => none

/-- The values the placeholders name, in text order. -/
def boundIndices (rs : List Lexeme) : List ℕ := (rs.filterMap Lexeme.bound?).map digitsValue

/-- A placeholder of a number. -/
def placeholder (n : ℕ) : List Char := '$' :: Nat.toDigits 10 n

/-- The text with its placeholders numbered in text order, behind `n` of them. -/
def renumbered : ℕ → List Lexeme → List Char
  | _, [] => []
  | n, .bound _ :: rs => placeholder (n + 1) ++ renumbered (n + 1) rs
  | n, r :: rs => r.text ++ renumbered n rs

mutual
/-- A value is sent in its JSON form. -/
lemma jsonForm_of_valueToJson : ∀ {v : BoundValue} {form : Json}, valueToJson v = .ok form →
    JsonForm v form
  | .bool v, form, h => by
    obtain rfl := Except.ok.inj h
    cases v with
    | none => exact .null rfl
    | some b => exact .bool b
  | .tinyInt v, form, h | .smallInt v, form, h | .int v, form, h | .bigInt v, form, h => by
    obtain rfl := Except.ok.inj h
    cases v with
    | none => exact .null rfl
    | some n => exact .integer rfl
  | .double v, form, h | .float v, form, h => by
    obtain rfl := Except.ok.inj h
    match v with
    | none => exact .null rfl
    | some (.finite q) => exact .double rfl
    | some (.nonFinite d) => exact .noNumber rfl
  | .string v, form, h => by
    obtain rfl := Except.ok.inj h
    cases v with
    | none => exact .null rfl
    | some s => exact .string s
  | .chronoDate v, form, h => by
    obtain rfl := Except.ok.inj h
    cases v with
    | none => exact .null rfl
    | some d => exact .day d
  | .chronoDateTime v, form, h => by
    obtain rfl := Except.ok.inj h
    cases v with
    | none => exact .null rfl
    | some t => exact .instant t
  | .array elements none, form, h => by
    obtain rfl := Except.ok.inj h
    exact .null rfl
  | .array elements (some items), form, h => by
    rw [valueToJson] at h
    obtain ⟨forms, hforms, h⟩ := bind_eq_ok.mp h
    obtain rfl := pure_eq_ok.mp h
    exact .array (jsonForms_of_valuesToJson hforms)
  | .other kind, form, h => by
    rw [valueToJson] at h
    simp at h

lemma jsonForms_of_valuesToJson : ∀ {vs : List BoundValue} {forms : List Json},
    valuesToJson vs = .ok forms → List.Forall₂ JsonForm vs forms
  | [], forms, h => by
    obtain rfl := Except.ok.inj h
    exact .nil
  | v :: vs, forms, h => by
    rw [valuesToJson] at h
    obtain ⟨form, hform, h⟩ := bind_eq_ok.mp h
    obtain ⟨rest, hrest, h⟩ := bind_eq_ok.mp h
    obtain rfl := pure_eq_ok.mp h
    exact .cons (jsonForm_of_valueToJson hform) (jsonForms_of_valuesToJson hrest)
end

/-- Reading loses nothing of the text. -/
lemma flatMap_lexemes (sql : List Char) : (lexemes sql).flatMap Lexeme.text = sql := by
  refine flatMap_scan (fun before c cs => ?_) sql 0 none
  unfold readSql
  split
  · rfl
  · split
    · simp only [Lexeme.text, List.cons.injEq]
      exact ⟨by simp_all, List.prefix_iff_eq_take.mp (List.takeWhile_prefix _)⟩
    · rfl

end OdooKernel
