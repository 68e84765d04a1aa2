import OdooKernel.Domain.Calendar
import OdooKernel.Registry.Model
import OdooKernel.Sql.Value

/-!
# Cells

The values of a row become cells of JSON, by the kind of the field that they are read for, and the
rows of cells a text that is written piece by piece.

**Cells.**  An unset value is false in a record, or the zero of a number or a boolean; as the key of
a group it is false whatever the kind.  Doubles that are no number have no form in JSON and become
null, and they are the only values that a key confuses (`KeyOf.inj`).

**Texts.**  The names of the columns are written once, as fragments that stand before the cells; the
text that comes out is that of the array of the records (`recordsToJson_eq`).

* `ColKind`, `colKind` — how a column is decoded.
* `decode`, `decodeGroup` — the cell of a value, in a record and as the key of a group.
* `Json.written`, `recordsToJson` — a value as a text, and the text of some records.
-/

namespace OdooKernel

/-! ## Decoding -/

/-- How a column is decoded. -/
inductive ColKind where
  | IntZero
  | Float
  | Bool
  | Str
  | Date
  | Datetime
  | M2o (comodel : String)
  | JsonRaw
deriving DecidableEq, Repr

/-- The kind of a field's column. -/
def colKind (field : Field) : Result ColKind :=
  match field.ttype with
  | .Integer | .Many2oneReference => .ok .IntZero
  | .Float | .Monetary => .ok .Float
  | .Boolean => .ok .Bool
  | .Char | .Text | .Html | .Selection => .ok .Str
  | .Date => .ok .Date
  | .Datetime => .ok .Datetime
  | .Many2one => .ok (.M2o (field.relation.getD ""))
  | .Json => .ok .JsonRaw
  | _ => refuse ("field " ++ field.name ++ " of unsupported type for read")

/-- The types of the fields that JSON and booleans are read of. -/
lemma ttype_of_colKind {field : Field} {kind : ColKind} (h : colKind field = .ok kind) :
    (kind = .JsonRaw → field.ttype = .Json) ∧ (kind = .Bool → field.ttype = .Boolean) := by
  unfold colKind at h
  split at h
  all_goals first
    | obtain rfl := Except.ok.inj h
      simp_all
    | simp at h

/-- An integer as JSON. -/
def Json.int (n : ℤ) : Json := .number (.int n)

/-- What a column of another type than the kind's is. -/
def wrongType : Result Json := .error (.internal "error deserializing column")

/-- **The cell of a value**: an unset one is false, or the zero of a number or a boolean.  A double
that is no number has no JSON form and becomes null. -/
def decode : ColKind → Option Datum → Result Json
  | .IntZero, some (.int n) => .ok (.int n)
  | .IntZero, none => .ok (.int 0)
  | .Float, some (.double q) => .ok (.number (.float q))
  | .Float, some (.nonFinite _) => .ok .null
  | .Float, none => .ok (.number (.float 0))
  | .Bool, some (.bool b) => .ok (.bool b)
  | .Str, some (.text s) => .ok (.string s)
  | .Date, some (.date d) => .ok (.string d.text)
  | .Datetime, some (.timestamp t) => .ok (.string t.preciseText)
  | .M2o _, some (.int n) => .ok (.int n)
  | .JsonRaw, some (.json j) => .ok j
  | .Bool, none | .Str, none | .Date, none | .Datetime, none | .M2o _, none | .JsonRaw, none =>
    .ok (.bool false)
  | _, _ => wrongType

/-- **The key of a group**: an unset one is false, also where a cell would be zero. -/
def decodeGroup (kind : ColKind) (d : Option Datum) : Result Json :=
  match kind, d with
  | .IntZero, none | .Float, none | .Bool, none => .ok (.bool false)
  | kind, d => decode kind d

/-- Two values that JSON does not tell apart: both are doubles that are no number. -/
def Confused (d d' : Option Datum) : Prop :=
  ∃ x x', d = some (.nonFinite x) ∧ d' = some (.nonFinite x')

lemma decodeGroup_none (kind : ColKind) : decodeGroup kind none = .ok (.bool false) := by
  cases kind <;> rfl

lemma decodeGroup_some (kind : ColKind) (d : Datum) :
    decodeGroup kind (some d) = decode kind (some d) := by
  cases kind <;> rfl

/-- The key that a kind gives to a value of its own type. -/
inductive KeyOf : ColKind → Option Datum → Json → Prop where
  | unset (kind : ColKind) : KeyOf kind none (.bool false)
  | int (n : ℤ) : KeyOf .IntZero (some (.int n)) (.int n)
  | double (q : ℚ) : KeyOf .Float (some (.double q)) (.number (.float q))
  | nonFinite (x : NonFinite) : KeyOf .Float (some (.nonFinite x)) .null
  | bool (b : Bool) : KeyOf .Bool (some (.bool b)) (.bool b)
  | text (s : String) : KeyOf .Str (some (.text s)) (.string s)
  | date (d : Date) : KeyOf .Date (some (.date d)) (.string d.text)
  | timestamp (t : Instant) : KeyOf .Datetime (some (.timestamp t)) (.string t.preciseText)
  | record (comodel : String) (n : ℤ) : KeyOf (.M2o comodel) (some (.int n)) (.int n)

lemma keyOf_decodeGroup {kind : ColKind} (hkind : kind ≠ .JsonRaw) {d : Option Datum} {j : Json}
    (h : decodeGroup kind d = .ok j) : KeyOf kind d j := by
  cases d with
  | none =>
      rw [decodeGroup_none] at h
      obtain rfl := Except.ok.inj h
      exact .unset kind
  | some d =>
      rw [decodeGroup_some] at h
      cases kind <;> cases d <;> simp only [decode, wrongType, reduceCtorEq, Except.ok.injEq] at h
      all_goals subst h
      all_goals first
        | constructor
        | exact absurd rfl hkind

/-- **Two values with one key are one**, or doubles that are no number.  A boolean is never unset
here: NULL counts as false before the grouping. -/
lemma KeyOf.inj {kind : ColKind} {d d' : Option Datum} {j : Json} (h : KeyOf kind d j)
    (h' : KeyOf kind d' j) (hbool : kind = .Bool → d ≠ none ∧ d' ≠ none) :
    d = d' ∨ Confused d d' := by
  cases h with
  | unset =>
      cases h' with
      | unset => exact .inl rfl
      | bool => exact absurd rfl (hbool rfl).1
  | int => cases h'; exact .inl rfl
  | double => cases h'; exact .inl rfl
  | nonFinite x => cases h' with | nonFinite x' => exact .inr ⟨x, x', rfl, rfl⟩
  | bool =>
      cases h' with
      | unset => exact absurd rfl (hbool rfl).2
      | bool => exact .inl rfl
  | text => cases h'; exact .inl rfl
  | date day =>
      generalize hday : day.text = s at h'
      cases h' with
      | date day' => exact .inl (by rw [Date.text_injective hday])
  | timestamp t =>
      generalize ht : t.preciseText = s at h'
      cases h' with
      | timestamp t' => exact .inl (by rw [Instant.preciseText_injective ht])
  | record => cases h'; exact .inl rfl

/-- Doubles that are no number share a key. -/
lemma KeyOf.of_confused {kind : ColKind} {d d' : Option Datum} {j : Json} (h : KeyOf kind d j)
    (hconfused : Confused d d') : KeyOf kind d' j := by
  obtain ⟨x, x', rfl, rfl⟩ := hconfused
  cases h with
  | nonFinite => exact .nonFinite x'

/-- No key is an array. -/
lemma KeyOf.not_isArray {kind : ColKind} {d : Option Datum} {j : Json} (h : KeyOf kind d j) :
    j.isArray = false := by
  cases h <;> rfl

/-! ## Texts -/

section Written

variable (printNumber : Number → List Char)

mutual
/-- The text of a value, without spaces. -/
def Json.written : Json → List Char
  | .null => "null".toList
  | .bool b => (if b then "true" else "false").toList
  | .number n => printNumber n
  | .string s => jsonQuoted s
  | .array items => '[' :: [','].intercalate (Json.writtenItems items) ++ [']']
  | .object fields => '{' :: [','].intercalate (Json.writtenFields fields) ++ ['}']

/-- The texts of some values. -/
def Json.writtenItems : List Json → List (List Char)
  | [] => []
  | j :: js => Json.written j :: Json.writtenItems js

/-- The texts of some fields, each with its name. -/
def Json.writtenFields : List (String × Json) → List (List Char)
  | [] => []
  | (name, j) :: js => (jsonQuoted name ++ ':' :: Json.written j) :: Json.writtenFields js
end

/-- What stands before the cells of a column in each record. -/
def keyFragment (first : Bool) (name : String) : List Char :=
  (if first then '{' else ',') :: jsonQuoted name ++ [':']

/-- What stands before each cell. -/
def keyFragments : List String → List (List Char)
  | [] => []
  | name :: names => keyFragment true name :: names.map (keyFragment false)

/-- The text of a record, cell after cell. -/
def recordChars (frags : List (List Char)) (record : List Json) : Result (List Char) :=
  if record.length ≠ frags.length then
    .error (.internal ("row has " ++ toString record.length ++ " cells for " ++ toString frags.length
      ++ " names"))
  else
    .ok ((if record.isEmpty then ['{'] else [])
      ++ (frags.zip record).flatMap (fun (frag, cell) => frag ++ cell.written printNumber) ++ ['}'])

/-- The texts of some records, with a comma before each but the first. -/
def recordsChars (frags : List (List Char)) (first : Bool) : List (List Json) → Result (List Char)
  | [] => .ok []
  | record :: records => do
    let chars ← recordChars printNumber frags record
    let rest ← recordsChars frags false records
    return (if first then [] else [',']) ++ chars ++ rest

/-- **The text of some records**, written with the names of the columns in fragments. -/
def recordsToJson (names : List String) (cells : List (List Json)) : Result (List Char) := do
  let chars ← recordsChars printNumber (keyFragments names) true cells
  return '[' :: chars ++ [']']

/-! ## The text of some records -/

/-- The record of some cells. -/
def recordOfCells (names : List String) (record : List Json) : Json := .object (names.zip record)

lemma intercalate_cons (sep : Char) (x : List Char) (xs : List (List Char)) :
    [sep].intercalate (x :: xs) = x ++ xs.flatMap (sep :: ·) := by
  induction xs generalizing x with
  | nil => simp [List.intercalate]
  | cons y ys ih =>
      have hrest := ih y
      simp only [List.intercalate] at hrest ⊢
      rw [List.intersperse_cons_cons, List.flatten_cons, List.flatten_cons, hrest]
      simp

lemma length_keyFragments (names : List String) : (keyFragments names).length = names.length := by
  cases names with
  | nil => rfl
  | cons name names => simp [keyFragments]

variable {printNumber}

/-- The cells after the first, each after a comma and its name. -/
lemma laterCells : ∀ {names : List String} {record : List Json},
    ((names.map (keyFragment false)).zip record).flatMap
        (fun (frag, cell) => frag ++ cell.written printNumber)
      = (Json.writtenFields printNumber (names.zip record)).flatMap (',' :: ·)
  | [], record => by simp [Json.writtenFields]
  | name :: names, [] => by simp [Json.writtenFields]
  | name :: names, cell :: record => by
      rw [List.map_cons, List.zip_cons_cons, List.flatMap_cons, laterCells, List.zip_cons_cons,
        Json.writtenFields, List.flatMap_cons]
      simp [keyFragment]

/-- **The text of a record** is that of an object. -/
lemma recordChars_eq {names : List String} {record : List Json} (h : record.length = names.length) :
    recordChars printNumber (keyFragments names) record
      = .ok ((recordOfCells names record).written printNumber) := by
  rw [recordChars, if_neg (by rw [length_keyFragments]; exact not_not_intro h)]
  cases names with
  | nil =>
      obtain rfl := List.length_eq_zero_iff.mp h
      simp [recordOfCells, Json.written, Json.writtenFields, keyFragments, List.intercalate]
  | cons name names =>
      cases record with
      | nil => simp at h
      | cons cell record =>
          rw [keyFragments, List.zip_cons_cons, List.flatMap_cons, laterCells, recordOfCells,
            List.zip_cons_cons, Json.written, Json.writtenFields, intercalate_cons]
          simp [keyFragment]

lemma recordsChars_later {names : List String} : ∀ {cells : List (List Json)},
    (∀ record ∈ cells, record.length = names.length) →
    recordsChars printNumber (keyFragments names) false cells
      = .ok ((Json.writtenItems printNumber (cells.map (recordOfCells names))).flatMap (',' :: ·))
  | [], _ => rfl
  | record :: cells, h => by
      obtain ⟨hrecord, hcells⟩ := List.forall_mem_cons.mp h
      rw [recordsChars, recordChars_eq hrecord, recordsChars_later hcells]
      rfl

/-- **The text of some records** is that of the array of their objects. -/
lemma recordsToJson_eq {names : List String} {cells : List (List Json)}
    (h : ∀ record ∈ cells, record.length = names.length) :
    recordsToJson printNumber names cells
      = .ok ((Json.array (cells.map (recordOfCells names))).written printNumber) := by
  cases cells with
  | nil => rfl
  | cons record cells =>
      obtain ⟨hrecord, hcells⟩ := List.forall_mem_cons.mp h
      rw [recordsToJson, recordsChars, recordChars_eq hrecord, recordsChars_later hcells, List.map_cons,
        Json.written, Json.writtenItems, intercalate_cons]
      rfl

end Written

end OdooKernel
