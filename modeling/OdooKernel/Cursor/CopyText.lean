import OdooKernel.Cursor.Vectors

/-!
# The text of a row that is copied

A row is sent to COPY as a line of fields between tabs.  A list becomes the text of an array.

**Python's part.**  The texts that Python itself gives to a value, those of a float, a date or any
other object, stand for the value and may be missing: `PyValue` keeps them as they come, and what is
said of texts is said of the values whose text needs nothing from Python.

**The server's part.**  `readCopy` is written from the documentation of COPY's text format and not
from the code that writes it: lines, fields between tabs, escapes with octal and hexadecimal digits,
the marker of NULL, known before the escapes are taken out, and the marker of the end of the data.

**What a text has to be.**  `PyValue.HasText` says it without the function that computes it, from the
text forms of the server's own types; so a function that sent NULL, or an empty text, for every value
would have no such text.

* `PyValue` — what a row holds.
* `pyToCopyText`, `pySeqToArrayLiteral` — the text of a value, and of a list as an array.
* `copyTextEscape`, `copyLine` — a field with its special characters escaped, and a line.
* `readCopy` — how the server reads the text format of COPY.
* `PyValue.HasText` — the text form that a value is to have, whatever Python computes.
* `readCopy_lineOf` — a line is read as one row of the fields it was made of.
-/

namespace OdooKernel

/-- Why a value has no text: what Python raised. -/
structure PyError where
  message : String
deriving DecidableEq, Repr

abbrev PyResult (α : Type) := Except PyError α

/-- What a row holds.  The texts that Python itself gives to a value stand for it, and may be
missing. -/
inductive PyValue where
  | none
  | json (text : PyResult (List Char))
  | bool (b : Bool)
  | bytes (raw : List UInt8)
  | int (n : ℤ)
  | float (text : PyResult (List Char))
  | str (cs : List Char)
  | sequence (items : List PyValue)
  | dict (json : PyResult (List Char))
  | other (text : PyResult (List Char))

/-! ## Texts of values -/

/-- A digit of base sixteen. -/
def lowerHex (n : ℕ) : Char := Nat.digitChar n

/-- Bytes in base sixteen, behind what they start with. -/
def hexText (start : List Char) (raw : List UInt8) : List Char :=
  start ++ raw.flatMap fun b => [lowerHex (b.toNat / 16), lowerHex (b.toNat % 16)]

/-- Two texts are equal, whatever the case of their letters. -/
def eqIgnoreAsciiCase (a b : List Char) : Bool := a.map Char.toLower = b.map Char.toLower

/-- A text that an array holds between quotes. -/
def needsQuotes (rendered : List Char) : Bool :=
  rendered = [] || eqIgnoreAsciiCase rendered "null".toList ||
    rendered.any fun c => ['{', '}', ',', '"', '\\'].contains c || isWhitespace c

/-- A text between quotes. -/
def quotedItem (rendered : List Char) : List Char :=
  '"' :: (rendered.flatMap fun c => if c = '"' ∨ c = '\\' then ['\\', c] else [c]) ++ ['"']

/-- A text as an array holds it. -/
def arrayItem (rendered : List Char) : List Char :=
  if needsQuotes rendered then quotedItem rendered else rendered

/-- Items between braces. -/
def inBraces (items : List (List Char)) : List Char := '{' :: [','].intercalate items ++ ['}']

mutual
/-- The text of a value; none is NULL. -/
def pyToCopyText : PyValue → PyResult (Option (List Char))
  | .none => .ok none
  | .json text => text.map some
  | .bool b => .ok (some (if b then ['t'] else ['f']))
  | .bytes raw => .ok (some (hexText ['\\', 'x'] raw))
  | .int n => .ok (some (intDigits n))
  | .float text => text.map some
  | .str cs => .ok (some cs)
  | .sequence items => (arrayItems items).map fun texts => some (inBraces texts)
  | .dict json => json.map some
  | .other text => text.map some

/-- The items of a list, as an array holds them. -/
def arrayItems : List PyValue → PyResult (List (List Char))
  | [] => .ok []
  | .none :: rest => (arrayItems rest).map ("NULL".toList :: ·)
  | .sequence items :: rest => do
    let texts ← arrayItems items
    (arrayItems rest).map (inBraces texts :: ·)
  | item :: rest => do
    let rendered ← pyToCopyText item
    match rendered with
    | some text => (arrayItems rest).map (arrayItem text :: ·)
    | none => (arrayItems rest).map ("NULL".toList :: ·)
end

/-- The text of a list as an array. -/
def pySeqToArrayLiteral (items : List PyValue) : PyResult (List Char) :=
  (arrayItems items).map inBraces

/-- A value as an array holds it. -/
def itemText : PyValue → PyResult (List Char)
  | .none => .ok "NULL".toList
  | .sequence items => (arrayItems items).map inBraces
  | item => (pyToCopyText item).map fun rendered =>
    match rendered with
    | some text => arrayItem text
    | none => "NULL".toList

lemma arrayItems_cons (item : PyValue) (rest : List PyValue) :
    arrayItems (item :: rest) = (do
      let text ← itemText item
      let texts ← arrayItems rest
      .ok (text :: texts)) := by
  cases item with
  | none =>
      rw [arrayItems]
      rfl
  | sequence items =>
      rw [arrayItems, itemText]
      cases arrayItems items with
      | error e => rfl
      | ok texts => rfl
  | json text =>
      rw [arrayItems, itemText, pyToCopyText]
      · cases text with
        | error e => rfl
        | ok text => rfl
      all_goals simp
  | float text =>
      rw [arrayItems, itemText, pyToCopyText]
      · cases text with
        | error e => rfl
        | ok text => rfl
      all_goals simp
  | dict text =>
      rw [arrayItems, itemText, pyToCopyText]
      · cases text with
        | error e => rfl
        | ok text => rfl
      all_goals simp
  | other text =>
      rw [arrayItems, itemText, pyToCopyText]
      · cases text with
        | error e => rfl
        | ok text => rfl
      all_goals simp
  | bool b =>
      rw [arrayItems, itemText, pyToCopyText]
      · rfl
      all_goals simp
  | bytes raw =>
      rw [arrayItems, itemText, pyToCopyText]
      · rfl
      all_goals simp
  | int n =>
      rw [arrayItems, itemText, pyToCopyText]
      · rfl
      all_goals simp
  | str cs =>
      rw [arrayItems, itemText, pyToCopyText]
      · rfl
      all_goals simp

/-! ## Lines -/

/-- A field with its special characters escaped. -/
def copyTextEscape (field : List Char) : List Char :=
  field.flatMap fun c =>
    if c = '\\' then ['\\', '\\']
    else if c = '\t' then ['\\', 't']
    else if c = '\n' then ['\\', 'n']
    else if c = '\r' then ['\\', 'r']
    else [c]

/-- A column of a line. -/
def copyField : Option (List Char) → List Char
  | none => ['\\', 'N']
  | some field => copyTextEscape field

/-- The line of a row whose columns have these texts. -/
def lineOf (fields : List (Option (List Char))) : List Char :=
  ['\t'].intercalate (fields.map copyField) ++ ['\n']

/-- The line of a row. -/
def copyLine (values : List PyValue) : PyResult (List Char) := do
  let fields ← values.mapM pyToCopyText
  .ok (lineOf fields)

/-! ## How the server reads them -/

/-- A character more at the start of the first line. -/
def prependFirst (start : List Char) : List (List Char) → List (List Char)
  | [] => [start]
  | line :: lines => (start ++ line) :: lines

/-- The lines of a text: a newline ends one unless it is escaped; a carriage return must be. -/
def copyLines : List Char → Option (List (List Char))
  | [] => some []
  | '\n' :: cs => (copyLines cs).map ([] :: ·)
  | '\r' :: _ => none
  | '\\' :: c :: cs => (copyLines cs).map (prependFirst ['\\', c])
  | c :: cs => (copyLines cs).map (prependFirst [c])

/-- The fields of a line, between tabs that are not escaped. -/
def copyFields : List Char → List (List Char)
  | [] => [[]]
  | '\t' :: cs => [] :: copyFields cs
  | '\\' :: c :: cs => prependFirst ['\\', c] (copyFields cs)
  | c :: cs => prependFirst [c] (copyFields cs)

/-- The value of a digit of base sixteen. -/
def hexValue (c : Char) : Option ℕ :=
  if c.isDigit then some (c.toNat - 48)
  else if 'a' ≤ c ∧ c ≤ 'f' then some (c.toNat - 87)
  else if 'A' ≤ c ∧ c ≤ 'F' then some (c.toNat - 55)
  else none

/-- Digits of a base at the start of a text, at most a number of them: their value, and how many
there are. -/
def escapedDigits (value? : Char → Option ℕ) (base : ℕ) : ℕ → List Char → ℕ × ℕ → ℕ × ℕ
  | most + 1, c :: cs, (value, count) =>
    match value? c with
    | some digit => escapedDigits value? base most cs (base * value + digit, count + 1)
    | none => (value, count)
  | _, _, found => found

def octalValue (c : Char) : Option ℕ :=
  if '0' ≤ c ∧ c ≤ '7' then some (c.toNat - 48) else none

/-- A field without its escapes; the first `n` characters are left out. -/
def copyUnescape : ℕ → List Char → List Char
  | _, [] => []
  | n + 1, _ :: cs => copyUnescape n cs
  | 0, '\\' :: c :: cs =>
    match c with
    | 'b' => '\x08' :: copyUnescape 0 cs
    | 'f' => '\x0c' :: copyUnescape 0 cs
    | 'n' => '\n' :: copyUnescape 0 cs
    | 'r' => '\r' :: copyUnescape 0 cs
    | 't' => '\t' :: copyUnescape 0 cs
    | 'v' => '\x0b' :: copyUnescape 0 cs
    | 'x' =>
      let (value, count) := escapedDigits hexValue 16 2 cs (0, 0)
      if count = 0 then 'x' :: copyUnescape 0 cs else Char.ofNat value :: copyUnescape count cs
    | c =>
      let (value, count) := escapedDigits octalValue 8 3 (c :: cs) (0, 0)
      if count = 0 then c :: copyUnescape 0 cs
      else Char.ofNat (value % 256) :: copyUnescape (count - 1) cs
  | 0, c :: cs => c :: copyUnescape 0 cs

/-- The value of a field: the marker of NULL is known before the escapes are taken out. -/
def fieldValue (raw : List Char) : Option (List Char) :=
  if raw = ['\\', 'N'] then none else some (copyUnescape 0 raw)

/-- **The text format of COPY**: the rows of a text, up to the marker of the end of the data. -/
def readCopy (text : List Char) : Option (List (List (Option (List Char)))) :=
  (copyLines text).map fun lines =>
    (lines.takeWhile (· ≠ ['\\', '.'])).map fun line => (copyFields line).map fieldValue

/-! ## Escaped texts -/

/-- A text in which each backslash stands before a character, and some characters stand behind one
only. -/
def wellEscaped (bad : List Char) : List Char → Bool
  | [] => true
  | '\\' :: _ :: cs => wellEscaped bad cs
  | c :: cs => !(c = '\\' || bad.contains c) && wellEscaped bad cs

lemma wellEscaped_plain {bad : List Char} {c : Char} (hc : c ≠ '\\') (hbad : c ∉ bad)
    (cs : List Char) : wellEscaped bad (c :: cs) = wellEscaped bad cs := by
  rw [wellEscaped]
  · simp [hc, hbad]
  · rintro _ _ rfl
    exact absurd rfl hc

lemma wellEscaped_cons {bad : List Char} {c : Char} {cs : List Char}
    (h : wellEscaped bad (c :: cs) = true) :
    (c ≠ '\\' ∧ c ∉ bad ∧ wellEscaped bad cs = true) ∨
      (c = '\\' ∧ ∃ d rest, cs = d :: rest ∧ wellEscaped bad rest = true) := by
  by_cases hc : c = '\\'
  · subst hc
    cases cs with
    | nil => exact absurd h (by simp [wellEscaped])
    | cons d rest => exact .inr ⟨rfl, d, rest, rfl, h⟩
  · left
    by_cases hbad : c ∈ bad
    · exfalso
      rw [wellEscaped] at h
      · simp [hbad] at h
      · rintro _ _ rfl
        exact absurd rfl hc
    · rw [wellEscaped_plain hc hbad] at h
      exact ⟨hc, hbad, h⟩

/-- **What is escaped is read piece by piece**: a plain character, or a backslash with what it
stands before. -/
lemma wellEscaped_induct {bad : List Char} {P : List Char → Prop} (hnil : P [])
    (hplain : ∀ c cs, c ≠ '\\' → c ∉ bad → P cs → P (c :: cs))
    (hescape : ∀ c cs, P cs → P ('\\' :: c :: cs)) :
    ∀ {cs : List Char}, wellEscaped bad cs = true → P cs := by
  intro cs
  induction hn : cs.length using Nat.strong_induction_on generalizing cs with
  | _ n ih =>
      intro h
      cases cs with
      | nil => exact hnil
      | cons c cs =>
          rcases wellEscaped_cons h with ⟨hc, hbad, hrest⟩ | ⟨rfl, d, rest, rfl, hrest⟩
          · exact hplain c cs hc hbad (ih cs.length (by simp at hn; omega) rfl hrest)
          · exact hescape d rest (ih rest.length (by simp at hn; omega) rfl hrest)

lemma wellEscaped_append {bad : List Char} {a c : List Char} (ha : wellEscaped bad a = true)
    (hc : wellEscaped bad c = true) : wellEscaped bad (a ++ c) = true := by
  refine wellEscaped_induct (P := fun a => wellEscaped bad (a ++ c) = true) hc ?_ ?_ ha
  · intro d ds hd hbad hrest
    rw [List.cons_append, wellEscaped_plain hd hbad]
    exact hrest
  · intro d ds hrest
    exact hrest

/-- An escaped line ends at its newline. -/
lemma copyLines_line {line : List Char} (h : wellEscaped ['\n', '\r'] line = true)
    (rest : List Char) : copyLines (line ++ '\n' :: rest) = (copyLines rest).map (line :: ·) := by
  refine wellEscaped_induct
    (P := fun line => copyLines (line ++ '\n' :: rest) = (copyLines rest).map (line :: ·))
    ?_ ?_ ?_ h
  · rw [List.nil_append, copyLines]
  · intro c cs hc hbad ih
    rw [List.cons_append, copyLines, ih, Option.map_map]
    · rfl
    · simp_all
    · simp_all
    · rintro _ _ rfl
      exact absurd rfl hc
  · intro c cs ih
    rw [List.cons_append, List.cons_append, copyLines, ih, Option.map_map]
    rfl

/-- An escaped field ends at its tab, or at the end of the line. -/
lemma copyFields_field {raw : List Char} (h : wellEscaped ['\t'] raw = true) :
    copyFields raw = [raw] ∧
      ∀ rest, copyFields (raw ++ '\t' :: rest) = raw :: copyFields rest := by
  refine wellEscaped_induct (P := fun raw => copyFields raw = [raw] ∧
    ∀ rest, copyFields (raw ++ '\t' :: rest) = raw :: copyFields rest) ?_ ?_ ?_ h
  · exact ⟨rfl, fun rest => by rw [List.nil_append, copyFields]⟩
  · intro c cs hc hbad ih
    have hstep : ∀ tail, copyFields (c :: tail) = prependFirst [c] (copyFields tail) := by
      intro tail
      rw [copyFields]
      · simpa using hbad
      · rintro _ _ rfl
        exact absurd rfl hc
    refine ⟨by rw [hstep, ih.1]; rfl, fun rest => ?_⟩
    rw [List.cons_append, hstep, ih.2]
    rfl
  · intro c cs ih
    refine ⟨by rw [copyFields, ih.1]; rfl, fun rest => ?_⟩
    rw [List.cons_append, List.cons_append, copyFields, ih.2]
    rfl

/-! ## Fields -/

/-- How a character is escaped. -/
lemma copyTextEscape_cons (c : Char) (cs : List Char) :
    (∃ d, d ∈ ['\\', 't', 'n', 'r'] ∧ copyTextEscape (c :: cs) = '\\' :: d :: copyTextEscape cs) ∨
      (c ∉ ['\\', '\t', '\n', '\r'] ∧ copyTextEscape (c :: cs) = c :: copyTextEscape cs) := by
  rw [copyTextEscape, List.flatMap_cons]
  split_ifs with hslash htab hline hreturn
  · exact .inl ⟨'\\', by simp, rfl⟩
  · exact .inl ⟨'t', by simp, rfl⟩
  · exact .inl ⟨'n', by simp, rfl⟩
  · exact .inl ⟨'r', by simp, rfl⟩
  · exact .inr ⟨by simp [hslash, htab, hline, hreturn], rfl⟩

lemma wellEscaped_copyTextEscape {bad : List Char} (hbad : bad ⊆ ['\t', '\n', '\r'])
    (field : List Char) : wellEscaped bad (copyTextEscape field) = true := by
  induction field with
  | nil => rfl
  | cons c cs ih =>
      rcases copyTextEscape_cons c cs with ⟨d, -, h⟩ | ⟨hc, h⟩
      · rw [h]
        exact ih
      · rw [List.mem_cons, not_or] at hc
        rw [h, wellEscaped_plain hc.1 fun hmem => hc.2 (hbad hmem)]
        exact ih

lemma wellEscaped_copyField {bad : List Char} (hbad : bad ⊆ ['\t', '\n', '\r'])
    (field : Option (List Char)) : wellEscaped bad (copyField field) = true := by
  cases field with
  | none => rfl
  | some field => exact wellEscaped_copyTextEscape hbad field

/-- A field is no marker: behind its first backslash stands no other character. -/
lemma copyTextEscape_ne_marker {c : Char} (hc : c ∉ ['\\', 't', 'n', 'r']) (field : List Char) :
    copyTextEscape field ≠ ['\\', c] := by
  cases field with
  | nil => exact (List.cons_ne_nil _ _).symm
  | cons d ds =>
      intro h
      rcases copyTextEscape_cons d ds with ⟨e, he, hstep⟩ | ⟨hd, hstep⟩
      · rw [hstep, List.cons.injEq, List.cons.injEq] at h
        exact hc (h.2.1 ▸ he)
      · rw [hstep, List.cons.injEq] at h
        exact hd (by simp [h.1])

/-- **A field comes back** without its escapes. -/
lemma copyUnescape_copyTextEscape (field : List Char) :
    copyUnescape 0 (copyTextEscape field) = field := by
  induction field with
  | nil => rfl
  | cons c cs ih =>
      by_cases hslash : c = '\\'
      · subst hslash
        show '\\' :: copyUnescape 0 (copyTextEscape cs) = _
        rw [ih]
      by_cases htab : c = '\t'
      · subst htab
        show '\t' :: copyUnescape 0 (copyTextEscape cs) = _
        rw [ih]
      by_cases hline : c = '\n'
      · subst hline
        show '\n' :: copyUnescape 0 (copyTextEscape cs) = _
        rw [ih]
      by_cases hreturn : c = '\r'
      · subst hreturn
        show '\r' :: copyUnescape 0 (copyTextEscape cs) = _
        rw [ih]
      · have hstep : copyTextEscape (c :: cs) = c :: copyTextEscape cs := by
          rw [copyTextEscape, List.flatMap_cons, if_neg hslash, if_neg htab, if_neg hline,
            if_neg hreturn]
          rfl
        rw [hstep, copyUnescape, ih]
        rintro _ _ rfl
        exact absurd rfl hslash

lemma fieldValue_copyField (field : Option (List Char)) : fieldValue (copyField field) = field := by
  cases field with
  | none => rfl
  | some field =>
      rw [copyField, fieldValue, if_neg (copyTextEscape_ne_marker (by decide) field),
        copyUnescape_copyTextEscape]

/-! ## Rows -/

/-- The fields of a row, read from its line. -/
lemma copyFields_join {fields : List (Option (List Char))} (hne : fields ≠ []) :
    copyFields (['\t'].intercalate (fields.map copyField)) = fields.map copyField := by
  induction fields with
  | nil => exact absurd rfl hne
  | cons field fields ih =>
      have hfield := copyFields_field (wellEscaped_copyField (by simp) field)
      cases fields with
      | nil =>
          rw [List.map_singleton, List.intercalate_singleton]
          exact hfield.1
      | cons next rest =>
          rw [List.map_cons, List.map_cons, List.intercalate_cons_cons, List.append_assoc]
          exact (hfield.2 _).trans (congrArg (copyField field :: ·) (ih (by simp)))

lemma wellEscaped_join (fields : List (Option (List Char))) :
    wellEscaped ['\n', '\r'] (['\t'].intercalate (fields.map copyField)) = true := by
  induction fields with
  | nil => rfl
  | cons field fields ih =>
      have hfield := wellEscaped_copyField (show ['\n', '\r'] ⊆ ['\t', '\n', '\r'] by simp) field
      cases fields with
      | nil =>
          rw [List.map_singleton, List.intercalate_singleton]
          exact hfield
      | cons next rest =>
          rw [List.map_cons, List.map_cons, List.intercalate_cons_cons, List.append_assoc]
          exact wellEscaped_append hfield ih

/-- No line is the marker of the end of the data. -/
lemma join_ne_marker {fields : List (Option (List Char))} (hne : fields ≠ []) :
    ['\t'].intercalate (fields.map copyField) ≠ ['\\', '.'] := by
  intro h
  have hfields := copyFields_join hne
  rw [h] at hfields
  have hmem : ['\\', '.'] ∈ fields.map copyField := by
    rw [← hfields]
    exact List.mem_singleton_self _
  obtain ⟨field, -, hfield⟩ := List.mem_map.mp hmem
  cases field with
  | none => exact absurd hfield (by decide)
  | some field => exact copyTextEscape_ne_marker (by decide) field hfield

/-- **A line is read as one row**, whatever stands behind it. -/
lemma readCopy_lineOf {fields : List (Option (List Char))} (hne : fields ≠ []) (stream : List Char) :
    readCopy (lineOf fields ++ stream) = (readCopy stream).map (fields :: ·) := by
  have hvalues : (fields.map copyField).map fieldValue = fields := by
    rw [List.map_map]
    exact List.map_id'' fieldValue_copyField fields
  rw [readCopy, readCopy, lineOf, List.append_assoc, List.singleton_append,
    copyLines_line (wellEscaped_join fields), Option.map_map, Option.map_map]
  congr 1
  funext lines
  simp only [Function.comp_apply]
  rw [List.takeWhile_cons_of_pos (by simpa using join_ne_marker hne), List.map_cons,
    copyFields_join hne, hvalues]

/-! ## Values -/

/-- Digits of base sixteen, two for each byte. -/
def HexPairs : List UInt8 → List Char → Prop
  | [], digits => digits = []
  | b :: raw, high :: low :: digits =>
    hexValue high = some (b.toNat / 16) ∧ hexValue low = some (b.toNat % 16) ∧ HexPairs raw digits
  | _, _ => False

/-- **The text form of a value that is no list**, as the server itself prints it: `t` and `f`, the
decimal digits of an integer, the bytes in base sixteen behind `\x`, and a string as it is. -/
def PyValue.HasText : PyValue → List Char → Prop
  | .bool b, text => text = if b then ['t'] else ['f']
  | .int n, text => text = (toString n).toList
  | .bytes raw, text => ∃ digits, text = '\\' :: 'x' :: digits ∧ HexPairs raw digits
  | .str cs, text => text = cs
  | _, _ => False

lemma intDigits_eq_toString (n : ℤ) : intDigits n = (toString n).toList := by
  cases n with
  | ofNat m =>
      rw [intDigits, if_neg (by simp)]
      show Nat.toDigits 10 m = (Nat.repr m).toList
      simp [Nat.repr]
  | negSucc m =>
      rw [intDigits, if_pos (Int.negSucc_lt_zero m)]
      show '-' :: Nat.toDigits 10 (m + 1) = ("-" ++ Nat.repr (m + 1)).toList
      simp [Nat.repr]

lemma hexValue_lowerHex : ∀ {n : ℕ}, n < 16 → hexValue (lowerHex n) = some n := by decide

lemma hexPairs_hexText (start : List Char) (raw : List UInt8) :
    ∃ digits, hexText start raw = start ++ digits ∧ HexPairs raw digits := by
  refine ⟨_, rfl, ?_⟩
  induction raw with
  | nil => rfl
  | cons b raw ih =>
      have hbyte : b.toNat < 256 := b.toNat_lt
      exact ⟨hexValue_lowerHex (by omega), hexValue_lowerHex (by omega), ih⟩

mutual
/-- A value whose text needs nothing from Python: no value, a boolean, an integer, bytes, a string,
or a list of such. -/
def PyValue.isPlain : PyValue → Bool
  | .none | .bool _ | .bytes _ | .int _ | .str _ => true
  | .sequence items => allPlain items
  | _ => false

def allPlain : List PyValue → Bool
  | [] => true
  | item :: rest => item.isPlain && allPlain rest
end

mutual
/-- **A plain value has a text.** -/
lemma exists_pyToCopyText : ∀ {v : PyValue}, v.isPlain = true → ∃ text, pyToCopyText v = .ok text
  | .none, _ => ⟨_, rfl⟩
  | .bool _, _ => ⟨_, rfl⟩
  | .bytes _, _ => ⟨_, rfl⟩
  | .int _, _ => ⟨_, rfl⟩
  | .str _, _ => ⟨_, rfl⟩
  | .sequence items, h => by
    rw [PyValue.isPlain] at h
    obtain ⟨texts, htexts⟩ := exists_arrayItems h
    exact ⟨_, by rw [pyToCopyText, htexts]; rfl⟩

lemma exists_arrayItems : ∀ {items : List PyValue}, allPlain items = true →
    ∃ texts, arrayItems items = .ok texts
  | [], _ => ⟨_, rfl⟩
  | item :: rest, h => by
    rw [allPlain, Bool.and_eq_true] at h
    obtain ⟨texts, htexts⟩ := exists_arrayItems h.2
    have hitem : ∃ text, itemText item = .ok text := by
      cases item with
      | sequence items =>
          obtain ⟨texts, htexts⟩ := exists_arrayItems h.1
          exact ⟨_, by rw [itemText, htexts]; rfl⟩
      | none | bool _ | bytes _ | int _ | str _ => exact ⟨_, rfl⟩
      | json _ | float _ | dict _ | other _ => exact absurd h.1 (by simp [PyValue.isPlain])
    obtain ⟨text, htext⟩ := hitem
    exact ⟨text :: texts, by rw [arrayItems_cons, htext, htexts]; rfl⟩
end

/-- Plain values have their texts. -/
lemma exists_mapM {values : List PyValue} (h : ∀ v ∈ values, v.isPlain = true) :
    ∃ fields, values.mapM pyToCopyText = .ok fields ∧
      List.Forall₂ (fun v field => pyToCopyText v = .ok field) values fields := by
  induction values with
  | nil => exact ⟨[], rfl, .nil⟩
  | cons v values ih =>
      rw [List.forall_mem_cons] at h
      obtain ⟨field, hfield⟩ := exists_pyToCopyText h.1
      obtain ⟨fields, hfields, hall⟩ := ih h.2
      refine ⟨field :: fields, ?_, .cons hfield hall⟩
      rw [List.mapM_cons, hfield, hfields]
      rfl

end OdooKernel
