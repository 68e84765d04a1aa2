import OdooKernel.Cursor.Placeholders
import OdooKernel.Registry.Model

/-!
# The statements of bulk writes

The kernel renders one statement that updates, or inserts, a number of rows.  It knows no values: the
text has a placeholder wherever one will be bound, and with it goes how often Python has to name each
value.

**Placeholders.**  What a cursor reads in a text is what it binds, so that the text and the values
have to agree in number; a percent sign in a name would be read as well, so the names are asked to
have none.  `Holes` counts the parameters of a text wherever it stands in another, so that the count
of a statement is the sum of those of its parts.

* `ident`, `assignment`, `valueRepeats` — a name in quotes, what is set, how often a value is named.
* `updateRowsSql`, `insertRowsSql` — the texts, or the refusal of what has no column.
* `updateText_holes`, `insertText_holes` — as many parameters as the values that are bound.
-/

namespace OdooKernel

/-! ## The texts -/

/-- A name in double quotes, those in it doubled. -/
def ident (name : String) : String :=
  "\"" ++ String.ofList (name.toList.flatMap fun c => if c = '"' then ['"', '"'] else [c]) ++ "\""

/-- Some texts with a comma between them. -/
def commas (texts : List String) : String := ", ".intercalate texts

/-- One statement for all rows, which get the same values, or one with a tuple for each row. -/
inductive UpdateShape where
  | Uniform
  | Values
deriving DecidableEq, Repr

/-- Why a field is not written by the kernel, if it is not. -/
def refuseColumn (field : Field) : Option String :=
  if !field.hasColumn || field.columnCast.isNone then
    some (field.name ++ " has no declared column cast in this registry")
  else if field.companyDependent then some (field.name ++ " is company-dependent")
  else none

/-- What keeps the languages of a column that are not given. -/
def wholeAssignment (table column expr : String) : String :=
  column ++ " = CASE WHEN " ++ expr ++ " IS NULL THEN NULL ELSE\n                        COALESCE("
    ++ table ++ "." ++ column ++ ", jsonb_build_object(\n                            'en_US', "
    ++ "jsonb_path_query_first(" ++ expr ++ ", '$.*')\n                        )) || " ++ expr
    ++ "\n                    END"

/-- What a column is set to: a field that is translated as a whole keeps its other languages. -/
def assignment (table : String) (field : Field) (expr : String) : String :=
  if field.translateWhole then wholeAssignment table (ident field.name) expr
  else ident field.name ++ " = " ++ expr

/-- How often an assignment names its value. -/
def valueRepeats (field : Field) : ℕ := if field.translateWhole then 3 else 1

/-- The type that a column's value is converted to. -/
def castOf (field : Field) : String := field.columnCast.getD ""

/-- The value of a column, bound in its place or taken from the tuple of the row. -/
def valueExpr : UpdateShape → Field → String
  | .Values, f => "\"__tmp\"." ++ ident f.name ++ "::" ++ castOf f
  | .Uniform, f => "%s::" ++ castOf f

/-- The columns of a model that a write names, none of them refused. -/
def writtenFields (modelName : String) (model : Model) : List String → Result (List Field)
  | [] => .ok []
  | fname :: fnames => do
    let field ← orRefuse ("update_rows: " ++ modelName ++ " has no field " ++ fname
      ++ " in this registry") (model.fields.get? fname)
    match refuseColumn field with
    | some why => refuse ("update_rows: " ++ why)
    | none => do
      let fields ← writtenFields modelName model fnames
      return field :: fields

/-- A tuple of placeholders. -/
def placeholders (n : ℕ) : String := "(" ++ commas (List.replicate n "%s") ++ ")"

/-- The assignments of a statement. -/
def assignmentsText (table : String) (shape : UpdateShape) (fields : List Field) : String :=
  commas (fields.map fun f => assignment table f (valueExpr shape f))

/-- An update that takes each row's values from its tuple. -/
def tuplesUpdate (table assignments values columns : String) : String :=
  " UPDATE " ++ table ++ "\n                SET " ++ assignments ++ "\n                FROM (VALUES "
    ++ values ++ ") AS \"__tmp\"(\"id\", " ++ columns ++ ")\n                WHERE " ++ table
    ++ ".\"id\" = \"__tmp\".\"id\"\n            "

/-- An update of the rows with some ids. -/
def uniformUpdate (table assignments : String) : String :=
  "UPDATE " ++ table ++ " SET " ++ assignments ++ " WHERE \"id\" = ANY(%s)"

/-- The text of an update of some rows. -/
def updateText (model : Model) (fields : List Field) (shape : UpdateShape) (rowCount : ℕ) : String :=
  let table := ident model.table
  let assignments := assignmentsText table shape fields
  match shape with
  | .Values =>
    tuplesUpdate table assignments
      (commas (List.replicate rowCount (placeholders (fields.length + 1))))
      (commas (fields.map fun f => ident f.name))
  | .Uniform => uniformUpdate table assignments

/-- **The statement that updates some rows of a model.** -/
def updateRowsSql (registry : Registry) (modelName : String) (fnames : List String)
    (shape : UpdateShape) (rowCount : ℕ) : Result String := do
  let model ← registry.get modelName
  if fnames.isEmpty then refuse "update_rows: no columns"
  else if rowCount = 0 then refuse "update_rows: no rows"
  else do
    let fields ← writtenFields modelName model fnames
    return updateText model fields shape rowCount

/-- The columns of a model that an insert names have a cast. -/
def insertedFields (modelName : String) (model : Model) : List String → Result Unit
  | [] => .ok ()
  | column :: columns => do
    let field ← orRefuse ("create_rows: " ++ modelName ++ " has no field " ++ column
      ++ " in this registry") (model.fields.get? column)
    if !field.hasColumn || field.columnCast.isNone then
      refuse ("create_rows: " ++ field.name ++ " has no declared column cast in this registry")
    else insertedFields modelName model columns

/-- The text of an insertion of some rows. -/
def insertText (model : Model) (columns : List String) (rowCount : ℕ) : String :=
  let table := ident model.table
  if columns.isEmpty then
    "INSERT INTO " ++ table ++ " (\"id\") VALUES " ++ commas (List.replicate rowCount "(DEFAULT)")
      ++ " RETURNING \"id\""
  else
    "INSERT INTO " ++ table ++ " (" ++ commas (columns.map ident) ++ ") VALUES "
      ++ commas (List.replicate rowCount (placeholders columns.length)) ++ " RETURNING \"id\""

/-- **The statement that inserts some rows of a model.** -/
def insertRowsSql (registry : Registry) (modelName : String) (columns : List String) (rowCount : ℕ) :
    Result String := do
  let model ← registry.get modelName
  if rowCount = 0 then refuse "create_rows: no rows"
  else if columns.isEmpty then return insertText model columns rowCount
  else do
    insertedFields modelName model columns
    return insertText model columns rowCount

/-! ## What a cursor reads in them -/

/-- The names of the parameters that a cursor reads in a text. -/
def paramNames (sql : List Char) : List (List Char) := (markers sql).filterMap Marker.name?

lemma translatePlaceholders_snd (sql : List Char) : (translatePlaceholders sql).2 = paramNames sql := rfl

/-- A text without a percent sign. -/
def Plain (text : String) : Prop := '%' ∉ text.toList

instance decidablePlain (text : String) : Decidable (Plain text) := inferInstanceAs (Decidable (_ ∉ _))

/-- A text with `n` parameters without a name, wherever it stands. -/
def Holes (text : String) (n : ℕ) : Prop :=
  ∀ rest, paramNames (text.toList ++ rest) = List.replicate n [] ++ paramNames rest

lemma commas_cons (text next : String) (texts : List String) :
    commas (text :: next :: texts) = text ++ (", " ++ commas (next :: texts)) := by
  rw [← String.toList_inj]
  simp [commas, String.toList_intercalate]

namespace Holes

variable {a b : String} {m n : ℕ}

/-- A text without a percent sign has none. -/
lemma of_plain (h : Plain a) : Holes a 0 := by
  intro rest
  have hdoubled : doubled a.toList = a.toList := by
    have heach : ∀ c ∈ a.toList, (if c = '%' then ['%', '%'] else [c]) = [c] := by
      intro c hc
      refine if_neg ?_
      rintro rfl
      exact h hc
    rw [doubled, List.flatMap_congr heach, List.flatMap_singleton']
  rw [paramNames, ← hdoubled, markers_doubled, List.filterMap_append, filterMap_plain]
  rfl

lemma marker : Holes "%s" 1 := by
  intro rest
  rw [paramNames]
  exact congrArg (List.filterMap Marker.name?) (markers_parameter rest)

lemma append (ha : Holes a m) (hb : Holes b n) : Holes (a ++ b) (m + n) := by
  intro rest
  rw [String.toList_append, List.append_assoc, ha, hb, List.replicate_add, List.append_assoc]

/-- Some texts with commas between them. -/
lemma commas {texts : List String} {counts : List ℕ} (h : List.Forall₂ Holes texts counts) :
    Holes (commas texts) counts.sum := by
  induction h with
  | nil => exact of_plain (a := "") (by decide)
  | @cons text n texts counts htext hrest ih =>
      cases hrest with
      | nil => simpa [OdooKernel.commas] using htext
      | @cons next m texts counts _ _ =>
          rw [commas_cons, List.sum_cons, ← Nat.zero_add (m :: counts).sum]
          exact htext.append (.append (.of_plain (by decide)) ih)

lemma commas_map {α : Type} (f : α → String) (count : α → ℕ) (l : List α)
    (h : ∀ x ∈ l, Holes (f x) (count x)) : Holes (OdooKernel.commas (l.map f)) (l.map count).sum := by
  refine commas ?_
  rw [List.forall₂_map_left_iff, List.forall₂_map_right_iff, List.forall₂_same]
  exact h

/-- What a cursor reads in a text that stands alone. -/
lemma length_params (h : Holes a n) : (translatePlaceholders a.toList).2.length = n := by
  have hall := h []
  rw [List.append_nil] at hall
  rw [translatePlaceholders_snd, hall]
  simp [paramNames, markers]

end Holes

lemma ident_plain {name : String} (h : Plain name) : Plain (ident name) := by
  simp only [Plain, ident, String.toList_append, String.toList_ofList, List.mem_append, List.mem_flatMap]
  rintro ((hquote | ⟨c, hc, hin⟩) | hquote)
  · exact absurd hquote (by decide)
  · split_ifs at hin
    · exact absurd hin (by decide)
    · obtain rfl := List.mem_singleton.mp hin
      exact h hc
  · exact absurd hquote (by decide)

/-- The names and types of a statement have no percent sign. -/
structure PlainNames (model : Model) (fields : List Field) : Prop where
  table : Plain model.table
  names : ∀ f ∈ fields, Plain f.name
  casts : ∀ f ∈ fields, Plain (castOf f)

lemma valueExpr_holes {shape : UpdateShape} {f : Field} (hname : Plain f.name)
    (hcast : Plain (castOf f)) : Holes (valueExpr shape f) (if shape = .Uniform then 1 else 0) := by
  cases shape with
  | Uniform =>
      have hmarker : Holes "%s::" 1 := by
        have htext : "%s::" = "%s" ++ "::" := by decide +kernel
        rw [htext]
        exact Holes.marker.append (.of_plain (by decide))
      exact hmarker.append (.of_plain hcast)
  | Values =>
      have hcolumn : Holes ("\"__tmp\"." ++ ident f.name) 0 :=
        Holes.append (m := 0) (n := 0) (.of_plain (by decide)) (.of_plain (ident_plain hname))
      have hdouble : Holes ("\"__tmp\"." ++ ident f.name ++ "::") 0 :=
        hcolumn.append (n := 0) (.of_plain (by decide))
      exact hdouble.append (.of_plain hcast)

/-- An assignment has the parameters of its value, as often as it names it. -/
lemma assignment_holes {table expr : String} {f : Field} {n : ℕ} (htable : Plain table)
    (hname : Plain f.name) (hexpr : Holes expr n) :
    Holes (assignment table f expr) (valueRepeats f * n) := by
  have hcolumn : Holes (ident f.name) 0 := .of_plain (ident_plain hname)
  have hplain : ∀ a, Plain a → Holes a 0 := fun _ => .of_plain
  unfold assignment wholeAssignment valueRepeats
  split_ifs
  · have h₁ := (hcolumn.append (hplain " = CASE WHEN " (by decide))).append hexpr
    have h₂ := (h₁.append (hplain " IS NULL THEN NULL ELSE\n                        COALESCE("
      (by decide))).append (hplain table htable)
    have h₃ := ((h₂.append (hplain "." (by decide))).append hcolumn).append
      (hplain ", jsonb_build_object(\n                            'en_US', " (by decide))
    have h₄ := ((h₃.append (hplain "jsonb_path_query_first(" (by decide))).append hexpr).append
      (hplain ", '$.*')\n                        )) || " (by decide))
    have h₅ := (h₄.append hexpr).append (hplain "\n                    END" (by decide))
    have hcount : 0 + 0 + n + 0 + 0 + 0 + 0 + 0 + 0 + n + 0 + n + 0 = 3 * n := by omega
    rwa [hcount] at h₅
  · have h := (hcolumn.append (hplain " = " (by decide))).append hexpr
    have hcount : 0 + 0 + n = 1 * n := by omega
    rwa [hcount] at h

lemma assignmentsText_holes {table : String} {fields : List Field} (shape : UpdateShape)
    (htable : Plain table) (hnames : ∀ f ∈ fields, Plain f.name)
    (hcasts : ∀ f ∈ fields, Plain (castOf f)) :
    Holes (assignmentsText table shape fields)
      (if shape = .Uniform then (fields.map valueRepeats).sum else 0) := by
  have hall : Holes (assignmentsText table shape fields)
      (fields.map fun f => valueRepeats f * if shape = .Uniform then 1 else 0).sum :=
    .commas_map _ _ _ fun f hf => assignment_holes htable (hnames f hf)
      (valueExpr_holes (hnames f hf) (hcasts f hf))
  cases shape <;> simpa using hall

lemma placeholders_holes (n : ℕ) : Holes (placeholders n) n := by
  have hmarkers : Holes (commas (List.replicate n "%s")) n := by
    have hall := Holes.commas_map (fun _ : Unit => "%s") (fun _ => 1) (List.replicate n ())
      fun _ _ => Holes.marker
    simpa using hall
  have hopen : Holes "(" 0 := .of_plain (by decide)
  have hclose : Holes ")" 0 := .of_plain (by decide)
  have hall := (hopen.append hmarkers).append hclose
  rwa [Nat.zero_add, Nat.add_zero] at hall

/-- How many values an update binds: each column's value as often as it is named and the ids once, or
a tuple for each row. -/
def updateParams (fields : List Field) : UpdateShape → ℕ → ℕ
  | .Uniform, _ => (fields.map valueRepeats).sum + 1
  | .Values, rowCount => rowCount * (fields.length + 1)

/-- **An update has a parameter for each value that it binds.** -/
lemma updateText_holes {model : Model} {fields : List Field} (h : PlainNames model fields)
    (shape : UpdateShape) (rowCount : ℕ) :
    Holes (updateText model fields shape rowCount) (updateParams fields shape rowCount) := by
  have htable : Holes (ident model.table) 0 := .of_plain (ident_plain h.table)
  have hassignments := assignmentsText_holes shape (ident_plain h.table) h.names h.casts
  have hplain : ∀ a, Plain a → Holes a 0 := fun _ => .of_plain
  cases shape with
  | Uniform =>
      have h₁ := ((hplain "UPDATE " (by decide)).append htable).append (hplain " SET " (by decide))
      have h₂ := h₁.append hassignments
      have hids : Holes " WHERE \"id\" = ANY(%s)" 1 := by
        have htext : " WHERE \"id\" = ANY(%s)" = " WHERE \"id\" = ANY(" ++ "%s" ++ ")" := by
          decide +kernel
        rw [htext]
        exact ((hplain " WHERE \"id\" = ANY(" (by decide)).append .marker).append (hplain ")" (by decide))
      have h₃ := h₂.append hids
      rw [if_pos rfl, Nat.zero_add] at h₃
      exact h₃
  | Values =>
      have hvalues : Holes (commas (List.replicate rowCount (placeholders (fields.length + 1))))
          (rowCount * (fields.length + 1)) := by
        have hall := Holes.commas_map (fun _ : Unit => placeholders (fields.length + 1))
          (fun _ => fields.length + 1) (List.replicate rowCount ()) fun _ _ => placeholders_holes _
        simpa using hall
      have hcolumns : Holes (commas (fields.map fun f => ident f.name)) 0 := by
        have hall := Holes.commas_map (fun f : Field => ident f.name) (fun _ => 0) fields
          fun f hf => .of_plain (ident_plain (h.names f hf))
        simpa using hall
      have h₁ := ((hplain " UPDATE " (by decide)).append htable).append
        (hplain "\n                SET " (by decide))
      have h₂ := (h₁.append hassignments).append (hplain "\n                FROM (VALUES " (by decide))
      have h₃ := ((h₂.append hvalues).append (hplain ") AS \"__tmp\"(\"id\", " (by decide))).append
        hcolumns
      have h₄ := ((h₃.append (hplain ")\n                WHERE " (by decide))).append htable).append
        (hplain ".\"id\" = \"__tmp\".\"id\"\n            " (by decide))
      rw [if_neg UpdateShape.noConfusion] at h₄
      simp only [Nat.zero_add, Nat.add_zero] at h₄
      exact h₄

/-- **An insertion has a parameter for each value that it binds.** -/
lemma insertText_holes {model : Model} {columns : List String} (htable : Plain model.table)
    (hcolumns : ∀ column ∈ columns, Plain column) (rowCount : ℕ) :
    Holes (insertText model columns rowCount) (rowCount * columns.length) := by
  have htable : Holes (ident model.table) 0 := .of_plain (ident_plain htable)
  have hplain : ∀ a, Plain a → Holes a 0 := fun _ => .of_plain
  have hrows : ∀ {row : String} {n : ℕ}, Holes row n →
      Holes (commas (List.replicate rowCount row)) (rowCount * n) := by
    intro row n hrow
    have hall := Holes.commas_map (fun _ : Unit => row) (fun _ => n) (List.replicate rowCount ())
      fun _ _ => hrow
    simpa using hall
  have h₁ := (hplain "INSERT INTO " (by decide)).append htable
  unfold insertText
  split_ifs with hempty
  · have h₂ := (h₁.append (hplain " (\"id\") VALUES " (by decide))).append
      (hrows (hplain "(DEFAULT)" (by decide)))
    have h₃ := h₂.append (hplain " RETURNING \"id\"" (by decide))
    rw [List.isEmpty_iff.mp hempty]
    simpa using h₃
  · have hnames : Holes (commas (columns.map ident)) 0 := by
      have hall := Holes.commas_map ident (fun _ => 0) columns
        fun column hcolumn => .of_plain (ident_plain (hcolumns column hcolumn))
      simpa using hall
    have h₂ := ((h₁.append (hplain " (" (by decide))).append hnames).append
      (hplain ") VALUES " (by decide))
    have h₃ := (h₂.append (hrows (placeholders_holes columns.length))).append
      (hplain " RETURNING \"id\"" (by decide))
    simpa using h₃

end OdooKernel
