import OdooKernel.Core.Runs
import OdooKernel.Cursor.CopyText

/-!
# The stream of a COPY

Rows are put into a buffer, which is sent when it is long enough and when the stream is finished.  In
text a row is staged before it is put; in binary its columns are put one by one.

**Errors on the way.**  A call that raises does not end the stream: the caller may go on with other
rows and finish it, so that what is left of a row that failed is part of what the server is sent.
That is the difference between the two formats, and the whole of the condition (`Clean`).

**What is parameterised.**  How a value is converted for the type of a column, and what an encoder
puts behind the buffer, are the client library's (`ColumnTypes`, `Encoded`); an encoder that fails
may have put something already.

**What is compared.**  `total` is what the stream holds, wherever it was cut into chunks, and
`wholeRows` the rows of the calls that answered without an error, each as it is encoded.

* `RustCopy`, `RustCopy.flush`, `RustCopy.setTypes`, `RustCopy.writeRow`, `RustCopy.finish` — the
  stream as the cursor drives it.
* `RustCopy.total` — what the stream holds, wherever it was cut into chunks.
* `rowBytes`, `wholeRows` — a row as it is encoded, and the rows that were accepted.
* `Puts` — what a call leaves of a stream: the row that it accepts, and what is left of one it does
  not.
* **`sends_whole_rows_iff`** — when the stream is the rows that were accepted.
-/

namespace OdooKernel

/-! ## Columns -/

/-- What an encoder puts behind what the buffer holds. -/
inductive Encoded where
  | null (written : List UInt8)
  | value (written : List UInt8)
  | failed (error : String) (written : List UInt8)

/-- A value that was converted for a column. -/
structure Boxed where
  textFormat : Bool
  toSqlChecked : Encoded

/-- The types of the client library, and how values are converted for them. -/
structure ColumnTypes (τ : Type) where
  ofOid : ℕ → Option τ
  name : τ → String
  pyToSql : PyValue → τ → PyResult Boxed

variable {τ : Type}

/-- Four bytes, the greatest first, two's complement. -/
def i32Bytes (n : ℤ) : List UInt8 :=
  let word := (n % 2 ^ 32).toNat
  u16Bytes (word / 65536) ++ u16Bytes (word % 65536)

/-- A type that NULL can be encoded in. -/
def binaryEncodable (types : ColumnTypes τ) (ty : τ) : Bool :=
  match types.pyToSql .none ty with
  | .error _ => false
  | .ok boxed =>
    match boxed.toSqlChecked with
    | .failed _ _ => false
    | _ => true

/-- The length of what was written, put in the place kept for it. -/
def patched (start : ℕ) (buf : List UInt8) : List UInt8 :=
  buf.take start ++ i32Bytes (buf.length - start - 4 : ℕ) ++ buf.drop (start + 4)

/-- A column that is converted, behind the buffer. -/
def putBoxed (types : ColumnTypes τ) (ty : τ) (boxed : Boxed) (buf : List UInt8) :
    PyResult Unit × List UInt8 :=
  if boxed.textFormat then
    (.error ⟨"COPY cannot carry a text-format value for a " ++ types.name ty ++
      " column; pass a value the binary encoder understands"⟩, buf)
  else
    let start := buf.length
    let room := buf ++ i32Bytes 0
    match boxed.toSqlChecked with
    | .null written => (.ok (), (room ++ written).take start ++ i32Bytes (-1))
    | .value written => (.ok (), patched start (room ++ written))
    | .failed e written => (.error ⟨"COPY encode failed: " ++ e⟩, room ++ written)

/-- A column behind the buffer. -/
def putColumn (types : ColumnTypes τ) (v : PyValue) (ty : τ) (buf : List UInt8) :
    PyResult Unit × List UInt8 :=
  match v with
  | .none => (.ok (), buf ++ i32Bytes (-1))
  | v =>
    match types.pyToSql v ty with
    | .error e => (.error e, buf)
    | .ok boxed => putBoxed types ty boxed buf

/-- The columns behind the buffer, up to the first that fails. -/
def putColumns (types : ColumnTypes τ) : List (PyValue × τ) → List UInt8 →
    PyResult Unit × List UInt8
  | [], buf => (.ok (), buf)
  | (v, ty) :: columns, buf =>
    match putColumn types v ty buf with
    | (.error e, buf) => (.error e, buf)
    | (.ok _, buf) => putColumns types columns buf

/-! ## The stream -/

/-- A stream; the sink has the chunks that were sent, and is taken when the stream is finished. -/
structure RustCopy (τ : Type) where
  sinkOpen : Bool
  sent : List (List UInt8)
  types : List τ
  buf : List UInt8
  rows : ℤ
  started : Bool
  binary : Bool
  rowMode : Bool

/-- A stream that was just opened. -/
def RustCopy.opened (τ : Type) (binary : Bool) : RustCopy τ where
  sinkOpen := true
  sent := []
  types := []
  buf := []
  rows := 0
  started := false
  binary := binary
  rowMode := false

def copyBinaryHeader : List UInt8 :=
  [80, 71, 67, 79, 80, 89, 10, 255, 13, 10, 0, 0, 0, 0, 0, 0, 0, 0, 0]

def copyBinaryTrailer : List UInt8 := [0xff, 0xff]

def copyFlushAt : ℕ := 64 * 1024

def nulInText : String := "PostgreSQL text fields cannot contain NUL (0x00) bytes"

def copyFinished : PyError := ⟨"COPY already finished"⟩

mutual
/-- A text that holds a NUL, itself or in a list. -/
def holdsNulText : PyValue → Bool
  | .str cs => cs.contains '\x00'
  | .sequence items => anyNulText items
  | _ => false

def anyNulText : List PyValue → Bool
  | [] => false
  | item :: items => holdsNulText item || anyNulText items
end

namespace RustCopy

/-- The buffer is sent, once it is long enough or when it has to be. -/
def flush (c : RustCopy τ) (force : Bool) : PyResult Unit × RustCopy τ :=
  if c.buf = [] ∨ (!force ∧ c.buf.length < copyFlushAt) then (.ok (), c)
  else if c.sinkOpen then (.ok (), { c with buf := [], sent := c.sent ++ [c.buf] })
  else (.error copyFinished, { c with buf := [] })

/-- The types that some numbers name. -/
def resolve (types : ColumnTypes τ) : List ℕ → PyResult (List τ)
  | [] => .ok []
  | oid :: oids =>
    match (types.ofOid oid).filter (binaryEncodable types) with
    | none => .error ⟨"COPY column type oid " ++ toString oid ++ " is not one this cursor can "
        ++ "encode in binary; refusing rather than writing it as text into a binary stream"⟩
    | some ty => (resolve types oids).map (ty :: ·)

/-- The columns have these types from now on. -/
def setTypes (types : ColumnTypes τ) (c : RustCopy τ) (oids : List ℕ) :
    PyResult Unit × RustCopy τ :=
  match resolve types oids with
  | .error e => (.error e, c)
  | .ok resolved => (.ok (), { c with types := resolved })

/-- The stream has begun: the header is put once. -/
def begin (c : RustCopy τ) : RustCopy τ :=
  { c with
    rowMode := true
    started := true
    buf := if !c.started ∧ c.binary then c.buf ++ copyBinaryHeader else c.buf }

/-- A row as a line. -/
def writeText (c : RustCopy τ) (values : List PyValue) : PyResult Unit × RustCopy τ :=
  match copyLine values with
  | .error e => (.error e, c)
  | .ok line =>
    flush { c with buf := c.buf ++ line.flatMap String.utf8EncodeChar, rows := c.rows + 1 } false

/-- A row as its columns, which are put as they are encoded. -/
def writeBinary (types : ColumnTypes τ) (c : RustCopy τ) (values : List PyValue) :
    PyResult Unit × RustCopy τ :=
  if c.types.length ≠ values.length then
    (.error ⟨"COPY row has " ++ toString values.length ++ " values but " ++
      toString c.types.length ++ " column types were declared"⟩, c)
  else
    match putColumns types (values.zip c.types) (c.buf ++ u16Bytes values.length) with
    | (.error e, buf) => (.error e, { c with buf := buf })
    | (.ok _, buf) => flush { c with buf := buf, rows := c.rows + 1 } false

/-- A row is written; its values are what it iterates over, which may fail. -/
def writeRow (types : ColumnTypes τ) (c : RustCopy τ) (row : PyResult (List PyValue)) :
    PyResult Unit × RustCopy τ :=
  match row with
  | .error e => (.error e, c.begin)
  | .ok values =>
    if anyNulText values then (.error ⟨nulInText⟩, c.begin)
    else if c.binary then writeBinary types c.begin values
    else writeText c.begin values

/-- A binary stream that has rows of its own, or nothing, is closed with a trailer. -/
def closing (c : RustCopy τ) : RustCopy τ :=
  if c.binary then
    if !c.started then
      { c with started := true, buf := c.buf ++ copyBinaryHeader ++ copyBinaryTrailer }
    else if c.rowMode then { c with buf := c.buf ++ copyBinaryTrailer }
    else c
  else c

/-- The end of the stream; `answer` is what the server says of all that was sent. -/
def finish (answer : List UInt8 → PyResult ℤ) (c : RustCopy τ) : PyResult ℤ × RustCopy τ :=
  match c.closing.flush true with
  | (.error e, c) => (.error e, c)
  | (.ok _, c) =>
    if c.sinkOpen then (answer c.sent.flatten, { c with sinkOpen := false })
    else (.error copyFinished, c)

end RustCopy

/-- A call that a caller makes before the stream is finished. -/
inductive CopyCall where
  | setTypes (oids : List ℕ)
  | writeRow (row : PyResult (List PyValue))

namespace RustCopy

/-- A call, whatever it answers. -/
def step (types : ColumnTypes τ) (c : RustCopy τ) : CopyCall → PyResult Unit × RustCopy τ
  | .setTypes oids => c.setTypes types oids
  | .writeRow row => c.writeRow types row

/-- The stream after a call: a caller that is told of an error goes on. -/
def next (types : ColumnTypes τ) (c : RustCopy τ) (call : CopyCall) : Option (RustCopy τ) :=
  some (c.step types call).2

/-- The stream after some calls. -/
def after (types : ColumnTypes τ) (c : RustCopy τ) : List CopyCall → RustCopy τ
  | [] => c
  | call :: calls => after types (c.step types call).2 calls

end RustCopy

/-! ## What it should hold -/

/-- The value of a column that is encoded; NULL is none. -/
def Boxed.value (boxed : Boxed) : Option (Option (List UInt8)) :=
  if boxed.textFormat then none
  else
    match boxed.toSqlChecked with
    | .null _ => some none
    | .value written => some (some written)
    | .failed _ _ => none

/-- The value of a column that can be converted and encoded. -/
def columnValue (types : ColumnTypes τ) (v : PyValue) (ty : τ) : Option (Option (List UInt8)) :=
  match v with
  | .none => some none
  | v =>
    match types.pyToSql v ty with
    | .error _ => none
    | .ok boxed => boxed.value

/-- A column: its length and its bytes, or -1 for NULL. -/
def fieldBytes : Option (List UInt8) → List UInt8
  | none => i32Bytes (-1)
  | some bytes => i32Bytes bytes.length ++ bytes

/-- The columns of a row that can be encoded. -/
def columnValues (types : ColumnTypes τ) : List (PyValue × τ) → Option (List (Option (List UInt8)))
  | [] => some []
  | (v, ty) :: columns => do
    let field ← columnValue types v ty
    let fields ← columnValues types columns
    some (field :: fields)

/-- A row: in binary the number of its columns and each of them, in text a line. -/
def rowBytes (types : ColumnTypes τ) (binary : Bool) (columns : List τ) (values : List PyValue) :
    Option (List UInt8) :=
  if binary then
    (columnValues types (values.zip columns)).map fun fields =>
      u16Bytes values.length ++ fields.flatMap fieldBytes
  else
    match copyLine values with
    | .error _ => none
    | .ok line => some (line.flatMap String.utf8EncodeChar)

/-- Whole rows as a stream. -/
def streamOf (binary : Bool) (rows : List UInt8) : List UInt8 :=
  if binary then copyBinaryHeader ++ rows ++ copyBinaryTrailer else rows

namespace RustCopy

/-- What a call that answers without an error writes. -/
def accepted (types : ColumnTypes τ) (c : RustCopy τ) (call : CopyCall) : Option (List UInt8) :=
  match (c.step types call).1, call with
  | .error _, _ => some []
  | .ok _, .setTypes _ => some []
  | .ok _, .writeRow (.error _) => none
  | .ok _, .writeRow (.ok values) => rowBytes types c.binary c.types values

/-- The rows that were accepted, in order. -/
def wholeRows (types : ColumnTypes τ) (c : RustCopy τ) : List CopyCall → Option (List UInt8)
  | [] => some []
  | call :: calls => do
    let row ← accepted types c call
    let rows ← wholeRows types (c.step types call).2 calls
    some (row ++ rows)

/-- What the stream holds once it has begun, sent or not. -/
def total (c : RustCopy τ) : List UInt8 := c.sent.flatten ++ c.begin.buf

/-- A call that no column stops: a binary row that iterates, is free of NUL and is as wide as the
types has an encoding. -/
def Clean (types : ColumnTypes τ) (c : RustCopy τ) : CopyCall → Prop
  | .writeRow (.ok values) =>
    c.binary → anyNulText values = false → c.types.length = values.length →
      (columnValues types (values.zip c.types)).isSome
  | _ => True

end RustCopy

/-! ## A column -/

@[simp] lemma length_u16Bytes (n : ℕ) : (u16Bytes n).length = 2 := rfl

@[simp] lemma length_i32Bytes (n : ℤ) : (i32Bytes n).length = 4 := rfl

lemma patched_room (buf written : List UInt8) :
    patched buf.length (buf ++ i32Bytes 0 ++ written) =
      buf ++ (i32Bytes written.length ++ written) := by
  have hlength : (buf ++ i32Bytes 0 ++ written).length - buf.length - 4 = written.length := by
    simp only [List.length_append, length_i32Bytes]
    omega
  have hdrop : (buf ++ i32Bytes 0 ++ written).drop (buf.length + 4) = written :=
    List.drop_left' (by simp)
  rw [patched, hlength, hdrop, List.append_assoc buf, List.take_left, List.append_assoc]

lemma putBoxed_some {types : ColumnTypes τ} {ty : τ} {boxed : Boxed}
    {field : Option (List UInt8)} (h : boxed.value = some field) (buf : List UInt8) :
    putBoxed types ty boxed buf = (.ok (), buf ++ fieldBytes field) := by
  unfold Boxed.value at h
  split at h
  · contradiction
  · rename_i htext
    rw [putBoxed, if_neg htext]
    cases hchecked : boxed.toSqlChecked with
    | null written =>
        simp only [hchecked] at h
        obtain rfl := Option.some.inj h
        show (_, _) = _
        rw [List.append_assoc, List.take_left]
        rfl
    | value written =>
        simp only [hchecked] at h
        obtain rfl := Option.some.inj h
        show (_, _) = _
        rw [patched_room]
        rfl
    | failed e written =>
        simp only [hchecked] at h
        contradiction

lemma putBoxed_none {types : ColumnTypes τ} {ty : τ} {boxed : Boxed}
    (h : boxed.value = none) (buf : List UInt8) :
    ∃ e left, putBoxed types ty boxed buf = (.error e, buf ++ left) := by
  unfold Boxed.value at h
  split at h
  · rename_i htext
    rw [putBoxed, if_pos htext]
    exact ⟨_, [], by rw [List.append_nil]⟩
  · rename_i htext
    rw [putBoxed, if_neg htext]
    cases hchecked : boxed.toSqlChecked with
    | null written => simp [hchecked] at h
    | value written => simp [hchecked] at h
    | failed e written =>
        exact ⟨⟨"COPY encode failed: " ++ e⟩, i32Bytes 0 ++ written, by simp only [List.append_assoc]⟩

/-- A value that is not NULL is converted, and then put. -/
lemma putColumn_of_ne {v : PyValue} (h : v ≠ .none) (types : ColumnTypes τ) (ty : τ)
    (buf : List UInt8) :
    putColumn types v ty buf =
      match types.pyToSql v ty with
      | .error e => (.error e, buf)
      | .ok boxed => putBoxed types ty boxed buf := by
  cases v <;> first | rfl | contradiction

lemma columnValue_of_ne {v : PyValue} (h : v ≠ .none) (types : ColumnTypes τ) (ty : τ) :
    columnValue types v ty =
      match types.pyToSql v ty with
      | .error _ => none
      | .ok boxed => boxed.value := by
  cases v <;> first | rfl | contradiction

/-- A column that can be encoded is put whole. -/
lemma putColumn_some {types : ColumnTypes τ} {v : PyValue} {ty : τ} {field : Option (List UInt8)}
    (h : columnValue types v ty = some field) (buf : List UInt8) :
    putColumn types v ty buf = (.ok (), buf ++ fieldBytes field) := by
  by_cases hnone : v = .none
  · subst hnone
    obtain rfl := Option.some.inj h
    rfl
  · rw [columnValue_of_ne hnone] at h
    rw [putColumn_of_ne hnone]
    cases hsql : types.pyToSql v ty with
    | error e => simp [hsql] at h
    | ok boxed =>
        simp only [hsql] at h
        exact putBoxed_some h buf

/-- A column that cannot be encoded may have been begun. -/
lemma putColumn_none {types : ColumnTypes τ} {v : PyValue} {ty : τ}
    (h : columnValue types v ty = none) (buf : List UInt8) :
    ∃ e left, putColumn types v ty buf = (.error e, buf ++ left) := by
  by_cases hnone : v = .none
  · subst hnone
    contradiction
  · rw [columnValue_of_ne hnone] at h
    rw [putColumn_of_ne hnone]
    cases hsql : types.pyToSql v ty with
    | error e => exact ⟨e, [], by rw [List.append_nil]⟩
    | ok boxed =>
        simp only [hsql] at h
        exact putBoxed_none h buf

lemma putColumns_some {types : ColumnTypes τ} :
    ∀ {columns : List (PyValue × τ)} {fields : List (Option (List UInt8))} (buf : List UInt8),
      columnValues types columns = some fields →
        putColumns types columns buf = (.ok (), buf ++ fields.flatMap fieldBytes)
  | [], fields, buf, h => by
      obtain rfl := Option.some.inj h
      rw [putColumns, List.flatMap_nil, List.append_nil]
  | (v, ty) :: columns, fields, buf, h => by
      cases hfield : columnValue types v ty with
      | none => simp [columnValues, hfield] at h
      | some field =>
          cases hrest : columnValues types columns with
          | none => simp [columnValues, hfield, hrest] at h
          | some rest =>
              have hfields : field :: rest = fields := by
                simpa [columnValues, hfield, hrest] using h
              rw [putColumns, putColumn_some hfield]
              show putColumns types columns (buf ++ fieldBytes field) = _
              rw [putColumns_some _ hrest, ← hfields, List.flatMap_cons, List.append_assoc]

lemma putColumns_none {types : ColumnTypes τ} :
    ∀ {columns : List (PyValue × τ)} (buf : List UInt8), columnValues types columns = none →
      ∃ e left, putColumns types columns buf = (.error e, buf ++ left)
  | [], buf, h => by contradiction
  | (v, ty) :: columns, buf, h => by
      rw [putColumns]
      cases hfield : columnValue types v ty with
      | none =>
          obtain ⟨e, left, hput⟩ := putColumn_none hfield buf
          exact ⟨e, left, by rw [hput]⟩
      | some field =>
          have hrest : columnValues types columns = none := by
            cases hrest : columnValues types columns with
            | none => rfl
            | some rest => simp [columnValues, hfield, hrest] at h
          obtain ⟨e, left, hput⟩ := putColumns_none (buf ++ fieldBytes field) hrest
          refine ⟨e, fieldBytes field ++ left, ?_⟩
          rw [putColumn_some hfield]
          show putColumns types columns (buf ++ fieldBytes field) = _
          rw [hput, List.append_assoc]

/-! ## A step -/

namespace RustCopy

lemma total_started {c : RustCopy τ} (h : c.started = true) : c.total = c.sent.flatten ++ c.buf := by
  rw [total, begin]
  simp only [h, Bool.not_true, Bool.false_eq_true, false_and, if_false]

lemma total_begin (c : RustCopy τ) : c.begin.total = c.total := total_started rfl

/-- Cutting a chunk off changes nothing of the stream. -/
lemma flush_open {c : RustCopy τ} (h : c.sinkOpen = true) (force : Bool) :
    (c.flush force).1 = .ok () ∧ (c.flush force).2.sinkOpen = true ∧
      (c.flush force).2.started = c.started ∧ (c.flush force).2.binary = c.binary ∧
      (c.flush force).2.rowMode = c.rowMode ∧
      (c.flush force).2.sent.flatten ++ (c.flush force).2.buf = c.sent.flatten ++ c.buf := by
  by_cases hshort : c.buf = [] ∨ (!force ∧ c.buf.length < copyFlushAt)
  · rw [flush, if_pos hshort]
    exact ⟨rfl, h, rfl, rfl, rfl, rfl⟩
  · rw [flush, if_neg hshort, if_pos h]
    refine ⟨rfl, h, rfl, rfl, rfl, ?_⟩
    simp only [List.flatten_append, List.flatten_cons, List.flatten_nil, List.append_nil]

/-- What a call leaves of a stream whose sink is open: it puts `row` and then `left`. -/
structure Puts (c : RustCopy τ) (after : PyResult Unit × RustCopy τ) (row left : List UInt8) :
    Prop where
  sinkOpen : after.2.sinkOpen = true
  binary : after.2.binary = c.binary
  begun : after.2.started = true → after.2.rowMode = true
  total : after.2.total = c.total ++ row ++ left

/-- A stream with a row more in its buffer. -/
def withRow (c : RustCopy τ) (row : List UInt8) : RustCopy τ :=
  { c with buf := c.buf ++ row, rows := c.rows + 1 }

/-- A row that was put, and flushed where the buffer is long. -/
lemma puts_flush {c : RustCopy τ} (h : c.sinkOpen = true) (row : List UInt8) :
    Puts c (flush (withRow c.begin row) false) row [] ∧
      (flush (withRow c.begin row) false).1 = .ok () := by
  obtain ⟨hok, hopen, hstarted, hbinary, hmode, hflat⟩ :=
    flush_open (c := withRow c.begin row) h false
  refine ⟨⟨hopen, hbinary, fun _ => hmode, ?_⟩, hok⟩
  rw [total_started hstarted, hflat, total, List.append_nil, List.append_assoc]
  rfl

/-- A stream that was begun, with something behind its buffer. -/
lemma puts_left {c : RustCopy τ} (h : c.sinkOpen = true) (e : PyError) (left : List UInt8) :
    Puts c (.error e, { c.begin with buf := c.begin.buf ++ left }) [] left := by
  refine ⟨h, rfl, fun _ => rfl, ?_⟩
  rw [total_started rfl, total, List.append_nil, List.append_assoc]
  rfl

lemma puts_begin {c : RustCopy τ} (h : c.sinkOpen = true) (e : PyError) :
    Puts c (.error e, c.begin) [] [] := by
  refine ⟨h, rfl, fun _ => rfl, ?_⟩
  rw [total_begin, List.append_nil, List.append_nil]

lemma puts_setTypes (types : ColumnTypes τ) {c : RustCopy τ} (h : c.sinkOpen = true)
    (hbegun : c.started = true → c.rowMode = true) (oids : List ℕ) :
    Puts c (c.setTypes types oids) [] [] := by
  unfold setTypes
  split
  · exact ⟨h, rfl, hbegun, by simp⟩
  · refine ⟨h, rfl, hbegun, ?_⟩
    rw [List.append_nil, List.append_nil]
    rfl

/-- What was put belongs to a row exactly if the call has no error to tell. -/
def RowOf (bytes : Option (List UInt8)) (row : List UInt8) : PyResult Unit → Prop
  | .error _ => row = []
  | .ok _ => bytes = some row

lemma accepted_writeRow {types : ColumnTypes τ} {c : RustCopy τ} {values : List PyValue}
    {row : List UInt8}
    (h : RowOf (rowBytes types c.binary c.types values) row (c.writeRow types (.ok values)).1) :
    accepted types c (.writeRow (.ok values)) = some row := by
  unfold accepted
  show (match (c.writeRow types (.ok values)).1, CopyCall.writeRow (.ok values) with
    | .error _, _ => some []
    | .ok _, .setTypes _ => some []
    | .ok _, .writeRow (.error _) => none
    | .ok _, .writeRow (.ok values) => rowBytes types c.binary c.types values) = some row
  cases hresult : (c.writeRow types (.ok values)).1 with
  | error e =>
      rw [hresult] at h
      exact congrArg some (Eq.symm h)
  | ok _ =>
      rw [hresult] at h
      exact h

lemma puts_writeText (types : ColumnTypes τ) {c : RustCopy τ} (h : c.sinkOpen = true)
    (values : List PyValue) :
    ∃ row, Puts c (writeText c.begin values) row [] ∧
      RowOf (rowBytes types false c.types values) row (writeText c.begin values).1 := by
  rw [writeText, rowBytes]
  cases hline : copyLine values with
  | error e => exact ⟨[], puts_begin h e, rfl⟩
  | ok line =>
      obtain ⟨hputs, hok⟩ := puts_flush h (line.flatMap String.utf8EncodeChar)
      refine ⟨line.flatMap String.utf8EncodeChar, hputs, ?_⟩
      show RowOf _ _ (flush (withRow c.begin _) false).1
      rw [hok]
      rfl

lemma writeBinary_error {types : ColumnTypes τ} {c : RustCopy τ} {values : List PyValue}
    {e : PyError} {buf : List UInt8} (hwidth : c.types.length = values.length)
    (hput : putColumns types (values.zip c.types) (c.buf ++ u16Bytes values.length) =
      (.error e, buf)) :
    writeBinary types c values = (.error e, { c with buf := buf }) := by
  rw [writeBinary, if_neg (not_not_intro hwidth), hput]

lemma writeBinary_ok {types : ColumnTypes τ} {c : RustCopy τ} {values : List PyValue}
    {row : List UInt8} (hwidth : c.types.length = values.length)
    (hput : putColumns types (values.zip c.types) (c.buf ++ u16Bytes values.length) =
      (.ok (), c.buf ++ row)) :
    writeBinary types c values = flush (withRow c row) false := by
  rw [writeBinary, if_neg (not_not_intro hwidth), hput]
  rfl

/-- A binary row is put whole, or up to the column that cannot be encoded. -/
lemma puts_writeBinary (types : ColumnTypes τ) {c : RustCopy τ} (h : c.sinkOpen = true)
    (values : List PyValue) :
    ∃ row left, Puts c (writeBinary types c.begin values) row left ∧
      RowOf (rowBytes types true c.types values) row (writeBinary types c.begin values).1 ∧
      (left = [] ↔ (c.types.length = values.length →
        (columnValues types (values.zip c.types)).isSome)) := by
  by_cases hwidth : c.types.length = values.length
  · have hwidth' : c.begin.types.length = values.length := hwidth
    cases hfields : columnValues types (values.zip c.types) with
    | none =>
        obtain ⟨e, left, hput⟩ := putColumns_none (c.begin.buf ++ u16Bytes values.length) hfields
        rw [List.append_assoc] at hput
        rw [writeBinary_error hwidth' hput]
        refine ⟨[], u16Bytes values.length ++ left, puts_left h e _, rfl, ?_⟩
        exact ⟨fun hnil => absurd hnil (by simp [u16Bytes]), fun hsome => by simpa using hsome hwidth⟩
    | some fields =>
        have hput := putColumns_some (c.begin.buf ++ u16Bytes values.length) hfields
        rw [List.append_assoc] at hput
        rw [writeBinary_ok hwidth' hput]
        obtain ⟨hputs, hok⟩ := puts_flush h (u16Bytes values.length ++ fields.flatMap fieldBytes)
        refine ⟨_, [], hputs, ?_, fun _ _ => rfl, fun _ => rfl⟩
        rw [hok, rowBytes, if_pos rfl, hfields]
        rfl
  · have hwidth' : c.begin.types.length ≠ values.length := hwidth
    rw [writeBinary, if_pos hwidth']
    exact ⟨[], [], puts_begin h _, rfl, fun _ hequal => absurd hequal hwidth, fun _ => rfl⟩

/-- **A row is put whole, or not at all unless a column fails.** -/
lemma puts_writeRow (types : ColumnTypes τ) {c : RustCopy τ} (h : c.sinkOpen = true)
    (row : PyResult (List PyValue)) :
    ∃ bytes left, accepted types c (.writeRow row) = some bytes ∧
      Puts c (c.writeRow types row) bytes left ∧ (left = [] ↔ Clean types c (.writeRow row)) := by
  cases row with
  | error e => exact ⟨[], [], rfl, puts_begin h e, fun _ => trivial, fun _ => rfl⟩
  | ok values =>
      suffices hrow : ∃ bytes left,
          RowOf (rowBytes types c.binary c.types values) bytes
            (c.writeRow types (.ok values)).1 ∧
          Puts c (c.writeRow types (.ok values)) bytes left ∧
          (left = [] ↔ Clean types c (.writeRow (.ok values))) by
        obtain ⟨bytes, left, hof, hputs, hclean⟩ := hrow
        exact ⟨bytes, left, accepted_writeRow hof, hputs, hclean⟩
      rw [writeRow]
      by_cases hnul : anyNulText values = true
      · rw [if_pos hnul]
        refine ⟨[], [], rfl, puts_begin h _, fun _ _ hfree => ?_, fun _ => rfl⟩
        rw [hnul] at hfree
        contradiction
      · rw [if_neg hnul]
        by_cases hbinary : c.binary = true
        · rw [if_pos hbinary, hbinary]
          obtain ⟨bytes, left, hputs, hof, hleft⟩ := puts_writeBinary types h values
          refine ⟨bytes, left, hof, hputs, hleft.trans ⟨fun hall _ _ => hall, fun hall => ?_⟩⟩
          exact hall hbinary (eq_false_of_ne_true hnul)
        · rw [if_neg hbinary, eq_false_of_ne_true hbinary]
          obtain ⟨bytes, hputs, hof⟩ := puts_writeText types h values
          exact ⟨bytes, [], hof, hputs, fun _ hb => absurd hb hbinary, fun _ => rfl⟩

lemma step_puts (types : ColumnTypes τ) {c : RustCopy τ} (h : c.sinkOpen = true)
    (hbegun : c.started = true → c.rowMode = true) (call : CopyCall) :
    ∃ bytes left, accepted types c call = some bytes ∧ Puts c (c.step types call) bytes left ∧
      (left = [] ↔ Clean types c call) := by
  cases call with
  | setTypes oids =>
      refine ⟨[], [], ?_, puts_setTypes types h hbegun oids, fun _ => trivial, fun _ => rfl⟩
      unfold accepted
      cases (c.step types (.setTypes oids)).1 <;> rfl
  | writeRow row => exact puts_writeRow types h row

/-! ## Whole streams -/

/-- A stream after some calls: the rows that were accepted, and `left` bytes between them. -/
structure Written (types : ColumnTypes τ) (c : RustCopy τ) (calls : List CopyCall)
    (rows : List UInt8) (left : ℕ) : Prop where
  sinkOpen : (after types c calls).sinkOpen = true
  binary : (after types c calls).binary = c.binary
  begun : (after types c calls).started = true → (after types c calls).rowMode = true
  whole : wholeRows types c calls = some rows
  length : (after types c calls).total.length = c.total.length + rows.length + left
  total : left = 0 → (after types c calls).total = c.total ++ rows
  clean : left = 0 ↔ Throughout (next types) (Clean types) c calls

lemma written (types : ColumnTypes τ) (calls : List CopyCall) :
    ∀ {c : RustCopy τ}, c.sinkOpen = true → (c.started = true → c.rowMode = true) →
      ∃ rows left, Written types c calls rows left := by
  induction calls with
  | nil =>
      intro c hopen hbegun
      refine ⟨[], 0, hopen, rfl, hbegun, rfl, rfl, fun _ => ?_, fun _ => trivial, fun _ => rfl⟩
      rw [after, List.append_nil]
  | cons call calls ih =>
      intro c hopen hbegun
      obtain ⟨bytes, left, haccepted, hputs, hclean⟩ := step_puts types hopen hbegun call
      obtain ⟨rows, rest, hrest⟩ := ih hputs.sinkOpen hputs.begun
      refine ⟨bytes ++ rows, left.length + rest, hrest.sinkOpen, hrest.binary.trans hputs.binary,
        hrest.begun, ?_, ?_, fun hnone => ?_, ?_⟩
      · rw [wholeRows, haccepted, hrest.whole]
        rfl
      · have hlength := hrest.length
        rw [hputs.total] at hlength
        rw [after, hlength]
        simp only [List.length_append]
        omega
      · have hleft : left = [] := List.length_eq_zero_iff.mp (by omega)
        rw [after, hrest.total (by omega), hputs.total, hleft, List.append_nil, List.append_assoc]
      · rw [Throughout, ← hclean, ← List.length_eq_zero_iff, Nat.add_eq_zero_iff, hrest.clean]
        refine and_congr_right fun _ => ?_
        simp [next]

lemma flush_true {c : RustCopy τ} (h : c.sinkOpen = true) :
    (c.flush true).1 = .ok () ∧ (c.flush true).2.sinkOpen = true ∧
      (c.flush true).2.sent.flatten = c.sent.flatten ++ c.buf := by
  unfold flush
  by_cases hempty : c.buf = []
  · rw [if_pos (Or.inl hempty), hempty, List.append_nil]
    exact ⟨rfl, h, rfl⟩
  · rw [if_neg (by simpa using hempty), if_pos h]
    refine ⟨rfl, h, ?_⟩
    simp only [List.flatten_append, List.flatten_cons, List.flatten_nil, List.append_nil]

lemma closing_spec {c : RustCopy τ} (hbegun : c.started = true → c.rowMode = true) :
    c.closing.sinkOpen = c.sinkOpen ∧ c.closing.sent.flatten ++ c.closing.buf =
      if c.binary then c.total ++ copyBinaryTrailer else c.total := by
  unfold closing total begin
  cases hbinary : c.binary with
  | false => exact ⟨rfl, by simp⟩
  | true =>
      cases hstarted : c.started with
      | false => exact ⟨rfl, by simp⟩
      | true => simp [hbegun hstarted]

/-- All that a stream has sent once it is finished. -/
lemma sent_finish (answer : List UInt8 → PyResult ℤ) {c : RustCopy τ} (h : c.sinkOpen = true)
    (hbegun : c.started = true → c.rowMode = true) :
    (c.finish answer).2.sent.flatten =
      if c.binary then c.total ++ copyBinaryTrailer else c.total := by
  obtain ⟨hsink, hbytes⟩ := closing_spec hbegun
  obtain ⟨hok, hopen, hflat⟩ := flush_true (hsink.trans h)
  have hflush : c.closing.flush true = (.ok (), (c.closing.flush true).2) := Prod.ext hok rfl
  rw [finish, hflush]
  simp only [hopen, if_true]
  rw [hflat, hbytes]

end RustCopy

open RustCopy

/-- **A stream is the rows that were accepted, between its header and its trailer, exactly if no
binary row was begun that a column stopped**; such a row leaves bytes of its own. -/
theorem sends_whole_rows_iff (types : ColumnTypes τ) (answer : List UInt8 → PyResult ℤ)
    (binary : Bool) (calls : List CopyCall) :
    (some ((after types (opened τ binary) calls).finish answer).2.sent.flatten =
        (wholeRows types (opened τ binary) calls).map (streamOf binary) ↔
      Throughout (next types) (Clean types) (opened τ binary) calls) ∧
    ∀ (row : PyResult (List PyValue)) (e : PyError),
      let c := after types (opened τ binary) calls
      (c.writeRow types row).1 = .error e →
        ((c.writeRow types row).2.total = c.total ↔ Clean types c (.writeRow row)) := by
  obtain ⟨rows, left, h⟩ := written types calls (c := opened τ binary) rfl nofun
  constructor
  · rw [h.whole, sent_finish answer h.sinkOpen h.begun, h.binary, ← h.clean]
    have htotal : (opened τ binary).total = if binary then copyBinaryHeader else [] := by
      cases binary <;> rfl
    have hlength := h.length
    rw [htotal] at hlength
    cases binary with
    | false =>
        show some (after types (opened τ false) calls).total = some rows ↔ _
        refine ⟨fun heq => ?_, fun hnone => ?_⟩
        · rw [Option.some.inj heq] at hlength
          simp at hlength
          exact hlength
        · rw [h.total hnone, htotal]
          rfl
    | true =>
        show some ((after types (opened τ true) calls).total ++ copyBinaryTrailer) =
          some (copyBinaryHeader ++ rows ++ copyBinaryTrailer) ↔ _
        rw [Option.some.injEq, List.append_left_inj]
        refine ⟨fun heq => ?_, fun hnone => ?_⟩
        · rw [heq] at hlength
          simp at hlength
          exact hlength
        · rw [h.total hnone, htotal]
          rfl
  · intro row e c herror
    obtain ⟨bytes, rest, haccepted, hputs, hclean⟩ := puts_writeRow types h.sinkOpen row
    have hbytes : bytes = [] := by
      unfold accepted at haccepted
      show bytes = []
      have hstep : (RustCopy.step types c (.writeRow row)).1 = .error e := herror
      rw [hstep] at haccepted
      exact (Option.some.inj haccepted).symm
    rw [← hclean, hputs.total, hbytes, List.append_nil, List.append_right_eq_self]

/-- Integers of four bytes; a text for one is sent as it is. -/
def int4Only : ColumnTypes Unit where
  ofOid oid := if oid = 23 then some () else none
  name _ := "int4"
  pyToSql v _ :=
    match v with
    | .none => .ok ⟨false, .null []⟩
    | .int n => .ok ⟨false, .value (i32Bytes n)⟩
    | _ => .ok ⟨true, .failed "cannot convert" []⟩

/-- Two columns, a row with a text in the second, and a row of integers. -/
def textInSecond : List CopyCall :=
  [.setTypes [23, 23], .writeRow (.ok [.int 1, .str ['x']]), .writeRow (.ok [.int 1, .int 2])]

/-- The start of a row that was refused stays in the stream. -/
theorem refused_row_stays :
    some ((after int4Only (opened Unit true) textInSecond).finish fun _ => .ok 1).2.sent.flatten ≠
      (wholeRows int4Only (opened Unit true) textInSecond).map (streamOf true) := by
  decide +kernel

/-- Without that row the stream is what it should be. -/
theorem integers_sent :
    some ((after int4Only (opened Unit true)
        [.setTypes [23, 23], .writeRow (.ok [.int 1, .int 2])]).finish fun _ => .ok 1).2.sent.flatten =
      (wholeRows int4Only (opened Unit true)
        [.setTypes [23, 23], .writeRow (.ok [.int 1, .int 2])]).map (streamOf true) :=
  (sends_whole_rows_iff int4Only (fun _ => .ok 1) true _).1.mpr
    ⟨trivial, fun _ h => by
      obtain rfl := Option.some.inj h
      exact ⟨fun _ _ _ => rfl, fun _ _ => trivial⟩⟩

end OdooKernel
