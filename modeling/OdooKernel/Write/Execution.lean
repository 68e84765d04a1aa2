import OdooKernel.Core.Batches
import OdooKernel.Rules.Names
import OdooKernel.Write.Statements

/-!
# What bulk writes do

The statements of a bulk write are sent one after the other, each with its values.  What the server
makes of one is said of its structure, which is what the text renders (`render_updateStatement`).

**The server** resolves the names of a statement, reads its parameters as they come in the text, and
changes the rows that have one of the ids, or a tuple with their id (`UpdateStatement.exec`).  What
it makes of a value, a conversion or the merging of translations, is a parameter (`WriteServer`).

**Python** sends one statement where all rows get the same values, and else one for each batch, all
of them rendered before the first is sent; a refusal leaves the whole write to Python's own code
(`WriteOutcome.ofResult`).

**What is compared.**  `writtenRows` is the table in which each row that is written has its own
values and no other row has changed; it knows no statements, no batches and no placeholders.

* `exec_uniform`, `exec_tuples` — one statement; `execAll_batches` — several.
* `WellNamed` — the names that an update uses are told apart.
* **`updateRowsNative_writes`** — the statements make the table hold that.
-/

namespace OdooKernel

/-! ## Statements -/

/-- A value of a statement, with the type that it is converted to. -/
inductive WriteExpr where
  | param (cast : String)
  | tmp (column cast : String)
deriving DecidableEq, Repr

/-- What a column is set to; a whole translation keeps the languages that are not given. -/
inductive SetClause where
  | plain (column : String) (e : WriteExpr)
  | whole (column : String) (e : WriteExpr)
deriving DecidableEq, Repr

/-- The rows an update is about: those with an id of a list, or those with a tuple. -/
inductive UpdateSource where
  | anyOf
  | tuples (columns : List String) (rows : ℕ)
deriving DecidableEq, Repr

/-- An update. -/
structure UpdateStatement where
  table : String
  sets : List SetClause
  source : UpdateSource
deriving DecidableEq, Repr

def WriteExpr.render : WriteExpr → String
  | .param cast => "%s::" ++ cast
  | .tmp column cast => "\"__tmp\"." ++ ident column ++ "::" ++ cast

def SetClause.column : SetClause → String
  | .plain column _ => column
  | .whole column _ => column

def SetClause.expr : SetClause → WriteExpr
  | .plain _ e => e
  | .whole _ e => e

def SetClause.render (table : String) : SetClause → String
  | .plain column e => ident column ++ " = " ++ e.render
  | .whole column e => wholeAssignment table (ident column) e.render

/-- The text of an update. -/
def UpdateStatement.render (s : UpdateStatement) : String :=
  let table := ident s.table
  let sets := commas (s.sets.map (SetClause.render table))
  match s.source with
  | .tuples columns rows =>
    tuplesUpdate table sets (commas (List.replicate rows (placeholders (columns.length + 1))))
      (commas (columns.map ident))
  | .anyOf => uniformUpdate table sets

/-- What a field is set to. -/
def setClause (shape : UpdateShape) (f : Field) : SetClause :=
  let e := match shape with
    | .Values => .tmp f.name (castOf f)
    | .Uniform => .param (castOf f)
  if f.translateWhole then .whole f.name e else .plain f.name e

/-- The update of some fields. -/
def updateStatement (model : Model) (fields : List Field) (shape : UpdateShape) (rowCount : ℕ) :
    UpdateStatement where
  table := model.table
  sets := fields.map (setClause shape)
  source := match shape with
    | .Values => .tuples (fields.map Field.name) rowCount
    | .Uniform => .anyOf

lemma render_setClause (table : String) (shape : UpdateShape) (f : Field) :
    (setClause shape f).render table = assignment table f (valueExpr shape f) := by
  unfold setClause assignment
  cases f.translateWhole <;> cases shape <;> rfl

/-- **The kernel's text is that of its statement.** -/
lemma render_updateStatement (model : Model) (fields : List Field) (shape : UpdateShape)
    (rowCount : ℕ) :
    (updateStatement model fields shape rowCount).render = updateText model fields shape rowCount := by
  have hsets : (fields.map (setClause shape)).map (SetClause.render (ident model.table))
      = fields.map fun f => assignment (ident model.table) f (valueExpr shape f) := by
    rw [List.map_map]
    exact List.map_congr_left fun f _ => render_setClause _ _ _
  cases shape with
  | Uniform =>
      simp only [UpdateStatement.render, updateStatement, updateText, assignmentsText, hsets]
  | Values =>
      simp only [UpdateStatement.render, updateStatement, updateText, assignmentsText, hsets,
        List.length_map, List.map_map, Function.comp_def]

/-! ## What the server does -/

/-- A value that is bound to a placeholder. -/
inductive Param (α : Type) where
  | id (id : ℤ)
  | ids (ids : List ℤ)
  | value (v : α)

/-- What the server makes of values: it converts them to a type, and merges translations. -/
structure WriteServer (α : Type) where
  cast : String → α → Option Datum
  enUs : Option Datum → Datum
  concat : Datum → Datum → Datum

section Exec

variable {α : Type} (server : WriteServer α)

/-- The value of an expression, its parameters being read as they come. -/
def WriteExpr.read (tuple : List (String × Param α)) :
    WriteExpr → List (Param α) → Option (Option Datum × List (Param α))
  | .param cast, .value v :: params => some (server.cast cast v, params)
  | .param _, _ => none
  | .tmp column cast, params =>
    match tuple.lookup column with
    | some (.value v) => some (server.cast cast v, params)
    | _ => none

/-- What a column becomes. -/
abbrev Change := Option Datum → Option Datum

/-- `CASE WHEN a IS NULL THEN NULL ELSE COALESCE(old, jsonb_build_object('en_US', ..b..)) || c END`. -/
def wholeChange (a b c : Option Datum) : Change := fun old =>
  if a = none then none else c.map (server.concat (old.getD (server.enUs b)))

/-- The change of a column; a whole translation reads its value three times. -/
def SetClause.read (tuple : List (String × Param α)) (s : SetClause) (params : List (Param α)) :
    Option ((String × Change) × List (Param α)) :=
  match s with
  | .plain column e => do
    let (v, params) ← e.read server tuple params
    return ((column, fun _ => v), params)
  | .whole column e => do
    let (a, params) ← e.read server tuple params
    let (b, params) ← e.read server tuple params
    let (c, params) ← e.read server tuple params
    return ((column, wholeChange server a b c), params)

/-- The changes of some columns. -/
def readSets (tuple : List (String × Param α)) :
    List SetClause → List (Param α) → Option (List (String × Change) × List (Param α))
  | [], params => some ([], params)
  | s :: sets, params => do
    let (change, params) ← s.read server tuple params
    let (changes, params) ← readSets tuple sets params
    return (change :: changes, params)

/-- A row after some changes. -/
def changeRow (changes : List (String × Change)) (row : Row) : Row := fun column =>
  ((changes.lookup column).elim id fun change => change) (row column)

/-- How many parameters the change of a column reads. -/
def SetClause.holes : SetClause → ℕ
  | .plain _ (.param _) => 1
  | .whole _ (.param _) => 3
  | _ => 0

/-- The tuples of a list of values, each as long as the columns. -/
def readTuples (columns : List String) : ℕ → List (Param α) → Option (List (List (String × Param α)))
  | 0, params => if params.isEmpty then some [] else none
  | rows + 1, params => do
    if params.length < columns.length then none
    else
      let tuples ← readTuples columns rows (params.drop columns.length)
      return columns.zip (params.take columns.length) :: tuples

/-- The names of a statement are resolved: no column is set twice, and the tuples have a name of their
own and each of the columns that are read once. -/
def UpdateStatement.Resolves (s : UpdateStatement) : Prop :=
  (s.sets.map SetClause.column).Nodup ∧
    match s.source with
    | .anyOf => True
    | .tuples columns _ => s.table ≠ "__tmp" ∧ ("id" :: columns).Nodup

instance decidableResolves (s : UpdateStatement) : Decidable s.Resolves := by
  unfold UpdateStatement.Resolves
  cases s.source <;> infer_instance

/-- The tuple of a row. -/
def tupleOf (tuples : List (List (String × Param α))) (row : Row) : Option (List (String × Param α)) :=
  tuples.find? fun tuple =>
    match tuple.lookup "id" with
    | some (.id id) => row.int? "id" = some id
    | _ => false

/-- The rows with some ids are changed; the ids are bound behind the values. -/
def execAnyOf (sets : List SetClause) (params : List (Param α)) (rows : List Row) :
    Option (List Row) := do
  match ← readSets server [] sets params with
  | (changes, [.ids ids]) =>
    return rows.map fun row => if (row.int? "id").any (· ∈ ids) then changeRow changes row else row
  | _ => none

/-- The rows with a tuple are changed; the values of the assignments are bound before the tuples. -/
def execTuples (sets : List SetClause) (columns : List String) (count : ℕ) (params : List (Param α))
    (rows : List Row) : Option (List Row) := do
  let first := (sets.map SetClause.holes).sum
  let tuples ← readTuples ("id" :: columns) count (params.drop first)
  rows.mapM fun row => (tupleOf tuples row).elim (some row) fun tuple => do
    let (changes, _) ← readSets server tuple sets (params.take first)
    return changeRow changes row

/-- **What an update does to the rows of its table**, or nothing where the server refuses it. -/
def UpdateStatement.exec (s : UpdateStatement) (params : List (Param α)) (rows : List Row) :
    Option (List Row) :=
  if s.Resolves then
    match s.source with
    | .anyOf => execAnyOf server s.sets params rows
    | .tuples columns count => execTuples server s.sets columns count params rows
  else none

/-- Some statements, one after the other. -/
def execAll : List (UpdateStatement × List (Param α)) → List Row → Option (List Row)
  | [], rows => some rows
  | (s, params) :: rest, rows => do execAll rest (← s.exec server params rows)

/-! ## What Python sends -/

/-- A row to write: an id, and a value for each column. -/
abbrev WriteRow (α : Type) := ℤ × List α

/-- A kernel that renders statements, from the registry it was built of. -/
structure WriteKernel where
  registry : Registry
  registrySequence : Option ℤ
  stale : Bool

/-- What comes of a bulk write: it is left to Python, an exception, or statements. -/
inductive WriteOutcome (α : Type) where
  | delegated
  | raised
  | statements (sent : List (String × List (Param α)))

/-- The kernel's rendering: a stale registry is refused like a field without a column. -/
def WriteKernel.updateRowsSql (kernel : WriteKernel) (modelName : String) (fnames : List String)
    (shape : UpdateShape) (rowCount : ℕ) : Result (String × List ℕ) :=
  if kernel.stale then .error .registryStale
  else do
    let sql ← OdooKernel.updateRowsSql kernel.registry modelName fnames shape rowCount
    let repeats := fnames.map fun fname =>
      ((kernel.registry.lookup modelName).bind (·.fields.get? fname)).elim 1 valueRepeats
    return (sql, repeats)

/-- The values of a statement that sets all rows to the same. -/
def uniformParams (values : List α) (repeats : List ℕ) (rows : List (WriteRow α)) : List (Param α) :=
  (values.zip repeats).flatMap (fun p => List.replicate p.2 (.value p.1)) ++ [.ids (rows.map Prod.fst)]

/-- The values of a statement with a tuple for each row. -/
def tupleParams (rows : List (WriteRow α)) : List (Param α) :=
  rows.flatMap fun row => .id row.1 :: row.2.map .value

/-- The statements of some batches, or the first refusal. -/
def batchStatements (kernel : WriteKernel) (modelName : String) (fnames : List String) :
    List (List (WriteRow α)) → Result (List (String × List (Param α)))
  | [] => .ok []
  | batch :: rest => do
    let (sql, _) ← kernel.updateRowsSql modelName fnames .Values batch.length
    let statements ← batchStatements kernel modelName fnames rest
    return (sql, tupleParams batch) :: statements

/-- A refusal leaves the write to Python, denied access and a stale registry being refusals too; nothing
has been sent by then. -/
def WriteOutcome.ofResult : Result (WriteOutcome α) → WriteOutcome α
  | .ok outcome => outcome
  | .error (.refusal _) | .error (.accessDenied _) | .error .registryStale => .delegated
  | .error _ => .raised

/-- Whether the registry of the environment is the one that the kernel was built of. -/
def WriteKernel.current (kernel : WriteKernel) (sequence : Option ℤ) : Bool :=
  sequence.isNone || sequence = kernel.registrySequence

/-- **The statements that Python sends**: one for all rows where they get the same values, else one
for each batch of them, all rendered before the first is sent. -/
def updateRowsNative (kernel : Option WriteKernel) (sequence : Option ℤ)
    (uniform : List (WriteRow α) → Option (List α)) (batchSize : ℕ) (modelName : String)
    (fnames : List String) (rows : List (WriteRow α)) : WriteOutcome α :=
  match kernel.filter (·.current sequence) with
  | none => .delegated
  | some kernel =>
    match uniform rows with
    | some values => .ofResult do
      let (sql, repeats) ← kernel.updateRowsSql modelName fnames .Uniform rows.length
      if values.length ≠ repeats.length then return .raised
      else return .statements [(sql, uniformParams values repeats rows)]
    | none => .ofResult do
      return .statements (← batchStatements kernel modelName fnames (batches batchSize rows))

/-! ## What the table shall hold -/

/-- What a column becomes by a value. -/
def newValue (f : Field) (v : α) : Change := fun old =>
  if f.translateWhole then
    (server.cast (castOf f) v).map fun new => server.concat (old.getD (server.enUs (some new))) new
  else server.cast (castOf f) v

/-- What the columns become by the values of a row. -/
def newColumns (fields : List Field) (values : List α) : List (String × Change) :=
  (fields.zip values).map fun p => (p.1.name, newValue server p.1 p.2)

/-- **A table in which each row that is written has its own values.** -/
def writtenRows (fields : List Field) (writes : List (WriteRow α)) (rows : List Row) : List Row :=
  rows.map fun row => ((row.int? "id").bind fun id => writes.find? (·.1 = id)).elim row
    fun write => changeRow (newColumns server fields write.2) row

/-! ## Parameters are read as they are bound -/

variable {server} {fields : List Field} {values : List α}

/-- A whole translation whose value is read three times. -/
lemma wholeChange_same (v : Option Datum) :
    wholeChange server v v v = fun old => v.map fun new =>
      server.concat (old.getD (server.enUs (some new))) new := by
  funext old
  cases v <;> rfl

/-- The values of a uniform update are read by the columns that they are bound for. -/
lemma readSets_uniform (hlength : values.length = fields.length) (rest : List (Param α)) :
    readSets server [] (fields.map (setClause .Uniform))
      ((values.zip (fields.map valueRepeats)).flatMap (fun p => List.replicate p.2 (.value p.1)) ++ rest)
      = some (newColumns server fields values, rest) := by
  induction fields generalizing values with
  | nil =>
      rw [List.length_eq_zero_iff.mp hlength]
      rfl
  | cons f fields ih =>
      cases values with
      | nil => cases hlength
      | cons v values =>
          have ih := ih (by simpa using hlength)
          have hclause : ∀ params, (setClause .Uniform f).read server []
              (List.replicate (valueRepeats f) (.value v) ++ params)
                = some ((f.name, newValue server f v), params) := by
            intro params
            unfold setClause newValue valueRepeats
            cases f.translateWhole with
            | true => exact congrArg (fun change => some ((f.name, change), params)) (wholeChange_same _)
            | false => rfl
          simp only [List.map_cons, List.zip_cons_cons, List.flatMap_cons, List.append_assoc, readSets,
            hclause, ih, Option.bind_eq_bind, Option.bind_some]
          rfl

/-- The values of a tuple are read by their columns. -/
lemma readSets_tuple {tuple : List (String × Param α)} (hlength : values.length = fields.length)
    (h : ∀ p ∈ fields.zip values, tuple.lookup p.1.name = some (.value p.2)) :
    readSets server tuple (fields.map (setClause .Values)) []
      = some (newColumns server fields values, []) := by
  induction fields generalizing values with
  | nil =>
      rw [List.length_eq_zero_iff.mp hlength]
      rfl
  | cons f fields ih =>
      cases values with
      | nil => cases hlength
      | cons v values =>
          rw [List.zip_cons_cons, List.forall_mem_cons] at h
          have ih := ih (by simpa using hlength) h.2
          have hexpr : (WriteExpr.tmp f.name (castOf f)).read server tuple []
              = some (server.cast (castOf f) v, []) := by
            rw [WriteExpr.read, h.1]
          have hclause : (setClause .Values f).read server tuple []
              = some ((f.name, newValue server f v), []) := by
            unfold setClause newValue
            cases f.translateWhole with
            | true =>
                simp only [if_true, SetClause.read, hexpr, Option.bind_eq_bind, Option.bind_some]
                exact congrArg (fun change => some ((f.name, change), [])) (wholeChange_same _)
            | false =>
                simp only [Bool.false_eq_true, if_false, SetClause.read, hexpr, Option.bind_eq_bind,
                  Option.bind_some]
                rfl
          simp only [List.map_cons, readSets, hclause, ih, Option.bind_eq_bind, Option.bind_some]
          rfl

/-! ## Rows are found by their ids -/

/-- The tuple of a row to write. -/
def writeTuple (names : List String) (write : WriteRow α) : List (String × Param α) :=
  ("id" :: names).zip (.id write.1 :: write.2.map .value)

/-- The tuples are read as they are bound. -/
lemma readTuples_tupleParams {names : List String} {writes : List (WriteRow α)}
    (hwidth : ∀ write ∈ writes, write.2.length = names.length) :
    readTuples ("id" :: names) writes.length (tupleParams writes)
      = some (writes.map (writeTuple names)) := by
  induction writes with
  | nil => rfl
  | cons write writes ih =>
      rw [List.forall_mem_cons] at hwidth
      have hlength : (Param.id write.1 :: write.2.map Param.value).length = ("id" :: names).length := by
        simp [hwidth.1]
      have hparams : tupleParams (write :: writes)
          = (.id write.1 :: write.2.map .value) ++ tupleParams writes := rfl
      rw [List.length_cons, readTuples, hparams, if_neg (by simp [hwidth.1]), List.take_left' hlength,
        List.drop_left' hlength, ih hwidth.2]
      rfl

/-- A row has the tuple of the first write with its id. -/
lemma tupleOf_writes (names : List String) (writes : List (WriteRow α)) (row : Row) :
    tupleOf (writes.map (writeTuple names)) row
      = ((row.int? "id").bind fun id => writes.find? (·.1 = id)).map (writeTuple names) := by
  unfold tupleOf
  rw [List.find?_map]
  cases hid : row.int? "id" with
  | none => simp [writeTuple]
  | some id' =>
      have hsame : ((fun tuple : List (String × Param α) => match tuple.lookup "id" with
          | some (.id id) => decide (some id' = some id)
          | _ => false) ∘ writeTuple names) = fun write => decide (write.1 = id') := by
        funext write
        simp [writeTuple, eq_comm]
      rw [Option.bind_some]
      exact congrArg _ (congrArg (List.find? · writes) hsame)

/-- A column's value in the tuple of a row. -/
lemma lookup_writeTuple {names : List String} (hnodup : ("id" :: names).Nodup) {write : WriteRow α}
    {name : String} {v : α} (h : (name, v) ∈ names.zip write.2) :
    (writeTuple names write).lookup name = some (.value v) := by
  have hname : name ≠ "id" := by
    rintro rfl
    exact (List.nodup_cons.mp hnodup).1 (List.of_mem_zip h).1
  rw [writeTuple, List.zip_cons_cons, List.lookup_cons, beq_eq_false_iff_ne.mpr hname]
  have hdistinct := (List.nodup_cons.mp hnodup).2
  obtain ⟨id, values⟩ := write
  change (name, v) ∈ names.zip values at h
  change (names.zip (values.map Param.value)).lookup name = some (.value v)
  clear hnodup
  induction names generalizing values with
  | nil => cases h
  | cons n names ih =>
      cases values with
      | nil => cases h
      | cons w values =>
          rw [List.zip_cons_cons] at h
          rw [List.map_cons, List.zip_cons_cons, List.lookup_cons]
          rcases List.mem_cons.mp h with heq | hmem
          · obtain ⟨rfl, rfl⟩ := Prod.mk.injEq .. ▸ heq
            simp
          · have hne : name ≠ n := by
              rintro rfl
              exact (List.nodup_cons.mp hdistinct).1 (List.of_mem_zip hmem).1
            rw [beq_eq_false_iff_ne.mpr hne]
            exact ih (List.nodup_cons.mp hdistinct).2 values hmem

/-! ## What the statements do -/

variable {model : Model} {writes : List (WriteRow α)}

lemma setClause_column (shape : UpdateShape) (f : Field) : (setClause shape f).column = f.name := by
  unfold setClause
  split_ifs <;> rfl

lemma setClause_holes (f : Field) : (setClause .Values f).holes = 0 := by
  unfold setClause
  split_ifs <;> rfl

/-- The names that an update of some fields uses are told apart. -/
structure WellNamed (model : Model) (fields : List Field) : Prop where
  table : model.table ≠ "__tmp"
  names : ("id" :: fields.map Field.name).Nodup

lemma resolves_updateStatement (h : WellNamed model fields) (shape : UpdateShape) (rowCount : ℕ) :
    (updateStatement model fields shape rowCount).Resolves := by
  have hcolumns : (fields.map (setClause shape)).map SetClause.column = fields.map Field.name := by
    rw [List.map_map]
    exact List.map_congr_left fun f _ => setClause_column shape f
  refine ⟨?_, ?_⟩
  · show ((fields.map (setClause shape)).map SetClause.column).Nodup
    rw [hcolumns]
    exact (List.nodup_cons.mp h.names).2
  · cases shape with
    | Uniform => trivial
    | Values => exact ⟨h.table, h.names⟩

lemma sum_holes (fields : List Field) :
    ((fields.map (setClause .Values)).map SetClause.holes).sum = 0 := by
  induction fields with
  | nil => rfl
  | cons f fields ih => simpa [setClause_holes] using ih

/-- **A statement with a tuple for each row sets each row to its own values.** -/
lemma exec_tuples (h : WellNamed model fields)
    (hwidth : ∀ write ∈ writes, write.2.length = fields.length) (rows : List Row) :
    (updateStatement model fields .Values writes.length).exec server (tupleParams writes) rows
      = some (writtenRows server fields writes rows) := by
  have htuples : readTuples ("id" :: fields.map Field.name) writes.length (tupleParams writes)
      = some (writes.map (writeTuple (fields.map Field.name))) :=
    readTuples_tupleParams (by simpa using hwidth)
  have hrow : ∀ row : Row, (tupleOf (writes.map (writeTuple (fields.map Field.name))) row).elim (some row)
      (fun tuple => do
        let (changes, _) ← readSets server tuple (fields.map (setClause .Values)) []
        return changeRow changes row)
      = some (((row.int? "id").bind fun id => writes.find? (·.1 = id)).elim row
        fun write => changeRow (newColumns server fields write.2) row) := by
    intro row
    rw [tupleOf_writes]
    cases hfound : (row.int? "id").bind fun id => writes.find? (·.1 = id) with
    | none => rfl
    | some write =>
        obtain ⟨id, -, hfind⟩ := Option.bind_eq_some_iff.mp hfound
        have hmem := List.mem_of_find?_eq_some hfind
        have hread : readSets server (writeTuple (fields.map Field.name) write)
            (fields.map (setClause .Values)) [] = some (newColumns server fields write.2, []) := by
          refine readSets_tuple (hwidth write hmem) ?_
          rintro ⟨f, v⟩ hp
          refine lookup_writeTuple h.names ?_
          rw [List.zip_map_left]
          exact List.mem_map.mpr ⟨(f, v), hp, rfl⟩
        rw [Option.map_some, Option.elim_some, hread]
        rfl
  unfold UpdateStatement.exec
  rw [if_pos (resolves_updateStatement h .Values writes.length)]
  show execTuples server (fields.map (setClause .Values)) (fields.map Field.name) writes.length
    (tupleParams writes) rows = _
  unfold execTuples
  rw [sum_holes]
  dsimp only
  rw [List.drop_zero, htuples, List.take_zero]
  show rows.mapM _ = _
  simp only [hrow]
  exact List.mapM_pure

/-- **A statement for all rows sets each of them to the same values.** -/
lemma exec_uniform (h : WellNamed model fields) (hlength : values.length = fields.length)
    (huniform : ∀ write ∈ writes, write.2 = values) (rowCount : ℕ) (rows : List Row) :
    (updateStatement model fields .Uniform rowCount).exec server
        (uniformParams values (fields.map valueRepeats) writes) rows
      = some (writtenRows server fields writes rows) := by
  have hread : readSets server [] (fields.map (setClause .Uniform))
      (uniformParams values (fields.map valueRepeats) writes)
        = some (newColumns server fields values, [.ids (writes.map Prod.fst)]) :=
    readSets_uniform hlength _
  unfold UpdateStatement.exec
  rw [if_pos (resolves_updateStatement h .Uniform rowCount)]
  show execAnyOf server (fields.map (setClause .Uniform)) _ rows = _
  unfold execAnyOf
  rw [hread]
  refine congrArg some (List.map_congr_left fun row _ => ?_)
  cases hid : row.int? "id" with
  | none => rfl
  | some id =>
      rw [Option.any_some, Option.bind_some]
      cases hfind : writes.find? (·.1 = id) with
      | none =>
          have hnone := List.find?_eq_none.mp hfind
          rw [if_neg, Option.elim_none]
          simp only [decide_eq_true_eq, List.mem_map, not_exists, not_and]
          exact fun write hmem heq => hnone write hmem (decide_eq_true heq)
      | some write =>
          have hmem := List.mem_of_find?_eq_some hfind
          have hwrite : write.1 = id := by simpa using List.find?_some hfind
          rw [if_pos, Option.elim_some, huniform write hmem]
          exact decide_eq_true (List.mem_map.mpr ⟨write, hmem, hwrite⟩)

/-! ## Batch after batch -/

/-- A write leaves the id of a row as it is. -/
lemma int?_changeRow (hid : "id" ∉ fields.map Field.name) (values : List α) (row : Row) :
    (changeRow (newColumns server fields values) row).int? "id" = row.int? "id" := by
  have hlookup : (newColumns server fields values).lookup "id" = none := by
    rw [List.lookup_eq_none_iff]
    rintro ⟨name, change⟩ hmem
    obtain ⟨⟨f, v⟩, hp, heq⟩ := List.mem_map.mp hmem
    cases heq
    have hname : "id" ≠ f.name := by
      intro hname
      rw [hname] at hid
      exact hid (List.mem_map_of_mem (List.of_mem_zip hp).1)
    simpa using hname
  unfold Row.int?
  rw [changeRow, hlookup]
  rfl

/-- The id of a row that is written is in no other batch. -/
lemma writtenRows_append {first second : List (WriteRow α)} (hid : "id" ∉ fields.map Field.name)
    (hdistinct : ((first ++ second).map Prod.fst).Nodup) (rows : List Row) :
    writtenRows server fields second (writtenRows server fields first rows)
      = writtenRows server fields (first ++ second) rows := by
  unfold writtenRows
  rw [List.map_map]
  refine List.map_congr_left fun row _ => ?_
  simp only [Function.comp_apply, List.find?_append]
  cases hrow : row.int? "id" with
  | none => simp [hrow]
  | some id =>
      cases hfirst : first.find? (·.1 = id) with
      | none => simp [hrow, hfirst]
      | some write =>
          have hnone : second.find? (·.1 = id) = none := by
            refine List.find?_eq_none.mpr fun other hother heq => ?_
            have hwrite : write.1 = id := by simpa using List.find?_some hfirst
            have hother' : other.1 = id := by simpa using heq
            rw [List.map_append] at hdistinct
            exact (List.nodup_append.mp hdistinct).2.2 id
              (List.mem_map.mpr ⟨write, List.mem_of_find?_eq_some hfirst, hwrite⟩) id
              (List.mem_map.mpr ⟨other, hother, hother'⟩) rfl
          simp [hfirst, int?_changeRow hid, hrow, hnone]

variable (server) in
/-- The statements of some batches write all of them. -/
lemma execAll_batches (h : WellNamed model fields) (bs : List (List (WriteRow α)))
    (hwidth : ∀ write ∈ bs.flatten, write.2.length = fields.length)
    (hdistinct : (bs.flatten.map Prod.fst).Nodup) (rows : List Row) :
    execAll server (bs.map fun b => (updateStatement model fields .Values b.length, tupleParams b)) rows
      = some (writtenRows server fields bs.flatten rows) := by
  have hid := (List.nodup_cons.mp h.names).1
  induction bs generalizing rows with
  | nil =>
      simp [execAll, writtenRows]
  | cons b bs ih =>
      rw [List.flatten_cons] at hwidth hdistinct
      have hwidth' : ∀ write ∈ b, write.2.length = fields.length :=
        fun write hmem => hwidth write (List.mem_append_left _ hmem)
      have hrest := ih (fun write hmem => hwidth write (List.mem_append_right _ hmem))
        (List.Nodup.of_append_right (by rwa [List.map_append] at hdistinct))
      rw [List.map_cons, execAll, exec_tuples h hwidth']
      show execAll server _ _ = _
      rw [hrest, writtenRows_append hid hdistinct, List.flatten_cons]

/-! ## The whole write -/

/-- The values of a statement are as many as the placeholders in its text. -/
lemma length_tupleParams (hwidth : ∀ write ∈ writes, write.2.length = fields.length) :
    (tupleParams writes).length = updateParams fields .Values writes.length := by
  induction writes with
  | nil => simp [tupleParams, updateParams]
  | cons write writes ih =>
      rw [List.forall_mem_cons] at hwidth
      have hrest := ih hwidth.2
      simp only [tupleParams, List.flatMap_cons, List.length_append, List.length_cons, List.length_map,
        updateParams, hwidth.1] at hrest ⊢
      rw [hrest, Nat.succ_mul, Nat.add_comm]

lemma length_uniformParams (hlength : values.length = fields.length) (rowCount : ℕ) :
    (uniformParams values (fields.map valueRepeats) writes).length
      = updateParams fields .Uniform rowCount := by
  have hvalues : ((values.zip (fields.map valueRepeats)).flatMap
      (fun p => List.replicate p.2 (Param.value p.1))).length = (fields.map valueRepeats).sum := by
    induction fields generalizing values with
    | nil => simp
    | cons f fields ih =>
        cases values with
        | nil => cases hlength
        | cons v values =>
            simp [ih (by simpa using hlength)]
  simp [uniformParams, updateParams, hvalues]

/-- The columns that a write names are those of its fields. -/
lemma writtenFields_eq_ok {modelName : String} {fnames : List String} {fields : List Field}
    (h : writtenFields modelName model fnames = .ok fields) :
    List.Forall₂ (fun fname f => model.fields.get? fname = some f ∧ refuseColumn f = none)
      fnames fields := by
  induction fnames generalizing fields with
  | nil =>
      cases h
      exact .nil
  | cons fname fnames ih =>
      obtain ⟨field, hfield, h⟩ := bind_eq_ok.mp h
      rw [orRefuse_eq_ok] at hfield
      cases hrefused : refuseColumn field with
      | some why => simp [hrefused] at h
      | none =>
          rw [hrefused] at h
          obtain ⟨rest, hrest, h⟩ := bind_eq_ok.mp h
          cases h
          exact .cons ⟨hfield, hrefused⟩ (ih hrest)

/-- What the kernel renders, and how often each value is named. -/
lemma updateRowsSql_eq_ok {kernel : WriteKernel} {modelName : String} {fnames : List String}
    {shape : UpdateShape} {rowCount : ℕ} {out : String × List ℕ}
    (hmodel : kernel.registry.get modelName = .ok model)
    (hfields : writtenFields modelName model fnames = .ok fields)
    (h : kernel.updateRowsSql modelName fnames shape rowCount = .ok out) :
    out = (updateText model fields shape rowCount, fields.map valueRepeats) := by
  unfold WriteKernel.updateRowsSql at h
  have hlookup : kernel.registry.lookup modelName = some model := orRefuse_eq_ok.mp hmodel
  have hrepeats : fnames.map (fun fname =>
      ((kernel.registry.lookup modelName).bind (·.fields.get? fname)).elim 1 valueRepeats)
        = fields.map valueRepeats := by
    rw [hlookup]
    have hall := writtenFields_eq_ok hfields
    clear h hfields
    induction hall with
    | nil => rfl
    | cons hfield _ ih =>
        rw [List.map_cons, List.map_cons, ih, Option.bind_some, hfield.1]
        rfl
  split_ifs at h
  obtain ⟨sql, hsql, h⟩ := bind_eq_ok.mp h
  rw [hrepeats] at h
  cases h
  unfold OdooKernel.updateRowsSql at hsql
  rw [hmodel] at hsql
  obtain ⟨model', hmodel', hsql⟩ := bind_eq_ok.mp hsql
  cases hmodel'
  split_ifs at hsql
  · simp at hsql
  · simp at hsql
  · rw [hfields] at hsql
    obtain ⟨fields', hfields', hsql⟩ := bind_eq_ok.mp hsql
    cases hfields'
    cases hsql
    rfl

lemma batchStatements_eq_ok {kernel : WriteKernel} {modelName : String} {fnames : List String}
    (hmodel : kernel.registry.get modelName = .ok model)
    (hfields : writtenFields modelName model fnames = .ok fields) {bs : List (List (WriteRow α))}
    {sent : List (String × List (Param α))}
    (h : batchStatements kernel modelName fnames bs = .ok sent) :
    sent = bs.map fun b => (updateText model fields .Values b.length, tupleParams b) := by
  induction bs generalizing sent with
  | nil =>
      cases h
      rfl
  | cons b bs ih =>
      obtain ⟨out, hout, h⟩ := bind_eq_ok.mp h
      obtain ⟨rest, hrest, h⟩ := bind_eq_ok.mp h
      cases h
      rw [updateRowsSql_eq_ok hmodel hfields hout, ih hrest]
      rfl

lemma ofResult_eq_statements {x : Result (WriteOutcome α)} {sent : List (String × List (Param α))}
    (h : WriteOutcome.ofResult x = .statements sent) : x = .ok (.statements sent) := by
  rcases x with (_ | _ | _ | _ | _ | _) | outcome
  case ok => exact congrArg Except.ok h
  all_goals cases h

variable (server) in
/-- **A bulk update writes each row's own values**: its statements have a placeholder for each value,
and make the table one in which the rows that are written have theirs and no other row has changed. -/
theorem updateRowsNative_writes {kernel : WriteKernel} {sequence : Option ℤ}
    {uniform : List (WriteRow α) → Option (List α)} {batchSize : ℕ} {modelName : String}
    {fnames : List String} {sent : List (String × List (Param α))}
    (hsent : updateRowsNative (some kernel) sequence uniform batchSize modelName fnames writes
      = .statements sent)
    (hmodel : kernel.registry.get modelName = .ok model)
    (hfields : writtenFields modelName model fnames = .ok fields) (hnamed : WellNamed model fields)
    (hplain : PlainNames model fields) (hsize : 0 < batchSize)
    (hwidth : ∀ write ∈ writes, write.2.length = fnames.length)
    (hdistinct : (writes.map Prod.fst).Nodup)
    (huniform : ∀ values, uniform writes = some values → ∀ write ∈ writes, write.2 = values) :
    ∃ plan : List (UpdateStatement × List (Param α)), sent = plan.map (fun p => (p.1.render, p.2)) ∧
      (∀ p ∈ plan, (translatePlaceholders p.1.render.toList).2.length = p.2.length) ∧
      ∀ rows, execAll server plan rows = some (writtenRows server fields writes rows) := by
  have hlength := (writtenFields_eq_ok hfields).length_eq
  rw [hlength] at hwidth
  unfold updateRowsNative at hsent
  by_cases hcurrent : kernel.current sequence
  · rw [Option.filter_some, if_pos hcurrent] at hsent
    cases hvalues : uniform writes with
    | some values =>
        rw [hvalues] at hsent
        obtain ⟨out, hout, hsent⟩ := bind_eq_ok.mp (ofResult_eq_statements hsent)
        obtain rfl := updateRowsSql_eq_ok hmodel hfields hout
        dsimp only at hsent
        have hcount : values.length = fields.length := by
          by_contra hne
          rw [if_pos (by simpa using hne)] at hsent
          cases hsent
        rw [if_neg (by simpa using hcount)] at hsent
        cases hsent
        refine ⟨[(updateStatement model fields .Uniform writes.length,
          uniformParams values (fields.map valueRepeats) writes)], ?_, ?_, ?_⟩
        · rw [List.map_singleton, render_updateStatement]
        · rw [List.forall_mem_singleton, render_updateStatement,
            (updateText_holes hplain .Uniform writes.length).length_params]
          exact (length_uniformParams hcount writes.length).symm
        · intro rows
          rw [execAll, exec_uniform hnamed hcount (huniform values hvalues)]
          rfl
    | none =>
        rw [hvalues] at hsent
        obtain ⟨batched, hbatched, hsent⟩ := bind_eq_ok.mp (ofResult_eq_statements hsent)
        cases hsent
        obtain rfl := batchStatements_eq_ok hmodel hfields hbatched
        have hall := flatten_batches hsize writes
        refine ⟨(batches batchSize writes).map fun b =>
          (updateStatement model fields .Values b.length, tupleParams b), ?_, ?_, ?_⟩
        · rw [List.map_map]
          exact List.map_congr_left fun b _ => by rw [Function.comp_apply, render_updateStatement]
        · intro p hp
          obtain ⟨b, hb, rfl⟩ := List.mem_map.mp hp
          rw [render_updateStatement, (updateText_holes hplain .Values b.length).length_params]
          exact (length_tupleParams fun write hmem => hwidth write (mem_of_mem_batches hb hmem)).symm
        · intro rows
          have hexec := execAll_batches server hnamed (batches batchSize writes) (by rwa [hall])
            (by rwa [hall]) rows
          rwa [hall] at hexec
  · rw [Option.filter_some, if_neg hcurrent] at hsent
    cases hsent

end Exec

/-! ## Three letters -/

namespace Letters

def weight : Field :=
  { Field.column "weight" .Integer "int4" none with columnCast := some "int4" }

def subject : Field :=
  { Field.column "subject" .Char "jsonb" none with columnCast := some "jsonb", translateWhole := true }

def letter : Model := plainModel "letter" "letter" [("weight", weight), ("subject", subject)]

def kernel : WriteKernel where
  registry := plainRegistry [("letter", letter)]
  registrySequence := some 7
  stale := false

/-- Values are texts, and a subject keeps the first of its languages. -/
def server : WriteServer String where
  cast type v := if type = "int4" then some (.int v.length) else some (.text v)
  enUs v := v.getD (.text "")
  concat old _ := old

def writes : List (WriteRow String) := [(1, ["***", "dear"]), (2, ["", "sir"]), (3, ["*", "madam"])]

def fields : List Field := [weight, subject]

/-- A letter has an id, and no subject. -/
def stored (id : ℤ) : Row := fun column => if column = "id" then some (.int id) else none

/-- Two statements are sent for three letters, two of them being a batch; the fourth letter is left as
it is. -/
theorem three_letters : ∃ plan : List (UpdateStatement × List (Param String)), plan.length = 2 ∧
    (execAll server plan [stored 4, stored 3]).map (·.map fun row => (row "weight", row "subject"))
      = some [(none, none), (some (.int 1), some (.text "madam"))] := by
  have hsent : updateRowsNative (some kernel) (some 7) (fun _ => none) 2 "letter" ["weight", "subject"]
      writes = .statements ((batches 2 writes).map fun b =>
        (updateText letter fields .Values b.length, tupleParams b)) :=
    rfl
  have hmodel : kernel.registry.get "letter" = .ok letter := rfl
  have hfields : writtenFields "letter" letter ["weight", "subject"] = .ok fields := rfl
  obtain ⟨plan, hplan, -, hexec⟩ := updateRowsNative_writes server hsent hmodel hfields
    ⟨by decide, by decide⟩ ⟨by decide, by decide, by decide⟩ (by decide) (by decide) (by decide) nofun
  refine ⟨plan, ?_, ?_⟩
  · have hlength := congrArg List.length hplan
    rw [List.length_map, List.length_map] at hlength
    exact hlength.symm
  · rw [hexec]
    rfl

end Letters

end OdooKernel
