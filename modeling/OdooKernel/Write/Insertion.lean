import OdooKernel.Write.Execution

/-!
# What bulk insertions do

The rows are inserted a batch at a time, and the ids that the server gives them are collected.  As
with updates, what the server does is said of the structure of a statement, and what is compared with
it knows no batches: the given rows, in order, with the next ids of the table (`insertRows`).

**Left to Python** are a large insertion, which goes through `COPY`, a value that is a piece of SQL,
and whatever the kernel refuses to render; nothing has been sent by then.

* `InsertStatement` — a statement, its text, and what the server does.
* `createRowsNative` — the statements that Python sends, or none.
* **`createRowsNative_inserts`** — the statements add these rows, and return their ids, in order.
-/

namespace OdooKernel

/-- An insertion of some rows. -/
structure InsertStatement where
  table : String
  columns : List String
  rows : ℕ
deriving DecidableEq, Repr

/-- What the server makes of a value of a column, and of a column without a value. -/
structure InsertServer (α : Type) where
  column : String → α → Option Datum
  default : String → Option Datum

section Insert

variable {α : Type} (server : InsertServer α)

/-- A new row: the server gives it an id where none is given. -/
def newRow (columns : List String) (next : ℤ) (values : List α) : Row := fun column =>
  match (columns.zip values).lookup column with
  | some v => server.column column v
  | none => if column = "id" then some (.int next) else server.default column

/-- The rows that some values make, and the next id. -/
def insertRows (columns : List String) : List (List α) → ℤ → List Row × ℤ
  | [], next => ([], next)
  | values :: rest, next =>
    let after := insertRows columns rest (if "id" ∈ columns then next else next + 1)
    (newRow server columns next values :: after.1, after.2)

/-- The values of some rows, each as long as the columns. -/
def splitRows (width : ℕ) : ℕ → List α → Option (List (List α))
  | 0, params => if params.isEmpty then some [] else none
  | rows + 1, params =>
    if params.length < width then none
    else (splitRows width rows (params.drop width)).map (params.take width :: ·)

/-- What a table holds, and the next id of its sequence. -/
abbrev TableState := List Row × ℤ

/-- **What an insertion does**, and the ids that it returns; a column that is named twice is refused. -/
def InsertStatement.exec (s : InsertStatement) (params : List α) (state : TableState) :
    Option (TableState × List (Option Datum)) :=
  if s.columns.Nodup then do
    let values ← splitRows s.columns.length s.rows params
    let inserted := insertRows server s.columns values state.2
    return ((state.1 ++ inserted.1, inserted.2), inserted.1.map (· "id"))
  else none

/-- Some insertions, one after the other, with the ids that they return. -/
def insertAll :
    List (InsertStatement × List α) → TableState → Option (TableState × List (Option Datum))
  | [], state => some (state, [])
  | (s, params) :: rest, state => do
    let (state, ids) ← s.exec server params state
    let (state, more) ← insertAll rest state
    return (state, ids ++ more)

end Insert

/-- The text of an insertion. -/
def InsertStatement.render (s : InsertStatement) : String :=
  if s.columns.isEmpty then
    "INSERT INTO " ++ ident s.table ++ " (\"id\") VALUES " ++ commas (List.replicate s.rows "(DEFAULT)")
      ++ " RETURNING \"id\""
  else
    "INSERT INTO " ++ ident s.table ++ " (" ++ commas (s.columns.map ident) ++ ") VALUES "
      ++ commas (List.replicate s.rows (placeholders s.columns.length)) ++ " RETURNING \"id\""

/-! ## What Python sends -/

/-- What comes of a bulk insertion. -/
inductive InsertOutcome (α : Type) where
  | delegated
  | raised
  | statements (sent : List (String × List α))

/-- What Python decides of an insertion before it asks the kernel. -/
structure InsertSetting (α : Type) where
  copyDisabled : Bool
  copyThreshold : ℕ
  inPipeline : Bool
  isFragment : α → Bool
  batchSize : ℕ

section Native

variable {α : Type}

/-- The kernel's rendering. -/
def WriteKernel.insertRowsSql (kernel : WriteKernel) (modelName : String) (columns : List String)
    (rowCount : ℕ) : Result String :=
  if kernel.stale then .error .registryStale
  else OdooKernel.insertRowsSql kernel.registry modelName columns rowCount

/-- The statements of some batches, or the first refusal. -/
def insertStatements (kernel : WriteKernel) (modelName : String) (columns : List String) :
    List (List (List α)) → Result (List (String × List α))
  | [] => .ok []
  | batch :: rest => do
    let sql ← kernel.insertRowsSql modelName columns batch.length
    let statements ← insertStatements kernel modelName columns rest
    return (sql, batch.flatten) :: statements

/-- A refusal leaves the insertion to Python, denied access and a stale registry being refusals too; nothing
has been sent by then. -/
def InsertOutcome.ofResult : Result (InsertOutcome α) → InsertOutcome α
  | .ok outcome => outcome
  | .error (.refusal _) | .error (.accessDenied _) | .error .registryStale => .delegated
  | .error _ => .raised

/-- **The statements that Python sends**, one for each batch; a large insertion is left to `COPY`, and a
value that is a piece of SQL to Python. -/
def createRowsNative (setting : InsertSetting α) (kernel : Option WriteKernel) (sequence : Option ℤ)
    (modelName : String) (columns : List String) (prepared : List (List α)) : InsertOutcome α :=
  if !setting.copyDisabled && !columns.isEmpty && decide (setting.copyThreshold ≤ prepared.length)
      && !setting.inPipeline then .delegated
  else
    match kernel.filter (·.current sequence) with
    | none => .delegated
    | some kernel =>
      if !columns.isEmpty && prepared.any (·.any setting.isFragment) then .delegated
      else .ofResult do
        let rows := if columns.isEmpty then List.replicate prepared.length [] else prepared
        return .statements (← insertStatements kernel modelName columns (batches setting.batchSize rows))

end Native

/-! ## What the statements do -/

section Insert

variable {α : Type} {server : InsertServer α} {columns : List String}

/-- The rows of two lists, one after the other. -/
lemma insertRows_append (first second : List (List α)) (next : ℤ) :
    insertRows server columns (first ++ second) next =
      ((insertRows server columns first next).1 ++
          (insertRows server columns second (insertRows server columns first next).2).1,
        (insertRows server columns second (insertRows server columns first next).2).2) := by
  induction first generalizing next with
  | nil => rfl
  | cons values first ih =>
      simp only [List.cons_append, insertRows, ih]

/-- The values are taken apart as they are bound. -/
lemma splitRows_flatten {rows : List (List α)} {width : ℕ}
    (hwidth : ∀ row ∈ rows, row.length = width) : splitRows width rows.length rows.flatten = some rows := by
  induction rows with
  | nil => rfl
  | cons row rows ih =>
      rw [List.forall_mem_cons] at hwidth
      rw [List.length_cons, splitRows, List.flatten_cons, if_neg (by simp [hwidth.1]),
        List.take_left' hwidth.1, List.drop_left' hwidth.1, ih hwidth.2]
      rfl

lemma length_flatten_of_width {rows : List (List α)} {width : ℕ}
    (hwidth : ∀ row ∈ rows, row.length = width) : rows.flatten.length = rows.length * width := by
  induction rows with
  | nil => simp
  | cons row rows ih =>
      rw [List.forall_mem_cons] at hwidth
      rw [List.flatten_cons, List.length_append, List.length_cons, hwidth.1, ih hwidth.2, Nat.succ_mul,
        Nat.add_comm]

variable (server) in
/-- The statements of some batches insert all of them. -/
lemma insertAll_batches (hnodup : columns.Nodup) (table : String) (bs : List (List (List α)))
    (hwidth : ∀ row ∈ bs.flatten, row.length = columns.length) (state : TableState) :
    insertAll server (bs.map fun b => (({ table, columns, rows := b.length } : InsertStatement), b.flatten))
        state
      = some ((state.1 ++ (insertRows server columns bs.flatten state.2).1,
          (insertRows server columns bs.flatten state.2).2),
        (insertRows server columns bs.flatten state.2).1.map (· "id")) := by
  induction bs generalizing state with
  | nil => simp [insertAll, insertRows]
  | cons b bs ih =>
      rw [List.flatten_cons] at hwidth
      have hsplit : splitRows columns.length b.length b.flatten = some b :=
        splitRows_flatten fun row hrow => hwidth row (List.mem_append_left _ hrow)
      rw [List.map_cons, insertAll, InsertStatement.exec, if_pos hnodup, hsplit]
      show (do
        let (state, more) ← insertAll server _ _
        return (state, _ ++ more)) = _
      rw [ih fun row hrow => hwidth row (List.mem_append_right _ hrow), List.flatten_cons,
        insertRows_append]
      simp [List.append_assoc]

lemma insertStatements_eq_ok {kernel : WriteKernel} {modelName : String} {model : Model}
    (hmodel : kernel.registry.get modelName = .ok model) {bs : List (List (List α))}
    {sent : List (String × List α)} (h : insertStatements kernel modelName columns bs = .ok sent) :
    sent = bs.map fun b => (insertText model columns b.length, b.flatten) := by
  induction bs generalizing sent with
  | nil =>
      cases h
      rfl
  | cons b bs ih =>
      obtain ⟨sql, hsql, h⟩ := bind_eq_ok.mp h
      obtain ⟨rest, hrest, h⟩ := bind_eq_ok.mp h
      cases h
      have htext : sql = insertText model columns b.length := by
        unfold WriteKernel.insertRowsSql OdooKernel.insertRowsSql at hsql
        by_cases hstale : kernel.stale = true
        · rw [if_pos hstale] at hsql
          cases hsql
        · rw [if_neg hstale, hmodel] at hsql
          obtain ⟨_, hsame, hsql⟩ := bind_eq_ok.mp hsql
          cases hsame
          split_ifs at hsql with hrows hempty
          · cases hsql
          · cases hsql
            rfl
          · obtain ⟨_, -, hsql⟩ := bind_eq_ok.mp hsql
            cases hsql
            rfl
      rw [htext, ih hrest]
      rfl

lemma ofResult_eq_inserts {x : Result (InsertOutcome α)} {sent : List (String × List α)}
    (h : InsertOutcome.ofResult x = .statements sent) : x = .ok (.statements sent) := by
  rcases x with (_ | _ | _ | _ | _ | _) | outcome
  case ok => exact congrArg Except.ok h
  all_goals cases h

variable (server) in
/-- **A bulk insertion adds the given rows in order**, and returns their ids in that order: its
statements have a placeholder for each value. -/
theorem createRowsNative_inserts {setting : InsertSetting α} {kernel : WriteKernel} {sequence : Option ℤ}
    {modelName : String} {model : Model} {prepared : List (List α)} {sent : List (String × List α)}
    (hsent : createRowsNative setting (some kernel) sequence modelName columns prepared
      = .statements sent)
    (hmodel : kernel.registry.get modelName = .ok model) (hnodup : columns.Nodup)
    (htable : Plain model.table) (hcolumns : ∀ column ∈ columns, Plain column)
    (hsize : 0 < setting.batchSize) (hwidth : ∀ row ∈ prepared, row.length = columns.length)
    (state : TableState) :
    ∃ plan : List (InsertStatement × List α), sent = plan.map (fun p => (p.1.render, p.2)) ∧
      (∀ p ∈ plan, (translatePlaceholders p.1.render.toList).2.length = p.2.length) ∧
      insertAll server plan state
        = some ((state.1 ++ (insertRows server columns prepared state.2).1,
            (insertRows server columns prepared state.2).2),
          (insertRows server columns prepared state.2).1.map (· "id")) := by
  unfold createRowsNative at hsent
  by_cases hcopy : (!setting.copyDisabled && !columns.isEmpty
      && decide (setting.copyThreshold ≤ prepared.length) && !setting.inPipeline) = true
  · rw [if_pos hcopy] at hsent
    cases hsent
  rw [if_neg hcopy] at hsent
  by_cases hcurrent : kernel.current sequence
  · rw [Option.filter_some, if_pos hcurrent] at hsent
    dsimp only at hsent
    by_cases hfragment : (!columns.isEmpty && prepared.any (·.any setting.isFragment)) = true
    · rw [if_pos hfragment] at hsent
      cases hsent
    rw [if_neg hfragment] at hsent
    obtain ⟨batched, hbatched, hsent⟩ := bind_eq_ok.mp (ofResult_eq_inserts hsent)
    cases hsent
    obtain rfl := insertStatements_eq_ok hmodel hbatched
    have hrows : (if columns.isEmpty then List.replicate prepared.length [] else prepared) = prepared := by
      split_ifs with hempty
      · rw [List.isEmpty_iff.mp hempty] at hwidth
        exact (List.eq_replicate_iff.mpr ⟨rfl, fun row hrow => by simpa using hwidth row hrow⟩).symm
      · rfl
    rw [hrows]
    have hall := flatten_batches hsize prepared
    have hrender : ∀ n, ({ table := model.table, columns, rows := n } : InsertStatement).render
        = insertText model columns n := fun n => rfl
    refine ⟨(batches setting.batchSize prepared).map fun b =>
      ({ table := model.table, columns, rows := b.length }, b.flatten), ?_, ?_, ?_⟩
    · rw [List.map_map]
      rfl
    · intro p hp
      obtain ⟨b, hb, rfl⟩ := List.mem_map.mp hp
      have hrow : ∀ row ∈ b, row.length = columns.length := fun row hrow =>
        hwidth row (mem_of_mem_batches hb hrow)
      rw [hrender, (insertText_holes htable hcolumns b.length).length_params, length_flatten_of_width hrow]
    · have hexec := insertAll_batches server hnodup model.table (batches setting.batchSize prepared)
        (by rwa [hall]) state
      rwa [hall] at hexec
  · rw [Option.filter_some, if_neg hcurrent] at hsent
    cases hsent

end Insert

/-! ## Three notes -/

namespace Notes

def text : Field := { Field.column "text" .Char "varchar" none with columnCast := some "varchar" }

def note : Model := plainModel "note" "note" [("text", text)]

def kernel : WriteKernel where
  registry := plainRegistry [("note", note)]
  registrySequence := none
  stale := false

def setting : InsertSetting String where
  copyDisabled := false
  copyThreshold := 10
  inPipeline := false
  isFragment _ := false
  batchSize := 2

def server : InsertServer String where
  column _ v := some (.text v)
  default _ := none

/-- Three notes are inserted by two statements, and get the next three ids. -/
theorem three_notes : ∃ plan : List (InsertStatement × List String), plan.length = 2 ∧
    (insertAll server plan ([], 5)).map (fun p => (p.1.1.map (· "text"), p.1.2, p.2))
      = some ([some (.text "a"), some (.text "b"), some (.text "c")], 8,
        [some (.int 5), some (.int 6), some (.int 7)]) := by
  have hsent : createRowsNative setting (some kernel) none "note" ["text"] [["a"], ["b"], ["c"]]
      = .statements ((batches 2 [["a"], ["b"], ["c"]]).map fun b =>
        (insertText note ["text"] b.length, b.flatten)) :=
    rfl
  have hmodel : kernel.registry.get "note" = .ok note := rfl
  obtain ⟨plan, hplan, -, hexec⟩ := createRowsNative_inserts server hsent hmodel (by decide)
    (by decide) (by decide) (by decide) (by decide) ([], 5)
  refine ⟨plan, ?_, ?_⟩
  · have hlength := congrArg List.length hplan
    rw [List.length_map, List.length_map] at hlength
    exact hlength.symm
  · rw [hexec]
    rfl

end Notes

end OdooKernel
