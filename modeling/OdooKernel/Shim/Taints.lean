import Mathlib.Data.Finset.Insert
import Mathlib.Data.Finset.Lattice.Basic
import Mathlib.Data.Finset.SDiff
import Mathlib.Data.Int.Notation
import OdooKernel.Core.Dict
import OdooKernel.Core.Runs

/-!
# The taint of a cursor

The Python process writes down which cursors have written what the kernel holds a snapshot of, and
routes none of their reads.  Four collections say so: the cursors and the users that a cursor wrote
to, each once for what the open transaction may still take back and once for what is committed.

**The collections.**  `taintRecord`, `taintUsers`, `untaint` and `untaintCommitted` are what the
wrappers of the ORM's methods do to them, and `isTainted` is what the gate asks.

**What is really written.**  Beside the collections `TaintState` has, for each cursor, what its open
transaction has written and what it has committed that no finished `signal_changes` has told the
other processes.  No wrapper reads this: it is what the collections are measured by.

**The size of a step.**  What one of the functions of the collections does is one step of
`TaintState.step`, and what a wrapper does before the wrapped method is another step than what it
does behind it.  A write is marked before the wrapped method runs, and counts as made from its mark
on: one step.  A create of users is marked only when the wrapped method has returned the ids, a
commit is noted only when the wrapped method has returned, and a rollback takes the marks before the
wrapped method has run its hooks and the statement: two steps each, between which other threads and
the hooks of the wrapped method may look, and of which the second may never come, where the wrapped
method raises.  `TaintState.unmarked` has what is open to them in between: the writes of a
transaction whose rollback has begun, and the users whose creates have not returned.
`signal_changes` takes the marks of one cursor after the other, each from two collections: two steps
for each cursor.
-/

namespace OdooKernel

/-- A set of cursors. -/
abbrev WeakSet (κ : Type) := List κ

variable {κ : Type} [DecidableEq κ]

/-- A cursor leaves a set. -/
def WeakSet.discard (set : WeakSet κ) (cr : κ) : WeakSet κ := set.filter (· ≠ cr)

/-- The four collections. -/
structure Taints (κ : Type) where
  dirtyCrs : WeakSet κ
  committedDirty : WeakSet κ
  dirtyUsers : Dict κ (Finset ℤ)
  committedDirtyUsers : Dict κ (Finset ℤ)

/-- Records of a model that a call is about. -/
structure Records where
  name : String
  ids : List ℤ

def securityModels : List String :=
  ["ir.access", "res.groups", "res.users", "ir.default", "res.company", "res.lang", "ir.model",
    "ir.model.fields"]

/-- The columns that the kernel reads from a security model whose others it never looks at. -/
def kernelReadColumns : Dict String (List String) :=
  [("res.lang", ["code", "week_start", "active"]), ("res.company", ["user_ids", "active"]),
    ("ir.model.fields",
      ["model", "model_id", "name", "ttype", "relation", "relation_table", "column1", "column2",
        "relation_field", "company_dependent", "store", "related"])]

/-- The fields of a model that the kernel reads, where it does not read all.  `invalidation` are the
fields that Odoo itself invalidates its caches for when a user is written. -/
def kernelReadFields (invalidation : Option (List String)) (records : Records) :
    Option (List String) :=
  if records.name = "res.users" then invalidation else kernelReadColumns.get? records.name

/-- A write that touches nothing the kernel reads; `vals` are the names it writes, if it has any. -/
def harmlessUserWrite (invalidation : Option (List String)) (records : Records)
    (vals : Option (List String)) : Bool :=
  match vals with
  | none => false
  | some keys =>
    if keys.isEmpty then false
    else
      match kernelReadFields invalidation records with
      | none => false
      | some watched => keys.all fun key => key ∉ watched

namespace Taints

variable (taints : Taints κ)

/-- **Whether the reads of a user on a cursor go to Python.** -/
def isTainted (cr : κ) (uid : ℤ) : Bool :=
  cr ∈ taints.dirtyCrs || uid ∈ (taints.dirtyUsers.get? cr).getD ∅

def taintUsers (cr : κ) (uids : List ℤ) : Taints κ :=
  { taints with
    dirtyUsers := taints.dirtyUsers.insert cr
      ((taints.dirtyUsers.get? cr).getD ∅ ∪ uids.toFinset) }

/-- What a write to records does. -/
def taintRecord (invalidation : Option (List String)) (cr : κ) (records : Records)
    (vals : Option (List String)) (creating : Bool) : Taints κ :=
  if (!creating && records.ids.isEmpty) || harmlessUserWrite invalidation records vals then taints
  else if records.name = "res.users" && !creating then taints.taintUsers cr records.ids
  else if records.name ∈ securityModels then
    { taints with dirtyCrs := taints.dirtyCrs.insert cr }
  else taints

/-- What a create does before it calls the wrapped method: nothing for a user, whose id is not known
yet. -/
def create (invalidation : Option (List String)) (cr : κ) (created : Records) : Taints κ :=
  if created.name = "res.users" then taints
  else taints.taintRecord invalidation cr { created with ids := [] } none true

/-- What a commit does, once the wrapped method has returned. -/
def untaintCommitted (cr : κ) : Taints κ :=
  let dirty := if cr ∈ taints.dirtyCrs then taints.committedDirty.insert cr else taints.committedDirty
  let users :=
    match taints.dirtyUsers.get? cr with
    | some uids =>
      taints.committedDirtyUsers.insert cr ((taints.committedDirtyUsers.get? cr).getD ∅ ∪ uids)
    | none => taints.committedDirtyUsers
  { taints with committedDirty := dirty, committedDirtyUsers := users }

/-- What a rollback does before it calls the wrapped method. -/
def untaint (cr : κ) : Taints κ :=
  let dirty := if cr ∈ taints.committedDirty then taints.dirtyCrs else taints.dirtyCrs.discard cr
  let users :=
    match taints.committedDirtyUsers.get? cr with
    | some uids => taints.dirtyUsers.insert cr uids
    | none => taints.dirtyUsers.pop cr
  { taints with dirtyCrs := dirty, dirtyUsers := users }

end Taints

/-! ## The cursors and the threads -/

/-- What a transaction has written: whether to a security model, and to which users. -/
@[ext]
structure Writes where
  security : Bool
  users : Finset ℤ
deriving DecidableEq

namespace Writes

/-- What has written nothing the kernel reads. -/
def none : Writes where
  security := false
  users := ∅

def union (w w' : Writes) : Writes where
  security := w.security || w'.security
  users := w.users ∪ w'.users

/-- The kernel's snapshot is older than the writes, as a user sees it. -/
def Concern (w : Writes) (uid : ℤ) : Prop := w.security = true ∨ uid ∈ w.users

/-- What a write to records is to the kernel. -/
def toRecords (records : Records) : Writes :=
  if records.name = "res.users" then { security := false, users := records.ids.toFinset }
  else { security := records.name ∈ securityModels, users := ∅ }

/-- A write touches a column that the kernel reads. -/
def touches (invalidation : Option (List String)) (records : Records) (vals : List String) : Bool :=
  match kernelReadFields invalidation records with
  | .none => !vals.isEmpty
  | some watched => vals.any fun key => key ∈ watched

end Writes

/-- A commit, numbered. -/
structure Committed where
  number : ℕ
  writes : Writes
deriving DecidableEq

/-- Where a thread stands in `signal_changes`: before it, in the wrapped method, which began after so
many commits, and going through the cursors and the users, with each cursor in two steps. -/
inductive SignalPhase (κ : Type) where
  | outside
  | signalling (dbName : String) (started : ℕ)
  | clearing (dbName : String) (todo : List κ)
  | discarding (dbName : String) (cr : κ) (todo : List κ)
  | clearingUsers (dbName : String) (todo : List κ)
  | popping (dbName : String) (cr : κ) (todo : List κ)

/-- The collections and the threads, and what the cursors have written: in the open transaction, and
in the commits that no finished call has signalled.  `unmarked` is what of its open transaction a cursor
has not marked yet, or no longer has, and a cursor is `recording` while it has committed what is not
noted as committed. -/
structure TaintState (κ τ : Type) extends Taints κ where
  phase : τ → SignalPhase κ
  recording : κ → Bool
  transaction : κ → Writes
  unmarked : κ → Writes
  unsignalled : κ → List Committed
  commits : ℕ

/-- What happens next, on which cursor or in which thread. -/
inductive TaintAction (κ τ : Type) where
  /-- The rows are inserted; what the wrapped method still does comes behind. -/
  | create (cr : κ) (created : Records)
  /-- A create of users has returned. -/
  | created (cr : κ) (ids : List ℤ)
  | write (cr : κ) (records : Records) (vals : List String)
  | unlink (cr : κ) (records : Records)
  /-- The server has committed; the hooks behind a commit may raise. -/
  | commit (cr : κ)
  /-- The wrapped `commit` has returned. -/
  | committed (cr : κ)
  /-- A rollback begins, with its hooks and the statement still to come. -/
  | rollback (cr : κ)
  /-- The server has rolled back, asked to or because the connection is lost. -/
  | rolledBack (cr : κ)
  | signalChanges (t : τ) (dbName : String)
  | signalled (t : τ) (ready : Bool)
  | clear (t : τ)

/-- What the process knows from Odoo: the fields that it invalidates its caches for when a user is
written, and the database of a cursor that says so. -/
structure Shim (κ : Type) where
  invalidation : Option (List String)
  dbName : κ → Option String

/-- A cursor is of a database, or does not say. -/
def Shim.isOf (shim : Shim κ) (cr : κ) (dbName : String) : Bool :=
  (shim.dbName cr).getD dbName = dbName

namespace TaintState

variable {τ : Type} [DecidableEq τ] (shim : Shim κ) (s : TaintState κ τ)

/-- A thread goes on. -/
def goes (t : τ) (phase : SignalPhase κ) : TaintState κ τ :=
  { s with phase := Function.update s.phase t phase }

/-- A transaction has written more. -/
def notes (cr : κ) (writes : Writes) : TaintState κ τ :=
  { s with transaction := Function.update s.transaction cr ((s.transaction cr).union writes) }

/-- The wrapped `signal_changes` returns: what was committed before it began is signalled. -/
def signalledBy (dbName : String) (started : ℕ) : TaintState κ τ :=
  { s with
    unsignalled := fun cr =>
      if shim.isOf cr dbName then (s.unsignalled cr).filter fun c => started ≤ c.number
      else s.unsignalled cr }

/-- A call of `signal_changes` goes through the cursors and the users. -/
def clear (t : τ) : SignalPhase κ → Option (TaintState κ τ)
  | .clearing dbName [] =>
    some (s.goes t (.clearingUsers dbName (s.committedDirtyUsers.map Prod.fst)))
  | .clearing dbName (cr :: todo) =>
    if shim.isOf cr dbName then
      some { s.goes t (.discarding dbName cr todo) with
        committedDirty := s.committedDirty.discard cr }
    else some (s.goes t (.clearing dbName todo))
  | .discarding dbName cr todo =>
    some { s.goes t (.clearing dbName todo) with dirtyCrs := s.dirtyCrs.discard cr }
  | .clearingUsers _ [] => some (s.goes t .outside)
  | .clearingUsers dbName (cr :: todo) =>
    if shim.isOf cr dbName then
      some { s.goes t (.popping dbName cr todo) with
        committedDirtyUsers := s.committedDirtyUsers.pop cr }
    else some (s.goes t (.clearingUsers dbName todo))
  | .popping dbName cr todo =>
    some { s.goes t (.clearingUsers dbName todo) with dirtyUsers := s.dirtyUsers.pop cr }
  | .outside | .signalling .. => none

/-- **The state after an action**, if it can be taken. -/
def step : TaintAction κ τ → Option (TaintState κ τ)
  | .create cr created =>
    -- the ids of users are not known before they are created
    let unmarked : Writes := if created.name = "res.users" then .toRecords created else .none
    some { s.notes cr (.toRecords created) with
      toTaints := s.toTaints.create shim.invalidation cr created
      unmarked := Function.update s.unmarked cr ((s.unmarked cr).union unmarked) }
  | .created cr ids =>
    some { s with
      toTaints := s.toTaints.taintUsers cr ids
      unmarked := Function.update s.unmarked cr
        { s.unmarked cr with users := (s.unmarked cr).users \ ids.toFinset } }
  | .write cr records vals =>
    let writes : Writes :=
      if records.ids.isEmpty || !Writes.touches shim.invalidation records vals then .none
      else .toRecords records
    some { s.notes cr writes with
      toTaints := s.toTaints.taintRecord shim.invalidation cr records (some vals) false }
  | .unlink cr records =>
    let writes : Writes := if records.ids.isEmpty then .none else .toRecords records
    some { s.notes cr writes with
      toTaints := s.toTaints.taintRecord shim.invalidation cr records none false }
  | .commit cr =>
    some { s with
      recording := Function.update s.recording cr true
      transaction := Function.update s.transaction cr .none
      unmarked := Function.update s.unmarked cr .none
      unsignalled := Function.update s.unsignalled cr
        ({ number := s.commits, writes := s.transaction cr } :: s.unsignalled cr)
      commits := s.commits + 1 }
  | .committed cr =>
    if s.recording cr then
      some { s with
        toTaints := s.toTaints.untaintCommitted cr
        recording := Function.update s.recording cr false }
    else none
  | .rollback cr =>
    some { s with
      toTaints := s.toTaints.untaint cr
      unmarked := Function.update s.unmarked cr (s.transaction cr) }
  | .rolledBack cr =>
    some { s with
      transaction := Function.update s.transaction cr .none
      unmarked := Function.update s.unmarked cr .none }
  | .signalChanges t dbName =>
    match s.phase t with
    | .outside => some (s.goes t (.signalling dbName s.commits))
    | _ => none
  | .signalled t ready =>
    match s.phase t with
    | .signalling dbName started =>
      -- the registry of a process that is not ready clears nothing
      some ((s.signalledBy shim dbName started).goes t
        (if ready then .clearing dbName s.committedDirty else .outside))
    | _ => none
  | .clear t => s.clear shim t (s.phase t)

/-- A process that has written nothing. -/
def initial : TaintState κ τ where
  dirtyCrs := []
  committedDirty := []
  dirtyUsers := []
  committedDirtyUsers := []
  phase _ := .outside
  recording _ := false
  transaction _ := .none
  unmarked _ := .none
  unsignalled _ := []
  commits := 0

end TaintState

end OdooKernel
