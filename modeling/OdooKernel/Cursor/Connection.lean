import OdooKernel.Core.Text

/-!
# The connection of a cursor

The flags that a connection keeps of its transaction, and the server's side of it.  The flags are set
before a statement is sent and the server may answer otherwise than they expect; which of the two is
right at a moment is the subject of `Cursor/Mirror`, and both are kept here side by side (`Wire`).

**What a call meets.**  A call sends statements, which the server answers; what it answers, and what
fails on the client, is the script of the call.  Scripts are not restricted: the server may refuse
any statement, and the connection may be lost at any of them, or between two calls.  Which course a
statement takes (several statements at once, a plan that is cached) is part of the script as well.

**Texts.**  An error that passes through the cursor is a text, and the code of the server is read off
the start of it; so errors are texts here too, and what reads as raised by the server is what starts
like it (`raisedByServer`).

**What is left out.**  The caches of prepared statements, the note of DDL and the rows that are
returned: no flag depends on them.  `Cursor/Plans` and `Cursor/Ddl` have the first two.

* `Mode`, `Reply`, `Wire` — the server's side, its answers, and the two sides together.
* `Wire.answer`, `Wire.answerBegin`, `Wire.answerEnd` — what an answer does to the server's side.
* `ensureTx`, `endTx`, `executeStatement`, `trackAbort`, `noteLostBackend` — the parts of a call.
* `execute`, `execSimple`, `commit`, `rollback`, `close`, `resetSession` — the calls.
* `Event`, `Wire.step`, `Wire.run` — runs of calls.
-/

namespace OdooKernel

namespace Cursor

/-! ## The server's side -/

/-- Where the server is. -/
inductive Mode where
  | idle
  | inTransaction
  | failed
deriving DecidableEq, Repr

/-- An error of the server, with its code. -/
structure ServerError where
  code : String
  named : code ≠ ""
  noBar : '|' ∉ code.toList
  text : String

/-- An error that the server did not raise: its text starts with an empty code. -/
def clientMessage (text : String) : String := "SQLSTATE:|" ++ text

/-- The text of an error of the server. -/
def ServerError.message (e : ServerError) : String := "SQLSTATE:" ++ e.code ++ "|" ++ e.text

/-- What becomes of a statement: it is done, and may have gone back to a savepoint; the server
refuses it; it is not sent; or the connection is lost, for a fault that its task notes. -/
inductive Reply where
  | done (restored : Bool)
  | error (e : ServerError)
  | unsent (text : String)
  | lost (text : String) (fault : Option String)

/-- What becomes of the end of a transaction: a refusal may leave the transaction open. -/
inductive EndReply where
  | done
  | error (e : ServerError) (ended : Bool)
  | unsent (text : String)
  | lost (text : String) (fault : Option String)

/-- The flags of a connection. -/
structure RustConn where
  inTx : Bool
  aborted : Bool
  autocommit : Bool
  readonly : Bool
  serializable : Bool
  closed : Bool
  fault : Option String

/-- A connection, and the server's side of it. -/
structure Wire where
  conn : RustConn
  mode : Mode
  lost : Bool

/-- A call ends well or with the text of an error. -/
abbrev Outcome := Except String Unit

namespace Wire

variable (w : Wire)

/-- The connection is lost. -/
def losing (fault : Option String) : Wire :=
  { w with lost := true, conn := { w.conn with fault } }

/-- A refused statement aborts the transaction. -/
def failing : Wire := { w with mode := if w.mode = .inTransaction then .failed else w.mode }

/-- What becomes of a statement. -/
def answer : Reply → Wire × Outcome
  | .done restored =>
    ({ w with mode := if restored ∧ w.mode = .failed then .inTransaction else w.mode }, .ok ())
  | .error e => (w.failing, .error e.message)
  | .unsent text => (w, .error (clientMessage text))
  | .lost text fault => (w.losing fault, .error text)

/-- What becomes of a statement that is only prepared. -/
def answerPlan : Reply → Wire × Outcome
  | .done _ => (w, .ok ())
  | reply => w.answer reply

/-- What becomes of a `BEGIN`. -/
def answerBegin : Reply → Wire × Outcome
  | .done _ => ({ w with mode := if w.mode = .idle then .inTransaction else w.mode }, .ok ())
  | reply => w.answer reply

/-- What becomes of a `COMMIT` or a `ROLLBACK`. -/
def answerEnd : EndReply → Wire × Outcome
  | .done => ({ w with mode := .idle }, .ok ())
  | .error e ended => (if ended then { w with mode := .idle } else w.failing, .error e.message)
  | .unsent text => (w, .error (clientMessage text))
  | .lost text fault => (w.losing fault, .error text)

/-- The connection as Python sees it. -/
def isClosed : Bool := w.conn.closed || w.lost

/-- `in_transaction`. -/
def inTransaction : Bool := w.conn.inTx

/-- `in_failed_transaction`. -/
def inFailedTransaction : Bool := w.conn.inTx && w.conn.aborted

end Wire

/-- One part of a call after another, if that ends well. -/
def andThen (first : Wire × Outcome) (second : Wire → Wire × Outcome) : Wire × Outcome :=
  match first with
  | (w, .ok ()) => second w
  | (w, .error e) => (w, .error e)

/-! ## The parts of a call -/

section Calls

variable (w : Wire)

/-- The statement that opens a transaction. -/
def beginStatement (conn : RustConn) : String :=
  match conn.serializable, conn.readonly with
  | false, true => "BEGIN ISOLATION LEVEL REPEATABLE READ READ ONLY"
  | false, false => "BEGIN ISOLATION LEVEL REPEATABLE READ"
  | true, true => "BEGIN ISOLATION LEVEL SERIALIZABLE READ ONLY"
  | true, false => "BEGIN ISOLATION LEVEL SERIALIZABLE"

/-- A transaction is opened unless one is: its flag is set before the statement is sent. -/
def ensureTx (reply : String → Reply) : Wire × Outcome :=
  if w.conn.autocommit then (w, .ok ())
  else if w.conn.inTx then (w, .ok ())
  else
    let opening : Wire := { w with conn := { w.conn with inTx := true } }
    opening.answerBegin (reply (beginStatement w.conn))

/-- A transaction is ended if one is open: its flags are cleared before the statement is sent. -/
def endTx (statement : String) (reply : String → EndReply) : Wire × Outcome :=
  let ending : Wire := { w with conn := { w.conn with inTx := false, aborted := false } }
  if w.conn.inTx then ending.answerEnd (reply statement) else (ending, .ok ())

/-- The text of an error that the task of a lost connection explains better. -/
def lostBackendError (text : String) : String :=
  if startsWith "SQLSTATE:|" text then w.conn.fault.getD text else text

/-- An error after which a connection is not used any more. -/
def isFatal (text : String) : Bool :=
  startsWith "SQLSTATE:57P" text || startsWith "SQLSTATE:08" text ||
    containsText "connection closed" text

/-- A connection is closed after an error that is fatal, and when it is lost. -/
def noteLostBackend (text : String) : Wire :=
  if isFatal text || w.lost then { w with conn := { w.conn with closed := true, inTx := false } }
  else w

/-- A statement that starts with `rollback`. -/
def statementRollsBack (sql : String) : Bool :=
  ((sql.toList.dropWhile isWhitespace).take 8).map Char.toLower = "rollback".toList

/-- An error that reads as one of the server. -/
def raisedByServer (text : String) : Bool :=
  startsWith "SQLSTATE:" text && !startsWith "SQLSTATE:|" text

/-- Whether the transaction is aborted, after a statement. -/
def trackAbort (query : String) (outcome : Outcome) : Wire :=
  if w.conn.inTx then
    match outcome with
    | .ok () =>
      if statementRollsBack query then { w with conn := { w.conn with aborted := false } } else w
    | .error text =>
      if raisedByServer text then { w with conn := { w.conn with aborted := true } } else w
  else { w with conn := { w.conn with aborted := false } }

/-- The values of the parameters, as values of the server's types.  Most texts are sent as texts, for
the server to read or to refuse; one that is given for bytes or for a vector, and is none, is refused
on the client with the error that the server would raise, and the name of the type, which the server
is asked for; any other value with an error of its own. -/
inductive Conversion where
  | done
  | refused (typeName text : String) (reply : Reply)
  | failed (text : String)

/-- The error of a text that the client takes for no value of a type. -/
def refusedMessage (typeName text : String) : String :=
  "SQLSTATE:22P02|invalid input syntax for type " ++ typeName ++ ": \"" ++ text ++ "\""

/-- How a statement goes: several statements at once, or one, whose parameters are bound to its
placeholders, which is prepared unless a plan is cached, whose parameters are converted, and which
is run and its rows decoded. -/
inductive Course where
  | simple (reply : Reply)
  | extended (bound : Outcome) (plan : Option Reply) (conversion : Conversion) (reply : Reply)
    (decoded : Outcome)

/-- The values of the parameters are converted. -/
def convert : Conversion → Wire × Outcome
  | .done => (w, .ok ())
  | .refused typeName text reply =>
    ((w.answerPlan reply).1, .error (refusedMessage typeName text))
  | .failed text => (w, .error text)

/-- A statement goes its course. -/
def runCourse : Course → Wire × Outcome
  | .simple reply => w.answer reply
  | .extended bound plan conversion reply decoded =>
    andThen (w, bound) fun w =>
    andThen (plan.elim (w, .ok ()) w.answerPlan) fun w =>
    andThen (convert w conversion) fun w =>
    andThen (w.answer reply) fun w => (w, decoded)

/-- What a call of `execute` meets. -/
structure Script where
  begin : String → Reply
  course : Course

def executeStatement (script : Script) : Wire × Outcome :=
  if w.conn.closed then (w, .error "connection is closed")
  else andThen (ensureTx w script.begin) fun w => runCourse w script.course

/-! ## The calls -/

/-- `execute`. -/
def execute (query : String) (script : Script) : Wire × Outcome :=
  let (w, outcome) := executeStatement w script
  let w := trackAbort w query outcome
  match outcome with
  | .ok () => (w, .ok ())
  | .error text =>
    let text := lostBackendError w text
    (noteLostBackend w text, .error text)

/-- `exec_simple`: a statement as it is, in a transaction or outside of one. -/
def execSimple (reply : Reply) : Wire × Outcome :=
  if w.conn.closed then (w, .error "connection is closed")
  else
    match w.answer reply with
    | (w, .ok ()) => (w, .ok ())
    | (w, .error text) =>
      let text := lostBackendError w text
      (noteLostBackend w text, .error text)

def commit (reply : String → EndReply) : Wire × Outcome := endTx w "COMMIT" reply

def rollback (reply : String → EndReply) : Wire × Outcome := endTx w "ROLLBACK" reply

/-- `close`: what becomes of the open transaction does not matter. -/
def close (reply : String → EndReply) : Wire × Outcome :=
  if w.conn.closed then (w, .ok ())
  else
    let closing : Wire := { w with conn := { w.conn with closed := true } }
    ((endTx closing "ROLLBACK" reply).1, .ok ())

/-- `reset_session`: the open transaction is rolled back, and the session is reset. -/
def resetSession (ends : String → EndReply) (reply : Reply) : Wire × Outcome :=
  if w.conn.closed then (w, .error "connection is closed")
  else
    andThen (endTx w "ROLLBACK" ends) fun w =>
    andThen (w.answer reply) fun w =>
      ({ w with conn := { w.conn with readonly := false, serializable := false } }, .ok ())

end Calls

/-! ## Runs -/

/-- A call, and what it meets; or the connection is lost between two calls. -/
inductive Event where
  | execute (query : String) (script : Script)
  | execSimple (reply : Reply)
  | commit (reply : String → EndReply)
  | rollback (reply : String → EndReply)
  | close (reply : String → EndReply)
  | resetSession (ends : String → EndReply) (reply : Reply)
  | lose (fault : Option String)

/-- One call. -/
def Wire.step (w : Wire) : Event → Wire
  | .execute query script => (Cursor.execute w query script).1
  | .execSimple reply => (Cursor.execSimple w reply).1
  | .commit reply => (Cursor.commit w reply).1
  | .rollback reply => (Cursor.rollback w reply).1
  | .close reply => (Cursor.close w reply).1
  | .resetSession ends reply => (Cursor.resetSession w ends reply).1
  | .lose fault => w.losing fault

/-- One call after another. -/
def Wire.run (w : Wire) (events : List Event) : Wire := events.foldl Wire.step w

/-- A connection that was just opened. -/
def RustConn.opened (readonly serializable : Bool) : RustConn where
  inTx := false
  aborted := false
  autocommit := false
  readonly := readonly
  serializable := serializable
  closed := false
  fault := none

/-- A connection that was just opened, and the server's side of it. -/
def Wire.opened (readonly serializable : Bool) : Wire where
  conn := .opened readonly serializable
  mode := .idle
  lost := false

/-- **The flags mirror the server**, unless the connection is closed. -/
def Wire.Mirrors (w : Wire) : Prop :=
  w.isClosed = false →
    (w.inTransaction = true → w.mode ≠ .idle) ∧ (w.inFailedTransaction = true ↔ w.mode = .failed)

end Cursor

end OdooKernel
