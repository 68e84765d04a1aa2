import Mathlib.Data.Nat.Notation
import OdooKernel.Core.Runs

/-!
# The connection pool of the server

Any number of requests share the connections of a pool.  A permit of a semaphore stands for a free
connection; a request that gets one pops a connection and forgets the permit, and the lease of the
connection puts both back when it is dropped.

**The size of a step.**  An action is what a request does between two points where another one may go
on: an await, or a lock of the pool.  So the permit is granted in one step and the connection popped
in another, and the drop of a lease is two: the connection is pushed, and then the permit is added.
What a request does on its own connection between two awaits is one step.

**What the server does.**  A `Connection` has the request whose transaction its session is in.  What
a statement that failed, or was given up, has done to the session is the action's to say (`undone`),
and one that was given up may still take effect when the request has gone (`settle`), as long as the
connection is poisoned; nothing is assumed of either.

**How a request ends.**  By its own steps, by the timeout of the wait for a connection (`giveUp`), or
by what drops its future (`cancel`): a timeout, a panic, a task that is aborted.  The guard of the
transaction poisons the connection unless the transaction was ended, which is what keeps a session
that is still in one from the next request.

* `LeasePhase` — where a request stands, and the connection that its lease holds.
* `Pool.step` — the state after an action.
-/

namespace OdooKernel

/-- A connection: whether it is closed or poisoned, and the request whose transaction its session is
in. -/
structure Connection (ι : Type) where
  closed : Bool
  poisoned : Bool
  transaction : Option ι
deriving DecidableEq

/-- A connection that was just opened. -/
def Connection.fresh {ι : Type} : Connection ι where
  closed := false
  poisoned := false
  transaction := none

/-- A connection that no request is handed. -/
def Connection.isUnusable {ι : Type} (connection : Connection ι) : Bool :=
  connection.closed || connection.poisoned

/-- Where a request stands: before it asks for a connection, waiting for a permit, with a permit,
opening a connection in place of one that is unusable, with a lease, with an open transaction, at the
end of it, after a failed dispatch, dropping its lease, and with the permit of the lease still to put
back. -/
inductive LeasePhase where
  | outside
  | waiting
  | granted
  | reconnecting (conn : ℕ)
  | leased (conn : ℕ)
  | running (conn : ℕ)
  | committing (conn : ℕ)
  | rollingBack (conn : ℕ)
  | failed (conn : ℕ)
  | dropping (conn : ℕ)
  | returning
  | done
  | panicked
deriving DecidableEq

/-- The connection that a request's lease holds. -/
def LeasePhase.held : LeasePhase → Option ℕ
  | .reconnecting conn | .leased conn | .running conn | .committing conn | .rollingBack conn
  | .failed conn | .dropping conn => some conn
  | .outside | .waiting | .granted | .returning | .done | .panicked => none

/-- The pool and the requests.  The top of the free connections is the first. -/
structure Pool (ι : Type) where
  free : List ℕ
  permits : ℕ
  opened : ℕ
  connection : ℕ → Connection ι
  phase : ι → LeasePhase

/-- What happens next, and to which request: `undone` says that a statement that failed, or was given
up, left its transaction open. -/
inductive PoolAction (ι : Type) where
  | ask (r : ι)
  | grant (r : ι)
  | pop (r : ι)
  | giveUp (r : ι)
  | reconnect (r : ι) (ok : Bool)
  | leave (r : ι)
  | begin (r : ι) (ok undone : Bool)
  | dispatched (r : ι) (ok : Bool)
  | commit (r : ι) (ok undone : Bool)
  | rollBack (r : ι) (ok undone : Bool)
  | cancel (r : ι) (undone : Bool)
  | drop (r : ι)
  | addPermit (r : ι)
  | close (conn : ℕ)
  | settle (conn : ℕ) (transaction : Option ι)

namespace Pool

variable {ι : Type} [DecidableEq ι] (s : Pool ι)

/-- A request goes on. -/
def goes (r : ι) (phase : LeasePhase) : Pool ι := { s with phase := Function.update s.phase r phase }

@[simp] lemma goes_phase_self (r : ι) (phase : LeasePhase) : (s.goes r phase).phase r = phase :=
  Function.update_self ..

lemma goes_phase_of_ne {r x : ι} (h : x ≠ r) (phase : LeasePhase) :
    (s.goes r phase).phase x = s.phase x := Function.update_of_ne h ..

@[simp] lemma goes_free (r : ι) (phase : LeasePhase) : (s.goes r phase).free = s.free := rfl

@[simp] lemma goes_permits (r : ι) (phase : LeasePhase) : (s.goes r phase).permits = s.permits := rfl

/-- A connection changes. -/
def withConnection (conn : ℕ) (connection : Connection ι) : Pool ι :=
  { s with connection := Function.update s.connection conn connection }

omit [DecidableEq ι] in
@[simp] lemma withConnection_self (conn : ℕ) (connection : Connection ι) :
    (s.withConnection conn connection).connection conn = connection := Function.update_self ..

omit [DecidableEq ι] in
lemma withConnection_of_ne {conn x : ℕ} (h : x ≠ conn) (connection : Connection ι) :
    (s.withConnection conn connection).connection x = s.connection x := Function.update_of_ne h ..

/-- The transaction that a connection is left in. -/
def endsIn (conn : ℕ) (transaction : Option ι) : Pool ι :=
  s.withConnection conn { s.connection conn with transaction }

/-- A connection is poisoned, in whatever transaction it is left. -/
def poison (conn : ℕ) (transaction : Option ι) : Pool ι :=
  s.withConnection conn { s.connection conn with poisoned := true, transaction }

/-- The transaction of a request, if a statement left it open. -/
def unlessUndone (r : ι) (undone : Bool) : Option ι := if undone then some r else none

/-- A connection of its own for a request with a permit. -/
def popFree (r : ι) : Pool ι :=
  match s.free with
  | [] => s.goes r .panicked
  | conn :: free =>
    { s.goes r (if (s.connection conn).isUnusable then .reconnecting conn else .leased conn) with
      free }

/-- **The state after an action**, if it can be taken.  The requests of `dispatches` dispatch in a
transaction, the others only query. -/
def step (dispatches : ι → Bool) : PoolAction ι → Option (Pool ι)
  | .ask r => if s.phase r = .outside then some (s.goes r .waiting) else none
  | .grant r =>
    match s.phase r, s.permits with
    | .waiting, permits + 1 => some { s.goes r .granted with permits }
    | _, _ => none
  | .pop r => if s.phase r = .granted then some (s.popFree r) else none
  | .giveUp r =>
    -- the timeout drops the future: a permit goes back, a lease is dropped
    match s.phase r with
    | .waiting => some (s.goes r .done)
    | .granted => some { s.goes r .done with permits := s.permits + 1 }
    | .reconnecting conn => some (s.goes r (.dropping conn))
    | _ => none
  | .reconnect r ok =>
    match s.phase r with
    | .reconnecting conn =>
      if ok then
        some { (s.withConnection s.opened .fresh).goes r (.leased s.opened) with
          opened := s.opened + 1 }
      else some (s.goes r (.dropping conn))
    | _ => none
  | .leave r =>
    match s.phase r with
    | .leased conn => if dispatches r then none else some (s.goes r (.dropping conn))
    | _ => none
  | .begin r ok undone =>
    match s.phase r with
    | .leased conn =>
      if dispatches r then
        if ok then some ((s.endsIn conn (some r)).goes r (.running conn))
        else some ((s.endsIn conn (unlessUndone r undone)).goes r (.failed conn))
      else none
    | _ => none
  | .dispatched r ok =>
    match s.phase r with
    | .running conn => some (s.goes r (if ok then .committing conn else .rollingBack conn))
    | _ => none
  | .commit r ok undone =>
    match s.phase r with
    | .committing conn =>
      if ok then some ((s.endsIn conn none).goes r (.dropping conn))
      else some ((s.poison conn (unlessUndone r undone)).goes r (.dropping conn))
    | _ => none
  | .rollBack r ok undone =>
    match s.phase r with
    | .rollingBack conn =>
      if ok then some ((s.endsIn conn none).goes r (.failed conn))
      else some ((s.poison conn (unlessUndone r undone)).goes r (.dropping conn))
    | .failed conn =>
      -- `dispatch_once` rolls back once more
      if ok then some ((s.endsIn conn none).goes r (.dropping conn))
      else some ((s.poison conn (unlessUndone r undone)).goes r (.dropping conn))
    | _ => none
  | .cancel r undone =>
    -- a timeout, a panic or a dropped task: the guard was not finished
    match s.phase r with
    | .leased conn =>
      if dispatches r then
        some ((s.poison conn (unlessUndone r undone)).goes r (.dropping conn))
      else none
    | .running conn | .committing conn | .rollingBack conn | .failed conn =>
      some ((s.poison conn (unlessUndone r undone)).goes r (.dropping conn))
    | _ => none
  | .drop r =>
    match s.phase r with
    | .dropping conn => some { s.goes r .returning with free := conn :: s.free }
    | _ => none
  | .addPermit r =>
    if s.phase r = .returning then some { s.goes r .done with permits := s.permits + 1 } else none
  | .close conn => some (s.withConnection conn { s.connection conn with closed := true })
  | .settle conn transaction =>
    -- a statement that was given up may still take effect
    if (s.connection conn).poisoned then some (s.endsIn conn transaction) else none

/-- A pool of connections, before any request. -/
def initial (size : ℕ) : Pool ι where
  free := List.range size
  permits := size
  opened := size
  connection _ := .fresh
  phase _ := .outside

end Pool

end OdooKernel
