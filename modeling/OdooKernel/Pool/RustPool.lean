import Mathlib.Data.Nat.Notation
import OdooKernel.Core.Runs

/-!
# The connection pool of the Python process

Threads take connections out of a pool and put them back.

**The size of a step.**  Every access to the pool holds its lock, which is let go while a connection
is opened, checked, reset or closed; an action is what a thread does under the lock, or how one of
these ends.  A drain is two accesses, one that raises the generation and one that closes what is
idle, and a call of `getconn` may take its slot between them.

**What is written beside the code.**  Connections are numbered in the order in which calls set out to
open them.  `mark` and `drained` are the next number when the last drain began and when the last one
of those that have returned did, and `floor` is `drained` as a call found it.  The code keeps none of
the three; they say which connections a drain is about.

* `CallPhase` — where a thread stands in a call.
* `RustPool.takeIdle` — the idle connection that a call takes.
* `RustPool.step` — the state after an action.
-/

namespace OdooKernel

/-- Where a thread stands in a call of `getconn`, `putconn`, `drain` or `close`.  A connection is
numbered when a call sets out to open it; `floor` is the number that the next connection would have
had when the last drain of those that had returned began, as of the beginning of the call. -/
inductive CallPhase where
  | outside
  | asking (floor : ℕ)
  | opening (floor conn generation : ℕ)
  | checking (floor conn generation : ℕ)
  | yielding (floor conn generation : ℕ)
  | resetting (conn : ℕ)
  | draining (mark : ℕ)
  | closing
deriving DecidableEq

/-- The connection that a call has a slot for. -/
def CallPhase.conn : CallPhase → Option ℕ
  | .opening _ conn _ | .checking _ conn _ | .yielding _ conn _ | .resetting conn => some conn
  | .outside | .asking _ | .draining _ | .closing => none

/-- The pool and the threads.  The idle connection that was put back last is the first; each has the
generation of the pool at that time.  `mark` is the next number when the last drain began, and
`drained` when the last one of those that have returned did. -/
structure RustPool (ι : Type) where
  maxSize : ℕ
  idle : List (ℕ × ℕ)
  out : ℕ
  generation : ℕ
  closed : Bool
  opened : ℕ
  isClosed : ℕ → Bool
  connGeneration : ℕ → ℕ
  borrowed : List ℕ
  phase : ι → CallPhase
  mark : ℕ
  drained : ℕ

/-- What became of a check. -/
inductive CheckOutcome where
  | passes
  | fails
  | raises
deriving DecidableEq

/-- What happens next, and in which thread. -/
inductive RustPoolAction (ι : Type) where
  | getconn (t : ι)
  | reserve (t : ι) (timedOut : Bool)
  | opened (t : ι) (ok : Bool)
  | checked (t : ι) (outcome : CheckOutcome)
  | yield (t : ι) (ok : Bool)
  | putconn (t : ι) (conn : ℕ)
  | putBack (t : ι) (keep : Bool)
  | drain (t : ι)
  | close (t : ι)
  | evictIdle (t : ι)
  | open
  | disconnect (conn : ℕ)
deriving DecidableEq

namespace RustPool

/-- The last idle connection of the generation that is not closed, and the ones that stay idle. -/
def takeIdle (generation : ℕ) (isClosed : ℕ → Bool) : List (ℕ × ℕ) → Option ℕ × List (ℕ × ℕ)
  | [] => (none, [])
  | (candidate, gen) :: idle =>
    if gen = generation && !isClosed candidate then (some candidate, idle)
    else takeIdle generation isClosed idle

variable {ι : Type} [DecidableEq ι] (s : RustPool ι)

/-- A thread goes on. -/
def goes (t : ι) (phase : CallPhase) : RustPool ι :=
  { s with phase := Function.update s.phase t phase }

/-- A call gives its slot back. -/
def givesBack (t : ι) (phase : CallPhase) : RustPool ι := { s.goes t phase with out := s.out - 1 }

/-- A call of `getconn` takes an idle connection or a slot for a new one, or waits for one. -/
def reserve (t : ι) (floor : ℕ) (timedOut : Bool) : RustPool ι :=
  match takeIdle s.generation s.isClosed s.idle with
  | (some conn, idle) =>
    { s.goes t (.checking floor conn s.generation) with idle, out := s.out + 1 }
  | (none, idle) =>
    if s.out ≥ s.maxSize then { s.goes t (if timedOut then .outside else .asking floor) with idle }
    else
      { s.goes t (.opening floor s.opened s.generation) with
        idle, out := s.out + 1, opened := s.opened + 1 }

/-- A call of `putconn` that has reset the connection puts it back, or lets it go. -/
def putBack (t : ι) (conn : ℕ) (keep : Bool) : RustPool ι :=
  let room := s.idle.length < s.maxSize
  let current := s.connGeneration conn = s.generation
  if keep && room && current && !s.closed && !s.isClosed conn then
    { s.givesBack t .outside with idle := (conn, s.generation) :: s.idle }
  else s.givesBack t .outside

/-- **The state after an action**, if it can be taken. -/
def step : RustPoolAction ι → Option (RustPool ι)
  | .getconn t => if s.phase t = .outside then some (s.goes t (.asking s.drained)) else none
  | .reserve t timedOut =>
    match s.phase t with
    | .asking floor =>
      -- a closed pool raises
      if s.closed then some (s.goes t .outside) else some (s.reserve t floor timedOut)
    | _ => none
  | .opened t ok =>
    match s.phase t with
    | .opening floor conn generation =>
      if ok then some (s.goes t (.yielding floor conn generation))
      else some (s.givesBack t .outside)
    | _ => none
  | .checked t outcome =>
    match s.phase t with
    | .checking floor conn generation =>
      match outcome with
      | .passes => some (s.goes t (.yielding floor conn generation))
      | .fails => some (s.givesBack t (.asking floor))
      | .raises => some (s.givesBack t .outside)
    | _ => none
  | .yield t ok =>
    match s.phase t with
    | .yielding _ conn generation =>
      if ok then
        some { s.goes t .outside with
          connGeneration := Function.update s.connGeneration conn generation
          borrowed := conn :: s.borrowed }
      else some (s.givesBack t .outside)
    | _ => none
  | .putconn t conn =>
    if s.phase t = .outside ∧ conn ∈ s.borrowed then
      some { s.goes t (.resetting conn) with borrowed := s.borrowed.erase conn }
    else none
  | .putBack t keep =>
    match s.phase t with
    | .resetting conn => some (s.putBack t conn keep)
    | _ => none
  | .drain t =>
    if s.phase t = .outside then
      some { s.goes t (.draining s.opened) with
        generation := s.generation + 1, mark := s.opened }
    else none
  | .close t =>
    if s.phase t = .outside then some { s.goes t .closing with closed := true } else none
  | .evictIdle t =>
    match s.phase t with
    | .draining mark => some { s.goes t .outside with idle := [], drained := max s.drained mark }
    | .closing => some { s.goes t .outside with idle := [] }
    | _ => none
  | .open => some { s with closed := false }
  | .disconnect conn => some { s with isClosed := Function.update s.isClosed conn true }

/-- A pool that was just made. -/
def initial (maxSize : ℕ) (isOpen : Bool) : RustPool ι where
  maxSize
  idle := []
  out := 0
  generation := 0
  closed := !isOpen
  opened := 0
  isClosed _ := false
  connGeneration _ := 0
  borrowed := []
  phase _ := .outside
  mark := 0
  drained := 0

end RustPool

end OdooKernel
