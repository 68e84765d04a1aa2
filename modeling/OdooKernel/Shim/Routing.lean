import Mathlib.Data.Int.Notation
import Mathlib.Logic.Function.Basic
import OdooKernel.Core.Dict
import OdooKernel.Core.Runs

/-!
# Calls that are routed

Each method that is wrapped asks the kernel where it may, and else calls the method that it wraps.
The wrappers differ in what they ask and in how they read the answer, and agree in when they ask, in
what they do with an error and in how they compare: a call is modelled by the latter, and the former
is what the action of a step says.

**What is shared.**  `Routing` is what the process was started with, `RouteStats` what its threads
share.

**The size of a step.**  The threads hold no lock, so that `Routing.advance` reads or writes once in
each step what other threads write: the mode is read before the gate and once more behind the answer,
a model may be quarantined between the two, and a count of errors is read, written and read again in
three steps, between which a reset may take it away.  Python code that runs in a call, in the gate,
in the `try`, or in the wrapped method itself, makes calls of its own, which are on the stack above
it (`CallThread.enter`); so a baseline is a phase of a call, and `depth` the counter that the code
keeps of them.

**What is recorded.**  `CallRecord` has, for each call, how often it asked the kernel, what was made
of the answer, what its wrapped method gave each time it was called for the answer or for comparison,
and what the caller got.  No wrapper reads it.

**What is left out.**  `web_read` has its wrapped method read, in the `try`, the fields that the
kernel does not know, and merges the two; here this is Python code like any other in a `try`, and is
not recorded, so that nothing is said of how often the method of `web_read` is called.
-/

namespace OdooKernel

/-! ## What the threads share -/

/-- `MODE`; any other text is `on`. -/
inductive RouteMode where
  | on
  | off
  | shadow
deriving DecidableEq, Repr

/-- What an exception is to the wrappers: `notException` is one that `except Exception` lets through. -/
inductive RaisedKind where
  | userError
  | databaseError
  | refused
  | otherException
  | notException
deriving DecidableEq, Repr

/-- What comes of a call. -/
inductive CallOutcome (ν ε : Type) where
  | value (v : ν)
  | raised (e : ε)
deriving DecidableEq, Repr

/-- What does not change: `ONLY`, `EXCEPT` and `BREAKER`, the model of a call, what counts as the same
answer to it, the kinds of exceptions, and the one that a dictionary raises for a key it does not have. -/
structure Routing (κ ν ε : Type) where
  only : List String
  except : List String
  breaker : ℤ
  model : κ → String
  same : κ → ν → ν → Bool
  kind : ε → RaisedKind
  keyError : ε

/-- What the threads share; `sampling` is whether `SAMPLE` is above zero. -/
structure RouteStats where
  mode : RouteMode
  sampling : Bool
  errorsByModel : Dict String ℕ
  tripped : List String
  quarantined : List String
deriving DecidableEq, Repr

namespace RouteStats

variable (stats : RouteStats)

/-- The errors of a model. -/
def errors (name : String) : ℕ := (stats.errorsByModel.get? name).getD 0

/-- A name at the end of a list that does not have it. -/
def note (names : List String) (name : String) : List String :=
  if name ∈ names then names else names ++ [name]

/-- Routing is disabled for a model until it is reset. -/
def quarantine (name : String) : RouteStats := { stats with quarantined := note stats.quarantined name }

/-- Routing is allowed again, for one model or for all. -/
def resetBreaker : Option String → RouteStats
  | none => { stats with errorsByModel := [], tripped := [], quarantined := [] }
  | some name => { stats with
      errorsByModel := stats.errorsByModel.pop name
      tripped := stats.tripped.erase name
      quarantined := stats.quarantined.erase name }

end RouteStats

/-! ## Calls -/

/-- Where a call stands. -/
inductive RoutePhase (ν ε : Type) where
  /-- The wrapper looks at its arguments. -/
  | entered
  /-- The mode and the lists of models allow it, and it is in no baseline. -/
  | screened
  /-- Its model is not quarantined. -/
  | unquarantined
  /-- The policy allows it, and the gate looks at the model. -/
  | gating
  /-- In the `try`, before or after the kernel was asked. -/
  | trying (asked : Bool)
  | computed (answer : ν)
  /-- The mode was not `shadow`. -/
  | unshadowed (answer : ν)
  | failed
  | counting (errors : ℕ)
  /-- The error is counted, and the count is read once more. -/
  | counted
  /-- The method that is wrapped runs, for its answer or for comparison. -/
  | original
  | baseline (answer : ν)
  | compared (answer original : ν)
  | quarantining (outcome : CallOutcome ν ε)
deriving DecidableEq, Repr

/-- A call on the stack of a thread; the calls of a thread are numbered. -/
structure RoutedCall (κ ν ε : Type) where
  number : ℕ
  call : κ
  phase : RoutePhase ν ε

/-- What has come of a call: how often the kernel was asked, what was made of its answer, what the
wrapped method gave each time it was called, and what the caller got. -/
structure CallRecord (κ ν ε : Type) where
  call : Option κ
  asked : ℕ
  computed : Option ν
  originals : List (CallOutcome ν ε)
  answers : List (CallOutcome ν ε)
deriving DecidableEq, Repr

/-- Nothing has come of a call yet. -/
def CallRecord.start {κ ν ε : Type} (call : Option κ) : CallRecord κ ν ε :=
  { call, asked := 0, computed := none, originals := [], answers := [] }

/-- A thread: `depth` is how many baselines it is in. -/
structure CallThread (κ ν ε : Type) where
  depth : ℕ
  stack : List (RoutedCall κ ν ε)
  calls : ℕ
  record : ℕ → CallRecord κ ν ε

/-- What a thread does next. -/
inductive CallAction (κ ν ε : Type) where
  | setMode (mode : RouteMode)
  | setSample (sampling : Bool)
  | resetBreaker (name : Option String)
  | call (c : κ)
  | refuse
  | readMode
  | readQuarantined
  | readErrors
  | pass
  | ask
  | compute (answer : ν)
  | sample (drawn : Bool)
  | raise (e : ε) (inFailedTransaction : Bool)
  | count
  | finish (outcome : CallOutcome ν ε)
  | compare
  | quarantine

/-- What a step makes of the call it is about: it goes on, or it is answered. -/
inductive CallNext (ν ε : Type) where
  | goes (phase : RoutePhase ν ε)
  | answers (outcome : CallOutcome ν ε)

/-- What a step changes. -/
structure CallStep (κ ν ε : Type) where
  stats : RouteStats
  depth : ℕ
  record : CallRecord κ ν ε
  next : CallNext ν ε

/-- Whether Python cannot answer either: the caller's own error, or a transaction that has failed. -/
def pythonCannotAnswer (kind : RaisedKind) (inFailedTransaction : Bool) : Bool :=
  kind = .userError || (kind = .databaseError && inFailedTransaction)

namespace Routing

variable {κ ν ε : Type} (r : Routing κ ν ε)

/-- `ONLY` and `EXCEPT` allow a model. -/
def listed (name : String) : Bool := (r.only.isEmpty || name ∈ r.only) && name ∉ r.except

/-- A model that has had too many errors. -/
def trips (stats : RouteStats) (name : String) : Bool :=
  r.breaker ≠ 0 && r.breaker ≤ stats.errors name

/-- **What a step changes**, for the call on top of a thread's stack. -/
def advance (stats : RouteStats) (depth : ℕ) (record : CallRecord κ ν ε) (c : κ) :
    RoutePhase ν ε → CallAction κ ν ε → Option (CallStep κ ν ε)
  | .entered, .refuse | .gating, .refuse => some { stats, depth, record, next := .goes .original }
  | .entered, .raise e _ | .gating, .raise e _ =>
    some { stats, depth, record, next := .answers (.raised e) }
  | .entered, .readMode =>
    let allowed := stats.mode ≠ .off && depth = 0 && r.listed (r.model c)
    some { stats, depth, record, next := .goes (if allowed then .screened else .original) }
  | .screened, .readQuarantined =>
    let phase := if r.model c ∈ stats.quarantined then .original else .unquarantined
    some { stats, depth, record, next := .goes phase }
  | .unquarantined, .readErrors =>
    if r.trips stats (r.model c) then
      let stats := { stats with tripped := RouteStats.note stats.tripped (r.model c) }
      some { stats, depth, record, next := .goes .original }
    else some { stats, depth, record, next := .goes .gating }
  | .gating, .pass => some { stats, depth, record, next := .goes (.trying false) }
  | .trying _, .ask =>
    let record := { record with asked := record.asked + 1 }
    some { stats, depth, record, next := .goes (.trying true) }
  | .trying true, .compute v =>
    some { stats, depth, record := { record with computed := some v }, next := .goes (.computed v) }
  | .trying _, .raise e inFailedTransaction =>
    if r.kind e = .notException || pythonCannotAnswer (r.kind e) inFailedTransaction then
      some { stats, depth, record, next := .answers (.raised e) }
    else
      let phase := if r.kind e = .refused then .original else .failed
      some { stats, depth, record, next := .goes phase }
  | .failed, .readErrors =>
    some { stats, depth, record, next := .goes (.counting (stats.errors (r.model c))) }
  | .counting n, .count =>
    let stats := { stats with errorsByModel := stats.errorsByModel.insert (r.model c) (n + 1) }
    some { stats, depth, record, next := .goes .counted }
  | .counted, .readErrors =>
    -- another thread may have reset the model since
    let next : CallNext ν ε := match stats.errorsByModel.get? (r.model c) with
      | some _ => .goes .original
      | none => .answers (.raised r.keyError)
    some { stats, depth, record, next }
  | .computed v, .readMode =>
    if stats.mode = .shadow then
      some { stats, depth := depth + 1, record, next := .goes (.baseline v) }
    else some { stats, depth, record, next := .goes (.unshadowed v) }
  | .unshadowed v, .sample drawn =>
    if stats.sampling && drawn then
      some { stats, depth := depth + 1, record, next := .goes (.baseline v) }
    else some { stats, depth, record, next := .answers (.value v) }
  | .original, .finish outcome =>
    let record := { record with originals := outcome :: record.originals }
    some { stats, depth, record, next := .answers outcome }
  | .baseline v, .finish outcome =>
    let record := { record with originals := outcome :: record.originals }
    let next : CallNext ν ε := match outcome with
      | .value w => .goes (.compared v w)
      | .raised e =>
        if r.kind e = .notException then .answers outcome else .goes (.quarantining outcome)
    some { stats, depth := depth - 1, record, next }
  | .compared v w, .compare =>
    let next := if r.same c v w then .answers (.value w) else .goes (.quarantining (.value w))
    some { stats, depth, record, next }
  | .quarantining outcome, .quarantine =>
    some { stats := stats.quarantine (r.model c), depth, record, next := .answers outcome }
  | _, _ => none

end Routing

/-- Whether Python code runs in a phase, and may make calls of its own. -/
def RoutePhase.runsPython {ν ε : Type} : RoutePhase ν ε → Bool
  | .entered | .gating | .trying _ | .unshadowed _ | .original | .baseline _ => true
  | _ => false

namespace CallThread

variable {κ ν ε : Type} (th : CallThread κ ν ε)

/-- A new call on top of the others. -/
def enter (c : κ) : CallThread κ ν ε where
  depth := th.depth
  stack := { number := th.calls, call := c, phase := .entered } :: th.stack
  calls := th.calls + 1
  record := Function.update th.record th.calls (.start c)

/-- The call on top goes on. -/
def goes (f : RoutedCall κ ν ε) (rest : List (RoutedCall κ ν ε)) (s : CallStep κ ν ε) :
    CallThread κ ν ε :=
  match s.next with
  | .goes phase =>
    { th with
      depth := s.depth
      stack := { f with phase } :: rest
      record := Function.update th.record f.number s.record }
  | .answers outcome =>
    let record := { s.record with answers := outcome :: s.record.answers }
    { th with depth := s.depth, stack := rest, record := Function.update th.record f.number record }

/-- A step of the call on top of the stack. -/
def stepTop (r : Routing κ ν ε) (stats : RouteStats) (a : CallAction κ ν ε) :
    Option (RouteStats × CallThread κ ν ε) :=
  match th.stack with
  | [] => none
  | f :: rest => (r.advance stats th.depth (th.record f.number) f.call f.phase a).map fun s =>
      (s.stats, th.goes f rest s)

/-- **One step of a thread**, if it can be taken. -/
def step (r : Routing κ ν ε) (stats : RouteStats) (a : CallAction κ ν ε) :
    Option (RouteStats × CallThread κ ν ε) :=
  match a with
  | .setMode mode => some ({ stats with mode }, th)
  | .setSample sampling => some ({ stats with sampling }, th)
  | .resetBreaker name => some (stats.resetBreaker name, th)
  | .call c => if th.stack.head?.all (·.phase.runsPython) then some (stats, th.enter c) else none
  | a => th.stepTop r stats a

/-- A thread that has made no call. -/
def initial : CallThread κ ν ε where
  depth := 0
  stack := []
  calls := 0
  record _ := .start none

end CallThread

/-- A process: what its threads share, and the threads. -/
structure Router (τ κ ν ε : Type) where
  stats : RouteStats
  thread : τ → CallThread κ ν ε

namespace Router

variable {τ κ ν ε : Type} [DecidableEq τ]

/-- **A thread takes a step**, if it can. -/
def step (r : Routing κ ν ε) (s : Router τ κ ν ε) (a : τ × CallAction κ ν ε) :
    Option (Router τ κ ν ε) :=
  ((s.thread a.1).step r s.stats a.2).map fun p =>
    { stats := p.1, thread := Function.update s.thread a.1 p.2 }

/-- A process that has routed nothing. -/
def initial (mode : RouteMode) (sampling : Bool) : Router τ κ ν ε where
  stats := { mode, sampling, errorsByModel := [], tripped := [], quarantined := [] }
  thread _ := .initial

end Router

end OdooKernel
