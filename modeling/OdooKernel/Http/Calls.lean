import Mathlib.Logic.Function.Basic
import OdooKernel.Core.Runs
import OdooKernel.Http.Requests

/-!
# The calls of the server

Any number of calls are served at once.  They share the registry, the time of the export that it was
built from, and whether the export is known to be too old.

**The size of a step.**  The registry and the time each have a lock of their own and the flag is an
atomic; nothing is held over two of them.  So a step of a call (`HttpServer.goOn`) reads or writes
one of them once, or waits for something from outside.  A rebuild takes five: the time of the export
is read, the registry is built, swapped in, the time is noted, and the flag is cleared; a call that
comes in between may find the new registry under the old time, or the flag still set.  A dispatch
takes its registry in one step and returns in another, and whatever happens to the registry in
between is not its own.

**What is told from outside.**  How the command that makes an export ends, the time of the export's
file, what a rebuild comes to and what a dispatch returns are `CallInput`s: nothing is assumed of
them, and `Cursor/Dispatch` has what a dispatch does in the database.

**Clients that go.**  The future of a call is dropped where it waits and nowhere else: at the
command, at the building, at the lock of the registry and at the dispatch.  Elsewhere a call goes on,
gone client or not.

**What is remembered.**  `history` has for each call what it did, in order.  No step reads it;
`Serving` says which histories a call may have, from its arrival to its answer, and `Follows` what it
has of one where it stands, which is the invariant.

**The results.**  **`call_is_served`**: each call of any run does what `Serving` says, as far as it
has come.  **`dispatched_with_authority`**: what is dispatched for a call from outside is its body,
by the rules for public requests, and the call has the server's token.
-/

namespace OdooKernel

/-! ## Errors and answers -/

/-- An error of a dispatch or of a rebuild: its text with those of its causes, what it is, and whether
a cause of it is a registry that is stale, or a plan that is. -/
structure ServeError where
  text : String
  kind : ErrorKind
  isRegistryStale : Bool
  isStalePlan : Bool
deriving DecidableEq, Repr

namespace ServeError

variable (e : ServeError)

def errorKind : String :=
  match e.kind with
  | .database | .internal => "internal"
  | .refused | .accessDenied | .registryStale => "refusal"

/-- **The status of an error.** -/
def statusOf : Status :=
  if e.isRegistryStale || startsWith "no database connection" e.text
      || startsWith "the Odoo registry changed" e.text
      || startsWith "registry rebuild failed" e.text then .SERVICE_UNAVAILABLE
  else if startsWith "request exceeded" e.text then .GATEWAY_TIMEOUT
  else if containsText "access denied" e.text then .FORBIDDEN
  else if startsWith "internal error" e.text || e.errorKind = "internal" then .INTERNAL_SERVER_ERROR
  else .UNPROCESSABLE_ENTITY

/-- The error that is the cause of another. -/
def context (why : String) : ServeError := { e with text := why ++ ": " ++ e.text }

end ServeError

/-- What a call is answered. -/
inductive HttpAnswer where
  | result (raw : String)
  | error (status : Status) (why : String) (kind : Option String)
deriving DecidableEq, Repr

def HttpAnswer.status : HttpAnswer → Status
  | .result _ => .OK
  | .error status _ _ => status

/-- The answer of an error. -/
def ServeError.refuse (e : ServeError) : HttpAnswer := .error e.statusOf e.text (some e.errorKind)

/-! ## Calls -/

/-- A call as it arrives: its token, empty where it has none, the digest that this is compared by, and
its body. -/
structure Arrival where
  token : String
  digest : String → ℕ × ℕ
  body : Json

/-- What the server is started with. -/
structure ServerSetup where
  auth : Auth
  texts : ErrorTexts
  exportPath : Option String
  exportCommand : Option String

/-- Where a call stands; `again` is whether its request was dispatched before. -/
inductive ServePhase (ρ : Type) where
  | outside
  | arrived (arrival : Arrival)
  | admitted (req : Request)
  /-- In `fresh_export`: the command runs, the export's time was read, the flag is to be set. -/
  | exporting (req : Request) (again : Bool)
  | comparing (req : Request) (again : Bool)
  | compared (req : Request) (again : Bool) (now : Option ℕ)
  | predating
  /-- In `rebuild_registry`, up to each write of what is shared. -/
  | rebuilding (req : Request) (again : Bool)
  | building (req : Request) (again : Bool) (mtime : Option ℕ)
  | swapping (req : Request) (again : Bool) (mtime : Option ℕ) (fresh : ρ)
  | marking (req : Request) (again : Bool) (mtime : Option ℕ)
  | clearing (req : Request) (again : Bool)
  | ready (req : Request) (again : Bool)
  | dispatched (req : Request) (again : Bool)
  | answered
  /-- The client has gone. -/
  | dropped

/-- What is remembered of a call. -/
inductive CallEvent (ρ : Type) where
  | foundStale
  | rebuilt
  | dispatched (req : Request) (registry : ρ)
  | failed (e : ServeError)
  | succeeded (raw : String)
  | answered (answer : HttpAnswer)

/-- What a call is told from outside. -/
inductive CallInput (ρ : Type) where
  | nothing
  | command (outcome : Except ServeError Unit)
  | mtime (time : Option ℕ)
  | built (outcome : Except ServeError ρ)
  | returned (outcome : Except ServeError String)
  | gone

/-- The server: what its calls share, and each call with what is remembered of it. -/
structure HttpServer (ρ : Type) where
  registry : ρ
  exportMtime : Option ℕ
  stale : Bool
  phase : ℕ → ServePhase ρ
  arrival : ℕ → Option Arrival
  history : ℕ → List (CallEvent ρ)

/-- What happens next. -/
inductive HttpAction (ρ : Type) where
  | arrive (call : ℕ) (arrival : Arrival)
  | goOn (call : ℕ) (input : CallInput ρ)

/-- No call has arrived yet. -/
def HttpServer.start {ρ : Type} (registry : ρ) (mtime : Option ℕ) : HttpServer ρ where
  registry := registry
  exportMtime := mtime
  stale := false
  phase := fun _ => .outside
  arrival := fun _ => none
  history := fun _ => []

section Steps

variable {ρ : Type} (setup : ServerSetup)

/-- A call has the token, where one is asked for. -/
def Auth.knows (arrival : Arrival) : Auth → Bool
  | .Token secret _ => tokenMatches arrival.digest arrival.token secret
  | .Pinned _ => true

/-- **The request that a call is let in with**, if it is. -/
def admitCall (arrival : Arrival) : Except HttpAnswer Request :=
  if !setup.auth.knows arrival then
    .error (.error .UNAUTHORIZED "missing or wrong X-Rustorm-Token" none)
  else
    match (publicRequest setup.texts arrival.body).bind (admitRequest setup.auth) with
    | .ok req => .ok req
    | .error (status, why) => .error (.error status why none)

/-- The error of an export that is too old. -/
def predatesError : ServeError where
  text := "the Odoo registry changed and the export at " ++ setup.exportPath.getD "<none>"
    ++ " predates it; supply a fresh export there (or set RUSTORM_EXPORT_CMD to a command that "
    ++ "regenerates it) -- until then every request is refused"
  kind := .internal
  isRegistryStale := false
  isStalePlan := false

namespace HttpServer

variable (s : HttpServer ρ) (call : ℕ)

/-- A call goes on. -/
def goes (phase : ServePhase ρ) (events : List (CallEvent ρ)) : HttpServer ρ :=
  { s with
    phase := Function.update s.phase call phase
    history := Function.update s.history call (s.history call ++ events) }

/-- A call is answered. -/
def answers (answer : HttpAnswer) (events : List (CallEvent ρ)) : HttpServer ρ :=
  s.goes call .answered (events ++ [.answered answer])

/-- The first thing that is done about an export that is too old. -/
def freshens (req : Request) (again : Bool) (events : List (CallEvent ρ)) : HttpServer ρ :=
  s.goes call (if setup.exportCommand.isSome then .exporting req again else .comparing req again) events

/-- What follows a dispatch. -/
def afterDispatch (req : Request) (again : Bool) : Except ServeError String → HttpServer ρ
  | .ok raw => s.answers call (.result raw) [.succeeded raw]
  | .error e =>
    if again then s.answers call e.refuse [.failed e]
    else if e.isRegistryStale then s.freshens setup call req true [.failed e]
    else if e.isStalePlan then s.goes call (.ready req true) [.failed e]
    else s.answers call e.refuse [.failed e]

/-- **The state after a call has gone on**, if it can. -/
def goOn : ServePhase ρ → CallInput ρ → Option (HttpServer ρ)
  | .arrived arrival, .nothing =>
    match admitCall setup arrival with
    | .ok req => some (s.goes call (.admitted req) [])
    | .error answer => some (s.answers call answer [])
  | .admitted req, .nothing =>
    if s.stale then some (s.freshens setup call req false [.foundStale])
    else some (s.goes call (.ready req false) [])
  | .exporting req again, .command (.ok ()) => some (s.goes call (.comparing req again) [])
  | .exporting _ _, .command (.error e) => some (s.answers call e.refuse [])
  | .comparing req again, .mtime now => some (s.goes call (.compared req again now) [])
  | .compared req again now, .nothing =>
    if now.isSome ∧ now ≠ s.exportMtime then some (s.goes call (.rebuilding req again) [])
    else some (s.goes call .predating [])
  | .predating, .nothing =>
    some ({ s with stale := true }.answers call (predatesError setup).refuse [])
  | .rebuilding req again, .mtime mtime => some (s.goes call (.building req again mtime) [])
  | .building req again mtime, .built (.ok fresh) =>
    some (s.goes call (.swapping req again mtime fresh) [])
  | .building _ again _, .built (.error e) =>
    -- only the rebuild that comes first says what failed
    some (s.answers call (if again then e else e.context "registry rebuild failed").refuse [])
  | .swapping req again mtime fresh, .nothing =>
    some ({ s with registry := fresh }.goes call (.marking req again mtime) [])
  | .marking req again mtime, .nothing =>
    some ({ s with exportMtime := mtime }.goes call (.clearing req again) [])
  | .clearing req again, .nothing =>
    some ({ s with stale := false }.goes call (.ready req again) [.rebuilt])
  | .ready req again, .nothing =>
    some (s.goes call (.dispatched req again) [.dispatched req s.registry])
  | .dispatched req again, .returned outcome => some (s.afterDispatch setup call req again outcome)
  -- a client that goes takes its call along where that waits
  | .exporting _ _, .gone | .building _ _ _, .gone | .swapping _ _ _ _, .gone | .dispatched _ _, .gone =>
    some (s.goes call .dropped [])
  | _, _ => none

/-- **The state after an action**, if it can be taken. -/
def step : HttpAction ρ → Option (HttpServer ρ)
  | .arrive call arrival =>
    match s.phase call with
    | .outside =>
      some { s.goes call (.arrived arrival) [] with
        arrival := Function.update s.arrival call (some arrival) }
    | _ => none
  | .goOn call input => s.goOn setup call (s.phase call) input

end HttpServer

end Steps

/-! ## What a call does -/

section Serving

variable {ρ : Type}

/-- The last dispatch of a request, and the answer. -/
inductive LastDispatch (req : Request) : List (CallEvent ρ) → Prop where
  | succeeded (registry : ρ) (raw : String) :
      LastDispatch req [.dispatched req registry, .succeeded raw, .answered (.result raw)]
  | failed (registry : ρ) (e : ServeError) :
      LastDispatch req [.dispatched req registry, .failed e, .answered e.refuse]

/-- The dispatches of a request: there is a second one where the first failed over a plan that was
stale, or over a registry that was and that could be built anew. -/
inductive Dispatches (req : Request) : List (CallEvent ρ) → Prop where
  | succeeded (registry : ρ) (raw : String) :
      Dispatches req [.dispatched req registry, .succeeded raw, .answered (.result raw)]
  | failed (registry : ρ) (e : ServeError) (hregistry : e.isRegistryStale = false)
      (hplan : e.isStalePlan = false) :
      Dispatches req [.dispatched req registry, .failed e, .answered e.refuse]
  | replanned (registry : ρ) (e : ServeError) (hregistry : e.isRegistryStale = false)
      (hplan : e.isStalePlan = true) {events : List (CallEvent ρ)} (rest : LastDispatch req events) :
      Dispatches req (.dispatched req registry :: .failed e :: events)
  | rebuilt (registry : ρ) (e : ServeError) (hregistry : e.isRegistryStale = true)
      {events : List (CallEvent ρ)} (rest : LastDispatch req events) :
      Dispatches req (.dispatched req registry :: .failed e :: .rebuilt :: events)
  | refused (registry : ρ) (e : ServeError) (hregistry : e.isRegistryStale = true) (e' : ServeError) :
      Dispatches req [.dispatched req registry, .failed e, .answered e'.refuse]

/-- **What a call does from its arrival to its answer.** -/
inductive Serving (setup : ServerSetup) (arrival : Arrival) : List (CallEvent ρ) → Prop where
  | rejected {answer : HttpAnswer} (h : admitCall setup arrival = .error answer) :
      Serving setup arrival [.answered answer]
  | served {req : Request} (h : admitCall setup arrival = .ok req) {events : List (CallEvent ρ)}
      (rest : Dispatches req events) : Serving setup arrival events
  | refreshed {req : Request} (h : admitCall setup arrival = .ok req) {events : List (CallEvent ρ)}
      (rest : Dispatches req events) : Serving setup arrival (.foundStale :: .rebuilt :: events)
  | outdated {req : Request} (h : admitCall setup arrival = .ok req) (e : ServeError) :
      Serving setup arrival [.foundStale, .answered e.refuse]

/-- What is left to do of a request that is to be dispatched. -/
def ToDispatch (req : Request) : Bool → List (CallEvent ρ) → Prop
  | false => Dispatches req
  | true => LastDispatch req

lemma toDispatch_succeeded (req : Request) (again : Bool) (registry : ρ) (raw : String) :
    ToDispatch req again [.dispatched req registry, .succeeded raw, .answered (.result raw)] := by
  cases again with
  | false => exact .succeeded registry raw
  | true => exact .succeeded registry raw

variable (setup : ServerSetup) (arrival : Arrival)

/-- A request may be dispatched after some events. -/
def MayDispatch (req : Request) (again : Bool) (past : List (CallEvent ρ)) : Prop :=
  ∀ events, ToDispatch req again events → Serving setup arrival (past ++ events)

/-- The registry may be built anew after some events, or fail to be. -/
structure MayRebuild (req : Request) (again : Bool) (past : List (CallEvent ρ)) : Prop where
  fails : ∀ e : ServeError, Serving setup arrival (past ++ [.answered e.refuse])
  succeeds : MayDispatch setup arrival req again (past ++ [.rebuilt])

/-- **What a call has done where it stands.** -/
def Follows (past : List (CallEvent ρ)) : ServePhase ρ → Prop
  | .outside => False
  | .arrived a => a = arrival ∧ past = []
  | .admitted req => admitCall setup arrival = .ok req ∧ past = []
  | .exporting req again | .comparing req again | .compared req again _ | .rebuilding req again
  | .building req again _ | .swapping req again _ _ | .marking req again _ | .clearing req again =>
    MayRebuild setup arrival req again past
  | .predating => ∃ req again, MayRebuild setup arrival req again past
  | .ready req again => MayDispatch setup arrival req again past
  | .dispatched req again =>
    ∃ before registry, past = before ++ [.dispatched req registry] ∧
      MayDispatch setup arrival req again before
  | .answered => Serving setup arrival past
  | .dropped => ∃ rest, Serving setup arrival (past ++ rest)

variable {setup arrival} {s s' : HttpServer ρ} {call : ℕ}

/-- A call has gone on as it should, and nothing else of the calls has changed. -/
def GoesOn (setup : ServerSetup) (arrival : Arrival) (s : HttpServer ρ) (call : ℕ)
    (s' : HttpServer ρ) : Prop :=
  ∃ phase events, s'.phase = Function.update s.phase call phase ∧
    s'.history = Function.update s.history call (s.history call ++ events) ∧
    s'.arrival = s.arrival ∧ Follows setup arrival (s.history call ++ events) phase

/-- A call goes on with nothing to remember. -/
lemma goesOn_silent {phase : ServePhase ρ} (h : Follows setup arrival (s.history call) phase) :
    GoesOn setup arrival s call (s.goes call phase []) := by
  refine ⟨phase, [], rfl, rfl, rfl, ?_⟩
  rwa [List.append_nil]

lemma goesOn_fails {req : Request} {again : Bool}
    (h : MayRebuild setup arrival req again (s.history call)) (e : ServeError) :
    GoesOn setup arrival s call (s.answers call e.refuse []) :=
  ⟨_, _, rfl, rfl, rfl, h.fails e⟩

lemma goesOn_freshens {req : Request} {again : Bool} {events : List (CallEvent ρ)}
    (h : MayRebuild setup arrival req again (s.history call ++ events)) :
    GoesOn setup arrival s call (s.freshens setup call req again events) := by
  refine ⟨_, events, rfl, rfl, rfl, ?_⟩
  split_ifs
  · exact h
  · exact h

/-- What follows a dispatch. -/
lemma goesOn_afterDispatch {req : Request} {again : Bool}
    (h : Follows setup arrival (s.history call) (.dispatched req again))
    (outcome : Except ServeError String) :
    GoesOn setup arrival s call (s.afterDispatch setup call req again outcome) := by
  obtain ⟨before, registry, hpast, hbefore⟩ := h
  have hjoin : ∀ events, s.history call ++ events = before ++ (.dispatched req registry :: events) := by
    intro events
    rw [hpast, List.append_assoc]
    rfl
  unfold HttpServer.afterDispatch
  split
  · next raw =>
      refine ⟨_, _, rfl, rfl, rfl, ?_⟩
      rw [hjoin]
      exact hbefore _ (toDispatch_succeeded req again registry raw)
  · next e =>
      split
      · next hagain =>
          subst hagain
          refine ⟨_, _, rfl, rfl, rfl, ?_⟩
          rw [hjoin]
          exact hbefore _ (.failed registry e)
      · next hagain =>
          obtain rfl := Bool.eq_false_iff.mpr hagain
          split
          · next hregistry =>
              refine goesOn_freshens ⟨fun e' => ?_, fun events hrest => ?_⟩
              · rw [hjoin, List.append_assoc]
                exact hbefore _ (.refused registry e hregistry e')
              · rw [hjoin, List.append_assoc, List.append_assoc]
                exact hbefore _ (.rebuilt registry e hregistry hrest)
          · next hregistry =>
              have hregistry : e.isRegistryStale = false := Bool.eq_false_iff.mpr hregistry
              split
              · next hplan =>
                  refine ⟨_, _, rfl, rfl, rfl, fun events hrest => ?_⟩
                  rw [hjoin, List.append_assoc]
                  exact hbefore _ (.replanned registry e hregistry hplan hrest)
              · next hplan =>
                  refine ⟨_, _, rfl, rfl, rfl, ?_⟩
                  rw [hjoin]
                  exact hbefore _ (.failed registry e hregistry (Bool.eq_false_iff.mpr hplan))

/-- **A step of a call.** -/
lemma goesOn_goOn {phase : ServePhase ρ} {input : CallInput ρ}
    (hfollows : Follows setup arrival (s.history call) phase)
    (h : s.goOn setup call phase input = some s') : GoesOn setup arrival s call s' := by
  unfold HttpServer.goOn at h
  split at h
  · obtain ⟨rfl, hpast⟩ := hfollows
    split at h
    · next req hadmitted =>
        obtain rfl := Option.some.inj h
        exact ⟨_, [], rfl, rfl, rfl, hadmitted, by rw [hpast]; rfl⟩
    · next answer hadmitted =>
        obtain rfl := Option.some.inj h
        refine ⟨_, _, rfl, rfl, rfl, ?_⟩
        rw [hpast]
        exact .rejected hadmitted
  · obtain ⟨hadmitted, hpast⟩ := hfollows
    split at h
    · obtain rfl := Option.some.inj h
      refine goesOn_freshens ⟨fun e => ?_, fun events hrest => ?_⟩
      · rw [hpast]
        exact .outdated hadmitted e
      · rw [hpast]
        exact .refreshed hadmitted hrest
    · obtain rfl := Option.some.inj h
      refine ⟨_, [], rfl, rfl, rfl, fun events hrest => ?_⟩
      rw [hpast]
      exact .served hadmitted hrest
  · exact Option.some.inj h ▸ goesOn_silent hfollows
  · exact Option.some.inj h ▸ goesOn_fails hfollows _
  · exact Option.some.inj h ▸ goesOn_silent hfollows
  · split at h
    · exact Option.some.inj h ▸ goesOn_silent hfollows
    · exact Option.some.inj h ▸ goesOn_silent ⟨_, _, hfollows⟩
  · obtain ⟨req, again, hfollows⟩ := hfollows
    obtain rfl := Option.some.inj h
    exact ⟨_, _, rfl, rfl, rfl, hfollows.fails _⟩
  · exact Option.some.inj h ▸ goesOn_silent hfollows
  · exact Option.some.inj h ▸ goesOn_silent hfollows
  · exact Option.some.inj h ▸ goesOn_fails hfollows _
  · obtain rfl := Option.some.inj h
    refine ⟨_, [], rfl, rfl, rfl, ?_⟩
    rwa [List.append_nil]
  · obtain rfl := Option.some.inj h
    refine ⟨_, [], rfl, rfl, rfl, ?_⟩
    rwa [List.append_nil]
  · obtain rfl := Option.some.inj h
    exact ⟨_, _, rfl, rfl, rfl, hfollows.succeeds⟩
  · obtain rfl := Option.some.inj h
    exact ⟨_, _, rfl, rfl, rfl, _, _, rfl, hfollows⟩
  · exact Option.some.inj h ▸ goesOn_afterDispatch hfollows _
  · exact Option.some.inj h ▸ goesOn_silent ⟨_, hfollows.fails (predatesError setup)⟩
  · exact Option.some.inj h ▸ goesOn_silent ⟨_, hfollows.fails (predatesError setup)⟩
  · exact Option.some.inj h ▸ goesOn_silent ⟨_, hfollows.fails (predatesError setup)⟩
  · obtain ⟨before, registry, hpast, hbefore⟩ := hfollows
    refine Option.some.inj h ▸ goesOn_silent ⟨[.succeeded "", .answered (.result "")], ?_⟩
    rw [hpast, List.append_assoc]
    exact hbefore _ (toDispatch_succeeded _ _ registry "")
  · cases h

/-! ## Runs -/

/-- Each call that has arrived does what it should, and one that has not has done nothing. -/
def CallsFollow (setup : ServerSetup) (s : HttpServer ρ) : Prop :=
  ∀ call, (s.phase call = .outside ∧ s.arrival call = none ∧ s.history call = []) ∨
    ∃ arrival, s.arrival call = some arrival ∧ Follows setup arrival (s.history call) (s.phase call)

lemma callsFollow_start (registry : ρ) (mtime : Option ℕ) :
    CallsFollow setup (HttpServer.start registry mtime) := fun _ => .inl ⟨rfl, rfl, rfl⟩

lemma callsFollow_step {action : HttpAction ρ} (hs : CallsFollow setup s)
    (h : s.step setup action = some s') : CallsFollow setup s' := by
  cases action with
  | arrive call arrival =>
      unfold HttpServer.step at h
      dsimp only at h
      split at h
      · next hphase =>
          have hnothing : s.history call = [] := by
            rcases hs call with ⟨-, -, hpast⟩ | ⟨a, -, hfollows⟩
            · exact hpast
            · rw [hphase] at hfollows
              exact hfollows.elim
          obtain rfl := Option.some.inj h
          intro call'
          by_cases heq : call' = call
          · subst heq
            refine .inr ⟨arrival, Function.update_self _ _ _, ?_⟩
            simp [HttpServer.goes, Follows, hnothing]
          · simpa [HttpServer.goes, heq] using hs call'
      · cases h
  | goOn call input =>
      replace h : s.goOn setup call (s.phase call) input = some s' := h
      rcases hs call with ⟨hphase, -, -⟩ | ⟨arrival, harrival, hfollows⟩
      · rw [hphase] at h
        cases h
      · obtain ⟨phase, events, hphase, hhistory, hsame, hnext⟩ := goesOn_goOn hfollows h
        intro call'
        rw [hphase, hhistory, hsame]
        by_cases heq : call' = call
        · subst heq
          exact .inr ⟨arrival, harrival, by simpa using hnext⟩
        · simpa [heq] using hs call'

lemma callsFollow_run {registry : ρ} {mtime : Option ℕ} {actions : List (HttpAction ρ)}
    (hrun : run (HttpServer.step setup) (.start registry mtime) actions = some s) :
    CallsFollow setup s :=
  run_keeps (CallsFollow setup) (fun _ _ _ hs h => callsFollow_step hs h) hrun
    (callsFollow_start registry mtime)

/-- What is missing of what a call does. -/
lemma Follows.rest {phase : ServePhase ρ} {past : List (CallEvent ρ)} (registry : ρ)
    (h : Follows setup arrival past phase) :
    ∃ rest, Serving setup arrival (past ++ rest) ∧ (phase = .answered → rest = []) := by
  have hdispatch : ∀ req again, Dispatches req [.dispatched req registry, .succeeded "",
      .answered (.result "")] ∧ ToDispatch req again [.dispatched req registry, .succeeded "",
      .answered (.result "")] :=
    fun req again => ⟨.succeeded registry "", toDispatch_succeeded req again registry ""⟩
  cases phase with
  | outside => exact h.elim
  | arrived a =>
      obtain ⟨rfl, rfl⟩ := h
      cases hadmitted : admitCall setup a with
      | error answer => exact ⟨_, .rejected hadmitted, nofun⟩
      | ok req => exact ⟨_, .served hadmitted (hdispatch req false).1, nofun⟩
  | admitted req =>
      obtain ⟨hadmitted, rfl⟩ := h
      exact ⟨_, .served hadmitted (hdispatch req false).1, nofun⟩
  | exporting | comparing | compared | rebuilding | building | swapping | marking | clearing =>
      exact ⟨_, h.fails (predatesError setup), nofun⟩
  | predating =>
      obtain ⟨req, again, h⟩ := h
      exact ⟨_, h.fails (predatesError setup), nofun⟩
  | ready req again => exact ⟨_, h _ (hdispatch req again).2, nofun⟩
  | dispatched req again =>
      obtain ⟨before, registry', rfl, hbefore⟩ := h
      refine ⟨[.succeeded "", .answered (.result "")], ?_, nofun⟩
      rw [List.append_assoc]
      exact hbefore _ (toDispatch_succeeded req again registry' "")
  | answered => exact ⟨[], by rwa [List.append_nil], fun _ => rfl⟩
  | dropped =>
      obtain ⟨rest, h⟩ := h
      exact ⟨rest, h, nofun⟩

/-- **Each call is served**: in any order of the steps of any number of calls, with any exports and
errors, what a call has done is the beginning of one of the ways to serve it, and all of one when it is
answered. -/
theorem call_is_served {registry : ρ} {mtime : Option ℕ} {actions : List (HttpAction ρ)}
    (hrun : run (HttpServer.step setup) (.start registry mtime) actions = some s)
    (harrival : s.arrival call = some arrival) :
    ∃ rest, Serving setup arrival (s.history call ++ rest) ∧
      (s.phase call = .answered → rest = []) := by
  rcases callsFollow_run hrun call with ⟨-, hnone, -⟩ | ⟨arrival', harrival', hfollows⟩
  · rw [hnone] at harrival
    cases harrival
  · obtain rfl := Option.some.inj (harrival.symm.trans harrival')
    exact hfollows.rest registry

/-! ## As whom a call is served -/

/-- The digest of a call tells its token from another one.  Its keys are drawn anew for each call, so
that nobody can choose a token for them. -/
def Arrival.TellsApart (arrival : Arrival) (secret : String) : Prop :=
  arrival.digest arrival.token = arrival.digest secret → arrival.token = secret

/-- **What a request says is its caller's to say.**  It is the request of the call's own body, which
names public fields only, with nothing in it that only Python may say.  Where a token is asked for, the
call came with that token, which is not empty, and is a superuser's only where that is allowed; and a
server that is pinned to a user serves that user, never as superuser. -/
structure HasAuthority (setup : ServerSetup) (arrival : Arrival) (req : Request) : Prop where
  said : ∃ said, publicRequest setup.texts arrival.body = .ok said ∧
    admitRequest setup.auth said = .ok req
  unasserted : req.Public
  named : ∃ fields, arrival.body = .object fields ∧ ∀ field ∈ fields, field.1 ∈ publicFields
  token : ∀ secret allowSu, setup.auth = .Token secret allowSu → arrival.TellsApart secret →
    arrival.token = secret ∧ secret ≠ ""
  superuser : ∀ secret allowSu, setup.auth = .Token secret allowSu → req.su = true → allowSu = true
  pinned : ∀ uid, setup.auth = .Pinned uid → req.uid = some (.Id uid) ∧ req.su = false

/-- A token that matches is the secret one, which is not empty. -/
lemma token_of_tokenMatches {secret : String} (htells : arrival.TellsApart secret)
    (h : tokenMatches arrival.digest arrival.token secret = true) :
    arrival.token = secret ∧ secret ≠ "" := by
  simp only [tokenMatches, Bool.and_eq_true, decide_eq_true_eq] at h
  exact ⟨htells h.1.1, h.2⟩

/-- How a call is let in. -/
lemma admitCall_eq_ok {req : Request} (h : admitCall setup arrival = .ok req) :
    (∀ secret allowSu, setup.auth = .Token secret allowSu →
      tokenMatches arrival.digest arrival.token secret = true) ∧
    ∃ said, publicRequest setup.texts arrival.body = .ok said ∧
      admitRequest setup.auth said = .ok req := by
  unfold admitCall at h
  split at h
  · cases h
  · next hknown =>
      refine ⟨fun secret allowSu hauth => ?_, ?_⟩
      · rw [hauth] at hknown
        simpa [Auth.knows] using hknown
      split at h
      · next said hsaid =>
          obtain rfl := Except.ok.inj h
          cases hpublic : publicRequest setup.texts arrival.body with
          | error refusal => rw [hpublic] at hsaid; cases hsaid
          | ok said' => rw [hpublic] at hsaid; exact ⟨said', rfl, hsaid⟩
      · cases h

/-- A call is let in with the authority of its caller. -/
lemma hasAuthority_of_admitCall {req : Request} (h : admitCall setup arrival = .ok req) :
    HasAuthority setup arrival req := by
  obtain ⟨htoken, said, hsaid, hadmitted⟩ := admitCall_eq_ok h
  exact
    { said := ⟨said, hsaid, hadmitted⟩
      unasserted := admit_public (publicRequest_public hsaid) hadmitted
      named := (publicRequest_fields hsaid).imp fun _ h => ⟨h.1, h.2.1⟩
      token := fun secret allowSu hauth htells =>
        token_of_tokenMatches htells (htoken secret allowSu hauth)
      superuser := fun secret allowSu hauth => admit_su (hauth ▸ hadmitted)
      pinned := fun uid hauth => admit_pinned (hauth ▸ hadmitted) }

/-- What is dispatched for a call is the request that it was let in with. -/
lemma LastDispatch.mem {req req' : Request} {used : ρ} {events : List (CallEvent ρ)}
    (h : LastDispatch req events) (hmem : .dispatched req' used ∈ events) : req' = req := by
  cases h <;> simp_all

lemma Dispatches.mem {req req' : Request} {used : ρ} {events : List (CallEvent ρ)}
    (h : Dispatches req events) (hmem : .dispatched req' used ∈ events) : req' = req := by
  cases h with
  | succeeded | failed | refused => simp_all
  | replanned registry e hregistry hplan rest =>
      rcases List.mem_cons.mp hmem with heq | hmem
      · cases heq
        rfl
      · exact rest.mem (by simpa using hmem)
  | rebuilt registry e hregistry rest =>
      rcases List.mem_cons.mp hmem with heq | hmem
      · cases heq
        rfl
      · exact rest.mem (by simpa using hmem)

lemma Serving.admitted {req : Request} {used : ρ} {events : List (CallEvent ρ)}
    (h : Serving setup arrival events) (hmem : .dispatched req used ∈ events) :
    admitCall setup arrival = .ok req := by
  cases h with
  | rejected | outdated => simp at hmem
  | served hadmitted rest => exact rest.mem hmem ▸ hadmitted
  | refreshed hadmitted rest => exact rest.mem (by simpa using hmem) ▸ hadmitted

/-- **Nothing is dispatched without authority**, in any order of the steps of any number of calls. -/
theorem dispatched_with_authority {registry : ρ} {mtime : Option ℕ} {actions : List (HttpAction ρ)}
    (hrun : run (HttpServer.step setup) (.start registry mtime) actions = some s) {req : Request}
    {used : ρ} (hdispatched : .dispatched req used ∈ s.history call) :
    ∃ arrival, s.arrival call = some arrival ∧ HasAuthority setup arrival req := by
  rcases callsFollow_run hrun call with ⟨-, -, hnone⟩ | ⟨arrival, harrival, hfollows⟩
  · rw [hnone] at hdispatched
    cases hdispatched
  · obtain ⟨rest, hserving, -⟩ := hfollows.rest registry
    exact ⟨arrival, harrival,
      hasAuthority_of_admitCall (hserving.admitted (List.mem_append_left _ hdispatched))⟩

end Serving

/-! ## Two calls -/

namespace Callers

/-- A server for one user. -/
def setup : ServerSetup where
  auth := .Pinned 6
  texts := { quoted := id, decodeError := fun _ => "no request" }
  exportPath := some "export.json"
  exportCommand := none

/-- A caller who says to be a superuser. -/
def arrival : Arrival where
  token := ""
  digest _ := (0, 0)
  body := .object [("method", .string "search_count"), ("model", .string "res.partner"),
    ("su", .bool true), ("uid", .number (.int 1))]

/-- The database has another registry than the server. -/
def registryMoved : ServeError where
  text := "the registry is stale"
  kind := .registryStale
  isRegistryStale := true
  isStalePlan := false

/-- The first call finds out that the export is too old, the second one finds a new export. -/
def actions : List (HttpAction ℕ) :=
  [.arrive 0 arrival, .goOn 0 .nothing, .goOn 0 .nothing, .goOn 0 .nothing, .arrive 1 arrival,
    .goOn 0 (.returned (.error registryMoved)), .goOn 0 (.mtime (some 1)), .goOn 1 .nothing,
    .goOn 0 .nothing, .goOn 0 .nothing, .goOn 1 .nothing, .goOn 1 (.mtime (some 2)), .goOn 1 .nothing,
    .goOn 1 (.mtime (some 2)), .goOn 1 (.built (.ok 7)), .goOn 1 .nothing, .goOn 1 .nothing,
    .goOn 1 .nothing, .goOn 1 .nothing, .goOn 1 (.returned (.ok "3"))]

/-- The second call is served from another registry. -/
theorem second_call_served : ∃ s rest,
    run (HttpServer.step setup) (.start 0 (some 1)) actions = some s ∧
      s.phase 1 = .answered ∧ s.registry = 7 ∧ Serving setup arrival (s.history 1 ++ rest) ∧
      (s.phase 1 = .answered → rest = []) := by
  obtain ⟨s, hrun, hphase, hregistry, harrival⟩ : ∃ s,
      run (HttpServer.step setup) (.start 0 (some 1)) actions = some s ∧
        s.phase 1 = .answered ∧ s.registry = 7 ∧ s.arrival 1 = some arrival :=
    ⟨_, rfl, rfl, rfl, rfl⟩
  obtain ⟨rest, hserving, hdone⟩ := call_is_served hrun harrival
  exact ⟨s, rest, hrun, hphase, hregistry, hserving, hdone⟩

/-- A server that asks for a token, and lets nobody be a superuser. -/
def guarded : ServerSetup where
  auth := .Token "sesame" false
  texts := setup.texts
  exportPath := none
  exportCommand := none

/-- A caller who has the token. -/
def known : Arrival where
  token := "sesame"
  digest s := (s.utf8ByteSize, 0)
  body := .object [("method", .string "search_count"), ("model", .string "res.partner"),
    ("uid", .number (.int 6))]

/-- The second call asks as the user of the server, whatever its body says; and a call of a server that
asks for a token is dispatched as what its body says, for its caller has the token. -/
theorem second_call_authority :
    (∃ s req arrival',
      run (HttpServer.step setup) (.start 0 (some 1)) actions = some s ∧
        .dispatched req 7 ∈ s.history 1 ∧ s.arrival 1 = some arrival' ∧
        HasAuthority setup arrival' req ∧ req.uid = some (.Id 6) ∧ req.su = false) ∧
    ∃ s req, run (HttpServer.step guarded) (.start 0 none)
        [.arrive 0 known, .goOn 0 .nothing, .goOn 0 .nothing, .goOn 0 .nothing] = some s ∧
      .dispatched req 0 ∈ s.history 0 ∧ HasAuthority guarded known req ∧
      (known.token = "sesame" ∧ "sesame" ≠ "") ∧ req.su = false := by
  constructor
  · obtain ⟨s, events, req, hrun, hhistory⟩ : ∃ s events req,
        run (HttpServer.step setup) (.start 0 (some 1)) actions = some s ∧
          s.history 1 = .foundStale :: .rebuilt :: .dispatched req 7 :: events := ⟨_, _, _, rfl, rfl⟩
    have hdispatched : .dispatched req 7 ∈ s.history 1 := by simp [hhistory]
    obtain ⟨arrival', harrival, hauthority⟩ := dispatched_with_authority hrun hdispatched
    exact ⟨s, req, arrival', hrun, hdispatched, harrival, hauthority, hauthority.pinned 6 rfl⟩
  · obtain ⟨s, req, hrun, hhistory, harrived⟩ : ∃ s req,
        run (HttpServer.step guarded) (.start 0 none)
          [.arrive 0 known, .goOn 0 .nothing, .goOn 0 .nothing, .goOn 0 .nothing] = some s ∧
        s.history 0 = [.dispatched req 0] ∧ s.arrival 0 = some known := ⟨_, _, rfl, rfl, rfl⟩
    have hdispatched : .dispatched req 0 ∈ s.history 0 := by simp [hhistory]
    obtain ⟨arrival', harrival, hauthority⟩ := dispatched_with_authority hrun hdispatched
    obtain rfl := Option.some.inj (harrived.symm.trans harrival)
    refine ⟨s, req, hrun, hdispatched, hauthority, hauthority.token _ _ rfl fun _ => rfl, ?_⟩
    exact Bool.eq_false_iff.mpr fun hsu => absurd (hauthority.superuser _ _ rfl hsu) (by decide)

end Callers

end OdooKernel
