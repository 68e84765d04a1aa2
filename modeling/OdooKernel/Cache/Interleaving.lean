import OdooKernel.Access.Security
import OdooKernel.Cache.Signals
import OdooKernel.Core.Runs

/-!
# Requests over one registry

Any number of requests, each in a transaction with one snapshot of the database, share the published
`Dynamic` of a registry and the caches of identities.

**The size of a step.**  An action is what one of them does without giving way to another: what is
done under one lock, or one statement to the database.  Between two actions anything may happen.  So
a check of the signals is up to five actions: the signals are read, compared with the published
`Dynamic`, and then either the published one is stamped, or data is loaded and published, and two
caches are cleared one after the other, each under its own lock.

**What an entry is.**  The rules of a model are kept as what they were compiled from
(`CompiledRules`) and not as nodes: whether an answer is old is a matter of where it comes from.
`Rules/Sharing` has the rules themselves.

**Addresses.**  A stamp is published only where the `Dynamic` that was looked at is still the
published one, which is decided by its address, so a shared `Dynamic` has one (`Arc`).

* `Phase` — where a request stands between two actions.
* `Action`, `step` — what may happen, and the state after it.
* `evict` — how a cache of identities is kept small.
-/

namespace OdooKernel

/-! ## State -/

/-- The access data of a registry, with the signals it is taken to be current at. -/
structure Dynamic where
  loaded : Signals
  signals : Signals
deriving DecidableEq

/-- A shared `Dynamic`: two are the same only if their addresses are. -/
structure Arc where
  address : ℕ
  dynamic : Dynamic
deriving DecidableEq

/-- The key of the rule cache: an identity, and the security signals of its access data. -/
structure RuleKey where
  user : UserCtx
  signals : Signals
deriving DecidableEq

/-- A model of a rule set, with what its rules were compiled from. -/
structure CompiledRules where
  model : String
  user : UserCtx
  source : Dynamic
deriving DecidableEq

/-- What a request works with once its identity is known. -/
structure Session where
  dynamic : Arc
  environment : Dynamic
  user : UserCtx
  rules : List CompiledRules
deriving DecidableEq

/-- Where a request stands. -/
inductive Phase where
  | start
  | compare (signals : Signals)
  | stamp (current : Arc) (signals : Signals)
  | load (signals : Signals)
  | clearRules (fresh : Arc)
  | clearEnvironments (fresh : Arc)
  | checked (dynamic : Arc)
  | missed (dynamic : Arc)
  | entered (dynamic : Arc) (environment : Dynamic)
  | compiling (session : Session)
  | evictRules (session : Session)
  | evictEnvironments (session : Session)
  | ready (session : Session)
  | refused
deriving DecidableEq

/-- The database, the registry and its caches, and every request. -/
structure Kernel where
  history : List Signals
  pinned : ℕ → Option Signals
  published : Arc
  nextAddress : ℕ
  ruleCache : Dict RuleKey (List CompiledRules)
  envCache : Dict (ℤ × Signals) Dynamic
  phase : ℕ → Phase

/-- The signal tables of a database, if it has any, and the transaction of each request. -/
structure Setting where
  plan : Option (List String)
  transaction : ℕ → ℕ

def Setting.signalTables (setting : Setting) : List String := setting.plan.getD []

/-! ## Steps -/

/-- What happens next, and to which request. -/
inductive Action where
  | advance (signals : Signals)
  | read (r : ℕ)
  | compare (r : ℕ)
  | stamp (r : ℕ)
  | publish (r : ℕ)
  | clearRules (r : ℕ)
  | clearEnvironments (r : ℕ)
  | reuse (r checkedBy : ℕ)
  | lookupEnvironment (r : ℕ) (uid : ℤ)
  | insertEnvironment (r : ℕ) (uid : ℤ)
  | lookupRules (r : ℕ) (user : UserCtx) (seeds : List String)
  | compile (r : ℕ) (model : String)
  | insertRules (r : ℕ)
  | evictRules (r : ℕ)
  | evictEnvironments (r : ℕ)
  | fail (r : ℕ)

/-- Identities kept before the caches are swept. -/
def maxIdentities : ℕ := 512

/-- A cache with too many entries keeps those of the current signals, if they are not too many. -/
def evict {κ α : Type} (d : Dict κ α) (isCurrent : κ → Bool) : Dict κ α :=
  if d.length > maxIdentities then
    let kept := d.filter fun e => isCurrent e.1
    if kept.length > maxIdentities then [] else kept
  else d

lemma get?_of_evict {κ α : Type} [DecidableEq κ] {d : Dict κ α} {isCurrent : κ → Bool} {k : κ}
    {a : α} (h : Dict.get? (evict d isCurrent) k = some a) : d.get? k = some a := by
  unfold evict at h
  split at h
  · simp only at h
    split at h
    · simp at h
    · rw [Dict.get?_filter] at h
      split at h
      · exact h
      · simp at h
  · exact h

/-- The `Dynamic` a request has checked. -/
def Phase.dynamic? : Phase → Option Arc
  | .clearRules d | .clearEnvironments d | .checked d | .missed d | .entered d _ => some d
  | .compiling session | .evictRules session | .evictEnvironments session | .ready session =>
    some session.dynamic
  | .start | .compare _ | .stamp _ _ | .load _ | .refused => none

/-- The session of a request that has entered its identity. -/
def Phase.session? : Phase → Option Session
  | .compiling session | .evictRules session | .evictEnvironments session | .ready session =>
    some session
  | _ => none

namespace Kernel

variable (setting : Setting) (s : Kernel)

/-- A request goes on. -/
def goes (r : ℕ) (phase : Phase) : Kernel := { s with phase := Function.update s.phase r phase }

/-- The key of a session. -/
def keyOf (user : UserCtx) (dynamic : Arc) : RuleKey :=
  { user, signals := securitySignals setting.signalTables dynamic.dynamic.signals }

/-- The signals are read in the snapshot that the transaction's first statement takes. -/
def readSignals (r : ℕ) : Option Kernel :=
  if setting.plan.isNone then some (s.goes r (.checked s.published))
  else
    match s.pinned (setting.transaction r) with
    | some signals => some (s.goes r (.compare signals))
    | none =>
      match s.history with
      | [] => none
      | signals :: _ =>
        some { s.goes r (.compare signals) with
          pinned := Function.update s.pinned (setting.transaction r) (some signals) }

/-- `check_signaling` up to its next lock or statement. -/
def afterCompare (signals : Signals) (current : Arc) : Phase :=
  if snapshotPrecedes setting.signalTables signals current.dynamic.signals then .refused
  else if !advanced signals current.dynamic.signals
      && current.dynamic.signals.length = signals.length then .checked current
  else
    match classifySignalChange setting.signalTables current.dynamic.signals signals with
    | .none => .checked current
    | .irrelevant => .stamp current signals
    | .security => .load signals
    | .registry => .refused

/-- `stamp_signals`, under the lock of the published `Dynamic`. -/
def stampSignals (r : ℕ) (current : Arc) (signals : Signals) : Kernel :=
  let fresh := { address := s.nextAddress, dynamic := { current.dynamic with signals } }
  { s.goes r (.checked fresh) with
    published := if s.published.address = current.address then fresh else s.published
    nextAddress := s.nextAddress + 1 }

/-- `refresh_dynamic`: the data of the transaction's snapshot is published, whatever is published
by then. -/
def publishFresh (r : ℕ) (snapshot signals : Signals) : Kernel :=
  let fresh := { address := s.nextAddress, dynamic := { loaded := snapshot, signals } }
  { s.goes r (.clearRules fresh) with
    published := fresh
    nextAddress := s.nextAddress + 1 }

/-- The models of a rule set that are compiled. -/
def isCompiled (rules : List CompiledRules) (model : String) : Bool :=
  rules.any (·.model = model)

/-- `identity_rules` up to its first compilation: the cached rules, when they cover the seeds. -/
def afterLookup (dynamic : Arc) (environment : Dynamic) (user : UserCtx) (seeds : List String) :
    Phase :=
  let base := s.ruleCache.get? (keyOf setting user dynamic)
  let session := { dynamic, environment, user, rules := base.getD [] }
  if base.isSome && seeds.all (isCompiled session.rules) then .ready session
  else .compiling session

/-- **The state after an action**, if it can be taken. -/
def step : Action → Option Kernel
  | .advance signals =>
    match s.history with
    | newest :: _ => if Grows newest signals then some { s with history := signals :: s.history }
      else none
    | [] => none
  | .read r => if s.phase r = .start then s.readSignals setting r else none
  | .compare r =>
    match s.phase r with
    | .compare signals => some (s.goes r (afterCompare setting signals s.published))
    | _ => none
  | .stamp r =>
    match s.phase r with
    | .stamp current signals => some (s.stampSignals r current signals)
    | _ => none
  | .publish r =>
    match s.phase r, s.pinned (setting.transaction r) with
    | .load signals, some snapshot => some (s.publishFresh r snapshot signals)
    | _, _ => none
  | .clearRules r =>
    match s.phase r with
    | .clearRules fresh => some { s.goes r (.clearEnvironments fresh) with ruleCache := [] }
    | _ => none
  | .clearEnvironments r =>
    match s.phase r with
    | .clearEnvironments fresh => some { s.goes r (.checked fresh) with envCache := [] }
    | _ => none
  | .reuse r checkedBy =>
    match s.phase r, (s.phase checkedBy).dynamic? with
    | .start, some dynamic =>
      if setting.transaction r = setting.transaction checkedBy then
        if snapshotPrecedes setting.signalTables dynamic.dynamic.signals
            s.published.dynamic.signals then some (s.goes r .refused)
        else some (s.goes r (.checked dynamic))
      else none
    | _, _ => none
  | .lookupEnvironment r uid =>
    match s.phase r with
    | .checked dynamic =>
      match s.envCache.get?
          (uid, securitySignals setting.signalTables dynamic.dynamic.signals) with
      | some environment => some (s.goes r (.entered dynamic environment))
      | none => some (s.goes r (.missed dynamic))
    | _ => none
  | .insertEnvironment r uid =>
    match s.phase r with
    | .missed dynamic =>
      some { s.goes r (.entered dynamic dynamic.dynamic) with
        envCache := s.envCache.insert
          (uid, securitySignals setting.signalTables dynamic.dynamic.signals) dynamic.dynamic }
    | _ => none
  | .lookupRules r user seeds =>
    match s.phase r with
    | .entered dynamic environment =>
      some (s.goes r (s.afterLookup setting dynamic environment user seeds))
    | _ => none
  | .compile r model =>
    match s.phase r with
    | .compiling session =>
      -- `rules_domain` asks the registry, not the request, for its `Dynamic`
      some (s.goes r (.compiling { session with
        rules := session.rules ++ [{ model, user := session.user, source := s.published.dynamic }] }))
    | _ => none
  | .insertRules r =>
    match s.phase r with
    | .compiling session =>
      some { s.goes r (.evictRules session) with
        ruleCache := s.ruleCache.insert (keyOf setting session.user session.dynamic) session.rules }
    | _ => none
  | .evictRules r =>
    match s.phase r with
    | .evictRules session =>
      some { s.goes r (.evictEnvironments session) with
        ruleCache := evict s.ruleCache fun key =>
          key.signals = securitySignals setting.signalTables session.dynamic.dynamic.signals }
    | _ => none
  | .evictEnvironments r =>
    match s.phase r with
    | .evictEnvironments session =>
      some { s.goes r (.ready session) with
        envCache := evict s.envCache fun key =>
          key.2 = securitySignals setting.signalTables session.dynamic.dynamic.signals }
    | _ => none
  | .fail r => some (s.goes r .refused)

/-- A registry that was loaded from a snapshot, before any request. -/
def initial (signals : Signals) : Kernel where
  history := [signals]
  pinned _ := none
  published := { address := 0, dynamic := { loaded := signals, signals } }
  nextAddress := 1
  ruleCache := []
  envCache := []
  phase _ := .start

end Kernel

end OdooKernel
