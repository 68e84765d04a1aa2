import Mathlib.Data.List.Sort
import Mathlib.Logic.Function.Basic
import OdooKernel.Cache.Interleaving
import OdooKernel.Core.Runs
import OdooKernel.Http.Requests
import OdooKernel.Rules.Implied

/-!
# The environment of a request

A request is served in an environment: as a user, in some companies, with the groups that the user
holds.  What the database says of a user is kept in a cache under the user and the security signals,
and any number of requests fill it and take from it while it is cleared and evicted.

**What is read.**  `Snapshot` is what a request was found to be current at, `UserTables` what it
reads of users, and `buildEnv` makes an environment of the two.

**Requests over one cache.**  `SharedEnvs.step` takes a request from its begin to its environment in
four steps, at each of which the database or the cache may have changed: it looks its user up in the
cache, loads the user where the cache has none, puts what it loaded into the cache, and is built.
The tables of users are read anew at each of them, so that nothing is assumed of what two requests
read.  What is assumed is `EnvAction.TakesAccess`: two requests that were found to be current at the
same security signals hold the same access data.

**Whose rights.**  `Environment.BelongsTo` judges an environment by the request and by the access
data at which the request itself was found to be current, whoever filled the cache; the groups are
those that the user's memberships imply, as a relation and not as a list.  A request that names no id
is served as the user that its symbol stands for, of which nothing is said but that the rest belongs
to it.

**The result.**  `environment_of_snapshot`: in every run each environment belongs to its request.
-/

namespace OdooKernel

/-! ## What is read -/

/-- What a request was found to be current at: access data with its signals, and the languages. -/
structure Snapshot where
  security : Security
  signals : Signals
  langs : List String
  weekStart : Dict String ℤ

/-- What is read of users: one who is neither OdooBot nor the administrator, the active user of a
login, and the company and the time zone of a user. -/
structure UserTables where
  other : Result (Option ℤ)
  byLogin : String → Result (Option ℤ)
  row : ℤ → Result (Option (Option ℤ × Option String))

/-- What the cache keeps of a user. -/
structure EnvValue where
  companyId : ℤ
  companyIds : List ℤ
  groups : Finset ℤ
  tz : Option String

/-- The environment of a request. -/
structure Environment where
  uid : ℤ
  su : Bool
  lang : String
  companyId : ℤ
  companyIds : List ℤ
  activeTest : Bool
  rootActiveTest : Bool
  x2manyActiveTest : Bool
  tz : Option String
  comparandTz : Option String
  weekStart : Option ℤ
  groups : Finset ℤ
  scopes : GroupScopes
  sqlNonce : Option String
  orderFragments : List Json

/-- What does not change: the tables of the signals, whether the registry knows the companies' anchors,
the time zones, and a string between quotes. -/
structure EnvSetting where
  signalTables : List String
  anchorsKnown : Bool
  resolveTimezone : String → Option String
  quoted : String → String

/-! ## Environments -/

section Build

variable (setting : EnvSetting)

/-- The user of a request. -/
def requestUid (users : UserTables) : Option UidSpec → Result ℤ
  | none => .ok 2
  | some (.Id id) => .ok id
  | some (.Symbol sym) =>
    if sym = "other" then do
      orRefuse "no alternate identity on this database (uid \"other\")" (← users.other)
    else if sym = "grouped" ∨ sym = "debug" then do
      let login := "rustorm_sweep_" ++ sym
      orRefuse ("no seeded identity " ++ setting.quoted login ++ " (uid " ++ setting.quoted sym ++ ")")
        (← users.byLogin login)
    else refuse ("unknown uid symbol " ++ setting.quoted sym)

/-- The language of a request. -/
def requestLang (snapshot : Snapshot) : Option String → Result String
  | none => .ok "en_US"
  | some lang =>
    if lang = "en_US" then .ok "en_US"
    else if lang ∈ snapshot.langs then .ok lang
    else refuse ("unknown or inactive language " ++ lang)

/-- The companies of a user, in their order. -/
def Security.companiesOf (security : Security) (uid : ℤ) : List ℤ :=
  (security.userCompanies.listAt uid).insertionSort (· ≤ ·)

/-- What the database says of a user. -/
def loadUser (users : UserTables) (security : Security) (uid : ℤ) : Result EnvValue := do
  match ← users.row uid with
  | none => refuse ("unknown uid " ++ toString uid)
  | some (company, tz) =>
    let companyId ← orRefuse ("unknown uid " ++ toString uid) company
    return { companyId, companyIds := security.companiesOf uid
             groups := (security.groupsOf uid).toFinset, tz := tz.filter (· ≠ "") }

/-- The groups of a request that Python gives, with the companies that each is limited to. -/
def assertedScopes (held : Dict ℤ (Option (List ℤ))) : GroupScopes :=
  held.filterMap fun e => e.2.map fun companies => (e.1, companies.insertionSort (· ≤ ·))

/-- **The groups of a request**: those that Python gives, or else those of the user. -/
def requestGroups (snapshot : Snapshot) (req : Request) (uid : ℤ) (user : EnvValue) :
    Result (Finset ℤ × GroupScopes) :=
  match req.principalGroups with
  | some held =>
    if !(assertedScopes held).isEmpty ∧ !setting.anchorsKnown then
      refuse ("uid " ++ toString uid ++ " holds groups limited to some companies, and this registry "
        ++ "does not know the field that anchors each model to its company")
    else .ok ((held.map (·.1)).toFinset, assertedScopes held)
  | none =>
    if !req.su ∧ uid ∈ snapshot.security.boundedUsers then
      refuse ("uid " ++ toString uid ++ " holds a grant limited to some companies or dated, which its "
        ++ "memberships do not state; its groups are Python's to give")
    else .ok (user.groups, [])

/-- **The companies of a request**: those that it asks for, if the user may, or else the user's. -/
def requestCompanies (req : Request) (uid : ℤ) (user : EnvValue) : Result (ℤ × List ℤ) :=
  match req.allowedCompanyIds with
  | none | some [] => .ok (user.companyId, user.companyIds)
  | some (first :: others) =>
    match (first :: others).find? (fun c => !req.su && c ∉ user.companyIds) with
    | some bad =>
      denyAccess ("access denied: uid " ++ toString uid ++ " is not allowed in company " ++ toString bad)
    | none => .ok (first, first :: others)

/-- **The environment of a request.** -/
def buildEnv (snapshot : Snapshot) (req : Request) (uid : ℤ) (lang : String) (user : EnvValue) :
    Result Environment := do
  let (groups, scopes) ← requestGroups setting snapshot req uid user
  let (companyId, companyIds) ← requestCompanies req uid user
  let requestTz := req.tz.filter (· ≠ "")
  return { uid, su := req.su, lang, companyId, companyIds
           activeTest := req.activeTest.getD true
           rootActiveTest := req.rootActiveTest.getD (req.activeTest.getD true)
           x2manyActiveTest := req.x2manyActiveTest.getD true
           tz := requestTz.bind setting.resolveTimezone
           comparandTz := (requestTz.orElse fun _ => user.tz).bind setting.resolveTimezone
           weekStart := req.lang.bind snapshot.weekStart.get?
           groups, scopes, sqlNonce := req.sqlNonce, orderFragments := req.orderFragments }

end Build

/-! ## Requests over one cache -/

/-- Where a request stands. -/
inductive EnvStage where
  | outside
  | begun (req : Request) (snapshot : Snapshot)
  | missed (req : Request) (snapshot : Snapshot) (uid : ℤ) (lang : String)
  | loaded (req : Request) (snapshot : Snapshot) (uid : ℤ) (lang : String) (user : EnvValue)
  | ready (req : Request) (snapshot : Snapshot) (env : Environment)
  | failed

/-- The cache, and where each request stands. -/
structure SharedEnvs where
  cache : Dict (ℤ × Signals) EnvValue
  stage : ℕ → EnvStage

/-- What happens next. -/
inductive EnvAction where
  | begin (r : ℕ) (req : Request) (snapshot : Snapshot)
  | lookup (r : ℕ) (users : UserTables)
  | load (r : ℕ) (users : UserTables)
  | insert (r : ℕ)
  | evict (current : Signals)
  | clear

/-- The user and the language of a request. -/
def requestIdentity (setting : EnvSetting) (users : UserTables) (snapshot : Snapshot) (req : Request) :
    Result (ℤ × String) := do
  let uid ← requestUid setting users req.uid
  let lang ← requestLang snapshot req.lang
  return (uid, lang)

namespace SharedEnvs

variable (setting : EnvSetting) (s : SharedEnvs)

/-- No request has begun, and nothing is cached. -/
def start : SharedEnvs where
  cache := []
  stage _ := .outside

/-- A request goes on. -/
def goes (r : ℕ) (stage : EnvStage) : SharedEnvs :=
  { s with stage := Function.update s.stage r stage }

/-- The key of a user. -/
def keyOf (snapshot : Snapshot) (uid : ℤ) : ℤ × Signals :=
  (uid, securitySignals setting.signalTables snapshot.signals)

/-- The environment of a request is built, if it can be. -/
def builds (r : ℕ) (req : Request) (snapshot : Snapshot) (uid : ℤ) (lang : String) (user : EnvValue) :
    SharedEnvs :=
  match buildEnv setting snapshot req uid lang user with
  | .ok env => s.goes r (.ready req snapshot env)
  | .error _ => s.goes r .failed

/-- **The state after an action**, if it can be taken. -/
def step : EnvAction → Option SharedEnvs
  | .begin r req snapshot =>
    match s.stage r with
    | .outside => some (s.goes r (.begun req snapshot))
    | _ => none
  | .lookup r users =>
    match s.stage r with
    | .begun req snapshot =>
      match requestIdentity setting users snapshot req with
      | .error _ => some (s.goes r .failed)
      | .ok (uid, lang) =>
        match s.cache.get? (keyOf setting snapshot uid) with
        | some user => some (s.builds setting r req snapshot uid lang user)
        | none => some (s.goes r (.missed req snapshot uid lang))
    | _ => none
  | .load r users =>
    match s.stage r with
    | .missed req snapshot uid lang =>
      match loadUser users snapshot.security uid with
      | .error _ => some (s.goes r .failed)
      | .ok user => some (s.goes r (.loaded req snapshot uid lang user))
    | _ => none
  | .insert r =>
    match s.stage r with
    | .loaded req snapshot uid lang user =>
      some ({ s with cache := s.cache.insert (keyOf setting snapshot uid) user }.builds setting r req
        snapshot uid lang user)
    | _ => none
  | .evict current => some { s with cache := OdooKernel.evict s.cache fun key => key.2 = current }
  | .clear => some { s with cache := [] }

end SharedEnvs

/-! ## Whose rights a request has -/

/-- A user's companies and groups are those of the access data. -/
structure EnvValue.IsOf (user : EnvValue) (security : Security) (uid : ℤ) : Prop where
  companyIds : user.companyIds = security.companiesOf uid
  groups : user.groups = (security.groupsOf uid).toFinset

/-- **An environment belongs to a request**: it is that of the user whom the request names by an id, with
the groups that Python gives or else with those that the user joins, and whatever they imply, by the
access data that the request was found to be current at, and in companies of the user's, but for a
superuser. -/
structure Environment.BelongsTo (env : Environment) (req : Request) (snapshot : Snapshot) : Prop where
  uid : ∀ id, req.uid = some (.Id id) → env.uid = id
  su : env.su = req.su
  given : ∀ held, req.principalGroups = some held →
    env.groups = (held.map (·.1)).toFinset ∧ env.scopes = assertedScopes held
  held : req.principalGroups = none → env.scopes = [] ∧ ∀ g, g ∈ env.groups ↔
    ∃ r, snapshot.security.Joins env.uid r ∧ Relation.ReflTransGen snapshot.security.Implies r g
  unbounded : req.principalGroups = none → env.su = false →
    env.uid ∉ snapshot.security.boundedUsers
  companies : env.su = false → ∀ c ∈ env.companyIds, c ∈ snapshot.security.userCompanies.listAt env.uid
  asked : ∀ first others, req.allowedCompanyIds = some (first :: others) →
    env.companyId = first ∧ env.companyIds = first :: others
  sql : env.sqlNonce = req.sqlNonce ∧ env.orderFragments = req.orderFragments

section Belongs

variable {setting : EnvSetting} {snapshot : Snapshot} {req : Request} {uid : ℤ} {user : EnvValue}

lemma requestUid_id {users : UserTables} {spec : Option UidSpec}
    (h : requestUid setting users spec = .ok uid) (id : ℤ) (hspec : spec = some (.Id id)) :
    uid = id := by
  subst hspec
  exact (Except.ok.inj h).symm

lemma loadUser_isOf {users : UserTables} {security : Security}
    (h : loadUser users security uid = .ok user) : user.IsOf security uid := by
  unfold loadUser at h
  obtain ⟨row, -, h⟩ := bind_eq_ok.mp h
  cases row with
  | none => simp at h
  | some row =>
      obtain ⟨companyId, -, h⟩ := bind_eq_ok.mp h
      obtain rfl := Except.ok.inj h
      exact ⟨rfl, rfl⟩

/-- The groups that Python gives are taken as they are. -/
lemma requestGroups_given {held : Dict ℤ (Option (List ℤ))} {rights : Finset ℤ × GroupScopes}
    (hheld : req.principalGroups = some held)
    (h : requestGroups setting snapshot req uid user = .ok rights) :
    rights = ((held.map (·.1)).toFinset, assertedScopes held) := by
  unfold requestGroups at h
  rw [hheld] at h
  dsimp only at h
  split at h
  · simp at h
  · exact (Except.ok.inj h).symm

/-- Without any, the groups are the user's, who holds no grant that is limited. -/
lemma requestGroups_held {rights : Finset ℤ × GroupScopes} (hnone : req.principalGroups = none)
    (h : requestGroups setting snapshot req uid user = .ok rights) :
    rights = (user.groups, []) ∧ (req.su = false → uid ∉ snapshot.security.boundedUsers) := by
  unfold requestGroups at h
  rw [hnone] at h
  dsimp only at h
  split at h
  · simp at h
  · next hbounded => exact ⟨(Except.ok.inj h).symm, fun hsu hmem => hbounded ⟨by simp [hsu], hmem⟩⟩

/-- The companies are the user's, but for a superuser. -/
lemma requestCompanies_mem {chosen : ℤ × List ℤ} (h : requestCompanies req uid user = .ok chosen)
    (hsu : req.su = false) : ∀ c ∈ chosen.2, c ∈ user.companyIds := by
  unfold requestCompanies at h
  split at h
  · obtain rfl := Except.ok.inj h
    exact fun _ => id
  · obtain rfl := Except.ok.inj h
    exact fun _ => id
  · split at h
    · simp at h
    · next hfind =>
        obtain rfl := Except.ok.inj h
        intro c hc
        simpa [hsu] using List.find?_eq_none.mp hfind c hc

/-- Companies that are asked for are taken in their order. -/
lemma requestCompanies_asked {chosen : ℤ × List ℤ} {first : ℤ} {others : List ℤ}
    (h : requestCompanies req uid user = .ok chosen)
    (hasked : req.allowedCompanyIds = some (first :: others)) : chosen = (first, first :: others) := by
  unfold requestCompanies at h
  rw [hasked] at h
  dsimp only at h
  split at h
  · simp at h
  · exact (Except.ok.inj h).symm

/-- **An environment that is built for a user.** -/
lemma buildEnv_belongs {lang : String} {env : Environment} (huser : user.IsOf snapshot.security uid)
    (huid : ∀ id, req.uid = some (.Id id) → uid = id)
    (h : buildEnv setting snapshot req uid lang user = .ok env) : env.BelongsTo req snapshot := by
  unfold buildEnv at h
  obtain ⟨⟨groups, scopes⟩, hgroups, h⟩ := bind_eq_ok.mp h
  obtain ⟨⟨companyId, companyIds⟩, hcompanies, h⟩ := bind_eq_ok.mp h
  obtain rfl := Except.ok.inj h
  refine
    { uid := huid, su := rfl, given := fun held hheld => ?_, held := fun hnone => ?_
      unbounded := fun hnone => (requestGroups_held hnone hgroups).2
      companies := fun hsu c hc => ?_, asked := fun first others hasked => ?_, sql := ⟨rfl, rfl⟩ }
  · exact Prod.mk.inj (requestGroups_given hheld hgroups)
  · obtain ⟨hrights, -⟩ := requestGroups_held hnone hgroups
    obtain ⟨rfl, rfl⟩ := Prod.mk.inj hrights
    refine ⟨rfl, fun g => ?_⟩
    rw [← mem_groupsOf, huser.groups, List.mem_toFinset]
  · have hmem := requestCompanies_mem hcompanies hsu c hc
    rw [huser.companyIds] at hmem
    exact (List.mem_insertionSort _).mp hmem
  · exact Prod.mk.inj (requestCompanies_asked hcompanies hasked)

end Belongs

/-! ## Runs -/

section Runs

variable {setting : EnvSetting} {accessAt : Signals → Security} {s s' : SharedEnvs}

/-- The access data that a request was found to be current at is that of its security signals. -/
def EnvAction.TakesAccess (setting : EnvSetting) (accessAt : Signals → Security) : EnvAction → Prop
  | .begin _ _ snapshot =>
    snapshot.security = accessAt (securitySignals setting.signalTables snapshot.signals)
  | _ => True

/-- What holds of a request where it stands. -/
def EnvStage.Keeps (setting : EnvSetting) (accessAt : Signals → Security) : EnvStage → Prop
  | .outside | .failed => True
  | .begun _ snapshot =>
    snapshot.security = accessAt (securitySignals setting.signalTables snapshot.signals)
  | .missed req snapshot uid _ =>
    snapshot.security = accessAt (securitySignals setting.signalTables snapshot.signals) ∧
      ∀ id, req.uid = some (.Id id) → uid = id
  | .loaded req snapshot uid _ user =>
    snapshot.security = accessAt (securitySignals setting.signalTables snapshot.signals) ∧
      (∀ id, req.uid = some (.Id id) → uid = id) ∧ user.IsOf snapshot.security uid
  | .ready req snapshot env => env.BelongsTo req snapshot

/-- **What is cached of a user is by the access data of its signals**, and each request keeps to its
own. -/
structure EnvsKeep (setting : EnvSetting) (accessAt : Signals → Security) (s : SharedEnvs) : Prop where
  cached : ∀ key user, s.cache.get? key = some user → user.IsOf (accessAt key.2) key.1
  stages : ∀ r, (s.stage r).Keeps setting accessAt

lemma EnvsKeep.goes (h : EnvsKeep setting accessAt s) {r : ℕ} {stage : EnvStage}
    (hstage : stage.Keeps setting accessAt) : EnvsKeep setting accessAt (s.goes r stage) := by
  refine ⟨h.cached, fun r' => ?_⟩
  by_cases heq : r' = r
  · subst heq
    simpa [SharedEnvs.goes] using hstage
  · simpa [SharedEnvs.goes, heq] using h.stages r'

lemma EnvsKeep.builds (h : EnvsKeep setting accessAt s) {r : ℕ} {req : Request} {snapshot : Snapshot}
    {uid : ℤ} {lang : String} {user : EnvValue} (huser : user.IsOf snapshot.security uid)
    (huid : ∀ id, req.uid = some (.Id id) → uid = id) :
    EnvsKeep setting accessAt (s.builds setting r req snapshot uid lang user) := by
  unfold SharedEnvs.builds
  split
  · next env henv => exact h.goes (buildEnv_belongs huser huid henv)
  · exact h.goes trivial

lemma EnvsKeep.withCache (h : EnvsKeep setting accessAt s) {cache : Dict (ℤ × Signals) EnvValue}
    (hcache : ∀ key user, cache.get? key = some user → user.IsOf (accessAt key.2) key.1) :
    EnvsKeep setting accessAt { s with cache } := ⟨hcache, h.stages⟩

lemma envsKeep_step {action : EnvAction} (h : EnvsKeep setting accessAt s)
    (haction : action.TakesAccess setting accessAt) (hstep : s.step setting action = some s') :
    EnvsKeep setting accessAt s' := by
  cases action with
  | begin r req snapshot =>
      simp only [SharedEnvs.step] at hstep
      split at hstep
      · exact Option.some.inj hstep ▸ h.goes haction
      · cases hstep
  | lookup r users =>
      have hr := h.stages r
      simp only [SharedEnvs.step] at hstep
      split at hstep
      · next req snapshot hbegun =>
          rw [hbegun] at hr
          split at hstep
          · exact Option.some.inj hstep ▸ h.goes trivial
          · next uid lang hidentity =>
              obtain ⟨uid', huid, hidentity⟩ := bind_eq_ok.mp hidentity
              obtain ⟨lang', -, hidentity⟩ := bind_eq_ok.mp hidentity
              obtain ⟨rfl, rfl⟩ := Prod.mk.inj (Except.ok.inj hidentity)
              have hid := requestUid_id huid
              split at hstep
              · next user hget =>
                  have huser := h.cached _ _ hget
                  rw [SharedEnvs.keyOf, ← hr] at huser
                  exact Option.some.inj hstep ▸ h.builds huser hid
              · exact Option.some.inj hstep ▸ h.goes ⟨hr, hid⟩
      · cases hstep
  | load r users =>
      have hr := h.stages r
      simp only [SharedEnvs.step] at hstep
      split at hstep
      · next req snapshot uid lang hmissed =>
          rw [hmissed] at hr
          split at hstep
          · exact Option.some.inj hstep ▸ h.goes trivial
          · next user hload =>
              exact Option.some.inj hstep ▸ h.goes ⟨hr.1, hr.2, loadUser_isOf hload⟩
      · cases hstep
  | insert r =>
      have hr := h.stages r
      simp only [SharedEnvs.step] at hstep
      split at hstep
      · next req snapshot uid lang user hloaded =>
          rw [hloaded] at hr
          obtain ⟨haccess, hid, huser⟩ := hr
          refine Option.some.inj hstep ▸ (h.withCache fun key held hget => ?_).builds huser hid
          rw [Dict.get?_insert] at hget
          split at hget
          · next hkey =>
              obtain rfl := Option.some.inj hget
              subst hkey
              rw [SharedEnvs.keyOf, ← haccess]
              exact huser
          · exact h.cached key held hget
      · cases hstep
  | evict current =>
      exact Option.some.inj hstep ▸
        h.withCache fun key user hget => h.cached key user (get?_of_evict hget)
  | clear => exact Option.some.inj hstep ▸ h.withCache fun _ _ hget => by cases hget

/-- **Each request has the rights of its user at its own snapshot**: in any order of the steps of any
number of requests over one cache, which is cleared and evicted meanwhile. -/
theorem environment_of_snapshot {actions : List EnvAction}
    (hrun : RunsWhile (SharedEnvs.step setting) (fun _ a => a.TakesAccess setting accessAt) .start
      actions s) {r : ℕ} {req : Request} {snapshot : Snapshot} {env : Environment}
    (hready : s.stage r = .ready req snapshot env) : env.BelongsTo req snapshot := by
  have hstart : EnvsKeep setting accessAt .start := ⟨fun _ _ hget => (by cases hget), fun _ => trivial⟩
  have hkeep := hrun.keeps (fun _ _ _ h hok hstep => envsKeep_step h hok hstep) hstart
  have hstage := hkeep.stages r
  rw [hready] at hstage
  exact hstage

end Runs

/-! ## A user of two companies -/

namespace Identities

def setting : EnvSetting where
  signalTables := []
  anchorsKnown := true
  resolveTimezone _ := none
  quoted := id

/-- A user of two companies and two groups, one of which implies a third. -/
def access : Security :=
  { Security.plain [] [] with
    userGroups := [(6, [1, 9])], implied := [(9, [4])], userCompanies := [(6, [3, 2])] }

def snapshot : Snapshot where
  security := access
  signals := []
  langs := []
  weekStart := []

def users : UserTables where
  other := .ok none
  byLogin _ := .ok none
  row _ := .ok (some (some 2, none))

/-- A request of the user, in some companies. -/
def request (companies : Option (List ℤ)) : Request where
  id := none
  registrySequence := none
  model := "res.partner"
  method := "search_count"
  domain := .null
  fields := []
  limit := none
  offset := none
  order := none
  groupby := .null
  aggregates := []
  having := .null
  uid := some (.Id 6)
  su := false
  lang := none
  allowedCompanyIds := companies
  principalGroups := none
  accessPartner := none
  groupbyLabels := none
  groupbyHiddenLabelsEmpty := false
  rawMany2one := []
  unredactedMany2one := []
  activeTest := none
  x2manyActiveTest := none
  tz := none
  rootActiveTest := none
  trustedDomain := false
  resolvedRules := []
  sqlNonce := none
  orderFragments := []

/-- The second request finds what the first one has cached. -/
def actions : List EnvAction :=
  [.begin 0 (request none) snapshot, .begin 1 (request (some [3])) snapshot, .lookup 0 users,
    .load 0 users, .insert 0, .lookup 1 users]

/-- The second request has the groups of the user, the implied one too, in the company that it asks for. -/
theorem second_has_rights : ∃ s env, run (SharedEnvs.step setting) .start actions = some s ∧
    s.stage 1 = .ready (request (some [3])) snapshot env ∧ env.uid = 6 ∧ env.groups = {1, 4, 9} ∧
      env.companyIds = [3] ∧ env.BelongsTo (request (some [3])) snapshot := by
  obtain ⟨s, env, hrun, hready, huid, hgroups, hcompanies⟩ : ∃ s env,
      run (SharedEnvs.step setting) .start actions = some s ∧
        s.stage 1 = .ready (request (some [3])) snapshot env ∧ env.uid = 6 ∧
          env.groups = {1, 4, 9} ∧ env.companyIds = [3] := ⟨_, _, rfl, rfl, rfl, by decide, rfl⟩
  have hok : ∀ a ∈ actions, a.TakesAccess setting fun _ => access := by
    simp [actions, EnvAction.TakesAccess, snapshot]
  exact ⟨s, env, hrun, hready, huid, hgroups, hcompanies,
    environment_of_snapshot (runsWhile_of_forall hok hrun) hready⟩

end Identities

end OdooKernel
