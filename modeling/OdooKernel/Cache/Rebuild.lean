import OdooKernel.Cache.Interleaving

/-!
# Rebuilding the registry

The server takes another registry in use when the database's registry sequence moves: it builds one,
clears the caches of identities and swaps the registry.  Requests that took the old registry go on,
over the same caches.

**The size of a step.**  Building, clearing and swapping are three steps, and so are taking a
registry, looking up rules, compiling a model and inserting the rules; the caches and the registry
have a lock each.  The keys of the cache name an identity and the security signals, and no registry.

**The condition** (`KeepsToRegistry`) is on single steps: rules are inserted for the registry in use
alone and not between the clearing and the swap, and a request that is on another registry looks up
no key that has rules.  `insertedLate` is the run without it: rules that were compiled against the
old registry are inserted after it was swapped, and are taken by a request on the new one.

* `RequestPhase`, `RebuildPhase` — where a request and a rebuild stand between two actions.
* `AppState.step` — the state after an action.
* `AppState.OfRegistry` — the invariant: the cache has rules of the registry in use alone, and none
  between the clearing and the swap.
* `rules_of_own_registry` — in a run that meets the condition, no request uses rules that were
  compiled against another registry than its own.
-/

namespace OdooKernel

/-! ## State -/

/-- A model of a rule set, with the registry that its rules were compiled against. -/
structure RegistryRules where
  model : String
  registry : ℕ
deriving DecidableEq

/-- Where a request stands: it takes a registry, compares its snapshot with that registry's `Dynamic`,
and has its rules from the cache or compiles them. -/
inductive RequestPhase where
  | outside
  | holding (registry : ℕ)
  | comparing (registry : ℕ) (signals : Signals)
  | stamping (registry : ℕ) (current signals : Signals)
  | loading (registry : ℕ) (signals : Signals)
  | clearing (registry : ℕ) (signals : Signals)
  | checked (registry : ℕ) (signals : Signals)
  | compiling (registry : ℕ) (key : RuleKey) (rules : List RegistryRules)
  | evicting (registry : ℕ) (key : RuleKey) (rules : List RegistryRules)
  | ready (registry : ℕ) (rules : List RegistryRules)
  | refused
deriving DecidableEq

/-- The registry a request runs on and the rules that it uses. -/
def RequestPhase.rules? : RequestPhase → Option (ℕ × List RegistryRules)
  | .compiling registry _ rules | .evicting registry _ rules | .ready registry rules =>
    some (registry, rules)
  | _ => none

/-- Where a rebuild stands: it has built a registry, and has cleared the caches. -/
inductive RebuildPhase where
  | outside
  | built (registry : ℕ)
  | cleared (registry : ℕ)
deriving DecidableEq

/-- The database, the server and its requests and rebuilds.  Registries are numbered as they are
built; `signals` are those of the `Dynamic` that each has. -/
structure AppState where
  history : List Signals
  registry : ℕ
  built : ℕ
  signals : ℕ → Signals
  ruleCache : Dict RuleKey (List RegistryRules)
  phase : ℕ → RequestPhase
  rebuild : ℕ → RebuildPhase

/-- What happens next, and to which request or in which rebuild. -/
inductive AppAction where
  | advance (signals : Signals)
  | take (r : ℕ)
  | read (r : ℕ)
  | compare (r : ℕ)
  | stamp (r : ℕ)
  | publish (r : ℕ)
  | clear (r : ℕ)
  | lookupRules (r : ℕ) (user : UserCtx) (seeds : List String)
  | compile (r : ℕ) (model : String)
  | insertRules (r : ℕ)
  | evict (r : ℕ)
  | fail (r : ℕ)
  | build (b : ℕ)
  | clearCaches (b : ℕ)
  | swap (b : ℕ)

/-! ## Steps -/

namespace AppState

variable (plan : Option (List String)) (s : AppState)

/-- A request goes on. -/
def goes (r : ℕ) (phase : RequestPhase) : AppState :=
  { s with phase := Function.update s.phase r phase }

/-- A rebuild goes on. -/
def rebuilds (b : ℕ) (rebuild : RebuildPhase) : AppState :=
  { s with rebuild := Function.update s.rebuild b rebuild }

/-- The key of an identity at the signals of its access data. -/
def keyOf (user : UserCtx) (signals : Signals) : RuleKey :=
  { user, signals := securitySignals (plan.getD []) signals }

/-- `check_signaling` up to its next lock or statement. -/
def afterCompare (registry : ℕ) (signals current : Signals) : RequestPhase :=
  if snapshotPrecedes (plan.getD []) signals current then .refused
  else if !advanced signals current && current.length = signals.length then
    .checked registry current
  else
    match classifySignalChange (plan.getD []) current signals with
    | .none => .checked registry current
    | .irrelevant => .stamping registry current signals
    | .security => .loading registry signals
    | .registry => .refused

/-- `identity_rules` up to its first compilation: the cached rules, when they cover the seeds. -/
def afterLookup (registry : ℕ) (key : RuleKey) (seeds : List String) : RequestPhase :=
  let base := s.ruleCache.get? key
  let rules := base.getD []
  if base.isSome && seeds.all fun model => rules.any (·.model = model) then .ready registry rules
  else .compiling registry key rules

/-- **The state after an action**, if it can be taken. -/
def step : AppAction → Option AppState
  | .advance signals =>
    match s.history with
    | newest :: _ =>
      if Grows newest signals then some { s with history := signals :: s.history } else none
    | [] => none
  | .take r => if s.phase r = .outside then some (s.goes r (.holding s.registry)) else none
  | .read r =>
    match s.phase r, s.history with
    | .holding registry, newest :: _ =>
      -- a database without signal tables cannot be checked
      if plan.isNone then some (s.goes r (.checked registry (s.signals registry)))
      else some (s.goes r (.comparing registry newest))
    | _, _ => none
  | .compare r =>
    match s.phase r with
    | .comparing registry signals =>
      some (s.goes r (afterCompare plan registry signals (s.signals registry)))
    | _ => none
  | .stamp r =>
    match s.phase r with
    | .stamping registry current signals =>
      some { s.goes r (.checked registry signals) with
        signals := if s.signals registry = current then Function.update s.signals registry signals
          else s.signals }
    | _ => none
  | .publish r =>
    match s.phase r with
    | .loading registry signals =>
      some { s.goes r (.clearing registry signals) with
        signals := Function.update s.signals registry signals }
    | _ => none
  | .clear r =>
    match s.phase r with
    | .clearing registry signals =>
      some { s.goes r (.checked registry signals) with ruleCache := [] }
    | _ => none
  | .lookupRules r user seeds =>
    match s.phase r with
    | .checked registry signals =>
      some (s.goes r (s.afterLookup registry (keyOf plan user signals) seeds))
    | _ => none
  | .compile r model =>
    match s.phase r with
    | .compiling registry key rules =>
      some (s.goes r (.compiling registry key (rules ++ [{ model, registry }])))
    | _ => none
  | .insertRules r =>
    match s.phase r with
    | .compiling registry key rules =>
      some { s.goes r (.evicting registry key rules) with
        ruleCache := s.ruleCache.insert key rules }
    | _ => none
  | .evict r =>
    match s.phase r with
    | .evicting registry key rules =>
      some { s.goes r (.ready registry rules) with
        ruleCache := OdooKernel.evict s.ruleCache fun k => k.signals = key.signals }
    | _ => none
  | .fail r => some (s.goes r .refused)
  | .build b =>
    match s.rebuild b, s.history with
    | .outside, newest :: _ =>
      some { s.rebuilds b (.built s.built) with
        built := s.built + 1
        signals := Function.update s.signals s.built newest }
    | _, _ => none
  | .clearCaches b =>
    match s.rebuild b with
    | .built registry => some { s.rebuilds b (.cleared registry) with ruleCache := [] }
    | _ => none
  | .swap b =>
    match s.rebuild b with
    | .cleared registry => some { s.rebuilds b .outside with registry }
    | _ => none

/-- A server that has built a registry, before any request. -/
def initial (signals : Signals) : AppState where
  history := [signals]
  registry := 0
  built := 1
  signals _ := signals
  ruleCache := []
  phase _ := .outside
  rebuild _ := .outside

variable {plan : Option (List String)} {s s' : AppState}

@[simp] lemma goes_phase_self (r : ℕ) (phase : RequestPhase) : (s.goes r phase).phase r = phase :=
  Function.update_self ..

lemma goes_phase_of_ne {r q : ℕ} (h : q ≠ r) (phase : RequestPhase) :
    (s.goes r phase).phase q = s.phase q := Function.update_of_ne h ..

@[simp] lemma rebuilds_self (b : ℕ) (rebuild : RebuildPhase) :
    (s.rebuilds b rebuild).rebuild b = rebuild := Function.update_self ..

lemma rebuilds_of_ne {b c : ℕ} (h : c ≠ b) (rebuild : RebuildPhase) :
    (s.rebuilds b rebuild).rebuild c = s.rebuild c := Function.update_of_ne h ..

/-! ## No rules of another registry -/

/-- Rules were compiled against a registry. -/
def AreOf (registry : ℕ) (rules : List RegistryRules) : Prop := ∀ c ∈ rules, c.registry = registry

/-- A request uses no rules of another registry than its own. -/
def UsesOwn (phase : RequestPhase) : Prop :=
  ∀ registry rules, phase.rules? = some (registry, rules) → AreOf registry rules

/-- **The condition**: rules are inserted for the registry in use alone, and not while a rebuild has
cleared the caches and not swapped the registry, and they are looked up for another registry only
under a key that has none. -/
def KeepsToRegistry (plan : Option (List String)) (s : AppState) : AppAction → Prop
  | .lookupRules r user _ => ∀ registry signals, s.phase r = .checked registry signals →
      registry = s.registry ∨ s.ruleCache.get? (keyOf plan user signals) = none
  | .insertRules r => ∀ registry key rules, s.phase r = .compiling registry key rules →
      registry = s.registry ∧ ∀ b fresh, s.rebuild b ≠ .cleared fresh
  | _ => True

/-- The cache has rules of the registry in use alone, and none while it is about to be swapped. -/
structure OfRegistry (s : AppState) : Prop where
  cached : ∀ key rules, s.ruleCache.get? key = some rules → AreOf s.registry rules
  cleared : ∀ b fresh, s.rebuild b = .cleared fresh → s.ruleCache = []
  own : ∀ r, UsesOwn (s.phase r)

/-- A request goes on, with rules of its own registry. -/
lemma OfRegistry.goes (h : OfRegistry s) {r : ℕ} {phase : RequestPhase} (hown : UsesOwn phase) :
    OfRegistry (s.goes r phase) := by
  refine ⟨h.cached, h.cleared, fun q => ?_⟩
  by_cases hq : q = r
  · subst hq
    rwa [goes_phase_self]
  · rw [goes_phase_of_ne hq]
    exact h.own q

/-- The caches are cleared. -/
lemma OfRegistry.clear (h : OfRegistry s) : OfRegistry { s with ruleCache := [] } := by
  refine ⟨fun key rules hget => ?_, fun _ _ _ => rfl, h.own⟩
  rw [Dict.get?_nil] at hget
  exact absurd hget (by simp)

/-- A request without rules uses none of another registry. -/
lemma usesOwn_of_none {phase : RequestPhase} (h : phase.rules? = none) : UsesOwn phase := by
  intro registry rules hrules
  rw [h] at hrules
  exact absurd hrules (by simp)

lemma rules?_afterCompare (registry : ℕ) (signals current : Signals) :
    (afterCompare plan registry signals current).rules? = none := by
  unfold afterCompare
  split
  · rfl
  · split
    · rfl
    · split <;> rfl

/-- What a request takes from the cache is of its registry. -/
lemma OfRegistry.lookup (h : OfRegistry s) {registry : ℕ} {key : RuleKey} (seeds : List String)
    (hkey : registry = s.registry ∨ s.ruleCache.get? key = none) :
    UsesOwn (s.afterLookup registry key seeds) := by
  have hbase : AreOf registry ((s.ruleCache.get? key).getD []) := by
    cases hget : s.ruleCache.get? key with
    | none => exact fun c hc => absurd hc List.not_mem_nil
    | some rules =>
        rcases hkey with rfl | hnone
        · exact h.cached key rules hget
        · rw [hget] at hnone
          exact absurd hnone (by simp)
  intro other rules hrules
  unfold afterLookup at hrules
  simp only [] at hrules
  split at hrules
  · simp only [RequestPhase.rules?, Option.some.injEq, Prod.mk.injEq] at hrules
    obtain ⟨rfl, rfl⟩ := hrules
    exact hbase
  · simp only [RequestPhase.rules?, Option.some.injEq, Prod.mk.injEq] at hrules
    obtain ⟨rfl, rfl⟩ := hrules
    exact hbase

/-- The rules of a request are of the registry it runs on. -/
lemma OfRegistry.rules (h : OfRegistry s) {r registry : ℕ} {rules : List RegistryRules}
    (hr : (s.phase r).rules? = some (registry, rules)) : AreOf registry rules :=
  h.own r registry rules hr

/-- A request goes on with the rules that it has. -/
lemma OfRegistry.keeps (h : OfRegistry s) {r : ℕ} {phase : RequestPhase}
    (hphase : phase.rules? = (s.phase r).rules?) : UsesOwn phase := by
  intro registry rules hrules
  rw [hphase] at hrules
  exact h.own r registry rules hrules

lemma OfRegistry.insert (h : OfRegistry s) {key : RuleKey} {rules : List RegistryRules}
    (hrules : AreOf s.registry rules) (hrebuild : ∀ b fresh, s.rebuild b ≠ .cleared fresh) :
    OfRegistry { s with ruleCache := s.ruleCache.insert key rules } := by
  refine ⟨fun k rules' hget => ?_, fun b fresh hb => absurd hb (hrebuild b fresh), h.own⟩
  change (s.ruleCache.insert key rules).get? k = some rules' at hget
  rw [Dict.get?_insert] at hget
  split at hget
  · obtain rfl := Option.some.inj hget
    exact hrules
  · exact h.cached k rules' hget

lemma OfRegistry.evict (h : OfRegistry s) (isCurrent : RuleKey → Bool) :
    OfRegistry { s with ruleCache := OdooKernel.evict s.ruleCache isCurrent } := by
  refine ⟨fun key rules hget => h.cached key rules (get?_of_evict hget), fun b fresh hb => ?_, h.own⟩
  show OdooKernel.evict s.ruleCache isCurrent = []
  rw [h.cleared b fresh hb]
  rfl

lemma OfRegistry.step {a : AppAction} (h : OfRegistry s) (hok : KeepsToRegistry plan s a)
    (hstep : s.step plan a = some s') : OfRegistry s' := by
  cases a with
  | advance signals =>
      simp only [AppState.step] at hstep
      split at hstep
      · simp only [Option.ite_none_right_eq_some, Option.some.injEq] at hstep
        obtain ⟨-, rfl⟩ := hstep
        exact ⟨h.cached, h.cleared, h.own⟩
      · exact absurd hstep (by simp)
  | take r =>
      simp only [AppState.step, Option.ite_none_right_eq_some, Option.some.injEq] at hstep
      obtain ⟨-, rfl⟩ := hstep
      exact h.goes (usesOwn_of_none rfl)
  | read r =>
      simp only [AppState.step] at hstep
      split at hstep
      · split at hstep
        · obtain rfl := Option.some.inj hstep
          exact h.goes (usesOwn_of_none rfl)
        · obtain rfl := Option.some.inj hstep
          exact h.goes (usesOwn_of_none rfl)
      · exact absurd hstep (by simp)
  | compare r =>
      simp only [AppState.step] at hstep
      split at hstep
      · next registry signals hr =>
          obtain rfl := Option.some.inj hstep
          exact h.goes (usesOwn_of_none (rules?_afterCompare registry signals _))
      · exact absurd hstep (by simp)
  | stamp r =>
      simp only [AppState.step] at hstep
      split at hstep
      · next registry current signals hr =>
          obtain rfl := Option.some.inj hstep
          have hgoes : OfRegistry (s.goes r (.checked registry signals)) :=
            h.goes (usesOwn_of_none rfl)
          exact ⟨hgoes.cached, hgoes.cleared, hgoes.own⟩
      · exact absurd hstep (by simp)
  | publish r =>
      simp only [AppState.step] at hstep
      split at hstep
      · next registry signals hr =>
          obtain rfl := Option.some.inj hstep
          have hgoes : OfRegistry (s.goes r (.clearing registry signals)) :=
            h.goes (usesOwn_of_none rfl)
          exact ⟨hgoes.cached, hgoes.cleared, hgoes.own⟩
      · exact absurd hstep (by simp)
  | clear r =>
      simp only [AppState.step] at hstep
      split at hstep
      · next registry signals hr =>
          obtain rfl := Option.some.inj hstep
          have hgoes : OfRegistry (s.goes r (.checked registry signals)) :=
            h.goes (usesOwn_of_none rfl)
          exact hgoes.clear
      · exact absurd hstep (by simp)
  | lookupRules r user seeds =>
      simp only [AppState.step] at hstep
      split at hstep
      · next registry signals hr =>
          obtain rfl := Option.some.inj hstep
          exact h.goes (h.lookup seeds (hok registry signals hr))
      · exact absurd hstep (by simp)
  | compile r model =>
      simp only [AppState.step] at hstep
      split at hstep
      · next registry key rules hr =>
          obtain rfl := Option.some.inj hstep
          refine h.goes fun other rules' hrules => ?_
          simp only [RequestPhase.rules?, Option.some.injEq, Prod.mk.injEq] at hrules
          obtain ⟨rfl, rfl⟩ := hrules
          intro c hc
          rcases List.mem_append.mp hc with hc | hc
          · exact h.rules (by rw [hr]; rfl) c hc
          · rw [List.mem_singleton.mp hc]
      · exact absurd hstep (by simp)
  | insertRules r =>
      simp only [AppState.step] at hstep
      split at hstep
      · next registry key rules hr =>
          obtain rfl := Option.some.inj hstep
          obtain ⟨rfl, hrebuild⟩ := hok registry key rules hr
          have hgoes : OfRegistry (s.goes r (.evicting s.registry key rules)) :=
            h.goes (h.keeps (by rw [hr]; rfl))
          exact hgoes.insert (h.rules (by rw [hr]; rfl)) hrebuild
      · exact absurd hstep (by simp)
  | evict r =>
      simp only [AppState.step] at hstep
      split at hstep
      · next registry key rules hr =>
          obtain rfl := Option.some.inj hstep
          have hgoes : OfRegistry (s.goes r (.ready registry rules)) :=
            h.goes (h.keeps (by rw [hr]; rfl))
          exact hgoes.evict _
      · exact absurd hstep (by simp)
  | fail r =>
      obtain rfl := Option.some.inj hstep
      exact h.goes (usesOwn_of_none rfl)
  | build b =>
      simp only [AppState.step] at hstep
      split at hstep
      · next newest older hb _ =>
          obtain rfl := Option.some.inj hstep
          refine ⟨h.cached, fun c fresh hc => ?_, h.own⟩
          change (s.rebuilds b (.built s.built)).rebuild c = .cleared fresh at hc
          by_cases hcb : c = b
          · subst hcb
            rw [rebuilds_self] at hc
            exact absurd hc (by simp)
          · rw [rebuilds_of_ne hcb] at hc
            exact h.cleared c fresh hc
      · exact absurd hstep (by simp)
  | clearCaches b =>
      simp only [AppState.step] at hstep
      split at hstep
      · obtain rfl := Option.some.inj hstep
        exact ⟨nofun, fun _ _ _ => rfl, h.own⟩
      · exact absurd hstep (by simp)
  | swap b =>
      simp only [AppState.step] at hstep
      split at hstep
      · next registry hb =>
          obtain rfl := Option.some.inj hstep
          have hempty : s.ruleCache = [] := h.cleared b registry hb
          refine ⟨fun key rules hget => ?_, fun _ _ _ => hempty, h.own⟩
          change s.ruleCache.get? key = some rules at hget
          rw [hempty, Dict.get?_nil] at hget
          exact absurd hget (by simp)
      · exact absurd hstep (by simp)

lemma OfRegistry.initial (signals : Signals) : OfRegistry (initial signals) :=
  ⟨nofun, fun _ _ h => absurd h (by simp [AppState.initial]), fun _ => usesOwn_of_none rfl⟩

end AppState

open AppState

/-- **No request uses rules of another registry than its own**, in a run whose requests keep to the
registry in use. -/
theorem rules_of_own_registry (plan : Option (List String)) {signals : Signals}
    {actions : List AppAction} {s : AppState}
    (h : RunsWhile (AppState.step plan) (KeepsToRegistry plan) (AppState.initial signals) actions s) :
    ∀ r registry rules, (s.phase r).rules? = some (registry, rules) →
      ∀ c ∈ rules, c.registry = registry := by
  have hof : OfRegistry s :=
    h.keeps (fun _ _ _ hs hok hstep => OfRegistry.step hs hok hstep) (.initial signals)
  intro r registry rules hrules
  exact hof.own r registry rules hrules

namespace Rebuilding

/-- The registry's own sequence and one of the access data. -/
def tables : Option (List String) := some ["orm_signaling_registry", "orm_signaling_groups"]

def signalsAt (registry groups : ℤ) : Signals := [(registry : WithBot ℤ), (groups : WithBot ℤ)]

def user : UserCtx where
  uid := 2
  companyId := 1
  companyIds := [1]
  groups := {1}
  scopes := []
  accessPartner := none

/-- A request comes to know its rules, or that it has to compile them. -/
def looksUp (r : ℕ) : List AppAction :=
  [.take r, .read r, .compare r, .lookupRules r user ["res.partner"]]

/-- A request compiles its rules and the next one takes them. -/
def shared : List AppAction :=
  looksUp 0 ++ [.compile 0 "res.partner", .insertRules 0, .evict 0] ++ looksUp 1

/-- The registry is rebuilt between the compilation of the rules and their insertion. -/
def insertedLate : List AppAction :=
  looksUp 0 ++ [.compile 0 "res.partner", .advance (signalsAt 2 1), .build 0, .clearCaches 0, .swap 0,
    .insertRules 0, .evict 0] ++ looksUp 1

theorem rules_of_old_registry : ∃ s,
    run (AppState.step tables) (AppState.initial (signalsAt 1 1)) insertedLate = some s ∧
      s.phase 1 = .ready 1 [{ model := "res.partner", registry := 0 }] := by
  have hend : (run (AppState.step tables) (AppState.initial (signalsAt 1 1)) insertedLate).map
      (fun s => s.phase 1) = some (.ready 1 [{ model := "res.partner", registry := 0 }]) := by
    decide +kernel
  obtain ⟨s, hrun, hs⟩ := Option.map_eq_some_iff.mp hend
  exact ⟨s, hrun, hs⟩

theorem rules_of_own_registry_shared : ∃ s,
    RunsWhile (AppState.step tables) (KeepsToRegistry tables) (AppState.initial (signalsAt 1 1))
      shared s ∧
      s.phase 1 = .ready 0 [{ model := "res.partner", registry := 0 }] ∧
      ∀ r registry rules, (s.phase r).rules? = some (registry, rules) →
        ∀ c ∈ rules, c.registry = registry := by
  have h : RunsWhile (AppState.step tables) (KeepsToRegistry tables)
      (AppState.initial (signalsAt 1 1)) shared _ :=
    .cons trivial rfl (.cons trivial rfl (.cons trivial rfl (.cons (fun _ _ _ => Or.inr rfl) rfl
      (.cons trivial rfl (.cons (fun _ _ _ hr => ⟨(RequestPhase.compiling.inj hr).1.symm, nofun⟩) rfl
        (.cons trivial rfl (.cons trivial rfl (.cons trivial rfl (.cons trivial rfl
          (.cons (fun _ _ hr => Or.inl (RequestPhase.checked.inj hr).1.symm) rfl (.nil _)))))))))))
  exact ⟨_, h, by decide +kernel, rules_of_own_registry tables h⟩

end Rebuilding

end OdooKernel
