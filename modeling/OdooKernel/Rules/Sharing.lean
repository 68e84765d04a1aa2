import OdooKernel.Cache.Interleaving
import OdooKernel.Core.Runs
import OdooKernel.Rules.Identity

/-!
# Rules that requests share

Requests of any identities, each with a snapshot of the data, take rules from a cache under their
identity and security signals, or compile them and leave them there.  Meanwhile the data changes and
other access data is published.

**What a request may find.**  Rules are kept as the rule sets that they are, so that two requests may
be compared by what their rules select.  A request compiles from the access data that is published,
whichever `Dynamic` it checked, and with its own snapshot and context (`SharedRules.reader`).

**The invariant** is about the rules of one model (`Settled`): whatever a request holds or the cache
keeps is what building the rules from a request's own snapshot gives.  `KeepsSettled` is what a step
may not do for that, and the two conditions are made of it.

**Data that changes.**  No signal tells of a change of plain data.  `ReadsSteady` asks that a request
that begins gives all that building the rules asks the answer that it has for the earlier requests of
its key; `cached_rules_of_old_snapshot` is a run that does not.

**Access data that is published.**  `PublishesSteady` asks that a model is compiled while the
published access data reads as the request's own; `rules_of_newer_dynamic` is a run that does not.

* `RuleRequest`, `RuleStage`, `SharedRules` — the requests, where each stands, and what they share.
* `SharedRules.step` — the state after an action.
* `cached_rules_of_snapshot`, `rules_of_key` — the runs that meet the conditions.
-/

namespace OdooKernel

/-! ## Requests -/

/-- A request of a principal: the security signals of the `Dynamic` it checked, its context, and the
models that it names. -/
structure RuleRequest where
  user : UserCtx
  signals : Signals
  ctx : ExprCtx
  seeds : List String

/-- The key of a request's rules. -/
def RuleRequest.key (q : RuleRequest) : RuleKey := { user := q.user, signals := q.signals }

/-- Where a request stands. -/
inductive RuleStage where
  | outside
  | begun
  | compiling (work : Work)
  | evicting (rules : RuleSet)
  | ready (rules : RuleSet)
  | failed

/-- The rules that a request holds. -/
def RuleStage.rules? : RuleStage → Option RuleSet
  | .compiling work => some work.rules
  | .evicting rules | .ready rules => some rules
  | .outside | .begun | .failed => none

/-- The data, the signals of the published access data, the cache, and each request with the snapshot
that it reads. -/
structure SharedRules where
  db : Database
  signals : Signals
  cache : Dict RuleKey RuleSet
  request : ℕ → Option (RuleRequest × Database)
  stage : ℕ → RuleStage

/-- What happens next. -/
inductive SharingAction where
  | change (db : Database)
  | publish (signals : Signals)
  | begin (r : ℕ) (q : RuleRequest)
  | lookup (r : ℕ)
  | compile (r : ℕ)
  | insert (r : ℕ)
  | evict (r : ℕ)

namespace SharedRules

variable (setting : RuleSetting) (s : SharedRules)

/-- What a request compiles its rules from: the access data that is published, whichever `Dynamic` the
request checked, and its own snapshot and context. -/
def reader (q : RuleRequest) (db : Database) : Reader where
  security := setting.accessAt s.signals
  db := db
  ctx := q.ctx

/-- A request goes on. -/
def goes (r : ℕ) (stage : RuleStage) : SharedRules :=
  { s with stage := Function.update s.stage r stage }

/-- The rules of a request that looks them up: the cached ones, when they cover its models. -/
def afterLookup (q : RuleRequest) : RuleStage :=
  let base := s.cache.get? q.key
  let work := Work.start base ((setting.accessAt q.signals).rules.map (·.1)) q.seeds
  match base with
  | some cached => if work.pending.isEmpty then .ready cached else .compiling work
  | none => .compiling work

/-- **The state after an action**, if it can be taken. -/
def step : SharingAction → Option SharedRules
  | .change db => some { s with db }
  | .publish signals => some { s with signals }
  | .begin r q =>
    match s.stage r, s.request r with
    | .outside, none =>
      some { s.goes r .begun with request := Function.update s.request r (some (q, s.db)) }
    | _, _ => none
  | .lookup r =>
    match s.stage r, s.request r with
    | .begun, some (q, _) => some (s.goes r (s.afterLookup setting q))
    | _, _ => none
  | .compile r =>
    match s.stage r, s.request r with
    | .compiling work, some (q, db) =>
      (work.next setting q.user (s.reader setting q db)).map fun
        | .ok work => s.goes r (.compiling work)
        | .error _ => s.goes r .failed
    | _, _ => none
  | .insert r =>
    match s.stage r, s.request r with
    | .compiling work, some (q, _) =>
      if work.pending = [] then
        some { s.goes r (.evicting work.rules) with cache := s.cache.insert q.key work.rules }
      else none
    | _, _ => none
  | .evict r =>
    match s.stage r, s.request r with
    | .evicting rules, some (q, _) =>
      some { s.goes r (.ready rules) with
        cache := OdooKernel.evict s.cache fun key => key.signals = q.signals }
    | _, _ => none

/-- Before any request. -/
def initial (db : Database) (signals : Signals) : SharedRules where
  db := db
  signals := signals
  cache := []
  request _ := none
  stage _ := .outside

end SharedRules

/-- The records of a model that what a rule set holds of it selects for a request, on some data. -/
def recordsSelected (setting : RuleSetting) (q : RuleRequest) (db : Database) (rules : RuleSet)
    (name : String) (held : Option Node × Option String) : Result (List ℤ) := do
  let model ← setting.registry.get name
  let c := Compiler.root { q.ctx with registry := setting.registry } model rules false
  let cond ← match held with
    | (_, some reason) => refuse reason
    | (none, none) => .ok Condition.all
    | (some node, none) =>
      (·.1) <$> (c.compileRules (Compiler.compile setting.calls) node).run
  let select := Select.from (.col model.table "id") model.table model.table [cond.toPredicate]
  return (select.rows db fun _ _ => none).filterMap fun
    | some (.int id) => some id
    | _ => none

/-! ## The invariant -/

section Settled

variable (setting : RuleSetting)

/-- What a request would compile its rules from, if its own `Dynamic` were asked. -/
def ownReader (q : RuleRequest) (db : Database) : Reader where
  security := setting.accessAt q.signals
  db := db
  ctx := q.ctx

/-- What building the rules of a model anew gives a request, on its own snapshot. -/
def ownEntry (name : String) (q : RuleRequest) (db : Database) : Option Node × Option String :=
  builtEntry setting q.user (ownReader setting q db) name

/-- **The rules of a model are settled**: the requests of one key would build the same, and what a
request holds or the cache keeps is what a request of its key would build. -/
structure Settled (name : String) (s : SharedRules) : Prop where
  alike : ∀ i j q q' db db', s.request i = some (q, db) → s.request j = some (q', db') →
    q.key = q'.key → ownEntry setting name q db = ownEntry setting name q' db'
  work : ∀ i w, s.stage i = .compiling w → w.Consistent
  held : ∀ i q db rules, s.request i = some (q, db) → (s.stage i).rules? = some rules →
    rules.Consistent ∧ (name ∈ rules.compiled → rules.entry name = ownEntry setting name q db)
  cached : ∀ key rules, s.cache.get? key = some rules →
    rules.Consistent ∧ (name ∈ rules.compiled → ∃ i q db, s.request i = some (q, db) ∧
      q.key = key ∧ rules.entry name = ownEntry setting name q db)

/-- What a step may not do to the rules of a model: begin a request that would build others than an
earlier one of its key, or compile others than the request's own. -/
def KeepsSettled (name : String) (s : SharedRules) : SharingAction → Prop
  | .begin _ q => ∀ i q' db', s.request i = some (q', db') → q'.key = q.key →
      ownEntry setting name q' db' = ownEntry setting name q s.db
  | .compile r => ∀ q db w pending, s.request r = some (q, db) → s.stage r = .compiling w →
      w.pending = name :: pending →
        builtEntry setting q.user (s.reader setting q db) name = ownEntry setting name q db
  | _ => True

variable {setting} {name : String} {s s' : SharedRules}

lemma settled_initial (db : Database) (signals : Signals) :
    Settled setting name (SharedRules.initial db signals) where
  alike _ _ _ _ _ _ h := by simp [SharedRules.initial] at h
  work _ _ h := by simp [SharedRules.initial] at h
  held _ _ _ _ h := by simp [SharedRules.initial] at h
  cached _ _ h := by simp [SharedRules.initial] at h

/-- The rules of a request hold of a model what building them gives it. -/
def Holds (setting : RuleSetting) (name : String) (q : RuleRequest) (db : Database)
    (rules : RuleSet) : Prop :=
  rules.Consistent ∧ (name ∈ rules.compiled → rules.entry name = ownEntry setting name q db)

/-- A request that goes on with rules of its own leaves the rest as it is. -/
lemma Settled.goes (h : Settled setting name s) (r : ℕ) {stage : RuleStage}
    (hwork : ∀ w, stage = .compiling w → w.Consistent)
    (hheld : ∀ q db rules, s.request r = some (q, db) → stage.rules? = some rules →
      Holds setting name q db rules) : Settled setting name (s.goes r stage) where
  alike := h.alike
  work i w hi := by
    by_cases hir : i = r
    · subst hir
      exact hwork w (by simpa [SharedRules.goes] using hi)
    · exact h.work i w (by simpa [SharedRules.goes, Function.update_of_ne hir] using hi)
  held i q db rules hi hrules := by
    by_cases hir : i = r
    · subst hir
      exact hheld q db rules hi (by simpa [SharedRules.goes] using hrules)
    · exact h.held i q db rules hi
        (by simpa [SharedRules.goes, Function.update_of_ne hir] using hrules)
  cached := h.cached

/-- A request that takes rules of the cache holds what it would build. -/
lemma Settled.holds_cached (h : Settled setting name s) {r : ℕ} {q : RuleRequest} {db : Database}
    {rules : RuleSet} (hr : s.request r = some (q, db)) (hc : s.cache.get? q.key = some rules) :
    Holds setting name q db rules := by
  obtain ⟨hconsistent, hentry⟩ := h.cached q.key rules hc
  refine ⟨hconsistent, fun hname => ?_⟩
  obtain ⟨i, q', db', hi, hkey, heq⟩ := hentry hname
  rw [heq]
  exact h.alike i r q' q db' db hi hr hkey

lemma Settled.begin (h : Settled setting name s) {r : ℕ} {q : RuleRequest}
    (hok : KeepsSettled setting name s (.begin r q)) (hnew : s.request r = none) :
    Settled setting name
      { s.goes r .begun with request := Function.update s.request r (some (q, s.db)) } := by
  have hold : ∀ {i : ℕ} {p : RuleRequest × Database}, s.request i = some p → i ≠ r := by
    rintro i p hi rfl
    rw [hnew] at hi
    simp at hi
  refine ⟨?_, ?_, ?_, ?_⟩
  · intro i j q₁ q₂ db₁ db₂ hi hj hkey
    simp only [Function.update_apply] at hi hj
    split at hi <;> split at hj
    · obtain ⟨rfl, rfl⟩ := Prod.mk.inj (Option.some.inj hi)
      obtain ⟨rfl, rfl⟩ := Prod.mk.inj (Option.some.inj hj)
      rfl
    · obtain ⟨rfl, rfl⟩ := Prod.mk.inj (Option.some.inj hi)
      exact (hok j q₂ db₂ hj hkey.symm).symm
    · obtain ⟨rfl, rfl⟩ := Prod.mk.inj (Option.some.inj hj)
      exact hok i q₁ db₁ hi hkey
    · exact h.alike i j q₁ q₂ db₁ db₂ hi hj hkey
  · intro i w hi
    by_cases hir : i = r
    · subst hir
      simp [SharedRules.goes] at hi
    · exact h.work i w (by simpa [SharedRules.goes, Function.update_of_ne hir] using hi)
  · intro i q₁ db₁ rules hi hrules
    by_cases hir : i = r
    · subst hir
      simp [SharedRules.goes, RuleStage.rules?] at hrules
    · exact h.held i q₁ db₁ rules (by simpa [Function.update_of_ne hir] using hi)
        (by simpa [SharedRules.goes, Function.update_of_ne hir] using hrules)
  · intro key rules hc
    obtain ⟨hconsistent, hentry⟩ := h.cached key rules hc
    refine ⟨hconsistent, fun hname => ?_⟩
    obtain ⟨i, q', db', hi, hrest⟩ := hentry hname
    exact ⟨i, q', db', by simpa [Function.update_of_ne (hold hi)] using hi, hrest⟩

lemma Settled.lookup (h : Settled setting name s) {r : ℕ} {q : RuleRequest} {db : Database}
    (hr : s.request r = some (q, db)) :
    Settled setting name (s.goes r (s.afterLookup setting q)) := by
  have hbase : ∀ rules ∈ s.cache.get? q.key, Holds setting name q db rules := fun rules hrules =>
    h.holds_cached hr hrules
  have hstart : (Work.start (s.cache.get? q.key) ((setting.accessAt q.signals).rules.map (·.1))
      q.seeds).Consistent := Work.consistent_start (fun rules hrules => (hbase rules hrules).1) _ _
  have hrules : Holds setting name q db
      ((s.cache.get? q.key).getD (RuleSet.withRuled ((setting.accessAt q.signals).rules.map
        (·.1)))) := by
    cases hc : s.cache.get? q.key with
    | none => exact ⟨RuleSet.consistent_withRuled _, fun hname => by
        simp [RuleSet.withRuled, RuleSet.empty] at hname⟩
    | some rules => exact hbase rules hc
  refine h.goes r ?_ ?_
  · intro w hw
    simp only [SharedRules.afterLookup] at hw
    split at hw
    · split at hw
      · simp at hw
      · obtain rfl := RuleStage.compiling.inj hw
        exact hstart
    · obtain rfl := RuleStage.compiling.inj hw
      exact hstart
  · intro q' db' rules hq' hstage
    obtain ⟨rfl, rfl⟩ := Prod.mk.inj (Option.some.inj (hq'.symm.trans hr))
    simp only [SharedRules.afterLookup] at hstage
    split at hstage
    · next cached hc =>
        split at hstage
        · obtain rfl := Option.some.inj hstage
          exact hbase cached hc
        · obtain rfl := Option.some.inj hstage
          exact hrules
    · obtain rfl := Option.some.inj hstage
      exact hrules

lemma Settled.compile (h : Settled setting name s) {r : ℕ} {q : RuleRequest} {db : Database}
    {w w' : Work} (hok : KeepsSettled setting name s (.compile r)) (hr : s.request r = some (q, db))
    (hw : s.stage r = .compiling w)
    (hnext : w.next setting q.user (s.reader setting q db) = some (.ok w')) :
    Settled setting name (s.goes r (.compiling w')) := by
  obtain ⟨next, pending, hpending, hspec⟩ := Work.next_spec (h.work r w hw) hnext
  have hheld : Holds setting name q db w.rules := h.held r q db w.rules hr (by
    rw [hw, RuleStage.rules?])
  have hafter : w'.Consistent ∧ Holds setting name q db w'.rules := by
    rcases hspec with ⟨-, hrules, hconsistent⟩ | ⟨hconsistent, hcompiled, hown, hothers⟩
    · exact ⟨hconsistent, hrules ▸ hheld⟩
    · refine ⟨hconsistent, hconsistent.rules, fun hname => ?_⟩
      rw [hcompiled] at hname
      by_cases hnext : name = next
      · subst hnext
        rw [hown]
        exact hok q db w pending hr hw hpending
      · rw [hothers name hnext]
        exact hheld.2 ((List.mem_cons.mp hname).resolve_left hnext)
  refine h.goes r ?_ ?_
  · intro w'' hw''
    obtain rfl := RuleStage.compiling.inj hw''
    exact hafter.1
  · intro q' db' rules hq' hrules
    obtain ⟨rfl, rfl⟩ := Prod.mk.inj (Option.some.inj (hq'.symm.trans hr))
    obtain rfl := Option.some.inj hrules
    exact hafter.2

lemma Settled.insert (h : Settled setting name s) {r : ℕ} {q : RuleRequest} {db : Database}
    {w : Work} (hr : s.request r = some (q, db)) (hw : s.stage r = .compiling w) :
    Settled setting name
      { s.goes r (.evicting w.rules) with cache := s.cache.insert q.key w.rules } := by
  have hheld : Holds setting name q db w.rules := h.held r q db w.rules hr (by
    rw [hw, RuleStage.rules?])
  have hgoes : Settled setting name (s.goes r (.evicting w.rules)) := by
    refine h.goes r (fun w' hw' => by simp at hw') fun q' db' rules hq' hrules => ?_
    obtain ⟨rfl, rfl⟩ := Prod.mk.inj (Option.some.inj (hq'.symm.trans hr))
    obtain rfl := Option.some.inj hrules
    exact hheld
  refine ⟨hgoes.alike, hgoes.work, hgoes.held, fun key rules hc => ?_⟩
  rw [Dict.get?_insert] at hc
  split at hc
  · next hkey =>
      obtain rfl := Option.some.inj hc
      exact ⟨hheld.1, fun hname => ⟨r, q, db, hr, hkey, hheld.2 hname⟩⟩
  · exact h.cached key rules hc

lemma Settled.evict (h : Settled setting name s) {r : ℕ} {rules : RuleSet}
    (hstage : s.stage r = .evicting rules) (isCurrent : RuleKey → Bool) :
    Settled setting name
      { s.goes r (.ready rules) with cache := OdooKernel.evict s.cache isCurrent } := by
  have hgoes : Settled setting name (s.goes r (.ready rules)) := by
    refine h.goes r (fun w' hw' => by simp at hw') fun q' db' rules' hq' hrules => ?_
    obtain rfl := Option.some.inj hrules
    exact h.held r q' db' rules hq' (by rw [hstage, RuleStage.rules?])
  exact ⟨hgoes.alike, hgoes.work, hgoes.held,
    fun key rules' hc => h.cached key rules' (get?_of_evict hc)⟩

/-- **Every step that may be taken leaves the rules of the model settled.** -/
lemma Settled.step {a : SharingAction} (h : Settled setting name s)
    (hok : KeepsSettled setting name s a) (hstep : s.step setting a = some s') :
    Settled setting name s' := by
  cases a with
  | change db =>
      obtain rfl := Option.some.inj hstep
      exact ⟨h.alike, h.work, h.held, h.cached⟩
  | publish signals =>
      obtain rfl := Option.some.inj hstep
      exact ⟨h.alike, h.work, h.held, h.cached⟩
  | begin r q =>
      simp only [SharedRules.step] at hstep
      split at hstep
      · next hnew =>
          obtain rfl := Option.some.inj hstep
          exact h.begin hok hnew
      · simp at hstep
  | lookup r =>
      simp only [SharedRules.step] at hstep
      split at hstep
      · next q db _ hr =>
          obtain rfl := Option.some.inj hstep
          exact h.lookup hr
      · simp at hstep
  | compile r =>
      simp only [SharedRules.step] at hstep
      split at hstep
      · next w q db hw hr =>
          obtain ⟨result, hnext, rfl⟩ := Option.map_eq_some_iff.mp hstep
          cases result with
          | ok w' => exact h.compile hok hr hw hnext
          | error e =>
              exact h.goes r (fun w' hw' => by simp at hw') fun _ _ _ _ hrules => by
                simp [RuleStage.rules?] at hrules
      · simp at hstep
  | insert r =>
      simp only [SharedRules.step] at hstep
      split at hstep
      · next w q db hw hr =>
          split at hstep
          · obtain rfl := Option.some.inj hstep
            exact h.insert hr hw
          · simp at hstep
      · simp at hstep
  | evict r =>
      simp only [SharedRules.step] at hstep
      split at hstep
      · next rules q db hstage hr =>
          obtain rfl := Option.some.inj hstep
          exact h.evict hstage _
      · simp at hstep

/-! ## Data that changes -/

/-- Every request holds the signals that are published. -/
def AllCurrent (s : SharedRules) : Prop := ∀ i q db, s.request i = some (q, db) → q.signals = s.signals

/-- **The data changes, and the rules of a model read nothing of it**: no other access data is
published, and a request that begins gives every name and every question that building the rules asks
the answer that it has for the earlier requests of the key. -/
def ReadsSteady (setting : RuleSetting) (name : String) (s : SharedRules) : SharingAction → Prop
  | .publish _ => False
  | .begin _ q => q.signals = s.signals ∧ ∀ i q' db', s.request i = some (q', db') →
      q'.key = q.key →
        SameReads setting q.user (ownReader setting q' db') (ownReader setting q s.db) name
  | _ => True

lemma user_of_key {q q' : RuleRequest} (h : q.key = q'.key) : q.user = q'.user :=
  congrArg RuleKey.user h

lemma signals_of_key {q q' : RuleRequest} (h : q.key = q'.key) : q.signals = q'.signals :=
  congrArg RuleKey.signals h

/-- The requests of a state after a step are those before it, and the one that began. -/
lemma request_of_step {a : SharingAction} (hstep : s.step setting a = some s') {i : ℕ}
    {q : RuleRequest} {db : Database} (hi : s'.request i = some (q, db)) :
    s.request i = some (q, db) ∨ (a = .begin i q ∧ db = s.db) := by
  cases a with
  | change _ | publish _ =>
      obtain rfl := Option.some.inj hstep
      exact .inl hi
  | begin r p =>
      simp only [SharedRules.step] at hstep
      split at hstep
      · obtain rfl := Option.some.inj hstep
        by_cases hir : i = r
        · subst hir
          simp only [Function.update_self, Option.some.injEq, Prod.mk.injEq] at hi
          obtain ⟨rfl, rfl⟩ := hi
          exact .inr ⟨rfl, rfl⟩
        · exact .inl (by simpa [SharedRules.goes, Function.update_of_ne hir] using hi)
      · simp at hstep
  | lookup r | evict r =>
      simp only [SharedRules.step] at hstep
      split at hstep
      · obtain rfl := Option.some.inj hstep
        exact .inl hi
      · simp at hstep
  | compile r =>
      simp only [SharedRules.step] at hstep
      split at hstep
      · obtain ⟨result, -, rfl⟩ := Option.map_eq_some_iff.mp hstep
        cases result <;> exact .inl hi
      · simp at hstep
  | insert r =>
      simp only [SharedRules.step] at hstep
      split at hstep
      · split at hstep
        · obtain rfl := Option.some.inj hstep
          exact .inl hi
        · simp at hstep
      · simp at hstep

/-- The published signals change when other access data is published, and then only. -/
lemma signals_of_step {a : SharingAction} (hstep : s.step setting a = some s')
    (hpublish : ∀ signals, a ≠ .publish signals) : s'.signals = s.signals := by
  cases a with
  | publish signals => exact absurd rfl (hpublish signals)
  | change db =>
      obtain rfl := Option.some.inj hstep
      rfl
  | begin r _ | lookup r | evict r =>
      simp only [SharedRules.step] at hstep
      split at hstep
      · obtain rfl := Option.some.inj hstep
        rfl
      · simp at hstep
  | compile r =>
      simp only [SharedRules.step] at hstep
      split at hstep
      · obtain ⟨result, -, rfl⟩ := Option.map_eq_some_iff.mp hstep
        cases result <;> rfl
      · simp at hstep
  | insert r =>
      simp only [SharedRules.step] at hstep
      split at hstep
      · split at hstep
        · obtain rfl := Option.some.inj hstep
          rfl
        · simp at hstep
      · simp at hstep

lemma ReadsSteady.keepsSettled {a : SharingAction} (hcurrent : AllCurrent s)
    (hok : ReadsSteady setting name s a) : KeepsSettled setting name s a := by
  cases a with
  | begin r q =>
      intro i q' db' hi hkey
      rw [ownEntry, ownEntry, user_of_key hkey]
      exact builtEntry_congr (hok.2 i q' db' hi hkey)
  | compile r =>
      intro q db w pending hr _ _
      have hreader : s.reader setting q db = ownReader setting q db := by
        rw [SharedRules.reader, ownReader, hcurrent r q db hr]
      rw [hreader, ownEntry]
  | change _ | publish _ | lookup _ | insert _ | evict _ => trivial

lemma ReadsSteady.allCurrent {a : SharingAction} (hcurrent : AllCurrent s)
    (hok : ReadsSteady setting name s a) (hstep : s.step setting a = some s') : AllCurrent s' := by
  have hsignals : s'.signals = s.signals := signals_of_step hstep fun signals ha => by
    subst ha
    exact hok
  intro i q db hi
  rw [hsignals]
  rcases request_of_step hstep hi with hi | ⟨rfl, -⟩
  · exact hcurrent i q db hi
  · exact hok.1

/-- **The rules that a request holds are those of its own snapshot**, and select the records that those
select, in every run whose changes of the data the rules of the model do not read. -/
theorem cached_rules_of_snapshot {setting : RuleSetting} {name : String} {db₀ : Database}
    {signals : Signals} {as : List SharingAction} {s : SharedRules}
    (hrun : RunsWhile (SharedRules.step setting) (ReadsSteady setting name)
      (SharedRules.initial db₀ signals) as s) {r : ℕ} {q : RuleRequest} {db : Database}
    {rules : RuleSet} (hr : s.request r = some (q, db)) (hrules : (s.stage r).rules? = some rules)
    (hname : name ∈ rules.compiled) :
    rules.entry name = ownEntry setting name q db ∧
      recordsSelected setting q db rules name (rules.entry name)
        = recordsSelected setting q db rules name (ownEntry setting name q db) := by
  have hkeeps : ∀ s a s', Settled setting name s ∧ AllCurrent s → ReadsSteady setting name s a →
      s.step setting a = some s' → Settled setting name s' ∧ AllCurrent s' := by
    rintro s a s' ⟨hsettled, hcurrent⟩ hok hstep
    exact ⟨hsettled.step (hok.keepsSettled hcurrent) hstep, hok.allCurrent hcurrent hstep⟩
  have hinv : Settled setting name s ∧ AllCurrent s := hrun.keeps hkeeps
    ⟨settled_initial db₀ signals, fun _ _ _ h => by simp [SharedRules.initial] at h⟩
  have hentry := (hinv.1.held r q db rules hr hrules).2 hname
  exact ⟨hentry, by rw [hentry]⟩

end Settled

namespace Areas

/-- An area within another, if any. -/
def areaRow (id : ℤ) (parent : Option ℤ) : Row
  | "id" => some (.int id)
  | "parent_id" => parent.map .int
  | _ => none

/-- Areas that lie within areas. -/
def area : Model :=
  { plainModel "area" "area"
      [("id", { Field.column "id" .Integer "int4" none with notNull := true }),
        ("parent_id", { Field.column "parent_id" .Many2one "int4" none with
          relation := some "area" })] with
    parentName := some "parent_id" }

/-- A permission on the areas within one. -/
def within (id : ℤ) : Rule where
  groups := [1]
  restrict := false
  domainForce := none
  parsed := some (.ok (.Seq [.Seq [.Str "id", .Str "child_of", .Seq [.Int id]]]))
  reach := none
  exempt := []

/-- The signals of the access data at first, after the permission on the areas was changed, and after
that of another model was. -/
def firstSignals : Signals := []

def areaSignals : Signals := [((1 : ℤ) : WithBot ℤ)]

def otherSignals : Signals := [((2 : ℤ) : WithBot ℤ)]

def setting : RuleSetting where
  registry := plainRegistry [("area", area)]
  accessAt signals := Security.plain [("area", [1])]
    (if signals = areaSignals then [("area", [within 2])]
      else if signals = otherSignals then [("area", [within 1]), ("note", [within 1])]
      else [("area", [within 1])])
  toDouble := some
  calls := 10

def database (rows : List Row) : Database where
  table name := if name = "area" then rows else []
  fragment _ := []
  server := Server.plain

/-- An area within another, and what the data is after a change: one more area within the first, or
one more that is not. -/
def before : Database := database [areaRow 1 none, areaRow 2 (some 1)]

def grown : Database := database [areaRow 1 none, areaRow 2 (some 1), areaRow 3 (some 1)]

def aside : Database := database [areaRow 1 none, areaRow 2 (some 1), areaRow 3 none]

def member : UserCtx where
  uid := 2
  companyId := 1
  companyIds := [1]
  groups := {1}
  scopes := []
  accessPartner := none

def request : RuleRequest where
  user := member
  signals := firstSignals
  ctx := ExprCtx.plain setting.registry (Security.plain [] []) none
  seeds := ["area"]

/-- A request compiles its rules, the data changes, and another takes them from the cache. -/
def changing (db : Database) : List SharingAction :=
  [.begin 0 request, .lookup 0, .compile 0, .insert 0, .evict 0, .change db, .begin 1 request,
    .lookup 1]

/-- **A change of the data that no signal tells of**: an area that lies within another now is not
among the records that the cached rules select. -/
theorem cached_rules_of_old_snapshot : ∃ s rules,
    run (SharedRules.step setting) (SharedRules.initial before firstSignals) (changing grown) = some s ∧
      s.request 1 = some (request, grown) ∧ (s.stage 1).rules? = some rules ∧
      "area" ∈ rules.compiled ∧
      recordsSelected setting request grown rules "area" (rules.entry "area") = .ok [1, 2] ∧
      recordsSelected setting request grown rules "area" (ownEntry setting "area" request grown)
        = .ok [1, 2, 3] :=
  ⟨_, _, rfl, rfl, rfl, by decide +kernel, by decide +kernel, by decide +kernel⟩

/-- The areas have no delegated parents. -/
lemma eq_of_governs {other : String} (h : Governs setting.registry other "area") : other = "area" := by
  cases h with
  | self _ => rfl
  | parent hlink _ =>
      have hlinks : parentLinks setting.registry "area" = [] := rfl
      simp [hlinks] at hlink

/-- The row on the areas reads neither names nor a partner. -/
lemma rowAgrees_within (id : ℤ) (ev ev' : Evaluator) :
    RowAgrees setting.registry member "area" ev ev' (within id) where
  expression e he := by
    obtain rfl := Except.ok.inj (Option.some.inj he)
    exact ⟨fun chain hc => by simp [namesIn, namesInAll] at hc,
      fun xmlid hx => by simp [refsIn, refsInAll] at hx⟩
  partner reach m anchor hreach := by simp [within] at hreach

/-- The rows on the areas read the same in all data, and at other signals that keep them. -/
lemma rowsAgree_area {signals : Signals}
    (hrows : (setting.accessAt signals).rules.get? "area" = some [within 1]) (db db' : Database)
    (ctx : ExprCtx) :
    RowsAgree setting.registry member
      (Reader.source setting member ⟨setting.accessAt signals, db, ctx⟩)
      (Reader.source setting member ⟨setting.accessAt firstSignals, db', ctx⟩) "area" where
  sums := rfl
  rules other hother := by
    obtain rfl := eq_of_governs hother
    exact hrows
  anchors other _ := rfl
  rows other hother rule hrule _ := by
    obtain rfl := eq_of_governs hother
    have hlist : (setting.accessAt signals).rules.listAt "area" = [within 1] := by
      rw [Dict.listAt, hrows, Option.getD_some]
    obtain rfl : rule = within 1 := by
      have hmem : rule ∈ (setting.accessAt signals).rules.listAt "area" := hrule
      simpa [hlist] using hmem
    exact rowAgrees_within 1 _ _

/-- What building the rules of the areas asks for. -/
lemma asked_area (db : Database) (hdb : db = before ∨ db = aside) :
    (rulesProgram setting.registry area
      (accessDomain setting member (ownReader setting request db) "area")).asked
        ((ownReader setting request db).answers setting)
      = [.descendants "area" "parent_id" [1]] := by
  rcases hdb with rfl | rfl <;> rfl

lemma sameReads_aside : SameReads setting member (ownReader setting request before)
    (ownReader setting request aside) "area" where
  rows := rowsAgree_area rfl before aside request.ctx
  asked model hmodel question hasked := by
    obtain rfl := Option.some.inj (show some area = some model from hmodel)
    rw [asked_area before (.inl rfl), List.mem_singleton] at hasked
    subst hasked
    show before.descendants "area" "parent_id" [1] = aside.descendants "area" "parent_id" [1]
    decide +kernel

/-- The only request so far. -/
lemma of_first {i : ℕ} {p p' : RuleRequest × Database}
    (h : Function.update (SharedRules.initial before firstSignals).request 0 (some p) i = some p') :
    p' = p := by
  rw [Function.update_apply] at h
  split at h
  · exact (Option.some.inj h).symm
  · simp [SharedRules.initial] at h

/-- An area that lies elsewhere changes nothing. -/
theorem cached_rules_of_snapshot_aside : ∃ s rules,
    run (SharedRules.step setting) (SharedRules.initial before firstSignals) (changing aside) = some s ∧
      (s.stage 1).rules? = some rules ∧ "area" ∈ rules.compiled ∧
      rules.entry "area" = ownEntry setting "area" request aside := by
  have hbegin : ∀ {s : SharedRules}, (∀ i p, s.request i = some p → p = (request, before)) →
      s.signals = firstSignals → s.db = aside →
      ReadsSteady setting "area" s (.begin 1 request) := by
    intro s hold hsignals hdb
    refine ⟨hsignals.symm, fun i q' db' hi _ => ?_⟩
    obtain ⟨rfl, rfl⟩ := Prod.mk.inj (hold i _ hi)
    rw [hdb]
    exact sameReads_aside
  refine ⟨_, _, rfl, rfl, by decide +kernel, (@cached_rules_of_snapshot setting "area"
    before firstSignals (changing aside) _
    (.cons ⟨rfl, fun i q' db' hi => by simp [SharedRules.initial] at hi⟩ rfl
      (.cons trivial rfl (.cons trivial rfl (.cons trivial rfl (.cons trivial rfl (.cons trivial rfl
        (.cons (hbegin (fun _ _ => of_first) rfl rfl) rfl (.cons trivial rfl (.nil _)))))))))
    1 request aside _ rfl rfl (by decide +kernel)).1⟩

end Areas

section Settled

variable {setting : RuleSetting} {name : String} {s s' : SharedRules}

/-! ## Access data that is published -/

/-- The searches by name that the rules of a model ask for find the same records for two requests. -/
def SearchesAlike (setting : RuleSetting) (name : String) (db : Database) (q q' : RuleRequest) :
    Prop :=
  ∀ model, setting.registry.lookup name = some model → ∀ target names ids active,
    Question.named target names ids active ∈
      (rulesProgram setting.registry model
        (accessDomain setting q.user (ownReader setting q db) name)).asked
        ((ownReader setting q db).answers setting) →
    (ownReader setting q db).answers setting (.named target names ids active)
      = (ownReader setting q' db).answers setting (.named target names ids active)

/-- **Other access data is published, and the rules of a model do not come from it**: the requests of
one key read one snapshot, their searches by name find the same in it, and the model is compiled while
the published access data reads as the request's own. -/
def PublishesSteady (setting : RuleSetting) (name : String) (s : SharedRules) :
    SharingAction → Prop
  | .begin _ q => ∀ i q' db', s.request i = some (q', db') → q'.key = q.key →
      db' = s.db ∧ SearchesAlike setting name s.db q' q
  | .compile r => ∀ q db w pending, s.request r = some (q, db) → s.stage r = .compiling w →
      w.pending = name :: pending →
        RowsAgree setting.registry q.user ((s.reader setting q db).source setting q.user)
          ((ownReader setting q db).source setting q.user) name
  | _ => True

/-- Two requests of one key on one snapshot build the same rules, where their searches by name find
the same. -/
lemma ownEntry_of_key {q q' : RuleRequest} {db : Database} (hkey : q.key = q'.key)
    (h : SearchesAlike setting name db q q') :
    ownEntry setting name q db = ownEntry setting name q' db := by
  have hsource : (ownReader setting q db).source setting q.user
      = (ownReader setting q' db).source setting q.user := by
    simp only [Reader.source, ownReader, signals_of_key hkey]
  rw [ownEntry, ownEntry, ← user_of_key hkey]
  refine builtEntry_congr ⟨?_, fun model hmodel question hasked => ?_⟩
  · rw [hsource]
    exact RowsAgree.refl _ _ _ _
  · cases question with
    | named target names ids active => exact h model hmodel target names ids active hasked
    | parentPaths _ _ | descendants _ _ _ | pathAncestors _ _ | linkAncestors _ _ _ => rfl

lemma PublishesSteady.keepsSettled {a : SharingAction} (hok : PublishesSteady setting name s a) :
    KeepsSettled setting name s a := by
  cases a with
  | begin r q =>
      intro i q' db' hi hkey
      obtain ⟨rfl, hsearches⟩ := hok i q' db' hi hkey
      exact ownEntry_of_key hkey hsearches
  | compile r =>
      intro q db w pending hr hw hpending
      rw [ownEntry]
      exact builtEntry_congr ⟨hok q db w pending hr hw hpending, fun _ _ _ _ => rfl⟩
  | change _ | publish _ | lookup _ | insert _ | evict _ => trivial

/-- **The key decides the rules**: requests of one key on one snapshot hold the same rules of a model,
or the same refusal, and those that each would compile itself, in every run that compiles the model
while the published access data reads as the request's own. -/
theorem rules_of_key {setting : RuleSetting} {name : String} {db₀ : Database} {signals : Signals}
    {as : List SharingAction} {s : SharedRules}
    (hrun : RunsWhile (SharedRules.step setting) (PublishesSteady setting name)
      (SharedRules.initial db₀ signals) as s) {i j : ℕ} {q q' : RuleRequest} {db db' : Database}
    {rules rules' : RuleSet} (hi : s.request i = some (q, db)) (hj : s.request j = some (q', db'))
    (hkey : q.key = q'.key) (hrules : (s.stage i).rules? = some rules)
    (hrules' : (s.stage j).rules? = some rules') (hname : name ∈ rules.compiled)
    (hname' : name ∈ rules'.compiled) :
    rules.entry name = rules'.entry name ∧ rules.entry name = ownEntry setting name q db := by
  have hinv : Settled setting name s :=
    hrun.keeps (fun s a s' hsettled hok hstep => hsettled.step hok.keepsSettled hstep)
      (settled_initial db₀ signals)
  have hown := (hinv.held i q db rules hi hrules).2 hname
  have hown' := (hinv.held j q' db' rules' hj hrules').2 hname'
  exact ⟨by rw [hown, hown', hinv.alike i j q q' db db' hi hj hkey], hown⟩

end Settled

namespace Areas

/-- Two requests of one key look up their rules, and other access data is published between their
compilations. -/
def publishing (signals : Signals) : List SharingAction :=
  [.begin 0 request, .begin 1 request, .lookup 0, .lookup 1, .compile 0, .publish signals, .compile 1]

/-- **Rules of a newer `Dynamic`**: of two requests of one key on one snapshot, the one that compiles
last has the rules of access data that it never checked. -/
theorem rules_of_newer_dynamic : ∃ s rules rules',
    run (SharedRules.step setting) (SharedRules.initial before firstSignals) (publishing areaSignals)
        = some s ∧
      s.request 0 = some (request, before) ∧ s.request 1 = some (request, before) ∧
      (s.stage 0).rules? = some rules ∧ (s.stage 1).rules? = some rules' ∧
      "area" ∈ rules.compiled ∧ "area" ∈ rules'.compiled ∧
      rules.entry "area" ≠ rules'.entry "area" := by
  refine ⟨_, _, _, rfl, rfl, rfl, rfl, rfl, by decide +kernel, by decide +kernel, fun h => ?_⟩
  have hleaves := congrArg (fun entry => entry.1.map leaves) h
  revert hleaves
  decide +kernel

/-- Access data of another model changes nothing. -/
theorem rules_of_key_other : ∃ s rules rules',
    run (SharedRules.step setting) (SharedRules.initial before firstSignals) (publishing otherSignals)
        = some s ∧
      (s.stage 0).rules? = some rules ∧ (s.stage 1).rules? = some rules' ∧
      "area" ∈ rules.compiled ∧ rules.entry "area" = rules'.entry "area" := by
  have hsearches : SearchesAlike setting "area" before request request := fun _ _ _ _ _ _ _ => rfl
  have hbegin : ∀ {s : SharedRules}, (∀ i p, s.request i = some p → p = (request, before)) →
      s.db = before → PublishesSteady setting "area" s (.begin 1 request) := by
    intro s hold hdb i q' db' hi _
    obtain ⟨rfl, rfl⟩ := Prod.mk.inj (hold i _ hi)
    exact ⟨hdb.symm, hdb.symm ▸ hsearches⟩
  have hcompile : ∀ {s : SharedRules} {r : ℕ}, s.request r = some (request, before) →
      (setting.accessAt s.signals).rules.get? "area" = some [within 1] →
      PublishesSteady setting "area" s (.compile r) := by
    intro s r hr hrows q db w pending hq _ _
    obtain ⟨rfl, rfl⟩ := Prod.mk.inj (Option.some.inj (hr.symm.trans hq))
    exact rowsAgree_area hrows before before request.ctx
  refine ⟨_, _, _, rfl, rfl, rfl, by decide +kernel, (@rules_of_key setting "area" before
    firstSignals (publishing otherSignals) _
    (.cons (fun i q' db' hi => by simp [SharedRules.initial] at hi) rfl
      (.cons (hbegin (fun _ _ => of_first) rfl) rfl (.cons trivial rfl (.cons trivial rfl
        (.cons (hcompile rfl rfl) rfl (.cons trivial rfl (.cons (hcompile rfl rfl) rfl
          (.nil _)))))))) 0 1 request request before before _ _ rfl rfl rfl rfl rfl
    (by decide +kernel) (by decide +kernel)).1⟩

end Areas

end OdooKernel
