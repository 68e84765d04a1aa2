import OdooKernel.Access.Loading
import OdooKernel.Cache.Signals
import OdooKernel.Rules.Hierarchy
import OdooKernel.Rules.Reads

/-!
# The rules of an identity

The rules of a model are built from its access domain, with the hierarchy leaves resolved against the
data.  One model after the other is compiled, from the models that a request names on to those that
the rules themselves reach.

**Failures.**  A model whose rules cannot be built does not fail the request: the reason is recorded
under the model, and reading its rules fails later (`RuleSet.ensureEvaluated`).  An error of the
database does, and so does the need for a round trip (`isFatal`).

**What is read.**  `Reader` is all that building a model's rules reads: the access data, what the
expressions of rows read, the context, and the answers of the database.  `SameReads` says where two
of them are the same for a model, and `builtEntry_congr` that the rules are the same there;
`Rules/Sharing` takes it over runs.

* `buildRules` — the rule node of a model.
* `Work`, `Work.next` — the models that are left to compile, and the compilation of the next one.
* `RuleSet.entry`, `builtEntry` — what a rule set holds of a model, and what building it again gives.
* `Work.next_spec` — what compiling the next model does to a rule set.
-/

namespace OdooKernel

/-! ## Building the rules of a model -/

/-- What all requests share: the registry, the access data that the database holds at given security
signals, the doubles of the platform, and the bound on nested calls. -/
structure RuleSetting where
  registry : Registry
  accessAt : Signals → Security
  toDouble : ℚ → Option ℚ
  calls : ℕ

/-- What rules are built from: access data, a snapshot, and the context of a request. -/
structure Reader where
  security : Security
  db : Database
  ctx : ExprCtx

/-- The rules of a model out of its access domain. -/
def resolveRules (registry : Registry) (model : Model) (domain : Json) : Asking Node := do
  let node ← (parse domain : Result Node)
  (rejectInternalOperators node : Result Unit)
  let resolved ← resolveHierarchy registry false model domain
  let node ← (parse resolved : Result Node)
  return foldConstants node

/-- The rules of a model out of what `rulesDomain` returns. -/
def rulesProgram (registry : Registry) (model : Model) :
    Result (Option Json) → Asking (Option Node)
  | .error e => Asking.ofCompile (.error e)
  | .ok none => pure none
  | .ok (some domain) => do return some (← resolveRules registry model domain)

/-- The models that a path leads to, as far as the registry has them. -/
def comodelsAlong (registry : Registry) : Model → List String → List String
  | _, [] => []
  | m, step :: path =>
    match (m.fields.get? step).bind (·.relation) with
    | none => []
    | some co => co :: (registry.lookup co).elim [] fun next => comodelsAlong registry next path

/-- The models that a leaf reaches, beside those reached before.  A sub-domain is one on the last
model that was reached. -/
def comodelsStep (registry : Registry) (nested : Model → Node → List String) (model : Model)
    (out : List String) (leaf : Leaf) : List String :=
  match (registry.paths.normalizePath model (splitDots leaf.field)).toOption with
  | none => out
  | some path =>
    let out := out ++ comodelsAlong registry model path
    match out.getLast?.bind registry.lookup, parseNested leaf.value with
    | some _, some .True => out
    | some co, some sub => out ++ nested co sub
    | _, _ => out

/-- The models that a domain reaches, through so many levels of sub-domains. -/
def comodelsOf (registry : Registry) : ℕ → Model → Node → List String
  | 0, _, _ => []
  | levels + 1, model, node =>
    (leaves node).foldl (comodelsStep registry (comodelsOf registry levels) model) []

/-- The columns among what was recorded. -/
def touchedOf (log : List Event) : List (String × String) :=
  log.filterMap fun
    | .touch model field => some (model, field)
    | _ => none

section Build

variable (setting : RuleSetting) (user : UserCtx)

/-- What the access rows are evaluated with. -/
def Reader.source (r : Reader) : RowSource where
  security := r.security
  ev := rulesEvaluator setting.registry r.security setting.toDouble r.db user

/-- The access domain of a model. -/
def accessDomain (r : Reader) (name : String) : Result (Option Json) :=
  rulesDomain setting.registry (r.source setting user).security (r.source setting user).ev user name

/-- The context that rules are resolved in. -/
def Reader.rulesCtx (r : Reader) : ExprCtx := { r.ctx.forRules with registry := setting.registry }

/-- What the resolution asks of a reader. -/
def Reader.answers (r : Reader) : ∀ q : Question, q.Answer :=
  answersOf setting.calls (r.rulesCtx setting) r.db none

/-- **The rules of a model**, `none` when nothing restricts it. -/
def buildRules (r : Reader) (name : String) (model : Model) : Compile (Option Node) :=
  (rulesProgram setting.registry model (accessDomain setting user r name)).run (r.answers setting)

/-- The models that are left to compile, those that were met, and the rules so far. -/
structure Work where
  pending : List String
  seen : List String
  rules : RuleSet

/-- An error that ends the request rather than one model's rules. -/
def isFatal : KernelError → Bool
  | .database _ | .needsRoundTrip => true
  | _ => false

namespace Work

/-- One more model to compile, unless it was met. -/
def push (w : Work) (name : String) : Work :=
  if name ∈ w.seen then w else { w with pending := name :: w.pending, seen := name :: w.seen }

/-- The rules of a model are there, or the reason why they could not be built. -/
def record (w : Work) (name : String) (model : Model) (built : Compile (Option Node)) :
    Result Work :=
  match built with
  | .ok (some node, log) =>
    let w := (comodelsOf setting.registry (valueDepth node + 1) model node).foldl push w
    .ok { w with rules := (w.rules.noteReads name (touchedOf log)).insert name node }
  | .ok (none, _) => .ok { w with rules := w.rules.markUnrestricted name }
  | .error e =>
    if isFatal e then .error e
    else .ok { w with rules := w.rules.markUnevaluated name (errorText e) }

/-- **The next model is compiled**, if one is left. -/
def next (r : Reader) (w : Work) : Option (Result Work) :=
  match w.pending with
  | [] => none
  | name :: pending =>
    let w := ((setting.registry.inheritsOf name).map (·.1)).foldl push { w with pending }
    match setting.registry.lookup name with
    | none => some (.ok w)
    | some model => some (w.record setting name model (buildRules setting user r name model))

/-- The models that a request names and that are not compiled yet. -/
def start (base : Option RuleSet) (ruled seeds : List String) : Work :=
  let rules := base.getD (RuleSet.withRuled ruled)
  let left := (seeds.dedup.insertionSort (· ≤ ·)).filter (!rules.isCompiled ·)
  { pending := left.reverse, seen := left ++ rules.compiled, rules }

end Work

/-! ## What a rule set holds -/

/-- What a rule set holds of a model: its rules, or the reason why there are none. -/
def RuleSet.entry (rules : RuleSet) (name : String) : Option Node × Option String :=
  (rules.domains.get? name, rules.unevaluated.get? name)

/-- What is recorded of a model's rules. -/
def entryOf : Compile (Option Node) → Option Node × Option String
  | .ok (node, _) => (node, none)
  | .error e => (none, some (errorText e))

/-- **What building a model's rules gives.** -/
def builtEntry (r : Reader) (name : String) : Option Node × Option String :=
  match setting.registry.lookup name with
  | some model => entryOf (buildRules setting user r name model)
  | none => (none, none)

/-- **Building the rules of a model reads the same from two readers**: the rows and what their
expressions read, and the answers to what the resolution asks. -/
structure SameReads (r r' : Reader) (name : String) : Prop where
  rows : RowsAgree setting.registry user (r.source setting user) (r'.source setting user) name
  asked : ∀ model, setting.registry.lookup name = some model →
    ∀ q ∈ (rulesProgram setting.registry model (accessDomain setting user r name)).asked
      (r.answers setting), r.answers setting q = r'.answers setting q

variable {setting user} {r r' : Reader} {name : String}

lemma buildRules_congr {model : Model}
    (hdomain : accessDomain setting user r name = accessDomain setting user r' name)
    (hasked : ∀ q ∈ (rulesProgram setting.registry model (accessDomain setting user r name)).asked
      (r.answers setting), r.answers setting q = r'.answers setting q) :
    buildRules setting user r name model = buildRules setting user r' name model := by
  unfold buildRules
  rw [← hdomain]
  exact Ask.run_congr _ hasked

/-- **The rules depend on what is read for them only.** -/
theorem builtEntry_congr (h : SameReads setting user r r' name) :
    builtEntry setting user r name = builtEntry setting user r' name := by
  have hdomain : accessDomain setting user r name = accessDomain setting user r' name :=
    rulesDomain_congr h.rows
  unfold builtEntry
  cases hmodel : setting.registry.lookup name with
  | none => rfl
  | some model => simp only [buildRules_congr hdomain (h.asked model hmodel)]

end Build

/-! ## What a compilation does to a rule set -/

namespace RuleSet

variable (rules : RuleSet) (name other : String)

@[simp] lemma entry_noteReads (reads : List (String × String)) :
    (rules.noteReads name reads).entry other = rules.entry other := by
  unfold noteReads
  split <;> rfl

@[simp] lemma compiled_noteReads (reads : List (String × String)) :
    (rules.noteReads name reads).compiled = rules.compiled := by
  unfold noteReads
  split <;> rfl

lemma entry_insert (node : Node) :
    (rules.insert name node).entry other
      = if name = other then (some node, (rules.entry name).2) else rules.entry other := by
  simp only [entry, insert, Dict.get?_insert]
  split
  · next h => rw [h]
  · rfl

lemma entry_markUnevaluated (reason : String) :
    (rules.markUnevaluated name reason).entry other
      = if name = other then ((rules.entry name).1, some reason) else rules.entry other := by
  simp only [entry, markUnevaluated, Dict.get?_insert]
  split
  · next h => rw [h]
  · rfl

/-- Nothing is held of a model that was not compiled. -/
def Consistent : Prop := ∀ name, name ∉ rules.compiled → rules.entry name = (none, none)

lemma consistent_withRuled (ruled : List String) : (withRuled ruled).Consistent := fun _ _ => rfl

end RuleSet

namespace Work

/-- Every model is compiled once: what is left to compile was met and is not compiled. -/
structure Consistent (w : Work) : Prop where
  rules : w.rules.Consistent
  nodup : w.pending.Nodup
  pending_seen : ∀ name ∈ w.pending, name ∈ w.seen
  compiled_seen : ∀ name ∈ w.rules.compiled, name ∈ w.seen
  pending_new : ∀ name ∈ w.pending, name ∉ w.rules.compiled

/-- A model that was taken to be compiled. -/
structure Taken (w : Work) (name : String) : Prop where
  consistent : w.Consistent
  seen : name ∈ w.seen
  not_pending : name ∉ w.pending
  not_compiled : name ∉ w.rules.compiled

@[simp] lemma push_rules (w : Work) (name : String) : (w.push name).rules = w.rules := by
  unfold push
  split <;> rfl

lemma Consistent.push {w : Work} (h : w.Consistent) (name : String) : (w.push name).Consistent := by
  unfold Work.push
  split
  · exact h
  · next hnew =>
      refine ⟨h.rules, ?_, ?_, ?_, ?_⟩
      · exact List.nodup_cons.mpr ⟨fun hmem => hnew (h.pending_seen _ hmem), h.nodup⟩
      · intro other hother
        rcases List.mem_cons.mp hother with rfl | hother
        · exact List.mem_cons_self
        · exact List.mem_cons_of_mem _ (h.pending_seen _ hother)
      · exact fun other hother => List.mem_cons_of_mem _ (h.compiled_seen _ hother)
      · intro other hother
        rcases List.mem_cons.mp hother with rfl | hother
        · exact fun hmem => hnew (h.compiled_seen _ hmem)
        · exact h.pending_new _ hother

lemma Taken.push {w : Work} {name : String} (h : w.Taken name) (other : String) :
    (w.push other).Taken name := by
  refine ⟨h.consistent.push other, ?_, ?_, by rw [push_rules]; exact h.not_compiled⟩
  · unfold Work.push
    split
    · exact h.seen
    · exact List.mem_cons_of_mem _ h.seen
  · unfold Work.push
    split
    · exact h.not_pending
    · next hnew =>
        intro hmem
        rcases List.mem_cons.mp hmem with rfl | hmem
        · exact hnew h.seen
        · exact h.not_pending hmem

lemma foldl_push_rules (names : List String) : ∀ w : Work, (names.foldl push w).rules = w.rules := by
  induction names with
  | nil => exact fun _ => rfl
  | cons name names ih => exact fun w => (ih _).trans (push_rules w name)

lemma Taken.foldl_push {name : String} (names : List String) :
    ∀ {w : Work}, w.Taken name → (names.foldl Work.push w).Taken name := by
  induction names with
  | nil => exact fun h => h
  | cons other names ih => exact fun h => ih (h.push other)

/-- The model that was taken is compiled, and what is held of it is given. -/
lemma Taken.compiled {w : Work} {name : String} (h : w.Taken name) {rules : RuleSet}
    (hcompiled : rules.compiled = name :: w.rules.compiled)
    (hothers : ∀ other, other ≠ name → rules.entry other = w.rules.entry other) :
    ({ w with rules } : Work).Consistent := by
  refine ⟨?_, h.consistent.nodup, h.consistent.pending_seen, ?_, ?_⟩
  · intro other hother
    rw [hcompiled, List.mem_cons, not_or] at hother
    rw [hothers other hother.1]
    exact h.consistent.rules other hother.2
  · intro other hother
    rw [hcompiled] at hother
    rcases List.mem_cons.mp hother with rfl | hother
    · exact h.seen
    · exact h.consistent.compiled_seen other hother
  · intro other hother hmem
    rw [hcompiled] at hmem
    rcases List.mem_cons.mp hmem with rfl | hmem
    · exact h.not_pending hother
    · exact h.consistent.pending_new other hother hmem

/-- What a step does to the rules: one model more is compiled, to what was built. -/
structure Adds (w w' : Work) (name : String) (entry : Option Node × Option String) : Prop where
  consistent : w'.Consistent
  compiled : w'.rules.compiled = name :: w.rules.compiled
  own : w'.rules.entry name = entry
  others : ∀ other, other ≠ name → w'.rules.entry other = w.rules.entry other

lemma record_spec {setting : RuleSetting} {w w' : Work} {name : String} {model : Model}
    {built : Compile (Option Node)} (h : w.Taken name)
    (hrecord : w.record setting name model built = .ok w') : w.Adds w' name (entryOf built) := by
  have hempty : w.rules.entry name = (none, none) := h.consistent.rules name h.not_compiled
  unfold record at hrecord
  split at hrecord
  · next node log =>
      obtain rfl := Except.ok.inj hrecord
      have htaken := h.foldl_push (comodelsOf setting.registry (valueDepth node + 1) model node)
      have hrules := foldl_push_rules
        (comodelsOf setting.registry (valueDepth node + 1) model node) w
      refine ⟨htaken.compiled ?_ ?_, ?_, ?_, ?_⟩
      · simp [RuleSet.insert]
      · intro other hother
        rw [RuleSet.entry_insert, if_neg hother.symm, RuleSet.entry_noteReads]
      · simp [RuleSet.insert, hrules]
      · simp [RuleSet.entry_insert, hrules, hempty, entryOf]
      · intro other hother
        simp only [RuleSet.entry_insert, if_neg hother.symm, RuleSet.entry_noteReads, hrules]
  · next log =>
      obtain rfl := Except.ok.inj hrecord
      exact ⟨h.compiled rfl fun _ _ => rfl, rfl, hempty, fun _ _ => rfl⟩
  · next e =>
      split at hrecord
      · simp at hrecord
      · obtain rfl := Except.ok.inj hrecord
        refine ⟨h.compiled rfl ?_, rfl, ?_, ?_⟩
        · intro other hother
          rw [RuleSet.entry_markUnevaluated, if_neg hother.symm]
        · simp only [RuleSet.entry_markUnevaluated, if_true, hempty, entryOf]
        · intro other hother
          simp only [RuleSet.entry_markUnevaluated, if_neg hother.symm]

/-- **What compiling the next model does**: nothing to the rules where the registry does not have the
model, and what was built is recorded where it does. -/
lemma next_spec {setting : RuleSetting} {user : UserCtx} {r : Reader} {w w' : Work}
    (h : w.Consistent) (hnext : w.next setting user r = some (.ok w')) :
    ∃ name pending, w.pending = name :: pending ∧
      ((setting.registry.lookup name = none ∧ w'.rules = w.rules ∧ w'.Consistent) ∨
        w.Adds w' name (builtEntry setting user r name)) := by
  unfold next at hnext
  split at hnext
  · simp at hnext
  · next name pending hpending =>
      refine ⟨name, pending, hpending, ?_⟩
      have hnodup := h.nodup
      rw [hpending, List.nodup_cons] at hnodup
      have htaken : ({ w with pending } : Work).Taken name := by
        refine ⟨⟨h.rules, hnodup.2, ?_, h.compiled_seen, ?_⟩, ?_, hnodup.1, ?_⟩
        · exact fun other hother => h.pending_seen other (by simp [hpending, hother])
        · exact fun other hother => h.pending_new other (by simp [hpending, hother])
        · exact h.pending_seen name (by simp [hpending])
        · exact h.pending_new name (by simp [hpending])
      have hpushed := htaken.foldl_push ((setting.registry.inheritsOf name).map (·.1))
      have hrules := foldl_push_rules ((setting.registry.inheritsOf name).map (·.1))
        { w with pending }
      simp only at hnext
      split at hnext
      · next hlookup =>
          obtain rfl := Except.ok.inj (Option.some.inj hnext)
          exact .inl ⟨hlookup, hrules, hpushed.consistent⟩
      · next model hlookup =>
          obtain ⟨hconsistent, hcompiled, hown, hothers⟩ :=
            record_spec hpushed (Option.some.inj hnext)
          rw [hrules] at hcompiled hothers
          refine .inr ⟨hconsistent, hcompiled, ?_, hothers⟩
          rw [hown, builtEntry, hlookup]

lemma consistent_start {base : Option RuleSet} (hbase : ∀ rules ∈ base, rules.Consistent)
    (ruled seeds : List String) : (start base ruled seeds).Consistent := by
  have hrules : (base.getD (RuleSet.withRuled ruled)).Consistent := by
    cases base with
    | none => exact RuleSet.consistent_withRuled ruled
    | some rules => exact hbase rules rfl
  refine ⟨hrules, ?_, ?_, ?_, ?_⟩
  · refine List.nodup_reverse.mpr (List.Nodup.filter _ ?_)
    exact (List.perm_insertionSort _ _).nodup_iff.mpr (List.nodup_dedup _)
  · exact fun name hname => List.mem_append_left _ (List.mem_reverse.mp hname)
  · exact fun name hname => List.mem_append_right _ hname
  · intro name hname
    have := (List.mem_filter.mp (List.mem_reverse.mp hname)).2
    simpa [start, RuleSet.isCompiled] using this

@[simp] lemma start_rules (base : Option RuleSet) (ruled seeds : List String) :
    (start base ruled seeds).rules = base.getD (RuleSet.withRuled ruled) := rfl

end Work

end OdooKernel
