import OdooKernel.Shim.Routing

/-!
# What routing keeps

However the threads take turns, and whatever Python makes of a call while it lasts.  A step of a call
is one read or write of what the threads share (`Routing.advance`), and the calls that Python makes
inside a call are on the stack above it.

**What a step can do.**  `Advances` says it once, by the phase that the step is taken from, and every
invariant is kept by cases on it: what the phase of a call tells of its record (`RoutePhase.Knows`),
that the depth of a thread is the number of baselines on its stack, and that a call above a baseline
is quiet.

**The results.**

* **`asks_in_no_baseline`** — a baseline is Python's own: no call that is made in it asks the kernel.
* **`answered_by_one`** — a call answers what its own wrapped method gave, which is called at most
  once, or what the kernel did.
-/

namespace OdooKernel

variable {τ κ ν ε : Type} {r : Routing κ ν ε}

/-! ## What a step can do -/

namespace RoutePhase

/-- The phases from which a call is left to Python. -/
inductive Leaves : RoutePhase ν ε → Prop where
  | entered : Leaves .entered
  | screened : Leaves .screened
  | unquarantined : Leaves .unquarantined
  | gating : Leaves .gating
  | trying (asked : Bool) : Leaves (.trying asked)
  | counted : Leaves .counted

/-- A wrapped method runs for comparison. -/
def isBaseline : RoutePhase ν ε → Bool
  | .baseline _ => true
  | _ => false

/-- A call that asks nothing and compares nothing. -/
def Quiet (p : RoutePhase ν ε) : Prop := p = .entered ∨ p = .original

end RoutePhase

/-- **What a step can do** to the call it is about. -/
inductive Advances (r : Routing κ ν ε) (stats : RouteStats) (depth : ℕ) (record : CallRecord κ ν ε)
    (c : κ) : RoutePhase ν ε → CallStep κ ν ε → Prop where
  | leaves {p : RoutePhase ν ε} (hp : p.Leaves) {stats' : RouteStats} (hmode : stats'.mode = stats.mode)
      (hquarantined : stats'.quarantined = stats.quarantined) :
      Advances r stats depth record c p ⟨stats', depth, record, .goes .original⟩
  | raises {p : RoutePhase ν ε} (hp : p.Leaves) (e : ε) :
      Advances r stats depth record c p ⟨stats, depth, record, .answers (.raised e)⟩
  | screens (hdepth : depth = 0) :
      Advances r stats depth record c .entered ⟨stats, depth, record, .goes .screened⟩
  | clears (hfree : r.model c ∉ stats.quarantined) :
      Advances r stats depth record c .screened ⟨stats, depth, record, .goes .unquarantined⟩
  | gates : Advances r stats depth record c .unquarantined ⟨stats, depth, record, .goes .gating⟩
  | tries : Advances r stats depth record c .gating ⟨stats, depth, record, .goes (.trying false)⟩
  | asks (b : Bool) : Advances r stats depth record c (.trying b)
      ⟨stats, depth, { record with asked := record.asked + 1 }, .goes (.trying true)⟩
  | computes (v : ν) : Advances r stats depth record c (.trying true)
      ⟨stats, depth, { record with computed := some v }, .goes (.computed v)⟩
  | fails (b : Bool) : Advances r stats depth record c (.trying b) ⟨stats, depth, record, .goes .failed⟩
  | counts (n : ℕ) : Advances r stats depth record c .failed ⟨stats, depth, record, .goes (.counting n)⟩
  | notes (n : ℕ) {stats' : RouteStats} (hmode : stats'.mode = stats.mode)
      (hquarantined : stats'.quarantined = stats.quarantined) :
      Advances r stats depth record c (.counting n) ⟨stats', depth, record, .goes .counted⟩
  | unshadows {v : ν} (hmode : stats.mode ≠ .shadow) :
      Advances r stats depth record c (.computed v) ⟨stats, depth, record, .goes (.unshadowed v)⟩
  | verifies {p : RoutePhase ν ε} {v : ν} (hp : p = .computed v ∨ p = .unshadowed v) :
      Advances r stats depth record c p ⟨stats, depth + 1, record, .goes (.baseline v)⟩
  | returns (v : ν) :
      Advances r stats depth record c (.unshadowed v) ⟨stats, depth, record, .answers (.value v)⟩
  | finishes (o : CallOutcome ν ε) : Advances r stats depth record c .original
      ⟨stats, depth, { record with originals := o :: record.originals }, .answers o⟩
  | compares (v w : ν) : Advances r stats depth record c (.baseline v)
      ⟨stats, depth - 1, { record with originals := .value w :: record.originals },
        .goes (.compared v w)⟩
  | interrupts (v : ν) {e : ε} (he : r.kind e = .notException) :
      Advances r stats depth record c (.baseline v)
        ⟨stats, depth - 1, { record with originals := .raised e :: record.originals },
          .answers (.raised e)⟩
  | diverges (v : ν) {e : ε} (he : r.kind e ≠ .notException) :
      Advances r stats depth record c (.baseline v)
        ⟨stats, depth - 1, { record with originals := .raised e :: record.originals },
          .goes (.quarantining (.raised e))⟩
  | agrees {v w : ν} (hsame : r.same c v w = true) :
      Advances r stats depth record c (.compared v w) ⟨stats, depth, record, .answers (.value w)⟩
  | disagrees {v w : ν} : Advances r stats depth record c (.compared v w)
      ⟨stats, depth, record, .goes (.quarantining (.value w))⟩
  | quarantines (o : CallOutcome ν ε) : Advances r stats depth record c (.quarantining o)
      ⟨stats.quarantine (r.model c), depth, record, .answers o⟩

lemma advances_of_advance {stats : RouteStats} {depth : ℕ} {record : CallRecord κ ν ε} {c : κ}
    {p : RoutePhase ν ε} {a : CallAction κ ν ε} {s : CallStep κ ν ε}
    (h : r.advance stats depth record c p a = some s) : Advances r stats depth record c p s := by
  unfold Routing.advance at h
  split at h
  case h_1 =>
    cases h
    exact .leaves .entered rfl rfl
  case h_2 =>
    cases h
    exact .leaves .gating rfl rfl
  case h_3 e _ =>
    cases h
    exact .raises .entered e
  case h_4 e _ =>
    cases h
    exact .raises .gating e
  case h_5 =>
    cases h
    split_ifs with hallowed
    · simp only [Bool.and_eq_true, decide_eq_true_eq] at hallowed
      exact .screens hallowed.1.2
    · exact .leaves .entered rfl rfl
  case h_6 =>
    cases h
    split_ifs with hquarantined
    · exact .leaves .screened rfl rfl
    · exact .clears hquarantined
  case h_7 =>
    split_ifs at h
    · cases h
      exact .leaves .unquarantined rfl rfl
    · cases h
      exact .gates
  case h_8 =>
    cases h
    exact .tries
  case h_9 asked =>
    cases h
    exact .asks asked
  case h_10 v =>
    cases h
    exact .computes v
  case h_11 asked e _ =>
    split_ifs at h
    · cases h
      exact .raises (.trying asked) e
    · cases h
      exact .leaves (.trying asked) rfl rfl
    · cases h
      exact .fails asked
  case h_12 =>
    cases h
    exact .counts _
  case h_13 n =>
    cases h
    exact .notes n rfl rfl
  case h_14 =>
    cases h
    cases stats.errorsByModel.get? (r.model c) with
    | none => exact .raises .counted r.keyError
    | some _ => exact .leaves .counted rfl rfl
  case h_15 v =>
    split_ifs at h with hshadow
    · cases h
      exact .verifies (Or.inl rfl)
    · cases h
      exact .unshadows hshadow
  case h_16 v _ =>
    split_ifs at h
    · cases h
      exact .verifies (Or.inr rfl)
    · cases h
      exact .returns v
  case h_17 outcome =>
    cases h
    exact .finishes outcome
  case h_18 v outcome =>
    cases outcome with
    | value w =>
        cases h
        exact .compares v w
    | raised e =>
        cases h
        dsimp only
        split_ifs with he
        · exact .interrupts v he
        · exact .diverges v he
  case h_19 v w =>
    cases h
    split_ifs with hsame
    · exact .agrees hsame
    · exact .disagrees
  case h_20 outcome =>
    cases h
    exact .quarantines outcome
  case h_21 => cases h

lemma Routing.phase_of_ask {stats : RouteStats} {depth : ℕ} {record : CallRecord κ ν ε} {c : κ}
    {p : RoutePhase ν ε} {s : CallStep κ ν ε} (h : r.advance stats depth record c p .ask = some s) :
    ∃ asked, p = .trying asked := by
  cases p with
  | trying asked => exact ⟨asked, rfl⟩
  | _ => cases h

/-! ## Baselines -/

namespace RoutePhase

/-- How many baselines a call is. -/
def weight (p : RoutePhase ν ε) : ℕ := if p.isBaseline then 1 else 0

end RoutePhase

/-- How many baselines a call is after a step. -/
def CallNext.weight : CallNext ν ε → ℕ
  | .goes p => p.weight
  | .answers _ => 0

namespace Advances

variable {stats : RouteStats} {depth : ℕ} {record : CallRecord κ ν ε} {c : κ} {p : RoutePhase ν ε}
  {s : CallStep κ ν ε}

/-- The depth changes with the number of baselines. -/
lemma depth_eq (h : Advances r stats depth record c p s) (hle : p.weight ≤ depth) :
    s.depth + p.weight = depth + s.next.weight := by
  cases h with
  | leaves hp => cases hp <;> rfl
  | raises hp => cases hp <;> rfl
  | verifies hp => rcases hp with rfl | rfl <;> rfl
  | compares | interrupts | diverges =>
      simp only [RoutePhase.weight, RoutePhase.isBaseline, CallNext.weight, if_true,
        Bool.false_eq_true, if_false] at hle ⊢
      omega
  | _ => rfl

/-- In a baseline a call asks nothing. -/
lemma quiet (h : Advances r stats depth record c p s) (hp : p.Quiet) (hdepth : 0 < depth)
    {p' : RoutePhase ν ε} (hnext : s.next = .goes p') : p' = .original := by
  rcases hp with rfl | rfl
  · cases h with
    | leaves => exact (CallNext.goes.inj hnext).symm
    | screens hzero => omega
    | raises => cases hnext
    | verifies hp => rcases hp with hp | hp <;> cases hp
  · cases h with
    | leaves hp => cases hp
    | raises hp => cases hp
    | verifies hp => rcases hp with hp | hp <;> cases hp
    | finishes => cases hnext

end Advances

namespace CallThread

variable {th th' : CallThread κ ν ε} {stats stats' : RouteStats} {a : CallAction κ ν ε}

/-- What a setting changes. -/
inductive Sets (stats : RouteStats) : CallAction κ ν ε → RouteStats → Prop where
  | mode (mode : RouteMode) : Sets stats (.setMode mode) { stats with mode }
  | sample (sampling : Bool) : Sets stats (.setSample sampling) { stats with sampling }
  | reset (name : Option String) : Sets stats (.resetBreaker name) (stats.resetBreaker name)

lemma stepTop_cases (h : th.stepTop r stats a = some (stats', th')) :
    ∃ f rest s, th.stack = f :: rest ∧ stats' = s.stats ∧ th' = th.goes f rest s ∧
      Advances r stats th.depth (th.record f.number) f.call f.phase s := by
  unfold stepTop at h
  cases hstack : th.stack with
  | nil =>
      rw [hstack] at h
      cases h
  | cons f rest =>
      rw [hstack] at h
      obtain ⟨s, hs, heq⟩ := Option.map_eq_some_iff.mp h
      cases heq
      exact ⟨f, rest, s, rfl, rfl, rfl, advances_of_advance hs⟩

/-- **What a step of a thread can be**: a setting, a new call, or a step of the call on top. -/
lemma step_cases (h : th.step r stats a = some (stats', th')) :
    (th' = th ∧ Sets stats a stats') ∨ (stats' = stats ∧ ∃ c, th' = th.enter c) ∨
    ∃ f rest s, th.stack = f :: rest ∧ stats' = s.stats ∧ th' = th.goes f rest s ∧
      Advances r stats th.depth (th.record f.number) f.call f.phase s := by
  cases a with
  | setMode mode =>
      cases h
      exact Or.inl ⟨rfl, .mode mode⟩
  | setSample sampling =>
      cases h
      exact Or.inl ⟨rfl, .sample sampling⟩
  | resetBreaker name =>
      cases h
      exact Or.inl ⟨rfl, .reset name⟩
  | call c =>
      unfold step at h
      dsimp only at h
      split_ifs at h
      cases h
      exact Or.inr (Or.inl ⟨rfl, c, rfl⟩)
  | _ => exact Or.inr (Or.inr (stepTop_cases h))

/-- A thread knows the baselines it is in, and what runs in one is Python's. -/
structure Nested (th : CallThread κ ν ε) : Prop where
  depth : th.depth = th.stack.countP (·.phase.isBaseline)
  quiet : th.stack.Pairwise fun f g => g.phase.isBaseline = true → f.phase.Quiet

/-- A baseline below a call is counted. -/
lemma Nested.pos (h : Nested th) {f g : RoutedCall κ ν ε} {rest : List (RoutedCall κ ν ε)}
    (hstack : th.stack = f :: rest) (hg : g ∈ rest) (hbaseline : g.phase.isBaseline = true) :
    0 < th.depth := by
  rw [h.depth, hstack]
  exact List.countP_pos_iff.mpr ⟨g, List.mem_cons_of_mem _ hg, hbaseline⟩

lemma Nested.enter (h : Nested th) (c : κ) : Nested (th.enter c) := by
  refine ⟨?_, ?_⟩
  · show th.depth = List.countP _ (_ :: th.stack)
    rw [List.countP_cons_of_neg (by simp [RoutePhase.isBaseline])]
    exact h.depth
  · exact List.pairwise_cons.mpr ⟨fun g _ _ => Or.inl rfl, h.quiet⟩

lemma Nested.goes (h : Nested th) {f : RoutedCall κ ν ε} {rest : List (RoutedCall κ ν ε)}
    {s : CallStep κ ν ε} (hstack : th.stack = f :: rest)
    (hs : Advances r stats th.depth (th.record f.number) f.call f.phase s) :
    Nested (th.goes f rest s) := by
  have hdepth := h.depth
  rw [hstack, List.countP_cons] at hdepth
  have hquiet := h.quiet
  rw [hstack, List.pairwise_cons] at hquiet
  have hweight := hs.depth_eq (by rw [hdepth]; exact Nat.le_add_left _ _)
  unfold CallThread.goes
  cases hnext : s.next with
  | goes p' =>
      rw [hnext] at hweight
      refine ⟨?_, List.pairwise_cons.mpr ⟨?_, hquiet.2⟩⟩
      · show s.depth = List.countP _ ({ f with phase := p' } :: rest)
        rw [List.countP_cons]
        show s.depth = _ + if p'.isBaseline = true then 1 else 0
        simp only [CallNext.weight, RoutePhase.weight] at hweight
        omega
      · intro g hg hbaseline
        exact Or.inr (hs.quiet (hquiet.1 g hg hbaseline) (h.pos hstack hg hbaseline) hnext)
  | answers o =>
      rw [hnext] at hweight
      refine ⟨?_, hquiet.2⟩
      show s.depth = List.countP _ rest
      simp only [CallNext.weight, RoutePhase.weight] at hweight
      omega

lemma Nested.step (h : Nested th) (hstep : th.step r stats a = some (stats', th')) : Nested th' := by
  rcases step_cases hstep with ⟨rfl, _⟩ | ⟨_, c, rfl⟩ | ⟨f, rest, s, hstack, _, rfl, hs⟩
  · exact h
  · exact h.enter c
  · exact h.goes hstack hs

/-- A thread is in one baseline at most. -/
lemma Nested.depth_le_one (h : Nested th) : th.depth ≤ 1 := by
  have hquiet := h.quiet
  rw [h.depth]
  generalize th.stack = stack at hquiet
  induction stack with
  | nil => exact Nat.zero_le _
  | cons f rest ih =>
      rw [List.pairwise_cons] at hquiet
      rw [List.countP_cons]
      have hrest := ih hquiet.2
      cases hf : f.phase.isBaseline with
      | false => simpa using hrest
      | true =>
          have hnone : rest.countP (·.phase.isBaseline) = 0 := by
            refine List.countP_eq_zero.mpr fun g hg hbaseline => ?_
            rcases hquiet.1 g hg hbaseline with hphase | hphase <;>
              simp [hphase, RoutePhase.isBaseline] at hf
          simp [hnone]

/-- A call that asks the kernel is in no baseline. -/
lemma Nested.depth_of_ask (h : Nested th) (hstep : th.step r stats .ask = some (stats', th')) :
    th.depth = 0 := by
  change th.stepTop r stats .ask = _ at hstep
  have hdepth := h.depth
  have hquiet := h.quiet
  unfold stepTop at hstep
  cases hstack : th.stack with
  | nil =>
      rw [hstack] at hstep
      cases hstep
  | cons f rest =>
      rw [hstack] at hstep hdepth hquiet
      obtain ⟨s, hs, _⟩ := Option.map_eq_some_iff.mp hstep
      obtain ⟨asked, hphase⟩ := Routing.phase_of_ask hs
      rw [hdepth, List.countP_eq_zero]
      refine List.forall_mem_cons.mpr ⟨?_, ?_⟩
      · simp [hphase, RoutePhase.isBaseline]
      · intro g hg hbaseline
        rcases (List.pairwise_cons.mp hquiet).1 g hg hbaseline with hentered | horiginal
        · cases hphase.symm.trans hentered
        · cases hphase.symm.trans horiginal

end CallThread

/-! ## What comes of a call -/

/-- What is known of a call while it lasts. -/
def RoutePhase.Knows : RoutePhase ν ε → CallRecord κ ν ε → Prop
  | .trying asked, record =>
    record.originals = [] ∧ record.computed = none ∧ (asked = true → 0 < record.asked)
  | .computed v, record | .unshadowed v, record | .baseline v, record =>
    record.originals = [] ∧ record.computed = some v ∧ 0 < record.asked
  | .compared v w, record => record.originals = [.value w] ∧ record.computed = some v
  | .quarantining o, record => record.originals = [o]
  | _, record => record.originals = [] ∧ record.computed = none

/-- What the caller of a call may get: the answer of the wrapped method, or one that was computed from
what the kernel gave. -/
def CallRecord.Entitles (record : CallRecord κ ν ε) (o : CallOutcome ν ε) : Prop :=
  record.originals = [o] ∨
    record.originals = [] ∧ ∀ v, o = .value v → record.computed = some v ∧ 0 < record.asked

/-- What is known of a call after a step. -/
def CallNext.Knows : CallNext ν ε → CallRecord κ ν ε → Prop
  | .goes p, record => p.Knows record
  | .answers o, record => record.Entitles o

namespace Advances

variable {stats : RouteStats} {depth : ℕ} {record : CallRecord κ ν ε} {c : κ} {p : RoutePhase ν ε}
  {s : CallStep κ ν ε}

lemma record_eq (h : Advances r stats depth record c p s) :
    s.record.answers = record.answers ∧ s.record.call = record.call := by
  cases h <;> exact ⟨rfl, rfl⟩

/-- **A step keeps what is known of its call.** -/
lemma knows (h : Advances r stats depth record c p s) (hp : p.Knows record) :
    s.next.Knows s.record := by
  have hleaves : p.Leaves → record.originals = [] ∧ record.computed = none := by
    intro hleaves
    cases hleaves with
    | trying => exact ⟨hp.1, hp.2.1⟩
    | _ => exact hp
  cases h with
  | leaves hl => exact hleaves hl
  | raises hl e => exact Or.inr ⟨(hleaves hl).1, nofun⟩
  | tries => exact ⟨hp.1, hp.2, nofun⟩
  | asks => exact ⟨hp.1, hp.2.1, fun _ => Nat.succ_pos _⟩
  | computes v => exact ⟨hp.1, rfl, hp.2.2 rfl⟩
  | fails => exact ⟨hp.1, hp.2.1⟩
  | verifies hv => rcases hv with rfl | rfl <;> exact hp
  | returns v =>
      refine Or.inr ⟨hp.1, ?_⟩
      rintro w heq
      cases heq
      exact hp.2
  | finishes o => exact Or.inl (congrArg (o :: ·) hp.1)
  | compares v w => exact ⟨congrArg (_ :: ·) hp.1, hp.2.1⟩
  | interrupts => exact Or.inl (congrArg (_ :: ·) hp.1)
  | diverges => exact congrArg (_ :: ·) hp.1
  | agrees => exact Or.inl hp.1
  | disagrees => exact hp.1
  | quarantines => exact Or.inl hp
  | _ => exact hp

end Advances

/-- A call has called the wrapped method once at most, and answered once at most. -/
structure CallRecord.Settled (record : CallRecord κ ν ε) : Prop where
  originals : record.originals.length ≤ 1
  answers : record.answers = [] ∨ ∃ o, record.answers = [o] ∧ record.Entitles o

lemma RoutePhase.Knows.length_originals {p : RoutePhase ν ε} {record : CallRecord κ ν ε}
    (h : p.Knows record) : record.originals.length ≤ 1 := by
  cases p with
  | compared v w => rw [h.1]; exact Nat.le_refl 1
  | quarantining o => rw [h]; exact Nat.le_refl 1
  | _ => rw [h.1]; exact Nat.zero_le 1

namespace CallThread

variable {th th' : CallThread κ ν ε} {stats stats' : RouteStats} {a : CallAction κ ν ε}

/-- A thread knows its calls: those that last are numbered from the bottom of the stack to its top, and
nothing has come yet of those that it has not made. -/
structure KnowsCalls (th : CallThread κ ν ε) : Prop where
  numbers : th.stack.Pairwise fun f g => g.number < f.number
  made : ∀ f ∈ th.stack, f.number < th.calls
  unmade : ∀ n, th.calls ≤ n → th.record n = .start none
  lasting : ∀ f ∈ th.stack, (th.record f.number).call = some f.call ∧
    (th.record f.number).answers = [] ∧ f.phase.Knows (th.record f.number)
  settled : ∀ n, (th.record n).Settled

lemma settled_start (call : Option κ) : (CallRecord.start call : CallRecord κ ν ε).Settled :=
  ⟨Nat.zero_le 1, Or.inl rfl⟩

lemma KnowsCalls.enter (h : KnowsCalls th) (c : κ) : KnowsCalls (th.enter c) := by
  have hother : ∀ {n}, n ≠ th.calls → (th.enter c).record n = th.record n := fun hn =>
    Function.update_of_ne hn _ _
  have hself : (th.enter c).record th.calls = .start (some c) := Function.update_self ..
  refine ⟨List.pairwise_cons.mpr ⟨h.made, h.numbers⟩, ?_, ?_, ?_, ?_⟩
  · refine List.forall_mem_cons.mpr ⟨Nat.lt_succ_self _, ?_⟩
    intro f hf
    exact Nat.lt_succ_of_lt (h.made f hf)
  · intro n hn
    have hlt : th.calls < n := hn
    rw [hother (Nat.ne_of_gt hlt)]
    exact h.unmade n (Nat.le_of_lt hlt)
  · refine List.forall_mem_cons.mpr ⟨?_, ?_⟩
    · show ((th.enter c).record th.calls).call = _ ∧ _
      rw [hself]
      exact ⟨rfl, rfl, rfl, rfl⟩
    · intro f hf
      rw [hother (Nat.ne_of_lt (h.made f hf))]
      exact h.lasting f hf
  · intro n
    by_cases hn : n = th.calls
    · rw [hn, hself]
      exact settled_start _
    · rw [hother hn]
      exact h.settled n

/-- The call on top of a thread has a new record, and is known by it as long as it lasts. -/
lemma KnowsCalls.update (h : KnowsCalls th) {f : RoutedCall κ ν ε} {rest top : List (RoutedCall κ ν ε)}
    (hstack : th.stack = f :: rest) {record : CallRecord κ ν ε} (depth : ℕ) (hsettled : record.Settled)
    (htop : top = [] ∨ ∃ f', top = [f'] ∧ f'.number = f.number ∧
      record.call = some f'.call ∧ record.answers = [] ∧ f'.phase.Knows record) :
    KnowsCalls { th with
      depth, stack := top ++ rest, record := Function.update th.record f.number record } := by
  have hnumbers := h.numbers
  have hmade := h.made
  have hlasting := h.lasting
  rw [hstack] at hmade hlasting hnumbers
  rw [List.pairwise_cons] at hnumbers
  rw [List.forall_mem_cons] at hmade hlasting
  have hother : ∀ {n}, n ≠ f.number → Function.update th.record f.number record n = th.record n :=
    fun hn => Function.update_of_ne hn _ _
  have hrest : ∀ g ∈ rest, Function.update th.record f.number record g.number = th.record g.number :=
    fun g hg => hother (Nat.ne_of_lt (hnumbers.1 g hg))
  have hunmade : ∀ n, th.calls ≤ n → Function.update th.record f.number record n = .start none := by
    intro n hn
    rw [hother (Nat.ne_of_gt (Nat.lt_of_lt_of_le hmade.1 hn))]
    exact h.unmade n hn
  have hall : ∀ n, (Function.update th.record f.number record n).Settled := by
    intro n
    by_cases hn : n = f.number
    · rw [hn, Function.update_self]
      exact hsettled
    · rw [hother hn]
      exact h.settled n
  have hbelow : ∀ g ∈ rest, (Function.update th.record f.number record g.number).call = some g.call ∧
      (Function.update th.record f.number record g.number).answers = [] ∧
      g.phase.Knows (Function.update th.record f.number record g.number) := by
    intro g hg
    rw [hrest g hg]
    exact hlasting.2 g hg
  rcases htop with rfl | ⟨f', rfl, hnumber, hknown⟩
  · exact ⟨hnumbers.2, hmade.2, hunmade, hbelow, hall⟩
  · refine ⟨List.pairwise_cons.mpr ⟨?_, hnumbers.2⟩, List.forall_mem_cons.mpr ⟨?_, hmade.2⟩, hunmade,
      List.forall_mem_cons.mpr ⟨?_, hbelow⟩, hall⟩
    · rw [hnumber]
      exact hnumbers.1
    · rw [hnumber]
      exact hmade.1
    · dsimp only
      rw [hnumber, Function.update_self]
      exact hknown

lemma KnowsCalls.goes (h : KnowsCalls th) {f : RoutedCall κ ν ε} {rest : List (RoutedCall κ ν ε)}
    {s : CallStep κ ν ε} (hstack : th.stack = f :: rest)
    (hs : Advances r stats th.depth (th.record f.number) f.call f.phase s) :
    KnowsCalls (th.goes f rest s) := by
  obtain ⟨hcall, hanswers, hknows⟩ := h.lasting f (by rw [hstack]; exact List.mem_cons_self)
  have hnext := hs.knows hknows
  rw [← hs.record_eq.2] at hcall
  rw [← hs.record_eq.1] at hanswers
  unfold CallThread.goes
  cases hgoes : s.next with
  | goes p =>
      rw [hgoes] at hnext
      refine h.update hstack s.depth ⟨hnext.length_originals, Or.inl hanswers⟩
        (Or.inr ⟨{ f with phase := p }, rfl, rfl, hcall, hanswers, hnext⟩)
  | answers o =>
      rw [hgoes] at hnext
      have hlength : s.record.originals.length ≤ 1 := by
        rcases hnext with horiginals | ⟨horiginals, _⟩
        · exact Nat.le_of_eq (congrArg List.length horiginals)
        · exact Nat.le_trans (Nat.le_of_eq (congrArg List.length horiginals)) (Nat.zero_le 1)
      have hsettled : CallRecord.Settled { s.record with answers := o :: s.record.answers } :=
        ⟨hlength, Or.inr ⟨o, congrArg (o :: ·) hanswers, hnext⟩⟩
      exact h.update hstack s.depth hsettled (Or.inl rfl)

lemma KnowsCalls.step (h : KnowsCalls th) (hstep : th.step r stats a = some (stats', th')) :
    KnowsCalls th' := by
  rcases step_cases hstep with ⟨rfl, _⟩ | ⟨_, c, rfl⟩ | ⟨f, rest, s, hstack, _, rfl, hs⟩
  · exact h
  · exact h.enter c
  · exact h.goes hstack hs

lemma nested_initial : Nested (.initial : CallThread κ ν ε) := ⟨rfl, .nil⟩

lemma knowsCalls_initial : KnowsCalls (.initial : CallThread κ ν ε) :=
  ⟨.nil, nofun, fun _ _ => rfl, nofun, fun _ => settled_start none⟩

end CallThread

/-! ## Whole runs -/

namespace Router

variable [DecidableEq τ] {s s' : Router τ κ ν ε} {t : τ} {a : CallAction κ ν ε}

lemma step_cases (h : s.step r (t, a) = some s') :
    ∃ stats' th', (s.thread t).step r s.stats a = some (stats', th') ∧
      s' = { stats := stats', thread := Function.update s.thread t th' } := by
  obtain ⟨⟨stats', th'⟩, hstep, heq⟩ := Option.map_eq_some_iff.mp h
  exact ⟨stats', th', hstep, heq.symm⟩

/-- What holds of a thread after its step and held of the others holds of all. -/
lemma forall_thread (P : CallThread κ ν ε → Prop) (hs : ∀ t, P (s.thread t)) {th' : CallThread κ ν ε}
    (hth : P th') (t' : τ) : P (Function.update s.thread t th' t') := by
  by_cases ht : t' = t
  · rw [ht, Function.update_self]
    exact hth
  · rw [Function.update_of_ne ht]
    exact hs t'

/-- The threads of a process are in order. -/
def InOrder (s : Router τ κ ν ε) : Prop := ∀ t, (s.thread t).Nested ∧ (s.thread t).KnowsCalls

lemma InOrder.step (h : InOrder s) (hstep : s.step r (t, a) = some s') : InOrder s' := by
  obtain ⟨stats', th', hth, rfl⟩ := step_cases hstep
  exact forall_thread (fun th => th.Nested ∧ th.KnowsCalls) h ⟨(h t).1.step hth, (h t).2.step hth⟩

omit [DecidableEq τ] in
lemma inOrder_initial (mode : RouteMode) (sampling : Bool) :
    InOrder (initial mode sampling : Router τ κ ν ε) := fun _ =>
  ⟨CallThread.nested_initial, CallThread.knowsCalls_initial⟩

lemma inOrder_of_run {mode : RouteMode} {sampling : Bool} {actions : List (τ × CallAction κ ν ε)}
    (h : run (Router.step r) (Router.initial mode sampling) actions = some s) : InOrder s :=
  run_keeps InOrder (fun _ _ _ hs hstep => hs.step hstep) h (inOrder_initial mode sampling)

end Router

variable [DecidableEq τ]

/-- **A baseline is Python's own.**  However the threads take turns and calls nest: a thread knows the
baselines it is in, is in one at most, and asks the kernel in none. -/
theorem asks_in_no_baseline {mode : RouteMode} {sampling : Bool}
    {actions : List (τ × CallAction κ ν ε)} {s : Router τ κ ν ε}
    (h : run (Router.step r) (Router.initial mode sampling) actions = some s) (t : τ) :
    (s.thread t).depth = (s.thread t).stack.countP (·.phase.isBaseline) ∧ (s.thread t).depth ≤ 1 ∧
      ((s.thread t).stack.Pairwise fun f g =>
        g.phase.isBaseline = true → f.phase = .entered ∨ f.phase = .original) ∧
      ∀ s', s.step r (t, .ask) = some s' → (s.thread t).depth = 0 := by
  have hnested := (Router.inOrder_of_run h t).1
  refine ⟨hnested.depth, hnested.depth_le_one, hnested.quiet, ?_⟩
  intro s' hstep
  obtain ⟨stats', th', hth, _⟩ := Router.step_cases hstep
  exact hnested.depth_of_ask hth

/-- **A call answers what its own wrapped method gave, or what the kernel did**: the wrapped method is
called once at most, and a value is its own, or was computed from an answer of the kernel if it was not
called at all. -/
theorem answered_by_one {mode : RouteMode} {sampling : Bool}
    {actions : List (τ × CallAction κ ν ε)} {s : Router τ κ ν ε}
    (h : run (Router.step r) (Router.initial mode sampling) actions = some s) (t : τ) (n : ℕ) :
    ((s.thread t).record n).originals.length ≤ 1 ∧ ((s.thread t).record n).answers.length ≤ 1 ∧
      ∀ v, .value v ∈ ((s.thread t).record n).answers →
        ((s.thread t).record n).originals = [.value v] ∨
          ((s.thread t).record n).originals = [] ∧ ((s.thread t).record n).computed = some v ∧
            0 < ((s.thread t).record n).asked := by
  have hsettled := (Router.inOrder_of_run h t).2.settled n
  refine ⟨hsettled.originals, ?_, ?_⟩
  · rcases hsettled.answers with hnone | ⟨o, hone, _⟩
    · simp [hnone]
    · simp [hone]
  · intro v hv
    rcases hsettled.answers with hnone | ⟨o, hone, hentitles⟩
    · rw [hnone] at hv
      cases hv
    · rw [hone] at hv
      obtain rfl := List.mem_singleton.mp hv
      exact hentitles.imp_right fun hown => ⟨hown.1, hown.2 v rfl⟩

end OdooKernel
