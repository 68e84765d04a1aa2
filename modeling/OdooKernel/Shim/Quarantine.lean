import OdooKernel.Shim.Baselines

/-!
# What verification keeps

An answer of the kernel may be compared with Python's: always in `shadow`, and for a sample else.

**Shadow.**  The mode is read before the gate and once more behind the answer, and it may be set in
between; what is said of `shadow` is said of runs in which the mode is set to nothing else.

**Quarantine.**  A model is put into quarantine behind the comparison that failed, so that calls of
it that were past the check by then still ask the kernel.  What is said is said of the calls that
come later (`Barred`), and of runs in which no reset takes the model out again.

* **`shadow_answers`** — in `shadow` a value that a call returns is its wrapped method's.
* `Barred` — a model that is quarantined, and what its later calls may do.
* **`not_asked_after_divergence`** — an answer that Python does not confirm is the last of its model.
-/

namespace OdooKernel

variable {τ κ ν ε : Type} {r : Routing κ ν ε}

/-! ## The shadow -/

namespace Advances

variable {stats : RouteStats} {depth : ℕ} {record : CallRecord κ ν ε} {c : κ} {p : RoutePhase ν ε}
  {s : CallStep κ ν ε}

lemma mode_eq (h : Advances r stats depth record c p s) : s.stats.mode = stats.mode := by
  cases h with
  | leaves _ hmode => exact hmode
  | notes _ hmode => exact hmode
  | _ => rfl

/-- In `shadow` a call goes on to be compared, and answers what the wrapped method gave. -/
lemma verified (h : Advances r stats depth record c p s) (hp : p.Knows record)
    (hmode : stats.mode = .shadow) (hphase : ∀ v, p ≠ .unshadowed v) :
    (∀ v, s.next ≠ .goes (.unshadowed v)) ∧
      ∀ v, s.next = .answers (.value v) → s.record.originals = [.value v] := by
  cases h with
  | leaves | screens | clears | gates | tries | asks | computes | fails | counts | notes | verifies | compares
  | diverges | disagrees => exact ⟨nofun, nofun⟩
  | raises | interrupts => exact ⟨nofun, nofun⟩
  | unshadows hne => exact absurd hmode hne
  | returns v => exact absurd rfl (hphase v)
  | finishes o =>
      refine ⟨nofun, ?_⟩
      intro v heq
      cases heq
      exact congrArg (_ :: ·) hp.1
  | agrees =>
      refine ⟨nofun, ?_⟩
      intro v heq
      cases heq
      exact hp.1
  | quarantines =>
      refine ⟨nofun, ?_⟩
      intro v heq
      cases heq
      exact hp

end Advances

namespace CallThread

variable {th th' : CallThread κ ν ε} {stats stats' : RouteStats} {a : CallAction κ ν ε}

/-- No call of a thread is past the mode without having been compared. -/
structure Verified (th : CallThread κ ν ε) : Prop where
  lasting : ∀ f ∈ th.stack, ∀ v, f.phase ≠ .unshadowed v
  answered : ∀ n v, .value v ∈ (th.record n).answers → (th.record n).originals = [.value v]

lemma Verified.enter (h : Verified th) (c : κ) : Verified (th.enter c) := by
  refine ⟨List.forall_mem_cons.mpr ⟨nofun, h.lasting⟩, ?_⟩
  intro n v hv
  by_cases hn : n = th.calls
  · rw [hn] at hv
    change _ ∈ (Function.update th.record th.calls _ th.calls).answers at hv
    rw [Function.update_self] at hv
    cases hv
  · change _ ∈ (Function.update th.record th.calls _ n).answers at hv
    show (Function.update th.record th.calls _ n).originals = _
    rw [Function.update_of_ne hn] at hv ⊢
    exact h.answered n v hv

lemma Verified.goes (h : Verified th) (hknows : KnowsCalls th) (hmode : stats.mode = .shadow)
    {f : RoutedCall κ ν ε} {rest : List (RoutedCall κ ν ε)} {s : CallStep κ ν ε}
    (hstack : th.stack = f :: rest)
    (hs : Advances r stats th.depth (th.record f.number) f.call f.phase s) :
    Verified (th.goes f rest s) := by
  have hmem : f ∈ th.stack := by rw [hstack]; exact List.mem_cons_self
  have hrest : ∀ g ∈ rest, ∀ v, g.phase ≠ .unshadowed v := fun g hg =>
    h.lasting g (by rw [hstack]; exact List.mem_cons_of_mem _ hg)
  obtain ⟨_, hanswers, hphase⟩ := hknows.lasting f hmem
  obtain ⟨hgoes, hvalue⟩ := hs.verified hphase hmode (h.lasting f hmem)
  rw [← hs.record_eq.1] at hanswers
  have hrecord : ∀ {record : CallRecord κ ν ε},
      (∀ v, .value v ∈ record.answers → record.originals = [.value v]) →
      ∀ n v, .value v ∈ (Function.update th.record f.number record n).answers →
        (Function.update th.record f.number record n).originals = [.value v] := by
    intro record hown n v hv
    by_cases hn : n = f.number
    · rw [hn, Function.update_self] at hv ⊢
      exact hown v hv
    · rw [Function.update_of_ne hn] at hv ⊢
      exact h.answered n v hv
  unfold CallThread.goes
  cases hnext : s.next with
  | goes p =>
      refine ⟨List.forall_mem_cons.mpr ⟨?_, hrest⟩, hrecord ?_⟩
      · rintro v rfl
        exact hgoes v hnext
      · intro v hv
        rw [hanswers] at hv
        cases hv
  | answers o =>
      refine ⟨hrest, hrecord ?_⟩
      intro v hv
      rw [hanswers] at hv
      obtain rfl := List.mem_singleton.mp hv
      exact hvalue v hnext

end CallThread

/-- The mode is left as it is, or is `shadow` again. -/
def KeepsShadow (a : τ × CallAction κ ν ε) : Prop := ∀ mode, a.2 = .setMode mode → mode = .shadow

variable [DecidableEq τ]

namespace Router

variable {s s' : Router τ κ ν ε}

/-- The process is in `shadow`, and all that it has answered is compared. -/
structure InShadow (s : Router τ κ ν ε) : Prop where
  mode : s.stats.mode = .shadow
  inOrder : s.InOrder
  verified : ∀ t, (s.thread t).Verified

lemma InShadow.step (h : InShadow s) {a : τ × CallAction κ ν ε} (hok : KeepsShadow a)
    (hstep : s.step r a = some s') : InShadow s' := by
  obtain ⟨t, a⟩ := a
  have horder := h.inOrder.step hstep
  obtain ⟨stats', th', hth, rfl⟩ := step_cases hstep
  rcases CallThread.step_cases hth with ⟨rfl, hsets⟩ | ⟨rfl, c, rfl⟩ | ⟨f, rest, s₁, hstack, hlater⟩
  · refine ⟨?_, horder, forall_thread CallThread.Verified h.verified (h.verified t)⟩
    cases hsets with
    | mode mode => exact hok mode rfl
    | sample => exact h.mode
    | reset name => cases name <;> exact h.mode
  · exact ⟨h.mode, horder, forall_thread CallThread.Verified h.verified ((h.verified t).enter c)⟩
  · obtain ⟨rfl, rfl, hs⟩ := hlater
    exact ⟨hs.mode_eq.trans h.mode, horder, forall_thread CallThread.Verified h.verified
      ((h.verified t).goes (h.inOrder t).2 h.mode hstack hs)⟩

end Router

/-- **In `shadow` a call returns what its wrapped method returned in that call**, whatever the kernel
answers, and however the threads take turns and calls nest. -/
theorem shadow_answers {sampling : Bool} {actions : List (τ × CallAction κ ν ε)}
    {s : Router τ κ ν ε}
    (h : RunsWhile (Router.step r) (fun _ a => KeepsShadow a) (Router.initial .shadow sampling)
      actions s)
    (t : τ) (n : ℕ) {v : ν} (hv : .value v ∈ ((s.thread t).record n).answers) :
    ((s.thread t).record n).originals = [.value v] := by
  have hshadow : Router.InShadow s := h.keeps (fun _ _ _ hs hok hstep => hs.step hok hstep)
    ⟨rfl, Router.inOrder_initial .shadow sampling, fun _ => ⟨nofun, nofun⟩⟩
  exact (hshadow.verified t).answered n v hv

/-! ## The quarantine -/

/-- Whether an action allows a model again. -/
def Allows (name : String) (a : τ × CallAction κ ν ε) : Prop :=
  a.2 = .resetBreaker none ∨ a.2 = .resetBreaker (some name)

/-- The kernel's answer was computed, and Python's was another, or an exception. -/
def CallRecord.Diverged (r : Routing κ ν ε) (record : CallRecord κ ν ε) (c : κ) : Prop :=
  record.call = some c ∧ ∃ v, record.computed = some v ∧
    ((∃ w, record.originals = [.value w] ∧ r.same c v w = false) ∨
      ∃ e, record.originals = [.raised e] ∧ r.kind e ≠ .notException)

/-- The phases of a call that asks the kernel for nothing. -/
inductive RoutePhase.Unasked : RoutePhase ν ε → Prop where
  | entered : Unasked .entered
  | screened : Unasked .screened
  | original : Unasked .original

lemma RouteStats.mem_note {names : List String} {name name' : String} :
    name ∈ note names name' ↔ name ∈ names ∨ name = name' := by
  unfold note
  split_ifs with hmem
  · exact ⟨Or.inl, fun h => h.elim id fun heq => heq ▸ hmem⟩
  · simp

omit [DecidableEq τ] in
lemma Sets.quarantined {stats stats' : RouteStats} {t : τ} {a : CallAction κ ν ε}
    (h : CallThread.Sets stats a stats') {name : String} (ha : ¬ Allows name (t, a))
    (hname : name ∈ stats.quarantined) : name ∈ stats'.quarantined := by
  cases h with
  | mode | sample => exact hname
  | reset name' =>
      cases name' with
      | none => exact absurd (Or.inl rfl) ha
      | some name' =>
          have hne : name ≠ name' := by
            rintro rfl
            exact ha (Or.inr rfl)
          exact (List.mem_erase_of_ne hne).mpr hname

namespace Advances

variable {stats : RouteStats} {depth : ℕ} {record : CallRecord κ ν ε} {c : κ} {p : RoutePhase ν ε}
  {s : CallStep κ ν ε}

/-- What is quarantined stays so. -/
lemma quarantined_subset (h : Advances r stats depth record c p s) {name : String}
    (hname : name ∈ stats.quarantined) : name ∈ s.stats.quarantined := by
  cases h with
  | leaves _ _ hquarantined | notes _ _ hquarantined =>
      rw [hquarantined]
      exact hname
  | quarantines => exact RouteStats.mem_note.mpr (Or.inl hname)
  | _ => exact hname

/-- A call of a quarantined model goes to Python. -/
lemma unasked (h : Advances r stats depth record c p s) (hp : p.Unasked)
    (hname : r.model c ∈ stats.quarantined) :
    s.record.asked = record.asked ∧ ∀ p', s.next = .goes p' → p'.Unasked := by
  have hgoes : ∀ {q : RoutePhase ν ε}, q.Unasked →
      ∀ p', (CallNext.goes q : CallNext ν ε) = .goes p' → p'.Unasked := by
    rintro q hq p' heq
    rwa [← CallNext.goes.inj heq]
  cases hp with
  | entered =>
      cases h with
      | leaves => exact ⟨rfl, hgoes .original⟩
      | raises => exact ⟨rfl, nofun⟩
      | screens => exact ⟨rfl, hgoes .screened⟩
      | verifies hv => rcases hv with hv | hv <;> cases hv
  | screened =>
      cases h with
      | leaves => exact ⟨rfl, hgoes .original⟩
      | raises => exact ⟨rfl, nofun⟩
      | clears hfree => exact absurd hname hfree
      | verifies hv => rcases hv with hv | hv <;> cases hv
  | original =>
      cases h with
      | leaves hl => cases hl
      | raises hl => cases hl
      | finishes => exact ⟨rfl, nofun⟩
      | verifies hv => rcases hv with hv | hv <;> cases hv

/-- A call whose answers differ is answered by way of the quarantine. -/
lemma quarantines_diverged (h : Advances r stats depth record c p s) (hp : p.Knows record)
    {o : CallOutcome ν ε} (hnext : s.next = .answers o) (hd : s.record.Diverged r c) :
    r.model c ∈ s.stats.quarantined := by
  obtain ⟨_, v, hcomputed, hd⟩ := hd
  cases h with
  | quarantines => exact RouteStats.mem_note.mpr (Or.inr rfl)
  | raises hl =>
      have hnone : record.originals = [] := by
        cases hl with
        | trying => exact hp.1
        | _ => exact hp.1
      rcases hd with ⟨w, hw, _⟩ | ⟨e, he, _⟩
      · cases hnone.symm.trans hw
      · cases hnone.symm.trans he
  | returns =>
      rcases hd with ⟨w, hw, _⟩ | ⟨e, he, _⟩
      · cases hp.1.symm.trans hw
      · cases hp.1.symm.trans he
  | finishes => cases hp.2.symm.trans hcomputed
  | interrupts v' he =>
      rcases hd with ⟨w, hw, _⟩ | ⟨e', he', hkind⟩
      · cases (List.cons.inj hw).1
      · cases (List.cons.inj he').1
        exact absurd he hkind
  | agrees hsame =>
      cases hp.2.symm.trans hcomputed
      rcases hd with ⟨w, hw, hdiffers⟩ | ⟨e, he, _⟩
      · cases hp.1.symm.trans hw
        rw [hsame] at hdiffers
        cases hdiffers
      · cases hp.1.symm.trans he
  | _ => cases hnext

end Advances

namespace CallThread

variable {th th' : CallThread κ ν ε} {stats stats' : RouteStats} {a : CallAction κ ν ε} {name : String}
  {since : ℕ}

/-- None of a thread's calls of a model has asked the kernel, from some call on. -/
structure Barred (r : Routing κ ν ε) (name : String) (since : ℕ) (th : CallThread κ ν ε) : Prop where
  lasting : ∀ f ∈ th.stack, since ≤ f.number → r.model f.call = name → f.phase.Unasked
  unasked : ∀ n c, since ≤ n → (th.record n).call = some c → r.model c = name → (th.record n).asked = 0

lemma Barred.enter (h : Barred r name since th) (c : κ) : Barred r name since (th.enter c) := by
  refine ⟨List.forall_mem_cons.mpr ⟨fun _ _ => .entered, h.lasting⟩, ?_⟩
  intro n c' hn hc hname
  change (Function.update th.record th.calls _ n).call = _ at hc
  show (Function.update th.record th.calls _ n).asked = 0
  by_cases hlast : n = th.calls
  · rw [hlast, Function.update_self]
    rfl
  · rw [Function.update_of_ne hlast] at hc ⊢
    exact h.unasked n c' hn hc hname

lemma Barred.goes (h : Barred r name since th) (hknows : KnowsCalls th)
    (hname : name ∈ stats.quarantined) {f : RoutedCall κ ν ε} {rest : List (RoutedCall κ ν ε)}
    {s : CallStep κ ν ε} (hstack : th.stack = f :: rest)
    (hs : Advances r stats th.depth (th.record f.number) f.call f.phase s) :
    Barred r name since (th.goes f rest s) := by
  have hmem : f ∈ th.stack := by rw [hstack]; exact List.mem_cons_self
  have hrest : ∀ g ∈ rest, since ≤ g.number → r.model g.call = name → g.phase.Unasked := fun g hg =>
    h.lasting g (by rw [hstack]; exact List.mem_cons_of_mem _ hg)
  have hcall := (hknows.lasting f hmem).1
  have hown : since ≤ f.number → r.model f.call = name →
      s.record.asked = 0 ∧ ∀ p', s.next = .goes p' → p'.Unasked := by
    intro hn hmodel
    obtain ⟨hasked, hgoes⟩ := hs.unasked (h.lasting f hmem hn hmodel) (hmodel ▸ hname)
    exact ⟨hasked.trans (h.unasked _ _ hn hcall hmodel), hgoes⟩
  rw [← hs.record_eq.2] at hcall
  have hrecord : ∀ {record : CallRecord κ ν ε}, record.call = s.record.call →
      record.asked = s.record.asked → ∀ n c, since ≤ n →
      (Function.update th.record f.number record n).call = some c → r.model c = name →
      (Function.update th.record f.number record n).asked = 0 := by
    intro record hsame hasked n c hn hc hmodel
    by_cases hnumber : n = f.number
    · rw [hnumber, Function.update_self] at hc ⊢
      rw [hsame, hcall] at hc
      cases hc
      exact hasked.trans (hown (hnumber ▸ hn) hmodel).1
    · rw [Function.update_of_ne hnumber] at hc ⊢
      exact h.unasked n c hn hc hmodel
  unfold CallThread.goes
  cases hnext : s.next with
  | goes p =>
      refine ⟨List.forall_mem_cons.mpr ⟨?_, hrest⟩, hrecord rfl rfl⟩
      exact fun hn hmodel => (hown hn hmodel).2 p hnext
  | answers o => exact ⟨hrest, hrecord rfl rfl⟩

/-- A call that is answered although its answers differ leaves its model quarantined. -/
lemma KnowsCalls.quarantined (h : KnowsCalls th) (hstep : th.step r stats a = some (stats', th'))
    {n : ℕ} {c : κ} (hlast : (th.record n).answers = []) (hanswered : (th'.record n).answers ≠ [])
    (hd : (th'.record n).Diverged r c) : r.model c ∈ stats'.quarantined := by
  rcases step_cases hstep with ⟨rfl, _⟩ | ⟨_, c', rfl⟩ | ⟨f, rest, s, hstack, rfl, rfl, hs⟩
  · exact absurd hlast hanswered
  · by_cases hn : n = th.calls
    · refine absurd ?_ hanswered
      show (Function.update th.record th.calls _ n).answers = []
      rw [hn, Function.update_self]
      rfl
    · refine absurd ?_ hanswered
      show (Function.update th.record th.calls _ n).answers = []
      rw [Function.update_of_ne hn]
      exact hlast
  · have hmem : f ∈ th.stack := by rw [hstack]; exact List.mem_cons_self
    obtain ⟨hcall, hanswers, hknows⟩ := h.lasting f hmem
    have hother : ∀ {record : CallRecord κ ν ε}, n ≠ f.number →
        (Function.update th.record f.number record n).answers = [] := by
      intro record hn
      rw [Function.update_of_ne hn]
      exact hlast
    unfold CallThread.goes at hanswered hd
    cases hnext : s.next with
    | goes p =>
        rw [hnext] at hanswered
        change (Function.update th.record f.number _ n).answers ≠ [] at hanswered
        by_cases hn : n = f.number
        · rw [hn, Function.update_self, hs.record_eq.1] at hanswered
          exact absurd hanswers hanswered
        · exact absurd (hother hn) hanswered
    | answers o =>
        rw [hnext] at hanswered hd
        change (Function.update th.record f.number _ n).answers ≠ [] at hanswered
        change CallRecord.Diverged r (Function.update th.record f.number _ n) c at hd
        by_cases hn : n = f.number
        · rw [hn, Function.update_self] at hd
          have hsame : s.record.call = some c := hd.1
          rw [hs.record_eq.2, hcall] at hsame
          cases hsame
          exact hs.quarantines_diverged hknows hnext hd
        · exact absurd (hother hn) hanswered

end CallThread

namespace Router

variable {s s' : Router τ κ ν ε} {name : String} {since : τ → ℕ}

/-- A model is quarantined, and its calls from some on have not asked the kernel. -/
structure Barred (r : Routing κ ν ε) (name : String) (since : τ → ℕ) (s : Router τ κ ν ε) : Prop where
  quarantined : name ∈ s.stats.quarantined
  inOrder : s.InOrder
  threads : ∀ t, (s.thread t).Barred r name (since t)

lemma Barred.step (h : Barred r name since s) {a : τ × CallAction κ ν ε} (hok : ¬ Allows name a)
    (hstep : s.step r a = some s') : Barred r name since s' := by
  obtain ⟨t, a⟩ := a
  have horder := h.inOrder.step hstep
  obtain ⟨stats', th', hth, rfl⟩ := step_cases hstep
  have hthreads : ∀ {th' : CallThread κ ν ε}, th'.Barred r name (since t) →
      ∀ t', (Function.update s.thread t th' t').Barred r name (since t') := by
    intro th' hbarred t'
    by_cases ht : t' = t
    · rw [ht, Function.update_self]
      exact hbarred
    · rw [Function.update_of_ne ht]
      exact h.threads t'
  rcases CallThread.step_cases hth with ⟨rfl, hsets⟩ | ⟨rfl, c, rfl⟩ | ⟨f, rest, s₁, hstack, hlater⟩
  · exact ⟨Sets.quarantined hsets hok h.quarantined, horder, hthreads (h.threads t)⟩
  · exact ⟨h.quarantined, horder, hthreads ((h.threads t).enter c)⟩
  · obtain ⟨rfl, rfl, hs⟩ := hlater
    exact ⟨hs.quarantined_subset h.quarantined, horder,
      hthreads ((h.threads t).goes (h.inOrder t).2 h.quarantined hstack hs)⟩

omit [DecidableEq τ] in
/-- The calls of a model that is quarantined begin with the next. -/
lemma Barred.start (h : s.InOrder) (hname : name ∈ s.stats.quarantined) :
    Barred r name (fun t => (s.thread t).calls) s := by
  refine ⟨hname, h, fun t => ⟨?_, ?_⟩⟩
  · intro f hf hn
    exact absurd ((h t).2.made f hf) (Nat.not_lt.mpr hn)
  · intro n c hn hc
    rw [(h t).2.unmade n hn] at hc
    cases hc

end Router

/-- **An answer of the kernel that Python does not confirm is the last of its model**: once its call is
answered, calls of the model that begin later do not ask the kernel, and what they return is Python's,
until the model is reset; in all threads, and however calls nest. -/
theorem not_asked_after_divergence {mode : RouteMode} {sampling : Bool}
    {before : List (τ × CallAction κ ν ε)} {s₀ s₁ s : Router τ κ ν ε}
    (hreach : run (Router.step r) (Router.initial mode sampling) before = some s₀)
    {t : τ} {a : CallAction κ ν ε} (hstep : s₀.step r (t, a) = some s₁) {n : ℕ} {c : κ}
    (hlast : ((s₀.thread t).record n).answers = []) (hanswered : ((s₁.thread t).record n).answers ≠ [])
    (hd : ((s₁.thread t).record n).Diverged r c) {after : List (τ × CallAction κ ν ε)}
    (hrun : RunsWhile (Router.step r) (fun _ a => ¬ Allows (r.model c) a) s₁ after s) :
    r.model c ∈ s.stats.quarantined ∧ ∀ t' m c', (s₁.thread t').calls ≤ m →
      ((s.thread t').record m).call = some c' → r.model c' = r.model c →
      ((s.thread t').record m).asked = 0 ∧ ∀ v, .value v ∈ ((s.thread t').record m).answers →
        ((s.thread t').record m).originals = [.value v] := by
  have horder := Router.inOrder_of_run hreach
  have hquarantined : r.model c ∈ s₁.stats.quarantined := by
    obtain ⟨stats', th', hth, rfl⟩ := Router.step_cases hstep
    change ((Function.update s₀.thread t th' t).record n).answers ≠ [] at hanswered
    change CallRecord.Diverged r ((Function.update s₀.thread t th' t).record n) c at hd
    rw [Function.update_self] at hanswered hd
    exact (horder t).2.quarantined hth hlast hanswered hd
  have hbarred : Router.Barred r (r.model c) (fun t => (s₁.thread t).calls) s :=
    hrun.keeps (fun _ _ _ hs hok hstep => hs.step hok hstep)
      (Router.Barred.start (horder.step hstep) hquarantined)
  refine ⟨hbarred.quarantined, ?_⟩
  intro t' m c' hm hc hmodel
  have hasked := (hbarred.threads t').unasked m c' hm hc hmodel
  refine ⟨hasked, ?_⟩
  intro v hv
  rcases ((hbarred.inOrder t').2.settled m).answers with hnone | ⟨o, hone, hentitles⟩
  · rw [hnone] at hv
    cases hv
  · rw [hone] at hv
    obtain rfl := List.mem_singleton.mp hv
    rcases hentitles with hown | ⟨_, hcomputed⟩
    · exact hown
    · have hpos := (hcomputed v rfl).2
      rw [hasked] at hpos
      exact absurd hpos (Nat.lt_irrefl 0)

/-! ## Partners are counted -/

namespace Comparisons

/-- Calls are named by their models, and answer numbers. -/
def routing : Routing String ℕ Unit where
  only := []
  except := []
  breaker := 0
  model c := c
  same _ v w := v = w
  kind _ := .otherException
  keyError := ()

/-- The kernel counts one partner, and Python counts once more in the baseline. -/
def nested : List (Bool × CallAction String ℕ Unit) :=
  [.call "partner", .readMode, .readQuarantined, .readErrors, .pass, .ask, .compute 1, .readMode,
    .call "partner", .readMode].map (true, ·)

/-- Python counts two, which is compared. -/
def compared : List (Bool × CallAction String ℕ Unit) :=
  nested ++ [.finish (.value 2), .finish (.value 2), .compare].map (true, ·)

/-- The other thread counts afterwards. -/
def later : List (Bool × CallAction String ℕ Unit) :=
  [.call "partner", .readMode, .readQuarantined, .finish (.value 2)].map (false, ·)

/-- The model is quarantined, routing is on, and the other thread counts countries, which are not. -/
def countries : List (Bool × CallAction String ℕ Unit) :=
  compared ++ (true, .quarantine) ::
    [.setMode .on, .call "country", .readMode, .readQuarantined, .readErrors, .pass, .ask, .compute 5,
      .readMode, .sample false].map (false, ·)

def start : Router Bool String ℕ Unit := .initial .shadow false

lemma runs_nested : (run (Router.step routing) start nested).isSome = true := rfl

/-- In its baseline the thread has a call of Python's above the one that asked. -/
theorem nested_in_baseline : ∃ s, run (Router.step routing) start nested = some s ∧
    (s.thread true).depth = (s.thread true).stack.countP (·.phase.isBaseline) ∧
      (s.thread true).stack.map (·.phase) = [.original, .baseline 1] := by
  obtain ⟨s, hs⟩ := Option.isSome_iff_exists.mp runs_nested
  have hphases : (run (Router.step routing) start nested).map
      (fun s => (s.thread true).stack.map (·.phase)) = some [.original, .baseline 1] := rfl
  rw [hs] at hphases
  exact ⟨s, hs, (asks_in_no_baseline hs true).1, Option.some.inj hphases⟩

/-- The call in the baseline has asked nothing, and answered what Python counted. -/
def byPython : CallRecord String ℕ Unit where
  call := "partner"
  asked := 0
  computed := none
  originals := [.value 2]
  answers := [.value 2]

/-- The call for countries has asked once, and answered what the kernel counted. -/
def byKernel : CallRecord String ℕ Unit where
  call := "country"
  asked := 1
  computed := some 5
  originals := []
  answers := [.value 5]

lemma records_countries : (run (Router.step routing) start countries).map
    (fun s => ((s.thread true).record 1, (s.thread false).record 0)) = some (byPython, byKernel) := by
  decide +kernel

/-- The call in the baseline is answered by Python, and the one for countries by the kernel. -/
theorem nested_answered : ∃ s, run (Router.step routing) start countries = some s ∧
    (s.thread true).record 1 = byPython ∧ (s.thread false).record 0 = byKernel ∧
      (byPython.originals = [.value 2] ∨
        byPython.originals = [] ∧ byPython.computed = some 2 ∧ 0 < byPython.asked) ∧
      (byKernel.originals = [.value 5] ∨
        byKernel.originals = [] ∧ byKernel.computed = some 5 ∧ 0 < byKernel.asked) := by
  obtain ⟨s, hs, hrecords⟩ := Option.map_eq_some_iff.mp records_countries
  obtain ⟨hpython, hkernel⟩ := Prod.mk.inj hrecords
  obtain ⟨-, -, hnested⟩ := answered_by_one hs true 1
  obtain ⟨-, -, hother⟩ := answered_by_one hs false 0
  rw [hpython] at hnested
  rw [hkernel] at hother
  exact ⟨s, hs, hpython, hkernel, hnested 2 (List.mem_singleton_self _),
    hother 5 (List.mem_singleton_self _)⟩

/-- What is counted first, and what is returned in the end. -/
lemma answers_compared : (run (Router.step routing) start (compared ++ [(true, .quarantine)])).map
    (fun s => ((s.thread true).record 0).answers) = some [.value 2] := rfl

/-- Two partners are counted in the shadow, although the kernel counts one. -/
theorem two_in_shadow : ∃ s, RunsWhile (Router.step routing) (fun _ a => KeepsShadow a) start
      (compared ++ [(true, .quarantine)]) s ∧ ((s.thread true).record 0).originals = [.value 2] := by
  obtain ⟨s, hs, hanswers⟩ := Option.map_eq_some_iff.mp answers_compared
  have hkeeps : ∀ a ∈ compared ++ [(true, .quarantine)], KeepsShadow a := by
    intro a ha mode
    simp only [compared, nested, List.map_cons, List.map_nil, List.mem_append, List.mem_cons,
      List.not_mem_nil, or_false] at ha
    rcases ha with (((rfl | rfl | rfl | rfl | rfl | rfl | rfl | rfl | rfl | rfl) | rfl | rfl | rfl) | rfl)
    all_goals exact nofun
  have hruns := runsWhile_of_forall hkeeps hs
  exact ⟨s, hruns, shadow_answers hruns true 0 (by rw [hanswers]; exact List.mem_singleton_self _)⟩

/-- What is known of the first call when it is answered. -/
lemma record_compared : (run (Router.step routing) start compared).map
    (fun s => ((s.thread true).record 0).answers) = some [] := rfl

def quarantined : CallRecord String ℕ Unit where
  call := "partner"
  asked := 1
  computed := some 1
  originals := [.value 2]
  answers := [.value 2]

lemma record_quarantined : ((run (Router.step routing) start compared).bind fun s =>
    (s.step routing (true, .quarantine)).map fun s => (s.thread true).record 0) = some quarantined := rfl

lemma runs_later : ((run (Router.step routing) start compared).bind fun s =>
    (s.step routing (true, .quarantine)).bind fun s =>
      (run (Router.step routing) s later).map fun s => ((s.thread false).record 0).call) =
    some (some "partner") := rfl

/-- The other thread does not ask the kernel any more. -/
theorem later_not_asked : ∃ s₀ s₁ s, run (Router.step routing) start compared = some s₀ ∧
    s₀.step routing (true, .quarantine) = some s₁ ∧ run (Router.step routing) s₁ later = some s ∧
    "partner" ∈ s.stats.quarantined ∧ ((s.thread false).record 0).asked = 0 := by
  obtain ⟨s₀, hs₀, hlast⟩ := Option.map_eq_some_iff.mp record_compared
  have hrecord := record_quarantined
  have hlater := runs_later
  rw [hs₀, Option.bind_some] at hrecord hlater
  obtain ⟨s₁, hs₁, hanswered⟩ := Option.map_eq_some_iff.mp hrecord
  rw [hs₁, Option.bind_some] at hlater
  obtain ⟨s, hs, hcall⟩ := Option.map_eq_some_iff.mp hlater
  have hallows : ∀ a ∈ later, ¬ Allows "partner" a := by
    intro a ha
    simp only [later, List.map_cons, List.map_nil, List.mem_cons, List.not_mem_nil, or_false] at ha
    rcases ha with rfl | rfl | rfl | rfl <;> rintro (h | h) <;> cases h
  have hdiverged : ((s₁.thread true).record 0).Diverged routing "partner" := by
    rw [hanswered]
    exact ⟨rfl, 1, rfl, Or.inl ⟨2, rfl, rfl⟩⟩
  have hsome : ((s₁.thread true).record 0).answers ≠ [] := by
    rw [hanswered]
    exact List.cons_ne_nil _ _
  have hafter := not_asked_after_divergence hs₀ hs₁ hlast hsome hdiverged
    (runsWhile_of_forall hallows hs)
  have hnone : (s₁.thread false).calls ≤ 0 := by
    have hcalls : ((run (Router.step routing) start compared).bind fun s =>
      (s.step routing (true, .quarantine)).map fun s => (s.thread false).calls) = some 0 := rfl
    rw [hs₀, Option.bind_some, hs₁] at hcalls
    exact Nat.le_of_eq (Option.some.inj hcalls)
  exact ⟨s₀, s₁, s, hs₀, hs₁, hs, hafter.1, (hafter.2 false 0 "partner" hnone hcall rfl).1⟩

end Comparisons

end OdooKernel
