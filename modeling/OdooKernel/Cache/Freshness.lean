import OdooKernel.Cache.Interleaving

/-!
# No answer from older access data

A request that is not refused works with access data as current as its own snapshot, as long as the
`Dynamic` that is published while it compiles rules has the security signals of its own.

**The invariant** (`Inv`).  Every `Dynamic` that anyone holds was loaded where the watched signals
are those it is taken to be current at (`Dynamic.Sound`); what is cached under a key belongs to it;
and each request is where its phase says (`PhaseOk`): behind the check its `Dynamic` is as current as
the signals that it read.

**The frame.**  An action is one request's.  What it leaves in place for the others is said once
(`Extends`): snapshots stay, transactions keep theirs, and another `Dynamic` is published at a new
address only.  `PhaseOk.mono` is the frame rule, and each action then has to be looked at for its own
request alone (`inv_step`).

**The condition** (`CompilesUnderOwn`) is there because rules are compiled from what is published and
not from what the request checked, and are cached under the request's own signals.
`rules_of_older_data` is a run in which a snapshot is published over a newer one in between.

* `stamp_publishes_newer` — a stamp never publishes what is older.
* **`answered_at_own_snapshot`** — the runs.
-/

namespace OdooKernel

open Kernel

/-! ## The invariant -/

section Invariant

variable (setting : Setting)

/-- The data was loaded where the watched signals are those it is taken to be current at. -/
def Dynamic.Sound (d : Dynamic) : Prop := SameWatched setting.signalTables d.loaded d.signals

/-- A shared `Dynamic`, as long as some request holds it. -/
structure ArcOk (s : Kernel) (arc : Arc) : Prop where
  known : arc.dynamic.signals ∈ s.history
  sound : arc.dynamic.Sound setting
  allocated : arc.address < s.nextAddress
  same : arc.address = s.published.address → arc = s.published

/-- The watched signals are those a request's transaction read, where it reads signals at all. -/
def ReadAs (s : Kernel) (r : ℕ) (d : Dynamic) : Prop :=
  setting.plan = none ∨ ∃ snapshot, s.pinned (setting.transaction r) = some snapshot ∧
    SameWatched setting.signalTables d.signals snapshot

/-- The rules were compiled for the identity of a key, at its signals. -/
def RulesOk (rules : List CompiledRules) (key : RuleKey) : Prop :=
  ∀ c ∈ rules, c.user = key.user ∧ c.source.Sound setting ∧
    securitySignals setting.signalTables c.source.signals = key.signals

/-- The environment was computed from access data with the given signals. -/
def EnvironmentOk (environment : Dynamic) (signals : Signals) : Prop :=
  environment.Sound setting ∧
    securitySignals setting.signalTables environment.signals = signals

/-- A request that has checked its `Dynamic`. -/
def CheckedOk (s : Kernel) (r : ℕ) (arc : Arc) : Prop :=
  ArcOk setting s arc ∧ ReadAs setting s r arc.dynamic

/-- A request that has entered its identity. -/
structure SessionOk (s : Kernel) (r : ℕ) (session : Session) : Prop where
  checked : CheckedOk setting s r session.dynamic
  environment : EnvironmentOk setting session.environment
    (keyOf setting session.user session.dynamic).signals
  rules : RulesOk setting session.rules (keyOf setting session.user session.dynamic)

/-- Where a request stands. -/
def PhaseOk (s : Kernel) (r : ℕ) : Phase → Prop
  | .start | .refused => True
  | .compare signals | .load signals => s.pinned (setting.transaction r) = some signals
  | .stamp current signals => s.pinned (setting.transaction r) = some signals ∧
      ArcOk setting s current ∧ advanced signals current.dynamic.signals = true ∧
      SameWatched setting.signalTables current.dynamic.signals signals
  | .clearRules arc | .clearEnvironments arc | .checked arc | .missed arc => CheckedOk setting s r arc
  | .entered arc environment => CheckedOk setting s r arc ∧ EnvironmentOk setting environment
      (securitySignals setting.signalTables arc.dynamic.signals)
  | .compiling session | .evictRules session | .evictEnvironments session | .ready session =>
      SessionOk setting s r session

/-- The database grows, what is published and cached is sound, and so is every request. -/
structure Inv (s : Kernel) : Prop where
  newest : ∃ signals older, s.history = signals :: older ∧ ∀ b ∈ s.history, Grows b signals
  comparable : ∀ a ∈ s.history, ∀ b ∈ s.history, Grows a b ∨ Grows b a
  pinned : ∀ t signals, s.pinned t = some signals → signals ∈ s.history
  published : ArcOk setting s s.published
  ruleCache : ∀ key rules, s.ruleCache.get? key = some rules → RulesOk setting rules key
  envCache : ∀ key d, s.envCache.get? key = some d → EnvironmentOk setting d key.2
  phases : ∀ r, PhaseOk setting s r (s.phase r)

end Invariant

variable {setting : Setting} {s s' : Kernel} {r : ℕ}

/-! ## What an action leaves in place -/

/-- Snapshots stay, transactions keep theirs, and another `Dynamic` is published at a new address
only. -/
structure Extends (s s' : Kernel) : Prop where
  history : ∀ a ∈ s.history, a ∈ s'.history
  pinned : ∀ t a, s.pinned t = some a → s'.pinned t = some a
  allocated : s.nextAddress ≤ s'.nextAddress
  published : s'.published = s.published ∨ s.nextAddress ≤ s'.published.address

lemma ArcOk.mono {arc : Arc} (h : ArcOk setting s arc) (hext : Extends s s') :
    ArcOk setting s' arc where
  known := hext.history _ h.known
  sound := h.sound
  allocated := h.allocated.trans_le hext.allocated
  same haddress := by
    rcases hext.published with hsame | hnew
    · rw [hsame] at haddress ⊢
      exact h.same haddress
    · have := h.allocated
      omega

lemma ReadAs.mono {d : Dynamic} (h : ReadAs setting s r d) (hext : Extends s s') :
    ReadAs setting s' r d :=
  h.imp_right fun ⟨snapshot, hpin, hsame⟩ => ⟨snapshot, hext.pinned _ _ hpin, hsame⟩

lemma CheckedOk.mono {arc : Arc} (h : CheckedOk setting s r arc) (hext : Extends s s') :
    CheckedOk setting s' r arc := ⟨h.1.mono hext, h.2.mono hext⟩

lemma SessionOk.mono {session : Session} (h : SessionOk setting s r session)
    (hext : Extends s s') : SessionOk setting s' r session :=
  ⟨h.checked.mono hext, h.environment, h.rules⟩

/-- **The frame rule**: what other requests do leaves a request where it stands. -/
lemma PhaseOk.mono {phase : Phase} (h : PhaseOk setting s r phase) (hext : Extends s s') :
    PhaseOk setting s' r phase := by
  cases phase with
  | start => trivial
  | refused => trivial
  | compare signals => exact hext.pinned _ _ h
  | load signals => exact hext.pinned _ _ h
  | stamp current signals => exact ⟨hext.pinned _ _ h.1, h.2.1.mono hext, h.2.2⟩
  | clearRules arc => exact CheckedOk.mono h hext
  | clearEnvironments arc => exact CheckedOk.mono h hext
  | checked arc => exact CheckedOk.mono h hext
  | missed arc => exact CheckedOk.mono h hext
  | entered arc environment => exact ⟨h.1.mono hext, h.2⟩
  | compiling session => exact SessionOk.mono h hext
  | evictRules session => exact SessionOk.mono h hext
  | evictEnvironments session => exact SessionOk.mono h hext
  | ready session => exact SessionOk.mono h hext

/-- One request goes on, the others stand where they did. -/
lemma phases_update {phase : Phase} (h : ∀ q, PhaseOk setting s q (s.phase q))
    (hext : Extends s s') (hphase : s'.phase = Function.update s.phase r phase)
    (hr : PhaseOk setting s' r phase) : ∀ q, PhaseOk setting s' q (s'.phase q) := by
  intro q
  rw [hphase]
  by_cases hq : q = r
  · subst hq
    rw [Function.update_self]
    exact hr
  · rw [Function.update_of_ne hq]
    exact (h q).mono hext

/-- A request goes on and nothing else changes. -/
lemma Inv.goes (h : Inv setting s) {phase : Phase} (hr : PhaseOk setting s r phase) :
    Inv setting (s.goes r phase) := by
  have hext : Extends s (s.goes r phase) := ⟨fun _ ha => ha, fun _ _ ha => ha, le_refl _, .inl rfl⟩
  exact ⟨h.newest, h.comparable, h.pinned, h.published.mono hext, h.ruleCache, h.envCache,
    phases_update h.phases hext rfl (hr.mono hext)⟩

/-! ## The actions -/

lemma grows_trans {a b d : Signals} (h : Grows a b) (h' : Grows b d) : Grows a d := by
  refine ⟨h.1.trans h'.1, fun e he => ?_⟩
  obtain ⟨i, hi, rfl⟩ := List.mem_iff_getElem.mp he
  simp only [List.length_zip, lt_min_iff] at hi
  have hb : i < b.length := h.1 ▸ hi.1
  have hab := h.2 (a[i], b[i]) (List.mem_iff_getElem.mpr ⟨i, by simp [hi.1, hb], by simp⟩)
  have hbc := h'.2 (b[i], d[i]) (List.mem_iff_getElem.mpr ⟨i, by simp [hi.2, hb], by simp⟩)
  simpa using hab.trans hbc

lemma inv_advance {signals newest : Signals} {older : List Signals} (h : Inv setting s)
    (hhistory : s.history = newest :: older) (hgrows : Grows newest signals) :
    Inv setting { s with history := signals :: s.history } := by
  obtain ⟨top, rest, htop, hall⟩ := h.newest
  obtain ⟨rfl, rfl⟩ := List.cons.inj (htop.symm.trans hhistory)
  have hbelow : ∀ b ∈ s.history, Grows b signals := fun b hb => grows_trans (hall b hb) hgrows
  have hext : Extends s { s with history := signals :: s.history } :=
    ⟨fun _ ha => List.mem_cons_of_mem _ ha, fun _ _ ha => ha, le_refl _, .inl rfl⟩
  refine ⟨⟨signals, s.history, rfl, ?_⟩, ?_, ?_, h.published.mono hext, h.ruleCache, h.envCache,
    fun q => (h.phases q).mono hext⟩
  · intro b hb
    rcases List.mem_cons.mp hb with rfl | hb
    · exact .refl b
    · exact hbelow b hb
  · intro a ha b hb
    rcases List.mem_cons.mp ha with hnew | hold
    · rcases List.mem_cons.mp hb with hnew' | hold'
      · exact .inl (hnew ▸ hnew' ▸ .refl _)
      · exact .inr (hnew ▸ hbelow b hold')
    · rcases List.mem_cons.mp hb with hnew' | hold'
      · exact .inl (hnew' ▸ hbelow a hold)
      · exact h.comparable a hold b hold'
  · exact fun t a ha => List.mem_cons_of_mem _ (h.pinned t a ha)

lemma inv_read (h : Inv setting s) (hstep : s.readSignals setting r = some s') :
    Inv setting s' := by
  unfold Kernel.readSignals at hstep
  split at hstep
  · next hplan =>
      obtain rfl := Option.some.inj hstep
      exact h.goes ⟨h.published, .inl (by simpa using hplan)⟩
  · split at hstep
    · next signals hpin =>
        obtain rfl := Option.some.inj hstep
        exact h.goes hpin
    · next hpin =>
        split at hstep
        · simp at hstep
        · next signals older hhistory =>
            -- the transaction takes the newest snapshot
            obtain rfl := Option.some.inj hstep
            have hext : Extends s { s.goes r (.compare signals) with
                pinned := Function.update s.pinned (setting.transaction r) (some signals) } := by
              refine ⟨fun _ ha => ha, fun t a ha => ?_, le_refl _, .inl rfl⟩
              have ht : t ≠ setting.transaction r := by
                rintro rfl
                rw [hpin] at ha
                exact absurd ha (by simp)
              simpa [Function.update_of_ne ht] using ha
            have hknown : ∀ t a, Function.update s.pinned (setting.transaction r) (some signals) t
                = some a → a ∈ s.history := by
              intro t a ha
              by_cases ht : t = setting.transaction r
              · subst ht
                rw [Function.update_self] at ha
                obtain rfl := Option.some.inj ha
                rw [hhistory]
                exact List.mem_cons_self
              · rw [Function.update_of_ne ht] at ha
                exact h.pinned t a ha
            refine ⟨h.newest, h.comparable, hknown, h.published.mono hext, h.ruleCache,
              h.envCache, phases_update h.phases hext rfl ?_⟩
            exact Function.update_self _ _ _

/-- Two snapshots of the database have a value for each sequence. -/
lemma Inv.length_eq (h : Inv setting s) {a b : Signals} (ha : a ∈ s.history) (hb : b ∈ s.history) :
    a.length = b.length := by
  rcases h.comparable a ha b hb with hg | hg
  · exact hg.1
  · exact hg.1.symm

lemma inv_compare {signals : Signals} (h : Inv setting s) (hp : s.phase r = .compare signals) :
    Inv setting (s.goes r (afterCompare setting signals s.published)) := by
  have hpin : s.pinned (setting.transaction r) = some signals := by
    have := h.phases r
    rwa [hp] at this
  have hlen : signals.length = s.published.dynamic.signals.length :=
    h.length_eq (h.pinned _ _ hpin) h.published.known
  refine h.goes ?_
  unfold afterCompare
  split
  · trivial
  · next hnot =>
      split
      · next hsame =>
          simp only [Bool.and_eq_true, Bool.not_eq_true', decide_eq_true_eq] at hsame
          exact ⟨h.published, .inr ⟨signals, hpin,
            (sameWatched_of_same_age hlen (by simpa using hnot) hsame.1).symm⟩⟩
      · next hmore =>
          have hadv : advanced signals s.published.dynamic.signals = true := by
            simpa [hlen] using hmore
          split
          · next hc => exact ⟨h.published, .inr ⟨signals, hpin, sameWatched_of_classify (.inl hc)⟩⟩
          · next hc => exact ⟨hpin, h.published, hadv, sameWatched_of_classify (.inr hc)⟩
          · exact hpin
          · trivial

/-- A `Dynamic` at a new address, published or not. -/
lemma inv_fresh (h : Inv setting s) {d : Dynamic} {published : Arc} {phase : Phase}
    (hknown : d.signals ∈ s.history) (hsound : d.Sound setting)
    (hpublished : published = s.published ∨ published = { address := s.nextAddress, dynamic := d })
    (hphase : PhaseOk setting { s with published, nextAddress := s.nextAddress + 1 } r phase) :
    Inv setting { s.goes r phase with published, nextAddress := s.nextAddress + 1 } := by
  have hext : Extends s { s.goes r phase with published, nextAddress := s.nextAddress + 1 } := by
    refine ⟨fun _ ha => ha, fun _ _ ha => ha, Nat.le_succ _, ?_⟩
    rcases hpublished with hsame | hnew
    · exact .inl hsame
    · exact .inr (by rw [hnew])
  have harc : ArcOk setting { s.goes r phase with published, nextAddress := s.nextAddress + 1 }
      published := by
    rcases hpublished with hsame | hnew
    · exact hsame ▸ h.published.mono (hsame ▸ hext)
    · exact ⟨by rw [hnew]; exact hknown, by rw [hnew]; exact hsound, by rw [hnew]; exact Nat.lt_succ_self _,
        fun _ => rfl⟩
  have hmove : Extends { s with published, nextAddress := s.nextAddress + 1 }
      { s.goes r phase with published, nextAddress := s.nextAddress + 1 } :=
    ⟨fun _ ha => ha, fun _ _ ha => ha, le_refl _, .inl rfl⟩
  exact ⟨h.newest, h.comparable, h.pinned, harc, h.ruleCache, h.envCache,
    phases_update h.phases hext rfl (hphase.mono hmove)⟩

lemma inv_stamp {current : Arc} {signals : Signals} (h : Inv setting s)
    (hp : s.phase r = .stamp current signals) : Inv setting (s.stampSignals r current signals) := by
  have hok := h.phases r
  rw [hp] at hok
  obtain ⟨hpin, hcurrent, -, hwatched⟩ := hok
  have hknown := h.pinned _ _ hpin
  have hsound : Dynamic.Sound setting { current.dynamic with signals } :=
    hcurrent.sound.trans hwatched
  refine inv_fresh h hknown hsound ?_ ⟨⟨hknown, hsound, Nat.lt_succ_self _, fun haddress => ?_⟩,
    .inr ⟨signals, hpin, .refl _ _⟩⟩
  · split
    · exact .inr rfl
    · exact .inl rfl
  · -- a `Dynamic` that is not published is at a new address
    simp only at haddress ⊢
    split
    · rfl
    · next hother =>
        rw [if_neg hother] at haddress
        exact absurd haddress.symm h.published.allocated.ne

lemma inv_publish {signals snapshot : Signals} (h : Inv setting s) (hp : s.phase r = .load signals)
    (hpin : s.pinned (setting.transaction r) = some snapshot) :
    Inv setting (s.publishFresh r snapshot signals) := by
  have hok := h.phases r
  rw [hp] at hok
  obtain rfl : signals = snapshot := Option.some.inj (hok.symm.trans hpin)
  have hknown := h.pinned _ _ hpin
  have hsound : Dynamic.Sound setting { loaded := signals, signals } := .refl _ _
  exact inv_fresh h hknown hsound (.inr rfl)
    ⟨⟨hknown, hsound, Nat.lt_succ_self _, fun _ => rfl⟩, .inr ⟨signals, hpin, .refl _ _⟩⟩

/-- The caches change, and a request goes on. -/
lemma inv_caches (h : Inv setting s) {phase : Phase} {ruleCache : Dict RuleKey (List CompiledRules)}
    {envCache : Dict (ℤ × Signals) Dynamic} (hr : PhaseOk setting s r phase)
    (hrules : ∀ key rules, ruleCache.get? key = some rules → RulesOk setting rules key)
    (henvs : ∀ key d, envCache.get? key = some d → EnvironmentOk setting d key.2) :
    Inv setting { s.goes r phase with ruleCache, envCache } := by
  have hext : Extends s { s.goes r phase with ruleCache, envCache } :=
    ⟨fun _ ha => ha, fun _ _ ha => ha, le_refl _, .inl rfl⟩
  exact ⟨h.newest, h.comparable, h.pinned, h.published.mono hext, hrules, henvs,
    phases_update h.phases hext rfl (hr.mono hext)⟩

/-! ## Every action -/

/-- **The condition**: while a request compiles rules, what is published has the security signals of
its own access data. -/
def CompilesUnderOwn (setting : Setting) (s : Kernel) : Action → Prop
  | .compile r _ => ∀ session, s.phase r = .compiling session →
      securitySignals setting.signalTables s.published.dynamic.signals
        = securitySignals setting.signalTables session.dynamic.dynamic.signals
  | _ => True

instance (setting : Setting) (s : Kernel) (a : Action) :
    Decidable (CompilesUnderOwn setting s a) :=
  match a with
  | .compile r _ =>
    match h : s.phase r with
    | .compiling session =>
      decidable_of_iff (securitySignals setting.signalTables s.published.dynamic.signals
          = securitySignals setting.signalTables session.dynamic.dynamic.signals) (by
        simp [CompilesUnderOwn, h])
    | .start | .compare _ | .stamp _ _ | .load _ | .clearRules _ | .clearEnvironments _
    | .checked _ | .missed _ | .entered _ _ | .evictRules _ | .evictEnvironments _ | .ready _
    | .refused => isTrue (by simp [CompilesUnderOwn, h])
  | .advance _ | .read _ | .compare _ | .stamp _ | .publish _ | .clearRules _
  | .clearEnvironments _ | .reuse _ _ | .lookupEnvironment _ _ | .insertEnvironment _ _
  | .lookupRules _ _ _ | .insertRules _ | .evictRules _ | .evictEnvironments _ | .fail _ =>
    isTrue trivial

section Steps

variable {arc : Arc} {environment : Dynamic} {user : UserCtx} {session : Session}

/-- A request that has a `Dynamic` has checked it. -/
lemma CheckedOk.of_dynamic? (h : Inv setting s) (hd : (s.phase r).dynamic? = some arc) :
    CheckedOk setting s r arc := by
  have hok := h.phases r
  cases hphase : s.phase r with
  | clearRules d => rw [hphase] at hok hd; exact Option.some.inj hd ▸ hok
  | clearEnvironments d => rw [hphase] at hok hd; exact Option.some.inj hd ▸ hok
  | checked d => rw [hphase] at hok hd; exact Option.some.inj hd ▸ hok
  | missed d => rw [hphase] at hok hd; exact Option.some.inj hd ▸ hok
  | entered d e => rw [hphase] at hok hd; exact Option.some.inj hd ▸ hok.1
  | compiling d => rw [hphase] at hok hd; exact Option.some.inj hd ▸ hok.checked
  | evictRules d => rw [hphase] at hok hd; exact Option.some.inj hd ▸ hok.checked
  | evictEnvironments d => rw [hphase] at hok hd; exact Option.some.inj hd ▸ hok.checked
  | ready d => rw [hphase] at hok hd; exact Option.some.inj hd ▸ hok.checked
  | start => rw [hphase] at hd; simp [Phase.dynamic?] at hd
  | compare _ => rw [hphase] at hd; simp [Phase.dynamic?] at hd
  | stamp _ _ => rw [hphase] at hd; simp [Phase.dynamic?] at hd
  | load _ => rw [hphase] at hd; simp [Phase.dynamic?] at hd
  | refused => rw [hphase] at hd; simp [Phase.dynamic?] at hd

lemma inv_reuse {q : ℕ} (h : Inv setting s) (hq : (s.phase q).dynamic? = some arc)
    (hsame : setting.transaction r = setting.transaction q) :
    Inv setting (s.goes r (.checked arc)) := by
  have hchecked := CheckedOk.of_dynamic? h hq
  refine h.goes ⟨hchecked.1, hchecked.2.imp_right ?_⟩
  rw [hsame]
  exact id

lemma inv_lookup {seeds : List String} (h : Inv setting s)
    (hp : s.phase r = .entered arc environment) :
    Inv setting (s.goes r (s.afterLookup setting arc environment user seeds)) := by
  have hok := h.phases r
  rw [hp] at hok
  refine h.goes ?_
  have hrules : RulesOk setting ((s.ruleCache.get? (keyOf setting user arc)).getD [])
      (keyOf setting user arc) := by
    cases hbase : s.ruleCache.get? (keyOf setting user arc) with
    | none => simp [RulesOk]
    | some rules => exact h.ruleCache _ rules hbase
  have hsession : SessionOk setting s r
      ⟨arc, environment, user, (s.ruleCache.get? (keyOf setting user arc)).getD []⟩ :=
    ⟨hok.1, hok.2, hrules⟩
  unfold afterLookup
  simp only
  split <;> exact hsession

/-- What is compiled while the published `Dynamic` agrees with the request's belongs to its key. -/
lemma inv_compile {model : String} (h : Inv setting s) (hp : s.phase r = .compiling session)
    (hown : CompilesUnderOwn setting s (.compile r model)) :
    Inv setting (s.goes r (.compiling { session with
      rules := session.rules
        ++ [{ model, user := session.user, source := s.published.dynamic }] })) := by
  have hok := h.phases r
  rw [hp] at hok
  refine h.goes ⟨hok.checked, hok.environment, fun c hc => ?_⟩
  rcases List.mem_append.mp hc with hc | hc
  · exact hok.rules c hc
  · obtain rfl := List.mem_singleton.mp hc
    exact ⟨rfl, h.published.sound, hown session hp⟩

lemma inv_insertRules (h : Inv setting s) (hp : s.phase r = .compiling session) :
    Inv setting { s.goes r (.evictRules session) with
      ruleCache := s.ruleCache.insert (keyOf setting session.user session.dynamic)
        session.rules } := by
  have hok := h.phases r
  rw [hp] at hok
  refine inv_caches h hok (fun key rules hget => ?_) h.envCache
  rw [Dict.get?_insert] at hget
  split at hget
  · next hkey => exact hkey ▸ Option.some.inj hget ▸ hok.rules
  · exact h.ruleCache key rules hget

lemma inv_insertEnvironment {uid : ℤ} (h : Inv setting s) (hp : s.phase r = .missed arc) :
    Inv setting { s.goes r (.entered arc arc.dynamic) with
      envCache := s.envCache.insert
        (uid, securitySignals setting.signalTables arc.dynamic.signals) arc.dynamic } := by
  have hok := h.phases r
  rw [hp] at hok
  have henv : EnvironmentOk setting arc.dynamic
      (securitySignals setting.signalTables arc.dynamic.signals) := ⟨hok.1.sound, rfl⟩
  refine inv_caches h ⟨hok, henv⟩ h.ruleCache fun key d hget => ?_
  rw [Dict.get?_insert] at hget
  split at hget
  · next hkey => exact hkey ▸ Option.some.inj hget ▸ henv
  · exact h.envCache key d hget

end Steps

/-- **Every action keeps the invariant**, compilations under the condition. -/
lemma inv_step {a : Action} (h : Inv setting s) (hok : CompilesUnderOwn setting s a)
    (hstep : s.step setting a = some s') : Inv setting s' := by
  cases a with
  | advance signals =>
      simp only [Kernel.step] at hstep
      split at hstep
      · next newest older hhistory =>
          split at hstep
          · next hgrows =>
              obtain rfl := Option.some.inj hstep
              exact inv_advance h hhistory hgrows
          · simp at hstep
      · simp at hstep
  | read r =>
      simp only [Kernel.step] at hstep
      split at hstep
      · exact inv_read h hstep
      · simp at hstep
  | compare r =>
      simp only [Kernel.step] at hstep
      split at hstep
      · next signals hp =>
          obtain rfl := Option.some.inj hstep
          exact inv_compare h hp
      · simp at hstep
  | stamp r =>
      simp only [Kernel.step] at hstep
      split at hstep
      · next current signals hp =>
          obtain rfl := Option.some.inj hstep
          exact inv_stamp h hp
      · simp at hstep
  | publish r =>
      simp only [Kernel.step] at hstep
      split at hstep
      · next signals snapshot hp hpin =>
          obtain rfl := Option.some.inj hstep
          exact inv_publish h hp hpin
      · simp at hstep
  | clearRules r =>
      simp only [Kernel.step] at hstep
      split at hstep
      · next fresh hp =>
          obtain rfl := Option.some.inj hstep
          have hchecked := h.phases r
          rw [hp] at hchecked
          exact inv_caches h hchecked (by simp) h.envCache
      · simp at hstep
  | clearEnvironments r =>
      simp only [Kernel.step] at hstep
      split at hstep
      · next fresh hp =>
          obtain rfl := Option.some.inj hstep
          have hchecked := h.phases r
          rw [hp] at hchecked
          exact inv_caches h hchecked h.ruleCache (by simp)
      · simp at hstep
  | reuse r checkedBy =>
      simp only [Kernel.step] at hstep
      split at hstep
      · next arc hp hq =>
          split at hstep
          · next hsame =>
              split at hstep
              · obtain rfl := Option.some.inj hstep
                exact h.goes trivial
              · obtain rfl := Option.some.inj hstep
                exact inv_reuse h hq hsame
          · simp at hstep
      · simp at hstep
  | lookupEnvironment r uid =>
      simp only [Kernel.step] at hstep
      split at hstep
      · next arc hp =>
          have hchecked := h.phases r
          rw [hp] at hchecked
          split at hstep
          · next environment henv =>
              obtain rfl := Option.some.inj hstep
              exact h.goes ⟨hchecked, h.envCache _ _ henv⟩
          · obtain rfl := Option.some.inj hstep
            exact h.goes hchecked
      · simp at hstep
  | insertEnvironment r uid =>
      simp only [Kernel.step] at hstep
      split at hstep
      · next arc hp =>
          obtain rfl := Option.some.inj hstep
          exact inv_insertEnvironment h hp
      · simp at hstep
  | lookupRules r user seeds =>
      simp only [Kernel.step] at hstep
      split at hstep
      · next arc environment hp =>
          obtain rfl := Option.some.inj hstep
          exact inv_lookup h hp
      · simp at hstep
  | compile r model =>
      simp only [Kernel.step] at hstep
      split at hstep
      · next session hp =>
          obtain rfl := Option.some.inj hstep
          exact inv_compile h hp hok
      · simp at hstep
  | insertRules r =>
      simp only [Kernel.step] at hstep
      split at hstep
      · next session hp =>
          obtain rfl := Option.some.inj hstep
          exact inv_insertRules h hp
      · simp at hstep
  | evictRules r =>
      simp only [Kernel.step] at hstep
      split at hstep
      · next session hp =>
          obtain rfl := Option.some.inj hstep
          have hsession := h.phases r
          rw [hp] at hsession
          exact inv_caches h hsession (fun key rules hget => h.ruleCache key rules
            (get?_of_evict hget)) h.envCache
      · simp at hstep
  | evictEnvironments r =>
      simp only [Kernel.step] at hstep
      split at hstep
      · next session hp =>
          obtain rfl := Option.some.inj hstep
          have hsession := h.phases r
          rw [hp] at hsession
          exact inv_caches h hsession h.ruleCache fun key d hget => h.envCache key d
            (get?_of_evict hget)
      · simp at hstep
  | fail r =>
      simp only [Kernel.step] at hstep
      obtain rfl := Option.some.inj hstep
      exact h.goes trivial

lemma inv_initial (setting : Setting) (signals : Signals) : Inv setting (Kernel.initial signals) where
  newest := ⟨signals, [], rfl, fun b hb => List.mem_singleton.mp hb ▸ .refl _⟩
  comparable a ha b hb :=
    .inl (List.mem_singleton.mp ha ▸ List.mem_singleton.mp hb ▸ .refl _)
  pinned _ _ h := by simp [Kernel.initial] at h
  published := ⟨List.mem_cons_self, .refl _ _, Nat.zero_lt_one, fun _ => rfl⟩
  ruleCache _ _ h := by simp [Kernel.initial] at h
  envCache _ _ h := by simp [Kernel.initial] at h
  phases _ := trivial

/-- **A stamp never publishes an older snapshot over a newer one.** -/
lemma stamp_publishes_newer {current : Arc} {signals : Signals} (h : Inv setting s)
    (hp : s.phase r = .stamp current signals) :
    Grows s.published.dynamic.signals
      (s.stampSignals r current signals).published.dynamic.signals := by
  have hok := h.phases r
  rw [hp] at hok
  obtain ⟨hpin, hcurrent, hadv, -⟩ := hok
  by_cases haddress : s.published.address = current.address
  · -- what is stamped is what is published, and a sequence of the snapshot is ahead of it
    have hsame := hcurrent.same haddress.symm
    have hnew : (s.stampSignals r current signals).published.dynamic.signals = signals := by
      simp [Kernel.stampSignals, haddress]
    rw [hnew, ← hsame]
    rcases h.comparable _ hcurrent.known _ (h.pinned _ _ hpin) with hg | hg
    · exact hg
    · exact absurd hg (not_grows_of_advanced hadv)
  · have hsame : (s.stampSignals r current signals).published = s.published := by
      simp [Kernel.stampSignals, haddress]
    rw [hsame]
    exact .refl _

/-! ## The runs -/

/-- A request works with access data that is current at the snapshot its transaction read: so are
its `Dynamic`, the environment it took, and the rules it took or compiled, which are its own. -/
structure AnswersAtOwn (setting : Setting) (s : Kernel) (r : ℕ) : Prop where
  dynamic : ∀ arc, (s.phase r).dynamic? = some arc → setting.plan = none ∨
    ∃ snapshot, s.pinned (setting.transaction r) = some snapshot ∧
      SameWatched setting.signalTables arc.dynamic.signals snapshot ∧
      SameWatched setting.signalTables arc.dynamic.loaded snapshot
  environment : ∀ session, (s.phase r).session? = some session →
    securitySignals setting.signalTables session.environment.signals
      = securitySignals setting.signalTables session.dynamic.dynamic.signals
  rules : ∀ session, (s.phase r).session? = some session → ∀ c ∈ session.rules,
    c.user = session.user ∧
      securitySignals setting.signalTables c.source.signals
        = securitySignals setting.signalTables session.dynamic.dynamic.signals ∧
      securitySignals setting.signalTables c.source.loaded
        = securitySignals setting.signalTables session.dynamic.dynamic.signals

/-- Every stamp that can be taken publishes nothing older. -/
def StampsForward (setting : Setting) (s : Kernel) : Prop :=
  ∀ r s', s.step setting (.stamp r) = some s' →
    Grows s.published.dynamic.signals s'.published.dynamic.signals

lemma SessionOk.of_session? {session : Session} (h : Inv setting s)
    (hd : (s.phase r).session? = some session) : SessionOk setting s r session := by
  have hok := h.phases r
  cases hphase : s.phase r with
  | compiling d => rw [hphase] at hok hd; exact Option.some.inj hd ▸ hok
  | evictRules d => rw [hphase] at hok hd; exact Option.some.inj hd ▸ hok
  | evictEnvironments d => rw [hphase] at hok hd; exact Option.some.inj hd ▸ hok
  | ready d => rw [hphase] at hok hd; exact Option.some.inj hd ▸ hok
  | _ => rw [hphase] at hd; simp [Phase.session?] at hd

/-- What the invariant says of one request. -/
lemma Inv.answersAtOwn (h : Inv setting s) (r : ℕ) : AnswersAtOwn setting s r where
  dynamic arc hd := by
    obtain ⟨harc, hread⟩ := CheckedOk.of_dynamic? h hd
    exact hread.imp_right fun ⟨snapshot, hpin, hsame⟩ =>
      ⟨snapshot, hpin, hsame, harc.sound.trans hsame⟩
  environment session hd := (SessionOk.of_session? h hd).environment.2
  rules session hd c hc := by
    obtain ⟨huser, hsound, hsignals⟩ := (SessionOk.of_session? h hd).rules c hc
    exact ⟨huser, hsignals, hsound.securitySignals_eq.trans hsignals⟩

/-- **Requests are not answered from older access data** in any run in which rules are only compiled
while what is published has the security signals of the request's own access data; and no stamp of
such a run publishes an older snapshot over a newer one. -/
theorem answered_at_own_snapshot {signals : Signals} {actions : List Action}
    (h : RunsWhile (Kernel.step setting) (CompilesUnderOwn setting) (Kernel.initial signals)
      actions s) :
    (∀ r, AnswersAtOwn setting s r) ∧ StampsForward setting s := by
  have hinv : Inv setting s :=
    h.keeps (fun _ _ _ hs hok hstep => inv_step hs hok hstep) (inv_initial setting signals)
  refine ⟨hinv.answersAtOwn, fun r s' hstep => ?_⟩
  simp only [Kernel.step] at hstep
  split at hstep
  · next current signals hp =>
      obtain rfl := Option.some.inj hstep
      exact stamp_publishes_newer hinv hp
  · simp at hstep

/-! ### Two runs -/

/-- A database with two signal tables, and a transaction for each request. -/
def twoTables : Setting where
  plan := some ["orm_signaling_registry", "orm_signaling_stable"]
  transaction := id

/-- The signals of the two tables. -/
def signalsAt (registry stable : ℤ) : Signals := [(registry : WithBot ℤ), (stable : WithBot ℤ)]

/-- A principal in one company. -/
def employee : UserCtx where
  uid := 2
  companyId := 1
  companyIds := [1]
  groups := {1}
  scopes := []
  accessPartner := none

/-- A request checks its snapshot against an older `Dynamic` and publishes its own. -/
def refreshes (r : ℕ) : List Action :=
  [.read r, .compare r, .publish r, .clearRules r, .clearEnvironments r]

/-- A request enters an identity that no cache knows, and compiles the rules of the partners. -/
def compilesRules (r : ℕ) : List Action :=
  [.lookupEnvironment r 2, .insertEnvironment r 2, .lookupRules r employee ["res.partner"],
    .compile r "res.partner"]

/-- The access data changes, a request compiles its rules, and the next one takes them. -/
def currentActions : List Action :=
  .advance (signalsAt 1 2) :: refreshes 0 ++ compilesRules 0
    ++ [.insertRules 0, .evictRules 0, .evictEnvironments 0, .read 1, .compare 1,
      .lookupEnvironment 1 2, .lookupRules 1 employee ["res.partner"]]

/-- The second request answers from the rules that the first one compiled, at its own snapshot. -/
theorem answered_at_own_snapshot_cached : ∃ s,
    run (Kernel.step twoTables) (Kernel.initial (signalsAt 1 1)) currentActions = some s ∧
      ((s.phase 1).session?.map fun session => session.rules.map (·.model))
        = some ["res.partner"] ∧
      (∀ r, AnswersAtOwn twoTables s r) ∧ StampsForward twoTables s := by
  have hphase : (run (Kernel.step twoTables) (Kernel.initial (signalsAt 1 1)) currentActions).map
      (fun s => (s.phase 1).session?.map fun session => session.rules.map (·.model))
        = some (some ["res.partner"]) := by
    decide +kernel
  obtain ⟨s, hrun, hmodels⟩ := Option.map_eq_some_iff.mp hphase
  have hok : Throughout (Kernel.step twoTables) (CompilesUnderOwn twoTables)
      (Kernel.initial (signalsAt 1 1)) currentActions := by
    decide +kernel
  exact ⟨s, hrun, hmodels, answered_at_own_snapshot (runsWhile_of_run hok hrun)⟩

/-- Two requests load the access data of their snapshots, and the older one publishes last.  The
other then compiles rules from the older data, and caches them after a third request has cleared the
caches. -/
def staleActions : List Action :=
  [.advance (signalsAt 1 2), .read 0, .compare 0, .advance (signalsAt 1 3)] ++ refreshes 1 ++ [.publish 0]
    ++ compilesRules 1 ++ refreshes 2
    ++ [.insertRules 1, .lookupEnvironment 2 2, .insertEnvironment 2 2,
      .lookupRules 2 employee ["res.partner"]]

/-- What a request's rules come from. -/
structure RulesOrigin where
  snapshot : Option Signals
  signals : Signals
  sources : List Signals
deriving DecidableEq

/-- The snapshot a request reads, its own signals, and the snapshots its rules come from. -/
def rulesOrigin (s : Kernel) (r : ℕ) : Option RulesOrigin :=
  (s.phase r).session?.map fun session =>
    { snapshot := s.pinned r
      signals := session.dynamic.dynamic.signals
      sources := session.rules.map fun c => c.source.loaded }

/-- The third request takes rules from the cache that were compiled from access data older than its
own snapshot. -/
theorem rules_of_older_data : ∃ s,
    run (Kernel.step twoTables) (Kernel.initial (signalsAt 1 1)) staleActions = some s ∧
      rulesOrigin s 2 = some ⟨some (signalsAt 1 3), signalsAt 1 3, [signalsAt 1 2]⟩ ∧
      ¬ AnswersAtOwn twoTables s 2 := by
  have hend : (run (Kernel.step twoTables) (Kernel.initial (signalsAt 1 1)) staleActions).map
      (rulesOrigin · 2) = some (some ⟨some (signalsAt 1 3), signalsAt 1 3, [signalsAt 1 2]⟩) := by
    decide +kernel
  obtain ⟨s, hrun, hs⟩ := Option.map_eq_some_iff.mp hend
  refine ⟨s, hrun, hs, fun hown => ?_⟩
  obtain ⟨session, hsession, horigin⟩ := Option.map_eq_some_iff.mp hs
  obtain ⟨-, hsignals, hloaded⟩ := RulesOrigin.mk.inj horigin
  obtain ⟨c, hc, hsource⟩ : ∃ c ∈ session.rules, c.source.loaded = signalsAt 1 2 := by
    rw [← List.mem_map, hloaded]
    exact List.mem_singleton_self _
  have hsame := (hown.rules session hsession c hc).2.2
  rw [hsignals, hsource] at hsame
  exact absurd hsame (by decide +kernel)

end OdooKernel
