import OdooKernel.Core.Counting
import OdooKernel.Pool.Leases

/-!
# The books of the connection pool

What adds up in the pool, whatever order the requests take their steps in.  There are many steps and
three invariants; what a step can do to the permits and the leases is said once (`Pool.Effect`,
`effect_of_step`), and each invariant is kept by cases on that.

**The equations.**  A free connection has its permit in one of three places: among the permits, with
a request that was granted one and has not popped yet, or still to be added by a lease that has
pushed its connection (`Pool.Books.permits`).  The last two are why the count of free connections is
not the count of permits at every moment.  What is free and what is leased is what the pool was
opened with.

**No connection is in two places** (`Pool.Apart`).  This is what lets a connection's session be
spoken of: what one lease does to its own connection leaves every other one as it was.
-/

namespace OdooKernel

namespace Pool

variable {ι : Type} [DecidableEq ι] {dispatches : ι → Bool} {s s' : Pool ι}

/-! ## Where a request stands -/

/-- A permit that was granted and not used yet. -/
def isGranted : LeasePhase → ℕ
  | .granted => 1
  | _ => 0

/-- A permit that is still to be put back. -/
def isReturning : LeasePhase → ℕ
  | .returning => 1
  | _ => 0

/-- A lease. -/
def isHolding (p : LeasePhase) : ℕ := if p.held.isSome then 1 else 0

/-! ## What an action does -/

/-- A request in these phases may have its transaction open. -/
def inTransaction : LeasePhase → Bool
  | .running _ | .committing _ | .rollingBack _ | .failed _ => true
  | _ => false

/-- A connection that may be handed to any request: its session is in no transaction, unless nobody
will be handed it. -/
def IsClean (connection : Connection ι) : Prop :=
  connection.isUnusable = true ∨ connection.transaction = none

/-- A connection that a request may hold: the transaction of the session is its own. -/
def IsCleanFor (r : ι) (p : LeasePhase) (connection : Connection ι) : Prop :=
  IsClean connection ∨ inTransaction p = true ∧ connection.transaction = some r

/-- The ways in which an action moves the permits and the leases. -/
inductive Effect (s : Pool ι) : Pool ι → Prop where
  | spoils (conn : ℕ) (connection : ℕ → Connection ι)
      (hothers : ∀ x, x ≠ conn → connection x = s.connection x)
      (hbad : (connection conn).isUnusable = true) : Effect s { s with connection }
  | asks (r : ι) (hr : s.phase r = .outside) : Effect s (s.goes r .waiting)
  | stops (r : ι) (hr : s.phase r = .waiting) : Effect s (s.goes r .done)
  | keepsLease (r : ι) (conn : ℕ) (p : LeasePhase) (connection : ℕ → Connection ι)
      (hr : (s.phase r).held = some conn) (hp : p.held = some conn)
      (hothers : ∀ x, x ≠ conn → connection x = s.connection x)
      (hclean : IsCleanFor r (s.phase r) (s.connection conn) → IsCleanFor r p (connection conn)) :
      Effect s { s.goes r p with connection }
  | grants (r : ι) (permits : ℕ) (hr : s.phase r = .waiting) (hpermits : s.permits = permits + 1) :
      Effect s { s.goes r .granted with permits }
  | pops (r : ι) (hr : s.phase r = .granted) : Effect s (s.popFree r)
  | givesBack (r : ι) (hr : s.phase r = .granted) :
      Effect s { s.goes r .done with permits := s.permits + 1 }
  | replaces (r : ι) (conn : ℕ) (hr : s.phase r = .reconnecting conn) :
      Effect s { (s.withConnection s.opened .fresh).goes r (.leased s.opened) with
        opened := s.opened + 1 }
  | drops (r : ι) (conn : ℕ) (hr : s.phase r = .dropping conn) :
      Effect s { s.goes r .returning with free := conn :: s.free }
  | adds (r : ι) (hr : s.phase r = .returning) :
      Effect s { s.goes r .done with permits := s.permits + 1 }

/-- A request goes on and leaves its connection as it is. -/
lemma Effect.goes {r : ι} {conn : ℕ} {p : LeasePhase} (hr : (s.phase r).held = some conn)
    (hp : p.held = some conn) (ht : inTransaction (s.phase r) = true → inTransaction p = true) :
    Effect s (s.goes r p) := by
  refine .keepsLease r conn p s.connection hr hp (fun _ _ => rfl) fun h => ?_
  rcases h with h | ⟨hin, h⟩
  · exact Or.inl h
  · exact Or.inr ⟨ht hin, h⟩

/-- A request goes on and changes its connection. -/
lemma Effect.changes {r : ι} {conn : ℕ} {p : LeasePhase} {connection : Connection ι}
    (hr : (s.phase r).held = some conn) (hp : p.held = some conn)
    (hclean : IsCleanFor r p connection) :
    Effect s ((s.withConnection conn connection).goes r p) := by
  refine .keepsLease r conn p _ hr hp (fun x hx => s.withConnection_of_ne hx connection) ?_
  intro _
  rwa [withConnection_self]

/-- A request poisons its connection and drops the lease. -/
lemma Effect.poisons {r : ι} {conn : ℕ} (hr : (s.phase r).held = some conn)
    (transaction : Option ι) : Effect s ((s.poison conn transaction).goes r (.dropping conn)) :=
  .changes hr rfl (Or.inl (Or.inl (by simp [Connection.isUnusable])))

/-- A request has ended its transaction. -/
lemma Effect.ends {r : ι} {conn : ℕ} {p : LeasePhase} (hr : (s.phase r).held = some conn)
    (hp : p.held = some conn) : Effect s ((s.endsIn conn none).goes r p) :=
  .changes hr hp (Or.inl (Or.inr rfl))

/-- **What an action does.** -/
lemma effect_of_step {a : PoolAction ι} (h : s.step dispatches a = some s') : Effect s s' := by
  cases a with
  | ask r =>
      simp only [step, Option.ite_none_right_eq_some, Option.some.injEq] at h
      obtain ⟨hr, rfl⟩ := h
      exact .asks r hr
  | grant r =>
      simp only [step] at h
      split at h
      · next permits hr hpermits =>
          obtain rfl := Option.some.inj h
          exact .grants r permits hr hpermits
      · exact absurd h (by simp)
  | pop r =>
      simp only [step, Option.ite_none_right_eq_some, Option.some.injEq] at h
      obtain ⟨hr, rfl⟩ := h
      exact .pops r hr
  | giveUp r =>
      simp only [step] at h
      split at h
      · next hr =>
          obtain rfl := Option.some.inj h
          exact .stops r hr
      · next hr =>
          obtain rfl := Option.some.inj h
          exact .givesBack r hr
      · next conn hr =>
          obtain rfl := Option.some.inj h
          exact .goes (by rw [hr]; rfl) rfl (by rw [hr]; nofun)
      · exact absurd h (by simp)
  | reconnect r ok =>
      simp only [step] at h
      split at h
      · next conn hr =>
          split at h
          · obtain rfl := Option.some.inj h
            exact .replaces r conn hr
          · obtain rfl := Option.some.inj h
            exact .goes (by rw [hr]; rfl) rfl (by rw [hr]; nofun)
      · exact absurd h (by simp)
  | leave r =>
      simp only [step] at h
      split at h
      · next conn hr =>
          simp only [Option.ite_none_left_eq_some, Option.some.injEq] at h
          obtain ⟨-, rfl⟩ := h
          exact .goes (by rw [hr]; rfl) rfl (by rw [hr]; nofun)
      · exact absurd h (by simp)
  | begin r ok undone =>
      simp only [step] at h
      split at h
      · next conn hr =>
          simp only [Option.ite_none_right_eq_some] at h
          obtain ⟨-, h⟩ := h
          split at h
          · obtain rfl := Option.some.inj h
            exact .changes (by rw [hr]; rfl) rfl (Or.inr ⟨rfl, rfl⟩)
          · obtain rfl := Option.some.inj h
            refine .changes (by rw [hr]; rfl) rfl ?_
            cases undone
            · exact Or.inl (Or.inr rfl)
            · exact Or.inr ⟨rfl, rfl⟩
      · exact absurd h (by simp)
  | dispatched r ok =>
      simp only [step] at h
      split at h
      · next conn hr =>
          obtain rfl := Option.some.inj h
          refine .goes (by rw [hr]; rfl) ?_ ?_
          · cases ok <;> rfl
          · cases ok <;> exact fun _ => rfl
      · exact absurd h (by simp)
  | commit r ok undone =>
      simp only [step] at h
      split at h
      · next conn hr =>
          split at h
          · obtain rfl := Option.some.inj h
            exact .ends (by rw [hr]; rfl) rfl
          · obtain rfl := Option.some.inj h
            exact .poisons (by rw [hr]; rfl) _
      · exact absurd h (by simp)
  | rollBack r ok undone =>
      simp only [step] at h
      split at h
      · next conn hr =>
          split at h
          · obtain rfl := Option.some.inj h
            exact .ends (by rw [hr]; rfl) rfl
          · obtain rfl := Option.some.inj h
            exact .poisons (by rw [hr]; rfl) _
      · next conn hr =>
          split at h
          · obtain rfl := Option.some.inj h
            exact .ends (by rw [hr]; rfl) rfl
          · obtain rfl := Option.some.inj h
            exact .poisons (by rw [hr]; rfl) _
      · exact absurd h (by simp)
  | cancel r undone =>
      simp only [step] at h
      split at h
      · next conn hr =>
          simp only [Option.ite_none_right_eq_some, Option.some.injEq] at h
          obtain ⟨-, rfl⟩ := h
          exact .poisons (by rw [hr]; rfl) _
      all_goals first
        | next conn hr =>
            obtain rfl := Option.some.inj h
            exact .poisons (by rw [hr]; rfl) _
        | exact absurd h (by simp)
  | drop r =>
      simp only [step] at h
      split at h
      · next conn hr =>
          obtain rfl := Option.some.inj h
          exact .drops r conn hr
      · exact absurd h (by simp)
  | addPermit r =>
      simp only [step, Option.ite_none_right_eq_some, Option.some.injEq] at h
      obtain ⟨hr, rfl⟩ := h
      exact .adds r hr
  | close conn =>
      obtain rfl := Option.some.inj h
      exact .spoils conn _ (fun x hx => s.withConnection_of_ne hx _)
        (by simp [Connection.isUnusable])
  | settle conn transaction =>
      simp only [step, Option.ite_none_right_eq_some, Option.some.injEq] at h
      obtain ⟨hbad, rfl⟩ := h
      exact .spoils conn _ (fun x hx => s.withConnection_of_ne hx _)
        (by simp [Connection.isUnusable, hbad])

/-! ## The permits and the connections add up -/

section Books

variable [Fintype ι]

/-- The permits and the connections add up. -/
structure Books (size : ℕ) (s : Pool ι) : Prop where
  permits : s.free.length =
    s.permits + countOf isGranted s.phase + countOf isReturning s.phase
  size : s.free.length + countOf isHolding s.phase = size
  calm : ∀ r, s.phase r ≠ .panicked

variable {size : ℕ}

/-- What a request that goes on changes in the books. -/
lemma Books.update (h : Books size s) {r : ι} {p : LeasePhase}
    (hphase : s'.phase = Function.update s.phase r p) (hcalm : p ≠ .panicked)
    (hpermits : s'.free.length + s.permits + isGranted (s.phase r) + isReturning (s.phase r) =
      s.free.length + s'.permits + isGranted p + isReturning p)
    (hsize : s'.free.length + isHolding p = s.free.length + isHolding (s.phase r)) :
    Books size s' := by
  have hgranted := countOf_update isGranted s.phase r p
  have hreturning := countOf_update isReturning s.phase r p
  have hholding := countOf_update isHolding s.phase r p
  have := h.permits
  have := h.size
  refine ⟨by rw [hphase]; omega, by rw [hphase]; omega, fun x => ?_⟩
  rw [hphase]
  by_cases hx : x = r
  · subst hx
    rwa [Function.update_self]
  · rw [Function.update_of_ne hx]
    exact h.calm x

/-- A request that goes on with what it has. -/
lemma Books.goes (h : Books size s) {r : ι} {p : LeasePhase} (hcalm : p ≠ .panicked)
    (hgranted : isGranted p = isGranted (s.phase r))
    (hreturning : isReturning p = isReturning (s.phase r))
    (hholding : isHolding p = isHolding (s.phase r)) (hfree : s'.free = s.free)
    (hpermits : s'.permits = s.permits) (hphase : s'.phase = Function.update s.phase r p) :
    Books size s' :=
  h.update hphase hcalm (by rw [hfree, hpermits]; omega) (by rw [hfree]; omega)

omit [DecidableEq ι] in
/-- A request with a permit finds a connection. -/
lemma Books.free_ne_nil (h : Books size s) {r : ι} (hr : s.phase r = .granted) : s.free ≠ [] := by
  intro hfree
  have hpermits := h.permits
  have := weight_le_countOf isGranted s.phase r
  rw [hr] at this
  simp only [isGranted] at this
  rw [hfree] at hpermits
  simp only [List.length_nil] at hpermits
  omega

lemma Books.pop (h : Books size s) {r : ι} (hr : s.phase r = .granted) :
    Books size (s.popFree r) := by
  unfold popFree
  split
  · next hfree => exact absurd hfree (h.free_ne_nil hr)
  · next conn free hfree =>
      refine h.update (p := if (s.connection conn).isUnusable then .reconnecting conn
        else .leased conn) rfl ?_ ?_ ?_
      · split <;> simp
      · rw [hr, hfree]
        split
        all_goals
          simp only [isGranted, isReturning, List.length_cons]
          show free.length + s.permits + 1 + 0 = free.length + 1 + s.permits + 0 + 0
          omega
      · rw [hr, hfree]
        split
        all_goals simp [isHolding, LeasePhase.held]

/-- A lease stands for no permit. -/
lemma counts_of_held {p : LeasePhase} {conn : ℕ} (h : p.held = some conn) :
    isGranted p = 0 ∧ isReturning p = 0 ∧ isHolding p = 1 ∧ p ≠ .panicked := by
  cases p <;> simp_all [LeasePhase.held, isGranted, isReturning, isHolding]

lemma Books.step {a : PoolAction ι} (h : Books size s) (hstep : s.step dispatches a = some s') :
    Books size s' := by
  rcases effect_of_step hstep with ⟨conn, connection, -, -⟩ | ⟨r, hr⟩ | ⟨r, hr⟩ |
    ⟨r, conn, p, connection, hr, hp, -, -⟩ | ⟨r, permits, hr, hpermits⟩ | ⟨r, hr⟩ | ⟨r, hr⟩ |
    ⟨r, conn, hr⟩ | ⟨r, conn, hr⟩ | ⟨r, hr⟩
  · exact ⟨h.permits, h.size, h.calm⟩
  · exact h.update (r := r) (p := .waiting) rfl (by simp) (by rw [hr]; rfl) (by rw [hr]; rfl)
  · exact h.update (r := r) (p := .done) rfl (by simp) (by rw [hr]; rfl) (by rw [hr]; rfl)
  · obtain ⟨hgranted, hreturning, hholding, hcalm⟩ := counts_of_held hp
    obtain ⟨hgranted', hreturning', hholding', -⟩ := counts_of_held hr
    refine h.update (r := r) (p := p) rfl hcalm ?_ ?_
    · rw [hgranted, hreturning, hgranted', hreturning']
      rfl
    · rw [hholding, hholding']
      rfl
  · refine h.update (r := r) (p := .granted) rfl (by simp) ?_ (by rw [hr]; rfl)
    rw [hr]
    simp only [isGranted, isReturning, goes_free]
    omega
  · exact h.pop hr
  · refine h.update (r := r) (p := .done) rfl (by simp) ?_ (by rw [hr]; rfl)
    rw [hr]
    simp only [isGranted, isReturning, goes_free]
    omega
  · exact h.update (r := r) (p := .leased s.opened) rfl (by simp) (by rw [hr]; rfl) (by rw [hr]; rfl)
  · refine h.update (r := r) (p := .returning) rfl (by simp) ?_ ?_
    · rw [hr]
      simp only [isGranted, isReturning, goes_permits, List.length_cons]
      omega
    · rw [hr]
      simp [isHolding, LeasePhase.held]
  · refine h.update (r := r) (p := .done) rfl (by simp) ?_ (by rw [hr]; rfl)
    rw [hr]
    simp only [isGranted, isReturning, goes_free]
    omega

omit [DecidableEq ι] in
lemma Books.initial : Books size (initial size : Pool ι) where
  permits := by
    have hgranted : countOf isGranted (Pool.initial size : Pool ι).phase = 0 :=
      countOf_eq_zero fun _ => rfl
    have hreturning : countOf isReturning (Pool.initial size : Pool ι).phase = 0 :=
      countOf_eq_zero fun _ => rfl
    rw [hgranted, hreturning]
    simp [Pool.initial]
  size := by
    have hholding : countOf isHolding (Pool.initial size : Pool ι).phase = 0 :=
      countOf_eq_zero fun _ => rfl
    rw [hholding]
    simp [Pool.initial]
  calm r := by simp [Pool.initial]

end Books

/-! ## No connection is in two places -/

/-- Every connection is free or in one lease, and the pool has opened it. -/
structure Apart (s : Pool ι) : Prop where
  nodup : s.free.Nodup
  notFree : ∀ r conn, (s.phase r).held = some conn → conn ∉ s.free
  once : ∀ r r' conn, (s.phase r).held = some conn → (s.phase r').held = some conn → r = r'
  freeOpened : ∀ conn ∈ s.free, conn < s.opened
  heldOpened : ∀ r conn, (s.phase r).held = some conn → conn < s.opened

omit [DecidableEq ι] in
/-- It is a matter of the leases and of what is free alone. -/
lemma Apart.of_eq (h : Apart s) (hfree : s'.free = s.free) (hopened : s'.opened = s.opened)
    (hphase : s'.phase = s.phase) : Apart s' := by
  refine ⟨?_, ?_, ?_, ?_, ?_⟩
  · rw [hfree]
    exact h.nodup
  · rw [hfree, hphase]
    exact h.notFree
  · rw [hphase]
    exact h.once
  · rw [hfree, hopened]
    exact h.freeOpened
  · rw [hphase, hopened]
    exact h.heldOpened

/-- The leases of the requests, one of which goes on. -/
lemma held_goes (r x : ι) (p : LeasePhase) :
    ((s.goes r p).phase x).held = if x = r then p.held else (s.phase x).held := by
  by_cases hx : x = r
  · subst hx
    rw [if_pos rfl, goes_phase_self]
  · rw [if_neg hx, goes_phase_of_ne s hx]

/-- A request with the same lease, or one that it lets go. -/
lemma Apart.goes (h : Apart s) {r : ι} {p : LeasePhase}
    (hp : ∀ conn, p.held = some conn → (s.phase r).held = some conn) : Apart (s.goes r p) := by
  have hback : ∀ x conn, ((s.goes r p).phase x).held = some conn →
      (s.phase x).held = some conn := by
    intro x conn hx
    rw [held_goes] at hx
    split at hx
    · next hxr =>
        rw [hxr]
        exact hp conn hx
    · exact hx
  exact ⟨h.nodup, fun x conn hx => h.notFree x conn (hback x conn hx),
    fun x y conn hx hy => h.once x y conn (hback x conn hx) (hback y conn hy), h.freeOpened,
    fun x conn hx => h.heldOpened x conn (hback x conn hx)⟩

/-- A request leases a connection that nobody else has. -/
lemma Apart.leases (h : Apart s) (r : ι) (p : LeasePhase) (conn : ℕ) {free : List ℕ} {opened : ℕ}
    (hp : p.held = some conn) (hfree : free.Sublist s.free) (hnot : conn ∉ free)
    (hnew : ∀ x, (s.phase x).held ≠ some conn) (hconn : conn < opened) (hopened : s.opened ≤ opened)
    (hs : s'.free = free ∧ s'.opened = opened ∧ s'.phase = (s.goes r p).phase) : Apart s' := by
  obtain ⟨hsfree, hsopened, hsphase⟩ := hs
  have hback : ∀ x c, (s'.phase x).held = some c → x = r ∧ c = conn ∨ (s.phase x).held = some c := by
    intro x c hx
    rw [hsphase, held_goes] at hx
    split at hx
    · next hxr =>
        rw [hp] at hx
        exact Or.inl ⟨hxr, (Option.some.inj hx).symm⟩
    · exact Or.inr hx
  refine ⟨?_, ?_, ?_, ?_, ?_⟩
  · rw [hsfree]
    exact h.nodup.sublist hfree
  · intro x c hx
    rw [hsfree]
    rcases hback x c hx with ⟨-, rfl⟩ | hold
    · exact hnot
    · exact fun hmem => h.notFree x c hold (hfree.subset hmem)
  · intro x y c hx hy
    rcases hback x c hx with ⟨rfl, rfl⟩ | hx
    · rcases hback y _ hy with ⟨rfl, -⟩ | hy
      · rfl
      · exact absurd hy (hnew y)
    · rcases hback y c hy with ⟨-, rfl⟩ | hy
      · exact absurd hx (hnew x)
      · exact h.once x y c hx hy
  · intro c hc
    rw [hsfree] at hc
    have := h.freeOpened c (hfree.subset hc)
    omega
  · intro x c hx
    rcases hback x c hx with ⟨-, rfl⟩ | hold
    · omega
    · have := h.heldOpened x c hold
      omega

/-- A request puts its connection back. -/
lemma Apart.drops (h : Apart s) {r : ι} {conn : ℕ} (hr : (s.phase r).held = some conn) :
    Apart { s.goes r .returning with free := conn :: s.free } := by
  have hgone : Apart (s.goes r .returning) := h.goes (by simp [LeasePhase.held])
  refine ⟨List.nodup_cons.2 ⟨h.notFree r conn hr, h.nodup⟩, ?_, hgone.once, ?_, hgone.heldOpened⟩
  · intro x c hx hmem
    rcases List.mem_cons.1 hmem with rfl | hmem
    · change ((s.goes r .returning).phase x).held = some c at hx
      rw [held_goes] at hx
      split at hx
      · exact absurd hx (by simp [LeasePhase.held])
      · next hne => exact hne (h.once x r c hx hr)
    · exact hgone.notFree x c hx hmem
  · intro c hc
    rcases List.mem_cons.1 hc with rfl | hc
    · exact h.heldOpened r c hr
    · exact h.freeOpened c hc

lemma Apart.step {a : PoolAction ι} (h : Apart s) (hstep : s.step dispatches a = some s') :
    Apart s' := by
  rcases effect_of_step hstep with ⟨conn, connection, -, -⟩ | ⟨r, hr⟩ | ⟨r, hr⟩ |
    ⟨r, conn, p, connection, hr, hp, -, -⟩ | ⟨r, permits, hr, hpermits⟩ | ⟨r, hr⟩ | ⟨r, hr⟩ |
    ⟨r, conn, hr⟩ | ⟨r, conn, hr⟩ | ⟨r, hr⟩
  · exact h.of_eq rfl rfl rfl
  · exact h.goes nofun
  · exact h.goes nofun
  · have hsame : Apart (s.goes r p) := h.goes fun c hc => by rwa [hr, ← hp]
    exact hsame.of_eq rfl rfl rfl
  · have hsame : Apart (s.goes r .granted) := h.goes nofun
    exact hsame.of_eq rfl rfl rfl
  · unfold popFree
    split
    · exact h.goes nofun
    · next conn free hfree =>
        have hnodup := h.nodup
        rw [hfree] at hnodup
        refine h.leases r _ conn (?_ : LeasePhase.held _ = _) ?_ (List.nodup_cons.1 hnodup).1 ?_
          (h.freeOpened conn ?_) le_rfl ⟨rfl, rfl, rfl⟩
        · split <;> rfl
        · rw [hfree]
          exact List.sublist_cons_self conn free
        · intro x hx
          exact h.notFree x conn hx (by simp [hfree])
        · simp [hfree]
  · have hsame : Apart (s.goes r .done) := h.goes nofun
    exact hsame.of_eq rfl rfl rfl
  · refine h.leases r (.leased s.opened) s.opened rfl (List.Sublist.refl s.free) ?_ ?_ (Nat.lt_succ_self _) (Nat.le_succ _) ⟨rfl, rfl, rfl⟩
    · intro hmem
      exact absurd (h.freeOpened _ hmem) (lt_irrefl _)
    · intro x hx
      exact absurd (h.heldOpened x _ hx) (lt_irrefl _)
  · exact h.drops (by rw [hr]; rfl)
  · have hsame : Apart (s.goes r .done) := h.goes nofun
    exact hsame.of_eq rfl rfl rfl

omit [DecidableEq ι] in
lemma Apart.initial (size : ℕ) : Apart (initial size : Pool ι) where
  nodup := List.nodup_range
  notFree := by simp [Pool.initial, LeasePhase.held]
  once := by simp [Pool.initial, LeasePhase.held]
  freeOpened := by simp [Pool.initial]
  heldOpened := by simp [Pool.initial, LeasePhase.held]

end Pool

end OdooKernel
