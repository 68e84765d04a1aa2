import OdooKernel.Pool.Books

/-!
# The sessions of the connection pool

What a request finds on the connection that it is handed.  `Pool.Clean` says of every free connection
that its session is in no transaction or that no request will be handed it, and of every leased one
that it is at most in the transaction of the request that holds it.  A step keeps it because no
connection is in two places (`Pool.Apart`): what a request does to its session is done to its own.

* `Pool.Clean` — no connection is handed out inside an earlier transaction.
* **`pool_keeps_its_books`** — what holds in every state that a run of the pool reaches.
* `free_exceeds_permits` — in the middle of a lease's drop a connection is free for which no permit
  stands, so that the free connections are not the permits and the granted ones alone.
-/

namespace OdooKernel

namespace Pool

variable {ι : Type} [DecidableEq ι] {dispatches : ι → Bool} {s s' : Pool ι}

/-- No free connection is in a transaction, and none in a lease is in one of another request, unless
nobody will be handed it. -/
structure Clean (s : Pool ι) : Prop where
  free : ∀ conn ∈ s.free, IsClean (s.connection conn)
  held : ∀ r conn, (s.phase r).held = some conn → IsCleanFor r (s.phase r) (s.connection conn)

/-- A request goes on, and what becomes of the connections suits everybody. -/
lemma Clean.update (h : Clean s) {r : ι} {p : LeasePhase} (hphase : s'.phase = (s.goes r p).phase)
    (hfree : ∀ conn ∈ s'.free, IsClean (s'.connection conn))
    (hr : ∀ conn, p.held = some conn → IsCleanFor r p (s'.connection conn))
    (hothers : ∀ x conn, x ≠ r → (s.phase x).held = some conn →
      s'.connection conn = s.connection conn) : Clean s' := by
  refine ⟨hfree, ?_⟩
  intro x conn hx
  rw [hphase] at hx ⊢
  by_cases hxr : x = r
  · subst hxr
    rw [goes_phase_self] at hx ⊢
    exact hr conn hx
  · rw [goes_phase_of_ne s hxr] at hx ⊢
    rw [hothers x conn hxr hx]
    exact h.held x conn hx

/-- A request goes on without a lease, and nothing becomes of the connections. -/
lemma Clean.goes (h : Clean s) {r : ι} {p : LeasePhase} (hp : p.held = none)
    (hphase : s'.phase = (s.goes r p).phase) (hfree : s'.free = s.free)
    (hconn : s'.connection = s.connection) : Clean s' := by
  refine h.update hphase ?_ ?_ ?_
  · rw [hfree, hconn]
    exact h.free
  · intro conn hheld
    rw [hp] at hheld
    exact absurd hheld (by simp)
  · intro x conn _ _
    rw [hconn]

omit [DecidableEq ι] in
/-- A connection gets unusable. -/
lemma Clean.spoils (h : Clean s) {conn : ℕ} {connection : ℕ → Connection ι}
    (hothers : ∀ x, x ≠ conn → connection x = s.connection x)
    (hbad : (connection conn).isUnusable = true) : Clean { s with connection } := by
  refine ⟨?_, ?_⟩
  · intro x hx
    show IsClean (connection x)
    by_cases hxc : x = conn
    · rw [hxc]
      exact Or.inl hbad
    · rw [hothers x hxc]
      exact h.free x hx
  · intro r x hx
    show IsCleanFor r (s.phase r) (connection x)
    by_cases hxc : x = conn
    · rw [hxc]
      exact Or.inl (Or.inl hbad)
    · rw [hothers x hxc]
      exact h.held r x hx

/-- A request goes on with its lease. -/
lemma Clean.keepsLease (h : Clean s) (hapart : Apart s) {r : ι} {conn : ℕ} {p : LeasePhase}
    {connection : ℕ → Connection ι} (hr : (s.phase r).held = some conn) (hp : p.held = some conn)
    (hothers : ∀ x, x ≠ conn → connection x = s.connection x)
    (hclean : IsCleanFor r (s.phase r) (s.connection conn) → IsCleanFor r p (connection conn)) :
    Clean { s.goes r p with connection } := by
  refine h.update (r := r) (p := p) rfl ?_ ?_ ?_
  · intro x hx
    show IsClean (connection x)
    rw [hothers x]
    · exact h.free x hx
    · rintro rfl
      exact hapart.notFree r x hr hx
  · intro c hc
    obtain rfl := Option.some.inj (hp.symm.trans hc)
    exact hclean (h.held r conn hr)
  · intro x c hxr hx
    refine hothers c ?_
    rintro rfl
    exact hxr (hapart.once x r c hx hr)

/-- A request gets the connection on top. -/
lemma Clean.pops (h : Clean s) {r : ι} : Clean (s.popFree r) := by
  unfold popFree
  split
  · exact h.goes (r := r) (p := .panicked) rfl rfl rfl rfl
  · next conn free hfree =>
      have htop : IsClean (s.connection conn) := h.free conn (by simp [hfree])
      refine h.update (r := r) rfl ?_ ?_ (fun _ _ _ _ => rfl)
      · intro x hx
        refine h.free x ?_
        rw [hfree]
        exact List.mem_cons_of_mem conn hx
      · intro c hc
        have hconn : conn = c := by
          split at hc <;> exact Option.some.inj hc
        rw [← hconn]
        exact Or.inl htop

/-- A connection is opened in place of an unusable one. -/
lemma Clean.replaces (h : Clean s) (hapart : Apart s) {r : ι} :
    Clean { (s.withConnection s.opened .fresh).goes r (.leased s.opened) with
      opened := s.opened + 1 } := by
  refine h.update (r := r) (p := .leased s.opened) rfl ?_ ?_ ?_
  · intro x hx
    show IsClean ((s.withConnection s.opened .fresh).connection x)
    rw [s.withConnection_of_ne (ne_of_lt (hapart.freeOpened x hx))]
    exact h.free x hx
  · intro c hc
    obtain rfl := Option.some.inj hc
    refine Or.inl (Or.inr ?_)
    show ((s.withConnection s.opened .fresh).connection s.opened).transaction = none
    rw [withConnection_self]
    rfl
  · intro x c _ hx
    exact s.withConnection_of_ne (ne_of_lt (hapart.heldOpened x c hx)) _

/-- A request that has ended its transaction puts its connection back. -/
lemma Clean.drops (h : Clean s) {r : ι} {conn : ℕ} (hr : s.phase r = .dropping conn) :
    Clean { s.goes r .returning with free := conn :: s.free } := by
  refine h.update (r := r) (p := .returning) rfl ?_ nofun (fun _ _ _ _ => rfl)
  intro c hc
  rcases List.mem_cons.1 hc with rfl | hc
  · rcases h.held r c (by rw [hr]; rfl) with hclean | ⟨hin, -⟩
    · exact hclean
    · rw [hr] at hin
      exact absurd hin (by simp [inTransaction])
  · exact h.free c hc

lemma Clean.step {a : PoolAction ι} (h : Clean s) (hapart : Apart s)
    (hstep : s.step dispatches a = some s') : Clean s' := by
  rcases effect_of_step hstep with ⟨conn, connection, hothers, hbad⟩ | ⟨r, hr⟩ | ⟨r, hr⟩ |
    ⟨r, conn, p, connection, hr, hp, hothers, hclean⟩ | ⟨r, permits, hr, hpermits⟩ | ⟨r, hr⟩ |
    ⟨r, hr⟩ | ⟨r, conn, hr⟩ | ⟨r, conn, hr⟩ | ⟨r, hr⟩
  · exact h.spoils hothers hbad
  · exact h.goes (r := r) (p := .waiting) rfl rfl rfl rfl
  · exact h.goes (r := r) (p := .done) rfl rfl rfl rfl
  · exact h.keepsLease hapart hr hp hothers hclean
  · exact h.goes (r := r) (p := .granted) rfl rfl rfl rfl
  · exact h.pops
  · exact h.goes (r := r) (p := .done) rfl rfl rfl rfl
  · exact h.replaces hapart
  · exact h.drops hr
  · exact h.goes (r := r) (p := .done) rfl rfl rfl rfl

omit [DecidableEq ι] in
lemma Clean.initial (size : ℕ) : Clean (initial size : Pool ι) where
  free _ _ := Or.inr rfl
  held := by simp [Pool.initial, LeasePhase.held]

omit [DecidableEq ι] in
/-- **A request is handed a session that is in no transaction.** -/
lemma Clean.transaction_eq_none (h : Clean s) {r : ι} {conn : ℕ} (hr : s.phase r = .leased conn)
    (husable : (s.connection conn).isUnusable = false) : (s.connection conn).transaction = none := by
  rcases h.held r conn (by rw [hr]; rfl) with (hbad | hnone) | ⟨hin, -⟩
  · rw [husable] at hbad
    exact absurd hbad (by simp)
  · exact hnone
  · rw [hr] at hin
    exact absurd hin (by simp [inTransaction])

end Pool

open Pool

variable {ι : Type} [DecidableEq ι] [Fintype ι]

/-- What every state of a run keeps. -/
lemma keeps_of_run {dispatches : ι → Bool} {size : ℕ} {actions : List (PoolAction ι)} {s : Pool ι}
    (h : run (fun s a => s.step dispatches a) (Pool.initial size) actions = some s) :
    Books size s ∧ Apart s ∧ Clean s := by
  refine run_keeps (fun s => Books size s ∧ Apart s ∧ Clean s) ?_ h
    ⟨Books.initial, Apart.initial size, Clean.initial size⟩
  intro s a s' ⟨hbooks, hapart, hclean⟩ hstep
  exact ⟨hbooks.step hstep, hapart.step hstep, hclean.step hapart hstep⟩

/-- **The pool keeps its books.** -/
theorem pool_keeps_its_books (dispatches : ι → Bool) {size : ℕ} (actions : List (PoolAction ι))
    {s : Pool ι}
    (h : run (fun s a => s.step dispatches a) (Pool.initial size) actions = some s) :
    -- the free connections are the free permits, those granted and not popped with yet, and those
    -- of the leases that have put back their connection but not their permit
    s.free.length = s.permits + countOf isGranted s.phase + countOf isReturning s.phase ∧
      -- every connection is free or in one lease, and there are as many as the pool has
      (s.free.Nodup ∧ (∀ r conn, (s.phase r).held = some conn → conn ∉ s.free) ∧
        ∀ r r' conn, (s.phase r).held = some conn → (s.phase r').held = some conn → r = r') ∧
      s.free.length + countOf isHolding s.phase = size ∧
      -- a permit finds a connection
      (∀ r, s.phase r = .granted → s.free ≠ []) ∧ (∀ r, s.phase r ≠ .panicked) ∧
      -- a connection that is handed out is in no transaction
      ∀ r conn, s.phase r = .leased conn → (s.connection conn).isUnusable = false →
        (s.connection conn).transaction = none := by
  obtain ⟨hbooks, hapart, hclean⟩ := keeps_of_run h
  refine ⟨hbooks.permits, ⟨hapart.nodup, hapart.notFree, hapart.once⟩, hbooks.size, ?_,
    hbooks.calm, ?_⟩
  · intro r hr
    exact hbooks.free_ne_nil hr
  · intro r conn hr husable
    exact hclean.transaction_eq_none hr husable

namespace Leasing

/-- A request dispatches in a transaction and is cancelled, which leaves the transaction open, and the
next one finds the connection poisoned and opens another. -/
def reconnecting : List (PoolAction Bool) :=
  [.ask false, .grant false, .pop false, .begin false true false, .cancel false true, .drop false,
    .addPermit false, .ask true, .grant true, .pop true, .reconnect true true]

/-- The second request holds the new connection, which is in no transaction, while the first one's still
is. -/
theorem pool_keeps_its_books_reconnect :
    ∃ s, run (fun s a => s.step (fun _ => true) a) (Pool.initial 1) reconnecting = some s ∧
      s.phase true = .leased 1 ∧ (s.connection 1).isUnusable = false ∧
      (s.connection 0).transaction = some false ∧
      (s.free.length = s.permits + countOf isGranted s.phase + countOf isReturning s.phase ∧
        (s.free.Nodup ∧ (∀ r conn, (s.phase r).held = some conn → conn ∉ s.free) ∧
          ∀ r r' conn, (s.phase r).held = some conn → (s.phase r').held = some conn → r = r') ∧
        s.free.length + countOf isHolding s.phase = 1 ∧
        (∀ r, s.phase r = .granted → s.free ≠ []) ∧ (∀ r, s.phase r ≠ .panicked) ∧
        ∀ r conn, s.phase r = .leased conn → (s.connection conn).isUnusable = false →
          (s.connection conn).transaction = none) :=
  ⟨_, rfl, rfl, rfl, rfl, pool_keeps_its_books (fun _ => true) reconnecting rfl⟩

/-- A request that queries, up to the first statement of its lease's drop. -/
def query : List (PoolAction Unit) := [.ask (), .grant (), .pop (), .leave (), .drop ()]

/-- Between the two statements of the drop a connection is free, and no permit stands for it. -/
theorem free_exceeds_permits :
    ∃ s, run (fun s a => s.step (fun _ => false) a) (Pool.initial 1) query = some s ∧
      s.free.length ≠ s.permits + countOf isGranted s.phase :=
  ⟨_, rfl, by decide⟩

end Leasing

end OdooKernel
