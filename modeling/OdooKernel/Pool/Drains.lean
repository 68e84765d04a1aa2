import OdooKernel.Pool.Slots

/-!
# The drains of the Python connection pool

A drain raises the generation, and no connection of an earlier one is handed out or kept behind it.
The generation of a connection is noted when the connection is handed out, with the generation that
the call took its slot in; a drain that comes between the two makes the connection one of the past.

**The invariant** (`RustPool.Dated`).  A connection that passes for one of the current generation was
opened at the last drain's mark or later.  It is about every place a connection may be in, and about
what each call under way remembers, since a call that has looked at the generation goes on with what
it saw.

* `RustPool.Dated` — no connection of an earlier generation passes for one of the current.
* **`rust_pool_keeps_its_books`** — what holds in every state that a run of the pool reaches.
-/

namespace OdooKernel

namespace RustPool

variable {ι : Type} [DecidableEq ι] {s s' : RustPool ι}

/-! ## Generations -/

/-- No connection passes for one of a later generation, and no call knows of a drain to come. -/
structure Dated (s : RustPool ι) : Prop where
  drained : s.drained ≤ s.mark
  mark : s.mark ≤ s.opened
  idle : ∀ e ∈ s.idle, s.IsOf e.2 e.1
  conn : ∀ conn, s.IsOf (s.connGeneration conn) conn
  phase : ∀ t, s.PhaseDated (s.phase t)

/-- What an action leaves in place: either no drain begins, or the generation is another. -/
structure Later (s s' : RustPool ι) : Prop where
  drained : s.drained ≤ s'.drained
  mark : s.mark ≤ s'.mark
  generation : s'.generation = s.generation ∧ s'.mark = s.mark ∨ s.generation < s'.generation

omit [DecidableEq ι] in
lemma IsOf.later {generation conn : ℕ} (h : s.IsOf generation conn) (hlater : Later s s') :
    s'.IsOf generation conn := by
  obtain ⟨hle, hmark⟩ := h
  rcases hlater.generation with ⟨hgeneration, hsame⟩ | hlt
  · rw [IsOf, hgeneration, hsame]
    exact ⟨hle, hmark⟩
  · exact ⟨by omega, fun heq => by omega⟩

omit [DecidableEq ι] in
lemma PhaseDated.later {p : CallPhase} (h : s.PhaseDated p) (hlater : Later s s') :
    s'.PhaseDated p := by
  have hdrained := hlater.drained
  have hmark := hlater.mark
  cases p with
  | outside => trivial
  | asking floor => exact le_trans h hdrained
  | opening floor conn generation =>
      exact ⟨le_trans h.1 hdrained, h.2.1, IsOf.later h.2.2 hlater⟩
  | checking floor conn generation =>
      exact ⟨le_trans h.1 hdrained, h.2.1, IsOf.later h.2.2 hlater⟩
  | yielding floor conn generation =>
      exact ⟨le_trans h.1 hdrained, h.2.1, IsOf.later h.2.2 hlater⟩
  | resetting conn => trivial
  | draining mark => exact le_trans h hmark
  | closing => trivial

/-- A thread goes on, and knows what it has to. -/
lemma Dated.update (h : Dated s) (hlater : Later s s') {t : ι} {p : CallPhase}
    (hphase : s'.phase = Function.update s.phase t p) (hp : s'.PhaseDated p)
    (hdrained : s'.drained ≤ s'.mark) (hmark : s'.mark ≤ s'.opened)
    (hidle : ∀ e ∈ s'.idle, e ∈ s.idle ∨ s'.IsOf e.2 e.1)
    (hconn : ∀ conn, s'.connGeneration conn = s.connGeneration conn ∨
      s'.IsOf (s'.connGeneration conn) conn) : Dated s' := by
  refine ⟨hdrained, hmark, ?_, ?_, ?_⟩
  · intro e he
    rcases hidle e he with hold | hnew
    · exact IsOf.later (h.idle e hold) hlater
    · exact hnew
  · intro conn
    rcases hconn conn with hold | hnew
    · rw [hold]
      exact IsOf.later (h.conn conn) hlater
    · exact hnew
  · intro x
    rw [hphase]
    by_cases hx : x = t
    · subst hx
      rwa [Function.update_self]
    · rw [Function.update_of_ne hx]
      exact PhaseDated.later (h.phase x) hlater

omit [DecidableEq ι] in
/-- No drain begins or ends. -/
lemma later_of_eq (hdrained : s'.drained = s.drained) (hmark : s'.mark = s.mark)
    (hgeneration : s'.generation = s.generation) : Later s s' :=
  ⟨hdrained.ge, hmark.ge, Or.inl ⟨hgeneration, hmark⟩⟩

/-- A thread goes on while no drain begins or ends. -/
lemma Dated.goes (h : Dated s) {t : ι} {p : CallPhase}
    (hphase : s'.phase = Function.update s.phase t p) (hp : s.PhaseDated p)
    (hsame : s'.drained = s.drained ∧ s'.mark = s.mark ∧ s'.generation = s.generation)
    (hopened : s.opened ≤ s'.opened) (hidle : ∀ e ∈ s'.idle, e ∈ s.idle ∨ s.IsOf e.2 e.1)
    (hconn : ∀ conn, s'.connGeneration conn = s.connGeneration conn ∨
      s.IsOf (s'.connGeneration conn) conn) : Dated s' := by
  obtain ⟨hdrained, hmark, hgeneration⟩ := hsame
  have hlater : Later s s' := later_of_eq hdrained hmark hgeneration
  refine h.update hlater hphase (PhaseDated.later hp hlater) ?_ ?_ ?_ ?_
  · rw [hdrained, hmark]
    exact h.drained
  · rw [hmark]
    exact le_trans h.mark hopened
  · intro e he
    exact (hidle e he).imp_right fun hof => IsOf.later hof hlater
  · intro conn
    exact (hconn conn).imp_right fun hof => IsOf.later hof hlater

omit [DecidableEq ι] in
/-- A call that takes an idle connection takes one that no drain has passed. -/
lemma Dated.takes (h : Dated s) {t : ι} {floor conn : ℕ} (ht : s.phase t = .asking floor)
    (hconn : (conn, s.generation) ∈ s.idle) : s.PhaseDated (.checking floor conn s.generation) := by
  have hfloor := h.phase t
  rw [ht] at hfloor
  have hof : s.IsOf s.generation conn := h.idle _ hconn
  exact ⟨hfloor, le_trans hfloor (le_trans h.drained (hof.2 rfl)), hof⟩

omit [DecidableEq ι] in
/-- A call that opens a connection opens one that no drain has passed. -/
lemma Dated.opens (h : Dated s) {t : ι} {floor : ℕ} (ht : s.phase t = .asking floor) :
    s.PhaseDated (.opening floor s.opened s.generation) := by
  have hfloor := h.phase t
  rw [ht] at hfloor
  exact ⟨hfloor, le_trans hfloor (le_trans h.drained h.mark), le_rfl, fun _ => h.mark⟩

omit [DecidableEq ι] in
/-- The connection that a call yields gets the generation that the call knows. -/
lemma Dated.yields (h : Dated s) {t : ι} {floor conn generation : ℕ}
    (ht : s.phase t = .yielding floor conn generation) (x : ℕ) :
    Function.update s.connGeneration conn generation x = s.connGeneration x ∨
      s.IsOf (Function.update s.connGeneration conn generation x) x := by
  have hphase := h.phase t
  rw [ht] at hphase
  by_cases hx : x = conn
  · subst hx
    rw [Function.update_self]
    exact Or.inr hphase.2.2
  · exact Or.inl (Function.update_of_ne hx generation s.connGeneration)

lemma Dated.drains (h : Dated s) (t : ι) :
    Dated { s.goes t (.draining s.opened) with
      generation := s.generation + 1, mark := s.opened } := by
  have hlater : Later s { s.goes t (.draining s.opened) with
      generation := s.generation + 1, mark := s.opened } :=
    ⟨le_rfl, h.mark, Or.inr (Nat.lt_succ_self s.generation)⟩
  exact h.update hlater rfl le_rfl (le_trans h.drained h.mark) le_rfl (fun _ he => Or.inl he)
    fun _ => Or.inl rfl

lemma Dated.evicts (h : Dated s) {t : ι} {mark : ℕ} (ht : s.phase t = .draining mark) :
    Dated { s.goes t .outside with idle := [], drained := max s.drained mark } := by
  have hmark : mark ≤ s.mark := by
    have hphase := h.phase t
    rwa [ht] at hphase
  have hlater : Later s { s.goes t .outside with idle := [], drained := max s.drained mark } :=
    ⟨le_max_left s.drained mark, le_rfl, Or.inl ⟨rfl, rfl⟩⟩
  exact h.update hlater rfl trivial (max_le h.drained hmark) h.mark nofun fun _ => Or.inl rfl

lemma Dated.step {a : RustPoolAction ι} (h : Dated s) (hstep : s.step a = some s') : Dated s' := by
  rcases effect_of_step hstep with ⟨closed, isClosed, -⟩ | ⟨t, p, idle, closed, -, hdated, hidle, -⟩ |
    ⟨t, conn, p, -, -, hdated⟩ | ⟨t, floor, conn, stale, idle, ht, hidle⟩ | ⟨t, floor, ht, -⟩ |
    ⟨t, floor, conn, generation, ht⟩ | ⟨t, conn, -, -⟩ | ⟨t, conn, -, hcurrent, -⟩ | ⟨t, -⟩ |
    ⟨t, mark, ht⟩
  · exact ⟨h.drained, h.mark, h.idle, h.conn, h.phase⟩
  · exact h.goes rfl (hdated (h.phase t)) ⟨rfl, rfl, rfl⟩ le_rfl
      (fun _ he => Or.inl (hidle.subset he)) fun _ => Or.inl rfl
  · exact h.goes rfl (hdated (h.phase t)) ⟨rfl, rfl, rfl⟩ le_rfl (fun _ he => Or.inl he)
      fun _ => Or.inl rfl
  · refine h.goes rfl (h.takes ht (by simp [hidle])) ⟨rfl, rfl, rfl⟩ le_rfl ?_ fun _ => Or.inl rfl
    intro e he
    rw [hidle]
    exact Or.inl (List.mem_append_right stale (List.mem_cons_of_mem _ he))
  · exact h.goes rfl (h.opens ht) ⟨rfl, rfl, rfl⟩ (Nat.le_succ s.opened) nofun fun _ => Or.inl rfl
  · exact h.goes (t := t) (p := .outside) rfl trivial ⟨rfl, rfl, rfl⟩ le_rfl
      (fun _ he => Or.inl he) (h.yields ht)
  · exact h.goes (t := t) (p := .resetting conn) rfl trivial ⟨rfl, rfl, rfl⟩ le_rfl
      (fun _ he => Or.inl he) fun _ => Or.inl rfl
  · refine h.goes (t := t) (p := .outside) rfl trivial ⟨rfl, rfl, rfl⟩ le_rfl ?_ fun _ => Or.inl rfl
    intro e he
    rcases List.mem_cons.mp he with rfl | he
    · have hof := h.conn conn
      rw [hcurrent] at hof
      exact Or.inr hof
    · exact Or.inl he
  · exact h.drains t
  · exact h.evicts ht

omit [DecidableEq ι] in
lemma Dated.initial (maxSize : ℕ) (isOpen : Bool) :
    Dated (initial maxSize isOpen : RustPool ι) where
  drained := le_rfl
  mark := le_rfl
  idle := nofun
  conn _ := ⟨le_rfl, fun _ => Nat.zero_le _⟩
  phase _ := trivial

/-! ## A closed pool -/

/-- A closed pool keeps no connection that is put back, and stays closed until it is opened. -/
lemma closed_of_step {a : RustPoolAction ι} (hclosed : s.closed = true)
    (hstep : s.step a = some s') :
    s'.idle.Sublist s.idle ∧ (a ≠ .open → s'.closed = true) := by
  rcases effect_of_step hstep with ⟨closed, isClosed, hopen⟩ |
    ⟨t, p, idle, closed, -, -, hidle, hstays⟩ | ⟨t, conn, p, -, -, -⟩ |
    ⟨t, floor, conn, stale, idle, -, hidle⟩ | ⟨t, floor, -, -⟩ | ⟨t, floor, conn, generation, -⟩ |
    ⟨t, conn, -, -⟩ | ⟨t, conn, -, -, hopen⟩ | ⟨t, -⟩ | ⟨t, mark, -⟩
  · refine ⟨List.Sublist.refl s.idle, fun ha => ?_⟩
    rcases hopen with rfl | hsame
    · exact absurd rfl ha
    · exact hsame.trans hclosed
  · exact ⟨hidle, fun _ => hstays hclosed⟩
  · exact ⟨List.Sublist.refl s.idle, fun _ => hclosed⟩
  · refine ⟨?_, fun _ => hclosed⟩
    rw [hidle]
    exact (List.sublist_cons_self _ idle).trans (List.sublist_append_right stale _)
  · exact ⟨List.nil_sublist s.idle, fun _ => hclosed⟩
  · exact ⟨List.Sublist.refl s.idle, fun _ => hclosed⟩
  · exact ⟨List.Sublist.refl s.idle, fun _ => hclosed⟩
  · rw [hclosed] at hopen
    exact absurd hopen (by simp)
  · exact ⟨List.Sublist.refl s.idle, fun _ => hclosed⟩
  · exact ⟨List.nil_sublist s.idle, fun _ => hclosed⟩

lemma closed_of_run {actions : List (RustPoolAction ι)} (hopen : .open ∉ actions) :
    ∀ {s : RustPool ι}, s.closed = true → run step s actions = some s' → s'.closed = true := by
  induction actions with
  | nil =>
      intro s hclosed h
      obtain rfl := Option.some.inj h
      exact hclosed
  | cons a actions ih =>
      intro s hclosed h
      obtain ⟨hne, hrest⟩ := not_or.mp (List.mem_cons.not.mp hopen)
      obtain ⟨between, hstep, hrun⟩ := Option.bind_eq_some_iff.mp h
      exact ih hrest ((closed_of_step hclosed hstep).2 (Ne.symm hne)) hrun

/-- A close that was called and no call of `open` since leave the pool closed. -/
lemma closed_since {before since : List (RustPoolAction ι)} {t : ι}
    (h : run step s (before ++ .close t :: since) = some s') (hopen : .open ∉ since) :
    s'.closed = true := by
  rw [run_append] at h
  obtain ⟨called, -, hcalled⟩ := Option.bind_eq_some_iff.mp h
  obtain ⟨shut, hclose, hrest⟩ := Option.bind_eq_some_iff.mp hcalled
  refine closed_of_run hopen ?_ hrest
  simp only [step, Option.ite_none_right_eq_some, Option.some.injEq] at hclose
  rw [← hclose.2]

end RustPool

open RustPool

variable {ι : Type} [DecidableEq ι] [Fintype ι]

/-- What every state of a run keeps. -/
lemma rustPool_of_run {maxSize : ℕ} {isOpen : Bool} {actions : List (RustPoolAction ι)}
    {s : RustPool ι} (h : run RustPool.step (RustPool.initial maxSize isOpen) actions = some s) :
    s.maxSize = maxSize ∧ RustPool.Books s ∧ Dated s := by
  refine run_keeps (fun s => s.maxSize = maxSize ∧ RustPool.Books s ∧ Dated s) ?_ h
    ⟨rfl, .initial maxSize isOpen, .initial maxSize isOpen⟩
  intro s a s' ⟨hsize, hbooks, hdated⟩ hstep
  exact ⟨(maxSize_of_step hstep).trans hsize, hbooks.step hstep, hdated.step hstep⟩

/-- **The Python connection pool keeps its books.** -/
theorem rust_pool_keeps_its_books (maxSize : ℕ) (isOpen : Bool) (actions : List (RustPoolAction ι))
    {s : RustPool ι} (h : run RustPool.step (RustPool.initial maxSize isOpen) actions = some s) :
    s.idle.length + s.out ≤ maxSize ∧
      -- a connection is borrowed until `putconn` has reset it
      s.out = s.borrowed.length + countOf hasSlot s.phase ∧
      -- no connection is twice among the idle, the borrowed and those of the calls
      (∀ conn, s.places conn ≤ 1) ∧
      -- a call yields no connection that was opened before a drain that had returned
      (∀ t floor conn generation, s.phase t = .yielding floor conn generation → floor ≤ conn) ∧
      -- nothing is put back once the pool was closed, until it is opened
      ∀ before t since, actions = before ++ .close t :: since → .open ∉ since →
        ∀ a s', s.step a = some s' → s'.idle.Sublist s.idle := by
  obtain ⟨hsize, hbooks, hdated⟩ := rustPool_of_run h
  refine ⟨hsize ▸ hbooks.room, hbooks.out, hbooks.once, ?_, ?_⟩
  · intro t floor conn generation ht
    have hphase := hdated.phase t
    rw [ht] at hphase
    exact hphase.2.1
  · rintro before t since rfl hopen a s' hstep
    exact (closed_of_step (closed_since h hopen) hstep).1

namespace Checkout

/-- A connection is opened, borrowed and put back. -/
def roundTrip : List (RustPoolAction Unit) :=
  [.getconn (), .reserve () false, .opened () true, .yield () true, .putconn () 0, .putBack () true]

theorem rust_pool_keeps_its_books_roundTrip :
    ∃ s, run RustPool.step (RustPool.initial 1 true) roundTrip = some s ∧ s.idle = [(0, 0)] ∧
      s.idle.length + s.out ≤ 1 ∧ s.out = s.borrowed.length + countOf hasSlot s.phase ∧
      (∀ conn, s.places conn ≤ 1) ∧
      (∀ t floor conn generation, s.phase t = .yielding floor conn generation → floor ≤ conn) ∧
      ∀ before t since, roundTrip = before ++ .close t :: since → .open ∉ since →
        ∀ a s', s.step a = some s' → s'.idle.Sublist s.idle :=
  ⟨_, rfl, rfl, rust_pool_keeps_its_books 1 true roundTrip rfl⟩

end Checkout

end OdooKernel
