import OdooKernel.Core.Counting
import OdooKernel.Pool.RustPool

/-!
# The slots of the Python connection pool

A slot is taken under the lock before its connection is opened or checked, and given back where that
fails; so the count of connections that are out covers those that do not exist yet.  What an action
can do to the slots, the idle connections and the generations is said once (`RustPool.Effect`), and
the invariants of this module and of `Pool/Drains` are kept by cases on it.

* `RustPool.Effect` — the ways in which an action moves the connections.
* `RustPool.Books` — the slots that are out are the connections that are borrowed and those that
  calls are busy with, there are no more of them and of the idle connections than the pool may have,
  and no connection is in two places; every action keeps that.
-/

namespace OdooKernel

namespace RustPool

variable {ι : Type} [DecidableEq ι] {s s' : RustPool ι}

@[simp] lemma goes_phase_self (t : ι) (p : CallPhase) : (s.goes t p).phase t = p :=
  Function.update_self ..

lemma goes_phase_of_ne {t x : ι} (h : x ≠ t) (p : CallPhase) :
    (s.goes t p).phase x = s.phase x := Function.update_of_ne h ..

@[simp] lemma goes_idle (t : ι) (p : CallPhase) : (s.goes t p).idle = s.idle := rfl

@[simp] lemma goes_borrowed (t : ι) (p : CallPhase) : (s.goes t p).borrowed = s.borrowed := rfl

/-! ## Taking an idle connection -/

/-- What a call takes is of the generation, and everything above it goes. -/
lemma takeIdle_some {generation : ℕ} {isClosed : ℕ → Bool} {conn : ℕ} {rest : List (ℕ × ℕ)} :
    ∀ {idle : List (ℕ × ℕ)}, takeIdle generation isClosed idle = (some conn, rest) →
      ∃ stale, idle = stale ++ (conn, generation) :: rest
  | [], h => by simp [takeIdle] at h
  | (candidate, gen) :: idle, h => by
      rw [takeIdle] at h
      split at h
      · next htop =>
          obtain ⟨hgen, -⟩ := Bool.and_eq_true_iff.mp htop
          simp only [Prod.mk.injEq, Option.some.injEq] at h
          obtain ⟨rfl, rfl⟩ := h
          exact ⟨[], by rw [List.nil_append, of_decide_eq_true hgen]⟩
      · obtain ⟨stale, rfl⟩ := takeIdle_some h
        exact ⟨(candidate, gen) :: stale, rfl⟩

/-- A call that finds none leaves none. -/
lemma takeIdle_none {generation : ℕ} {isClosed : ℕ → Bool} {rest : List (ℕ × ℕ)} :
    ∀ {idle : List (ℕ × ℕ)}, takeIdle generation isClosed idle = (none, rest) → rest = []
  | [], h => by simpa [takeIdle, eq_comm] using h
  | (candidate, gen) :: idle, h => by
      rw [takeIdle] at h
      split at h
      · exact absurd h (by simp)
      · exact takeIdle_none h

/-! ## The ways in which an action moves the connections -/

/-- A generation that a connection may be of: an earlier one, or the current one if no drain has
begun since the connection was asked for. -/
def IsOf (s : RustPool ι) (generation conn : ℕ) : Prop :=
  generation ≤ s.generation ∧ (generation = s.generation → s.mark ≤ conn)

/-- What a call knows of its connection. -/
def PhaseDated (s : RustPool ι) : CallPhase → Prop
  | .asking floor => floor ≤ s.drained
  | .opening floor conn generation | .checking floor conn generation
  | .yielding floor conn generation =>
    floor ≤ s.drained ∧ floor ≤ conn ∧ s.IsOf generation conn
  | .draining mark => mark ≤ s.mark
  | .outside | .resetting _ | .closing => True

/-- The ways in which an action moves the connections. -/
inductive Effect (s : RustPool ι) (a : RustPoolAction ι) : RustPool ι → Prop where
  | changes (closed : Bool) (isClosed : ℕ → Bool) (hclosed : a = .open ∨ closed = s.closed) :
      Effect s a { s with closed, isClosed }
  | moves (t : ι) (p : CallPhase) (idle : List (ℕ × ℕ)) (closed : Bool)
      (hconn : p.conn = (s.phase t).conn) (hdated : s.PhaseDated (s.phase t) → s.PhaseDated p)
      (hidle : idle.Sublist s.idle) (hclosed : s.closed = true → closed = true) :
      Effect s a { s.goes t p with idle, closed }
  | givesBack (t : ι) (conn : ℕ) (p : CallPhase) (ht : (s.phase t).conn = some conn)
      (hconn : p.conn = none) (hdated : s.PhaseDated (s.phase t) → s.PhaseDated p) :
      Effect s a (s.givesBack t p)
  | takes (t : ι) (floor conn : ℕ) (stale idle : List (ℕ × ℕ)) (ht : s.phase t = .asking floor)
      (hidle : s.idle = stale ++ (conn, s.generation) :: idle) :
      Effect s a { s.goes t (.checking floor conn s.generation) with idle, out := s.out + 1 }
  | opens (t : ι) (floor : ℕ) (ht : s.phase t = .asking floor) (hroom : s.out < s.maxSize) :
      Effect s a { s.goes t (.opening floor s.opened s.generation) with
        idle := [], out := s.out + 1, opened := s.opened + 1 }
  | yields (t : ι) (floor conn generation : ℕ) (ht : s.phase t = .yielding floor conn generation) :
      Effect s a { s.goes t .outside with
        connGeneration := Function.update s.connGeneration conn generation
        borrowed := conn :: s.borrowed }
  | returns (t : ι) (conn : ℕ) (ht : s.phase t = .outside) (hconn : conn ∈ s.borrowed) :
      Effect s a { s.goes t (.resetting conn) with borrowed := s.borrowed.erase conn }
  | putsBack (t : ι) (conn : ℕ) (ht : s.phase t = .resetting conn)
      (hcurrent : s.connGeneration conn = s.generation) (hopen : s.closed = false) :
      Effect s a { s.givesBack t .outside with idle := (conn, s.generation) :: s.idle }
  | drains (t : ι) (ht : s.phase t = .outside) :
      Effect s a { s.goes t (.draining s.opened) with
        generation := s.generation + 1, mark := s.opened }
  | evicts (t : ι) (mark : ℕ) (ht : s.phase t = .draining mark) :
      Effect s a { s.goes t .outside with idle := [], drained := max s.drained mark }

variable {a : RustPoolAction ι}

/-- A call goes on with what it has. -/
lemma Effect.goes {t : ι} {p : CallPhase} (hconn : p.conn = (s.phase t).conn)
    (hdated : s.PhaseDated (s.phase t) → s.PhaseDated p) : Effect s a (s.goes t p) :=
  .moves t p s.idle s.closed hconn hdated (List.Sublist.refl s.idle) id

lemma Effect.reserve {t : ι} {floor : ℕ} {timedOut : Bool} (ht : s.phase t = .asking floor) :
    Effect s a (s.reserve t floor timedOut) := by
  unfold RustPool.reserve
  split
  · next conn idle htake =>
      obtain ⟨stale, hidle⟩ := takeIdle_some htake
      exact .takes t floor conn stale idle ht hidle
  · next idle htake =>
      obtain rfl := takeIdle_none htake
      split
      · refine .moves t _ [] s.closed ?_ ?_ (List.nil_sublist s.idle) id
        · rw [ht]
          cases timedOut <;> rfl
        · rw [ht]
          cases timedOut
          · exact id
          · exact fun _ => trivial
      · next hroom => exact .opens t floor ht (not_le.mp hroom)

lemma Effect.putBack {t : ι} {conn : ℕ} {keep : Bool} (ht : s.phase t = .resetting conn) :
    Effect s a (s.putBack t conn keep) := by
  unfold RustPool.putBack
  simp only []
  split
  · next h =>
      simp only [Bool.and_eq_true, decide_eq_true_eq, Bool.not_eq_true'] at h
      exact .putsBack t conn ht h.1.1.2 h.1.2
  · exact .givesBack t conn .outside (by rw [ht]; rfl) rfl fun _ => trivial

/-- **What an action does.** -/
lemma effect_of_step (h : s.step a = some s') : Effect s a s' := by
  cases a with
  | getconn t =>
      simp only [step, Option.ite_none_right_eq_some, Option.some.injEq] at h
      obtain ⟨ht, rfl⟩ := h
      exact .goes (by rw [ht]; rfl) fun _ => le_refl s.drained
  | reserve t timedOut =>
      simp only [step] at h
      split at h
      · next floor ht =>
          split at h
          · obtain rfl := Option.some.inj h
            exact .goes (by rw [ht]; rfl) fun _ => trivial
          · obtain rfl := Option.some.inj h
            exact .reserve ht
      · exact absurd h (by simp)
  | opened t ok =>
      simp only [step] at h
      split at h
      · next floor conn generation ht =>
          split at h
          · obtain rfl := Option.some.inj h
            refine .goes (by rw [ht]; rfl) ?_
            rw [ht]
            exact id
          · obtain rfl := Option.some.inj h
            exact .givesBack t conn .outside (by rw [ht]; rfl) rfl fun _ => trivial
      · exact absurd h (by simp)
  | checked t outcome =>
      simp only [step] at h
      split at h
      · next floor conn generation ht =>
          cases outcome with
          | passes =>
              obtain rfl := Option.some.inj h
              refine .goes (by rw [ht]; rfl) ?_
              rw [ht]
              exact id
          | fails =>
              obtain rfl := Option.some.inj h
              refine .givesBack t conn (.asking floor) (by rw [ht]; rfl) rfl ?_
              rw [ht]
              exact fun hdated => hdated.1
          | raises =>
              obtain rfl := Option.some.inj h
              exact .givesBack t conn .outside (by rw [ht]; rfl) rfl fun _ => trivial
      · exact absurd h (by simp)
  | yield t ok =>
      simp only [step] at h
      split at h
      · next floor conn generation ht =>
          split at h
          · obtain rfl := Option.some.inj h
            exact .yields t floor conn generation ht
          · obtain rfl := Option.some.inj h
            exact .givesBack t conn .outside (by rw [ht]; rfl) rfl fun _ => trivial
      · exact absurd h (by simp)
  | putconn t conn =>
      simp only [step, Option.ite_none_right_eq_some, Option.some.injEq] at h
      obtain ⟨⟨ht, hconn⟩, rfl⟩ := h
      exact .returns t conn ht hconn
  | putBack t keep =>
      simp only [step] at h
      split at h
      · next conn ht =>
          obtain rfl := Option.some.inj h
          exact .putBack ht
      · exact absurd h (by simp)
  | drain t =>
      simp only [step, Option.ite_none_right_eq_some, Option.some.injEq] at h
      obtain ⟨ht, rfl⟩ := h
      exact .drains t ht
  | close t =>
      simp only [step, Option.ite_none_right_eq_some, Option.some.injEq] at h
      obtain ⟨ht, rfl⟩ := h
      exact .moves t .closing s.idle true (by rw [ht]; rfl) (fun _ => trivial)
        (List.Sublist.refl s.idle) fun _ => rfl
  | evictIdle t =>
      simp only [step] at h
      split at h
      · next mark ht =>
          obtain rfl := Option.some.inj h
          exact .evicts t mark ht
      · next ht =>
          obtain rfl := Option.some.inj h
          exact .moves t .outside [] s.closed (by rw [ht]; rfl) (fun _ => trivial)
            (List.nil_sublist s.idle) id
      · exact absurd h (by simp)
  | «open» =>
      obtain rfl := Option.some.inj h
      exact .changes false s.isClosed (Or.inl rfl)
  | disconnect conn =>
      obtain rfl := Option.some.inj h
      exact .changes s.closed _ (Or.inr rfl)

/-- The pool is not resized. -/
lemma maxSize_of_step (h : s.step a = some s') : s'.maxSize = s.maxSize := by
  cases effect_of_step h <;> rfl

/-! ## The slots and the connections add up -/

/-- A call has a slot. -/
def hasSlot (p : CallPhase) : ℕ := if p.conn.isSome then 1 else 0

/-- A call has a slot for a connection. -/
def hasSlotFor (conn : ℕ) (p : CallPhase) : ℕ := if p.conn = some conn then 1 else 0

section Books

variable [Fintype ι]

/-- The connections that are borrowed or being opened or checked, among the last also those that are
being reset. -/
def inUse (s : RustPool ι) : ℕ := s.borrowed.length + countOf hasSlot s.phase

/-- In how many places a connection is. -/
def places (s : RustPool ι) (conn : ℕ) : ℕ :=
  (s.idle.map Prod.fst).count conn + s.borrowed.count conn + countOf (hasSlotFor conn) s.phase

/-- The slots and the connections add up, and no connection is in two places. -/
structure Books (s : RustPool ι) : Prop where
  out : s.out = s.inUse
  room : s.idle.length + s.out ≤ s.maxSize
  once : ∀ conn, s.places conn ≤ 1
  opened : ∀ conn, s.opened ≤ conn → s.places conn = 0

/-- What a thread that goes on changes in the books: a connection may be in a place more only if it
was asked for just now. -/
lemma Books.update (h : Books s) {t : ι} {p : CallPhase} (hsize : s'.maxSize = s.maxSize)
    (hphase : s'.phase = Function.update s.phase t p)
    (hout : s'.out + s.borrowed.length + hasSlot (s.phase t) =
      s.out + s'.borrowed.length + hasSlot p)
    (hroom : s'.idle.length + s'.out ≤ s.maxSize) (hopened : s.opened ≤ s'.opened)
    (hplaces : ∀ conn, ∃ new, (new = 0 ∨ new = 1 ∧ s.opened ≤ conn ∧ conn < s'.opened) ∧
      (s'.idle.map Prod.fst).count conn + s'.borrowed.count conn + hasSlotFor conn p ≤
        (s.idle.map Prod.fst).count conn + s.borrowed.count conn + hasSlotFor conn (s.phase t) + new) :
    Books s' := by
  have hbound : ∀ conn, ∃ new, (new = 0 ∨ new = 1 ∧ s.opened ≤ conn ∧ conn < s'.opened) ∧
      s'.places conn ≤ s.places conn + new := by
    intro conn
    obtain ⟨new, hnew, hle⟩ := hplaces conn
    have hcount := countOf_update (hasSlotFor conn) s.phase t p
    refine ⟨new, hnew, ?_⟩
    simp only [places, hphase]
    omega
  refine ⟨?_, ?_, ?_, ?_⟩
  · have hcount := countOf_update hasSlot s.phase t p
    have hold := h.out
    simp only [inUse, hphase] at hold ⊢
    omega
  · rw [hsize]
    exact hroom
  · intro conn
    obtain ⟨new, hnew, hle⟩ := hbound conn
    have hone := h.once conn
    have hzero := h.opened conn
    omega
  · intro conn hconn
    obtain ⟨new, hnew, hle⟩ := hbound conn
    have hzero := h.opened conn (by omega)
    omega

omit [DecidableEq ι] in
/-- A call with a slot has one of those that are out. -/
lemma Books.pos (h : Books s) {t : ι} (ht : hasSlot (s.phase t) = 1) : 1 ≤ s.out := by
  have hcount := weight_le_countOf hasSlot s.phase t
  have hout := h.out
  simp only [inUse] at hout
  omega

/-- A thread goes on, and connections only go. -/
lemma Books.goes (h : Books s) {t : ι} {p : CallPhase} (hsize : s'.maxSize = s.maxSize)
    (hphase : s'.phase = Function.update s.phase t p) (hconn : p.conn = (s.phase t).conn)
    (hidle : s'.idle.Sublist s.idle) (hout : s'.out = s.out) (hopened : s'.opened = s.opened)
    (hborrowed : s'.borrowed = s.borrowed) : Books s' := by
  have hslot : hasSlot p = hasSlot (s.phase t) := by rw [hasSlot, hasSlot, hconn]
  have hslotFor : ∀ conn, hasSlotFor conn p = hasSlotFor conn (s.phase t) := by
    intro conn
    rw [hasSlotFor, hasSlotFor, hconn]
  refine h.update hsize hphase ?_ ?_ hopened.ge ?_
  · rw [hborrowed]
    omega
  · have hlength := hidle.length_le
    have hroom := h.room
    omega
  · intro conn
    have hcount := (hidle.map Prod.fst).count_le conn
    refine ⟨0, Or.inl rfl, ?_⟩
    rw [hslotFor, hborrowed]
    omega

lemma Books.givesBack (h : Books s) {t : ι} {conn : ℕ} {p : CallPhase}
    (ht : (s.phase t).conn = some conn) (hconn : p.conn = none) : Books (s.givesBack t p) := by
  have hslot : hasSlot (s.phase t) = 1 := by simp [hasSlot, ht]
  have hgone : hasSlot p = 0 := by simp [hasSlot, hconn]
  have hpos := h.pos hslot
  have hroom := h.room
  refine h.update (t := t) (p := p) rfl rfl ?_ ?_ le_rfl ?_
  · show s.out - 1 + s.borrowed.length + _ = s.out + s.borrowed.length + _
    omega
  · show s.idle.length + (s.out - 1) ≤ s.maxSize
    omega
  · intro x
    have hgone : hasSlotFor x p = 0 := by simp [hasSlotFor, hconn]
    refine ⟨0, Or.inl rfl, ?_⟩
    rw [hgone]
    show (s.idle.map Prod.fst).count x + s.borrowed.count x + 0 ≤ _
    omega

lemma Books.takes (h : Books s) {t : ι} {floor conn : ℕ} {stale idle : List (ℕ × ℕ)}
    (ht : s.phase t = .asking floor) (hidle : s.idle = stale ++ (conn, s.generation) :: idle) :
    Books { s.goes t (.checking floor conn s.generation) with idle, out := s.out + 1 } := by
  have hlength : s.idle.length = stale.length + (idle.length + 1) := by simp [hidle]
  have hroom := h.room
  refine h.update (t := t) (p := .checking floor conn s.generation) rfl rfl ?_ ?_ le_rfl ?_
  · rw [ht]
    show s.out + 1 + s.borrowed.length + 0 = s.out + s.borrowed.length + 1
    omega
  · show idle.length + (s.out + 1) ≤ s.maxSize
    omega
  · intro x
    refine ⟨0, Or.inl rfl, ?_⟩
    rw [hidle, ht]
    simp only [List.map_append, List.map_cons, List.count_append, List.count_cons, hasSlotFor,
      CallPhase.conn, Option.some.injEq, beq_iff_eq, reduceCtorEq, if_false, goes_borrowed]
    omega

lemma Books.opens (h : Books s) {t : ι} {floor : ℕ} (ht : s.phase t = .asking floor)
    (hfree : s.out < s.maxSize) :
    Books { s.goes t (.opening floor s.opened s.generation) with
      idle := [], out := s.out + 1, opened := s.opened + 1 } := by
  refine h.update (t := t) (p := .opening floor s.opened s.generation) rfl rfl ?_ ?_
    (Nat.le_succ s.opened) ?_
  · rw [ht]
    show s.out + 1 + s.borrowed.length + 0 = s.out + s.borrowed.length + 1
    omega
  · show 0 + (s.out + 1) ≤ s.maxSize
    omega
  · intro x
    simp only [List.map_nil, List.count_nil, goes_borrowed, ht, hasSlotFor, CallPhase.conn,
      Option.some.injEq, reduceCtorEq, if_false]
    by_cases hx : s.opened = x
    · exact ⟨1, Or.inr ⟨rfl, hx.le, by omega⟩, by rw [if_pos hx]; omega⟩
    · exact ⟨0, Or.inl rfl, by rw [if_neg hx]; omega⟩

lemma Books.yields (h : Books s) {t : ι} {floor conn generation : ℕ}
    (ht : s.phase t = .yielding floor conn generation) (connGeneration : ℕ → ℕ) :
    Books { s.goes t .outside with connGeneration, borrowed := conn :: s.borrowed } := by
  refine h.update (t := t) (p := .outside) rfl rfl ?_ h.room le_rfl ?_
  · rw [ht]
    show s.out + s.borrowed.length + 1 = s.out + (s.borrowed.length + 1) + 0
    omega
  · intro x
    refine ⟨0, Or.inl rfl, ?_⟩
    rw [ht]
    simp only [List.count_cons, hasSlotFor, CallPhase.conn, Option.some.injEq, beq_iff_eq,
      reduceCtorEq, if_false, goes_idle]
    omega

lemma Books.returns (h : Books s) {t : ι} {conn : ℕ} (ht : s.phase t = .outside)
    (hconn : conn ∈ s.borrowed) :
    Books { s.goes t (.resetting conn) with borrowed := s.borrowed.erase conn } := by
  have hlength := List.length_erase_of_mem hconn
  have hpos := List.length_pos_of_mem hconn
  refine h.update (t := t) (p := .resetting conn) rfl rfl ?_ h.room le_rfl ?_
  · rw [ht]
    show s.out + s.borrowed.length + 0 = s.out + (s.borrowed.erase conn).length + 1
    omega
  · intro x
    have hone := List.count_pos_iff.mpr hconn
    refine ⟨0, Or.inl rfl, ?_⟩
    rw [ht]
    simp only [List.count_erase, hasSlotFor, CallPhase.conn, Option.some.injEq, beq_iff_eq,
      reduceCtorEq, if_false, goes_idle]
    by_cases hx : conn = x
    · subst hx
      simp only [if_true]
      omega
    · simp only [if_neg hx]
      omega

lemma Books.putsBack (h : Books s) {t : ι} {conn : ℕ} (ht : s.phase t = .resetting conn) :
    Books { s.givesBack t .outside with idle := (conn, s.generation) :: s.idle } := by
  have hslot : hasSlot (s.phase t) = 1 := by simp [hasSlot, ht, CallPhase.conn]
  have hpos := h.pos hslot
  have hroom := h.room
  refine h.update (t := t) (p := .outside) rfl rfl ?_ ?_ le_rfl ?_
  · rw [hslot]
    show s.out - 1 + s.borrowed.length + 1 = s.out + s.borrowed.length + 0
    omega
  · show s.idle.length + 1 + (s.out - 1) ≤ s.maxSize
    omega
  · intro x
    refine ⟨0, Or.inl rfl, ?_⟩
    rw [ht]
    simp only [List.map_cons, List.count_cons, hasSlotFor, CallPhase.conn, Option.some.injEq,
      beq_iff_eq, reduceCtorEq, if_false]
    show _ + _ + s.borrowed.count x + 0 ≤ _
    omega

lemma Books.step {a : RustPoolAction ι} (h : Books s) (hstep : s.step a = some s') : Books s' := by
  rcases effect_of_step hstep with ⟨closed, isClosed, -⟩ | ⟨t, p, idle, closed, hconn, -, hidle, -⟩ |
    ⟨t, conn, p, ht, hconn, -⟩ | ⟨t, floor, conn, stale, idle, ht, hidle⟩ | ⟨t, floor, ht, hfree⟩ |
    ⟨t, floor, conn, generation, ht⟩ | ⟨t, conn, ht, hconn⟩ | ⟨t, conn, ht, -, -⟩ | ⟨t, ht⟩ |
    ⟨t, mark, ht⟩
  · exact ⟨h.out, h.room, h.once, h.opened⟩
  · exact h.goes rfl rfl hconn hidle rfl rfl rfl
  · exact h.givesBack ht hconn
  · exact h.takes ht hidle
  · exact h.opens ht hfree
  · exact h.yields ht _
  · exact h.returns ht hconn
  · exact h.putsBack ht
  · exact h.goes (t := t) (p := .draining s.opened) rfl rfl (by rw [ht]; rfl)
      (List.Sublist.refl s.idle) rfl rfl rfl
  · exact h.goes (t := t) (p := .outside) rfl rfl (by rw [ht]; rfl) (List.nil_sublist s.idle) rfl
      rfl rfl

omit [DecidableEq ι] in
lemma Books.initial (maxSize : ℕ) (isOpen : Bool) : Books (initial maxSize isOpen : RustPool ι) := by
  have hslot : countOf hasSlot (RustPool.initial maxSize isOpen : RustPool ι).phase = 0 :=
    countOf_eq_zero fun _ => rfl
  have hslotFor : ∀ conn,
      countOf (hasSlotFor conn) (RustPool.initial maxSize isOpen : RustPool ι).phase = 0 :=
    fun conn => countOf_eq_zero fun _ => rfl
  refine ⟨?_, ?_, ?_, ?_⟩
  · rw [inUse, hslot]
    rfl
  · exact Nat.zero_le _
  · intro conn
    rw [places, hslotFor]
    exact Nat.zero_le _
  · intro conn _
    rw [places, hslotFor]
    rfl

end Books

end RustPool

end OdooKernel
