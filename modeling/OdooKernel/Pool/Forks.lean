import OdooKernel.Pool.RustPool

/-!
# Forks

A process that forks leaves a copy of its pool to the child, with the connections that are idle and
those that its code has borrowed.  What the child inherited is forgotten at its next call, where the
pool finds another process id than the one it was used by last.

**The size of a step.**  Here a call is one step, and a fork is one that copies the whole pool: what
the threads of one process do to each other is the subject of `Pool/RustPool`, and forks in the
middle of a call are left out.

**Where it can go wrong.**  The idle connections are dropped and none counts as out, but what the
child's own code still holds is unknown to the pool: it may put such a connection back, and the pool
keeps it like one of its own.  `Processes.Home` is the condition that this does not happen, on the
state before a call.

* `ProcessPool` — the pool of one process, as that process sees it.
* `ProcessPool.getconn`, `ProcessPool.putconn`, `ProcessPool.drain` — the calls.
* `Processes.step` — the processes after a call in one of them, or a fork.
* `Processes.Home` — no process puts a connection back that another one opened.
* **`handed_out_where_opened`** — then each connection is handed out in the process that opened it,
  and otherwise the next call hands out the one put back (`ProcessPool.foreign_handed_out`).
-/

namespace OdooKernel

/-- A connection, by the process that opened it. -/
structure PoolConn where
  opener : ℕ
  number : ℕ
deriving DecidableEq

/-- The pool of a process.  The idle connection that was put back last is the first; each has the
generation of the pool at that time.  `pid` is the process that used the pool last. -/
structure ProcessPool where
  pid : ℕ
  maxSize : ℕ
  idle : List (PoolConn × ℕ)
  out : ℕ
  generation : ℕ
  closed : Bool
  opened : ℕ
  isClosed : PoolConn → Bool
  connGeneration : PoolConn → ℕ
  borrowed : List PoolConn

/-- What a call of `getconn` finds among the idle connections. -/
inductive Found where
  | conn (c : PoolConn)
  | raised
  | nothing
deriving DecidableEq

namespace ProcessPool

variable (s : ProcessPool) (p : ℕ)

/-- In another process than the last one the idle connections are dropped, and none is out. -/
def forgetInheritedAfterFork : ProcessPool :=
  if p ≠ s.pid then { s with idle := [], out := 0, pid := p } else s

/-- The last idle connection of the generation that is not closed and passes its check, the
connections that are closed then, and those that stay idle. -/
def takeChecked (generation : ℕ) (check : PoolConn → CheckOutcome) :
    (PoolConn → Bool) → List (PoolConn × ℕ) → Found × (PoolConn → Bool) × List (PoolConn × ℕ)
  | isClosed, [] => (.nothing, isClosed, [])
  | isClosed, (candidate, gen) :: idle =>
    if gen = generation && !isClosed candidate then
      match check candidate with
      | .passes => (.conn candidate, isClosed, idle)
      | .fails => takeChecked generation check (Function.update isClosed candidate true) idle
      | .raises => (.raised, Function.update isClosed candidate true, idle)
    else takeChecked generation check (Function.update isClosed candidate true) idle

/-- A connection is handed out. -/
def handsOut (conn : PoolConn) : ProcessPool :=
  { s with
    out := s.out + 1
    connGeneration := Function.update s.connGeneration conn s.generation
    borrowed := conn :: s.borrowed }

/-- `getconn` in a process: the connection that is handed out, unless it raises. -/
def getconn (check : PoolConn → CheckOutcome) (opens : Bool) : Option PoolConn × ProcessPool :=
  let s := s.forgetInheritedAfterFork p
  if s.closed then (none, s)
  else
    match takeChecked s.generation check s.isClosed s.idle with
    | (.conn conn, isClosed, idle) => (some conn, { s with isClosed, idle }.handsOut conn)
    | (.raised, isClosed, idle) => (none, { s with isClosed, idle })
    | (.nothing, isClosed, idle) =>
      if s.out ≥ s.maxSize || !opens then (none, { s with isClosed, idle })
      else
        let conn : PoolConn := ⟨p, s.opened⟩
        (some conn, { s with isClosed, idle, opened := s.opened + 1 }.handsOut conn)

/-- Whether a connection whose reset went well or not is kept. -/
def keeps (conn : PoolConn) (reset : Bool) : Bool :=
  let room := s.idle.length < s.maxSize
  let current := s.connGeneration conn = s.generation
  reset && room && current && !s.closed && !s.isClosed conn

/-- A connection is given back. -/
def givesBack (conn : PoolConn) : ProcessPool :=
  { s with out := s.out - 1, borrowed := s.borrowed.erase conn }

/-- A connection is idle again. -/
def receives (conn : PoolConn) : ProcessPool := { s with idle := (conn, s.generation) :: s.idle }

/-- `putconn` in a process. -/
def putconn (conn : PoolConn) (reset : Bool) : ProcessPool :=
  let s := (s.forgetInheritedAfterFork p).givesBack conn
  if s.keeps conn reset then s.receives conn
  else { s with isClosed := Function.update s.isClosed conn true }

/-- The idle connections are closed. -/
def evictIdle : ProcessPool :=
  { s with
    idle := []
    isClosed := fun conn => s.isClosed conn || (s.idle.map Prod.fst).contains conn }

def drain : ProcessPool := { s with generation := s.generation + 1 }.evictIdle

def close : ProcessPool := { s with closed := true }.evictIdle

/-- A pool that a process has just made. -/
def initial (maxSize : ℕ) (isOpen : Bool) : ProcessPool where
  pid := p
  maxSize
  idle := []
  out := 0
  generation := 0
  closed := !isOpen
  opened := 0
  isClosed _ := false
  connGeneration _ := 0
  borrowed := []

end ProcessPool

/-- The processes, each with its pool. -/
abbrev Processes := ℕ → Option ProcessPool

/-- What happens next, and in which process. -/
inductive ForkAction where
  | getconn (p : ℕ) (check : PoolConn → CheckOutcome) (opens : Bool)
  | putconn (p : ℕ) (conn : PoolConn) (reset : Bool)
  | drain (p : ℕ)
  | close (p : ℕ)
  | open (p : ℕ)
  | disconnect (p : ℕ) (conn : PoolConn)
  | fork (p child : ℕ)

namespace Processes

variable (w : Processes)

/-- The pool of a process changes. -/
def sets (p : ℕ) (s : ProcessPool) : Processes := Function.update w p (some s)

/-- **The processes after an action**, if it can be taken: a process that forks has a pool, and its
child a new process id. -/
def step : ForkAction → Option Processes
  | .getconn p check opens => (w p).map fun s => w.sets p (s.getconn p check opens).2
  | .putconn p conn reset =>
    (w p).bind fun s => if conn ∈ s.borrowed then some (w.sets p (s.putconn p conn reset)) else none
  | .drain p => (w p).map fun s => w.sets p s.drain
  | .close p => (w p).map fun s => w.sets p s.close
  | .open p => (w p).map fun s => w.sets p { s with closed := false }
  | .disconnect p conn =>
    (w p).map fun s => w.sets p { s with isClosed := Function.update s.isClosed conn true }
  | .fork p child =>
    (w p).bind fun s => if (w child).isNone then some (w.sets child s) else none

/-- One process, which has just made its pool. -/
def start (p maxSize : ℕ) (isOpen : Bool) : Processes :=
  sets (fun _ => none) p (.initial p maxSize isOpen)

/-- **A connection is put back where it was opened**, or it is not kept. -/
def Home (w : Processes) : ForkAction → Prop
  | .putconn p conn reset =>
    conn.opener = p ∨ ∀ s ∈ w p, (s.forgetInheritedAfterFork p).keeps conn reset = false
  | _ => True

end Processes

namespace ProcessPool

variable {s : ProcessPool} {p : ℕ}

/-- Where the pool was last used by the process itself, that process opened what is idle. -/
def Owned (p : ℕ) (s : ProcessPool) : Prop := s.pid = p → ∀ entry ∈ s.idle, entry.1.opener = p

/-! ## What a call does to the idle connections -/

lemma forget_pid : (s.forgetInheritedAfterFork p).pid = p := by
  unfold forgetInheritedAfterFork
  split_ifs with hpid
  · rfl
  · exact (not_ne_iff.mp hpid).symm

lemma forget_own (h : s.pid = p) : s.forgetInheritedAfterFork p = s := by
  rw [forgetInheritedAfterFork, if_neg (not_ne_iff.mpr h.symm)]

/-- What stays idle after a fork was put back in the process itself. -/
lemma Owned.forget (h : Owned p s) :
    ∀ entry ∈ (s.forgetInheritedAfterFork p).idle, entry.1.opener = p := by
  unfold forgetInheritedAfterFork
  split_ifs with hpid
  · simp
  · exact h (not_ne_iff.mp hpid).symm

/-- The connection that is taken was idle, and nothing new is. -/
lemma takeChecked_idle (generation : ℕ) (check : PoolConn → CheckOutcome) :
    ∀ (idle : List (PoolConn × ℕ)) (isClosed : PoolConn → Bool),
      (∀ c, (takeChecked generation check isClosed idle).1 = .conn c → ∃ gen, (c, gen) ∈ idle) ∧
        ∀ entry ∈ (takeChecked generation check isClosed idle).2.2, entry ∈ idle
  | [], isClosed => by simp [takeChecked]
  | (candidate, gen) :: idle, isClosed => by
      have ih := takeChecked_idle generation check idle (Function.update isClosed candidate true)
      have hrest : (∀ c, (takeChecked generation check
            (Function.update isClosed candidate true) idle).1 = .conn c →
              ∃ gen', (c, gen') ∈ (candidate, gen) :: idle) ∧
          ∀ entry ∈ (takeChecked generation check
            (Function.update isClosed candidate true) idle).2.2, entry ∈ (candidate, gen) :: idle :=
        ⟨fun c hc => (ih.1 c hc).imp fun _ => List.mem_cons_of_mem _,
          fun entry hentry => List.mem_cons_of_mem _ (ih.2 entry hentry)⟩
      rw [takeChecked]
      split_ifs with hgood
      · cases check candidate with
        | passes =>
            refine ⟨fun c hc => ⟨gen, ?_⟩, fun entry => List.mem_cons_of_mem _⟩
            obtain rfl := Found.conn.inj hc
            exact List.mem_cons_self
        | fails => exact hrest
        | raises => exact ⟨fun c hc => (nomatch hc), fun entry => List.mem_cons_of_mem _⟩
      · exact hrest

/-- **What `getconn` hands out was opened in its process**, and what stays idle too. -/
lemma getconn_owned (h : Owned p s) (check : PoolConn → CheckOutcome) (opens : Bool) :
    (∀ conn, (s.getconn p check opens).1 = some conn → conn.opener = p) ∧
      (s.getconn p check opens).2.pid = p ∧
      ∀ entry ∈ (s.getconn p check opens).2.idle, entry.1.opener = p := by
  have hidle := h.forget
  have hpid := @forget_pid s p
  unfold getconn
  generalize s.forgetInheritedAfterFork p = s' at hidle hpid
  by_cases hclosed : s'.closed
  · simp only [hclosed, if_true]
    exact ⟨fun conn hconn => (nomatch hconn), hpid, hidle⟩
  · have htaken := takeChecked_idle s'.generation check s'.idle s'.isClosed
    simp only [hclosed, Bool.false_eq_true, if_false]
    generalize takeChecked s'.generation check s'.isClosed s'.idle = taken at htaken
    obtain ⟨found, isClosed, idle⟩ := taken
    have hstays : ∀ entry ∈ idle, entry.1.opener = p := fun entry hentry =>
      hidle entry (htaken.2 entry hentry)
    cases found with
    | conn c =>
        obtain ⟨gen, hgen⟩ := htaken.1 c rfl
        refine ⟨fun conn hconn => ?_, hpid, hstays⟩
        obtain rfl := Option.some.inj hconn
        exact hidle _ hgen
    | raised => exact ⟨fun conn hconn => (nomatch hconn), hpid, hstays⟩
    | nothing =>
        show (∀ conn, (if s'.out ≥ s'.maxSize || !opens then _ else _ :
          Option PoolConn × ProcessPool).1 = some conn → _) ∧ _
        split_ifs
        · exact ⟨fun conn hconn => (nomatch hconn), hpid, hstays⟩
        · refine ⟨fun conn hconn => ?_, hpid, hstays⟩
          obtain rfl := Option.some.inj hconn
          rfl

/-- What is put back is kept, or nothing new is idle. -/
lemma putconn_owned (h : Owned p s) {conn : PoolConn} {reset : Bool}
    (hhome : conn.opener = p ∨ (s.forgetInheritedAfterFork p).keeps conn reset = false) :
    (s.putconn p conn reset).pid = p ∧
      ∀ entry ∈ (s.putconn p conn reset).idle, entry.1.opener = p := by
  have hidle := h.forget
  have hpid := @forget_pid s p
  unfold putconn
  generalize s.forgetInheritedAfterFork p = s' at hidle hpid hhome
  by_cases hkeeps : (s'.givesBack conn).keeps conn reset
  · have hopener : conn.opener = p := by
      rcases hhome with hopener | hdropped
      · exact hopener
      · rw [show s'.keeps conn reset = true from hkeeps] at hdropped
        cases hdropped
    simp only [hkeeps, if_true]
    exact ⟨hpid, List.forall_mem_cons.mpr ⟨hopener, hidle⟩⟩
  · simp only [hkeeps]
    exact ⟨hpid, hidle⟩

/-- **The condition is exact**: the connection that is put back is what the next call hands out, if it
passes its check. -/
lemma foreign_handed_out {conn : PoolConn} {reset : Bool}
    (hkeeps : (s.forgetInheritedAfterFork p).keeps conn reset) {check : PoolConn → CheckOutcome}
    (hcheck : check conn = .passes) (opens : Bool) :
    ((s.putconn p conn reset).getconn p check opens).1 = some conn := by
  have hpid := @forget_pid s p
  unfold putconn
  generalize s.forgetInheritedAfterFork p = s' at hkeeps hpid
  have hback : (s'.givesBack conn).keeps conn reset := hkeeps
  have hopen : s'.closed = false ∧ s'.isClosed conn = false := by
    simp only [keeps, Bool.and_eq_true, Bool.not_eq_true'] at hkeeps
    exact ⟨hkeeps.1.2, hkeeps.2⟩
  simp only [hback, if_true]
  have hforget : ((s'.givesBack conn).receives conn).forgetInheritedAfterFork p =
      (s'.givesBack conn).receives conn := forget_own hpid
  unfold getconn
  rw [hforget]
  simp [receives, givesBack, hopen, takeChecked, hcheck]

end ProcessPool

namespace Processes

open ProcessPool

variable {w w' : Processes}

/-! ## Runs -/

@[simp] lemma sets_self (p : ℕ) (s : ProcessPool) : w.sets p s p = some s := by
  unfold Processes.sets
  exact Function.update_self p (some s) w

@[simp] lemma sets_of_ne {p q : ℕ} (h : q ≠ p) (s : ProcessPool) : w.sets p s q = w q := by
  unfold Processes.sets
  exact Function.update_of_ne h (some s) w

/-- No process ends. -/
lemma isSome_sets {p q : ℕ} (s : ProcessPool) (h : (w q).isSome) : (w.sets p s q).isSome := by
  by_cases hqp : q = p
  · rw [hqp, sets_self]
    rfl
  · rwa [sets_of_ne hqp]

/-- **In every process what is idle was opened there**, once it was used there, and the process that
used it last is a process. -/
def Apart (w : Processes) : Prop :=
  ∀ p, ∀ s ∈ w p, (w s.pid).isSome ∧ Owned p s

/-- A process that calls keeps the others apart. -/
lemma Apart.sets (h : Apart w) {p : ℕ} {s s' : ProcessPool} (hs : w p = some s)
    (hpid : s'.pid = p ∨ s'.pid = s.pid) (howned : Owned p s') : Apart (w.sets p s') := by
  intro q r hr
  by_cases hqp : q = p
  · subst hqp
    obtain rfl : s' = r := Option.some.inj ((sets_self q s').symm.trans hr)
    refine ⟨isSome_sets s' ?_, howned⟩
    rcases hpid with hpid | hpid
    · rw [hpid, hs]
      rfl
    · rw [hpid]
      exact (h q s hs).1
  · have hr' : w q = some r := (sets_of_ne hqp s').symm.trans hr
    exact ⟨isSome_sets s' (h q r hr').1, (h q r hr').2⟩

/-- A child has used nothing yet. -/
lemma Apart.fork (h : Apart w) {p child : ℕ} {s : ProcessPool} (hs : w p = some s)
    (hchild : w child = none) : Apart (w.sets child s) := by
  have hpid := (h p s hs).1
  have hne : s.pid ≠ child := by
    intro heq
    rw [heq, hchild] at hpid
    cases hpid
  intro q r hr
  by_cases hq : q = child
  · subst hq
    obtain rfl : s = r := Option.some.inj ((sets_self q s).symm.trans hr)
    exact ⟨isSome_sets s hpid, fun heq => absurd heq hne⟩
  · have hr' : w q = some r := (sets_of_ne hq s).symm.trans hr
    exact ⟨isSome_sets s (h q r hr').1, (h q r hr').2⟩

/-- **What a step keeps.** -/
lemma Apart.step (h : Apart w) {a : ForkAction} (hhome : Home w a) (hstep : w.step a = some w') :
    Apart w' := by
  cases a with
  | getconn p check opens =>
      obtain ⟨s, hs, rfl⟩ := Option.map_eq_some_iff.mp hstep
      obtain ⟨_, hpid, hidle⟩ := getconn_owned (h p s hs).2 check opens
      exact h.sets hs (.inl hpid) fun _ => hidle
  | putconn p conn reset =>
      obtain ⟨s, hs, hput⟩ := Option.bind_eq_some_iff.mp hstep
      split_ifs at hput
      obtain rfl := Option.some.inj hput
      obtain ⟨hpid, hidle⟩ := putconn_owned (h p s hs).2 (hhome.imp_right fun hkeeps => hkeeps s hs)
      exact h.sets hs (.inl hpid) fun _ => hidle
  | drain p =>
      obtain ⟨s, hs, rfl⟩ := Option.map_eq_some_iff.mp hstep
      exact h.sets hs (.inr rfl) fun _ entry hentry => (nomatch hentry)
  | close p =>
      obtain ⟨s, hs, rfl⟩ := Option.map_eq_some_iff.mp hstep
      exact h.sets hs (.inr rfl) fun _ entry hentry => (nomatch hentry)
  | «open» p =>
      obtain ⟨s, hs, rfl⟩ := Option.map_eq_some_iff.mp hstep
      exact h.sets hs (.inr rfl) (h p s hs).2
  | disconnect p conn =>
      obtain ⟨s, hs, rfl⟩ := Option.map_eq_some_iff.mp hstep
      exact h.sets hs (.inr rfl) (h p s hs).2
  | fork p child =>
      obtain ⟨s, hs, hfork⟩ := Option.bind_eq_some_iff.mp hstep
      split_ifs at hfork with hchild
      obtain rfl := Option.some.inj hfork
      exact h.fork hs (Option.isNone_iff_eq_none.mp hchild)

lemma apart_start (p maxSize : ℕ) (isOpen : Bool) : Apart (start p maxSize isOpen) := by
  intro q s hs
  by_cases hq : q = p
  · subst hq
    obtain rfl : ProcessPool.initial q maxSize isOpen = s :=
      Option.some.inj ((sets_self q _).symm.trans hs)
    refine ⟨?_, fun _ entry hentry => (nomatch hentry)⟩
    show (start q maxSize isOpen q).isSome
    rw [start, sets_self]
    rfl
  · rw [start, sets_of_ne hq] at hs
    cases hs

end Processes

open Processes

/-- **Each connection is handed out in the process that opened it**, in every run in which no process
puts a connection back that another one opened; and a process that does is handed it out next, if it
passes its check. -/
theorem handed_out_where_opened {p₀ maxSize : ℕ} {isOpen : Bool} {as : List ForkAction} {w : Processes}
    (hruns : RunsWhile Processes.step Home (start p₀ maxSize isOpen) as w) {p : ℕ} {s : ProcessPool}
    (hs : w p = some s) :
    (∀ check opens conn, (s.getconn p check opens).1 = some conn → conn.opener = p) ∧
      ∀ conn reset, ¬ Home w (.putconn p conn reset) → conn.opener ≠ p ∧
        ∀ check opens, check conn = .passes →
          ((s.putconn p conn reset).getconn p check opens).1 = some conn := by
  have hapart : Apart w := hruns.keeps (fun _ _ _ h hhome hstep => h.step hhome hstep)
    (apart_start p₀ maxSize isOpen)
  refine ⟨fun check opens conn => (ProcessPool.getconn_owned (hapart p s hs).2 check opens).1 conn, ?_⟩
  intro conn reset habroad
  have hkeeps : (s.forgetInheritedAfterFork p).keeps conn reset = true := by
    by_contra hdropped
    refine habroad (.inr fun s' hs' => ?_)
    obtain rfl := Option.some.inj (hs.symm.trans hs')
    simpa using hdropped
  exact ⟨fun hopener => habroad (.inl hopener), fun check opens hcheck =>
    ProcessPool.foreign_handed_out hkeeps hcheck opens⟩

/-- A process forks while a connection is borrowed, and takes it back. -/
def forkWhileBorrowed : List ForkAction :=
  [.getconn 0 (fun _ => .passes) true, .fork 0 1, .putconn 0 ⟨0, 0⟩ true]

/-- The child opens a connection of its own. -/
theorem child_opens_own : ∃ w s, RunsWhile Processes.step Home (start 0 1 true) forkWhileBorrowed w ∧
    w 1 = some s ∧ (s.getconn 1 (fun _ => .passes) true).1 = some ⟨1, 1⟩ ∧
      (⟨1, 1⟩ : PoolConn).opener = 1 := by
  have hruns : RunsWhile Processes.step Home (start 0 1 true) forkWhileBorrowed _ :=
    .cons trivial rfl (.cons trivial rfl (.cons (.inl rfl) rfl (.nil _)))
  exact ⟨_, _, hruns, rfl, rfl,
    (@handed_out_where_opened _ _ _ _ _ hruns 1 _ rfl).1 (fun _ => .passes) true ⟨1, 1⟩ rfl⟩

/-- A child that gives back what was borrowed before the fork is handed it out. -/
theorem inherited_handed_out : ¬ ∀ (p₀ maxSize : ℕ) (isOpen : Bool) (as : List ForkAction)
    (w : Processes), run Processes.step (start p₀ maxSize isOpen) as = some w →
    ∀ (p : ℕ) (s : ProcessPool), w p = some s → ∀ check opens conn,
      (s.getconn p check opens).1 = some conn → conn.opener = p := by
  intro h
  have hopener := h 0 1 true
    [.getconn 0 (fun _ => .passes) true, .fork 0 1, .putconn 1 ⟨0, 0⟩ true] _ rfl 1 _ rfl
    (fun _ => .passes) true ⟨0, 0⟩ rfl
  cases hopener

end OdooKernel
