import OdooKernel.Core.Error
import OdooKernel.Domain.Node

/-!
# What a compilation does beside its result

A compilation fails or returns a value, and records the columns it reads.  It also records which
rules each subquery carries, each subquery that an operator makes bypass the rules, with the origin
of the operator, and each subquery over followers; these records decide nothing, and are there to be
spoken of.

**Three ways to speak of it.**  `Yields` forgets what is recorded and is for what a domain means.
`Ensures` is for what is recorded: whatever is returned has one property, and all that is recorded
another.  `Given` is for what is returned, as far as the records allow: if all that is recorded has
one property, what is returned has another.  Each has a rule for the sequence of two computations
(`yields_bind`, `Ensures.bind`, `Given.bind`), and proofs about the compiler are made of these.

* `Origin`, `Event`, `Compile` — where a domain comes from, what is recorded, and the computations.
-/

namespace OdooKernel

/-- Where a domain that is compiled comes from.  A related field is searched through a chain of
steps that the kernel writes, at whose end stands the condition that was asked for. -/
inductive Origin where
  | caller
  | fieldDomain
  | rules
  | steps (remaining : ℕ) (bypasses : Bool) (asked : Origin)
deriving DecidableEq, Repr

/-- The origin of a sub-domain of a domain. -/
def Origin.inside : Origin → Origin
  | .steps (remaining + 1) bypasses asked =>
    if remaining = 0 then asked else .steps remaining bypasses asked
  | .steps 0 _ asked => asked
  | origin => origin

/-- What a compilation records: a column that is read, a subquery that an operator makes bypass the
record rules, a subquery that does not, with the rules that it carries, and a subquery over the
followers of a model. -/
inductive Event where
  | touch (model field : String)
  | bypass (origin : Origin) (model : String) (leaf : Leaf)
  | subquery (comodel : String) (rules : Option Node)
  | followers (model : String)

/-- A computation that may fail, and records what it does. -/
def Compile (α : Type) : Type := Result (α × List Event)

namespace Compile

variable {α β γ : Type}

/-- A value, with nothing recorded. -/
protected def pure (a : α) : Compile α := .ok (a, [])

/-- One computation after another. -/
protected def bind (x : Compile α) (f : α → Compile β) : Compile β :=
  Except.bind x fun p => Except.bind (f p.1) fun q => .ok (q.1, p.2 ++ q.2)

instance : Monad Compile where
  pure := Compile.pure
  bind := Compile.bind

/-- A computation that records nothing. -/
def ofResult (x : Result α) : Compile α :=
  match x with
  | .error e => .error e
  | .ok a => .ok (a, [])

instance : MonadLift Result Compile := ⟨ofResult⟩

/-- Record something. -/
def emit (e : Event) : Compile Unit := .ok ((), [e])

/-- Record a column that is read. -/
def touch (model field : String) : Compile Unit := emit (.touch model field)

/-- The value and what was recorded. -/
def run (x : Compile α) : Result (α × List Event) := x

/-- A computation that succeeds, with what it recorded. -/
def succeedsWith (x : Compile α) (a : α) (log : List Event) : Prop := x.run = .ok (a, log)

end Compile

section

variable {α β γ : Type}

/-- A computation returns a value. -/
def Yields (x : Compile α) (a : α) : Prop := ∃ log, x.succeedsWith a log

lemma run_bind (x : Compile α) (f : α → Compile β) :
    (x >>= f).run = x.run >>= fun p => (f p.1).run >>= fun q => .ok (q.1, p.2 ++ q.2) := rfl

/-- **A sequence of two computations.** -/
lemma bind_succeedsWith {x : Compile α} {f : α → Compile β} {b : β} {log : List Event} :
    (x >>= f).succeedsWith b log ↔
      ∃ a log₁ log₂, x.succeedsWith a log₁ ∧ (f a).succeedsWith b log₂ ∧ log = log₁ ++ log₂ := by
  simp only [Compile.succeedsWith, run_bind, bind_eq_ok, Except.ok.injEq, Prod.mk.injEq,
    Prod.exists]
  constructor
  · rintro ⟨a, log₁, hx, b', log₂, hf, rfl, rfl⟩
    exact ⟨a, log₁, log₂, hx, hf, rfl⟩
  · rintro ⟨a, log₁, log₂, hx, hf, rfl⟩
    exact ⟨a, log₁, hx, b, log₂, hf, rfl, rfl⟩

@[simp] lemma pure_succeedsWith {a b : α} {log : List Event} :
    (pure a : Compile α).succeedsWith b log ↔ a = b ∧ log = [] := by
  show (Except.ok (a, []) : Result (α × List Event)) = .ok (b, log) ↔ _
  simp [eq_comm]

@[simp] lemma emit_succeedsWith {e : Event} {u : Unit} {log : List Event} :
    (Compile.emit e).succeedsWith u log ↔ log = [e] := by
  show (Except.ok ((), [e]) : Result (Unit × List Event)) = .ok (u, log) ↔ _
  simp [eq_comm]

@[simp] lemma ofResult_succeedsWith {x : Result α} {a : α} {log : List Event} :
    (Compile.ofResult x).succeedsWith a log ↔ x = .ok a ∧ log = [] := by
  cases x with
  | error e =>
      show (Except.error e : Result (α × List Event)) = .ok (a, log) ↔ _
      simp
  | ok b =>
      show (Except.ok (b, []) : Result (α × List Event)) = .ok (a, log) ↔ _
      simp [eq_comm]

@[simp] lemma liftM_eq_ofResult (x : Result α) :
    (liftM x : Compile α) = Compile.ofResult x := rfl

@[simp] lemma monadLift_eq_ofResult (x : Result α) :
    (MonadLift.monadLift x : Compile α) = Compile.ofResult x := rfl

lemma yields_bind {x : Compile α} {f : α → Compile β} {b : β} :
    Yields (x >>= f) b ↔ ∃ a, Yields x a ∧ Yields (f a) b := by
  simp only [Yields, bind_succeedsWith]
  constructor
  · rintro ⟨log, a, log₁, log₂, hx, hf, -⟩
    exact ⟨a, ⟨log₁, hx⟩, ⟨log₂, hf⟩⟩
  · rintro ⟨a, ⟨log₁, hx⟩, ⟨log₂, hf⟩⟩
    exact ⟨_, a, log₁, log₂, hx, hf, rfl⟩

@[simp] lemma yields_pure {a b : α} : Yields (pure a : Compile α) b ↔ a = b := by
  simp [Yields]

@[simp] lemma yields_emit {e : Event} {u : Unit} : Yields (Compile.emit e) u :=
  ⟨[e], by simp⟩

@[simp] lemma yields_touch {model field : String} {u : Unit} :
    Yields (Compile.touch model field) u := yields_emit

@[simp] lemma yields_ofResult {x : Result α} {a : α} :
    Yields (Compile.ofResult x) a ↔ x = .ok a := by
  simp [Yields]

/-- A computation returns one value only. -/
lemma Yields.unique {x : Compile α} {a b : α} (h : Yields x a) (h' : Yields x b) : a = b := by
  obtain ⟨log, h⟩ := h
  obtain ⟨log', h'⟩ := h'
  exact (Prod.mk.inj (Except.ok.inj (h.symm.trans h'))).1

/-- A computation that succeeds returns a value. -/
lemma yields_of_isOk {x : Compile α} (h : x.run.isOk = true) : ∃ a, Yields x a := by
  cases hrun : x.run with
  | error e => simp [hrun, Except.isOk, Except.toBool] at h
  | ok p => exact ⟨p.1, p.2, hrun⟩

instance : LawfulMonad Compile := LawfulMonad.mk' Compile
  (fun x => by
    show Except.bind x (fun p => .ok (p.1, p.2 ++ [])) = x
    rcases x with e | ⟨a, log⟩ <;> simp [Except.bind])
  (fun a f => by
    show Except.bind (f a) (fun q => .ok (q.1, [] ++ q.2)) = f a
    rcases f a with e | ⟨b, log⟩ <;> rfl)
  (fun x f g => by
    show Except.bind (Except.bind x _) _ = Except.bind x _
    rcases x with e | ⟨a, log⟩
    · rfl
    · show Except.bind (Except.bind (f a) _) _ = Except.bind (Except.bind (f a) _) _
      rcases f a with e | ⟨b, log'⟩
      · rfl
      · show Except.bind (g b) _ = Except.bind (Except.bind (g b) _) _
        rcases g b with e | ⟨d, log''⟩
        · rfl
        · simp [Except.bind, List.append_assoc])

/-! ## What a computation ensures -/

variable {P : α → Prop} {Q : β → Prop} {E : Event → Prop}

/-- A computation that succeeds returns a value with one property, and records events with another
only. -/
def Ensures (x : Compile α) (P : α → Prop) (E : Event → Prop) : Prop :=
  ∀ a log, x.succeedsWith a log → P a ∧ ∀ e ∈ log, E e

lemma Ensures.pure {a : α} (h : P a) : Ensures (pure a) P E := by
  intro b log hb
  obtain ⟨rfl, rfl⟩ := pure_succeedsWith.mp hb
  exact ⟨h, List.forall_mem_nil _⟩

lemma Ensures.bind {x : Compile α} {f : α → Compile β} (hx : Ensures x P E)
    (hf : ∀ a, P a → Ensures (f a) Q E) : Ensures (x >>= f) Q E := by
  intro b log hb
  obtain ⟨a, log₁, log₂, ha, hfb, rfl⟩ := bind_succeedsWith.mp hb
  obtain ⟨hP, hlog₁⟩ := hx a log₁ ha
  obtain ⟨hQ, hlog₂⟩ := hf a hP b log₂ hfb
  refine ⟨hQ, fun e he => ?_⟩
  rcases List.mem_append.mp he with he | he
  · exact hlog₁ e he
  · exact hlog₂ e he

lemma Ensures.ofResult {x : Result α} (h : ∀ a, x = .ok a → P a) :
    Ensures (Compile.ofResult x) P E := by
  intro a log ha
  obtain ⟨rfl, rfl⟩ := ofResult_succeedsWith.mp ha
  exact ⟨h a rfl, List.forall_mem_nil _⟩

/-- A step that may fail and records nothing. -/
lemma Ensures.lift {x : Result α} {f : α → Compile β} (hf : ∀ a, x = .ok a → Ensures (f a) Q E) :
    Ensures (Compile.ofResult x >>= f) Q E :=
  (Ensures.ofResult fun _ => id).bind hf

lemma Ensures.error {e : KernelError} : Ensures (Compile.ofResult (.error e)) P E :=
  Ensures.ofResult fun a ha => by simp at ha

lemma Ensures.refuse {reason : String} :
    Ensures (Compile.ofResult (OdooKernel.refuse reason)) P E := Ensures.error

lemma Ensures.emit {e : Event} (h : E e) {P : Unit → Prop} (hP : P ()) :
    Ensures (Compile.emit e) P E := by
  intro a log ha
  obtain rfl := emit_succeedsWith.mp ha
  exact ⟨hP, by simpa using h⟩

lemma Ensures.imp {x : Compile α} {P' : α → Prop} (h : Ensures x P E) (hP : ∀ a, P a → P' a) :
    Ensures x P' E := fun a log ha => ⟨hP a (h a log ha).1, (h a log ha).2⟩

lemma Ensures.map {x : Compile α} {f : α → β} (h : Ensures x (fun a => Q (f a)) E) :
    Ensures (f <$> x) Q E := by
  rw [← bind_pure_comp]
  exact h.bind fun _ ha => .pure ha

/-- Nothing is ensured. -/
lemma Ensures.nothing {x : Compile α} : Ensures x (fun _ => True) (fun _ => True) :=
  fun _ _ _ => ⟨trivial, fun _ _ => trivial⟩

/-! ## What the records say of a value -/

/-- If all that a computation records has one property, the value it returns has another. -/
def Given (E : Event → Prop) (x : Compile α) (P : α → Prop) : Prop :=
  ∀ a log, x.succeedsWith a log → (∀ e ∈ log, E e) → P a

lemma Given.pure {a : α} (h : P a) : Given E (pure a) P := by
  intro b log hb _
  obtain ⟨rfl, -⟩ := pure_succeedsWith.mp hb
  exact h

lemma Given.bind {x : Compile α} {f : α → Compile β} (hx : Given E x P)
    (hf : ∀ a, P a → Given E (f a) Q) : Given E (x >>= f) Q := by
  intro b log hb hlog
  obtain ⟨a, log₁, log₂, ha, hfb, rfl⟩ := bind_succeedsWith.mp hb
  have hP := hx a log₁ ha fun e he => hlog e (List.mem_append_left _ he)
  exact hf a hP b log₂ hfb fun e he => hlog e (List.mem_append_right _ he)

/-- A step that may fail and records nothing. -/
lemma Given.lift {x : Result α} {f : α → Compile β} (hf : ∀ a, x = .ok a → Given E (f a) Q) :
    Given E (Compile.ofResult x >>= f) Q := by
  refine Given.bind ?_ hf
  intro a log ha _
  exact (ofResult_succeedsWith.mp ha).1

lemma Given.ofResult {x : Result α} (h : ∀ a, x = .ok a → P a) : Given E (Compile.ofResult x) P := by
  intro a log ha _
  exact h a (ofResult_succeedsWith.mp ha).1

lemma Given.refuse {reason : String} :
    Given E (Compile.ofResult (OdooKernel.refuse reason)) P :=
  Given.ofResult fun a ha => by simp at ha

/-- What is recorded is known. -/
lemma Given.emit {e : Event} {f : Unit → Compile β} (hf : E e → Given E (f ()) Q) :
    Given E (Compile.emit e >>= f) Q := by
  refine @Given.bind _ _ (fun _ => E e) _ _ _ _ ?_ fun _ => hf
  intro _ log ha hlog
  obtain rfl := emit_succeedsWith.mp ha
  exact hlog e (List.mem_singleton_self e)

lemma Given.map {x : Compile α} {f : α → β} (h : Given E x fun a => Q (f a)) :
    Given E (f <$> x) Q := by
  rw [← bind_pure_comp]
  exact h.bind fun _ ha => .pure ha

/-- Whatever is returned. -/
lemma Given.any {x : Compile α} : Given E x fun _ => True := fun _ _ _ _ => trivial

lemma Ensures.of_yields {x : Compile α} (h : Ensures x P E) {a : α} : Yields x a → P a := by
  rintro ⟨log, ha⟩
  exact (h a log ha).1

end

end OdooKernel
