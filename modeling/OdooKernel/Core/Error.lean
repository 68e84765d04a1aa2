import Mathlib.Tactic.Common

/-!
# How a request fails

Every fallible function of the kernel returns `Except KernelError`.  The constructors are the
errors the kernel itself tells apart: a *refusal* sends the request back to the Python
implementation, an access denial is the answer, and a database error or an internal one is passed
through.  The JSON values that some messages print after a colon are left out of the texts.

* `ErrorKind.of` — the classification the callers act on.
-/

namespace OdooKernel

/-- The errors raised in the kernel. -/
inductive KernelError where
  | refusal (reason : String)
  | accessDenied (reason : String)
  | registryStale
  | needsRoundTrip
  | database (reason : String)
  | internal (reason : String)
deriving DecidableEq, Repr

/-- What the caller of the kernel sees of an error. -/
inductive ErrorKind where
  | refused
  | accessDenied
  | registryStale
  | database
  | internal
deriving DecidableEq, Repr

/-- The classification of an error.  A request that needs a round trip is no category of its own:
its caller recognises it before classifying. -/
def ErrorKind.of : KernelError → ErrorKind
  | .refusal _ => .refused
  | .accessDenied _ => .accessDenied
  | .registryStale => .registryStale
  | .needsRoundTrip => .internal
  | .database _ => .database
  | .internal _ => .internal

/-- A fallible computation of the kernel. -/
abbrev Result (α : Type) := Except KernelError α

/-- Refuse the request. -/
def refuse {α : Type} (reason : String) : Result α := .error (.refusal reason)

/-- Deny access. -/
def denyAccess {α : Type} (reason : String) : Result α := .error (.accessDenied reason)

/-- A value that is there, or a refusal. -/
def orRefuse {α : Type} (reason : String) : Option α → Result α
  | some a => .ok a
  | none => refuse reason

variable {α β : Type}

@[simp] lemma refuse_ne_ok (reason : String) (a : α) : refuse reason ≠ Except.ok a := by
  simp [refuse]

@[simp] lemma refuse_eq_ok (reason : String) (a : α) :
    ((refuse reason : Result α) = Except.ok a) ↔ False := by
  simp [refuse]

@[simp] lemma denyAccess_eq_ok (reason : String) (a : α) :
    ((denyAccess reason : Result α) = Except.ok a) ↔ False := by
  simp [denyAccess]

@[simp] lemma orRefuse_eq_ok {reason : String} {o : Option α} {a : α} :
    orRefuse reason o = Except.ok a ↔ o = some a := by
  cases o <;> simp [orRefuse]

/-- A sequence of two computations succeeds exactly when both do. -/
lemma bind_eq_ok {x : Result α} {f : α → Result β} {b : β} :
    (x >>= f) = Except.ok b ↔ ∃ a, x = .ok a ∧ f a = .ok b := by
  cases x <;> simp [bind, Except.bind]

lemma map_eq_ok {x : Result α} {f : α → β} {b : β} :
    (f <$> x) = Except.ok b ↔ ∃ a, x = .ok a ∧ f a = b := by
  cases x <;> simp [Functor.map, Except.map]

@[simp] lemma pure_eq_ok {a b : α} : (pure a : Result α) = Except.ok b ↔ a = b := by
  simp [pure, Except.pure]

/-- A computation that runs over a list succeeds exactly when it does on each element. -/
lemma mapM_eq_ok {f : α → Result β} :
    ∀ {as : List α} {bs : List β},
      as.mapM f = Except.ok bs ↔ List.Forall₂ (fun a b => f a = .ok b) as bs
  | [], bs => by
      simp only [List.mapM_nil, pure_eq_ok]
      constructor
      · rintro rfl; exact .nil
      · intro h; cases h; rfl
  | a :: as, bs => by
      simp only [List.mapM_cons, bind_eq_ok, pure_eq_ok, mapM_eq_ok]
      constructor
      · rintro ⟨b, hb, bs', hbs, rfl⟩; exact .cons hb hbs
      · intro h
        cases h with
        | cons hb hbs => exact ⟨_, hb, _, hbs, rfl⟩

/-- A result of a computation over a list is that of one of its elements. -/
lemma exists_of_mem_mapM {f : α → Result β} {as : List α} {bs : List β} (h : as.mapM f = .ok bs)
    {b : β} (hb : b ∈ bs) : ∃ a ∈ as, f a = .ok b := by
  have hall := mapM_eq_ok.mp h
  clear h
  induction hall with
  | nil => exact absurd hb List.not_mem_nil
  | cons hfirst hrest ih =>
      rcases List.mem_cons.mp hb with rfl | hb
      · exact ⟨_, List.mem_cons_self, hfirst⟩
      · obtain ⟨a, ha, hfa⟩ := ih hb
        exact ⟨a, List.mem_cons_of_mem _ ha, hfa⟩

/-- Two computations over a list, one after the other, are one. -/
lemma mapM_bind_eq_ok {γ : Type} {f : α → Result β} {g : β → Result γ} :
    ∀ {as : List α} {bs : List β} {cs : List γ}, as.mapM f = .ok bs → bs.mapM g = .ok cs →
      as.mapM (fun a => f a >>= g) = .ok cs
  | [], bs, cs, hbs, hcs => by
      rw [List.mapM_nil, pure_eq_ok] at hbs
      subst hbs
      exact hcs
  | a :: as, bs, cs, hbs, hcs => by
      simp only [List.mapM_cons, bind_eq_ok, pure_eq_ok] at hbs
      obtain ⟨b, hb, rest, hrest, rfl⟩ := hbs
      simp only [List.mapM_cons, bind_eq_ok, pure_eq_ok] at hcs
      obtain ⟨c, hc, last, hlast, rfl⟩ := hcs
      simp only [List.mapM_cons, bind_eq_ok, pure_eq_ok]
      exact ⟨c, ⟨b, hb, hc⟩, last, mapM_bind_eq_ok hrest hlast, rfl⟩

end OdooKernel
