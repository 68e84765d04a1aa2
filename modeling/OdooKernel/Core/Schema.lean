import Mathlib.Data.List.Basic
import Mathlib.Logic.Relation
import Mathlib.Tactic.Common

/-!
# Paths with steps that stand for paths

From an object a path leads on step by step, to other objects and at last to a value.  A step may be
defined as a path of its own, and what a step stands for depends on the class of the object that it
is read on.

**Reading.**  Objects read a defined step as its definition (`Schema.Objects`), so that a definition
may stand in the place of what it defines (`read_cons_defined`), at the beginning of a path and
behind plain steps.

**Coming to an end.**  Putting in definitions ends for a path where no step comes up again in its own
definition.  Some steps may be kept at the end of a longer path, whatever they stand for; a step that
comes up again there does no harm, and one that comes up elsewhere does.  `Schema.Settled` is said by
accessibility, so that it is used by induction, and what it excludes is read off it
(`not_runsIntoCycle`, `not_runsIntoLastingCycle`).

* `Schema`, `Schema.Leads` — what a step stands for and where it leads, by the class of the object.
* `Schema.RunsIntoCycle` — a path on which a step comes up again in its own definition.
* `settled_cons_plain`, `settled_cons_defined` — a path that settles, a step at a time.
-/

namespace OdooKernel

open Relation

variable {M S ρ ν : Type}

/-! ## Reading along a path -/

/-- The objects at the end of a path. -/
def follow (links : ρ → S → List ρ) : List S → ρ → List ρ
  | [], r => [r]
  | s :: path, r => (links r s).flatMap (follow links path)

/-- The values at the end of a path: its last step is read, the others are followed. -/
def readAlong (links : ρ → S → List ρ) (value : ρ → S → List ν) : List S → ρ → List ν
  | [], _ => []
  | [s], r => value r s
  | s :: t :: path, r => (links r s).flatMap (readAlong links value (t :: path))

section Reading

variable (links : ρ → S → List ρ) (value : ρ → S → List ν)

lemma readAlong_cons (s : S) {path : List S} (hne : path ≠ []) (r : ρ) :
    readAlong links value (s :: path) r = (links r s).flatMap (readAlong links value path) := by
  cases path with
  | nil => exact absurd rfl hne
  | cons t path => rfl

lemma readAlong_append (before : List S) {path : List S} (hne : path ≠ []) (r : ρ) :
    readAlong links value (before ++ path) r
      = (follow links before r).flatMap (readAlong links value path) := by
  induction before generalizing r with
  | nil => simp [follow]
  | cons s before ih =>
      rw [List.cons_append, readAlong_cons links value s (by simp [hne]), follow, List.flatMap_assoc]
      congr 1
      funext r'
      exact ih r'

end Reading

/-! ## Schemas -/

/-- What the steps from a class of objects stand for, where they are defined as paths, and the class
that any other one leads to. -/
structure Schema (M S : Type) where
  definition : M → S → Option (List S)
  leads : M → S → Option M
  definition_ne_nil : ∀ m s, definition m s ≠ some []

namespace Schema

variable (G : Schema M S)

/-- The class of objects that a path leads to. -/
inductive Leads : M → List S → M → Prop where
  | nil (m : M) : Leads m [] m
  | plain {m m₁ m₂ : M} {s : S} {path : List S} (hdef : G.definition m s = none)
      (hleads : G.leads m s = some m₁) (hpath : Leads m₁ path m₂) : Leads m (s :: path) m₂
  | defined {m m₁ m₂ : M} {s : S} {d path : List S} (hdef : G.definition m s = some d)
      (hd : Leads m d m₁) (hpath : Leads m₁ path m₂) : Leads m (s :: path) m₂

variable {G}

lemma Leads.append {m m₁ m₂ : M} {before path : List S} (hbefore : G.Leads m before m₁)
    (hpath : G.Leads m₁ path m₂) : G.Leads m (before ++ path) m₂ := by
  induction hbefore with
  | nil m => exact hpath
  | plain hdef hleads _ ih => exact .plain hdef hleads (ih hpath)
  | defined hdef hd _ _ ih => exact .defined hdef hd (ih hpath)

lemma Leads.cons_plain {m m₁ m₂ : M} {s : S} {path : List S} (hdef : G.definition m s = none)
    (hleads : G.leads m s = some m₁) (h : G.Leads m (s :: path) m₂) : G.Leads m₁ path m₂ := by
  cases h with
  | plain hdef' hleads' hpath =>
      rw [hleads, Option.some.injEq] at hleads'
      rwa [hleads']
  | defined hdef' hd hpath => rw [hdef] at hdef'; cases hdef'

lemma Leads.cons_defined {m m₂ : M} {s : S} {d path : List S} (hdef : G.definition m s = some d)
    (h : G.Leads m (s :: path) m₂) : G.Leads m (d ++ path) m₂ := by
  cases h with
  | plain hdef' hleads' hpath => rw [hdef] at hdef'; cases hdef'
  | defined hdef' hd hpath =>
      rw [hdef, Option.some.injEq] at hdef'
      rw [hdef']
      exact hd.append hpath

/-! ## Objects of a schema -/

/-- The objects of a schema, each with the class it belongs to, the objects that its steps lead to,
and the values they have.  A step that is defined leads and reads as its definition does. -/
structure Objects (G : Schema M S) (ρ ν : Type) where
  model : ρ → M
  links : ρ → S → List ρ
  value : ρ → S → List ν
  model_of_links : ∀ r s m, G.definition (model r) s = none → G.leads (model r) s = some m →
    ∀ r' ∈ links r s, model r' = m
  links_defined : ∀ r s d, G.definition (model r) s = some d → links r s = follow links d r
  value_defined : ∀ r s d, G.definition (model r) s = some d →
    value r s = readAlong links value d r

namespace Objects

/-- What an object gives along a path. -/
def read (w : G.Objects ρ ν) : List S → ρ → List ν := readAlong w.links w.value

/-- **A definition may stand in the place of what it defines.** -/
lemma read_cons_defined (w : G.Objects ρ ν) {r : ρ} {s : S} {d : List S}
    (hdef : G.definition (w.model r) s = some d) (rest : List S) :
    w.read (s :: rest) r = w.read (d ++ rest) r := by
  cases rest with
  | nil =>
      rw [List.append_nil]
      exact w.value_defined r s d hdef
  | cons t rest =>
      show readAlong w.links w.value (s :: t :: rest) r = readAlong w.links w.value (d ++ t :: rest) r
      rw [readAlong_append _ _ d (List.cons_ne_nil t rest), ← w.links_defined r s d hdef]
      rfl

/-- What follows a plain step may be replaced by what reads the same from where the step leads. -/
lemma read_cons_plain (w : G.Objects ρ ν) {r : ρ} {s : S} {m : M} {path rest : List S}
    (hdef : G.definition (w.model r) s = none) (hleads : G.leads (w.model r) s = some m)
    (hpath : path ≠ []) (hrest : rest ≠ [])
    (hread : ∀ r', w.model r' = m → w.read path r' = w.read rest r') :
    w.read (s :: path) r = w.read (s :: rest) r := by
  show readAlong w.links w.value (s :: path) r = readAlong w.links w.value (s :: rest) r
  rw [readAlong_cons _ _ s hpath, readAlong_cons _ _ s hrest]
  refine List.flatMap_congr ?_
  intro r' hr'
  exact hread r' (w.model_of_links r s m hdef hleads r' hr')

end Objects

/-! ## Cycles of definitions -/

/-- The definition of a step `x` has `y` among its steps. -/
def Uses (G : Schema M S) (x y : M × S) : Prop :=
  ∃ before after, G.definition x.1 x.2 = some (before ++ y.2 :: after) ∧ G.Leads x.1 before y.1

/-- A path has a step that leads, from one definition to the next, to a step that comes up again in
its own. -/
def RunsIntoCycle (G : Schema M S) (uses : M × S → M × S → Prop) (m : M) (path : List S) : Prop :=
  ∃ before step after m' x, path = before ++ step :: after ∧ G.Leads m before m' ∧
    ReflTransGen uses (m', step) x ∧ TransGen uses x x

/-- A step where it stands: at the beginning of the whole path or not, at its end or not. -/
structure Occurrence (M S : Type) where
  first : Bool
  last : Bool
  model : M
  step : S

/-- The step at the end of a longer path is kept as it is, if it is one of those. -/
def Occurrence.Kept (keeps : S → Prop) (o : Occurrence M S) : Prop :=
  o.last = true ∧ o.first = false ∧ keeps o.step

/-- The steps of a path that is itself at the beginning or the end of the whole. -/
def Occurs (G : Schema M S) (first last : Bool) (m : M) (path : List S) (o : Occurrence M S) :
    Prop :=
  ∃ before after, path = before ++ o.step :: after ∧ G.Leads m before o.model ∧
    o.first = (first && before.isEmpty) ∧ o.last = (last && after.isEmpty)

/-- A step that is not kept gives way to the steps of its definition. -/
def Unfolds (G : Schema M S) (keeps : S → Prop) (o o' : Occurrence M S) : Prop :=
  ¬ o.Kept keeps ∧ ∃ d, G.definition o.model o.step = some d ∧ G.Occurs o.first o.last o.model d o'

/-- A path has a step that comes up again, at the same place, when definitions are put in. -/
def RunsIntoLastingCycle (G : Schema M S) (keeps : S → Prop) (m : M) (path : List S) : Prop :=
  ∃ o o', G.Occurs true true m path o ∧ ReflTransGen (G.Unfolds keeps) o o' ∧
    TransGen (G.Unfolds keeps) o' o'

/-- Putting in definitions comes to an end, at every step of a path to the end of the whole. -/
def Settled (G : Schema M S) (keeps : S → Prop) (first : Bool) (m : M) (path : List S) : Prop :=
  ∀ o, G.Occurs first true m path o → Acc (fun o' o => G.Unfolds keeps o o') o

/-- What is accessible has no property that comes up again further down. -/
lemma not_of_recurs {α : Type} {r : α → α → Prop} {P : α → Prop} {a : α}
    (hacc : Acc (fun y x => r x y) a) (hP : ∀ x, P x → ∃ y, P y ∧ TransGen r x y) : ¬ P a := by
  have htrans := hacc.transGen
  clear hacc
  induction htrans with
  | intro x _ ih =>
      intro hx
      obtain ⟨y, hy, hreach⟩ := hP x hx
      exact ih y (transGen_swap.mpr hreach) hy

section Settled

variable {keeps : S → Prop} {first : Bool} {m : M} {s : S}

lemma occurs_cons {last : Bool} {path : List S} {o : Occurrence M S}
    (h : G.Occurs first last m (s :: path) o) :
    o = ⟨first, last && path.isEmpty, m, s⟩ ∨
      ∃ before after, path = before ++ o.step :: after ∧ G.Leads m (s :: before) o.model ∧
        o.first = false ∧ o.last = (last && after.isEmpty) := by
  obtain ⟨before, after, hpath, hleads, hfirst, hlast⟩ := h
  cases before with
  | nil =>
      left
      cases hleads
      obtain ⟨rfl, rfl⟩ := List.cons.inj hpath
      cases o
      simp_all
  | cons t before =>
      right
      obtain ⟨rfl, rfl⟩ := List.cons.inj hpath
      exact ⟨before, after, rfl, hleads, by simpa using hfirst, hlast⟩

lemma settled_nil (first : Bool) (m : M) : G.Settled keeps first m [] := by
  rintro o ⟨before, after, hpath, -⟩
  simp at hpath

/-- A step that stands for itself. -/
lemma acc_of_plain {o : Occurrence M S} (hdef : G.definition o.model o.step = none) :
    Acc (fun o' o => G.Unfolds keeps o o') o := by
  constructor
  rintro o' ⟨-, d, hd, -⟩
  rw [hdef] at hd
  cases hd

lemma settled_kept (hs : keeps s) : G.Settled keeps false m [s] := by
  intro o ho
  rcases occurs_cons ho with rfl | ⟨before, after, hpath, -⟩
  · constructor
    rintro o' ⟨hkept, -⟩
    exact absurd ⟨rfl, rfl, hs⟩ hkept
  · simp at hpath

lemma settled_last (hdef : G.definition m s = none) : G.Settled keeps first m [s] := by
  intro o ho
  rcases occurs_cons ho with rfl | ⟨before, after, hpath, -⟩
  · exact acc_of_plain hdef
  · simp at hpath

lemma settled_cons_plain {m' : M} {path : List S} (hdef : G.definition m s = none)
    (hleads : G.leads m s = some m') (h : G.Settled keeps false m' path) :
    G.Settled keeps first m (s :: path) := by
  intro o ho
  rcases occurs_cons ho with rfl | ⟨before, after, hpath, hbefore, hfirst, hlast⟩
  · exact acc_of_plain hdef
  · exact h o ⟨before, after, hpath, hbefore.cons_plain hdef hleads, by simpa using hfirst, hlast⟩

/-- **Putting in the definition of a step settles it** along with what follows. -/
lemma settled_cons_defined {d path : List S} (hdef : G.definition m s = some d)
    (h : G.Settled keeps first m (d ++ path)) : G.Settled keeps first m (s :: path) := by
  intro o ho
  rcases occurs_cons ho with rfl | ⟨before, after, hpath, hbefore, hfirst, hlast⟩
  · constructor
    rintro o' ⟨-, d', hd', before, after, hsteps, hleads, hfirst, hlast⟩
    rw [show d' = d by simpa [hdef] using hd'.symm] at hsteps
    refine h o' ⟨before, after ++ path, by simp [hsteps], hleads, hfirst, ?_⟩
    cases after <;> simp [hlast]
  · refine h o ⟨d ++ before, after, by simp [hpath], hbefore.cons_defined hdef, ?_, hlast⟩
    have hd : d ≠ [] := by
      rintro rfl
      exact G.definition_ne_nil m s hdef
    simp [hfirst, hd]

lemma acc_of_reaches {o o' : Occurrence M S} (h : Acc (fun o' o => G.Unfolds keeps o o') o)
    (hreach : ReflTransGen (G.Unfolds keeps) o o') : Acc (fun o' o => G.Unfolds keeps o o') o' := by
  induction hreach with
  | refl => exact h
  | tail _ hstep ih => exact Acc.inv ih hstep

/-- **A path that settles runs into no lasting cycle.** -/
lemma not_runsIntoLastingCycle {path : List S} (h : G.Settled keeps true m path) :
    ¬ G.RunsIntoLastingCycle keeps m path := by
  rintro ⟨o, o', ho, hreach, hcycle⟩
  refine not_of_recurs (P := (· = o')) (acc_of_reaches (h o ho) hreach) ?_ rfl
  rintro x rfl
  exact ⟨x, rfl, hcycle⟩

/-- A step that is not one of those that may be kept is replaced wherever it stands. -/
lemma exists_unfolds {o : Occurrence M S} {y : M × S} (hkept : ¬ keeps o.step)
    (h : G.Uses (o.model, o.step) y) :
    ∃ o', (o'.model, o'.step) = y ∧ G.Unfolds keeps o o' := by
  obtain ⟨before, after, hdef, hleads⟩ := h
  refine ⟨⟨o.first && before.isEmpty, o.last && after.isEmpty, y.1, y.2⟩, rfl, ?_, _, hdef, ?_⟩
  · rintro ⟨-, -, hkeeps⟩
    exact hkept hkeeps
  · exact ⟨before, after, rfl, hleads, rfl, rfl⟩

/-- The definitions that a step leads to, one from the other, by steps that are never kept. -/
def UsesUnkept (G : Schema M S) (keeps : S → Prop) (x y : M × S) : Prop :=
  ¬ keeps x.2 ∧ G.Uses x y

lemma exists_unfolds_of_reaches {o : Occurrence M S} {y : M × S}
    (h : ReflTransGen (G.UsesUnkept keeps) (o.model, o.step) y) :
    ∃ o', (o'.model, o'.step) = y ∧ ReflTransGen (G.Unfolds keeps) o o' := by
  induction h with
  | refl => exact ⟨o, rfl, .refl⟩
  | tail _ huses ih =>
      obtain ⟨o₁, rfl, hreach⟩ := ih
      obtain ⟨o₂, ho₂, hstep⟩ := exists_unfolds huses.1 huses.2
      exact ⟨o₂, ho₂, hreach.tail hstep⟩

/-- **A path that settles runs into no cycle of steps that are never kept.** -/
lemma not_runsIntoCycle {path : List S} (h : G.Settled keeps true m path) :
    ¬ G.RunsIntoCycle (G.UsesUnkept keeps) m path := by
  rintro ⟨before, step, after, m', x, hpath, hleads, hreach, hcycle⟩
  let start : Occurrence M S := ⟨before.isEmpty, after.isEmpty, m', step⟩
  have hstart : G.Occurs true true m path start := ⟨before, after, hpath, hleads, by simp [start]⟩
  obtain ⟨o, ho, hunfolds⟩ := exists_unfolds_of_reaches (o := start) hreach
  refine not_of_recurs (P := fun o => (o.model, o.step) = x)
    (acc_of_reaches (h start hstart) hunfolds) ?_ ho
  rintro o rfl
  obtain ⟨y, huses, hback⟩ := TransGen.head'_iff.mp hcycle
  obtain ⟨o₁, rfl, hstep⟩ := exists_unfolds huses.1 huses.2
  obtain ⟨o₂, ho₂, hmore⟩ := exists_unfolds_of_reaches hback
  exact ⟨o₂, ho₂, TransGen.head' hstep hmore⟩

end Settled

end Schema

end OdooKernel
