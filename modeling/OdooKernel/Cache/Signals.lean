import Mathlib.Order.WithBot
import OdooKernel.Core.Dict

/-!
# The signal sequences

A database counts the changes of its metadata in sequences, one a table.  A registry knows the
tables' names in the order of the values it reads.  What a request reads is therefore a list of
numbers, and all that a cache knows of the age of its data is such a list.

**What is compared.**  A change of the registry's own sequence asks for another registry, one of the
security sequences for other access data, and any other change for nothing but a note that the data
is current (`classifySignalChange`).  Data is current where the watched sequences are equal
(`SameWatched`).

**Order.**  NULL is below every value, and a sequence that a list is too short for below NULL. The
snapshots of one database grow together (`Grows`), which is what makes a comparison of two of them
say which is older.

* `snapshotPrecedes`, `securitySignals` — whether a snapshot is older, and the part of the signals
  that the access data depends on.
* `sameWatched_of_not_moved`, `sameWatched_of_same_age` — the two ways in which a check finds data
  current.
-/

namespace OdooKernel

/-- The value of each signal sequence; `⊥` is the NULL of a table without rows. -/
abbrev Signals := List (WithBot ℤ)

/-- NULL is below every value. -/
instance signalPreorder : Preorder (WithBot ℤ) := @WithBot.instPreorder ℤ Int.instLinearOrder.toPreorder

/-- The value at a position, lower than any value where there is none. -/
def Signals.at (signals : Signals) (i : ℕ) : WithBot (WithBot ℤ) := signals[i]?

inductive SignalChange where
  | none
  | security
  | registry
  | irrelevant
deriving DecidableEq, Repr

/-- The sequence of the registry's own metadata. -/
def registrySignalTable : String := "orm_signaling_registry"

/-- The sequences of what a `Dynamic` holds. -/
def securitySignalTables : List String :=
  ["orm_signaling_default", "orm_signaling_groups", "orm_signaling_stable"]

/-- A sequence whose changes matter to an answer. -/
def isWatched (table : String) : Bool :=
  table = registrySignalTable || table ∈ securitySignalTables

/-- The sequence of a table changed. -/
def moved (tables : List String) (old new : Signals) (name : String) : Bool :=
  tables.zipIdx.any fun (table, i) => table = name && old.at i ≠ new.at i

/-- **What a change of the signals means.** -/
def classifySignalChange (tables : List String) (old new : Signals) : SignalChange :=
  if old = new then .none
  else if moved tables old new registrySignalTable then .registry
  else if securitySignalTables.any (moved tables old new) then .security
  else .irrelevant

/-- The values of the security sequences. -/
def securitySignals (tables : List String) (signals : Signals) : Signals :=
  ((tables.zip signals).filter fun e => e.1 ∈ securitySignalTables).map (·.2)

/-- A snapshot is older than the current one in a sequence that matters. -/
def snapshotPrecedes (tables : List String) (snapshot current : Signals) : Bool :=
  tables.zipIdx.any fun (table, i) => isWatched table && snapshot.at i < current.at i

/-- A sequence moved on from a snapshot's. -/
def advanced (signals current : Signals) : Bool :=
  (signals.zip current).any fun e => e.1 > e.2

/-! ## Equal where it matters -/

/-- The registry and security signals are equal. -/
def SameWatched (tables : List String) (a b : Signals) : Prop :=
  ∀ i table, tables[i]? = some table → isWatched table = true → a.at i = b.at i

variable {tables : List String} {a b c : Signals}

lemma SameWatched.refl (tables : List String) (a : Signals) : SameWatched tables a a :=
  fun _ _ _ _ => rfl

lemma SameWatched.symm (h : SameWatched tables a b) : SameWatched tables b a :=
  fun i table ht hw => (h i table ht hw).symm

lemma SameWatched.trans (h : SameWatched tables a b) (h' : SameWatched tables b c) :
    SameWatched tables a c :=
  fun i table ht hw => (h i table ht hw).trans (h' i table ht hw)

lemma securitySignals_cons (table : String) (tables : List String) (a : Signals) :
    securitySignals (table :: tables) a
      = (if table ∈ securitySignalTables then a.head?.toList else [])
        ++ securitySignals tables a.tail := by
  cases a with
  | nil => simp [securitySignals]
  | cons x a => by_cases hs : table ∈ securitySignalTables <;> simp [securitySignals, hs]

/-- The security signals are among the watched ones. -/
lemma SameWatched.securitySignals_eq (h : SameWatched tables a b) :
    securitySignals tables a = securitySignals tables b := by
  induction tables generalizing a b with
  | nil => rfl
  | cons table tables ih =>
      have hrest : SameWatched tables a.tail b.tail := by
        intro i name hname hw
        have := h (i + 1) name (by simpa using hname) hw
        simpa [Signals.at] using this
      rw [securitySignals_cons, securitySignals_cons, ih hrest]
      congr 1
      split
      · next hs =>
          have hhead : a[0]? = b[0]? := h 0 table rfl (by simp [isWatched, hs])
          rw [List.head?_eq_getElem?, List.head?_eq_getElem?, hhead]
      · rfl

/-- No sequence that matters moved. -/
lemma sameWatched_of_not_moved
    (h : ∀ name, isWatched name = true → moved tables a b name = false) :
    SameWatched tables a b := by
  intro i table ht hw
  by_contra hne
  have hmoved : moved tables a b table = true := by
    refine List.any_eq_true.mpr ⟨(table, i), List.mk_mem_zipIdx_iff_getElem?.mpr ht, ?_⟩
    simp [hne]
  rw [h table hw] at hmoved
  exact absurd hmoved (by decide)

/-- What is no change of the registry or the access data leaves the watched signals equal. -/
lemma sameWatched_of_classify
    (h : classifySignalChange tables a b = .none ∨ classifySignalChange tables a b = .irrelevant) :
    SameWatched tables a b := by
  unfold classifySignalChange at h
  split at h
  · next heq => exact heq ▸ .refl tables a
  · split at h
    · simp at h
    · next hregistry =>
        split at h
        · simp at h
        · next hsecurity =>
            refine sameWatched_of_not_moved fun name hw => ?_
            simp only [isWatched, Bool.or_eq_true, decide_eq_true_eq] at hw
            rcases hw with rfl | hs
            · simpa using hregistry
            · simp only [Bool.not_eq_true, List.any_eq_false] at hsecurity
              simpa using hsecurity name hs

/-! ## Snapshots of one database -/

/-- The sequences of one snapshot are not behind those of another. -/
def Grows (old new : Signals) : Prop :=
  old.length = new.length ∧ ∀ e ∈ old.zip new, e.1 ≤ e.2

instance : Decidable (Grows a b) := inferInstanceAs (Decidable (_ ∧ _))

lemma Grows.refl (a : Signals) : Grows a a := by
  refine ⟨rfl, fun e he => ?_⟩
  obtain ⟨i, hi, rfl⟩ := List.mem_iff_getElem.mp he
  simp

lemma Grows.le (h : Grows a b) (i : ℕ) : a.at i ≤ b.at i := by
  by_cases hi : i < a.length
  · have hi' : i < b.length := h.1 ▸ hi
    have hmem : (a[i], b[i]) ∈ a.zip b :=
      List.mem_iff_getElem.mpr ⟨i, by simp [hi, hi'], by simp⟩
    have ha : a.at i = ((a[i] : WithBot ℤ) : WithBot (WithBot ℤ)) := List.getElem?_eq_getElem hi
    have hb : b.at i = ((b[i] : WithBot ℤ) : WithBot (WithBot ℤ)) := List.getElem?_eq_getElem hi'
    rw [ha, hb, WithBot.coe_le_coe]
    exact h.2 _ hmem
  · have ha : a.at i = ⊥ := List.getElem?_eq_none (not_lt.mp hi)
    simp [ha]

/-- A snapshot that is not behind and not ahead of another has the same watched signals. -/
lemma sameWatched_of_same_age (hlen : a.length = b.length)
    (hnot : snapshotPrecedes tables a b = false) (hadv : advanced a b = false) :
    SameWatched tables a b := by
  intro i table ht hw
  have hge : ¬ a.at i < b.at i := by
    intro hlt
    have : snapshotPrecedes tables a b = true := by
      refine List.any_eq_true.mpr ⟨(table, i), List.mk_mem_zipIdx_iff_getElem?.mpr ht, ?_⟩
      simp [hw, hlt]
    rw [hnot] at this
    exact absurd this (by decide)
  have hgrows : Grows a b := by
    refine ⟨hlen, fun e he => ?_⟩
    simp only [advanced, List.any_eq_false, gt_iff_lt, decide_eq_true_eq] at hadv
    exact not_lt.mp (hadv e he)
  exact le_antisymm (hgrows.le i) (not_lt.mp hge)

/-- A snapshot some sequence of which is ahead is not the older one. -/
lemma not_grows_of_advanced (h : advanced a b = true) : ¬ Grows a b := by
  intro hg
  obtain ⟨e, he, hlt⟩ := List.any_eq_true.mp h
  exact absurd (hg.2 e he) (not_le.mpr (by simpa using hlt))

end OdooKernel
