import OdooKernel.Shim.Taints

/-!
# How long a cursor stays tainted

A mark stands for a write that a snapshot of the kernel does not show.  It may go when the write is
undone or signalled, and not before.  This file says in which runs that is so, and what is read in
the others.

**What is marked and kept.**  `Taints.marks` is what the collections say of a cursor, `Taints.kept`
what a rollback goes back to; `Taints.isTainted_iff` says that the gate asks for nothing else.
`Writes.Within` compares either with what was written, and each function of the collections has one
lemma that says what it makes of the two.

**The invariant.**  `TaintState.Marked` says that every write that no finished call has signalled is
marked, and kept once its commit is noted, but for what of an open transaction is not marked yet or
no longer is.  Each step keeps it (`Marked.step`) if it takes no mark away that is needed
(`TaintState.KeepsMarks`).  Three kinds of step may do that: one of `signal_changes` that meets a
cursor which has written again, a rollback that comes between a commit and its note, and a commit of
what is not marked.

**The result.**  `tainted_while_unsignalled`: in a run of such steps no read is routed that an older
snapshot would answer, but for a read of an open transaction whose rollback has begun, and for one by
a user that is still being created (`TaintState.unmarked`; `unmarked_within` says that nothing else
adds to it).  `Signalling.cleared_while_unsignalled` has, for each of these cases, a run in which
such a read is routed.
-/

namespace OdooKernel

variable {κ : Type} [DecidableEq κ]

/-! ## Writes -/

namespace Writes

/-- What is written is among other writes. -/
structure Within (w w' : Writes) : Prop where
  security : w.security = true → w'.security = true
  users : w.users ⊆ w'.users

variable {w w' w'' : Writes}

instance (w w' : Writes) : Decidable (Within w w') :=
  decidable_of_iff ((w.security = true → w'.security = true) ∧ w.users ⊆ w'.users)
    ⟨fun h => ⟨h.1, h.2⟩, fun h => ⟨h.security, h.users⟩⟩

lemma Within.refl (w : Writes) : Within w w := ⟨id, Finset.Subset.refl w.users⟩

lemma Within.trans (h : Within w w') (h' : Within w' w'') : Within w w'' :=
  ⟨fun hw => h'.security (h.security hw), h.users.trans h'.users⟩

lemma none_within (w : Writes) : Within none w := ⟨nofun, Finset.empty_subset w.users⟩

lemma within_union_left (w w' : Writes) : Within w (w.union w') := by
  refine ⟨fun hw => ?_, Finset.subset_union_left⟩
  rw [union, hw, Bool.true_or]

lemma within_union_right (w w' : Writes) : Within w' (w.union w') := by
  refine ⟨fun hw => ?_, Finset.subset_union_right⟩
  rw [union, hw, Bool.or_true]

lemma union_within (h : Within w w'') (h' : Within w' w'') : Within (w.union w') w'' := by
  refine ⟨fun hw => ?_, Finset.union_subset h.users h'.users⟩
  rcases Bool.or_eq_true_iff.mp hw with hw | hw
  · exact h.security hw
  · exact h'.security hw

/-- Marks that go for the security models do not matter to what has written none. -/
lemma Within.of_security (h : Within w w') (hw : w.security = false) (hsame : w''.users = w'.users) :
    Within w w'' := by
  refine ⟨fun hsecurity => ?_, ?_⟩
  · rw [hw] at hsecurity
    exact absurd hsecurity Bool.false_ne_true
  · rw [hsame]
    exact h.users

/-- Marks that go for the users do not matter to what has written none. -/
lemma Within.of_users (h : Within w w') (hw : w.users = ∅) (hsame : w''.security = w'.security) :
    Within w w'' := by
  refine ⟨fun hsecurity => ?_, ?_⟩
  · rw [hsame]
    exact h.security hsecurity
  · rw [hw]
    exact Finset.empty_subset _

/-- The writes that concern a user are among them. -/
lemma Concern.within {uid : ℤ} (h : w.Concern uid) (hw : Within w w') : w'.Concern uid :=
  h.imp hw.security fun hu => hw.users hu

lemma concern_union {uid : ℤ} : (w.union w').Concern uid ↔ w.Concern uid ∨ w'.Concern uid := by
  simp only [Concern, union, Bool.or_eq_true, Finset.mem_union]
  tauto

end Writes

/-! ## What the collections say of a cursor -/

namespace WeakSet

lemma mem_discard {set : WeakSet κ} {cr cr' : κ} :
    cr' ∈ set.discard cr ↔ cr' ∈ set ∧ cr' ≠ cr := by
  simp [discard, List.mem_filter]

end WeakSet

namespace Taints

variable (taints : Taints κ)

/-- What the collections say of a cursor. -/
def marks (cr : κ) : Writes where
  security := cr ∈ taints.dirtyCrs
  users := (taints.dirtyUsers.get? cr).getD ∅

/-- What they say of it whatever becomes of the open transaction. -/
def kept (cr : κ) : Writes where
  security := cr ∈ taints.committedDirty
  users := (taints.committedDirtyUsers.get? cr).getD ∅

lemma isTainted_iff (cr : κ) (uid : ℤ) :
    taints.isTainted cr uid = true ↔ (taints.marks cr).Concern uid := by
  simp [isTainted, marks, Writes.Concern]

lemma marks_taintUsers (cr cr' : κ) (uids : List ℤ) : (taints.taintUsers cr uids).marks cr' =
    if cr = cr' then (taints.marks cr).union { security := false, users := uids.toFinset }
    else taints.marks cr' := by
  by_cases hcr : cr = cr'
  · subst hcr
    rw [if_pos rfl]
    refine Writes.ext (Bool.or_false _).symm ?_
    simp [taintUsers, marks, Dict.get?_insert, Writes.union]
  · rw [if_neg hcr]
    refine Writes.ext rfl ?_
    simp [taintUsers, marks, Dict.get?_insert, hcr]

/-- A write takes no mark away. -/
lemma marks_within_taintUsers (cr cr' : κ) (uids : List ℤ) :
    (taints.marks cr').Within ((taints.taintUsers cr uids).marks cr') := by
  rw [marks_taintUsers]
  split
  · next hcr =>
      subst hcr
      exact Writes.within_union_left _ _
  · exact Writes.Within.refl _

lemma marks_within_insert (cr cr' : κ) : (taints.marks cr').Within
    ({ taints with dirtyCrs := taints.dirtyCrs.insert cr }.marks cr') := by
  refine ⟨fun h => ?_, Finset.Subset.refl _⟩
  simp only [marks, decide_eq_true_eq] at h ⊢
  exact List.mem_insert_of_mem h

variable {invalidation : Option (List String)} {records : Records} {vals : Option (List String)}
  {creating : Bool}

lemma marks_within_taintRecord (cr cr' : κ) : (taints.marks cr').Within
    ((taints.taintRecord invalidation cr records vals creating).marks cr') := by
  unfold taintRecord
  split
  · exact Writes.Within.refl _
  · split
    · exact taints.marks_within_taintUsers cr cr' _
    · split
      · exact taints.marks_within_insert cr cr'
      · exact Writes.Within.refl _

/-- A write that is not passed over marks what it is. -/
lemma toRecords_within_taintRecord (cr : κ) (hids : records.ids.isEmpty = false)
    (hharmful : harmlessUserWrite invalidation records vals = false) :
    (Writes.toRecords records).Within
      ((taints.taintRecord invalidation cr records vals false).marks cr) := by
  have hpass : ((!false && records.ids.isEmpty) || harmlessUserWrite invalidation records vals) =
      false := by
    rw [hids, hharmful]
    rfl
  rw [taintRecord, hpass, if_neg Bool.false_ne_true, Writes.toRecords]
  by_cases hname : records.name = "res.users"
  · simp only [hname, decide_true, Bool.not_false, Bool.and_self, if_true]
    rw [marks_taintUsers, if_pos rfl]
    exact Writes.within_union_right _ _
  · simp only [hname, decide_false, Bool.false_and, Bool.false_eq_true, if_false]
    split
    · refine ⟨fun _ => ?_, Finset.empty_subset _⟩
      simp [marks]
    · next hmodel =>
        refine ⟨fun h => ?_, Finset.empty_subset _⟩
        exact absurd (of_decide_eq_true h) hmodel

/-- A write that touches what the kernel reads is not passed over. -/
lemma harmful_of_touches {keys : List String}
    (h : Writes.touches invalidation records keys = true) :
    harmlessUserWrite invalidation records (some keys) = false := by
  unfold Writes.touches at h
  unfold harmlessUserWrite
  simp only []
  split
  · rfl
  · split
    · rfl
    · next watched hwatched =>
        rw [hwatched] at h
        obtain ⟨key, hkey, hmem⟩ := List.any_eq_true.mp h
        rw [List.all_eq_false]
        exact ⟨key, hkey, by simpa using hmem⟩

/-- A write keeps nothing for good. -/
lemma kept_taintRecord (cr : κ) :
    (taints.taintRecord invalidation cr records vals creating).kept = taints.kept := by
  unfold taintRecord
  split
  · rfl
  · split
    · rfl
    · split <;> rfl

lemma kept_create (cr : κ) : (taints.create invalidation cr records).kept = taints.kept := by
  unfold create
  split
  · rfl
  · exact taints.kept_taintRecord cr

/-- A create takes no mark away. -/
lemma marks_within_create (cr cr' : κ) :
    (taints.marks cr').Within ((taints.create invalidation cr records).marks cr') := by
  unfold create
  split
  · exact Writes.Within.refl _
  · exact taints.marks_within_taintRecord cr cr'

/-- A create marks what it is, but for users. -/
lemma toRecords_within_create (cr : κ) (hname : records.name ≠ "res.users") :
    (Writes.toRecords records).Within ((taints.create invalidation cr records).marks cr) := by
  rw [create, Writes.toRecords, if_neg hname, if_neg hname]
  refine ⟨fun h => ?_, Finset.empty_subset _⟩
  simp [taintRecord, harmlessUserWrite, of_decide_eq_true h, marks]

/-- A commit keeps what is marked. -/
lemma kept_untaintCommitted (cr cr' : κ) : (taints.untaintCommitted cr).kept cr' =
    if cr = cr' then (taints.kept cr).union (taints.marks cr) else taints.kept cr' := by
  by_cases hcr : cr = cr'
  · subst hcr
    rw [if_pos rfl]
    refine Writes.ext ?_ ?_
    · by_cases hdirty : cr ∈ taints.dirtyCrs <;>
        simp [untaintCommitted, kept, marks, Writes.union, hdirty]
    · cases husers : taints.dirtyUsers.get? cr <;>
        simp [untaintCommitted, kept, marks, Writes.union, husers, Dict.get?_insert]
  · rw [if_neg hcr]
    refine Writes.ext ?_ ?_
    · by_cases hdirty : cr ∈ taints.dirtyCrs <;>
        simp [untaintCommitted, kept, hdirty, Ne.symm hcr]
    · cases husers : taints.dirtyUsers.get? cr <;>
        simp [untaintCommitted, kept, husers, Dict.get?_insert, hcr]

/-- A rollback goes back to what is kept. -/
lemma kept_within_untaint (cr : κ) {w : Writes} (hmarks : w.Within (taints.marks cr))
    (hkept : w.Within (taints.kept cr)) : w.Within ((taints.untaint cr).marks cr) := by
  refine ⟨fun h => ?_, ?_⟩
  · have hdirty := hmarks.security h
    have hcommitted := hkept.security h
    simp only [marks, kept, decide_eq_true_eq] at hdirty hcommitted
    simp [untaint, marks, hdirty, hcommitted]
  · refine hkept.users.trans ?_
    cases husers : taints.committedDirtyUsers.get? cr <;>
      simp [untaint, marks, kept, husers, Dict.get?_insert]

lemma marks_untaint_of_ne {cr cr' : κ} (hcr : cr ≠ cr') :
    (taints.untaint cr).marks cr' = taints.marks cr' := by
  refine Writes.ext ?_ ?_
  · by_cases hcommitted : cr ∈ taints.committedDirty <;>
      simp [untaint, marks, hcommitted, WeakSet.mem_discard, Ne.symm hcr]
  · cases husers : taints.committedDirtyUsers.get? cr <;>
      simp [untaint, marks, husers, Dict.get?_insert, Dict.get?_pop, hcr]

end Taints

namespace TaintState

variable {τ : Type} {shim : Shim κ} {s s' : TaintState κ τ}

/-! ## No mark is taken away that is needed -/

/-- **Every write that no finished call has signalled is marked**, and kept once its commit is noted; but
for what of the open transaction is not marked yet, or no longer is. -/
structure Marked (s : TaintState κ τ) : Prop where
  transaction : ∀ cr, (s.transaction cr).Within ((s.marks cr).union (s.unmarked cr))
  unsignalled : ∀ cr, ∀ c ∈ s.unsignalled cr,
    c.writes.Within (s.marks cr) ∧ (s.recording cr = false → c.writes.Within (s.kept cr))

/-- A call of `signal_changes` takes no mark away that stands for a write that no finished call has
signalled: what is kept of a cursor may go if no such write is committed, and what is marked if the open
transaction has not made one either. -/
def ClearsNoWrite (shim : Shim κ) (s : TaintState κ τ) : SignalPhase κ → Prop
  | .clearing dbName (cr :: _) =>
    shim.isOf cr dbName = true → ∀ c ∈ s.unsignalled cr, c.writes.security = false
  | .discarding _ cr _ =>
    (s.transaction cr).security = false ∧ ∀ c ∈ s.unsignalled cr, c.writes.security = false
  | .clearingUsers dbName (cr :: _) =>
    shim.isOf cr dbName = true → ∀ c ∈ s.unsignalled cr, c.writes.users = ∅
  | .popping _ cr _ =>
    (s.transaction cr).users = ∅ ∧ ∀ c ∈ s.unsignalled cr, c.writes.users = ∅
  | .clearing _ [] | .clearingUsers _ [] | .outside | .signalling .. => True

/-- **The step takes no mark away that is needed.**  Beside what `signal_changes` may take, a cursor
commits only what is marked, and when it begins to roll back, what it has committed is kept. -/
def KeepsMarks (shim : Shim κ) (s : TaintState κ τ) : TaintAction κ τ → Prop
  | .clear t => ClearsNoWrite shim s (s.phase t)
  | .commit cr => s.unmarked cr = .none
  | .rollback cr => s.recording cr = true → ∀ c ∈ s.unsignalled cr, c.writes.Within (s.kept cr)
  | .create .. | .created .. | .write .. | .unlink .. | .committed _ | .rolledBack _
  | .signalChanges .. | .signalled .. => True

instance (shim : Shim κ) (s : TaintState κ τ) : ∀ phase, Decidable (ClearsNoWrite shim s phase)
  | .clearing dbName (cr :: _) => inferInstanceAs (Decidable
      (shim.isOf cr dbName = true → ∀ c ∈ s.unsignalled cr, c.writes.security = false))
  | .discarding _ cr _ => inferInstanceAs (Decidable
      ((s.transaction cr).security = false ∧ ∀ c ∈ s.unsignalled cr, c.writes.security = false))
  | .clearingUsers dbName (cr :: _) => inferInstanceAs (Decidable
      (shim.isOf cr dbName = true → ∀ c ∈ s.unsignalled cr, c.writes.users = ∅))
  | .popping _ cr _ => inferInstanceAs (Decidable
      ((s.transaction cr).users = ∅ ∧ ∀ c ∈ s.unsignalled cr, c.writes.users = ∅))
  | .clearing _ [] | .clearingUsers _ [] | .outside | .signalling .. => isTrue trivial

instance (shim : Shim κ) (s : TaintState κ τ) : ∀ a, Decidable (KeepsMarks shim s a)
  | .clear t => inferInstanceAs (Decidable (ClearsNoWrite shim s (s.phase t)))
  | .commit cr => inferInstanceAs (Decidable (s.unmarked cr = .none))
  | .rollback cr => inferInstanceAs (Decidable
      (s.recording cr = true → ∀ c ∈ s.unsignalled cr, c.writes.Within (s.kept cr)))
  | .create .. | .created .. | .write .. | .unlink .. | .committed _ | .rolledBack _
  | .signalChanges .. | .signalled .. => isTrue trivial

/-- A function of the cursors that grows at one of them. -/
lemma within_update {f : κ → Writes} {cr : κ} {w : Writes} (h : (f cr).Within w) (x : κ) :
    (f x).Within (Function.update f cr w x) := by
  by_cases hcr : x = cr
  · subst hcr
    rw [Function.update_self]
    exact h
  · rw [Function.update_of_ne hcr]
    exact Writes.Within.refl _

/-- A transaction writes more, and what it writes is marked or counted as not marked. -/
lemma Marked.notes (h : Marked s) {cr : κ} {writes : Writes} {taints : Taints κ}
    {unmarked : κ → Writes} (hgrow : ∀ x, (s.marks x).Within (taints.marks x))
    (hkept : taints.kept = s.kept) (hmore : ∀ x, (s.unmarked x).Within (unmarked x))
    (hwrites : writes.Within ((taints.marks cr).union (unmarked cr))) :
    Marked { s.notes cr writes with toTaints := taints, unmarked := unmarked } := by
  have hold : ∀ x, (s.transaction x).Within ((taints.marks x).union (unmarked x)) := fun x =>
    (h.transaction x).trans (Writes.union_within
      ((hgrow x).trans (Writes.within_union_left _ _))
      ((hmore x).trans (Writes.within_union_right _ _)))
  refine ⟨fun x => ?_, fun x c hc => ?_⟩
  · show (Function.update s.transaction cr _ x).Within ((taints.marks x).union (unmarked x))
    by_cases hcr : x = cr
    · subst hcr
      rw [Function.update_self]
      exact Writes.union_within (hold x) hwrites
    · rw [Function.update_of_ne hcr]
      exact hold x
  · obtain ⟨hmarks, hnoted⟩ := h.unsignalled x c hc
    refine ⟨hmarks.trans (hgrow x), fun hx => ?_⟩
    show c.writes.Within (taints.kept x)
    rw [hkept]
    exact hnoted hx

/-- Users that are marked need not count as not marked any longer. -/
lemma Marked.created (h : Marked s) (cr : κ) (ids : List ℤ) :
    Marked { s with
      toTaints := s.toTaints.taintUsers cr ids
      unmarked := Function.update s.unmarked cr
        { s.unmarked cr with users := (s.unmarked cr).users \ ids.toFinset } } := by
  refine ⟨fun x => ?_, fun x c hc => ?_⟩
  · show (s.transaction x).Within (((s.toTaints.taintUsers cr ids).marks x).union
      (Function.update s.unmarked cr _ x))
    by_cases hcr : x = cr
    · subst hcr
      rw [Function.update_self, Taints.marks_taintUsers, if_pos rfl]
      refine (h.transaction x).trans ⟨fun hsecurity => ?_, fun uid huid => ?_⟩
      · simpa [Writes.union] using hsecurity
      · simp only [Writes.union, Finset.mem_union, Finset.mem_sdiff, List.mem_toFinset] at huid ⊢
        tauto
    · rw [Function.update_of_ne hcr, Taints.marks_taintUsers, if_neg (Ne.symm hcr)]
      exact h.transaction x
  · obtain ⟨hmarks, hnoted⟩ := h.unsignalled x c hc
    exact ⟨hmarks.trans (s.toTaints.marks_within_taintUsers cr x ids), hnoted⟩

/-- What is committed was marked, and waits to be noted. -/
lemma Marked.commit (h : Marked s) {cr : κ} (hall : s.unmarked cr = .none) (number : ℕ) :
    Marked { s with
      recording := Function.update s.recording cr true
      transaction := Function.update s.transaction cr .none
      unmarked := Function.update s.unmarked cr .none
      unsignalled := Function.update s.unsignalled cr
        ({ number := number, writes := s.transaction cr } :: s.unsignalled cr)
      commits := s.commits + 1 } := by
  refine ⟨fun x => ?_, fun x => ?_⟩
  · show (Function.update s.transaction cr .none x).Within
      ((s.marks x).union (Function.update s.unmarked cr .none x))
    by_cases hcr : x = cr
    · subst hcr
      rw [Function.update_self]
      exact Writes.none_within _
    · rw [Function.update_of_ne hcr, Function.update_of_ne hcr]
      exact h.transaction x
  · show ∀ c ∈ Function.update s.unsignalled cr _ x, c.writes.Within (s.marks x) ∧
      (Function.update s.recording cr true x = false → c.writes.Within (s.kept x))
    by_cases hcr : x = cr
    · subst hcr
      rw [Function.update_self, Function.update_self, List.forall_mem_cons]
      refine ⟨⟨?_, nofun⟩, fun c hc => ⟨(h.unsignalled x c hc).1, nofun⟩⟩
      have hopen := h.transaction x
      rw [hall] at hopen
      exact hopen.trans (Writes.union_within (Writes.Within.refl _) (Writes.none_within _))
    · rw [Function.update_of_ne hcr, Function.update_of_ne hcr]
      exact h.unsignalled x

/-- What is noted was marked. -/
lemma Marked.committed (h : Marked s) (cr : κ) :
    Marked { s with
      toTaints := s.toTaints.untaintCommitted cr
      recording := Function.update s.recording cr false } := by
  refine ⟨h.transaction, fun x c hc => ⟨(h.unsignalled x c hc).1, ?_⟩⟩
  obtain ⟨hmarks, hnoted⟩ := h.unsignalled x c hc
  show Function.update s.recording cr false x = false →
    c.writes.Within ((s.toTaints.untaintCommitted cr).kept x)
  rw [Taints.kept_untaintCommitted]
  by_cases hcr : x = cr
  · subst hcr
    rw [if_pos rfl]
    exact fun _ => hmarks.trans (Writes.within_union_right _ _)
  · rw [if_neg (Ne.symm hcr), Function.update_of_ne hcr]
    exact hnoted

/-- A rollback begins, where what is committed is kept. -/
lemma Marked.rollback (h : Marked s) {cr : κ}
    (hall : s.recording cr = true → ∀ c ∈ s.unsignalled cr, c.writes.Within (s.kept cr)) :
    Marked { s with
      toTaints := s.toTaints.untaint cr
      unmarked := Function.update s.unmarked cr (s.transaction cr) } := by
  refine ⟨fun x => ?_, fun x c hc => ?_⟩
  · show (s.transaction x).Within (((s.toTaints.untaint cr).marks x).union
      (Function.update s.unmarked cr (s.transaction cr) x))
    by_cases hcr : x = cr
    · subst hcr
      rw [Function.update_self]
      exact Writes.within_union_right _ _
    · rw [Function.update_of_ne hcr, Taints.marks_untaint_of_ne _ (Ne.symm hcr)]
      exact h.transaction x
  · obtain ⟨hmarks, hnoted⟩ := h.unsignalled x c hc
    refine ⟨?_, hnoted⟩
    show c.writes.Within ((s.toTaints.untaint cr).marks x)
    by_cases hcr : x = cr
    · subst hcr
      refine Taints.kept_within_untaint _ x hmarks ?_
      cases hrecording : s.recording x with
      | true => exact hall hrecording c hc
      | false => exact hnoted hrecording
    · rw [Taints.marks_untaint_of_ne _ (Ne.symm hcr)]
      exact hmarks

/-- A transaction that is gone needs no marks. -/
lemma Marked.rolledBack (h : Marked s) (cr : κ) :
    Marked { s with
      transaction := Function.update s.transaction cr .none
      unmarked := Function.update s.unmarked cr .none } := by
  refine ⟨fun x => ?_, h.unsignalled⟩
  show (Function.update s.transaction cr .none x).Within
    ((s.marks x).union (Function.update s.unmarked cr .none x))
  by_cases hcr : x = cr
  · subst hcr
    rw [Function.update_self]
    exact Writes.none_within _
  · rw [Function.update_of_ne hcr, Function.update_of_ne hcr]
    exact h.transaction x

/-- Fewer commits are unsignalled. -/
lemma Marked.signalledBy (h : Marked s) (dbName : String) (started : ℕ) :
    Marked (s.signalledBy shim dbName started) := by
  refine ⟨h.transaction, fun x c hc => h.unsignalled x c ?_⟩
  simp only [TaintState.signalledBy] at hc
  split at hc
  · exact List.mem_of_mem_filter hc
  · exact hc

/-- Nothing becomes of the marks of the other cursors. -/
lemma mem_discard_of_ne {set : WeakSet κ} {cr x : κ} (hx : x ≠ cr) :
    decide (x ∈ set.discard cr) = decide (x ∈ set) := by
  simp [WeakSet.mem_discard, hx]

lemma Marked.discardCommitted (h : Marked s) {cr : κ}
    (hnone : ∀ c ∈ s.unsignalled cr, c.writes.security = false) :
    Marked { s with committedDirty := s.committedDirty.discard cr } := by
  refine ⟨h.transaction, fun x c hc => ?_⟩
  obtain ⟨hmarks, hnoted⟩ := h.unsignalled x c hc
  refine ⟨hmarks, fun hrecording => ?_⟩
  have hkept := hnoted hrecording
  by_cases hx : x = cr
  · subst hx
    exact hkept.of_security (hnone c hc) rfl
  · exact ⟨fun hw => (mem_discard_of_ne hx).trans (hkept.security hw), hkept.users⟩

lemma Marked.discardDirty (h : Marked s) {cr : κ} (hopen : (s.transaction cr).security = false)
    (hnone : ∀ c ∈ s.unsignalled cr, c.writes.security = false) :
    Marked { s with dirtyCrs := s.dirtyCrs.discard cr } := by
  have hothers : ∀ x, x ≠ cr →
      ({ s.toTaints with dirtyCrs := s.dirtyCrs.discard cr }.marks x) = s.marks x := fun x hx =>
    Writes.ext (mem_discard_of_ne hx) rfl
  refine ⟨fun x => ?_, fun x c hc => ?_⟩
  · by_cases hx : x = cr
    · subst hx
      exact (h.transaction x).of_security hopen rfl
    · show (s.transaction x).Within (({ s.toTaints with dirtyCrs := _ }.marks x).union _)
      rw [hothers x hx]
      exact h.transaction x
  · obtain ⟨hmarks, hnoted⟩ := h.unsignalled x c hc
    refine ⟨?_, hnoted⟩
    by_cases hx : x = cr
    · subst hx
      exact hmarks.of_security (hnone c hc) rfl
    · show c.writes.Within ({ s.toTaints with dirtyCrs := _ }.marks x)
      rw [hothers x hx]
      exact hmarks

lemma Marked.popCommitted (h : Marked s) {cr : κ}
    (hnone : ∀ c ∈ s.unsignalled cr, c.writes.users = ∅) :
    Marked { s with committedDirtyUsers := s.committedDirtyUsers.pop cr } := by
  refine ⟨h.transaction, fun x c hc => ?_⟩
  obtain ⟨hmarks, hnoted⟩ := h.unsignalled x c hc
  refine ⟨hmarks, fun hrecording => ?_⟩
  have hkept := hnoted hrecording
  by_cases hx : x = cr
  · subst hx
    exact hkept.of_users (hnone c hc) rfl
  · refine ⟨hkept.security, hkept.users.trans ?_⟩
    simp [Taints.kept, Dict.get?_pop, Ne.symm hx]

lemma Marked.popDirty (h : Marked s) {cr : κ} (hopen : (s.transaction cr).users = ∅)
    (hnone : ∀ c ∈ s.unsignalled cr, c.writes.users = ∅) :
    Marked { s with dirtyUsers := s.dirtyUsers.pop cr } := by
  have hothers : ∀ x, x ≠ cr →
      ({ s.toTaints with dirtyUsers := s.dirtyUsers.pop cr }.marks x) = s.marks x := by
    intro x hx
    refine Writes.ext rfl ?_
    simp [Taints.marks, Dict.get?_pop, Ne.symm hx]
  refine ⟨fun x => ?_, fun x c hc => ?_⟩
  · by_cases hx : x = cr
    · subst hx
      exact (h.transaction x).of_users hopen rfl
    · show (s.transaction x).Within (({ s.toTaints with dirtyUsers := _ }.marks x).union _)
      rw [hothers x hx]
      exact h.transaction x
  · obtain ⟨hmarks, hnoted⟩ := h.unsignalled x c hc
    refine ⟨?_, hnoted⟩
    by_cases hx : x = cr
    · subst hx
      exact hmarks.of_users (hnone c hc) rfl
    · show c.writes.Within ({ s.toTaints with dirtyUsers := _ }.marks x)
      rw [hothers x hx]
      exact hmarks

variable [DecidableEq τ]

/-- A thread goes on, and nothing else changes. -/
lemma Marked.goes (h : Marked s) (t : τ) (phase : SignalPhase κ) : Marked (s.goes t phase) :=
  ⟨h.transaction, h.unsignalled⟩

lemma Marked.clear (h : Marked s) {t : τ} (hok : KeepsMarks shim s (.clear t))
    (hstep : s.step shim (.clear t) = some s') : Marked s' := by
  simp only [KeepsMarks] at hok
  simp only [step] at hstep
  revert hok hstep
  cases s.phase t with
  | outside => exact fun _ hstep => absurd hstep (by simp [TaintState.clear])
  | signalling dbName started => exact fun _ hstep => absurd hstep (by simp [TaintState.clear])
  | clearing dbName todo =>
      intro hok hstep
      cases todo with
      | nil =>
          obtain rfl := Option.some.inj hstep
          exact h.goes t _
      | cons cr todo =>
          simp only [TaintState.clear] at hstep
          split at hstep
          · next hof =>
              obtain rfl := Option.some.inj hstep
              exact (h.discardCommitted (hok hof)).goes t _
          · obtain rfl := Option.some.inj hstep
            exact h.goes t _
  | discarding dbName cr todo =>
      intro hok hstep
      obtain rfl := Option.some.inj hstep
      exact (h.discardDirty hok.1 hok.2).goes t _
  | clearingUsers dbName todo =>
      intro hok hstep
      cases todo with
      | nil =>
          obtain rfl := Option.some.inj hstep
          exact h.goes t _
      | cons cr todo =>
          simp only [TaintState.clear] at hstep
          split at hstep
          · next hof =>
              obtain rfl := Option.some.inj hstep
              exact (h.popCommitted (hok hof)).goes t _
          · obtain rfl := Option.some.inj hstep
            exact h.goes t _
  | popping dbName cr todo =>
      intro hok hstep
      obtain rfl := Option.some.inj hstep
      exact (h.popDirty hok.1 hok.2).goes t _

lemma Marked.step {a : TaintAction κ τ} (h : Marked s) (hok : KeepsMarks shim s a)
    (hstep : s.step shim a = some s') : Marked s' := by
  cases a with
  | create cr created =>
      obtain rfl := Option.some.inj hstep
      refine h.notes (fun x => s.toTaints.marks_within_create cr x) (s.toTaints.kept_create cr)
        (within_update (Writes.within_union_left _ _)) ?_
      rw [Function.update_self]
      by_cases hname : created.name = "res.users"
      · rw [if_pos hname]
        exact (Writes.within_union_right _ _).trans (Writes.within_union_right _ _)
      · exact (s.toTaints.toRecords_within_create cr hname).trans (Writes.within_union_left _ _)
  | created cr ids =>
      obtain rfl := Option.some.inj hstep
      exact h.created cr ids
  | write cr records vals =>
      obtain rfl := Option.some.inj hstep
      refine h.notes (fun x => s.toTaints.marks_within_taintRecord cr x)
        (s.toTaints.kept_taintRecord cr) (fun x => Writes.Within.refl (s.unmarked x)) ?_
      refine Writes.Within.trans ?_ (Writes.within_union_left _ _)
      split
      · exact Writes.none_within _
      · next hpass =>
          simp only [Bool.or_eq_true, not_or, Bool.not_eq_true, Bool.not_eq_false'] at hpass
          exact s.toTaints.toRecords_within_taintRecord cr hpass.1 (Taints.harmful_of_touches hpass.2)
  | unlink cr records =>
      obtain rfl := Option.some.inj hstep
      refine h.notes (fun x => s.toTaints.marks_within_taintRecord cr x)
        (s.toTaints.kept_taintRecord cr) (fun x => Writes.Within.refl (s.unmarked x)) ?_
      refine Writes.Within.trans ?_ (Writes.within_union_left _ _)
      split
      · exact Writes.none_within _
      · next hids =>
          exact s.toTaints.toRecords_within_taintRecord cr (by simpa using hids) rfl
  | commit cr =>
      obtain rfl := Option.some.inj hstep
      exact h.commit hok _
  | committed cr =>
      simp only [TaintState.step] at hstep
      split at hstep
      · obtain rfl := Option.some.inj hstep
        exact h.committed cr
      · exact absurd hstep (by simp)
  | rollback cr =>
      obtain rfl := Option.some.inj hstep
      exact h.rollback hok
  | rolledBack cr =>
      obtain rfl := Option.some.inj hstep
      exact h.rolledBack cr
  | signalChanges t dbName =>
      simp only [TaintState.step] at hstep
      split at hstep
      · obtain rfl := Option.some.inj hstep
        exact h.goes t _
      · exact absurd hstep (by simp)
  | signalled t ready =>
      simp only [TaintState.step] at hstep
      split at hstep
      · next dbName started _ =>
          obtain rfl := Option.some.inj hstep
          exact (h.signalledBy dbName started).goes t _
      · exact absurd hstep (by simp)
  | clear t => exact h.clear hok hstep

/-- A thread that clears marks leaves what is not marked as it is. -/
lemma unmarked_clear {t : τ} {phase : SignalPhase κ} (hstep : s.clear shim t phase = some s') :
    s'.unmarked = s.unmarked := by
  revert hstep
  cases phase with
  | outside => exact fun hstep => absurd hstep (by simp [TaintState.clear])
  | signalling dbName started => exact fun hstep => absurd hstep (by simp [TaintState.clear])
  | clearing dbName todo =>
      cases todo <;> simp only [TaintState.clear] <;> (try split) <;> rintro ⟨⟩ <;> rfl
  | discarding dbName cr todo => rintro ⟨⟩; rfl
  | clearingUsers dbName todo =>
      cases todo <;> simp only [TaintState.clear] <;> (try split) <;> rintro ⟨⟩ <;> rfl
  | popping dbName cr todo => rintro ⟨⟩; rfl

/-- Only a rollback of the cursor, and a create of users, leave writes of it without a mark. -/
lemma unmarked_within {a : TaintAction κ τ} {cr : κ} (hstep : s.step shim a = some s')
    (hrollback : a ≠ .rollback cr)
    (hcreate : ∀ created, a = .create cr created → created.name ≠ "res.users") :
    (s'.unmarked cr).Within (s.unmarked cr) := by
  have hupdate : ∀ {x : κ} {w : Writes}, (cr = x → w.Within (s.unmarked cr)) →
      (Function.update s.unmarked x w cr).Within (s.unmarked cr) := by
    intro x w hw
    by_cases hx : cr = x
    · subst hx
      rw [Function.update_self]
      exact hw rfl
    · rw [Function.update_of_ne hx]
      exact Writes.Within.refl _
  cases a with
  | create x created =>
      obtain rfl := Option.some.inj hstep
      refine hupdate ?_
      rintro rfl
      rw [if_neg (hcreate created rfl)]
      exact Writes.union_within (Writes.Within.refl _) (Writes.none_within _)
  | created x ids =>
      obtain rfl := Option.some.inj hstep
      refine hupdate ?_
      rintro rfl
      exact ⟨id, Finset.sdiff_subset⟩
  | write x records vals =>
      obtain rfl := Option.some.inj hstep
      exact Writes.Within.refl _
  | unlink x records =>
      obtain rfl := Option.some.inj hstep
      exact Writes.Within.refl _
  | commit x =>
      obtain rfl := Option.some.inj hstep
      exact hupdate fun _ => Writes.none_within _
  | committed x =>
      simp only [TaintState.step] at hstep
      split at hstep
      · obtain rfl := Option.some.inj hstep
        exact Writes.Within.refl _
      · exact absurd hstep (by simp)
  | rollback x =>
      obtain rfl := Option.some.inj hstep
      refine hupdate ?_
      rintro rfl
      exact absurd rfl hrollback
  | rolledBack x =>
      obtain rfl := Option.some.inj hstep
      exact hupdate fun _ => Writes.none_within _
  | signalChanges t dbName =>
      simp only [TaintState.step] at hstep
      split at hstep
      · obtain rfl := Option.some.inj hstep
        exact Writes.Within.refl _
      · exact absurd hstep (by simp)
  | signalled t ready =>
      simp only [TaintState.step] at hstep
      split at hstep
      · obtain rfl := Option.some.inj hstep
        exact Writes.Within.refl _
      · exact absurd hstep (by simp)
  | clear t =>
      rw [unmarked_clear hstep]
      exact Writes.Within.refl _

omit [DecidableEq τ] in
lemma Marked.initial : Marked (initial : TaintState κ τ) :=
  ⟨fun _ => Writes.none_within _, fun _ _ hc => absurd hc (List.not_mem_nil)⟩

end TaintState

open TaintState

variable {τ : Type} [DecidableEq τ]

/-- **A cursor with unsignalled writes is not routed**, as long as no mark is taken away that is needed,
but for what of its open transaction is not marked yet, or no longer is. -/
theorem tainted_while_unsignalled {shim : Shim κ} {actions : List (TaintAction κ τ)}
    {s : TaintState κ τ}
    (h : RunsWhile (TaintState.step shim) (KeepsMarks shim) TaintState.initial actions s) :
    (∀ cr uid, (s.transaction cr).Concern uid → ¬ (s.unmarked cr).Concern uid →
      s.isTainted cr uid = true) ∧
      (∀ cr uid, (∃ c ∈ s.unsignalled cr, c.writes.Concern uid) → s.isTainted cr uid = true) ∧
      -- a rollback leaves the other cursors as they are, and what is committed tainted
      ∀ cr s', s.step shim (.rollback cr) = some s' →
        (∀ x uid, x ≠ cr → s'.isTainted x uid = s.isTainted x uid) ∧
        (KeepsMarks shim s (.rollback cr) →
          ∀ uid, (∃ c ∈ s.unsignalled cr, c.writes.Concern uid) → s'.isTainted cr uid = true) := by
  have hmarked : Marked s :=
    h.keeps (fun _ _ _ hs hok hstep => Marked.step hs hok hstep) Marked.initial
  refine ⟨?_, ?_, ?_⟩
  · intro cr uid hopen hmarks
    rw [Taints.isTainted_iff]
    exact (Writes.concern_union.mp (hopen.within (hmarked.transaction cr))).resolve_right hmarks
  · rintro cr uid ⟨c, hc, hconcern⟩
    rw [Taints.isTainted_iff]
    exact hconcern.within (hmarked.unsignalled cr c hc).1
  · intro cr s' hstep
    refine ⟨?_, ?_⟩
    · intro x uid hx
      obtain rfl := Option.some.inj hstep
      rw [Bool.eq_iff_iff, Taints.isTainted_iff, Taints.isTainted_iff,
        Taints.marks_untaint_of_ne _ (Ne.symm hx)]
    · rintro hok uid ⟨c, hc, hconcern⟩
      have hstill : c ∈ s'.unsignalled cr := by
        obtain rfl := Option.some.inj hstep
        exact hc
      rw [Taints.isTainted_iff]
      exact hconcern.within ((hmarked.step hok hstep).unsignalled cr c hstill).1

namespace Signalling

/-- Two cursors, of the database of the registry. -/
def shim : Shim Bool where
  invalidation := some ["group_ids"]
  dbName _ := some "db"

def accessRow : Records where
  name := "ir.access"
  ids := [1]

def users : Records where
  name := "res.users"
  ids := [7]

/-- A user is created and an access row written and committed, the groups of the user are written and
rolled back, and another thread signals what is committed, while the other cursor writes. -/
def signalled : List (TaintAction Bool Unit) :=
  [.create true users, .created true [7], .write true accessRow ["domain"], .commit true,
    .committed true, .write true users ["group_ids"], .rollback true, .rolledBack true,
    .signalChanges () "db", .write false accessRow ["domain"], .signalled () true, .clear (),
    .clear (), .clear (), .clear (), .clear ()]

/-- The row is written once more before the other thread signals. -/
def writtenAgain : List (TaintAction Bool Unit) :=
  [.write true accessRow ["domain"], .commit true, .committed true,
    .write true accessRow ["domain"], .signalChanges () "db", .signalled () true, .clear (),
    .clear ()]

/-- A rollback has begun. -/
def rollingBack : List (TaintAction Bool Unit) :=
  [.write true accessRow ["domain"], .rollback true]

/-- A create of a user has not returned. -/
def creating : List (TaintAction Bool Unit) := [.create true users]

/-- What is committed and not noted is rolled back. -/
def notNoted : List (TaintAction Bool Unit) :=
  [.write true accessRow ["domain"], .commit true, .rollback true]

theorem cleared_while_unsignalled :
    (∃ s, run (TaintState.step shim) TaintState.initial writtenAgain = some s ∧
      (s.transaction true).Concern 2 ∧ s.isTainted true 2 = false) ∧
      (∃ s, run (TaintState.step shim) TaintState.initial rollingBack = some s ∧
        (s.transaction true).Concern 2 ∧ s.isTainted true 2 = false) ∧
      (∃ s, run (TaintState.step shim) TaintState.initial creating = some s ∧
        (s.transaction true).Concern 7 ∧ s.isTainted true 7 = false) ∧
      ∃ s, run (TaintState.step shim) TaintState.initial notNoted = some s ∧
        (∃ c ∈ s.unsignalled true, c.writes.Concern 2) ∧ s.isTainted true 2 = false := by
  refine ⟨⟨_, rfl, Or.inl rfl, rfl⟩, ⟨_, rfl, Or.inl rfl, rfl⟩, ⟨_, rfl, Or.inr ?_, rfl⟩,
    ⟨_, rfl, ⟨_, List.mem_cons_self, Or.inl rfl⟩, rfl⟩⟩
  decide

theorem tainted_while_unsignalled_signalled :
    ∃ s, RunsWhile (TaintState.step shim) (KeepsMarks shim) TaintState.initial signalled s ∧
      s.isTainted true 7 = false ∧ s.isTainted false 7 = true ∧
      (∀ cr uid, (s.transaction cr).Concern uid → ¬ (s.unmarked cr).Concern uid →
        s.isTainted cr uid = true) ∧
        (∀ cr uid, (∃ c ∈ s.unsignalled cr, c.writes.Concern uid) → s.isTainted cr uid = true) ∧
        ∀ cr s', s.step shim (.rollback cr) = some s' →
          (∀ x uid, x ≠ cr → s'.isTainted x uid = s.isTainted x uid) ∧
          (KeepsMarks shim s (.rollback cr) →
            ∀ uid, (∃ c ∈ s.unsignalled cr, c.writes.Concern uid) → s'.isTainted cr uid = true) := by
  have h : RunsWhile (TaintState.step shim) (KeepsMarks shim) TaintState.initial signalled _ :=
    runsWhile_of_run (by decide) rfl
  exact ⟨_, h, rfl, rfl, tainted_while_unsignalled h⟩

end Signalling

end OdooKernel
