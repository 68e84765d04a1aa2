import Mathlib.Data.List.Basic

/-!
# Pieces of a list, one after the other

* `Scattered` — some lists stand in a list, one after the other, with anything around them.
* `Blurs` — a list with some of its elements replaced by any lists; the others keep their order.
* `Scattered.blurs` — pieces of elements that are kept stand in what the list is replaced by.

Together they say when a search for several pieces finds in a text what it would find in the text as
it is written elsewhere, with some of its characters escaped.
-/

namespace OdooKernel

variable {α : Type}

/-- The pieces stand in the list, one after the other and apart. -/
def Scattered : List (List α) → List α → Prop
  | [], _ => True
  | piece :: pieces, xs => ∃ before after, xs = before ++ piece ++ after ∧ Scattered pieces after

lemma Scattered.append_left {pieces : List (List α)} {xs : List α} (before : List α)
    (h : Scattered pieces xs) : Scattered pieces (before ++ xs) := by
  cases pieces with
  | nil => trivial
  | cons piece pieces =>
      obtain ⟨start, after, rfl, hrest⟩ := h
      exact ⟨before ++ start, after, by simp, hrest⟩

lemma Scattered.append_right {pieces : List (List α)} (after : List α) :
    ∀ {xs : List α}, Scattered pieces xs → Scattered pieces (xs ++ after) := by
  induction pieces with
  | nil => exact fun _ => trivial
  | cons piece pieces ih =>
      rintro xs ⟨before, rest, rfl, hrest⟩
      exact ⟨before, rest ++ after, by simp, ih hrest⟩

/-- Fewer pieces. -/
lemma Scattered.sublist {pieces pieces' : List (List α)} (h : pieces.Sublist pieces') :
    ∀ {xs : List α}, Scattered pieces' xs → Scattered pieces xs := by
  induction h with
  | slnil => exact fun h => h
  | cons piece _ ih =>
      rintro xs ⟨before, after, rfl, hrest⟩
      exact (ih hrest).append_left (before ++ piece)
  | cons_cons piece _ ih =>
      rintro xs ⟨before, after, rfl, hrest⟩
      exact ⟨before, after, rfl, ih hrest⟩

/-! ## Replacing elements -/

variable {keeps : α → Prop}

/-- The elements that are not kept are replaced by any list, or left as they are. -/
inductive Blurs (keeps : α → Prop) : List α → List α → Prop where
  | nil : Blurs keeps [] []
  | keep {xs ys : List α} (x : α) : Blurs keeps xs ys → Blurs keeps (x :: xs) (x :: ys)
  | drop {xs ys : List α} {x : α} (hx : ¬ keeps x) (new : List α) :
      Blurs keeps xs ys → Blurs keeps (x :: xs) (new ++ ys)

@[refl] lemma Blurs.refl (xs : List α) : Blurs keeps xs xs := by
  induction xs with
  | nil => exact .nil
  | cons x xs ih => exact .keep x ih

lemma Blurs.append {xs xs' ys ys' : List α} (h : Blurs keeps xs ys) (h' : Blurs keeps xs' ys') :
    Blurs keeps (xs ++ xs') (ys ++ ys') := by
  induction h with
  | nil => exact h'
  | keep x _ ih => exact .keep x ih
  | drop hx new _ ih =>
      rw [List.append_assoc]
      exact .drop hx new ih

/-- Two functions that differ in elements that are not kept. -/
lemma Blurs.flatMap {β : Type} {f g : β → List α} (h : ∀ b, Blurs keeps (f b) (g b)) (bs : List β) :
    Blurs keeps (bs.flatMap f) (bs.flatMap g) := by
  induction bs with
  | nil => exact .nil
  | cons b bs ih => simpa using (h b).append ih

/-- The parts of a list are replaced one after the other. -/
lemma Blurs.split {xs xs' ys : List α} (h : Blurs keeps (xs ++ xs') ys) :
    ∃ zs zs', ys = zs ++ zs' ∧ Blurs keeps xs zs ∧ Blurs keeps xs' zs' := by
  induction xs generalizing ys with
  | nil => exact ⟨[], ys, rfl, .nil, h⟩
  | cons x xs ih =>
      cases h with
      | keep _ h =>
          obtain ⟨zs, zs', rfl, hzs, hzs'⟩ := ih h
          exact ⟨x :: zs, zs', rfl, .keep x hzs, hzs'⟩
      | drop hx new h =>
          obtain ⟨zs, zs', rfl, hzs, hzs'⟩ := ih h
          exact ⟨new ++ zs, zs', by simp, .drop hx new hzs, hzs'⟩

/-- A list that is kept is not replaced. -/
lemma Blurs.eq_of_keeps {xs ys : List α} (h : Blurs keeps xs ys) (hxs : ∀ x ∈ xs, keeps x) :
    ys = xs := by
  induction h with
  | nil => rfl
  | keep x _ ih => rw [ih fun y hy => hxs y (List.mem_cons_of_mem x hy)]
  | drop hx _ _ _ => exact absurd (hxs _ List.mem_cons_self) hx

/-- **Pieces that are kept stand in what the list is replaced by.** -/
lemma Scattered.blurs {pieces : List (List α)} (hpieces : ∀ piece ∈ pieces, ∀ x ∈ piece, keeps x) :
    ∀ {xs ys : List α}, Scattered pieces xs → Blurs keeps xs ys → Scattered pieces ys := by
  induction pieces with
  | nil => exact fun _ _ => trivial
  | cons piece pieces ih =>
      rintro xs ys ⟨before, after, rfl, hrest⟩ h
      rw [List.forall_mem_cons] at hpieces
      obtain ⟨start, rest, rfl, hstart, hafter⟩ := h.split
      obtain ⟨before', piece', rfl, -, hpiece⟩ := hstart.split
      rw [hpiece.eq_of_keeps hpieces.1]
      exact ⟨before', rest, rfl, ih hpieces.2 hrest hafter⟩

end OdooKernel
