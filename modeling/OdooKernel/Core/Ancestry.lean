import Mathlib.Data.List.Infix
import Mathlib.Logic.Relation
import Mathlib.Tactic.Common

/-!
# Stored lineages

A tree can be stored with each of its nodes: the nodes from a root down to it.  What lies below a node
is then what has the node's lineage at the front of its own.

* `Lineage` — the nodes from a root down to a node, along a relation between parents and children.
* `Lineage.mem_iff`, `Lineage.prefix_iff` — ancestors are members, descendants have longer lineages.
* `terminated` — a list of words as a text, each word followed by a separator.
* `terminated_prefix_iff`, `map_prefix_map_iff` — a text is the front of another where its words are.
-/

namespace OdooKernel

section Lineage

variable {ι : Type} {R : ι → ι → Prop}

/-- The nodes from a root down to a node. -/
inductive Lineage (R : ι → ι → Prop) : ι → List ι → Prop
  | root {i : ι} : (∀ p, ¬ R p i) → Lineage R i [i]
  | child {p i : ι} {chain : List ι} : R p i → Lineage R p chain → Lineage R i (chain ++ [i])

namespace Lineage

variable {i r : ι} {chain chain' : List ι}

lemma getLast? (h : Lineage R i chain) : chain.getLast? = some i := by
  cases h with
  | root _ => rfl
  | child _ _ => exact List.getLast?_concat

/-- A node has one lineage, where it has one parent at most. -/
lemma unique (hone : ∀ p p' i, R p i → R p' i → p = p') (h : Lineage R i chain) :
    ∀ {chain' : List ι}, Lineage R i chain' → chain = chain' := by
  induction h with
  | root hroot =>
      intro chain' h'
      cases h' with
      | root _ => rfl
      | child hp _ => exact absurd hp (hroot _)
  | @child p i chain hp _ ih =>
      intro chain' h'
      cases h' with
      | root hroot => exact absurd hp (hroot _)
      | @child p' _ _ hp' h' =>
          obtain rfl := hone p p' i hp hp'
          rw [ih h']

/-- **The members of a lineage are the ancestors.** -/
lemma mem_iff (hone : ∀ p p' i, R p i → R p' i → p = p') (h : Lineage R i chain) :
    r ∈ chain ↔ Relation.ReflTransGen R r i := by
  constructor
  · intro hr
    induction h with
    | root _ =>
        rw [List.mem_singleton.mp hr]
    | child hp _ ih =>
        rcases List.mem_append.mp hr with hr | hr
        · exact (ih hr).tail hp
        · rw [List.mem_singleton.mp hr]
  · intro hr
    induction hr generalizing chain with
    | refl => exact List.mem_of_getLast? h.getLast?
    | tail _ hp ih =>
        cases h with
        | root hroot => exact absurd hp (hroot _)
        | child hp' h' =>
            obtain rfl := hone _ _ _ hp hp'
            exact List.mem_append_left _ (ih h')

/-- **The descendants of a node have its lineage in front of their own.** -/
lemma prefix_iff (hone : ∀ p p' i, R p i → R p' i → p = p') (hr : Lineage R r chain)
    (hi : Lineage R i chain') : chain <+: chain' ↔ Relation.ReflTransGen R r i := by
  constructor
  · intro hfront
    have hmem : r ∈ chain' := hfront.subset (List.mem_of_getLast? hr.getLast?)
    exact (hi.mem_iff hone).mp hmem
  · intro hreach
    induction hreach generalizing chain' with
    | refl => rw [hr.unique hone hi]
    | tail _ hp ih =>
        cases hi with
        | root hroot => exact absurd hp (hroot _)
        | child hp' h' =>
            obtain rfl := hone _ _ _ hp hp'
            exact (ih h').trans (List.prefix_append _ _)

end Lineage

end Lineage

/-! ## Words in a row -/

section Terminated

variable {α : Type} {sep : α} {words words' : List (List α)}

/-- The words one after the other, each with the separator behind it. -/
def terminated (sep : α) (words : List (List α)) : List α := words.flatMap (· ++ [sep])

lemma terminated_cons (sep : α) (w : List α) (ws : List (List α)) :
    terminated sep (w :: ws) = w ++ sep :: terminated sep ws := by
  simp [terminated]

lemma append_sep_prefix {w w' rest rest' : List α} (hw : sep ∉ w) (hw' : sep ∉ w')
    (h : w ++ sep :: rest <+: w' ++ sep :: rest') : w = w' ∧ rest <+: rest' := by
  induction w generalizing w' with
  | nil =>
      cases w' with
      | nil => exact ⟨rfl, (List.prefix_cons_inj sep).mp h⟩
      | cons x w' =>
          obtain ⟨rfl, -⟩ := List.cons_prefix_cons.mp h
          exact absurd List.mem_cons_self hw'
  | cons x w ih =>
      cases w' with
      | nil =>
          obtain ⟨rfl, -⟩ := List.cons_prefix_cons.mp h
          exact absurd List.mem_cons_self hw
      | cons y w' =>
          obtain ⟨rfl, htail⟩ := List.cons_prefix_cons.mp h
          simp only [List.mem_cons, not_or] at hw hw'
          obtain ⟨rfl, hrest⟩ := ih hw.2 hw'.2 htail
          exact ⟨rfl, hrest⟩

/-- **A text of terminated words is in front of another where its words are.** -/
lemma terminated_prefix_iff (h : ∀ w ∈ words, sep ∉ w) (h' : ∀ w ∈ words', sep ∉ w) :
    terminated sep words <+: terminated sep words' ↔ words <+: words' := by
  constructor
  · intro hfront
    induction words generalizing words' with
    | nil => exact List.nil_prefix
    | cons w ws ih =>
        rw [terminated_cons] at hfront
        cases words' with
        | nil =>
            have hnil := List.prefix_nil.mp hfront
            simp at hnil
        | cons w' ws' =>
            rw [terminated_cons] at hfront
            rw [List.forall_mem_cons] at h h'
            obtain ⟨rfl, hrest⟩ := append_sep_prefix h.1 h'.1 hfront
            exact List.cons_prefix_cons.mpr ⟨rfl, ih h.2 h'.2 hrest⟩
  · rintro ⟨rest, rfl⟩
    exact ⟨terminated sep rest, (List.flatMap_append).symm⟩

/-- Words in front of others stay in front when they are written in another way that tells them
apart. -/
lemma map_prefix_map_iff {β : Type} {f : α → β} {l l' : List α}
    (hf : ∀ x ∈ l, ∀ y ∈ l', f x = f y → x = y) : l.map f <+: l'.map f ↔ l <+: l' := by
  constructor
  · intro h
    induction l generalizing l' with
    | nil => exact List.nil_prefix
    | cons x l ih =>
        cases l' with
        | nil => simp at h
        | cons y l' =>
            obtain ⟨hxy, htail⟩ := List.cons_prefix_cons.mp h
            rw [hf x List.mem_cons_self y List.mem_cons_self hxy]
            refine List.cons_prefix_cons.mpr ⟨rfl, ih ?_ htail⟩
            exact fun x hx y hy => hf x (List.mem_cons_of_mem _ hx) y (List.mem_cons_of_mem _ hy)
  · exact fun h => h.map f

end Terminated

end OdooKernel
