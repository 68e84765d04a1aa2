import Mathlib.Data.List.Basic
import Mathlib.Data.List.Flatten
import OdooKernel.Domain.Node

/-!
# Constants folded out of a domain

`foldConstants` takes `True` and `False` out of the inside of a domain.  A junction keeps the
children that are no constant, is decided by one that is, and gives way to its child where one is
left.

**Three things are said of it**, each by induction on the domain: that the meaning is the same under
every assignment to the leaves, that what comes out has no constant inside and no junction of fewer
than two children, and that the leaves that are left are in their order.  What a junction does is
said once for both connectives (`Keeps`), with the constant that decides it and the one that is left
out as parameters.

* `Folded`, `Normal` — a domain without constants and without small junctions, and a domain that is
  such or a constant.
* `holds_foldConstants`, `normal_foldConstants`, `leaves_foldConstants` — the three.
* **`foldConstants_exact`** — all of it, and that a second pass changes nothing.
-/

namespace OdooKernel

/-! ## Normal forms -/

mutual
/-- No constant inside, and two children at least in every junction. -/
def Folded : Node → Prop
  | .And children => 2 ≤ children.length ∧ AllFolded children
  | .Or children => 2 ≤ children.length ∧ AllFolded children
  | .Not inner => Folded inner
  | .Leaf _ => True
  | .True => False
  | .False => False

/-- Every child is folded. -/
def AllFolded : List Node → Prop
  | [] => True
  | n :: ns => Folded n ∧ AllFolded ns
end

lemma allFolded_iff (ns : List Node) : AllFolded ns ↔ ∀ n ∈ ns, Folded n := by
  induction ns with
  | nil => simp [AllFolded]
  | cons n ns ih => simp [AllFolded, ih]

/-- A constant, or a domain without any. -/
def Normal (n : Node) : Prop := n = .True ∨ n = .False ∨ Folded n

lemma Folded.ne_true {n : Node} (h : Folded n) : n ≠ .True := by
  rintro rfl
  exact h

lemma Folded.ne_false {n : Node} (h : Folded n) : n ≠ .False := by
  rintro rfl
  exact h

/-! ## What a junction keeps -/

/-- What is kept of the children of a junction, if none of them is the one that decides it. -/
inductive Keeps (deciding neutral : Node) : List Node → Option (List Node) → Prop
  | nil : Keeps deciding neutral [] (some [])
  | decided (ns : List Node) : Keeps deciding neutral (deciding :: ns) none
  | skip {ns : List Node} {kept : Option (List Node)} (h : Keeps deciding neutral ns kept) :
      Keeps deciding neutral (neutral :: ns) kept
  | keep {n : Node} {ns : List Node} {kept : Option (List Node)} (hdeciding : n ≠ deciding)
      (hneutral : n ≠ neutral) (h : Keeps deciding neutral ns kept) :
      Keeps deciding neutral (n :: ns) (kept.map (n :: ·))

lemma foldAnd_keeps (cs : List Node) : Keeps .False .True (cs.map foldConstants) (foldAnd cs) := by
  induction cs with
  | nil => exact .nil
  | cons c cs ih =>
      rw [List.map_cons, foldAnd]
      split
      · next h => rw [h]; exact .decided _
      · next h => rw [h]; exact .skip ih
      · next hfalse htrue => exact .keep hfalse htrue ih

lemma foldOr_keeps (cs : List Node) : Keeps .True .False (cs.map foldConstants) (foldOr cs) := by
  induction cs with
  | nil => exact .nil
  | cons c cs ih =>
      rw [List.map_cons, foldOr]
      split
      · next h => rw [h]; exact .decided _
      · next h => rw [h]; exact .skip ih
      · next htrue hfalse => exact .keep htrue hfalse ih

section Keeps

variable {deciding neutral : Node} {ns ks : List Node}

/-- What is kept are the children that are no constant, in their order. -/
lemma Keeps.of_some (h : Keeps deciding neutral ns (some ks)) (hne : deciding ≠ neutral) :
    deciding ∉ ns ∧ ks.Sublist ns ∧ (∀ n ∈ ns, n = neutral ∨ n ∈ ks) ∧
      ∀ k ∈ ks, k ≠ deciding ∧ k ≠ neutral := by
  generalize hout : some ks = out at h
  induction h generalizing ks with
  | nil =>
      obtain rfl := Option.some.inj hout
      simp
  | decided ns => cases hout
  | skip _ ih =>
      obtain ⟨hnot, hsub, hall, hks⟩ := ih hout
      refine ⟨?_, hsub.cons _, ?_, hks⟩
      · simpa using ⟨hne, hnot⟩
      · rintro n (_ | ⟨_, hn⟩)
        · exact .inl rfl
        · exact hall n hn
  | @keep n ns kept hdeciding hneutral _ ih =>
      obtain ⟨rest, hrest, hks⟩ := Option.map_eq_some_iff.mp hout.symm
      subst hks
      obtain ⟨hnot, hsub, hall, hkept⟩ := ih hrest.symm
      refine ⟨?_, hsub.cons_cons _, ?_, ?_⟩
      · simpa using ⟨hdeciding.symm, hnot⟩
      · rintro m (_ | ⟨_, hm⟩)
        · exact .inr List.mem_cons_self
        · exact (hall m hm).imp_right (List.mem_cons_of_mem _)
      · exact List.forall_mem_cons.mpr ⟨⟨hdeciding, hneutral⟩, hkept⟩

/-- Children that are no constants are all kept. -/
lemma Keeps.eq_some {out : Option (List Node)} (h : Keeps deciding neutral ns out)
    (hns : ∀ n ∈ ns, n ≠ deciding ∧ n ≠ neutral) : out = some ns := by
  induction h with
  | nil => rfl
  | decided ns => exact absurd rfl (hns _ List.mem_cons_self).1
  | skip _ _ => exact absurd rfl (hns _ List.mem_cons_self).2
  | keep _ _ _ ih => rw [ih fun n hn => hns n (List.mem_cons_of_mem _ hn), Option.map_some]

/-- A junction of what is kept. -/
def rejoined (deciding neutral : Node) (junction : List Node → Node) : Option (List Node) → Node
  | none => deciding
  | some [] => neutral
  | some [kept] => kept
  | some kept => junction kept

lemma foldConstants_and (cs : List Node) :
    foldConstants (.And cs) = rejoined .False .True .And (foldAnd cs) := by
  rw [foldConstants]
  rfl

lemma foldConstants_or (cs : List Node) :
    foldConstants (.Or cs) = rejoined .True .False .Or (foldOr cs) := by
  rw [foldConstants]
  rfl

/-- What a junction is rejoined to: a constant, its only child, or a junction of two children or
more. -/
lemma rejoined_cases (junction : List Node → Node) (out : Option (List Node)) :
    (out = none ∧ rejoined deciding neutral junction out = deciding) ∨
    (out = some [] ∧ rejoined deciding neutral junction out = neutral) ∨
    (∃ k, out = some [k] ∧ rejoined deciding neutral junction out = k) ∨
    (∃ ks, out = some ks ∧ 2 ≤ ks.length ∧ rejoined deciding neutral junction out = junction ks) := by
  match out with
  | none => exact .inl ⟨rfl, rfl⟩
  | some [] => exact .inr (.inl ⟨rfl, rfl⟩)
  | some [k] => exact .inr (.inr (.inl ⟨k, rfl, rfl⟩))
  | some (k :: k' :: ks) => exact .inr (.inr (.inr ⟨_, rfl, by simp, rfl⟩))

end Keeps

/-! ## What folding preserves -/

section Meaning

variable {v : Leaf → Prop} {ns : List Node} {out : Option (List Node)}

/-- A conjunction of what is kept says what all of the children say. -/
lemma Keeps.holds_and (h : Keeps .False .True ns out) :
    holds v (rejoined .False .True .And out) ↔ ∀ n ∈ ns, holds v n := by
  have hout : holds v (rejoined .False .True .And out) ↔
      ∃ ks, out = some ks ∧ ∀ k ∈ ks, holds v k := by
    match out with
    | none | some [] | some [k] | some (k :: k' :: ks) => simp [rejoined]
  rw [hout]
  clear hout
  induction h with
  | nil => simp
  | decided ns => simp
  | skip _ ih => simp [ih]
  | keep _ _ _ ih =>
      simp only [← ih, List.forall_mem_cons]
      constructor
      · rintro ⟨ks, hks, hall⟩
        obtain ⟨rest, hrest, rfl⟩ := Option.map_eq_some_iff.mp hks
        rw [List.forall_mem_cons] at hall
        exact ⟨hall.1, rest, hrest, hall.2⟩
      · rintro ⟨hn, rest, rfl, hall⟩
        exact ⟨_, rfl, List.forall_mem_cons.mpr ⟨hn, hall⟩⟩

/-- A disjunction of what is kept says what one of the children says. -/
lemma Keeps.holds_or (h : Keeps .True .False ns out) :
    holds v (rejoined .True .False .Or out) ↔ ∃ n ∈ ns, holds v n := by
  have hout : holds v (rejoined .True .False .Or out) ↔
      ∀ ks, out = some ks → ∃ k ∈ ks, holds v k := by
    match out with
    | none | some [] | some [k] | some (k :: k' :: ks) => simp [rejoined]
  rw [hout]
  clear hout
  induction h with
  | nil => simp
  | decided ns => simp
  | skip _ ih => simp [ih]
  | keep _ _ _ ih =>
      rw [List.exists_mem_cons_iff]
      simp only [← ih]
      constructor
      · intro hall
        rw [or_iff_not_imp_left]
        rintro hn rest rfl
        exact ((List.exists_mem_cons_iff _ _ _).mp (hall _ rfl)).resolve_left hn
      · rintro hall ks hks
        obtain ⟨rest, hrest, rfl⟩ := Option.map_eq_some_iff.mp hks
        exact (List.exists_mem_cons_iff _ _ _).mpr (hall.imp_right fun h => h rest hrest)

/-- **Folding keeps the meaning** under every assignment to the leaves. -/
lemma holds_foldConstants (v : Leaf → Prop) (n : Node) :
    holds v (foldConstants n) ↔ holds v n := by
  induction n using nodeInduction with
  | And cs ih =>
      rw [foldConstants_and, (foldAnd_keeps cs).holds_and, holds_and, List.forall_mem_map]
      exact forall₂_congr ih
  | Or cs ih =>
      rw [foldConstants_or, (foldOr_keeps cs).holds_or, holds_or]
      simp only [List.mem_map, exists_exists_and_eq_and]
      exact exists_congr fun c => and_congr_right (ih c)
  | Not n ih =>
      rw [holds_not, ← ih, foldConstants]
      split
      · next h => simp [h]
      · next h => simp [h]
      · exact Iff.rfl
  | Leaf l => exact Iff.rfl
  | True => exact Iff.rfl
  | False => exact Iff.rfl

end Meaning

/-! ## What folding arrives at -/

section Form

variable {deciding neutral : Node} {ns : List Node} {out : Option (List Node)}

/-- A junction of normal children is rejoined to a normal domain. -/
lemma Keeps.normal (h : Keeps deciding neutral ns out) {junction : List Node → Node}
    (hconst : deciding = .True ∧ neutral = .False ∨ deciding = .False ∧ neutral = .True)
    (hjunction : ∀ ks, 2 ≤ ks.length → AllFolded ks → Folded (junction ks))
    (hns : ∀ n ∈ ns, Normal n) : Normal (rejoined deciding neutral junction out) := by
  have hne : deciding ≠ neutral := by
    rcases hconst with ⟨rfl, rfl⟩ | ⟨rfl, rfl⟩ <;> simp
  have hfolded : ∀ ks, out = some ks → ∀ k ∈ ks, Folded k := by
    rintro ks rfl k hk
    obtain ⟨-, hsub, -, hks⟩ := h.of_some hne
    obtain ⟨hdeciding, hneutral⟩ := hks k hk
    rcases hconst with ⟨rfl, rfl⟩ | ⟨rfl, rfl⟩ <;>
      rcases hns k (hsub.subset hk) with hk' | hk' | hk'
    · exact absurd hk' hdeciding
    · exact absurd hk' hneutral
    · exact hk'
    · exact absurd hk' hneutral
    · exact absurd hk' hdeciding
    · exact hk'
  rcases rejoined_cases junction out with ⟨-, h⟩ | ⟨-, h⟩ | ⟨k, hk, h⟩ | ⟨ks, hks, hlen, h⟩ <;> rw [h]
  · rcases hconst with ⟨rfl, -⟩ | ⟨rfl, -⟩ <;> simp [Normal]
  · rcases hconst with ⟨-, rfl⟩ | ⟨-, rfl⟩ <;> simp [Normal]
  · exact .inr (.inr (hfolded _ hk k (List.mem_singleton.mpr rfl)))
  · exact .inr (.inr (hjunction ks hlen ((allFolded_iff ks).mpr (hfolded ks hks))))

/-- **What is folded is a constant, or has none inside.** -/
lemma normal_foldConstants (n : Node) : Normal (foldConstants n) := by
  induction n using nodeInduction with
  | And cs ih =>
      rw [foldConstants_and]
      refine (foldAnd_keeps cs).normal (.inr ⟨rfl, rfl⟩) (fun ks hlen hks => ⟨hlen, hks⟩) ?_
      exact List.forall_mem_map.mpr ih
  | Or cs ih =>
      rw [foldConstants_or]
      refine (foldOr_keeps cs).normal (.inl ⟨rfl, rfl⟩) (fun ks hlen hks => ⟨hlen, hks⟩) ?_
      exact List.forall_mem_map.mpr ih
  | Not n ih =>
      rw [foldConstants]
      split
      · exact .inr (.inl rfl)
      · exact .inl rfl
      · next htrue hfalse => exact .inr (.inr ((ih.resolve_left htrue).resolve_left hfalse))
  | Leaf l => exact .inr (.inr trivial)
  | True => exact .inl rfl
  | False => exact .inr (.inl rfl)

/-- The children of a folded junction are kept as they are. -/
lemma Keeps.folded (h : Keeps deciding neutral (ns.map foldConstants) out)
    (hconst : ∀ n, Folded n → n ≠ deciding ∧ n ≠ neutral) (hns : ∀ n ∈ ns, Folded n)
    (ih : ∀ n ∈ ns, Folded n → foldConstants n = n) : out = some ns := by
  have hmap : ns.map foldConstants = ns :=
    (List.map_congr_left fun n hn => ih n hn (hns n hn)).trans (List.map_id ns)
  rw [hmap] at h
  exact h.eq_some fun n hn => hconst n (hns n hn)

lemma rejoined_of_two_le {junction : List Node → Node} (h : 2 ≤ ns.length) :
    rejoined deciding neutral junction (some ns) = junction ns := by
  match ns, h with
  | _ :: _ :: _, _ => rfl

/-- What has no constant inside is left as it is. -/
lemma foldConstants_of_folded (n : Node) (h : Folded n) : foldConstants n = n := by
  induction n using nodeInduction with
  | And cs ih =>
      obtain ⟨hlen, hcs⟩ := h
      rw [foldConstants_and, (foldAnd_keeps cs).folded (fun n hn => ⟨hn.ne_false, hn.ne_true⟩)
        ((allFolded_iff cs).mp hcs) ih, rejoined_of_two_le hlen]
  | Or cs ih =>
      obtain ⟨hlen, hcs⟩ := h
      rw [foldConstants_or, (foldOr_keeps cs).folded (fun n hn => ⟨hn.ne_true, hn.ne_false⟩)
        ((allFolded_iff cs).mp hcs) ih, rejoined_of_two_le hlen]
  | Not n ih =>
      have hn : Folded n := h
      rw [foldConstants, ih hn]
      split
      · exact absurd rfl hn.ne_true
      · exact absurd rfl hn.ne_false
      · rfl
  | Leaf l => rfl
  | True => exact h.elim
  | False => exact h.elim

lemma foldConstants_of_normal {n : Node} (h : Normal n) : foldConstants n = n := by
  rcases h with rfl | rfl | h
  · rfl
  · rfl
  · exact foldConstants_of_folded n h

/-! ## What folding drops -/

/-- The leaves of a junction that is rejoined are among those of its children, in their order. -/
lemma Keeps.leaves_rejoined (h : Keeps deciding neutral ns out) (hne : deciding ≠ neutral)
    (junction : List Node → Node) (hdeciding : leaves deciding = []) (hneutral : leaves neutral = [])
    (hjunction : ∀ ks, leaves (junction ks) = ks.flatMap leaves) :
    (leaves (rejoined deciding neutral junction out)).Sublist (ns.flatMap leaves) := by
  have hkept : ∀ ks, out = some ks → (ks.flatMap leaves).Sublist (ns.flatMap leaves) := by
    rintro ks rfl
    exact (h.of_some hne).2.1.flatMap _
  rcases rejoined_cases junction out with ⟨-, h⟩ | ⟨-, h⟩ | ⟨k, hk, h⟩ | ⟨ks, hks, -, h⟩ <;> rw [h]
  · rw [hdeciding]
    exact List.nil_sublist _
  · rw [hneutral]
    exact List.nil_sublist _
  · simpa using hkept _ hk
  · rw [hjunction]
    exact hkept ks hks

/-- **The leaves that remain are in their order.** -/
lemma leaves_foldConstants (n : Node) : (leaves (foldConstants n)).Sublist (leaves n) := by
  induction n using nodeInduction with
  | And cs ih =>
      rw [foldConstants_and]
      have hkept := (foldAnd_keeps cs).leaves_rejoined (by simp) .And rfl rfl fun ks => leavesOf_eq ks
      refine hkept.trans ?_
      rw [List.flatMap_map, leaves, leavesOf_eq]
      exact List.Sublist.flatMap_right cs ih
  | Or cs ih =>
      rw [foldConstants_or]
      have hkept := (foldOr_keeps cs).leaves_rejoined (by simp) .Or rfl rfl fun ks => leavesOf_eq ks
      refine hkept.trans ?_
      rw [List.flatMap_map, leaves, leavesOf_eq]
      exact List.Sublist.flatMap_right cs ih
  | Not n ih =>
      rw [foldConstants]
      split
      · exact List.nil_sublist _
      · exact List.nil_sublist _
      · exact ih
  | Leaf l => exact List.Sublist.refl _
  | True => exact List.Sublist.refl _
  | False => exact List.Sublist.refl _

end Form

/-- **Folding is exact and complete.**  What comes out says the same under every assignment to the
leaves, is a constant or has none inside and no junction of fewer than two children, is left as it is
by a second pass, and keeps the leaves that remain in their order. -/
theorem foldConstants_exact (n : Node) :
    (∀ v, holds v (foldConstants n) ↔ holds v n) ∧
      (foldConstants n = .True ∨ foldConstants n = .False ∨ Folded (foldConstants n)) ∧
      foldConstants (foldConstants n) = foldConstants n ∧
      (leaves (foldConstants n)).Sublist (leaves n) :=
  ⟨fun v => holds_foldConstants v n, normal_foldConstants n,
    foldConstants_of_normal (normal_foldConstants n), leaves_foldConstants n⟩

end OdooKernel
