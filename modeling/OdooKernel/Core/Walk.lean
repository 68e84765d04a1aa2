import Mathlib.Data.List.Dedup
import Mathlib.Data.List.Sort
import Mathlib.Logic.Relation

/-!
# Walking a relation in rounds

What can be reached from some roots, found by asking for the neighbours of the last round's finds
until a round finds nothing new.  The relation may run in circles: what was met is not met again.

**Rounds.**  The walk is given a number of rounds.  Each round but the last finds something new, so
as many rounds as there are things to find are enough (`closed_walkRounds`), and with more the walk
comes to the same end.

* `ordered` — a set of numbers as a list.
* `walkRounds` — the walk, in so many rounds at most.
* `mem_walkRounds` — with a round for each of the things there are to find, it finds all that can be
  reached, and nothing else.
-/

namespace OdooKernel

/-- The numbers of a list in order, each once. -/
def ordered (ids : List ℤ) : List ℤ := ids.dedup.insertionSort (· ≤ ·)

@[simp] lemma mem_ordered {ids : List ℤ} {id : ℤ} : id ∈ ordered ids ↔ id ∈ ids := by
  simp [ordered]

section Walk

variable {ι : Type} [DecidableEq ι]

/-- The finds of a round that were not met before. -/
def freshOf (found met : List ι) : List ι := found.eraseDups.filter (· ∉ met)

/-- The walk from a round's finds. -/
def walkRounds (neighbours : List ι → List ι) : ℕ → List ι → List ι → List ι
  | 0, met, _ => met
  | _, met, [] => met
  | rounds + 1, met, frontier =>
    let fresh := freshOf (neighbours frontier) met
    walkRounds neighbours rounds (met ++ fresh) fresh

variable {neighbours : List ι → List ι} {R : ι → ι → Prop} {met frontier : List ι}

lemma mem_freshOf {found : List ι} {x : ι} : x ∈ freshOf found met ↔ x ∈ found ∧ x ∉ met := by
  simp [freshOf]

/-- How many things are left to find. -/
def unmet (things met : List ι) : ℕ := (things.filter (· ∉ met)).length

lemma unmet_lt {things fresh : List ι} {x : ι} (hx : x ∈ fresh) (hthing : x ∈ things)
    (hnew : x ∉ met) : unmet things (met ++ fresh) < unmet things met := by
  unfold unmet
  have hsub : things.filter (· ∉ met ++ fresh) = (things.filter (· ∉ met)).filter (· ∉ fresh) := by
    rw [List.filter_filter]
    refine List.filter_congr fun y _ => ?_
    simp [not_or, Bool.and_comm]
  rw [hsub]
  refine List.length_filter_lt_length_iff_exists.mpr ⟨x, ?_, ?_⟩
  · exact List.mem_filter.mpr ⟨hthing, by simpa using hnew⟩
  · simpa using hx

/-- All that a walk returns was met or can be reached. -/
lemma reachable_of_mem_walkRounds (hnext : ∀ f y, y ∈ neighbours f → ∃ x ∈ f, R x y)
    {roots : List ι} (n : ℕ) :
    ∀ {met frontier : List ι}, (∀ x ∈ frontier, x ∈ met) →
      (∀ x ∈ met, ∃ r ∈ roots, Relation.ReflTransGen R r x) →
      ∀ x ∈ walkRounds neighbours n met frontier, ∃ r ∈ roots, Relation.ReflTransGen R r x := by
  induction n with
  | zero => exact fun _ hmet => hmet
  | succ n ih =>
      intro met frontier hfrontier hmet
      cases frontier with
      | nil => exact hmet
      | cons y frontier =>
          refine ih (fun x hx => List.mem_append_right _ hx) fun x hx => ?_
          rcases List.mem_append.mp hx with hx | hx
          · exact hmet x hx
          · obtain ⟨z, hz, hzx⟩ := hnext _ x (mem_freshOf.mp hx).1
            obtain ⟨r, hr, hrz⟩ := hmet z (hfrontier z hz)
            exact ⟨r, hr, hrz.tail hzx⟩

/-- What was met stays met, and what is returned is closed under the relation, as long as a round is
left for each thing to find. -/
lemma closed_walkRounds (hnext : ∀ f y, y ∈ neighbours f ↔ ∃ x ∈ f, R x y) {things : List ι}
    (hthings : ∀ x y, R x y → y ∈ things) (n : ℕ) :
    ∀ {met frontier : List ι}, (frontier = [] ∨ unmet things met < n) →
      (∀ x ∈ met, x ∉ frontier → ∀ y, R x y → y ∈ met) →
      (∀ x ∈ met, x ∈ walkRounds neighbours n met frontier) ∧
        ∀ x ∈ walkRounds neighbours n met frontier, ∀ y, R x y →
          y ∈ walkRounds neighbours n met frontier := by
  induction n with
  | zero =>
      intro met frontier hrounds hclosed
      obtain rfl : frontier = [] := hrounds.resolve_right (Nat.not_lt_zero _)
      exact ⟨fun _ hx => hx, fun x hx => hclosed x hx (by simp)⟩
  | succ n ih =>
      intro met frontier hrounds hclosed
      cases frontier with
      | nil => exact ⟨fun _ hx => hx, fun x hx => hclosed x hx (by simp)⟩
      | cons z frontier =>
          have hleft : unmet things met < n + 1 := hrounds.resolve_left (by simp)
          let fresh := freshOf (neighbours (z :: frontier)) met
          have hnew : fresh = [] ∨ unmet things (met ++ fresh) < n := by
            rcases List.eq_nil_or_concat fresh with hnil | ⟨xs, x, hx⟩
            · exact .inl hnil
            · have hmem : x ∈ fresh := by simp [hx]
              obtain ⟨hfound, hnot⟩ := mem_freshOf.mp hmem
              obtain ⟨w, -, hw⟩ := (hnext _ x).mp hfound
              have := unmet_lt hmem (hthings w x hw) hnot
              exact .inr (by omega)
          have hnext' : ∀ x ∈ met ++ fresh, x ∉ fresh → ∀ y, R x y → y ∈ met ++ fresh := by
            intro x hx hold y hxy
            have hmet : x ∈ met := (List.mem_append.mp hx).resolve_right hold
            by_cases hlast : x ∈ z :: frontier
            · by_cases hy : y ∈ met
              · exact List.mem_append_left _ hy
              · exact List.mem_append_right _
                  (mem_freshOf.mpr ⟨(hnext _ y).mpr ⟨x, hlast, hxy⟩, hy⟩)
            · exact List.mem_append_left _ (hclosed x hmet hlast y hxy)
          obtain ⟨hkept, hall⟩ := ih hnew hnext'
          exact ⟨fun x hx => hkept x (List.mem_append_left _ hx), hall⟩

/-- **A walk finds what can be reached**, and nothing else. -/
theorem mem_walkRounds (hnext : ∀ f y, y ∈ neighbours f ↔ ∃ x ∈ f, R x y) (things : List ι)
    (hthings : ∀ x y, R x y → y ∈ things) {n : ℕ} (hn : things.length < n) (roots : List ι)
    (x : ι) :
    x ∈ walkRounds neighbours n roots roots ↔ ∃ r ∈ roots, Relation.ReflTransGen R r x := by
  have hrounds : unmet things roots < n := (List.length_filter_le _ _).trans_lt hn
  have hstart : ∀ x ∈ roots, x ∉ roots → ∀ y, R x y → y ∈ roots := fun x hx hnot =>
    absurd hx hnot
  obtain ⟨hkept, hclosed⟩ := closed_walkRounds hnext hthings n (.inr hrounds) hstart
  constructor
  · exact reachable_of_mem_walkRounds (fun f y => (hnext f y).mp) n (fun _ => id)
      (fun r hr => ⟨r, hr, .refl⟩) x
  · rintro ⟨r, hr, hrx⟩
    induction hrx with
    | refl => exact hkept r hr
    | tail _ hxy ih => exact hclosed _ ih _ hxy

end Walk

end OdooKernel
