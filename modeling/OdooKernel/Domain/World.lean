import OdooKernel.Domain.Meaning

/-!
# Records that satisfy a domain

What a domain says of a record depends on what its leaves say of it, and a leaf may ask something of
the records that a field reaches.  A *world* says which leaves are true of which records.  A leaf
`[field, 'any', domain]` is true of a record when the field reaches a record that satisfies the
domain, and that is a law of the world; every other leaf means whatever the world says.  So what
holds in every world does not depend on databases, types or SQL.

* `World`, `World.Satisfies` — records and the domains they satisfy.
* `World.of` — the world over any meaning of the other leaves, by recursion on how deeply values
  nest.
* `Admits` — what an array of terms says, without the reader and its bound; `holds_iff_admits`.
-/

namespace OdooKernel

open PrefixNotation

/-- Records, the truth of leaves, and the records a field reaches. -/
structure World where
  Rec : Type
  truth : Rec → Leaf → Prop
  reaches : Rec → String → Rec → Prop
  truth_any : ∀ r field domain, truth r { field, op := "any", value := domain } ↔
    ∃ r', reaches r field r' ∧ ∃ n, parse domain = .ok n ∧ holds (truth r') n

/-- Whether a record satisfies a domain. -/
def World.Satisfies (w : World) (r : w.Rec) (domain : Json) : Prop :=
  ∃ n, parse domain = .ok n ∧ holds (w.truth r) n

/-- The values of the leaves of a domain nest less deeply than the domain. -/
lemma depth_lt_of_mem_leaves {domain : Json} {n : Node} (h : parse domain = .ok n) {l : Leaf}
    (hl : l ∈ leaves n) : l.value.depth < domain.depth := by
  cases domain with
  | array items =>
      obtain ⟨fs, -, -, hleaves, -⟩ := parse_eq_ok h
      rw [hleaves, sourceLeaves] at hl
      obtain ⟨item, hitem, hleaf⟩ := List.mem_filterMap.mp hl
      refine lt_of_lt_of_le ?_ (Json.depth_lt_of_mem hitem).le
      unfold leafOf at hleaf
      split at hleaf
      · next l' hterm =>
          obtain rfl := Option.some.inj hleaf
          unfold termOf at hterm
          split at hterm
          · next field op value =>
              obtain rfl := Term.leaf.inj (Option.some.inj hterm)
              exact Json.depth_lt_of_mem (by simp)
          · split_ifs at hterm <;> simp at hterm
          · simp at hterm
      · simp at hleaf
  | _ => simp [parse] at h

/-- The truth of a leaf over a meaning of the leaves that are no `any`. -/
def leafTruth {Rec : Type} (base : Rec → Leaf → Prop) (reaches : Rec → String → Rec → Prop)
    (l : Leaf) (r : Rec) : Prop :=
  if l.op = "any" then
    ∃ r', reaches r l.field r' ∧ ∃ n, parse l.value = .ok n ∧
      holds (fun l' => ∃ _ : l'.value.depth < l.value.depth, leafTruth base reaches l' r') n
  else base r l
termination_by l.value.depth

/-- **The world over a meaning of the other leaves.** -/
def World.of {Rec : Type} (base : Rec → Leaf → Prop) (reaches : Rec → String → Rec → Prop) :
    World where
  Rec := Rec
  truth r l := leafTruth base reaches l r
  reaches := reaches
  truth_any r field domain := by
    rw [leafTruth]
    simp only [if_true]
    refine exists_congr fun r' => and_congr_right fun _ => exists_congr fun n =>
      and_congr_right fun hn => holds_congr n fun l hl => ?_
    exact ⟨fun ⟨_, h⟩ => h, fun h => ⟨depth_lt_of_mem_leaves hn hl, h⟩⟩

/-! ## What an array of terms says -/

/-- The array is well formed and the conjunction of its expressions is true. -/
def Admits (v : Leaf → Prop) (items : List Json) : Prop :=
  ∃ fs, Spells items fs ∧ AllHold (termHolds v) fs

lemma Spells.admits_iff {items : List Json} {fs : List (Formula Json)} (h : Spells items fs)
    (v : Leaf → Prop) : Admits v items ↔ AllHold (termHolds v) fs := by
  constructor
  · rintro ⟨gs, hgs, hv⟩
    rwa [h.unique hgs]
  · exact fun hv => ⟨fs, h, hv⟩

lemma WellFormed.append {items items' : List Json} (h : WellFormed items) (h' : WellFormed items') :
    WellFormed (items ++ items') := by
  obtain ⟨fs, hfs⟩ := h
  obtain ⟨gs, hgs⟩ := h'
  exact ⟨fs ++ gs, hfs.append hgs⟩

/-- Domains one after the other say all that each of them says. -/
lemma admits_append {items items' : List Json} (h : WellFormed items) (h' : WellFormed items')
    (v : Leaf → Prop) : Admits v (items ++ items') ↔ Admits v items ∧ Admits v items' := by
  obtain ⟨fs, hfs⟩ := h
  obtain ⟨gs, hgs⟩ := h'
  rw [(hfs.append hgs).admits_iff, hfs.admits_iff, hgs.admits_iff, allHold_append]

lemma wellFormed_nil : WellFormed [] := ⟨[], spells_nil⟩

@[simp] lemma admits_nil (v : Leaf → Prop) : Admits v [] := ⟨[], spells_nil, by simp⟩

lemma wellFormed_flatten : ∀ {domains : List (List Json)}, (∀ d ∈ domains, WellFormed d) →
    WellFormed domains.flatten
  | [], _ => wellFormed_nil
  | d :: ds, h => by
      rw [List.forall_mem_cons] at h
      exact h.1.append (wellFormed_flatten h.2)

lemma admits_flatten (v : Leaf → Prop) : ∀ {domains : List (List Json)},
    (∀ d ∈ domains, WellFormed d) → (Admits v domains.flatten ↔ ∀ d ∈ domains, Admits v d)
  | [], _ => by simp
  | d :: ds, h => by
      rw [List.forall_mem_cons] at h
      rw [List.flatten_cons, admits_append h.1 (wellFormed_flatten h.2), admits_flatten v h.2,
        List.forall_mem_cons]

/-- What is accepted is what the array says. -/
lemma holds_iff_admits {items : List Json} {n : Node} (h : parse (.array items) = .ok n)
    (v : Leaf → Prop) : holds v n ↔ Admits v items := by
  obtain ⟨fs, hfs, hmeaning, -⟩ := parse_eq_ok h
  rw [hmeaning, hfs.admits_iff]

end OdooKernel
