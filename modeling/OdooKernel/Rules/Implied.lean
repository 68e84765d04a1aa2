import OdooKernel.Core.Worklist
import OdooKernel.Rules.Names

/-!
# The groups of a user

A user's groups are those of the memberships, the group of everyone, and whatever these imply.  The
source finds them with a stack: a group is taken from it, and what it implies is pushed unless it was
met.

**The loop and the list.**  The loop is said in so many steps at most (`Security.groupsWithin`),
which is what has to end; the rest of the development reads a list of groups (`Security.groupsOf`),
which is the loop with steps enough.  The relation is `Security.Implies`, from where `Security.Joins`
starts, and knows of no order in which groups are met.

* **`groupsWithin_exact`** — the loop ends, with the groups that can be reached and nothing else.
* `mem_groupsOf` — the list that the rest of the development reads has the same members.
-/

namespace OdooKernel

namespace Security

variable (security : Security)

/-- A group implies another. -/
def Implies (g h : ℤ) : Prop := h ∈ security.implied.listAt g

/-- A user is a member of a group, or everyone is. -/
def Joins (uid g : ℤ) : Prop := g ∈ security.userGroups.listAt uid ∨ security.everyone = some g

/-- The groups that a group pushes, the last one on top. -/
def pushed (g : ℤ) : List ℤ := (security.implied.listAt g).reverse

/-- **The groups of a user**, with those they imply, if the steps suffice. -/
def groupsWithin (uid : ℤ) (steps : ℕ) : Option (List ℤ) :=
  exhaust security.pushed steps []
    (security.userGroups.listAt uid ++ security.everyone.toList).reverse

variable {security}

lemma mem_start {uid g : ℤ} :
    g ∈ security.userGroups.listAt uid ++ security.everyone.toList ↔ security.Joins uid g := by
  simp [Joins, Option.mem_toList]

/-- Only the groups of the table imply any. -/
lemma mem_keys_of_implied {g : ℤ} (h : security.implied.listAt g ≠ []) :
    g ∈ security.implied.map Prod.fst := by
  unfold Dict.listAt at h
  cases hget : security.implied.get? g with
  | none => exact absurd (by rw [hget]; rfl) h
  | some implied => exact List.mem_map_of_mem (Dict.mem_of_get? hget)

end Security

/-- **Group closure is exact, and ends**: from some number of steps on the loop returns the groups that
can be reached from those a user joins. -/
theorem groupsWithin_exact (security : Security) (uid : ℤ) :
    ∃ enough, ∀ steps, enough ≤ steps → ∃ groups, security.groupsWithin uid steps = some groups ∧
      ∀ g, g ∈ groups ↔
        ∃ r, security.Joins uid r ∧ Relation.ReflTransGen security.Implies r g := by
  let start := (security.userGroups.listAt uid ++ security.everyone.toList).reverse
  let keys := security.implied.map Prod.fst
  refine ⟨start.length + ahead security.pushed keys [], fun steps hsteps => ?_⟩
  have hkeys : ∀ g, security.pushed g ≠ [] → g ∈ keys := fun g hg =>
    Security.mem_keys_of_implied fun hnil => hg (by rw [Security.pushed, hnil]; rfl)
  obtain ⟨groups, hgroups⟩ := exhaust_isSome keys hkeys steps [] start hsteps
  refine ⟨groups, hgroups, fun g => ?_⟩
  have hrelation : (fun x y => y ∈ security.pushed x) = security.Implies := by
    funext x y
    simp [Security.pushed, Security.Implies]
  rw [mem_exhaust hgroups, hrelation]
  simp only [start, List.mem_reverse, Security.mem_start]

/-! ## The list that the rest reads -/

lemma closeGroups_of_exhaust {implied : Dict ℤ (List ℤ)} :
    ∀ {steps : ℕ} {met stack out : List ℤ},
      exhaust implied.listAt steps met stack = some out →
        closeGroups implied steps met stack = out := by
  intro steps
  induction steps with
  | zero =>
      intro met stack out h
      cases stack with
      | nil => exact Option.some.inj h
      | cons g stack => cases h
  | succ steps ih =>
      intro met stack out h
      cases stack with
      | nil => exact Option.some.inj h
      | cons g stack =>
          rw [exhaust] at h
          rw [closeGroups]
          by_cases hg : g ∈ met
          · rw [if_pos hg] at h ⊢
            exact ih h
          · rw [if_neg hg] at h ⊢
            exact ih h

/-- A key that is looked up once adds its entry at most. -/
lemma sum_lookup_le {α : Type} (k : ℤ) (entry : List α) (rest : ℤ → List α) :
    ∀ {ks : List ℤ}, ks.Nodup →
      (ks.map fun x => (if k = x then entry else rest x).length).sum ≤
        entry.length + (ks.map fun x => (rest x).length).sum
  | [], _ => Nat.zero_le _
  | x :: ks, h => by
      rw [List.nodup_cons] at h
      simp only [List.map_cons, List.sum_cons]
      by_cases hk : k = x
      · have hrest : (ks.map fun x => (if k = x then entry else rest x).length) =
            ks.map fun x => (rest x).length := by
          refine List.map_congr_left fun y hy => ?_
          have hne : k ≠ y := by
            rintro rfl
            exact h.1 (hk ▸ hy)
          rw [if_neg hne]
        rw [if_pos hk, hrest]
        omega
      · have ih := sum_lookup_le k entry rest h.2
        rw [if_neg hk]
        omega

/-- The entries of a table are as long as what is looked up in it, once for each key. -/
lemma sum_listAt_le {α : Type} {ks : List ℤ} (h : ks.Nodup) : ∀ d : Dict ℤ (List α),
    (ks.map fun k => (d.listAt k).length).sum ≤ (d.map fun e => e.2.length).sum
  | [] => by simp [Dict.listAt]
  | (k, entry) :: d => by
      have ih := sum_listAt_le h d
      have hlookup : (ks.map fun x => (Dict.listAt ((k, entry) :: d) x).length) =
          ks.map fun x => (if k = x then entry else Dict.listAt d x).length := by
        refine List.map_congr_left fun x _ => ?_
        rw [Dict.listAt, Dict.get?_cons]
        split <;> rfl
      have hle := sum_lookup_le k entry (Dict.listAt d) h
      rw [hlookup, List.map_cons, List.sum_cons]
      show _ ≤ entry.length + _
      omega

/-- **The groups that the rest of the model reads** are the ones that the loop returns. -/
theorem mem_groupsOf {security : Security} {uid g : ℤ} : g ∈ security.groupsOf uid ↔
    ∃ r, security.Joins uid r ∧ Relation.ReflTransGen security.Implies r g := by
  let start := security.userGroups.listAt uid ++ security.everyone.toList
  let keys := (security.implied.map Prod.fst).dedup
  have hkeys : ∀ g, security.implied.listAt g ≠ [] → g ∈ keys := fun g hg =>
    List.mem_dedup.mpr (Security.mem_keys_of_implied hg)
  have hahead : ahead security.implied.listAt keys [] ≤
      (security.implied.map fun e => e.2.length).sum := by
    have hfilter : keys.filter (· ∉ ([] : List ℤ)) = keys := by simp
    rw [ahead, hfilter]
    exact sum_listAt_le (List.nodup_dedup _) security.implied
  obtain ⟨groups, hgroups⟩ := exhaust_isSome keys hkeys
    (start.length + (security.implied.map fun e => e.2.length).sum + 1) [] start (by omega)
  have hlist : security.groupsOf uid = groups := closeGroups_of_exhaust hgroups
  rw [hlist, mem_exhaust hgroups]
  simp only [start, Security.mem_start]
  rfl

end OdooKernel
