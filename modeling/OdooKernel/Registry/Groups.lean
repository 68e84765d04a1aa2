import OdooKernel.Registry.Model

/-!
# Who may read a field

A `groups=` spec names groups, some of them negated.  A principal may hold a group in some companies
only, and then holds it on some records and not on others.  The kernel gives one verdict for all
records, or refuses to.

**A verdict on a record** (`HasGroups`, `Registry.HeldOn`) is that no negated group is held there and
one of the others is, where any is asked for.  The verdict for all records has to be right on each of
them, whichever of the limited groups are held there; where it would not be, the request goes to
Python.

* `HasGroups` — the verdict of a spec on a principal who holds some of its names.
* `Registry.HeldOn` — what is held on a record.
* **`fieldReadable_sound`** — a verdict is right on every record.
-/

namespace OdooKernel

/-- The names that a spec negates. -/
def negatedGroups (spec : String) : List String :=
  (groupTokens spec).filterMap fun token =>
    match token with
    | '!' :: rest => some (String.ofList rest)
    | _ => none

/-- The names that a spec asks for. -/
def askedGroups (spec : String) : List String :=
  ((groupTokens spec).filter fun token => token.head? ≠ some '!').map String.ofList

/-- **The verdict of a spec**: no negated name is held, and one of the others is, where there are
any; a point and a spec without a name deny. -/
structure HasGroups (held : String → Prop) (spec : String) : Prop where
  notPoint : spec ≠ "."
  named : negatedGroups spec ≠ [] ∨ askedGroups spec ≠ []
  negated : ∀ name ∈ negatedGroups spec, ¬ held name
  asked : askedGroups spec = [] ∨ ∃ name ∈ askedGroups spec, held name

namespace Registry

variable (registry : Registry) (groups : Finset ℤ) (limited : ℤ → Bool)

/-- What is held on a record: the groups that are held everywhere, and those of the limited ones that
are held there. -/
def HeldOn (there : Set ℤ) (name : String) : Prop :=
  ∃ id, registry.heldGroup groups name = some id ∧ (limited id = true → id ∈ there)

variable {registry groups limited}

/-- The groups that are held of some names. -/
lemma mem_held {names : List String} {id : ℤ} :
    id ∈ names.filterMap (registry.heldGroup groups) ↔
      ∃ name ∈ names, registry.heldGroup groups name = some id := List.mem_filterMap

/-- What is held everywhere is held on every record. -/
lemma heldOn_of_unlimited {there : Set ℤ} {name : String} {id : ℤ}
    (h : registry.heldGroup groups name = some id) (hid : limited id = false) :
    registry.HeldOn groups limited there name :=
  ⟨id, h, fun hlimited => absurd hlimited (by simp [hid])⟩

/-- What is held on a record is held at all. -/
lemma HeldOn.mem_held {there : Set ℤ} {name : String} {names : List String}
    (h : registry.HeldOn groups limited there name) (hname : name ∈ names) :
    names.filterMap (registry.heldGroup groups) ≠ [] := by
  obtain ⟨id, hid, -⟩ := h
  exact List.ne_nil_of_mem (Registry.mem_held.mpr ⟨name, hname, hid⟩)

/-- **The verdict on a field's groups is sound**: it is the verdict of the spec on every record,
whichever of the groups that are limited to some companies are held there. -/
theorem fieldReadable_sound {field : Field} {spec : String} {v : Bool}
    (hspec : field.groups = some spec)
    (h : registry.fieldReadable field groups limited = .ok v) (there : Set ℤ) :
    v = true ↔ HasGroups (registry.HeldOn groups limited there) spec := by
  obtain ⟨-, -, h⟩ := bind_eq_ok.mp h
  rw [hspec] at h
  split at h
  · next hnone => cases hnone
  · next hpoint =>
      obtain rfl := Option.some.inj hpoint
      obtain rfl := Except.ok.inj h
      simpa using fun h : HasGroups _ _ => h.notPoint rfl
  · next spec' hpoint hspec' =>
      obtain rfl := Option.some.inj hspec'
      have hne : spec ≠ "." := by
        rintro rfl
        exact hpoint rfl
      let heldOf := fun names : List String => names.filterMap (registry.heldGroup groups)
      change (if (askedGroups spec).isEmpty && (negatedGroups spec).isEmpty then .ok false
        else if (heldOf (negatedGroups spec)).any (!limited ·) then .ok false
        else if !(askedGroups spec).isEmpty && (heldOf (askedGroups spec)).isEmpty then .ok false
        else if !(heldOf (negatedGroups spec)).isEmpty
          || (!(askedGroups spec).isEmpty && (heldOf (askedGroups spec)).all limited) then refuse _
        else .ok true) = Except.ok v at h
      split_ifs at h with hempty hdenied hnone hrecord
      · -- a spec without a name
        obtain rfl := Except.ok.inj h
        simp only [Bool.and_eq_true, List.isEmpty_iff] at hempty
        simpa using fun h : HasGroups _ _ => h.named.elim (absurd hempty.2) (absurd hempty.1)
      · -- a negated name is held everywhere
        obtain rfl := Except.ok.inj h
        obtain ⟨id, hid, hlimited⟩ := List.any_eq_true.mp hdenied
        obtain ⟨name, hname, hheld⟩ := mem_held.mp hid
        have hhere : registry.HeldOn groups limited there name :=
          heldOn_of_unlimited hheld (by simpa using hlimited)
        simpa using fun h : HasGroups _ _ => h.negated name hname hhere
      · -- none of the names that are asked for is held
        obtain rfl := Except.ok.inj h
        simp only [Bool.and_eq_true, Bool.not_eq_true', List.isEmpty_iff, List.isEmpty_eq_false_iff]
          at hnone
        refine ⟨fun h => by simp at h, fun h => ?_⟩
        obtain ⟨name, hname, hheld⟩ := h.asked.resolve_left hnone.1
        exact absurd hnone.2 (hheld.mem_held hname)
      · simp at h
      · -- none of the negated names is held, and one of the others is held everywhere
        obtain rfl := Except.ok.inj h
        simp only [Bool.or_eq_true, Bool.and_eq_true, Bool.not_eq_true', List.isEmpty_eq_false_iff,
          not_or, not_and, not_not] at hrecord
        obtain ⟨hnegated, hasked⟩ := hrecord
        refine iff_of_true rfl ⟨hne, ?_, fun name hname hheld => ?_, ?_⟩
        · simp only [Bool.and_eq_true, List.isEmpty_iff, not_and] at hempty
          by_cases hnames : askedGroups spec = []
          · exact .inl (hempty hnames)
          · exact .inr hnames
        · exact hheld.mem_held hname hnegated
        · by_cases hnames : askedGroups spec = []
          · exact .inl hnames
          · have hsome := hasked hnames
            rw [List.all_eq_true, not_forall] at hsome
            obtain ⟨id, hid⟩ := hsome
            obtain ⟨hmem, hunlimited⟩ := Classical.not_imp.mp hid
            obtain ⟨name, hname, hheld⟩ := mem_held.mp hmem
            exact .inr ⟨name, hname, heldOn_of_unlimited hheld (by simpa using hunlimited)⟩

/-- A field for managers and officers, and no portal users. -/
def managersOnly : Field :=
  { Field.column "salary" .Float "float8" none with
    groups := some "hr.manager,hr.officer,!base.portal" }

/-- A registry that knows the three groups. -/
def withGroups : Registry :=
  { plainRegistry [] with groupIds := [("hr.manager", 4), ("hr.officer", 7), ("base.portal", 9)] }

/-- Only the officers' group is limited to some companies. -/
def officersLimited (id : ℤ) : Bool := id = 7

/-- A manager of every company who is an officer of some reads it, on a record of no company and on a
record of a company where she is an officer; an officer of some companies only is refused. -/
theorem manager_reads : withGroups.fieldReadable managersOnly {4, 7} officersLimited = .ok true ∧
    HasGroups (withGroups.HeldOn {4, 7} officersLimited ∅) "hr.manager,hr.officer,!base.portal" ∧
    HasGroups (withGroups.HeldOn {4, 7} officersLimited {7}) "hr.manager,hr.officer,!base.portal" ∧
    (withGroups.fieldReadable managersOnly {7} officersLimited).isOk = false := by
  have hread : withGroups.fieldReadable managersOnly {4, 7} officersLimited = .ok true := by
    decide +kernel
  have hspec : managersOnly.groups = some "hr.manager,hr.officer,!base.portal" := rfl
  exact ⟨hread, (fieldReadable_sound hspec hread ∅).mp rfl,
    (fieldReadable_sound hspec hread {7}).mp rfl, by decide +kernel⟩

end Registry

end OdooKernel
