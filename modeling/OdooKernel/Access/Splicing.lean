import OdooKernel.Access.Security
import OdooKernel.Domain.World

/-!
# What spliced domains say

The splicing of access rows works on arrays of terms, and what an array means is said of its tokens.
This module takes the one to the other: the operations of `Access/Security` on arrays are the
operations of `Core/PrefixNotation` on tokens, and what they mean is read off there.

**One formula.**  An operator that is put in front of several arrays takes one formula from each, so
an array has to spell exactly one to be put there (`SpellsOne`).  Normalising makes one of any
well-formed array that is not empty, and each of the pieces that are put together has a lemma that
says what it admits.

* `map_token_normalizeDomain` — the normalisation of an array is the normalisation of its tokens.
* `spellsOne_normalize`, `spellsOne_joined_or`, `spellsOne_within` — the pieces.
* `orDomains_spec` — a disjunction of rows.
* `scopedDomain_permission`, `scopedDomain_guard` — a row narrowed to companies.
-/

namespace OdooKernel

open PrefixNotation

/-! ## Normalisation -/

/-- What an item does to the operands that are expected, its token does. -/
lemma normalizeStep_token (out : List (Tok Json)) (e : ℕ) (item : Json) :
    normalizeStep (out, e + 1) (token item)
      = (out ++ [token item], expectedAfter (e + 1) item) := by
  rcases token_eq_self_or item with rfl | rfl | rfl | h
  · rfl
  · rfl
  · rfl
  · have hafter : expectedAfter (e + 1) item = e := by
      unfold expectedAfter
      split <;> simp_all [token]
    rw [h, hafter]
    rfl

/-- One step of the normalisation on items and on tokens. -/
lemma map_token_normalizeDomainStep (acc : List Json × ℕ) (item : Json) :
    ((normalizeDomainStep acc item).1.map token, (normalizeDomainStep acc item).2)
      = normalizeStep (acc.1.map token, acc.2) (token item) := by
  obtain ⟨out, e⟩ := acc
  cases e with
  | zero =>
      have h := normalizeStep_token (.bin .and :: out.map token) 0 item
      simpa [normalizeDomainStep, normalizeStep, token] using h.symm
  | succ e =>
      have h := normalizeStep_token (out.map token) e item
      simpa [normalizeDomainStep] using h.symm

lemma map_token_foldl_normalizeDomainStep (items : List Json) (acc : List Json × ℕ) :
    ((items.foldl normalizeDomainStep acc).1.map token, (items.foldl normalizeDomainStep acc).2)
      = (items.map token).foldl normalizeStep (acc.1.map token, acc.2) := by
  induction items generalizing acc with
  | nil => rfl
  | cons item items ih =>
      rw [List.foldl_cons, ih, List.map_cons, List.foldl_cons, ← map_token_normalizeDomainStep]

/-- The normalisation of an array is the normalisation of its tokens. -/
lemma map_token_normalizeDomain (items : List Json) :
    (normalizeDomain items).map token = normalize (items.map token) :=
  congrArg Prod.fst (map_token_foldl_normalizeDomainStep items ([], 1))

lemma foldl_normalizeDomainStep_fst (items : List Json) (acc : List Json × ℕ) :
    ∃ k, (items.foldl normalizeDomainStep acc).1
      = List.replicate k (.string "&") ++ acc.1 ++ items := by
  induction items generalizing acc with
  | nil => exact ⟨0, by simp⟩
  | cons item items ih =>
      obtain ⟨k, hk⟩ := ih (normalizeDomainStep acc item)
      rw [List.foldl_cons, hk]
      by_cases hz : acc.2 = 0
      · exact ⟨k + 1, by simp [normalizeDomainStep, hz, List.replicate_succ']⟩
      · exact ⟨k, by simp [normalizeDomainStep, hz]⟩

/-- Normalisation only puts conjunctions in front. -/
lemma normalizeDomain_eq (items : List Json) :
    ∃ k, normalizeDomain items = List.replicate k (.string "&") ++ items := by
  simpa [normalizeDomain] using foldl_normalizeDomainStep_fst items ([], 1)

lemma onlyTerms_replicate {op : Json} (hop : token op ≠ .atom op) (k : ℕ) :
    OnlyTerms (List.replicate k op) := by
  intro item hitem htok
  rw [(List.mem_replicate.mp hitem).2] at htok
  exact absurd htok hop

@[simp] lemma onlyTerms_normalizeDomain {items : List Json} :
    OnlyTerms (normalizeDomain items) ↔ OnlyTerms items := by
  obtain ⟨k, hk⟩ := normalizeDomain_eq items
  rw [hk, onlyTerms_append]
  exact and_iff_right (onlyTerms_replicate (by simp [token]) k)

/-! ## Arrays that spell one formula -/

/-- The array spells one formula, which means `mean`. -/
def SpellsOne (items : List Json) (mean : (Leaf → Prop) → Prop) : Prop :=
  ∃ f, Spells items [f] ∧ ∀ v, f.Holds (termHolds v) ↔ mean v

lemma SpellsOne.wellFormed {items : List Json} {mean : (Leaf → Prop) → Prop}
    (h : SpellsOne items mean) : WellFormed items :=
  let ⟨f, hf, _⟩ := h; ⟨[f], hf⟩

lemma SpellsOne.admits_iff {items : List Json} {mean : (Leaf → Prop) → Prop}
    (h : SpellsOne items mean) (v : Leaf → Prop) : Admits v items ↔ mean v := by
  obtain ⟨f, hf, hmean⟩ := h
  rw [hf.admits_iff, allHold_cons, hmean]
  simp

lemma SpellsOne.congr {items : List Json} {mean mean' : (Leaf → Prop) → Prop}
    (h : SpellsOne items mean) (hs : ∀ v, mean v ↔ mean' v) : SpellsOne items mean' :=
  let ⟨f, hf, hmean⟩ := h; ⟨f, hf, fun v => (hmean v).trans (hs v)⟩

/-- A leaf by itself. -/
lemma spellsOne_term (field op : String) (value : Json) :
    SpellsOne [term field op value] fun v => v { field, op, value } :=
  ⟨.atom (term field op value), ⟨by simp [OnlyTerms, term, termOf], rfl⟩, fun v => by
    simp [Formula.Holds, termHolds, term, termOf, Term.Holds]⟩

/-- The constant FALSE. -/
lemma spellsOne_falseTerm : SpellsOne [falseTerm] fun _ => False :=
  ⟨.atom falseTerm, ⟨by simp [OnlyTerms, falseTerm, termOf, isOne, isZero, Number.toRat], rfl⟩,
    fun v => by
      simp [Formula.Holds, termHolds, falseTerm, termOf, isOne, isZero, Number.toRat, Term.Holds]⟩

/-- A negation in front. -/
lemma SpellsOne.not {items : List Json} {mean : (Leaf → Prop) → Prop} (h : SpellsOne items mean) :
    SpellsOne (.string "!" :: items) fun v => ¬ mean v := by
  obtain ⟨f, ⟨honly, hspell⟩, hmean⟩ := h
  refine ⟨.neg f, ⟨onlyTerms_cons.mpr ⟨nofun, honly⟩, ?_⟩, fun v => not_congr (hmean v)⟩
  simp [hspell, token, Formula.tokens]

/-- A conjunction in front of two. -/
lemma SpellsOne.and {items items' : List Json} {mean mean' : (Leaf → Prop) → Prop}
    (h : SpellsOne items mean) (h' : SpellsOne items' mean') :
    SpellsOne (.string "&" :: items ++ items') fun v => mean v ∧ mean' v := by
  obtain ⟨f, hf, hmean⟩ := h
  obtain ⟨g, hg, hmean'⟩ := h'
  refine ⟨.bin .and f g, ⟨?_, ?_⟩, fun v => and_congr (hmean v) (hmean' v)⟩
  · exact onlyTerms_cons.mpr ⟨nofun, onlyTerms_append.mpr ⟨hf.1, hg.1⟩⟩
  · simp [hf.2, hg.2, token, Formula.tokens]

/-- A disjunction in front of two. -/
lemma SpellsOne.or {items items' : List Json} {mean mean' : (Leaf → Prop) → Prop}
    (h : SpellsOne items mean) (h' : SpellsOne items' mean') :
    SpellsOne (.string "|" :: items ++ items') fun v => mean v ∨ mean' v := by
  obtain ⟨f, hf, hmean⟩ := h
  obtain ⟨g, hg, hmean'⟩ := h'
  refine ⟨.bin .or f g, ⟨?_, ?_⟩, fun v => or_congr (hmean v) (hmean' v)⟩
  · exact onlyTerms_cons.mpr ⟨nofun, onlyTerms_append.mpr ⟨hf.1, hg.1⟩⟩
  · simp [hf.2, hg.2, token, Formula.tokens]

/-- A well-formed array that is not empty, normalised, spells the one formula it admits. -/
lemma spellsOne_normalize {items : List Json} (hwf : WellFormed items) (hne : items ≠ []) :
    SpellsOne (normalizeDomain items) fun v => Admits v items := by
  obtain ⟨fs, hfs⟩ := hwf
  cases fs with
  | nil =>
      have : items.map token = [] := by simpa using hfs.2
      exact absurd (List.map_eq_nil_iff.mp this) hne
  | cons f fs =>
      refine ⟨joined .and f fs, ⟨onlyTerms_normalizeDomain.mpr hfs.1, ?_⟩, fun v => ?_⟩
      · rw [map_token_normalizeDomain, hfs.2, normalize_spell]; simp
      · rw [holds_joined_and, ← hfs.admits_iff]

lemma wellFormed_normalize {items : List Json} (hwf : WellFormed items) :
    WellFormed (normalizeDomain items) := by
  by_cases hne : items = []
  · subst hne; exact wellFormed_nil
  · exact (spellsOne_normalize hwf hne).wellFormed

@[simp] lemma normalizeDomain_nil : normalizeDomain [] = [] := rfl

lemma admits_normalize {items : List Json} (hwf : WellFormed items) (v : Leaf → Prop) :
    Admits v (normalizeDomain items) ↔ Admits v items := by
  by_cases hne : items = []
  · subst hne; simp
  · exact (spellsOne_normalize hwf hne).admits_iff v

/-! ## Disjunctions -/

/-- Arrays that spell one formula each, with the disjunctions in front. -/
lemma spellsOne_joined_or (domains : List (List Json)) (hne : domains ≠ [])
    (h : ∀ d ∈ domains, WellFormed d ∧ d ≠ []) :
    SpellsOne (List.replicate (domains.length - 1) (.string "|") ++ domains.flatMap normalizeDomain)
      fun v => ∃ d ∈ domains, Admits v d := by
  have hall : ∀ {domains : List (List Json)}, (∀ d ∈ domains, WellFormed d ∧ d ≠ []) →
      ∃ fs : List (Formula Json), fs.length = domains.length ∧
        Spells (domains.flatMap normalizeDomain) fs ∧
        ∀ v, (∃ f ∈ fs, f.Holds (termHolds v)) ↔ ∃ d ∈ domains, Admits v d := by
    intro domains
    induction domains with
    | nil => exact fun _ => ⟨[], rfl, spells_nil, by simp⟩
    | cons d ds ih =>
        intro h
        rw [List.forall_mem_cons] at h
        obtain ⟨fs, hlen, hfs, hmean⟩ := ih h.2
        obtain ⟨f, hf, hf'⟩ := spellsOne_normalize h.1.1 h.1.2
        refine ⟨f :: fs, by simp [hlen], ?_, fun v => ?_⟩
        · rw [List.flatMap_cons]; exact hf.append hfs
        · simp [hmean v, hf' v]
  obtain ⟨fs, hlen, ⟨honly, hspell⟩, hmean⟩ := hall h
  match fs, hlen with
  | [], hlen => exact absurd (List.length_eq_zero_iff.mp hlen.symm) hne
  | f :: fs, hlen =>
      refine ⟨joined .or f fs, ⟨?_, ?_⟩, fun v => by rw [holds_joined_or, hmean]⟩
      · exact onlyTerms_append.mpr ⟨onlyTerms_replicate (by simp [token]) _, honly⟩
      · have hk : domains.length - 1 = fs.length := by simp at hlen; omega
        simp [hk, hspell, tokens_joined, token]

/-- **The disjunction of well-formed domains** admits what one of them admits. -/
lemma orDomains_spec {domains : List Json} (h : ∀ d ∈ domains, WellFormed d.itemsOrEmpty) :
    WellFormed (orDomains domains).itemsOrEmpty ∧
      ∀ v, Admits v (orDomains domains).itemsOrEmpty ↔ ∃ d ∈ domains, Admits v d.itemsOrEmpty := by
  by_cases hempty : (domains.map Json.itemsOrEmpty).any List.isEmpty
  · have hor : (orDomains domains).itemsOrEmpty = [] := by
      rw [orDomains, if_pos hempty, Json.itemsOrEmpty_array]
    rw [hor]
    refine ⟨wellFormed_nil, fun v => ⟨fun _ => ?_, fun _ => admits_nil v⟩⟩
    obtain ⟨items, hmem, hnil⟩ := List.any_eq_true.mp hempty
    obtain ⟨d, hd, rfl⟩ := List.mem_map.mp hmem
    exact ⟨d, hd, by rw [List.isEmpty_iff.mp hnil]; exact admits_nil v⟩
  · cases domains with
    | nil =>
        have hfalse := spellsOne_falseTerm
        exact ⟨hfalse.wellFormed, fun v => by
          simpa [orDomains] using hfalse.admits_iff v⟩
    | cons d ds =>
        have hor : (orDomains (d :: ds)).itemsOrEmpty
            = List.replicate (((d :: ds).map Json.itemsOrEmpty).length - 1) (.string "|")
              ++ ((d :: ds).map Json.itemsOrEmpty).flatMap normalizeDomain := by
          rw [orDomains, if_neg hempty, if_neg (by simp), Json.itemsOrEmpty_array]
        have hone := spellsOne_joined_or ((d :: ds).map Json.itemsOrEmpty) (by simp) (by
          intro items hitems
          refine ⟨?_, ?_⟩
          · obtain ⟨d', hd', rfl⟩ := List.mem_map.mp hitems
            exact h d' hd'
          · rintro rfl
            exact hempty (List.any_eq_true.mpr ⟨[], hitems, rfl⟩))
        rw [hor]
        refine ⟨hone.wellFormed, fun v => ?_⟩
        rw [hone.admits_iff]
        simp

/-! ## Rows narrowed to companies -/

/-- The records of some companies, and the shared ones. -/
def WithinCompanies (v : Leaf → Prop) (anchor : String) (companies : List ℤ) : Prop :=
  v { field := anchor, op := "in", value := .ints companies } ∨
    (anchor ≠ "id" ∧ v { field := anchor, op := "=", value := .bool false })

lemma spellsOne_within (anchor : String) (companies : List ℤ) :
    SpellsOne (withinCompanies anchor companies) fun v => WithinCompanies v anchor companies := by
  unfold withinCompanies
  by_cases h : anchor = "id"
  · subst h
    exact (spellsOne_term "id" "in" _).congr fun v => by simp [WithinCompanies]
  · rw [if_neg h]
    exact ((spellsOne_term anchor "in" _).or (spellsOne_term anchor "=" _)).congr fun v => by
      simp [WithinCompanies, h]

/-- **A guard of the members** binds them within their companies. -/
lemma scopedDomain_guard {domain : Json} (hwf : WellFormed domain.itemsOrEmpty) (anchor : String)
    (companies : List ℤ) :
    WellFormed (scopedDomain domain anchor companies true).itemsOrEmpty ∧
      ∀ v, Admits v (scopedDomain domain anchor companies true).itemsOrEmpty ↔
        (WithinCompanies v anchor companies → Admits v domain.itemsOrEmpty) := by
  have hout := (spellsOne_within anchor companies).not
  have hboth : ∀ d ∈ [domain, .array (.string "!" :: withinCompanies anchor companies)],
      WellFormed d.itemsOrEmpty := by
    simpa using ⟨hwf, hout.wellFormed⟩
  have hspec := orDomains_spec hboth
  refine ⟨by simpa [scopedDomain] using hspec.1, fun v => ?_⟩
  have hv := hspec.2 v
  simp only [scopedDomain, if_true]
  rw [hv]
  simp only [List.mem_cons, List.not_mem_nil, or_false, exists_eq_or_imp, exists_eq_left]
  rw [Json.itemsOrEmpty_array, hout.admits_iff]
  tauto

/-- **A permission held in some companies** reaches their records and the shared ones. -/
lemma scopedDomain_permission {domain : Json} (hwf : WellFormed domain.itemsOrEmpty)
    (anchor : String) (companies : List ℤ) :
    WellFormed (scopedDomain domain anchor companies false).itemsOrEmpty ∧
      ∀ v, Admits v (scopedDomain domain anchor companies false).itemsOrEmpty ↔
        (Admits v domain.itemsOrEmpty ∧ WithinCompanies v anchor companies) := by
  have hin := spellsOne_within anchor companies
  by_cases hne : domain.itemsOrEmpty = []
  · have heq : (scopedDomain domain anchor companies false).itemsOrEmpty
        = withinCompanies anchor companies := by
      simp [scopedDomain, hne]
    rw [heq]
    exact ⟨hin.wellFormed, fun v => by rw [hin.admits_iff, hne]; simp⟩
  · have heq : (scopedDomain domain anchor companies false).itemsOrEmpty
        = .string "&" :: normalizeDomain domain.itemsOrEmpty ++ withinCompanies anchor companies := by
      simp only [scopedDomain, Bool.false_eq_true, if_false, List.isEmpty_iff, hne]
      rfl
    have hand := (spellsOne_normalize hwf hne).and hin
    rw [heq]
    exact ⟨hand.wellFormed, fun v => hand.admits_iff v⟩

end OdooKernel
