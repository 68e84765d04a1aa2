import OdooKernel.Compile.Membership
import OdooKernel.Core.Scattered

/-!
# The trigram accelerator loses no row

A row of a translated column is found in its own translation, and the index looks in the text of all
of them: another text, in which the same runs of characters stand in the same order.  The compiler
puts the condition that the index answers in front of the one that is asked; this module says that
the rows are the same with it and without.

**Runs.**  A pattern has runs of characters that stand for themselves.  They stand in what matches
it, one after the other (`likeChars_runs`), and the pattern made of some runs matches what they stand
in (`scattered_likeChars`).  So it is enough that a run of one text is a run of the other.

**From one text to the other.**  A translation stands in the text of all of them as JSON escapes it,
which replaces some characters by others and leaves the rest in their order (`blurs_escaped`); the
runs that are asked of the index have no character that JSON escapes.  Both are compared without
accents and in lower case, where the operator says so (`folded`).

* `scattered_arrayText` — what stands in a translation stands in the text of all translations.
* `conjunct_selects`, `longRuns_scattered` — the conjunct, and the runs that it asks for.
* **`Compiler.accelerator_exact`** — the conjuncts that the index answers change nothing.
-/

namespace OdooKernel

/-! ## Patterns and their runs -/

attribute [local simp] likeChars literalRuns

lemma likeChars_percent {pattern text : List Char} :
    likeChars ('%' :: pattern) text = true ↔ ∃ before after, text = before ++ after ∧
      likeChars pattern after = true := by
  simp only [likeChars, List.any_eq_true, List.mem_tails]
  constructor
  · rintro ⟨after, ⟨before, rfl⟩, h⟩
    exact ⟨before, after, rfl, h⟩
  · rintro ⟨before, after, rfl, h⟩
    exact ⟨after, ⟨before, rfl⟩, h⟩

/-- A character that stands for itself in a pattern. -/
def isLiteral (c : Char) : Prop := c ≠ '%' ∧ c ≠ '_' ∧ c ≠ '\\'

lemma likeChars_literal {c : Char} (hc : isLiteral c) {pattern text : List Char} :
    likeChars (c :: pattern) text = true ↔ ∃ after, text = c :: after ∧
      likeChars pattern after = true := by
  obtain ⟨hpercent, hany, hescape⟩ := hc
  have heq : likeChars (c :: pattern) text =
      text.head?.any fun d => d = c && likeChars pattern text.tail := by
    rw [likeChars.eq_def]
    split
    · next h => cases h
    · next h => exact absurd (List.cons.inj h).1 hpercent
    · next h => exact absurd (List.cons.inj h).1 hany
    · next h => exact absurd (List.cons.inj h).1 hescape
    · next h => exact absurd (List.cons.inj h).1 hescape
    · next h =>
        obtain ⟨rfl, rfl⟩ := List.cons.inj h
        split <;> rfl
  rw [heq]
  cases text with
  | nil => simp
  | cons d text =>
      rw [List.head?_cons, Option.any_some, List.tail_cons]
      simp only [Bool.and_eq_true, decide_eq_true_eq, List.cons.injEq]
      constructor
      · rintro ⟨rfl, h⟩
        exact ⟨text, ⟨rfl, rfl⟩, h⟩
      · rintro ⟨after, ⟨rfl, rfl⟩, h⟩
        exact ⟨rfl, h⟩

/-- The runs of a pattern without escapes: the first one goes on from the one that is open. -/
lemma literalRuns_open {pattern : List Char} (hpattern : ∀ c ∈ pattern, c ≠ '\\') :
    ∀ run, ∃ first rest, literalRuns run pattern = (run.reverse ++ first) :: rest ∧
      literalRuns [] pattern = first :: rest := by
  induction pattern with
  | nil => exact fun run => ⟨[], [], by simp, by simp⟩
  | cons c pattern ih =>
      rw [List.forall_mem_cons] at hpattern
      have hstep : ∀ run, literalRuns run (c :: pattern) =
          if c = '_' ∨ c = '%' ∨ (c = '\n' ∧ pattern = []) then run.reverse :: literalRuns [] pattern
          else literalRuns (c :: run) pattern := by
        intro run
        rw [literalRuns]
        · exact fun h => absurd h hpattern.1
        · exact fun _ _ h => absurd h hpattern.1
      intro run
      rw [hstep run, hstep []]
      split_ifs
      · exact ⟨[], literalRuns [] pattern, by simp, rfl⟩
      · obtain ⟨first, rest, hrun, hnil⟩ := ih hpattern.2 (c :: run)
        obtain ⟨first', rest', hrun', hnil'⟩ := ih hpattern.2 [c]
        rw [hnil] at hnil'
        cases hnil'
        exact ⟨c :: first, rest, by simpa using hrun, by simpa using hrun'⟩

lemma likeChars_any {pattern text : List Char} :
    likeChars ('_' :: pattern) text = true ↔ ∃ d after, text = d :: after ∧
      likeChars pattern after = true := by
  cases text with
  | nil => simp
  | cons d text =>
      simp only [likeChars, List.cons.injEq]
      constructor
      · intro h
        exact ⟨d, text, ⟨rfl, rfl⟩, h⟩
      · rintro ⟨_, _, ⟨rfl, rfl⟩, h⟩
        exact h

/-- A character of a pattern without escapes and line ends. -/
def isUnescaped (c : Char) : Prop := c ≠ '\\' ∧ c ≠ '\n'

lemma literalRuns_wildcard {c : Char} (hc : c = '%' ∨ c = '_') (run pattern : List Char) :
    literalRuns run (c :: pattern) = run.reverse :: literalRuns [] pattern := by
  rcases hc with rfl | rfl <;> simp

lemma literalRuns_literal {c : Char} (hc : isLiteral c) (hline : c ≠ '\n')
    {pattern first : List Char} {rest : List (List Char)} (hpattern : ∀ c ∈ pattern, c ≠ '\\')
    (h : literalRuns [] pattern = first :: rest) :
    literalRuns [] (c :: pattern) = (c :: first) :: rest := by
  obtain ⟨hpercent, hany, hescape⟩ := hc
  have hstep : literalRuns [] (c :: pattern) = literalRuns [c] pattern := by
    rw [literalRuns]
    · simp [hpercent, hany, hline]
    · exact fun h => absurd h hescape
    · exact fun _ _ h => absurd h hescape
  obtain ⟨first', rest', hrun, hnil⟩ := literalRuns_open hpattern [c]
  rw [h] at hnil
  cases hnil
  rw [hstep, hrun]
  rfl

/-- **The runs of a pattern stand in what matches it**, the first one at its start. -/
lemma likeChars_runs {pattern : List Char} (hpattern : ∀ c ∈ pattern, isUnescaped c) :
    ∀ {text : List Char}, likeChars pattern text = true → ∃ first rest after,
      literalRuns [] pattern = first :: rest ∧ text = first ++ after ∧ Scattered rest after := by
  induction pattern with
  | nil =>
      intro text h
      simp only [likeChars, List.isEmpty_iff] at h
      exact ⟨[], [], [], by simp, by simp [h], trivial⟩
  | cons c pattern ih =>
      intro text hmatch
      rw [List.forall_mem_cons] at hpattern
      by_cases hpercent : c = '%'
      · subst hpercent
        obtain ⟨before, after, rfl, h⟩ := likeChars_percent.mp hmatch
        obtain ⟨first, rest, last, hruns, rfl, hrest⟩ := ih hpattern.2 h
        refine ⟨[], first :: rest, before ++ (first ++ last), ?_, rfl, before, last, by simp, hrest⟩
        rw [literalRuns_wildcard (.inl rfl), hruns]
        rfl
      by_cases hany : c = '_'
      · subst hany
        obtain ⟨d, after, rfl, h⟩ := likeChars_any.mp hmatch
        obtain ⟨first, rest, last, hruns, rfl, hrest⟩ := ih hpattern.2 h
        refine ⟨[], first :: rest, d :: (first ++ last), ?_, rfl, [d], last, by simp, hrest⟩
        rw [literalRuns_wildcard (.inr rfl), hruns]
        rfl
      have hliteral : isLiteral c := ⟨hpercent, hany, hpattern.1.1⟩
      obtain ⟨after, rfl, h⟩ := (likeChars_literal hliteral).mp hmatch
      obtain ⟨first, rest, last, hruns, rfl, hrest⟩ := ih hpattern.2 h
      exact ⟨c :: first, rest, last,
        literalRuns_literal hliteral hpattern.1.2 (fun d hd => (hpattern.2 d hd).1) hruns, rfl, hrest⟩

lemma likeChars_scattered {pattern text : List Char} (hpattern : ∀ c ∈ pattern, isUnescaped c)
    (h : likeChars pattern text = true) : Scattered (literalRuns [] pattern) text := by
  obtain ⟨first, rest, after, hruns, rfl, hrest⟩ := likeChars_runs hpattern h
  rw [hruns]
  exact ⟨[], after, rfl, hrest⟩

lemma literalRuns_percent_end {pattern : List Char} (hpattern : ∀ c ∈ pattern, isUnescaped c) :
    ∀ run, literalRuns run (pattern ++ ['%']) = literalRuns run pattern ++ [[]] := by
  induction pattern with
  | nil => simp
  | cons c pattern ih =>
      rw [List.forall_mem_cons] at hpattern
      obtain ⟨⟨hescape, hline⟩, hpattern⟩ := hpattern
      have hstep : ∀ run rest, literalRuns run (c :: rest) =
          if c = '_' ∨ c = '%' then run.reverse :: literalRuns [] rest
          else literalRuns (c :: run) rest := by
        intro run rest
        rw [literalRuns]
        · simp [hline]
        · exact fun h => absurd h hescape
        · exact fun _ _ h => absurd h hescape
      intro run
      rw [List.cons_append, hstep, hstep, ih hpattern, ih hpattern]
      split_ifs <;> rfl

/-- The runs of a pattern stand in what contains a match of it. -/
lemma likeChars_anywhere_scattered {pattern text : List Char}
    (hpattern : ∀ c ∈ pattern, isUnescaped c) (hmatch : likeChars (anywhere pattern) text = true) :
    Scattered (literalRuns [] pattern) text := by
  obtain ⟨before, after, rfl, h⟩ := likeChars_percent.mp hmatch
  have hend : ∀ c ∈ pattern ++ ['%'], isUnescaped c := by
    intro c hc
    rcases List.mem_append.mp hc with hc | hc
    · exact hpattern c hc
    · rw [List.mem_singleton.mp hc]
      exact ⟨by decide, by decide⟩
  have hruns := likeChars_scattered hend h
  rw [literalRuns_percent_end hpattern] at hruns
  exact (hruns.sublist (List.sublist_append_left _ _)).append_left before

/-! ## The pattern of some runs -/

/-- An escaped run matches itself. -/
lemma likeChars_escaped (run pattern text : List Char) :
    likeChars (escapeWildcards run ++ pattern) (run ++ text) = likeChars pattern text := by
  induction run with
  | nil => rfl
  | cons c run ih =>
      have hcons : escapeWildcards (c :: run) =
          (if c = '_' ∨ c = '%' ∨ c = '\\' then ['\\', c] else [c]) ++ escapeWildcards run := rfl
      rw [hcons]
      split_ifs with hspecial
      · simp [ih]
      · have hliteral : isLiteral c := ⟨by tauto, by tauto, by tauto⟩
        rw [Bool.eq_iff_iff, List.singleton_append, List.cons_append, List.cons_append,
          likeChars_literal hliteral, ← ih]
        simp

/-- The pattern of some runs, one after the other. -/
def runsPattern (runs : List (List Char)) : List Char :=
  (runs.flatMap fun run => '%' :: escapeWildcards run) ++ ['%']

/-- **The pattern of some runs matches what they stand in.** -/
lemma scattered_likeChars {runs : List (List Char)} : ∀ {text : List Char}, Scattered runs text →
    likeChars (runsPattern runs) text = true := by
  induction runs with
  | nil =>
      intro text _
      exact likeChars_percent.mpr ⟨text, [], by simp, by simp⟩
  | cons run runs ih =>
      rintro text ⟨before, after, rfl, hrest⟩
      rw [runsPattern, List.flatMap_cons, List.append_assoc, List.cons_append]
      refine likeChars_percent.mpr ⟨before, run ++ after, by simp, ?_⟩
      rw [likeChars_escaped]
      exact ih hrest

lemma anywhere_intercalate {runs : List (List Char)} (hne : runs ≠ []) :
    anywhere (['%'].intercalate (runs.map escapeWildcards)) = runsPattern runs := by
  induction runs with
  | nil => exact absurd rfl hne
  | cons run runs ih =>
      by_cases hlast : runs = []
      · subst hlast
        simp [anywhere, runsPattern]
      · have hrest := ih hlast
        rw [anywhere, runsPattern] at hrest ⊢
        rw [List.map_cons, List.intercalate_cons_of_ne_nil (by simpa using hlast), List.flatMap_cons,
          List.append_assoc ('%' :: escapeWildcards run), ← hrest]
        simp

/-! ## Characters as they are compared -/

/-- A printable character of ASCII that JSON writes as it is. -/
def isPlain (c : Char) : Bool := 32 ≤ c.toNat && c.toNat < 127 && c ≠ '"' && c ≠ '\\'

/-- A character as it is compared: without its accent, where accents are left out, and in lower case,
where the case does not matter. -/
def folded (server : Server) (insensitive unaccented : Bool) (c : Char) : List Char :=
  (if unaccented then server.unaccentChar c else [c]).map
    (if insensitive then server.lowerChar else id)

/-- A character of ASCII as it is compared. -/
def lowered (insensitive : Bool) (c : Char) : Char := if insensitive then c.toLower else c

lemma folded_ascii {server : Server} {c : Char} (hc : c.toNat < 128) (insensitive unaccented : Bool) :
    folded server insensitive unaccented c = [lowered insensitive c] := by
  cases insensitive <;> cases unaccented <;>
    simp [folded, lowered, server.unaccent_ascii c hc, server.lower_ascii c hc]

lemma flatMap_folded_ascii (server : Server) {cs : List Char} (hcs : ∀ c ∈ cs, c.toNat < 128)
    (insensitive unaccented : Bool) :
    cs.flatMap (folded server insensitive unaccented) = cs.map (lowered insensitive) := by
  induction cs with
  | nil => rfl
  | cons c cs ih =>
      rw [List.forall_mem_cons] at hcs
      rw [List.flatMap_cons, folded_ascii hcs.1, ih hcs.2]
      rfl

lemma isPlain_iff {c : Char} :
    isPlain c = true ↔ (32 ≤ c.toNat ∧ c.toNat < 127) ∧ c ≠ '"' ∧ c ≠ '\\' := by
  simp [isPlain, and_assoc]

lemma ascii_of_isPlain {c : Char} (h : isPlain c = true) : c.toNat < 128 := by
  have := (isPlain_iff.mp h).1
  omega

lemma toNat_lowered (insensitive : Bool) (c : Char) : (lowered insensitive c).toNat =
    if insensitive = true ∧ 65 ≤ c.toNat ∧ c.toNat ≤ 90 then c.toNat + 32 else c.toNat := by
  cases insensitive with
  | false => simp [lowered]
  | true => simp [lowered, toNat_toLower]

/-- A character that is no letter is the lower case of itself only. -/
lemma lowered_eq_iff {insensitive : Bool} {c d : Char} (hd : d.toNat < 65 ∨ 122 < d.toNat ∨
    (90 < d.toNat ∧ d.toNat < 97)) : lowered insensitive c = d ↔ c = d := by
  rw [char_eq_iff, char_eq_iff, toNat_lowered]
  split_ifs <;> omega

lemma isPlain_lowered {insensitive : Bool} {c : Char} :
    isPlain (lowered insensitive c) = true ↔ isPlain c = true := by
  rw [isPlain_iff, isPlain_iff, ne_eq, ne_eq, lowered_eq_iff (by decide), lowered_eq_iff (by decide),
    toNat_lowered]
  split_ifs
  · refine and_congr ?_ Iff.rfl
    omega
  · rfl

/-- The runs of a pattern in lower case. -/
lemma literalRuns_lowered (insensitive : Bool) {pattern : List Char}
    (hpattern : ∀ c ∈ pattern, isUnescaped c) : ∀ run,
    literalRuns (run.map (lowered insensitive)) (pattern.map (lowered insensitive)) =
      (literalRuns run pattern).map (List.map (lowered insensitive)) := by
  have hstep : ∀ (c : Char), isUnescaped c → ∀ run rest, literalRuns run (c :: rest) =
      if c = '_' ∨ c = '%' then run.reverse :: literalRuns [] rest
      else literalRuns (c :: run) rest := by
    rintro c ⟨hescape, hline⟩ run rest
    rw [literalRuns]
    · simp [hline]
    · exact fun h => absurd h hescape
    · exact fun _ _ h => absurd h hescape
  induction pattern with
  | nil => simp
  | cons c pattern ih =>
      rw [List.forall_mem_cons] at hpattern
      have hc : isUnescaped (lowered insensitive c) := by
        rw [isUnescaped, ne_eq, ne_eq, lowered_eq_iff (by decide), lowered_eq_iff (by decide)]
        exact hpattern.1
      have hany : lowered insensitive c = '_' ↔ c = '_' := lowered_eq_iff (by decide)
      have hpercent : lowered insensitive c = '%' ↔ c = '%' := lowered_eq_iff (by decide)
      intro run
      rw [List.map_cons, hstep _ hc, hstep _ hpattern.1]
      simp only [hany, hpercent]
      split_ifs
      · have hrest := ih hpattern.2 []
        rw [List.map_nil] at hrest
        rw [hrest, List.map_cons, List.map_reverse]
      · have hrest := ih hpattern.2 (c :: run)
        rwa [List.map_cons] at hrest

lemma escapeWildcards_lowered (insensitive : Bool) (run : List Char) :
    (escapeWildcards run).map (lowered insensitive) =
      escapeWildcards (run.map (lowered insensitive)) := by
  induction run with
  | nil => rfl
  | cons c run ih =>
      have hcons : ∀ (d : Char) ds, escapeWildcards (d :: ds) =
          (if d = '_' ∨ d = '%' ∨ d = '\\' then ['\\', d] else [d]) ++ escapeWildcards ds :=
        fun _ _ => rfl
      have hbackslash : lowered insensitive '\\' = '\\' := by
        rw [lowered_eq_iff (by decide)]
      have hany : lowered insensitive c = '_' ↔ c = '_' := lowered_eq_iff (by decide)
      have hpercent : lowered insensitive c = '%' ↔ c = '%' := lowered_eq_iff (by decide)
      have hescape : lowered insensitive c = '\\' ↔ c = '\\' := lowered_eq_iff (by decide)
      rw [List.map_cons, hcons, hcons, List.map_append, ih]
      simp only [hany, hpercent, hescape]
      split_ifs <;> simp [hbackslash]

lemma runsPattern_lowered (insensitive : Bool) (runs : List (List Char)) :
    (runsPattern runs).map (lowered insensitive) =
      runsPattern (runs.map (List.map (lowered insensitive))) := by
  have hpercent : lowered insensitive '%' = '%' := by
    rw [lowered_eq_iff (by decide)]
  rw [runsPattern, runsPattern, List.map_append, List.map_flatMap, List.flatMap_map]
  simp [hpercent, escapeWildcards_lowered]

lemma ascii_runsPattern {runs : List (List Char)} (h : ∀ run ∈ runs, ∀ c ∈ run, c.toNat < 128) :
    ∀ c ∈ runsPattern runs, c.toNat < 128 := by
  intro c hc
  rcases List.mem_append.mp hc with hc | hc
  · obtain ⟨run, hrun, hc⟩ := List.mem_flatMap.mp hc
    rcases List.mem_cons.mp hc with rfl | hc
    · decide
    · obtain ⟨d, hd, hc⟩ := List.mem_flatMap.mp hc
      have hascii := h run hrun d hd
      split_ifs at hc
      · rcases List.mem_pair.mp hc with rfl | rfl
        · decide
        · exact hascii
      · rwa [List.mem_singleton.mp hc]
  · rw [List.mem_singleton.mp hc]
    decide

/-! ## A translation in the text of all translations -/

/-- What JSON writes in another way is no plain character. -/
lemma jsonEscapeChar_cases (c : Char) :
    jsonEscapeChar c = [c] ∨ (isPlain c = false ∧ c.toNat < 128) := by
  unfold jsonEscapeChar
  split_ifs with hquote hescape hback hfeed hline hreturn htab hcontrol
  · subst hquote
    exact .inr (by decide)
  · subst hescape
    exact .inr (by decide)
  · exact .inr ⟨by simp [isPlain, hback], by omega⟩
  · exact .inr ⟨by simp [isPlain, hfeed], by omega⟩
  · subst hline
    exact .inr (by decide)
  · subst hreturn
    exact .inr (by decide)
  · subst htab
    exact .inr (by decide)
  · exact .inr ⟨by simp [isPlain]; omega, by omega⟩
  · exact .inl rfl

lemma jsonEscape_plain {cs : List Char} (hcs : ∀ c ∈ cs, isPlain c = true) : jsonEscape cs = cs := by
  induction cs with
  | nil => rfl
  | cons c cs ih =>
      rw [List.forall_mem_cons] at hcs
      have hc : jsonEscapeChar c = [c] := by
        rcases jsonEscapeChar_cases c with hc | ⟨hc, -⟩
        · exact hc
        · rw [hcs.1] at hc
          cases hc
      rw [jsonEscape, List.flatMap_cons, hc]
      exact congrArg (c :: ·) (ih hcs.2)

variable {server : Server} {insensitive unaccented unaccented' : Bool}

/-- A character as it is compared, and as it is compared in a text of JSON. -/
lemma blurs_escaped (server : Server)
    (h : unaccented = unaccented' ∨ (insensitive = false ∧ unaccented = false))
    (c : Char) : Blurs (isPlain · = true) (folded server insensitive unaccented c)
      ((jsonEscapeChar c).flatMap (folded server insensitive unaccented')) := by
  rcases jsonEscapeChar_cases c with hc | ⟨hplain, hascii⟩
  · rw [hc, List.flatMap_singleton]
    rcases h with rfl | ⟨rfl, rfl⟩
    · rfl
    · have hself : folded server false false c = [c] := rfl
      cases hplain : isPlain c with
      | true => rw [hself, folded_ascii (ascii_of_isPlain hplain)]; rfl
      | false =>
          rw [hself]
          simpa using Blurs.drop (by simp [hplain]) (folded server false unaccented' c) .nil
  · rw [folded_ascii hascii]
    have hdrop : ¬ isPlain (lowered insensitive c) = true := by
      rw [isPlain_lowered, hplain]
      exact Bool.false_ne_true
    have hblurs := fun new => @Blurs.drop _ (isPlain · = true) _ _ _ hdrop new .nil
    simpa using hblurs ((jsonEscapeChar c).flatMap (folded server insensitive unaccented'))

lemma infix_intercalate (sep : List Char) {x : List Char} : ∀ {xs : List (List Char)}, x ∈ xs →
    ∃ before after, sep.intercalate xs = before ++ x ++ after
  | [y], h => by
      rw [List.mem_singleton.mp h]
      exact ⟨[], [], by simp⟩
  | y :: z :: xs, h => by
      rw [List.intercalate_cons_cons]
      rcases List.mem_cons.mp h with rfl | h
      · exact ⟨[], sep ++ sep.intercalate (z :: xs), by simp⟩
      · obtain ⟨before, after, heq⟩ := infix_intercalate sep h
        exact ⟨y ++ sep ++ before, after, by simp [heq]⟩

lemma mem_texts (server : Server) {values : List Json} {j : Json} (h : j ∈ values) :
    j.text server ∈ Json.texts server values := by
  induction values with
  | nil => cases h
  | cons v values ih =>
      rw [Json.texts]
      rcases List.mem_cons.mp h with rfl | h
      · exact List.mem_cons_self
      · exact List.mem_cons_of_mem _ (ih h)

/-- A text stands in the text of a list as JSON escapes it. -/
lemma infix_arrayText (server : Server) {values : List Json} {t : String} (h : Json.string t ∈ values) :
    ∃ before after, (Json.array values).text server = before ++ jsonEscape t.toList ++ after := by
  obtain ⟨before, after, heq⟩ := infix_intercalate [',', ' '] (mem_texts server h)
  rw [Json.text, heq, Json.text, jsonQuoted]
  exact ⟨'[' :: before ++ ['"'], ['"'] ++ after ++ [']'], by simp⟩

/-- **What stands in a translation stands in the text of all translations.** -/
lemma scattered_arrayText
    (h : unaccented = unaccented' ∨ (insensitive = false ∧ unaccented = false)) {values : List Json}
    {t : String} (ht : Json.string t ∈ values) {pieces : List (List Char)}
    (hplain : ∀ piece ∈ pieces, ∀ c ∈ piece, isPlain c = true)
    (hpieces : Scattered pieces (t.toList.flatMap (folded server insensitive unaccented))) :
    Scattered pieces (((Json.array values).text server).flatMap
      (folded server insensitive unaccented')) := by
  obtain ⟨before, after, heq⟩ := infix_arrayText server ht
  have hblurs := Blurs.flatMap (blurs_escaped server h) t.toList
  rw [heq, List.flatMap_append, List.flatMap_append, jsonEscape, List.flatMap_assoc]
  exact ((hpieces.blurs hplain hblurs).append_left _).append_right _

/-! ## Matches -/

/-- A match, of texts without their accents where they are left out. -/
def likeWith (insensitive unaccented : Bool) (e : Expr) (pattern : List Char) : Predicate :=
  if unaccented then
    .like insensitive false (.unaccent e) (.unaccent (.val (.text (String.ofList pattern))))
  else .like insensitive false e (.val (.text (String.ofList pattern)))

variable {db : Database} {env : Env} {e : Expr} {pattern : List Char}

lemma flatMap_folded (cs : List Char) : cs.flatMap (folded server insensitive unaccented) =
    (if unaccented then cs.flatMap server.unaccentChar else cs).map
      (if insensitive then server.lowerChar else id) := by
  induction cs with
  | nil => cases unaccented <;> rfl
  | cons c cs ih =>
      rw [List.flatMap_cons, ih, folded]
      cases unaccented <;> simp

/-- **A match, on characters.** -/
lemma selects_likeWith (hpattern : ∀ c ∈ pattern, c.toNat < 128) :
    Selects db env (likeWith insensitive unaccented e pattern) ↔
      ∃ t, e.eval db env = some (.text t) ∧ likeChars (pattern.map (lowered insensitive))
        (t.toList.flatMap (folded db.server insensitive unaccented)) = true := by
  have hmatch : ∀ t, matchesPattern db.server insensitive
      (if unaccented then db.server.unaccent t else t)
      (if unaccented then db.server.unaccent (String.ofList pattern) else String.ofList pattern) =
        likeChars (pattern.map (lowered insensitive))
          (t.toList.flatMap (folded db.server insensitive unaccented)) := by
    intro t
    rw [← flatMap_folded_ascii db.server hpattern insensitive unaccented, flatMap_folded,
      flatMap_folded]
    cases unaccented <;> cases insensitive <;>
      simp [matchesPattern, Server.unaccent, Server.lower]
  cases he : e.eval db env with
  | none =>
      have heval : (likeWith insensitive unaccented e pattern).eval db env = none := by
        unfold likeWith
        cases unaccented <;>
          simp only [Bool.false_eq_true, if_false, if_true, Predicate.eval, Expr.eval, he] <;> rfl
      rw [Selects, heval]
      simp
  | some d =>
      cases d with
      | text t =>
          have heval : (likeWith insensitive unaccented e pattern).eval db env =
              some (matchesPattern db.server insensitive
                (if unaccented then db.server.unaccent t else t)
                (if unaccented then db.server.unaccent (String.ofList pattern)
                  else String.ofList pattern)) := by
            unfold likeWith
            cases unaccented <;>
              simp only [Bool.false_eq_true, if_false, if_true, Predicate.eval, Expr.eval, he] <;> rfl
          rw [Selects, heval]
          simp [hmatch]
      | _ =>
          have heval : (likeWith insensitive unaccented e pattern).eval db env = none := by
            unfold likeWith
            cases unaccented <;>
              simp only [Bool.false_eq_true, if_false, if_true, Predicate.eval, Expr.eval, he] <;> rfl
          rw [Selects, heval]
          simp

/-! ## The conjuncts -/

lemma isPlain_of_isExactOn {term : List Char} (h : isExactOn term = true) :
    ∀ c ∈ term, isPlain c = true := by
  intro c hc
  exact List.all_eq_true.mp h c hc

lemma isUnescaped_of_isPlain {c : Char} (h : isPlain c = true) : isUnescaped c := by
  obtain ⟨⟨hlow, -⟩, -, hescape⟩ := isPlain_iff.mp h
  refine ⟨hescape, ?_⟩
  rintro rfl
  exact absurd hlow (by decide)

/-- The runs are made of the characters of the pattern. -/
lemma mem_of_mem_literalRuns {term : List Char} (hterm : ∀ c ∈ term, isUnescaped c) :
    ∀ {run piece : List Char}, piece ∈ literalRuns run term → ∀ c ∈ piece, c ∈ run ∨ c ∈ term := by
  induction term with
  | nil =>
      intro run piece hpiece c hc
      rw [literalRuns, List.mem_singleton] at hpiece
      subst hpiece
      exact .inl (List.mem_reverse.mp hc)
  | cons d term ih =>
      rw [List.forall_mem_cons] at hterm
      obtain ⟨⟨hescape, hline⟩, hterm⟩ := hterm
      intro run piece hpiece c hc
      rw [literalRuns] at hpiece
      · split_ifs at hpiece
        · rcases List.mem_cons.mp hpiece with rfl | hpiece
          · exact .inl (List.mem_reverse.mp hc)
          · rcases ih hterm hpiece c hc with hc | hc
            · cases hc
            · exact .inr (List.mem_cons_of_mem d hc)
        · rcases ih hterm hpiece c hc with hc | hc
          · rcases List.mem_cons.mp hc with rfl | hc
            · exact .inr List.mem_cons_self
            · exact .inl hc
          · exact .inr (List.mem_cons_of_mem d hc)
      · exact fun h => absurd h hescape
      · exact fun _ _ h => absurd h hescape

/-- The runs of a pattern that an index has trigrams of. -/
def longRuns (term : List Char) : List (List Char) :=
  (literalRuns [] term).filter (3 ≤ ·.length)

lemma isPlain_longRuns {term : List Char} (hterm : ∀ c ∈ term, isPlain c = true) :
    ∀ run ∈ longRuns term, ∀ c ∈ run, isPlain c = true := by
  intro run hrun c hc
  have hmem := mem_of_mem_literalRuns (fun c hc => isUnescaped_of_isPlain (hterm c hc))
    (List.mem_of_mem_filter hrun) c hc
  rcases hmem with hmem | hmem
  · cases hmem
  · exact hterm c hmem

/-- The pattern for the index is that of the long runs. -/
lemma patternToPattern_eq {term : List Char} (hterm : ∀ c ∈ term, isPlain c = true)
    (hne : patternToPattern term ≠ ['%']) : patternToPattern term = runsPattern (longRuns term) := by
  have hplain := isPlain_longRuns hterm
  have hescape : ((longRuns term).map fun run => escapeWildcards (jsonEscape run)) =
      (longRuns term).map escapeWildcards :=
    List.map_congr_left fun run hrun => by rw [jsonEscape_plain (hplain run hrun)]
  unfold patternToPattern at hne ⊢
  change (if ((longRuns term).map fun run => escapeWildcards (jsonEscape run)).isEmpty then ['%'] else _)
    ≠ _ at hne
  change (if ((longRuns term).map fun run => escapeWildcards (jsonEscape run)).isEmpty then ['%'] else
    anywhere (['%'].intercalate
      ((longRuns term).map fun run => escapeWildcards (jsonEscape run)))) = _
  rw [hescape] at hne ⊢
  split_ifs at hne ⊢ with hempty
  · exact absurd rfl hne
  · exact anywhere_intercalate (by simpa using hempty)

lemma valueToPattern_eq {term : List Char} (hterm : ∀ c ∈ term, isPlain c = true)
    (hne : valueToPattern term ≠ ['%']) : valueToPattern term = runsPattern [term] := by
  unfold valueToPattern at hne ⊢
  split_ifs at hne ⊢
  · exact absurd rfl hne
  · rw [jsonEscape_plain hterm]
    have hone := anywhere_intercalate (List.cons_ne_nil term [])
    rwa [List.map_singleton, List.intercalate_singleton] at hone

/-- A pattern that matches is matched in its long runs. -/
lemma longRuns_scattered {op : String} {raw : String} {text : List Char}
    (hraw : ∀ c ∈ raw.toList, isPlain c = true)
    (h : likeChars ((patternOf op raw).toList.map (lowered insensitive)) text = true) :
    Scattered ((longRuns raw.toList).map (List.map (lowered insensitive))) text := by
  have hunescaped : ∀ c ∈ raw.toList.map (lowered insensitive), isUnescaped c := by
    intro c hc
    obtain ⟨d, hd, rfl⟩ := List.mem_map.mp hc
    exact isUnescaped_of_isPlain (isPlain_lowered.mpr (hraw d hd))
  have hruns : Scattered (literalRuns [] (raw.toList.map (lowered insensitive))) text := by
    unfold patternOf at h
    split_ifs at h
    · exact likeChars_scattered hunescaped h
    · have hpercent : lowered insensitive '%' = '%' := by
        rw [lowered_eq_iff (by decide)]
      have hany : ("%" ++ raw ++ "%").toList.map (lowered insensitive) =
          anywhere (raw.toList.map (lowered insensitive)) := by
        simp [anywhere, hpercent]
      rw [hany] at h
      exact likeChars_anywhere_scattered hunescaped h
  have hlowered := literalRuns_lowered insensitive
    (fun c hc => isUnescaped_of_isPlain (hraw c hc)) []
  rw [List.map_nil] at hlowered
  rw [hlowered] at hruns
  exact hruns.sublist (List.filter_sublist.map _)

namespace Compiler

variable {c : Compiler} {f : Field} {fields : List (String × Json)}

variable (c env) in
/-- A translated field of texts, and a row with some translations. -/
structure Translations (f : Field) (fields : List (String × Json)) : Prop where
  text : f.ttype.isText = true
  translated : f.translated = true
  ownColumn : f.companyDependent = false
  column : env c.aliasName f.name = some (.json (.object fields))
  strings : ∀ p ∈ fields, ∃ s, p.2 = .string s

namespace Translations

/-- The translation in the language, or in the one that is always there, is one of them. -/
lemma mem_values (h : c.Translations env f fields)
    (he : Yields (c.ctx.fieldExpr c.model f c.aliasName) e) {t : String}
    (ht : e.eval db env = some (.text t)) : Json.string t ∈ (Json.object fields).values := by
  have hexpr : e = .translation (.col c.aliasName f.name) c.ctx.lang := by
    unfold ExprCtx.fieldExpr at he
    cases hcolumn : f.hasColumn with
    | false => simp [hcolumn] at he
    | true =>
        simp only [hcolumn, Bool.not_true, Bool.false_eq_true, if_false, h.ownColumn, h.translated,
          if_true] at he
        obtain ⟨-, -, he⟩ := yields_bind.mp he
        exact (yields_pure.mp he).symm
  have hat : ∀ key, ((Json.object fields).at? key).bind (Json.unquoted db.server) = some t →
      Json.string t ∈ (Json.object fields).values := by
    intro key hkey
    obtain ⟨v, hv, hunquoted⟩ := Option.bind_eq_some_iff.mp hkey
    obtain ⟨p, hp, rfl⟩ := Option.map_eq_some_iff.mp hv
    obtain ⟨s, hs⟩ := h.strings p (List.mem_of_find?_eq_some hp)
    rw [hs, Json.unquoted, Option.some.injEq] at hunquoted
    rw [← hunquoted, ← hs]
    exact List.mem_map_of_mem (List.mem_of_find?_eq_some hp)
  rw [hexpr, Expr.eval, Expr.eval, h.column, translate, coalesce] at ht
  cases hown : textDatum (((Json.object fields).at? c.ctx.lang).bind (Json.unquoted db.server)) with
  | some d =>
      rw [hown, Option.orElse_some, Option.some.injEq] at ht
      obtain ⟨s, hs, hd⟩ := Option.map_eq_some_iff.mp hown
      rw [ht] at hd
      cases hd
      exact hat _ hs
  | none =>
      rw [hown, Option.orElse_none] at ht
      obtain ⟨s, hs, hd⟩ := Option.map_eq_some_iff.mp ht
      cases hd
      exact hat _ hs

/-- What is compared with the index's pattern. -/
lemma eval_pathTexts (h : c.Translations env f fields) :
    (Expr.pathTexts (.col c.aliasName f.name)).eval db env =
      some (.text (String.ofList ((Json.array (Json.object fields).values).text db.server))) := by
  rw [Expr.eval, Expr.eval, h.column]

end Translations

/-- The operators that a pattern is found with. -/
def findsPattern (op : String) : Bool := op ∈ ["like", "ilike", "=like", "=ilike"]

/-- The conjunct that the index answers. -/
lemma trigramConjunct_yields {pattern : List Char} {a : Predicate}
    (h : Yields (c.trigramConjunct f pattern insensitive) a) :
    a = likeWith insensitive c.ctx.registry.hasUnaccent (.pathTexts (.col c.aliasName f.name)) pattern := by
  obtain ⟨-, -, h⟩ := yields_bind.mp h
  exact (yields_pure.mp h).symm

/-- **The conjunct matches what has the runs of its pattern** in a translation. -/
lemma conjunct_selects (h : c.Translations env f fields) {runs : List (List Char)}
    (hruns : ∀ run ∈ runs, ∀ x ∈ run, isPlain x = true) {t : String}
    (ht : Json.string t ∈ (Json.object fields).values)
    (hfold : unaccented = c.ctx.registry.hasUnaccent ∨ (insensitive = false ∧ unaccented = false))
    (hscattered : Scattered (runs.map (List.map (lowered insensitive)))
      (t.toList.flatMap (folded db.server insensitive unaccented))) :
    Selects db env (likeWith insensitive c.ctx.registry.hasUnaccent
      (.pathTexts (.col c.aliasName f.name)) (runsPattern runs)) := by
  have hascii : ∀ x ∈ runsPattern runs, x.toNat < 128 :=
    ascii_runsPattern fun run hrun x hx => ascii_of_isPlain (hruns run hrun x hx)
  have hplain : ∀ piece ∈ runs.map (List.map (lowered insensitive)), ∀ x ∈ piece, isPlain x = true := by
    intro piece hpiece x hx
    obtain ⟨run, hrun, rfl⟩ := List.mem_map.mp hpiece
    obtain ⟨y, hy, rfl⟩ := List.mem_map.mp hx
    exact isPlain_lowered.mpr (hruns run hrun y hy)
  refine (selects_likeWith hascii).mpr ⟨_, h.eval_pathTexts, ?_⟩
  rw [runsPattern_lowered, String.toList_ofList]
  exact scattered_likeChars (scattered_arrayText hfold ht hplain hscattered)

lemma not_negative {op : String} (hop : findsPattern op = true) :
    startsWith "not " op = false ∧ endsWith "like" op = true := by
  simp only [findsPattern, List.mem_cons, List.not_mem_nil, or_false, decide_eq_true_eq] at hop
  rcases hop with rfl | rfl | rfl | rfl <;> decide +kernel

lemma likeExpr_eq {op : String} (hop : findsPattern op = true) (hasUnaccent : Bool) (pattern : String) :
    likeExpr hasUnaccent op e pattern =
      likeWith (endsWith "ilike" op) (endsWith "ilike" op && hasUnaccent) e pattern.toList := by
  unfold likeExpr likeWith
  rw [(not_negative hop).1, String.ofList_toList]
  cases endsWith "ilike" op <;> cases hasUnaccent <;> rfl

/-- A pattern that finds the translation finds it in all of them. -/
lemma accelerator_of_match (h : c.Translations env f fields)
    (he : Yields (c.ctx.fieldExpr c.model f c.aliasName) e) {op raw : String}
    (hop : findsPattern op = true) {a : Predicate}
    (ha : Yields (c.trigramAccelerator f op raw) (some a))
    (hmatch : Selects db env (likeExpr c.ctx.registry.hasUnaccent op e (patternOf op raw))) :
    Selects db env a := by
  simp only [trigramAccelerator] at ha
  split_ifs at ha with hnone hwild
  · cases yields_pure.mp ha
  · cases yields_pure.mp ha
  · have hexact : isExactOn raw.toList = true := by
      by_contra hinexact
      exact hnone (by simp [hinexact])
    have hraw := isPlain_of_isExactOn hexact
    rw [← bind_pure_comp] at ha
    obtain ⟨a', ha', ha⟩ := yields_bind.mp ha
    cases yields_pure.mp ha
    rw [trigramConjunct_yields ha', patternToPattern_eq hraw hwild]
    have hascii : ∀ x ∈ (patternOf op raw).toList, x.toNat < 128 := by
      intro x hx
      unfold patternOf at hx
      split_ifs at hx
      · exact ascii_of_isPlain (hraw x hx)
      · simp only [String.toList_append, List.mem_append] at hx
        rcases hx with (hx | hx) | hx
        · rw [List.mem_singleton.mp hx]
          decide
        · exact ascii_of_isPlain (hraw x hx)
        · rw [List.mem_singleton.mp hx]
          decide
    rw [likeExpr_eq hop, selects_likeWith hascii] at hmatch
    obtain ⟨t, ht, hmatch⟩ := hmatch
    refine conjunct_selects h (isPlain_longRuns hraw) (h.mem_values he ht) ?_
      (longRuns_scattered hraw hmatch)
    cases endsWith "ilike" op <;> simp

/-- A value that is the translation is found in all of them. -/
lemma accelerator_of_value (h : c.Translations env f fields)
    (he : Yields (c.ctx.fieldExpr c.model f c.aliasName) e) {one : String} {a : Predicate}
    (ha : Yields (c.trigramAcceleratorForValue f [.string one]) (some a))
    (hvalue : e.eval db env = some (.text one)) : Selects db env a := by
  simp only [trigramAcceleratorForValue] at ha
  split_ifs at ha with hnone hwild
  · cases yields_pure.mp ha
  · cases yields_pure.mp ha
  · have hexact : isExactOn one.toList = true := by
      by_contra hinexact
      exact hnone (by simp [hinexact])
    have hone := isPlain_of_isExactOn hexact
    rw [← bind_pure_comp] at ha
    obtain ⟨a', ha', ha⟩ := yields_bind.mp ha
    cases yields_pure.mp ha
    rw [trigramConjunct_yields ha', valueToPattern_eq hone hwild]
    refine conjunct_selects h (by simpa using hone) (h.mem_values he hvalue) (.inr ⟨rfl, rfl⟩) ?_
    have hsame : lowered false = id := rfl
    rw [flatMap_folded, hsame]
    exact ⟨[], [], by simp, trivial⟩

/-- What is compared with a text is that text. -/
lemma compared_text (htext : f.ttype.isText = true) {one : String} {d : Datum}
    (h : Compared f [.string one] (some d)) : d = .text one := by
  have hparams : (memberParams f [.string one]).1 = [.string one] := by
    unfold memberParams
    cases f.falsyJson with
    | none => rfl
    | some falsy =>
        simp only [isNullLike, Bool.not_false, List.filter_cons_of_pos, List.filter_nil]
        split_ifs <;> simp_all
  rcases h with ⟨v, hv, d', hd, x, hx, heq⟩ | ⟨-, hnone⟩
  · rw [hparams, List.mem_singleton] at hv
    subst hv
    cases hd
    have hx' : x = .text one := by
      cases ht : f.ttype <;> simp_all [FieldType.isText, toValue]
    subst hx'
    simpa [Datum.equals, Datum.toRat?] using heq
  · cases hnone

/-- **The trigram accelerator loses no row.** -/
theorem accelerator_exact (db : Database) (h : c.Translations env f fields)
    (he : Yields (c.ctx.fieldExpr c.model f c.aliasName) e) :
    (∀ op raw canBeNull p, findsPattern op = true →
      Yields (c.likeCondition f e op (.string raw) canBeNull) p →
        (Selects db env p ↔
          Selects db env (likeExpr c.ctx.registry.hasUnaccent op e (patternOf op raw)))) ∧
    ∀ one canBeNull p acc, inCondition f e "in" [.string one] canBeNull = .ok p →
      Yields (c.trigramAcceleratorForValue f [.string one]) acc → e.eval db env ≠ none →
        (Selects db env (accelerated acc p) ↔ Selects db env p) := by
  constructor
  · intro op raw canBeNull p hop hp
    obtain ⟨acc, hacc, hp⟩ := yields_bind.mp hp
    have htext : patternText f e = e := by
      rw [patternText, if_pos h.text]
    rw [htext, (not_negative hop).1, Bool.false_and, if_neg Bool.false_ne_true] at hp
    obtain rfl := yields_pure.mp hp
    cases acc with
    | none => rfl
    | some a =>
        rw [accelerated, selects_and]
        exact and_iff_right_of_imp (accelerator_of_match h he hop hacc)
  · intro one canBeNull p acc hp hacc hsome
    cases acc with
    | none => rfl
    | some a =>
        rw [accelerated, selects_and]
        refine and_iff_right_of_imp fun hselects => accelerator_of_value h he hacc ?_
        rw [inCondition_selects (.inl rfl) hp fun _ => hsome] at hselects
        obtain ⟨d, hd⟩ := Option.ne_none_iff_exists'.mp hsome
        have hcompared := hselects.mp rfl
        rw [hd] at hcompared ⊢
        rw [compared_text h.text hcompared]

end Compiler

/-! ## A product in two languages -/

namespace Products

/-- A name in each language, with a trigram index. -/
def title : Field :=
  { Field.column "name" .Char "jsonb" (some (.string "")) with
    translated := true
    index := some "trigram" }

def product : Model := plainModel "product" "product" [("name", title)]

/-- A request in French, to a server with `unaccent`. -/
def compiler : Compiler :=
  .root
    { ExprCtx.plain { plainRegistry [("product", product)] with hasUnaccent := true, hasTrigram := true }
        (Security.plain [] []) none with
      lang := "fr_FR" }
    product .empty true

def database : Database where
  table _ := []
  fragment _ := []
  server := .plain

def names : List (String × Json) :=
  [("en_US", .string "Black \"coffee\""), ("fr_FR", .string "Noir intense")]

def row : Env := fun _ _ => some (.json (.object names))

lemma translations : compiler.Translations row title names where
  text := rfl
  translated := rfl
  ownColumn := rfl
  column := rfl
  strings := by
    intro p hp
    rcases List.mem_pair.mp hp with rfl | rfl
    · exact ⟨_, rfl⟩
    · exact ⟨_, rfl⟩

/-- The name as it is read. -/
def expr : Expr := .translation (.col "product" "name") "fr_FR"

/-- The index finds what is found in the request's language. -/
theorem noir_found : ∃ p acc,
    Yields (compiler.likeCondition title expr "ilike" (.string "n_ir%tense") true) p ∧
    Yields (compiler.trigramAcceleratorForValue title [.string "Noir intense"]) acc ∧
    (Selects database row p ↔ Selects database row
      (likeExpr compiler.ctx.registry.hasUnaccent "ilike" expr (patternOf "ilike" "n_ir%tense"))) ∧
    (Selects database row (Compiler.accelerated acc (.isIn expr [.text "Noir intense"])) ↔
      Selects database row (.isIn expr [.text "Noir intense"])) := by
  have hexpr : Yields (compiler.ctx.fieldExpr compiler.model title compiler.aliasName) expr := ⟨_, rfl⟩
  obtain ⟨p, hp⟩ := @yields_of_isOk _ (compiler.likeCondition title expr "ilike" (.string "n_ir%tense") true)
    (by decide +kernel)
  obtain ⟨acc, hacc⟩ := @yields_of_isOk _
    (compiler.trigramAcceleratorForValue title [.string "Noir intense"]) (by decide +kernel)
  obtain ⟨hlike, hvalue⟩ := Compiler.accelerator_exact database translations hexpr
  have hop : Compiler.findsPattern "ilike" = true := by decide
  have hin : inCondition title expr "in" [.string "Noir intense"] true =
      .ok (.isIn expr [.text "Noir intense"]) := rfl
  have hname : expr.eval database row ≠ none := by
    have heval : expr.eval database row = some (.text "Noir intense") := rfl
    rw [heval]
    exact Option.some_ne_none _
  exact ⟨p, acc, hp, hacc, hlike "ilike" "n_ir%tense" true p hop hp, hvalue _ true _ acc hin hacc hname⟩

end Products

end OdooKernel
