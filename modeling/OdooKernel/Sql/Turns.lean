import OdooKernel.Sql.Offsets
import OdooKernel.Sql.Scanning

/-!
# What the loops over the bytes of SQL return

`Sql/Scanning` has the loops of the source as they run, over bytes and offsets, and proves that they
return.  What every other result says of them is said of functions of characters (`rewrite`,
`toOdooDialect`, `leadingKeyword`, `statementLevelKeywords`, `hasBareKeyword`).  This module closes the
gap: a loop returns what its function says.

**One turn.**  A turn at the offset behind some characters is the reader's step at their end
(`leadingKeywordTurn_at`, `keywordsTurn_at`, `bareKeywordTurn_at`, `rewriteTurn_at`, `dialectTurn_at`):
the dictionary of `Sql/Offsets` takes the tests of bytes, the cuts and the regions to characters.

**The run.**  `position_induct` goes over the positions of a text from its end, and
`computes_again_iff` takes a result over a turn.  Each loop carries what it has so far, so that its
lemma is about any such state, and the theorem is the case where there is nothing yet.

**Inside a character.**  Only the search for a keyword looks at every byte.  It passes over the bytes
inside a character because a keyword starts with one of ASCII; the keywords that the source looks for
are capitals, and so are those of the theorem.

* **`loops_compute`** — the loops return what is said of the characters.
-/

namespace OdooKernel

namespace Bytes

/-! ## Positions -/

section Positions

variable {sql before cs : List Char} {c : Char} {b : UInt8}

/-- The character before a position behind a piece. -/
lemma getLast?_piece (before : List Char) (c : Char) (xs : List Char) :
    (before ++ c :: xs).getLast? = lastOr (some c) xs := by
  induction xs generalizing before c with
  | nil => simp [lastOr]
  | cons x xs ih =>
      have h := ih (before ++ [c]) x
      rwa [List.append_assoc] at h

/-- **A property of every position of a text**, from those further on. -/
lemma position_induct {motive : List Char → List Char → Prop} (hend : motive sql [])
    (hmore : ∀ before c cs, sql = before ++ c :: cs →
      (∀ piece rest, cs = piece ++ rest → motive (before ++ c :: piece) rest) →
      motive before (c :: cs))
    {before rest : List Char} (hsql : sql = before ++ rest) : motive before rest := by
  induction hlength : rest.length using Nat.strongRecOn generalizing before rest with
  | ind n ih =>
      cases rest with
      | nil =>
          rw [List.append_nil] at hsql
          exact hsql ▸ hend
      | cons c cs =>
          refine hmore before c cs hsql fun piece rest hcs => ?_
          subst hcs
          refine ih rest.length ?_ ?_ rfl
          · rw [← hlength, List.length_cons, List.length_append]
            omega
          · rw [hsql, List.append_assoc, List.cons_append]

/-- What a reader finds at a position, and behind it. -/
lemma scan_at {β : Type} {read : Scanner Char β} {n : ℕ} {a : β}
    (h : read before.getLast? c cs = (n, a)) :
    scan read 0 before.getLast? (c :: cs)
      = a :: scan read 0 (before ++ c :: cs.take n).getLast? (cs.drop n) := by
  rw [scan_cons, h, getLast?_piece]

/-- **A region at a position**, and the offset behind it. -/
lemma skipOpaque_eq (before : List Char) (c : Char) (cs : List Char) :
    skipOpaque (utf8 (before ++ c :: cs)) (utf8 before).length
      = (opaqueAt before.getLast? c cs).map
          fun o => (utf8 (before ++ c :: cs.take o.more)).length := by
  rw [skipOpaque, opaque?_eq, Option.map_map]
  rfl

/-- The offset behind a character of ASCII. -/
lemma length_ascii (hc : c.toNat < 0x80) (before : List Char) :
    (utf8 (before ++ [c])).length = (utf8 before).length + 1 := by
  rw [length_concat, utf8Size_ascii hc]

/-- A run of characters can be cut where it starts. -/
lemma slice?_run {p : UInt8 → Bool} {q : Char → Bool} (h : Agree p q) (before rest : List Char) :
    slice? (before ++ rest) (utf8 before).length
        (runEnd (utf8 (before ++ rest)) p (utf8 before).length)
      = some (rest.takeWhile q) := by
  rw [h.runEnd]
  have hslice := slice?_append before (rest.takeWhile q) (rest.dropWhile q)
  rwa [List.takeWhile_append_dropWhile] at hslice

/-- **The word at a position.** -/
lemma cutKeyword_eq (before rest : List Char) :
    cutKeyword (before ++ rest) (utf8 before).length
      = .done (asciiUpper (rest.takeWhile isIdentChar)) := by
  rw [cutKeyword, slice?_run agree_ident]

lemma isAsciiWhitespace_iff : isAsciiWhitespace b = true ↔
    b.toNat = 32 ∨ b.toNat = 9 ∨ b.toNat = 10 ∨ b.toNat = 12 ∨ b.toNat = 13 := by
  simp only [isAsciiWhitespace, List.contains_iff_mem, List.map_cons, List.map_nil, List.mem_cons,
    List.not_mem_nil, or_false, ← UInt8.toNat_inj]
  exact Iff.rfl

lemma isBlank_iff : OdooKernel.isAsciiWhitespace c = true ↔
    c.toNat = 32 ∨ c.toNat = 9 ∨ c.toNat = 10 ∨ c.toNat = 12 ∨ c.toNat = 13 := by
  simp only [OdooKernel.isAsciiWhitespace, Bool.or_eq_true, decide_eq_true_eq, char_eq_iff]
  show (((c.toNat = 32 ∨ c.toNat = 9) ∨ c.toNat = 10) ∨ c.toNat = 12) ∨ c.toNat = 13 ↔ _
  omega

lemma agree_blank : Agree isAsciiWhitespace OdooKernel.isAsciiWhitespace where
  ascii c hc := by
    rw [Bool.eq_iff_iff, isAsciiWhitespace_iff, isBlank_iff, toNat_toUInt8 hc]
  high c hc b hb := by
    have hb' := high_toNat hb
    rw [Bool.eq_iff_iff, isAsciiWhitespace_iff, isBlank_iff]
    omega

/-- Behind the end of a text there is no byte. -/
lemma no_byte (sql : List Char) : (utf8 sql)[(utf8 sql).length]? = none :=
  List.getElem?_eq_none (Nat.le_refl _)

end Positions

/-! ## The loops -/

/-- A turn of the search for the keyword in front, at a position. -/
lemma leadingKeywordTurn_at (before : List Char) (c : Char) (cs : List Char) :
    leadingKeywordTurn (before ++ c :: cs) (utf8 before).length =
      if OdooKernel.isAsciiWhitespace c || c = '(' then .again ((utf8 before).length + 1)
      else
        match opaqueAt before.getLast? c cs with
        | none => cutKeyword (before ++ c :: cs) (utf8 before).length
        | some o =>
          if c = '-' ∨ c = '/' then .again (utf8 (before ++ c :: cs.take o.more)).length
          else cutKeyword (before ++ c :: cs) (utf8 before).length := by
  obtain ⟨b, hbyte, hb⟩ := exists_byte before c cs
  rw [leadingKeywordTurn, hbyte]
  simp only [agree_blank.byte hb, byte_eq_iff hb (show '('.toNat < 0x80 by decide),
    byte_eq_iff hb (show '-'.toNat < 0x80 by decide),
    byte_eq_iff hb (show '/'.toNat < 0x80 by decide), skipOpaque_eq]
  cases opaqueAt before.getLast? c cs <;> rfl

lemma leadingKeyword_computes {sql before rest : List Char} (hsql : sql = before ++ rest) :
    Computes (leadingKeywordTurn sql) (utf8 before).length
      (asciiUpper ((behindOpening 0 before.getLast? rest).takeWhile isIdentChar)) := by
  refine position_induct (motive := fun before rest => Computes (leadingKeywordTurn sql)
    (utf8 before).length (asciiUpper ((behindOpening 0 before.getLast? rest).takeWhile isIdentChar)))
    ?_ (fun before c cs hsql ih => ?_) hsql
  · refine .done ?_
    have hcut := cutKeyword_eq sql []
    rw [List.append_nil] at hcut
    rw [leadingKeywordTurn, no_byte]
    exact hcut
  · subst hsql
    have hcut := cutKeyword_eq before (c :: cs)
    have hturn := leadingKeywordTurn_at before c cs
    rw [behindOpening]
    by_cases hblank : (OdooKernel.isAsciiWhitespace c || decide (c = '(')) = true
    · rw [if_pos hblank] at hturn ⊢
      refine (computes_again_iff hturn).mpr ?_
      have hc : c.toNat < 0x80 := by
        rcases (Bool.or_eq_true _ _).mp hblank with hspace | hopening
        · have := isBlank_iff.mp hspace
          omega
        · rw [of_decide_eq_true hopening]
          decide
      have h := ih [] cs rfl
      rwa [length_ascii hc, getLast?_piece] at h
    · rw [if_neg hblank] at hturn ⊢
      cases hregion : opaqueAt before.getLast? c cs with
      | none =>
          rw [hregion] at hturn
          exact .done (hturn.trans hcut)
      | some o =>
          rw [hregion] at hturn
          by_cases hcomment : c = '-' ∨ c = '/'
          · simp only [if_pos hcomment] at hturn ⊢
            refine (computes_again_iff hturn).mpr ?_
            have h := ih (cs.take o.more) (cs.drop o.more) (List.take_append_drop _ _).symm
            rwa [getLast?_piece, ← behindOpening_drop] at h
          · simp only [if_neg hcomment] at hturn ⊢
            exact .done (hturn.trans hcut)

/-- A turn of the scanner for words, at a position. -/
lemma keywordsTurn_at (before : List Char) (c : Char) (cs : List Char) (words : List (List Char))
    (depth : ℕ) (level : Option ℕ) :
    keywordsTurn (before ++ c :: cs) ⟨words, depth, level, (utf8 before).length⟩ =
      match opaqueAt before.getLast? c cs with
      | some o => .again ⟨words, depth, level, (utf8 (before ++ c :: cs.take o.more)).length⟩
      | none =>
        if c = '(' then .again ⟨words, depth + 1, level, (utf8 before).length + 1⟩
        else if c = ')' then .again ⟨words, depth - 1, level, (utf8 before).length + 1⟩
        else if isIdentChar c then
          if depth = level.getD depth then
            .again ⟨words ++ [asciiUpper (c :: cs.takeWhile isIdentChar)], depth,
              some (level.getD depth), (utf8 (before ++ c :: cs.takeWhile isIdentChar)).length⟩
          else
            .again ⟨words, depth, some (level.getD depth),
              (utf8 (before ++ c :: cs.takeWhile isIdentChar)).length⟩
        else .again ⟨words, depth, level, (utf8 before).length + 1⟩ := by
  obtain ⟨b, hbyte, hb⟩ := exists_byte before c cs
  rw [keywordsTurn]
  simp only [hbyte, skipOpaque_eq, byte_eq_iff hb (show '('.toNat < 0x80 by decide),
    byte_eq_iff hb (show ')'.toNat < 0x80 by decide), agree_ident.byte hb]
  cases opaqueAt before.getLast? c cs with
  | some o => rfl
  | none =>
      simp only [Option.map_none]
      split_ifs with hopening hclosing hident hlevel
      · rfl
      · rfl
      · have hrun : (c :: cs).takeWhile isIdentChar = c :: cs.takeWhile isIdentChar :=
          List.takeWhile_cons_of_pos hident
        rw [slice?_run agree_ident, agree_ident.runEnd, hrun]
      · rw [agree_ident.runEnd, List.takeWhile_cons_of_pos hident]
      · rfl

/-- What a run of the characters of identifiers takes. -/
lemma take_run (q : Char → Bool) (cs : List Char) :
    cs.take (cs.takeWhile q).length = cs.takeWhile q :=
  (List.prefix_iff_eq_take.mp (List.takeWhile_prefix q)).symm

/-- A word at a position. -/
lemma scan_word {before : List Char} {c : Char} {cs : List Char}
    (hregion : opaqueAt before.getLast? c cs = none) (hident : isIdentChar c = true) :
    scan readWord 0 before.getLast? (c :: cs)
      = .word (asciiUpper (c :: cs.takeWhile isIdentChar)) :: scan readWord 0
          (before ++ c :: cs.takeWhile isIdentChar).getLast?
          (cs.drop (cs.takeWhile isIdentChar).length) := by
  have hne : c ≠ '(' ∧ c ≠ ')' := by
    constructor <;>
      · rintro rfl
        exact absurd hident (by decide)
  rw [scan_at (n := (cs.takeWhile isIdentChar).length)
    (a := .word (asciiUpper (c :: cs.takeWhile isIdentChar)))
    (by simp [readWord, hregion, hne, hident]), take_run]

lemma keywords_computes {sql before rest : List Char} (hsql : sql = before ++ rest) :
    ∀ words depth level, Computes (keywordsTurn sql) ⟨words, depth, level, (utf8 before).length⟩
      (words ++ wordsAtLevel depth level (scan readWord 0 before.getLast? rest)) := by
  refine position_induct (motive := fun before rest => ∀ words depth level, Computes (keywordsTurn sql)
    ⟨words, depth, level, (utf8 before).length⟩
    (words ++ wordsAtLevel depth level (scan readWord 0 before.getLast? rest)))
    ?_ (fun before c cs hsql ih words depth level => ?_) hsql
  · intro words depth level
    refine .done ?_
    rw [keywordsTurn]
    simp only [no_byte]
    rw [scan_nil, wordsAtLevel, List.append_nil]
  · subst hsql
    have hturn := keywordsTurn_at before c cs words depth level
    have hpiece := fun n => ih (cs.take n) (cs.drop n) (List.take_append_drop _ _).symm
    cases hregion : opaqueAt before.getLast? c cs with
    | some o =>
        rw [hregion] at hturn
        rw [scan_at (n := o.more) (a := .other) (by rw [readWord, hregion])]
        exact (computes_again_iff hturn).mpr (hpiece o.more words depth level)
    | none =>
        rw [hregion] at hturn
        simp only at hturn
        have hone : c.toNat < 0x80 → ∀ words depth level,
            Computes (keywordsTurn (before ++ c :: cs)) ⟨words, depth, level, (utf8 before).length + 1⟩
              (words ++ wordsAtLevel depth level (scan readWord 0 (before ++ [c]).getLast? cs)) := by
          intro hc words depth level
          rw [← length_ascii hc before]
          exact hpiece 0 words depth level
        have hword : ∀ words, Computes (keywordsTurn (before ++ c :: cs))
            ⟨words, depth, some (level.getD depth),
              (utf8 (before ++ c :: cs.takeWhile isIdentChar)).length⟩
            (words ++ wordsAtLevel depth (some (level.getD depth)) (scan readWord 0
              (before ++ c :: cs.takeWhile isIdentChar).getLast?
              (cs.drop (cs.takeWhile isIdentChar).length))) := by
          intro words
          have h := hpiece (cs.takeWhile isIdentChar).length words depth (some (level.getD depth))
          rwa [take_run] at h
        split_ifs at hturn with hopening hclosing hident hlevel
        · rw [scan_at (n := 0) (a := .opening) (by
            rw [readWord, hregion]
            simp only [if_pos hopening])]
          exact (computes_again_iff hturn).mpr
            (hone (by rw [hopening]; decide) words (depth + 1) level)
        · rw [scan_at (n := 0) (a := .closing) (by
            rw [readWord, hregion]
            simp only [if_neg hopening, if_pos hclosing])]
          exact (computes_again_iff hturn).mpr
            (hone (by rw [hclosing]; decide) words (depth - 1) level)
        · have h := hword (words ++ [asciiUpper (c :: cs.takeWhile isIdentChar)])
          rw [scan_word hregion hident, wordsAtLevel, if_pos hlevel]
          rw [List.append_assoc, List.singleton_append] at h
          exact (computes_again_iff hturn).mpr h
        · rw [scan_word hregion hident, wordsAtLevel, if_neg hlevel]
          exact (computes_again_iff hturn).mpr (hword words)
        · rw [scan_at (n := 0) (a := .other)
            (by simp [readWord, hregion, hopening, hclosing, hident])]
          have hc : c.toNat < 0x80 := by
            by_contra hhigh
            exact hident (isIdentChar_iff.mpr (by omega))
          exact (computes_again_iff hturn).mpr (hone hc words depth level)

/-! ### A keyword in any case -/

lemma toNat_asciiLower (b : UInt8) :
    (asciiLower b).toNat = if 65 ≤ b.toNat ∧ b.toNat ≤ 90 then b.toNat + 32 else b.toNat := by
  have hupper : ('A'.toUInt8 ≤ b ∧ b ≤ 'Z'.toUInt8) ↔ 65 ≤ b.toNat ∧ b.toNat ≤ 90 := by
    rw [UInt8.le_iff_toNat_le, UInt8.le_iff_toNat_le]
    exact Iff.rfl
  unfold asciiLower
  by_cases h : 65 ≤ b.toNat ∧ b.toNat ≤ 90
  · rw [if_pos (hupper.mpr h), if_pos h, UInt8.toNat_add]
    show (b.toNat + 32) % 256 = b.toNat + 32
    omega
  · rw [if_neg fun h' => h (hupper.mp h'), if_neg h]

/-- A byte is a capital in any case where its character is. -/
lemma asciiLower_eq_iff {k : Char} (hb : b ∈ String.utf8EncodeChar c) (hk : k.isUpper = true) :
    asciiLower b = asciiLower k.toUInt8 ↔ c.toUpper = k := by
  obtain ⟨hlow, hhigh⟩ := (isUpper_iff k).mp hk
  have hascii : k.toNat < 0x80 := by omega
  rw [← UInt8.toNat_inj, toNat_asciiLower, toNat_asciiLower, toNat_toUInt8 hascii, char_eq_iff,
    toNat_toUpper]
  by_cases hc : c.toNat < 0x80
  · rw [utf8EncodeChar_ascii hc, List.mem_singleton] at hb
    rw [hb, toNat_toUInt8 hc]
    split_ifs <;> omega
  · have hbyte := high_toNat (utf8EncodeChar_not_ascii (Nat.le_of_not_lt hc) hb)
    split_ifs <;> omega

/-- Capitals are characters of ASCII. -/
lemma length_capitals {keyword : List Char} (hupper : ∀ k ∈ keyword, k.isUpper = true) :
    (utf8 keyword).length = keyword.length :=
  length_utf8_ascii fun k hk => by
    have := (isUpper_iff k).mp (hupper k hk)
    omega

/-- So has a text that is a keyword in any case. -/
lemma length_of_asciiUpper {piece keyword : List Char} (hupper : ∀ k ∈ keyword, k.isUpper = true)
    (h : asciiUpper piece = keyword) : (utf8 piece).length = keyword.length := by
  subst h
  rw [asciiUpper, List.length_map]
  refine length_utf8_ascii fun c hc => ?_
  have hcapital := (isUpper_iff _).mp (hupper c.toUpper (List.mem_map_of_mem hc))
  rw [toNat_toUpper] at hcapital
  split_ifs at hcapital <;> omega

/-- **A keyword stands in the bytes where it stands in the characters**, in any case. -/
lemma keyword_iff {keyword : List Char} (hupper : ∀ k ∈ keyword, k.isUpper = true) (rest : List Char) :
    ((utf8 rest).take keyword.length).map asciiLower = (utf8 keyword).map asciiLower
      ↔ asciiUpper (rest.take keyword.length) = keyword := by
  induction keyword generalizing rest with
  | nil => simp [asciiUpper, utf8]
  | cons k ks ih =>
      rw [List.forall_mem_cons] at hupper
      have hk := (isUpper_iff k).mp hupper.1
      have hkeyword : utf8 (k :: ks) = k.toUInt8 :: utf8 ks := by
        rw [utf8_cons, utf8EncodeChar_ascii (by omega), List.singleton_append]
      rw [hkeyword, List.map_cons, List.length_cons]
      cases rest with
      | nil => simp [asciiUpper, utf8]
      | cons c cs =>
          rw [List.take_succ_cons, asciiUpper, List.map_cons, List.cons_eq_cons]
          by_cases hc : c.toNat < 0x80
          · have hbytes : utf8 (c :: cs) = c.toUInt8 :: utf8 cs := by
              rw [utf8_cons, utf8EncodeChar_ascii hc, List.singleton_append]
            have hb : c.toUInt8 ∈ String.utf8EncodeChar c := by
              rw [utf8EncodeChar_ascii hc]
              exact List.mem_singleton_self _
            rw [hbytes, List.take_succ_cons, List.map_cons, List.cons_eq_cons,
              asciiLower_eq_iff hb hupper.1, ih hupper.2]
            rfl
          · have hne : c.toUpper ≠ k := by
              rw [Ne, char_eq_iff, toNat_toUpper]
              split_ifs <;> omega
            cases hencoded : String.utf8EncodeChar c with
            | nil => exact absurd hencoded String.utf8EncodeChar_ne_nil
            | cons b bs =>
                have hb : b ∈ String.utf8EncodeChar c := by
                  rw [hencoded]
                  exact List.mem_cons_self
                rw [utf8_cons, hencoded, List.cons_append, List.take_succ_cons, List.map_cons,
                  List.cons_eq_cons, asciiLower_eq_iff hb hupper.1]
                exact iff_of_false (fun h => hne h.1) fun h => hne h.1

/-- Inside a character no keyword starts. -/
lemma bareKeywordTurn_high {bytes : List UInt8} {keyword : List Char} {i : ℕ} (hne : keyword ≠ [])
    (hupper : ∀ k ∈ keyword, k.isUpper = true) (hb : bytes[i]? = some b) (hhigh : 0x80 ≤ b) :
    bareKeywordTurn bytes (utf8 keyword) i = .again (i + 1) := by
  obtain ⟨k, ks, rfl⟩ := List.exists_cons_of_ne_nil hne
  rw [List.forall_mem_cons] at hupper
  have hk := (isUpper_iff k).mp hupper.1
  have hkeyword : utf8 (k :: ks) = k.toUInt8 :: utf8 ks := by
    rw [utf8_cons, utf8EncodeChar_ascii (by omega), List.singleton_append]
  have hhead : asciiLower b ≠ asciiLower k.toUInt8 := by
    have hb' := high_toNat hhigh
    rw [Ne, ← UInt8.toNat_inj, toNat_asciiLower, toNat_asciiLower, toNat_toUInt8 (by omega)]
    split_ifs <;> omega
  obtain ⟨hlt, rfl⟩ := List.getElem?_eq_some_iff.mp hb
  rw [bareKeywordTurn, hb]
  simp only [skipOpaque, opaque?_high hb hhigh, Option.map_none]
  rw [if_neg]
  rintro ⟨-, hsame, -⟩
  rw [hkeyword, List.drop_eq_getElem_cons hlt, List.length_cons, List.take_succ_cons, List.map_cons,
    List.map_cons, List.cons_eq_cons] at hsame
  exact hhead hsame.1

/-- A turn of the search for a keyword, at a position. -/
lemma bareKeywordTurn_at {keyword : List Char} (hupper : ∀ k ∈ keyword, k.isUpper = true)
    (before : List Char) (c : Char) (cs : List Char) :
    bareKeywordTurn (utf8 (before ++ c :: cs)) (utf8 keyword) (utf8 before).length =
      match opaqueAt before.getLast? c cs with
      | some o => .again (utf8 (before ++ c :: cs.take o.more)).length
      | none =>
        if (readKeyword keyword before.getLast? c cs).2 then .done true
        else .again ((utf8 before).length + 1) := by
  obtain ⟨b, hbyte, hb⟩ := exists_byte before c cs
  have hdrop : (utf8 (before ++ c :: cs)).drop (utf8 before).length = utf8 (c :: cs) := by
    rw [utf8_append, List.drop_left]
  have hsame := keyword_iff hupper (c :: cs)
  rw [bareKeywordTurn, readKeyword]
  simp only [hbyte, skipOpaque_eq, hdrop, afterIdent_eq, length_capitals hupper, hsame]
  cases opaqueAt before.getLast? c cs with
  | some o => rfl
  | none =>
      simp only [Option.map_none, decide_eq_true_eq]
      by_cases hkeyword : asciiUpper ((c :: cs).take keyword.length) = keyword
      · have hlength := length_of_asciiUpper hupper hkeyword
        have hle : keyword.length ≤ (utf8 (c :: cs)).length := by
          conv_rhs => rw [← List.take_append_drop keyword.length (c :: cs)]
          rw [utf8_append, List.length_append, hlength]
          exact Nat.le_add_right _ _
        have hbehind :
            (utf8 (before ++ c :: cs))[(utf8 before).length + keyword.length]?.any isIdentByte
              = ((c :: cs).drop keyword.length).head?.any isIdentChar := by
          have h := agree_ident.head (before ++ (c :: cs).take keyword.length)
            ((c :: cs).drop keyword.length)
          rwa [List.append_assoc, List.take_append_drop, utf8_append before ((c :: cs).take _),
            List.length_append, hlength] at h
        simp only [hkeyword, hle, hbehind, true_and]
      · rw [if_neg fun h => hkeyword h.2.1, if_neg fun h => hkeyword h.1]

lemma bareKeyword_computes {sql before rest keyword : List Char} (hne : keyword ≠ [])
    (hupper : ∀ k ∈ keyword, k.isUpper = true) (hsql : sql = before ++ rest) :
    Computes (bareKeywordTurn (utf8 sql) (utf8 keyword)) (utf8 before).length
      ((scan (readKeyword keyword) 0 before.getLast? rest).any id) := by
  refine position_induct (motive := fun before rest => Computes
    (bareKeywordTurn (utf8 sql) (utf8 keyword)) (utf8 before).length
    ((scan (readKeyword keyword) 0 before.getLast? rest).any id)) ?_
    (fun before c cs hsql ih => ?_) hsql
  · refine .done ?_
    rw [bareKeywordTurn, no_byte, scan_nil]
    rfl
  · subst hsql
    have hturn := bareKeywordTurn_at hupper before c cs
    cases hregion : opaqueAt before.getLast? c cs with
    | some o =>
        rw [hregion] at hturn
        rw [scan_at (n := o.more) (a := false) (by rw [readKeyword, hregion])]
        exact (computes_again_iff hturn).mpr
          (ih (cs.take o.more) (cs.drop o.more) (List.take_append_drop _ _).symm)
    | none =>
        rw [hregion] at hturn
        have hread : readKeyword keyword before.getLast? c cs
            = (0, (readKeyword keyword before.getLast? c cs).2) := by
          rw [readKeyword, hregion]
        rw [scan_at hread, List.any_cons]
        simp only at hturn
        split_ifs at hturn with hkeyword
        · rw [id, hkeyword, Bool.true_or]
          exact .done hturn
        · rw [id, Bool.eq_false_iff.mpr hkeyword, Bool.false_or]
          have hnext := ih [] cs rfl
          by_cases hc : c.toNat < 0x80
          · rw [length_ascii hc] at hnext
            exact (computes_again_iff hturn).mpr hnext
          · have hpass := pass_char (k := 1) (Nat.le_of_not_lt hc)
              (f := fun i => Computes (bareKeywordTurn (utf8 (before ++ c :: cs)) (utf8 keyword)) i
                ((scan (readKeyword keyword) 0 (before ++ [c]).getLast? cs).any id))
              (fun i b (hb : (utf8 (before ++ c :: cs))[i]? = some b) hhigh =>
                propext (computes_again_iff (bareKeywordTurn_high hne hupper hb hhigh)))
              c.utf8Size_pos
            exact (computes_again_iff hturn).mpr (hpass.mpr hnext)

/-! ### SQL comparands -/

/-- The characters at a position. -/
lemma fromOffset_at (before rest : List Char) :
    fromOffset (before ++ rest) (utf8 before).length = some rest :=
  fromOffset_eq_some.mpr ⟨before, rfl, rfl⟩

/-- The character behind the one at a position. -/
lemma char_next {a : Char} (ha : a.toNat < 0x80) (before : List Char) (c : Char) (cs : List Char) :
    (utf8 (before ++ c :: cs))[(utf8 before).length + c.utf8Size]? = some a.toUInt8
      ↔ cs.head? = some a := by
  have h := char_at ha (before ++ [c]) cs
  rwa [length_concat, List.append_assoc] at h

/-- The part between a position and one further on. -/
lemma slice?_at (before : List Char) (c : Char) (cs : List Char) (n : ℕ) :
    slice? (before ++ c :: cs) (utf8 before).length (utf8 (before ++ c :: cs.take n)).length
      = some (c :: cs.take n) := by
  have h := slice?_append before (c :: cs.take n) (cs.drop n)
  rwa [List.cons_append, List.take_append_drop] at h

/-- A turn of the rewriting, at a position. -/
lemma rewriteTurn_at (casts : List Cast) (before : List Char) (c : Char) (cs : List Char)
    (out : List Char) (used : ℕ) :
    rewriteTurn (before ++ c :: cs) casts ⟨out, used, (utf8 before).length⟩ =
      match opaqueAt before.getLast? c cs with
      | some o =>
        if o.terminated = false then
          .done (refuse "a SQL comparand has an unterminated quoted text or comment")
        else if o.kind = .comment then
          .again ⟨out ++ [' '], used, (utf8 (before ++ c :: cs.take o.more)).length⟩
        else if o.kind = .dollarString then .done (refuse "a SQL comparand uses dollar quoting")
        else
          match unquoted (c :: cs.take o.more) with
          | .error e => .done (.error e)
          | .ok inside => .again ⟨out ++ inside, used, (utf8 (before ++ c :: cs.take o.more)).length⟩
      | none =>
        if c = '%' then
          if cs.head? = some '%' then
            .again ⟨out ++ ['%'], used, (utf8 (before ++ ['%', '%'])).length⟩
          else if cs.head? = some 's' then
            match casts[used]? with
            | none =>
              .done (refuse
                s!"a SQL comparand has more placeholders than its {casts.length} parameter(s)")
            | some kind =>
              .again ⟨out ++ boundText (used + 1) kind, used + 1, (utf8 (before ++ ['%', 's'])).length⟩
          else .done (refuse "a SQL comparand has a % that is neither %s nor %%")
        else if c = '$' then
          .done (refuse "a SQL comparand uses a dollar sign outside a placeholder")
        else if c = ';' then .done (refuse "a SQL comparand holds more than one statement")
        else .again ⟨out ++ [c], used, (utf8 (before ++ [c])).length⟩ := by
  obtain ⟨b, hbyte, -⟩ := exists_byte before c cs
  rw [rewriteTurn]
  simp only [hbyte, opaque?_eq, fromOffset_at, char_next (show '%'.toNat < 0x80 by decide),
    char_next (show 's'.toNat < 0x80 by decide)]
  cases opaqueAt before.getLast? c cs with
  | some o =>
      cases hinside : unquoted (c :: cs.take o.more) with
      | error e => simp only [Option.map_some, regionAt, slice?_at, hinside]
      | ok inside => simp only [Option.map_some, regionAt, slice?_at, hinside]
  | none =>
      simp only [Option.map_none, length_concat]
      split_ifs with hpercent hdouble hparam hdollar hsemicolon
      · obtain rfl := hpercent
        rw [(mark_bytes (by decide) (by decide) before []).2.2]
        rfl
      · obtain rfl := hpercent
        rw [(mark_bytes (by decide) (by decide) before []).2.2]
        rfl
      · rfl
      · rfl
      · rfl
      · rfl

/-- What is put behind the text so far. -/
lemma map_behind (out text : List Char) (r : Result (List Char)) :
    Except.map (out ++ ·) (do return text ++ (← r)) = Except.map ((out ++ text) ++ ·) r := by
  cases r with
  | error e => rfl
  | ok rest => exact congrArg Except.ok (List.append_assoc out text rest).symm

lemma rewrite_computes {sql before rest : List Char} (casts : List Cast)
    (hsql : sql = before ++ rest) :
    ∀ out used, Computes (rewriteTurn sql casts) ⟨out, used, (utf8 before).length⟩
      ((rewriteParts casts used (scan readPart 0 before.getLast? rest)).map (out ++ ·)) := by
  refine position_induct (motive := fun before rest => ∀ out used, Computes (rewriteTurn sql casts)
    ⟨out, used, (utf8 before).length⟩
    ((rewriteParts casts used (scan readPart 0 before.getLast? rest)).map (out ++ ·)))
    ?_ (fun before c cs hsql ih out used => ?_) hsql
  · intro out used
    refine .done ?_
    rw [rewriteTurn]
    simp only [no_byte]
    rw [scan_nil, rewriteParts]
    split_ifs
    · simp [Except.map]
    · rfl
  · subst hsql
    have hturn := rewriteTurn_at casts before c cs out used
    -- behind a piece the text so far has what the piece became at its end
    have hpiece : ∀ n text used',
        rewriteTurn (before ++ c :: cs) casts ⟨out, used, (utf8 before).length⟩
          = .again ⟨out ++ text, used', (utf8 (before ++ c :: cs.take n)).length⟩ →
        Computes (rewriteTurn (before ++ c :: cs) casts) ⟨out, used, (utf8 before).length⟩
          (Except.map (out ++ ·) (do return text ++ (← rewriteParts casts used'
            (scan readPart 0 (before ++ c :: cs.take n).getLast? (cs.drop n))))) := by
      intro n text used' hagain
      have h := ih (cs.take n) (cs.drop n) (List.take_append_drop _ _).symm (out ++ text) used'
      rw [← map_behind] at h
      exact (computes_again_iff hagain).mpr h
    cases hregion : opaqueAt before.getLast? c cs with
    | some o =>
        rw [hregion] at hturn
        rw [scan_at (n := o.more) (a := .region o.kind o.terminated (c :: cs.take o.more))
          (by rw [readPart, hregion]), rewriteParts]
        simp only at hturn
        split_ifs at hturn ⊢ with hopen hcomment hdollar
        · exact .done hturn
        · exact hpiece o.more [' '] used hturn
        · exact .done hturn
        · cases hinside : unquoted (c :: cs.take o.more) with
          | error e =>
              rw [hinside] at hturn
              exact .done hturn
          | ok inside =>
              rw [hinside] at hturn
              exact hpiece o.more inside used hturn
    | none =>
        rw [hregion] at hturn
        simp only at hturn
        split_ifs at hturn with hpercent hdouble hparam hdollar hsemicolon
        · obtain rfl := hpercent
          obtain ⟨rest, rfl⟩ := List.head?_eq_some_iff.mp hdouble
          rw [scan_at (n := 1) (a := .percent) (by simp [readPart, hregion]), rewriteParts]
          exact hpiece 1 ['%'] used hturn
        · obtain rfl := hpercent
          obtain ⟨rest, rfl⟩ := List.head?_eq_some_iff.mp hparam
          rw [scan_at (n := 1) (a := .parameter) (by simp [readPart, hregion]), rewriteParts]
          cases hkind : casts[used]? with
          | none =>
              rw [hkind] at hturn
              exact .done hturn
          | some kind =>
              rw [hkind] at hturn
              exact hpiece 1 (boundText (used + 1) kind) (used + 1) hturn
        · obtain rfl := hpercent
          rw [scan_at (n := 0) (a := .loose) (by simp [readPart, hregion, hdouble, hparam]),
            rewriteParts]
          exact .done hturn
        · obtain rfl := hdollar
          rw [scan_at (n := 0) (a := .plain '$') (by simp [readPart, hregion]), rewriteParts]
          exact .done hturn
        · obtain rfl := hsemicolon
          rw [scan_at (n := 0) (a := .plain ';') (by simp [readPart, hregion]), rewriteParts]
          exact .done hturn
        · rw [scan_at (n := 0) (a := .plain c) (by simp [readPart, hregion, hpercent]),
            rewriteParts, if_neg hdollar, if_neg hsemicolon]
          exact hpiece 0 [c] used hturn

/-! ### Rendered SQL -/

/-- What is read becomes the port's text and its parameters, behind those so far. -/
def converted (sql : List Char) (values : List BoundValue) (out : List Char) (params : List Json)
    (rs : List Lexeme) : Result (List Char × List Json) := do
  let parts ← rs.mapM (dialectOf sql values)
  return (out ++ parts.flatMap Prod.fst, params ++ parts.flatMap Prod.snd)

/-- A reading, and what is behind it. -/
lemma converted_cons (sql : List Char) (values : List BoundValue) (out : List Char)
    (params : List Json) (r : Lexeme) (rs : List Lexeme) :
    converted sql values out params (r :: rs) = dialectOf sql values r >>= fun part =>
      converted sql values (out ++ part.1) (params ++ part.2) rs := by
  unfold converted
  rw [List.mapM_cons]
  cases dialectOf sql values r with
  | error e => rfl
  | ok part =>
      cases rs.mapM (dialectOf sql values) with
      | error e => rfl
      | ok parts =>
          refine congrArg Except.ok (Prod.ext ?_ ?_)
          · simp
          · simp

/-- A turn of the conversion, at a position. -/
lemma dialectTurn_at (values : List BoundValue) (before : List Char) (c : Char) (cs : List Char)
    (out : List Char) (params : List Json) :
    dialectTurn (before ++ c :: cs) values ⟨out, params, (utf8 before).length⟩ =
      match dialectOf (before ++ c :: cs) values (readSql before.getLast? c cs).2 with
      | .error e => .done (.error e)
      | .ok part => .again ⟨out ++ part.1, params ++ part.2,
          (utf8 (before ++ c :: cs.take (readSql before.getLast? c cs).1)).length⟩ := by
  obtain ⟨b, hbyte, -⟩ := exists_byte before c cs
  rw [dialectTurn, readSql]
  simp only [hbyte, opaque?_eq, fromOffset_at, afterIdent_eq]
  cases opaqueAt before.getLast? c cs with
  | some o =>
      simp only [Option.map_some, regionAt, slice?_at]
      cases o.terminated with
      | false => rfl
      | true => simp [dialectOf]
  | none =>
      simp only [Option.map_none]
      have hdigit : (utf8 (before ++ c :: cs))[(utf8 before).length + c.utf8Size]?.any isAsciiDigit
          = cs.head?.any Char.isDigit := by
        have h := agree_digit.head (before ++ [c]) cs
        rwa [length_concat, List.append_assoc] at h
      rw [hdigit]
      by_cases hpercent : c = '%'
      · subst hpercent
        rw [if_pos rfl, if_neg (by simp), ← length_concat]
        simp [dialectOf, doubled]
      · rw [if_neg hpercent]
        by_cases hbound : c = '$' ∧ ¬ OdooKernel.afterIdent before.getLast? ∧ cs.head?.any Char.isDigit
        · have hslice := slice?_run agree_digit (before ++ [c]) cs
          have hstop := agree_digit.runEnd (before ++ [c]) cs
          rw [hstop, length_concat, List.append_assoc, List.append_assoc, List.singleton_append,
            List.singleton_append] at hslice
          rw [length_concat, List.append_assoc, List.append_assoc, List.singleton_append,
            List.singleton_append] at hstop
          rw [if_pos hbound, if_pos hbound]
          simp only [hstop, hslice, take_run]
          cases dialectOf (before ++ c :: cs) values (.bound (cs.takeWhile Char.isDigit)) <;> rfl
        · rw [if_neg hbound, if_neg hbound, ← length_concat]
          simp [dialectOf, doubled, hpercent]

lemma dialect_computes {sql before rest : List Char} (values : List BoundValue)
    (hsql : sql = before ++ rest) :
    ∀ out params, Computes (dialectTurn sql values) ⟨out, params, (utf8 before).length⟩
      (converted sql values out params (scan readSql 0 before.getLast? rest)) := by
  refine position_induct (motive := fun before rest => ∀ out params,
    Computes (dialectTurn sql values) ⟨out, params, (utf8 before).length⟩
    (converted sql values out params (scan readSql 0 before.getLast? rest)))
    ?_ (fun before c cs hsql ih out params => ?_) hsql
  · intro out params
    refine .done ?_
    rw [dialectTurn]
    simp only [no_byte]
    rw [scan_nil, converted]
    simp
    rfl
  · subst hsql
    have hturn := dialectTurn_at values before c cs out params
    rw [scan_at (n := (readSql before.getLast? c cs).1)
      (a := (readSql before.getLast? c cs).2) rfl, converted_cons]
    cases hpart : dialectOf (before ++ c :: cs) values (readSql before.getLast? c cs).2 with
    | error e =>
        rw [hpart] at hturn
        exact .done hturn
    | ok part =>
        rw [hpart] at hturn
        exact (computes_again_iff hturn).mpr
          (ih (cs.take _) (cs.drop _) (List.take_append_drop _ _).symm _ _)

/-- **What the loops over the bytes return** is what is said of the characters: for every text the
comparand rewritten, the rendered statement in the port's dialect, the keyword in front, the keywords at
the statement's level, and whether a keyword stands outside the regions. -/
theorem loops_compute (text : List Char) :
    (∀ casts, Computes (rewriteTurn text casts) ⟨[], 0, 0⟩ (rewrite text casts)) ∧
    (∀ values, Computes (dialectTurn text values) ⟨[], [], 0⟩ (toOdooDialect text values)) ∧
    Computes (leadingKeywordTurn text) 0 (leadingKeyword text) ∧
    Computes (keywordsTurn text) ⟨[], 0, none, 0⟩ (statementLevelKeywords text) ∧
    ∀ keyword, keyword ≠ [] → (∀ k ∈ keyword, k.isUpper = true) →
      Computes (bareKeywordTurn (utf8 text) (utf8 keyword)) 0 (hasBareKeyword text keyword) := by
  have hsql : text = [] ++ text := (List.nil_append text).symm
  refine ⟨fun casts => ?_, fun values => ?_, ?_, ?_, fun keyword hne hupper => ?_⟩
  · have h := rewrite_computes casts hsql [] 0
    have hall : Except.map ([] ++ ·) (rewrite text casts) = rewrite text casts := by
      cases rewrite text casts <;> rfl
    rw [← hall]
    exact h
  · exact dialect_computes values hsql [] []
  · exact leadingKeyword_computes hsql
  · exact keywords_computes hsql [] 0 none
  · exact bareKeyword_computes hne hupper hsql

end Bytes

end OdooKernel
