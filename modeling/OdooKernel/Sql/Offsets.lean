import OdooKernel.Sql.Bytes

/-!
# The lexer's offsets and its characters

The lexer of the source works on bytes and returns an offset (`Bytes.opaque?`); what the results of this
development say is said of characters (`opaqueAt`).  The two are translations of one function, made for
different ends: the offsets are what the callers cut at, and what may fall inside a character; the
characters are what the texts are made of.  This module is the dictionary between them.

**The dictionary.**  A position of a text is what stands before it and what stands behind it, and its
offset is the length in bytes of what stands before.  Every reader then has one lemma of one shape: at
the offset behind some characters the bytes give what the characters give there, and the offset that
comes back is the one behind the characters that were taken (`commentEnd_eq`, `quoteEnd_eq`,
`lineEnd_eq`, `Agree.runEnd`, `dollarEnd_eq`).

**Why the bytes do not disagree.**  All that the lexer looks for is ASCII.  A character of ASCII is its
own byte, and no byte of any other character is one of ASCII, so that no mark starts there: the loops go
over such a character as if it was one step (`pass_char`).  The one place where a loop may start inside
a character is behind a backslash, where it leaves out a byte and not a character; it still comes out at
the same place.

* **`opaque?_eq`** — a region of the bytes is one of the characters.
-/

namespace OdooKernel

namespace Bytes

section Offsets

variable {before rest : List Char} {c : Char} {i : ℕ}

/-- The bytes behind some characters. -/
lemma getElem?_behind (before rest : List Char) (k : ℕ) :
    (utf8 (before ++ rest))[(utf8 before).length + k]? = (utf8 rest)[k]? := by
  rw [utf8_append, List.getElem?_append_right (Nat.le_add_right _ _), Nat.add_sub_cancel_left]

lemma utf8_cons (c : Char) (cs : List Char) : utf8 (c :: cs) = String.utf8EncodeChar c ++ utf8 cs :=
  rfl

/-- The byte that a character starts with. -/
lemma exists_byte (before : List Char) (c : Char) (cs : List Char) :
    ∃ b, (utf8 (before ++ c :: cs))[(utf8 before).length]? = some b ∧ b ∈ String.utf8EncodeChar c := by
  have h := getElem?_behind before (c :: cs) 0
  cases hencoded : String.utf8EncodeChar c with
  | nil => exact absurd hencoded String.utf8EncodeChar_ne_nil
  | cons b bs =>
      rw [utf8_cons, hencoded] at h
      exact ⟨b, h, List.mem_cons_self⟩

/-- A character of ASCII by any of the bytes of a character. -/
lemma byte_eq_iff {a : Char} {b : UInt8} (hb : b ∈ String.utf8EncodeChar c) (ha : a.toNat < 0x80) :
    b = a.toUInt8 ↔ c = a := by
  by_cases hc : c.toNat < 0x80
  · rw [utf8EncodeChar_ascii hc, List.mem_singleton] at hb
    rw [hb, toUInt8_inj hc ha]
  · have hhigh := utf8EncodeChar_not_ascii (Nat.le_of_not_lt hc) hb
    constructor
    · rintro rfl
      rw [UInt8.le_iff_toNat_le, toNat_toUInt8 ha] at hhigh
      exact absurd ha (Nat.not_lt.mpr hhigh)
    · rintro rfl
      exact absurd ha hc

/-- A character of ASCII by the byte at its offset. -/
lemma char_at {a : Char} (ha : a.toNat < 0x80) (before rest : List Char) :
    (utf8 (before ++ rest))[(utf8 before).length]? = some a.toUInt8 ↔ rest.head? = some a := by
  cases rest with
  | nil => simp
  | cons c cs =>
      obtain ⟨b, hbyte, hb⟩ := exists_byte before c cs
      rw [hbyte, Option.some_inj, List.head?_cons, Option.some_inj, byte_eq_iff hb ha]

/-- Behind one more character. -/
lemma length_concat (before : List Char) (c : Char) :
    (utf8 (before ++ [c])).length = (utf8 before).length + c.utf8Size := by
  rw [utf8_append, List.length_append, length_utf8_cons]
  rfl

/-- The byte behind a character of ASCII. -/
lemma char_behind {a : Char} (hc : c.toNat < 0x80) (ha : a.toNat < 0x80) (before rest : List Char) :
    (utf8 (before ++ c :: rest))[(utf8 before).length + 1]? = some a.toUInt8 ↔ rest.head? = some a := by
  have h := char_at ha (before ++ [c]) rest
  rwa [length_concat, utf8Size_ascii hc, List.append_assoc, List.singleton_append] at h

/-- What stays the same over each byte that is none of ASCII stays the same over a character that is
none, from any of its bytes on. -/
lemma pass_char {α : Type} {f : ℕ → α} (hc : 0x80 ≤ c.toNat)
    (hstep : ∀ i b, (utf8 (before ++ c :: rest))[i]? = some b → 0x80 ≤ b → f i = f (i + 1)) {k : ℕ}
    (hk : k ≤ c.utf8Size) :
    f ((utf8 before).length + k) = f (utf8 (before ++ [c])).length := by
  rw [length_concat]
  induction hmore : c.utf8Size - k generalizing k with
  | zero => rw [show k = c.utf8Size by omega]
  | succ n ih =>
      have hinside : k < c.utf8Size := by omega
      have hlt : k < (String.utf8EncodeChar c).length := by
        rwa [String.length_utf8EncodeChar]
      have hbyte : (utf8 (before ++ c :: rest))[(utf8 before).length + k]?
          = some (String.utf8EncodeChar c)[k] := by
        rw [getElem?_behind, utf8_cons, List.getElem?_append_left hlt, List.getElem?_eq_getElem hlt]
      rw [hstep _ _ hbyte (utf8EncodeChar_not_ascii hc (List.getElem_mem hlt))]
      exact ih (k := k + 1) (by omega) (by omega)

/-- A character is passed whose byte is, or whose bytes are none of ASCII. -/
lemma pass_next {α : Type} {f : ℕ → α} 
    (hascii : c.toNat < 0x80 → f (utf8 before).length = f ((utf8 before).length + 1))
    (hstep : ∀ i b, (utf8 (before ++ c :: rest))[i]? = some b → 0x80 ≤ b → f i = f (i + 1)) :
    f (utf8 before).length = f (utf8 (before ++ [c])).length := by
  by_cases hc : c.toNat < 0x80
  · rw [hascii hc, length_concat, utf8Size_ascii hc]
  · exact pass_char (k := 0) (Nat.le_of_not_lt hc) hstep (Nat.zero_le _)

/-- An extent behind some characters, as the offset that it ends at. -/
def extentAt (before rest : List Char) (extent : ℕ × Bool) : ℕ × Bool :=
  ((utf8 (before ++ rest.take extent.1)).length, extent.2)

lemma extentAt_further (before : List Char) (c : Char) (rest : List Char) (extent : ℕ × Bool) :
    extentAt before (c :: rest) (further 1 extent) = extentAt (before ++ [c]) rest extent := by
  simp [extentAt, further]

lemma extentAt_zero (before rest : List Char) (closed : Bool) :
    extentAt before rest (0, closed) = ((utf8 before).length, closed) := by
  simp [extentAt]

/-! ### Comments -/

lemma commentEnd_end {bytes : List UInt8} {depth i : ℕ} (h : bytes.length ≤ i + 1) :
    commentEnd bytes depth i = (bytes.length, false) := by
  rw [commentEnd, dif_neg (by omega)]

/-- A byte that starts no mark. -/
lemma commentEnd_step {bytes : List UInt8} {depth : ℕ} {b : UInt8} (hb : bytes[i]? = some b)
    (hopen : ¬ (b = '/'.toUInt8 ∧ bytes[i + 1]? = some '*'.toUInt8))
    (hclose : ¬ (b = '*'.toUInt8 ∧ bytes[i + 1]? = some '/'.toUInt8)) :
    commentEnd bytes depth i = commentEnd bytes depth (i + 1) := by
  obtain ⟨hlt, rfl⟩ := List.getElem?_eq_some_iff.mp hb
  by_cases h : i + 1 < bytes.length
  · rw [List.getElem?_eq_getElem h, Option.some_inj] at hopen hclose
    rw [commentEnd, dif_pos h, if_neg hopen, if_neg hclose]
  · rw [commentEnd_end (by omega), commentEnd_end (by omega)]

lemma commentEnd_high {bytes : List UInt8} {depth : ℕ} {b : UInt8} (hb : bytes[i]? = some b)
    (hhigh : 0x80 ≤ b) : commentEnd bytes depth i = commentEnd bytes depth (i + 1) := by
  refine commentEnd_step hb ?_ ?_
  · rintro ⟨rfl, _⟩
    exact absurd hhigh (by decide)
  · rintro ⟨rfl, _⟩
    exact absurd hhigh (by decide)

/-- A character that starts no mark. -/
lemma commentEnd_char {depth : ℕ} (hopen : ¬ (c = '/' ∧ rest.head? = some '*'))
    (hclose : ¬ (c = '*' ∧ rest.head? = some '/')) :
    commentEnd (utf8 (before ++ c :: rest)) depth (utf8 before).length
      = commentEnd (utf8 (before ++ c :: rest)) depth (utf8 (before ++ [c])).length := by
  refine pass_next (f := commentEnd (utf8 (before ++ c :: rest)) depth) (fun hc => ?_)
    fun i b => commentEnd_high
  have hbyte := (char_at hc before (c :: rest)).mpr rfl
  refine commentEnd_step hbyte ?_ ?_
  · rw [char_behind hc (by decide), toUInt8_inj hc (by decide)]
    exact hopen
  · rw [char_behind hc (by decide), toUInt8_inj hc (by decide)]
    exact hclose

/-- A mark of two characters. -/
lemma mark_bytes {a b : Char} (ha : a.toNat < 0x80) (hb : b.toNat < 0x80) (before rest : List Char) :
    (utf8 (before ++ a :: b :: rest))[(utf8 before).length]? = some a.toUInt8 ∧
      (utf8 (before ++ a :: b :: rest))[(utf8 before).length + 1]? = some b.toUInt8 ∧
      (utf8 (before ++ [a, b])).length = (utf8 before).length + 2 := by
  refine ⟨(char_at ha before _).mpr rfl, (char_behind ha hb before _).mpr rfl, ?_⟩
  rw [show before ++ [a, b] = before ++ [a] ++ [b] by simp, length_concat, length_concat,
    utf8Size_ascii ha, utf8Size_ascii hb]

lemma commentEnd_mark {bytes : List UInt8} {depth : ℕ} {a b : UInt8} (ha : bytes[i]? = some a)
    (hb : bytes[i + 1]? = some b) :
    commentEnd bytes depth i =
      if a = '/'.toUInt8 ∧ b = '*'.toUInt8 then commentEnd bytes (depth + 1) (i + 2)
      else if a = '*'.toUInt8 ∧ b = '/'.toUInt8 then
        if depth = 1 then (i + 2, true) else commentEnd bytes (depth - 1) (i + 2)
      else commentEnd bytes depth (i + 1) := by
  obtain ⟨_, rfl⟩ := List.getElem?_eq_some_iff.mp ha
  obtain ⟨h, rfl⟩ := List.getElem?_eq_some_iff.mp hb
  conv_lhs => rw [commentEnd]
  rw [dif_pos h]

/-- **A comment ends at the same place.** -/
lemma commentEnd_eq (before : List Char) (depth : ℕ) (rest : List Char) :
    commentEnd (utf8 (before ++ rest)) depth (utf8 before).length
      = extentAt before rest (toCommentEnd depth rest) := by
  induction depth, rest using toCommentEnd.induct generalizing before with
  | case1 depth =>
      rw [commentEnd_end (by simp), toCommentEnd, extentAt_zero, List.append_nil]
  | case2 depth c =>
      rw [commentEnd_char (by simp) (by simp), commentEnd_end (by simp), toCommentEnd]
      simp [extentAt]
  | case3 depth c d cs hopen ih =>
      obtain ⟨rfl, rfl⟩ := hopen
      obtain ⟨hslash, hstar, hlength⟩ :=
        mark_bytes (a := '/') (b := '*') (by decide) (by decide) before cs
      rw [commentEnd_mark hslash hstar, if_pos ⟨rfl, rfl⟩, toCommentEnd, if_pos ⟨rfl, rfl⟩, ← hlength]
      have hcs := ih (before ++ ['/', '*'])
      rw [List.append_assoc] at hcs
      exact hcs.trans (by simp [extentAt, further])
  | case4 c d cs hopen hclose =>
      obtain ⟨rfl, rfl⟩ := hclose
      obtain ⟨hstar, hslash, hlength⟩ :=
        mark_bytes (a := '*') (b := '/') (by decide) (by decide) before cs
      rw [commentEnd_mark hstar hslash, if_neg (by decide), if_pos ⟨rfl, rfl⟩, if_pos rfl,
        toCommentEnd, if_neg hopen, if_pos ⟨rfl, rfl⟩, if_pos rfl, ← hlength]
      rfl
  | case5 depth c d cs hopen hclose hdepth ih =>
      obtain ⟨rfl, rfl⟩ := hclose
      obtain ⟨hstar, hslash, hlength⟩ :=
        mark_bytes (a := '*') (b := '/') (by decide) (by decide) before cs
      rw [commentEnd_mark hstar hslash, if_neg (by decide), if_pos ⟨rfl, rfl⟩, if_neg hdepth,
        toCommentEnd, if_neg hopen, if_pos ⟨rfl, rfl⟩, if_neg hdepth, ← hlength]
      have hcs := ih (before ++ ['*', '/'])
      rw [List.append_assoc] at hcs
      exact hcs.trans (by simp [extentAt, further])
  | case6 depth c d cs hopen hclose ih =>
      have hcs := ih (before ++ [c])
      rw [List.append_assoc] at hcs
      rw [commentEnd_char (by simpa using hopen) (by simpa using hclose), toCommentEnd, if_neg hopen,
        if_neg hclose, extentAt_further]
      exact hcs

/-! ### Quoted texts -/

lemma quoteEnd_end {bytes : List UInt8} {escaped : Bool} {quote : UInt8} (h : bytes.length ≤ i) :
    quoteEnd bytes escaped quote i = (bytes.length, false) := by
  rw [quoteEnd, dif_neg (by omega)]

lemma quoteEnd_at {bytes : List UInt8} {escaped : Bool} {quote b : UInt8} (hb : bytes[i]? = some b) :
    quoteEnd bytes escaped quote i =
      if escaped ∧ b = '\\'.toUInt8 then quoteEnd bytes escaped quote (i + 2)
      else if b = quote then
        if bytes[i + 1]? = some quote then quoteEnd bytes escaped quote (i + 2) else (i + 1, true)
      else quoteEnd bytes escaped quote (i + 1) := by
  obtain ⟨h, rfl⟩ := List.getElem?_eq_some_iff.mp hb
  conv_lhs => rw [quoteEnd]
  rw [dif_pos h]

lemma quoteEnd_high {bytes : List UInt8} {escaped : Bool} {quote b : UInt8} (hquote : quote < 0x80)
    (hb : bytes[i]? = some b) (hhigh : 0x80 ≤ b) :
    quoteEnd bytes escaped quote i = quoteEnd bytes escaped quote (i + 1) := by
  rw [quoteEnd_at hb, if_neg, if_neg]
  · rintro rfl
    exact absurd hquote (UInt8.not_lt.mpr hhigh)
  · rintro ⟨_, rfl⟩
    exact absurd hhigh (by decide)

/-- **A quoted text ends at the same place**; where a character is left out the bytes go on from the
second of its own. -/
lemma quoteEnd_eq {quote : Char} (hquote : quote.toNat < 0x80) (escaped skip : Bool)
    (before rest : List Char) :
    quoteEnd (utf8 (before ++ rest)) escaped quote.toUInt8 ((utf8 before).length + skip.toNat)
      = extentAt before rest (toQuoteEnd quote escaped skip rest) := by
  have hlow : quote.toUInt8 < 0x80 := by
    rw [UInt8.lt_iff_toNat_lt, toNat_toUInt8 hquote]
    exact hquote
  induction rest generalizing before skip with
  | nil =>
      rw [quoteEnd_end (by simp), List.append_nil]
      cases skip <;> exact (extentAt_zero before [] false).symm
  | cons c cs ih =>
      have hnext : ∀ skip, quoteEnd (utf8 (before ++ c :: cs)) escaped quote.toUInt8
            ((utf8 (before ++ [c])).length + skip.toNat)
          = extentAt before (c :: cs) (further 1 (toQuoteEnd quote escaped skip cs)) := by
        intro skip
        have hcs := ih skip (before ++ [c])
        rw [List.append_assoc] at hcs
        rw [extentAt_further]
        exact hcs
      have hhigh : ∀ i b, (utf8 (before ++ c :: cs))[i]? = some b → 0x80 ≤ b →
          quoteEnd (utf8 (before ++ c :: cs)) escaped quote.toUInt8 i
            = quoteEnd (utf8 (before ++ c :: cs)) escaped quote.toUInt8 (i + 1) :=
        fun i b hb hb' => quoteEnd_high hlow hb hb'
      cases skip with
      | true =>
          rw [toQuoteEnd, ← hnext false, Bool.toNat_true, Bool.toNat_false, Nat.add_zero]
          by_cases hc : c.toNat < 0x80
          · rw [length_concat, utf8Size_ascii hc]
          · exact pass_char (Nat.le_of_not_lt hc) hhigh c.utf8Size_pos
      | false =>
          rw [Bool.toNat_false, Nat.add_zero]
          by_cases hc : c.toNat < 0x80
          · have hbyte := (char_at hc before (c :: cs)).mpr rfl
            have hlength : (utf8 (before ++ [c])).length = (utf8 before).length + 1 := by
              rw [length_concat, utf8Size_ascii hc]
            have hone := hnext false
            have htwo := hnext true
            rw [hlength, Bool.toNat_false, Nat.add_zero] at hone
            rw [hlength, Bool.toNat_true, Nat.add_assoc] at htwo
            rw [quoteEnd_at hbyte, toQuoteEnd]
            simp only [toUInt8_inj hc hquote, toUInt8_inj hc (show '\\'.toNat < 0x80 by decide),
              char_behind hc hquote]
            split_ifs with hescape hend hdouble
            · exact htwo
            · exact htwo
            · simp [extentAt, hlength]
            · exact hone
          · have hother : ∀ {a : Char}, a.toNat < 0x80 → c ≠ a := by
              rintro a ha rfl
              exact hc ha
            rw [toQuoteEnd, if_neg fun h => hother (by decide) h.2, if_neg (hother hquote),
              ← hnext false]
            exact pass_char (k := 0) (Nat.le_of_not_lt hc) hhigh (Nat.zero_le _)

/-! ### Lines -/

lemma lineEnd_end {bytes : List UInt8} (h : bytes.length ≤ i) : lineEnd bytes i = bytes.length := by
  rw [lineEnd, List.drop_eq_nil_of_le h]
  rfl

lemma lineEnd_at {bytes : List UInt8} {b : UInt8} (hb : bytes[i]? = some b) :
    lineEnd bytes i = if b = '\n'.toUInt8 ∨ b = '\r'.toUInt8 then i + 1 else lineEnd bytes (i + 1) := by
  obtain ⟨h, rfl⟩ := List.getElem?_eq_some_iff.mp hb
  unfold lineEnd
  rw [List.drop_eq_getElem_cons h, List.findIdx?_cons]
  by_cases hnewline : bytes[i] = '\n'.toUInt8 ∨ bytes[i] = '\r'.toUInt8
  · rw [if_pos hnewline, if_pos (by simpa using hnewline)]
  · rw [if_neg hnewline, if_neg (by simpa using hnewline)]
    cases (bytes.drop (i + 1)).findIdx? fun b => b = '\n'.toUInt8 || b = '\r'.toUInt8 with
    | none => rfl
    | some k =>
        show i + 1 + (k + 1) = i + 1 + 1 + k
        omega

lemma lineEnd_char (hc : c.toNat < 0x80) : lineEnd (utf8 (before ++ c :: rest)) (utf8 before).length
    = if c = '\n' ∨ c = '\r' then (utf8 before).length + 1
      else lineEnd (utf8 (before ++ c :: rest)) ((utf8 before).length + 1) := by
  rw [lineEnd_at ((char_at hc before (c :: rest)).mpr rfl)]
  simp only [toUInt8_inj hc (show '\n'.toNat < 0x80 by decide),
    toUInt8_inj hc (show '\r'.toNat < 0x80 by decide)]

lemma lineEnd_high {bytes : List UInt8} {b : UInt8} (hb : bytes[i]? = some b) (hhigh : 0x80 ≤ b) :
    lineEnd bytes i = lineEnd bytes (i + 1) := by
  rw [lineEnd_at hb, if_neg]
  rintro (rfl | rfl)
  · exact absurd hhigh (by decide)
  · exact absurd hhigh (by decide)

/-- **A line ends at the same place.** -/
lemma lineEnd_eq (before rest : List Char) :
    lineEnd (utf8 (before ++ rest)) (utf8 before).length
      = (utf8 (before ++ rest.take (toLineEnd rest))).length := by
  induction rest generalizing before with
  | nil =>
      rw [lineEnd_end (by simp)]
      rfl
  | cons c cs ih =>
      have hcs := ih (before ++ [c])
      rw [List.append_assoc] at hcs
      rw [toLineEnd]
      by_cases hnewline : c = '\n' ∨ c = '\r'
      · have hc : c.toNat < 0x80 := by
          rcases hnewline with rfl | rfl <;> decide
        rw [lineEnd_char hc, if_pos hnewline, if_pos hnewline]
        simp [length_concat, utf8Size_ascii hc]
      · rw [if_neg hnewline, List.take_succ_cons]
        refine Eq.trans (pass_next (f := lineEnd (utf8 (before ++ c :: cs))) (fun hc => ?_)
          fun i b => lineEnd_high) (hcs.trans (by simp))
        rw [lineEnd_char hc, if_neg hnewline]

/-! ### Runs -/

/-- A condition on characters and one on bytes that tell a text apart at the same places. -/
structure Agree (p : UInt8 → Bool) (q : Char → Bool) : Prop where
  ascii : ∀ c : Char, c.toNat < 0x80 → p c.toUInt8 = q c
  high : ∀ c : Char, 0x80 ≤ c.toNat → ∀ b : UInt8, 0x80 ≤ b → p b = q c

/-- A character has only such bytes, or none. -/
lemma Agree.byte {p : UInt8 → Bool} {q : Char → Bool} (h : Agree p q) {b : UInt8}
    (hb : b ∈ String.utf8EncodeChar c) : p b = q c := by
  by_cases hc : c.toNat < 0x80
  · rw [utf8EncodeChar_ascii hc, List.mem_singleton] at hb
    rw [hb, h.ascii c hc]
  · exact h.high c (Nat.le_of_not_lt hc) b (utf8EncodeChar_not_ascii (Nat.le_of_not_lt hc) hb)

/-- The bytes of a run are those of its characters. -/
lemma Agree.takeWhile {p : UInt8 → Bool} {q : Char → Bool} (h : Agree p q) (rest : List Char) :
    (utf8 rest).takeWhile p = utf8 (rest.takeWhile q) := by
  induction rest with
  | nil => rfl
  | cons c cs ih =>
      have hbytes : ∀ b ∈ String.utf8EncodeChar c, p b = q c := fun b hb => h.byte hb
      rw [utf8_cons, List.takeWhile_cons]
      cases hq : q c with
      | true =>
          rw [List.takeWhile_append_of_pos fun b hb => by rw [hbytes b hb, hq], ih, if_pos rfl]
          rfl
      | false =>
          cases hencoded : String.utf8EncodeChar c with
          | nil => exact absurd hencoded String.utf8EncodeChar_ne_nil
          | cons b bs =>
              have hb := hbytes b (by rw [hencoded]; exact List.mem_cons_self)
              rw [List.cons_append, List.takeWhile_cons, hb, hq]
              rfl

/-- **A run ends at the same place.** -/
lemma Agree.runEnd {p : UInt8 → Bool} {q : Char → Bool} (h : Agree p q) (before rest : List Char) :
    runEnd (utf8 (before ++ rest)) p (utf8 before).length
      = (utf8 (before ++ rest.takeWhile q)).length := by
  rw [Bytes.runEnd, utf8_append, List.drop_left, h.takeWhile, utf8_append, List.length_append]

lemma isAsciiDigit_iff {b : UInt8} : isAsciiDigit b = true ↔ 48 ≤ b.toNat ∧ b.toNat ≤ 57 := by
  simp only [isAsciiDigit, Bool.and_eq_true, decide_eq_true_eq, UInt8.le_iff_toNat_le]
  exact Iff.rfl

lemma isIdentByte_iff {b : UInt8} : isIdentByte b = true ↔
    48 ≤ b.toNat ∧ b.toNat ≤ 57 ∨ 65 ≤ b.toNat ∧ b.toNat ≤ 90 ∨ 97 ≤ b.toNat ∧ b.toNat ≤ 122 ∨
      b.toNat = 95 ∨ b.toNat = 36 ∨ 128 ≤ b.toNat := by
  simp only [isIdentByte, isAsciiAlphanumeric, Bool.or_eq_true, Bool.and_eq_true, decide_eq_true_eq,
    isAsciiDigit_iff, UInt8.le_iff_toNat_le, ← UInt8.toNat_inj]
  show ((((48 ≤ b.toNat ∧ b.toNat ≤ 57 ∨ 65 ≤ b.toNat ∧ b.toNat ≤ 90) ∨
    97 ≤ b.toNat ∧ b.toNat ≤ 122) ∨ b.toNat = 95) ∨ b.toNat = 36) ∨ 128 ≤ b.toNat ↔ _
  omega

lemma high_toNat {b : UInt8} (hb : 0x80 ≤ b) : 128 ≤ b.toNat := UInt8.le_iff_toNat_le.mp hb

lemma agree_digit : Agree isAsciiDigit Char.isDigit where
  ascii c hc := by
    rw [Bool.eq_iff_iff, isAsciiDigit_iff, isDigit_iff, toNat_toUInt8 hc]
  high c hc b hb := by
    have hb' := high_toNat hb
    rw [Bool.eq_iff_iff, isAsciiDigit_iff, isDigit_iff]
    omega

lemma agree_ident : Agree isIdentByte isIdentChar where
  ascii c hc := by
    rw [Bool.eq_iff_iff, isIdentByte_iff, isIdentChar_iff, toNat_toUInt8 hc]
  high c hc b hb := by
    have hb' := high_toNat hb
    rw [Bool.eq_iff_iff, isIdentByte_iff, isIdentChar_iff]
    omega

lemma agree_tag : Agree (fun b => b ≠ '$'.toUInt8 && isIdentByte b) isTagChar where
  ascii c hc := by
    simp only [isTagChar, agree_ident.ascii c hc, ne_eq,
      toUInt8_inj hc (show '$'.toNat < 0x80 by decide)]
  high c hc b hb := by
    have hb' := high_toNat hb
    have hbyte : b ≠ '$'.toUInt8 := by
      rintro rfl
      exact absurd hb (by decide)
    have hchar : c ≠ '$' := by
      rintro rfl
      exact absurd hc (by decide)
    simp [isTagChar, agree_ident.high c hc b hb, hbyte, hchar]

/-! ### Tags -/

lemma findWindow_nil {window : List UInt8} (h : window ≠ []) : findWindow window [] = none := by
  have hpos := List.length_pos_iff.mpr h
  simp [findWindow, show 1 - window.length = 0 by omega]

/-- The first place of some bytes is the next one, or a later one. -/
lemma findWindow_cons {window : List UInt8} (h : window ≠ []) (b : UInt8) (bs : List UInt8) :
    findWindow window (b :: bs)
      = if window <+: b :: bs then some 0 else (findWindow window bs).map (· + 1) := by
  have hpos := List.length_pos_iff.mpr h
  by_cases hlen : window.length ≤ (b :: bs).length
  · have hrange : (b :: bs).length + 1 - window.length = bs.length + 1 - window.length + 1 := by
      rw [List.length_cons] at hlen ⊢
      omega
    rw [findWindow, hrange, List.range_succ_eq_map, List.find?_cons, List.drop_zero]
    by_cases hprefix : window <+: b :: bs
    · rw [if_pos hprefix, ← List.prefix_iff_eq_take.mp hprefix]
      simp
    · have hne : ¬ (b :: bs).take window.length = window := fun heq =>
        hprefix (List.prefix_iff_eq_take.mpr heq.symm)
      rw [if_neg hprefix, decide_eq_false hne, List.find?_map]
      rfl
  · have hnot : ¬ window <+: b :: bs := fun hprefix => hlen hprefix.length_le
    rw [if_neg hnot, findWindow, findWindow, List.length_cons] at *
    rw [show bs.length + 1 + 1 - window.length = 0 by omega,
      show bs.length + 1 - window.length = 0 by omega]
    rfl

/-- Bytes that are not the first of the window. -/
lemma findWindow_skip {window : List UInt8} {a : UInt8} (ha : window.head? = some a)
    (rest : List UInt8) : ∀ {bs : List UInt8}, (∀ b ∈ bs, b ≠ a) →
      findWindow window (bs ++ rest) = (findWindow window rest).map (· + bs.length)
  | [], _ => by simp
  | b :: bs, h => by
      rw [List.forall_mem_cons] at h
      obtain ⟨window, rfl⟩ := List.head?_eq_some_iff.mp ha
      have hnot : ¬ a :: window <+: b :: (bs ++ rest) := fun hprefix =>
        h.1 (List.cons_prefix_cons.mp hprefix).1.symm
      rw [List.cons_append, findWindow_cons (List.cons_ne_nil _ _), if_neg hnot,
        findWindow_skip ha rest h.2, Option.map_map]
      rfl

/-- A character that the tag does not start at. -/
lemma findWindow_char {tag cs : List Char} (hhead : tag.head? = some '$') (hnot : ¬ tag <+: c :: cs) :
    findWindow (utf8 tag) (utf8 (c :: cs))
      = (findWindow (utf8 tag) (utf8 cs)).map (· + c.utf8Size) := by
  have hdollar : (utf8 tag).head? = some '$'.toUInt8 := by
    rw [List.head?_eq_getElem?]
    exact (char_at (by decide) [] tag).mpr hhead
  by_cases hc : c.toNat < 0x80
  · have hne : utf8 tag ≠ [] := by
      intro hnil
      rw [hnil] at hdollar
      cases hdollar
    have hbytes : utf8 (c :: cs) = c.toUInt8 :: utf8 cs := by
      rw [utf8_cons, utf8EncodeChar_ascii hc, List.singleton_append]
    rw [← utf8_prefix_iff, hbytes] at hnot
    rw [hbytes, findWindow_cons hne, if_neg hnot, utf8Size_ascii hc]
  · rw [utf8_cons, findWindow_skip hdollar _ fun b hb => ?_, String.length_utf8EncodeChar]
    rintro rfl
    exact absurd (utf8EncodeChar_not_ascii (Nat.le_of_not_lt hc) hb) (by decide)

/-- **A tag is found at the same place**, or in neither. -/
lemma findWindow_eq {tag : List Char} (hhead : tag.head? = some '$') (rest : List Char) :
    (findWindow (utf8 tag) (utf8 rest) = none ∧ toTagEnd tag rest = (rest.length, false)) ∨
      ∃ inside after, rest = inside ++ (tag ++ after) ∧
        findWindow (utf8 tag) (utf8 rest) = some (utf8 inside).length ∧
        toTagEnd tag rest = (inside.length + tag.length, true) := by
  have hne : utf8 tag ≠ [] := by
    intro hnil
    have htag : tag = [] := utf8_eq_nil (by rw [hnil]; rfl)
    rw [htag] at hhead
    cases hhead
  induction rest with
  | nil => exact .inl ⟨findWindow_nil hne, rfl⟩
  | cons c cs ih =>
      by_cases hprefix : tag <+: c :: cs
      · obtain ⟨after, hafter⟩ := hprefix
        refine .inr ⟨[], after, hafter.symm, ?_, ?_⟩
        · cases hbytes : utf8 (c :: cs) with
          | nil => exact absurd (utf8_eq_nil (by rw [hbytes]; rfl)) (List.cons_ne_nil c cs)
          | cons b bs =>
              rw [findWindow_cons hne, if_pos]
              · rfl
              · rw [← hbytes, utf8_prefix_iff]
                exact ⟨after, hafter⟩
        · rw [toTagEnd, if_pos (List.isPrefixOf_iff_prefix.mpr ⟨after, hafter⟩)]
          simp
      · have hstep := findWindow_char hhead hprefix
        have hend : toTagEnd tag (c :: cs) = further 1 (toTagEnd tag cs) := by
          rw [toTagEnd, if_neg fun h => hprefix (List.isPrefixOf_iff_prefix.mp h)]
        rw [hstep, hend]
        rcases ih with ⟨hnone, hopen⟩ | ⟨inside, after, rfl, hsome, hclosed⟩
        · exact .inl ⟨by rw [hnone]; rfl, by rw [hopen]; rfl⟩
        · refine .inr ⟨c :: inside, after, rfl, ?_, ?_⟩
          · rw [hsome, length_utf8_cons, Nat.add_comm]
            rfl
          · rw [hclosed, further, List.length_cons, Nat.add_right_comm]

/-- **A text between dollar signs ends at the same place.** -/
lemma dollarEnd_eq {tag : List Char} (hhead : tag.head? = some '$') (before rest : List Char) :
    dollarEnd (utf8 (before ++ tag ++ rest)) (utf8 before).length (utf8 (before ++ tag)).length
      = extentAt (before ++ tag) rest (toTagEnd tag rest) := by
  have htag : ((utf8 (before ++ tag ++ rest)).take (utf8 (before ++ tag)).length).drop
      (utf8 before).length = utf8 tag := by
    rw [utf8_append (before ++ tag), List.take_left, utf8_append, List.drop_left]
  have hrest : (utf8 (before ++ tag ++ rest)).drop (utf8 (before ++ tag)).length = utf8 rest := by
    rw [utf8_append (before ++ tag), List.drop_left]
  unfold dollarEnd
  simp only [htag, hrest]
  rcases findWindow_eq hhead rest with ⟨hnone, hopen⟩ | ⟨inside, after, rfl, hsome, hclosed⟩
  · rw [hnone, hopen]
    simp [extentAt]
  · rw [hsome, hclosed]
    have htake : (inside ++ (tag ++ after)).take (inside.length + tag.length) = inside ++ tag := by
      rw [← List.append_assoc, ← List.length_append, List.take_left]
    simp only [extentAt, htake, utf8_append, List.length_append, Nat.add_assoc]

/-! ### Regions -/

/-- Both conditions hold of what is at a position, or neither. -/
lemma Agree.head {p : UInt8 → Bool} {q : Char → Bool} (h : Agree p q) (before rest : List Char) :
    (utf8 (before ++ rest))[(utf8 before).length]?.any p = rest.head?.any q := by
  cases rest with
  | nil => simp
  | cons c cs =>
      obtain ⟨b, hbyte, hb⟩ := exists_byte before c cs
      rw [hbyte, Option.any_some, h.byte hb, List.head?_cons, Option.any_some]

/-- **The character before a position tells what the byte before it does.** -/
lemma afterIdent_eq (before rest : List Char) :
    afterIdent (utf8 (before ++ rest)) (utf8 before).length
      = OdooKernel.afterIdent before.getLast? := by
  rcases List.eq_nil_or_concat before with rfl | ⟨xs, c, rfl⟩
  · rfl
  · have hpos := c.utf8Size_pos
    have hlt : c.utf8Size - 1 < (String.utf8EncodeChar c).length := by
      rw [String.length_utf8EncodeChar]
      omega
    have hbyte : (utf8 (xs ++ [c] ++ rest))[(utf8 (xs ++ [c])).length - 1]?
        = some (String.utf8EncodeChar c)[c.utf8Size - 1] := by
      rw [length_concat, Nat.add_sub_assoc hpos, List.append_assoc, getElem?_behind,
        List.singleton_append, utf8_cons, List.getElem?_append_left hlt, List.getElem?_eq_getElem hlt]
    have hident := agree_ident.byte (List.getElem_mem hlt)
    have hlen : 0 < (utf8 xs).length + c.utf8Size := Nat.add_pos_right _ hpos
    rw [List.concat_eq_append, afterIdent, hbyte, List.getLast?_append, length_concat]
    simp [OdooKernel.afterIdent, hident, hlen]

/-- A region behind some characters, by the offset that it ends at. -/
def regionAt (before : List Char) (c : Char) (cs : List Char) (o : Opaque) : Region :=
  { kind := o.kind, stop := (utf8 (before ++ c :: cs.take o.more)).length, terminated := o.terminated }

/-- A region behind the character that it starts with. -/
lemma regionAt_one (before : List Char) (c : Char) (cs : List Char) (kind : Kind)
    (extent : ℕ × Bool) :
    regionAt before c cs ⟨kind, extent.1, extent.2⟩
      = ⟨kind, (extentAt (before ++ [c]) cs extent).1, (extentAt (before ++ [c]) cs extent).2⟩ := by
  simp [regionAt, extentAt]

/-- A region behind two characters that it starts with. -/
lemma regionAt_two (before : List Char) (c d : Char) (cs : List Char) (kind : Kind)
    (extent : ℕ × Bool) :
    regionAt before c (d :: cs) ⟨kind, (further 1 extent).1, (further 1 extent).2⟩
      = ⟨kind, (extentAt (before ++ [c, d]) cs extent).1,
          (extentAt (before ++ [c, d]) cs extent).2⟩ := by
  simp [regionAt, extentAt, further]

/-- No region starts at a byte that is none of ASCII. -/
lemma opaque?_high {bytes : List UInt8} {b : UInt8} (hb : bytes[i]? = some b) (hhigh : 0x80 ≤ b) :
    opaque? bytes i = none := by
  have hne : ∀ a : UInt8, a < 0x80 → b ≠ a := by
    rintro a ha rfl
    exact absurd ha (UInt8.not_lt.mpr hhigh)
  rw [opaque?, hb]
  simp [hne '-'.toUInt8 (by decide), hne '/'.toUInt8 (by decide), hne 'e'.toUInt8 (by decide),
    hne 'E'.toUInt8 (by decide), hne '\''.toUInt8 (by decide), hne '"'.toUInt8 (by decide),
    hne '$'.toUInt8 (by decide)]

/-- No region starts at a character that is none of ASCII. -/
lemma opaqueAt_high (hc : 0x80 ≤ c.toNat) (last : Option Char) (cs : List Char) :
    opaqueAt last c cs = none := by
  have hne : ∀ a : Char, a.toNat < 0x80 → c ≠ a := by
    rintro a ha rfl
    omega
  simp [opaqueAt, hne '-' (by decide), hne '/' (by decide), hne 'e' (by decide), hne 'E' (by decide),
    hne '\'' (by decide), hne '"' (by decide), hne '$' (by decide)]

/-- The tag of a text between dollar signs. -/
lemma tag_eq (before cs : List Char) :
    runEnd (utf8 (before ++ '$' :: cs)) (fun b => b ≠ '$'.toUInt8 && isIdentByte b)
        ((utf8 before).length + 1)
      = (utf8 (before ++ '$' :: cs.takeWhile isTagChar)).length := by
  have h := agree_tag.runEnd (before ++ ['$']) cs
  rw [List.append_assoc, List.append_assoc, length_concat] at h
  exact h

/-- Whether the tag is closed. -/
lemma tag_closed_iff (before cs : List Char) :
    (utf8 (before ++ '$' :: cs))[(utf8 (before ++ '$' :: cs.takeWhile isTagChar)).length]?
        = some '$'.toUInt8
      ↔ (cs.drop (cs.takeWhile isTagChar).length).head? = some '$' := by
  have h := char_at (a := '$') (by decide) (before ++ '$' :: cs.takeWhile isTagChar)
    (cs.drop (cs.takeWhile isTagChar).length)
  rwa [List.append_assoc, List.cons_append,
    List.prefix_iff_eq_append.mp (List.takeWhile_prefix isTagChar)] at h

/-- The text behind a tag that is closed. -/
lemma dollarEnd_tag (before tag rest : List Char) :
    dollarEnd (utf8 (before ++ '$' :: (tag ++ '$' :: rest))) (utf8 before).length
        ((utf8 (before ++ '$' :: tag)).length + 1)
      = extentAt (before ++ ('$' :: tag ++ ['$'])) rest (toTagEnd ('$' :: tag ++ ['$']) rest) := by
  have hlength : (utf8 (before ++ ('$' :: tag ++ ['$']))).length
      = (utf8 (before ++ '$' :: tag)).length + 1 := by
    rw [← List.append_assoc, length_concat, utf8Size_ascii (by decide)]
  have htext : before ++ ('$' :: tag ++ ['$']) ++ rest = before ++ '$' :: (tag ++ '$' :: rest) := by
    simp
  rw [← hlength, ← htext]
  exact dollarEnd_eq rfl before rest

/-- A region behind the tag that it starts with. -/
lemma regionAt_tag (before tag rest : List Char) (extent : ℕ × Bool) :
    regionAt before '$' (tag ++ '$' :: rest)
        ⟨.dollarString, (further (tag.length + 1) extent).1, (further (tag.length + 1) extent).2⟩
      = ⟨.dollarString, (extentAt (before ++ ('$' :: tag ++ ['$'])) rest extent).1,
          (extentAt (before ++ ('$' :: tag ++ ['$'])) rest extent).2⟩ := by
  have htake : (tag ++ '$' :: rest).take (extent.1 + (tag.length + 1))
      = tag ++ '$' :: rest.take extent.1 := by
    rw [List.take_append, List.take_of_length_le (by omega),
      show extent.1 + (tag.length + 1) - tag.length = extent.1 + 1 by omega, List.take_succ_cons]
  simp [regionAt, extentAt, further, htake]

/-- **A region of the bytes is one of the characters.**  At the offset behind some characters the lexer
finds what it finds at their end, and the offset it returns is the one behind the region. -/
theorem opaque?_eq (before : List Char) (c : Char) (cs : List Char) :
    opaque? (utf8 (before ++ c :: cs)) (utf8 before).length
      = (opaqueAt before.getLast? c cs).map (regionAt before c cs) := by
  by_cases hc : c.toNat < 0x80
  · have hbyte := (char_at hc before (c :: cs)).mpr rfl
    have hdigit : (utf8 (before ++ c :: cs))[(utf8 before).length + 1]?.any isAsciiDigit
        = cs.head?.any Char.isDigit := by
      have h := agree_digit.head (before ++ [c]) cs
      rwa [length_concat, utf8Size_ascii hc, List.append_assoc] at h
    have hident := afterIdent_eq before (c :: cs)
    unfold opaque? opaqueAt
    rw [hbyte]
    simp only [toUInt8_inj hc (show '-'.toNat < 0x80 by decide),
      toUInt8_inj hc (show '/'.toNat < 0x80 by decide),
      toUInt8_inj hc (show 'e'.toNat < 0x80 by decide),
      toUInt8_inj hc (show 'E'.toNat < 0x80 by decide),
      toUInt8_inj hc (show '\''.toNat < 0x80 by decide),
      toUInt8_inj hc (show '"'.toNat < 0x80 by decide),
      toUInt8_inj hc (show '$'.toNat < 0x80 by decide),
      char_behind hc (show '-'.toNat < 0x80 by decide),
      char_behind hc (show '*'.toNat < 0x80 by decide),
      char_behind hc (show '\''.toNat < 0x80 by decide), hident, hdigit]
    split_ifs with hline hblock hescaped hquote hname hdollar htag
    · obtain ⟨rfl, hhead⟩ := hline
      obtain ⟨rest, rfl⟩ := List.head?_eq_some_iff.mp hhead
      have hend := lineEnd_eq (before ++ ['-', '-']) rest
      rw [List.append_assoc, (mark_bytes (by decide) (by decide) before rest).2.2] at hend
      rw [Option.map_some, List.cons_append, List.cons_append, List.nil_append] at *
      rw [hend]
      simp [regionAt]
    · obtain ⟨rfl, hhead⟩ := hblock
      obtain ⟨rest, rfl⟩ := List.head?_eq_some_iff.mp hhead
      rw [Option.map_some, List.tail_cons, regionAt_two, ← commentEnd_eq, List.append_assoc,
        (mark_bytes (by decide) (by decide) before rest).2.2]
      rfl
    · obtain ⟨hletter, hhead, _⟩ := of_decide_eq_true hescaped
      obtain ⟨rest, rfl⟩ := List.head?_eq_some_iff.mp hhead
      rw [Option.map_some, List.tail_cons, regionAt_two, ← quoteEnd_eq (by decide), List.append_assoc,
        (mark_bytes hc (by decide) before rest).2.2]
      rfl
    · rw [Option.map_some, regionAt_one, ← quoteEnd_eq hc, List.append_assoc, length_concat,
        utf8Size_ascii hc]
      rfl
    · rw [Option.map_some, regionAt_one, ← quoteEnd_eq hc, List.append_assoc, length_concat,
        utf8Size_ascii hc]
      rfl
    · obtain ⟨rfl, -, -⟩ := hdollar
      rw [tag_eq, tag_closed_iff] at htag
      obtain ⟨rest, hrest⟩ := List.head?_eq_some_iff.mp htag
      have hcs : cs.takeWhile isTagChar ++ '$' :: rest = cs := by
        rw [← hrest]
        exact List.prefix_iff_eq_append.mp (List.takeWhile_prefix isTagChar)
      rw [hrest, tag_eq]
      generalize cs.takeWhile isTagChar = tag at hcs
      subst hcs
      rw [dollarEnd_tag]
      exact congrArg some (regionAt_tag before tag rest _).symm
    · obtain ⟨rfl, -, -⟩ := hdollar
      rw [tag_eq, tag_closed_iff] at htag
      split
      · next hrest =>
          rw [hrest] at htag
          exact absurd rfl htag
      · rfl
    · rfl
  · have hhigh := Nat.le_of_not_lt hc
    obtain ⟨b, hbyte, hb⟩ := exists_byte before c cs
    rw [opaque?_high hbyte (utf8EncodeChar_not_ascii hhigh hb), opaqueAt_high hhigh]
    rfl

end Offsets

end Bytes

end OdooKernel
