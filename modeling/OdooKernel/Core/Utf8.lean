import Mathlib.Data.Nat.Notation
import Mathlib.Tactic.Common

/-!
# Texts and their bytes

A text is kept in UTF-8, and its parts are named by offsets in bytes.  An offset inside a character
names no part: there is no text behind it (`fromOffset`), which is how slicing a string fails.

**Bytes of ASCII.**  A program that looks for marks of ASCII may go over bytes, because a character
of ASCII is its own byte and no other character has a byte of ASCII. So the offset of such a byte,
and the one behind it, name parts (`ascii_boundary`).

* `utf8` — the bytes of a text; `utf8_append`.
* `fromOffset`, `slice?` — the parts of a text, by offsets.
* `IsCharBoundary` — the offsets that name a part; `isCharBoundary_iff` tells them by the byte there.
* `utf8EncodeChar_ascii`, `utf8EncodeChar_not_ascii` — the bytes of a character of ASCII, and of any
  other.
* `utf8_prefix_iff` — texts that start with the same bytes start with the same characters.
-/

namespace OdooKernel

/-- The bytes of a text. -/
def utf8 (text : List Char) : List UInt8 := text.flatMap String.utf8EncodeChar

/-- What stands behind so many bytes. -/
def fromOffset : List Char → ℕ → Option (List Char)
  | text, 0 => some text
  | [], _ + 1 => none
  | c :: cs, n + 1 => if c.utf8Size ≤ n + 1 then fromOffset cs (n + 1 - c.utf8Size) else none

/-- So many bytes at the start of a text. -/
def upToOffset : List Char → ℕ → Option (List Char)
  | _, 0 => some []
  | [], _ + 1 => none
  | c :: cs, n + 1 =>
    if c.utf8Size ≤ n + 1 then (upToOffset cs (n + 1 - c.utf8Size)).map (c :: ·) else none

/-- The part of a text between two offsets. -/
def slice? (text : List Char) (start stop : ℕ) : Option (List Char) :=
  if start ≤ stop then (fromOffset text start).bind fun rest => upToOffset rest (stop - start) else none

/-- **An offset between two characters**, or at an end. -/
def IsCharBoundary (text : List Char) (i : ℕ) : Prop := (fromOffset text i).isSome

lemma length_utf8_cons (c : Char) (cs : List Char) :
    (utf8 (c :: cs)).length = c.utf8Size + (utf8 cs).length := by
  simp [utf8]

@[simp] lemma fromOffset_zero (text : List Char) : fromOffset text 0 = some text := by
  cases text <;> rfl

/-- Behind a character. -/
lemma fromOffset_cons {c : Char} {i : ℕ} (hi : c.utf8Size ≤ i) (cs : List Char) :
    fromOffset (c :: cs) i = fromOffset cs (i - c.utf8Size) := by
  cases i with
  | zero =>
      have := c.utf8Size_pos
      omega
  | succ n => rw [fromOffset, if_pos hi]

/-- Inside a character there is no part. -/
lemma fromOffset_inside {c : Char} {i : ℕ} (hi : i < c.utf8Size) (hpos : 0 < i) (cs : List Char) :
    fromOffset (c :: cs) i = none := by
  cases i with
  | zero => omega
  | succ n => rw [fromOffset, if_neg (by omega)]

/-- **A part by what stands before it.** -/
lemma fromOffset_eq_some {text rest : List Char} {i : ℕ} :
    fromOffset text i = some rest ↔ ∃ before, text = before ++ rest ∧ (utf8 before).length = i := by
  induction text generalizing i with
  | nil =>
      cases i with
      | zero =>
          constructor
          · intro h
            obtain rfl := Option.some.inj h
            exact ⟨[], rfl, rfl⟩
          · rintro ⟨before, htext, _⟩
            rw [(List.append_eq_nil_iff.mp htext.symm).2]
            rfl
      | succ n =>
          constructor
          · intro h
            cases h
          · rintro ⟨before, htext, hlength⟩
            rw [(List.append_eq_nil_iff.mp htext.symm).1] at hlength
            cases hlength
  | cons c cs ih =>
      constructor
      · intro h
        by_cases hzero : i = 0
        · subst hzero
          rw [fromOffset_zero] at h
          obtain rfl := Option.some.inj h
          exact ⟨[], rfl, rfl⟩
        · by_cases hi : c.utf8Size ≤ i
          · rw [fromOffset_cons hi] at h
            obtain ⟨before, rfl, hlength⟩ := ih.mp h
            refine ⟨c :: before, rfl, ?_⟩
            rw [length_utf8_cons, hlength]
            omega
          · rw [fromOffset_inside (by omega) (by omega)] at h
            cases h
      · rintro ⟨before, htext, rfl⟩
        cases before with
        | nil =>
            rw [List.nil_append] at htext
            rw [htext]
            exact fromOffset_zero rest
        | cons d ds =>
            obtain ⟨rfl, hcs⟩ := List.cons_eq_cons.mp htext
            rw [length_utf8_cons, fromOffset_cons (Nat.le_add_right _ _), Nat.add_sub_cancel_left]
            exact ih.mpr ⟨ds, hcs, rfl⟩

/-- The bytes before an offset and behind it. -/
lemma utf8_append (xs ys : List Char) : utf8 (xs ++ ys) = utf8 xs ++ utf8 ys :=
  List.flatMap_append

lemma length_le_of_fromOffset {text rest : List Char} {i : ℕ} (h : fromOffset text i = some rest) :
    i + (utf8 rest).length = (utf8 text).length := by
  obtain ⟨before, rfl, rfl⟩ := fromOffset_eq_some.mp h
  rw [utf8_append, List.length_append]

lemma upToOffset_append (xs rest : List Char) :
    upToOffset (xs ++ rest) (utf8 xs).length = some xs := by
  induction xs with
  | nil => cases rest <;> rfl
  | cons c cs ih =>
      have hpos := c.utf8Size_pos
      obtain ⟨n, hn⟩ : ∃ n, (utf8 (c :: cs)).length = n + 1 :=
        ⟨(utf8 (c :: cs)).length - 1, by rw [length_utf8_cons]; omega⟩
      rw [hn, List.cons_append, upToOffset, ← hn, length_utf8_cons, if_pos (Nat.le_add_right _ _),
        Nat.add_sub_cancel_left, ih]
      rfl

/-- The part between two offsets. -/
lemma slice?_append (xs ys zs : List Char) :
    slice? (xs ++ (ys ++ zs)) (utf8 xs).length (utf8 (xs ++ ys)).length = some ys := by
  have hrest : fromOffset (xs ++ (ys ++ zs)) (utf8 xs).length = some (ys ++ zs) :=
    fromOffset_eq_some.mpr ⟨xs, rfl, rfl⟩
  rw [slice?, hrest, utf8_append, List.length_append, if_pos (Nat.le_add_right _ _),
    Nat.add_sub_cancel_left]
  exact upToOffset_append ys zs

lemma utf8_eq_nil {text : List Char} (h : (utf8 text).length = 0) : text = [] := by
  cases text with
  | nil => rfl
  | cons c cs =>
      have hpos := c.utf8Size_pos
      rw [length_utf8_cons] at h
      omega

/-- **A part may be cut between two boundaries.** -/
lemma isSome_slice? {text : List Char} {i j : ℕ} (hij : i ≤ j) (hi : IsCharBoundary text i)
    (hj : IsCharBoundary text j) : (slice? text i j).isSome := by
  obtain ⟨rest, hrest⟩ := Option.isSome_iff_exists.mp hi
  obtain ⟨rest', hrest'⟩ := Option.isSome_iff_exists.mp hj
  obtain ⟨before, rfl, rfl⟩ := fromOffset_eq_some.mp hrest
  obtain ⟨before', htext, rfl⟩ := fromOffset_eq_some.mp hrest'
  -- the longer of the two beginnings starts with the shorter one
  obtain ⟨part, rfl, rfl⟩ : ∃ part, before' = before ++ part ∧ rest = part ++ rest' := by
    rcases List.append_eq_append_iff.mp htext with hpart | ⟨part, rfl, rfl⟩
    · exact hpart
    · rw [utf8_append, List.length_append] at hij
      obtain rfl : part = [] := utf8_eq_nil (by omega)
      exact ⟨[], by simp, rfl⟩
  rw [slice?_append]
  rfl

/-! ## The byte at an offset -/

/-- The bytes of a character behind its first. -/
lemma continuation_byte (m : ℕ) : (0x80 : UInt8) ≤ UInt8.ofNat (m % 0x40 + 0x80) ∧
    UInt8.ofNat (m % 0x40 + 0x80) < 0xC0 := by
  rw [UInt8.le_iff_toNat_le, UInt8.lt_iff_toNat_lt]
  simp
  omega

/-- The first byte of a character of several. -/
lemma first_byte {m : ℕ} (hlow : 0xC0 ≤ m) (hhigh : m < 0x100) : (0xC0 : UInt8) ≤ UInt8.ofNat m := by
  rw [UInt8.le_iff_toNat_le]
  simp
  omega

/-- The bytes of a character: one of ASCII, or several that are none. -/
lemma utf8EncodeChar_cases (c : Char) : (∃ b, String.utf8EncodeChar c = [b] ∧ b < 0x80) ∨
    ∃ b bs, String.utf8EncodeChar c = b :: bs ∧ bs ≠ [] ∧ 0xC0 ≤ b ∧
      ∀ d ∈ bs, (0x80 : UInt8) ≤ d ∧ d < 0xC0 := by
  unfold String.utf8EncodeChar
  simp only
  split
  · next h =>
      left
      refine ⟨_, rfl, ?_⟩
      rw [UInt8.lt_iff_toNat_lt, UInt8.toNat_ofNat']
      show c.val.toNat % 256 < 128
      omega
  · right
    split
    · refine ⟨_, _, rfl, List.cons_ne_nil _ _, first_byte (by omega) (by omega), ?_⟩
      simp only [List.forall_mem_cons, List.not_mem_nil, false_implies, implies_true, and_true]
      exact continuation_byte _
    · split
      · refine ⟨_, _, rfl, List.cons_ne_nil _ _, first_byte (by omega) (by omega), ?_⟩
        simp only [List.forall_mem_cons, List.not_mem_nil, false_implies, implies_true, and_true]
        exact ⟨continuation_byte _, continuation_byte _⟩
      · refine ⟨_, _, rfl, List.cons_ne_nil _ _, first_byte (by omega) (by omega), ?_⟩
        simp only [List.forall_mem_cons, List.not_mem_nil, false_implies, implies_true, and_true]
        exact ⟨continuation_byte _, continuation_byte _, continuation_byte _⟩

/-- A character of ASCII is one byte. -/
lemma utf8EncodeChar_ascii {c : Char} (h : c.toNat < 0x80) : String.utf8EncodeChar c = [c.toUInt8] := by
  have hsize : c.utf8Size = 1 := by
    rw [Char.utf8Size_eq_one_iff, UInt32.le_iff_toNat_le]
    exact Nat.le_of_lt_succ h
  exact String.utf8EncodeChar_eq_singleton hsize

lemma toNat_toUInt8 {c : Char} (h : c.toNat < 0x80) : c.toUInt8.toNat = c.toNat := by
  show c.val.toNat % 256 = c.val.toNat
  exact Nat.mod_eq_of_lt (Nat.lt_trans h (by decide))

lemma toUInt8_inj {c d : Char} (hc : c.toNat < 0x80) (hd : d.toNat < 0x80) :
    c.toUInt8 = d.toUInt8 ↔ c = d := by
  rw [← UInt8.toNat_inj, toNat_toUInt8 hc, toNat_toUInt8 hd]
  exact ⟨fun h => Char.ext (UInt32.toNat_inj.mp h), congrArg Char.toNat⟩

lemma utf8Size_ascii {c : Char} (h : c.toNat < 0x80) : c.utf8Size = 1 := by
  rw [← String.length_utf8EncodeChar, utf8EncodeChar_ascii h]
  rfl

/-- A text of ASCII has a byte for each character. -/
lemma length_utf8_ascii {xs : List Char} (h : ∀ c ∈ xs, c.toNat < 0x80) :
    (utf8 xs).length = xs.length := by
  induction xs with
  | nil => rfl
  | cons c cs ih =>
      rw [List.forall_mem_cons] at h
      rw [length_utf8_cons, utf8Size_ascii h.1, ih h.2, List.length_cons, Nat.add_comm]

/-- The bytes of any other character are none of ASCII. -/
lemma utf8EncodeChar_not_ascii {c : Char} (h : 0x80 ≤ c.toNat) {b : UInt8}
    (hb : b ∈ String.utf8EncodeChar c) : 0x80 ≤ b := by
  rcases utf8EncodeChar_cases c with ⟨a, hbytes, ha⟩ | ⟨a, bs, hbytes, _, ha, hbs⟩
  · have hsize : c.utf8Size = 1 := by
      rw [← String.length_utf8EncodeChar, hbytes]
      rfl
    rw [Char.utf8Size_eq_one_iff, UInt32.le_iff_toNat_le] at hsize
    have hlow : c.toNat ≤ 127 := hsize
    omega
  · rw [hbytes, List.mem_cons] at hb
    rcases hb with rfl | hb
    · exact UInt8.le_trans (by decide) ha
    · exact (hbs b hb).1

/-- A byte inside a character is none of ASCII, and no first one. -/
lemma utf8EncodeChar_inside (c : Char) {i : ℕ} {b : UInt8}
    (h : (String.utf8EncodeChar c)[i]? = some b) :
    (i = 0 ∧ (b < 0x80 → c.utf8Size = 1) ∧ (b < 0x80 ∨ 0xC0 ≤ b)) ∨
      (0 < i ∧ 0x80 ≤ b ∧ b < 0xC0) := by
  rcases utf8EncodeChar_cases c with ⟨a, hbytes, ha⟩ | ⟨a, bs, hbytes, hne, ha, hbs⟩
  · rw [hbytes] at h
    have hsize : c.utf8Size = 1 := by
      rw [← String.length_utf8EncodeChar, hbytes]
      rfl
    cases i with
    | zero =>
        obtain rfl := Option.some.inj h
        exact .inl ⟨rfl, fun _ => hsize, .inl ha⟩
    | succ i => cases h
  · rw [hbytes] at h
    cases i with
    | zero =>
        obtain rfl := Option.some.inj h
        refine .inl ⟨rfl, fun hlow => ?_, .inr ha⟩
        exact absurd (UInt8.lt_of_le_of_lt ha hlow) (by decide)
    | succ i =>
        exact .inr ⟨Nat.succ_pos i, hbs b (List.mem_of_getElem? h)⟩

/-- **A byte of ASCII is a character of its own.** -/
lemma ascii_boundary {text : List Char} {i : ℕ} {b : UInt8} (h : (utf8 text)[i]? = some b)
    (hb : b < 0x80) : IsCharBoundary text i ∧ IsCharBoundary text (i + 1) := by
  induction text generalizing i with
  | nil => cases h
  | cons c cs ih =>
      by_cases hi : i < c.utf8Size
      · have hbyte : (String.utf8EncodeChar c)[i]? = some b := by
          rwa [utf8, List.flatMap_cons, List.getElem?_append_left (by simpa using hi)] at h
        rcases utf8EncodeChar_inside c hbyte with ⟨rfl, hsize, _⟩ | ⟨_, hlow, _⟩
        · refine ⟨by simp [IsCharBoundary], ?_⟩
          rw [IsCharBoundary, fromOffset_cons (Nat.le_of_eq (hsize hb)), hsize hb]
          simp
        · exact absurd hb (UInt8.not_lt.mpr hlow)
      · have hbyte : (utf8 cs)[i - c.utf8Size]? = some b := by
          rw [utf8, List.flatMap_cons, List.getElem?_append_right (by simpa using hi)] at h
          simpa [utf8] using h
        obtain ⟨hstart, hstop⟩ := ih hbyte
        rw [IsCharBoundary, IsCharBoundary, fromOffset_cons (by omega), fromOffset_cons (by omega)]
        refine ⟨hstart, ?_⟩
        rwa [IsCharBoundary, show i - c.utf8Size + 1 = i + 1 - c.utf8Size by omega] at hstop

/-- **A boundary by its byte**: an end of the text, or a byte that no character has inside. -/
lemma isCharBoundary_iff {text : List Char} {i : ℕ} : IsCharBoundary text i ↔
    i = 0 ∨ i = (utf8 text).length ∨ ∃ b, (utf8 text)[i]? = some b ∧ (b < 0x80 ∨ 0xC0 ≤ b) := by
  induction text generalizing i with
  | nil =>
      cases i with
      | zero => simp [IsCharBoundary]
      | succ n => simp [IsCharBoundary, fromOffset, utf8]
  | cons c cs ih =>
      have hlength := length_utf8_cons c cs
      by_cases hzero : i = 0
      · subst hzero
        simp [IsCharBoundary]
      · by_cases hi : i < c.utf8Size
        · rw [IsCharBoundary, fromOffset_inside hi (by omega)]
          constructor
          · intro h
            cases h
          · rintro (h | h | ⟨b, hb, hfirst⟩)
            · exact absurd h hzero
            · omega
            · rw [utf8, List.flatMap_cons, List.getElem?_append_left (by simpa using hi)] at hb
              rcases utf8EncodeChar_inside c hb with ⟨h, _⟩ | ⟨_, hlow, hhigh⟩
              · exact absurd h hzero
              · rcases hfirst with hfirst | hfirst
                · exact absurd hfirst (UInt8.not_lt.mpr hlow)
                · exact absurd hhigh (UInt8.not_lt.mpr hfirst)
        · have hbyte : (utf8 (c :: cs))[i]? = (utf8 cs)[i - c.utf8Size]? := by
            rw [utf8, List.flatMap_cons, List.getElem?_append_right (by simpa using hi)]
            simp [utf8]
          have hend : i = (utf8 (c :: cs)).length ↔ i - c.utf8Size = (utf8 cs).length := by
            omega
          rw [IsCharBoundary, fromOffset_cons (by omega), hbyte, hend]
          refine ih.trans ?_
          constructor
          · rintro (h | h)
            · -- the next character starts here, or the text ends
              right
              cases cs with
              | nil => exact .inl h
              | cons d ds =>
                  right
                  rcases utf8EncodeChar_cases d with ⟨a, hbytes, ha⟩ | ⟨a, bs, hbytes, _, ha, _⟩
                  · exact ⟨a, by rw [h]; simp [utf8, hbytes], .inl ha⟩
                  · exact ⟨a, by rw [h]; simp [utf8, hbytes], .inr ha⟩
            · exact .inr h
          · rintro (h | h)
            · exact absurd h hzero
            · exact .inr h

/-- **Texts that start with the same bytes start with the same characters.** -/
lemma utf8_prefix_iff {xs ys : List Char} : utf8 xs <+: utf8 ys ↔ xs <+: ys := by
  constructor
  · induction xs generalizing ys with
    | nil => exact fun _ => List.nil_prefix
    | cons c cs ih =>
        intro h
        cases ys with
        | nil =>
            have hnil := List.prefix_nil.mp h
            exact absurd (utf8_eq_nil (by rw [hnil]; rfl)) (List.cons_ne_nil c cs)
        | cons d ds =>
            obtain ⟨more, hmore⟩ := h
            have hbytes : String.utf8EncodeChar c ++ (utf8 cs ++ more)
                = String.utf8EncodeChar d ++ utf8 ds := by
              simpa [utf8] using hmore
            -- the decoder finds the first character of either side
            have hdecode := congrArg
              (fun bytes => ByteArray.utf8DecodeChar? (List.toByteArray bytes) 0) hbytes
            simp only [List.toByteArray_append,
              ByteArray.utf8DecodeChar?_utf8EncodeChar_append] at hdecode
            obtain rfl := Option.some.inj hdecode
            exact List.cons_prefix_cons.mpr ⟨rfl, ih ⟨more, List.append_cancel_left hbytes⟩⟩
  · rintro ⟨zs, rfl⟩
    exact ⟨utf8 zs, (utf8_append xs zs).symm⟩

end OdooKernel
