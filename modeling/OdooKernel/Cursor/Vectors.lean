import OdooKernel.Core.Single
import OdooKernel.Core.Text
import OdooKernel.Cursor.Numeric

/-!
# The text of a vector

A vector of floats is sent and read as a list in brackets; an integral float is printed by way of a
64-bit integer, and any other as it is displayed.

**Floats.**  A float is a rational with the reason why it is one (`F32`), and `parseF32` rounds the
rational of a decimal text to the nearest float.  How a float is displayed is a parameter, of which
it is asked that the text is that of a number and is read as the float (`PrintsFaithfully`).

**Where it fails.**  The cast to a 64-bit integer takes what is beyond the range to the end of it.
The lower end is a power of two, and so is what the upper end is read as; the elements that come back
are those that fit and the one power of two above them.

* `vectorToText`, `parseVectorText` — the text of a vector, and the vector of a text.
* `parseF32` — the float of a decimal text.
* **`vectorToText_roundTrips`** — a vector comes back exactly when its integral elements fit 64 bits.
-/

namespace OdooKernel

/-! ## Printing -/

/-- A rational without what stands behind its point. -/
def truncate (q : ℚ) : ℤ := if 0 ≤ q then ⌊q⌋ else ⌈q⌉

/-- A float as a 64-bit integer: the nearest end of the range where it is outside of it. -/
def asI64 (q : ℚ) : ℤ := max (-2 ^ 63) (min (2 ^ 63 - 1) (truncate q))

/-- The digits of an integer. -/
def intDigits (n : ℤ) : List Char :=
  if n < 0 then '-' :: Nat.toDigits 10 n.natAbs else Nat.toDigits 10 n.natAbs

/-- Nothing stands behind the point. -/
def IsIntegral (q : ℚ) : Prop := q - truncate q = 0

instance (q : ℚ) : Decidable (IsIntegral q) := inferInstanceAs (Decidable (_ = _))

/-- The text of an element; `print` is how a float is displayed. -/
def elementText (print : Single → List Char) : Single → List Char
  | .finite f => if IsIntegral f.1 then intDigits (asI64 f.1) else print (.finite f)
  | f => print f

/-- The text of a vector. -/
def vectorToText (print : Single → List Char) (v : List Single) : List Char :=
  '[' :: [','].intercalate (v.map (elementText print)) ++ [']']

/-! ## Reading -/

/-- An exponent of ten. -/
def decimalExponent : List Char → Option ℤ
  | '-' :: cs => if isNumber cs then some (-digitsValue cs) else none
  | '+' :: cs => if isNumber cs then some (digitsValue cs) else none
  | cs => if isNumber cs then some (digitsValue cs) else none

/-- The number of a decimal text without a sign. -/
def decimalNumber (cs : List Char) : Option ℚ :=
  let whole := cs.takeWhile (·.isDigit)
  let behind := cs.dropWhile (·.isDigit)
  let fraction := if behind.head? = some '.' then behind.tail.takeWhile (·.isDigit) else []
  let rest := if behind.head? = some '.' then behind.tail.dropWhile (·.isDigit) else behind
  let value : ℚ := digitsValue (whole ++ fraction) / 10 ^ fraction.length
  if whole ++ fraction = [] then none
  else
    match rest with
    | [] => some value
    | e :: exponent =>
      if e = 'e' ∨ e = 'E' then (decimalExponent exponent).map fun n => value * (10 : ℚ) ^ n else none

/-- The float of a text without a sign. -/
def unsignedF32 (negative : Bool) (cs : List Char) : Option Single :=
  match decimalNumber cs with
  | some q => some (roundF32 (if negative then -q else q))
  | none =>
    let name := cs.map Char.toLower
    if name = "inf".toList ∨ name = "infinity".toList then some (.infinite negative)
    else if name = "nan".toList then some .nan
    else none

/-- The float of a text. -/
def parseF32 : List Char → Option Single
  | '-' :: cs => unsignedF32 true cs
  | '+' :: cs => unsignedF32 false cs
  | cs => unsignedF32 false cs

/-- A text between brackets. -/
def betweenBrackets : List Char → Option (List Char)
  | '[' :: cs => if cs.getLast? = some ']' then some cs.dropLast else none
  | _ => none

/-- The vector of a text. -/
def parseVectorText (text : List Char) : Option (List Single) :=
  (betweenBrackets (trimmed text)).bind fun inner =>
    if trimmed inner = [] then some []
    else (inner.splitOn ',').mapM fun p => parseF32 (trimmed p)

/-! ## Texts of elements -/

/-- A text that stays whole in a list: it is not empty, and has no comma and no white space. -/
def IsElement (cs : List Char) : Prop := cs ≠ [] ∧ ∀ c ∈ cs, c ≠ ',' ∧ isWhitespace c = false

/-- A character of a number. -/
def isNumberChar (c : Char) : Bool := c.isDigit || c = '-' || c = '.'

lemma isElement_of_numberChars {cs : List Char} (hne : cs ≠ [])
    (h : ∀ c ∈ cs, isNumberChar c = true) : IsElement cs := by
  refine ⟨hne, fun c hc => ?_⟩
  have hchar := h c hc
  rw [isNumberChar, Bool.or_eq_true, Bool.or_eq_true, decide_eq_true_eq, decide_eq_true_eq] at hchar
  rcases hchar with (hdigit | rfl) | rfl
  · refine ⟨?_, isWhitespace_of_isDigit hdigit⟩
    rintro rfl
    exact absurd hdigit (by decide)
  · exact ⟨by decide, rfl⟩
  · exact ⟨by decide, rfl⟩

lemma trimmed_of_ends {c d : Char} {cs : List Char} (hc : isWhitespace c = false)
    (hd : isWhitespace d = false) (hlast : (c :: cs).getLast? = some d) :
    trimmed (c :: cs) = c :: cs := by
  obtain ⟨start, hstart⟩ := List.getLast?_eq_some_iff.mp hlast
  rw [trimmed, List.dropWhile_cons_of_neg (by simp [hc]), hstart, List.reverse_append,
    List.reverse_singleton, List.singleton_append, List.dropWhile_cons_of_neg (by simp [hd]),
    List.reverse_cons, List.reverse_reverse]

lemma IsElement.trimmed_eq {cs : List Char} (h : IsElement cs) : trimmed cs = cs := by
  obtain ⟨hne, hchars⟩ := h
  cases cs with
  | nil => exact absurd rfl hne
  | cons c cs =>
      have hlast := List.getLast?_eq_some_getLast hne
      exact trimmed_of_ends (hchars c List.mem_cons_self).2
        (hchars _ (List.getLast_mem hne)).2 hlast

lemma trimmed_ne_nil {c : Char} (hc : isWhitespace c = false) (cs : List Char) :
    trimmed (c :: cs) ≠ [] := by
  intro h
  rw [trimmed, List.dropWhile_cons_of_neg (by simp [hc]), List.reverse_eq_nil_iff,
    List.dropWhile_eq_nil_iff] at h
  have hc' := h c (by simp)
  rw [hc] at hc'
  exact Bool.false_ne_true hc'

lemma mapM_trimmed {texts : List (List Char)} (h : ∀ t ∈ texts, IsElement t) :
    texts.mapM (fun p => parseF32 (trimmed p)) = texts.mapM parseF32 := by
  induction texts with
  | nil => rfl
  | cons t texts ih =>
      rw [List.forall_mem_cons] at h
      rw [List.mapM_cons, List.mapM_cons, h.1.trimmed_eq, ih h.2]

/-- **A list of texts in brackets** is read element by element. -/
lemma parseVectorText_list {texts : List (List Char)} (h : ∀ t ∈ texts, IsElement t) :
    parseVectorText ('[' :: [','].intercalate texts ++ [']']) = texts.mapM parseF32 := by
  have htrim : trimmed ('[' :: [','].intercalate texts ++ [']'])
      = '[' :: ([','].intercalate texts ++ [']']) :=
    trimmed_of_ends rfl (show isWhitespace ']' = false from rfl)
      (@List.getLast?_concat _ ('[' :: [','].intercalate texts) ']')
  have hinner : betweenBrackets ('[' :: ([','].intercalate texts ++ [']']))
      = some ([','].intercalate texts) := by
    simp [betweenBrackets]
  rw [parseVectorText, htrim, hinner, Option.bind_some]
  cases texts with
  | nil => rfl
  | cons t rest =>
      obtain ⟨hne, hchars⟩ := h t List.mem_cons_self
      have hsplit : ([','].intercalate (t :: rest)).splitOn ',' = t :: rest :=
        List.splitOn_intercalate _ (fun l hl hcomma => ((h l hl).2 ',' hcomma).1 rfl) (by simp)
      have hnonempty : trimmed ([','].intercalate (t :: rest)) ≠ [] := by
        obtain ⟨c, cs, rfl⟩ := List.exists_cons_of_ne_nil hne
        have hstart : ∃ after, [','].intercalate ((c :: cs) :: rest) = c :: after := by
          cases rest with
          | nil => exact ⟨cs, by simp⟩
          | cons u rest => exact ⟨_, by rw [List.intercalate_cons_cons]; rfl⟩
        obtain ⟨after, hafter⟩ := hstart
        rw [hafter]
        exact trimmed_ne_nil (hchars c List.mem_cons_self).2 after
      rw [if_neg hnonempty, hsplit]
      exact mapM_trimmed h

/-! ## Integral floats -/

lemma isNumberChar_of_mem_intDigits {n : ℤ} {c : Char} (hc : c ∈ intDigits n) :
    isNumberChar c = true := by
  have hdigits : ∀ {d}, d ∈ Nat.toDigits 10 n.natAbs → isNumberChar d = true := by
    intro d hd
    rw [isNumberChar, Nat.isDigit_of_mem_toDigits (by omega) (by omega) hd]
    rfl
  rw [intDigits] at hc
  split at hc
  · rcases List.mem_cons.mp hc with rfl | hc
    · rfl
    · exact hdigits hc
  · exact hdigits hc

lemma intDigits_ne_nil (n : ℤ) : intDigits n ≠ [] := by
  rw [intDigits]
  split
  · exact List.cons_ne_nil _ _
  · exact Nat.toDigits_ne_nil

lemma decimalNumber_toDigits (n : ℕ) : decimalNumber (Nat.toDigits 10 n) = some (n : ℚ) := by
  have hdigits : ∀ c ∈ Nat.toDigits 10 n, c.isDigit = true :=
    fun c hc => Nat.isDigit_of_mem_toDigits (by omega) (by omega) hc
  rw [decimalNumber]
  simp only [List.takeWhile_eq_self_iff.mpr hdigits, List.dropWhile_eq_nil_iff.mpr hdigits]
  simp [Nat.toDigits_ne_nil, digitsValue_toDigits_ten]

/-- **The digits of an integer are read** as the float nearest to it. -/
lemma parseF32_intDigits (n : ℤ) : parseF32 (intDigits n) = some (roundF32 n) := by
  have hread : ∀ negative : Bool, unsignedF32 negative (Nat.toDigits 10 n.natAbs)
      = some (roundF32 (if negative then -(n.natAbs : ℚ) else n.natAbs)) := by
    intro negative
    rw [unsignedF32, decimalNumber_toDigits]
  rw [intDigits]
  split
  · next hneg =>
      have hcast : -(n.natAbs : ℚ) = n := by
        have h : -(n.natAbs : ℤ) = n := by omega
        exact_mod_cast h
      exact (hread true).trans (by rw [if_pos rfl, hcast])
  · next hpos =>
      have hcast : (n.natAbs : ℚ) = n := by
        have h : (n.natAbs : ℤ) = n := by omega
        rw [← Int.cast_natCast, h]
      have hplain : parseF32 (Nat.toDigits 10 n.natAbs)
          = unsignedF32 false (Nat.toDigits 10 n.natAbs) := by
        obtain ⟨c, cs, hdigits⟩ := List.exists_cons_of_ne_nil (@Nat.toDigits_ne_nil n.natAbs 10)
        have hc : c.isDigit = true :=
          Nat.isDigit_of_mem_toDigits (by omega) (by omega)
            (hdigits ▸ List.mem_cons_self : c ∈ Nat.toDigits 10 n.natAbs)
        have hminus : c ≠ '-' := by
          rintro rfl
          exact absurd hc (by decide)
        have hplus : c ≠ '+' := by
          rintro rfl
          exact absurd hc (by decide)
        rw [hdigits, parseF32]
        · intro rest hrest
          exact hminus (List.cons.inj hrest).1
        · intro rest hrest
          exact hplus (List.cons.inj hrest).1
      rw [hplain, hread false, if_neg (by decide), hcast]

lemma truncate_of_isIntegral {q : ℚ} (h : IsIntegral q) : (truncate q : ℚ) = q :=
  (sub_eq_zero.mp h).symm

/-- The power of two just above what fits 64 bits, with a sign. -/
lemma isF32_twoPow63 {s : ℤ} (hs : |s| = 1) : IsF32 (s * 2 ^ 63) := by
  have hsq : |(s : ℚ)| = 1 := by exact_mod_cast hs
  refine ⟨?_, s * 2 ^ 23, 40, ?_, by norm_num, ?_⟩
  · rw [abs_mul, hsq]
    norm_num
  · rw [abs_mul, hs]
    norm_num
  · push_cast
    rw [mul_assoc]
    norm_num

/-- **An integral float comes back** exactly when it fits 64 bits, or is the power of two just above
what fits. -/
lemma parseF32_asI64_iff {f : F32} (h : IsIntegral f.1) :
    parseF32 (intDigits (asI64 f.1)) = some (.finite f) ↔ |f.1| ≤ 2 ^ 63 := by
  have htrunc := truncate_of_isIntegral h
  rw [parseF32_intDigits, Option.some.injEq]
  rcases lt_or_ge (truncate f.1) (-2 ^ 63) with hlow | hlow
  · -- below the range, the lowest number is read
    have hcast : asI64 f.1 = -2 ^ 63 := by
      rw [asI64]
      omega
    have hf : f.1 < -2 ^ 63 := by
      rw [← htrunc]
      exact_mod_cast hlow
    have hread := roundF32_self ⟨_, isF32_twoPow63 (show |(-1 : ℤ)| = 1 by norm_num)⟩
    have hend : (((-1 : ℤ) : ℚ) * 2 ^ 63) = ((-2 ^ 63 : ℤ) : ℚ) := by norm_num
    rw [hcast, ← hend, hread, Single.finite.injEq, abs_le]
    constructor
    · rintro rfl
      norm_num at hf
    · intro hle
      linarith [hle.1]
  rcases lt_or_ge (2 ^ 63 - 1) (truncate f.1) with hhigh | hhigh
  · -- above the range, the highest number is read, which is nearest to the power of two above it
    have hcast : ((asI64 f.1 : ℤ) : ℚ) = 2 ^ 63 - 1 := by
      have hint : asI64 f.1 = 2 ^ 63 - 1 := by
        rw [asI64]
        omega
      rw [hint]
      norm_num
    have hf : 2 ^ 63 ≤ f.1 := by
      have hle : (2 ^ 63 : ℤ) ≤ truncate f.1 := by omega
      rw [← htrunc]
      exact_mod_cast hle
    have hread := roundF32_i64Max
      (f := ⟨_, isF32_twoPow63 (show |(1 : ℤ)| = 1 by norm_num)⟩) (by norm_num)
    have habs : |f.1| = f.1 := abs_of_nonneg (by linarith)
    rw [hcast, hread, Single.finite.injEq, habs]
    constructor
    · rintro rfl
      norm_num
    · intro hle
      refine Subtype.ext ?_
      show ((1 : ℤ) : ℚ) * 2 ^ 63 = f.1
      rw [le_antisymm hle hf]
      norm_num
  · -- within the range, the number itself is read
    have hcast : asI64 f.1 = truncate f.1 := by
      rw [asI64]
      omega
    rw [hcast, htrunc, roundF32_self]
    refine ⟨fun _ => ?_, fun _ => rfl⟩
    rw [← htrunc, abs_le]
    constructor
    · exact_mod_cast hlow
    · have hle : truncate f.1 ≤ 2 ^ 63 := by omega
      exact_mod_cast hle

/-! ## Vectors that come back -/

/-- A float that is displayed faithfully: its text is that of a number, and is read as it. -/
def PrintsFaithfully (print : Single → List Char) (f : F32) : Prop :=
  parseF32 (print (.finite f)) = some (.finite f) ∧
    print (.finite f) ≠ [] ∧ ∀ c ∈ print (.finite f), isNumberChar c = true

/-- What a finite float denotes. -/
def Single.value : Single → Option ℚ
  | .finite f => some f.1
  | _ => none

/-- **A vector comes back** from its text, and its text from what comes back. -/
def RoundTrips (print : Single → List Char) (v : List F32) : Prop :=
  ∃ w, parseVectorText (vectorToText print (v.map .finite)) = some w ∧
    w.map Single.value = v.map (fun f => some f.1) ∧
    vectorToText print w = vectorToText print (v.map .finite)

lemma eq_of_values {v : List F32} : ∀ {w : List Single},
    w.map Single.value = v.map (fun f => some f.1) → w = v.map .finite := by
  induction v with
  | nil =>
      intro w h
      rw [List.map_nil, List.map_eq_nil_iff] at h
      rw [h]
      rfl
  | cons f v ih =>
      intro w h
      cases w with
      | nil => exact absurd h (by simp)
      | cons s w =>
          rw [List.map_cons, List.map_cons, List.cons.injEq] at h
          obtain ⟨hs, hw⟩ := h
          rw [List.map_cons, ← ih hw]
          cases s with
          | finite g => rw [Subtype.ext (Option.some.inj hs)]
          | infinite _ => cases hs
          | nan => cases hs

lemma mapM_elements {print : Single → List Char} {v : List F32} :
    (v.map fun f => elementText print (.finite f)).mapM parseF32 = some (v.map .finite) ↔
      ∀ f ∈ v, parseF32 (elementText print (.finite f)) = some (.finite f) := by
  induction v with
  | nil => simp
  | cons f v ih =>
      rw [List.forall_mem_cons, ← ih, List.map_cons, List.mapM_cons, List.map_cons]
      cases parseF32 (elementText print (.finite f)) with
      | none => simp
      | some g =>
          cases (v.map fun f => elementText print (.finite f)).mapM parseF32 with
          | none => simp
          | some w => simp

/-- A vector comes back exactly when each of its elements does. -/
lemma roundTrips_iff_elements {print : Single → List Char} {v : List F32}
    (hprint : ∀ f ∈ v, ¬ IsIntegral f.1 → PrintsFaithfully print f) :
    RoundTrips print v ↔
      ∀ f ∈ v, parseF32 (elementText print (.finite f)) = some (.finite f) := by
  have helement : ∀ f ∈ v, IsElement (elementText print (.finite f)) := by
    intro f hf
    rw [elementText]
    split
    · exact isElement_of_numberChars (intDigits_ne_nil _) fun c hc => isNumberChar_of_mem_intDigits hc
    · next hfract =>
        obtain ⟨-, hne, hchars⟩ := hprint f hf hfract
        exact isElement_of_numberChars hne hchars
  have hread : parseVectorText (vectorToText print (v.map .finite))
      = (v.map fun f => elementText print (.finite f)).mapM parseF32 := by
    rw [vectorToText, List.map_map]
    refine parseVectorText_list fun t ht => ?_
    obtain ⟨f, hf, rfl⟩ := List.mem_map.mp ht
    exact helement f hf
  rw [RoundTrips, hread, ← mapM_elements]
  constructor
  · rintro ⟨w, hw, hvalues, -⟩
    rw [hw, eq_of_values hvalues]
  · intro h
    exact ⟨_, h, by simp [Single.value], rfl⟩

/-- **Vector text round-trips** exactly when each integral element fits 64 bits, or is the power of
two just above what fits. -/
theorem vectorToText_roundTrips (print : Single → List Char) (v : List F32)
    (hprint : ∀ f ∈ v, ¬ IsIntegral f.1 → PrintsFaithfully print f) :
    RoundTrips print v ↔ ∀ f ∈ v, IsIntegral f.1 → |f.1| ≤ 2 ^ 63 := by
  rw [roundTrips_iff_elements hprint]
  refine forall₂_congr fun f hf => ?_
  rw [elementText]
  split
  · next hfract => rw [parseF32_asI64_iff hfract, imp_iff_right hfract]
  · next hfract => simp [(hprint f hf hfract).1, hfract]

/-- One half. -/
def half : F32 := ⟨1 / 2, by norm_num [abs_of_pos], 1, -1, by norm_num, by norm_num, by norm_num⟩

/-- The largest power of two that comes back. -/
def twoPow63 : F32 := ⟨_, isF32_twoPow63 (show |(1 : ℤ)| = 1 by norm_num)⟩

/-- The power of two above it. -/
def twoPow64 : F32 := ⟨2 ^ 64, by norm_num [abs_of_pos], 1, 64, by norm_num, by norm_num, by norm_num⟩

lemma not_isIntegral_half : ¬ IsIntegral half.1 := by
  norm_num [IsIntegral, half, truncate]

/-- One half and a large power of two come back. -/
theorem vectorToText_half_and_twoPow63 :
    RoundTrips (fun _ => "0.5".toList) [half, twoPow63] := by
  have hnumber : decimalNumber "0.5".toList = some (1 / 2) := by
    have htext : decimalNumber "0.5".toList = some (((5 : ℕ) : ℚ) / 10 ^ 1) := rfl
    rw [htext]
    norm_num
  have hhalf : PrintsFaithfully (fun _ => "0.5".toList) half := by
    refine ⟨?_, by decide, List.all_eq_true.mp (by decide)⟩
    show unsignedF32 false "0.5".toList = _
    rw [unsignedF32, hnumber]
    exact congrArg some (roundF32_self half)
  refine (vectorToText_roundTrips _ [half, twoPow63] fun f hf hfract => ?_).mpr fun f hf hint => ?_
  · rcases List.mem_pair.mp hf with rfl | rfl
    · exact hhalf
    · exact absurd (by norm_num [IsIntegral, twoPow63, truncate]) hfract
  · rcases List.mem_pair.mp hf with rfl | rfl
    · exact absurd hint not_isIntegral_half
    · norm_num [twoPow63]

/-- A power of two that does not fit is read as one half of it. -/
theorem twoPow64_lost :
    parseVectorText (vectorToText (fun _ => []) [.finite twoPow64]) = some [.finite twoPow63] ∧
      ∀ print, ¬ RoundTrips print [twoPow64] := by
  have hint : IsIntegral twoPow64.1 := by norm_num [IsIntegral, twoPow64, truncate]
  refine ⟨?_, fun print h => ?_⟩
  · have hcast : ((asI64 twoPow64.1 : ℤ) : ℚ) = 2 ^ 63 - 1 := by
      norm_num [asI64, truncate, twoPow64]
    have helement : IsElement (intDigits (asI64 twoPow64.1)) :=
      isElement_of_numberChars (intDigits_ne_nil _) fun c hc => isNumberChar_of_mem_intDigits hc
    rw [vectorToText, parseVectorText_list (by simpa [elementText, hint] using helement)]
    have hround : roundF32 (2 ^ 63 - 1) = .finite twoPow63 :=
      roundF32_i64Max (by norm_num [twoPow63])
    simp [elementText, hint, parseF32_intDigits, hcast, hround]
  · rw [roundTrips_iff_elements (by simpa using fun hfract => absurd hint hfract)] at h
    have hread := h twoPow64 List.mem_cons_self
    rw [elementText, if_pos hint, parseF32_asI64_iff hint] at hread
    norm_num [twoPow64] at hread

end OdooKernel
