import Mathlib.Data.List.TakeWhile
import OdooKernel.Core.Positional
import OdooKernel.Domain.Calendar

/-!
# The text of a binary numeric

PostgreSQL sends a numeric as a header and digits of base 10000; the cursor writes it as a decimal.

**Reading bytes.**  The function reads two bytes at a time at offsets that it computes from the
header.  A read behind the end would be a panic and is a failure of its own here, so that it can be
said that no bytes whatever lead to one.

**What is compared.**  A `BinaryNumeric` is a numeric as the server may send it, with the bound that
no digit is lost beyond its scale; its value is a rational, by the expansion in base 10000.  The text
is read by `decimalOf`, which knows nothing of base 10000.  Between the two are the digits of a
natural number, in groups of four (`groupsText`).

* `numericBinaryToText` — the text of some bytes.
* `BinaryNumeric` — the numerics that are numbers, and their bytes.
* `decimalOf` — what a decimal text denotes, and how many digits stand behind its point.
* **`numericBinaryToText_exact`** — the text of a numeric denotes it, to its scale.
-/

namespace OdooKernel

/-- Why bytes have no text: an error of the function, or a read behind the end of the bytes, which
would be a panic. -/
inductive ReadFailure where
  | message (text : String)
  | outOfBounds
deriving DecidableEq, Repr

def numericNeg : ℕ := 0x4000
def numericNan : ℕ := 0xC000
def numericPinf : ℕ := 0xD000
def numericNinf : ℕ := 0xF000

/-- Two bytes as a number. -/
def u16At (raw : List UInt8) (i : ℕ) : Except ReadFailure ℕ :=
  match raw[i]?, raw[i + 1]? with
  | some high, some low => .ok (256 * high.toNat + low.toNat)
  | _, _ => .error .outOfBounds

/-- Two bytes as a number with a sign. -/
def asI16 (n : ℕ) : ℤ := if n < 2 ^ 15 then n else n - 2 ^ 16

/-- The digit of base 10000 at an exponent. -/
def numericDigit (raw : List UInt8) (weight : ℤ) (ndigits : ℕ) (exponent : ℤ) :
    Except ReadFailure ℕ :=
  let k := weight - exponent
  if k < 0 ∨ ndigits ≤ k.toNat then .ok 0 else u16At raw (8 + 2 * k.toNat)

/-- The digits at the exponents from `e - 1` down to zero, each as four. -/
def groupsBelow (digit : ℤ → Except ReadFailure ℕ) : ℕ → Except ReadFailure (List Char)
  | 0 => .ok []
  | e + 1 => do
    let d ← digit e
    let rest ← groupsBelow digit e
    .ok (padded 4 d ++ rest)

/-- What stands before the point. -/
def wholeText (digit : ℤ → Except ReadFailure ℕ) (weight : ℤ) : Except ReadFailure (List Char) :=
  if weight < 0 then .ok ['0']
  else do
    let d ← digit weight
    let rest ← groupsBelow digit weight.toNat
    .ok (Nat.toDigits 10 d ++ rest)

/-- The groups behind the point, until there are enough digits; the first argument bounds the
rounds of the loop. -/
def fractionGroups (digit : ℤ → Except ReadFailure ℕ) (dscale : ℕ) :
    ℕ → ℤ → List Char → Except ReadFailure (List Char)
  | 0, _, frac => .ok frac
  | rounds + 1, e, frac =>
    if frac.length < dscale then do
      let d ← digit e
      fractionGroups digit dscale rounds (e - 1) (frac ++ padded 4 d)
    else .ok frac

/-- The text of a numeric. -/
def numericBinaryToText (raw : List UInt8) : Except ReadFailure (List Char) := do
  if raw.length < 8 then .error (.message "numeric value shorter than its header")
  else
    let ndigits ← u16At raw 0
    let weight ← u16At raw 2
    let weight := asI16 weight
    let sign ← u16At raw 4
    let dscale ← u16At raw 6
    if sign = numericNan then .ok "NaN".toList
    else if sign = numericPinf then .ok "Infinity".toList
    else if sign = numericNinf then .ok "-Infinity".toList
    else if raw.length < 8 + ndigits * 2 then
      .error (.message "numeric value shorter than its digit count")
    else
      let digit := numericDigit raw weight ndigits
      let whole ← wholeText digit weight
      let out := (if sign = numericNeg then ['-'] else []) ++ whole
      if 0 < dscale then do
        let frac ← fractionGroups digit dscale dscale (-1) []
        .ok (out ++ '.' :: frac.take dscale)
      else .ok out

lemma ok_bind {ε α β : Type} (a : α) (f : α → Except ε β) : (Except.ok a >>= f) = f a := rfl

/-! ## Reads stay within the bytes -/

lemma u16At_of_lt {raw : List UInt8} {i : ℕ} (h : i + 1 < raw.length) :
    ∃ n, u16At raw i = .ok n := by
  rw [u16At, List.getElem?_eq_getElem (by omega), List.getElem?_eq_getElem h]
  exact ⟨_, rfl⟩

/-- A digit that is read is within the bytes, where they hold as many as they say. -/
lemma numericDigit_ok {raw : List UInt8} {weight : ℤ} {ndigits : ℕ}
    (h : 8 + ndigits * 2 ≤ raw.length) (e : ℤ) : ∃ d, numericDigit raw weight ndigits e = .ok d := by
  simp only [numericDigit]
  split
  · exact ⟨0, rfl⟩
  · next hin =>
      rw [not_or] at hin
      exact u16At_of_lt (by omega)

section Groups

variable (digit : ℤ → ℕ)

/-- The texts of the groups below an exponent. -/
def groupsText : ℕ → List Char
  | 0 => []
  | e + 1 => padded 4 (digit e) ++ groupsText e

/-- `k` groups behind the point. -/
def behindPoint (k : ℕ) : List Char :=
  (List.range k).flatMap fun i => padded 4 (digit (-1 - i))

lemma groupsBelow_eq (n : ℕ) : groupsBelow (fun e => .ok (digit e)) n = .ok (groupsText digit n) := by
  induction n with
  | zero => rfl
  | succ n ih =>
      rw [groupsBelow, ih]
      rfl

lemma length_padded_le (width n : ℕ) : width ≤ (padded width n).length := by
  rw [padded, List.length_append, List.length_replicate]
  omega

lemma behindPoint_succ (k : ℕ) :
    behindPoint digit (k + 1) = behindPoint digit k ++ padded 4 (digit (-1 - k)) := by
  simp [behindPoint, List.range_succ]

/-- **The loop ends with enough digits**, after some number of groups. -/
lemma fractionGroups_eq {dscale : ℕ} : ∀ (rounds k : ℕ),
    dscale ≤ (behindPoint digit k).length + rounds →
    ∃ m, fractionGroups (fun e => .ok (digit e)) dscale rounds (-1 - k) (behindPoint digit k)
        = .ok (behindPoint digit m) ∧ dscale ≤ (behindPoint digit m).length
  | 0, k, h => ⟨k, rfl, h⟩
  | rounds + 1, k, h => by
    rw [fractionGroups]
    split
    · have hlength := length_padded_le 4 (digit (-1 - k))
      have hnext : (-1 - k : ℤ) - 1 = -1 - (k + 1 : ℕ) := by omega
      have henough : dscale ≤ (behindPoint digit (k + 1)).length + rounds := by
        rw [behindPoint_succ, List.length_append]
        omega
      have hgroups := fractionGroups_eq rounds (k + 1) henough
      rw [behindPoint_succ, ← hnext] at hgroups
      exact hgroups
    · exact ⟨k, rfl, by omega⟩

/-- The digits before the point. -/
def wholeDigits (weight : ℤ) : List Char :=
  if weight < 0 then ['0'] else Nat.toDigits 10 (digit weight) ++ groupsText digit weight.toNat

/-- The text of the digits of a number. -/
def digitsText (weight : ℤ) (m dscale : ℕ) : List Char :=
  wholeDigits digit weight ++ if 0 < dscale then '.' :: (behindPoint digit m).take dscale else []

end Groups

/-- **What the function does** with a numeric that is a number. -/
lemma numericBinaryToText_eq {raw : List UInt8} {ndigits weight sign dscale : ℕ} {digit : ℤ → ℕ}
    (hlength : 8 + ndigits * 2 ≤ raw.length) (hndigits : u16At raw 0 = .ok ndigits)
    (hweight : u16At raw 2 = .ok weight) (hsign : u16At raw 4 = .ok sign)
    (hdscale : u16At raw 6 = .ok dscale)
    (hnumber : sign ≠ numericNan ∧ sign ≠ numericPinf ∧ sign ≠ numericNinf)
    (hdigit : ∀ e, numericDigit raw (asI16 weight) ndigits e = .ok (digit e)) :
    ∃ m, dscale ≤ (behindPoint digit m).length ∧
      numericBinaryToText raw = .ok ((if sign = numericNeg then ['-'] else [])
        ++ digitsText digit (asI16 weight) m dscale) := by
  have hdigits : numericDigit raw (asI16 weight) ndigits = fun e => .ok (digit e) := funext hdigit
  have hwhole : wholeText (numericDigit raw (asI16 weight) ndigits) (asI16 weight)
      = .ok (wholeDigits digit (asI16 weight)) := by
    rw [hdigits, wholeText, groupsBelow_eq, wholeDigits]
    split <;> rfl
  obtain ⟨m, hgroups, hm⟩ := fractionGroups_eq digit dscale 0 (Nat.le_add_left dscale _)
  refine ⟨m, hm, ?_⟩
  have hgroups' : fractionGroups (numericDigit raw (asI16 weight) ndigits) dscale dscale (-1) []
      = .ok (behindPoint digit m) := by
    rw [hdigits]
    exact hgroups
  rw [numericBinaryToText, if_neg (by omega), hndigits, ok_bind, hweight, ok_bind, hsign, ok_bind,
    hdscale, ok_bind, if_neg hnumber.1, if_neg hnumber.2.1, if_neg hnumber.2.2,
    if_neg (Nat.not_lt.mpr hlength)]
  simp only [hwhole, ok_bind, hgroups', digitsText]
  split_ifs <;> simp

lemma u16At_header {raw : List UInt8} (h : 8 ≤ raw.length) {i : ℕ} (hi : i + 1 < 8) :
    ∃ n, u16At raw i = .ok n := u16At_of_lt (by omega)

/-- The values that are no numbers have names. -/
lemma numericBinaryToText_special {raw : List UInt8} {sign : ℕ} (hlength : 8 ≤ raw.length)
    (hsign : u16At raw 4 = .ok sign) :
    (sign = numericNan → numericBinaryToText raw = .ok "NaN".toList) ∧
      (sign = numericPinf → numericBinaryToText raw = .ok "Infinity".toList) ∧
      (sign = numericNinf → numericBinaryToText raw = .ok "-Infinity".toList) := by
  obtain ⟨ndigits, hndigits⟩ := u16At_header hlength (show 0 + 1 < 8 by omega)
  obtain ⟨weight, hweight⟩ := u16At_header hlength (show 2 + 1 < 8 by omega)
  obtain ⟨dscale, hdscale⟩ := u16At_header hlength (show 6 + 1 < 8 by omega)
  rw [numericBinaryToText, if_neg (Nat.not_lt.mpr hlength), hndigits, ok_bind, hweight, ok_bind,
    hsign, ok_bind, hdscale, ok_bind]
  refine ⟨?_, ?_, ?_⟩
  · intro h
    rw [if_pos h]
  · intro h
    rw [if_neg (by rw [h]; decide), if_pos h]
  · intro h
    rw [if_neg (by rw [h]; decide), if_neg (by rw [h]; decide), if_pos h]

/-- **No read is out of bounds**, whatever the bytes are. -/
lemma numericBinaryToText_inBounds (raw : List UInt8) :
    numericBinaryToText raw ≠ .error .outOfBounds := by
  by_cases hheader : raw.length < 8
  · rw [numericBinaryToText, if_pos hheader]
    simp
  obtain ⟨ndigits, hndigits⟩ := u16At_header (Nat.not_lt.mp hheader) (show 0 + 1 < 8 by omega)
  obtain ⟨weight, hweight⟩ := u16At_header (Nat.not_lt.mp hheader) (show 2 + 1 < 8 by omega)
  obtain ⟨sign, hsign⟩ := u16At_header (Nat.not_lt.mp hheader) (show 4 + 1 < 8 by omega)
  obtain ⟨dscale, hdscale⟩ := u16At_header (Nat.not_lt.mp hheader) (show 6 + 1 < 8 by omega)
  by_cases hnumber : sign ≠ numericNan ∧ sign ≠ numericPinf ∧ sign ≠ numericNinf
  · by_cases hdigits : raw.length < 8 + ndigits * 2
    · rw [numericBinaryToText, if_neg hheader, hndigits, ok_bind, hweight, ok_bind, hsign, ok_bind,
        hdscale, ok_bind, if_neg hnumber.1, if_neg hnumber.2.1, if_neg hnumber.2.2, if_pos hdigits]
      simp
    · choose digit hdigit using @numericDigit_ok raw (asI16 weight) ndigits (Nat.not_lt.mp hdigits)
      obtain ⟨m, -, htext⟩ := numericBinaryToText_eq (Nat.not_lt.mp hdigits) hndigits hweight hsign
        hdscale hnumber hdigit
      rw [htext]
      simp
  · obtain ⟨hnan, hpinf, hninf⟩ := numericBinaryToText_special (Nat.not_lt.mp hheader) hsign
    rw [not_and_or, not_and_or, not_not, not_not, not_not] at hnumber
    rcases hnumber with h | h | h
    · simp [hnan h]
    · simp [hpinf h]
    · simp [hninf h]

/-! ## What the text denotes -/

/-- A text of digits. -/
def isNumber (cs : List Char) : Bool := cs ≠ [] && cs.all (·.isDigit)

/-- What a decimal text without a sign denotes, and how many digits stand behind its point. -/
def unsignedDecimal (text : List Char) : Option (ℚ × ℕ) :=
  let whole := text.takeWhile fun c => c ≠ '.'
  match text.dropWhile fun c => c ≠ '.' with
  | [] => if isNumber whole then some (digitsValue whole, 0) else none
  | _ :: fraction =>
    if isNumber whole && isNumber fraction then
      some (digitsValue whole + digitsValue fraction / 10 ^ fraction.length, fraction.length)
    else none

/-- What a decimal text denotes, and how many digits stand behind its point. -/
def decimalOf (text : List Char) : Option (ℚ × ℕ) :=
  match text with
  | '-' :: rest => (unsignedDecimal rest).map fun (q, scale) => (-q, scale)
  | rest => unsignedDecimal rest

lemma digitsValue_append (a c : List Char) :
    digitsValue (a ++ c) = digitsValue a * 10 ^ c.length + digitsValue c := by
  show Nat.ofDigitChars 10 (a ++ c) 0
    = Nat.ofDigitChars 10 a 0 * 10 ^ c.length + Nat.ofDigitChars 10 c 0
  rw [Nat.ofDigitChars_append, Nat.ofDigitChars_eq_ofDigitChars_zero, Nat.mul_comm]

/-- Digits are less than one more digit would be worth. -/
lemma digitsValue_lt {cs : List Char} (hcs : ∀ c ∈ cs, c.isDigit = true) :
    digitsValue cs < 10 ^ cs.length := by
  induction cs using List.reverseRecOn with
  | nil => decide
  | append_singleton cs c ih =>
      have hrest := ih fun d hd => hcs d (List.mem_append_left _ hd)
      have hc := hcs c (by simp)
      have hlast : digitsValue [c] ≤ 9 := by
        have hrange : c.toNat ≤ 57 := by
          simp only [Char.isDigit, Bool.and_eq_true, decide_eq_true_eq] at hc
          exact UInt32.le_iff_toNat_le.mp hc.2
        show 10 * 0 + (c.toNat - 48) ≤ 9
        omega
      rw [digitsValue_append, List.length_append, List.length_singleton, pow_succ]
      omega

/-- The first digits of a number are the number without its last ones. -/
lemma digitsValue_take {cs : List Char} (hcs : ∀ c ∈ cs, c.isDigit = true) {n j : ℕ}
    (hlength : cs.length = n + j) : digitsValue (cs.take n) = digitsValue cs / 10 ^ j := by
  have hdrop : (cs.drop n).length = j := by
    rw [List.length_drop]
    omega
  have hvalue : digitsValue cs = digitsValue (cs.take n) * 10 ^ j + digitsValue (cs.drop n) := by
    conv_lhs => rw [← List.take_append_drop n cs]
    rw [digitsValue_append, hdrop]
  have hsmall : digitsValue (cs.drop n) < 10 ^ j := by
    have h := @digitsValue_lt (cs.drop n) fun c hc => hcs c (List.mem_of_mem_drop hc)
    rwa [hdrop] at h
  rw [hvalue, Nat.mul_comm, Nat.mul_add_div (by positivity), Nat.div_eq_of_lt hsmall, Nat.add_zero]

lemma digitsValue_toDigits_ten (n : ℕ) : digitsValue (Nat.toDigits 10 n) = n :=
  Nat.ofDigitChars_ten_toDigits

section Texts

variable {digit : ℤ → ℕ} (hdigit : ∀ e, digit e < 10000)

include hdigit

lemma length_group (e : ℤ) : (padded 4 (digit e)).length = 4 :=
  length_padded (by omega) (hdigit e)

lemma length_groupsText (n : ℕ) : (groupsText digit n).length = 4 * n := by
  induction n with
  | zero => rfl
  | succ n ih =>
      rw [groupsText, List.length_append, length_group hdigit, ih]
      omega

lemma length_behindPoint (k : ℕ) : (behindPoint digit k).length = 4 * k := by
  induction k with
  | zero => rfl
  | succ k ih =>
      rw [behindPoint_succ, List.length_append, length_group hdigit, ih]
      omega

lemma digitsValue_groupsText (n : ℕ) :
    digitsValue (groupsText digit n) = leading 10000 digit (n - 1) n := by
  induction n with
  | zero => rfl
  | succ n ih =>
      have htop : ((n + 1 : ℕ) : ℤ) - 1 = n := by omega
      rw [groupsText, digitsValue_append, digitsValue_padded, length_groupsText hdigit, ih, htop,
        leading_cons, pow_mul]
      norm_num

lemma digitsValue_behindPoint (k : ℕ) :
    digitsValue (behindPoint digit k) = leading 10000 digit (-1) k := by
  induction k with
  | zero => rfl
  | succ k ih =>
      rw [behindPoint_succ, digitsValue_append, digitsValue_padded, length_group hdigit, ih, leading]
      omega

omit hdigit in
lemma isDigit_of_mem_behindPoint {k : ℕ} {c : Char} (hc : c ∈ behindPoint digit k) :
    c.isDigit = true := by
  simp only [behindPoint, List.mem_flatMap] at hc
  obtain ⟨i, -, hc⟩ := hc
  exact isDigit_of_mem_padded hc

omit hdigit in
lemma isDigit_of_mem_groupsText {n : ℕ} {c : Char} (hc : c ∈ groupsText digit n) :
    c.isDigit = true := by
  induction n with
  | zero => exact absurd hc List.not_mem_nil
  | succ n ih =>
      rw [groupsText, List.mem_append] at hc
      rcases hc with hc | hc
      · exact isDigit_of_mem_padded hc
      · exact ih hc

end Texts

/-! ## Texts that are read back -/

lemma isNumber_iff {cs : List Char} :
    isNumber cs = true ↔ cs ≠ [] ∧ ∀ c ∈ cs, c.isDigit = true := by
  simp [isNumber]

lemma ne_point_of_isDigit {c : Char} (h : c.isDigit = true) : decide (c ≠ '.') = true := by
  rw [decide_eq_true_eq]
  rintro rfl
  exact absurd h (by decide)

lemma unsignedDecimal_whole {whole : List Char} (h : isNumber whole = true) :
    unsignedDecimal whole = some ((digitsValue whole : ℚ), 0) := by
  have hne : ∀ c ∈ whole, decide (c ≠ '.') = true := fun c hc =>
    ne_point_of_isDigit ((isNumber_iff.mp h).2 c hc)
  rw [unsignedDecimal, List.dropWhile_eq_nil_iff.mpr hne, List.takeWhile_eq_self_iff.mpr hne]
  exact if_pos h

lemma unsignedDecimal_point {whole fraction : List Char} (h : isNumber whole = true)
    (hfraction : isNumber fraction = true) :
    unsignedDecimal (whole ++ '.' :: fraction)
      = some ((digitsValue whole : ℚ) + (digitsValue fraction : ℚ) / 10 ^ fraction.length,
          fraction.length) := by
  have hne : ∀ c ∈ whole, decide (c ≠ '.') = true := fun c hc =>
    ne_point_of_isDigit ((isNumber_iff.mp h).2 c hc)
  have hpoint : ('.' :: fraction).dropWhile (fun c => decide (c ≠ '.')) = '.' :: fraction := by simp
  have hstop : ('.' :: fraction).takeWhile (fun c => decide (c ≠ '.')) = [] := by simp
  rw [unsignedDecimal, List.takeWhile_append_of_pos hne, List.dropWhile_append_of_pos hne, hpoint,
    hstop, List.append_nil]
  exact if_pos (by rw [h, hfraction]; rfl)

/-- A sign in front of digits is taken off. -/
lemma decimalOf_sign (negative : Bool) {text : List Char} {q : ℚ} {scale : ℕ}
    (hfirst : ∀ c ∈ text.head?, c ≠ '-') (h : unsignedDecimal text = some (q, scale)) :
    decimalOf ((if negative then ['-'] else []) ++ text)
      = some ((if negative then -1 else 1) * q, scale) := by
  cases negative with
  | true => simp [decimalOf, h]
  | false =>
      cases text with
      | nil => simp [decimalOf, h]
      | cons c text =>
          have hc : c ≠ '-' := hfirst c rfl
          simp [decimalOf, h, hc]

/-! ## Numerics -/

/-- A number below `2 ^ 16` as two bytes. -/
def u16Bytes (n : ℕ) : List UInt8 := [UInt8.ofNat (n / 256), UInt8.ofNat (n % 256)]

/-- The header of a numeric. -/
def numericHeader (ndigits weight sign dscale : ℕ) : List UInt8 :=
  u16Bytes ndigits ++ u16Bytes weight ++ u16Bytes sign ++ u16Bytes dscale

/-- **A binary numeric that is a number**: no digit is lost beyond its scale. -/
structure BinaryNumeric where
  negative : Bool
  weight : ℤ
  dscale : ℕ
  digits : List ℕ
  weight_mem : -32768 ≤ weight ∧ weight ≤ 32767
  dscale_lt : dscale < 65536
  length_lt : digits.length < 65536
  digit_lt : ∀ d ∈ digits, d < 10000
  exact : ∃ n : ℕ, expansion 10000 weight digits * (10 : ℚ) ^ dscale = n

namespace BinaryNumeric

variable (v : BinaryNumeric)

/-- What a numeric denotes. -/
def value : ℚ := (if v.negative then -1 else 1) * expansion 10000 v.weight v.digits

/-- The bytes of a numeric. -/
def bytes : List UInt8 :=
  numericHeader v.digits.length (v.weight % 65536).toNat (if v.negative then numericNeg else 0)
    v.dscale ++ v.digits.flatMap u16Bytes

end BinaryNumeric

lemma u16At_cons (a c : UInt8) (raw : List UInt8) (i : ℕ) :
    u16At (a :: c :: raw) (i + 2) = u16At raw i := by
  rw [u16At, u16At]
  rfl

lemma u16At_u16Bytes {n : ℕ} (hn : n < 65536) (raw : List UInt8) :
    u16At (u16Bytes n ++ raw) 0 = .ok n := by
  show Except.ok (256 * (UInt8.ofNat (n / 256)).toNat + (UInt8.ofNat (n % 256)).toNat) = Except.ok n
  have hhigh : n / 256 < UInt8.size := by
    rw [UInt8.size]
    omega
  have hlow : n % 256 < UInt8.size := Nat.mod_lt _ (by decide)
  rw [UInt8.toNat_ofNat_of_lt' hhigh, UInt8.toNat_ofNat_of_lt' hlow, Nat.div_add_mod]

lemma u16At_digits {ds : List ℕ} (hds : ∀ d ∈ ds, d < 10000) {k : ℕ} (hk : k < ds.length) :
    u16At (ds.flatMap u16Bytes) (2 * k) = .ok (ds.getD k 0) := by
  induction ds generalizing k with
  | nil => exact absurd hk (Nat.not_lt_zero k)
  | cons d ds ih =>
      cases k with
      | zero => exact u16At_u16Bytes (Nat.lt_trans (hds d List.mem_cons_self) (by omega)) _
      | succ k =>
          have hrest := ih (fun d' hd' => hds d' (List.mem_cons_of_mem _ hd')) (Nat.lt_of_succ_lt_succ hk)
          rw [List.flatMap_cons, Nat.mul_succ]
          exact (u16At_cons _ _ _ _).trans hrest

section Header

variable {ndigits weight sign dscale : ℕ} (rest : List UInt8)

lemma u16At_header_ndigits (h : ndigits < 65536) :
    u16At (numericHeader ndigits weight sign dscale ++ rest) 0 = .ok ndigits := by
  rw [numericHeader, List.append_assoc, List.append_assoc, List.append_assoc]
  exact u16At_u16Bytes h _

lemma u16At_header_weight (h : weight < 65536) :
    u16At (numericHeader ndigits weight sign dscale ++ rest) 2 = .ok weight := by
  rw [numericHeader, List.append_assoc, List.append_assoc, List.append_assoc]
  exact (u16At_cons _ _ _ 0).trans (u16At_u16Bytes h _)

lemma u16At_header_sign (h : sign < 65536) :
    u16At (numericHeader ndigits weight sign dscale ++ rest) 4 = .ok sign := by
  rw [numericHeader, List.append_assoc, List.append_assoc, List.append_assoc]
  exact (u16At_cons _ _ _ 2).trans ((u16At_cons _ _ _ 0).trans (u16At_u16Bytes h _))

lemma u16At_header_dscale (h : dscale < 65536) :
    u16At (numericHeader ndigits weight sign dscale ++ rest) 6 = .ok dscale := by
  rw [numericHeader, List.append_assoc, List.append_assoc, List.append_assoc]
  exact (u16At_cons _ _ _ 4).trans ((u16At_cons _ _ _ 2).trans ((u16At_cons _ _ _ 0).trans
    (u16At_u16Bytes h _)))

lemma u16At_behind_header (i : ℕ) :
    u16At (numericHeader ndigits weight sign dscale ++ rest) (8 + i) = u16At rest i := by
  rw [Nat.add_comm]
  exact (u16At_cons _ _ _ (i + 6)).trans ((u16At_cons _ _ _ (i + 4)).trans
    ((u16At_cons _ _ _ (i + 2)).trans (u16At_cons _ _ _ i)))

end Header

/-! ## The digits of a number, before and behind the point -/

/-- **What stands before the point** is worth all that is not below one. -/
lemma whole_value (weight : ℤ) {ds : List ℕ} (hdigit : ∀ e, digitAt weight ds e < 10000) :
    expansion 10000 weight ds
      = (digitsValue (wholeDigits (digitAt weight ds) weight) : ℚ) + below 10000 weight ds (-1) := by
  rw [wholeDigits]
  split
  · next hneg =>
      have hzero : digitsValue ['0'] = 0 := rfl
      rw [below_of_le (by omega), hzero, Nat.cast_zero, zero_add]
  · next hpos =>
      have hweight : (weight.toNat : ℤ) = weight := Int.toNat_of_nonneg (by omega)
      have hlead := leading_cons (digitAt weight ds) weight weight.toNat (b := 10000)
      have hbelow := below_eq_leading (b := 10000) (by omega) weight ds weight (weight.toNat + 1)
      have hend : weight - (weight.toNat + 1 : ℕ) = -1 := by omega
      rw [below_of_le le_rfl, hend] at hbelow
      rw [hbelow, hlead, digitsValue_append, digitsValue_toDigits_ten,
        length_groupsText hdigit, digitsValue_groupsText hdigit, hweight, pow_mul]
      norm_num

lemma isNumber_wholeDigits (digit : ℤ → ℕ) (weight : ℤ) :
    isNumber (wholeDigits digit weight) = true := by
  rw [wholeDigits]
  split
  · rfl
  · refine isNumber_iff.mpr ⟨List.append_ne_nil_of_left_ne_nil Nat.toDigits_ne_nil _, ?_⟩
    intro c hc
    rcases List.mem_append.mp hc with hc | hc
    · exact Nat.isDigit_of_mem_toDigits (by omega) (by omega) hc
    · exact isDigit_of_mem_groupsText hc

/-- **The digits behind the point**, cut off at the scale, are worth all that is below one. -/
lemma expansion_eq (v : BinaryNumeric) {m j : ℕ} (hj : 4 * m = v.dscale + j) :
    expansion 10000 v.weight v.digits
      = (digitsValue (wholeDigits (digitAt v.weight v.digits) v.weight) : ℚ)
        + ((digitsValue (behindPoint (digitAt v.weight v.digits) m) / 10 ^ j : ℕ) : ℚ)
          / (10 : ℚ) ^ v.dscale := by
  have hdigit : ∀ e, digitAt v.weight v.digits e < 10000 := digitAt_lt (by omega) v.digit_lt
  have hfraction := below_eq_leading (b := 10000) (by omega) v.weight v.digits (-1) m
  have hsmall := @below_lt 10000 (by omega) v.weight v.digits v.digit_lt (-1 - m)
  -- the groups behind the point have four digits each
  have hpow : ((10000 : ℕ) : ℚ) ^ (-1 - (m : ℤ) + 1) = 1 / (10 : ℚ) ^ (v.dscale + j) := by
    have hexp : -1 - (m : ℤ) + 1 = -(m : ℤ) := by omega
    rw [hexp, zpow_neg, zpow_natCast, ← hj, pow_mul]
    norm_num
  rw [hpow] at hfraction hsmall
  rw [lt_div_iff₀ (by positivity)] at hsmall
  have hsplit : expansion 10000 v.weight v.digits
      = (digitsValue (wholeDigits (digitAt v.weight v.digits) v.weight) : ℚ)
        + (digitsValue (behindPoint (digitAt v.weight v.digits) m) : ℚ) / (10 : ℚ) ^ (v.dscale + j)
        + below 10000 v.weight v.digits (-1 - m) := by
    rw [whole_value v.weight hdigit, hfraction, digitsValue_behindPoint hdigit]
    ring
  obtain ⟨n, hn⟩ := v.exact
  exact truncated_exact hsplit (below_nonneg _ _ _) hsmall hn

lemma digitsText_value (v : BinaryNumeric) {m : ℕ}
    (hm : v.dscale ≤ (behindPoint (digitAt v.weight v.digits) m).length) :
    unsignedDecimal (digitsText (digitAt v.weight v.digits) v.weight m v.dscale)
      = some (expansion 10000 v.weight v.digits, v.dscale) := by
  have hdigit : ∀ e, digitAt v.weight v.digits e < 10000 := digitAt_lt (by omega) v.digit_lt
  have hlength := length_behindPoint hdigit m
  have hnumber := isNumber_wholeDigits (digitAt v.weight v.digits) v.weight
  have hdigits : ∀ c ∈ behindPoint (digitAt v.weight v.digits) m, c.isDigit = true :=
    fun c hc => isDigit_of_mem_behindPoint hc
  obtain ⟨j, hj⟩ : ∃ j, 4 * m = v.dscale + j := ⟨4 * m - v.dscale, by omega⟩
  rw [digitsText, expansion_eq v hj]
  by_cases hscale : 0 < v.dscale
  · have hcut : ((behindPoint (digitAt v.weight v.digits) m).take v.dscale).length = v.dscale :=
      List.length_take_of_le hm
    have hbehind : isNumber ((behindPoint (digitAt v.weight v.digits) m).take v.dscale) = true := by
      refine isNumber_iff.mpr ⟨?_, fun c hc => hdigits c (List.mem_of_mem_take hc)⟩
      rw [← List.length_pos_iff, hcut]
      exact hscale
    rw [if_pos hscale, unsignedDecimal_point hnumber hbehind, hcut,
      digitsValue_take hdigits (hlength.trans hj)]
  · have hzero : v.dscale = 0 := by omega
    have hnone : digitsValue (behindPoint (digitAt v.weight v.digits) m) / 10 ^ j = 0 := by
      have hlt := digitsValue_lt hdigits
      rw [hlength, hj, hzero, Nat.zero_add] at hlt
      exact Nat.div_eq_of_lt hlt
    rw [if_neg hscale, List.append_nil, unsignedDecimal_whole hnumber, hnone, hzero]
    simp

lemma digitsText_head (digit : ℤ → ℕ) (weight : ℤ) (m dscale : ℕ) :
    ∀ c ∈ (digitsText digit weight m dscale).head?, c ≠ '-' := by
  intro c hc
  have hdigit : c.isDigit = true := by
    rw [digitsText, wholeDigits] at hc
    split at hc
    · obtain rfl := Option.some.inj hc
      rfl
    · cases hdigits : Nat.toDigits 10 (digit weight) with
      | nil => exact absurd hdigits Nat.toDigits_ne_nil
      | cons d rest =>
          rw [hdigits] at hc
          obtain rfl := Option.some.inj hc
          exact Nat.isDigit_of_mem_toDigits (by omega) (by omega)
            (hdigits ▸ List.mem_cons_self : d ∈ Nat.toDigits 10 (digit weight))
  rintro rfl
  exact absurd hdigit (by decide)

/-- The bytes of a numeric are read as its digits. -/
lemma numericDigit_bytes (v : BinaryNumeric) (e : ℤ) :
    numericDigit v.bytes v.weight v.digits.length e = .ok (digitAt v.weight v.digits e) := by
  simp only [numericDigit]
  rw [digitAt]
  by_cases hhigh : v.weight < e
  · rw [if_pos (.inl (by omega)), if_pos hhigh]
  · rw [if_neg hhigh]
    by_cases hlow : v.digits.length ≤ (v.weight - e).toNat
    · rw [if_pos (.inr hlow), List.getD_eq_getElem?_getD,
        List.getElem?_eq_none hlow]
      rfl
    · rw [if_neg (by omega), BinaryNumeric.bytes, u16At_behind_header,
        u16At_digits v.digit_lt (by omega)]

lemma asI16_weight (v : BinaryNumeric) : asI16 (v.weight % 65536).toNat = v.weight := by
  have hmem := v.weight_mem
  rw [asI16]
  split <;> omega

lemma length_bytes (v : BinaryNumeric) : v.bytes.length = 8 + v.digits.length * 2 := by
  have hdigits : ∀ ds : List ℕ, (ds.flatMap u16Bytes).length = ds.length * 2 := by
    intro ds
    induction ds with
    | nil => rfl
    | cons d ds ih =>
        rw [List.flatMap_cons, List.length_append, ih, List.length_cons, u16Bytes, List.length_cons,
          List.length_singleton]
        omega
  rw [BinaryNumeric.bytes, List.length_append, hdigits]
  rfl

/-- **Numeric decoding is exact**: the text of a number denotes it, with as many digits behind the
point as its scale says; the values that are no numbers have their names; and no bytes make the
function read behind their end. -/
theorem numericBinaryToText_exact :
    (∀ v : BinaryNumeric, ∃ text, numericBinaryToText v.bytes = .ok text ∧
        decimalOf text = some (v.value, v.dscale)) ∧
      (∀ ndigits weight dscale rest,
        numericBinaryToText (numericHeader ndigits weight numericNan dscale ++ rest)
            = .ok "NaN".toList ∧
          numericBinaryToText (numericHeader ndigits weight numericPinf dscale ++ rest)
            = .ok "Infinity".toList ∧
          numericBinaryToText (numericHeader ndigits weight numericNinf dscale ++ rest)
            = .ok "-Infinity".toList) ∧
      ∀ raw, numericBinaryToText raw ≠ .error .outOfBounds := by
  refine ⟨fun v => ?_, fun ndigits weight dscale rest => ?_, numericBinaryToText_inBounds⟩
  · have hsign : (if v.negative then numericNeg else 0) < 65536 := by
      split <;> decide
    have hnumber : ∀ negative : Bool, (if negative then numericNeg else 0) ≠ numericNan ∧
        (if negative then numericNeg else 0) ≠ numericPinf ∧
        (if negative then numericNeg else 0) ≠ numericNinf := by decide
    have hneg : ((if v.negative then numericNeg else 0) = numericNeg) ↔ v.negative = true := by
      cases v.negative <;> decide
    obtain ⟨m, hm, htext⟩ := @numericBinaryToText_eq v.bytes _ _ _ _ _
      (length_bytes v).ge (u16At_header_ndigits _ v.length_lt) (u16At_header_weight _ (by omega))
      (u16At_header_sign _ hsign) (u16At_header_dscale _ v.dscale_lt) (hnumber v.negative)
      (by rw [asI16_weight]; exact numericDigit_bytes v)
    rw [asI16_weight] at htext
    refine ⟨_, htext, ?_⟩
    simp only [hneg]
    rw [decimalOf_sign v.negative (digitsText_head _ _ _ _) (digitsText_value v hm)]
    rfl
  · have hlength : ∀ sign, 8 ≤ (numericHeader ndigits weight sign dscale ++ rest).length := by
      intro sign
      rw [List.length_append]
      exact Nat.le_add_right 8 _
    have hsign : ∀ sign < 65536,
        u16At (numericHeader ndigits weight sign dscale ++ rest) 4 = .ok sign :=
      fun sign h => u16At_header_sign rest h
    exact ⟨(numericBinaryToText_special (hlength _) (hsign numericNan (by decide))).1 rfl,
      (numericBinaryToText_special (hlength _) (hsign numericPinf (by decide))).2.1 rfl,
      (numericBinaryToText_special (hlength _) (hsign numericNinf (by decide))).2.2 rfl⟩

/-- Minus 12345.67, in three digits of base 10000. -/
def owed : BinaryNumeric where
  negative := true
  weight := 1
  dscale := 2
  digits := [1, 2345, 6700]
  weight_mem := by decide
  dscale_lt := by decide
  length_lt := by decide
  digit_lt := by decide
  exact := ⟨1234567, by norm_num [expansion]⟩

example : numericBinaryToText owed.bytes = .ok "-12345.67".toList := by decide +kernel

end OdooKernel
