import Mathlib.Algebra.Order.Floor.Ring
import Mathlib.Algebra.Order.Round
import Mathlib.Data.Int.Log
import Mathlib.Data.Rat.Floor
import Mathlib.Tactic.Linarith
import Mathlib.Tactic.NormNum
import Mathlib.Tactic.Positivity

/-!
# Floats of single precision, as the rationals they denote

A finite float is a rational with 24 binary digits, none of them below the last one that floats have;
that is all of it that matters for which texts are read as one.  A zero has no sign here, and the
floats that are no number have names.

* `IsF32`, `F32` — the rationals that are finite floats.
* `Single` — the floats.
* `roundF32` — the float nearest to a rational, the even one of two.
* `roundF32_self` — a float is the nearest to itself.
* `roundF32_i64Max` — the largest number of 63 bits is rounded to the power of two above it.
-/

namespace OdooKernel

/-- A rational that a float denotes: 24 binary digits, and none below `2 ^ (-149)`. -/
def IsF32 (q : ℚ) : Prop :=
  |q| < 2 ^ 128 ∧ ∃ m e : ℤ, |m| ≤ 2 ^ 24 ∧ -149 ≤ e ∧ q = m * (2 : ℚ) ^ e

/-- The finite floats; a zero has no sign here. -/
abbrev F32 := {q : ℚ // IsF32 q}

/-- The floats. -/
inductive Single where
  | finite (f : F32)
  | infinite (negative : Bool)
  | nan

/-- The nearest integer, the even one of two. -/
def roundHalfEven (q : ℚ) : ℤ :=
  let n := ⌊q⌋
  if q - n < 1 / 2 then n
  else if 1 / 2 < q - n then n + 1
  else if n % 2 = 0 then n
  else n + 1

/-- The exponent of the last binary digit that counts. -/
def f32Exponent (q : ℚ) : ℤ := max (-149) (Int.log 2 |q| - 23)

/-- The number of last digits that a rational is rounded to. -/
def f32Mantissa (q : ℚ) : ℤ := roundHalfEven (q / (2 : ℚ) ^ f32Exponent q)

/-! ## Rounding -/

@[simp] lemma roundHalfEven_intCast (n : ℤ) : roundHalfEven (n : ℚ) = n := by
  simp [roundHalfEven]

lemma abs_roundHalfEven_le {q : ℚ} {n : ℤ} (hq : |q| < n) : |roundHalfEven q| ≤ n := by
  obtain ⟨hlow, hhigh⟩ := abs_lt.mp hq
  have hfloor : ⌊q⌋ < n := Int.floor_lt.mpr hhigh
  have hfloor' : -n ≤ ⌊q⌋ := by
    rw [Int.le_floor]
    push_cast
    exact hlow.le
  rw [abs_le, roundHalfEven]
  split_ifs <;> omega

lemma abs_div_f32Exponent_lt (q : ℚ) : |q / (2 : ℚ) ^ f32Exponent q| < (2 ^ 24 : ℤ) := by
  have hpos : (0 : ℚ) < (2 : ℚ) ^ f32Exponent q := zpow_pos (by norm_num) _
  have hlog : |q| < ((2 : ℕ) : ℚ) ^ (Int.log 2 |q| + 1) :=
    Int.lt_zpow_succ_log_self (by norm_num) |q|
  have hexp : Int.log 2 |q| + 1 ≤ 24 + f32Exponent q := by
    have := le_max_right (-149) (Int.log 2 |q| - 23)
    rw [f32Exponent]
    omega
  rw [abs_div, abs_of_pos hpos, div_lt_iff₀ hpos]
  calc |q| < (2 : ℚ) ^ (Int.log 2 |q| + 1) := by exact_mod_cast hlog
    _ ≤ (2 : ℚ) ^ (24 + f32Exponent q) := zpow_le_zpow_right₀ (by norm_num) hexp
    _ = ((2 ^ 24 : ℤ) : ℚ) * (2 : ℚ) ^ f32Exponent q := by
        rw [zpow_add₀ (by norm_num)]
        norm_num

lemma abs_f32Mantissa_le (q : ℚ) : |f32Mantissa q| ≤ 2 ^ 24 :=
  abs_roundHalfEven_le (abs_div_f32Exponent_lt q)

/-- The float nearest to a rational. -/
def roundF32 (q : ℚ) : Single :=
  if h : |f32Mantissa q * (2 : ℚ) ^ f32Exponent q| < 2 ^ 128 then
    .finite ⟨f32Mantissa q * (2 : ℚ) ^ f32Exponent q, h, f32Mantissa q, f32Exponent q,
      abs_f32Mantissa_le q, le_max_left _ _, rfl⟩
  else .infinite (q < 0)

/-- A float has 24 binary digits, at some exponent. -/
lemma IsF32.digits {q : ℚ} (h : IsF32 q) :
    ∃ m e : ℤ, |m| < 2 ^ 24 ∧ -149 ≤ e ∧ q = m * (2 : ℚ) ^ e := by
  obtain ⟨-, m, e, hm, he, hq⟩ := h
  rcases lt_or_eq_of_le hm with hlt | heq
  · exact ⟨m, e, hlt, he, hq⟩
  · have htwo : (2 : ℚ) ^ (e + 1) = 2 ^ e * 2 := zpow_add_one₀ (by norm_num) e
    rcases eq_or_eq_neg_of_abs_eq heq with rfl | rfl
    · refine ⟨2 ^ 23, e + 1, by norm_num, by omega, ?_⟩
      rw [hq, htwo]
      push_cast
      ring
    · refine ⟨-2 ^ 23, e + 1, by norm_num, by omega, ?_⟩
      rw [hq, htwo]
      push_cast
      ring

/-- The last digit of a float is not below the last one that counts. -/
lemma f32Exponent_le {m e : ℤ} (hm : |m| < 2 ^ 24) (he : -149 ≤ e) (hzero : m ≠ 0) :
    f32Exponent (m * (2 : ℚ) ^ e) ≤ e := by
  have hpos : (0 : ℚ) < (2 : ℚ) ^ e := zpow_pos (by norm_num) _
  have hm0 : (0 : ℚ) < |(m : ℚ)| := abs_pos.mpr (by exact_mod_cast hzero)
  have habs : |(m : ℚ) * (2 : ℚ) ^ e| = |(m : ℚ)| * (2 : ℚ) ^ e := by
    rw [abs_mul, abs_of_pos hpos]
  have hlt : |(m : ℚ) * (2 : ℚ) ^ e| < ((2 : ℕ) : ℚ) ^ (e + 24) := by
    have hmq : |(m : ℚ)| < 2 ^ 24 := by exact_mod_cast hm
    calc |(m : ℚ) * (2 : ℚ) ^ e| = |(m : ℚ)| * (2 : ℚ) ^ e := habs
      _ < 2 ^ 24 * (2 : ℚ) ^ e := mul_lt_mul_of_pos_right hmq hpos
      _ = ((2 : ℕ) : ℚ) ^ (e + 24) := by
          rw [Nat.cast_ofNat, zpow_add₀ (by norm_num)]
          norm_num
          ring
  have hlog := (Int.lt_zpow_iff_log_lt (by norm_num) (habs ▸ mul_pos hm0 hpos)).mp hlt
  rw [f32Exponent]
  omega

/-- **A float is the nearest to itself.** -/
lemma roundF32_self (f : F32) : roundF32 f.1 = .finite f := by
  obtain ⟨m, e, hm, he, hq⟩ := f.2.digits
  have hself : (f32Mantissa f.1 : ℚ) * (2 : ℚ) ^ f32Exponent f.1 = f.1 := by
    by_cases hzero : m = 0
    · have hf : f.1 = 0 := by rw [hq, hzero, Int.cast_zero, zero_mul]
      have hround : f32Mantissa 0 = 0 := by
        rw [f32Mantissa, zero_div]
        exact roundHalfEven_intCast 0
      rw [hf, hround, Int.cast_zero, zero_mul]
    · have hexp := f32Exponent_le hm he hzero
      rw [← hq] at hexp
      -- the float is a whole number of the last digits that count
      have hwhole : f.1 / (2 : ℚ) ^ f32Exponent f.1
          = ((m * 2 ^ (e - f32Exponent f.1).toNat : ℤ) : ℚ) := by
        have hpow : ((2 : ℚ) ^ (e - f32Exponent f.1).toNat) = 2 ^ (e - f32Exponent f.1) := by
          rw [← zpow_natCast, Int.toNat_of_nonneg (by omega)]
        push_cast
        rw [hpow, zpow_sub₀ (by norm_num), div_eq_iff (zpow_ne_zero _ (by norm_num))]
        conv_lhs => rw [hq]
        rw [mul_assoc, div_mul_cancel₀ _ (zpow_ne_zero _ (by norm_num))]
      rw [f32Mantissa, hwhole, roundHalfEven_intCast, ← hwhole,
        div_mul_cancel₀ _ (zpow_ne_zero _ (by norm_num))]
  have hsmall : |(f32Mantissa f.1 : ℚ) * (2 : ℚ) ^ f32Exponent f.1| < 2 ^ 128 := by
    rw [hself]
    exact f.2.1
  rw [roundF32, dif_pos hsmall]
  exact congrArg Single.finite (Subtype.ext hself)

/-- The largest number of 63 bits is nearest to the power of two above it. -/
lemma roundF32_i64Max {f : F32} (hf : f.1 = 2 ^ 63) : roundF32 (2 ^ 63 - 1) = .finite f := by
  have hlog : Int.log 2 |(2 ^ 63 - 1 : ℚ)| = 62 := by
    have hcast : |(2 ^ 63 - 1 : ℚ)| = ((2 ^ 63 - 1 : ℕ) : ℚ) := by norm_num
    have hnat : Nat.log 2 (2 ^ 63 - 1) = 62 := by
      rw [Nat.log_eq_iff (.inl (by norm_num))]
      norm_num
    rw [hcast, Int.log_natCast, hnat]
    rfl
  have hexp : f32Exponent (2 ^ 63 - 1) = 39 := by
    rw [f32Exponent, hlog]
    rfl
  have hmantissa : f32Mantissa (2 ^ 63 - 1) = 2 ^ 24 := by
    have hfloor : ⌊(2 ^ 63 - 1 : ℚ) / (2 : ℚ) ^ (39 : ℤ)⌋ = 2 ^ 24 - 1 := by
      rw [Int.floor_eq_iff]
      norm_num
    rw [f32Mantissa, hexp, roundHalfEven, hfloor]
    norm_num
  have hvalue : (f32Mantissa (2 ^ 63 - 1) : ℚ) * (2 : ℚ) ^ f32Exponent (2 ^ 63 - 1) = f.1 := by
    rw [hmantissa, hexp, hf]
    norm_num
  rw [roundF32, dif_pos (by rw [hvalue]; exact f.2.1)]
  exact congrArg Single.finite (Subtype.ext hvalue)

end OdooKernel
