import Mathlib.Algebra.Order.Field.Rat
import Mathlib.Algebra.Order.Field.Power
import Mathlib.Tactic.FieldSimp
import Mathlib.Tactic.Linarith
import Mathlib.Tactic.Positivity
import Mathlib.Tactic.Ring

/-!
# Digits on both sides of the point

A number is written as digits of a base, the first one at some exponent, which may be negative.
Digits may be missing on either side: they are zeros, and the digit at an exponent is there for every
exponent (`digitAt`), so that two ways to group the digits of one number are compared exponent by
exponent.

* `expansion` — what digits are worth.
* `below` — what the digits at an exponent and below it are worth; `below_step`, `below_lt`.
* `leading` — the digits from an exponent downwards as one number; `below_eq_leading`.
* `truncated_exact` — no digit is lost by cutting off those behind the last one that counts.
-/

namespace OdooKernel

section

variable (b : ℕ)

/-- What digits are worth, the first one at the exponent `e`. -/
def expansion : ℤ → List ℕ → ℚ
  | _, [] => 0
  | e, d :: ds => d * (b : ℚ) ^ e + expansion (e - 1) ds

/-- The digit at the exponent `e` of digits that start at the exponent `weight`. -/
def digitAt (weight : ℤ) (ds : List ℕ) (e : ℤ) : ℕ :=
  if weight < e then 0 else ds.getD (weight - e).toNat 0

/-- What the digits at the exponent `e` and below it are worth. -/
def below (weight : ℤ) (ds : List ℕ) (e : ℤ) : ℚ :=
  if weight ≤ e then expansion b weight ds else expansion b e (ds.drop (weight - e).toNat)

/-- `k` digits as one number, the first one at the exponent `top`. -/
def leading (digit : ℤ → ℕ) (top : ℤ) : ℕ → ℕ
  | 0 => 0
  | k + 1 => b * leading digit top k + digit (top - k)

variable {b}

/-- The first digit of several counts most. -/
lemma leading_cons (digit : ℤ → ℕ) (top : ℤ) (k : ℕ) :
    leading b digit top (k + 1) = digit top * b ^ k + leading b digit (top - 1) k := by
  induction k with
  | zero => simp [leading]
  | succ k ih =>
      have hexp : top - (k + 1 : ℕ) = top - 1 - k := by omega
      rw [leading, ih, hexp, leading, pow_succ]
      ring

lemma digitAt_lt (hb : 0 < b) {weight : ℤ} {ds : List ℕ} (hds : ∀ d ∈ ds, d < b) (e : ℤ) :
    digitAt weight ds e < b := by
  rw [digitAt]
  split
  · exact hb
  · rw [List.getD_eq_getElem?_getD]
    cases hget : ds[(weight - e).toNat]? with
    | none => simpa using hb
    | some d => simpa using hds d (List.mem_of_getElem? hget)

lemma expansion_nonneg (e : ℤ) (ds : List ℕ) : 0 ≤ expansion b e ds := by
  induction ds generalizing e with
  | nil => simp [expansion]
  | cons d ds ih =>
      have := ih (e - 1)
      rw [expansion]
      positivity

/-- Digits are worth less than one at the exponent above them. -/
lemma expansion_lt (hb : 0 < b) {ds : List ℕ} (hds : ∀ d ∈ ds, d < b) (e : ℤ) :
    expansion b e ds < (b : ℚ) ^ (e + 1) := by
  have hpos : (0 : ℚ) < b := by exact_mod_cast hb
  induction ds generalizing e with
  | nil =>
      rw [expansion]
      positivity
  | cons d ds ih =>
      have hrest := ih (fun d' hd' => hds d' (List.mem_cons_of_mem _ hd')) (e - 1)
      rw [Int.sub_add_cancel] at hrest
      have hd : (d : ℚ) + 1 ≤ b := by exact_mod_cast hds d List.mem_cons_self
      have hpow : (0 : ℚ) < (b : ℚ) ^ e := zpow_pos hpos e
      have hmul := mul_le_mul_of_nonneg_right hd hpow.le
      rw [expansion, zpow_add_one₀ hpos.ne']
      linarith

lemma below_nonneg (weight : ℤ) (ds : List ℕ) (e : ℤ) : 0 ≤ below b weight ds e := by
  rw [below]
  split <;> exact expansion_nonneg _ _

lemma below_of_le {weight e : ℤ} (h : weight ≤ e) (ds : List ℕ) :
    below b weight ds e = expansion b weight ds := if_pos h

lemma below_lt (hb : 0 < b) {weight : ℤ} {ds : List ℕ} (hds : ∀ d ∈ ds, d < b) (e : ℤ) :
    below b weight ds e < (b : ℚ) ^ (e + 1) := by
  rw [below]
  split
  · next hle =>
      calc expansion b weight ds < (b : ℚ) ^ (weight + 1) := expansion_lt hb hds weight
        _ ≤ (b : ℚ) ^ (e + 1) := zpow_le_zpow_right₀ (by exact_mod_cast hb) (by omega)
  · exact expansion_lt hb (fun d hd => hds d (List.mem_of_mem_drop hd)) e

/-- **One digit more**: what is left at an exponent and below it is the digit there and the rest. -/
lemma below_step (weight : ℤ) (ds : List ℕ) (e : ℤ) :
    below b weight ds e = digitAt weight ds e * (b : ℚ) ^ e + below b weight ds (e - 1) := by
  rcases lt_trichotomy weight e with hlt | rfl | hlt
  · rw [below_of_le hlt.le, below_of_le (by omega), digitAt, if_pos hlt, Nat.cast_zero, zero_mul,
      zero_add]
  · have hstart : (weight - (weight - 1)).toNat = 1 := by omega
    rw [below_of_le le_rfl, below, if_neg (by omega), digitAt, if_neg (lt_irrefl _), Int.sub_self,
      hstart]
    cases ds with
    | nil => simp [expansion]
    | cons d ds => simp [expansion]
  · have hnext : (weight - (e - 1)).toNat = (weight - e).toNat + 1 := by omega
    rw [below, if_neg (by omega), below, if_neg (by omega), digitAt, if_neg (by omega), hnext,
      List.getD_eq_getElem?_getD, ← List.drop_drop]
    cases hdrop : ds.drop (weight - e).toNat with
    | nil =>
        have hget : ds[(weight - e).toNat]? = none := by
          rw [List.getElem?_eq_none_iff]
          exact List.drop_eq_nil_iff.mp hdrop
        simp [hget, expansion]
    | cons d rest =>
        have hget : ds[(weight - e).toNat]? = some d := by
          have h := congrArg List.head? hdrop
          rwa [List.head?_drop, List.head?_cons] at h
        simp [hget, expansion]

/-- **The digits from an exponent downwards**, as one number, and what is left below them. -/
lemma below_eq_leading (hb : 0 < b) (weight : ℤ) (ds : List ℕ) (top : ℤ) (k : ℕ) :
    below b weight ds top
      = leading b (digitAt weight ds) top k * (b : ℚ) ^ (top - k + 1)
        + below b weight ds (top - k) := by
  have hne : (b : ℚ) ≠ 0 := by exact_mod_cast hb.ne'
  induction k with
  | zero => simp [leading]
  | succ k ih =>
      have hexp : top - (k + 1 : ℕ) = top - k - 1 := by omega
      rw [ih, below_step weight ds (top - k), hexp, leading, Int.sub_add_cancel,
        zpow_add_one₀ hne]
      push_cast
      ring

end

/-- **No digit is lost**: a number that has `s` digits behind the point is its integral part and
the first `s` of the digits that are written behind the point, in groups. -/
lemma truncated_exact {whole fraction n s j : ℕ} {rest value : ℚ}
    (hvalue : value = whole + fraction / (10 : ℚ) ^ (s + j) + rest) (hrest : 0 ≤ rest)
    (hsmall : rest * (10 : ℚ) ^ (s + j) < 1) (hscale : value * (10 : ℚ) ^ s = n) :
    value = whole + (fraction / 10 ^ j : ℕ) / (10 : ℚ) ^ s := by
  have hs : (0 : ℚ) < 10 ^ s := by positivity
  have hj : (0 : ℚ) < 10 ^ j := by positivity
  have hsum : rest * (10 : ℚ) ^ (s + j) = n * 10 ^ j - whole * 10 ^ (s + j) - fraction := by
    rw [← hscale, hvalue, pow_add]
    field_simp
    ring
  -- what is left is a natural number below one
  have hcast : rest * (10 : ℚ) ^ (s + j)
      = ((n * 10 ^ j - whole * 10 ^ (s + j) - fraction : ℤ) : ℚ) := by
    rw [hsum]
    push_cast
    ring
  have hzero : (n * 10 ^ j - whole * 10 ^ (s + j) - fraction : ℤ) = 0 := by
    have hlow : (0 : ℤ) ≤ (n * 10 ^ j - whole * 10 ^ (s + j) - fraction : ℤ) := by
      have h : (0 : ℚ) ≤ rest * (10 : ℚ) ^ (s + j) := by positivity
      rw [hcast] at h
      exact_mod_cast h
    have hhigh : (n * 10 ^ j - whole * 10 ^ (s + j) - fraction : ℤ) < 1 := by
      rw [hcast] at hsmall
      exact_mod_cast hsmall
    omega
  have hnat : fraction + whole * 10 ^ s * 10 ^ j = n * 10 ^ j := by
    have h : (fraction + whole * 10 ^ s * 10 ^ j : ℤ) = n * 10 ^ j := by
      rw [pow_add] at hzero
      linarith
    exact_mod_cast h
  have hdiv : fraction / 10 ^ j + whole * 10 ^ s = n := by
    rw [← Nat.add_mul_div_right _ _ (by positivity), hnat, Nat.mul_div_cancel _ (by positivity)]
  have hdivq : ((fraction / 10 ^ j : ℕ) : ℚ) + whole * 10 ^ s = n := by exact_mod_cast hdiv
  rw [eq_div_of_mul_eq hs.ne' hscale, ← hdivq]
  field_simp
  ring

end OdooKernel
