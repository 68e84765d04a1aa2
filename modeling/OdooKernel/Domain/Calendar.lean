import Mathlib.Algebra.GroupWithZero.Nat
import Mathlib.Data.List.Basic
import OdooKernel.Domain.Temporal

/-!
# Dates and instants have texts of their own

The texts that dates and instants are answered as tell them apart, and the reader of
`Domain/Temporal` takes the text of an instant back to it.

**The calendar** is undone by counting days (`ofCivil_civil`): a day of an era is in one of its
years, and centuries, cycles of four years and days lead there.

**Digits.**  Months and days have two, and a year has a sign exactly where four digits do not hold
it, so that no two years are written alike.

* `civil_bounds`, `ofCivil_civil` — the calendar.
* `padded_injective`, `yearText_injective` — numbers as digits.
* `Instant.preciseText` — an instant to the microsecond, if it is not a whole second.
* `Date.text_injective`, `Instant.preciseText_injective` — no two have one text.
* `readInstant_text` — the text of a whole second is read back.
-/

namespace OdooKernel

/-! ## The calendar -/

/-- A day of an era is in one of its years: centuries, cycles of four years and days lead there. -/
lemma dayOfYear_bounds {doe yoe doy : ℤ} (h0 : 0 ≤ doe) (h1 : doe < 146097)
    (hyoe : yoe = (doe - doe / 1460 + doe / 36524 - doe / 146096) / 365)
    (hdoy : doy = doe - (365 * yoe + yoe / 4 - yoe / 100)) : 0 ≤ doy ∧ doy < 366 := by
  by_cases hlast : doe = 146096
  · subst hlast
    obtain rfl : yoe = 399 := hyoe
    obtain rfl : doy = 365 := hdoy
    omega
  · obtain ⟨c, q, s, hdoe, hc, hq, hs, hr⟩ : ∃ c q s : ℤ, doe = 36524 * c + 1461 * q + s ∧
        (0 ≤ c ∧ c ≤ 3) ∧ (0 ≤ q ∧ q ≤ 24) ∧ (0 ≤ s ∧ s ≤ 1460) ∧ 1461 * q + s < 36524 :=
      ⟨doe / 36524, doe % 36524 / 1461, doe % 36524 % 1461, by omega, by omega, by omega, by omega,
        by omega⟩
    have hcentury : doe / 36524 = c := by omega
    have hera : doe / 146096 = 0 := by omega
    obtain ⟨e, he⟩ : ∃ e, e = (24 * c + q + s) / 1460 := ⟨_, rfl⟩
    have hcycles : doe / 1460 = 25 * c + q + e := by omega
    have hyear : yoe = 100 * c + 4 * q + (s - e) / 365 := by
      rw [hyoe, hcentury, hera, hcycles, hdoe]
      omega
    clear hyoe hcentury hera hcycles
    have hfour : yoe / 4 = 25 * c + q := by omega
    have hhundred : yoe / 100 = c := by omega
    rw [hfour, hhundred, hyear] at hdoy
    clear hyear hfour hhundred
    omega

/-- What the calendar says of a day, with the year that begins in March. -/
lemma civil_cases (date : ℤ) : ∃ era yoe doy mi : ℤ,
    (0 ≤ yoe ∧ yoe < 400) ∧ (0 ≤ doy ∧ doy < 366) ∧ mi = (5 * doy + 2) / 153 ∧
    date = era * 146097 + (yoe * 365 + yoe / 4 - yoe / 100 + doy) - 719468 ∧
    Date.civil date = (if (if mi < 10 then mi + 3 else mi - 9) ≤ 2 then yoe + era * 400 + 1 else yoe + era * 400,
      if mi < 10 then mi + 3 else mi - 9, doy - (153 * mi + 2) / 5 + 1) := by
  obtain ⟨doe, hdoe⟩ : ∃ doe, doe = date + 719468 - (date + 719468) / 146097 * 146097 := ⟨_, rfl⟩
  have h0 : 0 ≤ doe ∧ doe < 146097 := by omega
  obtain ⟨yoe, hyoe⟩ : ∃ yoe, yoe = (doe - doe / 1460 + doe / 36524 - doe / 146096) / 365 := ⟨_, rfl⟩
  obtain ⟨doy, hdoy⟩ : ∃ doy, doy = doe - (365 * yoe + yoe / 4 - yoe / 100) := ⟨_, rfl⟩
  have hyears : 0 ≤ yoe ∧ yoe < 400 := by omega
  refine ⟨(date + 719468) / 146097, yoe, doy, (5 * doy + 2) / 153, hyears,
    dayOfYear_bounds h0.1 h0.2 hyoe hdoy, rfl, by omega, ?_⟩
  simp only [Date.civil, ← hdoe, ← hyoe, ← hdoy]

/-- Months and days of the month have two digits. -/
lemma civil_bounds (date : ℤ) : (0 ≤ (Date.civil date).2.1 ∧ (Date.civil date).2.1 < 100) ∧
    (0 ≤ (Date.civil date).2.2 ∧ (Date.civil date).2.2 < 100) := by
  obtain ⟨era, yoe, doy, mi, -, hdoy, hmi, -, hcivil⟩ := civil_cases date
  rw [hcivil]
  dsimp only
  refine ⟨?_, ?_⟩
  · split <;> omega
  · omega

/-- **The calendar is undone.** -/
lemma ofCivil_civil (date : ℤ) :
    Date.ofCivil (Date.civil date).1 (Date.civil date).2.1 (Date.civil date).2.2 = date := by
  obtain ⟨era, yoe, doy, mi, hyoe, hdoy, hmi, hdate, hcivil⟩ := civil_cases date
  have hmonth : 0 ≤ mi ∧ mi ≤ 11 := by omega
  rw [hcivil]
  simp only [Date.ofCivil]
  by_cases hmarch : mi < 10
  · have hlate : ¬ mi + 3 ≤ 2 := by omega
    have hera : (yoe + era * 400) / 400 = era := by omega
    have hindex : (mi + 3 + 9) % 12 = mi := by omega
    simp only [if_pos hmarch, if_neg hlate, hera, hindex, Int.add_sub_cancel]
    show @Eq ℤ _ _
    omega
  · have hearly : mi - 9 ≤ 2 := by omega
    have hera : (yoe + era * 400) / 400 = era := by omega
    have hindex : (mi - 9 + 9) % 12 = mi := by omega
    simp only [if_neg hmarch, if_pos hearly, Int.add_sub_cancel, hera, hindex]
    show @Eq ℤ _ _
    omega

/-! ## Digits -/

/-- The digits of a number, with zeros before them, are the number. -/
lemma padded_injective (width : ℕ) : Function.Injective (padded width) := by
  intro m n h
  have hvalue : ∀ k, Nat.ofDigitChars 10 (padded width k) 0 = k := by
    intro k
    rw [padded, Nat.ofDigitChars_append, Nat.ofDigitChars_replicate_zero, Nat.mul_zero,
      Nat.ofDigitChars_ten_toDigits]
  rw [← hvalue m, h, hvalue n]

lemma length_padded {width n : ℕ} (hwidth : 0 < width) (hn : n < 10 ^ width) :
    (padded width n).length = width := by
  have hdigits := (Nat.length_toDigits_le_iff (by omega) hwidth).mpr hn
  rw [padded, List.length_append, List.length_replicate]
  omega

lemma isDigit_of_mem_padded {width n : ℕ} {c : Char} (hc : c ∈ padded width n) : c.isDigit := by
  rcases List.mem_append.mp hc with hc | hc
  · rw [(List.mem_replicate.mp hc).2]
    rfl
  · exact Nat.isDigit_of_mem_toDigits (by omega) (by omega) hc

/-- No digit is a sign. -/
lemma padded_ne_cons {width n : ℕ} {c : Char} (hc : c.isDigit = false) (cs : List Char) :
    padded width n ≠ c :: cs := by
  intro h
  have hdigit := isDigit_of_mem_padded (h ▸ List.mem_cons_self : c ∈ padded width n)
  rw [hc] at hdigit
  exact absurd hdigit (by decide)

/-- **No two years have one text.** -/
lemma yearText_injective : Function.Injective yearText := by
  intro y y' h
  have hsign : ∀ z : ℤ, (if z < 0 then '-' else '+' : Char).isDigit = false := by
    intro z
    split <;> rfl
  unfold yearText at h
  by_cases hy : 0 ≤ y ∧ y ≤ 9999
  all_goals by_cases hy' : 0 ≤ y' ∧ y' ≤ 9999
  all_goals simp only [hy, hy', if_true, if_false, and_self] at h
  · have := padded_injective 4 h
    omega
  · exact absurd h (padded_ne_cons (hsign y') _)
  · exact absurd h.symm (padded_ne_cons (hsign y) _)
  · obtain ⟨hsigns, hdigits⟩ := List.cons.inj h
    have habs := padded_injective 4 hdigits
    by_cases hneg : y < 0
    all_goals by_cases hneg' : y' < 0
    all_goals simp only [hneg, hneg', if_true, if_false, Char.reduceEq] at hsigns
    all_goals omega

/-! ## Texts -/

/-- Two texts that end in parts of one length agree in both parts. -/
lemma append_cons_inj {c c' : Char} {a a' b b' : List Char} (hlength : b.length = b'.length)
    (h : a ++ c :: b = a' ++ c' :: b') : a = a' ∧ b = b' := by
  obtain ⟨ha, hb⟩ := List.append_inj' h (by simp [hlength])
  exact ⟨ha, (List.cons.inj hb).2⟩

lemma length_padded_two {n : ℤ} (h : 0 ≤ n ∧ n < 100) : (padded 2 n.toNat).length = 2 :=
  length_padded (by omega) (by omega)

lemma dateChars_injective : Function.Injective Date.chars := by
  intro d d' h
  obtain ⟨hm, hd⟩ := civil_bounds d
  obtain ⟨hm', hd'⟩ := civil_bounds d'
  have htext : ∀ date : Date, date.chars = (yearText date.civil.1 ++ '-' :: padded 2 date.civil.2.1.toNat)
      ++ '-' :: padded 2 date.civil.2.2.toNat := fun date => by
    simp [Date.chars]
  rw [htext, htext] at h
  obtain ⟨h, hday⟩ := append_cons_inj (by rw [length_padded_two hd, length_padded_two hd']) h
  obtain ⟨hyear, hmonth⟩ := append_cons_inj (by rw [length_padded_two hm, length_padded_two hm']) h
  have hmonths := padded_injective 2 hmonth
  have hdays := padded_injective 2 hday
  rw [← ofCivil_civil d, ← ofCivil_civil d', yearText_injective hyear,
    show d.civil.2.1 = d'.civil.2.1 by omega, show d.civil.2.2 = d'.civil.2.2 by omega]

/-- **No two dates have one text.** -/
lemma Date.text_injective : Function.Injective Date.text := fun _ _ h =>
  dateChars_injective (String.ofList_injective h)

/-- The microseconds of an instant after its last second. -/
def Instant.micros (t : Instant) : ℕ := (t % 1000000).toNat

/-- **An instant as it is answered**: to the microsecond, if it is not a whole second. -/
def Instant.preciseText (t : Instant) : String :=
  if t.micros = 0 then t.text else t.text ++ String.ofList ('.' :: padded 6 t.micros)

/-- The time of a day. -/
def timeChars (second : ℕ) : List Char :=
  padded 2 (second / 3600) ++ ':' :: padded 2 (second / 60 % 60) ++ ':' :: padded 2 (second % 60)

/-- The seconds of a day until an instant. -/
def Instant.second (t : ℤ) : ℕ := (t % dayLength / 1000000).toNat

lemma Instant.second_lt (t : ℤ) : Instant.second t < 86400 := by
  simp only [Instant.second, dayLength]
  omega

lemma Instant.toList_text (t : Instant) :
    t.text.toList = Date.chars (t / dayLength) ++ ' ' :: timeChars (Instant.second t) := by
  simp [Instant.text, timeChars, Instant.second]

lemma length_timeChars {second : ℕ} (h : second < 86400) : (timeChars second).length = 8 := by
  simp only [timeChars, List.length_append, List.length_cons]
  rw [length_padded (by omega) (by omega), length_padded (by omega) (by omega),
    length_padded (by omega) (by omega)]

lemma timeChars_inj {second second' : ℕ} (h : second < 86400) (h' : second' < 86400)
    (heq : timeChars second = timeChars second') : second = second' := by
  have htwo : ∀ n < 100, (padded 2 n).length = 2 := fun n hn => length_padded (by omega) (by omega)
  obtain ⟨heq, hseconds⟩ := append_cons_inj
    (by rw [htwo _ (by omega), htwo _ (by omega)]) heq
  obtain ⟨hhours, hminutes⟩ := append_cons_inj
    (by rw [htwo _ (by omega), htwo _ (by omega)]) heq
  have := padded_injective 2 hseconds
  have := padded_injective 2 hhours
  have := padded_injective 2 hminutes
  omega

/-- A text to the second is an instant's, up to its microseconds. -/
lemma Instant.text_inj {t t' : ℤ} (h : Instant.text t = Instant.text t') :
    t / 1000000 = t' / 1000000 := by
  have hchars := congrArg String.toList h
  rw [Instant.toList_text, Instant.toList_text] at hchars
  have hlt := Instant.second_lt t
  have hlt' := Instant.second_lt t'
  obtain ⟨hdate, htime⟩ := append_cons_inj
    (by rw [length_timeChars hlt, length_timeChars hlt']) hchars
  have hday : t / dayLength = t' / dayLength := dateChars_injective hdate
  have hsecond := timeChars_inj hlt hlt' htime
  simp only [Instant.second, dayLength] at hsecond hday
  omega

/-- A time ends in two digits for its seconds, so that no point stands before its last six. -/
lemma timeChars_ne_fraction {second n : ℕ} (h : second < 86400) (hn : n < 1000000)
    (start a : List Char) : start ++ ' ' :: timeChars second ≠ a ++ '.' :: padded 6 n := by
  intro heq
  have hlength : (padded 2 (second / 3600)).length = 2 := length_padded (by omega) (by omega)
  obtain ⟨x, y, hxy⟩ := List.length_eq_two.mp hlength
  have hdigit : y.isDigit := isDigit_of_mem_padded (hxy ▸ by simp : y ∈ padded 2 (second / 3600))
  have hshape : start ++ ' ' :: timeChars second = (start ++ [' ', x])
      ++ y :: (':' :: padded 2 (second / 60 % 60) ++ ':' :: padded 2 (second % 60)) := by
    simp [timeChars, hxy]
  rw [hshape] at heq
  obtain ⟨-, hend⟩ := List.append_inj' heq (by
    simp only [List.length_cons, List.length_append]
    rw [length_padded (by omega) (by omega), length_padded (by omega) (by omega),
      length_padded (by omega) (by omega)])
  rw [(List.cons.inj hend).1] at hdigit
  exact absurd hdigit (by decide)

/-- **No two instants have one text.** -/
lemma Instant.preciseText_injective {t t' : ℤ}
    (h : Instant.preciseText t = Instant.preciseText t') : t = t' := by
  have hmicros : ∀ u : ℤ, Instant.micros u < 1000000 := fun u => by
    simp only [Instant.micros]
    omega
  have hlt := Instant.second_lt t
  have hlt' := Instant.second_lt t'
  unfold Instant.preciseText at h
  split at h
  · next hwhole =>
      split at h
      · next hwhole' =>
          have := Instant.text_inj h
          simp only [Instant.micros] at hwhole hwhole'
          omega
      · have hchars := congrArg String.toList h
        rw [String.toList_append, String.toList_ofList, Instant.toList_text t] at hchars
        exact absurd hchars (timeChars_ne_fraction hlt (hmicros t') _ _)
  · split at h
    · have hchars := congrArg String.toList h
      rw [String.toList_append, String.toList_ofList, Instant.toList_text t'] at hchars
      exact absurd hchars.symm (timeChars_ne_fraction hlt' (hmicros t) _ _)
    · have hchars := congrArg String.toList h
      simp only [String.toList_append, String.toList_ofList] at hchars
      obtain ⟨htext, hfraction⟩ := append_cons_inj (by
        rw [length_padded (by omega) (hmicros t), length_padded (by omega) (hmicros t')]) hchars
      have := Instant.text_inj (String.toList_injective htext)
      have hfractions := padded_injective 6 hfraction
      simp only [Instant.micros] at hfractions
      omega

example : Instant.preciseText (19782 * dayLength + 3661000250) = "2024-02-29 01:01:01.000250" := by
  decide +kernel

/-! ## The texts are read back -/

/-- No digit is white space. -/
lemma isWhitespace_of_isDigit {d : Char} (h : d.isDigit = true) : isWhitespace d = false := by
  simp only [Char.isDigit, Bool.and_eq_true, decide_eq_true_eq, UInt32.le_iff_toNat_le] at h
  have hlow : 48 ≤ d.toNat := h.1
  have hhigh : d.toNat ≤ 57 := h.2
  simp only [isWhitespace, Bool.or_eq_false_iff, Bool.and_eq_false_iff, decide_eq_false_iff_not]
  omega

/-- Digits are read up to what is none. -/
lemma readDigits_append {width : ℕ} {ds rest : List Char} (hds : ∀ d ∈ ds, d.isDigit = true)
    (hne : ds ≠ []) (hlength : ds.length ≤ width)
    (hrest : ds.length = width ∨ ∀ d ∈ rest.head?, d.isDigit = false) :
    readDigits width (ds ++ rest) = some (digitsValue ds, rest) := by
  have hspaces : (ds ++ rest).dropWhile isWhitespace = ds ++ rest := by
    cases ds with
    | nil => exact absurd rfl hne
    | cons d ds =>
        have hd := isWhitespace_of_isDigit (hds d List.mem_cons_self)
        simp [hd]
  have htake : ((ds ++ rest).take width).takeWhile (·.isDigit) = ds := by
    rw [List.take_append, List.take_of_length_le hlength, List.takeWhile_append_of_pos hds]
    suffices h : (rest.take (width - ds.length)).takeWhile (·.isDigit) = [] by rw [h, List.append_nil]
    rcases hrest with hfull | hstop
    · rw [hfull, Nat.sub_self, List.take_zero]
      rfl
    · cases rest with
      | nil => rw [List.take_nil, List.takeWhile_nil]
      | cons d rest =>
          have hd : d.isDigit = false := hstop d rfl
          cases width - ds.length <;> simp [hd]
  simp only [readDigits]
  rw [hspaces, htake, if_neg (by simpa using hne), List.drop_left]

/-- The digits of a number are the number. -/
lemma digitsValue_padded (width n : ℕ) : digitsValue (padded width n) = n := by
  show Nat.ofDigitChars 10 (padded width n) 0 = n
  rw [padded, Nat.ofDigitChars_append, Nat.ofDigitChars_replicate_zero, Nat.mul_zero,
    Nat.ofDigitChars_ten_toDigits]

lemma padded_ne_nil {width n : ℕ} (hwidth : 0 < width) : padded width n ≠ [] := by
  intro h
  have hlength := congrArg List.length h
  rw [padded, List.length_append, List.length_replicate, List.length_nil] at hlength
  omega

lemma readDigits_padded {width n : ℕ} (hwidth : 0 < width) (hn : n < 10 ^ width)
    (rest : List Char) : readDigits width (padded width n ++ rest) = some (n, rest) := by
  have hlength := length_padded hwidth hn
  rw [readDigits_append (fun d => isDigit_of_mem_padded) (padded_ne_nil hwidth)
    (by omega) (.inl hlength), digitsValue_padded]

/-- A number that may be too long for its width is read up to what is no digit. -/
lemma readDigits_padded_all (width n : ℕ) (hwidth : 0 < width) {d : Char} (hd : d.isDigit = false)
    (rest : List Char) :
    readDigits (padded width n ++ d :: rest).length (padded width n ++ d :: rest) =
      some (n, d :: rest) := by
  rw [readDigits_append (fun d => isDigit_of_mem_padded) (padded_ne_nil hwidth)
    (by rw [List.length_append]; omega) (.inr (by simpa using hd)), digitsValue_padded]

lemma readYear_yearText (year : ℤ) (rest : List Char) :
    readYear (yearText year ++ '-' :: rest) = some (year, '-' :: rest) := by
  have hall := readDigits_padded_all 4 year.natAbs (by omega) (show '-'.isDigit = false from rfl) rest
  by_cases hfour : 0 ≤ year ∧ year ≤ 9999
  · have htext : yearText year = padded 4 year.toNat := by
      rw [yearText, if_pos hfour]
    have hread := @readDigits_padded 4 year.toNat (by omega) (by omega) ('-' :: rest)
    have hyear : (year.toNat : ℤ) = year := by omega
    rw [htext]
    cases hdigits : padded 4 year.toNat with
    | nil => exact absurd hdigits (padded_ne_nil (by omega))
    | cons d ds =>
        have hdigit : d.isDigit = true := isDigit_of_mem_padded (hdigits ▸ List.mem_cons_self)
        have hspace : isWhitespace d = false := isWhitespace_of_isDigit hdigit
        have hsign : d ≠ '-' ∧ d ≠ '+' := by
          constructor <;> rintro rfl <;> exact absurd hdigit (by decide)
        rw [hdigits] at hread
        unfold readYear
        simp only [List.cons_append, List.dropWhile_cons, hspace, Bool.false_eq_true, if_false]
        split
        · next h => exact absurd (List.cons.inj h).1 hsign.1
        · next h => exact absurd (List.cons.inj h).1 hsign.2
        · rw [List.cons_append] at hread
          rw [hread, Option.map_some, hyear]
  · have htext : yearText year = (if year < 0 then '-' else '+') :: padded 4 year.natAbs := by
      rw [yearText, if_neg hfour]
    rw [htext]
    by_cases hneg : year < 0
    · have hyear : -(year.natAbs : ℤ) = year := by omega
      rw [if_pos hneg]
      simp only [readYear, List.cons_append, List.dropWhile_cons, show isWhitespace '-' = false from rfl,
        Bool.false_eq_true, if_false]
      rw [hall, Option.map_some, hyear]
    · have hyear : (year.natAbs : ℤ) = year := by omega
      rw [if_neg hneg]
      simp only [readYear, List.cons_append, List.dropWhile_cons, show isWhitespace '+' = false from rfl,
        Bool.false_eq_true, if_false]
      rw [hall, Option.map_some, hyear]

/-- The text of a date is read back. -/
lemma readDate_chars (date : Date) (rest : List Char) :
    readDate (date.chars ++ rest) = some (date, rest) := by
  obtain ⟨⟨hm, hm'⟩, hd, hd'⟩ := civil_bounds date
  have htext : date.chars ++ rest = yearText date.civil.1 ++ '-' :: (padded 2 date.civil.2.1.toNat ++
      '-' :: (padded 2 date.civil.2.2.toNat ++ rest)) := by
    simp [Date.chars]
  have hcivil : Date.ofCivil? date.civil.1 date.civil.2.1.toNat date.civil.2.2.toNat = some date := by
    rw [Int.toNat_of_nonneg hm, Int.toNat_of_nonneg hd]
    simp only [Date.ofCivil?, ofCivil_civil, if_pos]
  rw [htext]
  simp only [readDate, readYear_yearText, readChar, if_pos, Option.bind_eq_bind, Option.bind_some]
  rw [readDigits_padded (by omega) (by omega)]
  simp only [Option.bind_some, if_pos]
  rw [readDigits_padded (by omega) (by omega)]
  simp only [Option.bind_some, hcivil]
  rfl

lemma readTime_timeChars {second : ℕ} (h : second < 86400) :
    readTime (timeChars second) = some ((second : ℤ) * 1000000, []) := by
  have hread : ∀ {n : ℕ}, n < 100 → ∀ rest, readDigits 2 (padded 2 n ++ rest) = some (n, rest) :=
    fun hn rest => readDigits_padded (by omega) (by omega) rest
  have hlast : readDigits 2 (padded 2 (second % 60)) = some (second % 60, []) := by
    simpa using @hread (second % 60) (by omega) []
  have htext : timeChars second = padded 2 (second / 3600) ++
      ':' :: (padded 2 (second / 60 % 60) ++ ':' :: padded 2 (second % 60)) := by
    simp [timeChars]
  rw [htext]
  simp only [readTime, Option.bind_eq_bind]
  rw [hread (by omega)]
  simp only [Option.bind_some, readChar, if_pos]
  rw [hread (by omega)]
  simp only [Option.bind_some, if_pos, hlast, readFraction]
  rw [if_pos (by omega)]
  have hsum : ((second / 3600 * 60 + second / 60 % 60) * 60 + second % 60) * 1000000 + 0 =
      second * 1000000 := by omega
  rw [hsum]
  exact congrArg (fun time : ℤ => some (time, ([] : List Char))) (Int.natCast_mul _ _)

/-- **An instant of a whole second is read back.** -/
lemma readInstant_text {t : ℤ} (h : t % 1000000 = 0) : readInstant (Instant.text t) = some t := by
  have hspace : ∀ cs, readTime (' ' :: cs) = readTime cs := fun cs => by
    have hskip : readDigits 2 (' ' :: cs) = readDigits 2 cs := by
      simp [readDigits, show isWhitespace ' ' = true from rfl]
    simp only [readTime, hskip]
  have hsecond : t / dayLength * dayLength + (Instant.second t : ℤ) * 1000000 = t := by
    simp only [Instant.second, dayLength]
    omega
  simp only [readInstant, Instant.toList_text, readDate_chars, Option.bind_eq_bind, Option.bind_some,
    hspace, readTime_timeChars (Instant.second_lt t), hsecond]
  rfl

/-- The text of an instant is no date. -/
lemma strictDate_text (t : Instant) : strictDate (Instant.text t) = none := by
  rw [strictDate, Instant.toList_text, readDate_chars]

end OdooKernel
