import OdooKernel.Core.Scan
import OdooKernel.Core.Text

/-!
# The opaque regions of SQL

Quoted texts, quoted identifiers, dollar-quoted texts and comments, as PostgreSQL delimits them with
`standard_conforming_strings`.  A text is its list of characters; every character beyond ASCII
belongs to identifiers, as in the source, where every byte beyond ASCII does (`Sql/Offsets`).

**A region at a position.**  `opaqueAt` looks at the character before a position, the one at it and
those behind, and says how many of the latter belong to the region.  All readers of SQL here are made
of it and of `scan`: what is found at a position and how much of the text it takes.

* `opaqueAt` — the region that starts at a position.
* `pieces` — a text as its regions and the characters outside them.
* `opaqueAt_eq_some` — what a region is; `opaqueAt_eq_none` — where there is none.
* `toQuoteEnd_closed`, `toCommentEnd_closed`, `toLineEnd_last` — how a region ends.
-/

namespace OdooKernel

/-- What a region is. -/
inductive Kind where
  | string
  | identifier
  | dollarString
  | comment
deriving DecidableEq, Repr

/-- A region: how many characters it takes behind its first, and whether it is closed. -/
structure Opaque where
  kind : Kind
  more : ℕ
  terminated : Bool
deriving DecidableEq, Repr

/-- The characters of identifiers and numbers. -/
def isIdentChar (c : Char) : Bool := c.isAlphanum || c = '_' || c = '$' || 128 ≤ c.toNat

lemma isIdentChar_iff {c : Char} : isIdentChar c = true ↔
    48 ≤ c.toNat ∧ c.toNat ≤ 57 ∨ 65 ≤ c.toNat ∧ c.toNat ≤ 90 ∨ 97 ≤ c.toNat ∧ c.toNat ≤ 122 ∨
      c.toNat = 95 ∨ c.toNat = 36 ∨ 128 ≤ c.toNat := by
  simp only [isIdentChar, Char.isAlphanum, isAlpha_iff, Char.isDigit, char_eq_iff,
    UInt32.le_iff_toNat_le, ge_iff_le, Bool.or_eq_true, Bool.and_eq_true, decide_eq_true_eq]
  show ((((65 ≤ c.toNat ∧ c.toNat ≤ 90 ∨ 97 ≤ c.toNat ∧ c.toNat ≤ 122) ∨
    48 ≤ c.toNat ∧ c.toNat ≤ 57) ∨ c.toNat = 95) ∨ c.toNat = 36) ∨ 128 ≤ c.toNat ↔ _
  omega

/-- The character before a position belongs to an identifier or a number. -/
def afterIdent (before : Option Char) : Bool := before.any isIdentChar

/-- A text whose end is `n` characters further on. -/
def further (n : ℕ) (extent : ℕ × Bool) : ℕ × Bool := (extent.1 + n, extent.2)

/-- A line comment ends behind the end of its line. -/
def toLineEnd : List Char → ℕ
  | [] => 0
  | c :: cs => if c = '\n' ∨ c = '\r' then 1 else toLineEnd cs + 1

/-- Block comments nest. -/
def toCommentEnd (depth : ℕ) : List Char → ℕ × Bool
  | [] => (0, false)
  | [_] => (1, false)
  | c :: d :: cs =>
    if c = '/' ∧ d = '*' then further 2 (toCommentEnd (depth + 1) cs)
    else if c = '*' ∧ d = '/' then
      if depth = 1 then (2, true) else further 2 (toCommentEnd (depth - 1) cs)
    else further 1 (toCommentEnd depth (d :: cs))

/-- A doubled quote belongs to the text, and so does a character behind a backslash where
backslashes escape; `skip` tells that the character at hand is the second of such two. -/
def toQuoteEnd (quote : Char) (escaped : Bool) : (skip : Bool) → List Char → ℕ × Bool
  | _, [] => (0, false)
  | true, _ :: cs => further 1 (toQuoteEnd quote escaped false cs)
  | false, c :: cs =>
    if escaped ∧ c = '\\' then further 1 (toQuoteEnd quote escaped true cs)
    else if c = quote then
      if cs.head? = some quote then further 1 (toQuoteEnd quote escaped true cs) else (1, true)
    else further 1 (toQuoteEnd quote escaped false cs)

/-- A dollar-quoted text ends behind its tag. -/
def toTagEnd (tag : List Char) : List Char → ℕ × Bool
  | [] => (0, false)
  | c :: cs =>
    if tag.isPrefixOf (c :: cs) then (tag.length, true) else further 1 (toTagEnd tag cs)

/-- The characters of a tag between its dollar signs. -/
def isTagChar (c : Char) : Bool := c ≠ '$' && isIdentChar c

/-- The region that starts at a position, if there is one. -/
def opaqueAt (before : Option Char) (c : Char) (cs : List Char) : Option Opaque :=
  let escaped : Bool :=
    (c = 'e' ∨ c = 'E') ∧ cs.head? = some '\'' ∧ ¬ afterIdent before
  if c = '-' ∧ cs.head? = some '-' then
    some { kind := .comment, more := toLineEnd cs.tail + 1, terminated := true }
  else if c = '/' ∧ cs.head? = some '*' then
    let extent := further 1 (toCommentEnd 1 cs.tail)
    some { kind := .comment, more := extent.1, terminated := extent.2 }
  else if escaped then
    let extent := further 1 (toQuoteEnd '\'' true false cs.tail)
    some { kind := .string, more := extent.1, terminated := extent.2 }
  else if c = '\'' ∨ c = '"' then
    let extent := toQuoteEnd c false false cs
    some { kind := if c = '"' then .identifier else .string,
           more := extent.1, terminated := extent.2 }
  else if c = '$' ∧ ¬ afterIdent before ∧ ¬ cs.head?.any Char.isDigit then
    let tag := cs.takeWhile isTagChar
    match cs.drop tag.length with
    | '$' :: rest =>
      let extent := further (tag.length + 1) (toTagEnd ('$' :: tag ++ ['$']) rest)
      some { kind := .dollarString, more := extent.1, terminated := extent.2 }
    | _ => none
  else none

/-! ## The pieces of a text -/

/-- A region, or a character outside the regions. -/
inductive Piece where
  | region (kind : Kind) (terminated : Bool) (text : List Char)
  | char (c : Char)
deriving DecidableEq, Repr

/-- What stands at a position. -/
def readPiece : Scanner Char Piece := fun before c cs =>
  match opaqueAt before c cs with
  | some o => (o.more, .region o.kind o.terminated (c :: cs.take o.more))
  | none => (0, .char c)

/-- The regions of a text, and the characters outside them. -/
def pieces (sql : List Char) : List Piece := scan readPiece 0 none sql

/-! ## How regions end -/

lemma further_eq_closed {n k : ℕ} {extent : ℕ × Bool} :
    further k extent = (n, true) ↔ ∃ m, extent = (m, true) ∧ n = m + k := by
  obtain ⟨m, closed⟩ := extent
  simp only [further, Prod.mk.injEq]
  constructor
  · rintro ⟨rfl, rfl⟩
    exact ⟨m, ⟨rfl, rfl⟩, rfl⟩
  · rintro ⟨m', ⟨rfl, rfl⟩, rfl⟩
    exact ⟨rfl, rfl⟩

/-- A closed quoted text ends with its quote, and no second one follows it. -/
lemma toQuoteEnd_closed {quote : Char} {escaped : Bool} :
    ∀ {skip : Bool} {cs : List Char} {n : ℕ}, toQuoteEnd quote escaped skip cs = (n, true) →
      ∀ before, lastOr before (cs.take n) = some quote ∧ (cs.drop n).head? ≠ some quote ∧ 0 < n := by
  intro skip cs
  induction cs generalizing skip with
  | nil =>
      intro n h
      cases skip <;> exact absurd h (by simp [toQuoteEnd])
  | cons c cs ih =>
      have hnext : ∀ {skip : Bool} {n : ℕ}, further 1 (toQuoteEnd quote escaped skip cs) = (n, true) →
          ∀ before, lastOr before ((c :: cs).take n) = some quote ∧
            ((c :: cs).drop n).head? ≠ some quote ∧ 0 < n := by
        intro skip n h before
        obtain ⟨m, hm, rfl⟩ := further_eq_closed.mp h
        obtain ⟨hlast, hhead, _⟩ := ih hm (some c)
        exact ⟨hlast, hhead, Nat.succ_pos m⟩
      intro n h
      cases skip with
      | true => exact hnext h
      | false =>
          unfold toQuoteEnd at h
          split at h
          · exact hnext h
          · split at h
            · next hquote =>
                split at h
                · exact hnext h
                · next hsecond =>
                    obtain rfl := (Prod.mk.inj h).1
                    subst hquote
                    exact fun before => ⟨rfl, hsecond, Nat.succ_pos 0⟩
            · exact hnext h

/-- A closed comment ends with a slash. -/
lemma toCommentEnd_closed {depth : ℕ} {cs : List Char} {n : ℕ}
    (h : toCommentEnd depth cs = (n, true)) (before : Option Char) :
    lastOr before (cs.take n) = some '/' := by
  induction depth, cs using toCommentEnd.induct generalizing n before with
  | case1 depth => exact absurd h (by simp [toCommentEnd])
  | case2 depth c => exact absurd h (by simp [toCommentEnd])
  | case3 depth c d cs hopen ih =>
      rw [toCommentEnd, if_pos hopen] at h
      obtain ⟨m, hm, rfl⟩ := further_eq_closed.mp h
      exact ih hm (some d)
  | case4 c d cs hopen hclose =>
      rw [toCommentEnd, if_neg hopen, if_pos hclose, if_pos rfl] at h
      obtain rfl := (Prod.mk.inj h).1
      rw [hclose.2]
      rfl
  | case5 depth c d cs hopen hclose hdepth ih =>
      rw [toCommentEnd, if_neg hopen, if_pos hclose, if_neg hdepth] at h
      obtain ⟨m, hm, rfl⟩ := further_eq_closed.mp h
      exact ih hm (some d)
  | case6 depth c d cs hopen hclose ih =>
      rw [toCommentEnd, if_neg hopen, if_neg hclose] at h
      obtain ⟨m, hm, rfl⟩ := further_eq_closed.mp h
      exact ih hm (some c)

/-- What a line comment is followed by stands on the next line. -/
lemma toLineEnd_last {cs : List Char} (h : cs.drop (toLineEnd cs) ≠ []) (before : Option Char) :
    lastOr before (cs.take (toLineEnd cs)) = some '\n' ∨
      lastOr before (cs.take (toLineEnd cs)) = some '\r' := by
  induction cs generalizing before with
  | nil => exact absurd rfl h
  | cons c cs ih =>
      unfold toLineEnd at h ⊢
      split at h
      · next hc =>
          rw [if_pos hc]
          rcases hc with rfl | rfl
          · exact Or.inl rfl
          · exact Or.inr rfl
      · next hc =>
          rw [if_neg hc]
          exact ih h (some c)

/-! ## Where regions are -/

/-- **What a region is.** -/
lemma opaqueAt_eq_some {before : Option Char} {c : Char} {cs : List Char} {o : Opaque}
    (h : opaqueAt before c cs = some o) :
    (c = '-' ∧ ∃ rest, cs = '-' :: rest ∧ o = ⟨.comment, toLineEnd rest + 1, true⟩) ∨
    (c = '/' ∧ ∃ rest, cs = '*' :: rest ∧
      o = ⟨.comment, (toCommentEnd 1 rest).1 + 1, (toCommentEnd 1 rest).2⟩) ∨
    ((c = 'e' ∨ c = 'E') ∧ afterIdent before = false ∧ ∃ rest, cs = '\'' :: rest ∧
      o = ⟨.string, (toQuoteEnd '\'' true false rest).1 + 1,
        (toQuoteEnd '\'' true false rest).2⟩) ∨
    ((c = '\'' ∨ c = '"') ∧ o = ⟨if c = '"' then .identifier else .string,
      (toQuoteEnd c false false cs).1, (toQuoteEnd c false false cs).2⟩) ∨
    (c = '$' ∧ o.kind = .dollarString) := by
  unfold opaqueAt at h
  simp only at h
  split at h
  · next hline =>
      obtain ⟨rfl, hhead⟩ := hline
      obtain ⟨rest, rfl⟩ := List.head?_eq_some_iff.mp hhead
      exact Or.inl ⟨rfl, rest, rfl, (Option.some.inj h).symm⟩
  · split at h
    · next hblock =>
        obtain ⟨rfl, hhead⟩ := hblock
        obtain ⟨rest, rfl⟩ := List.head?_eq_some_iff.mp hhead
        exact Or.inr (Or.inl ⟨rfl, rest, rfl, (Option.some.inj h).symm⟩)
    · split at h
      · next hescaped =>
          simp only [decide_eq_true_eq] at hescaped
          obtain ⟨hc, hhead, hbefore⟩ := hescaped
          obtain ⟨rest, rfl⟩ := List.head?_eq_some_iff.mp hhead
          exact Or.inr (Or.inr (Or.inl ⟨hc, by simpa using hbefore, rest, rfl,
            (Option.some.inj h).symm⟩))
      · split at h
        · next hquote =>
            exact Or.inr (Or.inr (Or.inr (Or.inl ⟨hquote, (Option.some.inj h).symm⟩)))
        · split at h
          · next hdollar =>
              split at h
              · exact Or.inr (Or.inr (Or.inr (Or.inr ⟨hdollar.1, by rw [← Option.some.inj h]⟩)))
              · exact absurd h (by simp)
          · exact absurd h (by simp)

/-- **Where there is no region**, for a character that is no dollar sign. -/
lemma opaqueAt_eq_none {before : Option Char} {c : Char} {cs : List Char} (hc : c ≠ '$') :
    opaqueAt before c cs = none ↔
      (c = '-' → cs.head? ≠ some '-') ∧ (c = '/' → cs.head? ≠ some '*') ∧
      (c = 'e' ∨ c = 'E' → cs.head? = some '\'' → afterIdent before = true) ∧
      c ≠ '\'' ∧ c ≠ '"' := by
  unfold opaqueAt
  simp only
  constructor
  · intro h
    refine ⟨fun hdash hhead => ?_, fun hslash hhead => ?_, fun he hhead => ?_, fun hq => ?_,
      fun hq => ?_⟩
    · rw [if_pos ⟨hdash, hhead⟩] at h
      exact absurd h (by simp)
    · subst hslash
      simp [hhead] at h
    · by_contra hbefore
      rcases he with rfl | rfl <;> simp [hhead, hbefore] at h
    · subst hq
      simp at h
    · subst hq
      simp at h
  · rintro ⟨hdash, hslash, he, hsingle, hdouble⟩
    rw [if_neg fun h => hdash h.1 h.2, if_neg fun h => hslash h.1 h.2, if_neg, if_neg, if_neg]
    · exact fun h => hc h.1
    · rintro (h | h)
      · exact hsingle h
      · exact hdouble h
    · simp only [decide_eq_true_eq]
      rintro ⟨hletter, hhead, hbefore⟩
      exact hbefore (he hletter hhead)

end OdooKernel
