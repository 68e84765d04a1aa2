import OdooKernel.Cursor.Keywords
import OdooKernel.Sql.Tokens

/-!
# The words of a statement

What the scanners for keywords find in a text, by its tokens: the grammar of `Cursor/Returning` is
about tokens, and the source reads characters.  A scanner that goes over the text of tokens that do
not run into each other stops where each of them ends, so that what it finds is said token by token.

**Depth.**  The scanner for the words at the statement's level counts parentheses; on terms, where
the parentheses are balanced, that is the nesting (`wordsAtLevel_terms`), and the level is that of
the first word, however many parentheses stand before it (`Opens`).

* `SqlTerm`, `termsTokens` — tokens by their parentheses.
* `wordsAt` — the words so many parentheses deep; `wordsAtLevel_terms`.
* `wordsBehind` — the words that do not stand directly behind a text between dollar signs.
* `Opens` — a statement, behind parentheses, white space and comments.
* **`statementLevelKeywords_eq`**, **`hasBareKeyword_eq`**, **`leadingKeyword_eq`** — what the
  scanners find.
-/

namespace OdooKernel

/-! ## Words and parentheses -/

/-- What a token is for who looks for keywords. -/
def SqlToken.toWord : SqlToken → Word
  | .atom (.word w) => .word (asciiUpper w)
  | .opening => .opening
  | .closing => .closing
  | .atom _ => .other

lemma readWord_token {t : SqlToken} {before : Option Char} {c : Char} {piece rest : List Char}
    (h : t.StandsIn before rest) (htext : t.text = c :: piece) :
    readWord before c (piece ++ rest) = (piece.length, t.toWord) := by
  have hregion := opaqueAt_token h htext
  unfold readWord
  rw [hregion]
  cases t with
  | opening => obtain ⟨rfl, rfl⟩ := List.cons.inj htext; rfl
  | closing => obtain ⟨rfl, rfl⟩ := List.cons.inj htext; rfl
  | atom a =>
      cases a with
      | word w =>
          obtain rfl : w = c :: piece := htext
          obtain ⟨-, hident, -, hrest, -⟩ := h
          rw [List.forall_mem_cons] at hident
          have hne : c ≠ '(' ∧ c ≠ ')' := by
            refine ⟨?_, ?_⟩ <;>
              · rintro rfl
                exact absurd hident.1 (by decide)
          have hwhile : (piece ++ rest).takeWhile isIdentChar = piece :=
            (span_append hident.2 (by
              intro d hd
              rwa [Option.mem_def.mp hd] at hrest)).1
          simp [SqlToken.kind, Atom.kind, hne, hident.1, hwhile, SqlToken.toWord]
      | symbol d =>
          obtain ⟨rfl, rfl⟩ := List.cons.inj htext
          obtain ⟨hident, hquotes, -⟩ := h
          simp only [List.mem_cons, List.not_mem_nil, or_false, not_or] at hquotes
          simp [SqlToken.kind, Atom.kind, hident, hquotes, SqlToken.toWord]
      | _ => rfl

/-- **The scanner for words finds the tokens.** -/
lemma scan_readWord {ts : List SqlToken} {before : Option Char} (h : Spaced before ts) :
    scan readWord 0 before (tokensText ts) = ts.map SqlToken.toWord := by
  induction ts generalizing before with
  | nil => rfl
  | cons t ts ih =>
      obtain ⟨c, piece, htext⟩ := t.exists_text h.1
      have hread := readWord_token h.1 htext
      rw [tokensText_cons, htext, scan_piece hread, List.map_cons]
      congr 1
      have hnext := ih h.2
      rwa [htext] at hnext

/-! ## Parentheses -/

/-- Tokens by their parentheses. -/
inductive SqlTerm where
  | atom (a : Atom)
  | group (ts : List SqlTerm)

mutual

def SqlTerm.tokens : SqlTerm → List SqlToken
  | .atom a => [.atom a]
  | .group ts => .opening :: (termsTokens ts ++ [.closing])

def termsTokens : List SqlTerm → List SqlToken
  | [] => []
  | t :: ts => t.tokens ++ termsTokens ts

end

mutual

/-- The words so many parentheses deep in a term. -/
def SqlTerm.wordsAt : ℕ → SqlTerm → List (List Char)
  | 0, .atom (.word w) => [asciiUpper w]
  | n + 1, .group ts => OdooKernel.wordsAt n ts
  | _, _ => []

/-- The words so many parentheses deep. -/
def wordsAt : ℕ → List SqlTerm → List (List Char)
  | _, [] => []
  | n, t :: ts => t.wordsAt n ++ wordsAt n ts

end

@[simp] lemma wordsAt_nil (n : ℕ) : wordsAt n [] = [] := by simp [wordsAt]

@[simp] lemma wordsAt_append (n : ℕ) (ts us : List SqlTerm) :
    wordsAt n (ts ++ us) = wordsAt n ts ++ wordsAt n us := by
  induction ts with
  | nil => simp
  | cons t ts ih => simp [wordsAt, ih]

@[simp] lemma termsTokens_append (ts us : List SqlTerm) :
    termsTokens (ts ++ us) = termsTokens ts ++ termsTokens us := by
  induction ts with
  | nil => simp [termsTokens]
  | cons t ts ih => simp [termsTokens, ih]

mutual

/-- From a depth that is not above the statement's, the words of a term at the statement's. -/
lemma wordsAtLevel_term (depth level : ℕ) : ∀ (t : SqlTerm) (ws : List Word),
    wordsAtLevel depth (some level) (t.tokens.map SqlToken.toWord ++ ws)
      = (if depth ≤ level then t.wordsAt (level - depth) else [])
        ++ wordsAtLevel depth (some level) ws
  | .atom a, ws => by
      cases a with
      | word w =>
          show wordsAtLevel depth (some level) (.word (asciiUpper w) :: ws) = _
          rw [wordsAtLevel, Option.getD_some]
          by_cases hlevel : depth = level
          · rw [if_pos hlevel, if_pos (by omega), show level - depth = 0 by omega]
            simp [SqlTerm.wordsAt]
          · rw [if_neg hlevel]
            by_cases hle : depth ≤ level
            · obtain ⟨n, hn⟩ := Nat.exists_eq_add_of_lt (Nat.lt_of_le_of_ne hle hlevel)
              rw [if_pos hle, show level - depth = n + 1 by omega]
              simp [SqlTerm.wordsAt]
            · rw [if_neg hle, List.nil_append]
      | _ =>
          show wordsAtLevel depth (some level) (.other :: ws) = _
          rw [wordsAtLevel]
          cases level - depth <;> simp [SqlTerm.wordsAt]
  | .group ts, ws => by
      rw [SqlTerm.tokens, List.map_cons, List.map_append, List.cons_append, List.append_assoc]
      show wordsAtLevel depth (some level)
        (.opening :: ((termsTokens ts).map SqlToken.toWord ++ .closing :: ws)) = _
      rw [wordsAtLevel, wordsAtLevel_terms (depth + 1) level ts, wordsAtLevel, Nat.add_sub_cancel]
      by_cases hle : depth + 1 ≤ level
      · rw [if_pos hle, if_pos (by omega), show level - depth = level - (depth + 1) + 1 by omega]
        simp [SqlTerm.wordsAt]
      · rw [if_neg hle]
        by_cases hlevel : depth ≤ level
        · rw [if_pos hlevel, show level - depth = 0 by omega]
          simp [SqlTerm.wordsAt]
        · rw [if_neg hlevel]

lemma wordsAtLevel_terms (depth level : ℕ) : ∀ (ts : List SqlTerm) (ws : List Word),
    wordsAtLevel depth (some level) ((termsTokens ts).map SqlToken.toWord ++ ws)
      = (if depth ≤ level then wordsAt (level - depth) ts else [])
        ++ wordsAtLevel depth (some level) ws
  | [], ws => by simp [termsTokens]
  | t :: ts, ws => by
      rw [termsTokens, List.map_append, List.append_assoc, wordsAtLevel_term depth level t,
        wordsAtLevel_terms depth level ts]
      split_ifs <;> simp [wordsAt]

end

/-! ## Where a statement starts -/

/-- White space and comments. -/
def Atom.isTrivia : Atom → Bool
  | .symbol c => isAsciiWhitespace c
  | .lineComment _ _ | .comment _ => true
  | _ => false

/-- Terms that start, within so many parentheses, with a keyword, and what stands behind it there. -/
inductive Opens : ℕ → List SqlTerm → List Char → List SqlTerm → Prop where
  | here {lead : List Atom} (hlead : ∀ a ∈ lead, a.isTrivia = true) (keyword : List Char)
      (rest : List SqlTerm) :
      Opens 0 (lead.map .atom ++ .atom (.word keyword) :: rest) keyword rest
  | inside {lead : List Atom} (hlead : ∀ a ∈ lead, a.isTrivia = true) {n : ℕ} {ts rest : List SqlTerm}
      {keyword : List Char} (h : Opens n ts keyword rest) (after : List SqlTerm) :
      Opens (n + 1) (lead.map .atom ++ .group ts :: after) keyword rest

lemma wordsAt_trivia {lead : List Atom} (hlead : ∀ a ∈ lead, a.isTrivia = true) (n : ℕ) :
    wordsAt n (lead.map .atom) = [] := by
  induction lead with
  | nil => simp
  | cons a lead ih =>
      rw [List.forall_mem_cons] at hlead
      rw [List.map_cons, wordsAt, ih hlead.2, List.append_nil]
      cases n <;> cases a <;> simp_all [SqlTerm.wordsAt, Atom.isTrivia]

lemma wordsAtLevel_trivia {lead : List Atom} (hlead : ∀ a ∈ lead, a.isTrivia = true) (depth : ℕ)
    (level : Option ℕ) (ws : List Word) :
    wordsAtLevel depth level ((termsTokens (lead.map .atom)).map SqlToken.toWord ++ ws)
      = wordsAtLevel depth level ws := by
  induction lead with
  | nil => simp [termsTokens]
  | cons a lead ih =>
      rw [List.forall_mem_cons] at hlead
      rw [List.map_cons, termsTokens, SqlTerm.tokens, List.singleton_append, List.map_cons,
        List.cons_append]
      cases a with
      | word w => simp [Atom.isTrivia] at hlead
      | _ => exact ih hlead.2

namespace Opens

variable {n : ℕ} {terms rest : List SqlTerm} {keyword : List Char}

/-- The words at a statement's level are its keyword, its own, and those of what follows it. -/
lemma exists_wordsAt (h : Opens n terms keyword rest) :
    ∃ later, wordsAt n terms = asciiUpper keyword :: (wordsAt 0 rest ++ later) ∧
      (n = 0 → later = []) := by
  induction h with
  | here hlead keyword rest =>
      exact ⟨[], by simp [wordsAt, wordsAt_trivia hlead, SqlTerm.wordsAt], fun _ => rfl⟩
  | @inside _ hlead n ts _ _ _ after ih =>
      obtain ⟨later, hwords, -⟩ := ih
      refine ⟨later ++ wordsAt (n + 1) after, ?_, by simp⟩
      simp [wordsAt, wordsAt_trivia hlead, SqlTerm.wordsAt, hwords]

/-- The level is that of the first word. -/
lemma wordsAtLevel_eq (h : Opens n terms keyword rest) : ∀ (depth : ℕ) (ws : List Word),
    wordsAtLevel depth none ((termsTokens terms).map SqlToken.toWord ++ ws)
      = wordsAt n terms ++ wordsAtLevel depth (some (depth + n)) ws := by
  induction h with
  | here hlead keyword rest =>
      intro depth ws
      have hrest := wordsAtLevel_terms depth depth rest ws
      rw [if_pos (Nat.le_refl _), Nat.sub_self] at hrest
      rw [termsTokens_append, List.map_append, List.append_assoc, wordsAtLevel_trivia hlead,
        wordsAt_append, wordsAt_trivia hlead, List.nil_append]
      show wordsAtLevel depth none (.word (asciiUpper keyword) ::
        ((termsTokens rest).map SqlToken.toWord ++ ws)) = _
      rw [wordsAtLevel, Option.getD_none, if_pos rfl, hrest]
      simp [wordsAt, SqlTerm.wordsAt]
  | @inside _ hlead n ts _ _ _ after ih =>
      intro depth ws
      have hafter := wordsAtLevel_terms depth (depth + (n + 1)) after ws
      rw [if_pos (by omega), Nat.add_sub_cancel_left] at hafter
      rw [termsTokens_append, List.map_append, List.append_assoc, wordsAtLevel_trivia hlead,
        wordsAt_append, wordsAt_trivia hlead, List.nil_append]
      have hgroup : (termsTokens (.group ts :: after)).map SqlToken.toWord ++ ws
          = .opening :: ((termsTokens ts).map SqlToken.toWord
            ++ .closing :: ((termsTokens after).map SqlToken.toWord ++ ws)) := by
        simp [termsTokens, SqlTerm.tokens, SqlToken.toWord]
      rw [hgroup, wordsAtLevel, ih, wordsAtLevel, Nat.add_sub_cancel,
        show depth + 1 + n = depth + (n + 1) by omega, hafter]
      simp [wordsAt, SqlTerm.wordsAt]

/-- **The words at the statement's level are what the first scanner finds.** -/
lemma statementLevelKeywords_eq (h : Opens n terms keyword rest)
    (hspaced : Spaced none (termsTokens terms)) :
    statementLevelKeywords (tokensText (termsTokens terms)) = wordsAt n terms := by
  have hwords := h.wordsAtLevel_eq 0 []
  rw [List.append_nil] at hwords
  rw [statementLevelKeywords, scan_readWord hspaced, hwords]
  simp [wordsAtLevel]

end Opens

/-! ## The keyword in front -/

lemma behindOpening_skip (xs rest : List Char) (before : Option Char) :
    behindOpening xs.length before (xs ++ rest) = behindOpening 0 (lastOr before xs) rest := by
  rw [behindOpening_drop, List.take_left, List.drop_left]

/-- What may stand in front of a statement. -/
def SqlToken.isFront : SqlToken → Bool
  | .atom a => a.isTrivia
  | .opening => true
  | .closing => false

lemma behindOpening_front {t : SqlToken} (hfront : t.isFront = true) {before : Option Char}
    {rest : List Char} (h : t.StandsIn before rest) :
    behindOpening 0 before (t.text ++ rest) = behindOpening 0 (lastOr before t.text) rest := by
  obtain ⟨c, piece, htext⟩ := t.exists_text h
  have hregion := opaqueAt_token h htext
  cases t with
  | closing => cases hfront
  | opening => rfl
  | atom a =>
      rw [htext, List.cons_append, behindOpening, hregion]
      cases a with
      | symbol d =>
          obtain ⟨rfl, rfl⟩ := List.cons.inj htext
          have hspace : isAsciiWhitespace d = true := hfront
          simp [hspace, lastOr]
      | lineComment body eol =>
          obtain ⟨rfl, rfl⟩ := List.cons.inj htext
          rw [if_neg (by decide)]
          exact behindOpening_skip _ _ _
      | comment tail =>
          obtain ⟨rfl, rfl⟩ := List.cons.inj htext
          rw [if_neg (by decide)]
          exact behindOpening_skip _ _ _
      | _ => cases hfront

lemma not_front_of_isIdentChar {c : Char} (h : isIdentChar c = true) :
    isAsciiWhitespace c = false ∧ c ≠ '(' := by
  constructor
  · by_contra hspace
    simp only [Bool.not_eq_false, isAsciiWhitespace, Bool.or_eq_true, decide_eq_true_eq] at hspace
    rcases hspace with (((rfl | rfl) | rfl) | rfl) | rfl <;> exact absurd h (by decide)
  · rintro rfl
    exact absurd h (by decide)

lemma leadingKeyword_of_front {front more : List SqlToken} {keyword : List Char}
    (hfront : ∀ t ∈ front, t.isFront = true) {before : Option Char}
    (h : Spaced before (front ++ .atom (.word keyword) :: more)) :
    (behindOpening 0 before (tokensText (front ++ .atom (.word keyword) :: more))).takeWhile isIdentChar
      = keyword := by
  induction front generalizing before with
  | nil =>
      rw [List.nil_append] at h ⊢
      have hword := h.1
      obtain ⟨hne, hident, -, hrest, -⟩ := h.1
      obtain ⟨c, w, rfl⟩ := List.exists_cons_of_ne_nil hne
      obtain ⟨hspace, hparen⟩ := not_front_of_isIdentChar (hident c List.mem_cons_self)
      have hhead : ∀ d ∈ (tokensText more).head?, isIdentChar d = false := by
        intro d hd
        rwa [Option.mem_def.mp hd] at hrest
      have hwhile := (span_append hident hhead).1
      have htext : behindOpening 0 before (c :: w ++ tokensText more) = c :: w ++ tokensText more := by
        rw [List.cons_append, behindOpening, opaqueAt_word hword, if_neg (by simp [hspace, hparen])]
      rw [tokensText_cons]
      show (behindOpening 0 before (c :: w ++ tokensText more)).takeWhile isIdentChar = c :: w
      rw [htext, hwhile]
  | cons t front ih =>
      rw [List.forall_mem_cons] at hfront
      rw [List.cons_append] at h ⊢
      rw [tokensText_cons, behindOpening_front hfront.1 h.1]
      exact ih hfront.2 h.2

namespace Opens

variable {n : ℕ} {terms rest : List SqlTerm} {keyword : List Char}

lemma exists_front (h : Opens n terms keyword rest) :
    ∃ front more, termsTokens terms = front ++ .atom (.word keyword) :: more ∧
      ∀ t ∈ front, t.isFront = true := by
  have hlead : ∀ {lead : List Atom}, (∀ a ∈ lead, a.isTrivia = true) →
      ∀ t ∈ termsTokens (lead.map .atom), t.isFront = true := by
    intro lead
    induction lead with
    | nil => simp [termsTokens]
    | cons a lead ih =>
        intro hlead
        rw [List.forall_mem_cons] at hlead
        rw [List.map_cons, termsTokens, SqlTerm.tokens, List.singleton_append, List.forall_mem_cons]
        exact ⟨hlead.1, ih hlead.2⟩
  induction h with
  | here htrivia keyword rest =>
      exact ⟨_, termsTokens rest, termsTokens_append _ _, hlead htrivia⟩
  | @inside lead htrivia _ ts _ _ _ after ih =>
      obtain ⟨front, more, htokens, hfront⟩ := ih
      refine ⟨termsTokens (lead.map .atom) ++ .opening :: front,
        more ++ .closing :: termsTokens after, ?_, ?_⟩
      · simp [termsTokens, SqlTerm.tokens, htokens]
      · rw [List.forall_mem_append, List.forall_mem_cons]
        exact ⟨hlead htrivia, rfl, hfront⟩

/-- **The keyword in front is the statement's.** -/
lemma leadingKeyword_eq (h : Opens n terms keyword rest)
    (hspaced : Spaced none (termsTokens terms)) :
    leadingKeyword (tokensText (termsTokens terms)) = asciiUpper keyword := by
  obtain ⟨front, more, htokens, hfront⟩ := h.exists_front
  rw [htokens] at hspaced
  rw [leadingKeyword, htokens, leadingKeyword_of_front hfront hspaced]

end Opens

/-! ## Keywords at any depth -/

/-- A text between dollar signs. -/
def SqlToken.isDollar : SqlToken → Bool
  | .atom (.dollar _ _) => true
  | _ => false

/-- The words that do not stand directly behind a text between dollar signs. -/
def wordsBehind : (behindDollar : Bool) → List SqlToken → List (List Char)
  | _, [] => []
  | behindDollar, .atom (.word w) :: ts =>
    if behindDollar then wordsBehind false ts else asciiUpper w :: wordsBehind false ts
  | _, t :: ts => wordsBehind t.isDollar ts

/-- The words that the second scanner can see. -/
def seenWords (ts : List SqlToken) : List (List Char) := wordsBehind false ts

lemma isIdentChar_toUpper (c : Char) : isIdentChar c.toUpper = isIdentChar c := by
  rw [Bool.eq_iff_iff, isIdentChar_iff, isIdentChar_iff, toNat_toUpper]
  split_ifs <;> omega

section Keyword

variable {keyword : List Char} {before : Option Char}

/-- Within a word no keyword starts. -/
lemma any_readKeyword_inWord {w : List Char} (hident : ∀ c ∈ w, isIdentChar c = true)
    (hbefore : afterIdent before = true) (rest : List Char) :
    (scan (readKeyword keyword) 0 before (w ++ rest)).any id
      = (scan (readKeyword keyword) 0 (lastOr before w) rest).any id := by
  induction w generalizing before with
  | nil => rfl
  | cons c w ih =>
      rw [List.forall_mem_cons] at hident
      have hread : readKeyword keyword before c (w ++ rest) = (0, false) := by
        rw [readKeyword, opaqueAt_inWord hident.1 hbefore]
        simp [hbefore]
      rw [List.cons_append, scan, hread, List.any_cons, id, Bool.false_or]
      exact ih hident.2 hident.1

/-- A word is a keyword, unless it stands directly behind another. -/
lemma any_readKeyword_word {c : Char} {w rest : List Char}
    (hkeyword : ∀ c ∈ keyword, isIdentChar c = true)
    (h : (Atom.word (c :: w)).StandsIn before rest) :
    (scan (readKeyword keyword) 0 before (c :: w ++ rest)).any id
      = (decide (asciiUpper (c :: w) = keyword ∧ afterIdent before = false)
        || (scan (readKeyword keyword) 0 (lastOr before (c :: w)) rest).any id) := by
  have hregion : opaqueAt before c (w ++ rest) = none := opaqueAt_word h
  obtain ⟨-, hident, -, hrest, -⟩ := h
  have hhead : ∀ d ∈ rest.head?, isIdentChar d = false := by
    intro d hd
    rwa [Option.mem_def.mp hd] at hrest
  have hread : readKeyword keyword before c (w ++ rest)
      = (0, decide (asciiUpper (c :: w) = keyword ∧ afterIdent before = false)) := by
    rw [readKeyword, hregion]
    simp only [Prod.mk.injEq, true_and, decide_eq_decide, ← List.cons_append]
    constructor
    · rintro ⟨htake, hbefore, hdrop⟩
      have hupper : ∀ d ∈ (c :: w ++ rest).take keyword.length, isIdentChar d = true := by
        intro d hd
        rw [← isIdentChar_toUpper]
        refine hkeyword _ ?_
        rw [← htake]
        exact List.mem_map_of_mem hd
      have hstop : ∀ d ∈ ((c :: w ++ rest).drop keyword.length).head?, isIdentChar d = false := by
        intro d hd
        rw [Option.mem_def.mp hd] at hdrop
        simpa using hdrop
      have hsame := (span_append hupper hstop).1
      rw [List.take_append_drop, (span_append hident hhead).1] at hsame
      rw [← hsame] at htake
      exact ⟨htake, by simpa using hbefore⟩
    · rintro ⟨rfl, hbefore⟩
      have hlen : (asciiUpper (c :: w)).length = (c :: w).length := List.length_map ..
      rw [hlen, List.take_left, List.drop_left]
      exact ⟨rfl, by simp [hbefore], by simp [hrest]⟩
  have hafter : afterIdent (some c) = true := hident c List.mem_cons_self
  rw [List.cons_append, scan, hread, List.any_cons, id]
  congr 1
  exact any_readKeyword_inWord (fun d hd => hident d (List.mem_cons_of_mem _ hd)) hafter rest

/-- No keyword starts where a region or a symbol does. -/
lemma any_readKeyword_other {t : SqlToken} {rest : List Char} {k : Char} {ks : List Char}
    (hk : isIdentChar k = true) (ht : ∀ w, t ≠ .atom (.word w)) (h : t.StandsIn before rest) :
    (scan (readKeyword (k :: ks)) 0 before (t.text ++ rest)).any id
      = (scan (readKeyword (k :: ks)) 0 (lastOr before t.text) rest).any id := by
  obtain ⟨c, piece, htext⟩ := t.exists_text h
  have hregion := opaqueAt_token h htext
  have hread : readKeyword (k :: ks) before c (piece ++ rest) = (piece.length, false) := by
    rw [readKeyword, hregion]
    have hsymbol : t.kind = none → isIdentChar c = false ∧ piece = [] := by
      intro hkind
      cases t with
      | opening => obtain ⟨rfl, rfl⟩ := List.cons.inj htext; exact ⟨rfl, rfl⟩
      | closing => obtain ⟨rfl, rfl⟩ := List.cons.inj htext; exact ⟨rfl, rfl⟩
      | atom a =>
          cases a with
          | word w => exact absurd rfl (ht w)
          | symbol d => obtain ⟨rfl, rfl⟩ := List.cons.inj htext; exact ⟨h.1, rfl⟩
          | _ => cases hkind
    cases hkind : t.kind with
    | some kind => rfl
    | none =>
        obtain ⟨hident, rfl⟩ := hsymbol hkind
        have hne : c.toUpper ≠ k := by
          rintro rfl
          rw [isIdentChar_toUpper, hident] at hk
          cases hk
        simp [asciiUpper, hne]
  rw [htext, scan_piece hread, List.any_cons, id, Bool.false_or]
  rfl

/-- Behind a token that is no word, an identifier ends where a text between dollar signs does. -/
lemma afterIdent_token {t : SqlToken} {rest : List Char} (h : t.StandsIn before rest)
    (ht : ∀ w, t ≠ .atom (.word w)) (hrest : rest ≠ []) :
    afterIdent (lastOr before t.text) = t.isDollar := by
  cases t with
  | opening => rfl
  | closing => rfl
  | atom a =>
      cases a with
      | word w => exact absurd rfl (ht w)
      | symbol c => exact h.1
      | quoted quote body =>
          have hquote : isIdentChar quote = false := by
            rcases h.1 with rfl | rfl <;> rfl
          show afterIdent (lastOr (some quote) (body ++ [quote])) = false
          rw [lastOr_append]
          exact hquote
      | escaped mark body =>
          show afterIdent (lastOr (some '\'') (body ++ ['\''])) = false
          rw [lastOr_append]
          rfl
      | dollar tag body =>
          show afterIdent (lastOr (some '$') (tag ++ '$' :: (body ++ '$' :: (tag ++ ['$'])))) = true
          simp [lastOr, afterIdent]
          rfl
      | lineComment body eol =>
          show afterIdent (lastOr (some '-') (body ++ eol.toList)) = false
          cases eol with
          | none => exact absurd (h.2.2 rfl) hrest
          | some e =>
              rw [lastOr_append]
              rcases h.2.1 e rfl with rfl | rfl <;> rfl
      | comment tail =>
          have hlast := toCommentEnd_closed (toCommentEnd_tail h []) (some '*')
          rw [List.append_nil, List.take_length] at hlast
          show afterIdent (lastOr (some '*') tail) = false
          rw [hlast]
          rfl

/-- **A keyword at any depth is what the second scanner finds**, unless it stands directly behind a
text between dollar signs. -/
lemma any_readKeyword_tokens {k : Char} {ks : List Char}
    (hkeyword : ∀ c ∈ k :: ks, isIdentChar c = true) {ts : List SqlToken} :
    ∀ {behindDollar : Bool}, Spaced before ts →
      (∀ w rest, ts = .atom (.word w) :: rest → afterIdent before = behindDollar) →
      (scan (readKeyword (k :: ks)) 0 before (tokensText ts)).any id
        = decide ((k :: ks) ∈ wordsBehind behindDollar ts) := by
  induction ts generalizing before with
  | nil =>
      intro behindDollar _ _
      rfl
  | cons t ts ih =>
      intro behindDollar h hbefore
      rw [tokensText_cons]
      by_cases hword : ∃ w, t = .atom (.word w)
      · obtain ⟨w, rfl⟩ := hword
        obtain ⟨c, w, rfl⟩ := List.exists_cons_of_ne_nil h.1.1
        have hrest : ∀ w' rest, ts = .atom (.word w') :: rest →
            afterIdent (lastOr before (c :: w)) = false := by
          rintro w' rest rfl
          obtain ⟨d, w', rfl⟩ := List.exists_cons_of_ne_nil h.2.1.1
          have hident := h.2.1.2.1 d List.mem_cons_self
          have hstop : isIdentChar d = false := h.1.2.2.2.1
          rw [hident] at hstop
          cases hstop
        show (scan (readKeyword (k :: ks)) 0 before (c :: w ++ tokensText ts)).any id = _
        have hnext : (scan (readKeyword (k :: ks)) 0 (lastOr before (c :: w)) (tokensText ts)).any id
            = decide ((k :: ks) ∈ wordsBehind false ts) := ih h.2 hrest
        rw [any_readKeyword_word hkeyword h.1, hnext, hbefore _ _ rfl, wordsBehind]
        cases behindDollar <;> simp [eq_comm]
      · have ht : ∀ w, t ≠ .atom (.word w) := by
          rintro w rfl
          exact hword ⟨w, rfl⟩
        have hrest : ∀ w' rest, ts = .atom (.word w') :: rest →
            afterIdent (lastOr before t.text) = t.isDollar := by
          rintro w' rest rfl
          refine afterIdent_token h.1 ht ?_
          obtain ⟨d, w', rfl⟩ := List.exists_cons_of_ne_nil h.2.1.1
          simp [SqlToken.text, Atom.text]
        rw [any_readKeyword_other (hkeyword k List.mem_cons_self) ht h.1, ih h.2 hrest]
        have hbehind : wordsBehind behindDollar (t :: ts) = wordsBehind t.isDollar ts := by
          rw [wordsBehind]
          exact fun w hw => ht w hw
        rw [hbehind]

end Keyword

lemma hasBareKeyword_eq {k : Char} {ks : List Char}
    (hkeyword : ∀ c ∈ k :: ks, isIdentChar c = true) {ts : List SqlToken} (h : Spaced none ts) :
    hasBareKeyword (tokensText ts) (k :: ks) = decide ((k :: ks) ∈ seenWords ts) :=
  any_readKeyword_tokens hkeyword h fun _ _ _ => rfl

end OdooKernel
