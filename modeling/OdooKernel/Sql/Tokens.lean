import OdooKernel.Sql.Lexing

/-!
# The tokens of SQL

How PostgreSQL writes its tokens, whoever reads them: the words, the texts and identifiers in quotes,
the texts between dollar signs, and the comments.  It is a grammar and not a lexer, which is what a
reader can be compared with.

**Where a token may stand.**  Two tokens may run into each other: a word into a number, a quote into
a prefix before it.  So a token is well written between a character and a text (`Atom.StandsIn`), and
tokens one behind the other are `Spaced` where each of them is.

* `QuotedBody`, `CommentTail` — what stands between quotes, and in a comment that may nest.
* `Atom`, `SqlToken` — a token, and one that may be a parenthesis.
* `opaqueAt_atom` — the region that starts with a token reaches to its end, and no word starts one.
-/

namespace OdooKernel

/-! ## Between quotes, and in comments -/

/-- What stands between two quotes: a quote is doubled, and behind a backslash stands anything where
backslashes escape. -/
inductive QuotedBody (quote : Char) (escapes : Bool) : List Char → Prop where
  | nil : QuotedBody quote escapes []
  | plain {c : Char} {cs : List Char} (hquote : c ≠ quote) (hbackslash : escapes = true → c ≠ '\\')
      (hcs : QuotedBody quote escapes cs) : QuotedBody quote escapes (c :: cs)
  | doubled {cs : List Char} (hcs : QuotedBody quote escapes cs) :
      QuotedBody quote escapes (quote :: quote :: cs)
  | escaped {c : Char} {cs : List Char} (hescapes : escapes = true)
      (hcs : QuotedBody quote escapes cs) : QuotedBody quote escapes ('\\' :: c :: cs)

/-- The text to the end of a comment that stands within so many others. -/
inductive CommentTail : ℕ → List Char → Prop where
  | last : CommentTail 0 ['*', '/']
  | close {n : ℕ} {cs : List Char} (hcs : CommentTail n cs) : CommentTail (n + 1) ('*' :: '/' :: cs)
  | opening {n : ℕ} {cs : List Char} (hcs : CommentTail (n + 1) cs) :
      CommentTail n ('/' :: '*' :: cs)
  | char {n : ℕ} {c d : Char} {cs : List Char} (hopen : ¬ (c = '/' ∧ d = '*'))
      (hclose : ¬ (c = '*' ∧ d = '/')) (hcs : CommentTail n (d :: cs)) : CommentTail n (c :: d :: cs)

lemma toQuoteEnd_body {quote : Char} {escapes : Bool} {body rest : List Char}
    (hbody : QuotedBody quote escapes body) (hquote : quote ≠ '\\')
    (hrest : rest.head? ≠ some quote) :
    toQuoteEnd quote escapes false (body ++ quote :: rest) = (body.length + 1, true) := by
  induction hbody with
  | nil => simp [toQuoteEnd, hquote, hrest]
  | plain hne hbackslash _ ih =>
      have hescape : ¬ (escapes = true ∧ _ = '\\') := fun h => hbackslash h.1 h.2
      rw [List.cons_append, toQuoteEnd, if_neg hescape, if_neg hne, ih]
      rfl
  | doubled _ ih =>
      rw [List.cons_append, List.cons_append, toQuoteEnd, if_neg (by simp [hquote]), if_pos rfl,
        List.head?_cons, if_pos rfl, toQuoteEnd, ih]
      rfl
  | escaped hescapes _ ih =>
      rw [List.cons_append, List.cons_append, toQuoteEnd, if_pos ⟨hescapes, rfl⟩, toQuoteEnd, ih]
      rfl

lemma toCommentEnd_tail {n : ℕ} {cs : List Char} (h : CommentTail n cs) (rest : List Char) :
    toCommentEnd (n + 1) (cs ++ rest) = (cs.length, true) := by
  induction h with
  | last => simp [toCommentEnd]
  | close _ ih =>
      rw [List.cons_append, List.cons_append, toCommentEnd, if_neg (by decide), if_pos ⟨rfl, rfl⟩,
        if_neg (by omega), Nat.add_sub_cancel, ih]
      rfl
  | opening _ ih =>
      rw [List.cons_append, List.cons_append, toCommentEnd, if_pos ⟨rfl, rfl⟩, ih]
      rfl
  | char hopen hclose _ ih =>
      rw [List.cons_append] at ih
      rw [List.cons_append, List.cons_append, toCommentEnd, if_neg hopen, if_neg hclose, ih]
      rfl

lemma toLineEnd_body {body : List Char} (hbody : ∀ c ∈ body, c ≠ '\n' ∧ c ≠ '\r') (rest : List Char) :
    toLineEnd (body ++ rest) = body.length + toLineEnd rest := by
  induction body with
  | nil => simp
  | cons c body ih =>
      rw [List.forall_mem_cons] at hbody
      rw [List.cons_append, toLineEnd, if_neg (by simp [hbody.1]), ih hbody.2, List.length_cons]
      omega

lemma toTagEnd_body {tag body : List Char}
    (hfirst : ∀ i < body.length, ¬ tag <+: (body ++ tag).drop i) (htag : tag ≠ [])
    (rest : List Char) :
    toTagEnd tag (body ++ (tag ++ rest)) = (body.length + tag.length, true) := by
  induction body with
  | nil =>
      cases tag with
      | nil => exact absurd rfl htag
      | cons c tag => simp [toTagEnd]
  | cons c body ih =>
      have hnot : ¬ tag <+: c :: (body ++ (tag ++ rest)) := by
        intro hprefix
        refine hfirst 0 (by simp) ?_
        rw [List.drop_zero, List.cons_append]
        refine List.prefix_of_prefix_length_le hprefix ?_ (by simp; omega)
        exact ⟨rest, by simp⟩
      rw [List.cons_append, toTagEnd, if_neg (by simpa using hnot), ih]
      · simp [further]
        omega
      · intro i hi
        simpa using hfirst (i + 1) (by simpa using hi)

/-! ## Tokens -/

/-- A token but for the parentheses.  A word is an identifier, a keyword, a number or a parameter. -/
inductive Atom where
  | word (w : List Char)
  | symbol (c : Char)
  | quoted (quote : Char) (body : List Char)
  | escaped (mark : Char) (body : List Char)
  | dollar (tag body : List Char)
  | lineComment (body : List Char) (eol : Option Char)
  | comment (tail : List Char)
deriving DecidableEq, Repr

/-- What a text between dollar signs starts and ends with. -/
def dollarTag (tag : List Char) : List Char := '$' :: (tag ++ ['$'])

namespace Atom

def text : Atom → List Char
  | word w => w
  | symbol c => [c]
  | quoted quote body => quote :: (body ++ [quote])
  | escaped mark body => mark :: '\'' :: (body ++ ['\''])
  | dollar tag body => '$' :: (tag ++ '$' :: (body ++ dollarTag tag))
  | lineComment body eol => '-' :: '-' :: (body ++ eol.toList)
  | comment tail => '/' :: '*' :: tail

/-- A token is well written, and may stand between a character and a text. -/
def StandsIn (before : Option Char) (rest : List Char) : Atom → Prop
  | word w => w ≠ [] ∧ (∀ c ∈ w, isIdentChar c = true) ∧
      -- a dollar sign in front is a parameter's
      (w.head? = some '$' → w.tail.head?.any Char.isDigit = true) ∧
      rest.head?.any isIdentChar = false ∧ (w = ['e'] ∨ w = ['E'] → rest.head? ≠ some '\'')
  | symbol c => isIdentChar c = false ∧ c ∉ ['\'', '"', '(', ')'] ∧
      (c = '-' → rest.head? ≠ some '-') ∧ (c = '/' → rest.head? ≠ some '*')
  | quoted quote body => (quote = '\'' ∨ quote = '"') ∧ QuotedBody quote false body ∧
      rest.head? ≠ some quote
  | escaped mark body => (mark = 'e' ∨ mark = 'E') ∧ QuotedBody '\'' true body ∧
      rest.head? ≠ some '\'' ∧ afterIdent before = false
  | dollar tag body => (∀ c ∈ tag, isTagChar c = true) ∧ tag.head?.any Char.isDigit = false ∧
      -- the text ends with the first such tag
      (∀ i < body.length, ¬ dollarTag tag <+: (body ++ dollarTag tag).drop i) ∧
      afterIdent before = false
  | lineComment body eol => (∀ c ∈ body, c ≠ '\n' ∧ c ≠ '\r') ∧
      (∀ c ∈ eol, c = '\n' ∨ c = '\r') ∧ (eol = none → rest = [])
  | comment tail => CommentTail 0 tail

/-- What region a token is. -/
def kind : Atom → Option Kind
  | word _ | symbol _ => none
  | quoted quote _ => some (if quote = '"' then .identifier else .string)
  | escaped _ _ => some .string
  | dollar _ _ => some .dollarString
  | lineComment _ _ | comment _ => some .comment

end Atom

lemma isIdentChar_ne {c : Char} (h : isIdentChar c = true) :
    c ≠ '-' ∧ c ≠ '/' ∧ c ≠ '\'' ∧ c ≠ '"' := by
  refine ⟨?_, ?_, ?_, ?_⟩ <;>
    · rintro rfl
      revert h
      decide

/-- No region starts within a word. -/
lemma opaqueAt_inWord {before : Option Char} {c : Char} {cs : List Char} (hc : isIdentChar c = true)
    (hbefore : afterIdent before = true) : opaqueAt before c cs = none := by
  obtain ⟨hdash, hslash, hsingle, hdouble⟩ := isIdentChar_ne hc
  unfold opaqueAt
  simp [hdash, hslash, hsingle, hdouble, hbefore]

/-- A word is no region. -/
lemma opaqueAt_word {before : Option Char} {c : Char} {w rest : List Char}
    (h : (Atom.word (c :: w)).StandsIn before rest) : opaqueAt before c (w ++ rest) = none := by
  obtain ⟨-, hident, hdollar, -, he⟩ := h
  rw [List.forall_mem_cons] at hident
  obtain ⟨hdash, hslash, hsingle, hdouble⟩ := isIdentChar_ne hident.1
  have hescape : ¬ ((c = 'e' ∨ c = 'E') ∧ (w ++ rest).head? = some '\'') := by
    rintro ⟨hc, hhead⟩
    cases w with
    | nil => exact he (by simpa using hc) hhead
    | cons d w =>
        rw [List.cons_append, List.head?_cons, Option.some.injEq] at hhead
        exact (isIdentChar_ne (hident.2 d List.mem_cons_self)).2.2.1 hhead
  have hdigit : c = '$' → (w ++ rest).head?.any Char.isDigit = true := by
    rintro rfl
    cases w with
    | nil => exact absurd (hdollar rfl) (by simp)
    | cons d w => exact hdollar rfl
  unfold opaqueAt
  rw [if_neg fun h => hdash h.1, if_neg fun h => hslash h.1, if_neg, if_neg, if_neg]
  · rintro ⟨hc, -, hany⟩
    exact hany (hdigit hc)
  · rintro (h | h)
    · exact hsingle h
    · exact hdouble h
  · simp only [decide_eq_true_eq]
    rintro ⟨hc, hhead, -⟩
    exact hescape ⟨hc, hhead⟩

/-- **The region that a token is** reaches to its end. -/
lemma opaqueAt_atom {a : Atom} {before : Option Char} {c : Char} {piece rest : List Char}
    (ha : a.StandsIn before rest) (htext : a.text = c :: piece) :
    opaqueAt before c (piece ++ rest)
      = a.kind.map fun kind => ⟨kind, piece.length, true⟩ := by
  cases a with
  | word w =>
      obtain rfl : w = c :: piece := htext
      exact opaqueAt_word ha
  | symbol d =>
      obtain ⟨rfl, rfl⟩ := List.cons.inj htext
      obtain ⟨hident, hquotes, hdash, hslash⟩ := ha
      simp only [List.mem_cons, List.not_mem_nil, or_false, not_or] at hquotes
      have hne : ∀ {c : Char}, isIdentChar c = true → d ≠ c := by
        rintro c hc rfl
        rw [hident] at hc
        cases hc
      refine (opaqueAt_eq_none (hne (by decide))).mpr ⟨hdash, hslash, ?_, hquotes.1, hquotes.2.1⟩
      rintro (hc | hc) -
      · exact absurd hc (hne (by decide))
      · exact absurd hc (hne (by decide))
  | quoted quote body =>
      obtain ⟨rfl, rfl⟩ := List.cons.inj htext
      obtain ⟨hquote, hbody, hrest⟩ := ha
      have hend := toQuoteEnd_body hbody (by rcases hquote with rfl | rfl <;> decide) hrest
      unfold opaqueAt
      rcases hquote with rfl | rfl <;> simp [hend, Atom.kind]
  | escaped mark body =>
      obtain ⟨rfl, rfl⟩ := List.cons.inj htext
      obtain ⟨hmark, hbody, hrest, hbefore⟩ := ha
      have hend := toQuoteEnd_body hbody (by decide) hrest
      unfold opaqueAt
      rcases hmark with rfl | rfl <;> simp [hend, hbefore, Atom.kind, further]
  | dollar tag body =>
      obtain ⟨rfl, rfl⟩ := List.cons.inj htext
      obtain ⟨htag, hdigit, hfirst, hbefore⟩ := ha
      have htext : tag ++ '$' :: (body ++ dollarTag tag) ++ rest
          = tag ++ '$' :: (body ++ (dollarTag tag ++ rest)) := by simp
      have hwhile : (tag ++ '$' :: (body ++ (dollarTag tag ++ rest))).takeWhile isTagChar = tag :=
        (span_append htag (by simp [isTagChar])).1
      have hhead : (tag ++ '$' :: (body ++ (dollarTag tag ++ rest))).head?.any Char.isDigit
          = false := by
        cases tag with
        | nil => rfl
        | cons c tag => exact hdigit
      have hend := toTagEnd_body hfirst (by simp [dollarTag]) rest
      rw [htext]
      unfold opaqueAt
      simp only [hwhile, hhead, hbefore, List.drop_left]
      simp only [dollarTag, List.cons_append, List.append_assoc, List.nil_append] at hend
      simp [Atom.kind, further, dollarTag, hend]
      omega
  | lineComment body eol =>
      obtain ⟨rfl, rfl⟩ := List.cons.inj htext
      obtain ⟨hbody, heol, hnone⟩ := ha
      unfold opaqueAt
      cases eol with
      | none =>
          have hend := toLineEnd_body hbody []
          simp only [List.append_nil] at hend
          simp [hnone rfl, Atom.kind, hend, toLineEnd]
      | some e => simp [Atom.kind, toLineEnd_body hbody, toLineEnd, heol]
  | comment tail =>
      obtain ⟨rfl, rfl⟩ := List.cons.inj htext
      unfold opaqueAt
      simp [toCommentEnd_tail ha, Atom.kind, further]

/-! ## Texts -/

/-- A token, or a parenthesis. -/
inductive SqlToken where
  | atom (a : Atom)
  | opening
  | closing
deriving DecidableEq, Repr

def SqlToken.text : SqlToken → List Char
  | .atom a => a.text
  | .opening => ['(']
  | .closing => [')']

/-- The text of some tokens. -/
def tokensText (ts : List SqlToken) : List Char := ts.flatMap SqlToken.text

@[simp] lemma tokensText_cons (t : SqlToken) (ts : List SqlToken) :
    tokensText (t :: ts) = t.text ++ tokensText ts := List.flatMap_cons

def SqlToken.StandsIn (before : Option Char) (rest : List Char) : SqlToken → Prop
  | .atom a => a.StandsIn before rest
  | .opening | .closing => True

/-- Tokens one behind the other, none of which runs into the next. -/
def Spaced : Option Char → List SqlToken → Prop
  | _, [] => True
  | before, t :: ts => t.StandsIn before (tokensText ts) ∧ Spaced (lastOr before t.text) ts

/-- What region a token is. -/
def SqlToken.kind : SqlToken → Option Kind
  | .atom a => a.kind
  | .opening | .closing => none

lemma SqlToken.exists_text {t : SqlToken} {before : Option Char} {rest : List Char}
    (h : t.StandsIn before rest) : ∃ c piece, t.text = c :: piece := by
  cases t with
  | atom a =>
      cases a with
      | word w => exact List.exists_cons_of_ne_nil h.1
      | _ => exact ⟨_, _, rfl⟩
  | _ => exact ⟨_, _, rfl⟩

/-- **Where a token starts**, a region starts that reaches to its end, or none does. -/
lemma opaqueAt_token {t : SqlToken} {before : Option Char} {c : Char} {piece rest : List Char}
    (h : t.StandsIn before rest) (htext : t.text = c :: piece) :
    opaqueAt before c (piece ++ rest) = t.kind.map fun kind => ⟨kind, piece.length, true⟩ := by
  cases t with
  | atom a => exact opaqueAt_atom h htext
  | opening =>
      obtain ⟨rfl, rfl⟩ := List.cons.inj htext
      exact (opaqueAt_eq_none (by decide)).mpr (by simp)
  | closing =>
      obtain ⟨rfl, rfl⟩ := List.cons.inj htext
      exact (opaqueAt_eq_none (by decide)).mpr (by simp)

end OdooKernel