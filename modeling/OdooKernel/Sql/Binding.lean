import OdooKernel.Sql.Fragment

/-!
# How a comparand binds its parameters

The rewriting of a comparand (`Sql/Fragment`) is read again by the lexer of the kernel, and what is
read is compared with what was meant, token by token.

**Reading again.**  A region is written as it was, but for the percent signs that were doubled in it,
and is read again as one region (`opaqueAt_unquoted`).  A comment becomes a space.  What is left are
the edges: whether a token goes on the word before it depends on the character before, which the
rewriting changes only where it writes a placeholder's type.

**The induction** goes over the text a piece at a time, with whatever stands before
(`tokens_rewrite_iff`).

* `head_of_rewrite` — what a rewritten text starts with, the comparand starts with.
* `Edge` — what a text may end or start with, for the tokens beside it.
* **`binds_exactly_iff`** — a comparand binds its parameters exactly when no placeholder stands
  against a word.
* `limit_not_bound` — one that does.
-/

namespace OdooKernel

/-! ## Quoted texts -/

lemma unquoted_cons {c : Char} {cs text : List Char} (hc : c ≠ '%')
    (h : unquoted (c :: cs) = .ok text) :
    c ≠ '$' ∧ ∃ rest, text = c :: rest ∧ unquoted cs = .ok rest := by
  cases cs with
  | nil =>
      unfold unquoted at h
      rw [if_neg hc] at h
      split at h
      · exact absurd h (by simp)
      · next hdollar => exact ⟨hdollar, [], (Except.ok.inj h).symm, rfl⟩
  | cons d cs =>
      unfold unquoted at h
      rw [if_neg hc] at h
      split at h
      · exact absurd h (by simp)
      · next hdollar =>
          simp only [bind_eq_ok, pure_eq_ok] at h
          obtain ⟨rest, hrest, rfl⟩ := h
          exact ⟨hdollar, rest, rfl, hrest⟩

lemma unquoted_percent {cs text : List Char} (h : unquoted ('%' :: cs) = .ok text) :
    ∃ cs' rest, cs = '%' :: cs' ∧ text = '%' :: rest ∧ unquoted cs' = .ok rest := by
  cases cs with
  | nil => exact absurd h (by simp [unquoted])
  | cons d cs =>
      unfold unquoted at h
      rw [if_pos rfl] at h
      split at h
      · next hd =>
          simp only [bind_eq_ok, pure_eq_ok] at h
          obtain ⟨rest, hrest, rfl⟩ := h
          exact ⟨cs, rest, by rw [hd], rfl, hrest⟩
      · exact absurd h (by simp)

lemma toQuoteEnd_percent {quote : Char} (hquote : quote ≠ '%') (escaped skip : Bool)
    (cs : List Char) :
    toQuoteEnd quote escaped skip ('%' :: cs) = further 1 (toQuoteEnd quote escaped false cs) := by
  cases skip with
  | true => rfl
  | false =>
      rw [toQuoteEnd, if_neg fun h => absurd h.2 (by decide), if_neg fun h => hquote h.symm]

/-- **A quoted text ends where it did**, one percent sign written for each two. -/
lemma toQuoteEnd_unquoted {quote : Char} {escaped : Bool} (hquote : quote ≠ '%')
    {rest : List Char} (hrest : rest.head? ≠ some quote) :
    ∀ (n : ℕ) {skip : Bool} {cs text : List Char}, toQuoteEnd quote escaped skip cs = (n, true) →
      unquoted (cs.take n) = .ok text →
      toQuoteEnd quote escaped skip (text ++ rest) = (text.length, true) := by
  intro n
  induction n using Nat.strong_induction_on with
  | _ n ih =>
      intro skip cs text hend htext
      cases cs with
      | nil => cases skip <;> exact absurd hend (by simp [toQuoteEnd])
      | cons c cs =>
          by_cases hc : c = '%'
          · -- two percent signs, the first of which may be escaped
            subst hc
            rw [toQuoteEnd_percent hquote] at hend
            obtain ⟨m, hm, rfl⟩ := further_eq_closed.mp hend
            obtain ⟨taken, text', htaken, rfl, htext'⟩ := unquoted_percent htext
            have hpos := (toQuoteEnd_closed hm none).2.2
            cases cs with
            | nil => exact absurd hm (by simp [toQuoteEnd])
            | cons d cs =>
                obtain ⟨k, rfl⟩ := Nat.exists_eq_succ_of_ne_zero hpos.ne'
                obtain ⟨rfl, rfl⟩ := List.cons.inj htaken
                rw [toQuoteEnd_percent hquote] at hm
                obtain ⟨k', hk, hkk⟩ := further_eq_closed.mp hm
                obtain rfl : k' = k := by omega
                rw [List.cons_append, toQuoteEnd_percent hquote, ih k' (by omega) hk htext']
                rfl
          · have hpos := (toQuoteEnd_closed hend none).2.2
            obtain ⟨m, rfl⟩ := Nat.exists_eq_succ_of_ne_zero hpos.ne'
            obtain ⟨_, text', rfl, htext'⟩ := unquoted_cons hc htext
            have hgo : ∀ {skip' : Bool}, further 1 (toQuoteEnd quote escaped skip' cs)
                = (m.succ, true) →
                further 1 (toQuoteEnd quote escaped skip' (text' ++ rest))
                  = ((c :: text').length, true) := by
              intro skip' hfurther
              obtain ⟨m', hm', hmm⟩ := further_eq_closed.mp hfurther
              obtain rfl : m' = m := by omega
              rw [ih m' (by omega) hm' htext']
              rfl
            rw [List.cons_append]
            cases skip with
            | true => exact hgo hend
            | false =>
                unfold toQuoteEnd at hend ⊢
                split at hend
                · next hescape =>
                    rw [if_pos hescape]
                    exact hgo hend
                · next hescape =>
                    rw [if_neg hescape]
                    split at hend
                    · next hc' =>
                        rw [if_pos hc']
                        split at hend
                        · -- the quote is doubled, and so it is in the text
                          next hsecond =>
                            obtain ⟨m', hm', hmm⟩ := further_eq_closed.mp hend
                            obtain rfl : m' = m := by omega
                            obtain ⟨cs', rfl⟩ := List.head?_eq_some_iff.mp hsecond
                            obtain ⟨k, rfl⟩ := Nat.exists_eq_succ_of_ne_zero
                              (toQuoteEnd_closed hm' none).2.2.ne'
                            obtain ⟨_, text'', rfl, _⟩ := unquoted_cons hquote htext'
                            rw [if_pos (by rfl)]
                            exact hgo hend
                        · obtain rfl : m = 0 := by
                            have hone := (Prod.mk.inj hend).1
                            omega
                          obtain rfl : [] = text' := Except.ok.inj htext'
                          rw [if_neg (by simpa using hrest)]
                          rfl
                    · next hc' =>
                        rw [if_neg hc']
                        exact hgo hend

lemma opaqueAt_quote {c : Char} (hc : c = '\'' ∨ c = '"') (before : Option Char)
    (cs : List Char) :
    opaqueAt before c cs = some ⟨if c = '"' then .identifier else .string,
      (toQuoteEnd c false false cs).1, (toQuoteEnd c false false cs).2⟩ := by
  rcases hc with rfl | rfl
  · rfl
  · rfl

lemma opaqueAt_escaped {c : Char} (hc : c = 'e' ∨ c = 'E') {before : Option Char}
    (hbefore : afterIdent before = false) (cs : List Char) :
    opaqueAt before c ('\'' :: cs) = some ⟨.string, (toQuoteEnd '\'' true false cs).1 + 1,
      (toQuoteEnd '\'' true false cs).2⟩ := by
  rcases hc with rfl | rfl
  · simp [opaqueAt, hbefore, further]
  · simp [opaqueAt, hbefore, further]

/-- What follows a text that ends with a quote is behind no word. -/
lemma afterIdent_of_closed {quote : Char} (hquote : quote = '\'' ∨ quote = '"') {escaped : Bool}
    {cs : List Char} {n : ℕ} (h : toQuoteEnd quote escaped false cs = (n, true))
    (before : Option Char) : afterIdent (lastOr before (cs.take n)) = false := by
  rw [(toQuoteEnd_closed h before).1]
  rcases hquote with rfl | rfl
  · decide
  · decide

/-- **A quoted text is read again**, behind any character that it can stand behind. -/
lemma opaqueAt_unquoted {before b : Option Char} {c : Char} {cs text rest : List Char} {o : Opaque}
    (h : opaqueAt before c cs = some o) (hclosed : o.terminated = true)
    (hcomment : o.kind ≠ .comment) (hdollar : o.kind ≠ .dollarString)
    (htext : unquoted (c :: cs.take o.more) = .ok text)
    (hbefore : afterIdent before = false → afterIdent b = false)
    (hrest : ∀ quote, quote = '\'' ∨ quote = '"' → rest.head? = some quote →
      (cs.drop o.more).head? = some quote) :
    ∃ inside, text = c :: inside ∧
      opaqueAt b c (inside ++ rest) = some ⟨o.kind, inside.length, true⟩ ∧
      afterIdent (lastOr (some c) inside) = false ∧
      afterIdent (lastOr (some c) (cs.take o.more)) = false := by
  rcases opaqueAt_eq_some h with ⟨_, _, _, rfl⟩ | ⟨_, _, _, rfl⟩ | ⟨hc, hword, body, rfl, rfl⟩ |
    ⟨hc, rfl⟩ | ⟨_, hkind⟩
  · exact absurd rfl hcomment
  · exact absurd rfl hcomment
  · -- a text whose backslashes escape
    have hletter : c ≠ '%' := by rcases hc with rfl | rfl <;> decide
    have hend : toQuoteEnd '\'' true false body
        = ((toQuoteEnd '\'' true false body).1, true) := Prod.ext rfl hclosed
    obtain ⟨_, text', rfl, htext'⟩ := unquoted_cons hletter htext
    obtain ⟨_, inside, rfl, hinside⟩ := unquoted_cons (by decide) htext'
    have hfollow : rest.head? ≠ some '\'' := fun hhead =>
      (toQuoteEnd_closed hend none).2.1 (hrest '\'' (Or.inl rfl) hhead)
    have hagain := toQuoteEnd_unquoted (by decide) hfollow _ hend hinside
    refine ⟨'\'' :: inside, rfl, ?_, ?_, afterIdent_of_closed (Or.inl rfl) hend (some '\'')⟩
    · rw [List.cons_append, opaqueAt_escaped hc (hbefore hword), hagain]
      rfl
    · have hlast := afterIdent_of_closed (Or.inl rfl) hagain (some '\'')
      rwa [List.take_left] at hlast
  · have hletter : c ≠ '%' := by rcases hc with rfl | rfl <;> decide
    have hend : toQuoteEnd c false false cs = ((toQuoteEnd c false false cs).1, true) :=
      Prod.ext rfl hclosed
    obtain ⟨_, inside, rfl, hinside⟩ := unquoted_cons hletter htext
    have hfollow : rest.head? ≠ some c := fun hhead =>
      (toQuoteEnd_closed hend none).2.1 (hrest c hc hhead)
    have hagain := toQuoteEnd_unquoted hletter hfollow _ hend hinside
    refine ⟨inside, rfl, ?_, ?_, afterIdent_of_closed hc hend (some c)⟩
    · rw [opaqueAt_quote hc, hagain]
    · have hlast := afterIdent_of_closed hc hagain (some c)
      rwa [List.take_left] at hlast
  · exact absurd hkind hdollar

/-- What follows a comment is behind no word. -/
lemma afterIdent_of_comment {before : Option Char} {c : Char} {cs : List Char} {o : Opaque}
    (h : opaqueAt before c cs = some o) (hclosed : o.terminated = true)
    (hcomment : o.kind = .comment) (hrest : cs.drop o.more ≠ []) :
    afterIdent (lastOr (some c) (cs.take o.more)) = false := by
  rcases opaqueAt_eq_some h with ⟨_, rest, rfl, rfl⟩ | ⟨_, rest, rfl, rfl⟩ | ⟨_, _, _, _, rfl⟩ |
    ⟨hc, rfl⟩ | ⟨_, hkind⟩
  · rcases toLineEnd_last hrest (some '-') with hlast | hlast
    · rw [List.take_succ_cons, lastOr, hlast]
      decide
    · rw [List.take_succ_cons, lastOr, hlast]
      decide
  · rw [List.take_succ_cons, lastOr,
      toCommentEnd_closed (Prod.ext rfl hclosed : toCommentEnd 1 rest = (_, true))]
    decide
  · exact absurd hcomment (by simp)
  · rcases hc with rfl | rfl <;> exact absurd hcomment (by simp)
  · rw [hkind] at hcomment
    exact absurd hcomment (by decide)

/-! ## The parts of a comparand -/

/-- **What stands at a position**: a region, a percent sign, a parameter, a lone percent sign or a
character. -/
lemma readPart_cases (before : Option Char) (c : Char) (cs : List Char) :
    (∃ o, opaqueAt before c cs = some o ∧
      readPart before c cs = (o.more, .region o.kind o.terminated (c :: cs.take o.more))) ∨
    (c = '%' ∧ ∃ rest, cs = '%' :: rest ∧ readPart before c cs = (1, .percent)) ∨
    (c = '%' ∧ ∃ rest, cs = 's' :: rest ∧ readPart before c cs = (1, .parameter)) ∨
    readPart before c cs = (0, .loose) ∨
    (opaqueAt before c cs = none ∧ c ≠ '%' ∧ readPart before c cs = (0, .plain c)) := by
  unfold readPart
  cases hregion : opaqueAt before c cs with
  | some o => exact Or.inl ⟨o, rfl, rfl⟩
  | none =>
      right
      by_cases hc : c = '%'
      · simp only [if_pos hc]
        by_cases hpercent : cs.head? = some '%'
        · obtain ⟨rest, rfl⟩ := List.head?_eq_some_iff.mp hpercent
          exact Or.inl ⟨hc, rest, rfl, rfl⟩
        · rw [if_neg hpercent]
          by_cases hparameter : cs.head? = some 's'
          · obtain ⟨rest, rfl⟩ := List.head?_eq_some_iff.mp hparameter
            exact Or.inr (Or.inl ⟨hc, rest, rfl, rfl⟩)
          · rw [if_neg hparameter]
            exact Or.inr (Or.inr (Or.inl rfl))
      · exact Or.inr (Or.inr (Or.inr ⟨rfl, hc, by rw [if_neg hc]⟩))

attribute [local simp] rewriteParts

section Parts

variable {casts : List Cast} {used : ℕ} {ps : List Part} {out : List Char}

lemma rewriteParts_region {kind : Kind} {terminated : Bool} {text : List Char}
    (h : rewriteParts casts used (.region kind terminated text :: ps) = .ok out) :
    terminated = true ∧ ∃ rest, rewriteParts casts used ps = .ok rest ∧
      (kind = .comment ∧ out = ' ' :: rest ∨
        kind ≠ .comment ∧ kind ≠ .dollarString ∧
          ∃ inside, unquoted text = .ok inside ∧ out = inside ++ rest) := by
  rw [rewriteParts] at h
  split at h
  · exact absurd h (by simp)
  · next hclosed =>
      refine ⟨by simpa using hclosed, ?_⟩
      split at h
      · next hcomment =>
          simp only [bind_eq_ok, pure_eq_ok] at h
          obtain ⟨rest, hrest, rfl⟩ := h
          exact ⟨rest, hrest, Or.inl ⟨hcomment, rfl⟩⟩
      · next hcomment =>
          split at h
          · exact absurd h (by simp)
          · next hdollar =>
              simp only [bind_eq_ok, pure_eq_ok] at h
              obtain ⟨inside, hinside, rest, hrest, rfl⟩ := h
              exact ⟨rest, hrest, Or.inr ⟨hcomment, hdollar, inside, hinside, rfl⟩⟩

lemma rewriteParts_percent (h : rewriteParts casts used (.percent :: ps) = .ok out) :
    ∃ rest, rewriteParts casts used ps = .ok rest ∧ out = '%' :: rest := by
  simp only [rewriteParts, bind_eq_ok, pure_eq_ok] at h
  obtain ⟨rest, hrest, rfl⟩ := h
  exact ⟨rest, hrest, rfl⟩

lemma rewriteParts_parameter (h : rewriteParts casts used (.parameter :: ps) = .ok out) :
    ∃ kind rest, casts[used]? = some kind ∧ rewriteParts casts (used + 1) ps = .ok rest ∧
      out = boundText (used + 1) kind ++ rest := by
  rw [rewriteParts] at h
  cases hkind : casts[used]? with
  | none =>
      rw [hkind] at h
      exact absurd h (by simp)
  | some kind =>
      rw [hkind] at h
      simp only [bind_eq_ok, pure_eq_ok] at h
      obtain ⟨rest, hrest, rfl⟩ := h
      exact ⟨kind, rest, rfl, hrest, rfl⟩

lemma rewriteParts_plain {c : Char} (h : rewriteParts casts used (.plain c :: ps) = .ok out) :
    c ≠ '$' ∧ c ≠ ';' ∧ ∃ rest, rewriteParts casts used ps = .ok rest ∧ out = c :: rest := by
  rw [rewriteParts] at h
  split at h
  · exact absurd h (by simp)
  · next hdollar =>
      split at h
      · exact absurd h (by simp)
      · next hsemicolon =>
          simp only [bind_eq_ok, pure_eq_ok] at h
          obtain ⟨rest, hrest, rfl⟩ := h
          exact ⟨hdollar, hsemicolon, rest, hrest, rfl⟩

lemma rewriteParts_nil (h : rewriteParts casts used [] = .ok out) :
    out = [] ∧ used = casts.length := by
  rw [rewriteParts] at h
  split at h
  · next hused => exact ⟨(Except.ok.inj h).symm, hused⟩
  · exact absurd h (by simp)

end Parts

/-- **What a rewritten text starts with, the comparand starts with**, a space, a percent sign and a
dollar sign apart. -/
lemma head_of_rewrite {casts : List Cast} {used : ℕ} {before : Option Char} {cs out : List Char}
    (h : rewriteParts casts used (scan readPart 0 before cs) = .ok out) {d : Char}
    (hspace : d ≠ ' ') (hpercent : d ≠ '%') (hdollar : d ≠ '$') (hhead : out.head? = some d) :
    cs.head? = some d := by
  cases cs with
  | nil =>
      rw [(rewriteParts_nil h).1] at hhead
      exact absurd hhead (by simp)
  | cons c cs =>
      rw [scan_cons] at h
      rcases readPart_cases before c cs with ⟨o, hregion, hread⟩ | ⟨_, _, _, hread⟩ |
        ⟨_, _, _, hread⟩ | hread | ⟨_, _, hread⟩
      · rw [hread] at h
        obtain ⟨hclosed, rest, _, ⟨_, rfl⟩ | ⟨hcomment, hkind, inside, hinside, rfl⟩⟩ :=
          rewriteParts_region h
        · exact absurd (Option.some.inj hhead).symm hspace
        · have hc : c ≠ '%' := by
            rintro rfl
            rcases opaqueAt_eq_some hregion with ⟨hc, _⟩ | ⟨hc, _⟩ | ⟨hc, _⟩ | ⟨hc, _⟩ | ⟨hc, _⟩
            · exact absurd hc (by decide)
            · exact absurd hc (by decide)
            · exact absurd hc (by decide)
            · exact absurd hc (by decide)
            · exact absurd hc (by decide)
          obtain ⟨_, text, rfl, _⟩ := unquoted_cons hc hinside
          exact hhead
      · rw [hread] at h
        obtain ⟨rest, _, rfl⟩ := rewriteParts_percent h
        exact absurd (Option.some.inj hhead).symm hpercent
      · rw [hread] at h
        obtain ⟨kind, rest, _, _, rfl⟩ := rewriteParts_parameter h
        exact absurd (Option.some.inj hhead).symm hdollar
      · rw [hread] at h
        exact absurd h (by simp)
      · rw [hread] at h
        obtain ⟨_, _, rest, _, rfl⟩ := rewriteParts_plain h
        exact hhead

/-- A text in single quotes stays one. -/
lemma head_quote {casts : List Cast} {used : ℕ} {before : Option Char} {cs out : List Char}
    (h : rewriteParts casts used (scan readPart 0 before ('\'' :: cs)) = .ok out) :
    out.head? = some '\'' := by
  have hregion := opaqueAt_quote (Or.inl rfl) before cs
  have hread : readPart before '\'' cs = ((toQuoteEnd '\'' false false cs).1,
      .region .string (toQuoteEnd '\'' false false cs).2
        ('\'' :: cs.take (toQuoteEnd '\'' false false cs).1)) := by
    unfold readPart
    rw [hregion]
    rfl
  rw [scan_cons, hread] at h
  obtain ⟨_, rest, _, ⟨hkind, _⟩ | ⟨_, _, inside, hinside, rfl⟩⟩ := rewriteParts_region h
  · exact absurd hkind (by decide)
  · obtain ⟨_, text, rfl, _⟩ := unquoted_cons (by decide) hinside
    rfl

lemma startsQuoted_iff {before : Option Char} {cs : List Char} :
    startsQuoted (scan readPart 0 before cs) = true ↔ cs.head? = some '\'' := by
  cases cs with
  | nil => simp [startsQuoted]
  | cons c cs =>
      rw [scan_cons]
      constructor
      · intro h
        rcases readPart_cases before c cs with ⟨o, _, hread⟩ | ⟨_, _, _, hread⟩ |
          ⟨_, _, _, hread⟩ | hread | ⟨_, _, hread⟩
        · rw [hread] at h
          simpa [startsQuoted] using h
        · rw [hread] at h
          exact absurd h (by simp [startsQuoted])
        · rw [hread] at h
          exact absurd h (by simp [startsQuoted])
        · rw [hread] at h
          exact absurd h (by simp [startsQuoted])
        · rw [hread] at h
          exact absurd h (by simp [startsQuoted])
      · intro hhead
        obtain rfl := Option.some.inj hhead
        unfold readPart
        rw [opaqueAt_quote (Or.inl rfl)]
        simp [startsQuoted]

/-! ## The tokens of a rewritten text -/

/-- A character outside the regions is a token or goes on one. -/
lemma scan_plain {b : Option Char} {c : Char} {rest : List Char}
    (h : opaqueAt b c rest = none) (hc : c ≠ '$') :
    scan readToken 0 b (c :: rest)
      = { joined := isIdentChar c && afterIdent b, lexeme := .plain c }
        :: scan readToken 0 (some c) rest := by
  have hread : readToken b c ([] ++ rest)
      = (0, { joined := isIdentChar c && afterIdent b, lexeme := .plain c }) := by
    simp only [List.nil_append, readToken, readSql, h, hc, false_and, if_false]
  exact scan_piece hread

/-- A text that is read as a region is a token. -/
lemma readToken_region {b : Option Char} {c : Char} {inside rest : List Char} {kind : Kind}
    (h : opaqueAt b c (inside ++ rest) = some ⟨kind, inside.length, true⟩)
    (hkind : kind ≠ .dollarString) :
    readToken b c (inside ++ rest)
      = (inside.length, Lexeme.token (.region kind true (c :: inside))) := by
  have hjoined : (isIdentChar c && afterIdent b) = false := by
    rcases opaqueAt_eq_some h with ⟨rfl, _⟩ | ⟨rfl, _⟩ | ⟨_, hb, _⟩ | ⟨hc, _⟩ | ⟨_, hdollar⟩
    · rfl
    · rfl
    · rw [hb, Bool.and_false]
    · rcases hc with rfl | rfl
      · rfl
      · rfl
    · exact absurd hdollar hkind
  simp only [readToken, readSql, h, hjoined, List.take_left, Lexeme.token]

lemma head_toDigits (n : ℕ) : ∃ d ds, Nat.toDigits 10 n = d :: ds ∧ d.isDigit = true := by
  cases hdigits : Nat.toDigits 10 n with
  | nil => exact absurd hdigits Nat.toDigits_ne_nil
  | cons d ds =>
      exact ⟨d, ds, rfl, Nat.isDigit_of_mem_toDigits (by omega) (by omega)
        (hdigits ▸ List.mem_cons_self)⟩

lemma opaqueAt_dollar {b : Option Char} {cs : List Char}
    (h : afterIdent b = true ∨ cs.head?.any Char.isDigit = true) : opaqueAt b '$' cs = none := by
  unfold opaqueAt
  simp only
  rw [if_neg fun hc => absurd hc.1 (by decide), if_neg fun hc => absurd hc.1 (by decide),
    if_neg (by simp), if_neg fun hc => by rcases hc with hc | hc <;> exact absurd hc (by decide)]
  refine if_neg fun hc => ?_
  rcases h with h | h
  · exact hc.2.1 h
  · exact hc.2.2 h

/-- A placeholder behind no word is a token. -/
lemma readToken_bound {b : Option Char} (hb : afterIdent b = false) (n : ℕ) (rest : List Char) :
    readToken b '$' (Nat.toDigits 10 n ++ ':' :: rest)
      = ((Nat.toDigits 10 n).length, Lexeme.token (.bound (Nat.toDigits 10 n))) := by
  obtain ⟨d, ds, hdigits, hd⟩ := head_toDigits n
  have hhead : (Nat.toDigits 10 n ++ ':' :: rest).head?.any Char.isDigit = true := by
    rw [hdigits]
    exact hd
  have hnone := opaqueAt_dollar (b := b) (Or.inr hhead)
  have htake : (Nat.toDigits 10 n ++ ':' :: rest).takeWhile Char.isDigit = Nat.toDigits 10 n := by
    rw [List.takeWhile_append_of_pos fun c hc =>
      Nat.isDigit_of_mem_toDigits (by omega) (by omega) hc]
    exact List.append_nil _
  simp only [readToken, readSql, hnone, hb, hhead, htake, Lexeme.token]
  simp

/-- Behind a word it goes on the word. -/
lemma scan_glued {b : Option Char} (hb : afterIdent b = true) (rest : List Char) :
    scan readToken 0 b ('$' :: rest)
      = { joined := true, lexeme := .plain '$' } :: scan readToken 0 (some '$') rest := by
  have hnone : opaqueAt b '$' ([] ++ rest) = none := opaqueAt_dollar (Or.inl hb)
  have hread : readToken b '$' ([] ++ rest)
      = (0, { joined := true, lexeme := .plain '$' }) := by
    simp only [readToken, readSql, hnone, hb]
    rfl
  exact scan_piece hread

/-- A cast is read as it is, whatever it stands between. -/
lemma scan_typeName (kind : Cast) (b : Option Char) (rest : List Char) :
    scan readToken 0 b (':' :: ':' :: kind.typeName ++ rest)
      = tokens (':' :: ':' :: kind.typeName)
        ++ scan readToken 0 (lastOr none kind.typeName) rest := by
  cases kind with
  | bool => rfl
  | int8 => rfl
  | float8 => rfl
  | int8Array => rfl
  | textArray => rfl
  | text => rfl

/-- A parameter behind no word is read as one. -/
lemma scan_bound {b : Option Char} (hb : afterIdent b = false) (number : ℕ) (kind : Cast)
    (rest : List Char) :
    scan readToken 0 b (boundText number kind ++ rest)
      = boundTokens number kind ++ scan readToken 0 (lastOr none kind.typeName) rest := by
  have hread : readToken b '$' (Nat.toDigits 10 number ++ (':' :: ':' :: kind.typeName ++ rest))
      = ((Nat.toDigits 10 number).length, Lexeme.token (.bound (Nat.toDigits 10 number))) :=
    readToken_bound hb number (':' :: (kind.typeName ++ rest))
  have htext : boundText number kind ++ rest
      = '$' :: Nat.toDigits 10 number ++ (':' :: ':' :: kind.typeName ++ rest) := by
    simp [boundText, placeholder]
  rw [htext, scan_piece hread, scan_typeName]
  rfl

/-- The comparand is behind a word there, or behind the `s` of a parameter. -/
def Edge.inCode : Edge → Bool
  | .free => false
  | _ => true

/-- The rewritten text is behind a word there, or behind the name of a type. -/
def Edge.inText : Edge → Bool
  | .word | .scalar => true
  | _ => false

lemma Edge.inText_iff (edge : Edge) : edge.inText = true ↔ edge = .word ∨ edge = .scalar := by
  cases edge <;> decide

lemma Edge.inText_of_inCode {edge : Edge} (h : edge.inCode = false) : edge.inText = false := by
  cases edge <;> first | rfl | exact absurd h (by decide)

lemma Cast.inCode_edge (kind : Cast) : kind.edge.inCode = true := by cases kind <;> rfl

lemma Cast.inText_edge (kind : Cast) :
    afterIdent (lastOr none kind.typeName) = kind.edge.inText := by cases kind <;> decide

lemma Cast.edge_ne_word (kind : Cast) : decide (kind.edge = .word) = false := by
  cases kind <;> rfl

lemma ungluedFrom_region (casts : List Cast) (used : ℕ) (edge : Edge) (kind : Kind)
    (terminated : Bool) (text : List Char) (ps : List Part) :
    UngluedFrom casts used edge (.region kind terminated text :: ps)
      = UngluedFrom casts used .free ps := rfl

lemma ungluedFrom_percent (casts : List Cast) (used : ℕ) (edge : Edge) (ps : List Part) :
    UngluedFrom casts used edge (.percent :: ps) = UngluedFrom casts used .free ps := rfl

lemma ungluedFrom_plain (casts : List Cast) (used : ℕ) (edge : Edge) (c : Char)
    (ps : List Part) :
    UngluedFrom casts used edge (.plain c :: ps)
      = (!(isIdentChar c && decide (edge = .scalar)) &&
        !(decide (edge = .array) && (decide (c = 'e') || decide (c = 'E')) && startsQuoted ps) &&
        UngluedFrom casts used (if isIdentChar c then .word else .free) ps) := rfl

/-- Two texts that start with one token. -/
lemma cons_tokens_iff {t : Token} {ts ts' : List Token} {p : Prop} (h : ts = ts' ↔ p) :
    t :: ts = t :: ts' ↔ p := by
  rw [List.cons_inj_right]
  exact h

/-- **The tokens of a rewritten text are the comparand's exactly when no placeholder stands against
a word**, from any position of the two texts: by induction on the parts of the comparand. -/
lemma tokens_rewrite_iff {casts : List Cast} (before : Option Char) (cs : List Char) :
    ∀ (used : ℕ) (edge : Edge) (b : Option Char) (out : List Char),
      (cs ≠ [] → afterIdent before = edge.inCode ∧ afterIdent b = edge.inText) →
      rewriteParts casts used (scan readPart 0 before cs) = .ok out →
      (scan readToken 0 b out
          = expectedTokens casts used (decide (edge = .word)) (scan readPart 0 before cs) ↔
        UngluedFrom casts used edge (scan readPart 0 before cs) = true) := by
  revert before cs
  refine @scan_induct Char Part readPart _ ?_ ?_
  · intro before used edge b out _ h
    rw [scan_nil] at h ⊢
    rw [(rewriteParts_nil h).1, scan_nil]
    exact ⟨fun _ => rfl, fun _ => rfl⟩
  intro before c cs ih used edge b out hedge h
  obtain ⟨hcode, htext⟩ := hedge (List.cons_ne_nil c cs)
  rw [scan_cons] at h ⊢
  rcases readPart_cases before c cs with ⟨o, hregion, hread⟩ | ⟨rfl, cs, rfl, hread⟩ |
    ⟨rfl, cs, rfl, hread⟩ | hread | ⟨hnone, hpercent, hread⟩
  · -- a region
    rw [hread] at h ih ⊢
    obtain ⟨hclosed, rest, hrest, ⟨hcomment, rfl⟩ | ⟨hcomment, hdollar, text, htext', rfl⟩⟩ :=
      rewriteParts_region h
    · have hnext := ih used .free (some ' ') rest
        (fun hne => ⟨afterIdent_of_comment hregion hclosed hcomment hne, rfl⟩) hrest
      rw [scan_plain rfl (by decide), expectedTokens, if_pos hcomment, ungluedFrom_region]
      exact cons_tokens_iff hnext
    · obtain ⟨inside, rfl, hagain, hlast, hlast'⟩ := opaqueAt_unquoted hregion hclosed hcomment
        hdollar htext' (fun hfree => htext.trans (Edge.inText_of_inCode (hcode ▸ hfree)))
        (fun quote hquote => head_of_rewrite hrest (by rcases hquote with rfl | rfl <;> decide)
          (by rcases hquote with rfl | rfl <;> decide)
          (by rcases hquote with rfl | rfl <;> decide))
      have hnext := ih used .free (lastOr (some c) inside) rest (fun _ => ⟨hlast', hlast⟩) hrest
      rw [scan_piece (readToken_region hagain hdollar), expectedTokens, if_neg hcomment,
        ungluedFrom_region, htext', hclosed]
      exact cons_tokens_iff hnext
  · rw [hread] at h ih ⊢
    obtain ⟨rest, hrest, rfl⟩ := rewriteParts_percent h
    have hnext := ih used .free (some '%') rest (fun _ => ⟨rfl, rfl⟩) hrest
    rw [scan_plain rfl (by decide), expectedTokens, ungluedFrom_percent]
    exact cons_tokens_iff hnext
  · -- a parameter
    rw [hread] at h ih ⊢
    obtain ⟨kind, rest, hkind, hrest, rfl⟩ := rewriteParts_parameter h
    rw [expectedTokens, UngluedFrom, hkind]
    cases hb : afterIdent b with
    | true =>
        -- the dollar sign goes on the word before it
        have hglued := edge.inText_iff.mp (htext.symm.trans hb)
        have hfalse : (decide (edge ≠ .word) && decide (edge ≠ .scalar)) = false := by
          rcases hglued with rfl | rfl <;> rfl
        rw [hfalse, Bool.false_and]
        refine ⟨fun heq => ?_, fun hun => absurd hun (by simp)⟩
        rw [show boundText (used + 1) kind ++ rest
          = '$' :: (Nat.toDigits 10 (used + 1) ++ ':' :: ':' :: kind.typeName ++ rest) from rfl,
          scan_glued hb] at heq
        exact absurd (congrArg Token.joined (List.cons.inj heq).1) (by simp [Lexeme.token])
    | false =>
        have hfree : edge ≠ .word ∧ edge ≠ .scalar := by
          have hnot := mt edge.inText_iff.mpr (by simp [← htext, hb])
          exact ⟨fun hw => hnot (Or.inl hw), fun hs => hnot (Or.inr hs)⟩
        have hnext := ih (used + 1) kind.edge (lastOr none kind.typeName) rest
          (fun _ => ⟨kind.inCode_edge.symm, kind.inText_edge⟩) hrest
        rw [scan_bound hb, Option.elim_some, Option.elim_some, List.append_cancel_left_eq]
        simp only [hfree, ne_eq, not_false_eq_true, decide_true, Bool.true_and]
        rw [← kind.edge_ne_word]
        exact hnext
  · rw [hread] at h
    exact absurd h (by simp)
  · -- a character
    rw [hread] at h ih ⊢
    obtain ⟨hdollar, _, rest, hrest, rfl⟩ := rewriteParts_plain h
    obtain ⟨hdash, hslash, hletter, hsingle, hdouble⟩ := (opaqueAt_eq_none hdollar).mp hnone
    rw [expectedTokens, ungluedFrom_plain]
    by_cases hquoted : edge = .array ∧ (c = 'e' ∨ c = 'E') ∧ cs.head? = some '\''
    · -- the letter makes an escaped text of the quoted one behind it
      obtain ⟨rfl, hc, hhead⟩ := hquoted
      obtain ⟨cs, rfl⟩ := List.head?_eq_some_iff.mp hhead
      have hstarts : startsQuoted (scan readPart 0 (some c) ('\'' :: cs)) = true :=
        startsQuoted_iff.mpr rfl
      obtain ⟨rest, rfl⟩ := List.head?_eq_some_iff.mp (head_quote hrest)
      refine ⟨fun heq => ?_, fun hun => ?_⟩
      · rw [scan_cons] at heq
        have hlexeme := congrArg Token.lexeme (List.cons.inj heq).1
        simp only [readToken, readSql, opaqueAt_escaped hc htext] at hlexeme
        exact absurd hlexeme (by simp)
      · have hletters : (decide (c = 'e') || decide (c = 'E')) = true := by simpa using hc
        rw [show startsQuoted (scan readPart 0 (lastOr (some c) (List.take (0, Part.plain c).1
          ('\'' :: cs))) (List.drop (0, Part.plain c).1 ('\'' :: cs))) = true from hstarts,
          hletters] at hun
        exact absurd hun (by simp)
    · have hplain : opaqueAt b c rest = none := by
        refine (opaqueAt_eq_none hdollar).mpr ⟨fun hc hhead => hdash hc ?_,
          fun hc hhead => hslash hc ?_, fun hc hhead => ?_, hsingle, hdouble⟩
        · exact head_of_rewrite hrest (by decide) (by decide) (by decide) hhead
        · exact head_of_rewrite hrest (by decide) (by decide) (by decide) hhead
        · have hhead' := head_of_rewrite hrest (by decide) (by decide) (by decide) hhead
          have hbehind := hletter hc hhead'
          rw [hcode] at hbehind
          rw [htext]
          cases edge with
          | free => exact hbehind
          | word => rfl
          | scalar => rfl
          | array => exact absurd ⟨rfl, hc, hhead'⟩ hquoted
      have hnext := ih used (if isIdentChar c then .word else .free) (some c) rest
        (fun _ => by cases hc : isIdentChar c <;> simp [Edge.inCode, Edge.inText, afterIdent,
          lastOr, hc]) hrest
      have hword : decide ((if isIdentChar c then Edge.word else .free) = .word)
          = isIdentChar c := by cases isIdentChar c <;> rfl
      rw [hword] at hnext
      have hnoQuoted : (decide (edge = .array) && (decide (c = 'e') || decide (c = 'E')) &&
          startsQuoted (scan readPart 0 (some c) cs)) = false := by
        refine Bool.eq_false_iff.mpr fun hall => hquoted ?_
        simp only [Bool.and_eq_true, Bool.or_eq_true, decide_eq_true_eq, startsQuoted_iff] at hall
        exact ⟨hall.1.1, hall.1.2, hall.2⟩
      change scan readToken 0 b (c :: rest)
          = { joined := isIdentChar c && decide (edge = .word), lexeme := .plain c }
            :: expectedTokens casts used (isIdentChar c) (scan readPart 0 (some c) cs) ↔
        (!(isIdentChar c && decide (edge = .scalar)) &&
          !(decide (edge = .array) && (decide (c = 'e') || decide (c = 'E')) &&
            startsQuoted (scan readPart 0 (some c) cs)) &&
          UngluedFrom casts used (if isIdentChar c then .word else .free)
            (scan readPart 0 (some c) cs)) = true
      rw [scan_plain hplain hdollar, hnoQuoted, htext]
      cases hglued : isIdentChar c && decide (edge = .scalar) with
      | true =>
          -- the character goes on the name of a type
          obtain ⟨hident, hscalar⟩ := (Bool.and_eq_true _ _).mp hglued
          obtain rfl := of_decide_eq_true hscalar
          refine ⟨fun heq => ?_, fun hun => absurd hun (by simp)⟩
          have hjoined := congrArg Token.joined (List.cons.inj heq).1
          rw [hident] at hjoined
          exact absurd hjoined (by simp [Edge.inText])
      | false =>
          have hjoined : (isIdentChar c && edge.inText)
              = (isIdentChar c && decide (edge = .word)) := by
            cases hident : isIdentChar c with
            | false => rfl
            | true =>
                rw [hident] at hglued
                cases edge <;> first | rfl | exact absurd hglued (by decide)
          rw [hjoined, Bool.not_false, Bool.true_and, Bool.true_and]
          exact cons_tokens_iff hnext

/-! ## What is bound -/

lemma lexemes_eq (sql : List Char) : lexemes sql = (tokens sql).map Token.lexeme :=
  (map_scan Token.lexeme readToken sql 0 none).symm

lemma digitsValue_toDigits (n : ℕ) : digitsValue (Nat.toDigits 10 n) = n := by
  have hfold : digitsValue (Nat.toDigits 10 n) = Nat.ofDigitChars 10 (Nat.toDigits 10 n) 0 := rfl
  rw [hfold, Nat.ofDigitChars_ten_toDigits]

lemma boundIndices_append (rs rs' : List Lexeme) :
    boundIndices (rs ++ rs') = boundIndices rs ++ boundIndices rs' := by
  rw [boundIndices, List.filterMap_append, List.map_append]
  rfl

/-- A parameter is one placeholder of its number. -/
lemma boundIndices_boundTokens (number : ℕ) (kind : Cast) :
    boundIndices ((boundTokens number kind).map Token.lexeme) = [number] := by
  have hkind : boundIndices ((tokens (':' :: ':' :: kind.typeName)).map Token.lexeme) = [] := by
    cases kind <;> decide
  have hcons : boundIndices ((boundTokens number kind).map Token.lexeme)
      = digitsValue (Nat.toDigits 10 number)
        :: boundIndices ((tokens (':' :: ':' :: kind.typeName)).map Token.lexeme) := rfl
  rw [hcons, hkind, digitsValue_toDigits]

lemma plain_boundTokens {number : ℕ} {kind : Cast} {c : Char}
    (h : Lexeme.plain c ∈ (boundTokens number kind).map Token.lexeme) : c ≠ '$' ∧ c ≠ ';' := by
  rcases List.mem_cons.mp h with h | h
  · exact absurd h (by simp [Lexeme.token])
  · have hall : ∀ lexeme ∈ (tokens (':' :: ':' :: kind.typeName)).map Token.lexeme,
        lexeme ≠ .plain '$' ∧ lexeme ≠ .plain ';' := by cases kind <;> decide
    obtain ⟨hdollar, hsemicolon⟩ := hall _ h
    exact ⟨fun hc => hdollar (hc ▸ rfl), fun hc => hsemicolon (hc ▸ rfl)⟩

/-- **The tokens of a comparand that is rewritten**: its placeholders are those of its casts, in
order, and no other dollar sign and no semicolon is among them. -/
lemma expectedTokens_bound {casts : List Cast} :
    ∀ {ps : List Part} {used : ℕ} {inWord : Bool} {out : List Char},
      rewriteParts casts used ps = .ok out →
      boundIndices ((expectedTokens casts used inWord ps).map Token.lexeme)
          = List.range' (used + 1) (casts.length - used) ∧
        ∀ c, Lexeme.plain c ∈ (expectedTokens casts used inWord ps).map Token.lexeme →
          c ≠ '$' ∧ c ≠ ';' := by
  intro ps
  induction ps with
  | nil =>
      intro used inWord out h
      obtain ⟨_, rfl⟩ := rewriteParts_nil h
      exact ⟨by simp [expectedTokens, boundIndices], fun c hc => absurd hc List.not_mem_nil⟩
  | cons p ps ih =>
      intro used inWord out h
      cases p with
      | region kind terminated text =>
          obtain ⟨_, rest, hrest, _⟩ := rewriteParts_region h
          obtain ⟨hnumbered, hplain⟩ := @ih used false rest hrest
          by_cases hcomment : kind = .comment
          · refine ⟨by rw [expectedTokens, if_pos hcomment]; exact hnumbered, fun c hc => ?_⟩
            rw [expectedTokens, if_pos hcomment] at hc
            rcases List.mem_cons.mp hc with hc | hc
            · obtain rfl := Lexeme.plain.inj hc
              exact ⟨by decide, by decide⟩
            · exact hplain c hc
          · refine ⟨by rw [expectedTokens, if_neg hcomment]; exact hnumbered, fun c hc => ?_⟩
            rw [expectedTokens, if_neg hcomment] at hc
            rcases List.mem_cons.mp hc with hc | hc
            · exact absurd hc (by simp [Lexeme.token])
            · exact hplain c hc
      | percent =>
          obtain ⟨rest, hrest, _⟩ := rewriteParts_percent h
          obtain ⟨hnumbered, hplain⟩ := @ih used false rest hrest
          refine ⟨hnumbered, fun c hc => ?_⟩
          rcases List.mem_cons.mp hc with hc | hc
          · obtain rfl := Lexeme.plain.inj hc
            exact ⟨by decide, by decide⟩
          · exact hplain c hc
      | parameter =>
          obtain ⟨kind, rest, hkind, hrest, _⟩ := rewriteParts_parameter h
          obtain ⟨hnumbered, hplain⟩ := @ih (used + 1) false rest hrest
          have hused := (List.getElem?_eq_some_iff.mp hkind).1
          rw [expectedTokens, hkind, Option.elim_some, List.map_append]
          refine ⟨?_, fun c hc => ?_⟩
          · have hleft : casts.length - used = casts.length - (used + 1) + 1 := by omega
            rw [boundIndices_append, boundIndices_boundTokens, hnumbered, hleft,
              List.range'_succ]
            rfl
          · rcases List.mem_append.mp hc with hc | hc
            · exact plain_boundTokens hc
            · exact hplain c hc
      | loose => exact absurd h (by simp)
      | plain d =>
          obtain ⟨hdollar, hsemicolon, rest, hrest, _⟩ := rewriteParts_plain h
          obtain ⟨hnumbered, hplain⟩ := @ih used (isIdentChar d) rest hrest
          refine ⟨hnumbered, fun c hc => ?_⟩
          rcases List.mem_cons.mp hc with hc | hc
          · obtain rfl := Lexeme.plain.inj hc
            exact ⟨hdollar, hsemicolon⟩
          · exact hplain c hc

/-- **A comparand binds its parameters exactly when no placeholder stands against a word.** -/
theorem binds_exactly_iff {code out : List Char} {casts : List Cast}
    (h : rewrite code casts = .ok out) :
    BindsExactly code casts out ↔ Unglued code casts = true := by
  have htokens := tokens_rewrite_iff none code 0 .free none out (fun _ => ⟨rfl, rfl⟩) h
  constructor
  · intro hbinds
    exact htokens.mp hbinds.sameTokens
  · intro hunglued
    have hsame : tokens out = expectedTokens casts 0 false (parts code) := htokens.mpr hunglued
    obtain ⟨hnumbered, hplain⟩ := expectedTokens_bound h
    refine ⟨?_, fun c hc => ?_, hsame⟩
    · rw [lexemes_eq, hsame]
      exact hnumbered
    · rw [lexemes_eq, hsame] at hc
      exact hplain c hc

/-- A comparand with a comment, a percent sign, an array and a text. -/
theorem visitors_bound :
    BindsExactly "id = ANY(%s) /* it's %s */ AND name LIKE E'\\'%%' || %s".toList
      [.int8Array, .text] "id = ANY($1::int8[])   AND name LIKE E'\\'%' || $2::text".toList :=
  (binds_exactly_iff (by decide +kernel)).mpr (by decide +kernel)

/-- **A placeholder that stands against a word is not bound.** -/
theorem limit_not_bound :
    rewrite "SELECT id FROM t LIMIT%s".toList [.int8]
        = .ok "SELECT id FROM t LIMIT$1::int8".toList ∧
      ¬ BindsExactly "SELECT id FROM t LIMIT%s".toList [.int8]
        "SELECT id FROM t LIMIT$1::int8".toList := by
  refine ⟨by decide +kernel, fun hbinds => ?_⟩
  exact absurd hbinds.numbered (by decide +kernel)

end OdooKernel
