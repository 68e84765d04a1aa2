import OdooKernel.Access.PyFuel
import Mathlib.Data.String.Basic

/-!
# Python expressions as they are written

An expression has many texts: either quote, escapes, brackets or parentheses, a comma behind the last
item, parentheses around an operand, white space and comments between the tokens.  They are said as a
relation between expressions and texts, which knows nothing of the reader.

**Gaps.**  White space and comments may stand between all the tokens of Python.  The reader does not
allow for them everywhere: a signed number, a chain of names and the name of a call with its
parenthesis have to stand together.  The relation has both readings (`Inner`): the one of Python, and
the narrower one that is read back.

**Phrases.**  What is written is an expression, an operand, the items of a sequence or the segments
of a chain (`Phrase`), one for each part of the reader, so that the round trip is an induction on the
relation.

* `Gap`, `Quoted` — white space and comments; a text between quotes.
* `Renders`, `RendersText` — the texts of an expression.
* `skipWs_gap`, `parseString_quoted`, `numberText_digits`, `identifier_continues` — how the pieces of
  a text are read.
* `Stops.head`, `name_start` — what operands start with and what may follow them.
-/

namespace OdooKernel

/-! ## What is written -/

/-- White space and comments. -/
inductive Gap : List Char → Prop where
  | nil : Gap []
  | blank {c : Char} {g : List Char} : isWhitespace c = true → Gap g → Gap (c :: g)
  | comment {body g : List Char} : '\n' ∉ body → Gap g → Gap ('#' :: body ++ '\n' :: g)

/-- A text between quotes, as it is written. -/
inductive Quoted (quote : Char) : List Char → List Char → Prop where
  | nil : Quoted quote [] []
  | plain {c : Char} {s w : List Char} : c ≠ quote → c ≠ '\\' → Quoted quote s w →
      Quoted quote (c :: s) (c :: w)
  | newline {s w : List Char} : Quoted quote s w → Quoted quote ('\n' :: s) ('\\' :: 'n' :: w)
  | tab {s w : List Char} : Quoted quote s w → Quoted quote ('\t' :: s) ('\\' :: 't' :: w)
  | carriage {s w : List Char} : Quoted quote s w → Quoted quote ('\r' :: s) ('\\' :: 'r' :: w)
  | escaped {c : Char} {s w : List Char} : c = '\\' ∨ c = '\'' ∨ c = '"' → Quoted quote s w →
      Quoted quote (c :: s) ('\\' :: c :: w)

/-- The characters of identifiers behind the first. -/
def CharClass.continues (cls : CharClass) (c : Char) : Bool :=
  cls.isAlphabetic c || cls.isNumeric c || c = '_'

/-- An identifier. -/
def CharClass.Identifier (cls : CharClass) (name : String) : Prop :=
  ∃ c cs, name.toList = c :: cs ∧ (cls.isAlphabetic c = true ∨ c = '_') ∧
    ∀ d ∈ cs, cls.continues d = true

/-- What may stand between the parts of a token that Python takes apart: nothing, or a gap where
the tokens of Python are. -/
def Inner (spaced : Bool) (g : List Char) : Prop := g = [] ∨ spaced = true ∧ Gap g

/-- What is written: an expression, an operand, the items of a sequence and whether a comma is
among them, or the segments of a chain. -/
inductive Phrase where
  | expr (e : PyExpr)
  | atom (e : PyExpr)
  | items (es : List PyExpr) (comma : Bool)
  | chain (names : List String)

/-- The names that are literals. -/
def literalNames : List String := ["True", "False", "None"]

/-- **The texts of an expression.**  `spaced` tells that gaps may stand between all the tokens of
Python; otherwise a signed number, a chain and the name of a call with its parenthesis are one
token each. -/
inductive Renders (cls : CharClass) (spaced : Bool) : Phrase → List Char → Prop where
  | str {quote : Char} {s : String} {w : List Char} : quote = '\'' ∨ quote = '"' →
      Quoted quote s.toList w → Renders cls spaced (.atom (.Str s)) (quote :: w ++ [quote])
  | int {ds : List Char} : ds ≠ [] → (∀ d ∈ ds, d.isDigit = true) → digitsValue ds < 2 ^ 63 →
      Renders cls spaced (.atom (.Int (digitsValue ds))) ds
  | negative {g ds : List Char} : Inner spaced g → ds ≠ [] → (∀ d ∈ ds, d.isDigit = true) →
      digitsValue ds ≤ 2 ^ 63 →
      Renders cls spaced (.atom (.Int (-(digitsValue ds : ℤ)))) ('-' :: g ++ ds)
  | trueLiteral : Renders cls spaced (.atom (.Bool true)) "True".toList
  | falseLiteral : Renders cls spaced (.atom (.Bool false)) "False".toList
  | noneLiteral : Renders cls spaced (.atom .None) "None".toList
  | name {n : String} {names : List String} {w : List Char} : n ∉ literalNames →
      Renders cls spaced (.chain (n :: names)) w →
      Renders cls spaced (.atom (.Name (n :: names))) w
  | ref {xmlid : String} {g g' g'' w : List Char} : Inner spaced g → Gap g' →
      Renders cls spaced (.expr (.Str xmlid)) w → Gap g'' →
      Renders cls spaced (.atom (.Ref xmlid))
        ("ref".toList ++ (g ++ '(' :: (g' ++ (w ++ (g'' ++ [')'])))))
  | group {e : PyExpr} {g g' w : List Char} : Gap g → Renders cls spaced (.expr e) w → Gap g' →
      Renders cls spaced (.atom e) ('(' :: (g ++ (w ++ (g' ++ [')']))))
  | list {es : List PyExpr} {comma : Bool} {w : List Char} :
      Renders cls spaced (.items es comma) w →
      Renders cls spaced (.atom (.Seq es)) ('[' :: (w ++ [']']))
  | tuple {es : List PyExpr} {comma : Bool} {w : List Char} :
      Renders cls spaced (.items es comma) w → comma = true ∨ es = [] →
      Renders cls spaced (.atom (.Seq es)) ('(' :: (w ++ [')']))
  | single {e : PyExpr} {w : List Char} : Renders cls spaced (.atom e) w →
      Renders cls spaced (.expr e) w
  | add {a b : PyExpr} {w w' g g' : List Char} : Renders cls spaced (.expr a) w → Gap g → Gap g' →
      Renders cls spaced (.atom b) w' →
      Renders cls spaced (.expr (.Add a b)) (w ++ (g ++ '+' :: (g' ++ w')))
  | noItem {g : List Char} : Gap g → Renders cls spaced (.items [] false) g
  | lastItem {e : PyExpr} {g w g' : List Char} : Gap g → Renders cls spaced (.expr e) w → Gap g' →
      Renders cls spaced (.items [e] false) (g ++ (w ++ g'))
  | nextItem {e : PyExpr} {es : List PyExpr} {comma : Bool} {g w g' w' : List Char} : Gap g →
      Renders cls spaced (.expr e) w → Gap g' → Renders cls spaced (.items es comma) w' →
      Renders cls spaced (.items (e :: es) true) (g ++ (w ++ (g' ++ ',' :: w')))
  | plainName {n : String} : cls.Identifier n → Renders cls spaced (.chain [n]) n.toList
  | mappedName {fields : List String} {g g' g'' w : List Char} : fields ≠ [] →
      (∀ f ∈ fields, '.' ∉ f.toList) → Inner spaced g → Gap g' →
      Renders cls spaced (.expr (.Str (joinDots fields))) w → Gap g'' →
      Renders cls spaced (.chain (fields.map ("*" ++ ·)))
        ("mapped".toList ++ (g ++ '(' :: (g' ++ (w ++ (g'' ++ [')'])))))
  | dotted {ns ns' : List String} {g g' w w' : List Char} : Renders cls spaced (.chain ns) w →
      Inner spaced g → Inner spaced g' → Renders cls spaced (.chain ns') w' →
      Renders cls spaced (.chain (ns ++ ns')) (w ++ (g ++ '.' :: (g' ++ w')))

/-- A whole text: an expression between gaps, the last of which may be a comment that no line
ends. -/
inductive RendersText (cls : CharClass) (spaced : Bool) (e : PyExpr) : List Char → Prop where
  | closed {g w g' : List Char} : Gap g → Renders cls spaced (.expr e) w → Gap g' →
      RendersText cls spaced e (g ++ (w ++ g'))
  | commented {g w g' body : List Char} : Gap g → Renders cls spaced (.expr e) w → Gap g' →
      '\n' ∉ body → RendersText cls spaced e (g ++ (w ++ (g' ++ '#' :: body)))

/-- What the standard library knows of characters: those of ASCII are as they are there, and no
white space belongs to an identifier. -/
structure CharClass.Unicode (cls : CharClass) : Prop where
  alphabetic_ascii : ∀ c : Char, c.toNat < 128 → cls.isAlphabetic c = c.isAlpha
  numeric_ascii : ∀ c : Char, c.toNat < 128 → cls.isNumeric c = c.isDigit
  whitespace : ∀ c, isWhitespace c = true →
    cls.isAlphabetic c = false ∧ cls.isNumeric c = false

/-! ## Gaps and quoted texts -/

lemma skipWs_body {body : List Char} (h : '\n' ∉ body) (rest : List Char) :
    skipWs true (body ++ '\n' :: rest) = skipWs false rest := by
  induction body with
  | nil => rfl
  | cons c body ih =>
      rw [List.mem_cons, not_or] at h
      have hc : (decide (c ≠ '\n')) = true := by simpa using Ne.symm h.1
      rw [List.cons_append, skipWs, if_pos rfl, hc]
      exact ih h.2

/-- A gap is skipped. -/
lemma skipWs_gap {g : List Char} (h : Gap g) (rest : List Char) :
    skipWs false (g ++ rest) = skipWs false rest := by
  induction h with
  | nil => rfl
  | @blank c g hc _ ih =>
      rw [List.cons_append, skipWs, if_neg Bool.false_ne_true, if_pos hc]
      exact ih
  | @comment body g hbody _ ih =>
      have hhash : isWhitespace '#' = false := by decide
      rw [List.append_assoc, List.cons_append, List.cons_append, skipWs,
        if_neg Bool.false_ne_true, if_neg (by rw [hhash]; exact Bool.false_ne_true), if_pos rfl,
        skipWs_body hbody]
      exact ih

lemma skipWs_comment {body : List Char} (h : '\n' ∉ body) : skipWs true body = [] := by
  induction body with
  | nil => rfl
  | cons c body ih =>
      rw [List.mem_cons, not_or] at h
      have hc : (decide (c ≠ '\n')) = true := by simpa using Ne.symm h.1
      rw [skipWs, if_pos rfl, hc]
      exact ih h.2

/-- A character that no gap starts with. -/
def startsToken (c : Char) : Bool := !isWhitespace c && c ≠ '#'

lemma skipWs_token {c : Char} (h : startsToken c = true) (cs : List Char) :
    skipWs false (c :: cs) = c :: cs := by
  simp only [startsToken, Bool.and_eq_true, Bool.not_eq_true', decide_eq_true_eq] at h
  rw [skipWs, if_neg Bool.false_ne_true, if_neg (by rw [h.1]; exact Bool.false_ne_true),
    if_neg h.2]

lemma parseString_inside (quote : Char) (acc : List Char) (x : Char) (cs : List Char) :
    parseString quote false acc (x :: cs)
      = if x = '\\' then parseString quote true acc cs
        else if x = quote then .ok (String.ofList acc, cs)
        else parseString quote false (acc ++ [x]) cs := rfl

/-- A character behind a backslash, and what it stands for. -/
lemma parseString_escape {quote c y : Char} (h : (c, y) ∈ [('\n', 'n'), ('\t', 't'), ('\r', 'r'),
    ('\\', '\\'), ('\'', '\''), ('"', '"')]) (acc cs : List Char) :
    parseString quote false acc ('\\' :: y :: cs) = parseString quote false (acc ++ [c]) cs := by
  rw [parseString_inside, if_pos rfl]
  simp only [List.mem_cons, Prod.mk.injEq, List.not_mem_nil, or_false] at h
  rcases h with ⟨rfl, rfl⟩ | ⟨rfl, rfl⟩ | ⟨rfl, rfl⟩ | ⟨rfl, rfl⟩ | ⟨rfl, rfl⟩ | ⟨rfl, rfl⟩
  · rfl
  · rfl
  · rfl
  · rfl
  · rfl
  · rfl

/-- A quoted text is read up to its quote. -/
lemma parseString_quoted {quote : Char} (hquote : quote ≠ '\\') {s w : List Char}
    (h : Quoted quote s w) (rest : List Char) : ∀ acc,
    parseString quote false acc (w ++ quote :: rest) = .ok (String.ofList (acc ++ s), rest) := by
  have hjoin : ∀ (acc : List Char) (c : Char) (s : List Char), acc ++ [c] ++ s = acc ++ c :: s :=
    fun acc c s => by rw [List.append_assoc, List.singleton_append]
  induction h with
  | nil =>
      intro acc
      rw [List.nil_append, parseString_inside, if_neg hquote, if_pos rfl, List.append_nil]
  | @plain c s w hc hslash _ ih =>
      intro acc
      rw [List.cons_append, parseString_inside, if_neg hslash, if_neg hc, ih, hjoin]
  | @newline s w _ ih =>
      intro acc
      rw [List.cons_append, List.cons_append, parseString_escape (c := '\n') (by simp), ih, hjoin]
  | @tab s w _ ih =>
      intro acc
      rw [List.cons_append, List.cons_append, parseString_escape (c := '\t') (by simp), ih, hjoin]
  | @carriage s w _ ih =>
      intro acc
      rw [List.cons_append, List.cons_append, parseString_escape (c := '\r') (by simp), ih, hjoin]
  | @escaped c s w hc _ ih =>
      intro acc
      have hmem : (c, c) ∈ [('\n', 'n'), ('\t', 't'), ('\r', 'r'), ('\\', '\\'), ('\'', '\''),
          ('"', '"')] := by
        rcases hc with rfl | rfl | rfl <;> simp
      rw [List.cons_append, List.cons_append, parseString_escape hmem, ih, hjoin]

/-! ## Numbers and names -/

/-- What may follow an operand. -/
def Stops (rest : List Char) : Prop :=
  ∀ c ∈ rest.head?, isWhitespace c = true ∨ c ∈ ['#', '+', ',', ')', ']']

lemma numberText_digits {ds : List Char} (hds : ∀ d ∈ ds, d.isDigit = true) {rest : List Char}
    (hrest : ∀ c ∈ rest.head?, c.isDigit = false ∧ c ≠ '.') :
    numberText false (ds ++ rest) = (ds, rest) := by
  induction ds with
  | nil =>
      cases rest with
      | nil => rfl
      | cons c rest =>
          obtain ⟨hdigit, hpoint⟩ := hrest c rfl
          rw [List.nil_append, numberText, if_neg (by rw [hdigit]; exact Bool.false_ne_true),
            if_neg fun h => hpoint h.1]
  | cons d ds ih =>
      rw [List.cons_append, numberText, if_pos (hds d List.mem_cons_self),
        ih fun d' hd' => hds d' (List.mem_cons_of_mem d hd')]

lemma identifier_continues {cls : CharClass} {cs rest : List Char}
    (hcs : ∀ c ∈ cs, cls.continues c = true)
    (hrest : ∀ c ∈ rest.head?, cls.continues c = false) :
    identifier cls (cs ++ rest) = (cs, rest) := by
  induction cs with
  | nil =>
      cases rest with
      | nil => rfl
      | cons c rest =>
          have hc := hrest c rfl
          rw [CharClass.continues] at hc
          rw [List.nil_append, identifier, hc]
          rfl
  | cons c cs ih =>
      have hc := hcs c List.mem_cons_self
      rw [CharClass.continues] at hc
      rw [List.cons_append, identifier, hc, ih fun d hd => hcs d (List.mem_cons_of_mem c hd)]
      rfl

/-! ## The fields of a segment -/

section Splitting

open String

/-- The pieces between points, from a place of the text on. -/
lemma splitOnAux_dot (l m r : List Char) (acc : List String) :
    splitOnAux (ofList (l ++ m ++ r)) "." ⟨utf8Len l⟩ ⟨utf8Len l + utf8Len m⟩ 0 acc
      = acc.reverse ++ (List.splitOnPPrepend (· == '.') r m.reverse).map ofList := by
  unfold splitOnAux
  simp only [List.append_assoc, atEnd_iff, rawEndPos_ofList, utf8Len_append, Pos.Raw.mk_le_mk,
    Nat.add_le_add_iff_left, (by omega : utf8Len m + utf8Len r ≤ utf8Len m ↔ utf8Len r = 0),
    utf8Len_eq_zero, List.reverse_cons]
  split
  · subst r
    simpa using extract_of_valid l m []
  · obtain ⟨c, r, rfl⟩ := r.exists_cons_of_ne_nil ‹_›
    have hget : Pos.Raw.get "." 0 = '.' := by decide
    have hnext : Pos.Raw.next "." 0 = ⟨1⟩ := by decide
    have hend : String.rawEndPos "." = ⟨1⟩ := by decide
    have hzero (p : Pos.Raw) : p.unoffsetBy 0 = p := by rfl
    have hat := get_of_valid (l ++ m) (c :: r)
    have hbehind := next_of_valid (l ++ m) c r
    have hpiece := extract_of_valid l m (c :: r)
    simp only [List.append_assoc, utf8Len_append, List.headD_cons] at hat hbehind hpiece
    simp only [hget, hnext, hend, hzero, hat, hbehind]
    split <;> rename_i h
    · -- a point: the piece before it is done
      obtain rfl : c = '.' := by simpa using h
      have hstep := splitOnAux_dot (l ++ m ++ ['.']) [] r (ofList m :: acc)
      have hsize : Char.utf8Size '.' = 1 := by decide
      simp [hsize] at hstep hpiece
      simpa [hsize, Pos.Raw.unoffsetBy, hpiece, List.splitOnPPrepend_cons_eq_if, Nat.add_assoc]
        using hstep
    · simpa [List.splitOnPPrepend_cons_eq_if, h, Nat.add_assoc] using
        splitOnAux_dot l (m ++ [c]) r acc

lemma splitOn_eq_splitDots (s : String) : s.splitOn "." = splitDots s := by
  have hall := splitOnAux_dot [] [] s.toList []
  have hne : (("." : String) == "") = false := by decide
  simpa [String.splitOn, splitDots, hne, List.splitOn_eq_splitOnP] using hall

end Splitting

/-- The fields between the points of a segment. -/
lemma splitDots_joinDots {fields : List String} (hne : fields ≠ [])
    (hdots : ∀ f ∈ fields, '.' ∉ f.toList) : splitDots (joinDots fields) = fields := by
  rw [splitDots, joinDots, String.toList_ofList, List.splitOn_intercalate]
  · rw [List.map_map]
    exact List.map_id'' (fun f => String.ofList_toList) fields
  · intro l hl
    obtain ⟨f, hf, rfl⟩ := List.mem_map.mp hl
    exact hdots f hf
  · simpa using hne

/-! ## What operands start and end with -/

lemma isDigit_of_isWhitespace {c : Char} (h : isWhitespace c = true) : c.isDigit = false := by
  rw [Bool.eq_false_iff]
  intro hdigit
  rw [isDigit_iff] at hdigit
  simp only [isWhitespace, Bool.or_eq_true, Bool.and_eq_true, decide_eq_true_eq] at h
  omega

lemma isAlpha_of_isDigit {c : Char} (h : c.isDigit = true) : c.isAlpha = false := by
  rw [isDigit_iff] at h
  rw [Bool.eq_false_iff]
  intro halpha
  rw [isAlpha_iff] at halpha
  omega

section Characters

variable {cls : CharClass} (hcls : cls.Unicode)

include hcls

/-- A character of ASCII that is no letter, no digit and no `_` belongs to no identifier. -/
lemma continues_ascii {c : Char} (hc : c.toNat < 128) (halpha : c.isAlpha = false)
    (hdigit : c.isDigit = false) (hunder : c ≠ '_') : cls.continues c = false := by
  rw [CharClass.continues, hcls.alphabetic_ascii c hc, hcls.numeric_ascii c hc, halpha, hdigit]
  simpa using hunder

/-- What may follow an operand goes on no number and no name. -/
lemma Stops.head {rest : List Char} (h : Stops rest) {c : Char} (hc : c ∈ rest.head?) :
    (c.isDigit = false ∧ c ≠ '.') ∧ cls.continues c = false ∧ c ≠ '(' := by
  rcases h c hc with hblank | hmark
  · have hne : ∀ d, isWhitespace d = false → c ≠ d := by
      rintro d hd rfl
      rw [hblank] at hd
      exact absurd hd (by decide)
    refine ⟨⟨isDigit_of_isWhitespace hblank, hne _ (by decide)⟩, ?_, hne _ (by decide)⟩
    obtain ⟨halpha, hnumeric⟩ := hcls.whitespace c hblank
    rw [CharClass.continues, halpha, hnumeric]
    simpa using hne '_' (by decide)
  · simp only [List.mem_cons, List.not_mem_nil, or_false] at hmark
    rcases hmark with rfl | rfl | rfl | rfl | rfl
    · exact ⟨by decide, continues_ascii hcls (by decide) (by decide) (by decide) (by decide),
        by decide⟩
    · exact ⟨by decide, continues_ascii hcls (by decide) (by decide) (by decide) (by decide),
        by decide⟩
    · exact ⟨by decide, continues_ascii hcls (by decide) (by decide) (by decide) (by decide),
        by decide⟩
    · exact ⟨by decide, continues_ascii hcls (by decide) (by decide) (by decide) (by decide),
        by decide⟩
    · exact ⟨by decide, continues_ascii hcls (by decide) (by decide) (by decide) (by decide),
        by decide⟩

/-- What a name starts with is no other token. -/
lemma name_start {c : Char} (h : cls.isAlphabetic c = true ∨ c = '_') :
    startsToken c = true ∧ c.isDigit = false ∧
      c ∉ ['[', '(', '\'', '"', '-', ')', ']', '+', ','] := by
  rcases h with halpha | rfl
  · have hne : ∀ d : Char, d.toNat < 128 → d.isAlpha = false → c ≠ d := by
      rintro d hd hdalpha rfl
      rw [hcls.alphabetic_ascii c hd, hdalpha] at halpha
      exact absurd halpha (by decide)
    refine ⟨?_, ?_, ?_⟩
    · have hblank : isWhitespace c = false := by
        rw [Bool.eq_false_iff]
        intro hblank
        rw [(hcls.whitespace c hblank).1] at halpha
        exact absurd halpha (by decide)
      rw [startsToken, hblank]
      simpa using hne '#' (by decide) (by decide)
    · rw [Bool.eq_false_iff]
      intro hdigit
      exact hne c (by have := (isDigit_iff c).mp hdigit; omega) (isAlpha_of_isDigit hdigit) rfl
    · simp only [List.mem_cons, List.not_mem_nil, or_false, not_or]
      exact ⟨hne _ (by decide) (by decide), hne _ (by decide) (by decide),
        hne _ (by decide) (by decide), hne _ (by decide) (by decide),
        hne _ (by decide) (by decide), hne _ (by decide) (by decide),
        hne _ (by decide) (by decide), hne _ (by decide) (by decide),
        hne _ (by decide) (by decide)⟩
  · decide

end Characters

lemma stops_gap {g : List Char} (h : Gap g) {c : Char} (hc : c ∈ ['#', '+', ',', ')', ']'])
    (rest : List Char) : Stops (g ++ c :: rest) := by
  intro d hd
  cases h with
  | nil =>
      obtain rfl := Option.some.inj hd
      exact Or.inr hc
  | blank hblank _ =>
      obtain rfl := Option.some.inj hd
      exact Or.inl hblank
  | comment _ _ =>
      obtain rfl := Option.some.inj hd
      exact Or.inr (by decide)

lemma stops_of_gap {g : List Char} (h : Gap g) : Stops g := by
  intro d hd
  cases h with
  | nil => exact absurd hd (by simp)
  | blank hblank _ =>
      obtain rfl := Option.some.inj hd
      exact Or.inl hblank
  | comment _ _ =>
      obtain rfl := Option.some.inj hd
      exact Or.inr (by decide)

end OdooKernel
