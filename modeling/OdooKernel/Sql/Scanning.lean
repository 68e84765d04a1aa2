import OdooKernel.Core.Loop
import OdooKernel.Cursor.Keywords
import OdooKernel.Sql.Bytes
import OdooKernel.Sql.Fragment

/-!
# The loops over the bytes of SQL

Each caller of the lexer goes through the bytes of a text, leaves out the regions or copies them, and
cuts the text at the offsets it gets to.  A cut inside a character would fail, as slicing a string
does, and a turn that does not advance would go on for ever.

**Turns.**  The body of a loop is a function from its state to a `Turn`: on with a new state, done
with a result, or a failure.  There is no bound on the turns, and none is assumed: a loop returns
where every turn keeps an invariant, does not fail, and leaves less to do (`returns_of_measure`).

**The invariant** is that the offset is one between two characters.  The lexer keeps it because a
region ends behind a character of ASCII or at the end of the text, and the other cuts because they
are made at bytes of ASCII or behind a whole character.  The search for a keyword cuts nothing and
needs none.

* `leadingKeywordTurn`, `keywordsTurn`, `bareKeywordTurn`, `rewriteTurn`, `dialectTurn` — the bodies.
* **`loops_return`** — the lexer advances on boundaries, and the loops return on every text; what
  they return is in `Sql/Turns`.
-/

namespace OdooKernel

namespace Bytes

/-! ## The bodies -/

def isAsciiWhitespace (b : UInt8) : Bool :=
  ([' ', '\t', '\n', '\x0C', '\r'].map Char.toUInt8).contains b

def asciiLower (b : UInt8) : UInt8 :=
  if 'A'.toUInt8 ≤ b ∧ b ≤ 'Z'.toUInt8 then b + 32 else b

def skipOpaque (bytes : List UInt8) (i : ℕ) : Option ℕ := (opaque? bytes i).map Region.stop

/-- The word at an offset, in capitals. -/
def cutKeyword (sql : List Char) (start : ℕ) : Turn ℕ (List Char) :=
  match slice? sql start (runEnd (utf8 sql) isIdentByte start) with
  | some word => .done (asciiUpper word)
  | none => .fails

/-- `leading_keyword`. -/
def leadingKeywordTurn (sql : List Char) (i : ℕ) : Turn ℕ (List Char) :=
  match (utf8 sql)[i]? with
  | none => cutKeyword sql i
  | some b =>
    if isAsciiWhitespace b || b = '('.toUInt8 then .again (i + 1)
    else
      match skipOpaque (utf8 sql) i with
      | none => cutKeyword sql i
      | some stop =>
        if b = '-'.toUInt8 ∨ b = '/'.toUInt8 then .again stop else cutKeyword sql i

/-- The words so far, the depth, the depth of the first word, and the offset. -/
structure Levels where
  words : List (List Char)
  depth : ℕ
  level : Option ℕ
  i : ℕ

/-- `statement_level_keywords`. -/
def keywordsTurn (sql : List Char) (s : Levels) : Turn Levels (List (List Char)) :=
  match (utf8 sql)[s.i]? with
  | none => .done s.words
  | some b =>
    match skipOpaque (utf8 sql) s.i with
    | some stop => .again { s with i := stop }
    | none =>
      if b = '('.toUInt8 then .again { s with depth := s.depth + 1, i := s.i + 1 }
      else if b = ')'.toUInt8 then .again { s with depth := s.depth - 1, i := s.i + 1 }
      else if isIdentByte b then
        let stop := runEnd (utf8 sql) isIdentByte s.i
        let level := s.level.getD s.depth
        if s.depth = level then
          match slice? sql s.i stop with
          | some word =>
            .again { s with words := s.words ++ [asciiUpper word], level := some level, i := stop }
          | none => .fails
        else .again { s with level := some level, i := stop }
      else .again { s with i := s.i + 1 }

/-- `has_bare_keyword`. -/
def bareKeywordTurn (bytes keyword : List UInt8) (i : ℕ) : Turn ℕ Bool :=
  match bytes[i]? with
  | none => .done false
  | some _ =>
    match skipOpaque bytes i with
    | some stop => .again stop
    | none =>
      let rest := bytes.drop i
      if keyword.length ≤ rest.length ∧
          (rest.take keyword.length).map asciiLower = keyword.map asciiLower ∧
          ¬ afterIdent bytes i ∧ ¬ bytes[i + keyword.length]?.any isIdentByte then .done true
      else .again (i + 1)

/-- The text so far, the parameters that are used, and the offset. -/
structure Rewriting where
  out : List Char
  used : ℕ
  i : ℕ

/-- `rewrite`. -/
def rewriteTurn (code : List Char) (casts : List Cast) (s : Rewriting) :
    Turn Rewriting (Result (List Char)) :=
  match (utf8 code)[s.i]? with
  | none =>
    .done (if s.used = casts.length then .ok s.out
      else refuse s!"a SQL comparand has {s.used} placeholder(s) for {casts.length} parameter(s)")
  | some _ =>
    match opaque? (utf8 code) s.i with
    | some token =>
      if token.terminated = false then
        .done (refuse "a SQL comparand has an unterminated quoted text or comment")
      else if token.kind = .comment then .again { s with out := s.out ++ [' '], i := token.stop }
      else if token.kind = .dollarString then
        .done (refuse "a SQL comparand uses dollar quoting")
      else
        match slice? code s.i token.stop with
        | none => .fails
        | some inside =>
          match unquoted inside with
          | .error e => .done (.error e)
          | .ok inside => .again { s with out := s.out ++ inside, i := token.stop }
    | none =>
      match fromOffset code s.i with
      | none | some [] => .fails
      | some (c :: _) =>
        let i := s.i + c.utf8Size
        if c = '%' then
          if (utf8 code)[i]? = some '%'.toUInt8 then
            .again { s with out := s.out ++ ['%'], i := i + 1 }
          else if (utf8 code)[i]? = some 's'.toUInt8 then
            match casts[s.used]? with
            | none =>
              .done (refuse
                s!"a SQL comparand has more placeholders than its {casts.length} parameter(s)")
            | some kind =>
              .again { out := s.out ++ boundText (s.used + 1) kind, used := s.used + 1, i := i + 1 }
          else .done (refuse "a SQL comparand has a % that is neither %s nor %%")
        else if c = '$' then
          .done (refuse "a SQL comparand uses a dollar sign outside a placeholder")
        else if c = ';' then .done (refuse "a SQL comparand holds more than one statement")
        else .again { s with out := s.out ++ [c], i }

/-- The text and the parameters so far, and the offset. -/
structure Converting where
  out : List Char
  params : List Json
  i : ℕ

/-- `to_odoo_dialect`. -/
def dialectTurn (sql : List Char) (values : List BoundValue) (s : Converting) :
    Turn Converting (Result (List Char × List Json)) :=
  match (utf8 sql)[s.i]? with
  | none => .done (.ok (s.out, s.params))
  | some _ =>
    match opaque? (utf8 sql) s.i with
    | some token =>
      if token.terminated = false then
        .done (refuse s!"unterminated quoted text or comment in rendered SQL: {String.ofList sql}")
      else
        match slice? sql s.i token.stop with
        | none => .fails
        | some part => .again { s with out := s.out ++ doubled part, i := token.stop }
    | none =>
      match fromOffset sql s.i with
      | none | some [] => .fails
      | some (c :: _) =>
        let i := s.i + c.utf8Size
        if c = '%' then .again { s with out := s.out ++ ['%', '%'], i }
        else if c = '$' ∧ ¬ afterIdent (utf8 sql) s.i ∧ (utf8 sql)[i]?.any isAsciiDigit then
          let stop := runEnd (utf8 sql) isAsciiDigit i
          match slice? sql i stop with
          | none => .fails
          | some digits =>
            match dialectOf sql values (.bound digits) with
            | .error e => .done (.error e)
            | .ok (text, param) =>
              .again { out := s.out ++ text, params := s.params ++ param, i := stop }
        else .again { s with out := s.out ++ [c], i }

/-! ## Offsets between two characters -/

section Offsets

variable {text : List Char} {i : ℕ} {b : UInt8}

/-- A byte that is none of an identifier is one of ASCII. -/
lemma ascii_of_isIdentByte (h : isIdentByte b = false) : b < 0x80 := by
  simp only [isIdentByte, Bool.or_eq_false_iff, decide_eq_false_iff_not] at h
  exact UInt8.not_le.mp h.2

lemma ascii_of_isAsciiDigit (h : isAsciiDigit b = true) : b < 0x80 := by
  simp only [isAsciiDigit, Bool.and_eq_true, decide_eq_true_eq] at h
  exact UInt8.lt_of_le_of_lt h.2 (by decide)

lemma ascii_of_isAsciiWhitespace (h : isAsciiWhitespace b = true) : b < 0x80 := by
  simp only [isAsciiWhitespace, List.contains_iff_mem, List.map_cons, List.map_nil, List.mem_cons,
    List.not_mem_nil, or_false] at h
  rcases h with rfl | rfl | rfl | rfl | rfl <;> decide

/-- What stands behind a run does not belong to it. -/
lemma runEnd_stop {bytes : List UInt8} {p : UInt8 → Bool} (h : bytes[runEnd bytes p i]? = some b) :
    p b = false := by
  rw [runEnd, ← List.getElem?_drop] at h
  obtain ⟨xs, rest, hsplit, hxs, hrest⟩ := exists_span p (bytes.drop i)
  rw [hsplit, (span_append hxs hrest).1, List.getElem?_append_right (Nat.le_refl _),
    Nat.sub_self] at h
  exact hrest b (by rw [List.head?_eq_getElem?]; exact h)

/-- A run that starts ends behind one of its bytes. -/
lemma lt_runEnd {bytes : List UInt8} {p : UInt8 → Bool} (h : bytes[i]? = some b) (hb : p b = true) :
    i < runEnd bytes p i ∧ ∃ d, bytes[runEnd bytes p i - 1]? = some d ∧ p d = true := by
  obtain ⟨xs, rest, hsplit, hxs, hrest⟩ := exists_span p (bytes.drop i)
  have hfirst : (xs ++ rest).head? = some b := by
    rw [← hsplit, List.head?_drop, h]
  have hstop : runEnd bytes p i = i + xs.length := by
    rw [runEnd, hsplit, (span_append hxs hrest).1]
  rcases List.eq_nil_or_concat xs with rfl | ⟨ys, d, rfl⟩
  · rw [hrest b hfirst] at hb
    cases hb
  · have hbyte : bytes[i + ys.length]? = some d := by
      rw [← List.getElem?_drop, hsplit]
      simp
    rw [hstop]
    refine ⟨by simp, d, ?_, hxs d (by simp)⟩
    simpa using hbyte

/-- Behind the bytes of an identifier there is a boundary. -/
lemma isCharBoundary_runEnd (hi : i ≤ (utf8 text).length) :
    IsCharBoundary text (runEnd (utf8 text) isIdentByte i) := by
  cases hstop : (utf8 text)[runEnd (utf8 text) isIdentByte i]? with
  | none =>
      have hend := List.getElem?_eq_none_iff.mp hstop
      have hle := (@runEnd_le (utf8 text) isIdentByte i hi).2
      exact isCharBoundary_iff.mpr (.inr (.inl (by omega)))
  | some b => exact (ascii_boundary hstop (ascii_of_isIdentByte (runEnd_stop hstop))).1

/-- Behind the digits there is a boundary. -/
lemma isCharBoundary_digits (h : (utf8 text)[i]? = some b) (hb : isAsciiDigit b = true) :
    IsCharBoundary text (runEnd (utf8 text) isAsciiDigit i) := by
  obtain ⟨hlt, d, hd, hdigit⟩ := lt_runEnd h hb
  have hboundary := (ascii_boundary hd (ascii_of_isAsciiDigit hdigit)).2
  rwa [Nat.sub_add_cancel (by omega)] at hboundary

lemma isCharBoundary_zero (text : List Char) : IsCharBoundary text 0 := by
  rw [IsCharBoundary, fromOffset_zero]
  rfl

/-- Behind the character at a boundary there is another. -/
lemma isCharBoundary_next {c : Char} {rest : List Char} (h : fromOffset text i = some (c :: rest)) :
    IsCharBoundary text (i + c.utf8Size) ∧ i + c.utf8Size ≤ (utf8 text).length := by
  obtain ⟨before, rfl, rfl⟩ := fromOffset_eq_some.mp h
  have hnext : fromOffset (before ++ c :: rest) ((utf8 before).length + c.utf8Size) = some rest := by
    refine fromOffset_eq_some.mpr ⟨before ++ [c], by simp, ?_⟩
    rw [utf8_append, List.length_append, length_utf8_cons]
    simp [utf8]
  refine ⟨by rw [IsCharBoundary, hnext]; rfl, ?_⟩
  have := length_le_of_fromOffset hnext
  omega

/-- Where there is a byte at a boundary a character starts. -/
lemma exists_char (hi : IsCharBoundary text i) (h : (utf8 text)[i]? = some b) :
    ∃ c rest, fromOffset text i = some (c :: rest) := by
  obtain ⟨rest, hrest⟩ := Option.isSome_iff_exists.mp hi
  obtain ⟨hlt, _⟩ := List.getElem?_eq_some_iff.mp h
  cases rest with
  | nil =>
      have hlength : i + 0 = (utf8 text).length := length_le_of_fromOffset hrest
      omega
  | cons c rest => exact ⟨c, rest, hrest⟩

end Offsets

/-! ## The turns -/

section Turns

variable {sql : List Char} {i : ℕ}

/-- What is left behind an offset. -/
def remaining (sql : List Char) (i : ℕ) : ℕ := (utf8 sql).length - i

/-- An offset further on in a text leaves less of it. -/
lemma remaining_lt {j : ℕ} (hij : i < j) (hj : j ≤ (utf8 sql).length) :
    remaining sql j < remaining sql i := by
  unfold remaining
  omega

/-- Behind a region there is a boundary, further on. -/
lemma opaque_progress {token : Region} (h : opaque? (utf8 sql) i = some token) :
    IsCharBoundary sql token.stop ∧ remaining sql token.stop < remaining sql i :=
  ⟨isCharBoundary_stop h, remaining_lt (advances_of_opaque? h).lt (advances_of_opaque? h).le⟩

lemma skipOpaque_progress {stop : ℕ} (h : skipOpaque (utf8 sql) i = some stop) :
    IsCharBoundary sql stop ∧ remaining sql stop < remaining sql i := by
  obtain ⟨token, htoken, rfl⟩ := Option.map_eq_some_iff.mp h
  exact opaque_progress htoken

/-- Behind a byte of ASCII there is a boundary, further on. -/
lemma ascii_progress {b : UInt8} (h : (utf8 sql)[i]? = some b) (hb : b < 0x80) :
    IsCharBoundary sql (i + 1) ∧ remaining sql (i + 1) < remaining sql i := by
  obtain ⟨hlt, _⟩ := List.getElem?_eq_some_iff.mp h
  exact ⟨(ascii_boundary h hb).2, remaining_lt (Nat.lt_succ_self i) hlt⟩

/-- Behind a character there is a boundary, further on. -/
lemma char_progress {c : Char} {rest : List Char} (h : fromOffset sql i = some (c :: rest)) :
    IsCharBoundary sql (i + c.utf8Size) ∧ remaining sql (i + c.utf8Size) < remaining sql i := by
  have hpos := c.utf8Size_pos
  exact ⟨(isCharBoundary_next h).1, remaining_lt (by omega) (isCharBoundary_next h).2⟩

/-- A word can be cut at a boundary. -/
lemma cutKeyword_progress {Inv : ℕ → Prop} {μ : ℕ → ℕ} (hi : IsCharBoundary sql i)
    (hle : i ≤ (utf8 sql).length) : Progress Inv μ i (cutKeyword sql i) := by
  obtain ⟨word, hword⟩ := Option.isSome_iff_exists.mp
    (isSome_slice? (runEnd_le hle).1 hi (isCharBoundary_runEnd hle))
  rw [cutKeyword, hword]
  trivial

lemma length_of_boundary (hi : IsCharBoundary sql i) : i ≤ (utf8 sql).length := by
  obtain ⟨rest, hrest⟩ := Option.isSome_iff_exists.mp hi
  have := length_le_of_fromOffset hrest
  omega

lemma leadingKeyword_progress (hi : IsCharBoundary sql i) :
    Progress (IsCharBoundary sql) (remaining sql) i (leadingKeywordTurn sql i) := by
  have hcut : Progress (IsCharBoundary sql) (remaining sql) i (cutKeyword sql i) :=
    cutKeyword_progress hi (length_of_boundary hi)
  unfold leadingKeywordTurn
  cases hb : (utf8 sql)[i]? with
  | none => exact hcut
  | some b =>
      simp only
      by_cases hblank : (isAsciiWhitespace b || decide (b = '('.toUInt8)) = true
      · rw [if_pos hblank]
        refine ascii_progress hb ?_
        rcases (Bool.or_eq_true _ _).mp hblank with hspace | hopening
        · exact ascii_of_isAsciiWhitespace hspace
        · rw [of_decide_eq_true hopening]
          decide
      · rw [if_neg hblank]
        cases hskip : skipOpaque (utf8 sql) i with
        | none => exact hcut
        | some stop =>
            simp only
            split_ifs
            · exact skipOpaque_progress hskip
            · exact hcut

lemma keywords_progress {s : Levels} (hi : IsCharBoundary sql s.i) :
    Progress (fun s => IsCharBoundary sql s.i) (fun s => remaining sql s.i) s (keywordsTurn sql s) := by
  unfold keywordsTurn
  cases hb : (utf8 sql)[s.i]? with
  | none => trivial
  | some b =>
      simp only
      cases hskip : skipOpaque (utf8 sql) s.i with
      | some stop => exact skipOpaque_progress hskip
      | none =>
          simp only
          split_ifs with hopening hclosing hident hlevel
          · exact ascii_progress hb (by rw [hopening]; decide)
          · exact ascii_progress hb (by rw [hclosing]; decide)
          · have hle := length_of_boundary hi
            have hstop := @isCharBoundary_runEnd sql s.i hle
            obtain ⟨word, hword⟩ := Option.isSome_iff_exists.mp
              (isSome_slice? (runEnd_le hle).1 hi hstop)
            rw [hword]
            exact ⟨hstop, remaining_lt (lt_runEnd hb hident).1 (runEnd_le hle).2⟩
          · have hle := length_of_boundary hi
            exact ⟨isCharBoundary_runEnd hle,
              remaining_lt (lt_runEnd hb hident).1 (runEnd_le hle).2⟩
          · exact ascii_progress hb (ascii_of_isIdentByte (by simpa using hident))

/-- A keyword is looked for at every byte. -/
lemma bareKeyword_progress (keyword : List UInt8) (i : ℕ) :
    Progress (fun _ => True) (remaining sql) i (bareKeywordTurn (utf8 sql) keyword i) := by
  unfold bareKeywordTurn
  cases hb : (utf8 sql)[i]? with
  | none => trivial
  | some b =>
      simp only
      cases hskip : skipOpaque (utf8 sql) i with
      | some stop => exact ⟨trivial, (skipOpaque_progress hskip).2⟩
      | none =>
          simp only
          split_ifs
          · trivial
          · obtain ⟨hlt, _⟩ := List.getElem?_eq_some_iff.mp hb
            exact ⟨trivial, remaining_lt (Nat.lt_succ_self i) hlt⟩

lemma rewrite_progress (casts : List Cast) {s : Rewriting} (hi : IsCharBoundary sql s.i) :
    Progress (fun s => IsCharBoundary sql s.i) (fun s => remaining sql s.i) s
      (rewriteTurn sql casts s) := by
  unfold rewriteTurn
  cases hb : (utf8 sql)[s.i]? with
  | none => trivial
  | some b =>
      simp only
      cases htoken : opaque? (utf8 sql) s.i with
      | some token =>
          obtain ⟨hstop, hless⟩ := opaque_progress htoken
          simp only
          split_ifs
          · trivial
          · exact ⟨hstop, hless⟩
          · trivial
          · obtain ⟨inside, hinside⟩ := Option.isSome_iff_exists.mp
              (isSome_slice? (advances_of_opaque? htoken).lt.le hi hstop)
            rw [hinside]
            simp only
            cases unquoted inside with
            | error e => trivial
            | ok inside => exact ⟨hstop, hless⟩
      | none =>
          obtain ⟨c, rest, hc⟩ := exists_char hi hb
          obtain ⟨hnext, hless⟩ := char_progress hc
          rw [hc]
          simp only
          -- behind a percent sign there is one byte more
          have hmore : ∀ d : UInt8, (utf8 sql)[s.i + c.utf8Size]? = some d → d < 0x80 →
              IsCharBoundary sql (s.i + c.utf8Size + 1) ∧
                remaining sql (s.i + c.utf8Size + 1) < remaining sql s.i := fun d hd hascii =>
            ⟨(ascii_progress hd hascii).1, Nat.lt_trans (ascii_progress hd hascii).2 hless⟩
          split_ifs with hpercent hdouble hparam
          · exact hmore _ hdouble (by decide)
          · cases casts[s.used]? with
            | none => trivial
            | some kind => exact hmore _ hparam (by decide)
          · trivial
          · trivial
          · trivial
          · exact ⟨hnext, hless⟩

lemma dialect_progress (values : List BoundValue) {s : Converting} (hi : IsCharBoundary sql s.i) :
    Progress (fun s => IsCharBoundary sql s.i) (fun s => remaining sql s.i) s
      (dialectTurn sql values s) := by
  unfold dialectTurn
  cases hb : (utf8 sql)[s.i]? with
  | none => trivial
  | some b =>
      simp only
      cases htoken : opaque? (utf8 sql) s.i with
      | some token =>
          obtain ⟨hstop, hless⟩ := opaque_progress htoken
          simp only
          split_ifs
          · trivial
          · obtain ⟨part, hpart⟩ := Option.isSome_iff_exists.mp
              (isSome_slice? (advances_of_opaque? htoken).lt.le hi hstop)
            rw [hpart]
            exact ⟨hstop, hless⟩
      | none =>
          obtain ⟨c, rest, hc⟩ := exists_char hi hb
          obtain ⟨hnext, hless⟩ := char_progress hc
          rw [hc]
          simp only
          split_ifs with hpercent hbound
          · exact ⟨hnext, hless⟩
          · obtain ⟨d, hd, hdigit⟩ := (Option.any_eq_true _ _).mp hbound.2.2
            have hstop := isCharBoundary_digits hd hdigit
            have hlater := (lt_runEnd hd hdigit).1
            obtain ⟨digits, hdigits⟩ := Option.isSome_iff_exists.mp
              (isSome_slice? hlater.le hnext hstop)
            rw [hdigits]
            simp only
            cases dialectOf sql values (.bound digits) with
            | error e => trivial
            | ok converted =>
                exact ⟨hstop, Nat.lt_trans (remaining_lt hlater (length_of_boundary hstop)) hless⟩
          · exact ⟨hnext, hless⟩

end Turns

/-- **The lexer advances on character boundaries**, and the loops over the bytes return on every
text. -/
theorem loops_return (text : List Char) :
    (∀ i, IsCharBoundary text i → ∀ token, opaque? (utf8 text) i = some token →
      i < token.stop ∧ token.stop ≤ (utf8 text).length ∧ IsCharBoundary text token.stop ∧
        (token.terminated = false → token.stop = (utf8 text).length)) ∧
    (∀ casts, Returns (rewriteTurn text casts) ⟨[], 0, 0⟩) ∧
    (∀ values, Returns (dialectTurn text values) ⟨[], [], 0⟩) ∧
    Returns (leadingKeywordTurn text) 0 ∧
    Returns (keywordsTurn text) ⟨[], 0, none, 0⟩ ∧
    ∀ keyword, Returns (bareKeywordTurn (utf8 text) (utf8 keyword)) 0 := by
  have hzero := isCharBoundary_zero text
  refine ⟨fun i _ token htoken => ?_, fun casts => ?_, fun values => ?_, ?_, ?_, fun keyword => ?_⟩
  · have hadvances := advances_of_opaque? htoken
    exact ⟨hadvances.lt, hadvances.le, isCharBoundary_stop htoken, hadvances.unterminated⟩
  · exact returns_of_measure _ (fun _ hs => rewrite_progress casts hs) hzero
  · exact returns_of_measure _ (fun _ hs => dialect_progress values hs) hzero
  · exact returns_of_measure _ (fun _ hs => leadingKeyword_progress hs) hzero
  · exact returns_of_measure _ (fun _ hs => keywords_progress hs) hzero
  · exact returns_of_measure _ (fun i _ => bareKeyword_progress (utf8 keyword) i) trivial

end Bytes

end OdooKernel
