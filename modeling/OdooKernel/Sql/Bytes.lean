import OdooKernel.Core.Utf8
import OdooKernel.Sql.Lexing

/-!
# The opaque regions of SQL, byte by byte

The lexer works on the bytes of a text, and its callers cut the text at the offsets that it returns.
This is the lexer with its offsets as they are in the source, for what can be said of offsets: that
they advance, stay within the bytes and fall between characters.  `Sql/Lexing` has the same lexer on
characters, and `Sql/Offsets` connects the two.

* `opaque?` — the region that starts at an offset, if there is one.
* `Advances` — a region ends behind its start, within the text, behind a character of ASCII or at the
  end.
* `advances_of_opaque?` — every region does, whatever the bytes are.
* `isCharBoundary_stop` — in a text a region ends at a boundary.
-/

namespace OdooKernel

namespace Bytes

/-! ## Bytes of ASCII -/

def isAsciiDigit (b : UInt8) : Bool := '0'.toUInt8 ≤ b && b ≤ '9'.toUInt8

def isAsciiAlphanumeric (b : UInt8) : Bool :=
  isAsciiDigit b || ('A'.toUInt8 ≤ b && b ≤ 'Z'.toUInt8) || ('a'.toUInt8 ≤ b && b ≤ 'z'.toUInt8)

def isIdentByte (b : UInt8) : Bool :=
  isAsciiAlphanumeric b || b = '_'.toUInt8 || b = '$'.toUInt8 || 0x80 ≤ b

/-! ## The lexer -/

/-- A region, and the offset behind it. -/
structure Region where
  kind : Kind
  stop : ℕ
  terminated : Bool
deriving DecidableEq, Repr

variable (bytes : List UInt8)

/-- The offset behind the line. -/
def lineEnd (i : ℕ) : ℕ :=
  match (bytes.drop i).findIdx? fun b => b = '\n'.toUInt8 || b = '\r'.toUInt8 with
  | some k => i + 1 + k
  | none => bytes.length

/-- The offset behind a block comment, and whether it is closed. -/
def commentEnd (depth i : ℕ) : ℕ × Bool :=
  if h : i + 1 < bytes.length then
    if bytes[i] = '/'.toUInt8 ∧ bytes[i + 1] = '*'.toUInt8 then commentEnd (depth + 1) (i + 2)
    else if bytes[i] = '*'.toUInt8 ∧ bytes[i + 1] = '/'.toUInt8 then
      if depth = 1 then (i + 2, true) else commentEnd (depth - 1) (i + 2)
    else commentEnd depth (i + 1)
  else (bytes.length, false)
termination_by bytes.length - i

/-- The offset behind a quoted text, and whether it is closed. -/
def quoteEnd (escaped : Bool) (quote : UInt8) (i : ℕ) : ℕ × Bool :=
  if h : i < bytes.length then
    if escaped ∧ bytes[i] = '\\'.toUInt8 then quoteEnd escaped quote (i + 2)
    else if bytes[i] = quote then
      if bytes[i + 1]? = some quote then quoteEnd escaped quote (i + 2) else (i + 1, true)
    else quoteEnd escaped quote (i + 1)
  else (bytes.length, false)
termination_by bytes.length - i

/-- The offset behind the bytes from one on that satisfy a condition. -/
def runEnd (p : UInt8 → Bool) (i : ℕ) : ℕ := i + ((bytes.drop i).takeWhile p).length

/-- The first place of some bytes among others. -/
def findWindow (window rest : List UInt8) : Option ℕ :=
  (List.range (rest.length + 1 - window.length)).find? fun k =>
    (rest.drop k).take window.length = window

/-- The offset behind a dollar-quoted text whose tag goes up to another offset, and whether it is
closed. -/
def dollarEnd (start tagEnd : ℕ) : ℕ × Bool :=
  let tag := (bytes.take tagEnd).drop start
  match findWindow tag (bytes.drop tagEnd) with
  | some k => (tagEnd + k + tag.length, true)
  | none => (bytes.length, false)

/-- The byte before an offset belongs to an identifier or a number. -/
def afterIdent (start : ℕ) : Bool := 0 < start && bytes[start - 1]?.any isIdentByte

/-- **The region that starts at an offset**, if there is one. -/
def opaque? (start : ℕ) : Option Region :=
  match bytes[start]? with
  | none => none
  | some c =>
    let next := bytes[start + 1]?
    let escaped : Bool := (c = 'e'.toUInt8 ∨ c = 'E'.toUInt8) ∧ next = some '\''.toUInt8 ∧
      ¬ afterIdent bytes start
    -- where there is a next byte the text goes on up to `start + 2` at least
    if c = '-'.toUInt8 ∧ next = some '-'.toUInt8 then
      some { kind := .comment, stop := lineEnd bytes (start + 2), terminated := true }
    else if c = '/'.toUInt8 ∧ next = some '*'.toUInt8 then
      let (stop, terminated) := commentEnd bytes 1 (start + 2)
      some { kind := .comment, stop, terminated }
    else if escaped then
      let (stop, terminated) := quoteEnd bytes true '\''.toUInt8 (start + 2)
      some { kind := .string, stop, terminated }
    else if c = '\''.toUInt8 ∨ c = '"'.toUInt8 then
      let (stop, terminated) := quoteEnd bytes false c (start + 1)
      some { kind := if c = '"'.toUInt8 then .identifier else .string, stop, terminated }
    else if c = '$'.toUInt8 ∧ ¬ afterIdent bytes start ∧ ¬ next.any isAsciiDigit then
      let tagEnd := runEnd bytes (fun b => b ≠ '$'.toUInt8 && isIdentByte b) (start + 1)
      if bytes[tagEnd]? = some '$'.toUInt8 then
        let (stop, terminated) := dollarEnd bytes start (tagEnd + 1)
        some { kind := .dollarString, stop, terminated }
      else none
    else none

variable {bytes}

/-! ## Where regions end -/

/-- An offset behind a byte of ASCII. -/
def BehindAscii (bytes : List UInt8) (i : ℕ) : Prop :=
  0 < i ∧ ∃ b, bytes[i - 1]? = some b ∧ b < 0x80

/-- **A region goes on from its start**: it ends within the bytes, behind one of ASCII or where they
end, and where they end if it is not closed. -/
structure Advances (bytes : List UInt8) (start : ℕ) (region : Region) : Prop where
  lt : start < region.stop
  le : region.stop ≤ bytes.length
  behind : region.stop = bytes.length ∨ BehindAscii bytes region.stop
  unterminated : region.terminated = false → region.stop = bytes.length

lemma BehindAscii.le {i : ℕ} (h : BehindAscii bytes i) : i ≤ bytes.length := by
  obtain ⟨hpos, b, hb, _⟩ := h
  obtain ⟨hlt, _⟩ := List.getElem?_eq_some_iff.mp hb
  omega

/-- Behind a byte that is one of ASCII. -/
lemma behindAscii_succ {i : ℕ} {b : UInt8} (h : bytes[i]? = some b) (hb : b < 0x80) :
    BehindAscii bytes (i + 1) :=
  ⟨Nat.succ_pos i, b, h, hb⟩

lemma lineEnd_behind {i : ℕ} :
    lineEnd bytes i = bytes.length ∨ i < lineEnd bytes i ∧ BehindAscii bytes (lineEnd bytes i) := by
  unfold lineEnd
  cases hfind : (bytes.drop i).findIdx? fun b => b = '\n'.toUInt8 || b = '\r'.toUInt8 with
  | none => exact .inl rfl
  | some k =>
      right
      obtain ⟨hk, hnewline, _⟩ := List.findIdx?_eq_some_iff_getElem.mp hfind
      show i < i + 1 + k ∧ BehindAscii bytes (i + 1 + k)
      refine ⟨by omega, ?_⟩
      rw [show i + 1 + k = i + k + 1 by omega]
      refine behindAscii_succ (b := (bytes.drop i)[k]) ?_ ?_
      · rw [List.getElem_drop]
        exact List.getElem?_eq_getElem _
      · rcases (Bool.or_eq_true _ _).mp hnewline with h | h
        · rw [of_decide_eq_true h]
          decide
        · rw [of_decide_eq_true h]
          decide

/-- What a region comes to that is closed behind a byte of ASCII. -/
def Closed (bytes : List UInt8) (i : ℕ) (extent : ℕ × Bool) : Prop :=
  (extent.2 = false ∧ extent.1 = bytes.length) ∨
    (extent.2 = true ∧ i < extent.1 ∧ BehindAscii bytes extent.1)

lemma Closed.mono {i j : ℕ} (hij : i ≤ j) {extent : ℕ × Bool} (h : Closed bytes j extent) :
    Closed bytes i extent :=
  h.imp_right fun h => ⟨h.1, Nat.lt_of_le_of_lt hij h.2.1, h.2.2⟩

lemma commentEnd_closed (depth i : ℕ) : Closed bytes i (commentEnd bytes depth i) := by
  induction depth, i using commentEnd.induct bytes with
  | case1 depth i h hopen ih =>
      rw [commentEnd, dif_pos h, if_pos hopen]
      exact ih.mono (by omega)
  | case2 i h hopen hclose =>
      rw [commentEnd, dif_pos h, if_neg hopen, if_pos hclose, if_pos rfl]
      refine .inr ⟨rfl, by simp, behindAscii_succ (i := i + 1) (List.getElem?_eq_getElem h) ?_⟩
      rw [hclose.2]
      decide
  | case3 depth i h hopen hclose hdepth ih =>
      rw [commentEnd, dif_pos h, if_neg hopen, if_pos hclose, if_neg hdepth]
      exact ih.mono (by omega)
  | case4 depth i h hopen hclose ih =>
      rw [commentEnd, dif_pos h, if_neg hopen, if_neg hclose]
      exact ih.mono (by omega)
  | case5 depth i h =>
      rw [commentEnd, dif_neg h]
      exact .inl ⟨rfl, rfl⟩

lemma quoteEnd_closed (escaped : Bool) {quote : UInt8} (hquote : quote < 0x80) (i : ℕ) :
    Closed bytes i (quoteEnd bytes escaped quote i) := by
  induction i using quoteEnd.induct bytes escaped quote with
  | case1 i h hescape ih =>
      rw [quoteEnd, dif_pos h, if_pos hescape]
      exact ih.mono (by omega)
  | case2 i h hescape hend hdouble ih =>
      rw [quoteEnd, dif_pos h, if_neg hescape, if_pos hend, if_pos hdouble]
      exact ih.mono (by omega)
  | case3 i h hescape hend hdouble =>
      rw [quoteEnd, dif_pos h, if_neg hescape, if_pos hend, if_neg hdouble]
      refine .inr ⟨rfl, by simp, behindAscii_succ (List.getElem?_eq_getElem h) ?_⟩
      rw [hend]
      exact hquote
  | case4 i h hescape hend ih =>
      rw [quoteEnd, dif_pos h, if_neg hescape, if_neg hend]
      exact ih.mono (by omega)
  | case5 i h =>
      rw [quoteEnd, dif_neg h]
      exact .inl ⟨rfl, rfl⟩

lemma runEnd_le {p : UInt8 → Bool} {i : ℕ} (hi : i ≤ bytes.length) :
    i ≤ runEnd bytes p i ∧ runEnd bytes p i ≤ bytes.length := by
  have hle := (List.takeWhile_prefix p (l := bytes.drop i)).length_le
  rw [List.length_drop] at hle
  unfold runEnd
  omega

/-- A tag that is found again ends with a dollar sign. -/
lemma findWindow_behind {window : List UInt8} {i k : ℕ} (hwindow : window ≠ [])
    (hlast : window.getLast hwindow < 0x80) (hfind : findWindow window (bytes.drop i) = some k) :
    i < i + k + window.length ∧ BehindAscii bytes (i + k + window.length) := by
  have hpos := List.length_pos_iff.mpr hwindow
  unfold findWindow at hfind
  have hfound : ((bytes.drop i).drop k).take window.length = window := by
    simpa using List.find?_some hfind
  have hbyte : window[window.length - 1]? = some (window.getLast hwindow) := by
    rw [← List.getLast?_eq_getElem?, List.getLast?_eq_some_getLast hwindow]
  refine ⟨by omega, by omega, window.getLast hwindow, ?_, hlast⟩
  rw [← hbyte]
  conv_rhs => rw [← hfound]
  rw [List.getElem?_take_of_lt (by rw [hfound]; omega), List.getElem?_drop, List.getElem?_drop, hfound,
    show i + (k + (window.length - 1)) = i + k + window.length - 1 by omega]

lemma dollarEnd_closed {start tagEnd : ℕ} (hstart : start < tagEnd)
    (hlast : bytes[tagEnd - 1]? = some '$'.toUInt8) :
    Closed bytes tagEnd (dollarEnd bytes start tagEnd) := by
  obtain ⟨hlt, hbyte⟩ := List.getElem?_eq_some_iff.mp hlast
  have hlength : ((bytes.take tagEnd).drop start).length = tagEnd - start := by
    simp only [List.length_drop, List.length_take]
    omega
  have hne : (bytes.take tagEnd).drop start ≠ [] := by
    apply List.ne_nil_of_length_pos
    omega
  have hdollar : ((bytes.take tagEnd).drop start).getLast hne < 0x80 := by
    have hget : ((bytes.take tagEnd).drop start).getLast? = some '$'.toUInt8 := by
      rw [List.getLast?_eq_getElem?, hlength, List.getElem?_drop, List.getElem?_take_of_lt (by omega),
        show start + (tagEnd - start - 1) = tagEnd - 1 by omega, hlast]
    rw [List.getLast?_eq_some_getLast hne] at hget
    rw [Option.some.inj hget]
    decide
  unfold dollarEnd
  simp only
  cases hfind : findWindow ((bytes.take tagEnd).drop start) (bytes.drop tagEnd) with
  | none => exact .inl ⟨rfl, rfl⟩
  | some k => exact .inr ⟨rfl, findWindow_behind hne hdollar hfind⟩

/-- A region that is closed goes on. -/
lemma Closed.advances {start i : ℕ} {kind : Kind} {extent : ℕ × Bool}
    (h : Closed bytes i extent) (hi : start < i) (hlt : start < bytes.length) :
    Advances bytes start ⟨kind, extent.1, extent.2⟩ := by
  rcases h with ⟨hopen, hend⟩ | ⟨hclosed, hlater, hbehind⟩
  · exact ⟨by rw [hend]; exact hlt, Nat.le_of_eq hend, .inl hend, fun _ => hend⟩
  · refine ⟨Nat.lt_trans hi hlater, hbehind.le, .inr hbehind, fun hopen => ?_⟩
    rw [show extent.2 = false from hopen] at hclosed
    cases hclosed

/-- **Every region goes on from its start**, whatever the bytes are. -/
lemma advances_of_opaque? {start : ℕ} {region : Region} (h : opaque? bytes start = some region) :
    Advances bytes start region := by
  unfold opaque? at h
  cases hc : bytes[start]? with
  | none =>
      rw [hc] at h
      cases h
  | some c =>
      obtain ⟨hlt, _⟩ := List.getElem?_eq_some_iff.mp hc
      have hascii : c = '\''.toUInt8 ∨ c = '"'.toUInt8 → c < 0x80 := by
        rintro (rfl | rfl) <;> decide
      rw [hc] at h
      simp only at h
      split_ifs at h with hline hblock hescaped hquote hident hdollar htag
      · obtain rfl := Option.some.inj h
        rcases @lineEnd_behind bytes (start + 2) with hend | ⟨hlater, hbehind⟩
        · exact ⟨by simpa [hend] using hlt, Nat.le_of_eq hend, .inl hend, fun hopen => nomatch hopen⟩
        · exact ⟨by simp only; omega, hbehind.le, .inr hbehind, fun hopen => nomatch hopen⟩
      · obtain rfl := Option.some.inj h
        exact (commentEnd_closed 1 (start + 2)).advances (by omega) hlt
      · obtain rfl := Option.some.inj h
        exact (quoteEnd_closed true (by decide) (start + 2)).advances (by omega) hlt
      · obtain rfl := Option.some.inj h
        exact (quoteEnd_closed false (hascii hquote) (start + 1)).advances (by omega) hlt
      · obtain rfl := Option.some.inj h
        exact (quoteEnd_closed false (hascii hquote) (start + 1)).advances (by omega) hlt
      · obtain rfl := Option.some.inj h
        have hle := (@runEnd_le bytes (fun b => b ≠ '$'.toUInt8 && isIdentByte b) (start + 1) hlt).1
        exact (dollarEnd_closed (by omega) (by simpa using htag)).advances (by omega) hlt

/-- **In a text a region ends at a boundary.** -/
lemma isCharBoundary_stop {text : List Char} {start : ℕ} {region : Region}
    (h : opaque? (utf8 text) start = some region) : IsCharBoundary text region.stop := by
  rcases (advances_of_opaque? h).behind with hend | ⟨hpos, b, hb, hascii⟩
  · exact isCharBoundary_iff.mpr (.inr (.inl hend))
  · have hboundary := (ascii_boundary hb hascii).2
    rwa [Nat.sub_add_cancel hpos] at hboundary

end Bytes

end OdooKernel
