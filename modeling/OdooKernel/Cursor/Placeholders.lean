import OdooKernel.Sql.Dialect

/-!
# The placeholders of a cursor

A cursor is given `%s` and `%(name)s` and sends `$1` and on; it does not lex the text.  The kernel
for its part renders `$1` and on, which `toOdooDialect` turns into `%s` for the port, doubling each
percent sign.  So a statement of the kernel goes through both, and what arrives is its own text with
the placeholders numbered in the order of the text.

**Why the cursor need not lex.**  Behind `toOdooDialect` every percent sign that stands for itself is
one of two, in quoted texts as well, and every other one is a placeholder; that is all that the
cursor looks at.

* `translatePlaceholders` — the text to send, and the names of its parameters.
* **`dialects_round_trip`** — what the kernel renders for the port, sent through a cursor, is the
  kernel's text with its placeholders numbered in text order.
-/

namespace OdooKernel

/-- What a cursor reads at a position. -/
inductive Marker where
  | named (name : List Char)
  | plain (c : Char)
deriving DecidableEq, Repr

/-- A text up to the first `)s`. -/
def nameEnd : List Char → Option (List Char)
  | [] => none
  | [_] => none
  | c :: d :: cs =>
    if c = ')' ∧ d = 's' then some [] else (nameEnd (d :: cs)).map (c :: ·)

/-- `%%` is a percent sign, `%s` and `%(name)s` are parameters, and a lone percent sign stays. -/
def readMarker : Scanner Char Marker := fun _ c cs =>
  if c = '%' then
    match cs with
    | '%' :: _ => (1, .plain '%')
    | 's' :: _ => (1, .named [])
    | '(' :: rest =>
      match nameEnd rest with
      | some name => (name.length + 3, .named name)
      | none => (0, .plain c)
    | _ => (0, .plain c)
  else (0, .plain c)

/-- The parameters are numbered as they come. -/
def numberMarkers : ℕ → List Marker → List Char
  | _, [] => []
  | n, .named _ :: ms => placeholder (n + 1) ++ numberMarkers (n + 1) ms
  | n, .plain c :: ms => c :: numberMarkers n ms

/-- The name of a parameter. -/
def Marker.name? : Marker → Option (List Char)
  | .named name => some name
  | .plain _ => none

/-- The text that is sent, and the names of its parameters. -/
def translatePlaceholders (sql : List Char) : List Char × List (List Char) :=
  let markers := scan readMarker 0 none sql
  (numberMarkers 0 markers, markers.filterMap Marker.name?)

/-! ## Reading what the port is given -/

/-- What a cursor reads in a text. -/
def markers (sql : List Char) : List Marker := scan readMarker 0 none sql

lemma markers_cons_plain {c : Char} (cs : List Char) {rest : List Char} {m : Marker}
    (h : readMarker none c (cs ++ rest) = (cs.length, m)) :
    markers (c :: cs ++ rest) = m :: markers rest := by
  rw [markers, scan_piece h]
  exact congrArg (m :: ·) (scan_before (fun _ _ _ _ => rfl) 0 _ none rest)

/-- A doubled text is read as the text. -/
lemma markers_doubled (text rest : List Char) :
    markers (doubled text ++ rest) = text.map .plain ++ markers rest := by
  induction text with
  | nil => rfl
  | cons c cs ih =>
      have hdoubled : doubled (c :: cs) ++ rest
          = (if c = '%' then ['%', '%'] else [c]) ++ (doubled cs ++ rest) := by
        rw [doubled, List.flatMap_cons, List.append_assoc, ← doubled]
      rw [hdoubled, List.map_cons, List.cons_append, ← ih]
      by_cases hc : c = '%'
      · subst hc
        exact markers_cons_plain ['%'] rfl
      · rw [if_neg hc]
        refine markers_cons_plain [] ?_
        simp only [readMarker, hc, if_false, List.length_nil]

/-- `%s` is a parameter without a name. -/
lemma markers_parameter (rest : List Char) :
    markers ('%' :: 's' :: rest) = .named [] :: markers rest :=
  markers_cons_plain ['s'] rfl

lemma numberMarkers_plain (n : ℕ) (text : List Char) (ms : List Marker) :
    numberMarkers n (text.map .plain ++ ms) = text ++ numberMarkers n ms := by
  induction text with
  | nil => rfl
  | cons c cs ih => exact congrArg (c :: ·) ih

lemma filterMap_plain (text : List Char) :
    (text.map Marker.plain).filterMap Marker.name? = [] := by
  induction text with
  | nil => rfl
  | cons c cs ih => exact ih

/-- What a reading becomes: its characters, or a parameter for the value it names. -/
lemma dialectOf_eq_ok {sql : List Char} {values : List BoundValue} {r : Lexeme}
    {out : List Char} {params : List Json} (h : dialectOf sql values r = .ok (out, params)) :
    (r.bound? = none ∧ out = doubled r.text ∧ params = []) ∨
    ∃ digits value param, r = .bound digits ∧ out = ['%', 's'] ∧ params = [param] ∧
      boundValue values (digitsValue digits) = some value ∧ valueToJson value = .ok param := by
  cases r with
  | region kind closed text =>
      left
      cases closed with
      | false => exact absurd h (by simp [dialectOf])
      | true =>
          simp only [dialectOf, Except.ok.injEq, Prod.mk.injEq] at h
          exact ⟨rfl, h.1.symm, h.2.symm⟩
  | plain c =>
      left
      simp only [dialectOf, Except.ok.injEq, Prod.mk.injEq] at h
      exact ⟨rfl, h.1.symm, h.2.symm⟩
  | bound digits =>
      right
      simp only [dialectOf, bind_eq_ok, orRefuse_eq_ok, pure_eq_ok, Prod.mk.injEq] at h
      obtain ⟨index, hindex, value, hvalue, param, hparam, hout, hparams⟩ := h
      have hdigits : index = digitsValue digits := by
        unfold parseIndex at hindex
        split at hindex
        · exact (Except.ok.inj hindex).symm
        · exact absurd hindex (by simp)
      subst hdigits
      exact ⟨digits, value, param, rfl, hout.symm, hparams.symm, hvalue, hparam⟩

/-- **What a placeholder sends**: the JSON form of the value that it names, counted from one. -/
def Sends (values : List BoundValue) (index : ℕ) (param : Json) : Prop :=
  0 < index ∧ ∃ value, values[index - 1]? = some value ∧ JsonForm value param

/-- A value that is named and sent. -/
lemma sends_of_boundValue {values : List BoundValue} {index : ℕ} {value : BoundValue} {param : Json}
    (hvalue : boundValue values index = some value) (hparam : valueToJson value = .ok param) :
    Sends values index param := by
  unfold boundValue at hvalue
  split at hvalue
  · exact absurd hvalue (by simp)
  · next hindex => exact ⟨Nat.pos_of_ne_zero hindex, value, hvalue, jsonForm_of_valueToJson hparam⟩

/-- The dialect of a text, read back a reading at a time. -/
lemma markers_of_parts {sql : List Char} {values : List BoundValue} :
    ∀ {rs : List Lexeme} {parts : List (List Char × List Json)},
      List.Forall₂ (fun r part => dialectOf sql values r = .ok part) rs parts →
      (∀ n, numberMarkers n (markers (parts.flatMap Prod.fst)) = renumbered n rs) ∧
      (markers (parts.flatMap Prod.fst)).filterMap Marker.name?
        = List.replicate (parts.flatMap Prod.snd).length [] ∧
      List.Forall₂ (Sends values) (boundIndices rs) (parts.flatMap Prod.snd) := by
  intro rs parts hall
  induction hall with
  | nil => exact ⟨fun _ => rfl, rfl, .nil⟩
  | @cons r part rs parts hpart _ ih =>
      obtain ⟨hnumbered, hnames, hsends⟩ := ih
      obtain ⟨out, params⟩ := part
      rw [List.flatMap_cons, List.flatMap_cons]
      rcases dialectOf_eq_ok hpart with
        ⟨hplain, rfl, rfl⟩ | ⟨digits, value, param, rfl, rfl, rfl, hvalue, hparam⟩
      · -- the characters of a region or a character, each percent sign twice
        simp only [markers_doubled, List.nil_append]
        refine ⟨fun n => ?_, ?_, ?_⟩
        · rw [numberMarkers_plain, hnumbered]
          cases r with
          | bound digits => exact absurd hplain (by simp [Lexeme.bound?])
          | region kind closed text => rfl
          | plain c => rfl
        · rw [List.filterMap_append, filterMap_plain, hnames, List.nil_append]
        · rw [boundIndices, List.filterMap_cons_none hplain]
          exact hsends
      · refine ⟨fun n => ?_, ?_, .cons (sends_of_boundValue hvalue hparam) hsends⟩
        · show numberMarkers n (markers ('%' :: 's' :: parts.flatMap Prod.fst)) = _
          rw [markers_parameter, numberMarkers, hnumbered, renumbered]
        · show (markers ('%' :: 's' :: parts.flatMap Prod.fst)).filterMap Marker.name? = _
          rw [markers_parameter, List.filterMap_cons_some (f := Marker.name?) (b := []) rfl, hnames]
          rfl

/-- **The dialects are inverse**: the text a cursor sends for what the kernel rendered is the
kernel's text with its placeholders numbered in text order, no parameter has a name, and one after
the other they are the JSON forms of the values that the placeholders named. -/
theorem dialects_round_trip {sql out : List Char} {values : List BoundValue} {params : List Json}
    (h : toOdooDialect sql values = .ok (out, params)) :
    translatePlaceholders out
        = (renumbered 0 (lexemes sql), List.replicate params.length []) ∧
      (lexemes sql).flatMap Lexeme.text = sql ∧
      List.Forall₂ (Sends values) (boundIndices (lexemes sql)) params := by
  simp only [toOdooDialect, bind_eq_ok, pure_eq_ok, Prod.mk.injEq] at h
  obtain ⟨parts, hparts, rfl, rfl⟩ := h
  obtain ⟨hnumbered, hnames, hsends⟩ := markers_of_parts (mapM_eq_ok.mp hparts)
  exact ⟨Prod.ext (hnumbered 0) hnames, flatMap_lexemes sql, hsends⟩

/-- A placeholder repeated and out of order, beside a percent sign and a quoted dollar sign: the three
that are sent are the second value, the first and the second again. -/
theorem repeated_placeholder :
    translatePlaceholders "\"50%%\" = %s AND '$1' %% %s = %s".toList
      = ("\"50%\" = $1 AND '$1' % $2 = $3".toList, [[], [], []]) ∧
    List.Forall₂ (Sends [.int (some 10), .string (some "x")]) [2, 1, 2]
      [.string "x", .number (.int 10), .string "x"] := by
  obtain ⟨htext, -, hsends⟩ :=
    @dialects_round_trip "\"50%\" = $2 AND '$1' % $1 = $2".toList
      "\"50%%\" = %s AND '$1' %% %s = %s".toList
      [.int (some 10), .string (some "x")] [.string "x", .number (.int 10), .string "x"]
      (by decide +kernel)
  have hindices : boundIndices (lexemes "\"50%\" = $2 AND '$1' % $1 = $2".toList) = [2, 1, 2] := by
    decide +kernel
  rw [hindices] at hsends
  exact ⟨htext.trans (by decide +kernel), hsends⟩

end OdooKernel
