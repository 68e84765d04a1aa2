import Mathlib.Data.List.DropRight
import OdooKernel.Core.Text

/-!
# Connection strings

A connection string is a list of settings, each a key, an equals sign and a value with or without
quotes.  It is read from the left, a setting a round; what is no setting is left out.  The loop has
no bound, and none is given to it: that it ends is one of the two things that are said of it.

**Where it ends.**  A round that finds an equals sign where a key should start takes nothing, and the
next one finds the same.  That is the only way not to end (`Readable`).

**Where it is right.**  `WrittenAs` are the settings of a text by the grammar of connection strings,
whoever reads it.  The reader takes more characters for white space than the grammar does, so a value
that has one of them without quotes is read short; that is the only way to go wrong
(`WrittenAs.fits`).

* `parseConninfo` — the settings of a text, as the Python process reads them.
* `ConnSetting`, `SettingValue` — the parts of a written text.
* **`readsWell_iff`** — the text is read to its end, and as it is written, exactly where it is
  readable and white space in it means the same to those who write it and to the one who reads it.
-/

namespace OdooKernel

/-- White space of the Python process. -/
def isSpace (c : Char) : Bool := isWhitespace c || (0x1C ≤ c.toNat && c.toNat ≤ 0x1F)

/-! ## Reading -/

/-- The characters up to the first one that stops, where a character behind a backslash does not, and
what is left of the text. -/
def readChars (stops : Char → Bool) : List Char → List Char × List Char
  | [] => ([], [])
  | [c] => if stops c then ([], [c]) else ([c], [])
  | c :: d :: cs =>
    if stops c then ([], c :: d :: cs)
    else if c = '\\' then (d :: (readChars stops cs).1, (readChars stops cs).2)
    else (c :: (readChars stops (d :: cs)).1, (readChars stops (d :: cs)).2)

def isQuote (c : Char) : Bool := c = '\''

def isKeyChar (c : Char) : Bool := !isSpace c && c ≠ '='

/-- The value at the start of a text, and what is left of it. -/
def readValue : List Char → List Char × List Char
  | '\'' :: quoted => ((readChars isQuote quoted).1, (readChars isQuote quoted).2.drop 1)
  | unquoted => readChars isSpace unquoted

/-- One round: the setting at the start of a text, if there is one, and what is left of it. -/
def readSetting (text : List Char) : Option (List Char × List Char) × List Char :=
  let text := text.dropWhile isSpace
  let key := text.takeWhile isKeyChar
  match (text.dropWhile isKeyChar).dropWhile isSpace with
  | '=' :: rest =>
    if key = [] then (none, '=' :: rest)
    else
      let value := readValue (rest.dropWhile isSpace)
      (some (key, value.1), value.2)
  | rest => (none, rest)

/-- **The settings of a text**, if as many rounds as there are get to its end. -/
def parseConninfo : ℕ → List Char → Option (List (List Char × List Char))
  | 0, text => if text = [] then some [] else none
  | fuel + 1, text =>
    if text = [] then some []
    else
      match readSetting text with
      | (some setting, rest) => (parseConninfo fuel rest).map (setting :: ·)
      | (none, rest) => parseConninfo fuel rest

/-- The reader yields these settings and ends. -/
def YieldsSettings (text : List Char) (settings : List (List Char × List Char)) : Prop :=
  ∃ fuel, parseConninfo fuel text = some settings

/-! ## Writing -/

/-- A character of a value. -/
inductive ValueChar where
  | plain (c : Char)
  | escaped (c : Char)
deriving DecidableEq

def ValueChar.text : ValueChar → List Char
  | .plain c => [c]
  | .escaped c => ['\\', c]

def ValueChar.char : ValueChar → Char
  | .plain c | .escaped c => c

/-- None of the characters stops, unless a backslash stands before it. -/
def Unstopped (stops : Char → Bool) (cs : List ValueChar) : Prop :=
  ∀ c, .plain c ∈ cs → stops c = false ∧ c ≠ '\\'

/-- A value, with quotes or without. -/
inductive SettingValue where
  | quoted (cs : List ValueChar)
  | unquoted (cs : List ValueChar)
deriving DecidableEq

namespace SettingValue

def text : SettingValue → List Char
  | .quoted cs => '\'' :: cs.flatMap ValueChar.text ++ ['\'']
  | .unquoted cs => cs.flatMap ValueChar.text

/-- The value with its quotes and backslashes removed. -/
def chars : SettingValue → List Char
  | .quoted cs | .unquoted cs => cs.map ValueChar.char

/-- A value without quotes has no white space, and no quote at its start. -/
def Fits (space : Char → Bool) : SettingValue → Prop
  | .quoted cs => Unstopped isQuote cs
  | .unquoted cs => Unstopped space cs ∧ cs.head? ≠ some (.plain '\'')

/-- White space stands behind a value without quotes, and nothing behind one without characters. -/
def Follows (space : Char → Bool) (rest : List Char) : SettingValue → Prop
  | .quoted _ => True
  | .unquoted cs => (∀ c ∈ rest.head?, space c = true) ∧ (cs = [] → rest = [])

end SettingValue

/-- A setting, with the white space before its key and around its equals sign. -/
structure ConnSetting where
  before : List Char
  key : List Char
  beforeEquals : List Char
  afterEquals : List Char
  value : SettingValue

namespace ConnSetting

variable (s : ConnSetting)

/-- What stands before the value. -/
def opening : List Char := s.before ++ (s.key ++ (s.beforeEquals ++ '=' :: s.afterEquals))

def text : List Char := s.opening ++ s.value.text

def pair : List Char × List Char := (s.key, s.value.chars)

/-- What stands before the value is white space, a key and an equals sign. -/
structure Opens (space : Char → Bool) : Prop where
  before : ∀ c ∈ s.before, space c
  beforeEquals : ∀ c ∈ s.beforeEquals, space c
  afterEquals : ∀ c ∈ s.afterEquals, space c
  key_ne : s.key ≠ []
  key : ∀ c ∈ s.key, space c = false ∧ c ≠ '='

end ConnSetting

/-- The white space of a connection string. -/
def isConninfoSpace (c : Char) : Bool := [' ', '\t', '\n', '\x0B', '\x0C', '\r'].contains c

/-- **The settings of a well-formed text**: every key is a word. -/
inductive WrittenAs : List ConnSetting → List Char → Prop where
  | blank {space : List Char} (h : ∀ c ∈ space, isConninfoSpace c) : WrittenAs [] space
  | setting {s : ConnSetting} {ss : List ConnSetting} {rest : List Char}
      (hopens : s.Opens isConninfoSpace) (hkey : ∀ c ∈ s.key, c.isAlphanum ∨ c = '_')
      (hvalue : s.value.Fits isConninfoSpace)
      (hfollows : s.value.Follows isConninfoSpace rest) (hrest : WrittenAs ss rest) :
      WrittenAs (s :: ss) (s.text ++ rest)

/-- A value that the text ends in: its last quote is missing, or what the last backslash stands
before. -/
inductive Unfinished : List Char → Prop where
  | quoted {cs : List ValueChar} (h : Unstopped isQuote cs) :
      Unfinished ('\'' :: cs.flatMap ValueChar.text)
  | quotedBackslash {cs : List ValueChar} (h : Unstopped isQuote cs) :
      Unfinished ('\'' :: (cs.flatMap ValueChar.text ++ ['\\']))
  | unquotedBackslash {cs : List ValueChar} (h : Unstopped isSpace cs)
      (hhead : cs.head? ≠ some (.plain '\'')) : Unfinished (cs.flatMap ValueChar.text ++ ['\\'])

/-- **No equals sign stands where a key should start**: a text of settings and of words that are no
keys. -/
inductive Readable : List Char → Prop where
  | blank {space : List Char} (h : ∀ c ∈ space, isSpace c) : Readable space
  | word {space word rest : List Char} (hspace : ∀ c ∈ space, isSpace c) (hne : word ≠ [])
      (hword : ∀ c ∈ word, isSpace c = false ∧ c ≠ '=') (hend : ∀ c ∈ rest.head?, isSpace c)
      (hrest : Readable rest) : Readable (space ++ (word ++ rest))
  | setting {s : ConnSetting} {rest : List Char} (hopens : s.Opens isSpace)
      (hvalue : s.value.Fits isSpace) (hfollows : s.value.Follows isSpace rest)
      (hrest : Readable rest) : Readable (s.text ++ rest)
  | unfinished {s : ConnSetting} {rest : List Char} (hopens : s.Opens isSpace)
      (hrest : Unfinished rest) : Readable (s.opening ++ rest)

/-- **The reader ends, and yields the settings of a well-formed text** in order. -/
structure ReadsWell (text : List Char) : Prop where
  ends : ∃ settings, YieldsSettings text settings
  exact : ∀ ss, WrittenAs ss text → YieldsSettings text (ss.map ConnSetting.pair)

/-! ## White space -/

lemma isSpace_of_isConninfoSpace {c : Char} (h : isConninfoSpace c = true) : isSpace c = true := by
  simp only [isConninfoSpace, List.contains_iff_mem, List.mem_cons, List.not_mem_nil, or_false] at h
  rcases h with rfl | rfl | rfl | rfl | rfl | rfl <;> rfl

/-! ## The characters of a value -/

section Chars

variable {stops : Char → Bool}

lemma Unstopped.of_cons {v : ValueChar} {cs : List ValueChar} (h : Unstopped stops (v :: cs)) :
    Unstopped stops cs :=
  fun c hc => h c (List.mem_cons_of_mem v hc)

lemma readChars_plain {c : Char} (hc : stops c = false) (hne : c ≠ '\\') (cs : List Char) :
    readChars stops (c :: cs) = (c :: (readChars stops cs).1, (readChars stops cs).2) := by
  cases cs with
  | nil => simp [readChars, hc]
  | cons d cs => simp [readChars, hc, hne]

lemma readChars_escaped (hstops : stops '\\' = false) (c : Char) (cs : List Char) :
    readChars stops ('\\' :: c :: cs) = (c :: (readChars stops cs).1, (readChars stops cs).2) := by
  simp [readChars, hstops]

lemma readChars_stop {rest : List Char} (h : ∀ c ∈ rest.head?, stops c = true) :
    readChars stops rest = ([], rest) := by
  match rest with
  | [] => rfl
  | [c] => simp [readChars, h c rfl]
  | c :: d :: cs => simp [readChars, h c rfl]

/-- **A value is read as its characters**, before what is read behind it. -/
lemma readChars_append (hstops : stops '\\' = false) {cs : List ValueChar} (h : Unstopped stops cs)
    (rest : List Char) : readChars stops (cs.flatMap ValueChar.text ++ rest) =
      (cs.map ValueChar.char ++ (readChars stops rest).1, (readChars stops rest).2) := by
  induction cs with
  | nil => rfl
  | cons v cs ih =>
      rw [List.flatMap_cons, List.append_assoc]
      cases v with
      | plain c =>
          obtain ⟨hc, hne⟩ := h c List.mem_cons_self
          show readChars stops (c :: (cs.flatMap ValueChar.text ++ rest)) = _
          rw [readChars_plain hc hne, ih h.of_cons]
          rfl
      | escaped c =>
          show readChars stops ('\\' :: c :: (cs.flatMap ValueChar.text ++ rest)) = _
          rw [readChars_escaped hstops, ih h.of_cons]
          rfl

/-- **Every text starts with the characters of a value**, behind which it ends, with a backslash or
without, or a character stops. -/
lemma exists_unstopped (stops : Char → Bool) : ∀ text : List Char, ∃ cs rest,
    text = cs.flatMap ValueChar.text ++ rest ∧ Unstopped stops cs ∧
      (rest = ['\\'] ∨ ∀ c ∈ rest.head?, stops c = true)
  | [] => ⟨[], [], rfl, fun c hc => (nomatch hc), .inr fun c hc => (nomatch hc)⟩
  | c :: text => by
      by_cases hstop : stops c = true
      · refine ⟨[], c :: text, rfl, fun c hc => (nomatch hc), .inr fun d hd => ?_⟩
        obtain rfl := Option.some.inj hd
        exact hstop
      · by_cases hback : c = '\\'
        · subst hback
          match text with
          | [] => exact ⟨[], ['\\'], rfl, fun c hc => (nomatch hc), .inl rfl⟩
          | d :: text =>
              obtain ⟨cs, rest, htext, hcs, hrest⟩ := exists_unstopped stops text
              refine ⟨.escaped d :: cs, rest, by simp [htext, ValueChar.text], fun e he => ?_, hrest⟩
              rcases List.mem_cons.mp he with heq | he
              · cases heq
              · exact hcs e he
        · obtain ⟨cs, rest, htext, hcs, hrest⟩ := exists_unstopped stops text
          refine ⟨.plain c :: cs, rest, by simp [htext, ValueChar.text], fun e he => ?_, hrest⟩
          rcases List.mem_cons.mp he with heq | he
          · obtain rfl := ValueChar.plain.inj heq
            exact ⟨by simpa using hstop, hback⟩
          · exact hcs e he

end Chars

/-! ## A round -/

/-- A value is read as it is written. -/
lemma readValue_text {v : SettingValue} (h : v.Fits isSpace) {rest : List Char}
    (hfollows : v.Follows isSpace rest) : readValue (v.text ++ rest) = (v.chars, rest) := by
  cases v with
  | quoted cs =>
      have hquote : ∀ c ∈ ('\'' :: rest).head?, isQuote c = true := by
        intro c hc
        obtain rfl := Option.some.inj hc
        rfl
      have htext : (SettingValue.quoted cs).text ++ rest =
          '\'' :: (cs.flatMap ValueChar.text ++ '\'' :: rest) := by simp [SettingValue.text]
      have hread := readChars_append rfl (show Unstopped isQuote cs from h) ('\'' :: rest)
      rw [readChars_stop hquote] at hread
      rw [htext, readValue, hread]
      simp [SettingValue.chars]
  | unquoted cs =>
      obtain ⟨hcs, hhead⟩ := h
      have hread := readChars_append rfl hcs rest
      rw [readChars_stop hfollows.1, List.append_nil] at hread
      have hne : ∀ quoted, cs.flatMap ValueChar.text ++ rest ≠ '\'' :: quoted := by
        intro quoted htext
        cases cs with
        | nil =>
            rw [hfollows.2 rfl] at htext
            cases htext
        | cons v cs =>
            cases v with
            | plain c =>
                obtain ⟨rfl, _⟩ := List.cons_eq_cons.mp htext
                exact hhead rfl
            | escaped c => cases (List.cons_eq_cons.mp htext).1
      show readValue (cs.flatMap ValueChar.text ++ rest) = _
      rw [readValue.eq_2 _ hne, hread]
      rfl

/-- A text of words and other characters does not start with what its first word does not. -/
lemma head_word {p : Char → Prop} {word : List Char} (hne : word ≠ []) (h : ∀ c ∈ word, p c)
    (rest : List Char) : ∀ c ∈ (word ++ rest).head?, p c := by
  intro c hc
  cases word with
  | nil => exact absurd rfl hne
  | cons d ds =>
      obtain rfl := Option.some.inj hc
      exact h d List.mem_cons_self

/-- The white space before a setting is left out. -/
lemma dropWhile_opening {s : ConnSetting} (h : s.Opens isSpace) (rest : List Char) :
    (s.opening ++ rest).dropWhile isSpace =
      s.key ++ (s.beforeEquals ++ '=' :: (s.afterEquals ++ rest)) := by
  have htext : s.opening ++ rest =
      s.before ++ (s.key ++ (s.beforeEquals ++ '=' :: (s.afterEquals ++ rest))) := by
    simp [ConnSetting.opening]
  rw [htext]
  exact (span_append h.before (head_word h.key_ne (fun c hc => (h.key c hc).1) _)).2

/-- What stands before a value is read as it is written. -/
lemma readSetting_opening {s : ConnSetting} (h : s.Opens isSpace) (rest : List Char) :
    readSetting (s.opening ++ rest) =
      (some (s.key, (readValue (rest.dropWhile isSpace)).1),
        (readValue (rest.dropWhile isSpace)).2) := by
  have hkeyChars : ∀ c ∈ s.key, isKeyChar c = true := by
    intro c hc
    simp [isKeyChar, h.key c hc]
  have hequals : ∀ c ∈ ('=' :: (s.afterEquals ++ rest)).head?, isSpace c = false := by
    intro c hc
    obtain rfl := Option.some.inj hc
    rfl
  have hafterKey : ∀ c ∈ (s.beforeEquals ++ '=' :: (s.afterEquals ++ rest)).head?,
      isKeyChar c = false := by
    intro c hc
    cases hbefore : s.beforeEquals with
    | nil =>
        rw [hbefore] at hc
        obtain rfl := Option.some.inj hc
        rfl
    | cons d ds =>
        rw [hbefore] at hc
        obtain rfl := Option.some.inj hc
        simp [isKeyChar, h.beforeEquals d (hbefore ▸ List.mem_cons_self)]
  rw [readSetting, dropWhile_opening h, (span_append hkeyChars hafterKey).1,
    (span_append hkeyChars hafterKey).2, (span_append h.beforeEquals hequals).2]
  simp only [if_neg h.key_ne, List.dropWhile_append_of_pos h.afterEquals]

/-- No white space stands where a value starts. -/
lemma dropWhile_value {v : SettingValue} (h : v.Fits isSpace) {rest : List Char}
    (hfollows : v.Follows isSpace rest) :
    (v.text ++ rest).dropWhile isSpace = v.text ++ rest := by
  cases v with
  | quoted cs => rfl
  | unquoted cs =>
      cases cs with
      | nil =>
          rw [hfollows.2 rfl]
          rfl
      | cons v cs =>
          cases v with
          | plain c =>
              have hc := (h.1 c List.mem_cons_self).1
              exact List.dropWhile_cons_of_neg (by simp [hc])
          | escaped c => rfl

/-- **A setting is read as it is written.** -/
lemma readSetting_text {s : ConnSetting} (hopens : s.Opens isSpace) (hvalue : s.value.Fits isSpace)
    {rest : List Char} (hfollows : s.value.Follows isSpace rest) :
    readSetting (s.text ++ rest) = (some s.pair, rest) := by
  rw [ConnSetting.text, List.append_assoc, readSetting_opening hopens, dropWhile_value hvalue hfollows,
    readValue_text hvalue hfollows]
  rfl

lemma opening_ne_nil (s : ConnSetting) (rest : List Char) : s.opening ++ rest ≠ [] := by
  simp [ConnSetting.opening]

/-! ## Rounds -/

section Rounds

variable {text rest : List Char} {settings : List (List Char × List Char)}

@[simp] lemma yieldsSettings_nil : YieldsSettings [] settings ↔ settings = [] := by
  constructor
  · rintro ⟨fuel, h⟩
    cases fuel <;> exact (Option.some.inj h).symm
  · rintro rfl
    exact ⟨0, rfl⟩

/-- A round with a setting. -/
lemma yieldsSettings_some {setting : List Char × List Char} (hne : text ≠ [])
    (h : readSetting text = (some setting, rest)) : YieldsSettings text settings ↔
      ∃ settings', settings = setting :: settings' ∧ YieldsSettings rest settings' := by
  constructor
  · rintro ⟨fuel, hfuel⟩
    cases fuel with
    | zero => simp [parseConninfo, hne] at hfuel
    | succ fuel =>
        rw [parseConninfo, if_neg hne, h] at hfuel
        obtain ⟨settings', hrest, rfl⟩ := Option.map_eq_some_iff.mp hfuel
        exact ⟨settings', rfl, fuel, hrest⟩
  · rintro ⟨settings', rfl, fuel, hfuel⟩
    refine ⟨fuel + 1, ?_⟩
    rw [parseConninfo, if_neg hne, h]
    exact Option.map_eq_some_iff.mpr ⟨settings', hfuel, rfl⟩

/-- A round without one. -/
lemma yieldsSettings_none (hne : text ≠ []) (h : readSetting text = (none, rest)) :
    YieldsSettings text settings ↔ YieldsSettings rest settings := by
  constructor
  · rintro ⟨fuel, hfuel⟩
    cases fuel with
    | zero => simp [parseConninfo, hne] at hfuel
    | succ fuel =>
        rw [parseConninfo, if_neg hne, h] at hfuel
        exact ⟨fuel, hfuel⟩
  · rintro ⟨fuel, hfuel⟩
    refine ⟨fuel + 1, ?_⟩
    rw [parseConninfo, if_neg hne, h]
    exact hfuel

/-- White space at the start of a text is left out. -/
lemma yieldsSettings_dropWhile :
    YieldsSettings text settings ↔ YieldsSettings (text.dropWhile isSpace) settings := by
  by_cases htext : text = []
  · rw [htext]
    rfl
  · cases hdrop : text.dropWhile isSpace with
    | nil =>
        have hread : readSetting text = (none, []) := by
          rw [readSetting, hdrop]
          rfl
        exact yieldsSettings_none htext hread
    | cons c cs =>
        have hread : readSetting text = readSetting (c :: cs) := by
          have hidem : (c :: cs).dropWhile isSpace = c :: cs := by
            rw [← hdrop, List.dropWhile_idempotent]
          rw [readSetting, readSetting, hdrop, hidem]
        cases hround : readSetting (c :: cs) with
        | mk setting rest =>
            cases setting with
            | some setting =>
                rw [yieldsSettings_some htext (hread.trans hround),
                  yieldsSettings_some (List.cons_ne_nil c cs) hround]
            | none =>
                rw [yieldsSettings_none htext (hread.trans hround),
                  yieldsSettings_none (List.cons_ne_nil c cs) hround]

/-- **At an equals sign where a key should start nothing goes on.** -/
lemma not_yieldsSettings_equals (text : List Char) : ¬ YieldsSettings ('=' :: text) settings := by
  rintro ⟨fuel, h⟩
  have hread : readSetting ('=' :: text) = (none, '=' :: text) := rfl
  induction fuel with
  | zero => simp [parseConninfo] at h
  | succ fuel ih =>
      rw [parseConninfo, if_neg (List.cons_ne_nil _ _), hread] at h
      exact ih h

/-- A word that is no key is left out. -/
lemma readSetting_word {word : List Char} (hne : word ≠ [])
    (hword : ∀ c ∈ word, isSpace c = false ∧ c ≠ '=') (hend : ∀ c ∈ rest.head?, isSpace c)
    (hrest : ∀ c ∈ (rest.dropWhile isSpace).head?, c ≠ '=') :
    readSetting (word ++ rest) = (none, rest.dropWhile isSpace) := by
  have hspace : (word ++ rest).dropWhile isSpace = word ++ rest := by
    cases word with
    | nil => exact absurd rfl hne
    | cons d ds => exact List.dropWhile_cons_of_neg (by simp [hword d List.mem_cons_self])
  have hdrop : (word ++ rest).dropWhile isKeyChar = rest :=
    (span_append (fun c hc => by simp [isKeyChar, hword c hc])
      (fun c hc => by simp [isKeyChar, hend c hc])).2
  rw [readSetting, hspace, hdrop]
  cases hcs : rest.dropWhile isSpace with
  | nil => rfl
  | cons c cs =>
      rw [hcs] at hrest
      have hc : c ≠ '=' := hrest c rfl
      split
      · rename_i heq
        exact absurd (List.cons_eq_cons.mp heq).1 hc
      · rfl

end Rounds

/-! ## What is read to its end -/

/-- A readable text has no equals sign at its start. -/
lemma Readable.head {text : List Char} (h : Readable text) :
    ∀ c ∈ (text.dropWhile isSpace).head?, c ≠ '=' := by
  cases h with
  | blank hspace => simp [List.dropWhile_eq_nil_iff.mpr hspace]
  | @word space word rest hspace hne hword hend hrest =>
      rw [(span_append hspace (head_word hne (fun c hc => (hword c hc).1) rest)).2]
      exact head_word hne (fun c hc => (hword c hc).2) rest
  | @setting s rest hopens hvalue hfollows hrest =>
      rw [ConnSetting.text, List.append_assoc, dropWhile_opening hopens]
      exact head_word hopens.key_ne (fun c hc => (hopens.key c hc).2) _
  | @unfinished s rest hopens hrest =>
      rw [dropWhile_opening hopens]
      exact head_word hopens.key_ne (fun c hc => (hopens.key c hc).2) _

/-- White space before a readable text. -/
lemma Readable.space {text : List Char} (h : Readable text) {space : List Char}
    (hspace : ∀ c ∈ space, isSpace c) : Readable (space ++ text) := by
  have hboth : ∀ {space' : List Char}, (∀ c ∈ space', isSpace c) → ∀ c ∈ space ++ space', isSpace c :=
    fun hspace' c hc => (List.mem_append.mp hc).elim (hspace c) (hspace' c)
  cases h with
  | blank hspace' => exact .blank (hboth hspace')
  | word hspace' hne hword hend hrest =>
      rw [← List.append_assoc]
      exact .word (hboth hspace') hne hword hend hrest
  | @setting s rest hopens hvalue hfollows hrest =>
      have htext : space ++ (s.text ++ rest) =
          { s with before := space ++ s.before }.text ++ rest := by
        simp [ConnSetting.text, ConnSetting.opening]
      rw [htext]
      exact .setting { hopens with before := hboth hopens.before } hvalue hfollows hrest
  | @unfinished s rest hopens hrest =>
      have htext : space ++ (s.opening ++ rest) =
          { s with before := space ++ s.before }.opening ++ rest := by
        simp [ConnSetting.opening]
      rw [htext]
      exact .unfinished { hopens with before := hboth hopens.before } hrest

/-- A lone backslash is taken as it is. -/
lemma readChars_backslash {stops : Char → Bool} (hstops : stops '\\' = false) :
    readChars stops ['\\'] = (['\\'], []) := by
  simp [readChars, hstops]

/-- **An unfinished value is read to the end of the text.** -/
lemma Unfinished.read {text : List Char} (h : Unfinished text) :
    (readValue (text.dropWhile isSpace)).2 = [] := by
  cases h with
  | @quoted cs hcs =>
      show (readChars isQuote (cs.flatMap ValueChar.text)).2.drop 1 = []
      have hread := readChars_append rfl hcs []
      rw [List.append_nil] at hread
      rw [hread]
      rfl
  | @quotedBackslash cs hcs =>
      show (readChars isQuote (cs.flatMap ValueChar.text ++ ['\\'])).2.drop 1 = []
      rw [readChars_append rfl hcs, readChars_backslash rfl]
      rfl
  | @unquotedBackslash cs hcs hhead =>
      have hread : (readChars isSpace (cs.flatMap ValueChar.text ++ ['\\'])).2 = [] := by
        rw [readChars_append rfl hcs, readChars_backslash rfl]
      cases cs with
      | nil => rfl
      | cons v cs =>
          cases v with
          | plain c =>
              have hc := (hcs c List.mem_cons_self).1
              have hne : ∀ quoted, c :: (cs.flatMap ValueChar.text ++ ['\\']) ≠ '\'' :: quoted := by
                intro quoted htext
                obtain ⟨rfl, _⟩ := List.cons_eq_cons.mp htext
                exact hhead rfl
              show (readValue ((c :: (cs.flatMap ValueChar.text ++ ['\\'])).dropWhile isSpace)).2 = []
              rw [List.dropWhile_cons_of_neg (by simp [hc]), readValue.eq_2 _ hne]
              exact hread
          | escaped c => exact hread

/-- **A readable text is read to its end.** -/
lemma Readable.ends {text : List Char} (h : Readable text) :
    ∃ settings, YieldsSettings text settings := by
  induction h with
  | blank hspace =>
      refine ⟨[], ?_⟩
      rw [yieldsSettings_dropWhile, List.dropWhile_eq_nil_iff.mpr hspace]
      exact yieldsSettings_nil.mpr rfl
  | @word space word rest hspace hne hword hend hrest ih =>
      obtain ⟨settings, hsettings⟩ := ih
      refine ⟨settings, ?_⟩
      rw [yieldsSettings_dropWhile,
        (span_append hspace (head_word hne (fun c hc => (hword c hc).1) rest)).2,
        yieldsSettings_none (List.append_ne_nil_of_left_ne_nil hne rest)
          (readSetting_word hne hword hend hrest.head),
        ← yieldsSettings_dropWhile]
      exact hsettings
  | @setting s rest hopens hvalue hfollows hrest ih =>
      obtain ⟨settings, hsettings⟩ := ih
      refine ⟨s.pair :: settings, ?_⟩
      have hne : s.text ++ rest ≠ [] := by
        rw [ConnSetting.text, List.append_assoc]
        exact opening_ne_nil s _
      rw [yieldsSettings_some hne (readSetting_text hopens hvalue hfollows)]
      exact ⟨settings, rfl, hsettings⟩
  | @unfinished s rest hopens hrest =>
      refine ⟨[(s.key, (readValue (rest.dropWhile isSpace)).1)], ?_⟩
      have hread := readSetting_opening hopens rest
      rw [hrest.read] at hread
      rw [yieldsSettings_some (opening_ne_nil s rest) hread]
      exact ⟨[], rfl, yieldsSettings_nil.mpr rfl⟩

/-- **Every text that starts with a value** goes on behind it, or ends in it. -/
lemma exists_settingValue {text : List Char} (h : ∀ c ∈ text.head?, isSpace c = false) :
    Unfinished text ∨ ∃ (v : SettingValue) (rest : List Char), text = v.text ++ rest ∧
      v.Fits isSpace ∧ v.Follows isSpace rest := by
  by_cases hquote : text.head? = some '\''
  · obtain ⟨quoted, rfl⟩ : ∃ quoted, text = '\'' :: quoted := by
      cases text with
      | nil => cases hquote
      | cons c cs => exact ⟨cs, by rw [Option.some.inj hquote]⟩
    obtain ⟨cs, rest, rfl, hcs, hrest⟩ := exists_unstopped isQuote quoted
    rcases hrest with rfl | hrest
    · exact .inl (.quotedBackslash hcs)
    · cases rest with
      | nil =>
          rw [List.append_nil]
          exact .inl (.quoted hcs)
      | cons d rest =>
          obtain rfl : d = '\'' := by simpa [isQuote] using hrest d rfl
          exact .inr ⟨.quoted cs, rest, by simp [SettingValue.text], hcs, trivial⟩
  · obtain ⟨cs, rest, rfl, hcs, hrest⟩ := exists_unstopped isSpace text
    have hhead : cs.head? ≠ some (.plain '\'') := by
      intro hplain
      cases cs with
      | nil => cases hplain
      | cons v cs =>
          obtain rfl := Option.some.inj hplain
          exact hquote rfl
    rcases hrest with rfl | hrest
    · exact .inl (.unquotedBackslash hcs hhead)
    · refine .inr ⟨.unquoted cs, rest, rfl, ⟨hcs, hhead⟩, hrest, ?_⟩
      rintro rfl
      cases rest with
      | nil => rfl
      | cons d rest =>
          have hspace := hrest d rfl
          rw [h d rfl] at hspace
          cases hspace

/-- **Every text is blank, or starts with an equals sign, a word or what stands before a value.** -/
lemma exists_start (text : List Char) : (∀ c ∈ text, isSpace c) ∨
    (∃ rest, text.dropWhile isSpace = '=' :: rest) ∨
    (∃ space word rest, text = space ++ (word ++ rest) ∧ (∀ c ∈ space, isSpace c) ∧ word ≠ [] ∧
      (∀ c ∈ word, isSpace c = false ∧ c ≠ '=') ∧ (∀ c ∈ rest.head?, isSpace c) ∧
      ∀ c ∈ (rest.dropWhile isSpace).head?, c ≠ '=') ∨
    ∃ (s : ConnSetting) (rest : List Char), text = s.opening ++ rest ∧ s.Opens isSpace ∧
      ∀ c ∈ rest.head?, isSpace c = false := by
  obtain ⟨space, text, rfl, hspace, htext⟩ := exists_span isSpace text
  obtain ⟨word, rest, rfl, hkey, hrest⟩ := exists_span isKeyChar text
  have hword : ∀ c ∈ word, isSpace c = false ∧ c ≠ '=' := fun c hc => by
    simpa [isKeyChar] using hkey c hc
  have hequals : ∀ c ∈ rest.head?, isSpace c = false → c = '=' := fun c hc hblank => by
    simpa [isKeyChar, hblank] using hrest c hc
  by_cases hne : word = []
  · subst hne
    cases rest with
    | nil =>
        left
        simpa using hspace
    | cons c cs =>
        -- neither white space nor a key starts here
        obtain rfl := hequals c rfl (htext c rfl)
        exact .inr (.inl ⟨cs, (span_append hspace htext).2⟩)
  · obtain ⟨gap, behind, rfl, hgap, hbehind⟩ := exists_span isSpace rest
    cases behind with
    | nil =>
        refine .inr (.inr (.inl ⟨space, word, gap, by simp, hspace, hne, hword, ?_, ?_⟩))
        · exact fun c hc => hgap c (List.mem_of_head? hc)
        · simp [List.dropWhile_eq_nil_iff.mpr hgap]
    | cons d ds =>
        by_cases hd : d = '='
        · subst hd
          obtain ⟨gap', value, rfl, hgap', hvalue⟩ := exists_span isSpace ds
          exact .inr (.inr (.inr ⟨⟨space, word, gap, gap', .unquoted []⟩, value,
            by simp [ConnSetting.opening], ⟨hspace, hgap, hgap', hne, hword⟩, hvalue⟩))
        · refine .inr (.inr (.inl ⟨space, word, gap ++ d :: ds, rfl, hspace, hne, hword, ?_, ?_⟩))
          · intro c hc
            by_contra hblank
            obtain rfl := hequals c hc (by simpa using hblank)
            cases gap with
            | nil => exact hd (Option.some.inj hc)
            | cons e es =>
                obtain rfl := Option.some.inj hc
                exact hblank (hgap '=' List.mem_cons_self)
          · rw [(span_append hgap hbehind).2]
            intro c hc
            obtain rfl := Option.some.inj hc
            exact hd

/-- **What is read to its end is readable.** -/
lemma readable_of_yields {text : List Char} {settings : List (List Char × List Char)}
    (h : YieldsSettings text settings) : Readable text := by
  induction hn : text.length using Nat.strong_induction_on generalizing text settings with
  | _ n ih =>
      subst hn
      rcases exists_start text with hblank | ⟨rest, hequals⟩ |
        ⟨space, word, rest, rfl, hspace, hne, hword, hend, hrest⟩ | ⟨s, rest, rfl, hopens, hrest⟩
      · exact .blank hblank
      · rw [yieldsSettings_dropWhile, hequals] at h
        exact absurd h (not_yieldsSettings_equals rest)
      · refine .word hspace hne hword hend (@ih rest.length ?_ rest settings ?_ rfl)
        · have := List.length_pos_iff.mpr hne
          simp only [List.length_append]
          omega
        · rw [yieldsSettings_dropWhile,
            (span_append hspace (head_word hne (fun c hc => (hword c hc).1) rest)).2,
            yieldsSettings_none (List.append_ne_nil_of_left_ne_nil hne rest)
              (readSetting_word hne hword hend hrest), ← yieldsSettings_dropWhile] at h
          exact h
      · rcases exists_settingValue hrest with hunfinished | ⟨v, rest, rfl, hfits, hfollows⟩
        · exact .unfinished hopens hunfinished
        · have hopens' : { s with value := v }.Opens isSpace := { hopens with }
          have htext : s.opening ++ (v.text ++ rest) = { s with value := v }.text ++ rest := by
            simp [ConnSetting.text, ConnSetting.opening]
          have hread := readSetting_text hopens' hfits hfollows
          rw [← htext] at hread
          obtain ⟨settings', _, hrest'⟩ := (yieldsSettings_some (opening_ne_nil s _) hread).mp h
          rw [htext]
          refine .setting hopens' hfits hfollows (@ih rest.length ?_ rest settings' hrest' rfl)
          simp only [ConnSetting.opening, List.length_append, List.length_cons]
          omega

/-! ## What is read as it is written -/

/-- A key has no white space. -/
lemma isSpace_of_keyword {c : Char} (h : c.isAlphanum ∨ c = '_') : isSpace c = false ∧ c ≠ '\\' ∧
    c ≠ '\'' := by
  rcases h with h | rfl
  · refine ⟨?_, ?_, ?_⟩
    · have hrange : 48 ≤ c.toNat ∧ c.toNat ≤ 122 := by
        simp only [Char.isAlphanum, isAlpha_iff, Char.isDigit, Bool.or_eq_true, Bool.and_eq_true,
          decide_eq_true_eq, ge_iff_le, UInt32.le_iff_toNat_le] at h
        rcases h with (⟨hlow, hhigh⟩ | ⟨hlow, hhigh⟩) | ⟨hlow, hhigh⟩
        · exact ⟨Nat.le_trans (show 48 ≤ 65 by omega) hlow, Nat.le_trans hhigh (show 90 ≤ 122 by omega)⟩
        · exact ⟨Nat.le_trans (show 48 ≤ 97 by omega) hlow, hhigh⟩
        · exact ⟨hlow, Nat.le_trans hhigh (show 57 ≤ 122 by omega)⟩
      simp only [isSpace, isWhitespace, Bool.or_eq_false_iff, Bool.and_eq_false_iff,
        decide_eq_false_iff_not]
      omega
    · rintro rfl
      cases h
    · rintro rfl
      cases h
  · exact ⟨rfl, by decide, by decide⟩

/-- What stands before the value of a written setting is read as it is written. -/
lemma ConnSetting.Opens.reads {s : ConnSetting} (h : s.Opens isConninfoSpace)
    (hkey : ∀ c ∈ s.key, c.isAlphanum ∨ c = '_') : s.Opens isSpace where
  before c hc := isSpace_of_isConninfoSpace (h.before c hc)
  beforeEquals c hc := isSpace_of_isConninfoSpace (h.beforeEquals c hc)
  afterEquals c hc := isSpace_of_isConninfoSpace (h.afterEquals c hc)
  key_ne := h.key_ne
  key c hc := ⟨(isSpace_of_keyword (hkey c hc)).1, (h.key c hc).2⟩

lemma SettingValue.Follows.reads {v : SettingValue} {rest : List Char}
    (h : v.Follows isConninfoSpace rest) : v.Follows isSpace rest := by
  cases v with
  | quoted cs => trivial
  | unquoted cs => exact ⟨fun c hc => isSpace_of_isConninfoSpace (h.1 c hc), h.2⟩

/-- **The settings of a well-formed text are read** where their values have no white space of the one
who reads. -/
lemma WrittenAs.yields {ss : List ConnSetting} {text : List Char} (h : WrittenAs ss text)
    (hfits : ∀ s ∈ ss, s.value.Fits isSpace) : YieldsSettings text (ss.map ConnSetting.pair) := by
  induction h with
  | blank hspace =>
      have hblank := List.dropWhile_eq_nil_iff.mpr fun c hc => isSpace_of_isConninfoSpace (hspace c hc)
      rw [yieldsSettings_dropWhile, hblank]
      exact yieldsSettings_nil.mpr rfl
  | @setting s ss rest hopens hkey hvalue hfollows hrest ih =>
      have hread := readSetting_text (hopens.reads hkey) (hfits s List.mem_cons_self) hfollows.reads
      have hne : s.text ++ rest ≠ [] := by
        rw [ConnSetting.text, List.append_assoc]
        exact opening_ne_nil s _
      rw [yieldsSettings_some hne hread]
      exact ⟨_, rfl, ih fun s hs => hfits s (List.mem_cons_of_mem _ hs)⟩

/-! ### What is not -/

/-- A value in which something stops is read short. -/
lemma readChars_short {stops : Char → Bool} (hstops : stops '\\' = false) {cs : List ValueChar}
    (hplain : ∀ c, .plain c ∈ cs → c ≠ '\\') (h : ¬ Unstopped stops cs) (rest : List Char) :
    (readChars stops (cs.flatMap ValueChar.text ++ rest)).1.length < cs.length := by
  induction cs with
  | nil => exact absurd (fun c hc => (nomatch hc)) h
  | cons v cs ih =>
      have hplain' : ∀ c, .plain c ∈ cs → c ≠ '\\' := fun c hc =>
        hplain c (List.mem_cons_of_mem v hc)
      rw [List.flatMap_cons, List.append_assoc, List.length_cons]
      cases v with
      | plain c =>
          show (readChars stops (c :: (cs.flatMap ValueChar.text ++ rest))).1.length < _
          by_cases hc : stops c = true
          · rw [readChars_stop (by simpa using hc)]
            exact Nat.succ_pos _
          · have hc' : stops c = false := by simpa using hc
            rw [readChars_plain hc' (hplain c List.mem_cons_self)]
            have hcs : ¬ Unstopped stops cs := fun hcs => h fun d hd => by
              rcases List.mem_cons.mp hd with heq | hd
              · obtain rfl := ValueChar.plain.inj heq
                exact ⟨hc', hplain d List.mem_cons_self⟩
              · exact hcs d hd
            exact Nat.succ_lt_succ (ih hplain' hcs)
      | escaped c =>
          show (readChars stops ('\\' :: c :: (cs.flatMap ValueChar.text ++ rest))).1.length < _
          rw [readChars_escaped hstops]
          have hcs : ¬ Unstopped stops cs := fun hcs => h fun d hd =>
            (List.mem_cons.mp hd).elim (fun heq => nomatch heq) (hcs d)
          exact Nat.succ_lt_succ (ih hplain' hcs)

/-- A well-formed text has a key where it does not have white space. -/
lemma WrittenAs.start {ss : List ConnSetting} {text : List Char} (h : WrittenAs ss text) :
    ∀ c ∈ (text.dropWhile isSpace).head?, c.isAlphanum ∨ c = '_' := by
  cases h with
  | blank hspace =>
      simp [List.dropWhile_eq_nil_iff.mpr fun c hc => isSpace_of_isConninfoSpace (hspace c hc)]
  | @setting s ss rest hopens hkey hvalue hfollows hrest =>
      rw [ConnSetting.text, List.append_assoc, dropWhile_opening (hopens.reads hkey)]
      exact head_word hopens.key_ne hkey _

/-- A character of a value without a backslash, white space for who reads. -/
def ValueChar.isBlank : ValueChar → Bool
  | .plain c => isSpace c
  | .escaped _ => false

/-- Blanks are as they are written. -/
lemma text_blanks {us : List ValueChar} (h : ∀ v ∈ us, v.isBlank) :
    us.flatMap ValueChar.text = us.map ValueChar.char ∧ ∀ c ∈ us.map ValueChar.char, isSpace c := by
  induction us with
  | nil => simp
  | cons v us ih =>
      obtain ⟨htext, hchars⟩ := ih fun v hv => h v (List.mem_cons_of_mem _ hv)
      cases v with
      | plain c =>
          exact ⟨congrArg (c :: ·) htext,
            List.forall_mem_cons.mpr ⟨h (.plain c) List.mem_cons_self, hchars⟩⟩
      | escaped c => cases h (.escaped c) List.mem_cons_self

/-- What is read behind a value of blanks is a key. -/
lemma readValue_key {text : List Char} (h : ∀ c ∈ text.head?, c.isAlphanum ∨ c = '_') :
    ∀ c ∈ (readValue text).1.head?, isSpace c = false := by
  cases text with
  | nil => simp [readValue, readChars]
  | cons c cs =>
      obtain ⟨hspace, hback, hquote⟩ := isSpace_of_keyword (h c rfl)
      have hne : ∀ quoted, c :: cs ≠ '\'' :: quoted := by
        intro quoted htext
        exact hquote (List.cons_eq_cons.mp htext).1
      rw [readValue.eq_2 _ hne, readChars_plain hspace hback]
      intro d hd
      obtain rfl := Option.some.inj hd
      exact hspace

/-- A quote inside a value is read over white space, or the value is read short. -/
lemma readChars_quote {ds : List ValueChar} (hplain : ∀ c, .plain c ∈ ds → c ≠ '\\') {rest : List Char}
    (hrest : ∀ c ∈ rest.head?, isConninfoSpace c = true) :
    (readChars isQuote (ds.flatMap ValueChar.text ++ rest)).1.length ≤ ds.length ∨
      (ds.map ValueChar.char).countP isConninfoSpace <
        (readChars isQuote (ds.flatMap ValueChar.text ++ rest)).1.countP isConninfoSpace := by
  by_cases hquote : Unstopped isQuote ds
  · rw [readChars_append rfl hquote]
    cases rest with
    | nil => simp [readChars]
    | cons c cs =>
        have hc := hrest c rfl
        have hstop : isQuote c = false ∧ c ≠ '\\' := by
          refine ⟨?_, ?_⟩
          · by_contra hquote
            obtain rfl : c = '\'' := by simpa [isQuote] using hquote
            cases hc
          · rintro rfl
            cases hc
        right
        rw [readChars_plain hstop.1 hstop.2, List.countP_append, List.countP_cons_of_pos hc]
        omega
  · exact .inl (readChars_short rfl hplain hquote rest).le

/-- **A value with white space of the one who reads is not read as it is written.** -/
lemma readValue_ne {cs : List ValueChar} (hcs : Unstopped isConninfoSpace cs)
    (hnot : ¬ Unstopped isSpace cs) {ss : List ConnSetting} {rest : List Char}
    (hfollows : (SettingValue.unquoted cs).Follows isConninfoSpace rest) (hrest : WrittenAs ss rest) :
    (readValue ((cs.flatMap ValueChar.text ++ rest).dropWhile isSpace)).1 ≠ cs.map ValueChar.char := by
  obtain ⟨us, ds, rfl, hus, hds⟩ := exists_span ValueChar.isBlank cs
  obtain ⟨htext, hchars⟩ := text_blanks hus
  have hplain : ∀ c, .plain c ∈ ds → c ≠ '\\' := fun c hc => (hcs c (List.mem_append_right us hc)).2
  have hlength : ((us ++ ds).map ValueChar.char).length = us.length + ds.length := by simp
  rw [List.flatMap_append, htext, List.append_assoc, List.dropWhile_append_of_pos hchars]
  intro heq
  cases ds with
  | nil =>
      -- the value is white space, and what is read is the key behind it
      have hkey := readValue_key hrest.start
      rw [List.flatMap_nil, List.nil_append] at heq
      rw [heq, List.append_nil] at hkey
      cases us with
      | nil => exact hnot fun c hc => (nomatch hc)
      | cons u us =>
          have hspace := hchars u.char List.mem_cons_self
          rw [hkey u.char rfl] at hspace
          cases hspace
  | cons v ds =>
      have hstart : ((v :: ds).flatMap ValueChar.text ++ rest).dropWhile isSpace =
          (v :: ds).flatMap ValueChar.text ++ rest := by
        cases v with
        | plain c =>
            have hc : isSpace c = false := hds (.plain c) rfl
            exact List.dropWhile_cons_of_neg (by simp [hc])
        | escaped c => rfl
      rw [hstart] at heq
      by_cases hquote : v = .plain '\''
      · -- a quote behind white space starts a value with quotes
        subst hquote
        have hread : (readChars isQuote (ds.flatMap ValueChar.text ++ rest)).1 =
            (us ++ .plain '\'' :: ds).map ValueChar.char := heq
        have hplain' : ∀ c, .plain c ∈ ds → c ≠ '\\' := fun c hc =>
          hplain c (List.mem_cons_of_mem _ hc)
        rcases readChars_quote hplain' hfollows.1 with hle | hlt
        · rw [hread, hlength, List.length_cons] at hle
          omega
        · have hblank : (us.map ValueChar.char).countP isConninfoSpace = 0 := by
            refine List.countP_eq_zero.mpr fun c hc => ?_
            obtain ⟨u, hu, rfl⟩ := List.mem_map.mp hc
            cases u with
            | plain c => simp [ValueChar.char, hcs c (List.mem_append_left _ hu)]
            | escaped c => cases hus (.escaped c) hu
          rw [hread, List.map_append, List.countP_append, hblank] at hlt
          simp [ValueChar.char, isConninfoSpace] at hlt
      · have hne : ∀ quoted, (v :: ds).flatMap ValueChar.text ++ rest ≠ '\'' :: quoted := by
          intro quoted htext
          cases v with
          | plain c =>
              obtain ⟨rfl, _⟩ := List.cons_eq_cons.mp htext
              exact hquote rfl
          | escaped c => cases (List.cons_eq_cons.mp htext).1
        rw [readValue.eq_2 _ hne] at heq
        by_cases hunstopped : Unstopped isSpace (v :: ds)
        · rw [readChars_append rfl hunstopped,
            readChars_stop fun c hc => isSpace_of_isConninfoSpace (hfollows.1 c hc)] at heq
          have hus' : us = [] := by
            have hle := congrArg List.length heq
            rw [hlength] at hle
            simp only [List.append_nil, List.length_map] at hle
            exact List.length_eq_zero_iff.mp (by omega)
          subst hus'
          exact hnot hunstopped
        · have hlt := readChars_short rfl hplain hunstopped rest
          rw [heq, hlength] at hlt
          omega

/-- **What is read as it is written has no white space of the one who reads.** -/
lemma WrittenAs.fits {ss : List ConnSetting} {text : List Char} (h : WrittenAs ss text)
    (hyields : YieldsSettings text (ss.map ConnSetting.pair)) : ∀ s ∈ ss, s.value.Fits isSpace := by
  induction h with
  | blank hspace => exact fun s hs => (nomatch hs)
  | @setting s ss rest hopens hkey hvalue hfollows hrest ih =>
      have hopening := readSetting_opening (hopens.reads hkey) (s.value.text ++ rest)
      rw [← List.append_assoc] at hopening
      have hne : s.text ++ rest ≠ [] := by
        rw [ConnSetting.text, List.append_assoc]
        exact opening_ne_nil s _
      have hfits : s.value.Fits isSpace := by
        obtain ⟨settings', heq, _⟩ := (yieldsSettings_some hne hopening).mp hyields
        have hvalue' := (Prod.ext_iff.mp (List.cons_eq_cons.mp heq).1).2
        cases hv : s.value with
        | quoted cs =>
            rw [hv] at hvalue
            exact hvalue
        | unquoted cs =>
            rw [hv] at hvalue hfollows
            refine ⟨?_, hvalue.2⟩
            by_contra hnot
            refine readValue_ne hvalue.1 hnot hfollows hrest ?_
            rw [ConnSetting.pair, hv] at hvalue'
            exact hvalue'.symm
      have hread := readSetting_text (hopens.reads hkey) hfits hfollows.reads
      obtain ⟨settings', heq, hrest'⟩ := (yieldsSettings_some hne hread).mp hyields
      obtain ⟨_, rfl⟩ := List.cons_eq_cons.mp heq
      exact List.forall_mem_cons.mpr ⟨hfits, ih hrest'⟩

/-- **The conditions are exact**: the reader ends just on the readable texts, and reads a well-formed
one as it is written just where its values have no white space that only the reader takes for it. -/
theorem readsWell_iff (text : List Char) : ReadsWell text ↔
    Readable text ∧ ∀ ss, WrittenAs ss text → ∀ s ∈ ss, s.value.Fits isSpace := by
  constructor
  · intro h
    obtain ⟨settings, hsettings⟩ := h.ends
    exact ⟨readable_of_yields hsettings, fun ss hss => hss.fits (h.exact ss hss)⟩
  · rintro ⟨hreadable, hfits⟩
    exact ⟨hreadable.ends, fun ss hss => hss.yields (hfits ss hss)⟩

/-- A text that starts with an equals sign is read for ever. -/
theorem equals_never_ends : ¬ ∀ text, ReadsWell text := by
  intro h
  obtain ⟨settings, hsettings⟩ := (h "=x".toList).ends
  exact not_yieldsSettings_equals ['x'] hsettings

end OdooKernel
