import OdooKernel.Core.Runs
import OdooKernel.Cursor.Keywords

/-!
# Statements that change the schema

A connection notes that a statement of its transaction changed the schema.  A rollback then drops the
plans of the kernel with those of the cursor; otherwise the kernel's plans survive it, which they may
where no table has changed under them.

**Two ways to read a text.**  `statementIsDdl` looks at the text behind white space and parentheses;
`StartsDdl` is what it is meant to find, by the first keyword behind comments as well, as
`leadingKeyword` reads it.  They agree on a text that changes the schema exactly where nothing but
white space and parentheses stands before the keyword (`statementIsDdl_iff`).

**Runs.**  The state is the transaction's flag, the note, and the two kinds of plans, which are of
any type: what a call does to them is the call's to say, and only what drops them is looked at.
`Told` is the condition on a call: a change of the schema in it can be told, or was noted before.

* `statementIsDdl` — the statements that are noted.
* `StartsDdl` — the statements that change the schema, by their first keyword.
* `PlainOpening` — nothing but white space and parentheses stands before the keyword.
* `executeStatement`, `kernelRead`, `rollback` — what a call does to the note and to the plans.
* **`undone_plans_dropped`** — no plan survives the rollback of a change that was noted.
-/

namespace OdooKernel

namespace Ddl

/-! ## The texts -/

/-- The words that a change of the schema starts with. -/
def ddlWords : List (List Char) :=
  ["create".toList, "alter".toList, "drop".toList, "truncate".toList, "comment".toList, "do".toList,
    "refresh".toList]

/-- A text starts with a word, behind which something stands that does not belong to it. -/
def startsWithWholeWord (word head : List Char) : Bool :=
  startsWithWord word head && (head.drop word.length).head?.any fun c => !c.isAlphanum && c ≠ '_'

def statementIsDdl (sql : List Char) : Bool :=
  ddlWords.any fun word => startsWithWholeWord word (statementHead sql)

/-- The keywords of a change of the schema. -/
def ddlKeywords : List (List Char) := ddlWords.map asciiUpper

/-- **A statement that changes the schema**, by its first keyword. -/
def StartsDdl (sql : List Char) : Prop :=
  leadingKeyword sql ∈ ddlKeywords ∧ (behindOpening 0 none sql).dropWhile isIdentChar ≠ []

/-- **White space, then parentheses, then white space** stands before the first keyword. -/
def PlainOpening (sql : List Char) : Prop :=
  ∃ space parens space', sql = space ++ (parens ++ (space' ++ behindOpening 0 none sql)) ∧
    (∀ c ∈ space, isWhitespace c) ∧ (∀ c ∈ parens, c = '(') ∧ ∀ c ∈ space', isWhitespace c

/-! ## The connection -/

/-- A connection: its transaction, its note, and the plans of the cursor and of the kernel. -/
structure RustConn (π κ : Type) where
  inTx : Bool
  autocommit : Bool
  closed : Bool
  ddlInTx : Bool
  stmtCache : List π
  kernelStmts : List κ

section Calls

variable {π κ : Type} (conn : RustConn π κ)

def clearPrepared : RustConn π κ := { conn with stmtCache := [], kernelStmts := [] }

/-- The plans of the kernel survive, unless the schema was changed. -/
def clearPreparedAfterRollback : RustConn π κ :=
  if conn.ddlInTx then clearPrepared conn else { conn with stmtCache := [] }

/-- The flag is set before the statement is sent. -/
def ensureTx : RustConn π κ := if conn.autocommit then conn else { conn with inTx := true }

/-- Whether a transaction has to be opened first. -/
def needsBegin : Bool := !conn.autocommit && !conn.inTx

/-- What a statement does to the note and the plans, before it is sent. -/
def noted (query : List Char) : RustConn π κ :=
  let conn := if conn.inTx && statementIsDdl query then { conn with ddlInTx := true } else conn
  if statementDrops query then clearPrepared conn
  else if statementInvalidatesPrepared query then clearPreparedAfterRollback conn
  else conn

/-- **A statement**: whether a transaction could be opened for it, its text, whether it has no
parameters, and what it does to the cursor's plans. -/
def executeStatement (begun : Bool) (query : List Char) (unparameterised : Bool)
    (plans : List π → List π) : RustConn π κ :=
  if conn.closed then conn
  else
    let opened := ensureTx (if conn.inTx then conn else { conn with ddlInTx := false })
    if needsBegin conn && !begun then opened
    else
      let conn := noted opened query
      if unparameterised && hasMultipleStatements query then
        clearPrepared { conn with ddlInTx := conn.inTx }
      else { conn with stmtCache := plans conn.stmtCache }

/-- A read of the kernel, which is undone if it fails. -/
def kernelRead (begun : Bool) (plans : List κ → List κ) (failed : Bool) : RustConn π κ :=
  if conn.autocommit then conn
  else if needsBegin conn && !begun then ensureTx conn
  else
    let conn := ensureTx conn
    let conn := { conn with kernelStmts := plans conn.kernelStmts }
    if failed then clearPreparedAfterRollback conn else conn

/-- The server is lost. -/
def losing : RustConn π κ := { conn with closed := true, inTx := false }

def rollback : RustConn π κ :=
  { clearPreparedAfterRollback conn with inTx := false, ddlInTx := false }

end Calls

/-- A call in a transaction, and whether the server is lost in it.  A return to a savepoint is a
statement. -/
inductive Call (π κ : Type) where
  | execute (begun : Bool) (query : List Char) (unparameterised : Bool) (plans : List π → List π)
      (lost : Bool)
  | kernelRead (begun : Bool) (plans : List κ → List κ) (failed : Bool)

section Runs

variable {π κ : Type}

/-- The connection after a call. -/
def step (conn : RustConn π κ) : Call π κ → Option (RustConn π κ)
  | .execute begun query unparameterised plans lost =>
    let conn := executeStatement conn begun query unparameterised plans
    some (if lost then losing conn else conn)
  | .kernelRead begun plans failed => some (Ddl.kernelRead conn begun plans failed)

/-- **A change of the schema can be told**: nothing but white space and parentheses stands before its
keyword, unless one was noted before or several statements are sent at once. -/
def Told (conn : RustConn π κ) : Call π κ → Prop
  | .execute _ query unparameterised _ _ => StartsDdl query →
      PlainOpening query ∨ conn.ddlInTx ∨ (unparameterised && hasMultipleStatements query)
  | .kernelRead _ _ _ => True

end Runs

/-! ## What the texts tell -/

lemma isWhitespace_of_isAsciiWhitespace {c : Char} (h : isAsciiWhitespace c = true) :
    isWhitespace c = true := by
  simp only [isAsciiWhitespace, Bool.or_eq_true, decide_eq_true_eq] at h
  rcases h with (((rfl | rfl) | rfl) | rfl) | rfl <;> rfl

/-- **The opening stops at the keyword, or at white space that is none of ASCII.** -/
lemma behindOpening_append {c : Char} (hc : isAsciiWhitespace c = false)
    (hne : c ∉ ['(', '-', '/']) (cs : List Char) : ∀ (xs : List Char) (before : Option Char),
      (∀ x ∈ xs, isWhitespace x ∨ x = '(') →
        behindOpening 0 before (xs ++ c :: cs) = c :: cs ∨
          ∃ x rest, behindOpening 0 before (xs ++ c :: cs) = x :: rest ∧ isWhitespace x ∧
            isAsciiWhitespace x = false
  | [], before, _ => by
      simp only [List.mem_cons, List.not_mem_nil, or_false, not_or] at hne
      left
      rw [List.nil_append, behindOpening]
      simp only [hc, hne.1, decide_false, Bool.or_self, Bool.false_eq_true, if_false]
      cases opaqueAt before c cs <;> simp [hne]
  | x :: xs, before, h => by
      have hx := h x List.mem_cons_self
      rw [List.cons_append, behindOpening]
      by_cases hskip : (isAsciiWhitespace x || decide (x = '(')) = true
      · rw [if_pos hskip]
        exact behindOpening_append hc hne cs xs (some x) fun y hy => h y (List.mem_cons_of_mem _ hy)
      · rw [if_neg hskip]
        have hx' : isAsciiWhitespace x = false ∧ x ≠ '(' := by simpa using hskip
        have hspace : isWhitespace x = true := hx.resolve_right hx'.2
        have hcomment : ¬ (x = '-' ∨ x = '/') := by
          rintro (rfl | rfl) <;> cases hspace
        right
        refine ⟨x, xs ++ c :: cs, ?_, hspace, hx'.1⟩
        cases opaqueAt before x (xs ++ c :: cs) <;> simp [hcomment]

/-- The letters that a change of the schema starts with. -/
def firstLetters : List Char := ['c', 'a', 'd', 't', 'r']

/-- A letter is neither white space nor what an opening has besides. -/
lemma not_opening {c : Char} (h : c.toLower ∈ firstLetters) :
    isWhitespace c = false ∧ c ∉ ['(', '-', '/'] := by
  constructor
  · have hletter : 97 ≤ c.toLower.toNat ∧ c.toLower.toNat ≤ 122 := by
      simp only [firstLetters, List.mem_cons, List.not_mem_nil, or_false] at h
      rcases h with h | h | h | h | h <;> rw [h] <;> decide
    rw [toNat_toLower] at hletter
    simp only [isWhitespace, Bool.or_eq_false_iff, Bool.and_eq_false_iff, decide_eq_false_iff_not]
    split_ifs at hletter <;> omega
  · intro hc
    simp only [List.mem_cons, List.not_mem_nil, or_false] at hc
    rcases hc with rfl | rfl | rfl <;> exact absurd h (by decide)

lemma isAsciiWhitespace_eq_false {c : Char} (h : isWhitespace c = false) :
    isAsciiWhitespace c = false := by
  by_contra hspace
  rw [isWhitespace_of_isAsciiWhitespace (by simpa using hspace)] at h
  cases h

/-- The words are written small, and start with one of the letters. -/
lemma ddlWords_lower : ∀ word ∈ ddlWords, word.map Char.toLower = word ∧
    ∃ c cs, word = c :: cs ∧ c ∈ firstLetters := by
  intro word hword
  have hlower : ∀ word ∈ ddlWords, word.map Char.toLower = word ∧
      word.head?.any firstLetters.contains = true := by decide
  obtain ⟨hmap, hhead⟩ := hlower word hword
  cases word with
  | nil => cases hhead
  | cons c cs => exact ⟨hmap, c, cs, rfl, List.contains_iff_mem.mp hhead⟩

/-- What a text starts with, in any case, starts with one of the letters. -/
lemma head_letter {word cs : List Char} (hword : word ∈ ddlWords) (h : cs.map Char.toLower = word) :
    ∃ d ds, cs = d :: ds ∧ d.toLower ∈ firstLetters := by
  obtain ⟨_, c, rest, rfl, hc⟩ := ddlWords_lower word hword
  cases cs with
  | nil => cases h
  | cons d ds =>
      rw [List.map_cons] at h
      obtain ⟨rfl, _⟩ := List.cons_eq_cons.mp h
      exact ⟨d, ds, rfl, hc⟩

/-- The keyword of a change of the schema is one of the words, in any case. -/
lemma StartsDdl.word {sql : List Char} (h : StartsDdl sql) : ∃ word ∈ ddlWords,
    ((behindOpening 0 none sql).takeWhile isIdentChar).map Char.toLower = word := by
  obtain ⟨word, hword, hkeyword⟩ := List.mem_map.mp h.1
  refine ⟨word, hword, ?_⟩
  have hlower := congrArg (List.map Char.toLower) hkeyword
  rw [leadingKeyword, asciiUpper, asciiUpper, List.map_map, List.map_map] at hlower
  have hcomp : Char.toLower ∘ Char.toUpper = Char.toLower := by
    funext c
    exact toLower_toUpper c
  rw [hcomp, (ddlWords_lower word hword).1] at hlower
  exact hlower.symm

/-- A text behind a plain opening. -/
lemma statementHead_append {space parens space' text : List Char} {c : Char}
    (hspace : ∀ c ∈ space, isWhitespace c) (hparens : ∀ c ∈ parens, c = '(')
    (hspace' : ∀ c ∈ space', isWhitespace c) (hc : c.toLower ∈ firstLetters) :
    statementHead (space ++ (parens ++ (space' ++ c :: text))) = c :: text := by
  obtain ⟨hblank, hopening⟩ := not_opening hc
  have hparen : c ≠ '(' := fun heq => hopening (heq ▸ List.mem_cons_self)
  have hdrop : (c :: text).dropWhile isWhitespace = c :: text :=
    List.dropWhile_cons_of_neg (by simp [hblank])
  have hdrop' : (space' ++ c :: text).dropWhile isWhitespace = c :: text := by
    rw [List.dropWhile_append_of_pos hspace', hdrop]
  rw [statementHead, List.dropWhile_append_of_pos hspace]
  cases parens with
  | nil =>
      rw [List.nil_append, hdrop', List.dropWhile_cons_of_neg (by simpa using hparen), hdrop]
  | cons p ps =>
      obtain rfl := hparens p List.mem_cons_self
      have hkept : ('(' :: ps ++ (space' ++ c :: text)).dropWhile isWhitespace =
          '(' :: ps ++ (space' ++ c :: text) := List.dropWhile_cons_of_neg (by decide)
      have hbehind : (space' ++ c :: text).dropWhile (· = '(') = space' ++ c :: text := by
        cases space' with
        | nil => exact List.dropWhile_cons_of_neg (by simpa using hparen)
        | cons b bs =>
            refine List.dropWhile_cons_of_neg ?_
            have hb := hspace' b List.mem_cons_self
            intro heq
            rw [of_decide_eq_true heq] at hb
            cases hb
      rw [hkept, List.dropWhile_append_of_pos (by simpa using hparens), hbehind, hdrop']

/-- What is dropped in front of the head is white space, parentheses and white space. -/
lemma exists_statementHead (sql : List Char) : ∃ space parens space',
    sql = space ++ (parens ++ (space' ++ statementHead sql)) ∧
      (∀ c ∈ space, isWhitespace c) ∧ (∀ c ∈ parens, c = '(') ∧ ∀ c ∈ space', isWhitespace c := by
  obtain ⟨space, text, rfl, hspace, htext⟩ := exists_span isWhitespace sql
  obtain ⟨parens, text, rfl, hparens, htext'⟩ := exists_span (· = '(') text
  obtain ⟨space', text, rfl, hspace', htext''⟩ := exists_span isWhitespace text
  refine ⟨space, parens, space', ?_, hspace, by simpa using hparens, hspace'⟩
  rw [statementHead, (span_append hspace htext).2, (span_append hparens htext').2,
    (span_append hspace' htext'').2]

/-- **A statement that changes the schema is noted where its opening is plain.** -/
lemma statementIsDdl_iff {sql : List Char} (h : StartsDdl sql) :
    statementIsDdl sql ↔ PlainOpening sql := by
  obtain ⟨word, hword, hlower⟩ := h.word
  obtain ⟨d, ds, hkeyword, hd⟩ := head_letter hword hlower
  constructor
  · intro hddl
    obtain ⟨noted, hnoted, hstarts⟩ := List.any_eq_true.mp hddl
    obtain ⟨space, parens, space', hsql, hspace, hparens, hspace'⟩ := exists_statementHead sql
    have hstarts' : ((statementHead sql).take noted.length).map Char.toLower = noted := by
      simpa [startsWithWord] using (Bool.and_eq_true_iff.mp hstarts).1
    obtain ⟨c, cs, htake, hc⟩ := head_letter hnoted hstarts'
    obtain ⟨rest, hhead⟩ : ∃ rest, statementHead sql = c :: rest := by
      refine ⟨cs ++ (statementHead sql).drop noted.length, ?_⟩
      rw [← List.cons_append, ← htake, List.take_append_drop]
    have hopening : ∀ x ∈ space ++ (parens ++ space'), isWhitespace x ∨ x = '(' := by
      simp only [List.mem_append]
      rintro x (hx | hx | hx)
      · exact .inl (hspace x hx)
      · exact .inr (hparens x hx)
      · exact .inl (hspace' x hx)
    obtain ⟨hblank, hchar⟩ := not_opening hc
    have hparts : sql = (space ++ (parens ++ space')) ++ c :: rest := by
      rw [hhead] at hsql
      simpa using hsql
    rcases behindOpening_append (isAsciiWhitespace_eq_false hblank) hchar rest _ none hopening with
      hbehind | ⟨x, rest', hbehind, hx, _⟩
    · rw [← hparts, ← hhead] at hbehind
      exact ⟨space, parens, space', by rw [hbehind]; exact hsql, hspace, hparens, hspace'⟩
    · -- white space that is none of ASCII stands where the keyword starts
      rw [← hparts] at hbehind
      rw [hbehind, List.takeWhile_cons] at hkeyword
      split_ifs at hkeyword
      obtain ⟨rfl, _⟩ := List.cons_eq_cons.mp hkeyword
      rw [(not_opening hd).1] at hx
      cases hx
  · rintro ⟨space, parens, space', hsql, hspace, hparens, hspace'⟩
    have hbehind : behindOpening 0 none sql =
        (behindOpening 0 none sql).takeWhile isIdentChar ++
          (behindOpening 0 none sql).dropWhile isIdentChar := List.takeWhile_append_dropWhile.symm
    have hhead : statementHead sql = behindOpening 0 none sql := by
      obtain ⟨rest, hrest⟩ : ∃ rest, behindOpening 0 none sql = d :: rest := by
        rw [hbehind, hkeyword]
        exact ⟨_, List.cons_append⟩
      have happend := @statementHead_append space parens space' rest d hspace hparens hspace' hd
      rw [← hrest, ← hsql] at happend
      exact happend
    obtain ⟨c, cs, hc⟩ := List.exists_cons_of_ne_nil h.2
    have hident : isIdentChar c = false := by
      have hnot := List.head?_dropWhile_not isIdentChar (behindOpening 0 none sql)
      rw [hc] at hnot
      simpa using hnot
    have hlength : word.length = ((behindOpening 0 none sql).takeWhile isIdentChar).length := by
      rw [← hlower, List.length_map]
    refine List.any_eq_true.mpr ⟨word, hword, ?_⟩
    rw [hhead, hbehind, hc, startsWithWholeWord, startsWithWord, hlength, List.take_left,
      List.drop_left, hlower]
    simp only [isIdentChar, Bool.or_eq_false_iff] at hident
    simp [hident.1.1.1, of_decide_eq_false hident.1.1.2]

/-! ## What a call does to the note -/

section Runs

variable {π κ : Type} {conn conn' : RustConn π κ}

@[simp] lemma clearPrepared_flags (conn : RustConn π κ) :
    (clearPrepared conn).inTx = conn.inTx ∧ (clearPrepared conn).closed = conn.closed ∧
      (clearPrepared conn).ddlInTx = conn.ddlInTx := ⟨rfl, rfl, rfl⟩

@[simp] lemma clearPreparedAfterRollback_flags (conn : RustConn π κ) :
    (clearPreparedAfterRollback conn).inTx = conn.inTx ∧
      (clearPreparedAfterRollback conn).closed = conn.closed ∧
      (clearPreparedAfterRollback conn).ddlInTx = conn.ddlInTx := by
  unfold clearPreparedAfterRollback
  split_ifs <;> exact ⟨rfl, rfl, rfl⟩

/-- The note that a statement leaves in a transaction. -/
lemma noted_flags (hopen : conn.inTx) (query : List Char) :
    (noted conn query).inTx = true ∧ (noted conn query).closed = conn.closed ∧
      (noted conn query).ddlInTx = (conn.ddlInTx || statementIsDdl query) := by
  cases hddl : statementIsDdl query with
  | true =>
      simp only [noted, hopen, hddl, Bool.and_self, if_true, Bool.or_true]
      split_ifs <;> simp
  | false =>
      simp only [noted, hddl, Bool.and_false, Bool.false_eq_true, if_false, Bool.or_false]
      split_ifs <;> simp [hopen]

lemma ensureTx_self (hopen : conn.inTx) : ensureTx conn = conn := by
  obtain ⟨inTx, autocommit, closed, ddlInTx, stmtCache, kernelStmts⟩ := conn
  obtain rfl : inTx = true := hopen
  cases autocommit <;> rfl

/-- **The note after a statement in a transaction**: what was noted stays, and what is told is. -/
lemma executeStatement_flags (hopen : conn.inTx) (hlive : conn.closed = false) (begun : Bool)
    (query : List Char) (unparameterised : Bool) (plans : List π → List π) :
    let after := executeStatement conn begun query unparameterised plans
    after.inTx = true ∧ after.closed = false ∧ after.ddlInTx =
      (conn.ddlInTx || statementIsDdl query || (unparameterised && hasMultipleStatements query)) := by
  obtain ⟨hnoted, hclosed, hddl⟩ := noted_flags hopen query
  simp only [executeStatement, hlive, hopen, needsBegin, ensureTx_self hopen, Bool.not_true,
    Bool.and_false, Bool.false_and, Bool.false_eq_true, if_false, if_true]
  cases hmany : unparameterised && hasMultipleStatements query with
  | true => simp [hnoted, hclosed, hlive]
  | false => simp [hnoted, hclosed, hlive, hddl]

/-- **A statement that changes the schema is noted just where it can be told.** -/
lemma executeStatement_ddlInTx_iff (hopen : conn.inTx) (hlive : conn.closed = false) (begun : Bool)
    {query : List Char} (h : StartsDdl query) (unparameterised : Bool) (plans : List π → List π)
    (lost : Bool) : (executeStatement conn begun query unparameterised plans).ddlInTx ↔
      Told conn (.execute begun query unparameterised plans lost : Call π κ) := by
  rw [(executeStatement_flags hopen hlive begun query unparameterised plans).2.2, Bool.or_eq_true,
    Bool.or_eq_true, statementIsDdl_iff h]
  show _ ↔ (StartsDdl query → _)
  constructor
  · rintro ((hddl | hplain) | hmany) _
    · exact .inr (.inl hddl)
    · exact .inl hplain
    · exact .inr (.inr hmany)
  · intro htold
    rcases htold h with hplain | hddl | hmany
    · exact .inl (.inr hplain)
    · exact .inl (.inl hddl)
    · exact .inr hmany

/-- A transaction is open, or the connection is closed. -/
def InTransaction (conn : RustConn π κ) : Prop := conn.inTx ∨ conn.closed

lemma kernelRead_flags (hopen : InTransaction conn) (begun : Bool) (plans : List κ → List κ)
    (failed : Bool) : InTransaction (kernelRead conn begun plans failed) ∧
      (kernelRead conn begun plans failed).ddlInTx = conn.ddlInTx := by
  have hensure : InTransaction (ensureTx conn) ∧ (ensureTx conn).ddlInTx = conn.ddlInTx := by
    unfold ensureTx
    split_ifs
    · exact ⟨hopen, rfl⟩
    · exact ⟨.inl rfl, rfl⟩
  unfold kernelRead
  split_ifs
  · exact ⟨hopen, rfl⟩
  · exact hensure
  · obtain ⟨hinTx, hclosed, hddl⟩ := clearPreparedAfterRollback_flags
      { ensureTx conn with kernelStmts := plans (ensureTx conn).kernelStmts }
    refine ⟨?_, hddl.trans hensure.2⟩
    rw [InTransaction, hinTx, hclosed]
    exact hensure.1
  · exact hensure

/-- **What a call keeps**: the transaction, and the note. -/
lemma step_flags (hopen : InTransaction conn) {call : Call π κ} (hstep : step conn call = some conn') :
    InTransaction conn' ∧ (conn.ddlInTx → conn'.ddlInTx) := by
  cases call with
  | execute begun query unparameterised plans lost =>
      obtain rfl := Option.some.inj hstep
      have hafter : InTransaction (executeStatement conn begun query unparameterised plans) ∧
          (conn.ddlInTx → (executeStatement conn begun query unparameterised plans).ddlInTx) := by
        by_cases hclosed : conn.closed
        · rw [executeStatement, if_pos hclosed]
          exact ⟨hopen, id⟩
        · obtain ⟨hinTx, _, hddl⟩ := executeStatement_flags (hopen.resolve_right hclosed)
            (by simpa using hclosed) begun query unparameterised plans
          refine ⟨.inl hinTx, fun hnoted => ?_⟩
          rw [hddl, hnoted]
          rfl
      cases lost with
      | true => exact ⟨.inr rfl, hafter.2⟩
      | false => exact hafter
  | kernelRead begun plans failed =>
      obtain rfl := Option.some.inj hstep
      obtain ⟨hinTx, hddl⟩ := kernelRead_flags hopen begun plans failed
      exact ⟨hinTx, fun hnoted => hddl.trans hnoted⟩

/-- A change of the schema was noted in a transaction. -/
def Noted (conn : RustConn π κ) : Prop := InTransaction conn ∧ conn.ddlInTx = true

lemma Noted.step (h : Noted conn) {call : Call π κ} (hstep : Ddl.step conn call = some conn') :
    Noted conn' :=
  ⟨(step_flags h.1 hstep).1, (step_flags h.1 hstep).2 h.2⟩

/-- A rollback drops all plans where a change was noted. -/
lemma rollback_plans (h : conn.ddlInTx) :
    (rollback conn).stmtCache = [] ∧ (rollback conn).kernelStmts = [] := by
  rw [rollback, clearPreparedAfterRollback, if_pos h]
  exact ⟨rfl, rfl⟩

/-- **A change of the schema is noted from its statement on, and its rollback drops all plans**, in
every transaction whose changes can be told. -/
theorem undone_plans_dropped {start conn after : RustConn π κ} {calls calls' : List (Call π κ)}
    (hopen : start.inTx) (hbefore : RunsWhile step Told start calls conn)
    (hlive : conn.closed = false) {begun : Bool} {query : List Char} (hquery : StartsDdl query)
    {unparameterised : Bool} {plans : List π → List π} {lost : Bool}
    (hafter : RunsWhile step Told conn (.execute begun query unparameterised plans lost :: calls')
      after) :
    after.ddlInTx = true ∧ (rollback after).stmtCache = [] ∧ (rollback after).kernelStmts = [] := by
  have hinTx : InTransaction conn := hbefore.keeps
    (fun _ _ _ hin _ hstep => (step_flags hin hstep).1) (.inl hopen)
  cases hafter with
  | cons htold hstep hrest =>
      have hddl := (executeStatement_ddlInTx_iff (hinTx.resolve_right (by simp [hlive])) hlive begun
        hquery unparameterised plans lost).mpr htold
      have hfirst : Noted _ := ⟨(step_flags hinTx hstep).1, by
        obtain rfl := Option.some.inj hstep
        cases lost <;> exact hddl⟩
      have hnoted : Noted after := hrest.keeps (fun _ _ _ hin _ hstep => hin.step hstep) hfirst
      exact ⟨hnoted.2, rollback_plans hnoted.2⟩

/-- A transaction in which nothing was done yet. -/
def begun (π κ : Type) : RustConn π κ where
  inTx := true
  autocommit := false
  closed := false
  ddlInTx := false
  stmtCache := []
  kernelStmts := []

/-- A change of the schema, as a call. -/
def change (sql : String) : Call ℕ ℕ := .execute true sql.toList true id false

/-- A table is made, and the kernel prepares a plan. -/
theorem create_noted :
    ∃ after : RustConn ℕ ℕ, after.kernelStmts = [1] ∧ after.ddlInTx = true ∧
      (rollback after).stmtCache = [] ∧ (rollback after).kernelStmts = [] := by
  have hplain : PlainOpening "CREATE TABLE t ()".toList :=
    ⟨[], [], [], by decide +kernel, fun c hc => (nomatch hc), fun c hc => (nomatch hc),
      fun c hc => (nomatch hc)⟩
  refine ⟨_, ?_, @undone_plans_dropped ℕ ℕ (begun ℕ ℕ) (begun ℕ ℕ) _ []
    [.kernelRead true (fun _ => [1]) false] rfl (.nil _) rfl true "CREATE TABLE t ()".toList
    ⟨by decide +kernel, by decide +kernel⟩ true id false
    (.cons (fun _ => .inl hplain) rfl (.cons trivial rfl (.nil _)))⟩
  rfl

/-- A comment before the keyword hides the change: the plan that the kernel prepared survives. -/
theorem commented_change_keeps_plans : ¬ ∀ (start after : RustConn ℕ ℕ) (sql : String)
    (calls : List (Call ℕ ℕ)), start.inTx → start.closed = false → StartsDdl sql.toList →
      run step start (change sql :: calls) = some after → (rollback after).kernelStmts = [] := by
  intro h
  have hkept := h (begun ℕ ℕ) _ "/* x */ CREATE TABLE t ()" [.kernelRead true (fun _ => [1]) false]
    rfl rfl ⟨by decide +kernel, by decide +kernel⟩ rfl
  exact absurd hkept (by decide +kernel)

end Runs

end Ddl

end OdooKernel
