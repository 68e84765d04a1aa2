import OdooKernel.Sql.Lexing

/-!
# What kind of statement a text is

A cursor tells from the text of a statement whether it returns rows, whether it is several
statements, and whether it makes prepared statements invalid.

**Lexing and not.**  What asks for keywords goes by the lexer of `Sql/Lexing` and leaves out quoted
texts and comments; what asks whether a statement ends prepared ones looks at the start of the text
behind white space and parentheses only.  The two are kept apart here as they are in the source.

* `leadingKeyword`, `statementLevelKeywords`, `hasBareKeyword` — the keywords of a text.
* `returnsRows` — whether a statement is sent as a query.
* `hasMultipleStatements` — whether anything stands behind a semicolon.
* `statementDrops`, `statementInvalidatesPrepared` — the statements that end prepared ones.
-/

namespace OdooKernel

/-- White space of ASCII. -/
def isAsciiWhitespace (c : Char) : Bool :=
  c = ' ' || c = '\t' || c = '\n' || c = '\x0C' || c = '\r'

/-! ## Keywords -/

/-- What stands behind the white space, the parentheses and the comments that a text starts with,
the first `n` characters left out. -/
def behindOpening : ℕ → Option Char → List Char → List Char
  | _, _, [] => []
  | n + 1, _, c :: cs => behindOpening n (some c) cs
  | 0, before, c :: cs =>
    if isAsciiWhitespace c || c = '(' then behindOpening 0 (some c) cs
    else
      match opaqueAt before c cs with
      | some o => if c = '-' ∨ c = '/' then behindOpening o.more (some c) cs else c :: cs
      | none => c :: cs

/-- Behind so many characters. -/
lemma behindOpening_drop (n : ℕ) (before : Option Char) (xs : List Char) :
    behindOpening n before xs = behindOpening 0 (lastOr before (xs.take n)) (xs.drop n) := by
  induction n generalizing before xs with
  | zero => rfl
  | succ n ih =>
      cases xs with
      | nil => rfl
      | cons x xs => exact ih (some x) xs

/-- A word in capitals. -/
def asciiUpper (cs : List Char) : List Char := cs.map Char.toUpper

/-- The keyword a statement starts with. -/
def leadingKeyword (sql : List Char) : List Char :=
  asciiUpper ((behindOpening 0 none sql).takeWhile isIdentChar)

/-- What the keywords of a statement are told apart by. -/
inductive Word where
  | word (w : List Char)
  | opening
  | closing
  | other
deriving DecidableEq, Repr

def readWord : Scanner Char Word := fun before c cs =>
  match opaqueAt before c cs with
  | some o => (o.more, .other)
  | none =>
    if c = '(' then (0, .opening)
    else if c = ')' then (0, .closing)
    else if isIdentChar c then
      let rest := cs.takeWhile isIdentChar
      (rest.length, .word (asciiUpper (c :: rest)))
    else (0, .other)

/-- The words at the depth of the first one. -/
def wordsAtLevel : ℕ → Option ℕ → List Word → List (List Char)
  | _, _, [] => []
  | depth, level, .opening :: ws => wordsAtLevel (depth + 1) level ws
  | depth, level, .closing :: ws => wordsAtLevel (depth - 1) level ws
  | depth, level, .word w :: ws =>
    let level := level.getD depth
    if depth = level then w :: wordsAtLevel depth (some level) ws
    else wordsAtLevel depth (some level) ws
  | depth, level, .other :: ws => wordsAtLevel depth level ws

/-- The keywords at the nesting depth of the statement's leading keyword. -/
def statementLevelKeywords (sql : List Char) : List (List Char) :=
  wordsAtLevel 0 none (scan readWord 0 none sql)

/-- A keyword at a position, in any case. -/
def readKeyword (keyword : List Char) : Scanner Char Bool := fun before c cs =>
  match opaqueAt before c cs with
  | some o => (o.more, false)
  | none =>
    let rest := c :: cs
    (0, asciiUpper (rest.take keyword.length) = keyword ∧ ¬ afterIdent before ∧
      ¬ (rest.drop keyword.length).head?.any isIdentChar)

/-- A keyword outside the regions. -/
def hasBareKeyword (sql keyword : List Char) : Bool :=
  (scan (readKeyword keyword) 0 none sql).any id

/-! ## Queries -/

/-- The keywords of the statements that are queries. -/
def queryKeywords : List (List Char) :=
  ["SELECT".toList, "SHOW".toList, "VALUES".toList, "TABLE".toList, "EXPLAIN".toList,
    "FETCH".toList]

/-- The keywords of the statements that change data. -/
def changingKeywords : List (List Char) :=
  ["INSERT".toList, "UPDATE".toList, "DELETE".toList, "MERGE".toList]

/-- The keywords of the statement that a `WITH` is about. -/
def primaryKeywords : List (List Char) :=
  ["SELECT".toList, "VALUES".toList, "TABLE".toList] ++ changingKeywords

/-- A `WITH` returns rows unless it is about a change that returns none. -/
def withStatementReturnsRows (sql : List Char) : Bool :=
  match (statementLevelKeywords sql).tail.dropWhile (· ∉ primaryKeywords) with
  | [] => true
  | primary :: rest => primary ∉ changingKeywords || "RETURNING".toList ∈ rest

/-- Whether a statement is sent as a query. -/
def returnsRows (sql : List Char) : Bool :=
  let keyword := leadingKeyword sql
  if keyword ∈ queryKeywords then true
  else if keyword = "WITH".toList then withStatementReturnsRows sql
  else hasBareKeyword sql "RETURNING".toList

/-! ## Several statements -/

/-- Something but white space and comments stands behind a semicolon. -/
def severalStatements : Bool → List Piece → Bool
  | _, [] => false
  | afterSemicolon, .region kind _ _ :: ps =>
    if afterSemicolon ∧ kind ≠ .comment then true else severalStatements afterSemicolon ps
  | afterSemicolon, .char c :: ps =>
    if c = ';' then severalStatements true ps
    else if afterSemicolon ∧ ¬ isAsciiWhitespace c then true
    else severalStatements afterSemicolon ps

def hasMultipleStatements (sql : List Char) : Bool := severalStatements false (pieces sql)

/-! ## Statements that end prepared ones -/

/-- A text behind the white space and the parentheses it starts with. -/
def statementHead (sql : List Char) : List Char :=
  ((sql.dropWhile isWhitespace).dropWhile (· = '(')).dropWhile isWhitespace

/-- A text that starts with a word, in any case. -/
def startsWithWord (word head : List Char) : Bool :=
  (head.take word.length).map Char.toLower = word

def statementDrops (sql : List Char) : Bool := startsWithWord "drop ".toList (statementHead sql)

def statementInvalidatesPrepared (sql : List Char) : Bool :=
  startsWithWord "rollback".toList (statementHead sql) ||
    startsWithWord "drop ".toList (statementHead sql)

end OdooKernel
