import OdooKernel.Sql.Value

/-!
# Patterns for a trigram index

A translated field with a trigram index is searched through the text of all its translations first:
a pattern that every row with a match satisfies, made of the literal runs of the term.

* `isExactOn` — the terms that are text of a JSON string as they are.
* `valueToPattern`, `patternToPattern` — the pattern of a value, and of a pattern.
-/

namespace OdooKernel

def escapeWildcards (cs : List Char) : List Char :=
  cs.flatMap fun c => if c = '_' ∨ c = '%' ∨ c = '\\' then ['\\', c] else [c]

/-- Whether the patterns are exact for a term: printable ASCII without quotes and backslashes, which
`unaccent` leaves alone and JSON writes unchanged. -/
def isExactOn (term : List Char) : Bool :=
  term.all fun c => 32 ≤ c.toNat && c.toNat < 127 && c ≠ '"' && c ≠ '\\'

/-- A run of characters anywhere in a text. -/
def anywhere (run : List Char) : List Char := '%' :: run ++ ['%']

/-- The pattern that a row with the value satisfies. -/
def valueToPattern (value : List Char) : List Char :=
  if value.length < 3 then ['%'] else anywhere (escapeWildcards (jsonEscape value))

/-- The literal runs of a pattern, the one that is open first in reverse; a backslash at the end
drops it. -/
def literalRuns : List Char → List Char → List (List Char)
  | run, [] => [run.reverse]
  | _, ['\\'] => []
  | run, '\\' :: c :: rest => literalRuns (c :: run) rest
  | run, c :: rest =>
    if c = '_' ∨ c = '%' ∨ (c = '\n' ∧ rest = []) then run.reverse :: literalRuns [] rest
    else literalRuns (c :: run) rest

/-- The pattern that a row with a match of the pattern satisfies. -/
def patternToPattern (pattern : List Char) : List Char :=
  let kept := ((literalRuns [] pattern).filter (3 ≤ ·.length)).map
    fun run => escapeWildcards (jsonEscape run)
  if kept.isEmpty then ['%'] else anywhere (['%'].intercalate kept)

example : patternToPattern "x%yz%abcdef".toList = "%abcdef%".toList := by decide

example : valueToPattern "a%b".toList = "%a\\%b%".toList := by decide

end OdooKernel
