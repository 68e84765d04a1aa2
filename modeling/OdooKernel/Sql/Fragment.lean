import OdooKernel.Sql.Dialect

/-!
# SQL comparands

A comparand is a text of SQL with `%s` for its parameters, which Python resolved.  The kernel makes
typed placeholders of them, `$1::int8` and on, and drops the comments.

**What exactly bound means.**  The text that comes out is read again, token by token, and compared
with the tokens of the comparand (`expectedTokens`): a space for each comment, one percent sign for
each two, and for each placeholder its number and its cast.  Two tokens may come out as one where
nothing stands between a placeholder and a word; a token therefore carries whether it goes on the
word before it.

* `rewrite` — the text with typed placeholders.
* `tokens` — a text as the kernel reads it, and which characters go on the word before them.
* `expectedTokens` — the tokens of a comparand, with its placeholders bound.
* `BindsExactly` — the parameters are bound exactly, in what comes out.
* `Unglued` — no placeholder stands against a word: where that is so, by `Sql/Binding`.
-/

namespace OdooKernel

/-! ## Rewriting -/

/-- The types that parameters are cast to. -/
inductive Cast where
  | bool
  | int8
  | float8
  | int8Array
  | textArray
  | text
deriving DecidableEq, Repr

/-- The name of a type. -/
def Cast.typeName : Cast → List Char
  | .bool => "bool".toList
  | .int8 => "int8".toList
  | .float8 => "float8".toList
  | .int8Array => "int8[]".toList
  | .textArray => "text[]".toList
  | .text => "text".toList

/-- The type that a value is cast to. -/
def cast : BoundValue → Cast
  | .bool _ => .bool
  | .bigInt _ => .int8
  | .double _ => .float8
  | .array .bigInt _ => .int8Array
  | .array _ _ => .textArray
  | _ => .text

/-- What stands at a position of a comparand. -/
inductive Part where
  | region (kind : Kind) (terminated : Bool) (text : List Char)
  | percent
  | parameter
  | loose
  | plain (c : Char)
deriving DecidableEq, Repr

/-- `%%` is a percent sign and `%s` a parameter, outside the regions. -/
def readPart : Scanner Char Part := fun before c cs =>
  match opaqueAt before c cs with
  | some o => (o.more, .region o.kind o.terminated (c :: cs.take o.more))
  | none =>
    if c = '%' then
      if cs.head? = some '%' then (1, .percent)
      else if cs.head? = some 's' then (1, .parameter)
      else (0, .loose)
    else (0, .plain c)

/-- A comparand as the kernel reads it. -/
def parts (code : List Char) : List Part := scan readPart 0 none code

/-- A quoted text with one percent sign for each two. -/
def unquoted : List Char → Result (List Char)
  | [] => .ok []
  | [c] =>
    if c = '%' then refuse "a SQL comparand has a placeholder inside a quoted text"
    else if c = '$' then refuse "a SQL comparand quotes a dollar sign"
    else .ok [c]
  | c :: d :: cs =>
    if c = '%' then
      if d = '%' then do return '%' :: (← unquoted cs)
      else refuse "a SQL comparand has a placeholder inside a quoted text"
    else if c = '$' then refuse "a SQL comparand quotes a dollar sign"
    else do return c :: (← unquoted (d :: cs))

/-- The text of a parameter: a placeholder and its cast. -/
def boundText (number : ℕ) (kind : Cast) : List Char :=
  placeholder number ++ ':' :: ':' :: kind.typeName

/-- The parts of a comparand, behind `used` parameters. -/
def rewriteParts (casts : List Cast) : ℕ → List Part → Result (List Char)
  | used, [] =>
    if used = casts.length then .ok []
    else refuse s!"a SQL comparand has {used} placeholder(s) for {casts.length} parameter(s)"
  | used, .region kind terminated text :: ps =>
    if terminated = false then
      refuse "a SQL comparand has an unterminated quoted text or comment"
    else if kind = .comment then do return ' ' :: (← rewriteParts casts used ps)
    else if kind = .dollarString then refuse "a SQL comparand uses dollar quoting"
    else do
      let inside ← unquoted text
      return inside ++ (← rewriteParts casts used ps)
  | used, .percent :: ps => do return '%' :: (← rewriteParts casts used ps)
  | used, .parameter :: ps =>
    match casts[used]? with
    | none =>
      refuse s!"a SQL comparand has more placeholders than its {casts.length} parameter(s)"
    | some kind => do return boundText (used + 1) kind ++ (← rewriteParts casts (used + 1) ps)
  | _, .loose :: _ => refuse "a SQL comparand has a % that is neither %s nor %%"
  | used, .plain c :: ps =>
    if c = '$' then refuse "a SQL comparand uses a dollar sign outside a placeholder"
    else if c = ';' then refuse "a SQL comparand holds more than one statement"
    else do return c :: (← rewriteParts casts used ps)

/-- A comparand with typed placeholders. -/
def rewrite (code : List Char) (casts : List Cast) : Result (List Char) :=
  rewriteParts casts 0 (parts code)

/-! ## Tokens -/

/-- What the kernel reads at a position, and whether it goes on a word. -/
structure Token where
  joined : Bool
  lexeme : Lexeme
deriving DecidableEq, Repr

/-- A character of identifiers goes on the word or the number before it. -/
def readToken : Scanner Char Token := fun before c cs =>
  ((readSql before c cs).1,
    { joined := isIdentChar c && afterIdent before, lexeme := (readSql before c cs).2 })

/-- A text of SQL, token by token. -/
def tokens (sql : List Char) : List Token := scan readToken 0 none sql

/-- A token that starts anew. -/
def Lexeme.token (lexeme : Lexeme) : Token := { joined := false, lexeme }

/-- The tokens of a parameter. -/
def boundTokens (number : ℕ) (kind : Cast) : List Token :=
  Lexeme.token (.bound (Nat.toDigits 10 number)) :: tokens (':' :: ':' :: kind.typeName)

/-- **The tokens of a comparand**, with a space for each comment, one percent sign for each two
and the placeholders numbered and cast; `inWord` tells that a word is before the parts. -/
def expectedTokens (casts : List Cast) : ℕ → Bool → List Part → List Token
  | _, _, [] => []
  | used, _, .region kind terminated text :: ps =>
    (if kind = .comment then Lexeme.token (.plain ' ')
      else Lexeme.token (.region kind terminated ((unquoted text).toOption.getD [])))
      :: expectedTokens casts used false ps
  | used, _, .percent :: ps => Lexeme.token (.plain '%') :: expectedTokens casts used false ps
  | used, _, .parameter :: ps =>
    casts[used]?.elim [] (boundTokens (used + 1)) ++ expectedTokens casts (used + 1) false ps
  | used, _, .loose :: ps => Lexeme.token (.plain '%') :: expectedTokens casts used false ps
  | used, inWord, .plain c :: ps =>
    { joined := isIdentChar c && inWord, lexeme := .plain c }
      :: expectedTokens casts used (isIdentChar c) ps

/-- **The parameters are bound exactly**: the placeholders are numbered in order, no dollar sign
and no semicolon stands outside quoted text but theirs, and the tokens are those of the
comparand. -/
structure BindsExactly (code : List Char) (casts : List Cast) (out : List Char) : Prop where
  numbered : boundIndices (lexemes out) = List.range' 1 casts.length
  plain : ∀ c, Lexeme.plain c ∈ lexemes out → c ≠ '$' ∧ c ≠ ';'
  sameTokens : tokens out = expectedTokens casts 0 false (parts code)

/-- What stands before a position of a comparand. -/
inductive Edge where
  | free
  | word
  | scalar
  | array
deriving DecidableEq, Repr

/-- What a parameter leaves behind it. -/
def Cast.edge : Cast → Edge
  | .int8Array | .textArray => .array
  | _ => .scalar

/-- The next part is a text in single quotes. -/
def startsQuoted : List Part → Bool
  | .region _ _ text :: _ => text.head? = some '\''
  | _ => false

/-- **No placeholder stands against a word**: neither behind one nor behind a scalar parameter, no
word behind a scalar parameter, and no `E` of a quoted text behind an array. -/
def UngluedFrom (casts : List Cast) : ℕ → Edge → List Part → Bool
  | _, _, [] => true
  | used, edge, .parameter :: ps =>
    edge ≠ .word && edge ≠ .scalar &&
      UngluedFrom casts (used + 1) (casts[used]?.elim .free Cast.edge) ps
  | used, edge, .plain c :: ps =>
    !(isIdentChar c && edge = .scalar) &&
      !(edge = .array && (c = 'e' || c = 'E') && startsQuoted ps) &&
      UngluedFrom casts used (if isIdentChar c then .word else .free) ps
  | used, _, _ :: ps => UngluedFrom casts used .free ps

def Unglued (code : List Char) (casts : List Cast) : Bool :=
  UngluedFrom casts 0 .free (parts code)

end OdooKernel
