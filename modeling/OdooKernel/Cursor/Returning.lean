import OdooKernel.Cursor.Words
import Mathlib.Data.List.Forall2

/-!
# Which statements return rows

The statements that change data, with or without common table expressions, by the grammar of
PostgreSQL, and what `returnsRows` makes of their texts.

**The grammar.**  A statement is a list of terms, tokens by their parentheses, and the grammar is
inductive over them: names, the columns and the options of a common table expression, its search and
cycle clauses.  It says nothing of what stands in a place that no keyword of interest can stand in,
so that every statement of PostgreSQL of these kinds is one of its own.  A statement comes with a
spelling, in which its tokens do not run into each other (`Spelled`).

**What is compared.**  `SqlStatement.ReturnsRows` is said of the terms: the primary statement is a
query, or has a `RETURNING` at its own depth.  `returnsRows` is what the source finds in the text, by
its scanners for keywords.  They differ in two ways: the scanner for the primary statement of a
`WITH` takes the first keyword that may be one, and the one for `RETURNING` looks at every depth but
not directly behind a text between dollar signs.

* `IsCtes` — the common table expressions behind a `WITH`.
* `ChangingStatement`, `WithStatement` — the statements, in any nesting and any spelling.
* `SqlStatement.ReturnsRows` — whether the statement is a query or has a `RETURNING` of its own.
* `SqlStatement.Plain` — where the scanners see what the grammar does.
* **`returnsRows_iff`** — they agree there only; `insert_with_delete` and `update_behind_deletion`
  are one statement of each kind.
-/

namespace OdooKernel.Grammar

/-! ## Common table expressions -/

/-- A keyword, in any case. -/
def IsKeyword (keyword : String) (t : SqlTerm) : Prop :=
  ∃ w, t = .atom (.word w) ∧ asciiUpper w = keyword.toList

def Keywords (keywords : List String) (ts : List SqlTerm) : Prop :=
  List.Forall₂ IsKeyword keywords ts

/-- The reserved words among those that a statement is told apart by: no name is one without quotes. -/
def reservedWords : List (List Char) := ["SELECT".toList, "TABLE".toList, "RETURNING".toList]

/-- No word at the level of some terms is reserved. -/
def Unreserved (ts : List SqlTerm) : Prop := ∀ w ∈ wordsAt 0 ts, w ∉ reservedWords

/-- A name, without quotes or with them. -/
inductive IsName : List SqlTerm → Prop where
  | bare {w : List Char} (hw : asciiUpper w ∉ reservedWords) : IsName [.atom (.word w)]
  | quoted (body : List Char) : IsName [.atom (.quoted '"' body)]
  | unicode {w : List Char} (hw : asciiUpper w = "U".toList) (body : List Char) :
      IsName [.atom (.word w), .atom (.symbol '&'), .atom (.quoted '"' body)]

inductive IsNames : List SqlTerm → Prop where
  | one {name : List SqlTerm} (hname : IsName name) : IsNames name
  | more {name names : List SqlTerm} (hname : IsName name) (hnames : IsNames names) :
      IsNames (name ++ .atom (.symbol ',') :: names)

/-- A constant, by what is written with it. -/
def IsConstant (ts : List SqlTerm) : Prop := ts ≠ [] ∧ Unreserved ts

inductive IsSearch : List SqlTerm → Prop where
  | absent : IsSearch []
  | clause {search columns set name : List SqlTerm} {order : String}
      (horder : order = "DEPTH" ∨ order = "BREADTH")
      (hsearch : Keywords ["SEARCH", order, "FIRST", "BY"] search) (hcolumns : IsNames columns)
      (hset : Keywords ["SET"] set) (hname : IsName name) :
      IsSearch (search ++ columns ++ set ++ name)

inductive IsMark : List SqlTerm → Prop where
  | absent : IsMark []
  | values {marked value unmarked other : List SqlTerm} (hmarked : Keywords ["TO"] marked)
      (hvalue : IsConstant value) (hunmarked : Keywords ["DEFAULT"] unmarked)
      (hother : IsConstant other) : IsMark (marked ++ value ++ unmarked ++ other)

inductive IsCycle : List SqlTerm → Prop where
  | absent : IsCycle []
  | clause {cycle columns set mark values along path : List SqlTerm}
      (hcycle : Keywords ["CYCLE"] cycle) (hcolumns : IsNames columns) (hset : Keywords ["SET"] set)
      (hmark : IsName mark) (hvalues : IsMark values) (halong : Keywords ["USING"] along)
      (hpath : IsName path) :
      IsCycle (cycle ++ columns ++ set ++ mark ++ values ++ along ++ path)

/-- What stands between a name and its statement. -/
def IsAs (ts : List SqlTerm) : Prop :=
  Keywords ["AS"] ts ∨ Keywords ["AS", "MATERIALIZED"] ts ∨ Keywords ["AS", "NOT", "MATERIALIZED"] ts

/-- A common table expression. -/
inductive IsCte : List SqlTerm → Prop where
  | mk {name columns as search cycle : List SqlTerm} (hname : IsName name)
      (hcolumns : columns = [] ∨ ∃ ts, columns = [.group ts]) (has : IsAs as) (body : List SqlTerm)
      (hsearch : IsSearch search) (hcycle : IsCycle cycle) :
      IsCte (name ++ columns ++ as ++ .group body :: (search ++ cycle))

inductive IsCtes : List SqlTerm → Prop where
  | one {cte : List SqlTerm} (hcte : IsCte cte) : IsCtes cte
  | more {cte ctes : List SqlTerm} (hcte : IsCte cte) (hctes : IsCtes ctes) :
      IsCtes (cte ++ .atom (.symbol ',') :: ctes)

/-! ## Reserved words are no names -/

lemma Unreserved.append {ts us : List SqlTerm} (hts : Unreserved ts) (hus : Unreserved us) :
    Unreserved (ts ++ us) := by
  intro w hw
  rw [wordsAt_append, List.mem_append] at hw
  exact hw.elim (hts w) (hus w)

lemma unreserved_cons {t : SqlTerm} {ts : List SqlTerm} (ht : ∀ w ∈ t.wordsAt 0, w ∉ reservedWords)
    (hts : Unreserved ts) : Unreserved (t :: ts) := by
  intro w hw
  rw [wordsAt, List.mem_append] at hw
  exact hw.elim (ht w) (hts w)

lemma unreserved_nil : Unreserved [] := by
  intro w hw
  simp at hw

lemma unreserved_keywords {keywords : List String} {ts : List SqlTerm} (h : Keywords keywords ts)
    (hkeywords : ∀ k ∈ keywords, k.toList ∉ reservedWords) : Unreserved ts := by
  induction h with
  | nil => exact unreserved_nil
  | cons ht _ ih =>
      rw [List.forall_mem_cons] at hkeywords
      refine unreserved_cons ?_ (ih hkeywords.2)
      obtain ⟨w, rfl, hw⟩ := ht
      simpa [SqlTerm.wordsAt, hw] using hkeywords.1

lemma unreserved_name {ts : List SqlTerm} (h : IsName ts) : Unreserved ts := by
  cases h with
  | bare hw => exact unreserved_cons (by simpa [SqlTerm.wordsAt] using hw) unreserved_nil
  | quoted body => exact unreserved_cons (by simp [SqlTerm.wordsAt]) unreserved_nil
  | unicode hw body =>
      refine unreserved_cons ?_ (unreserved_cons (by simp [SqlTerm.wordsAt])
        (unreserved_cons (by simp [SqlTerm.wordsAt]) unreserved_nil))
      simp [SqlTerm.wordsAt, hw]
      decide

lemma unreserved_names {ts : List SqlTerm} (h : IsNames ts) : Unreserved ts := by
  induction h with
  | one hname => exact unreserved_name hname
  | more hname _ ih =>
      exact (unreserved_name hname).append (unreserved_cons (by simp [SqlTerm.wordsAt]) ih)

lemma unreserved_search {ts : List SqlTerm} (h : IsSearch ts) : Unreserved ts := by
  cases h with
  | absent => exact unreserved_nil
  | clause horder hsearch hcolumns hset hname =>
      refine ((Unreserved.append ?_ (unreserved_names hcolumns)).append ?_).append
        (unreserved_name hname)
      · refine unreserved_keywords hsearch ?_
        rcases horder with rfl | rfl <;> decide
      · exact unreserved_keywords hset (by decide)

lemma unreserved_mark {ts : List SqlTerm} (h : IsMark ts) : Unreserved ts := by
  cases h with
  | absent => exact unreserved_nil
  | values hmarked hvalue hunmarked hother =>
      have hto := unreserved_keywords hmarked (by decide)
      have hdefault := unreserved_keywords hunmarked (by decide)
      exact ((hto.append hvalue.2).append hdefault).append hother.2

lemma unreserved_cycle {ts : List SqlTerm} (h : IsCycle ts) : Unreserved ts := by
  cases h with
  | absent => exact unreserved_nil
  | clause hcycle hcolumns hset hmark hvalues halong hpath =>
      have hfront := (unreserved_keywords hcycle (by decide)).append (unreserved_names hcolumns)
      have hmarked := (unreserved_keywords hset (by decide)).append (unreserved_name hmark)
      have hpaths := (unreserved_keywords halong (by decide)).append (unreserved_name hpath)
      simpa using (hfront.append hmarked).append ((unreserved_mark hvalues).append hpaths)

lemma unreserved_as {ts : List SqlTerm} (h : IsAs ts) : Unreserved ts := by
  rcases h with h | h | h <;> exact unreserved_keywords h (by decide)

lemma unreserved_cte {ts : List SqlTerm} (h : IsCte ts) : Unreserved ts := by
  obtain ⟨hname, hcolumns, has, body, hsearch, hcycle⟩ := h
  have hgroup : ∀ {ts : List SqlTerm}, Unreserved ts → ∀ us, Unreserved (.group us :: ts) :=
    fun hts us => unreserved_cons (by simp [SqlTerm.wordsAt]) hts
  refine (Unreserved.append ?_ (unreserved_as has)).append
    (hgroup ((unreserved_search hsearch).append (unreserved_cycle hcycle)) body)
  refine (unreserved_name hname).append ?_
  rcases hcolumns with rfl | ⟨us, rfl⟩
  · exact unreserved_nil
  · exact hgroup unreserved_nil us

/-- **No common table expression has a reserved word** at the level of its statement. -/
lemma unreserved_ctes {ts : List SqlTerm} (h : IsCtes ts) : Unreserved ts := by
  induction h with
  | one hcte => exact unreserved_cte hcte
  | more hcte _ ih =>
      exact (unreserved_cte hcte).append (unreserved_cons (by simp [SqlTerm.wordsAt]) ih)

/-! ## Statements -/

/-- White space and comments aside. -/
def significant (ts : List SqlTerm) : List SqlTerm :=
  ts.filter fun t =>
    match t with
    | .atom a => !a.isTrivia
    | .group _ => true

lemma wordsAt_significant (ts : List SqlTerm) : wordsAt 0 (significant ts) = wordsAt 0 ts := by
  induction ts with
  | nil => rfl
  | cons t ts ih =>
      cases t with
      | group us => simp [significant, wordsAt, ← ih]
      | atom a =>
          cases htrivia : a.isTrivia with
          | false => simp [significant, wordsAt, ← ih, htrivia]
          | true =>
              have hnone : SqlTerm.wordsAt 0 (.atom a) = [] := by
                cases a <;> simp_all [SqlTerm.wordsAt, Atom.isTrivia]
              simp [significant, wordsAt, ← ih, htrivia, hnone]

/-- A query, by its first keyword or its parenthesis. -/
inductive IsQuery : List SqlTerm → Prop where
  | keyword {w : List Char} (hw : asciiUpper w ∈ ["SELECT".toList, "VALUES".toList, "TABLE".toList])
      (rest : List SqlTerm) : IsQuery (.atom (.word w) :: rest)
  | parenthesis (ts rest : List SqlTerm) : IsQuery (.group ts :: rest)

/-- A statement that changes data. -/
def IsChange (ts : List SqlTerm) : Prop :=
  ∃ w rest, ts = .atom (.word w) :: rest ∧ asciiUpper w ∈ changingKeywords

/-- A statement with the keyword it starts with, in any spelling. -/
structure Spelled where
  terms : List SqlTerm
  depth : ℕ
  keyword : List Char
  rest : List SqlTerm
  opens : Opens depth terms keyword rest
  spaced : Spaced none (termsTokens terms)

def Spelled.text (s : Spelled) : List Char := tokensText (termsTokens s.terms)

/-- An `INSERT`, `UPDATE`, `DELETE` or `MERGE`. -/
structure ChangingStatement extends Spelled where
  changing : asciiUpper keyword ∈ changingKeywords

/-- A `WITH`: only a query stands in parentheses. -/
structure WithStatement extends Spelled where
  hkeyword : asciiUpper keyword = "WITH".toList
  recursive : List SqlTerm
  ctes : List SqlTerm
  primary : List SqlTerm
  split : significant rest = recursive ++ ctes ++ primary
  hrecursive : recursive = [] ∨ Keywords ["RECURSIVE"] recursive
  hctes : IsCtes ctes
  hprimary : IsQuery primary ∨ IsChange primary ∧ depth = 0

/-- The words behind the `WITH`, as deep as it is. -/
def WithStatement.words (s : WithStatement) : List (List Char) := (wordsAt s.depth s.terms).tail

/-- Words are compared as texts are. -/
local instance lawfulWords : LawfulBEq (List Char) := inferInstance

/-- The first of the keywords that tell statements apart, among the words behind the `WITH`, is one of
queries where the primary statement returns rows, or one of changes where that is no query or a
`RETURNING` follows. -/
def WithStatement.Plain (s : WithStatement) : Prop :=
  match s.words.dropWhile (· ∉ primaryKeywords) with
  | [] => True
  | first :: behind =>
    if first ∈ changingKeywords then IsQuery s.primary → "RETURNING".toList ∈ behind
    else IsChange s.primary → "RETURNING".toList ∈ wordsAt 0 s.primary

/-- A `RETURNING` stands at the statement's own depth, and one at any depth that is not directly behind
a text between dollar signs, or neither does. -/
def ChangingStatement.Plain (s : ChangingStatement) : Prop :=
  "RETURNING".toList ∈ wordsAt 0 s.rest ↔ "RETURNING".toList ∈ seenWords (termsTokens s.terms)

inductive SqlStatement where
  | changing (s : ChangingStatement)
  | withCtes (s : WithStatement)

namespace SqlStatement

def text : SqlStatement → List Char
  | changing s => s.text
  | withCtes s => s.text

/-- The primary statement is a query, or has a `RETURNING` at its own depth. -/
def ReturnsRows : SqlStatement → Prop
  | changing s => "RETURNING".toList ∈ wordsAt 0 s.rest
  | withCtes s => IsQuery s.primary ∨ "RETURNING".toList ∈ wordsAt 0 s.primary

/-- What the scanners go by is what is there. -/
def Plain : SqlStatement → Prop
  | changing s => s.Plain
  | withCtes s => s.Plain

end SqlStatement

lemma IsChange.not_query {ts : List SqlTerm} (h : IsChange ts) : ¬ IsQuery ts := by
  obtain ⟨w, rest, rfl, hw⟩ := h
  intro hquery
  cases hquery with
  | keyword hw' =>
      simp only [changingKeywords, List.mem_cons, List.not_mem_nil, or_false] at hw hw'
      rcases hw with hw | hw | hw | hw <;> rw [hw] at hw' <;> revert hw' <;> decide

namespace ChangingStatement

lemma returnsRows_eq (s : ChangingStatement) :
    returnsRows s.text = decide ("RETURNING".toList ∈ seenWords (termsTokens s.terms)) := by
  have hlead : leadingKeyword s.text = asciiUpper s.keyword := s.opens.leadingKeyword_eq s.spaced
  have hbare : hasBareKeyword s.text "RETURNING".toList
      = decide ("RETURNING".toList ∈ seenWords (termsTokens s.terms)) :=
    hasBareKeyword_eq (List.all_eq_true.mp (by decide +kernel)) s.spaced
  have hnot : asciiUpper s.keyword ∉ queryKeywords ∧ asciiUpper s.keyword ≠ "WITH".toList := by
    have hchanging := s.changing
    simp only [changingKeywords, List.mem_cons, List.not_mem_nil, or_false] at hchanging
    rcases hchanging with h | h | h | h <;> rw [h] <;> decide
  simp only [returnsRows, hlead]
  rw [if_neg hnot.1, if_neg hnot.2, hbare]

end ChangingStatement

namespace WithStatement

variable (s : WithStatement)

lemma returnsRows_eq :
    returnsRows s.text = match s.words.dropWhile (· ∉ primaryKeywords) with
      | [] => true
      | first :: behind => first ∉ changingKeywords || "RETURNING".toList ∈ behind := by
  have hlead : leadingKeyword s.text = "WITH".toList :=
    (s.opens.leadingKeyword_eq s.spaced).trans s.hkeyword
  have hwords : statementLevelKeywords s.text = wordsAt s.depth s.terms :=
    s.opens.statementLevelKeywords_eq s.spaced
  simp only [returnsRows, hlead]
  rw [if_neg (by decide), if_pos trivial, withStatementReturnsRows, hwords]
  rfl

/-- The words of the common table expressions, those of the primary statement, and those behind it. -/
lemma exists_words : ∃ front later, s.words = front ++ wordsAt 0 s.primary ++ later ∧
    (∀ w ∈ front, w ∉ reservedWords) ∧ (s.depth = 0 → later = []) := by
  obtain ⟨later, hwords, hlater⟩ := s.opens.exists_wordsAt
  have hrest : wordsAt 0 s.rest = wordsAt 0 (s.recursive ++ s.ctes) ++ wordsAt 0 s.primary := by
    rw [← wordsAt_significant, s.split, wordsAt_append]
  have hfront : Unreserved (s.recursive ++ s.ctes) := by
    refine Unreserved.append ?_ (unreserved_ctes s.hctes)
    rcases s.hrecursive with h | h
    · rw [h]
      exact unreserved_nil
    · exact unreserved_keywords h (by decide)
  refine ⟨_, later, ?_, hfront, hlater⟩
  rw [words, hwords, List.tail_cons, hrest]

/-- Behind a change, a `RETURNING` is the primary statement's. -/
lemma returning_of_change (hchange : IsChange s.primary) (hdepth : s.depth = 0) :
    ∃ first behind, s.words.dropWhile (· ∉ primaryKeywords) = first :: behind ∧
      ("RETURNING".toList ∈ behind ↔ "RETURNING".toList ∈ wordsAt 0 s.primary) := by
  obtain ⟨front, later, hwords, hfront, hlater⟩ := s.exists_words
  obtain ⟨w, rest, hprimary, hw⟩ := hchange
  have hbegin : wordsAt 0 s.primary = asciiUpper w :: wordsAt 0 rest := by
    simp [hprimary, wordsAt, SqlTerm.wordsAt]
  have hkeyword : asciiUpper w ∈ primaryKeywords := List.mem_append_right _ hw
  have hne : "RETURNING".toList ≠ asciiUpper w := by
    intro h
    rw [← h] at hw
    revert hw
    decide
  rw [hwords, hlater hdepth, List.append_nil, List.dropWhile_append]
  cases hdrop : front.dropWhile (· ∉ primaryKeywords) with
  | nil =>
      refine ⟨asciiUpper w, wordsAt 0 rest, ?_, ?_⟩
      · simp [hbegin, hkeyword]
      · simp only [hbegin, List.mem_cons, hne, false_or]
  | cons first behind =>
      have hbehind : "RETURNING".toList ∉ behind := by
        intro hmem
        have hsub : behind ⊆ front := by
          intro v hv
          refine (List.dropWhile_sublist _).subset (hdrop ▸ List.mem_cons_of_mem first hv)
        exact hfront _ (hsub hmem) (by decide)
      refine ⟨first, behind ++ wordsAt 0 s.primary, by simp, ?_⟩
      rw [List.mem_append]
      exact or_iff_right hbehind

/-- Before a query, rows are returned where no change comes first, or a `RETURNING` follows it. -/
lemma returnsRows_iff_of_query (hquery : IsQuery s.primary) :
    returnsRows s.text = true ↔ s.Plain := by
  have hchange : ¬ IsChange s.primary := fun h => h.not_query hquery
  rw [returnsRows_eq, Plain]
  cases s.words.dropWhile (· ∉ primaryKeywords) with
  | nil => exact iff_of_true rfl trivial
  | cons first behind =>
      dsimp only
      rw [Bool.or_eq_true, decide_eq_true_eq, decide_eq_true_eq]
      by_cases hfirst : first ∈ changingKeywords
      · rw [if_pos hfirst, or_iff_right (not_not_intro hfirst)]
        exact ⟨fun h _ => h, fun h => h hquery⟩
      · rw [if_neg hfirst]
        exact iff_of_true (Or.inl hfirst) fun h => absurd h hchange

/-- Before a change, rows are returned where a query comes first, or it has a `RETURNING`. -/
lemma returnsRows_iff_of_change (hchange : IsChange s.primary) (hdepth : s.depth = 0) :
    (returnsRows s.text = true ↔ "RETURNING".toList ∈ wordsAt 0 s.primary) ↔ s.Plain := by
  have hquery : ¬ IsQuery s.primary := hchange.not_query
  obtain ⟨first, behind, hdrop, hreturning⟩ := s.returning_of_change hchange hdepth
  rw [returnsRows_eq, Plain, hdrop]
  dsimp only
  rw [Bool.or_eq_true, decide_eq_true_eq, decide_eq_true_eq, hreturning]
  by_cases hfirst : first ∈ changingKeywords
  · rw [if_pos hfirst, or_iff_right (not_not_intro hfirst)]
    exact iff_of_true Iff.rfl fun h => absurd h hquery
  · rw [if_neg hfirst]
    constructor
    · intro h _
      exact h.mp (Or.inl hfirst)
    · intro h
      exact iff_of_true (Or.inl hfirst) (h hchange)

end WithStatement

/-- **A statement is taken for one that returns rows exactly where it is**, if and only if what the
scanners go by is what is there. -/
theorem returnsRows_iff (s : SqlStatement) :
    (returnsRows s.text = true ↔ s.ReturnsRows) ↔ s.Plain := by
  cases s with
  | changing s =>
      show (returnsRows s.text = true ↔ "RETURNING".toList ∈ wordsAt 0 s.rest) ↔ s.Plain
      rw [s.returnsRows_eq, decide_eq_true_eq]
      exact Iff.comm
  | withCtes s =>
      show (returnsRows s.text = true ↔ IsQuery s.primary ∨ "RETURNING".toList ∈ wordsAt 0 s.primary)
        ↔ s.Plain
      by_cases hquery : IsQuery s.primary
      · rw [← s.returnsRows_iff_of_query hquery]
        exact iff_true_right (Or.inl hquery)
      · obtain ⟨hchange, hdepth⟩ := s.hprimary.resolve_left hquery
        rw [or_iff_right hquery]
        exact s.returnsRows_iff_of_change hchange hdepth

/-! ## A deletion in an insertion -/

/-- A word, a blank or a parenthesis that may stand before a text. -/
def standsBefore (rest : List Char) : SqlToken → Bool
  | .atom (.word w) => (w ≠ [] && w.all isIdentChar) && (w.head? ≠ some '$' &&
      rest.head?.all fun c => !isIdentChar c && c ≠ '\'')
  | .atom (.symbol c) => c = ' '
  | .opening | .closing => true
  | _ => false

lemma standsIn_of_standsBefore {t : SqlToken} {rest : List Char}
    (h : standsBefore rest t = true) (before : Option Char) : t.StandsIn before rest := by
  cases t with
  | opening => trivial
  | closing => trivial
  | atom a =>
      cases a with
      | word w =>
          obtain ⟨hword, hrest⟩ := Bool.and_eq_true_iff.mp h
          obtain ⟨hne, hident⟩ := Bool.and_eq_true_iff.mp hword
          obtain ⟨hdollar, hhead⟩ := Bool.and_eq_true_iff.mp hrest
          have hstop : ∀ d ∈ rest.head?, isIdentChar d = false ∧ d ≠ '\'' := by
            intro d hd
            rw [Option.mem_def.mp hd] at hhead
            obtain ⟨hident, hquote⟩ := Bool.and_eq_true_iff.mp hhead
            exact ⟨by simpa using hident, of_decide_eq_true hquote⟩
          refine ⟨of_decide_eq_true hne, List.all_eq_true.mp hident,
            fun h => absurd h (of_decide_eq_true hdollar), ?_, ?_⟩
          · cases hrest : rest.head? with
            | none => rfl
            | some d => exact (hstop d hrest).1
          · intro _ hquote
            exact (hstop _ hquote).2 rfl
      | symbol c =>
          obtain rfl := of_decide_eq_true h
          exact ⟨rfl, by decide, by simp, by simp⟩
      | _ => cases h

/-- Words and blanks, with or without parentheses, none of which runs into the next. -/
def spacedSimply : List SqlToken → Bool
  | [] => true
  | t :: ts => standsBefore (tokensText ts) t && spacedSimply ts

lemma spaced_of_simply {ts : List SqlToken} (h : spacedSimply ts = true) :
    ∀ before, Spaced before ts := by
  induction ts with
  | nil => intro before; trivial
  | cons t ts ih =>
      intro before
      obtain ⟨ht, hts⟩ := Bool.and_eq_true_iff.mp h
      exact ⟨standsIn_of_standsBefore ht before, ih hts _⟩

/-- Words with a blank before each but the first. -/
def spacedWords : List String → List SqlTerm
  | [] => []
  | [w] => [.atom (.word w.toList)]
  | w :: v :: ws => .atom (.word w.toList) :: .atom (.symbol ' ') :: spacedWords (v :: ws)

/-- `INSERT INTO log WITH gone AS (DELETE FROM account RETURNING id) SELECT id FROM gone`. -/
def insertGone : ChangingStatement where
  terms := spacedWords ["INSERT", "INTO", "log", "WITH", "gone", "AS"] ++
    .atom (.symbol ' ') :: .group (spacedWords ["DELETE", "FROM", "account", "RETURNING", "id"]) ::
    .atom (.symbol ' ') :: spacedWords ["SELECT", "id", "FROM", "gone"]
  depth := 0
  keyword := "INSERT".toList
  rest := .atom (.symbol ' ') :: spacedWords ["INTO", "log", "WITH", "gone", "AS"] ++
    .atom (.symbol ' ') :: .group (spacedWords ["DELETE", "FROM", "account", "RETURNING", "id"]) ::
    .atom (.symbol ' ') :: spacedWords ["SELECT", "id", "FROM", "gone"]
  opens := @Opens.here [] (by simp) _ _
  spaced := spaced_of_simply (by decide +kernel) none
  changing := by decide

theorem insert_with_delete :
    insertGone.text = ("INSERT INTO log WITH gone AS (DELETE FROM account RETURNING id) " ++
      "SELECT id FROM gone").toList ∧
    returnsRows insertGone.text = true ∧ ¬ (SqlStatement.changing insertGone).ReturnsRows := by
  refine ⟨by decide +kernel, by decide +kernel, ?_⟩
  show "RETURNING".toList ∉ wordsAt 0 insertGone.rest
  decide +kernel

/-! ## A deletion before an update -/

/-- `WITH gone AS (DELETE FROM account RETURNING id) UPDATE log SET seen`. -/
def updateSeen : WithStatement where
  terms := spacedWords ["WITH", "gone", "AS"] ++
    .atom (.symbol ' ') :: .group (spacedWords ["DELETE", "FROM", "account", "RETURNING", "id"]) ::
    .atom (.symbol ' ') :: spacedWords ["UPDATE", "log", "SET", "seen"]
  depth := 0
  keyword := "WITH".toList
  rest := .atom (.symbol ' ') :: spacedWords ["gone", "AS"] ++
    .atom (.symbol ' ') :: .group (spacedWords ["DELETE", "FROM", "account", "RETURNING", "id"]) ::
    .atom (.symbol ' ') :: spacedWords ["UPDATE", "log", "SET", "seen"]
  opens := @Opens.here [] (by simp) _ _
  spaced := spaced_of_simply (by decide +kernel) none
  hkeyword := rfl
  recursive := []
  ctes := [.atom (.word "gone".toList)] ++ [] ++ [.atom (.word "AS".toList)] ++
    .group (spacedWords ["DELETE", "FROM", "account", "RETURNING", "id"]) :: ([] ++ [])
  primary := ["UPDATE", "log", "SET", "seen"].map fun w => .atom (.word w.toList)
  split := rfl
  hrecursive := .inl rfl
  hctes := .one (.mk (.bare (by decide)) (.inl rfl)
    (.inl (.cons ⟨_, rfl, by decide⟩ .nil)) _ .absent .absent)
  hprimary := .inr ⟨⟨_, _, rfl, by decide⟩, rfl⟩

/-- The update returns no rows, and is seen to return none, although the deletion before it does. -/
theorem update_behind_deletion :
    updateSeen.text = ("WITH gone AS (DELETE FROM account RETURNING id) " ++
      "UPDATE log SET seen").toList ∧
    returnsRows updateSeen.text = false ∧ ¬ (SqlStatement.withCtes updateSeen).ReturnsRows ∧
      updateSeen.Plain := by
  have hprimary : "RETURNING".toList ∉ wordsAt 0 updateSeen.primary := by decide +kernel
  have hchange : IsChange updateSeen.primary := ⟨_, _, rfl, by decide⟩
  refine ⟨by decide +kernel, by decide +kernel, ?_, ?_⟩
  · rintro (hquery | hreturning)
    · exact hchange.not_query hquery
    · exact hprimary hreturning
  · have hfirst : updateSeen.words.dropWhile (· ∉ primaryKeywords) =
        ["UPDATE".toList, "LOG".toList, "SET".toList, "SEEN".toList] := by decide +kernel
    rw [WithStatement.Plain, hfirst]
    exact fun hquery => absurd hquery hchange.not_query

end OdooKernel.Grammar
