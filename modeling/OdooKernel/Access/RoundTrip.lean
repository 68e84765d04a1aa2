import OdooKernel.Access.Rendering
import Mathlib.Order.Filter.AtTopBot.Basic

/-!
# Reading is the inverse of writing

Each text of an expression is read as the expression it is written for, whatever it is followed by
that may follow it.

**Fuel.**  The parts of the reader take a number of calls.  What a part makes of a text is said with
fuel enough (`Enough`), so that the steps of the induction need not count; `Access/PyFuel` then says
that the fuel of `parsePy` is enough.

**The induction** is on how a text is written (`reads_of_renders`), with one statement for each kind
of phrase: `ReadsAtom`, `ReadsExpr`, `ReadsItems`, `ReadsChain`.

* `reads_add`, `reads_lastItem`, `reads_names`, `reads_ref`, `reads_mappedName` — the cases with an
  argument in them.
* `parsePy_renders` — **a text is read back as the expression it is written for, and reading ends**.
* `spaced_chain_refused` — a text of Python's that is not: a chain with white space at its point.
-/

namespace OdooKernel

open Filter

variable {cls : CharClass}

/-- With fuel enough. -/
def Enough (p : ℕ → Prop) : Prop := ∀ᶠ fuel in atTop, p fuel

lemma Enough.mono {p q : ℕ → Prop} (h : Enough p) (hpq : ∀ fuel, p fuel → q fuel) : Enough q :=
  Eventually.mono h hpq

lemma Enough.and {p q : ℕ → Prop} (hp : Enough p) (hq : Enough q) :
    Enough fun fuel => p fuel ∧ q fuel := Eventually.and hp hq

lemma Enough.always {p : ℕ → Prop} (h : ∀ fuel, p fuel) : Enough p := Eventually.of_forall h

/-- One call more takes one more of the fuel. -/
lemma Enough.succ {p : ℕ → Prop} (h : Enough fun fuel => p (fuel + 1)) : Enough p := by
  obtain ⟨n, hn⟩ := eventually_atTop.mp h
  refine eventually_atTop.mpr ⟨n + 1, fun m hm => ?_⟩
  obtain ⟨k, rfl⟩ := Nat.exists_eq_succ_of_ne_zero (show m ≠ 0 by omega)
  exact hn k (by omega)

/-! ## What the parts of the reader make of a text -/

/-- An operand is read, whatever it is followed by. -/
def ReadsAtom (cls : CharClass) (e : PyExpr) (w : List Char) : Prop :=
  ∀ rest, Stops rest → Enough fun fuel => parseAtom cls fuel (w ++ rest) = .ok (e, rest)

/-- An expression is read as the left operand of what follows it. -/
def ReadsExpr (cls : CharClass) (e : PyExpr) (w : List Char) : Prop :=
  ∀ rest res, Stops rest → (Enough fun fuel => parseSum cls fuel e rest = res) →
    Enough fun fuel => parseExpr cls fuel (w ++ rest) = res

/-- The items of a sequence are read up to its bracket; parentheses around one expression are no
sequence. -/
def ReadsItems (cls : CharClass) (es : List PyExpr) (comma : Bool) (w : List Char) : Prop :=
  ∀ close acc rest, close = ']' ∨ close = ')' ∧ (comma = true ∨ es = [] ∨ acc ≠ []) →
    Enough fun fuel => parseItems cls fuel close acc (w ++ close :: rest)
      = .ok (.Seq (acc ++ es), rest)

/-- The segments of a chain are read up to the next. -/
def ReadsChain (cls : CharClass) (names : List String) (w : List Char) : Prop :=
  ∀ acc rest res, Stops rest ∨ rest.head? = some '.' →
    (Enough fun fuel => nextSegment cls fuel (acc ++ names) rest = res) →
    Enough fun fuel => parseNames cls fuel acc (w ++ rest) = res

/-- A text that an operand starts. -/
def Begins (w : List Char) : Prop :=
  ∃ c cs, w = c :: cs ∧ startsToken c = true ∧ c ≠ ')' ∧ c ≠ ']'

/-- A text that a name starts. -/
def BeginsName (cls : CharClass) (w : List Char) : Prop :=
  ∃ c cs, w = c :: cs ∧ (cls.isAlphabetic c = true ∨ c = '_')

/-- What is read of each phrase. -/
def Reads (cls : CharClass) : Phrase → List Char → Prop
  | .expr e, w => Begins w ∧ ReadsExpr cls e w
  | .atom e, w => Begins w ∧ ReadsAtom cls e w
  | .items es comma, w => ReadsItems cls es comma w
  | .chain names, w => BeginsName cls w ∧ ReadsChain cls names w

/-! ## One call of each part -/

/-- An operand is told by what it starts with. -/
lemma parseAtom_token {c : Char} (hc : startsToken c = true) (fuel : ℕ) (cs : List Char) :
    parseAtom cls (fuel + 1) (c :: cs) =
      if c = '[' then parseItems cls fuel ']' [] cs
      else if c = '(' then parseItems cls fuel ')' [] cs
      else if c = '\'' ∨ c = '"' then do
        let r ← parseString c false [] cs
        return (.Str r.1, r.2)
      else if c = '-' ∨ c.isDigit then parseNumber cls (c :: cs)
      else if cls.isAlphabetic c ∨ c = '_' then parseNames cls fuel [] (c :: cs)
      else refuse "unexpected character in expression" := by
  rw [parseAtom, skipWs_token hc]

/-- A gap before an operand is skipped. -/
lemma parseAtom_gap {g : List Char} (hg : Gap g) (fuel : ℕ) (cs : List Char) :
    parseAtom cls (fuel + 1) (g ++ cs) = parseAtom cls (fuel + 1) cs := by
  rw [parseAtom, parseAtom, skipWs_gap hg]

lemma parseExpr_gap {g : List Char} (hg : Gap g) (fuel : ℕ) (cs : List Char) :
    parseExpr cls (fuel + 2) (g ++ cs) = parseExpr cls (fuel + 2) cs := by
  rw [parseExpr, parseExpr, parseAtom_gap hg]

/-- Behind an expression only a plus sign goes on. -/
lemma parseSum_stop (e : PyExpr) {g : List Char} (hg : Gap g) {c : Char}
    (hc : startsToken c = true) (hplus : c ≠ '+') (rest : List Char) (fuel : ℕ) :
    parseSum cls (fuel + 1) e (g ++ c :: rest) = .ok (e, c :: rest) := by
  rw [parseSum, skipWs_gap hg, skipWs_token hc]
  split
  · next heq => exact absurd (List.cons.inj heq).1 hplus
  · rfl

lemma parseSum_plus (e : PyExpr) {g : List Char} (hg : Gap g) (rest : List Char) (fuel : ℕ) :
    parseSum cls (fuel + 1) e (g ++ '+' :: rest)
      = parseAtom cls fuel rest >>= fun r => parseSum cls fuel (.Add e r.1) r.2 := by
  rw [parseSum, skipWs_gap hg, skipWs_token (by decide)]
  rfl

/-- **An expression between gaps is read up to what follows it.** -/
lemma ReadsExpr.closed {e : PyExpr} {w : List Char} (h : ReadsExpr cls e w) {g g' : List Char}
    (hg : Gap g) (hg' : Gap g') {c : Char} (hc : c ∈ [',', ')', ']']) (rest : List Char) :
    Enough fun fuel => parseExpr cls fuel (g ++ (w ++ (g' ++ c :: rest))) = .ok (e, c :: rest) := by
  have hstops : Stops (g' ++ c :: rest) := by
    refine stops_gap hg' ?_ rest
    simp only [List.mem_cons, List.not_mem_nil, or_false] at hc ⊢
    exact Or.inr (Or.inr hc)
  have htoken : startsToken c = true ∧ c ≠ '+' := by
    simp only [List.mem_cons, List.not_mem_nil, or_false] at hc
    rcases hc with rfl | rfl | rfl <;> decide
  have hread := h _ (.ok (e, c :: rest)) hstops
    (Enough.succ (Enough.always fun fuel => parseSum_stop e hg' htoken.1 htoken.2 rest fuel))
  obtain ⟨n, hn⟩ := eventually_atTop.mp hread
  refine eventually_atTop.mpr ⟨n + 2, fun fuel hfuel => ?_⟩
  obtain ⟨k, rfl⟩ := Nat.exists_eq_add_of_le' (show 2 ≤ fuel by omega)
  rw [parseExpr_gap hg]
  exact hn _ (by omega)

/-! ## Operands -/

lemma reads_str {quote : Char} {s : String} {w : List Char} (hquote : quote = '\'' ∨ quote = '"')
    (hw : Quoted quote s.toList w) : Reads cls (.atom (.Str s)) (quote :: w ++ [quote]) := by
  have hplain : startsToken quote = true ∧ quote ≠ ')' ∧ quote ≠ ']' ∧ quote ≠ '[' ∧
      quote ≠ '(' ∧ quote ≠ '\\' := by rcases hquote with rfl | rfl <;> decide
  obtain ⟨htoken, hround, hsquare, hlist, hgroup, hslash⟩ := hplain
  refine ⟨⟨quote, _, rfl, htoken, hround, hsquare⟩, fun rest _ => ?_⟩
  refine Enough.succ (Enough.always fun fuel => ?_)
  have htext : quote :: w ++ [quote] ++ rest = quote :: (w ++ quote :: rest) := by simp
  rw [htext, parseAtom_token htoken, if_neg hlist, if_neg hgroup, if_pos hquote,
    parseString_quoted hslash hw]
  show Except.ok (PyExpr.Str (String.ofList ([] ++ s.toList)), rest) = _
  rw [List.nil_append, String.ofList_toList]

/-- The digits of an integer, up to what is neither a digit nor a point. -/
lemma parseNumber_digits {negative : Bool} {ds rest : List Char} (hne : ds ≠ [])
    (hds : ∀ d ∈ ds, d.isDigit = true) (hrest : ∀ c ∈ rest.head?, c.isDigit = false ∧ c ≠ '.') :
    parseNumber cls ((if negative then ['-'] else []) ++ ds ++ rest)
      = parseI64 negative ds >>= fun e => .ok (e, rest) := by
  have hminus : (((if negative then ['-'] else []) ++ ds ++ rest).head? = some '-')
      ↔ negative = true := by
    cases negative with
    | true => simp
    | false =>
        obtain ⟨d, ds, rfl⟩ := List.exists_cons_of_ne_nil hne
        have hd := hds d List.mem_cons_self
        simp only [Bool.false_eq_true, if_false, List.nil_append, List.cons_append,
          List.head?_cons, Option.some.injEq, iff_false]
        rintro rfl
        exact absurd hd (by decide)
  have hinput : (if ((if negative then ['-'] else []) ++ ds ++ rest).head? = some '-'
      then ((if negative then ['-'] else []) ++ ds ++ rest).drop 1
      else (if negative then ['-'] else []) ++ ds ++ rest) = ds ++ rest := by
    cases negative with
    | true => simp
    | false =>
        rw [if_neg (by rw [hminus]; decide)]
        simp
  have hpoint : '.' ∉ ds := fun h => absurd (hds '.' h) (by decide)
  unfold parseNumber
  simp only [hminus, Bool.decide_eq_true] at hinput ⊢
  rw [hinput, numberText_digits hds hrest]
  simp only [hpoint, if_false]
  rfl

lemma parseI64_digits {negative : Bool} {ds : List Char} (hne : ds ≠ [])
    (hbound : digitsValue ds < 2 ^ 63 ∨ negative = true ∧ digitsValue ds ≤ 2 ^ 63) :
    parseI64 negative ds
      = .ok (.Int (if negative then -(digitsValue ds : ℤ) else digitsValue ds)) := by
  unfold parseI64
  simp only
  rw [if_neg hne, if_pos]
  rcases hbound with h | ⟨rfl, h⟩
  · cases negative with
    | true => simp only [if_true]; omega
    | false => simp only [Bool.false_eq_true, if_false]; omega
  · simp only [if_true]
    omega

/-! ## Sequences and sums -/

/-- The next item of a sequence is read up to what follows it. -/
lemma parseItems_item {e : PyExpr} {g w g' : List Char} (hg : Gap g)
    (hw : Reads cls (.expr e) w) (hg' : Gap g') {c close : Char} (hc : c ∈ [',', ')', ']'])
    (hclose : close = ')' ∨ close = ']') {items : List PyExpr} {rest : List Char}
    {res : Result (PyExpr × List Char)}
    (hres : Enough fun fuel => nextItem cls fuel close items e (c :: rest) = res) :
    Enough fun fuel => parseItems cls fuel close items (g ++ (w ++ (g' ++ c :: rest))) = res := by
  have hread := hw.2.closed Gap.nil hg' hc rest
  obtain ⟨⟨d, ds, rfl, htoken, hround, hsquare⟩, _⟩ := hw
  have hskip : skipWs false (g ++ (d :: ds ++ (g' ++ c :: rest)))
      = d :: ds ++ (g' ++ c :: rest) := by
    rw [skipWs_gap hg]
    exact skipWs_token htoken _
  have hopen : (d :: ds ++ (g' ++ c :: rest)).head? ≠ some close := by
    intro h
    have hd : d = close := Option.some.inj h
    rcases hclose with rfl | rfl
    · exact hround hd
    · exact hsquare hd
  refine Enough.succ ((hread.and hres).mono fun fuel ⟨hfuel, hnext⟩ => ?_)
  rw [List.nil_append] at hfuel
  rw [parseItems_succ, hskip, if_neg hopen, hfuel]
  exact hnext

/-- A sequence ends at its bracket. -/
lemma parseItems_close {close : Char} (hclose : close = ')' ∨ close = ']') {g : List Char}
    (hg : Gap g) (items : List PyExpr) (rest : List Char) :
    Enough fun fuel => parseItems cls fuel close items (g ++ close :: rest)
      = .ok (.Seq items, rest) := by
  have htoken : startsToken close = true := by rcases hclose with rfl | rfl <;> decide
  refine Enough.succ (Enough.always fun fuel => ?_)
  rw [parseItems_succ, skipWs_gap hg, skipWs_token htoken, List.head?_cons, if_pos rfl]
  rfl

lemma nextItem_comma (fuel : ℕ) (close : Char) (items : List PyExpr) (e : PyExpr)
    (rest : List Char) : nextItem cls fuel close items e (',' :: rest)
      = parseItems cls fuel close (items ++ [e]) rest := by
  unfold nextItem
  simp only [skipWs_token (show startsToken ',' = true by decide)]
  rfl

/-- Without a comma, parentheses group one expression. -/
lemma nextItem_group (fuel : ℕ) (e : PyExpr) (rest : List Char) :
    nextItem cls fuel ')' [] e (')' :: rest) = .ok (e, rest) := by
  unfold nextItem
  simp only [skipWs_token (show startsToken ')' = true by decide)]
  rfl

lemma nextItem_close (fuel : ℕ) {close : Char} {items : List PyExpr}
    (hclose : close = ']' ∨ close = ')' ∧ items ≠ []) (e : PyExpr) (rest : List Char) :
    nextItem cls fuel close items e (close :: rest)
      = parseItems cls fuel close (items ++ [e]) (close :: rest) := by
  rcases hclose with rfl | ⟨rfl, hitems⟩
  · unfold nextItem
    simp only [skipWs_token (show startsToken ']' = true by decide)]
    rfl
  · unfold nextItem
    simp only [skipWs_token (show startsToken ')' = true by decide)]
    cases items with
    | nil => exact absurd rfl hitems
    | cons item items => rfl

lemma reads_group {e : PyExpr} {g w g' : List Char} (hg : Gap g) (hw : Reads cls (.expr e) w)
    (hg' : Gap g') : Reads cls (.atom e) ('(' :: (g ++ (w ++ (g' ++ [')'])))) := by
  refine ⟨⟨'(', _, rfl, by decide⟩, fun rest _ => ?_⟩
  have hitem := parseItems_item hg hw hg' (by decide : ')' ∈ [',', ')', ']']) (Or.inl rfl)
    (Enough.always fun fuel => nextItem_group fuel e rest)
  refine Enough.succ (hitem.mono fun fuel hfuel => ?_)
  have htext : '(' :: (g ++ (w ++ (g' ++ [')']))) ++ rest
      = '(' :: (g ++ (w ++ (g' ++ ')' :: rest))) := by simp
  rw [htext, parseAtom_token (by decide), if_neg (by decide), if_pos rfl, hfuel]

lemma reads_list {es : List PyExpr} {comma : Bool} {w : List Char}
    (hw : Reads cls (.items es comma) w) : Reads cls (.atom (.Seq es)) ('[' :: (w ++ [']'])) := by
  refine ⟨⟨'[', _, rfl, by decide⟩, fun rest _ => ?_⟩
  refine Enough.succ ((hw ']' [] rest (Or.inl rfl)).mono fun fuel hfuel => ?_)
  have htext : '[' :: (w ++ [']']) ++ rest = '[' :: (w ++ ']' :: rest) := by simp
  rw [htext, parseAtom_token (by decide), if_pos rfl, hfuel, List.nil_append]

lemma reads_tuple {es : List PyExpr} {comma : Bool} {w : List Char}
    (hw : Reads cls (.items es comma) w) (hes : comma = true ∨ es = []) :
    Reads cls (.atom (.Seq es)) ('(' :: (w ++ [')'])) := by
  refine ⟨⟨'(', _, rfl, by decide⟩, fun rest _ => ?_⟩
  have hclose : ')' = ']' ∨ ')' = ')' ∧ (comma = true ∨ es = [] ∨ ([] : List PyExpr) ≠ []) :=
    Or.inr ⟨rfl, hes.imp_right Or.inl⟩
  refine Enough.succ ((hw ')' [] rest hclose).mono fun fuel hfuel => ?_)
  have htext : '(' :: (w ++ [')']) ++ rest = '(' :: (w ++ ')' :: rest) := by simp
  rw [htext, parseAtom_token (by decide), if_neg (by decide), if_pos rfl, hfuel, List.nil_append]

lemma reads_noItem {g : List Char} (hg : Gap g) : Reads cls (.items [] false) g := by
  intro close acc rest hclose
  rw [List.append_nil]
  exact parseItems_close (hclose.symm.imp_left fun h => h.1) hg acc rest

/-- The last item has no comma behind it: its bracket is that of a list, or of a tuple that has
more items. -/
lemma reads_lastItem {e : PyExpr} {g w g' : List Char} (hg : Gap g) (hw : Reads cls (.expr e) w)
    (hg' : Gap g') : Reads cls (.items [e] false) (g ++ (w ++ g')) := by
  intro close acc rest hclose
  have hbracket : close = ']' ∨ close = ')' ∧ acc ≠ [] := by
    refine hclose.imp_right fun h => ⟨h.1, ?_⟩
    rcases h.2 with hcomma | hnil | hacc
    · exact absurd hcomma Bool.false_ne_true
    · exact absurd hnil (List.cons_ne_nil e [])
    · exact hacc
  have hround : close = ')' ∨ close = ']' := hbracket.symm.imp_left fun h => h.1
  have hmark : close ∈ [',', ')', ']'] := by rcases hround with rfl | rfl <;> decide
  have htext : g ++ (w ++ g') ++ close :: rest = g ++ (w ++ (g' ++ close :: rest)) := by simp
  rw [htext]
  refine parseItems_item hg hw hg' hmark hround ?_
  have hend := @parseItems_close cls close hround [] Gap.nil (acc ++ [e]) rest
  refine hend.mono fun fuel hfuel => ?_
  rw [nextItem_close fuel hbracket]
  exact hfuel

lemma reads_nextItem {e : PyExpr} {es : List PyExpr} {comma : Bool} {g w g' w' : List Char}
    (hg : Gap g) (hw : Reads cls (.expr e) w) (hg' : Gap g') (hw' : Reads cls (.items es comma) w') :
    Reads cls (.items (e :: es) true) (g ++ (w ++ (g' ++ ',' :: w'))) := by
  intro close acc rest hclose
  have hround : close = ')' ∨ close = ']' := hclose.symm.imp_left fun h => h.1
  have hrest : close = ']' ∨ close = ')' ∧ (comma = true ∨ es = [] ∨ acc ++ [e] ≠ []) :=
    hclose.imp_right fun h => ⟨h.1, Or.inr (Or.inr (List.append_ne_nil_of_right_ne_nil acc
      (List.cons_ne_nil e [])))⟩
  have htext : g ++ (w ++ (g' ++ ',' :: w')) ++ close :: rest
      = g ++ (w ++ (g' ++ ',' :: (w' ++ close :: rest))) := by simp
  rw [htext]
  refine parseItems_item hg hw hg' (by decide) hround ?_
  refine (hw' close (acc ++ [e]) rest hrest).mono fun fuel hfuel => ?_
  rw [nextItem_comma, hfuel, List.append_assoc, List.singleton_append]

/-- One operand is an expression. -/
lemma reads_single {e : PyExpr} {w : List Char} (hw : Reads cls (.atom e) w) :
    Reads cls (.expr e) w := by
  refine ⟨hw.1, fun rest res hrest hres => ?_⟩
  refine Enough.succ (((hw.2 rest hrest).and hres).mono fun fuel ⟨hatom, hsum⟩ => ?_)
  rw [parseExpr, hatom]
  exact hsum

/-- **One operand more**: what is read so far is its left operand. -/
lemma reads_add {a b : PyExpr} {w w' g g' : List Char} (hw : Reads cls (.expr a) w) (hg : Gap g)
    (hg' : Gap g') (hw' : Reads cls (.atom b) w') :
    Reads cls (.expr (.Add a b)) (w ++ (g ++ '+' :: (g' ++ w'))) := by
  obtain ⟨⟨c, cs, rfl, hbegin⟩, hread⟩ := hw
  refine ⟨⟨c, _, rfl, hbegin⟩, fun rest res hrest hres => ?_⟩
  have htext : c :: cs ++ (g ++ '+' :: (g' ++ w')) ++ rest
      = c :: cs ++ (g ++ '+' :: (g' ++ (w' ++ rest))) := by simp
  rw [htext]
  refine hread _ res (stops_gap hg (by decide) _) ?_
  have hright : Enough fun fuel => parseAtom cls fuel (g' ++ (w' ++ rest)) = .ok (b, rest) := by
    obtain ⟨n, hn⟩ := eventually_atTop.mp (hw'.2 rest hrest)
    refine eventually_atTop.mpr ⟨n + 1, fun fuel hfuel => ?_⟩
    obtain ⟨k, rfl⟩ := Nat.exists_eq_add_of_le' (show 1 ≤ fuel by omega)
    rw [parseAtom_gap hg']
    exact hn _ (by omega)
  refine Enough.succ ((hright.and hres).mono fun fuel ⟨hatom, hsum⟩ => ?_)
  rw [parseSum_plus a hg, hatom]
  exact hsum

/-- The next segment of a chain, behind its point. -/
lemma reads_dotted {ns ns' : List String} {w w' : List Char} (hw : Reads cls (.chain ns) w)
    (hw' : Reads cls (.chain ns') w') : Reads cls (.chain (ns ++ ns')) (w ++ '.' :: w') := by
  obtain ⟨⟨c, cs, rfl, hstart⟩, hread⟩ := hw
  refine ⟨⟨c, _, rfl, hstart⟩, fun acc rest res hrest hres => ?_⟩
  have htext : c :: cs ++ '.' :: w' ++ rest = c :: cs ++ '.' :: (w' ++ rest) := by simp
  rw [htext]
  refine hread acc _ res (Or.inr rfl) ?_
  rw [← List.append_assoc] at hres
  refine (hw'.2 (acc ++ ns) rest res hrest hres).mono fun fuel hfuel => ?_
  rw [nextSegment, List.head?_cons, if_pos rfl]
  exact hfuel

/-- A chain whose head is no literal is a name. -/
lemma nameOrLiteral_name {n : String} {names : List String} (hn : n ∉ literalNames) :
    nameOrLiteral (n :: names) = .ok (.Name (n :: names)) := by
  simp only [literalNames, List.mem_cons, List.not_mem_nil, or_false, not_or] at hn
  unfold nameOrLiteral
  split
  · next heq => exact absurd (List.cons.inj heq).1 hn.1
  · next heq => exact absurd (List.cons.inj heq).1 hn.2.1
  · next heq => exact absurd (List.cons.inj heq).1 hn.2.2
  · next heq => exact absurd (List.cons.inj heq).1 hn.1
  · next heq => exact absurd (List.cons.inj heq).1 hn.2.1
  · next heq => exact absurd (List.cons.inj heq).1 hn.2.2
  · rfl

/-- Letters of ASCII. -/
def asciiLetters (cs : List Char) : Bool := cs.all fun d => decide (d.toNat < 128) && d.isAlpha

section Unicode

variable (hcls : cls.Unicode)

include hcls

lemma reads_int {ds : List Char} (hne : ds ≠ []) (hds : ∀ d ∈ ds, d.isDigit = true)
    (hbound : digitsValue ds < 2 ^ 63) : Reads cls (.atom (.Int (digitsValue ds))) ds := by
  obtain ⟨d, ds', hcons⟩ := List.exists_cons_of_ne_nil hne
  have hd : d.isDigit = true := hds d (hcons ▸ List.mem_cons_self)
  have hother : ∀ c : Char, c.isDigit = false → d ≠ c := by
    rintro c hc rfl
    rw [hd] at hc
    exact absurd hc (by decide)
  have htoken : startsToken d = true := by
    have hblank : isWhitespace d = false := by
      rw [Bool.eq_false_iff]
      intro hblank
      rw [isDigit_of_isWhitespace hblank] at hd
      exact absurd hd (by decide)
    rw [startsToken, hblank]
    simpa using hother '#' (by decide)
  refine ⟨⟨d, ds', hcons, htoken, hother _ (by decide), hother _ (by decide)⟩,
    fun rest hrest => ?_⟩
  refine Enough.succ (Enough.always fun fuel => ?_)
  have hnumber := @parseNumber_digits cls false ds rest hne hds
    fun c hc => (hrest.head hcls hc).1
  rw [parseI64_digits hne (Or.inl hbound)] at hnumber
  have hread : parseNumber cls (d :: (ds' ++ rest)) = .ok (.Int (digitsValue ds), rest) := by
    have htext : d :: (ds' ++ rest) = ds ++ rest := by rw [hcons]; rfl
    rw [htext]
    exact hnumber
  rw [hcons, List.cons_append, parseAtom_token htoken, if_neg (hother _ (by decide)),
    if_neg (hother _ (by decide)), if_neg, if_pos (Or.inr hd), hread, ← hcons]
  rintro (h | h)
  · exact hother _ (by decide) h
  · exact hother _ (by decide) h

lemma reads_negative {ds : List Char} (hne : ds ≠ []) (hds : ∀ d ∈ ds, d.isDigit = true)
    (hbound : digitsValue ds ≤ 2 ^ 63) :
    Reads cls (.atom (.Int (-(digitsValue ds : ℤ)))) ('-' :: ds) := by
  refine ⟨⟨'-', ds, rfl, by decide⟩, fun rest hrest => ?_⟩
  refine Enough.succ (Enough.always fun fuel => ?_)
  have hnumber := @parseNumber_digits cls true ds rest hne hds
    fun c hc => (hrest.head hcls hc).1
  rw [parseI64_digits hne (Or.inr ⟨rfl, hbound⟩)] at hnumber
  rw [List.cons_append, parseAtom_token (by decide), if_neg (by decide), if_neg (by decide),
    if_neg (by decide), if_pos (Or.inl rfl)]
  exact hnumber

/-- A segment that is a name. -/
lemma reads_plainName {n : String} (hn : cls.Identifier n) :
    Reads cls (.chain [n]) n.toList := by
  obtain ⟨c, cs, hcons, hstart, hcs⟩ := hn
  refine ⟨⟨c, cs, hcons, hstart⟩, fun acc rest res hrest hres => ?_⟩
  have hall : ∀ d ∈ n.toList, cls.continues d = true := by
    intro d hd
    rw [hcons] at hd
    rcases List.mem_cons.mp hd with rfl | hd
    · rcases hstart with halpha | rfl
      · rw [CharClass.continues, halpha]
        rfl
      · rw [CharClass.continues]
        simp
    · exact hcs d hd
  have hhead : ∀ d ∈ rest.head?, cls.continues d = false ∧ d ≠ '(' := by
    intro d hd
    rcases hrest with hstops | hpoint
    · exact (hstops.head hcls hd).2
    · rw [hpoint] at hd
      obtain rfl := Option.some.inj hd
      exact ⟨continues_ascii hcls (by decide) (by decide) (by decide) (by decide), by decide⟩
  have hidentifier := identifier_continues hall fun d hd => (hhead d hd).1
  have hopen : rest.head? ≠ some '(' := fun h => (hhead '(' h).2 rfl
  refine Enough.succ (hres.mono fun fuel hfuel => ?_)
  rw [parseNames_succ, hidentifier, if_neg (by rw [hcons]; exact List.cons_ne_nil c cs),
    if_neg fun h => hopen h.2.2, if_neg fun h => hopen h.2, String.ofList_toList]
  exact hfuel

/-- A chain is read as what it stands for. -/
lemma reads_names {names : List String} {w : List Char} {e : PyExpr}
    (hw : Reads cls (.chain names) w) (he : nameOrLiteral names = .ok e) :
    Reads cls (.atom e) w := by
  obtain ⟨⟨c, cs, rfl, hstart⟩, hread⟩ := hw
  obtain ⟨htoken, hdigit, hmarks⟩ := name_start hcls hstart
  simp only [List.mem_cons, List.not_mem_nil, or_false, not_or] at hmarks
  obtain ⟨hlist, hgroup, hsingle, hdouble, hminus, hround, hsquare, _⟩ := hmarks
  refine ⟨⟨c, cs, rfl, htoken, hround, hsquare⟩, fun rest hrest => ?_⟩
  have hend : rest.head? ≠ some '.' := fun h => (hrest.head hcls h).1.2 rfl
  have hnext : Enough fun fuel => nextSegment cls fuel ([] ++ names) rest = .ok (e, rest) := by
    refine Enough.always fun fuel => ?_
    rw [nextSegment, if_neg hend, List.nil_append, he]
    rfl
  refine Enough.succ ((hread [] rest (.ok (e, rest)) (Or.inl hrest) hnext).mono fun fuel hfuel => ?_)
  rw [List.cons_append, parseAtom_token htoken, if_neg hlist, if_neg hgroup,
    if_neg (fun h => h.elim hsingle hdouble), if_neg, if_pos hstart]
  · exact hfuel
  · rintro (h | h)
    · exact hminus h
    · rw [hdigit] at h
      exact absurd h (by decide)

/-- The letters of ASCII are letters. -/
lemma alphabetic_letters {cs : List Char} (hcs : asciiLetters cs = true) {d : Char} (hd : d ∈ cs) :
    cls.isAlphabetic d = true := by
  have hletter := List.all_eq_true.mp hcs d hd
  rw [Bool.and_eq_true, decide_eq_true_eq] at hletter
  rw [hcls.alphabetic_ascii d hletter.1, hletter.2]

lemma identifier_ascii {c : Char} {cs : List Char} (hcs : asciiLetters (c :: cs) = true) :
    cls.Identifier (String.ofList (c :: cs)) := by
  have halpha : ∀ {d}, d ∈ c :: cs → cls.isAlphabetic d = true :=
    fun hd => alphabetic_letters hcls hcs hd
  refine ⟨c, cs, String.toList_ofList, Or.inl (halpha List.mem_cons_self), fun d hd => ?_⟩
  rw [CharClass.continues, halpha (List.mem_cons_of_mem c hd)]
  rfl

/-- The name of a call, up to its parenthesis. -/
lemma identifier_call {c : Char} {cs : List Char} (hcs : asciiLetters (c :: cs) = true)
    (rest : List Char) : identifier cls (c :: cs ++ '(' :: rest) = (c :: cs, '(' :: rest) := by
  refine identifier_continues (fun d hd => ?_) fun d hd => ?_
  · rw [CharClass.continues, alphabetic_letters hcls hcs hd]
    rfl
  · obtain rfl := Option.some.inj hd
    exact continues_ascii hcls (by decide) (by decide) (by decide) (by decide)

/-- **A call of `ref`.** -/
lemma reads_ref {xmlid : String} {g g' w : List Char} (hg : Gap g)
    (hw : Reads cls (.expr (.Str xmlid)) w) (hg' : Gap g') :
    Reads cls (.atom (.Ref xmlid)) ("ref".toList ++ '(' :: (g ++ (w ++ (g' ++ [')'])))) := by
  refine ⟨⟨'r', _, rfl, by decide⟩, fun rest hrest => ?_⟩
  have hclosed := hw.2.closed hg hg' (by decide : ')' ∈ [',', ')', ']']) rest
  have hstart : cls.isAlphabetic 'r' = true := by
    rw [hcls.alphabetic_ascii 'r' (by decide)]
    decide
  refine Enough.succ (Enough.succ (hclosed.mono fun fuel hfuel => ?_))
  have htext : "ref".toList ++ '(' :: (g ++ (w ++ (g' ++ [')']))) ++ rest
      = 'r' :: 'e' :: 'f' :: '(' :: (g ++ (w ++ (g' ++ ')' :: rest))) := by simp
  have hidentifier := @identifier_call cls hcls 'r' ['e', 'f'] (by decide)
    (g ++ (w ++ (g' ++ ')' :: rest)))
  rw [htext, parseAtom_token (by decide), if_neg (by decide), if_neg (by decide),
    if_neg (by decide), if_neg (by decide), if_pos (Or.inl hstart), parseNames_succ]
  simp only [List.cons_append, List.nil_append] at hidentifier
  rw [hidentifier, if_neg (by simp), if_pos
    ⟨show String.ofList ['r', 'e', 'f'] = "ref" by decide, rfl, rfl⟩, List.drop_one, List.tail_cons,
    hfuel]
  show closeRef (.Str xmlid) (')' :: rest) = _
  rw [closeRef, skipWs_token (by decide)]
  rfl

/-- **A segment of fields**, each of which is one step of the chain. -/
lemma reads_mappedName {fields : List String} {g g' w : List Char} (hne : fields ≠ [])
    (hdots : ∀ f ∈ fields, '.' ∉ f.toList) (hg : Gap g)
    (hw : Reads cls (.expr (.Str (joinDots fields))) w) (hg' : Gap g') :
    Reads cls (.chain (fields.map ("*" ++ ·)))
      ("mapped".toList ++ '(' :: (g ++ (w ++ (g' ++ [')'])))) := by
  have hstart : cls.isAlphabetic 'm' = true := by
    rw [hcls.alphabetic_ascii 'm' (by decide)]
    decide
  refine ⟨⟨'m', _, rfl, Or.inl hstart⟩, fun acc rest res hrest hres => ?_⟩
  have hclosed := hw.2.closed hg hg' (by decide : ')' ∈ [',', ')', ']']) rest
  refine Enough.succ ((hclosed.and hres).mono fun fuel ⟨hfuel, hnext⟩ => ?_)
  have htext : "mapped".toList ++ '(' :: (g ++ (w ++ (g' ++ [')']))) ++ rest
      = 'm' :: ['a', 'p', 'p', 'e', 'd'] ++ '(' :: (g ++ (w ++ (g' ++ ')' :: rest))) := by simp
  have hidentifier := @identifier_call cls hcls 'm' ['a', 'p', 'p', 'e', 'd'] (by decide)
    (g ++ (w ++ (g' ++ ')' :: rest)))
  have hsplit : (joinDots fields).splitOn "." = fields := by
    rw [splitOn_eq_splitDots, splitDots_joinDots hne hdots]
  have hname : String.ofList ['m', 'a', 'p', 'p', 'e', 'd'] = "mapped" := by decide
  rw [htext, parseNames_succ, hidentifier, if_neg (by simp), if_neg, if_pos ⟨hname, rfl⟩,
    List.drop_one, List.tail_cons, hfuel]
  · show (closeMapped acc (.Str (joinDots fields)) (')' :: rest) >>= fun r =>
      nextSegment cls fuel r.1 r.2) = res
    rw [closeMapped, skipWs_token (by decide)]
    show nextSegment cls fuel (acc ++ ((joinDots fields).splitOn ".").map ("*" ++ ·)) rest = res
    rw [hsplit]
    exact hnext
  · intro h
    exact absurd (hname.symm.trans h.1) (by decide)

/-- **Every text of an expression is read as it**, where a signed number, a chain and the name of a
call with its parenthesis are one token each. -/
lemma reads_of_renders {ph : Phrase} {w : List Char} (h : Renders cls false ph w) :
    Reads cls ph w := by
  have hinner : ∀ {g}, Inner false g → g = [] := by
    intro g hg
    rcases hg with hnil | ⟨hspaced, _⟩
    · exact hnil
    · exact absurd hspaced Bool.false_ne_true
  have hletters : ∀ s ∈ literalNames, cls.Identifier s := by
    intro s hs
    simp only [literalNames, List.mem_cons, List.not_mem_nil, or_false] at hs
    rcases hs with rfl | rfl | rfl
    · exact identifier_ascii hcls (by decide : asciiLetters "True".toList = true)
    · exact identifier_ascii hcls (by decide : asciiLetters "False".toList = true)
    · exact identifier_ascii hcls (by decide : asciiLetters "None".toList = true)
  have hliteral : ∀ s ∈ literalNames, Reads cls (.chain [s]) s.toList :=
    fun s hs => reads_plainName hcls (hletters s hs)
  induction h with
  | str hquote hw => exact reads_str hquote hw
  | int hne hds hbound => exact reads_int hcls hne hds hbound
  | negative hg hne hds hbound =>
      rw [hinner hg]
      exact reads_negative hcls hne hds hbound
  | trueLiteral => exact reads_names hcls (hliteral "True" (by decide)) rfl
  | falseLiteral => exact reads_names hcls (hliteral "False" (by decide)) rfl
  | noneLiteral => exact reads_names hcls (hliteral "None" (by decide)) rfl
  | name hn _ ih => exact reads_names hcls ih (nameOrLiteral_name hn)
  | ref hg hg' _ hg'' ih =>
      rw [hinner hg]
      exact reads_ref hcls hg' ih hg''
  | group hg _ hg' ih => exact reads_group hg ih hg'
  | list _ ih => exact reads_list ih
  | tuple _ hes ih => exact reads_tuple ih hes
  | single _ ih => exact reads_single ih
  | add _ hg hg' _ ih ih' => exact reads_add ih hg hg' ih'
  | noItem hg => exact reads_noItem hg
  | lastItem hg _ hg' ih => exact reads_lastItem hg ih hg'
  | nextItem hg _ hg' _ ih ih' => exact reads_nextItem hg ih hg' ih'
  | plainName hn => exact reads_plainName hcls hn
  | mappedName hne hdots hg hg' _ hg'' ih =>
      rw [hinner hg]
      exact reads_mappedName hcls hne hdots hg' ih hg''
  | dotted _ hg hg' _ ih ih' =>
      rw [hinner hg, hinner hg']
      exact reads_dotted ih ih'

end Unicode

/-! ## Whole texts -/

/-- Fuel that outlasts the text reads as any larger fuel does. -/
lemma parseExpr_enough {cs : List Char} {res : Result (PyExpr × List Char)}
    (h : Enough fun fuel => parseExpr cls fuel cs = res) :
    parseExpr cls (4 * cs.length + 4) cs = res := by
  obtain ⟨n, hn⟩ := eventually_atTop.mp h
  have hmore := hn (max n (4 * cs.length + 4)) (Nat.le_max_left _ _)
  rw [parseExpr_of_le cls cs (by omega) (Nat.le_max_right n (4 * cs.length + 4))] at hmore
  exact hmore

/-- An expression with nothing but a gap behind it, or a comment that no line ends. -/
lemma parsePy_text {e : PyExpr} {src : String} {g w rest : List Char} (hg : Gap g)
    (hw : Reads cls (.expr e) w) (hrest : Stops rest) (hend : skipWs false rest = [])
    (hsrc : src.toList = g ++ (w ++ rest)) : parsePy cls src = .ok e := by
  have hsum : Enough fun fuel => parseSum cls fuel e rest = .ok (e, []) := by
    refine Enough.succ (Enough.always fun fuel => ?_)
    rw [parseSum, hend]
    rfl
  have hread : Enough fun fuel => parseExpr cls fuel (g ++ (w ++ rest)) = .ok (e, []) := by
    obtain ⟨n, hn⟩ := eventually_atTop.mp (hw.2 rest _ hrest hsum)
    refine eventually_atTop.mpr ⟨n + 2, fun fuel hfuel => ?_⟩
    obtain ⟨k, rfl⟩ := Nat.exists_eq_add_of_le' (show 2 ≤ fuel by omega)
    rw [parseExpr_gap hg]
    exact hn _ (by omega)
  have hparse := parseExpr_enough hread
  rw [← hsrc] at hparse
  unfold parsePy
  simp only [hparse]
  rfl

/-- No text lacks fuel. -/
lemma parsePy_settled (cls : CharClass) (src : String) : parsePy cls src ≠ outOfFuel := by
  have hexpr := (reads_settle cls _).expr src.toList (by omega : _ ≤ 4 * src.toList.length + 4)
  refine (Fuelled.bind (Fuelled.same hexpr.2) fun r _ => Fuelled.same ?_).2
  obtain ⟨e, rest⟩ := r
  show (if skipWs false rest = [] then .ok e else refuse "trailing input in expression") ≠ outOfFuel
  split
  · exact (Fuelled.ok _).2
  · exact (Fuelled.refuse _).2

/-- **Every text of an expression is read back as that expression, and reading ends on every
input**: no text lacks fuel, and no fuel beyond what a text starts with changes what is read. -/
theorem parsePy_renders (cls : CharClass) :
    (cls.Unicode → ∀ e (src : String), RendersText cls false e src.toList →
      parsePy cls src = .ok e) ∧
    ∀ src : String, parsePy cls src ≠ outOfFuel ∧
      ∀ fuel, 4 * src.toList.length + 4 ≤ fuel → parseExpr cls fuel src.toList
        = parseExpr cls (4 * src.toList.length + 4) src.toList := by
  refine ⟨fun hcls e src h => ?_, fun src => ⟨parsePy_settled cls src, fun fuel hfuel => ?_⟩⟩
  · generalize hsrc : src.toList = chars at h
    cases h with
    | @closed g w g' hg hw hg' =>
        have hend : skipWs false g' = [] := by
          rw [← List.append_nil g', skipWs_gap hg']
          rfl
        exact parsePy_text hg (reads_of_renders hcls hw) (stops_of_gap hg') hend hsrc
    | @commented g w g' body hg hw hg' hbody =>
        have hend : skipWs false (g' ++ '#' :: body) = [] := by
          rw [skipWs_gap hg']
          exact skipWs_comment hbody
        exact parsePy_text hg (reads_of_renders hcls hw) (stops_gap hg' (by decide) body) hend hsrc
  · exact parseExpr_of_le cls src.toList (by omega) hfuel

/-- The characters of ASCII. -/
def CharClass.ascii : CharClass := ⟨fun c => c.isAlpha, fun c => c.isDigit, some⟩

lemma CharClass.ascii_unicode : CharClass.ascii.Unicode where
  alphabetic_ascii _ _ := rfl
  numeric_ascii _ _ := rfl
  whitespace := by
    intro c hc
    refine ⟨?_, isDigit_of_isWhitespace hc⟩
    show c.isAlpha = false
    rw [Bool.eq_false_iff]
    intro halpha
    rw [isAlpha_iff] at halpha
    simp only [isWhitespace, Bool.or_eq_true, Bool.and_eq_true, decide_eq_true_eq] at hc
    omega

/-- A tuple of one item, with a comment before its bracket. -/
theorem one_item_tuple : parsePy .ascii "('a', # x\n)" = .ok (.Seq [.Str "a"]) := by
  refine (parsePy_renders .ascii).1 CharClass.ascii_unicode _ _ ?_
  have hquoted : Quoted '\'' "a".toList ['a'] := .plain (by decide) (by decide) .nil
  have hitem : Renders .ascii false (.expr (.Str "a")) ['\'', 'a', '\''] :=
    .single (@Renders.str .ascii false '\'' "a" ['a'] (Or.inl rfl) hquoted)
  have hgap : Gap [' ', '#', ' ', 'x', '\n'] :=
    .blank (by decide) (@Gap.comment [' ', 'x'] [] (by decide) .nil)
  have hitems := Renders.nextItem .nil hitem .nil (.noItem hgap)
  exact .closed .nil (.single (.tuple hitems (Or.inl rfl))) .nil

/-- Where Python would skip white space around a point, the reader stops. -/
theorem spaced_chain_refused : ¬ ∀ cls : CharClass, cls.Unicode → ∀ e (src : String),
    RendersText cls true e src.toList → parsePy cls src = .ok e := by
  intro h
  have huser : CharClass.ascii.Identifier "user" :=
    identifier_ascii CharClass.ascii_unicode (by decide : asciiLetters "user".toList = true)
  have hid : CharClass.ascii.Identifier "id" :=
    identifier_ascii CharClass.ascii_unicode (by decide : asciiLetters "id".toList = true)
  have hblank : Inner true [' '] := Or.inr ⟨rfl, .blank (by decide) .nil⟩
  have htext : RendersText .ascii true (.Name ["user", "id"]) "user . id".toList :=
    .closed .nil (.single (.name (by decide)
      (.dotted (.plainName huser) hblank hblank (.plainName hid)))) .nil
  have hread := h .ascii CharClass.ascii_unicode _ _ htext
  have hrefused : parsePy .ascii "user . id" = refuse "trailing input in expression" := by rfl
  rw [hrefused] at hread
  cases hread

end OdooKernel
