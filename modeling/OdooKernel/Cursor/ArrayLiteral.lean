import OdooKernel.Cursor.CopyText

/-!
# Arrays that are read back

A list of a row is sent as the text of an array, which the server takes apart again.

**The reader.**  `readArray` is the server's, character by character, as PostgreSQL's documentation
has it: a stack of the arrays that are open, elements with and without quotes, NULL without quotes
only, and one shape for all parts.

**What is to be read.**  `PyValue.IsTree` and `PyValue.IsColumn` are relations between a value and
what it is read as, with the text forms of `PyValue.HasText` at the leaves; neither mentions what the
code sends.  `PyValue.tree` is the tree of what it does send, and `isTree_tree` connects the two.

**Rows and arrays.**  In a row a list is a column like any other, whatever the lengths of its parts,
and its text encloses its items; only where an array is asked for does it have to be rectangular.

* `ArrayTree` — what the text of an array denotes.
* `ArrayState.next`, `readArray` — how the server reads one, character by character.
* `PyValue.IsTree`, `PyValue.IsColumn` — what a value is to be read as, in an array and in a row.
* `run_item`, `run_items` — an element and a list of elements are read as the texts that were sent.
* `isTree_tree` — these are the text forms of the values.
* **`copyLine_reads`**, **`readArray_reads`** — a row and a rectangular list are read back.
-/

namespace OdooKernel

/-- What the text of an array denotes. -/
inductive ArrayTree where
  | null
  | leaf (text : List Char)
  | node (items : List ArrayTree)

/-! ## The reader -/

/-- Where a reader of an array is.  A character without quotes is kept with whether it stood behind
a backslash. -/
inductive ArrayMode where
  | start
  | item (first : Bool)
  | unquoted (cs : List (Char × Bool))
  | unquotedEscape (cs : List (Char × Bool))
  | quoted (cs : List Char)
  | quotedEscape (cs : List Char)
  | closed
  | finished (tree : ArrayTree)

/-- A reader, with the elements so far of the arrays that are open, the innermost first. -/
structure ArrayState where
  mode : ArrayMode
  stack : List (List ArrayTree)

/-- The white space of the server. -/
def isArraySpace (c : Char) : Bool :=
  c = ' ' || c = '\t' || c = '\n' || c = '\r' || c = '\x0b' || c = '\x0c'

/-- An element without quotes: what is behind it is left out, and NULL is none. -/
def unquotedItem (cs : List (Char × Bool)) : ArrayTree :=
  let kept := (cs.reverse.dropWhile fun (c, escaped) => !escaped && isArraySpace c).reverse
  let text := kept.map (·.1)
  if kept.all (fun c => !c.2) && eqIgnoreAsciiCase text "null".toList then .null else .leaf text

/-- One more element of the innermost array. -/
def pushItem (tree : ArrayTree) : List (List ArrayTree) → List (List ArrayTree)
  | [] => []
  | items :: outer => (items ++ [tree]) :: outer

/-- The innermost array ends. -/
def closeArray : List (List ArrayTree) → Option ArrayState
  | [] => none
  | [items] => some ⟨.finished (.node items), []⟩
  | items :: items' :: outer => some ⟨.closed, (items' ++ [.node items]) :: outer⟩

/-- One character more. -/
def ArrayState.next (s : ArrayState) (c : Char) : Option ArrayState :=
  match s.mode with
  | .start =>
    if isArraySpace c then some s
    else if c = '{' then some ⟨.item true, [[]]⟩
    else none
  | .item first =>
    if isArraySpace c then some s
    else if c = '{' then some ⟨.item true, [] :: s.stack⟩
    else if c = '}' then if first then closeArray s.stack else none
    else if c = ',' then none
    else if c = '"' then some ⟨.quoted [], s.stack⟩
    else if c = '\\' then some ⟨.unquotedEscape [], s.stack⟩
    else some ⟨.unquoted [(c, false)], s.stack⟩
  | .unquoted cs =>
    if c = ',' then some ⟨.item false, pushItem (unquotedItem cs) s.stack⟩
    else if c = '}' then closeArray (pushItem (unquotedItem cs) s.stack)
    else if c = '{' ∨ c = '"' then none
    else if c = '\\' then some ⟨.unquotedEscape cs, s.stack⟩
    else some ⟨.unquoted (cs ++ [(c, false)]), s.stack⟩
  | .unquotedEscape cs => some ⟨.unquoted (cs ++ [(c, true)]), s.stack⟩
  | .quoted cs =>
    if c = '"' then some ⟨.closed, pushItem (.leaf cs) s.stack⟩
    else if c = '\\' then some ⟨.quotedEscape cs, s.stack⟩
    else some ⟨.quoted (cs ++ [c]), s.stack⟩
  | .quotedEscape cs => some ⟨.quoted (cs ++ [c]), s.stack⟩
  | .closed =>
    if isArraySpace c then some s
    else if c = ',' then some ⟨.item false, s.stack⟩
    else if c = '}' then closeArray s.stack
    else none
  | .finished _ => if isArraySpace c then some s else none

mutual
/-- The dimensions of an array, where its parts have the same ones. -/
def ArrayTree.shape : ArrayTree → Option (List ℕ)
  | .null | .leaf _ => some []
  | .node items => (shapes items).map (items.length :: ·)

/-- The dimensions that some arrays have in common. -/
def shapes : List ArrayTree → Option (List ℕ)
  | [] => none
  | [tree] => tree.shape
  | tree :: rest => do
    let dims ← tree.shape
    let others ← shapes rest
    if dims = others then some dims else none
end

/-- **The text of an array**, read: braces, commas, quotes with escapes, elements without quotes, and
one shape of all parts; an array without elements has no shape. -/
def readArray (text : List Char) : Option ArrayTree :=
  match text.foldlM ArrayState.next ⟨.start, []⟩ with
  | some ⟨.finished (.node []), _⟩ => some (.node [])
  | some ⟨.finished tree, _⟩ => tree.shape.map fun _ => tree
  | _ => none

/-! ## What values are to be read as -/

mutual
/-- **What a value is to be read as**: NULL where there is none, a leaf with the text form of a scalar,
and a list part by part. -/
def PyValue.IsTree : PyValue → ArrayTree → Prop
  | .none, tree => tree = .null
  | .sequence items, tree => ∃ trees, tree = .node trees ∧ AreTrees items trees
  | v, tree => ∃ text, tree = .leaf text ∧ v.HasText text

def AreTrees : List PyValue → List ArrayTree → Prop
  | [], trees => trees = []
  | item :: rest, trees => ∃ tree more, trees = tree :: more ∧ item.IsTree tree ∧ AreTrees rest more
end

/-- What the braces of a text enclose, whatever the lengths of its parts. -/
def readNesting (text : List Char) : Option ArrayTree :=
  match text.foldlM ArrayState.next ⟨.start, []⟩ with
  | some ⟨.finished tree, _⟩ => some tree
  | _ => none

/-- **What a column is to be read as**: NULL exactly where there is no value, the text form of a scalar,
and for a list a text whose braces enclose its items. -/
def PyValue.IsColumn : PyValue → Option (List Char) → Prop
  | .none, column => column = Option.none
  | .sequence items, column => ∃ text tree, column = some text ∧ readNesting text = some tree ∧
    (PyValue.sequence items).IsTree tree
  | v, column => ∃ text, column = some text ∧ v.HasText text

mutual
/-- The tree of the texts that are sent. -/
def PyValue.tree : PyValue → ArrayTree
  | .sequence items => .node (treesOf items)
  | v =>
    match pyToCopyText v with
    | .ok (some text) => .leaf text
    | _ => .null

def treesOf : List PyValue → List ArrayTree
  | [] => []
  | item :: rest => item.tree :: treesOf rest
end

/-! ## Elements -/

section Elements

variable {first : Bool} {acc : List ArrayTree} {outer : List (List ArrayTree)}

/-- What ends an element in a list of some. -/
def IsSeparator (c : Char) : Prop := c = ',' ∨ c = '}'

/-- Behind an element without quotes, a separator does what it does behind any element. -/
lemma next_unquoted_separator {c : Char} (hc : IsSeparator c) (cs : List (Char × Bool)) :
    ArrayState.next ⟨.unquoted cs, acc :: outer⟩ c
      = ArrayState.next ⟨.closed, (acc ++ [unquotedItem cs]) :: outer⟩ c := by
  rcases hc with rfl | rfl <;> rfl

/-- Characters of an element without quotes. -/
lemma run_unquoted {text : List Char}
    (h : ∀ c ∈ text, c ∉ ['{', '}', ',', '"', '\\']) (cs : List (Char × Bool)) (rest : List Char)
    (stack : List (List ArrayTree)) :
    (text ++ rest).foldlM ArrayState.next ⟨.unquoted cs, stack⟩
      = rest.foldlM ArrayState.next ⟨.unquoted (cs ++ text.map (·, false)), stack⟩ := by
  induction text generalizing cs with
  | nil => simp
  | cons c text ih =>
      rw [List.forall_mem_cons] at h
      obtain ⟨hc, htext⟩ := h
      simp only [List.mem_cons, List.not_mem_nil, or_false, not_or] at hc
      have hstep : ArrayState.next ⟨.unquoted cs, stack⟩ c
          = some ⟨.unquoted (cs ++ [(c, false)]), stack⟩ := by
        simp [ArrayState.next, hc]
      rw [List.cons_append, List.foldlM_cons, hstep]
      show (text ++ rest).foldlM ArrayState.next ⟨.unquoted (cs ++ [(c, false)]), stack⟩ = _
      rw [ih htext, List.append_assoc]
      rfl

/-- Characters between quotes, with their escapes. -/
lemma run_quoted (text cs : List Char) (rest : List Char) :
    ((text.flatMap fun c => if c = '"' ∨ c = '\\' then ['\\', c] else [c]) ++ '"' :: rest).foldlM
        ArrayState.next ⟨.quoted cs, acc :: outer⟩
      = rest.foldlM ArrayState.next ⟨.closed, (acc ++ [.leaf (cs ++ text)]) :: outer⟩ := by
  induction text generalizing cs with
  | nil =>
      rw [List.flatMap_nil, List.nil_append, List.foldlM_cons, List.append_nil]
      rfl
  | cons c text ih =>
      have happend : cs ++ c :: text = (cs ++ [c]) ++ text := by simp
      rw [List.flatMap_cons, List.append_assoc, happend, ← ih]
      split_ifs with hspecial
      · rcases hspecial with rfl | rfl <;> rfl
      · rw [not_or] at hspecial
        rw [List.singleton_append, List.foldlM_cons]
        have hstep : ArrayState.next ⟨.quoted cs, acc :: outer⟩ c
            = some ⟨.quoted (cs ++ [c]), acc :: outer⟩ := by
          simp [ArrayState.next, hspecial]
        rw [hstep]
        rfl

/-- An element without quotes ends where a separator stands. -/
lemma run_unquoted_item {c d : Char} {text : List Char}
    (h : ∀ e ∈ d :: text, e ∉ ['{', '}', ',', '"', '\\']) (hd : isArraySpace d = false)
    (hc : IsSeparator c) (rest : List Char) :
    (d :: text ++ c :: rest).foldlM ArrayState.next ⟨.item first, acc :: outer⟩
      = (c :: rest).foldlM ArrayState.next
        ⟨.closed, (acc ++ [unquotedItem ((d :: text).map (·, false))]) :: outer⟩ := by
  rw [List.forall_mem_cons] at h
  obtain ⟨hspecial, htext⟩ := h
  simp only [List.mem_cons, List.not_mem_nil, or_false, not_or] at hspecial
  have hstep : ArrayState.next ⟨.item first, acc :: outer⟩ d
      = some ⟨.unquoted [(d, false)], acc :: outer⟩ := by
    simp [ArrayState.next, hspecial, hd]
  rw [List.cons_append, List.foldlM_cons, hstep]
  show (text ++ c :: rest).foldlM ArrayState.next ⟨.unquoted [(d, false)], acc :: outer⟩ = _
  rw [run_unquoted htext, List.foldlM_cons, next_unquoted_separator hc, List.foldlM_cons]
  rfl

lemma isArraySpace_of_isWhitespace {c : Char} (h : isWhitespace c = false) :
    isArraySpace c = false := by
  by_contra hspace
  rw [Bool.not_eq_false, isArraySpace] at hspace
  simp only [Bool.or_eq_true, decide_eq_true_eq] at hspace
  rcases hspace with ((((rfl | rfl) | rfl) | rfl) | rfl) | rfl <;> exact absurd h (by decide)

/-- What a text without quotes is, where it needs none. -/
lemma needsQuotes_eq_false {text : List Char} (h : needsQuotes text = false) :
    text ≠ [] ∧ eqIgnoreAsciiCase text "null".toList = false ∧
      ∀ c ∈ text, c ∉ ['{', '}', ',', '"', '\\'] ∧ isWhitespace c = false := by
  rw [needsQuotes, Bool.or_eq_false_iff, Bool.or_eq_false_iff] at h
  obtain ⟨⟨hne, hnull⟩, hchars⟩ := h
  refine ⟨by simpa using hne, hnull, fun c hc => ?_⟩
  have hchar := List.any_eq_false.mp hchars c hc
  simpa [not_or] using hchar

/-- A text without quotes is an element with that text. -/
lemma unquotedItem_text {text : List Char} (h : needsQuotes text = false) :
    unquotedItem (text.map (·, false)) = .leaf text := by
  obtain ⟨hne, hnull, hchars⟩ := needsQuotes_eq_false h
  have hend : ((text.map (·, false)).reverse.dropWhile
      fun (c, escaped) => !escaped && isArraySpace c) = (text.map (·, false)).reverse := by
    have hlast : text.getLast hne ∈ text := List.getLast_mem hne
    rw [← List.map_reverse, ← List.dropLast_append_getLast hne, List.reverse_append,
      List.reverse_singleton, List.singleton_append, List.map_cons, List.dropWhile_cons_of_neg]
    simp [isArraySpace_of_isWhitespace (hchars _ hlast).2]
  have htext : ((text.map (·, false)).map fun c : Char × Bool => c.1) = text := by
    rw [List.map_map]
    exact List.map_id text
  rw [unquotedItem, hend, List.reverse_reverse]
  simp only [htext, hnull, Bool.and_false]
  rfl

/-- **The text of a value is read as its leaf**, up to the separator behind it. -/
lemma run_arrayItem (text : List Char) {c : Char} (hc : IsSeparator c) (rest : List Char) :
    (arrayItem text ++ c :: rest).foldlM ArrayState.next ⟨.item first, acc :: outer⟩
      = (c :: rest).foldlM ArrayState.next ⟨.closed, (acc ++ [.leaf text]) :: outer⟩ := by
  rw [arrayItem]
  split
  · rw [quotedItem, List.cons_append, List.cons_append, List.append_assoc, List.foldlM_cons]
    show ((text.flatMap fun c => if c = '"' ∨ c = '\\' then ['\\', c] else [c])
      ++ '"' :: (c :: rest)).foldlM ArrayState.next ⟨.quoted [], acc :: outer⟩ = _
    rw [run_quoted, List.nil_append]
  · next hquotes =>
      rw [Bool.not_eq_true] at hquotes
      obtain ⟨hne, -, hchars⟩ := needsQuotes_eq_false hquotes
      obtain ⟨d, ds, rfl⟩ := List.exists_cons_of_ne_nil hne
      rw [run_unquoted_item (fun e he => (hchars e he).1)
        (isArraySpace_of_isWhitespace (hchars d List.mem_cons_self).2) hc,
        unquotedItem_text hquotes]

lemma run_null {c : Char} (hc : IsSeparator c) (rest : List Char) :
    ("NULL".toList ++ c :: rest).foldlM ArrayState.next ⟨.item first, acc :: outer⟩
      = (c :: rest).foldlM ArrayState.next ⟨.closed, (acc ++ [.null]) :: outer⟩ := by
  have hplain : ("NULL".toList.all fun e => decide (e ∉ ['{', '}', ',', '"', '\\'])) = true := by
    decide
  exact run_unquoted_item (fun e he => of_decide_eq_true (List.all_eq_true.mp hplain e he))
    (by decide) hc rest

end Elements

/-- The text of a value that is no list is that of its leaf. -/
lemma leaf_of_itemText {v : PyValue} {text : List Char} (hnone : v ≠ .none)
    (hleaf : ∀ items, v ≠ .sequence items) (h : itemText v = .ok text) :
    ∃ rendered, v.tree = .leaf rendered ∧ text = arrayItem rendered := by
  have hvalue : ∃ rendered, pyToCopyText v = .ok (some rendered) ∧ text = arrayItem rendered := by
    cases v with
    | none => exact absurd rfl hnone
    | sequence items => exact absurd rfl (hleaf items)
    | bool b => exact ⟨_, rfl, (Except.ok.inj h).symm⟩
    | bytes raw => exact ⟨_, rfl, (Except.ok.inj h).symm⟩
    | int n => exact ⟨_, rfl, (Except.ok.inj h).symm⟩
    | str cs => exact ⟨_, rfl, (Except.ok.inj h).symm⟩
    | json t | float t | dict t | other t =>
        cases t with
        | error e => cases h
        | ok rendered => exact ⟨rendered, rfl, (Except.ok.inj h).symm⟩
  obtain ⟨rendered, hrendered, htext⟩ := hvalue
  refine ⟨rendered, ?_, htext⟩
  rw [PyValue.tree]
  · rw [hrendered]
  · exact fun items heq => hleaf items heq

lemma arrayItems_cons_ok {item : PyValue} {items : List PyValue} {texts : List (List Char)}
    (h : arrayItems (item :: items) = .ok texts) :
    ∃ text more, itemText item = .ok text ∧ arrayItems items = .ok more ∧ texts = text :: more := by
  rw [arrayItems_cons] at h
  cases hitem : itemText item with
  | error e => rw [hitem] at h; cases h
  | ok text =>
      cases hitems : arrayItems items with
      | error e => rw [hitem, hitems] at h; cases h
      | ok more =>
          rw [hitem, hitems] at h
          exact ⟨text, more, rfl, rfl, (Except.ok.inj h).symm⟩

mutual
/-- **A value is read as what it is**, up to the separator behind it. -/
lemma run_item : ∀ {v : PyValue} {text : List Char}, itemText v = .ok text →
    ∀ {c : Char}, IsSeparator c → ∀ (rest : List Char) (first : Bool) (acc : List ArrayTree)
      (outer : List (List ArrayTree)),
    (text ++ c :: rest).foldlM ArrayState.next ⟨.item first, acc :: outer⟩
      = (c :: rest).foldlM ArrayState.next ⟨.closed, (acc ++ [v.tree]) :: outer⟩
  | .none, text, h, c, hc, rest, first, acc, outer => by
    obtain rfl := Except.ok.inj h
    exact run_null hc rest
  | .sequence items, text, h, c, hc, rest, first, acc, outer => by
    rw [itemText] at h
    cases htexts : arrayItems items with
    | error e => rw [htexts] at h; cases h
    | ok texts =>
        rw [htexts] at h
        obtain rfl := Except.ok.inj h
        rw [inBraces, List.cons_append, List.cons_append, List.append_assoc, List.foldlM_cons]
        show ([','].intercalate texts ++ '}' :: (c :: rest)).foldlM ArrayState.next
          ⟨.item true, [] :: acc :: outer⟩ = _
        rw [run_items htexts (c :: rest) (fun _ => rfl) [] (acc :: outer), PyValue.tree, List.nil_append]
        rfl
  | .bool b, text, h, c, hc, rest, first, acc, outer => by
    obtain ⟨rendered, htree, rfl⟩ := leaf_of_itemText (by simp) (by simp) h
    rw [run_arrayItem rendered hc rest, htree]
  | .bytes raw, text, h, c, hc, rest, first, acc, outer => by
    obtain ⟨rendered, htree, rfl⟩ := leaf_of_itemText (by simp) (by simp) h
    rw [run_arrayItem rendered hc rest, htree]
  | .int n, text, h, c, hc, rest, first, acc, outer => by
    obtain ⟨rendered, htree, rfl⟩ := leaf_of_itemText (by simp) (by simp) h
    rw [run_arrayItem rendered hc rest, htree]
  | .str cs, text, h, c, hc, rest, first, acc, outer => by
    obtain ⟨rendered, htree, rfl⟩ := leaf_of_itemText (by simp) (by simp) h
    rw [run_arrayItem rendered hc rest, htree]
  | .json t, text, h, c, hc, rest, first, acc, outer => by
    obtain ⟨rendered, htree, rfl⟩ := leaf_of_itemText (by simp) (by simp) h
    rw [run_arrayItem rendered hc rest, htree]
  | .float t, text, h, c, hc, rest, first, acc, outer => by
    obtain ⟨rendered, htree, rfl⟩ := leaf_of_itemText (by simp) (by simp) h
    rw [run_arrayItem rendered hc rest, htree]
  | .dict t, text, h, c, hc, rest, first, acc, outer => by
    obtain ⟨rendered, htree, rfl⟩ := leaf_of_itemText (by simp) (by simp) h
    rw [run_arrayItem rendered hc rest, htree]
  | .other t, text, h, c, hc, rest, first, acc, outer => by
    obtain ⟨rendered, htree, rfl⟩ := leaf_of_itemText (by simp) (by simp) h
    rw [run_arrayItem rendered hc rest, htree]

/-- **A list of values is read element by element**, up to the brace behind it. -/
lemma run_items : ∀ {items : List PyValue} {texts : List (List Char)},
    arrayItems items = .ok texts → ∀ (rest : List Char) {first : Bool}, (items = [] → first = true) →
      ∀ (acc : List ArrayTree) (outer : List (List ArrayTree)),
    ([','].intercalate texts ++ '}' :: rest).foldlM ArrayState.next ⟨.item first, acc :: outer⟩
      = ('}' :: rest).foldlM ArrayState.next ⟨.closed, (acc ++ treesOf items) :: outer⟩
  | [], texts, h, rest, first, hfirst, acc, outer => by
    obtain rfl := Except.ok.inj h
    obtain rfl := hfirst rfl
    rw [List.intercalate_nil, List.nil_append, treesOf, List.append_nil, List.foldlM_cons,
      List.foldlM_cons]
    rfl
  | item :: items, texts, h, rest, first, _, acc, outer => by
    obtain ⟨text, more, hitem, hmore, rfl⟩ := arrayItems_cons_ok h
    cases items with
    | nil =>
        obtain rfl := Except.ok.inj hmore
        rw [List.intercalate_singleton, run_item hitem (.inr rfl) rest first acc outer]
        rfl
    | cons next items =>
        have hne : more ≠ [] := by
          obtain ⟨_, _, -, -, rfl⟩ := arrayItems_cons_ok hmore
          exact List.cons_ne_nil _ _
        obtain ⟨t, ts, rfl⟩ := List.exists_cons_of_ne_nil hne
        rw [List.intercalate_cons_cons, List.append_assoc, List.append_assoc, List.singleton_append,
          run_item hitem (.inl rfl) _ first acc outer, List.foldlM_cons]
        show ([','].intercalate (t :: ts) ++ '}' :: rest).foldlM ArrayState.next
          ⟨.item false, (acc ++ [item.tree]) :: outer⟩ = _
        rw [run_items hmore rest (by simp) (acc ++ [item.tree]) outer, List.append_assoc]
        rfl
end

/-! ## Text forms -/

mutual
/-- **The tree of the texts that are sent is what a plain value is to be read as.** -/
lemma isTree_tree : ∀ {v : PyValue}, v.isPlain = true → v.IsTree v.tree
  | .none, _ => rfl
  | .sequence items, h => ⟨treesOf items, rfl, areTrees_treesOf h⟩
  | .bool _, _ => ⟨_, rfl, rfl⟩
  | .bytes raw, _ => ⟨_, rfl, hexPairs_hexText _ raw⟩
  | .int n, _ => ⟨_, rfl, intDigits_eq_toString n⟩
  | .str _, _ => ⟨_, rfl, rfl⟩

lemma areTrees_treesOf : ∀ {items : List PyValue}, allPlain items = true →
    AreTrees items (treesOf items)
  | [], _ => rfl
  | item :: rest, h => by
    rw [allPlain, Bool.and_eq_true] at h
    exact ⟨item.tree, treesOf rest, rfl, isTree_tree h.1, areTrees_treesOf h.2⟩
end

/-! ## Rows -/

/-- The braces of a list's text enclose its items. -/
lemma run_inBraces {items : List PyValue} {texts : List (List Char)}
    (h : arrayItems items = .ok texts) :
    (inBraces texts).foldlM ArrayState.next ⟨.start, []⟩
      = some ⟨.finished (PyValue.sequence items).tree, []⟩ := by
  rw [inBraces, List.cons_append, List.foldlM_cons]
  show ([','].intercalate texts ++ '}' :: []).foldlM ArrayState.next ⟨.item true, [[]]⟩ = _
  rw [run_items h [] (fun _ => rfl) [] [], PyValue.tree, List.nil_append]
  rfl

/-- What is sent of a plain value is its column. -/
lemma isColumn_of_pyToCopyText {v : PyValue} {column : Option (List Char)} (hplain : v.isPlain = true)
    (h : pyToCopyText v = .ok column) : v.IsColumn column := by
  cases v with
  | none => exact (Except.ok.inj h).symm
  | sequence items =>
      obtain ⟨texts, htexts⟩ := exists_arrayItems hplain
      rw [pyToCopyText, htexts] at h
      obtain rfl := Except.ok.inj h
      refine ⟨inBraces texts, (PyValue.sequence items).tree, rfl, ?_, isTree_tree hplain⟩
      rw [readNesting, run_inBraces htexts]
  | bool b => exact ⟨_, (Except.ok.inj h).symm, rfl⟩
  | bytes raw => exact ⟨_, (Except.ok.inj h).symm, hexPairs_hexText _ raw⟩
  | int n => exact ⟨_, (Except.ok.inj h).symm, intDigits_eq_toString n⟩
  | str cs => exact ⟨_, (Except.ok.inj h).symm, rfl⟩
  | json _ | float _ | dict _ | other _ => exact absurd hplain (by simp [PyValue.isPlain])

/-- **COPY text rows decode back**: the line of a row of plain values is read as exactly one row with
exactly its columns in their order, each NULL where there is no value and else the value's own text
form, whatever stands behind the line. -/
theorem copyLine_reads (values : List PyValue) (hne : values ≠ [])
    (hplain : ∀ v ∈ values, v.isPlain = true) :
    ∃ line columns, copyLine values = .ok line ∧ List.Forall₂ PyValue.IsColumn values columns ∧
      readCopy line = some [columns] ∧
      ∀ stream, readCopy (line ++ stream) = (readCopy stream).map (columns :: ·) := by
  obtain ⟨columns, hcolumns, hall⟩ := exists_mapM hplain
  have hne' : columns ≠ [] := by
    rw [← List.length_pos_iff, ← hall.length_eq, List.length_pos_iff]
    exact hne
  have hline : copyLine values = .ok (lineOf columns) := by
    rw [copyLine, hcolumns]
    rfl
  have hread := readCopy_lineOf hne' []
  rw [List.append_nil] at hread
  refine ⟨lineOf columns, columns, hline, ?_, hread, readCopy_lineOf hne'⟩
  exact ((List.forall₂_and_left values columns).mpr ⟨hplain, hall⟩).imp
    fun v column h => isColumn_of_pyToCopyText h.1 h.2

/-- The marker of NULL as a string, NULL, the marker of the end, a boolean, an integer, a backslash as
bytes, and a list with both separators. -/
def rowOfMarkers : List PyValue :=
  [.str "\\N".toList, .none, .str "\\.".toList, .bool true, .int (-7), .bytes [0x5c],
    .sequence [.str "a\tb".toList, .none]]

/-- They are the columns that the server reads. -/
theorem copyLine_reads_markers :
    (copyLine rowOfMarkers = .ok
        "\\\\N\t\\N\t\\\\.\tt\t-7\t\\\\x5c\t\x7b\"a\\tb\",NULL\x7d\n".toList ∧
      readCopy "\\\\N\t\\N\t\\\\.\tt\t-7\t\\\\x5c\t\x7b\"a\\tb\",NULL\x7d\n".toList =
        some [[some "\\N".toList, none, some "\\.".toList, some "t".toList, some "-7".toList,
          some "\\x5c".toList, some "\x7b\"a\tb\",NULL\x7d".toList]]) ∧
    ∃ line columns, copyLine rowOfMarkers = .ok line ∧
      List.Forall₂ PyValue.IsColumn rowOfMarkers columns ∧ readCopy line = some [columns] ∧
      ∀ stream, readCopy (line ++ stream) = (readCopy stream).map (columns :: ·) :=
  ⟨⟨by decide +kernel, by decide +kernel⟩,
    copyLine_reads rowOfMarkers (by simp [rowOfMarkers])
      (by simp [rowOfMarkers, PyValue.isPlain, allPlain])⟩

/-! ## Rectangular lists -/

/-- A leaf of an array: no value, a boolean, an integer, bytes or a string. -/
def PyValue.isLeaf : PyValue → Bool
  | .none | .bool _ | .bytes _ | .int _ | .str _ => true
  | _ => false

/-- **A rectangular list**: it has its dimensions, none of them empty, at each depth. -/
def Rectangular : List ℕ → List PyValue → Prop
  | [], _ => False
  | [n], items => items.length = n ∧ 0 < n ∧ ∀ v ∈ items, v.isLeaf = true
  | n :: dims, items => items.length = n ∧ 0 < n ∧
    ∀ v ∈ items, ∃ parts, v = .sequence parts ∧ Rectangular dims parts

lemma length_treesOf (items : List PyValue) : (treesOf items).length = items.length := by
  induction items with
  | nil => rfl
  | cons item items ih => rw [treesOf, List.length_cons, List.length_cons, ih]

lemma shape_leaf {v : PyValue} (h : v.isLeaf = true) : v.tree.shape = some [] := by
  cases v with
  | none | bool _ | bytes _ | int _ | str _ => rfl
  | sequence _ | json _ | float _ | dict _ | other _ => exact absurd h (by simp [PyValue.isLeaf])

lemma isPlain_of_isLeaf {v : PyValue} (h : v.isLeaf = true) : v.isPlain = true := by
  cases v with
  | none | bool _ | bytes _ | int _ | str _ => rfl
  | sequence _ | json _ | float _ | dict _ | other _ => exact absurd h (by simp [PyValue.isLeaf])

/-- Elements of one shape have it in common. -/
lemma shapes_of_forall {dims : List ℕ} : ∀ {items : List PyValue}, items ≠ [] →
    (∀ v ∈ items, v.tree.shape = some dims) → shapes (treesOf items) = some dims
  | [], hne, _ => absurd rfl hne
  | [v], _, h => h v List.mem_cons_self
  | v :: w :: items, _, h => by
    rw [List.forall_mem_cons] at h
    have hrest := shapes_of_forall (List.cons_ne_nil w items) h.2
    rw [treesOf] at hrest ⊢
    rw [treesOf, shapes, h.1, hrest]
    · show (if dims = dims then some dims else none) = some dims
      rw [if_pos rfl]
    · exact List.cons_ne_nil _ _

lemma allPlain_of_forall {items : List PyValue} (h : ∀ v ∈ items, v.isPlain = true) :
    allPlain items = true := by
  induction items with
  | nil => rfl
  | cons v items ih =>
      rw [List.forall_mem_cons] at h
      rw [allPlain, h.1, ih h.2]
      rfl

/-- A rectangular list is one of plain values, and has its dimensions. -/
lemma shape_of_rectangular : ∀ {dims : List ℕ} {items : List PyValue}, Rectangular dims items →
    allPlain items = true ∧ (PyValue.sequence items).tree.shape = some dims
  | [], _, h => h.elim
  | [n], items, h => by
    obtain ⟨hlength, hpos, hleaf⟩ := h
    have hne : items ≠ [] := List.ne_nil_of_length_pos (by omega)
    refine ⟨allPlain_of_forall fun v hv => isPlain_of_isLeaf (hleaf v hv), ?_⟩
    rw [PyValue.tree, ArrayTree.shape,
      shapes_of_forall hne fun v hv => shape_leaf (hleaf v hv), length_treesOf, hlength]
    rfl
  | n :: m :: dims, items, h => by
    obtain ⟨hlength, hpos, hparts⟩ := h
    have hne : items ≠ [] := List.ne_nil_of_length_pos (by omega)
    have hpart : ∀ v ∈ items, v.isPlain = true ∧ v.tree.shape = some (m :: dims) := by
      intro v hv
      obtain ⟨parts, rfl, hrect⟩ := hparts v hv
      exact shape_of_rectangular hrect
    refine ⟨allPlain_of_forall fun v hv => (hpart v hv).1, ?_⟩
    rw [PyValue.tree, ArrayTree.shape, shapes_of_forall hne fun v hv => (hpart v hv).2,
      length_treesOf, hlength]
    rfl

/-- **Array literals decode back**: the text of a rectangular list is read as the same nesting, with
NULL exactly where there is no value and the text form of each leaf, the empty string and the string
`NULL` included. -/
theorem readArray_reads {dims : List ℕ} {items : List PyValue} (h : Rectangular dims items) :
    ∃ text tree, pySeqToArrayLiteral items = .ok text ∧ readArray text = some tree ∧
      (PyValue.sequence items).IsTree tree := by
  obtain ⟨hplain, hshape⟩ := shape_of_rectangular h
  obtain ⟨texts, htexts⟩ := exists_arrayItems hplain
  refine ⟨inBraces texts, (PyValue.sequence items).tree, by rw [pySeqToArrayLiteral, htexts]; rfl, ?_,
    isTree_tree hplain⟩
  rw [readArray, run_inBraces htexts, PyValue.tree] at *
  cases items with
  | nil => exact absurd hshape (by simp [treesOf, ArrayTree.shape, shapes])
  | cons item items => rw [treesOf] at *; simp [hshape]

/-- NULL, its name and a boolean, the empty string, a comma and a backslash as bytes. -/
def squareOfTexts : List PyValue :=
  [.sequence [.none, .str "NULL".toList, .bool false],
    .sequence [.str [], .str "a,b".toList, .bytes [0x5c]]]

/-- They are all told apart. -/
theorem readArray_reads_square :
    pySeqToArrayLiteral squareOfTexts =
      .ok "\x7b\x7bNULL,\"NULL\",f\x7d,\x7b\"\",\"a,b\",\"\\\\x5c\"\x7d\x7d".toList ∧
    ∃ text tree, pySeqToArrayLiteral squareOfTexts = .ok text ∧ readArray text = some tree ∧
      (PyValue.sequence squareOfTexts).IsTree tree := by
  refine ⟨by decide +kernel, @readArray_reads [2, 3] _ ⟨rfl, by decide, ?_⟩⟩
  intro v hv
  rcases List.mem_pair.mp hv with rfl | rfl
  · exact ⟨_, rfl, rfl, by decide, by simp [PyValue.isLeaf]⟩
  · exact ⟨_, rfl, rfl, by decide, by simp [PyValue.isLeaf]⟩

end OdooKernel
