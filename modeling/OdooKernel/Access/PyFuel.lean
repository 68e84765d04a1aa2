import OdooKernel.Access.PyExpr

/-!
# Reading an expression ends

The parts of the reader call one another, and none of them calls itself on the text it was given:
every part takes something off the text before the same part is read again.  So the fuel that
`parsePy` starts with, some calls for each character, is never used up.

**Consuming.**  What a part leaves is shorter than what it was given (`Consumes`), by induction on
the fuel, over all parts together (`reads_consume`).

**Settling.**  From a fuel that outlasts the text on, the result is the same for any larger one, and
is no lack of fuel (`Fuelled`).  A character that is taken is worth four calls (`ReadsSettle`).

* `parseNames_succ`, `parseItems_succ` — one turn of the two parts that are loops.
* `reads_settle` — every part of the reader is settled when its fuel outlasts the text.
-/

namespace OdooKernel

variable {α β : Type}

/-! ## What the reader takes off the text -/

/-- A text that is left is shorter than a length. -/
def Consumes (n : ℕ) (r : Result (α × List Char)) : Prop :=
  ∀ a rest, r = .ok (a, rest) → rest.length < n

lemma Consumes.ok {n : ℕ} {a : α} {rest : List Char} (h : rest.length < n) :
    Consumes n (.ok (a, rest) : Result (α × List Char)) := by
  intro a' rest' heq
  obtain ⟨_, rfl⟩ := Prod.mk.inj (Except.ok.inj heq)
  exact h

lemma Consumes.refuse (n : ℕ) (reason : String) :
    Consumes n (refuse reason : Result (α × List Char)) :=
  fun _ _ h => absurd h (by simp)

lemma Consumes.error (n : ℕ) (e : KernelError) :
    Consumes n (.error e : Result (α × List Char)) :=
  fun _ _ h => absurd h (by simp)

/-- What is read after something that consumes. -/
lemma Consumes.bind {n : ℕ} {x : Result (α × List Char)}
    {f : α × List Char → Result (β × List Char)} (hx : Consumes n x)
    (hf : ∀ a rest, rest.length < n → Consumes n (f (a, rest))) : Consumes n (x >>= f) := by
  intro b rest h
  obtain ⟨⟨a, rest'⟩, ha, hb⟩ := bind_eq_ok.mp h
  exact hf a rest' (hx a rest' ha) b rest hb

lemma Consumes.mono {m n : ℕ} {x : Result (α × List Char)} (h : Consumes m x) (hmn : m ≤ n) :
    Consumes n x := fun a rest hx => Nat.lt_of_lt_of_le (h a rest hx) hmn

lemma length_skipWs (inComment : Bool) (cs : List Char) :
    (skipWs inComment cs).length ≤ cs.length := by
  induction cs generalizing inComment with
  | nil => exact Nat.le_refl _
  | cons c cs ih =>
      rw [skipWs, List.length_cons]
      split
      · exact Nat.le_succ_of_le (ih _)
      · split
        · exact Nat.le_succ_of_le (ih _)
        · split
          · exact Nat.le_succ_of_le (ih _)
          · exact Nat.le_refl _

lemma parseString_consumes (quote : Char) (escaped : Bool) (acc cs : List Char) :
    Consumes (cs.length + 1) (parseString quote escaped acc cs) := by
  induction cs generalizing escaped acc with
  | nil => exact Consumes.refuse _ _
  | cons x cs ih =>
      have hnext : ∀ escaped acc,
          Consumes ((x :: cs).length + 1) (parseString quote escaped acc cs) :=
        fun escaped acc => (ih escaped acc).mono (by simp)
      unfold parseString
      split
      · split
        · exact hnext _ _
        · exact hnext _ _
        · exact hnext _ _
        · exact hnext _ _
        · exact hnext _ _
        · exact hnext _ _
        · exact Consumes.refuse _ _
      · split
        · exact hnext _ _
        · split
          · exact Consumes.ok (by simp only [List.length_cons]; omega)
          · exact hnext _ _

lemma numberText_append (point : Bool) (cs : List Char) :
    (numberText point cs).1 ++ (numberText point cs).2 = cs := by
  induction cs generalizing point with
  | nil => rfl
  | cons x cs ih =>
      rw [numberText]
      split
      · exact congrArg (x :: ·) (ih point)
      · split
        · exact congrArg (x :: ·) (ih true)
        · rfl

lemma identifier_append (cls : CharClass) (cs : List Char) :
    (identifier cls cs).1 ++ (identifier cls cs).2 = cs := by
  induction cs with
  | nil => rfl
  | cons x cs ih =>
      rw [identifier]
      split
      · exact congrArg (x :: ·) ih
      · rfl

/-- A number takes its sign or a digit. -/
lemma parseNumber_consumes (cls : CharClass) (cs : List Char) :
    Consumes cs.length (parseNumber cls cs) := by
  intro e rest h
  unfold parseNumber at h
  simp only at h
  generalize hinput : (if cs.head? = some '-' then cs.drop 1 else cs) = input at h
  have hsplit := congrArg List.length (numberText_append false input)
  rw [List.length_append] at hsplit
  have hrest : rest = (numberText false input).2 ∧ (numberText false input).1 ≠ [] := by
    split at h
    · next hpoint =>
        simp only [bind_eq_ok, pure_eq_ok, Prod.mk.injEq] at h
        obtain ⟨_, _, _, hrest⟩ := h
        exact ⟨hrest.symm, List.ne_nil_of_mem hpoint⟩
    · simp only [bind_eq_ok, pure_eq_ok, Prod.mk.injEq] at h
      obtain ⟨e', he', _, hrest⟩ := h
      refine ⟨hrest.symm, fun hnil => ?_⟩
      rw [hnil] at he'
      exact absurd he' (by simp [parseI64])
  have htaken := List.length_pos_iff.mpr hrest.2
  have hle : input.length ≤ cs.length := by
    rw [← hinput]
    split
    · simp
    · exact Nat.le_refl _
  rw [hrest.1]
  omega

/-! ## The parts of the reader -/

/-- A name and what is behind it. -/
lemma length_identifier {cls : CharClass} {cs : List Char} (h : (identifier cls cs).1 ≠ []) :
    (identifier cls cs).2.length < cs.length := by
  have hsplit := congrArg List.length (identifier_append cls cs)
  rw [List.length_append] at hsplit
  have htaken := List.length_pos_iff.mpr h
  omega

/-- The end of a `ref()`. -/
def closeRef (inner : PyExpr) (cs : List Char) : Result (PyExpr × List Char) :=
  let cs := skipWs false cs
  if cs.head? = some ')' then
    match inner with
    | .Str xmlid => return (.Ref xmlid, cs.drop 1)
    | _ => refuse "ref() takes a literal xml id"
  else refuse "ref() takes one xml id"

/-- The end of a `mapped()`. -/
def closeMapped (names : List String) (inner : PyExpr) (cs : List Char) :
    Result (List String × List Char) :=
  let cs := skipWs false cs
  if cs.head? = some ')' then
    match inner with
    | .Str field => pure (names ++ (field.splitOn ".").map ("*" ++ ·), cs.drop 1)
    | _ => refuse "mapped() takes a field name"
  else refuse "expected ')' closing mapped("

/-- What a segment of a chain is followed by. -/
def nextSegment (cls : CharClass) (fuel : ℕ) (names : List String) (cs : List Char) :
    Result (PyExpr × List Char) :=
  if cs.head? = some '.' then parseNames cls fuel names (cs.drop 1)
  else do return (← nameOrLiteral names, cs)

/-- A chain, a segment at a time. -/
lemma parseNames_succ (cls : CharClass) (fuel : ℕ) (names : List String) (cs : List Char) :
    parseNames cls (fuel + 1) names cs =
      if (identifier cls cs).1 = [] then refuse "expected identifier"
      else if String.ofList (identifier cls cs).1 = "ref" ∧ names = [] ∧
          (identifier cls cs).2.head? = some '(' then
        parseExpr cls fuel ((identifier cls cs).2.drop 1) >>= fun r => closeRef r.1 r.2
      else if String.ofList (identifier cls cs).1 = "mapped" ∧
          (identifier cls cs).2.head? = some '(' then
        parseExpr cls fuel ((identifier cls cs).2.drop 1) >>= fun r =>
          closeMapped names r.1 r.2 >>= fun r => nextSegment cls fuel r.1 r.2
      else nextSegment cls fuel (names ++ [String.ofList (identifier cls cs).1])
        (identifier cls cs).2 := by
  rw [parseNames]
  cases hsegment : identifier cls cs with
  | mk segment rest =>
      simp only
      split
      · rfl
      · split
        · rfl
        · split
          · refine congrArg _ (funext fun r => ?_)
            obtain ⟨inner, rest'⟩ := r
            by_cases hclose : (skipWs false rest').head? = some ')'
            · simp only [closeMapped, hclose, if_true]
              cases inner <;> rfl
            · simp only [closeMapped, hclose, if_false]
              rfl
          · rfl

/-- What an item of a sequence is followed by. -/
def nextItem (cls : CharClass) (fuel : ℕ) (close : Char) (items : List PyExpr) (item : PyExpr)
    (cs : List Char) : Result (PyExpr × List Char) :=
  let cs := skipWs false cs
  match cs.head?, items with
  | some ',', _ => parseItems cls fuel close (items ++ [item]) (cs.drop 1)
  | some ')', [] =>
    if close = ')' then return (item, cs.drop 1)
    else refuse "expected ',' or a closing bracket"
  | some x, _ =>
    if x = close then parseItems cls fuel close (items ++ [item]) cs
    else refuse "expected ',' or a closing bracket"
  | none, _ => refuse "expected ',' or a closing bracket"

/-- A sequence, an item at a time. -/
lemma parseItems_succ (cls : CharClass) (fuel : ℕ) (close : Char) (items : List PyExpr)
    (cs : List Char) :
    parseItems cls (fuel + 1) close items cs =
      if (skipWs false cs).head? = some close then
        return (.Seq items, (skipWs false cs).drop 1)
      else parseExpr cls fuel (skipWs false cs) >>= fun r =>
        nextItem cls fuel close items r.1 r.2 := by
  rw [parseItems]
  rfl

/-! ## Every part consumes -/

/-- Every part of the reader consumes, with a fuel. -/
structure ReadsConsume (cls : CharClass) (fuel : ℕ) : Prop where
  expr : ∀ cs, Consumes cs.length (parseExpr cls fuel cs)
  sum : ∀ left cs, Consumes (cs.length + 1) (parseSum cls fuel left cs)
  atom : ∀ cs, Consumes cs.length (parseAtom cls fuel cs)
  items : ∀ close items cs, Consumes cs.length (parseItems cls fuel close items cs)
  names : ∀ names cs, Consumes cs.length (parseNames cls fuel names cs)

section Parts

variable {cls : CharClass} {fuel : ℕ}

lemma parseExpr_consumes (h : ReadsConsume cls fuel) (cs : List Char) :
    Consumes cs.length (parseExpr cls (fuel + 1) cs) := by
  rw [parseExpr]
  refine (h.atom cs).bind fun left rest hrest => ?_
  exact (h.sum left rest).mono hrest

lemma parseSum_consumes (h : ReadsConsume cls fuel) (left : PyExpr) (cs : List Char) :
    Consumes (cs.length + 1) (parseSum cls (fuel + 1) left cs) := by
  have hskip := length_skipWs false cs
  rw [parseSum]
  split
  · next rest heq =>
      rw [heq, List.length_cons] at hskip
      refine ((h.atom rest).mono (by omega : rest.length ≤ cs.length + 1)).bind
        fun right rest' hrest => ?_
      exact (h.sum _ rest').mono hrest
  · exact Consumes.ok (by omega)

lemma parseAtom_consumes (h : ReadsConsume cls fuel) (cs : List Char) :
    Consumes cs.length (parseAtom cls (fuel + 1) cs) := by
  have hskip := length_skipWs false cs
  rw [parseAtom]
  split
  · exact Consumes.refuse _ _
  · next ch rest heq =>
      rw [heq, List.length_cons] at hskip
      split
      · exact (h.items _ _ rest).mono (by omega)
      · split
        · exact (h.items _ _ rest).mono (by omega)
        · split
          · refine ((parseString_consumes ch false [] rest).mono hskip).bind
              fun s rest' hrest => ?_
            exact Consumes.ok hrest
          · split
            · exact (parseNumber_consumes cls (ch :: rest)).mono hskip
            · split
              · exact (h.names [] (ch :: rest)).mono hskip
              · exact Consumes.refuse _ _

lemma nextItem_consumes (h : ReadsConsume cls fuel) (close : Char) (items : List PyExpr)
    (item : PyExpr) (cs : List Char) :
    Consumes (cs.length + 1) (nextItem cls fuel close items item cs) := by
  have hskip := length_skipWs false cs
  have hdrop : ((skipWs false cs).drop 1).length ≤ cs.length := by
    rw [List.length_drop]
    omega
  unfold nextItem
  simp only
  split
  · exact (h.items _ _ _).mono (by omega)
  · split
    · exact Consumes.ok (by omega)
    · exact Consumes.refuse _ _
  · split
    · exact (h.items _ _ _).mono (by omega)
    · exact Consumes.refuse _ _
  · exact Consumes.refuse _ _

lemma parseItems_consumes (h : ReadsConsume cls fuel) (close : Char) (items : List PyExpr)
    (cs : List Char) : Consumes cs.length (parseItems cls (fuel + 1) close items cs) := by
  have hskip := length_skipWs false cs
  rw [parseItems_succ]
  split
  · next hclose =>
      obtain ⟨rest, hrest⟩ := List.head?_eq_some_iff.mp hclose
      rw [hrest, List.length_cons] at hskip
      rw [hrest]
      exact Consumes.ok hskip
  · refine ((h.expr _).mono hskip).bind fun item rest hrest => ?_
    exact (nextItem_consumes h close items item rest).mono hrest

lemma nextSegment_consumes (h : ReadsConsume cls fuel) (names : List String) (cs : List Char) :
    Consumes (cs.length + 1) (nextSegment cls fuel names cs) := by
  unfold nextSegment
  split
  · refine (h.names _ _).mono ?_
    rw [List.length_drop]
    omega
  · intro e rest heq
    simp only [bind_eq_ok, pure_eq_ok, Prod.mk.injEq] at heq
    obtain ⟨_, _, _, rfl⟩ := heq
    omega

lemma closeRef_consumes (inner : PyExpr) (cs : List Char) :
    Consumes (cs.length + 1) (closeRef inner cs) := by
  have hskip := length_skipWs false cs
  unfold closeRef
  simp only
  split
  · split
    · refine Consumes.ok ?_
      rw [List.length_drop]
      omega
    · exact Consumes.refuse _ _
  · exact Consumes.refuse _ _

lemma closeMapped_consumes (names : List String) (inner : PyExpr) (cs : List Char) :
    Consumes (cs.length + 1) (closeMapped names inner cs) := by
  have hskip := length_skipWs false cs
  unfold closeMapped
  simp only
  split
  · split
    · refine Consumes.ok ?_
      rw [List.length_drop]
      omega
    · exact Consumes.refuse _ _
  · exact Consumes.refuse _ _

lemma parseNames_consumes (h : ReadsConsume cls fuel) (names : List String) (cs : List Char) :
    Consumes cs.length (parseNames cls (fuel + 1) names cs) := by
  rw [parseNames_succ]
  split
  · exact Consumes.refuse _ _
  · next hsegment =>
      have htaken := length_identifier hsegment
      have hdrop : ((identifier cls cs).2.drop 1).length ≤ cs.length := by
        rw [List.length_drop]
        omega
      split
      · refine ((h.expr _).mono hdrop).bind fun inner rest hrest => ?_
        exact (closeRef_consumes inner rest).mono hrest
      · split
        · refine ((h.expr _).mono hdrop).bind fun inner rest hrest => ?_
          refine ((closeMapped_consumes names inner rest).mono hrest).bind
            fun names' rest' hrest' => ?_
          exact (nextSegment_consumes h names' rest').mono hrest'
        · exact (nextSegment_consumes h _ _).mono htaken

end Parts

/-- **Every part of the reader consumes.** -/
lemma reads_consume (cls : CharClass) : ∀ fuel, ReadsConsume cls fuel
  | 0 =>
    { expr := fun _ => Consumes.error _ _
      sum := fun _ _ => Consumes.error _ _
      atom := fun _ => Consumes.error _ _
      items := fun _ _ _ => Consumes.error _ _
      names := fun _ _ => Consumes.error _ _ }
  | fuel + 1 =>
    have h := reads_consume cls fuel
    { expr := parseExpr_consumes h
      sum := parseSum_consumes h
      atom := parseAtom_consumes h
      items := parseItems_consumes h
      names := parseNames_consumes h }

/-! ## Every part is settled -/

/-- Two results, the second with more fuel, of which neither lacks it. -/
def Fuelled (x y : Result α) : Prop := y = x ∧ x ≠ outOfFuel

lemma Fuelled.same {x : Result α} (h : x ≠ outOfFuel) : Fuelled x x := ⟨rfl, h⟩

lemma Fuelled.ok (a : α) : Fuelled (.ok a : Result α) (.ok a) :=
  Fuelled.same (by simp [outOfFuel])

lemma Fuelled.refuse (reason : String) : Fuelled (refuse reason : Result α) (refuse reason) :=
  Fuelled.same (by simp [OdooKernel.refuse, outOfFuel])

lemma Fuelled.bind {x y : Result α} {f g : α → Result β} (h : Fuelled x y)
    (hfg : ∀ a, x = .ok a → Fuelled (f a) (g a)) : Fuelled (x >>= f) (y >>= g) := by
  obtain ⟨rfl, hx⟩ := h
  cases y with
  | ok a => exact hfg a rfl
  | error e =>
      refine ⟨rfl, fun heq => hx ?_⟩
      exact congrArg Except.error (Except.error.inj heq)

lemma parseString_settled (quote : Char) (escaped : Bool) (acc cs : List Char) :
    parseString quote escaped acc cs ≠ outOfFuel := by
  induction cs generalizing escaped acc with
  | nil =>
      rw [parseString]
      exact (Fuelled.refuse _).2
  | cons x cs ih =>
      unfold parseString
      split
      · split
        · exact ih _ _
        · exact ih _ _
        · exact ih _ _
        · exact ih _ _
        · exact ih _ _
        · exact ih _ _
        · exact (Fuelled.refuse _).2
      · split
        · exact ih _ _
        · split
          · exact (Fuelled.ok _).2
          · exact ih _ _

lemma parseI64_settled (negative : Bool) (digits : List Char) :
    parseI64 negative digits ≠ outOfFuel := by
  unfold parseI64
  generalize (if negative then -(digitsValue digits : ℤ) else digitsValue digits) = n
  simp only
  split
  · simp [outOfFuel]
  · split
    · simp [outOfFuel]
    · simp [outOfFuel]

lemma parseDouble_settled (toDouble : ℚ → Option ℚ) (negative : Bool) (text : List Char) :
    parseDouble toDouble negative text ≠ outOfFuel := by
  unfold parseDouble
  simp only
  split
  · simp [outOfFuel]
  · simp [outOfFuel]

lemma parseNumber_settled (cls : CharClass) (cs : List Char) :
    parseNumber cls cs ≠ outOfFuel := by
  unfold parseNumber
  simp only
  generalize (if cs.head? = some '-' then cs.drop 1 else cs) = input
  split
  · exact ((Fuelled.same (parseDouble_settled _ _ _)).bind fun _ _ => Fuelled.ok _).2
  · exact ((Fuelled.same (parseI64_settled _ _)).bind fun _ _ => Fuelled.ok _).2

lemma nameOrLiteral_settled (names : List String) : nameOrLiteral names ≠ outOfFuel := by
  unfold nameOrLiteral
  split
  · exact (Fuelled.ok _).2
  · exact (Fuelled.ok _).2
  · exact (Fuelled.ok _).2
  · exact (Fuelled.refuse _).2
  · exact (Fuelled.refuse _).2
  · exact (Fuelled.refuse _).2
  · exact (Fuelled.ok _).2

/-- Every part of the reader is settled when its fuel outlasts the text: a character that is taken
is worth four calls. -/
structure ReadsSettle (cls : CharClass) (fuel : ℕ) : Prop where
  expr : ∀ cs, 4 * cs.length + 3 ≤ fuel →
    Fuelled (parseExpr cls fuel cs) (parseExpr cls (fuel + 1) cs)
  sum : ∀ left cs, 4 * cs.length + 1 ≤ fuel →
    Fuelled (parseSum cls fuel left cs) (parseSum cls (fuel + 1) left cs)
  atom : ∀ cs, 4 * cs.length + 2 ≤ fuel →
    Fuelled (parseAtom cls fuel cs) (parseAtom cls (fuel + 1) cs)
  items : ∀ close items cs, 4 * cs.length + 4 ≤ fuel →
    Fuelled (parseItems cls fuel close items cs) (parseItems cls (fuel + 1) close items cs)
  names : ∀ names cs, 4 * cs.length + 1 ≤ fuel →
    Fuelled (parseNames cls fuel names cs) (parseNames cls (fuel + 1) names cs)

section Settles

variable {cls : CharClass} {fuel : ℕ}

lemma parseExpr_settles (h : ReadsSettle cls fuel) (cs : List Char)
    (hfuel : 4 * cs.length + 3 ≤ fuel + 1) :
    Fuelled (parseExpr cls (fuel + 1) cs) (parseExpr cls (fuel + 2) cs) := by
  rw [parseExpr, parseExpr]
  refine (h.atom cs (by omega)).bind fun r hr => ?_
  have hrest := (reads_consume cls fuel).atom cs r.1 r.2 hr
  exact h.sum r.1 r.2 (by omega)

lemma parseSum_settles (h : ReadsSettle cls fuel) (left : PyExpr) (cs : List Char)
    (hfuel : 4 * cs.length + 1 ≤ fuel + 1) :
    Fuelled (parseSum cls (fuel + 1) left cs) (parseSum cls (fuel + 2) left cs) := by
  have hskip := length_skipWs false cs
  rw [parseSum, parseSum]
  split
  · next rest heq =>
      rw [heq, List.length_cons] at hskip
      refine (h.atom rest (by omega)).bind fun r hr => ?_
      have hrest := (reads_consume cls fuel).atom rest r.1 r.2 hr
      exact h.sum _ r.2 (by omega)
  · exact Fuelled.ok _

lemma parseAtom_settles (h : ReadsSettle cls fuel) (cs : List Char)
    (hfuel : 4 * cs.length + 2 ≤ fuel + 1) :
    Fuelled (parseAtom cls (fuel + 1) cs) (parseAtom cls (fuel + 2) cs) := by
  have hskip := length_skipWs false cs
  rw [parseAtom, parseAtom]
  split
  · exact Fuelled.refuse _
  · next ch rest heq =>
      rw [heq, List.length_cons] at hskip
      split
      · exact h.items _ _ rest (by omega)
      · split
        · exact h.items _ _ rest (by omega)
        · split
          · exact (Fuelled.same (parseString_settled _ _ _ _)).bind fun _ _ => Fuelled.ok _
          · split
            · exact Fuelled.same (parseNumber_settled _ _)
            · split
              · exact h.names [] (ch :: rest) (by rw [List.length_cons]; omega)
              · exact Fuelled.refuse _

lemma nextItem_settles (h : ReadsSettle cls fuel) (close : Char) (items : List PyExpr)
    (item : PyExpr) (cs : List Char) (hfuel : 4 * cs.length + 4 ≤ fuel) :
    Fuelled (nextItem cls fuel close items item cs)
      (nextItem cls (fuel + 1) close items item cs) := by
  have hskip := length_skipWs false cs
  have hdrop : ((skipWs false cs).drop 1).length ≤ cs.length := by
    rw [List.length_drop]
    omega
  unfold nextItem
  simp only
  split
  · exact h.items _ _ _ (by omega)
  · split
    · exact Fuelled.ok _
    · exact Fuelled.refuse _
  · split
    · exact h.items _ _ _ (by omega)
    · exact Fuelled.refuse _
  · exact Fuelled.refuse _

lemma parseItems_settles (h : ReadsSettle cls fuel) (close : Char) (items : List PyExpr)
    (cs : List Char) (hfuel : 4 * cs.length + 4 ≤ fuel + 1) :
    Fuelled (parseItems cls (fuel + 1) close items cs)
      (parseItems cls (fuel + 2) close items cs) := by
  have hskip := length_skipWs false cs
  rw [parseItems_succ, parseItems_succ]
  split
  · exact Fuelled.ok _
  · refine (h.expr _ (by omega)).bind fun r hr => ?_
    have hrest := (reads_consume cls fuel).expr _ r.1 r.2 hr
    exact nextItem_settles h close items r.1 r.2 (by omega)

lemma nextSegment_settles (h : ReadsSettle cls fuel) (names : List String) (cs : List Char)
    (hfuel : 4 * cs.length ≤ fuel + 2) :
    Fuelled (nextSegment cls fuel names cs) (nextSegment cls (fuel + 1) names cs) := by
  unfold nextSegment
  split
  · next hpoint =>
      obtain ⟨rest, rfl⟩ := List.head?_eq_some_iff.mp hpoint
      rw [List.length_cons] at hfuel
      exact h.names _ rest (by omega)
  · exact (Fuelled.same (nameOrLiteral_settled names)).bind fun _ _ => Fuelled.ok _

lemma closeRef_settled (inner : PyExpr) (cs : List Char) : closeRef inner cs ≠ outOfFuel := by
  unfold closeRef
  simp only
  split
  · split
    · exact (Fuelled.ok _).2
    · exact (Fuelled.refuse _).2
  · exact (Fuelled.refuse _).2

lemma closeMapped_settled (names : List String) (inner : PyExpr) (cs : List Char) :
    closeMapped names inner cs ≠ outOfFuel := by
  unfold closeMapped
  simp only
  split
  · split
    · exact (Fuelled.ok _).2
    · exact (Fuelled.refuse _).2
  · exact (Fuelled.refuse _).2

lemma parseNames_settles (h : ReadsSettle cls fuel) (names : List String) (cs : List Char)
    (hfuel : 4 * cs.length + 1 ≤ fuel + 1) :
    Fuelled (parseNames cls (fuel + 1) names cs) (parseNames cls (fuel + 2) names cs) := by
  rw [parseNames_succ, parseNames_succ]
  split
  · exact Fuelled.refuse _
  · next hsegment =>
      have htaken := length_identifier hsegment
      have hdrop : ((identifier cls cs).2.drop 1).length ≤ (identifier cls cs).2.length := by
        rw [List.length_drop]
        omega
      split
      · refine (h.expr _ (by omega)).bind fun r _ => ?_
        exact Fuelled.same (closeRef_settled r.1 r.2)
      · split
        · refine (h.expr _ (by omega)).bind fun r hr => ?_
          have hrest := (reads_consume cls fuel).expr _ r.1 r.2 hr
          refine (Fuelled.same (closeMapped_settled names r.1 r.2)).bind fun r' hr' => ?_
          have hrest' := closeMapped_consumes names r.1 r.2 r'.1 r'.2 hr'
          exact nextSegment_settles h r'.1 r'.2 (by omega)
        · exact nextSegment_settles h _ _ (by omega)

end Settles

/-- **Every part of the reader is settled.** -/
lemma reads_settle (cls : CharClass) : ∀ fuel, ReadsSettle cls fuel
  | 0 =>
    { expr := fun _ h => absurd h (by omega)
      sum := fun _ _ h => absurd h (by omega)
      atom := fun _ h => absurd h (by omega)
      items := fun _ _ _ h => absurd h (by omega)
      names := fun _ _ h => absurd h (by omega) }
  | fuel + 1 =>
    have h := reads_settle cls fuel
    { expr := parseExpr_settles h
      sum := parseSum_settles h
      atom := parseAtom_settles h
      items := parseItems_settles h
      names := parseNames_settles h }

/-- More fuel than outlasts the text changes nothing. -/
lemma parseExpr_of_le (cls : CharClass) (cs : List Char) {fuel more : ℕ}
    (hfuel : 4 * cs.length + 3 ≤ fuel) (hle : fuel ≤ more) :
    parseExpr cls more cs = parseExpr cls fuel cs := by
  induction more, hle using Nat.le_induction with
  | base => rfl
  | succ more hle ih => rw [((reads_settle cls more).expr cs (by omega)).1, ih]

end OdooKernel
