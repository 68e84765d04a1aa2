import Mathlib.Algebra.Order.Ring.Int
import Mathlib.Tactic.Common

/-!
# Prefix notation, read from the right

A formula over an arbitrary alphabet of atoms, with two binary connectives and negation, and its
spelling as a flat list of tokens in prefix notation.  A list of tokens may spell several formulas
one after the other (a *forest*), which is then read as their conjunction.

* `Formula.tokens` / `spell` — the spelling of one formula, and of a forest.
* `push` / `readOnto` — the right-to-left reader: a stack of formulas, an operator taking its
  operands from the top.  `readForest` starts it on the empty stack.
* **`readForest_eq_some`** — unique readability: the reader accepts exactly the spellings of forests,
  and gives back the forest that was spelled.
* `weight` / `Supplied` — the counting criterion: an atom adds one formula to the stack and a binary
  operator removes one; a list can be read onto `k` formulas exactly when no operator in it runs
  short (`readOnto_isSome`), and it spells a forest exactly when that holds for no formula at all
  (`supplied_zero_iff`).
* `joined` — a non-empty forest joined by one connective, spelled with the operators in front.
* `Formula.map` — a formula over other atoms; `exists_of_spell_map`: a list whose image spells a
  forest spells one itself.
* `Tok.Alike` — lists with the same operators, whose atoms correspond (`exists_of_alike_spell`).
* `normalize` — the left-to-right pass that joins a forest by putting the missing conjunctions in
  front (`normalize_spell`); on a list that is no spelling it leaves an operator short
  (`weight_normalize_nonpos`).
-/

namespace PrefixNotation

variable {α β : Type}

/-- The binary connectives. -/
inductive BinOp where
  | and
  | or
deriving DecidableEq, Repr

/-- A token of the notation: an operator, or an atom of the alphabet. -/
inductive Tok (α : Type) where
  | bin (op : BinOp)
  | neg
  | atom (a : α)
deriving DecidableEq, Repr

/-- A formula over the alphabet. -/
inductive Formula (α : Type) where
  | atom (a : α)
  | neg (f : Formula α)
  | bin (op : BinOp) (f g : Formula α)
deriving DecidableEq, Repr

/-- What a connective means. -/
def BinOp.Holds : BinOp → Prop → Prop → Prop
  | .and, p, q => p ∧ q
  | .or, p, q => p ∨ q

/-- The truth of a formula under an assignment to its atoms. -/
def Formula.Holds (v : α → Prop) : Formula α → Prop
  | .atom a => v a
  | .neg f => ¬ f.Holds v
  | .bin op f g => op.Holds (f.Holds v) (g.Holds v)

/-- The atoms of a formula, in the order in which they are written. -/
def Formula.atoms : Formula α → List α
  | .atom a => [a]
  | .neg f => f.atoms
  | .bin _ f g => f.atoms ++ g.atoms

/-- How deeply the operators of a formula nest: none over an atom. -/
def Formula.nesting : Formula α → ℕ
  | .atom _ => 0
  | .neg f => f.nesting + 1
  | .bin _ f g => max f.nesting g.nesting + 1

/-- The spelling of one formula. -/
def Formula.tokens : Formula α → List (Tok α)
  | .atom a => [.atom a]
  | .neg f => .neg :: f.tokens
  | .bin op f g => .bin op :: (f.tokens ++ g.tokens)

/-- The spelling of a forest: its formulas one after the other. -/
def spell (fs : List (Formula α)) : List (Tok α) := fs.flatMap Formula.tokens

@[simp] lemma spell_nil : spell ([] : List (Formula α)) = [] := rfl

@[simp] lemma spell_cons (f : Formula α) (fs : List (Formula α)) :
    spell (f :: fs) = f.tokens ++ spell fs := rfl

@[simp] lemma spell_append (fs gs : List (Formula α)) :
    spell (fs ++ gs) = spell fs ++ spell gs := by
  simp [spell]

/-- A forest read as a conjunction. -/
def AllHold (v : α → Prop) (fs : List (Formula α)) : Prop := ∀ f ∈ fs, f.Holds v

@[simp] lemma allHold_nil (v : α → Prop) : AllHold v [] := by simp [AllHold]

@[simp] lemma allHold_cons (v : α → Prop) (f : Formula α) (fs : List (Formula α)) :
    AllHold v (f :: fs) ↔ f.Holds v ∧ AllHold v fs := by
  simp [AllHold]

@[simp] lemma allHold_append (v : α → Prop) (fs gs : List (Formula α)) :
    AllHold v (fs ++ gs) ↔ AllHold v fs ∧ AllHold v gs := by
  simp [AllHold, or_imp, forall_and]

/-- The truth of a formula depends on the assignment to its own atoms only. -/
lemma Formula.holds_congr {v w : α → Prop} :
    ∀ f : Formula α, (∀ a ∈ f.atoms, v a ↔ w a) → (f.Holds v ↔ f.Holds w)
  | .atom a, h => h a (by simp [Formula.atoms])
  | .neg f, h => not_congr (Formula.holds_congr f h)
  | .bin op f g, h => by
      have hf := Formula.holds_congr f fun a ha => h a (by simp [Formula.atoms, ha])
      have hg := Formula.holds_congr g fun a ha => h a (by simp [Formula.atoms, ha])
      cases op with
      | and => exact and_congr hf hg
      | or => exact or_congr hf hg

/-! ## The right-to-left reader -/

/-- One token onto the stack: an operator takes its operands from the top. -/
def push : Tok α → List (Formula α) → Option (List (Formula α))
  | .atom a, st => some (.atom a :: st)
  | .neg, f :: st => some (.neg f :: st)
  | .bin op, f :: g :: st => some (.bin op f g :: st)
  | _, _ => none

/-- Read a list of tokens from its right end, onto a stack. -/
def readOnto : List (Tok α) → List (Formula α) → Option (List (Formula α))
  | [], st => some st
  | t :: ts, st => (readOnto ts st).bind (push t)

/-- Read a list of tokens from its right end, onto nothing. -/
def readForest (ts : List (Tok α)) : Option (List (Formula α)) := readOnto ts []

@[simp] lemma readForest_nil : readForest ([] : List (Tok α)) = some [] := rfl

lemma readForest_cons (t : Tok α) (ts : List (Tok α)) :
    readForest (t :: ts) = (readForest ts).bind (push t) := rfl

lemma readOnto_append (ts us : List (Tok α)) (st : List (Formula α)) :
    readOnto (ts ++ us) st = (readOnto us st).bind (readOnto ts) := by
  induction ts with
  | nil => simp [readOnto]
  | cons t ts ih => simp only [List.cons_append, readOnto, ih, Option.bind_assoc]

/-- Reading the spelling of a formula puts that formula on the stack. -/
lemma readOnto_tokens (f : Formula α) (st : List (Formula α)) :
    readOnto f.tokens st = some (f :: st) := by
  induction f generalizing st with
  | atom a => simp [Formula.tokens, readOnto, push]
  | neg f ih => simp [Formula.tokens, readOnto, ih, push]
  | bin op f g ihf ihg =>
      simp [Formula.tokens, readOnto, readOnto_append, ihf, ihg, push]

lemma readOnto_spell (fs st : List (Formula α)) :
    readOnto (spell fs) st = some (fs ++ st) := by
  induction fs with
  | nil => simp [readOnto]
  | cons f fs ih => simp [readOnto_append, ih, readOnto_tokens]

/-- One step of the reader puts the token it reads in front of the spelling of its stack. -/
lemma spell_of_push {t : Tok α} {st st' : List (Formula α)} (h : push t st = some st') :
    spell st' = t :: spell st := by
  match t, st with
  | .atom a, st => simp only [push, Option.some.injEq] at h; subst h; simp [Formula.tokens]
  | .neg, f :: st => simp only [push, Option.some.injEq] at h; subst h; simp [Formula.tokens]
  | .bin op, f :: g :: st =>
      simp only [push, Option.some.injEq] at h; subst h; simp [Formula.tokens]
  | .neg, [] => simp [push] at h
  | .bin op, [] => simp [push] at h
  | .bin op, [f] => simp [push] at h

lemma spell_of_readOnto {ts : List (Tok α)} {st st' : List (Formula α)}
    (h : readOnto ts st = some st') : spell st' = ts ++ spell st := by
  induction ts generalizing st' with
  | nil => simp only [readOnto, Option.some.injEq] at h; simp [h]
  | cons t ts ih =>
      obtain ⟨mid, hmid, hpush⟩ := Option.bind_eq_some_iff.mp h
      rw [spell_of_push hpush, ih hmid, List.cons_append]

/-- **Unique readability.**  The reader accepts exactly the spellings of forests, and gives back
the forest. -/
theorem readForest_eq_some {ts : List (Tok α)} {fs : List (Formula α)} :
    readForest ts = some fs ↔ ts = spell fs := by
  constructor
  · intro h
    simpa using (spell_of_readOnto h).symm
  · rintro rfl
    simpa [readForest] using readOnto_spell fs []

/-- Two forests with one spelling are the same forest. -/
lemma spell_injective {fs gs : List (Formula α)} (h : spell fs = spell gs) : fs = gs := by
  have hf : readForest (spell fs) = some fs := readForest_eq_some.mpr rfl
  have hg : readForest (spell gs) = some gs := readForest_eq_some.mpr rfl
  rw [h, hg] at hf
  exact (Option.some.inj hf).symm

/-! ## Counting operands -/

/-- What a token does to the height of the reader's stack. -/
def Tok.weight : Tok α → ℤ
  | .atom _ => 1
  | .neg => 0
  | .bin _ => -1

/-- What a list of tokens does to the height of the reader's stack. -/
def weight : List (Tok α) → ℤ
  | [] => 0
  | t :: ts => t.weight + weight ts

@[simp] lemma weight_nil : weight ([] : List (Tok α)) = 0 := rfl

@[simp] lemma weight_cons (t : Tok α) (ts : List (Tok α)) :
    weight (t :: ts) = t.weight + weight ts := rfl

@[simp] lemma weight_append (ts us : List (Tok α)) : weight (ts ++ us) = weight ts + weight us := by
  induction ts with
  | nil => simp
  | cons t ts ih => simp [ih, add_assoc]

/-- No operator of the list runs short when `k` formulas lie beyond its right end. -/
def Supplied (k : ℤ) : List (Tok α) → Prop
  | [] => True
  | t :: ts => 1 ≤ k + weight (t :: ts) ∧ Supplied k ts

instance decidableSupplied (k : ℤ) : ∀ ts : List (Tok α), Decidable (Supplied k ts)
  | [] => inferInstanceAs (Decidable True)
  | t :: ts =>
      haveI := decidableSupplied k ts
      inferInstanceAs (Decidable (1 ≤ k + weight (t :: ts) ∧ Supplied k ts))

lemma Supplied.mono {k l : ℤ} (hkl : k ≤ l) :
    ∀ {ts : List (Tok α)}, Supplied k ts → Supplied l ts
  | [], _ => trivial
  | _ :: _, ⟨h, hs⟩ => ⟨by omega, hs.mono hkl⟩

lemma supplied_append (k : ℤ) (ts us : List (Tok α)) :
    Supplied k (ts ++ us) ↔ Supplied (k + weight us) ts ∧ Supplied k us := by
  induction ts with
  | nil => simp [Supplied]
  | cons t ts ih =>
      simp only [List.cons_append, Supplied, ih, weight_cons, weight_append, and_assoc]
      exact and_congr_left fun _ => by constructor <;> intro h <;> omega

/-- What the reader can read, it can read the end of. -/
lemma Supplied.of_append {k : ℤ} {ts us : List (Tok α)} (h : Supplied k (ts ++ us)) :
    Supplied k us :=
  ((supplied_append k ts us).mp h).2

/-- A list that wants nothing and is not empty leaves a formula. -/
lemma Supplied.one_le_weight {ts : List (Tok α)} (h : Supplied 0 ts) (hne : ts ≠ []) :
    1 ≤ weight ts := by
  cases ts with
  | nil => exact absurd rfl hne
  | cons t ts => simpa using h.1

/-- One step of the reader goes through exactly when the height it leaves is positive. -/
lemma push_isSome (t : Tok α) (st : List (Formula α)) :
    (push t st).isSome ↔ 1 ≤ t.weight + st.length := by
  match t, st with
  | .atom a, st => simp [push, Tok.weight]
  | .neg, [] => simp [push, Tok.weight]
  | .neg, f :: st => simp [push, Tok.weight]
  | .bin op, [] => simp [push, Tok.weight]
  | .bin op, [f] => simp [push, Tok.weight]
  | .bin op, f :: g :: st => simp [push, Tok.weight]

lemma length_of_push {t : Tok α} {st st' : List (Formula α)} (h : push t st = some st') :
    (st'.length : ℤ) = t.weight + st.length := by
  match t, st with
  | .atom a, st => simp only [push, Option.some.injEq] at h; subst h; simp [Tok.weight]; omega
  | .neg, f :: st => simp only [push, Option.some.injEq] at h; subst h; simp [Tok.weight]
  | .bin op, f :: g :: st =>
      simp only [push, Option.some.injEq] at h; subst h; simp [Tok.weight]
  | .neg, [] => simp [push] at h
  | .bin op, [] => simp [push] at h
  | .bin op, [f] => simp [push] at h

lemma length_of_readOnto {ts : List (Tok α)} {st st' : List (Formula α)}
    (h : readOnto ts st = some st') : (st'.length : ℤ) = weight ts + st.length := by
  induction ts generalizing st' with
  | nil => simp only [readOnto, Option.some.injEq] at h; simp [h]
  | cons t ts ih =>
      obtain ⟨mid, hmid, hpush⟩ := Option.bind_eq_some_iff.mp h
      rw [length_of_push hpush, ih hmid, weight_cons, add_assoc]

/-- **The counting criterion.**  A list can be read onto a stack exactly when none of its operators
runs short. -/
theorem readOnto_isSome (ts : List (Tok α)) (st : List (Formula α)) :
    (readOnto ts st).isSome ↔ Supplied st.length ts := by
  induction ts with
  | nil => simp [readOnto, Supplied]
  | cons t ts ih =>
      simp only [readOnto, Supplied, weight_cons]
      cases hread : readOnto ts st with
      | none =>
          simp only [hread, Option.isSome_none, Bool.false_eq_true, false_iff] at ih
          simp [ih]
      | some mid =>
          simp only [hread, Option.isSome_some, true_iff] at ih
          have hlen := length_of_readOnto hread
          simp only [Option.bind_some, push_isSome, ih, and_true]
          constructor <;> intro h <;> omega

/-- A list spells a forest exactly when it wants nothing beyond its right end. -/
theorem supplied_zero_iff (ts : List (Tok α)) :
    Supplied 0 ts ↔ ∃ fs : List (Formula α), ts = spell fs := by
  have h := readOnto_isSome ts []
  simp only [List.length_nil, Nat.cast_zero] at h
  rw [← h, Option.isSome_iff_exists]
  exact exists_congr fun fs => readForest_eq_some

/-- What is read on top of a spelling leaves that spelling's forest in place only if it is a
spelling itself. -/
lemma readOnto_eq_append {ts : List (Tok α)} {fs st : List (Formula α)} :
    readOnto ts st = some (fs ++ st) ↔ ts = spell fs := by
  constructor
  · intro h
    have := spell_of_readOnto h
    simpa using this.symm
  · rintro rfl
    exact readOnto_spell fs st

@[simp] lemma weight_tokens (f : Formula α) : weight f.tokens = 1 := by
  have h := length_of_readOnto (readOnto_tokens f [])
  simpa using h.symm

@[simp] lemma weight_spell (fs : List (Formula α)) : weight (spell fs) = fs.length := by
  have h := length_of_readOnto (readOnto_spell fs [])
  simpa using h.symm

/-! ## Joining a forest -/

/-- A non-empty forest joined by one connective, the first two formulas innermost. -/
def joined (op : BinOp) (f : Formula α) (fs : List (Formula α)) : Formula α :=
  fs.foldl (Formula.bin op) f

lemma tokens_joined (op : BinOp) (f : Formula α) (fs : List (Formula α)) :
    (joined op f fs).tokens = List.replicate fs.length (.bin op) ++ spell (f :: fs) := by
  induction fs generalizing f with
  | nil => simp [joined]
  | cons g fs ih =>
      have h := ih (.bin op f g)
      simp only [joined, List.foldl_cons] at h ⊢
      rw [h]
      simp only [spell_cons, Formula.tokens, List.length_cons, List.replicate_succ',
        List.append_assoc, List.cons_append, List.nil_append]

lemma holds_joined_and (v : α → Prop) (f : Formula α) (fs : List (Formula α)) :
    (joined .and f fs).Holds v ↔ AllHold v (f :: fs) := by
  induction fs generalizing f with
  | nil => simp [joined]
  | cons g fs ih =>
      have h := ih (.bin .and f g)
      simp only [joined, List.foldl_cons] at h ⊢
      rw [h]
      simp [Formula.Holds, BinOp.Holds, and_assoc]

lemma holds_joined_or (v : α → Prop) (f : Formula α) (fs : List (Formula α)) :
    (joined .or f fs).Holds v ↔ ∃ g ∈ f :: fs, g.Holds v := by
  induction fs generalizing f with
  | nil => simp [joined]
  | cons g fs ih =>
      have h := ih (.bin .or f g)
      simp only [joined, List.foldl_cons] at h ⊢
      rw [h]
      simp [Formula.Holds, BinOp.Holds, or_assoc]

/-! ## Changing the atoms -/

def Tok.map (r : α → β) : Tok α → Tok β
  | .bin op => .bin op
  | .neg => .neg
  | .atom a => .atom (r a)

def Formula.map (r : α → β) : Formula α → Formula β
  | .atom a => .atom (r a)
  | .neg f => .neg (f.map r)
  | .bin op f g => .bin op (f.map r) (g.map r)

lemma tokens_map (r : α → β) (f : Formula α) : (f.map r).tokens = f.tokens.map (Tok.map r) := by
  induction f with
  | atom a => rfl
  | neg f ih => simp only [Formula.map, Formula.tokens, ih, List.map_cons, Tok.map]
  | bin op f g ihf ihg =>
      simp only [Formula.map, Formula.tokens, ihf, ihg, List.map_cons, List.map_append, Tok.map]

lemma spell_map (r : α → β) (fs : List (Formula α)) :
    spell (fs.map (Formula.map r)) = (spell fs).map (Tok.map r) := by
  induction fs with
  | nil => rfl
  | cons f fs ih => rw [List.map_cons, spell_cons, ih, tokens_map, spell_cons, List.map_append]

lemma weight_map (r : α → β) (ts : List (Tok α)) : weight (ts.map (Tok.map r)) = weight ts := by
  induction ts with
  | nil => rfl
  | cons t ts ih =>
      rw [List.map_cons, weight_cons, weight_cons, ih]
      cases t <;> rfl

lemma supplied_map (r : α → β) (k : ℤ) (ts : List (Tok α)) :
    Supplied k (ts.map (Tok.map r)) ↔ Supplied k ts := by
  induction ts with
  | nil => exact Iff.rfl
  | cons t ts ih =>
      show 1 ≤ k + weight ((t :: ts).map (Tok.map r)) ∧ Supplied k (ts.map (Tok.map r)) ↔ _
      rw [weight_map, ih]
      rfl

/-- What spells a forest with its atoms changed spells one as it is. -/
lemma exists_of_spell_map {r : α → β} {ts : List (Tok α)} {gs : List (Formula β)}
    (h : ts.map (Tok.map r) = spell gs) :
    ∃ fs, ts = spell fs ∧ gs = fs.map (Formula.map r) := by
  have hsupplied := (supplied_map r 0 ts).mp ((supplied_zero_iff _).mpr ⟨gs, h⟩)
  obtain ⟨fs, rfl⟩ := (supplied_zero_iff ts).mp hsupplied
  exact ⟨fs, rfl, spell_injective (h.symm.trans (spell_map r fs).symm)⟩

lemma holds_map (r : α → β) (v : β → Prop) (f : Formula α) :
    (f.map r).Holds v ↔ f.Holds fun a => v (r a) := by
  induction f with
  | atom a => exact Iff.rfl
  | neg f ih => exact not_congr ih
  | bin op f g ihf ihg =>
      cases op with
      | and => exact and_congr ihf ihg
      | or => exact or_congr ihf ihg

lemma allHold_map (r : α → β) (v : β → Prop) (fs : List (Formula α)) :
    AllHold v (fs.map (Formula.map r)) ↔ AllHold (fun a => v (r a)) fs := by
  simp only [AllHold, List.forall_mem_map, holds_map]

/-- Two tokens of one shape: the same operator, or atoms that correspond. -/
inductive Tok.Alike (r : α → β → Prop) : Tok α → Tok β → Prop where
  | bin (op : BinOp) : Alike r (.bin op) (.bin op)
  | neg : Alike r .neg .neg
  | atom {a : α} {b : β} (h : r a b) : Alike r (.atom a) (.atom b)

/-- Two lists of one shape are one list over the pairs that correspond. -/
lemma exists_of_alike {r : α → β → Prop} {ts : List (Tok α)} {us : List (Tok β)}
    (h : List.Forall₂ (Tok.Alike r) ts us) :
    ∃ ps : List (Tok {p : α × β // r p.1 p.2}),
      ps.map (Tok.map fun p => p.1.1) = ts ∧ ps.map (Tok.map fun p => p.1.2) = us := by
  induction h with
  | nil => exact ⟨[], rfl, rfl⟩
  | cons hhead _ ih =>
      obtain ⟨ps, rfl, rfl⟩ := ih
      cases hhead with
      | bin op => exact ⟨.bin op :: ps, rfl, rfl⟩
      | neg => exact ⟨.neg :: ps, rfl, rfl⟩
      | @atom a b hab => exact ⟨.atom ⟨(a, b), hab⟩ :: ps, rfl, rfl⟩

/-- **Lists of one shape spell forests of one shape**, which mean the same where the atoms that
correspond do. -/
theorem exists_of_alike_spell {r : α → β → Prop} {fs : List (Formula α)} {us : List (Tok β)}
    (h : List.Forall₂ (Tok.Alike r) (spell fs) us) {v : α → Prop} {w : β → Prop}
    (hvw : ∀ a b, r a b → (v a ↔ w b)) :
    ∃ gs, us = spell gs ∧ (AllHold v fs ↔ AllHold w gs) := by
  obtain ⟨ps, hps, hus⟩ := exists_of_alike h
  obtain ⟨hs, rfl, rfl⟩ := exists_of_spell_map hps
  refine ⟨hs.map (Formula.map fun p => p.1.2), ?_, ?_⟩
  · rw [spell_map]
    exact hus.symm
  · rw [allHold_map, allHold_map]
    have heq : (fun p : {p : α × β // r p.1 p.2} => v p.1.1) = fun p => w p.1.2 :=
      funext fun p => propext (hvw _ _ p.2)
    rw [heq]

/-! ## Normalisation -/

/-- One step of the normalisation: the tokens so far, and how many operands they still expect.  A
token that arrives when none is expected brings a conjunction in front of all that precedes. -/
def normalizeStep (acc : List (Tok α) × ℕ) (t : Tok α) : List (Tok α) × ℕ :=
  let (out, expected) := if acc.2 = 0 then (.bin .and :: acc.1, 1) else acc
  match t with
  | .bin _ => (out ++ [t], expected + 1)
  | .neg => (out ++ [t], expected)
  | .atom _ => (out ++ [t], expected - 1)

/-- Join a forest by putting the missing conjunctions in front. -/
def normalize (ts : List (Tok α)) : List (Tok α) := (ts.foldl normalizeStep ([], 1)).1

/-- Inside a formula no conjunction is missing. -/
lemma foldl_normalizeStep_tokens (f : Formula α) (out : List (Tok α)) (e : ℕ) :
    f.tokens.foldl normalizeStep (out, e + 1) = (out ++ f.tokens, e) := by
  induction f generalizing out e with
  | atom a => simp [Formula.tokens, normalizeStep]
  | neg f ih => simp [Formula.tokens, normalizeStep, ih]
  | bin op f g ihf ihg =>
      simp [Formula.tokens, normalizeStep, List.foldl_append, ihf, ihg]

lemma foldl_normalizeStep_done (f : Formula α) (out : List (Tok α)) :
    f.tokens.foldl normalizeStep (out, 0) = (.bin .and :: out ++ f.tokens, 0) := by
  have h := foldl_normalizeStep_tokens f (.bin .and :: out) 0
  cases hf : f.tokens with
  | nil => cases f <;> simp [Formula.tokens] at hf
  | cons t ts =>
      rw [hf] at h
      simpa [normalizeStep] using h

lemma foldl_normalizeStep_spell (fs : List (Formula α)) (out : List (Tok α)) :
    (spell fs).foldl normalizeStep (out, 0)
      = (List.replicate fs.length (.bin .and) ++ out ++ spell fs, 0) := by
  induction fs generalizing out with
  | nil => simp
  | cons f fs ih =>
      rw [spell_cons, List.foldl_append, foldl_normalizeStep_done, ih]
      simp [List.replicate_succ', List.append_assoc]

/-- Normalising the spelling of a non-empty forest spells the conjunction of its formulas. -/
theorem normalize_spell (f : Formula α) (fs : List (Formula α)) :
    normalize (spell (f :: fs)) = (joined .and f fs).tokens := by
  have hf := foldl_normalizeStep_tokens f [] 0
  rw [normalize, spell_cons, List.foldl_append, hf, foldl_normalizeStep_spell, tokens_joined]
  simp

/-- What the pass keeps: the tokens so far want exactly the operands still expected. -/
def Pending (acc : List (Tok α) × ℕ) : Prop :=
  Supplied acc.2 acc.1 ∧ weight acc.1 = 1 - acc.2

lemma pending_start : Pending (([] : List (Tok α)), 1) := ⟨trivial, by simp⟩

/-- A conjunction put in front of what is complete expects one operand again. -/
lemma Pending.reopen {out : List (Tok α)} (h : Pending (out, 0)) :
    Pending (.bin .and :: out, 1) := by
  obtain ⟨hs, hw⟩ := h
  have hs' : Supplied 1 out := hs.mono (by simp)
  refine ⟨⟨?_, by simpa using hs'⟩, ?_⟩ <;> simp [Tok.weight] at hw ⊢ <;> omega

/-- While an operand is expected, a token is taken as it comes. -/
lemma Pending.snoc {out : List (Tok α)} {e : ℕ} (h : Pending (out, e + 1)) (t : Tok α) :
    Pending (normalizeStep (out, e + 1) t) := by
  obtain ⟨hs, hw⟩ := h
  cases t with
  | atom a =>
      refine ⟨(supplied_append _ _ _).mpr ⟨?_, ?_⟩, ?_⟩
      · simpa [normalizeStep, Tok.weight] using hs
      · simp [normalizeStep, Supplied, Tok.weight]
      · simp [normalizeStep, Tok.weight] at hw ⊢; omega
  | neg =>
      refine ⟨(supplied_append _ _ _).mpr ⟨?_, ?_⟩, ?_⟩
      · simpa [normalizeStep, Tok.weight] using hs
      · simp [normalizeStep, Supplied, Tok.weight]
      · simp [normalizeStep, Tok.weight] at hw ⊢; omega
  | bin op =>
      refine ⟨(supplied_append _ _ _).mpr ⟨?_, ?_⟩, ?_⟩
      · simpa [normalizeStep, Tok.weight] using hs
      · simp [normalizeStep, Supplied, Tok.weight]
      · simp [normalizeStep, Tok.weight] at hw ⊢; omega

lemma Pending.step {acc : List (Tok α) × ℕ} (h : Pending acc) (t : Tok α) :
    Pending (normalizeStep acc t) := by
  obtain ⟨out, e⟩ := acc
  cases e with
  | zero => simpa [normalizeStep] using h.reopen.snoc t
  | succ e => exact h.snoc t

lemma Pending.foldl {acc : List (Tok α) × ℕ} (h : Pending acc) (ts : List (Tok α)) :
    Pending (ts.foldl normalizeStep acc) := by
  induction ts generalizing acc with
  | nil => exact h
  | cons t ts ih => exact ih (h.step t)

/-- The pass only puts conjunctions in front. -/
lemma foldl_normalizeStep_fst (ts : List (Tok α)) (acc : List (Tok α) × ℕ) :
    ∃ k, (ts.foldl normalizeStep acc).1 = List.replicate k (.bin .and) ++ acc.1 ++ ts := by
  induction ts generalizing acc with
  | nil => exact ⟨0, by simp⟩
  | cons t ts ih =>
      obtain ⟨k, hk⟩ := ih (normalizeStep acc t)
      rw [List.foldl_cons, hk]
      by_cases hz : acc.2 = 0
      · refine ⟨k + 1, ?_⟩
        cases t <;> simp [normalizeStep, hz, List.replicate_succ']
      · refine ⟨k, ?_⟩
        cases t <;> simp [normalizeStep, hz]

lemma weight_normalize_le_one (ts : List (Tok α)) : weight (normalize ts) ≤ 1 := by
  obtain ⟨-, hw⟩ := pending_start.foldl ts
  simp only [normalize]
  omega

/-- On a list that spells nothing, normalisation leaves an operator short. -/
theorem weight_normalize_nonpos {ts : List (Tok α)} (h : ¬ Supplied 0 ts) :
    weight (normalize ts) ≤ 0 := by
  obtain ⟨hs, hw⟩ := pending_start.foldl ts
  obtain ⟨k, hk⟩ := foldl_normalizeStep_fst ts ([], 1)
  by_contra hpos
  have hzero : (ts.foldl normalizeStep ([], 1)).2 = 0 := by
    simp only [normalize] at hpos
    omega
  rw [hzero, hk] at hs
  exact h ((supplied_append _ _ _).mp hs).2

end PrefixNotation
