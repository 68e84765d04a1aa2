import OdooKernel.Compile.Nothing
import OdooKernel.Domain.Meaning
import OdooKernel.Search.Flush
import OdooKernel.Search.Pages

/-!
# Searches that need no statement

A search whose domain is false as it stands is answered without a statement.  The answer is judged on
the domain as it was sent, the condition is compiled from what its hierarchy leaves are resolved to.

**Two readings.**  The items of the domain and those that it is resolved to are read side by side,
and the items of the two stacks stand for one another (`Stands`): an operand that takes the place of
a leaf is one item, and no negation (`OneOperand.parseTerms`).  A domain is false because of
memberships in nothing, and these are left as they are, so that what stands for a node that is false
selects nothing.

**The condition.**  What selects nothing is compiled to what holds nowhere (`Compile/Nothing`), and
the search only adds conditions to that.

* `parseTerms_stands` — the resolved items are read to such nodes, one after the other.
* `unsatisfied_resolved` — a domain that is false stays so when it is resolved.
* **`isFalse_selects_nothing`** — the condition of a search that is answered without a statement
  selects nothing.
-/

namespace OdooKernel

/-! ## Resolved nodes -/

/-- What the children of a junction of the resolved domain take over from those of the domain that was
sent: a conjunction a false child, a disjunction that all children are false. -/
def TakesOver (conj : Bool) (cs ds : List Node) : Prop :=
  if conj then (∃ c ∈ cs, isFalse c = true) → ∃ d ∈ ds, Unsatisfied d
  else (∀ c ∈ cs, isFalse c = true) → ∀ d ∈ ds, Unsatisfied d

/-- A node of the resolved domain, for one of the domain that was sent. -/
inductive Stands : Pending → Pending → Prop
  | replaced {l : Leaf} {p : Pending} : isFalse (.Leaf l) = false → (∀ m, p.finish ≠ .Not m) →
      Stands (.node (.Leaf l)) p
  | leaf (l : Leaf) : Stands (.node (.Leaf l)) (.node (.Leaf l))
  | always : Stands (.node .True) (.node .True)
  | never : Stands (.node .False) (.node .False)
  | not {a b : Node} : Stands (.ofNode a) (.ofNode b) → Stands (.node (.Not a)) (.node (.Not b))
  | junction {conj : Bool} {cs ds : List Node} : TakesOver conj cs ds →
      Stands (.junction conj cs) (.junction conj ds)

lemma TakesOver.nil (conj : Bool) : TakesOver conj [] [] := by
  cases conj with
  | true => exact fun ⟨c, hc, _⟩ => absurd hc List.not_mem_nil
  | false => exact fun _ => List.forall_mem_nil _

lemma TakesOver.append {conj : Bool} {cs cs' ds ds' : List Node} (h : TakesOver conj cs ds)
    (h' : TakesOver conj cs' ds') : TakesOver conj (cs ++ cs') (ds ++ ds') := by
  cases conj with
  | true =>
      rintro ⟨c, hc, hfalse⟩
      rcases List.mem_append.mp hc with hc | hc
      · obtain ⟨d, hd, hun⟩ := h ⟨c, hc, hfalse⟩
        exact ⟨d, List.mem_append_left _ hd, hun⟩
      · obtain ⟨d, hd, hun⟩ := h' ⟨c, hc, hfalse⟩
        exact ⟨d, List.mem_append_right _ hd, hun⟩
  | false =>
      intro hall d hd
      rcases List.mem_append.mp hd with hd | hd
      · exact h (fun c hc => hall c (List.mem_append_left _ hc)) d hd
      · exact h' (fun c hc => hall c (List.mem_append_right _ hc)) d hd

/-- One child for another. -/
lemma TakesOver.single {conj : Bool} {c d : Node} (h : isFalse c = true → Unsatisfied d) :
    TakesOver conj [c] [d] := by
  cases conj with
  | true =>
      rintro ⟨c', hc', hfalse⟩
      obtain rfl := List.mem_singleton.mp hc'
      exact ⟨d, List.mem_singleton_self d, h hfalse⟩
  | false =>
      intro hall d' hd'
      obtain rfl := List.mem_singleton.mp hd'
      exact h (hall c (List.mem_singleton_self c))

/-- A child that is not false has any children in its place. -/
lemma TakesOver.replaced {conj : Bool} {c : Node} (hc : isFalse c = false) (ds : List Node) :
    TakesOver conj [c] ds := by
  cases conj with
  | true =>
      rintro ⟨c', hc', hfalse⟩
      obtain rfl := List.mem_singleton.mp hc'
      rw [hc] at hfalse
      cases hfalse
  | false =>
      intro hall
      have hfalse := hall c (List.mem_singleton_self c)
      rw [hc] at hfalse
      cases hfalse

lemma anyIsFalse_iff (ns : List Node) : anyIsFalse ns = true ↔ ∃ n ∈ ns, isFalse n = true := by
  induction ns with
  | nil => simp [anyIsFalse]
  | cons n ns ih => simp [anyIsFalse, ih]

lemma allAreFalse_iff (ns : List Node) : allAreFalse ns = true ↔ ∀ n ∈ ns, isFalse n = true := by
  induction ns with
  | nil => simp [allAreFalse]
  | cons n ns ih => simp [allAreFalse, ih]

/-- **What stands for a node that is false selects nothing.** -/
lemma Stands.unsatisfied {p q : Pending} (h : Stands p q) (hfalse : isFalse p.finish = true) :
    Unsatisfied q.finish := by
  cases h with
  | @replaced l _ hl _ =>
      have hleaf : isFalse (.Leaf l) = true := hfalse
      rw [hl] at hleaf
      cases hleaf
  | leaf l => exact unsatisfied_of_isFalse _ hfalse
  | always => cases hfalse
  | never => exact .constant
  | not _ => cases hfalse
  | @junction conj cs ds hover =>
      cases conj with
      | true =>
          obtain ⟨d, hd, hun⟩ := hover ((anyIsFalse_iff cs).mp hfalse)
          exact .and hd hun
      | false =>
          have hall : (!cs.isEmpty && allAreFalse cs) = true := hfalse
          rw [Bool.and_eq_true] at hall
          exact .or (hover ((allAreFalse_iff cs).mp hall.2))

/-- What an operand adds to a junction. -/
lemma Stands.absorbed {a b : Item} (h : Stands a.node b.node) (conj : Bool) :
    TakesOver conj (absorbed conj a) (absorbed conj b) := by
  obtain ⟨p, d⟩ := a
  obtain ⟨q, e⟩ := b
  have hfalse := h.unsatisfied
  cases h with
  | replaced hl _ => exact TakesOver.replaced hl _
  | leaf l => exact TakesOver.single hfalse
  | always => exact TakesOver.single hfalse
  | never => exact TakesOver.single hfalse
  | not _ => exact TakesOver.single hfalse
  | @junction other cs ds hover =>
      simp only [OdooKernel.absorbed]
      split
      · next heq =>
          rw [heq]
          exact hover
      · exact TakesOver.single hfalse

lemma naryStep_children (conj : Bool) (acc : List Node × ℕ) (item : Item) :
    (naryStep conj acc item).1 = acc.1 ++ absorbed conj item := by
  obtain ⟨cs, d⟩ := acc
  obtain ⟨node, e⟩ := item
  cases node with
  | node n => rfl
  | junction other inner =>
      simp only [naryStep, absorbed]
      split
      · split
        · rw [foldl_push_front]
        · rfl
      · rfl

/-- The children of a junction that is joined. -/
lemma nary_children {conj : Bool} {operands : List Item} {r : Item}
    (h : nary conj operands = .ok r) :
    r.node = .junction conj (operands.flatMap (absorbed conj)) := by
  have hfold : ∀ (items : List Item) (acc : List Node × ℕ),
      (items.foldl (naryStep conj) acc).1 = acc.1 ++ items.flatMap (absorbed conj) := by
    intro items
    induction items with
    | nil => intro acc; simp
    | cons item items ih =>
        intro acc
        rw [List.foldl_cons, ih, naryStep_children, List.flatMap_cons, List.append_assoc]
  unfold nary at h
  obtain ⟨d, -, h⟩ := bind_eq_ok.mp h
  obtain rfl := Except.ok.inj h
  simp only [hfold operands ([], 1), List.nil_append]

/-- Operands that stand for others join to a junction that stands for theirs. -/
lemma Stands.nary {conj : Bool} {as bs : List Item}
    (h : List.Forall₂ (fun a b => Stands a.node b.node) as bs) {r s : Item}
    (hr : nary conj as = .ok r) (hs : nary conj bs = .ok s) : Stands r.node s.node := by
  rw [nary_children hr, nary_children hs]
  refine .junction ?_
  clear hr hs
  induction h with
  | nil => exact TakesOver.nil conj
  | cons hab _ ih =>
      rw [List.flatMap_cons, List.flatMap_cons]
      exact (hab.absorbed conj).append ih

/-- What is negated is a negation on both sides, or on none. -/
lemma Stands.negated {p q : Pending} (h : Stands p q) :
    (∃ a b, p.finish = .Not a ∧ q.finish = .Not b ∧ Stands (.ofNode a) (.ofNode b)) ∨
      (∀ m, p.finish ≠ .Not m) ∧ (∀ m, q.finish ≠ .Not m) ∧
        Stands (.ofNode p.finish) (.ofNode q.finish) := by
  cases h with
  | replaced hl hnot =>
      refine Or.inr ⟨by simp [Pending.finish], hnot, .replaced hl ?_⟩
      rw [finish_ofNode]
      exact hnot
  | leaf l => exact Or.inr ⟨by simp [Pending.finish], by simp [Pending.finish], .leaf l⟩
  | always => exact Or.inr ⟨by simp [Pending.finish], by simp [Pending.finish], .always⟩
  | never => exact Or.inr ⟨by simp [Pending.finish], by simp [Pending.finish], .never⟩
  | not hab => exact Or.inl ⟨_, _, rfl, rfl, hab⟩
  | @junction conj cs ds hover =>
      cases conj with
      | true => exact Or.inr ⟨by simp [Pending.finish], by simp [Pending.finish], .junction hover⟩
      | false => exact Or.inr ⟨by simp [Pending.finish], by simp [Pending.finish], .junction hover⟩

/-! ## Resolved items -/

/-- The stacks that are read from a domain and from what it is resolved to. -/
abbrev StacksStand (s t : List Item) : Prop := List.Forall₂ (fun a b => Stands a.node b.node) s t

/-- **One item that the resolution leaves as it is.** -/
lemma parseTerm_stands {item : Json} {s t s' t' : List Item} (h : StacksStand s t)
    (hs : parseTerm item s = .ok s') (ht : parseTerm item t = .ok t') : StacksStand s' t' := by
  unfold parseTerm at hs ht
  split at hs
  · cases h with
    | nil => simp at hs
    | cons ha h =>
      cases h with
      | nil => simp at hs
      | cons hb h =>
        obtain ⟨r, hr, rfl⟩ := map_eq_ok.mp hs
        obtain ⟨r', hr', rfl⟩ := map_eq_ok.mp ht
        exact .cons (Stands.nary (.cons ha (.cons hb .nil)) hr hr') h
  · cases h with
    | nil => simp at hs
    | cons ha h =>
      cases h with
      | nil => simp at hs
      | cons hb h =>
        obtain ⟨r, hr, rfl⟩ := map_eq_ok.mp hs
        obtain ⟨r', hr', rfl⟩ := map_eq_ok.mp ht
        exact .cons (Stands.nary (.cons ha (.cons hb .nil)) hr hr') h
  · cases h with
    | nil => simp at hs
    | @cons a b s t ha h =>
      simp only at hs ht
      rcases ha.negated with ⟨p, q, hp, hq, hpq⟩ | ⟨hp, hq, hpq⟩
      · simp only [hp] at hs
        simp only [hq] at ht
        obtain rfl := Except.ok.inj hs
        obtain rfl := Except.ok.inj ht
        exact .cons hpq h
      · split at hs
        · next inner hinner => exact absurd hinner (hp inner)
        · split at ht
          · next inner hinner => exact absurd hinner (hq inner)
          · obtain ⟨d, -, rfl⟩ := map_eq_ok.mp hs
            obtain ⟨e, -, rfl⟩ := map_eq_ok.mp ht
            exact .cons (.not hpq) h
  · next left op right =>
      obtain ⟨n, hn, rfl⟩ := map_eq_ok.mp hs
      obtain ⟨n', hn', rfl⟩ := map_eq_ok.mp ht
      rw [hn, Except.ok.injEq] at hn'
      subst hn'
      refine .cons ?_ h
      obtain ⟨term, -, rfl⟩ := parseLeaf_eq_ok.mp hn
      cases term with
      | leaf l => exact .leaf l
      | const b =>
          cases b with
          | true => exact .always
          | false => exact .never
  · simp at hs

/-! ## What takes the place of a leaf -/

/-- The terms of one operand: a disjunction of leaves. -/
def OneOperand (out : List Json) : Prop :=
  ∃ terms : List (String × String × Json), out = orLeaves (terms.map fun t => term t.1 t.2.1 t.2.2)

lemma OneOperand.term (field op : String) (value : Json) :
    OneOperand [OdooKernel.term field op value] := ⟨[(field, op, value)], rfl⟩

/-- What a walk finds is one operand. -/
lemma Walked.oneOperand (keyField : String) (w : Walked) : OneOperand (w.terms keyField) := by
  cases w with
  | Ids ids => exact OneOperand.term _ _ _
  | Prefixes prefixes =>
      unfold Walked.terms
      simp only
      split
      · refine ⟨prefixes.map fun p => ("parent_path", "=like", .string p), ?_⟩
        rw [List.map_map]
        rfl
      · exact OneOperand.term _ _ _

/-- Leaves are read one item each. -/
lemma parseTerms_leaves (terms : List (String × String × Json)) {rest : List Json} {t : List Item}
    (ht : parseTerms rest = .ok t) :
    parseTerms (terms.map (fun t => term t.1 t.2.1 t.2.2) ++ rest)
      = .ok (terms.map (fun t => ⟨.node (leafNode t.1 t.2.1 t.2.2), 1⟩) ++ t) := by
  induction terms with
  | nil => exact ht
  | cons x terms ih =>
      rw [List.map_cons, List.cons_append, parseTerms, ih]
      rfl

/-- What is read last is read first. -/
lemma parseTerms_of_append {xs ys : List Json} {t : List Item}
    (h : parseTerms (xs ++ ys) = .ok t) : ∃ t', parseTerms ys = .ok t' := by
  induction xs generalizing t with
  | nil => exact ⟨t, h⟩
  | cons x xs ih =>
      obtain ⟨mid, hmid, -⟩ := bind_eq_ok.mp h
      exact ih hmid

/-- The bars join what is on top of the stack to one item that is no negation. -/
lemma parseTerms_bars (k : ℕ) {xs : List Json} {stack : List Item} (hxs : parseTerms xs = .ok stack)
    {first : Item} {more : List Item} (hstack : stack = first :: more)
    (hfirst : ∀ m, first.node.finish ≠ .Not m) {out : List Item}
    (hout : parseTerms (List.replicate k (.string "|") ++ xs) = .ok out) :
    ∃ item, (∀ m, item.node.finish ≠ .Not m) ∧ out = item :: more.drop k := by
  induction k generalizing out with
  | zero =>
      rw [List.replicate_zero, List.nil_append, hxs, Except.ok.injEq] at hout
      exact ⟨first, hfirst, by rw [← hout, hstack, List.drop_zero]⟩
  | succ k ih =>
      rw [List.replicate_succ, List.cons_append] at hout
      obtain ⟨mid, hmid, hout⟩ := bind_eq_ok.mp hout
      obtain ⟨item, hitem, rfl⟩ := ih hmid
      cases hdrop : more.drop k with
      | nil =>
          rw [hdrop] at hout
          cases hout
      | cons next rest =>
          rw [hdrop] at hout
          obtain ⟨r, hr, rfl⟩ := map_eq_ok.mp hout
          refine ⟨r, ?_, ?_⟩
          · rw [nary_children hr]
            simp [Pending.finish]
          · rw [← List.drop_drop, hdrop]
            rfl

/-- **One operand is read to one item**, which is no negation. -/
lemma OneOperand.parseTerms {out : List Json} (h : OneOperand out) {rest : List Json}
    {t : List Item} (ht : parseTerms rest = .ok t) {t' : List Item}
    (ht' : OdooKernel.parseTerms (out ++ rest) = .ok t') :
    ∃ item, (∀ m, item.node.finish ≠ .Not m) ∧ t' = item :: t := by
  obtain ⟨terms, rfl⟩ := h
  cases terms with
  | nil =>
      have hterm : OdooKernel.parseTerms (orLeaves [] ++ rest)
          = .ok (⟨.node .False, 1⟩ :: t) := by
        show (OdooKernel.parseTerms rest >>= parseTerm falseTerm) = _
        rw [ht]
        rfl
      rw [List.map_nil, hterm, Except.ok.injEq] at ht'
      exact ⟨_, by simp [Pending.finish], ht'.symm⟩
  | cons x terms =>
      have hleaves := parseTerms_leaves (x :: terms) ht
      rw [List.map_cons] at hleaves ht'
      rw [orLeaves, List.isEmpty_cons, if_neg Bool.false_ne_true, List.append_assoc] at ht'
      rw [List.map_cons, List.cons_append] at hleaves
      obtain ⟨item, hitem, rfl⟩ := parseTerms_bars _ hleaves rfl (by simp [Pending.finish, leafNode])
        ht'
      refine ⟨item, hitem, ?_⟩
      rw [List.length_cons, List.length_map, Nat.add_sub_cancel]
      exact congrArg (item :: ·) (List.drop_left' (by rw [List.length_map]))

/-! ## The resolution -/

section Resolution

variable {answers : ∀ q : Question, q.Answer} {registry : Registry} {activeTest : Bool}

/-- What a computation that asks returns is returned by its parts. -/
lemma run_bind_eq_ok {α β : Type} {x : Asking α} {f : α → Asking β} {b : β} {log : List Event}
    (h : (x >>= f).run answers = .ok (b, log)) :
    ∃ a log₁ log₂, x.run answers = .ok (a, log₁) ∧ (f a).run answers = .ok (b, log₂) := by
  rw [Asking.run_bind] at h
  simp only [bind_eq_ok, Except.ok.injEq, Prod.mk.injEq] at h
  obtain ⟨⟨a, log₁⟩, ha, ⟨b', log₂⟩, hb, rfl, rfl⟩ := h
  exact ⟨a, log₁, log₂, ha, hb⟩

lemma run_pure {α : Type} {a b : α} {log : List Event}
    (h : (pure a : Asking α).run answers = .ok (b, log)) : a = b :=
  (Prod.mk.inj (Except.ok.inj h)).1

lemma resolveLeaf_operand {model : Model} {op fname : String} {value : Json} {out : List Json}
    {log : List Event}
    (h : (resolveLeaf registry activeTest model op value fname).run answers = .ok (out, log)) :
    OneOperand out := by
  unfold resolveLeaf at h
  obtain ⟨target, _, _, -, h⟩ := run_bind_eq_ok h
  obtain ⟨raw, _, _, -, h⟩ := run_bind_eq_ok h
  obtain ⟨seeds, _, _, -, h⟩ := run_bind_eq_ok h
  obtain ⟨roots, _, _, -, h⟩ := run_bind_eq_ok h
  obtain ⟨link, _, _, -, h⟩ := run_bind_eq_ok h
  obtain ⟨_, _, _, -, h⟩ := run_bind_eq_ok h
  obtain ⟨walked, _, _, -, h⟩ := run_bind_eq_ok h
  rw [← run_pure h]
  exact walked.oneOperand _

lemma resolveDotted_operand {model : Model} {op : String} {value : Json} {path : List String}
    {out : List Json} {log : List Event}
    (h : (resolveDotted registry activeTest op value model path).run answers = .ok (out, log)) :
    OneOperand out := by
  match path with
  | [] => exact resolveLeaf_operand h
  | [fname] => exact resolveLeaf_operand h
  | head :: next :: rest =>
      unfold resolveDotted at h
      obtain ⟨norm, _, _, -, h⟩ := run_bind_eq_ok h
      obtain ⟨comodel, _, _, -, h⟩ := run_bind_eq_ok h
      obtain ⟨sub, _, _, -, h⟩ := run_bind_eq_ok h
      rw [← run_pure h]
      exact OneOperand.term _ _ _

/-- **An item is left as it is, or one operand takes the place of a leaf** that is no membership. -/
lemma resolveItem_cases {model : Model} {item : Json} {out : List Json} {log : List Event}
    (h : (resolveItem registry activeTest model item).run answers = .ok (out, log)) :
    out = [item] ∨ OneOperand out ∧
      ∃ fname op value, item = .array [.string fname, .string op, value] ∧ op ≠ "in" := by
  unfold resolveItem at h
  split at h
  · next fname op value =>
      split at h
      · next hop =>
          refine Or.inr ⟨?_, fname, op, value, rfl, ?_⟩
          · split at h
            · exact resolveLeaf_operand h
            · exact resolveDotted_operand h
          · rintro rfl
            exact absurd hop (by decide)
      · split at h
        · next hop =>
            refine Or.inr ⟨?_, fname, op, value, rfl, ?_⟩
            · obtain ⟨norm, _, _, -, h⟩ := run_bind_eq_ok h
              obtain ⟨comodel, _, _, -, h⟩ := run_bind_eq_ok h
              obtain ⟨sub, _, _, -, h⟩ := run_bind_eq_ok h
              rw [← run_pure h]
              exact OneOperand.term _ _ _
            · rintro rfl
              exact absurd hop.1 (by decide)
        · exact Or.inl (run_pure h).symm
  · exact Or.inl (run_pure h).symm

/-- **The resolved items are read to nodes that stand for those of the items.** -/
lemma parseTerms_stands {model : Model} : ∀ {items out : List Json} {log : List Event}
    {s t : List Item}, (resolveItems registry activeTest model items).run answers = .ok (out, log) →
      parseTerms items = .ok s → parseTerms out = .ok t → StacksStand s t
  | [], out, log, s, t, hrun, hs, ht => by
      obtain rfl := run_pure hrun
      obtain rfl := Except.ok.inj hs
      obtain rfl := Except.ok.inj ht
      exact .nil
  | item :: items, out, log, s, t, hrun, hs, ht => by
      unfold resolveItems at hrun
      obtain ⟨here, log₁, _, hitem, hrun⟩ := run_bind_eq_ok hrun
      obtain ⟨rest, log₂, _, hrest, hrun⟩ := run_bind_eq_ok hrun
      obtain rfl := run_pure hrun
      obtain ⟨s', hs', hterm⟩ := bind_eq_ok.mp hs
      obtain ⟨t', ht'⟩ := parseTerms_of_append ht
      have hstands := parseTerms_stands hrest hs' ht'
      rcases resolveItem_cases hitem with rfl | ⟨hone, fname, op, value, rfl, hop⟩
      · rw [List.singleton_append, parseTerms, ht'] at ht
        exact parseTerm_stands hstands hterm ht
      · obtain ⟨new, hnew, rfl⟩ := hone.parseTerms ht' ht
        obtain rfl := Except.ok.inj hterm
        refine .cons (.replaced ?_ hnew) hstands
        simp [isFalse, hop]

/-- **A domain that is false selects nothing when it is resolved.** -/
lemma unsatisfied_resolved {model : Model} {domain resolved : Json} {log : List Event}
    (hrun : (resolveHierarchy registry activeTest model domain).run answers = .ok (resolved, log))
    {n m : Node} (hn : parse domain = .ok n) (hfalse : isFalse n = true)
    (hm : parse resolved = .ok m) : Unsatisfied m := by
  unfold parse at hn
  split at hn
  · next items =>
      unfold resolveHierarchy at hrun
      obtain ⟨out, _, _, hout, hrun⟩ := run_bind_eq_ok hrun
      obtain rfl := run_pure hrun
      obtain ⟨s, hs, hn⟩ := bind_eq_ok.mp hn
      obtain ⟨t, ht, hm⟩ := bind_eq_ok.mp hm
      have hstands := parseTerms_stands hout hs ht
      cases hstands with
      | nil =>
          obtain rfl := Except.ok.inj hn
          cases hfalse
      | cons h hrest =>
          cases hrest with
          | nil =>
              obtain rfl := Except.ok.inj hn
              obtain rfl := Except.ok.inj hm
              exact h.unsatisfied hfalse
          | cons h' hrest =>
              obtain ⟨r, hr, hn⟩ := bind_eq_ok.mp hn
              obtain ⟨r', hr', hm⟩ := bind_eq_ok.mp hm
              obtain rfl := Except.ok.inj hn
              obtain rfl := Except.ok.inj hm
              exact (Stands.nary (.cons h (.cons h' hrest)) hr hr').unsatisfied hfalse
  · cases hn

end Resolution

/-! ## The search -/

namespace SearchRequest

variable {r : SearchRequest} {calls : ℕ} {answers : ∀ q : Question, q.Answer} {model : Model}

/-- What a search adds to the condition of its domain takes records away only. -/
lemma whereOf_holds {node : Node} {cond : Condition} (h : Yields (r.whereOf calls model node) cond)
    {db : Database} {env : Env} (hholds : cond.Holds db env) :
    ∃ found, Yields (Compiler.compile calls (r.compiler model) node) found ∧
      found.Holds db env := by
  obtain ⟨found, hfound, h⟩ := yields_bind.mp h
  obtain ⟨active, hactive, h⟩ := yields_bind.mp h
  refine ⟨found, hfound, ?_⟩
  have hfirst : (Condition.all.add found).conj = true := Condition.add_conj _ _
  have hactiveConj : active.conj = true ∧
      (active.Holds db env → (Condition.all.add found).Holds db env) := by
    unfold implicitActive at hactive
    split at hactive
    · obtain rfl := yields_pure.mp hactive
      exact ⟨hfirst, id⟩
    · split at hactive
      · obtain rfl := yields_pure.mp hactive
        exact ⟨hfirst, id⟩
      · obtain ⟨-, -, hactive⟩ := yields_bind.mp hactive
        obtain rfl := yields_pure.mp hactive
        exact ⟨hfirst, fun h => ((holds_addPredicate hfirst _).mp h).1⟩
  have hrules : cond.Holds db env → active.Holds db env := by
    unfold ruleCondition at h
    split at h
    · obtain rfl := yields_pure.mp h
      exact id
    · obtain ⟨-, -, h⟩ := yields_bind.mp h
      split at h
      · obtain rfl := yields_pure.mp h
        exact id
      · obtain ⟨rules, -, h⟩ := yields_bind.mp h
        obtain rfl := yields_pure.mp h
        exact fun h => ((holds_add_all _ _ hactiveConj.1).mp h).1
  exact ((holds_add_all _ _ Condition.conj_all).mp (hactiveConj.2 (hrules hholds))).2

/-- **A search that is answered without a statement finds nothing with one**: where the condition of
a search is compiled and its domain is false, the condition holds nowhere, and FALSE selects the
same records. -/
theorem isFalse_selects_nothing (hscalar : r.ctx.registry.ScalarFalsy)
    (hmodel : r.ctx.registry.get r.model = .ok model) {cond : Condition} {log : List Event}
    (hcond : (r.buildCondition calls model).run answers = .ok (cond, log)) {node : Node}
    (hnode : parse r.domain = .ok node) (hfalse : isFalse node = true) (db : Database) :
    (∀ env, ¬ cond.Holds db env) ∧ selected model.table cond.toPredicate db = [] ∧
      r.compileWhere calls answers = .ok { fragment := .const false, touched := [] } ∧
      selected model.table (.const false) db = [] := by
  have hnull : r.domain ≠ .null := by
    intro h
    rw [h] at hnode
    cases hnode
  have hjson : r.domainJson = r.domain := if_neg hnull
  have hbuild := hcond
  unfold buildCondition at hbuild
  rw [hjson] at hbuild
  obtain ⟨_, _, _, -, hbuild⟩ := run_bind_eq_ok hbuild
  obtain ⟨resolved, _, _, hresolved, hbuild⟩ := run_bind_eq_ok hbuild
  obtain ⟨m, _, _, hm, hbuild⟩ := run_bind_eq_ok hbuild
  have hparsed : parse resolved = .ok m := (ofResult_succeedsWith.mp hm).1
  have hun := unsatisfied_resolved hresolved hnode hfalse hparsed
  have hplain : (r.compiler model).Plain := ⟨hscalar r.model model hmodel, hscalar⟩
  have hnowhere : ∀ env, ¬ cond.Holds db env := by
    intro env hholds
    obtain ⟨found, hfound, hfinds⟩ := whereOf_holds ⟨_, hbuild⟩ hholds
    exact Compiler.compile_barren calls _ m hplain hun found hfound db env hfinds
  have hselected : ∀ p, (∀ env, ¬ Selects db env p) → selected model.table p db = [] := by
    intro p hp
    refine List.eq_nil_iff_forall_not_mem.mpr fun id hid => ?_
    simp only [selected, Select.rows, List.mem_filterMap, Option.ite_none_right_eq_some, evalAll_eq,
      isTrue_all, List.map_cons, List.map_nil, List.mem_singleton, forall_eq] at hid
    obtain ⟨row, -, hrow, -⟩ := hid
    exact hp _ hrow
  refine ⟨hnowhere, hselected _ hnowhere, ?_, hselected _ fun env => by simp⟩
  have hdomain : r.domainIsFalse = .ok true := by
    rw [domainIsFalse, if_neg hnull, hnode, ← hfalse]
    rfl
  unfold compileWhere
  rw [hmodel]
  show ((r.buildCondition calls model).run answers >>= _) = _
  rw [hcond]
  show (r.domainIsFalse >>= _) = _
  rw [hdomain]
  rfl

end SearchRequest

/-! ## A search for nobody -/

namespace Grouped

/-- The tasks whose name, or whose owner's, is one of none. -/
def nobody : SearchRequest :=
  { request with
    ctx := ExprCtx.plain registry (Security.plain [] []) none
    su := true
    domain := .array [.string "|", term "owner_id.name" "in" (.array []),
      term "name" "in" (.array [])] }

lemma scalarFalsy : registry.ScalarFalsy := by
  intro key m hm name f hf v hv
  have hmodel := Dict.mem_of_get? (orRefuse_eq_ok.mp hm)
  simp only [registry, plainRegistry, List.mem_cons, Prod.mk.injEq, List.not_mem_nil, or_false]
    at hmodel
  rcases hmodel with ⟨-, rfl⟩ | ⟨-, rfl⟩
  · have hfield := Dict.mem_of_get? hf
    simp only [task, plainModel, List.mem_cons, Prod.mk.injEq, List.not_mem_nil, or_false] at hfield
    rcases hfield with ⟨-, rfl⟩ | ⟨-, rfl⟩ | ⟨-, rfl⟩
    · cases hv
    · obtain rfl := Option.some.inj hv
      rfl
    · cases hv
  · have hfield := Dict.mem_of_get? hf
    simp only [owner, plainModel, List.mem_cons, Prod.mk.injEq, List.not_mem_nil, or_false] at hfield
    rcases hfield with ⟨-, rfl⟩ | ⟨-, rfl⟩
    · cases hv
    · obtain rfl := Option.some.inj hv
      rfl

/-- No statement is needed for it. -/
theorem nobody_found : ∃ cond log, (nobody.buildCondition 10 task).run answers = .ok (cond, log) ∧
    SearchRequest.selected "task" cond.toPredicate database = [] := by
  obtain ⟨⟨cond, log⟩, hcond⟩ : ∃ p, (nobody.buildCondition 10 task).run answers = .ok p := ⟨_, rfl⟩
  exact ⟨cond, log, hcond, (@SearchRequest.isFalse_selects_nothing nobody 10 answers task scalarFalsy
    rfl cond log hcond _ rfl rfl database).2.1⟩

end Grouped

end OdooKernel
