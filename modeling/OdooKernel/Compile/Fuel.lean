import OdooKernel.Compile.GroupJoin

/-!
# Enough nested calls

The compiler is a function of the number of nested calls it may make, and so is the negation.  The
source has no such number: it calls itself until it is done, and bounds the nesting of subqueries by
itself.  So what is said of the source is said with enough calls, and this module says that this
makes sense: a compilation that succeeds with some number of them succeeds with any larger one, and
returns the same.

* `ReturnsAll` — a computation returns whatever another one does.
* `negate_mono`, `compile_mono` — more nested calls change nothing.
* `Compiler.Compiles`, `Compiler.Negates` — the compiler and the negation, with enough calls; each
  has one result at most.
* `Compiles.node`, `Compiles.not_cases` — the shapes of a domain, without the number.
* `Compiler.Satisfies` — the rows that a domain selects.
-/

namespace OdooKernel

/-! ## Computations that return more -/

section ReturnsAll

variable {α β : Type}

/-- The second computation succeeds where the first one does, with the same value and record. -/
def ReturnsAll (x y : Compile α) : Prop := ∀ a log, x.succeedsWith a log → y.succeedsWith a log

@[refl] lemma ReturnsAll.refl (x : Compile α) : ReturnsAll x x := fun _ _ => id

lemma ReturnsAll.bind {x y : Compile α} {f g : α → Compile β} (hxy : ReturnsAll x y)
    (hfg : ∀ a, ReturnsAll (f a) (g a)) : ReturnsAll (x >>= f) (y >>= g) := by
  intro b log h
  rw [bind_succeedsWith] at h ⊢
  obtain ⟨a, log₁, log₂, hx, hf, hlog⟩ := h
  exact ⟨a, log₁, log₂, hxy a log₁ hx, hfg a b log₂ hf, hlog⟩

/-- The same first computation. -/
lemma ReturnsAll.then {x : Compile α} {f g : α → Compile β} (hfg : ∀ a, ReturnsAll (f a) (g a)) :
    ReturnsAll (x >>= f) (x >>= g) := (ReturnsAll.refl x).bind hfg

lemma ReturnsAll.map {x y : Compile α} (hxy : ReturnsAll x y) (f : α → β) :
    ReturnsAll (f <$> x) (f <$> y) := by
  rw [← bind_pure_comp, ← bind_pure_comp]
  exact hxy.bind fun a => ReturnsAll.refl _

lemma ReturnsAll.yields {x y : Compile α} (hxy : ReturnsAll x y) {a : α} : Yields x a → Yields y a := by
  rintro ⟨log, h⟩
  exact ⟨log, hxy a log h⟩

/-- What fails returns nothing. -/
lemma ReturnsAll.of_error {e : KernelError} {y : Compile α} :
    ReturnsAll (Compile.ofResult (.error e)) y := by
  intro a log h
  simp at h

lemma ReturnsAll.ofResult {x y : Result α} (h : ∀ a, x = .ok a → y = .ok a) :
    ReturnsAll (Compile.ofResult x) (Compile.ofResult y) := by
  intro a log
  simp only [ofResult_succeedsWith]
  rintro ⟨ha, rfl⟩
  exact ⟨h a ha, rfl⟩

end ReturnsAll

/-! ## The negation -/

namespace Compiler

section

variable {f g : Leaf → Result Node}

mutual
lemma negateWith_mono (h : ∀ l m, f l = .ok m → g l = .ok m) :
    ∀ n m, negateWith f n = .ok m → negateWith g n = .ok m
  | .True, _, hm => hm
  | .False, _, hm => hm
  | .Not _, _, hm => hm
  | .And children, m, hm => by
      simp only [negateWith, bind_eq_ok, pure_eq_ok] at hm ⊢
      obtain ⟨ms, hms, rfl⟩ := hm
      exact ⟨ms, negateAll_mono h children ms hms, rfl⟩
  | .Or children, m, hm => by
      simp only [negateWith, bind_eq_ok, pure_eq_ok] at hm ⊢
      obtain ⟨ms, hms, rfl⟩ := hm
      exact ⟨ms, negateAll_mono h children ms hms, rfl⟩
  | .Leaf l, m, hm => h l m hm

lemma negateAll_mono (h : ∀ l m, f l = .ok m → g l = .ok m) :
    ∀ ns ms, negateAll f ns = .ok ms → negateAll g ns = .ok ms
  | [], _, hm => hm
  | n :: ns, ms, hm => by
      simp only [negateAll, bind_eq_ok, pure_eq_ok] at hm ⊢
      obtain ⟨m, hn, ms', hns, rfl⟩ := hm
      exact ⟨m, negateWith_mono h n m hn, ms', negateAll_mono h ns ms' hns, rfl⟩
end

end

variable {registry : Registry}

lemma eachSearchesOne_mono {one one' : Model → Field → Result Bool}
    (h : ∀ m f b, one m f = .ok b → one' m f = .ok b) (owner : Model) (f : Field) :
    ∀ (steps : List String) (m : Model) (b : Bool), eachSearchesOne registry one owner f m steps = .ok b →
      eachSearchesOne registry one' owner f m steps = .ok b := by
  intro steps
  induction steps with
  | nil => exact fun _ _ h => h
  | cons step steps ih =>
      intro m b hb
      simp only [eachSearchesOne, bind_eq_ok] at hb ⊢
      obtain ⟨stepField, hstep, searches, hone, hb⟩ := hb
      refine ⟨stepField, hstep, searches, h m stepField searches hone, ?_⟩
      split at hb
      · split at hb
        · next hsearches hlast => simpa [hsearches, hlast] using hb
        · next hsearches hlast =>
            obtain ⟨name, hname, hb⟩ := bind_eq_ok.mp hb
            obtain ⟨next, hnext, hb⟩ := bind_eq_ok.mp hb
            rw [if_pos hsearches, if_neg hlast]
            exact bind_eq_ok.mpr ⟨name, hname, bind_eq_ok.mpr ⟨next, hnext, ih next b hb⟩⟩
      · next hsearches => simpa [hsearches] using hb

lemma searchesOneValue_mono : ∀ {fuel fuel' : ℕ}, fuel ≤ fuel' → ∀ (model : Model) (f : Field)
    (b : Bool), searchesOneValue registry fuel model f = .ok b →
      searchesOneValue registry fuel' model f = .ok b := by
  intro fuel
  induction fuel with
  | zero => intro fuel' _ model f b h; simp [searchesOneValue, outOfCalls] at h
  | succ fuel ih =>
      intro fuel' hle model f b h
      obtain ⟨fuel', rfl⟩ : ∃ k, fuel' = k + 1 := ⟨fuel' - 1, by omega⟩
      simp only [searchesOneValue] at h ⊢
      split at h
      · next hx2many => rwa [if_pos hx2many]
      · next hx2many =>
          rw [if_neg hx2many]
          split at h
          · next hstored => rwa [if_pos hstored]
          · next hstored =>
              rw [if_neg hstored]
              split at h
              · next hrelated => simpa [hrelated] using h
              · next rel hrelated =>
                  exact eachSearchesOne_mono (ih (by omega)) model f _ _ _ h

variable {c : Compiler}

lemma negatePlain_mono {fuel fuel' : ℕ} (hle : fuel ≤ fuel') (leaf : Leaf) (n : Node)
    (h : c.negatePlain fuel leaf = .ok n) : c.negatePlain fuel' leaf = .ok n := by
  unfold negatePlain at h ⊢
  split at h
  · exact h
  · exact h
  · next f _ _ =>
      simp only [bind_eq_ok] at h ⊢
      obtain ⟨keeps, hkeeps, h⟩ := h
      refine ⟨keeps, ?_, h⟩
      unfold keepsOrdering at hkeeps ⊢
      split at hkeeps
      · next hordering =>
          rw [if_pos hordering]
          obtain ⟨b, hb, hkeeps⟩ := map_eq_ok.mp hkeeps
          exact map_eq_ok.mpr ⟨b, searchesOneValue_mono hle _ _ _ hb, hkeeps⟩
      · next hordering => rwa [if_neg hordering]
  · exact h

/-- **More calls change no negation.** -/
lemma negate_mono : ∀ {fuel fuel' : ℕ}, fuel ≤ fuel' → ∀ (n m : Node),
    c.negate fuel n = .ok m → c.negate fuel' n = .ok m := by
  intro fuel
  induction fuel with
  | zero => intro fuel' _ n m h; simp [negate, outOfCalls] at h
  | succ fuel ih =>
      intro fuel' hle n m h
      obtain ⟨fuel', rfl⟩ : ∃ k, fuel' = k + 1 := ⟨fuel' - 1, by omega⟩
      refine negateWith_mono (fun l m hl => ?_) n m h
      simp only [negateLeaf, bind_eq_ok] at hl ⊢
      obtain ⟨rewritten, hrewritten, hl⟩ := hl
      refine ⟨rewritten, hrewritten, ?_⟩
      split at hl
      · exact ih (by omega) _ _ hl
      · split at hl
        · exact hl
        · exact negatePlain_mono (by omega) l m hl

/-! ## The compiler -/

section Again

variable {again again' : Compiler → Node → Compile Condition}
  (h : ∀ c n, ReturnsAll (again c n) (again' c n))

include h

lemma compileRules_mono (node : Node) :
    ReturnsAll (c.compileRules again node) (c.compileRules again' node) :=
  ReturnsAll.then fun _ => h _ _

lemma ownDomainCond_mono (field : Field) :
    ReturnsAll (c.ownDomainCond again field) (c.ownDomainCond again' field) := by
  unfold ownDomainCond
  split
  · rfl
  · exact ReturnsAll.then fun n => (h _ n).bind fun _ => ReturnsAll.refl _

lemma fieldDomainCond_mono (field : Field) (co owner : Model) :
    ReturnsAll (c.fieldDomainCond again field co owner) (c.fieldDomainCond again' field co owner) := by
  unfold fieldDomainCond
  split
  · rfl
  · split
    · rfl
    · exact (ownDomainCond_mono h field).bind fun _ => ReturnsAll.refl _

lemma restricted_mono (co : Model) (bypassAccess : Option Bool) (sub : Compiler) (cond : Condition) :
    ReturnsAll (c.restricted again co bypassAccess sub cond)
      (c.restricted again' co bypassAccess sub cond) := by
  refine ReturnsAll.then fun rules => ?_
  cases rules with
  | none => rfl
  | some node => exact (compileRules_mono h node).bind fun _ => ReturnsAll.refl _

lemma m2oAny_mono (field : Field) (subNode : Node) (positive : Bool) (bypassAccess : Option Bool) :
    ReturnsAll (c.m2oAny again field subNode positive bypassAccess)
      (c.m2oAny again' field subNode positive bypassAccess) := by
  refine ReturnsAll.then fun _ => ReturnsAll.then fun co => (h _ _).bind fun _ => ?_
  exact (restricted_mono h co bypassAccess _ _).bind fun _ => ReturnsAll.refl _

lemma addSubNode_mono (field : Field) (co : Model) (applyActive : Bool) (cond : Condition)
    (subNode : Option Node) :
    ReturnsAll (c.addSubNode again field co applyActive cond subNode)
      (c.addSubNode again' field co applyActive cond subNode) := by
  cases subNode with
  | none => rfl
  | some node => exact (h _ _).bind fun _ => ReturnsAll.refl _

lemma x2manyCond_mono (field : Field) (co : Model) (sub : Compiler) (subNode : Option Node)
    (applyActive : Bool) (bypassAccess : Option Bool) :
    ReturnsAll (c.x2manyCond again field co sub subNode applyActive bypassAccess)
      (c.x2manyCond again' field co sub subNode applyActive bypassAccess) :=
  (fieldDomainCond_mono h field co c.model).bind fun _ =>
    (addSubNode_mono h field co applyActive _ subNode).bind fun _ => restricted_mono h _ _ _ _

lemma x2manySubselect_mono (field : Field) (subNode : Option Node)
    (positive applyActive bypasses : Bool) (bypassAccess : Option Bool) :
    ReturnsAll (c.x2manySubselect again field subNode positive applyActive bypasses bypassAccess)
      (c.x2manySubselect again' field subNode positive applyActive bypasses bypassAccess) :=
  ReturnsAll.then fun _ => ReturnsAll.then fun _ =>
    (x2manyCond_mono h _ _ _ _ _ _).bind fun _ => ReturnsAll.refl _

lemma x2manyMembers_mono (field : Field) (op : String) (value : Json) :
    ReturnsAll (c.x2manyMembers again field op value) (c.x2manyMembers again' field op value) := by
  refine ReturnsAll.then fun _ => ReturnsAll.bind ?_ fun _ => ReturnsAll.bind ?_ fun _ => ReturnsAll.refl _
  · unfold holdsOneOf
    split
    · rfl
    · exact (x2manySubselect_mono h _ _ _ _ _ _).map _
  · unfold holdsNone
    split
    · exact (x2manySubselect_mono h _ _ _ _ _ _).map _
    · rfl

lemma x2manyCondition_mono (field : Field) (leaf : Leaf) :
    ReturnsAll (c.x2manyCondition again field leaf) (c.x2manyCondition again' field leaf) := by
  unfold x2manyCondition
  split
  · exact ReturnsAll.then fun _ => ReturnsAll.then fun _ => x2manySubselect_mono h _ _ _ _ _ _
  · split
    · exact x2manyMembers_mono h _ _ _
    · split
      · exact (x2manyMembers_mono h _ _ _).map _
      · rfl

lemma fragmentCondition_mono (leaf : Leaf) :
    ReturnsAll (c.fragmentCondition again leaf) (c.fragmentCondition again' leaf) := by
  refine ReturnsAll.then fun positive => ?_
  dsimp only
  split
  · refine ReturnsAll.then fun _ => ReturnsAll.then fun field => ReturnsAll.then fun select => ?_
    split
    · split
      · rfl
      · exact x2manySubselect_mono h _ _ _ _ _ _
    · rfl
  · rfl

lemma dotted_mono (path : List String) (op : String) (value : Json) :
    ReturnsAll (c.dotted again path op value) (c.dotted again' path op value) := by
  refine ReturnsAll.then fun head => ?_
  dsimp only
  split
  · exact m2oAny_mono h _ _ _ _
  · exact x2manySubselect_mono h _ _ _ _ _ _
  · exact x2manySubselect_mono h _ _ _ _ _ _
  · rfl

lemma relatedSearch_mono (f : Field) (rel op : String) (value : Json) :
    ReturnsAll (c.relatedSearch again f rel op value) (c.relatedSearch again' f rel op value) := by
  refine ReturnsAll.then fun hops => ReturnsAll.then fun flags => ?_
  dsimp only
  split
  · exact ReturnsAll.then fun _ => (h _ _).bind fun _ => ReturnsAll.refl _
  · exact ReturnsAll.then fun _ => (h _ _).bind fun _ => ReturnsAll.refl _

lemma displayNameCondition_mono (op : String) (value : Json) :
    ReturnsAll (c.displayNameCondition again op value) (c.displayNameCondition again' op value) := by
  unfold displayNameCondition
  split
  · rfl
  · exact ReturnsAll.then fun _ => (h _ _).bind fun _ => ReturnsAll.refl _

lemma m2oNameSearch_mono (field : Field) (op : String) (value : Json) :
    ReturnsAll (c.m2oNameSearch again field op value) (c.m2oNameSearch again' field op value) :=
  ReturnsAll.then fun _ => ReturnsAll.then fun _ => ReturnsAll.then fun _ => m2oAny_mono h _ _ _ _

lemma fieldCondition_mono (field : Field) (leaf : Leaf) :
    ReturnsAll (c.fieldCondition again field leaf) (c.fieldCondition again' field leaf) := by
  unfold fieldCondition
  dsimp only
  split
  · rfl
  split
  · rfl
  split
  · rfl
  split
  · exact m2oNameSearch_mono h _ _ _
  split
  · rfl
  split
  · exact x2manyCondition_mono h _ _
  split
  · exact ReturnsAll.then fun _ => ReturnsAll.then fun _ => m2oAny_mono h _ _ _ _
  · rfl

lemma plainLeaf_mono (leaf : Leaf) :
    ReturnsAll (c.plainLeaf again leaf) (c.plainLeaf again' leaf) := by
  unfold plainLeaf
  dsimp only
  split
  · exact displayNameCondition_mono h _ _
  · refine ReturnsAll.then fun _ => ?_
    split
    · exact relatedSearch_mono h _ _ _ _
    · refine ReturnsAll.then fun path => ?_
      split
      · exact ReturnsAll.then fun _ => fieldCondition_mono h _ _
      · exact dotted_mono h _ _ _

lemma compileLeaf_mono (leaf : Leaf) :
    ReturnsAll (c.compileLeaf again leaf) (c.compileLeaf again' leaf) := by
  unfold compileLeaf
  split
  · exact fragmentCondition_mono h _
  · refine ReturnsAll.then fun rewritten => ?_
    cases rewritten with
    | none => exact plainLeaf_mono h _
    | some n => exact (h _ _).bind fun _ => ReturnsAll.refl _

lemma compileAll_mono : ∀ (children : List Node) (cond : Condition),
    ReturnsAll (c.compileAll again cond children) (c.compileAll again' cond children)
  | [], _ => ReturnsAll.refl _
  | _ :: ns, _ => (h _ _).bind fun _ => compileAll_mono ns _

lemma compileNode_mono {fuel fuel' : ℕ} (hle : fuel ≤ fuel') (n : Node) :
    ReturnsAll (c.compileNode again fuel n) (c.compileNode again' fuel' n) := by
  unfold compileNode
  split
  · rfl
  · cases n with
    | True => rfl
    | False => rfl
    | And children => exact compileAll_mono h _ _
    | Or children => exact compileAll_mono h _ _
    | Leaf leaf => exact (compileLeaf_mono h _).bind fun _ => ReturnsAll.refl _
    | Not child =>
        refine ReturnsAll.bind (ReturnsAll.ofResult fun m hm => negate_mono hle _ _ hm) fun m => ?_
        split
        · exact (h _ _).bind fun _ => ReturnsAll.refl _
        · exact h _ _

end Again

end Compiler

/-- **More calls change no compilation.** -/
lemma compile_mono : ∀ {fuel fuel' : ℕ}, fuel ≤ fuel' → ∀ (c : Compiler) (n : Node),
    ReturnsAll (Compiler.compile fuel c n) (Compiler.compile fuel' c n) := by
  intro fuel
  induction fuel with
  | zero => exact fun _ c n => ReturnsAll.of_error
  | succ fuel ih =>
      intro fuel' hle c n
      obtain ⟨fuel', rfl⟩ : ∃ k, fuel' = k + 1 := ⟨fuel' - 1, by omega⟩
      exact Compiler.compileNode_mono (ih (by omega)) (by omega) n

namespace Compiler

variable {c : Compiler}

/-- A domain is compiled to a condition. -/
def Compiles (c : Compiler) (n : Node) (cond : Condition) : Prop :=
  ∃ fuel, Yields (compile fuel c n) cond

/-- A domain is negated to another. -/
def Negates (c : Compiler) (n m : Node) : Prop := ∃ fuel, c.negate fuel n = .ok m

/-- A domain is compiled to one condition only. -/
lemma Compiles.unique {n : Node} {p q : Condition} (hp : c.Compiles n p) (hq : c.Compiles n q) :
    p = q := by
  obtain ⟨fuel, hp⟩ := hp
  obtain ⟨fuel', hq⟩ := hq
  exact ((compile_mono (le_max_left fuel fuel') c n).yields hp).unique
    ((compile_mono (le_max_right fuel fuel') c n).yields hq)

/-- A domain is negated to one domain only. -/
lemma Negates.unique {n m m' : Node} (hm : c.Negates n m) (hm' : c.Negates n m') : m = m' := by
  obtain ⟨fuel, hm⟩ := hm
  obtain ⟨fuel', hm'⟩ := hm'
  have h := negate_mono (le_max_left fuel fuel') n m hm
  rw [negate_mono (le_max_right fuel fuel') n m' hm'] at h
  exact (Except.ok.inj h).symm

/-- A domain that is compiled with some calls is compiled as one of its shapes. -/
lemma Compiles.node {n : Node} {cond : Condition} (h : c.Compiles n cond) :
    c.depth ≤ maxDepth ∧ ∃ fuel, Yields (c.compileNode (compile fuel) fuel n) cond := by
  obtain ⟨fuel, h⟩ := h
  obtain _ | fuel := fuel
  · simp [compile, outOfCalls] at h
  · refine ⟨?_, fuel, h⟩
    by_contra hdepth
    unfold compile compileNode at h
    rw [if_pos (by omega)] at h
    simp at h

/-- **How a negation is compiled**: what is kept is the complement, the rest is pushed down. -/
lemma Compiles.not_cases {n : Node} {cond : Condition} (h : c.Compiles (.Not n) cond) :
    (∃ kept k, c.Negates n (.Not kept) ∧ c.Compiles kept k ∧
      cond = Condition.all.addPredicate (.isNotTrue k.toPredicate)) ∨
    (∃ m, c.Negates n m ∧ (∀ kept, m ≠ .Not kept) ∧ c.Compiles m cond) := by
  obtain ⟨hdepth, fuel, h⟩ := h.node
  unfold compileNode at h
  rw [if_neg (by omega)] at h
  simp only [liftM_eq_ofResult, yields_bind, yields_ofResult] at h
  obtain ⟨m, hm, h⟩ := h
  split at h
  · next kept =>
      simp only [yields_bind, yields_pure] at h
      obtain ⟨k, hk, rfl⟩ := h
      exact .inl ⟨kept, k, ⟨fuel, hm⟩, ⟨fuel, hk⟩, rfl⟩
  · next hkept => exact .inr ⟨m, ⟨fuel, hm⟩, hkept, fuel, h⟩

/-- The row that an environment stands for satisfies a domain. -/
def Satisfies (c : Compiler) (n : Node) (db : Database) (env : Env) : Prop :=
  ∃ cond, c.Compiles n cond ∧ cond.Holds db env

lemma satisfies_iff {n : Node} {cond : Condition} (h : c.Compiles n cond) {db : Database}
    {env : Env} : c.Satisfies n db env ↔ cond.Holds db env := by
  constructor
  · rintro ⟨cond', h', hholds⟩
    rwa [h.unique h']
  · exact fun hholds => ⟨cond, h, hholds⟩

end Compiler

end OdooKernel
