import OdooKernel.Search.Records
import OdooKernel.Search.Shape

/-!
# The reading methods agree

The records that a search reads, those that it counts and those of its groups are the same, and the
groups have keys of their own, but for the doubles that are no number: JSON has one form for them.

**Cells of keys.**  The server groups by values, and what is answered are cells.  Two keys have one
cell exactly where they are alike (`Alike`, `keyCell_eq_iff`), and labels tell apart what they are
put on (`TellsApart`, `labelAllKeys_rendered`), so that the answers of two groups have one key
exactly where the keys are alike.

**Adding up.**  Where a count is among the aggregates, the counts of the groups add up to the count
of the search: the rows that are grouped are the records (`Search/Partition`), and each is in one
group.

* `GroupStatement.KeysApart` — no two records have keys that JSON does not tell apart.
* `Agreement` — the groups have keys of their own, a record each, and add up to a count.
* **`reads_agree_iff`** — the methods agree exactly where the keys are told apart.
* `nan_keys_agree` — two groups with one key.
-/

namespace OdooKernel

/-- Two values that are the same in JSON. -/
def Alike (d d' : Option Datum) : Prop := d = d' ∨ Confused d d'

/-- No two records have keys that differ, but only in doubles that are no number. -/
def GroupStatement.KeysApart (s : GroupStatement) (engine : Engine) (db : Database) : Prop :=
  ∀ env ∈ s.envs db, ∀ env' ∈ s.envs db,
    (∀ e ∈ s.keyExprs, Alike (e.eval engine db env) (e.eval engine db env')) →
      s.keyOf engine db env = s.keyOf engine db env'

namespace GroupRequest

variable {r : GroupRequest} {calls : ℕ} {model : Model} {engine : Engine} {db : Database}

/-! ## Keys -/

/-- The cell of a key. -/
def KeyCell (r : GroupRequest) (engine : Engine) (db : Database) (env : Env) (p : GbSpec × GroupExpr)
    (cell : Json) : Prop :=
  ∃ kind, r.keyKind p.1 = .ok kind ∧ decodeGroup kind (p.2.eval engine db env) = .ok cell

/-- A key that is a spec's. -/
structure SpecKey (r : GroupRequest) (model : Model) (p : GbSpec × GroupExpr) : Prop where
  single : p.1.SingleValued
  keyFor : r.KeyFor model p.1 p.2

/-- The kind of a stored field that is no JSON. -/
lemma keyKind_cases {gb : GbSpec} (hgb : gb.SingleValued) {kind : ColKind}
    (h : r.keyKind gb = .ok kind) :
    kind ≠ .JsonRaw ∧ (kind = .Bool → gb.granularity = none ∧ gb.field.ttype = .Boolean) := by
  unfold keyKind at h
  split at h
  · obtain rfl := Except.ok.inj h
    split_ifs <;> simp
  · next hgran =>
      rw [if_neg hgb.single] at h
      simp only [ExprCtx.finalField, hgb.hasColumn, Bool.true_or, if_true, bind_eq_ok,
        Except.ok.injEq] at h
      obtain ⟨field, rfl, hkind⟩ := h
      obtain ⟨hjson, hboolean⟩ := ttype_of_colKind hkind
      exact ⟨fun hkind => hgb.scalar (hjson hkind), fun hkind => ⟨hgran, hboolean hkind⟩⟩

/-- A boolean is grouped with its NULL counted as false. -/
lemma eval_ne_none {p : GbSpec × GroupExpr} (hp : r.SpecKey model p)
    (hgran : p.1.granularity = none) (hboolean : p.1.field.ttype = .Boolean) (env : Env) :
    p.2.eval engine db env ≠ none := by
  obtain ⟨base, hkey⟩ := hp.keyFor
  simp only [keyExpr, hgran, hboolean, reduceCtorEq, or_self, if_false, if_true, FieldType.isText,
    Bool.false_eq_true, Except.ok.injEq] at hkey
  rw [← hkey, GroupExpr.eval, coalesce]
  cases base.eval db env <;> simp

/-- **The cells of two keys are one** exactly where the keys are alike. -/
lemma keyCell_eq_iff {p : GbSpec × GroupExpr} (hp : r.SpecKey model p) {env env' : Env}
    {cell cell' : Json} (h : r.KeyCell engine db env p cell) (h' : r.KeyCell engine db env' p cell') :
    cell = cell' ↔ Alike (p.2.eval engine db env) (p.2.eval engine db env') := by
  obtain ⟨kind, hkind, hcell⟩ := h
  obtain ⟨kind', hkind', hcell'⟩ := h'
  obtain rfl := Except.ok.inj (hkind.symm.trans hkind')
  obtain ⟨hjson, hbool⟩ := keyKind_cases hp.single hkind
  have hkey := keyOf_decodeGroup hjson hcell
  have hkey' := keyOf_decodeGroup hjson hcell'
  constructor
  · rintro rfl
    refine hkey.inj hkey' fun hkind => ?_
    obtain ⟨hgran, hboolean⟩ := hbool hkind
    exact ⟨eval_ne_none hp hgran hboolean env, eval_ne_none hp hgran hboolean env'⟩
  · rintro (heq | hconfused)
    · rw [heq] at hcell
      exact Except.ok.inj (hcell.symm.trans hcell')
    · have hsame := hkey.of_confused hconfused
      obtain ⟨x, x', hx, hx'⟩ := hconfused
      rw [hx'] at hkey' hsame
      cases hkey'
      cases hsame
      rfl

/-- No cell of a key is an array. -/
lemma not_isArray_of_keyCell {p : GbSpec × GroupExpr} (hp : r.SpecKey model p) {env : Env}
    {cell : Json} (h : r.KeyCell engine db env p cell) : cell.isArray = false := by
  obtain ⟨kind, hkind, hcell⟩ := h
  exact (keyOf_decodeGroup (keyKind_cases hp.single hkind).1 hcell).not_isArray

/-! ## Labels -/

/-- A rendering that tells apart what is no array. -/
def TellsApart (f : Json → Result Json) : Prop :=
  ∀ a b c, a.isArray = false → b.isArray = false → f a = .ok c → f b = .ok c → a = b

/-- What a label is put on: a record's id becomes an array that begins with it. -/
lemma labelKey_eq_ok {gb : GbSpec} {comodel : String} {pureLabels : Bool} {names : Dict ℤ Json}
    {cell c : Json} (h : r.labelKey model gb comodel pureLabels names cell = .ok c) :
    (cell.asI64 = none ∧ c = cell) ∨
      ∃ id name, cell.asI64 = some id ∧ c = .array [.int id, name] := by
  unfold labelKey at h
  split at h
  · next hcell => exact .inl ⟨hcell, (Except.ok.inj h).symm⟩
  · next id hcell =>
      split at h
      · next name _ => exact .inr ⟨id, name, hcell, (Except.ok.inj h).symm⟩
      · split at h
        · exact .inr ⟨id, _, hcell, (Except.ok.inj h).symm⟩
        · simp at h

lemma eq_int_of_asI64 {cell : Json} {id : ℤ} (h : cell.asI64 = some id) : cell = .int id := by
  cases cell with
  | number n =>
      cases n with
      | int m =>
          simp only [Json.asI64, Number.asI64, Option.ite_none_right_eq_some, Option.some.injEq] at h
          rw [← h.2]
          rfl
      | float q => simp [Json.asI64, Number.asI64] at h
  | _ => simp [Json.asI64] at h

/-- **A label tells apart what it is put on.** -/
lemma labelKey_tellsApart (gb : GbSpec) (comodel : String) (pureLabels : Bool) (names : Dict ℤ Json) :
    TellsApart (r.labelKey model gb comodel pureLabels names) := by
  intro a b c ha hb hac hbc
  rcases labelKey_eq_ok hac with ⟨-, rfl⟩ | ⟨id, name, hid, rfl⟩
  · rcases labelKey_eq_ok hbc with ⟨-, rfl⟩ | ⟨id, name, -, rfl⟩
    · rfl
    · simp [Json.isArray, Json.asArray] at ha
  · rcases labelKey_eq_ok hbc with ⟨-, rfl⟩ | ⟨id', name', hid', heq⟩
    · simp [Json.isArray, Json.asArray] at hb
    · obtain ⟨hint, -⟩ := List.cons.inj (Json.array.inj heq)
      obtain rfl := Number.int.inj (Json.number.inj hint)
      rw [eq_int_of_asI64 hid, eq_int_of_asI64 hid']

/-- What stands at some places is rendered, one place after the other. -/
def modifyCells : List (Json → Result Json) → ℕ → List Json → Result (List Json)
  | [], _, cells => .ok cells
  | f :: fs, i, cells => do modifyCells fs (i + 1) (← modifyCell f i cells)

lemma modifyCell_eq_ok {f : Json → Result Json} : ∀ {start rest out : List Json} {cell : Json},
    modifyCell f start.length (start ++ cell :: rest) = .ok out →
      ∃ c, f cell = .ok c ∧ out = start ++ c :: rest
  | [], rest, out, cell, h => by
      simp only [List.length_nil, List.nil_append, modifyCell, bind_eq_ok, pure_eq_ok] at h
      obtain ⟨c, hc, rfl⟩ := h
      exact ⟨c, hc, rfl⟩
  | first :: start, rest, out, cell, h => by
      simp only [List.length_cons, List.cons_append, modifyCell, bind_eq_ok, pure_eq_ok] at h
      obtain ⟨out', hout, rfl⟩ := h
      obtain ⟨c, hc, rfl⟩ := modifyCell_eq_ok hout
      exact ⟨c, hc, rfl⟩

/-- **Each cell is rendered by its own rendering.** -/
lemma modifyCells_eq_ok : ∀ {fs : List (Json → Result Json)} {start cells rest out : List Json},
    cells.length = fs.length → modifyCells fs start.length (start ++ cells ++ rest) = .ok out →
      ∃ rendered, List.Forall₂ (fun (p : (Json → Result Json) × Json) c => p.1 p.2 = .ok c)
        (fs.zip cells) rendered ∧ out = start ++ rendered ++ rest
  | [], start, cells, rest, out, hlength, h => by
      obtain rfl := List.length_eq_zero_iff.mp hlength
      refine ⟨[], .nil, ?_⟩
      rw [← Except.ok.inj h]
  | f :: fs, start, [], rest, out, hlength, h => by simp at hlength
  | f :: fs, start, cell :: cells, rest, out, hlength, h => by
      simp only [modifyCells, bind_eq_ok, List.append_assoc, List.cons_append] at h
      obtain ⟨first, hfirst, h⟩ := h
      obtain ⟨c, hc, rfl⟩ := modifyCell_eq_ok hfirst
      have hstart : start ++ c :: (cells ++ rest) = (start ++ [c]) ++ cells ++ rest := by simp
      have hplace : start.length + 1 = (start ++ [c]).length := by simp
      rw [hstart, hplace] at h
      obtain ⟨rendered, hrendered, rfl⟩ := modifyCells_eq_ok (by simpa using hlength) h
      exact ⟨c :: rendered, .cons hc hrendered, by simp⟩

lemma modifyCell_ok : ∀ (i : ℕ) (cells : List Json), modifyCell .ok i cells = .ok cells
  | _, [] => by rw [modifyCell]
  | 0, cell :: cells => rfl
  | i + 1, cell :: cells => by
      rw [modifyCell, modifyCell_ok i cells]
      rfl

/-- A cell as it is. -/
lemma tellsApart_ok : TellsApart .ok := by
  intro a b c _ _ ha hb
  rw [Except.ok.inj ha, Except.ok.inj hb]

lemma labelKeys_rendered {gb : GbSpec} {i : ℕ} {groups groups' : List (List Json)}
    (h : (r.labelKeys calls model gb i groups).Returns engine db groups') :
    ∃ f, TellsApart f ∧ groups.mapM (modifyCell f i) = .ok groups' := by
  unfold labelKeys at h
  split at h
  · obtain rfl := Reading.returns_pure.mp h
    refine ⟨.ok, tellsApart_ok, mapM_eq_ok.mpr (List.forall₂_same.mpr fun group _ => ?_)⟩
    exact modifyCell_ok i group
  · simp only [Reading.liftM_result, Reading.returns_bind, Reading.returns_ofResult] at h
    obtain ⟨comodel, -, co, -, h⟩ := h
    split at h
    · simp at h
    · simp only [Reading.returns_bind, Reading.returns_ofResult] at h
      obtain ⟨names, -, h⟩ := h
      exact ⟨_, labelKey_tellsApart gb comodel co.labelsPure names, h⟩

/-- **The labels of the keys** are put on by renderings that tell them apart. -/
lemma labelAllKeys_rendered : ∀ {gbs : List GbSpec} {i : ℕ} {groups groups' : List (List Json)},
    (r.labelAllKeys calls model i gbs groups).Returns engine db groups' →
    ∃ fs : List (Json → Result Json), fs.length = gbs.length ∧ (∀ f ∈ fs, TellsApart f) ∧
      groups.mapM (modifyCells fs i) = .ok groups'
  | [], i, groups, groups', h => by
      obtain rfl := Reading.returns_pure.mp h
      refine ⟨[], rfl, fun _ h => absurd h List.not_mem_nil, mapM_eq_ok.mpr ?_⟩
      exact List.forall₂_same.mpr fun _ _ => rfl
  | gb :: gbs, i, groups, groups', h => by
      simp only [labelAllKeys, Reading.returns_bind] at h
      obtain ⟨first, hfirst, h⟩ := h
      obtain ⟨f, hf, hmap⟩ := labelKeys_rendered hfirst
      obtain ⟨fs, hlength, hfs, hrest⟩ := labelAllKeys_rendered h
      refine ⟨f :: fs, by rw [List.length_cons, List.length_cons, hlength],
        List.forall_mem_cons.mpr ⟨hf, hfs⟩, ?_⟩
      exact mapM_bind_eq_ok hmap hrest

/-- Keys without labels are left as they are. -/
lemma mapM_modifyCells_ok (n i : ℕ) (groups : List (List Json)) :
    groups.mapM (modifyCells (List.replicate n .ok) i) = .ok groups := by
  refine mapM_eq_ok.mpr (List.forall₂_same.mpr fun group _ => ?_)
  induction n generalizing i with
  | zero => rfl
  | succ n ih =>
      rw [List.replicate_succ, modifyCells, modifyCell_ok]
      exact ih (i + 1)

/-! ## Rows -/

/-- The cells of the keys of a row, and what stands after them. -/
lemma decodeKeys_eq_ok {group : List Env} {env : Env} (henv : group.head? = some env) :
    ∀ {gbs : List GbSpec} {keys : List GroupExpr} {rest : List AggValue}
      {out : List Json × List AggValue}, gbs.length = keys.length →
    r.decodeKeys gbs (keys.map (fun e => GroupColumn.eval engine db (.key e) group) ++ rest) = .ok out →
    List.Forall₂ (r.KeyCell engine db env) (gbs.zip keys) out.1 ∧ out.2 = rest
  | [], [], rest, out, _, h => by
      obtain rfl := Except.ok.inj h
      exact ⟨.nil, rfl⟩
  | gb :: gbs, key :: keys, rest, out, hlength, h => by
      simp only [List.map_cons, List.cons_append, GroupColumn.eval, henv, Option.bind_some, decodeKeys,
        bind_eq_ok, pure_eq_ok] at h
      obtain ⟨kind, hkind, cell, hcell, ⟨cells, last⟩, hcells, rfl⟩ := h
      have hrest : gbs.length = keys.length := by simpa using hlength
      have hmap : (keys.map fun e => AggValue.one (e.eval engine db env))
          = keys.map fun e => GroupColumn.eval engine db (.key e) group := by
        simp only [GroupColumn.eval, henv, Option.bind_some]
      rw [hmap] at hcells
      obtain ⟨hall, hlast⟩ := decodeKeys_eq_ok henv hrest hcells
      exact ⟨.cons ⟨kind, hkind, hcell⟩ hall, hlast⟩

lemma decodeAggregates_eq_ok {group : List Env} :
    ∀ {aggs : List (AggExpr × AggKind)} {rest : List AggValue} {cells : List Json},
    decodeAggregates (aggs.map (·.2)) (aggs.map (fun agg => agg.1.eval engine db group) ++ rest)
      = .ok cells →
    List.Forall₂ (fun agg cell => decodeAggregate agg.2 (agg.1.eval engine db group) = .ok cell) aggs
      cells
  | [], rest, cells, h => by
      obtain rfl := Except.ok.inj h
      exact .nil
  | agg :: aggs, rest, cells, h => by
      simp only [List.map_cons, List.cons_append, decodeAggregates, bind_eq_ok, pure_eq_ok] at h
      obtain ⟨cell, hcell, later, hlater, rfl⟩ := h
      exact .cons hcell (decodeAggregates_eq_ok hlater)

/-! ## Groups -/

/-- Two rows of keys are rendered alike only where they are the same. -/
lemma rendered_eq_iff : ∀ {fs : List (Json → Result Json)} {cells cells' out out' : List Json},
    (∀ f ∈ fs, TellsApart f) → cells.length = fs.length → cells'.length = fs.length →
    (∀ cell ∈ cells, cell.isArray = false) → (∀ cell ∈ cells', cell.isArray = false) →
    List.Forall₂ (fun (p : (Json → Result Json) × Json) c => p.1 p.2 = .ok c) (fs.zip cells) out →
    List.Forall₂ (fun (p : (Json → Result Json) × Json) c => p.1 p.2 = .ok c) (fs.zip cells') out' →
    (out = out' ↔ cells = cells')
  | [], [], [], out, out', _, _, _, _, _, h, h' => by
      cases h
      cases h'
      simp
  | f :: fs, cell :: cells, cell' :: cells', out, out', hfs, hlength, hlength', hcells, hcells', h, h' => by
      obtain ⟨hf, hfs⟩ := List.forall_mem_cons.mp hfs
      obtain ⟨hcell, hcells⟩ := List.forall_mem_cons.mp hcells
      obtain ⟨hcell', hcells'⟩ := List.forall_mem_cons.mp hcells'
      cases h with
      | cons hfirst hrest =>
          cases h' with
          | cons hfirst' hrest' =>
              have ih := rendered_eq_iff hfs (by simpa using hlength) (by simpa using hlength') hcells
                hcells' hrest hrest'
              rw [List.cons.injEq, List.cons.injEq, ih]
              refine and_congr_left fun _ => ⟨?_, ?_⟩
              · rintro rfl
                exact hf _ _ _ hcell hcell' hfirst hfirst'
              · rintro rfl
                exact Except.ok.inj (hfirst.symm.trans hfirst')

/-- **The cells of the keys of two rows are the same** exactly where the keys are alike. -/
lemma keyCells_eq_iff {env env' : Env} {ps : List (GbSpec × GroupExpr)} {cells cells' : List Json}
    (hps : ∀ p ∈ ps, r.SpecKey model p) (h : List.Forall₂ (r.KeyCell engine db env) ps cells)
    (h' : List.Forall₂ (r.KeyCell engine db env') ps cells') :
    cells = cells' ↔ ∀ p ∈ ps, Alike (p.2.eval engine db env) (p.2.eval engine db env') := by
  induction h generalizing cells' with
  | nil =>
      cases h'
      simp
  | cons hfirst hrest ih =>
      cases h' with
      | cons hfirst' hrest' =>
          obtain ⟨hp, hps⟩ := List.forall_mem_cons.mp hps
          rw [List.cons.injEq, ih hps hrest', List.forall_mem_cons, keyCell_eq_iff hp hfirst hfirst']

/-- What is answered for a group. -/
def answerOf (r : GroupRequest) (engine : Engine) (db : Database) (plan : Plan)
    (fs : List (Json → Result Json)) (group : List Env) : Result (List Json) :=
  r.decodeGroupRow plan.specs plan.kinds (plan.statement.row engine db group) >>= modifyCells fs 0

lemma aggregatesOf_getElem? : ∀ {names : List String} {aggs : List (AggExpr × AggKind)},
    Yields (r.aggregatesOf calls model names) aggs → ∀ {j : ℕ}, names[j]? = some "__count" →
      aggs[j]? = some (.countAll, .Count)
  | [], aggs, h, j, hj => by simp at hj
  | name :: names, aggs, h, j, hj => by
      simp only [aggregatesOf, yields_bind, yields_pure] at h
      obtain ⟨first, hfirst, rest, hrest, rfl⟩ := h
      cases j with
      | zero =>
          obtain rfl := Option.some.inj hj
          rw [aggregateOf, if_pos rfl, yields_pure] at hfirst
          rw [List.getElem?_cons_zero, ← hfirst]
      | succ j => exact aggregatesOf_getElem? hrest hj

section Shaped

variable {cond : Condition} {plan : Plan} {keys : List GroupExpr} {aggs : List (AggExpr × AggKind)}
  {hidden : List GroupColumn} (hshape : r.PlanShape calls model cond plan keys aggs hidden)
  (hsingle : ∀ gb ∈ plan.specs, gb.SingleValued)
  {fs : List (Json → Result Json)} (hfs : fs.length = plan.specs.length)

include hshape

lemma specKey_of_mem_zip (hsingle : ∀ gb ∈ plan.specs, gb.SingleValued) :
    ∀ p ∈ plan.specs.zip keys, r.SpecKey model p := fun p hp =>
  ⟨hsingle p.1 (List.of_mem_zip hp).1, List.forall₂_zip hshape.keyFor hp⟩

/-- **The keys of the order add nothing**: a weekday's place is a function of the weekday. -/
lemma alike_keyExprs_iff {env env' : Env} :
    (∀ e ∈ plan.statement.keyExprs, Alike (e.eval engine db env) (e.eval engine db env')) ↔
      ∀ p ∈ plan.specs.zip keys, Alike (p.2.eval engine db env) (p.2.eval engine db env') := by
  have hlength := hshape.keyFor.length_eq
  have hkeys : ∀ e, e ∈ keys ↔ ∃ p ∈ plan.specs.zip keys, p.2 = e := by
    intro e
    rw [← List.mem_map, List.map_snd_zip hlength.ge]
  constructor
  · intro h p hp
    refine h p.2 (List.mem_filterMap.mpr ⟨.key p.2, ?_, rfl⟩)
    rw [hshape.columns]
    have hmem : GroupColumn.key p.2 ∈ keys.map GroupColumn.key :=
      List.mem_map.mpr ⟨p.2, (hkeys p.2).mpr ⟨p, hp, rfl⟩, rfl⟩
    exact List.mem_append_left _ (List.mem_append_left _ hmem)
  · intro h e he
    have hbase : ∀ e ∈ keys, Alike (e.eval engine db env) (e.eval engine db env') := by
      intro e he
      obtain ⟨p, hp, rfl⟩ := (hkeys e).mp he
      exact h p hp
    obtain ⟨column, hcolumn, hsome⟩ := List.mem_filterMap.mp he
    rw [hshape.columns, List.mem_append, List.mem_append] at hcolumn
    rcases hcolumn with (hkey | hagg) | hhidden
    · obtain ⟨e', he', rfl⟩ := List.mem_map.mp hkey
      obtain rfl := Option.some.inj hsome
      exact hbase e' he'
    · obtain ⟨agg, -, rfl⟩ := List.mem_map.mp hagg
      simp at hsome
    · cases hshape.hidden column hhidden with
      | count => simp at hsome
      | weekday start hkey =>
          obtain rfl := Option.some.inj hsome
          refine .inl ?_
          rw [GroupExpr.eval, GroupExpr.eval]
          rcases hbase _ hkey with heq | ⟨x, x', hx, hx'⟩
          · rw [heq]
          · rw [hx, hx']
            rfl

include hfs

/-- **What is answered for a group**: its keys, rendered, and then its aggregates. -/
lemma answerOf_eq_ok {group : List Env} {env : Env} (henv : group.head? = some env) {out : List Json}
    (h : r.answerOf engine db plan fs group = .ok out) :
    ∃ cells rendered computed, out = rendered ++ computed ∧
      List.Forall₂ (r.KeyCell engine db env) (plan.specs.zip keys) cells ∧
      List.Forall₂ (fun (p : (Json → Result Json) × Json) c => p.1 p.2 = .ok c) (fs.zip cells) rendered ∧
      cells.length = fs.length ∧ rendered.length = plan.specs.length ∧
      List.Forall₂ (fun agg cell => decodeAggregate agg.2 (agg.1.eval engine db group) = .ok cell) aggs
        computed := by
  simp only [answerOf, decodeGroupRow, bind_eq_ok, pure_eq_ok] at h
  obtain ⟨decoded, ⟨⟨cells, rest⟩, hcells, computed, hcomputed, rfl⟩, hrendered⟩ := h
  have hrow : plan.statement.row engine db group
      = keys.map (fun e => GroupColumn.eval engine db (.key e) group) ++
        (aggs.map (fun agg => agg.1.eval engine db group)
          ++ hidden.map fun c => c.eval engine db group) := by
    rw [GroupStatement.row, hshape.columns, List.map_append, List.map_append, List.map_map,
      List.map_map, List.append_assoc]
    rfl
  rw [hrow] at hcells
  obtain ⟨hkeyCells, hrest⟩ := decodeKeys_eq_ok henv hshape.keyFor.length_eq hcells
  rw [hshape.kinds, hrest] at hcomputed
  have hlength : cells.length = fs.length := by
    rw [← hkeyCells.length_eq, List.length_zip, ← hshape.keyFor.length_eq, Nat.min_self, hfs]
  obtain ⟨rendered, hall, rfl⟩ := @modifyCells_eq_ok fs [] cells computed out hlength hrendered
  refine ⟨cells, rendered, computed, by simp, hkeyCells, hall, hlength, ?_,
    decodeAggregates_eq_ok hcomputed⟩
  rw [← hall.length_eq, List.length_zip, hlength, Nat.min_self, hfs]

/-- **Two groups have one key** exactly where the keys of their rows are alike. -/
lemma take_eq_iff (hsingle : ∀ gb ∈ plan.specs, gb.SingleValued) (htells : ∀ f ∈ fs, TellsApart f)
    {group group' : List Env} {env env' : Env} (henv : group.head? = some env)
    (henv' : group'.head? = some env') {out out' : List Json}
    (h : r.answerOf engine db plan fs group = .ok out)
    (h' : r.answerOf engine db plan fs group' = .ok out') :
    out.take plan.specs.length = out'.take plan.specs.length ↔
      ∀ e ∈ plan.statement.keyExprs, Alike (e.eval engine db env) (e.eval engine db env') := by
  obtain ⟨cells, rendered, computed, rfl, hcells, hall, hlength, hwidth, -⟩ :=
    answerOf_eq_ok hshape hfs henv h
  obtain ⟨cells', rendered', computed', rfl, hcells', hall', hlength', hwidth', -⟩ :=
    answerOf_eq_ok hshape hfs henv' h'
  have hspec := specKey_of_mem_zip hshape hsingle
  have hplain : ∀ {env : Env} {cells : List Json},
      List.Forall₂ (r.KeyCell engine db env) (plan.specs.zip keys) cells →
      ∀ cell ∈ cells, cell.isArray = false := by
    intro env cells hcells cell hcell
    obtain ⟨i, hi, rfl⟩ := List.mem_iff_getElem.mp hcell
    have hi' : i < (plan.specs.zip keys).length := by rwa [hcells.length_eq]
    exact not_isArray_of_keyCell (hspec _ (List.getElem_mem hi')) (hcells.get hi' hi)
  rw [List.take_left' hwidth, List.take_left' hwidth',
    rendered_eq_iff htells hlength hlength' (hplain hcells) (hplain hcells') hall hall',
    keyCells_eq_iff hspec hcells hcells', alike_keyExprs_iff hshape]

/-- The count of a group is the number of its rows. -/
lemma count_cell {group : List Env} {env : Env} (henv : group.head? = some env) {out : List Json}
    (h : r.answerOf engine db plan fs group = .ok out) {j : ℕ}
    (hj : r.aggregates[j]? = some "__count") :
    out[plan.specs.length + j]? = some (Json.int group.length) := by
  obtain ⟨cells, rendered, computed, rfl, -, -, -, hwidth, hcomputed⟩ :=
    answerOf_eq_ok hshape hfs henv h
  have hagg : aggs[j]? = some (.countAll, .Count) :=
    aggregatesOf_getElem? hshape.aggregates hj
  rw [List.getElem?_append_right (by omega), hwidth, Nat.add_sub_cancel_left]
  obtain ⟨hlt, hget⟩ := List.getElem?_eq_some_iff.mp hagg
  have hlt' : j < computed.length := hcomputed.length_eq ▸ hlt
  have hcell := hcomputed.get hlt hlt'
  rw [List.get_eq_getElem, List.get_eq_getElem, hget] at hcell
  rw [List.getElem?_eq_getElem hlt', ← Except.ok.inj hcell]

end Shaped

/-! ## The three methods -/

/-- Some groups agree with a count: their keys are distinct, and where they are counted, each has a
row, and their numbers of rows add up to the count. -/
structure Agreement (r : GroupRequest) (width : ℕ) (groups : List (List Json)) (n : ℕ) : Prop where
  distinct : (groups.map (List.take width)).Nodup
  counts : ∀ j, r.aggregates[j]? = some "__count" → ∃ sizes : List ℕ,
    groups.map (fun group => group[width + j]?) = sizes.map (fun size : ℕ => some (Json.int size)) ∧
      (∀ size ∈ sizes, 1 ≤ size) ∧ sizes.sum = n

variable {answers : ∀ q : Question, q.Answer} {cond : Condition} {plan : Plan}
  {groups : List (List Json)}

/-- **What is answered for each group of a grouping.** -/
lemma readGroup_answers {log : List Event} (hmodel : r.ctx.registry.get r.model = .ok model)
    (hcond : (r.buildCondition calls model).run answers = .ok (cond, log))
    (hplan : Yields (r.plan calls model cond) plan) (hoffset : r.offset = 0) (hlimit : r.limit = none)
    (h : (r.readGroup calls answers).Returns engine db groups) :
    plan.statement.Accepted ∧
      ∃ fs : List (Json → Result Json), fs.length = plan.specs.length ∧ (∀ f ∈ fs, TellsApart f) ∧
        ∃ page : List (List Env), page.Perm (plan.statement.groups engine db) ∧
          List.Forall₂ (fun group out => r.answerOf engine db plan fs group = .ok out) page groups := by
  simp only [readGroup, Reading.liftM_result, Reading.returns_bind, Reading.returns_ofResult] at h
  obtain ⟨model', hmodel', h⟩ := h
  obtain rfl := Except.ok.inj (hmodel.symm.trans hmodel')
  split at h
  · simp at h
  obtain ⟨⟨cond', log'⟩, hcond', h⟩ := Reading.returns_bind.mp h
  obtain ⟨plan', hplan', h⟩ := Reading.returns_bind.mp h
  obtain ⟨rows, hrows, h⟩ := Reading.returns_bind.mp h
  obtain ⟨rfl, -⟩ := Prod.mk.inj (Except.ok.inj (hcond.symm.trans hcond'))
  obtain rfl := hplan.unique (Reading.returns_ofCompile.mp hplan')
  obtain ⟨haccepted, page, hpage, rfl⟩ := Reading.returns_asks.mp hrows
  rw [hoffset, hlimit] at hpage
  refine ⟨haccepted, ?_⟩
  have hanswers : ∀ {decoded : List (List Json)} {fs : List (Json → Result Json)},
      (page.map (plan.statement.row engine db)).mapM (r.decodeGroupRow plan.specs plan.kinds) = .ok decoded →
      decoded.mapM (modifyCells fs 0) = .ok groups →
      List.Forall₂ (fun group out => r.answerOf engine db plan fs group = .ok out) page groups := by
    intro decoded fs hdecoded hfs
    have hall := mapM_eq_ok.mp (mapM_bind_eq_ok hdecoded hfs)
    exact List.forall₂_map_left_iff.mp hall
  split at h
  · obtain ⟨decoded, hdecoded, h⟩ := Reading.returns_bind.mp h
    obtain ⟨fs, hlength, htells, hfs⟩ := labelAllKeys_rendered h
    exact ⟨fs, hlength, htells, page, hpage.isOrdering.perm, hanswers hdecoded hfs⟩
  · obtain ⟨decoded, hdecoded, h⟩ := Reading.returns_bind.mp h
    obtain rfl := Reading.returns_pure.mp h
    refine ⟨List.replicate plan.specs.length .ok, List.length_replicate, fun f hf => ?_, page,
      hpage.isOrdering.perm, hanswers hdecoded (mapM_modifyCells_ok _ _ _)⟩
    rw [List.eq_of_mem_replicate hf]
    exact tellsApart_ok

/-- What is computed of the elements of a second list is computed of those of the first. -/
lemma map_eq_of_forall₂ {α β γ : Type} {R : α → β → Prop} {f : β → γ} {g : α → γ} {as : List α}
    {bs : List β} (h : List.Forall₂ R as bs) (hfg : ∀ a ∈ as, ∀ b, R a b → f b = g a) :
    bs.map f = as.map g := by
  induction h with
  | nil => rfl
  | cons hfirst hrest ih =>
      rw [List.map_cons, List.map_cons, hfg _ List.mem_cons_self _ hfirst,
        ih fun a ha => hfg a (List.mem_cons_of_mem _ ha)]

/-- **The keys of the groups are distinct** exactly where those of the records are told apart. -/
lemma distinct_iff_keysApart {keys : List GroupExpr} {aggs : List (AggExpr × AggKind)}
    {hidden : List GroupColumn} (hshape : r.PlanShape calls model cond plan keys aggs hidden)
    (hsingle : ∀ gb ∈ plan.specs, gb.SingleValued) {fs : List (Json → Result Json)}
    (hfs : fs.length = plan.specs.length) (htells : ∀ f ∈ fs, TellsApart f) {page : List (List Env)}
    (hpage : page.Perm (plan.statement.groups engine db))
    (hanswers : List.Forall₂ (fun group out => r.answerOf engine db plan fs group = .ok out) page groups) :
    (groups.map (List.take plan.specs.length)).Nodup ↔ plan.statement.KeysApart engine db := by
  let out : List Env → List Json := fun group =>
    ((r.answerOf engine db plan fs group).toOption.getD []).take plan.specs.length
  have hkeys : groups.map (List.take plan.specs.length) = page.map out :=
    map_eq_of_forall₂ hanswers fun group _ answer h => by simp only [out, h]; rfl
  have hmem : ∀ {group}, group ∈ page ↔ group ∈ plan.statement.groups engine db := hpage.mem_iff
  have hnodup : page.Nodup := by
    refine hpage.nodup_iff.mpr (groupsBy_apart.imp_of_mem fun hgroup _ hapart heq => ?_)
    obtain ⟨env, henv⟩ := List.exists_mem_of_ne_nil _ (ne_nil_of_mem_groupsBy hgroup)
    exact hapart env henv env (heq ▸ henv) rfl
  -- two groups have one key where their first rows have keys that are alike
  have heq : ∀ group ∈ page, ∀ group' ∈ page, ∃ env ∈ group, ∃ env' ∈ group',
      (out group = out group' ↔
        ∀ e ∈ plan.statement.keyExprs, Alike (e.eval engine db env) (e.eval engine db env')) := by
    intro group hgroup group' hgroup'
    have hfirst : ∀ group ∈ page, ∃ env answer, env ∈ group ∧ group.head? = some env ∧
        r.answerOf engine db plan fs group = .ok answer := by
      intro group hgroup
      obtain ⟨i, hi, rfl⟩ := List.mem_iff_getElem.mp hgroup
      have hne := ne_nil_of_mem_groupsBy (hmem.mp hgroup)
      have hanswer := hanswers.get hi (hanswers.length_eq ▸ hi)
      exact ⟨_, _, List.head_mem hne, List.head?_eq_some_head hne, hanswer⟩
    obtain ⟨env, answer, henv, hhead, hanswer⟩ := hfirst group hgroup
    obtain ⟨env', answer', henv', hhead', hanswer'⟩ := hfirst group' hgroup'
    refine ⟨env, henv, env', henv', ?_⟩
    have htake := take_eq_iff hshape hfs hsingle htells hhead hhead' hanswer hanswer'
    simp only [out, hanswer, hanswer']
    exact htake
  rw [hkeys, List.nodup_map_iff_inj_on hnodup]
  constructor
  · intro hinj env henv env' henv' halike
    have hgroup := hmem.mpr (withKey_mem_groupsBy (plan.statement.keyOf engine db) henv)
    have hgroup' := hmem.mpr (withKey_mem_groupsBy (plan.statement.keyOf engine db) henv')
    obtain ⟨first, hfirst, first', hfirst', hiff⟩ := heq _ hgroup _ hgroup'
    have hsame := List.map_inj_left.mp (mem_withKey.mp hfirst).2
    have hsame' := List.map_inj_left.mp (mem_withKey.mp hfirst').2
    have hone := hinj _ hgroup _ hgroup' (hiff.mpr fun e he => by
      rw [hsame e he, hsame' e he]
      exact halike e he)
    have hin : env ∈ withKey (plan.statement.keyOf engine db) (plan.statement.envs db)
        (plan.statement.keyOf engine db env') := hone ▸ mem_withKey.mpr ⟨henv, rfl⟩
    exact (mem_withKey.mp hin).2
  · intro hapart group hgroup group' hgroup' hout
    obtain ⟨env, henv, env', henv', hiff⟩ := heq group hgroup group' hgroup'
    have hkey := hapart env (mem_of_mem_groupsBy (hmem.mp hgroup) henv) env'
      (mem_of_mem_groupsBy (hmem.mp hgroup') henv') (hiff.mp hout)
    rw [eq_withKey_of_mem (hmem.mp hgroup) henv, eq_withKey_of_mem (hmem.mp hgroup') henv', hkey]

/-- **The groups and a count agree** exactly where the keys of the records are told apart. -/
lemma agreement_iff {keys : List GroupExpr} {aggs : List (AggExpr × AggKind)}
    {hidden : List GroupColumn} (hshape : r.PlanShape calls model cond plan keys aggs hidden)
    (hsingle : ∀ gb ∈ plan.specs, gb.SingleValued) {fs : List (Json → Result Json)}
    (hfs : fs.length = plan.specs.length) (htells : ∀ f ∈ fs, TellsApart f) {page : List (List Env)}
    (hpage : page.Perm (plan.statement.groups engine db))
    (hanswers : List.Forall₂ (fun group out => r.answerOf engine db plan fs group = .ok out) page groups) :
    r.Agreement plan.specs.length groups (plan.statement.envs db).length ↔
      plan.statement.KeysApart engine db := by
  rw [← distinct_iff_keysApart hshape hsingle hfs htells hpage hanswers]
  refine ⟨fun h => h.distinct, fun h => ⟨h, fun j hj => ⟨page.map List.length, ?_, ?_, ?_⟩⟩⟩
  · rw [List.map_map]
    refine map_eq_of_forall₂ hanswers fun group hgroup answer hanswer => ?_
    have hne := ne_nil_of_mem_groupsBy (hpage.mem_iff.mp hgroup)
    exact count_cell hshape hfs (List.head?_eq_some_head hne) hanswer hj
  · intro size hsize
    obtain ⟨group, hgroup, rfl⟩ := List.mem_map.mp hsize
    exact List.length_pos_of_ne_nil (ne_nil_of_mem_groupsBy (hpage.mem_iff.mp hgroup))
  · rw [(hpage.map List.length).sum_eq]
    exact sum_length_groupsBy

end GroupRequest

/-- **The three methods agree** exactly where no two records have keys that JSON does not tell
apart. -/
theorem reads_agree_iff {read : ReadRequest} {r : GroupRequest} {calls : ℕ} {model : Model}
    {engine : Engine} {db : Database} {answers : ∀ q : Question, q.Answer}
    {printNumber : Number → List Char} {cond : Condition} {log : List Event} {plan : GroupRequest.Plan}
    {groupby : List String} {n : ℕ} {text : List Char} {groups : List (List Json)}
    (hsame : r.toSearchRequest = read.toSearchRequest)
    (hmodel : r.ctx.registry.get r.model = .ok model)
    (hcond : (r.buildCondition calls model).run answers = .ok (cond, log))
    (hplan : Yields (r.plan calls model cond) plan)
    (hids : UniqueIds r.ctx.registry db)
    (hgroupby : r.groupbyNames = .ok groupby) (_hne : groupby ≠ [])
    (hsingle : ∀ gb ∈ plan.specs, gb.SingleValued)
    (hcount : (read.searchCount calls answers none).Returns engine db n)
    (hread : (read.searchRead calls answers printNumber).Returns engine db text)
    (hwhole : read.offset = 0 ∧ read.limit = none)
    (hgroups : (r.readGroup calls answers).Returns engine db groups)
    (hgroupsWhole : r.offset = 0 ∧ r.limit = none) :
    ((∃ names cells, (read.readRecords calls model cond).Returns engine db (names, cells) ∧
        text = (Json.array (cells.map (recordOfCells names))).written printNumber ∧
        n = cells.length ∧ ∀ l m, 1 ≤ l →
          (read.searchCount calls answers (some l)).Returns engine db m → m = min l cells.length) ∧
      r.Agreement groupby.length groups n) ↔ plan.statement.KeysApart engine db := by
  rw [hsame] at hmodel hcond hids
  have hn := ReadRequest.searchCount_records hmodel hcond hids hcount
  obtain ⟨names, cells, hrecords, htext, hcells⟩ :=
    ReadRequest.searchRead_records hmodel hcond hids hread hwhole.1 hwhole.2
  obtain ⟨keys, aggs, hidden, hshape⟩ := GroupRequest.plan_shape hplan hsingle
  obtain ⟨names', hnames', hwidth⟩ := hshape.specs
  obtain rfl := Except.ok.inj (hgroupby.symm.trans hnames')
  obtain ⟨haccepted, fs, hfs, htells, page, hpage, hanswers⟩ :=
    GroupRequest.readGroup_answers (by rw [hsame]; exact hmodel) (by rw [hsame]; exact hcond) hplan
      hgroupsWhole.1 hgroupsWhole.2 hgroups
  have henvs : (plan.statement.envs db).length = n := by
    obtain ⟨f, hf⟩ := GroupStatement.envs_eq_map hids (hsame ▸ hshape.hops) (hsame ▸ hshape.joins)
      haccepted fun env env' henv => by
        rw [hshape.condition]
        exact SearchRequest.buildCondition_scoped hmodel hcond db (hshape.table ▸ henv)
    rw [hf, List.length_map, hn, GroupStatement.matching, hshape.condition]
    simp only [GroupStatement.rowEnv, hshape.table]
    rfl
  rw [← hwidth, ← henvs,
    ← GroupRequest.agreement_iff hshape hsingle hfs htells hpage hanswers]
  refine and_iff_right ⟨names, cells, hrecords, htext, ?_, fun l m _ hm => ?_⟩
  · rw [henvs, hn, hcells]
    rfl
  · rw [ReadRequest.searchCount_records hmodel hcond hids hm, hcells]
    rfl

/-! ## Levels that are no number -/

namespace Gauges

def gauge : Model :=
  plainModel "gauge" "gauge" [("id", Field.column "id" .Integer "int4" none),
    ("level", Field.column "level" .Float "float8" none)]

def registry : Registry := plainRegistry [("gauge", gauge)]

/-- A search for all gauges. -/
def search : SearchRequest where
  ctx := ExprCtx.plain registry (Security.plain [] []) none
  model := "gauge"
  domain := .null
  rules := RuleSet.empty
  su := true
  trusted := false
  rootActiveTest := true

def read : ReadRequest :=
  { search with
    fields := ["level"], order := none, offset := 0, limit := none, rawMany2one := [],
    unredactedMany2one := [], x2manyActiveTest := true }

def grouping : GroupRequest :=
  { search with
    groupby := .array [.string "level"], aggregates := ["__count"], order := none, offset := 0,
    limit := none, labels := true, hiddenLabelsEmpty := false, tz := none, weekStart := none }

/-- The levels of two gauges: numbers, or doubles that are no number. -/
def level (numbers : Bool) (id : ℤ) : Datum :=
  if numbers then .double id else .nonFinite (if id = 1 then .infinity else .nan)

def gaugeRow (numbers : Bool) (id : ℤ) : Row
  | "id" => some (.int id)
  | "level" => some (level numbers id)
  | _ => none

def database (numbers : Bool) : Database where
  table name := if name = "gauge" then [gaugeRow numbers 1, gaugeRow numbers 2] else []
  fragment _ := []
  server := Server.plain

def engine : Engine where
  resolved _ _ := none
  dated _ _ := none
  aggregate _ _ := .one none
  anyValue group := group.headD fun _ => absentRow
  arrayBefore _ _ := false

def answers : ∀ q : Question, q.Answer :=
  answersOf 10 search.ctx (database true) (some (RuleSet.empty, false))

/-- The condition of the search. -/
def everyGauge : Condition := Condition.all.add Condition.all

def column : GroupExpr := .value (.col "gauge" "level")

def grouped : GroupStatement where
  table := "gauge"
  hops := []
  condition := everyGauge
  columns := [.key column, .aggregate .countAll]
  items := [{ expr := .ordinal 1, desc := false, nulls := none, joins := [] }]

/-- The groups by level, each with its count. -/
def plan : GroupRequest.Plan where
  statement := grouped
  specs := [⟨Field.column "level" .Float "float8" none, none, gauge, "gauge"⟩]
  kinds := [.Count]

def env (numbers : Bool) (id : ℤ) : Env :=
  Env.bind (fun _ => absentRow) "gauge" (gaugeRow numbers id)

lemma uniqueIds (numbers : Bool) : UniqueIds registry (database numbers) := by
  intro k m hm
  have hmem := Dict.mem_of_get? hm
  simp only [registry, plainRegistry, List.mem_cons, Prod.mk.injEq, List.not_mem_nil, or_false] at hmem
  obtain ⟨-, rfl⟩ := hmem
  refine ⟨fun row hrow => ?_, by cases numbers <;> decide +kernel⟩
  simp only [gauge, plainModel, database, if_true, List.mem_cons, List.not_mem_nil, or_false] at hrow
  rcases hrow with rfl | rfl
  · exact ⟨1, rfl⟩
  · exact ⟨2, rfl⟩

lemma condition_built : ∃ log, (search.buildCondition 10 gauge).run answers = .ok (everyGauge, log) :=
  ⟨_, rfl⟩

def byId : Statement := Statement.ofOrder "gauge" everyGauge [ExprCtx.idItem "gauge"]

lemma gauges_counted (numbers : Bool) :
    (Query.count (.ofOrder "gauge" everyGauge []) none).Returns engine (database numbers) (2 : ℕ) := by
  have henvs : (Statement.ofOrder "gauge" everyGauge []).envs (database numbers)
    = [env numbers 1, env numbers 2] := rfl
  refine ⟨List.not_mem_nil, [env numbers 1, env numbers 2], ⟨_, ⟨henvs ▸ .refl _, ?_⟩, rfl⟩, rfl⟩
  rw [List.pairwise_pair]
  exact not_false

lemma gauges_ordered (numbers : Bool) :
    IsPart (byId.keys (database numbers) engine.resolved) (byId.envs (database numbers)) 0 none
      [env numbers 1, env numbers 2] := by
  refine ⟨_, ⟨.refl _, ?_⟩, rfl⟩
  show List.Pairwise _ [env numbers 1, env numbers 2]
  rw [List.pairwise_pair]
  cases numbers
  all_goals
    simp only [byId, Statement.ofOrder, Statement.keys, ExprCtx.idItem, List.map_cons, List.map_nil,
      Before, OrderItem.precedes]
    decide +kernel

lemma groups_ordered (numbers : Bool) :
    IsPart (grouped.keys engine (database numbers)) (grouped.groups engine (database numbers)) 0 none
      [[env numbers 1], [env numbers 2]] := by
  cases numbers
  all_goals
    refine ⟨_, ⟨.refl _, ?_⟩, rfl⟩
    show List.Pairwise _ [[env _ 1], [env _ 2]]
    rw [List.pairwise_pair]
    simp only [GroupStatement.keys, grouped, List.map_cons, List.map_nil, Before]
    decide +kernel

lemma counted (numbers : Bool) :
    (read.searchCount 10 answers none).Returns engine (database numbers) 2 :=
  Reading.returns_bind.mpr ⟨gauge, rfl, Reading.returns_bind.mpr ⟨(everyGauge, _), rfl,
    Reading.returns_asks.mpr (gauges_counted numbers)⟩⟩

/-- The cell of a level. -/
def cell (numbers : Bool) (id : ℤ) : Json := if numbers then .number (.float id) else .null

def records (numbers : Bool) : List (List Json) := [[.int 1, cell numbers 1], [.int 2, cell numbers 2]]

def outputs : List Output := [.expr (.col "gauge" "id"), .expr (.col "gauge" "level")]

/-- The column that is read. -/
def columns : List (Expr × String × ColKind) := [(.col "gauge" "level", "level", .Float)]

lemma labelled (numbers : Bool) :
    (read.labelColumns 10 columns (records numbers)).Returns engine (database numbers)
      (records numbers) := by
  rw [ReadRequest.labelColumns, show read.labelPlaces columns 1 [] = [] from rfl, List.mergeSort_nil]
  rfl

lemma read_records (numbers : Bool) :
    (read.readRecords 10 gauge everyGauge).Returns engine (database numbers)
      (["id", "level"], records numbers) := by
  refine Reading.returns_bind.mpr ⟨_, rfl, Reading.returns_bind.mpr ⟨columns, rfl,
    Reading.returns_bind.mpr ⟨.records byId outputs 0 none, rfl, Reading.returns_bind.mpr
      ⟨_, Reading.returns_asks.mpr ⟨List.not_mem_nil, _, gauges_ordered numbers, rfl⟩, ?_⟩⟩⟩⟩
  exact Reading.returns_bind.mpr ⟨records numbers, by cases numbers <;> rfl, Reading.returns_bind.mpr
    ⟨records numbers, labelled numbers, Reading.returns_bind.mpr ⟨records numbers, rfl, rfl⟩⟩⟩

def printNumber (_ : Number) : List Char := ['0']

def text (numbers : Bool) : List Char :=
  (Json.array ((records numbers).map (recordOfCells ["id", "level"]))).written printNumber

lemma searched (numbers : Bool) :
    (read.searchRead 10 answers printNumber).Returns engine (database numbers) (text numbers) :=
  Reading.returns_bind.mpr ⟨gauge, rfl, Reading.returns_bind.mpr ⟨(everyGauge, _), rfl,
    Reading.returns_bind.mpr ⟨(["id", "level"], records numbers), read_records numbers,
      recordsToJson_eq fun record hrecord => by
        simp only [records, List.mem_cons, List.not_mem_nil, or_false] at hrecord
        rcases hrecord with rfl | rfl <;> rfl⟩⟩⟩

def groups (numbers : Bool) : List (List Json) := [[cell numbers 1, .int 1], [cell numbers 2, .int 1]]

lemma planned : Yields (grouping.plan 10 gauge everyGauge) plan := ⟨_, rfl⟩

lemma groups_read (numbers : Bool) :
    (grouping.readGroup 10 answers).Returns engine (database numbers) (groups numbers) := by
  refine Reading.returns_bind.mpr ⟨gauge, rfl, ?_⟩
  refine Reading.returns_bind.mpr ⟨(everyGauge, _), rfl, Reading.returns_bind.mpr ⟨plan, rfl,
    Reading.returns_bind.mpr ⟨_, Reading.returns_asks.mpr
      ⟨List.nodup_singleton _, _, groups_ordered numbers, rfl⟩, ?_⟩⟩⟩
  exact Reading.returns_bind.mpr ⟨groups numbers, by cases numbers <;> rfl, rfl⟩

lemma singleValued : ∀ gb ∈ plan.specs, gb.SingleValued := by
  intro gb hgb
  obtain rfl := List.mem_singleton.mp hgb
  exact ⟨rfl, nofun, nofun⟩

/-- Gauges whose levels are numbers are told apart. -/
lemma numbers_apart : plan.statement.KeysApart engine (database true) := by
  have henvs : ∀ e ∈ plan.statement.envs (database true), ∃ id, e = env true id := by
    intro e he
    have hmem : e ∈ [env true 1, env true 2] := he
    rcases List.mem_pair.mp hmem with rfl | rfl
    · exact ⟨1, rfl⟩
    · exact ⟨2, rfl⟩
  intro e he e' he' halike
  obtain ⟨id, rfl⟩ := henvs e he
  obtain ⟨id', rfl⟩ := henvs e' he'
  have hlevel : Alike (some (.double id)) (some (.double id')) := halike column List.mem_cons_self
  rcases hlevel with heq | ⟨x, x', hx, -⟩
  · have hid : (id : ℚ) = id' := Datum.double.inj (Option.some.inj heq)
    rw [Rat.intCast_inj.mp hid]
  · simp at hx

/-- The methods agree on gauges whose levels are numbers. -/
theorem gauges_agree : grouping.Agreement 1 (groups true) 2 :=
  ((reads_agree_iff rfl rfl rfl planned (uniqueIds true) rfl (List.cons_ne_nil _ _) singleValued
    (counted true) (searched true) ⟨rfl, rfl⟩ (groups_read true) ⟨rfl, rfl⟩).mpr numbers_apart).2

/-- **Two groups with one key**: the levels of two gauges are infinity and no number. -/
theorem nan_keys_agree : UniqueIds registry (database false) ∧
    (∃ log, (search.buildCondition 10 gauge).run answers = .ok (everyGauge, log)) ∧
    Yields (grouping.plan 10 gauge everyGauge) plan ∧ (∀ gb ∈ plan.specs, gb.SingleValued) ∧
    (read.searchCount 10 answers none).Returns engine (database false) 2 ∧
    (read.searchRead 10 answers printNumber).Returns engine (database false) (text false) ∧
    (grouping.readGroup 10 answers).Returns engine (database false) (groups false) ∧
    ¬ ((groups false).map (List.take 1)).Nodup ∧ ¬ grouping.Agreement 1 (groups false) 2 :=
  have hnodup : ¬ ((groups false).map (List.take 1)).Nodup := by decide
  ⟨uniqueIds false, condition_built, planned, singleValued, counted false, searched false,
    groups_read false, hnodup, fun h => hnodup h.distinct⟩

end Gauges
end OdooKernel
