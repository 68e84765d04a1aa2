import OdooKernel.Search.Pages
import OdooKernel.Search.Read

/-!
# The records of a reading

A reading returns one record for each row that its query returns, of one cell for each name, and its
text is that of the array of the records.  It is said of whatever the database may answer, and each
part of a reading has one lemma: decoding a row, putting labels on, adding the x2many fields.

* `labelAll_records`, `readX2many_records` — labels and x2many fields change no record's place.
* `readRecords_records` — as many records as rows, and as many cells as names.
* `searchRead_records`, `searchCount_records` — what a search reads, without offset and limit, and
  what it counts: the rows of the model that match.
-/

namespace OdooKernel

namespace ReadRequest

variable {r : ReadRequest} {calls : ℕ} {model : Model} {engine : Engine} {db : Database}

/-- Some records of one width. -/
def Wide (width : ℕ) (cells : List (List Json)) : Prop := ∀ record ∈ cells, record.length = width

/-! ## Rows -/

lemma decodeCells_length : ∀ {kinds : List ColKind} {values : Record} {cells : List Json},
    decodeCells kinds values = .ok cells → cells.length = kinds.length
  | [], values, cells, h => by
      obtain rfl := Except.ok.inj h
      rfl
  | kind :: kinds, [], cells, h => by simp [decodeCells] at h
  | kind :: kinds, d :: ds, cells, h => by
      simp only [decodeCells, bind_eq_ok, pure_eq_ok] at h
      obtain ⟨cell, -, rest, hrest, rfl⟩ := h
      rw [List.length_cons, List.length_cons, decodeCells_length hrest]

lemma renderName_length {displayName : Option (Option Output)} {record : List Json}
    (h : record ≠ []) : (renderName model displayName record).length = record.length := by
  unfold renderName
  split
  · rfl
  · have hpos := List.length_pos_of_ne_nil h
    rw [List.length_append, List.length_dropLast, List.length_singleton]
    omega

lemma decodeRow_length {kind : ColKind} {kinds : List ColKind} {displayName : Option (Option Output)}
    {values : Record} {record : List Json}
    (h : r.decodeRow model (kind :: kinds) displayName values = .ok record) :
    record.length = kinds.length + 1 := by
  simp only [decodeRow, bind_eq_ok] at h
  obtain ⟨cells, hcells, h⟩ := h
  have hlength := decodeCells_length hcells
  rw [List.length_cons] at hlength
  have hne : cells ≠ [] := List.ne_nil_of_length_pos (by omega)
  split at h
  · simp only [bind_eq_ok, pure_eq_ok] at h
    obtain ⟨-, -, rfl⟩ := h
    rw [renderName_length hne, hlength]
  · obtain rfl := pure_eq_ok.mp h
    rw [renderName_length hne, hlength]

/-! ## Labels and x2many fields -/

lemma labelAll_records {columns : List (Expr × String × ColKind)} {width : ℕ} :
    ∀ {places : List (String × List ℕ)} {cells cells' : List (List Json)},
    (r.labelAll calls columns places cells).Returns engine db cells' → Wide width cells →
    cells'.length = cells.length ∧ Wide width cells'
  | [], cells, cells', h, hwide => by
      obtain rfl := Reading.returns_pure.mp h
      exact ⟨rfl, hwide⟩
  | (comodel, own) :: rest, cells, cells', h, hwide => by
      simp only [labelAll, labelComodel, Reading.returns_bind, Reading.returns_pure] at h
      obtain ⟨-, ⟨names, -, rfl⟩, h⟩ := h
      have hlabelled : Wide width (cells.map fun record => record.mapIdx fun i cell =>
          if i ∈ own then labelCell names (r.keepsHidden columns i) cell else cell) := by
        intro record hrecord
        obtain ⟨record, hmem, rfl⟩ := List.mem_map.mp hrecord
        rw [List.length_mapIdx, hwide record hmem]
      obtain ⟨hlength, hwide'⟩ := labelAll_records h hlabelled
      exact ⟨by rw [hlength, List.length_map], hwide'⟩

lemma readX2many_records {parents : List ℤ} : ∀ {fields : List Field} {width : ℕ}
    {cells cells' : List (List Json)},
    (r.readX2many calls model parents fields cells).Returns engine db cells' → Wide width cells →
    cells'.length = cells.length ∧ Wide (width + fields.length) cells'
  | [], width, cells, cells', h, hwide => by
      obtain rfl := Reading.returns_pure.mp h
      exact ⟨rfl, hwide⟩
  | f :: fs, width, cells, cells', h, hwide => by
      simp only [readX2many, Reading.returns_bind] at h
      obtain ⟨members, -, h⟩ := h
      obtain ⟨hlength, hwide'⟩ := @readX2many_records _ fs (width + 1) _ _ h fun record hrecord => by
        obtain ⟨record, hmem, rfl⟩ := List.mem_map.mp hrecord
        rw [List.length_append, hwide record hmem, List.length_singleton]
      refine ⟨by rw [hlength, List.length_map], fun record hrecord => ?_⟩
      rw [hwide' record hrecord, List.length_cons]
      omega

/-! ## Searches -/

/-- The rows of a query for records are those of one page. -/
lemma asksRecords_page {s : Statement} {outputs : List Output} {offset : ℕ} {limit : Option ℕ}
    {rows : List Record}
    (h : (asksRecords (.records s outputs offset limit)).Returns engine db rows) :
    s.Accepted ∧ ∃ page, IsPart (s.keys db engine.resolved) (s.envs db) offset limit page ∧
      rows = columnsOf db outputs page := h.elim fun answer ⟨hanswer, heq⟩ => by
  obtain rfl := Except.ok.inj heq
  exact hanswer

/-- **As many records as rows**, and as many cells as names. -/
lemma readRecords_records {cond : Condition} {names : List String} {cells : List (List Json)}
    (h : (r.readRecords calls model cond).Returns engine db (names, cells)) :
    ∃ items page, Yields (r.ctx.parseTotalOrder calls model model.table (r.order.getD model.order)) items ∧
      (Statement.ofOrder model.table cond items).Accepted ∧
      IsPart ((Statement.ofOrder model.table cond items).keys db engine.resolved)
        ((Statement.ofOrder model.table cond items).envs db) r.offset r.limit page ∧
      cells.length = page.length ∧ Wide names.length cells := by
  simp only [readRecords, Reading.liftM_result, Reading.liftM_compile, Reading.returns_bind,
    Reading.returns_ofCompile, Reading.returns_ofResult, Reading.returns_pure, Prod.mk.injEq] at h
  obtain ⟨plan, -, columns, -, query, hquery, rows, hrows, decoded, hdecoded, labelled, hlabelled,
    complete, hcomplete, rfl, rfl⟩ := h
  simp only [mainQuery, yields_bind, yields_pure] at hquery
  obtain ⟨items, hitems, rfl⟩ := hquery
  obtain ⟨haccepted, page, hpage, rfl⟩ := asksRecords_page hrows
  refine ⟨items, page, hitems, haccepted, hpage, ?_⟩
  have hwide : Wide (kindsOf columns plan.displayName).length decoded := by
    intro record hrecord
    obtain ⟨values, -, hvalues⟩ := exists_of_mem_mapM hdecoded hrecord
    have hlength := decodeRow_length hvalues
    simpa [kindsOf] using hlength
  obtain ⟨hlabels, hwideLabels⟩ := labelAll_records hlabelled hwide
  obtain ⟨hmembers, hwideMembers⟩ := readX2many_records hcomplete hwideLabels
  refine ⟨?_, ?_⟩
  · rw [hmembers, hlabels, ← (mapM_eq_ok.mp hdecoded).length_eq, columnsOf, List.length_map]
  · rwa [List.length_append, List.length_map, List.length_map]

end ReadRequest

/-! ## What a search reads and what it counts -/

/-- The records of a model that a condition selects. -/
def Model.matching (model : Model) (cond : Condition) (db : Database) : List Row :=
  (Statement.ofOrder model.table cond []).matching db

namespace ReadRequest

variable {r : ReadRequest} {calls : ℕ} {answers : ∀ q : Question, q.Answer} {model : Model}
  {engine : Engine} {db : Database}

section

variable (hmodel : r.ctx.registry.get r.model = .ok model) {cond : Condition} {log : List Event}
  (hcond : (r.buildCondition calls model).run answers = .ok (cond, log))
  (hids : UniqueIds r.ctx.registry db)

include hmodel hcond hids

lemma length_envs {items : List OrderItem} (hknown : r.ctx.ItemsKnown items)
    (haccepted : (Statement.ofOrder model.table cond items).Accepted) :
    ((Statement.ofOrder model.table cond items).envs db).length = (model.matching cond db).length := by
  obtain ⟨f, -, henvs⟩ := Statement.envs_eq_map hids (fun join hjoin => by
    obtain ⟨item, hitem, hjoin⟩ := List.mem_flatMap.mp (mem_of_mem_distinctJoins hjoin)
    exact hknown item hitem join hjoin) haccepted fun env env' henv =>
      SearchRequest.buildCondition_scoped hmodel hcond db henv
  rw [henvs, List.length_map]
  rfl

/-- **A search counts the records that match**, up to its limit. -/
lemma searchCount_records {limit : Option ℕ} {n : ℕ}
    (h : (r.searchCount calls answers limit).Returns engine db n) :
    n = (limit.elim id min) (model.matching cond db).length := by
  obtain ⟨model', hmodel', h⟩ := Reading.returns_bind.mp h
  obtain ⟨⟨cond', log'⟩, hcond', h⟩ := Reading.returns_bind.mp h
  obtain ⟨haccepted, page, hpage, rfl⟩ := Reading.returns_asks.mp h
  obtain rfl := Except.ok.inj (hmodel.symm.trans hmodel')
  obtain ⟨rfl, -⟩ := Prod.mk.inj (Except.ok.inj (hcond.symm.trans hcond'))
  have hlength := length_envs hmodel hcond hids ExprCtx.itemsKnown_nil haccepted
  cases limit with
  | none => rw [Option.elim, id, ← hlength, hpage.isOrdering.perm.length_eq]
  | some l => rw [Option.elim, ← hlength, hpage.length_limit]

/-- **A search without offset and limit reads the records that match.** -/
lemma searchRead_records {printNumber : Number → List Char} {text : List Char}
    (h : (r.searchRead calls answers printNumber).Returns engine db text) (hoffset : r.offset = 0)
    (hlimit : r.limit = none) :
    ∃ names cells, (r.readRecords calls model cond).Returns engine db (names, cells) ∧
      text = (Json.array (cells.map (recordOfCells names))).written printNumber ∧
      cells.length = (model.matching cond db).length := by
  simp only [searchRead, Reading.liftM_result, Reading.returns_bind, Reading.returns_ofResult] at h
  obtain ⟨model', hmodel', ⟨cond', log'⟩, hcond', ⟨names, cells⟩, hcells, htext⟩ := h
  obtain rfl := Except.ok.inj (hmodel.symm.trans hmodel')
  obtain ⟨rfl, -⟩ := Prod.mk.inj (Except.ok.inj (hcond.symm.trans hcond'))
  obtain ⟨items, page, hitems, haccepted, hpage, hlength, hwide⟩ := readRecords_records hcells
  rw [recordsToJson_eq hwide] at htext
  refine ⟨names, cells, hcells, (Except.ok.inj htext).symm, ?_⟩
  rw [hoffset, hlimit] at hpage
  rw [hlength, hpage.isOrdering.perm.length_eq]
  exact length_envs hmodel hcond hids (ExprCtx.parseTotalOrder_known hitems) haccepted

end

end ReadRequest

end OdooKernel
