import OdooKernel.Compile.Context
import OdooKernel.Core.Schema

/-!
# The normal form of a path

What comes of a path when related fields give way to the paths they stand for.

**The registry as a schema.**  A related field without a column of its own is a step that is defined
as a path (`ExprCtx.schema`), and `Core/Schema` says what it is for such definitions to come to an
end and when they run into a cycle.  The rewriting keeps the model that each step was read on beside
it (`ExprCtx.trackFrom`, `normalizeFrom_track`), which the schema needs and the source does not.

**Display names.**  A display name at the end of a longer path is left as it is, whatever it stands
for.  So a path may run into a cycle there and nowhere else (`label_normalized_in_cycle`).

* `ExprCtx.Normal` — how a rewriting that succeeds went; `trackFrom_ok`.
* `ExprCtx.NormalForm` — what a normalised path is.
* **`normalizePath_normalForm`** — normalising a path reaches one, of the same value.
-/

namespace OdooKernel

/-- The path that a field without a column stands for. -/
def Field.definition (f : Field) : Option (List String) :=
  if f.hasColumn then none else f.related.map splitDots

lemma splitDots_ne_nil (path : String) : splitDots path ≠ [] := by
  simp [splitDots, List.splitOn, List.splitOnP_ne_nil]

lemma Field.definition_ne_nil (f : Field) : f.definition ≠ some [] := by
  intro h
  simp only [Field.definition, Option.ite_none_left_eq_some, Option.map_eq_some_iff] at h
  obtain ⟨-, related, -, hnil⟩ := h
  exact splitDots_ne_nil related hnil

namespace ExprCtx

/-! ## The models on the way -/

/-- The steps that are left of a path, each with the name of the model it was read on. -/
def trackFrom (ctx : ExprCtx) :
    ℕ → List (String × String) → String → List String → Result (List (String × String))
  | _, done, _, [] => .ok done
  | 0, _, modelName, _ :: _ => refuse ("related expansion loop at " ++ modelName)
  | fuel + 1, done, modelName, step :: rest => do
    let m ← ctx.registry.get modelName
    if rest.isEmpty ∧ step = "display_name" ∧ !done.isEmpty then .ok (done ++ [(modelName, step)])
    else
      let field ← orRefuse ("unknown field " ++ modelName ++ "." ++ step) (m.fields.get? step)
      match field.definition with
      | some d => trackFrom ctx fuel done modelName (d ++ rest)
      | none =>
        if !field.hasColumn && !field.ttype.isX2many then
          refuse ("cannot traverse non-stored " ++ modelName ++ "." ++ step)
        else if rest.isEmpty then .ok (done ++ [(modelName, step)])
        else
          let next ← orRefuse (modelName ++ "." ++ step ++ " is not relational") field.relation
          trackFrom ctx fuel (done ++ [(modelName, step)]) next rest

/-- The steps of a normalised path, each with the name of the model it was read on. -/
def trackPath (ctx : ExprCtx) (model : Model) (path : List String) :
    Result (List (String × String)) :=
  ctx.trackFrom maxExpansions [] model.name path

/-- One turn of the rewriting, by what the step's field stands for. -/
lemma normalizeFrom_cons (ctx : ExprCtx) (fuel : ℕ) (done : List String) (modelName step : String)
    (rest : List String) :
    ctx.normalizeFrom (fuel + 1) done modelName (step :: rest) = (do
      let m ← ctx.registry.get modelName
      if rest.isEmpty ∧ step = "display_name" ∧ !done.isEmpty then .ok (done ++ [step])
      else
        let field ← orRefuse ("unknown field " ++ modelName ++ "." ++ step) (m.fields.get? step)
        match field.definition with
        | some d => ctx.normalizeFrom fuel done modelName (d ++ rest)
        | none =>
          if !field.hasColumn && !field.ttype.isX2many then
            refuse ("cannot traverse non-stored " ++ modelName ++ "." ++ step)
          else if rest.isEmpty then .ok (done ++ [step])
          else
            let next ← orRefuse (modelName ++ "." ++ step ++ " is not relational") field.relation
            ctx.normalizeFrom fuel (done ++ [step]) next rest) := by
  rw [normalizeFrom]
  congr 1
  funext m
  congr 1
  congr 1
  funext field
  cases hcol : field.hasColumn <;> cases hrel : field.related <;> simp [Field.definition, hcol, hrel]

/-- Keeping the models changes nothing. -/
lemma normalizeFrom_track (ctx : ExprCtx) (fuel : ℕ) : ∀ (done : List (String × String))
    (modelName : String) (path : List String),
    ctx.normalizeFrom fuel (done.map (·.2)) modelName path
      = (fun tracked => tracked.map (·.2)) <$> ctx.trackFrom fuel done modelName path := by
  induction fuel with
  | zero =>
      intro done modelName path
      cases path <;> rfl
  | succ fuel ih =>
      intro done modelName path
      cases path with
      | nil => rfl
      | cons step rest =>
          have hnext : ∀ next, ctx.normalizeFrom fuel (done.map (·.2) ++ [step]) next rest
              = (fun tracked => tracked.map (·.2)) <$>
                ctx.trackFrom fuel (done ++ [(modelName, step)]) next rest := by
            intro next
            simpa using ih (done ++ [(modelName, step)]) next rest
          rw [normalizeFrom_cons, trackFrom, map_bind]
          congr 1
          funext m
          rw [List.isEmpty_map]
          by_cases htrail : rest.isEmpty = true ∧ step = "display_name" ∧ (!done.isEmpty) = true
          · rw [if_pos htrail, if_pos htrail]
            simp [Functor.map, Except.map]
          · rw [if_neg htrail, if_neg htrail, map_bind]
            congr 1
            funext field
            cases field.definition with
            | some d => exact ih done modelName (d ++ rest)
            | none =>
                dsimp only
                split_ifs
                · rfl
                · simp [Functor.map, Except.map]
                · rw [map_bind]
                  congr 1
                  funext next
                  exact hnext next

/-! ## The registry as a schema -/

/-- The field of a model, by their names. -/
def fieldAt (ctx : ExprCtx) (modelName step : String) : Option Field :=
  (ctx.registry.lookup modelName).bind fun m => m.fields.get? step

/-- The registry as a schema: a related field without a column is defined as the path it stands for. -/
def schema (ctx : ExprCtx) : Schema String String where
  definition modelName step := (ctx.fieldAt modelName step).bind Field.definition
  leads modelName step := (ctx.fieldAt modelName step).bind Field.relation
  definition_ne_nil := by
    intro modelName step h
    obtain ⟨f, -, hf⟩ := Option.bind_eq_some_iff.mp h
    exact f.definition_ne_nil hf

/-! ## How a rewriting goes -/

/-- A rewriting that succeeds, from a step on: what is left of the steps, each with the name of the
model it was read on. -/
inductive Normal (ctx : ExprCtx) : Bool → String → List String → List (String × String) → Prop where
  | nil (first : Bool) (name : String) : Normal ctx first name [] []
  | displayName {name : String} {m : Model} (hm : ctx.registry.lookup name = some m) :
      Normal ctx false name ["display_name"] [(name, "display_name")]
  | last {first : Bool} {name step : String} {f : Field} (hf : ctx.fieldAt name step = some f)
      (hdef : f.definition = none) (hreads : f.hasColumn = false → f.ttype.isX2many = true) :
      Normal ctx first name [step] [(name, step)]
  | next {first : Bool} {name step next : String} {f : Field} {rest : List String}
      {kept : List (String × String)} (hf : ctx.fieldAt name step = some f)
      (hdef : f.definition = none) (hreads : f.hasColumn = false → f.ttype.isX2many = true)
      (hnext : f.relation = some next) (hne : rest ≠ []) (hrest : Normal ctx false next rest kept) :
      Normal ctx first name (step :: rest) ((name, step) :: kept)
  | related {first : Bool} {name step : String} {f : Field} {d rest : List String}
      {kept : List (String × String)} (hf : ctx.fieldAt name step = some f)
      (hdef : f.definition = some d) (hrest : Normal ctx first name (d ++ rest) kept) :
      Normal ctx first name (step :: rest) kept

/-- **A rewriting that succeeds** takes a turn for each step that is left, at least. -/
lemma trackFrom_ok {ctx : ExprCtx} {fuel : ℕ} : ∀ {done : List (String × String)}
    {name : String} {path : List String} {out : List (String × String)},
    ctx.trackFrom fuel done name path = .ok out →
      ∃ kept, out = done ++ kept ∧ kept.length ≤ fuel ∧ ctx.Normal done.isEmpty name path kept := by
  induction fuel with
  | zero =>
      intro done name path out h
      cases path with
      | nil => exact ⟨[], by simpa [trackFrom] using h.symm, le_rfl, .nil _ _⟩
      | cons step rest => simp [trackFrom] at h
  | succ fuel ih =>
      intro done name path out h
      cases path with
      | nil => exact ⟨[], by simpa [trackFrom] using h.symm, by simp, .nil _ _⟩
      | cons step rest =>
          rw [trackFrom, bind_eq_ok] at h
          obtain ⟨m, hm, h⟩ := h
          rw [Registry.get, orRefuse_eq_ok] at hm
          by_cases htrail : rest.isEmpty = true ∧ step = "display_name" ∧ (!done.isEmpty) = true
          · rw [if_pos htrail, Except.ok.injEq] at h
            obtain ⟨hrest, rfl, hdone⟩ := htrail
            rw [Bool.not_eq_eq_eq_not, Bool.not_true] at hdone
            rw [List.isEmpty_iff.mp hrest, hdone]
            exact ⟨[(name, "display_name")], h.symm, by simp, .displayName hm⟩
          · rw [if_neg htrail, bind_eq_ok] at h
            obtain ⟨f, hf, h⟩ := h
            rw [orRefuse_eq_ok] at hf
            have hat : ctx.fieldAt name step = some f := by simp [fieldAt, hm, hf]
            cases hdef : f.definition with
            | some d =>
                rw [hdef] at h
                obtain ⟨kept, hout, hlen, hkept⟩ := ih h
                exact ⟨kept, hout, by omega, .related hat hdef hkept⟩
            | none =>
                rw [hdef] at h
                dsimp only at h
                split_ifs at h with hreads hrest
                · simp at h
                · rw [Except.ok.injEq] at h
                  rw [List.isEmpty_iff.mp hrest]
                  exact ⟨[(name, step)], h.symm, by simp, .last hat hdef (by simpa using hreads)⟩
                · rw [bind_eq_ok] at h
                  obtain ⟨next, hnext, h⟩ := h
                  obtain ⟨kept, hout, hlen, hkept⟩ := ih h
                  rw [orRefuse_eq_ok] at hnext
                  rw [show (done ++ [(name, step)]).isEmpty = false by simp] at hkept
                  refine ⟨(name, step) :: kept, by simp [hout], by simpa using hlen, ?_⟩
                  exact .next hat hdef (by simpa using hreads) hnext (by simpa using hrest) hkept

namespace Normal

variable {ctx : ExprCtx} {first : Bool} {name : String} {path : List String}
  {kept : List (String × String)}

lemma ne_nil (h : ctx.Normal first name path kept) (hpath : path ≠ []) : kept ≠ [] := by
  induction h with
  | nil => exact absurd rfl hpath
  | related _ hdef _ ih =>
      refine ih ?_
      intro hnil
      rw [List.append_eq_nil_iff] at hnil
      exact Field.definition_ne_nil _ (hnil.1 ▸ hdef)
  | _ => simp

/-- **The steps that are left read as the path.** -/
lemma read_eq (h : ctx.Normal first name path kept) {ρ ν : Type} (w : ctx.schema.Objects ρ ν) :
    ∀ r, w.model r = name → w.read (kept.map (·.2)) r = w.read path r := by
  induction h with
  | nil => intro r _; rfl
  | displayName => intro r _; rfl
  | last => intro r _; rfl
  | next hf hdef _ hnext hne hrest ih =>
      rintro r rfl
      refine w.read_cons_plain ?_ ?_ (by simpa using hrest.ne_nil hne) hne ih
      · simp [schema, hf, hdef]
      · simp [schema, hf, hnext]
  | related hf hdef _ ih =>
      rintro r rfl
      rw [ih r rfl]
      refine (w.read_cons_defined ?_ _).symm
      simp [schema, hf, hdef]

/-- Definitions are put in to the end. -/
lemma settled (h : ctx.Normal first name path kept) :
    ctx.schema.Settled (· = "display_name") first name path := by
  induction h with
  | nil first name => exact Schema.settled_nil first name
  | displayName => exact Schema.settled_kept rfl
  | last hf hdef _ => exact Schema.settled_last (by simp [schema, hf, hdef])
  | next hf hdef _ hnext _ _ ih =>
      exact Schema.settled_cons_plain (by simp [schema, hf, hdef]) (by simp [schema, hf, hnext]) ih
  | related hf hdef _ ih => exact Schema.settled_cons_defined (by simp [schema, hf, hdef]) ih

lemma exists_model (h : ctx.Normal first name path kept) (hpath : path ≠ []) :
    ∃ m, ctx.registry.lookup name = some m := by
  have hfound : ∀ {step : String} {f : Field}, ctx.fieldAt name step = some f →
      ∃ m, ctx.registry.lookup name = some m := by
    intro step f hf
    obtain ⟨m, hm, -⟩ := Option.bind_eq_some_iff.mp hf
    exact ⟨m, hm⟩
  cases h with
  | nil => exact absurd rfl hpath
  | displayName hm => exact ⟨_, hm⟩
  | last hf => exact hfound hf
  | next hf => exact hfound hf
  | related hf => exact hfound hf

/-- The models and fields of the steps that are left. -/
lemma tracked (h : ctx.Normal first name path kept) {before after : List (String × String)}
    {name' step : String} (hkept : kept = before ++ (name', step) :: after) :
    ∃ m', ctx.registry.lookup name' = some m' ∧
      (∀ m, ctx.registry.lookup name = some m → ctx.pathTarget m (before.map (·.2)) = .ok m') ∧
      ((step = "display_name" ∧ after = [] ∧ (first = true → before ≠ [])) ∨
        ∃ f, m'.fields.get? step = some f ∧ f.definition = none ∧
          (after ≠ [] → f.relation.isSome)) := by
  induction h generalizing before with
  | nil => simp at hkept
  | @displayName name m hm =>
      cases before with
      | nil =>
          obtain ⟨⟨rfl, rfl⟩, rfl⟩ := by simpa using hkept
          exact ⟨m, hm, by simp [hm, pathTarget], .inl ⟨rfl, rfl, by simp⟩⟩
      | cons => simp at hkept
  | last hf hdef _ =>
      obtain ⟨m, hm, hfield⟩ := Option.bind_eq_some_iff.mp hf
      cases before with
      | nil =>
          obtain ⟨⟨rfl, rfl⟩, rfl⟩ := by simpa using hkept
          exact ⟨m, hm, by simp [hm, pathTarget], .inr ⟨_, hfield, hdef, by simp⟩⟩
      | cons => simp at hkept
  | next hf hdef _ hnext hne hrest ih =>
      obtain ⟨m, hm, hfield⟩ := Option.bind_eq_some_iff.mp hf
      cases before with
      | nil =>
          obtain ⟨⟨rfl, rfl⟩, rfl⟩ := by simpa using hkept
          exact ⟨m, hm, by simp [hm, pathTarget], .inr ⟨_, hfield, hdef, by simp [hnext]⟩⟩
      | cons head before =>
          rw [List.cons_append, List.cons.injEq] at hkept
          obtain ⟨rfl, hkept⟩ := hkept
          obtain ⟨m₁, hm₁⟩ := hrest.exists_model hne
          obtain ⟨m', hm', htarget, hstep⟩ := ih hkept
          refine ⟨m', hm', ?_, hstep.imp_left fun h => ⟨h.1, h.2.1, by simp⟩⟩
          intro m₀ hm₀
          rw [hm, Option.some.injEq] at hm₀
          subst hm₀
          simp [pathTarget, hfield, hnext, Registry.get, hm₁, orRefuse, htarget m₁ hm₁, bind,
            Except.bind]
  | related hf hdef _ ih => exact ih hkept

/-- The steps that are left come out again, in as many turns. -/
lemma again (h : ctx.Normal first name path kept) : ∀ {fuel : ℕ} {done : List String},
    kept.length ≤ fuel → done.isEmpty = first →
      ctx.normalizeFrom fuel done name (kept.map (·.2)) = .ok (done ++ kept.map (·.2)) := by
  induction h with
  | nil =>
      intro fuel done _ _
      simp [normalizeFrom]
  | displayName hm =>
      intro fuel done hfuel hdone
      obtain ⟨fuel, rfl⟩ := Nat.exists_eq_add_of_le' hfuel
      show ctx.normalizeFrom (fuel + 1) done _ ["display_name"] = _
      simp [normalizeFrom_cons, Registry.get, hm, orRefuse, hdone, bind, Except.bind]
  | @last first name step f hf hdef hreads =>
      intro fuel done hfuel _
      obtain ⟨fuel, rfl⟩ := Nat.exists_eq_add_of_le' hfuel
      obtain ⟨m, hm, hfield⟩ := Option.bind_eq_some_iff.mp hf
      show ctx.normalizeFrom (fuel + 1) done name [step] = .ok (done ++ [step])
      simp only [normalizeFrom_cons, Registry.get, hm, hfield, orRefuse, hdef, bind, Except.bind]
      cases hcol : f.hasColumn with
      | true => simp
      | false => simp [hreads hcol]
  | @next first name step next f rest kept hf hdef hreads hnext hne hrest ih =>
      intro fuel done hfuel _
      obtain ⟨fuel, rfl⟩ : ∃ k, fuel = k + 1 := Nat.exists_eq_add_of_le' (Nat.one_le_of_lt hfuel)
      obtain ⟨m, hm, hfield⟩ := Option.bind_eq_some_iff.mp hf
      have hkept : (kept.map (·.2)).isEmpty = false := by simpa using hrest.ne_nil hne
      have hagain : ctx.normalizeFrom fuel (done ++ [step]) next (kept.map (·.2))
          = .ok (done ++ [step] ++ kept.map (·.2)) := ih (Nat.le_of_succ_le_succ hfuel) (by simp)
      show ctx.normalizeFrom (fuel + 1) done name (step :: kept.map (·.2)) = _
      simp only [normalizeFrom_cons, Registry.get, hm, hfield, orRefuse, hdef, hkept, hnext, bind,
        Except.bind, hagain]
      cases hcol : f.hasColumn with
      | true => simp
      | false => simp [hreads hcol]
  | related _ _ _ ih => exact ih

end Normal

/-! ## Normalised paths -/

/-- What a normalised path is: its steps stand for themselves and all but the last lead on, through
the models that were looked up on the way; it reads as the path did, and comes out again; and the
path ran into no cycle of definitions but through a display name at the end of a longer path. -/
structure NormalForm (ctx : ExprCtx) (model : Model) (path out : List String) : Prop where
  stands : ∀ before step after, out = before ++ step :: after →
    (step = "display_name" ∧ after = [] ∧ before ≠ []) ∨
      ∃ m f, ctx.pathTarget model before = .ok m ∧ m.fields.get? step = some f ∧
        f.definition = none ∧ (after ≠ [] → f.relation.isSome)
  visits : ∃ tracked, ctx.trackPath model path = .ok tracked ∧ tracked.map (·.2) = out ∧
    ∀ before name step after, tracked = before ++ (name, step) :: after →
      ∃ m, ctx.registry.lookup name = some m ∧ ctx.pathTarget model (before.map (·.2)) = .ok m
  reads : ∀ (ρ ν : Type) (w : ctx.schema.Objects ρ ν) (r : ρ), w.model r = model.name →
    w.read out r = w.read path r
  again : ctx.normalizePath model out = .ok out
  noLastingCycle : ¬ ctx.schema.RunsIntoLastingCycle (· = "display_name") model.name path
  noCycle : ¬ ctx.schema.RunsIntoCycle (ctx.schema.UsesUnkept (· = "display_name")) model.name path

/-- **Normalising a path** reaches a normal form of the same value. -/
theorem normalizePath_normalForm {ctx : ExprCtx} {model : Model} {path out : List String}
    (hmodel : ctx.registry.lookup model.name = some model)
    (h : ctx.normalizePath model path = .ok out) : ctx.NormalForm model path out := by
  have htrack := ctx.normalizeFrom_track maxExpansions [] model.name path
  rw [List.map_nil, ← normalizePath, h, eq_comm, map_eq_ok] at htrack
  obtain ⟨tracked, htracked, rfl⟩ := htrack
  obtain ⟨kept, hkept, hlen, hnormal⟩ := trackFrom_ok htracked
  rw [List.nil_append] at hkept
  subst hkept
  refine ⟨?_, ⟨_, htracked, rfl, ?_⟩, ?_, ?_, ?_, ?_⟩
  · intro before step after hsplit
    obtain ⟨before, rest, rfl, rfl, hrest⟩ := List.map_eq_append_iff.mp hsplit
    obtain ⟨⟨name, step⟩, after, rfl, rfl, rfl⟩ := List.map_eq_cons_iff.mp hrest
    obtain ⟨m, -, htarget, hstep⟩ := hnormal.tracked rfl
    rcases hstep with ⟨hname, rfl, hbefore⟩ | ⟨f, hf, hdef, hrel⟩
    · left
      simpa [hname] using hbefore rfl
    · right
      exact ⟨m, f, htarget model hmodel, hf, hdef, by simpa using hrel⟩
  · intro before name step after hsplit
    obtain ⟨m, hm, htarget, -⟩ := hnormal.tracked hsplit
    exact ⟨m, hm, htarget model hmodel⟩
  · intro ρ ν w r hr
    exact hnormal.read_eq w r hr
  · exact hnormal.again hlen rfl
  · exact Schema.not_runsIntoLastingCycle hnormal.settled
  · exact Schema.not_runsIntoCycle hnormal.settled

/-! ## Two registries -/

/-- A field without a column that stands for a path. -/
def relatedField (name path : String) : Field :=
  { Field.column name .Char "" none with hasColumn := false, stored := false, related := some path }

/-- A link to a record of a model, which may be unset. -/
def optionalLink (name comodel : String) : Field :=
  { linkField name comodel with notNull := false, required := false }

def partnerModel : Model := plainModel "res.partner" "res_partner"
  [("country_id", optionalLink "country_id" "res.country"),
    ("country_code", relatedField "country_code" "country_id.code")]

def usersModel : Model := plainModel "res.users" "res_users"
  [("partner_id", linkField "partner_id" "res.partner")]

def countryModel : Model := plainModel "res.country" "res_country"
  [("code", Field.column "code" .Char "varchar" none)]

/-- Users with a partner in a country, whose code a partner has as a related field. -/
def usersContext : ExprCtx :=
  .plain (plainRegistry [("res.users", usersModel), ("res.partner", partnerModel),
    ("res.country", countryModel)]) (Security.plain [] []) none

lemma usersContext_definition {name step : String} {d : List String}
    (h : usersContext.schema.definition name step = some d) :
    name = "res.partner" ∧ step = "country_code" ∧ d = ["country_id", "code"] := by
  obtain ⟨f, hf, hdef⟩ := Option.bind_eq_some_iff.mp h
  obtain ⟨m, hm, hfield⟩ := Option.bind_eq_some_iff.mp hf
  simp only [usersContext, plain, plainRegistry, Registry.lookup, Dict.get?_cons, Dict.get?_nil] at hm
  split_ifs at hm with h₁ h₂ h₃ <;> obtain rfl := Option.some.inj hm
  · simp only [usersModel, plainModel, Dict.get?_cons, Dict.get?_nil] at hfield
    split_ifs at hfield with h₄
    obtain rfl := Option.some.inj hfield
    cases hdef
  · simp only [partnerModel, plainModel, Dict.get?_cons, Dict.get?_nil] at hfield
    split_ifs at hfield with h₄ h₅ <;> obtain rfl := Option.some.inj hfield
    · cases hdef
    · refine ⟨h₂.symm, h₅.symm, ?_⟩
      have hpath : (relatedField "country_code" "country_id.code").definition
        = some ["country_id", "code"] := by decide +kernel
      rw [hpath, Option.some.injEq] at hdef
      exact hdef.symm
  · simp only [countryModel, plainModel, Dict.get?_cons, Dict.get?_nil] at hfield
    split_ifs at hfield with h₄
    obtain rfl := Option.some.inj hfield
    cases hdef

/-- A user, numbered `0`, with a partner, numbered `1`, in Belgium. -/
def usersObjects : usersContext.schema.Objects ℕ String where
  model
    | 0 => "res.users"
    | 1 => "res.partner"
    | _ => "res.country"
  links
    | 0, "partner_id" => [1]
    | 1, "country_id" => [2]
    | _, _ => []
  value
    | 1, "country_code" => ["BE"]
    | 2, "code" => ["BE"]
    | _, _ => []
  model_of_links := by
    intro r s m _ hleads r' hr'
    split at hr'
    · have hpartner : usersContext.schema.leads "res.users" "partner_id" = some "res.partner" := by
        decide +kernel
      rw [List.mem_singleton.mp hr']
      exact Option.some.inj (hpartner.symm.trans hleads)
    · have hcountry : usersContext.schema.leads "res.partner" "country_id" = some "res.country" := by
        decide +kernel
      rw [List.mem_singleton.mp hr']
      exact Option.some.inj (hcountry.symm.trans hleads)
    · simp at hr'
  links_defined := by
    intro r s d hdef
    obtain ⟨hr, rfl, rfl⟩ := usersContext_definition hdef
    match r, hr with
    | 1, _ => decide +kernel
  value_defined := by
    intro r s d hdef
    obtain ⟨hr, rfl, rfl⟩ := usersContext_definition hdef
    match r, hr with
    | 1, _ => decide +kernel

theorem normalizePath_normalForm_users :
    usersContext.NormalForm usersModel ["partner_id", "country_code"]
        ["partner_id", "country_id", "code"] ∧
      usersObjects.read ["partner_id", "country_code"] 0 = ["BE"] :=
  ⟨normalizePath_normalForm rfl (by decide +kernel), by decide +kernel⟩

def nodeModel : Model := plainModel "node" "node"
  [("parent_id", optionalLink "parent_id" "node"), ("label", relatedField "label" "display_name"),
    ("display_name", relatedField "display_name" "parent_id.label")]

/-- Nodes with a label that is their display name, which is the label of their parent. -/
def nodeContext : ExprCtx :=
  .plain (plainRegistry [("node", nodeModel)]) (Security.plain [] []) none

/-- The label of a node is defined by the label of its parent, and normalising it succeeds all the
same: the display name that comes up last is kept. -/
theorem label_normalized_in_cycle :
    nodeContext.registry.lookup nodeModel.name = some nodeModel ∧
      nodeContext.normalizePath nodeModel ["label"] = .ok ["parent_id", "display_name"] ∧
      nodeContext.schema.RunsIntoCycle nodeContext.schema.Uses nodeModel.name ["label"] := by
  have hlabel : nodeContext.schema.Uses ("node", "label") ("node", "display_name") :=
    ⟨[], [], by decide +kernel, .nil _⟩
  have hname : nodeContext.schema.Uses ("node", "display_name") ("node", "label") :=
    ⟨["parent_id"], [], by decide +kernel, .plain (by decide +kernel) (by decide +kernel) (.nil _)⟩
  refine ⟨rfl, by decide +kernel, [], "label", [], "node", ("node", "label"), rfl,
    .nil _, .refl, ?_⟩
  exact .tail (.single hlabel) hname

end ExprCtx

end OdooKernel
