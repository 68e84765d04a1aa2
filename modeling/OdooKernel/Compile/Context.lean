import OdooKernel.Access.Security
import OdooKernel.Compile.Log
import OdooKernel.Compile.Values
import OdooKernel.Sql.Expr

/-!
# The context of a compilation

What a compilation knows beside the model that it compiles for: the registry, the access data and
defaults of the `Dynamic` in use, and the request's language, company, time zone and nonce.  The
libraries that the source uses are part of it, as functions: the table of time zones, the double
nearest to a rational, and the hash of an alias.

**Paths.**  A path may lead through related fields, each of which stands for a path.  They are put in
one after the other, up to a bound on the steps (`maxExpansions`), and a display name at the end of a
longer path is left as it is; `Compile/NormalForm` says what comes of it.

* `ExprCtx.fieldExpr` — the expression that a stored field is read with.
* `ExprCtx.checkPathReadable` — whether the principal may filter on each field of a path.
* `ExprCtx.normalizePath`, `ExprCtx.pathTarget` — a path without related fields, and the model it
  leads to.
-/

namespace OdooKernel

/-- Whose access a compilation checks: the principal, the groups it holds, and the companies the
limited ones are held in. -/
structure Access where
  uid : ℤ
  groups : Finset ℤ
  scopes : GroupScopes

/-- The default values of a company-dependent field, by company. -/
structure CompanyDefault where
  ordered : List (Option ℤ × Json)

/-- The default of a company: the first entry that is its own or everyone's, if it has a value. -/
def CompanyDefault.fallback (d : CompanyDefault) (companyId : ℤ) : Option Json :=
  ((d.ordered.find? fun e => e.1.all (· = companyId)).map (·.2)).filter (· ≠ .null)

/-- What a compilation knows beside the model: the registry, the access data and defaults of its
`Dynamic`, and the request.  The zone table gives the instant at which a day starts in a zone, where
there is exactly one; an alias that is too long gets a hash of eight digits in its place. -/
structure ExprCtx where
  registry : Registry
  security : Security
  defaults : Dict String (Dict String CompanyDefault)
  lang : String
  companyId : ℤ
  access : Option Access
  activeTest : Bool
  tz : Option String
  sqlNonce : Option String
  orderFragments : List Json
  zones : String → Option (Date → Option Instant)
  toDouble : ℚ → Option ℚ
  rewriteFragment : String → List String → Result String
  aliasHash : String → String

/-- The context of a request in English, in the first company, without a time zone. -/
def ExprCtx.plain (registry : Registry) (security : Security) (access : Option Access) :
    ExprCtx where
  registry := registry
  security := security
  defaults := []
  lang := "en_US"
  companyId := 1
  access := access
  activeTest := true
  tz := none
  sqlNonce := none
  orderFragments := []
  zones _ := none
  toDouble := some
  rewriteFragment code _ := .ok code
  aliasHash _ := "00000000"

/-- The type that a column of a field is cast to. -/
def pgCastType : FieldType → String
  | .Boolean => "bool"
  | .Integer | .Many2one | .Many2oneReference => "int4"
  | .Float | .Monetary => "float8"
  | .Text | .Html => "text"
  | .Date => "date"
  | .Datetime => "timestamp"
  | _ => "varchar"

namespace ExprCtx

/-- The context that rules are compiled in: no principal, and no filter on active records. -/
def forRules (ctx : ExprCtx) : ExprCtx := { ctx with access := none, activeTest := false }

/-! ## Reading a column -/

/-- What a company-dependent field falls back on. -/
def cdFallbackFor (ctx : ExprCtx) (model : Model) (f : Field) : Option Json :=
  let own := (ctx.defaults.get? model.name).bind fun fields =>
    (fields.get? f.name).bind fun d => d.fallback ctx.companyId
  own.orElse fun _ => f.cdFallback.filter fun v => (toValue f v).toOption.isSome

/-- A company-dependent column, out of its `jsonb`. -/
def companyDependentExpr (ctx : ExprCtx) (model : Model) (f : Field) (raw : Expr) : Result Expr := do
  let ty := pgCastType f.ttype
  let fallback ← match ctx.cdFallbackFor model f with
    | some v => some <$> toValue f v
    | none => .ok none
  let coalesced := Expr.companyJson raw (toString ctx.companyId) ty fallback
  match f.ttype with
  | .Boolean | .Integer | .Float | .Monetary => return .castJson coalesced ty
  | .Many2one =>
    let co ← ctx.registry.get (← f.comodel)
    return .select (.from (.col "e" "id") co.table "e"
      [.compare .eq (.col "e" "id") (.castItem coalesced ty)])
  | _ => return .castItem coalesced ty

/-- **The expression a stored field is read with.** -/
def fieldExpr (ctx : ExprCtx) (model : Model) (f : Field) (aliasName : String) : Compile Expr :=
  if !f.hasColumn then
    liftM (refuse ("field " ++ model.name ++ "." ++ f.name ++ " has no column") : Result Expr)
  else do
    Compile.touch model.name f.name
    let raw := Expr.col aliasName f.name
    if f.companyDependent then liftM (ctx.companyDependentExpr model f raw)
    else if f.translated then return .translation raw ctx.lang
    else return raw

/-! ## Paths -/

/-- The refusal of a field that the principal may not read. -/
def unreadable (uid : ℤ) (model : Model) (field : Field) : String :=
  "access denied: uid " ++ toString uid ++ " may not filter on " ++ model.name ++ "." ++ field.name
    ++ ": the field is restricted to " ++ field.groups.getD "."

/-- Each field of a path is readable, as far as the path can be followed. -/
def checkReadable (ctx : ExprCtx) (access : Access) : Model → List String → Result Unit
  | _, [] => .ok ()
  | model, step :: rest =>
    match model.fields.get? step with
    | none => .ok ()
    | some field => do
      if !(← ctx.registry.fieldReadable field access.groups access.scopes.containsKey) then
        denyAccess (unreadable access.uid model field)
      else if rest.isEmpty then .ok ()
      else
        match field.relation.bind ctx.registry.lookup with
        | some next => checkReadable ctx access next rest
        | none => .ok ()

/-- Whether the principal, if there is one, may filter on a path. -/
def checkPathReadable (ctx : ExprCtx) (model : Model) (path : List String) : Result Unit :=
  match ctx.access with
  | some access => ctx.checkReadable access model path
  | none => .ok ()

/-- The bound on the steps of a path that related fields are expanded in. -/
def maxExpansions : ℕ := 64

/-- The steps that are left, with related fields in place of the paths they stand for. -/
def normalizeFrom (ctx : ExprCtx) : ℕ → List String → String → List String → Result (List String)
  | _, done, _, [] => .ok done
  | 0, _, modelName, _ :: _ => refuse ("related expansion loop at " ++ modelName)
  | fuel + 1, done, modelName, step :: rest => do
    let m ← ctx.registry.get modelName
    if rest.isEmpty ∧ step = "display_name" ∧ !done.isEmpty then .ok (done ++ [step])
    else
      let field ← orRefuse ("unknown field " ++ modelName ++ "." ++ step) (m.fields.get? step)
      match field.hasColumn, field.related with
      | false, some rel => normalizeFrom ctx fuel done modelName (splitDots rel ++ rest)
      | _, _ =>
        if !field.hasColumn && !field.ttype.isX2many then
          refuse ("cannot traverse non-stored " ++ modelName ++ "." ++ step)
        else if rest.isEmpty then .ok (done ++ [step])
        else
          let next ← orRefuse (modelName ++ "." ++ step ++ " is not relational") field.relation
          normalizeFrom ctx fuel (done ++ [step]) next rest

/-- **A path without related fields**, a trailing display name aside. -/
def normalizePath (ctx : ExprCtx) (model : Model) (path : List String) : Result (List String) :=
  ctx.normalizeFrom maxExpansions [] model.name path

/-- The model that a path leads to. -/
def pathTarget (ctx : ExprCtx) : Model → List String → Result Model
  | model, [] => .ok model
  | model, step :: rest => do
    let f ← orRefuse ("unknown field " ++ model.name ++ "." ++ step) (model.fields.get? step)
    let relation ← orRefuse (model.name ++ "." ++ step ++ " is not relational") f.relation
    pathTarget ctx (← ctx.registry.get relation) rest

end ExprCtx

end OdooKernel
