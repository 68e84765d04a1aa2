import OdooKernel.Core.Dict
import OdooKernel.Core.Error
import OdooKernel.Core.Text
import OdooKernel.Domain.Json

/-!
# Requests over HTTP

The body of a call is read as a request.  A request has fields that only Python may fill in, which
say what the principal may do; a body that names one of them is refused.

**Two readers of one type.**  Python and callers from outside send the same kind of object, and the
fields are told apart by their names before the object is read (`publicRequest`); what is read then
has the defaults of the fields that are missing (`Request.Public`).

**Who is let in.**  Two tokens are compared by a digest, with keys made for each comparison, and by
their lengths; the digest is a parameter, and what it takes for one token to be another is said where
it is used.  Without a token the server serves everybody as one user.

* `Request`, `Request.ofFields` — a request, and how one is read from the fields of an object.
* `publicRequest` — the request of a body from outside; `publicRequest_public`.
* `tokenMatches`, `admitRequest` — whether the caller is let in, and as whom.
-/

namespace OdooKernel

/-! ## Reading -/

/-- How a value is read; nothing where it has another shape. -/
abbrev Decoder (α : Type) := Json → Option α

namespace Decoder

variable {α β : Type}

def json : Decoder Json := some

def text : Decoder String := Json.asStr

def bool : Decoder Bool
  | .bool b => some b
  | _ => none

/-- An integer of a range. -/
def int (least bound : ℤ) : Decoder ℤ
  | .number (.int n) => if least ≤ n ∧ n < bound then some n else none
  | _ => none

def i32 : Decoder ℤ := int (-2 ^ 31) (2 ^ 31)

def i64 : Decoder ℤ := int (-2 ^ 63) (2 ^ 63)

def u64 : Decoder ℕ := fun v => (int 0 (2 ^ 64) v).map Int.toNat

/-- A value that may be null. -/
def option (read : Decoder α) : Decoder (Option α)
  | .null => some none
  | v => (read v).map some

def vec (read : Decoder α) : Decoder (List α)
  | .array items => items.mapM read
  | _ => none

def pair (first : Decoder α) (second : Decoder β) : Decoder (α × β)
  | .array [a, b] => (first a).bind fun a => (second b).map fun b => (a, b)
  | _ => none

/-- An object, with each key read on its own. -/
def map (key : String → Option α) (read : Decoder β) : Decoder (List (α × β))
  | .object fields => fields.mapM fun field =>
      (key field.1).bind fun k => (read field.2).map fun v => (k, v)
  | _ => none

/-- The digits of a number, of which only zero starts with one. -/
def digits (cs : List Char) : Option ℕ :=
  if cs = ['0'] then some 0
  else if cs.head? = some '0' ∨ cs.isEmpty ∨ !cs.all Char.isDigit then none
  else some (digitsValue cs)

/-- A key that is an integer; `-0` is a double. -/
def i32Key (key : String) : Option ℤ :=
  let n : Option ℤ := match key.toList with
    | '-' :: cs => (digits cs).bind fun n => if n = 0 then none else some (-(n : ℤ))
    | cs => (digits cs).map Int.ofNat
  n.bind fun n => i32 (.number (.int n))

/-- A text of white space is none. -/
def blankIsNone : Decoder (Option String) := fun v =>
  (option text v).map fun s => s.filter fun s => trimmed s.toList ≠ []

end Decoder

/-- Who a request is from. -/
inductive UidSpec where
  | Id (uid : ℤ)
  | Symbol (name : String)
deriving DecidableEq, Repr

/-- The first kind that fits. -/
def UidSpec.read : Decoder UidSpec := fun v =>
  ((Decoder.i32 v).map .Id).orElse fun _ => (Decoder.text v).map .Symbol

/-- A request. -/
structure Request where
  id : Option String
  registrySequence : Option ℤ
  model : String
  method : String
  domain : Json
  fields : List String
  limit : Option ℕ
  offset : Option ℕ
  order : Option String
  groupby : Json
  aggregates : List String
  having : Json
  uid : Option UidSpec
  su : Bool
  lang : Option String
  allowedCompanyIds : Option (List ℤ)
  principalGroups : Option (Dict ℤ (Option (List ℤ)))
  accessPartner : Option (ℤ × ℤ)
  groupbyLabels : Option Bool
  groupbyHiddenLabelsEmpty : Bool
  rawMany2one : List String
  unredactedMany2one : List String
  activeTest : Option Bool
  x2manyActiveTest : Option Bool
  tz : Option String
  rootActiveTest : Option Bool
  trustedDomain : Bool
  resolvedRules : Dict String Json
  sqlNonce : Option String
  orderFragments : List Json
deriving DecidableEq, Repr

/-- The fields of a request that only Python may fill in. -/
def internalFields : List String :=
  ["principal_groups", "access_partner", "groupby_hidden_labels_empty", "raw_many2one",
    "unredacted_many2one", "root_active_test", "trusted_domain", "resolved_rules", "sql_nonce",
    "order_fragments"]

/-- The fields that a caller may name. -/
def publicFields : List String :=
  ["id", "registry_sequence", "model", "method", "domain", "fields", "limit", "offset", "order",
    "groupby", "aggregates", "having", "uid", "su", "lang", "allowed_company_ids", "active_test", "tz",
    "groupby_labels", "x2many_active_test"]

section Fields

variable {α : Type} (fields : Dict String Json)

/-- A field that may be missing. -/
def fieldOr (name : String) (default : α) (read : Decoder α) : Option α :=
  match fields.get? name with
  | none => some default
  | some v => read v

/-- A field that may not. -/
def fieldOf (name : String) (read : Decoder α) : Option α := (fields.get? name).bind read

end Fields

open Decoder in
/-- **A request, from the fields of an object**, which are all known. -/
def Request.ofFields (fields : Dict String Json) : Option Request := do
  if fields.any fun field => field.1 ∉ publicFields ++ internalFields then none
  else
    let id ← fieldOr fields "id" none (option text)
    let registrySequence ← fieldOr fields "registry_sequence" none (option i64)
    let model ← fieldOf fields "model" text
    let method ← fieldOf fields "method" text
    let domain ← fieldOr fields "domain" .null json
    let names ← fieldOr fields "fields" [] (vec text)
    let limit ← fieldOr fields "limit" none (option u64)
    let offset ← fieldOr fields "offset" none (option u64)
    let order ← fieldOr fields "order" none blankIsNone
    let groupby ← fieldOr fields "groupby" .null json
    let aggregates ← fieldOr fields "aggregates" [] (vec text)
    let having ← fieldOr fields "having" .null json
    let uid ← fieldOr fields "uid" none (option UidSpec.read)
    let su ← fieldOr fields "su" false bool
    let lang ← fieldOr fields "lang" none (option text)
    let allowedCompanyIds ← fieldOr fields "allowed_company_ids" none (option (vec i32))
    let principalGroups ← fieldOr fields "principal_groups" none
      (option (map i32Key (option (vec i32))))
    let accessPartner ← fieldOr fields "access_partner" none (option (pair i32 i32))
    let groupbyLabels ← fieldOr fields "groupby_labels" none (option bool)
    let groupbyHiddenLabelsEmpty ← fieldOr fields "groupby_hidden_labels_empty" false bool
    let rawMany2one ← fieldOr fields "raw_many2one" [] (vec text)
    let unredactedMany2one ← fieldOr fields "unredacted_many2one" [] (vec text)
    let activeTest ← fieldOr fields "active_test" none (option bool)
    let x2manyActiveTest ← fieldOr fields "x2many_active_test" none (option bool)
    let tz ← fieldOr fields "tz" none (option text)
    let rootActiveTest ← fieldOr fields "root_active_test" none (option bool)
    let trustedDomain ← fieldOr fields "trusted_domain" false bool
    let resolvedRules ← fieldOr fields "resolved_rules" [] (map some json)
    let sqlNonce ← fieldOr fields "sql_nonce" none (option text)
    let orderFragments ← fieldOr fields "order_fragments" [] (vec json)
    return { id, registrySequence, model, method, domain, fields := names, limit, offset, order
             groupby, aggregates, having, uid, su, lang, allowedCompanyIds, principalGroups
             accessPartner, groupbyLabels, groupbyHiddenLabelsEmpty, rawMany2one, unredactedMany2one
             activeTest, x2manyActiveTest, tz, rootActiveTest, trustedDomain, resolvedRules, sqlNonce
             orderFragments }

/-- **Nothing is said that only Python may say.** -/
structure Request.Public (req : Request) : Prop where
  principalGroups : req.principalGroups = none
  accessPartner : req.accessPartner = none
  groupbyHiddenLabelsEmpty : req.groupbyHiddenLabelsEmpty = false
  rawMany2one : req.rawMany2one = []
  unredactedMany2one : req.unredactedMany2one = []
  rootActiveTest : req.rootActiveTest = none
  trustedDomain : req.trustedDomain = false
  resolvedRules : req.resolvedRules = []
  sqlNonce : req.sqlNonce = none
  orderFragments : req.orderFragments = []

lemma fieldOr_of_missing {α : Type} {fields : Dict String Json} {name : String}
    (h : ∀ field ∈ fields, field.1 ≠ name) (default : α) (read : Decoder α) :
    fieldOr fields name default read = some default := by
  unfold fieldOr
  cases hget : fields.get? name with
  | none => rfl
  | some v => exact absurd rfl (h _ (Dict.mem_of_get? hget))

/-- A field that is not public is missing where all fields are public. -/
lemma fieldOr_of_public {α : Type} {fields : Dict String Json} {name : String}
    (hpublic : ∀ field ∈ fields, field.1 ∈ publicFields) (hname : name ∉ publicFields) {default a : α}
    {read : Decoder α} (h : fieldOr fields name default read = some a) : a = default := by
  have hmissing : ∀ field ∈ fields, field.1 ≠ name := by
    rintro field hfield rfl
    exact hname (hpublic field hfield)
  rw [fieldOr_of_missing hmissing] at h
  exact (Option.some.inj h).symm

/-- A request whose fields are public says nothing else. -/
lemma Request.ofFields_public {fields : Dict String Json} {req : Request}
    (hpublic : ∀ field ∈ fields, field.1 ∈ publicFields) (h : Request.ofFields fields = some req) :
    req.Public := by
  unfold Request.ofFields at h
  split at h
  · cases h
  · -- The fields are read one after the other; what is said of a public one does not matter.
    iterate 16 obtain ⟨_, -, h⟩ := Option.bind_eq_some_iff.mp h
    obtain ⟨principalGroups, hgroups, h⟩ := Option.bind_eq_some_iff.mp h
    obtain ⟨accessPartner, hpartner, h⟩ := Option.bind_eq_some_iff.mp h
    obtain ⟨_, -, h⟩ := Option.bind_eq_some_iff.mp h
    obtain ⟨hidden, hhidden, h⟩ := Option.bind_eq_some_iff.mp h
    obtain ⟨raw, hraw, h⟩ := Option.bind_eq_some_iff.mp h
    obtain ⟨unredacted, hunredacted, h⟩ := Option.bind_eq_some_iff.mp h
    iterate 3 obtain ⟨_, -, h⟩ := Option.bind_eq_some_iff.mp h
    obtain ⟨activeTest, hactive, h⟩ := Option.bind_eq_some_iff.mp h
    obtain ⟨trusted, htrusted, h⟩ := Option.bind_eq_some_iff.mp h
    obtain ⟨rules, hrules, h⟩ := Option.bind_eq_some_iff.mp h
    obtain ⟨nonce, hnonce, h⟩ := Option.bind_eq_some_iff.mp h
    obtain ⟨fragments, hfragments, h⟩ := Option.bind_eq_some_iff.mp h
    obtain rfl := Option.some.inj h
    exact
      { principalGroups := fieldOr_of_public hpublic (by decide) hgroups
        accessPartner := fieldOr_of_public hpublic (by decide) hpartner
        groupbyHiddenLabelsEmpty := fieldOr_of_public hpublic (by decide) hhidden
        rawMany2one := fieldOr_of_public hpublic (by decide) hraw
        unredactedMany2one := fieldOr_of_public hpublic (by decide) hunredacted
        rootActiveTest := fieldOr_of_public hpublic (by decide) hactive
        trustedDomain := fieldOr_of_public hpublic (by decide) htrusted
        resolvedRules := fieldOr_of_public hpublic (by decide) hrules
        sqlNonce := fieldOr_of_public hpublic (by decide) hnonce
        orderFragments := fieldOr_of_public hpublic (by decide) hfragments }

/-! ## What is let in -/

/-- The statuses of the server's answers. -/
inductive Status where
  | OK
  | BAD_REQUEST
  | UNAUTHORIZED
  | FORBIDDEN
  | UNPROCESSABLE_ENTITY
  | INTERNAL_SERVER_ERROR
  | SERVICE_UNAVAILABLE
  | GATEWAY_TIMEOUT
deriving DecidableEq, Repr

/-- Whom the server lets in: who has its token, as whom they say, or everybody, as one user. -/
inductive Auth where
  | Token (secret : String) (allowSu : Bool)
  | Pinned (uid : ℤ)
deriving DecidableEq, Repr

/-- The texts that the libraries make: a string between quotes, and why a body is no request. -/
structure ErrorTexts where
  quoted : String → String
  decodeError : Json → String

/-- **The request of a body from outside**, which names public fields only. -/
def publicRequest (texts : ErrorTexts) (body : Json) : Except (Status × String) Request :=
  match body with
  | .object fields =>
    match fields.find? fun field => field.1 ∉ publicFields with
    | some field =>
      .error (.FORBIDDEN, "field " ++ texts.quoted field.1 ++ " is not accepted over HTTP")
    | none =>
      match Request.ofFields fields with
      | some req => .ok req
      | none => .error (.BAD_REQUEST, texts.decodeError body)
  | _ => .error (.BAD_REQUEST, "expected a request object")

/-- Two tokens are compared by a digest with keys made for the comparison, and by their lengths; no
token matches an empty one. -/
def tokenMatches (digest : String → ℕ × ℕ) (given expected : String) : Bool :=
  digest given = digest expected && given.utf8ByteSize = expected.utf8ByteSize && expected ≠ ""

/-- The refusal of a superuser. -/
def suRefusal : String :=
  "su is not accepted over HTTP unless the server was started with RUSTORM_SERVE_ALLOW_SU=1"

/-- **As whom a request is served.** -/
def admitRequest (auth : Auth) (req : Request) : Except (Status × String) Request :=
  match auth with
  | .Pinned uid => .ok { req with uid := some (.Id uid), su := false }
  | .Token _ allowSu =>
    if req.su && !allowSu then .error (.FORBIDDEN, suRefusal) else .ok req

/-- The fields of a body that is read are public. -/
lemma publicRequest_fields {texts : ErrorTexts} {body : Json} {req : Request}
    (h : publicRequest texts body = .ok req) : ∃ fields, body = .object fields ∧
      (∀ field ∈ fields, field.1 ∈ publicFields) ∧ Request.ofFields fields = some req := by
  unfold publicRequest at h
  split at h
  · next fields =>
      split at h
      · cases h
      · next hfind =>
          split at h
          · next hreq =>
              obtain rfl := Except.ok.inj h
              refine ⟨fields, rfl, fun field hfield => ?_, hreq⟩
              simpa using List.find?_eq_none.mp hfind field hfield
          · cases h
  · cases h

/-- A body from outside says nothing that only Python may say. -/
lemma publicRequest_public {texts : ErrorTexts} {body : Json} {req : Request}
    (h : publicRequest texts body = .ok req) : req.Public := by
  obtain ⟨fields, -, hpublic, hreq⟩ := publicRequest_fields h
  exact Request.ofFields_public hpublic hreq

lemma admit_public {auth : Auth} {req admitted : Request} (hreq : req.Public)
    (h : admitRequest auth req = .ok admitted) : admitted.Public := by
  unfold admitRequest at h
  split at h
  · obtain rfl := Except.ok.inj h
    exact { hreq with }
  · split at h
    · cases h
    · obtain rfl := Except.ok.inj h
      exact hreq

/-- A superuser is let in only where that is allowed. -/
lemma admit_su {secret : String} {allowSu : Bool} {req admitted : Request}
    (h : admitRequest (.Token secret allowSu) req = .ok admitted) (hsu : admitted.su = true) :
    allowSu = true := by
  simp only [admitRequest] at h
  split at h
  · cases h
  · next hallowed =>
      obtain rfl := Except.ok.inj h
      simpa [hsu] using hallowed

/-- A pinned user is who the request is from. -/
lemma admit_pinned {uid : ℤ} {req admitted : Request}
    (h : admitRequest (.Pinned uid) req = .ok admitted) :
    admitted.uid = some (.Id uid) ∧ admitted.su = false := by
  obtain rfl := Except.ok.inj h
  exact ⟨rfl, rfl⟩

end OdooKernel
