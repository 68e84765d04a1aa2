import OdooKernel.Core.Dict
import OdooKernel.Core.Error
import OdooKernel.Domain.Node

/-!
# The compiled rules of an identity

What a request knows of the rules of the models: for each model that was compiled its rule node, if
it is restricted, or the reason why its rules could not be built.  A model that has rules and was not
compiled is told from one that has none, because reading the first must fail and reading the second
must not.

* `RuleSet` — the rule nodes, the columns that their resolution read, and which models were compiled.
* `RuleSet.insert`, `resolve`, `markUnrestricted`, `markUnevaluated` — how an entry is made.
* `RuleSet.ensureEvaluated` — the check before a model's rules are read.
-/

namespace OdooKernel

/-- The compiled rules of an identity. -/
structure RuleSet where
  domains : Dict String Node
  /-- The columns that a model's rules read while they were resolved. -/
  reads : Dict String (List (String × String))
  unevaluated : Dict String String
  ruled : List String
  compiled : List String

/-- A value is no longer under a key. -/
def Dict.erase {κ α : Type} [DecidableEq κ] (d : Dict κ α) (k : κ) : Dict κ α :=
  d.filter (·.1 ≠ k)

namespace RuleSet

/-- No rules: what a superuser compiles with. -/
def empty : RuleSet where
  domains := []
  reads := []
  unevaluated := []
  ruled := []
  compiled := []

/-- Nothing compiled yet, of the models that have rules. -/
def withRuled (ruled : List String) : RuleSet := { empty with ruled }

def insert (rules : RuleSet) (model : String) (node : Node) : RuleSet :=
  { rules with
    compiled := model :: rules.compiled
    domains := rules.domains.insert model node }

def resolve (rules : RuleSet) (model : String) (node : Node) : RuleSet :=
  { rules with unevaluated := rules.unevaluated.erase model }.insert model node

def markUnrestricted (rules : RuleSet) (model : String) : RuleSet :=
  { rules with compiled := model :: rules.compiled }

def markUnevaluated (rules : RuleSet) (model reason : String) : RuleSet :=
  { rules with
    compiled := model :: rules.compiled
    unevaluated := rules.unevaluated.insert model reason }

def isCompiled (rules : RuleSet) (model : String) : Bool := model ∈ rules.compiled

def get (rules : RuleSet) (model : String) : Option Node := rules.domains.get? model

def noteReads (rules : RuleSet) (model : String) (reads : List (String × String)) : RuleSet :=
  if reads.isEmpty then rules else { rules with reads := rules.reads.insert model reads }

def readsOf (rules : RuleSet) (model : String) : List (String × String) :=
  rules.reads.listAt model

/-- **The check before a model's rules are read**: they were compiled, if the model has rules, and
they could be evaluated. -/
def ensureEvaluated (rules : RuleSet) (model : String) : Result Unit :=
  match rules.unevaluated.get? model with
  | some reason => refuse ("record rules on " ++ model ++ " could not be evaluated (" ++ reason
      ++ "); refusing to read it without them")
  | none =>
    if rules.ruled.contains model && !rules.isCompiled model then
      refuse ("record rules on " ++ model ++ " were not compiled for this request -- the "
        ++ "reachability walk did not reach it. Refusing rather than reading it as unrestricted.")
    else .ok ()

end RuleSet

end OdooKernel
