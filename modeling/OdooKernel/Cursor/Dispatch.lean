import OdooKernel.Cursor.Connection
import OdooKernel.Rules.Identity

/-!
# A dispatch in the caller's transaction

The kernel reads on the caller's connection, behind a savepoint of its own.  What opens and releases
the savepoint is sent without waiting for an answer; the dispatch goes back to it where it fails.

**The server.**  A transaction is where the server is and its savepoints, and a command on savepoints
has the effect that PostgreSQL documents, refusals included.  What becomes of a statement that reads
is the verdict's to say, as a function of everything that was read before; in a transaction that is
aborted nothing has rows, whatever the verdict.

**The kernel.**  What a request makes the kernel read is a `Script`: one statement after the other,
each depending on the rows before it, up to one that has no rows.  The loop over the models whose
rules are wanted is the code's own (`Work.serve`), with the error of a model recorded in its place
unless it is fatal; it may put models on its own list, so that the dispatch takes a number of rounds
and answers nothing where they are too few.

**The proof.**  `Backend.Kept` says what reading leaves of a session: nothing is changed but that an
error that is fatal may have aborted the transaction, and then the dispatch goes back to its
savepoint.

* `Transaction`, `Command`, `Verdict` — the server's side of a transaction, and what it makes of
  commands and of statements that read.
* `Script` — what the kernel sends.
* `Work.serve`, `identityRules` — the rules of an identity.
* `RustKernel.dispatch` — the whole dispatch.
* **`dispatch_keeps_transaction`** — it leaves the transaction as it found it.
-/

namespace OdooKernel

open Cursor (Mode)

/-! ## The server's side -/

/-- A transaction: where the server is, and its savepoints, the latest first. -/
structure Transaction where
  mode : Mode
  savepoints : List String

/-- The commands on savepoints. -/
inductive Command where
  | savepoint (name : String)
  | release (name : String)
  | rollbackTo (name : String)

/-- A command as it is sent. -/
def Command.text : Command → String
  | .savepoint name => "SAVEPOINT " ++ name
  | .release name => "RELEASE SAVEPOINT " ++ name
  | .rollbackTo name => "ROLLBACK TO SAVEPOINT " ++ name

namespace Transaction

/-- A command that is refused aborts the transaction, if there is one. -/
def failing (t : Transaction) : Transaction :=
  { t with mode := if t.mode = .inTransaction then .failed else t.mode }

/-- What the server makes of a command, and whether it does it.  An aborted transaction only goes
back to its savepoints. -/
def exec (t : Transaction) : Command → Transaction × Bool
  | .savepoint name =>
    if t.mode = .inTransaction then ({ t with savepoints := name :: t.savepoints }, true)
    else (t, false)
  | .release name =>
    if t.mode = .inTransaction ∧ name ∈ t.savepoints then
      ({ t with savepoints := (t.savepoints.dropWhile (· ≠ name)).tail }, true)
    else (t.failing, false)
  | .rollbackTo name =>
    if t.mode ≠ .idle ∧ name ∈ t.savepoints then
      ({ mode := .inTransaction, savepoints := t.savepoints.dropWhile (· ≠ name) }, true)
    else (t.failing, false)

/-- Commands that are sent together: the first that is refused is the last. -/
def batch (t : Transaction) : List Command → Transaction
  | [] => t
  | command :: commands =>
    match t.exec command with
    | (t, true) => t.batch commands
    | (t, false) => t

end Transaction

/-- What becomes of a statement that reads: it has rows, the server refuses it, or the client cannot
send it. -/
inductive Verdict where
  | rows (rows : List Row)
  | refused (error : String)
  | unsent (error : String)

/-- A transaction, with the statements that were read in it and those that the server refused. -/
structure Backend where
  transaction : Transaction
  read : List String
  refused : List String

/-- What the server says where a transaction is aborted. -/
def transactionAborted : String :=
  "current transaction is aborted, commands ignored until end of transaction block"

namespace Backend

/-- A statement that the server refuses. -/
def refusing (s : Backend) (sql : String) : Backend :=
  { s with transaction := s.transaction.failing, refused := sql :: s.refused }

/-- A statement that reads. -/
def query (verdict : List String → Verdict) (s : Backend) (sql : String) :
    Except String (List Row) × Backend :=
  let s := { s with read := sql :: s.read }
  match verdict s.read with
  | .unsent e => (.error e, s)
  | .refused e => (.error e, s.refusing sql)
  | .rows rows =>
    -- an aborted transaction reads nothing, whatever the statement
    if s.transaction.mode = .failed then (.error transactionAborted, s.refusing sql)
    else (.ok rows, s)

/-- Commands whose answer nobody waits for. -/
def batch (s : Backend) (commands : List Command) : Backend :=
  { s with transaction := s.transaction.batch commands }

end Backend

/-! ## What the kernel sends -/

/-- A computation that reads: a statement after the other, each depending on the rows before it. -/
inductive Script (α : Type) where
  | done (result : Result α)
  | query (sql : String) (next : List Row → Script α)

/-- What a computation comes to: where a statement has no rows, it ends with the error. -/
def Script.run {α : Type} (verdict : List String → Verdict) : Script α → Backend → Result α × Backend
  | .done result, s => (result, s)
  | .query sql next, s =>
    match s.query verdict sql with
    | (.error e, s) => (.error (.database e), s)
    | (.ok rows, s) => (next rows).run verdict s

/-- What a request's identity is, and what was compiled for it before. -/
structure Identity where
  su : Bool
  base : Option RuleSet
  ruled : List String
  seeds : List String

/-- What a request makes the kernel read: who asks, the rules of a model, and the answer itself.  The
answer begins with the rules that the request itself brings. -/
structure RequestReads where
  identity : Script Identity
  build : String → Model → Script (Option Node × List Event)
  answer : RuleSet → Script String

section Serve

variable (setting : RuleSetting) (verdict : List String → Verdict)

/-- **The rules of the models that are left**, so many at most.  The error of a model is recorded in
its place, unless it is fatal. -/
def Work.serve (build : String → Model → Script (Option Node × List Event)) :
    ℕ → Work → Backend → Option (Result RuleSet × Backend)
  | 0, _, _ => none
  | rounds + 1, w, s =>
    match w.pending with
    | [] => some (.ok w.rules, s)
    | name :: pending =>
      let w := ((setting.registry.inheritsOf name).map (·.1)).foldl Work.push { w with pending }
      match setting.registry.lookup name with
      | none => serve build rounds w s
      | some model =>
        let (built, s) := (build name model).run verdict s
        match w.record setting name model built with
        | .error e => some (.error e, s)
        | .ok w => serve build rounds w s

/-- The rules of an identity. -/
def identityRules (build : String → Model → Script (Option Node × List Event)) (rounds : ℕ)
    (identity : Identity) (s : Backend) : Option (Result RuleSet × Backend) :=
  if identity.su then some (.ok RuleSet.empty, s)
  else (Work.start identity.base identity.ruled identity.seeds).serve setting verdict build rounds s

/-- What a request comes to. -/
def dispatchWith (rounds : ℕ) (reads : RequestReads) (s : Backend) : Option (Result String × Backend) :=
  match reads.identity.run verdict s with
  | (.error e, s) => some (.error e, s)
  | (.ok identity, s) =>
    match identityRules setting verdict reads.build rounds identity s with
    | none => none
    | some (.error e, s) => some (.error e, s)
    | some (.ok rules, s) => some ((reads.answer rules).run verdict s)

end Serve

/-! ## The dispatch -/

def dispatchSavepoint : String := "rust_kernel_dispatch"

def savepointOpen : List Command := [.savepoint dispatchSavepoint]

def savepointRelease : List Command := [.release dispatchSavepoint]

def savepointUndo : List Command := [.rollbackTo dispatchSavepoint, .release dispatchSavepoint]

example : "; ".intercalate (savepointUndo.map Command.text) =
    "ROLLBACK TO SAVEPOINT rust_kernel_dispatch; RELEASE SAVEPOINT rust_kernel_dispatch" := by decide

/-- A kernel, as far as a dispatch asks. -/
structure RustKernel where
  registrySequence : ℤ
  stale : Bool

/-- A request that was read. -/
structure DispatchRequest where
  registrySequence : Option ℤ
  reads : RequestReads

/-- **A dispatch**, on a connection whose transaction was begun unless it commits by itself. -/
def RustKernel.dispatch (setting : RuleSetting) (verdict : List String → Verdict) (rounds : ℕ)
    (kernel : RustKernel) (autocommit : Bool) (request : Except String DispatchRequest)
    (s : Backend) : Option (Result String × RustKernel × Backend) :=
  if kernel.stale then some (.error .registryStale, kernel, s)
  else
    match request with
    | .error e => some (refuse e, kernel, s)
    | .ok req =>
      if req.registrySequence.any (· ≠ kernel.registrySequence) then
        some (refuse "the request's Python registry does not match this kernel's generation",
          kernel, s)
      else if autocommit then
        some (refuse "kernel reads require a repeatable-read transaction", kernel, s)
      else
        match dispatchWith setting verdict rounds req.reads (s.batch savepointOpen) with
        | none => none
        | some (.ok raw, s) => some (.ok raw, kernel, s.batch savepointRelease)
        | some (.error e, s) =>
          let kernel := if e = .registryStale then { kernel with stale := true } else kernel
          some (.error e, kernel, s.batch savepointUndo)

/-! ## What is left of the transaction -/

namespace Backend

/-- What reading leaves of a session: the transaction may be aborted, by an error that is fatal. -/
structure Kept (s s' : Backend) (fatal : Prop) : Prop where
  transaction : s'.transaction = s.transaction ∨ s'.transaction = s.transaction.failing
  kept : ¬ fatal → s'.transaction = s.transaction ∧ s'.refused = s.refused

lemma Kept.refl (s : Backend) (fatal : Prop) : Kept s s fatal := ⟨.inl rfl, fun _ => ⟨rfl, rfl⟩⟩

/-- What follows on a reading without a fatal error. -/
lemma Kept.trans {s s' s'' : Backend} {fatal fatal' : Prop} (h : Kept s s' fatal) (hnot : ¬ fatal)
    (h' : Kept s' s'' fatal') : Kept s s'' fatal' := by
  obtain ⟨htransaction, hrefused⟩ := h.kept hnot
  constructor
  · rw [← htransaction]
    exact h'.transaction
  · intro hnot'
    obtain ⟨htransaction', hrefused'⟩ := h'.kept hnot'
    exact ⟨htransaction'.trans htransaction, hrefused'.trans hrefused⟩

lemma query_kept (verdict : List String → Verdict) (s : Backend) (sql : String) :
    Kept s (s.query verdict sql).2 (∃ e, (s.query verdict sql).1 = .error e) := by
  cases hverdict : verdict (sql :: s.read) with
  | unsent e =>
      simp only [query, hverdict]
      exact ⟨.inl rfl, fun h => absurd ⟨e, rfl⟩ h⟩
  | refused e =>
      simp only [query, hverdict]
      exact ⟨.inr rfl, fun h => absurd ⟨e, rfl⟩ h⟩
  | rows rows =>
      simp only [query, hverdict]
      by_cases hfailed : s.transaction.mode = .failed
      · rw [if_pos hfailed]
        exact ⟨.inr rfl, fun h => absurd ⟨_, rfl⟩ h⟩
      · rw [if_neg hfailed]
        exact ⟨.inl rfl, fun _ => ⟨rfl, rfl⟩⟩

end Backend

open Backend (Kept)

/-- An error of the database. -/
def IsDatabase {α : Type} (result : Result α) : Prop := ∃ e, result = .error (.database e)

lemma not_isDatabase_ok {α : Type} (a : α) : ¬ IsDatabase (.ok a : Result α) := nofun

/-- An error that a computation hands on is one of the database where it was. -/
lemma Backend.Kept.error {α β : Type} {s s' : Backend} {e : KernelError}
    (h : Kept s s' (IsDatabase (.error e : Result α))) :
    Kept s s' (IsDatabase (.error e : Result β)) :=
  ⟨h.transaction, fun hnot => h.kept fun ⟨e', he'⟩ => hnot ⟨e', by rw [Except.error.inj he']⟩⟩

/-- **What a computation leaves**: a statement that is refused is its error. -/
lemma Script.run_kept {α : Type} (verdict : List String → Verdict) :
    ∀ (script : Script α) (s : Backend),
      Kept s (script.run verdict s).2 (IsDatabase (script.run verdict s).1)
  | .done result, s => Kept.refl s _
  | .query sql next, s => by
      have hquery := Backend.query_kept verdict s sql
      rw [Script.run]
      cases hresult : s.query verdict sql with
      | mk reply s' =>
          rw [hresult] at hquery
          cases reply with
          | error e => exact ⟨hquery.transaction, fun h => absurd ⟨e, rfl⟩ h⟩
          | ok rows => exact hquery.trans (by simp) ((next rows).run_kept verdict s')

section Serve

variable {setting : RuleSetting} {verdict : List String → Verdict}

/-- **An error of the database is recorded for no model**: it ends the request. -/
lemma Work.record_database {w w' : Work} {name : String} {model : Model}
    {built : Compile (Option Node)} (h : w.record setting name model built = .ok w') :
    ¬ IsDatabase (built : Result (Option Node × List Event)) := by
  rintro ⟨e, rfl⟩
  simp [Work.record, isFatal] at h

lemma Work.record_error {w : Work} {name : String} {model : Model}
    {built : Compile (Option Node)} {e : KernelError}
    (h : w.record setting name model built = .error e) :
    built = (.error e : Result (Option Node × List Event)) := by
  unfold Work.record at h
  split at h
  · contradiction
  · contradiction
  · split at h
    · exact congrArg Except.error (Except.error.inj h)
    · contradiction

lemma Work.serve_kept (build : String → Model → Script (Option Node × List Event)) :
    ∀ (rounds : ℕ) (w : Work) (s s' : Backend) (result : Result RuleSet),
      w.serve setting verdict build rounds s = some (result, s') →
        Kept s s' (IsDatabase result)
  | 0, w, s, s', result, h => by contradiction
  | rounds + 1, w, s, s', result, h => by
      rw [Work.serve] at h
      cases hpending : w.pending with
      | nil =>
          simp only [hpending, Option.some.injEq, Prod.mk.injEq] at h
          obtain ⟨-, rfl⟩ := h
          exact Kept.refl s _
      | cons name pending =>
          simp only [hpending] at h
          split at h
          · exact serve_kept build rounds _ s s' result h
          · next model hlookup =>
              have hrun := (build name model).run_kept verdict s
              split at h
              · next e hrecord =>
                  obtain ⟨rfl, rfl⟩ := Prod.mk.inj (Option.some.inj h)
                  rw [Work.record_error hrecord] at hrun
                  exact hrun.error
              · next w' hrecord =>
                  exact hrun.trans (Work.record_database hrecord)
                    (serve_kept build rounds w' _ s' result h)

lemma identityRules_kept {build : String → Model → Script (Option Node × List Event)} {rounds : ℕ}
    {identity : Identity} {s s' : Backend} {result : Result RuleSet}
    (h : identityRules setting verdict build rounds identity s = some (result, s')) :
    Kept s s' (IsDatabase result) := by
  unfold identityRules at h
  split at h
  · obtain ⟨-, rfl⟩ := Prod.mk.inj (Option.some.inj h)
    exact Kept.refl s _
  · exact Work.serve_kept build rounds _ s s' result h

lemma dispatchWith_kept {rounds : ℕ} {reads : RequestReads} {s s' : Backend} {result : Result String}
    (h : dispatchWith setting verdict rounds reads s = some (result, s')) :
    Kept s s' (IsDatabase result) := by
  have hidentity := reads.identity.run_kept verdict s
  unfold dispatchWith at h
  split at h
  · next e mid hrun =>
      obtain ⟨rfl, rfl⟩ := Prod.mk.inj (Option.some.inj h)
      rw [hrun] at hidentity
      exact hidentity.error
  · next identity mid hrun =>
      rw [hrun] at hidentity
      split at h
      · contradiction
      · next e last hrules =>
          obtain ⟨rfl, rfl⟩ := Prod.mk.inj (Option.some.inj h)
          exact hidentity.trans (not_isDatabase_ok _) (identityRules_kept hrules).error
      · next rules last hrules =>
          have hanswer := (reads.answer rules).run_kept verdict last
          rw [Option.some.inj h] at hanswer
          exact hidentity.trans (not_isDatabase_ok _)
            ((identityRules_kept hrules).trans (not_isDatabase_ok _) hanswer)

end Serve

/-! ## The models that are met -/

/-- The models that the registry names: parents, and what relational fields lead to. -/
def Registry.named (registry : Registry) : List String :=
  registry.inherits.flatMap (fun entry => entry.2.map (·.1)) ++
    registry.models.flatMap fun entry => entry.2.fields.filterMap (·.2.relation)

section Named

variable {registry : Registry} {model : Model} {name : String}

lemma inheritsOf_named {parent : String} (h : parent ∈ (registry.inheritsOf name).map (·.1)) :
    parent ∈ registry.named := by
  refine List.mem_append_left _ ?_
  unfold Registry.inheritsOf Dict.listAt at h
  cases hentry : registry.inherits.get? name with
  | none => simp [hentry] at h
  | some parents =>
      rw [hentry] at h
      exact List.mem_flatMap.mpr ⟨(name, parents), Dict.mem_of_get? hentry, h⟩

lemma comodelsAlong_named :
    ∀ {path : List String} {name : String} {model : Model}, registry.lookup name = some model →
      ∀ co ∈ comodelsAlong registry model path, co ∈ registry.named
  | [], _, model, _, co, hco => by simp [comodelsAlong] at hco
  | step :: path, name, model, hmodel, co, hco => by
      unfold comodelsAlong at hco
      cases hrelation : (model.fields.get? step).bind (·.relation) with
      | none => simp [hrelation] at hco
      | some next =>
          simp only [hrelation] at hco
          rcases List.mem_cons.mp hco with rfl | hco
          · obtain ⟨field, hfield, hco⟩ := Option.bind_eq_some_iff.mp hrelation
            refine List.mem_append_right _ (List.mem_flatMap.mpr ⟨(name, model), ?_, ?_⟩)
            · exact Dict.mem_of_get? hmodel
            · exact List.mem_filterMap.mpr ⟨(step, field), Dict.mem_of_get? hfield, hco⟩
          · cases hnext : registry.lookup next with
            | none => simp [hnext] at hco
            | some found =>
                rw [hnext] at hco
                exact comodelsAlong_named hnext co hco

/-- The models that a domain reaches are named by the registry. -/
lemma comodelsOf_named : ∀ (levels : ℕ) {name : String} {model : Model} (node : Node),
    registry.lookup name = some model →
      ∀ co ∈ comodelsOf registry levels model node, co ∈ registry.named
  | 0, _, _, _, _, co, hco => by simp [comodelsOf] at hco
  | levels + 1, name, model, node, hmodel, co, hco => by
      have hstep : ∀ (ls : List Leaf) (out : List String), (∀ c ∈ out, c ∈ registry.named) →
          ∀ c ∈ ls.foldl (comodelsStep registry (comodelsOf registry levels) model) out,
            c ∈ registry.named := by
        intro ls
        induction ls with
        | nil => exact fun out hout => hout
        | cons leaf ls ih =>
            intro out hout
            refine ih _ fun c hc => ?_
            unfold comodelsStep at hc
            split at hc
            · exact hout c hc
            · next path _ =>
                have halong : ∀ c ∈ out ++ comodelsAlong registry model path,
                    c ∈ registry.named := fun c hc =>
                  (List.mem_append.mp hc).elim (hout c) (comodelsAlong_named hmodel c)
                simp only at hc
                split at hc
                · exact halong c hc
                · next found sub _ hfound _ =>
                    obtain ⟨last, -, hlookup⟩ := Option.bind_eq_some_iff.mp hfound
                    exact (List.mem_append.mp hc).elim (halong c)
                      (comodelsOf_named levels sub hlookup c)
                · exact halong c hc
      exact hstep (leaves node) [] (List.forall_mem_nil _) co hco

/-- The models that are left, and those of the registry that were not met. -/
def Work.left (registry : Registry) (w : Work) : ℕ :=
  w.pending.length + (registry.named.filter (· ∉ w.seen)).length

lemma Work.left_push {w : Work} (h : name ∈ registry.named) :
    (w.push name).left registry ≤ w.left registry := by
  unfold Work.push
  split
  · exact le_rfl
  · next hnew =>
      have hfewer : (registry.named.filter (· ∉ name :: w.seen)).length + 1 ≤
          (registry.named.filter (· ∉ w.seen)).length := by
        have hsplit : registry.named.filter (· ∉ name :: w.seen) =
            (registry.named.filter (· ∉ w.seen)).filter (· ≠ name) := by
          rw [List.filter_filter]
          refine List.filter_congr fun other _ => ?_
          simp [not_or]
        rw [hsplit]
        refine List.length_filter_lt_length_iff_exists.mpr ⟨name, ?_, by simp⟩
        exact List.mem_filter.mpr ⟨h, by simpa using hnew⟩
      simp only [Work.left, List.length_cons]
      omega

lemma Work.left_foldl_push {names : List String} :
    ∀ {w : Work}, (∀ other ∈ names, other ∈ registry.named) →
      (names.foldl Work.push w).left registry ≤ w.left registry := by
  induction names with
  | nil => exact fun _ => le_rfl
  | cons other names ih =>
      intro w h
      obtain ⟨hother, hnames⟩ := List.forall_mem_cons.mp h
      exact (ih hnames).trans (Work.left_push hother)

/-- Recording a model's rules leaves no more than there was. -/
lemma Work.left_record {setting : RuleSetting} {w w' : Work} {built : Compile (Option Node)}
    (hmodel : setting.registry.lookup name = some model)
    (h : w.record setting name model built = .ok w') :
    w'.left setting.registry ≤ w.left setting.registry := by
  unfold Work.record at h
  split at h
  · next node log =>
      obtain rfl := Except.ok.inj h
      exact Work.left_foldl_push (comodelsOf_named _ node hmodel)
  · obtain rfl := Except.ok.inj h
    exact le_rfl
  · split at h
    · contradiction
    · obtain rfl := Except.ok.inj h
      exact le_rfl

end Named

/-- **The loop ends**: a model is met once, and there are as many as are left. -/
lemma Work.serve_returns (setting : RuleSetting) (verdict : List String → Verdict)
    (build : String → Model → Script (Option Node × List Event)) :
    ∀ (rounds : ℕ) (w : Work) (s : Backend), w.left setting.registry < rounds →
      ∃ result, w.serve setting verdict build rounds s = some result
  | 0, w, s, h => by omega
  | rounds + 1, w, s, h => by
      rw [Work.serve]
      cases hpending : w.pending with
      | nil => exact ⟨_, rfl⟩
      | cons name pending =>
          have hpop : Work.left setting.registry { w with pending } < rounds := by
            simp only [Work.left, hpending, List.length_cons] at h ⊢
            omega
          have hleft := (Work.left_foldl_push (w := { w with pending })
            fun other hother => @inheritsOf_named setting.registry name other hother).trans_lt hpop
          show ∃ result, (match setting.registry.lookup name with
            | none => _
            | some model => _) = some result
          cases hmodel : setting.registry.lookup name with
          | none => exact serve_returns setting verdict build rounds _ s hleft
          | some model =>
              simp only
              split
              · exact ⟨_, rfl⟩
              · next w' hrecord =>
                  exact serve_returns setting verdict build rounds w' _
                    ((Work.left_record hmodel hrecord).trans_lt hleft)

/-! ## The savepoint -/

section Savepoint

variable {t : Transaction}

/-- The savepoint is released where it was opened, unless the transaction was aborted before. -/
lemma batch_release (hmode : t.mode ≠ .idle) :
    (t.batch savepointOpen).batch savepointRelease = t := by
  obtain ⟨mode, savepoints⟩ := t
  cases mode with
  | idle => contradiction
  | inTransaction =>
      simp [savepointOpen, savepointRelease, Transaction.batch, Transaction.exec]
  | failed =>
      simp [savepointOpen, savepointRelease, Transaction.batch, Transaction.exec,
        Transaction.failing]

/-- Going back to the savepoint undoes what aborted the transaction after it. -/
lemma batch_undo {t' : Transaction} (hmode : t.mode ≠ .idle)
    (hname : dispatchSavepoint ∉ t.savepoints)
    (h : t' = t.batch savepointOpen ∨ t' = (t.batch savepointOpen).failing) :
    t'.batch savepointUndo = t := by
  obtain ⟨mode, savepoints⟩ := t
  cases mode with
  | idle => contradiction
  | inTransaction =>
      rcases h with rfl | rfl
      · simp [savepointOpen, savepointUndo, Transaction.batch, Transaction.exec]
      · simp [savepointOpen, savepointUndo, Transaction.batch, Transaction.exec,
          Transaction.failing]
  | failed =>
      have hname' : dispatchSavepoint ∉ savepoints := hname
      rcases h with rfl | rfl
      · simp [savepointOpen, savepointUndo, Transaction.batch, Transaction.exec,
          Transaction.failing, hname']
      · simp [savepointOpen, savepointUndo, Transaction.batch, Transaction.exec,
          Transaction.failing, hname']

end Savepoint

section Dispatch

variable (setting : RuleSetting) (verdict : List String → Verdict) (kernel : RustKernel)
  (autocommit : Bool) (request : Except String DispatchRequest) (s : Backend)

lemma identityRules_returns (build : String → Model → Script (Option Node × List Event))
    (identity : Identity) :
    ∃ rounds result, identityRules setting verdict build rounds identity s = some result := by
  unfold identityRules
  split
  · exact ⟨0, _, rfl⟩
  · exact ⟨_, Work.serve_returns setting verdict build _ _ s (Nat.lt_succ_self _)⟩

lemma dispatchWith_returns (reads : RequestReads) :
    ∃ rounds result, dispatchWith setting verdict rounds reads s = some result := by
  unfold dispatchWith
  cases reads.identity.run verdict s with
  | mk found mid =>
      cases found with
      | error e => exact ⟨0, _, rfl⟩
      | ok identity =>
          obtain ⟨rounds, ⟨rules, last⟩, hrules⟩ :=
            identityRules_returns setting verdict mid reads.build identity
          refine ⟨rounds, ?_⟩
          simp only [hrules]
          cases rules with
          | error e => exact ⟨_, rfl⟩
          | ok rules => exact ⟨_, rfl⟩

lemma dispatch_returns :
    ∃ rounds result, kernel.dispatch setting verdict rounds autocommit request s = some result := by
  unfold RustKernel.dispatch
  split
  · exact ⟨0, _, rfl⟩
  · cases request with
    | error e => exact ⟨0, _, rfl⟩
    | ok req =>
        simp only
        split
        · exact ⟨0, _, rfl⟩
        · split
          · exact ⟨0, _, rfl⟩
          · obtain ⟨rounds, ⟨result, last⟩, hresult⟩ :=
              dispatchWith_returns setting verdict (s.batch savepointOpen) req.reads
            refine ⟨rounds, ?_⟩
            simp only [hresult]
            cases result with
            | error e => exact ⟨_, rfl⟩
            | ok raw => exact ⟨_, rfl⟩

variable {setting verdict kernel autocommit request s}

/-- What a dispatch leaves where it returns. -/
lemma dispatch_kept {rounds : ℕ} {result : Result String} {kernel' : RustKernel} {s' : Backend}
    (hmode : s.transaction.mode ≠ .idle)
    (hname : dispatchSavepoint ∉ s.transaction.savepoints)
    (h : kernel.dispatch setting verdict rounds autocommit request s =
      some (result, kernel', s')) :
    s'.transaction = s.transaction ∧ ((∃ raw, result = .ok raw) → s'.refused = s.refused) := by
  unfold RustKernel.dispatch at h
  split at h
  · obtain ⟨rfl, rfl, rfl⟩ := by simpa using h
    exact ⟨rfl, fun _ => rfl⟩
  · cases request with
    | error e =>
        obtain ⟨rfl, rfl, rfl⟩ := by simpa using h
        exact ⟨rfl, fun _ => rfl⟩
    | ok req =>
        simp only at h
        split at h
        · obtain ⟨rfl, rfl, rfl⟩ := by simpa using h
          exact ⟨rfl, fun _ => rfl⟩
        · split at h
          · obtain ⟨rfl, rfl, rfl⟩ := by simpa using h
            exact ⟨rfl, fun _ => rfl⟩
          · split at h
            · contradiction
            · next raw mid hdispatch =>
                obtain ⟨rfl, rfl, rfl⟩ := by simpa using h
                obtain ⟨htransaction, hrefused⟩ :=
                  (dispatchWith_kept hdispatch).kept (not_isDatabase_ok raw)
                refine ⟨?_, fun _ => hrefused⟩
                show mid.transaction.batch savepointRelease = s.transaction
                rw [htransaction]
                exact batch_release hmode
            · next e mid hdispatch =>
                obtain ⟨rfl, rfl, rfl⟩ := by simpa using h
                exact ⟨batch_undo hmode hname (dispatchWith_kept hdispatch).transaction, nofun⟩

end Dispatch

/-- **A dispatch leaves the caller's transaction as it found it**, open or aborted, with the
savepoints that the caller opened; and where it has an answer the server refused no statement. -/
theorem dispatch_keeps_transaction (setting : RuleSetting) (verdict : List String → Verdict)
    (kernel : RustKernel) (autocommit : Bool) (request : Except String DispatchRequest)
    (s : Backend) (hmode : s.transaction.mode ≠ .idle)
    (hname : dispatchSavepoint ∉ s.transaction.savepoints) :
    (∃ rounds out, kernel.dispatch setting verdict rounds autocommit request s = some out) ∧
    ∀ (rounds : ℕ) (result : Result String) (kernel' : RustKernel) (s' : Backend),
      kernel.dispatch setting verdict rounds autocommit request s = some (result, kernel', s') →
        s'.transaction = s.transaction ∧
          ((∃ raw, result = .ok raw) → s'.refused = s.refused) :=
  ⟨dispatch_returns setting verdict kernel autocommit request s,
    fun _ _ _ _ h => dispatch_kept hmode hname h⟩

/-- Two models, and no access data. -/
def twoModels : RuleSetting where
  registry := plainRegistry
    [("country", plainModel "country" "country" []), ("partner", plainModel "partner" "partner" [])]
  accessAt _ := Security.plain [] []
  toDouble _ := none
  calls := 0

/-- The rules of the partners are read, and those of the countries cannot be evaluated. -/
def readRules (name : String) (_ : Model) : Script (Option Node × List Event) :=
  if name = "partner" then .query "SELECT domain FROM ir_access" fun _ => .done (.ok (some .True, []))
  else .done (refuse "no such field")

/-- Who asks, the rules of the two models, and how many partners there are. -/
def countRequest : DispatchRequest where
  registrySequence := some 1
  reads := {
    identity := .query "SELECT id FROM res_users" fun _ =>
      .done (.ok ⟨false, none, ["partner"], ["partner", "country"]⟩)
    build := readRules
    answer := fun rules =>
      if rules.isCompiled "country" && (rules.get "partner").isSome then
        .query "SELECT count(*) FROM missing" fun _ => .done (.ok "[]")
      else .done (refuse "no rules") }

/-- A server that refuses the third statement. -/
def refusesThird (read : List String) : Verdict :=
  if read.length = 3 then .refused "relation does not exist" else .rows []

/-- The caller's transaction, which has a savepoint of its own. -/
def callerSession : Backend := ⟨⟨.inTransaction, ["caller"]⟩, [], []⟩

/-- The count is refused behind the rules of both models, and the caller's transaction is open as it
was. -/
theorem countRequest_refused :
    ∃ kernel' s', RustKernel.dispatch twoModels refusesThird 3 ⟨1, false⟩ false (.ok countRequest)
        callerSession = some (.error (.database "relation does not exist"), kernel', s') ∧
      s'.read = ["SELECT count(*) FROM missing", "SELECT domain FROM ir_access",
        "SELECT id FROM res_users"] ∧ s'.transaction = ⟨.inTransaction, ["caller"]⟩ := by
  obtain ⟨kernel', s', hrun, hread⟩ : ∃ kernel' s',
      RustKernel.dispatch twoModels refusesThird 3 ⟨1, false⟩ false (.ok countRequest) callerSession
        = some (.error (.database "relation does not exist"), kernel', s') ∧
      s'.read = ["SELECT count(*) FROM missing", "SELECT domain FROM ir_access",
        "SELECT id FROM res_users"] := ⟨_, _, rfl, rfl⟩
  have hkept := (dispatch_keeps_transaction twoModels refusesThird ⟨1, false⟩ false (.ok countRequest)
    callerSession (by decide) (by decide)).2 3 _ kernel' s' hrun
  exact ⟨kernel', s', hrun, hread, hkept.1⟩

end OdooKernel
