import OdooKernel.Cursor.Connection

/-!
# The flags of a connection and the server

After which calls the flags of a connection say what is the case on the server: that a transaction is
open, and that the open transaction is aborted.

**The condition.**  `Wire.Fine` is a condition on a call and on what it meets, part by part of the
call, and it is exact: in a state in which the two sides agree, a call keeps them together if and
only if it is a fine one (`synced_step_iff`).  These part them: a `BEGIN` that fails, behind
which the flag stays set; an error of the client whose text reads as one of the server; a return to a
savepoint by a statement that does not start with `rollback`, or a statement that does and returns to
none; a statement of `exec_simple`, which no flag follows, that aborts a transaction or takes one
back; and an end of a transaction that leaves it open.

**The proof.**  The parts of a call are each taken once, from an agreed state to what the part leaves
(`settled`), and the calls are put together from their parts; a connection that is closed or lost has
nothing left to agree with.

* `Synced` — the invariant: the flags mirror the server, and no transaction that is not open is noted
  as aborted.
* `Wire.Fine` — the calls that keep it.
* **`synced_step_iff`** — those and no others.
* **`mirrors_of_fine_run`** — runs of such calls.
* `flags_diverge` — a parameter that is refused and a `BEGIN` that fails, after which the two differ.
-/

namespace OdooKernel

namespace Cursor

/-! ## Texts of errors -/

lemma startsWith_append (a b : String) : startsWith a (a ++ b) = true := by
  rw [startsWith, List.isPrefixOf_iff_prefix, String.toList_append]
  exact List.prefix_append _ _

/-- A text after a common start. -/
lemma startsWith_append_left (a b text : String) :
    startsWith (a ++ b) (a ++ text) = startsWith b text := by
  rw [Bool.eq_iff_iff, startsWith, startsWith, List.isPrefixOf_iff_prefix,
    List.isPrefixOf_iff_prefix, String.toList_append, String.toList_append,
    List.prefix_append_right_inj]

/-- A text with a code reads as an error of the server. -/
lemma raisedByServer_of_code {code : String} (rest : String) (hnamed : code ≠ "")
    (hbar : '|' ∉ code.toList) : raisedByServer ("SQLSTATE:" ++ (code ++ rest)) = true := by
  have hother : startsWith "|" (code ++ rest) = false := by
    rw [Bool.eq_false_iff, ne_eq, startsWith, List.isPrefixOf_iff_prefix, String.toList_append]
    intro hstart
    cases hcs : code.toList with
    | nil => exact hnamed (String.toList_inj.mp (by simpa using hcs))
    | cons c cs =>
        have hbarText : "|".toList = ['|'] := rfl
        rw [hcs, hbarText, List.cons_append] at hstart
        obtain ⟨rfl, -⟩ := List.cons_prefix_cons.mp hstart
        exact hbar (by simp [hcs])
  have hclient : startsWith "SQLSTATE:|" ("SQLSTATE:" ++ (code ++ rest)) = false := by
    rw [← hother]
    exact startsWith_append_left "SQLSTATE:" "|" _
  rw [raisedByServer, startsWith_append, hclient]
  rfl

lemma raisedByServer_message (e : ServerError) : raisedByServer e.message = true := by
  rw [ServerError.message, String.append_assoc, String.append_assoc]
  exact raisedByServer_of_code _ e.named e.noBar

/-- The error of a text that is no value of a type reads as one of the server. -/
lemma raisedByServer_refusedMessage (typeName text : String) :
    raisedByServer (refusedMessage typeName text) = true := by
  have hcode : "SQLSTATE:22P02|invalid input syntax for type " =
      "SQLSTATE:" ++ ("22P02" ++ "|invalid input syntax for type ") := by
    decide +kernel
  unfold refusedMessage
  rw [hcode, String.append_assoc, String.append_assoc, String.append_assoc, String.append_assoc,
    String.append_assoc]
  exact raisedByServer_of_code _ (by simp) (by simp)

lemma raisedByServer_clientMessage (text : String) : raisedByServer (clientMessage text) = false := by
  rw [raisedByServer, clientMessage, startsWith_append, Bool.not_true, Bool.and_false]

/-! ## The invariant -/

/-- The flags mirror the server, and only an open transaction is noted as aborted. -/
def Synced (w : Wire) : Prop :=
  w.conn.autocommit = false ∧ (w.isClosed = false →
    (w.conn.inTx = true → w.mode ≠ .idle) ∧
    (w.conn.inTx = true ∧ w.conn.aborted = true ↔ w.mode = .failed) ∧
    (w.conn.inTx = false → w.conn.aborted = false))

/-! ## The calls that keep it -/

section Fine

variable (w : Wire)

/-- An error closes the connection. -/
def Closes (text : String) : Prop := isFatal (lostBackendError w text) = true

/-- An error that is raised on the client does not read as one of the server. -/
def Honest (text : String) : Prop :=
  raisedByServer text = true → w.mode = .failed ∨ Closes w text

/-- A `BEGIN` opens a transaction. -/
def BeginFine : Reply → Prop
  | .error e => w.mode ≠ .idle ∨ Closes w e.message
  | .unsent text => w.mode ≠ .idle ∨ Closes w (clientMessage text)
  | .done _ | .lost _ _ => True

/-- A transaction is taken back to a savepoint by a statement that starts with `rollback`. -/
def RunFine (query : String) (decoded : Outcome) : Reply → Prop
  | .done restored =>
    match decoded with
    | .ok () => w.mode = .failed → restored = statementRollsBack query
    | .error text => (¬ (w.mode = .failed ∧ restored = true) ∧
        (raisedByServer text = true → w.mode = .failed)) ∨ Closes w text
  | .error _ | .unsent _ | .lost _ _ => True

/-- A text is refused as a parameter in a transaction that is aborted already, or that the question
for its type aborts. -/
def RefusalFine (typeName text : String) : Reply → Prop
  | .done _ | .unsent _ => w.mode = .failed ∨ Closes w (refusedMessage typeName text)
  | .error _ | .lost _ _ => True

def ConversionFine (query : String) (reply : Reply) (decoded : Outcome) : Conversion → Prop
  | .done => RunFine w query decoded reply
  | .refused typeName text question => RefusalFine w typeName text question
  | .failed text => Honest w text

def CourseFine (query : String) : Course → Prop
  | .simple reply => RunFine w query (.ok ()) reply
  | .extended (.error text) _ _ _ _ => Honest w text
  | .extended (.ok ()) none conversion reply decoded =>
    ConversionFine w query reply decoded conversion
  | .extended (.ok ()) (some (.done _)) conversion reply decoded =>
    ConversionFine w query reply decoded conversion
  | .extended (.ok ()) (some _) _ _ _ => True

/-- A transaction was opened. -/
def Wire.begun : Wire :=
  { w with
    conn := { w.conn with inTx := true }
    mode := if w.mode = .idle then .inTransaction else w.mode }

def ExecuteFine (query : String) (script : Script) : Prop :=
  if w.conn.inTx then CourseFine w query script.course
  else
    match script.begin (beginStatement w.conn) with
    | .done _ => CourseFine w.begun query script.course
    | reply => BeginFine w reply

/-- A statement that no flag follows neither aborts a transaction nor takes one back. -/
def SimpleFine : Reply → Prop
  | .done restored => w.mode = .failed → restored = false
  | .error e => w.mode ≠ .inTransaction ∨ Closes w e.message
  | .unsent _ | .lost _ _ => True

/-- The end of a transaction ends it, or it is not aborted. -/
def EndFine : EndReply → Prop
  | .error _ ended => ended = true
  | .unsent _ => w.mode ≠ .failed
  | .done | .lost _ _ => True

/-- The session is reset outside of a transaction. -/
def ResetFine (ends : EndReply) : Reply → Prop
  | .error _ => if w.conn.inTx then EndFine w ends else w.mode ≠ .inTransaction
  | .done _ | .unsent _ | .lost _ _ => w.conn.inTx = true → EndFine w ends

/-- **A call after which the flags still mirror the server.** -/
def Wire.Fine : Event → Prop
  | .execute query script => ExecuteFine w query script
  | .execSimple reply => SimpleFine w reply
  | .commit reply => w.conn.inTx = true → EndFine w (reply "COMMIT")
  | .rollback reply => w.conn.inTx = true → EndFine w (reply "ROLLBACK")
  | .resetSession ends reply => ResetFine w (ends "ROLLBACK") reply
  | .close _ | .lose _ => True

end Fine

/-! ## One call -/

section Step

variable {w : Wire}

/-- Where the two sides are, while they agree. -/
lemma Synced.cases (h : Synced w) (hopen : w.isClosed = false) :
    (w.conn.inTx = true ∧ w.conn.aborted = false ∧ w.mode = .inTransaction) ∨
      (w.conn.inTx = true ∧ w.conn.aborted = true ∧ w.mode = .failed) ∨
      (w.conn.inTx = false ∧ w.conn.aborted = false ∧ w.mode ≠ .failed) := by
  obtain ⟨hidle, hfailed, hnone⟩ := h.2 hopen
  cases htx : w.conn.inTx <;> cases hab : w.conn.aborted <;> cases hmode : w.mode <;>
    simp_all

lemma synced_of_isClosed (hauto : w.conn.autocommit = false) (h : w.isClosed = true) : Synced w := by
  refine ⟨hauto, fun hopen => ?_⟩
  rw [h] at hopen
  cases hopen

/-- A connection that is closed after an error has no flags to look at. -/
lemma synced_noteLostBackend (hauto : w.conn.autocommit = false) (text : String) :
    Synced (noteLostBackend w text) ↔ isFatal text = true ∨ Synced w := by
  unfold noteLostBackend
  cases hfatal : isFatal text with
  | true =>
      rw [Bool.true_or, if_pos rfl]
      exact iff_of_true (synced_of_isClosed hauto rfl) (.inl rfl)
  | false =>
      cases hlost : w.lost with
      | true =>
          rw [Bool.false_or, if_pos rfl]
          refine iff_of_true (synced_of_isClosed hauto rfl) (.inr (synced_of_isClosed hauto ?_))
          rw [Wire.isClosed, hlost, Bool.or_true]
      | false => simp

/-- What is left of a call that fails with an error. -/
lemma synced_failed (hauto : w.conn.autocommit = false) (text : String) :
    Synced (noteLostBackend w (lostBackendError w text)) ↔ Closes w text ∨ Synced w :=
  synced_noteLostBackend hauto _

lemma synced_losing (hauto : w.conn.autocommit = false) (fault : Option String) :
    Synced (w.losing fault) := by
  refine synced_of_isClosed hauto ?_
  rw [Wire.isClosed, Bool.or_eq_true]
  exact .inr rfl

/-- The flags of an open connection agree with the server. -/
lemma synced_open (hauto : w.conn.autocommit = false) (hopen : w.isClosed = false) :
    Synced w ↔ (w.conn.inTx = true → w.mode ≠ .idle) ∧
      (w.conn.inTx = true ∧ w.conn.aborted = true ↔ w.mode = .failed) ∧
      (w.conn.inTx = false → w.conn.aborted = false) := by
  simp [Synced, hauto, hopen]

lemma isClosed_eq_false (hopen : w.isClosed = false) : w.conn.closed = false :=
  (Bool.or_eq_false_iff.mp hopen).1

/-- A statement that is refused. -/
lemma synced_failing (h : Synced w) (hopen : w.isClosed = false) :
    Synced w.failing ↔ w.mode ≠ .inTransaction := by
  refine (synced_open (w := w.failing) h.1 hopen).trans ?_
  rcases h.cases hopen with ⟨htx, hab, hmode⟩ | ⟨htx, hab, hmode⟩ | ⟨htx, hab, hmode⟩ <;>
    simp [Wire.failing, htx, hab, hmode]

lemma execSimple_of_error {wire : Wire} {reply : Reply} {text : String} (hopen : w.isClosed = false)
    (h : w.answer reply = (wire, .error text)) :
    (execSimple w reply).1 = noteLostBackend wire (lostBackendError wire text) := by
  simp only [execSimple, isClosed_eq_false hopen, h, Bool.false_eq_true, if_false]

lemma synced_execSimple (h : Synced w) (hopen : w.isClosed = false) (reply : Reply) :
    Synced (execSimple w reply).1 ↔ SimpleFine w reply := by
  cases reply with
  | done restored =>
      simp only [execSimple, isClosed_eq_false hopen, Bool.false_eq_true, if_false, Wire.answer]
      refine (synced_open ?_ ?_).trans ?_
      · exact h.1
      · exact hopen
      · rcases h.cases hopen with ⟨htx, hab, hmode⟩ | ⟨htx, hab, hmode⟩ | ⟨htx, hab, hmode⟩ <;>
          cases restored <;> simp [SimpleFine, htx, hab, hmode]
  | error e =>
      have heq : w.answer (.error e) = (w.failing, .error e.message) := rfl
      rw [execSimple_of_error hopen heq, synced_failed (w := w.failing) h.1, synced_failing h hopen,
        or_comm]
      rfl
  | unsent text =>
      have heq : w.answer (.unsent text) = (w, .error (clientMessage text)) := rfl
      rw [execSimple_of_error hopen heq, synced_failed h.1]
      exact iff_of_true (.inr h) trivial
  | lost text fault =>
      have heq : w.answer (.lost text fault) = (w.losing fault, .error text) := rfl
      rw [execSimple_of_error hopen heq, synced_failed (w := w.losing fault) h.1]
      exact iff_of_true (.inr (synced_losing h.1 fault)) trivial

/-! ## Statements -/

/-- The flags after a statement. -/
def settled (query : String) (result : Wire × Outcome) : Wire :=
  let w := trackAbort result.1 query result.2
  match result.2 with
  | .ok () => w
  | .error text => noteLostBackend w (lostBackendError w text)

lemma execute_eq_settled (query : String) (script : Script) :
    (execute w query script).1 = settled query (executeStatement w script) := by
  unfold execute settled
  rcases executeStatement w script with ⟨w', _ | _⟩ <;> rfl

lemma trackAbort_fault (query : String) (outcome : Outcome) (text : String) :
    lostBackendError (trackAbort w query outcome) text = lostBackendError w text := by
  unfold trackAbort lostBackendError
  rcases outcome with text | _ <;> dsimp only <;> split_ifs <;> rfl

lemma trackAbort_autocommit (query : String) (outcome : Outcome) :
    (trackAbort w query outcome).conn.autocommit = w.conn.autocommit := by
  unfold trackAbort
  rcases outcome with text | _ <;> dsimp only <;> split_ifs <;> rfl

lemma synced_settled_error (hauto : w.conn.autocommit = false) (query text : String) :
    Synced (settled query (w, .error text)) ↔
      Closes w text ∨ Synced (trackAbort w query (.error text)) := by
  refine (synced_failed ((trackAbort_autocommit query _).trans hauto) text).trans ?_
  rw [Closes, Closes, trackAbort_fault]

/-- An error that is raised on the client. -/
lemma synced_of_client (h : Synced w) (hopen : w.isClosed = false) (htx : w.conn.inTx = true)
    (query text : String) : Synced (settled query (w, .error text)) ↔ Honest w text := by
  rw [synced_settled_error h.1, trackAbort, if_pos htx, Honest]
  cases hraised : raisedByServer text with
  | false => simp [h]
  | true =>
      have hsynced : Synced { w with conn := { w.conn with aborted := true } } ↔ w.mode = .failed := by
        refine (synced_open ?_ ?_).trans ?_
        · exact h.1
        · exact hopen
        · rcases h.cases hopen with ⟨-, hab, hmode⟩ | ⟨-, hab, hmode⟩ | ⟨htx', -⟩
          · simp [htx, hmode]
          · simp [htx, hmode]
          · rw [htx] at htx'
            cases htx'
      simp only [if_true, hsynced, true_implies]
      exact or_comm

/-- An error that the server raises in a transaction. -/
lemma synced_of_server (h : Synced w) (hopen : w.isClosed = false) (htx : w.conn.inTx = true)
    (query : String) {text : String} (hraised : raisedByServer text = true) :
    Synced (settled query (w.failing, .error text)) := by
  rw [synced_settled_error (w := w.failing) h.1]
  refine .inr ?_
  have htx' : w.failing.conn.inTx = true := htx
  rw [trackAbort, if_pos htx']
  simp only [hraised, if_true]
  refine (synced_open ?_ ?_).mpr ?_
  · exact h.1
  · exact hopen
  · rcases h.cases hopen with ⟨-, -, hmode⟩ | ⟨-, -, hmode⟩ | ⟨hno, -⟩
    · simp [Wire.failing, htx, hmode]
    · simp [Wire.failing, htx, hmode]
    · rw [htx] at hno
      cases hno

lemma synced_of_unsent (h : Synced w) (query text : String) :
    Synced (settled query (w, .error (clientMessage text))) := by
  rw [synced_settled_error h.1]
  refine .inr ?_
  unfold trackAbort
  simp only [raisedByServer_clientMessage, Bool.false_eq_true, if_false]
  split_ifs with htx
  · exact h
  · refine ⟨h.1, fun hopen => ?_⟩
    obtain ⟨hidle, hfailed, -⟩ := h.2 hopen
    rw [Bool.not_eq_true] at htx
    refine ⟨hidle, ?_, fun _ => rfl⟩
    have hmode : w.mode ≠ .failed := by
      intro hmode
      rw [htx] at hfailed
      exact absurd (hfailed.mpr hmode).1 Bool.false_ne_true
    exact iff_of_false (by simp) hmode

lemma synced_of_lost (hauto : w.conn.autocommit = false) (fault : Option String) (query : String)
    (outcome : Outcome) : Synced (settled query (w.losing fault, outcome)) := by
  have hclosed : (trackAbort (w.losing fault) query outcome).isClosed = true := by
    unfold trackAbort Wire.isClosed Wire.losing
    rcases outcome with text | _ <;> dsimp only <;> split_ifs <;> simp
  have hauto' : (trackAbort (w.losing fault) query outcome).conn.autocommit = false :=
    (trackAbort_autocommit query outcome).trans hauto
  have hsynced := synced_of_isClosed hauto' hclosed
  rcases outcome with text | _
  · exact (synced_settled_error (w := w.losing fault) hauto query text).mpr (.inr hsynced)
  · exact hsynced

/-- A statement that is run, and its rows decoded. -/
lemma synced_run (h : Synced w) (hopen : w.isClosed = false) (htx : w.conn.inTx = true)
    (query : String) (reply : Reply) (decoded : Outcome) :
    Synced (settled query (andThen (w.answer reply) fun w => (w, decoded))) ↔
      RunFine w query decoded reply := by
  cases reply with
  | error e => exact iff_of_true (synced_of_server h hopen htx query (raisedByServer_message e)) trivial
  | unsent text => exact iff_of_true (synced_of_unsent h query text) trivial
  | lost text fault => exact iff_of_true (synced_of_lost h.1 fault query _) trivial
  | done restored =>
      have hmodes : (w.conn.aborted = false ∧ w.mode = .inTransaction) ∨
          (w.conn.aborted = true ∧ w.mode = .failed) := by
        rcases h.cases hopen with ⟨-, hmode⟩ | ⟨-, hmode⟩ | ⟨hno, -⟩
        · exact .inl hmode
        · exact .inr hmode
        · rw [htx] at hno
          cases hno
      cases decoded with
      | ok value =>
          show Synced (trackAbort _ query (.ok ())) ↔ _
          simp only [Wire.answer, andThen, trackAbort, htx, if_true, RunFine]
          cases hrolls : statementRollsBack query <;>
            simp only [Bool.false_eq_true, if_true, if_false] <;>
            refine (synced_open ?_ ?_).trans ?_
          all_goals first | exact h.1 | exact hopen | skip
          all_goals
            rcases hmodes with ⟨hab, hmode⟩ | ⟨hab, hmode⟩ <;> cases restored <;>
              simp [htx, hab, hmode]
      | error text =>
          refine (synced_settled_error ?_ query text).trans (or_comm.trans (or_congr ?_ Iff.rfl))
          · exact h.1
          simp only [trackAbort, htx, if_true]
          cases hraised : raisedByServer text <;>
            simp only [Bool.false_eq_true, if_true, if_false] <;>
            refine (synced_open ?_ ?_).trans ?_
          all_goals first | exact h.1 | exact hopen | skip
          all_goals
            rcases hmodes with ⟨hab, hmode⟩ | ⟨hab, hmode⟩ <;> cases restored <;>
              simp [htx, hab, hmode]

lemma synced_convert (h : Synced w) (hopen : w.isClosed = false) (htx : w.conn.inTx = true)
    (query : String) (conversion : Conversion) (reply : Reply) (decoded : Outcome) :
    Synced (settled query (andThen (convert w conversion) fun w =>
      andThen (w.answer reply) fun w => (w, decoded))) ↔
      ConversionFine w query reply decoded conversion := by
  cases conversion with
  | done => exact synced_run h hopen htx query reply decoded
  | failed text => exact synced_of_client h hopen htx query text
  | refused typeName text question =>
      have hhonest : Honest w (refusedMessage typeName text) ↔
          w.mode = .failed ∨ Closes w (refusedMessage typeName text) := by
        rw [Honest, raisedByServer_refusedMessage]
        exact ⟨fun hfine => hfine rfl, fun hfine _ => hfine⟩
      cases question with
      | done restored => exact (synced_of_client h hopen htx query _).trans hhonest
      | unsent _ => exact (synced_of_client h hopen htx query _).trans hhonest
      | lost _ fault => exact iff_of_true (synced_of_lost h.1 fault query _) trivial
      | error e =>
          -- the question for the type aborts the transaction
          refine iff_of_true ?_ trivial
          exact synced_of_server h hopen htx query (raisedByServer_refusedMessage typeName text)

/-- A statement in an open transaction. -/
lemma synced_runCourse (h : Synced w) (hopen : w.isClosed = false) (htx : w.conn.inTx = true)
    (query : String) (course : Course) :
    Synced (settled query (runCourse w course)) ↔ CourseFine w query course := by
  cases course with
  | simple reply =>
      have heq : runCourse w (.simple reply) = andThen (w.answer reply) fun w => (w, .ok ()) := by
        show w.answer reply = _
        rcases w.answer reply with ⟨w', _ | _⟩ <;> rfl
      rw [heq]
      exact synced_run h hopen htx query reply (.ok ())
  | extended bound plan conversion reply decoded =>
      rcases bound with text | _
      · exact synced_of_client h hopen htx query text
      · rcases plan with _ | ⟨restored⟩ | e | text | ⟨text, fault⟩
        · exact synced_convert h hopen htx query conversion reply decoded
        · exact synced_convert h hopen htx query conversion reply decoded
        · exact iff_of_true (synced_of_server h hopen htx query (raisedByServer_message e)) trivial
        · exact iff_of_true (synced_of_unsent h query text) trivial
        · exact iff_of_true (synced_of_lost h.1 fault query _) trivial

lemma synced_begun (h : Synced w) (hopen : w.isClosed = false) (htx : w.conn.inTx = false) :
    Synced w.begun := by
  refine (synced_open (w := w.begun) h.1 hopen).mpr ?_
  rcases h.cases hopen with ⟨hyes, -⟩ | ⟨hyes, -⟩ | ⟨-, hab, hmode⟩
  · rw [htx] at hyes
    cases hyes
  · rw [htx] at hyes
    cases hyes
  · cases hm : w.mode with
    | failed => exact absurd hm hmode
    | idle | inTransaction => simp [Wire.begun, hab, hm]

/-- A `BEGIN` that fails. -/
lemma synced_begin_failed (h : Synced w) (hopen : w.isClosed = false) (htx : w.conn.inTx = false)
    (query : String) {reply : Reply} (hreply : ∀ restored, reply ≠ .done restored) :
    Synced (settled query (({ w with conn := { w.conn with inTx := true } } : Wire).answer reply)) ↔
      BeginFine w reply := by
  obtain ⟨hab, hmode⟩ : w.conn.aborted = false ∧ w.mode ≠ .failed := by
    rcases h.cases hopen with ⟨hyes, -⟩ | ⟨hyes, -⟩ | ⟨-, hrest⟩
    · rw [htx] at hyes
      cases hyes
    · rw [htx] at hyes
      cases hyes
    · exact hrest
  cases reply with
  | done restored => exact absurd rfl (hreply restored)
  | lost text fault =>
      refine iff_of_true ?_ trivial
      exact synced_of_lost (w := { w with conn := { w.conn with inTx := true } }) h.1 fault query _
  | error e =>
      refine (synced_settled_error ?_ query e.message).trans (or_comm.trans (or_congr ?_ Iff.rfl))
      · exact h.1
      · simp only [trackAbort, Wire.failing, if_true, raisedByServer_message]
        refine (synced_open ?_ ?_).trans ?_
        · exact h.1
        · exact hopen
        · cases hm : w.mode with
          | failed => exact absurd hm hmode
          | idle | inTransaction => simp
  | unsent text =>
      refine (synced_settled_error ?_ query _).trans (or_comm.trans (or_congr ?_ Iff.rfl))
      · exact h.1
      · simp only [trackAbort, if_true, raisedByServer_clientMessage, Bool.false_eq_true, if_false]
        refine (synced_open ?_ ?_).trans ?_
        · exact h.1
        · exact hopen
        · cases hm : w.mode with
          | failed => exact absurd hm hmode
          | idle | inTransaction => simp [hab]

lemma synced_execute (h : Synced w) (hopen : w.isClosed = false) (query : String)
    (script : Script) : Synced (execute w query script).1 ↔ ExecuteFine w query script := by
  rw [execute_eq_settled, executeStatement, isClosed_eq_false hopen, if_neg Bool.false_ne_true,
    ExecuteFine, ensureTx, h.1, if_neg Bool.false_ne_true]
  cases htx : w.conn.inTx with
  | true => exact synced_runCourse h hopen htx query script.course
  | false =>
      simp only [Bool.false_eq_true, if_false]
      cases hbegin : script.begin (beginStatement w.conn) with
      | done restored =>
          exact synced_runCourse (synced_begun h hopen htx) hopen rfl query script.course
      | error e | unsent text | lost text fault =>
          refine Iff.trans ?_ (synced_begin_failed h hopen htx query (by simp))
          rfl

/-! ## The ends of transactions -/

lemma synced_endTx (h : Synced w) (hopen : w.isClosed = false) (statement : String)
    (reply : String → EndReply) :
    Synced (endTx w statement reply).1 ↔ (w.conn.inTx = true → EndFine w (reply statement)) := by
  unfold endTx
  cases htx : w.conn.inTx with
  | false =>
      have hmode : w.mode ≠ .failed := by
        intro hmode
        have hboth := (h.2 hopen).2.1.mpr hmode
        rw [htx] at hboth
        exact Bool.false_ne_true hboth.1
      simp only [Bool.false_eq_true, if_false]
      refine (synced_open ?_ ?_).trans ?_
      · exact h.1
      · exact hopen
      · simp [hmode]
  | true =>
      simp only [if_true, true_implies]
      have hidle : w.mode ≠ .idle := (h.2 hopen).1 htx
      cases reply statement with
      | done =>
          refine iff_of_true ((synced_open ?_ ?_).mpr ?_) trivial
          · exact h.1
          · exact hopen
          · simp [Wire.answerEnd]
      | error e ended =>
          cases ended <;> simp only [Wire.answerEnd, Bool.false_eq_true, if_true, if_false, EndFine] <;>
            refine (synced_open ?_ ?_).trans ?_
          all_goals first | exact h.1 | exact hopen | skip
          · cases hm : w.mode with
            | idle => exact absurd hm hidle
            | inTransaction | failed => simp [Wire.failing]
          · simp
      | unsent text =>
          refine (synced_open ?_ ?_).trans ?_
          · exact h.1
          · exact hopen
          · simp [Wire.answerEnd, EndFine]
      | lost text fault =>
          refine iff_of_true (synced_of_isClosed ?_ ?_) trivial
          · exact h.1
          · simp [Wire.answerEnd, Wire.losing, Wire.isClosed]

end Step

/-! ## What no call changes -/

/-- The mode of the connection stays, and a closed connection stays closed. -/
structure Keeps (w w' : Wire) : Prop where
  autocommit : w'.conn.autocommit = w.conn.autocommit
  closed : w.isClosed = true → w'.isClosed = true

section Keeps

variable {w w' w'' : Wire}

lemma Keeps.refl (w : Wire) : Keeps w w := ⟨rfl, id⟩

lemma Keeps.trans (h : Keeps w w') (h' : Keeps w' w'') : Keeps w w'' :=
  ⟨h'.autocommit.trans h.autocommit, fun hclosed => h'.closed (h.closed hclosed)⟩

lemma keeps_losing (fault : Option String) : Keeps w (w.losing fault) :=
  ⟨rfl, fun _ => by simp [Wire.isClosed, Wire.losing]⟩

lemma keeps_answer (reply : Reply) : Keeps w (w.answer reply).1 := by
  cases reply with
  | done | error | unsent => exact ⟨rfl, id⟩
  | lost text fault => exact keeps_losing fault

lemma keeps_answerPlan (reply : Reply) : Keeps w (w.answerPlan reply).1 := by
  cases reply with
  | done => exact ⟨rfl, id⟩
  | error e => exact keeps_answer (.error e)
  | unsent text => exact keeps_answer (.unsent text)
  | lost text fault => exact keeps_answer (.lost text fault)

lemma keeps_answerBegin (reply : Reply) : Keeps w (w.answerBegin reply).1 := by
  cases reply with
  | done => exact ⟨rfl, id⟩
  | error e => exact keeps_answer (.error e)
  | unsent text => exact keeps_answer (.unsent text)
  | lost text fault => exact keeps_answer (.lost text fault)

lemma keeps_andThen {first : Wire × Outcome} {second : Wire → Wire × Outcome}
    (hfirst : Keeps w first.1) (hsecond : ∀ w, Keeps w (second w).1) :
    Keeps w (andThen first second).1 := by
  rcases first with ⟨w', _ | _⟩
  · exact hfirst
  · exact hfirst.trans (hsecond w')

lemma keeps_ensureTx (reply : String → Reply) : Keeps w (ensureTx w reply).1 := by
  unfold ensureTx
  split_ifs
  · exact .refl w
  · exact .refl w
  · have hopening : Keeps w { w with conn := { w.conn with inTx := true } } := ⟨rfl, id⟩
    exact hopening.trans (keeps_answerBegin _)

lemma keeps_convert (conversion : Conversion) : Keeps w (convert w conversion).1 := by
  cases conversion with
  | done | failed => exact .refl w
  | refused typeName text reply => exact keeps_answerPlan reply

lemma keeps_runCourse (course : Course) : Keeps w (runCourse w course).1 := by
  cases course with
  | simple reply => exact keeps_answer reply
  | extended bound plan conversion reply decoded =>
      refine keeps_andThen (.refl w) fun w => keeps_andThen ?_ fun w =>
        keeps_andThen (keeps_convert conversion) fun w =>
          keeps_andThen (keeps_answer reply) fun w => .refl w
      cases plan with
      | none => exact .refl w
      | some reply => exact keeps_answerPlan reply

lemma keeps_noteLostBackend (text : String) : Keeps w (noteLostBackend w text) := by
  unfold noteLostBackend
  split_ifs
  · exact ⟨rfl, fun _ => rfl⟩
  · exact .refl w

lemma keeps_trackAbort (query : String) (outcome : Outcome) :
    Keeps w (trackAbort w query outcome) := by
  unfold trackAbort
  rcases outcome with text | _ <;> dsimp only <;> split_ifs <;> exact ⟨rfl, id⟩

lemma keeps_settled (query : String) (result : Wire × Outcome) :
    Keeps result.1 (settled query result) := by
  unfold settled
  rcases result with ⟨w, text | _⟩
  · exact (keeps_trackAbort query _).trans (keeps_noteLostBackend _)
  · exact keeps_trackAbort query _

lemma keeps_execute (query : String) (script : Script) : Keeps w (execute w query script).1 := by
  rw [execute_eq_settled]
  refine Keeps.trans ?_ (keeps_settled query _)
  unfold executeStatement
  split_ifs
  · exact .refl w
  · exact keeps_andThen (keeps_ensureTx _) fun w => keeps_runCourse _

lemma keeps_execSimple (reply : Reply) : Keeps w (execSimple w reply).1 := by
  have hanswer : Keeps w (w.answer reply).1 := keeps_answer reply
  unfold execSimple
  split_ifs
  · exact .refl w
  · rcases hresult : w.answer reply with ⟨w', text | _⟩ <;> rw [hresult] at hanswer
    · exact hanswer.trans (keeps_noteLostBackend _)
    · exact hanswer

lemma keeps_answerEnd (reply : EndReply) : Keeps w (w.answerEnd reply).1 := by
  cases reply with
  | done | unsent => exact ⟨rfl, id⟩
  | error e ended => cases ended <;> exact ⟨rfl, id⟩
  | lost text fault => exact keeps_losing fault

lemma keeps_endTx (statement : String) (reply : String → EndReply) :
    Keeps w (endTx w statement reply).1 := by
  have hending : Keeps w { w with conn := { w.conn with inTx := false, aborted := false } } :=
    ⟨rfl, id⟩
  unfold endTx
  dsimp only
  split_ifs
  · exact hending.trans (keeps_answerEnd _)
  · exact hending

lemma keeps_close (reply : String → EndReply) : Keeps w (close w reply).1 := by
  have hclosing : Keeps w { w with conn := { w.conn with closed := true } } := ⟨rfl, fun _ => rfl⟩
  unfold close
  split_ifs
  · exact .refl w
  · exact hclosing.trans (keeps_endTx _ reply)

lemma keeps_resetSession (ends : String → EndReply) (reply : Reply) :
    Keeps w (resetSession w ends reply).1 := by
  unfold resetSession
  split_ifs
  · exact .refl w
  · exact keeps_andThen (keeps_endTx _ ends) fun w =>
      keeps_andThen (keeps_answer reply) fun w => ⟨rfl, id⟩

lemma keeps_step (e : Event) : Keeps w (w.step e) := by
  cases e with
  | execute query script => exact keeps_execute query script
  | execSimple reply => exact keeps_execSimple reply
  | commit reply => exact keeps_endTx _ reply
  | rollback reply => exact keeps_endTx _ reply
  | close reply => exact keeps_close reply
  | resetSession ends reply => exact keeps_resetSession ends reply
  | lose fault => exact keeps_losing fault

end Keeps

/-! ## Runs -/

section Run

variable {w : Wire}

/-- A closed connection has no flags to look at, whatever is called. -/
lemma Keeps.synced {w' : Wire} (h : Keeps w w') (hauto : w.conn.autocommit = false)
    (hclosed : w.isClosed = true) : Synced w' :=
  synced_of_isClosed (h.autocommit.trans hauto) (h.closed hclosed)

lemma synced_close (h : Synced w) (reply : String → EndReply) : Synced (close w reply).1 := by
  unfold close
  split_ifs with hclosed
  · exact h
  · have hkeeps : Keeps { w with conn := { w.conn with closed := true } } _ :=
      keeps_endTx "ROLLBACK" reply
    exact hkeeps.synced h.1 rfl

/-- The session is reset outside of a transaction. -/
lemma synced_reset (h : Synced w) (hopen : w.isClosed = false) (htx : w.conn.inTx = false)
    (reply : Reply) :
    Synced (andThen (w.answer reply) fun w =>
      ({ w with conn := { w.conn with readonly := false, serializable := false } }, .ok ())).1 ↔
      ∀ e, reply = .error e → w.mode ≠ .inTransaction := by
  have hmode : w.mode ≠ .failed := by
    intro hmode
    have hboth := (h.2 hopen).2.1.mpr hmode
    rw [htx] at hboth
    exact Bool.false_ne_true hboth.1
  have hab : w.conn.aborted = false := (h.2 hopen).2.2 htx
  cases reply with
  | done restored =>
      refine iff_of_true ((synced_open ?_ ?_).mpr ?_) (by simp)
      · exact h.1
      · exact hopen
      · simp [andThen, Wire.answer, htx, hmode, hab]
  | error e =>
      refine (synced_failing h hopen).trans ⟨fun hfine _ _ => hfine, fun hfine => hfine e rfl⟩
  | unsent text => exact iff_of_true h (by simp)
  | lost text fault => exact iff_of_true (synced_losing h.1 fault) (by simp)

lemma synced_resetSession (h : Synced w) (hopen : w.isClosed = false) (ends : String → EndReply)
    (reply : Reply) :
    Synced (resetSession w ends reply).1 ↔ ResetFine w (ends "ROLLBACK") reply := by
  unfold resetSession
  rw [isClosed_eq_false hopen, if_neg Bool.false_ne_true]
  cases htx : w.conn.inTx with
  | false =>
      have hends : endTx w "ROLLBACK" ends =
          ({ w with conn := { w.conn with inTx := false, aborted := false } }, .ok ()) := by
        rw [endTx, htx]
        rfl
      have hsynced := (synced_endTx h hopen "ROLLBACK" ends).mpr (by simp [htx])
      rw [hends] at hsynced ⊢
      refine (synced_reset hsynced hopen rfl reply).trans ?_
      cases reply <;> simp [ResetFine, htx]
  | true =>
      have hfine : ResetFine w (ends "ROLLBACK") reply ↔ EndFine w (ends "ROLLBACK") := by
        cases reply <;> simp [ResetFine, htx]
      have hends := synced_endTx h hopen "ROLLBACK" ends
      rw [htx, eq_self_iff_true, true_imp_iff] at hends
      have hend : endTx w "ROLLBACK" ends =
          ({ w with conn := { w.conn with inTx := false, aborted := false } } : Wire).answerEnd
            (ends "ROLLBACK") := by
        rw [endTx, htx]
        rfl
      rw [hfine, ← hends, hend]
      rw [hend] at hends
      cases hreply : ends "ROLLBACK" with
      | error e ended => cases ended <;> exact Iff.rfl
      | unsent text => exact Iff.rfl
      | lost text fault => exact Iff.rfl
      | done =>
          rw [hreply] at hends
          have hsynced := hends.mpr trivial
          refine iff_of_true ((synced_reset hsynced hopen rfl reply).mpr ?_) hsynced
          intro e _
          exact Mode.noConfusion

/-- **A call keeps the two sides together exactly if it is a fine one.** -/
theorem synced_step_iff (h : Synced w) (hopen : w.isClosed = false) (e : Event) :
    Synced (w.step e) ↔ w.Fine e := by
  cases e with
  | execute query script => exact synced_execute h hopen query script
  | execSimple reply => exact synced_execSimple h hopen reply
  | commit reply => exact synced_endTx h hopen "COMMIT" reply
  | rollback reply => exact synced_endTx h hopen "ROLLBACK" reply
  | close reply => exact iff_of_true (synced_close h reply) trivial
  | resetSession ends reply => exact synced_resetSession h hopen ends reply
  | lose fault => exact iff_of_true (synced_losing h.1 fault) trivial

/-- Every call of a run is a fine one, as long as the connection is open. -/
def Wire.FineRun (w : Wire) : List Event → Prop
  | [] => True
  | e :: events => (w.isClosed = false → w.Fine e) ∧ (w.step e).FineRun events

lemma synced_run_of_fine (h : Synced w) {events : List Event} (hfine : w.FineRun events) :
    Synced (w.run events) := by
  induction events generalizing w with
  | nil => exact h
  | cons e events ih =>
      refine ih ?_ hfine.2
      cases hopen : w.isClosed with
      | true => exact (keeps_step e).synced h.1 hopen
      | false => exact (synced_step_iff h hopen e).mpr (hfine.1 hopen)

lemma synced_opened (readonly serializable : Bool) : Synced (.opened readonly serializable) := by
  refine (synced_open rfl rfl).mpr ?_
  simp [Wire.opened, RustConn.opened]

lemma Synced.mirrors (h : Synced w) : w.Mirrors := by
  intro hopen
  obtain ⟨hidle, hfailed, -⟩ := h.2 hopen
  refine ⟨hidle, ?_⟩
  rw [Wire.inFailedTransaction, Bool.and_eq_true]
  exact hfailed

/-- **After every run of fine calls the flags mirror the server.** -/
theorem mirrors_of_fine_run (readonly serializable : Bool) (events : List Event)
    (hfine : (Wire.opened readonly serializable).FineRun events) :
    ((Wire.opened readonly serializable).run events).Mirrors :=
  (synced_run_of_fine (synced_opened readonly serializable) hfine).mirrors

end Run

/-! ## Three calls -/

namespace Calls

/-- A statement without parameters, which is answered. -/
def answered (reply : Reply) : Script where
  begin _ := .done false
  course := .extended (.ok ()) none .done reply (.ok ())

/-- A string that is given for bytes: it cannot be sent as text, as one given for an integer would be,
and is refused on the client. -/
def refusedText : Script where
  begin _ := .done false
  course := .extended (.ok ()) none (.refused "bytea" "abc" (.done false)) (.done false) (.ok ())

def canceled : ServerError where
  code := "57014"
  named := by decide
  noBar := by simp
  text := "canceling statement due to user request"

/-- A transaction that is not opened. -/
def unopened : Script where
  begin _ := .error canceled
  course := .extended (.ok ()) none .done (.done false) (.ok ())

/-- An error after which the connection is used on. -/
lemma settled_of_open {w : Wire} {query text : String} (hfault : w.conn.fault = none)
    (hfatal : isFatal text = false) (hlost : w.lost = false) (htx : w.conn.inTx = true)
    (hraised : raisedByServer text = true) :
    settled query (w, .error text) = { w with conn := { w.conn with aborted := true } } := by
  have htrack : trackAbort w query (.error text) =
      { w with conn := { w.conn with aborted := true } } := by
    simp only [trackAbort, htx, hraised, if_true]
  have htext : lostBackendError (trackAbort w query (.error text)) text = text := by
    rw [trackAbort_fault, lostBackendError, hfault, Option.getD_none, ite_self]
  have hopen : (trackAbort w query (.error text)).lost = false := by
    rw [htrack]
    exact hlost
  show noteLostBackend _ (lostBackendError _ text) = _
  rw [htext, noteLostBackend, hfatal, hopen, htrack]
  rfl

lemma run_execute (w : Wire) (query : String) (script : Script) :
    w.run [.execute query script] = settled query (executeStatement w script) :=
  execute_eq_settled query script

lemma refused_not_fatal : isFatal (refusedMessage "bytea" "abc") = false := by
  have htext : refusedMessage "bytea" "abc" =
      "SQLSTATE:22P02|invalid input syntax for type bytea: \"abc\"" := by
    decide +kernel
  rw [htext]
  decide +kernel

lemma canceled_not_fatal : isFatal canceled.message = false := by
  have htext : canceled.message = "SQLSTATE:57014|canceling statement due to user request" := by
    decide +kernel
  rw [htext]
  decide +kernel

/-- A refused parameter reads as an aborted transaction, and a `BEGIN` that fails as an open one. -/
theorem flags_diverge :
    ¬ ((Wire.opened false false).run [.execute "SELECT %s::bytea" refusedText]).Mirrors ∧
      ¬ ((Wire.opened false false).run [.execute "SELECT 1" unopened]).Mirrors := by
  constructor
  · intro h
    have hstatement : executeStatement (.opened false false) refusedText =
        ((Wire.opened false false).begun, .error (refusedMessage "bytea" "abc")) := rfl
    rw [run_execute, hstatement, settled_of_open rfl refused_not_fatal rfl rfl
      (raisedByServer_refusedMessage _ _)] at h
    obtain ⟨-, hfailed⟩ := h rfl
    exact Mode.noConfusion (hfailed.mp rfl)
  · intro h
    have hstatement : executeStatement (.opened false false) unopened =
        (({ (Wire.opened false false) with
          conn := { RustConn.opened false false with inTx := true } } : Wire).failing,
            .error canceled.message) := rfl
    rw [run_execute, hstatement, settled_of_open rfl canceled_not_fatal rfl rfl
      (raisedByServer_message _)] at h
    obtain ⟨hidle, -⟩ := h rfl
    exact hidle rfl rfl

lemma rolls_back : statementRollsBack "ROLLBACK TO SAVEPOINT \"s\"" = true := by decide +kernel

/-- A refused statement leaves an aborted transaction. -/
lemma refused_statement (query : String) :
    (Wire.opened false false).step (.execute query (answered (.error canceled))) =
      { (Wire.opened false false).begun.failing with
        conn := { RustConn.opened false false with inTx := true, aborted := true } } := by
  have hstatement : executeStatement (.opened false false) (answered (.error canceled)) =
      ((Wire.opened false false).begun.failing, .error canceled.message) := rfl
  have hstep := execute_eq_settled (w := .opened false false) query (answered (.error canceled))
  rw [hstatement, settled_of_open rfl canceled_not_fatal rfl rfl (raisedByServer_message _)] at hstep
  exact hstep

/-- A statement is refused, the transaction goes back to a savepoint, and it is committed. -/
theorem flags_mirror :
    ((Wire.opened false false).run [.execute "SELECT 1 / 0" (answered (.error canceled)),
      .execute "ROLLBACK TO SAVEPOINT \"s\"" (answered (.done true)),
      .commit fun _ => .done]).Mirrors := by
  refine mirrors_of_fine_run false false _ ⟨fun _ => trivial, ?_⟩
  rw [refused_statement]
  exact ⟨fun _ _ => rolls_back.symm, fun _ _ => trivial, trivial⟩

end Calls

end Cursor

end OdooKernel
