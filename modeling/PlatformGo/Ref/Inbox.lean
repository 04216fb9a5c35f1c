import PlatformGo.Lib.GoText
import PlatformGo.Lib.Lts
import PlatformGo.Lib.RowStore

/-!
# The inbox store, one SQL statement at a time

`SQLStore.Process` is one transaction of at most eight statements around a
call of the handler. The model keeps the place a call has reached (`Pc`) and
the local variables the rest of it still reads, and plays one statement per
step, so that a run interleaves the statements of any number of calls.

Every statement may fail, and then `Process` returns through its deferred
`Rollback`; the rollback is a step of its own (`Pc.unwind`), so the locks are
still held between the failure and the release. A commit may be refused, or
may take effect with the answer lost on the way back; the caller sees an error
in both cases. The server may also drop the transaction at any moment, which
is what a cancelled context or a broken connection does: from then on no
statement of the call succeeds.

A call also carries two fields nothing in the code reads: the domain
statements its handler has executed and what the handler returned. They are
there for the statements of `Proofs/InboxOnce.lean`.
-/

namespace PlatformGo.Inbox

open RowStore

/-- One event for one durable consumer. -/
structure Key where
  consumer : String
  eventID : String
  deriving DecidableEq, Repr

inductive Status where
  | pending | processing | failed | completed
  deriving DecidableEq, Repr

/-- A row of the inbox table, without its key columns. -/
structure Row where
  status : Status
  attempts : Nat
  lastError : Bytes
  completedAt : Option Time
  version : Nat
  createdAt : Time
  updatedAt : Time
  createdBy : String
  updatedBy : String
  deriving DecidableEq, Repr

/-- The persisted delivery state `Process` reports. -/
structure Result where
  duplicate : Bool := false
  attempts : Nat := 0
  deriving DecidableEq, Repr

/-- The first index at or below the given one that does not point into the
middle of a character. -/
def truncate.back (value : Bytes) : Nat → Nat
  | 0 => 0
  | n + 1 =>
      if value.getD (n + 1) 0 &&& 0xc0 == 0x80 then truncate.back value n
      else n + 1

def truncate (value : Bytes) (limit : Nat) : Bytes :=
  if value.length ≤ limit then value
  else value.take (truncate.back value limit)

def validateInput (key : Key) (actor : String) (handlerNil : Bool) :
    Option GoErr :=
  if key.consumer = "" ∨ key.eventID = "" ∨ actor = "" ∨ handlerNil then
    some (.new (bytes
      "inbox consumer, event ID, actor, and handler are required"))
  else if key.consumer.utf8ByteSize > 255 ∨ key.eventID.utf8ByteSize > 255 ∨
      actor.utf8ByteSize > 255 then
    some (.new (bytes
      "inbox consumer, event ID, and actor must not exceed 255 bytes"))
  else none

/-! ## The statements -/

/-- The row `insertPending` writes. -/
def pendingRow (actor : String) (now : Time) : Row :=
  { status := .pending, attempts := 0, lastError := [], completedAt := none
    version := 1, createdAt := now, updatedAt := now
    createdBy := actor, updatedBy := actor }

def markProcessing (actor : String) (now : Time) (r : Row) : Row :=
  { r with
    status := .processing, attempts := r.attempts + 1, lastError := []
    version := r.version + 1, updatedAt := now, updatedBy := actor }

def markFailed (actor : String) (cause : GoErr) (now : Time) (r : Row) : Row :=
  { r with
    status := .failed, lastError := truncate cause.text 4096
    version := r.version + 1, updatedAt := now, updatedBy := actor }

def markCompleted (actor : String) (now : Time) (r : Row) : Row :=
  { r with
    status := .completed, lastError := [], completedAt := some now
    version := r.version + 1, updatedAt := now, updatedBy := actor }

/-- The condition of the `DELETE` in `DeleteCompletedBefore`; a `NULL`
completion time is before nothing. -/
def completedBefore (before : Time) (r : Row) : Bool :=
  r.status == .completed && r.completedAt.any (· < before)

/-! ## A call of `Process` -/

/-- Where a call stands: the statement it executes next. -/
inductive Pc where
  | begin
  | insertPending
  | lock
  | commitDuplicate
  | markProcessing
  | savepoint
  | handler
  | rollbackTo (cause : GoErr)
  | markFailed (cause : GoErr)
  | commitFailed (cause : GoErr)
  | release
  | markCompleted
  | commit
  /-- A statement failed; the deferred `Rollback` has not run yet. -/
  | unwind (err : GoErr)
  | returned (result : Result) (err : Option GoErr)
  deriving DecidableEq, Repr

structure Call (W : Type) where
  key : Key
  actor : String
  now : Time := 0
  attempts : Nat := 0
  pc : Pc
  /-- The domain statements the handler has executed. -/
  issued : List W := []
  /-- What the handler returned, once it has. -/
  handled : Option (Option GoErr) := none

/-- A domain statement, with the call whose handler executed it. -/
structure Effect (W : Type) where
  call : Nat
  key : Key
  stmt : W
  deriving DecidableEq, Repr

/-- The inbox table and the domain tables, with the calls on them. A call is
the transaction it opens. -/
abbrev Store (W : Type) := Db Key Row (Effect W) Nat

structure Sys (W : Type) where
  db : Store W
  calls : Nat → Option (Call W)

def init (W : Type) : Sys W := ⟨Db.empty, fun _ => none⟩

/-- A failing statement, or one that ran and whose row count is lost. -/
inductive Fault where
  | exec (err : GoErr)
  | count (err : GoErr)
  deriving DecidableEq, Repr

variable {W : Type}

/-- A statement of which only the error is looked at. -/
def sql (context : String) (db : Store W) (run : Option (Store W)) :
    Option Fault → Option (Store W × Option GoErr)
  | some (.exec e) => some (db, some (.wrap context e))
  | some (.count _) => none
  | none => run.map fun db' => (db', none)

/-- `execOne`: exactly one row has to be affected. -/
def execOne (action : String) (db : Store W) (run : Option (Store W × Nat)) :
    Option Fault → Option (Store W × Option GoErr)
  | some (.exec e) => some (db, some (.wrap action e))
  | some (.count e) =>
      run.map fun r =>
        (r.1, some (.wrap ("count affected rows after " ++ action) e))
  | none =>
      run.map fun r =>
        if r.2 = 1 then (r.1, none)
        else (r.1, some (.new (bytes
          (action ++ ": expected one affected row, got " ++ toString r.2))))

/-- Go on to `next`, or unwind with the statement's error as `wrapped` turns
it into the one `Process` returns. -/
def Call.proceed (call : Call W) (next : Pc) (wrapped : GoErr → GoErr)
    (r : Store W × Option GoErr) : Store W × Call W :=
  match r.2 with
  | none => (r.1, { call with pc := next })
  | some e => (r.1, { call with pc := .unwind (wrapped e) })

/-- `lock`, and the two ways `Process` goes on from the row it read. -/
def Call.locked (call : Call W) : Option Row → Call W
  | none =>
      { call with
        pc := .unwind (.new (bytes "pending inbox event disappeared")) }
  | some row =>
      if row.status = .completed then
        { call with attempts := row.attempts, pc := .commitDuplicate }
      else { call with attempts := row.attempts + 1, pc := .markProcessing }

/-- The next statement of a call, unless it is the handler or a commit. -/
def Call.exec (c : Nat) (call : Call W) (db : Store W) (now : Time)
    (fault : Option Fault) : Option (Store W × Call W) :=
  match call.pc with
  | .begin =>
      match fault with
      | some (.exec e) =>
          some (db, { call with
            pc := .returned {} (some (.wrap "begin inbox transaction" e)) })
      | some (.count _) => none
      | none =>
          (db.begin c).map fun db' =>
            (db', { call with now := now, pc := .insertPending })
  | .insertPending =>
      (sql "insert pending inbox event" db
        (db.insertIgnore c call.key (pendingRow call.actor call.now))
        fault).map (call.proceed .lock id)
  | .lock =>
      match fault with
      | some (.exec e) =>
          some (db, { call with pc := .unwind (.wrap "lock inbox event" e) })
      | some (.count _) => none
      | none =>
          (db.selectForUpdate c call.key).map fun r => (r.1, call.locked r.2)
  | .markProcessing =>
      (execOne "mark inbox event processing" db
        (db.update c call.key (markProcessing call.actor call.now))
        fault).map (call.proceed .savepoint id)
  | .savepoint =>
      (sql "create inbox savepoint" db (db.savepoint c) fault).map
        (call.proceed .handler id)
  | .rollbackTo cause =>
      (sql "rollback inbox domain writes" db (db.rollbackTo c) fault).map
        (call.proceed (.markFailed cause) (.join cause))
  | .markFailed cause =>
      (execOne "mark inbox event failed" db
        (db.update c call.key (markFailed call.actor cause call.now))
        fault).map (call.proceed (.commitFailed cause) (.join cause))
  | .release =>
      (sql "release inbox savepoint" db (db.release c) fault).map
        (call.proceed .markCompleted id)
  | .markCompleted =>
      (execOne "mark inbox event completed" db
        (db.update c call.key (markCompleted call.actor call.now))
        fault).map (call.proceed .commit id)
  | .unwind e =>
      some (db.rollback c, { call with pc := .returned {} (some e) })
  | .handler | .commitDuplicate | .commitFailed _ | .commit
  | .returned .. => none

/-- What `Process` returns after its commit, given the commit's error. -/
def Call.answer (call : Call W) (err : Option GoErr) :
    Option (Result × Option GoErr) :=
  match call.pc, err with
  | .commitDuplicate, none =>
      some ({ duplicate := true, attempts := call.attempts }, none)
  | .commitDuplicate, some e =>
      some ({}, some (.wrap "commit duplicate inbox transaction" e))
  | .commitFailed cause, none =>
      some ({ attempts := call.attempts },
        some (.wrap "process inbox event" cause))
  | .commitFailed cause, some e =>
      some ({}, some (.join cause (.wrap "commit failed inbox attempt" e)))
  | .commit, none => some ({ attempts := call.attempts }, none)
  | .commit, some e => some ({}, some (.wrap "commit inbox transaction" e))
  | _, _ => none

/-- The commit of a call that has reached one. -/
def Call.commitTx (c : Nat) (call : Call W) (db : Store W) :
    CommitOutcome → Option (Store W × Call W)
  | .done =>
      (call.answer none).bind fun a =>
        (db.commit c).map fun db' => (db', { call with pc := .returned a.1 a.2 })
  | .lost e =>
      (call.answer (some e)).bind fun a =>
        (db.commit c).map fun db' => (db', { call with pc := .returned a.1 a.2 })
  | .refused e =>
      (call.answer (some e)).map fun a =>
        (db.rollback c, { call with pc := .returned a.1 a.2 })

/-! ## The system -/

inductive Action (W : Type) where
  /-- `Process` is called. -/
  | process (c : Nat) (key : Key) (actor : String) (handlerNil : Bool)
  /-- A call executes its next statement. The time is what its clock shows. -/
  | exec (c : Nat) (now : Time) (fault : Option Fault)
  /-- A handler executes a domain statement. -/
  | write (c : Nat) (stmt : W)
  /-- A handler returns. -/
  | handled (c : Nat) (err : Option GoErr)
  | commit (c : Nat) (outcome : CommitOutcome)
  /-- The server drops the transaction of a call. -/
  | drop (c : Nat)
  /-- The `DELETE` of `DeleteCompletedBefore` for one key. -/
  | delete (key : Key) (before : Time)

def Sys.set (s : Sys W) (c : Nat) (r : Store W × Call W) : Sys W :=
  ⟨r.1, Function.update s.calls c (some r.2)⟩

def step (s : Sys W) : Action W → Option (Sys W)
  | .process c key actor handlerNil =>
      match s.calls c, validateInput key actor handlerNil with
      | some _, _ => none
      | none, some e =>
          some (s.set c (s.db, { key, actor, pc := .returned {} (some e) }))
      | none, none => some (s.set c (s.db, { key, actor, pc := .begin }))
  | .exec c now fault =>
      (s.calls c).bind fun call =>
        (call.exec c s.db now fault).map (s.set c)
  | .write c stmt =>
      (s.calls c).bind fun call =>
        if call.pc = .handler then
          (s.db.exec c ⟨c, call.key, stmt⟩).map fun db =>
            s.set c (db, { call with issued := call.issued ++ [stmt] })
        else none
  | .handled c err =>
      (s.calls c).bind fun call =>
        if call.pc = .handler then
          some (s.set c (s.db, { call with
            handled := some err
            pc := match err with
              | none => .release
              | some cause => .rollbackTo cause }))
        else none
  | .commit c outcome =>
      (s.calls c).bind fun call =>
        (call.commitTx c s.db outcome).map (s.set c)
  | .drop c => some { s with db := s.db.rollback c }
  | .delete key before =>
      (s.db.deleteNow key (completedBefore before)).map fun r =>
        { s with db := r.1 }

end PlatformGo.Inbox
