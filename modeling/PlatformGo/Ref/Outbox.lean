import PlatformGo.Lib.Lts
import PlatformGo.Lib.RowStore
import PlatformGo.Ref.Consumer

/-!
# The outbox table and its dispatchers

Business transactions add events to the table, any number of dispatchers run
`RunOnce` over it, and retention deletes what has been published. Everything
is played one SQL statement, one publication or one reading of the clock at a
time. A dispatcher may stop for good between any two of its steps; when its
connection goes, the server rolls its transaction back (`crash`).

`Claim` selects `FOR UPDATE SKIP LOCKED`: the rows are the first ones in the
order of the query that are due and that nobody has locked. Rows of equal
times may come in any order, so the rows found are part of the step, which
checks that they are an answer to the query.

With a worker actor configured, `MarkPublished` and `MarkFailed` run their
update in a transaction of its own and hold the row until it commits;
otherwise the update is a single statement.

The id is the key of the table. The log of the row store is used to record
the events whose `AddTx` was committed, and the publications are recorded in
order; the code reads neither. There is one clock, which every reading reads
and which may be set to any time between two steps.
-/

namespace PlatformGo.Outbox

open RowStore

structure Event where
  id : String
  subject : String
  /-- `none` is a nil pointer. -/
  envelope : Option EventBus.EventEnvelope
  deriving DecidableEq, Repr

/-- A row of the outbox table, without its key. -/
structure Row where
  subject : String
  envelope : Bytes
  attempts : Nat
  availableAt : Time
  publishedAt : Option Time
  lastError : Bytes
  version : Nat
  createdAt : Time
  updatedAt : Time
  createdBy : String
  updatedBy : String
  deriving DecidableEq, Repr

structure SQLStore where
  table : String
  workerActor : String := ""
  marshal : EventBus.EventEnvelope → Except GoErr Bytes
  unmarshal : Bytes → Except GoErr EventBus.EventEnvelope
  /-- The printable characters of `%q`. -/
  isPrint : Char → Bool

structure Config where
  batchSize : Int := 0
  lease : Time := 0
  retryDelay : Time := 0
  deriving DecidableEq, Repr

/-- The settings `New` makes of the given ones. -/
def Config.new (c : Config) : Config :=
  { batchSize := if c.batchSize ≤ 0 then 100 else c.batchSize
    lease := if c.lease ≤ 0 then 30 * second else c.lease
    retryDelay :=
      if c.retryDelay ≤ 0 then 5 * second else c.retryDelay }

/-! ## The statements -/

/-- What `AddTx` checks before it writes, and the envelope it writes. -/
def SQLStore.encodeEvent (store : SQLStore) (event : Event)
    (actor : String) : Except GoErr Bytes :=
  match event.envelope with
  | none => .error (.new (bytes
      "transaction, complete event, and audit actor are required"))
  | some envelope =>
      if event.id = "" ∨ event.subject = "" ∨ actor = "" then
        .error (.new (bytes
          "transaction, complete event, and audit actor are required"))
      else if envelope.eventId ≠ event.id ∨
          envelope.eventType ≠ event.subject then
        .error (.new (bytes
          "outbox event id and subject must match its envelope"))
      else
        match store.marshal envelope with
        | .ok encoded => .ok encoded
        | .error e => .error (.wrap ("encode " ++ store.table ++ " event " ++
            quote store.isPrint event.id) e)

def addedRow (event : Event) (encoded : Bytes) (actor : String)
    (now : Time) : Row :=
  { subject := event.subject, envelope := encoded, attempts := 0
    availableAt := now, publishedAt := none, lastError := [], version := 1
    createdAt := now, updatedAt := now, createdBy := actor
    updatedBy := actor }

def dispatcherName : String := "outbox-dispatcher"

def leaseRow (now : Time) (lease : Time) (r : Row) : Row :=
  { r with
    attempts := r.attempts + 1, availableAt := now + lease
    version := r.version + 1, updatedAt := now, updatedBy := dispatcherName }

/-- The two ways an event is marked. -/
inductive Mark where
  | published (at_ : Time)
  | failed (message : Bytes) (retryAt : Time)
  deriving DecidableEq, Repr

/-- The column assignments of `MarkPublished` and `MarkFailed`. -/
def Mark.row (now : Time) (r : Row) : Mark → Row
  | .published at_ =>
      { r with
        publishedAt := some at_, version := r.version + 1, updatedAt := at_
        updatedBy := dispatcherName, lastError := [] }
  | .failed message retryAt =>
      { r with
        availableAt := retryAt
        lastError :=
          if message.length > 4096 then message.take 4096 else message
        version := r.version + 1, updatedAt := now
        updatedBy := dispatcherName }

/-- `published_at IS NULL`. -/
def Row.pending (r : Row) : Bool := r.publishedAt.isNone

/-- The condition of the `SELECT` in `Claim`. -/
def Row.due (now : Time) (r : Row) : Bool :=
  r.pending && r.availableAt ≤ now

/-- The condition of the `DELETE` in `DeletePublishedBefore`. -/
def publishedBefore (before : Time) (r : Row) : Bool :=
  r.publishedAt.any (· < before)

/-- The outcome of an update as `affected` reports it: the error of the
statement, the error of counting, or the count. -/
def SQLStore.affected (store : SQLStore) (id : String) :
    Except GoErr (Except GoErr Nat) → Option GoErr
  | .error e => some (.wrap ("update " ++ store.table ++ " event " ++
      quote store.isPrint id) e)
  | .ok (.error e) => some (.wrap ("count " ++ store.table ++ " event " ++
      quote store.isPrint id) e)
  | .ok (.ok count) =>
      if count ≠ 1 then
        some (.new (bytes (store.table ++ " event " ++
          quote store.isPrint id ++ " is no longer pending")))
      else none

/-! ## The query of `Claim` -/

inductive Tid where
  | business (n : Nat)
  | worker (d : Nat)
  deriving DecidableEq, Repr

abbrev Table := Db String Row Event Tid

/-- `ORDER BY available_at, created_at`. -/
def Row.notAfter (a b : Row) : Bool :=
  a.availableAt < b.availableAt ||
    (a.availableAt == b.availableAt && a.createdAt ≤ b.createdAt)

def notAfter (db : Table) (i j : String) : Bool :=
  match db.lookup i, db.lookup j with
  | some a, some b => a.notAfter b
  | _, _ => true

/-- The rows that are due and that nobody has locked. -/
def candidates (db : Table) (now : Time) : List String :=
  db.rows.keys.filter fun k =>
    (db.locks k).isNone && (db.lookup k).any (Row.due now)

/-- The ids are the first of the candidates, at most `limit` of them. -/
def selects (db : Table) (now : Time) (limit : Nat) (ids : List String) :
    Bool :=
  decide ids.Nodup && ids.all (candidates db now).contains &&
    ids.length == min limit (candidates db now).length &&
    decide (ids.Pairwise fun i j => notAfter db i j = true) &&
    (candidates db now).all fun k =>
      ids.contains k || ids.all fun i => notAfter db i k

def found (db : Table) (ids : List String) : List (String × Row) :=
  ids.filterMap fun k => (db.lookup k).map fun r => (k, r)

/-! ## A dispatcher -/

/-- Where a dispatcher stands. -/
inductive Phase where
  | idle
  /-- `Claim` has begun its transaction. -/
  | opened
  /-- It has read the clock. -/
  | selecting (now : Time)
  /-- It has selected and leases the rows one by one. -/
  | leasing (now : Time) (rows : List (String × Row)) (values : List Event)
  /-- The loop of `RunOnce`. -/
  | batch (events : List Event)
  /-- `Publish` has answered. -/
  | sent (event : Event) (err : Option GoErr) (rest : List Event)
  /-- The update is next. -/
  | marking (event : Event) (err : Option GoErr) (mark : Mark)
      (rest : List Event)
  /-- The update is next, in an open transaction. -/
  | markOpen (event : Event) (err : Option GoErr) (mark : Mark)
      (rest : List Event)
  /-- The update has run and its transaction is to be committed. -/
  | marked (event : Event) (err : Option GoErr) (count : Nat)
      (rest : List Event)
  deriving DecidableEq

/-- A dispatcher with the counter and the errors of its `RunOnce`, and what
the last one returned. -/
structure Worker where
  phase : Phase := .idle
  published : Nat := 0
  errors : List GoErr := []
  result : Option (Nat × List GoErr) := none

/-- `RunOnce` returns. -/
def Worker.return (w : Worker) (published : Nat) (errors : List GoErr) :
    Worker :=
  { w with phase := .idle, result := some (published, errors) }

/-- `RunOnce` returns because `Claim` did. -/
def Worker.claimFailed (w : Worker) (err : GoErr) : Worker :=
  w.return 0 [.wrap "claim outbox events" err]

/-- The rest of the loop body once the mark has returned. -/
def SQLStore.afterMark (store : SQLStore) (w : Worker) (event : Event)
    (err markErr : Option GoErr) (rest : List Event) : Worker :=
  let name := quote store.isPrint event.id
  match err, markErr with
  | none, none =>
      { w with phase := .batch rest, published := w.published + 1 }
  | none, some e =>
      { w with
        phase := .batch rest
        errors := w.errors ++ [.wrap ("mark event " ++ name ++ " published") e] }
  | some e, none =>
      { w with
        phase := .batch rest
        errors := w.errors ++ [.wrap ("publish event " ++ name) e] }
  | some e, some e' =>
      { w with
        phase := .batch rest
        errors := w.errors ++
          [.join e (.wrap ("mark event " ++ name ++ " failed") e')] }

/-! ## The system -/

structure Publication where
  subject : String
  envelope : EventBus.EventEnvelope
  err : Option GoErr
  deriving DecidableEq

structure Sys where
  db : Table := Db.empty
  workers : Nat → Worker := fun _ => {}
  clock : Time := 0
  publications : List Publication := []

structure Setup where
  store : SQLStore
  config : Nat → Config

/-- How a single statement outside a transaction can go wrong. -/
inductive StatementFault where
  | notExecuted (err : GoErr)
  | answerLost (err : GoErr)
  | countLost (err : GoErr)

inductive Action where
  | begin (n : Nat)
  | addTx (n : Nat) (event : Event) (actor : String)
  | commit (n : Nat)
  | rollback (n : Nat)
  | claimBegin (d : Nat)
  | claimClock (d : Nat)
  | claimSelect (d : Nat) (ids : List String)
  | claimLease (d : Nat)
  | claimCommit (d : Nat) (outcome : CommitOutcome)
  /-- A statement of `Claim` fails. -/
  | claimFail (d : Nat) (err : GoErr)
  | publish (d : Nat) (err : Option GoErr)
  /-- The context turns out to be cancelled before the next event. -/
  | cancel (d : Nat) (err : GoErr)
  /-- The dispatcher reads its clock for the mark. -/
  | stamp (d : Nat)
  | mark (d : Nat) (fault : Option StatementFault)
  | markBegin (d : Nat)
  | markExec (d : Nat)
  | markCommit (d : Nat) (outcome : CommitOutcome)
  /-- A statement of the marking transaction fails. -/
  | markFail (d : Nat) (err : GoErr)
  | finish (d : Nat)
  | crash (d : Nat)
  /-- The `DELETE` of `DeletePublishedBefore` for one id. -/
  | delete (id : String) (before : Time)
  | clock (t : Time)

def Sys.set (s : Sys) (d : Nat) (w : Worker) : Sys :=
  { s with workers := Function.update s.workers d w }

def Sys.phase (s : Sys) (d : Nat) : Phase := (s.workers d).phase

/-- The worker moves to another phase and nothing else happens. -/
def Sys.goto (s : Sys) (d : Nat) (phase : Phase) : Sys :=
  s.set d { s.workers d with phase }

def Setup.addTx (setup : Setup) (s : Sys) (n : Nat) (event : Event)
    (actor : String) : Option Sys :=
  match setup.store.encodeEvent event actor with
  | .error _ => none
  | .ok encoded =>
      (s.db.insert (.business n) event.id
        (addedRow event encoded actor s.clock)).bind fun db =>
          (db.exec (.business n) event).map fun db => { s with db }

def Setup.claimSelect (setup : Setup) (s : Sys) (d : Nat)
    (ids : List String) : Option Sys :=
  match s.phase d with
  | .selecting now =>
      if selects s.db now (setup.config d).batchSize.toNat ids then
        some ({ s with db := s.db.lockAll (.worker d) ids }.goto d
          (.leasing now (found s.db ids) []))
      else none
  | _ => none

/-- One round of the loop in `Claim`. A row that does not decode ends it. -/
def Setup.claimLease (setup : Setup) (s : Sys) (d : Nat) : Option Sys :=
  match s.phase d with
  | .leasing now ((id, row) :: rows) values =>
      match setup.store.unmarshal row.envelope with
      | .error e =>
          some ({ s with db := s.db.rollback (.worker d) }.set d
            ((s.workers d).claimFailed (.wrap ("decode " ++
              setup.store.table ++ " event " ++
              quote setup.store.isPrint id) e)))
      | .ok envelope =>
          (s.db.updateWhere (.worker d) id Row.pending
            (leaseRow now (setup.config d).lease)).map fun r =>
              { s with db := r.1 }.goto d (.leasing now rows
                (values ++ [Event.mk id row.subject (some envelope)]))
  | _ => none

def Setup.claimCommit (setup : Setup) (s : Sys) (d : Nat) :
    CommitOutcome → Option Sys
  | .done =>
      match s.phase d with
      | .leasing _ [] values =>
          (s.db.commit (.worker d)).map fun db =>
            { s with db }.goto d (.batch values)
      | _ => none
  | .lost e =>
      match s.phase d with
      | .leasing _ [] _ =>
          (s.db.commit (.worker d)).map fun db =>
            { s with db }.set d ((s.workers d).claimFailed
              (.wrap ("commit " ++ setup.store.table ++ " claim") e))
      | _ => none
  | .refused e =>
      match s.phase d with
      | .leasing _ [] _ =>
          some ({ s with db := s.db.rollback (.worker d) }.set d
            ((s.workers d).claimFailed
              (.wrap ("commit " ++ setup.store.table ++ " claim") e)))
      | _ => none

def Sys.claimFail (s : Sys) (d : Nat) (err : GoErr) : Option Sys :=
  match s.phase d with
  | .idle | .opened | .selecting _ | .leasing .. =>
      some ({ s with db := s.db.rollback (.worker d) }.set d
        ((s.workers d).claimFailed err))
  | _ => none

def Sys.publish (s : Sys) (d : Nat) (err : Option GoErr) : Option Sys :=
  match s.phase d with
  | .batch (event :: rest) =>
      event.envelope.map fun envelope =>
        { s with
          publications := s.publications ++
            [Publication.mk event.subject envelope err] }.goto d
            (.sent event err rest)
  | _ => none

def Setup.stamp (setup : Setup) (s : Sys) (d : Nat) : Option Sys :=
  match s.phase d with
  | .sent event none rest =>
      some (s.goto d (.marking event none (.published s.clock) rest))
  | .sent event (some e) rest =>
      some (s.goto d (.marking event (some e)
        (.failed e.text (s.clock + (setup.config d).retryDelay)) rest))
  | _ => none

/-- The update as a single statement. -/
def Setup.mark (setup : Setup) (s : Sys) (d : Nat)
    (fault : Option StatementFault) : Option Sys :=
  match s.phase d with
  | .marking event err mark rest =>
      if setup.store.workerActor ≠ "" then none
      else
        match fault with
        | some (.notExecuted e) =>
            some (s.set d (setup.store.afterMark (s.workers d) event err
              (setup.store.affected event.id (.error e)) rest))
        | some (.answerLost e) =>
            (s.db.updateNow event.id Row.pending (mark.row s.clock)).map
              fun r => { s with db := r.1 }.set d
                (setup.store.afterMark (s.workers d) event err
                  (setup.store.affected event.id (.error e)) rest)
        | some (.countLost e) =>
            (s.db.updateNow event.id Row.pending (mark.row s.clock)).map
              fun r => { s with db := r.1 }.set d
                (setup.store.afterMark (s.workers d) event err
                  (setup.store.affected event.id (.ok (.error e))) rest)
        | none =>
            (s.db.updateNow event.id Row.pending (mark.row s.clock)).map
              fun r => { s with db := r.1 }.set d
                (setup.store.afterMark (s.workers d) event err
                  (setup.store.affected event.id (.ok (.ok r.2))) rest)
  | _ => none

def Setup.markBegin (setup : Setup) (s : Sys) (d : Nat) : Option Sys :=
  match s.phase d with
  | .marking event err mark rest =>
      if setup.store.workerActor = "" then none
      else
        (s.db.begin (.worker d)).map fun db =>
          { s with db }.goto d (.markOpen event err mark rest)
  | _ => none

def Sys.markExec (s : Sys) (d : Nat) : Option Sys :=
  match s.phase d with
  | .markOpen event err mark rest =>
      (s.db.updateWhere (.worker d) event.id Row.pending
        (mark.row s.clock)).map fun r =>
          { s with db := r.1 }.goto d (.marked event err r.2 rest)
  | _ => none

def Setup.markCommit (setup : Setup) (s : Sys) (d : Nat)
    (outcome : CommitOutcome) : Option Sys :=
  match s.phase d with
  | .marked event err count rest =>
      let failed (e : GoErr) : Option GoErr :=
        setup.store.affected event.id (.error
          (.wrap ("commit " ++ setup.store.table ++ " worker update") e))
      match outcome with
      | .done =>
          (s.db.commit (.worker d)).map fun db =>
            { s with db }.set d (setup.store.afterMark (s.workers d) event
              err (setup.store.affected event.id (.ok (.ok count))) rest)
      | .lost e =>
          (s.db.commit (.worker d)).map fun db =>
            { s with db }.set d (setup.store.afterMark (s.workers d) event
              err (failed e) rest)
      | .refused e =>
          some ({ s with db := s.db.rollback (.worker d) }.set d
            (setup.store.afterMark (s.workers d) event err (failed e) rest))
  | _ => none

def Setup.markFail (setup : Setup) (s : Sys) (d : Nat) (err : GoErr) :
    Option Sys :=
  let next (event : Event) (publishErr : Option GoErr) (rest : List Event) :
      Sys :=
    { s with db := s.db.rollback (.worker d) }.set d
      (setup.store.afterMark (s.workers d) event publishErr
        (setup.store.affected event.id (.error err)) rest)
  if setup.store.workerActor = "" then none
  else
    match s.phase d with
    | .marking event publishErr _ rest => some (next event publishErr rest)
    | .markOpen event publishErr _ rest => some (next event publishErr rest)
    | _ => none

def Setup.step (setup : Setup) (s : Sys) : Action → Option Sys
  | .begin n => (s.db.begin (.business n)).map fun db => { s with db }
  | .addTx n event actor => setup.addTx s n event actor
  | .commit n => (s.db.commit (.business n)).map fun db => { s with db }
  | .rollback n => some { s with db := s.db.rollback (.business n) }
  | .claimBegin d =>
      if s.phase d = .idle then
        (s.db.begin (.worker d)).map fun db =>
          { s with db }.set d { phase := .opened }
      else none
  | .claimClock d =>
      if s.phase d = .opened then some (s.goto d (.selecting s.clock))
      else none
  | .claimSelect d ids => setup.claimSelect s d ids
  | .claimLease d => setup.claimLease s d
  | .claimCommit d outcome => setup.claimCommit s d outcome
  | .claimFail d err => s.claimFail d err
  | .publish d err => s.publish d err
  | .cancel d err =>
      match s.phase d with
      | .batch (_ :: _) =>
          some (s.set d ((s.workers d).return (s.workers d).published
            ((s.workers d).errors ++ [err])))
      | _ => none
  | .stamp d => setup.stamp s d
  | .mark d fault => setup.mark s d fault
  | .markBegin d => setup.markBegin s d
  | .markExec d => s.markExec d
  | .markCommit d outcome => setup.markCommit s d outcome
  | .markFail d err => setup.markFail s d err
  | .finish d =>
      if s.phase d = .batch [] then
        some (s.set d ((s.workers d).return (s.workers d).published
          (s.workers d).errors))
      else none
  | .crash d => some ({ s with db := s.db.rollback (.worker d) }.set d {})
  | .delete id before =>
      (s.db.deleteNow id (publishedBefore before)).map fun r =>
        { s with db := r.1 }
  | .clock t => some { s with clock := t }

end PlatformGo.Outbox
