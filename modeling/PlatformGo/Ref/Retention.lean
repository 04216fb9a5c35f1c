import Mathlib.Data.List.Sort
import PlatformGo.Ref.Inbox
import PlatformGo.Ref.Outbox

/-!
# Retention

`RetentionCleaner.RunOnce` of the outbox and of the inbox, next to everything
else that works on the table. The two are one loop around two similar methods:
`DeletePublishedBefore` and `DeleteCompletedBefore` select a batch of finished
rows and delete them, checking again that they are finished. The loop ends with
the first batch that is short.

The machine has the system of the table for a part of its state (`Host`), and
plays the cleaners statement by statement between the steps of the others. The
selection reads the committed rows and locks nothing. The inbox deletes its keys
one statement after the other. The outbox deletes them with one statement,
which comes to the rows in an order of its own; the rows are deleted here when
it comes to them, one step for each. A database makes the deletions of one
statement visible at once and takes them back if the statement fails, which is
what the steps do when they follow each other at the end, or are not made.

`removed` and `runs` are a record of what the cleaners did; the code reads
neither.
-/

namespace PlatformGo.Retention

open RowStore

/-- The system of a table: what everybody else does, and the table in it. -/
structure Host (S A K R W T : Type) where
  step : S → A → Option S
  db : S → Db K R W T
  withDb : S → Db K R W T → S
  db_withDb : ∀ s d, db (withDb s d) = d
  withDb_withDb : ∀ s d d', withDb (withDb s d) d' = withDb s d'
  withDb_db : ∀ s, withDb s (db s) = s

/-- What the methods of the two stores differ in. -/
structure Method (K R : Type) where
  /-- The condition of the `SELECT` and of the `DELETE`. -/
  eligible : Time → R → Bool
  /-- `ORDER BY`. -/
  notAfter : K × R → K × R → Bool
  /-- One `DELETE` for each key, in the order of the selection. -/
  oneByOne : Bool
  limitError : GoErr
  deleteError : GoErr → GoErr
  countError : GoErr → GoErr

structure RetentionConfig where
  retention : Time
  batchSize : Int
  deriving DecidableEq, Repr

structure RetentionCleaner where
  retention : Time
  batchSize : Int
  retention_pos : 0 < retention
  batchSize_pos : 0 < batchSize

/-- `NewRetentionCleaner`, for a store that is there or not. -/
def newRetentionCleaner (required : String) (store : Bool)
    (config : RetentionConfig) : Except GoErr RetentionCleaner :=
  if h : store = false ∨ config.retention ≤ 0 ∨ config.batchSize ≤ 0 then
    .error (.new (bytes (required ++ ", retention, and batch size are required")))
  else
    .ok ⟨config.retention, config.batchSize,
      Int.not_le.mp fun hle => h (.inr (.inl hle)),
      Int.not_le.mp fun hle => h (.inr (.inr hle))⟩

/-! ## The statements -/

section Statements

variable {K R W T : Type} [DecidableEq K] [DecidableEq T]

/-- The keys of the rows that satisfy the condition. -/
def candidates (m : Method K R) (db : Db K R W T) (before : Time) : List K :=
  db.rows.keys.filter fun k => (db.lookup k).any (m.eligible before)

def Method.inOrder (m : Method K R) (db : Db K R W T) (i j : K) : Prop :=
  match db.lookup i, db.lookup j with
  | some a, some b => m.notAfter (i, a) (j, b) = true
  | _, _ => True

instance (m : Method K R) (db : Db K R W T) : DecidableRel (m.inOrder db) := by
  intro i j
  unfold Method.inOrder
  split <;> infer_instance

/-- The answer to the `SELECT`. -/
def selected (m : Method K R) (db : Db K R W T) (before : Time)
    (limit : Int) : List K :=
  ((candidates m db before).insertionSort (m.inOrder db)).take limit.toNat

/-- The row that is there before a statement and not after it. -/
def gone (db db' : Db K R W T) (k : K) : List (K × R) :=
  if (db'.lookup k).isNone then (db.lookup k).toList.map fun r => (k, r) else []

end Statements

/-! ## A run of `RunOnce` -/

inductive Phase (K : Type) where
  | idle
  /-- The method is called next. -/
  | looping (cutoff : Time) (total : Nat)
  /-- The method has selected keys and deletes those that are left. -/
  | deleting (cutoff : Time) (total : Nat) (left : List K) (deleted : Nat)
  deriving DecidableEq, Repr

structure Cleaner (K R : Type) where
  phase : Phase K := .idle
  /-- The rows removed since `RunOnce` was called. -/
  removed : List (K × R) := []

/-- What `RunOnce` of a cleaner returned. -/
structure Run (K R : Type) where
  cleaner : Nat
  total : Nat
  err : Option GoErr
  removed : List (K × R)

structure Sys (S K R : Type) where
  host : S
  cleaners : Nat → Cleaner K R := fun _ => {}
  runs : List (Run K R) := []

/-- How a statement of a cleaner can fail. -/
inductive Fault where
  | select (err : GoErr)
  | delete (err : GoErr)
  | count (err : GoErr)

inductive Action (A K : Type) where
  | other (a : A)
  /-- `RunOnce` is called and reads the clock. -/
  | start (n : Nat) (now : Time)
  | select (n : Nat)
  /-- The `DELETE` comes to a row. -/
  | delete (n : Nat) (k : K)
  /-- The method returns. -/
  | next (n : Nat)
  | fail (n : Nat) (fault : Fault)

structure Setup (S A K R W T : Type) where
  host : Host S A K R W T
  method : Method K R
  cleaner : Nat → RetentionCleaner

section Machine

variable {S A K R W T : Type}

def Sys.set (s : Sys S K R) (n : Nat) (c : Cleaner K R) : Sys S K R :=
  { s with cleaners := Function.update s.cleaners n c }

def Sys.phase (s : Sys S K R) (n : Nat) : Phase K := (s.cleaners n).phase

def Sys.goto (s : Sys S K R) (n : Nat) (phase : Phase K) : Sys S K R :=
  s.set n { s.cleaners n with phase }

/-- `RunOnce` returns. -/
def Sys.return (s : Sys S K R) (n : Nat) (total : Nat) (err : Option GoErr) :
    Sys S K R :=
  Sys.set { s with runs := s.runs ++ [⟨n, total, err, (s.cleaners n).removed⟩] } n {}

variable (setup : Setup S A K R W T)

def Setup.db (s : Sys S K R) : Db K R W T := setup.host.db s.host

/-- The rest of the loop body, once the method has returned without an
error. -/
def Setup.batch (s : Sys S K R) (n : Nat) (cutoff : Time) (total deleted : Nat) :
    Sys S K R :=
  if (deleted : Int) < (setup.cleaner n).batchSize then
    s.return n (total + deleted) none
  else s.goto n (.looping cutoff (total + deleted))

variable [DecidableEq K] [DecidableEq T]

/-- The start of the method: without keys it returns at once. -/
def Setup.select (s : Sys S K R) (n : Nat) : Option (Sys S K R) :=
  match s.phase n with
  | .looping cutoff total =>
      if (setup.cleaner n).batchSize ≤ 0 then
        some (s.return n total (some setup.method.limitError))
      else
        match selected setup.method (setup.db s) cutoff
            (setup.cleaner n).batchSize with
        | [] => some (setup.batch s n cutoff total 0)
        | k :: keys => some (s.goto n (.deleting cutoff total (k :: keys) 0))
  | _ => none

/-- The `DELETE` may come to the row next. -/
def Method.reaches (m : Method K R) (left : List K) (k : K) : Bool :=
  if m.oneByOne then left.head? == some k else left.contains k

def Setup.delete (s : Sys S K R) (n : Nat) (k : K) : Option (Sys S K R) :=
  match s.phase n with
  | .deleting cutoff total left deleted =>
      if setup.method.reaches left k then
        ((setup.db s).deleteNow k (setup.method.eligible cutoff)).map fun r =>
          Sys.set { s with host := setup.host.withDb s.host r.1 } n
            { phase := .deleting cutoff total (left.erase k) (deleted + r.2)
              removed := (s.cleaners n).removed ++ gone (setup.db s) r.1 k }
      else none
  | _ => none

def Setup.fail (s : Sys S K R) (n : Nat) (fault : Fault) :
    Option (Sys S K R) :=
  match s.phase n, fault with
  | .looping _ total, .select e => some (s.return n total (some e))
  | .deleting _ total _ _, .delete e =>
      some (s.return n total (some (setup.method.deleteError e)))
  | .deleting _ total _ _, .count e =>
      some (s.return n total (some (setup.method.countError e)))
  | _, _ => none

def Setup.step (s : Sys S K R) : Action A K → Option (Sys S K R)
  | .other a => (setup.host.step s.host a).map fun host => { s with host }
  | .start n now =>
      match s.phase n with
      | .idle => some (s.set n
          { phase := .looping (now - (setup.cleaner n).retention) 0 })
      | _ => none
  | .select n => setup.select s n
  | .delete n k => setup.delete s n k
  | .next n =>
      match s.phase n with
      | .deleting cutoff total [] deleted =>
          some (setup.batch s n cutoff total deleted)
      | _ => none
  | .fail n fault => setup.fail s n fault

end Machine

end PlatformGo.Retention

/-! ## The two tables -/

namespace PlatformGo.Outbox

open PlatformGo.Retention

/-- The outbox without the deletions of its own model, which the cleaners
make here. -/
def host (setup : Setup) : Host Sys Action String Row Event Tid where
  step s a :=
    match a with
    | .delete _ _ => none
    | a => setup.step s a
  db s := s.db
  withDb s db := { s with db }
  db_withDb _ _ := rfl
  withDb_withDb _ _ _ := rfl
  withDb_db _ := rfl

/-- `DeletePublishedBefore`, ordered by publication and by id; `collate` is the
order of ids in the database. -/
def deletePublishedBefore (store : SQLStore)
    (collate : String → String → Bool) : Method String Row where
  eligible := publishedBefore
  notAfter a b :=
    match a.2.publishedAt, b.2.publishedAt with
    | some s, some t => s < t || (s == t && collate a.1 b.1)
    | _, _ => true
  oneByOne := false
  limitError := .new (bytes "outbox cleanup limit must be positive")
  deleteError := .wrap ("delete published " ++ store.table ++ " events")
  countError := id

def newRetentionCleaner :
    Bool → RetentionConfig → Except GoErr RetentionCleaner :=
  Retention.newRetentionCleaner "published outbox store"

/-- The outbox with its cleaners. -/
def retention (setup : Setup) (collate : String → String → Bool)
    (cleaner : Nat → RetentionCleaner) :
    Retention.Setup Sys Action String Row Event Tid :=
  ⟨host setup, deletePublishedBefore setup.store collate, cleaner⟩

end PlatformGo.Outbox

namespace PlatformGo.Inbox

open PlatformGo.Retention

def host (W : Type) : Host (Sys W) (Action W) Key Row (Effect W) Nat where
  step s a :=
    match a with
    | .delete _ _ => none
    | a => step s a
  db s := s.db
  withDb s db := { s with db }
  db_withDb _ _ := rfl
  withDb_withDb _ _ _ := rfl
  withDb_db _ := rfl

/-- `DeleteCompletedBefore`, ordered by completion, consumer and event. -/
def deleteCompletedBefore (collate : String → String → Bool) :
    Method Key Row where
  eligible := completedBefore
  notAfter a b :=
    match a.2.completedAt, b.2.completedAt with
    | some s, some t =>
        s < t || (s == t &&
          if a.1.consumer = b.1.consumer then collate a.1.eventID b.1.eventID
          else collate a.1.consumer b.1.consumer)
    | _, _ => true
  oneByOne := true
  limitError := .new (bytes "inbox cleanup limit must be positive")
  deleteError := .wrap "delete completed inbox event"
  countError := .wrap "count deleted inbox event"

def newRetentionCleaner :
    Bool → RetentionConfig → Except GoErr RetentionCleaner :=
  Retention.newRetentionCleaner "completed inbox store"

/-- The inbox with its cleaners. -/
def retention (W : Type) (collate : String → String → Bool)
    (cleaner : Nat → RetentionCleaner) :
    Retention.Setup (Sys W) (Action W) Key Row (Effect W) Nat :=
  ⟨host W, deleteCompletedBefore collate, cleaner⟩

end PlatformGo.Inbox
