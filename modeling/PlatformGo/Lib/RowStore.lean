import Mathlib.Data.List.AList
import Mathlib.Logic.Function.Basic
import PlatformGo.Lib.GoText

/-!
# A table with row locks and transactions

The part of a SQL database two transactions of one table can observe of each
other: the committed rows, who holds which row lock, and for each open
transaction the writes it has made and not committed. Rows are addressed by
key. Next to the table there is a log of domain statements, the writes a
caller makes on other tables inside the same transaction; the store only
keeps their order and whether they were committed.

The model is the one row-level locking gives. A transaction locks a row
before it writes it and keeps the lock until it commits or rolls back. A
statement that needs a lock another transaction holds does not happen until
the lock is released, so here it is simply not enabled. Reads that lock see
the transaction's own writes over the latest committed version. Writes become
visible, all at once, when the transaction commits. A savepoint remembers the
writes made so far, and rolling back to it drops the later ones and keeps the
locks.

Two facts carry every proof made over the store. `Wf` says that a transaction
has only written rows it holds the lock of. `Kept` says what one transaction
is promised about the steps of the others: its own state, its locks and the
committed version of every row it has locked stay as they are. Each operation
has one lemma for each of the two.
-/

namespace PlatformGo.RowStore

set_option linter.unusedSectionVars false

variable {K R W T : Type*}

/-- An open transaction: the rows it has written, newest first, the domain
statements it has executed, oldest first, and both as its savepoint found
them. -/
structure Tx (K R W : Type*) where
  writes : List (K × R) := []
  domain : List W := []
  saved : Option (List (K × R) × List W) := none

/-- The committed rows and domain statements, the row locks, and the open
transactions. -/
structure Db (K R W T : Type*) where
  rows : AList fun _ : K => R
  log : List W
  locks : K → Option T
  txs : T → Option (Tx K R W)

/-- A commit that succeeds, one that takes effect though the caller is told it
failed, and one that is refused. -/
inductive CommitOutcome where
  | done
  | lost (err : GoErr)
  | refused (err : GoErr)
  deriving DecidableEq, Repr

namespace Db

/-- No rows and nobody connected. -/
def empty : Db K R W T := ⟨∅, [], fun _ => none, fun _ => none⟩

variable [DecidableEq K] [DecidableEq T]

/-- The committed version of a row. -/
def lookup (db : Db K R W T) (k : K) : Option R := db.rows.lookup k

/-- What a transaction reads: its own last write, or the committed row. -/
def view (db : Db K R W T) (t : T) (k : K) : Option R :=
  match db.txs t with
  | none => db.lookup k
  | some tx => (tx.writes.lookup k).or (db.lookup k)

/-- The row lock is free, or already held by this transaction. -/
def lockable (db : Db K R W T) (t : T) (k : K) : Prop :=
  db.locks k = none ∨ db.locks k = some t

instance (db : Db K R W T) (t : T) (k : K) : Decidable (db.lockable t k) :=
  inferInstanceAs (Decidable (_ ∨ _))

def setTx (db : Db K R W T) (t : T) (tx : Option (Tx K R W)) : Db K R W T :=
  { db with txs := Function.update db.txs t tx }

def lock (db : Db K R W T) (t : T) (k : K) : Db K R W T :=
  { db with locks := Function.update db.locks k (some t) }

/-- Release every lock a transaction holds. -/
def unlock (db : Db K R W T) (t : T) : Db K R W T :=
  { db with locks := fun k => if db.locks k = some t then none else db.locks k }

/-- Lock a row and write it. -/
def put (db : Db K R W T) (t : T) (tx : Tx K R W) (k : K) (r : R) :
    Db K R W T :=
  (db.lock t k).setTx t (some { tx with writes := (k, r) :: tx.writes })

/-! ## The statements of a transaction -/

def begin (db : Db K R W T) (t : T) : Option (Db K R W T) :=
  if (db.txs t).isSome then none else some (db.setTx t (some {}))

/-- `INSERT`. A row with the key makes it fail; an insert of the key that
another transaction has not committed yet makes it wait. -/
def insert (db : Db K R W T) (t : T) (k : K) (r : R) :
    Option (Db K R W T) :=
  (db.txs t).bind fun tx =>
    if (db.view t k).isNone ∧ db.lockable t k then some (db.put t tx k r)
    else none

/-- `INSERT ... ON CONFLICT DO NOTHING`: a committed row with the key turns it
into no statement at all, without looking at the row's lock. -/
def insertIgnore (db : Db K R W T) (t : T) (k : K) (r : R) :
    Option (Db K R W T) :=
  (db.txs t).bind fun _ =>
    if (db.view t k).isSome then some db else db.insert t k r

/-- `SELECT ... WHERE key = k FOR UPDATE`. -/
def selectForUpdate (db : Db K R W T) (t : T) (k : K) :
    Option (Db K R W T × Option R) :=
  (db.txs t).bind fun _ =>
    if db.lockable t k then
      match db.view t k with
      | none => some (db, none)
      | some r => some (db.lock t k, some r)
    else none

/-- `UPDATE ... WHERE key = k`, with the number of rows it changed. -/
def update (db : Db K R W T) (t : T) (k : K) (f : R → R) :
    Option (Db K R W T × Nat) :=
  (db.txs t).bind fun tx =>
    if db.lockable t k then
      match db.view t k with
      | none => some (db, 0)
      | some r => some (db.put t tx k (f r), 1)
    else none

/-- `UPDATE ... WHERE key = k AND p`. A row that does not match is not
locked. -/
def updateWhere (db : Db K R W T) (t : T) (k : K) (p : R → Bool) (f : R → R) :
    Option (Db K R W T × Nat) :=
  (db.txs t).bind fun tx =>
    if db.lockable t k then
      match db.view t k with
      | none => some (db, 0)
      | some r => if p r then some (db.put t tx k (f r), 1) else some (db, 0)
    else none

/-- The locks of `SELECT ... FOR UPDATE SKIP LOCKED` on the rows it finds. -/
def lockAll (db : Db K R W T) (t : T) : List K → Db K R W T
  | [] => db
  | k :: ks => (db.lock t k).lockAll t ks

/-- A statement on another table. -/
def exec (db : Db K R W T) (t : T) (w : W) : Option (Db K R W T) :=
  (db.txs t).map fun tx =>
    db.setTx t (some { tx with domain := tx.domain ++ [w] })

def savepoint (db : Db K R W T) (t : T) : Option (Db K R W T) :=
  (db.txs t).map fun tx =>
    db.setTx t (some { tx with saved := some (tx.writes, tx.domain) })

/-- `ROLLBACK TO SAVEPOINT`: the savepoint itself stays. -/
def rollbackTo (db : Db K R W T) (t : T) : Option (Db K R W T) :=
  (db.txs t).bind fun tx =>
    tx.saved.map fun saved =>
      db.setTx t (some { tx with writes := saved.1, domain := saved.2 })

/-- `RELEASE SAVEPOINT`. -/
def release (db : Db K R W T) (t : T) : Option (Db K R W T) :=
  (db.txs t).bind fun tx =>
    tx.saved.map fun _ => db.setTx t (some { tx with saved := none })

def commit (db : Db K R W T) (t : T) : Option (Db K R W T) :=
  (db.txs t).map fun tx =>
    (({ db with
        rows := tx.writes.foldr (fun w rows => rows.insert w.1 w.2) db.rows
        log := db.log ++ tx.domain } : Db K R W T).unlock t).setTx t none

def rollback (db : Db K R W T) (t : T) : Db K R W T :=
  (db.unlock t).setTx t none

/-! ## Statements outside a transaction -/

/-- A statement on the row with key `k`, if it satisfies `p`, that commits at
once, with the number of rows it changed. It waits for the row's lock. -/
def statementNow (db : Db K R W T) (k : K) (p : R → Bool)
    (edit : R → AList fun _ : K => R) : Option (Db K R W T × Nat) :=
  if db.locks k = none then
    match db.lookup k with
    | none => some (db, 0)
    | some r =>
        if p r then some ({ db with rows := edit r }, 1) else some (db, 0)
  else none

/-- `UPDATE ... WHERE key = k AND p`. -/
def updateNow (db : Db K R W T) (k : K) (p : R → Bool) (f : R → R) :
    Option (Db K R W T × Nat) :=
  db.statementNow k p fun r => db.rows.insert k (f r)

/-- `DELETE ... WHERE key = k AND p`. -/
def deleteNow (db : Db K R W T) (k : K) (p : R → Bool) :
    Option (Db K R W T × Nat) :=
  db.statementNow k p fun _ => db.rows.erase k

/-! ## The fields after each update -/

section Fields

variable (db : Db K R W T) (t u : T) (tx : Tx K R W) (o : Option (Tx K R W))
  (k k' : K) (r : R)

@[simp] theorem setTx_txs_self : (db.setTx t o).txs t = o := by simp [setTx]

theorem setTx_txs_ne {t u : T} (h : u ≠ t) : (db.setTx t o).txs u = db.txs u :=
  Function.update_of_ne h _ _

@[simp] theorem lock_locks_self : (db.lock t k).locks k = some t := by
  simp [lock]

theorem lock_locks_ne {k k' : K} (h : k' ≠ k) :
    (db.lock t k).locks k' = db.locks k' :=
  Function.update_of_ne h _ _

theorem unlock_locks : (db.unlock t).locks k =
    if db.locks k = some t then none else db.locks k := rfl

@[simp] theorem put_txs_self : (db.put t tx k r).txs t =
    some { tx with writes := (k, r) :: tx.writes } := by simp [put]

@[simp] theorem rollback_txs_self : (db.rollback t).txs t = none := by
  simp [rollback]

end Fields

theorem view_of_tx {db : Db K R W T} {t : T} {tx : Tx K R W}
    (h : db.txs t = some tx) (k : K) :
    db.view t k = (tx.writes.lookup k).or (db.lookup k) := by
  rw [view, h]

@[simp] theorem put_view_self (db : Db K R W T) (t : T) (tx : Tx K R W) (k : K)
    (r : R) : (db.put t tx k r).view t k = some r := by
  rw [view_of_tx (put_txs_self db t tx k r), List.lookup_cons_self]
  rfl

theorem put_view_ne {db : Db K R W T} {t : T} {tx : Tx K R W} {k k' : K}
    {r : R} (htx : db.txs t = some tx) (hk : k' ≠ k) :
    (db.put t tx k r).view t k' = db.view t k' := by
  rw [view_of_tx (put_txs_self db t tx k r), view_of_tx htx, List.lookup_cons,
    beq_eq_false_iff_ne.mpr hk]
  rfl

/-! ## What success of a statement means

One inversion lemma for each statement whose definition branches. -/

theorem begin_eq {db db' : Db K R W T} {t : T} (h : db.begin t = some db') :
    db.txs t = none ∧ db' = db.setTx t (some {}) := by
  rw [begin] at h
  split at h
  · simp at h
  · rename_i hnone
    exact ⟨by simpa using hnone, by simpa using h.symm⟩

theorem insert_eq {db db' : Db K R W T} {t : T} {k : K} {r : R}
    (h : db.insert t k r = some db') :
    ∃ tx, db.txs t = some tx ∧ db.view t k = none ∧ db.lockable t k ∧
      db' = db.put t tx k r := by
  obtain ⟨tx, htx, h⟩ := Option.bind_eq_some_iff.mp h
  split at h
  · rename_i hc
    exact ⟨tx, htx, by simpa using hc.1, hc.2, by simpa using h.symm⟩
  · simp at h

theorem insertIgnore_eq {db db' : Db K R W T} {t : T} {k : K} {r : R}
    (h : db.insertIgnore t k r = some db') :
    ∃ tx, db.txs t = some tx ∧
      ((∃ old, db.view t k = some old) ∧ db' = db ∨
        db.view t k = none ∧ db.lockable t k ∧ db' = db.put t tx k r) := by
  obtain ⟨tx, htx, h⟩ := Option.bind_eq_some_iff.mp h
  split at h
  · rename_i hsome
    exact ⟨tx, htx, .inl ⟨Option.isSome_iff_exists.mp hsome,
      by simpa using h.symm⟩⟩
  · obtain ⟨tx', htx', hview, hlock, rfl⟩ := insert_eq h
    rw [htx] at htx'
    cases htx'
    exact ⟨tx, htx, .inr ⟨hview, hlock, rfl⟩⟩

theorem selectForUpdate_eq {db db' : Db K R W T} {t : T} {k : K}
    {o : Option R} (h : db.selectForUpdate t k = some (db', o)) :
    ∃ tx, db.txs t = some tx ∧ db.lockable t k ∧ o = db.view t k ∧
      (o = none ∧ db' = db ∨ (∃ r, o = some r) ∧ db' = db.lock t k) := by
  obtain ⟨tx, htx, h⟩ := Option.bind_eq_some_iff.mp h
  split at h
  · rename_i hlock
    split at h <;> rename_i hview <;>
      simp only [Option.some.injEq, Prod.mk.injEq] at h <;>
      obtain ⟨rfl, rfl⟩ := h
    · exact ⟨tx, htx, hlock, hview.symm, .inl ⟨rfl, rfl⟩⟩
    · exact ⟨tx, htx, hlock, hview.symm, .inr ⟨⟨_, rfl⟩, rfl⟩⟩
  · simp at h

theorem update_eq {db db' : Db K R W T} {t : T} {k : K} {f : R → R} {n : Nat}
    (h : db.update t k f = some (db', n)) :
    ∃ tx, db.txs t = some tx ∧ db.lockable t k ∧
      (db.view t k = none ∧ n = 0 ∧ db' = db ∨
        ∃ r, db.view t k = some r ∧ n = 1 ∧ db' = db.put t tx k (f r)) := by
  obtain ⟨tx, htx, h⟩ := Option.bind_eq_some_iff.mp h
  split at h
  · rename_i hlock
    split at h <;> rename_i hview <;>
      simp only [Option.some.injEq, Prod.mk.injEq] at h <;>
      obtain ⟨rfl, rfl⟩ := h
    · exact ⟨tx, htx, hlock, .inl ⟨hview, rfl, rfl⟩⟩
    · exact ⟨tx, htx, hlock, .inr ⟨_, hview, rfl, rfl⟩⟩
  · simp at h

/-- A statement with a condition on the row it is for. -/
theorem edited_eq {o : Option R} {p : R → Bool} {db db' : Db K R W T}
    {edit : R → Db K R W T} {n : Nat}
    (h : (match o with
      | none => some (db, 0)
      | some r => if p r then some (edit r, 1) else some (db, 0)) =
        some (db', n)) :
    n = 0 ∧ db' = db ∧ (∀ r, o = some r → p r = false) ∨
      ∃ r, o = some r ∧ p r = true ∧ n = 1 ∧ db' = edit r := by
  cases o with
  | none =>
      cases h
      exact .inl ⟨rfl, rfl, nofun⟩
  | some r =>
      cases hp : p r with
      | true =>
          simp only [hp, if_true] at h
          cases h
          exact .inr ⟨r, rfl, hp, rfl, rfl⟩
      | false =>
          simp only [hp, Bool.false_eq_true, if_false] at h
          cases h
          refine .inl ⟨rfl, rfl, ?_⟩
          rintro _ ⟨⟩
          exact hp

theorem updateWhere_eq {db db' : Db K R W T} {t : T} {k : K} {p : R → Bool}
    {f : R → R} {n : Nat} (h : db.updateWhere t k p f = some (db', n)) :
    ∃ tx, db.txs t = some tx ∧ db.lockable t k ∧
      (n = 0 ∧ db' = db ∧ (∀ r, db.view t k = some r → p r = false) ∨
        ∃ r, db.view t k = some r ∧ p r = true ∧ n = 1 ∧
          db' = db.put t tx k (f r)) := by
  obtain ⟨tx, htx, h⟩ := Option.bind_eq_some_iff.mp h
  split at h
  · next hlock => exact ⟨tx, htx, hlock, edited_eq h⟩
  · cases h

theorem exec_eq {db db' : Db K R W T} {t : T} {w : W}
    (h : db.exec t w = some db') :
    ∃ tx, db.txs t = some tx ∧
      db' = db.setTx t (some { tx with domain := tx.domain ++ [w] }) := by
  obtain ⟨tx, htx, rfl⟩ := Option.map_eq_some_iff.mp h
  exact ⟨tx, htx, rfl⟩

theorem savepoint_eq {db db' : Db K R W T} {t : T}
    (h : db.savepoint t = some db') :
    ∃ tx, db.txs t = some tx ∧ db' =
      db.setTx t (some { tx with saved := some (tx.writes, tx.domain) }) := by
  obtain ⟨tx, htx, rfl⟩ := Option.map_eq_some_iff.mp h
  exact ⟨tx, htx, rfl⟩

theorem rollbackTo_eq {db db' : Db K R W T} {t : T}
    (h : db.rollbackTo t = some db') :
    ∃ tx saved, db.txs t = some tx ∧ tx.saved = some saved ∧ db' =
      db.setTx t (some { tx with writes := saved.1, domain := saved.2 }) := by
  obtain ⟨tx, htx, h⟩ := Option.bind_eq_some_iff.mp h
  obtain ⟨saved, hsaved, rfl⟩ := Option.map_eq_some_iff.mp h
  exact ⟨tx, saved, htx, hsaved, rfl⟩

theorem release_eq {db db' : Db K R W T} {t : T}
    (h : db.release t = some db') :
    ∃ tx, db.txs t = some tx ∧
      db' = db.setTx t (some { tx with saved := none }) := by
  obtain ⟨tx, htx, h⟩ := Option.bind_eq_some_iff.mp h
  obtain ⟨saved, hsaved, rfl⟩ := Option.map_eq_some_iff.mp h
  exact ⟨tx, htx, rfl⟩

/-- A write hides the earlier ones of its row. -/
theorem lookup_writes_cons (ws : List (K × R)) (k k' : K) (r : R) :
    List.lookup k' ((k, r) :: ws) =
      if k' = k then some r else ws.lookup k' := by
  by_cases hk : k' = k
  · subst hk
    rw [List.lookup_cons_self, if_pos rfl]
  · rw [List.lookup_cons, beq_eq_false_iff_ne.mpr hk, if_neg hk]

theorem lookup_foldr_insert (rows : AList fun _ : K => R) (ws : List (K × R))
    (k : K) : (ws.foldr (fun w m => m.insert w.1 w.2) rows).lookup k =
      (ws.lookup k).or (rows.lookup k) := by
  induction ws with
  | nil => rfl
  | cons w ws ih =>
      rw [List.foldr_cons, lookup_writes_cons]
      by_cases hk : k = w.1
      · subst hk
        rw [AList.lookup_insert, if_pos rfl]
        rfl
      · rw [AList.lookup_insert_ne hk, ih, if_neg hk]

/-- A commit makes what the transaction saw the committed version of every
row. -/
theorem commit_eq {db db' : Db K R W T} {t : T} (h : db.commit t = some db') :
    ∃ tx, db.txs t = some tx ∧ (∀ k, db'.lookup k = db.view t k) ∧
      db'.log = db.log ++ tx.domain ∧ db'.locks = (db.unlock t).locks ∧
      db'.txs = (db.setTx t none).txs := by
  obtain ⟨tx, htx, rfl⟩ := Option.map_eq_some_iff.mp h
  refine ⟨tx, htx, fun k => ?_, rfl, rfl, rfl⟩
  rw [view_of_tx htx]
  exact lookup_foldr_insert db.rows tx.writes k

theorem statementNow_eq {db db' : Db K R W T} {k : K} {p : R → Bool}
    {edit : R → AList fun _ : K => R} {n : Nat}
    (h : db.statementNow k p edit = some (db', n)) :
    db.locks k = none ∧
      (n = 0 ∧ db' = db ∧ (∀ r, db.lookup k = some r → p r = false) ∨
        ∃ r, db.lookup k = some r ∧ p r = true ∧ n = 1 ∧
          db' = { db with rows := edit r }) := by
  rw [statementNow] at h
  split at h
  · next hlock => exact ⟨hlock, edited_eq h⟩
  · cases h

theorem lookup_rows_insert (db : Db K R W T) (k k' : K) (r : R) :
    ({ db with rows := db.rows.insert k r } : Db K R W T).lookup k' =
      if k' = k then some r else db.lookup k' := by
  split
  · rename_i h
    subst h
    exact AList.lookup_insert db.rows
  · rename_i h
    exact AList.lookup_insert_ne h

theorem lookup_rows_erase (db : Db K R W T) (k k' : K) :
    ({ db with rows := db.rows.erase k } : Db K R W T).lookup k' =
      if k' = k then none else db.lookup k' := by
  split
  · rename_i h
    subst h
    exact AList.lookup_erase k' db.rows
  · rename_i h
    exact AList.lookup_erase_ne h

/-! ## Only locked rows are written -/

/-- The writes a transaction has made, also those its savepoint remembers, are
on rows it holds the lock of. -/
structure Owns (locks : K → Option T) (t : T) (tx : Tx K R W) : Prop where
  writes : ∀ w ∈ tx.writes, locks w.1 = some t
  saved : ∀ sv, tx.saved = some sv → ∀ w ∈ sv.1, locks w.1 = some t

theorem Owns.lookup {locks : K → Option T} {t : T} {tx : Tx K R W}
    (h : Owns locks t tx) {k : K} {r : R}
    (hr : tx.writes.lookup k = some r) : locks k = some t := by
  obtain ⟨l₁, l₂, hw, -⟩ := List.lookup_eq_some_iff.mp hr
  refine h.writes (k, r) ?_
  rw [hw]
  exact List.mem_append_right _ (List.mem_cons_self ..)

/-- Every open transaction owns what it has written. -/
def Wf (db : Db K R W T) : Prop :=
  ∀ t tx, db.txs t = some tx → Owns db.locks t tx

theorem wf_empty : Wf (empty : Db K R W T) := by
  intro t tx h
  simp [empty] at h

theorem Wf.setTx {db : Db K R W T} (h : Wf db) {t : T} {tx : Tx K R W}
    (htx : Owns db.locks t tx) : Wf (db.setTx t (some tx)) := by
  intro u tx' hu
  by_cases hut : u = t
  · subst hut
    rw [setTx_txs_self, Option.some.injEq] at hu
    exact hu ▸ htx
  · rw [setTx_txs_ne db _ hut] at hu
    exact h u tx' hu

/-- A lock taken when it was free, or held already, leaves every transaction
the locks it had. -/
theorem lock_locks_of_held {db : Db K R W T} {t u : T} {k k' : K}
    (hlock : db.lockable t k) (h : db.locks k' = some u) :
    (db.lock t k).locks k' = some u := by
  by_cases hk : k' = k
  · subst hk
    rcases hlock with hfree | hheld
    · rw [hfree] at h
      simp at h
    · rw [hheld] at h
      rw [lock_locks_self, h]
  · rw [lock_locks_ne db t hk]
    exact h

theorem Owns.lock {db : Db K R W T} {t u : T} {k : K} {tx : Tx K R W}
    (h : Owns db.locks u tx) (hlock : db.lockable t k) :
    Owns (db.lock t k).locks u tx :=
  ⟨fun w hw => lock_locks_of_held hlock (h.writes w hw),
    fun sv hsv w hw => lock_locks_of_held hlock (h.saved sv hsv w hw)⟩

theorem Wf.lock {db : Db K R W T} (h : Wf db) {t : T} {k : K}
    (hlock : db.lockable t k) : Wf (db.lock t k) :=
  fun u tx hu => (h u tx hu).lock hlock

theorem Wf.put {db : Db K R W T} (h : Wf db) {t : T} {k : K} {r : R}
    {tx : Tx K R W} (htx : db.txs t = some tx) (hlock : db.lockable t k) :
    Wf (db.put t tx k r) := by
  have howns := (h t tx htx).lock hlock
  refine (h.lock hlock).setTx ⟨fun w hw => ?_, howns.saved⟩
  rcases List.mem_cons.mp hw with rfl | hmem
  · exact lock_locks_self db t k
  · exact howns.writes w hmem

/-- Dropping a transaction and its locks takes nothing from the others. -/
theorem Wf.drop {db db' : Db K R W T} (h : Wf db) {t : T}
    (hlocks : db'.locks = (db.unlock t).locks)
    (htxs : db'.txs = (db.setTx t none).txs) : Wf db' := by
  intro u tx hu
  rw [htxs] at hu
  by_cases hut : u = t
  · subst hut
    simp at hu
  · rw [setTx_txs_ne db _ hut] at hu
    have howns := h u tx hu
    have hkeep : ∀ k, db.locks k = some u → db'.locks k = some u := by
      intro k hk
      rw [hlocks, unlock_locks, hk, if_neg (by simpa using hut)]
    exact ⟨fun w hw => hkeep _ (howns.writes w hw),
      fun sv hsv w hw => hkeep _ (howns.saved sv hsv w hw)⟩

theorem Wf.rollback {db : Db K R W T} (h : Wf db) (t : T) :
    Wf (db.rollback t) :=
  h.drop rfl rfl

theorem Wf.commit {db db' : Db K R W T} (h : Wf db) {t : T}
    (hc : db.commit t = some db') : Wf db' := by
  obtain ⟨tx, _, _, _, hlocks, htxs⟩ := commit_eq hc
  exact h.drop hlocks htxs

theorem Wf.rows {db : Db K R W T} (h : Wf db) (rows : AList fun _ : K => R) :
    Wf { db with rows := rows } :=
  h

theorem Wf.statementNow {db db' : Db K R W T} (h : Wf db) {k : K}
    {p : R → Bool} {edit : R → AList fun _ : K => R} {n : Nat}
    (hs : db.statementNow k p edit = some (db', n)) :
    Wf db' ∧ db'.log = db.log := by
  obtain ⟨-, ⟨-, rfl, -⟩ | ⟨r, -, -, -, rfl⟩⟩ := statementNow_eq hs
  · exact ⟨h, rfl⟩
  · exact ⟨h.rows _, rfl⟩

/-- A transaction that has not locked a row sees its committed version. -/
theorem Wf.view_of_not_held {db : Db K R W T} (h : Wf db) {t : T} {k : K}
    (hk : db.locks k ≠ some t) : db.view t k = db.lookup k := by
  cases htx : db.txs t with
  | none => rw [view, htx]
  | some tx =>
      have hnone : tx.writes.lookup k = none := by
        rw [List.lookup_eq_none_iff]
        intro w hw
        have hheld := (h t tx htx).writes w hw
        simp only [bne_iff_ne, ne_eq]
        intro hkw
        exact hk (hkw ▸ hheld)
      rw [view_of_tx htx, hnone]
      rfl

/-! ## What a transaction is promised about the others -/

/-- Between the two states nothing happened to this transaction, to its locks
or to the committed version of the rows it has locked. -/
structure Kept (u : T) (db db' : Db K R W T) : Prop where
  tx : db'.txs u = db.txs u
  locks : ∀ k, db.locks k = some u → db'.locks k = some u
  rows : ∀ k, db.locks k = some u → db'.lookup k = db.lookup k

theorem Kept.refl (u : T) (db : Db K R W T) : Kept u db db :=
  ⟨rfl, fun _ h => h, fun _ _ => rfl⟩

theorem Kept.trans {u : T} {a b c : Db K R W T} (h₁ : Kept u a b)
    (h₂ : Kept u b c) : Kept u a c :=
  ⟨h₂.tx.trans h₁.tx, fun k h => h₂.locks k (h₁.locks k h),
    fun k h => (h₂.rows k (h₁.locks k h)).trans (h₁.rows k h)⟩

theorem Kept.view {u : T} {db db' : Db K R W T} (h : Kept u db db') {k : K}
    (hk : db.locks k = some u) : db'.view u k = db.view u k := by
  rw [Db.view, Db.view, h.tx, h.rows k hk]

theorem kept_setTx {u t : T} (db : Db K R W T) (o : Option (Tx K R W))
    (h : u ≠ t) : Kept u db (db.setTx t o) :=
  ⟨setTx_txs_ne db o h, fun _ h => h, fun _ _ => rfl⟩

theorem kept_lock {u t : T} {db : Db K R W T} {k : K}
    (hlock : db.lockable t k) : Kept u db (db.lock t k) :=
  ⟨rfl, fun _ h => lock_locks_of_held hlock h, fun _ _ => rfl⟩

theorem kept_put {u t : T} {db : Db K R W T} {k : K} {r : R} (tx : Tx K R W)
    (hlock : db.lockable t k) (h : u ≠ t) : Kept u db (db.put t tx k r) :=
  (kept_lock hlock).trans (kept_setTx _ _ h)

theorem kept_drop {u t : T} {db db' : Db K R W T}
    (hlocks : db'.locks = (db.unlock t).locks)
    (htxs : db'.txs = (db.setTx t none).txs)
    (hrows : ∀ k, db.locks k = some u → db'.lookup k = db.lookup k)
    (h : u ≠ t) : Kept u db db' := by
  refine ⟨by rw [htxs, setTx_txs_ne db none h], fun k hk => ?_, hrows⟩
  rw [hlocks, unlock_locks, hk, if_neg (by simpa using h)]

theorem kept_rollback {u t : T} (db : Db K R W T) (h : u ≠ t) :
    Kept u db (db.rollback t) :=
  kept_drop rfl rfl (fun _ _ => rfl) h

/-- A commit only writes rows the committing transaction has locked. -/
theorem kept_commit {u t : T} {db db' : Db K R W T} (hwf : Wf db)
    (hc : db.commit t = some db') (h : u ≠ t) : Kept u db db' := by
  obtain ⟨tx, _, hrows, _, hlocks, htxs⟩ := commit_eq hc
  refine kept_drop hlocks htxs (fun k hk => ?_) h
  rw [hrows k]
  exact hwf.view_of_not_held (by rw [hk]; simpa using h)

theorem kept_statementNow {u : T} {db db' : Db K R W T} {k : K} {p : R → Bool}
    {edit : R → AList fun _ : K => R} {n : Nat}
    (hedit : ∀ r k', k' ≠ k → (edit r).lookup k' = db.rows.lookup k')
    (h : db.statementNow k p edit = some (db', n)) : Kept u db db' := by
  obtain ⟨hlock, ⟨_, rfl, _⟩ | ⟨r, _, _, _, rfl⟩⟩ := statementNow_eq h
  · exact Kept.refl u _
  · refine ⟨rfl, fun _ h => h, fun k' hk' => hedit r k' ?_⟩
    rintro rfl
    rw [hlock] at hk'
    simp at hk'

theorem kept_updateNow {u : T} {db db' : Db K R W T} {k : K} {p : R → Bool}
    {f : R → R} {n : Nat} (h : db.updateNow k p f = some (db', n)) :
    Kept u db db' :=
  kept_statementNow (fun _ _ hne => AList.lookup_insert_ne hne) h

theorem kept_deleteNow {u : T} {db db' : Db K R W T} {k : K} {p : R → Bool}
    {n : Nat} (h : db.deleteNow k p = some (db', n)) : Kept u db db' :=
  kept_statementNow (fun _ _ hne => AList.lookup_erase_ne hne) h

/-! ## The steps of one transaction on one row

What the invariants of a component need from a statement of transaction `t`
that touches at most the row `k`, gathered: the store stays well formed, every
other transaction keeps what it was promised, and the only lock that can be
new is the one `t` takes on `k`. -/

structure StepOf (t : T) (k : K) (db db' : Db K R W T) : Prop where
  wf : Wf db'
  kept : ∀ u, u ≠ t → Kept u db db'
  locks : ∀ k' u, db'.locks k' = some u →
    db.locks k' = some u ∨ u = t ∧ k' = k

variable {db db' : Db K R W T} {t : T} {k : K}

theorem StepOf.refl (h : Wf db) : StepOf t k db db :=
  ⟨h, fun u _ => Kept.refl u db, fun _ _ hl => .inl hl⟩

theorem StepOf.trans {a b c : Db K R W T} (h₁ : StepOf t k a b)
    (h₂ : StepOf t k b c) : StepOf t k a c := by
  refine ⟨h₂.wf, fun u hu => (h₁.kept u hu).trans (h₂.kept u hu), ?_⟩
  intro k' u hl
  rcases h₂.locks k' u hl with hb | hnew
  · exact h₁.locks k' u hb
  · exact .inr hnew

theorem stepOf_setTx (h : Wf db) {tx : Tx K R W} (htx : Owns db.locks t tx) :
    StepOf t k db (db.setTx t (some tx)) :=
  ⟨h.setTx htx, fun _ hu => kept_setTx db _ hu, fun _ _ hl => .inl hl⟩

theorem stepOf_lock (h : Wf db) (hlock : db.lockable t k) :
    StepOf t k db (db.lock t k) := by
  refine ⟨h.lock hlock, fun _ _ => kept_lock hlock, fun k' u hl => ?_⟩
  by_cases hk : k' = k
  · subst hk
    rw [lock_locks_self, Option.some.injEq] at hl
    exact .inr ⟨hl.symm, rfl⟩
  · rw [lock_locks_ne db t hk] at hl
    exact .inl hl

theorem stepOf_put (h : Wf db) {tx : Tx K R W} {r : R}
    (htx : db.txs t = some tx) (hlock : db.lockable t k) :
    StepOf t k db (db.put t tx k r) :=
  ⟨h.put htx hlock, fun _ hu => kept_put tx hlock hu,
    (stepOf_lock h hlock).locks⟩

theorem unlock_locks_some {k' : K} {u : T}
    (h : (db.unlock t).locks k' = some u) : db.locks k' = some u := by
  rw [unlock_locks] at h
  split at h
  · simp at h
  · exact h

/-- A transaction that is over holds no lock. -/
theorem unlock_not_own (k' : K) : (db.unlock t).locks k' ≠ some t := by
  rw [unlock_locks]
  split
  · simp
  · assumption

theorem stepOf_rollback (h : Wf db) : StepOf t k db (db.rollback t) :=
  ⟨h.rollback t, fun _ hu => kept_rollback db hu,
    fun _ _ hl => .inl (unlock_locks_some hl)⟩

theorem stepOf_commit (h : Wf db) (hc : db.commit t = some db') :
    StepOf t k db db' := by
  refine ⟨h.commit hc, fun _ hu => kept_commit h hc hu, fun k' u hl => ?_⟩
  obtain ⟨tx, _, _, _, hlocks, _⟩ := commit_eq hc
  rw [hlocks] at hl
  exact .inl (unlock_locks_some hl)

theorem stepOf_begin (h : Wf db) (hb : db.begin t = some db') :
    StepOf t k db db' := by
  obtain ⟨_, rfl⟩ := begin_eq hb
  exact stepOf_setTx h ⟨by simp, by simp⟩

theorem stepOf_insertIgnore {r : R} (h : Wf db)
    (hi : db.insertIgnore t k r = some db') : StepOf t k db db' := by
  obtain ⟨tx, htx, ⟨_, rfl⟩ | ⟨_, hlock, rfl⟩⟩ := insertIgnore_eq hi
  · exact StepOf.refl h
  · exact stepOf_put h htx hlock

theorem stepOf_selectForUpdate {o : Option R} (h : Wf db)
    (hs : db.selectForUpdate t k = some (db', o)) : StepOf t k db db' := by
  obtain ⟨tx, _, hlock, _, ⟨_, rfl⟩ | ⟨_, rfl⟩⟩ := selectForUpdate_eq hs
  · exact StepOf.refl h
  · exact stepOf_lock h hlock

theorem stepOf_update {f : R → R} {n : Nat} (h : Wf db)
    (hu : db.update t k f = some (db', n)) : StepOf t k db db' := by
  obtain ⟨tx, htx, hlock, ⟨_, _, rfl⟩ | ⟨r, _, _, rfl⟩⟩ := update_eq hu
  · exact StepOf.refl h
  · exact stepOf_put h htx hlock

theorem stepOf_insert {r : R} (h : Wf db) (hi : db.insert t k r = some db') :
    StepOf t k db db' := by
  obtain ⟨tx, htx, _, hlock, rfl⟩ := insert_eq hi
  exact stepOf_put h htx hlock

theorem stepOf_updateWhere {p : R → Bool} {f : R → R} {n : Nat} (h : Wf db)
    (hu : db.updateWhere t k p f = some (db', n)) : StepOf t k db db' := by
  obtain ⟨tx, htx, hlock, ⟨_, rfl, _⟩ | ⟨r, _, _, _, rfl⟩⟩ :=
    updateWhere_eq hu
  · exact StepOf.refl h
  · exact stepOf_put h htx hlock

theorem lockAll_same (ks : List K) (db : Db K R W T) :
    (db.lockAll t ks).rows = db.rows ∧ (db.lockAll t ks).txs = db.txs ∧
      (db.lockAll t ks).log = db.log := by
  induction ks generalizing db with
  | nil => exact ⟨rfl, rfl, rfl⟩
  | cons k ks ih => exact ih (db.lock t k)

theorem lockAll_rows (ks : List K) (db : Db K R W T) :
    (db.lockAll t ks).rows = db.rows :=
  (lockAll_same ks db).1

theorem lockAll_txs (ks : List K) (db : Db K R W T) :
    (db.lockAll t ks).txs = db.txs :=
  (lockAll_same ks db).2.1

theorem lockAll_log (ks : List K) (db : Db K R W T) :
    (db.lockAll t ks).log = db.log :=
  (lockAll_same ks db).2.2

theorem lockAll_lookup (ks : List K) (db : Db K R W T) (k : K) :
    (db.lockAll t ks).lookup k = db.lookup k := by
  rw [lookup, lookup, lockAll_rows]

theorem lockAll_view (ks : List K) (db : Db K R W T) (u : T) (k : K) :
    (db.lockAll t ks).view u k = db.view u k := by
  rw [view, view, lockAll_txs, lockAll_lookup]

theorem lockAll_locks {ks : List K} {db : Db K R W T}
    (hk : k ∈ ks ∨ db.locks k = some t) :
    (db.lockAll t ks).locks k = some t := by
  induction ks generalizing db with
  | nil =>
      rcases hk with hk | hk
      · cases hk
      · exact hk
  | cons k' ks ih =>
      rw [lockAll]
      apply ih
      by_cases heq : k = k'
      · subst heq
        exact .inr (lock_locks_self db t k)
      · rw [lock_locks_ne db t heq]
        rcases hk with hk | hk
        · exact .inl ((List.mem_cons.mp hk).resolve_left heq)
        · exact .inr hk

theorem lockAll_locks_some {ks : List K} {db : Db K R W T} {u : T}
    (h : (db.lockAll t ks).locks k = some u) :
    db.locks k = some u ∨ u = t ∧ k ∈ ks := by
  induction ks generalizing db with
  | nil => exact .inl h
  | cons k' ks ih =>
      rcases ih h with hold | ⟨hu, hk⟩
      · by_cases heq : k = k'
        · subst heq
          rw [lock_locks_self, Option.some.injEq] at hold
          exact .inr ⟨hold.symm, List.mem_cons_self ..⟩
        · rw [lock_locks_ne db t heq] at hold
          exact .inl hold
      · exact .inr ⟨hu, List.mem_cons_of_mem _ hk⟩

/-- Locks that are free are taken from nobody. -/
theorem lockAll_spec {ks : List K} {db : Db K R W T} (h : Wf db)
    (hfree : ∀ k ∈ ks, db.lockable t k) :
    Wf (db.lockAll t ks) ∧ ∀ u, Kept u db (db.lockAll t ks) := by
  induction ks generalizing db with
  | nil => exact ⟨h, fun u => Kept.refl u db⟩
  | cons k ks ih =>
      have hk := hfree k (List.mem_cons_self ..)
      have hrest : ∀ k' ∈ ks, (db.lock t k).lockable t k' := by
        intro k' hk'
        by_cases heq : k' = k
        · subst heq
          exact .inr (lock_locks_self db t k')
        · rw [lockable, lock_locks_ne db t heq]
          exact hfree k' (List.mem_cons_of_mem _ hk')
      obtain ⟨hwf, hkept⟩ := ih (h.lock hk) hrest
      exact ⟨hwf, fun u => (kept_lock hk).trans (hkept u)⟩

theorem stepOf_exec {w : W} (h : Wf db) (he : db.exec t w = some db') :
    StepOf t k db db' := by
  obtain ⟨tx, htx, rfl⟩ := exec_eq he
  have howns := h t tx htx
  exact stepOf_setTx h ⟨howns.writes, howns.saved⟩

theorem stepOf_savepoint (h : Wf db) (hs : db.savepoint t = some db') :
    StepOf t k db db' := by
  obtain ⟨tx, htx, rfl⟩ := savepoint_eq hs
  have howns := h t tx htx
  refine stepOf_setTx h ⟨howns.writes, fun sv hsv => ?_⟩
  simp only [Option.some.injEq] at hsv
  subst hsv
  exact howns.writes

theorem stepOf_rollbackTo (h : Wf db) (hr : db.rollbackTo t = some db') :
    StepOf t k db db' := by
  obtain ⟨tx, saved, htx, hsaved, rfl⟩ := rollbackTo_eq hr
  have howns := h t tx htx
  exact stepOf_setTx h ⟨howns.saved saved hsaved, howns.saved⟩

theorem stepOf_release (h : Wf db) (hr : db.release t = some db') :
    StepOf t k db db' := by
  obtain ⟨tx, htx, rfl⟩ := release_eq hr
  exact stepOf_setTx h ⟨(h t tx htx).writes, by simp⟩

/-! ## What holds of every version of a row -/

/-- Of the committed one and of those open transactions have written. -/
structure Versions (Q : R → Prop) (k : K) (db : Db K R W T) : Prop where
  row : ∀ r, db.lookup k = some r → Q r
  writes : ∀ t tx r, db.txs t = some tx → tx.writes.lookup k = some r → Q r

section Versions

variable {Q : R → Prop}

theorem Versions.imp {Q' : R → Prop} (h : Versions Q k db)
    (hQ : ∀ r, Q r → Q' r) : Versions Q' k db :=
  ⟨fun r hr => hQ r (h.row r hr),
    fun t tx r htx hr => hQ r (h.writes t tx r htx hr)⟩

theorem Versions.view (h : Versions Q k db) {r : R}
    (hr : db.view t k = some r) : Q r := by
  cases htx : db.txs t with
  | none =>
      rw [Db.view, htx] at hr
      exact h.row r hr
  | some tx =>
      rw [view_of_tx htx] at hr
      rcases Option.or_eq_some_iff.mp hr with hw | ⟨-, hc⟩
      · exact h.writes t tx r htx hw
      · exact h.row r hc

/-- One transaction changes; its writes are looked at again. -/
theorem Versions.of_txs (h : Versions Q k db)
    (hrow : ∀ r, db'.lookup k = some r → Q r)
    (hothers : ∀ u, u ≠ t → db'.txs u = db.txs u)
    (ht : ∀ tx r, db'.txs t = some tx → tx.writes.lookup k = some r → Q r) :
    Versions Q k db' := by
  refine ⟨hrow, ?_⟩
  intro u tx r hu hr
  by_cases hut : u = t
  · subst hut
    exact ht tx r hu hr
  · rw [hothers u hut] at hu
    exact h.writes u tx r hu hr

theorem Versions.begin (h : Versions Q k db) (hb : db.begin t = some db') :
    Versions Q k db' := by
  obtain ⟨-, rfl⟩ := begin_eq hb
  refine h.of_txs h.row (fun u hu => setTx_txs_ne db _ hu) ?_
  intro tx r htx hr
  rw [setTx_txs_self, Option.some.injEq] at htx
  subst htx
  cases hr

theorem Versions.rollback (h : Versions Q k db) (t : T) :
    Versions Q k (db.rollback t) := by
  refine h.of_txs h.row (fun u hu => setTx_txs_ne _ _ hu) ?_
  intro tx r htx hr
  rw [rollback_txs_self] at htx
  cases htx

theorem Versions.commit (h : Versions Q k db)
    (hc : db.commit t = some db') : Versions Q k db' := by
  obtain ⟨tx, htx, hrows, -, -, htxs⟩ := commit_eq hc
  refine h.of_txs ?_ (fun u hu => by rw [htxs, setTx_txs_ne db _ hu]) ?_
  · intro r hr
    rw [hrows] at hr
    exact h.view hr
  · intro tx' r htx' hr
    rw [htxs, setTx_txs_self] at htx'
    cases htx'

theorem Versions.lockAll (h : Versions Q k db) (ks : List K) :
    Versions Q k (db.lockAll t ks) := by
  refine ⟨?_, ?_⟩
  · intro r hr
    rw [lockAll_lookup] at hr
    exact h.row r hr
  · intro u tx r hu hr
    rw [lockAll_txs] at hu
    exact h.writes u tx r hu hr

theorem Versions.put (h : Versions Q k db) {tx : Tx K R W} {k' : K} {r : R}
    (htx : db.txs t = some tx) (hr : k = k' → Q r) :
    Versions Q k (db.put t tx k' r) := by
  refine h.of_txs h.row (fun u hu => setTx_txs_ne _ _ hu) ?_
  intro tx' r' htx' hr'
  rw [put_txs_self, Option.some.injEq] at htx'
  subst htx'
  rw [lookup_writes_cons] at hr'
  split at hr'
  · rename_i hk
    cases hr'
    exact hr hk
  · exact h.writes t tx r' htx hr'

theorem Versions.insert (h : Versions Q k db) {k' : K} {r : R}
    (hi : db.insert t k' r = some db') (hr : k = k' → Q r) :
    Versions Q k db' := by
  obtain ⟨tx, htx, -, -, rfl⟩ := insert_eq hi
  exact h.put htx hr

theorem Versions.exec (h : Versions Q k db) {w : W}
    (he : db.exec t w = some db') : Versions Q k db' := by
  obtain ⟨tx, htx, rfl⟩ := exec_eq he
  refine h.of_txs h.row (fun u hu => setTx_txs_ne db _ hu) ?_
  intro tx' r htx' hr
  rw [setTx_txs_self, Option.some.injEq] at htx'
  subst htx'
  exact h.writes t tx r htx hr

theorem Versions.updateWhere (h : Versions Q k db) {k' : K} {p : R → Bool}
    {f : R → R} {n : Nat} (hu : db.updateWhere t k' p f = some (db', n))
    (hf : k = k' → ∀ r, p r = true → Q r → Q (f r)) : Versions Q k db' := by
  obtain ⟨tx, htx, -, ⟨-, rfl, -⟩ | ⟨r, hview, hp, -, rfl⟩⟩ :=
    updateWhere_eq hu
  · exact h
  · refine h.put htx fun hk => hf hk r hp ?_
    subst hk
    exact h.view hview

theorem Versions.updateNow (h : Versions Q k db) {k' : K} {p : R → Bool}
    {f : R → R} {n : Nat} (hu : db.updateNow k' p f = some (db', n))
    (hf : k = k' → ∀ r, p r = true → Q r → Q (f r)) : Versions Q k db' := by
  obtain ⟨-, ⟨-, rfl, -⟩ | ⟨r, hr, hp, -, rfl⟩⟩ := statementNow_eq hu
  · exact h
  · refine ⟨?_, h.writes⟩
    intro r' hr'
    rw [lookup_rows_insert] at hr'
    split at hr'
    · rename_i hk
      cases hr'
      subst hk
      exact hf rfl r hp (h.row r hr)
    · exact h.row r' hr'

theorem Versions.deleteNow (h : Versions Q k db) {k' : K} {p : R → Bool}
    {n : Nat} (hd : db.deleteNow k' p = some (db', n)) :
    Versions Q k db' := by
  obtain ⟨-, ⟨-, rfl, -⟩ | ⟨r, -, -, -, rfl⟩⟩ := statementNow_eq hd
  · exact h
  · refine ⟨?_, h.writes⟩
    intro r' hr'
    rw [lookup_rows_erase] at hr'
    split at hr'
    · cases hr'
    · exact h.row r' hr'

end Versions

/-! ## Rows that stay

Nothing but a deletion takes a committed row away. -/

section Keeps

variable {db db' : Db K R W T} {t : T} {k : K}

def Keeps (db db' : Db K R W T) : Prop :=
  ∀ k, (db.lookup k).isSome → (db'.lookup k).isSome

theorem Keeps.refl (db : Db K R W T) : Keeps db db := fun _ h => h

theorem Keeps.trans {db'' : Db K R W T} (h : Keeps db db')
    (h' : Keeps db' db'') : Keeps db db'' :=
  fun k hk => h' k (h k hk)

theorem Keeps.of_rows (h : db'.rows = db.rows) : Keeps db db' := by
  intro k hk
  rw [lookup, h]
  exact hk

theorem Keeps.begin (h : db.begin t = some db') : Keeps db db' := by
  obtain ⟨-, rfl⟩ := begin_eq h
  exact .of_rows rfl

theorem Keeps.insert {r : R} (h : db.insert t k r = some db') :
    Keeps db db' := by
  obtain ⟨tx, -, -, -, rfl⟩ := insert_eq h
  exact .of_rows rfl

theorem Keeps.insertIgnore {r : R} (h : db.insertIgnore t k r = some db') :
    Keeps db db' := by
  obtain ⟨tx, -, ⟨-, rfl⟩ | ⟨-, -, rfl⟩⟩ := insertIgnore_eq h
  · exact .refl _
  · exact .of_rows rfl

theorem Keeps.selectForUpdate {o : Option R}
    (h : db.selectForUpdate t k = some (db', o)) : Keeps db db' := by
  obtain ⟨tx, -, -, -, ⟨-, rfl⟩ | ⟨-, rfl⟩⟩ := selectForUpdate_eq h
  · exact .refl _
  · exact .of_rows rfl

theorem Keeps.update {f : R → R} {n : Nat}
    (h : db.update t k f = some (db', n)) : Keeps db db' := by
  obtain ⟨tx, -, -, ⟨-, -, rfl⟩ | ⟨r, -, -, rfl⟩⟩ := update_eq h
  · exact .refl _
  · exact .of_rows rfl

theorem Keeps.updateWhere {p : R → Bool} {f : R → R} {n : Nat}
    (h : db.updateWhere t k p f = some (db', n)) : Keeps db db' := by
  obtain ⟨tx, -, -, ⟨-, rfl, -⟩ | ⟨r, -, -, -, rfl⟩⟩ := updateWhere_eq h
  · exact .refl _
  · exact .of_rows rfl

theorem Keeps.lockAll (db : Db K R W T) (t : T) (ks : List K) :
    Keeps db (db.lockAll t ks) :=
  .of_rows (lockAll_rows ks db)

theorem Keeps.exec {w : W} (h : db.exec t w = some db') : Keeps db db' := by
  obtain ⟨tx, -, rfl⟩ := exec_eq h
  exact .of_rows rfl

theorem Keeps.savepoint (h : db.savepoint t = some db') : Keeps db db' := by
  obtain ⟨tx, -, rfl⟩ := savepoint_eq h
  exact .of_rows rfl

theorem Keeps.rollbackTo (h : db.rollbackTo t = some db') : Keeps db db' := by
  obtain ⟨tx, saved, -, -, rfl⟩ := rollbackTo_eq h
  exact .of_rows rfl

theorem Keeps.release (h : db.release t = some db') : Keeps db db' := by
  obtain ⟨tx, -, rfl⟩ := release_eq h
  exact .of_rows rfl

theorem Keeps.rollback (db : Db K R W T) (t : T) : Keeps db (db.rollback t) :=
  .of_rows rfl

theorem Keeps.commit (h : db.commit t = some db') : Keeps db db' := by
  obtain ⟨tx, htx, hrows, -⟩ := commit_eq h
  intro k hk
  rw [hrows, view_of_tx htx, Option.isSome_or, hk, Bool.or_true]

theorem Keeps.updateNow {p : R → Bool} {f : R → R} {n : Nat}
    (h : db.updateNow k p f = some (db', n)) : Keeps db db' := by
  obtain ⟨-, ⟨-, rfl, -⟩ | ⟨r, -, -, -, rfl⟩⟩ := statementNow_eq h
  · exact .refl _
  · intro k' hk'
    rw [lookup_rows_insert]
    split
    · rfl
    · exact hk'

end Keeps

end Db

end PlatformGo.RowStore
