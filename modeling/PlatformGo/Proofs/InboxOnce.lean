import PlatformGo.Ref.Inbox

/-!
# The inbox commits the writes of one handler

Any number of `Process` calls may race on one key, with every statement free
to fail, and the domain writes of at most one handler reach the database. The
argument has two parts.

The first is about one call and does not mention the others. `CallInv` says
what an open transaction has done by the place its call has reached: nothing
before the row is locked, no domain write outside the handler and the success
path after it, and from the lock on the committed row is not completed. Row
locking keeps these facts true while other calls take their steps
(`CallInv.kept`), so each statement only has to hand the invariant on to the
next one.

The second is about the committed state. Only a commit changes it, and there
are three commits in `Process`. The duplicate path commits nothing, the
failure path has rolled its writes back, and the success path holds the lock
on a row that was not completed, marks it completed, and commits the writes
with it. `KeyInv` is the sentence these three keep true: the writes in the
database for a key are those of the one call that completed it, or none.
-/

namespace PlatformGo.Inbox

open RowStore Lts

variable {W : Type}

/-- The row is committed as completed. -/
def Completed (db : Store W) (k : Key) : Prop :=
  ∃ r, db.lookup k = some r ∧ r.status = .completed

/-- The committed domain statements of the handlers of one key. -/
def effectsOf (k : Key) (log : List (Effect W)) : List (Effect W) :=
  log.filter fun e => e.key = k

/-- The domain statements a call's handler has executed. -/
def Call.effects (c : Nat) (call : Call W) : List (Effect W) :=
  call.issued.map fun w => ⟨c, call.key, w⟩

/-- The step is the `DELETE` of retention, and it finds the row. -/
def Removes (k : Key) (s : Sys W) (a : Action W) : Prop :=
  ∃ before r, a = .delete k before ∧ s.db.lookup k = some r ∧
    completedBefore before r = true

/-- The step is the `SAVEPOINT` of a call on the key, after which `Process`
calls the handler. -/
def StartsHandler (k : Key) (s : Sys W) (a : Action W) : Prop :=
  ∃ c call now, a = .exec c now none ∧ s.calls c = some call ∧
    call.key = k ∧ call.pc = .savepoint

/-! ## One call -/

/-- The call holds the lock of its row, and the committed row is not
completed. -/
structure Open (db : Store W) (c : Nat) (k : Key) : Prop where
  locked : db.locks k = some c
  fresh : ∀ r, db.lookup k = some r → r.status ≠ .completed

theorem Open.not_completed {db : Store W} {c : Nat} {k : Key}
    (h : Open db c k) : ¬ Completed db k := by
  rintro ⟨r, hr, hst⟩
  exact h.fresh r hr hst

/-- What the transaction of a call has done when the call has reached a
place. -/
def TxInv (db : Store W) (c : Nat) (call : Call W)
    (tx : Tx Key Row (Effect W)) : Prop :=
  match call.pc with
  | .begin | .unwind _ | .returned .. => True
  | .insertPending => tx.writes = [] ∧ tx.domain = [] ∧ call.issued = []
  | .lock =>
      tx.domain = [] ∧ call.issued = [] ∧
        (tx.writes = [] ∨
          db.locks call.key = some c ∧ db.lookup call.key = none ∧
            ∃ r, tx.writes = [(call.key, r)] ∧ r.status = .pending)
  | .commitDuplicate => tx.writes = [] ∧ tx.domain = []
  | .markProcessing | .savepoint =>
      Open db c call.key ∧ tx.domain = [] ∧ call.issued = []
  | .handler =>
      Open db c call.key ∧ tx.domain = call.effects c ∧
        ∃ ws, tx.saved = some (ws, [])
  | .rollbackTo _ => Open db c call.key ∧ ∃ ws, tx.saved = some (ws, [])
  | .markFailed _ => Open db c call.key ∧ tx.domain = []
  | .commitFailed _ =>
      Open db c call.key ∧ tx.domain = [] ∧
        ∃ r, db.view c call.key = some r ∧ r.status = .failed
  | .release | .markCompleted =>
      Open db c call.key ∧ tx.domain = call.effects c ∧ call.handled = some none
  | .commit =>
      Open db c call.key ∧ tx.domain = call.effects c ∧
        call.handled = some none ∧
        ∃ r, db.view c call.key = some r ∧ r.status = .completed

structure CallInv (db : Store W) (c : Nat) (call : Call W) : Prop where
  start : call.pc = .begin → call.issued = []
  tx : ∀ tx, db.txs c = some tx → TxInv db c call tx

theorem Open.kept {db db' : Store W} {c : Nat} {k : Key}
    (h : Open db c k) (hk : Db.Kept c db db') : Open db' c k :=
  ⟨hk.locks _ h.locked, fun r hr => h.fresh r (hk.rows _ h.locked ▸ hr)⟩

/-- The steps of the other calls leave a call's invariant alone. -/
theorem CallInv.kept {db db' : Store W} {c : Nat} {call : Call W}
    (h : CallInv db c call) (hk : Db.Kept c db db') : CallInv db' c call := by
  refine ⟨h.start, fun tx htx => ?_⟩
  rw [hk.tx] at htx
  have hinv := h.tx tx htx
  unfold TxInv at hinv ⊢
  split at hinv
  · trivial
  · trivial
  · trivial
  · exact hinv
  · refine ⟨hinv.1, hinv.2.1, hinv.2.2.imp id ?_⟩
    rintro ⟨hlock, hrow, hw⟩
    exact ⟨hk.locks _ hlock, (hk.rows _ hlock).trans hrow, hw⟩
  · exact hinv
  · exact ⟨hinv.1.kept hk, hinv.2⟩
  · exact ⟨hinv.1.kept hk, hinv.2⟩
  · exact ⟨hinv.1.kept hk, hinv.2⟩
  · exact ⟨hinv.1.kept hk, hinv.2⟩
  · exact ⟨hinv.1.kept hk, hinv.2⟩
  · obtain ⟨hopen, hdom, r, hr, hst⟩ := hinv
    exact ⟨hopen.kept hk, hdom, r, (hk.view hopen.locked).trans hr, hst⟩
  · exact ⟨hinv.1.kept hk, hinv.2⟩
  · exact ⟨hinv.1.kept hk, hinv.2⟩
  · obtain ⟨hopen, hdom, hret, r, hr, hst⟩ := hinv
    exact ⟨hopen.kept hk, hdom, hret, r, (hk.view hopen.locked).trans hr, hst⟩

/-- A call without a transaction, or on its way out, owes nothing. -/
theorem callInv_unwind (db : Store W) (c : Nat) (call : Call W) (e : GoErr) :
    CallInv db c { call with pc := .unwind e } :=
  ⟨fun h => by simp at h, fun _ _ => trivial⟩

theorem callInv_returned (db : Store W) (c : Nat) (call : Call W) (r : Result)
    (e : Option GoErr) : CallInv db c { call with pc := .returned r e } :=
  ⟨fun h => by simp at h, fun _ _ => trivial⟩

theorem callInv_of_tx {db : Store W} {c : Nat} {call : Call W}
    {tx : Tx Key Row (Effect W)} (hpc : call.pc ≠ .begin)
    (htx : db.txs c = some tx) (h : TxInv db c call tx) :
    CallInv db c call := by
  refine ⟨fun hb => absurd hb hpc, fun tx' htx' => ?_⟩
  rw [htx, Option.some.injEq] at htx'
  exact htx' ▸ h

/-! ## One statement -/

/-- The updates of `execOne`, each with where its call goes on. -/
inductive Marks (call : Call W) : (Row → Row) → Pc → Prop
  | processing (hpc : call.pc = .markProcessing) :
      Marks call (markProcessing call.actor call.now) .savepoint
  | failed {cause : GoErr} (hpc : call.pc = .markFailed cause) :
      Marks call (markFailed call.actor cause call.now) (.commitFailed cause)
  | completed (hpc : call.pc = .markCompleted) :
      Marks call (markCompleted call.actor call.now) .commit

/-- What the next statement of a call can do. A call goes on after an update
only when its row was there, and the update may have run though it failed. -/
inductive Executes (c : Nat) (call : Call W) (db : Store W) :
    Store W → Call W → Prop
  | failed (e : GoErr) : Executes c call db db { call with pc := .unwind e }
  | notBegun (e : GoErr) :
      Executes c call db db { call with pc := .returned {} (some e) }
  | begun {now : Time} {db' : Store W} (hpc : call.pc = .begin)
      (h : db.begin c = some db') :
      Executes c call db db' { call with now := now, pc := .insertPending }
  | inserted {actor : String} {now : Time} {db' : Store W}
      (hpc : call.pc = .insertPending)
      (h : db.insertIgnore c call.key (pendingRow actor now) = some db') :
      Executes c call db db' { call with pc := .lock }
  | locked {o : Option Row} {db' : Store W} (hpc : call.pc = .lock)
      (h : db.selectForUpdate c call.key = some (db', o)) :
      Executes c call db db' (call.locked o)
  | saved {db' : Store W} (hpc : call.pc = .savepoint)
      (h : db.savepoint c = some db') :
      Executes c call db db' { call with pc := .handler }
  | rolledBackTo {cause : GoErr} {db' : Store W}
      (hpc : call.pc = .rollbackTo cause) (h : db.rollbackTo c = some db') :
      Executes c call db db' { call with pc := .markFailed cause }
  | released {db' : Store W} (hpc : call.pc = .release)
      (h : db.release c = some db') :
      Executes c call db db' { call with pc := .markCompleted }
  | notMarked {f : Row → Row} {n : Nat} {db' : Store W} (e : GoErr)
      (h : db.update c call.key f = some (db', n)) :
      Executes c call db db' { call with pc := .unwind e }
  | marked {f : Row → Row} {next : Pc} {tx : Tx Key Row (Effect W)} {r : Row}
      (hf : Marks call f next) (htx : db.txs c = some tx)
      (hr : db.view c call.key = some r)
      (h : db.update c call.key f = some (db.put c tx call.key (f r), 1)) :
      Executes c call db (db.put c tx call.key (f r)) { call with pc := next }
  | unwound {e : GoErr} (hpc : call.pc = .unwind e) :
      Executes c call db (db.rollback c)
        { call with pc := .returned {} (some e) }

section Executes

variable {db db' : Store W} {c : Nat} {call call' : Call W}
  {fault : Option Fault} {next : Pc} {wrapped : GoErr → GoErr}

theorem executes_sql {context : String} {run : Option (Store W)}
    (h : (sql context db run fault).map (call.proceed next wrapped) =
      some (db', call'))
    (hrun : ∀ {db₁}, run = some db₁ →
      Executes c call db db₁ { call with pc := next }) :
    Executes c call db db' call' := by
  obtain ⟨o, ho, heq⟩ := Option.map_eq_some_iff.mp h
  match fault, ho with
  | some (.exec e), ho =>
      cases ho
      cases heq
      exact .failed _
  | none, ho =>
      obtain ⟨db₁, hdb, rfl⟩ := Option.map_eq_some_iff.mp ho
      cases heq
      exact hrun hdb

theorem executes_execOne {action : String} {f : Row → Row}
    (hf : Marks call f next)
    (h : (execOne action db (db.update c call.key f) fault).map
      (call.proceed next wrapped) = some (db', call')) :
    Executes c call db db' call' := by
  obtain ⟨o, ho, heq⟩ := Option.map_eq_some_iff.mp h
  match fault, ho with
  | some (.exec e), ho =>
      cases ho
      cases heq
      exact .failed _
  | some (.count e), ho =>
      obtain ⟨⟨db₁, n⟩, hu, rfl⟩ := Option.map_eq_some_iff.mp ho
      cases heq
      exact .notMarked _ hu
  | none, ho =>
      obtain ⟨⟨db₁, n⟩, hu, rfl⟩ := Option.map_eq_some_iff.mp ho
      obtain ⟨tx, htx, -, ⟨-, rfl, rfl⟩ | ⟨r, hr, rfl, rfl⟩⟩ :=
        Db.update_eq hu
      · cases heq
        exact .notMarked _ hu
      · cases heq
        exact .marked hf htx hr hu

theorem exec_executes {now : Time}
    (h : call.exec c db now fault = some (db', call')) :
    Executes c call db db' call' := by
  rw [Call.exec.eq_def] at h
  split at h <;> rename_i hpc
  · split at h
    · cases h
      exact .notBegun _
    · cases h
    · obtain ⟨db₁, hdb, heq⟩ := Option.map_eq_some_iff.mp h
      cases heq
      exact .begun hpc hdb
  · exact executes_sql h (.inserted hpc)
  · split at h
    · cases h
      exact .failed _
    · cases h
    · obtain ⟨⟨db₁, o⟩, hdb, heq⟩ := Option.map_eq_some_iff.mp h
      cases heq
      exact .locked hpc hdb
  · exact executes_execOne (.processing hpc) h
  · exact executes_sql h (.saved hpc)
  · exact executes_sql h (.rolledBackTo hpc)
  · exact executes_execOne (.failed hpc) h
  · exact executes_sql h (.released hpc)
  · exact executes_execOne (.completed hpc) h
  · cases h
    exact .unwound hpc
  all_goals cases h

end Executes

/-- What a statement that is not a commit does: it is a step of its own
transaction on its own row, the committed state stays, and the call's
invariant is handed on. -/
structure Quiet (c : Nat) (call : Call W) (db db' : Store W)
    (call' : Call W) : Prop where
  own : Db.StepOf c call.key db db'
  key : call'.key = call.key
  rows : ∀ k, db'.lookup k = db.lookup k
  log : db'.log = db.log
  inv : CallInv db' c call'

theorem quiet_unwind {db : Store W} {c : Nat} {call : Call W}
    (hwf : Db.Wf db) (e : GoErr) :
    Quiet c call db db { call with pc := .unwind e } :=
  ⟨Db.StepOf.refl hwf, rfl, fun _ => rfl, rfl, callInv_unwind db c call e⟩

/-- An update is harmless whatever it changed. -/
theorem quiet_update {db db' : Store W} {c : Nat} {call call' : Call W}
    {f : Row → Row} {n : Nat} (hwf : Db.Wf db)
    (h : db.update c call.key f = some (db', n))
    (hkey : call'.key = call.key) (hinv : CallInv db' c call') :
    Quiet c call db db' call' := by
  have hown := Db.stepOf_update hwf h
  obtain ⟨tx, -, -, ⟨-, -, rfl⟩ | ⟨r, -, -, rfl⟩⟩ := Db.update_eq h
  · exact ⟨hown, hkey, fun _ => rfl, rfl, hinv⟩
  · exact ⟨hown, hkey, fun _ => rfl, rfl, hinv⟩

section Statements

variable {db db' : Store W} {c : Nat} {call call' : Call W}

/-- An update keeps the row's lock and the committed row. -/
theorem Open.put {k : Key} (h : Open db c k) (tx : Tx Key Row (Effect W))
    (r : Row) : Open (db.put c tx k r) c k :=
  ⟨Db.lock_locks_self db c k, h.fresh⟩

theorem quiet_begin {now : Time} (hwf : Db.Wf db) (hinv : CallInv db c call)
    (hpc : call.pc = .begin) (h : db.begin c = some db') :
    Quiet c call db db' { call with now := now, pc := .insertPending } := by
  have hown : Db.StepOf c call.key db db' := Db.stepOf_begin hwf h
  obtain ⟨_, rfl⟩ := Db.begin_eq h
  refine ⟨hown, rfl, fun _ => rfl, rfl, ?_⟩
  exact callInv_of_tx (by simp) (Db.setTx_txs_self db c _)
    ⟨rfl, rfl, hinv.start hpc⟩

theorem quiet_insertPending {r : Row} (hwf : Db.Wf db)
    (hinv : CallInv db c call) (hpc : call.pc = .insertPending)
    (hr : r.status = .pending)
    (h : db.insertIgnore c call.key r = some db') :
    Quiet c call db db' { call with pc := .lock } := by
  have hown := Db.stepOf_insertIgnore hwf h
  obtain ⟨tx, htx, hcase⟩ := Db.insertIgnore_eq h
  have htxinv := hinv.tx tx htx
  simp only [TxInv, hpc] at htxinv
  obtain ⟨hw, hdom, hissued⟩ := htxinv
  rcases hcase with ⟨_, rfl⟩ | ⟨hview, _, rfl⟩
  · exact ⟨hown, rfl, fun _ => rfl, rfl,
      callInv_of_tx (by simp) htx ⟨hdom, hissued, .inl hw⟩⟩
  · refine ⟨hown, rfl, fun _ => rfl, rfl,
      callInv_of_tx (by simp) (Db.put_txs_self db c tx call.key r)
        ⟨hdom, hissued, .inr ⟨Db.lock_locks_self db c call.key, ?_, r, ?_, hr⟩⟩⟩
    · rw [Db.view_of_tx htx, hw] at hview
      exact hview
    · simp [hw]

/-- The lock decides the rest of the call. A completed row was completed by an
earlier transaction, since the only row this one may have written is the
pending row it inserted. -/
theorem quiet_lock {o : Option Row} (hwf : Db.Wf db) (hinv : CallInv db c call)
    (hpc : call.pc = .lock)
    (h : db.selectForUpdate c call.key = some (db', o)) :
    Quiet c call db db' (call.locked o) := by
  have hown := Db.stepOf_selectForUpdate hwf h
  obtain ⟨tx, htx, _, hview, hcase⟩ := Db.selectForUpdate_eq h
  have htxinv := hinv.tx tx htx
  simp only [TxInv, hpc] at htxinv
  obtain ⟨hdom, hissued, hw⟩ := htxinv
  rcases hcase with ⟨rfl, rfl⟩ | ⟨⟨r, rfl⟩, rfl⟩
  · exact ⟨hown, rfl, fun _ => rfl, rfl, callInv_unwind _ c call _⟩
  · rw [Db.view_of_tx htx] at hview
    by_cases hst : r.status = .completed
    · have hnone : tx.writes = [] := by
        rcases hw with hw | ⟨_, _, r', hw, hr'⟩
        · exact hw
        · rw [hw, List.lookup_cons_self] at hview
          simp only [Option.some_or, Option.some.injEq] at hview
          rw [hview, hr'] at hst
          simp at hst
      have hlocked : call.locked (some r) =
          { call with attempts := r.attempts, pc := .commitDuplicate } := by
        rw [Call.locked, if_pos hst]
      rw [hlocked]
      exact ⟨hown, rfl, fun _ => rfl, rfl,
        callInv_of_tx (by simp) htx ⟨hnone, hdom⟩⟩
    · have hlocked : call.locked (some r) =
          { call with attempts := r.attempts + 1, pc := .markProcessing } := by
        rw [Call.locked, if_neg hst]
      rw [hlocked]
      refine ⟨hown, rfl, fun _ => rfl, rfl,
        callInv_of_tx (by simp) htx ⟨⟨?_, fun r' hr' => ?_⟩, hdom, hissued⟩⟩
      · exact Db.lock_locks_self db c call.key
      · have hr' : db.lookup call.key = some r' := hr'
        rcases hw with hw | ⟨_, hnone, _⟩
        · rw [hw, List.lookup_nil, Option.none_or, hr',
            Option.some.injEq] at hview
          exact hview ▸ hst
        · rw [hnone] at hr'
          simp at hr'

theorem quiet_savepoint (hwf : Db.Wf db) (hinv : CallInv db c call)
    (hpc : call.pc = .savepoint) (h : db.savepoint c = some db') :
    Quiet c call db db' { call with pc := .handler } := by
  have hown : Db.StepOf c call.key db db' := Db.stepOf_savepoint hwf h
  obtain ⟨tx, htx, rfl⟩ := Db.savepoint_eq h
  have htxinv := hinv.tx tx htx
  simp only [TxInv, hpc] at htxinv
  obtain ⟨hopen, hdom, hissued⟩ := htxinv
  refine ⟨hown, rfl, fun _ => rfl, rfl,
    callInv_of_tx (by simp) (Db.setTx_txs_self db c _)
      ⟨⟨hopen.locked, hopen.fresh⟩, ?_, tx.writes, ?_⟩⟩
  · simp [hdom, Call.effects, hissued]
  · simp [hdom]

theorem quiet_rollbackTo {cause : GoErr} (hwf : Db.Wf db)
    (hinv : CallInv db c call) (hpc : call.pc = .rollbackTo cause)
    (h : db.rollbackTo c = some db') :
    Quiet c call db db' { call with pc := .markFailed cause } := by
  have hown : Db.StepOf c call.key db db' := Db.stepOf_rollbackTo hwf h
  obtain ⟨tx, saved, htx, hsaved, rfl⟩ := Db.rollbackTo_eq h
  have htxinv := hinv.tx tx htx
  simp only [TxInv, hpc] at htxinv
  obtain ⟨hopen, ws, hws⟩ := htxinv
  rw [hsaved, Option.some.injEq] at hws
  subst hws
  exact ⟨hown, rfl, fun _ => rfl, rfl,
    callInv_of_tx (by simp) (Db.setTx_txs_self db c _)
      ⟨⟨hopen.locked, hopen.fresh⟩, rfl⟩⟩

theorem quiet_release (hwf : Db.Wf db) (hinv : CallInv db c call)
    (hpc : call.pc = .release) (h : db.release c = some db') :
    Quiet c call db db' { call with pc := .markCompleted } := by
  have hown : Db.StepOf c call.key db db' := Db.stepOf_release hwf h
  obtain ⟨tx, htx, rfl⟩ := Db.release_eq h
  have htxinv := hinv.tx tx htx
  simp only [TxInv, hpc] at htxinv
  obtain ⟨hopen, hdom, hret⟩ := htxinv
  exact ⟨hown, rfl, fun _ => rfl, rfl,
    callInv_of_tx (by simp) (Db.setTx_txs_self db c _)
      ⟨⟨hopen.locked, hopen.fresh⟩, hdom, hret⟩⟩

theorem quiet_marked {f : Row → Row} {next : Pc}
    {tx : Tx Key Row (Effect W)} {r : Row} (hwf : Db.Wf db)
    (hinv : CallInv db c call) (hf : Marks call f next)
    (htx : db.txs c = some tx)
    (h : db.update c call.key f = some (db.put c tx call.key (f r), 1)) :
    Quiet c call db (db.put c tx call.key (f r)) { call with pc := next } := by
  refine quiet_update hwf h rfl ?_
  have htxs := Db.put_txs_self db c tx call.key (f r)
  have hview := Db.put_view_self db c tx call.key (f r)
  have htxinv := hinv.tx tx htx
  cases hf with
  | processing hpc =>
      simp only [TxInv, hpc] at htxinv
      exact callInv_of_tx (by simp) htxs ⟨htxinv.1.put tx _, htxinv.2⟩
  | failed hpc =>
      simp only [TxInv, hpc] at htxinv
      exact callInv_of_tx (by simp) htxs
        ⟨htxinv.1.put tx _, htxinv.2, _, hview, rfl⟩
  | completed hpc =>
      simp only [TxInv, hpc] at htxinv
      obtain ⟨hopen, hdom, hret⟩ := htxinv
      exact callInv_of_tx (by simp) htxs
        ⟨hopen.put tx _, hdom, hret, _, hview, rfl⟩

/-- Every statement outside the commits is quiet. -/
theorem exec_quiet {now : Time} {fault : Option Fault} (hwf : Db.Wf db)
    (hinv : CallInv db c call)
    (h : call.exec c db now fault = some (db', call')) :
    Quiet c call db db' call' := by
  cases exec_executes h with
  | failed e => exact quiet_unwind hwf e
  | notBegun e =>
      exact ⟨Db.StepOf.refl hwf, rfl, fun _ => rfl, rfl,
        callInv_returned db c call _ _⟩
  | begun hpc hdb => exact quiet_begin hwf hinv hpc hdb
  | inserted hpc hdb => exact quiet_insertPending hwf hinv hpc rfl hdb
  | locked hpc hdb => exact quiet_lock hwf hinv hpc hdb
  | saved hpc hdb => exact quiet_savepoint hwf hinv hpc hdb
  | rolledBackTo hpc hdb => exact quiet_rollbackTo hwf hinv hpc hdb
  | released hpc hdb => exact quiet_release hwf hinv hpc hdb
  | notMarked e hdb => exact quiet_update hwf hdb rfl (callInv_unwind _ c call e)
  | marked hf htx _ hdb => exact quiet_marked hwf hinv hf htx hdb
  | unwound _ =>
      exact ⟨Db.stepOf_rollback hwf, rfl, fun _ => rfl, rfl,
        callInv_returned _ c call _ _⟩

end Statements

/-! ## All the calls together -/

structure Base (s : Sys W) : Prop where
  wf : Db.Wf s.db
  calls : ∀ c call, s.calls c = some call → CallInv s.db c call
  ownKey : ∀ k c, s.db.locks k = some c →
    ∃ call, s.calls c = some call ∧ call.key = k

theorem set_calls_self (s : Sys W) (c : Nat) (r : Store W × Call W) :
    (s.set c r).calls c = some r.2 := by
  simp [Sys.set]

theorem set_calls_ne (s : Sys W) {c d : Nat} (r : Store W × Call W)
    (h : d ≠ c) : (s.set c r).calls d = s.calls d :=
  Function.update_of_ne h _ _

theorem base_init : Base (init W) :=
  ⟨Db.wf_empty, fun c call h => by simp [init] at h,
    fun k c h => by simp [init, Db.empty] at h⟩

/-- A step of one call keeps the invariant of all of them. -/
theorem Base.set {s : Sys W} (h : Base s) {c : Nat} {call call' : Call W}
    {db' : Store W} (hc : s.calls c = some call)
    (hown : Db.StepOf c call.key s.db db') (hkey : call'.key = call.key)
    (hinv : CallInv db' c call') : Base (s.set c (db', call')) := by
  refine ⟨hown.wf, fun d call₁ hd => ?_, fun k d hl => ?_⟩
  · by_cases hdc : d = c
    · subst hdc
      rw [set_calls_self, Option.some.injEq] at hd
      exact hd ▸ hinv
    · rw [set_calls_ne s _ hdc] at hd
      exact (h.calls d call₁ hd).kept (hown.kept d hdc)
  · have hold : ∃ call₁, s.calls d = some call₁ ∧ call₁.key = k := by
      rcases hown.locks k d hl with hl | ⟨rfl, rfl⟩
      · exact h.ownKey k d hl
      · exact ⟨call, hc, rfl⟩
    obtain ⟨call₁, hd, hk⟩ := hold
    by_cases hdc : d = c
    · subst hdc
      rw [hc, Option.some.injEq] at hd
      exact ⟨call', set_calls_self s d _, hkey.trans (hd ▸ hk)⟩
    · exact ⟨call₁, (set_calls_ne s _ hdc).trans hd, hk⟩

/-- The three places a call commits from. -/
def Commits (pc : Pc) : Prop :=
  pc = .commitDuplicate ∨ (∃ cause, pc = .commitFailed cause) ∨ pc = .commit

theorem Commits.ne_returned {pc : Pc} (h : Commits pc) (r : Result)
    (e : Option GoErr) : pc ≠ .returned r e := by
  rintro rfl
  rcases h with h | ⟨cause, h⟩ | h <;> simp at h

theorem answer_commits {call : Call W} {err : Option GoErr}
    {a : Result × Option GoErr} (h : call.answer err = some a) :
    Commits call.pc := by
  rw [Call.answer.eq_def] at h
  split at h <;> rename_i hpc
  · exact .inl hpc
  · exact .inl hpc
  · exact .inr (.inl ⟨_, hpc⟩)
  · exact .inr (.inl ⟨_, hpc⟩)
  · exact .inr (.inr hpc)
  · exact .inr (.inr hpc)
  · simp at h

/-- The transaction takes effect, whether or not the answer arrives. -/
def applied : CommitOutcome → Bool
  | .done | .lost _ => true
  | .refused _ => false

theorem commitTx_eq {c : Nat} {call call' : Call W} {db db' : Store W}
    {outcome : CommitOutcome}
    (h : call.commitTx c db outcome = some (db', call')) :
    Commits call.pc ∧ (∃ r e, call' = { call with pc := .returned r e }) ∧
      (applied outcome = true ∧ db.commit c = some db' ∨
        applied outcome = false ∧ db' = db.rollback c) := by
  cases outcome with
  | done | lost =>
      obtain ⟨a, ha, h⟩ := Option.bind_eq_some_iff.mp h
      obtain ⟨db₁, hdb, heq⟩ := Option.map_eq_some_iff.mp h
      rw [Prod.mk.injEq] at heq
      obtain ⟨rfl, rfl⟩ := heq
      exact ⟨answer_commits ha, ⟨a.1, a.2, rfl⟩, .inl ⟨rfl, hdb⟩⟩
  | refused e =>
      obtain ⟨a, ha, heq⟩ := Option.map_eq_some_iff.mp h
      rw [Prod.mk.injEq] at heq
      obtain ⟨rfl, rfl⟩ := heq
      exact ⟨answer_commits ha, ⟨a.1, a.2, rfl⟩, .inr ⟨rfl, rfl⟩⟩

theorem write_quiet {db db' : Store W} {c : Nat} {call : Call W} {w : W}
    (hwf : Db.Wf db) (hinv : CallInv db c call) (hpc : call.pc = .handler)
    (h : db.exec c ⟨c, call.key, w⟩ = some db') :
    Quiet c call db db' { call with issued := call.issued ++ [w] } := by
  have hown : Db.StepOf c call.key db db' := Db.stepOf_exec hwf h
  obtain ⟨tx, htx, rfl⟩ := Db.exec_eq h
  have htxinv := hinv.tx tx htx
  simp only [TxInv, hpc] at htxinv
  obtain ⟨hopen, hdom, hsaved⟩ := htxinv
  refine ⟨hown, rfl, fun _ => rfl, rfl,
    callInv_of_tx (by simp [hpc]) (Db.setTx_txs_self db c _) ?_⟩
  simp only [TxInv, hpc]
  refine ⟨⟨hopen.locked, hopen.fresh⟩, ?_, hsaved⟩
  simp [hdom, Call.effects]

theorem handled_quiet {db : Store W} {c : Nat} {call : Call W}
    {err : Option GoErr} (hwf : Db.Wf db) (hinv : CallInv db c call)
    (hpc : call.pc = .handler) :
    Quiet c call db db { call with
      handled := some err
      pc := match err with
        | none => .release
        | some cause => .rollbackTo cause } := by
  refine ⟨Db.StepOf.refl hwf, rfl, fun _ => rfl, rfl, ?_, fun tx htx => ?_⟩
  · cases err <;> simp
  · have htxinv := hinv.tx tx htx
    simp only [TxInv, hpc] at htxinv
    obtain ⟨hopen, hdom, hsaved⟩ := htxinv
    cases err with
    | none => exact ⟨hopen, hdom, rfl⟩
    | some cause => exact ⟨hopen, hsaved⟩

/-! ## What a step can do

Seven actions, four effects. A step starts a call, makes a quiet move of one,
commits one, or touches the store from outside. -/

inductive Effected (s : Sys W) (a : Action W) : Sys W → Prop
  | started {c : Nat} {call : Call W} (hnew : s.calls c = none)
      (hfresh : call.issued = []) (hpc : ∀ tx, TxInv s.db c call tx) :
      Effected s a (s.set c (s.db, call))
  | moved {c : Nat} {call call' : Call W} {db' : Store W}
      (hc : s.calls c = some call) (hlive : ∀ r e, call.pc ≠ .returned r e)
      (hq : Quiet c call s.db db' call') : Effected s a (s.set c (db', call'))
  | committed {c : Nat} {call : Call W} {db' : Store W} {r : Result}
      {e : Option GoErr} {outcome : CommitOutcome}
      (hc : s.calls c = some call) (hpc : Commits call.pc)
      (hdb : s.db.commit c = some db') (ha : a = .commit c outcome) :
      Effected s a (s.set c (db', { call with pc := .returned r e }))
  | dropped (c : Nat) : Effected s a { s with db := s.db.rollback c }
  | deleted {k : Key} {before : Time} {db' : Store W} {n : Nat}
      (ha : a = .delete k before)
      (hdb : s.db.deleteNow k (completedBefore before) = some (db', n)) :
      Effected s a { s with db := db' }

theorem step_effected {s t : Sys W} {a : Action W} (hb : Base s)
    (h : step s a = some t) : Effected s a t := by
  cases a with
  | process c key actor handlerNil =>
      simp only [step] at h
      split at h
      · simp at h
      · rename_i hnew _
        rw [Option.some.injEq] at h
        exact h ▸ .started hnew rfl fun _ => trivial
      · rename_i hnew _
        rw [Option.some.injEq] at h
        exact h ▸ .started hnew rfl fun _ => trivial
  | exec c now fault =>
      obtain ⟨call, hc, h⟩ := Option.bind_eq_some_iff.mp h
      obtain ⟨⟨db', call'⟩, hexec, rfl⟩ := Option.map_eq_some_iff.mp h
      refine .moved hc (fun r e hpc => ?_)
        (exec_quiet hb.wf (hb.calls c call hc) hexec)
      rw [Call.exec.eq_def, hpc] at hexec
      simp at hexec
  | write c w =>
      obtain ⟨call, hc, h⟩ := Option.bind_eq_some_iff.mp h
      split at h
      · rename_i hpc
        obtain ⟨db', hdb, rfl⟩ := Option.map_eq_some_iff.mp h
        exact .moved hc (by simp [hpc])
          (write_quiet hb.wf (hb.calls c call hc) hpc hdb)
      · simp at h
  | handled c err =>
      obtain ⟨call, hc, h⟩ := Option.bind_eq_some_iff.mp h
      split at h
      · rename_i hpc
        rw [Option.some.injEq] at h
        exact h ▸ .moved hc (by simp [hpc])
          (handled_quiet hb.wf (hb.calls c call hc) hpc)
      · simp at h
  | commit c outcome =>
      obtain ⟨call, hc, h⟩ := Option.bind_eq_some_iff.mp h
      obtain ⟨⟨db', call'⟩, hcommit, rfl⟩ := Option.map_eq_some_iff.mp h
      obtain ⟨hpc, ⟨r, e, rfl⟩, ⟨_, hdb⟩ | ⟨_, rfl⟩⟩ := commitTx_eq hcommit
      · exact .committed hc hpc hdb rfl
      · exact .moved hc hpc.ne_returned
          ⟨Db.stepOf_rollback hb.wf, rfl, fun _ => rfl, rfl,
            callInv_returned _ c call r e⟩
  | drop c =>
      simp only [step, Option.some.injEq] at h
      exact h ▸ .dropped c
  | delete k before =>
      obtain ⟨⟨db', n⟩, hdb, rfl⟩ := Option.map_eq_some_iff.mp h
      exact .deleted rfl hdb

theorem base_step {s t : Sys W} {a : Action W} (hb : Base s)
    (h : step s a = some t) : Base t := by
  cases step_effected hb h with
  | @started c call hnew hfresh hpc =>
      refine ⟨hb.wf, fun d call₁ hd => ?_, fun k d hl => ?_⟩
      · by_cases hdc : d = c
        · subst hdc
          rw [set_calls_self, Option.some.injEq] at hd
          exact hd ▸ ⟨fun _ => hfresh, fun tx _ => hpc tx⟩
        · rw [set_calls_ne s _ hdc] at hd
          exact hb.calls d call₁ hd
      · obtain ⟨call₁, hd, hk⟩ := hb.ownKey k d hl
        refine ⟨call₁, (set_calls_ne s _ ?_).trans hd, hk⟩
        rintro rfl
        rw [hnew] at hd
        simp at hd
  | moved hc _ hq => exact hb.set hc hq.own hq.key hq.inv
  | committed hc _ hdb =>
      exact hb.set hc (Db.stepOf_commit hb.wf hdb) rfl
        (callInv_returned _ _ _ _ _)
  | dropped c =>
      refine ⟨hb.wf.rollback c, fun d call hd => ?_, fun k d hl => ?_⟩
      · by_cases hdc : d = c
        · subst hdc
          refine ⟨(hb.calls d call hd).start, fun tx htx => ?_⟩
          simp at htx
        · exact (hb.calls d call hd).kept (Db.kept_rollback s.db hdc)
      · exact hb.ownKey k d (Db.unlock_locks_some hl)
  | deleted _ hdb =>
      have hkept := fun u => Db.kept_deleteNow (u := u) hdb
      obtain ⟨_, ⟨_, rfl, _⟩ | ⟨r, _, _, _, rfl⟩⟩ := Db.statementNow_eq hdb
      · exact hb
      · exact ⟨hb.wf.rows _, fun d call hd => (hb.calls d call hd).kept (hkept d),
          hb.ownKey⟩

/-! ## Rows that stay

Only retention removes rows, whatever state the calls are in. -/

theorem exec_keeps {db db' : Store W} {c : Nat} {call call' : Call W}
    {now : Time} {fault : Option Fault}
    (h : call.exec c db now fault = some (db', call')) : db.Keeps db' := by
  cases exec_executes h with
  | failed | notBegun => exact .refl _
  | begun _ hdb => exact .begin hdb
  | inserted _ hdb => exact .insertIgnore hdb
  | locked _ hdb => exact .selectForUpdate hdb
  | saved _ hdb => exact .savepoint hdb
  | rolledBackTo _ hdb => exact .rollbackTo hdb
  | released _ hdb => exact .release hdb
  | notMarked _ hdb => exact .update hdb
  | marked _ _ _ hdb => exact .update hdb
  | unwound => exact .rollback _ _

theorem step_keeps {s t : Sys W} {a : Action W} (h : step s a = some t)
    (ha : ∀ k before, a ≠ .delete k before) : s.db.Keeps t.db := by
  cases a with
  | process c key actor handlerNil =>
      simp only [step] at h
      split at h
      · cases h
      all_goals
        cases h
        exact .refl _
  | exec c now fault =>
      obtain ⟨call, -, h⟩ := Option.bind_eq_some_iff.mp h
      obtain ⟨r, hr, rfl⟩ := Option.map_eq_some_iff.mp h
      exact exec_keeps hr
  | write c w =>
      obtain ⟨call, -, h⟩ := Option.bind_eq_some_iff.mp h
      split at h
      · obtain ⟨db', hdb, rfl⟩ := Option.map_eq_some_iff.mp h
        exact .exec hdb
      · cases h
  | handled c err =>
      obtain ⟨call, -, h⟩ := Option.bind_eq_some_iff.mp h
      split at h
      · cases h
        exact .refl _
      · cases h
  | commit c outcome =>
      obtain ⟨call, -, h⟩ := Option.bind_eq_some_iff.mp h
      obtain ⟨r, hr, rfl⟩ := Option.map_eq_some_iff.mp h
      obtain ⟨-, -, ⟨-, hdb⟩ | ⟨-, hdb⟩⟩ := commitTx_eq hr
      · exact .commit hdb
      · show s.db.Keeps r.1
        rw [hdb]
        exact .rollback _ _
  | drop c =>
      cases h
      exact .rollback _ _
  | delete k before => exact absurd rfl (ha k before)

/-! ## The committed state of one key -/

/-- The call whose handler's writes are in the database: it succeeded, it is
over, and these are all the writes there are for its key. -/
def CompletedBy (k : Key) (s : Sys W) (c : Nat) (call : Call W) : Prop :=
  s.calls c = some call ∧ call.key = k ∧ call.handled = some none ∧
    (∃ r e, call.pc = .returned r e) ∧
    effectsOf k s.db.log = call.effects c

structure KeyInv (k : Key) (s : Sys W) : Prop where
  done : Completed s.db k → ∃ c call, CompletedBy k s c call
  none : ¬ Completed s.db k → effectsOf k s.db.log = []

theorem keyInv_init (k : Key) : KeyInv k (init W) :=
  ⟨fun ⟨r, hr, _⟩ => by simp [init, Db.empty, Db.lookup] at hr, fun _ => rfl⟩

theorem Completed.congr {db db' : Store W} {k : Key}
    (h : db'.lookup k = db.lookup k) : Completed db' k ↔ Completed db k := by
  rw [Completed, Completed, h]

/-- A step that leaves the row, the writes and the finished calls alone. -/
theorem KeyInv.quiet {k : Key} {s t : Sys W} (h : KeyInv k s)
    (hrow : t.db.lookup k = s.db.lookup k)
    (hlog : effectsOf k t.db.log = effectsOf k s.db.log)
    (hcalls : ∀ c call r e, s.calls c = some call →
      call.pc = .returned r e → t.calls c = some call) : KeyInv k t := by
  refine ⟨fun hc => ?_, fun hc => ?_⟩
  · obtain ⟨c, call, hcall, hkey, hret, ⟨r, e, hpc⟩, heff⟩ :=
      h.done ((Completed.congr hrow).mp hc)
    exact ⟨c, call, hcalls c call r e hcall hpc, hkey, hret, ⟨r, e, hpc⟩,
      hlog.trans heff⟩
  · rw [hlog]
    exact h.none fun hold => hc ((Completed.congr hrow).mpr hold)

theorem effectsOf_append (k : Key) (a b : List (Effect W)) :
    effectsOf k (a ++ b) = effectsOf k a ++ effectsOf k b :=
  List.filter_append ..

theorem effectsOf_effects (c : Nat) (call : Call W) :
    effectsOf call.key (call.effects c) = call.effects c := by
  rw [effectsOf, List.filter_eq_self]
  intro e he
  obtain ⟨w, _, rfl⟩ := List.mem_map.mp he
  simp

theorem effectsOf_effects_ne {k : Key} (c : Nat) {call : Call W}
    (h : call.key ≠ k) : effectsOf k (call.effects c) = [] := by
  rw [effectsOf, List.filter_eq_nil_iff]
  intro e he
  obtain ⟨w, _, rfl⟩ := List.mem_map.mp he
  simpa using h

/-- A commit only reaches the row of its own key. -/
theorem Base.commit_other {k : Key} {s : Sys W} (hb : Base s) {c : Nat}
    {call : Call W} {db' : Store W} (hc : s.calls c = some call)
    (hk : call.key ≠ k) (hdb : s.db.commit c = some db') :
    db'.lookup k = s.db.lookup k := by
  obtain ⟨tx, _, hrows, _⟩ := Db.commit_eq hdb
  rw [hrows]
  refine hb.wf.view_of_not_held fun hl => ?_
  obtain ⟨call₁, hc₁, hk₁⟩ := hb.ownKey k c hl
  rw [hc, Option.some.injEq] at hc₁
  exact hk (hc₁ ▸ hk₁)

/-- The three commits. A commit on another key does not reach this one; on
this key the duplicate path changes nothing, the failure path leaves the row
not completed without a write, and the success path completes it with the
writes of its own handler. -/
theorem keyInv_commit {k : Key} {s : Sys W} (hb : Base s) (h : KeyInv k s)
    {c : Nat} {call : Call W} {db' : Store W} {r : Result}
    {e : Option GoErr} (hc : s.calls c = some call) (hpc : Commits call.pc)
    (hdb : s.db.commit c = some db') :
    KeyInv k (s.set c (db', { call with pc := .returned r e })) ∧
      (Completed s.db k → Completed db' k) := by
  obtain ⟨tx, htx, hrows, hlog, _, _⟩ := Db.commit_eq hdb
  have htxinv := (hb.calls c call hc).tx tx htx
  -- A finished call is not the one that commits now.
  have hcalls : ∀ d call₁ r₁ e₁, s.calls d = some call₁ →
      call₁.pc = .returned r₁ e₁ →
      (s.set c (db', { call with pc := .returned r e })).calls d =
        some call₁ := by
    intro d call₁ r₁ e₁ hd hpc₁
    rw [set_calls_ne s _ (fun hdc => ?_)]
    · exact hd
    · subst hdc
      rw [hc, Option.some.injEq] at hd
      exact hpc.ne_returned r₁ e₁ (hd ▸ hpc₁)
  have hkeep : db'.lookup k = s.db.lookup k →
      effectsOf k tx.domain = [] →
      KeyInv k (s.set c (db', { call with pc := .returned r e })) ∧
        (Completed s.db k → Completed db' k) := by
    intro hrow hdom
    refine ⟨h.quiet hrow ?_ hcalls, (Completed.congr hrow).mpr⟩
    change effectsOf k db'.log = _
    rw [hlog, effectsOf_append, hdom, List.append_nil]
  by_cases hk : call.key = k
  · subst hk
    rcases hpc with hp | ⟨cause, hp⟩ | hp <;>
      simp only [TxInv, hp] at htxinv
    · refine hkeep ?_ (by rw [htxinv.2]; rfl)
      rw [hrows, Db.view_of_tx htx, htxinv.1]
      rfl
    · obtain ⟨hopen, hdom, row, hrow, hst⟩ := htxinv
      have hold : ¬ Completed s.db call.key := hopen.not_completed
      refine ⟨⟨?_, fun _ => ?_⟩, fun hcomp => absurd hcomp hold⟩
      · rintro ⟨r₁, hr₁, hst₁⟩
        have hr₁ : db'.lookup call.key = some r₁ := hr₁
        rw [hrows, hrow, Option.some.injEq] at hr₁
        rw [← hr₁, hst] at hst₁
        simp at hst₁
      · change effectsOf call.key db'.log = []
        rw [hlog, hdom, List.append_nil]
        exact h.none hold
    · obtain ⟨hopen, hdom, hret, row, hrow, hst⟩ := htxinv
      have hold : ¬ Completed s.db call.key := hopen.not_completed
      have hnew : Completed db' call.key :=
        ⟨row, (hrows call.key).trans hrow, hst⟩
      refine ⟨⟨fun _ => ⟨c, { call with pc := .returned r e },
        set_calls_self s c _, rfl, hret, ⟨r, e, rfl⟩, ?_⟩,
        fun hcomp => absurd hnew hcomp⟩, fun _ => hnew⟩
      change effectsOf call.key db'.log = call.effects c
      rw [hlog, effectsOf_append, h.none hold, List.nil_append, hdom,
        effectsOf_effects]
  · refine hkeep (hb.commit_other hc hk hdb) ?_
    rcases hpc with hp | ⟨cause, hp⟩ | hp <;>
      simp only [TxInv, hp] at htxinv
    · rw [htxinv.2]
      rfl
    · rw [htxinv.2.1]
      rfl
    · rw [htxinv.2.1]
      exact effectsOf_effects_ne c hk

theorem keyInv_step {k : Key} {s t : Sys W} {a : Action W} (hb : Base s)
    (h : KeyInv k s) (hrem : ¬ Removes k s a) (hst : step s a = some t) :
    KeyInv k t ∧ (Completed s.db k → Completed t.db k) := by
  cases step_effected hb hst with
  | @started c call hnew _ _ =>
      refine ⟨h.quiet rfl rfl fun d call₁ r e hd _ => ?_, id⟩
      rw [set_calls_ne s _ (fun hdc => ?_)]
      · exact hd
      · subst hdc
        rw [hnew] at hd
        simp at hd
  | @moved c call call' db' hc hlive hq =>
      have hlog : effectsOf k db'.log = effectsOf k s.db.log := by rw [hq.log]
      refine ⟨h.quiet (hq.rows k) hlog fun d call₁ r e hd hpc => ?_,
        (Completed.congr (hq.rows k)).mpr⟩
      rw [set_calls_ne s _ (fun hdc => ?_)]
      · exact hd
      · subst hdc
        rw [hc, Option.some.injEq] at hd
        exact hlive r e (hd ▸ hpc)
  | committed hc hpc hdb => exact keyInv_commit hb h hc hpc hdb
  | dropped c => exact ⟨h.quiet rfl rfl fun _ _ _ _ hd _ => hd, id⟩
  | @deleted k' before db' n ha hdb =>
      obtain ⟨_, ⟨_, rfl, _⟩ | ⟨r, hr, hp, _, rfl⟩⟩ := Db.statementNow_eq hdb
      · exact ⟨h, id⟩
      · have hk : k ≠ k' := by
          rintro rfl
          exact hrem ⟨before, r, ha, hr, hp⟩
        have hrow : ({ s.db with rows := s.db.rows.erase k' } :
            Store W).lookup k = s.db.lookup k := by
          rw [Db.lookup_rows_erase, if_neg hk]
        exact ⟨h.quiet hrow rfl fun _ _ _ _ hd _ => hd,
          (Completed.congr hrow).mpr⟩

/-- Committed domain statements are never taken back. -/
theorem step_log {s t : Sys W} {a : Action W} (hb : Base s)
    (h : step s a = some t) : s.db.log <+: t.db.log := by
  cases step_effected hb h with
  | started => exact List.prefix_rfl
  | moved _ _ hq => exact hq.log ▸ List.prefix_rfl
  | committed _ _ hdb =>
      obtain ⟨tx, _, _, hlog, _, _⟩ := Db.commit_eq hdb
      exact ⟨tx.domain, hlog.symm⟩
  | dropped => exact List.prefix_rfl
  | deleted _ hdb =>
      obtain ⟨_, ⟨_, rfl, _⟩ | ⟨r, _, _, _, rfl⟩⟩ := Db.statementNow_eq hdb
      · exact List.prefix_rfl
      · exact List.prefix_rfl

/-- A handler only starts under the lock of a row that is not completed. -/
theorem startsHandler_fresh {k : Key} {s t : Sys W} {a : Action W}
    (hb : Base s) (h : step s a = some t) (hstart : StartsHandler k s a) :
    ¬ Completed s.db k := by
  obtain ⟨c, call, now, rfl, hc, rfl, hpc⟩ := hstart
  obtain ⟨call', hc', h⟩ := Option.bind_eq_some_iff.mp h
  rw [hc, Option.some.injEq] at hc'
  subst hc'
  obtain ⟨⟨db', call'⟩, hexec, _⟩ := Option.map_eq_some_iff.mp h
  rw [Call.exec.eq_def, hpc] at hexec
  obtain ⟨⟨db₁, e⟩, hsql, _⟩ := Option.map_eq_some_iff.mp hexec
  obtain ⟨db₂, hsave, _⟩ := Option.map_eq_some_iff.mp hsql
  obtain ⟨tx, htx, _⟩ := Db.savepoint_eq hsave
  have htxinv := (hb.calls c call hc).tx tx htx
  simp only [TxInv, hpc] at htxinv
  exact htxinv.1.not_completed

/-! ## Whole runs -/

/-- What a run on which retention does not remove the key's row carries. -/
structure Safe (k : Key) (s : Sys W) : Prop where
  base : Base s
  key : KeyInv k s

theorem safe_step {k : Key} (s : Sys W) (a : Action W) (t : Sys W)
    (h : Safe k s) (hrem : ¬ Removes k s a) (hst : step s a = some t) :
    Safe k t :=
  ⟨base_step h.base hst, (keyInv_step h.base h.key hrem hst).1⟩

theorem safe_init (k : Key) : Safe k (init W) :=
  ⟨base_init, keyInv_init k⟩

theorem run_log {k : Key} {as : List (Action W)} {s t : Sys W}
    (h : Safe k s) (hrem : ∀ p ∈ steps step s as, ¬ Removes k p.1 p.2)
    (hrun : run step s as = some t) : s.db.log <+: t.db.log := by
  have hinv : Safe k t ∧ s.db.log <+: t.db.log :=
    run_inv (I := fun u => Safe k u ∧ s.db.log <+: u.db.log)
      (fun u a v hu hC hst => ⟨safe_step u a v hu.1 hC hst,
        hu.2.trans (step_log hu.1.base hst)⟩)
      ⟨h, List.prefix_rfl⟩ hrem hrun
  exact hinv.2

/-- Once the row is committed as completed, every later state of the run has
it so, and no handler starts. -/
theorem run_completed {k : Key} {as : List (Action W)} {s : Sys W}
    (h : Safe k s) (hc : Completed s.db k)
    (hrem : ∀ p ∈ steps step s as, ¬ Removes k p.1 p.2) :
    ∀ p ∈ steps step s as, Completed p.1.db k ∧ Safe k p.1 :=
  steps_inv (I := fun u => Completed u.db k ∧ Safe k u)
    (fun u a v hu hC hst =>
      ⟨(keyInv_step hu.2.base hu.2.key hC hst).2 hu.1,
        safe_step u a v hu.2 hC hst⟩)
    ⟨hc, h⟩ hrem

/-- Exactly-once effect. In every run of any number of calls, as long as
retention leaves the key's row alone: the committed writes of the key come
from one handler; a completed row stands next to exactly the writes of one
handler that succeeded, and a row that is not completed next to none; what was
committed stays committed; and after a state with the completed row no handler
of the key starts. -/
theorem process_exactly_once (k : Key) {as : List (Action W)} {s : Sys W}
    (hrun : run step (init W) as = some s)
    (hrem : ∀ p ∈ steps step (init W) as, ¬ Removes k p.1 p.2) :
    (∀ e ∈ s.db.log, ∀ e' ∈ s.db.log, e.key = k → e'.key = k →
      e.call = e'.call) ∧
    (Completed s.db k → ∃ c call, s.calls c = some call ∧ call.key = k ∧
      call.handled = some none ∧ effectsOf k s.db.log = call.effects c) ∧
    (¬ Completed s.db k → effectsOf k s.db.log = []) ∧
    (∀ as₁ as₂ m, as = as₁ ++ as₂ → run step (init W) as₁ = some m →
      m.db.log <+: s.db.log ∧
      (Completed m.db k →
        ∀ p ∈ steps step m as₂, ¬ StartsHandler k p.1 p.2)) := by
  have hsafe : Safe k s := run_inv safe_step (safe_init k) hrem hrun
  refine ⟨?_, ?_, hsafe.key.none, ?_⟩
  · -- Every entry of the key is among the writes of the call that completed it.
    have hone : ∃ c, ∀ e ∈ s.db.log, e.key = k → e.call = c := by
      by_cases hc : Completed s.db k
      · obtain ⟨c, call, _, _, _, _, heff⟩ := hsafe.key.done hc
        refine ⟨c, fun e he hk => ?_⟩
        have hmem : e ∈ effectsOf k s.db.log :=
          List.mem_filter.mpr ⟨he, by simpa using hk⟩
        rw [heff] at hmem
        obtain ⟨w, _, rfl⟩ := List.mem_map.mp hmem
        rfl
      · refine ⟨0, fun e he hk => ?_⟩
        have hmem : e ∈ effectsOf k s.db.log :=
          List.mem_filter.mpr ⟨he, by simpa using hk⟩
        rw [hsafe.key.none hc] at hmem
        simp at hmem
    obtain ⟨c, hone⟩ := hone
    intro e he e' he' hk hk'
    rw [hone e he hk, hone e' he' hk']
  · intro hc
    obtain ⟨c, call, hcall, hkey, hret, _, heff⟩ := hsafe.key.done hc
    exact ⟨c, call, hcall, hkey, hret, heff⟩
  · rintro as₁ as₂ m rfl hm
    rw [steps_append hm] at hrem
    have hrem₁ := fun p hp => hrem p (List.mem_append_left _ hp)
    have hrem₂ := fun p hp => hrem p (List.mem_append_right _ hp)
    have hsafeM : Safe k m := run_inv safe_step (safe_init k) hrem₁ hm
    obtain ⟨m', hm', hrest⟩ := run_append.mp hrun
    rw [hm, Option.some.injEq] at hm'
    subst hm'
    refine ⟨run_log hsafeM hrem₂ hrest, fun hc p hp hstart => ?_⟩
    obtain ⟨hcomp, hsafeP⟩ := run_completed hsafeM hc hrem₂ p hp
    obtain ⟨pre, post, has, hpre⟩ := mem_steps hp
    rw [has] at hrest
    obtain ⟨u, hu, hrest⟩ := run_append.mp hrest
    rw [hpre, Option.some.injEq] at hu
    subst hu
    obtain ⟨v, hv, _⟩ := run_cons.mp hrest
    exact startsHandler_fresh hsafeP.base hv hstart hcomp

/-- Two calls race on one event. The first is refused by its handler after a
write, the second completes and loses the answer of its commit. -/
def raceRun : List (Action String) :=
  let key : Key := ⟨"users_projection", "event-1"⟩
  [.process 0 key "users" false, .process 1 key "users" false,
    .exec 0 5 none, .exec 1 6 none, .exec 0 7 none, .exec 0 7 none,
    .exec 0 7 none, .exec 0 7 none, .write 0 "insert user-1",
    .handled 0 (some (.new (bytes "upstream"))), .exec 0 8 none,
    .exec 0 8 none, .commit 0 .done, .exec 1 9 none, .exec 1 9 none,
    .exec 1 9 none, .exec 1 9 none, .write 1 "insert user-1",
    .handled 1 none, .exec 1 9 none, .exec 1 9 none,
    .commit 1 (.lost (.new (bytes "connection reset")))]

theorem process_exactly_once_race :
    ∃ s, run step (init String) raceRun = some s ∧
      ∀ e ∈ s.db.log, ∀ e' ∈ s.db.log,
        e.key = ⟨"users_projection", "event-1"⟩ →
        e'.key = ⟨"users_projection", "event-1"⟩ → e.call = e'.call := by
  have hsome : (run step (init String) raceRun).isSome = true := by decide
  obtain ⟨s, hs⟩ := Option.isSome_iff_exists.mp hsome
  refine ⟨s, hs, (process_exactly_once _ hs ?_).1⟩
  rintro p hp ⟨before, r, ha, _⟩
  obtain ⟨pre, post, has, _⟩ := mem_steps hp
  have hmem : Action.delete ⟨"users_projection", "event-1"⟩ before ∈ raceRun :=
    has ▸ ha ▸ by simp
  simp [raceRun] at hmem

end PlatformGo.Inbox
