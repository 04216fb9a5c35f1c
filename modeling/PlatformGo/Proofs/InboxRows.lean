import PlatformGo.Proofs.InboxOnce

/-!
# The life of an inbox row

`Process` counts an attempt twice: once in memory, from the row it locked, and
once in SQL, where `markProcessing` adds one to the column. The row also
carries a version that every update moves on, and a completion time. What ties
these together is that a call changes its row under one lock and commits it
once: from the row it locked to the row it commits there are exactly two
updates, and one of them is the attempt.

`RowInv` follows one transaction through its statements and says how far the
row it sees is from the committed one. The row the calls start from (`Read`)
is the committed row, or the pending row the call has inserted itself; a row
that was never committed before therefore starts at no attempt and version
one. `RowStep` is what the statements add up to for the committed table: a
step leaves the row of a key alone, records one handled attempt on it, or
removes it when it is completed. Everything the table promises over a run is
read off that.
-/

namespace PlatformGo.Inbox

open RowStore Lts

variable {W : Type}

/-! ## From the row a call reads to the row it commits -/

/-- The version of its row a call starts from: the committed one, or the
pending one it has inserted itself. -/
def Starts (o : Option Row) (r : Row) : Prop :=
  o = some r ∨ o = none ∧ ∃ actor now, r = pendingRow actor now

/-- The row `lock` found open, and the attempt the call counts in memory. -/
structure Read (attempts : Nat) (o : Option Row) (r : Row) : Prop where
  starts : Starts o r
  fresh : r.status ≠ .completed
  attempts : attempts = r.attempts + 1

/-- The row after `markProcessing`. -/
def Taken (attempts : Nat) (o : Option Row) (r : Row) : Prop :=
  ∃ r₀, Read attempts o r₀ ∧ r.attempts = attempts ∧
    r.version = r₀.version + 1 ∧ r.completedAt = r₀.completedAt

/-- The row after `markFailed` or `markCompleted`. -/
def Ended (attempts : Nat) (o : Option Row) (r : Row) : Prop :=
  ∃ r₀, Read attempts o r₀ ∧ r.attempts = attempts ∧
    r.version = r₀.version + 2 ∧
    (r.status = .failed ∧ r.completedAt = r₀.completedAt ∨
      r.status = .completed ∧ r.completedAt.isSome = true)

theorem Read.markProcessing {n : Nat} {o : Option Row} {r : Row}
    (h : Read n o r) (actor : String) (now : Time) :
    Taken n o (markProcessing actor now r) :=
  ⟨r, h, h.attempts.symm, rfl, rfl⟩

theorem Taken.markFailed {n : Nat} {o : Option Row} {r : Row}
    (h : Taken n o r) (actor : String) (cause : GoErr) (now : Time) :
    Ended n o (markFailed actor cause now r) := by
  obtain ⟨r₀, hread, hatt, hver, hcomp⟩ := h
  exact ⟨r₀, hread, hatt, congrArg (· + 1) hver, .inl ⟨rfl, hcomp⟩⟩

theorem Taken.markCompleted {n : Nat} {o : Option Row} {r : Row}
    (h : Taken n o r) (actor : String) (now : Time) :
    Ended n o (markCompleted actor now r) := by
  obtain ⟨r₀, hread, hatt, hver, _⟩ := h
  exact ⟨r₀, hread, hatt, congrArg (· + 1) hver, .inr ⟨rfl, rfl⟩⟩

/-- The call holds the lock of its row and sees a version of it that stands in
the given relation to the committed one. -/
def Sees (db : Store W) (c : Nat) (k : Key) (P : Option Row → Row → Prop) :
    Prop :=
  db.locks k = some c ∧ ∃ r, db.view c k = some r ∧ P (db.lookup k) r

section Sees

variable {db db' : Store W} {c : Nat} {k : Key} {P Q : Option Row → Row → Prop}

theorem Sees.kept (h : Sees db c k P) (hk : Db.Kept c db db') :
    Sees db' c k P := by
  obtain ⟨hlock, r, hview, hP⟩ := h
  refine ⟨hk.locks _ hlock, r, (hk.view hlock).trans hview, ?_⟩
  rw [hk.rows _ hlock]
  exact hP

/-- An update moves the version the call sees, not the committed one. -/
theorem Sees.put {f : Row → Row} {r : Row} (h : Sees db c k P)
    (tx : Tx Key Row (Effect W)) (hr : db.view c k = some r)
    (hPQ : ∀ o, P o r → Q o (f r)) : Sees (db.put c tx k (f r)) c k Q := by
  obtain ⟨_, r', hview, hP⟩ := h
  rw [hr, Option.some.injEq] at hview
  subst hview
  exact ⟨Db.lock_locks_self db c k, f r, Db.put_view_self db c tx k (f r),
    hPQ _ hP⟩

/-- Savepoints and domain statements do not touch the row. -/
theorem Sees.setTx {tx tx' : Tx Key Row (Effect W)} (h : Sees db c k P)
    (htx : db.txs c = some tx) (hw : tx'.writes = tx.writes) :
    Sees (db.setTx c (some tx')) c k P := by
  obtain ⟨hlock, r, hview, hP⟩ := h
  refine ⟨hlock, r, ?_, hP⟩
  rw [Db.view_of_tx (Db.setTx_txs_self db c _), hw, ← hview,
    Db.view_of_tx htx]
  rfl

end Sees

/-! ## One call -/

/-- What the transaction of a call has done to its row when the call has
reached a place. -/
def RowInv (db : Store W) (c : Nat) (call : Call W)
    (tx : Tx Key Row (Effect W)) : Prop :=
  match call.pc with
  | .begin | .insertPending | .unwind _ | .returned .. => True
  | .lock =>
      ∀ r, tx.writes.lookup call.key = some r →
        ∃ actor now, r = pendingRow actor now
  | .commitDuplicate =>
      Sees db c call.key fun o r => o = some r ∧ r.attempts = call.attempts
  | .markProcessing => Sees db c call.key (Read call.attempts)
  | .savepoint | .markFailed _ | .release | .markCompleted =>
      Sees db c call.key (Taken call.attempts)
  | .handler | .rollbackTo _ =>
      Sees db c call.key (Taken call.attempts) ∧
        ∃ ds, tx.saved = some (tx.writes, ds)
  | .commitFailed _ | .commit => Sees db c call.key (Ended call.attempts)

/-- The handler has returned by the places behind it, and not before. -/
def HandledInv (call : Call W) : Prop :=
  match call.pc with
  | .unwind _ | .returned .. => True
  | .rollbackTo _ | .markFailed _ | .commitFailed _ | .release
  | .markCompleted | .commit => call.handled.isSome = true
  | .begin | .insertPending | .lock | .commitDuplicate | .markProcessing
  | .savepoint | .handler => call.handled = none

structure RowsInv (db : Store W) (c : Nat) (call : Call W) : Prop where
  handled : HandledInv call
  tx : ∀ tx, db.txs c = some tx → RowInv db c call tx

theorem RowsInv.kept {db db' : Store W} {c : Nat} {call : Call W}
    (h : RowsInv db c call) (hk : Db.Kept c db db') : RowsInv db' c call := by
  refine ⟨h.handled, fun tx htx => ?_⟩
  rw [hk.tx] at htx
  have hinv := h.tx tx htx
  unfold RowInv at hinv ⊢
  split at hinv
  · trivial
  · trivial
  · trivial
  · trivial
  · exact hinv
  · exact hinv.kept hk
  · exact hinv.kept hk
  · exact hinv.kept hk
  · exact hinv.kept hk
  · exact hinv.kept hk
  · exact hinv.kept hk
  · exact ⟨hinv.1.kept hk, hinv.2⟩
  · exact ⟨hinv.1.kept hk, hinv.2⟩
  · exact hinv.kept hk
  · exact hinv.kept hk

theorem rowsInv_unwind (db : Store W) (c : Nat) (call : Call W) (e : GoErr) :
    RowsInv db c { call with pc := .unwind e } :=
  ⟨trivial, fun _ _ => trivial⟩

theorem rowsInv_returned (db : Store W) (c : Nat) (call : Call W) (r : Result)
    (e : Option GoErr) : RowsInv db c { call with pc := .returned r e } :=
  ⟨trivial, fun _ _ => trivial⟩

theorem rowsInv_of_tx {db : Store W} {c : Nat} {call : Call W}
    {tx : Tx Key Row (Effect W)} (hh : HandledInv call)
    (htx : db.txs c = some tx) (h : RowInv db c call tx) :
    RowsInv db c call := by
  refine ⟨hh, fun tx' htx' => ?_⟩
  rw [htx, Option.some.injEq] at htx'
  exact htx' ▸ h

/-! ## One statement -/

section Statements

variable {db db' : Store W} {c : Nat} {call call' : Call W}

theorem rows_insertPending {actor : String} {now : Time}
    (hinv : CallInv db c call) (hrow : RowsInv db c call)
    (hpc : call.pc = .insertPending)
    (h : db.insertIgnore c call.key (pendingRow actor now) = some db') :
    RowsInv db' c { call with pc := .lock } := by
  have hhandled := hrow.handled
  simp only [HandledInv, hpc] at hhandled
  obtain ⟨tx, htx, hcase⟩ := Db.insertIgnore_eq h
  have htxinv := hinv.tx tx htx
  simp only [TxInv, hpc] at htxinv
  rcases hcase with ⟨_, rfl⟩ | ⟨_, _, rfl⟩
  · refine rowsInv_of_tx hhandled htx fun r hr => ?_
    rw [htxinv.1] at hr
    simp at hr
  · refine rowsInv_of_tx hhandled (Db.put_txs_self db c tx call.key _)
      fun r hr => ⟨actor, now, ?_⟩
    simpa [htxinv.1] using hr.symm

/-- The row the lock returns is where the call starts from. A completed row is
the committed one, since the only row the transaction may have written is the
pending row it inserted. -/
theorem rows_lock {o : Option Row} (hinv : CallInv db c call)
    (hrow : RowsInv db c call) (hpc : call.pc = .lock)
    (h : db.selectForUpdate c call.key = some (db', o)) :
    RowsInv db' c (call.locked o) := by
  have hhandled := hrow.handled
  simp only [HandledInv, hpc] at hhandled
  obtain ⟨tx, htx, _, hview, hcase⟩ := Db.selectForUpdate_eq h
  have htxinv := hinv.tx tx htx
  have hpend := hrow.tx tx htx
  simp only [TxInv, hpc] at htxinv
  simp only [RowInv, hpc] at hpend
  rcases hcase with ⟨rfl, rfl⟩ | ⟨⟨r, rfl⟩, rfl⟩
  · exact rowsInv_unwind _ c call _
  · have hstarts : Starts (db.lookup call.key) r := by
      rw [Db.view_of_tx htx] at hview
      rcases htxinv.2.2 with hw | ⟨_, hnone, r', hw, _⟩
      · rw [hw, List.lookup_nil, Option.none_or] at hview
        exact .inl hview.symm
      · rw [hw, List.lookup_cons_self, Option.some_or,
          Option.some.injEq] at hview
        refine .inr ⟨hnone, hpend r ?_⟩
        rw [hw, List.lookup_cons_self, hview]
    have hlocked : (db.lock c call.key).locks call.key = some c :=
      Db.lock_locks_self db c call.key
    by_cases hst : r.status = .completed
    · have hcall : call.locked (some r) =
          { call with attempts := r.attempts, pc := .commitDuplicate } := by
        rw [Call.locked, if_pos hst]
      rw [hcall]
      refine rowsInv_of_tx hhandled htx ⟨hlocked, r, hview.symm, ?_, rfl⟩
      rcases hstarts with hr | ⟨_, actor, now, rfl⟩
      · exact hr
      · simp [pendingRow] at hst
    · have hcall : call.locked (some r) =
          { call with attempts := r.attempts + 1, pc := .markProcessing } := by
        rw [Call.locked, if_neg hst]
      rw [hcall]
      exact rowsInv_of_tx hhandled htx
        ⟨hlocked, r, hview.symm, hstarts, hst, rfl⟩

theorem rows_savepoint (hrow : RowsInv db c call) (hpc : call.pc = .savepoint)
    (h : db.savepoint c = some db') :
    RowsInv db' c { call with pc := .handler } := by
  have hhandled := hrow.handled
  simp only [HandledInv, hpc] at hhandled
  obtain ⟨tx, htx, rfl⟩ := Db.savepoint_eq h
  have hsees := hrow.tx tx htx
  simp only [RowInv, hpc] at hsees
  exact rowsInv_of_tx hhandled (Db.setTx_txs_self db c _)
    ⟨hsees.setTx htx rfl, tx.domain, rfl⟩

/-- Rolling back to the savepoint brings back the row `markProcessing` left,
not the one before it. -/
theorem rows_rollbackTo {cause : GoErr} (hrow : RowsInv db c call)
    (hpc : call.pc = .rollbackTo cause) (h : db.rollbackTo c = some db') :
    RowsInv db' c { call with pc := .markFailed cause } := by
  have hhandled := hrow.handled
  simp only [HandledInv, hpc] at hhandled
  obtain ⟨tx, saved, htx, hsaved, rfl⟩ := Db.rollbackTo_eq h
  have hsees := hrow.tx tx htx
  simp only [RowInv, hpc] at hsees
  obtain ⟨hsees, ds, hds⟩ := hsees
  rw [hsaved, Option.some.injEq] at hds
  subst hds
  exact rowsInv_of_tx hhandled (Db.setTx_txs_self db c _)
    (hsees.setTx htx rfl)

theorem rows_release (hrow : RowsInv db c call) (hpc : call.pc = .release)
    (h : db.release c = some db') :
    RowsInv db' c { call with pc := .markCompleted } := by
  have hhandled := hrow.handled
  simp only [HandledInv, hpc] at hhandled
  obtain ⟨tx, htx, rfl⟩ := Db.release_eq h
  have hsees := hrow.tx tx htx
  simp only [RowInv, hpc] at hsees
  exact rowsInv_of_tx hhandled (Db.setTx_txs_self db c _)
    (hsees.setTx htx rfl)

theorem rows_write {w : W} (hrow : RowsInv db c call)
    (hpc : call.pc = .handler)
    (h : db.exec c ⟨c, call.key, w⟩ = some db') :
    RowsInv db' c { call with issued := call.issued ++ [w] } := by
  have hhandled := hrow.handled
  simp only [HandledInv, hpc] at hhandled
  obtain ⟨tx, htx, rfl⟩ := Db.exec_eq h
  have hsees := hrow.tx tx htx
  simp only [RowInv, hpc] at hsees
  refine rowsInv_of_tx ?_ (Db.setTx_txs_self db c _) ?_
  · simpa only [HandledInv, hpc] using hhandled
  · simp only [RowInv, hpc]
    exact ⟨hsees.1.setTx htx rfl, hsees.2⟩

theorem rows_handled {err : Option GoErr} (hrow : RowsInv db c call)
    (hpc : call.pc = .handler) :
    RowsInv db c { call with
      handled := some err
      pc := match err with
        | none => .release
        | some cause => .rollbackTo cause } := by
  refine ⟨?_, fun tx htx => ?_⟩
  · cases err <;> rfl
  · have hsees := hrow.tx tx htx
    simp only [RowInv, hpc] at hsees
    cases err with
    | none => exact hsees.1
    | some cause => exact hsees

theorem rows_marked {f : Row → Row} {next : Pc}
    {tx : Tx Key Row (Effect W)} {r : Row} (hrow : RowsInv db c call)
    (hf : Marks call f next) (htx : db.txs c = some tx)
    (hr : db.view c call.key = some r) :
    RowsInv (db.put c tx call.key (f r)) c { call with pc := next } := by
  have htxs := Db.put_txs_self db c tx call.key (f r)
  have hhandled := hrow.handled
  have hsees := hrow.tx tx htx
  cases hf with
  | processing hpc =>
      simp only [HandledInv, RowInv, hpc] at hhandled hsees
      exact rowsInv_of_tx hhandled htxs
        (hsees.put tx hr fun o hread => hread.markProcessing _ _)
  | failed hpc =>
      simp only [HandledInv, RowInv, hpc] at hhandled hsees
      exact rowsInv_of_tx hhandled htxs
        (hsees.put tx hr fun o htaken => htaken.markFailed _ _ _)
  | completed hpc =>
      simp only [HandledInv, RowInv, hpc] at hhandled hsees
      exact rowsInv_of_tx hhandled htxs
        (hsees.put tx hr fun o htaken => htaken.markCompleted _ _)

theorem exec_rows {now : Time} {fault : Option Fault}
    (hinv : CallInv db c call) (hrow : RowsInv db c call)
    (h : call.exec c db now fault = some (db', call')) :
    RowsInv db' c call' := by
  cases exec_executes h with
  | failed e => exact rowsInv_unwind db c call e
  | notBegun e => exact rowsInv_returned db c call _ _
  | begun hpc hdb =>
      have hhandled := hrow.handled
      simp only [HandledInv, hpc] at hhandled
      exact ⟨hhandled, fun _ _ => trivial⟩
  | inserted hpc hdb => exact rows_insertPending hinv hrow hpc hdb
  | locked hpc hdb => exact rows_lock hinv hrow hpc hdb
  | saved hpc hdb => exact rows_savepoint hrow hpc hdb
  | rolledBackTo hpc hdb => exact rows_rollbackTo hrow hpc hdb
  | released hpc hdb => exact rows_release hrow hpc hdb
  | notMarked e _ => exact rowsInv_unwind _ c call e
  | marked hf htx hr _ => exact rows_marked hrow hf htx hr
  | unwound => exact rowsInv_returned _ c call _ _

end Statements

/-! ## One step of the system -/

/-- The step commits the transaction of a call on the key that has invoked its
handler. -/
def commitsHandler (k : Key) (s : Sys W) : Action W → Bool
  | .commit c outcome =>
      applied outcome &&
        (s.calls c).any fun call => call.key = k && call.handled.isSome
  | _ => false

/-- What a step can do to the committed row of a key. -/
inductive RowStep (k : Key) (s : Sys W) (a : Action W) : Option Row → Prop
  | same (h : commitsHandler k s a = false) : RowStep k s a (s.db.lookup k)
  | attempted {n : Nat} {r : Row} (h : commitsHandler k s a = true)
      (hr : Ended n (s.db.lookup k) r) : RowStep k s a (some r)
  | removed (h : commitsHandler k s a = false) (hr : Removes k s a) :
      RowStep k s a none

theorem RowStep.of_eq {k : Key} {s : Sys W} {a : Action W} {o : Option Row}
    (h : commitsHandler k s a = false) (ho : o = s.db.lookup k) :
    RowStep k s a o :=
  ho ▸ .same h

structure Live (s : Sys W) : Prop where
  base : Base s
  rows : ∀ c call, s.calls c = some call → RowsInv s.db c call

theorem live_init : Live (init W) :=
  ⟨base_init, fun c call h => by simp [init] at h⟩

/-- The calls a step does not move keep their invariant. -/
theorem rows_set {s : Sys W} {k : Key} {c : Nat} {call' : Call W}
    {db' : Store W}
    (h : ∀ d call, s.calls d = some call → RowsInv s.db d call)
    (hown : Db.StepOf c k s.db db') (hinv : RowsInv db' c call') :
    ∀ d call, (s.set c (db', call')).calls d = some call →
      RowsInv db' d call := by
  intro d call hd
  by_cases hdc : d = c
  · subst hdc
    rw [set_calls_self, Option.some.injEq] at hd
    exact hd ▸ hinv
  · rw [set_calls_ne s _ hdc] at hd
    exact (h d call hd).kept (hown.kept d hdc)

/-- The three commits, seen from one row. The duplicate path commits the row
as it was; the other two commit the attempt of the handler that ran. -/
theorem commit_row {k : Key} {s : Sys W} (h : Live s) {c : Nat}
    {call : Call W} {db' : Store W} {outcome : CommitOutcome}
    (hout : applied outcome = true) (hc : s.calls c = some call)
    (hpc : Commits call.pc) (hdb : s.db.commit c = some db') :
    RowStep k s (.commit c outcome) (db'.lookup k) := by
  have hcount : commitsHandler k s (.commit c outcome) =
      (decide (call.key = k) && call.handled.isSome) := by
    simp [commitsHandler, hout, hc]
  by_cases hk : call.key = k
  · subst hk
    obtain ⟨tx, htx, hrows, _⟩ := Db.commit_eq hdb
    have hhandled := (h.rows c call hc).handled
    have hsees := (h.rows c call hc).tx tx htx
    rw [hrows]
    rcases hpc with hp | ⟨cause, hp⟩ | hp <;>
      simp only [RowInv, HandledInv, hp] at hsees hhandled <;>
      obtain ⟨_, r, hview, hr⟩ := hsees <;> rw [hview]
    · exact .of_eq (by simp [hcount, hhandled]) hr.1.symm
    · exact .attempted (by simp [hcount, hhandled]) hr
    · exact .attempted (by simp [hcount, hhandled]) hr
  · exact .of_eq (by simp [hcount, hk]) (h.base.commit_other hc hk hdb)

theorem step_rows {s t : Sys W} {a : Action W} (h : Live s)
    (hst : step s a = some t) :
    (∀ c call, t.calls c = some call → RowsInv t.db c call) ∧
      ∀ k, RowStep k s a (t.db.lookup k) := by
  cases a with
  | process c key actor handlerNil =>
      simp only [step] at hst
      have hown : Db.StepOf c key s.db s.db := Db.StepOf.refl h.base.wf
      split at hst
      · simp at hst
      · rw [Option.some.injEq] at hst
        subst hst
        exact ⟨rows_set h.rows hown ⟨trivial, fun _ _ => trivial⟩,
          fun k => .same rfl⟩
      · rw [Option.some.injEq] at hst
        subst hst
        exact ⟨rows_set h.rows hown ⟨rfl, fun _ _ => trivial⟩,
          fun k => .same rfl⟩
  | exec c now fault =>
      obtain ⟨call, hc, hst⟩ := Option.bind_eq_some_iff.mp hst
      obtain ⟨⟨db', call'⟩, hexec, rfl⟩ := Option.map_eq_some_iff.mp hst
      have hq := exec_quiet h.base.wf (h.base.calls c call hc) hexec
      exact ⟨rows_set h.rows hq.own
        (exec_rows (h.base.calls c call hc) (h.rows c call hc) hexec),
        fun k => .of_eq rfl (hq.rows k)⟩
  | write c w =>
      obtain ⟨call, hc, hst⟩ := Option.bind_eq_some_iff.mp hst
      split at hst
      · rename_i hpc
        obtain ⟨db', hdb, rfl⟩ := Option.map_eq_some_iff.mp hst
        have hq := write_quiet h.base.wf (h.base.calls c call hc) hpc hdb
        exact ⟨rows_set h.rows hq.own (rows_write (h.rows c call hc) hpc hdb),
          fun k => .of_eq rfl (hq.rows k)⟩
      · simp at hst
  | handled c err =>
      obtain ⟨call, hc, hst⟩ := Option.bind_eq_some_iff.mp hst
      split at hst
      · rename_i hpc
        rw [Option.some.injEq] at hst
        subst hst
        exact ⟨rows_set (k := call.key) h.rows (Db.StepOf.refl h.base.wf)
          (rows_handled (h.rows c call hc) hpc), fun k => .same rfl⟩
      · simp at hst
  | commit c outcome =>
      obtain ⟨call, hc, hst⟩ := Option.bind_eq_some_iff.mp hst
      obtain ⟨⟨db', call'⟩, hcommit, rfl⟩ := Option.map_eq_some_iff.mp hst
      obtain ⟨hpc, ⟨r, e, rfl⟩, ⟨hout, hdb⟩ | ⟨hout, rfl⟩⟩ :=
        commitTx_eq hcommit
      · exact ⟨rows_set (k := call.key) h.rows
          (Db.stepOf_commit h.base.wf hdb) (rowsInv_returned _ c call r e),
          fun k => commit_row h hout hc hpc hdb⟩
      · exact ⟨rows_set (k := call.key) h.rows
          (Db.stepOf_rollback h.base.wf) (rowsInv_returned _ c call r e),
          fun k => .same (by simp [commitsHandler, hout])⟩
  | drop c =>
      simp only [step, Option.some.injEq] at hst
      subst hst
      refine ⟨fun d call hd => ?_, fun k => .same rfl⟩
      by_cases hdc : d = c
      · subst hdc
        refine ⟨(h.rows d call hd).handled, fun tx htx => ?_⟩
        simp at htx
      · exact (h.rows d call hd).kept (Db.kept_rollback s.db hdc)
  | delete key before =>
      obtain ⟨⟨db', n⟩, hdb, rfl⟩ := Option.map_eq_some_iff.mp hst
      refine ⟨fun d call hd => (h.rows d call hd).kept
        (Db.kept_deleteNow hdb), fun k => ?_⟩
      obtain ⟨_, ⟨_, rfl, _⟩ | ⟨r, hr, hp, _, rfl⟩⟩ := Db.statementNow_eq hdb
      · exact .same rfl
      · have hlook : ({ s.db with rows := s.db.rows.erase key } :
            Store W).lookup k = if k = key then none else s.db.lookup k :=
          Db.lookup_rows_erase s.db key k
        change RowStep k s _ (({ s.db with rows := s.db.rows.erase key } :
            Store W).lookup k)
        rw [hlook]
        split
        · rename_i hk
          subst hk
          exact .removed rfl ⟨before, r, rfl, hr, hp⟩
        · exact .same rfl

theorem live_step (s : Sys W) (a : Action W) (t : Sys W) (h : Live s)
    (hst : step s a = some t) : Live t :=
  ⟨base_step h.base hst, (step_rows h hst).1⟩

theorem live_run {as : List (Action W)} {s : Sys W}
    (hrun : run step (init W) as = some s) : Live s :=
  run_inv_of live_step live_init hrun

/-! ## The committed row of a key -/

/-- What every committed row satisfies. -/
structure RowOk (r : Row) : Prop where
  status : r.status = .failed ∨ r.status = .completed
  attempts : 1 ≤ r.attempts
  version : r.version = 1 + 2 * r.attempts
  completedAt : r.completedAt.isSome = true ↔ r.status = .completed

/-- The attempts recorded for a key, none if it has no row. -/
def attemptsOf (o : Option Row) : Nat :=
  o.elim 0 Row.attempts

theorem Ended.attempts_eq {n : Nat} {o : Option Row} {r : Row}
    (h : Ended n o r) : r.attempts = attemptsOf o + 1 ∧ r.attempts = n := by
  obtain ⟨r₀, hread, hatt, _⟩ := h
  refine ⟨?_, hatt⟩
  rw [hatt, hread.attempts]
  rcases hread.starts with rfl | ⟨rfl, actor, now, rfl⟩
  · rfl
  · rfl

/-- The row a call starts from is one attempt and two versions behind the one
it commits, and an open row has no completion time. -/
theorem Ended.rowOk {n : Nat} {o : Option Row} {r : Row} (h : Ended n o r)
    (ho : ∀ r₀, o = some r₀ → RowOk r₀) : RowOk r := by
  obtain ⟨r₀, hread, hatt, hver, hend⟩ := h
  have hstart : r₀.version = 1 + 2 * r₀.attempts ∧ r₀.completedAt = none := by
    rcases hread.starts with hr | ⟨_, actor, now, rfl⟩
    · have hok := ho r₀ hr
      refine ⟨hok.version, Option.not_isSome_iff_eq_none.mp fun hsome => ?_⟩
      exact hread.fresh (hok.completedAt.mp hsome)
    · exact ⟨rfl, rfl⟩
  have hcount := hread.attempts
  refine ⟨hend.imp And.left And.left, by omega, by omega, ?_⟩
  rcases hend with ⟨hst, hcomp⟩ | ⟨hst, hcomp⟩
  · simp [hst, hcomp, hstart.2]
  · simp [hst, hcomp]

/-- A completed row admits no further attempt. -/
theorem Ended.old_open {n : Nat} {r₀ r : Row} (h : Ended n (some r₀) r) :
    r₀.status ≠ .completed := by
  obtain ⟨r₁, hread, _⟩ := h
  rcases hread.starts with hr | ⟨hr, _⟩
  · rw [Option.some.injEq] at hr
    exact hr ▸ hread.fresh
  · simp at hr

structure Rows (s : Sys W) : Prop where
  live : Live s
  ok : ∀ k r, s.db.lookup k = some r → RowOk r

theorem rows_step (s : Sys W) (a : Action W) (t : Sys W) (h : Rows s)
    (hst : step s a = some t) : Rows t := by
  refine ⟨live_step s a t h.live hst, fun k r hr => ?_⟩
  have hrow := (step_rows h.live hst).2 k
  generalize t.db.lookup k = o at hr hrow
  cases hrow with
  | same => exact h.ok k r hr
  | attempted _ hend =>
      rw [Option.some.injEq] at hr
      exact hr ▸ hend.rowOk (h.ok k)
  | removed => simp at hr

theorem rows_run {as : List (Action W)} {s : Sys W}
    (hrun : run step (init W) as = some s) : Rows s :=
  run_inv_of rows_step
    ⟨live_init, fun k r hr => by simp [init, Db.empty, Db.lookup] at hr⟩ hrun

/-- A step that does not remove the row adds the attempt it commits. -/
theorem attempts_step {k : Key} {s t : Sys W} {a : Action W} (h : Live s)
    (hrem : ¬ Removes k s a) (hst : step s a = some t) :
    attemptsOf (t.db.lookup k) =
      attemptsOf (s.db.lookup k) + (commitsHandler k s a).toNat := by
  have hrow := (step_rows h hst).2 k
  generalize t.db.lookup k = o at hrow
  cases hrow with
  | same hno => rw [hno]; rfl
  | attempted hyes hend => rw [hyes]; exact hend.attempts_eq.1
  | removed _ hr => exact absurd hr hrem

theorem attempts_run {k : Key} {as : List (Action W)} {s t : Sys W}
    (h : Live s) (hrem : ∀ p ∈ steps step s as, ¬ Removes k p.1 p.2)
    (hrun : run step s as = some t) :
    attemptsOf (t.db.lookup k) = attemptsOf (s.db.lookup k) +
      (steps step s as).countP fun p => commitsHandler k p.1 p.2 := by
  induction as generalizing s with
  | nil =>
      rw [run_nil, Option.some.injEq] at hrun
      subst hrun
      rfl
  | cons a as ih =>
      obtain ⟨m, hm, hrest⟩ := run_cons.mp hrun
      rw [steps_cons hm] at hrem ⊢
      have hone := attempts_step h (hrem (s, a) (by simp)) hm
      have hmany := ih (live_step s a m h hm)
        (fun p hp => hrem p (by simp [hp])) hrest
      rw [List.countP_cons, hmany, hone]
      cases commitsHandler k s a with
      | false => simp
      | true =>
          simp only [Bool.toNat_true, if_pos]
          omega

/-- The row later in the life of a row: counters have not gone back, and a
completed row is still the same. -/
structure Row.Ages (r r' : Row) : Prop where
  attempts : r.attempts ≤ r'.attempts
  version : r.version ≤ r'.version
  final : r.status = .completed → r' = r

theorem Row.Ages.refl (r : Row) : r.Ages r :=
  ⟨Nat.le_refl _, Nat.le_refl _, fun _ => rfl⟩

theorem Row.Ages.trans {a b c : Row} (h₁ : a.Ages b) (h₂ : b.Ages c) :
    a.Ages c := by
  refine ⟨Nat.le_trans h₁.attempts h₂.attempts,
    Nat.le_trans h₁.version h₂.version, fun hst => ?_⟩
  have hab := h₁.final hst
  rw [h₂.final (hab ▸ hst), hab]

theorem Ended.ages {n : Nat} {r₀ r : Row} (h : Ended n (some r₀) r) :
    r₀.Ages r := by
  have hopen := h.old_open
  have hatt := h.attempts_eq.1
  obtain ⟨r₁, hread, _, hver, _⟩ := h
  rcases hread.starts with hr | ⟨hr, _⟩
  · rw [Option.some.injEq] at hr
    subst hr
    refine ⟨?_, by omega, fun hst => absurd hst hopen⟩
    rw [hatt]
    exact Nat.le_succ _
  · simp at hr

theorem ages_step {k : Key} {s t : Sys W} {a : Action W} {r : Row}
    (h : Live s) (hrem : ¬ Removes k s a) (hst : step s a = some t)
    (hr : s.db.lookup k = some r) :
    ∃ r', t.db.lookup k = some r' ∧ r.Ages r' := by
  have hrow := (step_rows h hst).2 k
  generalize t.db.lookup k = o at hrow
  cases hrow with
  | same => exact ⟨r, hr, .refl r⟩
  | @attempted n r' _ hend => exact ⟨r', rfl, (hr ▸ hend).ages⟩
  | removed _ hr => exact absurd hr hrem

theorem ages_run {k : Key} {as : List (Action W)} {s t : Sys W} {r : Row}
    (h : Live s) (hrem : ∀ p ∈ steps step s as, ¬ Removes k p.1 p.2)
    (hrun : run step s as = some t) (hr : s.db.lookup k = some r) :
    ∃ r', t.db.lookup k = some r' ∧ r.Ages r' := by
  have hinv : Live t ∧ ∃ r', t.db.lookup k = some r' ∧ r.Ages r' :=
    run_inv (I := fun u => Live u ∧ ∃ r', u.db.lookup k = some r' ∧ r.Ages r')
      (fun u a v hu hC hst => by
        obtain ⟨hlive, r₁, hr₁, hages⟩ := hu
        obtain ⟨r₂, hr₂, hnext⟩ := ages_step hlive hC hst hr₁
        exact ⟨live_step u a v hlive hst, r₂, hr₂, hages.trans hnext⟩)
      ⟨h, r, hr, .refl r⟩ hrem hrun
  exact hinv.2

/-- The later part of a run that starts in a state without a row for the key
and does not remove one: whatever row the run ends with was created in it. -/
def Since (k : Key) (as : List (Action W)) (m : Sys W)
    (post : List (Action W)) : Prop :=
  ∃ pre, as = pre ++ post ∧ run step (init W) pre = some m ∧
    m.db.lookup k = none ∧ ∀ p ∈ steps step m post, ¬ Removes k p.1 p.2

theorem removes_lookup {k : Key} {s t : Sys W} {a : Action W}
    (h : Removes k s a) (hst : step s a = some t) : t.db.lookup k = none := by
  obtain ⟨before, r, rfl, hr, hp⟩ := h
  obtain ⟨⟨db', n⟩, hdb, rfl⟩ := Option.map_eq_some_iff.mp hst
  obtain ⟨_, ⟨_, _, hno⟩ | ⟨r', _, _, _, rfl⟩⟩ := Db.statementNow_eq hdb
  · rw [hno r hr] at hp
    simp at hp
  · have hlook := Db.lookup_rows_erase s.db k k
    rwa [if_pos rfl] at hlook

/-- Every run has such a part: it starts after the last removal of the row, or
at the beginning. -/
theorem exists_since (k : Key) {as : List (Action W)} {s : Sys W}
    (hrun : run step (init W) as = some s) : ∃ m post, Since k as m post := by
  refine run_history (P := fun as _ => ∃ m post, Since k as m post)
    ⟨init W, [], [], rfl, rfl, rfl, by simp⟩ ?_ hrun
  intro as u a v hu ih hst
  by_cases hrem : Removes k u a
  · exact ⟨v, [], as ++ [a], by simp,
      run_append.mpr ⟨u, hu, run_cons.mpr ⟨v, hst, rfl⟩⟩,
      removes_lookup hrem hst, by simp⟩
  · obtain ⟨m, post, pre, rfl, hpre, hnone, hkeep⟩ := ih
    obtain ⟨m', hm', hpost⟩ := run_append.mp hu
    rw [hpre, Option.some.injEq] at hm'
    subst hm'
    refine ⟨m, post ++ [a], pre, by simp, hpre, hnone, fun p hp => ?_⟩
    rw [steps_append hpost, steps_cons hst] at hp
    rcases List.mem_append.mp hp with hp | hp
    · exact hkeep p hp
    · rw [steps_nil, List.mem_singleton] at hp
      exact hp ▸ hrem

/-- A commit that succeeds answers with the attempts of the row it leaves. -/
theorem commit_answer {s t : Sys W} {c : Nat} (h : Live s)
    (hst : step s (.commit c .done) = some t) :
    ∃ call result err r, s.calls c = some call ∧
      t.calls c = some { call with pc := .returned result err } ∧
      t.db.lookup call.key = some r ∧ result.attempts = r.attempts := by
  obtain ⟨call, hc, hst⟩ := Option.bind_eq_some_iff.mp hst
  obtain ⟨⟨db', call'⟩, hcommit, rfl⟩ := Option.map_eq_some_iff.mp hst
  obtain ⟨a, ha, hcommit⟩ := Option.bind_eq_some_iff.mp hcommit
  obtain ⟨db₁, hdb, heq⟩ := Option.map_eq_some_iff.mp hcommit
  rw [Prod.mk.injEq] at heq
  obtain ⟨rfl, rfl⟩ := heq
  obtain ⟨tx, htx, hrows, _⟩ := Db.commit_eq hdb
  have hsees := (h.rows c call hc).tx tx htx
  -- Each of the three answers carries the counter the call kept in memory.
  have hcount : a.1.attempts = call.attempts ∧
      ∃ r, s.db.view c call.key = some r ∧ r.attempts = call.attempts := by
    rcases answer_commits ha with hp | ⟨cause, hp⟩ | hp <;>
      simp only [RowInv, Call.answer, hp, Option.some.injEq] at hsees ha <;>
      subst ha <;> obtain ⟨_, r, hview, hr⟩ := hsees
    · exact ⟨rfl, r, hview, hr.2⟩
    · exact ⟨rfl, r, hview, hr.attempts_eq.2⟩
    · exact ⟨rfl, r, hview, hr.attempts_eq.2⟩
  obtain ⟨hres, r, hview, hr⟩ := hcount
  exact ⟨call, a.1, a.2, r, hc, set_calls_self s c _,
    (hrows call.key).trans hview, hres.trans hr.symm⟩

/-- The row lifecycle, in every state any interleaving of calls and deletions
leads to. A committed row is failed or completed, with at least one attempt,
two versions for each of them over the first, and a completion time exactly
when it is completed; its attempts are the handler invocations committed for
its key since it was created. From there on, until retention removes it, its
attempts and version do not go back and a completed row does not change. And a
`Process` call whose commit succeeds returns the attempts of the row it
committed. -/
theorem row_lifecycle {as : List (Action W)} {s : Sys W}
    (hrun : run step (init W) as = some s) :
    (∀ k r, s.db.lookup k = some r →
      (r.status = .failed ∨ r.status = .completed) ∧ 1 ≤ r.attempts ∧
      r.version = 1 + 2 * r.attempts ∧
      (r.completedAt.isSome = true ↔ r.status = .completed) ∧
      (∃ m post, Since k as m post) ∧
      ∀ m post, Since k as m post → r.attempts =
        (steps step m post).countP fun p => commitsHandler k p.1 p.2) ∧
    (∀ k r bs t, s.db.lookup k = some r → run step s bs = some t →
      (∀ p ∈ steps step s bs, ¬ Removes k p.1 p.2) →
      ∃ r', t.db.lookup k = some r' ∧ r.attempts ≤ r'.attempts ∧
        r.version ≤ r'.version ∧ (r.status = .completed → r' = r)) ∧
    (∀ c t, step s (.commit c .done) = some t →
      ∃ call result err r, s.calls c = some call ∧
        t.calls c = some { call with pc := .returned result err } ∧
        t.db.lookup call.key = some r ∧ result.attempts = r.attempts) := by
  have hrows := rows_run hrun
  refine ⟨fun k r hr => ?_, fun k r bs t hr hbs hrem => ?_,
    fun c t hst => commit_answer hrows.live hst⟩
  · have hok := hrows.ok k r hr
    refine ⟨hok.status, hok.attempts, hok.version, hok.completedAt,
      exists_since k hrun, ?_⟩
    rintro m post ⟨pre, rfl, hpre, hnone, hrem⟩
    obtain ⟨m', hm', hpost⟩ := run_append.mp hrun
    rw [hpre, Option.some.injEq] at hm'
    subst hm'
    have hcount := attempts_run (live_run hpre) hrem hpost
    rw [hr, hnone] at hcount
    exact hcount.trans (Nat.zero_add _)
  · obtain ⟨r', hr', hages⟩ := ages_run hrows.live hrem hbs hr
    exact ⟨r', hr', hages.attempts, hages.version, hages.final⟩

/-- After the race the row is completed at its second attempt: the refused
attempt of the first call was committed too. -/
theorem row_lifecycle_race :
    ∃ s r, run step (init String) raceRun = some s ∧
      s.db.lookup ⟨"users_projection", "event-1"⟩ = some r ∧
      r.attempts = 2 ∧ r.version = 1 + 2 * r.attempts ∧
      (r.completedAt.isSome = true ↔ r.status = .completed) := by
  have hsome : ((run step (init String) raceRun).bind fun s =>
      (s.db.lookup ⟨"users_projection", "event-1"⟩).map (·.attempts)) =
        some 2 := by decide
  obtain ⟨s, hs, hlook⟩ := Option.bind_eq_some_iff.mp hsome
  obtain ⟨r, hr, hatt⟩ := Option.map_eq_some_iff.mp hlook
  obtain ⟨_, _, hver, hcomp, _⟩ := (row_lifecycle hs).1 _ r hr
  exact ⟨s, r, hs, hr, hatt, hver, hcomp⟩

end PlatformGo.Inbox
