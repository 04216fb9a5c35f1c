import PlatformGo.Proofs.InboxOnce

/-!
# What a step of the inbox shows

Whoever reads the domain tables and the inbox rows of one database sees one of
three things happen in a step: nothing, the writes of one handler together
with the row of its event turning completed, or a completed row going away.
`Seen` is that reading, and it needs no condition on the run: what retention
does is one of the cases.

The other half is what a caller of `Process` may conclude from a nil error.
`Vouches` are the places from which a call can only come to answer nil, and
`step_vouches` says that a call gets there only with the row of its event
completed.
-/

namespace PlatformGo.Inbox

open RowStore

variable {W : Type}

inductive Seen (s : Sys W) (a : Action W) (t : Sys W) : Prop
  | nothing (hlog : t.db.log = s.db.log)
      (hrows : ∀ k, Completed t.db k ↔ Completed s.db k)
  | applied {c : Nat} {call : Call W} {outcome : CommitOutcome}
      (ha : a = .commit c outcome) (hc : s.calls c = some call)
      (hfresh : ¬ Completed s.db call.key)
      (hdone : Completed t.db call.key)
      (hothers : ∀ k, k ≠ call.key → (Completed t.db k ↔ Completed s.db k))
      (hlog : t.db.log = s.db.log ++ call.effects c)
  | forgotten {k : Key} {before : Time} (ha : a = .delete k before)
      (hwas : Completed s.db k) (hgone : ¬ Completed t.db k)
      (hothers : ∀ k', k' ≠ k → (Completed t.db k' ↔ Completed s.db k'))
      (hlog : t.db.log = s.db.log)

theorem Quiet.seen {s : Sys W} {a : Action W} {c : Nat} {call call' : Call W}
    {db' : Store W} (h : Quiet c call s.db db' call') :
    Seen s a (s.set c (db', call')) :=
  .nothing h.log fun k => Completed.congr (h.rows k)

/-- A commit shows the writes of its handler, or nothing. -/
theorem commit_seen {s : Sys W} (hb : Base s) {c : Nat} {call call' : Call W}
    {db' : Store W} {outcome : CommitOutcome} (hc : s.calls c = some call)
    (hpc : Commits call.pc) (hdb : s.db.commit c = some db') :
    Seen s (.commit c outcome) (s.set c (db', call')) := by
  obtain ⟨tx, htx, hrows, hlog, -, -⟩ := Db.commit_eq hdb
  have htxinv := (hb.calls c call hc).tx tx htx
  have hothers : ∀ k, k ≠ call.key →
      (Completed db' k ↔ Completed s.db k) := fun k hk =>
    Completed.congr (hb.commit_other hc (Ne.symm hk) hdb)
  -- On the two paths that write nothing the own row decides.
  have hquiet : (Completed db' call.key ↔ Completed s.db call.key) →
      tx.domain = [] → Seen s (.commit c outcome) (s.set c (db', call')) := by
    intro hown hdom
    refine .nothing ?_ fun k => ?_
    · change db'.log = s.db.log
      rw [hlog, hdom, List.append_nil]
    · by_cases hk : k = call.key
      · subst hk
        exact hown
      · exact hothers k hk
  rcases hpc with hp | ⟨cause, hp⟩ | hp <;> simp only [TxInv, hp] at htxinv
  · refine hquiet (Completed.congr ?_) htxinv.2
    rw [hrows, Db.view_of_tx htx, htxinv.1]
    rfl
  · obtain ⟨hopen, hdom, row, hrow, hst⟩ := htxinv
    refine hquiet (iff_of_false ?_ hopen.not_completed) hdom
    rintro ⟨r, hr, hcompleted⟩
    rw [hrows, hrow, Option.some.injEq] at hr
    rw [← hr, hst] at hcompleted
    cases hcompleted
  · obtain ⟨hopen, hdom, -, row, hrow, hst⟩ := htxinv
    exact .applied rfl hc hopen.not_completed
      ⟨row, (hrows call.key).trans hrow, hst⟩ hothers (hdom ▸ hlog)

theorem delete_seen {s : Sys W} {k : Key} {before : Time} {db' : Store W}
    {n : Nat}
    (hdb : s.db.deleteNow k (completedBefore before) = some (db', n)) :
    Seen s (.delete k before) { s with db := db' } := by
  obtain ⟨-, ⟨-, rfl, -⟩ | ⟨r, hr, hp, -, rfl⟩⟩ := Db.statementNow_eq hdb
  · exact .nothing rfl fun _ => Iff.rfl
  · rw [completedBefore, Bool.and_eq_true, beq_iff_eq] at hp
    refine .forgotten rfl ⟨r, hr, hp.1⟩ ?_ (fun k' hk => ?_) rfl
    · rintro ⟨r', hr', -⟩
      rw [Db.lookup_rows_erase, if_pos rfl] at hr'
      cases hr'
    · exact Completed.congr (by rw [Db.lookup_rows_erase, if_neg hk])

theorem step_seen {s t : Sys W} {a : Action W} (hb : Base s)
    (h : step s a = some t) : Seen s a t := by
  cases step_effected hb h with
  | started | dropped => exact .nothing rfl fun _ => Iff.rfl
  | moved _ _ hq => exact hq.seen
  | committed hc hpc hdb ha =>
      subst ha
      exact commit_seen hb hc hpc hdb
  | deleted ha hdb =>
      subst ha
      exact delete_seen hdb

/-! ## A nil answer -/

/-- The call has answered nil, or its commit can only make it do so. -/
def Vouches (pc : Pc) : Prop :=
  pc = .commitDuplicate ∨ ∃ r, pc = .returned r none

/-- Only the lock leads there, and it has read a completed row. The row was
completed by an earlier transaction: what the own one may have inserted is
pending. -/
theorem exec_vouches {db db' : Store W} {c : Nat} {call call' : Call W}
    {now : Time} {fault : Option Fault} (hinv : CallInv db c call)
    (h : call.exec c db now fault = some (db', call'))
    (hv : Vouches call'.pc) : Completed db call.key := by
  cases exec_executes h with
  | @locked o _ hpc hdb =>
      obtain ⟨tx, htx, -, hview, -⟩ := Db.selectForUpdate_eq hdb
      have htxinv := hinv.tx tx htx
      simp only [TxInv, hpc] at htxinv
      cases o with
      | none => simp [Call.locked, Vouches] at hv
      | some r =>
          by_cases hst : r.status = .completed
          · rw [Db.view_of_tx htx] at hview
            rcases htxinv.2.2 with hw | ⟨-, -, r', hw, hr'⟩
            · rw [hw, List.lookup_nil, Option.none_or] at hview
              exact ⟨r, hview.symm, hst⟩
            · rw [hw, List.lookup_cons_self, Option.some_or,
                Option.some.injEq] at hview
              rw [hview, hr'] at hst
              cases hst
          · simp [Call.locked, hst, Vouches] at hv
  | marked hf => cases hf <;> simp [Vouches] at hv
  | _ => simp [Vouches] at hv

/-- `Process` answers nil only to a commit that did, on the duplicate or on
the success path. -/
theorem answer_nil {call : Call W} {err : Option GoErr}
    {a : Result × Option GoErr} (h : call.answer err = some a)
    (ha : a.2 = none) :
    err = none ∧ (call.pc = .commitDuplicate ∨ call.pc = .commit) := by
  rw [Call.answer.eq_def] at h
  split at h <;> cases h <;> cases ha
  · next hpc => exact ⟨rfl, .inl hpc⟩
  · next hpc => exact ⟨rfl, .inr hpc⟩

theorem vouches_returned {r : Result} {e : Option GoErr} :
    Vouches (.returned r e) ↔ e = none := by
  simp [Vouches]

theorem commit_vouches {db db' : Store W} {c : Nat} {call call' : Call W}
    {outcome : CommitOutcome} (hinv : CallInv db c call)
    (h : call.commitTx c db outcome = some (db', call'))
    (hv : Vouches call'.pc) : Vouches call.pc ∨ Completed db' call.key := by
  cases outcome with
  | done =>
      obtain ⟨a, ha, h⟩ := Option.bind_eq_some_iff.mp h
      obtain ⟨db₁, hdb, hr⟩ := Option.map_eq_some_iff.mp h
      cases hr
      rcases (answer_nil ha (vouches_returned.mp hv)).2 with hpc | hpc
      · exact .inl (.inl hpc)
      · obtain ⟨tx, htx, hrows, -, -, -⟩ := Db.commit_eq hdb
        have htxinv := hinv.tx tx htx
        simp only [TxInv, hpc] at htxinv
        obtain ⟨-, -, -, row, hrow, hst⟩ := htxinv
        exact .inr ⟨row, (hrows call.key).trans hrow, hst⟩
  | lost e =>
      obtain ⟨a, ha, h⟩ := Option.bind_eq_some_iff.mp h
      obtain ⟨db₁, -, hr⟩ := Option.map_eq_some_iff.mp h
      cases hr
      cases (answer_nil ha (vouches_returned.mp hv)).1
  | refused e =>
      obtain ⟨a, ha, hr⟩ := Option.map_eq_some_iff.mp h
      cases hr
      cases (answer_nil ha (vouches_returned.mp hv)).1

/-! ## The calls -/

/-- A step leaves a call alone, moves it on under its key, or makes it. Where
a call comes to vouch for its event, the row is completed. -/
inductive CallStep (s : Sys W) (a : Action W) (t : Sys W) (c : Nat) : Prop
  | same (h : t.calls c = s.calls c)
  | moved {call call' : Call W} (hs : s.calls c = some call)
      (ht : t.calls c = some call') (hkey : call'.key = call.key)
      (hvouches : Vouches call'.pc →
        Vouches call.pc ∨ Completed t.db call.key)
  | made {call : Call W} {actor : String} {handlerNil : Bool}
      (hs : s.calls c = none) (ht : t.calls c = some call)
      (ha : a = .process c call.key actor handlerNil)
      (hnot : ¬ Vouches call.pc)

theorem step_calls {s t : Sys W} {a : Action W} (hb : Base s)
    (h : step s a = some t) (c : Nat) : CallStep s a t c := by
  -- Only the call that takes the step has to be looked at.
  have hset : ∀ {d : Nat} {call call' : Call W} {db' : Store W},
      s.calls d = some call → call'.key = call.key →
      (Vouches call'.pc → Vouches call.pc ∨ Completed db' call.key) →
      CallStep s a (s.set d (db', call')) c := by
    intro d call call' db' hd hkey hvouches
    by_cases hcd : c = d
    · subst hcd
      exact .moved hd (set_calls_self s c _) hkey hvouches
    · exact .same (set_calls_ne s _ hcd)
  cases a with
  | process d key actor handlerNil =>
      have hnew : ∀ {call : Call W}, s.calls d = none → call.key = key →
          ¬ Vouches call.pc → CallStep s (.process d key actor handlerNil)
            (s.set d (s.db, call)) c := by
        intro call hd hkey hnot
        by_cases hcd : c = d
        · subst hcd
          exact .made hd (set_calls_self s c _) (by rw [hkey]) hnot
        · exact .same (set_calls_ne s _ hcd)
      simp only [step] at h
      split at h
      · cases h
      · next hd _ =>
          cases h
          exact hnew hd rfl (by simp [Vouches])
      · next hd _ =>
          cases h
          exact hnew hd rfl (by simp [Vouches])
  | exec d now fault =>
      obtain ⟨call, hd, h⟩ := Option.bind_eq_some_iff.mp h
      obtain ⟨⟨db', call'⟩, hexec, rfl⟩ := Option.map_eq_some_iff.mp h
      have hquiet := exec_quiet hb.wf (hb.calls d call hd) hexec
      refine hset hd hquiet.key fun hv => .inr ?_
      exact (Completed.congr (hquiet.rows _)).mpr
        (exec_vouches (hb.calls d call hd) hexec hv)
  | write d w =>
      obtain ⟨call, hd, h⟩ := Option.bind_eq_some_iff.mp h
      split at h
      · obtain ⟨db', -, rfl⟩ := Option.map_eq_some_iff.mp h
        exact hset hd rfl .inl
      · cases h
  | handled d err =>
      obtain ⟨call, hd, h⟩ := Option.bind_eq_some_iff.mp h
      split at h
      · cases h
        refine hset hd rfl fun hv => ?_
        cases err <;> simp [Vouches] at hv
      · cases h
  | commit d outcome =>
      obtain ⟨call, hd, h⟩ := Option.bind_eq_some_iff.mp h
      obtain ⟨⟨db', call'⟩, hcommit, rfl⟩ := Option.map_eq_some_iff.mp h
      obtain ⟨-, ⟨r, e, hcall⟩, -⟩ := commitTx_eq hcommit
      exact hset hd (by rw [hcall])
        (commit_vouches (hb.calls d call hd) hcommit)
  | drop d =>
      cases h
      exact .same rfl
  | delete k before =>
      obtain ⟨⟨db', n⟩, -, rfl⟩ := Option.map_eq_some_iff.mp h
      exact .same rfl

/-- A call that vouches for its event did so before the step, or the step
found or left its row completed. -/
theorem step_vouches {s t : Sys W} {a : Action W} (hb : Base s)
    (h : step s a = some t) {c : Nat} {call' : Call W}
    (hc' : t.calls c = some call') (hv : Vouches call'.pc) :
    (∃ call, s.calls c = some call ∧ call.key = call'.key ∧
      Vouches call.pc) ∨ Completed t.db call'.key := by
  cases step_calls hb h c with
  | same hsame => exact .inl ⟨call', hsame ▸ hc', rfl, hv⟩
  | @moved call _ hs ht hkey hvouches =>
      rw [ht, Option.some.injEq] at hc'
      subst hc'
      rcases hvouches hv with hwas | hdone
      · exact .inl ⟨call, hs, hkey.symm, hwas⟩
      · exact .inr (hkey ▸ hdone)
  | made _ ht _ hnot =>
      rw [ht, Option.some.injEq] at hc'
      subst hc'
      exact absurd hv hnot

theorem step_calls_kept {s t : Sys W} {a : Action W} (hb : Base s)
    (h : step s a = some t) {c : Nat} {call : Call W}
    (hc : s.calls c = some call) :
    ∃ call', t.calls c = some call' ∧ call'.key = call.key := by
  cases step_calls hb h c with
  | same hsame => exact ⟨call, hsame.trans hc, rfl⟩
  | moved hs ht hkey =>
      rw [hc, Option.some.injEq] at hs
      subst hs
      exact ⟨_, ht, hkey⟩
  | made hs => simp [hc] at hs

theorem process_calls {s t : Sys W} {c : Nat} {key : Key} {actor : String}
    {handlerNil : Bool} (h : step s (.process c key actor handlerNil) = some t) :
    ∃ call, t.calls c = some call ∧ call.key = key := by
  simp only [step] at h
  split at h
  · cases h
  · cases h
    exact ⟨_, set_calls_self s c _, rfl⟩
  · cases h
    exact ⟨_, set_calls_self s c _, rfl⟩

end PlatformGo.Inbox
