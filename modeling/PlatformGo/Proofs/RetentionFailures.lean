import PlatformGo.Proofs.RetentionDrain

/-!
# What a failed cleanup reports

`RunOnce` adds up what the batches removed. When the method fails it returns
the sum of the batches before; the count the method returns with its error is
not added to it. The inbox deletes one row a statement, so a batch can fail
with some of its rows removed, and these are then in no total.

`removed` of the model is a record the machine keeps. `removedInCall` takes the
same rows off the run itself: those that went in the deletions of the cleaner
since its last call of `RunOnce`.
-/

namespace PlatformGo.Retention

open Lts RowStore

section Machine

variable {S A K R W T : Type} [DecidableEq K]
  {setup : Setup S A K R W T} {s t : Sys S K R} {a : Action A K} {n : Nat}

/-! ## The rows a call removed -/

/-- The rows a cleaner has removed since its last call, after one more step. -/
def Setup.inCall (setup : Setup S A K R W T) (n : Nat) (rows : List (K × R))
    (p : Sys S K R × Action A K) : List (K × R) :=
  match p.2 with
  | .start m _ => if m = n then [] else rows
  | _ => rows ++ setup.lost n p

def Setup.removedInCall (setup : Setup S A K R W T) (n : Nat)
    (trace : List (Sys S K R × Action A K)) : List (K × R) :=
  trace.foldl (setup.inCall n) []

theorem runs_step {cutoff : Time} (hstep : setup.step s a = some t)
    (ht : (t.phase n).cutoff = some cutoff) :
    (t.runs.filter fun run => run.cleaner = n) =
      s.runs.filter fun run => run.cleaner = n := by
  have hreturn : ∀ {m total : Nat} {err : Option GoErr},
      ((s.return m total err).phase n).cutoff = some cutoff →
      ((s.return m total err).runs.filter fun run => run.cleaner = n) =
        s.runs.filter fun run => run.cleaner = n := by
    intro m total err h
    have hm : m ≠ n := by
      rintro rfl
      rw [Sys.return, set_phase_self] at h
      cases h
    show List.filter _ (s.runs ++ [_]) = _
    simp [hm]
  cases step_moves hstep with
  | empty | short | failed => exact hreturn ht
  | other | start | selected | deleted | full => rfl

theorem inCall_step {cutoff : Time} (hs : Counted s)
    (hstep : setup.step s a = some t) (ht : (t.phase n).cutoff = some cutoff) :
    (t.cleaners n).removed = setup.inCall n (s.cleaners n).removed (s, a) := by
  have hgrows : (t.cleaners n).removed =
      (s.cleaners n).removed ++ setup.lost n (s, a) := by
    have hrecord := record_step (n := n) hs hstep
    rw [record, record, runs_step hstep ht, List.append_assoc] at hrecord
    exact List.append_cancel_left hrecord
  cases a with
  | start m now =>
      simp only [Setup.inCall]
      split
      · next hm =>
          subst hm
          cases step_moves hstep with
          | start => rw [set_cleaners_self]
      · rw [hgrows]
        exact List.append_nil _
  | other | select | delete | next | fail => exact hgrows

/-- While a call is under way, the machine's record is what the run shows. -/
theorem removedInCall_run [DecidableEq T] {host : S} {as : List (Action A K)}
    {cutoff : Time} (hrun : run setup.step { host } as = some s)
    (hs : (s.phase n).cutoff = some cutoff) :
    setup.removedInCall n (steps setup.step { host } as) =
      (s.cleaners n).removed := by
  refine run_history (P := fun as s => ∀ cutoff,
    (s.phase n).cutoff = some cutoff →
      setup.removedInCall n (steps setup.step { host } as) =
        (s.cleaners n).removed) (by intro _ h; cases h) ?_ hrun cutoff hs
  intro pre m a t hpre ih hstep cutoff ht
  have hm : Counted m := counted_run hpre
  rw [steps_append hpre, steps_cons hstep, Setup.removedInCall,
    List.foldl_append]
  show setup.inCall n (setup.removedInCall n _) (m, a) = _
  rw [inCall_step hm hstep ht]
  rcases step_cutoff hstep ht with ⟨now, rfl, -⟩ | ⟨-, hbefore⟩
  · simp [Setup.inCall]
  · rw [ih cutoff hbefore]

/-! ## Where a count is lost -/

/-- The method fails in a batch that has removed rows. -/
def Dropped (s : Sys S K R) (a : Action A K) (n : Nat) : Prop :=
  ∃ fault cutoff total left deleted, a = .fail n fault ∧
    s.phase n = .deleting cutoff total left deleted ∧ 0 < deleted

omit [DecidableEq K] in
theorem fail_cases {fault : Fault} (h : setup.fail s n fault = some t) :
    ∃ total err, t = s.return n total (some err) ∧
      ((∃ cutoff, s.phase n = .looping cutoff total) ∨
        ∃ cutoff left deleted, s.phase n = .deleting cutoff total left deleted) := by
  simp only [Setup.fail] at h
  split at h
  · next cutoff total e hphase =>
      cases h
      exact ⟨total, e, rfl, .inl ⟨cutoff, hphase⟩⟩
  · next cutoff total left deleted e hphase =>
      cases h
      exact ⟨total, _, rfl, .inr ⟨cutoff, left, deleted, hphase⟩⟩
  · next cutoff total left deleted e hphase =>
      cases h
      exact ⟨total, _, rfl, .inr ⟨cutoff, left, deleted, hphase⟩⟩
  · cases h

omit [DecidableEq K] in
theorem eq_of_return {total : Nat} {err : Option GoErr} {result : Run K R}
    (h : (s.return n total err).runs = s.runs ++ [result]) :
    result = ⟨n, total, err, (s.cleaners n).removed⟩ :=
  (List.singleton_inj.mp (List.append_cancel_left h)).symm

/-- What a call returns is what it has counted, except where a batch fails with
rows removed. -/
theorem total_eq_iff {result : Run K R} (hs : Counted s)
    (hstep : setup.step s a = some t)
    (hreturn : t.runs = s.runs ++ [result]) :
    (∃ cutoff, (s.phase result.cleaner).cutoff = some cutoff) ∧
      (result.total = (s.cleaners result.cleaner).removed.length ↔
        ¬ Dropped s a result.cleaner) := by
  have hsame : t.runs ≠ s.runs := by
    intro h
    rw [h] at hreturn
    simp at hreturn
  rw [hs.cleaners]
  cases step_moves hstep with
  | other | start | selected | deleted | full => exact absurd rfl hsame
  | empty hphase | short hphase =>
      obtain rfl := eq_of_return hreturn
      rw [hphase]
      refine ⟨⟨_, rfl⟩, iff_of_true rfl ?_⟩
      rintro ⟨_, _, _, _, _, ha, -⟩
      cases ha
  | @failed n fault _ _ =>
      obtain ⟨total, err, heq, hphase⟩ := fail_cases hstep
      rw [heq] at hreturn
      obtain rfl := eq_of_return hreturn
      dsimp only
      rcases hphase with ⟨cutoff, hphase⟩ | ⟨cutoff, left, deleted, hphase⟩
      · rw [hphase]
        refine ⟨⟨_, rfl⟩, iff_of_true rfl ?_⟩
        rintro ⟨_, _, _, _, _, -, hdeleting, -⟩
        rw [hphase] at hdeleting
        cases hdeleting
      · have hdropped : Dropped s (.fail n fault : Action A K) n ↔ 0 < deleted := by
          constructor
          · rintro ⟨_, _, _, _, _, -, hdeleting, hpos⟩
            rw [hphase] at hdeleting
            cases hdeleting
            exact hpos
          · exact fun hpos => ⟨_, _, _, _, _, rfl, hphase, hpos⟩
        rw [hdropped, hphase]
        refine ⟨⟨_, rfl⟩, ?_⟩
        show total = total + deleted ↔ ¬ 0 < deleted
        omega

end Machine

end PlatformGo.Retention

namespace PlatformGo.Inbox

open PlatformGo.Retention Lts

/-- Whatever the table holds, whoever else works on it and whichever statements
fail: what a call of `RunOnce` returns is the number of rows its deletions have
removed, exactly when it does not return because a batch failed that had
removed rows. -/
theorem reports_removed_iff {W : Type} {collate : String → String → Bool}
    {cleaner : Nat → RetentionCleaner} {host : Sys W}
    {as : List (Retention.Action (Action W) Key)}
    {s t : Retention.Sys (Sys W) Key Row} {a : Retention.Action (Action W) Key}
    {result : Run Key Row}
    (hrun : run (retention W collate cleaner).step { host } as = some s)
    (hstep : (retention W collate cleaner).step s a = some t)
    (hreturn : t.runs = s.runs ++ [result]) :
    result.total = ((retention W collate cleaner).removedInCall result.cleaner
        (steps (retention W collate cleaner).step { host } as)).length ↔
      ¬ Dropped s a result.cleaner := by
  obtain ⟨⟨cutoff, hcutoff⟩, htotal⟩ :=
    total_eq_iff (counted_run hrun) hstep hreturn
  rw [removedInCall_run hrun hcutoff]
  exact htotal

/-- Two orders completed long ago. -/
def completedOrders : Sys String :=
  ⟨{ RowStore.Db.empty with
    rows := [⟨⟨"orders", "order-1"⟩,
        markCompleted "orders" 10 (pendingRow "orders" 0)⟩,
      ⟨⟨"orders", "order-2"⟩,
        markCompleted "orders" 20 (pendingRow "orders" 0)⟩].toAList },
    fun _ => none⟩

def twoOrders : Retention.Setup (Sys String) (Action String) Key Row
    (Effect String) Nat :=
  retention String (fun i j => i ≤ j) everyMinute

/-- A batch of both, and a `SELECT` that fails after it. -/
theorem reports_removed_orders :
    ∃ s t result,
      run twoOrders.step { host := completedOrders }
          [.start 0 150, .select 0, .delete 0 ⟨"orders", "order-1"⟩,
            .delete 0 ⟨"orders", "order-2"⟩, .next 0] = some s ∧
      twoOrders.step s (.fail 0 (.select (.new (bytes "timeout")))) = some t ∧
      t.runs = s.runs ++ [result] ∧ result.total = 2 ∧
      (twoOrders.removedInCall 0 (steps twoOrders.step
        { host := completedOrders }
          [.start 0 150, .select 0, .delete 0 ⟨"orders", "order-1"⟩,
            .delete 0 ⟨"orders", "order-2"⟩, .next 0])).length = 2 := by
  obtain ⟨s, t, result, hrun, hstep, hreturn, hcleaner, htotal, hphase⟩ :
      ∃ s t result,
        run twoOrders.step { host := completedOrders }
            [.start 0 150, .select 0, .delete 0 ⟨"orders", "order-1"⟩,
              .delete 0 ⟨"orders", "order-2"⟩, .next 0] = some s ∧
        twoOrders.step s (.fail 0 (.select (.new (bytes "timeout")))) = some t ∧
        t.runs = s.runs ++ [result] ∧ result.cleaner = 0 ∧ result.total = 2 ∧
        s.phase 0 = .looping 90 2 :=
    ⟨_, _, _, rfl, rfl, rfl, rfl, rfl, rfl⟩
  have hreport := (reports_removed_iff hrun hstep hreturn).mpr (by
    rintro ⟨_, _, _, _, _, -, hdeleting, -⟩
    rw [hcleaner, hphase] at hdeleting
    cases hdeleting)
  rw [htotal, hcleaner] at hreport
  exact ⟨s, t, result, hrun, hstep, hreturn, htotal, hreport.symm⟩

/-- The second `DELETE` of a batch fails: one row is removed and none
reported. -/
theorem removed_unreported :
    ∃ s t result,
      run twoOrders.step { host := completedOrders }
          [.start 0 150, .select 0, .delete 0 ⟨"orders", "order-1"⟩] = some s ∧
      twoOrders.step s (.fail 0 (.delete (.new (bytes "timeout")))) = some t ∧
      t.runs = s.runs ++ [result] ∧ result.total = 0 ∧
      (twoOrders.removedInCall 0 (steps twoOrders.step
        { host := completedOrders }
          [.start 0 150, .select 0,
            .delete 0 ⟨"orders", "order-1"⟩])).length = 1 :=
  ⟨_, _, _, rfl, rfl, rfl, rfl, rfl⟩

end PlatformGo.Inbox
