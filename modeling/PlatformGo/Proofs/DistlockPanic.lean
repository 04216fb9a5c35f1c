import PlatformGo.Proofs.DistlockLease

/-!
# A callback that panics keeps the lock

`runLease` gives the lock back in straight-line code behind the callback. A
panic of the callback goes past it: the lease context is not cancelled,
nobody waits for the goroutine that renews, and `Unlock` is not called. A
caller further up that recovers the panic has no handle on any of the three.

The goroutine lives on. As long as `Extend` succeeds it extends the lease at
every tick, so the lock stays taken for as long as the process runs.
-/

namespace PlatformGo.Distlock

open Lts

variable {c : Call} {s t : Lease} {a : Action} {as : List Action}

/-- Control has left the function, with a result or with a panic. -/
def Caller.left : Caller → Bool
  | .refused .. | .released .. | .panicked => true
  | _ => false

/-- The mutex has been passed to `Unlock`, and whatever comes there is no
further `Extend`. -/
def GivenBack (c : Call) (as : List Action) (s : Lease) : Prop :=
  .unlock ∈ as ∧ ∀ bs t, run c.step s bs = some t → .extend ∉ bs

/-! ## After a return -/

theorem givenBack_of_released (hrun : run c.step {} as = some s)
    {callbackErr extendErr unlockErr : Option GoErr}
    (hk : s.caller = .released callbackErr extendErr unlockErr) :
    GivenBack c as s := by
  have hinv := inv_run hrun
  obtain ⟨hdone, _⟩ := hinv.calling.joined (by rw [hk]; rfl)
  refine ⟨?_, fun bs t hrest => no_extend_after_done hdone hinv hrest⟩
  rw [mem_events hrun rfl, hk]
  simp [Caller.events]

/-! ## After a panic -/

theorem panicked_iff (hrun : run c.step {} as = some s) :
    .callbackPanic ∈ as ↔ s.caller = .panicked := by
  rw [mem_events hrun rfl]
  cases s.caller <;> simp [Caller.events]

/-- The caller is gone: nobody calls `Unlock` any more. -/
theorem panicked_step (hk : s.caller = .panicked)
    (h : c.step s a = some t) : t.caller = .panicked ∧ a ≠ .unlock := by
  cases move_of_step h with
  | invalid hk' | valid hk' | lockReturn hk' | callback hk'
  | callbackReturn hk' | callbackPanic hk' | cancelNil hk' | unlock hk'
  | unlockReturn hk' =>
      rw [hk] at hk'
      cases hk'
  | parentCancel | propagate | extend | extended | extendFailed | foundDone
  | foundLive | send | cancelCause | leave => exact ⟨hk, by simp⟩

theorem no_unlock_after_panic (hk : s.caller = .panicked)
    (hrun : run c.step s as = some t) : .unlock ∉ as := by
  induction as generalizing s with
  | nil => simp
  | cons a as ih =>
      obtain ⟨m, hm, hrest⟩ := run_cons.mp hrun
      obtain ⟨hk', ha⟩ := panicked_step hk hm
      rw [List.mem_cons, not_or]
      exact ⟨ha.symm, ih hk' hrest⟩

/-- One extension brings the goroutine back to where it was. -/
theorem extend_again (hr : s.renewal = .selecting) {interval : Time}
    (hticker : s.ticker = some interval) :
    run c.step s [.extend, .extendReturn none] = some s := by
  have hextend := step_of_move (c := c) (Move.extend hr hticker)
  have hreturn : c.step { s with renewal := .extending }
      (.extendReturn none) = some s := by
    rw [step_of_move (.extended rfl), ← hr]
  exact run_cons.mpr ⟨_, hextend, run_cons.mpr ⟨_, hreturn, rfl⟩⟩

/-- So it can extend the lease any number of times. -/
theorem extends_forever (hinv : Inv s) (hr : s.renewal = .selecting)
    (n : Nat) :
    ∃ bs, run c.step s bs = some s ∧ bs.count .extend = n := by
  obtain ⟨interval, hticker⟩ : ∃ interval, s.ticker = some interval := by
    rw [← Option.ne_none_iff_exists', ne_eq, hinv.renewing.stopped, hr]
    simp
  induction n with
  | zero => exact ⟨[], rfl, rfl⟩
  | succ n ih =>
      obtain ⟨bs, hrun, hcount⟩ := ih
      refine ⟨[.extend, .extendReturn none] ++ bs,
        run_append.mpr ⟨s, extend_again hr hticker, hrun⟩, ?_⟩
      rw [List.count_append, hcount]
      exact Nat.add_comm 1 n

/-! ## The callback decides -/

/-- Once control has left a call that acquired the lock, the lock has been
given back if and only if the callback did not panic. After a panic there is
no `Unlock` in any continuation, and a goroutine that was waiting for its
ticker may extend the lease for ever. -/
theorem given_back_iff (hrun : run c.step {} as = some s)
    (hacquired : Acquired c as) (hleft : s.caller.left = true) :
    (GivenBack c as s ↔ .callbackPanic ∉ as) ∧
      (.callbackPanic ∈ as →
        (∀ bs t, run c.step s bs = some t → .unlock ∉ bs) ∧
        (s.renewal = .selecting →
          ∀ n, ∃ bs t, run c.step s bs = some t ∧ bs.count .extend = n)) := by
  have howns := (acquired_iff hrun).mp hacquired
  have hpanic := panicked_iff hrun
  constructor
  · rw [hpanic]
    constructor
    · rintro ⟨hunlock, _⟩ hk
      rw [mem_events hrun rfl, hk] at hunlock
      simp [Caller.events] at hunlock
    · intro hk
      cases hcaller : s.caller with
      | released callbackErr extendErr unlockErr =>
          exact givenBack_of_released hrun hcaller
      | panicked => exact absurd hcaller hk
      | refused acquired err =>
          rw [hcaller] at howns
          cases howns
      | _ =>
          rw [hcaller] at hleft
          cases hleft
  · rw [hpanic]
    intro hk
    refine ⟨fun bs t hrest => no_unlock_after_panic hk hrest, ?_⟩
    intro hr n
    obtain ⟨bs, hrest, hcount⟩ := extends_forever (inv_run hrun) hr n
    exact ⟨bs, s, hrest, hcount⟩

/-- The callback returns an error, and the lock is given back. -/
theorem given_back_iff_error : ∃ s,
    run (Call.mk .withLock false false (30 * millisecond)).step {}
      [.validate, .lockReturn true none, .callback,
       .callbackReturn (some errInvalid), .cancelNil, .leave, .unlock,
       .unlockReturn none] = some s ∧
    GivenBack (.mk .withLock false false (30 * millisecond))
      [.validate, .lockReturn true none, .callback,
       .callbackReturn (some errInvalid), .cancelNil, .leave, .unlock,
       .unlockReturn none] s :=
  ⟨_, rfl, (given_back_iff rfl ⟨true, by decide, Or.inl rfl⟩ rfl).1.mpr
    (by decide)⟩

/-- The callback panics while the goroutine waits for its ticker, and the
lease is extended afterwards. -/
theorem panic_keeps_lock : ∃ s t,
    run (Call.mk .withLock false false (30 * millisecond)).step {}
      [.validate, .lockReturn true none, .callback, .callbackPanic] =
        some s ∧
    s.caller.left = true ∧
    run (Call.mk .withLock false false (30 * millisecond)).step s
      [.extend, .extendReturn none, .extend, .extendReturn none] = some t ∧
    ¬ GivenBack (.mk .withLock false false (30 * millisecond))
      [.validate, .lockReturn true none, .callback, .callbackPanic] s := by
  refine ⟨_, _, rfl, rfl, rfl, ?_⟩
  rintro ⟨hunlock, _⟩
  exact absurd hunlock (by decide)

end PlatformGo.Distlock
