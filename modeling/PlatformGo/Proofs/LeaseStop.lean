import PlatformGo.Proofs.InterceptorOnce
import PlatformGo.Ref.IdemLease

/-!
# What the stop of a lease returns

`stop` returns what the goroutine sent on `done`: nothing where it left at the
stop or at a cancelled context, and the error of `Renew` where that failed. A
`Renew` runs under the lease context, so it fails when that context is
cancelled under it, or before it where the ticker and the cancellation are
ready together and the ticker is selected. The goroutine does not look at the
context afterwards, and reports an error that is no more than the caller's
cancellation.

The first part shows that the interceptor's machine is right about the lease:
every run of the two goroutines is a run there.
-/

namespace PlatformGo.Idempotency

open Lts

variable {Req Resp : Type} {srv : Server Req Resp} {i : Nat}
  {c : CallState Req Resp} {s t : Leased Req Resp}
  {a : LeaseAction Req Resp}

/-! ## Steps -/

inductive LeaseMove (srv : Server Req Resp) (i : Nat)
    (c : CallState Req Resp) (s : Leased Req Resp) :
    LeaseAction Req Resp → Leased Req Resp → Prop
  | world {ev : Event Req Resp} {sys : Sys Req Resp}
      (hev : ev.call ≠ some i) (h : srv.step s.sys ev = some sys) :
      LeaseMove srv i c s (.world ev) { s with sys }
  | parentCancel {cause : GoErr} :
      LeaseMove srv i c s (.parentCancel cause)
        { s with parent := some (s.parent.getD cause) }
  | propagate {cause : GoErr} (h : s.parent = some cause) :
      LeaseMove srv i c s .propagate (s.cancel cause)
  | tick {interval : Time} (h : s.renewal = .selecting)
      (hticker : s.ticker = some interval) :
      LeaseMove srv i c s .tick { s with renewal := .renewing }
  | renewed {fault : Fault} {store : Store Bytes}
      (h : s.renewal = .renewing)
      (hstep : step srv.manager s.sys.store
        (.call (.renew c.req.key c.owner) fault) = some store)
      (hok : (srv.manager.renew c.req.key c.owner fault
        s.sys.store.redis).2 = .ok) :
      LeaseMove srv i c s (.renewReturn fault)
        { s with sys := { s.sys with store }, renewal := .selecting }
  | renewFailed {fault : Fault} {store : Store Bytes} {err : GoErr}
      (h : s.renewal = .renewing)
      (hstep : step srv.manager s.sys.store
        (.call (.renew c.req.key c.owner) fault) = some store)
      (herr : (srv.manager.renew c.req.key c.owner fault
        s.sys.store.redis).2 = .err err) :
      LeaseMove srv i c s (.renewReturn fault)
        { s with sys := { s.sys with store }, renewal := .cancelling err }
  | cancelCause {err : GoErr} (h : s.renewal = .cancelling err) :
      LeaseMove srv i c s .cancelCause
        { s.cancel err with renewal := .sending (some err) }
  | send {err : Option GoErr} (h : s.renewal = .sending err)
      (hdone : s.done = none) :
      LeaseMove srv i c s .send
        { s with renewal := .ended err, done := some err, ticker := none }
  | seeStop (h : s.renewal = .selecting) (hclosed : s.caller.closed = true) :
      LeaseMove srv i c s .seeStop { s with renewal := .sending none }
  | seeDone {cause : GoErr} (h : s.renewal = .selecting)
      (hlease : s.lease = some cause) :
      LeaseMove srv i c s .seeDone { s with renewal := .sending none }
  | handlerReturn {outcome : Except Status Resp}
      (h : s.caller = .handling) :
      LeaseMove srv i c s (.handlerReturn outcome)
        { s with caller := .handled outcome }
  | handlerPanic (h : s.caller = .handling) :
      LeaseMove srv i c s .handlerPanic { s with caller := .panicked }
  | close {outcome : Except Status Resp} (h : s.caller = .handled outcome) :
      LeaseMove srv i c s .close { s with caller := .waiting outcome }
  | receive {outcome : Except Status Resp} {leaseErr : Option GoErr}
      (h : s.caller = .waiting outcome) (hdone : s.done = some leaseErr) :
      LeaseMove srv i c s .receive
        { s with caller := .received outcome leaseErr, done := none }
  | cancelNil {outcome : Except Status Resp} {leaseErr : Option GoErr}
      (h : s.caller = .received outcome leaseErr) :
      LeaseMove srv i c s .cancelNil
        { s.cancel errCanceled with caller := .stopped outcome leaseErr }

theorem leaseMove_of_step (h : srv.leaseStep i c s a = some t) :
    LeaseMove srv i c s a t := by
  cases a with
  | world ev =>
      simp only [Server.leaseStep] at h
      split at h
      · cases h
      · next hev =>
          obtain ⟨sys, hsys, rfl⟩ := Option.map_eq_some_iff.mp h
          exact .world hev hsys
  | parentCancel cause =>
      cases h
      exact .parentCancel
  | propagate =>
      obtain ⟨cause, hcause, rfl⟩ := Option.map_eq_some_iff.mp h
      exact .propagate hcause
  | renewReturn fault =>
      simp only [Server.leaseStep] at h
      split at h
      · next hr =>
          obtain ⟨store, hstore, h⟩ := Option.bind_eq_some_iff.mp h
          obtain ⟨renewal, hanswer, rfl⟩ := Option.map_eq_some_iff.mp h
          unfold Renewal.answered at hanswer
          split at hanswer
          · next hok =>
              cases hanswer
              exact .renewed hr hstore hok
          · next err herr =>
              cases hanswer
              exact .renewFailed hr hstore herr
          · cases hanswer
      · cases h
  | tick | seeStop | seeDone | send | receive =>
      simp only [Server.leaseStep] at h
      split at h
      · cases h
        constructor <;> assumption
      · cases h
  | cancelCause | handlerReturn | handlerPanic | close | cancelNil =>
      simp only [Server.leaseStep] at h
      split at h
      · cases h
        constructor
        assumption
      · cases h

theorem step_of_leaseMove (h : LeaseMove srv i c s a t) :
    srv.leaseStep i c s a = some t := by
  cases h with
  | world hev h => simp only [Server.leaseStep, if_neg hev, h, Option.map_some]
  | parentCancel => rfl
  | propagate h => simp only [Server.leaseStep, h, Option.map_some]
  | renewed h hstep hok =>
      simp only [Server.leaseStep, h, hstep, Manager.perform, hok,
        Renewal.answered, Option.bind_some, Option.map_some]
  | renewFailed h hstep herr =>
      simp only [Server.leaseStep, h, hstep, Manager.perform, herr,
        Renewal.answered, Option.bind_some, Option.map_some]
  | tick h h' | send h h' | seeStop h h' | seeDone h h' | receive h h' =>
      simp only [Server.leaseStep, h, h']
  | cancelCause h | handlerReturn h | handlerPanic h | close h
  | cancelNil h => simp only [Server.leaseStep, h]

/-! ## What is on the channel -/

/-- What `stop` has received. -/
def Caller.leaseErr : Caller Resp → Option (Option GoErr)
  | .received _ leaseErr | .stopped _ leaseErr => some leaseErr
  | _ => none

/-- What is on `done`, or has been taken from it, is what the goroutine sent
when it returned. -/
def Leased.Sent (s : Leased Req Resp) : Prop :=
  ∀ err, s.done = some err ∨ s.caller.leaseErr = some err →
    s.renewal = .ended err

theorem sent_step (hsent : s.Sent) (h : srv.leaseStep i c s a = some t) :
    t.Sent := by
  -- A goroutine that has not returned has sent nothing.
  have hnone : ∀ r, s.renewal = r → (∀ err, r ≠ .ended err) →
      ∀ err, ¬ (s.done = some err ∨ s.caller.leaseErr = some err) := by
    rintro r rfl hr err herr
    exact hr err (hsent err herr)
  cases leaseMove_of_step h with
  | world | parentCancel | propagate => exact hsent
  | tick hr | renewed hr | renewFailed hr | cancelCause hr | seeStop hr
  | seeDone hr =>
      intro err herr
      exact absurd herr (hnone _ hr nofun err)
  | @send sent hr hdone =>
      intro err herr
      rcases herr with herr | herr
      · cases herr
        rfl
      · exact absurd (Or.inr herr) (hnone _ hr nofun err)
  | handlerReturn hk | handlerPanic hk | close hk =>
      intro err herr
      rcases herr with herr | herr
      · exact hsent err (.inl herr)
      · cases herr
  | receive hk hdone =>
      intro err herr
      rcases herr with herr | herr
      · cases herr
      · cases herr
        exact hsent _ (.inl hdone)
  | cancelNil hk =>
      intro err herr
      refine hsent err ?_
      rw [hk]
      exact herr

theorem sent_run {as : List (LeaseAction Req Resp)} (hsent : s.Sent)
    (hrun : run (srv.leaseStep i c) s as = some t) : t.Sent :=
  run_inv_of (fun _ _ _ => sent_step) hsent hrun

theorem startLease_eq {sys : Sys Req Resp} {parent : Option GoErr}
    (h : srv.startLease sys c parent = some s) :
    srv.startsLease c = true ∧
      s = { sys, parent, lease := parent
            ticker := some srv.manager.leaseInterval } := by
  unfold Server.startLease at h
  split at h
  · next hstarts =>
      cases h
      exact ⟨hstarts, rfl⟩
  · cases h

theorem startLease_sent {sys : Sys Req Resp} {parent : Option GoErr}
    (h : srv.startLease sys c parent = some s) : s.Sent := by
  obtain ⟨-, rfl⟩ := startLease_eq h
  intro err herr
  rcases herr with herr | herr <;> cases herr

/-! ## The interceptor's machine follows -/

section Other

variable {sys : Sys Req Resp} {j : Nat} (hj : j ≠ i)

include hj

theorem set_calls_other : (sys.set i c).calls j = sys.calls j :=
  Function.update_of_ne hj _ _

theorem set_comm (sys : Sys Req Resp) {d : CallState Req Resp} :
    (sys.set i c).set j d = (sys.set j d).set i c := by
  unfold Sys.set
  rw [Function.update_comm hj]

theorem onStore_other {call : Call Bytes} {fault : Fault}
    {next : Result → Option (CallState Req Resp)} :
    srv.onStore (sys.set i c) j call fault next =
      (srv.onStore sys j call fault next).map (·.set i c) := by
  unfold Server.onStore
  have hstore : (sys.set i c).store = sys.store := rfl
  rw [hstore]
  cases step srv.manager sys.store (.call call fault) with
  | none => rfl
  | some store =>
      cases next (srv.manager.perform fault sys.store.redis call).2 with
      | none => rfl
      | some d => exact congrArg some (set_comm hj { sys with store })

theorem persist_other {d : CallState Req Resp} {fault : Fault} :
    srv.persist (sys.set i c) j d fault =
      (srv.persist sys j d fault).map (·.set i c) := by
  unfold Server.persist
  split
  · split
    · exact congrArg some (set_comm hj _)
    · exact onStore_other hj
  · rfl

theorem bind_other {f g : CallState Req Resp → Option (Sys Req Resp)}
    (h : ∀ d, f d = (g d).map (·.set i c)) :
    ((sys.set i c).calls j).bind f =
      ((sys.calls j).bind g).map (·.set i c) := by
  rw [set_calls_other hj]
  cases sys.calls j with
  | none => rfl
  | some d => exact h d

theorem map_other {f : CallState Req Resp → Option (CallState Req Resp)} :
    ((sys.set i c).calls j).bind (fun d => (f d).map ((sys.set i c).set j)) =
      ((sys.calls j).bind fun d => (f d).map (sys.set j)).map
        (·.set i c) := by
  refine bind_other hj fun d => ?_
  rw [Option.map_map]
  congr 1
  funext d'
  exact set_comm hj _

end Other

/-- A step that is not the call's own does not depend on it. -/
theorem step_other {sys : Sys Req Resp} {ev : Event Req Resp}
    (hev : ev.call ≠ some i) :
    srv.step (sys.set i c) ev = (srv.step sys ev).map (·.set i c) := by
  have hne : ∀ j, ev.call = some j → j ≠ i := fun j hj h => hev (h ▸ hj)
  cases ev with
  | arrive j req =>
      have hj := hne j rfl
      simp only [Server.step, set_calls_other hj]
      cases sys.calls j with
      | some d => rfl
      | none => exact congrArg some (set_comm hj _)
  | begin j owner fault =>
      refine bind_other (hne j rfl) fun d => ?_
      split
      · exact onStore_other (hne j rfl)
      · rfl
  | lease j =>
      refine bind_other (hne j rfl) fun d => ?_
      split
      · exact congrArg some (set_comm (hne j rfl) _)
      · rfl
  | renew j fault =>
      exact bind_other (hne j rfl) fun d => onStore_other (hne j rfl)
  | persist j fault =>
      exact bind_other (hne j rfl) fun d => persist_other (hne j rfl)
  | cancelled j =>
      refine bind_other (hne j rfl) fun d => ?_
      rw [Option.map_map]
      congr 1
      funext phase
      exact set_comm (hne j rfl) _
  | handle j result => exact map_other (hne j rfl)
  | stop j => exact map_other (hne j rfl)
  | expire k | tick d => rfl

theorem endLease_running {k : Caller Resp} (h : k.leaseErr = none)
    (err : Option GoErr) :
    (k.phase .running).endLease err = some (k.phase (.ended err)) := by
  cases k with
  | handling | handled | waiting | panicked => rfl
  | received | stopped => cases h

theorem renewed_running {k : Caller Resp} {result : Result}
    {renewal : Renewal} (h : k.leaseErr = none)
    (hanswer : Renewal.answered result = some renewal) :
    (k.phase .running).renewed result = some (k.phase renewal.lease) := by
  cases result with
  | ok =>
      cases hanswer
      rw [Phase.renewed, endLease_running h]
      rfl
  | err e =>
      cases hanswer
      exact endLease_running h _
  | decision | panicked => cases hanswer

theorem stop_ended {d : CallState Req Resp} {err : Option GoErr}
    (h : d.phase = .handled (.ended err)) :
    d.stop = some { d with phase := .afterStop err } := by
  cases err with
  | none =>
      unfold CallState.stop
      rw [h]
      rfl
  | some e =>
      simp only [CallState.stop, h, Phase.afterStop]
      split <;> rfl

theorem set_calls_self (sys : Sys Req Resp) (d : CallState Req Resp) :
    (sys.set i d).calls i = some d :=
  Function.update_self ..

theorem set_again (sys : Sys Req Resp) (d d' : CallState Req Resp) :
    (sys.set i d).set i d' = sys.set i d' := by
  unfold Sys.set
  rw [Function.update_idem]

theorem step_renew {sys : Sys Req Resp} {d : CallState Req Resp}
    {fault : Fault} {store : Store Bytes} {phase : Phase Resp}
    (hstep : step srv.manager sys.store
      (.call (.renew d.req.key d.owner) fault) = some store)
    (hphase : d.phase.renewed (srv.manager.renew d.req.key d.owner fault
      sys.store.redis).2 = some phase) :
    srv.step (sys.set i d) (.renew i fault) =
      some ({ sys with store }.set i { d with phase }) := by
  have hstore : (sys.set i d).store = sys.store := rfl
  simp only [Server.step, set_calls_self, Option.bind_some, Server.onStore, hstore,
    hstep, Manager.perform, hphase, Option.map_some]
  exact congrArg some (set_again { sys with store } d _)

theorem step_own {sys : Sys Req Resp} {d d' : CallState Req Resp}
    {f : CallState Req Resp → Option (CallState Req Resp)}
    (h : f d = some d') :
    ((sys.set i d).calls i).bind (fun e => (f e).map ((sys.set i d).set i)) =
      some (sys.set i d') := by
  rw [set_calls_self, Option.bind_some, h, Option.map_some, set_again]

theorem step_cancelled {sys : Sys Req Resp} {d : CallState Req Resp}
    {phase : Phase Resp} (h : d.phase.endLease none = some phase) :
    srv.step (sys.set i d) (.cancelled i) =
      some (sys.set i { d with phase }) := by
  rw [Server.step, set_calls_self, Option.bind_some, h, Option.map_some, set_again]

/-- A step of the lease that is an event of the interceptor's machine is a step
of that machine. -/
theorem leaseStep_follows (hsent : s.Sent)
    (h : srv.leaseStep i c s a = some t) {ev : Event Req Resp}
    (hev : a.event i = some ev) :
    srv.step (s.toSys i c) ev = some (t.toSys i c) := by
  -- As long as the goroutine is running, nothing has been received.
  have hnone : s.renewal.lease = .running → s.caller.leaseErr = none := by
    intro hr
    cases herr : s.caller.leaseErr with
    | none => rfl
    | some err =>
        rw [hsent err (.inr herr)] at hr
        cases hr
  cases leaseMove_of_step h with
  | world hother hstep =>
      cases hev
      rw [Leased.toSys, step_other hother, hstep]
      rfl
  | renewed hr hstep hok =>
      cases hev
      have hk := hnone (by rw [hr]; rfl)
      refine step_renew (d := s.call c) hstep ?_
      rw [Leased.call, hr]
      exact renewed_running hk (congrArg Renewal.answered hok)
  | renewFailed hr hstep herr =>
      cases hev
      have hk := hnone (by rw [hr]; rfl)
      refine step_renew (d := s.call c) hstep ?_
      rw [Leased.call, hr]
      exact renewed_running hk (congrArg Renewal.answered herr)
  | seeStop hr | seeDone hr =>
      cases hev
      have hk := hnone (by rw [hr]; rfl)
      refine step_cancelled (d := s.call c) ?_
      rw [Leased.call, hr]
      exact endLease_running hk _
  | handlerReturn hk | handlerPanic hk =>
      cases hev
      refine step_own ?_
      rw [CallState.handle, Leased.call, hk]
      rfl
  | @cancelNil outcome leaseErr hk =>
      cases hev
      have hr := hsent _ (.inr (by rw [hk]; rfl))
      refine step_own ?_
      have hphase : (s.call c).phase = .handled (.ended leaseErr) := by
        rw [Leased.call, hk, hr]
        rfl
      rw [stop_ended hphase, Leased.call, hk]
      rfl
  | parentCancel | propagate | tick | cancelCause | send | close
  | receive => cases hev

/-- Any other step is not seen there. -/
theorem leaseStep_silent (h : srv.leaseStep i c s a = some t)
    (hev : a.event i = none) : t.toSys i c = s.toSys i c := by
  cases leaseMove_of_step h with
  | parentCancel | propagate => rfl
  | tick hr | cancelCause hr | send hr | close hr | receive hr =>
      simp [Leased.toSys, Leased.call, Leased.cancel, hr, Renewal.lease,
        Caller.phase, Caller.outcome]
  | world | renewed | renewFailed | seeStop | seeDone | handlerReturn
  | handlerPanic | cancelNil => cases hev

/-- The state of the interceptor's machine that goes with one of the lease. -/
def Leased.Shown (i : Nat) (c : CallState Req Resp) (s : Leased Req Resp)
    (sys : Sys Req Resp) : Prop :=
  s.Sent ∧ sys = s.toSys i c

theorem leaseRun_follows {as : List (LeaseAction Req Resp)} (hsent : s.Sent)
    (hrun : run (srv.leaseStep i c) s as = some t) :
    run srv.step (s.toSys i c) (as.filterMap (·.event i)) =
      some (t.toSys i c) := by
  have hshown : s.Shown i c (s.toSys i c) := ⟨hsent, rfl⟩
  obtain ⟨sys, hsys, -, rfl⟩ := run_follow (C := fun _ => True)
    (fun s a s' sys ev hshown _ hev h => by
      obtain ⟨hsent, rfl⟩ := hshown
      exact ⟨_, leaseStep_follows hsent h hev, sent_step hsent h, rfl⟩)
    (fun s a s' sys hshown _ hev h => by
      obtain ⟨hsent, rfl⟩ := hshown
      exact ⟨sent_step hsent h, (leaseStep_silent h hev).symm⟩)
    hshown (fun _ _ => trivial) hrun
  exact hsys

theorem startLease_follows {sys : Sys Req Resp} {parent : Option GoErr}
    (h : srv.startLease sys c parent = some s) (hi : sys.calls i = some c)
    (hphase : c.phase = .acquired) :
    srv.step sys (.lease i) = some (s.toSys i c) := by
  obtain ⟨hstarts, rfl⟩ := startLease_eq h
  simp only [Server.step, hi, Option.bind_some, hphase, Server.lease,
    hstarts, if_true]
  rfl

/-- Every run of the two goroutines, from the start of the lease, is a run of
the interceptor's machine. -/
theorem lease_refines {sys : Sys Req Resp} {parent : Option GoErr}
    {as : List (LeaseAction Req Resp)} (hi : sys.calls i = some c)
    (hphase : c.phase = .acquired)
    (hstart : srv.startLease sys c parent = some s)
    (hrun : run (srv.leaseStep i c) s as = some t) :
    run srv.step sys (.lease i :: as.filterMap (·.event i)) =
      some (t.toSys i c) :=
  run_cons.mpr ⟨s.toSys i c, startLease_follows hstart hi hphase,
    leaseRun_follows (startLease_sent hstart) hrun⟩

/-! ## Redis works and the record is owned -/

/-- The record is the call's. -/
def Leased.Owned (srv : Server Req Resp) (c : CallState Req Resp)
    (s : Leased Req Resp) : Prop :=
  s.sys.store.redis.held (srv.manager.storageKey c.req.key) c.owner = true

/-- An error of a call whose context is over. -/
def IsContextErr (e : GoErr) : Prop :=
  e.is "context canceled" = true ∨ e.is "context deadline exceeded" = true

/-- The record is still the call's, and a `Renew` fails for no other reason
than that its context is cancelled. -/
structure Works (srv : Server Req Resp) (c : CallState Req Resp)
    (s : Leased Req Resp) (a : LeaseAction Req Resp) : Prop where
  owned : s.Owned srv c
  answers : ∀ fault, a = .renewReturn fault → fault = .none ∨
    s.lease.isSome = true ∧ ∃ e, IsContextErr e ∧
      (fault = .notExecuted e ∨ fault = .replyLost e)

/-- No `Renew` is started on a lease context that is cancelled, and none is
under way as it gets cancelled. -/
def Calm (s : Leased Req Resp) : LeaseAction Req Resp → Prop
  | .tick => s.lease = none
  | .propagate => s.renewal ≠ .renewing
  | _ => True

/-- A `Renew` is under way on a lease context that is cancelled. -/
def Leased.Exposed (s : Leased Req Resp) : Prop :=
  s.renewal = .renewing ∧ s.lease.isSome = true

/-- What a `Renew` that failed has left for `stop`. -/
def Renewal.failure : Renewal → Option GoErr
  | .cancelling err => some err
  | .sending err | .ended err => err
  | .selecting | .renewing => none

/-- Where `stop` has returned, it has returned no error, and the interceptor
goes on to store what the handler returned. -/
def Leased.GoesOn (c : CallState Req Resp) (s : Leased Req Resp) : Prop :=
  ∀ outcome leaseErr, s.caller = .stopped outcome leaseErr →
    leaseErr = none ∧ (s.call c).phase = .persisting ∧
      (s.call c).outcome = some outcome

theorem startsLease_iff :
    srv.startsLease c = true ↔ srv.manager.available = true ∧
      c.req.key ≠ "" ∧ c.owner ≠ "" ∧ 0 < srv.manager.cfg.processingTTL := by
  simp [Server.startsLease, and_assoc]

/-- A lease that was started can call `Renew`. -/
theorem renew_eq (h : srv.startsLease c = true) (fault : Fault) (r : Redis) :
    let answer := fault.run (renewScript
      (srv.manager.storageKey c.req.key) c.owner
      (milliseconds srv.manager.cfg.processingTTL)) r
    srv.manager.renew c.req.key c.owner fault r =
      (answer.1, changedResult "renew idempotency request" answer.2) := by
  obtain ⟨havailable, hkey, howner, httl⟩ := startsLease_iff.mp h
  have hguard : ¬ ((!srv.manager.available || c.req.key == "" ||
      c.owner == "" || decide (srv.manager.cfg.processingTTL ≤ 0)) =
        true) := by
    simp [havailable, hkey, howner, httl]
  unfold Manager.renew
  rw [if_neg hguard]

theorem renew_owned (h : srv.startsLease c = true) (howned : s.Owned srv c) :
    (srv.manager.renew c.req.key c.owner .none s.sys.store.redis).2 =
      .ok := by
  unfold Leased.Owned at howned
  rw [renew_eq h, Fault.run, renewScript, if_pos howned]
  rfl

/-! ## Runs that stay calm -/

/-- No `Renew` has failed and none is about to. -/
structure Leased.Fine (s : Leased Req Resp) : Prop where
  sent : s.Sent
  failure : s.renewal.failure = none
  exposed : ¬ s.Exposed

theorem startLease_fine {sys : Sys Req Resp} {parent : Option GoErr}
    (h : srv.startLease sys c parent = some s) : s.Fine := by
  have hsent := startLease_sent h
  obtain ⟨-, rfl⟩ := startLease_eq h
  exact ⟨hsent, rfl, fun hexposed => nomatch hexposed.1⟩

theorem fine_step (hstarts : srv.startsLease c = true) (hs : s.Fine)
    (hworks : Works srv c s a) (hcalm : Calm s a)
    (h : srv.leaseStep i c s a = some t) : t.Fine := by
  refine ⟨sent_step hs.sent h, ?_, ?_⟩
  · cases leaseMove_of_step h with
    | world | parentCancel | propagate | handlerReturn | handlerPanic | close
    | receive | cancelNil => exact hs.failure
    | tick | renewed | seeStop | seeDone => rfl
    | renewFailed hr hstep herr =>
        rcases hworks.answers _ rfl with rfl | ⟨hlease, -⟩
        · rw [renew_owned hstarts hworks.owned] at herr
          cases herr
        · exact absurd ⟨hr, hlease⟩ hs.exposed
    | cancelCause hr | send hr =>
        have hfailure := hs.failure
        rw [hr] at hfailure
        exact hfailure
  · rintro ⟨hr, hlease⟩
    cases leaseMove_of_step h with
    | world | parentCancel | handlerReturn | handlerPanic | close
    | receive => exact hs.exposed ⟨hr, hlease⟩
    | propagate => exact hcalm hr
    | tick =>
        change s.lease.isSome = true at hlease
        rw [show s.lease = none from hcalm] at hlease
        cases hlease
    | renewed | renewFailed | seeStop | seeDone | cancelCause | send =>
        cases hr
    | cancelNil hk =>
        -- What was received was sent by a goroutine that has returned.
        change s.renewal = .renewing at hr
        rw [hs.sent _ (.inr (by rw [hk]; rfl))] at hr
        cases hr

theorem fine_run {as : List (LeaseAction Req Resp)}
    (hstarts : srv.startsLease c = true) (hs : s.Fine)
    (hC : ∀ p ∈ steps (srv.leaseStep i c) s as,
      Works srv c p.1 p.2 ∧ Calm p.1 p.2)
    (hrun : run (srv.leaseStep i c) s as = some t) : t.Fine :=
  run_inv (C := fun s a => Works srv c s a ∧ Calm s a)
    (fun _ _ _ hs hC h => fine_step hstarts hs hC.1 hC.2 h) hs hC hrun

theorem Leased.Fine.goesOn (hs : s.Fine) : s.GoesOn c := by
  intro outcome leaseErr hk
  have hnil : leaseErr = none := by
    have hfailure := hs.failure
    rw [hs.sent leaseErr (.inr (by rw [hk]; rfl))] at hfailure
    exact hfailure
  subst hnil
  rw [Leased.call, hk]
  exact ⟨rfl, rfl, rfl⟩

/-! ## A `Renew` on a cancelled context -/

/-- The steps on the way from a `Renew` that failed to the return of
`stop`. -/
def LeaseAction.Inert : LeaseAction Req Resp → Prop
  | .cancelCause | .send | .handlerReturn _ | .close | .receive
  | .cancelNil => True
  | _ => False

theorem inert_steps {as : List (LeaseAction Req Resp)}
    (howned : s.Owned srv c) (has : ∀ a ∈ as, a.Inert) :
    ∀ p ∈ steps (srv.leaseStep i c) s as,
      Works srv c p.1 p.2 ∧ Calm p.1 p.2 := by
  have hkept : ∀ p ∈ steps (srv.leaseStep i c) s as, p.1.Owned srv c := by
    refine steps_inv (C := fun _ a => a.Inert) ?_ howned
      (fun p hp => has p.2 (action_mem hp))
    intro s a t hs ha h
    cases leaseMove_of_step h with
    | cancelCause | send | handlerReturn | close | receive | cancelNil =>
        exact hs
    | _ => exact ha.elim
  intro p hp
  have hinert := has p.2 (action_mem hp)
  refine ⟨⟨hkept p hp, ?_⟩, ?_⟩
  · intro fault hfault
    rw [hfault] at hinert
    exact hinert.elim
  · cases ha : p.2 with
    | tick | propagate =>
        rw [ha] at hinert
        exact hinert.elim
    | _ => trivial

/-- The lease can be brought to its end without another event, with this
result of `stop`. -/
def Leased.Ends (srv : Server Req Resp) (i : Nat) (c : CallState Req Resp)
    (leaseErr : Option GoErr) (s : Leased Req Resp) : Prop :=
  ∃ as t outcome, (∀ a ∈ as, a.Inert) ∧
    run (srv.leaseStep i c) s as = some t ∧
    t.caller = .stopped outcome leaseErr

theorem Leased.Ends.cons {leaseErr : Option GoErr}
    (h : LeaseMove srv i c s a t) (ha : a.Inert) (ht : t.Ends srv i c leaseErr) :
    s.Ends srv i c leaseErr := by
  obtain ⟨as, u, outcome, has, hrun, hk⟩ := ht
  exact ⟨a :: as, u, outcome, List.forall_mem_cons.mpr ⟨ha, has⟩,
    run_cons.mpr ⟨t, step_of_leaseMove h, hrun⟩, hk⟩

theorem ends_stopped {outcome : Except Status Resp} {leaseErr : Option GoErr}
    (hk : s.caller = .stopped outcome leaseErr) : s.Ends srv i c leaseErr :=
  ⟨[], s, outcome, nofun, rfl, hk⟩

theorem ends_waiting {outcome : Except Status Resp} {leaseErr : Option GoErr}
    (hk : s.caller = .waiting outcome) (hdone : s.done = some leaseErr) :
    s.Ends srv i c leaseErr :=
  .cons (.receive hk hdone) trivial
    (.cons (.cancelNil rfl) trivial (ends_stopped rfl))

theorem ends_handled {outcome : Except Status Resp} {leaseErr : Option GoErr}
    (hk : s.caller = .handled outcome) (hdone : s.done = some leaseErr) :
    s.Ends srv i c leaseErr :=
  .cons (.close hk) trivial (ends_waiting rfl hdone)

theorem ends_handling {leaseErr : Option GoErr} (hk : s.caller = .handling)
    (hdone : s.done = some leaseErr) : s.Ends srv i c leaseErr :=
  have hreturn : LeaseMove srv i c s
      (.handlerReturn (.error leaseUnavailable)) _ := .handlerReturn hk
  .cons hreturn trivial (ends_handled rfl hdone)

/-- A `Renew` that failed comes out of `stop`. -/
theorem ends_failed {err : GoErr} (hr : s.renewal = .cancelling err)
    (hsent : s.Sent) (hk : s.caller ≠ .panicked) :
    s.Ends srv i c (some err) := by
  have hnone : ∀ err, ¬ (s.done = some err ∨
      s.caller.leaseErr = some err) := by
    intro err herr
    rw [hsent err herr] at hr
    cases hr
  have hdone : s.done = none :=
    Option.eq_none_iff_forall_ne_some.mpr fun err h => hnone err (.inl h)
  refine .cons (.cancelCause hr) trivial (.cons (.send rfl hdone) trivial ?_)
  cases hcaller : s.caller with
  | handling => exact ends_handling hcaller rfl
  | handled outcome => exact ends_handled hcaller rfl
  | waiting outcome => exact ends_waiting hcaller rfl
  | received outcome leaseErr | stopped outcome leaseErr =>
      exact absurd (.inr (by rw [hcaller]; rfl)) (hnone leaseErr)
  | panicked => exact absurd hcaller hk

theorem exposed_fails (hstarts : srv.startsLease c = true) (hsent : s.Sent)
    (howned : s.Owned srv c) (hk : s.caller ≠ .panicked)
    (hexposed : s.Exposed) :
    ∃ as t, run (srv.leaseStep i c) s as = some t ∧
      (∀ p ∈ steps (srv.leaseStep i c) s as,
        Works srv c p.1 p.2 ∧ Calm p.1 p.2) ∧ ¬ t.GoesOn c := by
  obtain ⟨hr, hlease⟩ := hexposed
  have hrenew := renew_eq hstarts (.notExecuted errCanceled)
    s.sys.store.redis
  -- The script is not executed, so Redis stays as it is.
  have hstep : step srv.manager s.sys.store
      (.call (.renew c.req.key c.owner) (.notExecuted errCanceled)) =
      some { s.sys.store with
        history := s.sys.store.history ++ [(.renew c.req.key c.owner,
          .err (.wrap "renew idempotency request" errCanceled))] } := by
    simp only [step, Manager.perform, hrenew]
    rfl
  have hfailed := step_of_leaseMove (i := i)
    (.renewFailed hr hstep (congrArg Prod.snd hrenew))
  obtain ⟨as, t, outcome, has, hrun, hstopped⟩ :=
    ends_failed (i := i) rfl (sent_step hsent hfailed) hk
  refine ⟨_, t, run_cons.mpr ⟨_, hfailed, hrun⟩, ?_, ?_⟩
  · refine forall_steps_cons (C := fun s a => Works srv c s a ∧ Calm s a)
      hfailed ⟨⟨howned, ?_⟩, trivial⟩ (inert_steps howned has)
    rintro fault ⟨⟩
    exact .inr ⟨hlease, errCanceled, .inl rfl, .inl rfl⟩
  · intro hgoes
    cases (hgoes outcome _ hstopped).1

/-! ## The caller's cancellation -/

/-- With Redis working and the record owned, `stop` returns nothing and the
interceptor goes on to store the outcome, in every run in which no `Renew`
meets a cancelled lease context. And from any state of the lease in which no
`Renew` has failed so far, this is so in every such continuation if and only
if none is under way on a cancelled lease context already. -/
theorem stop_goes_on_iff {start : Leased Req Resp} {sys : Sys Req Resp}
    {parent : Option GoErr} (hstart : srv.startLease sys c parent = some start)
    {as : List (LeaseAction Req Resp)}
    (hrun : run (srv.leaseStep i c) start as = some s) :
    ((∀ p ∈ steps (srv.leaseStep i c) start as,
        Works srv c p.1 p.2 ∧ Calm p.1 p.2) → s.GoesOn c) ∧
      (s.Owned srv c → s.caller ≠ .panicked → s.renewal.failure = none →
        ((∀ bs t, run (srv.leaseStep i c) s bs = some t →
            (∀ p ∈ steps (srv.leaseStep i c) s bs,
              Works srv c p.1 p.2 ∧ Calm p.1 p.2) → t.GoesOn c) ↔
          ¬ s.Exposed)) := by
  have hstarts := (startLease_eq hstart).1
  have hsent := sent_run (startLease_sent hstart) hrun
  constructor
  · intro hsteps
    exact (fine_run hstarts (startLease_fine hstart) hsteps hrun).goesOn
  · intro howned hk hfailure
    constructor
    · intro hall hexposed
      obtain ⟨bs, t, hrest, hsteps, hnot⟩ :=
        exposed_fails (i := i) hstarts hsent howned hk hexposed
      exact hnot (hall bs t hrest hsteps)
    · intro hexposed bs t hrest hsteps
      exact (fine_run hstarts ⟨hsent, hfailure, hexposed⟩ hsteps hrest).goesOn

/-- The call of `createOrder` at the start of its lease. -/
def orderCall : CallState Bytes Bytes :=
  { req := createOrder, phase := .acquired, owner := "owner-0" }

/-- The caller's context is cancelled after a `Renew`. -/
def cancelledAfterRenew : List (LeaseAction Bytes Bytes) :=
  [.tick, .renewReturn .none, .parentCancel errCanceled, .propagate, .seeDone]

/-- And under one. -/
def cancelledUnderRenew : List (LeaseAction Bytes Bytes) :=
  [.tick, .parentCancel errCanceled, .propagate,
    .renewReturn (.notExecuted errCanceled), .cancelCause]

def orderStopped : List (LeaseAction Bytes Bytes) :=
  [.send, .handlerReturn (.ok (bytes "1")), .close, .receive, .cancelNil]

theorem stop_goes_on_iff_afterRenew : ∃ sys start s t,
    run orderServer.step {}
      [.arrive 0 createOrder, .begin 0 "owner-0" .none] = some sys ∧
    orderServer.startLease sys orderCall none = some start ∧
    run (orderServer.leaseStep 0 orderCall) start cancelledAfterRenew =
      some s ∧
    run (orderServer.leaseStep 0 orderCall) s orderStopped = some t ∧
    t.caller = .stopped (.ok (bytes "1")) none ∧ t.GoesOn orderCall := by
  obtain ⟨sys, start, s, t, hsys, hstart, hrun, hrest, howned, hk, hr,
      hstopped⟩ : ∃ sys start s t,
      run orderServer.step {}
        [.arrive 0 createOrder, .begin 0 "owner-0" .none] = some sys ∧
      orderServer.startLease sys orderCall none = some start ∧
      run (orderServer.leaseStep 0 orderCall) start cancelledAfterRenew =
        some s ∧
      run (orderServer.leaseStep 0 orderCall) s orderStopped = some t ∧
      s.Owned orderServer orderCall ∧ s.caller = .handling ∧
      s.renewal = .sending none ∧
      t.caller = .stopped (.ok (bytes "1")) none :=
    ⟨_, _, _, _, rfl, rfl, rfl, rfl, rfl, rfl, rfl, rfl⟩
  refine ⟨sys, start, s, t, hsys, hstart, hrun, hrest, hstopped, ?_⟩
  refine ((stop_goes_on_iff hstart hrun).2 howned (by rw [hk]; nofun)
    (by rw [hr]; rfl)).mpr ?_ _ _ hrest
    (inert_steps howned (by simp [orderStopped, LeaseAction.Inert]))
  rintro ⟨hrenewing, -⟩
  rw [hr] at hrenewing
  cases hrenewing

/-- The handler succeeds, and the interceptor answers that the lease is
unavailable: the outcome is not stored and the record stays the call's. -/
theorem cancelled_renew_drops_outcome : ∃ sys start t,
    run orderServer.step {}
      [.arrive 0 createOrder, .begin 0 "owner-0" .none] = some sys ∧
    orderServer.startLease sys orderCall none = some start ∧
    run (orderServer.leaseStep 0 orderCall) start
      (cancelledUnderRenew ++ orderStopped) = some t ∧
    (∀ p ∈ steps (orderServer.leaseStep 0 orderCall) start
      (cancelledUnderRenew ++ orderStopped),
      Works orderServer orderCall p.1 p.2) ∧
    t.caller = .stopped (.ok (bytes "1"))
      (some (.wrap "renew idempotency request" errCanceled)) ∧
    (t.call orderCall).phase = .returned (.error leaseUnavailable) ∧
    t.Owned orderServer orderCall := by
  refine ⟨_, _, _, rfl, rfl, rfl, ?_, rfl, rfl, rfl⟩
  refine forall_steps_cons rfl ⟨rfl, nofun⟩ (forall_steps_cons rfl
    ⟨rfl, nofun⟩ (forall_steps_cons rfl ⟨rfl, nofun⟩
      (forall_steps_cons rfl ⟨rfl, ?_⟩ fun p hp =>
        (inert_steps ?_ ?_ p hp).1)))
  · rintro fault ⟨⟩
    exact .inr ⟨rfl, errCanceled, .inl rfl, .inl rfl⟩
  · rfl
  · simp [orderStopped, LeaseAction.Inert]

/-- The lease of `stop_goes_on_iff_afterRenew`, as the interceptor's machine
has it. -/
theorem lease_refines_afterRenew : ∃ sys start t,
    run orderServer.step {}
      [.arrive 0 createOrder, .begin 0 "owner-0" .none] = some sys ∧
    orderServer.startLease sys orderCall none = some start ∧
    run (orderServer.leaseStep 0 orderCall) start
      (cancelledAfterRenew ++ orderStopped) = some t ∧
    run orderServer.step sys [.lease 0, .renew 0 .none, .cancelled 0,
      .handle 0 (some (.ok (bytes "1"))), .stop 0] =
        some (t.toSys 0 orderCall) := by
  obtain ⟨sys, start, t, hsys, hcall, hstart, hrun⟩ : ∃ sys start t,
      run orderServer.step {}
        [.arrive 0 createOrder, .begin 0 "owner-0" .none] = some sys ∧
      sys.calls 0 = some orderCall ∧
      orderServer.startLease sys orderCall none = some start ∧
      run (orderServer.leaseStep 0 orderCall) start
        (cancelledAfterRenew ++ orderStopped) = some t :=
    ⟨_, _, _, rfl, rfl, rfl, rfl⟩
  exact ⟨sys, start, t, hsys, hstart, hrun,
    lease_refines hcall rfl hstart hrun⟩

end PlatformGo.Idempotency
