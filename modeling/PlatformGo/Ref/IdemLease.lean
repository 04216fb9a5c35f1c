import PlatformGo.Ref.Interceptor

/-!
# The lease of an idempotent call

`StartLease` renews the record of a call from a goroutine of its own while the
handler runs, and hands the interceptor a context and the function `stop`. The
interceptor's machine has this as one value that is running or has ended. Here
it is at the grain of the channels and the contexts: the goroutine that renews
and the one that runs the handler and stops the lease are program counters,
`done` is a channel with room for one, `stopCh` is closed where the second one
says so, and a context is cancelled once, with the cause that came first.

When the ticker fires, when the caller's context is cancelled and what a
`Renew` answers is up to the actions. The cancellation of the caller's context
reaches the lease context in a step of its own. Everything else, which is the
store and the other calls, moves as it does in the interceptor's machine.
-/

namespace PlatformGo.Idempotency

variable {Req Resp : Type}

/-- The interval of the ticker. -/
def Manager.leaseInterval {R : Type} (m : Manager R) : Time :=
  let interval := m.cfg.processingTTL.tdiv 3
  if interval ≤ 0 then 1000000 else interval

/-- The goroutine that renews. -/
inductive Renewal where
  | selecting
  /-- In `Renew`. -/
  | renewing
  /-- `Renew` has failed; before `cancel(err)`. -/
  | cancelling (err : GoErr)
  /-- Before the send on `done`. -/
  | sending (err : Option GoErr)
  /-- Returned, after the send. -/
  | ended (err : Option GoErr)

/-- The goroutine of the call. -/
inductive Caller (Resp : Type) where
  /-- In the handler. -/
  | handling
  /-- The handler has returned; before `close(stopCh)`. -/
  | handled (outcome : Except Status Resp)
  /-- In `stop`, at `<-done`. -/
  | waiting (outcome : Except Status Resp)
  /-- In `stop`, before `cancel(nil)`. -/
  | received (outcome : Except Status Resp) (leaseErr : Option GoErr)
  /-- `stop` has returned. -/
  | stopped (outcome : Except Status Resp) (leaseErr : Option GoErr)
  /-- The handler has panicked, and `stop` is never called. -/
  | panicked

/-- Whether `stopCh` is closed. -/
def Caller.closed : Caller Resp → Bool
  | .waiting .. | .received .. | .stopped .. => true
  | _ => false

structure Leased (Req Resp : Type) where
  /-- The store and the other calls. -/
  sys : Sys Req Resp
  /-- The cause of the caller's context. -/
  parent : Option GoErr
  /-- The cause of the lease context. -/
  lease : Option GoErr
  /-- The interval of the ticker while it is running. -/
  ticker : Option Time
  renewal : Renewal := .selecting
  done : Option (Option GoErr) := none
  caller : Caller Resp := .handling

/-- `StartLease` and the call of the handler. A context made from a cancelled
one is cancelled from the start. -/
def Server.startLease (srv : Server Req Resp) (sys : Sys Req Resp)
    (c : CallState Req Resp) (parent : Option GoErr) :
    Option (Leased Req Resp) :=
  if srv.startsLease c then
    some
      { sys, parent, lease := parent
        ticker := some srv.manager.leaseInterval }
  else none

/-- `cancel` of the lease context. -/
def Leased.cancel (s : Leased Req Resp) (cause : GoErr) : Leased Req Resp :=
  { s with lease := some (s.lease.getD cause) }

/-- Where the goroutine goes with the answer of `Renew`. -/
def Renewal.answered : Result → Option Renewal
  | .ok => some .selecting
  | .err e => some (.cancelling e)
  | _ => none

/-- The call an event belongs to. -/
def Event.call : Event Req Resp → Option Nat
  | .arrive i _ | .begin i _ _ | .lease i | .renew i _ | .cancelled i
  | .handle i _ | .stop i | .persist i _ => some i
  | .expire _ | .tick _ => none

inductive LeaseAction (Req Resp : Type) where
  /-- Something happens to the store or to another call. -/
  | world (ev : Event Req Resp)
  /-- The caller's context is cancelled. -/
  | parentCancel (cause : GoErr)
  /-- The lease context follows it. -/
  | propagate
  /-- The ticker is selected and `Renew` is called. -/
  | tick
  | renewReturn (fault : Fault)
  /-- `cancel(err)`. -/
  | cancelCause
  /-- The send on `done`, and the return. -/
  | send
  /-- `<-stopCh` is selected. -/
  | seeStop
  /-- `<-leaseCtx.Done()` is selected. -/
  | seeDone
  | handlerReturn (outcome : Except Status Resp)
  | handlerPanic
  /-- `stop` is called and closes `stopCh`. -/
  | close
  /-- `stop` receives from `done`. -/
  | receive
  /-- `cancel(nil)`, and `stop` returns. -/
  | cancelNil

/-- The lease of the call `c`, which is the one with the number `i`. A `Renew`
is played where its script runs. -/
def Server.leaseStep (srv : Server Req Resp) (i : Nat)
    (c : CallState Req Resp) (s : Leased Req Resp) :
    LeaseAction Req Resp → Option (Leased Req Resp)
  | .world ev =>
      if ev.call = some i then none
      else (srv.step s.sys ev).map fun sys => { s with sys }
  | .parentCancel cause =>
      some { s with parent := some (s.parent.getD cause) }
  | .propagate => s.parent.map s.cancel
  | .tick =>
      match s.renewal, s.ticker with
      | .selecting, some _ => some { s with renewal := .renewing }
      | _, _ => none
  | .renewReturn fault =>
      match s.renewal with
      | .renewing =>
          let call : Call Bytes := .renew c.req.key c.owner
          let answer := (srv.manager.perform fault s.sys.store.redis call).2
          (Idempotency.step srv.manager s.sys.store (.call call fault)).bind
            fun store => (Renewal.answered answer).map fun renewal =>
              { s with sys := { s.sys with store }, renewal }
      | _ => none
  | .cancelCause =>
      match s.renewal with
      | .cancelling err =>
          some { s.cancel err with renewal := .sending (some err) }
      | _ => none
  | .send =>
      match s.renewal, s.done with
      | .sending err, none =>
          some { s with
            renewal := .ended err, done := some err, ticker := none }
      | _, _ => none
  | .seeStop =>
      match s.renewal, s.caller.closed with
      | .selecting, true => some { s with renewal := .sending none }
      | _, _ => none
  | .seeDone =>
      match s.renewal, s.lease with
      | .selecting, some _ => some { s with renewal := .sending none }
      | _, _ => none
  | .handlerReturn outcome =>
      match s.caller with
      | .handling => some { s with caller := .handled outcome }
      | _ => none
  | .handlerPanic =>
      match s.caller with
      | .handling => some { s with caller := .panicked }
      | _ => none
  | .close =>
      match s.caller with
      | .handled outcome => some { s with caller := .waiting outcome }
      | _ => none
  | .receive =>
      match s.caller, s.done with
      | .waiting outcome, some leaseErr =>
          some { s with caller := .received outcome leaseErr, done := none }
      | _, _ => none
  | .cancelNil =>
      match s.caller with
      | .received outcome leaseErr =>
          some { s.cancel errCanceled with
            caller := .stopped outcome leaseErr }
      | _ => none

/-! ## The interceptor's view -/

/-- The lease of the interceptor's machine. -/
def Renewal.lease : Renewal → Lease
  | .selecting | .renewing => .running
  | .cancelling err => .ended (some err)
  | .sending err | .ended err => .ended err

/-- The interceptor on what `stop` returned. -/
def Phase.afterStop : Option GoErr → Phase Resp
  | none => .persisting
  | some leaseErr =>
      if leaseErr.is "idempotency ownership expired" then
        .returned (.error ⟨Code.aborted, "idempotency ownership expired"⟩)
      else .returned (.error leaseUnavailable)

def Caller.phase (lease : Lease) : Caller Resp → Phase Resp
  | .handling => .handling lease
  | .handled _ | .waiting _ | .received .. => .handled lease
  | .stopped _ leaseErr => .afterStop leaseErr
  | .panicked => .panicked lease

def Caller.outcome : Caller Resp → Option (Except Status Resp)
  | .handled outcome | .waiting outcome | .received outcome _
  | .stopped outcome _ => some outcome
  | .handling | .panicked => none

/-- The call as the interceptor's machine has it. -/
def Leased.call (s : Leased Req Resp) (c : CallState Req Resp) :
    CallState Req Resp :=
  { c with
    phase := s.caller.phase s.renewal.lease
    outcome := s.caller.outcome.or c.outcome }

/-- The whole system as the interceptor's machine has it. -/
def Leased.toSys (s : Leased Req Resp) (i : Nat) (c : CallState Req Resp) :
    Sys Req Resp :=
  s.sys.set i (s.call c)

/-- The event of the interceptor's machine an action amounts to. A goroutine
that leaves without an error is one event there, for whichever reason. -/
def LeaseAction.event (i : Nat) :
    LeaseAction Req Resp → Option (Event Req Resp)
  | .world ev => some ev
  | .renewReturn fault => some (.renew i fault)
  | .seeStop | .seeDone => some (.cancelled i)
  | .handlerReturn outcome => some (.handle i (some outcome))
  | .handlerPanic => some (.handle i none)
  | .cancelNil => some (.stop i)
  | _ => none

end PlatformGo.Idempotency
