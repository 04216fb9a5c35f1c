import PlatformGo.Lib.GoText
import PlatformGo.Lib.Lts

/-!
# Running a callback under a lease

`WithLock` and `TryWithLock` take a lock and hand it to `runLease`, which
starts a goroutine that extends the lease every third of its time to live,
runs the callback under a context that is cancelled when an extension fails,
and gives the lock back.

The machine has the two goroutines as program counters that carry the local
variables, the buffered channel between them and the two contexts. A context
is cancelled once, and its cause is what it was cancelled with first. What the
locker, the mutex and the callback answer, when the ticker fires and when the
caller's context is cancelled is up to the actions. The cancellation of the
caller's context reaches the lease context in a step of its own.
-/

namespace PlatformGo.Distlock

def errInvalid : GoErr := .sentinel "invalid distributed lock request"

def errNotOwned : GoErr := .sentinel "distributed lock is no longer owned"

inductive Entry where
  | withLock
  | tryWithLock
  deriving DecidableEq, Repr

/-- A call: the function and the arguments `validateLeaseInputs` looks at. -/
structure Call where
  entry : Entry
  lockerNil : Bool := false
  fnNil : Bool := false
  ttl : Time

def Call.validateLeaseInputs (c : Call) : Option GoErr :=
  if c.lockerNil ∨ c.fnNil then
    some (.detail errInvalid "locker and callback are required")
  else if c.ttl < 3 * millisecond then
    some (.detail errInvalid "auto-renewed lock ttl must be at least 3ms")
  else none

/-- The interval of the ticker. -/
def Call.interval (c : Call) : Time :=
  let interval := c.ttl.tdiv 3
  if interval ≤ 0 then 1 else interval

def Call.unlockTimeout (c : Call) : Time :=
  if c.ttl > 5000 * millisecond then 5000 * millisecond else c.ttl

/-- The goroutine of the caller. -/
inductive Caller where
  | validating
  /-- In `Lock` or `TryLock`. -/
  | locking
  /-- With the mutex, before `runLease`. -/
  | holding
  /-- In the callback. -/
  | running
  | calledBack (callbackErr : Option GoErr)
  /-- At `<-done`. -/
  | waiting (callbackErr : Option GoErr)
  /-- In `Unlock`, under a context of its own with the timeout. -/
  | unlocking (callbackErr extendErr : Option GoErr) (timeout : Time)
  /-- Returned before there was a lease. -/
  | refused (acquired : Bool) (err : Option GoErr)
  /-- Returned from `runLease`. -/
  | released (callbackErr extendErr unlockErr : Option GoErr)
  /-- The callback has panicked, and the panic has left `runLease`, which
  defers nothing. -/
  | panicked
  deriving DecidableEq, Repr

/-- What is returned; `WithLock` returns the error only. -/
def Caller.result : Caller → Option (Bool × Option GoErr)
  | .refused acquired err => some (acquired, err)
  | .released callbackErr extendErr unlockErr =>
      some (true, errorsJoin [callbackErr, extendErr, unlockErr])
  | _ => none

/-- The goroutine that renews. -/
inductive Renewal where
  | off
  | selecting
  /-- In `Extend`. -/
  | extending
  /-- `Extend` has failed; before the look at the lease context. -/
  | failed (extendErr : GoErr)
  | sending (extendErr : GoErr)
  | cancelling (extendErr : GoErr)
  /-- Returned: the ticker is stopped and `done` is closed. -/
  | done
  deriving DecidableEq, Repr

structure Lease where
  caller : Caller := .validating
  renewal : Renewal := .off
  /-- The interval of the ticker while it is running. -/
  ticker : Option Time := none
  /-- `extendErrors`, which has room for one. -/
  channel : Option GoErr := none
  /-- The cause of the caller's context. -/
  parent : Option GoErr := none
  /-- The cause of the lease context. -/
  lease : Option GoErr := none

/-- `cancel` of a context: the first cause stays. -/
def cancelWith (context : Option GoErr) (cause : GoErr) : Option GoErr :=
  some (context.getD cause)

/-- What the caller does with the answer of the locker. -/
def Entry.lockAnswer : Entry → Bool → Option GoErr → Caller
  | .withLock, _, none => .holding
  | .withLock, _, some err => .refused false (some err)
  | .tryWithLock, true, none => .holding
  | .tryWithLock, acquired, err => .refused acquired err

inductive Action where
  | validate
  /-- `Lock` or `TryLock` returns. -/
  | lockReturn (acquired : Bool) (err : Option GoErr)
  /-- `runLease` begins: the context, the goroutine, the callback. -/
  | callback
  | callbackReturn (err : Option GoErr)
  | callbackPanic
  /-- The caller's context is cancelled. -/
  | parentCancel (cause : GoErr)
  /-- The lease context follows it. -/
  | propagate
  /-- `cancel(nil)`. -/
  | cancelNil
  /-- The ticker is selected and `Extend` is called. -/
  | extend
  | extendReturn (err : Option GoErr)
  /-- The look at `leaseCtx.Err()`. -/
  | check
  | send
  /-- `cancel(extendErr)`. -/
  | cancelCause
  /-- `<-leaseCtx.Done()` is selected. -/
  | leave
  /-- `done` is closed, the channel is read and `Unlock` is called. -/
  | unlock
  | unlockReturn (err : Option GoErr)
  deriving DecidableEq, Repr

/-- The goroutine that renews returns. -/
def Lease.finish (s : Lease) : Lease :=
  { s with renewal := .done, ticker := none }

def Call.step (c : Call) (s : Lease) : Action → Option Lease
  | .validate =>
      match s.caller with
      | .validating =>
          match c.validateLeaseInputs with
          | some err => some { s with caller := .refused false (some err) }
          | none => some { s with caller := .locking }
      | _ => none
  | .lockReturn acquired err =>
      match s.caller with
      | .locking => some { s with caller := c.entry.lockAnswer acquired err }
      | _ => none
  | .callback =>
      match s.caller with
      | .holding =>
          -- A context made from a cancelled one is cancelled from the start.
          some { s with
            caller := .running, renewal := .selecting
            ticker := some c.interval, lease := s.parent }
      | _ => none
  | .callbackReturn err =>
      match s.caller with
      | .running => some { s with caller := .calledBack err }
      | _ => none
  | .callbackPanic =>
      match s.caller with
      | .running => some { s with caller := .panicked }
      | _ => none
  | .parentCancel cause => some { s with parent := cancelWith s.parent cause }
  | .propagate =>
      match s.renewal, s.parent with
      | .off, _ | _, none => none
      | _, some cause => some { s with lease := cancelWith s.lease cause }
  | .cancelNil =>
      match s.caller with
      | .calledBack callbackErr =>
          some { s with
            caller := .waiting callbackErr
            lease := cancelWith s.lease errCanceled }
      | _ => none
  | .extend =>
      match s.renewal, s.ticker with
      | .selecting, some _ => some { s with renewal := .extending }
      | _, _ => none
  | .extendReturn err =>
      match s.renewal, err with
      | .extending, none => some { s with renewal := .selecting }
      | .extending, some err => some { s with renewal := .failed err }
      | _, _ => none
  | .check =>
      match s.renewal, s.lease with
      | .failed _, some _ => some s.finish
      | .failed err, none => some { s with renewal := .sending err }
      | _, _ => none
  | .send =>
      match s.renewal, s.channel with
      | .sending err, none =>
          some { s with renewal := .cancelling err, channel := some err }
      | _, _ => none
  | .cancelCause =>
      match s.renewal with
      | .cancelling err =>
          some { s.finish with lease := cancelWith s.lease err }
      | _ => none
  | .leave =>
      match s.renewal, s.lease with
      | .selecting, some _ => some s.finish
      | _, _ => none
  | .unlock =>
      match s.caller, s.renewal with
      | .waiting callbackErr, .done =>
          some { s with
            caller := .unlocking callbackErr s.channel c.unlockTimeout
            channel := none }
      | _, _ => none
  | .unlockReturn err =>
      match s.caller with
      | .unlocking callbackErr extendErr _ =>
          some { s with caller := .released callbackErr extendErr err }
      | _ => none

end PlatformGo.Distlock
