import PlatformGo.Ref.Outbox

/-!
# A dispatched batch

`Dispatcher.RunOnce` for any store and any publisher. What their calls return,
what the context says before each event and what the clock reads are given by
the position of the event in the batch. The calls are recorded, each under the
position of its event; the code keeps no such record.
-/

namespace PlatformGo.Outbox

structure Dispatcher where
  batchSize : Int
  lease : Time
  retryDelay : Time
  /-- The printable characters of `%q`. -/
  isPrint : Char → Bool

/-- `New`, for a store and a publisher that are there or not. -/
def Dispatcher.new (storeNil publisherNil : Bool) (config : Config)
    (isPrint : Char → Bool) : Except GoErr Dispatcher :=
  if storeNil ∨ publisherNil then
    .error (.new (bytes "outbox store and publisher are required"))
  else
    let config := config.new
    .ok ⟨config.batchSize, config.lease, config.retryDelay, isPrint⟩

/-- What `RunOnce` is told in the round of an event. -/
structure Outcome where
  /-- `ctx.Err()` at the start of the round. -/
  ctxErr : Option GoErr := none
  publish : Option GoErr := none
  markPublished : Option GoErr := none
  markFailed : Option GoErr := none
  now : Time := 0
  deriving DecidableEq, Repr

inductive Call where
  | publish (subject : String) (envelope : Option EventBus.EventEnvelope)
  | markPublished (event : Event) (at_ : Time)
  | markFailed (event : Event) (message : Bytes) (retryAt : Time)
  deriving DecidableEq, Repr

structure Tally where
  published : Nat := 0
  dispatchErrors : List GoErr := []
  calls : List (Nat × Call) := []
  deriving DecidableEq, Repr

def Tally.call (p : Tally) (i : Nat) (call : Call) : Tally :=
  { p with calls := p.calls ++ [(i, call)] }

def Tally.fail (p : Tally) (err : GoErr) : Tally :=
  { p with dispatchErrors := p.dispatchErrors ++ [err] }

/-- The body of the loop, for a context that is not cancelled. -/
def Dispatcher.dispatch (d : Dispatcher) (outcome : Outcome) (i : Nat)
    (event : Event) (p : Tally) : Tally :=
  let name := quote d.isPrint event.id
  let p := p.call i (.publish event.subject event.envelope)
  match outcome.publish with
  | some err =>
      let retryAt := outcome.now + d.retryDelay
      let p := p.call i (.markFailed event err.text retryAt)
      match outcome.markFailed with
      | some markErr =>
          p.fail (.join err (.wrap ("mark event " ++ name ++ " failed") markErr))
      | none => p.fail (.wrap ("publish event " ++ name) err)
  | none =>
      let p := p.call i (.markPublished event outcome.now)
      match outcome.markPublished with
      | some err =>
          p.fail (.wrap ("mark event " ++ name ++ " published") err)
      | none => { p with published := p.published + 1 }

/-- The loop over the events from a position on, and the error returned. -/
def Dispatcher.loop (d : Dispatcher) (results : Nat → Outcome) :
    Nat → List Event → Tally → Tally × Option GoErr
  | _, [], p => (p, errorsJoin (p.dispatchErrors.map some))
  | i, event :: events, p =>
      match (results i).ctxErr with
      | some err => (p, errorsJoin ((p.dispatchErrors ++ [err]).map some))
      | none => d.loop results (i + 1) events (d.dispatch (results i) i event p)

/-- `RunOnce` after `Claim` has returned. -/
def Dispatcher.runOnce (d : Dispatcher) (results : Nat → Outcome) :
    Except GoErr (List Event) → Tally × Option GoErr
  | .error err => ({}, some (.wrap "claim outbox events" err))
  | .ok events => d.loop results 0 events {}

end PlatformGo.Outbox
