import PlatformGo.Ref.Discovery

/-!
# Registering an instance

`Run` of a `Registrant` registers an instance, renews its lease with a
heartbeat and registers it again when the lease is lost. It stops when its
context is cancelled. The machine is that loop, one step for every call that
returns, every select of `waitJitter` and every look at the context at the top
of the loop. The requests it sends are recorded in the order in which they are
sent.
-/

namespace PlatformGo.ServiceRegistry

structure RegistrantConfig where
  /-- `none` is a nil pointer. -/
  inst : Option ServiceInstance
  lease : Time := 0
  heartbeatInterval : Time := 0
  callTimeout : Time := 0
  retryMin : Time := 0
  retryMax : Time := 0

/-- The settings of a `Registrant`, with the instance they are about. -/
structure Registrant where
  inst : ServiceInstance
  lease : Time
  heartbeatInterval : Time
  callTimeout : Time
  retryMin : Time
  retryMax : Time

/-- `NewRegistrant`, with the settings it fills in. -/
def newRegistrant (clientNil : Bool) (config : RegistrantConfig) :
    Except GoErr Registrant :=
  match clientNil, config.inst with
  | true, _ | _, none =>
      .error (.new (bytes "registry client and instance are required"))
  | false, some inst =>
      let lease := if config.lease = 0 then 30 * second else config.lease
      let heartbeatInterval :=
        if config.heartbeatInterval = 0 then lease.tdiv 3
        else config.heartbeatInterval
      if heartbeatInterval ≥ lease then
        .error (.new (bytes "heartbeat interval must be shorter than lease"))
      else
        .ok {
          inst, lease, heartbeatInterval
          callTimeout :=
            if config.callTimeout = 0 then 3 * second else config.callTimeout
          retryMin :=
            if config.retryMin = 0 then 250 * millisecond else config.retryMin
          retryMax :=
            if config.retryMax = 0 then 5 * second else config.retryMax }

/-- `uint32(Lease / time.Second)`. -/
def Registrant.leaseSeconds (r : Registrant) : Nat :=
  (r.lease.tdiv second % 2 ^ 32).toNat

/-- `min(backoff*2, RetryMax)`, the product in 64 bits. -/
def Registrant.nextBackoff (r : Registrant) (backoff : Time) : Time :=
  min (Int.bmod (backoff * 2) (2 ^ 64)) r.retryMax

/-! ## Jitter -/

/-- What `rand.Int64N(delta*2)` can return in `waitJitter`, which calls it if a
fifth of the duration is positive. -/
def Drawn (duration random : Int) : Prop :=
  0 < duration.tdiv 5 → 0 ≤ random ∧ random < duration.tdiv 5 * 2

instance (duration random : Int) : Decidable (Drawn duration random) :=
  inferInstanceAs (Decidable (_ → _))

/-- The duration `waitJitter` sets its timer to, in 64 bits. -/
def waitJitterTimer (duration random : Int) : Int :=
  let delta := duration.tdiv 5
  if 0 < delta then Int.bmod (duration + (random - delta)) (2 ^ 64)
  else duration

/-! ## The loop -/

inductive Request where
  | registerInstance (inst : ServiceInstance) (leaseSeconds : Nat)
  | renewLease (serviceName instanceId leaseToken : String)
      (leaseSeconds : Nat)
  | setInstanceStatus (serviceName instanceId leaseToken : String)
      (status : InstanceStatus)
  | deregisterInstance (serviceName instanceId leaseToken : String)
  deriving DecidableEq, Repr

def Registrant.registerRequest (r : Registrant) : Request :=
  .registerInstance r.inst r.leaseSeconds

def Registrant.renewRequest (r : Registrant) (token : String) : Request :=
  .renewLease r.inst.serviceName r.inst.instanceId token r.leaseSeconds

def Registrant.drainRequest (r : Registrant) (token : String) : Request :=
  .setInstanceStatus r.inst.serviceName r.inst.instanceId token .draining

def Registrant.deregisterRequest (r : Registrant) (token : String) : Request :=
  .deregisterInstance r.inst.serviceName r.inst.instanceId token

/-- The codes of a failed call that `Run` tells apart. -/
inductive StatusCode where
  | notFound
  | permissionDenied
  | other (code : Nat)
  deriving DecidableEq, Repr

/-- Where `Run` is. The waits carry the duration given to `waitJitter`. -/
inductive RunAt where
  /-- At the top of the loop. -/
  | top
  | registering
  /-- Waiting after a failed registration. -/
  | retrying (duration : Time)
  /-- Waiting for the next heartbeat. -/
  | beating (duration : Time)
  | renewing
  /-- Waiting after a failed renewal. -/
  | backingOff (duration : Time)
  /-- In `shutdown`, in the call of `SetInstanceStatus`. -/
  | draining (token : String)
  | deregistering (token : String)
  | returned (err : Option GoErr)
  deriving DecidableEq, Repr

structure Registration where
  at_ : RunAt := .top
  token : String := ""
  backoff : Time
  /-- `ctx.Err()`. -/
  ctxErr : Option GoErr := none
  sent : List Request := []

/-- `Run` is called, with the token a run before may have left. -/
def Registrant.start (r : Registrant) (token : String) : Registration :=
  { token, backoff := r.retryMin }

inductive RunAction where
  /-- The context is cancelled, or its deadline passes. -/
  | cancel (err : GoErr)
  /-- The look at `ctx.Err()` at the top of the loop. -/
  | check
  /-- `RegisterInstance` returns a token, or an error. -/
  | registerReturn (token : Option String)
  /-- `waitJitter` selects the timer. -/
  | timer
  /-- `waitJitter` selects the context. -/
  | done
  | renewReturn (code : Option StatusCode)
  | drainReturn
  | deregisterReturn (err : Option GoErr)
  deriving DecidableEq, Repr

def Registration.send (s : Registration) (request : Request) : Registration :=
  { s with sent := s.sent ++ [request] }

/-- `shutdown`, up to its first call. -/
def Registrant.shutdown (r : Registrant) (s : Registration) : Registration :=
  if s.token = "" then { s with at_ := .returned none }
  else { s.send (r.drainRequest s.token) with at_ := .draining s.token }

def Registrant.step (r : Registrant) (s : Registration) :
    RunAction → Option Registration
  | .cancel err => some { s with ctxErr := some (s.ctxErr.getD err) }
  | .check =>
      match s.at_ with
      | .top =>
          match s.ctxErr with
          | some err => some { s with at_ := .returned (some err) }
          | none =>
              if s.token = "" then
                some { s.send r.registerRequest with at_ := .registering }
              else some { s with at_ := .beating r.heartbeatInterval }
      | _ => none
  | .registerReturn result =>
      match s.at_, result with
      | .registering, some token =>
          some { s with
            at_ := .beating r.heartbeatInterval, token
            backoff := r.retryMin }
      | .registering, none => some { s with at_ := .retrying s.backoff }
      | _, _ => none
  | .timer =>
      match s.at_ with
      | .retrying _ | .backingOff _ =>
          some { s with at_ := .top, backoff := r.nextBackoff s.backoff }
      | .beating _ =>
          some { s.send (r.renewRequest s.token) with at_ := .renewing }
      | _ => none
  | .done =>
      match s.ctxErr, s.at_ with
      | some err, .retrying _ => some { s with at_ := .returned (some err) }
      | some _, .beating _ | some _, .backingOff _ => some (r.shutdown s)
      | _, _ => none
  | .renewReturn code =>
      match s.at_, code with
      | .renewing, none => some { s with at_ := .top, backoff := r.retryMin }
      | .renewing, some code =>
          let token :=
            if code = .notFound ∨ code = .permissionDenied then ""
            else s.token
          some { s with at_ := .backingOff s.backoff, token }
      | _, _ => none
  | .drainReturn =>
      match s.at_ with
      | .draining token =>
          some { s.send (r.deregisterRequest token) with
            at_ := .deregistering token }
      | _ => none
  | .deregisterReturn err =>
      match s.at_ with
      | .deregistering _ => some { s with at_ := .returned err }
      | _ => none

end PlatformGo.ServiceRegistry
