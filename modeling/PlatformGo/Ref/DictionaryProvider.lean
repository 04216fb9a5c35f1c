import Mathlib.Logic.Function.Basic
import PlatformGo.Lib.GoText
import PlatformGo.Lib.Lts

/-!
# Registering a dictionary provider

Every replica of a provider runs `supervise`: it tries to take the leader lock
and, when it has it, runs a session. A session registers the provider, renews
its lease until its context is cancelled, and then unwinds its deferred calls,
the last one first: unregister, clear the active flag, unlock, cancel. Beside
it a goroutine extends the lock and cancels the session when that fails. The
goroutine of an old session may still be there when the next one has begun, so
contexts and goroutines are numbered by session.

A replica on its own is `Registrant.step`. `Cluster` is any number of replicas
with the locker they share. The lock changes hands where `TryLock` answers
that it was acquired and where `Unlock` is called.
-/

namespace PlatformGo.DictionaryProvider

structure Config where
  serviceName : String
  target : String
  /-- Each in its encoding. -/
  capabilities : List Bytes
  cacheTTL : Time := 0
  callTimeout : Time := 0
  providerTimeout : Time := 0
  leaseDuration : Time := 0
  retryDelay : Time := 0
  leaderTTL : Time := 0
  leaderLockKey : String := ""
  deriving DecidableEq, Repr

def orDefault (value default : Time) : Time :=
  if value ≤ 0 then default else value

def Config.defaults (c : Config) : Config :=
  { c with
    callTimeout := orDefault c.callTimeout (5 * second)
    providerTimeout := orDefault c.providerTimeout (3 * second)
    leaseDuration := orDefault c.leaseDuration (60 * second)
    retryDelay := orDefault c.retryDelay (3 * second)
    leaderTTL := orDefault c.leaderTTL (30 * second)
    leaderLockKey :=
      if isBlank c.leaderLockKey then
        "dictionary-provider:" ++ trimSpace c.serviceName
      else c.leaderLockKey }

def Config.validate (c : Config) (registryNil : Bool) : Option GoErr :=
  let fail text := some (.new (bytes text))
  if registryNil then fail "dictionary registry is required"
  else if isBlank c.serviceName ∨ isBlank c.target then
    fail "provider service name and target are required"
  else if c.capabilities = [] then
    fail "at least one provider capability is required"
  else if c.leaseDuration < 15 * second ∨ c.leaseDuration > 300 * second then
    fail "provider lease must be between 15 and 300 seconds"
  else if c.leaderTTL < 3 * c.callTimeout then
    fail "leader TTL must be at least three call timeouts"
  else if c.cacheTTL < 0 ∨ c.cacheTTL > 3600 * second then
    fail "provider cache TTL must be between zero and one hour"
  else if c.providerTimeout < 100 * millisecond ∨
      c.providerTimeout > 30 * second then
    fail "provider timeout must be between 100 milliseconds and 30 seconds"
  else none

structure Registrant where
  config : Config
  /-- Whether there is a locker. -/
  locker : Bool

/-- `New`. -/
def new (config : Config) (registryNil locker : Bool) :
    Except GoErr Registrant :=
  match config.defaults.validate registryNil with
  | some err => .error err
  | none => .ok { config := config.defaults, locker }

/-- The conversion `uint32` of what a division leaves. -/
def uint32 (x : Int) : Nat := (x % 2 ^ 32).toNat

structure RegisterProviderRequest where
  serviceName : String
  target : String
  capabilities : List Bytes
  cacheTtlSeconds : Nat
  timeoutMilliseconds : Nat
  leaseSeconds : Nat
  deriving DecidableEq, Repr

def Registrant.registerRequest (r : Registrant) : RegisterProviderRequest where
  serviceName := r.config.serviceName
  target := r.config.target
  capabilities := r.config.capabilities
  cacheTtlSeconds := uint32 (r.config.cacheTTL.tdiv second)
  timeoutMilliseconds := uint32 (r.config.providerTimeout.tdiv millisecond)
  leaseSeconds := uint32 (r.config.leaseDuration.tdiv second)

/-- What `register` makes of the answer: the id and the token, if there was an
answer and neither is empty. -/
def registered : Option (String × String) → Option (String × String)
  | some (id, token) => if id = "" ∨ token = "" then none else some (id, token)
  | none => none

/-- Where a replica is. -/
inductive At where
  /-- At the top of the loop of `supervise`. -/
  | top
  /-- In `TryLock`. -/
  | trying
  /-- In `wait`. -/
  | waiting
  /-- At the start of a session. -/
  | starting
  | registering
  /-- Registered, before the active flag is set. -/
  | activating (id token : String)
  | serving (id token : String)
  | heartbeating (id token : String)
  | unregistering (id token : String)
  /-- Before the active flag is cleared. -/
  | deactivating
  /-- Before the call of `Unlock`. -/
  | releasing
  | unlocking
  /-- Before the context of the session is cancelled. -/
  | closing
  | returned
  deriving DecidableEq, Repr

/-- The goroutine that extends the lock of a session. -/
inductive Extender where
  | off
  | selecting
  | extending
  | cancelling
  | done
  deriving DecidableEq, Repr

structure Replica where
  at_ : At := .top
  active : Bool := false
  /-- Whether the context of `supervise` is cancelled. -/
  stopped : Bool := false
  /-- The number of sessions that have begun. -/
  sessions : Nat := 0
  cancelled : Nat → Bool := fun _ => false
  extender : Nat → Extender := fun _ => .off

inductive Answer where
  | acquired
  | taken
  | failed
  deriving DecidableEq, Repr

inductive Action where
  /-- The condition of the loop. -/
  | check
  | tryLockReturn (answer : Answer)
  /-- `wait` selects its timer. -/
  | timer
  /-- `wait` selects the context. -/
  | stopWait
  /-- The context of `supervise` is cancelled. -/
  | cancel
  /-- The session's context follows. -/
  | propagate (session : Nat)
  /-- A session begins and `Register` is called. -/
  | register (request : RegisterProviderRequest)
  | registerReturn (answer : Option (String × String))
  | activate
  | heartbeat (id token : String) (leaseSeconds : Nat)
  | heartbeatReturn (ok : Bool)
  /-- The context is selected and `Unregister` is called. -/
  | unregister (id token : String)
  | unregisterReturn (ok : Bool)
  | deactivate
  | unlock
  | unlockReturn (ok : Bool)
  /-- The deferred `cancel`, and the end of the session. -/
  | close
  | extend (session : Nat)
  | extendReturn (session : Nat) (ok : Bool)
  | extendCancel (session : Nat)
  | extendLeave (session : Nat)
  deriving DecidableEq, Repr

/-- Where the deferred calls go on once the session is over. -/
def Registrant.unwind (r : Registrant) : At :=
  if r.locker then .releasing else .closing

def Registrant.step (r : Registrant) (s : Replica) : Action → Option Replica
  | .check =>
      match s.at_ with
      | .top =>
          if s.stopped then some { s with at_ := .returned }
          else if r.locker then some { s with at_ := .trying }
          else some { s with at_ := .starting }
      | _ => none
  | .tryLockReturn answer =>
      match s.at_, answer with
      | .trying, .acquired => some { s with at_ := .starting }
      | .trying, _ => some { s with at_ := .waiting }
      | _, _ => none
  | .timer =>
      match s.at_ with
      | .waiting => some { s with at_ := .top }
      | _ => none
  | .stopWait =>
      match s.at_, s.stopped with
      | .waiting, true => some { s with at_ := .returned }
      | _, _ => none
  | .cancel => some { s with stopped := true }
  | .propagate session =>
      if s.stopped ∧ session < s.sessions then
        some { s with
          cancelled := Function.update s.cancelled session true }
      else none
  | .register request =>
      match s.at_ with
      | .starting =>
          if request = r.registerRequest then
            some { s with
              at_ := .registering
              sessions := s.sessions + 1
              cancelled := Function.update s.cancelled s.sessions s.stopped
              extender := Function.update s.extender s.sessions
                (if r.locker then .selecting else .off) }
          else none
      | _ => none
  | .registerReturn answer =>
      match s.at_, registered answer with
      | .registering, some (id, token) =>
          some { s with at_ := .activating id token }
      | .registering, none => some { s with at_ := r.unwind }
      | _, _ => none
  | .activate =>
      match s.at_ with
      | .activating id token =>
          some { s with at_ := .serving id token, active := true }
      | _ => none
  | .heartbeat id token leaseSeconds =>
      if s.at_ = .serving id token ∧
          leaseSeconds = r.registerRequest.leaseSeconds then
        some { s with at_ := .heartbeating id token }
      else none
  | .heartbeatReturn _ =>
      match s.at_ with
      | .heartbeating id token => some { s with at_ := .serving id token }
      | _ => none
  | .unregister id token =>
      if s.at_ = .serving id token ∧ s.cancelled (s.sessions - 1) then
        some { s with at_ := .unregistering id token }
      else none
  | .unregisterReturn _ =>
      match s.at_ with
      | .unregistering _ _ => some { s with at_ := .deactivating }
      | _ => none
  | .deactivate =>
      match s.at_ with
      | .deactivating => some { s with at_ := r.unwind, active := false }
      | _ => none
  | .unlock =>
      match s.at_ with
      | .releasing => some { s with at_ := .unlocking }
      | _ => none
  | .unlockReturn _ =>
      match s.at_ with
      | .unlocking => some { s with at_ := .closing }
      | _ => none
  | .close =>
      match s.at_ with
      | .closing =>
          some { s with
            at_ := if r.locker then .waiting else .returned
            cancelled := Function.update s.cancelled (s.sessions - 1) true }
      | _ => none
  | .extend session =>
      match s.extender session with
      | .selecting =>
          some { s with
            extender := Function.update s.extender session .extending }
      | _ => none
  | .extendReturn session ok =>
      match s.extender session with
      | .extending =>
          some { s with
            extender := Function.update s.extender session
              (if ok then .selecting else .cancelling) }
      | _ => none
  | .extendCancel session =>
      match s.extender session with
      | .cancelling =>
          some { s with
            cancelled := Function.update s.cancelled session true
            extender := Function.update s.extender session .done }
      | _ => none
  | .extendLeave session =>
      match s.extender session, s.cancelled session with
      | .selecting, true =>
          some { s with
            extender := Function.update s.extender session .done }
      | _, _ => none

/-! ## Replicas that share a locker -/

structure Cluster where
  replicas : Nat → Replica := fun _ => {}
  /-- Who was granted a key and has not called `Unlock` since. -/
  holder : String → Option Nat := fun _ => none

/-- A step of one replica. The locker grants a key only while nobody holds
it. -/
def Cluster.step (rs : Nat → Registrant) (c : Cluster) :
    Nat × Action → Option Cluster
  | (n, a) =>
      ((rs n).step (c.replicas n) a).bind fun s =>
        let key := (rs n).config.leaderLockKey
        let next := { c with replicas := Function.update c.replicas n s }
        match a with
        | .tryLockReturn .acquired =>
            if c.holder key = none then
              some { next with holder := Function.update c.holder key (some n) }
            else none
        | .unlock =>
            some { next with holder := Function.update c.holder key none }
        | _ => some next

end PlatformGo.DictionaryProvider
