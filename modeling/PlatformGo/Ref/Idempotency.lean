import Mathlib.Logic.Function.Basic
import PlatformGo.Lib.Lts
import PlatformGo.Lib.Remote

/-!
# The idempotency manager

A `Manager` keeps one Redis hash per request key and touches it through four
scripts only. A script runs atomically; the call that sent it may still see an
error, either because the script was never executed or because its reply was
lost (`Fault`). Between any two scripts a record may expire.

The machine plays the calls of any number of clients in the order their
scripts run, with the expiry of records and the passing of time between them.
Its history lists every call with its result. Two things in the state are read
by no script and serve the statements only: the owner token of the `Begin` a
record was created by, and the log of the keys whose record expired. A second
machine, at the end, does the same for several managers on one Redis.

Redis drops a key at once when it is told to expire it after no time or less,
which is what a TTL below a millisecond amounts to.
-/

namespace PlatformGo.Idempotency

inductive State where
  | acquired
  | processing
  | completed
  | failed
  | conflict
  deriving DecidableEq, Repr

structure Config where
  enabled : Bool
  service : String
  processingTTL : Time
  resultTTL : Time
  failureTTL : Time
  maxResponseBytes : Int
  deriving DecidableEq, Repr

structure Failure where
  code : Int := 0
  message : String := ""
  httpStatus : Int := 0
  grpcCode : Int := 0
  deriving DecidableEq, Repr

structure Decision where
  state : State
  response : Bytes := []
  failure : Failure := {}
  owner : String := ""
  deriving DecidableEq, Repr

/-- `encoding/json` on the values the manager stores: responses of the type
`R` and failures. -/
structure Json (R : Type) where
  marshal : R → Except GoErr Bytes
  marshalFailure : Failure → Except GoErr Bytes
  unmarshalFailure : Bytes → Except GoErr Failure

structure Manager (R : Type) where
  /-- Whether the manager has a client. -/
  client : Bool := true
  cfg : Config
  json : Json R

def defaultMaxResponseBytes : Int := 2 ^ 20

/-- The manager `New` returns. -/
def Manager.new {R : Type} (client : Bool) (cfg : Config) (json : Json R) :
    Manager R :=
  { client, json
    cfg :=
      if cfg.maxResponseBytes ≤ 0 then
        { cfg with maxResponseBytes := defaultMaxResponseBytes }
      else cfg }

variable {R : Type}

def Manager.storageKey (m : Manager R) (key : String) : String :=
  "idempotency:" ++ m.cfg.service ++ ":" ++ key

/-- The characters a key may start with. -/
def keyStart (c : Char) : Bool := c.isAlphanum

/-- The characters of the rest of a key. -/
def keyChar (c : Char) : Bool :=
  keyStart c || c == '.' || c == '_' || c == ':' || c == '-'

/-- `Valid`: the pattern `^[A-Za-z0-9][A-Za-z0-9._:-]{7,127}$`. -/
def valid (key : String) : Bool :=
  match key.toList with
  | [] => false
  | c :: rest =>
      keyStart c && rest.all keyChar && 7 ≤ rest.length &&
        rest.length ≤ 127

/-- `Duration.Milliseconds`. -/
def milliseconds (d : Time) : Int := d.tdiv 1000000

/-! ## Redis -/

/-- The fields of a hash, each of them possibly not there. -/
structure Hash where
  state : Option State := none
  fingerprint : Option String := none
  owner : Option String := none
  response : Option Bytes := none
  failure : Option Bytes := none
  deriving DecidableEq, Repr

structure Entry where
  hash : Hash
  deadline : Option Time := none
  /-- The token of the call that made the entry. -/
  creator : String
  deriving DecidableEq, Repr

structure Redis where
  entries : String → Option Entry := fun _ => none
  now : Time := 0
  /-- The keys whose entry expired, the last one first. -/
  expiries : List String := []

def Redis.set (r : Redis) (k : String) (e : Option Entry) : Redis :=
  { r with entries := Function.update r.entries k e }

def Redis.expire (r : Redis) (k : String) : Redis :=
  match r.entries k with
  | none => r
  | some _ => { r.set k none with expiries := k :: r.expiries }

def Redis.pexpire (r : Redis) (k : String) (ms : Int) : Redis :=
  match r.entries k with
  | none => r
  | some e =>
      if ms ≤ 0 then r.expire k
      else r.set k (some { e with deadline := some (r.now + ms) })

/-- The guard the three owner scripts share. -/
def Redis.held (r : Redis) (k owner : String) : Bool :=
  match r.entries k with
  | none => false
  | some e =>
      e.hash.state == some .processing && e.hash.owner == some owner

def beginScript (k fingerprint : String) (ttl : Int) (owner : String)
    (r : Redis) : Redis × State × Bytes × Bytes :=
  match r.entries k with
  | none =>
      let hash : Hash :=
        { state := some .processing, fingerprint := some fingerprint
          owner := some owner }
      ((r.set k (some { hash, creator := owner })).pexpire k ttl,
        .acquired, [], [])
  | some e =>
      if e.hash.fingerprint ≠ some fingerprint then (r, .conflict, [], [])
      else
        (r, e.hash.state.getD .processing, e.hash.response.getD [],
          e.hash.failure.getD [])

def renewScript (k owner : String) (ttl : Int) (r : Redis) : Redis × Int :=
  if r.held k owner then (r.pexpire k ttl, 1) else (r, 0)

/-- A result to store: the state a record ends in, and the field it goes to. -/
inductive Outcome where
  | response (encoded : Bytes)
  | failure (encoded : Bytes)
  deriving DecidableEq, Repr

def Outcome.state : Outcome → State
  | .response _ => .completed
  | .failure _ => .failed

/-- `HSET` of the state and the field, then `HDEL` of the owner. -/
def Hash.finish (h : Hash) : Outcome → Hash
  | .response b =>
      { h with state := some .completed, response := some b, owner := none }
  | .failure b =>
      { h with state := some .failed, failure := some b, owner := none }

def finishScript (k owner : String) (outcome : Outcome) (ttl : Int)
    (r : Redis) : Redis × Int :=
  match r.entries k with
  | none => (r, 0)
  | some e =>
      if r.held k owner then
        ((r.set k (some { e with hash := e.hash.finish outcome })).pexpire k
          ttl, 1)
      else (r, 0)

def abortScript (k owner : String) (r : Redis) : Redis × Int :=
  if r.held k owner then (r.set k none, 1) else (r, 0)

/-! ## The manager's methods -/

def errOwnershipExpired : GoErr := .sentinel "idempotency ownership expired"

def errResponseTooLarge : GoErr :=
  .sentinel "idempotency response is too large"

def errUnavailable : GoErr := .new (bytes "idempotency is unavailable")

inductive Result where
  | decision (d : Decision)
  | ok
  | err (e : GoErr)
  /-- A method that does not check for a client was called without one. -/
  | panicked
  deriving DecidableEq

def Manager.available (m : Manager R) : Bool := m.cfg.enabled && m.client

/-- The end of `Begin`, once the script has answered. -/
def Manager.decide (m : Manager R) (owner : String)
    (value : State × Bytes × Bytes) : Except GoErr Decision :=
  let decision : Decision :=
    { state := value.1
      owner := if value.1 = .acquired then owner else ""
      response := value.2.1 }
  if value.2.2 = [] then .ok decision
  else
    match m.json.unmarshalFailure value.2.2 with
    | .error e => .error (.wrap "decode idempotency failure" e)
    | .ok failure => .ok { decision with failure }

/-- `Begin`, given the token it draws. -/
def Manager.begin (m : Manager R) (key fingerprint owner : String)
    (fault : Fault) (r : Redis) : Redis × Result :=
  if !m.available then (r, .err errUnavailable)
  else
    let (r', value) := fault.run (beginScript (m.storageKey key) fingerprint
      (milliseconds m.cfg.processingTTL) owner) r
    match value with
    | .error e => (r', .err (.wrap "begin idempotency request" e))
    | .ok value =>
        match m.decide owner value with
        | .error e => (r', .err e)
        | .ok d => (r', .decision d)

/-- The end the three owner methods share: an error of the call under the
method's own text, and an unchanged record as a lost ownership. -/
def changedResult (context : String) : Except GoErr Int → Result
  | .error e => .err (.wrap context e)
  | .ok changed => if changed ≠ 1 then .err errOwnershipExpired else .ok

def Manager.renew (m : Manager R) (key owner : String) (fault : Fault)
    (r : Redis) : Redis × Result :=
  if !m.available || key == "" || owner == "" || m.cfg.processingTTL ≤ 0 then
    (r, .err errUnavailable)
  else
    let (r', value) := fault.run (renewScript (m.storageKey key) owner
      (milliseconds m.cfg.processingTTL)) r
    (r', changedResult "renew idempotency request" value)

def Manager.abort (m : Manager R) (key owner : String) (fault : Fault)
    (r : Redis) : Redis × Result :=
  if !m.available || key == "" || owner == "" then (r, .err errUnavailable)
  else
    let (r', value) := fault.run (abortScript (m.storageKey key) owner) r
    (r', changedResult "abort idempotency request" value)

/-- The script call of `Complete` and `Fail`. -/
def Manager.finish (m : Manager R) (context key owner : String)
    (outcome : Outcome) (ttl : Time) (fault : Fault) (r : Redis) :
    Redis × Result :=
  if !m.client then (r, .panicked)
  else
    let (r', value) := fault.run (finishScript (m.storageKey key) owner outcome
      (milliseconds ttl)) r
    (r', changedResult context value)

def Manager.complete (m : Manager R) (key owner : String) (response : R)
    (fault : Fault) (r : Redis) : Redis × Result :=
  match m.json.marshal response with
  | .error e => (r, .err (.wrap "encode idempotency response" e))
  | .ok encoded =>
      if (encoded.length : Int) > m.cfg.maxResponseBytes then
        match m.abort key owner fault r with
        | (r', .err e) => (r', .err (.join errResponseTooLarge e))
        | (r', _) => (r', .err errResponseTooLarge)
      else
        m.finish "complete idempotency request" key owner (.response encoded)
          m.cfg.resultTTL fault r

def Manager.fail (m : Manager R) (key owner : String) (failure : Failure)
    (fault : Fault) (r : Redis) : Redis × Result :=
  match m.json.marshalFailure failure with
  | .error e => (r, .err (.wrap "encode idempotency failure" e))
  | .ok encoded =>
      m.finish "fail idempotency request" key owner (.failure encoded)
        m.cfg.failureTTL fault r

/-! ## The machine -/

inductive Call (R : Type) where
  | begin (key fingerprint owner : String)
  | renew (key owner : String)
  | complete (key owner : String) (response : R)
  | fail (key owner : String) (failure : Failure)
  | abort (key owner : String)
  deriving DecidableEq

def Manager.perform (m : Manager R) (fault : Fault) (r : Redis) :
    Call R → Redis × Result
  | .begin key fingerprint owner => m.begin key fingerprint owner fault r
  | .renew key owner => m.renew key owner fault r
  | .complete key owner response => m.complete key owner response fault r
  | .fail key owner failure => m.fail key owner failure fault r
  | .abort key owner => m.abort key owner fault r

structure Store (R : Type) where
  redis : Redis := {}
  /-- Every call so far with its result. -/
  history : List (Call R × Result) := []

/-- The token a `Begin` drew. -/
def Call.draws : Call R → Option String
  | .begin _ _ owner => some owner
  | _ => none

/-- The tokens drawn so far. -/
def Store.drawn (s : Store R) : List String :=
  s.history.filterMap fun p => p.1.draws

inductive Action (R : Type) where
  | call (c : Call R) (fault : Fault)
  | expire (k : String)
  | tick (d : Nat)

/-- A call is played where its script runs. The token a `Begin` draws is a new
one. -/
def step (m : Manager R) (s : Store R) : Action R → Option (Store R)
  | .call c fault =>
      if c.draws.any (s.drawn.contains ·) then none
      else
        let (redis, result) := m.perform fault s.redis c
        some { redis, history := s.history ++ [(c, result)] }
  | .expire k => some { s with redis := s.redis.expire k }
  | .tick d =>
      some { s with redis := { s.redis with now := s.redis.now + d } }

/-! ## Several managers on one Redis -/

structure Shared (N R : Type) where
  redis : Redis := {}
  /-- Every call so far with the manager it was made on and its result. -/
  history : List (N × Call R × Result) := []

/-- The tokens drawn so far, on any manager. -/
def Shared.drawn {N : Type} (s : Shared N R) : List String :=
  s.history.filterMap fun p => p.2.1.draws

inductive SharedAction (N R : Type) where
  | call (n : N) (c : Call R) (fault : Fault)
  | expire (k : String)
  | tick (d : Nat)

def sharedStep {N : Type} (managers : N → Manager R) (s : Shared N R) :
    SharedAction N R → Option (Shared N R)
  | .call n c fault =>
      if c.draws.any (s.drawn.contains ·) then none
      else
        let (redis, result) := (managers n).perform fault s.redis c
        some { redis, history := s.history ++ [(n, c, result)] }
  | .expire k => some { s with redis := s.redis.expire k }
  | .tick d =>
      some { s with redis := { s.redis with now := s.redis.now + d } }

end PlatformGo.Idempotency
