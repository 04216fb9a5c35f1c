import PlatformGo.Ref.Idempotency
import PlatformGo.Ref.Principal

/-!
# The gRPC idempotency interceptor

Any number of calls go through one `UnaryServerInterceptor` over one manager.
A call is a small machine of its own: it asks for the record of its key,
starts a lease, runs the handler, stops the lease, stores what came out and
returns. Its lease runs beside it: the renewals fall anywhere between the
start of the handler and the end of `stop`, and go on after a handler that
panicked, whose call never stops them.

The steps of all calls interleave freely, with the expiry of records and the
passing of time between them. A handler's result stays in the call's state
after the call has returned, for the statements.
-/

namespace PlatformGo.Idempotency

/-- A gRPC status that is not OK. -/
structure Status where
  code : Nat
  message : String
  deriving DecidableEq, Repr

namespace Code

def canceled : Nat := 1
def unknown : Nat := 2
def invalidArgument : Nat := 3
def deadlineExceeded : Nat := 4
def alreadyExists : Nat := 6
def resourceExhausted : Nat := 8
def aborted : Nat := 10
def internal : Nat := 13
def unavailable : Nat := 14
def dataLoss : Nat := 15

end Code

def retryableGRPCCode (code : Nat) : Bool :=
  [Code.canceled, Code.unknown, Code.deadlineExceeded, Code.resourceExhausted,
    Code.aborted, Code.internal, Code.unavailable, Code.dataLoss].contains code

/-- What the interceptor uses of protobuf, JSON and the hash. A value that is
no protobuf message has no encoding. -/
structure Codec (Req Resp : Type) where
  marshalRequest : Req → Option (Except GoErr Bytes)
  marshalResponse : Resp → Option (Except GoErr Bytes)
  sha256 : Bytes → Vector UInt8 32
  /-- The payload of a cached response. -/
  unmarshalCached : Bytes → Except GoErr Bytes
  /-- The registry: the methods of the service a name stands for, if it is a
  service, and a decoder for the output of each. -/
  findDescriptor : String →
    Except GoErr (Option (String → Option (Bytes → Except GoErr Resp)))

structure Server (Req Resp : Type) where
  manager : Manager Bytes
  methods : List String
  /-- `path.Match`, on a pattern and a name. -/
  pathMatch : String → String → Except GoErr Bool
  codec : Codec Req Resp

structure Request (Req : Type) where
  /-- The key in the context, empty when there is none. -/
  key : String
  caller : Option Principal
  method : String
  request : Req

variable {Req Resp : Type}

def Server.matchesAny (srv : Server Req Resp) (value : String) : Bool :=
  srv.methods.any fun pattern =>
    match srv.pathMatch pattern value with
    | .ok matched => matched
    | .error _ => false

/-- Whether a call goes through the manager. -/
def Server.guards (srv : Server Req Resp) (req : Request Req) : Bool :=
  req.key != "" && srv.manager.cfg.enabled && srv.matchesAny req.method

def Server.grpcFingerprint (srv : Server Req Resp) (req : Request Req) :
    Except GoErr String :=
  match srv.codec.marshalRequest req.request with
  | none => .error (.new (bytes "request is not protobuf"))
  | some (.error e) => .error e
  | some (.ok payload) =>
      let caller := (Principal.fromContext req.caller).1
      .ok (hexEncode (srv.codec.sha256
        (bytes caller.id ++ bytes ("\x00" ++ caller.type) ++
          bytes ("\x00" ++ caller.tenantID) ++
          bytes ("\x00" ++ caller.membershipID) ++
          bytes ("\x00" ++ caller.sessionID) ++
          bytes ("\x00" ++ req.method ++ "\x00") ++ payload)).toList)

/-- `strings.Cut` at a slash. -/
def cutSlash : List Char → Option (List Char × List Char)
  | [] => none
  | '/' :: rest => some ([], rest)
  | c :: rest => (cutSlash rest).map fun p => (c :: p.1, p.2)

/-- `strings.TrimPrefix` of one slash. -/
def trimSlash : List Char → List Char
  | '/' :: rest => rest
  | cs => cs

def Server.grpcMethodOutput (srv : Server Req Resp) (method : String) :
    Except GoErr (Bytes → Except GoErr Resp) :=
  match cutSlash (trimSlash method.toList) with
  | none => .error (.new (bytes "invalid full method"))
  | some (service, name) =>
      match srv.codec.findDescriptor (String.ofList service) with
      | .error e => .error e
      | .ok none => .error (.new (bytes "descriptor is not a service"))
      | .ok (some methods) =>
          match methods (String.ofList name) with
          | none => .error (.new (bytes "method descriptor not found"))
          | some output => .ok output

def Server.replayGRPCResponse (srv : Server Req Resp) (method : String)
    (encoded : Bytes) : Except Status Resp :=
  match srv.codec.unmarshalCached encoded with
  | .error _ => .error ⟨Code.unavailable, "decode idempotent response"⟩
  | .ok payload =>
      match srv.grpcMethodOutput method with
      | .error _ => .error ⟨Code.unavailable, "resolve idempotent response"⟩
      | .ok output =>
          match output payload with
          | .error _ =>
              .error ⟨Code.unavailable, "decode idempotent response payload"⟩
          | .ok response => .ok response

/-! ## One call -/

/-- The renewal goroutine: still going, or done with what it reported. -/
inductive Lease where
  | running
  | ended (err : Option GoErr)

inductive Phase (Resp : Type) where
  /-- About to call `Begin`. -/
  | beginning (fingerprint : String)
  /-- `Begin` said that the request is the call's. -/
  | acquired
  /-- The handler is running. -/
  | handling (lease : Lease)
  /-- The handler has returned and the lease is being stopped. -/
  | handled (lease : Lease)
  /-- About to store the outcome. -/
  | persisting
  /-- The handler is running outside of the manager. -/
  | through
  /-- The handler panicked. -/
  | panicked (lease : Lease)
  | returned (result : Except Status Resp)

/-- A call. The owner is the token `Begin` returned, the outcome what the
handler did. -/
structure CallState (Req Resp : Type) where
  req : Request Req
  phase : Phase Resp
  owner : String := ""
  outcome : Option (Except Status Resp) := none

/-- The call up to its first step on the manager. -/
def Server.arrive (srv : Server Req Resp) (req : Request Req) : Phase Resp :=
  if !srv.guards req then .through
  else
    match srv.grpcFingerprint req with
    | .error _ =>
        .returned (.error
          ⟨Code.invalidArgument, "invalid idempotent request"⟩)
    | .ok fingerprint => .beginning fingerprint

/-- `codes.Code` of an `int`. -/
def toCode (n : Int) : Nat := (n % 2 ^ 32).toNat

/-- The switch on the decision. -/
def Server.decided (srv : Server Req Resp) (c : CallState Req Resp) :
    Result → CallState Req Resp
  | .decision d =>
      match d.state with
      | .acquired => { c with phase := .acquired, owner := d.owner }
      | .completed =>
          { c with
            phase := .returned
              (srv.replayGRPCResponse c.req.method d.response) }
      | .failed =>
          { c with
            phase := .returned (.error
              ⟨toCode d.failure.grpcCode, d.failure.message⟩) }
      | .processing =>
          { c with
            phase := .returned (.error
              ⟨Code.aborted, "request is already processing"⟩) }
      | .conflict =>
          { c with
            phase := .returned (.error
              ⟨Code.alreadyExists,
                "idempotency key belongs to a different request"⟩) }
  | _ =>
      { c with
        phase := .returned (.error
          ⟨Code.unavailable, "idempotency is unavailable"⟩) }

def leaseUnavailable : Status :=
  ⟨Code.unavailable, "idempotency lease is unavailable"⟩

/-- Whether `StartLease` starts one. -/
def Server.startsLease (srv : Server Req Resp) (c : CallState Req Resp) :
    Bool :=
  srv.manager.available && c.req.key != "" && c.owner != "" &&
    decide (0 < srv.manager.cfg.processingTTL)

def Server.lease (srv : Server Req Resp) (c : CallState Req Resp) :
    CallState Req Resp :=
  if srv.startsLease c then { c with phase := .handling .running }
  else { c with phase := .returned (.error leaseUnavailable) }

/-- The call's phase with its lease replaced, where the lease is running. -/
def Phase.endLease (err : Option GoErr) : Phase Resp → Option (Phase Resp)
  | .handling .running => some (.handling (.ended err))
  | .handled .running => some (.handled (.ended err))
  | .panicked .running => some (.panicked (.ended err))
  | _ => none

/-- What a renewal leaves of the phase: the same on success, an ended lease on
an error. -/
def Phase.renewed (phase : Phase Resp) : Result → Option (Phase Resp)
  | .ok => (phase.endLease none).map fun _ => phase
  | .err e => phase.endLease (some e)
  | _ => none

/-- The handler comes to its end: with a result, or with a panic. -/
def CallState.handle (c : CallState Req Resp) :
    Option (Except Status Resp) → Option (CallState Req Resp)
  | some result =>
      match c.phase with
      | .handling lease =>
          some { c with phase := .handled lease, outcome := some result }
      | .through =>
          some { c with phase := .returned result, outcome := some result }
      | _ => none
  | none =>
      match c.phase with
      | .handling lease => some { c with phase := .panicked lease }
      | .through => some { c with phase := .panicked (.ended none) }
      | _ => none

/-- `stop` and the return on its error. -/
def CallState.stop (c : CallState Req Resp) : Option (CallState Req Resp) :=
  match c.phase with
  | .handled .running | .handled (.ended none) =>
      some { c with phase := .persisting }
  | .handled (.ended (some e)) =>
      if e.is "idempotency ownership expired" then
        some
          { c with
            phase := .returned (.error
              ⟨Code.aborted, "idempotency ownership expired"⟩) }
      else some { c with phase := .returned (.error leaseUnavailable) }
  | _ => none

/-- The call on the manager the outcome is stored with, and what the
interceptor returns afterwards. Without a call it returns at once. -/
def Server.persistence (srv : Server Req Resp) (c : CallState Req Resp) :
    Except Status Resp → Option (Call Bytes) × Except Status Resp
  | .error status =>
      if retryableGRPCCode status.code then
        (some (.abort c.req.key c.owner), .error status)
      else
        (some (.fail c.req.key c.owner
          { message := status.message, grpcCode := status.code }),
          .error status)
  | .ok response =>
      match srv.codec.marshalResponse response with
      | none =>
          (none, .error
            ⟨Code.internal, "idempotent response is not protobuf"⟩)
      | some (.error _) =>
          (none, .error ⟨Code.internal, "encode idempotent response"⟩)
      | some (.ok payload) =>
          (some (.complete c.req.key c.owner payload), .ok response)

/-! ## All calls -/

structure Sys (Req Resp : Type) where
  store : Store Bytes := {}
  calls : Nat → Option (CallState Req Resp) := fun _ => none

def Sys.set (s : Sys Req Resp) (i : Nat) (c : CallState Req Resp) :
    Sys Req Resp :=
  { s with calls := Function.update s.calls i (some c) }

inductive Event (Req Resp : Type) where
  | arrive (i : Nat) (req : Request Req)
  | begin (i : Nat) (owner : String) (fault : Fault)
  | lease (i : Nat)
  | renew (i : Nat) (fault : Fault)
  /-- The lease sees its context cancelled. -/
  | cancelled (i : Nat)
  /-- The handler ends, with `none` for a panic. -/
  | handle (i : Nat) (result : Option (Except Status Resp))
  | stop (i : Nat)
  | persist (i : Nat) (fault : Fault)
  | expire (k : String)
  | tick (d : Nat)

/-- A step of a call that runs a script: the store moves with it. -/
def Server.onStore (srv : Server Req Resp) (s : Sys Req Resp) (i : Nat)
    (c : Call Bytes) (fault : Fault)
    (next : Result → Option (CallState Req Resp)) : Option (Sys Req Resp) :=
  match step srv.manager s.store (.call c fault),
      next (srv.manager.perform fault s.store.redis c).2 with
  | some store, some call => some ({ s with store }.set i call)
  | _, _ => none

def Server.persist (srv : Server Req Resp) (s : Sys Req Resp) (i : Nat)
    (c : CallState Req Resp) (fault : Fault) : Option (Sys Req Resp) :=
  match c.phase, c.outcome with
  | .persisting, some outcome =>
      match srv.persistence c outcome with
      | (none, result) => some (s.set i { c with phase := .returned result })
      | (some call, result) =>
          srv.onStore s i call fault fun _ =>
            some { c with phase := .returned result }
  | _, _ => none

def Server.step (srv : Server Req Resp) (s : Sys Req Resp) :
    Event Req Resp → Option (Sys Req Resp)
  | .arrive i req =>
      match s.calls i with
      | some _ => none
      | none => some (s.set i { req, phase := srv.arrive req })
  | .begin i owner fault =>
      (s.calls i).bind fun c =>
        match c.phase with
        | .beginning fingerprint =>
            srv.onStore s i (.begin c.req.key fingerprint owner) fault
              fun result => some (srv.decided c result)
        | _ => none
  | .lease i =>
      (s.calls i).bind fun c =>
        match c.phase with
        | .acquired => some (s.set i (srv.lease c))
        | _ => none
  | .renew i fault =>
      (s.calls i).bind fun c =>
        srv.onStore s i (.renew c.req.key c.owner) fault fun result =>
          (c.phase.renewed result).map fun phase => { c with phase }
  | .cancelled i =>
      (s.calls i).bind fun c =>
        (c.phase.endLease none).map fun phase => s.set i { c with phase }
  | .handle i result =>
      (s.calls i).bind fun c => (c.handle result).map (s.set i)
  | .stop i => (s.calls i).bind fun c => c.stop.map (s.set i)
  | .persist i fault => (s.calls i).bind fun c => srv.persist s i c fault
  | .expire k =>
      (Idempotency.step srv.manager s.store (.expire k)).map fun store =>
        { s with store }
  | .tick d =>
      (Idempotency.step srv.manager s.store (.tick d)).map fun store =>
        { s with store }

end PlatformGo.Idempotency
