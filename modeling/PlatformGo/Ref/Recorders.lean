import PlatformGo.Ref.Consumer
import PlatformGo.Ref.Principal

/-!
# The operation log and the security log

Two recorders turn an entry into an event and hand it to the bus. They build
the envelope themselves, without `NewEnvelope`. What a call of `Record` does is
the envelopes it publishes, at most one, and the error it returns.

An entry carries values of any type for its request, its extension or its
metadata; `V` is that type. Encoding, redaction, the keyed hash and lower case
are what the recorders use of other packages (`Tools`). An error that is only
printed is given by its text.
-/

namespace PlatformGo

/-- What the two recorders use of other packages, for payloads of the type
`P`. -/
structure Tools (V P : Type) where
  marshalValue : V → Except String Bytes
  marshalPayload : P → Except GoErr Bytes
  redactJSON : Bytes → Except String Bytes
  containsSensitiveJSON : Bytes → Except String Bool
  hmacSHA256 : Bytes → Bytes → Vector UInt8 32
  toLower : String → String

/-- What a call reads off its context, the clock and the generator of ids. -/
structure Occasion where
  principal : Option Principal
  traceID : String
  now : Time
  /-- The new id of the event. -/
  eventID : String

/-- The envelopes a call publishes, each with its subject, and the error it
returns. -/
abbrev Recorded := List (String × EventBus.EventEnvelope) × Option GoErr

/-- The end of both `Record` functions, given the publisher's answer. -/
def publishRecord (subject failure : String)
    (envelope : EventBus.EventEnvelope) (answer : Option GoErr) : Recorded :=
  ([(subject, envelope)], answer.map (.wrap failure))

def tooLong (length : Nat) (limit : Int) : String :=
  "payload is " ++ toString length ++ " bytes; maximum is " ++ toString limit

/-! ## Operations -/

namespace OperationLog

def eventType : String := "platform.operation-log.recorded.v1"

def errInvalidEntry : GoErr := .sentinel "invalid operation log entry"

structure Config where
  enabled : Bool
  subject : String
  maxPayloadBytes : Int
  deriving DecidableEq, Repr

structure Entry (V : Type) where
  operation : String
  resourceType : String := ""
  resourceID : String := ""
  applicationID : String := ""
  source : String := ""
  protocol : String := ""
  method : String := ""
  route : String := ""
  request : Option V := none
  duration : Time := 0
  succeeded : Bool := false
  errorCode : String := ""
  errorMessage : String := ""
  clientIP : String := ""
  userAgent : String := ""
  requestID : String := ""
  extension : Option V := none

structure Payload (V : Type) where
  entry : Entry V
  requestPayload : Bytes
  durationMS : Int
  requestIDValue : String
  traceID : String
  actorID : String
  actorType : String
  tenantID : String
  occurredAt : Time
  extensionValue : Bytes

structure Service (V : Type) where
  config : Config
  tools : Tools V (Payload V)

/-- `New`, for a publisher that is there or not. -/
def new {V : Type} (config : Config) (publisher : Bool)
    (tools : Tools V (Payload V)) : Except GoErr (Service V) :=
  let config := { config with subject := trimSpace config.subject }
  if !config.enabled then .ok { config, tools }
  else if !publisher || config.subject == "" ||
      config.maxPayloadBytes < 256 || config.maxPayloadBytes > 2 ^ 20 then
    .error (.detail errInvalidEntry
      ("enabled recorder requires publisher, subject, and payload limit " ++
        "between 256 bytes and 1 MiB"))
  else .ok { config, tools }

def sanitize {V P : Type} (tools : Tools V P) (value : Option V)
    (limit : Int) (objectDefault : Bool) : Except String Bytes :=
  match value with
  | none => .ok (if objectDefault then bytes "\x7b\x7d" else [])
  | some value => do
      let data ← tools.marshalValue value
      let data ← tools.redactJSON data
      if (data.length : Int) > limit then .error (tooLong data.length limit)
      else .ok data

/-- The envelope of an entry, once its parts are sanitized. -/
def envelope {V : Type} (occasion : Occasion) (actor : Principal)
    (entry : Entry V) (data : Bytes) : EventBus.EventEnvelope :=
  { eventId := occasion.eventID, eventType, aggregateId := entry.resourceID
    aggregateType := "operation_log", tenantId := actor.tenantID
    applicationId := entry.applicationID, schemaVersion := 1
    occurredAt := occasion.now
    context := some
      { requestId := entry.requestID, traceId := occasion.traceID
        actorId := actor.id, actorType := actor.type
        tenantId := actor.tenantID, membershipId := actor.membershipID }
    payload := data }

def Service.record {V : Type} (s : Service V) (occasion : Occasion)
    (entry : Entry V) (answer : Option GoErr) : Recorded :=
  if !s.config.enabled then ([], none)
  else
    let entry := { entry with operation := trimSpace entry.operation }
    if entry.operation = "" ∨ entry.duration < 0 then
      ([], some (.detail errInvalidEntry
        "operation and non-negative duration are required"))
    else
      match Principal.fromContext occasion.principal with
      | (_, false) => ([], some Principal.errMissing)
      | (actor, true) =>
          match sanitize s.tools entry.request s.config.maxPayloadBytes
              false with
          | .error e =>
              ([], some (.detail errInvalidEntry ("sanitize request: " ++ e)))
          | .ok requestPayload =>
              match sanitize s.tools entry.extension s.config.maxPayloadBytes
                  true with
              | .error e =>
                  ([], some (.detail errInvalidEntry
                    ("sanitize extension: " ++ e)))
              | .ok extension =>
                  match s.tools.marshalPayload
                      { entry :=
                          { entry with
                            request := none, extension := none
                            requestID := "" }
                        requestPayload, durationMS := entry.duration.tdiv 1000000
                        requestIDValue := entry.requestID
                        traceID := occasion.traceID, actorID := actor.id
                        actorType := actor.type, tenantID := actor.tenantID
                        occurredAt := occasion.now
                        extensionValue := extension } with
                  | .error e => ([], some (.wrap "encode operation log" e))
                  | .ok data =>
                      publishRecord s.config.subject "publish operation log"
                        (envelope occasion actor entry data) answer

end OperationLog

/-! ## Security events -/

namespace SecurityLog

def envelopeType : String := "platform.security-log.recorded.v1"

def errInvalidConfig : GoErr :=
  .sentinel "invalid security log configuration"

def errInvalidEntry : GoErr := .sentinel "invalid security log entry"

/-- `eventTypePattern`. -/
def eventTypePattern : String := "^[a-z][a-z0-9_.-]\x7b0,127\x7d$"

def matchesEventType (eventType : String) : Bool :=
  match eventType.toList with
  | [] => false
  | c :: rest =>
      c.isLower && rest.length ≤ 127 &&
        rest.all fun c =>
          c.isLower || c.isDigit || c == '_' || c == '.' || c == '-'

structure Config where
  enabled : Bool
  subject : String
  maxPayloadBytes : Int
  hashKey : String
  failClosed : Bool := false
  deriving DecidableEq, Repr

structure Entry (V : Type) where
  eventType : String
  subjectID : String := ""
  subjectType : String := ""
  tenantID : String := ""
  applicationID : String := ""
  identifier : String := ""
  tokenID : String := ""
  sessionID : String := ""
  succeeded : Bool := false
  reason : String := ""
  errorCode : String := ""
  errorMessage : String := ""
  clientIP : String := ""
  userAgent : String := ""
  requestID : String := ""
  metadata : Option V := none

structure Payload where
  eventType : String
  actorID : String
  actorType : String
  subjectID : String
  subjectType : String
  tenantID : String
  applicationID : String
  succeeded : Bool
  reason : String
  errorCode : String
  errorMessage : String
  identifierHash : String
  tokenIDHash : String
  sessionID : String
  requestID : String
  traceID : String
  clientIP : String
  userAgent : String
  metadata : Bytes
  occurredAt : Time
  deriving DecidableEq, Repr

structure Service (V : Type) where
  config : Config
  tools : Tools V Payload

/-- `New`, for a publisher that is there or not. -/
def new {V : Type} (config : Config) (publisher : Bool)
    (tools : Tools V Payload) : Except GoErr (Service V) :=
  let config := { config with subject := trimSpace config.subject }
  if !config.enabled then .ok { config, tools }
  else if !publisher || config.subject == "" ||
      config.maxPayloadBytes < 256 || config.maxPayloadBytes > 2 ^ 20 ||
      (bytes config.hashKey).length < 32 then
    .error (.detail errInvalidConfig
      ("enabled recorder requires publisher, subject, a payload limit " ++
        "between 256 bytes and 1 MiB, and a hash key of at least 32 bytes"))
  else .ok { config, tools }

def Service.hash {V : Type} (s : Service V) (value : String) : String :=
  if value = "" then ""
  else
    hexEncode (s.tools.hmacSHA256 (bytes s.config.hashKey)
      (bytes value)).toList

def safeMetadata {V P : Type} (tools : Tools V P) (value : Option V)
    (limit : Int) : Except String Bytes :=
  match value with
  | none => .ok (bytes "\x7b\x7d")
  | some value => do
      let data ← tools.marshalValue value
      if (data.length : Int) > limit then .error (tooLong data.length limit)
      else
        let sensitive ← tools.containsSensitiveJSON data
        if sensitive then .error "contains a credential field" else .ok data

/-- The first characters of a text. -/
def truncate (value : String) (limit : Nat) : String :=
  String.ofList (value.toList.take limit)

def Service.payload {V : Type} (s : Service V) (occasion : Occasion)
    (actor : Principal) (entry : Entry V) (metadata : Bytes) : Payload :=
  { eventType := entry.eventType, actorID := actor.id, actorType := actor.type
    subjectID := trimSpace entry.subjectID
    subjectType := truncate entry.subjectType 128
    tenantID := trimSpace entry.tenantID
    applicationID := trimSpace entry.applicationID
    succeeded := entry.succeeded, reason := truncate entry.reason 1024
    errorCode := truncate entry.errorCode 128
    errorMessage := truncate entry.errorMessage 2048
    identifierHash := s.hash (s.tools.toLower (trimSpace entry.identifier))
    tokenIDHash := s.hash entry.tokenID
    sessionID := truncate entry.sessionID 256
    requestID := truncate entry.requestID 256, traceID := occasion.traceID
    clientIP := truncate entry.clientIP 256
    userAgent := truncate entry.userAgent 1024, metadata
    occurredAt := occasion.now }

def envelope (occasion : Occasion) (actor : Principal) (value : Payload)
    (data : Bytes) : EventBus.EventEnvelope :=
  { eventId := occasion.eventID, eventType := envelopeType
    aggregateId := value.subjectID, aggregateType := "security_log"
    tenantId := value.tenantID, applicationId := value.applicationID
    schemaVersion := 1, occurredAt := occasion.now
    context := some
      { requestId := value.requestID, traceId := value.traceID
        actorId := actor.id, actorType := actor.type
        tenantId := value.tenantID, membershipId := actor.membershipID }
    payload := data }

def Service.record {V : Type} (s : Service V) (occasion : Occasion)
    (entry : Entry V) (answer : Option GoErr) : Recorded :=
  if !s.config.enabled then ([], none)
  else
    let entry := { entry with eventType := trimSpace entry.eventType }
    if !matchesEventType entry.eventType then
      ([], some (.detail errInvalidEntry
        ("event type must match " ++ eventTypePattern)))
    else
      let actor := (Principal.fromContext occasion.principal).1
      let entry :=
        if isBlank entry.tenantID then
          { entry with tenantID := actor.tenantID }
        else entry
      match safeMetadata s.tools entry.metadata s.config.maxPayloadBytes with
      | .error e => ([], some (.detail errInvalidEntry ("metadata: " ++ e)))
      | .ok metadata =>
          let value := s.payload occasion actor entry metadata
          match s.tools.marshalPayload value with
          | .error e => ([], some (.wrap "encode security log" e))
          | .ok data =>
              publishRecord s.config.subject "publish security log"
                (envelope occasion actor value data) answer

end SecurityLog

end PlatformGo
