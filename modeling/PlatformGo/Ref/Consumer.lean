import PlatformGo.Lib.Lts
import PlatformGo.Lib.Utf8
import PlatformGo.Lib.Wire

/-!
# The event consumer and its broker

`consumerProcessor.process` handles one delivery of one message. It returns
nothing; what it did is the list of calls it made on the handler, the
publisher, the message and the error callback, in order, and that list is the
value of the model's `process`. What those calls answer is the environment's
choice for the delivery (`Delivery`), and so is whether the consumer context
turns out to be cancelled when `process` looks.

The broker is JetStream as `ConsumeWithOptions` configures it: a message is
delivered with the count 1, 2, and so on, again after every negative or
missing acknowledgement, until an acknowledgement or a termination reaches the
server or the count reaches `MaxDeliver`, which is the consumer's own
`ConsumerMaxDeliver`.

Protobuf encoding and the digest are parameters (`Codec`).
-/

namespace PlatformGo.EventBus

def deadLetterSubject : String := "platform.system.event.dead-lettered.v1"

def deadLetterEventType : String := "platform.system.event.dead-lettered.v1"

/-! ## Configuration -/

/-- The settings the consumer reads. -/
structure Config where
  consumerAckWait : Time := 0
  consumerHandlerTimeout : Time := 0
  consumerRetryDelay : Time := 0
  consumerMaxRetryDelay : Time := 0
  consumerMaxDeliver : Int := 0
  deadLetterSubject : String := ""
  deadLetterMaxDataBytes : Int := 0
  deriving DecidableEq, Repr

def orDefault (value fallback : Int) : Int :=
  if value ≤ 0 then fallback else value

def Config.defaults (c : Config) : Config :=
  { consumerAckWait := orDefault c.consumerAckWait (30 * second)
    consumerHandlerTimeout := orDefault c.consumerHandlerTimeout (25 * second)
    consumerRetryDelay := orDefault c.consumerRetryDelay second
    consumerMaxRetryDelay := orDefault c.consumerMaxRetryDelay (60 * second)
    consumerMaxDeliver := orDefault c.consumerMaxDeliver 10
    deadLetterSubject :=
      if c.deadLetterSubject = "" then EventBus.deadLetterSubject
      else c.deadLetterSubject
    deadLetterMaxDataBytes :=
      orDefault c.deadLetterMaxDataBytes (2 ^ 20) }

def Config.validate (c : Config) : Option GoErr :=
  if c.consumerHandlerTimeout ≥ c.consumerAckWait then
    some (.new (bytes
      "consumer handler timeout must be shorter than ack wait"))
  else if c.consumerRetryDelay > c.consumerMaxRetryDelay then
    some (.new (bytes
      "consumer retry delay must not exceed maximum retry delay"))
  else none

/-! ## Envelopes -/

structure RequestContext where
  requestId : String
  traceId : String
  actorId : String
  actorType : String
  tenantId : String
  membershipId : String := ""
  deriving DecidableEq, Repr

structure EventEnvelope where
  eventId : String
  eventType : String
  aggregateId : String
  aggregateType : String
  tenantId : String
  applicationId : String
  schemaVersion : Nat
  occurredAt : Time
  context : Option RequestContext
  payload : Bytes
  deriving DecidableEq, Repr

structure DeadLetterEvent where
  originalEvent : Option EventEnvelope
  originalSubject : String
  consumer : String
  reason : Bytes
  deliveryCount : Nat
  deadLetteredAt : Time
  decodingFailed : Bool
  originalData : Bytes := []
  originalDataTruncated : Bool := false
  deriving DecidableEq, Repr

section Encoding

open Wire

/-! The messages as protocol buffers, with their fields numbered in the order
above. The schema is not part of this repository: concrete runs use these
encodings, and every general statement takes the codec as a parameter. -/

def RequestContext.wire (c : RequestContext) : Bytes :=
  text 1 (bytes c.requestId) ++ text 2 (bytes c.traceId) ++
    text 3 (bytes c.actorId) ++ text 4 (bytes c.actorType) ++
    text 5 (bytes c.tenantId) ++ text 6 (bytes c.membershipId)

def EventEnvelope.wire (e : EventEnvelope) : Bytes :=
  text 1 (bytes e.eventId) ++ text 2 (bytes e.eventType) ++
    text 3 (bytes e.aggregateId) ++ text 4 (bytes e.aggregateType) ++
    text 5 (bytes e.tenantId) ++ text 6 (bytes e.applicationId) ++
    number 7 e.schemaVersion ++ timestamp 8 e.occurredAt ++
    (e.context.map fun c => message 9 c.wire).getD [] ++ text 10 e.payload

def DeadLetterEvent.wire (d : DeadLetterEvent) : Bytes :=
  (d.originalEvent.map fun e => message 1 e.wire).getD [] ++
    text 2 (bytes d.originalSubject) ++ text 3 (bytes d.consumer) ++
    text 4 d.reason ++ number 5 d.deliveryCount ++
    timestamp 6 d.deadLetteredAt ++ number 7 d.decodingFailed.toNat ++
    text 8 d.originalData ++ number 9 d.originalDataTruncated.toNat

end Encoding

structure Metadata where
  eventID : String := ""
  eventType : String := ""
  aggregateID : String := ""
  aggregateType : String := ""
  tenantID : String := ""
  applicationID : String := ""
  schemaVersion : Nat := 0
  requestID : String := ""
  traceID : String := ""
  actorID : String := ""
  actorType : String := ""
  /-- `none` is the zero time. -/
  occurredAt : Option Time := none
  deriving DecidableEq, Repr

/-- `NewEnvelope`. The payload is given by what encoding it yields, and is
`none` for a nil one; `now` is the clock, read where the metadata has no
time. -/
def newEnvelope (now : Time) (m : Metadata)
    (payload : Option (Except GoErr Bytes)) : Except GoErr EventEnvelope :=
  if m.eventID = "" ∨ m.eventType = "" ∨ m.aggregateID = "" ∨
      m.aggregateType = "" then
    .error (.new (bytes
      "event id, type, aggregate id, and aggregate type are required"))
  else if m.schemaVersion = 0 then
    .error (.new (bytes "event schema version must be positive"))
  else
    match payload with
    | none => .error (.new (bytes "event payload is required"))
    | some encoded => encoded.map fun payload =>
      { eventId := m.eventID, eventType := m.eventType
        aggregateId := m.aggregateID, aggregateType := m.aggregateType
        tenantId := m.tenantID, applicationId := m.applicationID
        schemaVersion := m.schemaVersion
        occurredAt := m.occurredAt.getD now
        context := some
          { requestId := m.requestID, traceId := m.traceID
            actorId := m.actorID, actorType := m.actorType
            tenantId := m.tenantID }
        payload }

/-! ## The processor -/

structure Codec where
  unmarshal : Bytes → Except GoErr EventEnvelope
  marshalDeadLetter : DeadLetterEvent → Except GoErr Bytes
  sha256 : Bytes → Vector UInt8 32
  /-- The printable characters of `%q`. -/
  isPrint : Char → Bool

structure Processor where
  config : Config
  durable : String
  /-- Whether an error callback is set. -/
  onError : Bool := true
  codec : Codec

structure Message where
  data : Bytes
  /-- As text. A subject that is not UTF-8, whose letter protobuf refuses to
  encode, is not modelled. -/
  subject : String
  /-- The request id header, empty when it is not there. -/
  requestID : String := ""

/-- What the environment answers during one call of `process`. -/
structure Delivery where
  /-- The delivery count, or the reason the metadata cannot be read. -/
  metadata : Except GoErr Nat
  /-- The handler's result. -/
  handler : Option GoErr := none
  /-- Whether the consumer context is cancelled when a failed handler has
  returned. -/
  cancelled : Bool := false
  publish : Option GoErr := none
  doubleAck : Option GoErr := none
  nak : Option GoErr := none
  term : Option GoErr := none
  /-- The two readings of the clock a dead letter takes. -/
  now : Time := 0
  later : Time := 0

inductive Effect where
  /-- The handler, with the request id its context was given. -/
  | handle (requestID : Option String) (event : EventEnvelope)
      (err : Option GoErr)
  | publish (subject : String) (event : EventEnvelope) (err : Option GoErr)
  | doubleAck (err : Option GoErr)
  | nakWithDelay (delay : Time) (err : Option GoErr)
  | termWithReason (reason : Bytes) (err : Option GoErr)
  | report (err : GoErr)
  deriving DecidableEq

/-- Drop bytes off the end until the text is valid. -/
def limitedReason.cut : Nat → Bytes → Bytes
  | 0, b => b
  | fuel + 1, b =>
      if Utf8.validString b then b else limitedReason.cut fuel b.dropLast

def limitedReason : Option GoErr → Bytes
  | none => bytes "unknown consumer failure"
  | some err =>
      let reason := Utf8.toValidUTF8 (Utf8.trimSpace err.text) (bytes "�")
      if reason.length > 4096 then
        limitedReason.cut 4096 (reason.take 4096)
      else reason

/-- A product in Go's `int64`. -/
def wrap64 (x : Int) : Int := Int.bmod x (2 ^ 64)

def retryDelay.go (limit : Time) : Nat → Time → Time
  | 0, delay => delay
  | shift + 1, delay =>
      if delay ≥ limit.tdiv 2 then limit
      else retryDelay.go limit shift (wrap64 (delay * 2))

def Processor.retryDelay (p : Processor) (delivery : Nat) : Time :=
  let shift := if delivery > 1 then delivery - 1 else 0
  retryDelay.go p.config.consumerMaxRetryDelay (min shift 16)
    p.config.consumerRetryDelay

def Processor.report (p : Processor) (err : GoErr) : List Effect :=
  if p.onError then [.report err] else []

def Processor.retry (p : Processor) (d : Delivery) (delivery : Nat) :
    List Effect :=
  let delay := p.retryDelay delivery
  .nakWithDelay delay d.nak ::
    match d.nak with
    | none => []
    | some e => p.report
        (.wrap ("schedule event redelivery after " ++ durationString delay) e)

def Processor.terminate (p : Processor) (d : Delivery) (reason : Bytes) :
    List Effect :=
  .termWithReason reason d.term ::
    match d.term with
    | none => []
    | some e => p.report (.wrap "terminate event delivery" e)

/-- The first half of a digest in hexadecimal, which names a message that
cannot be decoded. -/
def Processor.identifier (p : Processor) (data : Bytes) : String :=
  hexEncode ((p.codec.sha256 data).toList.take 16)

/-- The dead letter of an event that was decoded. -/
def Processor.deadLetterOf (p : Processor) (m : Message) (d : Delivery)
    (numDelivered : Nat) (original : EventEnvelope) (cause : GoErr) :
    Metadata × DeadLetterEvent :=
  let context := original.context.getD ⟨"", "", "", "", "", ""⟩
  ({ eventID := "dead-letter:" ++ p.durable ++ ":" ++ original.eventId
     eventType := deadLetterEventType
     aggregateID := original.aggregateId, aggregateType := "event"
     tenantID := original.tenantId, schemaVersion := 1
     requestID := context.requestId, traceID := context.traceId
     actorID := context.actorId, actorType := context.actorType
     occurredAt := some d.later },
   { originalEvent := some original, originalSubject := m.subject
     consumer := p.durable, reason := limitedReason (some cause)
     deliveryCount := numDelivered, deadLetteredAt := d.now
     decodingFailed := false })

/-- The dead letter of a message that was not. -/
def Processor.deadLetterOfRaw (p : Processor) (m : Message) (d : Delivery)
    (numDelivered : Nat) (cause : GoErr) : Metadata × DeadLetterEvent :=
  let limit := p.config.deadLetterMaxDataBytes.toNat
  ({ eventID := "dead-letter:" ++ p.durable ++ ":" ++ p.identifier m.data
     eventType := deadLetterEventType
     aggregateID := p.identifier m.data, aggregateType := "event"
     schemaVersion := 1, requestID := m.requestID, occurredAt := some d.later },
   { originalEvent := none, originalSubject := m.subject
     consumer := p.durable, reason := limitedReason (some cause)
     deliveryCount := numDelivered, deadLetteredAt := d.now
     decodingFailed := true, originalData := m.data.take limit
     originalDataTruncated := decide (m.data.length > limit) })

/-- `publishDeadLetter` from the built metadata on: the calls it makes and the
error it returns. -/
def Processor.publishDeadLetter (p : Processor) (d : Delivery)
    (letter : Metadata × DeadLetterEvent) : List Effect × Option GoErr :=
  match newEnvelope d.later letter.1
      (some (p.codec.marshalDeadLetter letter.2)) with
  | .error e => ([], some (.wrap "build dead letter envelope" e))
  | .ok envelope =>
      ([.publish p.config.deadLetterSubject envelope d.publish],
        d.publish.map (.wrap ("publish dead letter for consumer " ++
          quote p.codec.isPrint p.durable)))

/-- `uint64(p.config.ConsumerMaxDeliver)`. -/
def Processor.maxDeliver (p : Processor) : Nat :=
  (p.config.consumerMaxDeliver % 2 ^ 64).toNat

/-- The end of `process` once a dead letter is due: stop the message when the
letter is out, otherwise ask for another delivery. -/
def Processor.bury (p : Processor) (d : Delivery) (numDelivered : Nat)
    (letter : Metadata × DeadLetterEvent) (reason : Bytes) : List Effect :=
  match p.publishDeadLetter d letter with
  | (calls, some e) => calls ++ p.report e ++ p.retry d numDelivered
  | (calls, none) => calls ++ p.terminate d reason

/-- The request id the handler's context is given. -/
def messageRequestID (envelope : EventEnvelope) : Option String :=
  match envelope.context with
  | some context =>
      if context.requestId ≠ "" then some context.requestId else none
  | none => none

def Processor.process (p : Processor) (m : Message) (d : Delivery) :
    List Effect :=
  match d.metadata with
  | .error e => p.report (.wrap "read consumer metadata" e) ++ p.retry d 1
  | .ok numDelivered =>
      match p.codec.unmarshal m.data with
      | .error e =>
          p.bury d numDelivered (p.deadLetterOfRaw m d numDelivered e)
            (bytes "invalid event envelope")
      | .ok envelope =>
          .handle (messageRequestID envelope) envelope d.handler ::
            match d.handler with
            | none =>
                .doubleAck d.doubleAck ::
                  match d.doubleAck with
                  | none => []
                  | some e => p.report (.wrap
                      ("ack event " ++ quote p.codec.isPrint envelope.eventId)
                      e)
            | some e =>
                if d.cancelled then []
                else if numDelivered ≥ p.maxDeliver then
                  if envelope.eventType ≠ deadLetterEventType then
                    p.bury d numDelivered
                      (p.deadLetterOf m d numDelivered envelope e)
                      (limitedReason (some e))
                  else p.terminate d (limitedReason (some e))
                else
                  p.report (.wrap
                    ("handle event " ++
                      quote p.codec.isPrint envelope.eventId ++
                      " delivery " ++ toString numDelivered) e) ++
                    p.retry d numDelivered

/-! ## The broker -/

/-- One delivery as the broker sees it: the environment of `process`, and
whether an acknowledgement or a termination that was sent arrives although the
sender was not told so. -/
structure Attempt where
  delivery : Delivery
  received : Bool := false

/-- One message on the stream: how often it has been delivered, whether the
server has taken it off, and everything its deliveries did. -/
structure Stream where
  delivered : Nat := 0
  settled : Bool := false
  history : List Effect := []

/-- Whether a call takes the message off. A confirmed acknowledgement has
arrived; everything else may be lost on the way. -/
def settles (received : Bool) : Effect → Bool
  | .doubleAck none => true
  | .doubleAck (some _) => received
  | .termWithReason _ _ => received
  | _ => false

/-- The delivery with the count the server puts on it. -/
def Attempt.numbered (a : Attempt) (n : Nat) : Delivery :=
  { a.delivery with metadata := .ok n }

def Processor.deliver (p : Processor) (m : Message) (s : Stream)
    (a : Attempt) : Option Stream :=
  if s.settled ∨ (s.delivered : Int) ≥ p.config.consumerMaxDeliver then none
  else
    let calls := p.process m (a.numbered (s.delivered + 1))
    some
      { delivered := s.delivered + 1
        settled := calls.any (settles a.received)
        history := s.history ++ calls }

end PlatformGo.EventBus
