import PlatformGo.Ref.Consumer

/-!
# The bus and its stream

`Bus.Publish` puts an event on the JetStream stream under the event's id. The
server drops a message whose id it has seen within the duplicate window, and
answers as if it had stored it: the publisher cannot tell. `JetStream` is the
log of what was ever stored. What the stream still holds is less: the limits
it is configured with drop old messages, which is not modelled.

A `Consumers` machine plays deliveries of any messages to any consumers of
one bus. A delivery publishes at most one dead letter; the answer `process`
was given for it has to be the one of the bus. `Bus.step` has the publications
of everybody else next to them.
-/

namespace PlatformGo.EventBus

def headerRequestID : String := "X-Request-ID"

def headerTraceID : String := "X-Trace-ID"

/-- A message on the stream, without the trace context of its publisher. -/
structure Stored where
  /-- The id it was published under. -/
  msgID : String
  time : Time
  subject : String
  headers : List (String × String)
  data : Bytes
  deriving DecidableEq, Repr

structure JetStream where
  log : List Stored := []

/-- What befalls a publication: nothing, or an error before or after the
server has seen it. -/
inductive PublishFault where
  | none
  | notReceived (err : GoErr)
  | ackLost (err : GoErr)

/-- The server: a message whose id was seen within the window is dropped. -/
def JetStream.receive (s : JetStream) (window : Time) (message : Stored) :
    JetStream :=
  if s.log.any fun old =>
      old.msgID == message.msgID && message.time - old.time < window then s
  else { s with log := s.log ++ [message] }

/-- `PublishMsg`. -/
def JetStream.publishMsg (s : JetStream) (window : Time) (message : Stored) :
    PublishFault → JetStream × Option GoErr
  | .none => (s.receive window message, none)
  | .notReceived e => (s, some e)
  | .ackLost e => (s.receive window message, some e)

structure Bus where
  duplicateWindow : Time
  marshalEnvelope : EventEnvelope → Except GoErr Bytes
  isPrint : Char → Bool

/-- `Publish`, on a bus that is there. -/
def Bus.publish (b : Bus) (s : JetStream) (now : Time) (subject : String)
    (envelope : EventEnvelope) (fault : PublishFault) :
    JetStream × Option GoErr :=
  if envelope.eventId = "" then
    (s, some (.new (bytes "event envelope with event_id is required")))
  else
    match b.marshalEnvelope envelope with
    | .error e => (s, some (.wrap "encode event envelope" e))
    | .ok data =>
        let headers :=
          match envelope.context with
          | some context =>
              [(headerRequestID, context.requestId),
                (headerTraceID, context.traceId)]
          | none => []
        let (s', answer) := s.publishMsg b.duplicateWindow
          { msgID := envelope.eventId, time := now, subject, headers, data }
          fault
        (s', answer.map
          (.wrap ("publish event " ++ quote b.isPrint envelope.eventId)))

/-! ## Consumers on one bus -/

/-- The publication of a delivery. -/
def Effect.published : Effect → Option (String × EventEnvelope × Option GoErr)
  | .publish subject envelope err => some (subject, envelope, err)
  | _ => none

/-- A delivery that was processed, with the calls it made. -/
structure Processed where
  processor : Processor
  message : Message
  calls : List Effect

structure Consumers where
  stream : JetStream := {}
  history : List Processed := []

/-- A delivery of a message to a consumer, and what befalls its publication. -/
structure Dispatch where
  processor : Processor
  message : Message
  delivery : Delivery
  now : Time := 0
  fault : PublishFault := .none

def Bus.dispatch (b : Bus) (s : Consumers) (a : Dispatch) :
    Option Consumers :=
  let calls := a.processor.process a.message a.delivery
  let history := s.history ++ [⟨a.processor, a.message, calls⟩]
  match calls.findSome? Effect.published with
  | none => some { s with history }
  | some (subject, envelope, answer) =>
      let (stream, err) := b.publish s.stream a.now subject envelope a.fault
      if err = answer then some { stream, history } else none

inductive BusAction where
  | deliver (a : Dispatch)
  /-- `Publish` of an event by anyone but the consumers. -/
  | publish (now : Time) (subject : String) (envelope : EventEnvelope)
      (fault : PublishFault)

def Bus.step (b : Bus) (s : Consumers) : BusAction → Option Consumers
  | .deliver a => b.dispatch s a
  | .publish now subject envelope fault =>
      some { s with
        stream := (b.publish s.stream now subject envelope fault).1 }

end PlatformGo.EventBus
