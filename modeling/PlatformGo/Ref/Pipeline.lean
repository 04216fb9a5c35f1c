import PlatformGo.Ref.Bus
import PlatformGo.Ref.Inbox
import PlatformGo.Ref.Outbox

/-!
# From an outbox to the inbox of a consumer

The outbox, the bus and the inbox are meant to be used together: a business
transaction adds an event to the outbox, a dispatcher publishes it on the bus,
the broker hands it to the durable consumers of the stream, and the handler of
a consumer writes to its own database inside `inbox.SQLStore.Process`. This is
the whole of it as one machine, made of the three that are there: every action
of the outbox and of the inbox, with two seams.

* The publisher of a dispatcher is the bus, so what `Publish` answers the
  dispatcher is what the bus answered, and the message has been stored or not
  accordingly. Nobody else publishes but the consumers, their dead letters.
* The handler of a consumer is a call of `Process` under the durable name and
  the id of the event. It starts when the broker hands a message over and its
  error is what `process` goes on with, whenever the call has returned.

The broker may hand any message it has ever stored to any consumer at any time,
so a redelivery, two instances of a consumer and a delivery after the
acknowledgement are all runs of the machine. There is no bound on deliveries
and no age at which a message goes. A consumer that dies in the middle of a
delivery never finishes it, and the server drops its transaction.
-/

namespace PlatformGo.EventBus

/-- A message of the stream as the broker hands it over. -/
def Stored.message (stored : Stored) : Message :=
  { data := stored.data, subject := stored.subject
    requestID := (stored.headers.lookup headerRequestID).getD "" }

end PlatformGo.EventBus

namespace PlatformGo.Pipeline

open EventBus

/-- A consumer whose handler runs on the inbox, with the audit actor it
passes. -/
structure Consumer where
  processor : Processor
  actor : String

structure Setup where
  outbox : Outbox.Setup
  bus : Bus
  consumers : Nat → Consumer

/-- A delivery whose handler has been called and has not returned to
`process`. -/
structure Handling where
  consumer : Nat
  message : Message
  event : EventEnvelope

/-- The key a handler passes to `Process`. -/
def Setup.key (setup : Setup) (n : Nat) (event : EventEnvelope) : Inbox.Key :=
  ⟨(setup.consumers n).processor.durable, event.eventId⟩

structure Sys (W : Type) where
  outbox : Outbox.Sys := {}
  bus : Consumers := {}
  inbox : Inbox.Sys W := Inbox.init W
  /-- The delivery a call of `Process` was made for. -/
  handling : Nat → Option Handling := fun _ => none

inductive Action (W : Type) where
  /-- A step of the outbox other than a publication. -/
  | outbox (a : Outbox.Action)
  /-- A dispatcher publishes its next event. -/
  | publish (d : Nat) (now : Time) (fault : PublishFault)
  /-- A message of the stream is handed to a consumer, which decodes it and
  calls its handler. -/
  | deliver (c i n : Nat)
  /-- A delivery that does not come to the handler. -/
  | refuse (i n : Nat) (d : Delivery) (now : Time) (fault : PublishFault)
  /-- A step of the inbox other than a new call. -/
  | inbox (a : Inbox.Action W)
  /-- The handler has returned and `process` does the rest. -/
  | finish (c : Nat) (d : Delivery) (now : Time) (fault : PublishFault)

variable {W : Type}

def Setup.publish (setup : Setup) (s : Sys W) (d : Nat) (now : Time)
    (fault : PublishFault) : Option (Sys W) :=
  match s.outbox.phase d with
  | .batch (event :: _) =>
      event.envelope.bind fun envelope =>
        let (stream, err) :=
          setup.bus.publish s.bus.stream now event.subject envelope fault
        (setup.outbox.step s.outbox (.publish d err)).map fun outbox =>
          { s with outbox, bus := { s.bus with stream } }
  | _ => none

def Setup.deliver (setup : Setup) (s : Sys W) (c i n : Nat) :
    Option (Sys W) :=
  s.bus.stream.log[i]?.bind fun stored =>
    match (setup.consumers n).processor.codec.unmarshal stored.data with
    | .error _ => none
    | .ok event =>
        (Inbox.step s.inbox (.process c (setup.key n event)
          (setup.consumers n).actor false)).map fun inbox =>
            { s with
              inbox
              handling := Function.update s.handling c
                (some ⟨n, stored.message, event⟩) }

/-- The metadata cannot be read, or the message does not decode. -/
def Setup.refuse (setup : Setup) (s : Sys W) (i n : Nat) (d : Delivery)
    (now : Time) (fault : PublishFault) : Option (Sys W) :=
  s.bus.stream.log[i]?.bind fun stored =>
    let processor := (setup.consumers n).processor
    let dispatch : Option (Sys W) :=
      (setup.bus.dispatch s.bus
        ⟨processor, stored.message, d, now, fault⟩).map fun bus =>
          { s with bus }
    match d.metadata, processor.codec.unmarshal stored.data with
    | .error _, _ => dispatch
    | .ok _, .error _ => dispatch
    | .ok _, .ok _ => none

def Setup.finish (setup : Setup) (s : Sys W) (c : Nat) (d : Delivery)
    (now : Time) (fault : PublishFault) : Option (Sys W) :=
  match s.handling c, s.inbox.calls c, d.metadata with
  | some handling, some call, .ok _ =>
      match call.pc with
      | .returned _ err =>
          (setup.bus.dispatch s.bus
            ⟨(setup.consumers handling.consumer).processor, handling.message,
              { d with handler := err }, now, fault⟩).map fun bus =>
                { s with
                  bus, handling := Function.update s.handling c none }
      | _ => none
  | _, _, _ => none

def Setup.step (setup : Setup) (s : Sys W) : Action W → Option (Sys W)
  | .outbox (.publish ..) => none
  | .outbox a =>
      (setup.outbox.step s.outbox a).map fun outbox => { s with outbox }
  | .publish d now fault => setup.publish s d now fault
  | .deliver c i n => setup.deliver s c i n
  | .refuse i n d now fault => setup.refuse s i n d now fault
  | .inbox (.process ..) => none
  | .inbox a => (Inbox.step s.inbox a).map fun inbox => { s with inbox }
  | .finish c d now fault => setup.finish s c d now fault

end PlatformGo.Pipeline
