import PlatformGo.Lib.Joined
import PlatformGo.Proofs.ConsumerLoss
import PlatformGo.Proofs.Truncation
import PlatformGo.Ref.Bus
import PlatformGo.Ref.Recorders

/-!
# Which dead letters get out, and stay

A dead letter has to pass two gates. `NewEnvelope` asks for an aggregate id,
and the dead letter of an event takes the event's own: an event without one is
never buried. Both logs publish such events. For a message that does not
decode the digest is the aggregate id, and its letter always passes.

The stream then drops a letter whose id it has seen. The id joins the durable
name and the event id with a colon, and either may hold one; and an event id
may spell the digest of another message. `letterID_eq_iff` says which pairs
of letters share an id, and `run_letters` what that means on a bus: where no
two of its letters do so by accident, and no other event takes the id of one,
the stream has stored a letter for a message that was terminated.
-/

namespace PlatformGo.EventBus

open Lts PlatformGo.Joined

/-! ## The gate of the envelope -/

/-- Protobuf encodes a dead letter whose text is well formed. The other texts
of a letter are strings already. -/
def Codec.MarshalsText (c : Codec) : Prop :=
  ∀ letter : DeadLetterEvent, Utf8.validString letter.reason = true →
    ∃ payload, c.marshalDeadLetter letter = .ok payload

/-- `publishDeadLetter` comes to call the publisher. -/
def Processor.ReachesPublish (p : Processor) (d : Delivery)
    (letter : Metadata × DeadLetterEvent) : Prop :=
  ∃ subject envelope err,
    .publish subject envelope err ∈ (p.publishDeadLetter d letter).1

variable {p : Processor} {m : Message}

theorem reachesPublish_iff {d : Delivery}
    {letter : Metadata × DeadLetterEvent} (h : Addressed letter)
    (hencodes : ∃ payload, p.codec.marshalDeadLetter letter.2 = .ok payload) :
    p.ReachesPublish d letter ↔ letter.1.aggregateID ≠ "" := by
  unfold Processor.ReachesPublish Processor.publishDeadLetter
  rcases newEnvelope_addressed h d.later
      (p.codec.marshalDeadLetter letter.2) with
    ⟨haggregate, payload, envelope, _, hnew, _⟩ | ⟨hnot, e, hnew⟩
  · rw [hnew]
    exact iff_of_true ⟨_, _, _, List.mem_singleton_self _⟩ haggregate
  · rw [hnew]
    refine iff_of_false ?_ fun haggregate => hnot ⟨haggregate, hencodes⟩
    rintro ⟨subject, envelope, err, hmem⟩
    cases hmem

theorem encodes_of_marshalsText (hcodec : p.codec.MarshalsText)
    {letter : DeadLetterEvent} {cause : GoErr}
    (h : letter.reason = limitedReason (some cause)) :
    ∃ payload, p.codec.marshalDeadLetter letter = .ok payload := by
  refine hcodec letter ?_
  rw [h, Utf8.validString_iff]
  exact (longest_limitedReason cause).valid

theorem event_reachesPublish_iff (hcodec : p.codec.MarshalsText)
    (m : Message) (d : Delivery) (n : Nat) (original : EventEnvelope)
    (cause : GoErr) :
    p.ReachesPublish d (p.deadLetterOf m d n original cause) ↔
      original.aggregateId ≠ "" :=
  reachesPublish_iff (addressed_deadLetterOf ..)
    (encodes_of_marshalsText hcodec rfl)

theorem raw_reachesPublish (hcodec : p.codec.MarshalsText) (m : Message)
    (d : Delivery) (n : Nat) (cause : GoErr) :
    p.ReachesPublish d (p.deadLetterOfRaw m d n cause) :=
  (reachesPublish_iff (addressed_deadLetterOfRaw ..)
    (encodes_of_marshalsText hcodec rfl)).mpr (identifier_ne m.data)

/-! ## The events of the logs -/

theorem mem_publishRecord {subject failure : String}
    {envelope : EventEnvelope} {answer : Option GoErr}
    {sent : String × EventEnvelope}
    (h : sent ∈ (publishRecord subject failure envelope answer).1) :
    sent.2 = envelope := by
  rw [List.mem_singleton.mp h]

/-- The aggregate of an operation is its resource. -/
theorem operation_aggregateId {V : Type} {service : OperationLog.Service V}
    {occasion : Occasion} {entry : OperationLog.Entry V}
    {answer : Option GoErr} {sent : String × EventEnvelope}
    (h : sent ∈ (service.record occasion entry answer).1) :
    sent.2.aggregateId = entry.resourceID := by
  unfold OperationLog.Service.record at h
  split at h
  · cases h
  · dsimp only at h
    split at h
    · cases h
    · split at h
      · cases h
      · split at h
        · cases h
        · split at h
          · cases h
          · split at h
            · cases h
            · rw [mem_publishRecord h]
              rfl

/-- That of a security event is its subject, without the space around it. -/
theorem security_aggregateId {V : Type} {service : SecurityLog.Service V}
    {occasion : Occasion} {entry : SecurityLog.Entry V}
    {answer : Option GoErr} {sent : String × EventEnvelope}
    (h : sent ∈ (service.record occasion entry answer).1) :
    sent.2.aggregateId = trimSpace entry.subjectID := by
  unfold SecurityLog.Service.record at h
  split at h
  · cases h
  · dsimp only at h
    split at h
    · cases h
    · split at h
      · cases h
      · split at h
        · cases h
        · rw [mem_publishRecord h]
          dsimp only [SecurityLog.envelope, SecurityLog.Service.payload]
          split <;> rfl

/-- A dead letter comes to the publisher if and only if the message does not
decode or its event has an aggregate id: an operation that was recorded if and
only if it has a resource, a security event if and only if its subject is not
blank. -/
theorem deadLetter_reaches_publish_iff {V W : Type} (p : Processor)
    (hcodec : p.codec.MarshalsText) (m : Message) (d : Delivery) (n : Nat)
    (cause : GoErr) :
    (∀ original,
      p.ReachesPublish d (p.deadLetterOf m d n original cause) ↔
        original.aggregateId ≠ "") ∧
    p.ReachesPublish d (p.deadLetterOfRaw m d n cause) ∧
    (∀ (service : OperationLog.Service V) occasion entry answer,
      ∀ sent ∈ (service.record occasion entry answer).1,
        (p.ReachesPublish d (p.deadLetterOf m d n sent.2 cause) ↔
          entry.resourceID ≠ "")) ∧
    (∀ (service : SecurityLog.Service W) occasion entry answer,
      ∀ sent ∈ (service.record occasion entry answer).1,
        (p.ReachesPublish d (p.deadLetterOf m d n sent.2 cause) ↔
          trimSpace entry.subjectID ≠ "")) := by
  have hevent := event_reachesPublish_iff hcodec m d n
  refine ⟨fun original => hevent original cause,
    raw_reachesPublish hcodec m d n cause, ?_, ?_⟩
  · intro service occasion entry answer sent hsent
    rw [hevent, operation_aggregateId hsent]
  · intro service occasion entry answer sent hsent
    rw [hevent, security_aggregateId hsent]

theorem deadLetter_reaches_publish_iff_changed :
    changedProcessor.ReachesPublish { metadata := .ok 2 }
      (changedProcessor.deadLetterOf changedMessage { metadata := .ok 2 } 2
        changedEvent (.new (bytes "permanent failure"))) := by
  have hcodec : changedProcessor.codec.MarshalsText :=
    fun letter _ => ⟨letter.wire, rfl⟩
  exact ((deadLetter_reaches_publish_iff (V := Unit) (W := Unit)
    changedProcessor hcodec changedMessage { metadata := .ok 2 } 2
    (.new (bytes "permanent failure"))).1 changedEvent).mpr (by decide)

/-- An operation on no resource in particular. -/
def listOrders : OperationLog.Entry Unit :=
  { operation := "list-orders", source := "orders", protocol := "grpc"
    succeeded := true }

def listOrdersOccasion : Occasion :=
  { principal := some { id := "user-1", type := "user" }
    traceID := "00000000000000000000000000000000", now := 0
    eventID := "7b1c0a52-5d0e-4b8e-9c37-0d6a2f1c9e11" }

/-- The record of that operation as JSON. -/
def listOrdersData : Bytes := bytes
  ("\x7b\"operation\":\"list-orders\",\"source\":\"orders\"," ++
    "\"protocol\":\"grpc\",\"succeeded\":true,\"request_payload\":\"\"," ++
    "\"duration_ms\":0,\"request_id\":\"\"," ++
    "\"trace_id\":\"00000000000000000000000000000000\"," ++
    "\"actor_id\":\"user-1\",\"actor_type\":\"user\",\"tenant_id\":\"\"," ++
    "\"occurred_at\":\"1970-01-01T00:00:00Z\",\"extension\":\x7b\x7d\x7d")

def listOrdersService : OperationLog.Service Unit where
  config :=
    { enabled := true, subject := OperationLog.eventType
      maxPayloadBytes := 4096 }
  tools :=
    { marshalValue := fun _ => .ok (bytes "\x7b\x7d")
      marshalPayload := fun _ => .ok listOrdersData
      redactJSON := fun data => .ok data
      containsSensitiveJSON := fun _ => .ok false
      hmacSHA256 := fun _ _ => Vector.replicate 32 0
      toLower := fun text => text }

def listOrdersEvent : EventEnvelope :=
  OperationLog.envelope listOrdersOccasion { id := "user-1", type := "user" }
    listOrders listOrdersData

/-- The operation is recorded, and its event has no dead letter. -/
theorem operation_without_resource_not_buried :
    listOrdersService.record listOrdersOccasion listOrders none =
        ([(OperationLog.eventType, listOrdersEvent)], none) ∧
      changedProcessor.publishDeadLetter { metadata := .ok 2 }
          (changedProcessor.deadLetterOf changedMessage
            { metadata := .ok 2 } 2 listOrdersEvent
            (.new (bytes "permanent failure"))) =
        ([], some (.wrap "build dead letter envelope" (.new (bytes
          "event id, type, aggregate id, and aggregate type are required")))) ∧
      ¬ changedProcessor.ReachesPublish { metadata := .ok 2 }
          (changedProcessor.deadLetterOf changedMessage
            { metadata := .ok 2 } 2 listOrdersEvent
            (.new (bytes "permanent failure"))) := by
  refine ⟨rfl, rfl, ?_⟩
  rintro ⟨subject, envelope, err, hmem⟩
  cases hmem

/-! ## The ids of the letters -/

/-- What a dead letter names its message by: the event id, or the digest. -/
def Processor.letterName (p : Processor) (m : Message) : String :=
  match p.codec.unmarshal m.data with
  | .ok event => event.eventId
  | .error _ => p.identifier m.data

/-- The id of the dead letter, which is its message id on the stream. -/
def Processor.letterID (p : Processor) (m : Message) : String :=
  "dead-letter:" ++ p.durable ++ ":" ++ p.letterName m

theorem letterID_eq (p : Processor) (m : Message) : p.letterID m =
    "dead-letter:" ++ p.durable ++ ":" ++ p.letterName m := rfl

/-- The dead letter of a message that failed: on its event for the given
cause, or in decoding. -/
def Processor.letter (p : Processor) (m : Message) (d : Delivery) (n : Nat)
    (cause : GoErr) : Metadata × DeadLetterEvent :=
  match p.codec.unmarshal m.data with
  | .ok event => p.deadLetterOf m d n event cause
  | .error e => p.deadLetterOfRaw m d n e

theorem letter_eventID (d : Delivery) (n : Nat) (cause : GoErr) :
    (p.letter m d n cause).1.eventID = p.letterID m := by
  rw [letterID_eq]
  unfold Processor.letter Processor.letterName
  split <;> rfl

/-- Two failing messages are one: the consumer is, and so is the event id, or
the data of messages that do not decode. -/
def SameFailure (p : Processor) (m : Message) (p' : Processor)
    (m' : Message) : Prop :=
  p.durable = p'.durable ∧
    match p.codec.unmarshal m.data, p'.codec.unmarshal m'.data with
    | .ok event, .ok event' => event.eventId = event'.eventId
    | .error _, .error _ => m.data = m'.data
    | _, _ => False

/-- The durable name of the second is that of the first, a colon and a text,
and the name of the first message is that text, a colon and the name of the
second. -/
def Shifted (p : Processor) (m : Message) (p' : Processor)
    (m' : Message) : Prop :=
  ∃ text, p'.durable = p.durable ++ ":" ++ text ∧
    p.letterName m = text ++ ":" ++ p'.letterName m'

/-- For one consumer, the id of one event is the digest of the other
message. -/
def SpellsDigest (p : Processor) (m : Message) (p' : Processor)
    (m' : Message) : Prop :=
  p.durable = p'.durable ∧ ∃ event cause,
    p.codec.unmarshal m.data = .ok event ∧
    p'.codec.unmarshal m'.data = .error cause ∧
    event.eventId = p'.identifier m'.data

/-- The accidents by which two letters share an id. -/
def Clash (p : Processor) (m : Message) (p' : Processor) (m' : Message) :
    Prop :=
  Shifted p m p' m' ∨ Shifted p' m' p m ∨ SpellsDigest p m p' m' ∨
    SpellsDigest p' m' p m

/-- The digests of the two messages do not collide. -/
def DigestsApart (p : Processor) (m : Message) (p' : Processor)
    (m' : Message) : Prop :=
  p.identifier m.data = p'.identifier m'.data → m.data = m'.data

theorem letterID_eq_cut {p' : Processor} {m' : Message} :
    p.letterID m = p'.letterID m' ↔
      p.durable.toList ++ ':' :: (p.letterName m).toList =
        p'.durable.toList ++ ':' :: (p'.letterName m').toList := by
  rw [letterID_eq, letterID_eq, ← String.toList_inj]
  simp only [String.toList_append, List.append_assoc,
    List.append_cancel_left_eq]
  rfl

theorem shifted_iff {p' : Processor} {m' : Message} :
    Shifted p m p' m' ↔
      ∃ text, p'.durable.toList = p.durable.toList ++ ':' :: text ∧
        (p.letterName m).toList = text ++ ':' :: (p'.letterName m').toList := by
  constructor
  · rintro ⟨text, hdurable, hname⟩
    refine ⟨text.toList, ?_, ?_⟩
    · simp [hdurable]
    · simp [hname]
  · rintro ⟨text, hdurable, hname⟩
    refine ⟨String.ofList text, String.toList_inj.mp ?_,
      String.toList_inj.mp ?_⟩
    · simp [hdurable]
    · simp [hname]

/-- One consumer's letters for two messages. -/
theorem same_or_spells {p' : Processor} {m' : Message}
    (hdigest : DigestsApart p m p' m') (hdurable : p.durable = p'.durable)
    (hname : p.letterName m = p'.letterName m') :
    SameFailure p m p' m' ∨ SpellsDigest p m p' m' ∨
      SpellsDigest p' m' p m := by
  unfold SameFailure
  unfold Processor.letterName at hname
  cases hm : p.codec.unmarshal m.data with
  | ok event =>
      cases hm' : p'.codec.unmarshal m'.data with
      | ok event' =>
          rw [hm, hm'] at hname
          exact Or.inl ⟨hdurable, hname⟩
      | error cause =>
          rw [hm, hm'] at hname
          exact Or.inr (Or.inl ⟨hdurable, event, cause, hm, hm', hname⟩)
  | error cause =>
      cases hm' : p'.codec.unmarshal m'.data with
      | ok event' =>
          rw [hm, hm'] at hname
          exact Or.inr (Or.inr
            ⟨hdurable.symm, event', cause, hm', hm, hname.symm⟩)
      | error cause' =>
          rw [hm, hm'] at hname
          exact Or.inl ⟨hdurable, hdigest hname⟩

theorem same_or_clash {p' : Processor} {m' : Message}
    (hdigest : DigestsApart p m p' m')
    (hid : p.letterID m = p'.letterID m') :
    SameFailure p m p' m' ∨ Clash p m p' m' := by
  unfold Clash
  rw [shifted_iff, shifted_iff]
  rcases cut_eq_iff.mp (letterID_eq_cut.mp hid) with
    ⟨hdurable, hname⟩ | ⟨text, hdurable, hname⟩ | ⟨text, hdurable, hname⟩
  · rcases same_or_spells hdigest (String.toList_inj.mp hdurable)
      (String.toList_inj.mp hname) with hsame | hspells
    · exact Or.inl hsame
    · exact Or.inr (Or.inr (Or.inr hspells))
  · exact Or.inr (Or.inl ⟨text, hdurable, hname⟩)
  · exact Or.inr (Or.inr (Or.inl ⟨text, hdurable, hname⟩))

theorem Shifted.accident {p' : Processor} {m' : Message}
    (h : Shifted p m p' m') :
    p.letterID m = p'.letterID m' ∧ p.durable ≠ p'.durable := by
  obtain ⟨text, hdurable, hname⟩ := shifted_iff.mp h
  constructor
  · rw [letterID_eq_cut, cut_eq_iff]
    exact Or.inr (Or.inl ⟨text, hdurable, hname⟩)
  · intro heq
    have hlength := congrArg List.length hdurable
    rw [← heq, List.length_append, List.length_cons] at hlength
    omega

theorem SpellsDigest.accident {p' : Processor} {m' : Message}
    (h : SpellsDigest p m p' m') :
    p.letterID m = p'.letterID m' ∧ ¬ SameFailure p m p' m' ∧
      ¬ SameFailure p' m' p m := by
  obtain ⟨hdurable, event, cause, hm, hm', hname⟩ := h
  refine ⟨?_, ?_, ?_⟩
  · rw [letterID_eq, letterID_eq, hdurable, Processor.letterName,
      Processor.letterName, hm, hm']
    dsimp only
    rw [hname]
  · intro hsame
    simp [SameFailure, hm, hm'] at hsame
  · intro hsame
    simp [SameFailure, hm, hm'] at hsame

theorem Clash.accident {p' : Processor} {m' : Message}
    (h : Clash p m p' m') :
    p.letterID m = p'.letterID m' ∧ ¬ SameFailure p m p' m' := by
  rcases h with h | h | h | h
  · exact ⟨h.accident.1, fun hsame => h.accident.2 hsame.1⟩
  · exact ⟨h.accident.1.symm, fun hsame => h.accident.2 hsame.1.symm⟩
  · exact ⟨h.accident.1, h.accident.2.1⟩
  · exact ⟨h.accident.1.symm, h.accident.2.2⟩

/-- The letters of two messages share an id only if the messages are one,
unless the two clash. -/
theorem letterID_apart_iff {p' : Processor} {m' : Message}
    (hdigest : DigestsApart p m p' m') :
    (p.letterID m = p'.letterID m' → SameFailure p m p' m') ↔
      ¬ Clash p m p' m' := by
  constructor
  · intro hid hclash
    exact hclash.accident.2 (hid hclash.accident.1)
  · intro hclash hid
    exact (same_or_clash hdigest hid).resolve_right hclash

/-! ## What a delivery publishes -/

/-- The delivery ended in a termination. -/
def Terminated (calls : List Effect) : Prop :=
  ∃ reason err, .termWithReason reason err ∈ calls

/-- Calls that neither publish nor terminate. -/
def Inert (calls : List Effect) : Prop :=
  calls.findSome? Effect.published = none ∧ ¬ Terminated calls

theorem terminated_append {calls calls' : List Effect} :
    Terminated (calls ++ calls') ↔ Terminated calls ∨ Terminated calls' := by
  simp only [Terminated, List.mem_append, exists_or]

theorem Inert.append {calls calls' : List Effect} (h : Inert calls)
    (h' : Inert calls') : Inert (calls ++ calls') := by
  refine ⟨?_, ?_⟩
  · rw [List.findSome?_append, h.1, h'.1]
    rfl
  · rw [terminated_append, not_or]
    exact ⟨h.2, h'.2⟩

theorem inert_nil : Inert [] := ⟨rfl, by simp [Terminated]⟩

theorem Inert.cons {call : Effect} {calls : List Effect}
    (hpublished : call.published = none)
    (hterm : ∀ reason err, call ≠ .termWithReason reason err)
    (h : Inert calls) : Inert (call :: calls) := by
  refine ⟨?_, ?_⟩
  · rw [List.findSome?_cons, hpublished]
    exact h.1
  · rintro ⟨reason, err, hmem⟩
    rcases List.mem_cons.mp hmem with heq | hmem
    · exact hterm reason err heq.symm
    · exact h.2 ⟨reason, err, hmem⟩

theorem inert_report (err : GoErr) : Inert (p.report err) := by
  unfold Processor.report
  split
  · exact inert_nil.cons rfl (by simp)
  · exact inert_nil

theorem inert_retry (d : Delivery) (n : Nat) : Inert (p.retry d n) := by
  unfold Processor.retry
  refine Inert.cons rfl (by simp) ?_
  cases d.nak with
  | none => exact inert_nil
  | some e => exact inert_report _

theorem terminate_published (d : Delivery) (reason : Bytes) :
    (p.terminate d reason).findSome? Effect.published = none := by
  unfold Processor.terminate
  cases d.term with
  | none => rfl
  | some e => exact (inert_report _).1

theorem newEnvelope_eventId {now : Time} {metadata : Metadata}
    {payload : Option (Except GoErr Bytes)} {envelope : EventEnvelope}
    (h : newEnvelope now metadata payload = .ok envelope) :
    envelope.eventId = metadata.eventID := by
  unfold newEnvelope at h
  split at h
  · cases h
  · split at h
    · cases h
    · cases payload with
      | none => cases h
      | some encoded =>
          cases encoded with
          | error e => cases h
          | ok payload =>
              cases h
              rfl

/-- A delivery that comes to a dead letter, with what it publishes. -/
structure Publishes (p : Processor) (m : Message) (calls : List Effect)
    (envelope : EventEnvelope) (answer : Option GoErr) : Prop where
  published : calls.findSome? Effect.published =
    some (p.config.deadLetterSubject, envelope, answer)
  eventId : envelope.eventId = p.letterID m
  letter : p.DeadLetterFor m envelope
  terminated : Terminated calls → answer = none

/-- One that publishes nothing, and terminates a dead letter only. -/
structure Silent (p : Processor) (m : Message) (calls : List Effect) :
    Prop where
  published : calls.findSome? Effect.published = none
  terminated : Terminated calls →
    ∃ event, p.codec.unmarshal m.data = .ok event ∧
      event.eventType = deadLetterEventType

theorem Inert.silent {calls : List Effect} (h : Inert calls) :
    Silent p m calls :=
  ⟨h.1, fun hterm => absurd hterm h.2⟩

theorem bury_publishes {d : Delivery} {n : Nat} {reason : Bytes}
    {letter : Metadata × DeadLetterEvent} (h : Addressed letter)
    (hid : letter.1.eventID = p.letterID m)
    (hfor : ∀ envelope, envelope.eventType = deadLetterEventType →
      p.codec.marshalDeadLetter letter.2 = .ok envelope.payload →
      p.DeadLetterFor m envelope) :
    (∃ envelope, Publishes p m (p.bury d n letter reason) envelope
      d.publish) ∨ Silent p m (p.bury d n letter reason) := by
  unfold Processor.bury Processor.publishDeadLetter
  rcases newEnvelope_addressed h d.later
      (p.codec.marshalDeadLetter letter.2) with
    ⟨_, payload, envelope, henc, hnew, htype, hpay⟩ | ⟨_, e, hnew⟩
  · left
    have hletter := hfor envelope htype (by rw [hpay]; exact henc)
    rw [hnew]
    refine ⟨envelope, ?_, (newEnvelope_eventId hnew).trans hid, hletter, ?_⟩
    · cases d.publish <;> rfl
    · cases d.publish with
      | none => exact fun _ => rfl
      | some e =>
          -- A letter that was not taken is followed by a retry.
          intro hterm
          dsimp only [Option.map_some] at hterm
          rw [List.append_assoc, terminated_append] at hterm
          rcases hterm with ⟨reason, err, hmem⟩ | hterm
          · simp at hmem
          · exact absurd hterm ((inert_report _).append (inert_retry d n)).2
  · right
    rw [hnew]
    exact ((inert_report _).append (inert_retry d n)).silent

/-- The call of the handler comes first and changes nothing of this. -/
theorem handle_publishes {requestID : Option String} {event : EventEnvelope}
    {err answer : Option GoErr} {calls : List Effect}
    (h : (∃ envelope, Publishes p m calls envelope answer) ∨
      Silent p m calls) :
    (∃ envelope, Publishes p m (.handle requestID event err :: calls)
      envelope answer) ∨
      Silent p m (.handle requestID event err :: calls) := by
  have hterm : Terminated (.handle requestID event err :: calls) →
      Terminated calls := by
    rintro ⟨reason, err, hmem⟩
    exact ⟨reason, err, by simpa using hmem⟩
  rcases h with ⟨envelope, h⟩ | h
  · exact Or.inl ⟨envelope, h.published, h.eventId, h.letter,
      fun ht => h.terminated (hterm ht)⟩
  · exact Or.inr ⟨h.published, fun ht => h.terminated (hterm ht)⟩

theorem process_publishes (p : Processor) (m : Message) (d : Delivery) :
    (∃ envelope, Publishes p m (p.process m d) envelope d.publish) ∨
      Silent p m (p.process m d) := by
  unfold Processor.process
  cases d.metadata with
  | error e => exact Or.inr ((inert_report _).append (inert_retry d 1)).silent
  | ok n =>
      dsimp only
      cases hm : p.codec.unmarshal m.data with
      | error cause =>
          refine bury_publishes (addressed_deadLetterOfRaw ..) ?_ ?_
          · rw [letterID_eq, Processor.letterName, hm]
            rfl
          · intro envelope htype hpay
            refine ⟨htype, _, hpay, rfl, rfl, ?_⟩
            rw [hm]
            exact ⟨rfl, rfl⟩
      | ok event =>
          refine handle_publishes ?_
          cases d.handler with
          | none =>
              refine Or.inr (Inert.cons rfl (by simp) ?_).silent
              cases d.doubleAck with
              | none => exact inert_nil
              | some e => exact inert_report _
          | some e =>
              dsimp only
              split
              · exact Or.inr inert_nil.silent
              · split
                · split
                  · refine bury_publishes (addressed_deadLetterOf ..) ?_ ?_
                    · rw [letterID_eq, Processor.letterName, hm]
                      rfl
                    · intro envelope htype hpay
                      refine ⟨htype, _, hpay, rfl, rfl, ?_⟩
                      rw [hm]
                      rfl
                  · next htype =>
                      exact Or.inr ⟨terminate_published d _, fun _ =>
                        ⟨event, hm, not_not.mp htype⟩⟩
                · exact Or.inr
                    ((inert_report _).append (inert_retry d n)).silent

/-! ## Letters the stream has stored -/

theorem receive_log (s : JetStream) (window : Time) (message : Stored) :
    (∃ stored ∈ (s.receive window message).log,
        stored.msgID = message.msgID) ∧
      ((s.receive window message).log = s.log ∨
        (s.receive window message).log = s.log ++ [message]) := by
  unfold JetStream.receive
  split
  · next hseen =>
      obtain ⟨old, hold, hid⟩ := List.any_eq_true.mp hseen
      rw [Bool.and_eq_true, beq_iff_eq] at hid
      exact ⟨⟨old, hold, hid.1⟩, Or.inl rfl⟩
  · exact ⟨⟨message, by simp, rfl⟩, Or.inr rfl⟩

/-- What a publication adds to the log, and what a nil answer says. -/
structure Published (b : Bus) (envelope : EventEnvelope) (s s' : JetStream)
    (answer : Option GoErr) : Prop where
  added : ∀ stored ∈ s'.log, stored ∈ s.log ∨
    stored.msgID = envelope.eventId ∧
      b.marshalEnvelope envelope = .ok stored.data
  kept : s.log ⊆ s'.log
  answered : answer = none →
    ∃ stored ∈ s'.log, stored.msgID = envelope.eventId

theorem published_refused {b : Bus} {envelope : EventEnvelope}
    (s : JetStream) (err : GoErr) : Published b envelope s s (some err) :=
  ⟨fun _ h => Or.inl h, List.Subset.refl _, fun h => by cases h⟩

theorem published_receive {b : Bus} {envelope : EventEnvelope}
    {message : Stored} {window : Time} (s : JetStream)
    (answer : Option GoErr) (hid : message.msgID = envelope.eventId)
    (hdata : b.marshalEnvelope envelope = .ok message.data) :
    Published b envelope s (s.receive window message) answer := by
  obtain ⟨hseen, hlog⟩ := receive_log s window message
  rw [hid] at hseen
  refine ⟨?_, ?_, fun _ => hseen⟩
  · intro stored hstored
    rcases hlog with hlog | hlog
    · exact Or.inl (hlog ▸ hstored)
    · rw [hlog, List.mem_append, List.mem_singleton] at hstored
      rcases hstored with hstored | rfl
      · exact Or.inl hstored
      · exact Or.inr ⟨hid, hdata⟩
  · rcases hlog with hlog | hlog
    · rw [hlog]
      exact List.Subset.refl _
    · rw [hlog]
      exact List.subset_append_left ..

theorem publish_published (b : Bus) (s : JetStream) (now : Time)
    (subject : String) (envelope : EventEnvelope) (fault : PublishFault) :
    Published b envelope s (b.publish s now subject envelope fault).1
      (b.publish s now subject envelope fault).2 := by
  unfold Bus.publish
  split
  · exact published_refused s _
  · split
    · exact published_refused s _
    · next data hdata =>
        cases fault with
        | none => exact published_receive s _ rfl hdata
        | notReceived e => exact published_refused s _
        | ackLost e => exact published_receive s _ rfl hdata

/-- A stored message is a letter for the message of a delivery. -/
def LetterOf (b : Bus) (r : Processed) (stored : Stored) : Prop :=
  stored.msgID = r.processor.letterID r.message ∧
    ∃ envelope, b.marshalEnvelope envelope = .ok stored.data ∧
      r.processor.DeadLetterFor r.message envelope

/-- The message of the delivery is a dead letter itself. -/
def Processed.IsLetter (r : Processed) : Prop :=
  ∃ event, r.processor.codec.unmarshal r.message.data = .ok event ∧
    event.eventType = deadLetterEventType

/-- What was stored is a letter of a delivery or an event of somebody else, and
the id of every letter that was due was stored. -/
structure Kept (b : Bus) (others : String → Prop) (s : Consumers) :
    Prop where
  letters : ∀ stored ∈ s.stream.log,
    others stored.msgID ∨ ∃ r ∈ s.history, LetterOf b r stored
  ids : ∀ r ∈ s.history, Terminated r.calls → ¬ r.IsLetter →
    ∃ stored ∈ s.stream.log, stored.msgID = r.processor.letterID r.message

/-- A delivery as it is recorded. -/
def Dispatch.processed (a : Dispatch) : Processed :=
  ⟨a.processor, a.message, a.processor.process a.message a.delivery⟩

/-- A delivery publishes nothing and leaves the stream, or it publishes its
letter. -/
theorem dispatch_cases {b : Bus} {s t : Consumers} {a : Dispatch}
    (h : b.dispatch s a = some t) :
    t.history = s.history ++ [a.processed] ∧
      (Silent a.processor a.message a.processed.calls ∧
          t.stream = s.stream ∨
        ∃ envelope answer,
          Publishes a.processor a.message a.processed.calls envelope answer ∧
          Published b envelope s.stream t.stream answer) := by
  simp only [Bus.dispatch] at h
  rcases process_publishes a.processor a.message a.delivery with
    ⟨envelope, hletter⟩ | hsilent
  · rw [hletter.published] at h
    dsimp only at h
    split at h
    · next hanswer =>
        cases h
        refine ⟨rfl, Or.inr ⟨envelope, _, hletter, ?_⟩⟩
        rw [← hanswer]
        exact publish_published ..
    · cases h
  · rw [hsilent.published] at h
    cases h
    exact ⟨rfl, Or.inl ⟨hsilent, rfl⟩⟩

theorem dispatch_kept {b : Bus} {others : String → Prop} {s t : Consumers}
    {a : Dispatch} (hs : Kept b others s) (h : b.dispatch s a = some t) :
    Kept b others t := by
  obtain ⟨hhistory, ⟨hsilent, hstream⟩ |
    ⟨envelope, answer, hletter, hpublished⟩⟩ := dispatch_cases h
  · constructor
    · intro stored hstored
      rw [hstream] at hstored
      refine (hs.letters stored hstored).imp_right ?_
      rintro ⟨r, hr, hof⟩
      exact ⟨r, by simp [hhistory, hr], hof⟩
    · intro r hr hterm hnot
      rw [hhistory, List.mem_append, List.mem_singleton] at hr
      rw [hstream]
      rcases hr with hr | rfl
      · exact hs.ids r hr hterm hnot
      · exact absurd (hsilent.terminated hterm) hnot
  · constructor
    · intro stored hstored
      rcases hpublished.added stored hstored with hold | ⟨hid, hdata⟩
      · refine (hs.letters stored hold).imp_right ?_
        rintro ⟨r, hr, hof⟩
        exact ⟨r, by simp [hhistory, hr], hof⟩
      · exact .inr ⟨a.processed, by simp [hhistory],
          hid.trans hletter.eventId, envelope, hdata, hletter.letter⟩
    · intro r hr hterm hnot
      rw [hhistory, List.mem_append, List.mem_singleton] at hr
      rcases hr with hr | rfl
      · obtain ⟨stored, hstored, hid⟩ := hs.ids r hr hterm hnot
        exact ⟨stored, hpublished.kept hstored, hid⟩
      · obtain ⟨stored, hstored, hid⟩ :=
          hpublished.answered (hletter.terminated hterm)
        exact ⟨stored, hstored, hid.trans hletter.eventId⟩

/-- A publication of somebody else adds an event of somebody else. -/
theorem publish_kept {b : Bus} {others : String → Prop} {s : Consumers}
    (hs : Kept b others s) (now : Time) (subject : String)
    {envelope : EventEnvelope} (fault : PublishFault)
    (hother : others envelope.eventId) :
    Kept b others { s with
      stream := (b.publish s.stream now subject envelope fault).1 } := by
  have hpublished :=
    publish_published b s.stream now subject envelope fault
  constructor
  · intro stored hstored
    rcases hpublished.added stored hstored with hold | ⟨hid, -⟩
    · exact hs.letters stored hold
    · exact .inl (hid ▸ hother)
  · intro r hr hterm hnot
    obtain ⟨stored, hstored, hid⟩ := hs.ids r hr hterm hnot
    exact ⟨stored, hpublished.kept hstored, hid⟩

theorem history_delivered {b : Bus} {as : List BusAction} {s : Consumers}
    (hrun : run b.step {} as = some s) :
    ∀ r ∈ s.history, ∃ a, .deliver a ∈ as ∧ a.processed = r := by
  refine run_history (P := fun as s => ∀ r ∈ s.history,
    ∃ a, .deliver a ∈ as ∧ a.processed = r) (by simp) ?_ hrun
  intro pre m a t _ hpre hstep r hr
  cases a with
  | deliver a =>
      rw [(dispatch_cases hstep).1, List.mem_append,
        List.mem_singleton] at hr
      rcases hr with hr | rfl
      · obtain ⟨a', ha', hr⟩ := hpre r hr
        exact ⟨a', List.mem_append_left _ ha', hr⟩
      · exact ⟨a, by simp, rfl⟩
  | publish now subject envelope fault =>
      cases hstep
      obtain ⟨a', ha', hr⟩ := hpre r hr
      exact ⟨a', List.mem_append_left _ ha', hr⟩

/-- The deliveries of a run do not clash, and nobody else publishes under the
id of one of their letters. -/
structure LettersApart (as : List BusAction) : Prop where
  deliveries : ∀ a a', .deliver a ∈ as → .deliver a' ∈ as →
    DigestsApart a.processor a.message a'.processor a'.message ∧
      ¬ Clash a.processor a.message a'.processor a'.message
  others : ∀ now subject envelope fault,
    .publish now subject envelope fault ∈ as →
    ∀ a, .deliver a ∈ as → envelope.eventId ≠ a.processor.letterID a.message

/-- In such a run a message that was terminated, and is no dead letter itself,
has a letter the stream has stored. -/
theorem run_letters {b : Bus} {as : List BusAction} {s : Consumers}
    (hapart : LettersApart as) (hrun : run b.step {} as = some s)
    {r : Processed} (hr : r ∈ s.history) (hterm : Terminated r.calls)
    (hnot : ¬ r.IsLetter) :
    ∃ r' ∈ s.history,
      SameFailure r.processor r.message r'.processor r'.message ∧
        ∃ stored ∈ s.stream.log, LetterOf b r' stored := by
  have hkept : Kept b (fun id => ∀ a, .deliver a ∈ as →
      id ≠ a.processor.letterID a.message) s := by
    refine run_inv (C := fun _ a => a ∈ as) ?_ ⟨by simp, by simp⟩
      (fun _ => action_mem) hrun
    intro s a t hs ha hstep
    cases a with
    | deliver a => exact dispatch_kept hs hstep
    | publish now subject envelope fault =>
        cases hstep
        exact publish_kept hs now subject fault (hapart.others _ _ _ _ ha)
  have hdelivered := history_delivered hrun
  obtain ⟨stored, hstored, hid⟩ := hkept.ids r hr hterm hnot
  obtain ⟨a, ha, rfl⟩ := hdelivered r hr
  rcases hkept.letters stored hstored with hother | ⟨r', hr', hof⟩
  · exact absurd hid (hother a ha)
  · refine ⟨r', hr', ?_, stored, hstored, hof⟩
    obtain ⟨a', ha', rfl⟩ := hdelivered r' hr'
    obtain ⟨hdigest, hclash⟩ := hapart.deliveries a a' ha ha'
    exact (letterID_apart_iff hdigest).mpr hclash (hid.symm.trans hof.1)

/-- The dead letters of two failing messages have the same id only if the
messages are one, if and only if the two do not clash: neither durable name
is the other, a colon and the start of the other's event id, and no event id
of a consumer is the digest of another message of it. On a bus whose messages
do not clash, and where no other event goes by the id of a letter, the letter
of a message that was terminated was stored. -/
theorem deadLetter_ids_apart_iff (p p' : Processor) (m m' : Message)
    (hdigest : DigestsApart p m p' m') :
    ((∀ d d' n n' cause cause', (p.letter m d n cause).1.eventID =
        (p'.letter m' d' n' cause').1.eventID → SameFailure p m p' m') ↔
      ¬ Clash p m p' m') ∧
    ∀ (b : Bus) (as : List BusAction) (s : Consumers), LettersApart as →
      run b.step {} as = some s →
      ∀ r ∈ s.history, Terminated r.calls → ¬ r.IsLetter →
        ∃ r' ∈ s.history,
          SameFailure r.processor r.message r'.processor r'.message ∧
            ∃ stored ∈ s.stream.log, LetterOf b r' stored := by
  refine ⟨?_, fun b as s hapart hrun r hr hterm hnot =>
    run_letters hapart hrun hr hterm hnot⟩
  rw [← letterID_apart_iff hdigest]
  simp only [letter_eventID]
  constructor
  · intro h hid
    exact h { metadata := .ok 0 } { metadata := .ok 0 } 0 0 (.new []) (.new [])
      hid
  · exact fun h _ _ _ _ _ _ hid => h hid

theorem not_shifted {p' : Processor} {m' : Message}
    (h : (p.durable.toList ++ [':']).isPrefixOf p'.durable.toList = false) :
    ¬ Shifted p m p' m' := by
  rintro ⟨text, hdurable, _⟩
  exact Joined.ne_longer h text.toList (by simp [hdurable])

/-- Two consumers of one message. -/
theorem deadLetter_ids_apart_iff_consumers :
    (changedProcessor.letter changedMessage { metadata := .ok 2 } 2
        (.new [])).1.eventID ≠
      ({ changedProcessor with durable := "audit" }.letter changedMessage
        { metadata := .ok 2 } 2 (.new [])).1.eventID := by
  have hclash : ¬ Clash changedProcessor changedMessage
      { changedProcessor with durable := "audit" } changedMessage := by
    rintro (h | h | ⟨h, _⟩ | ⟨h, _⟩)
    · exact not_shifted (by decide) h
    · exact not_shifted (by decide) h
    · exact absurd h (by decide)
    · exact absurd h (by decide)
  intro hid
  have hsame := (deadLetter_ids_apart_iff _ _ _ _ fun _ => rfl).1.mpr hclash
    _ _ _ _ _ _ hid
  exact absurd hsame.1 (by decide)

/-! ## A letter the stream drops -/

def orderEvent (eventId : String) : EventEnvelope :=
  { changedEvent with eventId }

def orderMessage (eventId : String) : Message :=
  { data := (orderEvent eventId).wire
    subject := "platform.example.changed.v1" }

/-- A consumer of two events. -/
def orderConsumer (durable : String) : Processor where
  config := Config.defaults { consumerMaxDeliver := 2 }
  durable
  codec :=
    { changedCodec with
      unmarshal := fun data =>
        if data = (orderEvent "eu:1").wire then .ok (orderEvent "eu:1")
        else if data = (orderEvent "1").wire then .ok (orderEvent "1")
        else .error (.new (bytes "cannot parse invalid wire-format data")) }

def orderBus : Bus where
  duplicateWindow := 10 * 60 * second
  marshalEnvelope envelope := .ok envelope.wire
  isPrint c := c.toNat ≥ 32

/-- Two consumers give up on two different events. -/
def orderDispatches : List Dispatch :=
  let failed : Delivery :=
    { metadata := .ok 2, handler := some (.new (bytes "permanent failure")) }
  [{ processor := orderConsumer "orders", message := orderMessage "eu:1"
     delivery := failed },
   { processor := orderConsumer "orders:eu", message := orderMessage "1"
     delivery := failed, now := second }]

/-- Both letters have one id: the second message is terminated and its letter
dropped. -/
theorem second_letter_dropped :
    (orderConsumer "orders").letterID (orderMessage "eu:1") =
        (orderConsumer "orders:eu").letterID (orderMessage "1") ∧
      ¬ SameFailure (orderConsumer "orders") (orderMessage "eu:1")
        (orderConsumer "orders:eu") (orderMessage "1") ∧
      ∃ s, run orderBus.dispatch {} orderDispatches = some s ∧
        s.stream.log.map Stored.msgID = ["dead-letter:orders:eu:1"] ∧
        s.stream.log.map Stored.time = [0] ∧
        s.history.map (fun r => r.calls.getLast?) = List.replicate 2
          (some (.termWithReason (bytes "permanent failure") none)) := by
  refine ⟨by decide, fun hsame => absurd hsame.1 (by decide), _, rfl, ?_, ?_,
    ?_⟩ <;> decide

end PlatformGo.EventBus
