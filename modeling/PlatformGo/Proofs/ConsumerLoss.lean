import PlatformGo.Ref.Consumer

/-!
# When a message survives its consumer

A message is safe once its handler has returned nil on some delivery, or a
dead letter for it has been published. The processor ends a delivery whose
dead letter could not be published by asking for another one, but the delivery
that triggers the dead letter of a decoded event is the last one the broker
makes: the request is never met. The same holds of a consumer that is shut
down during the last delivery, and of an event without an aggregate id, whose
dead letter `NewEnvelope` refuses to build.

`process_preserved_iff` says what one call does for the message in terms of
what its environment answered, `deliver_settled` when the broker takes the
message off. Both are lifted to whole runs by induction on the deliveries, and
together they say exactly which runs keep the message.
-/

namespace PlatformGo.EventBus

/-- A dead letter that carries the message: the decoded event, or as much of
the data as is kept where there is none. -/
def Processor.DeadLetterFor (p : Processor) (m : Message)
    (envelope : EventEnvelope) : Prop :=
  envelope.eventType = deadLetterEventType ∧
    ∃ letter, p.codec.marshalDeadLetter letter = .ok envelope.payload ∧
      letter.originalSubject = m.subject ∧ letter.consumer = p.durable ∧
      match p.codec.unmarshal m.data with
      | .ok event => letter.originalEvent = some event
      | .error _ => letter.decodingFailed = true ∧
          letter.originalData =
            m.data.take p.config.deadLetterMaxDataBytes.toNat

/-- The calls that make a message safe. -/
def Processor.Saves (p : Processor) (m : Message) : Effect → Prop
  | .handle _ _ none => True
  | .publish subject envelope none =>
      subject = p.config.deadLetterSubject ∧ p.DeadLetterFor m envelope
  | _ => False

def Processor.Preserved (p : Processor) (m : Message)
    (history : List Effect) : Prop :=
  ∃ e ∈ history, p.Saves m e

/-- The broker makes no further delivery. -/
def Processor.Exhausted (p : Processor) (m : Message) (s : Stream) : Prop :=
  ∀ a, p.deliver m s a = none

/-- The limit a bus can be configured with: `defaults` leaves nothing below
one, and the setting is an `int`. -/
def Config.LimitOk (c : Config) : Prop :=
  0 < c.consumerMaxDeliver ∧ c.consumerMaxDeliver < 2 ^ 63

/-- What the environment has to answer for the message to be kept. A message
that does not decode is buried on any delivery; an event whose handler never
succeeds has the last one only. -/
def Processor.SavedBy (p : Processor) (m : Message)
    (attempts : List Attempt) : Prop :=
  match p.codec.unmarshal m.data with
  | .ok event =>
      (∃ a ∈ attempts, a.delivery.handler = none) ∨
        ∃ a err, attempts.getLast? = some a ∧
          a.delivery.handler = some err ∧ a.delivery.cancelled = false ∧
          a.delivery.publish = none ∧ event.aggregateId ≠ "" ∧
          ∃ payload, p.codec.marshalDeadLetter (p.deadLetterOf m a.delivery
            attempts.length event err).2 = .ok payload
  | .error cause =>
      ∃ i a, attempts[i]? = some a ∧ a.delivery.publish = none ∧
        ∃ payload, p.codec.marshalDeadLetter (p.deadLetterOfRaw m a.delivery
          (i + 1) cause).2 = .ok payload

variable {p : Processor} {m : Message}

/-! ## Calls that neither save nor settle -/

theorem preserved_append {xs ys : List Effect} :
    p.Preserved m (xs ++ ys) ↔ p.Preserved m xs ∨ p.Preserved m ys := by
  simp only [Processor.Preserved, List.mem_append, or_and_right, exists_or]

theorem preserved_cons {e : Effect} {es : List Effect} :
    p.Preserved m (e :: es) ↔ p.Saves m e ∨ p.Preserved m es := by
  simp only [Processor.Preserved, List.mem_cons, or_and_right, exists_or,
    exists_eq_left]

@[simp] theorem not_preserved_nil : ¬ p.Preserved m [] := by
  rintro ⟨e, he, -⟩
  exact absurd he List.not_mem_nil

@[simp] theorem not_preserved_report (err : GoErr) :
    ¬ p.Preserved m (p.report err) := by
  unfold Processor.report
  split
  · rw [preserved_cons]
    simp [Processor.Saves]
  · exact not_preserved_nil

@[simp] theorem not_preserved_retry (d : Delivery) (n : Nat) :
    ¬ p.Preserved m (p.retry d n) := by
  unfold Processor.retry
  cases d.nak <;> simp [preserved_cons, Processor.Saves]

@[simp] theorem not_preserved_terminate (d : Delivery) (reason : Bytes) :
    ¬ p.Preserved m (p.terminate d reason) := by
  unfold Processor.terminate
  cases d.term <;> simp [preserved_cons, Processor.Saves]

@[simp] theorem report_settles (err : GoErr) (received : Bool) :
    (p.report err).any (settles received) = false := by
  unfold Processor.report
  split <;> rfl

@[simp] theorem retry_settles (d : Delivery) (n : Nat) (received : Bool) :
    (p.retry d n).any (settles received) = false := by
  unfold Processor.retry
  cases d.nak <;> simp [settles]

/-! ## Dead letters -/

/-- The part of a dead letter's metadata the processor fixes. -/
structure Addressed (letter : Metadata × DeadLetterEvent) : Prop where
  eventID : letter.1.eventID ≠ ""
  eventType : letter.1.eventType = deadLetterEventType
  aggregateType : letter.1.aggregateType = "event"
  schemaVersion : letter.1.schemaVersion = 1

theorem deadLetter_id_ne (durable id : String) :
    "dead-letter:" ++ durable ++ ":" ++ id ≠ "" := by
  intro h
  have hlen := congrArg String.length h
  simp [String.length_append] at hlen

theorem addressed_deadLetterOf (d : Delivery) (n : Nat)
    (event : EventEnvelope) (err : GoErr) :
    Addressed (p.deadLetterOf m d n event err) :=
  ⟨deadLetter_id_ne _ _, rfl, rfl, rfl⟩

theorem addressed_deadLetterOfRaw (d : Delivery) (n : Nat) (cause : GoErr) :
    Addressed (p.deadLetterOfRaw m d n cause) :=
  ⟨deadLetter_id_ne _ _, rfl, rfl, rfl⟩

/-- The name of a message that does not decode is never empty, so its dead
letter always has an aggregate id. -/
theorem identifier_ne (data : Bytes) : p.identifier data ≠ "" := by
  intro h
  have hlist := congrArg String.toList h
  have hlen := congrArg List.length hlist
  simp [Processor.identifier, hexEncode, hexPad, List.length_flatMap] at hlen

/-- An envelope is built from addressed metadata exactly when there is an
aggregate id and the payload encodes. -/
theorem newEnvelope_addressed {letter : Metadata × DeadLetterEvent}
    (h : Addressed letter) (now : Time) (encoded : Except GoErr Bytes) :
    (letter.1.aggregateID ≠ "" ∧ ∃ payload envelope,
        encoded = .ok payload ∧
        newEnvelope now letter.1 (some encoded) = .ok envelope ∧
        envelope.eventType = deadLetterEventType ∧
        envelope.payload = payload) ∨
      (¬ (letter.1.aggregateID ≠ "" ∧ ∃ payload, encoded = .ok payload) ∧
        ∃ e, newEnvelope now letter.1 (some encoded) = .error e) := by
  have htype : deadLetterEventType ≠ "" := by decide
  by_cases ha : letter.1.aggregateID = ""
  · right
    refine ⟨fun hb => hb.1 ha, ?_⟩
    unfold newEnvelope
    rw [if_pos (Or.inr (Or.inr (Or.inl ha)))]
    exact ⟨_, rfl⟩
  · have hfields : ¬ (letter.1.eventID = "" ∨ letter.1.eventType = "" ∨
        letter.1.aggregateID = "" ∨ letter.1.aggregateType = "") := by
      rw [h.eventType, h.aggregateType]
      simp [h.eventID, htype, ha]
    have hversion : letter.1.schemaVersion ≠ 0 := by
      rw [h.schemaVersion]
      decide
    unfold newEnvelope
    rw [if_neg hfields, if_neg hversion]
    cases encoded with
    | ok payload =>
        left
        exact ⟨ha, payload, _, rfl, rfl, h.eventType, rfl⟩
    | error e =>
        right
        refine ⟨?_, e, rfl⟩
        rintro ⟨-, payload, hp⟩
        cases hp

/-- What it takes for a letter to be out. -/
def Processor.Sent (p : Processor) (d : Delivery)
    (letter : Metadata × DeadLetterEvent) : Prop :=
  d.publish = none ∧ letter.1.aggregateID ≠ "" ∧
    ∃ payload, p.codec.marshalDeadLetter letter.2 = .ok payload

theorem bury_preserved_iff {d : Delivery} {n : Nat} {reason : Bytes}
    {letter : Metadata × DeadLetterEvent} (h : Addressed letter)
    (hfor : ∀ envelope, envelope.eventType = deadLetterEventType →
      p.codec.marshalDeadLetter letter.2 = .ok envelope.payload →
      p.DeadLetterFor m envelope) :
    p.Preserved m (p.bury d n letter reason) ↔ p.Sent d letter := by
  unfold Processor.bury Processor.publishDeadLetter Processor.Sent
  rcases newEnvelope_addressed h d.later
      (p.codec.marshalDeadLetter letter.2) with
    ⟨ha, payload, envelope, henc, hnew, htype, hpay⟩ | ⟨hnot, e, hnew⟩
  · rw [hnew]
    have hletter : p.DeadLetterFor m envelope :=
      hfor envelope htype (by rw [hpay]; exact henc)
    cases hpub : d.publish with
    | none =>
        simp [preserved_cons, Processor.Saves, hletter, ha, henc]
    | some err =>
        simp [preserved_append, preserved_cons, Processor.Saves]
  · rw [hnew]
    simp only [List.nil_append, preserved_append, not_preserved_report,
      not_preserved_retry, or_self, false_iff]
    exact fun hsent => hnot hsent.2

/-! ## One delivery -/

theorem process_raw_preserved_iff {d : Delivery} {n : Nat} {cause : GoErr}
    (hmeta : d.metadata = .ok n)
    (hdec : p.codec.unmarshal m.data = .error cause) :
    p.Preserved m (p.process m d) ↔
      d.publish = none ∧
        ∃ payload, p.codec.marshalDeadLetter
          (p.deadLetterOfRaw m d n cause).2 = .ok payload := by
  simp only [Processor.process, hmeta, hdec]
  rw [bury_preserved_iff (addressed_deadLetterOfRaw ..)]
  · constructor
    · intro h
      exact ⟨h.1, h.2.2⟩
    · intro h
      exact ⟨h.1, identifier_ne m.data, h.2⟩
  · intro envelope htype hpay
    refine ⟨htype, _, hpay, rfl, rfl, ?_⟩
    rw [hdec]
    exact ⟨rfl, rfl⟩

theorem process_event_preserved_iff {d : Delivery} {n : Nat}
    {event : EventEnvelope} (hmeta : d.metadata = .ok n)
    (hdec : p.codec.unmarshal m.data = .ok event)
    (htype : event.eventType ≠ deadLetterEventType) :
    p.Preserved m (p.process m d) ↔
      d.handler = none ∨
        ∃ err, d.handler = some err ∧ d.cancelled = false ∧
          p.maxDeliver ≤ n ∧ d.publish = none ∧ event.aggregateId ≠ "" ∧
          ∃ payload, p.codec.marshalDeadLetter
            (p.deadLetterOf m d n event err).2 = .ok payload := by
  simp only [Processor.process, hmeta, hdec]
  cases hh : d.handler with
  | none => simp [preserved_cons, Processor.Saves]
  | some err =>
      simp only [preserved_cons, Processor.Saves, false_or, reduceCtorEq,
        Option.some.injEq, exists_eq_left']
      by_cases hc : d.cancelled = true
      · rw [if_pos hc]
        simp [hc]
      · rw [if_neg hc]
        simp only [eq_false_of_ne_true hc, true_and]
        by_cases hn : p.maxDeliver ≤ n
        · rw [if_pos hn, if_pos htype,
            bury_preserved_iff (addressed_deadLetterOf ..)]
          · constructor
            · intro h
              exact ⟨hn, h.1, h.2.1, h.2.2⟩
            · intro h
              exact ⟨h.2.1, h.2.2.1, h.2.2.2⟩
          · intro envelope htype hpay
            refine ⟨htype, _, hpay, rfl, rfl, ?_⟩
            rw [hdec]
            rfl
        · rw [if_neg hn]
          simp [preserved_append, hn]

/-- Only a handler that succeeded, or the last delivery, ends the message. -/
theorem process_event_settles {d : Delivery} {n : Nat}
    {event : EventEnvelope} {received : Bool} (hmeta : d.metadata = .ok n)
    (hdec : p.codec.unmarshal m.data = .ok event)
    (h : (p.process m d).any (settles received) = true) :
    d.handler = none ∨ p.maxDeliver ≤ n := by
  by_contra hnot
  rw [not_or] at hnot
  obtain ⟨err, hh⟩ := Option.ne_none_iff_exists'.mp hnot.1
  simp only [Processor.process, hmeta, hdec, hh] at h
  rw [if_neg hnot.2] at h
  split at h <;> simp [settles] at h

/-! ## Whole runs -/

theorem maxDeliver_cast (h : p.config.LimitOk) :
    (p.maxDeliver : Int) = p.config.consumerMaxDeliver := by
  obtain ⟨hpos, hlt⟩ := h
  unfold Processor.maxDeliver
  rw [Int.emod_eq_of_lt (by omega) (by omega), Int.toNat_of_nonneg (by omega)]

theorem deliver_eq {s t : Stream} {a : Attempt} (hlim : p.config.LimitOk)
    (h : p.deliver m s a = some t) :
    s.settled = false ∧ s.delivered < p.maxDeliver ∧
      t.delivered = s.delivered + 1 ∧
      t.settled = (p.process m (a.numbered (s.delivered + 1))).any
        (settles a.received) ∧
      t.history = s.history ++ p.process m (a.numbered (s.delivered + 1)) := by
  have hcast := maxDeliver_cast hlim
  unfold Processor.deliver at h
  split at h
  · cases h
  · next hopen =>
      rw [not_or] at hopen
      cases h
      refine ⟨by simpa using hopen.1, ?_, rfl, rfl, rfl⟩
      have hlt := hopen.2
      omega

theorem run_delivered (hlim : p.config.LimitOk) {attempts : List Attempt}
    {s t : Stream} (hrun : Lts.run (p.deliver m) s attempts = some t) :
    t.delivered = s.delivered + attempts.length := by
  induction attempts generalizing s with
  | nil =>
      rw [Lts.run_nil, Option.some.injEq] at hrun
      subst hrun
      rfl
  | cons a attempts ih =>
      obtain ⟨u, hu, hrest⟩ := Lts.run_cons.mp hrun
      obtain ⟨-, -, hdel, -, -⟩ := deliver_eq hlim hu
      rw [ih hrest, hdel, List.length_cons]
      omega

/-- The history of a run is the calls of its deliveries, each numbered by its
place. -/
theorem run_preserved_iff (hlim : p.config.LimitOk)
    {attempts : List Attempt} {s t : Stream}
    (hrun : Lts.run (p.deliver m) s attempts = some t) :
    p.Preserved m t.history ↔ p.Preserved m s.history ∨
      ∃ (i : Nat) (a : Attempt), attempts[i]? = some a ∧
        p.Preserved m (p.process m (a.numbered (s.delivered + i + 1))) := by
  induction attempts generalizing s with
  | nil =>
      rw [Lts.run_nil, Option.some.injEq] at hrun
      subst hrun
      simp
  | cons b attempts ih =>
      obtain ⟨u, hu, hrest⟩ := Lts.run_cons.mp hrun
      obtain ⟨-, -, hdel, -, hhist⟩ := deliver_eq hlim hu
      rw [ih hrest, hhist, preserved_append, or_assoc]
      refine or_congr_right ⟨?_, ?_⟩
      · rintro (hb | ⟨i, a, hi, ha⟩)
        · exact ⟨0, b, rfl, hb⟩
        · refine ⟨i + 1, a, hi, ?_⟩
          rw [hdel] at ha
          rwa [show s.delivered + (i + 1) + 1 = s.delivered + 1 + i + 1 by
            omega]
      · rintro ⟨i, a, hi, ha⟩
        cases i with
        | zero =>
            rw [List.getElem?_cons_zero, Option.some.injEq] at hi
            subst hi
            exact Or.inl ha
        | succ i =>
            refine Or.inr ⟨i, a, hi, ?_⟩
            rw [hdel]
            rwa [show s.delivered + 1 + i + 1 = s.delivered + (i + 1) + 1 by
              omega]

/-- The count stays within the limit, and a decoded event that was taken off
was safe or had reached it. -/
structure Bounded (p : Processor) (m : Message) (s : Stream) : Prop where
  le : s.delivered ≤ p.maxDeliver
  settled : s.settled = true →
    p.Preserved m s.history ∨ s.delivered = p.maxDeliver

theorem bounded_deliver {event : EventEnvelope} (hlim : p.config.LimitOk)
    (hdec : p.codec.unmarshal m.data = .ok event)
    (htype : event.eventType ≠ deadLetterEventType) {s t : Stream}
    {a : Attempt} (h : p.deliver m s a = some t) : Bounded p m t := by
  obtain ⟨-, hlt, hdel, hset, hhist⟩ := deliver_eq hlim h
  refine ⟨by omega, ?_⟩
  intro hsettled
  rw [hset] at hsettled
  rcases process_event_settles rfl hdec hsettled with hnone | hmax
  · left
    rw [hhist, preserved_append]
    exact Or.inr ((process_event_preserved_iff rfl hdec htype).mpr (Or.inl hnone))
  · right
    omega

theorem run_bounded {event : EventEnvelope} (hlim : p.config.LimitOk)
    (hdec : p.codec.unmarshal m.data = .ok event)
    (htype : event.eventType ≠ deadLetterEventType)
    {attempts : List Attempt} {t : Stream}
    (hrun : Lts.run (p.deliver m) {} attempts = some t) : Bounded p m t := by
  refine Lts.run_inv_of (I := Bounded p m) ?_ ⟨Nat.zero_le _, ?_⟩ hrun
  · intro s a u _ h
    exact bounded_deliver hlim hdec htype h
  · intro h
    cases h

theorem exhausted_cases {s : Stream} (hlim : p.config.LimitOk)
    (hend : p.Exhausted m s) :
    s.settled = true ∨ p.maxDeliver ≤ s.delivered := by
  have hcast := maxDeliver_cast hlim
  have hnone := hend ⟨{ metadata := .ok 0 }, false⟩
  unfold Processor.deliver at hnone
  split at hnone
  · next hstop =>
      rcases hstop with hsettled | hmax
      · exact Or.inl hsettled
      · right
        omega
  · cases hnone

/-! ## The runs that keep the message -/

theorem preserved_of_handled {event : EventEnvelope}
    (hlim : p.config.LimitOk)
    (hdec : p.codec.unmarshal m.data = .ok event)
    (htype : event.eventType ≠ deadLetterEventType)
    {attempts : List Attempt} {s : Stream}
    (hrun : Lts.run (p.deliver m) {} attempts = some s) {a : Attempt}
    (ha : a ∈ attempts) (hnone : a.delivery.handler = none) :
    p.Preserved m s.history := by
  obtain ⟨i, hi⟩ := List.mem_iff_getElem?.mp ha
  exact (run_preserved_iff hlim hrun).mpr (Or.inr ⟨i, a, hi,
    (process_event_preserved_iff rfl hdec htype).mpr (Or.inl hnone)⟩)

theorem event_preserved_iff {event : EventEnvelope}
    (hlim : p.config.LimitOk)
    (hdec : p.codec.unmarshal m.data = .ok event)
    (htype : event.eventType ≠ deadLetterEventType)
    {attempts : List Attempt} {s : Stream}
    (hrun : Lts.run (p.deliver m) {} attempts = some s)
    (hend : p.Exhausted m s) :
    p.Preserved m s.history ↔ p.SavedBy m attempts := by
  have hb := run_bounded hlim hdec htype hrun
  have hcount : s.delivered = attempts.length := by
    rw [run_delivered hlim hrun]
    exact Nat.zero_add _
  unfold Processor.SavedBy
  simp only [hdec]
  constructor
  · intro hpres
    rcases (run_preserved_iff hlim hrun).mp hpres with h | ⟨i, a, hi, ha⟩
    · exact absurd h not_preserved_nil
    rcases (process_event_preserved_iff rfl hdec htype).mp ha with hnone |
      ⟨err, hh, hc, hn, hpub, hagg, hpay⟩
    · exact Or.inl ⟨a, List.mem_of_getElem? hi, hnone⟩
    · -- only the delivery at the limit buries the event, and it is the last
      have hlt : i < attempts.length := (List.getElem?_eq_some_iff.mp hi).1
      have hle := hb.le
      have hnum : ({} : Stream).delivered + i + 1 = i + 1 := by
        rw [Nat.zero_add]
      rw [hnum] at hn hpay
      have hlast : i + 1 = attempts.length := by
        omega
      refine Or.inr ⟨a, err, ?_, hh, hc, hpub, hagg, ?_⟩
      · rw [List.getLast?_eq_getElem?, ← hlast]
        exact hi
      · rw [← hlast]
        exact hpay
  · rintro (⟨a, ha, hnone⟩ | ⟨a, err, hlast, hh, hc, hpub, hagg, hpay⟩)
    · exact preserved_of_handled hlim hdec htype hrun ha hnone
    · have hreach : p.Preserved m s.history ∨
          s.delivered = p.maxDeliver := by
        rcases exhausted_cases hlim hend with hset | hmax
        · exact hb.settled hset
        · exact Or.inr (Nat.le_antisymm hb.le hmax)
      rcases hreach with hpres | hmax
      · exact hpres
      · rw [List.getLast?_eq_getElem?] at hlast
        have hlt := (List.getElem?_eq_some_iff.mp hlast).1
        have hnum : 0 + (attempts.length - 1) + 1 = attempts.length := by
          omega
        refine (run_preserved_iff hlim hrun).mpr
          (Or.inr ⟨attempts.length - 1, a, hlast, ?_⟩)
        rw [show (({} : Stream).delivered + (attempts.length - 1) + 1) =
          attempts.length from hnum]
        refine (process_event_preserved_iff rfl hdec htype).mpr
          (Or.inr ⟨err, hh, hc, ?_, hpub, hagg, hpay⟩)
        omega

theorem raw_preserved_iff {cause : GoErr} (hlim : p.config.LimitOk)
    (hdec : p.codec.unmarshal m.data = .error cause)
    {attempts : List Attempt} {s : Stream}
    (hrun : Lts.run (p.deliver m) {} attempts = some s) :
    p.Preserved m s.history ↔ p.SavedBy m attempts := by
  unfold Processor.SavedBy
  simp only [hdec]
  rw [run_preserved_iff hlim hrun, or_iff_right not_preserved_nil]
  refine exists_congr fun i => exists_congr fun a => and_congr_right ?_
  intro _
  rw [process_raw_preserved_iff rfl hdec, Nat.zero_add]
  rfl

/-- A message that is no dead letter itself is kept by a run that is over if
and only if a handler succeeded, or the dead letter of the last delivery could
be built and published by a consumer that was still running, or, for a message
that does not decode, that of any delivery could. -/
theorem exhausted_preserved_iff (hlim : p.config.LimitOk)
    (htype : ∀ event, p.codec.unmarshal m.data = .ok event →
      event.eventType ≠ deadLetterEventType)
    {attempts : List Attempt} {s : Stream}
    (hrun : Lts.run (p.deliver m) {} attempts = some s)
    (hend : p.Exhausted m s) :
    p.Preserved m s.history ↔ p.SavedBy m attempts := by
  cases hdec : p.codec.unmarshal m.data with
  | ok event => exact event_preserved_iff hlim hdec (htype event hdec) hrun hend
  | error cause => exact raw_preserved_iff hlim hdec hrun

/-! ## A message that is lost -/

def changedEvent : EventEnvelope :=
  { eventId := "event-1", eventType := "platform.example.changed.v1"
    aggregateId := "aggregate-1", aggregateType := "example"
    tenantId := "tenant-1", applicationId := "", schemaVersion := 1
    occurredAt := 0, context := none, payload := [] }

/-- A codec that knows one message. -/
def changedCodec : Codec where
  unmarshal data :=
    if data = changedEvent.wire then .ok changedEvent
    else .error (.new (bytes "cannot parse invalid wire-format data"))
  marshalDeadLetter letter := .ok letter.wire
  sha256 _ := Vector.replicate 32 0
  isPrint c := c.toNat ≥ 32

def changedProcessor : Processor where
  config := Config.defaults { consumerMaxDeliver := 2 }
  durable := "projection"
  codec := changedCodec

def changedMessage : Message :=
  { data := changedEvent.wire, subject := "platform.example.changed.v1" }

/-- The handler fails on both deliveries; the second one is the last, and the
publisher of its dead letter answers with the given result. -/
def failingAttempts (publish : Option GoErr) : List Attempt :=
  let failed : Delivery :=
    { metadata := .ok 0, handler := some (.new (bytes "permanent failure")) }
  [⟨failed, false⟩, ⟨{ failed with publish }, false⟩]

theorem changed_limitOk : changedProcessor.config.LimitOk := by
  constructor <;> decide

theorem changed_type (event : EventEnvelope)
    (h : changedProcessor.codec.unmarshal changedMessage.data = .ok event) :
    event.eventType ≠ deadLetterEventType := by
  cases h
  decide

theorem failing_run (publish : Option GoErr) :
    ∃ s, Lts.run (changedProcessor.deliver changedMessage) {}
        (failingAttempts publish) = some s ∧
      changedProcessor.Exhausted changedMessage s := by
  cases publish <;> exact ⟨_, rfl, fun _ => rfl⟩

/-- With the publisher down on the last delivery the processor asks for a
redelivery the broker does not make. -/
theorem deadLetter_publish_failure_loses_message :
    ¬ ∀ (p : Processor) (m : Message) (attempts : List Attempt) (s : Stream),
      p.config.LimitOk →
      (∀ event, p.codec.unmarshal m.data = .ok event →
        event.eventType ≠ deadLetterEventType) →
      Lts.run (p.deliver m) {} attempts = some s → p.Exhausted m s →
      p.Preserved m s.history := by
  intro hall
  obtain ⟨s, hrun, hend⟩ :=
    failing_run (some (.new (bytes "NATS unavailable")))
  have hpres := hall _ _ _ s changed_limitOk changed_type hrun hend
  rw [event_preserved_iff changed_limitOk rfl (changed_type _ rfl) hrun hend]
    at hpres
  rcases hpres with ⟨a, ha, hnone⟩ | ⟨a, err, hlast, -, -, hpub, -⟩
  · simp only [failingAttempts, List.mem_cons, List.not_mem_nil,
      or_false] at ha
    rcases ha with rfl | rfl <;> cases hnone
  · cases hlast
    cases hpub

/-- With the publisher up it is kept. -/
theorem exhausted_preserved_iff_published :
    ∃ s, Lts.run (changedProcessor.deliver changedMessage) {}
        (failingAttempts none) = some s ∧
      changedProcessor.Preserved changedMessage s.history := by
  obtain ⟨s, hrun, hend⟩ := failing_run none
  refine ⟨s, hrun, ?_⟩
  rw [exhausted_preserved_iff changed_limitOk changed_type hrun hend]
  exact Or.inr ⟨_, _, rfl, rfl, rfl, rfl, by decide, _, rfl⟩

end PlatformGo.EventBus
