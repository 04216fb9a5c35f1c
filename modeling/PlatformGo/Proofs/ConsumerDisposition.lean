import PlatformGo.Proofs.ConsumerLoss

/-!
# What a delivery is ended with

`process` has eight exits, and the broker only sees which of three calls it
makes on the message before it leaves: an acknowledgement, a request for a
redelivery or a termination. The message is gone after the first and the
third, so these two have to be earned by what the same call did before.

`Disposes` is the sentence all exits but one share: the effects contain
exactly one of the three calls, and the effects before it justify it
(`Justifies`). The one exception is the shutdown path, where a failed handler
is left to the redelivery of a message nobody answered. `process` is assembled
from four helpers, each with a lemma that says it ends a delivery, or does not
touch it.
-/

namespace PlatformGo.EventBus

/-- The calls that end a delivery. -/
def disposes : Effect → Bool
  | .doubleAck _ | .nakWithDelay .. | .termWithReason .. => true
  | .handle .. | .publish .. | .report _ => false

/-- The letter holds what the message held: the event it decodes to, or, when
it does not decode, as much of its data as the configuration allows, with the
flag that says whether something is missing. -/
def Processor.Carries (p : Processor) (m : Message)
    (letter : DeadLetterEvent) : Prop :=
  match p.codec.unmarshal m.data with
  | .ok event => letter.originalEvent = some event
  | .error _ =>
      letter.originalData <+: m.data ∧
        (letter.originalData.length : Int) =
          min (m.data.length : Int) p.config.deadLetterMaxDataBytes ∧
        (letter.originalDataTruncated = true ↔
          letter.originalData.length < m.data.length)

/-- A dead letter for the message has been published. -/
def Processor.Buried (p : Processor) (m : Message)
    (effects : List Effect) : Prop :=
  ∃ envelope letter,
    .publish p.config.deadLetterSubject envelope none ∈ effects ∧
      envelope.eventType = deadLetterEventType ∧
      p.codec.marshalDeadLetter letter = .ok envelope.payload ∧
      p.Carries m letter

/-- What has to come before a call that ends a delivery. -/
def Processor.Justifies (p : Processor) (m : Message)
    (before : List Effect) : Effect → Prop
  | .doubleAck _ =>
      ∃ requestID event, p.codec.unmarshal m.data = .ok event ∧
        .handle requestID event none ∈ before
  | .termWithReason .. =>
      p.Buried m before ∨
        ∃ event, p.codec.unmarshal m.data = .ok event ∧
          event.eventType = deadLetterEventType
  | .nakWithDelay .. => True
  | .handle .. | .publish .. | .report _ => False

def Quiet (effects : List Effect) : Prop :=
  ∀ e ∈ effects, disposes e = false

/-- The effects end the delivery once, and for a reason. -/
def Processor.Disposes (p : Processor) (m : Message)
    (effects : List Effect) : Prop :=
  ∃ before call after, effects = before ++ call :: after ∧
    disposes call = true ∧ Quiet before ∧ Quiet after ∧
    p.Justifies m before call

/-! ## Effects that do not end a delivery -/

theorem quiet_nil : Quiet [] := by
  simp [Quiet]

theorem quiet_cons {e : Effect} {es : List Effect} (he : disposes e = false)
    (hes : Quiet es) : Quiet (e :: es) :=
  List.forall_mem_cons.mpr ⟨he, hes⟩

theorem Quiet.append {xs ys : List Effect} (hx : Quiet xs) (hy : Quiet ys) :
    Quiet (xs ++ ys) :=
  List.forall_mem_append.mpr ⟨hx, hy⟩

theorem Quiet.countP {es : List Effect} (h : Quiet es) :
    es.countP disposes = 0 :=
  List.countP_eq_zero.mpr fun e he => by simp [h e he]

section Helpers

variable {p : Processor} {m : Message} {before : List Effect}

theorem report_quiet (err : GoErr) : Quiet (p.report err) := by
  rw [Processor.report]
  split
  · exact quiet_cons rfl quiet_nil
  · exact quiet_nil

/-! ## Helpers that end one -/

theorem retry_disposes (d : Delivery) (n : Nat) (hq : Quiet before) :
    p.Disposes m (before ++ p.retry d n) := by
  refine ⟨before, _, _, rfl, rfl, hq, ?_, trivial⟩
  split
  · exact quiet_nil
  · exact report_quiet _

theorem terminate_disposes (d : Delivery) (reason : Bytes)
    (hq : Quiet before)
    (hj : p.Buried m before ∨ ∃ event, p.codec.unmarshal m.data = .ok event ∧
      event.eventType = deadLetterEventType) :
    p.Disposes m (before ++ p.terminate d reason) := by
  refine ⟨before, _, _, rfl, rfl, hq, ?_, hj⟩
  split
  · exact quiet_nil
  · exact report_quiet _

theorem newEnvelope_ok {now : Time} {md : Metadata}
    {payload : Except GoErr Bytes} {envelope : EventEnvelope}
    (h : newEnvelope now md (some payload) = .ok envelope) :
    envelope.eventType = md.eventType ∧ payload = .ok envelope.payload := by
  rw [newEnvelope] at h
  split at h
  · simp at h
  · split at h
    · simp at h
    · cases payload with
      | error e => simp [Except.map] at h
      | ok b =>
          simp only [Except.map, Except.ok.injEq] at h
          subst h
          exact ⟨rfl, rfl⟩

/-- A dead letter that does not go out asks for a redelivery, one that does
ends the message. -/
theorem bury_disposes (d : Delivery) (n : Nat)
    {letter : Metadata × DeadLetterEvent} (reason : Bytes)
    (hq : Quiet before) (htype : letter.1.eventType = deadLetterEventType)
    (hc : p.Carries m letter.2) :
    p.Disposes m (before ++ p.bury d n letter reason) := by
  rw [Processor.bury, Processor.publishDeadLetter]
  cases henv : newEnvelope d.later letter.1
      (some (p.codec.marshalDeadLetter letter.2)) with
  | error e =>
      simp only [List.nil_append]
      rw [← List.append_assoc]
      exact retry_disposes d n (hq.append (report_quiet _))
  | ok envelope =>
      obtain ⟨henvtype, hpayload⟩ := newEnvelope_ok henv
      have hpub : Quiet (before ++
          [.publish p.config.deadLetterSubject envelope d.publish]) :=
        hq.append (quiet_cons rfl quiet_nil)
      cases hres : d.publish with
      | some e =>
          rw [hres] at hpub
          simp only [Option.map_some]
          rw [← List.append_assoc, ← List.append_assoc]
          exact retry_disposes d n (hpub.append (report_quiet _))
      | none =>
          rw [hres] at hpub
          simp only [Option.map_none]
          rw [← List.append_assoc]
          exact terminate_disposes d reason hpub (.inl ⟨envelope, letter.2,
            by simp, henvtype.trans htype, hpayload, hc⟩)

/-! ## The letters -/

theorem carries_deadLetterOf {event : EventEnvelope}
    (h : p.codec.unmarshal m.data = .ok event) (d : Delivery) (n : Nat)
    (cause : GoErr) : p.Carries m (p.deadLetterOf m d n event cause).2 := by
  rw [Processor.Carries, h]
  rfl

theorem carries_deadLetterOfRaw {cause : GoErr}
    (hlimit : 0 ≤ p.config.deadLetterMaxDataBytes)
    (h : p.codec.unmarshal m.data = .error cause) (d : Delivery) (n : Nat) :
    p.Carries m (p.deadLetterOfRaw m d n cause).2 := by
  have hdata : (p.deadLetterOfRaw m d n cause).2.originalData =
      m.data.take p.config.deadLetterMaxDataBytes.toNat := rfl
  have hcut : (p.deadLetterOfRaw m d n cause).2.originalDataTruncated =
      decide (m.data.length > p.config.deadLetterMaxDataBytes.toNat) := rfl
  rw [Processor.Carries, h]
  simp only [hdata, hcut, List.length_take, decide_eq_true_eq]
  refine ⟨List.take_prefix _ _, ?_, ?_⟩
  · omega
  · omega

end Helpers

/-! ## The eight exits -/

/-- A failed handler of a consumer that is shutting down is the one exit that
leaves the message unanswered. -/
theorem process_disposes {p : Processor} (m : Message) (d : Delivery)
    (hlimit : 0 ≤ p.config.deadLetterMaxDataBytes) :
    (∃ requestID event err, d.cancelled = true ∧
      p.process m d = [.handle requestID event (some err)]) ∨
    p.Disposes m (p.process m d) := by
  rw [Processor.process]
  cases d.metadata with
  | error e => exact .inr (retry_disposes d 1 (report_quiet _))
  | ok numDelivered =>
      cases hdec : p.codec.unmarshal m.data with
      | error e =>
          exact .inr (bury_disposes d numDelivered _ quiet_nil
            rfl (carries_deadLetterOfRaw hlimit hdec d numDelivered))
      | ok event =>
          have hcall : ∀ err, Quiet
              [.handle (messageRequestID event) event err] :=
            fun err => quiet_cons rfl quiet_nil
          cases d.handler with
          | none =>
              refine .inr ⟨[_], _, _, rfl, rfl, hcall none, ?_,
                _, event, hdec, List.mem_singleton.mpr rfl⟩
              split
              · exact quiet_nil
              · exact report_quiet _
          | some e =>
              simp only []
              split
              · rename_i hcancelled
                exact .inl ⟨_, event, e, hcancelled, rfl⟩
              · split
                · split
                  · exact .inr (bury_disposes d numDelivered _
                      (hcall (some e)) rfl
                      (carries_deadLetterOf hdec d numDelivered e))
                  · rename_i htype
                    exact .inr (terminate_disposes d _ (hcall (some e))
                      (.inr ⟨event, hdec, not_not.mp htype⟩))
                · exact .inr (retry_disposes d numDelivered
                    ((hcall (some e)).append (report_quiet _)))

/-! ## Every call of a run -/

/-- The calls of `process` over a sequence of deliveries, each with its
message and what the environment answered during it. -/
def Processor.consume (p : Processor) (deliveries : List (Message × Delivery)) :
    List (Message × Delivery × List Effect) :=
  deliveries.map fun (m, d) => (m, d, p.process m d)

/-- A list with one call that ends a delivery splits around it in one way. -/
theorem split_unique {before before' after after' : List Effect}
    {call call' : Effect} (hb : Quiet before) (ha : Quiet after)
    (h : before ++ call :: after = before' ++ call' :: after')
    (hcall : disposes call' = true) : before' = before ∧ call' = call := by
  rcases List.append_eq_append_iff.mp h with ⟨mid, hmid, hrest⟩ | ⟨mid, hmid, hrest⟩
  · cases mid with
    | nil =>
        rw [List.nil_append, List.cons.injEq] at hrest
        exact ⟨by rw [hmid, List.append_nil], hrest.1.symm⟩
    | cons x mid =>
        rw [List.cons_append, List.cons.injEq] at hrest
        have hmem : call' ∈ after := by rw [hrest.2]; simp
        rw [ha call' hmem] at hcall
        simp at hcall
  · cases mid with
    | nil =>
        rw [List.nil_append, List.cons.injEq] at hrest
        exact ⟨by rw [hmid, List.append_nil], hrest.1⟩
    | cons x mid =>
        rw [List.cons_append, List.cons.injEq] at hrest
        have hmem : call' ∈ before := by rw [hmid, hrest.1]; simp
        rw [hb call' hmem] at hcall
        simp at hcall

theorem Processor.Disposes.countP {p : Processor} {m : Message}
    {effects : List Effect} (h : p.Disposes m effects) :
    effects.countP EventBus.disposes = 1 := by
  obtain ⟨before, call, after, rfl, hcall, hb, ha, _⟩ := h
  rw [List.countP_append, List.countP_cons, hb.countP, ha.countP, hcall]
  rfl

/-- Whatever ends the delivery was justified when it was called. -/
theorem justified_of_disposes {p : Processor} {m : Message}
    {before after : List Effect} {call : Effect}
    (h : p.Disposes m (before ++ call :: after))
    (hcall : disposes call = true) : p.Justifies m before call := by
  obtain ⟨before', call', after', heq, _, hb, ha, hj⟩ := h
  obtain ⟨rfl, rfl⟩ := split_unique hb ha heq.symm hcall
  exact hj

theorem process_justified {p : Processor} {m : Message} {d : Delivery}
    (hlimit : 0 ≤ p.config.deadLetterMaxDataBytes)
    {before after : List Effect} {call : Effect}
    (heq : p.process m d = before ++ call :: after)
    (hcall : disposes call = true) : p.Justifies m before call := by
  rcases process_disposes m d hlimit with ⟨requestID, event, err, _, hproc⟩ | h
  · have hmem : call ∈ p.process m d := by rw [heq]; simp
    rw [hproc, List.mem_singleton] at hmem
    rw [hmem] at hcall
    simp [disposes] at hcall
  · exact justified_of_disposes (heq ▸ h) hcall

/-- No configuration a bus is built with has a negative limit. -/
theorem defaults_limit (c : Config) :
    0 < c.defaults.deadLetterMaxDataBytes := by
  simp only [Config.defaults, orDefault]
  split <;> omega

/-- A message is only removed when it was handled or preserved. Over any
sequence of deliveries each call ends its delivery at most once, and leaves it
unanswered only when the handler failed and the consumer was cancelled; it
acknowledges only after the handler returned nil on the event; and it
terminates only after a dead letter that carries the message was published, or
when the message is a dead letter itself. -/
theorem removed_only_when_preserved (p : Processor)
    (hlimit : 0 ≤ p.config.deadLetterMaxDataBytes)
    (deliveries : List (Message × Delivery)) :
    ∀ m d effects, (m, d, effects) ∈ p.consume deliveries →
      effects.countP disposes ≤ 1 ∧
      (effects.countP disposes = 0 → d.cancelled = true ∧
        ∃ requestID event err, .handle requestID event (some err) ∈ effects) ∧
      (∀ before err after, effects = before ++ .doubleAck err :: after →
        ∃ requestID event, p.codec.unmarshal m.data = .ok event ∧
          .handle requestID event none ∈ before) ∧
      (∀ before reason err after,
        effects = before ++ .termWithReason reason err :: after →
        p.Buried m before ∨
          ∃ event, p.codec.unmarshal m.data = .ok event ∧
            event.eventType = deadLetterEventType) := by
  intro m d effects hmem
  obtain ⟨⟨m', d'⟩, _, heq⟩ := List.mem_map.mp hmem
  simp only [Prod.mk.injEq] at heq
  obtain ⟨rfl, rfl, rfl⟩ := heq
  refine ⟨?_, fun hzero => ?_,
    fun before err after h => process_justified hlimit h rfl,
    fun before reason err after h => process_justified hlimit h rfl⟩
  · rcases process_disposes m' d' hlimit with ⟨_, _, _, _, hproc⟩ | h
    · rw [hproc]
      exact Nat.zero_le 1
    · exact Nat.le_of_eq h.countP
  · rcases process_disposes m' d' hlimit with
      ⟨requestID, event, err, hcancelled, hproc⟩ | h
    · exact ⟨hcancelled, requestID, event, err, by rw [hproc]; simp⟩
    · rw [h.countP] at hzero
      simp at hzero

/-- The digest of the text in `garbledMessage`. -/
def garbledHash : Vector UInt8 32 :=
  #v[0x63, 0x61, 0xb2, 0xdd, 0x9a, 0x13, 0xe5, 0x47, 0x30, 0x9d, 0xb7, 0x38,
    0xba, 0x02, 0x15, 0xb0, 0x8d, 0xc6, 0xc4, 0x00, 0xd2, 0xcf, 0x44, 0x36,
    0xb4, 0xe3, 0x77, 0xe8, 0x9e, 0xa2, 0x63, 0x96]

/-- A processor that keeps four bytes of what it cannot decode. -/
def strictProcessor : Processor :=
  { changedProcessor with
    config := Config.defaults { deadLetterMaxDataBytes := 4 }
    codec := { changedCodec with sha256 := fun _ => garbledHash } }

def garbledMessage : Message :=
  { data := bytes "not an envelope", subject := "platform.example.changed.v1" }

def firstDelivery : Delivery := { metadata := .ok 1 }

/-- A message that does not decode is terminated after its dead letter. -/
theorem removed_only_when_preserved_garbled :
    ∃ effects before reason err after,
      (garbledMessage, firstDelivery, effects) ∈ strictProcessor.consume
        [(changedMessage, firstDelivery), (garbledMessage, firstDelivery)] ∧
      effects = before ++ .termWithReason reason err :: after ∧
      strictProcessor.Buried garbledMessage before := by
  have hmem : (garbledMessage, firstDelivery,
      strictProcessor.process garbledMessage firstDelivery) ∈
      strictProcessor.consume [(changedMessage, firstDelivery),
        (garbledMessage, firstDelivery)] := by simp [Processor.consume]
  refine ⟨_, [_], _, _, _, hmem, rfl, ?_⟩
  rcases (removed_only_when_preserved strictProcessor
    (Int.le_of_lt (defaults_limit _)) _ _ _ _ hmem).2.2.2 [_] _ _ _ rfl with
    hburied | ⟨event, hdec, _⟩
  · exact hburied
  · cases hdec

end PlatformGo.EventBus
