import PlatformGo.Proofs.DeadLetters

/-!
# What a delivery and a publication leave behind

Two things about a delivery matter to whoever owns the stream: that it was
acknowledged, which only a handler that answered nil makes it, and that it
published a dead letter, which it does for an event that is none itself. Of a
publication it matters what it adds to the log of the stream: the message it
was given, or nothing.
-/

namespace PlatformGo.EventBus

variable {p : Processor} {m : Message}

/-- A publication adds its message to the stream or leaves it. -/
theorem publish_log (b : Bus) (s : JetStream) (now : Time) (subject : String)
    (envelope : EventEnvelope) (fault : PublishFault) :
    (b.publish s now subject envelope fault).1.log = s.log ∨
      ∃ stored, stored.msgID = envelope.eventId ∧ stored.subject = subject ∧
        b.marshalEnvelope envelope = .ok stored.data ∧
        (b.publish s now subject envelope fault).1.log =
          s.log ++ [stored] := by
  unfold Bus.publish
  split
  · exact .inl rfl
  · split
    · exact .inl rfl
    · next data hdata =>
        cases fault with
        | notReceived e => exact .inl rfl
        | none | ackLost =>
            refine (receive_log s b.duplicateWindow _).2.imp_right ?_
            intro hlog
            exact ⟨_, rfl, rfl, hdata, hlog⟩

/-- The same of the publication of a delivery. -/
theorem dispatch_log {b : Bus} {s t : Consumers} {a : Dispatch}
    {subject : String} {envelope : EventEnvelope} {answer : Option GoErr}
    (h : b.dispatch s a = some t)
    (hpub : (a.processor.process a.message a.delivery).findSome?
      Effect.published = some (subject, envelope, answer)) :
    t.stream.log = s.stream.log ∨
      ∃ stored, stored.msgID = envelope.eventId ∧ stored.subject = subject ∧
        b.marshalEnvelope envelope = .ok stored.data ∧
        t.stream.log = s.stream.log ++ [stored] := by
  have hlog := publish_log b s.stream a.now subject envelope a.fault
  simp only [Bus.dispatch, hpub] at h
  split at h
  · cases h
    exact hlog
  · cases h

/-- A letter is published for an event that was decoded, when its handler has
failed and the event is no letter itself. -/
theorem process_letter {d : Delivery} {event : EventEnvelope}
    {letter : String × EventEnvelope × Option GoErr}
    (hdec : p.codec.unmarshal m.data = .ok event)
    (h : (p.process m d).findSome? Effect.published = some letter) :
    event.eventType ≠ deadLetterEventType ∧ ∃ n, d.metadata = .ok n := by
  have hinert : ∀ {calls : List Effect}, Inert calls →
      calls.findSome? Effect.published = some letter → False := by
    intro calls hinert hsome
    rw [hinert.1] at hsome
    cases hsome
  unfold Processor.process at h
  cases hmeta : d.metadata with
  | error e =>
      rw [hmeta] at h
      exact (hinert ((inert_report _).append (inert_retry d 1)) h).elim
  | ok n =>
      rw [hmeta, hdec] at h
      dsimp only at h
      rw [List.findSome?_cons] at h
      dsimp only [Effect.published] at h
      refine ⟨?_, n, rfl⟩
      cases hh : d.handler with
      | none =>
          rw [hh] at h
          refine (hinert (Inert.cons rfl (by simp) ?_) h).elim
          cases d.doubleAck with
          | none => exact inert_nil
          | some e => exact inert_report _
      | some e =>
          rw [hh] at h
          dsimp only at h
          split at h
          · exact (hinert inert_nil h).elim
          · split at h
            · split at h
              · next htype => exact htype
              · rw [terminate_published] at h
                cases h
            · exact (hinert
                ((inert_report _).append (inert_retry d n)) h).elim

/-- The calls hold no acknowledgement. -/
def Unacked (calls : List Effect) : Prop :=
  ∀ err, Effect.doubleAck err ∉ calls

theorem Unacked.append {calls calls' : List Effect} (h : Unacked calls)
    (h' : Unacked calls') : Unacked (calls ++ calls') := by
  intro err hmem
  rcases List.mem_append.mp hmem with hmem | hmem
  · exact h err hmem
  · exact h' err hmem

theorem unacked_report (err : GoErr) : Unacked (p.report err) := by
  unfold Processor.report
  split <;> simp [Unacked]

theorem unacked_retry (d : Delivery) (n : Nat) : Unacked (p.retry d n) := by
  intro err hmem
  unfold Processor.retry at hmem
  cases hnak : d.nak with
  | none => simp [hnak] at hmem
  | some e =>
      rw [hnak, List.mem_cons] at hmem
      exact unacked_report _ err (hmem.resolve_left (by simp))

theorem unacked_terminate (d : Delivery) (reason : Bytes) :
    Unacked (p.terminate d reason) := by
  intro err hmem
  unfold Processor.terminate at hmem
  cases hterm : d.term with
  | none => simp [hterm] at hmem
  | some e =>
      rw [hterm, List.mem_cons] at hmem
      exact unacked_report _ err (hmem.resolve_left (by simp))

theorem unacked_bury (d : Delivery) (n : Nat)
    (letter : Metadata × DeadLetterEvent) (reason : Bytes) :
    Unacked (p.bury d n letter reason) := by
  have hcalls : Unacked (p.publishDeadLetter d letter).1 := by
    unfold Processor.publishDeadLetter
    split <;> simp [Unacked]
  unfold Processor.bury
  split
  · next calls e heq =>
      rw [heq] at hcalls
      exact (hcalls.append (unacked_report _)).append (unacked_retry d n)
  · next calls heq =>
      rw [heq] at hcalls
      exact hcalls.append (unacked_terminate d reason)

/-- A message is acknowledged only when its handler has answered nil. -/
theorem process_acked {d : Delivery} {err : Option GoErr}
    (h : Effect.doubleAck err ∈ p.process m d) :
    d.handler = none ∧
      ∃ n event, d.metadata = .ok n ∧ p.codec.unmarshal m.data = .ok event := by
  unfold Processor.process at h
  cases hmeta : d.metadata with
  | error e =>
      rw [hmeta] at h
      exact absurd h ((unacked_report _).append (unacked_retry d 1) err)
  | ok n =>
      rw [hmeta] at h
      dsimp only at h
      cases hdec : p.codec.unmarshal m.data with
      | error cause =>
          rw [hdec] at h
          exact absurd h (unacked_bury _ _ _ _ err)
      | ok event =>
          rw [hdec] at h
          refine ⟨?_, n, event, rfl, rfl⟩
          cases hh : d.handler with
          | none => rfl
          | some e =>
              rw [hh] at h
              dsimp only at h
              rw [List.mem_cons] at h
              have h := h.resolve_left (by simp)
              split at h
              · cases h
              · split at h
                · split at h
                  · exact absurd h (unacked_bury _ _ _ _ err)
                  · exact absurd h (unacked_terminate _ _ err)
                · exact absurd h
                    ((unacked_report _).append (unacked_retry d n) err)

end PlatformGo.EventBus
