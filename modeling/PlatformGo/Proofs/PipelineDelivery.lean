import PlatformGo.Proofs.PipelineRefine

/-!
# Where an event changes hands

The refinement says that nothing is done twice. What is known of an event on
its way is read off the same relation, at the two places where it changes
hands.

* **Into the stream.** A row stops being pending only when the dispatcher was
  told so by the bus, and the bus answers nil only when a message under the id
  has been stored (`committed_pending_or_stored`). Whose message it is that has
  the id is another question: the server drops a message whose id it has seen,
  so an id that is used twice can swallow an event. With ids that are not, it
  is the event itself, subject and encoding. How long the stream keeps what it
  has stored is not said here.

* **Out of the stream.** A consumer settles a message by acknowledging or by
  terminating it. It acknowledges what `Process` answered nil for, which means
  that the row is completed, by this call or by another one; and it terminates
  what a dead letter has been stored for, or is one
  (`settled_applied_or_buried`). That a message is settled at all is not said:
  the last delivery the broker allows may end without it.

The dispatchers and the consumers are the only publishers of this machine. The
recorders of the two logs, which may share the bus, have no part in it.
-/

namespace PlatformGo.Pipeline

open Lts EventBus

variable {W : Type} {setup : Setup}

/-- The ids of the events tell them apart, and no letter has the id of one. -/
structure Apart (setup : Setup) (log : List Outbox.Event) (e : Outbox.Event) :
    Prop where
  only : ∀ e' ∈ log, e'.id = e.id → e' = e
  noLetter : ∀ n, ∀ e' ∈ log,
    letterOf ⟨(setup.consumers n).processor.durable, e'.id⟩ ≠ e.id

/-- A committed event is pending in the outbox, with the encoding of its
envelope, or the stream has stored a message under its id, which is the event
itself when its id is no other's. And with no other publishers the stream has
stored nothing but committed events and their dead letters. -/
theorem committed_pending_or_stored (hcodec : setup.RoundTrips)
    {as : List (Action W)} {s : Sys W}
    (hrun : run setup.step {} as = some s) :
    (∀ e ∈ s.outbox.db.log,
      (∃ r, s.outbox.db.lookup e.id = some r ∧ r.publishedAt = none ∧
        Outbox.Stores setup.outbox.store e e.id r) ∨
      ∃ stored ∈ s.bus.stream.log, stored.msgID = e.id ∧
        (Apart setup s.outbox.db.log e → OfEvent setup e stored)) ∧
    ∀ stored ∈ s.bus.stream.log, ∃ e ∈ s.outbox.db.log,
      OfEvent setup e stored ∨ ∃ n, OfLetter setup n e stored := by
  obtain ⟨bss, spec, -, -, hrel⟩ := rel_run hcodec hrun
  have horigin : ∀ stored ∈ s.bus.stream.log, ∃ e ∈ s.outbox.db.log,
      OfEvent setup e stored ∨ ∃ n, OfLetter setup n e stored := by
    intro stored hstored
    obtain ⟨e, he, hof⟩ := hrel.stream stored hstored
    rw [hrel.outbox.committed] at he
    exact ⟨e, he, hof.imp_right fun ⟨n, _, hof⟩ => ⟨n, hof⟩⟩
  refine ⟨fun e he => ?_, horigin⟩
  rcases hrel.outbox.inv.db.log e he with ⟨r, hr, hpending, hst⟩ |
    ⟨e', he', hid, env, henv, hpub⟩
  · exact .inl ⟨r, hr, Option.isNone_iff_eq_none.mp hpending, hst⟩
  · right
    obtain ⟨stored, hstored, hmsg⟩ := hrel.outbox.sent _ hpub rfl
    obtain ⟨env', henv', hvalid, -⟩ := hrel.outbox.inv.db.valid e' he'
    rw [henv, Option.some.injEq] at henv'
    subst henv'
    have hmsg : stored.msgID = e.id := hmsg.trans (hvalid.trans hid)
    refine ⟨stored, hstored, hmsg, fun hapart => ?_⟩
    obtain ⟨e₁, he₁, hof | ⟨n, hof⟩⟩ := horigin stored hstored
    · rwa [hapart.only e₁ he₁ (hof.msgID.symm.trans hmsg)] at hof
    · exact absurd (hof.msgID.symm.trans hmsg) (hapart.noLetter n e₁ he₁)

/-- The dispatcher has published the event and not yet marked it. -/
theorem committed_pending_or_stored_order :
    ∃ s, run orderPipeline.step {} orderRun = some s ∧
      Outbox.orderEvent "order-1" ∈ s.outbox.db.log ∧
      ∃ stored ∈ s.bus.stream.log,
        OfEvent orderPipeline (Outbox.orderEvent "order-1") stored := by
  have hend : (run orderPipeline.step {} orderRun).map (fun s =>
      (s.outbox.db.log,
        (s.outbox.db.lookup "order-event").map Outbox.Row.pending)) =
      some ([Outbox.orderEvent "order-1"], some false) := by decide
  obtain ⟨s, hrun, hs⟩ := Option.map_eq_some_iff.mp hend
  simp only [Prod.mk.injEq] at hs
  have hmem : Outbox.orderEvent "order-1" ∈ s.outbox.db.log := by
    rw [hs.1]
    simp
  refine ⟨s, hrun, hmem, ?_⟩
  rcases (committed_pending_or_stored orderPipeline_roundTrips hrun).1 _ hmem with
    ⟨r, hr, hnone, -⟩ | ⟨stored, hstored, -, hof⟩
  · rw [show (Outbox.orderEvent "order-1").id = "order-event" from rfl] at hr
    rw [hr, Option.map_some, Outbox.Row.pending, hnone] at hs
    cases hs.2
  · refine ⟨stored, hstored, hof ⟨?_, ?_⟩⟩
    · rw [hs.1]
      intro e' he' _
      exact List.mem_singleton.mp he'
    · rw [hs.1]
      intro n e' he'
      rw [List.mem_singleton.mp he']
      show letterOf ⟨"orders_projection", "order-event"⟩ ≠ "order-event"
      decide

/-! ## Out of the stream -/

/-- The inbox of a run makes steps of its own or stands still. -/
theorem step_inbox {s t : Sys W} {a : Action W}
    (h : setup.step s a = some t) :
    t.inbox = s.inbox ∨ ∃ b, Inbox.step s.inbox b = some t.inbox ∧
      ∀ k before, b = .delete k before → a = .inbox (.delete k before) := by
  unfold Setup.step at h
  split at h
  · cases h
  · obtain ⟨outbox, -, rfl⟩ := Option.map_eq_some_iff.mp h
    exact .inl rfl
  · unfold Setup.publish at h
    split at h
    · obtain ⟨envelope, -, h⟩ := Option.bind_eq_some_iff.mp h
      obtain ⟨outbox, -, rfl⟩ := Option.map_eq_some_iff.mp h
      exact .inl rfl
    · cases h
  · obtain ⟨stored, -, h⟩ := Option.bind_eq_some_iff.mp h
    split at h
    · cases h
    · obtain ⟨inbox, hstep, rfl⟩ := Option.map_eq_some_iff.mp h
      exact .inr ⟨_, hstep, fun k before heq => by cases heq⟩
  · obtain ⟨stored, -, h⟩ := Option.bind_eq_some_iff.mp h
    dsimp only at h
    split at h
    · obtain ⟨bus, -, rfl⟩ := Option.map_eq_some_iff.mp h
      exact .inl rfl
    · obtain ⟨bus, -, rfl⟩ := Option.map_eq_some_iff.mp h
      exact .inl rfl
    · cases h
  · cases h
  · next b _ =>
      obtain ⟨inbox, hstep, rfl⟩ := Option.map_eq_some_iff.mp h
      exact .inr ⟨b, hstep, fun k before heq => by rw [heq]⟩
  · unfold Setup.finish at h
    split at h
    · split at h
      · obtain ⟨bus, -, rfl⟩ := Option.map_eq_some_iff.mp h
        exact .inl rfl
      · cases h
    · cases h

/-- While retention leaves the row alone the inbox keeps its own invariant of
one handler's writes. -/
theorem inbox_safe {k : Inbox.Key} {as : List (Action W)} {s : Sys W}
    (hkept : ∀ before, Action.inbox (.delete k before) ∉ as)
    (hrun : run setup.step {} as = some s) : Inbox.Safe k s.inbox := by
  refine run_inv (I := fun s : Sys W => Inbox.Safe k s.inbox)
    (C := fun _ a => ∀ before, a ≠ .inbox (.delete k before)) ?_
    (Inbox.safe_init k) ?_ hrun
  · intro s a t hs ha hstep
    rcases step_inbox hstep with hsame | ⟨b, hb, hdelete⟩
    · rw [hsame]
      exact hs
    · refine Inbox.safe_step _ b _ hs ?_ hb
      rintro ⟨before, r, heq, -, -⟩
      exact ha before (hdelete k before heq)
  · intro p hp before heq
    exact hkept before (heq ▸ action_mem hp)

/-- Every delivery that is over was one of a message the stream has stored. If
it acknowledged its message, then the event's row is completed, with exactly
the writes of one handler that answered nil in the domain tables, as long as
retention has not removed it. If it terminated its message, then the message
is a dead letter or the stream has stored a message under the id of its
letter. -/
theorem settled_applied_or_buried (hcodec : setup.RoundTrips)
    {as : List (Action W)} {s : Sys W}
    (hrun : run setup.step {} as = some s) :
    ∀ r ∈ s.bus.history,
      (∃ stored ∈ s.bus.stream.log, r.message = stored.message) ∧
      (∀ err, Effect.doubleAck err ∈ r.calls →
        ∃ event, r.processor.codec.unmarshal r.message.data = .ok event ∧
          ∀ k : Inbox.Key, k = ⟨r.processor.durable, event.eventId⟩ →
            (∀ before, Action.inbox (.delete k before) ∉ as) →
            Inbox.Completed s.inbox.db k ∧
              ∃ c call, s.inbox.calls c = some call ∧ call.key = k ∧
                call.handled = some none ∧
                Inbox.effectsOf k s.inbox.db.log = call.effects c) ∧
      (Terminated r.calls → r.IsLetter ∨
        ∃ stored ∈ s.bus.stream.log,
          stored.msgID = r.processor.letterID r.message) := by
  obtain ⟨bss, spec, hcauses, hspec, hrel⟩ := rel_run hcodec hrun
  intro r hr
  have hsettled := hrel.history r hr
  refine ⟨hsettled.message, fun err herr => ?_, hsettled.terminated⟩
  obtain ⟨event, hdec, hdid⟩ := hsettled.acked err herr
  refine ⟨event, hdec, ?_⟩
  rintro k rfl hkept
  have honce := once_run (not_forgotten hcauses hkept) hspec
  -- It was applied, so it is remembered, so its row is completed.
  have hremembered : spec.remembered.contains
      ⟨r.processor.durable, event.eventId⟩ = true := by
    by_contra hnot
    have hnever := honce.never ((Bool.not_eq_true _).mp hnot)
    obtain ⟨a, ha, hkey⟩ := hdid
    rw [Spec.times, List.length_eq_zero_iff, List.filter_eq_nil_iff] at hnever
    exact hnever a ha (by simpa using hkey)
  have hcompleted := (hrel.inbox.remembered _).mp hremembered
  obtain ⟨c, call, hcall, hkey, hnil, -, heffects⟩ :=
    (inbox_safe hkept hrun).key.done hcompleted
  exact ⟨hcompleted, c, call, hcall, hkey, hnil, heffects⟩

/-- Both deliveries were acknowledged, the second as a duplicate. -/
theorem settled_applied_or_buried_order :
    ∃ s, run orderPipeline.step {} orderRun = some s ∧
      s.bus.history.length = 2 ∧
      ∀ r ∈ s.bus.history, Effect.doubleAck none ∈ r.calls ∧
        ∃ event, r.processor.codec.unmarshal r.message.data = .ok event ∧
          Inbox.Completed s.inbox.db ⟨r.processor.durable, event.eventId⟩ := by
  have hend : (run orderPipeline.step {} orderRun).map (fun s =>
      (s.bus.history.length, s.bus.history.all fun r =>
        r.calls.contains (.doubleAck none))) = some (2, true) := by decide
  obtain ⟨s, hrun, hs⟩ := Option.map_eq_some_iff.mp hend
  simp only [Prod.mk.injEq, List.all_eq_true, List.contains_iff_mem] at hs
  refine ⟨s, hrun, hs.1, fun r hr => ⟨hs.2 r hr, ?_⟩⟩
  obtain ⟨event, hdec, hdone⟩ :=
    (settled_applied_or_buried orderPipeline_roundTrips hrun r hr).2.1 none
      (hs.2 r hr)
  refine ⟨event, hdec, (hdone _ rfl fun before hmem => ?_).1⟩
  simp [orderRun, processOne, processDuplicate] at hmem

end PlatformGo.Pipeline
