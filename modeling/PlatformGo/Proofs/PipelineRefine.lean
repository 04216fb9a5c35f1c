import PlatformGo.Ref.Pipeline
import PlatformGo.Proofs.BusStream
import PlatformGo.Proofs.InboxSeen
import PlatformGo.Proofs.OutboxDelivery
import PlatformGo.Proofs.PipelineSpec

/-!
# The pipeline does every event once

What the pipeline does is a run of the abstract machine:

* **Where a message comes from.** Everything that was stored is a committed event
  under its own id, or the dead letter of one (`Origin`). A dead letter has no
  dead letter of its own, so the chain ends there.

* **What is applied.** The domain log of the inbox is the writes of the applied
  events, one block after the other, and a row is completed exactly when its
  event is remembered. Redeliveries, duplicates on the stream, lost
  acknowledgements and crashed consumers are all steps nothing answers.

* **What retention costs.** The machine forgets an event only when retention
  deletes its row. Without that no event is applied twice.

The relation is kept step by step. Each part of it speaks about one component
and about the abstract state, and the abstract state only grows, so the parts
whose component stands still are carried over by monotonicity.
-/

namespace PlatformGo.Pipeline

open Lts EventBus

variable {W : Type}

/-! ## Where a message comes from -/

/-- The encoding is read back as it was, in the outbox and by every
consumer. -/
structure Setup.RoundTrips (setup : Setup) : Prop where
  outbox : setup.outbox.store.RoundTrips
  consumers : ∀ n event data, setup.bus.marshalEnvelope event = .ok data →
    (setup.consumers n).processor.codec.unmarshal data = .ok event

/-- The message is the event, under its id. -/
structure OfEvent (setup : Setup) (e : Outbox.Event) (stored : Stored) :
    Prop where
  msgID : stored.msgID = e.id
  subject : stored.subject = e.subject
  data : ∃ event, e.envelope = some event ∧ event.eventId = e.id ∧
    setup.bus.marshalEnvelope event = .ok stored.data

/-- The message is the dead letter of the event for a consumer. -/
structure OfLetter (setup : Setup) (n : Nat) (e : Outbox.Event)
    (stored : Stored) : Prop where
  msgID : stored.msgID =
    letterOf ⟨(setup.consumers n).processor.durable, e.id⟩
  subject : stored.subject =
    (setup.consumers n).processor.config.deadLetterSubject
  data : ∃ event envelope letter, e.envelope = some event ∧
    setup.bus.marshalEnvelope envelope = .ok stored.data ∧
    envelope.eventId = stored.msgID ∧
    envelope.eventType = deadLetterEventType ∧
    (setup.consumers n).processor.codec.marshalDeadLetter letter =
      .ok envelope.payload ∧
    letter.originalEvent = some event ∧ letter.originalSubject = e.subject ∧
    letter.consumer = (setup.consumers n).processor.durable

/-- What the abstract state knows of a message. -/
def Origin (setup : Setup) (spec : Spec W) (stored : Stored) : Prop :=
  ∃ e ∈ spec.committed, OfEvent setup e stored ∨
    ∃ n, ⟨(setup.consumers n).processor.durable, e.id⟩ ∈ spec.buried ∧
      OfLetter setup n e stored

theorem Origin.mono {setup : Setup} {spec spec' : Spec W} {stored : Stored}
    (h : Origin setup spec stored) (hle : spec.Le spec') :
    Origin setup spec' stored := by
  obtain ⟨e, he, hof | ⟨n, hn, hof⟩⟩ := h
  · exact ⟨e, hle.committed e he, .inl hof⟩
  · exact ⟨e, hle.committed e he, .inr ⟨n, hle.buried _ hn, hof⟩⟩

variable {setup : Setup}

/-- What a consumer decodes is the envelope that was published. -/
theorem Origin.decoded {spec : Spec W} {stored : Stored}
    (hcodec : setup.RoundTrips) (h : Origin setup spec stored) {n : Nat}
    {event : EventEnvelope}
    (hdec : (setup.consumers n).processor.codec.unmarshal stored.data =
      .ok event) :
    spec.due event.eventId = true ∧
      (event.eventType ≠ deadLetterEventType →
        ∃ e ∈ spec.committed, OfEvent setup e stored ∧
          e.envelope = some event ∧ event.eventId = e.id) := by
  obtain ⟨e, he, hof | ⟨k, hk, hof⟩⟩ := h
  · obtain ⟨event', henv, hid, hdata⟩ := hof.data
    rw [hcodec.consumers n event' _ hdata, Except.ok.injEq] at hdec
    subst hdec
    exact ⟨due_iff.mpr (.inl ⟨e, he, hid.symm⟩),
      fun _ => ⟨e, he, hof, henv, hid⟩⟩
  · obtain ⟨event', envelope, letter, -, hdata, hid, htype, -⟩ := hof.data
    rw [hcodec.consumers n envelope _ hdata, Except.ok.injEq] at hdec
    subst hdec
    refine ⟨due_iff.mpr (.inr ⟨_, hk, ?_⟩), fun hne => absurd htype hne⟩
    rw [hid, hof.msgID]

/-- Every message of the stream decodes. -/
theorem Origin.decodes {spec : Spec W} {stored : Stored}
    (hcodec : setup.RoundTrips) (h : Origin setup spec stored) (n : Nat) :
    ∃ event, (setup.consumers n).processor.codec.unmarshal stored.data =
      .ok event := by
  obtain ⟨e, -, hof | ⟨k, -, hof⟩⟩ := h
  · obtain ⟨event, -, -, hdata⟩ := hof.data
    exact ⟨event, hcodec.consumers n event _ hdata⟩
  · obtain ⟨-, envelope, -, -, hdata, -⟩ := hof.data
    exact ⟨envelope, hcodec.consumers n envelope _ hdata⟩

/-! ## The relation, component by component -/

/-- The outbox, and what it was told about its publications. -/
structure OutboxRel (setup : Setup) (outbox : Outbox.Sys) (stream : JetStream)
    (spec : Spec W) : Prop where
  inv : Outbox.Inv setup.outbox outbox
  committed : spec.committed = outbox.db.log
  sent : ∀ p ∈ outbox.publications, p.err = none →
    ∃ stored ∈ stream.log, stored.msgID = p.envelope.eventId

/-- The inbox and its domain tables. -/
structure InboxRel (inbox : Inbox.Sys W) (spec : Spec W) : Prop where
  base : Inbox.Base inbox
  log : (inbox.db.log.map fun e => (e.key, e.stmt)) =
    spec.applied.flatMap Applied.block
  remembered : ∀ k, spec.remembered.contains k = true ↔
    Inbox.Completed inbox.db k
  known : ∀ k, spec.remembered.contains k = true → spec.Did k
  due : ∀ c call, inbox.calls c = some call →
    spec.due call.key.eventID = true
  vouched : ∀ c call, inbox.calls c = some call → Inbox.Vouches call.pc →
    spec.Did call.key

/-- A delivery in progress is one of a message of the stream, and its call of
`Process` is there. -/
structure Handles (setup : Setup) (stream : JetStream) (inbox : Inbox.Sys W)
    (c : Nat) (h : Handling) : Prop where
  message : ∃ stored ∈ stream.log, h.message = stored.message
  decoded : (setup.consumers h.consumer).processor.codec.unmarshal
    h.message.data = .ok h.event
  call : ∃ call, inbox.calls c = some call ∧
    call.key = setup.key h.consumer h.event

/-- A delivery that is over. -/
structure Settled (setup : Setup) (stream : JetStream) (spec : Spec W)
    (r : Processed) : Prop where
  message : ∃ stored ∈ stream.log, r.message = stored.message
  consumer : ∃ n, r.processor = (setup.consumers n).processor
  acked : ∀ err, Effect.doubleAck err ∈ r.calls →
    ∃ event, r.processor.codec.unmarshal r.message.data = .ok event ∧
      spec.Did ⟨r.processor.durable, event.eventId⟩
  terminated : Terminated r.calls → r.IsLetter ∨
    ∃ stored ∈ stream.log, stored.msgID = r.processor.letterID r.message

structure Rel (setup : Setup) (s : Sys W) (spec : Spec W) : Prop where
  outbox : OutboxRel setup s.outbox s.bus.stream spec
  stream : ∀ stored ∈ s.bus.stream.log, Origin setup spec stored
  inbox : InboxRel s.inbox spec
  handling : ∀ c h, s.handling c = some h →
    Handles setup s.bus.stream s.inbox c h
  history : ∀ r ∈ s.bus.history, Settled setup s.bus.stream spec r

theorem OutboxRel.mono {outbox : Outbox.Sys} {stream stream' : JetStream}
    {spec : Spec W} (h : OutboxRel setup outbox stream spec)
    (hlog : stream.log ⊆ stream'.log) :
    OutboxRel setup outbox stream' spec := by
  refine ⟨h.inv, h.committed, fun p hp herr => ?_⟩
  obtain ⟨stored, hstored, hid⟩ := h.sent p hp herr
  exact ⟨stored, hlog hstored, hid⟩

theorem Handles.mono {stream stream' : JetStream} {inbox inbox' : Inbox.Sys W}
    {c : Nat} {h : Handling} (hh : Handles setup stream inbox c h)
    (hlog : stream.log ⊆ stream'.log)
    (hcalls : ∀ call, inbox.calls c = some call →
      ∃ call', inbox'.calls c = some call' ∧ call'.key = call.key) :
    Handles setup stream' inbox' c h := by
  obtain ⟨stored, hstored, hmessage⟩ := hh.message
  obtain ⟨call, hcall, hkey⟩ := hh.call
  obtain ⟨call', hcall', hkey'⟩ := hcalls call hcall
  exact ⟨⟨stored, hlog hstored, hmessage⟩, hh.decoded,
    call', hcall', hkey'.trans hkey⟩

theorem Settled.mono {stream stream' : JetStream} {spec spec' : Spec W}
    {r : Processed} (h : Settled setup stream spec r)
    (hlog : stream.log ⊆ stream'.log) (hle : spec.Le spec') :
    Settled setup stream' spec' r := by
  obtain ⟨stored, hstored, hmessage⟩ := h.message
  refine ⟨⟨stored, hlog hstored, hmessage⟩, h.consumer, fun err herr => ?_,
    fun hterm => ?_⟩
  · obtain ⟨event, hdec, hdid⟩ := h.acked err herr
    exact ⟨event, hdec, hle.did hdid⟩
  · refine (h.terminated hterm).imp_right ?_
    rintro ⟨stored, hstored, hid⟩
    exact ⟨stored, hlog hstored, hid⟩

/-! ## The steps of the outbox -/

/-- A step adds the events of a commit to the log, or none. -/
theorem outbox_log {s t : Outbox.Sys} {a : Outbox.Action}
    (h : setup.outbox.step s a = some t) :
    ∃ events, t.db.log = s.db.log ++ events := by
  rcases (Outbox.step_db h).rows_cases with ⟨-, hlog⟩ | ⟨u, hc⟩ |
    ⟨d, event, err, mark, rest, n, -, hu⟩ | ⟨id, before, n, hd⟩
  · exact ⟨[], by rw [hlog, List.append_nil]⟩
  · obtain ⟨tx, -, -, hlog, -, -⟩ := RowStore.Db.commit_eq hc
    exact ⟨tx.domain, hlog⟩
  · obtain ⟨-, ⟨-, hdb, -⟩ | ⟨r, -, -, -, hdb⟩⟩ :=
      RowStore.Db.statementNow_eq hu
    · exact ⟨[], by rw [hdb, List.append_nil]⟩
    · exact ⟨[], by rw [hdb, List.append_nil]⟩
  · obtain ⟨-, ⟨-, hdb, -⟩ | ⟨r, -, -, -, hdb⟩⟩ :=
      RowStore.Db.statementNow_eq hd
    · exact ⟨[], by rw [hdb, List.append_nil]⟩
    · exact ⟨[], by rw [hdb, List.append_nil]⟩

/-- Only a dispatcher's own publication is recorded. -/
theorem outbox_publications {s t : Outbox.Sys} {a : Outbox.Action}
    (h : setup.outbox.step s a = some t)
    (ha : ∀ d err, a ≠ .publish d err) : t.publications = s.publications := by
  cases a with
  | publish d err => exact absurd rfl (ha d err)
  | _ =>
      simp only [Outbox.Setup.step, Outbox.Setup.addTx,
        Outbox.Setup.claimSelect, Outbox.Setup.claimLease,
        Outbox.Setup.claimCommit.eq_def, Outbox.Sys.claimFail,
        Outbox.Setup.stamp, Outbox.Setup.mark, Outbox.Setup.markBegin,
        Outbox.Sys.markExec, Outbox.Setup.markCommit,
        Outbox.Setup.markFail] at h
      repeat' split at h
      all_goals first
        | (cases h; rfl)
        | cases h
        | (obtain ⟨r, -, rfl⟩ := Option.map_eq_some_iff.mp h; rfl)
        | (obtain ⟨db, -, h⟩ := Option.bind_eq_some_iff.mp h
           obtain ⟨r, -, rfl⟩ := Option.map_eq_some_iff.mp h; rfl)

/-- The abstract actions a step may cause. -/
def Causes (setup : Setup) (s : Sys W) (a : Action W) : SpecAction W → Prop
  | .commit _ => ∃ a', a = .outbox a'
  | .bury k => ∃ c h d now fault, a = .finish c d now fault ∧
      s.handling c = some h ∧ k = setup.key h.consumer h.event
  | .apply k writes => ∃ c call outcome, a = .inbox (.commit c outcome) ∧
      s.inbox.calls c = some call ∧ k = call.key ∧ writes = call.issued
  | .forget k => ∃ before, a = .inbox (.delete k before)

/-- A step of the pipeline is answered by the abstract machine. -/
def Answered (setup : Setup) (s : Sys W) (a : Action W) (t : Sys W)
    (spec : Spec W) : Prop :=
  ∃ bs spec', (∀ b ∈ bs, Causes setup s a b) ∧
    run Spec.step spec bs = some spec' ∧ Rel setup t spec'

theorem Rel.silent {s t : Sys W} {a : Action W} {spec : Spec W}
    (h : Rel setup t spec) : Answered setup s a t spec :=
  ⟨[], spec, by simp, rfl, h⟩

theorem run_one {spec spec' : Spec W} {b : SpecAction W}
    (h : spec.step b = some spec') : run Spec.step spec [b] = some spec' :=
  run_cons.mpr ⟨spec', h, rfl⟩

/-- The inbox does not see an event committed or buried. -/
theorem InboxRel.grow {inbox : Inbox.Sys W} {spec spec' : Spec W}
    (h : InboxRel inbox spec) (hle : spec.Le spec')
    (happlied : spec'.applied = spec.applied)
    (hremembered : spec'.remembered = spec.remembered) :
    InboxRel inbox spec' := by
  refine ⟨h.base, happlied ▸ h.log, hremembered ▸ h.remembered, ?_, ?_, ?_⟩
  · intro k hk
    exact hle.did (h.known k (hremembered ▸ hk))
  · intro c call hc
    exact hle.due (h.due c call hc)
  · intro c call hc hv
    exact hle.did (h.vouched c call hc hv)

theorem rel_outbox (hcodec : setup.RoundTrips) {s : Sys W} {spec : Spec W}
    (h : Rel setup s spec) {a : Outbox.Action} {outbox : Outbox.Sys}
    (ha : ∀ d err, a ≠ .publish d err)
    (hstep : setup.outbox.step s.outbox a = some outbox) :
    Answered setup s (.outbox a) { s with outbox } spec := by
  obtain ⟨events, hlog⟩ := outbox_log hstep
  have hspec : spec.step (.commit events) =
      some { spec with committed := spec.committed ++ events } := rfl
  have hle := step_le hspec
  refine ⟨[.commit events], _, ?_, run_one hspec, ?_, ?_, ?_, h.handling, ?_⟩
  · intro b hb
    rw [List.mem_singleton.mp hb]
    exact ⟨a, rfl⟩
  · refine ⟨Outbox.inv_step hcodec.outbox h.outbox.inv hstep, ?_, ?_⟩
    · show spec.committed ++ events = outbox.db.log
      rw [hlog, h.outbox.committed]
    · rw [outbox_publications hstep ha]
      exact h.outbox.sent
  · exact fun stored hstored => (h.stream stored hstored).mono hle
  · exact h.inbox.grow hle rfl rfl
  · exact fun r hr => (h.history r hr).mono (List.Subset.refl _) hle

/-- A dispatcher is answered what the bus was. -/
theorem rel_publish (hcodec : setup.RoundTrips) {s t : Sys W}
    {spec : Spec W} (h : Rel setup s spec) {d : Nat} {now : Time}
    {fault : PublishFault} (hstep : setup.publish s d now fault = some t) :
    Rel setup t spec := by
  unfold Setup.publish at hstep
  split at hstep
  · next event rest hphase =>
      obtain ⟨envelope, henv, hstep⟩ := Option.bind_eq_some_iff.mp hstep
      have hpub := publish_published setup.bus s.bus.stream now event.subject
        envelope fault
      have hlog := publish_log setup.bus s.bus.stream now event.subject
        envelope fault
      generalize setup.bus.publish s.bus.stream now event.subject envelope
        fault = answer at hstep hpub hlog
      obtain ⟨outbox, hout, rfl⟩ := Option.map_eq_some_iff.mp hstep
      have hinv := Outbox.inv_step hcodec.outbox h.outbox.inv hout
      -- The outbox keeps its table and records the publication.
      have hdb : outbox.db = s.outbox.db ∧ outbox.publications =
          s.outbox.publications ++
            [⟨event.subject, envelope, answer.2⟩] := by
        simp only [Outbox.Setup.step, Outbox.Sys.publish, hphase, henv,
          Option.map_some, Option.some.injEq] at hout
        rw [← hout]
        exact ⟨rfl, rfl⟩
      have hevent : event ∈ s.outbox.db.log := by
        have hok := h.outbox.inv.phases d
        rw [hphase] at hok
        exact hok event (List.mem_cons_self ..)
      refine ⟨⟨hinv, ?_, ?_⟩, ?_, h.inbox, ?_, ?_⟩
      · rw [hdb.1]
        exact h.outbox.committed
      · intro p hp herr
        rw [hdb.2, List.mem_append, List.mem_singleton] at hp
        rcases hp with hp | rfl
        · exact (h.outbox.mono hpub.kept).sent p hp herr
        · exact hpub.answered herr
      · intro stored hstored
        rcases hlog with hlog | ⟨new, hid, hsubject, hdata, hlog⟩
        · exact h.stream stored (hlog ▸ hstored)
        · have hstored : stored ∈ answer.1.log := hstored
          rw [hlog, List.mem_append, List.mem_singleton] at hstored
          rcases hstored with hold | rfl
          · exact h.stream stored hold
          · obtain ⟨env, henv', hvalid, -⟩ := h.outbox.inv.db.valid event hevent
            rw [henv, Option.some.injEq] at henv'
            subst henv'
            refine ⟨event, h.outbox.committed ▸ hevent, .inl ?_⟩
            exact ⟨hid.trans hvalid, hsubject, envelope, henv, hvalid, hdata⟩
      · intro c hd hc
        exact (h.handling c hd hc).mono hpub.kept fun call hcall =>
          ⟨call, hcall, rfl⟩
      · exact fun r hr => (h.history r hr).mono hpub.kept (.refl spec)
  · cases hstep

/-! ## The steps of the inbox -/

theorem stmts_append (log : List (Inbox.Effect W)) (c : Nat)
    (call : Inbox.Call W) :
    ((log ++ call.effects c).map fun e => (e.key, e.stmt)) =
      (log.map fun e => (e.key, e.stmt)) ++
        Applied.block ⟨call.key, call.issued⟩ := by
  rw [List.map_append, Inbox.Call.effects, List.map_map, Applied.block]
  rfl

/-- The abstract answer to a step of the inbox: it is among the three things a
step shows. -/
theorem inboxRel_step {inbox inbox' : Inbox.Sys W} {a : Inbox.Action W}
    {spec : Spec W} (h : InboxRel inbox spec)
    (hstep : Inbox.step inbox a = some inbox')
    (hnew : ∀ c key actor handlerNil, a = .process c key actor handlerNil →
      spec.due key.eventID = true) :
    ∃ bs spec', run Spec.step spec bs = some spec' ∧ spec.Le spec' ∧
      spec'.committed = spec.committed ∧ InboxRel inbox' spec' ∧
      ∀ b ∈ bs,
        (∃ c call outcome, a = .commit c outcome ∧
          inbox.calls c = some call ∧ b = .apply call.key call.issued) ∨
        ∃ k before, a = .delete k before ∧ b = .forget k := by
  have hbase := Inbox.base_step h.base hstep
  have hdue : ∀ {spec' : Spec W}, spec.Le spec' → ∀ c call,
      inbox'.calls c = some call → spec'.due call.key.eventID = true := by
    intro spec' hle c call hc
    cases Inbox.step_calls h.base hstep c with
    | same hsame => exact hle.due (h.due c call (hsame ▸ hc))
    | moved hs ht hkey =>
        rw [ht, Option.some.injEq] at hc
        subst hc
        rw [hkey]
        exact hle.due (h.due c _ hs)
    | made _ ht ha =>
        rw [ht, Option.some.injEq] at hc
        subst hc
        exact hle.due (hnew _ _ _ _ ha)
  have hvouched : ∀ {spec' : Spec W}, spec.Le spec' →
      (∀ k, Inbox.Completed inbox'.db k → spec'.Did k) → ∀ c call,
      inbox'.calls c = some call → Inbox.Vouches call.pc →
      spec'.Did call.key := by
    intro spec' hle hcompleted c call hc hv
    rcases Inbox.step_vouches h.base hstep hc hv with
      ⟨call₀, hc₀, hkey, hv₀⟩ | hdone
    · exact hkey ▸ hle.did (h.vouched c call₀ hc₀ hv₀)
    · exact hcompleted _ hdone
  cases Inbox.step_seen h.base hstep with
  | nothing hlog hrows =>
      have hremembered : ∀ k, spec.remembered.contains k = true ↔
          Inbox.Completed inbox'.db k :=
        fun k => (h.remembered k).trans (hrows k).symm
      refine ⟨[], spec, rfl, .refl spec, rfl,
        ⟨hbase, hlog ▸ h.log, hremembered, h.known, hdue (.refl spec),
          hvouched (.refl spec) ?_⟩, by simp⟩
      exact fun k hk => h.known k ((hremembered k).mpr hk)
  | @applied c call outcome ha hc hfresh hdone hothers hlog =>
      have hnot : spec.remembered.contains call.key = false := by
        rw [Bool.eq_false_iff]
        exact fun hk => hfresh ((h.remembered _).mp hk)
      have hspec : spec.step (.apply call.key call.issued) =
          some { spec with
            applied := spec.applied ++ [⟨call.key, call.issued⟩]
            remembered := call.key :: spec.remembered } := by
        rw [Spec.step, h.due c call hc, hnot]
        rfl
      have hle := step_le hspec
      have hremembered : ∀ k,
          (call.key :: spec.remembered).contains k = true ↔
            Inbox.Completed inbox'.db k := by
        intro k
        rw [List.contains_cons, Bool.or_eq_true, beq_iff_eq]
        by_cases hk : k = call.key
        · subst hk
          exact iff_of_true (.inl rfl) hdone
        · rw [or_iff_right hk, hothers k hk]
          exact h.remembered k
      have hknown : ∀ k, (call.key :: spec.remembered).contains k = true →
          ({ spec with
            applied := spec.applied ++ [⟨call.key, call.issued⟩]
            remembered := call.key :: spec.remembered } : Spec W).Did k := by
        intro k hk
        rw [List.contains_cons, Bool.or_eq_true, beq_iff_eq] at hk
        rcases hk with rfl | hk
        · exact ⟨⟨call.key, call.issued⟩, by simp, rfl⟩
        · exact hle.did (h.known k hk)
      refine ⟨[.apply call.key call.issued], _, run_one hspec, hle, rfl,
        ⟨hbase, ?_, hremembered, hknown, hdue hle, hvouched hle ?_⟩, ?_⟩
      · rw [hlog, stmts_append, h.log, List.flatMap_append]
        simp
      · exact fun k hk => hknown k ((hremembered k).mpr hk)
      · intro b hb
        exact .inl ⟨c, call, outcome, ha, hc, List.mem_singleton.mp hb⟩
  | @forgotten k before ha hwas hgone hothers hlog =>
      have hspec : spec.step (.forget k) =
          some { spec with
            remembered := spec.remembered.filter fun k' => k' != k } := by
        rw [Spec.step, (h.remembered k).mpr hwas]
        rfl
      have hle := step_le hspec
      have hremembered : ∀ k',
          (spec.remembered.filter fun k₁ => k₁ != k).contains k' = true ↔
            Inbox.Completed inbox'.db k' := by
        intro k'
        rw [List.contains_iff_mem, List.mem_filter, ← List.contains_iff_mem,
          h.remembered, bne_iff_ne]
        by_cases hk : k' = k
        · subst hk
          exact iff_of_false (fun hboth => hboth.2 rfl) hgone
        · rw [hothers k' hk]
          exact and_iff_left hk
      have hknown : ∀ k',
          (spec.remembered.filter fun k₁ => k₁ != k).contains k' = true →
            spec.Did k' := by
        intro k' hk'
        rw [List.contains_iff_mem, List.mem_filter] at hk'
        exact h.known k' (List.contains_iff_mem.mpr hk'.1)
      refine ⟨[.forget k], _, run_one hspec, hle, rfl,
        ⟨hbase, hlog ▸ h.log, hremembered, hknown, hdue hle,
          hvouched hle ?_⟩, ?_⟩
      · exact fun k' hk' => hknown k' ((hremembered k').mpr hk')
      · intro b hb
        exact .inr ⟨k, before, ha, List.mem_singleton.mp hb⟩

/-- The rest of the pipeline, when only the inbox and what is applied have
moved on. -/
theorem Rel.moved {s : Sys W} {spec spec' : Spec W} {inbox : Inbox.Sys W}
    {a : Inbox.Action W} (h : Rel setup s spec)
    (hstep : Inbox.step s.inbox a = some inbox) (hle : spec.Le spec')
    (hcommitted : spec'.committed = spec.committed)
    (hinbox : InboxRel inbox spec') : Rel setup { s with inbox } spec' := by
  refine ⟨⟨h.outbox.inv, hcommitted.trans h.outbox.committed, h.outbox.sent⟩,
    fun stored hstored => (h.stream stored hstored).mono hle, hinbox, ?_, ?_⟩
  · intro c handling hc
    exact (h.handling c handling hc).mono (List.Subset.refl _)
      fun call hcall => Inbox.step_calls_kept h.inbox.base hstep hcall
  · exact fun r hr => (h.history r hr).mono (List.Subset.refl _) hle

theorem rel_inbox {s : Sys W} {spec : Spec W} (h : Rel setup s spec)
    {a : Inbox.Action W} {inbox : Inbox.Sys W}
    (ha : ∀ c key actor handlerNil, a ≠ .process c key actor handlerNil)
    (hstep : Inbox.step s.inbox a = some inbox) :
    Answered setup s (.inbox a) { s with inbox } spec := by
  obtain ⟨bs, spec', hrun, hle, hcommitted, hinbox, hcauses⟩ :=
    inboxRel_step h.inbox hstep fun c key actor handlerNil heq =>
      absurd heq (ha c key actor handlerNil)
  refine ⟨bs, spec', ?_, hrun, h.moved hstep hle hcommitted hinbox⟩
  intro b hb
  rcases hcauses b hb with ⟨c, call, outcome, rfl, hc, rfl⟩ |
    ⟨k, before, rfl, rfl⟩
  · exact ⟨c, call, outcome, rfl, hc, rfl, rfl⟩
  · exact ⟨before, rfl⟩

/-! ## Deliveries -/

theorem rel_deliver (hcodec : setup.RoundTrips) {s t : Sys W} {spec : Spec W}
    (h : Rel setup s spec) {c i n : Nat}
    (hstep : setup.deliver s c i n = some t) :
    Answered setup s (.deliver c i n) t spec := by
  obtain ⟨stored, hstored, hstep⟩ := Option.bind_eq_some_iff.mp hstep
  have hmem := List.mem_of_getElem? hstored
  split at hstep
  · cases hstep
  · next event hdec =>
      obtain ⟨inbox, hprocess, rfl⟩ := Option.map_eq_some_iff.mp hstep
      obtain ⟨bs, spec', hrun, hle, hcommitted, hinbox, hcauses⟩ :=
        inboxRel_step h.inbox hprocess fun c' key actor handlerNil heq => by
          cases heq
          exact ((h.stream stored hmem).decoded hcodec hdec).1
      have hmoved := h.moved hprocess hle hcommitted hinbox
      refine ⟨bs, spec', ?_, hrun, hmoved.outbox, hmoved.stream, hinbox, ?_,
        hmoved.history⟩
      · intro b hb
        rcases hcauses b hb with ⟨_, _, _, heq, _⟩ | ⟨_, _, heq, _⟩
        · cases heq
        · cases heq
      · intro c' handling hc'
        by_cases hcc : c' = c
        · subst hcc
          have hc' : Function.update s.handling c'
              (some ⟨n, stored.message, event⟩) c' = some handling := hc'
          rw [Function.update_self, Option.some.injEq] at hc'
          subst hc'
          exact ⟨⟨stored, hmem, rfl⟩, hdec, Inbox.process_calls hprocess⟩
        · have hc' : Function.update s.handling c
              (some ⟨n, stored.message, event⟩) c' = some handling := hc'
          rw [Function.update_of_ne hcc] at hc'
          exact hmoved.handling c' handling hc'

/-- The letter of a delivery as the stream holds it. -/
theorem ofLetter_of_publishes {n : Nat} {e : Outbox.Event}
    {event envelope : EventEnvelope} {stored new : Stored}
    {calls : List Effect} {answer : Option GoErr}
    (hof : OfEvent setup e stored) (henv : e.envelope = some event)
    (hid : event.eventId = e.id)
    (hdec : (setup.consumers n).processor.codec.unmarshal stored.data =
      .ok event)
    (hpub : Publishes (setup.consumers n).processor stored.message calls
      envelope answer)
    (hnew : new.msgID = envelope.eventId)
    (hsubject : new.subject =
      (setup.consumers n).processor.config.deadLetterSubject)
    (hdata : setup.bus.marshalEnvelope envelope = .ok new.data) :
    OfLetter setup n e new := by
  have hdec' : (setup.consumers n).processor.codec.unmarshal
      stored.message.data = .ok event := hdec
  obtain ⟨htype, letter, hpayload, horiginal, hconsumer, hcarries⟩ :=
    hpub.letter
  rw [hdec'] at hcarries
  refine ⟨?_, hsubject, event, envelope, letter, henv, hdata, hnew.symm, htype,
    hpayload, hcarries, horiginal.trans hof.subject, hconsumer⟩
  rw [hnew, hpub.eventId, letterID_eq, Processor.letterName, hdec']
  show _ ++ event.eventId = _
  rw [hid]
  rfl

/-- The end of a delivery: it publishes nothing, or the letter of a committed
event. -/
theorem rel_dispatch (hcodec : setup.RoundTrips) {s : Sys W} {spec : Spec W}
    (h : Rel setup s spec) {n : Nat} {stored : Stored} {d : Delivery}
    {now : Time} {fault : PublishFault} {bus : Consumers}
    (hstored : stored ∈ s.bus.stream.log)
    (hdispatch : setup.bus.dispatch s.bus ⟨(setup.consumers n).processor,
      stored.message, d, now, fault⟩ = some bus)
    (hack : ∀ count event, d.handler = none → d.metadata = .ok count →
      (setup.consumers n).processor.codec.unmarshal stored.data = .ok event →
      spec.Did (setup.key n event)) :
    ∃ bs spec', run Spec.step spec bs = some spec' ∧
      Rel setup { s with bus } spec' ∧
      ∀ b ∈ bs, ∃ count event, d.metadata = .ok count ∧
        (setup.consumers n).processor.codec.unmarshal stored.data =
          .ok event ∧ b = .bury (setup.key n event) := by
  obtain ⟨event, hdec⟩ := (h.stream stored hstored).decodes hcodec n
  have hacked : ∀ err, Effect.doubleAck err ∈
      (setup.consumers n).processor.process stored.message d →
      spec.Did (setup.key n event) := by
    intro err herr
    obtain ⟨hnil, count, -, hmeta, -⟩ := process_acked herr
    exact hack count event hnil hmeta hdec
  obtain ⟨hhistory, hcase⟩ := dispatch_cases hdispatch
  -- The records, once the letter of the new one is known to be on the stream.
  have hrecords : ∀ {spec' : Spec W}, spec.Le spec' →
      s.bus.stream.log ⊆ bus.stream.log →
      (Terminated ((setup.consumers n).processor.process stored.message d) →
        Processed.IsLetter ⟨(setup.consumers n).processor, stored.message,
          (setup.consumers n).processor.process stored.message d⟩ ∨
        ∃ letter ∈ bus.stream.log, letter.msgID =
          (setup.consumers n).processor.letterID stored.message) →
      ∀ r ∈ bus.history, Settled setup bus.stream spec' r := by
    intro spec' hle hkept hterm r hr
    rw [hhistory, List.mem_append, List.mem_singleton] at hr
    rcases hr with hr | rfl
    · exact (h.history r hr).mono hkept hle
    · exact ⟨⟨stored, hkept hstored, rfl⟩, ⟨n, rfl⟩, fun err herr =>
        ⟨event, hdec, hle.did (hacked err herr)⟩, hterm⟩
  rcases hcase with ⟨hsilent, hstream⟩ | ⟨envelope, answer, hpub, hon⟩
  · have hsame : s.bus.stream.log ⊆ bus.stream.log := by
      rw [hstream]
      exact List.Subset.refl _
    refine ⟨[], spec, rfl, ⟨h.outbox.mono hsame, ?_, h.inbox, ?_, ?_⟩, by simp⟩
    · intro new hnew
      rw [hstream] at hnew
      exact h.stream new hnew
    · intro c handling hc
      exact (h.handling c handling hc).mono hsame fun call hcall =>
        ⟨call, hcall, rfl⟩
    · exact hrecords (.refl spec) hsame fun hterm =>
        .inl (hsilent.terminated hterm)
  · have hdec' : (setup.consumers n).processor.codec.unmarshal
        stored.message.data = .ok event := hdec
    obtain ⟨htype, count, hmeta⟩ := process_letter hdec' hpub.published
    obtain ⟨e, he, hof, henv, hid⟩ :=
      ((h.stream stored hstored).decoded hcodec hdec).2 htype
    have hspec : spec.step (.bury (setup.key n event)) =
        some { spec with buried := spec.buried ++ [setup.key n event] } := by
      rw [Spec.step, if_pos]
      rw [List.any_eq_true]
      exact ⟨e, he, beq_iff_eq.mpr hid.symm⟩
    have hle := step_le hspec
    refine ⟨[.bury (setup.key n event)], _, run_one hspec,
      ⟨?_, ?_, h.inbox.grow hle rfl rfl, ?_, ?_⟩, ?_⟩
    · exact ⟨h.outbox.inv, h.outbox.committed, (h.outbox.mono hon.kept).sent⟩
    · intro new hnew
      rcases dispatch_log hdispatch hpub.published with
        hlog | ⟨letter, hletter, hsubject, hdata, hlog⟩
      · exact (h.stream new (hlog ▸ hnew)).mono hle
      · have hnew : new ∈ bus.stream.log := hnew
        rw [hlog, List.mem_append, List.mem_singleton] at hnew
        rcases hnew with hold | rfl
        · exact (h.stream new hold).mono hle
        · refine ⟨e, he, .inr ⟨n, ?_, ofLetter_of_publishes hof henv hid hdec
            hpub hletter hsubject hdata⟩⟩
          rw [← hid]
          exact List.mem_append_right _ (List.mem_singleton.mpr rfl)
    · intro c handling hc
      exact (h.handling c handling hc).mono hon.kept fun call hcall =>
        ⟨call, hcall, rfl⟩
    · refine hrecords hle hon.kept fun hterm => ?_
      obtain ⟨letter, hletter, hlid⟩ := hon.answered (hpub.terminated hterm)
      exact .inr ⟨letter, hletter, hlid.trans hpub.eventId⟩
    · intro b hb
      exact ⟨count, event, hmeta, hdec, List.mem_singleton.mp hb⟩

theorem Rel.released {s : Sys W} {spec : Spec W} (h : Rel setup s spec)
    (c : Nat) :
    Rel setup { s with handling := Function.update s.handling c none }
      spec := by
  refine ⟨h.outbox, h.stream, h.inbox, ?_, h.history⟩
  intro c' handling hc'
  have hc' : Function.update s.handling c none c' = some handling := hc'
  by_cases hcc : c' = c
  · subst hcc
    rw [Function.update_self] at hc'
    cases hc'
  · rw [Function.update_of_ne hcc] at hc'
    exact h.handling c' handling hc'

theorem rel_finish (hcodec : setup.RoundTrips) {s t : Sys W} {spec : Spec W}
    (h : Rel setup s spec) {c : Nat} {d : Delivery} {now : Time}
    {fault : PublishFault} (hstep : setup.finish s c d now fault = some t) :
    Answered setup s (.finish c d now fault) t spec := by
  unfold Setup.finish at hstep
  split at hstep
  · next handling call count hc hcall hmeta =>
      split at hstep
      · next result err hpc =>
          obtain ⟨bus, hdispatch, rfl⟩ := Option.map_eq_some_iff.mp hstep
          obtain ⟨⟨stored, hstored, hmessage⟩, hdec, call', hcall', hkey⟩ :=
            h.handling c handling hc
          rw [hcall, Option.some.injEq] at hcall'
          subst hcall'
          rw [hmessage] at hdispatch hdec
          obtain ⟨bs, spec', hrun, hrel, hcauses⟩ :=
            rel_dispatch hcodec h hstored hdispatch (by
              intro count' event hnil _ hdec'
              have hnil : err = none := hnil
              rw [show stored.message.data = stored.data from rfl, hdec',
                Except.ok.injEq] at hdec
              have hvouched := h.inbox.vouched c call hcall
                (.inr ⟨result, by rw [hpc, hnil]⟩)
              rw [hdec, ← hkey]
              exact hvouched)
          refine ⟨bs, spec', ?_, hrun, hrel.released c⟩
          intro b hb
          obtain ⟨count', event, -, hdec', rfl⟩ := hcauses b hb
          rw [show stored.message.data = stored.data from rfl, hdec',
            Except.ok.injEq] at hdec
          exact ⟨c, handling, d, now, fault, rfl, hc, by rw [hdec]⟩
      · cases hstep
  · cases hstep

/-- A delivery that does not come to the handler ends without a letter: every
message of the stream decodes. -/
theorem rel_refuse (hcodec : setup.RoundTrips) {s t : Sys W} {spec : Spec W}
    (h : Rel setup s spec) {i n : Nat} {d : Delivery} {now : Time}
    {fault : PublishFault} (hstep : setup.refuse s i n d now fault = some t) :
    Answered setup s (.refuse i n d now fault) t spec := by
  obtain ⟨stored, hget, hstep⟩ := Option.bind_eq_some_iff.mp hstep
  have hstored := List.mem_of_getElem? hget
  obtain ⟨event, hdec⟩ := (h.stream stored hstored).decodes hcodec n
  dsimp only at hstep
  split at hstep
  · next e _ hmeta =>
      obtain ⟨bus, hdispatch, rfl⟩ := Option.map_eq_some_iff.mp hstep
      obtain ⟨bs, spec', hrun, hrel, hcauses⟩ :=
        rel_dispatch hcodec h hstored hdispatch (by
          intro count event' _ hok
          rw [hmeta] at hok
          cases hok)
      refine ⟨bs, spec', ?_, hrun, hrel⟩
      intro b hb
      obtain ⟨count, event', hok, -⟩ := hcauses b hb
      rw [hmeta] at hok
      cases hok
  · next hbad =>
      rw [hdec] at hbad
      cases hbad
  · cases hstep

/-! ## The refinement -/

theorem rel_init : Rel setup ({} : Sys W) {} where
  outbox := ⟨Outbox.inv_init, rfl, by simp⟩
  stream := by simp
  inbox :=
    { base := Inbox.base_init
      log := rfl
      remembered := by
        intro k
        refine iff_of_false (by simp) ?_
        rintro ⟨r, hr, -⟩
        simp [Inbox.init, RowStore.Db.empty, RowStore.Db.lookup] at hr
      known := by simp
      due := by simp [Inbox.init]
      vouched := by simp [Inbox.init] }
  handling := by simp
  history := by simp

theorem rel_step (hcodec : setup.RoundTrips) (s : Sys W) (a : Action W)
    (t : Sys W) (spec : Spec W) (h : Rel setup s spec)
    (hstep : setup.step s a = some t) : Answered setup s a t spec := by
  unfold Setup.step at hstep
  split at hstep
  · cases hstep
  · next a' hnot =>
      obtain ⟨outbox, hout, rfl⟩ := Option.map_eq_some_iff.mp hstep
      exact rel_outbox hcodec h (fun d err heq => hnot d err heq) hout
  · exact (rel_publish hcodec h hstep).silent
  · exact rel_deliver hcodec h hstep
  · exact rel_refuse hcodec h hstep
  · cases hstep
  · next a' hnot =>
      obtain ⟨inbox, hin, rfl⟩ := Option.map_eq_some_iff.mp hstep
      exact rel_inbox h
        (fun c key actor handlerNil heq => hnot c key actor handlerNil heq) hin
  · exact rel_finish hcodec h hstep

/-- Every run of the pipeline is followed by the abstract machine. -/
theorem rel_run (hcodec : setup.RoundTrips) {as : List (Action W)} {s : Sys W}
    (hrun : run setup.step {} as = some s) :
    ∃ bss spec, List.Forall₂ (fun p bs => ∀ b ∈ bs, Causes setup p.1 p.2 b)
        (steps setup.step {} as) bss ∧
      run Spec.step {} bss.flatten = some spec ∧ Rel setup s spec :=
  run_simulates (rel_step hcodec) rel_init hrun

/-- What the abstract machine forgets, retention deleted. -/
theorem not_forgotten {as : List (Action W)} {s : Sys W}
    {bss : List (List (SpecAction W))} {k : Inbox.Key}
    (hcauses : List.Forall₂ (fun p bs => ∀ b ∈ bs, Causes setup p.1 p.2 b)
      (steps setup.step s as) bss)
    (hkept : ∀ before, Action.inbox (.delete k before) ∉ as) :
    SpecAction.forget k ∉ bss.flatten := by
  intro hmem
  obtain ⟨bs, hbs, hforget⟩ := List.mem_flatten.mp hmem
  obtain ⟨p, hp, hall⟩ := answers_mem hcauses hbs
  obtain ⟨before, ha⟩ := hall _ hforget
  exact hkept before (ha ▸ action_mem hp)

/-- Every run of the pipeline does what a run of the abstract machine does:
each step is answered by actions it causes, the committed events are the same,
the domain tables hold the writes of the applied events and nothing else, in
the order they were applied, and an event is remembered exactly while its row
is completed. An event whose row retention leaves alone is applied once if the
row is completed, and not at all if it is not. -/
theorem refines_exactly_once (hcodec : setup.RoundTrips)
    {as : List (Action W)} {s : Sys W}
    (hrun : run setup.step {} as = some s) :
    ∃ bss spec, List.Forall₂ (fun p bs => ∀ b ∈ bs, Causes setup p.1 p.2 b)
        (steps setup.step {} as) bss ∧
      run Spec.step {} bss.flatten = some spec ∧
      spec.committed = s.outbox.db.log ∧
      (s.inbox.db.log.map fun e => (e.key, e.stmt)) =
        spec.applied.flatMap Applied.block ∧
      (∀ k, spec.remembered.contains k = true ↔
        Inbox.Completed s.inbox.db k) ∧
      ∀ k, (∀ before, Action.inbox (.delete k before) ∉ as) →
        (Inbox.Completed s.inbox.db k → spec.times k = 1) ∧
        (¬ Inbox.Completed s.inbox.db k → spec.times k = 0) := by
  obtain ⟨bss, spec, hcauses, hspec, hrel⟩ := rel_run hcodec hrun
  refine ⟨bss, spec, hcauses, hspec, hrel.outbox.committed, hrel.inbox.log,
    hrel.inbox.remembered, fun k hkept => ?_⟩
  have honce := once_run (not_forgotten hcauses hkept) hspec
  constructor
  · intro hdone
    exact honce.once ((hrel.inbox.remembered k).mpr hdone)
  · intro hnot
    refine honce.never ((Bool.not_eq_true _).mp fun hrem => ?_)
    exact hnot ((hrel.inbox.remembered k).mp hrem)

/-! ## A run

The dispatcher is told that its publication failed although the stream has
the event, publishes it again, and the consumer is given the event twice. -/

def orderConsumer : Consumer where
  processor :=
    { config := Config.defaults {}
      durable := "orders_projection"
      codec :=
        { unmarshal := Outbox.orderStore.unmarshal
          marshalDeadLetter := fun letter => .ok letter.wire
          sha256 := fun _ => Vector.replicate 32 0
          isPrint := fun c => c.toNat ≥ 32 } }
  actor := "orders"

def orderPipeline : Setup where
  outbox := Outbox.orderSetup
  bus :=
    { duplicateWindow := 0
      marshalEnvelope := Outbox.orderStore.marshal
      isPrint := fun c => c.toNat ≥ 32 }
  consumers := fun _ => orderConsumer

theorem orderPipeline_roundTrips : orderPipeline.RoundTrips :=
  ⟨Outbox.orderStore_roundTrips, fun _ => Outbox.orderStore_roundTrips⟩

/-- A call of `Process` whose handler makes one write and succeeds. -/
def processOne (c : Nat) : List (Action String) :=
  [.inbox (.exec c 5 none), .inbox (.exec c 5 none), .inbox (.exec c 5 none),
    .inbox (.exec c 5 none), .inbox (.exec c 5 none),
    .inbox (.write c "insert order-1"), .inbox (.handled c none),
    .inbox (.exec c 6 none), .inbox (.exec c 6 none),
    .inbox (.commit c .done)]

/-- One that finds its event done. -/
def processDuplicate (c : Nat) : List (Action String) :=
  [.inbox (.exec c 7 none), .inbox (.exec c 7 none), .inbox (.exec c 7 none),
    .inbox (.commit c .done)]

def orderRun : List (Action String) :=
  ((Outbox.addAll 0 (Outbox.orderEvent "order-1") ++
      Outbox.claimOne 1 "order-event").map .outbox) ++
    [.publish 1 0 (.ackLost (.new (bytes "nats: timeout"))),
      .outbox (.stamp 1), .outbox (.mark 1 none),
      .outbox (.finish 1), .outbox (.clock (5 * second))] ++
    ((Outbox.claimOne 1 "order-event").map .outbox) ++
    [.publish 1 1 .none, .outbox (.stamp 1), .outbox (.mark 1 none),
      .deliver 0 0 0, .deliver 1 1 0] ++
    processOne 0 ++ [.finish 0 { metadata := .ok 1 } 0 .none] ++
    processDuplicate 1 ++ [.finish 1 { metadata := .ok 1 } 0 .none]

/-- Two copies on the stream, two deliveries that are acknowledged, one
application. -/
theorem refines_exactly_once_order :
    ∃ s, run orderPipeline.step {} orderRun = some s ∧
      s.bus.stream.log.length = 2 ∧ s.bus.history.length = 2 ∧
      ∃ bs spec, run Spec.step {} bs = some spec ∧
        (s.inbox.db.log.map fun e => (e.key, e.stmt)) =
          spec.applied.flatMap Applied.block ∧
        spec.times ⟨"orders_projection", "order-event"⟩ = 1 := by
  have hend : (run orderPipeline.step {} orderRun).map (fun s =>
      (s.bus.stream.log.length, s.bus.history.length,
        (s.inbox.db.lookup ⟨"orders_projection", "order-event"⟩).map
          Inbox.Row.status)) =
      some (2, 2, some .completed) := by decide
  obtain ⟨s, hrun, hs⟩ := Option.map_eq_some_iff.mp hend
  simp only [Prod.mk.injEq] at hs
  obtain ⟨r, hr, hst⟩ := Option.map_eq_some_iff.mp hs.2.2
  obtain ⟨bss, spec, -, hspec, -, hlog, -, honce⟩ :=
    refines_exactly_once orderPipeline_roundTrips hrun
  refine ⟨s, hrun, hs.1, hs.2.1, bss.flatten, spec, hspec, hlog, ?_⟩
  refine (honce _ fun before hmem => ?_).1 ⟨r, hr, hst⟩
  simp [orderRun, processOne, processDuplicate] at hmem

end PlatformGo.Pipeline
