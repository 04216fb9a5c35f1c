import PlatformGo.Proofs.InterceptorReturn
import PlatformGo.Proofs.LeaseStop

/-!
# What a call leaves behind

A call that has its request answers in one of three places: where `StartLease`
refuses, where `stop` returns an error, and after the outcome was stored. At
the first the record is gone already, since what makes `StartLease` refuse
keeps a record from being made. At the second nothing is done to the record.
The third stores the outcome with a call on the manager that ends the record,
or, for a response that is no protobuf message or does not encode, with none.

So with Redis working and the record still the call's, the call leaves its
record processing exactly where it does not come to that call on the manager.
-/

namespace PlatformGo.Idempotency

open Lts

/-! ## The calls that end a record -/

/-- The record is completed, failed or absent. -/
def Redis.Settled (r : Redis) (k : String) : Prop :=
  ∀ e, r.entries k = some e →
    e.hash.state = some .completed ∨ e.hash.state = some .failed

theorem Redis.Settled.not_held {r : Redis} {k owner : String}
    (h : r.Settled k) : r.held k owner = false := by
  rw [Bool.eq_false_iff, ne_eq, held_iff]
  rintro ⟨e, hk, hstate, -⟩
  rcases h e hk with hs | hs <;>
    · rw [hstate] at hs
      cases hs

section Manager

variable {R : Type} {m : Manager R} {key owner : String} {r : Redis}

theorem settled_after_none {k : String} {lapsed : Bool} :
    (r.after k none lapsed).Settled k := by
  intro e he
  rw [after_entries_self] at he
  cases he

theorem settled_after_finish {k : String} {lapsed : Bool} {e : Entry}
    {outcome : Outcome} {deadline : Option Time} :
    (r.after k (some { e with hash := e.hash.finish outcome, deadline })
      lapsed).Settled k := by
  intro e' he
  rw [after_entries_self] at he
  cases he
  cases outcome with
  | response b => exact .inl rfl
  | failure b => exact .inr rfl

theorem abort_settles (havailable : m.available = true) (hkey : key ≠ "")
    (howner : owner ≠ "") (hheld : r.held (m.storageKey key) owner = true) :
    (m.abort key owner .none r).1.Settled (m.storageKey key) := by
  have hok : (m.abort key owner .none r).2 = .ok := by
    have hguard : ¬ ((!m.available || key == "" || owner == "") = true) := by
      simp [havailable, hkey, howner]
    rw [Manager.abort, if_neg hguard]
    simp only [Fault.run, abortScript, if_pos hheld]
    rfl
  obtain ⟨e, -, -, hafter⟩ := abort_ok hok
  rw [hafter]
  exact settled_after_none

theorem finish_settles {context : String} {outcome : Outcome} {ttl : Time}
    (hclient : m.client = true)
    (hheld : r.held (m.storageKey key) owner = true) :
    (m.finish context key owner outcome ttl .none r).1.Settled
      (m.storageKey key) := by
  have hok : (m.finish context key owner outcome ttl .none r).2 = .ok := by
    obtain ⟨e, hk, -⟩ := held_iff.mp hheld
    rw [Manager.finish, if_neg (by simp [hclient])]
    simp only [Fault.run, finishScript, hk, if_pos hheld]
    rfl
  obtain ⟨e, -, -, ⟨deadline, hafter⟩ | hafter⟩ := finish_ok hok
  · rw [hafter]
    exact settled_after_finish
  · rw [hafter]
    exact settled_after_none

/-- `encoding/json` encodes every payload and every failure. -/
structure Json.Total (json : Json R) : Prop where
  marshal : ∀ response, ∃ b, json.marshal response = .ok b
  marshalFailure : ∀ failure, ∃ b, json.marshalFailure failure = .ok b

theorem available_client (h : m.available = true) : m.client = true := by
  rw [Manager.available, Bool.and_eq_true] at h
  exact h.2

theorem complete_settles {response : R} (hjson : m.json.Total)
    (havailable : m.available = true) (hkey : key ≠ "") (howner : owner ≠ "")
    (hheld : r.held (m.storageKey key) owner = true) :
    (m.complete key owner response .none r).1.Settled (m.storageKey key) := by
  obtain ⟨b, hb⟩ := hjson.marshal response
  simp only [Manager.complete, hb]
  split
  · -- too large: the record is given back
    have habort := abort_settles havailable hkey howner hheld
    cases hresult : m.abort key owner .none r with
    | mk r' result =>
        rw [hresult] at habort
        cases result <;> exact habort
  · exact finish_settles (available_client havailable) hheld

theorem fail_settles {failure : Failure} (hjson : m.json.Total)
    (havailable : m.available = true)
    (hheld : r.held (m.storageKey key) owner = true) :
    (m.fail key owner failure .none r).1.Settled (m.storageKey key) := by
  obtain ⟨b, hb⟩ := hjson.marshalFailure failure
  simp only [Manager.fail, hb]
  exact finish_settles (available_client havailable) hheld

theorem finishes_settles {c : Call R} (hc : c.finishes = true)
    (hjson : m.json.Total) (havailable : m.available = true)
    (hkey : c.key ≠ "") (howner : c.owner ≠ "")
    (hheld : r.held (m.storageKey c.key) c.owner = true) :
    (m.perform .none r c).1.Settled (m.storageKey c.key) := by
  cases c with
  | begin | renew => cases hc
  | complete key owner response =>
      exact complete_settles hjson havailable hkey howner hheld
  | fail key owner failure => exact fail_settles hjson havailable hheld
  | abort key owner => exact abort_settles havailable hkey howner hheld

/-! ## Where there is a record -/

/-- Redis drops an entry that is to expire at once. -/
theorem pexpire_entries {k : String} {ms : Int} {e : Entry}
    (h : (r.pexpire k ms).entries k = some e) : 0 < ms := by
  refine Int.not_le.mp fun hms => ?_
  unfold Redis.pexpire at h
  cases hk : r.entries k with
  | none =>
      rw [hk] at h
      simp only [hk] at h
      cases h
  | some x =>
      rw [hk] at h
      simp only [if_pos hms, Redis.expire, hk] at h
      rw [set_entries_self] at h
      cases h

theorem pos_of_milliseconds {d : Time} (h : 0 < milliseconds d) : 0 < d := by
  refine Int.not_le.mp fun hd => ?_
  have hneg : (-d).tdiv 1000000 = -milliseconds d := Int.neg_tdiv ..
  rw [Int.tdiv_eq_ediv_of_nonneg (by omega)] at hneg
  omega

theorem begin_serves {fingerprint : String} {fault : Fault} {e : Entry}
    (hnone : r.entries (m.storageKey key) = none)
    (h : (m.begin key fingerprint owner fault r).1.entries
      (m.storageKey key) = some e) : m.Serves := by
  unfold Manager.begin at h
  split at h
  · rw [hnone] at h
    cases h
  · next havailable =>
      refine ⟨by simpa using havailable, ?_⟩
      have hscript : (beginScript (m.storageKey key) fingerprint
          (milliseconds m.cfg.processingTTL) owner r).1.entries
          (m.storageKey key) = some e := by
        cases fault with
        | notExecuted err =>
            rw [show r.entries (m.storageKey key) = some e from h] at hnone
            cases hnone
        | replyLost err => exact h
        | none =>
            simp only [Fault.run] at h
            split at h <;> exact h
      rw [beginScript, hnone] at hscript
      exact pexpire_entries hscript

theorem step_serves {s t : Store R} {a : Action R}
    (hs : ∀ k e, s.redis.entries k = some e → m.Serves)
    (h : step m s a = some t) :
    ∀ k e, t.redis.entries k = some e → m.Serves := by
  intro k e he
  rcases step_entry h k with ⟨hsame, -⟩ | ⟨c, fault, lapsed, rfl, rfl, hx, -⟩ |
    ⟨hnone, -⟩
  · exact hs k e (hsame ▸ he)
  · cases hbefore : s.redis.entries (m.storageKey c.key) with
    | some e' => exact hs _ e' hbefore
    | none =>
        rw [hbefore, he] at hx
        cases hx with
        | created deadline hc =>
            subst hc
            obtain ⟨-, hredis, -⟩ := step_call h
            rw [hredis] at he
            exact begin_serves hbefore he
  · rw [hnone] at he
    cases he

end Manager

section Interceptor

variable {Req Resp : Type} {srv : Server Req Resp} {s t : Sys Req Resp}

theorem serves_run {as : List (Event Req Resp)}
    (hrun : run srv.step {} as = some s) :
    ∀ k e, s.store.redis.entries k = some e → srv.manager.Serves := by
  refine run_inv_of (I := fun s : Sys Req Resp => ∀ k e,
    s.store.redis.entries k = some e → srv.manager.Serves) ?_ ?_ hrun
  · intro s ev t hs h
    cases step_moved (P := fun _ => True) (fun _ _ _ => trivial) h with
    | arrived => exact hs
    | call i hi hlocal =>
        rcases local_store hlocal with rfl | ⟨call, fault, hstep, -⟩
        · exact hs
        · exact step_serves hs hstep
    | store ha hstep => exact step_serves hs hstep
  · intro k e he
    cases he

/-! ## What a call leaves -/

variable {i : Nat} {c c' : CallState Req Resp} {ev : Event Req Resp}

/-- The response is a protobuf message and encodes. -/
def Server.Encodes (srv : Server Req Resp) (response : Resp) : Prop :=
  ∃ payload, srv.codec.marshalResponse response = some (.ok payload)

/-- The lease has not failed, and what the handler returned is an error or a
response that encodes. -/
structure CallState.Storable (srv : Server Req Resp)
    (c : CallState Req Resp) : Prop where
  leased : ∀ e, c.phase ≠ .handled (.ended (some e))
  encodes : ∀ response, c.outcome = some (.ok response) →
    srv.Encodes response

theorem Phase.Active.not_returned {phase : Phase Resp} (h : phase.Active)
    (result : Except Status Resp) : phase ≠ .returned result := by
  rintro rfl
  exact h

theorem persistence_none {outcome result : Except Status Resp}
    (h : srv.persistence c outcome = (none, result)) :
    ∃ response, outcome = .ok response ∧ ¬ srv.Encodes response := by
  cases outcome with
  | error status =>
      simp only [Server.persistence] at h
      split at h <;> cases h
  | ok response =>
      refine ⟨response, rfl, ?_⟩
      rintro ⟨payload, hpayload⟩
      simp only [Server.persistence, hpayload] at h
      cases h

theorem persistence_some {outcome result : Except Status Resp}
    {call : Call Bytes} (h : srv.persistence c outcome = (some call, result)) :
    call.finishes = true ∧ call.key = c.req.key ∧ call.owner = c.owner ∧
      ∀ response, outcome = .ok response → srv.Encodes response := by
  cases outcome with
  | error status =>
      simp only [Server.persistence] at h
      split at h <;>
        · cases h
          exact ⟨rfl, rfl, rfl, by intro response hc; cases hc⟩
  | ok response =>
      simp only [Server.persistence] at h
      split at h
      · cases h
      · cases h
      · next payload hpayload =>
          cases h
          refine ⟨rfl, rfl, rfl, ?_⟩
          rintro _ ⟨⟩
          exact ⟨payload, hpayload⟩

/-- A call that has its request is leased. -/
theorem startsLease_of_held {as : List (Event Req Resp)}
    (hrun : run srv.step {} as = some s) (hi : s.calls i = some c)
    (hactive : c.phase.Active) (htoken : c.owner ≠ "")
    (hheld : s.store.redis.held (srv.manager.storageKey c.req.key) c.owner =
      true) : srv.startsLease c = true := by
  have hguards := (sysInv_run hrun).guarded i c hi hactive.guarded
  simp only [Server.guards, Bool.and_eq_true, bne_iff_ne] at hguards
  obtain ⟨e, hk, -⟩ := held_iff.mp hheld
  obtain ⟨havailable, hms⟩ := serves_run hrun _ e hk
  exact startsLease_iff.mpr
    ⟨havailable, hguards.1.1, htoken, pos_of_milliseconds hms⟩

/-- With Redis working and the record still the call's, a call that has its
request returns with the record completed, failed or absent if and only if
its lease has not failed and the handler's outcome can be stored; otherwise
the record stays processing under the call's token. -/
theorem settled_iff_storable (hjson : srv.manager.json.Total)
    {as : List (Event Req Resp)} (hrun : run srv.step {} as = some s)
    (hi : s.calls i = some c) (hactive : c.phase.Active)
    (htoken : c.owner ≠ "")
    (hheld : s.store.redis.held (srv.manager.storageKey c.req.key) c.owner =
      true)
    (hstep : srv.step s ev = some t)
    (hworks : ∀ fault, ev = .persist i fault → fault = .none)
    (hi' : t.calls i = some c') {result : Except Status Resp}
    (hret : c'.phase = .returned result) :
    (t.store.redis.Settled (srv.manager.storageKey c.req.key) ↔
        c.Storable srv) ∧
      (¬ c.Storable srv → t.store.redis.held
        (srv.manager.storageKey c.req.key) c.owner = true) := by
  have hstarts := startsLease_of_held hrun hi hactive htoken hheld
  -- Where nothing is done to the record it stays as it is.
  have hstays : ¬ c.Storable srv →
      (s.store.redis.Settled (srv.manager.storageKey c.req.key) ↔
        c.Storable srv) ∧ (¬ c.Storable srv → s.store.redis.held
          (srv.manager.storageKey c.req.key) c.owner = true) := by
    intro hnot
    refine ⟨iff_of_false (fun hsettled => ?_) hnot, fun _ => hheld⟩
    rw [hsettled.not_held] at hheld
    cases hheld
  cases returns_of_step hi hactive.not_returned hstep hi' hret with
  | decided hphase | past hphase =>
      rw [hphase] at hactive
      exact hactive.elim
  | refused hphase hno =>
      rw [hstarts] at hno
      cases hno
  | lost hphase hstore =>
      rw [hstore]
      exact hstays fun hstorable => hstorable.leased _ hphase
  | unencoded hphase hout hnone hstore =>
      obtain ⟨response, rfl, hencodes⟩ := persistence_none hnone
      rw [hstore]
      exact hstays fun hstorable =>
        hencodes (hstorable.encodes response hout)
  | stored hphase hout hcall hstore =>
      obtain ⟨hfinishes, hkey, howner, hencodes⟩ := persistence_some hcall
      obtain ⟨havailable, hkey', -, -⟩ := startsLease_iff.mp hstarts
      have hstorable : c.Storable srv := by
        refine ⟨fun e he => ?_, fun response hresponse => ?_⟩
        · rw [hphase] at he
          cases he
        · rw [hout, Option.some.injEq] at hresponse
          exact hencodes response hresponse
      refine ⟨iff_of_true ?_ hstorable, fun hnot => absurd hstorable hnot⟩
      obtain ⟨-, hredis, -⟩ := step_call hstore
      rw [hworks _ rfl] at hredis
      rw [← hkey, hredis]
      exact finishes_settles hfinishes hjson havailable (hkey ▸ hkey')
        (howner ▸ htoken) (by rw [hkey, howner]; exact hheld)

end Interceptor

/-- `orderServer` with two more responses: the empty one stands for a value
that is no message, the other for one with text that is not UTF-8. -/
def strictServer : Server Bytes Bytes :=
  { orderServer with
    codec :=
      { orderServer.codec with
        marshalResponse := fun b =>
          if b = [] then none
          else if b = [0xff] then
            some (.error (.new (bytes "string field contains invalid UTF-8")))
          else some (.ok b) } }

/-- A call of `createOrder` up to the end of its lease. -/
def handledOrder (outcome : Except Status Bytes) : List (Event Bytes Bytes) :=
  [.arrive 0 createOrder, .begin 0 "owner-0" .none, .lease 0,
    .renew 0 .none, .handle 0 (some outcome), .stop 0]

theorem strictServer_total : strictServer.manager.json.Total := by
  refine ⟨fun payload => ?_, fun failure => ⟨_, rfl⟩⟩
  show ∃ b, (if payload = bytes "1" then Except.ok _
    else if payload = bytes "2" then .ok _ else .ok _) = .ok b
  split
  · exact ⟨_, rfl⟩
  · split <;> exact ⟨_, rfl⟩

theorem settled_iff_storable_order : ∃ s t,
    run strictServer.step {} (handledOrder (.ok (bytes "1"))) = some s ∧
    strictServer.step s (.persist 0 .none) = some t ∧
    t.store.redis.Settled "idempotency:orders:order-42" := by
  obtain ⟨s, t, c, c', hrun, hstep, hi, hphase, hout, hkey, htoken, hheld,
      hi', hret⟩ : ∃ s t c c',
      run strictServer.step {} (handledOrder (.ok (bytes "1"))) = some s ∧
      strictServer.step s (.persist 0 .none) = some t ∧
      s.calls 0 = some c ∧ c.phase = .persisting ∧
      c.outcome = some (.ok (bytes "1")) ∧ c.req.key = "order-42" ∧
      c.owner = "owner-0" ∧
      s.store.redis.held "idempotency:orders:order-42" "owner-0" = true ∧
      t.calls 0 = some c' ∧ c'.phase = .returned (.ok (bytes "1")) :=
    ⟨_, _, _, _, rfl, rfl, rfl, rfl, rfl, rfl, rfl, rfl, rfl, rfl⟩
  refine ⟨s, t, hrun, hstep, ?_⟩
  have hiff := settled_iff_storable strictServer_total hrun hi
    (by rw [hphase]; trivial) (by rw [htoken]; decide)
    (by rw [hkey, htoken]; exact hheld) hstep (by rintro fault ⟨⟩; rfl)
    hi' hret
  rw [hkey] at hiff
  refine hiff.1.mpr ⟨fun e he => ?_, fun response hresponse => ?_⟩
  · rw [hphase] at he
    cases he
  · rw [hout] at hresponse
    cases hresponse
    exact ⟨_, rfl⟩

/-- A call whose handler returned the response answers with an error, and its
record stays processing under its token. -/
def LeftProcessing (response : Bytes) : Prop :=
  ∃ s t c status,
    run strictServer.step {} (handledOrder (.ok response)) = some s ∧
    strictServer.step s (.persist 0 .none) = some t ∧
    t.calls 0 = some c ∧ c.phase = .returned (.error status) ∧
    t.store.redis.held "idempotency:orders:order-42" "owner-0" = true

theorem unencoded_left_processing :
    LeftProcessing [] ∧ LeftProcessing [0xff] :=
  ⟨⟨_, _, _, _, rfl, rfl, rfl, rfl, rfl⟩, ⟨_, _, _, _, rfl, rfl, rfl, rfl, rfl⟩⟩

end PlatformGo.Idempotency
