import PlatformGo.Proofs.IdemFence
import PlatformGo.Ref.Interceptor

/-!
# The interceptor runs a request once

A call that was told the request is its own, and has not stored an outcome
yet, has a record under its token; so has, for good, a call whose handler
succeeded, since nothing it does afterwards removes the record. Two such calls
for one key would own one record, and a record has one creator. That is the
whole argument; what it needs is that a token is used by the call it was drawn
for and by no other, which is an invariant of all runs, and that the record is
not lost to expiry, which is the condition on the run.
-/

namespace PlatformGo.Idempotency

variable {Req Resp : Type} {srv : Server Req Resp} {P : Resp → Prop}

/-! ## What a step is -/

/-- A step of one call, with the store before and after. A response a handler
returns meets `P`. -/
inductive Local (srv : Server Req Resp) (P : Resp → Prop) (c : CallState Req Resp)
    (store : Store Bytes) : CallState Req Resp → Store Bytes → Prop
  | begun {fingerprint owner : String} {fault : Fault}
      {store' : Store Bytes} (hphase : c.phase = .beginning fingerprint)
      (hstep : step srv.manager store
        (.call (.begin c.req.key fingerprint owner) fault) = some store') :
      Local srv P c store (srv.decided c
        (srv.manager.begin c.req.key fingerprint owner fault store.redis).2)
        store'
  | leased (hphase : c.phase = .acquired) :
      Local srv P c store (srv.lease c) store
  | renewed {fault : Fault} {phase : Phase Resp} {store' : Store Bytes}
      {result : Result} (hphase : c.phase.renewed result = some phase)
      (hstep : step srv.manager store
        (.call (.renew c.req.key c.owner) fault) = some store') :
      Local srv P c store { c with phase } store'
  | cancelled {phase : Phase Resp}
      (hphase : c.phase.endLease none = some phase) :
      Local srv P c store { c with phase } store
  | handled {result : Option (Except Status Resp)}
      {c' : CallState Req Resp} (h : c.handle result = some c')
      (hP : ∀ response, result = some (.ok response) → P response) :
      Local srv P c store c' store
  | stopped {c' : CallState Req Resp} (h : c.stop = some c') :
      Local srv P c store c' store
  | refused {outcome result : Except Status Resp}
      (hphase : c.phase = .persisting) (hout : c.outcome = some outcome)
      (hnone : srv.persistence c outcome = (none, result)) :
      Local srv P c store { c with phase := .returned result } store
  | persisted {outcome result : Except Status Resp} {call : Call Bytes}
      {fault : Fault} {store' : Store Bytes}
      (hphase : c.phase = .persisting) (hout : c.outcome = some outcome)
      (hcall : srv.persistence c outcome = (some call, result))
      (hstep : step srv.manager store (.call call fault) = some store') :
      Local srv P c store { c with phase := .returned result } store'

/-- A step of the system: a call arrives, a call moves, or the store moves by
itself. -/
inductive Moved (srv : Server Req Resp) (P : Resp → Prop)
    (s : Sys Req Resp) : Sys Req Resp → Prop
  | arrived (i : Nat) (req : Request Req) (hnew : s.calls i = none) :
      Moved srv P s (s.set i { req, phase := srv.arrive req })
  | call (i : Nat) {c c' : CallState Req Resp} {store : Store Bytes}
      (hi : s.calls i = some c) (h : Local srv P c s.store c' store) :
      Moved srv P s ({ s with store }.set i c')
  | store {a : Action Bytes} {store : Store Bytes}
      (ha : ∀ c fault, a ≠ .call c fault)
      (h : step srv.manager s.store a = some store) :
      Moved srv P s { s with store }

theorem onStore_eq {s t : Sys Req Resp} {i : Nat} {call : Call Bytes}
    {fault : Fault} {next : Result → Option (CallState Req Resp)}
    (h : srv.onStore s i call fault next = some t) :
    ∃ store c', step srv.manager s.store (.call call fault) = some store ∧
      next (srv.manager.perform fault s.store.redis call).2 = some c' ∧
      t = { s with store }.set i c' := by
  unfold Server.onStore at h
  split at h
  · next store c' hstep hnext =>
      cases h
      exact ⟨store, c', hstep, hnext, rfl⟩
  · cases h

theorem persist_moved {s t : Sys Req Resp} {i : Nat}
    {c : CallState Req Resp} {fault : Fault} (hi : s.calls i = some c)
    (h : srv.persist s i c fault = some t) : Moved srv P s t := by
  unfold Server.persist at h
  split at h
  · next outcome hphase hout =>
      split at h
      · next result hnone =>
          cases h
          exact .call i hi (.refused hphase hout hnone)
      · next call result hcall =>
          obtain ⟨store, c', hstep, hnext, rfl⟩ := onStore_eq h
          cases hnext
          exact .call i hi (.persisted hphase hout hcall hstep)
  · cases h

theorem step_moved {s t : Sys Req Resp} {ev : Event Req Resp}
    (hP : ∀ i response, ev = .handle i (some (.ok response)) → P response)
    (h : srv.step s ev = some t) : Moved srv P s t := by
  cases ev with
  | arrive i req =>
      simp only [Server.step] at h
      split at h
      · cases h
      · next hnew =>
          cases h
          exact .arrived i req hnew
  | begin i owner fault =>
      obtain ⟨c, hi, h⟩ := Option.bind_eq_some_iff.mp h
      split at h
      · next fingerprint hphase =>
          obtain ⟨store, c', hstep, hnext, rfl⟩ := onStore_eq h
          cases hnext
          exact .call i hi (.begun hphase hstep)
      · cases h
  | lease i =>
      obtain ⟨c, hi, h⟩ := Option.bind_eq_some_iff.mp h
      split at h
      · next hphase =>
          cases h
          exact .call i hi (.leased hphase)
      · cases h
  | renew i fault =>
      obtain ⟨c, hi, h⟩ := Option.bind_eq_some_iff.mp h
      obtain ⟨store, c', hstep, hnext, rfl⟩ := onStore_eq h
      obtain ⟨phase, hphase, rfl⟩ := Option.map_eq_some_iff.mp hnext
      exact .call i hi (.renewed hphase hstep)
  | cancelled i =>
      obtain ⟨c, hi, h⟩ := Option.bind_eq_some_iff.mp h
      obtain ⟨phase, hphase, rfl⟩ := Option.map_eq_some_iff.mp h
      exact .call i hi (.cancelled hphase)
  | handle i result =>
      obtain ⟨c, hi, h⟩ := Option.bind_eq_some_iff.mp h
      obtain ⟨c', hc, rfl⟩ := Option.map_eq_some_iff.mp h
      refine .call i hi (.handled hc ?_)
      rintro response rfl
      exact hP i response rfl
  | stop i =>
      obtain ⟨c, hi, h⟩ := Option.bind_eq_some_iff.mp h
      obtain ⟨c', hc, rfl⟩ := Option.map_eq_some_iff.mp h
      exact .call i hi (.stopped hc)
  | persist i fault =>
      obtain ⟨c, hi, h⟩ := Option.bind_eq_some_iff.mp h
      exact persist_moved hi h
  | expire k | tick d =>
      rw [Server.step, Option.map_eq_some_iff] at h
      obtain ⟨store, hstep, rfl⟩ := h
      exact .store (by intro c fault hc; cases hc) hstep

/-! ## Tokens and calls -/

/-- The phases in which a call has the request and may still act on it. -/
def Phase.Active : Phase Resp → Prop
  | .acquired | .handling _ | .handled _ | .persisting => True
  | _ => False

/-- The phases in which a call may still run a script with its token. -/
def Phase.Armed : Phase Resp → Prop
  | .panicked _ => True
  | phase => phase.Active

theorem Phase.Active.armed {phase : Phase Resp} (h : phase.Active) :
    phase.Armed := by
  cases phase with
  | panicked => trivial
  | _ => exact h

/-- A call that was given a token. -/
def CallState.Owner (srv : Server Req Resp) (c : CallState Req Resp) : Prop :=
  srv.guards c.req = true ∧ (c.phase.Armed ∨ c.outcome.isSome = true)

/-- A call that keeps others from its request. -/
def CallState.Claims (srv : Server Req Resp) (c : CallState Req Resp) :
    Prop :=
  srv.guards c.req = true ∧
    (c.phase.Active ∨ ∃ response, c.outcome = some (.ok response))

theorem CallState.Claims.owner {c : CallState Req Resp} (h : c.Claims srv) :
    c.Owner srv := by
  refine ⟨h.1, ?_⟩
  rcases h.2 with hactive | ⟨response, hout⟩
  · exact .inl hactive.armed
  · right
    rw [hout]
    rfl

theorem decide_state {m : Manager Bytes} {owner : String}
    {value : State × Bytes × Bytes} {d : Decision}
    (h : m.decide owner value = .ok d) :
    d.state = value.1 ∧ (value.1 = .acquired → d.owner = owner) := by
  unfold Manager.decide at h
  simp only [] at h
  split at h
  · cases h
    exact ⟨rfl, fun heq => if_pos heq⟩
  · split at h
    · cases h
    · cases h
      exact ⟨rfl, fun heq => if_pos heq⟩

/-- No stored state is `acquired`. -/
theorem beginScript_acquired {k fingerprint owner : String} {ttl : Int}
    {r : Redis} (hok : ∀ e, r.entries k = some e → e.Ok)
    (h : (beginScript k fingerprint ttl owner r).2.1 = .acquired) :
    (beginScript k fingerprint ttl owner r).1 =
      (r.set k (some (.fresh fingerprint owner none))).pexpire k ttl := by
  unfold beginScript at h ⊢
  cases hk : r.entries k with
  | none => rfl
  | some e =>
      rw [hk] at h
      simp only [] at h
      split at h
      · cases h
      · rcases hok e hk with he | he | he <;>
          · rw [he.state] at h
            cases h

/-- A `Begin` that is granted made a record under its token, which may have
expired at once. -/
theorem begin_acquired {m : Manager Bytes} {key fingerprint owner : String}
    {fault : Fault} {r : Redis} {d : Decision}
    (hok : ∀ k e, r.entries k = some e → e.Ok)
    (h : (m.begin key fingerprint owner fault r).2 = .decision d)
    (hd : d.state = .acquired) :
    d.owner = owner ∧
      ((∃ deadline, (m.begin key fingerprint owner fault r).1 =
          r.after (m.storageKey key)
            (some (.fresh fingerprint owner deadline)) false) ∨
        (m.begin key fingerprint owner fault r).1 =
          r.after (m.storageKey key) none true) := by
  unfold Manager.begin at h ⊢
  split at h
  · cases h
  · next hav =>
      rw [if_neg hav]
      cases fault with
      | notExecuted e => cases h
      | replyLost e => cases h
      | none =>
          simp only [Fault.run] at h ⊢
          split at h
          · cases h
          · next d' hdec =>
              cases h
              obtain ⟨hstate, howner⟩ := decide_state hdec
              rw [hd] at hstate
              refine ⟨howner hstate.symm, ?_⟩
              rw [beginScript_acquired (hok _) hstate.symm]
              exact pexpire_set_eq r (m.storageKey key)
                (.fresh fingerprint owner none) _

/-! ## What a step does to a call -/

/-- The phases of a call that goes through the manager, before it is over. -/
def Phase.Guarded : Phase Resp → Prop
  | .beginning _ => True
  | phase => phase.Active

theorem Phase.Active.guarded {phase : Phase Resp} (h : phase.Active) :
    phase.Guarded := by
  cases phase with
  | beginning => trivial
  | _ => exact h

/-- A step that leaves a call as far as it was. -/
structure Phase.Like (phase phase' : Phase Resp) : Prop where
  active : phase'.Active ↔ phase.Active
  armed : phase'.Armed ↔ phase.Armed
  guarded : phase'.Guarded ↔ phase.Guarded
  inside : phase' ≠ .through

theorem endLease_like {phase phase' : Phase Resp} {err : Option GoErr}
    (h : phase.endLease err = some phase') : phase.Like phase' := by
  unfold Phase.endLease at h
  split at h <;> cases h <;>
    exact ⟨Iff.rfl, Iff.rfl, Iff.rfl, by intro hc; cases hc⟩

theorem renewed_like {phase phase' : Phase Resp} {result : Result}
    (h : phase.renewed result = some phase') : phase.Like phase' := by
  unfold Phase.renewed at h
  split at h
  · -- a renewal is possible where the lease could be ended
    obtain ⟨ended, hended, rfl⟩ := Option.map_eq_some_iff.mp h
    unfold Phase.endLease at hended
    split at hended <;> cases hended <;>
      exact ⟨Iff.rfl, Iff.rfl, Iff.rfl, by intro hc; cases hc⟩
  · exact endLease_like h
  · cases h

theorem handle_eq {c c' : CallState Req Resp}
    {result : Option (Except Status Resp)} (h : c.handle result = some c') :
    ((∃ lease, c.phase = .handling lease) ∨ c.phase = .through) ∧
      c'.req = c.req ∧ c'.owner = c.owner ∧ c'.phase ≠ .through ∧
      (c'.phase.Guarded → c.phase ≠ .through) ∧
      ∀ response, c'.outcome = some (.ok response) →
        c.outcome = some (.ok response) ∨
          result = some (.ok response) := by
  cases result with
  | none =>
      simp only [CallState.handle] at h
      split at h
      · next lease hphase =>
          cases h
          exact ⟨Or.inl ⟨lease, hphase⟩, rfl, rfl, nofun,
            False.elim, fun _ hout => Or.inl hout⟩
      · next hphase =>
          cases h
          exact ⟨Or.inr hphase, rfl, rfl, nofun, False.elim,
            fun _ hout => Or.inl hout⟩
      · cases h
  | some r =>
      simp only [CallState.handle] at h
      split at h
      · next lease hphase =>
          cases h
          exact ⟨Or.inl ⟨lease, hphase⟩, rfl, rfl, nofun,
            (by intro _ hc; rw [hphase] at hc; cases hc),
            fun _ hout => Or.inr hout⟩
      · next hphase =>
          cases h
          exact ⟨Or.inr hphase, rfl, rfl, nofun, False.elim,
            fun _ hout => Or.inr hout⟩
      · cases h

theorem stop_eq {c c' : CallState Req Resp} (h : c.stop = some c') :
    (∃ lease, c.phase = .handled lease) ∧
      (c' = { c with phase := .persisting } ∨
        ∃ result, c' = { c with phase := .returned result }) := by
  unfold CallState.stop at h
  split at h
  · next hphase =>
      cases h
      exact ⟨⟨_, hphase⟩, Or.inl rfl⟩
  · next hphase =>
      cases h
      exact ⟨⟨_, hphase⟩, Or.inl rfl⟩
  · next e hphase =>
      split at h <;> cases h <;> exact ⟨⟨_, hphase⟩, Or.inr ⟨_, rfl⟩⟩
  · cases h

theorem lease_eq (srv : Server Req Resp) (c : CallState Req Resp) :
    srv.lease c = { c with phase := .handling .running } ∨
      ∃ result, srv.lease c = { c with phase := .returned result } := by
  unfold Server.lease
  split
  · exact Or.inl rfl
  · exact Or.inr ⟨_, rfl⟩

theorem decided_eq (srv : Server Req Resp) (c : CallState Req Resp)
    (result : Result) :
    (∃ d, result = .decision d ∧ d.state = .acquired ∧
        srv.decided c result =
          { c with phase := .acquired, owner := d.owner }) ∨
      ∃ r, srv.decided c result = { c with phase := .returned r } := by
  unfold Server.decided
  split
  · next d =>
      split
      · next hd => exact Or.inl ⟨d, rfl, hd, rfl⟩
      all_goals exact Or.inr ⟨_, rfl⟩
  · exact Or.inr ⟨_, rfl⟩

/-- The step with which a call is told that the request is its own. -/
def Acquires (srv : Server Req Resp) (c c' : CallState Req Resp)
    (store store' : Store Bytes) : Prop :=
  ∃ fingerprint owner fault d,
    c.phase = .beginning fingerprint ∧
    step srv.manager store
      (.call (.begin c.req.key fingerprint owner) fault) = some store' ∧
    (srv.manager.begin c.req.key fingerprint owner fault store.redis).2 =
      .decision d ∧
    d.state = .acquired ∧ c'.owner = d.owner ∧ c'.outcome = c.outcome

/-- What a step keeps of a call's standing. -/
structure Stays (srv : Server Req Resp) (P : Resp → Prop)
    (c c' : CallState Req Resp) : Prop where
  owner : c'.owner = c.owner
  owning : c'.Owner srv → c.Owner srv
  claims : c'.Claims srv → c.Claims srv
  outcome : ∀ response, c'.outcome = some (.ok response) →
    c.outcome = some (.ok response) ∨ P response

theorem Phase.Like.stays {c : CallState Req Resp} {phase : Phase Resp}
    (h : c.phase.Like phase) : Stays srv P c { c with phase } where
  owner := rfl
  owning := by
    rintro ⟨hguards, harmed | hout⟩
    · exact ⟨hguards, Or.inl (h.armed.mp harmed)⟩
    · exact ⟨hguards, Or.inr hout⟩
  claims := by
    rintro ⟨hguards, hactive | hout⟩
    · exact ⟨hguards, Or.inl (h.active.mp hactive)⟩
    · exact ⟨hguards, Or.inr hout⟩
  outcome := fun _ hout => Or.inl hout

/-- A call that returns keeps only what its handler did. -/
theorem stays_returned {c : CallState Req Resp}
    {result : Except Status Resp} :
    Stays srv P c { c with phase := .returned result } where
  owner := rfl
  owning := by
    rintro ⟨hguards, harmed | hout⟩
    · exact False.elim harmed
    · exact ⟨hguards, Or.inr hout⟩
  claims := by
    rintro ⟨hguards, hactive | hout⟩
    · exact False.elim hactive
    · exact ⟨hguards, Or.inr hout⟩
  outcome := fun _ hout => Or.inl hout

/-- A call in an active phase has all there is to lose. -/
theorem stays_of_active {c c' : CallState Req Resp} (hreq : c'.req = c.req)
    (howner : c'.owner = c.owner) (hactive : c.phase.Active)
    (hout : ∀ response, c'.outcome = some (.ok response) →
      c.outcome = some (.ok response) ∨ P response) :
    Stays srv P c c' where
  owner := howner
  owning := fun h => ⟨hreq ▸ h.1, Or.inl hactive.armed⟩
  claims := fun h => ⟨hreq ▸ h.1, Or.inl hactive⟩
  outcome := hout

theorem local_stays {c c' : CallState Req Resp} {store store' : Store Bytes}
    (hthrough : c.phase = .through → srv.guards c.req = false)
    (h : Local srv P c store c' store') :
    c'.req = c.req ∧ c'.phase ≠ .through ∧
      (c'.phase.Guarded → c.phase.Guarded) ∧
      (Acquires srv c c' store store' ∨ Stays srv P c c') := by
  cases h with
  | begun hphase hstep =>
      rcases decided_eq srv c _ with ⟨d, hres, hd, heq⟩ | ⟨r, heq⟩
      · rw [heq]
        refine ⟨rfl, nofun, ?_, Or.inl ?_⟩
        · intro _
          rw [hphase]
          trivial
        · exact ⟨_, _, _, d, hphase, hstep, hres, hd, rfl, rfl⟩
      · rw [heq]
        exact ⟨rfl, nofun, False.elim,
          Or.inr stays_returned⟩
  | leased hphase =>
      have hactive : c.phase.Active := by rw [hphase]; trivial
      rcases lease_eq srv c with heq | ⟨r, heq⟩
      · rw [heq]
        exact ⟨rfl, nofun, fun _ => hactive.guarded, Or.inr
          (stays_of_active rfl rfl hactive fun _ => Or.inl)⟩
      · rw [heq]
        exact ⟨rfl, nofun, False.elim,
          Or.inr stays_returned⟩
  | renewed hphase hstep =>
      have hlike := renewed_like hphase
      exact ⟨rfl, hlike.inside, hlike.guarded.mp, Or.inr hlike.stays⟩
  | cancelled hphase =>
      have hlike := endLease_like hphase
      exact ⟨rfl, hlike.inside, hlike.guarded.mp, Or.inr hlike.stays⟩
  | handled hc hP =>
      obtain ⟨hbefore, hreq, howner, hinside, hguard, hout⟩ := handle_eq hc
      have hout' : ∀ response, c'.outcome = some (.ok response) →
          c.outcome = some (.ok response) ∨ P response :=
        fun response h => (hout response h).imp_right (hP response)
      rcases hbefore with ⟨lease, hphase⟩ | hphase
      · have hactive : c.phase.Active := by rw [hphase]; trivial
        exact ⟨hreq, hinside, fun _ => hactive.guarded, Or.inr
          (stays_of_active hreq howner hactive hout')⟩
      · -- a call outside of the manager has no standing to keep
        have hfree : ¬ srv.guards c'.req = true := by
          rw [hreq, hthrough hphase]
          exact Bool.false_ne_true
        exact ⟨hreq, hinside, fun hg => absurd hphase (hguard hg),
          Or.inr ⟨howner, fun h => absurd h.1 hfree,
            fun h => absurd h.1 hfree, hout'⟩⟩
  | stopped hc =>
      obtain ⟨⟨lease, hphase⟩, heq⟩ := stop_eq hc
      have hactive : c.phase.Active := by rw [hphase]; trivial
      rcases heq with rfl | ⟨result, rfl⟩
      · exact ⟨rfl, nofun, fun _ => hactive.guarded, Or.inr
          (stays_of_active rfl rfl hactive fun _ => Or.inl)⟩
      · exact ⟨rfl, nofun, False.elim,
          Or.inr stays_returned⟩
  | refused | persisted =>
      exact ⟨rfl, nofun, False.elim, Or.inr stays_returned⟩

/-! ## What a step does to the store -/

/-- The encoding of a response stays within the manager's bound. -/
def Server.Fits (srv : Server Req Resp) (response : Resp) : Prop :=
  ∀ payload b, srv.codec.marshalResponse response = some (.ok payload) →
    srv.manager.json.marshal payload = .ok b →
    (b.length : Int) ≤ srv.manager.cfg.maxResponseBytes

/-- A call that removes a record is the persisting of an outcome, and not of a
response that fits. -/
theorem persistence_releases {c : CallState Req Resp}
    {outcome result : Except Status Resp} {call : Call Bytes}
    (h : srv.persistence c outcome = (some call, result))
    (hrel : call.Releases srv.manager) :
    call.owner = c.owner ∧
      ∀ response, outcome = .ok response → ¬ srv.Fits response := by
  cases outcome with
  | error status =>
      simp only [Server.persistence] at h
      split at h
      · cases h
        exact ⟨rfl, by intro response hc; cases hc⟩
      · cases h
        exact False.elim hrel
  | ok response =>
      simp only [Server.persistence] at h
      split at h
      · cases h
      · cases h
      · next payload hpayload =>
          cases h
          refine ⟨rfl, ?_⟩
          rintro _ ⟨⟩ hfits
          obtain ⟨b, hb, hlong⟩ := hrel
          have hle := hfits payload b hpayload hb
          omega

theorem local_store {c c' : CallState Req Resp} {store store' : Store Bytes}
    (h : Local srv P c store c' store') :
    store' = store ∨ ∃ call fault,
      step srv.manager store (.call call fault) = some store' ∧
      (call.Releases srv.manager → c.phase = .persisting ∧
        call.owner = c.owner ∧
        (∃ result, c' = { c with phase := .returned result }) ∧
        ∀ response, c.outcome = some (.ok response) →
          ¬ srv.Fits response) := by
  cases h with
  | begun hphase hstep => exact Or.inr ⟨_, _, hstep, False.elim⟩
  | leased hphase => exact Or.inl rfl
  | renewed hphase hstep => exact Or.inr ⟨_, _, hstep, False.elim⟩
  | cancelled hphase => exact Or.inl rfl
  | handled hc hP => exact Or.inl rfl
  | stopped hc => exact Or.inl rfl
  | refused hphase hout hnone => exact Or.inl rfl
  | persisted hphase hout hcall hstep =>
      refine Or.inr ⟨_, _, hstep, ?_⟩
      intro hrel
      obtain ⟨howner, hfits⟩ := persistence_releases hcall hrel
      refine ⟨hphase, howner, ⟨_, rfl⟩, ?_⟩
      intro response hresp
      exact hfits response (Option.some.inj (hout.symm.trans hresp))

/-- An entry stays under its creator's token unless it expires or its creator
removes it. -/
theorem entry_survives {m : Manager Bytes} {store store' : Store Bytes}
    {a : Action Bytes} {k : String} {e : Entry} (hinv : Inv m store)
    (h : step m store a = some store') (hk : store.redis.entries k = some e)
    (hl : store'.redis.lapses k = store.redis.lapses k)
    (hrel : ∀ c fault, a = .call c fault → c.Releases m →
      c.owner ≠ e.creator) :
    ∃ e', store'.redis.entries k = some e' ∧ e'.creator = e.creator := by
  rcases step_entry h k with ⟨hsame, -⟩ | ⟨c, fault, l, ha, -, hx, hlapse⟩ |
    ⟨-, hlapse⟩
  · exact ⟨e, hsame.trans hk, rfl⟩
  · rw [hk] at hx
    generalize hy : store'.redis.entries k = y at hx
    cases hx with
    | renewed deadline hc he => exact ⟨_, rfl, rfl⟩
    | finished deadline hc he => exact ⟨_, rfl, rfl⟩
    | aborted hc he =>
        obtain ⟨-, hcreator⟩ := (hinv.ok k e hk).processing he
        exact absurd hcreator.symm (hrel c fault ha hc)
    | lapsed hc he =>
        rw [hl] at hlapse
        exact absurd hlapse (by simp)
  · omega

/-! ## The invariant of all calls -/

structure SysInv (srv : Server Req Resp) (s : Sys Req Resp) : Prop where
  store : Inv srv.manager s.store
  through : ∀ i c, s.calls i = some c → c.phase = .through →
    srv.guards c.req = false
  guarded : ∀ i c, s.calls i = some c → c.phase.Guarded →
    srv.guards c.req = true
  drew : ∀ i c, s.calls i = some c → c.Owner srv → c.owner ∈ s.store.drawn
  unique : ∀ i j c d, s.calls i = some c → s.calls j = some d →
    c.Owner srv → d.Owner srv → c.owner = d.owner → i = j

theorem set_calls_eq {s : Sys Req Resp} {i j : Nat}
    {c d : CallState Req Resp} (h : (s.set i c).calls j = some d) :
    (j = i ∧ d = c) ∨ (j ≠ i ∧ s.calls j = some d) := by
  by_cases hj : j = i
  · subst hj
    change Function.update s.calls j (some c) j = some d at h
    rw [Function.update_self, Option.some.injEq] at h
    exact Or.inl ⟨rfl, h.symm⟩
  · change Function.update s.calls i (some c) j = some d at h
    rw [Function.update_of_ne hj] at h
    exact Or.inr ⟨hj, h⟩

/-- A call that has just arrived has no token. -/
theorem arrive_not_armed (srv : Server Req Resp) (req : Request Req) :
    ¬ (srv.arrive req).Armed ∧
      (srv.arrive req = .through → srv.guards req = false) ∧
      ((srv.arrive req).Guarded → srv.guards req = true) := by
  unfold Server.arrive
  split
  · next hguards =>
      refine ⟨False.elim, fun _ => by simpa using hguards, False.elim⟩
  · next hguards =>
      have htrue : srv.guards req = true := by simpa using hguards
      split
      · exact ⟨False.elim, nofun, False.elim⟩
      · exact ⟨False.elim, nofun, fun _ => htrue⟩

theorem not_owner_of_arrive (srv : Server Req Resp) (req : Request Req) :
    ¬ ({ req, phase := srv.arrive req } : CallState Req Resp).Owner srv := by
  rintro ⟨-, harmed | hout⟩
  · exact (arrive_not_armed srv req).1 harmed
  · cases hout

theorem local_inv {c c' : CallState Req Resp} {store store' : Store Bytes}
    (hinv : Inv srv.manager store) (h : Local srv P c store c' store') :
    Inv srv.manager store' ∧ store.history <+: store'.history := by
  rcases local_store h with rfl | ⟨call, fault, hstep, -⟩
  · exact ⟨hinv, List.prefix_rfl⟩
  · exact ⟨inv_step _ _ _ hinv hstep, step_history hstep⟩

theorem drawn_mono {store store' : Store Bytes} {owner : String}
    (h : store.history <+: store'.history) (ho : owner ∈ store.drawn) :
    owner ∈ store'.drawn :=
  (h.filterMap _).subset ho

/-- The token a call acquires with is new, and drawn from then on. -/
theorem acquires_owner {c c' : CallState Req Resp}
    {store store' : Store Bytes} (hinv : Inv srv.manager store)
    (h : Acquires srv c c' store store') :
    c'.owner ∉ store.drawn ∧ c'.owner ∈ store'.drawn := by
  obtain ⟨fp, owner, fault, d, -, hstep, hres, hd, howner, -⟩ := h
  obtain ⟨hown, -⟩ := begin_acquired hinv.ok hres hd
  obtain ⟨hfresh, -, hhist⟩ := step_call hstep
  rw [howner, hown]
  have hmem : (.begin c.req.key fp owner, (srv.manager.perform fault
      store.redis (.begin c.req.key fp owner)).2) ∈ store'.history := by
    rw [hhist]
    exact List.mem_append_right _ (List.mem_singleton_self _)
  exact ⟨hfresh owner rfl, mem_drawn hmem⟩

theorem sysInv_call {s : Sys Req Resp} {i : Nat}
    {c c' : CallState Req Resp} {store : Store Bytes} (hs : SysInv srv s)
    (hi : s.calls i = some c) (h : Local srv P c s.store c' store) :
    SysInv srv ({ s with store }.set i c') := by
  obtain ⟨hreq, hinside, hguard, hkind⟩ := local_stays (hs.through i c hi) h
  obtain ⟨hstore, hhist⟩ := local_inv hs.store h
  -- a token of another call is not the one this call has after the step
  have hapart : ∀ j d, j ≠ i → s.calls j = some d → d.Owner srv →
      c'.Owner srv → d.owner ≠ c'.owner := by
    intro j d hji hj hd hc' heq
    rcases hkind with hacq | hstay
    · exact (acquires_owner hs.store hacq).1 (heq ▸ hs.drew j d hj hd)
    · exact hji (hs.unique j i d c hj hi hd (hstay.owning hc')
        (heq.trans hstay.owner))
  refine ⟨hstore, ?_, ?_, ?_, ?_⟩
  · intro j d hj hphase
    rcases set_calls_eq hj with ⟨rfl, rfl⟩ | ⟨-, hj'⟩
    · exact absurd hphase hinside
    · exact hs.through j d hj' hphase
  · intro j d hj hphase
    rcases set_calls_eq hj with ⟨rfl, rfl⟩ | ⟨-, hj'⟩
    · rw [hreq]
      exact hs.guarded j c hi (hguard hphase)
    · exact hs.guarded j d hj' hphase
  · intro j d hj hd
    rcases set_calls_eq hj with ⟨rfl, rfl⟩ | ⟨-, hj'⟩
    · rcases hkind with hacq | hstay
      · exact (acquires_owner hs.store hacq).2
      · rw [hstay.owner]
        exact drawn_mono hhist (hs.drew j c hi (hstay.owning hd))
    · exact drawn_mono hhist (hs.drew j d hj' hd)
  · intro j k d e hj hk hd he heq
    rcases set_calls_eq hj with ⟨rfl, rfl⟩ | ⟨hji, hj'⟩ <;>
      rcases set_calls_eq hk with ⟨rfl, rfl⟩ | ⟨hki, hk'⟩
    · rfl
    · exact absurd heq.symm (hapart k e hki hk' he hd)
    · exact absurd heq (hapart j d hji hj' hd he)
    · exact hs.unique j k d e hj' hk' hd he heq

theorem sysInv_moved {s t : Sys Req Resp} (hs : SysInv srv s)
    (h : Moved srv P s t) : SysInv srv t := by
  cases h with
  | arrived i req hnew =>
      obtain ⟨-, hthrough, hguard⟩ := arrive_not_armed srv req
      have hnot := not_owner_of_arrive srv req
      refine ⟨hs.store, ?_, ?_, ?_, ?_⟩
      · intro j d hj hphase
        rcases set_calls_eq hj with ⟨rfl, rfl⟩ | ⟨-, hj'⟩
        · exact hthrough hphase
        · exact hs.through j d hj' hphase
      · intro j d hj hphase
        rcases set_calls_eq hj with ⟨rfl, rfl⟩ | ⟨-, hj'⟩
        · exact hguard hphase
        · exact hs.guarded j d hj' hphase
      · intro j d hj hd
        rcases set_calls_eq hj with ⟨rfl, rfl⟩ | ⟨-, hj'⟩
        · exact absurd hd hnot
        · exact hs.drew j d hj' hd
      · intro j k d e hj hk hd he heq
        rcases set_calls_eq hj with ⟨rfl, rfl⟩ | ⟨-, hj'⟩
        · exact absurd hd hnot
        · rcases set_calls_eq hk with ⟨rfl, rfl⟩ | ⟨-, hk'⟩
          · exact absurd he hnot
          · exact hs.unique j k d e hj' hk' hd he heq
  | call i hi h => exact sysInv_call hs hi h
  | store ha h =>
      exact ⟨inv_step _ _ _ hs.store h, hs.through, hs.guarded,
        fun j d hj hd => drawn_mono (step_history h) (hs.drew j d hj hd),
        hs.unique⟩

theorem sysInv_run {as : List (Event Req Resp)} {s : Sys Req Resp}
    (hrun : Lts.run srv.step {} as = some s) : SysInv srv s := by
  refine Lts.run_inv_of (I := SysInv srv) ?_ ?_ hrun
  · intro s ev t hs h
    exact sysInv_moved (P := fun _ => True) hs
      (step_moved (fun _ _ _ => trivial) h)
  · refine ⟨inv_init, ?_, ?_, ?_, ?_⟩
    · intro i c h
      cases h
    · intro i c h
      cases h
    · intro i c h
      cases h
    · intro i j c d h
      cases h

/-! ## A window without expiry -/

/-- What holds of the calls that arrived after `s₀`: their responses fit, and
until the record of the key expires, a call that claims the request has it
under its token. -/
structure Window (srv : Server Req Resp) (s₀ : Sys Req Resp) (key : String)
    (s : Sys Req Resp) : Prop where
  le : s₀.store.redis.lapses (srv.manager.storageKey key) ≤
    s.store.redis.lapses (srv.manager.storageKey key)
  fits : ∀ i c response, s₀.calls i = none → s.calls i = some c →
    c.outcome = some (.ok response) → srv.Fits response
  claims : s.store.redis.lapses (srv.manager.storageKey key) =
      s₀.store.redis.lapses (srv.manager.storageKey key) →
    ∀ i c, s₀.calls i = none → s.calls i = some c → c.req.key = key →
      c.Claims srv →
      ∃ e, s.store.redis.entries (srv.manager.storageKey key) = some e ∧
        e.creator = c.owner

/-- While no record of the key has expired since the window began, a step has
not let one expire either. -/
theorem Window.lapses_eq {s₀ s : Sys Req Resp} {key : String}
    {store : Store Bytes} (hw : Window srv s₀ key s)
    (hmono : s.store.redis.lapses (srv.manager.storageKey key) ≤
      store.redis.lapses (srv.manager.storageKey key))
    (hl : store.redis.lapses (srv.manager.storageKey key) =
      s₀.store.redis.lapses (srv.manager.storageKey key)) :
    store.redis.lapses (srv.manager.storageKey key) =
      s.store.redis.lapses (srv.manager.storageKey key) :=
  Nat.le_antisymm (hl ▸ hw.le) hmono

theorem local_lapses {c c' : CallState Req Resp} {store store' : Store Bytes}
    (h : Local srv P c store c' store') (k : String) :
    store.redis.lapses k ≤ store'.redis.lapses k := by
  rcases local_store h with rfl | ⟨call, fault, hstep, -⟩
  · exact Nat.le_refl _
  · exact step_lapses hstep k

/-- The record a call acquires, where it has not expired at once. -/
theorem acquires_entry {c c' : CallState Req Resp}
    {store store' : Store Bytes} (hinv : Inv srv.manager store)
    (h : Acquires srv c c' store store')
    (hl : store'.redis.lapses (srv.manager.storageKey c.req.key) =
      store.redis.lapses (srv.manager.storageKey c.req.key)) :
    ∃ e, store'.redis.entries (srv.manager.storageKey c.req.key) = some e ∧
      e.creator = c'.owner := by
  obtain ⟨fp, owner, fault, d, -, hstep, hres, hd, howner, -⟩ := h
  obtain ⟨hown, hafter⟩ := begin_acquired hinv.ok hres hd
  have hredis : store'.redis =
      (srv.manager.begin c.req.key fp owner fault store.redis).1 :=
    (step_call hstep).2.1
  rcases hafter with ⟨deadline, hafter⟩ | hafter
  · refine ⟨.fresh fp owner deadline, ?_, ?_⟩
    · rw [hredis, hafter, after_entries_self]
    · rw [howner, hown]
      rfl
  · rw [hredis, hafter, after_lapses_self] at hl
    exact absurd hl (by simp)

/-- A record under a call's token outlives a step, unless the step is that call
giving it up. -/
theorem claim_survives {s : Sys Req Resp} {i j : Nat}
    {b c c' : CallState Req Resp} {store : Store Bytes} {k : String}
    {e : Entry} (hs : SysInv srv s) (hi : s.calls i = some c)
    (h : Local srv srv.Fits c s.store c' store) (hb : s.calls j = some b)
    (hclaims : b.Claims srv)
    (hkeeps : j = i → c'.Claims srv ∧ ∀ response,
      c.outcome = some (.ok response) → srv.Fits response)
    (he : s.store.redis.entries k = some e) (hcreator : e.creator = b.owner)
    (hlapse : store.redis.lapses k = s.store.redis.lapses k) :
    ∃ e', store.redis.entries k = some e' ∧ e'.creator = b.owner := by
  rcases local_store h with rfl | ⟨call, fault, hstep, hrel⟩
  · exact ⟨e, he, hcreator⟩
  · have hothers : ∀ call' fault', (.call call fault : Action Bytes) =
        .call call' fault' → call'.Releases srv.manager →
        call'.owner ≠ e.creator := by
      intro call' fault' heq hrel' howner
      cases heq
      obtain ⟨hphase, hcown, ⟨result, hc'⟩, hnofit⟩ := hrel hrel'
      have hcowner : c.Owner srv := by
        refine ⟨hs.guarded i c hi ?_, Or.inl ?_⟩ <;>
          · rw [hphase]
            trivial
      have hji : j = i := by
        apply hs.unique j i b c hb hi hclaims.owner hcowner
        rw [← hcreator, ← howner, hcown]
      obtain ⟨hk, hfits⟩ := hkeeps hji
      rw [hc'] at hk
      rcases hk.2 with hactive | ⟨response, hout⟩
      · exact hactive
      · exact hnofit response hout (hfits response hout)
    obtain ⟨e', he', hcreator'⟩ :=
      entry_survives hs.store hstep he hlapse hothers
    exact ⟨e', he', hcreator'.trans hcreator⟩

theorem window_call {s₀ s : Sys Req Resp} {key : String} {i : Nat}
    {c c' : CallState Req Resp} {store : Store Bytes} (hs : SysInv srv s)
    (hw : Window srv s₀ key s) (hi : s.calls i = some c)
    (h : Local srv srv.Fits c s.store c' store) :
    Window srv s₀ key ({ s with store }.set i c') := by
  have hmono := local_lapses h (srv.manager.storageKey key)
  obtain ⟨hreq, -, -, hkind⟩ := local_stays (hs.through i c hi) h
  refine ⟨Nat.le_trans hw.le hmono, ?_, ?_⟩
  · intro j d response hnew hj hout
    rcases set_calls_eq hj with ⟨rfl, rfl⟩ | ⟨-, hj'⟩
    · rcases hkind with ⟨-, -, -, -, -, -, -, -, -, hsame⟩ | hstay
      · exact hw.fits j c response hnew hi (hsame ▸ hout)
      · rcases hstay.outcome response hout with hbefore | hfit
        · exact hw.fits j c response hnew hi hbefore
        · exact hfit
    · exact hw.fits j d response hnew hj' hout
  · intro hl j d hnew hj hkey hclaims
    have hlapse := hw.lapses_eq hmono hl
    have hbefore := hw.claims (hlapse.symm.trans hl)
    have hsurvive : ∀ b, s.calls j = some b → b.Claims srv →
        b.req.key = key →
        (j = i → c'.Claims srv ∧ ∀ response,
          c.outcome = some (.ok response) → srv.Fits response) →
        ∃ e, store.redis.entries (srv.manager.storageKey key) = some e ∧
          e.creator = b.owner := by
      intro b hb hbclaims hbkey hkeeps
      obtain ⟨e, he, hcreator⟩ := hbefore j b hnew hb hbkey hbclaims
      exact claim_survives hs hi h hb hbclaims hkeeps he hcreator hlapse
    rcases set_calls_eq hj with ⟨rfl, rfl⟩ | ⟨hji, hj'⟩
    · rcases hkind with hacq | hstay
      · rw [← hkey, hreq] at hlapse ⊢
        exact acquires_entry hs.store hacq hlapse
      · rw [hstay.owner]
        refine hsurvive c hi (hstay.claims hclaims) (hreq ▸ hkey) ?_
        exact fun _ => ⟨hclaims, fun response hout =>
          hw.fits j c response hnew hi hout⟩
    · exact hsurvive d hj' hclaims hkey fun heq => absurd heq hji

theorem window_moved {s₀ s t : Sys Req Resp} {key : String}
    (hs : SysInv srv s) (hw : Window srv s₀ key s)
    (h : Moved srv srv.Fits s t) : Window srv s₀ key t := by
  cases h with
  | arrived i req hnew =>
      have hnot := not_owner_of_arrive srv req
      refine ⟨hw.le, ?_, ?_⟩
      · intro j d response hj₀ hj hout
        rcases set_calls_eq hj with ⟨rfl, rfl⟩ | ⟨-, hj'⟩
        · cases hout
        · exact hw.fits j d response hj₀ hj' hout
      · intro hl j d hj₀ hj hkey hclaims
        rcases set_calls_eq hj with ⟨rfl, rfl⟩ | ⟨-, hj'⟩
        · exact absurd hclaims.owner hnot
        · exact hw.claims hl j d hj₀ hj' hkey hclaims
  | call i hi h => exact window_call hs hw hi h
  | @store a store ha h =>
      have hmono := step_lapses h (srv.manager.storageKey key)
      refine ⟨Nat.le_trans hw.le hmono, hw.fits, ?_⟩
      intro hl j d hj₀ hj hkey hclaims
      have hlapse := hw.lapses_eq hmono hl
      obtain ⟨e, he, hcreator⟩ :=
        hw.claims (hlapse.symm.trans hl) j d hj₀ hj hkey hclaims
      obtain ⟨e', he', hcreator'⟩ := entry_survives hs.store h he hlapse
        (fun c fault heq => absurd heq (ha c fault))
      exact ⟨e', he', hcreator'.trans hcreator⟩

/-- The handler of a call is running. -/
def CallState.Running (c : CallState Req Resp) : Prop :=
  ∃ lease, c.phase = .handling lease

/-- The handler of a call has returned a nil error. -/
def CallState.Succeeded (c : CallState Req Resp) : Prop :=
  ∃ response, c.outcome = some (.ok response)

/-- Of the guarded calls for one key that arrive in a window of a run in which
no record of the key expires and every response fits, at most one runs its
handler at a time, and the handler of at most one ever succeeds. -/
theorem handler_at_most_once {pre as : List (Event Req Resp)}
    {s₀ t : Sys Req Resp} {key : String}
    (hpre : Lts.run srv.step {} pre = some s₀)
    (hrun : Lts.run srv.step s₀ as = some t)
    (hexpiry : t.store.redis.lapses (srv.manager.storageKey key) =
      s₀.store.redis.lapses (srv.manager.storageKey key))
    (hfits : ∀ i response, .handle i (some (.ok response)) ∈ as →
      srv.Fits response)
    {i j : Nat} {c d : CallState Req Resp}
    (hi₀ : s₀.calls i = none) (hj₀ : s₀.calls j = none)
    (hi : t.calls i = some c) (hj : t.calls j = some d)
    (hci : srv.guards c.req = true) (hdj : srv.guards d.req = true)
    (hkeyi : c.req.key = key) (hkeyj : d.req.key = key) :
    (c.Running → d.Running → i = j) ∧ (c.Succeeded → d.Succeeded → i = j) := by
  have hinv : SysInv srv t ∧ Window srv s₀ key t := by
    refine Lts.run_inv (I := fun s => SysInv srv s ∧ Window srv s₀ key s)
      (C := fun _ ev => ∀ i response, ev = .handle i (some (.ok response)) →
        srv.Fits response) ?_ ⟨sysInv_run hpre, ?_⟩ ?_ hrun
    · intro s ev u hs hfit h
      have hmoved := step_moved hfit h
      exact ⟨sysInv_moved hs.1 hmoved, window_moved hs.1 hs.2 hmoved⟩
    · refine ⟨Nat.le_refl _, ?_, ?_⟩
      · intro i c response hnone hsome
        rw [hnone] at hsome
        cases hsome
      · intro _ i c hnone hsome
        rw [hnone] at hsome
        cases hsome
    · intro p hp i response heq
      obtain ⟨before, after, has, -⟩ := Lts.mem_steps hp
      refine hfits i response ?_
      rw [has, ← heq]
      exact List.mem_append_right _ (List.mem_cons_self ..)
  -- two calls that claim one request own one record
  have hone : c.Claims srv → d.Claims srv → i = j := by
    intro hc hd
    obtain ⟨e, he, hcreator⟩ := hinv.2.claims hexpiry i c hi₀ hi hkeyi hc
    obtain ⟨e', he', hcreator'⟩ := hinv.2.claims hexpiry j d hj₀ hj hkeyj hd
    rw [he] at he'
    cases he'
    exact hinv.1.unique i j c d hi hj hc.owner hd.owner
      (hcreator.symm.trans hcreator')
  constructor
  · rintro ⟨lease, hphase⟩ ⟨lease', hphase'⟩
    refine hone ⟨hci, Or.inl ?_⟩ ⟨hdj, Or.inl ?_⟩
    · rw [hphase]
      trivial
    · rw [hphase']
      trivial
  · intro hc hd
    exact hone ⟨hci, Or.inr hc⟩ ⟨hdj, Or.inr hd⟩

/-- The hash of what `createOrder` is fingerprinted by. -/
def createOrderHash : Vector UInt8 32 :=
  #v[0x92, 0x84, 0x9f, 0x8b, 0x25, 0x5d, 0x42, 0xa0, 0x8a, 0x8f, 0x95, 0xb9,
    0x75, 0xa4, 0xf7, 0x70, 0x29, 0x8b, 0x3e, 0x18, 0x4a, 0x0c, 0xdb, 0xc2,
    0xcb, 0xbe, 0xc4, 0x25, 0x60, 0x12, 0xec, 0x18]

/-- A server whose messages are their own encoding. The responses it stores
are the bytes `1` and `2`. -/
def orderServer : Server Bytes Bytes where
  manager := .new true ordersConfig
    { textJson with
      marshal := fun payload =>
        if payload = bytes "1" then
          .ok (bytes "\x7b\"payload\":\"MQ==\"\x7d")
        else if payload = bytes "2" then
          .ok (bytes "\x7b\"payload\":\"Mg==\"\x7d")
        else .ok (bytes "\x7b\"payload\":null\x7d") }
  methods := ["/orders.Orders/Create"]
  pathMatch := fun pattern name => .ok (pattern == name)
  codec :=
    { marshalRequest := fun b => some (.ok b)
      marshalResponse := fun b => some (.ok b)
      sha256 := fun _ => createOrderHash
      unmarshalCached := fun b =>
        if b = bytes "\x7b\"payload\":\"MQ==\"\x7d" then .ok (bytes "1")
        else if b = bytes "\x7b\"payload\":\"Mg==\"\x7d" then
          .ok (bytes "2")
        else .ok []
      findDescriptor := fun service =>
        if service = "orders.Orders" then
          .ok (some fun name =>
            if name = "Create" then some fun b => .ok b else none)
        else .error (.new (bytes "not found")) }

def createOrder : Request Bytes :=
  { key := "order-42", caller := some { id := "user-1" }
    method := "/orders.Orders/Create", request := bytes "x" }

/-- The first call fails and gives the request back, the second succeeds while
a third is turned away, and a fourth is answered from the record. -/
def retriedOrder : List (Event Bytes Bytes) :=
  [.arrive 0 createOrder, .begin 0 "owner-0" .none, .lease 0,
    .handle 0 (some (.error ⟨Code.unavailable, "try again"⟩)), .stop 0,
    .persist 0 .none,
    .arrive 1 createOrder, .begin 1 "owner-1" .none, .lease 1,
    .arrive 2 createOrder, .begin 2 "owner-2" .none, .renew 1 .none,
    .handle 1 (some (.ok (bytes "1"))), .stop 1, .persist 1 .none,
    .arrive 3 createOrder, .begin 3 "owner-3" .none]

theorem handler_at_most_once_retriedOrder :
    ∃ t c, Lts.run orderServer.step {} retriedOrder = some t ∧
      t.calls 1 = some c ∧ c.Succeeded ∧
      ∀ j d, t.calls j = some d → orderServer.guards d.req = true →
        d.req.key = "order-42" → d.Succeeded → 1 = j := by
  have heval : (Lts.run orderServer.step {} retriedOrder).map (fun t =>
      (t.store.redis.lapses (orderServer.manager.storageKey "order-42"),
        (t.calls 1).any fun c => orderServer.guards c.req &&
          c.req.key == "order-42" && c.outcome.any Except.isOk)) =
      some (0, true) := by
    decide
  obtain ⟨t, hrun, heq⟩ := Option.map_eq_some_iff.mp heval
  rw [Prod.mk.injEq] at heq
  obtain ⟨hlapses, hcall⟩ := heq
  obtain ⟨c, hc, hfields⟩ := (Option.any_eq_true ..).mp hcall
  simp only [Bool.and_eq_true, beq_iff_eq] at hfields
  obtain ⟨⟨hguards, hkey⟩, hout⟩ := hfields
  have hsucc : c.Succeeded := by
    obtain ⟨r, hr, hok⟩ := (Option.any_eq_true ..).mp hout
    cases r with
    | error e => cases hok
    | ok response => exact ⟨response, hr⟩
  have hfits : ∀ i response,
      .handle i (some (.ok response)) ∈ retriedOrder →
      orderServer.Fits response := by
    intro i response hmem payload b _ hb
    change (if payload = bytes "1" then _
      else if payload = bytes "2" then _ else _) = _ at hb
    split at hb
    · cases hb
      decide
    · split at hb <;>
        · cases hb
          decide
  refine ⟨t, c, hrun, hc, hsucc, ?_⟩
  intro j d hj hgd hkd hd
  exact (handler_at_most_once (Lts.run_nil _) hrun hlapses hfits rfl rfl hc hj
    hguards hgd hkey hkd).2 hsucc hd

end PlatformGo.Idempotency
