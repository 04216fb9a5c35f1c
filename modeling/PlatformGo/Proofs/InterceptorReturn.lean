import PlatformGo.Proofs.InterceptorOnce

/-!
# How a call returns

Six steps of a call end in a return: the decision of `Begin`, the refusal of a
lease, the handler outside of the manager, the error of `stop`, and the storing
of the outcome, with a call on the manager or without one. `returns_of_step`
says so once, with what each of them does to the store; that a step of another
call is none of them is part of it.
-/

namespace PlatformGo.Idempotency

variable {Req Resp : Type} {srv : Server Req Resp} {s t : Sys Req Resp}
  {i : Nat} {c c' : CallState Req Resp} {ev : Event Req Resp}
  {result : Except Status Resp}

/-- The steps by which the call `c` with the number `i` returns, with the store
before and after. -/
inductive Returns (srv : Server Req Resp) (i : Nat) (c : CallState Req Resp)
    (store store' : Store Bytes) :
    Event Req Resp → Except Status Resp → Prop
  | decided {fingerprint owner : String} {fault : Fault}
      {result : Except Status Resp} (h : c.phase = .beginning fingerprint)
      (hret : (srv.decided c (srv.manager.begin c.req.key fingerprint owner
        fault store.redis).2).phase = .returned result)
      (hstep : step srv.manager store
        (.call (.begin c.req.key fingerprint owner) fault) = some store') :
      Returns srv i c store store' (.begin i owner fault) result
  | refused (h : c.phase = .acquired) (hstarts : srv.startsLease c = false)
      (hstore : store' = store) :
      Returns srv i c store store' (.lease i) (.error leaseUnavailable)
  | past {result : Except Status Resp} (h : c.phase = .through)
      (hstore : store' = store) :
      Returns srv i c store store' (.handle i (some result)) result
  | lost {e : GoErr} {status : Status}
      (h : c.phase = .handled (.ended (some e))) (hstore : store' = store) :
      Returns srv i c store store' (.stop i) (.error status)
  | unencoded {fault : Fault} {outcome result : Except Status Resp}
      (h : c.phase = .persisting) (hout : c.outcome = some outcome)
      (hnone : srv.persistence c outcome = (none, result))
      (hstore : store' = store) :
      Returns srv i c store store' (.persist i fault) result
  | stored {fault : Fault} {outcome result : Except Status Resp}
      {call : Call Bytes} (h : c.phase = .persisting)
      (hout : c.outcome = some outcome)
      (hcall : srv.persistence c outcome = (some call, result))
      (hstep : step srv.manager store (.call call fault) = some store') :
      Returns srv i c store store' (.persist i fault) result

theorem endLease_not_returned {phase phase' : Phase Resp}
    {err : Option GoErr} (h : phase.endLease err = some phase') :
    phase' ≠ .returned result := by
  rintro rfl
  unfold Phase.endLease at h
  split at h <;> cases h

theorem renewed_not_returned {phase phase' : Phase Resp} {answer : Result}
    (h : phase.renewed answer = some phase')
    (hnot : ∀ r, phase ≠ .returned r) : phase' ≠ .returned result := by
  unfold Phase.renewed at h
  split at h
  · obtain ⟨_, -, rfl⟩ := Option.map_eq_some_iff.mp h
    exact hnot result
  · exact endLease_not_returned h
  · cases h

theorem handle_returned {answer : Option (Except Status Resp)}
    (h : c.handle answer = some c') (hret : c'.phase = .returned result) :
    c.phase = .through ∧ answer = some result := by
  unfold CallState.handle at h
  split at h <;> split at h
  · cases h
    cases hret
  · next hphase =>
      cases h
      cases hret
      exact ⟨hphase, rfl⟩
  · cases h
  · cases h
    cases hret
  · cases h
    cases hret
  · cases h

theorem stop_returned (h : c.stop = some c')
    (hret : c'.phase = .returned result) :
    (∃ e, c.phase = .handled (.ended (some e))) ∧
      ∃ status, result = .error status := by
  unfold CallState.stop at h
  split at h
  · cases h
    cases hret
  · cases h
    cases hret
  · next e hphase =>
      refine ⟨⟨e, hphase⟩, ?_⟩
      split at h <;>
        · cases h
          cases hret
          exact ⟨_, rfl⟩
  · cases h

/-- Only the call that moves can return. -/
theorem returned_set {store : Store Bytes} {j : Nat} {d : CallState Req Resp}
    (hi : s.calls i = some c) (hnot : ∀ r, c.phase ≠ .returned r)
    (hi' : ({ s with store }.set j d).calls i = some c')
    (hret : c'.phase = .returned result) : i = j ∧ d = c' := by
  rcases set_calls_eq hi' with ⟨rfl, rfl⟩ | ⟨-, hsame⟩
  · exact ⟨rfl, rfl⟩
  · cases hi.symm.trans hsame
    exact absurd hret (hnot _)

theorem returns_of_step (hi : s.calls i = some c)
    (hnot : ∀ r, c.phase ≠ .returned r) (h : srv.step s ev = some t)
    (hi' : t.calls i = some c') (hret : c'.phase = .returned result) :
    Returns srv i c s.store t.store ev result := by
  cases ev with
  | arrive j req =>
      simp only [Server.step] at h
      split at h
      · cases h
      · next hnew =>
          cases h
          obtain ⟨rfl, -⟩ := returned_set hi hnot hi' hret
          cases hi.symm.trans hnew
  | begin j owner fault =>
      obtain ⟨d, hj, h⟩ := Option.bind_eq_some_iff.mp h
      split at h
      · next hphase =>
          obtain ⟨store, d', hstep, hnext, rfl⟩ := onStore_eq h
          cases hnext
          obtain ⟨rfl, rfl⟩ := returned_set hi hnot hi' hret
          cases hi.symm.trans hj
          exact .decided hphase hret hstep
      · cases h
  | lease j =>
      obtain ⟨d, hj, h⟩ := Option.bind_eq_some_iff.mp h
      split at h
      · next hphase =>
          cases h
          obtain ⟨rfl, rfl⟩ := returned_set hi hnot hi' hret
          cases hi.symm.trans hj
          unfold Server.lease at hret
          split at hret
          · cases hret
          · next hstarts =>
              cases hret
              exact .refused hphase (Bool.eq_false_iff.mpr hstarts) rfl
      · cases h
  | renew j fault =>
      obtain ⟨d, hj, h⟩ := Option.bind_eq_some_iff.mp h
      obtain ⟨store, d', -, hnext, rfl⟩ := onStore_eq h
      obtain ⟨phase, hphase, rfl⟩ := Option.map_eq_some_iff.mp hnext
      obtain ⟨rfl, rfl⟩ := returned_set hi hnot hi' hret
      cases hi.symm.trans hj
      exact absurd hret (renewed_not_returned hphase hnot)
  | cancelled j =>
      obtain ⟨d, hj, h⟩ := Option.bind_eq_some_iff.mp h
      obtain ⟨phase, hphase, rfl⟩ := Option.map_eq_some_iff.mp h
      obtain ⟨rfl, rfl⟩ := returned_set hi hnot hi' hret
      exact absurd hret (endLease_not_returned hphase)
  | handle j answer =>
      obtain ⟨d, hj, h⟩ := Option.bind_eq_some_iff.mp h
      obtain ⟨d', hd, rfl⟩ := Option.map_eq_some_iff.mp h
      obtain ⟨rfl, rfl⟩ := returned_set hi hnot hi' hret
      cases hi.symm.trans hj
      obtain ⟨hphase, rfl⟩ := handle_returned hd hret
      exact .past hphase rfl
  | stop j =>
      obtain ⟨d, hj, h⟩ := Option.bind_eq_some_iff.mp h
      obtain ⟨d', hd, rfl⟩ := Option.map_eq_some_iff.mp h
      obtain ⟨rfl, rfl⟩ := returned_set hi hnot hi' hret
      cases hi.symm.trans hj
      obtain ⟨⟨e, hphase⟩, status, rfl⟩ := stop_returned hd hret
      exact .lost hphase rfl
  | persist j fault =>
      obtain ⟨d, hj, h⟩ := Option.bind_eq_some_iff.mp h
      unfold Server.persist at h
      split at h
      · next outcome hphase hout =>
          split at h
          · next hnone =>
              cases h
              obtain ⟨rfl, rfl⟩ := returned_set hi hnot hi' hret
              cases hi.symm.trans hj
              cases hret
              exact .unencoded hphase hout hnone rfl
          · next hcall =>
              obtain ⟨store, d', hstep, hnext, rfl⟩ := onStore_eq h
              cases hnext
              obtain ⟨rfl, rfl⟩ := returned_set hi hnot hi' hret
              cases hi.symm.trans hj
              cases hret
              exact .stored hphase hout hcall hstep
      · cases h
  | expire k | tick d =>
      cases h
      cases hi.symm.trans hi'
      exact absurd hret (hnot _)

end PlatformGo.Idempotency
