import PlatformGo.Ref.Registrant

/-!
# Leaving the registry

`Run` can end in four places. After a failed registration it holds no token.
The two waits with a token in hand end in `shutdown`, which deregisters. The
look at the context at the top of the loop ends it as it is: a context that is
cancelled while the lease is being renewed, or that a wait overlooks because
its timer has fired too, is seen there first, with the token still held.

So a run leaves nothing registered exactly when that look never finds the
context cancelled with a token in hand (`deregistered_iff`).
-/

namespace PlatformGo.ServiceRegistry

open Lts

variable {r : Registrant} {s t : Registration} {a : RunAction}

/-- `Run` is on its way out, or out. -/
def RunAt.leaving : RunAt → Bool
  | .deregistering _ | .returned _ => true
  | _ => false

/-- What a step can do. -/
inductive RunMove (r : Registrant) (s : Registration) :
    RunAction → Registration → Prop
  | cancel {err : GoErr} :
      RunMove r s (.cancel err)
        { s with ctxErr := some (s.ctxErr.getD err) }
  | topExit {err : GoErr} (h : s.at_ = .top) (hctx : s.ctxErr = some err) :
      RunMove r s .check { s with at_ := .returned (some err) }
  | register (h : s.at_ = .top) (hctx : s.ctxErr = none)
      (htoken : s.token = "") :
      RunMove r s .check
        { s.send r.registerRequest with at_ := .registering }
  | keep (h : s.at_ = .top) (hctx : s.ctxErr = none)
      (htoken : s.token ≠ "") :
      RunMove r s .check { s with at_ := .beating r.heartbeatInterval }
  | registered {token : String} (h : s.at_ = .registering) :
      RunMove r s (.registerReturn (some token)) { s with
        at_ := .beating r.heartbeatInterval, token, backoff := r.retryMin }
  | registerFailed (h : s.at_ = .registering) :
      RunMove r s (.registerReturn none)
        { s with at_ := .retrying s.backoff }
  | again (h : (∃ d, s.at_ = .retrying d) ∨ ∃ d, s.at_ = .backingOff d) :
      RunMove r s .timer
        { s with at_ := .top, backoff := r.nextBackoff s.backoff }
  | beat {d : Time} (h : s.at_ = .beating d) :
      RunMove r s .timer
        { s.send (r.renewRequest s.token) with at_ := .renewing }
  | giveUp {d : Time} {err : GoErr} (h : s.at_ = .retrying d)
      (hctx : s.ctxErr = some err) :
      RunMove r s .done { s with at_ := .returned (some err) }
  | shutdown (h : (∃ d, s.at_ = .beating d) ∨ ∃ d, s.at_ = .backingOff d) :
      RunMove r s .done (r.shutdown s)
  | renewed (h : s.at_ = .renewing) :
      RunMove r s (.renewReturn none)
        { s with at_ := .top, backoff := r.retryMin }
  | renewFailed {code : StatusCode} (h : s.at_ = .renewing) :
      RunMove r s (.renewReturn (some code)) { s with
        at_ := .backingOff s.backoff
        token :=
          if code = .notFound ∨ code = .permissionDenied then ""
          else s.token }
  | drained {token : String} (h : s.at_ = .draining token) :
      RunMove r s .drainReturn
        { s.send (r.deregisterRequest token) with
          at_ := .deregistering token }
  | deregistered {token : String} {err : Option GoErr}
      (h : s.at_ = .deregistering token) :
      RunMove r s (.deregisterReturn err) { s with at_ := .returned err }

theorem runMove_of_step (h : r.step s a = some t) : RunMove r s a t := by
  cases a with
  | cancel err =>
      cases h
      exact .cancel
  | check =>
      simp only [Registrant.step] at h
      split at h
      · next hat =>
          split at h
          · next hctx =>
              cases h
              exact .topExit hat hctx
          · next hctx =>
              split at h
              · next htoken =>
                  cases h
                  exact .register hat hctx htoken
              · next htoken =>
                  cases h
                  exact .keep hat hctx htoken
      · cases h
  | registerReturn result =>
      simp only [Registrant.step] at h
      split at h
      · next hat =>
          cases h
          exact .registered hat
      · next hat =>
          cases h
          exact .registerFailed hat
      · cases h
  | timer =>
      simp only [Registrant.step] at h
      split at h
      · next d hat =>
          cases h
          exact .again (Or.inl ⟨d, hat⟩)
      · next d hat =>
          cases h
          exact .again (Or.inr ⟨d, hat⟩)
      · next hat =>
          cases h
          exact .beat hat
      · cases h
  | done =>
      simp only [Registrant.step] at h
      split at h
      · next hctx hat =>
          cases h
          exact .giveUp hat hctx
      · next d _ hat =>
          cases h
          exact .shutdown (Or.inl ⟨_, hat⟩)
      · next d _ hat =>
          cases h
          exact .shutdown (Or.inr ⟨_, hat⟩)
      · cases h
  | renewReturn code =>
      simp only [Registrant.step] at h
      split at h
      · next hat =>
          cases h
          exact .renewed hat
      · next hat =>
          cases h
          exact .renewFailed hat
      · cases h
  | drainReturn =>
      simp only [Registrant.step] at h
      split at h
      · next hat =>
          cases h
          exact .drained hat
      · cases h
  | deregisterReturn err =>
      simp only [Registrant.step] at h
      split at h
      · next hat =>
          cases h
          exact .deregistered hat
      · cases h

/-! ## Runs that do not end at the top of the loop -/

/-- The look at the top of the loop does not find the context cancelled with a
token in hand. -/
def SeenInTime (s : Registration) (a : RunAction) : Prop :=
  a = .check → s.ctxErr ≠ none → s.token = ""

/-- Where `Run` is tells what it still owes the registry. -/
def Settled (r : Registrant) (s : Registration) : Prop :=
  match s.at_ with
  | .registering | .retrying _ => s.token = ""
  | .draining token => token = s.token
  | .deregistering token =>
      token = s.token ∧ r.deregisterRequest s.token ∈ s.sent
  | .returned _ => s.token ≠ "" → r.deregisterRequest s.token ∈ s.sent
  | _ => True

theorem settled_shutdown (r : Registrant) (s : Registration) :
    Settled r (r.shutdown s) := by
  rw [Registrant.shutdown]
  split
  · next htoken => exact fun hne => absurd htoken hne
  · rfl

theorem settled_step (s : Registration) (a : RunAction) (t : Registration)
    (hs : Settled r s) (hseen : SeenInTime s a) (h : r.step s a = some t) :
    Settled r t := by
  rw [Settled] at hs
  cases runMove_of_step h with
  | cancel => exact hs
  | topExit hat hctx =>
      have hempty := hseen rfl (by rw [hctx]; simp)
      exact fun hne => absurd hempty hne
  | register hat hctx htoken => exact htoken
  | keep | registered | again | beat | renewed | renewFailed => trivial
  | registerFailed hat =>
      rw [hat] at hs
      exact hs
  | giveUp hat =>
      rw [hat] at hs
      exact fun hne => absurd hs hne
  | shutdown => exact settled_shutdown r s
  | drained hat =>
      rw [hat] at hs
      subst hs
      exact ⟨rfl, List.mem_append_right _ (List.mem_singleton_self _)⟩
  | deregistered hat =>
      rw [hat] at hs
      exact fun _ => hs.2

/-! ## Runs that do -/

/-- Nothing is deregistered before `Run` leaves. -/
def Unsent (r : Registrant) (s : Registration) : Prop :=
  s.at_.leaving = false → ∀ token, r.deregisterRequest token ∉ s.sent

theorem unsent_step (s : Registration) (a : RunAction) (t : Registration)
    (hs : Unsent r s) (h : r.step s a = some t) : Unsent r t := by
  have hsend : ∀ request, (∀ token, r.deregisterRequest token ≠ request) →
      (∀ token, r.deregisterRequest token ∉ s.sent) →
      ∀ token, r.deregisterRequest token ∉ s.sent ++ [request] := by
    intro request hother hold token hmem
    rcases List.mem_append.mp hmem with hmem | hmem
    · exact hold token hmem
    · exact hother token (List.mem_singleton.mp hmem)
  intro hleave
  cases runMove_of_step h with
  | cancel => exact hs hleave
  | topExit | giveUp | drained | deregistered => cases hleave
  | register hat =>
      exact hsend _ (by simp [Registrant.deregisterRequest,
        Registrant.registerRequest]) (hs (by rw [hat]; rfl))
  | beat hat =>
      exact hsend _ (by simp [Registrant.deregisterRequest,
        Registrant.renewRequest]) (hs (by rw [hat]; rfl))
  | keep hat | registered hat | registerFailed hat | renewed hat
  | renewFailed hat => exact hs (by rw [hat]; rfl)
  | again hat =>
      refine hs ?_
      rcases hat with ⟨d, hat⟩ | ⟨d, hat⟩ <;> rw [hat] <;> rfl
  | shutdown hat =>
      have hold := hs (by
        rcases hat with ⟨d, hat⟩ | ⟨d, hat⟩ <;> rw [hat] <;> rfl)
      rw [Registrant.shutdown]
      split
      · exact hold
      · exact hsend _ (by simp [Registrant.deregisterRequest,
          Registrant.drainRequest]) hold

/-- `Run` has returned: nothing happens but to its context. -/
theorem returned_step {err : Option GoErr} (hat : s.at_ = .returned err)
    (h : r.step s a = some t) :
    t.at_ = .returned err ∧ t.token = s.token ∧ t.sent = s.sent := by
  cases runMove_of_step h with
  | cancel => exact ⟨hat, rfl, rfl⟩
  | again hat' | shutdown hat' =>
      rcases hat' with ⟨d, hat'⟩ | ⟨d, hat'⟩ <;> rw [hat] at hat' <;>
        cases hat'
  | topExit hat' | register hat' | keep hat' | registered hat'
  | registerFailed hat' | beat hat' | giveUp hat' | renewed hat'
  | renewFailed hat' | drained hat' | deregistered hat' =>
      rw [hat] at hat'
      cases hat'

theorem returned_run {err : Option GoErr} {as : List RunAction}
    (hat : s.at_ = .returned err) (hrun : run r.step s as = some t) :
    t.at_ = .returned err ∧ t.token = s.token ∧ t.sent = s.sent := by
  refine run_inv_of (I := fun t => t.at_ = .returned err ∧
    t.token = s.token ∧ t.sent = s.sent) ?_ ⟨hat, rfl, rfl⟩ hrun
  rintro u a v ⟨hu, htoken, hsent⟩ hstep
  obtain ⟨hv, htoken', hsent'⟩ := returned_step hu hstep
  exact ⟨hv, htoken'.trans htoken, hsent'.trans hsent⟩

/-- A run of `Run`, whatever the calls return, whenever the context is
cancelled and however the waits are resolved: if it returns with a token, the
token has been deregistered, if and only if the look at the top of the loop
never found the context cancelled with a token in hand. -/
theorem deregistered_iff {token₀ : String} {as : List RunAction}
    (hrun : run r.step (r.start token₀) as = some s) :
    ((∃ err, s.at_ = .returned err) → s.token ≠ "" →
      r.deregisterRequest s.token ∈ s.sent) ↔
    ∀ p ∈ steps r.step (r.start token₀) as, SeenInTime p.1 p.2 := by
  constructor
  · intro hdereg p hp hcheck hctx
    obtain ⟨m, a⟩ := p
    obtain ⟨pre, post, rfl, hpre⟩ := mem_steps hp
    obtain ⟨m', hm', hrest⟩ := run_append.mp hrun
    obtain rfl : m = m' := Option.some.inj (hpre.symm.trans hm')
    obtain ⟨u, hu, hpost⟩ := run_cons.mp hrest
    have hunsent : Unsent r m :=
      run_inv_of unsent_step (fun _ _ => by simp [Registrant.start]) hpre
    subst hcheck
    cases runMove_of_step hu with
    | @topExit err hat _ =>
        -- What the run ends with is what the look has left.
        obtain ⟨hend, htoken, hsent⟩ := returned_run rfl hpost
        by_contra hne
        have hmem := hdereg ⟨_, hend⟩ (by rw [htoken]; exact hne)
        rw [hsent] at hmem
        exact hunsent (by rw [hat]; rfl) _ hmem
    | register _ hnone => exact absurd hnone hctx
    | keep _ hnone => exact absurd hnone hctx
  · rintro hseen ⟨err, hat⟩
    have hstart : Settled r (r.start token₀) := trivial
    have hs : Settled r s := run_inv settled_step hstart hseen hrun
    rw [Settled, hat] at hs
    exact hs

def pod : ServiceInstance :=
  { serviceName := "tenant-service", instanceId := "pod-1",
    endpoint := "grpc://tenant:9090", status := .healthy }

/-- The registrant of the instance with the settings left to their defaults. -/
def podRegistrant : Registrant where
  inst := pod
  lease := 30 * second
  heartbeatInterval := 10 * second
  callTimeout := 3 * second
  retryMin := 250 * millisecond
  retryMax := 5 * second

/-- The context is cancelled while `Run` waits for the second heartbeat. -/
def cancelledWhileWaiting : List RunAction :=
  [.check, .registerReturn (some "lease-1"), .timer, .renewReturn none, .check,
   .cancel errCanceled, .done, .drainReturn, .deregisterReturn none]

theorem deregistered_iff_cancelledWhileWaiting : ∃ s,
    run podRegistrant.step (podRegistrant.start "") cancelledWhileWaiting =
      some s ∧
    s.at_ = .returned none ∧ s.token = "lease-1" ∧
    podRegistrant.deregisterRequest "lease-1" ∈ s.sent := by
  obtain ⟨s, hrun, hat, htoken⟩ : ∃ s,
      run podRegistrant.step (podRegistrant.start "") cancelledWhileWaiting =
        some s ∧ s.at_ = .returned none ∧ s.token = "lease-1" :=
    ⟨_, rfl, rfl, rfl⟩
  have hseen : ∀ p ∈ steps podRegistrant.step (podRegistrant.start "")
      cancelledWhileWaiting, p.2 = .check → p.1.ctxErr = none := by
    decide
  have hmem := (deregistered_iff hrun).mpr
    (fun p hp hcheck hctx => absurd (hseen p hp hcheck) hctx)
    ⟨none, hat⟩ (by rw [htoken]; decide)
  exact ⟨s, hrun, hat, htoken, htoken ▸ hmem⟩

/-- The context is cancelled while the lease is being renewed. -/
def cancelledWhileRenewing : List RunAction :=
  [.check, .registerReturn (some "lease-1"), .timer, .cancel errCanceled,
   .renewReturn none, .check]

/-- `Run` then returns with the lease it has just renewed. -/
theorem renewed_lease_left_behind :
    newRegistrant false { inst := some pod } = .ok podRegistrant ∧
    ∃ s, run podRegistrant.step (podRegistrant.start "")
        cancelledWhileRenewing = some s ∧
      s.at_ = .returned (some errCanceled) ∧ s.token = "lease-1" ∧
      podRegistrant.deregisterRequest "lease-1" ∉ s.sent :=
  ⟨rfl, _, rfl, rfl, rfl, by decide⟩

end PlatformGo.ServiceRegistry
