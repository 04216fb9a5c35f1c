import PlatformGo.Proofs.ProviderSession

/-!
# When a provider stops trying

`supervise` leaves in three places. At the top of its loop and in its wait it
does so because its context is cancelled. Without a locker it also leaves when
its one session is over, and a session is over when its context is cancelled or
when `Register` has failed.

With a locker every session is followed by a wait, so the first two places are
the only ones. Without one the session's context is cancelled by nobody else,
there being no lock to extend, so everything hangs on the answer to the first
call of `Register`, which is also the last (`Alone`).
-/

namespace PlatformGo.DictionaryProvider

open Lts

variable {r : Registrant} {s t : Replica} {a : Action}

/-! ## The answers of the registry -/

def Action.registerAnswer : Action → Option (Option (String × String))
  | .registerReturn answer => some answer
  | _ => none

/-- What the calls of `Register` have returned, in their order. -/
def registerAnswers (as : List Action) : List (Option (String × String)) :=
  as.filterMap Action.registerAnswer

theorem registerAnswers_snoc (as : List Action) (a : Action) :
    registerAnswers (as ++ [a]) =
      registerAnswers as ++ a.registerAnswer.toList := by
  cases h : a.registerAnswer <;> simp [registerAnswers, h]

/-- The calls of `Register` return the given answers. -/
def Answered (answers : Nat → Option (String × String)) (as : List Action) :
    Prop :=
  ∀ i answer, (registerAnswers as)[i]? = some answer → answer = answers i

theorem Answered.of_snoc {answers : Nat → Option (String × String)}
    {as : List Action} (h : Answered answers (as ++ [a])) :
    Answered answers as := by
  intro i answer hi
  refine h i answer ?_
  rw [registerAnswers_snoc, List.getElem?_append_left
    (List.getElem?_eq_some_iff.mp hi).1, hi]

/-- The answer to the next call. -/
theorem Answered.last {answers : Nat → Option (String × String)}
    {as : List Action} {answer : Option (String × String)}
    (h : Answered answers (as ++ [.registerReturn answer])) :
    answer = answers (registerAnswers as).length := by
  refine h _ answer ?_
  rw [registerAnswers_snoc, List.getElem?_append_right (Nat.le_refl _),
    Nat.sub_self]
  rfl

/-! ## The guards of a step -/

theorem stopped_step (h : r.step s a = some t) (hs : s.stopped = true) :
    t.stopped = true := by
  cases a <;> simp only [Registrant.step] at h <;> (repeat' split at h) <;>
    cases h <;> first | exact hs | rfl

theorem stopped_of_check (h : r.step s .check = some t)
    (hat : t.at_ = .returned) : s.stopped = true := by
  simp only [Registrant.step] at h
  split at h
  · split at h
    · next hstopped => exact hstopped
    · split at h <;> cases h <;> cases hat
  · cases h

theorem stopped_of_stopWait (h : r.step s .stopWait = some t) :
    s.stopped = true := by
  simp only [Registrant.step] at h
  split at h
  · assumption
  · cases h

theorem cancelled_of_unregister {id token : String}
    (h : r.step s (.unregister id token) = some t) :
    s.cancelled (s.sessions - 1) = true := by
  simp only [Registrant.step] at h
  split at h
  · next hguard => exact hguard.2
  · cases h

/-! ## With a locker -/

/-- Whoever has returned was told to stop. -/
def Heeds (s : Replica) : Prop := s.at_ = .returned → s.stopped = true

theorem heeds_step (hlocker : r.locker = true) (s : Replica) (a : Action)
    (t : Replica) (hs : Heeds s) (h : r.step s a = some t) : Heeds t := by
  intro hat
  refine stopped_step h ?_
  have hgoes := (goes_of_step h).1
  rw [hat] at hgoes
  generalize hplace : At.returned = place at hgoes
  cases hgoes with
  | stay => exact hs hplace.symm
  | stop => exact stopped_of_check h hat
  | stopWait => exact stopped_of_stopWait h
  | close =>
      rw [hlocker] at hplace
      cases hplace
  | registerFailed | deactivate =>
      rw [Registrant.unwind, hlocker] at hplace
      cases hplace
  | _ => cases hplace

/-! ## Without a locker -/

section Alone

variable (hlocker : r.locker = false)

/-- Without a locker nothing extends a lock, and the context of a session
follows that of `supervise`. -/
structure Follows (s : Replica) : Prop where
  off : ∀ k, s.extender k = .off
  cancelled : ∀ k, s.cancelled k = true → s.stopped = true

include hlocker in
theorem follows_step (hs : Follows s) (hclose : a = .close → s.stopped = true)
    (h : r.step s a = some t) : Follows t := by
  cases a with
  | cancel =>
      cases h
      exact ⟨hs.off, fun _ _ => rfl⟩
  | propagate session =>
      simp only [Registrant.step] at h
      split at h
      · next hguard =>
          cases h
          exact ⟨hs.off, fun _ _ => hguard.1⟩
      · cases h
  | register request =>
      simp only [Registrant.step] at h
      split at h
      · split at h
        · cases h
          refine ⟨?_, ?_⟩
          · intro k
            by_cases hk : k = s.sessions
            · simp [hk, hlocker]
            · simp [hk, hs.off k]
          · intro k hcancelled
            by_cases hk : k = s.sessions
            · simpa [hk] using hcancelled
            · exact hs.cancelled k (by simpa [hk] using hcancelled)
        · cases h
      · cases h
  | close =>
      have hstopped := hclose rfl
      simp only [Registrant.step] at h
      split at h
      · cases h
        exact ⟨hs.off, fun _ _ => hstopped⟩
      · cases h
  | extend session | extendReturn session ok | extendCancel session
  | extendLeave session =>
      simp only [Registrant.step, hs.off session] at h
      cases h
  | _ =>
      simp only [Registrant.step] at h
      (repeat' split at h) <;> cases h <;> exact ⟨hs.off, hs.cancelled⟩

/-- Where a replica without a locker can be: before the answer of `Register`,
in its session, or on its way out and told to stop. -/
def At.alone (stopped : Bool) (calls : Nat) : At → Prop
  | .top | .starting | .registering => calls = 0
  | .activating .. | .serving .. | .heartbeating .. => True
  | .unregistering .. | .deactivating | .closing | .returned => stopped = true
  | .trying | .waiting | .releasing | .unlocking => False

theorem At.alone.mono {stopped stopped' : Bool} {calls : Nat} {place : At}
    (h : place.alone stopped calls) (hle : stopped = true → stopped' = true) :
    place.alone stopped' calls := by
  cases place <;> first | exact h | exact hle h

include hlocker in
theorem alone_step {calls : Nat} (hfollows : Follows s)
    (hs : s.at_.alone s.stopped calls)
    (hfirst : ∀ answer, a = .registerReturn answer → calls = 0 →
      (registered answer).isSome) (h : r.step s a = some t) :
    t.at_.alone s.stopped (calls + a.registerAnswer.toList.length) := by
  have hgoes := (goes_of_step h).1
  generalize hplace : t.at_ = place at hgoes ⊢
  cases hgoes with
  | stay ha => cases a <;> first | exact hs | cases ha
  | stop => exact stopped_of_check h hplace
  | compete _ hlocked => rw [hlocker] at hlocked; cases hlocked
  | unregister => exact hfollows.cancelled _ (cancelled_of_unregister h)
  | registerFailed hat hfail =>
      rw [hat] at hs
      have hsome := hfirst _ rfl hs
      rw [hfail] at hsome
      cases hsome
  | deactivate hat =>
      rw [hat] at hs
      rw [Registrant.unwind, hlocker]
      exact hs
  | close hat =>
      rw [hat] at hs
      rw [hlocker]
      exact hs
  | registered | activate | heartbeat | heartbeatReturn => trivial
  | alone hat | register hat | unregisterReturn hat =>
      rw [hat] at hs
      exact hs
  | acquired hat | refused hat | timer hat | stopWait hat | unlock hat
  | unlockReturn hat =>
      rw [hat] at hs
      cases hs

theorem stopped_of_close {calls : Nat} (hs : s.at_.alone s.stopped calls)
    (h : r.step s .close = some t) : s.stopped = true := by
  simp only [Registrant.step] at h
  split at h
  · next hat =>
      rw [hat] at hs
      exact hs
  · cases h

include hlocker in
theorem alone_run {answers : Nat → Option (String × String)}
    (hfirst : (registered (answers 0)).isSome) {as : List Action}
    (hrun : run r.step {} as = some s) (has : Answered answers as) :
    Follows s ∧ s.at_.alone s.stopped (registerAnswers as).length := by
  revert has
  refine run_history (P := fun as s => Answered answers as → Follows s ∧
    s.at_.alone s.stopped (registerAnswers as).length) ?_ ?_ hrun
  · exact fun _ => ⟨⟨fun _ => rfl, by simp⟩, rfl⟩
  · intro pre m a t hpre ih h has
    obtain ⟨hfollows, halone⟩ := ih has.of_snoc
    refine ⟨follows_step hlocker hfollows ?_ h, ?_⟩
    · rintro rfl
      exact stopped_of_close halone h
    · have hnext := alone_step hlocker hfollows halone ?_ h
      · rw [registerAnswers_snoc, List.length_append]
        exact hnext.mono (stopped_step h)
      · rintro answer rfl hcalls
        rw [has.last, hcalls]
        exact hfirst

end Alone

/-- For any answers of the registry: `supervise` returns only after its context
has been cancelled, whatever else happens, exactly when there is a locker or
the first call of `Register` succeeds. -/
theorem keeps_trying_iff (r : Registrant)
    (answers : Nat → Option (String × String)) :
    (∀ as s, run r.step {} as = some s → Answered answers as →
      s.at_ = .returned → s.stopped = true) ↔
    r.locker = true ∨ (registered (answers 0)).isSome := by
  constructor
  · intro h
    by_contra hnot
    obtain ⟨hlocker, hfail⟩ := not_or.mp hnot
    rw [Bool.not_eq_true] at hlocker
    rw [Bool.not_eq_true, Option.isSome_eq_false_iff, Option.isNone_iff_eq_none]
      at hfail
    obtain ⟨s, hrun, hat, hgoing⟩ : ∃ s, run r.step {} [.check,
        .register r.registerRequest, .registerReturn (answers 0), .close] =
          some s ∧ s.at_ = .returned ∧ s.stopped = false := by
      simp [run, Registrant.step, Registrant.unwind, hlocker, hfail]
    have has : Answered answers [.check, .register r.registerRequest,
        .registerReturn (answers 0), .close] := by
      intro i answer hi
      cases i with
      | zero => exact (Option.some.inj hi).symm
      | succ i => cases hi
    have hstopped := h _ s hrun has hat
    rw [hgoing] at hstopped
    cases hstopped
  · rintro (hlocker | hfirst) as s hrun has hat
    · exact run_inv_of (heeds_step hlocker) (fun h => by cases h) hrun hat
    · cases hlocker : r.locker with
      | true =>
          exact run_inv_of (heeds_step hlocker) (fun h => by cases h) hrun hat
      | false =>
          obtain ⟨-, halone⟩ := alone_run hlocker hfirst hrun has
          rw [hat] at halone
          exact halone

/-- A provider without a locker whose first call of `Register` fails. -/
theorem gives_up_alone :
    ∃ r, new {
        serviceName := "orders", target := "orders:9090"
        capabilities := [[1]] } false false = .ok r ∧
      ∃ s, run r.step {} [.check, .register r.registerRequest,
          .registerReturn none, .close] = some s ∧
        s.at_ = .returned ∧ s.stopped = false :=
  ⟨_, rfl, _, rfl, rfl, rfl⟩

end PlatformGo.DictionaryProvider
