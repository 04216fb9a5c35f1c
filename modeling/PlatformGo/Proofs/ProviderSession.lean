import PlatformGo.Ref.DictionaryProvider

/-!
# One session at a time, properly bracketed

A replica walks through a session in one order, so where it is tells whether
it is inside one: between a register that succeeded and the return of the
unregister that answers it. What a replica has called, in which order and with
which arguments is a matter of its own run (`run_own`); the brackets are
proved there. That two replicas are not inside together is a matter of the
lock: a replica holds it from the grant to the call of `Unlock`, and the
inside lies in that stretch because the deferred unlock runs after the
deferred unregister.
-/

namespace PlatformGo.DictionaryProvider

open Lts

variable {r : Registrant} {s t : Replica} {a : Action}

/-! ## Steps of a replica -/

/-- The actions of the contexts and of the goroutines that extend the lock. -/
def Action.background : Action → Bool
  | .cancel | .propagate _ | .extend _ | .extendReturn .. | .extendCancel _
  | .extendLeave _ => true
  | _ => false

/-- Where a step takes a replica. -/
inductive Goes (r : Registrant) (s : Replica) : Action → At → Prop
  | stay {a : Action} (ha : a.background = true) : Goes r s a s.at_
  | stop (h : s.at_ = .top) : Goes r s .check .returned
  | compete (h : s.at_ = .top) (hlocker : r.locker = true) :
      Goes r s .check .trying
  | alone (h : s.at_ = .top) (hlocker : r.locker = false) :
      Goes r s .check .starting
  | acquired (h : s.at_ = .trying) :
      Goes r s (.tryLockReturn .acquired) .starting
  | refused {answer : Answer} (h : s.at_ = .trying)
      (hanswer : answer ≠ .acquired) :
      Goes r s (.tryLockReturn answer) .waiting
  | timer (h : s.at_ = .waiting) : Goes r s .timer .top
  | stopWait (h : s.at_ = .waiting) : Goes r s .stopWait .returned
  | register (h : s.at_ = .starting) :
      Goes r s (.register r.registerRequest) .registering
  | registered {answer : Option (String × String)} {id token : String}
      (h : s.at_ = .registering) (hok : registered answer = some (id, token)) :
      Goes r s (.registerReturn answer) (.activating id token)
  | registerFailed {answer : Option (String × String)}
      (h : s.at_ = .registering) (hfail : registered answer = none) :
      Goes r s (.registerReturn answer) r.unwind
  | activate {id token : String} (h : s.at_ = .activating id token) :
      Goes r s .activate (.serving id token)
  | heartbeat {id token : String} {leaseSeconds : Nat}
      (h : s.at_ = .serving id token) :
      Goes r s (.heartbeat id token leaseSeconds) (.heartbeating id token)
  | heartbeatReturn {id token : String} {ok : Bool}
      (h : s.at_ = .heartbeating id token) :
      Goes r s (.heartbeatReturn ok) (.serving id token)
  | unregister {id token : String} (h : s.at_ = .serving id token) :
      Goes r s (.unregister id token) (.unregistering id token)
  | unregisterReturn {id token : String} {ok : Bool}
      (h : s.at_ = .unregistering id token) :
      Goes r s (.unregisterReturn ok) .deactivating
  | deactivate (h : s.at_ = .deactivating) : Goes r s .deactivate r.unwind
  | unlock (h : s.at_ = .releasing) : Goes r s .unlock .unlocking
  | unlockReturn {ok : Bool} (h : s.at_ = .unlocking) :
      Goes r s (.unlockReturn ok) .closing
  | close (h : s.at_ = .closing) :
      Goes r s .close (if r.locker then .waiting else .returned)

/-- The active flag after an action. -/
def Action.activeAfter (a : Action) (active : Bool) : Bool :=
  match a with
  | .activate => true
  | .deactivate => false
  | _ => active

theorem goes_of_step (h : r.step s a = some t) :
    Goes r s a t.at_ ∧ t.active = a.activeAfter s.active := by
  cases a with
  | cancel =>
      cases h
      exact ⟨.stay rfl, rfl⟩
  | check =>
      simp only [Registrant.step] at h
      split at h
      · next hat =>
          split at h
          · cases h
            exact ⟨.stop hat, rfl⟩
          · split at h
            · next hlocker =>
                cases h
                exact ⟨.compete hat hlocker, rfl⟩
            · next hlocker =>
                cases h
                exact ⟨.alone hat (by simpa using hlocker), rfl⟩
      · cases h
  | tryLockReturn answer =>
      simp only [Registrant.step] at h
      split at h
      · next hat =>
          cases h
          exact ⟨.acquired hat, rfl⟩
      · next hat hanswer =>
          cases h
          exact ⟨.refused hat hanswer, rfl⟩
      · cases h
  | register request =>
      simp only [Registrant.step] at h
      split at h
      · next hat =>
          split at h
          · next hrequest =>
              cases h
              exact ⟨hrequest ▸ .register hat, rfl⟩
          · cases h
      · cases h
  | registerReturn answer =>
      simp only [Registrant.step] at h
      split at h
      · next hat hok =>
          cases h
          exact ⟨.registered hat hok, rfl⟩
      · next hat hfail =>
          cases h
          exact ⟨.registerFailed hat hfail, rfl⟩
      · cases h
  | heartbeat id token leaseSeconds =>
      simp only [Registrant.step] at h
      split at h
      · next hat =>
          cases h
          exact ⟨.heartbeat hat.1, rfl⟩
      · cases h
  | unregister id token =>
      simp only [Registrant.step] at h
      split at h
      · next hat =>
          cases h
          exact ⟨.unregister hat.1, rfl⟩
      · cases h
  | stopWait =>
      simp only [Registrant.step] at h
      split at h
      · next hat _ =>
          cases h
          exact ⟨.stopWait hat, rfl⟩
      · cases h
  | timer | activate | heartbeatReturn ok | unregisterReturn ok
  | deactivate | unlock | unlockReturn ok | close =>
      simp only [Registrant.step] at h
      split at h
      · next hat =>
          cases h
          refine ⟨?_, rfl⟩
          constructor
          exact hat
      · cases h
  | propagate | extend | extendReturn | extendCancel | extendLeave =>
      simp only [Registrant.step] at h
      split at h
      · cases h
        exact ⟨.stay rfl, rfl⟩
      · cases h

/-! ## The run of one replica -/

/-- Between a register that succeeded and the call of its unregister. -/
def At.holds (id token : String) : At → Prop
  | .activating id' token' | .serving id' token' | .heartbeating id' token' =>
      id' = id ∧ token' = token
  | _ => False

/-- Between a register that succeeded and the return of its unregister. -/
def At.inside : At → Bool
  | .activating .. | .serving .. | .heartbeating .. | .unregistering .. => true
  | _ => false

/-- An action that is the success of a register. -/
def Action.opens : Action → Bool
  | .registerReturn answer => (registered answer).isSome
  | _ => false

def Action.closes : Action → Bool
  | .unregisterReturn _ => true
  | _ => false

theorem inside_unwind (r : Registrant) : r.unwind.inside = false := by
  rw [Registrant.unwind]
  split <;> rfl

section

variable {place : At}

theorem Goes.inside (h : Goes r s a place) :
    s.at_.inside.toNat + a.opens.toNat =
      place.inside.toNat + a.closes.toNat := by
  cases h with
  | stay ha => cases a <;> first | rfl | cases ha
  | registered h hok =>
      rw [h]
      simp [At.inside, Action.opens, Action.closes, hok]
  | registerFailed h hfail =>
      rw [h, inside_unwind]
      simp [At.inside, Action.opens, Action.closes, hfail]
  | deactivate h =>
      rw [h, inside_unwind]
      rfl
  | close h =>
      rw [h]
      cases r.locker <;> rfl
  | _ h => rw [h]; rfl

/-- Where the active flag may be set. -/
def At.mayBeActive : At → Bool
  | .serving .. | .heartbeating .. | .unregistering .. | .deactivating => true
  | _ => false

theorem Goes.mayBeActive (h : Goes r s a place)
    (hs : s.active = true → s.at_.mayBeActive = true)
    (hactive : a.activeAfter s.active = true) :
    place.mayBeActive = true := by
  cases h with
  | stay ha =>
      refine hs ?_
      cases a <;> first | exact hactive | cases ha
  | activate | heartbeat | heartbeatReturn | unregister
  | unregisterReturn => rfl
  | deactivate => cases hactive
  | _ h =>
      have hplace := hs hactive
      rw [h] at hplace
      cases hplace

/-! ### Brackets -/

/-- The calls the brackets are made of. -/
def Action.mark : Action → Bool
  | .register _ | .unregister .. => true
  | _ => false

theorem mark_of_background (h : a.background = true) : a.mark = false := by
  cases a <;> first | rfl | cases h

theorem Goes.holds (h : Goes r s a place) {id token : String}
    (hs : s.at_.holds id token) :
    (a.mark = false ∧ place.holds id token) ∨
      (a = .unregister id token ∧ place = .unregistering id token) := by
  cases h with
  | stay ha => exact Or.inl ⟨mark_of_background ha, hs⟩
  | unregister h =>
      rw [h] at hs
      obtain ⟨rfl, rfl⟩ := hs
      exact Or.inr ⟨rfl, rfl⟩
  | activate h | heartbeat h | heartbeatReturn h =>
      rw [h] at hs
      exact Or.inl ⟨rfl, hs⟩
  | _ h =>
      rw [h] at hs
      cases hs

/-- Not in a session, or past the call of its unregister. -/
def At.outside : At → Bool
  | .registering | .activating .. | .serving .. | .heartbeating .. => false
  | _ => true

theorem outside_unwind (r : Registrant) : r.unwind.outside = true := by
  rw [Registrant.unwind]
  split <;> rfl

theorem Goes.outside (h : Goes r s a place) (hs : s.at_.outside = true) :
    (∃ request, a = .register request) ∨
      (a.mark = false ∧ place.outside = true) := by
  cases h with
  | stay ha => exact Or.inr ⟨mark_of_background ha, hs⟩
  | register => exact Or.inl ⟨_, rfl⟩
  | registered h | registerFailed h | activate h | heartbeat h
  | heartbeatReturn h | unregister h =>
      rw [h] at hs
      cases hs
  | deactivate => exact Or.inr ⟨rfl, outside_unwind r⟩
  | close => exact Or.inr ⟨rfl, by split <;> rfl⟩
  | _ => exact Or.inr ⟨rfl, rfl⟩

end

/-- The first mark from outside a session is a register. -/
theorem marks_outside {as : List Action} (hs : s.at_.outside = true)
    (hrun : run r.step s as = some t) :
    ∀ b ∈ (as.filter Action.mark).head?, ∃ request, b = .register request := by
  induction as generalizing s with
  | nil => simp
  | cons a as ih =>
      obtain ⟨m, hm, hrest⟩ := run_cons.mp hrun
      rcases (goes_of_step hm).1.outside hs with ⟨request, rfl⟩ | ⟨ha, hout⟩
      · intro b hb
        rw [List.filter_cons_of_pos rfl, List.head?_cons,
          Option.mem_some_iff] at hb
        exact ⟨request, hb.symm⟩
      · rw [List.filter_cons_of_neg (by simp [ha])]
        exact ih hout hrest

/-- The first mark from inside a session is its unregister, and the next one
is a register. -/
theorem marks_holds {as : List Action} {id token : String}
    (hs : s.at_.holds id token) (hrun : run r.step s as = some t) :
    (as.filter Action.mark = [] ∧ t.at_.holds id token) ∨
    ∃ rest, as.filter Action.mark = .unregister id token :: rest ∧
      ∀ b ∈ rest.head?, ∃ request, b = .register request := by
  induction as generalizing s with
  | nil =>
      rw [run_nil, Option.some.injEq] at hrun
      exact Or.inl ⟨rfl, hrun ▸ hs⟩
  | cons a as ih =>
      obtain ⟨m, hm, hrest⟩ := run_cons.mp hrun
      rcases (goes_of_step hm).1.holds hs with ⟨ha, hin⟩ | ⟨rfl, hout⟩
      · rw [List.filter_cons_of_neg (by simp [ha])]
        exact ih hin hrest
      · refine Or.inr ⟨as.filter Action.mark,
          List.filter_cons_of_pos rfl, ?_⟩
        exact marks_outside (by rw [hout]; rfl) hrest

/-! ### What a run says of its replica -/

theorem count_run {as : List Action} (hrun : run r.step {} as = some s) :
    as.countP Action.opens = as.countP Action.closes +
      s.at_.inside.toNat := by
  refine run_history (P := fun as s => as.countP Action.opens =
    as.countP Action.closes + s.at_.inside.toNat) rfl ?_ hrun
  intro pre m a t _ ih hstep
  have hinside := (goes_of_step hstep).1.inside
  rw [List.countP_append, List.countP_append, List.countP_singleton,
    List.countP_singleton, ih]
  cases hopens : a.opens <;> cases hcloses : a.closes <;>
    simp [hopens, hcloses] at hinside ⊢ <;> omega

theorem mayBeActive_run {as : List Action}
    (hrun : run r.step {} as = some s) (hactive : s.active = true) :
    s.at_.mayBeActive = true := by
  refine run_inv_of (I := fun s => s.active = true →
    s.at_.mayBeActive = true) ?_ (fun h => by cases h) hrun hactive
  intro s a t hs hstep ht
  obtain ⟨hgoes, hkept⟩ := goes_of_step hstep
  exact hgoes.mayBeActive hs (hkept ▸ ht)

/-! ## The lock -/

/-- From the grant to the call of `Unlock`, where there is a locker. -/
def At.locked : At → Bool
  | .starting | .registering | .activating .. | .serving .. | .heartbeating ..
  | .unregistering .. | .deactivating | .releasing => true
  | _ => false

theorem At.locked_of_inside {place : At} (h : place.inside = true) :
    place.locked = true := by
  cases place <;> first | rfl | cases h

/-- How a step of a replica with a locker changes what it holds. -/
theorem Goes.locked {place : At} (h : Goes r s a place)
    (hlocker : r.locker = true) :
    (a = .tryLockReturn .acquired ∧ place.locked = true) ∨
    (a = .unlock ∧ s.at_.locked = true ∧ place.locked = false) ∨
    (a ≠ .tryLockReturn .acquired ∧ a ≠ .unlock ∧
      place.locked = s.at_.locked) := by
  have hunwind : r.unwind.locked = true := by
    rw [Registrant.unwind, if_pos hlocker]
    rfl
  cases h with
  | stay ha =>
      refine Or.inr (Or.inr ⟨?_, ?_, rfl⟩) <;>
        · rintro rfl
          cases ha
  | acquired h => exact Or.inl ⟨rfl, rfl⟩
  | unlock h => exact Or.inr (Or.inl ⟨rfl, by rw [h]; rfl, rfl⟩)
  | alone h hnone =>
      rw [hlocker] at hnone
      cases hnone
  | refused h hanswer =>
      exact Or.inr (Or.inr ⟨by simpa using hanswer, by simp, by rw [h]; rfl⟩)
  | registerFailed h | deactivate h =>
      exact Or.inr (Or.inr ⟨by simp, by simp, by rw [h, hunwind]; rfl⟩)
  | close h =>
      exact Or.inr (Or.inr ⟨by simp, by simp, by rw [h, hlocker]; rfl⟩)
  | _ h => exact Or.inr (Or.inr ⟨by simp, by simp, by rw [h]; rfl⟩)

/-- Without a locker the lock is left alone. -/
def At.lockless : At → Bool
  | .trying | .releasing | .unlocking => false
  | _ => true

theorem Goes.lockless {place : At} (h : Goes r s a place)
    (hlocker : r.locker = false) (hs : s.at_.lockless = true) :
    place.lockless = true ∧ a ≠ .tryLockReturn .acquired ∧ a ≠ .unlock := by
  have hunwind : r.unwind.lockless = true := by
    rw [Registrant.unwind, hlocker]
    rfl
  cases h with
  | stay ha =>
      refine ⟨hs, ?_, ?_⟩ <;>
        · rintro rfl
          cases ha
  | compete h hsome =>
      rw [hlocker] at hsome
      cases hsome
  | acquired h | refused h | unlock h | unlockReturn h =>
      rw [h] at hs
      cases hs
  | registerFailed h | deactivate h => exact ⟨hunwind, by simp, by simp⟩
  | close h => exact ⟨by rw [hlocker]; rfl, by simp, by simp⟩
  | _ h => exact ⟨rfl, by simp, by simp⟩

variable {rs : Nat → Registrant} {c c' : Cluster}

/-- What a step of the cluster does to the replicas and to the lock. -/
theorem cluster_step {n : Nat} (h : c.step rs (n, a) = some c') :
    (rs n).step (c.replicas n) a = some (c'.replicas n) ∧
    (∀ m, m ≠ n → c'.replicas m = c.replicas m) ∧
    ((a = .tryLockReturn .acquired ∧
        c.holder (rs n).config.leaderLockKey = none ∧
        c'.holder = Function.update c.holder (rs n).config.leaderLockKey
          (some n)) ∨
      (a = .unlock ∧
        c'.holder = Function.update c.holder (rs n).config.leaderLockKey
          none) ∨
      (a ≠ .tryLockReturn .acquired ∧ a ≠ .unlock ∧
        c'.holder = c.holder)) := by
  rw [Cluster.step, Option.bind_eq_some_iff] at h
  obtain ⟨s, hs, h⟩ := h
  simp only [] at h
  split at h
  · split at h
    · next hfree =>
        cases h
        refine ⟨by simpa using hs, fun m hm => ?_, Or.inl ⟨rfl, hfree, rfl⟩⟩
        exact Function.update_of_ne hm ..
    · cases h
  · cases h
    refine ⟨by simpa using hs, fun m hm => ?_, Or.inr (Or.inl ⟨rfl, rfl⟩)⟩
    exact Function.update_of_ne hm ..
  · next hgrant hunlock =>
      cases h
      refine ⟨by simpa using hs, fun m hm => ?_,
        Or.inr (Or.inr ⟨hgrant, hunlock, rfl⟩)⟩
      exact Function.update_of_ne hm ..

/-- Who is locked in holds its key, and replicas without a locker keep away
from it. -/
structure LockInv (rs : Nat → Registrant) (c : Cluster) : Prop where
  holder : ∀ n, (rs n).locker = true → (c.replicas n).at_.locked = true →
    c.holder (rs n).config.leaderLockKey = some n
  lockless : ∀ n, (rs n).locker = false →
    (c.replicas n).at_.lockless = true

theorem lockInv_init (rs : Nat → Registrant) : LockInv rs {} where
  holder _ _ h := by cases h
  lockless _ _ := rfl

theorem lockInv_step (c : Cluster) (p : Nat × Action) (c' : Cluster)
    (hc : LockInv rs c) (h : c.step rs p = some c') : LockInv rs c' := by
  obtain ⟨n, a⟩ := p
  obtain ⟨hstep, hothers, hholder⟩ := cluster_step h
  have hgoes := (goes_of_step hstep).1
  have hlockless : ∀ m, (rs m).locker = false →
      (c'.replicas m).at_.lockless = true := by
    intro m hm
    by_cases hn : m = n
    · subst hn
      exact (hgoes.lockless hm (hc.lockless m hm)).1
    · rw [hothers m hn]
      exact hc.lockless m hm
  refine ⟨fun m hm hlocked => ?_, hlockless⟩
  have hheld : m ≠ n → c.holder (rs m).config.leaderLockKey = some m :=
    fun hne => hc.holder m hm (hothers m hne ▸ hlocked)
  rcases hholder with ⟨rfl, hfree, hnew⟩ | ⟨rfl, hnew⟩ | ⟨ha, ha', hnew⟩
  · -- A grant: the key was free, so nobody else is locked in with it.
    by_cases hne : m = n
    · subst hne
      rw [hnew, Function.update_self]
    · have hkey : (rs m).config.leaderLockKey ≠
          (rs n).config.leaderLockKey := by
        intro hkey
        have hold := hheld hne
        rw [hkey, hfree] at hold
        cases hold
      rw [hnew, Function.update_of_ne hkey, hheld hne]
  · -- An unlock: it is the holder's.
    cases hlocker : (rs n).locker with
    | false =>
        exact absurd rfl
          (hgoes.lockless hlocker (hc.lockless n hlocker)).2.2
    | true =>
        rcases hgoes.locked hlocker with ⟨hcontra, _⟩ | ⟨_, hbefore, hafter⟩ |
          ⟨_, hcontra, _⟩
        · cases hcontra
        · have hown := hc.holder n hlocker hbefore
          have hne : m ≠ n := by
            rintro rfl
            rw [hafter] at hlocked
            cases hlocked
          have hkey : (rs m).config.leaderLockKey ≠
              (rs n).config.leaderLockKey := by
            intro hkey
            have hold := hheld hne
            rw [hkey, hown, Option.some.injEq] at hold
            exact hne hold.symm
          rw [hnew, Function.update_of_ne hkey, hheld hne]
        · exact absurd rfl hcontra
  · rw [hnew]
    by_cases hne : m = n
    · subst hne
      rcases hgoes.locked hm with ⟨hcontra, _⟩ | ⟨hcontra, _⟩ | ⟨_, _, hsame⟩
      · exact absurd hcontra ha
      · exact absurd hcontra ha'
      · exact hc.holder m hm (hsame ▸ hlocked)
    · exact hheld hne

theorem lockInv_run {as : List (Nat × Action)}
    (hrun : run (Cluster.step rs) {} as = some c) : LockInv rs c :=
  run_inv_of lockInv_step (lockInv_init rs) hrun

/-! ## The sessions of a cluster -/

/-- The replica is between a register that succeeded and the return of its
unregister: one more of the former has happened than of the latter. -/
def Between (n : Nat) (as : List (Nat × Action)) : Prop :=
  (own n as).countP Action.closes < (own n as).countP Action.opens

instance (n : Nat) (as : List (Nat × Action)) : Decidable (Between n as) :=
  Nat.decLt _ _

theorem replica_run {as : List (Nat × Action)}
    (hrun : run (Cluster.step rs) {} as = some c) (n : Nat) :
    run (rs n).step {} (own n as) = some (c.replicas n) :=
  run_own (fun n => (rs n).step) Cluster.replicas
    (fun _ _ _ _ h => (cluster_step h).1)
    (fun _ _ _ _ h => (cluster_step h).2.1) n hrun

theorem between_iff {as : List (Nat × Action)}
    (hrun : run (Cluster.step rs) {} as = some c) (n : Nat) :
    Between n as ↔ (c.replicas n).at_.inside = true := by
  have hcount := count_run (replica_run hrun n)
  rw [Between, hcount]
  cases (c.replicas n).at_.inside <;> simp

section

variable {as : List (Nat × Action)}

/-- Replicas with the same key are not in a session together. -/
theorem between_unique (hrun : run (Cluster.step rs) {} as = some c)
    {n m : Nat} (hn : (rs n).locker = true) (hm : (rs m).locker = true)
    (hkey : (rs n).config.leaderLockKey = (rs m).config.leaderLockKey)
    (hbn : Between n as) (hbm : Between m as) : n = m := by
  have hinv := lockInv_run hrun
  have hheldn := hinv.holder n hn
    (At.locked_of_inside ((between_iff hrun n).mp hbn))
  have hheldm := hinv.holder m hm
    (At.locked_of_inside ((between_iff hrun m).mp hbm))
  rw [hkey, hheldm, Option.some.injEq] at hheldn
  exact hheldn.symm

/-- What follows a register that has succeeded. -/
theorem register_bracket {pre post : List Action}
    {answer : Option (String × String)} {id token : String}
    (hrun : run r.step {} (pre ++ .registerReturn answer :: post) = some s)
    (hok : registered answer = some (id, token)) :
    (post.filter Action.mark = [] ∧ s.at_ ≠ .returned) ∨
    ∃ rest, post.filter Action.mark = .unregister id token :: rest ∧
      ∀ b ∈ rest.head?, ∃ request, b = .register request := by
  obtain ⟨m, _, hrest⟩ := run_append.mp hrun
  obtain ⟨u, hu, hpost⟩ := run_cons.mp hrest
  have hin : u.at_.holds id token := by
    generalize u.at_ = place, (goes_of_step hu).1 = hgoes
    cases hgoes with
    | stay ha => cases ha
    | registered _ hok' =>
        rw [hok, Option.some.injEq, Prod.mk.injEq] at hok'
        exact ⟨hok'.1.symm, hok'.2.symm⟩
    | registerFailed _ hfail =>
        rw [hok] at hfail
        cases hfail
  refine (marks_holds hin hpost).imp_left fun ⟨hnone, hend⟩ =>
    ⟨hnone, fun hret => ?_⟩
  rw [hret] at hend
  exact hend

/-- `Unlock` is called outside a session. -/
theorem unlock_balanced {pre post : List Action}
    (hrun : run r.step {} (pre ++ .unlock :: post) = some s) :
    pre.countP Action.opens = pre.countP Action.closes := by
  obtain ⟨m, hm, hrest⟩ := run_append.mp hrun
  obtain ⟨u, hu, _⟩ := run_cons.mp hrest
  have hat : m.at_ = .releasing := by
    generalize u.at_ = place, (goes_of_step hu).1 = hgoes
    cases hgoes with
    | stay ha => cases ha
    | unlock hat => exact hat
  rw [count_run hm, hat]
  rfl

theorem active_between (hrun : run (Cluster.step rs) {} as = some c) {n : Nat}
    (hactive : (c.replicas n).active = true) :
    Between n as ∨ (c.replicas n).at_ = .deactivating := by
  have hat := mayBeActive_run (replica_run hrun n) hactive
  rw [between_iff hrun n]
  cases hplace : (c.replicas n).at_ <;> rw [hplace] at hat <;>
    first | exact Or.inl rfl | exact Or.inr rfl | cases hat

end

/-- Any number of replicas over one locker, after any run.
Replicas with the same leader key are not between a register that succeeded
and the return of its unregister together. After a register that succeeded,
the next call of that replica to register or unregister is the unregister with
the same id and token, the one after that, if any, is a register, and until
the first has come `supervise` has not returned. `Unlock` is called only when
as many unregisters have returned as registers have succeeded. And the active
flag is set only in between, or before the store that follows. -/
theorem sessions_bracketed {rs : Nat → Registrant} {c : Cluster}
    {as : List (Nat × Action)}
    (hrun : run (Cluster.step rs) {} as = some c) :
    (∀ n m, (rs n).locker = true → (rs m).locker = true →
      (rs n).config.leaderLockKey = (rs m).config.leaderLockKey →
      Between n as → Between m as → n = m) ∧
    (∀ n pre post answer id token,
      own n as = pre ++ .registerReturn answer :: post →
      registered answer = some (id, token) →
      (post.filter Action.mark = [] ∧ (c.replicas n).at_ ≠ .returned) ∨
      ∃ rest, post.filter Action.mark = .unregister id token :: rest ∧
        ∀ b ∈ rest.head?, ∃ request, b = .register request) ∧
    (∀ n pre post, own n as = pre ++ .unlock :: post →
      pre.countP Action.opens = pre.countP Action.closes) ∧
    (∀ n, (c.replicas n).active = true →
      Between n as ∨ (c.replicas n).at_ = .deactivating) := by
  refine ⟨fun n m => between_unique hrun, ?_, ?_,
    fun n => active_between hrun⟩
  · intro n pre post answer id token hown hok
    exact register_bracket (hown ▸ replica_run hrun n) hok
  · intro n pre post hown
    exact unlock_balanced (hown ▸ replica_run hrun n)

/-- Replicas of one provider, all with the same settings. -/
def regions : Registrant where
  config := Config.defaults
    { serviceName := "regions", target := "dns:///regions:9090"
      capabilities := [[]] }
  locker := true

/-- The first replica loses its lock to a failed extension and gives up its
session; then the second one registers. -/
def handover : List (Nat × Action) :=
  [(0, .check), (1, .check), (0, .tryLockReturn .acquired),
   (1, .tryLockReturn .taken), (0, .register regions.registerRequest),
   (0, .registerReturn (some ("provider-1", "token-1"))), (0, .activate),
   (0, .extend 0), (0, .extendReturn 0 false), (0, .extendCancel 0),
   (0, .unregister "provider-1" "token-1"), (0, .unregisterReturn true),
   (0, .deactivate), (0, .unlock), (1, .timer), (1, .check),
   (1, .tryLockReturn .acquired), (1, .register regions.registerRequest),
   (1, .registerReturn (some ("provider-1", "token-2"))), (1, .activate)]

theorem sessions_bracketed_handover : ∃ c,
    run (Cluster.step fun _ => regions) {} handover = some c ∧
    (c.replicas 1).active = true ∧ Between 1 handover ∧
    ∀ n, Between n handover → n = 1 := by
  obtain ⟨c, hrun, hactive⟩ : ∃ c,
      run (Cluster.step fun _ => regions) {} handover = some c ∧
        (c.replicas 1).active = true := ⟨_, rfl, rfl⟩
  have hbetween : Between 1 handover := by decide
  exact ⟨c, hrun, hactive, hbetween, fun n hn =>
    (sessions_bracketed hrun).1 n 1 rfl rfl rfl hn hbetween⟩

end PlatformGo.DictionaryProvider
