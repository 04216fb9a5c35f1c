import PlatformGo.Ref.Distlock

/-!
# The protocol of a lease

`Move` says once what a step can do. Over it stand an invariant of the state
(`Inv`: which program counters go together, what the channel can hold and when
the lease context is cancelled) and what a state tells about the actions that
led to it (`Caller.events`: the calls the caller has made, in their order, are
read off its program counter).

An extension that fails is reported if and only if the goroutine then found
the lease context live. That error stands in the goroutine's program counter,
in the channel or in the caller's variable, and it never gets lost between
them (`Lease.reported`).
-/

namespace PlatformGo.Distlock

open Lts

variable {c : Call} {s t : Lease} {a : Action}

/-! ## Steps -/

inductive Move (c : Call) (s : Lease) : Action → Lease → Prop
  | invalid {err : GoErr} (h : s.caller = .validating)
      (herr : c.validateLeaseInputs = some err) :
      Move c s .validate { s with caller := .refused false (some err) }
  | valid (h : s.caller = .validating)
      (hok : c.validateLeaseInputs = none) :
      Move c s .validate { s with caller := .locking }
  | lockReturn {acquired : Bool} {err : Option GoErr}
      (h : s.caller = .locking) :
      Move c s (.lockReturn acquired err)
        { s with caller := c.entry.lockAnswer acquired err }
  | callback (h : s.caller = .holding) :
      Move c s .callback { s with
        caller := .running, renewal := .selecting
        ticker := some c.interval, lease := s.parent }
  | callbackReturn {err : Option GoErr} (h : s.caller = .running) :
      Move c s (.callbackReturn err) { s with caller := .calledBack err }
  | callbackPanic (h : s.caller = .running) :
      Move c s .callbackPanic { s with caller := .panicked }
  | parentCancel {cause : GoErr} :
      Move c s (.parentCancel cause)
        { s with parent := cancelWith s.parent cause }
  | propagate {cause : GoErr} (h : s.renewal ≠ .off)
      (hparent : s.parent = some cause) :
      Move c s .propagate { s with lease := cancelWith s.lease cause }
  | cancelNil {callbackErr : Option GoErr}
      (h : s.caller = .calledBack callbackErr) :
      Move c s .cancelNil { s with
        caller := .waiting callbackErr
        lease := cancelWith s.lease errCanceled }
  | extend {interval : Time} (h : s.renewal = .selecting)
      (hticker : s.ticker = some interval) :
      Move c s .extend { s with renewal := .extending }
  | extended (h : s.renewal = .extending) :
      Move c s (.extendReturn none) { s with renewal := .selecting }
  | extendFailed {err : GoErr} (h : s.renewal = .extending) :
      Move c s (.extendReturn (some err)) { s with renewal := .failed err }
  | foundDone {err cause : GoErr} (h : s.renewal = .failed err)
      (hlease : s.lease = some cause) : Move c s .check s.finish
  | foundLive {err : GoErr} (h : s.renewal = .failed err)
      (hlease : s.lease = none) :
      Move c s .check { s with renewal := .sending err }
  | send {err : GoErr} (h : s.renewal = .sending err)
      (hchannel : s.channel = none) :
      Move c s .send
        { s with renewal := .cancelling err, channel := some err }
  | cancelCause {err : GoErr} (h : s.renewal = .cancelling err) :
      Move c s .cancelCause
        { s.finish with lease := cancelWith s.lease err }
  | leave {cause : GoErr} (h : s.renewal = .selecting)
      (hlease : s.lease = some cause) : Move c s .leave s.finish
  | unlock {callbackErr : Option GoErr}
      (h : s.caller = .waiting callbackErr) (hdone : s.renewal = .done) :
      Move c s .unlock { s with
        caller := .unlocking callbackErr s.channel c.unlockTimeout
        channel := none }
  | unlockReturn {callbackErr extendErr err : Option GoErr} {timeout : Time}
      (h : s.caller = .unlocking callbackErr extendErr timeout) :
      Move c s (.unlockReturn err)
        { s with caller := .released callbackErr extendErr err }

theorem move_of_step (h : c.step s a = some t) : Move c s a t := by
  cases a with
  | parentCancel cause =>
      cases h
      exact .parentCancel
  | validate =>
      simp only [Call.step] at h
      split at h
      · next hcaller =>
          split at h
          · next err herr =>
              cases h
              exact .invalid hcaller herr
          · next hok =>
              cases h
              exact .valid hcaller hok
      · cases h
  | propagate =>
      simp only [Call.step] at h
      split at h
      · cases h
      · cases h
      · next hparent hoff =>
          cases h
          exact .propagate hoff hparent
  | extendReturn err =>
      simp only [Call.step] at h
      split at h
      · next hrenewal =>
          cases h
          exact .extended hrenewal
      · next hrenewal =>
          cases h
          exact .extendFailed hrenewal
      · cases h
  | check =>
      simp only [Call.step] at h
      split at h
      · next hrenewal hlease =>
          cases h
          exact .foundDone hrenewal hlease
      · next hrenewal hlease =>
          cases h
          exact .foundLive hrenewal hlease
      · cases h
  | extend | send | leave | unlock =>
      simp only [Call.step] at h
      split at h
      · next hat hother =>
          cases h
          constructor
          · exact hat
          · exact hother
      · cases h
  | lockReturn | callback | callbackReturn | callbackPanic | cancelNil |
      cancelCause | unlockReturn =>
      simp only [Call.step] at h
      split at h
      · next hat =>
          cases h
          constructor
          exact hat
      · cases h

theorem step_of_move (h : Move c s a t) : c.step s a = some t := by
  cases h with
  | parentCancel => rfl
  | _ => simp_all [Call.step]

/-! ## The invariant -/

/-- Before `runLease`, or returned without it. -/
def Caller.early : Caller → Bool
  | .validating | .locking | .holding | .refused .. => true
  | _ => false

/-- Past the callback and the cancellation of its context. -/
def Caller.late : Caller → Bool
  | .waiting .. | .unlocking .. | .released .. => true
  | _ => false

/-- Past `<-done`. -/
def Caller.joined : Caller → Bool
  | .unlocking .. | .released .. => true
  | _ => false

/-- What the caller's program counter says about the rest. -/
structure Calling (k : Caller) (r : Renewal) (channel lease : Option GoErr) :
    Prop where
  off : r = .off ↔ k.early = true
  fresh : k.early = true → lease = none
  late : k.late = true → lease ≠ none
  joined : k.joined = true → r = .done ∧ channel = none

/-- Running, with nothing told to the caller yet. -/
def Renewal.quiet : Renewal → Bool
  | .selecting | .extending | .failed _ | .sending _ => true
  | _ => false

/-- What the goroutine's program counter says about the rest. -/
structure Renewing (r : Renewal) (ticker : Option Time)
    (channel lease : Option GoErr) : Prop where
  stopped : ticker = none ↔ r = .off ∨ r = .done
  told : ∀ err, channel = some err → r = .cancelling err ∨ r = .done
  sent : ∀ err, r = .cancelling err → channel = some err
  done : r = .done → lease ≠ none

structure Inv (s : Lease) : Prop where
  calling : Calling s.caller s.renewal s.channel s.lease
  renewing : Renewing s.renewal s.ticker s.channel s.lease

theorem Inv.off_of_holding (hinv : Inv s) (hk : s.caller = .holding) :
    s.renewal = .off :=
  hinv.calling.off.mpr (by rw [hk]; rfl)

section

variable {k k' : Caller} {r r' : Renewal} {ticker : Option Time}
  {channel channel' lease lease' : Option GoErr}

theorem calling_early (hk : k.early = true) (hr : r = .off)
    (hlease : lease = none) : Calling k r channel lease := by
  have hlate : k.late = false ∧ k.joined = false := by
    cases k <;> first | exact ⟨rfl, rfl⟩ | cases hk
  refine ⟨⟨fun _ => hk, fun _ => hr⟩, fun _ => hlease, fun h => ?_,
    fun h => ?_⟩
  · rw [hlate.1] at h
    cases h
  · rw [hlate.2] at h
    cases h

/-- The caller in the callback or on its way to `<-done`. -/
theorem calling_before_join (hk : k.early = false) (hjoined : k.joined = false)
    (hr : r ≠ .off) (hlate : k.late = true → lease ≠ none) :
    Calling k r channel lease := by
  have hnot : ¬ k.early = true := by rw [hk]; exact Bool.false_ne_true
  refine ⟨⟨fun h => absurd h hr, fun h => absurd h hnot⟩,
    fun h => absurd h hnot, hlate, fun h => ?_⟩
  rw [hjoined] at h
  cases h

/-- The goroutine takes a step and does not return before it. -/
theorem Calling.renew (h : Calling k r channel lease) (hr : r ≠ .off)
    (hdone : r ≠ .done) (hr' : r' ≠ .off)
    (hlease : lease ≠ none → lease' ≠ none) :
    Calling k r' channel' lease' := by
  have hearly : k.early = false :=
    Bool.eq_false_iff.mpr fun he => hr (h.off.mpr he)
  have hjoined : k.joined = false :=
    Bool.eq_false_iff.mpr fun hj => hdone (h.joined hj).1
  exact calling_before_join hearly hjoined hr' fun hl => hlease (h.late hl)

theorem Calling.cancelled (h : Calling k r channel lease) (hr : r ≠ .off)
    (hlease : lease' ≠ none) : Calling k r channel lease' :=
  ⟨h.off, fun he => absurd (h.off.mpr he) hr, fun _ => hlease, h.joined⟩

theorem Renewing.cancelled (h : Renewing r ticker channel lease)
    (hlease : lease' ≠ none) : Renewing r ticker channel lease' :=
  ⟨h.stopped, h.told, h.sent, fun _ => hlease⟩

theorem Renewing.channel_none (h : Renewing r ticker channel lease)
    (hcancel : ∀ err, r ≠ .cancelling err) (hdone : r ≠ .done) :
    channel = none := by
  cases hc : channel with
  | none => rfl
  | some err =>
      rcases h.told err hc with hr | hr
      · exact absurd hr (hcancel err)
      · exact absurd hr hdone

theorem Renewal.quiet_ne (hr : r.quiet = true) :
    r ≠ .off ∧ r ≠ .done ∧ ∀ err, r ≠ .cancelling err := by
  refine ⟨?_, ?_, fun err => ?_⟩ <;>
    · rintro rfl
      cases hr

theorem renewing_quiet (hr : r.quiet = true) (hticker : ticker ≠ none)
    (hchannel : channel = none) : Renewing r ticker channel lease := by
  obtain ⟨hoff, hdone, hcancel⟩ := Renewal.quiet_ne hr
  refine ⟨⟨fun h => absurd h hticker, fun h => ?_⟩, fun err h => ?_,
    fun err h => absurd h (hcancel err), fun h => absurd h hdone⟩
  · exact absurd h (not_or.mpr ⟨hoff, hdone⟩)
  · rw [hchannel] at h
    cases h

theorem Renewing.quiet_step (h : Renewing r ticker channel lease)
    (hr : r.quiet = true) (hr' : r'.quiet = true) :
    Renewing r' ticker channel lease := by
  obtain ⟨hoff, hdone, hcancel⟩ := Renewal.quiet_ne hr
  exact renewing_quiet hr'
    (fun hn => absurd (h.stopped.mp hn) (not_or.mpr ⟨hoff, hdone⟩))
    (h.channel_none hcancel hdone)

theorem renewing_done (hlease : lease ≠ none) :
    Renewing .done none channel lease :=
  ⟨⟨fun _ => Or.inr rfl, fun _ => rfl⟩, fun _ _ => Or.inr rfl,
    fun _ h => (by cases h), fun _ => hlease⟩

end

theorem cancelWith_ne_none {context : Option GoErr} {cause : GoErr} :
    cancelWith context cause ≠ none := by
  simp [cancelWith]

theorem early_lockAnswer (e : Entry) (acquired : Bool) (err : Option GoErr) :
    (e.lockAnswer acquired err).early = true := by
  cases e <;> cases acquired <;> cases err <;> rfl

@[simp] theorem finish_renewal (s : Lease) : s.finish.renewal = .done := rfl

theorem inv_init : Inv ({} : Lease) where
  calling := calling_early rfl rfl rfl
  renewing := by constructor <;> simp

theorem inv_step (hs : Inv s) (h : c.step s a = some t) : Inv t := by
  obtain ⟨hcalling, hrenewing⟩ := hs
  have hoff : s.caller.early = true → s.renewal = .off ∧ s.lease = none :=
    fun he => ⟨hcalling.off.mpr he, hcalling.fresh he⟩
  have hon : s.caller.early = false → s.renewal ≠ .off := fun he hr => by
    rw [hcalling.off.mp hr] at he
    cases he
  cases move_of_step h with
  | invalid hk | valid hk =>
      obtain ⟨hr, hlease⟩ := hoff (by rw [hk]; rfl)
      exact ⟨calling_early rfl hr hlease, hrenewing⟩
  | lockReturn hk =>
      obtain ⟨hr, hlease⟩ := hoff (by rw [hk]; rfl)
      exact ⟨calling_early (early_lockAnswer ..) hr hlease, hrenewing⟩
  | callback hk =>
      obtain ⟨hr, _⟩ := hoff (by rw [hk]; rfl)
      refine ⟨calling_before_join rfl rfl (by simp) (by simp [Caller.late]),
        renewing_quiet rfl (by simp) (hrenewing.channel_none ?_ ?_)⟩
      · rw [hr]
        simp
      · rw [hr]
        simp
  | callbackReturn hk | callbackPanic hk =>
      exact ⟨calling_before_join rfl rfl (hon (by rw [hk]; rfl))
        (by simp [Caller.late]), hrenewing⟩
  | parentCancel => exact ⟨hcalling, hrenewing⟩
  | propagate hr =>
      exact ⟨hcalling.cancelled hr cancelWith_ne_none,
        hrenewing.cancelled cancelWith_ne_none⟩
  | cancelNil hk =>
      exact ⟨calling_before_join rfl rfl (hon (by rw [hk]; rfl))
        fun _ => cancelWith_ne_none, hrenewing.cancelled cancelWith_ne_none⟩
  | extend hr | extended hr | extendFailed hr | foundLive hr =>
      rw [hr] at hcalling hrenewing
      exact ⟨hcalling.renew (by simp) (by simp) (by simp) id,
        hrenewing.quiet_step rfl rfl⟩
  | send hr hchannel =>
      rw [hr] at hcalling hrenewing
      refine ⟨hcalling.renew (by simp) (by simp) (by simp) id, ⟨?_, ?_⟩, ?_,
        ?_, (by simp)⟩
      · intro hn
        exact absurd (hrenewing.stopped.mp hn) (by simp)
      · simp
      · intro err herr
        exact Or.inl (congrArg _ (Option.some.inj herr))
      · intro err herr
        cases herr
        rfl
  | foundDone hr hlease | leave hr hlease =>
      rw [hr] at hcalling
      have hcancelled : s.lease ≠ none := by rw [hlease]; simp
      exact ⟨hcalling.renew (by simp) (by simp) (by simp) id,
        renewing_done hcancelled⟩
  | cancelCause hr =>
      rw [hr] at hcalling
      exact ⟨hcalling.renew (by simp) (by simp) (by simp)
        fun _ => cancelWith_ne_none, renewing_done cancelWith_ne_none⟩
  | unlock hk hdone =>
      refine ⟨⟨⟨fun hr => ?_, (by simp [Caller.early])⟩,
        (by simp [Caller.early]), fun _ => hrenewing.done hdone,
        fun _ => ⟨hdone, rfl⟩⟩, ?_⟩
      · rw [hdone] at hr
        cases hr
      · rw [hdone] at hrenewing ⊢
        exact ⟨hrenewing.stopped, (by simp), (by simp), hrenewing.done⟩
  | unlockReturn hk =>
      rw [hk] at hcalling
      exact ⟨⟨hcalling.off, hcalling.fresh, hcalling.late, hcalling.joined⟩,
        hrenewing⟩

theorem inv_run {as : List Action} (hrun : run c.step {} as = some s) :
    Inv s :=
  run_inv_of (fun _ _ _ => inv_step) inv_init hrun

/-! ## What the caller has done -/

/-- The calls of the callback and of `Unlock`, and their ends. -/
def Action.own : Action → Bool
  | .callback | .callbackReturn _ | .callbackPanic | .unlock
  | .unlockReturn _ => true
  | _ => false

/-- The caller runs straight through, so its program counter tells which of
these there were, in which order and with which results. -/
def Caller.events : Caller → List Action
  | .validating | .locking | .holding | .refused .. => []
  | .running => [.callback]
  | .calledBack callbackErr | .waiting callbackErr =>
      [.callback, .callbackReturn callbackErr]
  | .unlocking callbackErr _ _ =>
      [.callback, .callbackReturn callbackErr, .unlock]
  | .released callbackErr _ unlockErr =>
      [.callback, .callbackReturn callbackErr, .unlock,
        .unlockReturn unlockErr]
  | .panicked => [.callback, .callbackPanic]

theorem events_lockAnswer (e : Entry) (acquired : Bool) (err : Option GoErr) :
    (e.lockAnswer acquired err).events = [] := by
  cases e <;> cases acquired <;> cases err <;> rfl

theorem events_step (h : c.step s a = some t) :
    t.caller.events = s.caller.events ++ if a.own then [a] else [] := by
  cases move_of_step h with
  | lockReturn hk =>
      rw [hk]
      exact events_lockAnswer ..
  | invalid hk | valid hk | callback hk | callbackReturn hk
  | callbackPanic hk | cancelNil hk | unlock hk | unlockReturn hk =>
      rw [hk]
      rfl
  | parentCancel | propagate | extend | extended | extendFailed | foundDone
  | foundLive | send | cancelCause | leave =>
      exact (List.append_nil _).symm

theorem events_run {as : List Action} (hrun : run c.step {} as = some s) :
    as.filter Action.own = s.caller.events :=
  (run_filter (g := fun s : Lease => s.caller.events)
    (fun _ _ _ => events_step) hrun).symm

theorem mem_events {as : List Action} (hrun : run c.step {} as = some s)
    (ha : a.own = true) : a ∈ as ↔ a ∈ s.caller.events := by
  rw [← events_run hrun, List.mem_filter]
  simp [ha]

theorem events_nodup (k : Caller) : k.events.Nodup := by
  cases k <;> simp [Caller.events]

theorem count_le_one {as : List Action} (hrun : run c.step {} as = some s)
    (ha : a.own = true) : as.count a ≤ 1 := by
  rw [← List.count_filter ha, events_run hrun]
  exact List.nodup_iff_count.mp (events_nodup _) a

/-! ## The answer of the locker -/

/-- The lock was acquired: `Lock` returned no error, or `TryLock` returned
true and no error. -/
def Acquired (c : Call) (as : List Action) : Prop :=
  ∃ acquired, .lockReturn acquired none ∈ as ∧
    (c.entry = .withLock ∨ acquired = true)

/-- The caller has been given the mutex. -/
def Caller.owns : Caller → Bool
  | .validating | .locking | .refused .. => false
  | _ => true

theorem owns_lockAnswer (e : Entry) (acquired : Bool) (err : Option GoErr) :
    (e.lockAnswer acquired err).owns = true ↔
      err = none ∧ (e = .withLock ∨ acquired = true) := by
  cases e <;> cases acquired <;> cases err <;>
    simp [Entry.lockAnswer, Caller.owns]

def Action.isLockReturn : Action → Bool
  | .lockReturn .. => true
  | _ => false

/-- Only the answer of the locker makes the caller an owner. -/
theorem owns_step (h : c.step s a = some t) :
    (a.isLockReturn = false ∧ t.caller.owns = s.caller.owns) ∨
    ∃ acquired err, a = .lockReturn acquired err ∧ s.caller = .locking ∧
      t.caller = c.entry.lockAnswer acquired err := by
  cases move_of_step h with
  | lockReturn hk => exact Or.inr ⟨_, _, rfl, hk, rfl⟩
  | invalid hk | valid hk | callback hk | callbackReturn hk
  | callbackPanic hk | cancelNil hk | unlock hk | unlockReturn hk =>
      rw [hk]
      exact Or.inl ⟨rfl, rfl⟩
  | parentCancel | propagate | extend | extended | extendFailed | foundDone
  | foundLive | send | cancelCause | leave => exact Or.inl ⟨rfl, rfl⟩

theorem acquired_snoc {as : List Action} :
    Acquired c (as ++ [a]) ↔ Acquired c as ∨ ∃ acquired,
      a = .lockReturn acquired none ∧
        (c.entry = .withLock ∨ acquired = true) := by
  simp only [Acquired, List.mem_append, List.mem_singleton]
  constructor
  · rintro ⟨acquired, hmem | ha, hentry⟩
    · exact Or.inl ⟨acquired, hmem, hentry⟩
    · exact Or.inr ⟨acquired, ha.symm, hentry⟩
  · rintro (⟨acquired, hmem, hentry⟩ | ⟨acquired, ha, hentry⟩)
    · exact ⟨acquired, Or.inl hmem, hentry⟩
    · exact ⟨acquired, Or.inr ha.symm, hentry⟩

theorem acquired_iff {as : List Action} (hrun : run c.step {} as = some s) :
    Acquired c as ↔ s.caller.owns = true := by
  refine run_history (P := fun as s => Acquired c as ↔ s.caller.owns = true)
    ?_ ?_ hrun
  · simp [Acquired, Caller.owns]
  · intro pre m a t _ hpre hstep
    rw [acquired_snoc, hpre]
    rcases owns_step hstep with ⟨ha, howns⟩ | ⟨acquired, err, rfl, hk, hk'⟩
    · rw [howns]
      refine or_iff_left fun ⟨acquired, ha', _⟩ => ?_
      rw [ha'] at ha
      cases ha
    · rw [hk, hk', owns_lockAnswer]
      constructor
      · rintro (hbefore | ⟨_, ha, hentry⟩)
        · cases hbefore
        · cases ha
          exact ⟨rfl, hentry⟩
      · rintro ⟨rfl, hentry⟩
        exact Or.inr ⟨acquired, rfl, hentry⟩

/-- Why a call was refused: its arguments, or the answer of the locker. -/
def Refusal (c : Call) (as : List Action) (acquired : Bool)
    (err : Option GoErr) : Prop :=
  (acquired = false ∧ err ≠ none ∧ c.validateLeaseInputs = err) ∨
  ∃ answer, .lockReturn answer err ∈ as ∧
    (c.entry = .withLock ∧ acquired = false ∧ err ≠ none ∨
     c.entry = .tryWithLock ∧ acquired = answer ∧
      (acquired = false ∨ err ≠ none))

theorem lockAnswer_refused {e : Entry} {answer acquired : Bool}
    {err err' : Option GoErr}
    (h : e.lockAnswer answer err' = .refused acquired err) :
    err' = err ∧ (e = .withLock ∧ acquired = false ∧ err ≠ none ∨
      e = .tryWithLock ∧ acquired = answer ∧
        (acquired = false ∨ err ≠ none)) := by
  cases e <;> cases answer <;> cases err' <;> cases h <;> simp

theorem refused_of {as : List Action} (hrun : run c.step {} as = some s)
    {acquired : Bool} {err : Option GoErr}
    (hk : s.caller = .refused acquired err) : Refusal c as acquired err := by
  refine run_history (P := fun as s =>
    s.caller = .refused acquired err → Refusal c as acquired err)
    (fun h => by cases h) ?_ hrun hk
  intro pre m a t _ hpre hstep hk
  have hkept : m.caller = .refused acquired err →
      Refusal c (pre ++ [a]) acquired err := fun hm =>
    (hpre hm).imp_right fun ⟨answer, hmem, hcase⟩ =>
      ⟨answer, List.mem_append_left _ hmem, hcase⟩
  cases move_of_step hstep with
  | invalid _ herr =>
      cases hk
      exact Or.inl ⟨rfl, by simp, herr⟩
  | lockReturn =>
      obtain ⟨rfl, hcase⟩ := lockAnswer_refused hk
      exact Or.inr ⟨_, List.mem_append_right _ (List.mem_singleton_self _),
        hcase⟩
  | valid | callback | callbackReturn | callbackPanic | cancelNil | unlock
  | unlockReturn => cases hk
  | parentCancel | propagate | extend | extended | extendFailed | foundDone
  | foundLive | send | cancelCause | leave => exact hkept hk

/-- Contention ends a `TryWithLock`, without an error. -/
theorem refused_of_contended {as : List Action}
    (hrun : run c.step {} as = some s) (hentry : c.entry = .tryWithLock)
    (hmem : .lockReturn false none ∈ as) :
    s.caller = .refused false none := by
  refine run_history (P := fun as s => .lockReturn false none ∈ as →
    s.caller = .refused false none) (fun h => by cases h) ?_ hrun hmem
  intro pre m a t _ hpre hstep hmem
  rw [List.mem_append, List.mem_singleton] at hmem
  rcases hmem with hbefore | rfl
  · have hk := hpre hbefore
    cases move_of_step hstep with
    | parentCancel | propagate | extend | extended | extendFailed | foundDone
    | foundLive | send | cancelCause | leave => exact hk
    | invalid hk' | valid hk' | lockReturn hk' | callback hk'
    | callbackReturn hk' | callbackPanic hk' | cancelNil hk' | unlock hk'
    | unlockReturn hk' =>
        rw [hk] at hk'
        cases hk'
  · cases move_of_step hstep with
    | lockReturn _ =>
        rw [hentry]
        rfl

/-! ## Extensions -/

def Action.isExtendReturn : Action → Bool
  | .extendReturn _ => true
  | _ => false

/-- Every extension has returned but for the one that is running. -/
theorem extends_run {as : List Action} (hrun : run c.step {} as = some s) :
    as.count .extend = as.countP Action.isExtendReturn +
      if s.renewal = .extending then 1 else 0 := by
  refine run_history (P := fun as s => as.count .extend =
    as.countP Action.isExtendReturn +
      if s.renewal = .extending then 1 else 0) rfl ?_ hrun
  intro pre m a t hm hpre hstep
  rw [List.count_append, List.countP_append, hpre]
  cases move_of_step hstep with
  | extend hr | extended hr | extendFailed hr | foundDone hr | foundLive hr
  | send hr | cancelCause hr | leave hr =>
      simp [hr, Action.isExtendReturn, Lease.finish]
  | callback hk =>
      have hr := (inv_run hm).off_of_holding hk
      simp [hr, Action.isExtendReturn]
  | _ => simp [Action.isExtendReturn]

/-- Once the goroutine has returned it stays so. -/
theorem done_step (hdone : s.renewal = .done) (hinv : Inv s)
    (h : c.step s a = some t) : t.renewal = .done ∧ a ≠ .extend := by
  cases move_of_step h with
  | extend hr | extended hr | extendFailed hr | foundDone hr | foundLive hr
  | send hr | cancelCause hr | leave hr =>
      rw [hdone] at hr
      cases hr
  | callback hk =>
      have hr := hinv.off_of_holding hk
      rw [hdone] at hr
      cases hr
  | _ => exact ⟨hdone, by simp⟩

theorem no_extend_after_done {as : List Action} (hdone : s.renewal = .done)
    (hinv : Inv s) (hrun : run c.step s as = some t) : .extend ∉ as := by
  induction as generalizing s with
  | nil => simp
  | cons a as ih =>
      obtain ⟨m, hm, hrest⟩ := run_cons.mp hrun
      obtain ⟨hdone', ha⟩ := done_step hdone hinv hm
      rw [List.mem_cons, not_or]
      exact ⟨ha.symm, ih hdone' (inv_step hinv hm) hrest⟩

/-- What is true when `Unlock` is called. -/
theorem unlock_last {pre post : List Action}
    (hrun : run c.step {} (pre ++ .unlock :: post) = some s) :
    (∃ err, .callbackReturn err ∈ pre) ∧
      pre.count .extend = pre.countP Action.isExtendReturn ∧
      .extend ∉ post := by
  obtain ⟨m, hm, hrest⟩ := run_append.mp hrun
  obtain ⟨u, hu, hpost⟩ := run_cons.mp hrest
  cases move_of_step hu with
  | @unlock callbackErr hk hdone =>
      refine ⟨⟨callbackErr, ?_⟩, ?_, ?_⟩
      · rw [mem_events hm rfl, hk]
        simp [Caller.events]
      · rw [extends_run hm, hdone]
        simp
      · have hinv := inv_step (inv_run hm) hu
        exact no_extend_after_done (by exact hdone) hinv hpost

/-! ## A failed extension -/

/-- The error of an extension after which the goroutine looked at the lease
context and found it live. -/
def foundLiveAt : Lease × Action → List GoErr
  | (s, .check) =>
      match s.renewal, s.lease with
      | .failed err, none => [err]
      | _, _ => []
  | _ => []

def FoundLive (c : Call) (as : List Action) (err : GoErr) : Prop :=
  err ∈ (steps c.step {} as).flatMap foundLiveAt

def Caller.extendErr : Caller → Option GoErr
  | .unlocking _ extendErr _ | .released _ extendErr _ => extendErr
  | _ => none

/-- Where the error of a failed extension is. -/
def Lease.reported (s : Lease) : Option GoErr :=
  match s.renewal with
  | .sending err => some err
  | _ => s.channel.or s.caller.extendErr

theorem extendErr_none {k : Caller} (h : k.joined = false) :
    k.extendErr = none := by
  cases k <;> first | rfl | cases h

/-- A running goroutine that has told nothing has nothing reported, unless it
is about to send. -/
theorem Inv.reported_none (hinv : Inv s) (hquiet : s.renewal.quiet = true)
    (hsend : ∀ err, s.renewal ≠ .sending err) : s.reported = none := by
  obtain ⟨_, hdone, hcancel⟩ := Renewal.quiet_ne hquiet
  have hchannel := hinv.renewing.channel_none hcancel hdone
  have hjoined : s.caller.joined = false :=
    Bool.eq_false_iff.mpr fun hj => hdone (hinv.calling.joined hj).1
  rw [Lease.reported, hchannel, extendErr_none hjoined]
  split
  · next err hr => exact absurd hr (hsend err)
  · rfl

theorem extendErr_lockAnswer (e : Entry) (acquired : Bool)
    (err : Option GoErr) : (e.lockAnswer acquired err).extendErr = none := by
  cases e <;> cases acquired <;> cases err <;> rfl

theorem reported_step (hinv : Inv s) (h : c.step s a = some t) :
    t.reported.toList = s.reported.toList ++ foundLiveAt (s, a) := by
  have hinv' := inv_step hinv h
  cases move_of_step h with
  | lockReturn hk =>
      simp only [Lease.reported, extendErr_lockAnswer]
      simp [hk, foundLiveAt, Caller.extendErr]
  | invalid hk | valid hk | callbackReturn hk | callbackPanic hk | cancelNil hk
  | unlockReturn hk =>
      simp [Lease.reported, hk, foundLiveAt, Caller.extendErr]
  | parentCancel | propagate =>
      simp [Lease.reported, foundLiveAt]
  | callback hk =>
      have hr := hinv.off_of_holding hk
      have hchannel := hinv.renewing.channel_none (by simp [hr]) (by simp [hr])
      simp [Lease.reported, hr, hk, hchannel, foundLiveAt, Caller.extendErr]
  | extend hr | extended hr | extendFailed hr =>
      rw [hinv.reported_none (by rw [hr]; rfl) (by simp [hr]),
        hinv'.reported_none rfl (by simp)]
      rfl
  | foundLive hr hlease =>
      rw [hinv.reported_none (by rw [hr]; rfl) (by simp [hr])]
      simp [Lease.reported, foundLiveAt, hr, hlease]
  | foundDone hr hlease | leave hr hlease =>
      have hnone := hinv.reported_none (by rw [hr]; rfl) (by simp [hr])
      rw [hnone]
      simp only [Lease.reported, hr] at hnone
      simp [Lease.reported, foundLiveAt, hr, hlease, Lease.finish, hnone]
  | send hr =>
      simp [Lease.reported, foundLiveAt, hr]
  | cancelCause hr =>
      simp [Lease.reported, foundLiveAt, hr, Lease.finish]
  | unlock hk hdone =>
      simp [Lease.reported, foundLiveAt, hdone, hk, Caller.extendErr]

/-- The error was found with the context live if and only if it is where the
caller will take it from. -/
theorem foundLive_iff {as : List Action} (hrun : run c.step {} as = some s)
    (err : GoErr) : FoundLive c as err ↔ s.reported = some err := by
  have hlog := run_emits (g := fun s : Lease => s.reported.toList)
    (fun _ _ _ => inv_step) (fun _ _ _ => reported_step) inv_init hrun
  simp only [show (({} : Lease).reported.toList : List GoErr) = [] from rfl,
    List.nil_append] at hlog
  rw [FoundLive, ← hlog]
  simp [eq_comm]

/-- Where the error of a failed extension can be. -/
theorem Inv.reported_cases (hinv : Inv s) {err : GoErr}
    (h : s.reported = some err) :
    s.renewal = .sending err ∨ s.renewal = .cancelling err ∨
      s.renewal = .done := by
  rw [Lease.reported] at h
  split at h
  · next hr =>
      cases h
      exact Or.inl hr
  · rcases Option.or_eq_some_iff.mp h with hchannel | ⟨_, hcaller⟩
    · exact Or.inr (hinv.renewing.told err hchannel)
    · refine Or.inr (Or.inr (hinv.calling.joined ?_).1)
      cases hk : s.caller <;> rw [hk] at hcaller <;>
        first | rfl | cases hcaller

/-- If the goroutine has returned and has reported an error, it has cancelled
the lease context with it. -/
theorem cancelled_of_reported {as : List Action}
    (hrun : run c.step {} as = some s) {err : GoErr}
    (hdone : s.renewal = .done) (hrep : s.reported = some err) :
    ∃ pre post m, as = pre ++ .cancelCause :: post ∧
      run c.step {} pre = some m ∧ m.renewal = .cancelling err := by
  refine run_history (P := fun as s => s.renewal = .done →
    s.reported = some err → ∃ pre post m, as = pre ++ .cancelCause :: post ∧
      run c.step {} pre = some m ∧ m.renewal = .cancelling err)
    (fun h => by cases h) ?_ hrun hdone hrep
  intro as m a t hm ih hstep hdone hrep
  have hinv := inv_run hm
  have hlog := reported_step hinv hstep
  rw [hrep] at hlog
  -- Either the goroutine had returned before, or this is its last step.
  have hbefore : m.renewal = .done → foundLiveAt (m, a) = [] →
      ∃ pre post m', as ++ [a] = pre ++ .cancelCause :: post ∧
        run c.step {} pre = some m' ∧ m'.renewal = .cancelling err := by
    intro hdone' hnone
    rw [hnone, List.append_nil] at hlog
    have hrep' : m.reported = some err :=
      Option.toList_eq_singleton_iff.mp hlog.symm
    obtain ⟨pre, post, m', rfl, hpre, hcancel⟩ := ih hdone' hrep'
    exact ⟨pre, post ++ [a], m', by simp, hpre, hcancel⟩
  cases move_of_step hstep with
  | cancelCause hr =>
      have hsent := hinv.renewing.sent _ hr
      simp [Lease.reported, Lease.finish, hsent] at hrep
      exact ⟨as, [], m, rfl, hm, hrep ▸ hr⟩
  | foundDone hr hlease | leave hr hlease =>
      rw [hinv.reported_none (by rw [hr]; rfl) (by simp [hr])] at hlog
      simp [foundLiveAt, hr, hlease] at hlog
  | callback | extend | extended | extendFailed | foundLive | send =>
      cases hdone
  | invalid | valid | lockReturn | callbackReturn | callbackPanic
  | parentCancel | propagate | cancelNil | unlock | unlockReturn =>
      exact hbefore hdone rfl

/-! ## The cause of the lease context -/

/-- Who can have cancelled what. -/
structure Causes (as : List Action) (s : Lease) : Prop where
  parent : s.parent ≠ none → ∃ cause, .parentCancel cause ∈ as
  lease : s.lease ≠ none → .cancelCause ∈ as ∨
    (∃ cause, .parentCancel cause ∈ as) ∨ ∃ err, .callbackReturn err ∈ as
  cancelled : .cancelCause ∈ as → s.renewal = .done

theorem causes_run {as : List Action} (hrun : run c.step {} as = some s) :
    Causes as s := by
  refine run_history (P := Causes) ⟨by simp, by simp, by simp⟩ ?_ hrun
  intro pre m a t hm ih hstep
  have hinv := inv_run hm
  have hmem : a ∈ pre ++ [a] :=
    List.mem_append_right _ (List.mem_singleton_self a)
  have hsub : ∀ {b}, b ∈ pre → b ∈ pre ++ [a] := List.mem_append_left _
  have hparent : (∃ cause, .parentCancel cause ∈ pre) →
      ∃ cause, .parentCancel cause ∈ pre ++ [a] :=
    fun ⟨cause, h⟩ => ⟨cause, hsub h⟩
  have hlease : m.lease ≠ none → .cancelCause ∈ pre ++ [a] ∨
      (∃ cause, .parentCancel cause ∈ pre ++ [a]) ∨
        ∃ err, .callbackReturn err ∈ pre ++ [a] := by
    intro hne
    rcases ih.lease hne with h | h | ⟨err, h⟩
    · exact Or.inl (hsub h)
    · exact Or.inr (Or.inl (hparent h))
    · exact Or.inr (Or.inr ⟨err, hsub h⟩)
  refine ⟨fun hne => ?_, fun hne => ?_, fun hc => ?_⟩
  · -- Only the step that cancels the caller's context changes it.
    cases move_of_step hstep with
    | parentCancel => exact ⟨_, hmem⟩
    | _ => exact hparent (ih.parent hne)
  · cases move_of_step hstep with
    | callback => exact Or.inr (Or.inl (hparent (ih.parent hne)))
    | propagate _ hp =>
        exact Or.inr (Or.inl (hparent (ih.parent (by simp [hp]))))
    | @cancelNil err hk =>
        have hback : .callbackReturn err ∈ pre := by
          rw [mem_events hm rfl, hk]
          simp [Caller.events]
        exact Or.inr (Or.inr ⟨err, hsub hback⟩)
    | cancelCause => exact Or.inl hmem
    | _ => exact hlease hne
  · rcases List.mem_append.mp hc with hc | hc
    · exact (done_step (ih.cancelled hc) hinv hstep).1
    · rw [List.mem_singleton] at hc
      subst hc
      cases move_of_step hstep with
      | cancelCause => rfl

/-- The first cause stays. -/
theorem lease_step (hinv : Inv s) (h : c.step s a = some t) {cause : GoErr}
    (hlease : s.lease = some cause) : t.lease = some cause := by
  cases move_of_step h with
  | callback hk =>
      have hfresh := hinv.calling.fresh (by rw [hk]; rfl)
      rw [hlease] at hfresh
      cases hfresh
  | propagate | cancelNil | cancelCause =>
      rw [hlease]
      rfl
  | _ => exact hlease

theorem lease_run {as : List Action} (hinv : Inv s)
    (hrun : run c.step s as = some t) {cause : GoErr}
    (hlease : s.lease = some cause) : t.lease = some cause := by
  refine (run_inv_of (I := fun s => Inv s ∧ s.lease = some cause) ?_
    ⟨hinv, hlease⟩ hrun).2
  rintro s a t ⟨hinv, hlease⟩ h
  exact ⟨inv_step hinv h, lease_step hinv h hlease⟩

/-- The cause of the lease context once the goroutine has cancelled it. -/
theorem cause_of_cancel {pre post : List Action} {m : Lease} {err : GoErr}
    (hm : run c.step {} pre = some m) (hr : m.renewal = .cancelling err)
    (hrun : run c.step {} (pre ++ .cancelCause :: post) = some s) :
    s.lease ≠ none ∧ (s.lease = some err ∨
      (∃ cause, .parentCancel cause ∈ pre) ∨
        ∃ err, .callbackReturn err ∈ pre) := by
  obtain ⟨m', hm', hrest⟩ := run_append.mp hrun
  rw [hm, Option.some.injEq] at hm'
  subst hm'
  obtain ⟨u, hu, hpost⟩ := run_cons.mp hrest
  have hinv := inv_step (inv_run hm) hu
  have hcauses := causes_run hm
  cases hl : m.lease with
  | none =>
      have hlease : u.lease = some err := by
        cases move_of_step hu with
        | cancelCause hr' =>
            rw [hr] at hr'
            cases hr'
            rw [hl]
            rfl
      have hend := lease_run hinv hpost hlease
      exact ⟨by simp [hend], Or.inl hend⟩
  | some cause =>
      have hend := lease_run hinv hpost (lease_step (inv_run hm) hu hl)
      refine ⟨by simp [hend], Or.inr ?_⟩
      rcases hcauses.lease (by simp [hl]) with hc | hothers
      · rw [hcauses.cancelled hc] at hr
        cases hr
      · exact hothers

/-! ## Nothing gets stuck -/

def Caller.rank : Caller → Nat
  | .validating => 8
  | .locking => 7
  | .holding => 6
  | .running => 5
  | .calledBack _ => 4
  | .waiting _ => 3
  | .unlocking .. => 2
  | .refused .. | .released .. | .panicked => 0

def Renewal.rank : Renewal → Nat
  | .off | .done => 0
  | .selecting => 1
  | .cancelling _ => 2
  | .sending _ => 3
  | .failed _ => 4
  | .extending => 5

/-- The caller's steps weigh more than all of the goroutine's. -/
def Lease.rank (s : Lease) : Nat := 6 * s.caller.rank + s.renewal.rank

/-- While the caller waits for it, the goroutine can always go on. -/
theorem renewal_can_step (hinv : Inv s) (hlease : s.lease ≠ none)
    (hoff : s.renewal ≠ .off) (hdone : s.renewal ≠ .done) :
    ∃ a t, c.step s a = some t ∧ t.caller = s.caller ∧
      t.renewal.rank < s.renewal.rank := by
  obtain ⟨cause, hcause⟩ := Option.ne_none_iff_exists'.mp hlease
  cases hr : s.renewal with
  | off => exact absurd hr hoff
  | done => exact absurd hr hdone
  | selecting =>
      exact ⟨_, _, step_of_move (.leave hr hcause), rfl, by
        simp [Renewal.rank]⟩
  | extending =>
      exact ⟨_, _, step_of_move (.extended hr), rfl, by simp [Renewal.rank]⟩
  | failed err =>
      exact ⟨_, _, step_of_move (.foundDone hr hcause), rfl, by
        simp [Renewal.rank]⟩
  | sending err =>
      have hchannel := hinv.renewing.channel_none (by simp [hr]) hdone
      exact ⟨_, _, step_of_move (.send hr hchannel), rfl, by
        simp [Renewal.rank]⟩
  | cancelling err =>
      exact ⟨_, _, step_of_move (.cancelCause hr), rfl, by
        simp [Renewal.rank]⟩

theorem can_step (hinv : Inv s) (hret : s.caller.result = none)
    (hpanic : s.caller ≠ .panicked) :
    ∃ a t, c.step s a = some t ∧ t.caller ≠ .panicked ∧ t.rank < s.rank := by
  cases hk : s.caller with
  | panicked => exact absurd hk hpanic
  | refused acquired err | released callbackErr extendErr unlockErr =>
      rw [hk] at hret
      cases hret
  | validating =>
      cases hv : c.validateLeaseInputs with
      | none =>
          exact ⟨_, _, step_of_move (.valid hk hv), by simp, by
            simp [Lease.rank, hk, Caller.rank]⟩
      | some err =>
          exact ⟨_, _, step_of_move (.invalid hk hv), by simp, by
            simp [Lease.rank, hk, Caller.rank]⟩
  | locking =>
      have hmove : Move c s (.lockReturn false (some errCanceled)) _ :=
        .lockReturn hk
      refine ⟨_, _, step_of_move hmove, ?_, ?_⟩
      · cases c.entry <;> simp [Entry.lockAnswer]
      · cases c.entry <;>
          simp [Lease.rank, hk, Entry.lockAnswer, Caller.rank]
  | holding =>
      have hr := hinv.off_of_holding hk
      exact ⟨_, _, step_of_move (.callback hk), by simp, by
        simp [Lease.rank, hk, hr, Caller.rank, Renewal.rank]⟩
  | running =>
      have hmove : Move c s (.callbackReturn none) _ := .callbackReturn hk
      exact ⟨_, _, step_of_move hmove, by simp, by
        simp [Lease.rank, hk, Caller.rank]⟩
  | calledBack err =>
      exact ⟨_, _, step_of_move (.cancelNil hk), by simp, by
        simp [Lease.rank, hk, Caller.rank]⟩
  | waiting err =>
      by_cases hdone : s.renewal = .done
      · exact ⟨_, _, step_of_move (.unlock hk hdone), by simp, by
          simp [Lease.rank, hk, Caller.rank]⟩
      · have hlease := hinv.calling.late (by rw [hk]; rfl)
        have hoff : s.renewal ≠ .off := fun hoff => by
          have hearly := hinv.calling.off.mp hoff
          rw [hk] at hearly
          cases hearly
        obtain ⟨a, t, hstep, hkept, hlt⟩ :=
          renewal_can_step (c := c) hinv hlease hoff hdone
        refine ⟨a, t, hstep, by rw [hkept, hk]; simp, ?_⟩
        rw [Lease.rank, Lease.rank, hkept]
        omega
  | unlocking callbackErr extendErr timeout =>
      have hmove : Move c s (.unlockReturn none) _ := .unlockReturn hk
      exact ⟨_, _, step_of_move hmove, by simp, by
        simp [Lease.rank, hk, Caller.rank]⟩

theorem can_return (hinv : Inv s) (hpanic : s.caller ≠ .panicked) :
    ∃ bs t, run c.step s bs = some t ∧ t.caller.result ≠ none := by
  induction hn : s.rank using Nat.strongRecOn generalizing s with
  | ind n ih =>
      by_cases hret : s.caller.result = none
      · obtain ⟨a, m, hm, hpanic', hlt⟩ := can_step (c := c) hinv hret hpanic
        obtain ⟨bs, t, hrun, ht⟩ := ih m.rank (hn ▸ hlt) (inv_step hinv hm)
          hpanic' rfl
        exact ⟨a :: bs, t, run_cons.mpr ⟨m, hm, hrun⟩, ht⟩
      · exact ⟨[], s, rfl, hret⟩

/-! ## The protocol -/

/-- What a run of `WithLock` or `TryWithLock` whose callback does not panic
keeps to. -/
structure LeaseProtocol (c : Call) (as : List Action) (s : Lease) : Prop where
  /-- The callback runs once if the lock was acquired, and else not at all. -/
  callback_once : as.count .callback ≤ 1 ∧
    (.callback ∈ as → Acquired c as) ∧
    (s.caller.result ≠ none → (.callback ∈ as ↔ Acquired c as))
  /-- So does `Unlock`. -/
  unlock_once : as.count .unlock ≤ 1 ∧
    (s.caller.result ≠ none → (.unlock ∈ as ↔ Acquired c as))
  /-- `Unlock` comes after the callback and after the last extension. -/
  unlock_after : ∀ pre post, as = pre ++ .unlock :: post →
    (∃ err, .callbackReturn err ∈ pre) ∧
    pre.count .extend = pre.countP Action.isExtendReturn ∧ .extend ∉ post
  /-- A failed extension after which the context was found live cancels the
  context, with its error for a cause unless the caller's context was
  cancelled or the callback returned before. Until it has done so, the
  goroutine depends on nobody else to do it. -/
  cancels : ∀ err, FoundLive c as err →
    (∃ pre post, as = pre ++ .cancelCause :: post ∧ s.lease ≠ none ∧
      (s.lease = some err ∨ (∃ cause, .parentCancel cause ∈ pre) ∨
        ∃ err, .callbackReturn err ∈ pre)) ∨
    ∃ t, t.lease ≠ none ∧ (run c.step s [.send, .cancelCause] = some t ∨
      run c.step s [.cancelCause] = some t)
  /-- And it is part of the result. -/
  reports : ∀ err, FoundLive c as err → ∀ acquired result,
    s.caller.result = some (acquired, result) →
    ∃ joined, result = some joined ∧ err ∈ joined.parts
  /-- With the lock, the result is nil if and only if the callback and
  `Unlock` succeeded and no extension failed with the context live. -/
  nil_iff : Acquired c as → ∀ acquired result,
    s.caller.result = some (acquired, result) →
    (result = none ↔ .callbackReturn none ∈ as ∧ .unlockReturn none ∈ as ∧
      ∀ err, ¬ FoundLive c as err)
  /-- Without it, only `TryWithLock` returns nil, and false with it, when
  `TryLock` has said that the lock is taken, and then it does. -/
  nil_refused : ¬ Acquired c as → ∀ acquired,
    (s.caller.result = some (acquired, none) ↔
      c.entry = .tryWithLock ∧ acquired = false ∧
        .lockReturn false none ∈ as)
  /-- The call can always come to its end. -/
  returns : ∃ bs t, run c.step s bs = some t ∧ t.caller.result ≠ none

section

variable {as : List Action}

theorem own_iff_acquired (hrun : run c.step {} as = some s)
    (hret : s.caller.result ≠ none) (hpanic : s.caller ≠ .panicked) :
    (.callback ∈ as ↔ Acquired c as) ∧ (.unlock ∈ as ↔ Acquired c as) := by
  rw [mem_events hrun rfl, mem_events hrun rfl, acquired_iff hrun]
  cases hk : s.caller with
  | refused acquired err => simp [Caller.events, Caller.owns]
  | released callbackErr extendErr unlockErr =>
      simp [Caller.events, Caller.owns]
  | panicked => exact absurd hk hpanic
  | _ =>
      rw [hk] at hret
      exact absurd rfl hret

/-- A call that holds the lock returns from `runLease`. -/
theorem released_of (hrun : run c.step {} as = some s)
    (hacq : Acquired c as) {result : Bool × Option GoErr}
    (hret : s.caller.result = some result) :
    ∃ callbackErr extendErr unlockErr,
      s.caller = .released callbackErr extendErr unlockErr ∧
      result = (true, errorsJoin [callbackErr, extendErr, unlockErr]) := by
  have howns := (acquired_iff hrun).mp hacq
  cases hk : s.caller with
  | refused acquired err =>
      rw [hk] at howns
      cases howns
  | released callbackErr extendErr unlockErr =>
      rw [hk] at hret
      exact ⟨callbackErr, extendErr, unlockErr, rfl,
        (Option.some.inj hret).symm⟩
  | _ =>
      rw [hk] at hret
      cases hret

theorem reported_released (hinv : Inv s) {callbackErr extendErr unlockErr}
    (hk : s.caller = .released callbackErr extendErr unlockErr) :
    s.reported = extendErr := by
  obtain ⟨hdone, hchannel⟩ := hinv.calling.joined (by rw [hk]; rfl)
  simp [Lease.reported, hdone, hchannel, hk, Caller.extendErr]

theorem foundLive_acquired (hrun : run c.step {} as = some s) {err : GoErr}
    (h : FoundLive c as err) : Acquired c as := by
  have hrep := (foundLive_iff hrun err).mp h
  have hinv := inv_run hrun
  rw [acquired_iff hrun]
  have hnotEarly : s.caller.early = false := by
    refine Bool.eq_false_iff.mpr fun he => ?_
    have hoff := hinv.calling.off.mpr he
    rcases hinv.reported_cases hrep with hr | hr | hr <;>
      · rw [hoff] at hr
        cases hr
  cases hk : s.caller <;> first | rfl | (rw [hk] at hnotEarly; cases hnotEarly)

theorem cancels_of_foundLive (hrun : run c.step {} as = some s) {err : GoErr}
    (h : FoundLive c as err) :
    (∃ pre post, as = pre ++ .cancelCause :: post ∧ s.lease ≠ none ∧
      (s.lease = some err ∨ (∃ cause, .parentCancel cause ∈ pre) ∨
        ∃ err, .callbackReturn err ∈ pre)) ∨
    ∃ t, t.lease ≠ none ∧ (run c.step s [.send, .cancelCause] = some t ∨
      run c.step s [.cancelCause] = some t) := by
  have hrep := (foundLive_iff hrun err).mp h
  have hinv := inv_run hrun
  have hcancel : ∀ {m : Lease}, m.renewal = .cancelling err →
      ∃ t, t.lease ≠ none ∧ run c.step m [.cancelCause] = some t :=
    fun hr => ⟨_, cancelWith_ne_none,
      run_cons.mpr ⟨_, step_of_move (.cancelCause hr), rfl⟩⟩
  rcases hinv.reported_cases hrep with hr | hr | hdone
  · have hchannel := hinv.renewing.channel_none (by simp [hr]) (by simp [hr])
    have hsend := step_of_move (c := c) (.send hr hchannel)
    obtain ⟨t, hlease, hlast⟩ := hcancel
      (m := { s with renewal := .cancelling err, channel := some err }) rfl
    exact Or.inr ⟨t, hlease, Or.inl (run_cons.mpr ⟨_, hsend, hlast⟩)⟩
  · obtain ⟨t, hlease, hlast⟩ := hcancel hr
    exact Or.inr ⟨t, hlease, Or.inr hlast⟩
  · obtain ⟨pre, post, m, rfl, hm, hr⟩ :=
      cancelled_of_reported hrun hdone hrep
    obtain ⟨hne, hcause⟩ := cause_of_cancel hm hr hrun
    exact Or.inl ⟨pre, post, rfl, hne, hcause⟩

theorem nil_iff_of_released (hrun : run c.step {} as = some s)
    {callbackErr extendErr unlockErr : Option GoErr}
    (hk : s.caller = .released callbackErr extendErr unlockErr) :
    errorsJoin [callbackErr, extendErr, unlockErr] = none ↔
      .callbackReturn none ∈ as ∧ .unlockReturn none ∈ as ∧
        ∀ err, ¬ FoundLive c as err := by
  have hfound : (∀ err, ¬ FoundLive c as err) ↔ extendErr = none := by
    simp only [foundLive_iff hrun, reported_released (inv_run hrun) hk]
    exact Option.eq_none_iff_forall_ne_some.symm
  have hback : .callbackReturn none ∈ as ↔ callbackErr = none := by
    rw [mem_events hrun rfl, hk]
    simp [Caller.events, eq_comm]
  have hunlock : .unlockReturn none ∈ as ↔ unlockErr = none := by
    rw [mem_events hrun rfl, hk]
    simp [Caller.events, eq_comm]
  rw [hfound, hback, hunlock, errorsJoin_eq_none]
  simp [and_comm]

/-- Nil without the lock is the answer to contention. -/
theorem nil_of_refused (hrun : run c.step {} as = some s)
    (hacq : ¬ Acquired c as) {acquired : Bool}
    (hret : s.caller.result = some (acquired, none)) :
    c.entry = .tryWithLock ∧ acquired = false ∧
      .lockReturn false none ∈ as := by
  rw [acquired_iff hrun] at hacq
  cases hk : s.caller with
  | refused acquired' err =>
      rw [hk] at hret
      cases hret
      rcases refused_of hrun hk with ⟨_, hne, _⟩ | ⟨answer, hmem, hcase⟩
      · exact absurd rfl hne
      · rcases hcase with ⟨_, _, hne⟩ | ⟨hentry, rfl, hfalse | hne⟩
        · exact absurd rfl hne
        · subst hfalse
          exact ⟨hentry, rfl, hmem⟩
        · exact absurd rfl hne
  | released callbackErr extendErr unlockErr =>
      rw [hk] at hacq
      exact absurd rfl hacq
  | _ =>
      rw [hk] at hret
      cases hret

/-- Every run of `WithLock` and `TryWithLock`, whatever the locker, the mutex,
the ticker and the caller's context do, keeps to the protocol. -/
theorem lease_runs_protocol (hrun : run c.step {} as = some s)
    (hnormal : .callbackPanic ∉ as) : LeaseProtocol c as s := by
  have hinv := inv_run hrun
  have hpanic : s.caller ≠ .panicked := by
    intro hk
    rw [mem_events hrun rfl, hk] at hnormal
    exact hnormal (by simp [Caller.events])
  refine ⟨⟨count_le_one hrun rfl, fun hcall => ?_, fun hret =>
      (own_iff_acquired hrun hret hpanic).1⟩,
    ⟨count_le_one hrun rfl, fun hret => (own_iff_acquired hrun hret hpanic).2⟩,
    ?_, fun err h => cancels_of_foundLive hrun h, ?_, ?_, ?_,
    can_return hinv hpanic⟩
  · rw [acquired_iff hrun]
    rw [mem_events hrun rfl] at hcall
    cases hk : s.caller <;> rw [hk] at hcall <;> first | rfl | cases hcall
  · rintro pre post rfl
    exact unlock_last hrun
  · intro err h acquired result hret
    obtain ⟨callbackErr, extendErr, unlockErr, hk, hresult⟩ :=
      released_of hrun (foundLive_acquired hrun h) hret
    have hrep := (foundLive_iff hrun err).mp h
    rw [reported_released hinv hk] at hrep
    obtain ⟨_, rfl⟩ := Prod.mk.inj hresult
    exact mem_parts_errorsJoin (by simp [hrep])
  · intro hacq acquired result hret
    obtain ⟨callbackErr, extendErr, unlockErr, hk, hresult⟩ :=
      released_of hrun hacq hret
    obtain ⟨_, rfl⟩ := Prod.mk.inj hresult
    exact nil_iff_of_released hrun hk
  · intro hacq acquired
    constructor
    · intro hret
      exact nil_of_refused hrun hacq hret
    · rintro ⟨hentry, rfl, hmem⟩
      rw [refused_of_contended hrun hentry hmem]
      rfl

end

/-- The lease is lost while the callback is about to return: the goroutine
finds the context live, the callback's return cancels it first, and the error
is in the result all the same. -/
def lostAtTheEnd : List Action :=
  [.validate, .lockReturn true none, .callback, .extend, .extendReturn none,
   .extend, .extendReturn (some errNotOwned), .check, .callbackReturn none,
   .cancelNil, .send, .cancelCause, .unlock, .unlockReturn none]

theorem lease_runs_protocol_lostAtTheEnd : ∃ s,
    run (Call.mk .withLock false false (30 * millisecond)).step {}
      lostAtTheEnd = some s ∧
    s.caller.result = some (true, some errNotOwned) ∧
    s.lease = some errCanceled ∧
    LeaseProtocol (.mk .withLock false false (30 * millisecond))
      lostAtTheEnd s :=
  ⟨_, rfl, rfl, rfl, lease_runs_protocol rfl (by decide)⟩

/-- The lock is taken. -/
def contended : List Action := [.validate, .lockReturn false none]

/-- `TryWithLock` then returns nil without having run anything. -/
theorem contended_result_nil : ∃ s,
    run (Call.mk .tryWithLock false false (30 * millisecond)).step {}
      contended = some s ∧
    s.caller.result = some (false, none) ∧
    .callbackReturn none ∉ contended :=
  ⟨_, rfl, rfl, by decide⟩

end PlatformGo.Distlock
