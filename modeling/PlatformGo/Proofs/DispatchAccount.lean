import PlatformGo.Ref.Dispatcher

/-!
# The account of a dispatched batch

A round of the loop of `RunOnce` makes two calls and adds to one of two sums:
the count, when both calls succeed, or the errors. So after any number of
rounds the two sums together are that number, and the errors are empty exactly
when every round has counted. What a round calls depends on the event, on the
answer to its `Publish` and on the clock, and on nothing another round has
left behind.
-/

namespace PlatformGo.Outbox

variable {d : Dispatcher} {results : Nat → Outcome}

/-! ## One round -/

/-- The calls for an event at a position of the batch. -/
def Dispatcher.callsFor (d : Dispatcher) (outcome : Outcome) (i : Nat)
    (event : Event) : List (Nat × Call) :=
  [(i, .publish event.subject event.envelope),
    (i, match outcome.publish with
      | none => .markPublished event outcome.now
      | some err =>
          .markFailed event err.text (outcome.now + d.retryDelay))]

/-- `Publish` and `MarkPublished` both return nil. -/
def Outcome.succeeds (outcome : Outcome) : Bool :=
  outcome.publish.isNone && outcome.markPublished.isNone

/-- A round makes its calls, and counts the event or records an error. -/
theorem dispatch_spec (d : Dispatcher) (outcome : Outcome) (i : Nat)
    (event : Event) (p : Tally) :
    (d.dispatch outcome i event p).calls =
        p.calls ++ d.callsFor outcome i event ∧
      (d.dispatch outcome i event p).published =
        p.published + outcome.succeeds.toNat ∧
      (d.dispatch outcome i event p).published +
          (d.dispatch outcome i event p).dispatchErrors.length =
        p.published + p.dispatchErrors.length + 1 := by
  rw [Dispatcher.dispatch, Dispatcher.callsFor, Outcome.succeeds]
  cases hpublish : outcome.publish with
  | some err =>
      cases hmark : outcome.markFailed <;>
        simp [Tally.call, Tally.fail, Nat.add_assoc]
  | none =>
      cases hmark : outcome.markPublished with
      | some err => simp [Tally.call, Tally.fail, Nat.add_assoc]
      | none => simp [Tally.call, Nat.add_right_comm]

/-! ## The loop -/

/-- What the loop makes of the events from a position on, of which it has
processed the first `n`. -/
structure Tallied (d : Dispatcher) (results : Nat → Outcome) (i : Nat)
    (events : List Event) (p : Tally) (out : Tally × Option GoErr)
    (n : Nat) : Prop where
  le : n ≤ events.length
  going : ∀ j < n, (results (i + j)).ctxErr = none
  stopped : n < events.length → (results (i + n)).ctxErr.isSome
  calls : out.1.calls = p.calls ++ ((events.take n).zipIdx i).flatMap
    fun x => d.callsFor (results x.2) x.2 x.1
  published : out.1.published =
    p.published + (List.range' i n).countP fun j => (results j).succeeds
  balance : out.1.published + out.1.dispatchErrors.length =
    p.published + p.dispatchErrors.length + n
  err : out.2 = none ↔ n = events.length ∧ out.1.dispatchErrors = []

theorem loop_tallied (d : Dispatcher) (results : Nat → Outcome) (i : Nat)
    (events : List Event) (p : Tally) :
    ∃ n, Tallied d results i events p (d.loop results i events p) n := by
  induction events generalizing i p with
  | nil =>
      refine ⟨0, ?_⟩
      rw [Dispatcher.loop]
      constructor <;> simp [List.eq_nil_iff_forall_not_mem]
  | cons event events ih =>
      rw [Dispatcher.loop]
      cases hctx : (results i).ctxErr with
      | some err =>
          refine ⟨0, ?_⟩
          constructor <;> simp [hctx]
      | none =>
          obtain ⟨n, h⟩ := ih (i + 1) (d.dispatch (results i) i event p)
          obtain ⟨hcalls, hpublished, hbalance⟩ :=
            dispatch_spec d (results i) i event p
          refine ⟨n + 1, ?_, ?_, ?_, ?_, ?_, ?_, ?_⟩
          · exact Nat.succ_le_succ h.le
          · intro j hj
            cases j with
            | zero => exact hctx
            | succ j =>
                rw [← Nat.add_assoc, Nat.add_right_comm]
                exact h.going j (Nat.lt_of_succ_lt_succ hj)
          · intro hn
            rw [← Nat.add_assoc, Nat.add_right_comm]
            exact h.stopped (Nat.lt_of_succ_lt_succ hn)
          · rw [h.calls, hcalls]
            simp
          · rw [h.published, hpublished, List.range'_succ, List.countP_cons]
            cases (results i).succeeds with
            | true =>
                simp
                omega
            | false => simp
          · rw [h.balance, hbalance]
            omega
          · rw [h.err]
            simp

/-! ## The calls for one event -/

/-- The calls the record holds for a position. -/
def callsAt (i : Nat) (calls : List (Nat × Call)) : List Call :=
  (calls.filter fun c => c.1 = i).map Prod.snd

theorem callsAt_append (i : Nat) (calls calls' : List (Nat × Call)) :
    callsAt i (calls ++ calls') = callsAt i calls ++ callsAt i calls' := by
  rw [callsAt, List.filter_append, List.map_append]
  rfl

theorem callsAt_callsFor (d : Dispatcher) (outcome : Outcome) (i j : Nat)
    (event : Event) :
    callsAt i (d.callsFor outcome j event) =
      if j = i then (d.callsFor outcome i event).map Prod.snd else [] := by
  by_cases h : j = i
  · subst h
    simp [callsAt, Dispatcher.callsFor]
  · simp [callsAt, Dispatcher.callsFor, h]

theorem callsAt_later (d : Dispatcher) (results : Nat → Outcome)
    (events : List Event) {k i : Nat} (h : i < k) :
    callsAt i ((events.zipIdx k).flatMap fun x =>
      d.callsFor (results x.2) x.2 x.1) = [] := by
  induction events generalizing k with
  | nil => rfl
  | cons event events ih =>
      rw [List.zipIdx_cons, List.flatMap_cons, callsAt_append, callsAt_callsFor,
        if_neg (Nat.ne_of_gt h), ih (Nat.lt_succ_of_lt h)]
      rfl

/-- The calls for a position are those for its event. -/
theorem callsAt_zipIdx (d : Dispatcher) (results : Nat → Outcome)
    {events : List Event} {event : Event} {k i : Nat}
    (h : events[i]? = some event) :
    callsAt (k + i) ((events.zipIdx k).flatMap fun x =>
        d.callsFor (results x.2) x.2 x.1) =
      (d.callsFor (results (k + i)) (k + i) event).map Prod.snd := by
  induction events generalizing k i with
  | nil => cases h
  | cons first events ih =>
      rw [List.zipIdx_cons, List.flatMap_cons, callsAt_append, callsAt_callsFor]
      cases i with
      | zero =>
          cases h
          rw [Nat.add_zero, if_pos rfl,
            callsAt_later d results events (Nat.lt_succ_self k),
            List.append_nil]
      | succ i =>
          rw [if_neg (by omega), ← Nat.add_assoc, Nat.add_right_comm]
          exact ih (List.getElem?_cons_succ.symm.trans h)

/-- The calls `RunOnce` makes for an event it processes, whatever the others
come to. -/
theorem callsAt_runOnce {events : List Event} {n i : Nat}
    (h : Tallied d results 0 events {} (d.loop results 0 events {}) n)
    (hi : i < n) {event : Event} (hevent : events[i]? = some event) :
    callsAt i (d.runOnce results (.ok events)).1.calls =
      (d.callsFor (results i) i event).map Prod.snd := by
  have htake : (events.take n)[i]? = some event := by
    rw [List.getElem?_take_of_lt hi, hevent]
  rw [Dispatcher.runOnce, h.calls, List.nil_append]
  have hcalls := callsAt_zipIdx d results (k := 0) htake
  rwa [Nat.zero_add] at hcalls

theorem lt_of_going {events : List Event} {p : Tally}
    {out : Tally × Option GoErr} {n i : Nat}
    (h : Tallied d results 0 events p out n) (hi : i < events.length)
    (hgoing : ∀ j ≤ i, (results j).ctxErr = none) : i < n := by
  by_contra hle
  rw [Nat.not_lt] at hle
  have hstopped := h.stopped (Nat.lt_of_le_of_lt hle hi)
  rw [Nat.zero_add, hgoing n hle] at hstopped
  cases hstopped

/-- For every batch, all results and wherever the context turns out to be
cancelled: `RunOnce` processes the events in order up to there; for each of
them it publishes once and then marks once, as published or as failed; an event
gets the same calls whatever the results for the others are; the count is that
of the events for which both calls returned nil; and the error is nil exactly
when the count is the length of the batch. -/
theorem runOnce_accounts (d : Dispatcher) (results : Nat → Outcome)
    (events : List Event) :
    ∃ n ≤ events.length,
      (∀ i < n, (results i).ctxErr = none) ∧
      (n < events.length → (results n).ctxErr.isSome) ∧
      (d.runOnce results (.ok events)).1.calls =
        (events.take n).zipIdx.flatMap
          (fun x => d.callsFor (results x.2) x.2 x.1) ∧
      (∀ results' i, i < n → (∀ j ≤ i, (results' j).ctxErr = none) →
        (results' i).publish = (results i).publish →
        (results' i).now = (results i).now →
        callsAt i (d.runOnce results' (.ok events)).1.calls =
          callsAt i (d.runOnce results (.ok events)).1.calls) ∧
      (d.runOnce results (.ok events)).1.published =
        (List.range n).countP (fun i =>
          (results i).publish.isNone && (results i).markPublished.isNone) ∧
      ((d.runOnce results (.ok events)).2 = none ↔
        (d.runOnce results (.ok events)).1.published = events.length) := by
  obtain ⟨n, h⟩ := loop_tallied d results 0 events {}
  refine ⟨n, h.le, ?_, ?_, ?_, ?_, ?_, ?_⟩
  · intro i hi
    have hgoing := h.going i hi
    rwa [Nat.zero_add] at hgoing
  · intro hn
    have hstopped := h.stopped hn
    rwa [Nat.zero_add] at hstopped
  · rw [Dispatcher.runOnce, h.calls, List.nil_append]
  · intro results' i hi hgoing hpublish hnow
    obtain ⟨n', h'⟩ := loop_tallied d results' 0 events {}
    have hlt : i < events.length := Nat.lt_of_lt_of_le hi h.le
    have hevent := List.getElem?_eq_getElem hlt
    rw [callsAt_runOnce h hi hevent,
      callsAt_runOnce h' (lt_of_going h' hlt hgoing) hevent,
      Dispatcher.callsFor, Dispatcher.callsFor, hpublish, hnow]
  · rw [Dispatcher.runOnce, h.published, Nat.zero_add, List.range_eq_range']
    rfl
  · rw [Dispatcher.runOnce, h.err]
    have hbalance := h.balance
    have hle := h.le
    simp only [List.length_nil, Nat.zero_add, Nat.add_zero] at hbalance
    rw [← List.length_eq_zero_iff]
    omega

end PlatformGo.Outbox
