import PlatformGo.Proofs.OutboxSteps
import PlatformGo.Ref.Dispatcher

/-!
# The dispatchers of the table run `RunOnce`

The dispatchers that work on the table interleave their statements with
everything else. Seen from one of them, a call of `RunOnce` goes as the loop
over its batch says: whatever a dispatcher returns is what the loop returns for
some claimed batch and some outcome of every round (`returned_runOnce`).

The outcomes come one at a time, while the loop is given all of them. So the
invariant speaks of the outcomes up to the current round, and of what the loop
makes of the rest for any continuation of them (`Reached`).
-/

namespace PlatformGo.Outbox

open Lts

variable {setup : Setup} {s t : Sys} {a : Action} {n : Nat} {d : Dispatcher}

theorem current_of_claiming {phase : Phase} (h : phase.claiming = true) :
    phase.current = none := by
  cases phase <;> first | rfl | cases h

/-! ## The loop behind them -/

/-- A dispatcher has come so far in a batch that the rest is left: whatever the
outcomes from here on are, the loop goes on with its sums. -/
def Reached (d : Dispatcher) (rest : List Event) (w : Worker) : Prop :=
  ∃ (events : List Event) (results : Nat → Outcome) (i : Nat) (p : Tally),
    p.published = w.published ∧ p.dispatchErrors = w.errors ∧
      ∀ results', (∀ j < i, results' j = results j) →
        d.runOnce results' (.ok events) = d.loop results' i rest p

/-- A call of `RunOnce` can have returned this. -/
def Yields (d : Dispatcher) (result : Nat × List GoErr) : Prop :=
  ∃ results claimed,
    (d.runOnce results claimed).1.published = result.1 ∧
      (d.runOnce results claimed).2 = errorsJoin (result.2.map some)

theorem Reached.of_eq {rest : List Event} {w w' : Worker}
    (h : Reached d rest w) (hpublished : w'.published = w.published)
    (herrors : w'.errors = w.errors) : Reached d rest w' := by
  obtain ⟨events, results, i, p, hp, he, hloop⟩ := h
  exact ⟨events, results, i, p, hp.trans hpublished.symm,
    he.trans herrors.symm, hloop⟩

theorem reached_start {values : List Event} {w : Worker}
    (hpublished : w.published = 0) (herrors : w.errors = []) :
    Reached d values w :=
  ⟨values, fun _ => {}, 0, {}, hpublished.symm, herrors.symm, fun _ _ => rfl⟩

theorem Reached.finished {w : Worker} (h : Reached d [] w) :
    Yields d (w.published, w.errors) := by
  obtain ⟨events, results, i, p, hp, he, hloop⟩ := h
  have hrun := hloop results fun _ _ => rfl
  rw [Dispatcher.loop] at hrun
  refine ⟨results, .ok events, ?_, ?_⟩
  · rw [hrun]
    exact hp
  · rw [hrun, ← he]

theorem Reached.cancelled {event : Event} {rest : List Event} {w : Worker}
    {err : GoErr} (h : Reached d (event :: rest) w) :
    Yields d (w.published, w.errors ++ [err]) := by
  obtain ⟨events, results, i, p, hp, he, hloop⟩ := h
  have hrun := hloop (Function.update results i { ctxErr := some err })
    fun j hj => Function.update_of_ne (Nat.ne_of_lt hj) ..
  rw [Dispatcher.loop, Function.update_self] at hrun
  refine ⟨Function.update results i { ctxErr := some err }, .ok events, ?_, ?_⟩
  · rw [hrun]
    exact hp
  · rw [hrun, ← he]

/-- The outcome of a round with these answers. -/
def settledOutcome (err markErr : Option GoErr) : Outcome :=
  { publish := err, markPublished := markErr, markFailed := markErr }

theorem dispatch_settled (store : SQLStore) (hprint : d.isPrint = store.isPrint)
    (w : Worker) (event : Event) (err markErr : Option GoErr)
    (rest : List Event) (i : Nat) {p : Tally}
    (hp : p.published = w.published) (he : p.dispatchErrors = w.errors) :
    (d.dispatch (settledOutcome err markErr) i event p).published =
        (store.afterMark w event err markErr rest).published ∧
      (d.dispatch (settledOutcome err markErr) i event p).dispatchErrors =
        (store.afterMark w event err markErr rest).errors := by
  cases err <;> cases markErr <;>
    simp [Dispatcher.dispatch, SQLStore.afterMark, settledOutcome, Tally.call,
      Tally.fail, hprint, hp, he]

theorem Reached.settled {store : SQLStore} (hprint : d.isPrint = store.isPrint)
    {event : Event} {err markErr : Option GoErr} {rest : List Event}
    {w : Worker} (h : Reached d (event :: rest) w) :
    Reached d rest (store.afterMark w event err markErr rest) := by
  obtain ⟨events, results, i, p, hp, he, hloop⟩ := h
  obtain ⟨hpublished, herrors⟩ :=
    dispatch_settled store hprint w event err markErr rest i hp he
  refine ⟨events, Function.update results i (settledOutcome err markErr), i + 1,
    _, hpublished, herrors, ?_⟩
  intro results' hresults
  have hbelow : ∀ j < i, results' j = results j := by
    intro j hj
    rw [hresults j (Nat.lt_succ_of_lt hj),
      Function.update_of_ne (Nat.ne_of_lt hj)]
  have hhere : results' i = settledOutcome err markErr := by
    rw [hresults i (Nat.lt_succ_self i), Function.update_self]
  rw [hloop results' hbelow, Dispatcher.loop, hhere]
  rfl

/-! ## In every run -/

/-- The sums of a dispatcher are those of the loop, and what it returned last
is what the loop returns. -/
structure Dispatches (d : Dispatcher) (w : Worker) : Prop where
  result : ∀ result, w.result = some result → Yields d result
  claiming : w.phase.claiming = true → w.published = 0 ∧ w.errors = []
  batch : ∀ rest, w.phase = .batch rest → Reached d rest w
  current : ∀ event err rest, w.phase.current = some (event, err, rest) →
    Reached d (event :: rest) w

theorem dispatches_claiming {w : Worker}
    (hresult : ∀ result, w.result = some result → Yields d result)
    (hphase : w.phase.claiming = true)
    (hsums : w.published = 0 ∧ w.errors = []) : Dispatches d w := by
  refine ⟨hresult, fun _ => hsums, ?_, ?_⟩
  · intro rest heq
    rw [heq] at hphase
    cases hphase
  · intro event err rest heq
    rw [current_of_claiming hphase] at heq
    cases heq

theorem dispatches_batch {w : Worker} {rest : List Event}
    (hresult : ∀ result, w.result = some result → Yields d result)
    (hphase : w.phase = .batch rest) (hrest : Reached d rest w) :
    Dispatches d w := by
  refine ⟨hresult, ?_, ?_, ?_⟩
  · rw [hphase]
    intro h
    cases h
  · intro rest' heq
    rw [hphase] at heq
    cases heq
    exact hrest
  · rw [hphase]
    intro event err rest' heq
    cases heq

theorem dispatches_current {w : Worker} {event : Event} {err : Option GoErr}
    {rest : List Event}
    (hresult : ∀ result, w.result = some result → Yields d result)
    (hphase : w.phase.current = some (event, err, rest))
    (hrest : Reached d (event :: rest) w) : Dispatches d w := by
  refine ⟨hresult, ?_, ?_, ?_⟩
  · intro hclaiming
    rw [current_of_claiming hclaiming] at hphase
    cases hphase
  · intro rest' heq
    rw [heq] at hphase
    cases hphase
  · intro event' err' rest' heq
    rw [hphase] at heq
    cases heq
    exact hrest

theorem dispatches_idle {w : Worker} (hphase : w.phase = .idle)
    (hresult : ∀ result, w.result = some result → Yields d result) :
    Dispatches d w := by
  refine ⟨hresult, ?_, ?_, ?_⟩
  · rw [hphase]
    intro heq
    cases heq
  · rw [hphase]
    intro rest heq
    cases heq
  · rw [hphase]
    intro event err rest heq
    cases heq

theorem dispatches_books {store : SQLStore} (hprint : d.isPrint = store.isPrint)
    {w w' : Worker} (h : Dispatches d w) (hw : Books store w w') :
    Dispatches d w' := by
  cases hw with
  | opened =>
      refine dispatches_claiming ?_ rfl ⟨rfl, rfl⟩
      intro result hresult
      cases hresult
  | claiming hphase hnext =>
      exact dispatches_claiming h.result hnext (h.claiming hphase)
  | claimed hphase =>
      obtain ⟨hpublished, herrors⟩ := h.claiming hphase
      exact dispatches_batch h.result rfl (reached_start hpublished herrors)
  | @claimFailed err =>
      refine dispatches_idle rfl ?_
      intro result hresult
      cases hresult
      exact ⟨fun _ => {}, .error err, rfl, rfl⟩
  | published hphase =>
      exact dispatches_current h.result rfl
        ((h.batch _ hphase).of_eq rfl rfl)
  | @marking phase x hcurrent hnext =>
      exact dispatches_current h.result hnext
        ((h.current _ _ _ hcurrent).of_eq rfl rfl)
  | @settled event err markErr rest hcurrent =>
      refine dispatches_batch ?_ afterMark_phase
        ((h.current _ _ _ hcurrent).settled hprint)
      cases err <;> cases markErr <;> exact h.result
  | cancelled hphase =>
      refine dispatches_idle rfl ?_
      intro result hresult
      cases hresult
      exact (h.batch _ hphase).cancelled
  | finished hphase =>
      refine dispatches_idle rfl ?_
      intro result hresult
      cases hresult
      exact (h.batch _ hphase).finished
  | crashed =>
      refine dispatches_idle rfl ?_
      intro result hresult
      cases hresult

/-- A dispatcher of the table, with the settings it was given. -/
def Setup.dispatcher (setup : Setup) (n : Nat) : Dispatcher :=
  ⟨(setup.config n).batchSize, (setup.config n).lease,
    (setup.config n).retryDelay, setup.store.isPrint⟩

theorem dispatches_step (s : Sys) (a : Action) (t : Sys)
    (hs : Dispatches (setup.dispatcher n) (s.workers n))
    (h : setup.step s a = some t) :
    Dispatches (setup.dispatcher n) (t.workers n) := by
  cases ha : a.dispatcher with
  | none =>
      rw [(step_outside h ha).workers]
      exact hs
  | some m =>
      by_cases hm : n = m
      · subst hm
        exact dispatches_books rfl hs (step_moves h ha).books
      · rw [(step_moves h ha).others n hm]
        exact hs

/-- Whatever a dispatcher of the table returns, the loop returns for some
batch and some outcomes. -/
theorem returned_runOnce {as : List Action}
    (hrun : run setup.step {} as = some s) {result : Nat × List GoErr}
    (h : (s.workers n).result = some result) :
    Yields (setup.dispatcher n) result := by
  have hinit : Dispatches (setup.dispatcher n) (({} : Sys).workers n) := by
    refine dispatches_idle rfl ?_
    intro result hresult
    cases hresult
  have hs := run_inv_of (I := fun s => Dispatches (setup.dispatcher n)
    (s.workers n)) dispatches_step hinit hrun
  exact hs.result result h

end PlatformGo.Outbox
