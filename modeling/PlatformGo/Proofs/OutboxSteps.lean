import PlatformGo.Ref.Outbox

/-!
# What a step of the outbox does

A step belongs to a business transaction, to retention or to the clock, and
then it touches the table at most, or it belongs to one dispatcher. For the
second kind `WorkerStep` lists, phase by phase, where the dispatcher goes and
what becomes of the table and of the publications, and `Books` what becomes of
the sums it keeps for the answer of `RunOnce`. The two summaries after
it, of what can happen to the table and of what can happen to a phase, are
what an invariant of the one or of the other is proved from.
-/

namespace PlatformGo.Outbox

open RowStore

variable {setup : Setup} {s t : Sys} {a : Action} {d : Nat}

inductive BusinessStep (setup : Setup) (s : Sys) : Table → Prop
  | same : BusinessStep setup s s.db
  | began {n : Nat} {db : Table} (h : s.db.begin (.business n) = some db) :
      BusinessStep setup s db
  | added {n : Nat} {event : Event} {encoded : Bytes} {actor : String}
      {db₁ db : Table}
      (henc : setup.store.encodeEvent event actor = .ok encoded)
      (hins : s.db.insert (.business n) event.id
        (addedRow event encoded actor s.clock) = some db₁)
      (hexec : db₁.exec (.business n) event = some db) :
      BusinessStep setup s db
  | committed {n : Nat} {db : Table}
      (h : s.db.commit (.business n) = some db) : BusinessStep setup s db
  | rolledBack (n : Nat) :
      BusinessStep setup s (s.db.rollback (.business n))
  | deleted {id : String} {before : Time} {db : Table} {n : Nat}
      (h : s.db.deleteNow id (publishedBefore before) = some (db, n)) :
      BusinessStep setup s db

/-- The events left once the mark of the current one is over. -/
def Phase.remaining : Phase → Option (List Event)
  | .marking _ _ _ rest | .markOpen _ _ _ rest | .marked _ _ _ rest =>
      some rest
  | _ => none

/-- The dispatcher and the id, when the step is the update of `MarkFailed`. -/
def Sys.failedMark (s : Sys) : Action → Option (Nat × String)
  | .mark _ (some (.notExecuted _)) => none
  | .mark d _ =>
      match s.phase d with
      | .marking event _ (.failed ..) _ => some (d, event.id)
      | _ => none
  | .markExec d =>
      match s.phase d with
      | .markOpen event _ (.failed ..) _ => some (d, event.id)
      | _ => none
  | _ => none

inductive WorkerStep (setup : Setup) (s : Sys) (a : Action) (d : Nat) :
    Phase → Phase → Table → List Publication → Prop
  | stopped {events : List Event} :
      WorkerStep setup s a d (.batch events) .idle s.db s.publications
  | aborted (phase : Phase) : WorkerStep setup s a d phase .idle
      (s.db.rollback (.worker d)) s.publications
  | opened {db : Table} (h : s.db.begin (.worker d) = some db) :
      WorkerStep setup s a d .idle .opened db s.publications
  | clock : WorkerStep setup s a d .opened (.selecting s.clock) s.db
      s.publications
  | selected {now : Time} {ids : List String} {limit : Nat}
      (h : selects s.db now limit ids = true) :
      WorkerStep setup s a d (.selecting now)
        (.leasing now (found s.db ids) []) (s.db.lockAll (.worker d) ids)
        s.publications
  | leased {now : Time} {id : String} {row : Row}
      {rows : List (String × Row)} {values : List Event}
      {envelope : EventBus.EventEnvelope} {db : Table} {n : Nat}
      (hdec : setup.store.unmarshal row.envelope = .ok envelope)
      (h : s.db.updateWhere (.worker d) id Row.pending
        (leaseRow now (setup.config d).lease) = some (db, n)) :
      WorkerStep setup s a d (.leasing now ((id, row) :: rows) values)
        (.leasing now rows (values ++ [⟨id, row.subject, some envelope⟩])) db
        s.publications
  | claimed {now : Time} {values : List Event} {db : Table}
      (h : s.db.commit (.worker d) = some db) :
      WorkerStep setup s a d (.leasing now [] values) (.batch values) db
        s.publications
  | claimLost {now : Time} {values : List Event} {db : Table}
      (h : s.db.commit (.worker d) = some db) :
      WorkerStep setup s a d (.leasing now [] values) .idle db s.publications
  | sent {event : Event} {rest : List Event} {err : Option GoErr}
      {envelope : EventBus.EventEnvelope}
      (h : event.envelope = some envelope) :
      WorkerStep setup s a d (.batch (event :: rest)) (.sent event err rest)
        s.db (s.publications ++ [⟨event.subject, envelope, err⟩])
  | stamped {event : Event} {rest : List Event} {err : Option GoErr}
      {mark : Mark} (h : ∀ at_, mark = .published at_ → err = none) :
      WorkerStep setup s a d (.sent event err rest)
        (.marking event err mark rest) s.db s.publications
  | markSkipped {event : Event} {rest : List Event} {err : Option GoErr}
      {mark : Mark} :
      WorkerStep setup s a d (.marking event err mark rest) (.batch rest) s.db
        s.publications
  | markedNow {event : Event} {rest : List Event} {err : Option GoErr}
      {mark : Mark} {db : Table} {n : Nat}
      (h : s.db.updateNow event.id Row.pending (mark.row s.clock) =
        some (db, n))
      (hfailed : ∀ message retryAt, mark = .failed message retryAt →
        s.failedMark a = some (d, event.id)) :
      WorkerStep setup s a d (.marking event err mark rest) (.batch rest) db
        s.publications
  | markOpen {event : Event} {rest : List Event} {err : Option GoErr}
      {mark : Mark} {db : Table} (h : s.db.begin (.worker d) = some db) :
      WorkerStep setup s a d (.marking event err mark rest)
        (.markOpen event err mark rest) db s.publications
  | marked {event : Event} {rest : List Event} {err : Option GoErr}
      {mark : Mark} {db : Table} {n : Nat}
      (h : s.db.updateWhere (.worker d) event.id Row.pending
        (mark.row s.clock) = some (db, n))
      (hfailed : ∀ message retryAt, mark = .failed message retryAt →
        s.failedMark a = some (d, event.id)) :
      WorkerStep setup s a d (.markOpen event err mark rest)
        (.marked event err n rest) db s.publications
  | markCommitted {event : Event} {rest : List Event} {err : Option GoErr}
      {n : Nat} {db : Table} (h : s.db.commit (.worker d) = some db) :
      WorkerStep setup s a d (.marked event err n rest) (.batch rest) db
        s.publications
  | markAborted {phase : Phase} {rest : List Event}
      (h : phase.remaining = some rest) :
      WorkerStep setup s a d phase (.batch rest) (s.db.rollback (.worker d))
        s.publications

/-- The event a dispatcher has published last and not yet settled, the answer
and the events after it. -/
def Phase.current : Phase → Option (Event × Option GoErr × List Event)
  | .sent event err rest | .marking event err _ rest
  | .markOpen event err _ rest | .marked event err _ rest =>
      some (event, err, rest)
  | _ => none

def Phase.claiming : Phase → Bool
  | .opened | .selecting _ | .leasing .. => true
  | _ => false

/-- What a step can do to the dispatcher that takes it. -/
inductive Books (store : SQLStore) (w : Worker) : Worker → Prop
  | opened : Books store w { phase := .opened }
  | claiming {phase : Phase} (h : w.phase.claiming = true)
      (hphase : phase.claiming = true) : Books store w { w with phase }
  | claimed {values : List Event} (h : w.phase.claiming = true) :
      Books store w { w with phase := .batch values }
  | claimFailed {err : GoErr} : Books store w (w.claimFailed err)
  | published {event : Event} {err : Option GoErr} {rest : List Event}
      (h : w.phase = .batch (event :: rest)) :
      Books store w { w with phase := .sent event err rest }
  | marking {phase : Phase} {x : Event × Option GoErr × List Event}
      (h : w.phase.current = some x) (hphase : phase.current = some x) :
      Books store w { w with phase }
  | settled {event : Event} {err markErr : Option GoErr} {rest : List Event}
      (h : w.phase.current = some (event, err, rest)) :
      Books store w (store.afterMark w event err markErr rest)
  | cancelled {event : Event} {rest : List Event} {err : GoErr}
      (h : w.phase = .batch (event :: rest)) :
      Books store w (w.return w.published (w.errors ++ [err]))
  | finished (h : w.phase = .batch []) :
      Books store w (w.return w.published w.errors)
  | crashed : Books store w {}

/-- The dispatcher makes a step of its own and the others stand still. -/
structure Moves (setup : Setup) (s : Sys) (a : Action) (t : Sys) (d : Nat) :
    Prop where
  others : ∀ d', d' ≠ d → t.workers d' = s.workers d'
  clock : t.clock = s.clock
  step : WorkerStep setup s a d (s.phase d) (t.phase d) t.db t.publications
  books : Books setup.store (s.workers d) (t.workers d)

theorem set_phase (s : Sys) (d : Nat) (w : Worker) :
    (s.set d w).phase d = w.phase := by
  show (Function.update s.workers d w d).phase = w.phase
  rw [Function.update_self]

theorem moves_set {w : Worker} (hworkers : t.workers = s.workers)
    (hclock : t.clock = s.clock)
    (h : WorkerStep setup s a d (s.phase d) w.phase t.db t.publications)
    (hbooks : Books setup.store (s.workers d) w) :
    Moves setup s a (t.set d w) d := by
  have hself : (t.set d w).workers d = w := Function.update_self ..
  refine ⟨?_, hclock, ?_, ?_⟩
  · intro d' hd'
    rw [← hworkers]
    exact Function.update_of_ne hd' ..
  · rw [set_phase]
    exact h
  · rw [hself]
    exact hbooks

/-- The same from a phase that has been read already. -/
theorem moves_from {w : Worker} {phase : Phase} (hphase : s.phase d = phase)
    (hworkers : t.workers = s.workers) (hclock : t.clock = s.clock)
    (h : WorkerStep setup s a d phase w.phase t.db t.publications)
    (hbooks : (s.workers d).phase = phase →
      Books setup.store (s.workers d) w) :
    Moves setup s a (t.set d w) d := by
  refine moves_set hworkers hclock ?_ (hbooks hphase)
  rw [hphase]
  exact h

theorem books_claiming {w : Worker} {phase phase' : Phase}
    (hphase : phase.claiming = true) (hphase' : phase'.claiming = true)
    (h : w.phase = phase) :
    Books setup.store w { w with phase := phase' } :=
  .claiming (h ▸ hphase) hphase'

theorem books_marking {w : Worker} {phase phase' : Phase}
    {x : Event × Option GoErr × List Event} (hphase : phase.current = some x)
    (hphase' : phase'.current = some x) (h : w.phase = phase) :
    Books setup.store w { w with phase := phase' } :=
  .marking (h ▸ hphase) hphase'

theorem afterMark_phase {store : SQLStore} {w : Worker} {event : Event}
    {err markErr : Option GoErr} {rest : List Event} :
    (store.afterMark w event err markErr rest).phase = .batch rest := by
  cases err <;> cases markErr <;> rfl

/-- The dispatcher is done with the mark, however it went. -/
theorem moves_afterMark {phase : Phase} {event : Event}
    {err markErr : Option GoErr} {rest : List Event}
    (hphase : s.phase d = phase)
    (hcurrent : phase.current = some (event, err, rest))
    (hworkers : t.workers = s.workers) (hclock : t.clock = s.clock)
    (h : WorkerStep setup s a d phase (.batch rest) t.db t.publications) :
    Moves setup s a (t.set d (setup.store.afterMark (s.workers d) event err
      markErr rest)) d := by
  refine moves_from hphase hworkers hclock ?_ fun heq =>
    .settled (heq ▸ hcurrent)
  rw [afterMark_phase]
  exact h

theorem claimLease_moves (h : setup.claimLease s d = some t) :
    Moves setup s (.claimLease d) t d := by
  unfold Setup.claimLease at h
  split at h
  · next now id row rows values hphase =>
      split at h
      · cases h
        exact moves_set rfl rfl (.aborted _) .claimFailed
      · next envelope henv =>
          obtain ⟨r, hr, rfl⟩ := Option.map_eq_some_iff.mp h
          exact moves_from hphase rfl rfl (.leased henv hr)
            (books_claiming rfl rfl)
  · cases h

theorem claimCommit_moves {outcome : CommitOutcome}
    (h : setup.claimCommit s d outcome = some t) :
    Moves setup s (.claimCommit d outcome) t d := by
  cases outcome with
  | done =>
      simp only [Setup.claimCommit] at h
      split at h
      · next now values hphase =>
          obtain ⟨db, hdb, rfl⟩ := Option.map_eq_some_iff.mp h
          refine moves_from hphase rfl rfl (.claimed hdb) fun heq => ?_
          exact .claimed (congrArg Phase.claiming heq)
      · cases h
  | lost e =>
      simp only [Setup.claimCommit] at h
      split at h
      · next now values hphase =>
          obtain ⟨db, hdb, rfl⟩ := Option.map_eq_some_iff.mp h
          exact moves_from hphase rfl rfl (.claimLost hdb) fun _ =>
            .claimFailed
      · cases h
  | refused e =>
      simp only [Setup.claimCommit] at h
      split at h
      · cases h
        exact moves_set rfl rfl (.aborted _) .claimFailed
      · cases h

theorem mark_moves {fault : Option StatementFault}
    (h : setup.mark s d fault = some t) :
    Moves setup s (.mark d fault) t d := by
  unfold Setup.mark at h
  split at h
  · next event err mark rest hphase =>
      split at h
      · cases h
      · split at h
        · cases h
          exact moves_afterMark hphase rfl rfl rfl .markSkipped
        all_goals
          obtain ⟨r, hr, rfl⟩ := Option.map_eq_some_iff.mp h
          refine moves_afterMark hphase rfl rfl rfl (.markedNow hr ?_)
          rintro message retryAt rfl
          simp only [Sys.failedMark, hphase]
  · cases h

theorem markCommit_moves {outcome : CommitOutcome}
    (h : setup.markCommit s d outcome = some t) :
    Moves setup s (.markCommit d outcome) t d := by
  unfold Setup.markCommit at h
  split at h
  · next event err count rest hphase =>
      simp only [] at h
      split at h
      · obtain ⟨db, hdb, rfl⟩ := Option.map_eq_some_iff.mp h
        exact moves_afterMark hphase rfl rfl rfl (.markCommitted hdb)
      · obtain ⟨db, hdb, rfl⟩ := Option.map_eq_some_iff.mp h
        exact moves_afterMark hphase rfl rfl rfl (.markCommitted hdb)
      · cases h
        exact moves_afterMark hphase rfl rfl rfl (.markAborted rfl)
  · cases h

theorem markFail_moves {err : GoErr}
    (h : setup.markFail s d err = some t) :
    Moves setup s (.markFail d err) t d := by
  unfold Setup.markFail at h
  simp only [] at h
  split at h
  · cases h
  · split at h
    · next hphase =>
        cases h
        exact moves_afterMark hphase rfl rfl rfl (.markAborted rfl)
    · next hphase =>
        cases h
        exact moves_afterMark hphase rfl rfl rfl (.markAborted rfl)
    · cases h

/-- A step that belongs to no dispatcher. -/
structure Outside (setup : Setup) (s : Sys) (a : Action) (t : Sys) :
    Prop where
  workers : t.workers = s.workers
  clock : t.clock = s.clock ∨ a = .clock t.clock
  publications : t.publications = s.publications
  db : BusinessStep setup s t.db

/-- The dispatcher an action belongs to. -/
def Action.dispatcher : Action → Option Nat
  | .begin _ | .addTx .. | .commit _ | .rollback _ | .delete .. | .clock _ =>
      none
  | .claimBegin d | .claimClock d | .claimSelect d _ | .claimLease d
  | .claimCommit d _ | .claimFail d _ | .publish d _ | .cancel d _ | .stamp d
  | .mark d _ | .markBegin d | .markExec d | .markCommit d _ | .markFail d _
  | .finish d | .crash d => some d

theorem step_outside (h : setup.step s a = some t)
    (ha : a.dispatcher = none) : Outside setup s a t := by
  cases a with
  | begin n =>
      obtain ⟨db, hdb, rfl⟩ := Option.map_eq_some_iff.mp h
      exact ⟨rfl, .inl rfl, rfl, .began hdb⟩
  | addTx n event actor =>
      simp only [Setup.step, Setup.addTx] at h
      split at h
      · cases h
      · next encoded henc =>
          obtain ⟨db₁, hins, h⟩ := Option.bind_eq_some_iff.mp h
          obtain ⟨db, hexec, rfl⟩ := Option.map_eq_some_iff.mp h
          exact ⟨rfl, .inl rfl, rfl, .added henc hins hexec⟩
  | commit n =>
      obtain ⟨db, hdb, rfl⟩ := Option.map_eq_some_iff.mp h
      exact ⟨rfl, .inl rfl, rfl, .committed hdb⟩
  | rollback n =>
      cases h
      exact ⟨rfl, .inl rfl, rfl, .rolledBack n⟩
  | delete id before =>
      obtain ⟨r, hr, rfl⟩ := Option.map_eq_some_iff.mp h
      exact ⟨rfl, .inl rfl, rfl, .deleted hr⟩
  | clock t =>
      cases h
      exact ⟨rfl, .inr rfl, rfl, .same⟩
  | _ => cases ha

theorem step_moves (h : setup.step s a = some t)
    (ha : a.dispatcher = some d) : Moves setup s a t d := by
  cases a with
  | begin | addTx | commit | rollback | delete | clock => cases ha
  | claimBegin d =>
      cases ha
      simp only [Setup.step] at h
      split at h
      · next hphase =>
          obtain ⟨db, hdb, rfl⟩ := Option.map_eq_some_iff.mp h
          exact moves_from hphase rfl rfl (.opened hdb) fun _ => .opened
      · cases h
  | claimClock d =>
      cases ha
      simp only [Setup.step] at h
      split at h
      · next hphase =>
          cases h
          exact moves_from hphase rfl rfl .clock (books_claiming rfl rfl)
      · cases h
  | claimSelect d ids =>
      cases ha
      simp only [Setup.step, Setup.claimSelect] at h
      split at h
      · next now hphase =>
          split at h
          · next hsel =>
              cases h
              exact moves_from hphase rfl rfl (.selected hsel)
                (books_claiming rfl rfl)
          · cases h
      · cases h
  | claimLease d =>
      cases ha
      exact claimLease_moves h
  | claimCommit d outcome =>
      cases ha
      exact claimCommit_moves h
  | claimFail d err =>
      cases ha
      simp only [Setup.step, Sys.claimFail] at h
      split at h
      all_goals first
        | cases h
          exact moves_set rfl rfl (.aborted _) .claimFailed
        | cases h
  | publish d err =>
      cases ha
      simp only [Setup.step, Sys.publish] at h
      split at h
      · next event rest hphase =>
          obtain ⟨envelope, henv, rfl⟩ := Option.map_eq_some_iff.mp h
          exact moves_from hphase rfl rfl (.sent henv) .published
      · cases h
  | stamp d =>
      cases ha
      simp only [Setup.step, Setup.stamp] at h
      split at h
      · next event rest hphase =>
          cases h
          exact moves_from hphase rfl rfl (.stamped fun _ _ => rfl)
            (books_marking rfl rfl)
      · next event e rest hphase =>
          cases h
          exact moves_from hphase rfl rfl (.stamped nofun)
            (books_marking rfl rfl)
      · cases h
  | mark d fault =>
      cases ha
      exact mark_moves h
  | markBegin d =>
      cases ha
      simp only [Setup.step, Setup.markBegin] at h
      split at h
      · next event err mark rest hphase =>
          split at h
          · cases h
          · obtain ⟨db, hdb, rfl⟩ := Option.map_eq_some_iff.mp h
            exact moves_from hphase rfl rfl (.markOpen hdb)
              (books_marking rfl rfl)
      · cases h
  | markExec d =>
      cases ha
      simp only [Setup.step, Sys.markExec] at h
      split at h
      · next event err mark rest hphase =>
          obtain ⟨r, hr, rfl⟩ := Option.map_eq_some_iff.mp h
          refine moves_from hphase rfl rfl (.marked hr ?_)
            (books_marking rfl rfl)
          rintro message retryAt rfl
          simp only [Sys.failedMark, hphase]
      · cases h
  | markCommit d outcome =>
      cases ha
      exact markCommit_moves h
  | markFail d err =>
      cases ha
      exact markFail_moves h
  | cancel d err =>
      cases ha
      simp only [Setup.step] at h
      split at h
      · next hphase =>
          cases h
          exact moves_from hphase rfl rfl .stopped .cancelled
      · cases h
  | finish d =>
      cases ha
      simp only [Setup.step] at h
      split at h
      · next hphase =>
          cases h
          exact moves_from hphase rfl rfl .stopped .finished
      · cases h
  | crash d =>
      cases ha
      cases h
      exact moves_set rfl rfl (.aborted _) .crashed

theorem step_cases (h : setup.step s a = some t) :
    Outside setup s a t ∨ ∃ d, Moves setup s a t d := by
  cases ha : a.dispatcher with
  | none => exact .inl (step_outside h ha)
  | some d => exact .inr ⟨d, step_moves h ha⟩

/-! ## The table alone -/

theorem selects_free {db : Table} {now : Time} {limit : Nat}
    {ids : List String} (h : selects db now limit ids = true) :
    ∀ k ∈ ids, db.locks k = none ∧
      ∃ r, db.lookup k = some r ∧ r.due now = true := by
  intro k hk
  simp only [selects, Bool.and_eq_true, List.all_eq_true] at h
  have hmem : k ∈ candidates db now := by
    have hc := h.1.1.1.2 k hk
    simpa using hc
  obtain ⟨-, hcond⟩ := List.mem_filter.mp hmem
  rw [Bool.and_eq_true] at hcond
  obtain ⟨r, hr, hdue⟩ := (Option.any_eq_true ..).mp hcond.2
  exact ⟨Option.isNone_iff_eq_none.mp hcond.1, r, hr, hdue⟩

theorem found_lookup {db : Table} {ids : List String} {p : String × Row}
    (h : p ∈ found db ids) : p.1 ∈ ids ∧ db.lookup p.1 = some p.2 := by
  obtain ⟨k, hk, hfound⟩ := List.mem_filterMap.mp h
  obtain ⟨r, hr, rfl⟩ := Option.map_eq_some_iff.mp hfound
  exact ⟨hk, hr⟩

inductive DbStep (setup : Setup) (s : Sys) : Table → Prop
  | same : DbStep setup s s.db
  | began {u : Tid} {db : Table} (h : s.db.begin u = some db) :
      DbStep setup s db
  | added {n : Nat} {event : Event} {encoded : Bytes}
      {actor : String} {db₁ db : Table}
      (henc : setup.store.encodeEvent event actor = .ok encoded)
      (hins : s.db.insert (.business n) event.id
        (addedRow event encoded actor s.clock) = some db₁)
      (hexec : db₁.exec (.business n) event = some db) : DbStep setup s db
  | committed {u : Tid} {db : Table} (h : s.db.commit u = some db) :
      DbStep setup s db
  | rolledBack (u : Tid) : DbStep setup s (s.db.rollback u)
  | locked (d : Nat) {ids : List String}
      (hfree : ∀ k ∈ ids, s.db.locks k = none) :
      DbStep setup s (s.db.lockAll (.worker d) ids)
  | leased {d : Nat} {id : String} {now lease : Time} {db : Table} {n : Nat}
      (h : s.db.updateWhere (.worker d) id Row.pending (leaseRow now lease) =
        some (db, n)) : DbStep setup s db
  | marked {d : Nat} {event : Event} {err : Option GoErr} {mark : Mark}
      {rest : List Event} {db : Table} {n : Nat}
      (hphase : s.phase d = .markOpen event err mark rest)
      (h : s.db.updateWhere (.worker d) event.id Row.pending
        (mark.row s.clock) = some (db, n)) : DbStep setup s db
  | markedNow {d : Nat} {event : Event} {err : Option GoErr} {mark : Mark}
      {rest : List Event} {db : Table} {n : Nat}
      (hphase : s.phase d = .marking event err mark rest)
      (h : s.db.updateNow event.id Row.pending (mark.row s.clock) =
        some (db, n)) : DbStep setup s db
  | deleted {id : String} {before : Time} {db : Table} {n : Nat}
      (h : s.db.deleteNow id (publishedBefore before) = some (db, n)) :
      DbStep setup s db

theorem BusinessStep.table {db : Table} (h : BusinessStep setup s db) :
    DbStep setup s db := by
  cases h with
  | same => exact .same
  | began h => exact .began h
  | added henc hins hexec => exact .added henc hins hexec
  | committed h => exact .committed h
  | rolledBack n => exact .rolledBack _
  | deleted h => exact .deleted h

theorem WorkerStep.table {phase phase' : Phase} {db : Table}
    {pubs : List Publication}
    (h : WorkerStep setup s a d phase phase' db pubs)
    (hphase : s.phase d = phase) : DbStep setup s db := by
  cases h with
  | stopped => exact .same
  | aborted => exact .rolledBack _
  | opened h => exact .began h
  | clock => exact .same
  | selected h => exact .locked d fun k hk => (selects_free h k hk).1
  | leased hdec h => exact .leased h
  | claimed h => exact .committed h
  | claimLost h => exact .committed h
  | sent h => exact .same
  | stamped h => exact .same
  | markSkipped => exact .same
  | markedNow h hfailed => exact .markedNow hphase h
  | markOpen h => exact .began h
  | marked h hfailed => exact .marked hphase h
  | markCommitted h => exact .committed h
  | markAborted h => exact .rolledBack _

theorem step_db (h : setup.step s a = some t) : DbStep setup s t.db := by
  rcases step_cases h with hout | ⟨d, hmove⟩
  · exact hout.db.table
  · exact hmove.step.table rfl

/-! ## Rows that stay -/

theorem WorkerStep.keeps {phase phase' : Phase} {db : Table}
    {pubs : List Publication}
    (h : WorkerStep setup s a d phase phase' db pubs) : s.db.Keeps db := by
  cases h with
  | stopped | clock | sent | stamped | markSkipped => exact .refl _
  | aborted | markAborted => exact .rollback _ _
  | opened h | markOpen h => exact .begin h
  | selected => exact .lockAll _ _ _
  | leased _ h | marked h => exact .updateWhere h
  | claimed h | claimLost h | markCommitted h => exact .commit h
  | markedNow h => exact .updateNow h

/-- Only retention removes rows. -/
theorem step_keeps (h : setup.step s a = some t)
    (ha : ∀ id before, a ≠ .delete id before) : s.db.Keeps t.db := by
  cases hd : a.dispatcher with
  | some d => exact (step_moves h hd).step.keeps
  | none =>
      -- a `BusinessStep` does not say which action deletes
      cases a with
      | begin n =>
          obtain ⟨db, hdb, rfl⟩ := Option.map_eq_some_iff.mp h
          exact .begin hdb
      | addTx n event actor =>
          simp only [Setup.step, Setup.addTx] at h
          split at h
          · cases h
          · obtain ⟨db₁, hins, h⟩ := Option.bind_eq_some_iff.mp h
            obtain ⟨db, hexec, rfl⟩ := Option.map_eq_some_iff.mp h
            exact (Db.Keeps.insert hins).trans (.exec hexec)
      | commit n =>
          obtain ⟨db, hdb, rfl⟩ := Option.map_eq_some_iff.mp h
          exact .commit hdb
      | rollback n =>
          cases h
          exact .rollback _ _
      | delete id before => exact absurd rfl (ha id before)
      | clock t =>
          cases h
          exact .refl _
      | _ => cases hd

end PlatformGo.Outbox
