import PlatformGo.Proofs.OutboxLease
import Mathlib.Data.List.Perm.Subperm

/-!
# Claims among themselves

Only claims are at work on the table: any number of dispatchers, each with a
transaction that selects, leases its rows one by one and commits, or gives up
on the way. The table they start from is arbitrary.

Three things are to be shown of them. What a claim returns is an answer to its
query at the moment of the query, and it is what its commit changes
(`Progress` follows a claim from the one to the other; the locks keep the rows
as they were selected). Rows are changed by commits only. And the answers of
two claims have no row in common: the commit of the first moves the row's time
past what the clock of the second shows.

A commit whose answer is lost has changed the rows and is reported as an
error, so the second of these has its exception.
-/

namespace PlatformGo.Outbox

open RowStore Lts

variable {setup : Setup} {s₀ s t : Sys} {a : Action} {d : Nat}

/-! ## The answer to the query -/

/-- The first rows, at most `limit`, of those that are unpublished, available
and unlocked, in the order of the query. -/
structure FirstDue (db : Table) (now : Time) (limit : Nat)
    (ids : List String) : Prop where
  nodup : ids.Nodup
  size : ids.length ≤ limit
  due : ∀ k ∈ ids, db.locks k = none ∧
    ∃ r, db.lookup k = some r ∧ r.publishedAt = none ∧ r.availableAt ≤ now
  ordered : ids.Pairwise fun i j => notAfter db i j = true
  first : ∀ k r, db.lookup k = some r → db.locks k = none →
    r.publishedAt = none → r.availableAt ≤ now → k ∉ ids →
    ids.length = limit ∧ ∀ i ∈ ids, notAfter db i k = true

theorem due_iff {now : Time} {r : Row} :
    r.due now = true ↔ r.publishedAt = none ∧ r.availableAt ≤ now := by
  simp [Row.due, Row.pending]

theorem mem_candidates {db : Table} {now : Time} {k : String} :
    k ∈ candidates db now ↔ db.locks k = none ∧
      ∃ r, db.lookup k = some r ∧ r.publishedAt = none ∧
        r.availableAt ≤ now := by
  rw [candidates, List.mem_filter, Bool.and_eq_true,
    Option.isNone_iff_eq_none, Option.any_eq_true]
  constructor
  · rintro ⟨_, hfree, r, hr, hdue⟩
    exact ⟨hfree, r, hr, due_iff.mp hdue⟩
  · rintro ⟨hfree, r, hr, hdue⟩
    refine ⟨?_, hfree, r, hr, due_iff.mpr hdue⟩
    exact AList.mem_keys.mp (AList.lookup_isSome.mp (Option.isSome_of_eq_some hr))

theorem firstDue_of_selects {db : Table} {now : Time} {limit : Nat}
    {ids : List String} (h : selects db now limit ids = true) :
    FirstDue db now limit ids := by
  simp only [selects, Bool.and_eq_true, decide_eq_true_eq, List.all_eq_true,
    List.contains_eq_mem, beq_iff_eq, Bool.or_eq_true] at h
  obtain ⟨⟨⟨⟨hnodup, hmem⟩, hlen⟩, hord⟩, hfirst⟩ := h
  refine ⟨hnodup, by omega, fun k hk => mem_candidates.mp (hmem k hk), hord,
    fun k r hr hfree hpub hav hk => ?_⟩
  have hcand : k ∈ candidates db now :=
    mem_candidates.mpr ⟨hfree, r, hr, hpub, hav⟩
  -- A candidate that is left out makes the candidates more than the answer.
  have hmore : ids.length + 1 ≤ (candidates db now).length := by
    have hsub : k :: ids ⊆ candidates db now :=
      List.cons_subset.mpr ⟨hcand, fun i hi => hmem i hi⟩
    exact (List.subperm_of_subset (List.nodup_cons.mpr ⟨hk, hnodup⟩)
      hsub).length_le
  exact ⟨by omega, (hfirst k hcand).resolve_left hk⟩

theorem found_ids {db : Table} {ids : List String}
    (h : ∀ k ∈ ids, ∃ r, db.lookup k = some r) :
    (found db ids).map Prod.fst = ids := by
  induction ids with
  | nil => rfl
  | cons k ids ih =>
      obtain ⟨r, hr⟩ := h k (List.mem_cons_self ..)
      have hrest := ih fun i hi => h i (List.mem_cons_of_mem _ hi)
      rw [found, List.filterMap_cons, hr]
      exact congrArg (k :: ·) hrest

/-! ## What a step of the claims does -/

/-- The calls of `Claim` and what ends or separates them; no other writer. -/
def Action.claiming : Action → Bool
  | .claimBegin _ | .claimClock _ | .claimSelect .. | .claimLease _
  | .claimCommit .. | .claimFail .. | .cancel .. | .finish _ | .crash _
  | .clock _ => true
  | _ => false

/-- A step of one dispatcher: where it goes and what becomes of the table. -/
inductive Move (setup : Setup) (s : Sys) (d : Nat) :
    Action → Phase → Table → Prop
  | opened {db : Table} (hphase : s.phase d = .idle)
      (h : s.db.begin (.worker d) = some db) :
      Move setup s d (.claimBegin d) .opened db
  | read (hphase : s.phase d = .opened) :
      Move setup s d (.claimClock d) (.selecting s.clock) s.db
  | selected {now : Time} {ids : List String}
      (hphase : s.phase d = .selecting now)
      (h : selects s.db now (setup.config d).batchSize.toNat ids = true) :
      Move setup s d (.claimSelect d ids) (.leasing now (found s.db ids) [])
        (s.db.lockAll (.worker d) ids)
  | leased {now : Time} {id : String} {row : Row}
      {rows : List (String × Row)} {values : List Event}
      {envelope : EventBus.EventEnvelope} {db : Table} {n : Nat}
      (hphase : s.phase d = .leasing now ((id, row) :: rows) values)
      (hdec : setup.store.unmarshal row.envelope = .ok envelope)
      (h : s.db.updateWhere (.worker d) id Row.pending
        (leaseRow now (setup.config d).lease) = some (db, n)) :
      Move setup s d (.claimLease d)
        (.leasing now rows (values ++ [⟨id, row.subject, some envelope⟩])) db
  | claimed {now : Time} {values : List Event} {db : Table}
      (hphase : s.phase d = .leasing now [] values)
      (h : s.db.commit (.worker d) = some db) :
      Move setup s d (.claimCommit d .done) (.batch values) db
  | lost {now : Time} {values : List Event} {db : Table} {e : GoErr}
      (hphase : s.phase d = .leasing now [] values)
      (h : s.db.commit (.worker d) = some db) :
      Move setup s d (.claimCommit d (.lost e)) .idle db
  | aborted {a : Action} (ha : ∀ d', a ≠ .claimBegin d') :
      Move setup s d a .idle (s.db.rollback (.worker d))
  | released {a : Action} {events : List Event}
      (ha : ∀ d', a ≠ .claimBegin d') (hphase : s.phase d = .batch events) :
      Move setup s d a .idle s.db

inductive ClaimStep (setup : Setup) (s : Sys) : Action → Sys → Prop
  | clock (time : Time) :
      ClaimStep setup s (.clock time) { s with clock := time }
  | moved {a : Action} {d : Nat} {w : Worker} {db : Table}
      (h : Move setup s d a w.phase db) :
      ClaimStep setup s a ({ s with db }.set d w)

theorem claimStep_of_step (h : setup.step s a = some t)
    (hclaim : a.claiming = true) : ClaimStep setup s a t := by
  cases a with
  | claimBegin d =>
      simp only [Setup.step] at h
      split at h
      · next hphase =>
          obtain ⟨db, hdb, rfl⟩ := Option.map_eq_some_iff.mp h
          exact .moved (.opened hphase hdb)
      · cases h
  | claimClock d =>
      simp only [Setup.step] at h
      split at h
      · next hphase =>
          cases h
          exact .moved (.read hphase)
      · cases h
  | claimSelect d ids =>
      simp only [Setup.step, Setup.claimSelect] at h
      split at h
      · next hphase =>
          split at h
          · next hsel =>
              cases h
              exact .moved (.selected hphase hsel)
          · cases h
      · cases h
  | claimLease d =>
      simp only [Setup.step, Setup.claimLease] at h
      split at h
      · next hphase =>
          split at h
          · cases h
            exact .moved (.aborted (by simp))
          · next hdec =>
              obtain ⟨r, hr, rfl⟩ := Option.map_eq_some_iff.mp h
              exact .moved (.leased hphase hdec hr)
      · cases h
  | claimCommit d outcome =>
      cases outcome <;> simp only [Setup.step, Setup.claimCommit] at h <;>
        split at h <;> rename_i hphase
      · obtain ⟨db, hdb, rfl⟩ := Option.map_eq_some_iff.mp h
        exact .moved (.claimed hphase hdb)
      · cases h
      · obtain ⟨db, hdb, rfl⟩ := Option.map_eq_some_iff.mp h
        exact .moved (.lost hphase hdb)
      · cases h
      · cases h
        exact .moved (.aborted (by simp))
      · cases h
  | claimFail d err =>
      simp only [Setup.step, Sys.claimFail] at h
      split at h
      all_goals first
        | cases h
          exact .moved (.aborted (by simp))
        | cases h
  | cancel | finish =>
      simp only [Setup.step] at h
      split at h
      · next hphase =>
          cases h
          exact .moved (.released (by simp) hphase)
      · cases h
  | crash d =>
      cases h
      exact .moved (.aborted (by simp))
  | clock time =>
      cases h
      exact .clock time
  | _ => cases hclaim

/-- Nothing a dispatcher does reaches the transactions, the locks or the
locked rows of the others. -/
theorem Move.kept {phase : Phase} {db : Table} (h : Move setup s d a phase db)
    (hwf : Db.Wf s.db) :
    Db.Wf db ∧ ∀ u, u ≠ .worker d → Db.Kept u s.db db ∧
      ∀ k, db.locks k = some u → s.db.locks k = some u := by
  have hof : ∀ {k : String} {db : Table},
      Db.StepOf (.worker d) k s.db db →
      Db.Wf db ∧ ∀ u, u ≠ .worker d → Db.Kept u s.db db ∧
        ∀ k, db.locks k = some u → s.db.locks k = some u := by
    intro k db hstep
    refine ⟨hstep.wf, fun u hu => ⟨hstep.kept u hu, fun k' hl => ?_⟩⟩
    exact (hstep.locks k' u hl).resolve_right fun hnew => hu hnew.1
  cases h with
  | opened _ h => exact hof (k := "") (Db.stepOf_begin hwf h)
  | read => exact hof (k := "") (Db.StepOf.refl hwf)
  | selected _ h =>
      obtain ⟨hwf', hkept⟩ := Db.lockAll_spec (t := Tid.worker d) hwf
        fun k hk => .inl (selects_free h k hk).1
      refine ⟨hwf', fun u hu => ⟨hkept u, fun k hl => ?_⟩⟩
      exact (Db.lockAll_locks_some hl).resolve_right fun hnew => hu hnew.1
  | leased _ _ h => exact hof (Db.stepOf_updateWhere hwf h)
  | claimed _ h | lost _ h => exact hof (k := "") (Db.stepOf_commit hwf h)
  | aborted => exact hof (k := "") (Db.stepOf_rollback hwf)
  | released => exact hof (k := "") (Db.StepOf.refl hwf)

/-- A dispatcher holds no lock but those of the rows it has selected. -/
theorem Move.own_locks {phase : Phase} {db : Table}
    (h : Move setup s d a phase db) (hwf : Db.Wf s.db)
    (hold : ∀ k, s.db.locks k = some (.worker d) → (s.phase d).Selects k) :
    ∀ k, db.locks k = some (.worker d) → phase.Selects k := by
  intro k hl
  have hcommit : ∀ {db : Table}, s.db.commit (.worker d) = some db →
      db.locks k ≠ some (.worker d) := by
    intro db hdb
    obtain ⟨_, _, _, _, hlocks, _⟩ := Db.commit_eq hdb
    rw [hlocks]
    exact Db.unlock_not_own k
  cases h with
  | opened hphase h =>
      obtain ⟨_, rfl⟩ := Db.begin_eq h
      have hsel := hold k hl
      rw [hphase] at hsel
      exact hsel
  | read hphase =>
      have hsel := hold k hl
      rw [hphase] at hsel
      exact hsel
  | @selected now ids hphase h =>
      rcases Db.lockAll_locks_some hl with hl | ⟨_, hk⟩
      · have hsel := hold k hl
        rw [hphase] at hsel
        exact hsel.elim
      · obtain ⟨r, hr⟩ := (firstDue_of_selects h).due k hk |>.2
        exact .inl ⟨(k, r), List.mem_filterMap.mpr ⟨k, hk, by simp [hr.1]⟩,
          rfl⟩
  | @leased now id row rows values envelope db n hphase hdec h =>
      rcases (Db.stepOf_updateWhere hwf h).locks k _ hl with hl | ⟨_, rfl⟩
      · have hsel := hold k hl
        rw [hphase] at hsel
        rcases hsel with ⟨p, hp, rfl⟩ | ⟨e, he, rfl⟩
        · rcases List.mem_cons.mp hp with rfl | hp
          · exact .inr ⟨_, List.mem_append_right _ (List.mem_singleton_self _),
              rfl⟩
          · exact .inl ⟨p, hp, rfl⟩
        · exact .inr ⟨e, List.mem_append_left _ he, rfl⟩
      · exact .inr ⟨_, List.mem_append_right _ (List.mem_singleton_self _),
          rfl⟩
  | claimed _ h => exact absurd hl (hcommit h)
  | lost _ h => exact absurd hl (hcommit h)
  | aborted => exact absurd hl (Db.unlock_not_own k)
  | released _ hphase =>
      have hsel := hold k hl
      rw [hphase] at hsel
      exact hsel

/-! ## From the query to the commit -/

/-- How far a claim has come with the rows it selected in the table `old`: the
rows still to be leased are as they were, the others carry the lease, and the
lock has kept all of them for the claim. -/
structure Progress (setup : Setup) (old db : Table) (d : Nat) (now : Time)
    (ids : List String) (rows : List (String × Row)) (values : List Event) :
    Prop where
  ids_eq : ids = values.map Event.id ++ rows.map Prod.fst
  held : ∀ k ∈ ids, db.locks k = some (.worker d)
  same : ∀ k ∈ ids, db.lookup k = old.lookup k
  rest : ∀ p ∈ rows, old.lookup p.1 = some p.2 ∧
    db.view (.worker d) p.1 = some p.2
  leased : ∀ e ∈ values, ∃ r envelope, old.lookup e.id = some r ∧
    setup.store.unmarshal r.envelope = .ok envelope ∧
    e.subject = r.subject ∧ e.envelope = some envelope ∧
    db.view (.worker d) e.id = some (leaseRow now (setup.config d).lease r)

theorem Progress.mem_rest {old db : Table} {now : Time} {ids : List String}
    {rows : List (String × Row)} {values : List Event}
    (h : Progress setup old db d now ids rows values) {p : String × Row}
    (hp : p ∈ rows) : p.1 ∈ ids := by
  rw [h.ids_eq]
  exact List.mem_append_right _ (List.mem_map_of_mem hp)

theorem Progress.mem_leased {old db : Table} {now : Time} {ids : List String}
    {rows : List (String × Row)} {values : List Event}
    (h : Progress setup old db d now ids rows values) {e : Event}
    (he : e ∈ values) : e.id ∈ ids := by
  rw [h.ids_eq]
  exact List.mem_append_left _ (List.mem_map_of_mem he)

theorem Progress.kept {old db db' : Table} {now : Time} {ids : List String}
    {rows : List (String × Row)} {values : List Event}
    (h : Progress setup old db d now ids rows values)
    (hk : Db.Kept (.worker d) db db') :
    Progress setup old db' d now ids rows values := by
  refine ⟨h.ids_eq, fun k hmem => hk.locks k (h.held k hmem),
    fun k hmem => (hk.rows k (h.held k hmem)).trans (h.same k hmem),
    fun p hp => ?_, fun e he => ?_⟩
  · obtain ⟨hold, hview⟩ := h.rest p hp
    exact ⟨hold, (hk.view (h.held _ (h.mem_rest hp))).trans hview⟩
  · obtain ⟨r, envelope, hr, hdec, hsubj, henv, hview⟩ := h.leased e he
    exact ⟨r, envelope, hr, hdec, hsubj, henv,
      (hk.view (h.held _ (h.mem_leased he))).trans hview⟩

theorem progress_selected {now : Time} {limit : Nat} {ids : List String}
    (hwf : Db.Wf s.db) (h : FirstDue s.db now limit ids) :
    Progress setup s.db (s.db.lockAll (.worker d) ids) d now ids
      (found s.db ids) [] := by
  have hrows : ∀ k ∈ ids, ∃ r, s.db.lookup k = some r := by
    intro k hk
    obtain ⟨_, r, hr, _⟩ := h.due k hk
    exact ⟨r, hr⟩
  refine ⟨(found_ids hrows).symm, fun k hk => Db.lockAll_locks (.inl hk),
    fun k _ => Db.lockAll_lookup .., fun p hp => ?_, nofun⟩
  obtain ⟨hid, hrow⟩ := found_lookup hp
  refine ⟨hrow, ?_⟩
  rw [Db.lockAll_view, hwf.view_of_not_held, hrow]
  rw [(h.due _ hid).1]
  nofun

/-- The ids are distinct, so the update of one row leaves the views of the
others. -/
theorem progress_leased {old db db' : Table} {now : Time} {limit n : Nat}
    {ids : List String} {id : String} {row : Row}
    {rows : List (String × Row)} {values : List Event}
    {envelope : EventBus.EventEnvelope} (hsel : FirstDue old now limit ids)
    (h : Progress setup old db d now ids ((id, row) :: rows) values)
    (hdec : setup.store.unmarshal row.envelope = .ok envelope)
    (hu : db.updateWhere (.worker d) id Row.pending
      (leaseRow now (setup.config d).lease) = some (db', n)) :
    Progress setup old db' d now ids rows
      (values ++ [⟨id, row.subject, some envelope⟩]) := by
  obtain ⟨hold, hview⟩ : old.lookup id = some row ∧
      db.view (.worker d) id = some row :=
    h.rest (id, row) (List.mem_cons_self ..)
  have hid : id ∈ ids := h.mem_rest (List.mem_cons_self ..)
  have hpending : row.pending = true := by
    obtain ⟨_, r, hr, hpub, _⟩ := hsel.due id hid
    rw [hold, Option.some.injEq] at hr
    rw [Row.pending, hr, hpub]
    rfl
  have hnodup := hsel.nodup
  rw [h.ids_eq, List.map_cons] at hnodup
  have hrest : ∀ p ∈ rows, p.1 ≠ id := by
    intro p hp heq
    have htail := (List.nodup_append.mp hnodup).2.1
    have hmem : p.1 ∈ rows.map Prod.fst := List.mem_map_of_mem hp
    exact (List.nodup_cons.mp htail).1 (heq ▸ hmem)
  have hvalues : ∀ e ∈ values, e.id ≠ id := by
    intro e he
    exact (List.nodup_append.mp hnodup).2.2 _ (List.mem_map_of_mem he) _
      (List.mem_cons_self ..)
  obtain ⟨tx, htx, hlock, ⟨_, _, hnone⟩ | ⟨r, hr, _, _, rfl⟩⟩ :=
    Db.updateWhere_eq hu
  · rw [hnone row hview] at hpending
    cases hpending
  · rw [hview, Option.some.injEq] at hr
    subst hr
    refine ⟨?_, fun k hk => Db.lock_locks_of_held hlock (h.held k hk),
      h.same, fun p hp => ?_, fun e he => ?_⟩
    · rw [h.ids_eq]
      simp
    · obtain ⟨hold', hview'⟩ := h.rest p (List.mem_cons_of_mem _ hp)
      exact ⟨hold', (Db.put_view_ne htx (hrest p hp)).trans hview'⟩
    · rcases List.mem_append.mp he with he | he
      · obtain ⟨r, env, hr, hd, hsubj, henv, hv⟩ := h.leased e he
        exact ⟨r, env, hr, hd, hsubj, henv,
          (Db.put_view_ne htx (hvalues e he)).trans hv⟩
      · rw [List.mem_singleton.mp he]
        exact ⟨row, envelope, hold, hdec, rfl, rfl, Db.put_view_self ..⟩

/-! ## A run of claims -/

/-- Any table, with nobody at work on it. -/
structure AtRest (s : Sys) : Prop where
  txs : ∀ u, s.db.txs u = none
  locks : ∀ k, s.db.locks k = none
  idle : ∀ d, s.phase d = .idle

/-- The last claim of the dispatcher in the run made its query in the state
`m`, with this answer. -/
def QueriedIn (setup : Setup) (s₀ : Sys) (as : List Action) (d : Nat)
    (now : Time) (ids : List String) (m : Sys) : Prop :=
  m.phase d = .selecting now ∧
    ∃ pre post, as = pre ++ .claimSelect d ids :: post ∧
      run setup.step s₀ pre = some m ∧ .claimBegin d ∉ post

/-- What the state owes to the run. -/
structure History (setup : Setup) (s₀ : Sys) (as : List Action) (s : Sys) :
    Prop where
  wf : Db.Wf s.db
  locks : ∀ k u, s.db.locks k = some u →
    ∃ d, u = .worker d ∧ (s.phase d).Selects k
  read : ∀ d now, (s.phase d).reading = some now →
    ∃ m, (m, .claimClock d) ∈ steps setup.step s₀ as ∧ m.clock = now
  chosen : ∀ d now rows values, s.phase d = .leasing now rows values →
    ∃ m ids, QueriedIn setup s₀ as d now ids m ∧
      FirstDue m.db now (setup.config d).batchSize.toNat ids ∧
      Progress setup m.db s.db d now ids rows values

theorem history_atRest (h : AtRest s₀) : History setup s₀ [] s₀ := by
  refine ⟨fun u tx htx => ?_, fun k u hl => ?_, fun d now hread => ?_,
    fun d now rows values hphase => ?_⟩
  · rw [h.txs] at htx
    cases htx
  · rw [h.locks] at hl
    cases hl
  · rw [h.idle] at hread
    cases hread
  · rw [h.idle] at hphase
    cases hphase

theorem QueriedIn.snoc {as : List Action} {now : Time} {ids : List String}
    {m : Sys} (h : QueriedIn setup s₀ as d now ids m)
    (ha : a ≠ .claimBegin d) : QueriedIn setup s₀ (as ++ [a]) d now ids m := by
  obtain ⟨hphase, pre, post, rfl, hpre, hpost⟩ := h
  refine ⟨hphase, pre, post ++ [a], by simp, hpre, fun hmem => ?_⟩
  rcases List.mem_append.mp hmem with hmem | hmem
  · exact hpost hmem
  · exact ha (List.mem_singleton.mp hmem).symm

theorem read_snoc {as : List Action} (hrun : run setup.step s₀ as = some s)
    {now : Time} (h : ∃ m, (m, .claimClock d) ∈ steps setup.step s₀ as ∧
      m.clock = now) :
    ∃ m, (m, .claimClock d) ∈ steps setup.step s₀ (as ++ [a]) ∧
      m.clock = now := by
  obtain ⟨m, hm, hclock⟩ := h
  rw [steps_append hrun]
  exact ⟨m, List.mem_append_left _ hm, hclock⟩

/-- A dispatcher opens its own transaction only. -/
theorem Move.begins {phase : Phase} {db : Table} {d' : Nat}
    (h : Move setup s d a phase db) (hd : d' ≠ d) : a ≠ .claimBegin d' := by
  cases h with
  | opened =>
      intro heq
      cases heq
      exact hd rfl
  | aborted ha => exact ha d'
  | released ha => exact ha d'
  | _ => nofun

/-- The reading a claim has after a step, it had before, or it took it. -/
theorem Move.read_eq {phase : Phase} {db : Table} {now : Time}
    (h : Move setup s d a phase db) (hread : phase.reading = some now) :
    (s.phase d).reading = some now ∨ a = .claimClock d ∧ s.clock = now := by
  cases h with
  | read =>
      cases hread
      exact .inr ⟨rfl, rfl⟩
  | selected hphase | leased hphase =>
      rw [hphase]
      exact .inl hread
  | _ => cases hread

theorem Move.chosen {as : List Action} {phase : Phase} {db : Table}
    (hrun : run setup.step s₀ as = some s) (hist : History setup s₀ as s)
    (h : Move setup s d a phase db) {now : Time}
    {rows : List (String × Row)} {values : List Event}
    (hphase : phase = .leasing now rows values) :
    ∃ m ids, QueriedIn setup s₀ (as ++ [a]) d now ids m ∧
      FirstDue m.db now (setup.config d).batchSize.toNat ids ∧
      Progress setup m.db db d now ids rows values := by
  cases h with
  | selected hsel h =>
      cases hphase
      have hfirst := firstDue_of_selects h
      exact ⟨s, _, ⟨hsel, as, [], rfl, hrun, nofun⟩, hfirst,
        progress_selected hist.wf hfirst⟩
  | leased hleasing hdec h =>
      cases hphase
      obtain ⟨m, ids, hq, hfirst, hprog⟩ := hist.chosen _ _ _ _ hleasing
      exact ⟨m, ids, hq.snoc nofun, hfirst,
        progress_leased hfirst hprog hdec h⟩
  | _ => cases hphase

theorem history_step {as : List Action}
    (hrun : run setup.step s₀ as = some s) (hist : History setup s₀ as s)
    (hclaim : a.claiming = true) (h : setup.step s a = some t) :
    History setup s₀ (as ++ [a]) t := by
  cases claimStep_of_step h hclaim with
  | clock time =>
      refine ⟨hist.wf, hist.locks,
        fun d now hread => read_snoc hrun (hist.read d now hread),
        fun d now rows values hphase => ?_⟩
      obtain ⟨m, ids, hq, hrest⟩ := hist.chosen d now rows values hphase
      exact ⟨m, ids, hq.snoc nofun, hrest⟩
  | @moved _ d w db hmove =>
      obtain ⟨hwf, hothers⟩ := hmove.kept hist.wf
      have hself : (({ s with db } : Sys).set d w).phase d = w.phase :=
        set_phase _ d w
      have hne : ∀ d', d' ≠ d →
          (({ s with db } : Sys).set d w).phase d' = s.phase d' := by
        intro d' hd'
        exact congrArg Worker.phase (Function.update_of_ne hd' ..)
      have htid : ∀ {d'}, d' ≠ d → Tid.worker d' ≠ Tid.worker d := by
        intro d' hd' heq
        cases heq
        exact hd' rfl
      have hown : ∀ k, s.db.locks k = some (.worker d) →
          (s.phase d).Selects k := by
        intro k hl
        obtain ⟨d', heq, hsel⟩ := hist.locks k _ hl
        cases heq
        exact hsel
      refine ⟨hwf, fun k u hl => ?_, fun d' now hread => ?_,
        fun d' now rows values hphase => ?_⟩
      · by_cases hu : u = .worker d
        · subst hu
          exact ⟨d, rfl, hself ▸ hmove.own_locks hist.wf hown k hl⟩
        · obtain ⟨d', rfl, hsel⟩ := hist.locks k u ((hothers u hu).2 k hl)
          have hd' : d' ≠ d := fun heq => hu (heq ▸ rfl)
          exact ⟨d', rfl, (hne d' hd').symm ▸ hsel⟩
      · by_cases hd' : d' = d
        · subst hd'
          rw [hself] at hread
          rcases hmove.read_eq hread with hold | ⟨rfl, hclock⟩
          · exact read_snoc hrun (hist.read d' now hold)
          · exact ⟨s, step_mem hrun h, hclock⟩
        · rw [hne d' hd'] at hread
          exact read_snoc hrun (hist.read d' now hread)
      · by_cases hd' : d' = d
        · subst hd'
          rw [hself] at hphase
          exact hmove.chosen hrun hist hphase
        · rw [hne d' hd'] at hphase
          obtain ⟨m, ids, hq, hfirst, hprog⟩ :=
            hist.chosen d' now rows values hphase
          exact ⟨m, ids, hq.snoc (hmove.begins hd'), hfirst,
            hprog.kept (hothers _ (htid hd')).1⟩

theorem history_run {as : List Action} (hrest : AtRest s₀)
    (hclaims : ∀ a ∈ as, a.claiming = true)
    (hrun : run setup.step s₀ as = some s) : History setup s₀ as s := by
  refine run_history
    (P := fun as s => (∀ a ∈ as, a.claiming = true) → History setup s₀ as s)
    (fun _ => history_atRest hrest) ?_ hrun hclaims
  intro pre m a t hpre ih hst hall
  exact history_step hpre (ih fun b hb => hall b (by simp [hb]))
    (hall a (by simp)) hst

/-! ## What a claim returns and changes -/

/-- `Claim` of the dispatcher commits and returns the events; `now` is its
reading of the clock. -/
structure Claimed (setup : Setup) (s t : Sys) (d : Nat) (now : Time)
    (values : List Event) : Prop where
  step : setup.step s (.claimCommit d .done) = some t
  phase : s.phase d = .leasing now [] values

theorem Claimed.commit {now : Time} {values : List Event}
    (h : Claimed setup s t d now values) :
    s.db.commit (.worker d) = some t.db := by
  have hstep := h.step
  simp only [Setup.step, Setup.claimCommit, h.phase] at hstep
  obtain ⟨db, hdb, rfl⟩ := Option.map_eq_some_iff.mp hstep
  exact hdb

/-- The claim returns the answer to its query, decoded, and changes exactly
the rows it returns. -/
structure Exact (setup : Setup) (s₀ : Sys) (as : List Action) (s t : Sys)
    (d : Nat) (now : Time) (values : List Event) : Prop where
  query : ∃ m, QueriedIn setup s₀ as d now (values.map Event.id) m ∧
    FirstDue m.db now (setup.config d).batchSize.toNat
      (values.map Event.id) ∧
    ∀ e ∈ values, ∃ r envelope, m.db.lookup e.id = some r ∧
      setup.store.unmarshal r.envelope = .ok envelope ∧
      e.subject = r.subject ∧ e.envelope = some envelope ∧
      s.db.lookup e.id = some r ∧
      t.db.lookup e.id = some (leaseRow now (setup.config d).lease r)
  others : ∀ k, k ∉ values.map Event.id → t.db.lookup k = s.db.lookup k

theorem exact_of_claimed {as : List Action} {now : Time}
    {values : List Event} (hist : History setup s₀ as s)
    (h : Claimed setup s t d now values) :
    Exact setup s₀ as s t d now values := by
  obtain ⟨tx, _, hrows, _⟩ := Db.commit_eq h.commit
  obtain ⟨m, ids, hq, hfirst, hprog⟩ := hist.chosen d now _ _ h.phase
  have hids : ids = values.map Event.id := by
    rw [hprog.ids_eq]
    simp
  subst hids
  refine ⟨⟨m, hq, hfirst, fun e he => ?_⟩, fun k hk => ?_⟩
  · obtain ⟨r, envelope, hr, hdec, hsubj, henv, hview⟩ := hprog.leased e he
    exact ⟨r, envelope, hr, hdec, hsubj, henv,
      (hprog.same _ (hprog.mem_leased he)).trans hr,
      (hrows e.id).trans hview⟩
  · rw [hrows]
    refine hist.wf.view_of_not_held fun hl => hk ?_
    obtain ⟨d', heq, hsel⟩ := hist.locks k _ hl
    cases heq
    rw [h.phase] at hsel
    rcases hsel with ⟨p, hp, _⟩ | ⟨e, he, rfl⟩
    · cases hp
    · exact List.mem_map_of_mem he

/-- Only the commit of a claim changes a row. -/
theorem ClaimStep.same_rows (h : ClaimStep setup s a t)
    (hdone : ∀ d, a ≠ .claimCommit d .done)
    (hlost : ∀ d e, a ≠ .claimCommit d (.lost e)) (k : String) :
    t.db.lookup k = s.db.lookup k := by
  cases h with
  | clock => rfl
  | @moved _ d w db hmove =>
      show db.lookup k = s.db.lookup k
      generalize w.phase = phase at hmove
      cases hmove with
      | opened _ h =>
          obtain ⟨_, rfl⟩ := Db.begin_eq h
          rfl
      | read => rfl
      | selected => exact Db.lockAll_lookup ..
      | leased _ _ h =>
          obtain ⟨_, _, _, ⟨_, rfl, _⟩ | ⟨_, _, _, _, rfl⟩⟩ :=
            Db.updateWhere_eq h
          · rfl
          · rfl
      | claimed => exact absurd rfl (hdone d)
      | lost => exact absurd rfl (hlost d _)
      | aborted => rfl
      | released => rfl

/-! ## Two claims -/

/-- While no clock has reached the time a row is available from, no claim
takes it. -/
theorem Move.not_taken {phase : Phase} {db : Table} {k : String} {due : Time}
    (h : Move setup s d a phase db)
    (hv : Db.Versions (NotBefore due) k s.db)
    (hsel : ¬ (s.phase d).Selects k)
    (hread : ∀ now, (s.phase d).reading = some now → now < due) :
    Db.Versions (NotBefore due) k db ∧ ¬ phase.Selects k := by
  cases h with
  | opened _ h => exact ⟨hv.begin h, id⟩
  | read => exact ⟨hv, id⟩
  | @selected now ids hphase h =>
      refine ⟨hv.lockAll _, ?_⟩
      rintro (⟨p, hp, rfl⟩ | ⟨e, he, _⟩)
      · obtain ⟨hid, _⟩ := found_lookup hp
        obtain ⟨_, r, hr, hpub, hav⟩ := (firstDue_of_selects h).due _ hid
        have hpending : r.pending = true := by
          rw [Row.pending, hpub]
          rfl
        have hnow : now < due := hread now (by rw [hphase]; rfl)
        exact absurd (Int.le_trans (hv.row r hr hpending) hav)
          (Int.not_le.mpr hnow)
      · cases he
  | @leased now id row rows values envelope db n hphase hdec h =>
      rw [hphase] at hsel
      refine ⟨hv.updateWhere h ?_, ?_⟩
      · rintro rfl
        exact absurd (.inl ⟨(k, row), List.mem_cons_self .., rfl⟩) hsel
      · rintro (⟨p, hp, hk⟩ | ⟨e, he, hk⟩)
        · exact hsel (.inl ⟨p, List.mem_cons_of_mem _ hp, hk⟩)
        · rcases List.mem_append.mp he with he | he
          · exact hsel (.inr ⟨e, he, hk⟩)
          · rw [List.mem_singleton.mp he] at hk
            exact hsel (.inl ⟨(id, row), List.mem_cons_self .., hk⟩)
  | claimed _ h => exact ⟨hv.commit h, id⟩
  | lost _ h => exact ⟨hv.commit h, id⟩
  | aborted => exact ⟨hv.rollback _, id⟩
  | released => exact ⟨hv, id⟩

theorem ClaimStep.not_taken {k : String} {due : Time}
    (h : ClaimStep setup s a t) (hv : Db.Versions (NotBefore due) k s.db)
    (hsel : ∀ d, ¬ (s.phase d).Selects k)
    (hread : ∀ d now, (s.phase d).reading = some now → now < due) :
    Db.Versions (NotBefore due) k t.db ∧ ∀ d, ¬ (t.phase d).Selects k := by
  cases h with
  | clock => exact ⟨hv, hsel⟩
  | @moved _ d w db hmove =>
      obtain ⟨hv', hsel'⟩ := hmove.not_taken hv (hsel d) (hread d)
      refine ⟨hv', fun d' => ?_⟩
      by_cases hd' : d' = d
      · subst hd'
        rw [set_phase]
        exact hsel'
      · have hphase : (({ s with db } : Sys).set d w).phase d' = s.phase d' :=
          congrArg Worker.phase (Function.update_of_ne hd' ..)
        rw [hphase]
        exact hsel d'

/-- The readings of the clock in a run of claims lie less than the lease
apart. -/
def CloseReadings (setup : Setup) (s₀ : Sys) (as : List Action) : Prop :=
  ∀ m d m' d', (m, Action.claimClock d) ∈ steps setup.step s₀ as →
    (m', Action.claimClock d') ∈ steps setup.step s₀ as →
    m'.clock < m.clock + (setup.config d).lease

theorem readings_close {as pre pre' : List Action} {m m' : Sys} {d' : Nat}
    {now now' : Time} (hrest : AtRest s₀)
    (hclaims : ∀ a ∈ as, a.claiming = true)
    (hclose : CloseReadings setup s₀ as) (hp : pre <+: as)
    (hp' : pre' <+: as) (hpre : run setup.step s₀ pre = some m)
    (hpre' : run setup.step s₀ pre' = some m')
    (hread : (m.phase d).reading = some now)
    (hread' : (m'.phase d').reading = some now') :
    now' < now + (setup.config d).lease := by
  obtain ⟨u, hu, rfl⟩ := (history_run hrest
    (fun a ha => hclaims a (hp.subset ha)) hpre).read d now hread
  obtain ⟨u', hu', rfl⟩ := (history_run hrest
    (fun a ha => hclaims a (hp'.subset ha)) hpre').read d' now' hread'
  exact hclose u d u' d' (steps_initial hp hpre hu)
    (steps_initial hp' hpre' hu')

theorem Phase.Selects.reading {phase : Phase} {k : String}
    (h : phase.Selects k) : ∃ now, phase.reading = some now := by
  cases phase with
  | leasing now rows values => exact ⟨now, rfl⟩
  | _ => exact h.elim

theorem claimed_disjoint {as bs : List Action} {s₁ s₂ s₃ s₄ : Sys}
    {d' : Nat} {now now' : Time} {values values' : List Event}
    (hrest : AtRest s₀)
    (hclaims : ∀ a ∈ as ++ .claimCommit d .done :: bs, a.claiming = true)
    (hclose : CloseReadings setup s₀ (as ++ .claimCommit d .done :: bs))
    (hrun : run setup.step s₀ as = some s₁)
    (hclaim : Claimed setup s₁ s₂ d now values)
    (hrun' : run setup.step s₂ bs = some s₃)
    (hclaim' : Claimed setup s₃ s₄ d' now' values') :
    ∀ e ∈ values, ∀ e' ∈ values', e'.id ≠ e.id := by
  intro e he e' he' hid
  have hstart : History setup s₀ [] s₀ := history_atRest hrest
  have hinv : ClaimInv setup s₁ :=
    run_inv_of (fun _ _ _ => claimInv_step)
      ⟨hstart.wf, fun d => by rw [hrest.idle]; trivial⟩ hrun
  have hguard : Guarded e.id (now + (setup.config d).lease) s₂ :=
    guarded_of_returns hinv ⟨hclaim.step, values, hclaim.phase, he⟩
  -- No reading in the rest of the run reaches the end of the lease.
  have hread : ∀ pre m, pre <+: bs → run setup.step s₂ pre = some m →
      ∀ d₁ now₁, (m.phase d₁).reading = some now₁ →
        now₁ < now + (setup.config d).lease := by
    intro pre m hpref hpre d₁ now₁ hread
    have hall : run setup.step s₀ (as ++ .claimCommit d .done :: pre) =
        some m :=
      run_append.mpr ⟨s₁, hrun, run_cons.mpr ⟨s₂, hclaim.step, hpre⟩⟩
    have hfirst : (s₁.phase d).reading = some now := by
      rw [hclaim.phase]
      rfl
    exact readings_close hrest hclaims hclose (List.prefix_append ..)
      ((List.prefix_append_right_inj as).mpr
        ((List.prefix_cons_inj _).mpr hpref)) hrun hall hfirst hread
  have hfree : ∀ d₁, ¬ (s₂.phase d₁).Selects e.id := by
    intro d₁ hsel
    obtain ⟨now₁, hnow₁⟩ := hsel.reading
    exact absurd (hguard.claims d₁ now₁ hsel hnow₁)
      (Int.not_le.mpr (hread [] s₂ List.nil_prefix rfl d₁ now₁ hnow₁))
  have hnever : ∀ d₁, ¬ (s₃.phase d₁).Selects e.id := by
    refine (run_history
      (P := fun pre m => pre <+: bs →
        Db.Versions (NotBefore (now + (setup.config d).lease)) e.id m.db ∧
          ∀ d₁, ¬ (m.phase d₁).Selects e.id)
      (fun _ => ⟨hguard.versions, hfree⟩) ?_ hrun' List.prefix_rfl).2
    intro pre m a t hpre ih hst hpref
    have hpref' : pre <+: bs := (List.prefix_append pre [a]).trans hpref
    obtain ⟨hv, hsel⟩ := ih hpref'
    have ha : a.claiming = true := by
      refine hclaims a (List.mem_append_right _ (List.mem_cons_of_mem _ ?_))
      exact hpref.subset (List.mem_append_right _ (List.mem_singleton_self a))
    exact (claimStep_of_step hst ha).not_taken hv hsel
      (hread pre m hpref' hpre)
  refine hnever d' ?_
  rw [hclaim'.phase]
  exact .inr ⟨e', he', hid⟩

/-- `RunOnce` of the dispatcher returns because its `Claim` has failed. -/
def FailsClaim (s t : Sys) (d : Nat) : Prop :=
  ∃ err, t.workers d = (s.workers d).claimFailed err

/-- Any number of claims on any table, with no other writer. A claim that
succeeds returns, in order, the first rows of its query that are unpublished,
available and unlocked, at most `limit` of them, and changes exactly these; no
claim after it returns one of them if the readings of the clock lie less than
the lease apart. No other step changes a row, a failing one included, except
the commit that takes effect and loses its answer. -/
theorem claims_disjoint_exact_atomic (hrest : AtRest s₀) {as : List Action}
    (hclaims : ∀ a ∈ as, a.claiming = true)
    (hrun : run setup.step s₀ as = some s) :
    (∀ t d now values, Claimed setup s t d now values →
      Exact setup s₀ as s t d now values ∧
      ∀ bs s' t' d' now' values', (∀ b ∈ bs, b.claiming = true) →
        CloseReadings setup s₀ (as ++ .claimCommit d .done :: bs) →
        run setup.step t bs = some s' →
        Claimed setup s' t' d' now' values' →
        ∀ e ∈ values, ∀ e' ∈ values', e'.id ≠ e.id) ∧
    (∀ a t, a.claiming = true → setup.step s a = some t →
      (∀ d, a ≠ .claimCommit d .done) →
      (∀ d err, a ≠ .claimCommit d (.lost err)) →
      ∀ k, t.db.lookup k = s.db.lookup k) := by
  refine ⟨fun t d now values h => ⟨?_, ?_⟩, fun a t ha hst hdone hlost => ?_⟩
  · exact exact_of_claimed (history_run hrest hclaims hrun) h
  · intro bs s' t' d' now' values' hbs hclose hrun' h'
    refine claimed_disjoint hrest (fun a ha => ?_) hclose hrun h hrun' h'
    rcases List.mem_append.mp ha with ha | ha
    · exact hclaims a ha
    · rcases List.mem_cons.mp ha with rfl | ha
      · rfl
      · exact hbs a ha
  · exact (claimStep_of_step hst ha).same_rows hdone hlost

/-! ## Two orders, two dispatchers -/

/-- Two orders are waiting. -/
def twoOrders : Sys :=
  let row (order : String) : Row :=
    addedRow (orderEvent order) (orderEnvelope order).wire "orders" 0
  { db := { (Db.empty : Table) with
      rows := AList.insert "order-event-2" (row "order-2")
        (AList.insert "order-event" (row "order-1") ∅) } }

/-- Dispatchers that claim one event at a time. -/
def oneByOne : Setup := ⟨orderStore, fun _ => Config.new { batchSize := 1 }⟩

theorem twoOrders_atRest : AtRest twoOrders :=
  ⟨fun _ => rfl, fun _ => rfl, fun _ => rfl⟩

/-- A commit that takes effect and loses its answer is returned as an error
by a claim whose row has changed. -/
theorem lost_commit_changes_row :
    ¬ ∀ (setup : Setup) (s₀ : Sys) (as : List Action) (s : Sys) (a : Action)
        (t : Sys) (d : Nat), AtRest s₀ → (∀ a ∈ as, a.claiming = true) →
      run setup.step s₀ as = some s → a.claiming = true →
      setup.step s a = some t → FailsClaim s t d →
      ∀ k, t.db.lookup k = s.db.lookup k := by
  intro hall
  have hrun : (run oneByOne.step twoOrders
      (claimUpToCommit 1 "order-event")).isSome = true := by decide
  obtain ⟨s, hs⟩ := Option.isSome_iff_exists.mp hrun
  have hlast : ((run oneByOne.step twoOrders
      (claimUpToCommit 1 "order-event")).bind fun s =>
        (oneByOne.step s (.claimCommit 1 (.lost
          (.new (bytes "connection reset"))))).map fun t =>
            decide (t.db.lookup "order-event" = s.db.lookup "order-event")) =
      some false := by decide
  rw [hs, Option.bind_some] at hlast
  obtain ⟨t, ht, hchanged⟩ := Option.map_eq_some_iff.mp hlast
  have hsame := hall oneByOne twoOrders _ s _ t 1 twoOrders_atRest (by decide)
    hs rfl ht ?_ "order-event"
  · exact of_decide_eq_false hchanged hsame
  · simp only [Setup.step, Setup.claimCommit] at ht
    split at ht
    · obtain ⟨db, _, rfl⟩ := Option.map_eq_some_iff.mp ht
      refine ⟨.wrap "commit outbox_events claim"
        (.new (bytes "connection reset")), ?_⟩
      show Function.update s.workers 1 _ 1 = _
      rw [Function.update_self]
      rfl
    · cases ht

/-- The two dispatchers claim at the same time; the second one skips the row
the first has locked. -/
def overlappingClaims : List Action :=
  claimUpToCommit 1 "order-event" ++ claimUpToCommit 2 "order-event-2"

theorem close_of_clock {as : List Action}
    (hlease : ∀ d, 0 < (setup.config d).lease)
    (h : (steps setup.step s₀ as).all (fun p => p.1.clock == 0) = true) :
    CloseReadings setup s₀ as := by
  intro m d m' d' hm hm'
  have hzero := List.all_eq_true.mp h _ hm
  have hzero' := List.all_eq_true.mp h _ hm'
  rw [beq_iff_eq] at hzero hzero'
  simp only at hzero hzero'
  rw [hzero, hzero', Int.zero_add]
  exact hlease d

theorem claims_disjoint_exact_atomic_twoOrders :
    ∃ s t s' t' values values', Claimed oneByOne s t 1 0 values ∧
      Exact oneByOne twoOrders overlappingClaims s t 1 0 values ∧
      run oneByOne.step t [] = some s' ∧
      Claimed oneByOne s' t' 2 0 values' ∧ values ≠ [] ∧ values' ≠ [] ∧
      ∀ e ∈ values, ∀ e' ∈ values', e'.id ≠ e.id := by
  have hrun : (run oneByOne.step twoOrders overlappingClaims).map
      (fun s => s.phase 1) =
        some (.leasing 0 [] [⟨"order-event", "platform.order.placed.v1",
          some (orderEnvelope "order-1")⟩]) := by decide
  have hsecond : (run oneByOne.step twoOrders
      (overlappingClaims ++ [.claimCommit 1 .done])).map
      (fun s => s.phase 2) =
        some (.leasing 0 [] [⟨"order-event-2", "platform.order.placed.v1",
          some (orderEnvelope "order-2")⟩]) := by decide
  have hend : (run oneByOne.step twoOrders ((overlappingClaims ++
      [.claimCommit 1 .done]) ++ [.claimCommit 2 .done])).isSome = true := by
    decide
  obtain ⟨t', ht'⟩ := Option.isSome_iff_exists.mp hend
  obtain ⟨t, ht, hlast⟩ := run_append.mp ht'
  obtain ⟨s, hs, hcommit⟩ := run_append.mp ht
  rw [hs, Option.map_some, Option.some.injEq] at hrun
  rw [ht, Option.map_some, Option.some.injEq] at hsecond
  obtain ⟨u, hstep, hu⟩ := run_cons.mp hcommit
  obtain ⟨u', hstep', hu'⟩ := run_cons.mp hlast
  cases hu
  cases hu'
  obtain ⟨hexact, hdisjoint⟩ := (claims_disjoint_exact_atomic
    twoOrders_atRest (by decide) hs).1 t 1 0 _ ⟨hstep, hrun⟩
  refine ⟨s, t, t, t', _, _, ⟨hstep, hrun⟩, hexact, rfl, ⟨hstep', hsecond⟩,
    nofun, nofun, ?_⟩
  refine hdisjoint [] t t' 2 0 _ nofun ?_ rfl ⟨hstep', hsecond⟩
  exact close_of_clock (fun d => Config.new_lease_pos _) (by decide)

end PlatformGo.Outbox
