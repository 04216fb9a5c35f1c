import PlatformGo.Proofs.OutboxDelivery

/-!
# The lease of a claim

`Claim` moves the time a row becomes available to its reading of the clock
plus the lease, and the rows it selects are those that are available. So
another claim finds the row only once its own reading of the clock has
reached that time, whatever the dispatchers do in between, with two
exceptions: `MarkFailed` sets the time anew and does not ask who holds the
lease, and a row that retention has removed may be added again.

The proof has two invariants. While a claim is being made it holds the locks
of its rows, and the rows it has leased carry its time; this holds in every
run. From the commit of a claim on, no version of the row becomes available
before the lease is over, and no claim whose clock has not reached that time
has selected it.
-/

namespace PlatformGo.Outbox

open RowStore

variable {setup : Setup} {s t : Sys} {a : Action} {d : Nat}

/-! ## The locks of a claim -/

theorem BusinessStep.kept {db : Table} (h : BusinessStep setup s db)
    (hwf : Db.Wf s.db) (d : Nat) :
    Db.Wf db ∧ Db.Kept (.worker d) s.db db := by
  have hof : ∀ {n : Nat} {k : String} {db : Table},
      Db.StepOf (.business n) k s.db db →
      Db.Wf db ∧ Db.Kept (.worker d) s.db db := by
    intro n k db hstep
    exact ⟨hstep.wf, hstep.kept _ nofun⟩
  cases h with
  | same => exact ⟨hwf, .refl ..⟩
  | began h => exact hof (k := "") (Db.stepOf_begin hwf h)
  | added henc hins hexec =>
      have hstep := Db.stepOf_insert hwf hins
      exact hof (hstep.trans (Db.stepOf_exec hstep.wf hexec))
  | committed h => exact hof (k := "") (Db.stepOf_commit hwf h)
  | rolledBack n => exact hof (k := "") (Db.stepOf_rollback hwf)
  | deleted h => exact ⟨(hwf.statementNow h).1, Db.kept_deleteNow h⟩

theorem WorkerStep.kept {phase phase' : Phase} {db : Table}
    {pubs : List Publication}
    (h : WorkerStep setup s a d phase phase' db pubs) (hwf : Db.Wf s.db) :
    Db.Wf db ∧ ∀ d', d' ≠ d → Db.Kept (.worker d') s.db db := by
  have hof : ∀ {k : String} {db : Table},
      Db.StepOf (.worker d) k s.db db →
      Db.Wf db ∧ ∀ d', d' ≠ d → Db.Kept (.worker d') s.db db := by
    intro k db hstep
    refine ⟨hstep.wf, fun d' hd' => hstep.kept _ ?_⟩
    intro heq
    cases heq
    exact hd' rfl
  cases h with
  | stopped | clock | sent | stamped | markSkipped =>
      exact ⟨hwf, fun _ _ => .refl ..⟩
  | aborted | markAborted => exact hof (k := "") (Db.stepOf_rollback hwf)
  | opened h | markOpen h => exact hof (k := "") (Db.stepOf_begin hwf h)
  | selected h =>
      obtain ⟨hwf', hkept⟩ := Db.lockAll_spec (t := Tid.worker d) hwf
        fun k hk => .inl (selects_free h k hk).1
      exact ⟨hwf', fun d' _ => hkept _⟩
  | leased hdec h => exact hof (Db.stepOf_updateWhere hwf h)
  | claimed h | claimLost h | markCommitted h =>
      exact hof (k := "") (Db.stepOf_commit hwf h)
  | markedNow h hfailed =>
      exact ⟨(hwf.statementNow h).1, fun _ _ => Db.kept_updateNow h⟩
  | marked h hfailed => exact hof (Db.stepOf_updateWhere hwf h)

/-- The dispatcher has locked the row and sees it in this state. -/
def HoldsRow (db : Table) (d : Nat) (k : String) (Q : Row → Prop) : Prop :=
  db.locks k = some (.worker d) ∧
    ∃ r, db.view (.worker d) k = some r ∧ Q r

theorem HoldsRow.kept {db db' : Table} {k : String} {Q : Row → Prop}
    (h : HoldsRow db d k Q) (hkept : Db.Kept (.worker d) db db') :
    HoldsRow db' d k Q := by
  obtain ⟨hlock, r, hr, hQ⟩ := h
  refine ⟨hkept.locks k hlock, r, ?_, hQ⟩
  rw [hkept.view hlock]
  exact hr

/-- The rows a claim has still to lease are pending, and those it has leased
carry its time. -/
def Holding (setup : Setup) (db : Table) (d : Nat) : Phase → Prop
  | .leasing now rows values =>
      (∀ p ∈ rows, HoldsRow db d p.1 fun r => r.pending = true) ∧
        ∀ e ∈ values, HoldsRow db d e.id fun r =>
          r.pending = true ∧ r.availableAt = now + (setup.config d).lease
  | _ => True

theorem Holding.kept {db db' : Table} {phase : Phase}
    (h : Holding setup db d phase)
    (hkept : Db.Kept (.worker d) db db') : Holding setup db' d phase := by
  cases phase with
  | leasing now rows values =>
      exact ⟨fun p hp => (h.1 p hp).kept hkept,
        fun e he => (h.2 e he).kept hkept⟩
  | _ => trivial

/-- The lease is written over a row; what is held of the others stays. -/
theorem HoldsRow.put {db : Table} {tx : Tx String Row Event}
    {k k' : String} {r : Row} {Q : Row → Prop}
    (htx : db.txs (.worker d) = some tx)
    (hlock : db.lockable (.worker d) k') (h : HoldsRow db d k Q)
    (hr : k = k' → Q r) : HoldsRow (db.put (.worker d) tx k' r) d k Q := by
  obtain ⟨hk, r₀, hr₀, hQ⟩ := h
  refine ⟨Db.lock_locks_of_held hlock hk, ?_⟩
  by_cases heq : k = k'
  · subst heq
    exact ⟨r, Db.put_view_self .., hr rfl⟩
  · refine ⟨r₀, ?_, hQ⟩
    rw [Db.put_view_ne htx heq]
    exact hr₀

theorem holding_step {phase phase' : Phase} {db : Table}
    {pubs : List Publication}
    (h : WorkerStep setup s a d phase phase' db pubs) (hwf : Db.Wf s.db)
    (hold : Holding setup s.db d phase) : Holding setup db d phase' := by
  cases h with
  | @selected now ids limit hsel =>
      refine ⟨?_, nofun⟩
      intro p hp
      obtain ⟨hid, hrow⟩ := found_lookup hp
      obtain ⟨hfree, r, hr, hdue⟩ := selects_free hsel p.1 hid
      rw [hrow, Option.some.injEq] at hr
      subst hr
      refine ⟨Db.lockAll_locks (.inl hid), p.2, ?_,
        (Bool.and_eq_true_iff.mp hdue).1⟩
      rw [Db.lockAll_view, hwf.view_of_not_held (by rw [hfree]; nofun)]
      exact hrow
  | @leased now id row rows values envelope db n hdec hu =>
      obtain ⟨hhead, r, hr, hp⟩ := hold.1 (id, row) (List.mem_cons_self ..)
      obtain ⟨tx, htx, hlock, ⟨-, -, hnone⟩ | ⟨r', hview, -, -, rfl⟩⟩ :=
        Db.updateWhere_eq hu
      · rw [hnone r hr] at hp
        cases hp
      · rw [hr, Option.some.injEq] at hview
        subst hview
        refine ⟨?_, ?_⟩
        · intro p hmem
          exact (hold.1 p (List.mem_cons_of_mem _ hmem)).put htx hlock
            fun _ => hp
        · intro e he
          rcases List.mem_append.mp he with he | he
          · exact (hold.2 e he).put htx hlock fun _ => ⟨hp, rfl⟩
          · rw [List.mem_singleton.mp he]
            exact ⟨Db.lock_locks_self .., _, Db.put_view_self .., hp, rfl⟩
  | _ => trivial

structure ClaimInv (setup : Setup) (s : Sys) : Prop where
  wf : Db.Wf s.db
  holding : ∀ d, Holding setup s.db d (s.phase d)

theorem claimInv_step (hinv : ClaimInv setup s)
    (h : setup.step s a = some t) : ClaimInv setup t := by
  rcases step_cases h with hout | ⟨d', hmove⟩
  · refine ⟨(hout.db.kept hinv.wf 0).1, fun d => ?_⟩
    rw [Sys.phase, hout.workers]
    exact (hinv.holding d).kept (hout.db.kept hinv.wf d).2
  · obtain ⟨hwf, hkept⟩ := hmove.step.kept hinv.wf
    refine ⟨hwf, fun d => ?_⟩
    by_cases hd : d = d'
    · subst hd
      exact holding_step hmove.step hinv.wf (hinv.holding d)
    · rw [Sys.phase, hmove.others d hd]
      exact (hinv.holding d).kept (hkept d hd)

theorem claimInv_init : ClaimInv setup {} where
  wf := Db.wf_empty
  holding := fun _ => trivial

theorem claimInv_run {as : List Action}
    (hrun : Lts.run setup.step {} as = some s) : ClaimInv setup s :=
  Lts.run_inv_of (fun _ _ _ => claimInv_step) claimInv_init hrun

/-! ## After the claim -/

/-- A version that may be selected is not available before the time. -/
def NotBefore (due : Time) (r : Row) : Prop :=
  r.pending = true → due ≤ r.availableAt

/-- The claim has selected the row. -/
def Phase.Selects (k : String) : Phase → Prop
  | .leasing _ rows values => (∃ p ∈ rows, p.1 = k) ∨ ∃ e ∈ values, e.id = k
  | _ => False

/-- The reading of the clock a claim works with. -/
def Phase.reading : Phase → Option Time
  | .selecting now | .leasing now _ _ => some now
  | _ => none

structure Guarded (k : String) (due : Time) (s : Sys) : Prop where
  versions : Db.Versions (NotBefore due) k s.db
  claims : ∀ d now, (s.phase d).Selects k →
    (s.phase d).reading = some now → due ≤ now

/-- The row is there and the step is no `MarkFailed` on it. -/
def Undisturbed (k : String) (s : Sys) (a : Action) : Prop :=
  s.db.lookup k ≠ none ∧ ∀ d, s.failedMark a ≠ some (d, k)

section GuardedSteps

variable {k : String} {due : Time}

theorem leaseRow_notBefore {due now lease : Int} (r : Row)
    (hnow : due ≤ now) (hlease : 0 ≤ lease) :
    NotBefore due (leaseRow now lease r) := by
  intro _
  show due ≤ now + lease
  omega

theorem BusinessStep.versions {db : Table} (h : BusinessStep setup s db)
    (hrow : s.db.lookup k ≠ none)
    (hv : Db.Versions (NotBefore due) k s.db) :
    Db.Versions (NotBefore due) k db := by
  cases h with
  | same => exact hv
  | began h => exact hv.begin h
  | added henc hins hexec =>
      refine (hv.insert hins ?_).exec hexec
      rintro rfl
      -- the insert finds the row and fails
      obtain ⟨tx, htx, hview, -, -⟩ := Db.insert_eq hins
      rw [Db.view_of_tx htx, Option.or_eq_none_iff] at hview
      exact absurd hview.2 hrow
  | committed h => exact hv.commit h
  | rolledBack n => exact hv.rollback _
  | deleted h => exact hv.deleteNow h

/-- A mark that is no `MarkFailed` on the row makes it published or leaves it
alone. -/
theorem mark_notBefore {event : Event} {mark : Mark} {now : Time}
    (hfailed : ∀ message retryAt, mark = .failed message retryAt →
      s.failedMark a = some (d, event.id))
    (hno : ∀ d, s.failedMark a ≠ some (d, k)) (hk : k = event.id) (r : Row) :
    NotBefore due (mark.row now r) := by
  intro hp
  cases mark with
  | published at_ => cases hp
  | failed message retryAt =>
      subst hk
      exact absurd (hfailed message retryAt rfl) (hno d)

theorem WorkerStep.versions (hlease : ∀ d, 0 ≤ (setup.config d).lease)
    {phase phase' : Phase} {db : Table} {pubs : List Publication}
    (h : WorkerStep setup s a d phase phase' db pubs)
    (hno : ∀ d, s.failedMark a ≠ some (d, k))
    (hclaim : ∀ now, phase.Selects k → phase.reading = some now → due ≤ now)
    (hv : Db.Versions (NotBefore due) k s.db) :
    Db.Versions (NotBefore due) k db := by
  cases h with
  | stopped => exact hv
  | aborted => exact hv.rollback _
  | opened h => exact hv.begin h
  | clock => exact hv
  | selected h => exact hv.lockAll _
  | @leased now id row rows values envelope db n hdec h =>
      refine hv.updateWhere h ?_
      rintro rfl r - -
      have hnow : due ≤ now :=
        hclaim now (.inl ⟨(k, row), List.mem_cons_self .., rfl⟩) rfl
      exact leaseRow_notBefore r hnow (hlease d)
  | claimed h => exact hv.commit h
  | claimLost h => exact hv.commit h
  | sent h => exact hv
  | stamped h => exact hv
  | markSkipped => exact hv
  | markedNow h hfailed =>
      exact hv.updateNow h fun hk r _ _ => mark_notBefore hfailed hno hk r
  | markOpen h => exact hv.begin h
  | marked h hfailed =>
      exact hv.updateWhere h fun hk r _ _ => mark_notBefore hfailed hno hk r
  | markCommitted h => exact hv.commit h
  | markAborted h => exact hv.rollback _

/-- A claim selects what is available at its reading of the clock. -/
theorem WorkerStep.claims {phase phase' : Phase} {db : Table}
    {pubs : List Publication}
    (h : WorkerStep setup s a d phase phase' db pubs)
    (hclaim : ∀ now, phase.Selects k → phase.reading = some now → due ≤ now)
    (hv : Db.Versions (NotBefore due) k s.db) :
    ∀ now, phase'.Selects k → phase'.reading = some now → due ≤ now := by
  intro now hsel hread
  cases h with
  | @selected now' ids limit h =>
      cases hread
      rcases hsel with ⟨p, hp, rfl⟩ | ⟨e, he, -⟩
      · obtain ⟨hid, -⟩ := found_lookup hp
        obtain ⟨-, r, hr, hdue⟩ := selects_free h p.1 hid
        obtain ⟨hpending, havail⟩ := Bool.and_eq_true_iff.mp hdue
        exact Int.le_trans (hv.row r hr hpending) (of_decide_eq_true havail)
      · cases he
  | @leased now' id row rows values envelope db n hdec h =>
      refine hclaim now ?_ hread
      rcases hsel with ⟨p, hp, hk⟩ | ⟨e, he, hk⟩
      · exact .inl ⟨p, List.mem_cons_of_mem _ hp, hk⟩
      · rcases List.mem_append.mp he with he | he
        · exact .inr ⟨e, he, hk⟩
        · rw [List.mem_singleton.mp he] at hk
          exact .inl ⟨(id, row), List.mem_cons_self .., hk⟩
  | _ => cases hsel

theorem guarded_step (hlease : ∀ d, 0 ≤ (setup.config d).lease)
    (hg : Guarded k due s) (hu : Undisturbed k s a)
    (h : setup.step s a = some t) : Guarded k due t := by
  rcases step_cases h with hout | ⟨d', hmove⟩
  · refine ⟨hout.db.versions hu.1 hg.versions, ?_⟩
    intro d now
    rw [Sys.phase, hout.workers]
    exact hg.claims d now
  · refine ⟨hmove.step.versions hlease hu.2 (hg.claims d') hg.versions, ?_⟩
    intro d
    by_cases hd : d = d'
    · subst hd
      exact hmove.step.claims (hg.claims d) hg.versions
    · rw [Sys.phase, hmove.others d hd]
      exact hg.claims d

end GuardedSteps

/-! ## The claim itself -/

/-- `Claim` of the dispatcher commits and returns the event; `now` is its
reading of the clock. -/
structure Returns (setup : Setup) (s t : Sys) (d : Nat) (now : Time)
    (e : Event) : Prop where
  step : setup.step s (.claimCommit d .done) = some t
  batch : ∃ values, s.phase d = .leasing now [] values ∧ e ∈ values

theorem Returns.committed {now : Time} {e : Event}
    (h : Returns setup s t d now e) :
    s.db.commit (.worker d) = some t.db ∧
      (∀ d', d' ≠ d → t.phase d' = s.phase d') ∧
      (t.phase d).reading = none ∧ t.clock = s.clock := by
  obtain ⟨values, hphase, -⟩ := h.batch
  have hstep := h.step
  simp only [Setup.step, Setup.claimCommit, hphase] at hstep
  obtain ⟨db, hdb, rfl⟩ := Option.map_eq_some_iff.mp hstep
  refine ⟨hdb, ?_, ?_, rfl⟩
  · intro d' hd'
    exact congrArg Worker.phase (Function.update_of_ne hd' ..)
  · rw [Sys.goto, set_phase]
    rfl

theorem guarded_of_returns {now : Time} {e : Event}
    (hinv : ClaimInv setup s) (h : Returns setup s t d now e) :
    Guarded e.id (now + (setup.config d).lease) t := by
  obtain ⟨values, hphase, he⟩ := h.batch
  obtain ⟨hcommit, hothers, hself, -⟩ := h.committed
  obtain ⟨tx, -, hrows, -, -, htxs⟩ := Db.commit_eq hcommit
  have hhold := hinv.holding d
  rw [hphase] at hhold
  obtain ⟨hlock, r, hr, -, havail⟩ := hhold.2 e he
  refine ⟨⟨?_, ?_⟩, ?_⟩
  · intro r' hr' _
    rw [hrows, hr, Option.some.injEq] at hr'
    apply Int.le_of_eq
    rw [← hr', havail]
  · intro u tx' r' hu hw
    rw [htxs] at hu
    by_cases hud : u = .worker d
    · subst hud
      rw [Db.setTx_txs_self] at hu
      cases hu
    · -- nobody else has written the row, which was locked
      rw [Db.setTx_txs_ne s.db _ hud] at hu
      have hlock' := (hinv.wf u tx' hu).lookup hw
      rw [hlock, Option.some.injEq] at hlock'
      exact absurd hlock'.symm hud
  · intro d' now' hsel hread
    by_cases hd : d' = d
    · subst hd
      rw [hself] at hread
      cases hread
    · rw [hothers d' hd] at hsel
      have hheld : s.db.locks e.id = some (.worker d') := by
        have hhold' := hinv.holding d'
        revert hsel hhold'
        cases s.phase d' with
        | leasing now rows values =>
            rintro (⟨p, hp, hk⟩ | ⟨e', he', hk⟩) hhold'
            · exact hk ▸ (hhold'.1 p hp).1
            · exact hk ▸ (hhold'.2 e' he').1
        | _ => exact fun hsel _ => hsel.elim
      rw [hlock, Option.some.injEq] at hheld
      cases hheld
      exact absurd rfl hd

/-- The step does not set the clock back. -/
def clockForward (s : Sys) : Action → Bool
  | .clock time => s.clock ≤ time
  | _ => true

theorem WorkerStep.reading {phase phase' : Phase} {db : Table}
    {pubs : List Publication}
    (h : WorkerStep setup s a d phase phase' db pubs) {now : Time}
    (hread : phase'.reading = some now) :
    phase.reading = some now ∨ now = s.clock := by
  cases h with
  | clock =>
      cases hread
      exact .inr rfl
  | selected h => exact .inl hread
  | leased hdec h => exact .inl hread
  | _ => cases hread

theorem reading_step (hinv : ∀ d now, (s.phase d).reading = some now →
      now ≤ s.clock) (hclock : clockForward s a = true)
    (h : setup.step s a = some t) :
    ∀ d now, (t.phase d).reading = some now → now ≤ t.clock := by
  intro d now hread
  rcases step_cases h with hout | ⟨d', hmove⟩
  · have hle : s.clock ≤ t.clock := by
      rcases hout.clock with heq | hset
      · exact Int.le_of_eq heq.symm
      · rw [hset] at hclock
        exact of_decide_eq_true hclock
    rw [Sys.phase, hout.workers] at hread
    exact Int.le_trans (hinv d now hread) hle
  · rw [hmove.clock]
    by_cases hd : d = d'
    · subst hd
      rcases hmove.step.reading hread with hold | rfl
      · exact hinv d now hold
      · exact Int.le_refl _
    · rw [Sys.phase, hmove.others d hd] at hread
      exact hinv d now hread

theorem Config.new_lease_pos (c : Config) : 0 < c.new.lease := by
  simp only [Config.new]
  split
  · decide
  · next h => exact Int.not_le.mp h

/-- Between the commit of a claim and the end of its lease, counted from its
reading of the clock, no claim returns the event, unless somebody's
`MarkFailed` has run on its row or the row has been away. -/
theorem lease_respected (hconfig : ∀ d, ∃ c, setup.config d = Config.new c)
    {as bs : List Action} {s₁ s₂ s₃ s₄ : Sys} {d d' : Nat}
    {now now' : Time} {e e' : Event}
    (hrun : Lts.run setup.step {} as = some s₁)
    (hclaim : Returns setup s₁ s₂ d now e)
    (hrun' : Lts.run setup.step s₂ bs = some s₃)
    (hclaim' : Returns setup s₃ s₄ d' now' e') (hid : e'.id = e.id)
    (hmark : ∀ p ∈ Lts.steps setup.step s₂ bs, ∀ d,
      p.1.failedMark p.2 ≠ some (d, e.id))
    (hrow : ∀ p ∈ Lts.steps setup.step s₂ bs, p.1.db.lookup e.id ≠ none) :
    now + (setup.config d).lease ≤ now' ∧
      ((∀ p ∈ Lts.steps setup.step {} (as ++ .claimCommit d .done :: bs),
        clockForward p.1 p.2 = true) →
        now + (setup.config d).lease ≤ s₃.clock) := by
  have hlease : ∀ d, 0 ≤ (setup.config d).lease := by
    intro d
    obtain ⟨c, hc⟩ := hconfig d
    rw [hc]
    exact Int.le_of_lt (Config.new_lease_pos c)
  have hguard : Guarded e.id (now + (setup.config d).lease) s₃ :=
    Lts.run_inv (C := Undisturbed e.id)
      (fun _ _ _ hg hu h => guarded_step hlease hg hu h)
      (guarded_of_returns (claimInv_run hrun) hclaim)
      (fun p hp => ⟨hrow p hp, hmark p hp⟩) hrun'
  obtain ⟨values, hphase, he'⟩ := hclaim'.batch
  have hread : (s₃.phase d').reading = some now' := by
    rw [hphase]
    rfl
  have hle : now + (setup.config d).lease ≤ now' := by
    refine hguard.claims d' now' ?_ hread
    rw [hphase]
    exact .inr ⟨e', he', hid⟩
  refine ⟨hle, fun hclock => Int.le_trans hle ?_⟩
  have hall : Lts.run setup.step {} (as ++ .claimCommit d .done :: bs) =
      some s₃ :=
    Lts.run_append.mpr ⟨s₁, hrun, Lts.run_cons.mpr ⟨s₂, hclaim.step, hrun'⟩⟩
  exact Lts.run_inv (C := fun s a => clockForward s a = true)
    (I := fun s => ∀ d now, (s.phase d).reading = some now → now ≤ s.clock)
    (fun _ _ _ hi hc h => reading_step hi hc h) (fun _ _ h => by cases h)
    hclock hall d' now' hread

/-! ## Claims that overlap -/

/-- A claim of another dispatcher returns the event while the lease, counted
from the commit of the first claim, is running, and the first dispatcher has
made no `MarkFailed` on it since. -/
structure Overlap (setup : Setup) (d : Nat) (e : Event) (bs : List Action)
    (s₁ s₂ s₃ : Sys) (now : Time) : Prop where
  reached : ∃ as, Lts.run setup.step {} as = some s₁ ∧
    ∀ p ∈ Lts.steps setup.step {} (as ++ .claimCommit d .done :: bs),
      clockForward p.1 p.2 = true
  claim : Returns setup s₁ s₂ d now e
  run : Lts.run setup.step s₂ bs = some s₃
  again : ∃ d' s₄ now', d' ≠ d ∧ Returns setup s₃ s₄ d' now' e
  running : s₁.clock ≤ s₃.clock ∧
    s₃.clock < s₁.clock + (setup.config d).lease
  noMark : ∀ p ∈ Lts.steps setup.step s₂ bs,
    p.1.failedMark p.2 ≠ some (d, e.id)

/-- What is observed of the steps after the first claim: the rows marked
failed, and whether the row of the event is there. -/
def observed (setup : Setup) (e : Event) (s : Sys) (bs : List Action) :
    List (Option (Nat × String) × Bool) :=
  (Lts.steps setup.step s bs).map fun p =>
    (p.1.failedMark p.2, (p.1.db.lookup e.id).isSome)

theorem observed_mem {e : Event} {bs : List Action}
    {seen : List (Option (Nat × String) × Bool)}
    (h : observed setup e s bs = seen) {p : Sys × Action}
    (hp : p ∈ Lts.steps setup.step s bs) :
    (p.1.failedMark p.2, (p.1.db.lookup e.id).isSome) ∈ seen := by
  rw [← h]
  exact List.mem_map_of_mem hp

/-- Two claims of one event, from the evaluation of the run. -/
theorem claims_of_eval (setup : Setup) (d d' : Nat) (e : Event)
    (as bs : List Action) (now now' committed returned : Time)
    (seen : List (Option (Nat × String) × Bool))
    (hfirst : (Lts.run setup.step {} as).map
      (fun s => (s.clock, s.phase d)) =
        some (committed, .leasing now [] [e]))
    (hseen : (Lts.run setup.step {} (as ++ [.claimCommit d .done])).map
      (fun s => observed setup e s bs) = some seen)
    (hsecond : (Lts.run setup.step {}
        ((as ++ [.claimCommit d .done]) ++ bs)).map
      (fun s => (s.clock, s.phase d')) =
        some (returned, .leasing now' [] [e]))
    (hlast : (Lts.run setup.step {} (((as ++ [.claimCommit d .done]) ++ bs) ++
      [.claimCommit d' .done])).isSome = true) :
    ∃ s₁ s₂ s₃ s₄, Lts.run setup.step {} as = some s₁ ∧
      Returns setup s₁ s₂ d now e ∧ Lts.run setup.step s₂ bs = some s₃ ∧
      Returns setup s₃ s₄ d' now' e ∧ s₁.clock = committed ∧
      s₃.clock = returned ∧ observed setup e s₂ bs = seen := by
  obtain ⟨s₃, hrun₃, h₃⟩ := Option.map_eq_some_iff.mp hsecond
  obtain ⟨s₂, hrun₂, hbs⟩ := Lts.run_append.mp hrun₃
  obtain ⟨s₁, hrun₁, hcommit⟩ := Lts.run_append.mp hrun₂
  obtain ⟨m, hstep, hm⟩ := Lts.run_cons.mp hcommit
  cases hm
  rw [hrun₁, Option.map_some, Option.some.injEq, Prod.mk.injEq] at hfirst
  rw [hrun₂, Option.map_some, Option.some.injEq] at hseen
  rw [Prod.mk.injEq] at h₃
  obtain ⟨s₄, hrun₄⟩ := Option.isSome_iff_exists.mp hlast
  obtain ⟨n, hn, hlast'⟩ := Lts.run_append.mp hrun₄
  rw [hrun₃, Option.some.injEq] at hn
  subst hn
  obtain ⟨m, hstep', hm⟩ := Lts.run_cons.mp hlast'
  cases hm
  exact ⟨s₁, s₂, s₃, s₄, hrun₁,
    ⟨hstep, _, hfirst.2, List.mem_singleton_self e⟩, hbs,
    ⟨hstep', _, h₃.2, List.mem_singleton_self e⟩, hfirst.1, h₃.1, hseen⟩

theorem overlap_of_eval {d d' : Nat} {e : Event} {as bs : List Action}
    {now now' committed returned : Time}
    {seen : List (Option (Nat × String) × Bool)}
    (heval : ∃ s₁ s₂ s₃ s₄, Lts.run setup.step {} as = some s₁ ∧
      Returns setup s₁ s₂ d now e ∧ Lts.run setup.step s₂ bs = some s₃ ∧
      Returns setup s₃ s₄ d' now' e ∧ s₁.clock = committed ∧
      s₃.clock = returned ∧ observed setup e s₂ bs = seen)
    (hclock : (Lts.steps setup.step {}
      (as ++ .claimCommit d .done :: bs)).all
        (fun p => clockForward p.1 p.2) = true)
    (hd : d' ≠ d)
    (htime : committed ≤ returned ∧
      returned < committed + (setup.config d).lease)
    (hmark : ∀ o ∈ seen, o.1 ≠ some (d, e.id)) :
    ∃ s₁ s₂ s₃, Overlap setup d e bs s₁ s₂ s₃ now ∧ s₁.clock = committed ∧
      observed setup e s₂ bs = seen := by
  obtain ⟨s₁, s₂, s₃, s₄, hrun, hclaim, hbs, hagain, hfirst, hlast, hseen⟩ :=
    heval
  refine ⟨s₁, s₂, s₃, ?_, hfirst, hseen⟩
  exact {
    reached := ⟨as, hrun, List.all_eq_true.mp hclock⟩
    claim := hclaim
    run := hbs
    again := ⟨d', s₄, now', hd, hagain⟩
    running := by
      rw [hfirst, hlast]
      exact htime
    noMark := fun p hp => hmark _ (observed_mem hseen hp) }

def claimUpToCommit (d : Nat) (id : String) : List Action :=
  [.claimBegin d, .claimClock d, .claimSelect d [id], .claimLease d]

/-- The commit of the first dispatcher comes twenty seconds after its reading
of the clock; the second one claims ten seconds later. -/
def slowClaim : List Action :=
  addAll 0 (orderEvent "order-1") ++ claimUpToCommit 1 "order-event" ++
    [.clock (20 * second)]

def afterSlowClaim : List Action :=
  .clock (30 * second) :: claimUpToCommit 2 "order-event"

/-- The third dispatcher claimed before the first, and its lease has lapsed.
Its publication fails once the first has claimed. -/
def lapsedClaim : List Action :=
  addAll 0 (orderEvent "order-1") ++ claimOne 3 "order-event" ++
    [.clock (31 * second)] ++ claimUpToCommit 1 "order-event"

def afterLapsedClaim : List Action :=
  publishOne 3 (some (.new (bytes "NATS unavailable"))) ++
    .clock (36 * second) :: claimUpToCommit 2 "order-event"

/-- The event is published, retention removes its row, and it is added
again. -/
def firstClaim : List Action :=
  addAll 0 (orderEvent "order-1") ++ claimUpToCommit 1 "order-event"

def afterFirstClaim : List Action :=
  publishOne 1 none ++
    [.clock second, .delete "order-event" second] ++
    addAll 0 (orderEvent "order-1") ++ claimUpToCommit 2 "order-event"

/-- Claims overlap although the row has stayed and nobody has marked it
failed, when the commit is slow; although the lease is counted from the
reading of the clock and the row has stayed, when a dispatcher that held an
earlier lease marks it failed; and although the lease is counted from there
and nobody has marked it failed, when the row is removed and added again. -/
theorem lease_not_exclusive :
    (∃ bs s₁ s₂ s₃ now,
      Overlap orderSetup 1 (orderEvent "order-1") bs s₁ s₂ s₃ now ∧
      ∀ p ∈ Lts.steps orderSetup.step s₂ bs, p.1.failedMark p.2 = none ∧
        (p.1.db.lookup "order-event").isSome = true) ∧
    (∃ bs s₁ s₂ s₃ now,
      Overlap orderSetup 1 (orderEvent "order-1") bs s₁ s₂ s₃ now ∧
      s₁.clock = now ∧ ∀ p ∈ Lts.steps orderSetup.step s₂ bs,
        (p.1.db.lookup "order-event").isSome = true) ∧
    ∃ bs s₁ s₂ s₃ now,
      Overlap orderSetup 1 (orderEvent "order-1") bs s₁ s₂ s₃ now ∧
      s₁.clock = now ∧
      ∀ p ∈ Lts.steps orderSetup.step s₂ bs, p.1.failedMark p.2 = none := by
  refine ⟨?_, ?_, ?_⟩
  · obtain ⟨s₁, s₂, s₃, hover, -, hseen⟩ := overlap_of_eval
      (claims_of_eval orderSetup 1 2 (orderEvent "order-1") slowClaim
        afterSlowClaim 0 (30 * second) (20 * second)
        (30 * second) (List.replicate 5 (none, true))
        (by decide) (by decide) (by decide) (by decide))
      (by decide) (by decide) (by decide) (by decide)
    refine ⟨_, s₁, s₂, s₃, _, hover, ?_⟩
    intro p hp
    have hmem := observed_mem hseen hp
    rw [List.mem_replicate, Prod.mk.injEq] at hmem
    exact hmem.2
  · obtain ⟨s₁, s₂, s₃, hover, hclock, hseen⟩ := overlap_of_eval
      (claims_of_eval orderSetup 1 2 (orderEvent "order-1") lapsedClaim
        afterLapsedClaim (31 * second) (36 * second)
        (31 * second) (36 * second)
        ([(none, true), (none, true), (some (3, "order-event"), true)] ++
          List.replicate 5 (none, true))
        (by decide) (by decide) (by decide) (by decide))
      (by decide) (by decide) (by decide) (by decide)
    refine ⟨_, s₁, s₂, s₃, _, hover, hclock, ?_⟩
    intro p hp
    have hall : ∀ o ∈ [(none, true), (none, true),
        (some (3, "order-event"), true)] ++ List.replicate 5 (none, true),
        o.2 = true := by decide
    exact hall _ (observed_mem hseen hp)
  · obtain ⟨s₁, s₂, s₃, hover, hclock, hseen⟩ := overlap_of_eval
      (claims_of_eval orderSetup 1 2 (orderEvent "order-1") firstClaim
        afterFirstClaim 0 second 0 second
        (List.replicate 5 (none, true) ++ List.replicate 3 (none, false) ++
          List.replicate 4 (none, true))
        (by decide) (by decide) (by decide) (by decide))
      (by decide) (by decide) (by decide) (by decide)
    refine ⟨_, s₁, s₂, s₃, _, hover, hclock, ?_⟩
    intro p hp
    have hall : ∀ o ∈ List.replicate 5 ((none : Option (Nat × String)), true) ++
        List.replicate 3 (none, false) ++ List.replicate 4 (none, true),
        o.1 = none := by decide
    exact hall _ (observed_mem hseen hp)

/-- The second dispatcher claims when the lease of the first is just over. -/
theorem lease_respected_lapsed : ∃ s₁ s₂ s₃ s₄,
    Lts.run orderSetup.step {} firstClaim = some s₁ ∧
      Returns orderSetup s₁ s₂ 1 0 (orderEvent "order-1") ∧
      Lts.run orderSetup.step s₂ afterSlowClaim = some s₃ ∧
      Returns orderSetup s₃ s₄ 2 (30 * second)
        (orderEvent "order-1") ∧
      0 + (orderSetup.config 1).lease ≤ s₃.clock := by
  obtain ⟨s₁, s₂, s₃, s₄, hrun, hclaim, hbs, hagain, -, -, hseen⟩ :=
    claims_of_eval orderSetup 1 2 (orderEvent "order-1") firstClaim
      afterSlowClaim 0 (30 * second) 0 (30 * second)
      (List.replicate 5 (none, true))
      (by decide) (by decide) (by decide) (by decide)
  have hquiet : ∀ p ∈ Lts.steps orderSetup.step s₂ afterSlowClaim,
      p.1.failedMark p.2 = none ∧
        (p.1.db.lookup "order-event").isSome = true := by
    intro p hp
    have hmem := observed_mem hseen hp
    rw [List.mem_replicate, Prod.mk.injEq] at hmem
    exact hmem.2
  refine ⟨s₁, s₂, s₃, s₄, hrun, hclaim, hbs, hagain, ?_⟩
  refine (lease_respected (fun d => ⟨{}, rfl⟩) hrun hclaim hbs hagain rfl
    ?_ ?_).2 ?_
  · intro p hp d
    rw [(hquiet p hp).1]
    nofun
  · intro p hp
    exact Option.isSome_iff_ne_none.mp (hquiet p hp).2
  · exact List.all_eq_true.mp (by decide)

end PlatformGo.Outbox
