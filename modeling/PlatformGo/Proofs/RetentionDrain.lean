import Mathlib.Data.Set.Card
import PlatformGo.Proofs.InboxOnce
import PlatformGo.Proofs.OutboxDelivery
import PlatformGo.Proofs.RetentionSteps

/-!
# Retention drains the finished rows, and only those

`RunOnce` selects and deletes in two statements, and stops at the first batch
that is short, not at an empty table. Two facts make that enough. Alone, a batch
deletes every row it selected, so a short batch was a short selection, and a
short selection took every row there was. Next to others, the condition is
checked again by the `DELETE`, so what the selection saw does not matter for
what is removed, only for how soon.

Alone, a run pays for its steps with the rows that are left: a deletion takes
three from the potential and gives two back, one of which pays for the end of
the batch and one for the next selection. A batch that selects nothing is the
last one.
-/

namespace PlatformGo.Retention

open Lts RowStore

variable {S A K R W T : Type} [DecidableEq K] {s t : Sys S K R} {n : Nat}
  {setup : Setup S A K R W T} {a : Action A K}

/-! ## Alone with the table -/

/-- The steps of a cleaner in which nothing goes wrong. -/
def Action.Of (n : Nat) : Action A K → Prop
  | .select m | .delete m _ | .next m => m = n
  | .other _ | .start _ _ | .fail _ _ => False

/-- Where a run stands that began in `s₀`, with what it still has to do. -/
def Pace (setup : Setup S A K R W T) (s₀ s : Sys S K R) (n : Nat)
    (cutoff : Time) : Phase K → Prop
  | .idle =>
      candidates setup.method (setup.db s) cutoff = [] ∧
        ∃ removed, s.runs = s₀.runs ++
          [⟨n, (candidates setup.method (setup.db s₀) cutoff).length, none,
            removed⟩]
  | .looping c total =>
      c = cutoff ∧ s.runs = s₀.runs ∧
        total + (candidates setup.method (setup.db s) cutoff).length =
          (candidates setup.method (setup.db s₀) cutoff).length
  | .deleting c total left deleted =>
      c = cutoff ∧ s.runs = s₀.runs ∧
        total + deleted + (candidates setup.method (setup.db s) cutoff).length =
          (candidates setup.method (setup.db s₀) cutoff).length ∧
        left.Nodup ∧
        (∀ k ∈ left, k ∈ candidates setup.method (setup.db s) cutoff) ∧
        deleted + left.length = min (setup.cleaner n).batchSize.toNat
          ((candidates setup.method (setup.db s) cutoff).length + deleted)

structure Alone (setup : Setup S A K R W T) (s₀ : Sys S K R) (n : Nat)
    (cutoff : Time) (s : Sys S K R) : Prop where
  host : s.host = setup.host.withDb s₀.host
    { setup.db s₀ with rows := (setup.db s).rows }
  old : ∀ k r, (setup.db s).lookup k = some r →
    (setup.db s₀).lookup k = some r
  kept : ∀ k r, (setup.db s₀).lookup k = some r →
    setup.method.eligible cutoff r = false → (setup.db s).lookup k = some r
  pace : Pace setup s₀ s n cutoff (s.phase n)

variable {s₀ : Sys S K R} {cutoff : Time}

/-- What the rest of a run costs. -/
def potential (setup : Setup S A K R W T) (s : Sys S K R) (cutoff : Time) :
    Phase K → Nat
  | .idle => 0
  | .looping _ _ =>
      3 * (candidates setup.method (setup.db s) cutoff).length + 2
  | .deleting _ _ _ deleted =>
      3 * (candidates setup.method (setup.db s) cutoff).length + 1 + 2 * deleted

/-- A step that leaves the table leaves all but the pace. -/
theorem Alone.move (h : Alone setup s₀ n cutoff s) (hhost : t.host = s.host)
    (hpace : Pace setup s₀ t n cutoff (t.phase n)) :
    Alone setup s₀ n cutoff t := by
  have hdb : setup.db t = setup.db s := congrArg setup.host.db hhost
  refine ⟨?_, ?_, ?_, hpace⟩
  · rw [hhost, hdb]
    exact h.host
  · rw [hdb]
    exact h.old
  · rw [hdb]
    exact h.kept

theorem Alone.pace_of (h : Alone setup s₀ n cutoff s) {phase : Phase K}
    (hphase : s.phase n = phase) : Pace setup s₀ s n cutoff phase :=
  hphase ▸ h.pace

theorem Alone.locks (h : Alone setup s₀ n cutoff s) :
    (setup.db s).locks = (setup.db s₀).locks := by
  rw [Setup.db, h.host, setup.host.db_withDb]

/-- A run that returns when nothing is left returns the count. -/
theorem Alone.return {total : Nat} (h : Alone setup s₀ n cutoff s)
    (hruns : s.runs = s₀.runs)
    (hnone : (candidates setup.method (setup.db s) cutoff).length = 0)
    (htotal : total = (candidates setup.method (setup.db s₀) cutoff).length) :
    Alone setup s₀ n cutoff (s.return n total none) := by
  refine h.move rfl ?_
  rw [Sys.return, set_phase_self]
  refine ⟨List.length_eq_zero_iff.mp hnone, (s.cleaners n).removed, ?_⟩
  rw [← htotal, ← hruns]
  rfl

theorem Alone.empty {total : Nat} (h : Alone setup s₀ n cutoff s)
    (hphase : s.phase n = .looping cutoff total)
    (hsel : selected setup.method (setup.db s) cutoff
      (setup.cleaner n).batchSize = []) :
    Alone setup s₀ n cutoff (s.return n total none) := by
  obtain ⟨-, hruns, htotal⟩ := h.pace_of hphase
  have hlen := congrArg List.length hsel
  have hpos := (setup.cleaner n).batchSize_pos
  rw [length_selected, List.length_nil] at hlen
  exact h.return hruns (by omega) (by omega)

theorem Alone.selected {total : Nat} (h : Alone setup s₀ n cutoff s)
    (hphase : s.phase n = .looping cutoff total) :
    Alone setup s₀ n cutoff (s.goto n (.deleting cutoff total
      (selected setup.method (setup.db s) cutoff
        (setup.cleaner n).batchSize) 0)) := by
  obtain ⟨-, hruns, htotal⟩ := h.pace_of hphase
  refine h.move rfl ?_
  rw [Sys.goto, set_phase_self]
  refine ⟨rfl, hruns, htotal, nodup_selected, fun k => selected_subset, ?_⟩
  rw [Nat.zero_add, Nat.add_zero, length_selected]
  rfl

/-- Nothing keeps a selected row from being deleted. -/
theorem deleteNow_candidate [DecidableEq T] {db : Db K R W T} {m : Method K R}
    {k : K} {r : Db K R W T × Nat} (hk : k ∈ candidates m db cutoff)
    (h : db.deleteNow k (m.eligible cutoff) = some r) :
    r = ({ db with rows := db.rows.erase k }, 1) := by
  obtain ⟨row, hrow, hp⟩ := mem_candidates.mp hk
  obtain ⟨-, ⟨-, -, hnot⟩ | ⟨-, -, -, hn, hdb⟩⟩ := Db.statementNow_eq h
  · rw [hnot row hrow] at hp
    cases hp
  · exact Prod.ext hdb hn

/-- A deletion keeps every row that is not finished. -/
theorem Alone.erase [DecidableEq T] {k : K} (h : Alone setup s₀ n cutoff s)
    (hmem : k ∈ candidates setup.method (setup.db s) cutoff)
    (hhost : t.host = setup.host.withDb s.host
      { setup.db s with rows := (setup.db s).rows.erase k })
    (hpace : Pace setup s₀ t n cutoff (t.phase n)) :
    Alone setup s₀ n cutoff t := by
  have hdb : setup.db t = { setup.db s with
      rows := (setup.db s).rows.erase k } := by
    rw [Setup.db, hhost, setup.host.db_withDb]
  refine ⟨?_, ?_, ?_, hpace⟩
  · have hs : setup.db s = { setup.db s₀ with rows := (setup.db s).rows } := by
      rw [Setup.db, h.host, setup.host.db_withDb]
    rw [hhost, hdb, h.host, setup.host.withDb_withDb, hs]
  · intro j row hj
    rw [hdb, Db.lookup_rows_erase] at hj
    split at hj
    · cases hj
    · exact h.old j row hj
  · intro j row hj hnot
    have hs := h.kept j row hj hnot
    rw [hdb, Db.lookup_rows_erase, if_neg, hs]
    -- the row of `k` satisfies the condition
    rintro rfl
    obtain ⟨row', hrow', hp⟩ := mem_candidates.mp hmem
    rw [hs] at hrow'
    cases hrow'
    rw [hnot] at hp
    cases hp

/-- A deletion moves one row from those left to those deleted. -/
theorem Pace.erase [DecidableEq T] {k : K} {total deleted : Nat}
    {left : List K}
    (h : Pace setup s₀ s n cutoff (.deleting cutoff total left deleted))
    (hk : k ∈ left) (hruns : t.runs = s.runs)
    (hdb : setup.db t = { setup.db s with
      rows := (setup.db s).rows.erase k }) :
    Pace setup s₀ t n cutoff
      (.deleting cutoff total (left.erase k) (deleted + 1)) := by
  obtain ⟨-, hruns₀, htotal, hnodup, hleft, hlen⟩ := h
  have hshort := List.length_erase_add_one hk
  have hdec := List.length_erase_add_one (hleft k hk)
  refine ⟨rfl, hruns.trans hruns₀, ?_, hnodup.erase k, ?_, ?_⟩
  · rw [hdb, candidates_erase]
    omega
  · intro j hj
    rw [hnodup.mem_erase_iff] at hj
    rw [hdb, candidates_erase]
    exact nodup_candidates.mem_erase_iff.mpr ⟨hj.1, hleft j hj.2⟩
  · rw [hdb, candidates_erase]
    omega

theorem Alone.deleted [DecidableEq T] {k : K} {total deleted : Nat}
    {left : List K} {r : Db K R W T × Nat} {removed : List (K × R)}
    (h : Alone setup s₀ n cutoff s)
    (hphase : s.phase n = .deleting cutoff total left deleted) (hk : k ∈ left)
    (hdel : (setup.db s).deleteNow k (setup.method.eligible cutoff) = some r) :
    Alone setup s₀ n cutoff
        (Sys.set { s with host := setup.host.withDb s.host r.1 } n
          { phase := .deleting cutoff total (left.erase k) (deleted + r.2)
            removed }) ∧
      (candidates setup.method r.1 cutoff).length + 1 =
        (candidates setup.method (setup.db s) cutoff).length ∧ r.2 = 1 := by
  have hpace := h.pace_of hphase
  have hmem := hpace.2.2.2.2.1 k hk
  cases deleteNow_candidate hmem hdel
  refine ⟨h.erase hmem rfl ?_, ?_, rfl⟩
  · rw [set_phase_self]
    exact hpace.erase hk rfl (setup.host.db_withDb ..)
  · rw [candidates_erase]
    exact List.length_erase_add_one hmem

/-- A short batch is the last. -/
theorem Alone.short {total deleted : Nat} (h : Alone setup s₀ n cutoff s)
    (hphase : s.phase n = .deleting cutoff total [] deleted)
    (hshort : (deleted : Int) < (setup.cleaner n).batchSize) :
    Alone setup s₀ n cutoff (s.return n (total + deleted) none) := by
  obtain ⟨-, hruns, htotal, -, -, hlen⟩ := h.pace_of hphase
  rw [List.length_nil] at hlen
  exact h.return hruns (by omega) (by omega)

theorem Alone.full {total deleted : Nat} (h : Alone setup s₀ n cutoff s)
    (hphase : s.phase n = .deleting cutoff total [] deleted) :
    Alone setup s₀ n cutoff (s.goto n (.looping cutoff (total + deleted))) := by
  obtain ⟨-, hruns, htotal, -⟩ := h.pace_of hphase
  refine h.move rfl ?_
  rw [Sys.goto, set_phase_self]
  exact ⟨rfl, hruns, htotal⟩

theorem Alone.step [DecidableEq T] (h : Alone setup s₀ n cutoff s)
    (ha : a.Of n) (hstep : setup.step s a = some t) :
    Alone setup s₀ n cutoff t ∧
      potential setup t cutoff (t.phase n) <
        potential setup s cutoff (s.phase n) := by
  have hpos := (setup.cleaner n).batchSize_pos
  cases step_moves hstep with
  | other | start | failed => cases ha
  | empty hphase hsel =>
      cases ha
      cases (h.pace_of hphase).1
      refine ⟨h.empty hphase hsel, ?_⟩
      rw [hphase, Sys.return, set_phase_self]
      exact Nat.succ_pos _
  | selected hphase hsel =>
      cases ha
      cases (h.pace_of hphase).1
      refine ⟨hsel ▸ h.selected hphase, ?_⟩
      rw [hphase, Sys.goto, set_phase_self]
      exact Nat.lt_succ_self _
  | @deleted m k c total left deleted r hphase hk hdel =>
      cases ha
      cases (h.pace_of hphase).1
      obtain ⟨halone, hdec, hone⟩ := h.deleted hphase hk hdel
      refine ⟨halone, ?_⟩
      rw [hphase, set_phase_self]
      show 3 * (candidates setup.method (setup.host.db
        (setup.host.withDb s.host r.1)) cutoff).length + 1 +
          2 * (deleted + r.2) <
        3 * (candidates setup.method (setup.db s) cutoff).length + 1 +
          2 * deleted
      rw [setup.host.db_withDb]
      omega
  | short hphase hshort =>
      cases ha
      cases (h.pace_of hphase).1
      refine ⟨h.short hphase hshort, ?_⟩
      rw [hphase, Sys.return, set_phase_self]
      exact Nat.lt_of_lt_of_le (Nat.succ_pos _) (Nat.le_add_right _ _)
  | @full m c total deleted hphase hfull =>
      cases ha
      cases (h.pace_of hphase).1
      refine ⟨h.full hphase, ?_⟩
      rw [hphase, Sys.goto, set_phase_self]
      show 3 * (candidates setup.method (setup.db s) cutoff).length + 2 <
        3 * (candidates setup.method (setup.db s) cutoff).length + 1 +
          2 * deleted
      omega

theorem select_isSome {total : Nat} (hphase : s.phase n = .looping cutoff total) :
    (setup.select s n).isSome := by
  simp only [Setup.select, hphase]
  split
  · rfl
  · split <;> rfl

theorem delete_isSome {total deleted : Nat} {k : K} {left : List K}
    (hphase : s.phase n = .deleting cutoff total (k :: left) deleted)
    (hlock : (setup.db s).locks k = none) : (setup.delete s n k).isSome := by
  have hreach : setup.method.reaches (k :: left) k = true := by
    rw [Method.reaches]
    split <;> simp
  simp only [Setup.delete, hphase, hreach, if_true, Option.isSome_map,
    Db.deleteNow, Db.statementNow, hlock]
  split
  · rfl
  · split <;> rfl

/-- A run that has not returned goes on. -/
theorem Alone.enabled (h : Alone setup s₀ n cutoff s)
    (hlocks : ∀ k, (setup.db s₀).locks k = none) (hphase : s.phase n ≠ .idle) :
    ∃ a t, Action.Of n a ∧ setup.step s a = some t := by
  suffices ∃ a, Action.Of n a ∧ (setup.step s a).isSome by
    obtain ⟨a, ha, hsome⟩ := this
    obtain ⟨t, ht⟩ := Option.isSome_iff_exists.mp hsome
    exact ⟨a, t, ha, ht⟩
  cases hp : s.phase n with
  | idle => exact absurd hp hphase
  | looping => exact ⟨.select n, rfl, select_isSome hp⟩
  | deleting c total left deleted =>
      cases left with
      | nil =>
          refine ⟨.next n, rfl, ?_⟩
          simp only [Setup.step, hp]
          rfl
      | cons k left =>
          exact ⟨.delete n k, rfl, delete_isSome hp (h.locks ▸ hlocks k)⟩

theorem Alone.run [DecidableEq T] {as : List (Action A K)}
    (h : Alone setup s₀ n cutoff s) (has : ∀ a ∈ as, a.Of n)
    (hrun : run setup.step s as = some t) :
    Alone setup s₀ n cutoff t ∧
      as.length + potential setup t cutoff (t.phase n) ≤
        potential setup s cutoff (s.phase n) := by
  induction as generalizing s with
  | nil =>
      cases hrun
      exact ⟨h, by rw [List.length_nil, Nat.zero_add]⟩
  | cons a as ih =>
      obtain ⟨u, hu, hrest⟩ := run_cons.mp hrun
      rw [List.forall_mem_cons] at has
      obtain ⟨halone, hlt⟩ := h.step has.1 hu
      obtain ⟨hend, hle⟩ := ih halone has.2 hrest
      refine ⟨hend, ?_⟩
      rw [List.length_cons]
      omega

/-- A run that goes on, and pays for each step, returns. -/
theorem Alone.returns [DecidableEq T] (h : Alone setup s₀ n cutoff s)
    (hlocks : ∀ k, (setup.db s₀).locks k = none) :
    ∃ as t, (∀ a ∈ as, Action.Of n a) ∧ Lts.run setup.step s as = some t ∧
      t.phase n = .idle := by
  induction hp : potential setup s cutoff (s.phase n) using
    Nat.strong_induction_on generalizing s with
  | h p ih =>
      by_cases hidle : s.phase n = .idle
      · exact ⟨[], s, (by intro _ h; cases h), rfl, hidle⟩
      · obtain ⟨a, u, ha, hu⟩ := h.enabled hlocks hidle
        obtain ⟨halone, hlt⟩ := h.step ha hu
        obtain ⟨as, t, has, hrun, ht⟩ := ih _ (hp ▸ hlt) halone rfl
        exact ⟨a :: as, t, List.forall_mem_cons.mpr ⟨ha, has⟩,
          run_cons.mpr ⟨u, hu, hrun⟩, ht⟩

theorem alone_start (s : Sys S K R) (n : Nat) (cutoff : Time) :
    Alone setup s n cutoff (s.set n { phase := .looping cutoff 0 }) := by
  refine ⟨(setup.host.withDb_db s.host).symm, fun _ _ h => h,
    fun _ _ h _ => h, ?_⟩
  rw [set_phase_self]
  exact ⟨rfl, rfl, Nat.zero_add _⟩

/-! ## What retention does -/

/-- The candidates count the finished rows. -/
theorem ncard_finished {m : Method K R} {Finished : R → Prop}
    (hfinished : ∀ r, m.eligible cutoff r = true ↔ Finished r)
    (db : Db K R W T) :
    {k | ∃ r, db.lookup k = some r ∧ Finished r}.ncard =
      (candidates m db cutoff).length := by
  rw [← List.toFinset_card_of_nodup nodup_candidates, ← Set.ncard_coe_finset]
  congr 1
  ext k
  rw [List.coe_toFinset, Set.mem_ofPred_eq, Set.mem_ofPred_eq, mem_candidates]
  simp only [hfinished]

/-- `RunOnce` was called, and its cleaner alone went on. -/
def CalledAlone (setup : Setup S A K R W T) (s : Sys S K R) (n : Nat)
    (now : Time) (as : List (Action A K)) (t : Sys S K R) : Prop :=
  (∀ a ∈ as, a.Of n) ∧ Lts.run setup.step s (.start n now :: as) = some t

/-- `RunOnce` returns, with the number of rows that were finished before the
cutoff, and leaves the others. -/
structure Drains (setup : Setup S A K R W T) (Finished : Time → R → Prop)
    (s : Sys S K R) (n : Nat) (now : Time) (cutoff : Time) (count : Nat) :
    Prop where
  returns : ∃ as t, CalledAlone setup s n now as t ∧ t.phase n = .idle
  bounded : ∀ as t, CalledAlone setup s n now as t → as.length ≤ 3 * count + 2
  enabled : ∀ as t, CalledAlone setup s n now as t → t.phase n ≠ .idle →
    ∃ a u, Action.Of n a ∧ setup.step t a = some u
  total : ∀ as t, CalledAlone setup s n now as t → t.phase n = .idle →
    ∃ removed, t.runs = s.runs ++ [⟨n, count, none, removed⟩]
  rows : ∀ as t, CalledAlone setup s n now as t → t.phase n = .idle →
    ∀ k r, (setup.db t).lookup k = some r ↔
      (setup.db s).lookup k = some r ∧ ¬ Finished cutoff r
  rest : ∀ as t, CalledAlone setup s n now as t →
    t.host = setup.host.withDb s.host
      { setup.db s with rows := (setup.db t).rows }

/-- Next to any others, the cleaners remove rows that are finished at that
moment before the cutoff of the run, and the totals count what is removed. -/
structure RemovesFinished (setup : Setup S A K R W T)
    (Finished : Time → R → Prop) (host : S) (as : List (Action A K))
    (s : Sys S K R) : Prop where
  finished : ∀ a t k r, setup.step s a = some t →
    (setup.db s).lookup k = some r → (setup.db t).lookup k = none →
    ∃ n now, a = .delete n k ∧ Called as n now ∧
      Finished (now - (setup.cleaner n).retention) r
  recorded : ∀ n, (s.runs.filter fun run => run.cleaner = n).flatMap
      Run.removed ++ (s.cleaners n).removed =
    (steps setup.step { host } as).flatMap (setup.lost n)
  totals : ((s.runs.filter fun run => run.err.isNone).map Run.total).sum =
    ((s.runs.filter fun run => run.err.isNone).flatMap Run.removed).length

structure Retains (setup : Setup S A K R W T) (Finished : Time → R → Prop) :
    Prop where
  alone : ∀ s n now, s.phase n = .idle →
    (∀ k, (setup.db s).locks k = none) →
    Drains setup Finished s n now (now - (setup.cleaner n).retention)
      {k | ∃ r, (setup.db s).lookup k = some r ∧
        Finished (now - (setup.cleaner n).retention) r}.ncard
  together : ∀ host as s, Lts.run setup.step { host } as = some s →
    RemovesFinished setup Finished host as s

variable {Finished : Time → R → Prop}

theorem drains [DecidableEq T]
    (hfinished : ∀ cutoff r,
      setup.method.eligible cutoff r = true ↔ Finished cutoff r) (now : Time)
    (hidle : s.phase n = .idle) (hlocks : ∀ k, (setup.db s).locks k = none) :
    Drains setup Finished s n now (now - (setup.cleaner n).retention)
      {k | ∃ r, (setup.db s).lookup k = some r ∧
        Finished (now - (setup.cleaner n).retention) r}.ncard := by
  set cutoff := now - (setup.cleaner n).retention
  rw [ncard_finished (hfinished cutoff)]
  have hstart : setup.step s (.start n now) =
      some (s.set n { phase := .looping cutoff 0 }) := by
    simp only [Setup.step, hidle]
    rfl
  have hrun : ∀ as t, CalledAlone setup s n now as t →
      Alone setup s n cutoff t ∧ as.length +
        potential setup t cutoff (t.phase n) ≤
          3 * (candidates setup.method (setup.db s) cutoff).length + 2 := by
    rintro as t ⟨has, hrun⟩
    obtain ⟨u, hu, hrest⟩ := run_cons.mp hrun
    rw [hstart] at hu
    cases hu
    have h := (alone_start s n cutoff).run has hrest
    rw [set_phase_self] at h
    exact h
  refine ⟨?_, ?_, ?_, ?_, ?_, ?_⟩
  · obtain ⟨as, t, has, hrest, ht⟩ := (alone_start s n cutoff).returns hlocks
    exact ⟨as, t, ⟨has, run_cons.mpr ⟨_, hstart, hrest⟩⟩, ht⟩
  · intro as t h
    exact Nat.le_trans (Nat.le_add_right _ _) (hrun as t h).2
  · intro as t h
    exact (hrun as t h).1.enabled hlocks
  · intro as t h ht
    exact ((hrun as t h).1.pace_of ht).2
  · intro as t h ht k r
    obtain ⟨halone, -⟩ := hrun as t h
    obtain ⟨hnone, -⟩ := halone.pace_of ht
    constructor
    · intro hr
      refine ⟨halone.old k r hr, fun he => ?_⟩
      have hmem := mem_candidates.mpr ⟨r, hr, (hfinished _ _).mpr he⟩
      rw [hnone] at hmem
      cases hmem
    · rintro ⟨hr, he⟩
      rw [← hfinished, Bool.not_eq_true] at he
      exact halone.kept k r hr he
  · intro as t h
    exact (hrun as t h).1.host

theorem removesFinished [DecidableEq T]
    (hkeeps : ∀ s a t, setup.host.step s a = some t →
      (setup.host.db s).Keeps (setup.host.db t))
    (hfinished : ∀ cutoff r,
      setup.method.eligible cutoff r = true ↔ Finished cutoff r)
    {host : S} {as : List (Action A K)}
    (hrun : Lts.run setup.step { host } as = some s) :
    RemovesFinished setup Finished host as s := by
  refine ⟨?_, ?_, ?_⟩
  · intro a t k r hstep hr hgone
    obtain ⟨n, cutoff, rfl, hcutoff, he⟩ := step_vanishes hkeeps hstep hr hgone
    obtain ⟨now, hcalled, rfl⟩ := run_called hrun hcutoff
    exact ⟨n, now, rfl, hcalled, (hfinished _ _).mp he⟩
  · intro n
    exact run_emits (g := fun s => record s n)
      (fun _ _ _ h hstep => h.step hstep)
      (fun _ _ _ h hstep => record_step h hstep) (counted_init host) hrun
  · rw [List.length_flatMap]
    congr 1
    refine List.map_congr_left fun run hmem => ?_
    rw [List.mem_filter, Option.isNone_iff_eq_none] at hmem
    exact (counted_run hrun).runs run hmem.1 hmem.2

theorem retains [DecidableEq T]
    (hkeeps : ∀ s a t, setup.host.step s a = some t →
      (setup.host.db s).Keeps (setup.host.db t))
    (hfinished : ∀ cutoff r,
      setup.method.eligible cutoff r = true ↔ Finished cutoff r) :
    Retains setup Finished :=
  ⟨fun _ _ now hidle hlocks => drains hfinished now hidle hlocks,
    fun _ _ _ hrun => removesFinished hkeeps hfinished hrun⟩

/-- With its cleaners, a table does what the model of the table does that
deletes at any time. -/
theorem run_host {B : Type} {step' : S → B → Option S}
    (hother : ∀ s a t, setup.host.step s a = some t → ∃ b, step' s b = some t)
    (hdelete : ∀ s k cutoff r,
      (setup.host.db s).deleteNow k (setup.method.eligible cutoff) = some r →
      ∃ b, step' s b = some (setup.host.withDb s r.1))
    {as : List (Action A K)} (hrun : Lts.run setup.step s as = some t) :
    ∃ bs, Lts.run step' s.host bs = some t.host := by
  have one : ∀ {s t : S} {b : B}, step' s b = some t →
      ∃ bs, Lts.run step' s bs = some t :=
    fun h => ⟨[_], run_cons.mpr ⟨_, h, rfl⟩⟩
  refine run_rel (R := fun s t : Sys S K R =>
    ∃ bs, Lts.run step' s.host bs = some t.host) (fun _ => ⟨[], rfl⟩) ?_ ?_ hrun
  · rintro a b c ⟨bs, hbs⟩ ⟨cs, hcs⟩
    exact ⟨bs ++ cs, run_append.mpr ⟨_, hbs, hcs⟩⟩
  · intro s a t hstep
    cases step_moves hstep with
    | other h =>
        obtain ⟨b, hb⟩ := hother _ _ _ h
        exact one hb
    | deleted _ _ hdel =>
        obtain ⟨b, hb⟩ := hdelete _ _ _ _ hdel
        exact one hb
    | start | empty | selected | short | full | failed => exact ⟨[], rfl⟩

end PlatformGo.Retention

/-! ## The two tables -/

namespace PlatformGo.Outbox

open PlatformGo.Retention

variable {setup : Setup} {s t : Sys} {a : Action}

theorem host_step_eq (h : (host setup).step s a = some t) :
    setup.step s a = some t ∧ ∀ id before, a ≠ .delete id before := by
  cases a with
  | delete => cases h
  | _ => exact ⟨h, nofun⟩

theorem publishedBefore_iff (cutoff : Time) (row : Row) :
    publishedBefore cutoff row = true ↔
      ∃ at', row.publishedAt = some at' ∧ at' < cutoff := by
  rw [publishedBefore, Option.any_eq_true]
  simp

theorem retention_host {collate : String → String → Bool}
    {cleaner : Nat → RetentionCleaner}
    {as : List (Retention.Action Action String)}
    {s t : Retention.Sys Sys String Row}
    (hrun : Lts.run (retention setup collate cleaner).step s as = some t) :
    ∃ bs, Lts.run setup.step s.host bs = some t.host := by
  refine run_host (fun _ a _ h => ⟨a, (host_step_eq h).1⟩) ?_ hrun
  intro s k cutoff r hdel
  exact ⟨.delete k cutoff, Option.map_eq_some_iff.mpr ⟨r, hdel, rfl⟩⟩

end PlatformGo.Outbox

namespace PlatformGo.Inbox

open PlatformGo.Retention

variable {W : Type} {s t : Sys W} {a : Action W}

theorem host_step_eq (h : (host W).step s a = some t) :
    step s a = some t ∧ ∀ k before, a ≠ .delete k before := by
  cases a with
  | delete => cases h
  | _ => exact ⟨h, nofun⟩

theorem completedBefore_iff (cutoff : Time) (row : Row) :
    completedBefore cutoff row = true ↔ row.status = .completed ∧
      ∃ at', row.completedAt = some at' ∧ at' < cutoff := by
  rw [completedBefore, Bool.and_eq_true, beq_iff_eq, Option.any_eq_true]
  simp

theorem retention_host {collate : String → String → Bool}
    {cleaner : Nat → RetentionCleaner}
    {as : List (Retention.Action (Action W) Key)}
    {s t : Retention.Sys (Sys W) Key Row}
    (hrun : Lts.run (retention W collate cleaner).step s as = some t) :
    ∃ bs, Lts.run step s.host bs = some t.host := by
  refine run_host (fun _ a _ h => ⟨a, (host_step_eq h).1⟩) ?_ hrun
  intro s k cutoff r hdel
  exact ⟨.delete k cutoff, Option.map_eq_some_iff.mpr ⟨r, hdel, rfl⟩⟩

end PlatformGo.Inbox

namespace PlatformGo.Retention

open RowStore

theorem drains_finished (setup : Outbox.Setup) (W : Type)
    (collate : String → String → Bool) (cleaner : Nat → RetentionCleaner) :
    Retains (Outbox.retention setup collate cleaner) (fun cutoff row =>
        ∃ published, row.publishedAt = some published ∧ published < cutoff) ∧
      Retains (Inbox.retention W collate cleaner) (fun cutoff row =>
        row.status = .completed ∧
          ∃ completed, row.completedAt = some completed ∧
            completed < cutoff) := by
  constructor
  · refine retains (fun s a t h => ?_) Outbox.publishedBefore_iff
    obtain ⟨hstep, ha⟩ := Outbox.host_step_eq h
    exact Outbox.step_keeps hstep ha
  · refine retains (fun s a t h => ?_) Inbox.completedBefore_iff
    obtain ⟨hstep, ha⟩ := Inbox.host_step_eq h
    exact Inbox.step_keeps hstep ha

/-- Batches of two, kept for a minute. -/
def everyMinute (_ : Nat) : RetentionCleaner :=
  ⟨60, 2, by decide, by decide⟩

def orderRow (publishedAt : Option Time) : Outbox.Row :=
  { Outbox.addedRow (Outbox.orderEvent "order-1") [] "orders" 0 with
    publishedAt }

/-- Two orders published long ago, one published just now and one pending. -/
def outboxOrders : Sys Outbox.Sys String Outbox.Row :=
  { host := { db := { Db.empty with
      rows := [⟨"order-1", orderRow (some 10)⟩,
        ⟨"order-2", orderRow (some 20)⟩, ⟨"order-3", orderRow (some 90)⟩,
        ⟨"order-4", orderRow none⟩].toAList } } }

/-- An order completed long ago and one that failed. -/
def inboxOrders : Sys (Inbox.Sys String) Inbox.Key Inbox.Row :=
  { host := ⟨{ Db.empty with
      rows := [⟨⟨"orders", "order-1"⟩, Inbox.markCompleted "orders" 10
          (Inbox.pendingRow "orders" 0)⟩,
        ⟨⟨"orders", "order-2"⟩, Inbox.markFailed "orders" (.new []) 10
          (Inbox.pendingRow "orders" 0)⟩].toAList }, fun _ => none⟩ }

/-- Two cleaners select the same rows and delete one each. -/
def sharedBatch : List (Action Outbox.Action String) :=
  [.start 0 150, .start 1 150, .select 0, .select 1, .delete 0 "order-1",
    .delete 1 "order-1", .delete 1 "order-2", .delete 0 "order-2", .next 0,
    .next 1]

theorem drains_finished_orders :
    (∃ as t, Lts.run (Outbox.retention Outbox.orderSetup (fun i j => i ≤ j)
        everyMinute).step outboxOrders (.start 0 150 :: as) = some t ∧
      (∃ removed, t.runs = [⟨0, 2, none, removed⟩]) ∧
      t.host.db.lookup "order-3" = some (orderRow (some 90))) ∧
    (∃ as t, Lts.run (Inbox.retention String (fun i j => i ≤ j)
        everyMinute).step inboxOrders (.start 0 150 :: as) = some t ∧
      ∃ removed, t.runs = [⟨0, 1, none, removed⟩]) ∧
    ∃ s, Lts.run (Outbox.retention Outbox.orderSetup (fun i j => i ≤ j)
        everyMinute).step outboxOrders sharedBatch = some s ∧
      s.runs.map Run.total = [1, 1] ∧
      ((s.runs.filter fun run => run.err.isNone).map Run.total).sum =
        ((s.runs.filter fun run => run.err.isNone).flatMap
          Run.removed).length := by
  obtain ⟨houtbox, hinbox⟩ :=
    drains_finished Outbox.orderSetup String (fun i j => i ≤ j) everyMinute
  refine ⟨?_, ?_, ?_⟩
  · have h := houtbox.alone outboxOrders 0 150 rfl (fun _ => rfl)
    rw [ncard_finished (Outbox.publishedBefore_iff _)
      (m := Outbox.deletePublishedBefore Outbox.orderStore fun i j => i ≤ j)] at h
    obtain ⟨as, t, hrun, hidle⟩ := h.returns
    refine ⟨as, t, hrun.2, h.total as t hrun hidle, ?_⟩
    refine (h.rows as t hrun hidle _ _).mpr ⟨rfl, ?_⟩
    rintro ⟨published, hat, hlt⟩
    cases hat
    exact absurd hlt (by decide)
  · have h := hinbox.alone inboxOrders 0 150 rfl (fun _ => rfl)
    rw [ncard_finished (Inbox.completedBefore_iff _)
      (m := Inbox.deleteCompletedBefore fun i j => i ≤ j)] at h
    obtain ⟨as, t, hrun, hidle⟩ := h.returns
    exact ⟨as, t, hrun.2, h.total as t hrun hidle⟩
  · have hrun : (Lts.run (Outbox.retention Outbox.orderSetup
        (fun i j => i ≤ j) everyMinute).step outboxOrders sharedBatch).map
          (fun s => s.runs.map Run.total) = some [1, 1] := by decide +kernel
    obtain ⟨s, hs, htotal⟩ := Option.map_eq_some_iff.mp hrun
    exact ⟨s, hs, htotal, (houtbox.together outboxOrders.host _ s hs).totals⟩

end PlatformGo.Retention
