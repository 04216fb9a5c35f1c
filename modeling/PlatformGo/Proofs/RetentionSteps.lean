import Mathlib.Data.List.Perm.Basic
import PlatformGo.Lib.Lts
import PlatformGo.Ref.Retention

/-!
# The steps of retention

What a `SELECT` of the cleaners returns, what a step of one can do, and what
follows for any interleaving: a committed row goes only in a deletion, is
finished then before the cutoff of the run, and is counted by it.
-/

namespace PlatformGo.Retention

open Lts RowStore

/-! ## The selection -/

section Selection

variable {K R W T : Type} [DecidableEq K] {m : Method K R}
  {db : Db K R W T} {before : Time} {k : K}

theorem mem_candidates : k ∈ candidates m db before ↔
    ∃ r, db.lookup k = some r ∧ m.eligible before r = true := by
  rw [candidates, List.mem_filter, Option.any_eq_true]
  refine ⟨And.right, fun h => ⟨?_, h⟩⟩
  obtain ⟨r, hr, -⟩ := h
  exact AList.mem_keys.mp (AList.lookup_isSome.mp (Option.isSome_of_eq_some hr))

theorem nodup_candidates : (candidates m db before).Nodup :=
  db.rows.keys_nodup.filter _

theorem candidates_erase [DecidableEq T] (k : K) :
    candidates m { db with rows := db.rows.erase k } before =
      (candidates m db before).erase k := by
  rw [nodup_candidates.erase_eq_filter, candidates, candidates,
    List.filter_filter]
  show (db.rows.erase k).keys.filter _ = _
  rw [AList.keys_erase, db.rows.keys_nodup.erase_eq_filter, List.filter_filter]
  refine List.filter_congr fun j _ => ?_
  rw [Db.lookup_rows_erase]
  by_cases hj : j = k
  · simp [hj]
  · rw [if_neg hj, Bool.and_comm]

variable {limit : Int}

theorem selected_subset (h : k ∈ selected m db before limit) :
    k ∈ candidates m db before :=
  (List.mem_insertionSort _).mp (List.mem_of_mem_take h)

theorem nodup_selected : (selected m db before limit).Nodup :=
  ((List.perm_insertionSort _ _).nodup_iff.mpr nodup_candidates).sublist
    (List.take_sublist _ _)

theorem length_selected : (selected m db before limit).length =
    min limit.toNat (candidates m db before).length := by
  rw [selected, List.length_take, List.length_insertionSort]

end Selection

section Machine

variable {S A K R W T : Type} {s t : Sys S K R} {n n' : Nat} {c : Cleaner K R}
  {phase : Phase K} {total : Nat} {err : Option GoErr}

theorem set_cleaners_self : (s.set n c).cleaners n = c :=
  Function.update_self ..

theorem set_cleaners_ne (h : n' ≠ n) : (s.set n c).cleaners n' = s.cleaners n' :=
  Function.update_of_ne h _ _

@[simp] theorem set_phase_self : (s.set n c).phase n = c.phase :=
  congrArg Cleaner.phase set_cleaners_self

theorem set_phase_ne (h : n' ≠ n) : (s.set n c).phase n' = s.phase n' :=
  congrArg Cleaner.phase (set_cleaners_ne h)

/-! ## What the record says -/

/-- The rows a cleaner has counted since `RunOnce` was called. -/
def Phase.count : Phase K → Nat
  | .idle => 0
  | .looping _ total => total
  | .deleting _ total _ deleted => total + deleted

def Phase.cutoff : Phase K → Option Time
  | .idle => none
  | .looping cutoff _ | .deleting cutoff _ _ _ => some cutoff

/-- What the cleaners count is what they removed. -/
structure Counted (s : Sys S K R) : Prop where
  cleaners : ∀ n, (s.cleaners n).removed.length = (s.phase n).count
  runs : ∀ run ∈ s.runs, run.err = none → run.total = run.removed.length

theorem counted_init (host : S) : Counted ({ host } : Sys S K R) :=
  ⟨fun _ => rfl, by intro _ h; cases h⟩

theorem Counted.set (h : Counted s) (hc : c.removed.length = c.phase.count) :
    Counted (s.set n c) := by
  refine ⟨fun n' => ?_, h.runs⟩
  by_cases hn : n' = n
  · rw [hn, set_cleaners_self, set_phase_self, hc]
  · rw [set_cleaners_ne hn, set_phase_ne hn, h.cleaners]

theorem Counted.return (h : Counted s)
    (herr : err = none → total = (s.phase n).count) :
    Counted (s.return n total err) := by
  refine Counted.set (s := { s with runs := _ }) ⟨h.cleaners, ?_⟩ rfl
  intro run hrun hnone
  rcases List.mem_append.mp hrun with hrun | hrun
  · exact h.runs run hrun hnone
  · rw [List.mem_singleton.mp hrun] at hnone ⊢
    exact (herr hnone).trans (h.cleaners n).symm

/-- The rows a cleaner has removed: in the runs it has returned from, and in
the one it is in. -/
def record (s : Sys S K R) (n : Nat) : List (K × R) :=
  (s.runs.filter fun run => run.cleaner = n).flatMap Run.removed ++
    (s.cleaners n).removed

theorem record_set (h : n' = n → c.removed = (s.cleaners n).removed) :
    record (s.set n c) n' = record s n' := by
  rw [record, record]
  by_cases hn : n' = n
  · rw [hn, set_cleaners_self, h hn]
    rfl
  · rw [set_cleaners_ne hn]
    rfl

theorem record_goto : record (s.goto n phase) n' = record s n' :=
  record_set fun _ => rfl

theorem record_return : record (s.return n total err) n' = record s n' := by
  rw [record, record, Sys.return]
  by_cases hn : n' = n
  · subst hn
    rw [set_cleaners_self]
    show (List.filter _ (s.runs ++ [_])).flatMap _ ++ [] = _
    simp
  · rw [set_cleaners_ne hn]
    show (List.filter _ (s.runs ++ [_])).flatMap _ ++ _ = _
    simp [Ne.symm hn]

/-- The last call of `RunOnce` by a cleaner read `now` off its clock. -/
def Called (as : List (Action A K)) (n : Nat) (now : Time) : Prop :=
  ∃ pre post, as = pre ++ .start n now :: post ∧ ∀ now', .start n now' ∉ post

theorem Called.snoc {as : List (Action A K)} {now : Time} (h : Called as n now)
    {a : Action A K}
    (ha : ∀ now', a ≠ .start n now') : Called (as ++ [a]) n now := by
  obtain ⟨pre, post, rfl, hpost⟩ := h
  refine ⟨pre, post ++ [a], by simp, fun now' hmem => ?_⟩
  rcases List.mem_append.mp hmem with hmem | hmem
  · exact hpost now' hmem
  · exact ha now' (List.mem_singleton.mp hmem).symm

/-! ## What a step can do -/

variable [DecidableEq K] {setup : Setup S A K R W T}
  {a : Action A K}

/-- The steps, by what they do to the cleaner that takes them. -/
inductive Moves (setup : Setup S A K R W T) (s : Sys S K R) :
    Action A K → Sys S K R → Prop
  | other {a : A} {host : S} (h : setup.host.step s.host a = some host) :
      Moves setup s (.other a) { s with host }
  | start {n : Nat} {now : Time} (h : s.phase n = .idle) :
      Moves setup s (.start n now)
        (s.set n { phase := .looping (now - (setup.cleaner n).retention) 0 })
  | empty {n : Nat} {cutoff : Time} {total : Nat}
      (h : s.phase n = .looping cutoff total)
      (hsel : selected setup.method (setup.db s) cutoff
        (setup.cleaner n).batchSize = []) :
      Moves setup s (.select n) (s.return n total none)
  | selected {n : Nat} {cutoff : Time} {total : Nat} {keys : List K}
      (h : s.phase n = .looping cutoff total)
      (hsel : selected setup.method (setup.db s) cutoff
        (setup.cleaner n).batchSize = keys) :
      Moves setup s (.select n) (s.goto n (.deleting cutoff total keys 0))
  | deleted {n : Nat} {k : K} {cutoff : Time} {total : Nat} {left : List K}
      {deleted : Nat} {r : Db K R W T × Nat}
      (h : s.phase n = .deleting cutoff total left deleted) (hk : k ∈ left)
      (hdel : (setup.db s).deleteNow k (setup.method.eligible cutoff) = some r) :
      Moves setup s (.delete n k)
        (Sys.set { s with host := setup.host.withDb s.host r.1 } n
          { phase := .deleting cutoff total (left.erase k) (deleted + r.2)
            removed := (s.cleaners n).removed ++ gone (setup.db s) r.1 k })
  | short {n : Nat} {cutoff : Time} {total deleted : Nat}
      (h : s.phase n = .deleting cutoff total [] deleted)
      (hshort : (deleted : Int) < (setup.cleaner n).batchSize) :
      Moves setup s (.next n) (s.return n (total + deleted) none)
  | full {n : Nat} {cutoff : Time} {total deleted : Nat}
      (h : s.phase n = .deleting cutoff total [] deleted)
      (hfull : (setup.cleaner n).batchSize ≤ deleted) :
      Moves setup s (.next n) (s.goto n (.looping cutoff (total + deleted)))
  | failed {n : Nat} {fault : Fault} {total : Nat} {err : GoErr} :
      Moves setup s (.fail n fault) (s.return n total (some err))

theorem reaches_mem {m : Method K R} {left : List K} {k : K}
    (h : m.reaches left k = true) : k ∈ left := by
  rw [Method.reaches] at h
  split at h
  · exact List.mem_of_head? (beq_iff_eq.mp h)
  · exact List.contains_iff_mem.mp h

theorem select_moves (h : setup.select s n = some t) :
    Moves setup s (.select n) t := by
  have hpos := (setup.cleaner n).batchSize_pos
  simp only [Setup.select] at h
  split at h
  · next cutoff total hphase =>
      rw [if_neg (Int.not_le.mpr hpos)] at h
      split at h
      · next hsel =>
          rw [Setup.batch, if_pos (by exact_mod_cast hpos)] at h
          cases h
          exact .empty hphase hsel
      · next hsel =>
          cases h
          exact .selected hphase hsel
  · cases h

theorem delete_moves {k : K} (h : setup.delete s n k = some t) :
    Moves setup s (.delete n k) t := by
  simp only [Setup.delete] at h
  split at h
  · next hphase =>
      split at h
      · next hreach =>
          obtain ⟨r, hr, rfl⟩ := Option.map_eq_some_iff.mp h
          exact .deleted hphase (reaches_mem hreach) hr
      · cases h
  · cases h

theorem step_moves (h : setup.step s a = some t) : Moves setup s a t := by
  cases a with
  | other a =>
      obtain ⟨host, hhost, rfl⟩ := Option.map_eq_some_iff.mp h
      exact .other hhost
  | start n now =>
      simp only [Setup.step] at h
      split at h
      · next hphase =>
          cases h
          exact .start hphase
      · cases h
  | select n => exact select_moves h
  | delete n k => exact delete_moves h
  | next n =>
      simp only [Setup.step] at h
      split at h
      · next cutoff total deleted hphase =>
          rw [Setup.batch] at h
          split at h
          · next hshort =>
              cases h
              exact .short hphase hshort
          · next hfull =>
              cases h
              exact .full hphase (Int.not_lt.mp hfull)
      · cases h
  | fail n fault =>
      simp only [Setup.step, Setup.fail] at h
      split at h
      all_goals first
        | cases h
          exact .failed
        | cases h

/-! ## Any interleaving -/

theorem length_gone {db : Db K R W T} {k : K} {p : R → Bool}
    {r : Db K R W T × Nat} [DecidableEq T] (h : db.deleteNow k p = some r) :
    (gone db r.1 k).length = r.2 := by
  obtain ⟨-, ⟨hn, hdb, -⟩ | ⟨row, hrow, -, hn, hdb⟩⟩ := Db.statementNow_eq h
  · rw [hn, hdb, gone]
    split
    · next hnone => rw [Option.isNone_iff_eq_none.mp hnone]; rfl
    · rfl
  · rw [hn, hdb, gone, Db.lookup_rows_erase, if_pos rfl, hrow]
    rfl

theorem Counted.step [DecidableEq T] (h : Counted s)
    (hstep : setup.step s a = some t) : Counted t := by
  have hcount := h.cleaners
  cases step_moves hstep with
  | other => exact ⟨h.cleaners, h.runs⟩
  | start => exact h.set rfl
  | empty hphase => exact h.return fun _ => by rw [hphase]; rfl
  | @selected n cutoff total keys hphase =>
      refine h.set ?_
      rw [h.cleaners n, hphase]
      rfl
  | @deleted n k cutoff total left deleted r hphase hk hdel =>
      refine Counted.set (s := { s with host := _ }) ⟨h.cleaners, h.runs⟩ ?_
      rw [List.length_append, h.cleaners n, hphase, length_gone hdel]
      exact Nat.add_assoc ..
  | short hphase => exact h.return fun _ => by rw [hphase]; rfl
  | @full n cutoff total deleted hphase =>
      refine h.set ?_
      rw [h.cleaners n, hphase]
      rfl
  | failed => exact h.return nofun

theorem counted_run [DecidableEq T] {host : S} {as : List (Action A K)}
    (hrun : run setup.step { host } as = some s) : Counted s :=
  run_inv_of (fun _ _ _ h hstep => h.step hstep) (counted_init host) hrun

/-- The rows that go in a step of a cleaner. -/
def Setup.lost (setup : Setup S A K R W T) (n : Nat)
    (p : Sys S K R × Action A K) : List (K × R) :=
  match p.2 with
  | .delete m k =>
      if m = n then
        (setup.step p.1 p.2).toList.flatMap fun t =>
          gone (setup.db p.1) (setup.db t) k
      else []
  | _ => []

theorem record_step (h : Counted s) (hstep : setup.step s a = some t) :
    record t n = record s n ++ setup.lost n (s, a) := by
  cases step_moves hstep with
  | other => exact (List.append_nil _).symm
  | @start m now hphase =>
      refine (record_set fun _ => ?_).trans (List.append_nil _).symm
      have hlen := h.cleaners m
      rw [hphase] at hlen
      exact (List.length_eq_zero_iff.mp hlen).symm
  | empty | short | failed => exact record_return.trans (List.append_nil _).symm
  | selected | full => exact record_goto.trans (List.append_nil _).symm
  | @deleted m k cutoff total left deleted r hphase hk hdel =>
      by_cases hm : m = n
      · subst hm
        have hlost : setup.lost m (s, .delete m k) = gone (setup.db s) r.1 k := by
          simp only [Setup.lost, hstep, if_true, Option.toList_some,
            List.flatMap_singleton]
          exact congrArg (gone _ · k) (setup.host.db_withDb ..)
        rw [hlost, record, record, set_cleaners_self, List.append_assoc]
        rfl
      · have hlost : setup.lost n (s, .delete m k) = [] := if_neg hm
        rw [hlost, List.append_nil]
        exact record_set fun h => absurd h.symm hm

/-- A committed row goes only in a deletion, and is finished then. -/
theorem step_vanishes [DecidableEq T] {k : K} {r : R}
    (hkeeps : ∀ s a t, setup.host.step s a = some t →
      (setup.host.db s).Keeps (setup.host.db t))
    (hstep : setup.step s a = some t) (hr : (setup.db s).lookup k = some r)
    (hgone : (setup.db t).lookup k = none) :
    ∃ n cutoff, a = .delete n k ∧ (s.phase n).cutoff = some cutoff ∧
      setup.method.eligible cutoff r = true := by
  have hsame : setup.db t ≠ setup.db s := by
    intro h
    rw [h, hr] at hgone
    cases hgone
  cases step_moves hstep with
  | other h =>
      have hk := hkeeps _ _ _ h k (Option.isSome_of_eq_some hr)
      rw [Option.isSome_iff_ne_none] at hk
      exact absurd hgone hk
  | start | empty | selected | short | full | failed => exact absurd rfl hsame
  | @deleted n j cutoff total left deleted u hphase hj hdel =>
      have hdb : setup.host.db (setup.host.withDb s.host u.1) = u.1 :=
        setup.host.db_withDb ..
      obtain ⟨-, ⟨-, hu, -⟩ | ⟨row, hrow, hp, -, hu⟩⟩ := Db.statementNow_eq hdel
      · exact absurd (hdb.trans hu) hsame
      · have hlookup : (setup.host.db (setup.host.withDb s.host u.1)).lookup k =
            if k = j then none else (setup.db s).lookup k := by
          rw [hdb, hu, Db.lookup_rows_erase]
        by_cases hkj : k = j
        · subst hkj
          rw [hr] at hrow
          cases hrow
          exact ⟨n, cutoff, rfl, by rw [hphase]; rfl, hp⟩
        · rw [if_neg hkj, hr] at hlookup
          exact nomatch hlookup.symm.trans hgone

/-- A step keeps the cutoff of a run, and `RunOnce` sets it. -/
theorem step_cutoff {cutoff : Time} (hstep : setup.step s a = some t)
    (ht : (t.phase n).cutoff = some cutoff) :
    (∃ now, a = .start n now ∧ cutoff = now - (setup.cleaner n).retention) ∨
      (∀ now, a ≠ .start n now) ∧ (s.phase n).cutoff = some cutoff := by
  have hset : ∀ {s : Sys S K R} {m : Nat} {c : Cleaner K R},
      ((s.set m c).phase n).cutoff = some cutoff →
      m = n ∧ c.phase.cutoff = some cutoff ∨
        m ≠ n ∧ (s.phase n).cutoff = some cutoff := by
    intro s m c h
    by_cases hm : m = n
    · subst hm
      rw [set_phase_self] at h
      exact .inl ⟨rfl, h⟩
    · rw [set_phase_ne (Ne.symm hm)] at h
      exact .inr ⟨hm, h⟩
  cases step_moves hstep with
  | other => exact .inr ⟨nofun, ht⟩
  | @start m now hphase =>
      rcases hset ht with ⟨rfl, h⟩ | ⟨hm, h⟩
      · cases h
        exact .inl ⟨now, rfl, rfl⟩
      · exact .inr ⟨fun _ h => hm (Action.start.inj h).1, h⟩
  | empty hphase | short hphase | failed =>
      rcases hset ht with ⟨rfl, h⟩ | ⟨-, h⟩
      · cases h
      · exact .inr ⟨nofun, h⟩
  | selected hphase | deleted hphase | full hphase =>
      rcases hset ht with ⟨rfl, h⟩ | ⟨-, h⟩
      · exact .inr ⟨nofun, by rw [hphase]; exact h⟩
      · exact .inr ⟨nofun, h⟩

/-- The cutoff of a run is that of its call. -/
theorem run_called {as : List (Action A K)} {host : S}
    (hrun : run setup.step { host } as = some s) {cutoff : Time}
    (h : (s.phase n).cutoff = some cutoff) :
    ∃ now, Called as n now ∧ cutoff = now - (setup.cleaner n).retention := by
  refine run_history (P := fun as s => ∀ cutoff,
    (s.phase n).cutoff = some cutoff → ∃ now, Called as n now ∧
      cutoff = now - (setup.cleaner n).retention) (by intro _ h; cases h) ?_
    hrun cutoff h
  intro pre m a t _ ih hstep cutoff ht
  rcases step_cutoff hstep ht with ⟨now, rfl, hc⟩ | ⟨ha, hm⟩
  · exact ⟨now, ⟨pre, [], rfl, nofun⟩, hc⟩
  · obtain ⟨now, hcalled, hc⟩ := ih cutoff hm
    exact ⟨now, hcalled.snoc ha, hc⟩

end Machine

end PlatformGo.Retention
