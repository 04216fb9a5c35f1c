import PlatformGo.Ref.DynamicConfig

/-!
# What the configuration cache loses, and when it does not

`Invalidate` stores a nil pointer and does not take the refresh mutex. Two
things follow. A refresh that already has its response stores it after the
invalidation, and the cache then serves what was computed before the change;
it does so exactly when some refresh has a response with entries in hand at
the moment of the change. And a `Get` that has refreshed may find the pointer
nil at its second `Load` and read through it.

Both proofs go over the steps of one caller (`CallerStep`), with the
invalidations apart.
-/

namespace PlatformGo.DynamicConfig

variable {c : Client} {s t : Sys} {a : Action} {i : Nat}

/-! ## What a step does -/

/-- A step of the caller, the value it leaves in the cache and what has been
returned after it. -/
inductive CallerStep (c : Client) (s : Sys) (a : Action) (i : Nat) :
    Phase → Phase → Option Snapshot → List GetResult → Prop
  | hit {key : String} {current : Snapshot} (h : s.value = some current) :
      CallerStep c s a i .idle (.lookup key s.changes (some current)) s.value
        s.gets
  | missed (key : String) :
      CallerStep c s a i .idle (.waiting (.get key s.value s.changes)) s.value
        s.gets
  | called (keys : List String) :
      CallerStep c s a i .idle (.waiting (.refresh keys)) s.value s.gets
  | locked {caller : Caller} {request : ResolveRequest} :
      CallerStep c s a i (.waiting caller) (.resolving caller request) s.value
        s.gets
  | answered {caller : Caller} {request : ResolveRequest}
      (response : ResolveResponse) :
      CallerStep c s a i (.resolving caller request)
        (.answered caller response s.changes) s.value s.gets
  | refreshFailed {keys : List String} {request : ResolveRequest} :
      CallerStep c s a i (.resolving (.refresh keys) request) .idle s.value
        s.gets
  | getFailed {key : String} {started : Nat} {request : ResolveRequest}
      (err : GoErr) :
      CallerStep c s a i (.resolving (.get key none started) request) .idle
        s.value (s.gets ++ [⟨key, started, none, .error err⟩])
  | stale {key : String} {current : Snapshot} {started : Nat}
      {request : ResolveRequest} {err : GoErr}
      (h : a = .resolve i (.error err)) :
      CallerStep c s a i (.resolving (.get key (some current) started) request)
        (.reload key started) s.value s.gets
  | refreshed {keys : List String} {response : ResolveResponse} {epoch : Nat}
      (now : Time) :
      CallerStep c s a i (.answered (.refresh keys) response epoch) .idle
        (some (c.snapshot response epoch now)) s.gets
  | stored {key : String} {current : Option Snapshot} {started : Nat}
      {response : ResolveResponse} {epoch : Nat} (now : Time) :
      CallerStep c s a i (.answered (.get key current started) response epoch)
        (.reload key started) (some (c.snapshot response epoch now)) s.gets
  | reloaded {key : String} {started : Nat} :
      CallerStep c s a i (.reload key started) (.lookup key started s.value)
        s.value s.gets
  | returned {key : String} {started : Nat} {current : Snapshot} :
      CallerStep c s a i (.lookup key started (some current)) .idle s.value
        (s.gets ++ [⟨key, started, some current.epoch, current.find key⟩])
  | panicked {key : String} {started : Nat} :
      CallerStep c s a i (.lookup key started none) .panicked s.value s.gets

/-- The caller makes a step of its own and the others stand still. -/
structure Moves (c : Client) (s : Sys) (a : Action) (t : Sys) (i : Nat) :
    Prop where
  others : ∀ j, j ≠ i → t.callers j = s.callers j
  changes : t.changes = s.changes
  step : CallerStep c s a i (s.callers i) (t.callers i) t.value t.gets

theorem moves_goto {phase : Phase} (hcallers : t.callers = s.callers)
    (hchanges : t.changes = s.changes)
    (h : CallerStep c s a i (s.callers i) phase t.value t.gets) :
    Moves c s a (t.goto i phase) i := by
  refine ⟨?_, hchanges, ?_⟩
  · intro j hj
    rw [← hcallers]
    exact Function.update_of_ne hj ..
  · show CallerStep c s a i (s.callers i)
      (Function.update t.callers i phase i) t.value t.gets
    rw [Function.update_self]
    exact h

theorem get_moves {key : String} {now : Time} (hidle : s.callers i = .idle) :
    Moves c s a (s.get i key now) i := by
  unfold Sys.get
  split
  · next current hvalue =>
      split
      · refine moves_goto rfl rfl ?_
        rw [hidle]
        exact .hit hvalue
      · refine moves_goto rfl rfl ?_
        rw [hidle, ← hvalue]
        exact .missed key
  · next hvalue =>
      refine moves_goto rfl rfl ?_
      rw [hidle, ← hvalue]
      exact .missed key

theorem refreshFailed_moves {caller : Caller} {request : ResolveRequest}
    {e err : GoErr} (hphase : s.callers i = .resolving caller request) :
    Moves c s (.resolve i (.error e))
      ({ s with locked := false }.refreshFailed i caller err) i := by
  unfold Sys.refreshFailed
  split
  · refine moves_goto rfl rfl ?_
    rw [hphase]
    exact .refreshFailed
  · refine moves_goto rfl rfl ?_
    rw [hphase]
    exact .getFailed err
  · refine moves_goto rfl rfl ?_
    rw [hphase]
    exact .stale rfl

theorem refreshed_moves {caller : Caller} {response : ResolveResponse}
    {epoch : Nat} (now : Time)
    (hphase : s.callers i = .answered caller response epoch) :
    Moves c s a ({ s with
      value := some (c.snapshot response epoch now)
      locked := false }.refreshed i caller) i := by
  cases caller with
  | refresh keys =>
      refine moves_goto rfl rfl ?_
      rw [hphase]
      exact .refreshed now
  | get key current started =>
      refine moves_goto rfl rfl ?_
      rw [hphase]
      exact .stored now

/-- The action drops the snapshot. -/
def Client.invalidates (c : Client) : Action → Bool
  | .invalidate => true
  | .changed envelope =>
      match c.handleChanged envelope with
      | .ok true => true
      | _ => false
  | _ => false

/-- A step of nobody's: the cache is invalidated, or nothing happens. -/
structure Dropped (c : Client) (s : Sys) (a : Action) (t : Sys) : Prop where
  callers : t.callers = s.callers
  gets : t.gets = s.gets
  value : t.value = s.value ∨ c.invalidates a = true ∧ t.value = none
  changes : s.changes ≤ t.changes

theorem step_cases (h : c.step s a = some t) :
    Dropped c s a t ∨ ∃ i, Moves c s a t i := by
  cases a with
  | get i key now =>
      simp only [Client.step] at h
      split at h
      · next hidle =>
          cases h
          exact .inr ⟨i, get_moves hidle⟩
      · cases h
  | refresh i keys =>
      simp only [Client.step] at h
      split at h
      · next hidle =>
          cases h
          refine .inr ⟨i, moves_goto rfl rfl ?_⟩
          rw [hidle]
          exact .called keys
      · cases h
  | lock i =>
      simp only [Client.step] at h
      split at h
      · next caller hphase =>
          split at h
          · cases h
          · cases h
            refine .inr ⟨i, moves_goto rfl rfl ?_⟩
            rw [hphase]
            exact .locked
      · cases h
  | resolve i answer =>
      simp only [Client.step] at h
      split at h
      · next caller request hphase =>
          split at h
          · cases h
            exact .inr ⟨i, refreshFailed_moves hphase⟩
          · next response =>
              cases h
              refine .inr ⟨i, moves_goto rfl rfl ?_⟩
              rw [hphase]
              exact .answered response
      · cases h
  | store i now =>
      simp only [Client.step] at h
      split at h
      · next caller response epoch hphase =>
          cases h
          exact .inr ⟨i, refreshed_moves now hphase⟩
      · cases h
  | reload i =>
      simp only [Client.step] at h
      split at h
      · next key started hphase =>
          cases h
          refine .inr ⟨i, moves_goto rfl rfl ?_⟩
          rw [hphase]
          exact .reloaded
      · cases h
  | lookup i =>
      simp only [Client.step] at h
      split at h
      · next key started current hphase =>
          cases h
          refine .inr ⟨i, moves_goto rfl rfl ?_⟩
          rw [hphase]
          exact .returned
      · next key started hphase =>
          cases h
          refine .inr ⟨i, moves_goto rfl rfl ?_⟩
          rw [hphase]
          exact .panicked
      · cases h
  | invalidate =>
      cases h
      exact .inl ⟨rfl, rfl, .inr ⟨rfl, rfl⟩, Nat.le_refl _⟩
  | changed envelope =>
      simp only [Client.step] at h
      split at h
      · next hmatch =>
          cases h
          refine .inl ⟨rfl, rfl, .inr ⟨?_, rfl⟩, Nat.le_succ _⟩
          rw [Client.invalidates, hmatch]
      · cases h
        exact .inl ⟨rfl, rfl, .inl rfl, Nat.le_refl _⟩

/-! ## A change that is not lost -/

/-- The number of changes before the call of `Get`. -/
def Caller.started : Caller → Option Nat
  | .get _ _ started => some started
  | .refresh _ => none

def Phase.started : Phase → Option Nat
  | .waiting caller | .resolving caller _ | .answered caller _ _ =>
      caller.started
  | .reload _ started | .lookup _ started _ => some started
  | _ => none

/-- No call has started, and no response was computed, after more changes than
there have been. -/
structure Counted (s : Sys) : Prop where
  callers : ∀ i n, (s.callers i).started = some n → n ≤ s.changes
  answered : ∀ i caller response n,
    s.callers i = .answered caller response n → n ≤ s.changes
  gets : ∀ r ∈ s.gets, r.started ≤ s.changes

section CallerStep

variable {phase phase' : Phase} {value : Option Snapshot}
  {gets : List GetResult}

theorem CallerStep.started (h : CallerStep c s a i phase phase' value gets)
    {n : Nat} (hn : phase'.started = some n) :
    phase.started = some n ∨ n = s.changes := by
  cases h with
  | hit h =>
      cases hn
      exact .inr rfl
  | missed key =>
      cases hn
      exact .inr rfl
  | locked => exact .inl hn
  | answered response => exact .inl hn
  | stale h => exact .inl hn
  | stored now => exact .inl hn
  | reloaded => exact .inl hn
  | _ => cases hn

theorem CallerStep.epoch (h : CallerStep c s a i phase phase' value gets)
    {caller : Caller} {response : ResolveResponse} {n : Nat}
    (hn : phase' = .answered caller response n) : n = s.changes := by
  cases h with
  | answered response =>
      cases hn
      rfl
  | _ => cases hn

theorem CallerStep.gets_started
    (h : CallerStep c s a i phase phase' value gets) :
    ∀ r ∈ gets, r ∈ s.gets ∨ phase.started = some r.started := by
  intro r hr
  cases h with
  | getFailed | returned =>
      rcases List.mem_append.mp hr with hr | hr
      · exact .inl hr
      · rw [List.mem_singleton.mp hr]
        exact .inr rfl
  | _ => exact .inl hr

end CallerStep

theorem counted_step (hinv : Counted s) (h : c.step s a = some t) :
    Counted t := by
  rcases step_cases h with hdrop | ⟨i, hmove⟩
  · refine ⟨?_, ?_, ?_⟩
    · intro j n hn
      rw [hdrop.callers] at hn
      exact Nat.le_trans (hinv.callers j n hn) hdrop.changes
    · intro j caller response n hj
      rw [hdrop.callers] at hj
      exact Nat.le_trans (hinv.answered j caller response n hj) hdrop.changes
    · intro r hr
      rw [hdrop.gets] at hr
      exact Nat.le_trans (hinv.gets r hr) hdrop.changes
  · refine ⟨?_, ?_, ?_⟩
    · intro j n hn
      rw [hmove.changes]
      by_cases hj : j = i
      · subst hj
        rcases hmove.step.started hn with hold | rfl
        · exact hinv.callers j n hold
        · exact Nat.le_refl _
      · rw [hmove.others j hj] at hn
        exact hinv.callers j n hn
    · intro j caller response n hn
      rw [hmove.changes]
      by_cases hj : j = i
      · subst hj
        rw [hmove.step.epoch hn]
      · rw [hmove.others j hj] at hn
        exact hinv.answered j caller response n hn
    · intro r hr
      rw [hmove.changes]
      rcases hmove.step.gets_started r hr with hold | hstarted
      · exact hinv.gets r hold
      · exact hinv.callers i r.started hstarted

theorem counted_init : Counted {} := by
  refine ⟨?_, ?_, ?_⟩
  · intro i n h
    cases h
  · intro i caller response n h
    cases h
  · intro r h
    cases h

theorem counted_run {as : List Action}
    (hrun : Lts.run c.step {} as = some s) : Counted s :=
  Lts.run_inv_of (fun _ _ _ => counted_step) counted_init hrun

/-- Whatever the snapshot holds was computed after the `n`-th change. -/
def Snapshot.Fresh (n : Nat) (snapshot : Snapshot) : Prop :=
  n ≤ snapshot.epoch ∨ snapshot.values = ∅

def PhaseFresh (n : Nat) : Phase → Prop
  | .answered _ response epoch => n ≤ epoch ∨ response.entries = []
  | .lookup _ started (some current) => n ≤ started → current.Fresh n
  | _ => True

structure FreshAfter (n : Nat) (s : Sys) : Prop where
  changes : n ≤ s.changes
  value : ∀ current, s.value = some current → current.Fresh n
  callers : ∀ i, PhaseFresh n (s.callers i)
  gets : ∀ r ∈ s.gets, n ≤ r.started → ∀ v epoch, r.result = .ok v →
    r.source = some epoch → n ≤ epoch

theorem snapshot_fresh {n epoch : Nat} {response : ResolveResponse}
    (h : n ≤ epoch ∨ response.entries = []) (now : Time) :
    (c.snapshot response epoch now).Fresh n := by
  refine h.imp_right ?_
  intro hempty
  show response.values = ∅
  rw [ResolveResponse.values, hempty]
  rfl

theorem Snapshot.Fresh.find {n : Nat} {current : Snapshot} {key : String}
    {v : Value} (h : current.Fresh n) (hv : current.find key = .ok v) :
    n ≤ current.epoch := by
  rcases h with h | hempty
  · exact h
  · rw [Snapshot.find, hempty] at hv
    cases hv

theorem CallerStep.fresh {n : Nat} {phase phase' : Phase}
    {value : Option Snapshot} {gets : List GetResult}
    (h : CallerStep c s a i phase phase' value gets)
    (hinv : FreshAfter n s) (hphase : PhaseFresh n phase) :
    (∀ current, value = some current → current.Fresh n) ∧
      PhaseFresh n phase' ∧
      ∀ r ∈ gets, n ≤ r.started → ∀ v epoch, r.result = .ok v →
        r.source = some epoch → n ≤ epoch := by
  cases h with
  | hit h => exact ⟨hinv.value, fun _ => hinv.value _ h, hinv.gets⟩
  | missed | called | locked | refreshFailed | stale | panicked =>
      exact ⟨hinv.value, trivial, hinv.gets⟩
  | answered response => exact ⟨hinv.value, .inl hinv.changes, hinv.gets⟩
  | getFailed err =>
      refine ⟨hinv.value, trivial, ?_⟩
      intro r hr hstarted v epoch hv hsource
      rcases List.mem_append.mp hr with hr | hr
      · exact hinv.gets r hr hstarted v epoch hv hsource
      · rw [List.mem_singleton.mp hr] at hv
        cases hv
  | refreshed now | stored now =>
      refine ⟨?_, trivial, hinv.gets⟩
      rintro current ⟨⟩
      exact snapshot_fresh hphase now
  | reloaded =>
      refine ⟨hinv.value, ?_, hinv.gets⟩
      cases hvalue : s.value with
      | none => trivial
      | some current => exact fun _ => hinv.value current hvalue
  | returned =>
      refine ⟨hinv.value, trivial, ?_⟩
      intro r hr hstarted v epoch hv hsource
      rcases List.mem_append.mp hr with hr | hr
      · exact hinv.gets r hr hstarted v epoch hv hsource
      · rw [List.mem_singleton.mp hr] at hstarted hv hsource
        cases hsource
        exact (hphase hstarted).find hv

theorem fresh_step {n : Nat} (hinv : FreshAfter n s)
    (h : c.step s a = some t) : FreshAfter n t := by
  rcases step_cases h with hdrop | ⟨i, hmove⟩
  · refine ⟨Nat.le_trans hinv.changes hdrop.changes, ?_, ?_, ?_⟩
    · rcases hdrop.value with hvalue | ⟨-, hvalue⟩
      · rw [hvalue]
        exact hinv.value
      · rw [hvalue]
        nofun
    · rw [hdrop.callers]
      exact hinv.callers
    · rw [hdrop.gets]
      exact hinv.gets
  · obtain ⟨hvalue, hphase, hgets⟩ := hmove.step.fresh hinv (hinv.callers i)
    refine ⟨hmove.changes ▸ hinv.changes, hvalue, ?_, hgets⟩
    intro j
    by_cases hj : j = i
    · subst hj
      exact hphase
    · rw [hmove.others j hj]
      exact hinv.callers j

/-- What a matching change event does. -/
theorem changed_eq {envelope : Option EventBus.EventEnvelope}
    (hmatch : c.handleChanged envelope = .ok true)
    (h : c.step s (.changed envelope) = some t) :
    t = { s with value := none, changes := s.changes + 1 } := by
  simp only [Client.step, hmatch] at h
  cases h
  rfl

/-- With no response waiting to be stored, the change starts afresh. -/
theorem fresh_of_changed (hinv : Counted s)
    (hquiet : ∀ i caller response epoch,
      s.callers i = .answered caller response epoch →
      response.entries = []) :
    FreshAfter (s.changes + 1)
      { s with value := none, changes := s.changes + 1 } := by
  refine ⟨Nat.le_refl _, nofun, ?_, ?_⟩
  · intro i
    have hstarted := hinv.callers i
    cases hphase : s.callers i with
    | answered caller response epoch =>
        exact .inr (hquiet i caller response epoch hphase)
    | lookup key started current =>
        rw [hphase] at hstarted
        cases current with
        | none => trivial
        | some current =>
            intro hle
            have hlt := hstarted started rfl
            omega
    | _ => trivial
  · intro r hr hle
    have hlt := hinv.gets r hr
    omega

/-! ## A change that is lost -/

theorem idle_step (hinv : ∃ n, ∀ j, n ≤ j → s.callers j = .idle)
    (h : c.step s a = some t) : ∃ n, ∀ j, n ≤ j → t.callers j = .idle := by
  obtain ⟨n, hn⟩ := hinv
  rcases step_cases h with hdrop | ⟨i, hmove⟩
  · refine ⟨n, ?_⟩
    rw [hdrop.callers]
    exact hn
  · refine ⟨max n (i + 1), ?_⟩
    intro j hj
    rw [hmove.others j (by omega)]
    exact hn j (by omega)

/-- There is always a caller left to call `Get`. -/
theorem exists_idle {as : List Action}
    (hrun : Lts.run c.step {} as = some s) : ∃ j, s.callers j = .idle := by
  obtain ⟨n, hn⟩ := Lts.run_inv_of
    (I := fun s : Sys => ∃ n, ∀ j, n ≤ j → s.callers j = .idle)
    (fun _ _ _ hi h => idle_step hi h) ⟨0, fun _ _ => rfl⟩ hrun
  exact ⟨n, hn n (Nat.le_refl n)⟩

theorem values_lookup {response : ResolveResponse}
    (h : response.entries ≠ []) :
    ∃ key v, response.values.lookup key = some v := by
  rcases List.eq_nil_or_concat response.entries with hnil | ⟨init, e, hlast⟩
  · exact absurd hnil h
  · refine ⟨e.key, ⟨e.value, e.secretRef, e.revision⟩, ?_⟩
    rw [ResolveResponse.values, hlast, List.concat_eq_append,
      List.foldl_append, List.foldl_cons, List.foldl_nil]
    exact AList.lookup_insert _

theorem find_of_lookup {current : Snapshot} {key : String} {v : Value}
    (h : current.values.lookup key = some v) : current.find key = .ok v := by
  rw [Snapshot.find, h]

theorem refreshed_value (s : Sys) (i : Nat) (caller : Caller) :
    (s.refreshed i caller).value = s.value := by
  cases caller <;> rfl

theorem refreshed_changes (s : Sys) (i : Nat) (caller : Caller) :
    (s.refreshed i caller).changes = s.changes := by
  cases caller <;> rfl

theorem refreshed_callers (s : Sys) {i j : Nat} (caller : Caller)
    (hj : j ≠ i) : (s.refreshed i caller).callers j = s.callers j := by
  cases caller <;> exact Function.update_of_ne hj ..

/-- The last step of `Get` returns what its snapshot holds. -/
theorem lookup_returns {j : Nat} {key : String} {started : Nat}
    {current : Snapshot}
    (hphase : s.callers j = .lookup key started (some current)) :
    ∃ t, c.step s (.lookup j) = some t ∧
      t.gets = s.gets ++
        [⟨key, started, some current.epoch, current.find key⟩] := by
  simp only [Client.step, hphase]
  exact ⟨_, rfl, rfl⟩

/-- A `Get` that finds the snapshot fresh returns what it holds. -/
theorem get_hit {j : Nat} (key : String) {now : Time} {current : Snapshot}
    (hidle : s.callers j = .idle) (hvalue : s.value = some current)
    (hnow : now < current.expiresAt) :
    ∃ t, Lts.run c.step s [.get j key now, .lookup j] = some t ∧
      t.gets = s.gets ++
        [⟨key, s.changes, some current.epoch, current.find key⟩] := by
  have hget : c.step s (.get j key now) =
      some (s.goto j (.lookup key s.changes (some current))) := by
    simp only [Client.step, hidle, Sys.get, hvalue, if_pos hnow]
  obtain ⟨t, ht, hgets⟩ := lookup_returns (c := c)
    (s := s.goto j (.lookup key s.changes (some current)))
    (Function.update_self ..)
  exact ⟨t, Lts.run_cons.mpr ⟨_, hget, Lts.run_cons.mpr ⟨t, ht, rfl⟩⟩, hgets⟩

/-- The store that is due comes after the invalidation, and a call that starts
later reads what it stored. -/
theorem lost_run {j : Nat} {caller : Caller} {response : ResolveResponse}
    {epoch : Nat} (hphase : s.callers i = .answered caller response epoch)
    (hidle : s.callers j = .idle) (hj : j ≠ i) (key : String) :
    ∃ t, Lts.run c.step s
        [.store i 0, .get j key (c.options.ttl - 1), .lookup j] = some t ∧
      (⟨key, s.changes, some epoch,
        (c.snapshot response epoch 0).find key⟩ : GetResult) ∈ t.gets := by
  obtain ⟨m, hm, hvalue, hchanges, hcallers⟩ : ∃ m,
      c.step s (.store i 0) = some m ∧
      m.value = some (c.snapshot response epoch 0) ∧
      m.changes = s.changes ∧ m.callers j = s.callers j := by
    refine ⟨_, by simp only [Client.step, hphase]; rfl, ?_, ?_, ?_⟩
    · rw [refreshed_value]
    · rw [refreshed_changes]
    · rw [refreshed_callers _ caller hj]
  have hnow : c.options.ttl - 1 < (c.snapshot response epoch 0).expiresAt := by
    have hlt : ∀ ttl : Int, ttl - 1 < 0 + ttl := by
      intro ttl
      omega
    exact hlt c.options.ttl
  obtain ⟨t, ht, hgets⟩ :=
    get_hit (c := c) key (hcallers.trans hidle) hvalue hnow
  refine ⟨t, Lts.run_cons.mpr ⟨m, hm, ht⟩, ?_⟩
  rw [hgets, hchanges]
  exact List.mem_append_right _ (List.mem_singleton_self _)

/-- A change event is lost by nobody who looks later exactly when no refresh
has a response with entries in hand while it is handled. -/
theorem change_kept_iff {as : List Action}
    {envelope : Option EventBus.EventEnvelope}
    (hrun : Lts.run c.step {} as = some s)
    (hmatch : c.handleChanged envelope = .ok true)
    (hstep : c.step s (.changed envelope) = some t) :
    (∀ bs u r v n, Lts.run c.step t bs = some u →
        (∀ i e, Action.resolve i (.error e) ∉ bs) →
        r ∈ u.gets → t.changes ≤ r.started → r.result = .ok v →
        r.source = some n → t.changes ≤ n) ↔
      ∀ i caller response epoch,
        s.callers i = .answered caller response epoch →
        response.entries = [] := by
  have hcounted := counted_run hrun
  have ht := changed_eq hmatch hstep
  subst ht
  constructor
  · intro hkept i caller response epoch hphase
    by_contra hentries
    obtain ⟨j, hj⟩ := exists_idle hrun
    obtain ⟨key, v, hv⟩ := values_lookup hentries
    have hji : j ≠ i := by
      rintro rfl
      rw [hj] at hphase
      cases hphase
    -- the response is stored, and a later call finds it fresh
    obtain ⟨u, hu, hmem⟩ :=
      lost_run (s := { s with value := none, changes := s.changes + 1 })
        hphase hj hji key
    have hle : s.changes + 1 ≤ epoch :=
      hkept _ u _ v epoch hu (fun _ _ h => by simp at h) hmem
        (Nat.le_refl _) (find_of_lookup hv) rfl
    have hepoch := hcounted.answered i caller response epoch hphase
    omega
  · intro hquiet bs u r v n hbs _ hr hstarted hv hn
    have hfresh := Lts.run_inv_of (fun _ _ _ => fresh_step)
      (fresh_of_changed hcounted hquiet) hbs
    exact hfresh.gets r hr hstarted v n hv hn

/-! ### The feature flag that stays on -/

def flagEntry (value : String) (revision : Int) : ConfigEntry :=
  { environment := "testing", tenantId := "tenant-1", service := "orders"
    key := "feature.enabled", value := bytes value, revision }

/-- A client of one tenant, which knows one change event. -/
def flagClient : Client where
  options :=
    { environment := "testing", tenantID := "tenant-1", service := "orders"
      ttl := 3600 * second }
  unmarshal b :=
    if b = Wire.message 1 (flagEntry "false" 3).wire then
      .ok (some (flagEntry "false" 3))
    else .error (.new (bytes "cannot parse invalid wire-format data"))

def flagChanged : Option EventBus.EventEnvelope :=
  some {
    eventId := "event-1", eventType := "platform.config.v1.ConfigChanged"
    aggregateId := "config-1", aggregateType := "config_entry"
    tenantId := "tenant-1", applicationId := "", schemaVersion := 1
    occurredAt := 0, context := none
    payload := Wire.message 1 (flagEntry "false" 3).wire }

def flagResponse : ResolveResponse := ⟨[flagEntry "true" 2], "v1"⟩

/-- A refresh has its response and has not stored it. -/
def inFlight : List Action :=
  [.refresh 1 [], .lock 1, .resolve 1 (.ok flagResponse)]

def afterInFlight : List Action :=
  [.store 1 0, .get 2 "feature.enabled" 0, .lookup 2]

theorem change_lost :
    ¬ ∀ (c : Client) (as bs : List Action)
        (envelope : Option EventBus.EventEnvelope) (s t u : Sys)
        (r : GetResult) (v : Value) (n : Nat),
      Lts.run c.step {} as = some s → c.handleChanged envelope = .ok true →
      c.step s (.changed envelope) = some t → Lts.run c.step t bs = some u →
      (∀ i e, Action.resolve i (.error e) ∉ bs) → r ∈ u.gets →
      t.changes ≤ r.started → r.result = .ok v → r.source = some n →
      t.changes ≤ n := by
  intro hall
  have hle := hall flagClient inFlight afterInFlight flagChanged _ _ _
    ⟨"feature.enabled", 1, some 0, .ok ⟨bytes "true", "", 2⟩⟩
    ⟨bytes "true", "", 2⟩ 0 rfl rfl rfl rfl
    (by intro i e h; simp [afterInFlight] at h)
    (List.mem_singleton_self _) (Nat.le_refl 1) rfl rfl
  exact absurd hle (by decide)

/-- With the response in flight the change can be lost. -/
theorem change_kept_iff_inFlight : ∃ s t,
    Lts.run flagClient.step {} inFlight = some s ∧
      flagClient.step s (.changed flagChanged) = some t ∧
      ¬ ∀ bs u r v n, Lts.run flagClient.step t bs = some u →
        (∀ i e, Action.resolve i (.error e) ∉ bs) →
        r ∈ u.gets → t.changes ≤ r.started → r.result = .ok v →
        r.source = some n → t.changes ≤ n := by
  have hrun : Lts.run flagClient.step {} inFlight = some _ := rfl
  have hmatch : flagClient.handleChanged flagChanged = .ok true := rfl
  refine ⟨_, _, hrun, rfl, ?_⟩
  intro hkept
  have hempty := (change_kept_iff hrun hmatch rfl).mp hkept
  cases hempty 1 _ _ _ rfl

/-! ## The second `Load` -/

/-- Nobody invalidates while a `Get` is about to load for the second time, and
a resolver failure meets a `Get` with an expired snapshot only while there is
one in the cache. -/
structure Orderly (c : Client) (s : Sys) (a : Action) : Prop where
  invalidation : c.invalidates a = true →
    ∀ i key started, s.callers i ≠ .reload key started
  failure : ∀ i e key current started request, a = .resolve i (.error e) →
    s.callers i = .resolving (.get key (some current) started) request →
    s.value ≠ none

def Loaded (value : Option Snapshot) : Phase → Prop
  | .reload .. => value ≠ none
  | .lookup _ _ current => current ≠ none
  | .panicked => False
  | _ => True

/-- A caller never leaves the cache empty. -/
theorem CallerStep.value_ne_none {phase phase' : Phase}
    {value : Option Snapshot} {gets : List GetResult}
    (h : CallerStep c s a i phase phase' value gets)
    (hvalue : s.value ≠ none) : value ≠ none := by
  cases h with
  | refreshed now => nofun
  | stored now => nofun
  | _ => exact hvalue

theorem CallerStep.loaded {phase phase' : Phase} {value : Option Snapshot}
    {gets : List GetResult} (h : CallerStep c s a i phase phase' value gets)
    (hphase : s.callers i = phase) (horder : Orderly c s a)
    (hloaded : Loaded s.value phase) : Loaded value phase' := by
  cases h with
  | hit h => nofun
  | missed key => trivial
  | called keys => trivial
  | locked => trivial
  | answered response => trivial
  | refreshFailed => trivial
  | getFailed err => trivial
  | stale h => exact horder.failure _ _ _ _ _ _ h hphase
  | refreshed now => trivial
  | stored now => nofun
  | reloaded => exact hloaded
  | returned => trivial
  | panicked => exact hloaded rfl

theorem loaded_step (hinv : ∀ i, Loaded s.value (s.callers i))
    (horder : Orderly c s a) (h : c.step s a = some t) :
    ∀ i, Loaded t.value (t.callers i) := by
  intro j
  rcases step_cases h with hdrop | ⟨i, hmove⟩
  · rw [hdrop.callers]
    rcases hdrop.value with hvalue | ⟨hinvalid, -⟩
    · rw [hvalue]
      exact hinv j
    · have hj := hinv j
      cases hphase : s.callers j with
      | reload key started =>
          exact absurd hphase (horder.invalidation hinvalid j key started)
      | lookup key started current =>
          rw [hphase] at hj
          exact hj
      | panicked =>
          rw [hphase] at hj
          exact hj
      | _ => trivial
  · by_cases hj : j = i
    · subst hj
      exact hmove.step.loaded rfl horder (hinv j)
    · rw [hmove.others j hj]
      have hloaded := hinv j
      cases hphase : s.callers j with
      | reload key started =>
          rw [hphase] at hloaded
          exact hmove.step.value_ne_none hloaded
      | lookup key started current =>
          rw [hphase] at hloaded
          exact hloaded
      | panicked =>
          rw [hphase] at hloaded
          exact hloaded
      | _ => trivial

/-- In a run of such steps `Get` reads through a snapshot that is there, and
no call panics. -/
theorem get_finds_snapshot {as : List Action}
    (horder : ∀ p ∈ Lts.steps c.step {} as, Orderly c p.1 p.2)
    (hrun : Lts.run c.step {} as = some s) :
    (∀ i key started current,
      s.callers i = .lookup key started current → current ≠ none) ∧
      ∀ i, s.callers i ≠ .panicked := by
  have hinit : ∀ i, Loaded ({} : Sys).value (({} : Sys).callers i) :=
    fun _ => trivial
  have hinv : ∀ i, Loaded s.value (s.callers i) :=
    Lts.run_inv (I := fun s : Sys => ∀ i, Loaded s.value (s.callers i))
      (fun _ _ _ hi ho h => loaded_step hi ho h) hinit horder hrun
  refine ⟨?_, ?_⟩
  · intro i key started current hphase
    have hloaded := hinv i
    rw [hphase] at hloaded
    exact hloaded
  · intro i hphase
    have hloaded := hinv i
    rw [hphase] at hloaded
    exact hloaded

def getUpToStore : List Action :=
  [.get 1 "feature.enabled" 0, .lock 1, .resolve 1 (.ok flagResponse),
    .store 1 0]

/-- The snapshot has expired when the second caller loads it, and the resolver
fails after the change. -/
def expiredThenChanged : List Action :=
  [.refresh 1 [], .lock 1, .resolve 1 (.ok flagResponse), .store 1 0,
    .get 2 "feature.enabled" (3600 * second), .lock 2,
    .changed flagChanged, .resolve 2 (.error (.new (bytes "unavailable"))),
    .reload 2]

/-- A change between the store and the second `Load` leaves nothing to read,
and so does one before the failure that an expired snapshot was to cover. -/
theorem get_dereferences_nil :
    ¬ (∀ (c : Client) (as : List Action) (s : Sys) (i : Nat) (key : String)
        (started : Nat) (current : Option Snapshot),
      Lts.run c.step {} as = some s →
      s.callers i = .lookup key started current → current ≠ none) ∧
    (∃ s, Lts.run flagClient.step {}
        (getUpToStore ++ [.changed flagChanged, .reload 1]) = some s ∧
      s.callers 1 = .lookup "feature.enabled" 0 none) ∧
    ∃ s, Lts.run flagClient.step {} expiredThenChanged = some s ∧
      s.callers 2 = .lookup "feature.enabled" 0 none := by
  refine ⟨?_, ⟨_, rfl, rfl⟩, ⟨_, rfl, rfl⟩⟩
  intro hall
  exact hall flagClient (getUpToStore ++ [.changed flagChanged, .reload 1]) _
    1 "feature.enabled" 0 none rfl rfl rfl

theorem orderly_of_action (hkeep : c.invalidates a = false)
    (hanswer : ∀ i e, a ≠ .resolve i (.error e)) : Orderly c s a := by
  refine ⟨?_, ?_⟩
  · intro hinvalid
    rw [hkeep] at hinvalid
    cases hinvalid
  · intro i e key current started request h
    exact absurd h (hanswer i e)

/-- The change comes before the call. -/
theorem get_finds_snapshot_afterChange : ∃ s current,
    Lts.run flagClient.step {}
        (.changed flagChanged :: getUpToStore ++ [.reload 1]) = some s ∧
      s.callers 1 = .lookup "feature.enabled" 1 current ∧ current ≠ none := by
  have hrun : Lts.run flagClient.step {}
    (.changed flagChanged :: getUpToStore ++ [.reload 1]) = some _ := rfl
  refine ⟨_, _, hrun, rfl, ?_⟩
  refine (get_finds_snapshot ?_ hrun).1 1 _ _ _ rfl
  intro p hp
  rcases List.mem_cons.mp hp with rfl | hp
  · exact ⟨fun _ _ _ _ h => (by cases h), fun _ _ _ _ _ _ h => (by cases h)⟩
  · have hmem : p.2 ∈ getUpToStore ++ [.reload 1] := Lts.action_mem hp
    have hkeep : ∀ a ∈ getUpToStore ++ [.reload 1],
        flagClient.invalidates a = false ∧
          ∀ i e, a ≠ .resolve i (.error e) := by
      simp [getUpToStore, Client.invalidates]
    exact orderly_of_action (hkeep _ hmem).1 (hkeep _ hmem).2

end PlatformGo.DynamicConfig
