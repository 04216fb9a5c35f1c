import PlatformGo.Proofs.IdemFence

/-!
# Finished records

A record that no token holds is out of reach of every script: `Begin` reads
it, the others refuse it. So as long as it does not expire it stays as it is,
and what `Begin` answers is determined by the record alone.
-/

namespace PlatformGo.Idempotency

variable {R : Type} {m : Manager R}

/-- `encoding/json` reads a failure back from the text it wrote for it, and
writes no empty text. -/
def Json.RoundTrips (j : Json R) (failure : Failure) : Prop :=
  ∀ b, j.marshalFailure failure = .ok b →
    b ≠ [] ∧ j.unmarshalFailure b = .ok failure

/-! ## An entry no token holds -/

theorem Change.heldBy {c : Call R} {e : Entry} {x : Option Entry}
    {lapsed : Bool} (h : Change m c (some e) x lapsed) : e.HeldBy c.owner := by
  cases h with
  | renewed deadline hc he => exact he
  | finished deadline hc he => exact he
  | aborted hc he => exact he
  | lapsed hc he => exact he

/-- From a given count of expiries on, the entry is the one given until the
count goes up. -/
def Pinned (k : String) (e : Entry) (n : Nat) (s : Store R) : Prop :=
  n ≤ s.redis.lapses k ∧
    (s.redis.lapses k = n → s.redis.entries k = some e)

theorem pinned_step {k : String} {e : Entry} {n : Nat}
    (he : ∀ owner, ¬ e.HeldBy owner) (s : Store R) (a : Action R)
    (t : Store R) (hs : Pinned k e n s) (h : step m s a = some t) :
    Pinned k e n t := by
  have hle := step_lapses h k
  refine ⟨Nat.le_trans hs.1 hle, ?_⟩
  intro hn
  have hbefore : s.redis.entries k = some e := hs.2 (by have := hs.1; omega)
  rcases step_entry h k with ⟨hsame, -⟩ | ⟨c, fault, l, -, -, hx, -⟩ |
    ⟨-, hl⟩
  · exact hsame.trans hbefore
  · rw [hbefore] at hx
    exact absurd hx.heldBy (he _)
  · have hn' := hs.1
    omega

theorem pinned_run {k : String} {e : Entry} {s t : Store R}
    {as : List (Action R)} (he : ∀ owner, ¬ e.HeldBy owner)
    (hk : s.redis.entries k = some e)
    (hrun : Lts.run (step m) s as = some t)
    (hl : t.redis.lapses k = s.redis.lapses k) :
    t.redis.entries k = some e :=
  (Lts.run_inv_of (pinned_step he) ⟨Nat.le_refl _, fun _ => hk⟩ hrun).2 hl

/-! ## A manager that has records is available -/

theorem available_step (s : Store R) (a : Action R) (t : Store R)
    (hs : m.available = true ∨ ∀ k, s.redis.entries k = none)
    (h : step m s a = some t) :
    m.available = true ∨ ∀ k, t.redis.entries k = none := by
  by_cases hav : m.available = true
  · exact Or.inl hav
  · right
    intro k
    have hbefore := hs.resolve_left hav k
    rcases step_entry h k with ⟨hsame, -⟩ | ⟨c, fault, l, rfl, hk, hx, -⟩ |
      ⟨hnone, -⟩
    · exact hsame.trans hbefore
    · rw [hbefore] at hx
      generalize hy : t.redis.entries k = y at hx
      cases hx with
      | created deadline hc =>
          -- `Begin` returns before its script
          subst hc
          rw [← hy, (step_call h).2.1]
          simp only [Manager.perform, Manager.begin, hav, Bool.not_false,
            if_true]
          exact hbefore
      | stillborn hc => rfl
    · exact hnone

theorem available_of_entry {as : List (Action R)} {s : Store R} {k : String}
    {e : Entry} (hrun : Lts.run (step m) {} as = some s)
    (hk : s.redis.entries k = some e) : m.available = true := by
  rcases Lts.run_inv_of available_step (Or.inr fun _ => rfl) hrun with
    hav | hnone
  · exact hav
  · rw [hnone k] at hk
    cases hk

/-! ## What `Begin` answers -/

section Replay

variable {r : Redis} {key fingerprint : String} {e : Entry}

theorem begin_conflict (hav : m.available = true)
    (hk : r.entries (m.storageKey key) = some e)
    (hfp : e.hash.fingerprint = some fingerprint) {fingerprint' : String}
    (hother : fingerprint' ≠ fingerprint) (owner : String) :
    m.begin key fingerprint' owner .none r =
      (r, .decision { state := .conflict }) := by
  have hne : e.hash.fingerprint ≠ some fingerprint' := by
    rw [hfp]
    exact fun heq => hother (Option.some.inj heq).symm
  simp [Manager.begin, hav, Fault.run, beginScript, hk, hne, Manager.decide]

theorem begin_completed (hav : m.available = true)
    (hk : r.entries (m.storageKey key) = some e)
    (hfp : e.hash.fingerprint = some fingerprint) (he : e.Completed)
    {b : Bytes} (hb : e.hash.response = some b) (owner : String) :
    m.begin key fingerprint owner .none r =
      (r, .decision { state := .completed, response := b }) := by
  simp [Manager.begin, hav, Fault.run, beginScript, hk, hfp, Manager.decide,
    he.state, he.failure, hb]

theorem begin_failed (hav : m.available = true)
    (hk : r.entries (m.storageKey key) = some e)
    (hfp : e.hash.fingerprint = some fingerprint) (he : e.Failed)
    {b : Bytes} (hb : e.hash.failure = some b) (hne : b ≠ [])
    {failure : Failure} (hj : m.json.unmarshalFailure b = .ok failure)
    (owner : String) :
    m.begin key fingerprint owner .none r =
      (r, .decision { state := .failed, failure }) := by
  simp [Manager.begin, hav, Fault.run, beginScript, hk, hfp, Manager.decide,
    he.state, he.response, hb, hne, hj]

end Replay

/-! ## Finished records over whole runs -/

/-- The record of a key is the given one, and every `Begin` answers with the
given decision if it has the fingerprint and with a conflict otherwise. -/
structure Replays (m : Manager R) (t : Store R)
    (key fingerprint : String) (e : Entry) (d : Decision) : Prop where
  entry : t.redis.entries (m.storageKey key) = some e
  same : ∀ owner, m.begin key fingerprint owner .none t.redis =
    (t.redis, .decision d)
  other : ∀ fingerprint' owner, fingerprint' ≠ fingerprint →
    m.begin key fingerprint' owner .none t.redis =
      (t.redis, .decision { state := .conflict })

/-- The entry a call found under its token carries the fingerprint of the
`Begin` that drew the token. -/
theorem Inv.fingerprint {s : Store R} (h : Inv m s)
    {key fingerprint owner : String} {result : Result} {e : Entry}
    (hbegin : (.begin key fingerprint owner, result) ∈ s.history)
    (hk : s.redis.entries (m.storageKey key) = some e)
    (he : e.HeldBy owner) : e.hash.fingerprint = some fingerprint := by
  obtain ⟨-, hcreator⟩ := (h.ok _ e hk).processing he
  obtain ⟨key', fp, result', -, hmem, hfp, -⟩ := h.born _ e hk
  rw [hcreator] at hmem
  rw [hfp, (h.begin_unique hmem hbegin).2]

/-- The entry a successful `Complete` or `Fail` leaves, all the way to a state
before its expiry. -/
theorem finished_entry {s₀ s₁ t : Store R} {key : String} {c : Call R}
    {fault : Fault} {e : Entry} {outcome : Outcome} {as : List (Action R)}
    (hstep : step m s₀ (.call c fault) = some s₁)
    (hafter : (∃ deadline, (m.perform fault s₀.redis c).1 =
        s₀.redis.after (m.storageKey key)
          (some { e with hash := e.hash.finish outcome, deadline }) false) ∨
      (m.perform fault s₀.redis c).1 =
        s₀.redis.after (m.storageKey key) none true)
    (hrun : Lts.run (step m) s₁ as = some t)
    (hl : t.redis.lapses (m.storageKey key) =
      s₀.redis.lapses (m.storageKey key)) :
    ∃ deadline,
      s₁.redis.entries (m.storageKey key) =
        some { e with hash := e.hash.finish outcome, deadline } ∧
      t.redis.entries (m.storageKey key) =
        some { e with hash := e.hash.finish outcome, deadline } := by
  have hredis := (step_call hstep).2.1
  rcases hafter with ⟨deadline, hafter⟩ | hafter
  · have hk₁ : s₁.redis.entries (m.storageKey key) =
        some { e with hash := e.hash.finish outcome, deadline } := by
      rw [hredis, hafter, after_entries_self]
    have hl₁ : s₁.redis.lapses (m.storageKey key) =
        s₀.redis.lapses (m.storageKey key) := by
      rw [hredis, hafter, after_lapses_self]
      rfl
    exact ⟨deadline, hk₁,
      pinned_run (fun _ => finish_not_heldBy) hk₁ hrun (hl.trans hl₁.symm)⟩
  · -- stored for no time at all: the count has gone up already
    exfalso
    have hl₁ : s₁.redis.lapses (m.storageKey key) =
        s₀.redis.lapses (m.storageKey key) + 1 := by
      rw [hredis, hafter, after_lapses_self]
      rfl
    have hle := Lts.run_rel (R := fun s t : Store R =>
        s.redis.lapses (m.storageKey key) ≤ t.redis.lapses (m.storageKey key))
      (fun _ => Nat.le_refl _) Nat.le_trans
      (fun _ _ _ h => step_lapses h _) hrun
    omega

theorem completed_replays {pre as : List (Action R)} {s₀ s₁ t : Store R}
    {key fingerprint owner : String} {result : Result} {response : R}
    {fault : Fault} (hpre : Lts.run (step m) {} pre = some s₀)
    (hbegin : (.begin key fingerprint owner, result) ∈ s₀.history)
    (hstep : step m s₀ (.call (.complete key owner response) fault) = some s₁)
    (hok : (m.complete key owner response fault s₀.redis).2 = .ok)
    (hrun : Lts.run (step m) s₁ as = some t)
    (hl : t.redis.lapses (m.storageKey key) =
      s₀.redis.lapses (m.storageKey key)) :
    ∃ b e, m.json.marshal response = .ok b ∧
      s₁.redis.entries (m.storageKey key) = some e ∧
      Replays m t key fingerprint e { state := .completed, response := b } := by
  have hinv := inv_run hpre
  obtain ⟨b, hj, e, hk, he, hafter⟩ := complete_ok hok
  have hav := available_of_entry hpre hk
  have hfp := hinv.fingerprint hbegin hk he
  obtain ⟨hproc, -⟩ := (hinv.ok _ e hk).processing he
  obtain ⟨deadline, hk₁, hkt⟩ := finished_entry hstep hafter hrun hl
  refine ⟨b, _, hj, hk₁, hkt, ?_, ?_⟩
  · exact begin_completed hav hkt hfp
      ⟨rfl, rfl, ⟨b, rfl⟩, hproc.failure⟩ rfl
  · intro fp' owner' hother
    exact begin_conflict hav hkt hfp hother owner'

theorem failed_replays {pre as : List (Action R)} {s₀ s₁ t : Store R}
    {key fingerprint owner : String} {result : Result} {failure : Failure}
    {fault : Fault} (hjson : m.json.RoundTrips failure)
    (hpre : Lts.run (step m) {} pre = some s₀)
    (hbegin : (.begin key fingerprint owner, result) ∈ s₀.history)
    (hstep : step m s₀ (.call (.fail key owner failure) fault) = some s₁)
    (hok : (m.fail key owner failure fault s₀.redis).2 = .ok)
    (hrun : Lts.run (step m) s₁ as = some t)
    (hl : t.redis.lapses (m.storageKey key) =
      s₀.redis.lapses (m.storageKey key)) :
    ∃ e, s₁.redis.entries (m.storageKey key) = some e ∧
      Replays m t key fingerprint e { state := .failed, failure } := by
  have hinv := inv_run hpre
  obtain ⟨b, hj, e, hk, he, hafter⟩ := fail_ok hok
  have hav := available_of_entry hpre hk
  have hfp := hinv.fingerprint hbegin hk he
  obtain ⟨hproc, -⟩ := (hinv.ok _ e hk).processing he
  obtain ⟨deadline, hk₁, hkt⟩ := finished_entry hstep hafter hrun hl
  obtain ⟨hne, hback⟩ := hjson b hj
  refine ⟨_, hk₁, hkt, ?_, ?_⟩
  · exact begin_failed hav hkt hfp
      ⟨rfl, rfl, hproc.response, ⟨b, rfl⟩⟩ rfl hne hback
  · intro fp' owner' hother
    exact begin_conflict hav hkt hfp hother owner'

/-- A finished record stays as it is until it expires, answers its own request
with its result and any other with a conflict, and in every reachable state
the fields of a record are those of its state. -/
theorem finished_record_replays :
    (∀ (pre as : List (Action R)) (s₀ s₁ t : Store R)
      (key fingerprint owner : String) (result : Result) (response : R)
      (fault : Fault),
      Lts.run (step m) {} pre = some s₀ →
      (.begin key fingerprint owner, result) ∈ s₀.history →
      step m s₀ (.call (.complete key owner response) fault) = some s₁ →
      (m.complete key owner response fault s₀.redis).2 = .ok →
      Lts.run (step m) s₁ as = some t →
      t.redis.lapses (m.storageKey key) =
        s₀.redis.lapses (m.storageKey key) →
      ∃ b e, m.json.marshal response = .ok b ∧
        s₁.redis.entries (m.storageKey key) = some e ∧
        Replays m t key fingerprint e
          { state := .completed, response := b }) ∧
    (∀ (pre as : List (Action R)) (s₀ s₁ t : Store R)
      (key fingerprint owner : String) (result : Result) (failure : Failure)
      (fault : Fault),
      m.json.RoundTrips failure →
      Lts.run (step m) {} pre = some s₀ →
      (.begin key fingerprint owner, result) ∈ s₀.history →
      step m s₀ (.call (.fail key owner failure) fault) = some s₁ →
      (m.fail key owner failure fault s₀.redis).2 = .ok →
      Lts.run (step m) s₁ as = some t →
      t.redis.lapses (m.storageKey key) =
        s₀.redis.lapses (m.storageKey key) →
      ∃ e, s₁.redis.entries (m.storageKey key) = some e ∧
        Replays m t key fingerprint e { state := .failed, failure }) ∧
    ∀ (as : List (Action R)) (s : Store R),
      Lts.run (step m) {} as = some s →
      ∀ k e, s.redis.entries k = some e → e.Ok := by
  refine ⟨?_, ?_, ?_⟩
  · intro pre as s₀ s₁ t key fp owner result response fault hpre hb hs hok
    exact completed_replays hpre hb hs hok
  · intro pre as s₀ s₁ t key fp owner result failure fault hj hpre hb hs hok
    exact failed_replays hj hpre hb hs hok
  · intro as s hrun
    exact (inv_run hrun).ok

def noStock : Failure := { message := "no stock" }

/-- The owner of a failed request tries to complete it after all, and another
client comes with a request of its own. -/
theorem finished_record_replays_noStock :
    ∃ t e, Lts.run (step orders) {}
        [.call (.begin "order-42" "fp" "owner-1") .none,
          .call (.fail "order-42" "owner-1" noStock) .none,
          .call (.complete "order-42" "owner-1" (bytes "1")) .none,
          .call (.begin "order-42" "other" "owner-2") .none] = some t ∧
      Replays orders t "order-42" "fp" e
        { state := .failed, failure := noStock } := by
  have hfirst : (Lts.run (step orders) {}
      [.call (.begin "order-42" "fp" "owner-1") .none]).map (fun s =>
        (s.history, (orders.fail "order-42" "owner-1" noStock .none
          s.redis).2, s.redis.lapses (orders.storageKey "order-42"))) =
      some ([(.begin "order-42" "fp" "owner-1",
        .decision { state := .acquired, owner := "owner-1" })], .ok, 0) := by
    decide
  obtain ⟨s₀, hpre, heq⟩ := Option.map_eq_some_iff.mp hfirst
  simp only [Prod.mk.injEq] at heq
  have hall : (Lts.run (step orders) {}
      [.call (.begin "order-42" "fp" "owner-1") .none,
        .call (.fail "order-42" "owner-1" noStock) .none,
        .call (.complete "order-42" "owner-1" (bytes "1")) .none,
        .call (.begin "order-42" "other" "owner-2") .none]).map (fun s =>
        s.redis.lapses (orders.storageKey "order-42")) = some 0 := by
    decide
  obtain ⟨t, hrun, hl⟩ := Option.map_eq_some_iff.mp hall
  obtain ⟨s, hs, hrest⟩ := Lts.run_append.mp
    (show Lts.run (step orders) {} ([_] ++ [_, _, _]) = some t from hrun)
  obtain rfl : s₀ = s := Option.some.inj (hpre.symm.trans hs)
  obtain ⟨s₁, hstep, has⟩ := Lts.run_cons.mp hrest
  have hjson : orders.json.RoundTrips noStock := by
    intro b hb
    cases hb
    decide
  obtain ⟨e, -, hreplays⟩ := finished_record_replays.2.1 _ _ s₀ s₁ t _ _ _ _
    noStock _ hjson hpre (by rw [heq.1]; exact List.mem_singleton_self _)
    hstep heq.2.1 has (hl.trans heq.2.2.symm)
  exact ⟨t, e, hrun, hreplays⟩

end PlatformGo.Idempotency
