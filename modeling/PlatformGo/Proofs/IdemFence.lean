import PlatformGo.Ref.Idempotency

/-!
# Owner tokens fence the record

Whatever a call does to Redis, it does to the one entry of its own key, and
unless the call is a `Begin` it does it only where that entry is processing
under the token the call carries. `perform_change` says so once for all five
methods; everything below is read off it.

The invariant ties an entry to the `Begin` in the history that made it. Since
no token is drawn twice, a token names at most one entry, and once that entry
is gone or finished there is nothing left the token could act on.
-/

namespace PlatformGo.Idempotency

variable {R : Type} {m : Manager R}

/-! ## Calls -/

def Call.key : Call R → String
  | .begin key _ _ | .renew key _ | .complete key _ _ | .fail key _ _
  | .abort key _ => key

def Call.owner : Call R → String
  | .begin _ _ owner | .renew _ owner | .complete _ owner _ | .fail _ owner _
  | .abort _ owner => owner

/-- The calls that carry a token drawn before. -/
def Call.Owning (c : Call R) : Prop := c.draws = none

/-- The calls that end a record when they succeed. -/
def Call.finishes : Call R → Bool
  | .complete .. | .fail .. | .abort .. => true
  | _ => false

/-- What a call stores as the result of its request. -/
def Call.Stores (m : Manager R) (outcome : Outcome) : Call R → Prop
  | .complete _ _ response =>
      ∃ b, m.json.marshal response = .ok b ∧ outcome = .response b
  | .fail _ _ failure =>
      ∃ b, m.json.marshalFailure failure = .ok b ∧ outcome = .failure b
  | _ => False

/-- The calls that remove the record: `Abort`, and `Complete` with a response
that is too large. -/
def Call.Releases (m : Manager R) : Call R → Prop
  | .abort .. => True
  | .complete _ _ response =>
      ∃ b, m.json.marshal response = .ok b ∧
        (b.length : Int) > m.cfg.maxResponseBytes
  | _ => False

/-- The manager answers, and its records live for a while. -/
def Manager.Serves (m : Manager R) : Prop :=
  m.available = true ∧ 0 < milliseconds m.cfg.processingTTL

theorem storageKey_inj {key₁ key₂ : String}
    (h : m.storageKey key₁ = m.storageKey key₂) : key₁ = key₂ := by
  have hkey : ∀ key, m.storageKey key =
      "idempotency:" ++ m.cfg.service ++ ":" ++ key := fun _ => rfl
  have hlist := congrArg String.toList h
  simp only [hkey, String.toList_append,
    List.append_cancel_left_eq] at hlist
  exact String.toList_inj.mp hlist

/-! ## What a call can do to its entry -/

def Entry.HeldBy (e : Entry) (owner : String) : Prop :=
  e.hash.state = some .processing ∧ e.hash.owner = some owner

/-- The entry a `Begin` makes. -/
def Entry.fresh (fingerprint owner : String) (deadline : Option Time) :
    Entry :=
  { hash :=
      { state := some .processing, fingerprint := some fingerprint
        owner := some owner }
    deadline, creator := owner }

/-- A call's effect on the entry of its key, and whether the entry expired
under it. -/
inductive Change (m : Manager R) (c : Call R) :
    Option Entry → Option Entry → Bool → Prop
  | created {key fingerprint owner : String} (deadline : Option Time)
      (hc : c = .begin key fingerprint owner) :
      Change m c none (some (.fresh fingerprint owner deadline)) false
  | stillborn (hc : ¬ c.Owning) : Change m c none none true
  | renewed {e : Entry} (deadline : Option Time) (hc : c.finishes = false)
      (he : e.HeldBy c.owner) :
      Change m c (some e) (some { e with deadline }) false
  | finished {e : Entry} {outcome : Outcome} (deadline : Option Time)
      (hc : c.Stores m outcome) (he : e.HeldBy c.owner) :
      Change m c (some e)
        (some { e with hash := e.hash.finish outcome, deadline }) false
  | aborted {e : Entry} (hc : c.Releases m) (he : e.HeldBy c.owner) :
      Change m c (some e) none false
  | lapsed {e : Entry} (hc : c.Owning) (he : e.HeldBy c.owner) :
      Change m c (some e) none true

/-- The state after a change of one entry. -/
def Redis.after (r : Redis) (k : String) (x : Option Entry) (lapsed : Bool) :
    Redis :=
  { r.set k x with expiries := if lapsed then k :: r.expiries else r.expiries }

theorem held_iff {r : Redis} {k owner : String} :
    r.held k owner = true ↔ ∃ e, r.entries k = some e ∧ e.HeldBy owner := by
  unfold Redis.held Entry.HeldBy
  cases r.entries k with
  | none => simp
  | some e => simp [Bool.and_eq_true]

theorem set_entries_self {r : Redis} {k : String} {x : Option Entry} :
    (r.set k x).entries k = x := Function.update_self ..

theorem set_set (r : Redis) (k : String) (x y : Option Entry) :
    (r.set k x).set k y = r.set k y := by
  simp only [Redis.set, Function.update_idem]

/-- Setting the time to live keeps the entry or drops it as expired. -/
theorem pexpire_eq {r : Redis} {k : String} {e : Entry} (ms : Int)
    (h : r.entries k = some e) :
    (∃ deadline, r.pexpire k ms =
        r.after k (some { e with deadline }) false) ∨
      r.pexpire k ms = r.after k none true := by
  unfold Redis.pexpire
  rw [h]
  show (∃ _, ite _ _ _ = _) ∨ ite _ _ _ = _
  split
  · right
    unfold Redis.expire
    rw [h]
    rfl
  · left
    exact ⟨_, rfl⟩

theorem pexpire_set_eq (r : Redis) (k : String) (e : Entry) (ms : Int) :
    (∃ deadline, (r.set k (some e)).pexpire k ms =
        r.after k (some { e with deadline }) false) ∨
      (r.set k (some e)).pexpire k ms = r.after k none true := by
  rcases pexpire_eq (k := k) ms (set_entries_self (r := r)) with
    ⟨deadline, h⟩ | h
  · left
    refine ⟨deadline, ?_⟩
    rw [h, Redis.after, set_set]
    rfl
  · right
    rw [h, Redis.after, set_set]
    rfl

/-- Redis after one call: untouched, or with one change to the entry of the
call's key. -/
def Touched (m : Manager R) (c : Call R) (r r' : Redis) : Prop :=
  r' = r ∨ ∃ x lapsed, Change m c (r.entries (m.storageKey c.key)) x lapsed ∧
    r' = r.after (m.storageKey c.key) x lapsed

/-- A script call touches no more than its script does. -/
theorem touched_run {α : Type} {c : Call R} {script : Redis → Redis × α}
    {r : Redis} (fault : Fault) (h : Touched m c r (script r).1) :
    Touched m c r (fault.run script r).1 := by
  cases fault with
  | none => exact h
  | notExecuted e => exact Or.inl rfl
  | replyLost e => exact h

theorem touched_beginScript (key fingerprint owner : String) (ttl : Int)
    (r : Redis) :
    Touched m (.begin key fingerprint owner) r
      (beginScript (m.storageKey key) fingerprint ttl owner r).1 := by
  unfold beginScript
  cases hk : r.entries (m.storageKey key) with
  | none =>
      right
      rw [show (Call.begin (R := R) key fingerprint owner).key = key from rfl,
        hk]
      rcases pexpire_set_eq r (m.storageKey key)
          (.fresh fingerprint owner none) ttl with ⟨deadline, h⟩ | h
      · exact ⟨_, _, .created deadline rfl, h⟩
      · exact ⟨_, _, .stillborn (by simp [Call.Owning, Call.draws]), h⟩
  | some e =>
      left
      simp only []
      split <;> rfl

theorem touched_renewScript (key owner : String) (ttl : Int) (r : Redis) :
    Touched m (.renew key owner) r
      (renewScript (m.storageKey key) owner ttl r).1 := by
  unfold renewScript
  split
  · next hheld =>
      obtain ⟨e, hk, he⟩ := held_iff.mp hheld
      right
      rw [show (Call.renew (R := R) key owner).key = key from rfl, hk]
      rcases pexpire_eq ttl hk with ⟨deadline, h⟩ | h
      · exact ⟨_, _, .renewed deadline rfl he, h⟩
      · exact ⟨_, _, .lapsed rfl he, h⟩
  · exact Or.inl rfl

theorem touched_abortScript {c : Call R} (hc : c.Releases m) (r : Redis) :
    Touched m c r (abortScript (m.storageKey c.key) c.owner r).1 := by
  unfold abortScript
  split
  · next hheld =>
      obtain ⟨e, hk, he⟩ := held_iff.mp hheld
      right
      rw [hk]
      exact ⟨_, _, .aborted hc he, rfl⟩
  · exact Or.inl rfl

theorem Call.Stores.owning {c : Call R} {outcome : Outcome}
    (h : c.Stores m outcome) : c.Owning := by
  cases c with
  | complete | fail => rfl
  | begin | renew | abort => exact False.elim h

theorem touched_finishScript {c : Call R} {outcome : Outcome}
    (hc : c.Stores m outcome) (ttl : Int) (r : Redis) :
    Touched m c r
      (finishScript (m.storageKey c.key) c.owner outcome ttl r).1 := by
  unfold finishScript
  cases hk : r.entries (m.storageKey c.key) with
  | none => exact Or.inl rfl
  | some e =>
      simp only []
      split
      · next hheld =>
          obtain ⟨e', hk', he⟩ := held_iff.mp hheld
          obtain rfl : e = e' := by
            rw [hk] at hk'
            exact Option.some.inj hk'
          right
          rw [hk]
          rcases pexpire_set_eq r (m.storageKey c.key)
              { e with hash := e.hash.finish outcome } ttl with
            ⟨deadline, h⟩ | h
          · exact ⟨_, _, .finished deadline hc he, h⟩
          · exact ⟨_, _, .lapsed hc.owning he, h⟩
      · exact Or.inl rfl

theorem touched_abort {c : Call R} (hc : c.Releases m) (fault : Fault)
    (r : Redis) : Touched m c r (m.abort c.key c.owner fault r).1 := by
  unfold Manager.abort
  split
  · exact Or.inl rfl
  · exact touched_run fault (touched_abortScript hc r)

theorem touched_finish {c : Call R} {outcome : Outcome}
    (hc : c.Stores m outcome) (context : String) (ttl : Time) (fault : Fault)
    (r : Redis) :
    Touched m c r
      (m.finish context c.key c.owner outcome ttl fault r).1 := by
  unfold Manager.finish
  split
  · exact Or.inl rfl
  · exact touched_run fault (touched_finishScript hc _ r)

theorem touched_begin (key fingerprint owner : String) (fault : Fault)
    (r : Redis) :
    Touched m (.begin key fingerprint owner) r
      (m.begin key fingerprint owner fault r).1 := by
  have h := touched_run fault (touched_beginScript (m := m) key fingerprint
    owner (milliseconds m.cfg.processingTTL) r)
  unfold Manager.begin
  split
  · exact Or.inl rfl
  · simp only []
    split
    · exact h
    · split <;> exact h

theorem touched_renew (key owner : String) (fault : Fault) (r : Redis) :
    Touched m (.renew key owner) r (m.renew key owner fault r).1 := by
  unfold Manager.renew
  split
  · exact Or.inl rfl
  · exact touched_run fault (touched_renewScript key owner _ r)

theorem touched_complete (key owner : String) (response : R) (fault : Fault)
    (r : Redis) :
    Touched m (.complete key owner response) r
      (m.complete key owner response fault r).1 := by
  unfold Manager.complete
  cases hj : m.json.marshal response with
  | error e => exact Or.inl rfl
  | ok b =>
      simp only []
      split
      · next hsize =>
          have h := touched_abort (m := m)
            (c := .complete key owner response) ⟨b, hj, hsize⟩ fault r
          change Touched m _ r (m.abort key owner fault r).1 at h
          cases hab : m.abort key owner fault r with
          | mk r' result =>
              rw [hab] at h
              cases result <;> exact h
      · exact touched_finish (c := .complete key owner response)
          ⟨b, hj, rfl⟩ _ _ fault r

theorem touched_fail (key owner : String) (failure : Failure) (fault : Fault)
    (r : Redis) :
    Touched m (.fail key owner failure) r
      (m.fail key owner failure fault r).1 := by
  unfold Manager.fail
  cases hj : m.json.marshalFailure failure with
  | error e => exact Or.inl rfl
  | ok b =>
      exact touched_finish (c := .fail key owner failure) ⟨b, hj, rfl⟩ _ _
        fault r

/-- One call touches the entry of its own key only, and as `Change` says. -/
theorem perform_change (m : Manager R) (fault : Fault) (r : Redis)
    (c : Call R) : Touched m c r (m.perform fault r c).1 := by
  cases c with
  | begin key fingerprint owner =>
      exact touched_begin key fingerprint owner fault r
  | renew key owner => exact touched_renew key owner fault r
  | complete key owner response =>
      exact touched_complete key owner response fault r
  | fail key owner failure => exact touched_fail key owner failure fault r
  | abort key owner =>
      exact touched_abort (c := .abort key owner) trivial fault r

/-! ## What a result says -/

theorem changedResult_ok {context : String} {value : Except GoErr Int} :
    changedResult context value = .ok ↔ value = .ok 1 := by
  cases value with
  | error e => simp [changedResult]
  | ok n =>
      unfold changedResult
      by_cases hn : n = 1 <;> simp [hn]

/-- `Abort` answers nil where it removed an entry of its token. -/
theorem abort_ok {key owner : String} {fault : Fault} {r : Redis}
    (h : (m.abort key owner fault r).2 = .ok) :
    ∃ e, r.entries (m.storageKey key) = some e ∧ e.HeldBy owner ∧
      (m.abort key owner fault r).1 =
        r.after (m.storageKey key) none false := by
  unfold Manager.abort at h ⊢
  split at h
  · cases h
  · next hav =>
      rw [if_neg hav]
      obtain ⟨hfst, hone⟩ := Fault.run_ok (changedResult_ok.mp h)
      unfold abortScript at hone
      split at hone
      · next hheld =>
          obtain ⟨e, hk, he⟩ := held_iff.mp hheld
          refine ⟨e, hk, he, hfst.trans ?_⟩
          rw [abortScript, if_pos hheld]
          rfl
      · cases hone

/-- The entry was held under the token and has the result stored in it, which
may have expired at once. -/
def Manager.Recorded (m : Manager R) (key owner : String) (outcome : Outcome)
    (r r' : Redis) : Prop :=
  ∃ e, r.entries (m.storageKey key) = some e ∧ e.HeldBy owner ∧
    ((∃ deadline, r' = r.after (m.storageKey key)
        (some { e with hash := e.hash.finish outcome, deadline }) false) ∨
      r' = r.after (m.storageKey key) none true)

/-- `Complete` and `Fail` answer nil where they stored a result. -/
theorem finish_ok {context key owner : String} {outcome : Outcome} {ttl : Time}
    {fault : Fault} {r : Redis}
    (h : (m.finish context key owner outcome ttl fault r).2 = .ok) :
    m.Recorded key owner outcome r
      (m.finish context key owner outcome ttl fault r).1 := by
  unfold Manager.finish at h ⊢
  split at h
  · cases h
  · next hclient =>
      rw [if_neg hclient]
      obtain ⟨hfst, hone⟩ := Fault.run_ok (changedResult_ok.mp h)
      simp only [hfst]
      unfold finishScript at hone ⊢
      cases hk : r.entries (m.storageKey key) with
      | none =>
          rw [hk] at hone
          cases hone
      | some e =>
          rw [hk] at hone
          simp only [] at hone ⊢
          split at hone
          · next hheld =>
              obtain ⟨e', hk', he⟩ := held_iff.mp hheld
              obtain rfl : e = e' := by
                rw [hk] at hk'
                exact Option.some.inj hk'
              refine ⟨e, hk, he, ?_⟩
              rw [if_pos hheld]
              exact pexpire_set_eq r (m.storageKey key)
                { e with hash := e.hash.finish outcome } (milliseconds ttl)
          · cases hone

theorem complete_ok {key owner : String} {response : R} {fault : Fault}
    {r : Redis} (h : (m.complete key owner response fault r).2 = .ok) :
    ∃ b, m.json.marshal response = .ok b ∧
      m.Recorded key owner (.response b) r
        (m.complete key owner response fault r).1 := by
  unfold Manager.complete at h ⊢
  cases hj : m.json.marshal response with
  | error err =>
      rw [hj] at h
      cases h
  | ok b =>
      rw [hj] at h
      simp only [] at h ⊢
      split at h
      · -- a response that is too large never answers nil
        split at h <;> cases h
      · next hsize =>
          rw [if_neg hsize]
          exact ⟨b, rfl, finish_ok h⟩

theorem fail_ok {key owner : String} {failure : Failure} {fault : Fault}
    {r : Redis} (h : (m.fail key owner failure fault r).2 = .ok) :
    ∃ b, m.json.marshalFailure failure = .ok b ∧
      m.Recorded key owner (.failure b) r
        (m.fail key owner failure fault r).1 := by
  unfold Manager.fail at h ⊢
  cases hj : m.json.marshalFailure failure with
  | error err =>
      rw [hj] at h
      cases h
  | ok b =>
      rw [hj] at h
      exact ⟨b, rfl, finish_ok h⟩

theorem after_entries_self {r : Redis} {k : String} {x : Option Entry}
    {lapsed : Bool} : (r.after k x lapsed).entries k = x :=
  Function.update_self ..

theorem after_entries_ne {r : Redis} {k k' : String} {x : Option Entry}
    {lapsed : Bool} (h : k' ≠ k) :
    (r.after k x lapsed).entries k' = r.entries k' :=
  Function.update_of_ne h ..

theorem finish_not_heldBy {e : Entry} {outcome : Outcome}
    {deadline : Option Time} {owner : String} :
    ¬ ({ e with hash := e.hash.finish outcome, deadline } : Entry).HeldBy
      owner := by
  intro h
  cases outcome <;> cases h.2

theorem Manager.Recorded.left {key owner : String} {outcome : Outcome}
    {r r' : Redis} (h : m.Recorded key owner outcome r r') :
    ∃ e x lapsed, r.entries (m.storageKey key) = some e ∧
      e.HeldBy owner ∧ r' = r.after (m.storageKey key) x lapsed ∧
      ∀ e', x = some e' → ∀ owner, ¬ e'.HeldBy owner := by
  obtain ⟨e, hk, he, ⟨deadline, hafter⟩ | hafter⟩ := h
  · refine ⟨e, _, _, hk, he, hafter, ?_⟩
    rintro _ ⟨⟩ _
    exact finish_not_heldBy
  · exact ⟨e, _, _, hk, he, hafter, nofun⟩

/-- A call that ends records and answers nil found its entry under its token
and left it under none. -/
theorem finishes_ok {c : Call R} {fault : Fault} {r : Redis}
    (hc : c.finishes = true) (h : (m.perform fault r c).2 = .ok) :
    ∃ e x lapsed, r.entries (m.storageKey c.key) = some e ∧
      e.HeldBy c.owner ∧
      (m.perform fault r c).1 = r.after (m.storageKey c.key) x lapsed ∧
      ∀ e', x = some e' → ∀ owner, ¬ e'.HeldBy owner := by
  cases c with
  | begin | renew => cases hc
  | complete key owner response =>
      obtain ⟨b, -, hrecorded⟩ := complete_ok h
      exact hrecorded.left
  | fail key owner failure =>
      obtain ⟨b, -, hrecorded⟩ := fail_ok h
      exact hrecorded.left
  | abort key owner =>
      obtain ⟨e, hk, he, hafter⟩ := abort_ok h
      exact ⟨e, _, _, hk, he, hafter, by intro e' he'; cases he'⟩

/-- A `Begin` that finds no entry is told that it has the request, unless the
answer does not reach it. -/
def Granted (owner : String) (result : Result) : Prop :=
  result = .decision { state := .acquired, owner } ∨ ∃ e, result = .err e

theorem begin_granted {key fingerprint owner : String} {fault : Fault}
    {r : Redis} (h : r.entries (m.storageKey key) = none) :
    Granted owner (m.begin key fingerprint owner fault r).2 := by
  unfold Manager.begin
  split
  · exact Or.inr ⟨_, rfl⟩
  · cases fault with
    | none =>
        left
        simp only [Fault.run, beginScript, h, Manager.decide, if_true]
    | notExecuted e => exact Or.inr ⟨_, rfl⟩
    | replyLost e => exact Or.inr ⟨_, rfl⟩

/-! ## The invariant -/

/-- The fields a record carries in each of its states. -/
structure Entry.Processing (e : Entry) : Prop where
  state : e.hash.state = some .processing
  owner : e.hash.owner = some e.creator
  response : e.hash.response = none
  failure : e.hash.failure = none

structure Entry.Completed (e : Entry) : Prop where
  state : e.hash.state = some .completed
  owner : e.hash.owner = none
  response : ∃ b, e.hash.response = some b
  failure : e.hash.failure = none

structure Entry.Failed (e : Entry) : Prop where
  state : e.hash.state = some .failed
  owner : e.hash.owner = none
  response : e.hash.response = none
  failure : ∃ b, e.hash.failure = some b

def Entry.Ok (e : Entry) : Prop :=
  e.Processing ∨ e.Completed ∨ e.Failed

/-- The entry was made by a `Begin` of the history. -/
def Store.Born (m : Manager R) (s : Store R) (k : String) (e : Entry) : Prop :=
  ∃ key fingerprint result, k = m.storageKey key ∧
    (.begin key fingerprint e.creator, result) ∈ s.history ∧
    e.hash.fingerprint = some fingerprint ∧ Granted e.creator result

structure Inv (m : Manager R) (s : Store R) : Prop where
  ok : ∀ k e, s.redis.entries k = some e → e.Ok
  born : ∀ k e, s.redis.entries k = some e → s.Born m k e
  nodup : s.drawn.Nodup

theorem Entry.Ok.processing {e : Entry} {owner : String} (h : e.Ok)
    (he : e.HeldBy owner) : e.Processing ∧ e.creator = owner := by
  rcases h with h | h | h
  · refine ⟨h, ?_⟩
    have howner := h.owner.symm.trans he.2
    exact Option.some.inj howner
  · have hstate := h.state.symm.trans he.1
    cases hstate
  · have hstate := h.state.symm.trans he.1
    cases hstate

/-- A change leaves a well-formed entry. -/
theorem Change.ok {c : Call R} {x : Option Entry} {e' : Entry} {lapsed : Bool}
    (h : Change m c x (some e') lapsed) (hx : ∀ e, x = some e → e.Ok) :
    e'.Ok := by
  cases h with
  | created deadline hc => exact Or.inl ⟨rfl, rfl, rfl, rfl⟩
  | renewed deadline hc he =>
      rcases hx _ rfl with h | h | h
      · exact Or.inl ⟨h.state, h.owner, h.response, h.failure⟩
      · exact Or.inr (Or.inl ⟨h.state, h.owner, h.response, h.failure⟩)
      · exact Or.inr (Or.inr ⟨h.state, h.owner, h.response, h.failure⟩)
  | @finished e outcome deadline hc he =>
      obtain ⟨h, -⟩ := (hx e rfl).processing he
      cases outcome with
      | response b => exact Or.inr (Or.inl ⟨rfl, rfl, ⟨b, rfl⟩, h.failure⟩)
      | failure b => exact Or.inr (Or.inr ⟨rfl, rfl, h.response, ⟨b, rfl⟩⟩)

/-- A change of an entry that was there keeps what it was made with. -/
theorem Change.kept {c : Call R} {e e' : Entry} {lapsed : Bool}
    (h : Change m c (some e) (some e') lapsed) :
    e'.creator = e.creator ∧ e'.hash.fingerprint = e.hash.fingerprint := by
  cases h with
  | renewed deadline hc he => exact ⟨rfl, rfl⟩
  | @finished _ outcome deadline hc he => cases outcome <;> exact ⟨rfl, rfl⟩

/-! ## Steps -/

theorem step_call {s t : Store R} {c : Call R} {fault : Fault}
    (h : step m s (.call c fault) = some t) :
    (∀ owner, c.draws = some owner → owner ∉ s.drawn) ∧
      t.redis = (m.perform fault s.redis c).1 ∧
      t.history = s.history ++ [(c, (m.perform fault s.redis c).2)] := by
  simp only [step] at h
  split at h
  · cases h
  · next hfresh =>
      cases h
      refine ⟨?_, rfl, rfl⟩
      intro owner howner hmem
      apply hfresh
      rw [howner]
      simpa using hmem

theorem expire_entries (r : Redis) (k k' : String) :
    (r.expire k).entries k' = if k' = k then none else r.entries k' := by
  unfold Redis.expire
  cases hk : r.entries k with
  | none =>
      by_cases h : k' = k
      · rw [if_pos h, h]
        exact hk
      · rw [if_neg h]
  | some e =>
      by_cases h : k' = k
      · rw [if_pos h, h]
        exact Function.update_self ..
      · rw [if_neg h]
        exact Function.update_of_ne h ..

/-- How often the entry of a key has expired. -/
def Redis.lapses (r : Redis) (k : String) : Nat := r.expiries.count k

theorem after_lapses_self {r : Redis} {k : String} {x : Option Entry}
    {lapsed : Bool} :
    (r.after k x lapsed).lapses k = r.lapses k + lapsed.toNat := by
  cases lapsed with
  | false => rfl
  | true => exact List.count_cons_self

theorem after_lapses_ne {r : Redis} {k k' : String} {x : Option Entry}
    {lapsed : Bool} (h : k' ≠ k) :
    (r.after k x lapsed).lapses k' = r.lapses k' := by
  cases lapsed with
  | false => rfl
  | true => exact List.count_cons_of_ne (Ne.symm h)

theorem expire_eq (r : Redis) (k : String) :
    r.expire k = r ∨ r.expire k = r.after k none true := by
  unfold Redis.expire
  cases r.entries k with
  | none => exact Or.inl rfl
  | some e => exact Or.inr rfl

/-- What a step does to one entry: nothing, one change by a call on its key,
or its expiry. -/
theorem step_entry {s t : Store R} {a : Action R}
    (h : step m s a = some t) (k : String) :
    (t.redis.entries k = s.redis.entries k ∧
        t.redis.lapses k = s.redis.lapses k) ∨
      (∃ c fault lapsed, a = .call c fault ∧ k = m.storageKey c.key ∧
        Change m c (s.redis.entries k) (t.redis.entries k) lapsed ∧
        t.redis.lapses k = s.redis.lapses k + lapsed.toNat) ∨
      (t.redis.entries k = none ∧
        t.redis.lapses k = s.redis.lapses k + 1) := by
  cases a with
  | call c fault =>
      obtain ⟨-, hredis, -⟩ := step_call h
      rcases perform_change m fault s.redis c with hsame | ⟨x, l, hx, hafter⟩
      · left
        rw [hredis, hsame]
        exact ⟨rfl, rfl⟩
      · by_cases hk : k = m.storageKey c.key
        · right
          left
          refine ⟨c, fault, l, rfl, hk, ?_⟩
          rw [hredis, hafter, hk, after_entries_self, after_lapses_self]
          exact ⟨hx, rfl⟩
        · left
          rw [hredis, hafter, after_entries_ne hk, after_lapses_ne hk]
          exact ⟨rfl, rfl⟩
  | expire k' =>
      cases h
      rcases expire_eq s.redis k' with heq | heq
      · left
        rw [heq]
        exact ⟨rfl, rfl⟩
      · by_cases hk : k = k'
        · right
          right
          subst hk
          rw [heq]
          exact ⟨after_entries_self, after_lapses_self⟩
        · left
          rw [heq]
          exact ⟨after_entries_ne hk, after_lapses_ne hk⟩
  | tick d =>
      cases h
      exact Or.inl ⟨rfl, rfl⟩

theorem step_lapses {s t : Store R} {a : Action R} (h : step m s a = some t)
    (k : String) : s.redis.lapses k ≤ t.redis.lapses k := by
  rcases step_entry h k with ⟨-, hl⟩ | ⟨c, fault, l, -, -, -, hl⟩ | ⟨-, hl⟩ <;>
    omega

theorem step_history {s t : Store R} {a : Action R}
    (h : step m s a = some t) : s.history <+: t.history := by
  cases a with
  | call c fault =>
      rw [(step_call h).2.2]
      exact List.prefix_append ..
  | expire k => cases h; exact List.prefix_rfl
  | tick d => cases h; exact List.prefix_rfl

theorem step_nodup {s t : Store R} {a : Action R} (hs : s.drawn.Nodup)
    (h : step m s a = some t) : t.drawn.Nodup := by
  cases a with
  | call c fault =>
      obtain ⟨hfresh, -, hhist⟩ := step_call h
      unfold Store.drawn
      rw [hhist, List.filterMap_append]
      cases hd : c.draws with
      | none =>
          simp only [List.filterMap_cons, hd, List.filterMap_nil,
            List.append_nil]
          exact hs
      | some owner =>
          have hnot := hfresh owner hd
          simp only [List.filterMap_cons, hd, List.filterMap_nil]
          refine List.nodup_append.mpr ⟨hs, by simp, ?_⟩
          intro x hx y hy hxy
          rw [List.mem_singleton] at hy
          exact hnot (hy ▸ hxy ▸ hx)
  | expire k => cases h; exact hs
  | tick d => cases h; exact hs

theorem Store.Born.mono {s t : Store R} {k : String} {e e' : Entry}
    (hhist : s.history <+: t.history) (h : s.Born m k e)
    (hcreator : e'.creator = e.creator)
    (hprint : e'.hash.fingerprint = e.hash.fingerprint) : t.Born m k e' := by
  obtain ⟨key, fingerprint, result, hk, hmem, hfp, hgrant⟩ := h
  refine ⟨key, fingerprint, result, hk, ?_, ?_, ?_⟩
  · rw [hcreator]
    exact hhist.subset hmem
  · rw [hprint]
    exact hfp
  · rw [hcreator]
    exact hgrant

theorem inv_step (s : Store R) (a : Action R) (t : Store R) (hs : Inv m s)
    (h : step m s a = some t) : Inv m t := by
  have hhist := step_history h
  refine ⟨?_, ?_, step_nodup hs.nodup h⟩
  · intro k e he
    rcases step_entry h k with ⟨hsame, -⟩ | ⟨c, fault, l, -, -, hx, -⟩ |
      ⟨hnone, -⟩
    · exact hs.ok k e (hsame ▸ he)
    · rw [he] at hx
      exact hx.ok fun e₀ he₀ => hs.ok k e₀ he₀
    · rw [hnone] at he
      cases he
  · intro k e he
    rcases step_entry h k with ⟨hsame, -⟩ | ⟨c, fault, l, rfl, hk, hx, -⟩ |
      ⟨hnone, -⟩
    · exact (hs.born k e (hsame ▸ he)).mono hhist rfl rfl
    · rw [he] at hx
      cases hbefore : s.redis.entries k with
      | some e₀ =>
          rw [hbefore] at hx
          exact (hs.born k e₀ hbefore).mono hhist hx.kept.1 hx.kept.2
      | none =>
          -- an entry out of nothing was made by the `Begin` of this step
          obtain ⟨-, -, hlast⟩ := step_call h
          rw [hbefore] at hx
          cases hx with
          | @created key fingerprint owner deadline hc =>
              subst hc
              have hempty : s.redis.entries (m.storageKey key) = none := by
                rw [← hbefore, hk]
                rfl
              refine ⟨key, fingerprint,
                (m.begin key fingerprint owner fault s.redis).2, hk, ?_, rfl,
                begin_granted hempty⟩
              rw [hlast]
              exact List.mem_append_right _ (List.mem_singleton_self _)
    · rw [hnone] at he
      cases he

theorem inv_init : Inv m {} where
  ok := by intro k e h; cases h
  born := by intro k e h; cases h
  nodup := List.nodup_nil

theorem inv_run {as : List (Action R)} {s : Store R}
    (hrun : Lts.run (step m) {} as = some s) : Inv m s :=
  Lts.run_inv_of inv_step inv_init hrun

/-! ## Tokens -/

/-- A token that was drawn and has no record to act on any more. -/
def Store.Ended (s : Store R) (owner : String) : Prop :=
  owner ∈ s.drawn ∧ ∀ k, s.redis.held k owner = false

/-- Some call with the token would change the store. -/
def Store.Effective (m : Manager R) (s : Store R) (key owner : String) :
    Prop :=
  ∃ c fault, Call.Owning c ∧ c.key = key ∧ c.owner = owner ∧
    (m.perform fault s.redis c).1 ≠ s.redis

def Result.isOk : Result → Bool
  | .ok => true
  | _ => false

/-- A call that ended a record under the token and said so. -/
def succeeded (owner : String) (p : Call R × Result) : Bool :=
  p.1.finishes && p.1.owner == owner && p.2.isOk

def Store.successes (s : Store R) (owner : String) : Nat :=
  s.history.countP (succeeded owner)

theorem held_eq_false {r : Redis} {k owner : String} :
    r.held k owner = false ↔
      ∀ e, r.entries k = some e → ¬ e.HeldBy owner := by
  constructor
  · intro h e hk he
    have htrue := held_iff.mpr ⟨e, hk, he⟩
    rw [h] at htrue
    cases htrue
  · intro h
    refine Bool.eq_false_iff.mpr fun htrue => ?_
    obtain ⟨e, hk, he⟩ := held_iff.mp htrue
    exact h e hk he

/-- A call with a drawn token that does anything finds its record under that
token. -/
theorem held_of_changed {c : Call R} {fault : Fault} {r : Redis}
    (hc : c.Owning) (h : (m.perform fault r c).1 ≠ r) :
    ∃ e, r.entries (m.storageKey c.key) = some e ∧ e.HeldBy c.owner := by
  rcases perform_change m fault r c with hsame | ⟨x, l, hx, -⟩
  · exact absurd hsame h
  · generalize hk : r.entries (m.storageKey c.key) = before at hx
    cases hx with
    | created deadline hbegin =>
        subst hbegin
        cases hc
    | stillborn hnot => exact absurd hc hnot
    | renewed deadline hf he => exact ⟨_, rfl, he⟩
    | finished deadline hf he => exact ⟨_, rfl, he⟩
    | aborted hf he => exact ⟨_, rfl, he⟩
    | lapsed hf he => exact ⟨_, rfl, he⟩

theorem mem_drawn {s : Store R} {key fingerprint owner : String}
    {result : Result}
    (h : (.begin key fingerprint owner, result) ∈ s.history) :
    owner ∈ s.drawn :=
  List.mem_filterMap.mpr ⟨_, h, rfl⟩

/-- Where no value comes up twice, it comes from one element. -/
theorem eq_of_nodup_filterMap {α β : Type} {f : α → Option β} {l : List α}
    (h : (l.filterMap f).Nodup) {a b : α} {x : β} (ha : a ∈ l) (hb : b ∈ l)
    (hfa : f a = some x) (hfb : f b = some x) : a = b := by
  induction l with
  | nil => cases ha
  | cons c l ih =>
      have hmem : ∀ d ∈ l, f d = some x → x ∈ l.filterMap f :=
        fun d hd hfd => List.mem_filterMap.mpr ⟨d, hd, hfd⟩
      rcases List.mem_cons.mp ha with rfl | ha' <;>
        rcases List.mem_cons.mp hb with rfl | hb'
      · rfl
      · rw [List.filterMap_cons_some hfa, List.nodup_cons] at h
        exact absurd (hmem b hb' hfb) h.1
      · rw [List.filterMap_cons_some hfb, List.nodup_cons] at h
        exact absurd (hmem a ha' hfa) h.1
      · refine ih ?_ ha' hb'
        cases hc : f c with
        | none => rwa [List.filterMap_cons_none hc] at h
        | some y =>
            rw [List.filterMap_cons_some hc, List.nodup_cons] at h
            exact h.2

/-- A token was drawn by one `Begin`. -/
theorem Inv.begin_unique {s : Store R} (h : Inv m s)
    {key₁ key₂ fp₁ fp₂ owner : String} {r₁ r₂ : Result}
    (h₁ : (.begin key₁ fp₁ owner, r₁) ∈ s.history)
    (h₂ : (.begin key₂ fp₂ owner, r₂) ∈ s.history) :
    key₁ = key₂ ∧ fp₁ = fp₂ := by
  have heq := eq_of_nodup_filterMap h.nodup h₁ h₂ rfl rfl
  cases heq
  exact ⟨rfl, rfl⟩

/-- A token has at most one record. -/
theorem Inv.creator_unique {s : Store R} (h : Inv m s) {k₁ k₂ : String}
    {e₁ e₂ : Entry} (h₁ : s.redis.entries k₁ = some e₁)
    (h₂ : s.redis.entries k₂ = some e₂)
    (heq : e₁.creator = e₂.creator) : k₁ = k₂ := by
  obtain ⟨key₁, fp₁, r₁, rfl, hmem₁, -, -⟩ := h.born k₁ e₁ h₁
  obtain ⟨key₂, fp₂, r₂, rfl, hmem₂, -, -⟩ := h.born k₂ e₂ h₂
  rw [heq] at hmem₁
  rw [(h.begin_unique hmem₁ hmem₂).1]

/-- The record of a token that is found under it, and the `Begin` it is
from. -/
theorem Inv.held {s : Store R} (h : Inv m s) {key owner : String} {e : Entry}
    (hk : s.redis.entries (m.storageKey key) = some e)
    (he : e.HeldBy owner) :
    e.creator = owner ∧ ∃ fingerprint result,
      (.begin key fingerprint owner, result) ∈ s.history ∧
        Granted owner result := by
  obtain ⟨-, hcreator⟩ := (h.ok _ e hk).processing he
  obtain ⟨key', fp, result, hkey, hmem, -, hgrant⟩ := h.born _ e hk
  rw [hcreator] at hmem hgrant
  rw [← storageKey_inj hkey] at hmem
  exact ⟨hcreator, fp, result, hmem, hgrant⟩

theorem ended_step {owner : String} (s : Store R) (a : Action R)
    (t : Store R) (hs : s.Ended owner) (h : step m s a = some t) :
    t.Ended owner := by
  have hdrawn : owner ∈ t.drawn :=
    ((step_history h).filterMap _).subset hs.1
  refine ⟨hdrawn, ?_⟩
  intro k
  rw [held_eq_false]
  intro e hk he
  have hbefore := held_eq_false.mp (hs.2 k)
  rcases step_entry h k with ⟨hsame, -⟩ | ⟨c, fault, l, rfl, -, hx, -⟩ |
    ⟨hnone, -⟩
  · exact hbefore e (hsame ▸ hk) he
  · rw [hk] at hx
    generalize hx₀ : s.redis.entries k = x at hx
    cases hx with
    | @created key fp o deadline hc =>
        -- the token of a new record was not drawn before
        subst hc
        have ho : o = owner := Option.some.inj he.2
        subst ho
        exact (step_call h).1 o rfl hs.1
    | renewed deadline hf hheld => exact hbefore _ hx₀ he
    | finished deadline hf hheld => exact finish_not_heldBy he
  · rw [hnone] at hk
    cases hk

theorem ended_unchanged {s : Store R} {c : Call R} (fault : Fault)
    (hs : s.Ended c.owner) (hc : c.Owning) :
    (m.perform fault s.redis c).1 = s.redis := by
  by_contra hne
  obtain ⟨e, hk, he⟩ := held_of_changed hc hne
  exact held_eq_false.mp (hs.2 _) e hk he

/-- A call that ended its record and said so is the end of its token. -/
theorem ended_of_success {s t : Store R} {c : Call R} {fault : Fault}
    (hs : Inv m s) (hc : c.finishes = true)
    (hok : (m.perform fault s.redis c).2 = .ok)
    (h : step m s (.call c fault) = some t) : t.Ended c.owner := by
  obtain ⟨-, hredis, -⟩ := step_call h
  obtain ⟨e, x, l, hk, he, hafter, hx⟩ := finishes_ok hc hok
  obtain ⟨hcreator, fp, result, hmem, -⟩ := hs.held hk he
  refine ⟨((step_history h).filterMap _).subset (mem_drawn hmem), ?_⟩
  intro k
  rw [held_eq_false, hredis, hafter]
  intro e' hk' he'
  by_cases hkk : k = m.storageKey c.key
  · subst hkk
    rw [after_entries_self] at hk'
    exact hx e' hk' _ he'
  · rw [after_entries_ne hkk] at hk'
    obtain ⟨-, hcreator'⟩ := (hs.ok k e' hk').processing he'
    exact hkk (hs.creator_unique hk' hk (hcreator'.trans hcreator.symm))

theorem ended_of_expire {s t : Store R} {k owner : String} (hs : Inv m s)
    (hheld : s.redis.held k owner = true)
    (h : step m s (.expire k) = some t) : t.Ended owner := by
  obtain ⟨e, hk, he⟩ := held_iff.mp hheld
  obtain ⟨key, fp, result, rfl, -⟩ := hs.born k e hk
  obtain ⟨hcreator, fp, result, hmem, -⟩ := hs.held hk he
  refine ⟨((step_history h).filterMap _).subset (mem_drawn hmem), ?_⟩
  cases h
  intro k'
  rw [held_eq_false]
  intro e' hk' he'
  change (s.redis.expire (m.storageKey key)).entries k' = some e' at hk'
  rw [expire_entries] at hk'
  split at hk'
  · cases hk'
  · next hne =>
      obtain ⟨-, hcreator'⟩ := (hs.ok k' e' hk').processing he'
      exact hne (hs.creator_unique hk' hk (hcreator'.trans hcreator.symm))

/-! ## Successes -/

/-- A token succeeds once, and has then ended. -/
structure Once (s : Store R) (owner : String) : Prop where
  le : s.successes owner ≤ 1
  ended : 0 < s.successes owner → s.Ended owner

theorem successes_call {s t : Store R} {c : Call R} {fault : Fault}
    (owner : String) (h : step m s (.call c fault) = some t) :
    t.successes owner = s.successes owner +
      if succeeded owner (c, (m.perform fault s.redis c).2) then 1 else 0 := by
  unfold Store.successes
  rw [(step_call h).2.2, List.countP_append, List.countP_singleton]

theorem Result.isOk_iff {result : Result} :
    result.isOk = true ↔ result = .ok := by
  cases result <;> simp [Result.isOk]

theorem once_step (owner : String) (s : Store R) (a : Action R) (t : Store R)
    (hs : Inv m s ∧ Once s owner) (h : step m s a = some t) :
    Inv m t ∧ Once t owner := by
  obtain ⟨hinv, honce⟩ := hs
  refine ⟨inv_step s a t hinv h, ?_⟩
  cases a with
  | call c fault =>
      have hcount := successes_call owner h
      by_cases hsucc :
          succeeded owner (c, (m.perform fault s.redis c).2) = true
      · obtain ⟨⟨hfin, howner⟩, hok⟩ :
            (c.finishes = true ∧ c.owner = owner) ∧
              (m.perform fault s.redis c).2 = .ok := by
          simpa [succeeded, Result.isOk_iff] using hsucc
        subst howner
        -- the call found its record, so its token had not succeeded before
        have hzero : s.successes c.owner = 0 := by
          by_contra hne
          have hended := honce.ended (Nat.pos_of_ne_zero hne)
          obtain ⟨e, x, l, hk, he, -⟩ := finishes_ok hfin hok
          exact held_eq_false.mp (hended.2 _) e hk he
        rw [if_pos hsucc, hzero] at hcount
        exact ⟨by omega, fun _ => ended_of_success hinv hfin hok h⟩
      · rw [if_neg hsucc, Nat.add_zero] at hcount
        refine ⟨by rw [hcount]; exact honce.le, ?_⟩
        intro hpos
        rw [hcount] at hpos
        exact ended_step s _ t (honce.ended hpos) h
  | expire k | tick d =>
      have hended : 0 < s.successes owner → t.Ended owner :=
        fun hpos => ended_step s _ t (honce.ended hpos) h
      cases h
      exact ⟨honce.le, hended⟩

theorem once_run (owner : String) {as : List (Action R)} {s : Store R}
    (hrun : Lts.run (step m) {} as = some s) : Once s owner := by
  refine (Lts.run_inv_of (once_step owner) ⟨inv_init, ?_⟩ hrun).2
  exact ⟨Nat.zero_le 1, fun h => absurd h (Nat.lt_irrefl 0)⟩

/-! ## The fence -/

/-- In every state of every run, the calls that could change the entry of a
key all carry one token, that of the `Begin` that made the entry; a token
whose record expired or was ended changes nothing ever after; and no token
succeeds twice. -/
theorem ownership_fenced {as : List (Action R)} {s : Store R}
    (hrun : Lts.run (step m) {} as = some s) :
    (∀ key o₁ o₂, s.Effective m key o₁ → s.Effective m key o₂ → o₁ = o₂) ∧
    (∀ key owner, s.Effective m key owner →
      ∃ e, s.redis.entries (m.storageKey key) = some e ∧
        e.creator = owner ∧ ∃ fingerprint result,
          (.begin key fingerprint owner, result) ∈ s.history ∧
            Granted owner result) ∧
    (∀ k owner t, s.redis.held k owner = true →
      step m s (.expire k) = some t → t.Ended owner) ∧
    (∀ c fault t, c.finishes = true →
      (m.perform fault s.redis c).2 = .ok →
      step m s (.call c fault) = some t → t.Ended c.owner) ∧
    (∀ owner, s.Ended owner → ∀ bs t, Lts.run (step m) s bs = some t →
      t.Ended owner ∧ ∀ c fault, c.Owning → c.owner = owner →
        (m.perform fault t.redis c).1 = t.redis) ∧
    ∀ owner, s.successes owner ≤ 1 := by
  have hinv := inv_run hrun
  have hmade : ∀ key owner, s.Effective m key owner →
      ∃ e, s.redis.entries (m.storageKey key) = some e ∧
        e.creator = owner ∧ ∃ fingerprint result,
          (.begin key fingerprint owner, result) ∈ s.history ∧
            Granted owner result := by
    rintro key owner ⟨c, fault, hc, rfl, rfl, hne⟩
    obtain ⟨e, hk, he⟩ := held_of_changed hc hne
    exact ⟨e, hk, hinv.held hk he⟩
  refine ⟨?_, hmade, ?_, ?_, ?_, fun owner => (once_run owner hrun).le⟩
  · intro key o₁ o₂ h₁ h₂
    obtain ⟨e₁, hk₁, hc₁, -⟩ := hmade key o₁ h₁
    obtain ⟨e₂, hk₂, hc₂, -⟩ := hmade key o₂ h₂
    rw [hk₁] at hk₂
    cases hk₂
    exact hc₁.symm.trans hc₂
  · intro k owner t hheld h
    exact ended_of_expire hinv hheld h
  · intro c fault t hc hok h
    exact ended_of_success hinv hc hok h
  · intro owner hended bs t hbs
    have ht := Lts.run_inv_of (ended_step (m := m)) hended hbs
    refine ⟨ht, ?_⟩
    rintro c fault hc rfl
    exact ended_unchanged fault ht hc

def ordersConfig : Config :=
  { enabled := true, service := "orders", processingTTL := 30000000000
    resultTTL := 60000000000, failureTTL := 60000000000
    maxResponseBytes := 0 }

/-- The text of a failure whose message needs no escapes. -/
def failureText (f : Failure) : Bytes :=
  bytes ("\x7b\"code\":" ++ toString f.code ++ ",\"message\":\"" ++ f.message ++
    "\",\"http_status\":" ++ toString f.httpStatus ++
    (if f.grpcCode = 0 then ""
      else ",\"grpc_code\":" ++ toString f.grpcCode) ++ "\x7d")

/-- Responses that are JSON texts already, and one failure that can be read
back. -/
def textJson : Json Bytes where
  marshal b := .ok b
  marshalFailure f := .ok (failureText f)
  unmarshalFailure b :=
    if b = failureText { message := "no stock" } then
      .ok { message := "no stock" }
    else .error (.new (bytes "unexpected end of JSON input"))

def orders : Manager Bytes := .new true ordersConfig textJson

/-- A client whose record expired comes back late, twice, while the next one
has taken the request over. -/
def lateOwner : List (Action Bytes) :=
  [.call (.begin "order-42" "fp" "owner-1") .none,
    .expire (orders.storageKey "order-42"),
    .call (.begin "order-42" "fp" "owner-2") .none,
    .call (.complete "order-42" "owner-1" (bytes "1")) .none,
    .call (.complete "order-42" "owner-2" (bytes "2")) .none,
    .call (.abort "order-42" "owner-2") .none]

theorem ownership_fenced_lateOwner :
    ∃ s, Lts.run (step orders) {} lateOwner = some s ∧
      s.successes "owner-2" = 1 ∧ s.successes "owner-1" = 0 ∧
      ∀ owner, s.successes owner ≤ 1 := by
  have hcounts : (Lts.run (step orders) {} lateOwner).map (fun s =>
      (s.successes "owner-2", s.successes "owner-1")) = some (1, 0) := by
    decide
  obtain ⟨s, hrun, heq⟩ := Option.map_eq_some_iff.mp hcounts
  rw [Prod.mk.injEq] at heq
  exact ⟨s, hrun, heq.1, heq.2, (ownership_fenced hrun).2.2.2.2.2⟩

end PlatformGo.Idempotency
