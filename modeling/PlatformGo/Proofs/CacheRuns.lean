import PlatformGo.Proofs.CacheNames

/-!
# Stores on one server, over whole runs

A call looks at entries of its own namespace and changes entries of its own
namespace. So a store whose namespace meets no other's gets the answers it
would get alone on the server, whatever the others do in between; and where
two namespaces do meet, a deletion by the one is all it takes for the other to
see the difference (`stores_isolated_iff`).
-/

namespace PlatformGo.Cache

open Lts Expiring

variable {s : RedisStore}

theorem validate_ok {key qualified : String} {value : Bytes} {ttl : Time}
    (h : s.validate key value ttl = .ok qualified) :
    s.qualifiedKey key = .ok qualified := by
  unfold RedisStore.validate at h
  split at h
  · cases h
  · next q hq =>
      split at h
      · cases h
      · split at h
        · cases h
        · cases h
          exact hq

/-- The keys of a store's namespace. -/
def RedisStore.Owns (s : RedisStore) (qualified : String) : Prop :=
  ∃ key, s.qualifiedKey key = .ok qualified

theorem qualifiedKeys_owns {keys qualified : List String}
    (h : s.qualifiedKeys keys = .ok qualified) : ∀ q ∈ qualified, s.Owns q := by
  induction keys generalizing qualified with
  | nil =>
      cases h
      simp
  | cons key keys ih =>
      unfold RedisStore.qualifiedKeys at h
      split at h
      · cases h
      · next q hq =>
          split at h
          · cases h
          · next rest hrest =>
              cases h
              rw [List.forall_mem_cons]
              exact ⟨⟨key, hq⟩, ih hrest⟩

/-! ## A call stays in its namespace -/

theorem confined_run {α : Type} {P : String → Prop}
    {command : Redis → Redis × α} (h : Store.Confined P command)
    (fault : Fault) : Store.Confined P (fault.run command) := by
  cases fault with
  | none =>
      exact h.answer (fun _ => rfl) fun _ _ heq => congrArg Except.ok heq
  | notExecuted e => exact Store.confined_read fun _ => rfl
  | replyLost e => exact h.answer (fun _ => rfl) fun _ _ _ => rfl

theorem call_confined (s : RedisStore) (fault : Fault) (c : Command) :
    Store.Confined s.Owns fun r => s.call fault r c := by
  cases c with
  | get key =>
      simp only [RedisStore.call, RedisStore.get]
      cases hq : s.qualifiedKey key with
      | error e => exact Store.confined_read fun _ => rfl
      | ok q =>
          have hread : Store.Confined s.Owns fun r : Redis =>
              (r, r.lookup q) := Store.confined_read fun h => h.lookup ⟨key, hq⟩
          refine (confined_run hread fault).answer (fun _ => rfl) ?_
          intro r r' heq
          simp only [heq]
  | set key value ttl =>
      simp only [RedisStore.call, RedisStore.set]
      cases hq : s.validate key value ttl with
      | error e => exact Store.confined_read fun _ => rfl
      | ok q =>
          refine (confined_run (Store.confined_put ⟨key, validate_ok hq⟩ value
            (s.expiration ttl)) fault).answer (fun _ => rfl) ?_
          intro r r' heq
          simp only [heq]
  | setIfAbsent key value ttl =>
      simp only [RedisStore.call, RedisStore.setIfAbsent]
      cases hq : s.validate key value ttl with
      | error e => exact Store.confined_read fun _ => rfl
      | ok q =>
          refine (confined_run (Store.confined_putNew ⟨key, validate_ok hq⟩
            value (s.expiration ttl)) fault).answer (fun _ => rfl) ?_
          intro r r' heq
          simp only [heq]
  | delete keys =>
      simp only [RedisStore.call, RedisStore.delete]
      split
      · exact Store.confined_read fun _ => rfl
      split
      · exact Store.confined_read fun _ => rfl
      cases hq : s.qualifiedKeys keys with
      | error e => exact Store.confined_read fun _ => rfl
      | ok q =>
          refine (confined_run (Store.confined_erase
            (qualifiedKeys_owns hq)) fault).answer (fun _ => rfl) ?_
          intro r r' heq
          simp only [heq]
  | existsKey key =>
      simp only [RedisStore.call, RedisStore.existsKey]
      cases hq : s.qualifiedKey key with
      | error e => exact Store.confined_read fun _ => rfl
      | ok q =>
          have hread : Store.Confined s.Owns fun r : Redis =>
              (r, if (r.find q).isSome then 1 else 0) :=
            Store.confined_read fun h => by rw [h.find ⟨key, hq⟩]
          refine (confined_run hread fault).answer (fun _ => rfl) ?_
          intro r r' heq
          simp only [heq]

/-- The actions a store would see alone on its server. -/
def concerns (i : Nat) : Action → Bool
  | .call j _ _ => j == i
  | .tick _ => true

variable {stores : Nat → RedisStore} {i : Nat}

/-- The store sees its own answers, on a server that agrees with its own. -/
structure Alone (stores : Nat → RedisStore) (i : Nat) (u v : Sys) : Prop where
  redis : u.redis.Agree (stores i).Owns v.redis
  answers : (u.answers.filter fun a => a.1 == i) = v.answers

theorem alone_step (hapart : ∀ j, j ≠ i → ¬ Meet (stores i) (stores j))
    {u u' v : Sys} {a : Action} (h : Alone stores i u v)
    (hstep : step stores u a = some u') :
    (concerns i a = true → ∃ v', step stores v a = some v' ∧
      Alone stores i u' v') ∧
    (concerns i a = false → Alone stores i u' v) := by
  cases a with
  | tick ms =>
      cases hstep
      exact ⟨fun _ => ⟨_, rfl, h.redis.tick ms, h.answers⟩, fun hno => by
        cases hno⟩
  | call j c fault =>
      cases hstep
      constructor
      · intro hself
        have hji : j = i := by simpa [concerns] using hself
        subst hji
        obtain ⟨hanswer, hagree⟩ :=
          (call_confined (stores j) fault c).same h.redis
        refine ⟨_, rfl, hagree, ?_⟩
        rw [List.filter_append, h.answers, hanswer]
        simp
      · intro hother
        have hji : j ≠ i := by simpa [concerns] using hother
        refine ⟨(call_confined (stores j) fault c).outside ?_ h.redis, ?_⟩
        · rintro q ⟨key, hkey⟩ ⟨key', hkey'⟩
          exact hapart j hji ⟨key, key', q, hkey, hkey'⟩
        · rw [List.filter_append, h.answers]
          simp [hji]

theorem alone_run (hapart : ∀ j, j ≠ i → ¬ Meet (stores i) (stores j))
    {as : List Action} {u u' v : Sys} (h : Alone stores i u v)
    (hrun : run (step stores) u as = some u') :
    ∃ v', run (step stores) v (as.filter (concerns i)) = some v' ∧
      Alone stores i u' v' := by
  rw [← List.filterMap_eq_filter]
  refine run_follow (C := fun _ => True) ?_ ?_ h (fun _ _ => trivial) hrun
  · intro u a u' v b hrel _ hf hstep
    obtain ⟨rfl, hc⟩ := Option.guard_eq_some_iff.mp hf
    exact (alone_step hapart hrel hstep).1 hc
  · intro u a u' v hrel _ hf hstep
    refine (alone_step hapart hrel hstep).2 ?_
    simpa [Option.guard] using hf

/-! ## What the calls answer -/

section Answers

variable {key q : String}

theorem existsKey_answer (hq : s.qualifiedKey key = .ok q) (r : Redis) :
    s.existsKey key .none r = (r, .ok (r.find q).isSome) := by
  unfold RedisStore.existsKey
  simp only [hq, Fault.run]
  cases r.find q with
  | none => rfl
  | some e => rfl

theorem delete_answer (hq : s.qualifiedKey key = .ok q) (r : Redis) :
    s.delete [key] .none r = (r.erase [q], none) := by
  unfold RedisStore.delete
  simp only [RedisStore.qualifiedKeys, hq, Fault.run, List.length_singleton]
  rfl

end Answers

/-- A store gets the answers it would get alone on the server, whatever the
other stores do in between and whatever befalls their commands, exactly when
its namespace meets no other store's. -/
theorem stores_isolated_iff (stores : Nat → RedisStore) (i : Nat) :
    (∀ (r : Redis) (as : List Action) (u : Sys),
      run (step stores) { redis := r } as = some u →
        ∃ v, run (step stores) { redis := r } (as.filter (concerns i)) =
            some v ∧
          (u.answers.filter fun a => a.1 == i) = v.answers) ↔
    ∀ j, j ≠ i → ¬ (Usable (stores i) ∧ Usable (stores j) ∧
      (Within (stores i).keyPrefix (stores j).keyPrefix ∨
        Within (stores j).keyPrefix (stores i).keyPrefix)) := by
  constructor
  · intro halone j hji hmeet
    obtain ⟨key, key', q, hq, hq'⟩ := (meet_iff _ _).mpr hmeet
    -- the other store deletes the entry before this one asks for it
    let r : Redis := ({} : Redis).put q [] none
    let asks : Action := .call i (.existsKey key) .none
    obtain ⟨v, hv, hanswers⟩ :=
      halone r [.call j (.delete [key']) .none, asks] _ rfl
    have hfilter : [.call j (.delete [key']) .none, asks].filter
        (concerns i) = [asks] := by
      simp [concerns, asks, hji]
    rw [hfilter] at hv
    cases hv
    simp only [r, RedisStore.call, delete_answer hq',
      existsKey_answer hq] at hanswers
    simp [hji, ofBool, Store.find, Store.put, Store.erase, Entry.live]
      at hanswers
  · intro hapart r as u hrun
    have hmeet : ∀ j, j ≠ i → ¬ Meet (stores i) (stores j) := fun j hji h =>
      hapart j hji ((meet_iff _ _).mp h)
    obtain ⟨v, hv, hend⟩ :=
      alone_run hmeet (v := { redis := r }) ⟨⟨rfl, fun _ _ => rfl⟩, rfl⟩ hrun
    exact ⟨v, hv, hend.answers⟩

end PlatformGo.Cache
