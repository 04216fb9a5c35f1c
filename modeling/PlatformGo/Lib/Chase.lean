import Mathlib.Data.List.Perm.Subperm

/-!
# Following links until they end or repeat

`next` links keys to keys. From a key the links are followed one by one, and
the keys passed are remembered: the search is over when a key has no link, or
when it comes to a key it has passed. The keys that have a link are finitely
many, and each of them is passed once at most, so fuel beyond their number is
never used up.

What the search finds out is whether the links end. If it meets a key again,
the keys it remembers are closed under `next`, and from a closed set of keys
that all have a link there is no way to a key without one.
-/

namespace PlatformGo.Chase

variable {K : Type*} {next : K → Option K}

/-- The links from a key end after so many steps. -/
inductive EndsAfter (next : K → Option K) : Nat → K → Prop
  | last {k : K} (h : next k = none) : EndsAfter next 0 k
  | step {n : Nat} {k k' : K} (h : next k = some k')
      (hrest : EndsAfter next n k') : EndsAfter next (n + 1) k

def Ends (next : K → Option K) (k : K) : Prop := ∃ n, EndsAfter next n k

theorem EndsAfter.of_link {n : Nat} {k k' : K} (h : EndsAfter next n k)
    (hlink : next k = some k') : ∃ m, n = m + 1 ∧ EndsAfter next m k' := by
  cases h with
  | last hnone =>
      rw [hlink] at hnone
      cases hnone
  | @step m _ k'' hstep hrest =>
      rw [hlink, Option.some.injEq] at hstep
      exact ⟨m, rfl, hstep ▸ hrest⟩

theorem EndsAfter.unique {n m : Nat} {k : K} (hn : EndsAfter next n k)
    (hm : EndsAfter next m k) : n = m := by
  induction hn generalizing m with
  | last hnone =>
      cases hm with
      | last => rfl
      | step hlink =>
          rw [hnone] at hlink
          cases hlink
  | step hlink _ ih =>
      obtain ⟨m', rfl, hrest⟩ := hm.of_link hlink
      rw [ih hrest]

theorem ends_of_link {k k' : K} (h : next k = some k') :
    Ends next k ↔ Ends next k' := by
  constructor
  · rintro ⟨n, hn⟩
    obtain ⟨m, _, hm⟩ := hn.of_link h
    exact ⟨m, hm⟩
  · rintro ⟨n, hn⟩
    exact ⟨n + 1, .step h hn⟩

/-- Links that stay among keys with links do not end. -/
theorem not_ends_of_closed {keys : List K}
    (hclosed : ∀ k ∈ keys, ∃ k' ∈ keys, next k = some k') {k : K}
    (hk : k ∈ keys) : ¬ Ends next k := by
  rintro ⟨n, hn⟩
  induction hn with
  | last hnone =>
      obtain ⟨k', _, hlink⟩ := hclosed _ hk
      rw [hnone] at hlink
      cases hlink
  | step hlink _ ih =>
      obtain ⟨k', hk', hlink'⟩ := hclosed _ hk
      rw [hlink, Option.some.injEq] at hlink'
      exact ih (hlink' ▸ hk')

/-- The keys passed lead one to the other and at last to where the search
is. -/
structure Trail (next : K → Option K) (seen : List K) (current : K) :
    Prop where
  nodup : seen.Nodup
  leads : ∀ k ∈ seen, ∃ k', next k = some k' ∧ (k' = current ∨ k' ∈ seen)

theorem Trail.nil (current : K) : Trail next [] current :=
  ⟨List.nodup_nil, by simp⟩

theorem Trail.cons {seen : List K} {current k : K}
    (h : Trail next seen current) (hnew : current ∉ seen)
    (hlink : next current = some k) : Trail next (current :: seen) k := by
  refine ⟨List.nodup_cons.mpr ⟨hnew, h.nodup⟩, fun j hj => ?_⟩
  rcases List.mem_cons.mp hj with rfl | hj
  · exact ⟨k, hlink, Or.inl rfl⟩
  · obtain ⟨j', hj', hwhere⟩ := h.leads j hj
    refine ⟨j', hj', Or.inr ?_⟩
    rcases hwhere with rfl | hmem
    · exact List.mem_cons_self
    · exact List.mem_cons_of_mem _ hmem

theorem Trail.not_ends {seen : List K} {current : K}
    (h : Trail next seen current) (hmem : current ∈ seen) :
    ¬ Ends next current := by
  refine not_ends_of_closed (fun k hk => ?_) hmem
  obtain ⟨k', hlink, hwhere⟩ := h.leads k hk
  refine ⟨k', ?_, hlink⟩
  rcases hwhere with rfl | hk'
  · exact hmem
  · exact hk'

theorem Trail.length_le {seen keys : List K} {current : K}
    (h : Trail next seen current)
    (hkeys : ∀ k k', next k = some k' → k ∈ keys) :
    seen.length ≤ keys.length := by
  refine (List.subperm_of_subset h.nodup fun k hk => ?_).length_le
  obtain ⟨k', hlink, _⟩ := h.leads k hk
  exact hkeys k k' hlink

variable [DecidableEq K]

/-- The search: whether a key is met again. `none` is out of fuel. -/
def chase (next : K → Option K) : Nat → List K → K → Option Bool
  | 0, _, _ => none
  | fuel + 1, seen, current =>
      if current ∈ seen then some true
      else
        match next current with
        | none => some false
        | some k => chase next fuel (current :: seen) k

/-- With fuel for every key that has a link and one more, the search comes to
its end, and it tells whether the links do. -/
theorem chase_eq {keys seen : List K} {current : K} {fuel : Nat}
    (hkeys : ∀ k k', next k = some k' → k ∈ keys)
    (htrail : Trail next seen current)
    (hfuel : keys.length < fuel + seen.length) :
    ∃ met, chase next fuel seen current = some met ∧
      (met = true ↔ ¬ Ends next current) := by
  induction fuel generalizing seen current with
  | zero =>
      have hle := htrail.length_le hkeys
      omega
  | succ fuel ih =>
      rw [chase]
      by_cases hmem : current ∈ seen
      · rw [if_pos hmem]
        exact ⟨true, rfl, by simpa using htrail.not_ends hmem⟩
      · rw [if_neg hmem]
        cases hlink : next current with
        | none =>
            refine ⟨false, rfl, ?_⟩
            simpa using ⟨0, EndsAfter.last hlink⟩
        | some k =>
            obtain ⟨met, hmet, hends⟩ := ih (htrail.cons hmem hlink) (by
              rw [List.length_cons]
              omega)
            exact ⟨met, hmet, by rw [hends, ends_of_link hlink]⟩

end PlatformGo.Chase
