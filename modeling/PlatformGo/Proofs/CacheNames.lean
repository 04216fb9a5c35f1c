import PlatformGo.Lib.Spelling
import PlatformGo.Ref.Cache

/-!
# When two stores of a server share a key

A store's prefix is put before the key with nothing in between, so what keeps
two namespaces apart is only what the prefixes and the keys may look like.
`qualifiedKey` is strict about both: trimmed, without control characters, and
bounded in length. That a key may not begin with white space is the one thing
that can keep a namespace that lies inside another one apart from it: the rest
of the longer prefix is where the other store's key would have to begin.
Everything else is a matter of length.
-/

namespace PlatformGo.Cache

open Spelling

/-- What `qualifiedKey` asks of a key. -/
structure ValidKey (key : String) : Prop where
  ne : key ≠ ""
  trimmed : trimSpace key = key
  size : key.utf8ByteSize ≤ 1024
  plain : ∀ c ∈ key.toList, isControl c = false

/-- What it asks of the store: a client, and a prefix that is clean and leaves
room for a key. -/
structure Usable (s : RedisStore) : Prop where
  client : s.client = true
  trimmed : trimSpace s.keyPrefix = s.keyPrefix
  plain : ∀ c ∈ s.keyPrefix.toList, isControl c = false
  size : s.keyPrefix.utf8ByteSize ≤ 2047

theorem any_isControl {s : String} :
    s.toList.any isControl = true ↔ ¬ ∀ c ∈ s.toList, isControl c = false := by
  rw [List.any_eq_true]
  constructor
  · intro ⟨c, hc, hcontrol⟩ h
    rw [h c hc] at hcontrol
    cases hcontrol
  · intro h
    by_contra hnone
    refine h fun c hc => (Bool.not_eq_true _).mp fun hcontrol => ?_
    exact hnone ⟨c, hc, hcontrol⟩

theorem utf8ByteSize_pos {s : String} (h : s ≠ "") : 0 < s.utf8ByteSize := by
  rcases Nat.eq_zero_or_pos s.utf8ByteSize with hzero | hpos
  · exact absurd (String.utf8ByteSize_eq_zero_iff.mp hzero) h
  · exact hpos

theorem qualifiedKey_eq_ok {s : RedisStore} {key qualified : String} :
    s.qualifiedKey key = .ok qualified ↔
      qualified = s.keyPrefix ++ key ∧ Usable s ∧ ValidKey key ∧
        qualified.utf8ByteSize ≤ 2048 := by
  unfold RedisStore.qualifiedKey
  cases hclient : s.client with
  | false =>
      refine iff_of_false (by simp) ?_
      intro ⟨_, husable, _⟩
      rw [husable.client] at hclient
      cases hclient
  | true =>
      rw [if_neg (by simp)]
      dsimp only
      constructor
      · intro h
        split at h
        · cases h
        · next hvalid =>
            cases h
            simp only [not_or, any_isControl, not_not, Nat.not_lt,
              gt_iff_lt] at hvalid
            obtain ⟨hne, hkey, hfront, hsize, hqualified, hplain, hclean⟩ :=
              hvalid
            refine ⟨rfl, ⟨hclient, hfront.symm, hclean, ?_⟩,
              ⟨hne, hkey.symm, hsize, hplain⟩, hqualified⟩
            have hpos := utf8ByteSize_pos hne
            rw [String.utf8ByteSize_append] at hqualified
            omega
      · rintro ⟨rfl, husable, hkey, hqualified⟩
        rw [if_neg]
        simp only [not_or, any_isControl, not_not, Nat.not_lt, gt_iff_lt]
        exact ⟨hkey.ne, hkey.trimmed.symm, husable.trimmed.symm, hkey.size,
          hqualified, hkey.plain, husable.plain⟩

/-- The namespace of the second prefix lies inside that of the first. -/
def Within (outer inner : String) : Prop :=
  ∃ rest, inner = outer ++ rest ∧ rest.utf8ByteSize ≤ 1023 ∧
    ∀ c, rest.toList.head? = some c → isSpace c = false

/-- Two stores that can qualify keys to the same one. -/
def Meet (s t : RedisStore) : Prop :=
  ∃ key key' qualified, s.qualifiedKey key = .ok qualified ∧
    t.qualifiedKey key' = .ok qualified

theorem Meet.symm {s t : RedisStore} (h : Meet s t) : Meet t s := by
  obtain ⟨key, key', qualified, hkey, hkey'⟩ := h
  exact ⟨key', key, qualified, hkey', hkey⟩

/-- A key of the outer store that begins with the rest of the inner prefix is
a key of the inner one. -/
theorem meet_of_within {s t : RedisStore} (hs : Usable s) (ht : Usable t)
    (h : Within s.keyPrefix t.keyPrefix) : Meet s t := by
  obtain ⟨rest, hrest, hsize, hhead⟩ := h
  have hx : ValidKey "x" := by
    refine ⟨by decide, by decide, by decide, fun c hc => ?_⟩
    rw [List.mem_singleton.mp (show c ∈ ['x'] from hc)]
    decide
  have hsize' : (rest ++ "x").utf8ByteSize = rest.utf8ByteSize + 1 := by
    rw [String.utf8ByteSize_append]
    rfl
  have hkey : ValidKey (rest ++ "x") := by
    refine ⟨?_, trimSpace_eq_self_iff.mpr ⟨?_, ?_⟩, by omega, ?_⟩
    · intro hempty
      rw [hempty] at hsize'
      simp at hsize'
    · intro c hc
      rw [String.toList_append, List.head?_append] at hc
      cases hfirst : rest.toList.head? with
      | none =>
          rw [hfirst, Option.none_or] at hc
          cases hc
          decide
      | some c' =>
          rw [hfirst, Option.some_or, Option.some.injEq] at hc
          exact hhead c (by rw [hfirst, hc])
    · intro c hc
      rw [String.toList_append] at hc
      simp only [List.getLast?_append] at hc
      cases hc
      decide
    · intro c hc
      rw [String.toList_append, List.mem_append] at hc
      rcases hc with hc | hc
      · refine ht.plain c ?_
        rw [hrest, String.toList_append]
        exact List.mem_append_right _ hc
      · exact hx.plain c hc
  have hqualified : (t.keyPrefix ++ "x").utf8ByteSize ≤ 2048 := by
    have := ht.size
    rw [String.utf8ByteSize_append]
    show t.keyPrefix.utf8ByteSize + 1 ≤ 2048
    omega
  refine ⟨rest ++ "x", "x", t.keyPrefix ++ "x",
    qualifiedKey_eq_ok.mpr ⟨?_, hs, hkey, hqualified⟩,
    qualifiedKey_eq_ok.mpr ⟨rfl, ht, hx, hqualified⟩⟩
  rw [hrest, String.append_assoc]

theorem within_of_append {s t : RedisStore} {key key' : String}
    {text : List Char} (hkey : ValidKey key) (hkey' : ValidKey key')
    (hfront : t.keyPrefix.toList = s.keyPrefix.toList ++ text)
    (hkeys : key.toList = text ++ key'.toList) :
    Within s.keyPrefix t.keyPrefix := by
  have heq : key = String.ofList text ++ key' := by
    rw [← String.toList_inj, String.toList_append, String.toList_ofList, hkeys]
  refine ⟨String.ofList text, ?_, ?_, fun c hc => ?_⟩
  · rw [← String.toList_inj, String.toList_append, String.toList_ofList,
      hfront]
  · have hsize := hkey.size
    have hpos := utf8ByteSize_pos hkey'.ne
    rw [heq, String.utf8ByteSize_append] at hsize
    omega
  · refine (trimSpace_eq_self_iff.mp hkey.trimmed).1 c ?_
    rw [heq, String.toList_append, List.head?_append, hc, Option.some_or]

/-- Two stores of one server can come to share a key exactly when both are
usable and one prefix is the other followed by a text of at most 1023 bytes
that is empty or does not begin with white space. -/
theorem meet_iff (s t : RedisStore) :
    Meet s t ↔ Usable s ∧ Usable t ∧
      (Within s.keyPrefix t.keyPrefix ∨ Within t.keyPrefix s.keyPrefix) := by
  constructor
  · rintro ⟨key, key', qualified, hs, ht⟩
    obtain ⟨rfl, husable, hkey, -⟩ := qualifiedKey_eq_ok.mp hs
    obtain ⟨heq, husable', hkey', -⟩ := qualifiedKey_eq_ok.mp ht
    refine ⟨husable, husable', ?_⟩
    rw [← String.toList_inj, String.toList_append, String.toList_append,
      List.append_eq_append_iff] at heq
    rcases heq with ⟨text, hfront, hkeys⟩ | ⟨text, hfront, hkeys⟩
    · exact .inl (within_of_append hkey hkey' hfront hkeys)
    · exact .inr (within_of_append hkey' hkey hfront hkeys)
  · rintro ⟨hs, ht, h | h⟩
    · exact meet_of_within hs ht h
    · exact (meet_of_within ht hs h).symm

end PlatformGo.Cache
