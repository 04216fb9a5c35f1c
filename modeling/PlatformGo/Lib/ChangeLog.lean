import Mathlib.Data.List.AList
import PlatformGo.Lib.Ordered

/-!
# Tables that follow a log of changes

A table assigns values to keys. It is followed in three forms. `after` is the
specification: what a key holds after a log of changes is decided by the last
change of that key, and by the table before the log where there is none. An
association list is what a program folds the changes into one by one
(`follow`). A plain list of values, each carrying its own key, is how a table
is sent around; `Lists` says that such a list and a table agree.

The lemmas are the passages between the three: a fold computes `after`, logs
compose, an association list can be written out as a list and read in again,
and a table has only one list in the order of its keys.
-/

namespace PlatformGo.ChangeLog

variable {K V : Type*} [DecidableEq K]

/-- What a key holds after the changes, where `none` removes. -/
def after (base : K → Option V) (log : List (K × Option V)) (k : K) :
    Option V :=
  match log.reverse.find? (fun c => c.1 = k) with
  | some c => c.2
  | none => base k

@[simp] theorem after_nil (base : K → Option V) : after base [] = base := rfl

theorem after_snoc (base : K → Option V) (log : List (K × Option V))
    (c : K × Option V) (k : K) :
    after base (log ++ [c]) k = if c.1 = k then c.2 else after base log k := by
  rw [after, List.reverse_append, List.reverse_singleton,
    List.singleton_append, List.find?_cons]
  by_cases hk : c.1 = k
  · simp [hk]
  · simp [hk, after]

theorem after_append (base : K → Option V) (log log' : List (K × Option V))
    (k : K) : after base (log ++ log') k = after (after base log) log' k := by
  simp only [after, List.reverse_append, List.find?_append]
  cases log'.reverse.find? (fun c => c.1 = k) <;> rfl

theorem after_cons (base : K → Option V) (c : K × Option V)
    (log : List (K × Option V)) :
    after base (c :: log) =
      after (fun k => if c.1 = k then c.2 else base k) log := by
  funext k
  rw [show c :: log = [c] ++ log from rfl, after_append]
  congr 1
  funext k'
  rw [show [c] = [] ++ [c] from rfl, after_snoc, after_nil]

/-! ## Association lists -/

/-- One change carried out. -/
def follow (m : AList fun _ : K => V) : K × Option V → AList fun _ : K => V
  | (k, some v) => m.insert k v
  | (k, none) => m.erase k

theorem lookup_follow (m : AList fun _ : K => V) (c : K × Option V) (k : K) :
    (follow m c).lookup k = if c.1 = k then c.2 else m.lookup k := by
  obtain ⟨k', o⟩ := c
  by_cases hk : k' = k
  · subst hk
    cases o with
    | some v => simp [follow]
    | none => simp [follow]
  · rw [if_neg hk]
    cases o with
    | some v => exact AList.lookup_insert_ne (Ne.symm hk)
    | none => exact AList.lookup_erase_ne (Ne.symm hk)

theorem lookup_foldl_follow (m : AList fun _ : K => V)
    (log : List (K × Option V)) (k : K) :
    (log.foldl follow m).lookup k = after m.lookup log k := by
  induction log generalizing m with
  | nil => rfl
  | cons c log ih =>
      rw [List.foldl_cons, ih, after_cons]
      congr 1
      funext k'
      exact lookup_follow m c k'

/-! ## Lists of values that carry their key -/

/-- The list holds the values of the table, each once. -/
structure Lists (key : V → K) (l : List V) (table : K → Option V) : Prop where
  nodup : (l.map key).Nodup
  mem : ∀ k v, table k = some v ↔ v ∈ l ∧ key v = k

section Lists

variable {key : V → K} {l l' : List V} {table : K → Option V}

omit [DecidableEq K] in
theorem Lists.perm (h : Lists key l table) (hp : l'.Perm l) :
    Lists key l' table := by
  refine ⟨(hp.map key).nodup_iff.mpr h.nodup, fun k v => ?_⟩
  rw [h.mem k v, hp.mem_iff]

/-- The table a list stands for. -/
theorem Lists.table_eq (h : Lists key l table) (k : K) :
    table k = l.find? fun v => key v = k := by
  cases hfind : l.find? fun v => key v = k with
  | some v =>
      have hkey : key v = k := by simpa using List.find?_some hfind
      exact (h.mem k v).mpr ⟨List.mem_of_find?_eq_some hfind, hkey⟩
  | none =>
      cases htab : table k with
      | none => rfl
      | some v =>
          obtain ⟨hmem, hkey⟩ := (h.mem k v).mp htab
          exact absurd hkey (by simpa using List.find?_eq_none.mp hfind v hmem)

/-- A list read in value by value, for any list of values. -/
theorem lookup_foldl_insert (m : AList fun _ : K => V) (l : List V) (k : K) :
    (l.foldl (fun m v => m.insert (key v) v) m).lookup k =
      after m.lookup (l.map fun v => (key v, some v)) k := by
  rw [← lookup_foldl_follow, List.foldl_map]
  rfl

theorem Lists.lookup_insertAll (h : Lists key l table) (k : K) :
    (l.foldl (fun m v => m.insert (key v) v)
      (∅ : AList fun _ : K => V)).lookup k = table k := by
  rw [lookup_foldl_insert, after, ← List.map_reverse, List.find?_map]
  have hrev := h.perm (List.reverse_perm l)
  rw [hrev.table_eq k]
  simp only [Function.comp_def, AList.lookup_empty]
  cases l.reverse.find? fun v => key v = k <;> rfl

/-- The values of an association list whose values sit under their keys. -/
theorem lists_values {m : AList fun _ : K => V}
    (hkey : ∀ k v, m.lookup k = some v → key v = k) :
    Lists key (m.entries.map Sigma.snd) m.lookup := by
  have hat : ∀ e ∈ m.entries, key e.2 = e.1 := fun e he =>
    hkey e.1 e.2 (AList.mem_lookup_iff.mpr he)
  refine ⟨?_, fun k v => ?_⟩
  · have hmap : (m.entries.map Sigma.snd).map key = m.keys := by
      rw [List.map_map, AList.keys, List.keys]
      exact List.map_congr_left hat
    rw [hmap]
    exact m.keys_nodup
  · constructor
    · intro hlook
      exact ⟨List.mem_map.mpr ⟨⟨k, v⟩, AList.mem_lookup_iff.mp hlook, rfl⟩,
        hkey k v hlook⟩
    · rintro ⟨hmem, hk⟩
      obtain ⟨e, he, rfl⟩ := List.mem_map.mp hmem
      rw [hat e he] at hk
      subst hk
      exact AList.mem_lookup_iff.mpr he

end Lists

/-! ## In the order of the keys -/

section Ordered

variable {K V : Type*} [LinearOrder K] {key : V → K} {l l' : List V}
  {table : K → Option V}

/-- Values in the order of their keys; equal keys in any order. -/
def sortBy (key : V → K) (l : List V) : List V :=
  l.insertionSort fun a b => key a ≤ key b

theorem sortBy_perm (key : V → K) (l : List V) : (sortBy key l).Perm l :=
  List.perm_insertionSort _ l

theorem Lists.sorted_sortBy (h : Lists key l table) :
    (sortBy key l).Pairwise fun a b => key a < key b :=
  PlatformGo.Ordered.sorted_insertionSort key h.nodup

/-- A table has one list in the order of its keys. -/
theorem Lists.eq_of_sorted (h : Lists key l table) (h' : Lists key l' table)
    (hs : l.Pairwise fun a b => key a < key b)
    (hs' : l'.Pairwise fun a b => key a < key b) : l = l' := by
  refine PlatformGo.Ordered.eq_of_sorted key hs hs' fun v => ?_
  constructor
  · exact fun hv => ((h'.mem _ v).mp ((h.mem _ v).mpr ⟨hv, rfl⟩)).1
  · exact fun hv => ((h.mem _ v).mp ((h'.mem _ v).mpr ⟨hv, rfl⟩)).1

end Ordered

end PlatformGo.ChangeLog
