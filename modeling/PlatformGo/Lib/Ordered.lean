import Mathlib.Data.List.Sort

/-!
# Lists in the order of their keys

Values with distinct keys have one order: every algorithm that sorts them by
their keys ends with the same list, whatever it does with equal keys.
-/

namespace PlatformGo.Ordered

variable {V K : Type*} [LinearOrder K] (key : V → K) {l l' : List V}

theorem sorted_insertionSort [DecidableRel fun a b : V => key a ≤ key b]
    (h : (l.map key).Nodup) :
    (l.insertionSort fun a b => key a ≤ key b).Pairwise
      fun a b => key a < key b := by
  have hle : (l.insertionSort fun a b => key a ≤ key b).Pairwise
      fun a b => key a ≤ key b := by
    have : IsTrans V fun a b => key a ≤ key b := ⟨fun _ _ _ => le_trans⟩
    have : Std.Total fun a b : V => key a ≤ key b :=
      ⟨fun a b => le_total (key a) (key b)⟩
    exact List.pairwise_insertionSort _ l
  have hne : (l.insertionSort fun a b => key a ≤ key b).Pairwise
      fun a b => key a ≠ key b :=
    List.pairwise_map.mp
      (((List.perm_insertionSort _ l).map key).nodup_iff.mpr h)
  exact (hle.and hne).imp fun hab => lt_of_le_of_ne hab.1 hab.2

theorem eq_of_sorted (h : l.Pairwise fun a b => key a < key b)
    (h' : l'.Pairwise fun a b => key a < key b)
    (hmem : ∀ v, v ∈ l ↔ v ∈ l') : l = l' := by
  have : Std.Antisymm fun a b : V => key a < key b :=
    ⟨fun _ _ hab hba => absurd hab (lt_asymm hba)⟩
  have : Std.Irrefl fun a b : V => key a < key b := ⟨fun _ => lt_irrefl _⟩
  exact h.eq_of_mem_iff h' hmem

/-- Lists of the same values are sorted into the same list. -/
theorem insertionSort_congr [DecidableRel fun a b : V => key a ≤ key b]
    (h : (l.map key).Nodup) (h' : (l'.map key).Nodup)
    (hmem : ∀ v, v ∈ l ↔ v ∈ l') :
    (l.insertionSort fun a b => key a ≤ key b) =
      l'.insertionSort fun a b => key a ≤ key b := by
  refine eq_of_sorted key (sorted_insertionSort key h)
    (sorted_insertionSort key h') fun v => ?_
  rw [List.mem_insertionSort, List.mem_insertionSort, hmem v]

theorem insertionSort_eq_self [DecidableRel fun a b : V => key a ≤ key b]
    (h : l.Pairwise fun a b => key a < key b) :
    (l.insertionSort fun a b => key a ≤ key b) = l :=
  (h.imp fun hab => hab.le).insertionSort_eq

theorem nodup_of_sorted (h : l.Pairwise fun a b => key a < key b) :
    (l.map key).Nodup :=
  List.pairwise_map.mpr (h.imp fun hab => ne_of_lt hab)

end PlatformGo.Ordered
