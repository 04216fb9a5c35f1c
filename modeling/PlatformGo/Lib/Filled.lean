import Mathlib.Data.List.AList
import Mathlib.Data.List.Induction

/-!
# A map filled by a loop

A loop stores one value for each item of a list, under a key of the item. The
map then holds for a key the value of the last item that has it, and what it
held before for a key that none has (`lookup_fill`). Two cases are used on
their own: no item with the key, and items whose keys are distinct, where the
order of the loop does not matter.
-/

namespace PlatformGo.Filled

variable {α K V : Type*} [DecidableEq K] {key : α → K} {value : α → V}
  {items : List α} {m : AList fun _ : K => V} {a : α} {k : K}

def fill (key : α → K) (value : α → V) (items : List α)
    (m : AList fun _ : K => V) : AList fun _ : K => V :=
  items.foldl (fun m item => m.insert (key item) (value item)) m

@[simp] theorem fill_nil : fill key value [] m = m := rfl

theorem fill_cons :
    fill key value (a :: items) m =
      fill key value items (m.insert (key a) (value a)) := rfl

theorem lookup_fill_other (h : ∀ a ∈ items, key a ≠ k) :
    (fill key value items m).lookup k = m.lookup k := by
  induction items generalizing m with
  | nil => rfl
  | cons a items ih =>
      rw [List.forall_mem_cons] at h
      rw [fill_cons, ih h.2]
      exact AList.lookup_insert_ne (Ne.symm h.1)

/-- The last item with a key decides. -/
theorem lookup_fill (items : List α) (m : AList fun _ : K => V) (k : K) :
    (fill key value items m).lookup k =
      ((items.filter fun a => key a = k).getLast?.map value).or
        (m.lookup k) := by
  induction items using List.reverseRecOn with
  | nil => rfl
  | append_singleton items a ih =>
      rw [fill, List.foldl_append, List.filter_append]
      show ((fill key value items m).insert (key a) (value a)).lookup k = _
      by_cases h : key a = k
      · subst h
        rw [AList.lookup_insert]
        simp
      · rw [AList.lookup_insert_ne (Ne.symm h), ih]
        simp [h]

theorem lookup_fill_of_mem (h : (items.map key).Nodup) (ha : a ∈ items) :
    (fill key value items m).lookup (key a) = some (value a) := by
  induction items generalizing m with
  | nil => cases ha
  | cons b items ih =>
      rw [List.map_cons, List.nodup_cons] at h
      rw [fill_cons]
      rcases List.mem_cons.mp ha with rfl | ha
      · rw [lookup_fill_other]
        · exact AList.lookup_insert _
        · intro b hb heq
          exact h.1 (heq ▸ List.mem_map_of_mem hb)
      · exact ih h.2 ha

end PlatformGo.Filled
