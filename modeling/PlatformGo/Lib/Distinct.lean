import Mathlib.Data.List.Nodup
import Mathlib.Data.List.Perm.Subperm

/-!
# Each item once

A loop that appends an item to its result unless it is there already. What it
makes of a list is the list with every repetition left out,
`List.eraseDups`: the first occurrence of each item stays, in its place.
-/

namespace PlatformGo.Distinct

variable {α : Type*} {l : List α}

/-- The loop, from the result so far. -/
def collect [DecidableEq α] : List α → List α → List α
  | result, [] => result
  | result, a :: l =>
      if a ∈ result then collect result l else collect (result ++ [a]) l

variable [BEq α] [LawfulBEq α]

theorem collect_eq [DecidableEq α] (result l : List α) :
    collect result l =
      result ++ (l.filter fun a => !decide (a ∈ result)).eraseDups := by
  induction l generalizing result with
  | nil => simp [collect]
  | cons a l ih =>
      rw [collect]
      split
      · next ha => rw [ih, List.filter_cons_of_neg (by simpa using ha)]
      · next ha =>
          rw [ih, List.filter_cons_of_pos (by simpa using ha),
            List.eraseDups_cons, List.filter_filter, List.append_assoc,
            List.singleton_append]
          congr 4
          ext b
          by_cases hb : b = a
          · simp [hb]
          · simp [hb]

theorem collect_nil_eq [DecidableEq α] (l : List α) : collect [] l = l.eraseDups := by
  rw [collect_eq]
  simp

theorem nodup_eraseDups (l : List α) : l.eraseDups.Nodup := by
  match l with
  | [] => exact List.nodup_nil
  | a :: l =>
      rw [List.eraseDups_cons, List.nodup_cons]
      refine ⟨?_, nodup_eraseDups _⟩
      simp
  termination_by l.length
  decreasing_by
    exact Nat.lt_succ_of_le (List.length_filter_le ..)

theorem eraseDups_of_nodup (h : l.Nodup) : l.eraseDups = l := by
  induction l with
  | nil => rfl
  | cons a l ih =>
      rw [List.nodup_cons] at h
      have hkeep : l.filter (fun b => !b == a) = l := by
        rw [List.filter_eq_self]
        intro b hb
        have hne : b ≠ a := fun heq => h.1 (heq ▸ hb)
        simpa using hne
      rw [List.eraseDups_cons, hkeep, ih h.2]

theorem length_eraseDups_le (l : List α) : l.eraseDups.length ≤ l.length := by
  refine ((nodup_eraseDups l).subperm ?_).length_le
  intro a ha
  exact List.mem_eraseDups.mp ha

end PlatformGo.Distinct
