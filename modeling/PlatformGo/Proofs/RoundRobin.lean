import Mathlib.Data.List.Rotate
import PlatformGo.Ref.Discovery

/-!
# Weighted round robin

`Pick` makes a list of the usable instances, each as often as its weight, and
takes the element the cursor points at, modulo the length. Both `Pick` and
`Instances` filter the snapshot by a copy of the same test; `Discovery.listed`
is the list they share.

As long as the clock stands still and the cursor does not wrap, consecutive
calls read the weighted list from the cursor on and around its end. As many
calls as the list is long therefore return a rotation of it, from whichever
place they start.
-/

namespace PlatformGo.ServiceRegistry

variable {d : Discovery} {clock : Nat → Time}

/-! ## The list behind both methods -/

/-- The instances that pass the test, none if the snapshot is too old. -/
def Discovery.listed (d : Discovery) (clock : Nat → Time) :
    List ServiceInstance :=
  ((d.fresh (clock 0)).map (d.available clock)).getD []

def Discovery.weighted (d : Discovery) (clock : Nat → Time) :
    List ServiceInstance :=
  (d.listed clock).flatMap repeated

theorem instances_eq (d : Discovery) (clock : Nat → Time) :
    d.instances clock =
      match d.listed clock with
      | [] => .error errNoHealthyInstance
      | values => .ok values := by
  rw [Discovery.instances, Discovery.listed]
  cases d.fresh (clock 0) <;> rfl

theorem instances_eq_ok {values : List ServiceInstance} :
    d.instances clock = .ok values ↔
      d.listed clock = values ∧ values ≠ [] := by
  rw [instances_eq]
  split
  · next h =>
      rw [h]
      constructor
      · intro heq
        cases heq
      · rintro ⟨rfl, hne⟩
        exact absurd rfl hne
  · next hne =>
      constructor
      · intro heq
        cases heq
        exact ⟨rfl, hne⟩
      · rintro ⟨rfl, -⟩
        rfl

theorem instances_fails_iff :
    (∃ err, d.instances clock = .error err) ↔ d.listed clock = [] := by
  rw [instances_eq]
  split
  · next h => simp [h]
  · next hne => simpa using hne

/-- `Pick` reads the weighted list at the cursor. -/
theorem pick_eq (d : Discovery) (clock : Nat → Time) :
    d.pick clock =
      match (d.weighted clock)[d.cursor % (d.weighted clock).length]? with
      | none => .error errNoHealthyInstance
      | some value =>
          .ok ({ d with cursor := (d.cursor + 1) % 2 ^ 64 }, value) := by
  rw [Discovery.pick, Discovery.weighted, Discovery.listed]
  cases d.fresh (clock 0) <;> rfl

theorem repeated_eq (value : ServiceInstance) :
    repeated value = List.replicate (max value.weight 1) value := by
  rw [repeated]
  congr 1
  split <;> omega

theorem weighted_eq_nil_iff : d.weighted clock = [] ↔ d.listed clock = [] := by
  have hne : ∀ value, repeated value ≠ [] := by
    intro value
    rw [repeated_eq, Ne, List.replicate_eq_nil_iff]
    omega
  rw [Discovery.weighted, List.flatMap_eq_nil_iff, List.eq_nil_iff_forall_not_mem]
  exact forall_congr' fun value => imp_congr_right fun _ => iff_false_intro (hne value)

theorem pick_ok (h : d.listed clock ≠ []) :
    ∃ value ∈ d.weighted clock,
      (d.weighted clock)[d.cursor % (d.weighted clock).length]? = some value ∧
      d.pick clock =
        .ok ({ d with cursor := (d.cursor + 1) % 2 ^ 64 }, value) := by
  have hlength : 0 < (d.weighted clock).length :=
    List.length_pos_iff.mpr fun hnil => h (weighted_eq_nil_iff.mp hnil)
  have hget := List.getElem?_eq_getElem (Nat.mod_lt d.cursor hlength)
  refine ⟨_, List.getElem_mem _, hget, ?_⟩
  rw [pick_eq, hget]

theorem pick_fails_iff :
    (∃ err, d.pick clock = .error err) ↔ d.listed clock = [] := by
  by_cases h : d.listed clock = []
  · rw [pick_eq, weighted_eq_nil_iff.mpr h]
    simp [h]
  · obtain ⟨value, -, -, hpick⟩ := pick_ok h
    simp [hpick, h]

theorem mem_weighted {value : ServiceInstance} :
    value ∈ d.weighted clock → value ∈ d.listed clock := by
  intro h
  obtain ⟨value', hlisted, hrep⟩ := List.mem_flatMap.mp h
  rwa [List.eq_of_mem_replicate hrep]

/-! ## Consecutive calls -/

/-- What so many calls of `Pick` return, one after the other. -/
def Discovery.picks (d : Discovery) (clock : Nat → Time) :
    Nat → Except GoErr (List ServiceInstance)
  | 0 => .ok []
  | n + 1 =>
      match d.pick clock with
      | .error err => .error err
      | .ok (d', value) => (d'.picks clock n).map (value :: ·)

/-- The calls go along the weighted list and around its end. -/
theorem picks_spec (h : d.listed clock ≠ []) {n : Nat}
    (hcursor : d.cursor + n ≤ 2 ^ 64) :
    ∃ values, d.picks clock n = .ok values ∧ values.length = n ∧
      ∀ i < n, values[i]? =
        (d.weighted clock)[(i + d.cursor) % (d.weighted clock).length]? := by
  induction n generalizing d with
  | zero => exact ⟨[], rfl, rfl, by simp⟩
  | succ n ih =>
      obtain ⟨value, -, hget, hpick⟩ := pick_ok h
      obtain ⟨values, hpicks, hlength, hvalues⟩ :=
        ih (d := { d with cursor := (d.cursor + 1) % 2 ^ 64 }) h
          (by dsimp only; omega)
      refine ⟨value :: values, ?_, by simp [hlength], ?_⟩
      · rw [Discovery.picks, hpick]
        dsimp only
        rw [hpicks]
        rfl
      · intro i hi
        cases i with
        | zero => simpa using hget.symm
        | succ i =>
            -- There is another call, so the cursor has not wrapped.
            have hnext : (d.cursor + 1) % 2 ^ 64 = d.cursor + 1 :=
              Nat.mod_eq_of_lt (by omega)
            have hi' := hvalues i (by omega)
            dsimp only at hi'
            rw [hnext] at hi'
            rw [List.getElem?_cons_succ, hi', Nat.add_right_comm i 1,
              Nat.add_assoc i]
            rfl

/-- As many calls as the weighted list is long return a rotation of it. -/
theorem picks_rotate (h : d.listed clock ≠ [])
    (hcursor : d.cursor + (d.weighted clock).length ≤ 2 ^ 64) :
    d.picks clock (d.weighted clock).length =
      .ok ((d.weighted clock).rotate d.cursor) := by
  obtain ⟨values, hpicks, hlength, hvalues⟩ := picks_spec h hcursor
  rw [hpicks]
  congr 1
  refine List.ext_getElem? fun i => ?_
  by_cases hi : i < (d.weighted clock).length
  · rw [hvalues i hi, List.getElem?_rotate hi]
  · rw [List.getElem?_eq_none (by omega), List.getElem?_eq_none (by simpa using hi)]

/-! ## How often an instance is returned -/

def totalWeight : List ServiceInstance → Nat
  | [] => 0
  | value :: values => max value.weight 1 + totalWeight values

theorem length_flatMap_repeated (values : List ServiceInstance) :
    (values.flatMap repeated).length = totalWeight values := by
  induction values with
  | nil => rfl
  | cons value values ih =>
      rw [List.flatMap_cons, List.length_append, ih, repeated_eq,
        List.length_replicate, totalWeight]

theorem count_flatMap_repeated (value : ServiceInstance)
    (values : List ServiceInstance) :
    (values.flatMap repeated).count value =
      values.count value * max value.weight 1 := by
  induction values with
  | nil => simp
  | cons other values ih =>
      rw [List.flatMap_cons, List.count_append, ih, repeated_eq,
        List.count_replicate, List.count_cons]
      by_cases h : other = value
      · subst h
        simp [Nat.add_mul, Nat.add_comm]
      · simp [h]

/-- With the clock standing still, `Pick` fails exactly when `Instances` does
and otherwise returns one of its elements; and as many consecutive calls as the
weights add up to return every listed instance as often as its weight says, the
weight 0 counting as 1. -/
theorem pick_round_robin (d : Discovery) (now : Time) :
    ((∃ err, d.pick (fun _ => now) = .error err) ↔
      ∃ err, d.instances (fun _ => now) = .error err) ∧
    ∀ values, d.instances (fun _ => now) = .ok values →
      (∃ d' value, d.pick (fun _ => now) = .ok (d', value) ∧
        value ∈ values) ∧
      (d.cursor + totalWeight values ≤ 2 ^ 64 →
        ∃ picked, d.picks (fun _ => now) (totalWeight values) = .ok picked ∧
          picked.length = totalWeight values ∧
          ∀ value, picked.count value =
            values.count value * max value.weight 1) := by
  refine ⟨pick_fails_iff.trans instances_fails_iff.symm, ?_⟩
  intro values hvalues
  obtain ⟨rfl, hne⟩ := instances_eq_ok.mp hvalues
  constructor
  · obtain ⟨value, hmem, -, hpick⟩ := pick_ok hne
    exact ⟨_, value, hpick, mem_weighted hmem⟩
  · rw [← length_flatMap_repeated]
    intro hcursor
    refine ⟨_, picks_rotate hne hcursor, List.length_rotate _ _, ?_⟩
    intro value
    rw [(List.rotate_perm _ _).count_eq]
    exact count_flatMap_repeated value _

/-- Two instances of weight 2 and without a weight, the cursor at 7: of three
calls the first one gets two and the second one gets one. -/
theorem pick_round_robin_two :
    let a : ServiceInstance := { instanceId := "a", status := .healthy, weight := 2 }
    let b : ServiceInstance := { instanceId := "b", status := .healthy }
    let d : Discovery := {
      config := { maxStale := minute }, snapshot := some ⟨1, 0, [a, b]⟩
      cursor := 7 }
    d.instances (fun _ => second) = .ok [a, b] ∧
      ∃ picked, d.picks (fun _ => second) 3 = .ok picked ∧
        picked.length = 3 ∧ picked.count a = 2 ∧ picked.count b = 1 := by
  intro a b d
  have hlisted : d.instances (fun _ => second) = .ok [a, b] := by decide +kernel
  obtain ⟨picked, hpicked, hlength, hcount⟩ :=
    ((pick_round_robin d second).2 [a, b] hlisted).2 (by decide)
  exact ⟨hlisted, picked, hpicked, hlength, hcount a, hcount b⟩

end PlatformGo.ServiceRegistry
