import PlatformGo.Ref.Tree

/-!
# Where a walk stops

A visitor that returns false ends the loop it was called from, and with it one
call of `Walk`. That call has no result, so the loop of the caller does not
hear of it and goes on with the next sibling of the parent. The values visited
are therefore those up to the first false and then, for each ancestor of that
node from the inside out, whatever its later siblings give
(`visited_eq_stopAt_append`). Nothing comes after the false exactly when no
ancestor has a later sibling.
-/

namespace PlatformGo.Tree

variable {T : Type} {visit : T → Bool}

/-- Forests are built from a node's children and its later siblings. -/
theorem forest_induction {P : List (Node T) → Prop} (nil : P [])
    (node : ∀ value children forest, P children → P forest →
      P (.mk value children :: forest)) (forest : List (Node T)) : P forest :=
  @Node.rec_1 T (fun node => P node.children) P (fun _ _ h => h) nil
    (fun head tail hhead htail => by
      cases head with
      | mk value children => exact node value children tail hhead htail)
    forest

/-! ## The values visited -/

/-- The visitor that decides by the value alone, with a record of the calls. -/
def record (visit : T → Bool) (value : T) : StateM (List T) Bool := do
  modify (· ++ [value])
  return visit value

/-- The sequence of values `Walk` passes to the visitor. -/
def visited (visit : T → Bool) (forest : List (Node T)) : List T :=
  (walk (record visit) forest []).2

theorem walk_record_cons (value : T) (children forest : List (Node T))
    (before : List T) :
    walk (record visit) (.mk value children :: forest) before =
      if visit value then
        walk (record visit) forest
          (walk (record visit) children (before ++ [value])).2
      else ((), before ++ [value]) := by
  rw [walk, walkNode]
  cases hvisit : visit value with
  | true =>
      simp only [bind, StateT.bind, record, hvisit]
      rfl
  | false =>
      simp only [bind, StateT.bind, record, hvisit]
      rfl

theorem walk_record (forest : List (Node T)) (before : List T) :
    walk (record visit) forest before =
      ((), before ++ visited visit forest) := by
  induction forest using forest_induction generalizing before with
  | nil =>
      rw [visited, walk]
      exact congrArg (Prod.mk ()) (List.append_nil before).symm
  | node value children forest ihc ihf =>
      rw [visited, walk_record_cons, walk_record_cons]
      cases visit value with
      | true => simp [ihc, ihf]
      | false => simp

@[simp] theorem visited_nil : visited visit ([] : List (Node T)) = [] := by
  rw [visited, walk]
  rfl

@[simp] theorem visited_cons (value : T) (children forest : List (Node T)) :
    visited visit (.mk value children :: forest) =
      value :: if visit value then
        visited visit children ++ visited visit forest else [] := by
  rw [visited, walk_record_cons]
  cases visit value with
  | true => simp [walk_record]
  | false => simp

@[simp] theorem flatten_nil : flatten ([] : List (Node T)) = [] :=
  visited_nil

@[simp] theorem flatten_cons (value : T) (children forest : List (Node T)) :
    flatten (.mk value children :: forest) =
      value :: (flatten children ++ flatten forest) :=
  visited_cons value children forest

/-! ## Stopping -/

/-- The list up to and with the first value on which the visitor returns
false. -/
def stopAt (visit : T → Bool) : List T → List T
  | [] => []
  | value :: values => value :: if visit value then stopAt visit values else []

theorem stopAt_append_of_all {values : List T}
    (h : ∀ v ∈ values, visit v = true) (more : List T) :
    stopAt visit (values ++ more) = values ++ stopAt visit more := by
  induction values with
  | nil => rfl
  | cons v values ih =>
      rw [List.forall_mem_cons] at h
      rw [List.cons_append, stopAt, if_pos h.1, ih h.2, List.cons_append]

theorem stopAt_append_of_stop {values : List T}
    (h : ∃ v ∈ values, visit v = false) (more : List T) :
    stopAt visit (values ++ more) = stopAt visit values := by
  induction values with
  | nil =>
      obtain ⟨v, hv, _⟩ := h
      cases hv
  | cons v values ih =>
      rw [List.cons_append, stopAt, stopAt]
      cases hvisit : visit v with
      | false => rfl
      | true =>
          have hrest : ∃ w ∈ values, visit w = false := by
            obtain ⟨w, hw, hstop⟩ := h
            rcases List.mem_cons.mp hw with rfl | hw
            · rw [hvisit] at hstop
              cases hstop
            · exact ⟨w, hw, hstop⟩
          rw [ih hrest]

/-- Either no value stops the visitor or one does. -/
theorem all_or_stop (visit : T → Bool) (values : List T) :
    (∀ v ∈ values, visit v = true) ∨ ∃ v ∈ values, visit v = false := by
  by_cases h : ∃ v ∈ values, visit v = false
  · exact Or.inr h
  · refine Or.inl fun v hv => ?_
    rw [← Bool.not_eq_false]
    exact fun hstop => h ⟨v, hv, hstop⟩

theorem visited_of_all {forest : List (Node T)}
    (h : ∀ v ∈ flatten forest, visit v = true) :
    visited visit forest = flatten forest := by
  induction forest using forest_induction with
  | nil => rfl
  | node value children forest ihc ihf =>
      simp only [flatten_cons, List.mem_cons, List.mem_append] at h
      rw [visited_cons, flatten_cons, if_pos (h value (Or.inl rfl)),
        ihc fun v hv => h v (Or.inr (Or.inl hv)),
        ihf fun v hv => h v (Or.inr (Or.inr hv))]

/-- A walk gets as far as it should, and then there may be more. -/
theorem visited_eq_stopAt_append (visit : T → Bool)
    (forest : List (Node T)) :
    ∃ more, visited visit forest = stopAt visit (flatten forest) ++ more := by
  induction forest using forest_induction with
  | nil => exact ⟨[], rfl⟩
  | node value children forest ihc ihf =>
      rw [visited_cons, flatten_cons, stopAt]
      cases visit value with
      | false => exact ⟨[], by simp⟩
      | true =>
          rcases all_or_stop visit (flatten children) with hall | hstop
          · obtain ⟨more, hmore⟩ := ihf
            refine ⟨more, ?_⟩
            simp [visited_of_all hall, hmore, stopAt_append_of_all hall]
          · obtain ⟨more, hmore⟩ := ihc
            refine ⟨more ++ visited visit forest, ?_⟩
            simp [hmore, stopAt_append_of_stop hstop]

/-- The first node, in the order of the walk, on which the visitor returns
false, with the later siblings of its ancestors, the outermost first. -/
inductive FirstStop (visit : T → Bool) :
    List (Node T) → List (List (Node T)) → Prop
  | here {value : T} {children later : List (Node T)}
      (h : visit value = false) :
      FirstStop visit (.mk value children :: later) []
  | inside {value : T} {children later : List (Node T)}
      {laters : List (List (Node T))} (h : visit value = true)
      (hstop : FirstStop visit children laters) :
      FirstStop visit (.mk value children :: later) (later :: laters)
  | after {value : T} {children later : List (Node T)}
      {laters : List (List (Node T))} (h : visit value = true)
      (hall : ∀ v ∈ flatten children, visit v = true)
      (hstop : FirstStop visit later laters) :
      FirstStop visit (.mk value children :: later) laters

theorem FirstStop.exists_false {forest : List (Node T)}
    {laters : List (List (Node T))} (h : FirstStop visit forest laters) :
    ∃ v ∈ flatten forest, visit v = false := by
  induction h with
  | here h => exact ⟨_, by simp, h⟩
  | inside _ _ ih =>
      obtain ⟨v, hv, hstop⟩ := ih
      exact ⟨v, by simp [hv], hstop⟩
  | after _ _ _ ih =>
      obtain ⟨v, hv, hstop⟩ := ih
      exact ⟨v, by simp [hv], hstop⟩

theorem exists_firstStop {forest : List (Node T)}
    (h : ∃ v ∈ flatten forest, visit v = false) :
    ∃ laters, FirstStop visit forest laters := by
  induction forest using forest_induction with
  | nil =>
      obtain ⟨v, hv, _⟩ := h
      cases hv
  | node value children forest ihc ihf =>
      cases hvisit : visit value with
      | false => exact ⟨[], .here hvisit⟩
      | true =>
          rcases all_or_stop visit (flatten children) with hall | hstop
          · have hrest : ∃ v ∈ flatten forest, visit v = false := by
              obtain ⟨v, hv, hfalse⟩ := h
              rw [flatten_cons, List.mem_cons, List.mem_append] at hv
              rcases hv with rfl | hv | hv
              · rw [hvisit] at hfalse
                cases hfalse
              · rw [hall v hv] at hfalse
                cases hfalse
              · exact ⟨v, hv, hfalse⟩
            obtain ⟨laters, hlaters⟩ := ihf hrest
            exact ⟨laters, .after hvisit hall hlaters⟩
          · obtain ⟨laters, hlaters⟩ := ihc hstop
            exact ⟨forest :: laters, .inside hvisit hlaters⟩

theorem visited_eq_nil (visit : T → Bool) {forest : List (Node T)} :
    visited visit forest = [] ↔ forest = [] := by
  cases forest with
  | nil => simp
  | cons node forest =>
      cases node
      simp

/-- No ancestor of the first node on which the visitor returns false has a
later sibling. -/
def StopsLast (visit : T → Bool) (forest : List (Node T)) : Prop :=
  ∀ laters, FirstStop visit forest laters → ∀ later ∈ laters, later = []

theorem stopsLast_cons_false {value : T} (h : visit value = false)
    (children forest : List (Node T)) :
    StopsLast visit (.mk value children :: forest) := by
  intro laters hstop
  cases hstop with
  | here => simp
  | inside htrue | after htrue =>
      rw [h] at htrue
      cases htrue

theorem stopsLast_cons_of_all {value : T} {children : List (Node T)}
    (h : visit value = true)
    (hall : ∀ v ∈ flatten children, visit v = true)
    (forest : List (Node T)) :
    StopsLast visit (.mk value children :: forest) ↔
      StopsLast visit forest := by
  constructor
  · exact fun hlast laters hstop => hlast laters (.after h hall hstop)
  · intro hlast laters hstop
    cases hstop with
    | here hfalse =>
        rw [h] at hfalse
        cases hfalse
    | inside _ hstop =>
        obtain ⟨v, hv, hfalse⟩ := hstop.exists_false
        rw [hall v hv] at hfalse
        cases hfalse
    | after _ _ hstop => exact hlast laters hstop

theorem stopsLast_cons_of_stop {value : T} {children : List (Node T)}
    (h : visit value = true)
    (hfalse : ∃ v ∈ flatten children, visit v = false)
    (forest : List (Node T)) :
    StopsLast visit (.mk value children :: forest) ↔
      StopsLast visit children ∧ forest = [] := by
  constructor
  · intro hlast
    obtain ⟨laters, hstop⟩ := exists_firstStop hfalse
    have hnil := hlast _ (.inside h hstop)
    refine ⟨fun laters' hstop' later hlater => ?_,
      hnil forest List.mem_cons_self⟩
    exact hlast _ (.inside h hstop') later (List.mem_cons_of_mem _ hlater)
  · rintro ⟨hlast, rfl⟩ laters hstop
    cases hstop with
    | here hvisit =>
        rw [h] at hvisit
        cases hvisit
    | inside _ hstop =>
        exact List.forall_mem_cons.mpr ⟨rfl, hlast _ hstop⟩
    | after _ hall =>
        obtain ⟨v, hv, hvisit⟩ := hfalse
        rw [hall v hv] at hvisit
        cases hvisit

/-- For every forest and every visitor that decides by the value: the values
visited are those of `Flatten` up to the first false if and only if no
ancestor of the node that stops has a later sibling. -/
theorem walk_stops_iff (visit : T → Bool) (forest : List (Node T)) :
    visited visit forest = stopAt visit (flatten forest) ↔
      StopsLast visit forest := by
  induction forest using forest_induction with
  | nil =>
      simp only [visited_nil, flatten_nil, stopAt, true_iff]
      intro laters hstop
      cases hstop
  | node value children forest ihc ihf =>
      rw [visited_cons, flatten_cons, stopAt, List.cons.injEq]
      cases hvisit : visit value with
      | false => simp [stopsLast_cons_false hvisit]
      | true =>
          simp only [true_and, if_true]
          rcases all_or_stop visit (flatten children) with hall | hstop
          · rw [visited_of_all hall, stopAt_append_of_all hall,
              List.append_cancel_left_eq, ihf,
              stopsLast_cons_of_all hvisit hall]
          · -- The prefix is in the children; whatever else there is must go.
            rw [stopAt_append_of_stop hstop,
              stopsLast_cons_of_stop hvisit hstop, ← ihc,
              ← visited_eq_nil visit]
            obtain ⟨more, hmore⟩ := visited_eq_stopAt_append visit children
            rw [hmore, List.append_assoc]
            simp

/-- A node with a child that stops the visitor, and its sibling. -/
def stopInside : List (Node Nat) := [.mk 1 [.mk 2 []], .mk 3 []]

theorem walk_goes_on :
    visited (· ≠ 2) stopInside = [1, 2, 3] ∧
      stopAt (· ≠ 2) (flatten stopInside) = [1, 2] ∧
      visited (· ≠ 2) stopInside ≠ stopAt (· ≠ 2) (flatten stopInside) := by
  decide

end PlatformGo.Tree
