import PlatformGo.Ref.RoutePolicy

/-!
# A snapshot is replaced as a whole or not at all

The loop of `Replace` builds its map on the side, so all that a call half way
through a list has to answer for is what the rest of the list will make of the
map: `replaceAll` is the loop run to its end, and what it leads to does not
change while a call goes on (`Story`). It succeeds exactly on the lists whose
route ids are there and distinct and whose definitions compile, and the map it
then yields holds for each route the policy of its definition.

The one step others can see is the store. Without it a call leaves no trace:
the run with all its steps taken out goes on as before (`run_without`).
-/

namespace PlatformGo.RoutePolicy

open Lts

variable {Ast Program : Type} {c : Compiler Ast Program}

/-! ## The loop of `Replace` -/

/-- The loop, from a map. -/
def Compiler.replaceAll (c : Compiler Ast Program) :
    Policies Program → List Definition → Except GoErr (Policies Program)
  | next, [] => .ok next
  | next, definition :: rest =>
      match c.addPolicy next definition with
      | .ok next => c.replaceAll next rest
      | .error err => .error err

theorem addPolicy_ok {next next' : Policies Program} {d : Definition} :
    c.addPolicy next d = .ok next' ↔
      d.routeID ≠ "" ∧ d.routeID ∉ next ∧
      ∃ p, c.compile d = .ok p ∧ next.insert d.routeID p = next' := by
  rw [Compiler.addPolicy]
  by_cases hempty : d.routeID = ""
  · simp [hempty]
  · cases hcompile : c.compile d with
    | error err => simp [hempty]
    | ok p =>
        by_cases hmem : d.routeID ∈ next
        · simp [hempty, hmem]
        · simp [hempty, hmem]

/-- What `Replace` asks of a list. -/
structure Acceptable (c : Compiler Ast Program) (ds : List Definition) :
    Prop where
  named : ∀ d ∈ ds, d.routeID ≠ ""
  distinct : (ds.map Definition.routeID).Nodup
  compiles : ∀ d ∈ ds, ∃ p, c.compile d = .ok p

theorem acceptable_cons {d : Definition} {ds : List Definition} :
    Acceptable c (d :: ds) ↔
      (d.routeID ≠ "" ∧ ∃ p, c.compile d = .ok p) ∧
      (∀ d' ∈ ds, d'.routeID ≠ d.routeID) ∧ Acceptable c ds := by
  constructor
  · intro ⟨hnamed, hdistinct, hcompiles⟩
    rw [List.map_cons, List.nodup_cons] at hdistinct
    refine ⟨⟨hnamed d List.mem_cons_self, hcompiles d List.mem_cons_self⟩,
      fun d' hd' heq => ?_, ⟨fun d' hd' => ?_, hdistinct.2, fun d' hd' => ?_⟩⟩
    · exact hdistinct.1 (heq ▸ List.mem_map_of_mem hd')
    · exact hnamed d' (List.mem_cons_of_mem _ hd')
    · exact hcompiles d' (List.mem_cons_of_mem _ hd')
  · intro ⟨⟨hname, hcompile⟩, hother, hnamed, hdistinct, hcompiles⟩
    refine ⟨List.forall_mem_cons.mpr ⟨hname, hnamed⟩, ?_,
      List.forall_mem_cons.mpr ⟨hcompile, hcompiles⟩⟩
    rw [List.map_cons, List.nodup_cons]
    refine ⟨fun hmem => ?_, hdistinct⟩
    obtain ⟨d', hd', heq⟩ := List.mem_map.mp hmem
    exact hother d' hd' heq

theorem replaceAll_ok_iff {next : Policies Program} {ds : List Definition} :
    (∃ m, c.replaceAll next ds = .ok m) ↔
      (∀ d ∈ ds, d.routeID ∉ next) ∧ Acceptable c ds := by
  induction ds generalizing next with
  | nil =>
      simp only [Compiler.replaceAll, Except.ok.injEq, exists_eq', true_iff]
      exact ⟨by simp, by simp, by simp, by simp⟩
  | cons d ds ih =>
      rw [Compiler.replaceAll, acceptable_cons, List.forall_mem_cons]
      cases hadd : c.addPolicy next d with
      | error err =>
          have hnot : ¬ (d.routeID ≠ "" ∧ d.routeID ∉ next ∧
              ∃ p, c.compile d = .ok p) := by
            intro ⟨hname, hfree, p, hp⟩
            have hok := addPolicy_ok.mpr ⟨hname, hfree, p, hp, rfl⟩
            rw [hadd] at hok
            cases hok
          simp only [reduceCtorEq, exists_false, false_iff]
          intro ⟨⟨hfree, _⟩, ⟨hname, hcompile⟩, _⟩
          exact hnot ⟨hname, hfree, hcompile⟩
      | ok next' =>
          obtain ⟨hname, hfree, p, hp, rfl⟩ := addPolicy_ok.mp hadd
          simp only [ih, AList.mem_insert, not_or]
          constructor
          · intro ⟨hrest, hacc⟩
            exact ⟨⟨hfree, fun d' hd' => (hrest d' hd').2⟩,
              ⟨hname, p, hp⟩, fun d' hd' => (hrest d' hd').1, hacc⟩
          · intro ⟨⟨_, hrest⟩, _, hother, hacc⟩
            exact ⟨fun d' hd' => ⟨hother d' hd', hrest d' hd'⟩, hacc⟩

/-- The definition of a route, and what it compiles to. -/
def policyOf (c : Compiler Ast Program) (ds : List Definition)
    (routeID : String) : Option (Policy Program) :=
  (ds.find? fun d => d.routeID = routeID).bind fun d =>
    (c.compile d).toOption

theorem policyOf_eq_none {ds : List Definition} {routeID : String}
    (h : ∀ d ∈ ds, d.routeID ≠ routeID) : policyOf c ds routeID = none := by
  have hfind : (ds.find? fun d => d.routeID = routeID) = none := by
    simpa [List.find?_eq_none] using h
  rw [policyOf, hfind, Option.bind_none]

theorem lookup_replaceAll {next m : Policies Program} {ds : List Definition}
    (h : c.replaceAll next ds = .ok m) (routeID : String) :
    m.lookup routeID =
      if ∃ d ∈ ds, d.routeID = routeID then policyOf c ds routeID
      else next.lookup routeID := by
  induction ds generalizing next with
  | nil =>
      rw [Compiler.replaceAll, Except.ok.injEq] at h
      simp [h]
  | cons d ds ih =>
      rw [Compiler.replaceAll] at h
      cases hadd : c.addPolicy next d with
      | error err => rw [hadd] at h; cases h
      | ok next' =>
          rw [hadd] at h
          obtain ⟨hname, hfree, p, hp, rfl⟩ := addPolicy_ok.mp hadd
          have hother := (replaceAll_ok_iff.mp ⟨m, h⟩).1
          simp only [AList.mem_insert, not_or] at hother
          rw [ih h]
          by_cases hroute : d.routeID = routeID
          · subst hroute
            have hnone : ¬ ∃ d' ∈ ds, d'.routeID = d.routeID :=
              fun ⟨d', hd', heq⟩ => (hother d' hd').1 heq
            rw [if_neg hnone, AList.lookup_insert,
              if_pos ⟨d, List.mem_cons_self, rfl⟩, policyOf,
              List.find?_cons_of_pos (by simp), Option.bind_some, hp]
            rfl
          · have hpolicy : policyOf c (d :: ds) routeID =
                policyOf c ds routeID := by
              rw [policyOf, List.find?_cons_of_neg (by simpa using hroute)]
              rfl
            rw [AList.lookup_insert_ne (Ne.symm hroute), hpolicy]
            simp [hroute]

/-- The map of a list that was accepted. -/
theorem lookup_of_replaceAll {m : Policies Program} {ds : List Definition}
    (h : c.replaceAll ∅ ds = .ok m) (routeID : String) :
    m.lookup routeID = policyOf c ds routeID := by
  rw [lookup_replaceAll h]
  split
  · rfl
  · next hnone =>
      rw [AList.lookup_empty, policyOf_eq_none fun d hd heq =>
        hnone ⟨d, hd, heq⟩]

theorem policyOf_of_mem {ds : List Definition} {d : Definition}
    (hacc : Acceptable c ds) (hd : d ∈ ds) :
    ∃ p, c.compile d = .ok p ∧ policyOf c ds d.routeID = some p := by
  obtain ⟨p, hp⟩ := hacc.compiles d hd
  refine ⟨p, hp, ?_⟩
  cases hfind : ds.find? fun d' => d'.routeID = d.routeID with
  | none =>
      have := List.find?_eq_none.mp hfind d hd
      simp at this
  | some d' =>
      have heq : d' = d := List.inj_on_of_nodup_map hacc.distinct
        (List.mem_of_find?_eq_some hfind) hd
        (by simpa using List.find?_some hfind)
      rw [policyOf, hfind, Option.bind_some, heq, hp]
      rfl

/-! ## Steps -/

variable {b b' : Board Program} {n : Nat} {a : Action}

theorem step_cases (h : c.step b (n, a) = some b') :
    (∃ ds next, a = .store ds ∧ b.tasks n = .replacing ds [] next ∧
      b' = { value := next
             tasks := Function.update b.tasks n (.returned none) }) ∨
    ∃ task, c.advance b.value (b.tasks n) a = some task ∧
      b' = { b with tasks := Function.update b.tasks n task } := by
  cases a with
  | store ds =>
      simp only [Compiler.step] at h
      split at h
      · next hn =>
          split at h
          · next hds =>
              cases h
              exact Or.inl ⟨ds, _, rfl, hds ▸ hn, rfl⟩
          · cases h
      · cases h
  | replace | reload | loadReturn | compileNext | evaluate | answer =>
      obtain ⟨task, htask, rfl⟩ := Option.map_eq_some_iff.mp h
      exact Or.inr ⟨task, htask, rfl⟩

theorem step_of_store {ds : List Definition} {next : Policies Program}
    (h : b.tasks n = .replacing ds [] next) :
    c.step b (n, .store ds) = some
      { value := next
        tasks := Function.update b.tasks n (.returned none) } := by
  simp only [Compiler.step, h, if_true]

theorem step_others (h : c.step b (n, a) = some b') {m : Nat} (hm : m ≠ n) :
    b'.tasks m = b.tasks m := by
  rcases step_cases h with ⟨ds, next, _, _, rfl⟩ | ⟨task, _, rfl⟩
  · exact Function.update_of_ne hm ..
  · exact Function.update_of_ne hm ..

/-- The steps of a call by itself, for the map in force at that step. -/
inductive Advance (c : Compiler Ast Program) (value : Policies Program) :
    Task Program → Action → Task Program → Prop
  | replace {ds : List Definition} :
      Advance c value .idle (.replace ds) (.replacing ds ds ∅)
  | reload : Advance c value .idle .reload .loading
  | loaded {ds : List Definition} :
      Advance c value .loading (.loadReturn (.ok ds)) (.replacing ds ds ∅)
  | loadFailed {err : GoErr} :
      Advance c value .loading (.loadReturn (.error err))
        (.returned (some (.wrap "load route policies" err)))
  | compiled {ds rest : List Definition} {d : Definition}
      {next next' : Policies Program} (h : c.addPolicy next d = .ok next') :
      Advance c value (.replacing ds (d :: rest) next) .compileNext
        (.replacing ds rest next')
  | compileFailed {ds rest : List Definition} {d : Definition}
      {next : Policies Program} {err : GoErr}
      (h : c.addPolicy next d = .error err) :
      Advance c value (.replacing ds (d :: rest) next) .compileNext
        (.returned (some err))
  | evaluate {routeID : String} {ctx : Auth.Context}
      {authorizer : Option Authz.Authorizer} :
      Advance c value .idle (.evaluate routeID ctx authorizer)
        (.evaluating routeID ctx authorizer (value.lookup routeID))
  | missing {routeID : String} {ctx : Auth.Context}
      {authorizer : Option Authz.Authorizer}
      {order : List (String × Permission)} :
      Advance c value (.evaluating routeID ctx authorizer none) (.answer order)
        (.evaluated (some (c.missing routeID)))
  | answer {routeID : String} {ctx : Auth.Context}
      {authorizer : Option Authz.Authorizer} {p : Policy Program}
      {order : List (String × Permission)}
      (h : order.Perm (p.definition.permissions.entries.map
        fun e => (e.1, e.2))) :
      Advance c value (.evaluating routeID ctx authorizer (some p))
        (.answer order) (.evaluated (c.evaluate p ctx authorizer order))

theorem advance_of {value : Policies Program} {task task' : Task Program}
    (h : c.advance value task a = some task') :
    Advance c value task a task' := by
  unfold Compiler.advance at h
  split at h
  · cases h
    exact .replace
  · cases h
    exact .reload
  · cases h
    exact .loaded
  · cases h
    exact .loadFailed
  · split at h
    · next hadd =>
        cases h
        exact .compiled hadd
    · next hadd =>
        cases h
        exact .compileFailed hadd
  · cases h
    exact .evaluate
  · cases h
    exact .missing
  · split at h
    · next hperm =>
        cases h
        exact .answer hperm
    · cases h
  · cases h

theorem step_of_advance {task : Task Program}
    (h : c.advance b.value (b.tasks n) a = some task) :
    c.step b (n, a) =
      some { b with tasks := Function.update b.tasks n task } := by
  cases a with
  | store ds =>
      generalize b.tasks n = start, advance_of h = hadvance
      cases hadvance
  | replace | reload | loadReturn | compileNext | evaluate | answer =>
      simp only [Compiler.step, h, Option.map_some]

/-! ## What a call has been given and what it leads to -/

/-- Among the actions of a call: the definitions its `Replace` works on. -/
def Given (l : List Action) (ds : List Definition) : Prop :=
  .replace ds ∈ l ∨ .loadReturn (.ok ds) ∈ l

theorem given_snoc {l : List Action} {ds : List Definition} :
    Given (l ++ [a]) ds ↔
      Given l ds ∨ a = .replace ds ∨ a = .loadReturn (.ok ds) := by
  simp only [Given, List.mem_append, List.mem_singleton]
  constructor
  · rintro ((h | h) | (h | h))
    · exact Or.inl (Or.inl h)
    · exact Or.inr (Or.inl h.symm)
    · exact Or.inl (Or.inr h)
    · exact Or.inr (Or.inr h.symm)
  · rintro ((h | h) | (h | h))
    · exact Or.inl (Or.inl h)
    · exact Or.inr (Or.inl h)
    · exact Or.inl (Or.inr h.symm)
    · exact Or.inr (Or.inr h.symm)

/-- How far a call is, told by its own actions. -/
def Story (c : Compiler Ast Program) (l : List Action) : Task Program → Prop
  | .idle => l = []
  | .replacing ds rest next =>
      (∀ ds', Given l ds' ↔ ds' = ds) ∧ (∀ ds', .store ds' ∉ l) ∧
        c.replaceAll ∅ ds = c.replaceAll next rest
  | .returned err =>
      (err = none → ∃ ds, Given l ds) ∧
        (∀ ds, Given l ds → (err = none ↔ ∃ m, c.replaceAll ∅ ds = .ok m)) ∧
        ∀ ds, .store ds ∈ l ↔ Given l ds ∧ err = none
  | .loading | .evaluating .. | .evaluated _ =>
      (∀ ds, ¬ Given l ds) ∧ ∀ ds, .store ds ∉ l

theorem story_advance {l : List Action} {value : Policies Program}
    {task task' : Task Program} (hs : Story c l task)
    (h : Advance c value task a task') : Story c (l ++ [a]) task' := by
  cases h with
  | replace =>
      obtain rfl : l = [] := hs
      refine ⟨fun ds' => ?_, fun ds' => ?_, rfl⟩
      · simp [Given, eq_comm]
      · simp
  | reload | evaluate =>
      obtain rfl : l = [] := hs
      exact ⟨fun ds => by simp [Given], fun ds => by simp⟩
  | loaded =>
      obtain ⟨hgiven, hstore⟩ := hs
      refine ⟨fun ds' => ?_, fun ds' => ?_, rfl⟩
      · simp [given_snoc, hgiven, eq_comm]
      · simp [hstore]
  | @loadFailed err =>
      obtain ⟨hgiven, hstore⟩ := hs
      have hnone : ∀ ds, ¬ Given (l ++ [.loadReturn (.error err)]) ds :=
        fun ds => by simp [given_snoc, hgiven]
      exact ⟨by simp, fun ds h => absurd h (hnone ds), fun ds => by
        simp [hstore]⟩
  | compiled hadd =>
      obtain ⟨hgiven, hstore, hall⟩ := hs
      refine ⟨fun ds' => by simp [given_snoc, hgiven], fun ds' => by
        simp [hstore], ?_⟩
      rw [hall, Compiler.replaceAll, hadd]
  | compileFailed hadd =>
      obtain ⟨hgiven, hstore, hall⟩ := hs
      rw [Compiler.replaceAll, hadd] at hall
      refine ⟨by simp, fun ds' h => ?_, fun ds' => by simp [hstore]⟩
      rw [given_snoc, hgiven] at h
      obtain rfl : ds' = _ := h.resolve_right (by simp)
      simp [hall]
  | missing | answer =>
      obtain ⟨hgiven, hstore⟩ := hs
      exact ⟨fun ds => by simp [given_snoc, hgiven], fun ds => by
        simp [hstore]⟩

theorem story_run {as : List (Nat × Action)}
    (hrun : run c.step {} as = some b) (n : Nat) :
    Story c (own n as) (b.tasks n) := by
  refine run_history (P := fun as (b : Board Program) =>
    Story c (own n as) (b.tasks n)) (s := {}) rfl ?_ hrun
  intro pre m p t _ ih hstep
  obtain ⟨k, a⟩ := p
  rw [own_append]
  by_cases hk : k = n
  · subst hk
    rw [own_cons_self, own_nil]
    rcases step_cases hstep with ⟨ds, next, rfl, htask, rfl⟩ |
      ⟨task, htask, rfl⟩
    · rw [htask] at ih
      obtain ⟨hgiven, hstore, hall⟩ := ih
      rw [Compiler.replaceAll] at hall
      simp only [Function.update_self]
      refine ⟨fun _ => ⟨ds, ?_⟩, fun ds' h => ?_, fun ds' => ?_⟩
      · exact given_snoc.mpr (Or.inl ((hgiven ds).mpr rfl))
      · rw [given_snoc, hgiven] at h
        obtain rfl : ds' = ds := h.resolve_right (by simp)
        simp [hall]
      · rw [given_snoc, hgiven]
        simp [hstore]
    · simp only [Function.update_self]
      exact story_advance ih (advance_of htask)
  · rw [own_cons_other hk, own_nil, List.append_nil,
      step_others hstep (Ne.symm hk)]
    exact ih

/-! ## The map in force -/

/-- The definitions of a store. -/
def Action.stored : Action → Option (List Definition)
  | .store ds => some ds
  | _ => none

/-- The definitions stored last; none before the first store. -/
def inForce (as : List (Nat × Action)) : List Definition :=
  (as.filterMap fun p => p.2.stored).getLast?.getD []

theorem inForce_snoc (as : List (Nat × Action)) (n : Nat) (a : Action) :
    inForce (as ++ [(n, a)]) = a.stored.getD (inForce as) := by
  rw [inForce, List.filterMap_append]
  cases h : a.stored <;> simp [h, inForce]

theorem stored_none_of_advance {value : Policies Program}
    {task task' : Task Program} (h : Advance c value task a task') :
    a.stored = none := by
  cases h <;> rfl

/-- The map in force is the one the definitions stored last compile to. -/
theorem value_run {as : List (Nat × Action)}
    (hrun : run c.step {} as = some b) :
    c.replaceAll ∅ (inForce as) = .ok b.value := by
  refine run_history (P := fun as (b : Board Program) =>
    c.replaceAll ∅ (inForce as) = .ok b.value) (s := {}) rfl ?_ hrun
  intro pre m p t hm ih hstep
  obtain ⟨n, a⟩ := p
  rw [inForce_snoc]
  rcases step_cases hstep with ⟨ds, next, rfl, htask, rfl⟩ | ⟨task, htask, rfl⟩
  · have hstory := story_run hm n
    rw [htask] at hstory
    obtain ⟨_, _, hall⟩ := hstory
    exact hall
  · rw [stored_none_of_advance (advance_of htask)]
    exact ih

theorem acceptable_run {as : List (Nat × Action)}
    (hrun : run c.step {} as = some b) : Acceptable c (inForce as) :=
  (replaceAll_ok_iff.mp ⟨_, value_run hrun⟩).2

/-! ## Evaluations -/

/-- What an evaluation comes to, once its policy is looked up. -/
def Outcome (c : Compiler Ast Program) (routeID : String) (ctx : Auth.Context)
    (authorizer : Option Authz.Authorizer) (err : Option GoErr) :
    Option (Policy Program) → Prop
  | none => err = some (c.missing routeID)
  | some p => ∃ order, order.Perm (p.definition.permissions.entries.map
      fun e => (e.1, e.2)) ∧ err = c.evaluate p ctx authorizer order

theorem evaluating_run {as : List (Nat × Action)} {routeID : String}
    {ctx : Auth.Context} {authorizer : Option Authz.Authorizer}
    {policy : Option (Policy Program)} {err : Option GoErr}
    (hb : b.tasks n = .evaluating routeID ctx authorizer policy)
    (hrun : run c.step b as = some b') (herr : b'.tasks n = .evaluated err) :
    Outcome c routeID ctx authorizer err policy := by
  have hinv := run_inv_of (I := fun b : Board Program =>
    b.tasks n = .evaluating routeID ctx authorizer policy ∨
    ∃ err, b.tasks n = .evaluated err ∧
      Outcome c routeID ctx authorizer err policy) ?_ (Or.inl hb) hrun
  · rcases hinv with hstill | ⟨err', herr', hout⟩
    · rw [herr] at hstill
      cases hstill
    · rw [herr] at herr'
      cases herr'
      exact hout
  · intro u p t hu hstep
    obtain ⟨k, a⟩ := p
    by_cases hk : k = n
    · subst hk
      -- Its own step is the answer; a call that has answered takes none.
      rcases step_cases hstep with ⟨ds, next, _, htask, _⟩ |
        ⟨task, htask, rfl⟩
      · rcases hu with hu | ⟨_, hu, _⟩ <;> rw [htask] at hu <;> cases hu
      · rcases hu with hu | ⟨_, hu, _⟩ <;> rw [hu] at htask
        · refine Or.inr ?_
          cases advance_of htask with
          | missing => exact ⟨_, Function.update_self .., rfl⟩
          | answer hperm => exact ⟨_, Function.update_self .., _, hperm, rfl⟩
        · cases advance_of htask
    · rw [step_others hstep (Ne.symm hk)]
      exact hu

/-- The error of an evaluation has come up from the authorizer or from CEL. -/
def HandedUp (c : Compiler Ast Program) (authorizer : Option Authz.Authorizer)
    (err : GoErr) : Prop :=
  ∃ context inner, err = .wrap context inner ∧
    ((∃ authorize ctx caller requirement, authorizer = some authorize ∧
        authorize ctx caller requirement = some inner) ∨
      ∃ program activation, c.eval program activation = .error inner)

theorem decisions_error {isPrint : Char → Bool} {ctx : Auth.Context}
    {caller : Option Principal} {authorizer : Authz.Authorizer}
    {order : List (String × Permission)}
    {made : AList fun _ : String => Bool} {err : GoErr}
    (h : decisions isPrint ctx caller authorizer order made = .error err) :
    ∃ context inner, err = .wrap context inner ∧
      ∃ identity requirement,
        authorizer ctx identity requirement = some inner := by
  induction order generalizing made with
  | nil => cases h
  | cons e rest ih =>
      unfold decisions at h
      split at h
      · exact ih h
      · split at h
        · next inner hinner =>
            split at h
            · exact ih h
            · cases h
              exact ⟨_, inner, rfl, _, _, hinner⟩
        · exact ih h

/-- What a policy returns is an error of its own, or one it has wrapped. -/
theorem evaluate_error {p : Policy Program} {ctx : Auth.Context}
    {authorizer : Option Authz.Authorizer}
    {order : List (String × Permission)} {err : GoErr}
    (h : c.evaluate p ctx authorizer order = some err) :
    err = Authz.errDecisionUnavailable ∨ err = errDenied ∨
      HandedUp c authorizer err := by
  rw [Compiler.evaluate] at h
  simp only [] at h
  split at h
  · exact Or.inl (Option.some.inj h).symm
  · split at h
    · next hdec =>
        obtain ⟨context, inner, hwrap, identity, requirement, hinner⟩ :=
          decisions_error hdec
        refine Or.inr (Or.inr ⟨context, inner, ?_, Or.inl ?_⟩)
        · rw [← hwrap]
          exact (Option.some.inj h).symm
        · cases authorizer with
          | none => cases hinner
          | some authorize => exact ⟨authorize, _, _, _, rfl, hinner⟩
    · split at h
      · next hcel =>
          exact Or.inr (Or.inr ⟨_, _, (Option.some.inj h).symm,
            Or.inr ⟨_, _, hcel⟩⟩)
      · cases h
      · exact Or.inr (Or.inl (Option.some.inj h).symm)

/-- What an evaluation returns when the definitions `ds` are in force. -/
structure EvaluatedUnder (c : Compiler Ast Program) (ds : List Definition)
    (routeID : String) (ctx : Auth.Context)
    (authorizer : Option Authz.Authorizer) (err : Option GoErr) : Prop where
  missing : err = some (c.missing routeID) ↔ ∀ d ∈ ds, d.routeID ≠ routeID
  is_missing : ∀ e, err = some e → e.is "route policy missing" →
    (∀ d ∈ ds, d.routeID ≠ routeID) ∨ HandedUp c authorizer e
  policy : ∀ d ∈ ds, d.routeID = routeID →
    ∃ p order, c.compile d = .ok p ∧
      order.Perm (p.definition.permissions.entries.map
        fun e => (e.1, e.2)) ∧
      err = c.evaluate p ctx authorizer order

theorem evaluatedUnder_of_outcome {ds : List Definition} {routeID : String}
    {ctx : Auth.Context} {authorizer : Option Authz.Authorizer}
    {err : Option GoErr} (hacc : Acceptable c ds)
    (hout : Outcome c routeID ctx authorizer err (policyOf c ds routeID)) :
    EvaluatedUnder c ds routeID ctx authorizer err := by
  by_cases hnone : ∀ d ∈ ds, d.routeID ≠ routeID
  · rw [policyOf_eq_none hnone] at hout
    exact ⟨⟨fun _ => hnone, fun _ => hout⟩, fun _ _ _ => Or.inl hnone,
      fun d hd heq => absurd heq (hnone d hd)⟩
  · simp only [not_forall, not_not] at hnone
    obtain ⟨d, hd, rfl⟩ := hnone
    obtain ⟨p, hp, hpolicy⟩ := policyOf_of_mem hacc hd
    rw [hpolicy] at hout
    obtain ⟨order, hperm, rfl⟩ := hout
    refine ⟨⟨fun herr => ?_, fun hnone => absurd rfl (hnone d hd)⟩,
      fun e herr his => ?_, fun d' hd' heq => ?_⟩
    · rcases evaluate_error herr with h | h | ⟨context, inner, h, _⟩
      · simp [Compiler.missing, Authz.errDecisionUnavailable] at h
      · simp [Compiler.missing, errDenied] at h
      · simp [Compiler.missing] at h
    · rcases evaluate_error herr with rfl | rfl | h
      · simp [Authz.errDecisionUnavailable, GoErr.is] at his
      · simp [errDenied, GoErr.is] at his
      · exact Or.inr h
    · obtain rfl : d' = d := List.inj_on_of_nodup_map hacc.distinct hd' hd heq
      exact ⟨p, order, hp, hperm, rfl⟩

theorem evaluation_outcome {as pre post : List (Nat × Action)}
    {routeID : String} {ctx : Auth.Context}
    {authorizer : Option Authz.Authorizer} {err : Option GoErr}
    (has : as = pre ++ (n, .evaluate routeID ctx authorizer) :: post)
    (hrun : run c.step {} as = some b) (herr : b.tasks n = .evaluated err) :
    Outcome c routeID ctx authorizer err
      (policyOf c (inForce pre) routeID) := by
  subst has
  obtain ⟨m, hm, hrest⟩ := run_append.mp hrun
  obtain ⟨u, hu, hpost⟩ := run_cons.mp hrest
  rcases step_cases hu with ⟨ds, next, hstore, _⟩ | ⟨task, htask, rfl⟩
  · cases hstore
  · rw [← lookup_of_replaceAll (value_run hm) routeID]
    refine evaluating_run ?_ hpost herr
    simp only [Function.update_self]
    generalize m.tasks n = start, advance_of htask = hadvance
    cases hadvance with
    | evaluate => rfl

/-! ## Calls that fail -/

/-- The same board but for one call. -/
structure AgreeBut (n : Nat) (b b' : Board Program) : Prop where
  value : b'.value = b.value
  tasks : ∀ m, m ≠ n → b'.tasks m = b.tasks m

theorem AgreeBut.refl (b : Board Program) (n : Nat) : AgreeBut n b b :=
  ⟨rfl, fun _ _ => rfl⟩

theorem AgreeBut.update {b₁ : Board Program} (h : AgreeBut n b b₁) (k : Nat)
    (value : Policies Program) (task : Task Program) :
    AgreeBut n { value, tasks := Function.update b.tasks k task }
      { value, tasks := Function.update b₁.tasks k task } := by
  refine ⟨rfl, fun m hm => ?_⟩
  by_cases hmk : m = k
  · subst hmk
    simp only [Function.update_self]
  · simp only [Function.update_of_ne hmk]
    exact h.tasks m hm

/-- The others can take the same steps. -/
theorem step_agree {b₁ u : Board Program} {k : Nat} (hagree : AgreeBut n b b₁)
    (hk : k ≠ n) (h : c.step b (k, a) = some u) :
    ∃ u₁, c.step b₁ (k, a) = some u₁ ∧ AgreeBut n u u₁ := by
  rcases step_cases h with ⟨ds, next, rfl, htask, rfl⟩ | ⟨task, htask, rfl⟩
  · rw [← hagree.tasks k hk] at htask
    exact ⟨_, step_of_store htask, hagree.update k next _⟩
  · rw [← hagree.tasks k hk, ← hagree.value] at htask
    refine ⟨_, step_of_advance htask, ?_⟩
    rw [hagree.value]
    exact hagree.update k b.value task

/-- A call that has stored nothing can be taken out of a run. -/
theorem run_without {as : List (Nat × Action)} {b₁ b₂ : Board Program}
    (hagree : AgreeBut n b b₁) (hstore : ∀ ds, (n, .store ds) ∉ as)
    (hrun : run c.step b as = some b₂) :
    ∃ b₃, run c.step b₁ (as.filter fun p => p.1 ≠ n) = some b₃ ∧
      AgreeBut n b₂ b₃ := by
  induction as generalizing b b₁ with
  | nil =>
      rw [run_nil, Option.some.injEq] at hrun
      exact ⟨b₁, rfl, hrun ▸ hagree⟩
  | cons p as ih =>
      obtain ⟨k, a⟩ := p
      obtain ⟨u, hu, hrest⟩ := run_cons.mp hrun
      have hstore' : ∀ ds, (n, .store ds) ∉ as := fun ds hmem =>
        hstore ds (List.mem_cons_of_mem _ hmem)
      by_cases hk : k = n
      · -- A step of the call that is taken out.
        subst hk
        rw [List.filter_cons_of_neg (by simp)]
        refine ih (b := u) ⟨?_, fun m hm => ?_⟩ hstore' hrest
        · rcases step_cases hu with ⟨ds, next, rfl, _⟩ | ⟨task, _, rfl⟩
          · exact absurd List.mem_cons_self (hstore ds)
          · exact hagree.value
        · rw [hagree.tasks m hm, step_others hu hm]
      · rw [List.filter_cons_of_pos (by simpa using hk)]
        obtain ⟨u₁, hu₁, hagree'⟩ := step_agree hagree hk hu
        obtain ⟨b₃, hrun₃, hagree₃⟩ := ih hagree' hstore' hrest
        exact ⟨b₃, run_cons.mpr ⟨u₁, hu₁, hrun₃⟩, hagree₃⟩

/-- A store is the end of a call without an error. -/
theorem no_store_of_failed {as : List (Nat × Action)} {err : GoErr}
    (hrun : run c.step {} as = some b)
    (hn : b.tasks n = .returned (some err)) (ds : List Definition) :
    (n, .store ds) ∉ as := by
  have hstory := story_run hrun n
  rw [hn] at hstory
  rw [← mem_own, hstory.2.2 ds]
  simp

/-! ## Every call comes to its end -/

/-- From here on the call needs nobody else to come to its end. -/
def Finishes (c : Compiler Ast Program) (b : Board Program) (n : Nat) : Prop :=
  ∃ bs b', (∀ p ∈ bs, p.1 = n) ∧ run c.step b bs = some b' ∧
    ((∃ err, b'.tasks n = .returned err) ∨ ∃ err, b'.tasks n = .evaluated err)

theorem Finishes.cons {task : Task Program}
    (h : c.advance b.value (b.tasks n) a = some task)
    (hrest : Finishes c ⟨b.value, Function.update b.tasks n task⟩ n) :
    Finishes c b n := by
  obtain ⟨bs, b', hown, hrun, hend⟩ := hrest
  exact ⟨(n, a) :: bs, b', List.forall_mem_cons.mpr ⟨rfl, hown⟩,
    run_cons.mpr ⟨_, step_of_advance h, hrun⟩, hend⟩

theorem Finishes.of_returned {err : Option GoErr}
    (h : b.tasks n = .returned err) : Finishes c b n :=
  ⟨[], b, by simp, rfl, Or.inl ⟨err, h⟩⟩

theorem Finishes.of_evaluated {err : Option GoErr}
    (h : b.tasks n = .evaluated err) : Finishes c b n :=
  ⟨[], b, by simp, rfl, Or.inr ⟨err, h⟩⟩

theorem finishes_of_replacing {ds rest : List Definition}
    {next : Policies Program} (hb : b.tasks n = .replacing ds rest next) :
    Finishes c b n := by
  induction rest generalizing b next with
  | nil =>
      exact ⟨[(n, .store ds)], _, by simp,
        run_cons.mpr ⟨_, step_of_store hb, rfl⟩,
        Or.inl ⟨none, Function.update_self ..⟩⟩
  | cons d rest ih =>
      cases hadd : c.addPolicy next d with
      | error err =>
          have hstep : c.advance b.value (b.tasks n) .compileNext =
              some (.returned (some err)) := by
            rw [hb, Compiler.advance, hadd]
          exact .cons hstep (.of_returned (Function.update_self ..))
      | ok next' =>
          have hstep : c.advance b.value (b.tasks n) .compileNext =
              some (.replacing ds rest next') := by
            rw [hb, Compiler.advance, hadd]
          exact .cons hstep (ih (Function.update_self ..))

theorem finishes_of_evaluating {routeID : String} {ctx : Auth.Context}
    {authorizer : Option Authz.Authorizer} {policy : Option (Policy Program)}
    (hb : b.tasks n = .evaluating routeID ctx authorizer policy) :
    Finishes c b n := by
  cases policy with
  | none =>
      have hstep : c.advance b.value (b.tasks n) (.answer []) =
          some (.evaluated (some (c.missing routeID))) := by
        rw [hb, Compiler.advance]
      exact .cons hstep (.of_evaluated (Function.update_self ..))
  | some p =>
      have hstep : c.advance b.value (b.tasks n)
          (.answer (p.definition.permissions.entries.map
            fun e => (e.1, e.2))) =
          some (.evaluated (c.evaluate p ctx authorizer
            (p.definition.permissions.entries.map fun e => (e.1, e.2)))) := by
        rw [hb, Compiler.advance, if_pos (List.Perm.refl _)]
      exact .cons hstep (.of_evaluated (Function.update_self ..))

theorem finishes_of_begun (hidle : b.tasks n ≠ .idle)
    (hloading : b.tasks n ≠ .loading) : Finishes c b n := by
  cases htask : b.tasks n with
  | idle => exact absurd htask hidle
  | loading => exact absurd htask hloading
  | replacing ds rest next => exact finishes_of_replacing htask
  | returned err => exact .of_returned htask
  | evaluating routeID ctx authorizer policy =>
      exact finishes_of_evaluating htask
  | evaluated err => exact .of_evaluated htask

/-! ## The snapshot -/

/-- Over any run of calls of `Replace`, `Reload` and `Evaluate`, for each call
`n`. An evaluation that has returned went by the definitions that were stored
last when it looked its route up. A call of `Replace` or `Reload` that has
failed can be taken out of the run, and all the others come to the same. A
`Replace` succeeds exactly on an acceptable list; the lists stored are those of
the calls that succeed. And a call that has begun, and is not waiting for its
loader, comes to its end. -/
theorem replace_all_or_nothing {as : List (Nat × Action)}
    (hrun : run c.step {} as = some b) (n : Nat) :
    (∀ pre post routeID ctx authorizer err,
      as = pre ++ (n, .evaluate routeID ctx authorizer) :: post →
      b.tasks n = .evaluated err →
      EvaluatedUnder c (inForce pre) routeID ctx authorizer err) ∧
    (∀ err, b.tasks n = .returned (some err) →
      ∃ b₀, run c.step {} (as.filter fun p => p.1 ≠ n) = some b₀ ∧
        b₀.value = b.value ∧ ∀ m, m ≠ n → b₀.tasks m = b.tasks m) ∧
    (∀ ds err, Given (own n as) ds → b.tasks n = .returned err →
      (err = none ↔ Acceptable c ds)) ∧
    (b.tasks n = .returned none → ∃ ds, Given (own n as) ds) ∧
    (∀ ds, .store ds ∈ own n as ↔
      Given (own n as) ds ∧ b.tasks n = .returned none) ∧
    (b.tasks n ≠ .idle → b.tasks n ≠ .loading → Finishes c b n) := by
  have hstory := story_run hrun n
  refine ⟨fun pre post routeID ctx authorizer err has herr => ?_,
    fun err herr => ?_, fun ds err hds herr => ?_, fun hnil => ?_,
    fun ds => ?_, finishes_of_begun⟩
  · subst has
    obtain ⟨m, hm, _⟩ := run_append.mp hrun
    exact evaluatedUnder_of_outcome (acceptable_run hm)
      (evaluation_outcome rfl hrun herr)
  · obtain ⟨b₀, hrun₀, hagree⟩ := run_without
      (.refl {} n) (no_store_of_failed hrun herr) hrun
    exact ⟨b₀, hrun₀, hagree.value, hagree.tasks⟩
  · rw [herr] at hstory
    rw [hstory.2.1 ds hds, replaceAll_ok_iff]
    simp
  · rw [hnil] at hstory
    exact hstory.1 rfl
  · generalize b.tasks n = task at hstory
    cases task with
    | idle =>
        have hnone : own n as = [] := hstory
        simp [hnone]
    | returned err => simp [hstory.2.2 ds]
    | replacing => simp [hstory.2.1 ds]
    | loading | evaluating | evaluated => simp [hstory.2 ds]

/-- CEL as far as the one expression `authenticated` goes. -/
def authenticatedOnly : Compiler Unit Unit where
  parse expression :=
    if expression = "authenticated" then .ok () else .error "Syntax error"
  returnsBool _ := true
  program _ := .ok ()
  eval _ activation := .ok activation.authenticated
  isPrint _ := true

def ordersPolicy : Definition where
  id := "policy-1"
  routeID := "orders"
  expression := " authenticated "

/-- One list goes in, a second one fails at a duplicate, and while it does a
route is evaluated, and one that has no policy. -/
def duplicateReload : List (Nat × Action) :=
  [(0, .replace [ordersPolicy]), (0, .compileNext), (1, .reload),
   (0, .store [ordersPolicy]), (2, .evaluate "orders" none none),
   (1, .loadReturn (.ok [ordersPolicy, ordersPolicy])), (1, .compileNext),
   (3, .evaluate "billing" none none), (1, .compileNext), (2, .answer []),
   (3, .answer [])]

theorem replace_all_or_nothing_duplicate : ∃ b err,
    run authenticatedOnly.step {} duplicateReload = some b ∧
    b.tasks 1 = .returned (some err) ∧
    ¬ Acceptable authenticatedOnly [ordersPolicy, ordersPolicy] ∧
    EvaluatedUnder authenticatedOnly [ordersPolicy] "orders" none none
      (some errDenied) ∧
    EvaluatedUnder authenticatedOnly [ordersPolicy] "billing" none none
      (some (authenticatedOnly.missing "billing")) := by
  obtain ⟨b, err, hrun, hfailed, hdenied, hmissing⟩ : ∃ b err,
      run authenticatedOnly.step {} duplicateReload = some b ∧
      b.tasks 1 = .returned (some err) ∧
      b.tasks 2 = .evaluated (some errDenied) ∧
      b.tasks 3 = .evaluated (some (authenticatedOnly.missing "billing")) :=
    ⟨_, _, rfl, rfl, rfl, rfl⟩
  refine ⟨b, err, hrun, hfailed, ?_, ?_, ?_⟩
  · intro hacc
    have hgiven : Given (own 1 duplicateReload)
        [ordersPolicy, ordersPolicy] :=
      Or.inr (List.mem_cons_of_mem _ List.mem_cons_self)
    cases ((replace_all_or_nothing hrun 1).2.2.1 _ _ hgiven hfailed).mpr hacc
  · exact (replace_all_or_nothing hrun 2).1 (duplicateReload.take 4)
      (duplicateReload.drop 5) "orders" none none _ rfl hdenied
  · exact (replace_all_or_nothing hrun 3).1 (duplicateReload.take 7)
      (duplicateReload.drop 8) "billing" none none _ rfl hmissing

end PlatformGo.RoutePolicy
