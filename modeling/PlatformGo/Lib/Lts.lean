import Mathlib.Data.List.Basic
import Mathlib.Data.List.Induction

/-!
# Runs of a labelled machine

Every concurrent component of the development is a function
`step : S → A → Option S`: an action either is not enabled in a state, or
leads to exactly one next state. All the nondeterminism of an interleaving
sits in the list of actions that is played, so a statement about every list
of actions is a statement about every interleaving.

Two readings of a run are used. `run` is the state a list of actions leads
to; `steps` is the run written out, each action with the state it was taken
in, which is what a condition on the steps of a run is a statement about.

The rules below package the inductions once. `run_inv` is the invariant rule,
with a side condition the steps may be assumed to meet; `steps_inv` gives the
invariant at each step of a run; `run_rel` carries a preorder along a run;
`run_history` is the rule for what a state owes to the actions before it, and
`run_emits` for what can be read off a state as a record of the run.
`run_follow` has a second machine follow a run, `run_simulates` has it answer
every step with a run of its own and `run_effects` with one that the step
gives, and `run_own` takes a run of many processes apart into the runs of
each.
-/

namespace PlatformGo.Lts

variable {S A : Type*} {step : S → A → Option S}

/-- Play the actions in order. The run is stuck as soon as one of them is not
enabled. -/
def run (step : S → A → Option S) : S → List A → Option S
  | s, [] => some s
  | s, a :: as => (step s a).bind fun t => run step t as

/-- The steps of a run, each action with the state it was taken in. -/
def steps (step : S → A → Option S) : S → List A → List (S × A)
  | _, [] => []
  | s, a :: as =>
      match step s a with
      | none => []
      | some t => (s, a) :: steps step t as

@[simp] theorem run_nil (s : S) : run step s [] = some s := rfl

@[simp] theorem steps_nil (s : S) : steps step s [] = [] := rfl

theorem run_cons {s t : S} {a : A} {as : List A} :
    run step s (a :: as) = some t ↔
      ∃ m, step s a = some m ∧ run step m as = some t := by
  rw [run, Option.bind_eq_some_iff]

theorem steps_cons {s m : S} {a : A} {as : List A} (h : step s a = some m) :
    steps step s (a :: as) = (s, a) :: steps step m as := by
  rw [steps, h]

theorem forall_steps_cons {C : S → A → Prop} {s m : S} {a : A} {as : List A}
    (h : step s a = some m) (ha : C s a)
    (has : ∀ p ∈ steps step m as, C p.1 p.2) :
    ∀ p ∈ steps step s (a :: as), C p.1 p.2 := by
  rw [steps_cons h]
  exact List.forall_mem_cons.mpr ⟨ha, has⟩

theorem run_append {s t : S} {as bs : List A} :
    run step s (as ++ bs) = some t ↔
      ∃ m, run step s as = some m ∧ run step m bs = some t := by
  induction as generalizing s with
  | nil => simp
  | cons a as ih =>
      rw [List.cons_append, run_cons]
      constructor
      · rintro ⟨m, hm, hrest⟩
        obtain ⟨n, hn, hbs⟩ := ih.mp hrest
        exact ⟨n, run_cons.mpr ⟨m, hm, hn⟩, hbs⟩
      · rintro ⟨n, hn, hbs⟩
        obtain ⟨m, hm, hrest⟩ := run_cons.mp hn
        exact ⟨m, hm, ih.mpr ⟨n, hrest, hbs⟩⟩

theorem steps_append {s m : S} {as bs : List A} (h : run step s as = some m) :
    steps step s (as ++ bs) = steps step s as ++ steps step m bs := by
  induction as generalizing s with
  | nil =>
      rw [run_nil, Option.some.injEq] at h
      subst h
      rfl
  | cons a as ih =>
      obtain ⟨n, hn, hrest⟩ := run_cons.mp h
      rw [List.cons_append, steps_cons hn, steps_cons hn, ih hrest,
        List.cons_append]

/-- A step of a run is an action of its list, taken in the state the actions
before it led to. -/
theorem mem_steps {s : S} {as : List A} {p : S × A}
    (h : p ∈ steps step s as) :
    ∃ pre post, as = pre ++ p.2 :: post ∧ run step s pre = some p.1 := by
  induction as generalizing s with
  | nil => simp at h
  | cons a as ih =>
      cases hm : step s a with
      | none => rw [steps, hm] at h; simp at h
      | some m =>
          rw [steps_cons hm] at h
          rcases List.mem_cons.mp h with rfl | hmem
          · exact ⟨[], as, rfl, rfl⟩
          · obtain ⟨pre, post, has, hpre⟩ := ih hmem
            exact ⟨a :: pre, post, by rw [has]; rfl,
              run_cons.mpr ⟨m, hm, hpre⟩⟩

/-- The step taken after a part of a run is one of its steps. -/
theorem step_mem {s m t : S} {pre post : List A} {a : A}
    (hpre : run step s pre = some m) (h : step m a = some t) :
    (m, a) ∈ steps step s (pre ++ a :: post) := by
  rw [steps_append hpre, steps_cons h]
  exact List.mem_append_right _ (List.mem_cons_self ..)

/-- The steps of the first part of a run are steps of the run. -/
theorem steps_initial {s m : S} {pre as : List A} (hp : pre <+: as)
    (hpre : run step s pre = some m) {p : S × A}
    (h : p ∈ steps step s pre) : p ∈ steps step s as := by
  obtain ⟨post, rfl⟩ := hp
  rw [steps_append hpre]
  exact List.mem_append_left _ h

theorem action_mem {s : S} {as : List A} {p : S × A}
    (h : p ∈ steps step s as) : p.2 ∈ as := by
  obtain ⟨pre, post, has, -⟩ := mem_steps h
  rw [has]
  exact List.mem_append_right _ (List.mem_cons_self ..)

/-! ## The invariant rules -/

/-- A predicate kept by every step that meets `C` holds at the end of every
run whose steps all meet `C`. -/
theorem run_inv {I : S → Prop} {C : S → A → Prop}
    (hstep : ∀ s a t, I s → C s a → step s a = some t → I t)
    {as : List A} {s t : S} (hs : I s)
    (hC : ∀ p ∈ steps step s as, C p.1 p.2)
    (hrun : run step s as = some t) : I t := by
  induction as generalizing s with
  | nil =>
      rw [run_nil, Option.some.injEq] at hrun
      exact hrun ▸ hs
  | cons a as ih =>
      obtain ⟨m, hm, hrest⟩ := run_cons.mp hrun
      rw [steps_cons hm] at hC
      exact ih (hstep s a m hs (hC (s, a) (by simp)) hm)
        (fun p hp => hC p (by simp [hp])) hrest

/-- The same rule for a predicate every step keeps. -/
theorem run_inv_of {I : S → Prop}
    (hstep : ∀ s a t, I s → step s a = some t → I t)
    {as : List A} {s t : S} (hs : I s) (hrun : run step s as = some t) :
    I t :=
  run_inv (C := fun _ _ => True) (fun s a t h _ => hstep s a t h) hs
    (fun _ _ => trivial) hrun

/-- And it holds in every state a step of the run is taken in. -/
theorem steps_inv {I : S → Prop} {C : S → A → Prop}
    (hstep : ∀ s a t, I s → C s a → step s a = some t → I t)
    {as : List A} {s : S} (hs : I s)
    (hC : ∀ p ∈ steps step s as, C p.1 p.2) :
    ∀ p ∈ steps step s as, I p.1 := by
  intro p hp
  obtain ⟨pre, post, has, hpre⟩ := mem_steps hp
  refine run_inv hstep hs (fun q hq => hC q ?_) hpre
  rw [has, steps_append hpre]
  exact List.mem_append_left _ hq

/-- A reflexive and transitive relation every step is inside of relates the
two ends of a run. -/
theorem run_rel {R : S → S → Prop} (hrefl : ∀ s, R s s)
    (htrans : ∀ {a b c}, R a b → R b c → R a c)
    (hstep : ∀ s a t, step s a = some t → R s t)
    {as : List A} {s t : S} (hrun : run step s as = some t) : R s t := by
  induction as generalizing s with
  | nil =>
      rw [run_nil, Option.some.injEq] at hrun
      exact hrun ▸ hrefl s
  | cons a as ih =>
      obtain ⟨m, hm, hrest⟩ := run_cons.mp hrun
      exact htrans (hstep s a m hm) (ih hrest)

/-- What holds of a state and the actions that led to it: true of the empty
run, and handed on by one more action. -/
theorem run_history {P : List A → S → Prop} {s : S} (hnil : P [] s)
    (hsnoc : ∀ pre m a t, run step s pre = some m → P pre m →
      step m a = some t → P (pre ++ [a]) t)
    {as : List A} {t : S} (hrun : run step s as = some t) : P as t := by
  induction as using List.reverseRecOn generalizing t with
  | nil =>
      rw [run_nil, Option.some.injEq] at hrun
      exact hrun ▸ hnil
  | append_singleton as a ih =>
      obtain ⟨m, hm, hlast⟩ := run_append.mp hrun
      obtain ⟨u, hu, hend⟩ := run_cons.mp hlast
      rw [run_nil, Option.some.injEq] at hend
      exact hend ▸ hsnoc as m a u hm (ih hm) hu

/-- An observation of the state that grows by what each step adds to it is
the record of the steps. -/
theorem run_emits {V : Type*} {I : S → Prop} {g : S → List V}
    {f : S × A → List V}
    (hI : ∀ s a t, I s → step s a = some t → I t)
    (hstep : ∀ s a t, I s → step s a = some t → g t = g s ++ f (s, a))
    {as : List A} {s t : S} (hs : I s) (hrun : run step s as = some t) :
    g t = g s ++ (steps step s as).flatMap f := by
  induction as generalizing s with
  | nil =>
      rw [run_nil, Option.some.injEq] at hrun
      simp [hrun]
  | cons a as ih =>
      obtain ⟨m, hm, hrest⟩ := run_cons.mp hrun
      rw [ih (hI s a m hs hm) hrest, hstep s a m hs hm, steps_cons hm,
        List.flatMap_cons, List.append_assoc]

/-- The same where the record is of the actions of some kind. -/
theorem run_filter {p : A → Bool} {g : S → List A}
    (hstep : ∀ s a t, step s a = some t →
      g t = g s ++ if p a then [a] else [])
    {as : List A} {s t : S} (hrun : run step s as = some t) :
    g t = g s ++ as.filter p := by
  induction as generalizing s with
  | nil =>
      rw [run_nil, Option.some.injEq] at hrun
      simp [hrun]
  | cons a as ih =>
      obtain ⟨m, hm, hrest⟩ := run_cons.mp hrun
      rw [ih hrest, hstep s a m hm, List.filter_cons, List.append_assoc]
      split <;> rfl

/-! ## Two machines -/

/-- A run is followed by a second machine that plays a part of its actions,
each in its own form, when every step is followed: by a step of the second
machine, or by none where the action has no part in it. -/
theorem run_follow {T B : Type*} {step' : T → B → Option T}
    {Rel : S → T → Prop} {f : A → Option B} {C : A → Prop}
    (hstep : ∀ s a s' t b, Rel s t → C a → f a = some b →
      step s a = some s' → ∃ t', step' t b = some t' ∧ Rel s' t')
    (hskip : ∀ s a s' t, Rel s t → C a → f a = none →
      step s a = some s' → Rel s' t)
    {as : List A} {s s' : S} {t : T} (h : Rel s t) (hC : ∀ a ∈ as, C a)
    (hrun : run step s as = some s') :
    ∃ t', run step' t (as.filterMap f) = some t' ∧ Rel s' t' := by
  induction as generalizing s t with
  | nil =>
      rw [run_nil, Option.some.injEq] at hrun
      exact ⟨t, rfl, hrun ▸ h⟩
  | cons a as ih =>
      obtain ⟨m, hm, hrest⟩ := run_cons.mp hrun
      rw [List.forall_mem_cons] at hC
      cases hf : f a with
      | none =>
          rw [List.filterMap_cons_none hf]
          exact ih (hskip s a m t h hC.1 hf hm) hC.2 hrest
      | some b =>
          rw [List.filterMap_cons_some hf]
          obtain ⟨u, hu, hrel⟩ := hstep s a m t b h hC.1 hf hm
          obtain ⟨t', ht', hend⟩ := ih hrel hC.2 hrest
          exact ⟨t', run_cons.mpr ⟨u, hu, ht'⟩, hend⟩

/-- A run is simulated by a second machine when every step is answered by a
run of it; `M` says which run answers which step. -/
theorem run_simulates {T B : Type*} {step' : T → B → Option T}
    {Rel : S → T → Prop} {M : S × A → List B → Prop}
    (hstep : ∀ s a s' t, Rel s t → step s a = some s' →
      ∃ bs t', M (s, a) bs ∧ run step' t bs = some t' ∧ Rel s' t')
    {as : List A} {s s' : S} {t : T} (h : Rel s t)
    (hrun : run step s as = some s') :
    ∃ bss t', List.Forall₂ M (steps step s as) bss ∧
      run step' t bss.flatten = some t' ∧ Rel s' t' := by
  induction as generalizing s t with
  | nil =>
      rw [run_nil, Option.some.injEq] at hrun
      exact ⟨[], t, .nil, rfl, hrun ▸ h⟩
  | cons a as ih =>
      obtain ⟨m, hm, hrest⟩ := run_cons.mp hrun
      obtain ⟨bs, u, hM, hu, hrel⟩ := hstep s a m t h hm
      obtain ⟨bss, t', hMs, ht', hend⟩ := ih hrel hrest
      refine ⟨bs :: bss, t', ?_, run_append.mpr ⟨u, hu, ht'⟩, hend⟩
      rw [steps_cons hm]
      exact .cons hM hMs

/-- The rule for a second machine that takes effect at some of the steps: what
a step comes to in it is a function of the step. -/
theorem run_effects {T B : Type*} {step' : T → B → Option T}
    {Rel : S → T → Prop} {effect : S → A → List B} {C : S → A → Prop}
    (hstep : ∀ s a s' t, Rel s t → C s a → step s a = some s' →
      ∃ t', run step' t (effect s a) = some t' ∧ Rel s' t')
    {as : List A} {s s' : S} {t : T} (h : Rel s t)
    (hC : ∀ p ∈ steps step s as, C p.1 p.2)
    (hrun : run step s as = some s') :
    ∃ t', run step' t ((steps step s as).flatMap fun p => effect p.1 p.2) =
        some t' ∧ Rel s' t' := by
  induction as generalizing s t with
  | nil =>
      rw [run_nil, Option.some.injEq] at hrun
      exact ⟨t, rfl, hrun ▸ h⟩
  | cons a as ih =>
      obtain ⟨m, hm, hrest⟩ := run_cons.mp hrun
      rw [steps_cons hm] at hC ⊢
      rw [List.forall_mem_cons] at hC
      obtain ⟨u, hu, hrel⟩ := hstep s a m t h hC.1 hm
      obtain ⟨t', ht', hend⟩ := ih hrel hC.2 hrest
      refine ⟨t', ?_, hend⟩
      rw [List.flatMap_cons]
      exact run_append.mpr ⟨u, hu, ht'⟩

/-- What answers a step of a simulated run answers one of its steps. -/
theorem answers_mem {P B : Type*} {M : P → List B → Prop} {ps : List P}
    {bss : List (List B)} (h : List.Forall₂ M ps bss) {bs : List B}
    (hbs : bs ∈ bss) : ∃ p ∈ ps, M p bs := by
  induction h with
  | nil => simp at hbs
  | @cons p bs' ps bss hM _ ih =>
      rcases List.mem_cons.mp hbs with rfl | hbs
      · exact ⟨p, by simp, hM⟩
      · obtain ⟨q, hq, hMq⟩ := ih hbs
        exact ⟨q, by simp [hq], hMq⟩

/-! ## Interleavings -/

section Interleaving

variable {N L : Type*} [DecidableEq N] {gstep : S → N × A → Option S}

/-- The actions of one process. -/
def own (n : N) (as : List (N × A)) : List A :=
  as.filterMap fun p => if p.1 = n then some p.2 else none

@[simp] theorem own_nil (n : N) : own n ([] : List (N × A)) = [] := rfl

theorem own_cons_self (n : N) (a : A) (as : List (N × A)) :
    own n ((n, a) :: as) = a :: own n as := by
  simp [own]

theorem own_cons_other {n m : N} (h : m ≠ n) (a : A) (as : List (N × A)) :
    own n ((m, a) :: as) = own n as := by
  simp [own, h]

theorem own_append (n : N) (as bs : List (N × A)) :
    own n (as ++ bs) = own n as ++ own n bs :=
  List.filterMap_append ..

theorem mem_own {n : N} {a : A} {as : List (N × A)} :
    a ∈ own n as ↔ (n, a) ∈ as := by
  simp [own]

/-- Where a step of the whole is a step of the process that takes it and
leaves the views of the others, a run of the whole is for each process a run
of its own. -/
theorem run_own (lstep : N → L → A → Option L) (view : S → N → L)
    (hself : ∀ s n a t, gstep s (n, a) = some t →
      lstep n (view s n) a = some (view t n))
    (hother : ∀ s n a t, gstep s (n, a) = some t →
      ∀ m, m ≠ n → view t m = view s m)
    (n : N) {as : List (N × A)} {s t : S}
    (hrun : run gstep s as = some t) :
    run (lstep n) (view s n) (own n as) = some (view t n) := by
  induction as generalizing s with
  | nil =>
      rw [run_nil, Option.some.injEq] at hrun
      rw [hrun]
      rfl
  | cons p as ih =>
      obtain ⟨m, a⟩ := p
      obtain ⟨u, hu, hrest⟩ := run_cons.mp hrun
      by_cases hm : m = n
      · subst hm
        rw [own_cons_self]
        exact run_cons.mpr ⟨_, hself s m a u hu, ih hrest⟩
      · rw [own_cons_other hm, ← hother s m a u hu n (Ne.symm hm)]
        exact ih hrest

end Interleaving

end PlatformGo.Lts
