import PlatformGo.Ref.Inbox
import PlatformGo.Ref.Outbox

/-!
# What the pipeline is for

The abstract machine has no tables, no leases and no acknowledgements. Events
are committed; a consumer applies an event, with the writes of its handler,
unless it remembers to have done so; an event may be buried for a consumer,
which makes a new event of it; and what is remembered may be forgotten.

As long as an event is not forgotten it is applied at most once (`once_run`).
-/

namespace PlatformGo.Pipeline

open Lts

variable {W : Type}

/-- An event a consumer has applied, with the writes of its handler. -/
structure Applied (W : Type) where
  key : Inbox.Key
  writes : List W

/-- What the domain tables show of it. -/
def Applied.block (a : Applied W) : List (Inbox.Key × W) :=
  a.writes.map fun w => (a.key, w)

structure Spec (W : Type) where
  committed : List Outbox.Event := []
  /-- The events that were buried, each for a consumer. -/
  buried : List Inbox.Key := []
  applied : List (Applied W) := []
  remembered : List Inbox.Key := []

inductive SpecAction (W : Type) where
  | commit (events : List Outbox.Event)
  | bury (k : Inbox.Key)
  | apply (k : Inbox.Key) (writes : List W)
  | forget (k : Inbox.Key)

/-- The id of the event a burial makes. -/
def letterOf (k : Inbox.Key) : String :=
  "dead-letter:" ++ k.consumer ++ ":" ++ k.eventID

/-- The id is that of an event. -/
def Spec.due (spec : Spec W) (id : String) : Bool :=
  spec.committed.any (fun e => e.id == id) ||
    spec.buried.any (fun k => letterOf k == id)

def Spec.step (spec : Spec W) : SpecAction W → Option (Spec W)
  | .commit events =>
      some { spec with committed := spec.committed ++ events }
  | .bury k =>
      if spec.committed.any (fun e => e.id == k.eventID) then
        some { spec with buried := spec.buried ++ [k] }
      else none
  | .apply k writes =>
      if spec.due k.eventID && !spec.remembered.contains k then
        some { spec with
          applied := spec.applied ++ [⟨k, writes⟩]
          remembered := k :: spec.remembered }
      else none
  | .forget k =>
      if spec.remembered.contains k then
        some { spec with
          remembered := spec.remembered.filter fun k' => k' != k }
      else none

/-- The event has been applied. -/
def Spec.Did (spec : Spec W) (k : Inbox.Key) : Prop :=
  ∃ a ∈ spec.applied, a.key = k

/-- How often it has been. -/
def Spec.times (spec : Spec W) (k : Inbox.Key) : Nat :=
  (spec.applied.filter fun a => a.key = k).length

/-- Everything but what is remembered only grows. -/
structure Spec.Le (spec spec' : Spec W) : Prop where
  committed : ∀ e ∈ spec.committed, e ∈ spec'.committed
  buried : ∀ k ∈ spec.buried, k ∈ spec'.buried
  applied : ∀ a ∈ spec.applied, a ∈ spec'.applied

theorem Spec.Le.refl (spec : Spec W) : spec.Le spec :=
  ⟨fun _ h => h, fun _ h => h, fun _ h => h⟩

theorem Spec.Le.did {spec spec' : Spec W} (h : spec.Le spec')
    {k : Inbox.Key} (hk : spec.Did k) : spec'.Did k := by
  obtain ⟨a, ha, hkey⟩ := hk
  exact ⟨a, h.applied a ha, hkey⟩

theorem due_iff {spec : Spec W} {id : String} :
    spec.due id = true ↔
      (∃ e ∈ spec.committed, e.id = id) ∨
        ∃ k ∈ spec.buried, letterOf k = id := by
  rw [Spec.due, Bool.or_eq_true, List.any_eq_true, List.any_eq_true]
  simp only [beq_iff_eq]

theorem Spec.Le.due {spec spec' : Spec W} (h : spec.Le spec') {id : String}
    (hid : spec.due id = true) : spec'.due id = true := by
  rw [due_iff] at hid ⊢
  rcases hid with ⟨e, he, hid⟩ | ⟨k, hk, hid⟩
  · exact .inl ⟨e, h.committed e he, hid⟩
  · exact .inr ⟨k, h.buried k hk, hid⟩

theorem step_le {spec spec' : Spec W} {b : SpecAction W}
    (h : spec.step b = some spec') : spec.Le spec' := by
  cases b with
  | commit events =>
      cases h
      exact ⟨fun e he => List.mem_append_left _ he, fun _ h => h,
        fun _ h => h⟩
  | bury k =>
      simp only [Spec.step] at h
      split at h
      · cases h
        exact ⟨fun _ h => h, fun k hk => List.mem_append_left _ hk,
          fun _ h => h⟩
      · cases h
  | apply k writes =>
      simp only [Spec.step] at h
      split at h
      · cases h
        exact ⟨fun _ h => h, fun _ h => h,
          fun a ha => List.mem_append_left _ ha⟩
      · cases h
  | forget k =>
      simp only [Spec.step] at h
      split at h
      · cases h
        exact ⟨fun _ h => h, fun _ h => h, fun _ h => h⟩
      · cases h

/-- As long as it is not forgotten, an event is remembered when it has been
applied, and it has been applied once. -/
structure Once (k : Inbox.Key) (spec : Spec W) : Prop where
  once : spec.remembered.contains k = true → spec.times k = 1
  never : spec.remembered.contains k = false → spec.times k = 0

theorem times_append (spec : Spec W) (k k' : Inbox.Key) (writes : List W) :
    ({ spec with applied := spec.applied ++ [⟨k', writes⟩]
                 remembered := k' :: spec.remembered } : Spec W).times k =
      spec.times k + if k' = k then 1 else 0 := by
  rw [Spec.times, Spec.times, List.filter_append, List.length_append]
  by_cases hk : k' = k
  · simp [hk]
  · simp [hk]

theorem once_step {k : Inbox.Key} (spec : Spec W) (b : SpecAction W)
    (spec' : Spec W) (h : Once k spec) (hb : b ≠ .forget k)
    (hstep : spec.step b = some spec') : Once k spec' := by
  cases b with
  | commit events =>
      cases hstep
      exact ⟨h.once, h.never⟩
  | bury k' =>
      simp only [Spec.step] at hstep
      split at hstep
      · cases hstep
        exact ⟨h.once, h.never⟩
      · cases hstep
  | apply k' writes =>
      simp only [Spec.step] at hstep
      split at hstep
      · next hok =>
          rw [Bool.and_eq_true, Bool.not_eq_true'] at hok
          cases hstep
          constructor <;> rw [times_append] <;> intro hmem
          · by_cases hk : k' = k
            · subst hk
              rw [if_pos rfl, h.never hok.2]
            · rw [if_neg hk]
              refine h.once ?_
              rw [List.contains_cons] at hmem
              simpa [Ne.symm hk] using hmem
          · rw [List.contains_cons, Bool.or_eq_false_iff] at hmem
            have hk : k' ≠ k := by
              rintro rfl
              simp at hmem
            rw [if_neg hk]
            exact h.never hmem.2
      · cases hstep
  | forget k' =>
      simp only [Spec.step] at hstep
      split at hstep
      · cases hstep
        have hk : k ≠ k' := by
          rintro rfl
          exact hb rfl
        have hsame : (spec.remembered.filter fun k₁ => k₁ != k').contains k =
            spec.remembered.contains k := by
          rw [Bool.eq_iff_iff, List.contains_iff_mem, List.contains_iff_mem,
            List.mem_filter]
          simp [hk]
        refine ⟨fun hmem => h.once ?_, fun hmem => h.never ?_⟩
        · exact hsame ▸ hmem
        · exact hsame ▸ hmem
      · cases hstep

theorem once_run {k : Inbox.Key} {bs : List (SpecAction W)} {spec : Spec W}
    (hforget : SpecAction.forget k ∉ bs)
    (hrun : run Spec.step {} bs = some spec) : Once k spec := by
  refine run_inv (C := fun _ b => b ≠ .forget k) (once_step (k := k))
    ⟨fun h => (by cases h), fun _ => rfl⟩ ?_ hrun
  intro p hp heq
  exact hforget (heq ▸ action_mem hp)

end PlatformGo.Pipeline
