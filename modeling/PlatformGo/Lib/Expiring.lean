import Mathlib.Data.Option.Basic
import Mathlib.Logic.Function.Basic

/-!
# A store whose entries expire

A map from keys to values that may carry a deadline, with a clock that only
moves forward. An entry past its deadline is not seen by any operation; that
it may still be in the map makes no difference to anyone. The unit of time is
that of the deadlines.

Runs are reasoned with what a command is confined to: two stores that agree on
its keys are not told apart by it, and the other keys are left (`Confined`).
-/

namespace PlatformGo.Expiring

structure Entry (V : Type*) where
  value : V
  /-- The last moment the entry is seen at, `none` for an entry that stays. -/
  deadline : Option Int := none
  deriving DecidableEq, Repr

variable {K V : Type*}

def Entry.live (e : Entry V) (now : Int) : Bool :=
  match e.deadline with
  | none => true
  | some d => decide (now ≤ d)

structure Store (K V : Type*) where
  entries : K → Option (Entry V) := fun _ => none
  now : Int := 0

namespace Store

/-- The entry of a key, unless it has expired. -/
def find (s : Store K V) (k : K) : Option (Entry V) :=
  (s.entries k).filter fun e => e.live s.now

def lookup (s : Store K V) (k : K) : Option V :=
  (s.find k).map Entry.value

def tick (s : Store K V) (d : Nat) : Store K V :=
  { s with now := s.now + d }

variable [DecidableEq K]

/-- Write an entry that is seen for the given time from now on. -/
def put (s : Store K V) (k : K) (v : V) (ttl : Option Int) : Store K V :=
  { s with
    entries := Function.update s.entries k
      (some ⟨v, ttl.map fun d => s.now + d⟩) }

/-- Write an entry where none is seen. -/
def putNew (s : Store K V) (k : K) (v : V) (ttl : Option Int) :
    Store K V × Bool :=
  match s.find k with
  | some _ => (s, false)
  | none => (s.put k v ttl, true)

def erase (s : Store K V) (ks : List K) : Store K V :=
  { s with entries := fun k => if ks.contains k then none else s.entries k }

/-! ## What an operation leaves -/

theorem put_self (s : Store K V) (k : K) (v : V) (ttl : Option Int) :
    (s.put k v ttl).entries k = some ⟨v, ttl.map fun d => s.now + d⟩ :=
  Function.update_self ..

theorem put_ne (s : Store K V) {k k' : K} (v : V) (ttl : Option Int)
    (h : k' ≠ k) : (s.put k v ttl).entries k' = s.entries k' :=
  Function.update_of_ne h ..

theorem erase_of_not_mem (s : Store K V) {ks : List K} {k : K}
    (h : ks.contains k = false) : (s.erase ks).entries k = s.entries k := by
  show (if ks.contains k then none else s.entries k) = s.entries k
  rw [h]
  rfl

theorem erase_of_mem (s : Store K V) {ks : List K} {k : K}
    (h : ks.contains k = true) : (s.erase ks).entries k = none := by
  show (if ks.contains k then none else s.entries k) = none
  rw [h]
  rfl

/-! ## Stores that agree on some keys -/

/-- The two show the same time, and the same entries of the keys. -/
structure Agree (P : K → Prop) (s t : Store K V) : Prop where
  now : s.now = t.now
  entries : ∀ k, P k → s.entries k = t.entries k

variable {P : K → Prop} {s t : Store K V}

omit [DecidableEq K] in
theorem Agree.find (h : Agree P s t) {k : K} (hk : P k) :
    s.find k = t.find k := by
  rw [Store.find, Store.find, h.entries k hk, h.now]

omit [DecidableEq K] in
theorem Agree.lookup (h : Agree P s t) {k : K} (hk : P k) :
    s.lookup k = t.lookup k := by
  rw [Store.lookup, Store.lookup, h.find hk]

omit [DecidableEq K] in
theorem Agree.tick (h : Agree P s t) (d : Nat) :
    Agree P (s.tick d) (t.tick d) :=
  ⟨congrArg (· + (d : Int)) h.now, h.entries⟩

theorem Agree.put (h : Agree P s t) (k : K) (v : V) (ttl : Option Int) :
    Agree P (s.put k v ttl) (t.put k v ttl) := by
  refine ⟨h.now, fun k' hk' => ?_⟩
  by_cases hkk : k' = k
  · subst hkk
    rw [put_self, put_self, h.now]
  · rw [put_ne s v ttl hkk, put_ne t v ttl hkk]
    exact h.entries k' hk'

theorem Agree.erase (h : Agree P s t) (ks : List K) :
    Agree P (s.erase ks) (t.erase ks) := by
  refine ⟨h.now, fun k hk => ?_⟩
  cases hmem : ks.contains k with
  | true => rw [erase_of_mem s hmem, erase_of_mem t hmem]
  | false =>
      rw [erase_of_not_mem s hmem, erase_of_not_mem t hmem]
      exact h.entries k hk

/-! ## Commands on some keys -/

/-- The command looks at the given keys only, and changes no others. -/
structure Confined {α : Type*} (P : K → Prop)
    (f : Store K V → Store K V × α) : Prop where
  same : ∀ {s t}, Agree P s t → (f s).2 = (f t).2 ∧ Agree P (f s).1 (f t).1
  leaves : ∀ s, Agree (fun k => ¬ P k) (f s).1 s

omit [DecidableEq K] in
theorem confined_read {α : Type*} {g : Store K V → α}
    (h : ∀ {s t}, Agree P s t → g s = g t) :
    Confined P fun s => (s, g s) :=
  ⟨fun hagree => ⟨h hagree, hagree⟩, fun _ => ⟨rfl, fun _ _ => rfl⟩⟩

theorem confined_put {k : K} (hk : P k) (v : V) (ttl : Option Int) :
    Confined P fun s => (s.put k v ttl, ()) := by
  refine ⟨fun h => ⟨rfl, h.put k v ttl⟩, fun s => ⟨rfl, fun k' hk' => ?_⟩⟩
  refine put_ne s v ttl ?_
  rintro rfl
  exact hk' hk

theorem confined_putNew {k : K} (hk : P k) (v : V) (ttl : Option Int) :
    Confined P fun s : Store K V => s.putNew k v ttl := by
  constructor
  · intro s t h
    rw [putNew, putNew, h.find hk]
    cases t.find k with
    | none => exact ⟨rfl, h.put k v ttl⟩
    | some e => exact ⟨rfl, h⟩
  · intro s
    rw [putNew]
    cases s.find k with
    | none => exact (confined_put hk v ttl).leaves s
    | some e => exact ⟨rfl, fun _ _ => rfl⟩

theorem confined_erase {ks : List K} (hks : ∀ k ∈ ks, P k) :
    Confined P fun s : Store K V => (s.erase ks, ()) := by
  refine ⟨fun h => ⟨rfl, h.erase ks⟩, fun s => ⟨rfl, fun k hk => ?_⟩⟩
  refine erase_of_not_mem s (Bool.eq_false_iff.mpr fun hmem => ?_)
  exact hk (hks k (List.contains_iff_mem.mp hmem))

omit [DecidableEq K] in
/-- What is answered may depend on the answer of the command. -/
theorem Confined.answer {α β : Type*} {f : Store K V → Store K V × α}
    {g : Store K V → Store K V × β} (h : Confined P f)
    (hstore : ∀ s, (g s).1 = (f s).1)
    (hanswer : ∀ s t, (f s).2 = (f t).2 → (g s).2 = (g t).2) :
    Confined P g := by
  refine ⟨fun {s t} hagree => ⟨hanswer s t (h.same hagree).1, ?_⟩, fun s => ?_⟩
  · rw [hstore, hstore]
    exact (h.same hagree).2
  · rw [hstore]
    exact h.leaves s

omit [DecidableEq K] in
/-- A command on other keys is not seen. -/
theorem Confined.outside {α : Type*} {Q : K → Prop}
    {f : Store K V → Store K V × α} (h : Confined Q f)
    (hapart : ∀ k, P k → ¬ Q k) (hagree : Agree P s t) :
    Agree P (f s).1 t := by
  refine ⟨(h.leaves s).now.trans hagree.now, fun k hk => ?_⟩
  rw [(h.leaves s).entries k (hapart k hk), hagree.entries k hk]

end Store

end PlatformGo.Expiring
