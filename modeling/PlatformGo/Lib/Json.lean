import Mathlib.Data.List.Dedup
import Mathlib.Data.List.Sort
import PlatformGo.Lib.Utf8

/-!
# JSON values

One type for two things: the tree a text spells, where an object may have two
members of one name, and the value it is decoded to, where an object is a map.
A map is represented by its members in ascending order of their names, so that
equal maps are equal lists.

`decoded` goes from the first to the second: of several members with one name
the last one stays. What that loses is the point of the second half. `names`
are the names of all members at any depth, and `lost` those of the members that
decoding drops together with the value they stand in; a name of the tree is
either one of the decoded value or one of these (`mem_names_iff`).
-/

namespace PlatformGo.Json

open PlatformGo

/-! ## Numbers -/

/-- How far into a number literal the text has come. -/
inductive NumberState
  | start
  | sign
  | zero
  | int
  | point
  | frac
  | exp
  | expSign
  | expInt
deriving DecidableEq, Repr

namespace NumberState

def isDigit (b : UInt8) : Bool := 0x30 ≤ b && b ≤ 0x39

/-- The state after one more byte; `none` when it does not belong to the
literal. -/
def next : NumberState → UInt8 → Option NumberState
  | .start, b =>
      if b = 0x2d then some .sign else if b = 0x30 then some .zero
      else if isDigit b then some .int else none
  | .sign, b =>
      if b = 0x30 then some .zero else if isDigit b then some .int else none
  | .zero, b => fraction b
  | .int, b => if isDigit b then some .int else fraction b
  | .point, b => if isDigit b then some .frac else none
  | .frac, b => if isDigit b then some .frac else exponent b
  | .exp, b =>
      if b = 0x2b ∨ b = 0x2d then some .expSign
      else if isDigit b then some .expInt else none
  | .expSign, b => if isDigit b then some .expInt else none
  | .expInt, b => if isDigit b then some .expInt else none
where
  exponent (b : UInt8) : Option NumberState :=
    if b = 0x65 ∨ b = 0x45 then some .exp else none
  fraction (b : UInt8) : Option NumberState :=
    if b = 0x2e then some .point else exponent b

/-- A literal may end here. -/
def done : NumberState → Bool
  | .zero | .int | .frac | .expInt => true
  | _ => false

end NumberState

/-- A number literal: the whole text is read and may end where it does. -/
def IsNumber (literal : Bytes) : Prop :=
  ∃ s, literal.foldlM NumberState.next .start = some s ∧ s.done = true

/-! ## Values -/

inductive Scalar
  | null
  | bool (b : Bool)
  | number (literal : Bytes)
  | string (text : Bytes)
deriving DecidableEq, Repr

inductive Value
  | scalar (s : Scalar)
  | array (items : List Value)
  | object (members : List (Bytes × Value))

namespace Value

/-- Induction over a value: what holds of all items holds of the array, and
what holds of all members' values holds of the object. -/
@[elab_as_elim]
theorem induct {P : Value → Prop} (scalar : ∀ s, P (.scalar s))
    (array : ∀ items, (∀ v ∈ items, P v) → P (.array items))
    (object : ∀ members, (∀ m ∈ members, P m.2) → P (.object members))
    (v : Value) : P v :=
  @Value.rec P (fun items => ∀ v ∈ items, P v)
    (fun members => ∀ m ∈ members, P m.2) (fun m => P m.2) scalar array object
    (fun _ h => absurd h List.not_mem_nil)
    (fun _ _ h hs => List.forall_mem_cons.mpr ⟨h, hs⟩)
    (fun _ h => absurd h List.not_mem_nil)
    (fun _ _ h hs => List.forall_mem_cons.mpr ⟨h, hs⟩)
    (fun _ _ h => h) v

mutual

/-- Evaluates a value bottom up. -/
def fold {α : Type*} (scalar : Scalar → α) (array : List α → α)
    (object : List (Bytes × α) → α) : Value → α
  | .scalar s => scalar s
  | .array items => array (foldItems scalar array object items)
  | .object members => object (foldMembers scalar array object members)

def foldItems {α : Type*} (scalar : Scalar → α) (array : List α → α)
    (object : List (Bytes × α) → α) : List Value → List α
  | [] => []
  | v :: items =>
      v.fold scalar array object :: foldItems scalar array object items

def foldMembers {α : Type*} (scalar : Scalar → α) (array : List α → α)
    (object : List (Bytes × α) → α) : List (Bytes × Value) → List (Bytes × α)
  | [] => []
  | (name, v) :: members =>
      (name, v.fold scalar array object) ::
        foldMembers scalar array object members

end

section Fold

variable {α : Type*} (scalar : Scalar → α) (array : List α → α)
  (object : List (Bytes × α) → α)

theorem foldItems_eq (items : List Value) :
    foldItems scalar array object items =
      items.map (fold scalar array object) := by
  induction items with
  | nil => rw [foldItems, List.map_nil]
  | cons v items ih => rw [foldItems, List.map_cons, ih]

theorem foldMembers_eq (members : List (Bytes × Value)) :
    foldMembers scalar array object members =
      members.map fun m => (m.1, m.2.fold scalar array object) := by
  induction members with
  | nil => rw [foldMembers, List.map_nil]
  | cons m members ih => rw [foldMembers, List.map_cons, ih]

theorem fold_array (items : List Value) :
    (Value.array items).fold scalar array object =
      array (items.map (fold scalar array object)) := by
  rw [fold, foldItems_eq]

theorem fold_object (members : List (Bytes × Value)) :
    (Value.object members).fold scalar array object =
      object (members.map fun m => (m.1, m.2.fold scalar array object)) := by
  rw [fold, foldMembers_eq]

end Fold

mutual

def decEq : (v w : Value) → Decidable (v = w)
  | .scalar s, .scalar t => decidable_of_iff (s = t) (by simp)
  | .array xs, .array ys =>
      match decEqItems xs ys with
      | isTrue h => isTrue (h ▸ rfl)
      | isFalse h => isFalse fun heq => h (Value.array.inj heq)
  | .object ms, .object ns =>
      match decEqMembers ms ns with
      | isTrue h => isTrue (h ▸ rfl)
      | isFalse h => isFalse fun heq => h (Value.object.inj heq)
  | .scalar _, .array _ | .scalar _, .object _ | .array _, .scalar _
  | .array _, .object _ | .object _, .scalar _ | .object _, .array _ =>
      isFalse (by intro h; cases h)

def decEqItems : (xs ys : List Value) → Decidable (xs = ys)
  | [], [] => isTrue rfl
  | [], _ :: _ | _ :: _, [] => isFalse (by intro h; cases h)
  | x :: xs, y :: ys =>
      match decEq x y, decEqItems xs ys with
      | isTrue h, isTrue hs => isTrue (h ▸ hs ▸ rfl)
      | isFalse h, _ => isFalse fun heq => h (List.cons_eq_cons.mp heq).1
      | _, isFalse hs => isFalse fun heq => hs (List.cons_eq_cons.mp heq).2

def decEqMembers : (ms ns : List (Bytes × Value)) → Decidable (ms = ns)
  | [], [] => isTrue rfl
  | [], _ :: _ | _ :: _, [] => isFalse (by intro h; cases h)
  | (a, v) :: ms, (b, w) :: ns =>
      match decEq v w, decEqMembers ms ns with
      | isTrue h, isTrue hs =>
          decidable_of_iff (a = b) (by rw [h, hs]; simp)
      | isFalse h, _ => isFalse fun heq =>
          h (Prod.mk.inj (List.cons_eq_cons.mp heq).1).2
      | _, isFalse hs => isFalse fun heq => hs (List.cons_eq_cons.mp heq).2

end

instance : DecidableEq Value := decEq

/-! ## Names -/

/-- The names of all members, at any depth. -/
def names : Value → List Bytes :=
  fold (fun _ => []) List.flatten (List.flatMap fun m => m.1 :: m.2)

@[simp] theorem mem_names_array {items : List Value} {name : Bytes} :
    name ∈ (Value.array items).names ↔ ∃ v ∈ items, name ∈ v.names := by
  simp only [names, fold_array, List.mem_flatten, List.mem_map,
    exists_exists_and_eq_and]

@[simp] theorem mem_names_object {members : List (Bytes × Value)}
    {name : Bytes} :
    name ∈ (Value.object members).names ↔
      ∃ m ∈ members, name = m.1 ∨ name ∈ m.2.names := by
  simp only [names, fold_object, List.flatMap_map, List.mem_flatMap,
    List.mem_cons]

/-! ## Decoding -/

/-- Of the members with one name the last one, in order of the names. -/
def toMap {α : Type*} (members : List (Bytes × α)) : List (Bytes × α) :=
  (members.pwFilter fun m n => m.1 ≠ n.1).insertionSort fun m n => m.1 ≤ n.1

/-- The value with every object made a map. -/
def decoded : Value → Value :=
  fold .scalar .array fun members => .object (toMap members)

@[simp] theorem decoded_scalar (s : Scalar) :
    (Value.scalar s).decoded = .scalar s := rfl

@[simp] theorem decoded_array (items : List Value) :
    (Value.array items).decoded = .array (items.map decoded) :=
  fold_array _ _ _ items

@[simp] theorem decoded_object (members : List (Bytes × Value)) :
    (Value.object members).decoded =
      .object (toMap (members.map fun m => (m.1, m.2.decoded))) :=
  fold_object _ _ _ members

section ToMap

variable {α : Type*} {members : List (Bytes × α)} {m : Bytes × α}

theorem mem_toMap :
    m ∈ toMap members ↔ m ∈ members.pwFilter fun m n => m.1 ≠ n.1 :=
  List.mem_insertionSort _

theorem mem_of_mem_toMap (h : m ∈ toMap members) : m ∈ members :=
  List.pwFilter_subset members (mem_toMap.mp h)

/-- A name that no later member has is kept with its value, one that a later
member has is dropped. -/
theorem mem_toMap_cons {m' : Bytes × α} :
    m' ∈ toMap (m :: members) ↔
      (m.1 ∉ members.map Prod.fst ∧ m' = m) ∨ m' ∈ toMap members := by
  have hlater : (∀ n ∈ members.pwFilter fun m n => m.1 ≠ n.1, m.1 ≠ n.1) ↔
      m.1 ∉ members.map Prod.fst := by
    rw [List.forall_mem_pwFilter]
    · rw [List.mem_map, not_exists]
      exact forall_congr' fun n => by rw [not_and, ne_comm]
    · intro x y z hxz
      by_contra hne
      rw [not_or, not_not, not_not] at hne
      exact hxz (hne.1.trans hne.2)
  rw [mem_toMap, mem_toMap]
  by_cases hm : m.1 ∉ members.map Prod.fst
  · rw [List.pwFilter_cons_of_pos (hlater.mpr hm), List.mem_cons]
    exact or_congr_left (and_iff_right hm).symm
  · rw [List.pwFilter_cons_of_neg fun h => hm (hlater.mp h)]
    exact (or_iff_right fun h => hm h.1).symm

theorem exists_mem_toMap {name : Bytes} (h : name ∈ members.map Prod.fst) :
    ∃ m ∈ toMap members, m.1 = name := by
  induction members with
  | nil => cases h
  | cons m members ih =>
      by_cases hlater : name ∈ members.map Prod.fst
      · obtain ⟨n, hn, heq⟩ := ih hlater
        exact ⟨n, mem_toMap_cons.mpr (.inr hn), heq⟩
      · rw [List.map_cons, List.mem_cons, or_iff_left hlater] at h
        exact ⟨m, mem_toMap_cons.mpr (.inl ⟨h ▸ hlater, rfl⟩), h.symm⟩

theorem pairwise_toMap :
    (toMap members).Pairwise fun m n => m.1 < n.1 := by
  have hle := List.pairwise_insertionSort (fun m n : Bytes × α => m.1 ≤ n.1)
    (members.pwFilter fun m n => m.1 ≠ n.1)
  have hne : (toMap members).Pairwise fun m n => m.1 ≠ n.1 :=
    ((List.perm_insertionSort _ _).pairwise_iff fun h => Ne.symm h).mpr
      (List.pairwise_pwFilter members)
  refine (hle.and hne).imp fun {m n} h => ?_
  by_contra hlt
  exact h.2 (Std.le_antisymm h.1 (List.not_lt.mp hlt))

/-- A map is its own map. -/
theorem toMap_eq_self (h : members.Pairwise fun m n => m.1 < n.1) :
    toMap members = members := by
  have hne : members.pwFilter (fun m n => m.1 ≠ n.1) = members :=
    List.pwFilter_eq_self.mpr (h.imp fun {m n} hlt heq => by
      rw [heq] at hlt
      exact List.lt_irrefl _ hlt)
  rw [toMap, hne]
  exact List.Pairwise.insertionSort_eq (h.imp List.le_of_lt)

end ToMap

/-- What a value is like that some text spells: number literals and
well-formed text. -/
inductive Written : Value → Prop
  | null : Written (.scalar .null)
  | bool (b : Bool) : Written (.scalar (.bool b))
  | number {literal : Bytes} (h : IsNumber literal) :
      Written (.scalar (.number literal))
  | string {text : Bytes} (h : Utf8.Valid text) :
      Written (.scalar (.string text))
  | array {items : List Value} (h : ∀ v ∈ items, Written v) :
      Written (.array items)
  | object {members : List (Bytes × Value)}
      (hvalid : ∀ m ∈ members, Utf8.Valid m.1)
      (h : ∀ m ∈ members, Written m.2) : Written (.object members)

/-- What a value decoded from text is like: number literals, well-formed text,
and maps for objects. -/
inductive WellFormed : Value → Prop
  | null : WellFormed (.scalar .null)
  | bool (b : Bool) : WellFormed (.scalar (.bool b))
  | number {literal : Bytes} (h : IsNumber literal) :
      WellFormed (.scalar (.number literal))
  | string {text : Bytes} (h : Utf8.Valid text) :
      WellFormed (.scalar (.string text))
  | array {items : List Value} (h : ∀ v ∈ items, WellFormed v) :
      WellFormed (.array items)
  | object {members : List (Bytes × Value)}
      (hnames : members.Pairwise fun m n => m.1 < n.1)
      (hvalid : ∀ m ∈ members, Utf8.Valid m.1)
      (h : ∀ m ∈ members, WellFormed m.2) : WellFormed (.object members)

theorem WellFormed.written {v : Value} (h : v.WellFormed) : v.Written := by
  induction h with
  | null => exact .null
  | bool b => exact .bool b
  | number h => exact .number h
  | string h => exact .string h
  | array _ ih => exact .array ih
  | object _ hvalid _ ih => exact .object hvalid ih

theorem Written.decoded {v : Value} (h : v.Written) : v.decoded.WellFormed := by
  induction h with
  | null => exact .null
  | bool b => exact .bool b
  | number h => exact .number h
  | string h => exact .string h
  | array _ ih =>
      rw [decoded_array]
      exact .array (List.forall_mem_map.mpr ih)
  | @object members hvalid _ ih =>
      have hmap : ∀ n ∈ toMap (members.map fun m => (m.1, m.2.decoded)),
          Utf8.Valid n.1 ∧ n.2.WellFormed := by
        intro n hn
        obtain ⟨m, hm, rfl⟩ := List.mem_map.mp (mem_of_mem_toMap hn)
        exact ⟨hvalid m hm, ih m hm⟩
      rw [decoded_object]
      exact .object pairwise_toMap (fun n hn => (hmap n hn).1)
        (fun n hn => (hmap n hn).2)

theorem WellFormed.decoded_eq {v : Value} (h : v.WellFormed) :
    v.decoded = v := by
  induction h with
  | null | bool | number | string => rfl
  | array _ ih => rw [decoded_array, List.map_congr_left ih, List.map_id']
  | @object members hnames _ _ ih =>
      have hmap : (members.map fun m => (m.1, m.2.decoded)) = members := by
        conv_rhs => rw [← List.map_id members]
        exact List.map_congr_left fun m hm => by rw [ih m hm]; rfl
      rw [decoded_object, hmap, toMap_eq_self hnames]

/-! ## What decoding loses -/

mutual

/-- The names of the members that stand, at any depth, in a value that a later
member of the same name replaces. -/
def lost : Value → List Bytes
  | .scalar _ => []
  | .array items => lostItems items
  | .object members => lostMembers members

def lostItems : List Value → List Bytes
  | [] => []
  | v :: items => v.lost ++ lostItems items

def lostMembers : List (Bytes × Value) → List Bytes
  | [] => []
  | (name, v) :: members =>
      (if name ∈ members.map Prod.fst then v.names else v.lost) ++
        lostMembers members

end

theorem mem_lostItems {items : List Value} {name : Bytes} :
    name ∈ lostItems items ↔ ∃ v ∈ items, name ∈ v.lost := by
  induction items with
  | nil => simp [lostItems]
  | cons v items ih => simp [lostItems, ih]

theorem mem_names_array_iff {items : List Value} {name : Bytes}
    (h : ∀ v ∈ items, (name ∈ v.names ↔ name ∈ v.decoded.names ∨
      name ∈ v.lost)) :
    name ∈ (Value.array items).names ↔
      name ∈ (Value.array items).decoded.names ∨
        name ∈ (Value.array items).lost := by
  rw [decoded_array, mem_names_array, mem_names_array, lost, mem_lostItems]
  constructor
  · rintro ⟨v, hv, hname⟩
    rcases (h v hv).mp hname with hname | hname
    · exact .inl ⟨v.decoded, List.mem_map_of_mem hv, hname⟩
    · exact .inr ⟨v, hv, hname⟩
  · rintro (⟨w, hw, hname⟩ | ⟨v, hv, hname⟩)
    · obtain ⟨v, hv, rfl⟩ := List.mem_map.mp hw
      exact ⟨v, hv, (h v hv).mpr (.inl hname)⟩
    · exact ⟨v, hv, (h v hv).mpr (.inr hname)⟩

theorem mem_lostMembers_cons {m : Bytes × Value}
    {members : List (Bytes × Value)} {name : Bytes} :
    name ∈ lostMembers (m :: members) ↔
      (m.1 ∈ members.map Prod.fst ∧ name ∈ m.2.names) ∨
        (m.1 ∉ members.map Prod.fst ∧ name ∈ m.2.lost) ∨
          name ∈ lostMembers members := by
  rw [lostMembers, List.mem_append, ← or_assoc]
  refine or_congr_left ?_
  split
  · next hlater => simp only [hlater, not_true, true_and, false_and, or_false]
  · next hlast => simp only [hlast, not_false_iff, true_and, false_and, false_or]

theorem mem_names_object_iff {members : List (Bytes × Value)} {name : Bytes}
    (h : ∀ m ∈ members, (name ∈ m.2.names ↔ name ∈ m.2.decoded.names ∨
      name ∈ m.2.lost)) :
    name ∈ (Value.object members).names ↔
      name ∈ (Value.object members).decoded.names ∨
        name ∈ (Value.object members).lost := by
  rw [decoded_object, lost]
  induction members with
  | nil => simp [toMap, lostMembers]
  | cons m members ih =>
      rw [List.forall_mem_cons] at h
      have hrest := ih h.2
      rw [mem_names_object, mem_names_object] at hrest ⊢
      have hfst : ((members.map fun m => (m.1, m.2.decoded)).map Prod.fst) =
          members.map Prod.fst := by
        rw [List.map_map]
        rfl
      rw [List.exists_mem_cons_iff, hrest, List.map_cons, mem_lostMembers_cons]
      simp only [mem_toMap_cons, hfst, or_and_right, exists_or, and_assoc,
        exists_and_left, exists_eq_left, h.1]
      -- The name of a dropped member is still there: a later member has it.
      have hkept : m.1 ∈ members.map Prod.fst → name = m.1 →
          ∃ n ∈ toMap (members.map fun m => (m.1, m.2.decoded)),
            name = n.1 ∨ name ∈ n.2.names := by
        intro hlater hname
        obtain ⟨n, hn, heq⟩ := exists_mem_toMap (hfst ▸ hlater)
        exact ⟨n, hn, .inl (hname.trans heq.symm)⟩
      generalize (∃ n ∈ toMap (members.map fun m => (m.1, m.2.decoded)),
        name = n.1 ∨ name ∈ n.2.names) = kept at hkept ⊢
      grind

/-- A name of the tree is one of the decoded value or one that decoding
loses. -/
theorem mem_names_iff {v : Value} {name : Bytes} :
    name ∈ v.names ↔ name ∈ v.decoded.names ∨ name ∈ v.lost := by
  induction v using induct with
  | scalar s => simp [lost]
  | array items ih => exact mem_names_array_iff ih
  | object members ih => exact mem_names_object_iff ih

/-! ## Values in which no name is repeated -/

/-- No object has two members of one name, in whatever order they are. -/
inductive Distinct : Value → Prop
  | scalar (s : Scalar) : Distinct (.scalar s)
  | array {items : List Value} (h : ∀ v ∈ items, Distinct v) :
      Distinct (.array items)
  | object {members : List (Bytes × Value)}
      (hnames : (members.map Prod.fst).Nodup)
      (h : ∀ m ∈ members, Distinct m.2) : Distinct (.object members)

theorem nodup_of_pairwise_lt {α : Type*} {members : List (Bytes × α)}
    (h : members.Pairwise fun m n => m.1 < n.1) :
    (members.map Prod.fst).Nodup := by
  refine List.pairwise_map.mpr (h.imp fun {m n} hlt heq => ?_)
  rw [heq] at hlt
  exact List.lt_irrefl _ hlt

theorem WellFormed.distinct {v : Value} (h : v.WellFormed) : v.Distinct := by
  induction h with
  | null | bool | number | string => exact .scalar _
  | array _ ih => exact .array ih
  | object hnames _ _ ih => exact .object (nodup_of_pairwise_lt hnames) ih

/-- Decoding loses nothing where no name is repeated. -/
theorem Distinct.lost_eq_nil {v : Value} (h : v.Distinct) : v.lost = [] := by
  induction h with
  | scalar => rfl
  | @array items _ ih =>
      refine List.eq_nil_iff_forall_not_mem.mpr fun name hname => ?_
      rw [lost, mem_lostItems] at hname
      obtain ⟨v, hv, hname⟩ := hname
      rw [ih v hv] at hname
      cases hname
  | @object members hnames _ ih =>
      rw [lost]
      induction members with
      | nil => rfl
      | cons m members ihm =>
          rw [List.map_cons, List.nodup_cons] at hnames
          rw [List.forall_mem_cons] at ih
          rename_i h
          rw [lostMembers, if_neg hnames.1, ih.1, List.nil_append,
            ihm hnames.2 (fun n hn => h n (List.mem_cons_of_mem m hn)) ih.2]

/-- A value and the same value with its maps listed in another order have the
same names. -/
theorem Distinct.mem_names {v : Value} (h : v.Distinct) {name : Bytes} :
    name ∈ v.names ↔ name ∈ v.decoded.names := by
  rw [mem_names_iff, h.lost_eq_nil]
  exact or_iff_left List.not_mem_nil

/-- Changing the values of members, not their names, and making a map of them
can be done in either order. -/
theorem toMap_map {α β : Type*} (f : Bytes → α → β)
    (members : List (Bytes × α)) :
    toMap (members.map fun m => (m.1, f m.1 m.2)) =
      (toMap members).map fun m => (m.1, f m.1 m.2) := by
  rw [toMap, toMap, List.pwFilter_map]
  symm
  exact List.map_insertionSort _ _ _ _ fun _ _ _ _ => Iff.rfl

/-! ## Paths -/

/-- A step into a value. -/
inductive Step
  | member (name : Bytes)
  | item (index : Nat)
deriving DecidableEq, Repr

def child : Value → Step → Option Value
  | .object members, .member name => members.lookup name
  | .array items, .item index => items[index]?
  | _, _ => none

/-- Where a path leads. -/
def walk (v : Value) (path : List Step) : Option Value := path.foldlM child v

theorem walk_cons (v : Value) (step : Step) (path : List Step) :
    v.walk (step :: path) = (v.child step).bind fun w => w.walk path :=
  List.foldlM_cons

theorem walk_append (v : Value) (path path' : List Step) :
    v.walk (path ++ path') = (v.walk path).bind fun w => w.walk path' :=
  List.foldlM_append

/-- What a value is without what is in it: the length of an array, the names
of an object. -/
inductive Shape
  | scalar (s : Scalar)
  | array (length : Nat)
  | object (names : List Bytes)
deriving DecidableEq, Repr

def shape : Value → Shape
  | .scalar s => .scalar s
  | .array items => .array items.length
  | .object members => .object (members.map Prod.fst)

/-- Values of one shape have the same steps. -/
theorem isSome_child {v w : Value} (h : v.shape = w.shape) (step : Step) :
    (v.child step).isSome = (w.child step).isSome := by
  cases v with
  | scalar s =>
      cases w with
      | scalar => rfl
      | array | object => cases h
  | array items =>
      cases w with
      | array items' =>
          have hlen : items.length = items'.length := Shape.array.inj h
          cases step with
          | member => rfl
          | item index =>
              refine Bool.eq_iff_iff.mpr ?_
              simp [child, hlen]
      | scalar | object => cases h
  | object members =>
      cases w with
      | object members' =>
          have hnames := Shape.object.inj h
          cases step with
          | item => rfl
          | member name =>
              have hlookup : ∀ ms : List (Bytes × Value),
                  (ms.lookup name).isSome = true ↔ name ∈ ms.map Prod.fst := by
                intro ms
                rw [List.lookup_isSome_iff, List.mem_map]
                constructor
                · rintro ⟨m, hm, heq⟩
                  exact ⟨m, hm, (beq_iff_eq.mp heq).symm⟩
                · rintro ⟨m, hm, rfl⟩
                  exact ⟨m, hm, beq_self_eq_true _⟩
              rw [child, child, Bool.eq_iff_iff, hlookup, hlookup, hnames]
      | scalar | array => cases h

/-- Induction over a value along its steps. -/
theorem induct_child {P : Value → Prop}
    (h : ∀ v, (∀ step w, v.child step = some w → P w) → P v) (v : Value) :
    P v := by
  induction v using induct with
  | scalar s => exact h _ fun step w hw => by cases hw
  | array items ih =>
      refine h _ fun step w hw => ?_
      cases step with
      | member => cases hw
      | item index => exact ih w (List.mem_of_getElem? hw)
  | object members ih =>
      refine h _ fun step w hw => ?_
      cases step with
      | item => cases hw
      | member name =>
          obtain ⟨l₁, l₂, heq, -⟩ := List.lookup_eq_some_iff.mp hw
          exact ih (name, w) (heq ▸ List.mem_append_right l₁ List.mem_cons_self)

theorem Distinct.child {v w : Value} {step : Step} (h : v.Distinct)
    (hw : v.child step = some w) : w.Distinct := by
  cases h with
  | scalar => cases hw
  | array h =>
      cases step with
      | member => cases hw
      | item index => exact h w (List.mem_of_getElem? hw)
  | object _ h =>
      cases step with
      | item => cases hw
      | member name =>
          obtain ⟨l₁, l₂, heq, -⟩ := List.lookup_eq_some_iff.mp hw
          exact h (name, w) (heq ▸ List.mem_append_right l₁ List.mem_cons_self)

theorem lookup_of_mem {α : Type*} {members : List (Bytes × α)}
    {m : Bytes × α} (hnames : (members.map Prod.fst).Nodup)
    (hm : m ∈ members) : members.lookup m.1 = some m.2 := by
  induction members with
  | nil => cases hm
  | cons n members ih =>
      rw [List.map_cons, List.nodup_cons] at hnames
      rw [List.lookup_cons]
      rcases List.mem_cons.mp hm with rfl | hm
      · rw [beq_self_eq_true]
      · have hne : (m.1 == n.1) = false := beq_eq_false_iff_ne.mpr fun heq =>
          hnames.1 (heq ▸ List.mem_map_of_mem hm)
        rw [hne]
        exact ih hnames.2 hm

theorem lookup_map {α β : Type*} (f : Bytes → α → β)
    (members : List (Bytes × α)) (name : Bytes) :
    (members.map fun m => (m.1, f m.1 m.2)).lookup name =
      (members.lookup name).map (f name) := by
  induction members with
  | nil => rfl
  | cons m members ih =>
      rw [List.map_cons, List.lookup_cons, List.lookup_cons]
      split
      · next heq =>
          rw [beq_iff_eq.mp heq]
          rfl
      · exact ih

/-- A value is given by its shape and where its steps lead. -/
theorem ext_child {v w : Value} (hv : v.Distinct) (hw : w.Distinct)
    (hshape : v.shape = w.shape) (hchild : ∀ step, v.child step = w.child step) :
    v = w := by
  cases hv with
  | scalar s =>
      cases w with
      | scalar => exact congrArg Value.scalar (Shape.scalar.inj hshape)
      | array | object => cases hshape
  | @array items _ =>
      cases w with
      | array items' =>
          exact congrArg Value.array
            (List.ext_getElem? fun index => hchild (.item index))
      | scalar | object => cases hshape
  | @object members hnames _ =>
      cases hw with
      | @object members' hnames' _ =>
          have hfst : members.map Prod.fst = members'.map Prod.fst :=
            Shape.object.inj hshape
          refine congrArg Value.object (List.ext_getElem ?_ ?_)
          · simpa using congrArg List.length hfst
          · intro i hi hi'
            have hname : members[i].1 = members'[i].1 := by
              have hget := List.getElem_of_eq hfst (by simpa using hi)
              simpa using hget
            have hval := hchild (.member members[i].1)
            rw [child, child, lookup_of_mem hnames (List.getElem_mem hi), hname,
              lookup_of_mem hnames' (List.getElem_mem hi')] at hval
            exact Prod.ext hname (Option.some.inj hval)
      | scalar | array => cases hshape

end Value

end PlatformGo.Json
