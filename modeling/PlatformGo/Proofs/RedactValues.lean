import PlatformGo.Ref.Redact

/-!
# What redaction does to a value

The two traversals ask the same question: is there a member at any depth whose
name is sensitive (`containsSensitiveValue_iff`, `replaces_iff`). They differ in
where they stop, and redaction does not go below a sensitive name; but a
sensitive name below one does not change the answer. So detection says whether
redaction replaces something.

A redacted value is described by its paths. Along a path without a sensitive
name nothing changes, and the value under the first sensitive name of a path is
the replacement (`redacts_redactValue`). This says all there is to say
(`Redacts.eq`), and since it mentions nothing below a sensitive name, values
that agree elsewhere are redacted to the same value (`Alike.redactValue_eq`).
-/

namespace PlatformGo.Redact

open PlatformGo.Json

variable {u : Unicode}

/-! ## The traversals, member by member -/

/-- What a member's value is replaced by. -/
def cover (u : Unicode) (name : Bytes) (v : Value) : Value :=
  if sensitiveKey u name then redacted else (redactValue u v).1

theorem redactItems_fst (items : List Value) :
    (redactItems u items).1 = items.map fun v => (redactValue u v).1 := by
  induction items with
  | nil => rfl
  | cons v items ih => rw [redactItems, List.map_cons, ← ih]

theorem redactMembers_fst (members : List (Bytes × Value)) :
    (redactMembers u members).1 =
      members.map fun m => (m.1, cover u m.1 m.2) := by
  induction members with
  | nil => rfl
  | cons m members ih =>
      rw [redactMembers, List.map_cons, ← ih, cover]
      by_cases hs : sensitiveKey u m.1 = true
      · rw [if_pos hs, if_pos hs]
      · rw [if_neg hs, if_neg hs]

theorem redactValue_array (items : List Value) :
    (redactValue u (.array items)).1 =
      .array (items.map fun v => (redactValue u v).1) := by
  rw [redactValue, ← redactItems_fst]

theorem redactValue_object (members : List (Bytes × Value)) :
    (redactValue u (.object members)).1 =
      .object (members.map fun m => (m.1, cover u m.1 m.2)) := by
  rw [redactValue, ← redactMembers_fst]

/-! ## Detection and replacement -/

/-- A sensitive name at any depth. -/
def Sensitive (u : Unicode) (v : Value) : Prop :=
  ∃ name ∈ v.names, sensitiveKey u name = true

theorem sensitive_scalar (s : Scalar) : ¬ Sensitive u (.scalar s) := by
  rintro ⟨name, hname, -⟩
  cases hname

theorem sensitive_array {items : List Value} :
    Sensitive u (.array items) ↔ ∃ v ∈ items, Sensitive u v := by
  simp only [Sensitive, Value.mem_names_array]
  constructor
  · rintro ⟨name, ⟨v, hv, hname⟩, hs⟩
    exact ⟨v, hv, name, hname, hs⟩
  · rintro ⟨v, hv, name, hname, hs⟩
    exact ⟨name, ⟨v, hv, hname⟩, hs⟩

theorem sensitive_object {members : List (Bytes × Value)} :
    Sensitive u (.object members) ↔
      ∃ m ∈ members, sensitiveKey u m.1 = true ∨ Sensitive u m.2 := by
  simp only [Sensitive, Value.mem_names_object]
  constructor
  · rintro ⟨name, ⟨m, hm, rfl | hname⟩, hs⟩
    · exact ⟨m, hm, .inl hs⟩
    · exact ⟨m, hm, .inr ⟨name, hname, hs⟩⟩
  · rintro ⟨m, hm, hs | ⟨name, hname, hs⟩⟩
    · exact ⟨m.1, ⟨m, hm, .inl rfl⟩, hs⟩
    · exact ⟨name, ⟨m, hm, .inr hname⟩, hs⟩

theorem containsSensitiveItems_eq (items : List Value) :
    containsSensitiveItems u items = items.any (containsSensitiveValue u) := by
  induction items with
  | nil => rfl
  | cons v items ih => rw [containsSensitiveItems, List.any_cons, ih]

theorem containsSensitiveMembers_eq (members : List (Bytes × Value)) :
    containsSensitiveMembers u members = members.any fun m =>
      sensitiveKey u m.1 || containsSensitiveValue u m.2 := by
  induction members with
  | nil => rfl
  | cons m members ih => rw [containsSensitiveMembers, List.any_cons, ih]

theorem containsSensitiveValue_iff {v : Value} :
    containsSensitiveValue u v = true ↔ Sensitive u v := by
  induction v using Value.induct with
  | scalar s =>
      refine iff_of_false (fun h => ?_) (sensitive_scalar s)
      cases h
  | array items ih =>
      rw [containsSensitiveValue, containsSensitiveItems_eq, List.any_eq_true,
        sensitive_array]
      exact exists_congr fun v => and_congr_right fun hv => ih v hv
  | object members ih =>
      rw [containsSensitiveValue, containsSensitiveMembers_eq,
        List.any_eq_true, sensitive_object]
      refine exists_congr fun m => and_congr_right fun hm => ?_
      rw [Bool.or_eq_true, ih m hm]

theorem redactItems_pos {items : List Value} :
    0 < (redactItems u items).2 ↔ ∃ v ∈ items, 0 < (redactValue u v).2 := by
  induction items with
  | nil => simp [redactItems]
  | cons v items ih =>
      rw [redactItems, List.exists_mem_cons_iff, ← ih]
      exact Nat.add_pos_iff_pos_or_pos

theorem redactMembers_pos {members : List (Bytes × Value)} :
    0 < (redactMembers u members).2 ↔
      ∃ m ∈ members, sensitiveKey u m.1 = true ∨ 0 < (redactValue u m.2).2 := by
  induction members with
  | nil => simp [redactMembers]
  | cons m members ih =>
      rw [redactMembers, List.exists_mem_cons_iff, ← ih]
      refine Nat.add_pos_iff_pos_or_pos.trans (or_congr_left ?_)
      split
      · next hs => exact iff_of_true Nat.one_pos (.inl hs)
      · next hs => exact (or_iff_right hs).symm

/-- Something is replaced exactly if there is a sensitive name. -/
theorem replaces_iff {v : Value} :
    0 < (redactValue u v).2 ↔ Sensitive u v := by
  induction v using Value.induct with
  | scalar s =>
      refine iff_of_false (fun h => ?_) (sensitive_scalar s)
      cases h
  | array items ih =>
      rw [redactValue, sensitive_array]
      refine redactItems_pos.trans ?_
      exact exists_congr fun v => and_congr_right fun hv => ih v hv
  | object members ih =>
      rw [redactValue, sensitive_object]
      refine redactMembers_pos.trans ?_
      refine exists_congr fun m => and_congr_right fun hm => ?_
      rw [ih m hm]

/-- Where no name is sensitive nothing changes. -/
theorem redactValue_eq_self {v : Value} (h : ¬ Sensitive u v) :
    (redactValue u v).1 = v := by
  induction v using Value.induct with
  | scalar s => rfl
  | array items ih =>
      rw [sensitive_array] at h
      rw [redactValue_array]
      refine congrArg Value.array ?_
      conv_rhs => rw [← List.map_id' items]
      exact List.map_congr_left fun v hv =>
        ih v hv fun hs => h ⟨v, hv, hs⟩
  | object members ih =>
      rw [sensitive_object] at h
      rw [redactValue_object]
      refine congrArg Value.object ?_
      conv_rhs => rw [← List.map_id' members]
      refine List.map_congr_left fun m hm => ?_
      have hname : ¬ sensitiveKey u m.1 = true := fun hs => h ⟨m, hm, .inl hs⟩
      rw [cover, if_neg hname, ih m hm fun hs => h ⟨m, hm, .inr hs⟩]

theorem redactValue_redactValue (v : Value) :
    (redactValue u (redactValue u v).1).1 = (redactValue u v).1 := by
  induction v using Value.induct with
  | scalar s => rfl
  | array items ih =>
      rw [redactValue_array, redactValue_array, List.map_map]
      exact congrArg Value.array (List.map_congr_left ih)
  | object members ih =>
      rw [redactValue_object, redactValue_object, List.map_map]
      refine congrArg Value.object (List.map_congr_left fun m hm => ?_)
      show (m.1, cover u m.1 (cover u m.1 m.2)) = (m.1, cover u m.1 m.2)
      by_cases hs : sensitiveKey u m.1 = true
      · rw [cover, cover, if_pos hs, if_pos hs]
      · rw [cover, cover, if_neg hs, if_neg hs, ih m hm]

/-- A sensitive name stays, only its value goes. -/
theorem sensitive_redactValue {v : Value} :
    Sensitive u (redactValue u v).1 ↔ Sensitive u v := by
  induction v using Value.induct with
  | scalar s => exact Iff.rfl
  | array items ih =>
      rw [redactValue_array, sensitive_array, sensitive_array]
      simp only [List.mem_map, exists_exists_and_eq_and]
      exact exists_congr fun v => and_congr_right fun hv => ih v hv
  | object members ih =>
      rw [redactValue_object, sensitive_object, sensitive_object]
      simp only [List.mem_map, exists_exists_and_eq_and]
      refine exists_congr fun m => and_congr_right fun hm => ?_
      by_cases hs : sensitiveKey u m.1 = true
      · exact iff_of_true (.inl hs) (.inl hs)
      · rw [cover, if_neg hs, ih m hm]

/-! ## The order of the members -/

/-- A way of listing the maps of a value, one after the other. A `range` loop
goes through a map in such an order. -/
structure Lists (v w : Value) : Prop where
  distinct : w.Distinct
  decoded : w.decoded = v

theorem Lists.sensitive_iff {v w : Value} (h : Lists v w) :
    Sensitive u w ↔ Sensitive u v := by
  rw [← h.decoded]
  exact exists_congr fun name => and_congr_left fun _ => h.distinct.mem_names

/-- The map that is left does not depend on the order. -/
theorem decoded_redactValue (v : Value) :
    (redactValue u v).1.decoded = (redactValue u v.decoded).1 := by
  induction v using Value.induct with
  | scalar s => rfl
  | array items ih =>
      rw [redactValue_array, Value.decoded_array, Value.decoded_array,
        redactValue_array, List.map_map, List.map_map]
      exact congrArg Value.array (List.map_congr_left ih)
  | object members ih =>
      rw [redactValue_object, Value.decoded_object, Value.decoded_object,
        redactValue_object, List.map_map, ← Value.toMap_map, List.map_map]
      refine congrArg (fun ms => Value.object (Value.toMap ms))
        (List.map_congr_left fun m hm => ?_)
      show (m.1, (cover u m.1 m.2).decoded) = (m.1, cover u m.1 m.2.decoded)
      by_cases hs : sensitiveKey u m.1 = true
      · rw [cover, cover, if_pos hs, if_pos hs]
        rfl
      · rw [cover, cover, if_neg hs, if_neg hs, ih m hm]

theorem distinct_redactValue {v : Value} (h : v.Distinct) :
    (redactValue u v).1.Distinct := by
  induction h with
  | scalar s => exact .scalar s
  | array _ ih =>
      rw [redactValue_array]
      exact .array (List.forall_mem_map.mpr ih)
  | @object members hnames _ ih =>
      rw [redactValue_object]
      refine .object ?_ (List.forall_mem_map.mpr fun m hm => ?_)
      · rw [List.map_map]
        exact hnames
      · show (cover u m.1 m.2).Distinct
        rw [cover]
        split
        · exact .scalar _
        · exact ih m hm

theorem wellFormed_redacted : redacted.WellFormed :=
  .string (Utf8.validString_iff.mp (by decide +kernel))

theorem wellFormed_redactValue {v : Value} (h : v.WellFormed) :
    (redactValue u v).1.WellFormed := by
  induction h with
  | null => exact .null
  | bool b => exact .bool b
  | number h => exact .number h
  | string h => exact .string h
  | array _ ih =>
      rw [redactValue_array]
      exact .array (List.forall_mem_map.mpr ih)
  | @object members hnames hvalid _ ih =>
      rw [redactValue_object]
      refine .object (List.pairwise_map.mpr hnames)
        (List.forall_mem_map.mpr hvalid)
        (List.forall_mem_map.mpr fun m hm => ?_)
      show (cover u m.1 m.2).WellFormed
      rw [cover]
      split
      · exact wellFormed_redacted
      · exact ih m hm

/-! ## Texts -/

theorem trimSpace_ne_nil {data : Bytes} {v : Value}
    (h : decode data = some v) : Utf8.trimSpace data ≠ [] := by
  obtain ⟨w, rest, hfirst, -⟩ := decode_eq_some_iff.mp h
  exact hfirst.trimSpace_ne_nil

theorem json_of_decode {data : Bytes} {v : Value} (h : decode data = some v)
    (syntaxError : Bytes → String) :
    json u syntaxError data = .ok (encode (redactValue u v).1) := by
  simp only [json, trimSpace_ne_nil h, if_false, h]

theorem containsSensitiveJSON_of_decode {data : Bytes} {v : Value}
    (h : decode data = some v) (syntaxError : Bytes → String) :
    containsSensitiveJSON u syntaxError data =
      .ok (containsSensitiveValue u v) := by
  simp only [containsSensitiveJSON, trimSpace_ne_nil h, if_false, h]

/-- The traversals agree in whatever orders they go through the maps: `c` and
`r` are two ways of listing one value. -/
theorem detection_agrees (u : Unicode) (syntaxError : Bytes → String)
    {v c r : Value} (hc : Lists v c) (hr : Lists v r) :
    (containsSensitiveValue u c = true ↔ 0 < (redactValue u r).2) ∧
      (containsSensitiveValue u c = false → (redactValue u r).1 = r) ∧
      (∀ data, decode data = some v →
        containsSensitiveJSON u syntaxError data = .ok false →
          json u syntaxError data = .ok (encode v) ∧
            decode (encode v) = some v) ∧
      (redactValue u (redactValue u r).1).1 = (redactValue u r).1 ∧
      ∀ w, Lists (redactValue u r).1.decoded w →
        (redactValue u w).1.decoded = w.decoded ∧
          containsSensitiveValue u w = containsSensitiveValue u c := by
  have hiff : containsSensitiveValue u c = true ↔ Sensitive u v :=
    containsSensitiveValue_iff.trans hc.sensitive_iff
  refine ⟨?_, ?_, ?_, redactValue_redactValue r, ?_⟩
  · rw [hiff, replaces_iff, hr.sensitive_iff]
  · intro hfalse
    refine redactValue_eq_self fun hs => ?_
    rw [hiff.mpr (hr.sensitive_iff.mp hs)] at hfalse
    cases hfalse
  · intro data hdata hfalse
    rw [containsSensitiveJSON_of_decode hdata] at hfalse
    have hnot : ¬ Sensitive u v := by
      intro hs
      rw [containsSensitiveValue_iff.mpr hs] at hfalse
      cases hfalse
    rw [json_of_decode hdata, redactValue_eq_self hnot]
    exact ⟨rfl, (wellFormed_decode hdata).decode_encode⟩
  · intro w hw
    have hmap : w.decoded = (redactValue u v).1 := by
      rw [hw.decoded, decoded_redactValue, hr.decoded]
    constructor
    · rw [decoded_redactValue, hmap, redactValue_redactValue]
    · rw [Bool.eq_iff_iff, hiff, containsSensitiveValue_iff, hw.sensitive_iff,
        ← hw.decoded, hmap, sensitive_redactValue]

theorem detection_agrees_listed :
    containsSensitiveValue ascii
        (.object [(bytes "a", .array [.object [(bytes "psk", .scalar .null)]]),
          (bytes "b", .scalar (.bool true))]) = true ∧
      0 < (redactValue ascii
        (.object [(bytes "b", .scalar (.bool true)),
          (bytes "a", .array [.object [(bytes "psk", .scalar .null)]])])).2 ∧
      containsSensitiveJSON ascii (fun _ => "") (bytes " [1.50,null] ") =
        .ok false ∧
      json ascii (fun _ => "") (bytes " [1.50,null] ") =
        .ok (bytes "[1.50,null]") := by
  have hpsk : (Value.array [.object [(bytes "psk", .scalar .null)]]).Distinct := by
    refine .array (List.forall_mem_singleton.mpr (.object ?_ ?_))
    · exact List.nodup_singleton _
    · exact List.forall_mem_singleton.mpr (.scalar _)
  have hc : Lists (.object [(bytes "a", .array [.object [(bytes "psk",
      .scalar .null)]]), (bytes "b", .scalar (.bool true))])
      (.object [(bytes "a", .array [.object [(bytes "psk", .scalar .null)]]),
        (bytes "b", .scalar (.bool true))]) :=
    ⟨.object (by decide +kernel) (List.forall_mem_cons.mpr ⟨hpsk,
      List.forall_mem_singleton.mpr (.scalar _)⟩), by decide +kernel⟩
  have hr : Lists (.object [(bytes "a", .array [.object [(bytes "psk",
      .scalar .null)]]), (bytes "b", .scalar (.bool true))])
      (.object [(bytes "b", .scalar (.bool true)),
        (bytes "a", .array [.object [(bytes "psk", .scalar .null)]])]) :=
    ⟨.object (by decide +kernel) (List.forall_mem_cons.mpr ⟨.scalar _,
      List.forall_mem_singleton.mpr hpsk⟩), by decide +kernel⟩
  have htrue : containsSensitiveValue ascii
      (.object [(bytes "a", .array [.object [(bytes "psk", .scalar .null)]]),
        (bytes "b", .scalar (.bool true))]) = true := by decide +kernel
  have hv : Lists (.array [.scalar (.number (bytes "1.50")), .scalar .null])
      (.array [.scalar (.number (bytes "1.50")), .scalar .null]) :=
    ⟨.array (List.forall_mem_cons.mpr ⟨.scalar _,
      List.forall_mem_singleton.mpr (.scalar _)⟩), by decide +kernel⟩
  have hdecode : decode (bytes " [1.50,null] ") =
      some (.array [.scalar (.number (bytes "1.50")), .scalar .null]) := by
    decide +kernel
  have hfalse : containsSensitiveJSON ascii (fun _ => "")
      (bytes " [1.50,null] ") = .ok false := by decide +kernel
  refine ⟨htrue, (detection_agrees ascii (fun _ => "") hc hr).1.mp htrue,
    hfalse, ?_⟩
  have hjson := ((detection_agrees ascii (fun _ => "") hv hv).2.2.1 _ hdecode
    hfalse).1
  rw [hjson]
  decide +kernel

/-! ## Paths -/

open Value (Step)

/-- A step to a member with a sensitive name. -/
def hides (u : Unicode) : Step → Bool
  | .member name => sensitiveKey u name
  | .item _ => false

/-- A path on which no name is sensitive. -/
def Open (u : Unicode) (path : List Step) : Prop :=
  ∀ step ∈ path, hides u step = false

/-- The values differ at most under sensitive names: a path without one leads
to the same scalar, to arrays of one length or to objects with the same names,
or nowhere in both. -/
def Alike (u : Unicode) (v w : Value) : Prop :=
  ∀ path, Open u path → (v.walk path).map Value.shape = (w.walk path).map Value.shape

/-- `w` is `v` with the value of each outermost sensitive member replaced, and
nothing else. -/
structure Redacts (u : Unicode) (v w : Value) : Prop where
  unchanged : Alike u v w
  replaced : ∀ {path name}, Open u path → sensitiveKey u name = true →
    (v.walk (path ++ [.member name])).isSome →
      w.walk (path ++ [.member name]) = some redacted

theorem child_redactValue (v : Value) (step : Step) :
    (redactValue u v).1.child step = (v.child step).map fun w =>
      if hides u step then redacted else (redactValue u w).1 := by
  cases v with
  | scalar s => rfl
  | array items =>
      rw [redactValue_array]
      cases step with
      | member => rfl
      | item index => exact List.getElem?_map
  | object members =>
      rw [redactValue_object]
      cases step with
      | item => rfl
      | member name => exact Value.lookup_map (cover u) members name

theorem shape_redactValue (v : Value) :
    (redactValue u v).1.shape = v.shape := by
  cases v with
  | scalar s => rfl
  | array items =>
      rw [redactValue_array, Value.shape, List.length_map]
      rfl
  | object members =>
      rw [redactValue_object, Value.shape, List.map_map]
      rfl

theorem walk_redactValue {path : List Step} (h : Open u path) (v : Value) :
    (redactValue u v).1.walk path =
      (v.walk path).map fun w => (redactValue u w).1 := by
  induction path generalizing v with
  | nil => rfl
  | cons step path ih =>
      obtain ⟨hstep, hpath⟩ := List.forall_mem_cons.mp h
      rw [Value.walk_cons, Value.walk_cons, child_redactValue, hstep]
      cases v.child step with
      | none => rfl
      | some w => exact ih hpath w

theorem redacts_redactValue (v : Value) : Redacts u v (redactValue u v).1 where
  unchanged path hpath := by
    rw [walk_redactValue hpath, Option.map_map]
    exact congrArg (Option.map · (v.walk path))
      (funext fun w => (shape_redactValue w).symm)
  replaced {path name} hpath hname hsome := by
    rw [Value.walk_append] at hsome ⊢
    rw [walk_redactValue hpath]
    cases hw : v.walk path with
    | none =>
        rw [hw] at hsome
        cases hsome
    | some w =>
        rw [hw, Option.bind_some, Value.walk_cons] at hsome
        rw [Option.map_some, Option.bind_some, Value.walk_cons,
          child_redactValue]
        cases hx : w.child (.member name) with
        | none =>
            rw [hx] at hsome
            cases hsome
        | some x =>
            rw [Option.map_some, hides, if_pos hname]
            rfl

theorem open_nil : Open u [] := fun _ h => absurd h List.not_mem_nil

theorem Alike.shape_eq {v w : Value} (h : Alike u v w) : v.shape = w.shape :=
  Option.some.inj (h [] open_nil)

/-- Values that differ at most under sensitive names have the same members,
sensitive ones included. -/
theorem Alike.isSome_walk {v w : Value} (h : Alike u v w) {path : List Step}
    (hpath : Open u path) (step : Step) :
    (v.walk (path ++ [step])).isSome = (w.walk (path ++ [step])).isSome := by
  have hshape := h path hpath
  rw [Value.walk_append, Value.walk_append]
  cases hv : v.walk path with
  | none =>
      rw [hv, Option.map_none] at hshape
      rw [Option.map_eq_none_iff.mp hshape.symm]
  | some x =>
      rw [hv, Option.map_some] at hshape
      obtain ⟨y, hw, heq⟩ := Option.map_eq_some_iff.mp hshape.symm
      have hone : ∀ z : Value, (z.walk [step]).isSome = (z.child step).isSome := by
        intro z
        rw [Value.walk_cons]
        cases z.child step <;> rfl
      rw [hw, Option.bind_some, Option.bind_some, hone, hone,
        Value.isSome_child heq.symm]

theorem Redacts.child {v w x y : Value} {step : Step} (h : Redacts u v w)
    (hstep : hides u step = false) (hx : v.child step = some x)
    (hy : w.child step = some y) : Redacts u x y where
  unchanged path hpath := by
    have hcons := h.unchanged (step :: path)
      (List.forall_mem_cons.mpr ⟨hstep, hpath⟩)
    rwa [Value.walk_cons, Value.walk_cons, hx, hy] at hcons
  replaced {path name} hpath hname hsome := by
    have hcons := h.replaced (List.forall_mem_cons.mpr ⟨hstep, hpath⟩) hname
    rw [List.cons_append, Value.walk_cons, Value.walk_cons, hx, hy] at hcons
    exact hcons hsome

/-- The description leaves no choice. -/
theorem Redacts.eq {v w : Value} (hv : v.Distinct) (hw : w.Distinct)
    (h : Redacts u v w) : w = (redactValue u v).1 := by
  induction v using Value.induct_child generalizing w with
  | h v ih =>
      refine Value.ext_child hw (distinct_redactValue hv) ?_ fun step => ?_
      · rw [shape_redactValue, h.unchanged.shape_eq]
      · have hsome := Value.isSome_child h.unchanged.shape_eq step
        rw [child_redactValue]
        cases hx : v.child step with
        | none =>
            rw [hx] at hsome
            exact Option.isNone_iff_eq_none.mp
              (Option.isSome_eq_false_iff.mp hsome.symm)
        | some x =>
            rw [hx] at hsome
            obtain ⟨y, hy⟩ := Option.isSome_iff_exists.mp hsome.symm
            rw [Option.map_some, hy]
            cases hstep : hides u step with
            | false =>
                exact congrArg some (ih step x hx (hv.child hx) (hw.child hy)
                  (h.child hstep hx hy))
            | true =>
                cases step with
                | item => cases hstep
                | member name =>
                    have hreplaced := h.replaced open_nil hstep
                    rw [List.nil_append, Value.walk_cons, Value.walk_cons, hx,
                      hy] at hreplaced
                    exact hreplaced rfl

/-- What is under sensitive names does not show after redaction. -/
theorem Alike.redactValue_eq {v w : Value} (hv : v.Distinct) (hw : w.Distinct)
    (h : Alike u v w) : (redactValue u v).1 = (redactValue u w).1 := by
  refine (Redacts.eq hv (distinct_redactValue hw) ⟨fun path hpath => ?_, ?_⟩).symm
  · exact (h path hpath).trans ((redacts_redactValue w).unchanged path hpath)
  · intro path name hpath hname hsome
    rw [h.isSome_walk hpath] at hsome
    exact (redacts_redactValue w).replaced hpath hname hsome

/-- The converse: values that redact to one value differ at most under
sensitive names. -/
theorem alike_of_redactValue_eq {v w : Value}
    (h : (redactValue u v).1 = (redactValue u w).1) : Alike u v w := by
  intro path hpath
  rw [(redacts_redactValue v).unchanged path hpath, h,
    ← (redacts_redactValue w).unchanged path hpath]

end PlatformGo.Redact
