import Mathlib.Data.List.TakeWhile
import PlatformGo.Lib.Joined
import PlatformGo.Ref.RoutePolicy

/-!
# Permission keys and the expressions they stand in

`PermissionKey` joins a resource and an action with a dot, and `PermissionKeys`
of the route policies finds such keys in an expression, by the form
`permissions["key"]`. Two things can go wrong. Both parts may have dots of
their own, so that a key can be cut in two ways. And each part may have 128
characters, where the expression leaves room for a whole key of 128.

A key that fits is found wherever it is written, and nothing else is found
because of it. That takes an argument about the text before: a match that
starts there could reach into the reference. It cannot, because a match has one
opening bracket, behind its first word, and one closing bracket, at its end
(`prefix_of_overlap`).
-/

namespace PlatformGo.RoutePolicy

open Authz PlatformGo.Joined

/-! ## What the regular expression matches -/

theorem afterLiteral_eq_some {literal text rest : List Char} :
    afterLiteral literal text = some rest ↔ text = literal ++ rest := by
  induction literal generalizing text with
  | nil => simp [afterLiteral]
  | cons c literal ih =>
      cases text with
      | nil => simp [afterLiteral]
      | cons d text =>
          rw [afterLiteral]
          split
          · next h => simp [ih, h]
          · next h => simp [Ne.symm h]

/-- A key as the expression has it. -/
structure IsKey (key : List Char) : Prop where
  opens : key.head?.any isLower = true
  long : 3 ≤ key.length
  short : key.length ≤ 128
  chars : ∀ c ∈ key, isKeyChar c = true

/-- What stands between the brackets of a match. -/
structure Inside (key inside : List Char) : Prop where
  isKey : IsKey key
  quoted : ∃ before after, inside = before ++ '"' :: (key ++ '"' :: after) ∧
    (∀ c ∈ before, isReSpace c = true) ∧ ∀ c ∈ after, isReSpace c = true

def word : List Char := "permissions".toList

theorem takeWhile_cut {α : Type} {p : α → Bool} {a b : List α} {c : α}
    (ha : ∀ x ∈ a, p x = true) (hc : p c = false) :
    (a ++ c :: b).takeWhile p = a ∧ (a ++ c :: b).dropWhile p = c :: b := by
  rw [List.takeWhile_append_of_pos ha, List.dropWhile_append_of_pos ha]
  simp [hc]

theorem eq_takeWhile_append {p : Char → Bool} {text rest : List Char}
    (h : text.dropWhile p = rest) : text = text.takeWhile p ++ rest := by
  rw [← h, List.takeWhile_append_dropWhile]

theorem matchRef_eq_some {text rest : List Char} {key : String} :
    matchRef text = some (key, rest) ↔
      ∃ inside, Inside key.toList inside ∧
        text = word ++ '[' :: (inside ++ ']' :: rest) := by
  have hword : "permissions[".toList = word ++ ['['] := by decide
  simp only [matchRef, hword, Option.bind_eq_bind, Option.bind_eq_some_iff,
    afterLiteral_eq_some]
  constructor
  · rintro ⟨t₁, rfl, t₂, h₂, t₃, h₃, t₄, h₄, h⟩
    split at h
    · next hkey =>
        cases h
        rw [String.toList_ofList]
        refine ⟨t₁.takeWhile isReSpace ++ '"' :: (t₂.takeWhile isKeyChar ++
          '"' :: t₃.takeWhile isReSpace), ⟨?_, _, _, rfl, ?_, ?_⟩, ?_⟩
        · exact ⟨hkey.1, hkey.2.1, hkey.2.2, fun _ => List.mem_takeWhile_imp⟩
        · exact fun _ => List.mem_takeWhile_imp
        · exact fun _ => List.mem_takeWhile_imp
        · have ht₁ := eq_takeWhile_append h₂
          have ht₂ := eq_takeWhile_append h₃
          have ht₃ := eq_takeWhile_append h₄
          simp only [List.append_assoc, List.cons_append, List.nil_append]
            at ht₁ ht₂ ht₃ ⊢
          rw [← ht₃, ← ht₂, ← ht₁]
    · cases h
  · rintro ⟨inside, ⟨hkey, before, after, rfl, hbefore, hafter⟩, rfl⟩
    obtain ⟨-, hdrop⟩ := takeWhile_cut
      (b := key.toList ++ '"' :: (after ++ ']' :: rest)) hbefore
      (by decide : isReSpace '"' = false)
    obtain ⟨htakeKey, hdropKey⟩ := takeWhile_cut (b := after ++ ']' :: rest)
      hkey.chars (by decide : isKeyChar '"' = false)
    obtain ⟨-, hdropAfter⟩ := takeWhile_cut (b := rest) hafter
      (by decide : isReSpace ']' = false)
    refine ⟨before ++ '"' :: (key.toList ++ '"' :: (after ++ ']' :: rest)),
      by simp, key.toList ++ '"' :: (after ++ ']' :: rest), hdrop,
      after ++ ']' :: rest, hdropKey, rest, hdropAfter, ?_⟩
    rw [htakeKey, if_pos ⟨hkey.opens, hkey.long, hkey.short⟩,
      String.ofList_toList]

/-! ## A match keeps to itself -/

theorem notMem_of_all {p : Char → Bool} {text : List Char} {c : Char}
    (h : ∀ x ∈ text, p x = true) (hc : p c = false) : c ∉ text := by
  intro hmem
  rw [h c hmem] at hc
  cases hc

/-- There is no bracket between the brackets. -/
theorem Inside.notMem {key inside : List Char} (h : Inside key inside)
    {c : Char} (hc : c = '[' ∨ c = ']') : c ∉ inside := by
  obtain ⟨before, after, rfl, hbefore, hafter⟩ := h.quoted
  have hspace : isReSpace c = false := by rcases hc with rfl | rfl <;> decide
  have hchar : isKeyChar c = false := by rcases hc with rfl | rfl <;> decide
  have hquote : c ≠ '"' := by rcases hc with rfl | rfl <;> decide
  simp [hquote, notMem_of_all hbefore hspace, notMem_of_all hafter hspace,
    notMem_of_all h.isKey.chars hchar]

theorem word_notMem {c : Char} (hc : c = '[' ∨ c = ']') : c ∉ word := by
  rcases hc with rfl | rfl <;> decide

/-- A match that starts before another is over before it. -/
theorem prefix_of_overlap {key key' inside inside' pre post rest : List Char}
    (h : Inside key inside) (h' : Inside key' inside') (hpre : pre ≠ [])
    (heq : pre ++ (word ++ '[' :: (inside ++ ']' :: post)) =
      word ++ '[' :: (inside' ++ ']' :: rest)) :
    ∃ left, pre = word ++ '[' :: (inside' ++ ']' :: left) ∧
      rest = left ++ (word ++ '[' :: (inside ++ ']' :: post)) := by
  have hclose : ∀ {x : List Char}, ']' ∉ x → ']' ∉ word ++ '[' :: x := by
    intro x hx
    simp [hx, word_notMem]
  have hopen := h.notMem (.inl rfl)
  have hopen' := h'.notMem (.inl rfl)
  have hends := hclose (h.notMem (.inr rfl))
  have hends' := hclose (h'.notMem (.inr rfl))
  -- The first closing bracket of the text is that of the earlier match.
  have hcut : (word ++ '[' :: inside') ++ ']' :: rest =
      pre ++ ((word ++ '[' :: inside) ++ ']' :: post) := by
    simpa using heq.symm
  rcases List.append_eq_append_iff.mp hcut with ⟨x, rfl, hx⟩ | ⟨x, hx, hrest⟩
  · cases x with
    | nil =>
        obtain ⟨hnil, -⟩ := (cut_inj List.not_mem_nil hends).mp hx
        simp at hnil
    | cons c left =>
        rw [List.cons_append, List.cons.injEq] at hx
        obtain ⟨rfl, rfl⟩ := hx
        exact ⟨left, by simp, by simp⟩
  · -- Otherwise the two end together, and then they start together.
    have hxends : ']' ∉ x := by
      intro hmem
      exact hends' (hx ▸ List.mem_append_right pre hmem)
    obtain ⟨rfl, -⟩ := (cut_inj hends hxends).mp hrest
    rw [← List.append_assoc] at hx
    rcases cut_eq_iff.mp hx with ⟨hw, -⟩ | ⟨y, -, hy⟩ | ⟨y, hy, -⟩
    · exact absurd (List.self_eq_append_left.mp hw) hpre
    · exact absurd (by simp [hy]) hopen'
    · refine absurd ?_ (word_notMem (.inl rfl))
      rw [hy]
      simp

/-! ## What is found in a text with a reference -/

theorem findRefs_skip (skip : Nat) (text : List Char) :
    findRefs skip text = findRefs 0 (text.drop skip) := by
  induction text generalizing skip with
  | nil => cases skip <;> rfl
  | cons c text ih =>
      cases skip with
      | zero => rfl
      | succ skip => rw [findRefs, ih, List.drop_succ_cons]

theorem findRefs_of_none {c : Char} {text : List Char}
    (h : matchRef (c :: text) = none) :
    findRefs 0 (c :: text) = findRefs 0 text := by
  rw [findRefs, h]

/-- Behind a match the search starts again. -/
theorem findRefs_match {key : String} {inside rest : List Char}
    (h : Inside key.toList inside) :
    findRefs 0 (word ++ '[' :: (inside ++ ']' :: rest)) =
      key :: findRefs 0 rest := by
  obtain ⟨c, tail, hword⟩ : ∃ c tail, word = c :: tail := ⟨_, _, rfl⟩
  have hmatch : matchRef (word ++ '[' :: (inside ++ ']' :: rest)) =
      some (key, rest) := matchRef_eq_some.mpr ⟨inside, h, rfl⟩
  have hsuffix : rest <:+ tail ++ '[' :: (inside ++ ']' :: rest) :=
    ⟨tail ++ '[' :: (inside ++ [']']), by simp⟩
  rw [hword, List.cons_append] at hmatch ⊢
  rw [findRefs, hmatch]
  dsimp only
  rw [findRefs_skip, ← List.suffix_iff_eq_drop.mp hsuffix]

theorem matchRef_append {text rest : List Char} {key : String}
    (h : matchRef text = some (key, rest)) (more : List Char) :
    matchRef (text ++ more) = some (key, rest ++ more) := by
  obtain ⟨inside, hinside, rfl⟩ := matchRef_eq_some.mp h
  exact matchRef_eq_some.mpr ⟨inside, hinside, by simp⟩

/-- A reference in a text adds its key, and takes nothing from what is found
before and after it. -/
theorem findRefs_ref {key : String} {inside : List Char}
    (h : Inside key.toList inside) (pre post : List Char) :
    findRefs 0 (pre ++ (word ++ '[' :: (inside ++ ']' :: post))) =
      findRefs 0 pre ++ key :: findRefs 0 post := by
  induction hn : pre.length using Nat.strong_induction_on generalizing pre with
  | _ n ih =>
    subst hn
    cases pre with
    | nil => exact findRefs_match h
    | cons c pre =>
        cases hmatch : matchRef (c :: pre ++
            (word ++ '[' :: (inside ++ ']' :: post))) with
        | none =>
            have hpre : matchRef (c :: pre) = none := by
              refine Option.eq_none_iff_forall_ne_some.mpr ?_
              intro found hfound
              rw [matchRef_append hfound] at hmatch
              cases hmatch
            rw [List.cons_append] at hmatch ⊢
            rw [findRefs_of_none hpre, findRefs_of_none hmatch,
              ih _ (Nat.lt_succ_self _) pre rfl]
        | some found =>
            obtain ⟨key', rest⟩ := found
            obtain ⟨inside', h', heq⟩ := matchRef_eq_some.mp hmatch
            obtain ⟨left, hpre, rfl⟩ :=
              prefix_of_overlap h h' (List.cons_ne_nil c pre) heq
            have hshort : left.length < (c :: pre).length := by
              rw [hpre]
              simp
              omega
            rw [heq, hpre, findRefs_match h', findRefs_match h',
              ih _ hshort left rfl, List.cons_append]

/-- The text of a reference to the key stands behind the given one. -/
def StandsAt (key : String) (pre text : List Char) : Prop :=
  ∃ inside post, Inside key.toList inside ∧
    text = pre ++ (word ++ '[' :: (inside ++ ']' :: post))

theorem StandsAt.cons {key : String} {pre text : List Char}
    (h : StandsAt key pre text) (c : Char) :
    StandsAt key (c :: pre) (c :: text) := by
  obtain ⟨inside, post, hinside, rfl⟩ := h
  exact ⟨inside, post, hinside, rfl⟩

theorem standsAt_of_mem {key : String} {text : List Char} {skip : Nat}
    (h : key ∈ findRefs skip text) : ∃ pre, StandsAt key pre text := by
  induction text generalizing skip with
  | nil => cases skip <;> cases h
  | cons c text ih =>
      have hlater : ∀ {skip}, key ∈ findRefs skip text →
          ∃ pre, StandsAt key pre (c :: text) := fun h => by
        obtain ⟨pre, hpre⟩ := ih h
        exact ⟨c :: pre, hpre.cons c⟩
      cases skip with
      | succ skip => exact hlater h
      | zero =>
          rw [findRefs] at h
          split at h
          · next rest hmatch =>
              rcases List.mem_cons.mp h with rfl | h
              · obtain ⟨inside, hinside, heq⟩ := matchRef_eq_some.mp hmatch
                exact ⟨[], inside, rest, hinside, heq⟩
              · exact hlater h
          · exact hlater h

/-- The references found are all there are in the text. -/
theorem mem_findRefs {key : String} {text : List Char} :
    key ∈ findRefs 0 text ↔ ∃ pre, StandsAt key pre text := by
  constructor
  · exact standsAt_of_mem
  · rintro ⟨pre, inside, post, hinside, rfl⟩
    simp [findRefs_ref hinside]

/-- Nothing is found that is not a key. -/
theorem isKey_of_mem {key : String} {text : List Char}
    (h : key ∈ findRefs 0 text) : IsKey key.toList := by
  obtain ⟨pre, inside, post, hinside, -⟩ := mem_findRefs.mp h
  exact hinside.isKey

/-! ## The keys of permissions -/

/-- A reference to a key, as one writes it. -/
def reference (key : String) : String := "permissions[\"" ++ key ++ "\"]"

/-- Wherever a reference to the key is written, the key is found, and besides
it what is found in the text around. -/
def Recognised (key : String) : Prop :=
  ∀ pre post found : String,
    found ∈ permissionKeys (pre ++ reference key ++ post) ↔
      found ∈ permissionKeys pre ∨ found = key ∨ found ∈ permissionKeys post

theorem mem_permissionKeys {key expression : String} :
    key ∈ permissionKeys expression ↔ key ∈ findRefs 0 expression.toList :=
  List.mem_eraseDups

theorem toList_reference (key : String) :
    (reference key).toList =
      word ++ '[' :: ('"' :: (key.toList ++ ['"']) ++ [']']) := by
  have hopens : "permissions[\"".toList = word ++ ['[', '"'] := by decide
  have hcloses : "\"]".toList = ['"', ']'] := by decide
  show ("permissions[\"" ++ key ++ "\"]").toList = _
  simp [String.toList_append, hopens, hcloses]

theorem recognised_iff {key : String} : Recognised key ↔ IsKey key.toList := by
  constructor
  · intro h
    have hmem := (h "" "" key).mpr (.inr (.inl rfl))
    exact isKey_of_mem (mem_permissionKeys.mp hmem)
  · intro h pre post found
    have hinside : Inside key.toList ('"' :: (key.toList ++ ['"'])) :=
      ⟨h, [], [], rfl, by simp, by simp⟩
    have hfound := findRefs_ref hinside pre.toList post.toList
    have htext : (pre ++ reference key ++ post).toList = pre.toList ++
        (word ++ '[' :: ('"' :: (key.toList ++ ['"']) ++ ']' :: post.toList)) := by
      simp [String.toList_append, toList_reference]
    simp only [mem_permissionKeys, htext, hfound, List.mem_append,
      List.mem_cons]

theorem isKeyChar_of_permission {c : Char} (h : isPermissionChar c = true) :
    isKeyChar c = true := by
  simpa [isPermissionChar, isKeyChar, isLower] using h

structure IsPart (part : List Char) : Prop where
  opens : part.head?.any isLower = true
  long : 2 ≤ part.length
  chars : ∀ c ∈ part, isKeyChar c = true

theorem isPart_of_permissionPart {part : String}
    (h : permissionPart part = true) : IsPart part.toList := by
  rw [permissionPart] at h
  split at h
  · cases h
  · next c rest heq =>
      simp only [Bool.and_eq_true, List.all_eq_true] at h
      obtain ⟨⟨⟨hc, hlong⟩, -⟩, hchars⟩ := h
      have hlower : isLower c = true := by simpa [isLower] using hc
      rw [heq]
      refine ⟨by simpa using hlower, by simpa using hlong, ?_⟩
      rw [List.forall_mem_cons]
      exact ⟨by simp [isKeyChar, hlower],
        fun d hd => isKeyChar_of_permission (hchars d hd)⟩

theorem isKey_join_iff {a b : List Char} (ha : IsPart a) (hb : IsPart b) :
    IsKey (a ++ '.' :: b) ↔ a.length + 1 + b.length ≤ 128 := by
  constructor
  · intro h
    have hshort := h.short
    simp at hshort
    omega
  · intro h
    obtain ⟨c, rest, rfl⟩ := List.exists_cons_of_length_pos
      (show 0 < a.length from Nat.lt_of_lt_of_le (by decide) ha.long)
    refine ⟨by simpa using ha.opens, ?_, ?_, ?_⟩
    · have := ha.long
      simp at *
      omega
    · simp at *
      omega
    · simp only [List.forall_mem_append, List.forall_mem_cons]
      exact ⟨List.forall_mem_cons.mp ha.chars, by decide, hb.chars⟩

/-- The second resource goes on behind a dot with what the first action has
before one of its dots. -/
def Shifted (resource action resource' action' : String) : Prop :=
  ∃ middle, resource' = resource ++ "." ++ middle ∧
    action = middle ++ "." ++ action'

theorem toList_join (a b : String) :
    (a ++ "." ++ b).toList = a.toList ++ '.' :: b.toList := by
  have hdot : ".".toList = ['.'] := by decide
  simp [String.toList_append, hdot]

theorem shifted_iff {r a r' a' : String} :
    Shifted r a r' a' ↔ ∃ x, r'.toList = r.toList ++ '.' :: x ∧
      a.toList = x ++ '.' :: a'.toList := by
  constructor
  · rintro ⟨middle, rfl, rfl⟩
    exact ⟨middle.toList, toList_join _ _, toList_join _ _⟩
  · rintro ⟨x, hr, ha⟩
    refine ⟨String.ofList x, String.toList_inj.mp ?_, String.toList_inj.mp ?_⟩
    · rw [toList_join, String.toList_ofList, hr]
    · rw [toList_join, String.toList_ofList, ha]

/-- Two keys are one when the pairs are, or when one is the other with the dot
in another place. -/
theorem join_eq_iff {r a r' a' : String} :
    r ++ "." ++ a = r' ++ "." ++ a' ↔
      (r = r' ∧ a = a') ∨ Shifted r a r' a' ∨ Shifted r' a' r a := by
  rw [← String.toList_inj, toList_join, toList_join, cut_eq_iff, shifted_iff,
    shifted_iff, String.toList_inj, String.toList_inj]

theorem not_shifted_self (r a a' : String) : ¬ Shifted r a r a' := by
  rw [shifted_iff]
  rintro ⟨x, hr, -⟩
  simp at hr

theorem permissionKey_valid {resource action : String}
    (h : validPermission resource action = true) :
    permissionKey resource action = .ok (resource ++ "." ++ action) := by
  simp [permissionKey, h]

/-- The key of a permission tells it from another one, and is recognised in
every expression, exactly when the whole key has at most 128 characters and
neither permission is the other with the dot in another place. -/
theorem permission_key_identifies_iff {resource action resource' action' : String}
    (h : validPermission resource action = true)
    (h' : validPermission resource' action' = true) :
    (∃ key key', permissionKey resource action = .ok key ∧
        permissionKey resource' action' = .ok key' ∧
        (key = key' → resource = resource' ∧ action = action') ∧
        Recognised key) ↔
      resource.length + 1 + action.length ≤ 128 ∧
        ¬ Shifted resource action resource' action' ∧
        ¬ Shifted resource' action' resource action := by
  obtain ⟨hresource, haction⟩ := Bool.and_eq_true_iff.mp h
  have hfits : Recognised (resource ++ "." ++ action) ↔
      resource.length + 1 + action.length ≤ 128 := by
    rw [recognised_iff, toList_join,
      isKey_join_iff (isPart_of_permissionPart hresource)
        (isPart_of_permissionPart haction),
      String.length_toList, String.length_toList]
  have hdistinct : (resource ++ "." ++ action = resource' ++ "." ++ action' →
      resource = resource' ∧ action = action') ↔
      ¬ Shifted resource action resource' action' ∧
        ¬ Shifted resource' action' resource action := by
    rw [join_eq_iff]
    constructor
    · intro heq
      constructor
      · intro hshift
        obtain ⟨rfl, -⟩ := heq (.inr (.inl hshift))
        exact not_shifted_self _ _ _ hshift
      · intro hshift
        obtain ⟨rfl, -⟩ := heq (.inr (.inr hshift))
        exact not_shifted_self _ _ _ hshift
    · rintro ⟨hnot, hnot'⟩ (heq | hshift | hshift)
      · exact heq
      · exact absurd hshift hnot
      · exact absurd hshift hnot'
  rw [permissionKey_valid h, permissionKey_valid h']
  simp only [Except.ok.injEq, ← hfits, ← hdistinct]
  constructor
  · rintro ⟨_, _, rfl, rfl, hinj, hrecognised⟩
    exact ⟨hrecognised, hinj⟩
  · rintro ⟨hrecognised, hinj⟩
    exact ⟨_, _, rfl, rfl, hinj, hrecognised⟩

/-- Two permissions of one resource, told apart by their actions. -/
theorem permission_key_identifies_orders :
    validPermission "orders" "read" = true ∧
      ∃ key key', permissionKey "orders" "read" = .ok key ∧
        permissionKey "orders" "write" = .ok key' ∧
        (key = key' → "orders" = "orders" ∧ "read" = "write") ∧
        Recognised key := by
  refine ⟨by decide, (permission_key_identifies_iff (by decide) (by decide)).mpr
    ⟨by decide, not_shifted_self _ _ _, not_shifted_self _ _ _⟩⟩

/-- Two permissions with one key, and one whose key no expression can refer
to. -/
theorem permission_key_ambiguous :
    (validPermission "orders.item" "read" = true ∧
      validPermission "orders" "item.read" = true ∧
      permissionKey "orders.item" "read" = permissionKey "orders" "item.read" ∧
      permissionKey "orders" "item.read" = .ok "orders.item.read") ∧
    ∃ resource action key, validPermission resource action = true ∧
      permissionKey resource action = .ok key ∧
      permissionKeys (reference key) = [] := by
  refine ⟨⟨by decide, by decide, by decide, by decide⟩,
    String.ofList (List.replicate 100 'a'), String.ofList (List.replicate 28 'b'),
    _, by decide +kernel, permissionKey_valid (by decide +kernel), ?_⟩
  decide +kernel

end PlatformGo.RoutePolicy
