import Mathlib.Data.List.DropRight
import Mathlib.Data.List.Forall2
import PlatformGo.Lib.GoText

/-!
# Spellings of a text

Programs that compare names in lower case and without the white space around
them treat a name and its other spellings as one. That they may is a fact about
the tables of `unicode`, which are parameters here: the tables do not make every
change of case undone by lower case (`ſ` and `s` have one capital and are both
small), but they do for a character with its lower case in ASCII. So the
spellings of a text have one normal form if that is plain.
-/

namespace PlatformGo.Spelling

/-- The tables of `unicode`: `ToLower`, `ToUpper`, `ToTitle`, `IsPrint`. -/
structure Unicode where
  lower : Char → Char
  upper : Char → Char
  title : Char → Char
  isPrint : Char → Bool

/-- What is known of the tables. -/
structure Unicode.Lawful (u : Unicode) : Prop where
  ascii : ∀ c : Char, c.toNat < 128 → u.lower c = c.toLower
  recase : ∀ c, (u.lower c).toNat < 128 →
    u.lower (u.upper c) = u.lower c ∧ u.lower (u.title c) = u.lower c
  space : ∀ c, isSpace c = true → u.lower c = c ∧ u.upper c = c ∧ u.title c = c

/-- `strings.ToLower`. -/
def Unicode.toLower (u : Unicode) (s : String) : String :=
  String.ofList (s.toList.map u.lower)

/-- ASCII without white space and capitals. -/
def IsPlain (c : Char) : Prop :=
  c.toNat < 128 ∧ isSpace c = false ∧ c.toLower = c

def Plain (s : String) : Prop := ∀ c ∈ s.toList, IsPlain c

instance : DecidablePred IsPlain := fun c =>
  inferInstanceAs (Decidable (c.toNat < 128 ∧ isSpace c = false ∧ c.toLower = c))

/-- What holds of the characters of ASCII is decided one by one. -/
theorem of_ascii {P : Char → Prop} (h : ∀ n < 128, P (Char.ofNat n)) {c : Char}
    (hc : c.toNat < 128) : P c := by
  have hn := h c.toNat hc
  rwa [Char.ofNat_toNat] at hn

theorem toNat_lt_of_le {c d : Char} (h : c ≤ d) (hd : d.toNat < 128) :
    c.toNat < 128 :=
  Nat.lt_of_le_of_lt (UInt32.le_iff_toNat_le.mp h) hd

/-- Small letters, digits and what stands between the parts of names. -/
theorem isPlain_of_word {c : Char}
    (h : (('a' ≤ c ∧ c ≤ 'z') ∨ ('0' ≤ c ∧ c ≤ '9')) ∨ c = '.' ∨ c = '_' ∨ c = '-') :
    IsPlain c := by
  have hascii : c.toNat < 128 := by
    rcases h with (⟨-, h⟩ | ⟨-, h⟩) | rfl | rfl | rfl
    · exact toNat_lt_of_le h (by decide)
    · exact toNat_lt_of_le h (by decide)
    · decide
    · decide
    · decide
  exact of_ascii (P := fun c =>
    (('a' ≤ c ∧ c ≤ 'z') ∨ ('0' ≤ c ∧ c ≤ '9')) ∨ c = '.' ∨ c = '_' ∨ c = '-' →
      IsPlain c) (by decide) hascii h

/-- Whatever else a table of cases does, it leaves plain text. -/
theorem ofList_map_plain {f : Char → Char} {s : String}
    (hf : ∀ c : Char, c.toNat < 128 → f c = c.toLower) (h : Plain s) :
    String.ofList (s.toList.map f) = s := by
  have hmap : s.toList.map f = s.toList := by
    conv_rhs => rw [← List.map_id s.toList]
    refine List.map_congr_left fun c hc => ?_
    rw [hf c (h c hc).1, (h c hc).2.2, id]
  rw [hmap, String.ofList_toList]

/-! ## Trimming -/

theorem toList_trimSpace (s : String) :
    (trimSpace s).toList = (s.toList.dropWhile isSpace).rdropWhile isSpace := by
  rw [trimSpace, String.toList_ofList]
  rfl

theorem trimSpace_trimSpace (s : String) :
    trimSpace (trimSpace s) = trimSpace s := by
  apply String.toList_injective
  rw [toList_trimSpace, toList_trimSpace]
  have hleft : ((s.toList.dropWhile isSpace).rdropWhile isSpace).dropWhile isSpace =
      (s.toList.dropWhile isSpace).rdropWhile isSpace := by
    rw [List.dropWhile_eq_self_iff]
    intro hpos
    -- what is left begins as it did before its end was cut off
    obtain ⟨tail, htail⟩ := List.rdropWhile_prefix isSpace (s.toList.dropWhile isSpace)
    have hpos' : 0 < (s.toList.dropWhile isSpace).length := by
      rw [← htail, List.length_append]
      omega
    have hhead : ((s.toList.dropWhile isSpace).rdropWhile isSpace)[0] =
        (s.toList.dropWhile isSpace)[0] := by
      rw [List.getElem_of_eq htail.symm, List.getElem_append_left hpos]
    rw [hhead]
    exact List.dropWhile_eq_self_iff.mp (List.dropWhile_idempotent _ _) hpos'
  rw [hleft, List.rdropWhile_idempotent]

theorem trimSpace_eq_self {s : String} (h : ∀ c ∈ s.toList, isSpace c = false) :
    trimSpace s = s := by
  apply String.toList_injective
  have hleft : s.toList.dropWhile isSpace = s.toList := by
    rw [List.dropWhile_eq_self_iff]
    intro hpos
    rw [h _ (List.getElem_mem hpos)]
    exact Bool.false_ne_true
  rw [toList_trimSpace, hleft, List.rdropWhile_eq_self_iff]
  intro hne
  rw [h _ (List.getLast_mem hne)]
  exact Bool.false_ne_true

/-- Text that is trimmed neither begins nor ends with white space. -/
theorem trimSpace_eq_self_iff {s : String} :
    trimSpace s = s ↔ (∀ c, s.toList.head? = some c → isSpace c = false) ∧
      ∀ c, s.toList.getLast? = some c → isSpace c = false := by
  rw [← String.toList_inj, toList_trimSpace]
  have hhead : s.toList.dropWhile isSpace = s.toList ↔
      ∀ c, s.toList.head? = some c → isSpace c = false := by
    cases s.toList with
    | nil => simp
    | cons c l => simp [List.dropWhile_eq_self_iff]
  have hlast : s.toList.rdropWhile isSpace = s.toList ↔
      ∀ c, s.toList.getLast? = some c → isSpace c = false := by
    rw [List.rdropWhile_eq_self_iff]
    constructor
    · intro h c hc
      have hne : s.toList ≠ [] := by
        intro hnil
        simp [hnil] at hc
      rw [List.getLast?_eq_some_getLast hne, Option.some.injEq] at hc
      simpa [hc] using h hne
    · intro h hne
      simp [h _ (List.getLast?_eq_some_getLast hne)]
  constructor
  · intro h
    -- Neither cut can take anything off, or the text would be shorter.
    have hdrop : s.toList.dropWhile isSpace = s.toList := by
      refine (List.dropWhile_suffix _).eq_of_length_le ?_
      have hle := (List.rdropWhile_prefix isSpace
        (s.toList.dropWhile isSpace)).length_le
      rwa [h] at hle
    rw [hdrop] at h
    exact ⟨hhead.mp hdrop, hlast.mp h⟩
  · intro h
    rw [hhead.mpr h.1, hlast.mpr h.2]

/-- Only white space is cut off. -/
theorem mem_trimSpace {s : String} {c : Char} (hc : c ∈ s.toList)
    (hspace : isSpace c = false) : c ∈ (trimSpace s).toList := by
  rw [toList_trimSpace]
  rw [← List.takeWhile_append_dropWhile (p := isSpace) (l := s.toList),
    List.mem_append] at hc
  rcases hc with hc | hc
  · rw [List.mem_takeWhile_imp hc] at hspace
    cases hspace
  rw [← List.rdropWhile_append_rtakeWhile (p := isSpace)
    (l := s.toList.dropWhile isSpace), List.mem_append] at hc
  rcases hc with hc | hc
  · exact hc
  · rw [List.mem_rtakeWhile_imp hc] at hspace
    cases hspace

theorem forall₂_dropWhile {R : Char → Char → Prop} {l l' : List Char}
    (hR : ∀ c d, R c d → isSpace d = isSpace c) (h : List.Forall₂ R l l') :
    List.Forall₂ R (l.dropWhile isSpace) (l'.dropWhile isSpace) := by
  induction h with
  | nil => exact .nil
  | cons hcd htail ih =>
      rw [List.dropWhile_cons, List.dropWhile_cons, hR _ _ hcd]
      split
      · exact ih
      · exact .cons hcd htail

theorem forall₂_trimSpace {R : Char → Char → Prop} {s t : String}
    (hR : ∀ c d, R c d → isSpace d = isSpace c)
    (h : List.Forall₂ R s.toList t.toList) :
    List.Forall₂ R (trimSpace s).toList (trimSpace t).toList := by
  rw [toList_trimSpace, toList_trimSpace, List.rdropWhile, List.rdropWhile,
    List.forall₂_reverse_iff]
  exact forall₂_dropWhile hR
    (List.forall₂_reverse_iff.mpr (forall₂_dropWhile hR h))

/-! ## Case -/

/-- A character in another case. -/
inductive Cased (u : Unicode) (c : Char) : Char → Prop
  | same : Cased u c c
  | lower {d : Char} : Cased u c d → Cased u c (u.lower d)
  | upper {d : Char} : Cased u c d → Cased u c (u.upper d)
  | title {d : Char} : Cased u c d → Cased u c (u.title d)

/-- A text in another case, or with other white space around it. -/
inductive Respelled (u : Unicode) (s t : String) : Prop
  | cased (h : List.Forall₂ (Cased u) s.toList t.toList)
  | spaced (h : trimSpace s = trimSpace t)

variable {u : Unicode} {s t : String}

theorem Unicode.Lawful.lower_plain (hu : u.Lawful) {c : Char} (h : IsPlain c) :
    u.lower c = c := by
  rw [hu.ascii c h.1, h.2.2]

theorem Cased.lower_eq (hu : u.Lawful) {c d : Char} (h : Cased u c d)
    (hc : IsPlain (u.lower c)) : u.lower d = u.lower c := by
  induction h with
  | same => rfl
  | lower _ ih => rw [ih, hu.lower_plain hc]
  | upper _ ih => rw [(hu.recase _ (ih ▸ hc.1)).1, ih]
  | title _ ih => rw [(hu.recase _ (ih ▸ hc.1)).2, ih]

theorem Cased.eq_of_isSpace (hu : u.Lawful) {c d : Char} (h : Cased u c d)
    (hc : isSpace c = true) : d = c := by
  induction h with
  | same => rfl
  | lower _ ih => rw [ih, (hu.space c hc).1]
  | upper _ ih => rw [ih, (hu.space c hc).2.1]
  | title _ ih => rw [ih, (hu.space c hc).2.2]

/-- Of white space, and of what is plain in lower case, the other cases are as
much white space and have that lower case. -/
theorem Cased.keeps (hu : u.Lawful) {c d : Char} (h : Cased u c d)
    (hc : isSpace c = true ∨ IsPlain (u.lower c)) :
    isSpace d = isSpace c ∧ u.lower d = u.lower c := by
  rcases hc with hc | hc
  · rw [h.eq_of_isSpace hu hc]
    exact ⟨rfl, rfl⟩
  have hlower := h.lower_eq hu hc
  -- lower case leaves white space alone, and plain characters are none
  have hspace : ∀ e, u.lower e = u.lower c → isSpace e = false := by
    intro e he
    by_contra hne
    have hes : isSpace e = true := (Bool.not_eq_false _).mp hne
    rw [← he, (hu.space e hes).1] at hc
    exact hne hc.2.1
  exact ⟨(hspace d hlower).trans (hspace c rfl).symm, hlower⟩

theorem map_eq_of_forall₂ {α β : Type*} {f : α → β} {l l' : List α}
    (h : List.Forall₂ (fun a b => f b = f a) l l') : l'.map f = l.map f := by
  induction h with
  | nil => rfl
  | cons hab _ ih => rw [List.map_cons, List.map_cons, hab, ih]

theorem toLower_eq_self (hu : u.Lawful) (h : Plain s) : u.toLower s = s :=
  ofList_map_plain hu.ascii h

/-- A plain text is its own normal form. -/
theorem toLower_trimSpace_plain (hu : u.Lawful) (h : Plain s) :
    u.toLower (trimSpace s) = s := by
  rw [trimSpace_eq_self fun c hc => (h c hc).2.1, toLower_eq_self hu h]

/-- The spellings of a text have one normal form, if that is plain. -/
theorem Respelled.toLower_eq (hu : u.Lawful) (h : Respelled u s t)
    (hplain : Plain (u.toLower (trimSpace s))) :
    u.toLower (trimSpace t) = u.toLower (trimSpace s) := by
  cases h with
  | spaced h => rw [h]
  | cased h =>
      have hchar : ∀ c ∈ s.toList, isSpace c = true ∨ IsPlain (u.lower c) := by
        intro c hc
        cases hspace : isSpace c with
        | true => exact .inl rfl
        | false =>
            refine .inr (hplain _ ?_)
            rw [Unicode.toLower, String.toList_ofList]
            exact List.mem_map_of_mem (mem_trimSpace hc hspace)
      have hkeeps : List.Forall₂
          (fun c d => isSpace d = isSpace c ∧ u.lower d = u.lower c)
          s.toList t.toList := by
        have hboth := (List.forall₂_and_left s.toList t.toList).mpr ⟨hchar, h⟩
        exact hboth.imp fun c d hcd => hcd.2.keeps hu hcd.1
      have hlower := (forall₂_trimSpace (fun _ _ hcd => hcd.1) hkeeps).imp
        fun _ _ hcd => hcd.2
      rw [Unicode.toLower, map_eq_of_forall₂ hlower, ← Unicode.toLower]

/-! ## ASCII -/

/-- The tables on ASCII; they leave the rest as it is. -/
def ascii : Unicode where
  lower := Char.toLower
  upper := Char.toUpper
  title := Char.toUpper
  isPrint _ := true

theorem toLower_of_not_ascii {c : Char} (h : 128 ≤ c.toNat) : c.toLower = c := by
  unfold Char.toLower
  refine dif_neg ?_
  rintro ⟨-, hle⟩
  have hZ : c.val.toNat ≤ 90 := UInt32.le_iff_toNat_le.mp hle
  have hc : c.val.toNat = c.toNat := rfl
  omega

theorem toUpper_of_not_ascii {c : Char} (h : 128 ≤ c.toNat) : c.toUpper = c := by
  unfold Char.toUpper
  refine dif_neg ?_
  rintro ⟨-, hle⟩
  have hz : c.val.toNat ≤ 122 := UInt32.le_iff_toNat_le.mp hle
  have hc : c.val.toNat = c.toNat := rfl
  omega

theorem ascii_lawful : ascii.Lawful := by
  have hchar : ∀ c : Char, c.toUpper.toLower = c.toLower ∧
      (isSpace c = true → c.toLower = c ∧ c.toUpper = c) := by
    intro c
    by_cases hc : c.toNat < 128
    · exact of_ascii (P := fun c => c.toUpper.toLower = c.toLower ∧
        (isSpace c = true → c.toLower = c ∧ c.toUpper = c)) (by decide) hc
    · rw [toUpper_of_not_ascii (by omega), toLower_of_not_ascii (by omega)]
      exact ⟨rfl, fun _ => ⟨rfl, rfl⟩⟩
  refine ⟨fun _ _ => rfl, fun c _ => ?_, fun c hc => ?_⟩
  · exact ⟨(hchar c).1, (hchar c).1⟩
  · exact ⟨((hchar c).2 hc).1, ((hchar c).2 hc).2, ((hchar c).2 hc).2⟩

end PlatformGo.Spelling
