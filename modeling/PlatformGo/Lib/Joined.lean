import Mathlib.Data.List.Basic

/-!
# Texts joined by a separator

A text that was put together from parts with a separator between them can be
cut in more than one way as soon as the separator occurs in a part.
`cut_eq_iff` says what two ways to cut one text have to do with each other:
either they cut at the same place, or the part one of them cuts off first
begins with the part the other does and a separator. For several parts, each
with a separator behind it, `terminated_inj` is the one way to cut where no
part holds a separator, and `exists_other_cut` the other way where one does.

Cut at every separator, a text falls into the pieces of its parts, one after
the other (`splitOn_intercalate_flatMap`), and the pieces give it back.
-/

namespace PlatformGo.Joined

variable {α : Type} {sep : α}

theorem cut_eq_iff {a b c d : List α} :
    a ++ sep :: b = c ++ sep :: d ↔
      (a = c ∧ b = d) ∨ (∃ x, c = a ++ sep :: x ∧ b = x ++ sep :: d) ∨
        ∃ x, a = c ++ sep :: x ∧ d = x ++ sep :: b := by
  constructor
  · intro h
    rcases List.append_eq_append_iff.mp h with ⟨x, rfl, hx⟩ | ⟨x, rfl, hx⟩
    · cases x with
      | nil =>
          cases hx
          simp
      | cons y x =>
          cases hx
          exact Or.inr (Or.inl ⟨x, rfl, rfl⟩)
    · cases x with
      | nil =>
          cases hx
          simp
      | cons y x =>
          cases hx
          exact Or.inr (Or.inr ⟨x, rfl, rfl⟩)
  · rintro (⟨rfl, rfl⟩ | ⟨x, rfl, rfl⟩ | ⟨x, rfl, rfl⟩) <;> simp

/-- Without a separator in the first part there is one way to cut. -/
theorem cut_inj {a b c d : List α} (ha : sep ∉ a) (hc : sep ∉ c) :
    a ++ sep :: b = c ++ sep :: d ↔ a = c ∧ b = d := by
  rw [cut_eq_iff]
  constructor
  · rintro (h | ⟨x, rfl, _⟩ | ⟨x, rfl, _⟩)
    · exact h
    · simp at hc
    · simp at ha
  · exact Or.inl

/-- A part that goes on after another and a separator opens with them. -/
theorem ne_longer [DecidableEq α] {a c : List α}
    (h : (a ++ [sep]).isPrefixOf c = false) (x : List α) :
    c ≠ a ++ sep :: x := by
  rintro rfl
  have hopens : a ++ [sep] <+: a ++ sep :: x := ⟨x, by simp⟩
  rw [← List.isPrefixOf_iff_prefix, h] at hopens
  cases hopens

/-! ## Several parts -/

/-- Parts, each with a separator behind it. -/
def terminated (sep : α) (parts : List (List α)) : List α :=
  parts.flatMap (· ++ [sep])

theorem terminated_cons (sep : α) (part : List α) (parts : List (List α))
    (rest : List α) :
    terminated sep (part :: parts) ++ rest =
      part ++ sep :: (terminated sep parts ++ rest) := by
  simp [terminated]

/-- As many parts without a separator in them, and what follows them, are
read off the text. -/
theorem terminated_inj {parts parts' : List (List α)} {rest rest' : List α}
    (hlength : parts.length = parts'.length)
    (hparts : ∀ part ∈ parts, sep ∉ part)
    (hparts' : ∀ part ∈ parts', sep ∉ part) :
    terminated sep parts ++ rest = terminated sep parts' ++ rest' ↔
      parts = parts' ∧ rest = rest' := by
  induction parts generalizing parts' with
  | nil =>
      obtain rfl := List.length_eq_zero_iff.mp hlength.symm
      simp
  | cons part parts ih =>
      cases parts' with
      | nil => cases hlength
      | cons part' parts' =>
          rw [List.forall_mem_cons] at hparts hparts'
          rw [terminated_cons, terminated_cons,
            cut_inj hparts.1 hparts'.1,
            ih (Nat.succ.inj hlength) hparts.2 hparts'.2,
            List.cons.injEq, and_assoc]

/-- The separators of the text are those behind the parts and those in
them. -/
theorem count_terminated [DecidableEq α] (parts : List (List α)) :
    (terminated sep parts).count sep =
      parts.length + parts.flatten.count sep := by
  induction parts with
  | nil => rfl
  | cons part parts ih =>
      have hcons := terminated_cons sep part parts []
      rw [List.append_nil, List.append_nil] at hcons
      rw [hcons, List.count_append, List.count_cons_self, ih,
        List.length_cons, List.flatten_cons, List.count_append]
      omega

/-- As many other parts of a text without one have none either. -/
theorem notMem_of_terminated_eq [DecidableEq α]
    {parts parts' : List (List α)} (hlength : parts.length = parts'.length)
    (hparts : ∀ part ∈ parts, sep ∉ part)
    (h : terminated sep parts' = terminated sep parts) :
    ∀ part ∈ parts', sep ∉ part := by
  have hcount := congrArg (List.count sep) h
  rw [count_terminated, count_terminated, hlength,
    Nat.add_left_cancel_iff] at hcount
  have hzero : parts.flatten.count sep = 0 := by
    rw [List.count_eq_zero, List.mem_flatten]
    rintro ⟨part, hpart, hmem⟩
    exact hparts part hpart hmem
  rw [hzero, List.count_eq_zero, List.mem_flatten] at hcount
  intro part hpart hmem
  exact hcount ⟨part, hpart, hmem⟩

/-- Two parts or more, one of them with a separator in it: there is another
way to cut the text in as many parts. -/
theorem exists_other_cut {parts : List (List α)} (htwo : 2 ≤ parts.length)
    (hsep : ∃ part ∈ parts, sep ∈ part) :
    ∃ parts', parts'.length = parts.length ∧ parts' ≠ parts ∧
      terminated sep parts' = terminated sep parts := by
  induction parts with
  | nil => cases htwo
  | cons p parts ih =>
      cases parts with
      | nil =>
          rw [List.length_singleton] at htwo
          omega
      | cons q parts =>
          by_cases hp : sep ∈ p
          · -- What follows the separator goes to the next part.
            obtain ⟨a, b, rfl⟩ := List.append_of_mem hp
            refine ⟨a :: (b ++ sep :: q) :: parts, rfl, ?_, ?_⟩
            · simp
            · simp [terminated]
          · have hrest : ∃ part ∈ q :: parts, sep ∈ part := by
              obtain ⟨part, hpart, hmem⟩ := hsep
              rcases List.mem_cons.mp hpart with rfl | hpart
              · exact absurd hmem hp
              · exact ⟨part, hpart, hmem⟩
            cases parts with
            | nil =>
                -- The last part: what precedes the separator goes to `p`.
                obtain ⟨part, hpart, hmem⟩ := hrest
                rw [List.mem_singleton] at hpart
                subst hpart
                obtain ⟨a, b, rfl⟩ := List.append_of_mem hmem
                refine ⟨[p ++ sep :: a, b], rfl, ?_, ?_⟩
                · simp
                · simp [terminated]
            | cons r parts =>
                obtain ⟨parts', hlength, hne, heq⟩ := ih
                  (by rw [List.length_cons, List.length_cons]; omega) hrest
                refine ⟨p :: parts', congrArg Nat.succ hlength, ?_, ?_⟩
                · exact fun h => hne (List.cons.inj h).2
                · unfold terminated at heq ⊢
                  rw [List.flatMap_cons, List.flatMap_cons, heq]

theorem mem_intercalate {parts : List (List α)} {c : α}
    (h : c ∈ [sep].intercalate parts) : c = sep ∨ ∃ part ∈ parts, c ∈ part := by
  induction parts with
  | nil => simp at h
  | cons part parts ih =>
      cases parts with
      | nil =>
          rw [List.intercalate_singleton] at h
          exact .inr ⟨part, List.mem_cons_self, h⟩
      | cons next parts =>
          rw [List.intercalate_cons_cons, List.append_assoc, List.mem_append,
            List.singleton_append, List.mem_cons] at h
          rcases h with h | h | h
          · exact .inr ⟨part, List.mem_cons_self, h⟩
          · exact .inl h
          · rcases ih h with hsep | ⟨other, hother, hmem⟩
            · exact .inl hsep
            · exact .inr ⟨other, List.mem_cons_of_mem _ hother, hmem⟩

/-- A joined text ends as its last part does. -/
theorem getLast?_intercalate {parts : List (List α)} {last : List α}
    (h : last ≠ []) :
    ([sep].intercalate (parts ++ [last])).getLast? = last.getLast? := by
  induction parts with
  | nil => rw [List.nil_append, List.intercalate_singleton]
  | cons part parts ih =>
      obtain ⟨next, rest, hrest⟩ : ∃ next rest, parts ++ [last] = next :: rest :=
        List.exists_cons_of_ne_nil (by simp)
      rw [hrest] at ih
      rw [List.cons_append, hrest, List.intercalate_cons_cons,
        List.getLast?_append, ih, List.getLast?_eq_some_getLast h,
        Option.some_or]

/-! ## Cut at every separator -/

section SplitOn

variable [DecidableEq α]

theorem splitOn_cut (a b : List α) :
    (a ++ sep :: b).splitOn sep = a.splitOn sep ++ b.splitOn sep :=
  List.splitOnP_append_cons a b (beq_self_eq_true sep)

theorem splitOn_intercalate_flatMap {parts : List (List α)}
    (h : parts ≠ []) :
    ([sep].intercalate parts).splitOn sep =
      parts.flatMap (List.splitOn sep) := by
  induction parts with
  | nil => exact absurd rfl h
  | cons part parts ih =>
      cases parts with
      | nil => simp
      | cons next parts =>
          rw [List.intercalate_cons_cons, List.append_assoc,
            List.singleton_append, splitOn_cut,
            ih (List.cons_ne_nil next parts)]
          rfl

/-- What stands behind the last separator stays with the last piece. -/
theorem splitOn_append_tail (text : List α) {tail : List α} (h : sep ∉ tail) :
    ∃ pieces last, (text ++ tail).splitOn sep = pieces ++ [last ++ tail] := by
  by_cases hsep : sep ∈ text
  · obtain ⟨a, b, rfl⟩ := List.append_of_mem hsep
    obtain ⟨pieces, last, hpieces⟩ := splitOn_append_tail b h
    refine ⟨a.splitOn sep ++ pieces, last, ?_⟩
    rw [List.append_assoc, List.cons_append, splitOn_cut, hpieces,
      List.append_assoc]
  · refine ⟨[], text, ?_⟩
    rw [List.splitOn_eq_singleton, List.nil_append]
    rw [List.mem_append]
    exact fun hmem => hmem.elim hsep h
termination_by text.length
decreasing_by simp [*]; omega

theorem splitOn_inj {a b : List α} :
    a.splitOn sep = b.splitOn sep ↔ a = b := by
  constructor
  · intro h
    have hjoin := congrArg [sep].intercalate h
    rwa [List.intercalate_splitOn, List.intercalate_splitOn] at hjoin
  · rintro rfl
    rfl

/-- Every character stands in a piece, or is a separator. -/
theorem mem_splitOn (sep : α) {text : List α} {c : α} (h : c ∈ text) :
    c = sep ∨ ∃ piece ∈ text.splitOn sep, c ∈ piece := by
  apply mem_intercalate
  rwa [List.intercalate_splitOn]

/-- Parts without a separator are the pieces. -/
theorem flatMap_splitOn {parts : List (List α)}
    (h : ∀ part ∈ parts, sep ∉ part) :
    parts.flatMap (List.splitOn sep) = parts := by
  induction parts with
  | nil => rfl
  | cons part parts ih =>
      rw [List.forall_mem_cons] at h
      rw [List.flatMap_cons, List.splitOn_eq_singleton h.1, ih h.2,
        List.singleton_append]

theorem length_splitOn_pos (sep : α) (text : List α) : 0 < (text.splitOn sep).length :=
  List.length_pos_of_ne_nil (List.splitOn_ne_nil sep text)

theorem notMem_of_length_splitOn {text : List α}
    (h : (text.splitOn sep).length = 1) : sep ∉ text := by
  intro hsep
  obtain ⟨a, b, rfl⟩ := List.append_of_mem hsep
  have ha := length_splitOn_pos sep a
  have hb := length_splitOn_pos sep b
  rw [splitOn_cut, List.length_append] at h
  omega

/-- A text in two pieces has one separator. -/
theorem eq_of_splitOn_eq_pair {text a b : List α} (h : text.splitOn sep = [a, b]) :
    text = a ++ sep :: b ∧ sep ∉ a ∧ sep ∉ b := by
  have htext : text = a ++ sep :: b := by
    have hjoin := congrArg [sep].intercalate h
    rwa [List.intercalate_splitOn, List.intercalate_cons_cons,
      List.intercalate_singleton, List.append_assoc, List.singleton_append] at hjoin
  have hlength := congrArg List.length h
  have ha := length_splitOn_pos sep a
  have hb := length_splitOn_pos sep b
  rw [htext, splitOn_cut, List.length_append, List.length_cons,
    List.length_singleton] at hlength
  exact ⟨htext, notMem_of_length_splitOn (by omega),
    notMem_of_length_splitOn (by omega)⟩

/-- A change of characters that leaves the separator and makes no new ones
commutes with the cut. -/
theorem splitOn_map {f : α → α} (hf : ∀ c, f c = sep ↔ c = sep)
    (text : List α) :
    (text.map f).splitOn sep = (text.splitOn sep).map (List.map f) := by
  induction text with
  | nil => simp
  | cons c text ih =>
      simp only [List.splitOn] at ih ⊢
      rw [List.map_cons, List.splitOnP_cons_eq_if_modifyHead,
        List.splitOnP_cons_eq_if_modifyHead, ih]
      by_cases hc : c = sep
      · simp [hc, (hf sep).mpr rfl]
      · have hfc : f c ≠ sep := fun h => hc ((hf c).mp h)
        simp only [beq_iff_eq, hc, hfc, if_false]
        cases List.splitOnP (· == sep) text <;> rfl

end SplitOn

end PlatformGo.Joined
