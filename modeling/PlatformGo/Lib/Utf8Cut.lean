import Mathlib.Data.List.GetD
import PlatformGo.Lib.Utf8

/-!
# Cutting well-formed text

A text that is cut at a byte stays well formed exactly if the cut falls between
two characters, and that can be seen from the byte behind the cut: it is no
continuation byte (`valid_take_iff`). So a loop that looks at this byte and one
that validates everything before it go back to the same place, and no further
than three bytes, since a character has at most four.

What both loops look for is the longest well-formed beginning of a given length
(`Longest`), of which there is only one.
-/

namespace PlatformGo.Utf8

variable {s p q rune rest : Bytes} {n : Nat}

/-! ## One character -/

theorem Rune.append_inj {rune' rest' : Bytes} (h : Rune rune) (h' : Rune rune')
    (heq : rune ++ rest = rune' ++ rest') : rune = rune' ∧ rest = rest' := by
  have hlen : rune.length = rune'.length := by
    rw [← runeLen_rune h rest, heq, runeLen_rune h']
  exact List.append_inj heq hlen

theorem Valid.exists_rune (h : Valid s) (hne : s ≠ []) :
    ∃ rune rest, s = rune ++ rest ∧ Rune rune ∧ Valid rest := by
  cases h with
  | nil => exact absurd rfl hne
  | cons hrune hrest => exact ⟨_, _, rfl, hrune, hrest⟩

theorem valid_rune_append_iff (h : Rune rune) :
    Valid (rune ++ rest) ↔ Valid rest := by
  constructor
  · intro hvalid
    obtain ⟨rune', rest', heq, hrune', hrest'⟩ :=
      hvalid.exists_rune (List.append_ne_nil_of_left_ne_nil h.ne_nil rest)
    rw [(h.append_inj hrune' heq).2]
    exact hrest'
  · exact .cons h

theorem Rune.length_le (h : Rune rune) : rune.length ≤ 4 := by
  cases h <;> simp

/-- A character that is cut short is none, and not several either. -/
theorem Rune.not_valid_take (h : Rune rune) (hpos : 0 < n)
    (hn : n < rune.length) : ¬ Valid (rune.take n) := by
  intro hvalid
  have hne : rune.take n ≠ [] := by
    rw [ne_eq, List.take_eq_nil_iff]
    rintro (hzero | hnil)
    · omega
    · exact h.ne_nil hnil
  obtain ⟨rune', rest', heq, hrune', -⟩ := hvalid.exists_rune hne
  have hwhole : rune ++ [] = rune' ++ (rest' ++ rune.drop n) := by
    rw [List.append_nil, ← List.append_assoc, ← heq, List.take_append_drop]
  have hlen := congrArg List.length heq
  rw [← (h.append_inj hrune' hwhole).1, List.length_take,
    List.length_append] at hlen
  omega

theorem isCont_of_isSecond {lead b : UInt8} (h : isSecond lead b = true) :
    isCont b = true := by
  rw [isSecond, Bool.and_eq_true, decide_eq_true_eq, decide_eq_true_eq] at h
  rw [isCont, Bool.and_eq_true, decide_eq_true_eq, decide_eq_true_eq]
  refine ⟨UInt8.le_trans ?_ h.1, UInt8.le_trans h.2 ?_⟩
  · split
    · decide
    · split <;> decide
  · split
    · decide
    · split <;> decide

theorem isCont_of_lt {b : UInt8} (h : b < 0x80) : isCont b = false := by
  rw [isCont, Bool.and_eq_false_iff]
  exact .inl (decide_eq_false (UInt8.not_le.mpr h))

theorem isCont_of_gt {b : UInt8} (h : 0xbf < b) : isCont b = false := by
  rw [isCont, Bool.and_eq_false_iff]
  exact .inr (decide_eq_false (UInt8.not_le.mpr h))

/-- Continuation bytes are told by their two highest bits. -/
theorem mask_eq_isCont (b : UInt8) : (b &&& 0xc0 == 0x80) = isCont b := by
  have hall : ∀ n < 256,
      (UInt8.ofNat n &&& 0xc0 == 0x80) = isCont (UInt8.ofNat n) := by
    decide +kernel
  have hb := hall b.toNat b.toNat_lt
  rwa [UInt8.ofNat_toNat] at hb

theorem Rune.lead (h : Rune rune) : ∃ b conts, rune = b :: conts ∧
    isCont b = false ∧ ∀ c ∈ conts, isCont c = true := by
  cases h with
  | one hb => exact ⟨_, [], rfl, isCont_of_lt hb, by simp⟩
  | two hb hc =>
      exact ⟨_, _, rfl, isCont_of_gt (UInt8.lt_of_lt_of_le (by decide) hb.1),
        by simp [hc]⟩
  | three hb hc hd =>
      exact ⟨_, _, rfl, isCont_of_gt (UInt8.lt_of_lt_of_le (by decide) hb.1),
        by simp [isCont_of_isSecond hc, hd]⟩
  | four hb hc hd he =>
      exact ⟨_, _, rfl, isCont_of_gt (UInt8.lt_of_lt_of_le (by decide) hb.1),
        by simp [isCont_of_isSecond hc, hd, he]⟩

/-- The first byte of a character is the only one that is no continuation. -/
theorem Rune.isCont_getD (h : Rune rune) (hn : n < rune.length) :
    isCont (rune.getD n 0) = false ↔ n = 0 := by
  obtain ⟨b, conts, rfl, hb, hconts⟩ := h.lead
  cases n with
  | zero => exact iff_of_true hb rfl
  | succ n =>
      have hlt : n < conts.length := Nat.lt_of_succ_lt_succ hn
      have hcont := hconts _ (List.getElem_mem hlt)
      rw [List.getD_cons_succ, List.getD_eq_getElem _ _ hlt, hcont]
      exact iff_of_false (by decide) (Nat.succ_ne_zero n)

/-! ## A text -/

/-- The byte behind a cut tells whether it falls between two characters. At the
end of the text there is none, and zero stands for it. -/
theorem valid_take_iff (h : Valid s) (n : Nat) :
    Valid (s.take n) ↔ isCont (s.getD n 0) = false := by
  induction h generalizing n with
  | nil =>
      rw [List.take_nil]
      exact iff_of_true .nil rfl
  | @cons rune rest hrune hrest ih =>
      by_cases hle : rune.length ≤ n
      · rw [List.take_append, List.take_of_length_le hle,
          valid_rune_append_iff hrune, ih, List.getD_append_right _ _ _ _ hle]
      · have hn : n < rune.length := Nat.lt_of_not_le hle
        rw [List.take_append_of_le_length (Nat.le_of_lt hn), List.getD_append _ _ _ _ hn,
          hrune.isCont_getD hn]
        constructor
        · intro hvalid
          by_contra hne
          exact hrune.not_valid_take (Nat.pos_of_ne_zero hne) hn hvalid
        · rintro rfl
          exact .nil

/-! ## The longest beginning -/

/-- The longest well-formed beginning of at most so many bytes. -/
structure Longest (s : Bytes) (n : Nat) (p : Bytes) : Prop where
  initial : p <+: s
  length_le : p.length ≤ n
  valid : Valid p
  longest : ∀ q, q <+: s → q.length ≤ n → Valid q → q.length ≤ p.length

theorem Longest.unique (hp : Longest s n p) (hq : Longest s n q) : p = q := by
  have hlen : p.length = q.length := Nat.le_antisymm
    (hq.longest p hp.initial hp.length_le hp.valid)
    (hp.longest q hq.initial hq.length_le hq.valid)
  have hpq := List.prefix_of_prefix_length_le hp.initial hq.initial
    (Nat.le_of_eq hlen)
  exact hpq.eq_of_length hlen

theorem longest_take (h : Valid (s.take n)) : Longest s n (s.take n) where
  initial := List.take_prefix n s
  length_le := List.length_take_le n s
  valid := h
  longest q hq hn _ := by
    rw [List.length_take]
    exact Nat.le_min.mpr ⟨hn, hq.length_le⟩

theorem longest_self (h : Valid s) (hn : s.length ≤ n) : Longest s n s := by
  have htake := List.take_of_length_le hn
  have hlongest := longest_take (htake.symm ▸ h)
  rwa [htake] at hlongest

/-- Where the cut does not fall between two characters, one byte less will do. -/
theorem Longest.succ (h : Longest s n p) (hcut : ¬ Valid (s.take (n + 1))) :
    Longest s (n + 1) p where
  initial := h.initial
  length_le := Nat.le_succ_of_le h.length_le
  valid := h.valid
  longest q hq hn hvalid := by
    refine h.longest q hq ?_ hvalid
    by_contra hlong
    have hlen : q.length = n + 1 := by omega
    rw [List.prefix_iff_eq_take.mp hq, hlen] at hvalid
    exact hcut hvalid

theorem exists_valid_take (h : Valid s) (hn : n ≤ s.length) :
    ∃ k ≤ n, n ≤ k + 3 ∧ Valid (s.take k) := by
  induction h generalizing n with
  | nil =>
      have hzero : n = 0 := Nat.le_zero.mp hn
      exact ⟨0, Nat.zero_le n, by omega, .nil⟩
  | @cons rune rest hrune hrest ih =>
      rw [List.length_append] at hn
      by_cases hle : rune.length ≤ n
      · obtain ⟨k, hk, hnear, hvalid⟩ := ih (n := n - rune.length) (by omega)
        refine ⟨rune.length + k, by omega, by omega, ?_⟩
        rw [List.take_length_add_append]
        exact .cons hrune hvalid
      · have hlen := hrune.length_le
        exact ⟨0, Nat.zero_le n, by omega, .nil⟩

theorem Longest.near (hs : Valid s) (h : Longest s n p) :
    min n s.length ≤ p.length + 3 := by
  obtain ⟨k, hk, hnear, hvalid⟩ :=
    exists_valid_take hs (Nat.min_le_right n s.length)
  have hlen : (s.take k).length = k := by
    rw [List.length_take]
    omega
  have hle := h.longest _ (List.take_prefix k s) (by omega) hvalid
  omega

end PlatformGo.Utf8
