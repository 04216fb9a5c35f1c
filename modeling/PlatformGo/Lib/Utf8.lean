import Mathlib.Data.List.Basic
import PlatformGo.Lib.GoText

/-!
# UTF-8 as the Go library reads it

The functions of `unicode/utf8` and `strings` the code applies to text that
need not be well formed. A character is read off the front of a byte string;
where no well-formed character starts, the library treats the first byte alone
as invalid and goes on after it. The loops run on the length of the text for
fuel, which every round uses up by at least one byte.

`Valid` is well-formed text without the loop: characters one after the other.
`validString_iff` says that this is what the loop decides.
-/

namespace PlatformGo.Utf8

def isCont (b : UInt8) : Bool := 0x80 ≤ b && b ≤ 0xbf

/-- The second byte a lead byte allows. Four of the lead bytes allow less than
a whole block of continuation bytes, which is what rules out overlong forms,
surrogates and code points past the last one. -/
def isSecond (lead b : UInt8) : Bool :=
  (if lead = 0xe0 then 0xa0 else if lead = 0xf0 then 0x90 else 0x80) ≤ b &&
    b ≤ (if lead = 0xed then 0x9f else if lead = 0xf4 then 0x8f else 0xbf)

/-- The length of the well-formed character at the front, or zero. -/
def runeLen : Bytes → Nat
  | [] => 0
  | b :: rest =>
      if b < 0x80 then 1
      else if 0xc2 ≤ b && b ≤ 0xdf then
        match rest with
        | c :: _ => if isCont c then 2 else 0
        | _ => 0
      else if 0xe0 ≤ b && b ≤ 0xef then
        match rest with
        | c :: d :: _ => if isSecond b c && isCont d then 3 else 0
        | _ => 0
      else if 0xf0 ≤ b && b ≤ 0xf4 then
        match rest with
        | c :: d :: e :: _ =>
            if isSecond b c && isCont d && isCont e then 4 else 0
        | _ => 0
      else 0

def validString.go : Nat → Bytes → Bool
  | _, [] => true
  | 0, _ :: _ => false
  | fuel + 1, b =>
      runeLen b != 0 && validString.go fuel (b.drop (runeLen b))

/-- `utf8.ValidString`. -/
def validString (b : Bytes) : Bool := validString.go b.length b

def toValidUTF8.go (replacement : Bytes) : Nat → Bool → Bytes → Bytes
  | _, _, [] => []
  | 0, _, b => b
  | fuel + 1, invalid, b :: rest =>
      match runeLen (b :: rest) with
      | 0 =>
          (if invalid then [] else replacement) ++
            toValidUTF8.go replacement fuel true rest
      | n + 1 =>
          (b :: rest).take (n + 1) ++
            toValidUTF8.go replacement fuel false ((b :: rest).drop (n + 1))

/-- `strings.ToValidUTF8`: every run of invalid bytes becomes one
replacement. -/
def toValidUTF8 (b replacement : Bytes) : Bytes :=
  toValidUTF8.go replacement b.length false b

/-- The encodings of the white space characters. -/
def spaces : List Bytes :=
  [[0x09], [0x0a], [0x0b], [0x0c], [0x0d], [0x20], [0xc2, 0x85], [0xc2, 0xa0],
    [0xe1, 0x9a, 0x80], [0xe2, 0x80, 0x80], [0xe2, 0x80, 0x81],
    [0xe2, 0x80, 0x82], [0xe2, 0x80, 0x83], [0xe2, 0x80, 0x84],
    [0xe2, 0x80, 0x85], [0xe2, 0x80, 0x86], [0xe2, 0x80, 0x87],
    [0xe2, 0x80, 0x88], [0xe2, 0x80, 0x89], [0xe2, 0x80, 0x8a],
    [0xe2, 0x80, 0xa8], [0xe2, 0x80, 0xa9], [0xe2, 0x80, 0xaf],
    [0xe2, 0x81, 0x9f], [0xe3, 0x80, 0x80]]

def trimLeft : Nat → Bytes → Bytes
  | 0, b => b
  | fuel + 1, b =>
      match spaces.find? (·.isPrefixOf b) with
      | none => b
      | some w => trimLeft fuel (b.drop w.length)

def trimRight : Nat → Bytes → Bytes
  | 0, b => b
  | fuel + 1, b =>
      match spaces.find? (·.isSuffixOf b) with
      | none => b
      | some w => trimRight fuel (b.take (b.length - w.length))

/-- `strings.TrimSpace`. -/
def trimSpace (b : Bytes) : Bytes :=
  trimRight b.length (trimLeft b.length b)

/-- White space characters one after the other. -/
inductive Blank : Bytes → Prop
  | nil : Blank []
  | cons {w rest : Bytes} (hw : w ∈ spaces) (hrest : Blank rest) : Blank (w ++ rest)

theorem Blank.mem {b : Bytes} (h : Blank b) {x : UInt8} (hx : x ∈ b) :
    x ∈ spaces.flatten := by
  induction h with
  | nil => cases hx
  | cons hw _ ih =>
      rcases List.mem_append.mp hx with hx | hx
      · exact List.mem_flatten.mpr ⟨_, hw, hx⟩
      · exact ih hx

theorem Blank.append {a b : Bytes} (ha : Blank a) (hb : Blank b) : Blank (a ++ b) := by
  induction ha with
  | nil => exact hb
  | cons hw _ ih =>
      rw [List.append_assoc]
      exact .cons hw ih

theorem blank_of_mem {w : Bytes} (hw : w ∈ spaces) : Blank w := by
  have h := Blank.cons hw .nil
  rwa [List.append_nil] at h

theorem exists_trimLeft (fuel : Nat) (b : Bytes) :
    ∃ l, Blank l ∧ b = l ++ trimLeft fuel b := by
  induction fuel generalizing b with
  | zero => exact ⟨[], .nil, rfl⟩
  | succ fuel ih =>
      rw [trimLeft]
      split
      · exact ⟨[], .nil, rfl⟩
      · next w hw =>
          have hpre : w.isPrefixOf b = true := (List.find?_eq_some_iff_append.mp hw).1
          obtain ⟨rest, rfl⟩ := List.isPrefixOf_iff_prefix.mp hpre
          obtain ⟨l, hl, hrest⟩ := ih rest
          refine ⟨w ++ l, .cons (List.mem_of_find?_eq_some hw) hl, ?_⟩
          rw [List.drop_left, List.append_assoc, ← hrest]

theorem exists_trimRight (fuel : Nat) (b : Bytes) :
    ∃ r, Blank r ∧ b = trimRight fuel b ++ r := by
  induction fuel generalizing b with
  | zero => exact ⟨[], .nil, (List.append_nil b).symm⟩
  | succ fuel ih =>
      rw [trimRight]
      split
      · exact ⟨[], .nil, (List.append_nil b).symm⟩
      · next w hw =>
          have hsuf : w.isSuffixOf b = true := (List.find?_eq_some_iff_append.mp hw).1
          obtain ⟨rest, rfl⟩ := List.isSuffixOf_iff_suffix.mp hsuf
          obtain ⟨r, hr, hrest⟩ := ih rest
          have hw := blank_of_mem (List.mem_of_find?_eq_some hw)
          refine ⟨r ++ w, hr.append hw, ?_⟩
          rw [List.length_append, Nat.add_sub_cancel, List.take_left,
            ← List.append_assoc, ← hrest]

/-- What is trimmed off is white space. -/
theorem exists_trimSpace (b : Bytes) :
    ∃ l r, Blank l ∧ Blank r ∧ b = l ++ (trimSpace b ++ r) := by
  obtain ⟨l, hl, hleft⟩ := exists_trimLeft b.length b
  obtain ⟨r, hr, hright⟩ := exists_trimRight b.length (trimLeft b.length b)
  refine ⟨l, r, hl, hr, ?_⟩
  rw [trimSpace, ← hright, ← hleft]

/-- A text of which nothing is left has only bytes of white space. -/
theorem mem_spaces_of_trimSpace {b : Bytes} (h : trimSpace b = []) {x : UInt8}
    (hx : x ∈ b) : x ∈ spaces.flatten := by
  obtain ⟨l, r, hl, hr, hb⟩ := exists_trimSpace b
  rw [h, List.nil_append] at hb
  rw [hb] at hx
  exact (hl.append hr).mem hx

theorem spaces_ne_nil {w : Bytes} (hw : w ∈ spaces) : w ≠ [] := by
  have hall : spaces.all (fun w => w ≠ []) = true := by decide
  exact of_decide_eq_true (List.all_eq_true.mp hall w hw)

/-- No white space is left on the left. -/
theorem not_prefix_trimLeft {fuel : Nat} {b w : Bytes} (hfuel : b.length ≤ fuel)
    (hw : w ∈ spaces) : ¬ w <+: trimLeft fuel b := by
  induction fuel generalizing b with
  | zero =>
      rw [List.length_eq_zero_iff.mp (Nat.le_zero.mp hfuel)]
      intro h
      exact spaces_ne_nil hw (List.prefix_nil.mp h)
  | succ fuel ih =>
      rw [trimLeft]
      split
      · next hnone =>
          intro h
          have hfind := List.find?_eq_none.mp hnone w hw
          exact hfind (List.isPrefixOf_iff_prefix.mpr h)
      · next v hv =>
          have hpos := List.length_pos_of_ne_nil
            (spaces_ne_nil (List.mem_of_find?_eq_some hv))
          refine ih ?_
          rw [List.length_drop]
          omega

theorem not_suffix_trimRight {fuel : Nat} {b w : Bytes}
    (hfuel : b.length ≤ fuel) (hw : w ∈ spaces) :
    ¬ w <:+ trimRight fuel b := by
  induction fuel generalizing b with
  | zero =>
      rw [List.length_eq_zero_iff.mp (Nat.le_zero.mp hfuel)]
      intro h
      exact spaces_ne_nil hw (List.suffix_nil.mp h)
  | succ fuel ih =>
      rw [trimRight]
      split
      · next hnone =>
          intro h
          have hfind := List.find?_eq_none.mp hnone w hw
          exact hfind (List.isSuffixOf_iff_suffix.mpr h)
      · next v hv =>
          have hpos := List.length_pos_of_ne_nil
            (spaces_ne_nil (List.mem_of_find?_eq_some hv))
          refine ih ?_
          rw [List.length_take]
          omega

theorem trimRight_initial (fuel : Nat) (b : Bytes) : trimRight fuel b <+: b := by
  obtain ⟨r, -, hb⟩ := exists_trimRight fuel b
  exact ⟨r, hb.symm⟩

theorem trimLeft_length_le (fuel : Nat) (b : Bytes) :
    (trimLeft fuel b).length ≤ b.length := by
  obtain ⟨l, -, hb⟩ := exists_trimLeft fuel b
  have hlength := congrArg List.length hb
  rw [List.length_append] at hlength
  omega

theorem trimLeft_eq_self {fuel : Nat} {b : Bytes}
    (h : ∀ w ∈ spaces, ¬ w <+: b) : trimLeft fuel b = b := by
  cases fuel with
  | zero => rfl
  | succ fuel =>
      have hnone : spaces.find? (·.isPrefixOf b) = none := by
        rw [List.find?_eq_none]
        intro w hw hpre
        exact h w hw (List.isPrefixOf_iff_prefix.mp hpre)
      rw [trimLeft, hnone]

theorem trimRight_eq_self {fuel : Nat} {b : Bytes}
    (h : ∀ w ∈ spaces, ¬ w <:+ b) : trimRight fuel b = b := by
  cases fuel with
  | zero => rfl
  | succ fuel =>
      have hnone : spaces.find? (·.isSuffixOf b) = none := by
        rw [List.find?_eq_none]
        intro w hw hsuf
        exact h w hw (List.isSuffixOf_iff_suffix.mp hsuf)
      rw [trimRight, hnone]

/-- A trimmed text has no white space at its ends. -/
theorem trimSpace_trimSpace (b : Bytes) :
    trimSpace (trimSpace b) = trimSpace b := by
  have hleft : ∀ w ∈ spaces, ¬ w <+: trimSpace b := by
    intro w hw h
    exact not_prefix_trimLeft (Nat.le_refl _) hw
      (h.trans (trimRight_initial _ _))
  have hright : ∀ w ∈ spaces, ¬ w <:+ trimSpace b := by
    intro w hw
    exact not_suffix_trimRight (trimLeft_length_le _ _) hw
  rw [trimSpace.eq_def (trimSpace b), trimLeft_eq_self hleft,
    trimRight_eq_self hright]

/-! ## Well-formed text -/

/-- The encodings of one character. -/
inductive Rune : Bytes → Prop
  | one {b : UInt8} (hb : b < 0x80) : Rune [b]
  | two {b c : UInt8} (hb : 0xc2 ≤ b ∧ b ≤ 0xdf) (hc : isCont c = true) :
      Rune [b, c]
  | three {b c d : UInt8} (hb : 0xe0 ≤ b ∧ b ≤ 0xef)
      (hc : isSecond b c = true) (hd : isCont d = true) : Rune [b, c, d]
  | four {b c d e : UInt8} (hb : 0xf0 ≤ b ∧ b ≤ 0xf4)
      (hc : isSecond b c = true) (hd : isCont d = true)
      (he : isCont e = true) : Rune [b, c, d, e]

theorem Rune.ne_nil {rune : Bytes} (h : Rune rune) : rune ≠ [] := by
  cases h <;> exact List.cons_ne_nil _ _

/-- A character at the front is read whole, whatever follows. -/
theorem runeLen_rune {rune : Bytes} (h : Rune rune) (rest : Bytes) :
    runeLen (rune ++ rest) = rune.length := by
  cases h with
  | one hb => simp [runeLen, hb]
  | two hb hc =>
      have hlead : ¬ _ < (0x80 : UInt8) := UInt8.not_lt.mpr
        (UInt8.le_trans (by decide) hb.1)
      simp [runeLen, hlead, hb, hc]
  | three hb hc hd =>
      have hlead : ¬ _ < (0x80 : UInt8) := UInt8.not_lt.mpr
        (UInt8.le_trans (by decide) hb.1)
      have htwo : ¬ _ ≤ (0xdf : UInt8) := UInt8.not_le.mpr
        (UInt8.lt_of_lt_of_le (by decide) hb.1)
      simp [runeLen, hlead, htwo, hb, hc, hd]
  | four hb hc hd he =>
      have hlead : ¬ _ < (0x80 : UInt8) := UInt8.not_lt.mpr
        (UInt8.le_trans (by decide) hb.1)
      have htwo : ¬ _ ≤ (0xdf : UInt8) := UInt8.not_le.mpr
        (UInt8.lt_of_lt_of_le (by decide) hb.1)
      have hthree : ¬ _ ≤ (0xef : UInt8) := UInt8.not_le.mpr
        (UInt8.lt_of_lt_of_le (by decide) hb.1)
      simp [runeLen, hlead, htwo, hthree, hb, hc, hd, he]

/-- What is read off the front is a character. -/
theorem exists_rune {b : Bytes} (h : runeLen b ≠ 0) :
    ∃ rune rest, b = rune ++ rest ∧ Rune rune := by
  unfold runeLen at h
  split at h
  · exact absurd rfl h
  · next b rest =>
      split at h
      · next hone => exact ⟨[b], rest, rfl, .one hone⟩
      · split at h
        · next htwo =>
            rw [Bool.and_eq_true, decide_eq_true_eq, decide_eq_true_eq] at htwo
            split at h
            · next c rest =>
                split at h
                · next hc => exact ⟨[b, c], rest, rfl, .two htwo hc⟩
                · exact absurd rfl h
            · exact absurd rfl h
        · split at h
          · next hthree =>
              rw [Bool.and_eq_true, decide_eq_true_eq,
                decide_eq_true_eq] at hthree
              split at h
              · next c d rest =>
                  split at h
                  · next hc =>
                      rw [Bool.and_eq_true] at hc
                      exact ⟨[b, c, d], rest, rfl, .three hthree hc.1 hc.2⟩
                  · exact absurd rfl h
              · exact absurd rfl h
          · split at h
            · next hfour =>
                rw [Bool.and_eq_true, decide_eq_true_eq,
                  decide_eq_true_eq] at hfour
                split at h
                · next c d e rest =>
                    split at h
                    · next hc =>
                        rw [Bool.and_eq_true, Bool.and_eq_true] at hc
                        exact ⟨[b, c, d, e], rest, rfl,
                          .four hfour hc.1.1 hc.1.2 hc.2⟩
                    · exact absurd rfl h
                · exact absurd rfl h
            · exact absurd rfl h

/-- Text that is one character after the other. -/
inductive Valid : Bytes → Prop
  | nil : Valid []
  | cons {rune rest : Bytes} (hrune : Rune rune) (hrest : Valid rest) :
      Valid (rune ++ rest)

theorem Valid.append {a b : Bytes} (ha : Valid a) (hb : Valid b) :
    Valid (a ++ b) := by
  induction ha with
  | nil => exact hb
  | cons hrune _ ih =>
      rw [List.append_assoc]
      exact .cons hrune ih

theorem Rune.valid {rune : Bytes} (h : Rune rune) : Valid rune := by
  have hvalid := Valid.cons h .nil
  rwa [List.append_nil] at hvalid

theorem validString_go_iff {fuel : Nat} {b : Bytes} (hfuel : b.length ≤ fuel) :
    validString.go fuel b = true ↔ Valid b := by
  induction fuel generalizing b with
  | zero =>
      obtain rfl := List.length_eq_zero_iff.mp (Nat.le_zero.mp hfuel)
      exact iff_of_true rfl .nil
  | succ fuel ih =>
      cases b with
      | nil => exact iff_of_true rfl .nil
      | cons x b =>
          unfold validString.go
          constructor
          · intro h
            rw [Bool.and_eq_true, bne_iff_ne] at h
            obtain ⟨rune, rest, heq, hrune⟩ := exists_rune h.1
            have hlen := List.length_pos_of_ne_nil hrune.ne_nil
            rw [heq] at h hfuel ⊢
            rw [runeLen_rune hrune, List.drop_left] at h
            rw [List.length_append] at hfuel
            exact .cons hrune ((ih (by omega)).mp h.2)
          · intro h
            generalize hb : x :: b = text at h hfuel ⊢
            cases h with
            | nil => cases hb
            | @cons rune rest hrune hrest =>
                have hlen := List.length_pos_of_ne_nil hrune.ne_nil
                rw [List.length_append] at hfuel
                rw [runeLen_rune hrune, List.drop_left, Bool.and_eq_true,
                  bne_iff_ne]
                exact ⟨by omega, (ih (by omega)).mpr hrest⟩

theorem validString_iff {b : Bytes} : validString b = true ↔ Valid b :=
  validString_go_iff (Nat.le_refl _)

/-- What `strings.ToValidUTF8` returns is well formed if the replacement
is. -/
theorem valid_toValidUTF8_go {replacement : Bytes} (hrep : Valid replacement)
    {fuel : Nat} {b : Bytes} (hfuel : b.length ≤ fuel) (invalid : Bool) :
    Valid (toValidUTF8.go replacement fuel invalid b) := by
  induction fuel generalizing b invalid with
  | zero =>
      obtain rfl := List.length_eq_zero_iff.mp (Nat.le_zero.mp hfuel)
      exact .nil
  | succ fuel ih =>
      cases b with
      | nil => exact .nil
      | cons x b =>
          unfold toValidUTF8.go
          split
          · refine Valid.append ?_ (ih (Nat.le_of_succ_le_succ hfuel) true)
            split
            · exact .nil
            · exact hrep
          · next n hn =>
              obtain ⟨rune, rest, heq, hrune⟩ := exists_rune
                (show runeLen (x :: b) ≠ 0 by rw [hn]; exact Nat.succ_ne_zero n)
              have hlen := List.length_pos_of_ne_nil hrune.ne_nil
              rw [heq] at hn hfuel ⊢
              rw [runeLen_rune hrune, Nat.succ_eq_add_one] at hn
              rw [List.length_append] at hfuel
              rw [← hn, List.take_left, List.drop_left]
              exact .cons hrune (ih (by omega) false)

theorem valid_toValidUTF8 {replacement : Bytes} (hrep : Valid replacement)
    (b : Bytes) : Valid (toValidUTF8 b replacement) :=
  valid_toValidUTF8_go hrep (Nat.le_refl _) false

/-! ## Code points -/

/-- The encoding of U+FFFD, which stands for what is not a character. -/
def runeError : Bytes := [0xef, 0xbf, 0xbd]

/-- `utf8.AppendRune`, for a code point that has an encoding. -/
def encodeRune (r : Nat) : Bytes :=
  if r < 0x80 then [UInt8.ofNat r]
  else if r < 0x800 then
    [UInt8.ofNat (0xc0 + r / 0x40), UInt8.ofNat (0x80 + r % 0x40)]
  else if r < 0x10000 then
    [UInt8.ofNat (0xe0 + r / 0x1000), UInt8.ofNat (0x80 + r / 0x40 % 0x40),
      UInt8.ofNat (0x80 + r % 0x40)]
  else
    [UInt8.ofNat (0xf0 + r / 0x40000), UInt8.ofNat (0x80 + r / 0x1000 % 0x40),
      UInt8.ofNat (0x80 + r / 0x40 % 0x40), UInt8.ofNat (0x80 + r % 0x40)]

theorem rune_runeError : Rune runeError :=
  .three (by decide) (by decide) (by decide)

theorem ofNat_between {lo hi : UInt8} {n : Nat} (hlo : lo.toNat ≤ n)
    (hhi : n ≤ hi.toNat) : lo ≤ UInt8.ofNat n ∧ UInt8.ofNat n ≤ hi := by
  have hn : (UInt8.ofNat n).toNat = n :=
    UInt8.toNat_ofNat_of_lt' (Nat.lt_of_le_of_lt hhi hi.toNat_lt)
  rw [UInt8.le_iff_toNat_le, UInt8.le_iff_toNat_le, hn]
  exact ⟨hlo, hhi⟩

theorem isCont_ofNat {n : Nat} (h : n < 0x40) :
    isCont (UInt8.ofNat (0x80 + n)) = true := by
  rw [isCont, Bool.and_eq_true, decide_eq_true_eq, decide_eq_true_eq]
  exact ofNat_between (show 0x80 ≤ 0x80 + n by omega)
    (show 0x80 + n ≤ 0xbf by omega)

theorem isSecond_ofNat {lead n : Nat} (hlead : lead < 256) (h : n < 0x40)
    (he0 : lead = 0xe0 → 0x20 ≤ n) (hed : lead = 0xed → n < 0x20)
    (hf0 : lead = 0xf0 → 0x10 ≤ n) (hf4 : lead = 0xf4 → n < 0x10) :
    isSecond (UInt8.ofNat lead) (UInt8.ofNat (0x80 + n)) = true := by
  have heq : ∀ {b : UInt8}, UInt8.ofNat lead = b → lead = b.toNat := by
    rintro b rfl
    exact (UInt8.toNat_ofNat_of_lt' hlead).symm
  rw [isSecond, Bool.and_eq_true, decide_eq_true_eq, decide_eq_true_eq]
  refine ofNat_between ?_ ?_
  · split
    · next hc =>
        have := he0 (heq hc)
        show 0xa0 ≤ 0x80 + n
        omega
    · split
      · next hc =>
          have := hf0 (heq hc)
          show 0x90 ≤ 0x80 + n
          omega
      · show 0x80 ≤ 0x80 + n
        omega
  · split
    · next hc =>
        have := hed (heq hc)
        show 0x80 + n ≤ 0x9f
        omega
    · split
      · next hc =>
          have := hf4 (heq hc)
          show 0x80 + n ≤ 0x8f
          omega
      · show 0x80 + n ≤ 0xbf
        omega

/-- Every code point but the surrogates has an encoding. -/
theorem rune_encodeRune {r : Nat}
    (h : r < 0xd800 ∨ 0xe000 ≤ r ∧ r < 0x110000) : Rune (encodeRune r) := by
  unfold encodeRune
  split
  · next hone =>
      refine .one ?_
      rw [UInt8.lt_iff_toNat_lt,
        UInt8.toNat_ofNat_of_lt' (Nat.lt_trans hone (by decide))]
      exact hone
  · split
    · exact .two
        (ofNat_between (show 0xc2 ≤ 0xc0 + r / 0x40 by omega)
          (show 0xc0 + r / 0x40 ≤ 0xdf by omega))
        (isCont_ofNat (by omega))
    · split
      · exact .three
          (ofNat_between (show 0xe0 ≤ 0xe0 + r / 0x1000 by omega)
            (show 0xe0 + r / 0x1000 ≤ 0xef by omega))
          (isSecond_ofNat (by omega) (by omega) (by omega) (by omega)
            (by omega) (by omega)) (isCont_ofNat (by omega))
      · exact .four
          (ofNat_between (show 0xf0 ≤ 0xf0 + r / 0x40000 by omega)
            (show 0xf0 + r / 0x40000 ≤ 0xf4 by omega))
          (isSecond_ofNat (by omega) (by omega) (by omega) (by omega)
            (by omega) (by omega)) (isCont_ofNat (by omega))
          (isCont_ofNat (by omega))

theorem rune_utf8EncodeChar (c : Char) : Rune (String.utf8EncodeChar c) := by
  have hvalid : c.val.toNat < 0xd800 ∨ 0xdfff < c.val.toNat ∧
      c.val.toNat < 0x110000 := c.valid
  have heq : String.utf8EncodeChar c = encodeRune c.val.toNat := by
    unfold String.utf8EncodeChar encodeRune
    generalize c.val.toNat = r at hvalid ⊢
    have hmask : ∀ m, r / m % 0x40 + 0x80 = 0x80 + r / m % 0x40 :=
      fun m => Nat.add_comm _ _
    by_cases hone : r < 0x80
    · rw [if_pos (show r ≤ 127 by omega), if_pos hone]
    · rw [if_neg (show ¬ r ≤ 127 by omega), if_neg hone, Nat.add_comm (r % 64)]
      by_cases htwo : r < 0x800
      · rw [if_pos (show r ≤ 2047 by omega), if_pos htwo,
          show r / 64 % 32 + 192 = 0xc0 + r / 0x40 by omega]
      · rw [if_neg (show ¬ r ≤ 2047 by omega), if_neg htwo, hmask 0x40]
        by_cases hthree : r < 0x10000
        · rw [if_pos (show r ≤ 65535 by omega), if_pos hthree,
            show r / 4096 % 16 + 224 = 0xe0 + r / 0x1000 by omega]
        · rw [if_neg (show ¬ r ≤ 65535 by omega), if_neg hthree, hmask 0x1000,
            show r / 262144 % 8 + 240 = 0xf0 + r / 0x40000 by omega]
  rw [heq]
  exact rune_encodeRune (by omega)

/-- The bytes of a Lean string are well-formed text. -/
theorem valid_bytes (s : String) : Valid (bytes s) := by
  rw [bytes_eq_flatMap]
  induction s.toList with
  | nil => exact .nil
  | cons c l ih =>
      rw [List.flatMap_cons]
      exact .cons (rune_utf8EncodeChar c) ih

/-- The character at the front of a text, and the rest of it. A byte that
starts no character is read as U+FFFD. -/
def decodeRune (b : Bytes) : Bytes × Bytes :=
  match runeLen b with
  | 0 => (runeError, b.drop 1)
  | n => (b.take n, b.drop n)

theorem decodeRune_rune {rune : Bytes} (h : Rune rune) (rest : Bytes) :
    decodeRune (rune ++ rest) = (rune, rest) := by
  have hlen := runeLen_rune h rest
  unfold decodeRune
  split
  · next hzero =>
      rw [hzero] at hlen
      exact absurd (List.length_eq_zero_iff.mp hlen.symm) h.ne_nil
  · rw [hlen, List.take_left, List.drop_left]

theorem rune_decodeRune (b : Bytes) : Rune (decodeRune b).1 := by
  by_cases hzero : runeLen b = 0
  · unfold decodeRune
    rw [hzero]
    exact rune_runeError
  · obtain ⟨rune, rest, rfl, hrune⟩ := exists_rune hzero
    rw [decodeRune_rune hrune]
    exact hrune

theorem length_decodeRune {b : Bytes} (h : b ≠ []) :
    (decodeRune b).2.length < b.length := by
  have hpos := List.length_pos_of_ne_nil h
  unfold decodeRune
  split
  · rw [List.length_drop]
    omega
  · next hne =>
      rw [List.length_drop]
      exact Nat.sub_lt hpos (Nat.pos_of_ne_zero hne)

/-! ## Going through a text

Loops that take a piece off the front of a text until nothing is left. The
length of the text is fuel enough when every piece takes at least one byte. -/

section Pieces

variable (one : Bytes → Bytes × Bytes)

def pieces.go : Nat → Bytes → List Bytes
  | _, [] => []
  | 0, _ :: _ => []
  | fuel + 1, b :: data =>
      (one (b :: data)).1 :: pieces.go fuel (one (b :: data)).2

def pieces (data : Bytes) : List Bytes := pieces.go one data.length data

variable {one}

theorem pieces_go_fuel
    (hone : ∀ {data}, data ≠ [] → (one data).2.length < data.length)
    {n m : Nat} {data : Bytes} (hn : data.length ≤ n) (hm : data.length ≤ m) :
    pieces.go one n data = pieces.go one m data := by
  induction n generalizing m data with
  | zero =>
      obtain rfl := List.length_eq_zero_iff.mp (Nat.le_zero.mp hn)
      simp only [pieces.go]
  | succ n ih =>
      cases data with
      | nil => simp only [pieces.go]
      | cons b data =>
          cases m with
          | zero => exact absurd hm (Nat.not_succ_le_zero _)
          | succ m =>
              have hlt := hone (List.cons_ne_nil b data)
              rw [pieces.go, pieces.go,
                ih (Nat.le_of_lt_succ (Nat.lt_of_lt_of_le hlt hn))
                  (Nat.le_of_lt_succ (Nat.lt_of_lt_of_le hlt hm))]

theorem pieces_cons
    (hone : ∀ {data}, data ≠ [] → (one data).2.length < data.length)
    {data : Bytes} (h : data ≠ []) :
    pieces one data = (one data).1 :: pieces one (one data).2 := by
  have hlt := hone h
  cases data with
  | nil => exact absurd rfl h
  | cons b data =>
      rw [pieces, List.length_cons, pieces.go, pieces,
        pieces_go_fuel hone (Nat.le_of_lt_succ hlt) (Nat.le_refl _)]

theorem forall_pieces {P : Bytes → Prop} (h : ∀ data, P (one data).1)
    (data : Bytes) : ∀ piece ∈ pieces one data, P piece := by
  have hgo : ∀ (fuel : Nat) (data : Bytes),
      ∀ piece ∈ pieces.go one fuel data, P piece := by
    intro fuel
    induction fuel with
    | zero =>
        intro data piece hpiece
        cases data <;> cases hpiece
    | succ fuel ih =>
        intro data
        cases data with
        | nil => exact fun _ hpiece => by cases hpiece
        | cons b data => exact List.forall_mem_cons.mpr ⟨h _, ih _⟩
  exact hgo _ _

end Pieces

theorem valid_flatten {parts : List Bytes} (h : ∀ part ∈ parts, Rune part) :
    Valid parts.flatten := by
  induction parts with
  | nil => exact .nil
  | cons part parts ih =>
      rw [List.forall_mem_cons] at h
      exact .cons h.1 (ih h.2)

/-- The bytes of the character at the front; a byte that starts no character
stands for itself. -/
def front (b : Bytes) : Bytes × Bytes :=
  (b.take (max 1 (runeLen b)), b.drop (max 1 (runeLen b)))

/-- The characters of a text, and the bytes between them that belong to none:
what a `range` loop goes through. -/
def runes (b : Bytes) : List Bytes := pieces front b

theorem runes_rune {rune : Bytes} (h : Rune rune) (rest : Bytes) :
    runes (rune ++ rest) = rune :: runes rest := by
  have hpos := List.length_pos_of_ne_nil h.ne_nil
  have hfront : front (rune ++ rest) = (rune, rest) := by
    rw [front, runeLen_rune h, Nat.max_eq_right hpos, List.take_left,
      List.drop_left]
  rw [runes, pieces_cons, hfront]
  · rfl
  · intro data hdata
    have := List.length_pos_of_ne_nil hdata
    rw [front, List.length_drop]
    omega
  · exact List.append_ne_nil_of_left_ne_nil h.ne_nil rest

/-! ## Comparing -/

/-- `strings.Cut` at a separator of one byte; `none` when it is missing. -/
def cut (sep : UInt8) : Bytes → Option (Bytes × Bytes)
  | [] => none
  | b :: rest =>
      if b = sep then some ([], rest)
      else (cut sep rest).map fun p => (b :: p.1, p.2)

theorem cut_append {sep : UInt8} {a : Bytes} (h : sep ∉ a) (b : Bytes) :
    cut sep (a ++ sep :: b) = some (a, b) := by
  induction a with
  | nil => simp [cut]
  | cons x a ih =>
      rw [List.mem_cons, not_or] at h
      rw [List.cons_append, cut, if_neg (Ne.symm h.1), ih h.2]
      rfl

/-- What stands before the last separator, found with `strings.LastIndex`, and
what after it. -/
def cutLast (sep : UInt8) (b : Bytes) : Option (Bytes × Bytes) :=
  (cut sep b.reverse).map fun p => (p.2.reverse, p.1.reverse)

theorem cutLast_append {sep : UInt8} {b : Bytes} (h : sep ∉ b) (a : Bytes) :
    cutLast sep (a ++ sep :: b) = some (a, b) := by
  have hrev : (a ++ sep :: b).reverse = b.reverse ++ sep :: a.reverse := by simp
  rw [cutLast, hrev, cut_append (by simpa using h)]
  simp

/-- The encodings of the characters that fold to an ASCII character. Two
letters have a third one: the long s and the Kelvin sign. -/
def foldings (c : UInt8) : List Bytes :=
  let lower := if 0x41 ≤ c && c ≤ 0x5a then c + 0x20 else c
  if 0x61 ≤ lower && lower ≤ 0x7a then
    [lower] :: [lower - 0x20] ::
      (if lower = 0x73 then [[0xc5, 0xbf]]
       else if lower = 0x6b then [[0xe2, 0x84, 0xaa]]
       else [])
  else [[c]]

/-- `strings.EqualFold` with a second argument in ASCII. -/
def equalFold (b : Bytes) : Bytes → Bool
  | [] => b.isEmpty
  | c :: t => (foldings c).any fun f =>
      f.isPrefixOf b && equalFold (b.drop f.length) t

example : equalFold (bytes "pſ\u212a") (bytes "PSK") = true := by decide

/-! ## Quoting -/

/-- The code point of a character, or the number of a byte. -/
def codePoint : Bytes → Nat
  | [b] => b.toNat
  | [b, c] => b.toNat % 32 * 64 + c.toNat % 64
  | [b, c, d] => (b.toNat % 16 * 64 + c.toNat % 64) * 64 + d.toNat % 64
  | [b, c, d, e] =>
      ((b.toNat % 8 * 64 + c.toNat % 64) * 64 + d.toNat % 64) * 64 + e.toNat % 64
  | _ => 0

/-- The verb `%q` on text that need not be well formed: a byte that belongs to
no character is written in hexadecimal. -/
def quote (isPrint : Char → Bool) (b : Bytes) : String :=
  String.ofList ('"' :: (runes b).flatMap (fun rune =>
    if runeLen rune = 0 then '\\' :: 'x' :: hexPad 2 (codePoint rune)
    else quoteChar isPrint (Char.ofNat (codePoint rune))) ++ ['"'])

example : quote (fun _ => true) (bytes "/é€𝄞 " ++ [0xff]) = "\"/é€𝄞 \\xff\"" := by
  decide

end PlatformGo.Utf8
