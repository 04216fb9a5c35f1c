import PlatformGo.Lib.JsonParse

/-!
# Writing JSON

The encoder of the Go library: no white space, the members of a map in the
order of their names, and in strings an escape for every byte that would not
be safe in a string or in HTML. What it writes spells the value it is given
(`Value.Written.spells`), so decoding gives the value back
(`Value.WellFormed.decode_encode`).
-/

namespace PlatformGo.Json

open PlatformGo

/-! ## Strings -/

def hexByte (n : Nat) : UInt8 :=
  if n < 10 then UInt8.ofNat (0x30 + n) else UInt8.ofNat (0x57 + n)

/-- A code point as an escape. -/
def escapeRune (r : Nat) : Bytes :=
  [0x5c, 0x75, hexByte (r / 0x1000 % 16), hexByte (r / 0x100 % 16),
    hexByte (r / 0x10 % 16), hexByte (r % 16)]

/-- The bytes that are written as a backslash and a letter. -/
def letters : List (UInt8 × UInt8) :=
  [(0x22, 0x22), (0x5c, 0x5c), (0x08, 0x62), (0x0c, 0x66), (0x0a, 0x6e),
    (0x0d, 0x72), (0x09, 0x74)]

/-- One character of a string. A byte that is no character is written as
U+FFFD. -/
def quoteOne : Bytes → Bytes
  | [b] =>
      if 0x80 ≤ b then escapeRune 0xfffd
      else
        match letters.lookup b with
        | some e => [0x5c, e]
        | none =>
            if b < 0x20 ∨ b = 0x3c ∨ b = 0x3e ∨ b = 0x26 then
              escapeRune b.toNat
            else [b]
  | rune =>
      if rune = [0xe2, 0x80, 0xa8] then escapeRune 0x2028
      else if rune = [0xe2, 0x80, 0xa9] then escapeRune 0x2029
      else rune

/-- The inside of a string. -/
def quoteBody (text : Bytes) : Bytes := (Utf8.runes text).flatMap quoteOne

def quote (text : Bytes) : Bytes := 0x22 :: (quoteBody text ++ [0x22])

theorem hexValue_hexByte : ∀ n < 16, hexValue (hexByte n) = some n := by
  decide

theorem hex4_escapeRune {r : Nat} (h : r < 0x10000) :
    hex4 (hexByte (r / 0x1000 % 16)) (hexByte (r / 0x100 % 16))
      (hexByte (r / 0x10 % 16)) (hexByte (r % 16)) = some r := by
  have hmod : ∀ n, n % 16 < 16 := fun n => Nat.mod_lt n (by decide)
  simp only [hex4, hexValue_hexByte _ (hmod _), Option.bind_eq_bind,
    Option.bind_some, Option.pure_def, Option.some.injEq]
  omega

theorem codeUnit_escapeRune {r : Nat} (h : r < 0x10000) (rest : Bytes) :
    codeUnit (escapeRune r ++ rest) = some (r, rest) := by
  simp only [escapeRune, List.cons_append, List.nil_append, codeUnit, and_self,
    if_true, hex4_escapeRune h, Option.map_some]

theorem body_escapeRune (r : Nat) : Body (escapeRune r) := by
  have hhex : ∀ n, (hexValue (hexByte (n % 16))).isSome = true := by
    intro n
    rw [hexValue_hexByte _ (Nat.mod_lt n (by decide))]
    rfl
  rw [Body, escapeRune]
  simp [StringState.next, hhex]

theorem unquoteOne_escapeRune {r : Nat} (h : r < 0xd800 ∨ 0xe000 ≤ r)
    (hr : r < 0x10000) (rest : Bytes) :
    unquoteOne (escapeRune r ++ rest) = (Utf8.encodeRune r, rest) := by
  have hsurr : isSurrogate r = false := by
    rw [isSurrogate, Bool.and_eq_false_iff, decide_eq_false_iff_not,
      decide_eq_false_iff_not]
    omega
  rw [unquoteOne, codeUnit_escapeRune hr]
  simp only [hsurr, Bool.false_eq_true, if_false]

theorem letters_lookup {b e : UInt8} (h : letters.lookup b = some e) :
    Body [0x5c, e] ∧ escapes.lookup e = some b ∧ e ≠ 0x75 := by
  have hall : letters.all (fun p =>
      [0x5c, p.2].foldlM StringState.next .text = some .text ∧
        escapes.lookup p.2 = some p.1 ∧ p.2 ≠ 0x75) = true := by decide
  obtain ⟨l₁, l₂, heq, -⟩ := List.lookup_eq_some_iff.mp h
  have hmem : (b, e) ∈ letters := by
    rw [heq]
    exact List.mem_append_right l₁ List.mem_cons_self
  have hletter := of_decide_eq_true (List.all_eq_true.mp hall (b, e) hmem)
  exact hletter

theorem unquoteOne_letter {b e : UInt8} (h : letters.lookup b = some e)
    (rest : Bytes) : unquoteOne (0x5c :: e :: rest) = ([b], rest) := by
  obtain ⟨-, hlookup, hu⟩ := letters_lookup h
  have hunit : codeUnit (0x5c :: e :: rest) = none := by
    unfold codeUnit
    split
    · next heq =>
        cases heq
        rw [if_neg fun h => hu h.2]
    · rfl
  simp only [unquoteOne, hunit, List.head?_cons, if_true, List.tail_cons,
    unescape, hlookup]

/-- A character that is written as it is. -/
theorem unquoteOne_rune {rune : Bytes} (h : Utf8.Rune rune)
    (hhead : rune.head? ≠ some 0x5c) (rest : Bytes) :
    unquoteOne (rune ++ rest) = (rune, rest) := by
  cases rune with
  | nil => exact absurd rfl h.ne_nil
  | cons b rune =>
      have hb : b ≠ 0x5c := fun heq => hhead (by rw [heq]; rfl)
      have hunit : codeUnit (b :: (rune ++ rest)) = none := by
        unfold codeUnit
        split
        · next heq =>
            rw [(List.cons_eq_cons.mp heq).1] at hb
            rw [if_neg fun h => hb h.1]
        · rfl
      rw [List.cons_append, unquoteOne, hunit]
      simp only [List.head?_cons, Option.some.injEq, hb, if_false]
      exact Utf8.decodeRune_rune h rest

theorem body_of_plain {text : Bytes}
    (h : ∀ b ∈ text, StringState.next .text b = some .text) : Body text := by
  induction text with
  | nil => rfl
  | cons b text ih =>
      rw [List.forall_mem_cons] at h
      rw [Body, List.foldlM_cons, h.1]
      exact ih h.2

theorem next_plain {b : UInt8} (hctl : 0x20 ≤ b) (hquote : b ≠ 0x22)
    (hslash : b ≠ 0x5c) : StringState.next .text b = some .text := by
  rw [StringState.next, if_neg hslash, if_neg]
  rintro (h | h)
  · exact hquote h
  · exact UInt8.not_lt.mpr hctl h

/-- The bytes of a character of several bytes are all beyond ASCII. -/
theorem rune_cons_cons {b c : UInt8} {rest : Bytes}
    (h : Utf8.Rune (b :: c :: rest)) : ∀ x ∈ b :: c :: rest, 0x80 ≤ x := by
  have hcont : ∀ {x : UInt8}, Utf8.isCont x = true → 0x80 ≤ x := by
    intro x hx
    rw [Utf8.isCont, Bool.and_eq_true, decide_eq_true_eq] at hx
    exact hx.1
  have hsecond : ∀ {lead x : UInt8}, Utf8.isSecond lead x = true → 0x80 ≤ x := by
    intro lead x hx
    rw [Utf8.isSecond, Bool.and_eq_true, decide_eq_true_eq] at hx
    refine UInt8.le_trans ?_ hx.1
    split
    · decide
    · split <;> decide
  have hlead : ∀ {lo x : UInt8}, 0x80 ≤ lo → lo ≤ x → 0x80 ≤ x :=
    fun hlo hx => UInt8.le_trans hlo hx
  cases h with
  | two hb hc =>
      simp only [List.forall_mem_cons, List.not_mem_nil, false_imp_iff,
        implies_true, and_true]
      exact ⟨hlead (by decide) hb.1, hcont hc⟩
  | three hb hc hd =>
      simp only [List.forall_mem_cons, List.not_mem_nil, false_imp_iff,
        implies_true, and_true]
      exact ⟨hlead (by decide) hb.1, hsecond hc, hcont hd⟩
  | four hb hc hd he =>
      simp only [List.forall_mem_cons, List.not_mem_nil, false_imp_iff,
        implies_true, and_true]
      exact ⟨hlead (by decide) hb.1, hsecond hc, hcont hd, hcont he⟩

/-- What one character is written as is the inside of a string, and is read
back as that character. -/
theorem quoteOne_spec {rune : Bytes} (h : Utf8.Rune rune) :
    Body (quoteOne rune) ∧
      ∀ rest, unquoteOne (quoteOne rune ++ rest) = (rune, rest) := by
  match rune, h with
  | [b], h =>
      have hb : b < 0x80 := by
        cases h
        assumption
      rw [quoteOne, if_neg (UInt8.not_le.mpr hb)]
      split
      · next e he => exact ⟨(letters_lookup he).1, unquoteOne_letter he⟩
      · next hnone =>
          split
          · refine ⟨body_escapeRune _, fun rest => ?_⟩
            have hnat : b.toNat < 0x80 := hb
            rw [unquoteOne_escapeRune (.inl (by omega)) (by omega),
              Utf8.encodeRune, if_pos hnat, UInt8.ofNat_toNat]
          · next hplain =>
              have hquote : b ≠ 0x22 := by
                rintro rfl
                cases hnone
              have hslash : b ≠ 0x5c := by
                rintro rfl
                cases hnone
              have hctl : 0x20 ≤ b :=
                UInt8.not_lt.mp fun hlt => hplain (.inl hlt)
              refine ⟨body_of_plain ?_, unquoteOne_rune h ?_⟩
              · exact List.forall_mem_singleton.mpr
                  (next_plain hctl hquote hslash)
              · exact fun heq => hslash (Option.some.inj heq)
  | b :: c :: more, h =>
      have hhigh := rune_cons_cons h
      have hne : ∀ x ∈ b :: c :: more, ∀ y : UInt8, y < 0x80 → x ≠ y := by
        rintro x hx y hy rfl
        exact UInt8.not_lt.mpr (hhigh x hx) hy
      rw [quoteOne]
      · split
        · next heq =>
            rw [heq]
            exact ⟨body_escapeRune _, fun rest => unquoteOne_escapeRune
              (by decide) (by decide) rest⟩
        · split
          · next heq =>
              rw [heq]
              exact ⟨body_escapeRune _, fun rest => unquoteOne_escapeRune
                (by decide) (by decide) rest⟩
          · refine ⟨body_of_plain fun x hx => ?_, unquoteOne_rune h ?_⟩
            · exact next_plain (UInt8.le_trans (by decide) (hhigh x hx))
                (hne x hx 0x22 (by decide)) (hne x hx 0x5c (by decide))
            · exact fun heq => hne b List.mem_cons_self 0x5c (by decide)
                (Option.some.inj heq)
      · intro x hx
        cases hx

theorem quoteBody_spec {text : Bytes} (h : Utf8.Valid text) :
    Body (quoteBody text) ∧ unquote (quoteBody text) = text := by
  induction h with
  | nil => exact ⟨rfl, rfl⟩
  | @cons rune rest hrune _ ih =>
      obtain ⟨hbody, hone⟩ := quoteOne_spec hrune
      have hcons : quoteBody (rune ++ rest) = quoteOne rune ++ quoteBody rest := by
        rw [quoteBody, Utf8.runes_rune hrune, List.flatMap_cons]
        rfl
      have hne : quoteOne rune ++ quoteBody rest ≠ [] := by
        intro hnil
        have hread : (unquoteOne (quoteOne rune ++ [0x61])).2 = [0x61] :=
          congrArg Prod.snd (hone [0x61])
        rw [(List.append_eq_nil_iff.mp hnil).1] at hread
        exact absurd hread (by decide)
      rw [hcons]
      exact ⟨hbody.append ih.1, by rw [unquote_of_one hne (hone _), ih.2]⟩

/-! ## Values -/

def encodeScalar : Scalar → Bytes
  | .null => bytes "null"
  | .bool true => bytes "true"
  | .bool false => bytes "false"
  | .number literal => literal
  | .string text => quote text

/-- Pieces between brackets, with commas. -/
def bracketed (left right : UInt8) (parts : List Bytes) : Bytes :=
  left :: ([0x2c].intercalate parts ++ [right])

/-- `json.Marshal` of a decoded value. -/
def encode : Value → Bytes :=
  Value.fold encodeScalar (bracketed 0x5b 0x5d) fun members =>
    bracketed 0x7b 0x7d (members.map fun m => quote m.1 ++ 0x3a :: m.2)

theorem encode_array (items : List Value) :
    encode (.array items) = bracketed 0x5b 0x5d (items.map encode) :=
  Value.fold_array _ _ _ items

theorem encode_object (members : List (Bytes × Value)) :
    encode (.object members) = bracketed 0x7b 0x7d
      (members.map fun m => quote m.1 ++ 0x3a :: encode m.2) := by
  rw [encode, Value.fold_object, List.map_map]
  rfl

theorem spells_items {v : Value} {items : List Value}
    (h : ∀ w ∈ v :: items, Spells (.value w) (encode w)) :
    Spells (.items (v :: items))
      ([0x2c].intercalate ((v :: items).map encode) ++ [0x5d]) := by
  induction items generalizing v with
  | nil =>
      rw [List.forall_mem_singleton] at h
      have hlast := Spells.lastItem blank_nil h blank_nil
      simpa only [List.map_cons, List.map_nil, List.intercalate_singleton,
        List.nil_append] using hlast
  | cons w items ih =>
      rw [List.forall_mem_cons] at h
      have hmore := Spells.moreItems blank_nil h.1 blank_nil (ih h.2)
      simpa only [List.map_cons, List.intercalate_cons_cons, List.append_assoc,
        List.nil_append, List.cons_append] using hmore

theorem spells_members {m : Bytes × Value} {members : List (Bytes × Value)}
    (hvalid : ∀ n ∈ m :: members, Utf8.Valid n.1)
    (h : ∀ n ∈ m :: members, Spells (.value n.2) (encode n.2)) :
    Spells (.members (m :: members))
      ([0x2c].intercalate ((m :: members).map fun n =>
        quote n.1 ++ 0x3a :: encode n.2) ++ [0x7d]) := by
  induction members generalizing m with
  | nil =>
      rw [List.forall_mem_singleton] at h hvalid
      obtain ⟨hbody, hname⟩ := quoteBody_spec hvalid
      have hlast := Spells.lastMember blank_nil hbody blank_nil blank_nil h
        blank_nil
      rw [hname] at hlast
      simpa only [List.map_cons, List.map_nil, List.intercalate_singleton,
        quote, List.append_assoc, List.nil_append, List.cons_append] using hlast
  | cons n members ih =>
      rw [List.forall_mem_cons] at h hvalid
      obtain ⟨hbody, hname⟩ := quoteBody_spec hvalid.1
      have hmore := Spells.moreMembers blank_nil hbody blank_nil blank_nil h.1
        blank_nil (ih hvalid.2 h.2)
      rw [hname] at hmore
      simpa only [List.map_cons, List.intercalate_cons_cons, quote,
        List.append_assoc, List.nil_append, List.cons_append] using hmore

/-- What the encoder writes spells the value. -/
theorem Value.Written.spells {v : Value} (h : v.Written) :
    Spells (.value v) (encode v) := by
  induction h with
  | null => exact .word (by decide)
  | bool b => cases b <;> exact .word (by decide)
  | number h => exact .number h
  | string h =>
      obtain ⟨hbody, htext⟩ := quoteBody_spec h
      have hstring := Spells.string hbody
      rw [htext] at hstring
      exact hstring
  | @array items _ ih =>
      rw [encode_array]
      cases items with
      | nil => exact .emptyArray blank_nil
      | cons v items => exact .array (spells_items ih)
  | @object members hvalid _ ih =>
      rw [encode_object]
      cases members with
      | nil => exact .emptyObject blank_nil
      | cons m members => exact .object (spells_members hvalid ih)

theorem Value.Written.document {v : Value} (h : v.Written) :
    Document v (encode v) :=
  ⟨[], encode v, [], blank_nil, h.spells, blank_nil, by
    rw [List.nil_append, List.append_nil]⟩

/-- Decoding what was encoded gives the value back. -/
theorem Value.WellFormed.decode_encode {v : Value} (h : v.WellFormed) :
    decode (encode v) = some v := by
  obtain ⟨rest, hfirst, -⟩ := document_iff.mp h.written.document
  exact decode_eq_some_iff.mpr ⟨v, rest, hfirst, h.decoded_eq⟩

/-- What decoding returns is well formed. -/
theorem wellFormed_decode {data : Bytes} {v : Value}
    (h : decode data = some v) : v.WellFormed := by
  obtain ⟨w, rest, ⟨ws, text, -, htext, -, -⟩, rfl⟩ := decode_eq_some_iff.mp h
  exact htext.written.decoded

end PlatformGo.Json
