import PlatformGo.Lib.Json

/-!
# JSON text

The grammar. `Spells` says which bytes spell a value, with the white space
where it may stand, and `Document` is one value with white space around it.
Numbers and the insides of strings are given by small automata, which is also
how they are scanned.

The text of a string is what its escapes stand for; bytes that are no
character and surrogates that stand alone are read as U+FFFD. So a value that
some text spells has well-formed text in it (`Spells.written`), whatever bytes
the text is made of.
-/

namespace PlatformGo.Json

open PlatformGo

/-! ## White space -/

def isSpace (b : UInt8) : Bool :=
  b == 0x20 || b == 0x09 || b == 0x0a || b == 0x0d

def Blank (ws : Bytes) : Prop := ∀ b ∈ ws, isSpace b = true

theorem blank_nil : Blank [] := fun _ h => absurd h List.not_mem_nil

def skip (data : Bytes) : Bytes := data.dropWhile isSpace

theorem exists_skip (data : Bytes) :
    ∃ ws, Blank ws ∧ data = ws ++ skip data := by
  refine ⟨data.takeWhile isSpace, ?_, List.takeWhile_append_dropWhile.symm⟩
  exact List.all_eq_true.mp List.all_takeWhile

theorem skip_append {ws : Bytes} (h : Blank ws) (data : Bytes) :
    skip (ws ++ data) = skip data :=
  List.dropWhile_append_of_pos h

theorem skip_cons {b : UInt8} (h : isSpace b = false) (data : Bytes) :
    skip (b :: data) = b :: data := by
  rw [skip, List.dropWhile_cons_of_neg]
  rw [h]
  exact Bool.false_ne_true

/-! ## Scanning

Numbers and the insides of strings are read byte by byte by a small automaton,
as far as it goes. -/

section Scan

variable {S : Type*} (next : S → UInt8 → Option S) (done : S → Bool)

def scan : S → Bytes → Option (Bytes × Bytes)
  | s, [] => if done s then some ([], []) else none
  | s, b :: rest =>
      match next s b with
      | some s' => (scan s' rest).map fun p => (b :: p.1, p.2)
      | none => if done s then some ([], b :: rest) else none

variable {next done}

/-- The longest text the automaton goes through is split off, if it may end
there. -/
theorem scan_iff {s : S} {data text rest : Bytes} :
    scan next done s data = some (text, rest) ↔
      data = text ++ rest ∧ ∃ s', text.foldlM next s = some s' ∧
        done s' = true ∧ ∀ b ∈ rest.head?, next s' b = none := by
  induction data generalizing s text with
  | nil =>
      rw [scan]
      constructor
      · intro h
        split at h
        · next hdone =>
            cases h
            exact ⟨rfl, s, rfl, hdone, fun b hb => by cases hb⟩
        · cases h
      · rintro ⟨heq, s', hs, hdone, -⟩
        obtain ⟨rfl, rfl⟩ := List.append_eq_nil_iff.mp heq.symm
        cases hs
        rw [if_pos hdone]
  | cons b data ih =>
      rw [scan]
      constructor
      · intro h
        split at h
        · next s' hnext =>
            obtain ⟨⟨text, rest⟩, hscan, heq⟩ := Option.map_eq_some_iff.mp h
            cases heq
            obtain ⟨rfl, t, ht, hdone, hend⟩ := ih.mp hscan
            refine ⟨rfl, t, ?_, hdone, hend⟩
            rw [List.foldlM_cons, hnext]
            exact ht
        · next hnext =>
            split at h
            · next hdone =>
                cases h
                refine ⟨rfl, s, rfl, hdone, fun c hc => ?_⟩
                cases hc
                exact hnext
            · cases h
      · rintro ⟨heq, s', hs, hdone, hend⟩
        cases text with
        | nil =>
            cases hs
            rw [List.nil_append] at heq
            subst heq
            rw [hend b rfl]
            exact if_pos hdone
        | cons c text =>
            rw [List.cons_append] at heq
            obtain ⟨rfl, rfl⟩ := List.cons_eq_cons.mp heq
            rw [List.foldlM_cons] at hs
            obtain ⟨t, hnext, ht⟩ := Option.bind_eq_some_iff.mp hs
            have hscan := ih.mpr ⟨rfl, s', ht, hdone, hend⟩
            simp only [hnext, hscan, Option.map_some]

end Scan

/-! ## Numbers -/

def scanNumber (data : Bytes) : Option (Bytes × Bytes) :=
  scan NumberState.next NumberState.done .start data

/-- The literal does not go on with what follows. -/
def NumberEnds (literal rest : Bytes) : Prop :=
  ∀ s, literal.foldlM NumberState.next .start = some s →
    ∀ b ∈ rest.head?, s.next b = none

theorem scanNumber_iff {data literal rest : Bytes} :
    scanNumber data = some (literal, rest) ↔
      data = literal ++ rest ∧ IsNumber literal ∧ NumberEnds literal rest := by
  rw [scanNumber, scan_iff]
  refine and_congr_right fun _ => ?_
  constructor
  · rintro ⟨s, hs, hdone, hend⟩
    refine ⟨⟨s, hs, hdone⟩, fun t ht => ?_⟩
    cases hs.symm.trans ht
    exact hend
  · rintro ⟨⟨s, hs, hdone⟩, hend⟩
    exact ⟨s, hs, hdone, hend s hs⟩

/-- White space, a comma and the closing brackets, which is what may stand
behind a value. -/
def isEnd (b : UInt8) : Bool :=
  isSpace b || b == 0x2c || b == 0x5d || b == 0x7d

theorem next_of_isEnd {b : UInt8} (h : isEnd b = true) (s : NumberState) :
    s.next b = none := by
  simp only [isEnd, isSpace, Bool.or_eq_true, beq_iff_eq] at h
  rcases h with (((((rfl | rfl) | rfl) | rfl) | rfl) | rfl) | rfl <;>
    cases s <;> rfl

theorem numberEnds_of_isEnd {literal rest : Bytes}
    (h : ∀ b ∈ rest.head?, isEnd b = true) : NumberEnds literal rest :=
  fun s _ b hb => next_of_isEnd (h b hb) s

/-! ## Strings -/

/-- The escapes of one letter and what they stand for. -/
def escapes : List (UInt8 × UInt8) :=
  [(0x22, 0x22), (0x5c, 0x5c), (0x2f, 0x2f), (0x62, 0x08), (0x66, 0x0c),
    (0x6e, 0x0a), (0x72, 0x0d), (0x74, 0x09)]

def hexValue (b : UInt8) : Option Nat :=
  if 0x30 ≤ b ∧ b ≤ 0x39 then some (b.toNat - 0x30)
  else if 0x61 ≤ b ∧ b ≤ 0x66 then some (b.toNat - 0x57)
  else if 0x41 ≤ b ∧ b ≤ 0x46 then some (b.toNat - 0x37)
  else none

/-- Where inside a string the text has come: between characters, behind a
backslash, or in a code point with some hexadecimal digits to come. -/
inductive StringState
  | text
  | escape
  | hex (left : Nat)
deriving DecidableEq, Repr

namespace StringState

def next : StringState → UInt8 → Option StringState
  | .text, b =>
      if b = 0x5c then some .escape
      else if b = 0x22 ∨ b < 0x20 then none
      else some .text
  | .escape, b =>
      if b = 0x75 then some (.hex 4)
      else if (escapes.lookup b).isSome then some .text
      else none
  | .hex left, b =>
      if (hexValue b).isSome then
        some (if left ≤ 1 then .text else .hex (left - 1))
      else none

def done (s : StringState) : Bool := s == .text

end StringState

/-- What may stand between the quotes of a string. -/
def Body (body : Bytes) : Prop :=
  body.foldlM StringState.next .text = some .text

theorem Body.append {a b : Bytes} (ha : Body a) (hb : Body b) :
    Body (a ++ b) := by
  rw [Body, List.foldlM_append, ha]
  exact hb

/-- Reads a string after its opening quote, to behind the closing one. -/
def scanBody (data : Bytes) : Option (Bytes × Bytes) :=
  match scan StringState.next StringState.done .text data with
  | some (body, b :: rest) => if b = 0x22 then some (body, rest) else none
  | _ => none

theorem scanBody_iff {data body rest : Bytes} :
    scanBody data = some (body, rest) ↔
      Body body ∧ data = body ++ 0x22 :: rest := by
  unfold scanBody
  constructor
  · intro h
    split at h
    · next body b rest hscan =>
        split at h
        · next hquote =>
            cases h
            obtain ⟨rfl, s, hs, hdone, -⟩ := scan_iff.mp hscan
            obtain rfl := beq_iff_eq.mp hdone
            exact ⟨hs, by rw [hquote]⟩
        · cases h
    · cases h
  · rintro ⟨hbody, rfl⟩
    have hscan : scan StringState.next StringState.done .text
        (body ++ 0x22 :: rest) = some (body, 0x22 :: rest) := by
      refine scan_iff.mpr ⟨rfl, .text, hbody, rfl, fun b hb => ?_⟩
      cases hb
      rfl
    simp only [hscan, if_true]

/-! ## The text of a string -/

def hex4 (a b c d : UInt8) : Option Nat := do
  let a ← hexValue a
  let b ← hexValue b
  let c ← hexValue c
  let d ← hexValue d
  return ((a * 16 + b) * 16 + c) * 16 + d

/-- A code point written as an escape. -/
def codeUnit : Bytes → Option (Nat × Bytes)
  | s :: u :: a :: b :: c :: d :: rest =>
      if s = 0x5c ∧ u = 0x75 then (hex4 a b c d).map (·, rest) else none
  | _ => none

def isSurrogate (r : Nat) : Bool := 0xd800 ≤ r && r < 0xe000

/-- The character that two surrogates stand for. -/
def pair (r r' : Nat) : Option Nat :=
  if 0xd800 ≤ r ∧ r < 0xdc00 ∧ 0xdc00 ≤ r' ∧ r' < 0xe000 then
    some ((r - 0xd800) * 0x400 + (r' - 0xdc00) + 0x10000)
  else none

/-- A letter behind a backslash. -/
def unescape : Bytes → Bytes × Bytes
  | [] => (Utf8.runeError, [])
  | e :: rest =>
      match escapes.lookup e with
      | some c => ([c], rest)
      | none => (Utf8.runeError, rest)

/-- The character at the front of the inside of a string, and what is left. -/
def unquoteOne (data : Bytes) : Bytes × Bytes :=
  match codeUnit data with
  | some (r, rest) =>
      if isSurrogate r then
        match codeUnit rest with
        | some (r', more) =>
            match pair r r' with
            | some r => (Utf8.encodeRune r, more)
            | none => (Utf8.runeError, rest)
        | none => (Utf8.runeError, rest)
      else (Utf8.encodeRune r, rest)
  | none =>
      if data.head? = some 0x5c then unescape data.tail
      else Utf8.decodeRune data

/-- What the inside of a string stands for. -/
def unquote (body : Bytes) : Bytes := (Utf8.pieces unquoteOne body).flatten

theorem hexValue_lt {b : UInt8} {n : Nat} (h : hexValue b = some n) :
    n < 16 := by
  unfold hexValue at h
  split at h
  · next hb =>
      cases h
      have := UInt8.le_iff_toNat_le.mp hb.2
      have : b.toNat ≤ 0x39 := this
      omega
  · split at h
    · next hb =>
        cases h
        have : b.toNat ≤ 0x66 := UInt8.le_iff_toNat_le.mp hb.2
        omega
    · split at h
      · next hb =>
          cases h
          have : b.toNat ≤ 0x46 := UInt8.le_iff_toNat_le.mp hb.2
          omega
      · cases h

theorem hex4_lt {a b c d : UInt8} {r : Nat} (h : hex4 a b c d = some r) :
    r < 0x10000 := by
  unfold hex4 at h
  obtain ⟨a', ha, h⟩ := Option.bind_eq_some_iff.mp h
  obtain ⟨b', hb, h⟩ := Option.bind_eq_some_iff.mp h
  obtain ⟨c', hc, h⟩ := Option.bind_eq_some_iff.mp h
  obtain ⟨d', hd, h⟩ := Option.bind_eq_some_iff.mp h
  cases h
  have := hexValue_lt ha
  have := hexValue_lt hb
  have := hexValue_lt hc
  have := hexValue_lt hd
  omega

theorem codeUnit_eq_some {data : Bytes} {r : Nat} {rest : Bytes}
    (h : codeUnit data = some (r, rest)) :
    r < 0x10000 ∧ rest.length < data.length := by
  unfold codeUnit at h
  split at h
  · split at h
    · obtain ⟨r, hr, heq⟩ := Option.map_eq_some_iff.mp h
      cases heq
      exact ⟨hex4_lt hr, by simp only [List.length_cons]; omega⟩
    · cases h
  · cases h

theorem pair_eq_some {r r' n : Nat} (h : pair r r' = some n) :
    0x10000 ≤ n ∧ n < 0x110000 := by
  unfold pair at h
  split at h
  · have := Option.some.inj h
    omega
  · cases h

theorem rune_unescape (data : Bytes) : Utf8.Rune (unescape data).1 := by
  have hascii : escapes.all (fun p => p.2 < 0x80) = true := by decide
  unfold unescape
  split
  · exact Utf8.rune_runeError
  · next e _ =>
    split
    · next c hc =>
        obtain ⟨l₁, l₂, heq, -⟩ := List.lookup_eq_some_iff.mp hc
        refine .one (of_decide_eq_true (List.all_eq_true.mp hascii (e, c) ?_))
        rw [heq]
        exact List.mem_append_right l₁ List.mem_cons_self
    · exact Utf8.rune_runeError

theorem length_unescape (data : Bytes) :
    (unescape data).2.length ≤ data.length := by
  unfold unescape
  split
  · exact Nat.le_refl _
  · split <;> exact Nat.le_succ _

theorem rune_unquoteOne (data : Bytes) : Utf8.Rune (unquoteOne data).1 := by
  unfold unquoteOne
  split
  · next r rest hunit =>
      have hr := (codeUnit_eq_some hunit).1
      split
      · split
        · next r' more _ =>
            split
            · next r hpair =>
                have := pair_eq_some hpair
                exact Utf8.rune_encodeRune (.inr ⟨by omega, by omega⟩)
            · exact Utf8.rune_runeError
        · exact Utf8.rune_runeError
      · next hsurr =>
          refine Utf8.rune_encodeRune ?_
          rw [isSurrogate, Bool.and_eq_true, decide_eq_true_eq,
            decide_eq_true_eq] at hsurr
          omega
  · split
    · exact rune_unescape _
    · exact Utf8.rune_decodeRune data

theorem length_unquoteOne {data : Bytes} (h : data ≠ []) :
    (unquoteOne data).2.length < data.length := by
  unfold unquoteOne
  split
  · next r rest hunit =>
      have hlen := (codeUnit_eq_some hunit).2
      split
      · split
        · next r' more hmore =>
            have := (codeUnit_eq_some hmore).2
            split
            · exact Nat.lt_trans this hlen
            · exact hlen
        · exact hlen
      · exact hlen
  · split
    · have hlen := length_unescape data.tail
      have hpos := List.length_pos_of_ne_nil h
      rw [List.length_tail] at hlen
      omega
    · exact Utf8.length_decodeRune h

/-- The text of a string is well formed, whatever bytes it is written with. -/
theorem valid_unquote (body : Bytes) : Utf8.Valid (unquote body) :=
  Utf8.valid_flatten (Utf8.forall_pieces rune_unquoteOne body)

theorem unquote_of_one {data rune rest : Bytes} (h : data ≠ [])
    (hone : unquoteOne data = (rune, rest)) :
    unquote data = rune ++ unquote rest := by
  rw [unquote, Utf8.pieces_cons length_unquoteOne h, hone, List.flatten_cons]
  rfl

/-! ## The grammar -/

/-- The words and what they stand for. -/
def words : List (Bytes × Scalar) :=
  [(bytes "true", .bool true), (bytes "false", .bool false),
    (bytes "null", .null)]

/-- What a piece of text can spell: a value, or what follows the opening
bracket of an array or an object that is not empty. -/
inductive Phrase
  | value (v : Value)
  | items (items : List Value)
  | members (members : List (Bytes × Value))

inductive Spells : Phrase → Bytes → Prop
  | word {text : Bytes} {s : Scalar} (h : (text, s) ∈ words) :
      Spells (.value (.scalar s)) text
  | number {literal : Bytes} (h : IsNumber literal) :
      Spells (.value (.scalar (.number literal))) literal
  | string {body : Bytes} (h : Body body) :
      Spells (.value (.scalar (.string (unquote body))))
        (0x22 :: (body ++ [0x22]))
  | emptyArray {ws : Bytes} (hws : Blank ws) :
      Spells (.value (.array [])) (0x5b :: (ws ++ [0x5d]))
  | array {items : List Value} {text : Bytes} (h : Spells (.items items) text) :
      Spells (.value (.array items)) (0x5b :: text)
  | emptyObject {ws : Bytes} (hws : Blank ws) :
      Spells (.value (.object [])) (0x7b :: (ws ++ [0x7d]))
  | object {members : List (Bytes × Value)} {text : Bytes}
      (h : Spells (.members members) text) :
      Spells (.value (.object members)) (0x7b :: text)
  | lastItem {v : Value} {ws text ws' : Bytes} (hws : Blank ws)
      (h : Spells (.value v) text) (hws' : Blank ws') :
      Spells (.items [v]) (ws ++ (text ++ (ws' ++ [0x5d])))
  | moreItems {v : Value} {items : List Value} {ws text ws' more : Bytes}
      (hws : Blank ws) (h : Spells (.value v) text) (hws' : Blank ws')
      (hmore : Spells (.items items) more) :
      Spells (.items (v :: items)) (ws ++ (text ++ (ws' ++ 0x2c :: more)))
  | lastMember {v : Value} {ws body colon ws' text ws'' : Bytes}
      (hws : Blank ws) (hbody : Body body) (hcolon : Blank colon)
      (hws' : Blank ws') (h : Spells (.value v) text) (hws'' : Blank ws'') :
      Spells (.members [(unquote body, v)])
        (ws ++ 0x22 :: (body ++ 0x22 :: (colon ++ 0x3a ::
          (ws' ++ (text ++ (ws'' ++ [0x7d]))))))
  | moreMembers {v : Value} {members : List (Bytes × Value)}
      {ws body colon ws' text ws'' more : Bytes} (hws : Blank ws)
      (hbody : Body body) (hcolon : Blank colon) (hws' : Blank ws')
      (h : Spells (.value v) text) (hws'' : Blank ws'')
      (hmore : Spells (.members members) more) :
      Spells (.members ((unquote body, v) :: members))
        (ws ++ 0x22 :: (body ++ 0x22 :: (colon ++ 0x3a ::
          (ws' ++ (text ++ (ws'' ++ 0x2c :: more))))))

/-- One value, with white space around it. -/
def Document (v : Value) (data : Bytes) : Prop :=
  ∃ ws text ws', Blank ws ∧ Spells (.value v) text ∧ Blank ws' ∧
    data = ws ++ (text ++ ws')

/-! ## What can be spelled -/

def Phrase.Written : Phrase → Prop
  | .value v => v.Written
  | .items vs => ∀ v ∈ vs, v.Written
  | .members ms => ∀ m ∈ ms, Utf8.Valid m.1 ∧ m.2.Written

theorem Spells.written {p : Phrase} {text : Bytes} (h : Spells p text) :
    p.Written := by
  induction h with
  | word h =>
      simp only [words, List.mem_cons, List.not_mem_nil, or_false,
        Prod.mk.injEq] at h
      rcases h with ⟨-, rfl⟩ | ⟨-, rfl⟩ | ⟨-, rfl⟩
      · exact Value.Written.bool true
      · exact Value.Written.bool false
      · exact Value.Written.null
  | number h => exact Value.Written.number h
  | string h => exact Value.Written.string (valid_unquote _)
  | emptyArray => exact Value.Written.array fun _ h => absurd h List.not_mem_nil
  | array _ ih => exact Value.Written.array ih
  | emptyObject =>
      exact Value.Written.object (fun _ h => absurd h List.not_mem_nil)
        (fun _ h => absurd h List.not_mem_nil)
  | object _ ih =>
      exact Value.Written.object (fun m hm => (ih m hm).1)
        (fun m hm => (ih m hm).2)
  | lastItem _ _ _ ih => exact List.forall_mem_singleton.mpr ih
  | moreItems _ _ _ _ ih ihmore => exact List.forall_mem_cons.mpr ⟨ih, ihmore⟩
  | lastMember _ _ _ _ _ _ ih =>
      exact List.forall_mem_singleton.mpr ⟨valid_unquote _, ih⟩
  | moreMembers _ _ _ _ _ _ _ ih ihmore =>
      exact List.forall_mem_cons.mpr ⟨⟨valid_unquote _, ih⟩, ihmore⟩

theorem Document.written {v : Value} {data : Bytes} (h : Document v data) :
    v.Written := by
  obtain ⟨ws, text, ws', -, htext, -, -⟩ := h
  exact htext.written

end PlatformGo.Json
