import PlatformGo.Lib.JsonText

/-!
# Reading JSON

A parser that reads one value off the front of a text and says what is left.
It asks for no more: what follows the value is not looked at. That is how a
stream decoder works, and `parse_iff` is its specification. A number is read
as far as it goes, so the text `01` starts with the number `0`.

The three functions of the parser call each other on less fuel, and a value
takes at most two calls for each of its bytes (`Spells.reads`).
-/

namespace PlatformGo.Json

open PlatformGo

/-! ## The parser -/

/-- The name of a member, up to behind its colon. -/
def parseName (data : Bytes) : Option (Bytes × Bytes) :=
  match skip data with
  | [] => none
  | b :: rest =>
      if b = 0x22 then
        match scanBody rest with
        | none => none
        | some (body, rest) =>
            match skip rest with
            | [] => none
            | c :: rest =>
                if c = 0x3a then some (unquote body, rest) else none
      else none

/-- What follows an item or a member: another one, the closing bracket or
neither. -/
inductive Follow
  | more (rest : Bytes)
  | close (rest : Bytes)
  | other

def follow (bracket : UInt8) (data : Bytes) : Follow :=
  match skip data with
  | [] => .other
  | b :: rest =>
      if b = 0x2c then .more rest else if b = bracket then .close rest
      else .other

mutual

def parseValue : Nat → Bytes → Option (Value × Bytes)
  | 0, _ => none
  | _ + 1, [] => none
  | fuel + 1, b :: rest =>
      if b = 0x22 then
        (scanBody rest).map fun p => (.scalar (.string (unquote p.1)), p.2)
      else if b = 0x5b then
        match skip rest with
        | 0x5d :: rest => some (.array [], rest)
        | _ => (parseItems fuel rest).map fun p => (.array p.1, p.2)
      else if b = 0x7b then
        match skip rest with
        | 0x7d :: rest => some (.object [], rest)
        | _ => (parseMembers fuel rest).map fun p => (.object p.1, p.2)
      else
        match words.find? fun w => w.1.isPrefixOf (b :: rest) with
        | some w => some (.scalar w.2, (b :: rest).drop w.1.length)
        | none =>
            (scanNumber (b :: rest)).map fun p => (.scalar (.number p.1), p.2)

def parseItems : Nat → Bytes → Option (List Value × Bytes)
  | 0, _ => none
  | fuel + 1, data =>
      match parseValue fuel (skip data) with
      | none => none
      | some (v, rest) =>
          match follow 0x5d rest with
          | .more rest =>
              (parseItems fuel rest).map fun p => (v :: p.1, p.2)
          | .close rest => some ([v], rest)
          | .other => none

def parseMembers : Nat → Bytes → Option (List (Bytes × Value) × Bytes)
  | 0, _ => none
  | fuel + 1, data =>
      match parseName data with
      | none => none
      | some (name, rest) =>
          match parseValue fuel (skip rest) with
          | none => none
          | some (v, rest) =>
              match follow 0x7d rest with
              | .more rest =>
                  (parseMembers fuel rest).map fun p => ((name, v) :: p.1, p.2)
              | .close rest => some ([(name, v)], rest)
              | .other => none

end

/-! ## What is spelled is read -/

theorem isSpace_of_isEnd {b : UInt8} (h : isEnd b = false) :
    isSpace b = false := by
  simp only [isEnd, Bool.or_eq_false_iff] at h
  exact h.1.1.1

theorem skip_blank {ws : Bytes} {b : UInt8} (hws : Blank ws)
    (hb : isSpace b = false) (data : Bytes) :
    skip (ws ++ b :: data) = b :: data := by
  rw [skip_append hws, skip_cons hb]

/-- A value starts with none of the bytes that can stand before or behind
one. -/
theorem Spells.head {v : Value} {text : Bytes} (h : Spells (.value v) text) :
    ∃ b more, text = b :: more ∧ isEnd b = false := by
  cases h with
  | word h =>
      simp only [words, List.mem_cons, List.not_mem_nil, or_false,
        Prod.mk.injEq] at h
      rcases h with ⟨rfl, -⟩ | ⟨rfl, -⟩ | ⟨rfl, -⟩ <;>
        exact ⟨_, _, rfl, by decide⟩
  | number h =>
      obtain ⟨s, hs, hdone⟩ := h
      cases text with
      | nil =>
          cases hs
          cases hdone
      | cons b literal =>
          refine ⟨b, literal, rfl, Bool.eq_false_iff.mpr fun hend => ?_⟩
          rw [List.foldlM_cons, next_of_isEnd hend] at hs
          cases hs
  | string | emptyArray | array | emptyObject | object =>
      exact ⟨_, _, rfl, by decide⟩

theorem parseName_spelled {ws body colon : Bytes} (hws : Blank ws)
    (hbody : Body body) (hcolon : Blank colon) (rest : Bytes) :
    parseName (ws ++ 0x22 :: (body ++ 0x22 :: (colon ++ 0x3a :: rest))) =
      some (unquote body, rest) := by
  rw [parseName, skip_blank hws (by decide)]
  simp only [if_true, scanBody_iff.mpr ⟨hbody, rfl⟩]
  rw [skip_blank hcolon (by decide)]
  simp only [if_true]

theorem follow_comma {ws : Bytes} (hws : Blank ws) (bracket : UInt8)
    (rest : Bytes) : follow bracket (ws ++ 0x2c :: rest) = .more rest := by
  rw [follow, skip_blank hws (by decide)]
  simp only [if_true]

theorem follow_bracket {ws : Bytes} {bracket : UInt8} (hws : Blank ws)
    (hspace : isSpace bracket = false) (hcomma : bracket ≠ 0x2c)
    (rest : Bytes) : follow bracket (ws ++ bracket :: rest) = .close rest := by
  rw [follow, skip_blank hws hspace]
  simp only [hcomma, if_true, if_false]

/-- The part of the parser for a phrase reads it off the text. -/
def Reads (fuel : Nat) : Phrase → Bytes → Bytes → Prop
  | .value v, data, rest => parseValue fuel data = some (v, rest)
  | .items items, data, rest => parseItems fuel data = some (items, rest)
  | .members members, data, rest =>
      parseMembers fuel data = some (members, rest)

/-- A number at the end of the phrase ends before what follows. -/
def Ends : Phrase → Bytes → Prop
  | .value (.scalar (.number literal)), rest => NumberEnds literal rest
  | _, _ => True

def cost : Phrase → Bytes → Nat
  | .value _, text => 2 * text.length
  | _, text => 2 * text.length + 1

theorem ends_of_isEnd {p : Phrase} {rest : Bytes}
    (h : ∀ b ∈ rest.head?, isEnd b = true) : Ends p rest := by
  unfold Ends
  split
  · exact numberEnds_of_isEnd h
  · trivial

theorem ends_word {text : Bytes} {s : Scalar} (h : (text, s) ∈ words)
    (rest : Bytes) : Ends (.value (.scalar s)) rest := by
  simp only [words, List.mem_cons, List.not_mem_nil, or_false,
    Prod.mk.injEq] at h
  rcases h with ⟨-, rfl⟩ | ⟨-, rfl⟩ | ⟨-, rfl⟩ <;> trivial

theorem head_blank_append {ws : Bytes} {b : UInt8} (hws : Blank ws)
    (hb : isEnd b = true) (rest : Bytes) :
    ∀ c ∈ (ws ++ b :: rest).head?, isEnd c = true := by
  intro c hc
  cases ws with
  | nil =>
      cases hc
      exact hb
  | cons w ws =>
      cases hc
      rw [isEnd, hws c List.mem_cons_self]
      rfl

theorem reads_word {text : Bytes} {s : Scalar} (h : (text, s) ∈ words)
    (fuel : Nat) (rest : Bytes) :
    parseValue (fuel + 1) (text ++ rest) = some (.scalar s, rest) := by
  simp only [words, List.mem_cons, List.not_mem_nil, or_false,
    Prod.mk.injEq] at h
  rcases h with ⟨rfl, rfl⟩ | ⟨rfl, rfl⟩ | ⟨rfl, rfl⟩ <;> rfl

theorem reads_number {literal : Bytes} (h : IsNumber literal) (fuel : Nat)
    {rest : Bytes} (hend : NumberEnds literal rest) :
    parseValue (fuel + 1) (literal ++ rest) =
      some (.scalar (.number literal), rest) := by
  have hscan := scanNumber_iff.mpr ⟨rfl, h, hend⟩
  obtain ⟨s, hs, hdone⟩ := h
  cases literal with
  | nil =>
      cases hs
      cases hdone
  | cons b literal =>
      rw [List.foldlM_cons] at hs
      obtain ⟨t, hnext, -⟩ := Option.bind_eq_some_iff.mp hs
      -- No other kind of value starts with a byte that starts a number.
      have hb : ∀ c : UInt8, NumberState.start.next c = none → b ≠ c := by
        rintro c hc rfl
        cases hnext.symm.trans hc
      have hword : (words.find? fun w => w.1.isPrefixOf (b :: (literal ++ rest))) =
          none := by
        refine List.find?_eq_none.mpr fun w hw hpre => ?_
        simp only [words, List.mem_cons, List.not_mem_nil, or_false] at hw
        rcases hw with rfl | rfl | rfl
        · exact hb 0x74 rfl (List.cons_prefix_cons.mp
            (List.isPrefixOf_iff_prefix.mp hpre)).1.symm
        · exact hb 0x66 rfl (List.cons_prefix_cons.mp
            (List.isPrefixOf_iff_prefix.mp hpre)).1.symm
        · exact hb 0x6e rfl (List.cons_prefix_cons.mp
            (List.isPrefixOf_iff_prefix.mp hpre)).1.symm
      rw [List.cons_append] at hscan ⊢
      rw [parseValue, if_neg (hb 0x22 rfl), if_neg (hb 0x5b rfl),
        if_neg (hb 0x7b rfl), hword]
      simp only [hscan, Option.map_some]

theorem skip_value {v : Value} {ws text : Bytes} (hws : Blank ws)
    (h : Spells (.value v) text) (rest : Bytes) :
    skip (ws ++ (text ++ rest)) = text ++ rest := by
  obtain ⟨b, more, rfl, hb⟩ := h.head
  exact skip_blank hws (isSpace_of_isEnd hb) _

theorem Spells.skip_head {p : Phrase} {text : Bytes} (h : Spells p text)
    (rest : Bytes) :
    ∃ b more, skip (text ++ rest) = b :: more ∧ isEnd b = false := by
  have hvalue : ∀ {v : Value} {ws text : Bytes}, Blank ws →
      Spells (.value v) text → ∀ rest, ∃ b more,
        skip (ws ++ (text ++ rest)) = b :: more ∧ isEnd b = false := by
    intro v ws text hws h rest
    obtain ⟨b, more, heq, hb⟩ := h.head
    exact ⟨b, more ++ rest, by rw [skip_value hws h, heq]; rfl, hb⟩
  have hname : ∀ {ws : Bytes}, Blank ws → ∀ rest, ∃ b more,
      skip (ws ++ 0x22 :: rest) = b :: more ∧ isEnd b = false :=
    fun hws rest => ⟨0x22, rest, skip_blank hws (by decide) rest, by decide⟩
  cases p with
  | value v => exact hvalue blank_nil h rest
  | items items =>
      cases h with
      | lastItem hws h _ | moreItems hws h _ _ =>
          simp only [List.append_assoc]
          exact hvalue hws h _
  | members members =>
      cases h with
      | lastMember hws _ _ _ _ _ | moreMembers hws _ _ _ _ _ _ =>
          simp only [List.append_assoc, List.cons_append]
          exact hname hws _

theorem Spells.cost_pos {p : Phrase} {text : Bytes} (h : Spells p text) :
    0 < cost p text := by
  cases p with
  | value v =>
      obtain ⟨b, more, rfl, -⟩ := h.head
      exact Nat.mul_pos (by decide) (Nat.succ_pos _)
  | items | members => exact Nat.succ_pos _

theorem Spells.fuel_succ {p : Phrase} {text : Bytes} (h : Spells p text)
    {fuel : Nat} (hfuel : cost p text ≤ fuel) : ∃ n, fuel = n + 1 :=
  Nat.exists_eq_add_one.mpr (Nat.lt_of_lt_of_le h.cost_pos hfuel)

section Reading

variable {fuel : Nat} {v : Value} {data rest rest' : Bytes}

theorem reads_string {body : Bytes} (h : Body body) (fuel : Nat)
    (rest : Bytes) :
    parseValue (fuel + 1) (0x22 :: (body ++ 0x22 :: rest)) =
      some (.scalar (.string (unquote body)), rest) := by
  have hscan : scanBody (body ++ 0x22 :: rest) = some (body, rest) :=
    scanBody_iff.mpr ⟨h, rfl⟩
  rw [parseValue, if_pos rfl, hscan]
  rfl

theorem reads_array {b : UInt8} {more : Bytes} {items : List Value}
    (hhead : skip data = b :: more) (hb : isEnd b = false)
    (h : parseItems fuel data = some (items, rest)) :
    parseValue (fuel + 1) (0x5b :: data) = some (.array items, rest) := by
  have hne : b ≠ 0x5d := by
    rintro rfl
    cases hb
  rw [parseValue, if_neg (by decide), if_pos rfl, hhead]
  split
  · next heq => exact absurd (List.cons_eq_cons.mp heq).1 hne
  · rw [h]
    rfl

theorem reads_object {b : UInt8} {more : Bytes}
    {members : List (Bytes × Value)} (hhead : skip data = b :: more)
    (hb : isEnd b = false)
    (h : parseMembers fuel data = some (members, rest)) :
    parseValue (fuel + 1) (0x7b :: data) = some (.object members, rest) := by
  have hne : b ≠ 0x7d := by
    rintro rfl
    cases hb
  rw [parseValue, if_neg (by decide), if_neg (by decide), if_pos rfl, hhead]
  split
  · next heq => exact absurd (List.cons_eq_cons.mp heq).1 hne
  · rw [h]
    rfl

theorem reads_lastItem (h : parseValue fuel (skip data) = some (v, rest))
    (hfollow : follow 0x5d rest = .close rest') :
    parseItems (fuel + 1) data = some ([v], rest') := by
  rw [parseItems, h]
  simp only [hfollow]

theorem reads_moreItems {more : Bytes} {items : List Value}
    (h : parseValue fuel (skip data) = some (v, rest))
    (hfollow : follow 0x5d rest = .more more)
    (hmore : parseItems fuel more = some (items, rest')) :
    parseItems (fuel + 1) data = some (v :: items, rest') := by
  rw [parseItems, h]
  simp only [hfollow, hmore, Option.map_some]

variable {name value : Bytes}

theorem reads_lastMember (hname : parseName data = some (name, value))
    (h : parseValue fuel (skip value) = some (v, rest))
    (hfollow : follow 0x7d rest = .close rest') :
    parseMembers (fuel + 1) data = some ([(name, v)], rest') := by
  rw [parseMembers, hname]
  simp only [h, hfollow]

theorem reads_moreMembers {more : Bytes} {members : List (Bytes × Value)}
    (hname : parseName data = some (name, value))
    (h : parseValue fuel (skip value) = some (v, rest))
    (hfollow : follow 0x7d rest = .more more)
    (hmore : parseMembers fuel more = some (members, rest')) :
    parseMembers (fuel + 1) data = some ((name, v) :: members, rest') := by
  rw [parseMembers, hname]
  simp only [h, hfollow, hmore, Option.map_some]

end Reading

/-- With two calls for each byte the parser reads what is spelled, whatever
follows it, unless it is a number that goes on. -/
theorem Spells.reads {p : Phrase} {text : Bytes} (h : Spells p text) :
    ∀ {fuel : Nat} {rest : Bytes}, cost p text ≤ fuel → Ends p rest →
      Reads fuel p (text ++ rest) rest := by
  induction h with
  | @word text s h =>
      intro fuel rest hfuel _
      obtain ⟨fuel, rfl⟩ := (Spells.word h).fuel_succ hfuel
      exact reads_word h fuel rest
  | @number literal h =>
      intro fuel rest hfuel hend
      obtain ⟨fuel, rfl⟩ := (Spells.number h).fuel_succ hfuel
      exact reads_number h fuel hend
  | @string body h =>
      intro fuel rest hfuel _
      obtain ⟨fuel, rfl⟩ := (Spells.string h).fuel_succ hfuel
      simp only [List.cons_append, List.append_assoc, List.nil_append]
      exact reads_string h fuel rest
  | @emptyArray ws hws =>
      intro fuel rest hfuel _
      obtain ⟨fuel, rfl⟩ := (Spells.emptyArray hws).fuel_succ hfuel
      show parseValue (fuel + 1) (0x5b :: (ws ++ [0x5d] ++ rest)) = _
      rw [List.append_assoc, List.singleton_append, parseValue,
        skip_blank hws (by decide)]
      rfl
  | @emptyObject ws hws =>
      intro fuel rest hfuel _
      obtain ⟨fuel, rfl⟩ := (Spells.emptyObject hws).fuel_succ hfuel
      show parseValue (fuel + 1) (0x7b :: (ws ++ [0x7d] ++ rest)) = _
      rw [List.append_assoc, List.singleton_append, parseValue,
        skip_blank hws (by decide)]
      rfl
  | @array items text h ih =>
      intro fuel rest hfuel _
      obtain ⟨fuel, rfl⟩ := (Spells.array h).fuel_succ hfuel
      obtain ⟨b, more, hhead, hb⟩ := h.skip_head rest
      simp only [cost, List.length_cons] at hfuel ih
      exact reads_array hhead hb (ih (by omega) trivial)
  | @object members text h ih =>
      intro fuel rest hfuel _
      obtain ⟨fuel, rfl⟩ := (Spells.object h).fuel_succ hfuel
      obtain ⟨b, more, hhead, hb⟩ := h.skip_head rest
      simp only [cost, List.length_cons] at hfuel ih
      exact reads_object hhead hb (ih (by omega) trivial)
  | @lastItem v ws text ws' hws h hws' ih =>
      intro fuel rest hfuel _
      obtain ⟨fuel, rfl⟩ := Nat.exists_eq_add_one.mpr
        (Nat.lt_of_lt_of_le (Nat.succ_pos _) hfuel)
      simp only [cost, List.length_append, List.length_cons] at hfuel ih
      simp only [List.append_assoc, List.cons_append, List.nil_append]
      refine reads_lastItem ?_ (follow_bracket hws' (by decide) (by decide) rest)
      rw [skip_value hws h]
      exact ih (by omega) (ends_of_isEnd (head_blank_append hws' (by decide) _))
  | @moreItems v items ws text ws' more hws h hws' hmore ih ihmore =>
      intro fuel rest hfuel _
      obtain ⟨fuel, rfl⟩ := Nat.exists_eq_add_one.mpr
        (Nat.lt_of_lt_of_le (Nat.succ_pos _) hfuel)
      simp only [cost, List.length_append, List.length_cons] at hfuel ih ihmore
      simp only [List.append_assoc, List.cons_append]
      refine reads_moreItems ?_ (follow_comma hws' 0x5d _)
        (ihmore (by omega) trivial)
      rw [skip_value hws h]
      exact ih (by omega) (ends_of_isEnd (head_blank_append hws' (by decide) _))
  | @lastMember v ws body colon ws' text ws'' hws hbody hcolon hws' h hws'' ih =>
      intro fuel rest hfuel _
      obtain ⟨fuel, rfl⟩ := Nat.exists_eq_add_one.mpr
        (Nat.lt_of_lt_of_le (Nat.succ_pos _) hfuel)
      simp only [cost, List.length_append, List.length_cons] at hfuel ih
      simp only [List.append_assoc, List.cons_append, List.nil_append]
      refine reads_lastMember (parseName_spelled hws hbody hcolon _) ?_
        (follow_bracket hws'' (by decide) (by decide) rest)
      rw [skip_value hws' h]
      exact ih (by omega)
        (ends_of_isEnd (head_blank_append hws'' (by decide) _))
  | @moreMembers v members ws body colon ws' text ws'' more hws hbody hcolon
      hws' h hws'' hmore ih ihmore =>
      intro fuel rest hfuel _
      obtain ⟨fuel, rfl⟩ := Nat.exists_eq_add_one.mpr
        (Nat.lt_of_lt_of_le (Nat.succ_pos _) hfuel)
      simp only [cost, List.length_append, List.length_cons] at hfuel ih ihmore
      simp only [List.append_assoc, List.cons_append]
      refine reads_moreMembers (parseName_spelled hws hbody hcolon _) ?_
        (follow_comma hws'' 0x7d _) (ihmore (by omega) trivial)
      rw [skip_value hws' h]
      exact ih (by omega)
        (ends_of_isEnd (head_blank_append hws'' (by decide) _))

/-! ## What is read is spelled -/

theorem parseName_eq_some {data name rest : Bytes}
    (h : parseName data = some (name, rest)) :
    ∃ ws body colon, Blank ws ∧ Body body ∧ Blank colon ∧
      name = unquote body ∧
      data = ws ++ 0x22 :: (body ++ 0x22 :: (colon ++ 0x3a :: rest)) := by
  obtain ⟨ws, hws, hdata⟩ := exists_skip data
  unfold parseName at h
  split at h
  · cases h
  · next b more hskip =>
      split at h
      · next hquote =>
          split at h
          · cases h
          · next body more' hscan =>
              obtain ⟨hbody, rfl⟩ := scanBody_iff.mp hscan
              obtain ⟨colon, hcolon, hmore⟩ := exists_skip more'
              split at h
              · cases h
              · next c rest hskip' =>
                  split at h
                  · next hc =>
                      cases h
                      refine ⟨ws, body, colon, hws, hbody, hcolon, rfl, ?_⟩
                      rw [hdata, hskip, hquote, ← hc, ← hskip', ← hmore]
                  · cases h
      · cases h

theorem follow_eq_more {bracket : UInt8} {data rest : Bytes}
    (h : follow bracket data = .more rest) :
    ∃ ws, Blank ws ∧ data = ws ++ 0x2c :: rest := by
  obtain ⟨ws, hws, hdata⟩ := exists_skip data
  unfold follow at h
  split at h
  · cases h
  · next b more hskip =>
      split at h
      · next hb =>
          cases h
          exact ⟨ws, hws, by rw [← hb, ← hskip, ← hdata]⟩
      · split at h <;> cases h

theorem follow_eq_close {bracket : UInt8} {data rest : Bytes}
    (h : follow bracket data = .close rest) :
    ∃ ws, Blank ws ∧ data = ws ++ bracket :: rest := by
  obtain ⟨ws, hws, hdata⟩ := exists_skip data
  unfold follow at h
  split at h
  · cases h
  · next b more hskip =>
      split at h
      · cases h
      · split at h
        · next hb =>
            cases h
            exact ⟨ws, hws, by rw [← hb, ← hskip, ← hdata]⟩
        · cases h

/-- A phrase is spelled at the front of the text, and `rest` is left. -/
def Fronts (p : Phrase) (data rest : Bytes) : Prop :=
  ∃ text, Spells p text ∧ data = text ++ rest ∧ Ends p rest

section Sound

variable {fuel : Nat} {data rest : Bytes}

theorem parseValue_sound {v : Value}
    (hitems : ∀ {items data}, parseItems fuel data = some (items, rest) →
      Fronts (.items items) data rest)
    (hmembers : ∀ {members data},
      parseMembers fuel data = some (members, rest) →
        Fronts (.members members) data rest)
    (h : parseValue (fuel + 1) data = some (v, rest)) :
    Fronts (.value v) data rest := by
  cases data with
  | nil => cases h
  | cons b data =>
      rw [parseValue] at h
      obtain ⟨ws, hws, hdata⟩ := exists_skip data
      split at h
      · next hb =>
          obtain ⟨⟨body, rest⟩, hscan, heq⟩ := Option.map_eq_some_iff.mp h
          cases heq
          obtain ⟨hbody, rfl⟩ := scanBody_iff.mp hscan
          refine ⟨_, .string hbody, ?_, trivial⟩
          rw [hb, List.cons_append, List.append_assoc, List.singleton_append]
      · split at h
        · next hb =>
            split at h
            · next hskip =>
                cases h
                refine ⟨_, .emptyArray hws, ?_, trivial⟩
                rw [hb, List.cons_append, List.append_assoc,
                  List.singleton_append, ← hskip, ← hdata]
            · obtain ⟨⟨items, rest⟩, hread, heq⟩ := Option.map_eq_some_iff.mp h
              cases heq
              obtain ⟨text, htext, rfl, -⟩ := hitems hread
              exact ⟨_, .array htext, by rw [hb, List.cons_append], trivial⟩
        · split at h
          · next hb =>
              split at h
              · next hskip =>
                  cases h
                  refine ⟨_, .emptyObject hws, ?_, trivial⟩
                  rw [hb, List.cons_append, List.append_assoc,
                    List.singleton_append, ← hskip, ← hdata]
              · obtain ⟨⟨members, rest⟩, hread, heq⟩ :=
                  Option.map_eq_some_iff.mp h
                cases heq
                obtain ⟨text, htext, rfl, -⟩ := hmembers hread
                exact ⟨_, .object htext, by rw [hb, List.cons_append], trivial⟩
          · split at h
            · next w hw =>
                cases h
                have hmem := List.mem_of_find?_eq_some hw
                have hpre : w.1.isPrefixOf (b :: data) = true :=
                  List.find?_eq_some_iff_append.mp hw |>.1
                obtain ⟨more, hmore⟩ := List.isPrefixOf_iff_prefix.mp hpre
                refine ⟨w.1, .word hmem, ?_, ends_word hmem _⟩
                rw [← hmore, List.drop_left]
            · obtain ⟨⟨literal, rest⟩, hscan, heq⟩ := Option.map_eq_some_iff.mp h
              cases heq
              obtain ⟨hdata, hnum, hend⟩ := scanNumber_iff.mp hscan
              exact ⟨_, .number hnum, hdata, hend⟩

theorem parseItems_sound {items : List Value}
    (hvalue : ∀ {v data rest}, parseValue fuel data = some (v, rest) →
      Fronts (.value v) data rest)
    (hitems : ∀ {items data}, parseItems fuel data = some (items, rest) →
      Fronts (.items items) data rest)
    (h : parseItems (fuel + 1) data = some (items, rest)) :
    Fronts (.items items) data rest := by
  obtain ⟨ws, hws, hdata⟩ := exists_skip data
  rw [parseItems] at h
  split at h
  · cases h
  · next v back hread =>
      obtain ⟨text, htext, hskip, -⟩ := hvalue hread
      rw [hskip] at hdata
      split at h
      · next more hfollow =>
          obtain ⟨ws', hws', rfl⟩ := follow_eq_more hfollow
          obtain ⟨⟨items, rest⟩, hread', heq⟩ := Option.map_eq_some_iff.mp h
          cases heq
          obtain ⟨text', htext', rfl, -⟩ := hitems hread'
          refine ⟨_, .moreItems hws htext hws' htext', ?_, trivial⟩
          rw [hdata]
          simp only [List.append_assoc, List.cons_append]
      · next hfollow =>
          cases h
          obtain ⟨ws', hws', rfl⟩ := follow_eq_close hfollow
          refine ⟨_, .lastItem hws htext hws', ?_, trivial⟩
          rw [hdata]
          simp only [List.append_assoc, List.cons_append, List.nil_append]
      · cases h

theorem parseMembers_sound {members : List (Bytes × Value)}
    (hvalue : ∀ {v data rest}, parseValue fuel data = some (v, rest) →
      Fronts (.value v) data rest)
    (hmembers : ∀ {members data},
      parseMembers fuel data = some (members, rest) →
        Fronts (.members members) data rest)
    (h : parseMembers (fuel + 1) data = some (members, rest)) :
    Fronts (.members members) data rest := by
  rw [parseMembers] at h
  split at h
  · cases h
  · next name value hname =>
      obtain ⟨ws, body, colon, hws, hbody, hcolon, rfl, rfl⟩ :=
        parseName_eq_some hname
      obtain ⟨ws', hws', hdata⟩ := exists_skip value
      split at h
      · cases h
      · next v back hread =>
          obtain ⟨text, htext, hskip, -⟩ := hvalue hread
          rw [hskip] at hdata
          split at h
          · next more hfollow =>
              obtain ⟨ws'', hws'', rfl⟩ := follow_eq_more hfollow
              obtain ⟨⟨members, rest⟩, hread', heq⟩ :=
                Option.map_eq_some_iff.mp h
              cases heq
              obtain ⟨text', htext', rfl, -⟩ := hmembers hread'
              refine ⟨_, .moreMembers hws hbody hcolon hws' htext hws'' htext',
                ?_, trivial⟩
              rw [hdata]
              simp only [List.append_assoc, List.cons_append]
          · next hfollow =>
              cases h
              obtain ⟨ws'', hws'', rfl⟩ := follow_eq_close hfollow
              refine ⟨_, .lastMember hws hbody hcolon hws' htext hws'', ?_,
                trivial⟩
              rw [hdata]
              simp only [List.append_assoc, List.cons_append, List.nil_append]
          · cases h

end Sound

theorem Reads.fronts {fuel : Nat} {p : Phrase} {data rest : Bytes}
    (h : Reads fuel p data rest) : Fronts p data rest := by
  induction fuel generalizing p data rest with
  | zero => cases p <;> cases h
  | succ fuel ih =>
      cases p with
      | value v =>
          exact parseValue_sound (fun h => ih (p := .items _) h)
            (fun h => ih (p := .members _) h) h
      | items items =>
          exact parseItems_sound (fun h => ih (p := .value _) h)
            (fun h => ih (p := .items _) h) h
      | members members =>
          exact parseMembers_sound (fun h => ih (p := .value _) h)
            (fun h => ih (p := .members _) h) h

/-! ## The first value of a stream -/

/-- The first value of a stream, and what is left of it. -/
def parse (data : Bytes) : Option (Value × Bytes) :=
  parseValue (2 * data.length) (skip data)

/-- The stream starts with the value, after white space, and goes on with
`rest`. A number goes as far as it can. -/
def First (v : Value) (data rest : Bytes) : Prop :=
  ∃ ws text, Blank ws ∧ Spells (.value v) text ∧ data = ws ++ (text ++ rest) ∧
    Ends (.value v) rest

theorem parse_iff {v : Value} {data rest : Bytes} :
    parse data = some (v, rest) ↔ First v data rest := by
  constructor
  · intro h
    obtain ⟨ws, hws, hdata⟩ := exists_skip data
    obtain ⟨text, htext, hskip, hend⟩ := Reads.fronts (p := .value v) h
    rw [hskip] at hdata
    exact ⟨ws, text, hws, htext, hdata, hend⟩
  · rintro ⟨ws, text, hws, htext, rfl, hend⟩
    rw [parse, skip_value hws htext]
    refine htext.reads ?_ hend
    simp only [cost, List.length_append]
    omega

theorem First.unique {v v' : Value} {data rest rest' : Bytes}
    (h : First v data rest) (h' : First v' data rest') :
    v = v' ∧ rest = rest' := by
  have heq := (parse_iff.mpr h).symm.trans (parse_iff.mpr h')
  exact Prod.mk.inj (Option.some.inj heq)

/-- A document is a stream with nothing behind its first value. -/
theorem document_iff {v : Value} {data : Bytes} :
    Document v data ↔ ∃ rest, First v data rest ∧ Blank rest := by
  constructor
  · rintro ⟨ws, text, ws', hws, htext, hws', rfl⟩
    refine ⟨ws', ⟨ws, text, hws, htext, rfl, ends_of_isEnd fun b hb => ?_⟩, hws'⟩
    rw [isEnd, hws' b (List.mem_of_mem_head? hb)]
    rfl
  · rintro ⟨ws', ⟨ws, text, hws, htext, hdata, -⟩, hws'⟩
    exact ⟨ws, text, ws', hws, htext, hws', hdata⟩

theorem Document.unique {v w : Value} {data : Bytes} (hv : Document v data)
    (hw : Document w data) : v = w := by
  obtain ⟨rest, hfirst, -⟩ := document_iff.mp hv
  obtain ⟨rest', hfirst', -⟩ := document_iff.mp hw
  exact (hfirst.unique hfirst').1

/-- A text that is one value after the other. -/
inductive Stream : List Value → Bytes → Prop
  | nil {data : Bytes} (h : Blank data) : Stream [] data
  | cons {v : Value} {vs : List Value} {data rest : Bytes}
      (h : First v data rest) (hs : Stream vs rest) : Stream (v :: vs) data

theorem not_first_of_blank {v : Value} {data rest : Bytes} (h : Blank data) :
    ¬ First v data rest := by
  rintro ⟨ws, text, -, htext, rfl, -⟩
  obtain ⟨b, more, rfl, hb⟩ := htext.head
  have hspace := h b (List.mem_append_right ws List.mem_cons_self)
  rw [isSpace_of_isEnd hb] at hspace
  cases hspace

/-- With nothing behind the first value there is no other. -/
theorem First.stream_eq {v : Value} {vs : List Value} {data rest : Bytes}
    (h : First v data rest) (hrest : Blank rest) (hs : Stream vs data) :
    vs = [v] := by
  cases hs with
  | nil hblank => exact absurd h (not_first_of_blank hblank)
  | cons hfirst hmore =>
      obtain ⟨rfl, rfl⟩ := h.unique hfirst
      cases hmore with
      | nil => rfl
      | cons hfirst' _ => exact absurd hfirst' (not_first_of_blank hrest)

/-- A stream that starts with a value is not blank. -/
theorem First.trimSpace_ne_nil {v : Value} {data rest : Bytes}
    (h : First v data rest) : Utf8.trimSpace data ≠ [] := by
  obtain ⟨ws, text, -, htext, rfl, -⟩ := h
  intro hblank
  -- The byte a value starts with belongs to no white space character.
  have hhead : ∃ b ∈ text, b ∉ Utf8.spaces.flatten := by
    cases htext with
    | word h =>
        simp only [words, List.mem_cons, List.not_mem_nil, or_false,
          Prod.mk.injEq] at h
        rcases h with ⟨rfl, -⟩ | ⟨rfl, -⟩ | ⟨rfl, -⟩
        · exact ⟨0x74, by decide, by decide⟩
        · exact ⟨0x66, by decide, by decide⟩
        · exact ⟨0x6e, by decide, by decide⟩
    | number h =>
        obtain ⟨s, hs, hdone⟩ := h
        cases text with
        | nil =>
            cases hs
            cases hdone
        | cons b literal =>
            refine ⟨b, List.mem_cons_self, fun hb => ?_⟩
            have hnone : Utf8.spaces.flatten.all
                (fun b => NumberState.start.next b = none) = true := by decide
            rw [List.foldlM_cons,
              of_decide_eq_true (List.all_eq_true.mp hnone b hb)] at hs
            cases hs
    | string => exact ⟨0x22, List.mem_cons_self, by decide⟩
    | emptyArray | array => exact ⟨0x5b, List.mem_cons_self, by decide⟩
    | emptyObject | object => exact ⟨0x7b, List.mem_cons_self, by decide⟩
  obtain ⟨b, hb, hnot⟩ := hhead
  exact hnot (Utf8.mem_spaces_of_trimSpace hblank
    (List.mem_append_right ws (List.mem_append_left rest hb)))

/-- The first value of a stream, decoded. -/
def decode (data : Bytes) : Option Value :=
  (parse data).map fun p => p.1.decoded

theorem decode_eq_some_iff {data : Bytes} {v : Value} :
    decode data = some v ↔ ∃ w rest, First w data rest ∧ w.decoded = v := by
  rw [decode, Option.map_eq_some_iff]
  constructor
  · rintro ⟨⟨w, rest⟩, hparse, heq⟩
    exact ⟨w, rest, parse_iff.mp hparse, heq⟩
  · rintro ⟨w, rest, hfirst, heq⟩
    exact ⟨(w, rest), parse_iff.mpr hfirst, heq⟩

example : (parse (bytes " [1,\x7b\"a\":true\x7d ]01")).map Prod.snd =
    some (bytes "01") := by decide

end PlatformGo.Json
