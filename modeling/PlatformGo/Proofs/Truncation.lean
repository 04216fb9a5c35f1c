import PlatformGo.Lib.Utf8Cut
import PlatformGo.Ref.Consumer
import PlatformGo.Ref.Inbox
import PlatformGo.Ref.Outbox

/-!
# Texts that are cut to fit

Three places keep the text of an error in a limited number of bytes. `truncate`
of the inbox goes back while the byte behind the cut continues a character;
`limitedReason` of the event bus goes back while what it has is not well
formed. On well-formed text both end with its longest well-formed beginning, so
they agree.

`MarkFailed` of the outbox cuts and does not go back. What it sends to the
database is well formed if no character lies across the cut, which the byte
behind it tells.
-/

namespace PlatformGo.Inbox

open Utf8

theorem longest_back {value : Bytes} (h : Valid value) (limit : Nat) :
    Longest value limit (value.take (truncate.back value limit)) := by
  induction limit with
  | zero =>
      rw [truncate.back]
      exact longest_take .nil
  | succ limit ih =>
      rw [truncate.back, mask_eq_isCont]
      split
      · next hcont =>
          refine ih.succ ?_
          rw [valid_take_iff h, hcont]
          decide
      · next hcont =>
          refine longest_take ?_
          rw [valid_take_iff h]
          exact (Bool.not_eq_true _).mp hcont

theorem longest_truncate {value : Bytes} (h : Valid value) (limit : Nat) :
    Longest value limit (truncate value limit) := by
  rw [truncate]
  split
  · next hfits => exact longest_self h hfits
  · exact longest_back h limit

end PlatformGo.Inbox

namespace PlatformGo.EventBus

open Utf8

/-- The loop of `limitedReason` ends before its text does, and with more rounds
than it has bytes it would do the same. -/
theorem longest_cut {reason : Bytes} {n fuel : Nat} (hn : n ≤ reason.length)
    (hfuel : n ≤ fuel) :
    Longest reason n (limitedReason.cut fuel (reason.take n)) := by
  induction n generalizing fuel with
  | zero =>
      have hnil : limitedReason.cut fuel [] = [] := by
        cases fuel with
        | zero => rfl
        | succ fuel => rfl
      rw [List.take_zero, hnil]
      exact longest_take .nil
  | succ n ih =>
      cases fuel with
      | zero => exact absurd hfuel (Nat.not_succ_le_zero n)
      | succ fuel =>
          rw [limitedReason.cut]
          split
          · next hvalid => exact longest_take (validString_iff.mp hvalid)
          · next hvalid =>
              have hdrop : (reason.take (n + 1)).dropLast = reason.take n := by
                rw [List.dropLast_eq_take, List.length_take, List.take_take]
                congr 1
                omega
              rw [hdrop]
              refine (ih (Nat.le_of_succ_le hn) (Nat.le_of_succ_le_succ hfuel)).succ ?_
              exact fun h => hvalid (validString_iff.mpr h)

/-- The text `limitedReason` cuts. -/
def reasonText (err : GoErr) : Bytes :=
  toValidUTF8 (Utf8.trimSpace err.text) (bytes "�")

theorem valid_reasonText (err : GoErr) : Valid (reasonText err) :=
  valid_toValidUTF8 (validString_iff.mp (by decide)) _

theorem longest_limitedReason (err : GoErr) :
    Longest (reasonText err) 4096 (limitedReason (some err)) := by
  rw [limitedReason, ← reasonText]
  split
  · next hlong => exact longest_cut (Nat.le_of_lt hlong) (Nat.le_refl _)
  · next hfits => exact longest_self (valid_reasonText err) (Nat.le_of_not_lt hfits)

/-- How the loop that validates goes: it makes at most three rounds, each
because what it has is not well formed, and stops with what is. -/
theorem rounds_of_longest {reason p : Bytes} {n : Nat} (hs : Valid reason)
    (hn : n ≤ reason.length) (h : Longest reason n p) :
    ∃ rounds ≤ 3, p = reason.take (n - rounds) ∧
      validString (reason.take (n - rounds)) = true ∧
      ∀ i < rounds, validString (reason.take (n - i)) = false := by
  have hnear := h.near hs
  have hle := h.length_le
  have hp : p = reason.take (n - (n - p.length)) := by
    rw [Nat.sub_sub_self hle]
    exact List.prefix_iff_eq_take.mp h.initial
  refine ⟨n - p.length, by omega, hp, ?_, ?_⟩
  · rw [← hp]
    exact validString_iff.mpr h.valid
  · intro i hi
    by_contra hvalid
    have hlonger := h.longest (reason.take (n - i)) (List.take_prefix _ _)
      (by rw [List.length_take]; omega)
      (validString_iff.mp ((Bool.not_eq_false _).mp hvalid))
    rw [List.length_take] at hlonger
    omega

/-- `truncate` returns the longest well-formed beginning of a well-formed text,
and `limitedReason` what `truncate` makes of the text it cuts. -/
theorem truncation_loops_agree :
    (∀ (s : Bytes) (n : Nat), Valid s →
      Longest s n (Inbox.truncate s n) ∧
      min n s.length ≤ (Inbox.truncate s n).length + 3) ∧
    ∀ err : GoErr,
      Valid (limitedReason (some err)) ∧
      (limitedReason (some err)).length ≤ 4096 ∧
      limitedReason (some err) = Inbox.truncate (reasonText err) 4096 ∧
      (4096 < (reasonText err).length →
        ∃ rounds ≤ 3,
          limitedReason (some err) = (reasonText err).take (4096 - rounds) ∧
          validString ((reasonText err).take (4096 - rounds)) = true ∧
          ∀ i < rounds, validString ((reasonText err).take (4096 - i)) = false) := by
  constructor
  · intro s n hs
    have hlongest := Inbox.longest_truncate hs n
    exact ⟨hlongest, hlongest.near hs⟩
  · intro err
    have hvalid := valid_reasonText err
    have hlongest := longest_limitedReason err
    refine ⟨hlongest.valid, hlongest.length_le,
      hlongest.unique (Inbox.longest_truncate hvalid 4096), fun hlong => ?_⟩
    exact rounds_of_longest hvalid (Nat.le_of_lt hlong) hlongest

/-- A cut inside the second character goes back to the first. -/
theorem truncation_loops_agree_accent :
    Longest (bytes "né") 2 (Inbox.truncate (bytes "né") 2) ∧
      Inbox.truncate (bytes "né") 2 = bytes "n" :=
  ⟨(truncation_loops_agree.1 _ 2 (valid_bytes "né")).1, by decide⟩

end PlatformGo.EventBus

namespace PlatformGo.Outbox

open Utf8

/-- What may be expected of the text that is kept of another one. -/
structure KeepsText (text kept : Bytes) : Prop where
  valid : Valid kept
  initial : kept <+: text
  length_le : kept.length ≤ 4096
  whole : text.length ≤ 4096 → kept = text

theorem lastError_failed (message : Bytes) (retryAt now : Time) (r : Row) :
    ((Mark.failed message retryAt).row now r).lastError = message.take 4096 := by
  rw [Mark.row]
  split
  · rfl
  · next hfits => rw [List.take_of_length_le (Nat.le_of_not_lt hfits)]

/-- The text of a publish error that `MarkFailed` records is as it should be
exactly if no character of it lies across the cut. -/
theorem lastError_kept_iff (err : GoErr) (h : Valid err.text)
    (retryAt now : Time) (r : Row) :
    KeepsText err.text ((Mark.failed err.text retryAt).row now r).lastError ↔
      ∀ b, err.text[4096]? = some b → isCont b = false := by
  have hbehind : (∀ b, err.text[4096]? = some b → isCont b = false) ↔
      isCont (err.text.getD 4096 0) = false := by
    rw [List.getD_eq_getElem?_getD]
    cases err.text[4096]? with
    | none => exact iff_of_true nofun rfl
    | some b => exact ⟨fun h => h b rfl, fun h c hc => Option.some.inj hc ▸ h⟩
  rw [lastError_failed, hbehind, ← valid_take_iff h]
  constructor
  · exact fun hkept => hkept.valid
  · intro hvalid
    exact ⟨hvalid, List.take_prefix _ _, List.length_take_le _ _,
      List.take_of_length_le⟩

/-- An error that fits. -/
theorem lastError_kept_refused :
    KeepsText (bytes "connection refused")
      ((Mark.failed (bytes "connection refused") 0).row 0
        (addedRow ⟨"1", "orders", none⟩ [] "alice" 0)).lastError :=
  (lastError_kept_iff (.new (bytes "connection refused"))
    (valid_bytes "connection refused") 0 0 _).mpr nofun

/-- A character across the cut. -/
def longMessage : Bytes := List.replicate 4095 0x61 ++ [0xc3, 0xa9]

/-- The first byte of the character is sent to the database. -/
theorem lastError_broken :
    Valid longMessage ∧
      ∀ (retryAt now : Time) (r : Row),
        ¬ Valid ((Mark.failed longMessage retryAt).row now r).lastError := by
  have hvalid : Valid longMessage := by
    refine Valid.append ?_ (Rune.two (by decide) (by decide)).valid
    induction 4095 with
    | zero => exact .nil
    | succ n ih => exact .cons (.one (by decide)) ih
  refine ⟨hvalid, fun retryAt now r => ?_⟩
  have hbehind : longMessage.getD 4096 0 = 0xa9 := by
    have hlen : (List.replicate 4095 (0x61 : UInt8)).length = 4095 :=
      List.length_replicate
    have hle : (List.replicate 4095 (0x61 : UInt8)).length ≤ 4096 := by
      rw [hlen]
      decide
    rw [longMessage, List.getD_append_right _ _ _ _ hle, hlen]
    rfl
  rw [lastError_failed, valid_take_iff hvalid, hbehind]
  decide

end PlatformGo.Outbox
