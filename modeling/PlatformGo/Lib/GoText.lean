import Mathlib.Algebra.Group.Int.Defs
import Mathlib.Algebra.Group.Nat.Defs

/-!
# Byte strings and error values

A Go string is a byte string, and where the code cuts one at a byte offset the
difference from a sequence of characters shows. Text that is only compared or
concatenated is a `String` in the model; text whose bytes matter is `Bytes`.

An error value is kept as a tree: a package-level sentinel, a message of its
own, a message before or after a cause given with `%w`, or two errors joined.
`GoErr.text` is what `Error()` prints and `GoErr.is` is `errors.Is`.
-/

namespace PlatformGo

/-- A Go byte string. -/
abbrev Bytes := List UInt8

/-- A point on the wall clock, or a duration, in nanoseconds. -/
abbrev Time := Int

def millisecond : Time := 1000000

def second : Time := 1000000000

/-- The bytes of a Lean string literal, which are its UTF-8 encoding. -/
def bytes (s : String) : Bytes := s.toUTF8.data.toList

theorem bytes_append (s t : String) : bytes (s ++ t) = bytes s ++ bytes t := by
  simp [bytes, String.toByteArray_append]

theorem bytes_inj {s t : String} : bytes s = bytes t ↔ s = t := by
  constructor
  · intro h
    refine String.toByteArray_inj.mp (ByteArray.ext (Array.toList_inj.mp ?_))
    exact h
  · exact congrArg bytes

theorem bytes_eq_flatMap (s : String) :
    bytes s = s.toList.flatMap String.utf8EncodeChar := by
  rw [bytes, String.toUTF8_eq_toByteArray, ← String.utf8Encode_toList]
  simp [List.utf8Encode]

theorem ofNat_ne_zero {n : Nat} (hpos : 0 < n) (hlt : n < 256) :
    UInt8.ofNat n ≠ 0 := by
  intro h
  have hnat := congrArg UInt8.toNat h
  rw [UInt8.toNat_ofNat_of_lt' hlt] at hnat
  exact Nat.ne_of_gt hpos hnat

/-- In UTF-8 a zero byte is the zero character. -/
theorem zero_mem_utf8EncodeChar {c : Char} :
    0 ∈ String.utf8EncodeChar c ↔ c = Char.ofNat 0 := by
  have hzero : c = Char.ofNat 0 ↔ c.val.toNat = 0 := by
    rw [← Char.toNat_inj]
    rfl
  rw [hzero, String.utf8EncodeChar]
  -- Only the bytes of a one-byte character can be zero.
  have hne : ∀ {n : Nat}, 0 < n → n < 256 → ¬ (0 : UInt8) = UInt8.ofNat n :=
    fun hpos hlt h => ofNat_ne_zero hpos hlt h.symm
  split
  · next hle =>
      rw [List.mem_singleton]
      constructor
      · intro h
        refine Decidable.byContradiction fun hpos => ?_
        exact hne (Nat.pos_of_ne_zero hpos) (by omega) h
      · intro h
        rw [h]
        rfl
  · next hgt =>
      refine iff_of_false (fun h => ?_) (by omega)
      split at h
      · simp only [List.mem_cons, List.not_mem_nil, or_false] at h
        rcases h with h | h <;> exact hne (by omega) (by omega) h
      · split at h
        · simp only [List.mem_cons, List.not_mem_nil, or_false] at h
          rcases h with h | h | h <;> exact hne (by omega) (by omega) h
        · simp only [List.mem_cons, List.not_mem_nil, or_false] at h
          rcases h with h | h | h | h <;> exact hne (by omega) (by omega) h

theorem zero_mem_bytes {s : String} :
    0 ∈ bytes s ↔ Char.ofNat 0 ∈ s.toList := by
  simp [bytes_eq_flatMap, zero_mem_utf8EncodeChar]

/-- An error value. -/
inductive GoErr where
  /-- A package-level `errors.New` variable, compared by identity. -/
  | sentinel (text : String)
  /-- An error made on the spot, or one handed up by a driver. -/
  | new (text : Bytes)
  /-- `fmt.Errorf("context: %w", inner)`. -/
  | wrap (context : String) (inner : GoErr)
  /-- `fmt.Errorf("%w: detail", inner)`. -/
  | detail (inner : GoErr) (text : String)
  /-- `errors.Join` of two errors. -/
  | join (first second : GoErr)
  deriving DecidableEq, Repr

/-- `context.Canceled`. -/
def errCanceled : GoErr := .sentinel "context canceled"

/-- `Error()`. -/
def GoErr.text : GoErr → Bytes
  | .sentinel t => bytes t
  | .new t => t
  | .wrap context inner => bytes context ++ bytes ": " ++ inner.text
  | .detail inner text => inner.text ++ bytes ": " ++ bytes text
  | .join first second => first.text ++ bytes "\n" ++ second.text

/-- `errors.Is` with a sentinel for target: the tree is searched for it. -/
def GoErr.is (target : String) : GoErr → Bool
  | .sentinel t => t == target
  | .new _ => false
  | .wrap _ inner => inner.is target
  | .detail inner _ => inner.is target
  | .join first second => first.is target || second.is target

/-- `errors.Join` of any number of errors, nil ones left out. -/
def errorsJoin : List (Option GoErr) → Option GoErr
  | [] => none
  | none :: errs => errorsJoin errs
  | some err :: errs =>
      match errorsJoin errs with
      | none => some err
      | some rest => some (.join err rest)

@[simp] theorem errorsJoin_eq_none {errs : List (Option GoErr)} :
    errorsJoin errs = none ↔ ∀ err ∈ errs, err = none := by
  induction errs with
  | nil => simp [errorsJoin]
  | cons err errs ih =>
      cases err with
      | none => simpa [errorsJoin] using ih
      | some err =>
          rw [errorsJoin]
          split <;> simp

/-- The errors that were joined. -/
def GoErr.parts : GoErr → List GoErr
  | .join first second => .join first second :: first.parts ++ second.parts
  | err => [err]

theorem GoErr.self_mem_parts (err : GoErr) : err ∈ err.parts := by
  cases err <;> simp [GoErr.parts]

theorem mem_parts_errorsJoin {errs : List (Option GoErr)} {err : GoErr}
    (h : some err ∈ errs) :
    ∃ joined, errorsJoin errs = some joined ∧ err ∈ joined.parts := by
  induction errs with
  | nil => cases h
  | cons first errs ih =>
      rcases List.mem_cons.mp h with rfl | hrest
      · rw [errorsJoin]
        split
        · exact ⟨err, rfl, err.self_mem_parts⟩
        · refine ⟨_, rfl, ?_⟩
          simp [GoErr.parts, err.self_mem_parts]
      · obtain ⟨rest, hjoin, hmem⟩ := ih hrest
        cases first with
        | none => exact ⟨rest, by rw [errorsJoin, hjoin], hmem⟩
        | some first =>
            refine ⟨.join first rest, by rw [errorsJoin, hjoin], ?_⟩
            simp [GoErr.parts, hmem]

/-! ## White space -/

/-- `unicode.IsSpace`. -/
def isSpace (c : Char) : Bool :=
  let n := c.toNat
  (9 ≤ n && n ≤ 13) || n == 0x20 || n == 0x85 || n == 0xa0 || n == 0x1680 ||
    (0x2000 ≤ n && n ≤ 0x200a) || n == 0x2028 || n == 0x2029 ||
    n == 0x202f || n == 0x205f || n == 0x3000

/-- `unicode.IsControl`. -/
def isControl (c : Char) : Bool :=
  c.toNat < 0x20 || (0x7f ≤ c.toNat && c.toNat < 0xa0)

/-- Whether `strings.TrimSpace` leaves nothing. -/
def isBlank (s : String) : Bool := s.toList.all isSpace

/-- `strings.TrimSpace`. -/
def trimSpace (s : String) : String :=
  String.ofList
    ((s.toList.dropWhile isSpace).reverse.dropWhile isSpace).reverse

/-! ## Formatting -/

def hexDigit (n : Nat) : Char :=
  if n < 10 then Char.ofNat (48 + n) else Char.ofNat (87 + n)

/-- The last `width` hexadecimal digits of a number. -/
def hexPad : Nat → Nat → List Char
  | 0, _ => []
  | width + 1, n => hexPad width (n / 16) ++ [hexDigit (n % 16)]

/-- `hex.EncodeToString`. -/
def hexEncode (b : Bytes) : String :=
  String.ofList (b.flatMap fun x => hexPad 2 x.toNat)

theorem hexDigit_inj {n m : Nat} (hn : n < 16) (hm : m < 16)
    (h : hexDigit n = hexDigit m) : n = m := by
  have hfin : ∀ a b : Fin 16, hexDigit a = hexDigit b → a = b := by decide
  exact congrArg Fin.val (hfin ⟨n, hn⟩ ⟨m, hm⟩ h)

theorem hexPad_length (width n : Nat) : (hexPad width n).length = width := by
  induction width generalizing n with
  | zero => rfl
  | succ width ih => simp [hexPad, ih]

theorem hexPad_inj {width n m : Nat} (hn : n < 16 ^ width)
    (hm : m < 16 ^ width) (h : hexPad width n = hexPad width m) : n = m := by
  induction width generalizing n m with
  | zero =>
      rw [Nat.pow_zero, Nat.lt_one_iff] at hn hm
      rw [hn, hm]
  | succ width ih =>
      rw [Nat.pow_succ] at hn hm
      rw [hexPad, hexPad] at h
      obtain ⟨hdiv, hmod⟩ := List.append_inj' h rfl
      have hdiv := ih (Nat.div_lt_of_lt_mul (by omega))
        (Nat.div_lt_of_lt_mul (by omega)) hdiv
      have hmod := hexDigit_inj (Nat.mod_lt n (by omega))
        (Nat.mod_lt m (by omega)) (List.singleton_inj.mp hmod)
      omega

theorem hexEncode_inj {a b : Bytes} : hexEncode a = hexEncode b ↔ a = b := by
  refine ⟨fun h => ?_, congrArg hexEncode⟩
  replace h := String.ofList_injective h
  induction a generalizing b with
  | nil =>
      cases b with
      | nil => rfl
      | cons y b => simp [hexPad] at h
  | cons x a ih =>
      cases b with
      | nil => simp [hexPad] at h
      | cons y b =>
          rw [List.flatMap_cons, List.flatMap_cons] at h
          obtain ⟨hhead, htail⟩ := List.append_inj h
            (by rw [hexPad_length, hexPad_length])
          have hxy := hexPad_inj x.toNat_lt y.toNat_lt hhead
          rw [UInt8.toNat_inj.mp hxy, ih htail]

/-- One character inside `%q`. Which characters are printable is a table of
the Unicode version the library was built with. -/
def quoteChar (isPrint : Char → Bool) (c : Char) : List Char :=
  if c = '"' ∨ c = '\\' then ['\\', c]
  else if isPrint c then [c]
  else
    match c.toNat with
    | 7 => ['\\', 'a']
    | 8 => ['\\', 'b']
    | 12 => ['\\', 'f']
    | 10 => ['\\', 'n']
    | 13 => ['\\', 'r']
    | 9 => ['\\', 't']
    | 11 => ['\\', 'v']
    | n =>
        if n < 32 ∨ n = 127 then '\\' :: 'x' :: hexPad 2 n
        else if n < 65536 then '\\' :: 'u' :: hexPad 4 n
        else '\\' :: 'U' :: hexPad 8 n

/-- The verb `%q` on a string. -/
def quote (isPrint : Char → Bool) (s : String) : String :=
  String.ofList ('"' :: s.toList.flatMap (quoteChar isPrint) ++ ['"'])

/-- The last `width` decimal digits of a number. -/
def decPad : Nat → Nat → List Char
  | 0, _ => []
  | width + 1, n => decPad width (n / 10) ++ [hexDigit (n % 10)]

/-- A number of `10 ^ prec`-ths, its fraction without trailing zeros. -/
def fraction (v prec : Nat) : String :=
  let digits :=
    ((decPad prec v).reverse.dropWhile (· == '0')).reverse
  toString (v / 10 ^ prec) ++
    if digits.isEmpty then "" else String.ofList ('.' :: digits)

/-- `time.Duration.String`. -/
def durationString (d : Time) : String :=
  let u := d.natAbs
  let body :=
    if u = 0 then "0s"
    else if u < 10 ^ 3 then toString u ++ "ns"
    else if u < 10 ^ 6 then fraction u 3 ++ "µs"
    else if u < 10 ^ 9 then fraction u 6 ++ "ms"
    else
      let minutes := u / (60 * 10 ^ 9)
      (if minutes < 60 then "" else toString (minutes / 60) ++ "h") ++
        (if minutes = 0 then "" else toString (minutes % 60) ++ "m") ++
        fraction (u % (60 * 10 ^ 9)) 9 ++ "s"
  if d < 0 then "-" ++ body else body

example : durationString 5400000000000 = "1h30m0s" := by decide

example : durationString 1500000000 = "1.5s" := by decide

end PlatformGo
