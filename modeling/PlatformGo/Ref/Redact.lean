import PlatformGo.Lib.JsonEncode

/-!
# Redaction

`redact/json.go`. A text is decoded, its maps are gone through, and what
remains is encoded again. A stream decoder reads the text, so nothing behind
the first value is looked at. The nesting limit of the decoder is left out.

`redactValue` changes maps in place; here it returns the changed value and how
often it stored the replacement. A `range` loop goes through a map in any
order, and the functions below go through the members in the order they are
listed, whatever it is.

What the Unicode tables say of the characters beyond ASCII is a parameter, and
so is the text of the decoder's error.
-/

namespace PlatformGo.Redact

open PlatformGo.Json

/-- The tables of the package `unicode` beyond ASCII, for a character given by
its encoding. -/
structure Unicode where
  toLower : Bytes → Bytes
  isLetter : Bytes → Bool
  isDigit : Bytes → Bool

namespace Unicode

/-- A byte that is no character is replaced by U+FFFD. -/
def lowerRune (u : Unicode) : Bytes → Bytes
  | [b] =>
      if 0x80 ≤ b then Utf8.runeError
      else if 0x41 ≤ b ∧ b ≤ 0x5a then [b + 0x20]
      else [b]
  | rune => u.toLower rune

/-- `strings.ToLower`. -/
def lowerText (u : Unicode) (text : Bytes) : Bytes :=
  (Utf8.runes text).flatMap u.lowerRune

/-- Neither `unicode.IsLetter` nor `unicode.IsDigit`. -/
def isSeparator (u : Unicode) : Bytes → Bool
  | [b] =>
      !(0x41 ≤ b && b ≤ 0x5a || 0x61 ≤ b && b ≤ 0x7a) &&
        !(0x30 ≤ b && b ≤ 0x39)
  | rune => !u.isLetter rune && !u.isDigit rune

/-- `strings.FieldsFunc` with `isSeparator`. -/
def fields (u : Unicode) (text : Bytes) : List Bytes :=
  (((Utf8.runes text).splitOnP u.isSeparator).filter (· ≠ [])).map List.flatten

end Unicode

def defaultSensitiveKeys : List Bytes :=
  ["authorization", "client_secret", "password", "refresh_token", "secret",
    "token", "access_token", "api_key", "psk"].map bytes

/-- The parts of a name that make it sensitive. -/
def sensitiveParts : List Bytes :=
  ["password", "passwd", "secret", "token", "authorization", "cookie",
    "credential", "credentials", "psk"].map bytes

/-- The parts that make a name sensitive in front of the part `key`. -/
def keyParts : List Bytes := ["api", "access", "private"].map bytes

def sensitiveKey (u : Unicode) (key : Bytes) : Bool :=
  let normalized := u.lowerText (Utf8.trimSpace key)
  let parts := u.fields normalized
  defaultSensitiveKeys.contains normalized ||
    parts.any sensitiveParts.contains ||
    (parts.zip parts.tail).any fun p =>
      p.2 == bytes "key" && keyParts.contains p.1

/-- Tables that say nothing, which is what they are asked for ASCII. -/
def ascii : Unicode := ⟨id, fun _ => false, fun _ => false⟩

example : ["Client_Secret", " x-api-key ", "monkey", "tokenized", "key"].map
    (fun key => sensitiveKey ascii (bytes key)) =
      [true, true, false, false, false] := by
  decide +kernel

def redacted : Value := .scalar (.string (bytes "[REDACTED]"))

mutual

def redactValue (u : Unicode) : Value → Value × Nat
  | .scalar s => (.scalar s, 0)
  | .array items =>
      let (items, count) := redactItems u items
      (.array items, count)
  | .object members =>
      let (members, count) := redactMembers u members
      (.object members, count)

def redactItems (u : Unicode) : List Value → List Value × Nat
  | [] => ([], 0)
  | child :: items =>
      let (child, count) := redactValue u child
      let (items, more) := redactItems u items
      (child :: items, count + more)

def redactMembers (u : Unicode) :
    List (Bytes × Value) → List (Bytes × Value) × Nat
  | [] => ([], 0)
  | (key, child) :: members =>
      let (child, count) :=
        if sensitiveKey u key then (redacted, 1) else redactValue u child
      let (members, more) := redactMembers u members
      ((key, child) :: members, count + more)

end

mutual

def containsSensitiveValue (u : Unicode) : Value → Bool
  | .scalar _ => false
  | .array items => containsSensitiveItems u items
  | .object members => containsSensitiveMembers u members

def containsSensitiveItems (u : Unicode) : List Value → Bool
  | [] => false
  | child :: items =>
      containsSensitiveValue u child || containsSensitiveItems u items

def containsSensitiveMembers (u : Unicode) : List (Bytes × Value) → Bool
  | [] => false
  | (key, child) :: members =>
      sensitiveKey u key || containsSensitiveValue u child ||
        containsSensitiveMembers u members

end

/-- `JSON`. The encoder does not fail on a decoded value. -/
def json (u : Unicode) (syntaxError : Bytes → String) (data : Bytes) :
    Except String Bytes :=
  if Utf8.trimSpace data = [] then .ok []
  else
    match decode data with
    | none => .error (syntaxError data)
    | some value => .ok (encode (redactValue u value).1)

def containsSensitiveJSON (u : Unicode) (syntaxError : Bytes → String)
    (data : Bytes) : Except String Bool :=
  if Utf8.trimSpace data = [] then .ok false
  else
    match decode data with
    | none => .error (syntaxError data)
    | some value => .ok (containsSensitiveValue u value)

end PlatformGo.Redact
