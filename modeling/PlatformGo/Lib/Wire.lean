import PlatformGo.Lib.GoText

/-!
# The wire format of protocol buffers

As much of it as a message of strings, numbers, times and messages needs. A
field is left out when it has its default value.
-/

namespace PlatformGo.Wire

/-- Seven bits at a time, the lowest first; ten bytes hold 64 bits. -/
def varintBytes : Nat → Nat → Bytes
  | 0, _ => []
  | fuel + 1, n =>
      if n < 128 then [UInt8.ofNat n]
      else UInt8.ofNat (n % 128 + 128) :: varintBytes fuel (n / 128)

def varint (n : Nat) : Bytes := varintBytes 10 n

/-- A number field, or a Boolean one as 0 or 1. -/
def number (field n : Nat) : Bytes :=
  if n = 0 then [] else varint (8 * field) ++ varint n

/-- A message field. Unlike a string, one that is set and empty is there. -/
def message (field : Nat) (b : Bytes) : Bytes :=
  varint (8 * field + 2) ++ varint b.length ++ b

/-- A string or bytes field. -/
def text (field : Nat) (b : Bytes) : Bytes :=
  if b = [] then [] else message field b

/-- A timestamp field, for a time not before 1970. -/
def timestamp (field : Nat) (t : Time) : Bytes :=
  message field (number 1 (t / 1000000000).toNat ++
    number 2 (t % 1000000000).toNat)

end PlatformGo.Wire
