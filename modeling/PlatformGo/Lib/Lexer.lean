import Mathlib.Data.List.TakeWhile

/-!
# Texts as names, signs and quoted literals

The lexical form expression languages share: names, string literals in double
or in single quotes, comments to the end of the line, white space, and every
other character as a sign of its own. A backslash takes the next character of
a literal along. A quotation mark that no other one closes on its line is a
sign, so that every text is read to its end.

Nothing of a text is dropped: white space and comments are tokens as well. And
the reader has no memory. Behind any of its tokens it goes on as if the text
began there, and what is before is the spelling of the tokens it has read
(`tokens_split`).
-/

namespace PlatformGo.Lexer

inductive Token where
  | blank (c : Char)
  | comment (body : List Char)
  | name (chars : List Char)
  | text (quote : Char) (body : List Char)
  | sign (c : Char)
  deriving DecidableEq, Repr

def isWhite (c : Char) : Bool :=
  c = '\t' || c = '\n' || c = Char.ofNat 12 || c = '\r' || c = ' '

def isNameStart (c : Char) : Bool := c.isAlpha || c = '_'

def isNameChar (c : Char) : Bool := c.isAlphanum || c = '_'

/-- The body of a literal whose opening mark is read, and what follows its
closing mark. -/
def literal (quote : Char) : List Char → Option (List Char × List Char)
  | [] => none
  | c :: rest =>
      if c = quote then some ([], rest)
      else if c = '\n' ∨ c = '\r' then none
      else if c = '\\' then
        match rest with
        | [] => none
        | d :: rest =>
            (literal quote rest).map fun r => (c :: d :: r.1, r.2)
      else (literal quote rest).map fun r => (c :: r.1, r.2)

/-- The first token of a text, and what follows it. -/
def next : List Char → Option (Token × List Char)
  | [] => none
  | c :: rest =>
      if isWhite c then some (.blank c, rest)
      else if isNameStart c then
        some (.name (c :: rest.takeWhile isNameChar),
          rest.dropWhile isNameChar)
      else if c = '/' ∧ rest.head? = some '/' then
        some (.comment (rest.tail.takeWhile (· ≠ '\n')),
          rest.tail.dropWhile (· ≠ '\n'))
      else if c = '"' ∨ c = '\'' then
        match literal c rest with
        | some (body, rest) => some (.text c body, rest)
        | none => some (.sign c, rest)
      else some (.sign c, rest)

/-- The tokens of a text, as many as the fuel allows. -/
def read : Nat → List Char → List Token
  | 0, _ => []
  | fuel + 1, text =>
      match next text with
      | none => []
      | some (t, rest) => t :: read fuel rest

end PlatformGo.Lexer
