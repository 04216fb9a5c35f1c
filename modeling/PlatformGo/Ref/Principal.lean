import PlatformGo.Lib.GoText

/-!
# The caller in the context

A context carries at most one principal. One whose id is blank counts as
missing, though it is still handed out.
-/

namespace PlatformGo

@[ext]
structure Principal where
  id : String := ""
  type : String := ""
  tenantID : String := ""
  membershipID : String := ""
  sessionID : String := ""
  deriving DecidableEq, Repr

namespace Principal

def typeUser : String := "user"

def typeServiceAccount : String := "service_account"

def typeSystem : String := "system"

def errMissing : GoErr := .sentinel "authenticated principal is missing"

/-- `FromContext`, on the value the context carries. -/
def fromContext (ctx : Option Principal) : Principal × Bool :=
  match ctx with
  | none => ({}, false)
  | some value => (value, !isBlank value.id)

def require (ctx : Option Principal) : Except GoErr Principal :=
  match fromContext ctx with
  | (value, true) => .ok value
  | (_, false) => .error errMissing

end Principal

end PlatformGo
