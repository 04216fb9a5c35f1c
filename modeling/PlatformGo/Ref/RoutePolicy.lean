import PlatformGo.Lib.Lts
import PlatformGo.Ref.Auth

/-!
# Route policies and their snapshot

A policy is an expression over the permissions it refers to. `Compile` checks
a definition and hands its expression to CEL, which is a parameter here: what
it compiles, what the result is and what a program makes of its variables.
`Replace` of a snapshot compiles a list of definitions into a new map and puts
it in place with one store; `Evaluate` loads the map once.

`Board` is a snapshot with any number of calls under way, each under a number
of its own. A call of `Replace` goes through its list one definition a step,
on a map nobody else sees. The step that stores names the definitions it
stores.
-/

namespace PlatformGo.RoutePolicy

open Authz

def errMissing : GoErr := .sentinel "route policy missing"

def errInvalid : GoErr := .sentinel "route policy invalid"

def errDenied : GoErr := .sentinel "route policy denied"

def maxExpressionBytes : Nat := 4096

def maxPermissionRefs : Nat := 8

structure Permission where
  id : String := ""
  key : String := ""
  resource : String
  action : String
  scope : Scope := .tenant
  deriving DecidableEq, Repr

/-- By the entries, so that it evaluates. -/
instance : DecidableEq (AList fun _ : String => Permission) := fun m m' =>
  decidable_of_iff (m.entries = m'.entries) AList.ext_iff.symm

structure Definition where
  id : String
  routeID : String
  expression : String
  permissions : AList fun _ : String => Permission := ∅
  version : Int := 0
  deriving DecidableEq

/-! ## The references to permissions -/

/-- `\s` of a regular expression. -/
def isReSpace (c : Char) : Bool :=
  c = '\t' || c = '\n' || c = Char.ofNat 12 || c = '\r' || c = ' '

def isLower (c : Char) : Bool := 'a' ≤ c && c ≤ 'z'

def isKeyChar (c : Char) : Bool :=
  isLower c || ('0' ≤ c && c ≤ '9') || c = '_' || c = '.' || c = ':' || c = '-'

/-- What is left after a literal. -/
def afterLiteral : List Char → List Char → Option (List Char)
  | [], text => some text
  | c :: literal, d :: text =>
      if c = d then afterLiteral literal text else none
  | _ :: _, [] => none

/-- The expression `permissionKeyRef` at the start of a text: the key and what
follows the match. No character of a key is a quotation mark, so the key ends
where its characters do. -/
def matchRef (text : List Char) : Option (String × List Char) := do
  let text ← afterLiteral "permissions[".toList text
  let text ← afterLiteral ['"'] (text.dropWhile isReSpace)
  let key := text.takeWhile isKeyChar
  let text ← afterLiteral ['"'] (text.dropWhile isKeyChar)
  let text ← afterLiteral [']'] (text.dropWhile isReSpace)
  if key.head?.any isLower ∧ 3 ≤ key.length ∧ key.length ≤ 128 then
    some (String.ofList key, text)
  else none

/-- `FindAllStringSubmatch`: after a match the search goes on behind it, which
the number of characters to skip says. -/
def findRefs : Nat → List Char → List String
  | _, [] => []
  | skip + 1, _ :: text => findRefs skip text
  | 0, c :: text =>
      match matchRef (c :: text) with
      | some (key, rest) => key :: findRefs (text.length - rest.length) text
      | none => findRefs 0 text

/-- `PermissionKeys`. -/
def permissionKeys (expression : String) : List String :=
  (findRefs 0 expression.toList).eraseDups

example : permissionKeys
    "permissions[\"orders:read\"] || !permissions[ \"orders:read\" ]" =
      ["orders:read"] := by decide

/-! ## Compiling -/

/-- The variables of an expression. -/
structure Activation where
  anonymous : Bool
  authenticated : Bool
  principalType : String
  permissions : AList fun _ : String => Bool

/-- CEL, and which characters `%q` leaves as they are. -/
structure Compiler (Ast Program : Type) where
  parse : String → Except String Ast
  returnsBool : Ast → Bool
  program : Ast → Except GoErr Program
  /-- Whether a program yields `types.True`. -/
  eval : Program → Activation → Except GoErr Bool
  isPrint : Char → Bool

structure Policy (Program : Type) where
  definition : Definition
  program : Program

variable {Ast Program : Type}

/-- The loop over the keys. -/
def Compiler.checkKeys (c : Compiler Ast Program)
    (permissions : AList fun _ : String => Permission) :
    List String → Option GoErr
  | [] => none
  | key :: keys =>
      match permissions.lookup key with
      | some permission =>
          if permission.resource = "" ∨ permission.action = "" then
            some (.detail errInvalid
              ("inactive permission " ++ quote c.isPrint key))
          else c.checkKeys permissions keys
      | none =>
          some (.detail errInvalid
            ("inactive permission " ++ quote c.isPrint key))

def Compiler.compile (c : Compiler Ast Program) (definition : Definition) :
    Except GoErr (Policy Program) :=
  let expression := trimSpace definition.expression
  if expression = "" ∨ (bytes expression).length > maxExpressionBytes then
    .error (.detail errInvalid "invalid expression length")
  else
    let keys := permissionKeys expression
    if keys.length > maxPermissionRefs then
      .error (.detail errInvalid "too many permission references")
    else
      match c.checkKeys definition.permissions keys with
      | some err => .error err
      | none =>
          if definition.permissions.entries.length ≠ keys.length then
            .error (.detail errInvalid "unused permission references")
          else
            match c.parse expression with
            | .error issues =>
                .error (.detail errInvalid ("compile expression: " ++ issues))
            | .ok ast =>
                if ¬ c.returnsBool ast then
                  .error (.detail errInvalid "expression must return bool")
                else
                  match c.program ast with
                  | .error err =>
                      .error (.wrap "create expression program" err)
                  | .ok program => .ok { definition, program }

/-! ## Evaluating -/

/-- The loop over the permissions, in the order the map was iterated in. -/
def decisions (isPrint : Char → Bool) (ctx : Auth.Context)
    (caller : Option Principal) (authorizer : Authorizer) :
    List (String × Permission) → AList (fun _ : String => Bool) →
      Except GoErr (AList fun _ : String => Bool)
  | [], made => .ok made
  | (key, permission) :: rest, made =>
      match caller with
      | none =>
          decisions isPrint ctx caller authorizer rest (made.insert key false)
      | some identity =>
          match authorizer ctx identity
              { resource := permission.resource, action := permission.action
                scope := permission.scope } with
          | some err =>
              if err.is "authorization denied" then
                decisions isPrint ctx caller authorizer rest
                  (made.insert key false)
              else
                .error (.wrap
                  ("authorize permission " ++ quote isPrint key) err)
          | none =>
              decisions isPrint ctx caller authorizer rest
                (made.insert key true)

/-- `Policy.Evaluate`. Without a caller the authorizer is not asked, so a nil
one stands for one that is never called. -/
def Compiler.evaluate (c : Compiler Ast Program) (p : Policy Program)
    (ctx : Auth.Context) (authorizer : Option Authorizer)
    (order : List (String × Permission)) : Option GoErr :=
  let (identity, authenticated) := Principal.fromContext ctx
  if authenticated ∧ p.definition.permissions.entries.length > 0 ∧
      authorizer.isNone then
    some errDecisionUnavailable
  else
    let caller := if authenticated then some identity else none
    match decisions c.isPrint ctx caller
        (authorizer.getD fun _ _ _ => none) order ∅ with
    | .error err => some err
    | .ok made =>
        match c.eval p.program
            { anonymous := !authenticated, authenticated
              principalType := if authenticated then identity.type else ""
              permissions := made } with
        | .error err => some (.wrap "evaluate route policy" err)
        | .ok true => none
        | .ok false => some errDenied

/-! ## The snapshot -/

/-- The map from route ids to policies. -/
abbrev Policies (Program : Type) := AList fun _ : String => Policy Program

/-- One round of the loop of `Replace`. -/
def Compiler.addPolicy (c : Compiler Ast Program) (next : Policies Program)
    (definition : Definition) : Except GoErr (Policies Program) :=
  if definition.routeID = "" then
    .error (.detail errInvalid "empty route id")
  else
    match c.compile definition with
    | .error err =>
        .error (.wrap ("compile policy " ++ quote c.isPrint definition.id) err)
    | .ok policy =>
        if definition.routeID ∈ next then
          .error (.detail errInvalid
            ("duplicate route " ++ quote c.isPrint definition.routeID))
        else .ok (next.insert definition.routeID policy)

/-- The error of `Evaluate` for a route without a policy. -/
def Compiler.missing (c : Compiler Ast Program) (routeID : String) : GoErr :=
  .detail errMissing ("route " ++ quote c.isPrint routeID)

/-- How far a call is. -/
inductive Task (Program : Type) where
  | idle
  /-- `Reload`, in `Load`. -/
  | loading
  /-- `Replace` of the definitions, with those still to come and the map so
  far. -/
  | replacing (definitions rest : List Definition) (next : Policies Program)
  /-- `Replace` or `Reload` has returned. -/
  | returned (err : Option GoErr)
  /-- `Evaluate` has looked the policy up. -/
  | evaluating (routeID : String) (ctx : Auth.Context)
      (authorizer : Option Authorizer) (policy : Option (Policy Program))
  | evaluated (err : Option GoErr)

structure Board (Program : Type) where
  value : Policies Program := ∅
  tasks : Nat → Task Program := fun _ => .idle

inductive Action where
  | replace (definitions : List Definition)
  | reload
  | loadReturn (result : Except GoErr (List Definition))
  /-- One round of the loop. -/
  | compileNext
  | store (definitions : List Definition)
  /-- `Evaluate` loads the pointer and looks the route up. -/
  | evaluate (routeID : String) (ctx : Auth.Context)
      (authorizer : Option Authorizer)
  /-- And returns, having iterated the permissions in some order. -/
  | answer (order : List (String × Permission))

/-- The task of a call after one of its steps that stores nothing. -/
def Compiler.advance (c : Compiler Ast Program) (value : Policies Program) :
    Task Program → Action → Option (Task Program)
  | .idle, .replace definitions =>
      some (.replacing definitions definitions ∅)
  | .idle, .reload => some .loading
  | .loading, .loadReturn (.ok definitions) =>
      some (.replacing definitions definitions ∅)
  | .loading, .loadReturn (.error err) =>
      some (.returned (some (.wrap "load route policies" err)))
  | .replacing definitions (definition :: rest) next, .compileNext =>
      match c.addPolicy next definition with
      | .ok next => some (.replacing definitions rest next)
      | .error err => some (.returned (some err))
  | .idle, .evaluate routeID ctx authorizer =>
      some (.evaluating routeID ctx authorizer (value.lookup routeID))
  | .evaluating routeID _ _ none, .answer _ =>
      some (.evaluated (some (c.missing routeID)))
  | .evaluating _ ctx authorizer (some policy), .answer order =>
      if order.Perm (policy.definition.permissions.entries.map
          fun e => (e.1, e.2)) then
        some (.evaluated (c.evaluate policy ctx authorizer order))
      else none
  | _, _ => none

def Compiler.step (c : Compiler Ast Program) (b : Board Program) :
    Nat × Action → Option (Board Program)
  | (n, .store definitions) =>
      match b.tasks n with
      | .replacing given [] next =>
          if definitions = given then
            some { value := next
                   tasks := Function.update b.tasks n (.returned none) }
          else none
      | _ => none
  | (n, a) =>
      (c.advance b.value (b.tasks n) a).map fun task =>
        { b with tasks := Function.update b.tasks n task }

end PlatformGo.RoutePolicy
