import Mathlib.Data.List.AList
import PlatformGo.Lib.Utf8
import PlatformGo.Ref.Principal

/-!
# Authentication, authorization and the chain of the two

A request reaches its handler through the authentication adapter and then the
authorization adapter of its transport. Of a context the two read and write
the principal only, so a context is the principal it carries. An adapter
answers the request itself or hands it on; the innermost handler is a reply
that says with which context it was run.

The targets are the path of an HTTP request or the full method of a call, and
header values are byte strings. `path.Match`, the bearer verifier and the
authorizer are arbitrary.
-/

namespace PlatformGo.Auth

/-- The principal a context carries. -/
abbrev Context := Option Principal

inductive Code where
  | unauthenticated
  | permissionDenied
  | unavailable
  deriving DecidableEq, Repr

/-- What becomes of a request. -/
inductive Reply where
  | handled (ctx : Context)
  /-- `http.Error`. -/
  | httpError (text : String) (code : Nat)
  /-- The error writer given to an HTTP adapter is called. -/
  | errorWriter (err : GoErr)
  | grpcStatus (code : Code) (message : String)
  deriving DecidableEq, Repr

structure Request where
  ctx : Context := none
  /-- `URL.Path`, or the full method. -/
  target : String
  /-- The values of the authorization header. -/
  authorization : List Bytes

abbrev Handler := Request → Reply

/-- The handler a chain protects. -/
def Request.handle : Handler := fun request => .handled request.ctx

end PlatformGo.Auth

namespace PlatformGo.Authn

open Auth

def errMissingCredential : GoErr :=
  .sentinel "authentication credential is missing"

def errInvalidCredential : GoErr :=
  .sentinel "authentication credential is invalid"

structure PSKPolicy where
  key : Bytes
  targets : List String
  principal : Principal

/-- The policy, with the principal and the error of the bearer verifier;
`none` is a nil one. -/
structure Policy where
  skipTargets : List String := []
  psk : List PSKPolicy := []
  bearer : Option (Context → Bytes → Principal × Option GoErr) := none

/-- `path.Match`. -/
abbrev PathMatch := String → String → Except GoErr Bool

def matchesAny (pathMatch : PathMatch) (value : String) :
    List String → Bool
  | [] => false
  | pattern :: patterns =>
      match pathMatch pattern value with
      | .ok true => true
      | _ => matchesAny pathMatch value patterns

def verifyPSK (authorization expected : Bytes) : Bool :=
  match Utf8.cut 0x20 authorization with
  | none => false
  | some (scheme, supplied) =>
      Utf8.equalFold scheme (bytes "PSK") && supplied != [] &&
        supplied.length == expected.length && supplied == expected

/-- The part of `Authenticate` after the PSK policies. -/
def Policy.authenticateBearer (p : Policy) (pathMatch : PathMatch)
    (ctx : Context) (target : String) (authorization : Bytes) :
    Except GoErr Context :=
  if matchesAny pathMatch target p.skipTargets then .ok ctx
  else
    match Utf8.cut 0x20 authorization with
    | none => .error errMissingCredential
    | some (scheme, raw) =>
        if !Utf8.equalFold scheme (bytes "Bearer") ||
            Utf8.trimSpace raw == [] then .error errMissingCredential
        else
          match p.bearer with
          | none => .error errInvalidCredential
          | some verifyBearer =>
              let (identity, err) := verifyBearer ctx raw
              if err.isSome || isBlank identity.id then
                .error errInvalidCredential
              else .ok (some identity)

/-- The loop of `Authenticate` over the PSK policies. -/
def Policy.authenticatePSK (p : Policy) (pathMatch : PathMatch)
    (ctx : Context) (target : String) (authorization : Bytes) :
    List PSKPolicy → Except GoErr Context
  | [] => p.authenticateBearer pathMatch ctx target authorization
  | candidate :: rest =>
      if !matchesAny pathMatch target candidate.targets then
        p.authenticatePSK pathMatch ctx target authorization rest
      else if !verifyPSK authorization candidate.key ||
          isBlank candidate.principal.id then .error errInvalidCredential
      else .ok (some candidate.principal)

def Policy.authenticate (p : Policy) (pathMatch : PathMatch) (ctx : Context)
    (target : String) (authorization : Bytes) : Except GoErr Context :=
  p.authenticatePSK pathMatch ctx target authorization p.psk

/-- `Header.Get("Authorization")` and `authorizationFromMetadata`: the first
value, or the empty string. -/
def firstValue (values : List Bytes) : Bytes := values.headD []

/-- The three adapters differ in how they refuse. -/
def guard (policy : Policy) (pathMatch : PathMatch) (refuse : GoErr → Reply)
    (next : Handler) : Handler := fun request =>
  match policy.authenticate pathMatch request.ctx request.target
      (firstValue request.authorization) with
  | .error err => refuse err
  | .ok ctx => next { request with ctx }

/-- `HTTPMiddleware`, with or without an error writer. -/
def httpMiddleware (policy : Policy) (pathMatch : PathMatch)
    (writeError : Bool) : Handler → Handler :=
  guard policy pathMatch fun err =>
    if writeError then .errorWriter err else .httpError "Unauthorized" 401

def unaryServerInterceptor (policy : Policy) (pathMatch : PathMatch) :
    Handler → Handler :=
  guard policy pathMatch fun _ =>
    .grpcStatus .unauthenticated "missing or invalid credential"

/-- The handler gets a stream with the new context. -/
def streamServerInterceptor (policy : Policy) (pathMatch : PathMatch) :
    Handler → Handler :=
  guard policy pathMatch fun _ =>
    .grpcStatus .unauthenticated "missing or invalid credential"

end PlatformGo.Authn

namespace PlatformGo.Authz

open Auth

def errDenied : GoErr := .sentinel "authorization denied"

def errRequirementMissing : GoErr :=
  .sentinel "authorization requirement is missing"

def errDecisionUnavailable : GoErr :=
  .sentinel "authorization decision is unavailable"

def errInvalidPrincipal : GoErr :=
  .sentinel "principal cannot be mapped to an authorization subject"

def errPolicyMissing : GoErr := .sentinel "authorization policy is missing"

def errInvalidPolicy : GoErr := .sentinel "authorization policy is invalid"

inductive Scope where
  | tenant
  | platform
  | principal
  deriving DecidableEq, Repr

structure Requirement where
  resource : String := ""
  resourceID : String := ""
  action : String := ""
  attributes : AList (fun _ : String => String) := ∅
  scope : Scope := .tenant

/-- An authorizer; its answer is the error. -/
abbrev Authorizer := Context → Principal → Requirement → Option GoErr

/-- `Enforce`; `none` is a nil authorizer, and no error. -/
def enforce (ctx : Context) (authorizer : Option Authorizer)
    (requirement : Requirement) : Option GoErr :=
  match Principal.fromContext ctx with
  | (_, false) => some Principal.errMissing
  | (identity, true) =>
      match authorizer with
      | none => some errRequirementMissing
      | some authorize =>
          if requirement.resource = "" ∨ requirement.action = "" then
            some errRequirementMissing
          else authorize ctx identity requirement

/-! ## The registry -/

structure Policy where
  operation : String
  «public» : Bool := false
  requirement : Requirement := {}

/-- A character of `[a-z0-9_.:-]`. -/
def isPermissionChar (c : Char) : Bool :=
  ('a' ≤ c && c ≤ 'z') || ('0' ≤ c && c ≤ '9') ||
    c == '_' || c == '.' || c == ':' || c == '-'

/-- The regular expression `permissionPart`: a letter and 1 to 127 more
characters. -/
def permissionPart (s : String) : Bool :=
  match s.toList with
  | [] => false
  | c :: rest =>
      'a' ≤ c && c ≤ 'z' && 1 ≤ rest.length && rest.length ≤ 127 &&
        rest.all isPermissionChar

def validPermission (resource action : String) : Bool :=
  permissionPart resource && permissionPart action

def permissionKey (resource action : String) : Except GoErr String :=
  if !validPermission resource action then .error errInvalidPolicy
  else .ok (resource ++ "." ++ action)

structure PolicyRegistry where
  policies : AList fun _ : String => Policy

/-- What `NewPolicyRegistry` checks of one policy. -/
def PolicyRegistry.check (isPrint : Char → Bool) (r : PolicyRegistry)
    (policy : Policy) : Option GoErr :=
  let name := quote isPrint policy.operation
  if policy.operation = "" then
    some (.detail errInvalidPolicy "operation is empty")
  else if (r.policies.lookup policy.operation).isSome then
    some (.detail errInvalidPolicy ("duplicate operation " ++ name))
  else if policy.public then
    if policy.requirement.resource ≠ "" ∨ policy.requirement.action ≠ "" then
      some (.detail errInvalidPolicy
        ("public operation " ++ name ++ " has a requirement"))
    else none
  else if !validPermission policy.requirement.resource
      policy.requirement.action then
    some (.detail errInvalidPolicy
      ("operation " ++ name ++ " has invalid resource/action"))
  else none

def PolicyRegistry.addAll (isPrint : Char → Bool) (r : PolicyRegistry) :
    List Policy → Except GoErr PolicyRegistry
  | [] => .ok r
  | policy :: policies =>
      match r.check isPrint policy with
      | some err => .error err
      | none => PolicyRegistry.addAll isPrint
          ⟨r.policies.insert policy.operation policy⟩ policies

def newPolicyRegistry (isPrint : Char → Bool) (policies : List Policy) :
    Except GoErr PolicyRegistry :=
  PolicyRegistry.addAll isPrint ⟨∅⟩ policies

/-- `Resolve`, with the requirement and whether it is public; the registry may
be a nil pointer. -/
def resolve (r : Option PolicyRegistry) (operation : String) :
    Except GoErr (Requirement × Bool) :=
  match r with
  | none => .error errPolicyMissing
  | some registry =>
      match registry.policies.lookup operation with
      | none => .error (.detail errPolicyMissing operation)
      | some policy => .ok (policy.requirement, policy.public)

/-- Unknown operations are protected by an empty requirement. -/
def protection (r : Option PolicyRegistry) (operation : String) :
    Requirement × Bool :=
  match resolve r operation with
  | .error _ => ({}, true)
  | .ok (requirement, isPublic) => (requirement, !isPublic)

/-- The method `HTTPResolver`. -/
def httpResolver (r : Option PolicyRegistry) (request : Request) :
    Requirement × Bool :=
  protection r request.target

/-- The method `GRPCResolver`. -/
def grpcResolver (r : Option PolicyRegistry) (fullMethod : String) :
    Requirement × Bool :=
  protection r fullMethod

/-! ## The adapters -/

def guard (authorizer : Option Authorizer)
    (resolver : Request → Requirement × Bool) (refuse : GoErr → Reply)
    (next : Handler) : Handler := fun request =>
  let (requirement, isProtected) := resolver request
  if !isProtected then next request
  else
    match enforce request.ctx authorizer requirement with
    | some err => refuse err
    | none => next request

def httpMiddleware (authorizer : Option Authorizer)
    (resolver : Request → Requirement × Bool) (writeError : Bool) :
    Handler → Handler :=
  guard authorizer resolver fun err =>
    if writeError then .errorWriter err else .httpError "Forbidden" 403

def grpcAuthorizationError (err : GoErr) : Reply :=
  if err.is "authenticated principal is missing" then
    .grpcStatus .unauthenticated "authenticated principal is required"
  else if err.is "authorization denied" ||
      err.is "principal cannot be mapped to an authorization subject" then
    .grpcStatus .permissionDenied "permission denied"
  else .grpcStatus .unavailable "authorization decision is unavailable"

def unaryServerInterceptor (authorizer : Option Authorizer)
    (resolver : String → Requirement × Bool) : Handler → Handler :=
  guard authorizer (fun request => resolver request.target)
    grpcAuthorizationError

def streamServerInterceptor (authorizer : Option Authorizer)
    (resolver : String → Requirement × Bool) : Handler → Handler :=
  guard authorizer (fun request => resolver request.target)
    grpcAuthorizationError

end PlatformGo.Authz
