import PlatformGo.Ref.Auth

/-!
# From an access token to an authorization check

`VerifyBearer` takes the claims of a token that `jwt.ParseWithClaims` accepts
and makes a principal of them; the parser is a parameter here, with the claims
it reads, whether it holds the token valid, and whether a refresh of the keys
failed while it looked for one. `GRPCAuthorizer` maps a principal and the
scope of a requirement to a tenant and a subject, and asks the authorization
service about them. What it asked is part of what a call yields.

A context is the principal it carries, so the deadline of the call and the
credential it forwards are left out.
-/

namespace PlatformGo.Authn

def errJWKSUnavailable : GoErr := .sentinel "JWKS unavailable"

structure IdentityClaims where
  subjectType : String := ""
  principalType : String := ""
  sessionID : String := ""
  templateSessionID : String := ""
  tenantID : String := ""
  membershipID : String := ""
  /-- The registered claim `sub`. -/
  subject : String := ""
  deriving DecidableEq, Repr

/-- What the parser makes of a token: an error, and whether a refresh of the
keys had failed; or its claims, and whether it is valid. -/
abbrev ParseWithClaims :=
  Auth.Context → Bytes → Except (GoErr × Bool) (IdentityClaims × Bool)

/-- A claim with two names, of which the first counts. -/
def eitherClaim (first second : String) : String :=
  if first = "" then second else first

/-- `VerifyBearer` after the token is parsed. -/
def IdentityClaims.principal (claims : IdentityClaims) (valid : Bool) :
    Except GoErr Principal :=
  if !valid || isBlank claims.subject then
    .error (.new (bytes "invalid access token claims"))
  else if claims.subjectType ≠ "" ∧ claims.principalType ≠ "" ∧
      claims.subjectType ≠ claims.principalType then
    .error (.new (bytes "conflicting access token subject types"))
  else if claims.sessionID ≠ "" ∧ claims.templateSessionID ≠ "" ∧
      claims.sessionID ≠ claims.templateSessionID then
    .error (.new (bytes "conflicting access token session ids"))
  else
    let subjectType := eitherClaim claims.subjectType claims.principalType
    let sessionID := eitherClaim claims.sessionID claims.templateSessionID
    if subjectType ≠ Principal.typeUser ∧
        subjectType ≠ Principal.typeServiceAccount then
      .error (.new (bytes "invalid subject type"))
    else if subjectType = Principal.typeUser ∧ isBlank sessionID then
      .error (.new (bytes "user token requires a session id"))
    else if subjectType = Principal.typeUser ∧
        isBlank claims.tenantID ≠ isBlank claims.membershipID then
      .error (.new (bytes
        "user token tenant and membership context must be paired"))
    else if subjectType = Principal.typeServiceAccount ∧
        (sessionID ≠ "" ∨ claims.tenantID ≠ "" ∨ claims.membershipID ≠ "")
        then
      .error (.new (bytes "service account token cannot carry user context"))
    else
      .ok {
        id := claims.subject, type := subjectType
        tenantID := claims.tenantID, membershipID := claims.membershipID
        sessionID }

def verifyBearer (parseWithClaims : ParseWithClaims) (ctx : Auth.Context)
    (raw : Bytes) : Except GoErr Principal :=
  match parseWithClaims ctx raw with
  | .error (err, failed) =>
      if failed then
        .error (.wrap "verify access token" errJWKSUnavailable)
      else .error (.wrap "verify access token" err)
  | .ok (claims, valid) => claims.principal valid

end PlatformGo.Authn

namespace PlatformGo.Authz

def platformTenantID : String := "__platform__"

inductive SubjectType where
  | user
  | membership
  | serviceAccount
  deriving DecidableEq, Repr

structure Subject where
  id : String
  type : SubjectType
  deriving DecidableEq, Repr

structure CheckRequest where
  tenantId : String
  subject : Subject
  resourceType : String
  resourceId : String
  action : String
  attributes : AList fun _ : String => String

/-- The client of the authorization service: whether the check is allowed, or
the text of an error. -/
abbrev CheckClient := Auth.Context → CheckRequest → Except String Bool

/-- `authorizationSubject`. -/
def authorizationSubject (identity : Principal) : Except GoErr Subject :=
  if identity.type = Principal.typeUser then
    if isBlank identity.membershipID then .error errInvalidPrincipal
    else .ok ⟨identity.membershipID, .membership⟩
  else if identity.type = Principal.typeServiceAccount ∨
      identity.type = Principal.typeSystem then
    if isBlank identity.id then .error errInvalidPrincipal
    else .ok ⟨identity.id, .serviceAccount⟩
  else .error errInvalidPrincipal

/-- The subject of a check in the platform's own tenant. -/
def platformSubject (identity : Principal) : Except GoErr Subject :=
  if identity.type = Principal.typeUser then
    if isBlank identity.id then .error errInvalidPrincipal
    else .ok ⟨identity.id, .user⟩
  else if identity.type = Principal.typeServiceAccount ∨
      identity.type = Principal.typeSystem then
    if isBlank identity.id then .error errInvalidPrincipal
    else .ok ⟨identity.id, .serviceAccount⟩
  else .error errInvalidPrincipal

/-- The scope of the principal is that of its tenant, if it has one. -/
def effectiveScope (identity : Principal) (scope : Scope) : Scope :=
  if scope = .principal then
    if isBlank identity.tenantID then .platform else .tenant
  else scope

/-- `authorizationTarget`. -/
def authorizationTarget (identity : Principal) (scope : Scope) :
    Except GoErr (String × Subject) :=
  let scope := effectiveScope identity scope
  if scope = .platform then
    match platformSubject identity with
    | .error err => .error err
    | .ok subject => .ok (platformTenantID, subject)
  else if scope ≠ .tenant ∨ isBlank identity.tenantID then
    .error errInvalidPrincipal
  else
    match authorizationSubject identity with
    | .error err => .error err
    | .ok subject => .ok (identity.tenantID, subject)

/-- A `GRPCAuthorizer`, which may be nil or have no client. -/
structure GRPCAuthorizer where
  client : Option CheckClient

/-- What a call of `Authorize` sent and what it returned. -/
structure Authorized where
  sent : Option CheckRequest
  err : Option GoErr

def GRPCAuthorizer.authorize (a : Option GRPCAuthorizer)
    (ctx : Auth.Context) (identity : Principal) (requirement : Requirement) :
    Authorized :=
  match a.bind GRPCAuthorizer.client with
  | none =>
      ⟨none, some (.detail errDecisionUnavailable
        "upstream is not configured")⟩
  | some check =>
      match authorizationTarget identity requirement.scope with
      | .error err => ⟨none, some err⟩
      | .ok (tenantId, subject) =>
          let request : CheckRequest :=
            { tenantId, subject, resourceType := requirement.resource
              resourceId := requirement.resourceID
              action := requirement.action
              attributes := requirement.attributes }
          match check ctx request with
          | .error text =>
              ⟨some request, some (.detail errDecisionUnavailable text)⟩
          | .ok false => ⟨some request, some errDenied⟩
          | .ok true => ⟨some request, none⟩

end PlatformGo.Authz
