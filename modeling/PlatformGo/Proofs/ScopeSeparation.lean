import PlatformGo.Ref.Bearer

/-!
# Tenant checks and platform checks

A token is accepted for a user, whose tenant and membership are there
together or not at all, or for a service account without either. So a
principal that comes from a token has a tenant only as a member of it, and the
check of a requirement goes to the platform's own tenant with the principal
for subject, or to the tenant of the principal with its membership.

The two are told apart by the tenant of the check. Nothing keeps a token from
naming the platform's own tenant as the user's, and then they are not.
-/

namespace PlatformGo.Authz

open Authn

variable {P : Principal} {scope : Scope}

/-! ## The principals of tokens -/

/-- What `VerifyBearer` has checked of a principal it returns. -/
inductive FromToken (P : Principal) : Prop
  | user (htype : P.type = Principal.typeUser)
      (hpaired : isBlank P.tenantID = isBlank P.membershipID)
  | service (htype : P.type = Principal.typeServiceAccount)
      (htenant : P.tenantID = "")

/-- An accepted claim set: the tenant is the one it names. -/
structure TokenOf (claims : IdentityClaims) (P : Principal) : Prop where
  id : isBlank P.id = false
  tenant : P.tenantID = claims.tenantID
  kind : FromToken P

theorem tokenOf_principal {claims : IdentityClaims} {valid : Bool}
    (h : claims.principal valid = .ok P) : TokenOf claims P := by
  simp only [IdentityClaims.principal] at h
  split at h
  · cases h
  next hsubject =>
  split at h
  · cases h
  split at h
  · cases h
  split at h
  · cases h
  next htype =>
  split at h
  · cases h
  split at h
  · cases h
  next hpaired =>
  split at h
  · cases h
  next hservice =>
  cases h
  refine ⟨?_, rfl, ?_⟩
  · simp only [Bool.or_eq_true, not_or, Bool.not_eq_true] at hsubject
    exact hsubject.2
  · by_cases huser : eitherClaim claims.subjectType claims.principalType =
        Principal.typeUser
    · refine .user huser ?_
      by_contra hne
      exact hpaired ⟨huser, hne⟩
    · have haccount : eitherClaim claims.subjectType claims.principalType =
          Principal.typeServiceAccount := by
        by_contra hne
        exact htype ⟨huser, hne⟩
      refine .service haccount ?_
      by_contra hne
      exact hservice ⟨haccount, .inr (.inl hne)⟩

theorem tokenOf_verifyBearer {parseWithClaims : ParseWithClaims}
    {ctx : Auth.Context} {raw : Bytes} {claims : IdentityClaims}
    {valid : Bool} (hparse : parseWithClaims ctx raw = .ok (claims, valid))
    (h : verifyBearer parseWithClaims ctx raw = .ok P) :
    TokenOf claims P := by
  rw [verifyBearer, hparse] at h
  exact tokenOf_principal h

/-! ## Where a check goes -/

/-- The target of a check in the platform's own tenant. -/
theorem target_platform (hid : isBlank P.id = false) (hkind : FromToken P)
    (hscope : effectiveScope P scope = .platform) :
    ∃ type, authorizationTarget P scope =
      .ok (platformTenantID, ⟨P.id, type⟩) := by
  have hsubject : ∃ type, platformSubject P = .ok ⟨P.id, type⟩ := by
    cases hkind with
    | user htype _ => exact ⟨.user, by simp [platformSubject, htype, hid]⟩
    | service htype _ =>
        refine ⟨.serviceAccount, ?_⟩
        have hother : Principal.typeServiceAccount ≠ Principal.typeUser := by
          decide
        simp [platformSubject, htype, hother, hid]
  obtain ⟨type, htype⟩ := hsubject
  refine ⟨type, ?_⟩
  simp only [authorizationTarget, hscope, htype, if_true]

/-- A principal with a tenant is a user with a membership. -/
theorem member_of_tenant (hkind : FromToken P)
    (htenant : isBlank P.tenantID = false) :
    P.type = Principal.typeUser ∧ isBlank P.membershipID = false := by
  cases hkind with
  | user htype hpaired => exact ⟨htype, hpaired ▸ htenant⟩
  | service _ hempty =>
      rw [hempty] at htenant
      cases htenant

theorem target_tenant (hkind : FromToken P)
    (hscope : effectiveScope P scope = .tenant)
    (htenant : isBlank P.tenantID = false) :
    authorizationTarget P scope =
      .ok (P.tenantID, ⟨P.membershipID, .membership⟩) := by
  obtain ⟨huser, hmember⟩ := member_of_tenant hkind htenant
  simp [authorizationTarget, hscope, htenant, authorizationSubject, huser,
    hmember]

theorem target_blank (hscope : effectiveScope P scope = .tenant)
    (htenant : isBlank P.tenantID = true) :
    authorizationTarget P scope = .error errInvalidPrincipal := by
  simp [authorizationTarget, hscope, htenant]

theorem effectiveScope_platform_iff :
    effectiveScope P scope = .platform ↔
      scope = .platform ∨ scope = .principal ∧ isBlank P.tenantID = true := by
  cases scope with
  | tenant => simp [effectiveScope]
  | platform => simp [effectiveScope]
  | principal => simp [effectiveScope]

theorem effectiveScope_tenant_iff :
    effectiveScope P scope = .tenant ↔
      scope = .tenant ∨ scope = .principal ∧ isBlank P.tenantID = false := by
  cases scope with
  | tenant => simp [effectiveScope]
  | platform => simp [effectiveScope]
  | principal => simp [effectiveScope]

/-- There is no third scope a check is made in. -/
theorem effectiveScope_cases (P : Principal) (scope : Scope) :
    effectiveScope P scope = .platform ∨ effectiveScope P scope = .tenant := by
  rw [effectiveScope_platform_iff, effectiveScope_tenant_iff]
  cases scope with
  | tenant => simp
  | platform => simp
  | principal => cases isBlank P.tenantID <;> simp

/-! ## What is sent -/

section Sent

variable {check : CheckClient} {ctx : Auth.Context} {requirement : Requirement}

/-- The request for a target. -/
def Requirement.request (requirement : Requirement) (tenantId : String)
    (subject : Subject) : CheckRequest :=
  { tenantId, subject, resourceType := requirement.resource
    resourceId := requirement.resourceID, action := requirement.action
    attributes := requirement.attributes }

theorem sent_of_target (check : CheckClient) (ctx : Auth.Context)
    {tenantId : String} {subject : Subject}
    (h : authorizationTarget P requirement.scope = .ok (tenantId, subject)) :
    (GRPCAuthorizer.authorize (some ⟨some check⟩) ctx P requirement).sent =
      some (requirement.request tenantId subject) := by
  simp only [GRPCAuthorizer.authorize, Option.bind_some, h]
  split <;> rfl

theorem authorize_of_error (check : CheckClient) (ctx : Auth.Context)
    {err : GoErr}
    (h : authorizationTarget P requirement.scope = .error err) :
    GRPCAuthorizer.authorize (some ⟨some check⟩) ctx P requirement =
      ⟨none, some err⟩ := by
  simp only [GRPCAuthorizer.authorize, Option.bind_some, h]

/-- The scopes do not mix in the check that is made for the requirement. -/
structure Separated (check : CheckClient) (ctx : Auth.Context)
    (P : Principal) (requirement : Requirement) : Prop where
  platform :
    (∃ r, (GRPCAuthorizer.authorize (some ⟨some check⟩) ctx P
        requirement).sent = some r ∧
      r.tenantId = platformTenantID ∧ r.subject.id = P.id) ↔
    requirement.scope = .platform ∨
      requirement.scope = .principal ∧ isBlank P.tenantID = true
  tenant :
    (∃ r, (GRPCAuthorizer.authorize (some ⟨some check⟩) ctx P
        requirement).sent = some r ∧
      r.tenantId = P.tenantID ∧ P.tenantID ≠ platformTenantID ∧
      r.subject = ⟨P.membershipID, .membership⟩ ∧
      isBlank r.subject.id = false) ↔
    isBlank P.tenantID = false ∧
      (requirement.scope = .tenant ∨ requirement.scope = .principal)
  invalid :
    (GRPCAuthorizer.authorize (some ⟨some check⟩) ctx P requirement).sent =
        none →
      (GRPCAuthorizer.authorize (some ⟨some check⟩) ctx P requirement).err =
        some errInvalidPrincipal →
      requirement.scope = .tenant ∧ isBlank P.tenantID = true

theorem separated_platform (hid : isBlank P.id = false) (hkind : FromToken P)
    (hscope : effectiveScope P requirement.scope = .platform) :
    Separated check ctx P requirement := by
  obtain ⟨type, htarget⟩ := target_platform hid hkind hscope
  have hsent := sent_of_target check ctx htarget
  have hwhere := effectiveScope_platform_iff.mp hscope
  refine ⟨?_, ?_, ?_⟩
  · exact iff_of_true ⟨_, hsent, rfl, rfl⟩ hwhere
  · refine iff_of_false ?_ ?_
    · rintro ⟨r, hr, htenant, hne, -⟩
      rw [hsent, Option.some.injEq] at hr
      subst hr
      exact hne htenant.symm
    · rintro ⟨hnonblank, hor⟩
      rcases hwhere with hplatform | ⟨hprincipal, hblank⟩
      · rw [hplatform] at hor
        simp at hor
      · rw [hnonblank] at hblank
        cases hblank
  · intro hnone
    rw [hsent] at hnone
    cases hnone

theorem separated_tenant (hkind : FromToken P)
    (hreserved : P.tenantID ≠ platformTenantID)
    (hscope : effectiveScope P requirement.scope = .tenant)
    (htenant : isBlank P.tenantID = false) :
    Separated check ctx P requirement := by
  have hsent := sent_of_target check ctx
    (target_tenant hkind hscope htenant)
  refine ⟨?_, ?_, ?_⟩
  · refine iff_of_false ?_ ?_
    · rintro ⟨r, hr, hplatform, -⟩
      rw [hsent, Option.some.injEq] at hr
      subst hr
      exact hreserved hplatform
    · intro hwhere
      rw [effectiveScope_platform_iff.mpr hwhere] at hscope
      cases hscope
  · refine iff_of_true ?_ ⟨htenant, ?_⟩
    · exact ⟨_, hsent, rfl, hreserved, rfl,
        (member_of_tenant hkind htenant).2⟩
    · exact (effectiveScope_tenant_iff.mp hscope).imp_right And.left
  · intro hnone
    rw [hsent] at hnone
    cases hnone

theorem separated_blank
    (hscope : effectiveScope P requirement.scope = .tenant)
    (htenant : isBlank P.tenantID = true) :
    Separated check ctx P requirement := by
  have hnone := authorize_of_error check ctx
    (target_blank hscope htenant)
  refine ⟨?_, ?_, ?_⟩
  · refine iff_of_false ?_ ?_
    · rintro ⟨r, hr, -⟩
      rw [hnone] at hr
      cases hr
    · intro hwhere
      rw [effectiveScope_platform_iff.mpr hwhere] at hscope
      cases hscope
  · refine iff_of_false ?_ ?_
    · rintro ⟨r, hr, -⟩
      rw [hnone] at hr
      cases hr
    · rintro ⟨hnonblank, -⟩
      rw [htenant] at hnonblank
      cases hnonblank
  · intro _ _
    rcases effectiveScope_tenant_iff.mp hscope with h | ⟨-, hnonblank⟩
    · exact ⟨h, htenant⟩
    · rw [htenant] at hnonblank
      cases hnonblank

end Sent

/-- For a principal that comes from a token the scopes do not mix, whatever is
asked for, exactly when the token does not name the platform's own tenant. -/
theorem scopes_separate_iff {parseWithClaims : ParseWithClaims}
    {ctx : Auth.Context} {raw : Bytes} {claims : IdentityClaims}
    {valid : Bool} (hparse : parseWithClaims ctx raw = .ok (claims, valid))
    (h : verifyBearer parseWithClaims ctx raw = .ok P) (check : CheckClient)
    (callCtx : Auth.Context) :
    (∀ requirement, Separated check callCtx P requirement) ↔
      claims.tenantID ≠ platformTenantID := by
  obtain ⟨hid, htenant, hkind⟩ := tokenOf_verifyBearer hparse h
  rw [← htenant]
  constructor
  · intro hseparated hreserved
    have hnonblank : isBlank P.tenantID = false := by
      rw [hreserved]
      decide
    obtain ⟨r, -, -, hne, -⟩ :=
      (hseparated { scope := .tenant }).tenant.mpr ⟨hnonblank, .inl rfl⟩
    exact hne hreserved
  · intro hreserved requirement
    rcases effectiveScope_cases P requirement.scope with hscope | hscope
    · exact separated_platform hid hkind hscope
    · cases hblank : isBlank P.tenantID with
      | true => exact separated_blank hscope hblank
      | false => exact separated_tenant hkind hreserved hscope hblank

/-! ### A member of the platform's own tenant -/

/-- A parser of the one token of a user with a membership in the tenant. -/
def memberToken (tenantID : String) : ParseWithClaims := fun _ raw =>
  if raw = bytes "token-1" then
    .ok ({ subject := "user-1", subjectType := "user", sessionID := "session-1"
           tenantID, membershipID := "membership-1" }, true)
  else .error (.new (bytes "token is malformed"), false)

def allowAll : CheckClient := fun _ _ => .ok true

/-- The token is accepted, and the check of a tenant's requirement is made in
the platform's own tenant. -/
theorem reserved_tenant_accepted : ∃ P r,
    verifyBearer (memberToken platformTenantID) none (bytes "token-1") =
        .ok P ∧
      (GRPCAuthorizer.authorize (some ⟨some allowAll⟩) none P
        { resource := "orders", action := "read", scope := .tenant }).sent =
          some r ∧
      r.tenantId = platformTenantID ∧
      r.subject = ⟨"membership-1", .membership⟩ :=
  ⟨_, _, rfl, rfl, rfl, rfl⟩

/-- A member of another tenant stays in it. -/
theorem scopes_separate_iff_member : ∃ P,
    verifyBearer (memberToken "tenant-1") none (bytes "token-1") = .ok P ∧
      ∀ requirement, Separated allowAll none P requirement := by
  obtain ⟨P, hP⟩ : ∃ P,
      verifyBearer (memberToken "tenant-1") none (bytes "token-1") = .ok P :=
    ⟨_, rfl⟩
  exact ⟨P, hP, (scopes_separate_iff rfl hP allowAll none).mpr (by decide)⟩

end PlatformGo.Authz
