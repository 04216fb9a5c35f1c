import PlatformGo.Ref.Auth

/-!
# The chain fails closed

A handler runs only for a target the registry knows: a public one, or one for
which a principal was attached and the authorizer agreed to the registered
requirement. The proof composes three equivalences, one for `Authenticate`
(which contexts it yields), one for the registry (what its map holds, after
all its checks), and one for the two adapters of a transport, which differ
from those of the others only in how they refuse.
-/

namespace PlatformGo.Auth

/-! ## Authentication -/

section Authentication

variable {policy : Authn.Policy} {pathMatch : Authn.PathMatch}
  {target : String} {authorization : Bytes} {ctx : Context}

/-- The key of a `PSK` header. -/
def suppliedKey (authorization : Bytes) : Option Bytes :=
  match Utf8.cut 0x20 authorization with
  | none => none
  | some (scheme, supplied) =>
      if Utf8.equalFold scheme (bytes "PSK") = true ∧ supplied ≠ [] then
        some supplied
      else none

/-- The token of a `Bearer` header. -/
def bearerToken (authorization : Bytes) : Option Bytes :=
  match Utf8.cut 0x20 authorization with
  | none => none
  | some (scheme, raw) =>
      if Utf8.equalFold scheme (bytes "Bearer") = true ∧
          Utf8.trimSpace raw ≠ [] then some raw
      else none

theorem verifyPSK_iff {expected : Bytes} :
    Authn.verifyPSK authorization expected = true ↔
      suppliedKey authorization = some expected := by
  unfold Authn.verifyPSK suppliedKey
  cases Utf8.cut 0x20 authorization with
  | none => simp
  | some p =>
      obtain ⟨scheme, supplied⟩ := p
      simp only [Bool.and_eq_true, beq_iff_eq, bne_iff_ne]
      constructor
      · rintro ⟨⟨hhead, -⟩, rfl⟩
        rw [if_pos hhead]
      · intro h
        split at h
        · next hhead =>
            cases h
            exact ⟨⟨hhead, rfl⟩, rfl⟩
        · cases h

/-- Who attaches a principal to the context: the first PSK policy that matches
the target, if it gets its key, or the bearer verifier, if none matches and
the target is not skipped. -/
inductive Attached (policy : Authn.Policy) (pathMatch : Authn.PathMatch)
    (target : String) (authorization : Bytes) : Principal → Prop
  | psk {before after : List Authn.PSKPolicy} {candidate : Authn.PSKPolicy}
      (hpsk : policy.psk = before ++ candidate :: after)
      (hbefore : ∀ c ∈ before,
        Authn.matchesAny pathMatch target c.targets = false)
      (hmatch : Authn.matchesAny pathMatch target candidate.targets = true)
      (hkey : suppliedKey authorization = some candidate.key) :
      Attached policy pathMatch target authorization candidate.principal
  | bearer {verify : Context → Bytes → Principal × Option GoErr}
      {raw : Bytes} {identity : Principal}
      (hpsk : ∀ c ∈ policy.psk,
        Authn.matchesAny pathMatch target c.targets = false)
      (hskip : Authn.matchesAny pathMatch target policy.skipTargets = false)
      (htoken : bearerToken authorization = some raw)
      (hbearer : policy.bearer = some verify)
      (hverify : verify none raw = (identity, none)) :
      Attached policy pathMatch target authorization identity

/-- The bearer part, with the header read at once. -/
theorem authenticateBearer_eq :
    policy.authenticateBearer pathMatch ctx target authorization =
      if Authn.matchesAny pathMatch target policy.skipTargets then .ok ctx
      else
        match bearerToken authorization with
        | none => .error Authn.errMissingCredential
        | some raw =>
            match policy.bearer with
            | none => .error Authn.errInvalidCredential
            | some verify =>
                if (verify ctx raw).2.isSome || isBlank (verify ctx raw).1.id
                then .error Authn.errInvalidCredential
                else .ok (some (verify ctx raw).1) := by
  unfold Authn.Policy.authenticateBearer bearerToken
  cases Utf8.cut 0x20 authorization with
  | none => rfl
  | some p =>
      obtain ⟨scheme, raw⟩ := p
      by_cases hhead : Utf8.equalFold scheme (bytes "Bearer") = true ∧
          Utf8.trimSpace raw ≠ []
      · simp only [if_pos hhead]
        have haccepted : (!Utf8.equalFold scheme (bytes "Bearer") ||
            Utf8.trimSpace raw == []) = false := by
          simp [hhead.1, hhead.2]
        rw [haccepted]
        cases policy.bearer <;> rfl
      · simp only [if_neg hhead]
        have hrefused : (!Utf8.equalFold scheme (bytes "Bearer") ||
            Utf8.trimSpace raw == []) = true := by
          by_contra hnot
          apply hhead
          simpa using hnot
        rw [hrefused]
        rfl

theorem authenticateBearer_iff :
    policy.authenticateBearer pathMatch none target authorization = .ok ctx ↔
      (Authn.matchesAny pathMatch target policy.skipTargets = true ∧
        ctx = none) ∨
      Authn.matchesAny pathMatch target policy.skipTargets = false ∧
        ∃ verify raw identity, bearerToken authorization = some raw ∧
          policy.bearer = some verify ∧ verify none raw = (identity, none) ∧
          isBlank identity.id = false ∧ ctx = some identity := by
  rw [authenticateBearer_eq]
  cases Authn.matchesAny pathMatch target policy.skipTargets with
  | true =>
      constructor
      · rintro ⟨⟩
        exact .inl ⟨rfl, rfl⟩
      · rintro (⟨-, rfl⟩ | ⟨h, -⟩)
        · rfl
        · cases h
  | false =>
      constructor
      · intro h
        refine .inr ⟨rfl, ?_⟩
        simp only [Bool.false_eq_true, ↓reduceIte] at h
        split at h
        · cases h
        · next raw htoken =>
            split at h
            · cases h
            · next verify hbearer =>
                split at h
                · cases h
                · next hgood =>
                    cases h
                    rw [Bool.not_eq_true, Bool.or_eq_false_iff] at hgood
                    have hnone : (verify none raw).2 = none := by
                      simpa using hgood.1
                    exact ⟨verify, raw, _, htoken, hbearer,
                      Prod.ext rfl hnone, hgood.2, rfl⟩
      · rintro (⟨h, -⟩ | ⟨-, verify, raw, identity, htoken, hbearer, hverify,
          hid, rfl⟩)
        · cases h
        · simp [htoken, hbearer, hverify, hid]

/-- The loop over the PSK policies looks for the first that matches. -/
theorem authenticatePSK_eq {candidates : List Authn.PSKPolicy} :
    policy.authenticatePSK pathMatch ctx target authorization candidates =
      match candidates.find?
          (fun c => Authn.matchesAny pathMatch target c.targets) with
      | none => policy.authenticateBearer pathMatch ctx target authorization
      | some c =>
          if !Authn.verifyPSK authorization c.key || isBlank c.principal.id
          then .error Authn.errInvalidCredential
          else .ok (some c.principal) := by
  induction candidates with
  | nil => rfl
  | cons first rest ih =>
      rw [Authn.Policy.authenticatePSK, List.find?_cons]
      cases Authn.matchesAny pathMatch target first.targets with
      | true => rfl
      | false => exact ih

theorem authenticatePSK_iff {candidates : List Authn.PSKPolicy} :
    policy.authenticatePSK pathMatch none target authorization candidates =
        .ok ctx ↔
      (∃ c, candidates.find?
          (fun c => Authn.matchesAny pathMatch target c.targets) = some c ∧
        suppliedKey authorization = some c.key ∧
        isBlank c.principal.id = false ∧ ctx = some c.principal) ∨
      candidates.find?
          (fun c => Authn.matchesAny pathMatch target c.targets) = none ∧
        policy.authenticateBearer pathMatch none target authorization =
          .ok ctx := by
  rw [authenticatePSK_eq]
  cases candidates.find?
      (fun c => Authn.matchesAny pathMatch target c.targets) with
  | none => simp
  | some c =>
      simp only [Option.some.injEq, reduceCtorEq, false_and, or_false,
        exists_eq_left']
      rw [← verifyPSK_iff]
      constructor
      · intro h
        split at h
        · cases h
        · next hgood =>
            cases h
            rw [Bool.not_eq_true, Bool.or_eq_false_iff,
              Bool.not_eq_false'] at hgood
            exact ⟨hgood.1, hgood.2, rfl⟩
      · rintro ⟨hkey, hid, rfl⟩
        rw [hkey, hid]
        rfl

/-- A PSK policy that matches answers, whatever is skipped. -/
theorem authenticatePSK_skip {candidates : List Authn.PSKPolicy}
    (hmatch : ∃ c ∈ candidates,
      Authn.matchesAny pathMatch target c.targets = true)
    (skipTargets : List String) :
    Authn.Policy.authenticatePSK { policy with skipTargets } pathMatch ctx
        target authorization candidates =
      policy.authenticatePSK pathMatch ctx target authorization
        candidates := by
  obtain ⟨c, hc⟩ :=
    Option.isSome_iff_exists.mp (List.find?_isSome.mpr hmatch)
  rw [authenticatePSK_eq, authenticatePSK_eq, hc]

/-- `Authenticate` attaches a principal, or lets a skipped target that no PSK
policy matches pass without one. -/
theorem authenticate_iff :
    policy.authenticate pathMatch none target authorization = .ok ctx ↔
      (∃ identity, Attached policy pathMatch target authorization identity ∧
        isBlank identity.id = false ∧ ctx = some identity) ∨
      (∀ c ∈ policy.psk,
        Authn.matchesAny pathMatch target c.targets = false) ∧
        Authn.matchesAny pathMatch target policy.skipTargets = true ∧
        ctx = none := by
  rw [Authn.Policy.authenticate, authenticatePSK_iff, authenticateBearer_iff]
  simp only [List.find?_eq_some_iff_append, List.find?_eq_none,
    Bool.not_eq_true, Bool.not_eq_true']
  constructor
  · rintro (⟨c, ⟨hmatch, before, after, hlist, hbefore⟩, hkey, hid, rfl⟩ |
      ⟨hpsk, ⟨hskip, rfl⟩ | ⟨hskip, verify, raw, identity, htoken, hbearer,
        hverify, hid, rfl⟩⟩)
    · exact .inl ⟨_, .psk hlist hbefore hmatch hkey, hid, rfl⟩
    · exact .inr ⟨hpsk, hskip, rfl⟩
    · exact .inl ⟨_, .bearer hpsk hskip htoken hbearer hverify, hid, rfl⟩
  · rintro (⟨identity, hattached, hid, rfl⟩ | ⟨hpsk, hskip, rfl⟩)
    · cases hattached with
      | psk hlist hbefore hmatch hkey =>
          exact .inl ⟨_, ⟨hmatch, _, _, hlist, hbefore⟩, hkey, hid, rfl⟩
      | bearer hpsk hskip htoken hbearer hverify =>
          exact .inr ⟨hpsk, .inr ⟨hskip, _, _, _, htoken, hbearer, hverify,
            hid, rfl⟩⟩
    · exact .inr ⟨hpsk, .inl ⟨hskip, rfl⟩⟩

/-- Skipping fewer targets attaches more principals. -/
theorem Attached.unskip {skipTargets : List String} {identity : Principal}
    (h : Attached { policy with skipTargets } pathMatch target authorization
      identity) :
    Attached { policy with skipTargets := [] } pathMatch target authorization
      identity := by
  cases h with
  | psk hpsk hbefore hmatch hkey => exact .psk hpsk hbefore hmatch hkey
  | bearer hpsk hskip htoken hbearer hverify =>
      exact .bearer hpsk rfl htoken hbearer hverify

end Authentication

/-! ## The registry -/

section Registry

variable {isPrint : Char → Bool} {policies : List Authz.Policy}
  {r registry : Authz.PolicyRegistry}

theorem check_none {policy : Authz.Policy}
    (h : r.check isPrint policy = none) :
    r.policies.lookup policy.operation = none ∧
      (policy.public = false →
        Authz.validPermission policy.requirement.resource
          policy.requirement.action = true) := by
  unfold Authz.PolicyRegistry.check at h
  simp only [] at h
  split at h
  · cases h
  · split at h
    · cases h
    · next hnew =>
        refine ⟨by simpa using hnew, ?_⟩
        intro hprivate
        rw [hprivate] at h
        simp only [Bool.false_eq_true, ↓reduceIte] at h
        split at h
        · cases h
        · next hvalid => simpa using hvalid

theorem lookup_insert_iff {policy p : Authz.Policy} {operation : String}
    (hnew : r.policies.lookup policy.operation = none) :
    (r.policies.insert policy.operation policy).lookup operation = some p ↔
      (p = policy ∧ policy.operation = operation) ∨
        r.policies.lookup operation = some p := by
  by_cases hop : operation = policy.operation
  · subst hop
    rw [AList.lookup_insert, hnew]
    simp [eq_comm]
  · rw [AList.lookup_insert_ne hop]
    constructor
    · exact .inr
    · rintro (⟨-, heq⟩ | h)
      · exact absurd heq.symm hop
      · exact h

/-- The map holds the given policies under their operations. -/
theorem addAll_lookup (h : r.addAll isPrint policies = .ok registry)
    {operation : String} {p : Authz.Policy} :
    registry.policies.lookup operation = some p ↔
      r.policies.lookup operation = some p ∨
        p ∈ policies ∧ p.operation = operation := by
  induction policies generalizing r with
  | nil =>
      cases h
      simp
  | cons policy policies ih =>
      rw [Authz.PolicyRegistry.addAll] at h
      split at h
      · cases h
      · next hcheck =>
          rw [ih h, lookup_insert_iff (check_none hcheck).1, List.mem_cons]
          constructor
          · rintro ((⟨rfl, hop⟩ | hold) | ⟨hmem, hop⟩)
            · exact .inr ⟨.inl rfl, hop⟩
            · exact .inl hold
            · exact .inr ⟨.inr hmem, hop⟩
          · rintro (hold | ⟨rfl | hmem, hop⟩)
            · exact .inl (.inr hold)
            · exact .inl (.inl ⟨rfl, hop⟩)
            · exact .inr ⟨hmem, hop⟩

theorem addAll_valid (h : r.addAll isPrint policies = .ok registry) :
    ∀ p ∈ policies, p.public = false →
      Authz.validPermission p.requirement.resource p.requirement.action =
        true := by
  induction policies generalizing r with
  | nil => nofun
  | cons policy policies ih =>
      rw [Authz.PolicyRegistry.addAll] at h
      split at h
      · cases h
      · next hcheck =>
          intro p hp
          rcases List.mem_cons.mp hp with rfl | hp
          · exact (check_none hcheck).2
          · exact ih h p hp

theorem validPermission_ne {resource action : String}
    (h : Authz.validPermission resource action = true) :
    resource ≠ "" ∧ action ≠ "" := by
  refine ⟨?_, ?_⟩
  · rintro rfl
    cases h
  · rintro rfl
    rw [Authz.validPermission, Bool.and_eq_true] at h
    cases h.2

theorem registered_unique
    (h : Authz.newPolicyRegistry isPrint policies = .ok registry)
    {p q : Authz.Policy} (hp : p ∈ policies) (hq : q ∈ policies)
    (hop : p.operation = q.operation) : p = q := by
  have hlookup : registry.policies.lookup q.operation = some p :=
    (addAll_lookup h).mpr (.inr ⟨hp, hop⟩)
  rw [(addAll_lookup h).mpr (.inr ⟨hq, rfl⟩)] at hlookup
  exact (Option.some.inj hlookup).symm

/-- What the resolvers answer for a target. -/
theorem protection_of_mem
    (h : Authz.newPolicyRegistry isPrint policies = .ok registry)
    {p : Authz.Policy} (hp : p ∈ policies) :
    Authz.protection (some registry) p.operation =
      (p.requirement, !p.public) := by
  have hlookup : registry.policies.lookup p.operation = some p :=
    (addAll_lookup h).mpr (.inr ⟨hp, rfl⟩)
  simp only [Authz.protection, Authz.resolve, hlookup]

theorem protection_of_unregistered
    (h : Authz.newPolicyRegistry isPrint policies = .ok registry)
    {target : String} (hnone : ∀ p ∈ policies, p.operation ≠ target) :
    Authz.protection (some registry) target = ({}, true) := by
  have hlookup : registry.policies.lookup target = none := by
    cases hl : registry.policies.lookup target with
    | none => rfl
    | some p =>
        rcases (addAll_lookup h).mp hl with hempty | ⟨hmem, hop⟩
        · cases hempty
        · exact absurd hop (hnone p hmem)
  simp only [Authz.protection, Authz.resolve, hlookup]

end Registry

/-! ## Enforcement -/

theorem enforce_none {ctx : Context} {authorizer : Option Authz.Authorizer}
    {requirement : Authz.Requirement} :
    Authz.enforce ctx authorizer requirement = none ↔
      ∃ identity authorize, ctx = some identity ∧
        isBlank identity.id = false ∧ authorizer = some authorize ∧
        requirement.resource ≠ "" ∧ requirement.action ≠ "" ∧
        authorize ctx identity requirement = none := by
  cases ctx with
  | none => simp [Authz.enforce, Principal.fromContext]
  | some identity =>
      cases hid : isBlank identity.id with
      | true => simp [Authz.enforce, Principal.fromContext, hid]
      | false =>
          cases authorizer with
          | none => simp [Authz.enforce, Principal.fromContext, hid]
          | some authorize =>
              simp only [Authz.enforce, Principal.fromContext, hid,
                Bool.not_false]
              constructor
              · intro h
                split at h
                · cases h
                · next hfields =>
                    rw [not_or] at hfields
                    exact ⟨identity, authorize, rfl, hid, rfl, hfields.1,
                      hfields.2, h⟩
              · rintro ⟨_, _, ⟨⟩, -, ⟨⟩, hresource, haction, h⟩
                rw [if_neg (not_or.mpr ⟨hresource, haction⟩)]
                exact h

/-! ## The chain -/

/-- The adapters come in three kinds; the HTTP ones may each have an error
writer. -/
inductive Transport where
  | http (authnWriter authzWriter : Bool)
  | unary
  | stream

/-- The handler behind both adapters of a transport. -/
def chain (transport : Transport) (policy : Authn.Policy)
    (pathMatch : Authn.PathMatch) (authorizer : Option Authz.Authorizer)
    (registry : Authz.PolicyRegistry) : Handler :=
  match transport with
  | .http authnWriter authzWriter =>
      Authn.httpMiddleware policy pathMatch authnWriter
        (Authz.httpMiddleware authorizer (Authz.httpResolver (some registry))
          authzWriter Request.handle)
  | .unary =>
      Authn.unaryServerInterceptor policy pathMatch
        (Authz.unaryServerInterceptor authorizer
          (Authz.grpcResolver (some registry)) Request.handle)
  | .stream =>
      Authn.streamServerInterceptor policy pathMatch
        (Authz.streamServerInterceptor authorizer
          (Authz.grpcResolver (some registry)) Request.handle)

section Chain

variable {isPrint : Char → Bool} {policies : List Authz.Policy}
  {registry : Authz.PolicyRegistry} {transport : Transport}
  {policy : Authn.Policy} {pathMatch : Authn.PathMatch}
  {authorizer : Option Authz.Authorizer} {target : String}
  {authorization : List Bytes} {ctx : Context}

/-- A way to refuse that never runs the handler. -/
def Refuses (refuse : GoErr → Reply) : Prop :=
  ∀ err ctx, refuse err ≠ .handled ctx

theorem refuses_writer (writeError : Bool) (text : String) (code : Nat) :
    Refuses fun err =>
      if writeError then .errorWriter err else .httpError text code := by
  intro err ctx
  cases writeError <;> nofun

theorem refuses_status (code : Code) (message : String) :
    Refuses fun _ => .grpcStatus code message := nofun

theorem refuses_grpcAuthorizationError :
    Refuses Authz.grpcAuthorizationError := by
  intro err ctx h
  unfold Authz.grpcAuthorizationError at h
  split at h
  · cases h
  · split at h <;> cases h

theorem authn_guard_handled {refuse : GoErr → Reply} (href : Refuses refuse)
    {next : Handler} {request : Request} :
    Authn.guard policy pathMatch refuse next request = .handled ctx ↔
      ∃ ctx', policy.authenticate pathMatch request.ctx request.target
          (Authn.firstValue request.authorization) = .ok ctx' ∧
        next { request with ctx := ctx' } = .handled ctx := by
  rw [Authn.guard]
  cases policy.authenticate pathMatch request.ctx request.target
      (Authn.firstValue request.authorization) with
  | error err => simp [href err ctx]
  | ok ctx' => simp

theorem authz_guard_handled {refuse : GoErr → Reply} (href : Refuses refuse)
    {resolver : Request → Authz.Requirement × Bool} {request : Request} :
    Authz.guard authorizer resolver refuse Request.handle request =
        .handled ctx ↔
      request.ctx = ctx ∧ ((resolver request).2 = false ∨
        Authz.enforce request.ctx authorizer (resolver request).1 = none) := by
  rw [Authz.guard]
  obtain ⟨requirement, isProtected⟩ := resolver request
  cases isProtected with
  | false => simp [Request.handle]
  | true =>
      cases henforce : Authz.enforce request.ctx authorizer requirement with
      | none => simp [henforce, Request.handle]
      | some err => simp [henforce, href err ctx]

/-- The chains of the transports differ in how they refuse only. -/
theorem chain_eq_guards (transport : Transport) (policy : Authn.Policy)
    (pathMatch : Authn.PathMatch) (authorizer : Option Authz.Authorizer)
    (registry : Authz.PolicyRegistry) :
    ∃ refuse refuse', Refuses refuse ∧ Refuses refuse' ∧
      chain transport policy pathMatch authorizer registry =
        Authn.guard policy pathMatch refuse
          (Authz.guard authorizer
            (fun request => Authz.protection (some registry) request.target)
            refuse' Request.handle) := by
  cases transport with
  | http =>
      exact ⟨_, _, refuses_writer _ _ _, refuses_writer _ _ _, rfl⟩
  | unary | stream =>
      exact ⟨_, _, refuses_status _ _, refuses_grpcAuthorizationError, rfl⟩

theorem chain_handled :
    chain transport policy pathMatch authorizer registry
        { target, authorization } = .handled ctx ↔
      policy.authenticate pathMatch none target
          (Authn.firstValue authorization) = .ok ctx ∧
        ((Authz.protection (some registry) target).2 = false ∨
          Authz.enforce ctx authorizer
            (Authz.protection (some registry) target).1 = none) := by
  obtain ⟨refuse, refuse', href, href', hchain⟩ :=
    chain_eq_guards transport policy pathMatch authorizer registry
  rw [hchain, authn_guard_handled href]
  constructor
  · rintro ⟨ctx', hauth, hnext⟩
    obtain ⟨rfl, hpass⟩ := (authz_guard_handled href').mp hnext
    exact ⟨hauth, hpass⟩
  · rintro ⟨hauth, hpass⟩
    exact ⟨ctx, hauth, (authz_guard_handled href').mpr ⟨rfl, hpass⟩⟩

/-- The authorizer agrees to the requirement for the principal that was
attached. -/
def Permitted (policy : Authn.Policy) (pathMatch : Authn.PathMatch)
    (authorizer : Option Authz.Authorizer) (target : String)
    (authorization : Bytes) (requirement : Authz.Requirement)
    (ctx : Context) : Prop :=
  ∃ identity authorize, ctx = some identity ∧
    Attached policy pathMatch target authorization identity ∧
    isBlank identity.id = false ∧ authorizer = some authorize ∧
    authorize ctx identity requirement = none

theorem enforce_permitted {requirement : Authz.Requirement}
    {authorization : Bytes}
    (hfields : requirement.resource ≠ "" ∧ requirement.action ≠ "")
    (hauth : policy.authenticate pathMatch none target authorization =
      .ok ctx) :
    Authz.enforce ctx authorizer requirement = none ↔
      Permitted policy pathMatch authorizer target authorization requirement
        ctx := by
  rw [enforce_none]
  constructor
  · rintro ⟨identity, authorize, rfl, hid, hauthorizer, -, -, hagree⟩
    rcases authenticate_iff.mp hauth with ⟨_, hattached, -, ⟨⟩⟩ | ⟨-, -, ⟨⟩⟩
    exact ⟨identity, authorize, rfl, hattached, hid, hauthorizer, hagree⟩
  · rintro ⟨identity, authorize, hctx, -, hid, hauthorizer, hagree⟩
    exact ⟨identity, authorize, hctx, hid, hauthorizer, hfields.1, hfields.2,
      hagree⟩

/-- The chain behind an accepted registry. -/
theorem chain_handled_iff
    (hregistry : Authz.newPolicyRegistry isPrint policies = .ok registry) :
    chain transport policy pathMatch authorizer registry
        { target, authorization } = .handled ctx ↔
      policy.authenticate pathMatch none target
          (Authn.firstValue authorization) = .ok ctx ∧
        ∃ p ∈ policies, p.operation = target ∧ (p.public = true ∨
          Permitted policy pathMatch authorizer target
            (Authn.firstValue authorization) p.requirement ctx) := by
  rw [chain_handled]
  apply and_congr_right
  intro hauth
  by_cases hknown : ∃ p ∈ policies, p.operation = target
  · obtain ⟨p, hp, rfl⟩ := hknown
    rw [protection_of_mem hregistry hp]
    have hpass : (p.public = true ∨
          Authz.enforce ctx authorizer p.requirement = none) ↔
        (p.public = true ∨ Permitted policy pathMatch authorizer p.operation
          (Authn.firstValue authorization) p.requirement ctx) := by
      cases hpublic : p.public with
      | true => simp
      | false =>
          have hfields :=
            validPermission_ne (addAll_valid hregistry p hp hpublic)
          simp only [Bool.false_eq_true, false_or,
            enforce_permitted hfields hauth]
    rw [Bool.not_eq_false', hpass]
    constructor
    · exact fun h => ⟨p, hp, rfl, h⟩
    · rintro ⟨q, hq, hop, h⟩
      -- the registry holds one policy for an operation
      rw [registered_unique hregistry hq hp hop] at h
      exact h
  · have hunknown : ∀ p ∈ policies, p.operation ≠ target :=
      fun p hp hop => hknown ⟨p, hp, hop⟩
    rw [protection_of_unregistered hregistry hunknown, enforce_none]
    constructor
    · rintro (hopen | ⟨_, _, -, -, -, hresource, -⟩)
      · cases hopen
      · exact absurd rfl hresource
    · rintro ⟨p, hp, hop, -⟩
      exact absurd hop (hunknown p hp)

theorem Permitted.unskip {skipTargets : List String}
    {requirement : Authz.Requirement} {authorization : Bytes}
    (h : Permitted { policy with skipTargets } pathMatch authorizer target
      authorization requirement ctx) :
    Permitted { policy with skipTargets := [] } pathMatch authorizer target
      authorization requirement ctx := by
  obtain ⟨identity, authorize, hctx, hattached, hrest⟩ := h
  exact ⟨identity, authorize, hctx, hattached.unskip, hrest⟩

theorem Permitted.authenticate {requirement : Authz.Requirement}
    {authorization : Bytes}
    (h : Permitted policy pathMatch authorizer target authorization
      requirement ctx) :
    policy.authenticate pathMatch none target authorization = .ok ctx := by
  obtain ⟨identity, _, rfl, hattached, hid, -⟩ := h
  exact authenticate_iff.mpr (.inl ⟨identity, hattached, hid, rfl⟩)

end Chain

/-- Which requests reach their handler, of those that come without a
principal. It follows that no unregistered target does, that skipping targets
opens no operation that is not public, and that it makes no difference where a
PSK policy matches. -/
theorem handled_iff_permitted {isPrint : Char → Bool}
    {policies : List Authz.Policy} {registry : Authz.PolicyRegistry}
    (hregistry : Authz.newPolicyRegistry isPrint policies = .ok registry)
    (transport : Transport) (policy : Authn.Policy)
    (pathMatch : Authn.PathMatch) (authorizer : Option Authz.Authorizer)
    (target : String) (authorization : List Bytes) :
    (∀ ctx, chain transport policy pathMatch authorizer registry
        { target, authorization } = .handled ctx ↔
      policy.authenticate pathMatch none target
          (Authn.firstValue authorization) = .ok ctx ∧
        ∃ p ∈ policies, p.operation = target ∧ (p.public = true ∨
          Permitted policy pathMatch authorizer target
            (Authn.firstValue authorization) p.requirement ctx)) ∧
    ((∀ p ∈ policies, p.operation ≠ target) →
      ∀ ctx, chain transport policy pathMatch authorizer registry
        { target, authorization } ≠ .handled ctx) ∧
    ((∀ p ∈ policies, p.operation = target → p.public = false) →
      ∀ skipTargets ctx,
        chain transport { policy with skipTargets } pathMatch authorizer
          registry { target, authorization } = .handled ctx →
        chain transport { policy with skipTargets := [] } pathMatch authorizer
          registry { target, authorization } = .handled ctx) ∧
    ((∃ c ∈ policy.psk,
        Authn.matchesAny pathMatch target c.targets = true) →
      ∀ skipTargets,
        chain transport { policy with skipTargets } pathMatch authorizer
          registry { target, authorization } =
        chain transport policy pathMatch authorizer registry
          { target, authorization }) := by
  refine ⟨fun ctx => chain_handled_iff hregistry, ?_, ?_, ?_⟩
  · intro hunknown ctx hhandled
    obtain ⟨-, p, hp, hop, -⟩ := (chain_handled_iff hregistry).mp hhandled
    exact hunknown p hp hop
  · intro hprivate skipTargets ctx hhandled
    obtain ⟨-, p, hp, hop, hpublic | hpermitted⟩ :=
      (chain_handled_iff hregistry).mp hhandled
    · rw [hprivate p hp hop] at hpublic
      cases hpublic
    · exact (chain_handled_iff hregistry).mpr
        ⟨hpermitted.unskip.authenticate, p, hp, hop,
          .inr hpermitted.unskip⟩
  · intro hmatch skipTargets
    have hauth : Authn.Policy.authenticate { policy with skipTargets }
          pathMatch none target (Authn.firstValue authorization) =
        policy.authenticate pathMatch none target
          (Authn.firstValue authorization) :=
      authenticatePSK_skip hmatch skipTargets
    cases transport <;>
      simp only [chain, Authn.httpMiddleware, Authn.unaryServerInterceptor,
        Authn.streamServerInterceptor, Authn.guard, hauth]

/-- `path.Match` for patterns whose only special character is a final star,
which stands for anything without a slash. -/
def starMatch : Authn.PathMatch := fun pattern value =>
  match pattern.toList.reverse with
  | '*' :: stem =>
      .ok (stem.reverse.isPrefixOf value.toList &&
        !(value.toList.drop stem.length).contains '/')
  | _ => .ok (pattern == value)

def jobRunner : Principal :=
  { id := "job-runner", type := Principal.typeServiceAccount }

def jobKey : Authn.PSKPolicy :=
  { key := bytes "s3cret", targets := ["/jobs/*"], principal := jobRunner }

/-- The jobs are skipped by mistake, but need a key. -/
def jobAuthn : Authn.Policy :=
  { skipTargets := ["/*", "/jobs/*"], psk := [jobKey] }

def jobRun : Authz.Policy :=
  { operation := "/jobs/run",
    requirement := { resource := "jobs", action := "run" } }

def jobPolicies : List Authz.Policy :=
  [{ operation := "/health", «public» := true }, jobRun]

/-- Lets the job runner run jobs. -/
def jobAuthorizer : Authz.Authorizer := fun _ identity requirement =>
  if identity.id = "job-runner" ∧ requirement.resource = "jobs" then none
  else some Authz.errDenied

theorem handled_iff_permitted_job :
    ∃ registry,
      Authz.newPolicyRegistry (fun _ => true) jobPolicies = .ok registry ∧
      chain .unary jobAuthn starMatch (some jobAuthorizer) registry
          { target := "/jobs/run", authorization := [bytes "psk s3cret"] } =
        .handled (some jobRunner) := by
  have hregistry :
      Authz.newPolicyRegistry (fun _ => true) jobPolicies = .ok _ := rfl
  have hiff := (handled_iff_permitted hregistry .unary jobAuthn starMatch
    (some jobAuthorizer) "/jobs/run" [bytes "psk s3cret"]).1
  have hpsk : jobAuthn.psk = [] ++ jobKey :: [] := rfl
  have hattached : Attached jobAuthn starMatch "/jobs/run"
      (bytes "psk s3cret") jobKey.principal :=
    .psk hpsk nofun (by decide) (by decide)
  refine ⟨_, hregistry, (hiff (some jobRunner)).mpr ⟨?_, jobRun, ?_, rfl, ?_⟩⟩
  · exact authenticate_iff.mpr (.inl ⟨_, hattached, by decide, rfl⟩)
  · exact List.mem_cons_of_mem _ (List.mem_singleton_self _)
  · exact .inr ⟨jobRunner, jobAuthorizer, rfl, hattached, by decide, rfl,
      by decide⟩

end PlatformGo.Auth
