import PlatformGo.Lib.Joined
import PlatformGo.Proofs.IdemFence
import PlatformGo.Ref.Interceptor

/-!
# What a request fingerprint identifies

The hashed text is six strings, each with a zero byte behind it, and then the
encoded request. As long as none of the strings holds a zero byte the first
six of the text are where the strings end, and the text gives all seven parts
back; what is in the encoded request does not matter, because it comes last.

A zero byte in one of the strings moves the boundaries. The same text is then
cut into six other strings in front of the same encoded request
(`exists_same_text`), so the condition is not only enough: a request that
does not meet it shares its fingerprint with another one.
-/

namespace PlatformGo.Idempotency

open PlatformGo.Joined

variable {Req Resp : Type}

/-- The caller whose fields are hashed. -/
def Request.principal (req : Request Req) : Principal :=
  (Principal.fromContext req.caller).1

/-- The strings of the hashed text, in their order. -/
def Request.strings (req : Request Req) : List String :=
  [req.principal.id, req.principal.type, req.principal.tenantID,
    req.principal.membershipID, req.principal.sessionID, req.method]

/-- None of the strings holds a zero byte. -/
def Request.NulFree (req : Request Req) : Prop :=
  ∀ s ∈ req.strings, '\x00' ∉ s.toList

/-- The hashed text. -/
def Request.text (req : Request Req) (payload : Bytes) : Bytes :=
  terminated 0 (req.strings.map bytes) ++ payload

theorem grpcFingerprint_eq (srv : Server Req Resp) {req : Request Req}
    {payload : Bytes}
    (h : srv.codec.marshalRequest req.request = some (.ok payload)) :
    srv.grpcFingerprint req =
      .ok (hexEncode (srv.codec.sha256 (req.text payload)).toList) := by
  have hnul : bytes "\x00" = [0] := rfl
  simp only [Server.grpcFingerprint, h, Request.text, Request.strings,
    Request.principal, terminated, bytes_append, hnul, List.map_cons,
    List.map_nil, List.flatMap_cons, List.flatMap_nil, List.append_assoc,
    List.append_nil]

/-- Without a collision of the hash, equal fingerprints come from equal
texts. -/
theorem text_eq_of_fingerprint_eq {srv : Server Req Resp}
    {req req' : Request Req} {payload payload' : Bytes}
    (h : srv.codec.marshalRequest req.request = some (.ok payload))
    (h' : srv.codec.marshalRequest req'.request = some (.ok payload'))
    (hsha : srv.codec.sha256 (req.text payload) =
      srv.codec.sha256 (req'.text payload') →
        req.text payload = req'.text payload')
    (heq : srv.grpcFingerprint req = srv.grpcFingerprint req') :
    req.text payload = req'.text payload' := by
  rw [grpcFingerprint_eq srv h, grpcFingerprint_eq srv h', Except.ok.injEq,
    hexEncode_inj] at heq
  exact hsha (Vector.toList_inj.mp heq)

/-! ## Strings without a zero byte -/

theorem zero_notMem_strings {req : Request Req} :
    (∀ part ∈ req.strings.map bytes, 0 ∉ part) ↔ req.NulFree := by
  rw [List.forall_mem_map]
  exact forall₂_congr fun s _ => not_congr zero_mem_bytes

theorem strings_inj {req req' : Request Req} :
    req.strings = req'.strings ↔
      req.principal = req'.principal ∧ req.method = req'.method := by
  simp only [Request.strings, Principal.ext_iff, List.cons.injEq, and_true,
    and_assoc]

theorem map_bytes_inj {strings strings' : List String}
    (h : strings.map bytes = strings'.map bytes) : strings = strings' :=
  List.map_injective_iff.mpr (fun _ _ => bytes_inj.mp) h

theorem strings_length (req req' : Request Req) :
    (req.strings.map bytes).length = (req'.strings.map bytes).length := rfl

/-- The text of a request with such strings gives its parts back. -/
theorem text_inj {req req' : Request Req} {payload payload' : Bytes}
    (hnul : req.NulFree) (hnul' : req'.NulFree) :
    req.text payload = req'.text payload' ↔
      (req.principal = req'.principal ∧ req.method = req'.method) ∧
        payload = payload' := by
  unfold Request.text
  rw [terminated_inj (strings_length req req') (zero_notMem_strings.mpr hnul)
    (zero_notMem_strings.mpr hnul'), ← strings_inj]
  exact and_congr_left fun _ => ⟨map_bytes_inj, congrArg (List.map bytes)⟩

/-- In front of the same encoded request there are no other strings with the
same text. -/
theorem nulFree_of_text_eq {req req' : Request Req} {payload : Bytes}
    (hnul : req.NulFree) (h : req'.text payload = req.text payload) :
    req'.NulFree := by
  rw [← zero_notMem_strings]
  exact notMem_of_terminated_eq (strings_length req req')
    (zero_notMem_strings.mpr hnul) (List.append_cancel_right h)

/-! ## Strings with one -/

theorem terminated_map_bytes (strings : List (List Char)) :
    terminated 0 (strings.map fun s => bytes (String.ofList s)) =
      bytes (String.ofList (terminated '\x00' strings)) := by
  have hnul : bytes (String.ofList ['\x00']) = [0] := rfl
  induction strings with
  | nil => rfl
  | cons s strings ih =>
      unfold terminated at ih ⊢
      rw [List.map_cons, List.flatMap_cons, List.flatMap_cons, ih,
        String.ofList_append, String.ofList_append, bytes_append,
        bytes_append, hnul]

/-- Another caller and method with the same text, for the same request. -/
theorem exists_same_text {req : Request Req} (hnul : ¬ req.NulFree) :
    ∃ caller method, ∀ payload,
      ({ req with caller := some caller, method } : Request Req).text
          payload = req.text payload ∧
        ¬ (caller = req.principal ∧ method = req.method) := by
  have hsep : ∃ part ∈ req.strings.map String.toList, '\x00' ∈ part := by
    simp only [Request.NulFree, not_forall, not_not] at hnul
    obtain ⟨s, hs, hmem⟩ := hnul
    exact ⟨s.toList, List.mem_map_of_mem hs, hmem⟩
  have hself : req.strings.map bytes =
      (req.strings.map String.toList).map fun s => bytes (String.ofList s) := by
    simp [Function.comp_def]
  obtain ⟨parts, hlength, hne, heq⟩ :=
    exists_other_cut (show 2 ≤ (req.strings.map String.toList).length from
      by simp [Request.strings]) hsep
  match parts, hlength with
  | [id, type, tenantID, membershipID, sessionID, method], _ =>
      refine ⟨⟨.ofList id, .ofList type, .ofList tenantID,
        .ofList membershipID, .ofList sessionID⟩, .ofList method,
        fun payload => ⟨?_, ?_⟩⟩
      · have htext := terminated_map_bytes
          [id, type, tenantID, membershipID, sessionID, method]
        rw [heq, ← terminated_map_bytes, ← hself] at htext
        exact congrArg (· ++ payload) htext
      · rintro ⟨hcaller, hmethod⟩
        refine hne ?_
        simp [Request.strings, ← hcaller, ← hmethod]

/-! ## The fingerprint -/

/-- A request with strings free of zero bytes, and no other, is identified by
its fingerprint: as long as the hash does not collide, a request with such
strings or with the same encoding that has the same fingerprint has the same
caller, method and encoding. -/
theorem fingerprint_identifies_iff (srv : Server Req Resp)
    (req : Request Req) (payload : Bytes)
    (hpayload :
      srv.codec.marshalRequest req.request = some (.ok payload)) :
    req.NulFree ↔
      ∀ (other : Request Req) (payload' : Bytes),
        srv.codec.marshalRequest other.request = some (.ok payload') →
        (other.NulFree ∨ payload' = payload) →
        (srv.codec.sha256 (other.text payload') =
            srv.codec.sha256 (req.text payload) →
          other.text payload' = req.text payload) →
        srv.grpcFingerprint other = srv.grpcFingerprint req →
        (other.principal = req.principal ∧ other.method = req.method) ∧
          payload' = payload := by
  constructor
  · intro hnul other payload' hpayload' hother hsha heq
    have htext := text_eq_of_fingerprint_eq hpayload' hpayload hsha heq
    have hnul' : other.NulFree := by
      rcases hother with hnul' | rfl
      · exact hnul'
      · exact nulFree_of_text_eq hnul htext
    exact (text_inj hnul' hnul).mp htext
  · intro hidentifies
    refine Classical.byContradiction fun hnul => ?_
    obtain ⟨caller, method, hsame⟩ := exists_same_text hnul
    obtain ⟨htext, hne⟩ := hsame payload
    refine hne (hidentifies { req with caller := some caller, method } payload
      hpayload (Or.inr rfl) (fun _ => htext) ?_).1
    rw [grpcFingerprint_eq srv hpayload, grpcFingerprint_eq srv, htext]
    exact hpayload

/-! ## Two members -/

def tenant1Hash : Vector UInt8 32 :=
  #v[0xc4, 0x7a, 0xde, 0x33, 0x71, 0x58, 0x67, 0xfd, 0xaf, 0x44, 0xea, 0xac,
    0x78, 0xe1, 0xda, 0xb4, 0x83, 0x27, 0xf8, 0x57, 0x0d, 0xaa, 0x66, 0xf2,
    0xe0, 0x2f, 0xab, 0x25, 0xde, 0xb4, 0x7d, 0x27]

def tenant2Hash : Vector UInt8 32 :=
  #v[0x34, 0xef, 0xfb, 0x32, 0xa7, 0xeb, 0x76, 0x7c, 0x6d, 0x23, 0x65, 0xb9,
    0x2f, 0x50, 0x04, 0xf1, 0x46, 0x72, 0x6d, 0x22, 0x64, 0xf9, 0xac, 0xc5,
    0x4e, 0xb9, 0x96, 0xdc, 0x14, 0x53, 0x78, 0x9b]

def shiftedHash : Vector UInt8 32 :=
  #v[0x53, 0x0e, 0x68, 0xe8, 0xaa, 0x32, 0x9b, 0xfa, 0x45, 0x6d, 0x8b, 0x69,
    0xc7, 0xa2, 0x02, 0xe5, 0xa2, 0x08, 0x4d, 0x72, 0x27, 0x45, 0x59, 0xb1,
    0x80, 0xf8, 0xb3, 0x47, 0xaa, 0x67, 0xbb, 0x14]

/-- A health check of a member of a tenant. -/
def healthCheck (tenantID membershipID : String) : Request Bytes :=
  { key := "operation-1"
    caller := some
      { id := "user-1", type := "user", tenantID, membershipID
        sessionID := "session-1" }
    method := "/grpc.health.v1.Health/Check"
    request := [0x0a, 0x03, 0x61, 0x70, 0x69] }

/-- A server whose messages are their own encoding, with the hashes of the
three texts that follow. -/
def healthServer : Server Bytes Bytes where
  manager := .new true ordersConfig textJson
  methods := ["/grpc.health.v1.Health/Check"]
  pathMatch := fun pattern name => .ok (pattern == name)
  codec :=
    { marshalRequest := fun b => some (.ok b)
      marshalResponse := fun b => some (.ok b)
      sha256 := fun b =>
        if b = (healthCheck "tenant-1" "member-1").text
            [0x0a, 0x03, 0x61, 0x70, 0x69] then tenant1Hash
        else if b = (healthCheck "tenant-2" "member-2").text
            [0x0a, 0x03, 0x61, 0x70, 0x69] then tenant2Hash
        else shiftedHash
      unmarshalCached := fun b => .ok b
      findDescriptor := fun _ => .error (.new (bytes "not found")) }

theorem fingerprint_identifies_iff_tenants :
    healthServer.grpcFingerprint (healthCheck "tenant-1" "member-1") ≠
      healthServer.grpcFingerprint (healthCheck "tenant-2" "member-2") := by
  have hnul : (healthCheck "tenant-2" "member-2").NulFree := by
    unfold Request.NulFree
    decide
  have hnul' : (healthCheck "tenant-1" "member-1").NulFree := by
    unfold Request.NulFree
    decide
  have hsha : healthServer.codec.sha256
      ((healthCheck "tenant-1" "member-1").text
        [0x0a, 0x03, 0x61, 0x70, 0x69]) ≠
      healthServer.codec.sha256
        ((healthCheck "tenant-2" "member-2").text
          [0x0a, 0x03, 0x61, 0x70, 0x69]) := by
    decide
  intro heq
  obtain ⟨⟨hprincipal, _⟩, _⟩ := (fingerprint_identifies_iff healthServer
    (healthCheck "tenant-2" "member-2") _ rfl).mp hnul
    (healthCheck "tenant-1" "member-1") _ rfl (Or.inl hnul')
    (fun hcollision => absurd hcollision hsha) heq
  exact absurd hprincipal (by decide)

/-- The zero byte in the tenant of one and in the membership of the other. -/
theorem tenants_share_fingerprint :
    healthServer.grpcFingerprint (healthCheck "tenant-1" "a\x00b") =
        .ok "530e68e8aa329bfa456d8b69c7a202e5a2084d72274559b180f8b347aa67bb14" ∧
      healthServer.grpcFingerprint (healthCheck "tenant-1\x00a" "b") =
        .ok "530e68e8aa329bfa456d8b69c7a202e5a2084d72274559b180f8b347aa67bb14" ∧
      (healthCheck "tenant-1" "a\x00b").principal ≠
        (healthCheck "tenant-1\x00a" "b").principal := by
  decide

end PlatformGo.Idempotency
