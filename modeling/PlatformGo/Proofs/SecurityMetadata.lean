import PlatformGo.Proofs.RedactTexts
import PlatformGo.Ref.Recorders

/-!
# The metadata of a security event

`Record` encodes the metadata it is given, asks `ContainsSensitiveJSON` about
the text, and publishes the text. What was asked about is the decoded value, in
which the last of several members with one name stands for all of them; what is
published is the text with all of them. So of a published event the metadata
has no sensitive name if and only if decoding loses none
(`published_metadata_iff`).

The values for metadata are of any type `V`. `Encodes` is what is used of
`json.Marshal`: it writes one document for a value, and it writes a raw message
inside a payload with all its members. For a raw message the document is the
one it holds.
-/

namespace PlatformGo.SecurityLog

open PlatformGo.Json PlatformGo.Redact

variable {V : Type}

/-- What `json.Marshal` writes: for a value the tree `tree v`, and for a
payload an object whose member `metadata` is what the raw message spells. -/
structure Encodes (tools : Tools V Payload) (tree : V → Value) : Prop where
  value : ∀ {v data}, tools.marshalValue v = .ok data → Document (tree v) data
  payload : ∀ {p data v}, tools.marshalPayload p = .ok data →
    Document v p.metadata → ∃ members, Document (.object members) data ∧
      members.filter (fun m => m.1 = bytes "metadata") =
        [(bytes "metadata", v)]

/-- The metadata in the text of a payload. -/
def Metadata (data : Bytes) (v : Value) : Prop :=
  ∃ members, Document (.object members) data ∧ (bytes "metadata", v) ∈ members

/-- The metadata of a published payload is what was handed to the encoder. -/
theorem Encodes.metadata_iff {tools : Tools V Payload} {tree : V → Value}
    (h : Encodes tools tree) {p : Payload} {data : Bytes} {v w : Value}
    (hdata : tools.marshalPayload p = .ok data)
    (hv : Document v p.metadata) : Metadata data w ↔ w = v := by
  obtain ⟨members, hdoc, hfilter⟩ := h.payload hdata hv
  have hmem : (bytes "metadata", w) ∈ members ↔ w = v := by
    have hiff : (bytes "metadata", w) ∈ members.filter
        (fun m => m.1 = bytes "metadata") ↔ (bytes "metadata", w) ∈ members := by
      rw [List.mem_filter, decide_eq_true_eq]
      exact and_iff_left rfl
    rw [← hiff, hfilter, List.mem_singleton, Prod.mk.injEq]
    exact and_iff_right rfl
  constructor
  · rintro ⟨members', hdoc', hw⟩
    cases hdoc.unique hdoc'
    exact hmem.mp hw
  · intro heq
    exact ⟨members, hdoc, hmem.mpr heq⟩

/-- What stands behind a published event. -/
theorem record_publishes {s : Service V} {occasion : Occasion}
    {entry : Entry V} {answer : Option GoErr}
    {sent : String × EventBus.EventEnvelope}
    (h : sent ∈ (s.record occasion entry answer).1) :
    ∃ metadata p, safeMetadata s.tools entry.metadata
        s.config.maxPayloadBytes = .ok metadata ∧ p.metadata = metadata ∧
      s.tools.marshalPayload p = .ok sent.2.payload := by
  unfold Service.record at h
  split at h
  · cases h
  · dsimp only at h
    split at h
    · cases h
    · split at h
      · cases h
      · next metadata hmetadata =>
          split at h
          · cases h
          · next data hdata =>
              rw [List.mem_singleton.mp h]
              refine ⟨metadata, _, ?_, rfl, hdata⟩
              rw [← hmetadata]
              split <;> rfl

/-- The tree of an entry's metadata. Without metadata the event carries an
empty object. -/
def metadataTree (tree : V → Value) : Option V → Value
  | none => .object []
  | some v => tree v

/-- Metadata that passed the check spells its tree, and the decoded tree has no
sensitive name. -/
theorem safeMetadata_eq_ok {tools : Tools V Payload} {tree : V → Value}
    {u : Unicode} {syntaxError : Bytes → String} (h : Encodes tools tree)
    (hcheck : tools.containsSensitiveJSON = containsSensitiveJSON u syntaxError)
    {value : Option V} {limit : Int} {metadata : Bytes}
    (hok : safeMetadata tools value limit = .ok metadata) :
    Document (metadataTree tree value) metadata ∧
      ¬ Sensitive u (metadataTree tree value).decoded := by
  cases value with
  | none =>
      cases hok
      refine ⟨⟨[], _, [], blank_nil, .emptyObject blank_nil, blank_nil, ?_⟩, ?_⟩
      · decide
      · rintro ⟨name, hname, -⟩
        cases hname
  | some v =>
      rw [safeMetadata] at hok
      cases hmarshal : tools.marshalValue v with
      | error e =>
          rw [hmarshal] at hok
          cases hok
      | ok data =>
          rw [hmarshal] at hok
          change (if (data.length : Int) > limit then .error _ else
            tools.containsSensitiveJSON data >>= fun sensitive =>
              if sensitive then .error "contains a credential field"
              else .ok data) = .ok metadata at hok
          have hdoc := h.value hmarshal
          split at hok
          · cases hok
          · rw [hcheck, containsSensitiveJSON_of_decode
              (decode_of_document hdoc)] at hok
            change (if containsSensitiveValue u _ = true then _ else _) =
              Except.ok metadata at hok
            split at hok
            · cases hok
            · next hno =>
                cases hok
                exact ⟨hdoc, fun hs => hno (containsSensitiveValue_iff.mpr hs)⟩

/-! ## Raw messages

The encoder for metadata that is a raw message, on a clock that stands at the
start of 1970. -/

/-- The fields of a payload, as they are encoded. -/
def Payload.fields (p : Payload) (metadata : Value) : List (Bytes × Value) :=
  let text (name value : String) : Bytes × Value :=
    (bytes name, .scalar (.string (bytes value)))
  [text "event_type" p.eventType, text "actor_id" p.actorID,
    text "actor_type" p.actorType, text "subject_id" p.subjectID,
    text "subject_type" p.subjectType, text "tenant_id" p.tenantID,
    text "application_id" p.applicationID,
    (bytes "succeeded", .scalar (.bool p.succeeded)), text "reason" p.reason,
    text "error_code" p.errorCode, text "error_message" p.errorMessage,
    text "identifier_hash" p.identifierHash,
    text "token_id_hash" p.tokenIDHash, text "session_id" p.sessionID,
    text "request_id" p.requestID, text "trace_id" p.traceID,
    text "client_ip" p.clientIP, text "user_agent" p.userAgent,
    (bytes "metadata", metadata), text "occurred_at" "1970-01-01T00:00:00Z"]

/-- The tree of a text that is one document without space behind it. -/
def rawTree (raw : Bytes) : Option Value :=
  match parse raw with
  | some (v, []) => some v
  | _ => none

theorem document_rawTree {raw : Bytes} {v : Value} (h : rawTree raw = some v) :
    Document v raw := by
  unfold rawTree at h
  split at h
  · next w hparse =>
      cases h
      exact document_iff.mpr ⟨[], parse_iff.mp hparse, blank_nil⟩
  · cases h

def rawTools : Tools Bytes Payload where
  marshalValue raw :=
    match rawTree raw with
    | some v => .ok (encode v)
    | none => .error "json: error calling MarshalJSON for type json.RawMessage"
  marshalPayload p :=
    match rawTree p.metadata with
    | some v => .ok (encode (.object (p.fields v)))
    | none => .error (.new (bytes
        "json: error calling MarshalJSON for type json.RawMessage"))
  redactJSON := json ascii fun _ => "invalid character"
  containsSensitiveJSON :=
    containsSensitiveJSON ascii fun _ => "invalid character"
  hmacSHA256 _ _ := Vector.replicate 32 0
  toLower := id

theorem Payload.written_fields (p : Payload) {v : Value} (h : v.Written) :
    (Value.object (p.fields v)).Written := by
  have htext : ∀ value : String,
      (Value.scalar (.string (bytes value))).Written :=
    fun value => .string (Utf8.valid_bytes value)
  refine .object ?_ ?_
  · simp only [Payload.fields, List.forall_mem_cons, Utf8.valid_bytes,
      List.not_mem_nil, false_imp_iff, implies_true, and_self]
  · simp only [Payload.fields, List.forall_mem_cons, htext,
      List.not_mem_nil, false_imp_iff, implies_true, and_self, true_and, and_true]
    exact ⟨.bool _, h⟩

theorem Payload.filter_fields (p : Payload) (v : Value) :
    (p.fields v).filter (fun m => m.1 = bytes "metadata") =
      [(bytes "metadata", v)] := by
  have hname : ∀ name : String, name ≠ "metadata" →
      ¬ bytes name = bytes "metadata" := fun name hne heq =>
    hne (bytes_inj.mp heq)
  simp [Payload.fields, hname]

theorem rawTools_encodes :
    Encodes rawTools fun raw => (rawTree raw).getD (.object []) where
  value {raw data} hraw := by
    change (match rawTree raw with
      | some v => .ok (encode v)
      | none => _) = Except.ok data at hraw
    split at hraw
    · next v hv =>
        cases hraw
        rw [hv]
        exact (document_rawTree hv).written.document
    · cases hraw
  payload {p data v} hp hv := by
    change (match rawTree p.metadata with
      | some v => .ok (encode (.object (p.fields v)))
      | none => _) = Except.ok data at hp
    split at hp
    · next w hw =>
        cases hp
        cases hv.unique (document_rawTree hw)
        exact ⟨_, (p.written_fields hv.written).document,
          p.filter_fields v⟩
    · cases hp

def rawService : Service Bytes where
  config :=
    { enabled := true, subject := "platform.security", maxPayloadBytes := 4096
      hashKey := "0123456789abcdef0123456789abcdef" }
  tools := rawTools

/-- A successful login, without a caller. -/
def loginOccasion : Occasion :=
  { principal := none, traceID := "00000000000000000000000000000000", now := 0
    eventID := "7b1f" }

def login (raw : Bytes) : Entry Bytes :=
  { eventType := "auth.login", succeeded := true, metadata := some raw }

/-! ## What is published -/

theorem published_metadata_iff {s : Service V} {tree : V → Value}
    {u : Unicode} {syntaxError : Bytes → String} (hencodes : Encodes s.tools tree)
    (hcheck : s.tools.containsSensitiveJSON =
      containsSensitiveJSON u syntaxError)
    {occasion : Occasion} {entry : Entry V} {answer : Option GoErr}
    {sent : String × EventBus.EventEnvelope}
    (h : sent ∈ (s.record occasion entry answer).1) :
    (∀ v, Metadata sent.2.payload v →
        ∀ name ∈ v.names, sensitiveKey u name = false) ↔
      ∀ name ∈ (metadataTree tree entry.metadata).lost,
        sensitiveKey u name = false := by
  obtain ⟨metadata, p, hsafe, rfl, hdata⟩ := record_publishes h
  obtain ⟨hdoc, hclean⟩ := safeMetadata_eq_ok hencodes hcheck hsafe
  have hmetadata : ∀ v, Metadata sent.2.payload v ↔
      v = metadataTree tree entry.metadata :=
    fun v => hencodes.metadata_iff hdata hdoc
  simp only [hmetadata, forall_eq]
  constructor
  · intro hnames name hname
    exact hnames name (Value.mem_names_iff.mpr (.inr hname))
  · intro hlost name hname
    rcases Value.mem_names_iff.mp hname with hname | hname
    · exact Bool.eq_false_iff.mpr fun hs => hclean ⟨name, hname, hs⟩
    · exact hlost name hname

theorem published_metadata_iff_login :
    ∃ sent ∈ (rawService.record loginOccasion
        (login (bytes "\x7b\"a\":1,\"a\":[2]\x7d")) none).1,
      ∀ v, Metadata sent.2.payload v →
        ∀ name ∈ v.names, sensitiveKey ascii name = false := by
  obtain ⟨sent, hsent⟩ := List.exists_mem_of_ne_nil
    (rawService.record loginOccasion
      (login (bytes "\x7b\"a\":1,\"a\":[2]\x7d")) none).1
    (List.isEmpty_eq_false_iff.mp (by decide +kernel))
  exact ⟨sent, hsent, (published_metadata_iff
    (show Encodes rawService.tools _ from rawTools_encodes) rfl hsent).mpr
      (by decide +kernel)⟩

/-- A value that a later member of the same name replaces is published with
the credential in it. -/
theorem credential_published :
    ∃ sent ∈ (rawService.record loginOccasion
        (login (bytes "\x7b\"a\":\x7b\"password\":\"x\"\x7d,\"a\":1\x7d"))
        none).1,
      ∃ v, Metadata sent.2.payload v ∧
        ∃ name ∈ v.names, sensitiveKey ascii name = true := by
  obtain ⟨sent, hsent⟩ := List.exists_mem_of_ne_nil
    (rawService.record loginOccasion
      (login (bytes "\x7b\"a\":\x7b\"password\":\"x\"\x7d,\"a\":1\x7d"))
      none).1
    (List.isEmpty_eq_false_iff.mp (by decide +kernel))
  have hencodes : Encodes rawService.tools _ := rawTools_encodes
  obtain ⟨metadata, p, hsafe, rfl, hdata⟩ := record_publishes hsent
  obtain ⟨hdoc, -⟩ := safeMetadata_eq_ok hencodes rfl hsafe
  exact ⟨sent, hsent, _, (hencodes.metadata_iff hdata hdoc).mpr rfl,
    bytes "password", by decide +kernel, by decide +kernel⟩

end PlatformGo.SecurityLog
