import PlatformGo.Lib.Filled
import PlatformGo.Lib.GoText
import PlatformGo.Lib.Utf8

/-!
# Access to applications

`Check` sends the ids of applications to the application service and makes a
map of the decisions it answers with; `Verify` does so for one id and looks at
its decision. The ids of a request are trimmed and each is sent once, and the
ids of the answer are trimmed too.

The client is a function from requests to answers. The context and the timeout
of the call are left out. A message that is nil reads as an empty one, so an
answer is a list of decisions.
-/

namespace PlatformGo.AppAccess

def maxBatchSize : Nat := 100

def errInvalidArgument : GoErr := .sentinel "invalid application access request"

def errNotGranted : GoErr :=
  .sentinel "tenant application access is not granted"

def errUnavailable : GoErr :=
  .sentinel "application access decision is unavailable"

/-- `fmt.Errorf("%w: ...", sentinel, ...)`, whose text may hold any bytes. -/
structure Failure where
  sentinel : GoErr
  detail : Bytes
  deriving DecidableEq, Repr

def Failure.text (f : Failure) : Bytes :=
  f.sentinel.text ++ bytes ": " ++ f.detail

structure Decision where
  granted : Bool
  reason : Bytes
  deriving DecidableEq, Repr

/-- A decision of the answer. -/
structure ApplicationDecision where
  applicationId : Bytes := []
  granted : Bool := false
  reason : Bytes := []
  deriving DecidableEq, Repr

/-- The key of a decision in the map. -/
def ApplicationDecision.key (d : ApplicationDecision) : Bytes :=
  Utf8.trimSpace d.applicationId

def ApplicationDecision.decision (d : ApplicationDecision) : Decision :=
  ⟨d.granted, d.reason⟩

structure BatchCheckRequest where
  tenantId : Bytes
  applicationIds : List Bytes
  deriving DecidableEq, Repr

abbrev BatchCheckClient :=
  BatchCheckRequest → Except GoErr (List ApplicationDecision)

/-- A `GRPCVerifier`; without a client it is nil, or its client is. -/
structure GRPCVerifier where
  client : Option BatchCheckClient

/-- The loop of `normalizeIDs`. The map `seen` holds what is in `result`. -/
def normalizeIDs.loop : List Bytes → List Bytes → Except GoErr (List Bytes)
  | result, [] => .ok result
  | result, value :: values =>
      let id := Utf8.trimSpace value
      if id = [] then .error errInvalidArgument
      else if result.contains id then normalizeIDs.loop result values
      else normalizeIDs.loop (result ++ [id]) values

def normalizeIDs (values : List Bytes) : Except GoErr (List Bytes) :=
  if values.length = 0 ∨ values.length > maxBatchSize then
    .error errInvalidArgument
  else normalizeIDs.loop [] values

/-- The map `Check` makes of an answer. -/
def decisionMap (answer : List ApplicationDecision) :
    AList fun _ : Bytes => Decision :=
  Filled.fill ApplicationDecision.key ApplicationDecision.decision
    (answer.filter fun d => d.key ≠ []) ∅

/-- The loop over the ids, once there is an answer. -/
def complete (ids : List Bytes) (decisions : AList fun _ : Bytes => Decision) :
    Except Failure (AList fun _ : Bytes => Decision) :=
  match ids.find? fun id => (decisions.lookup id).isNone with
  | some id =>
      .error ⟨errUnavailable,
        bytes "decision missing for application " ++ id⟩
  | none => .ok decisions

def GRPCVerifier.check (v : GRPCVerifier) (tenantID : Bytes)
    (applicationIDs : List Bytes) :
    Except Failure (AList fun _ : Bytes => Decision) :=
  let tenantID := Utf8.trimSpace tenantID
  match tenantID, normalizeIDs applicationIDs with
  | [], _ | _, .error _ =>
      .error ⟨errInvalidArgument, bytes ("tenant and 1-" ++
        toString maxBatchSize ++ " unique application IDs are required")⟩
  | _ :: _, .ok ids =>
      match v.client with
      | none => .error ⟨errUnavailable, bytes "upstream is not configured"⟩
      | some client =>
          match client ⟨tenantID, ids⟩ with
          | .error err => .error ⟨errUnavailable, err.text⟩
          | .ok answer => complete ids (decisionMap answer)

def GRPCVerifier.verify (v : GRPCVerifier) (tenantID applicationID : Bytes) :
    Option Failure :=
  match v.check tenantID [applicationID] with
  | .error err => some err
  | .ok decisions =>
      let decision :=
        (decisions.lookup (Utf8.trimSpace applicationID)).getD ⟨false, []⟩
      if decision.granted then none
      else some ⟨errNotGranted, bytes "tenant=" ++ tenantID ++
        bytes " application=" ++ applicationID ++ bytes " reason=" ++
        decision.reason⟩

end PlatformGo.AppAccess
