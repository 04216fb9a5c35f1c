import Mathlib.Data.List.AList
import Mathlib.Logic.Function.Basic
import PlatformGo.Lib.Lts
import PlatformGo.Ref.Consumer

/-!
# The dynamic configuration client

One client with any number of callers. A step is a `Load` or a `Store` of the
cached snapshot, a call of the resolver, or the acquisition of the refresh
mutex; what a caller computes on its own, a return included, belongs to the
step before it. The answers of the resolver and the readings of the clock are
the environment's choice, so that nothing is assumed about either.

A response carries the number of matching change events handled before it was
computed, a call of `Get` the number of those handled before it started, and
what the calls returned is recorded; the code reads none of it.
-/

namespace PlatformGo.DynamicConfig

def errNotFound : GoErr := .sentinel "dynamic configuration key not found"

structure Options where
  environment : String
  tenantID : String := ""
  service : String
  subjectID : String := ""
  ttl : Time := 0
  deriving DecidableEq, Repr

structure ConfigEntry where
  environment : String := ""
  tenantId : String := ""
  service : String := ""
  key : String := ""
  value : Bytes := []
  secretRef : String := ""
  revision : Int := 0
  deriving DecidableEq, Repr

/-- The entry as a protocol buffer, with its fields numbered in the order
above. As with the event messages, only concrete runs use it. -/
def ConfigEntry.wire (e : ConfigEntry) : Bytes :=
  Wire.text 1 (bytes e.environment) ++ Wire.text 2 (bytes e.tenantId) ++
    Wire.text 3 (bytes e.service) ++ Wire.text 4 (bytes e.key) ++
    Wire.text 5 e.value ++ Wire.text 6 (bytes e.secretRef) ++
    Wire.number 7 e.revision.toNat

structure ResolveRequest where
  environment : String
  tenantId : String
  service : String
  keys : List String
  subjectId : String
  deriving DecidableEq, Repr

structure ResolveResponse where
  entries : List ConfigEntry
  etag : String
  deriving DecidableEq, Repr

structure Value where
  bytes : Bytes
  secretRef : String
  revision : Int
  deriving DecidableEq, Repr

structure Snapshot where
  values : AList fun _ : String => Value
  etag : String
  expiresAt : Time
  /-- The change events handled before the response was computed. -/
  epoch : Nat

/-- The options of a client and the decoding of a change event, whose entry
may be missing. -/
structure Client where
  options : Options
  unmarshal : Bytes → Except GoErr (Option ConfigEntry)

/-- `New`, for a resolver that is not nil. -/
def new (unmarshal : Bytes → Except GoErr (Option ConfigEntry))
    (options : Options) : Except GoErr Client :=
  if options.environment = "" ∨ options.service = "" then
    .error (.new (bytes
      "resolver, environment, and service are required"))
  else
    .ok {
      options := { options with
        ttl := if options.ttl ≤ 0 then 60 * second else options.ttl }
      unmarshal }

def Client.request (c : Client) (keys : List String) : ResolveRequest :=
  { environment := c.options.environment, tenantId := c.options.tenantID
    service := c.options.service, keys, subjectId := c.options.subjectID }

/-- The map of a response; the last entry of a key counts. -/
def ResolveResponse.values (response : ResolveResponse) :
    AList fun _ : String => Value :=
  response.entries.foldl (fun values entry =>
    values.insert entry.key
      { bytes := entry.value, secretRef := entry.secretRef
        revision := entry.revision }) ∅

def Client.snapshot (c : Client) (response : ResolveResponse) (epoch : Nat)
    (now : Time) : Snapshot :=
  { values := response.values, etag := response.etag
    expiresAt := now + c.options.ttl, epoch }

/-- `eventbus.DecodePayload`; `none` is a nil envelope. -/
def Client.decodePayload (c : Client) :
    Option EventBus.EventEnvelope → Except GoErr (Option ConfigEntry)
  | none => .error (.new (bytes
      "event envelope and target are required"))
  | some envelope => c.unmarshal envelope.payload

/-- `HandleChanged`: its error, or whether it invalidates the cache. -/
def Client.handleChanged (c : Client)
    (envelope : Option EventBus.EventEnvelope) : Except GoErr Bool :=
  match c.decodePayload envelope with
  | .error e => .error (.wrap "decode config changed event" e)
  | .ok event =>
      -- the getters of a nil entry answer with zero values
      let entry := event.getD {}
      .ok (entry.environment = c.options.environment &&
        entry.service = c.options.service &&
        (entry.tenantId = "" || entry.tenantId = c.options.tenantID))

/-! ## The callers -/

/-- Who runs `Refresh`: `Get`, with the snapshot of its first `Load` and the
change events handled before it, or the caller itself. -/
inductive Caller where
  | get (key : String) (current : Option Snapshot) (started : Nat)
  | refresh (keys : List String)

def Caller.keys : Caller → List String
  | .get .. => []
  | .refresh keys => keys

inductive Phase where
  | idle
  /-- `Refresh` waits for the mutex. -/
  | waiting (caller : Caller)
  /-- It holds the mutex and sends its request. -/
  | resolving (caller : Caller) (request : ResolveRequest)
  /-- It has the response and stores it next. -/
  | answered (caller : Caller) (response : ResolveResponse) (epoch : Nat)
  /-- `Get` loads the snapshot a second time. -/
  | reload (key : String) (started : Nat)
  /-- `Get` reads `current.values[key]`; `none` is a nil pointer. -/
  | lookup (key : String) (started : Nat) (current : Option Snapshot)
  | panicked

/-- What a call of `Get` returned, and the epoch of the response it read. -/
structure GetResult where
  key : String
  started : Nat
  source : Option Nat
  result : Except GoErr Value

structure Sys where
  value : Option Snapshot := none
  /-- The refresh mutex is held. -/
  locked : Bool := false
  callers : Nat → Phase := fun _ => .idle
  /-- The matching change events handled so far. -/
  changes : Nat := 0
  gets : List GetResult := []
  refreshes : List (Option GoErr) := []

inductive Action where
  /-- `Get` is called, loads the snapshot and reads the clock. -/
  | get (i : Nat) (key : String) (now : Time)
  | refresh (i : Nat) (keys : List String)
  | lock (i : Nat)
  | resolve (i : Nat) (answer : Except GoErr ResolveResponse)
  | store (i : Nat) (now : Time)
  | reload (i : Nat)
  | lookup (i : Nat)
  | invalidate
  | changed (envelope : Option EventBus.EventEnvelope)

def Sys.etag (s : Sys) : String := (s.value.map Snapshot.etag).getD ""

def Sys.goto (s : Sys) (i : Nat) (phase : Phase) : Sys :=
  { s with callers := Function.update s.callers i phase }

/-- The first `Load`, and whether the snapshot is used as it is. -/
def Sys.get (s : Sys) (i : Nat) (key : String) (now : Time) : Sys :=
  match s.value with
  | some current =>
      if now < current.expiresAt then
        s.goto i (.lookup key s.changes (some current))
      else s.goto i (.waiting (.get key (some current) s.changes))
  | none => s.goto i (.waiting (.get key none s.changes))

/-- `Refresh` returns an error. -/
def Sys.refreshFailed (s : Sys) (i : Nat) (caller : Caller) (err : GoErr) :
    Sys :=
  match caller with
  | .refresh _ =>
      { s with refreshes := s.refreshes ++ [some err] }.goto i .idle
  | .get key none started =>
      { s with
        gets := s.gets ++ [GetResult.mk key started none (.error err)] }.goto
          i .idle
  | .get key (some _) started => s.goto i (.reload key started)

/-- `Refresh` returns nil. -/
def Sys.refreshed (s : Sys) (i : Nat) : Caller → Sys
  | .refresh _ => { s with refreshes := s.refreshes ++ [none] }.goto i .idle
  | .get key _ started => s.goto i (.reload key started)

def Snapshot.find (snapshot : Snapshot) (key : String) : Except GoErr Value :=
  match snapshot.values.lookup key with
  | some value => .ok value
  | none => .error (.detail errNotFound key)

def Client.step (c : Client) (s : Sys) : Action → Option Sys
  | .get i key now =>
      match s.callers i with
      | .idle => some (s.get i key now)
      | _ => none
  | .refresh i keys =>
      match s.callers i with
      | .idle => some (s.goto i (.waiting (.refresh keys)))
      | _ => none
  | .lock i =>
      match s.callers i with
      | .waiting caller =>
          if s.locked then none
          else some ({ s with locked := true }.goto i
            (.resolving caller (c.request caller.keys)))
      | _ => none
  | .resolve i answer =>
      match s.callers i with
      | .resolving caller _ =>
          match answer with
          | .error e => some ({ s with locked := false }.refreshFailed i
              caller (.wrap "resolve dynamic configuration" e))
          | .ok response => some (s.goto i
              (.answered caller response s.changes))
      | _ => none
  | .store i now =>
      match s.callers i with
      | .answered caller response epoch =>
          some ({ s with
            value := some (c.snapshot response epoch now)
            locked := false }.refreshed i caller)
      | _ => none
  | .reload i =>
      match s.callers i with
      | .reload key started => some (s.goto i (.lookup key started s.value))
      | _ => none
  | .lookup i =>
      match s.callers i with
      | .lookup key started (some current) =>
          some ({ s with
            gets := s.gets ++ [GetResult.mk key started (some current.epoch)
              (current.find key)] }.goto i .idle)
      | .lookup _ _ none => some (s.goto i .panicked)
      | _ => none
  | .invalidate => some { s with value := none }
  | .changed envelope =>
      match c.handleChanged envelope with
      | .ok true => some { s with value := none, changes := s.changes + 1 }
      | _ => some s

end PlatformGo.DynamicConfig
