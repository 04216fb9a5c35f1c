import Mathlib.Data.Finmap
import Mathlib.Data.String.Basic
import PlatformGo.Lib.ChangeLog
import PlatformGo.Lib.GoText
import PlatformGo.Lib.Lts

/-!
# Cached service discovery

A `Discovery` holds the last snapshot of the instances the registry reports
for its query, answers `Pick` and `Instances` from it, and keeps it current:
`refresh` replaces it by a full list, `apply` by what a watch response makes
of it. Every snapshot that is put in place is also written to the snapshot
store, from which `restore` takes it after a restart.

`apply` copies the instances into a map and writes them out again in the order
the map happens to be iterated in, before it sorts them. That order is part of
the step here, which checks that it is an order of the map's values.

Two systems are built from these functions. `Watcher` is one discovery with
the registry it watches, whose log of changes is given. `Fleet` is any number
of discoveries over one store, restarts included, with whatever the registry
answers; the answers and what the callers are handed are recorded there, which
the code does not do.
-/

namespace PlatformGo.ServiceRegistry

open ChangeLog

def minute : Time := 60 * second

/-- The statuses the code names, and the others. -/
inductive InstanceStatus where
  | healthy
  | draining
  | other (code : Nat)
  deriving DecidableEq, Repr

structure ServiceInstance where
  serviceName : String := ""
  instanceId : String
  endpoint : String := ""
  status : InstanceStatus
  weight : Nat := 0
  leaseExpiresAt : Option Time := none
  deriving DecidableEq, Repr

inductive InstanceChangeType where
  | delete
  | other (code : Nat)
  deriving DecidableEq, Repr

structure InstanceChange where
  type : InstanceChangeType
  instanceId : String
  /-- `none` is a nil pointer. -/
  inst : Option ServiceInstance
  deriving DecidableEq, Repr

structure ListInstancesResponse where
  instances : List ServiceInstance
  revision : Nat
  deriving DecidableEq, Repr

structure WatchServiceResponse where
  changes : List InstanceChange
  revision : Nat
  deriving DecidableEq, Repr

structure Snapshot where
  revision : Nat
  savedAt : Time
  instances : List ServiceInstance
  deriving DecidableEq, Repr

def errNoHealthyInstance : GoErr := .sentinel "no healthy service instance"

/-- `FileSnapshotStore`. -/
structure FileSnapshotStore where
  directory : String
  deriving DecidableEq, Repr

structure DiscoveryConfig where
  serviceName : String := ""
  selector : Finmap fun _ : String => String := ∅
  maxStale : Time := 0
  refreshInterval : Time := 0
  retryMin : Time := 0
  retryMax : Time := 0
  /-- `none` is a nil interface. -/
  snapshotStore : Option FileSnapshotStore := none
  deriving DecidableEq

structure Discovery where
  config : DiscoveryConfig
  snapshot : Option Snapshot := none
  ejected : AList fun _ : String => Time := ∅
  cursor : Nat := 0

/-- `NewDiscovery`, with the settings it fills in. -/
def newDiscovery (clientNil : Bool) (config : DiscoveryConfig) :
    Except GoErr Discovery :=
  if clientNil ∨ (config.serviceName = "" ∧ config.selector = ∅) then
    .error (.new (bytes
      "registry client and service name or selector are required"))
  else
    let maxStale :=
      if config.maxStale = 0 then 2 * minute else config.maxStale
    let refreshInterval :=
      if config.refreshInterval = 0 then maxStale.tdiv 2
      else config.refreshInterval
    if refreshInterval ≤ 0 ∨ refreshInterval ≥ maxStale then
      .error (.new (bytes
        "refresh interval must be positive and shorter than max stale"))
    else
      .ok { config := { config with
        maxStale, refreshInterval
        retryMin :=
          if config.retryMin = 0 then 250 * millisecond else config.retryMin
        retryMax :=
          if config.retryMax = 0 then 10 * second else config.retryMax } }

/-! ## Keeping the snapshot current -/

/-- What `ListInstances` and `WatchService` are asked for. -/
structure Query where
  serviceName : String
  selector : Finmap fun _ : String => String
  deriving DecidableEq

def DiscoveryConfig.query (c : DiscoveryConfig) : Query :=
  ⟨c.serviceName, c.selector⟩

/-- The assignment `replace` makes. -/
def Discovery.replace (d : Discovery) (snapshot : Snapshot) : Discovery :=
  { d with snapshot := some snapshot }

/-- `refresh` after the registry has answered. -/
def Discovery.refresh (d : Discovery) (response : ListInstancesResponse)
    (now : Time) : Discovery :=
  d.replace ⟨response.revision, now, response.instances⟩

/-- The map `apply` starts from. -/
def Discovery.values (d : Discovery) :
    AList fun _ : String => ServiceInstance :=
  match d.snapshot with
  | none => ∅
  | some snapshot =>
      snapshot.instances.foldl
        (fun values value => values.insert value.instanceId value) ∅

/-- One round of the loop over the changes. -/
def applyChange (values : AList fun _ : String => ServiceInstance)
    (change : InstanceChange) : AList fun _ : String => ServiceInstance :=
  if change.type = .delete then values.erase change.instanceId
  else
    match change.inst with
    | some value => values.insert change.instanceId value
    | none => values

/-- `apply`. The order is the one in which the map was iterated; `sort.Slice`
may leave equal ids in any order, which the orders of the map cover. -/
def Discovery.apply (d : Discovery) (response : WatchServiceResponse)
    (now : Time) (order : List ServiceInstance) : Option Discovery :=
  let values := response.changes.foldl applyChange d.values
  if order.Perm (values.entries.map Sigma.snd) then
    some (d.replace ⟨response.revision, now,
      sortBy ServiceInstance.instanceId order⟩)
  else none

/-! ## Answering the callers -/

/-- The test of `Pick` and `Instances` on one instance. The zero time is not
after anything. -/
def Discovery.usable (d : Discovery) (now : Time) (value : ServiceInstance) :
    Bool :=
  value.status == .healthy &&
    match d.ejected.lookup value.instanceId with
    | some until_ => until_ ≤ now
    | none => true

/-- The snapshot as long as it is not too old. -/
def Discovery.fresh (d : Discovery) (now : Time) : Option Snapshot :=
  d.snapshot.filter fun snapshot =>
    ¬ now - snapshot.savedAt > d.config.maxStale

/-- The instances that pass the test. The clock is read once for the age of
the snapshot and again for every instance. -/
def Discovery.available (d : Discovery) (clock : Nat → Time)
    (snapshot : Snapshot) : List ServiceInstance :=
  (snapshot.instances.zipIdx.filter fun (value, i) =>
    d.usable (clock (i + 1)) value).map Prod.fst

def Discovery.instances (d : Discovery) (clock : Nat → Time) :
    Except GoErr (List ServiceInstance) :=
  match d.fresh (clock 0) with
  | none => .error errNoHealthyInstance
  | some snapshot =>
      match d.available clock snapshot with
      | [] => .error errNoHealthyInstance
      | result => .ok result

/-- An instance as often as its weight says. -/
def repeated (value : ServiceInstance) : List ServiceInstance :=
  List.replicate (if value.weight = 0 then 1 else value.weight) value

/-- `Pick`, with the cursor after it. -/
def Discovery.pick (d : Discovery) (clock : Nat → Time) :
    Except GoErr (Discovery × ServiceInstance) :=
  match d.fresh (clock 0) with
  | none => .error errNoHealthyInstance
  | some snapshot =>
      let available := (d.available clock snapshot).flatMap repeated
      match available[d.cursor % available.length]? with
      | none => .error errNoHealthyInstance
      | some value => .ok ({ d with cursor := (d.cursor + 1) % 2 ^ 64 }, value)

def Discovery.reportFailure (d : Discovery) (instanceID : String)
    (cooldown now : Time) : Discovery :=
  { d with ejected := d.ejected.insert instanceID (now + cooldown) }

def Discovery.reportSuccess (d : Discovery) (instanceID : String) :
    Discovery :=
  { d with ejected := d.ejected.erase instanceID }

/-! ## The snapshot store -/

/-- `filepath.Clean` on the segments of a path, the last one first. -/
def cleanSegments (rooted : Bool) :
    List (List Char) → List (List Char) → List (List Char)
  | out, [] => out
  | out, segment :: rest =>
      if segment = [] ∨ segment = ['.'] then cleanSegments rooted out rest
      else if segment = ['.', '.'] then
        match out with
        | [] => cleanSegments rooted (if rooted then [] else [segment]) rest
        | top :: below =>
            if top = ['.', '.'] then
              cleanSegments rooted (segment :: out) rest
            else cleanSegments rooted below rest
      else cleanSegments rooted (segment :: out) rest

def cleanPath (path : String) : String :=
  let rooted := path.toList.head? = some '/'
  let segments := cleanSegments rooted [] (path.toList.splitOn '/')
  let body := String.ofList (['/'].intercalate segments.reverse)
  if rooted then "/" ++ body else if body = "" then "." else body

/-- `filepath.Join(s.Directory, service+".json")`. -/
def FileSnapshotStore.path (store : FileSnapshotStore) (service : String) :
    String :=
  if store.directory = "" then cleanPath (service ++ ".json")
  else cleanPath (store.directory ++ "/" ++ service ++ ".json")

example : (FileSnapshotStore.mk "/var/cache").path "a/../b" =
    "/var/cache/b.json" := by decide

/-- The file a discovery reads and writes. -/
def DiscoveryConfig.file (c : DiscoveryConfig) : Option String :=
  c.snapshotStore.map fun store => store.path c.serviceName

/-! ## One discovery and its registry -/

/-- The changes a query sees, each with its revision. -/
structure Registry where
  log : List (Nat × InstanceChange)
  increasing : log.Pairwise fun a b => a.1 < b.1
  keyed : ∀ e ∈ log, e.2.type ≠ .delete →
    ∃ value, e.2.inst = some value ∧ value.instanceId = e.2.instanceId

/-- What a change means: its id holds the instance from then on, or nothing. -/
def InstanceChange.effect (c : InstanceChange) :
    String × Option ServiceInstance :=
  (c.instanceId, if c.type = .delete then none else c.inst)

def Registry.upTo (registry : Registry) (revision : Nat) :
    List (String × Option ServiceInstance) :=
  (registry.log.filter fun e => e.1 ≤ revision).map fun e => e.2.effect

/-- The instance registered under an id as of a revision: that of the last
change of the id. -/
def Registry.contents (registry : Registry) (revision : Nat) (id : String) :
    Option ServiceInstance :=
  after (fun _ => none) (registry.upTo revision) id

def Registry.since (registry : Registry) (revision : Nat) :
    List (Nat × InstanceChange) :=
  registry.log.filter fun e => revision < e.1

/-- The next response of a stream that has sent the changes up to a revision:
at most `size` of the following ones, with the revision of the last. -/
def Registry.next (registry : Registry) (revision size : Nat) :
    Option WatchServiceResponse :=
  let batch := (registry.since revision).take size
  batch.getLast?.map fun last => ⟨batch.map Prod.snd, last.1⟩

/-- Whether the response lists the instances as of its revision. -/
def Registry.lists (registry : Registry) (response : ListInstancesResponse) :
    Bool :=
  decide (response.instances.Perm
    (((registry.upTo response.revision).foldl follow ∅).entries.map
      Sigma.snd))

/-- The loop of `Run`: between the calls, or receiving from a stream that has
sent the changes up to a revision. -/
structure Watcher where
  discovery : Discovery
  stream : Option Nat := none

inductive Watcher.Action where
  | refresh (response : ListInstancesResponse) (now : Time)
  | refreshFailed
  | watch
  | watchFailed
  | recv (size : Nat) (now : Time) (order : List ServiceInstance)
  /-- `Recv` returns an error, and `watch` with it. -/
  | broken

def Watcher.step (registry : Registry) (w : Watcher) :
    Watcher.Action → Option Watcher
  | .refresh response now =>
      if w.stream = none ∧ registry.lists response = true then
        some { w with discovery := w.discovery.refresh response now }
      else none
  | .refreshFailed | .watchFailed => if w.stream = none then some w else none
  | .watch =>
      match w.stream, w.discovery.snapshot with
      | none, some snapshot => some { w with stream := some snapshot.revision }
      | _, _ => none
  | .recv size now order =>
      w.stream.bind fun revision =>
        (registry.next revision size).bind fun response =>
          (w.discovery.apply response now order).map fun discovery =>
            { discovery, stream := some response.revision }
  | .broken => w.stream.map fun _ => { w with stream := none }

/-! ## Discoveries over one store -/

structure Fleet where
  discoveries : Nat → Discovery
  /-- The last content saved under each name. -/
  files : String → Option Snapshot := fun _ => none
  /-- What the registry has reported, and to which query. -/
  reports : List (Query × List ServiceInstance) := []
  /-- What `Pick` and `Instances` have returned, and to whom. -/
  handed : List (Nat × ServiceInstance) := []

/-- The discoveries with the given settings, before they have run. -/
def Fleet.init (configs : Nat → DiscoveryConfig) : Fleet :=
  { discoveries := fun n => { config := configs n } }

inductive Fleet.Action where
  /-- The process of a discovery is started again. -/
  | restart (n : Nat)
  | restore (n : Nat) (now : Time) (saved : Bool)
  | refresh (n : Nat) (response : ListInstancesResponse) (now : Time)
      (saved : Bool)
  | apply (n : Nat) (response : WatchServiceResponse) (now : Time)
      (order : List ServiceInstance) (saved : Bool)
  | pick (n : Nat) (clock : Nat → Time)
  | instances (n : Nat) (clock : Nat → Time)
  | reportFailure (n : Nat) (instanceID : String) (cooldown now : Time)
  | reportSuccess (n : Nat) (instanceID : String)

def Fleet.set (f : Fleet) (n : Nat) (d : Discovery) : Fleet :=
  { f with discoveries := Function.update f.discoveries n d }

/-- The discovery with its new snapshot, and `persistLocked`, of which
`saved` says whether it succeeded. -/
def Fleet.persist (f : Fleet) (n : Nat) (d : Discovery) (saved : Bool) :
    Fleet :=
  match d.config.file, saved with
  | some file, true =>
      { f.set n d with files := Function.update f.files file d.snapshot }
  | _, _ => f.set n d

/-- The instances a watch response reports. -/
def WatchServiceResponse.reported (response : WatchServiceResponse) :
    List ServiceInstance :=
  response.changes.filterMap InstanceChange.inst

def Fleet.report (f : Fleet) (n : Nat) (reported : List ServiceInstance) :
    Fleet :=
  { f with
    reports := f.reports ++ [((f.discoveries n).config.query, reported)] }

def Fleet.hand (f : Fleet) (n : Nat) (values : List ServiceInstance) : Fleet :=
  { f with handed := f.handed ++ values.map fun value => (n, value) }

def Fleet.step (f : Fleet) : Fleet.Action → Option Fleet
  | .restart n => some (f.set n { config := (f.discoveries n).config })
  | .restore n now saved =>
      let d := f.discoveries n
      match d.config.file.bind f.files with
      | none => some f
      | some snapshot =>
          if now - snapshot.savedAt ≤ d.config.maxStale then
            some (f.persist n (d.replace snapshot) saved)
          else some f
  | .refresh n response now saved =>
      some ((f.report n response.instances).persist n
        ((f.discoveries n).refresh response now) saved)
  | .apply n response now order saved =>
      ((f.discoveries n).apply response now order).map fun d =>
        (f.report n response.reported).persist n d saved
  | .pick n clock =>
      match (f.discoveries n).pick clock with
      | .error _ => some f
      | .ok (d, value) => some ((f.set n d).hand n [value])
  | .instances n clock =>
      match (f.discoveries n).instances clock with
      | .error _ => some f
      | .ok values => some (f.hand n values)
  | .reportFailure n instanceID cooldown now =>
      some (f.set n ((f.discoveries n).reportFailure instanceID cooldown now))
  | .reportSuccess n instanceID =>
      some (f.set n ((f.discoveries n).reportSuccess instanceID))

end PlatformGo.ServiceRegistry
