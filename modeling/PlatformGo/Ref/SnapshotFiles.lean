import PlatformGo.Lib.Files
import PlatformGo.Ref.Discovery

/-!
# The snapshot store on its file system

`Save` writes the encoding to a temporary file of the directory and renames it
to `service.json`; `Load` reads that file and decodes it. Both are taken apart
into their system calls here, each of which may fail. A write may be cut into
pieces, and so may the reading, and a process may be gone after any of them.

The temporary file has a random name. `os.CreateTemp` tries another one where
the name is taken, so an attempt that fails this way is no step. The deferred
`Remove` takes the name away after the renaming too, when it may be another's.

Paths are those that `filepath.Clean` makes; links and mounts are not modelled,
and neither is the loss of what the operating system has not written out yet.
A directory under two spellings, one relative and one absolute, counts as two
places.
-/

namespace PlatformGo.SnapshotFiles

open Files ServiceRegistry

abbrev FileSystem := Fs String UInt8

/-- `encoding/json` at `Snapshot`. -/
structure Codec where
  marshal : Snapshot → Except GoErr Bytes
  unmarshal : Bytes → Except GoErr Snapshot

def noSuchFile : GoErr := .sentinel "no such file or directory"

/-- The name `os.CreateTemp` makes of `.registry-*.tmp` and a random number. -/
def tempPath (store : FileSnapshotStore) (random : Nat) : String :=
  cleanPath (store.directory ++ "/" ++ ".registry-" ++
    toString (random % 2 ^ 32) ++ ".tmp")

/-- An open temporary file. -/
structure Temp where
  name : String
  file : Nat
  deriving DecidableEq, Repr

/-! ## Save -/

/-- Where a `Save` is: the call it makes next, with what it knows. -/
inductive SavePhase where
  | mkdirAll
  | createTemp (payload : Bytes)
  | chmod (temp : Temp) (payload : Bytes)
  | write (temp : Temp) (rest : Bytes)
  | close (temp : Temp) (err : Option GoErr)
  | rename (temp : Temp)
  /-- The deferred `Remove`, with what is returned after it. -/
  | remove (temp : Temp) (result : Option GoErr)
  | returned (result : Option GoErr)
  | gone
  deriving DecidableEq, Repr

structure SaveCall where
  store : FileSnapshotStore
  service : String
  snapshot : Snapshot
  phase : SavePhase := .mkdirAll
  deriving DecidableEq, Repr

def SaveCall.target (call : SaveCall) : String :=
  call.store.path call.service

inductive SaveEvent where
  | mkdirAll (err : Option GoErr)
  | createTemp (random : Nat)
  | createFailed (err : GoErr)
  | chmod (err : Option GoErr)
  /-- So many bytes are written. -/
  | write (count : Nat)
  | writeFailed (err : GoErr)
  | close (err : Option GoErr)
  | rename (err : Option GoErr)
  | remove (err : Option GoErr)
  /-- The process ends. -/
  | crash
  deriving DecidableEq, Repr

/-- After the directory is there: `json.Marshal`. -/
def SaveCall.encode (codec : Codec) (call : SaveCall) : SavePhase :=
  match codec.marshal call.snapshot with
  | .error e => .returned (some e)
  | .ok payload => .createTemp payload

/-- After `Close`, whose error counts if there is no other. -/
def afterClose (temp : Temp) : Option GoErr → SavePhase
  | some e => .remove temp (some (.wrap "write registry snapshot" e))
  | none => .rename temp

def SaveCall.next (codec : Codec) (fs : FileSystem) (call : SaveCall)
    (event : SaveEvent) : Option (FileSystem × SavePhase) :=
  match call.phase, event with
  | .mkdirAll, .mkdirAll (some e) => some (fs, .returned (some e))
  | .mkdirAll, .mkdirAll none =>
      -- the empty path cannot be made
      if call.store.directory = "" then none
      else some (fs, call.encode codec)
  | .createTemp _, .createFailed e => some (fs, .returned (some e))
  | .createTemp payload, .createTemp random =>
      let name := tempPath call.store random
      (fs.create name).map fun fs' => (fs', .chmod ⟨name, fs.next⟩ payload)
  | .chmod temp _, .chmod (some e) => some (fs, .close temp (some e))
  | .chmod temp payload, .chmod none => some (fs, .write temp payload)
  | .write temp _, .writeFailed e => some (fs, .close temp (some e))
  | .write temp rest, .write count =>
      if count = 0 ∧ rest ≠ [] then none
      else some (fs.append temp.file (rest.take count),
        if rest.drop count = [] then .close temp none
        else .write temp (rest.drop count))
  | .close temp err, .close closeErr =>
      some (fs, afterClose temp (err.or closeErr))
  | .rename temp, .rename (some e) => some (fs, .remove temp (some e))
  | .rename temp, .rename none =>
      match fs.rename temp.name call.target with
      | none => some (fs, .remove temp (some (.wrap
          ("rename " ++ temp.name ++ " " ++ call.target) noSuchFile)))
      | some fs' => some (fs', .remove temp none)
  | .remove _ result, .remove (some _) => some (fs, .returned result)
  | .remove temp result, .remove none =>
      some (fs.remove temp.name, .returned result)
  | .returned _, _ | .gone, _ => none
  | _, .crash => some (fs, .gone)
  | _, _ => none

/-! ## Load -/

inductive LoadPhase where
  | opening
  | reading (file : Nat) (got : Bytes)
  | returned (result : Except GoErr Snapshot)
  | gone
  deriving DecidableEq

structure LoadCall where
  store : FileSnapshotStore
  service : String
  phase : LoadPhase := .opening
  deriving DecidableEq

def LoadCall.target (call : LoadCall) : String :=
  call.store.path call.service

inductive LoadEvent where
  | opening (err : Option GoErr)
  | read (count : Nat)
  | readFailed (err : GoErr)
  | crash
  deriving DecidableEq, Repr

def LoadCall.next (codec : Codec) (fs : FileSystem) (call : LoadCall)
    (event : LoadEvent) : Option LoadPhase :=
  match call.phase, event with
  | .opening, .opening (some e) => some (.returned (.error e))
  | .opening, .opening none =>
      match fs.names call.target with
      | none => some (.returned (.error
          (.wrap ("open " ++ call.target) noSuchFile)))
      | some file => some (.reading file [])
  | .reading _ _, .readFailed e => some (.returned (.error e))
  | .reading file got, .read count =>
      if count = 0 then none
      else
        match ((fs.data file).drop got.length).take count with
        | [] => some (.returned (codec.unmarshal got))
        | chunk => some (.reading file (got ++ chunk))
  | .returned _, _ | .gone, _ => none
  | _, .crash => some .gone
  | _, _ => none

/-! ## Any number of calls on one file system -/

structure Sys where
  fs : FileSystem := {}
  saves : Nat → Option SaveCall := fun _ => none
  loads : Nat → Option LoadCall := fun _ => none

inductive Action where
  | save (c : Nat) (store : FileSnapshotStore) (service : String)
      (snapshot : Snapshot)
  | saving (c : Nat) (event : SaveEvent)
  | load (c : Nat) (store : FileSnapshotStore) (service : String)
  | loading (c : Nat) (event : LoadEvent)
  deriving DecidableEq, Repr

def Sys.setSave (s : Sys) (c : Nat) (fs : FileSystem) (call : SaveCall) :
    Sys :=
  { s with fs, saves := Function.update s.saves c (some call) }

def Sys.setLoad (s : Sys) (c : Nat) (call : LoadCall) : Sys :=
  { s with loads := Function.update s.loads c (some call) }

def step (codec : Codec) (s : Sys) : Action → Option Sys
  | .save c store service snapshot =>
      match s.saves c with
      | some _ => none
      | none => some (s.setSave c s.fs { store, service, snapshot })
  | .saving c event =>
      (s.saves c).bind fun call =>
        (call.next codec s.fs event).map fun result =>
          s.setSave c result.1 { call with phase := result.2 }
  | .load c store service =>
      match s.loads c with
      | some _ => none
      | none => some (s.setLoad c { store, service })
  | .loading c event =>
      (s.loads c).bind fun call =>
        (call.next codec s.fs event).map fun phase =>
          s.setLoad c { call with phase }

end PlatformGo.SnapshotFiles
