import Mathlib.Data.List.AList
import PlatformGo.Lib.Chase
import PlatformGo.Lib.GoText

/-!
# Trees from flat records

`Build` makes one node for every item, hangs each node under its parent's and
returns the nodes without a parent. The nodes are shared: the map and the
children lists hold pointers to them. There is one node for a key, so the key
is the node's address here, and `Nodes` is the heap. What a pointer shows to
somebody who follows it is `Shows`: a node with its children, all the way
down.

The loop of `hasCycle` that follows the parents has no bound in the source. It
runs on fuel here, and everything built on it is `none` when the fuel is used
up.

`Walk` takes a visitor that may do anything, so it is written for any monad.
`Flatten` is the walk with the visitor that appends.
-/

namespace PlatformGo.Tree

open Chase

def errDuplicateID : GoErr := .sentinel "tree contains duplicate id"

def errMissingParent : GoErr := .sentinel "tree contains missing parent"

def errCycle : GoErr := .sentinel "tree contains cycle"

inductive Node (T : Type) where
  | mk (value : T) (children : List (Node T))

def Node.value {T : Type} : Node T → T
  | .mk value _ => value

def Node.children {T : Type} : Node T → List (Node T)
  | .mk _ children => children

/-! ## Building -/

/-- A node on the heap, its children by their keys. -/
structure Cell (K T : Type) where
  value : T
  children : List K := []

/-- The nodes, each under its key. -/
abbrev Nodes (K T : Type) := AList fun _ : K => Cell K T

variable {K T : Type} [DecidableEq K]

/-- The first loop of `Build`: a node for each item. -/
def addNodes (id : T → K) : List T → Nodes K T → Except GoErr (Nodes K T)
  | [], nodes => .ok nodes
  | item :: items, nodes =>
      if id item ∈ nodes then .error errDuplicateID
      else addNodes id items (nodes.insert (id item) { value := item })

/-- The second loop: each node goes to the roots or to its parent. -/
def link (id : T → K) (parent : T → Option K) :
    List T → Nodes K T → List K → Except GoErr (Nodes K T × List K)
  | [], nodes, roots => .ok (nodes, roots)
  | item :: items, nodes, roots =>
      match parent item with
      | none => link id parent items nodes (roots ++ [id item])
      | some parentKey =>
          match nodes.lookup parentKey with
          | none => .error errMissingParent
          | some parentNode =>
              link id parent items
                (nodes.insert parentKey { parentNode with
                  children := parentNode.children ++ [id item] })
                roots

/-- The map from ids to parents. -/
def parentsOf (id : T → K) (parent : T → Option K) :
    List T → AList (fun _ : K => K) → AList fun _ : K => K
  | [], parents => parents
  | item :: items, parents =>
      match parent item with
      | none => parentsOf id parent items parents
      | some parentID =>
          parentsOf id parent items (parents.insert (id item) parentID)

/-- The loop of `hasCycle` over the items. -/
def anyCycle (fuel : Nat) (id : T → K) (parents : AList fun _ : K => K) :
    List T → Option Bool
  | [] => some false
  | item :: items =>
      match chase parents.lookup fuel [] (id item) with
      | none => none
      | some true => some true
      | some false => anyCycle fuel id parents items

def hasCycle (fuel : Nat) (items : List T) (id : T → K)
    (parent : T → Option K) : Option Bool :=
  anyCycle fuel id (parentsOf id parent items ∅) items

/-- `Build`: the roots, and the heap they point into. -/
def build (fuel : Nat) (items : List T) (id : T → K)
    (parent : T → Option K) : Option (Except GoErr (Nodes K T × List K)) :=
  match addNodes id items ∅ with
  | .error err => some (.error err)
  | .ok nodes =>
      match link id parent items nodes [] with
      | .error err => some (.error err)
      | .ok built =>
          match hasCycle fuel items id parent with
          | none => none
          | some true => some (.error errCycle)
          | some false => some (.ok built)

/-- A pointer and the node it shows. -/
inductive Shows (nodes : Nodes K T) : K → Node T → Prop
  | mk {key : K} {cell : Cell K T} {children : List (Node T)}
      (hcell : nodes.lookup key = some cell)
      (hchildren : List.Forall₂ (Shows nodes) cell.children children) :
      Shows nodes key (.mk cell.value children)

/-! ## Walking -/

section Walk

variable {m : Type → Type} [Monad m]

mutual

/-- `Walk`. -/
def walk (visit : T → m Bool) : List (Node T) → m Unit
  | [] => pure ()
  | node :: forest => do
      if ← walkNode visit node then walk visit forest

/-- One round of its loop; false is the return. -/
def walkNode (visit : T → m Bool) : Node T → m Bool
  | .mk value children => do
      if !(← visit value) then return false
      walk visit children
      return true

end

end Walk

/-- The visitor of `Flatten`. -/
def collect (value : T) : StateM (List T) Bool := do
  modify (· ++ [value])
  return true

def flatten (forest : List (Node T)) : List T :=
  (walk collect forest []).2

end PlatformGo.Tree
