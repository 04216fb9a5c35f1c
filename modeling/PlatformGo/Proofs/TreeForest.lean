import Mathlib.Logic.Relation
import PlatformGo.Proofs.TreeBuild
import PlatformGo.Proofs.TreeWalk

/-!
# The forest `Build` returns

The heap holds for every item the keys of the items under it. To read a tree
off the heap one has to know that going down ends. It does because going up
does: an item's children are one step further from their root than the item
is, and there is an item that is furthest. So `grow`, which takes an item and
hangs its children under it so many levels deep, is what the pointer to the
item shows as soon as the levels reach the furthest item (`Deep`).

What `Flatten` lists is then read off `grow`. A tree lists its item and then
what is below it (`listOf_block`), two trees of items of one depth have
nothing in common (`nodup_flatMap`), and the list of every item's tree is a
stretch of the whole (`listAll_stretch`).
-/

namespace PlatformGo.Tree

open Chase Relation

variable {K T : Type} [DecidableEq K] {items : List T} {id : T → K}
  {parent : T → Option K}

/-! ## Parents and depth -/

/-- One item is the parent of another. -/
def ParentOf (items : List T) (id : T → K) (parent : T → Option K)
    (p x : T) : Prop :=
  p ∈ items ∧ x ∈ items ∧ parent x = some (id p)

/-- How far an item is from its root. -/
def Depth (items : List T) (id : T → K) (parent : T → Option K) (n : Nat)
    (x : T) : Prop :=
  EndsAfter (parentLink items id parent) n (id x)

section Depth

variable (hforest : IsForest items id parent)

include hforest

omit [DecidableEq K] in
theorem parentOf_unique {p q x : T} (hp : ParentOf items id parent p x)
    (hq : ParentOf items id parent q x) : p = q := by
  refine List.inj_on_of_nodup_map hforest.nodup hp.1 hq.1 ?_
  exact Option.some.inj (hp.2.2.symm.trans hq.2.2)

theorem depth_exists {x : T} (hx : x ∈ items) :
    ∃ n, Depth items id parent n x :=
  (rooted_iff hforest.nodup hforest.linked hx).mp (hforest.rooted x hx)

theorem depth_parent {p x : T} {n : Nat}
    (h : ParentOf items id parent p x) :
    Depth items id parent (n + 1) x ↔ Depth items id parent n p := by
  have hlink : parentLink items id parent (id x) = some (id p) := by
    rw [parentLink_id hforest.nodup h.2.1, h.2.2]
  constructor
  · intro hx
    obtain ⟨m, heq, hp⟩ := hx.of_link hlink
    cases heq
    exact hp
  · exact fun hp => .step hlink hp

theorem depth_zero {x : T} (hx : x ∈ items) :
    Depth items id parent 0 x ↔ parent x = none := by
  have hlink : parentLink items id parent (id x) = parent x :=
    parentLink_id hforest.nodup hx
  rw [← hlink]
  constructor
  · intro h
    cases h with
    | last hnone => exact hnone
  · exact fun h => .last h

/-- There is a depth no item lies below. -/
theorem depth_bounded : ∃ N, ∀ x ∈ items, ∀ n,
    Depth items id parent n x → n ≤ N := by
  have hbound : ∀ xs : List T, xs ⊆ items → ∃ N, ∀ x ∈ xs, ∀ n,
      Depth items id parent n x → n ≤ N := by
    intro xs
    induction xs with
    | nil => exact fun _ => ⟨0, by simp⟩
    | cons x xs ih =>
        intro hsub
        rw [List.cons_subset] at hsub
        obtain ⟨N, hN⟩ := ih hsub.2
        obtain ⟨m, hm⟩ := depth_exists hforest hsub.1
        refine ⟨max m N, List.forall_mem_cons.mpr ⟨fun n hn => ?_,
          fun y hy n hn => ?_⟩⟩
        · rw [hn.unique hm]
          exact Nat.le_max_left ..
        · exact Nat.le_trans (hN y hy n hn) (Nat.le_max_right ..)
  exact hbound items (List.Subset.refl items)

end Depth

/-! ## Growing a tree -/

/-- The items under an item, in their order. -/
def childrenOf (items : List T) (id : T → K) (parent : T → Option K)
    (x : T) : List T :=
  items.filter fun y => parent y = some (id x)

theorem mem_childrenOf {x y : T} (hx : x ∈ items) :
    y ∈ childrenOf items id parent x ↔ ParentOf items id parent x y := by
  simp [childrenOf, ParentOf, hx]

/-- The item with so many levels below it. -/
def grow (items : List T) (id : T → K) (parent : T → Option K) :
    Nat → T → Node T
  | 0, x => .mk x []
  | levels + 1, x =>
      .mk x ((childrenOf items id parent x).map (grow items id parent levels))

theorem grow_value (levels : Nat) (x : T) :
    (grow items id parent levels x).value = x := by
  cases levels <;> rfl

/-- The item, and so many levels that no item lies below them. -/
structure Deep (items : List T) (id : T → K) (parent : T → Option K)
    (levels : Nat) (x : T) : Prop where
  mem : x ∈ items
  reaches : ∀ n, Depth items id parent n x → ∀ y ∈ items, ∀ m,
    Depth items id parent m y → m ≤ n + levels

theorem Deep.child (hforest : IsForest items id parent) {levels : Nat}
    {x y : T} (h : Deep items id parent (levels + 1) x)
    (hy : ParentOf items id parent x y) : Deep items id parent levels y := by
  refine ⟨hy.2.1, fun n hn z hz m hm => ?_⟩
  cases n with
  | zero =>
      have hroot := (depth_zero hforest hy.2.1).mp hn
      rw [hy.2.2] at hroot
      cases hroot
  | succ n =>
      have hle := h.reaches n ((depth_parent hforest hy).mp hn) z hz m hm
      omega

theorem Deep.no_child (hforest : IsForest items id parent) {x : T}
    (h : Deep items id parent 0 x) : childrenOf items id parent x = [] := by
  rw [List.eq_nil_iff_forall_not_mem]
  intro y hy
  have hparent := (mem_childrenOf h.mem).mp hy
  obtain ⟨n, hn⟩ := depth_exists hforest h.mem
  have hle := h.reaches n hn y hparent.2.1 (n + 1)
    ((depth_parent hforest hparent).mpr hn)
  omega

/-- The children of a tree that is deep enough. -/
theorem grow_children (hforest : IsForest items id parent) {levels : Nat}
    {x : T} (h : Deep items id parent levels x) :
    ∃ below, (grow items id parent levels x).children =
        (childrenOf items id parent x).map (grow items id parent below) ∧
      ∀ y ∈ childrenOf items id parent x, Deep items id parent below y := by
  cases levels with
  | zero =>
      rw [h.no_child hforest]
      exact ⟨0, rfl, by simp⟩
  | succ levels =>
      exact ⟨levels, rfl, fun y hy =>
        h.child hforest ((mem_childrenOf h.mem).mp hy)⟩

theorem shows_grow (hforest : IsForest items id parent)
    {nodes : Nodes K T} (hholds : Holds items id parent nodes)
    {levels : Nat} {x : T} (h : Deep items id parent levels x) :
    Shows nodes (id x) (grow items id parent levels x) := by
  have hcell : nodes.lookup (id x) = some
      { value := x, children := (childrenOf items id parent x).map id } := by
    rw [hholds, itemAt_id hforest.nodup h.mem]
    rfl
  induction levels generalizing x with
  | zero =>
      refine .mk hcell ?_
      rw [h.no_child hforest]
      exact .nil
  | succ levels ih =>
      refine .mk hcell ?_
      rw [List.forall₂_map_left_iff, List.forall₂_map_right_iff,
        List.forall₂_same]
      intro y hy
      have hdeep := h.child hforest ((mem_childrenOf h.mem).mp hy)
      refine ih hdeep ?_
      rw [hholds, itemAt_id hforest.nodup hdeep.mem]
      rfl

/-- A pointer shows one node. -/
theorem shows_unique {nodes : Nodes K T} (forest : List (Node T)) :
    ∀ keys forest', List.Forall₂ (Shows nodes) keys forest →
      List.Forall₂ (Shows nodes) keys forest' → forest = forest' := by
  induction forest using forest_induction with
  | nil =>
      intro keys forest' h h'
      cases h
      cases h'
      rfl
  | node value children forest ihc ihf =>
      intro keys forest' h h'
      cases h with
      | cons hhead htail =>
          cases h' with
          | cons hhead' htail' =>
              cases hhead with
              | mk hcell hchildren =>
                  cases hhead' with
                  | mk hcell' hchildren' =>
                      rw [hcell, Option.some.injEq] at hcell'
                      subst hcell'
                      rw [ihc _ _ hchildren hchildren', ihf _ _ htail htail']

/-! ## The list of a tree -/

theorem flatten_eq_flatMap (forest : List (Node T)) :
    flatten forest = forest.flatMap fun node => flatten [node] := by
  induction forest with
  | nil => rfl
  | cons node forest ih =>
      cases node with
      | mk value children =>
          rw [flatten_cons, List.flatMap_cons, ih]
          simp

theorem flatten_single (node : Node T) :
    flatten [node] = node.value :: flatten node.children := by
  cases node with
  | mk value children => simp [Node.value, Node.children]

/-- The list of the tree grown from an item. -/
def listOf (items : List T) (id : T → K) (parent : T → Option K)
    (levels : Nat) (x : T) : List T :=
  flatten [grow items id parent levels x]

theorem flatten_map_grow (levels : Nat) (xs : List T) :
    flatten (xs.map (grow items id parent levels)) =
      xs.flatMap (listOf items id parent levels) := by
  rw [flatten_eq_flatMap, List.flatMap_map]
  rfl

theorem listOf_succ (levels : Nat) (x : T) :
    listOf items id parent (levels + 1) x =
      x :: (childrenOf items id parent x).flatMap
        (listOf items id parent levels) := by
  rw [listOf, flatten_single, grow_value, ← flatten_map_grow]
  rfl

/-- A tree lists its item first and then all that is below it. -/
theorem listOf_block (hforest : IsForest items id parent) {levels : Nat}
    {x : T} (h : Deep items id parent levels x) :
    ∃ block, listOf items id parent levels x = x :: block ∧
      ∀ y, y ∈ block ↔ TransGen (ParentOf items id parent) x y := by
  induction levels generalizing x with
  | zero =>
      refine ⟨[], rfl, fun y => ?_⟩
      rw [TransGen.head'_iff]
      constructor
      · intro hy
        cases hy
      · rintro ⟨c, hc, _⟩
        rw [← mem_childrenOf h.mem, h.no_child hforest] at hc
        cases hc
  | succ levels ih =>
      refine ⟨_, listOf_succ levels x, fun y => ?_⟩
      rw [List.mem_flatMap, TransGen.head'_iff]
      refine exists_congr fun c => ?_
      rw [mem_childrenOf h.mem]
      refine and_congr_right fun hc => ?_
      obtain ⟨block, hlist, hblock⟩ := ih (h.child hforest hc)
      rw [hlist, List.mem_cons, hblock, reflTransGen_iff_eq_or_transGen]

theorem mem_listOf (hforest : IsForest items id parent) {levels : Nat}
    {x : T} (h : Deep items id parent levels x) (y : T) :
    y ∈ listOf items id parent levels x ↔
      ReflTransGen (ParentOf items id parent) x y := by
  obtain ⟨block, hlist, hblock⟩ := listOf_block hforest h
  rw [hlist, List.mem_cons, hblock, reflTransGen_iff_eq_or_transGen]

/-! ## Nothing is listed twice -/

/-- Going down, the depth grows. -/
theorem depth_le (hforest : IsForest items id parent) {x y : T} {n m : Nat}
    (h : ReflTransGen (ParentOf items id parent) x y)
    (hx : Depth items id parent n x) (hy : Depth items id parent m y) :
    n ≤ m ∧ (n = m → x = y) := by
  induction h generalizing m with
  | refl => exact ⟨Nat.le_of_eq (hx.unique hy), fun _ => rfl⟩
  | @tail p z _ hp ih =>
      obtain ⟨k, hk⟩ := depth_exists hforest hp.1
      obtain rfl : m = k + 1 := hy.unique ((depth_parent hforest hp).mpr hk)
      obtain ⟨hle, _⟩ := ih hk
      exact ⟨by omega, by omega⟩

/-- Two items of one depth above an item are the same. -/
theorem ancestor_unique (hforest : IsForest items id parent) {x y z : T}
    {n : Nat} (hxz : ReflTransGen (ParentOf items id parent) x z)
    (hyz : ReflTransGen (ParentOf items id parent) y z)
    (hz : z ∈ items) (hx : Depth items id parent n x)
    (hy : Depth items id parent n y) : x = y := by
  induction hxz with
  | refl => exact ((depth_le hforest hyz hy hx).2 rfl).symm
  | @tail p z hxp hp ih =>
      rcases ReflTransGen.cases_tail hyz with rfl | ⟨q, hyq, hq⟩
      · obtain ⟨m, hm⟩ := depth_exists hforest hp.1
        have hlt := (depth_le hforest hxp hx hm).1
        have heq := hy.unique ((depth_parent hforest hp).mpr hm)
        omega
      · obtain rfl := parentOf_unique hforest hp hq
        exact ih hyq hp.1

/-- The lists of items of one depth have nothing in common. -/
theorem nodup_flatMap (hforest : IsForest items id parent) {xs : List T}
    {n : Nat} {lists : T → List T} (hxs : xs.Nodup)
    (hdepth : ∀ x ∈ xs, Depth items id parent n x)
    (hmem : ∀ x ∈ xs, ∀ y ∈ lists x, y ∈ items ∧
      ReflTransGen (ParentOf items id parent) x y)
    (hlists : ∀ x ∈ xs, (lists x).Nodup) : (xs.flatMap lists).Nodup := by
  rw [List.nodup_flatMap]
  refine ⟨hlists, hxs.imp_of_mem fun {x y} hx hy hne z hzx hzy => hne ?_⟩
  obtain ⟨hz, hxz⟩ := hmem x hx z hzx
  exact ancestor_unique hforest hxz (hmem y hy z hzy).2 hz (hdepth x hx)
    (hdepth y hy)

omit [DecidableEq K] in
theorem mem_items_of_below {x y : T} (hx : x ∈ items)
    (h : ReflTransGen (ParentOf items id parent) x y) : y ∈ items := by
  rcases ReflTransGen.cases_tail h with rfl | ⟨p, _, hp⟩
  · exact hx
  · exact hp.2.1

theorem nodup_listOf (hforest : IsForest items id parent) {levels : Nat}
    {x : T} (h : Deep items id parent levels x) :
    (listOf items id parent levels x).Nodup := by
  induction levels generalizing x with
  | zero => exact List.nodup_singleton x
  | succ levels ih =>
      obtain ⟨n, hn⟩ := depth_exists hforest h.mem
      have hdepth : ∀ c, ParentOf items id parent x c →
          Depth items id parent (n + 1) c := fun c hc =>
        (depth_parent hforest hc).mpr hn
      have hdeep : ∀ c ∈ childrenOf items id parent x,
          ParentOf items id parent x c ∧ Deep items id parent levels c := by
        intro c hc
        have hparent := (mem_childrenOf h.mem).mp hc
        exact ⟨hparent, h.child hforest hparent⟩
      rw [listOf_succ, List.nodup_cons]
      refine ⟨fun hmem => ?_, ?_⟩
      · obtain ⟨c, hc, hx⟩ := List.mem_flatMap.mp hmem
        obtain ⟨hparent, hdeep⟩ := hdeep c hc
        have hbelow := (mem_listOf hforest hdeep x).mp hx
        have hle := (depth_le hforest hbelow (hdepth c hparent) hn).1
        omega
      · refine nodup_flatMap hforest
          ((hforest.nodup.of_map id).filter _)
          (fun c hc => hdepth c (hdeep c hc).1) (fun c hc y hy => ?_)
          fun c hc => ih (hdeep c hc).2
        have hbelow := (mem_listOf hforest (hdeep c hc).2 y).mp hy
        exact ⟨mem_items_of_below (hdeep c hc).2.mem hbelow, hbelow⟩

/-! ## The whole forest -/

/-- The items without a parent. -/
def rootsOf (items : List T) (parent : T → Option K) : List T :=
  items.filter fun x => parent x = none

/-- So many levels that no item of the forest lies below them. -/
def Covers (items : List T) (id : T → K) (parent : T → Option K)
    (levels : Nat) : Prop :=
  ∀ x ∈ items, ∀ n, Depth items id parent n x → n ≤ levels

omit [DecidableEq K] in
theorem mem_rootsOf {x : T} :
    x ∈ rootsOf items parent ↔ x ∈ items ∧ parent x = none := by
  simp [rootsOf]

theorem Covers.deep {levels : Nat} (h : Covers items id parent levels)
    {x : T} (hx : x ∈ items) : Deep items id parent levels x :=
  ⟨hx, fun _ _ y hy m hm => Nat.le_trans (h y hy m hm) (Nat.le_add_left ..)⟩

/-- The list of the forest. -/
def listAll (items : List T) (id : T → K) (parent : T → Option K)
    (levels : Nat) : List T :=
  (rootsOf items parent).flatMap (listOf items id parent levels)

theorem mem_flatMap_stretch {xs : List T} {x : T} (hx : x ∈ xs)
    (lists : T → List T) :
    ∃ pre post, xs.flatMap lists = pre ++ lists x ++ post := by
  obtain ⟨before, after, rfl⟩ := List.append_of_mem hx
  exact ⟨before.flatMap lists, after.flatMap lists, by simp⟩

/-- The list of every item's tree is a stretch of the whole. -/
theorem listAll_stretch (hforest : IsForest items id parent) {levels : Nat}
    (hcovers : Covers items id parent levels) {x : T} (hx : x ∈ items) :
    ∃ below pre post, Deep items id parent below x ∧
      listAll items id parent levels =
        pre ++ listOf items id parent below x ++ post := by
  induction hforest.rooted x hx with
  | root hroot =>
      obtain ⟨pre, post, hlist⟩ := mem_flatMap_stretch
        (mem_rootsOf.mpr ⟨hx, hroot⟩) (listOf items id parent levels)
      exact ⟨levels, pre, post, hcovers.deep hx, hlist⟩
  | @under x p hp hparent _ ih =>
      obtain ⟨below, pre, post, hdeep, hlist⟩ := ih hp
      have hxp : ParentOf items id parent p x := ⟨hp, hx, hparent⟩
      have hchild := (mem_childrenOf hp).mpr hxp
      cases below with
      | zero =>
          rw [hdeep.no_child hforest] at hchild
          cases hchild
      | succ below =>
          obtain ⟨pre', post', hstretch⟩ := mem_flatMap_stretch hchild
            (listOf items id parent below)
          refine ⟨below, pre ++ p :: pre', post' ++ post,
            hdeep.child hforest hxp, ?_⟩
          rw [hlist, listOf_succ, hstretch]
          simp

theorem split_unique {pre pre' post post' : List T} {x : T}
    (hnodup : (pre ++ x :: post).Nodup)
    (h : pre ++ x :: post = pre' ++ x :: post') :
    pre = pre' ∧ post = post' := by
  rw [List.nodup_middle, List.nodup_cons, List.mem_append, not_or] at hnodup
  obtain ⟨hpre, _, hpost⟩ :=
    (List.append_cons_inj_of_notMem hnodup.1.1 hnodup.1.2).mp h
  exact ⟨hpre, hpost⟩

theorem nodup_listAll (hforest : IsForest items id parent) {levels : Nat}
    (hcovers : Covers items id parent levels) :
    (listAll items id parent levels).Nodup := by
  have hdepth : ∀ x ∈ rootsOf items parent, Depth items id parent 0 x := by
    intro x hx
    obtain ⟨hmem, hroot⟩ := mem_rootsOf.mp hx
    exact (depth_zero hforest hmem).mpr hroot
  refine nodup_flatMap hforest ((hforest.nodup.of_map id).filter _) hdepth
    (fun x hx y hy => ?_) fun x hx => ?_
  · have hmem := (mem_rootsOf.mp hx).1
    have hbelow := (mem_listOf hforest (hcovers.deep hmem) y).mp hy
    exact ⟨mem_items_of_below hmem hbelow, hbelow⟩
  · exact nodup_listOf hforest (hcovers.deep (mem_rootsOf.mp hx).1)

theorem mem_listAll (hforest : IsForest items id parent) {levels : Nat}
    (hcovers : Covers items id parent levels) (x : T) :
    x ∈ listAll items id parent levels ↔ x ∈ items := by
  constructor
  · intro h
    obtain ⟨root, hroot, hx⟩ := List.mem_flatMap.mp h
    have hmem := (mem_rootsOf.mp hroot).1
    exact mem_items_of_below hmem
      ((mem_listOf hforest (hcovers.deep hmem) x).mp hx)
  · intro hx
    obtain ⟨below, pre, post, hdeep, hlist⟩ :=
      listAll_stretch hforest hcovers hx
    have hself := (mem_listOf hforest hdeep x).mpr .refl
    rw [hlist]
    simp [hself]

theorem listAll_perm (hforest : IsForest items id parent) {levels : Nat}
    (hcovers : Covers items id parent levels) :
    (listAll items id parent levels).Perm items :=
  (List.perm_ext_iff_of_nodup (nodup_listAll hforest hcovers)
    (hforest.nodup.of_map id)).mpr (mem_listAll hforest hcovers)

/-- An item's descendants stand directly behind it. -/
theorem listAll_block (hforest : IsForest items id parent) {levels : Nat}
    (hcovers : Covers items id parent levels) {pre post : List T} {x : T}
    (hsplit : listAll items id parent levels = pre ++ x :: post) :
    ∃ block rest, post = block ++ rest ∧
      ∀ y, y ∈ block ↔ TransGen (ParentOf items id parent) x y := by
  have hnodup := nodup_listAll hforest hcovers
  have hx : x ∈ items := by
    rw [← mem_listAll hforest hcovers, hsplit]
    simp
  obtain ⟨below, pre', rest, hdeep, hlist⟩ :=
    listAll_stretch hforest hcovers hx
  obtain ⟨block, hblock, hmem⟩ := listOf_block hforest hdeep
  refine ⟨block, rest, ?_, hmem⟩
  rw [hblock, List.append_assoc, List.cons_append] at hlist
  rw [hsplit] at hnodup hlist
  exact (split_unique hnodup hlist).2

theorem listAll_parent (hforest : IsForest items id parent) {levels : Nat}
    (hcovers : Covers items id parent levels) {pre post : List T} {p x : T}
    (hsplit : listAll items id parent levels = pre ++ x :: post)
    (hp : ParentOf items id parent p x) : p ∈ pre := by
  have hnodup := nodup_listAll hforest hcovers
  have hmem := (mem_listAll hforest hcovers p).mpr hp.1
  obtain ⟨before, after, hparent⟩ := List.append_of_mem hmem
  obtain ⟨block, rest, rfl, hblock⟩ := listAll_block hforest hcovers hparent
  obtain ⟨mid, mid', rfl⟩ := List.append_of_mem ((hblock x).mpr (.single hp))
  have heq : pre ++ x :: post =
      (before ++ p :: mid) ++ x :: (mid' ++ rest) := by
    rw [← hsplit, hparent]
    simp
  rw [hsplit] at hnodup
  rw [(split_unique hnodup heq).1]
  simp

/-- A node of the forest, at any level. -/
inductive InForest (forest : List (Node T)) : Node T → Prop
  | root {node : Node T} (hmem : node ∈ forest) : InForest forest node
  | child {node child : Node T} (hnode : InForest forest node)
      (hmem : child ∈ node.children) : InForest forest child

theorem inForest_grow (hforest : IsForest items id parent) {levels : Nat}
    (hcovers : Covers items id parent levels) {node : Node T}
    (h : InForest
      ((rootsOf items parent).map (grow items id parent levels)) node) :
    ∃ below x, Deep items id parent below x ∧
      node = grow items id parent below x := by
  induction h with
  | root hmem =>
      obtain ⟨x, hx, rfl⟩ := List.mem_map.mp hmem
      exact ⟨levels, x, hcovers.deep (mem_rootsOf.mp hx).1, rfl⟩
  | child _ hmem ih =>
      obtain ⟨above, x, hdeep, rfl⟩ := ih
      obtain ⟨below, hchildren, hbelow⟩ := grow_children hforest hdeep
      rw [hchildren] at hmem
      obtain ⟨y, hy, rfl⟩ := List.mem_map.mp hmem
      exact ⟨below, y, hbelow y hy, rfl⟩

theorem map_grow_value (levels : Nat) (xs : List T) :
    (xs.map (grow items id parent levels)).map Node.value = xs := by
  simp [Function.comp_def, grow_value]

theorem inForest_children (hforest : IsForest items id parent) {levels : Nat}
    (hcovers : Covers items id parent levels) {node : Node T}
    (h : InForest
      ((rootsOf items parent).map (grow items id parent levels)) node) :
    node.children.map Node.value = childrenOf items id parent node.value := by
  obtain ⟨below, x, hdeep, rfl⟩ := inForest_grow hforest hcovers h
  obtain ⟨_, hchildren, _⟩ := grow_children hforest hdeep
  rw [hchildren, map_grow_value, grow_value]

/-- The pointers to the roots show the whole forest, and only it. -/
theorem shows_forest (hforest : IsForest items id parent)
    {nodes : Nodes K T} (hholds : Holds items id parent nodes) {levels : Nat}
    (hcovers : Covers items id parent levels) (forest : List (Node T)) :
    List.Forall₂ (Shows nodes) ((rootsOf items parent).map id) forest ↔
      forest = (rootsOf items parent).map (grow items id parent levels) := by
  have hgrow : List.Forall₂ (Shows nodes) ((rootsOf items parent).map id)
      ((rootsOf items parent).map (grow items id parent levels)) := by
    rw [List.forall₂_map_left_iff, List.forall₂_map_right_iff,
      List.forall₂_same]
    intro x hx
    exact shows_grow hforest hholds (hcovers.deep (mem_rootsOf.mp hx).1)
  constructor
  · exact fun h => shows_unique forest _ _ h hgrow
  · rintro rfl
    exact hgrow

/-- What `Build` returns when it succeeds: the roots point to one forest. Its
list holds the items once each, every item behind its parent and its
descendants in one block directly behind it. The roots are the items without
a parent, and the children of a node the items whose parent it is, in the
order of the input. -/
theorem build_forest (fuel : Nat) (items : List T) (id : T → K)
    (parent : T → Option K) (nodes : Nodes K T) (roots : List K)
    (hfuel : items.length < fuel)
    (h : build fuel items id parent = some (.ok (nodes, roots))) :
    ∃ forest : List (Node T),
      (∀ shown, List.Forall₂ (Shows nodes) roots shown ↔ shown = forest) ∧
      (flatten forest).Perm items ∧
      (∀ pre x post, flatten forest = pre ++ x :: post →
        (∀ p, ParentOf items id parent p x → p ∈ pre) ∧
        ∃ block rest, post = block ++ rest ∧
          ∀ y, y ∈ block ↔ TransGen (ParentOf items id parent) x y) ∧
      forest.map Node.value = (items.filter fun x => parent x = none) ∧
      ∀ node, InForest forest node → node.children.map Node.value =
        items.filter fun x => parent x = some (id node.value) := by
  obtain ⟨hforest, hholds, rfl⟩ := build_eq_ok hfuel h
  obtain ⟨levels, hcovers⟩ := depth_bounded hforest
  refine ⟨_, shows_forest hforest hholds hcovers, ?_⟩
  rw [flatten_map_grow]
  refine ⟨listAll_perm hforest hcovers, fun pre x post hsplit => ?_,
    map_grow_value levels _,
    fun node hnode => inForest_children hforest hcovers hnode⟩
  exact ⟨fun p hp => listAll_parent hforest hcovers hsplit hp,
    listAll_block hforest hcovers hsplit⟩

/-- The children stand before their parent in the input. -/
theorem build_forest_unordered : ∃ nodes forest,
    build 4 [(3, some 2), (2, some 1), (1, none)] Prod.fst Prod.snd =
      some (.ok (nodes, [1])) ∧
    List.Forall₂ (Shows nodes) [1] forest ∧
    (flatten forest).Perm [(3, some 2), (2, some 1), (1, none)] := by
  obtain ⟨forest, hshows, hperm, _⟩ := build_forest 4
    [(3, some 2), (2, some 1), (1, none)] Prod.fst Prod.snd _ [1]
    (by decide) rfl
  exact ⟨_, forest, rfl, (hshows forest).mpr rfl, hperm⟩

end PlatformGo.Tree
