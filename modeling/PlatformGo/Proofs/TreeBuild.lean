import PlatformGo.Ref.Tree

/-!
# `Build` decides whether the items are a forest

Each of the three checks is a loop of its own, and each loop has one lemma for
the items it lets pass, which also says what it leaves behind, and one for
those it rejects. After the first loop every key holds its item; after the
second every node has the items under it for children, in their order.

The cycle check follows the map of parents, not the items. On items with
distinct ids the two are the same: a key's parent is the parent of the item
that has the key (`lookup_parentsOf`), and the links from an item's key end
exactly when the item reaches a root (`rooted_iff`). That the search is over
at all needs none of this: the map has no more keys than there are items.
-/

namespace PlatformGo.Tree

open Chase

variable {K T : Type} [DecidableEq K] {id : T → K} {parent : T → Option K}
  {items : List T}

/-! ## The loops of `Build` -/

/-- The item that has the key. -/
def itemAt (items : List T) (id : T → K) (k : K) : Option T :=
  items.find? fun x => id x = k

theorem itemAt_cons_self (x : T) (xs : List T) :
    itemAt (x :: xs) id (id x) = some x := by
  simp [itemAt]

theorem itemAt_cons_ne {x : T} {k : K} (h : id x ≠ k) (xs : List T) :
    itemAt (x :: xs) id k = itemAt xs id k := by
  simp [itemAt, h]

theorem itemAt_eq_none {k : K} :
    itemAt items id k = none ↔ k ∉ items.map id := by
  simp [itemAt]

theorem itemAt_some {k : K} {x : T} (h : itemAt items id k = some x) :
    x ∈ items ∧ id x = k :=
  ⟨List.mem_of_find?_eq_some h, by simpa using List.find?_some h⟩

/-- With distinct ids every item is the one at its key. -/
theorem itemAt_id (hnodup : (items.map id).Nodup) {x : T} (hx : x ∈ items) :
    itemAt items id (id x) = some x := by
  cases hfind : itemAt items id (id x) with
  | none =>
      rw [itemAt_eq_none] at hfind
      exact absurd (List.mem_map_of_mem hx) hfind
  | some y =>
      obtain ⟨hy, heq⟩ := itemAt_some hfind
      rw [List.inj_on_of_nodup_map hnodup hy hx heq]

theorem addNodes_ok (nodes : Nodes K T) (hnodup : (items.map id).Nodup)
    (hnew : ∀ x ∈ items, id x ∉ nodes) :
    ∃ nodes', addNodes id items nodes = .ok nodes' ∧ ∀ k,
      nodes'.lookup k = ((itemAt items id k).map fun x =>
        { value := x : Cell K T }).or (nodes.lookup k) := by
  induction items generalizing nodes with
  | nil => exact ⟨nodes, rfl, fun k => rfl⟩
  | cons x xs ih =>
      rw [List.map_cons, List.nodup_cons] at hnodup
      rw [List.forall_mem_cons] at hnew
      have hrest : ∀ y ∈ xs, id y ∉ nodes.insert (id x) { value := x } := by
        intro y hy hmem
        rcases (AList.mem_insert _).mp hmem with heq | hmem
        · exact hnodup.1 (heq ▸ List.mem_map_of_mem hy)
        · exact hnew.2 y hy hmem
      obtain ⟨nodes', hadd, hlookup⟩ := ih _ hnodup.2 hrest
      refine ⟨nodes', by rw [addNodes, if_neg hnew.1, hadd], fun k => ?_⟩
      rw [hlookup k]
      by_cases hk : id x = k
      · subst hk
        rw [itemAt_eq_none.mpr hnodup.1, itemAt_cons_self,
          AList.lookup_insert]
        rfl
      · rw [itemAt_cons_ne hk, AList.lookup_insert_ne (Ne.symm hk)]

theorem addNodes_duplicate {nodes : Nodes K T}
    (h : ¬ ((items.map id).Nodup ∧ ∀ x ∈ items, id x ∉ nodes)) :
    addNodes id items nodes = .error errDuplicateID := by
  induction items generalizing nodes with
  | nil => exact absurd ⟨List.nodup_nil, by simp⟩ h
  | cons x xs ih =>
      rw [addNodes]
      by_cases hx : id x ∈ nodes
      · rw [if_pos hx]
      · rw [if_neg hx]
        refine ih fun hrest => h ?_
        simp only [AList.mem_insert, not_or] at hrest
        rw [List.map_cons, List.nodup_cons, List.forall_mem_cons]
        refine ⟨⟨fun hmem => ?_, hrest.1⟩, hx, fun y hy => (hrest.2 y hy).2⟩
        obtain ⟨y, hy, heq⟩ := List.mem_map.mp hmem
        exact (hrest.2 y hy).1 heq

/-- The keys of the items without a parent. -/
def rootKeys (items : List T) (id : T → K) (parent : T → Option K) : List K :=
  (items.filter fun x => parent x = none).map id

/-- The keys of the items under a key. -/
def childKeys (items : List T) (id : T → K) (parent : T → Option K) (k : K) :
    List K :=
  (items.filter fun x => parent x = some k).map id

theorem link_ok (id : T → K) (nodes : Nodes K T) (roots : List K)
    (h : ∀ x ∈ items, ∀ k, parent x = some k → k ∈ nodes) :
    ∃ nodes', link id parent items nodes roots =
        .ok (nodes', roots ++ rootKeys items id parent) ∧
      ∀ k, nodes'.lookup k = (nodes.lookup k).map fun cell =>
        { cell with
          children := cell.children ++ childKeys items id parent k } := by
  induction items generalizing nodes roots with
  | nil =>
      refine ⟨nodes, by simp [link, rootKeys], fun k => ?_⟩
      cases nodes.lookup k <;> simp [childKeys]
  | cons x xs ih =>
      rw [List.forall_mem_cons] at h
      rw [link]
      cases hparent : parent x with
      | none =>
          obtain ⟨nodes', hlink, hlookup⟩ := ih nodes (roots ++ [id x]) h.2
          refine ⟨nodes', ?_, fun k => ?_⟩
          · simp [hlink, rootKeys, hparent]
          · simp [hlookup, childKeys, hparent]
      | some p =>
          obtain ⟨cell, hcell⟩ := Option.isSome_iff_exists.mp
            (AList.lookup_isSome.mpr (h.1 p hparent))
          obtain ⟨nodes', hlink, hlookup⟩ := ih
            (nodes.insert p
              { cell with children := cell.children ++ [id x] }) roots
            fun y hy k hk => (AList.mem_insert _).mpr (Or.inr (h.2 y hy k hk))
          refine ⟨nodes', ?_, fun k => ?_⟩
          · simp [hcell, hlink, rootKeys, hparent]
          · rw [hlookup k]
            by_cases hk : k = p
            · subst hk
              simp [hcell, childKeys, hparent]
            · simp [AList.lookup_insert_ne hk, childKeys, hparent,
                Ne.symm hk]

theorem link_missing {nodes : Nodes K T} {roots : List K}
    (h : ∃ x ∈ items, ∃ k, parent x = some k ∧ k ∉ nodes) :
    link id parent items nodes roots = .error errMissingParent := by
  induction items generalizing nodes roots with
  | nil =>
      obtain ⟨x, hx, _⟩ := h
      cases hx
  | cons x xs ih =>
      rw [link]
      cases hparent : parent x with
      | none =>
          refine ih ?_
          obtain ⟨y, hy, k, hk, hmissing⟩ := h
          rcases List.mem_cons.mp hy with rfl | hy
          · rw [hparent] at hk
            cases hk
          · exact ⟨y, hy, k, hk, hmissing⟩
      | some p =>
          dsimp only
          cases hcell : nodes.lookup p with
          | none => rfl
          | some cell =>
              refine ih ?_
              have hp : p ∈ nodes := by
                rw [← AList.lookup_isSome, hcell]
                rfl
              obtain ⟨y, hy, k, hk, hmissing⟩ := h
              have hkp : k ≠ p := fun heq => hmissing (heq ▸ hp)
              rcases List.mem_cons.mp hy with rfl | hy
              · rw [hparent] at hk
                exact absurd (Option.some.inj hk).symm hkp
              · refine ⟨y, hy, k, hk, fun hmem => ?_⟩
                rcases (AList.mem_insert _).mp hmem with heq | hmem
                · exact hkp heq
                · exact hmissing hmem

/-! ## The cycle check -/

/-- Following parents from an item leads to a root. -/
inductive Rooted (items : List T) (id : T → K) (parent : T → Option K) :
    T → Prop
  | root {x : T} (h : parent x = none) : Rooted items id parent x
  | under {x p : T} (hp : p ∈ items) (h : parent x = some (id p))
      (hrest : Rooted items id parent p) : Rooted items id parent x

theorem parentsOf_keys_length (parents : AList fun _ : K => K) :
    (parentsOf id parent items parents).keys.length ≤
      items.length + parents.keys.length := by
  induction items generalizing parents with
  | nil => simp [parentsOf]
  | cons x xs ih =>
      rw [parentsOf]
      cases parent x with
      | none =>
          have hle := ih parents
          dsimp only
          rw [List.length_cons]
          omega
      | some p =>
          have hle := ih (parents.insert (id x) p)
          have hinsert : (parents.insert (id x) p).keys.length ≤
              parents.keys.length + 1 := by
            rw [AList.keys_insert, List.length_cons]
            exact Nat.add_le_add_right (List.length_erase_le ..) 1
          dsimp only
          rw [List.length_cons]
          omega

theorem lookup_parentsOf (hnodup : (items.map id).Nodup)
    (parents : AList fun _ : K => K) (k : K) :
    (parentsOf id parent items parents).lookup k =
      ((itemAt items id k).bind parent).or (parents.lookup k) := by
  induction items generalizing parents with
  | nil => rfl
  | cons x xs ih =>
      rw [List.map_cons, List.nodup_cons] at hnodup
      rw [parentsOf]
      by_cases hk : id x = k
      · subst hk
        rw [itemAt_cons_self]
        cases hparent : parent x with
        | none =>
            dsimp only
            rw [ih hnodup.2, itemAt_eq_none.mpr hnodup.1, Option.bind_some,
              hparent]
            rfl
        | some p =>
            dsimp only
            rw [ih hnodup.2, itemAt_eq_none.mpr hnodup.1,
              AList.lookup_insert, Option.bind_some, hparent]
            rfl
      · rw [itemAt_cons_ne hk]
        cases hparent : parent x with
        | none => exact ih hnodup.2 parents
        | some p =>
            dsimp only
            rw [ih hnodup.2, AList.lookup_insert_ne (Ne.symm hk)]

theorem anyCycle_eq {fuel : Nat} {parents : AList fun _ : K => K}
    (hfuel : parents.keys.length < fuel) :
    ∃ found, anyCycle fuel id parents items = some found ∧
      (found = true ↔ ∃ x ∈ items, ¬ Ends parents.lookup (id x)) := by
  induction items with
  | nil => exact ⟨false, rfl, by simp⟩
  | cons x xs ih =>
      have hkeys : ∀ k k', parents.lookup k = some k' → k ∈ parents.keys := by
        intro k k' hk
        rw [← AList.mem_keys, ← AList.lookup_isSome, hk]
        rfl
      have hcovered : parents.keys.length < fuel + ([] : List K).length := by
        simpa using hfuel
      obtain ⟨met, hmet, hends⟩ :=
        chase_eq hkeys (Trail.nil (id x)) hcovered
      rw [anyCycle, hmet]
      cases met with
      | true =>
          exact ⟨true, rfl, by simpa using Or.inl (hends.mp rfl)⟩
      | false =>
          obtain ⟨found, hfound, hiff⟩ := ih
          have hx : Ends parents.lookup (id x) := by simpa using hends
          exact ⟨found, hfound, by simp [hiff, hx]⟩

/-- The check comes to its end on any items. -/
theorem hasCycle_eq (id : T → K) (parent : T → Option K) {fuel : Nat}
    (hfuel : items.length < fuel) :
    ∃ found, hasCycle fuel items id parent = some found ∧
      (found = true ↔ ∃ x ∈ items,
        ¬ Ends (parentsOf id parent items ∅).lookup (id x)) := by
  refine anyCycle_eq ?_
  have hle : (parentsOf id parent items ∅).keys.length ≤ items.length + 0 :=
    parentsOf_keys_length ∅
  omega

/-- The parent links of items with distinct ids. -/
def parentLink (items : List T) (id : T → K) (parent : T → Option K)
    (k : K) : Option K :=
  (itemAt items id k).bind parent

theorem parentLink_id (hnodup : (items.map id).Nodup) {x : T}
    (hx : x ∈ items) : parentLink items id parent (id x) = parent x := by
  rw [parentLink, itemAt_id hnodup hx, Option.bind_some]

/-- Every parent is there. -/
def Linked (items : List T) (id : T → K) (parent : T → Option K) : Prop :=
  ∀ x ∈ items, ∀ k, parent x = some k → k ∈ items.map id

theorem rooted_iff (hnodup : (items.map id).Nodup)
    (hlinked : Linked items id parent) {x : T} (hx : x ∈ items) :
    Rooted items id parent x ↔ Ends (parentLink items id parent) (id x) := by
  constructor
  · intro h
    induction h with
    | root h =>
        exact ⟨0, .last (by rw [parentLink_id hnodup hx, h])⟩
    | under hp h _ ih =>
        refine (ends_of_link ?_).mpr (ih hp)
        rw [parentLink_id hnodup hx, h]
  · rintro ⟨n, hn⟩
    induction n generalizing x with
    | zero =>
        cases hn with
        | last hnone =>
            rw [parentLink_id hnodup hx] at hnone
            exact .root hnone
    | succ n ih =>
        cases hn with
        | step hlink hrest =>
            rw [parentLink_id hnodup hx] at hlink
            obtain ⟨p, hp, rfl⟩ := List.mem_map.mp (hlinked x hx _ hlink)
            exact .under hp hlink (ih hp hrest)

theorem lookup_parentsOf_empty (hnodup : (items.map id).Nodup) :
    (parentsOf id parent items ∅).lookup = parentLink items id parent := by
  funext k
  rw [lookup_parentsOf hnodup, AList.lookup_empty, Option.or_none,
    parentLink]

theorem hasCycle_iff {fuel : Nat} (hfuel : items.length < fuel)
    (hnodup : (items.map id).Nodup) (hlinked : Linked items id parent) :
    ∃ found, hasCycle fuel items id parent = some found ∧
      (found = true ↔ ∃ x ∈ items, ¬ Rooted items id parent x) := by
  obtain ⟨found, hfound, hiff⟩ := hasCycle_eq id parent hfuel
  refine ⟨found, hfound, ?_⟩
  rw [hiff, lookup_parentsOf_empty hnodup]
  refine exists_congr fun x => and_congr_right fun hx => ?_
  rw [rooted_iff hnodup hlinked hx]

/-! ## The answer -/

/-- The heap of a forest: every key holds its item, with the items under the
key for children. -/
def Holds (items : List T) (id : T → K) (parent : T → Option K)
    (nodes : Nodes K T) : Prop :=
  ∀ k, nodes.lookup k = (itemAt items id k).map fun x =>
    { value := x, children := childKeys items id parent k }

/-- The items are a forest. -/
structure IsForest (items : List T) (id : T → K) (parent : T → Option K) :
    Prop where
  nodup : (items.map id).Nodup
  linked : Linked items id parent
  rooted : ∀ x ∈ items, Rooted items id parent x

theorem build_duplicate {fuel : Nat} (h : ¬ (items.map id).Nodup) :
    build fuel items id parent = some (.error errDuplicateID) := by
  have hadd : addNodes id items (∅ : Nodes K T) = .error errDuplicateID :=
    addNodes_duplicate fun hok => h hok.1
  rw [build, hadd]

/-- Both loops on items with distinct ids. -/
theorem loops_ok (parent : T → Option K) (hnodup : (items.map id).Nodup) :
    ∃ nodes : Nodes K T, addNodes id items ∅ = .ok nodes ∧
      (∀ k, k ∈ nodes ↔ k ∈ items.map id) ∧
      (Linked items id parent → ∃ nodes', Holds items id parent nodes' ∧
        link id parent items nodes [] =
          .ok (nodes', rootKeys items id parent)) := by
  obtain ⟨nodes, hadd, hlookup⟩ := addNodes_ok ∅ hnodup (by simp)
  have hmem : ∀ k, k ∈ nodes ↔ k ∈ items.map id := by
    intro k
    rw [← AList.lookup_isSome, hlookup, AList.lookup_empty, Option.or_none,
      Option.isSome_map, ← not_iff_not, ← itemAt_eq_none,
      Option.not_isSome_iff_eq_none]
  refine ⟨nodes, hadd, hmem, fun hlinked => ?_⟩
  obtain ⟨nodes', hlink, hlookup'⟩ := link_ok id nodes []
    fun x hx k hk => (hmem k).mpr (hlinked x hx k hk)
  refine ⟨nodes', fun k => ?_, hlink⟩
  rw [hlookup', hlookup, AList.lookup_empty, Option.or_none,
    Option.map_map]
  rfl

theorem build_missing {fuel : Nat} (hnodup : (items.map id).Nodup)
    (h : ¬ Linked items id parent) :
    build fuel items id parent = some (.error errMissingParent) := by
  obtain ⟨nodes, hadd, hmem, _⟩ := loops_ok parent hnodup
  have hmissing : ∃ x ∈ items, ∃ k, parent x = some k ∧ k ∉ nodes := by
    simp only [Linked, not_forall] at h
    obtain ⟨x, hx, k, hk, hnot⟩ := h
    exact ⟨x, hx, k, hk, fun hin => hnot ((hmem k).mp hin)⟩
  simp only [build, hadd, link_missing hmissing]

theorem build_cycle {fuel : Nat} (hfuel : items.length < fuel)
    (hnodup : (items.map id).Nodup) (hlinked : Linked items id parent)
    (h : ∃ x ∈ items, ¬ Rooted items id parent x) :
    build fuel items id parent = some (.error errCycle) := by
  obtain ⟨nodes, hadd, _, hlink⟩ := loops_ok parent hnodup
  obtain ⟨nodes', _, hlink⟩ := hlink hlinked
  obtain ⟨found, hfound, hiff⟩ := hasCycle_iff hfuel hnodup hlinked
  obtain rfl : found = true := hiff.mpr h
  simp only [build, hadd, hlink, hfound]

theorem build_ok {fuel : Nat} (hfuel : items.length < fuel)
    (h : IsForest items id parent) :
    ∃ nodes, Holds items id parent nodes ∧
      build fuel items id parent =
        some (.ok (nodes, rootKeys items id parent)) := by
  obtain ⟨nodes, hadd, _, hlink⟩ := loops_ok parent h.nodup
  obtain ⟨nodes', hholds, hlink⟩ := hlink h.linked
  obtain ⟨found, hfound, hiff⟩ := hasCycle_iff hfuel h.nodup h.linked
  have hnone : found = false := by
    rw [← Bool.not_eq_true, hiff]
    rintro ⟨x, hx, hnot⟩
    exact hnot (h.rooted x hx)
  subst hnone
  exact ⟨nodes', hholds, by simp only [build, hadd, hlink, hfound]⟩

theorem build_cases {fuel : Nat} (id : T → K) (parent : T → Option K)
    (hfuel : items.length < fuel) :
    (¬ (items.map id).Nodup ∧
      build fuel items id parent = some (.error errDuplicateID)) ∨
    ((items.map id).Nodup ∧ ¬ Linked items id parent ∧
      build fuel items id parent = some (.error errMissingParent)) ∨
    ((items.map id).Nodup ∧ Linked items id parent ∧
      (∃ x ∈ items, ¬ Rooted items id parent x) ∧
      build fuel items id parent = some (.error errCycle)) ∨
    (IsForest items id parent ∧ ∃ nodes, Holds items id parent nodes ∧
      build fuel items id parent =
        some (.ok (nodes, rootKeys items id parent))) := by
  by_cases hnodup : (items.map id).Nodup
  · refine Or.inr ?_
    by_cases hlinked : Linked items id parent
    · refine Or.inr ?_
      by_cases hrooted : ∀ x ∈ items, Rooted items id parent x
      · have hforest : IsForest items id parent := ⟨hnodup, hlinked, hrooted⟩
        exact Or.inr ⟨hforest, build_ok hfuel hforest⟩
      · simp only [not_forall] at hrooted
        obtain ⟨x, hx, hnot⟩ := hrooted
        exact Or.inl ⟨hnodup, hlinked, ⟨x, hx, hnot⟩,
          build_cycle hfuel hnodup hlinked ⟨x, hx, hnot⟩⟩
    · exact Or.inl ⟨hnodup, hlinked, build_missing hnodup hlinked⟩
  · exact Or.inl ⟨hnodup, build_duplicate hnodup⟩

theorem build_eq_ok {fuel : Nat} {nodes : Nodes K T} {roots : List K}
    (hfuel : items.length < fuel)
    (h : build fuel items id parent = some (.ok (nodes, roots))) :
    IsForest items id parent ∧ Holds items id parent nodes ∧
      rootKeys items id parent = roots := by
  rcases build_cases id parent hfuel with ⟨_, hbuild⟩ | ⟨_, _, hbuild⟩ |
    ⟨_, _, _, hbuild⟩ | ⟨hforest, nodes', hholds, hbuild⟩ <;>
    rw [hbuild] at h <;> cases h
  exact ⟨hforest, hholds, rfl⟩

/-- `Build` returns, and so does `hasCycle`, whatever the items are. It
refuses items that share an id, then items whose parent is not there, then
items that do not lead to a root, and it takes all others. -/
theorem build_decides {fuel : Nat} (hfuel : items.length < fuel) :
    (∃ found, hasCycle fuel items id parent = some found) ∧
    (build fuel items id parent = some (.error errDuplicateID) ↔
      ¬ (items.map id).Nodup) ∧
    ((items.map id).Nodup →
      (build fuel items id parent = some (.error errMissingParent) ↔
        ∃ x ∈ items, ∃ k, parent x = some k ∧ ∀ y ∈ items, id y ≠ k)) ∧
    ((items.map id).Nodup →
      (∀ x ∈ items, ∀ k, parent x = some k → ∃ y ∈ items, id y = k) →
      (build fuel items id parent = some (.error errCycle) ↔
        ∃ x ∈ items, ¬ Rooted items id parent x)) ∧
    ((items.map id).Nodup →
      (∀ x ∈ items, ∀ k, parent x = some k → ∃ y ∈ items, id y = k) →
      (∀ x ∈ items, Rooted items id parent x) →
      ∃ built, build fuel items id parent = some (.ok built)) := by
  have hlinked : (∀ x ∈ items, ∀ k, parent x = some k →
      ∃ y ∈ items, id y = k) ↔ Linked items id parent := by
    simp [Linked]
  have hmissing : (∃ x ∈ items, ∃ k, parent x = some k ∧
      ∀ y ∈ items, id y ≠ k) ↔ ¬ Linked items id parent := by
    simp [Linked]
  obtain ⟨found, hfound, _⟩ := hasCycle_eq id parent hfuel
  refine ⟨⟨found, hfound⟩, ?_⟩
  rw [hlinked, hmissing]
  rcases build_cases id parent hfuel with ⟨hdup, hbuild⟩ |
    ⟨hnodup, hnot, hbuild⟩ | ⟨hnodup, hlinked, hcycle, hbuild⟩ |
    ⟨hforest, nodes, _, hbuild⟩
  · simp [hbuild, hdup]
  · simp [hbuild, hnodup, hnot, errDuplicateID, errMissingParent]
  · obtain ⟨x, hx, hx'⟩ := hcycle
    refine ⟨?_, fun _ => ?_, fun _ _ => ?_, fun _ _ hall =>
      absurd (hall x hx) hx'⟩
    · simp [hbuild, hnodup, errDuplicateID, errCycle]
    · simp [hbuild, hlinked, errMissingParent, errCycle]
    · simp only [hbuild, true_iff]
      exact ⟨x, hx, hx'⟩
  · refine ⟨?_, fun _ => ?_, fun _ _ => ?_, fun _ _ _ => ⟨_, hbuild⟩⟩
    · simp [hbuild, hforest.nodup]
    · simp [hbuild, hforest.linked]
    · simpa [hbuild] using hforest.rooted

/-- Records that name their parent, two of which name each other. -/
def mutualParents : List (Nat × Option Nat) :=
  [(3, none), (1, some 2), (2, some 1)]

theorem build_decides_mutual :
    build 4 mutualParents Prod.fst Prod.snd = some (.error errCycle) ∧
    ∃ x ∈ mutualParents, ¬ Rooted mutualParents Prod.fst Prod.snd x := by
  have hbuild : build 4 mutualParents Prod.fst Prod.snd =
      some (.error errCycle) := rfl
  obtain ⟨_, _, _, hcycle, _⟩ :=
    @build_decides Nat (Nat × Option Nat) _ Prod.fst Prod.snd mutualParents 4
      (by decide)
  exact ⟨hbuild, (hcycle (by decide) (by decide)).mp hbuild⟩

end PlatformGo.Tree
