import PlatformGo.Proofs.TreeForest

/-!
# The forests `Build` gives back

`Flatten` forgets where a node hangs, and `Build` finds it out again from the
parents. So it gives back just the forests whose nodes have different ids and
name the node they hang under (`build_flatten_iff`): whatever goes through the
list for the items under a key meets the children of the node with that key,
in their order, and nothing else (`Hung.shows`).
-/

namespace PlatformGo.Tree

variable {K T : Type} {id : T → K} {parent : T → Option K} {above : Option K}
  {forest : List (Node T)}

/-- Every node names the one it hangs under, and the roots name what is
`above`. -/
inductive Hung (id : T → K) (parent : T → Option K) :
    Option K → List (Node T) → Prop
  | nil {above : Option K} : Hung id parent above []
  | cons {above : Option K} {value : T} {children forest : List (Node T)}
      (hvalue : parent value = above)
      (hchildren : Hung id parent (some (id value)) children)
      (hforest : Hung id parent above forest) :
      Hung id parent above (.mk value children :: forest)

theorem Hung.parents (h : Hung id parent above forest) {x : T}
    (hx : x ∈ flatten forest) :
    parent x = above ∨ ∃ p ∈ flatten forest, parent x = some (id p) := by
  induction h with
  | nil => cases hx
  | @cons above value children forest hvalue _ _ ihc ihf =>
      rw [flatten_cons, List.mem_cons, List.mem_append] at hx
      rcases hx with rfl | hx | hx
      · exact .inl hvalue
      · rcases ihc hx with hroot | ⟨p, hp, hparent⟩
        · exact .inr ⟨value, by simp, hroot⟩
        · exact .inr ⟨p, by simp [hp], hparent⟩
      · rcases ihf hx with hroot | ⟨p, hp, hparent⟩
        · exact .inl hroot
        · exact .inr ⟨p, by simp [hp], hparent⟩

/-- Going up from a node that hangs somewhere ends. -/
theorem Hung.rooted (h : Hung id parent above forest) {items : List T}
    (hitems : ∀ x ∈ flatten forest, x ∈ items)
    (habove : ∀ x, parent x = above → Rooted items id parent x) :
    ∀ x ∈ flatten forest, Rooted items id parent x := by
  induction h with
  | nil => simp
  | @cons above value children forest hvalue _ _ ihc ihf =>
      simp only [flatten_cons, List.mem_cons, List.mem_append] at hitems ⊢
      rintro x (rfl | hx | hx)
      · exact habove x hvalue
      · refine ihc (fun y hy => hitems y (.inr (.inl hy))) ?_ x hx
        exact fun y hy => .under (hitems value (.inl rfl)) hy
          (habove value hvalue)
      · exact ihf (fun y hy => hitems y (.inr (.inr hy))) habove x hx

theorem Hung.isForest (h : Hung id parent none forest)
    (hnodup : ((flatten forest).map id).Nodup) :
    IsForest (flatten forest) id parent := by
  have hrooted := h.rooted (fun _ hx => hx) fun _ hx => .root hx
  refine ⟨hnodup, fun x hx k hk => ?_, hrooted⟩
  cases hrooted x hx with
  | root hnone => simp [hnone] at hk
  | @under _ p hp hparent _ =>
      rw [hparent, Option.some.injEq] at hk
      exact hk ▸ List.mem_map_of_mem hp

variable [DecidableEq K]

/-! ## The items under a key -/

theorem Hung.filter_other (h : Hung id parent above forest) {q : Option K}
    (habove : above ≠ q) (hother : ∀ x ∈ flatten forest, some (id x) ≠ q) :
    ((flatten forest).filter fun x => parent x = q) = [] := by
  refine List.filter_eq_nil_iff.mpr fun x hx => ?_
  rw [decide_eq_true_eq]
  intro hq
  rcases h.parents hx with hroot | ⟨p, hp, hparent⟩
  · exact habove (hroot.symm.trans hq)
  · exact hother p hp (hparent.symm.trans hq)

theorem Hung.filter_roots (h : Hung id parent above forest)
    (habove : ∀ x ∈ flatten forest, some (id x) ≠ above) :
    ((flatten forest).filter fun x => parent x = above) =
      forest.map Node.value := by
  induction h with
  | nil => rfl
  | @cons above value children forest hvalue hchildren _ _ ihf =>
      simp only [flatten_cons, List.mem_cons, List.mem_append] at habove ⊢
      rw [List.filter_cons_of_pos (by simpa using hvalue), List.filter_append,
        hchildren.filter_other (habove value (.inl rfl))
          fun x hx => habove x (.inr (.inl hx)),
        ihf fun x hx => habove x (.inr (.inr hx))]
      rfl

/-- The heap of a list shows a forest the list has, if the items under the
nodes of the forest are all in the forest. -/
theorem Hung.shows (h : Hung id parent above forest) {items : List T}
    (hitems : (items.map id).Nodup) {nodes : Nodes K T}
    (hholds : Holds items id parent nodes)
    (hmem : ∀ x ∈ flatten forest, x ∈ items)
    (hnodup : ((flatten forest).map id).Nodup)
    (habove : ∀ x ∈ flatten forest, some (id x) ≠ above)
    (hbelow : ∀ x ∈ flatten forest, childrenOf items id parent x =
      childrenOf (flatten forest) id parent x) :
    List.Forall₂ (Shows nodes) (forest.map fun node => id node.value)
      forest := by
  induction h with
  | nil => exact .nil
  | @cons above value children forest hvalue hchildren hforest ihc ihf =>
      simp only [flatten_cons, List.mem_cons, List.mem_append]
        at hmem habove hbelow
      simp only [flatten_cons, List.map_cons, List.map_append,
        List.nodup_cons, List.nodup_append, List.mem_append, List.mem_map,
        not_or, not_exists, not_and] at hnodup
      obtain ⟨⟨hnewc, hnewf⟩, hnodupc, hnodupf, hapart⟩ := hnodup
      -- The key of a node is none of the keys elsewhere in the forest.
      have hc : ∀ x ∈ flatten children, some (id x) ≠ some (id value) :=
        fun x hx heq => hnewc x hx (Option.some.inj heq)
      have hf : ∀ x ∈ flatten forest, some (id x) ≠ some (id value) :=
        fun x hx heq => hnewf x hx (Option.some.inj heq)
      have hcf : ∀ x ∈ flatten children, ∀ y ∈ flatten forest,
          some (id x) ≠ some (id y) := fun x hx y hy heq =>
        hapart _ ⟨x, hx, rfl⟩ _ ⟨y, hy, rfl⟩ (Option.some.inj heq)
      have hsplit : ∀ x,
          x = value ∨ x ∈ flatten children ∨ x ∈ flatten forest →
          childrenOf items id parent x =
            childrenOf (flatten children) id parent x ++
              childrenOf (flatten forest) id parent x := by
        intro x hx
        have hne : parent value ≠ some (id x) := fun heq =>
          habove x hx (heq.symm.trans hvalue)
        rw [hbelow x hx, childrenOf,
          List.filter_cons_of_neg (by simpa using hne), List.filter_append]
        rfl
      have hcell : nodes.lookup (id value) =
          some ⟨value, children.map fun node => id node.value⟩ := by
        have hown : childrenOf items id parent value =
            children.map Node.value := by
          rw [hsplit value (.inl rfl), childrenOf, childrenOf,
            hchildren.filter_roots hc,
            hforest.filter_other (habove value (.inl rfl)).symm hf,
            List.append_nil]
        rw [hholds, itemAt_id hitems (hmem value (.inl rfl))]
        show some (Cell.mk value ((childrenOf items id parent value).map id)) = _
        rw [hown, List.map_map]
        rfl
      refine .cons (.mk hcell (ihc ?_ hnodupc hc ?_)) (ihf ?_ hnodupf ?_ ?_)
      · exact fun x hx => hmem x (.inr (.inl hx))
      · intro x hx
        rw [hsplit x (.inr (.inl hx)), childrenOf, childrenOf,
          hforest.filter_other (habove x (.inr (.inl hx))).symm
            fun y hy => (hcf x hx y hy).symm, List.append_nil]
      · exact fun x hx => hmem x (.inr (.inr hx))
      · exact fun x hx => habove x (.inr (.inr hx))
      · intro x hx
        rw [hsplit x (.inr (.inr hx)), childrenOf, childrenOf,
          hchildren.filter_other (hf x hx).symm fun y hy => hcf y hy x hx,
          List.nil_append]

/-! ## There and back -/

omit [DecidableEq K] in
theorem hung_map {below : T → List (Node T)} {xs : List T}
    (hxs : ∀ x ∈ xs, parent x = above)
    (hbelow : ∀ x ∈ xs, Hung id parent (some (id x)) (below x)) :
    Hung id parent above (xs.map fun x => .mk x (below x)) := by
  induction xs with
  | nil => exact .nil
  | cons x xs ih =>
      simp only [List.mem_cons, forall_eq_or_imp] at hxs hbelow
      exact .cons hxs.1 hbelow.1 (ih hxs.2 hbelow.2)

theorem hung_grow {items : List T} (levels : Nat) {xs : List T}
    (hxs : ∀ x ∈ xs, parent x = above) :
    Hung id parent above (xs.map (grow items id parent levels)) := by
  induction levels generalizing xs above with
  | zero => exact hung_map hxs fun _ _ => .nil
  | succ levels ih =>
      refine hung_map hxs fun x _ => ih fun y hy => ?_
      simpa using (List.mem_filter.mp hy).2

/-- `Build` makes a forest again of its list if and only if the ids are
different and every node names the one it hangs under. -/
theorem build_flatten_iff (id : T → K) (parent : T → Option K)
    (forest : List (Node T)) {fuel : Nat}
    (hfuel : (flatten forest).length < fuel) :
    (∃ nodes roots, build fuel (flatten forest) id parent =
        some (.ok (nodes, roots)) ∧
      ∀ shown, List.Forall₂ (Shows nodes) roots shown ↔ shown = forest) ↔
    ((flatten forest).map id).Nodup ∧ Hung id parent none forest := by
  constructor
  · rintro ⟨nodes, roots, hbuild, hshown⟩
    obtain ⟨hforest, hholds, rfl⟩ := build_eq_ok hfuel hbuild
    obtain ⟨levels, hcovers⟩ := depth_bounded hforest
    refine ⟨hforest.nodup, ?_⟩
    rw [(shows_forest hforest hholds hcovers forest).mp
      ((hshown forest).mpr rfl)]
    exact hung_grow levels fun x hx => (mem_rootsOf.mp hx).2
  · rintro ⟨hnodup, hhung⟩
    have hforest := hhung.isForest hnodup
    obtain ⟨nodes, hholds, hbuild⟩ := build_ok hfuel hforest
    have hshows := hhung.shows hnodup hholds (fun _ hx => hx) hnodup (by simp)
      fun _ _ => rfl
    have hroots : rootKeys (flatten forest) id parent =
        forest.map fun node => id node.value := by
      rw [rootKeys, hhung.filter_roots (by simp), List.map_map]
      rfl
    refine ⟨nodes, _, hbuild, fun shown => ?_⟩
    rw [hroots]
    constructor
    · exact fun h => shows_unique shown _ _ h hshows
    · rintro rfl
      exact hshows

def menu : List (Node (Nat × Option Nat)) :=
  [.mk (1, none) [.mk (2, some 1) []], .mk (3, none) []]

theorem build_flatten_iff_menu : ∃ nodes roots,
    build 4 [(1, none), (2, some 1), (3, none)] Prod.fst Prod.snd =
      some (.ok (nodes, roots)) ∧
    ∀ shown, List.Forall₂ (Shows nodes) roots shown ↔ shown = menu :=
  (build_flatten_iff Prod.fst Prod.snd menu (by decide)).mpr
    ⟨by decide, .cons rfl (.cons rfl .nil .nil) (.cons rfl .nil .nil)⟩

end PlatformGo.Tree
