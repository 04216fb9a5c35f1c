import PlatformGo.Ref.Discovery

/-!
# What a persisted snapshot hands on

An instance comes to a caller by a short way: the registry reports it to a
query, it stands in a snapshot, it may be written to a file and be read from
it again, and it is handed out of a snapshot. `Moves` says that no step of a
fleet offers any other way.

The file is the only place where two discoveries meet, and its name is made
from the service name alone. So what a discovery hands out was reported to its
own query exactly when two discoveries that share a file share the query.
Where they do not, three steps are enough for a leak (`leak`).
-/

namespace PlatformGo.ServiceRegistry

open ChangeLog Lts

/-! ## One discovery -/

/-- The instance stands in the discovery's snapshot. -/
def Discovery.Holds (d : Discovery) (v : ServiceInstance) : Prop :=
  ∃ s, d.snapshot = some s ∧ v ∈ s.instances

theorem holds_of_available {d : Discovery} {now : Time} {s : Snapshot}
    {clock : Nat → Time} {v : ServiceInstance} (hs : d.fresh now = some s)
    (h : v ∈ d.available clock s) : d.Holds v := by
  refine ⟨s, (Option.filter_eq_some_iff.mp hs).1, ?_⟩
  obtain ⟨p, hp, rfl⟩ := List.mem_map.mp h
  exact List.fst_mem_of_mem_zipIdx (List.mem_filter.mp hp).1

theorem holds_of_instances {d : Discovery} {clock : Nat → Time}
    {values : List ServiceInstance} {v : ServiceInstance}
    (h : d.instances clock = .ok values) (hv : v ∈ values) : d.Holds v := by
  rw [Discovery.instances] at h
  split at h
  · cases h
  · rename_i s hs
    split at h
    · cases h
    · cases h
      exact holds_of_available hs hv

theorem mem_of_mem_repeated {v value : ServiceInstance}
    (h : v ∈ repeated value) : v = value :=
  List.eq_of_mem_replicate h

theorem pick_spec {d d' : Discovery} {clock : Nat → Time}
    {v : ServiceInstance} (h : d.pick clock = .ok (d', v)) :
    d.Holds v ∧ d'.config = d.config ∧ d'.snapshot = d.snapshot := by
  rw [Discovery.pick] at h
  split at h
  · cases h
  · rename_i s hs
    simp only [] at h
    split at h
    · cases h
    · rename_i value hvalue
      cases h
      obtain ⟨value', hvalue', hrep⟩ :=
        List.mem_flatMap.mp (List.mem_of_getElem? hvalue)
      rw [mem_of_mem_repeated hrep]
      exact ⟨holds_of_available hs hvalue', rfl, rfl⟩

/-- What the map holds comes from the list or from a change. -/
theorem lookup_applyChange {values : AList fun _ : String => ServiceInstance}
    {c : InstanceChange} {k : String} {v : ServiceInstance}
    (h : (applyChange values c).lookup k = some v) :
    values.lookup k = some v ∨ c.inst = some v := by
  rw [applyChange] at h
  split at h
  · by_cases hk : k = c.instanceId
    · rw [hk, AList.lookup_erase] at h
      cases h
    · rw [AList.lookup_erase_ne hk] at h
      exact Or.inl h
  · split at h
    · rename_i value hvalue
      by_cases hk : k = c.instanceId
      · rw [hk, AList.lookup_insert] at h
        exact Or.inr (hvalue.trans h)
      · rw [AList.lookup_insert_ne hk] at h
        exact Or.inl h
    · exact Or.inl h

theorem lookup_foldl_applyChange
    {values : AList fun _ : String => ServiceInstance}
    {changes : List InstanceChange} {k : String} {v : ServiceInstance}
    (h : (changes.foldl applyChange values).lookup k = some v) :
    values.lookup k = some v ∨ ∃ c ∈ changes, c.inst = some v := by
  induction changes generalizing values with
  | nil => exact Or.inl h
  | cons c changes ih =>
      rcases ih h with hvalues | ⟨c', hc', hinst⟩
      · rcases lookup_applyChange hvalues with hold | hinst
        · exact Or.inl hold
        · exact Or.inr ⟨c, List.mem_cons_self, hinst⟩
      · exact Or.inr ⟨c', List.mem_cons_of_mem _ hc', hinst⟩

theorem holds_of_values {d : Discovery} {k : String} {v : ServiceInstance}
    (h : d.values.lookup k = some v) : d.Holds v := by
  rw [Discovery.values] at h
  split at h
  · rw [AList.lookup_empty] at h
    cases h
  · rename_i s hs
    refine ⟨s, hs, ?_⟩
    rw [lookup_foldl_insert, after] at h
    split at h
    · rename_i c hc
      have hmem := List.mem_reverse.mp (List.mem_of_find?_eq_some hc)
      obtain ⟨value, hvalue, rfl⟩ := List.mem_map.mp hmem
      cases h
      exact hvalue
    · rw [AList.lookup_empty] at h
      cases h

theorem apply_holds {d d' : Discovery} {response : WatchServiceResponse}
    {now : Time} {order : List ServiceInstance}
    (h : d.apply response now order = some d') :
    d'.config = d.config ∧
      ∀ v, d'.Holds v → d.Holds v ∨ v ∈ response.reported := by
  simp only [Discovery.apply, Option.ite_none_right_eq_some,
    Option.some.injEq] at h
  obtain ⟨hperm, rfl⟩ := h
  refine ⟨rfl, fun v hv => ?_⟩
  obtain ⟨s, hs, hmem⟩ := hv
  cases hs
  have hentry := hperm.mem_iff.mp ((sortBy_perm _ _).mem_iff.mp hmem)
  obtain ⟨e, he, rfl⟩ := List.mem_map.mp hentry
  rcases lookup_foldl_applyChange (AList.mem_lookup_iff.mpr he) with
    hold | ⟨c, hc, hinst⟩
  · exact Or.inl (holds_of_values hold)
  · exact Or.inr (List.mem_filterMap.mpr ⟨c, hc, hinst⟩)

/-! ## One step of a fleet -/

/-- The registry has reported the instance to the query. -/
def Fleet.Reported (f : Fleet) (q : Query) (v : ServiceInstance) : Prop :=
  ∃ reported, (q, reported) ∈ f.reports ∧ v ∈ reported

/-- The instance stands in the file. -/
def Fleet.Stored (f : Fleet) (file : String) (v : ServiceInstance) : Prop :=
  ∃ s, f.files file = some s ∧ v ∈ s.instances

/-- The ways an instance takes in a step. -/
structure Moves (f f' : Fleet) : Prop where
  config : ∀ n, (f'.discoveries n).config = (f.discoveries n).config
  reports : f.reports <+: f'.reports
  held : ∀ n v, (f'.discoveries n).Holds v →
    (f.discoveries n).Holds v ∨
    f'.Reported (f.discoveries n).config.query v ∨
    ∃ file, (f.discoveries n).config.file = some file ∧ f.Stored file v
  stored : ∀ file v, f'.Stored file v →
    f.Stored file v ∨
    ∃ n, (f.discoveries n).config.file = some file ∧
      (f'.discoveries n).Holds v
  handed : ∀ n v, (n, v) ∈ f'.handed →
    (n, v) ∈ f.handed ∨ (f.discoveries n).Holds v

theorem Moves.refl (f : Fleet) : Moves f f where
  config _ := rfl
  reports := List.prefix_refl _
  held _ _ h := Or.inl h
  stored _ _ h := Or.inl h
  handed _ _ h := Or.inl h

theorem moves_hand {f f' : Fleet} {n : Nat} {values : List ServiceInstance}
    (h : Moves f f') (hv : ∀ v ∈ values, (f.discoveries n).Holds v) :
    Moves f (f'.hand n values) where
  config := h.config
  reports := h.reports
  held := h.held
  stored := h.stored
  handed m v hmem := by
    rcases List.mem_append.mp hmem with hold | hnew
    · exact h.handed m v hold
    · obtain ⟨value, hvalue, heq⟩ := List.mem_map.mp hnew
      cases heq
      exact Or.inr (hv v hvalue)

theorem persist_discoveries (f : Fleet) (n : Nat) (d : Discovery)
    (saved : Bool) :
    (f.persist n d saved).discoveries = Function.update f.discoveries n d := by
  unfold Fleet.persist
  split <;> rfl

theorem persist_reports (f : Fleet) (n : Nat) (d : Discovery) (saved : Bool) :
    (f.persist n d saved).reports = f.reports := by
  unfold Fleet.persist
  split <;> rfl

theorem persist_handed (f : Fleet) (n : Nat) (d : Discovery) (saved : Bool) :
    (f.persist n d saved).handed = f.handed := by
  unfold Fleet.persist
  split <;> rfl

theorem stored_of_persist {f : Fleet} {n : Nat} {d : Discovery} {saved : Bool}
    {file : String} {v : ServiceInstance}
    (h : (f.persist n d saved).Stored file v) :
    f.Stored file v ∨ d.config.file = some file ∧ d.Holds v := by
  obtain ⟨s, hs, hv⟩ := h
  unfold Fleet.persist at hs
  split at hs
  · rename_i name hname
    by_cases hfile : file = name
    · subst hfile
      simp only [Function.update_self] at hs
      exact Or.inr ⟨hname, s, hs, hv⟩
    · simp only [Function.update_of_ne hfile] at hs
      exact Or.inl ⟨s, hs, hv⟩
  · exact Or.inl ⟨s, hs, hv⟩

/-- A discovery with a new snapshot, put in place and perhaps saved, after the
registry may have reported something. -/
theorem moves_persist {f g : Fleet} {n : Nat} {d : Discovery} (saved : Bool)
    (hdisc : g.discoveries = f.discoveries) (hfiles : g.files = f.files)
    (hhanded : g.handed = f.handed) (hreports : f.reports <+: g.reports)
    (hconfig : d.config = (f.discoveries n).config)
    (hheld : ∀ v, d.Holds v → (f.discoveries n).Holds v ∨
      g.Reported (f.discoveries n).config.query v ∨
      ∃ file, (f.discoveries n).config.file = some file ∧
        f.Stored file v) :
    Moves f (g.persist n d saved) := by
  have hreported : ∀ q v, (g.persist n d saved).Reported q v ↔
      g.Reported q v := by
    intro q v
    rw [Fleet.Reported, persist_reports, Fleet.Reported]
  refine ⟨fun m => ?_, ?_, fun m v hv => ?_, fun file v hv => ?_,
    fun m v hv => ?_⟩
  · rw [persist_discoveries, hdisc]
    by_cases hm : m = n
    · subst hm
      rw [Function.update_self, hconfig]
    · rw [Function.update_of_ne hm]
  · rw [persist_reports]
    exact hreports
  · rw [persist_discoveries, hdisc] at hv
    rw [hreported]
    by_cases hm : m = n
    · subst hm
      rw [Function.update_self] at hv
      exact hheld v hv
    · rw [Function.update_of_ne hm] at hv
      exact Or.inl hv
  · rcases stored_of_persist hv with hold | ⟨hfile, hd⟩
    · rw [Fleet.Stored, hfiles] at hold
      exact Or.inl hold
    · refine Or.inr ⟨n, hconfig ▸ hfile, ?_⟩
      rw [persist_discoveries, Function.update_self]
      exact hd
  · rw [persist_handed, hhanded] at hv
    exact Or.inl hv

theorem persist_unsaved (f : Fleet) (n : Nat) (d : Discovery) :
    f.persist n d false = f.set n d := by
  unfold Fleet.persist
  split
  · contradiction
  · rfl

/-- A discovery whose snapshot is the old one or gone. -/
theorem moves_set {f : Fleet} {n : Nat} {d : Discovery}
    (hconfig : d.config = (f.discoveries n).config)
    (hheld : ∀ v, d.Holds v → (f.discoveries n).Holds v) :
    Moves f (f.set n d) := by
  rw [← persist_unsaved]
  exact moves_persist false rfl rfl rfl (List.prefix_refl _) hconfig
    fun v hv => Or.inl (hheld v hv)

theorem moves_step {f f' : Fleet} {a : Fleet.Action}
    (h : f.step a = some f') : Moves f f' := by
  cases a with
  | restart n =>
      cases h
      refine moves_set rfl fun v hv => ?_
      obtain ⟨s, hs, _⟩ := hv
      cases hs
  | restore n now saved =>
      simp only [Fleet.step] at h
      split at h
      · cases h
        exact Moves.refl f
      · rename_i s hs
        obtain ⟨file, hfile, hstored⟩ := Option.bind_eq_some_iff.mp hs
        split at h
        · cases h
          refine moves_persist saved rfl rfl rfl (List.prefix_refl _) rfl
            fun v hv => Or.inr (Or.inr ⟨file, hfile, s, hstored, ?_⟩)
          obtain ⟨s', hs', hmem⟩ := hv
          cases hs'
          exact hmem
        · cases h
          exact Moves.refl f
  | refresh n response now saved =>
      cases h
      refine moves_persist saved rfl rfl rfl (List.prefix_append _ _) rfl
        fun v hv => Or.inr (Or.inl ⟨response.instances, ?_, ?_⟩)
      · exact List.mem_append_right _ (List.mem_singleton_self _)
      · obtain ⟨s', hs', hmem⟩ := hv
        cases hs'
        exact hmem
  | apply n response now order saved =>
      obtain ⟨d, hd, rfl⟩ := Option.map_eq_some_iff.mp h
      obtain ⟨hconfig, hheld⟩ := apply_holds hd
      refine moves_persist saved rfl rfl rfl (List.prefix_append _ _) hconfig
        fun v hv => (hheld v hv).imp_right fun hrep =>
          Or.inl ⟨response.reported, ?_, hrep⟩
      exact List.mem_append_right _ (List.mem_singleton_self _)
  | pick n clock =>
      simp only [Fleet.step] at h
      split at h
      · cases h
        exact Moves.refl f
      · rename_i d v hpick
        cases h
        obtain ⟨hv, hconfig, hsnap⟩ := pick_spec hpick
        refine moves_hand (moves_set hconfig fun v' hv' => ?_)
          fun v' hv' => List.mem_singleton.mp hv' ▸ hv
        rwa [Discovery.Holds, hsnap] at hv'
  | instances n clock =>
      simp only [Fleet.step] at h
      split at h
      · cases h
        exact Moves.refl f
      · rename_i values hvalues
        cases h
        exact moves_hand (Moves.refl f) fun v hv =>
          holds_of_instances hvalues hv
  | reportFailure | reportSuccess =>
      cases h
      exact moves_set rfl fun v hv => hv

/-! ## Runs where a file belongs to one query -/

/-- Everything held, stored or handed out was reported to the right query. -/
structure Confined (configs : Nat → DiscoveryConfig) (f : Fleet) : Prop where
  config : ∀ n, (f.discoveries n).config = configs n
  held : ∀ n v, (f.discoveries n).Holds v → f.Reported (configs n).query v
  stored : ∀ n file v, (configs n).file = some file → f.Stored file v →
    f.Reported (configs n).query v
  handed : ∀ n v, (n, v) ∈ f.handed → f.Reported (configs n).query v

theorem confined_init (configs : Nat → DiscoveryConfig) :
    Confined configs (Fleet.init configs) where
  config _ := rfl
  held _ _ h := by
    obtain ⟨s, hs, _⟩ := h
    cases hs
  stored _ _ _ _ h := by
    obtain ⟨s, hs, _⟩ := h
    cases hs
  handed _ _ h := by cases h

theorem Moves.reported {f f' : Fleet} (h : Moves f f') {q : Query}
    {v : ServiceInstance} (hv : f.Reported q v) : f'.Reported q v := by
  obtain ⟨reported, hmem, hin⟩ := hv
  exact ⟨reported, h.reports.subset hmem, hin⟩

theorem confined_step {configs : Nat → DiscoveryConfig}
    (hfiles : ∀ n m file, (configs n).file = some file →
      (configs m).file = some file → (configs n).query = (configs m).query)
    (f : Fleet) (a : Fleet.Action) (f' : Fleet) (hf : Confined configs f)
    (h : f.step a = some f') : Confined configs f' := by
  have hmoves := moves_step h
  have hheld : ∀ n v, (f'.discoveries n).Holds v →
      f'.Reported (configs n).query v := by
    intro n v hv
    rcases hmoves.held n v hv with hold | hrep | ⟨file, hfile, hst⟩
    · exact hmoves.reported (hf.held n v hold)
    · rwa [hf.config] at hrep
    · rw [hf.config] at hfile
      exact hmoves.reported (hf.stored n file v hfile hst)
  refine ⟨fun n => (hmoves.config n).trans (hf.config n), hheld,
    fun n file v hfile hv => ?_, fun n v hv => ?_⟩
  · rcases hmoves.stored file v hv with hold | ⟨m, hm, hin⟩
    · exact hmoves.reported (hf.stored n file v hfile hold)
    · -- The file was written by another discovery, which has the same query.
      rw [hf.config] at hm
      rw [hfiles n m file hfile hm]
      exact hheld m v hin
  · rcases hmoves.handed n v hv with hold | hin
    · exact hmoves.reported (hf.handed n v hold)
    · exact hmoves.reported (hf.held n v hin)

/-! ## Two queries over one file -/

def healthyLeak : ServiceInstance :=
  { instanceId := "orders-blue-0", status := .healthy }

/-- One discovery is told of an instance and saves it; the other, started
afterwards, restores the file and is asked for its instances. -/
def leak (writer reader : Nat) (v : ServiceInstance) : List Fleet.Action :=
  [.refresh writer ⟨[v], 0⟩ 0 true, .restore reader 0 false,
   .instances reader fun _ => 0]

theorem persist_saved_files {f : Fleet} {n : Nat} {d : Discovery}
    {file : String} (h : d.config.file = some file) :
    (f.persist n d true).files file = d.snapshot := by
  simp only [Fleet.persist, h, Function.update_self]

theorem restore_step {f : Fleet} {m : Nat} {file : String} {s : Snapshot}
    {now : Time} (hfile : (f.discoveries m).config.file = some file)
    (hs : f.files file = some s)
    (hage : now - s.savedAt ≤ (f.discoveries m).config.maxStale) :
    f.step (.restore m now false) =
      some (f.set m ((f.discoveries m).replace s)) := by
  simp only [Fleet.step, hfile, Option.bind_some, hs, hage, if_true,
    persist_unsaved]

theorem instances_single {d : Discovery} {revision : Nat} {now : Time}
    {v : ServiceInstance} (hsnap : d.snapshot = some ⟨revision, now, [v]⟩)
    (hstale : 0 ≤ d.config.maxStale) (hejected : d.ejected = ∅)
    (hv : v.status = .healthy) :
    d.instances (fun _ => now) = .ok [v] := by
  have hfresh : d.fresh now = some ⟨revision, now, [v]⟩ := by
    simp [Discovery.fresh, hsnap, hstale]
  simp [Discovery.instances, hfresh, Discovery.available, Discovery.usable,
    hv, hejected]

theorem leak_run {configs : Nat → DiscoveryConfig} {n m : Nat} {file : String}
    (hn : (configs n).file = some file) (hm : (configs m).file = some file)
    (hstale : 0 ≤ (configs m).maxStale) {v : ServiceInstance}
    (hv : v.status = .healthy) (hne : m ≠ n) :
    ∃ f, run Fleet.step (Fleet.init configs) (leak n m v) = some f ∧
      f.handed = [(m, v)] ∧ f.reports = [((configs n).query, [v])] := by
  obtain ⟨f₁, hf₁⟩ : ∃ f₁, f₁ = ((Fleet.init configs).report n [v]).persist n
      (((Fleet.init configs).discoveries n).refresh ⟨[v], 0⟩ 0) true :=
    ⟨_, rfl⟩
  have hsaved : f₁.files file = some ⟨0, 0, [v]⟩ := by
    rw [hf₁, persist_saved_files (by exact hn)]
    rfl
  have hreader : f₁.discoveries m = { config := configs m } := by
    rw [hf₁, persist_discoveries, Function.update_of_ne hne]
    rfl
  have hrestored : f₁.step (.restore m 0 false) = some _ :=
    restore_step (by rw [hreader]; exact hm) hsaved
      (by rw [hreader]; simpa using hstale)
  have hheld : ((f₁.discoveries m).replace ⟨0, 0, [v]⟩).instances
      (fun _ => 0) = .ok [v] := by
    rw [hreader]
    exact instances_single rfl hstale rfl hv
  refine ⟨(f₁.set m ((f₁.discoveries m).replace ⟨0, 0, [v]⟩)).hand m [v],
    ?_, ?_, ?_⟩
  · refine run_cons.mpr ⟨f₁, by rw [hf₁]; rfl,
      run_cons.mpr ⟨_, hrestored, run_cons.mpr ⟨_, ?_, rfl⟩⟩⟩
    simp only [Fleet.step, Fleet.set, Function.update_self, hheld]
  · simp only [Fleet.hand, Fleet.set, hf₁, persist_handed]
    rfl
  · simp only [Fleet.hand, Fleet.set, hf₁, persist_reports]
    rfl

/-! ## The discoveries that share a store -/

theorem newDiscovery_spec {clientNil : Bool} {config : DiscoveryConfig}
    {d : Discovery} (h : newDiscovery clientNil config = .ok d) :
    d.config.query = config.query ∧ d.config.file = config.file ∧
      0 ≤ d.config.maxStale := by
  rw [newDiscovery] at h
  split at h
  · cases h
  · extract_lets maxStale refreshInterval at h
    split at h
    · cases h
    · rename_i hinterval
      cases h
      refine ⟨rfl, rfl, ?_⟩
      simp only [not_or, not_le] at hinterval
      exact le_of_lt (lt_trans hinterval.1 hinterval.2)

/-- Discoveries that `NewDiscovery` accepts and that share one store. What is
handed out by any of them, in any run, was reported to its own query if and
only if no two with different queries are given the same file name, which is
made from the service name alone. -/
theorem handed_reported_iff {store : FileSnapshotStore}
    {settings : Nat → DiscoveryConfig} {configs : Nat → DiscoveryConfig}
    (haccepted : ∀ n, newDiscovery false (settings n) =
      .ok { config := configs n })
    (hstore : ∀ n, (settings n).snapshotStore = some store) :
    (∀ as f, run Fleet.step (Fleet.init configs) as = some f →
      ∀ n v, (n, v) ∈ f.handed → f.Reported (settings n).query v) ↔
    ∀ n m, store.path (settings n).serviceName =
        store.path (settings m).serviceName →
      (settings n).query = (settings m).query := by
  have hquery : ∀ n, (configs n).query = (settings n).query := fun n =>
    (newDiscovery_spec (haccepted n)).1
  have hfile : ∀ n, (configs n).file =
      some (store.path (settings n).serviceName) := by
    intro n
    rw [(newDiscovery_spec (haccepted n)).2.1, DiscoveryConfig.file,
      hstore n, Option.map_some]
  constructor
  · intro hconfined n m hpath
    by_cases hne : m = n
    · rw [hne]
    · obtain ⟨f, hrun, hhanded, hreports⟩ := leak_run (hfile n)
        (by rw [hfile m, hpath]) (newDiscovery_spec (haccepted m)).2.2
        (v := healthyLeak) rfl hne
      obtain ⟨reported, hmem, _⟩ := hconfined _ f hrun m healthyLeak
        (by rw [hhanded]; exact List.mem_singleton_self _)
      rw [hreports, List.mem_singleton] at hmem
      exact (hquery n).symm.trans (congrArg Prod.fst hmem).symm
  · intro hpaths as f hrun n v hv
    have hf := run_inv_of (confined_step fun n m file hn hm => by
      rw [hfile, Option.some.injEq] at hn hm
      rw [hquery, hquery, hpaths n m (hn.trans hm.symm)])
      (confined_init configs) hrun
    rw [← hquery n]
    exact hf.handed n v hv

/-- Clients of two services. -/
def twoServices (n : Nat) : DiscoveryConfig :=
  { serviceName := if n = 0 then "orders" else "billing"
    maxStale := 2 * minute
    refreshInterval := minute
    retryMin := 250 * millisecond
    retryMax := 10 * second
    snapshotStore := some ⟨"/var/cache"⟩ }

theorem twoServices_accepted (n : Nat) :
    newDiscovery false (twoServices n) =
      .ok { config := twoServices n } := by
  have hname : (twoServices n).serviceName ≠ "" := by
    simp only [twoServices]
    split <;> decide
  rw [newDiscovery, if_neg (by simp [hname])]
  rfl

theorem handed_reported_iff_twoServices :
    (twoServices 0).file ≠ (twoServices 1).file ∧
    ∀ as f, run Fleet.step (Fleet.init twoServices) as = some f →
      ∀ n v, (n, v) ∈ f.handed → f.Reported (twoServices n).query v := by
  refine ⟨by decide, (handed_reported_iff twoServices_accepted
    fun _ => rfl).mpr fun n m hpath => ?_⟩
  simp only [twoServices] at hpath
  by_cases hn : n = 0 <;> by_cases hm : m = 0
  · rw [hn, hm]
  · rw [if_pos hn, if_neg hm] at hpath
    exact absurd hpath (by decide)
  · rw [if_neg hn, if_pos hm] at hpath
    exact absurd hpath (by decide)
  · simp only [twoServices, hn, hm, if_false]

/-- Two clients of one service, told apart by a label. -/
def blueGreen (n : Nat) : DiscoveryConfig :=
  { serviceName := "orders"
    selector := Finmap.singleton "track" (if n = 0 then "blue" else "green")
    maxStale := 2 * minute
    refreshInterval := minute
    retryMin := 250 * millisecond
    retryMax := 10 * second
    snapshotStore := some ⟨"/var/cache"⟩ }

/-- The green client hands out an instance that only the blue one was told
of. -/
theorem green_hands_out_blue :
    (∀ n, newDiscovery false (blueGreen n) =
      .ok { config := blueGreen n }) ∧
    ∃ f, run Fleet.step (Fleet.init blueGreen) (leak 0 1 healthyLeak) =
        some f ∧
      (1, healthyLeak) ∈ f.handed ∧
      ¬ f.Reported (blueGreen 1).query healthyLeak := by
  refine ⟨fun n => ?_, ?_⟩
  · rfl
  · have hblue : (blueGreen 0).file = some "/var/cache/orders.json" := by
      decide
    have hgreen : (blueGreen 1).file = some "/var/cache/orders.json" := by
      decide
    obtain ⟨f, hrun, hhanded, hreports⟩ := leak_run hblue hgreen (by decide)
      (v := healthyLeak) rfl (by decide)
    refine ⟨f, hrun, by rw [hhanded]; exact List.mem_singleton_self _, ?_⟩
    rintro ⟨reported, hmem, _⟩
    rw [hreports, List.mem_singleton] at hmem
    have hquery : (blueGreen 1).query ≠ (blueGreen 0).query := by decide
    exact hquery (congrArg Prod.fst hmem)

end PlatformGo.ServiceRegistry
