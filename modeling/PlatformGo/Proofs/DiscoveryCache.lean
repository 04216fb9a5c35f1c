import PlatformGo.Ref.Discovery

/-!
# The discovery cache follows the registry

A snapshot is right when its list of instances holds the registry's contents
at its revision (`Mirrors`). A full list is right by what the registry
promises. A watch response is right because the stream it came from was opened
at the revision of the snapshot: the changes up to the new revision are those
up to the old one followed by the batch (`upTo_next`), and folding the batch
into the map of the old instances is what the log says happens to them.

Two runs over one stream that have received the same changes have received the
same stretch of the log, however it was cut. They end at the same revision,
with the same contents, in the order of the ids, and there is only one such
list.
-/

namespace PlatformGo.ServiceRegistry

open ChangeLog Lts

/-! ## The log -/

/-- An increasing log, cut at a revision. -/
theorem filter_le_append_filter_lt {α : Type*} {log : List (Nat × α)}
    (h : log.Pairwise fun a b => a.1 < b.1) (revision : Nat) :
    log.filter (fun e => e.1 ≤ revision) ++
      log.filter (fun e => revision < e.1) = log := by
  induction log with
  | nil => rfl
  | cons e log ih =>
      obtain ⟨hhead, htail⟩ := List.pairwise_cons.mp h
      by_cases he : e.1 ≤ revision
      · have hno : ¬ revision < e.1 := by omega
        simp only [List.filter_cons, he, hno, decide_true, decide_false,
          if_true, List.cons_append]
        exact congrArg (e :: ·) (ih htail)
      · have hyes : revision < e.1 := by omega
        have hnone : log.filter (fun e => e.1 ≤ revision) = [] := by
          rw [List.filter_eq_nil_iff]
          intro e' he'
          have := hhead e' he'
          simp only [decide_eq_true_eq]
          omega
        have hall : log.filter (fun e => revision < e.1) = log := by
          rw [List.filter_eq_self]
          intro e' he'
          have := hhead e' he'
          simp only [decide_eq_true_eq]
          omega
        simp [he, hyes, hnone, hall]

variable {registry : Registry}

/-- The batch a stream sends next, with the revisions. -/
def Registry.batch (registry : Registry) (revision size : Nat) :
    List (Nat × InstanceChange) :=
  (registry.since revision).take size

theorem next_eq {revision size : Nat} {response : WatchServiceResponse}
    (h : registry.next revision size = some response) :
    ∃ last, (registry.batch revision size).getLast? = some last ∧
      response.revision = last.1 ∧
      response.changes = (registry.batch revision size).map Prod.snd := by
  obtain ⟨last, hlast, rfl⟩ := Option.map_eq_some_iff.mp h
  exact ⟨last, hlast, rfl, rfl⟩

theorem since_increasing (registry : Registry) (revision : Nat) :
    (registry.since revision).Pairwise fun a b => a.1 < b.1 :=
  registry.increasing.filter _

/-- What is left of the log once the batch has been sent. -/
theorem since_next {revision size : Nat} {response : WatchServiceResponse}
    (h : registry.next revision size = some response) :
    registry.since revision =
      registry.batch revision size ++ registry.since response.revision := by
  obtain ⟨last, hlast, hrev, _⟩ := next_eq h
  have hsplit : registry.batch revision size ++
      (registry.since revision).drop size = registry.since revision :=
    List.take_append_drop size _
  have hsorted := since_increasing registry revision
  rw [← hsplit] at hsorted
  obtain ⟨hbatch, _, hacross⟩ := List.pairwise_append.mp hsorted
  have hmem : last ∈ registry.batch revision size :=
    List.mem_of_getLast? hlast
  -- The batch ends at its last revision, and the rest lies beyond it.
  have hlow : ∀ e ∈ registry.batch revision size, e.1 ≤ last.1 := by
    intro e he
    obtain ⟨front, hfront⟩ := List.getLast?_eq_some_iff.mp hlast
    rw [hfront] at he hbatch
    rcases List.mem_append.mp he with he | he
    · exact Nat.le_of_lt ((List.pairwise_append.mp hbatch).2.2 e he last
        (List.mem_singleton_self last))
    · rw [List.mem_singleton.mp he]
  have hlate : ∀ e ∈ (registry.since revision).drop size, last.1 < e.1 :=
    fun e he => hacross last hmem e he
  have hpast : revision < last.1 := by
    have hin := List.mem_of_mem_take hmem
    simpa using (List.mem_filter.mp hin).2
  have hrest : registry.since response.revision =
      (registry.since revision).drop size := by
    have hnested : registry.since response.revision =
        (registry.since revision).filter fun e => response.revision < e.1 := by
      rw [Registry.since, Registry.since, List.filter_filter]
      refine List.filter_congr fun e _ => ?_
      rw [hrev]
      simp only [← Bool.decide_and, decide_eq_decide]
      omega
    rw [hnested, ← hsplit, List.filter_append]
    have hnone : (registry.batch revision size).filter
        (fun e => response.revision < e.1) = [] := by
      rw [List.filter_eq_nil_iff]
      intro e he
      have := hlow e he
      simp only [decide_eq_true_eq]
      omega
    rw [hnone, List.nil_append, hsplit, List.filter_eq_self]
    intro e he
    have := hlate e he
    simp only [decide_eq_true_eq]
    omega
  rw [hrest, hsplit]

theorem upTo_next {revision size : Nat} {response : WatchServiceResponse}
    (h : registry.next revision size = some response) :
    registry.upTo response.revision =
      registry.upTo revision ++
        response.changes.map InstanceChange.effect := by
  have hold := filter_le_append_filter_lt registry.increasing revision
  have hnew := filter_le_append_filter_lt registry.increasing
    response.revision
  have hsince := since_next h
  rw [Registry.since, Registry.since] at hsince
  rw [hsince, ← List.append_assoc] at hold
  have hcut := List.append_cancel_right (hnew.trans hold.symm)
  obtain ⟨_, _, _, hchanges⟩ := next_eq h
  rw [Registry.upTo, hcut, List.map_append, hchanges, List.map_map]
  rfl

/-- Every change of the log puts an instance under its own id. -/
theorem contents_key {revision : Nat} {id : String} {value : ServiceInstance}
    (h : registry.contents revision id = some value) :
    value.instanceId = id := by
  rw [Registry.contents, after] at h
  cases hfind : (registry.upTo revision).reverse.find?
      (fun c => c.1 = id) with
  | none => rw [hfind] at h; cases h
  | some c =>
      rw [hfind] at h
      have hid : c.1 = id := by simpa using List.find?_some hfind
      have hmem := List.mem_reverse.mp (List.mem_of_find?_eq_some hfind)
      obtain ⟨e, he, rfl⟩ := List.mem_map.mp hmem
      have hlog := (List.mem_filter.mp he).1
      simp only [InstanceChange.effect] at h hid
      split at h
      · cases h
      · rename_i htype
        obtain ⟨value', hinst, hkey⟩ := registry.keyed e hlog htype
        rw [hinst, Option.some.injEq] at h
        rw [← h, hkey, hid]

/-! ## One response -/

/-- The changes the registry sends. -/
def Sent (c : InstanceChange) : Prop :=
  c.type ≠ .delete → ∃ value, c.inst = some value

theorem sent_of_next {revision size : Nat} {response : WatchServiceResponse}
    (h : registry.next revision size = some response) :
    ∀ c ∈ response.changes, Sent c := by
  obtain ⟨_, _, _, hchanges⟩ := next_eq h
  rw [hchanges]
  intro c hc htype
  obtain ⟨e, he, rfl⟩ := List.mem_map.mp hc
  have hlog := (List.mem_filter.mp (List.mem_of_mem_take he)).1
  obtain ⟨value, hinst, _⟩ := registry.keyed e hlog htype
  exact ⟨value, hinst⟩

theorem applyChange_eq (values : AList fun _ : String => ServiceInstance)
    {c : InstanceChange} (h : Sent c) :
    applyChange values c = follow values c.effect := by
  rw [applyChange, InstanceChange.effect]
  by_cases htype : c.type = .delete
  · rw [if_pos htype, if_pos htype]
    rfl
  · obtain ⟨value, hvalue⟩ := h htype
    rw [if_neg htype, if_neg htype, hvalue]
    rfl

theorem foldl_applyChange (values : AList fun _ : String => ServiceInstance)
    {changes : List InstanceChange} (h : ∀ c ∈ changes, Sent c) :
    changes.foldl applyChange values =
      (changes.map InstanceChange.effect).foldl follow values := by
  rw [List.foldl_map]
  exact List.foldl_ext _ _ _ fun values c hc => applyChange_eq values (h c hc)

/-- The list of a snapshot holds the registry's contents at its revision. -/
def Mirrors (registry : Registry) (snapshot : Snapshot) : Prop :=
  Lists ServiceInstance.instanceId snapshot.instances
    (registry.contents snapshot.revision)

theorem mirrors_of_lists {response : ListInstancesResponse} (now : Time)
    (h : registry.lists response = true) :
    Mirrors registry ⟨response.revision, now, response.instances⟩ := by
  have hlook : ∀ k, ((registry.upTo response.revision).foldl follow
      ∅).lookup k = registry.contents response.revision k := by
    intro k
    rw [lookup_foldl_follow, Registry.contents]
    congr 1
  have hvalues : Lists ServiceInstance.instanceId _ _ :=
    lists_values (m := (registry.upTo response.revision).foldl follow ∅)
      fun k v hv => contents_key ((hlook k).symm.trans hv)
  rw [funext hlook] at hvalues
  exact hvalues.perm (of_decide_eq_true h)

/-- What `apply` makes of a right snapshot. -/
theorem apply_spec {d d' : Discovery} {snapshot : Snapshot}
    {revision size : Nat} {response : WatchServiceResponse} {now : Time}
    {order : List ServiceInstance} (hs : d.snapshot = some snapshot)
    (hm : Mirrors registry snapshot) (hrev : snapshot.revision = revision)
    (hnext : registry.next revision size = some response)
    (h : d.apply response now order = some d') :
    ∃ snapshot', d'.snapshot = some snapshot' ∧
      snapshot'.revision = response.revision ∧ Mirrors registry snapshot' ∧
      snapshot'.instances.Pairwise
        fun a b => a.instanceId < b.instanceId := by
  simp only [Discovery.apply, Option.ite_none_right_eq_some,
    Option.some.injEq] at h
  obtain ⟨hperm, rfl⟩ := h
  have hlook : ∀ k, (response.changes.foldl applyChange d.values).lookup k =
      registry.contents response.revision k := by
    intro k
    have hvalues : d.values.lookup = registry.contents revision := by
      funext k'
      rw [Discovery.values, hs, ← hrev]
      exact hm.lookup_insertAll k'
    rw [foldl_applyChange _ (sent_of_next hnext), lookup_foldl_follow,
      hvalues, Registry.contents, upTo_next hnext, after_append]
    rfl
  have hvalues : Lists ServiceInstance.instanceId _ _ :=
    lists_values (m := response.changes.foldl applyChange d.values)
      fun k v hv => contents_key ((hlook k).symm.trans hv)
  rw [funext hlook] at hvalues
  have hlists := hvalues.perm hperm
  exact ⟨_, rfl, rfl, hlists.perm (sortBy_perm _ _), hlists.sorted_sortBy⟩

/-! ## Runs -/

/-- The snapshot is right, and an open stream stands at its revision. -/
structure WatcherInv (registry : Registry) (w : Watcher) : Prop where
  mirrors : ∀ snapshot, w.discovery.snapshot = some snapshot →
    Mirrors registry snapshot
  stream : ∀ revision, w.stream = some revision →
    ∃ snapshot, w.discovery.snapshot = some snapshot ∧
      snapshot.revision = revision

theorem recv_spec {w w' : Watcher} {size : Nat} {now : Time}
    {order : List ServiceInstance} (hw : WatcherInv registry w)
    (h : Watcher.step registry w (.recv size now order) = some w') :
    ∃ revision response snapshot, w.stream = some revision ∧
      registry.next revision size = some response ∧
      w'.stream = some response.revision ∧
      w'.discovery.snapshot = some snapshot ∧
      snapshot.revision = response.revision ∧ Mirrors registry snapshot ∧
      snapshot.instances.Pairwise
        fun a b => a.instanceId < b.instanceId := by
  simp only [Watcher.step, Option.bind_eq_some_iff,
    Option.map_eq_some_iff] at h
  obtain ⟨revision, hstream, response, hnext, d', happly, rfl⟩ := h
  obtain ⟨snapshot, hsnap, hrev⟩ := hw.stream revision hstream
  obtain ⟨snapshot', hsnap', hrev', hm', hsorted⟩ :=
    apply_spec hsnap (hw.mirrors snapshot hsnap) hrev hnext happly
  exact ⟨revision, response, snapshot', hstream, hnext, rfl, hsnap', hrev',
    hm', hsorted⟩

theorem watcherInv_step (w : Watcher) (a : Watcher.Action) (w' : Watcher)
    (hw : WatcherInv registry w)
    (h : Watcher.step registry w a = some w') : WatcherInv registry w' := by
  cases a with
  | refresh response now =>
      simp only [Watcher.step, Option.ite_none_right_eq_some,
        Option.some.injEq] at h
      obtain ⟨⟨hclosed, hlists⟩, rfl⟩ := h
      refine ⟨fun snapshot hsnap => ?_, fun revision hstream => ?_⟩
      · simp only [Discovery.refresh, Discovery.replace,
          Option.some.injEq] at hsnap
        subst hsnap
        exact mirrors_of_lists now hlists
      · rw [hclosed] at hstream
        cases hstream
  | refreshFailed | watchFailed =>
      simp only [Watcher.step, Option.ite_none_right_eq_some,
        Option.some.injEq] at h
      exact h.2 ▸ hw
  | watch =>
      simp only [Watcher.step] at h
      split at h
      · rename_i snapshot hclosed hsnap
        cases h
        refine ⟨hw.mirrors, fun revision hstream => ?_⟩
        exact ⟨snapshot, hsnap, by simpa using hstream⟩
      · cases h
  | recv size now order =>
      obtain ⟨_, response, snapshot, _, _, hstream, hsnap, hrev, hm, _⟩ :=
        recv_spec hw h
      refine ⟨fun snapshot' hsnap' => ?_, fun revision hstream' => ?_⟩
      · rw [hsnap, Option.some.injEq] at hsnap'
        exact hsnap' ▸ hm
      · rw [hstream, Option.some.injEq] at hstream'
        exact ⟨snapshot, hsnap, hrev.trans hstream'⟩
  | broken =>
      simp only [Watcher.step, Option.map_eq_some_iff] at h
      obtain ⟨_, _, rfl⟩ := h
      exact ⟨hw.mirrors, fun _ hstream => nomatch hstream⟩

theorem watcherInv_of_run {d₀ : Discovery} (hnew : d₀.snapshot = none)
    {as : List Watcher.Action} {w : Watcher}
    (hrun : run (Watcher.step registry) ⟨d₀, none⟩ as = some w) :
    WatcherInv registry w := by
  refine run_inv_of watcherInv_step ⟨fun snapshot hsnap => ?_,
    fun revision hstream => ?_⟩ hrun
  · rw [hnew] at hsnap
    cases hsnap
  · cases hstream

/-! ## How the changes are cut -/

/-- The changes a step takes from its stream, with their revisions. -/
def taken (registry : Registry) :
    Watcher × Watcher.Action → List (Nat × InstanceChange)
  | (w, .recv size _ _) =>
      match w.stream with
      | some revision => registry.batch revision size
      | none => []
  | _ => []

/-- The changes that reached the discovery in a run. -/
def received (registry : Registry) (w : Watcher) (as : List Watcher.Action) :
    List InstanceChange :=
  ((steps (Watcher.step registry) w as).flatMap (taken registry)).map Prod.snd

def Watcher.Action.isRefresh : Watcher.Action → Bool
  | .refresh .. => true
  | _ => false

/-- Only a full list and a response touch the discovery. -/
theorem quiet_or {w w' : Watcher} {a : Watcher.Action}
    (h : Watcher.step registry w a = some w') :
    (taken registry (w, a) = [] ∧ w'.discovery = w.discovery) ∨
      a.isRefresh = true ∨ ∃ size now order, a = .recv size now order := by
  cases a with
  | refresh response now => exact Or.inr (Or.inl rfl)
  | recv size now order => exact Or.inr (Or.inr ⟨size, now, order, rfl⟩)
  | refreshFailed | watchFailed =>
      simp only [Watcher.step, Option.ite_none_right_eq_some,
        Option.some.injEq] at h
      exact Or.inl ⟨rfl, by rw [h.2]⟩
  | watch =>
      simp only [Watcher.step] at h
      split at h
      · cases h
        exact Or.inl ⟨rfl, rfl⟩
      · cases h
  | broken =>
      simp only [Watcher.step, Option.map_eq_some_iff] at h
      obtain ⟨_, _, rfl⟩ := h
      exact Or.inl ⟨rfl, rfl⟩

/-- Between two full lists a snapshot has followed the log from where it
stood: `got` is the stretch it has seen. -/
structure Followed (registry : Registry) (start : Snapshot) (w : Watcher)
    (got : List (Nat × InstanceChange)) (snapshot : Snapshot) : Prop where
  snap : w.discovery.snapshot = some snapshot
  since : registry.since start.revision =
    got ++ registry.since snapshot.revision
  revision : snapshot.revision =
    (got.getLast?.map Prod.fst).getD start.revision
  instances : got = [] ∧ snapshot = start ∨
    got ≠ [] ∧ snapshot.instances.Pairwise
      fun a b => a.instanceId < b.instanceId

theorem followed_step {start : Snapshot} {w w' : Watcher}
    {got : List (Nat × InstanceChange)} {snapshot : Snapshot}
    {a : Watcher.Action} (hw : WatcherInv registry w)
    (hf : Followed registry start w got snapshot)
    (ha : a.isRefresh = false)
    (h : Watcher.step registry w a = some w') :
    ∃ snapshot', Followed registry start w' (got ++ taken registry (w, a))
      snapshot' := by
  obtain ⟨hsnap, hsince, hrevision, hinst⟩ := hf
  rcases quiet_or h with ⟨htaken, hkept⟩ | hrefresh | ⟨size, now, order, rfl⟩
  · rw [htaken, List.append_nil]
    exact ⟨snapshot, hkept ▸ hsnap, hsince, hrevision, hinst⟩
  · rw [ha] at hrefresh
    cases hrefresh
  · obtain ⟨revision, response, snapshot', hstream, hnext, _, hsnap', hrev',
      _, hsorted⟩ := recv_spec hw h
    obtain ⟨before, hbefore, hat⟩ := hw.stream revision hstream
    rw [hsnap, Option.some.injEq] at hbefore
    subst hbefore
    obtain ⟨last, hlast, hlastRev, _⟩ := next_eq hnext
    have htaken : taken registry (w, .recv size now order) =
        registry.batch revision size := by
      rw [taken, hstream]
    rw [htaken]
    refine ⟨snapshot', hsnap', ?_, ?_, Or.inr ⟨?_, hsorted⟩⟩
    · rw [hsince, hat, since_next hnext, hrev', List.append_assoc]
    · rw [List.getLast?_append, hlast, hrev', hlastRev]
      rfl
    · intro hnil
      rw [(List.append_eq_nil_iff.mp hnil).2] at hlast
      cases hlast

theorem followed_of_run {start : Snapshot} {w w' : Watcher}
    {as : List Watcher.Action} (hw : WatcherInv registry w)
    (hstart : w.discovery.snapshot = some start)
    (has : ∀ a ∈ as, a.isRefresh = false)
    (hrun : run (Watcher.step registry) w as = some w') :
    ∃ snapshot, Followed registry start w'
      ((steps (Watcher.step registry) w as).flatMap (taken registry))
      snapshot := by
  refine run_history (P := fun pre m =>
    (∀ a ∈ pre, a.isRefresh = false) → ∃ snapshot,
      Followed registry start m
        ((steps (Watcher.step registry) w pre).flatMap (taken registry))
        snapshot) ?_ ?_ hrun has
  · exact fun _ => ⟨start, hstart, rfl, rfl, Or.inl ⟨rfl, rfl⟩⟩
  · intro pre m a t hpre hP hstep hno
    obtain ⟨snapshot, hf⟩ := hP fun a' ha' =>
      hno a' (List.mem_append_left _ ha')
    rw [steps_append hpre, steps_cons hstep, List.flatMap_append]
    simpa using followed_step (run_inv_of watcherInv_step hw hpre) hf
      (hno a (List.mem_append_right _ (List.mem_singleton_self a))) hstep

/-- Without a full list to begin with there is no stream either. -/
theorem snapshot_none_of_run {w w' : Watcher} {as : List Watcher.Action}
    (hw : WatcherInv registry w) (hnone : w.discovery.snapshot = none)
    (has : ∀ a ∈ as, a.isRefresh = false)
    (hrun : run (Watcher.step registry) w as = some w') :
    w'.discovery.snapshot = none := by
  refine (run_inv (I := fun w => WatcherInv registry w ∧
      w.discovery.snapshot = none) (C := fun _ a => a.isRefresh = false)
    ?_ ⟨hw, hnone⟩ (fun p hp => has p.2 (action_mem hp)) hrun).2
  rintro w a w' ⟨hw, hnone⟩ ha h
  refine ⟨watcherInv_step w a w' hw h, ?_⟩
  rcases quiet_or h with ⟨_, hkept⟩ | hrefresh | ⟨size, now, order, rfl⟩
  · rw [hkept, hnone]
  · rw [ha] at hrefresh
    cases hrefresh
  · obtain ⟨revision, _, _, hstream, _⟩ := recv_spec hw h
    obtain ⟨_, hsome, _⟩ := hw.stream revision hstream
    rw [hnone] at hsome
    cases hsome

/-- Two stretches of one log with as many changes are the same stretch. -/
theorem got_eq {start : Snapshot} {w₁ w₂ : Watcher}
    {got₁ got₂ : List (Nat × InstanceChange)} {s₁ s₂ : Snapshot}
    (h₁ : Followed registry start w₁ got₁ s₁)
    (h₂ : Followed registry start w₂ got₂ s₂)
    (h : got₁.map Prod.snd = got₂.map Prod.snd) : got₁ = got₂ := by
  have hlen : got₁.length = got₂.length := by
    simpa using congrArg List.length h
  exact (List.append_inj (h₁.since.symm.trans h₂.since) hlen).1

theorem followed_unique {start : Snapshot} {w₁ w₂ : Watcher}
    {got₁ got₂ : List (Nat × InstanceChange)} {s₁ s₂ : Snapshot}
    (hw₁ : WatcherInv registry w₁) (hw₂ : WatcherInv registry w₂)
    (h₁ : Followed registry start w₁ got₁ s₁)
    (h₂ : Followed registry start w₂ got₂ s₂)
    (h : got₁.map Prod.snd = got₂.map Prod.snd) :
    s₁.revision = s₂.revision ∧ s₁.instances = s₂.instances := by
  have hgot := got_eq h₁ h₂ h
  subst hgot
  have hrev : s₁.revision = s₂.revision :=
    h₁.revision.trans h₂.revision.symm
  refine ⟨hrev, ?_⟩
  rcases h₁.instances, h₂.instances with
    ⟨⟨hnil, hs₁⟩ | ⟨hne, hsorted₁⟩, ⟨hnil', hs₂⟩ | ⟨hne', hsorted₂⟩⟩
  · rw [hs₁, hs₂]
  · exact absurd hnil hne'
  · exact absurd hnil' hne
  · have hm₁ := hw₁.mirrors s₁ h₁.snap
    have hm₂ := hw₂.mirrors s₂ h₂.snap
    rw [Mirrors, hrev] at hm₁
    exact hm₁.eq_of_sorted hm₂ hsorted₁ hsorted₂

/-- A new discovery over any log, after any run of full lists, responses and
broken streams: the instances of its snapshot, looked up by id, are the
registry's contents at the snapshot's revision, each id once; a response just
received left them strictly sorted; and for what follows, as long as no full
list comes between, revision and instances are a matter of the changes that
were received and not of how they were cut. -/
theorem snapshot_simulates_registry (registry : Registry) {d₀ : Discovery}
    (hnew : d₀.snapshot = none) {as : List Watcher.Action} {w : Watcher}
    (hrun : run (Watcher.step registry) ⟨d₀, none⟩ as = some w) :
    (∀ snapshot, w.discovery.snapshot = some snapshot →
      (snapshot.instances.map ServiceInstance.instanceId).Nodup ∧
      ∀ id, (snapshot.instances.find? fun v => v.instanceId = id) =
        registry.contents snapshot.revision id) ∧
    (∀ size now order w', Watcher.step registry w (.recv size now order) =
      some w' → ∃ snapshot, w'.discovery.snapshot = some snapshot ∧
        snapshot.instances.Pairwise
          fun a b => a.instanceId < b.instanceId) ∧
    (∀ bs bs' w₁ w₂, (∀ a ∈ bs ++ bs', a.isRefresh = false) →
      run (Watcher.step registry) w bs = some w₁ →
      run (Watcher.step registry) w bs' = some w₂ →
      received registry w bs = received registry w bs' →
      (w₁.discovery.snapshot.map fun s => (s.revision, s.instances)) =
        w₂.discovery.snapshot.map fun s => (s.revision, s.instances)) := by
  have hw := watcherInv_of_run hnew hrun
  refine ⟨fun snapshot hsnap => ?_, fun size now order w' hstep => ?_, ?_⟩
  · have hm := hw.mirrors snapshot hsnap
    exact ⟨hm.nodup, fun id => (hm.table_eq id).symm⟩
  · obtain ⟨_, _, snapshot, _, _, _, hsnap, _, _, hsorted⟩ :=
      recv_spec hw hstep
    exact ⟨snapshot, hsnap, hsorted⟩
  · intro bs bs' w₁ w₂ hno hrun₁ hrun₂ hsame
    cases hstart : w.discovery.snapshot with
    | none =>
        rw [snapshot_none_of_run hw hstart (fun a ha =>
            hno a (List.mem_append_left _ ha)) hrun₁,
          snapshot_none_of_run hw hstart (fun a ha =>
            hno a (List.mem_append_right _ ha)) hrun₂]
    | some start =>
        obtain ⟨s₁, h₁⟩ := followed_of_run hw hstart
          (fun a ha => hno a (List.mem_append_left _ ha)) hrun₁
        obtain ⟨s₂, h₂⟩ := followed_of_run hw hstart
          (fun a ha => hno a (List.mem_append_right _ ha)) hrun₂
        obtain ⟨hrev, hinst⟩ := followed_unique
          (run_inv_of watcherInv_step hw hrun₁)
          (run_inv_of watcherInv_step hw hrun₂) h₁ h₂ hsame
        rw [h₁.snap, h₂.snap, Option.map_some, Option.map_some, hrev, hinst]

def healthyInstance (id : String) : ServiceInstance :=
  { instanceId := id, status := .healthy }

/-- Two instances come, the first goes and comes back as draining. -/
def churn : Registry where
  log :=
    [(3, ⟨.other 1, "orders-1", some (healthyInstance "orders-1")⟩),
     (5, ⟨.other 1, "orders-0", some (healthyInstance "orders-0")⟩),
     (8, ⟨.delete, "orders-1", none⟩),
     (9, ⟨.other 1, "orders-1",
       some { instanceId := "orders-1", status := .draining }⟩)]
  increasing := by decide
  keyed := by simp [healthyInstance]

/-- The full list at revision 3 and the stream from there. -/
def churnStart : List Watcher.Action :=
  [.refresh ⟨[healthyInstance "orders-1"], 3⟩ 0, .watch]

/-- All three changes at once. -/
def churnAtOnce : List Watcher.Action :=
  [.recv 3 1 [healthyInstance "orders-0",
    { instanceId := "orders-1", status := .draining }]]

/-- The stream breaks after two of them. -/
def churnInParts : List Watcher.Action :=
  [.recv 2 1 [healthyInstance "orders-0"], .broken, .watch,
   .recv 5 2 [{ instanceId := "orders-1", status := .draining },
    healthyInstance "orders-0"]]

theorem snapshot_simulates_registry_churn : ∃ w w₁ w₂,
    run (Watcher.step churn) ⟨{ config := {} }, none⟩ churnStart = some w ∧
    run (Watcher.step churn) w churnAtOnce = some w₁ ∧
    run (Watcher.step churn) w churnInParts = some w₂ ∧
    (∃ snapshot, w.discovery.snapshot = some snapshot ∧
      snapshot.revision = 3 ∧
      ∀ id, (snapshot.instances.find? fun v => v.instanceId = id) =
        churn.contents 3 id) ∧
    (w₁.discovery.snapshot.map fun s => (s.revision, s.instances)) =
      w₂.discovery.snapshot.map fun s => (s.revision, s.instances) := by
  obtain ⟨w, hw, hsnap⟩ : ∃ w, run (Watcher.step churn)
      ⟨{ config := {} }, none⟩ churnStart = some w ∧
      w.discovery.snapshot =
        some ⟨3, 0, [healthyInstance "orders-1"]⟩ := ⟨_, rfl, rfl⟩
  have hboth : ∀ w, run (Watcher.step churn) ⟨{ config := {} }, none⟩
      churnStart = some w → (run (Watcher.step churn) w
        churnAtOnce).isSome ∧ (run (Watcher.step churn) w
        churnInParts).isSome ∧
      received churn w churnAtOnce = received churn w churnInParts := by
    intro w hw
    cases hw
    decide
  obtain ⟨hone, htwo, hsame⟩ := hboth w hw
  obtain ⟨w₁, hw₁⟩ := Option.isSome_iff_exists.mp hone
  obtain ⟨w₂, hw₂⟩ := Option.isSome_iff_exists.mp htwo
  obtain ⟨hmirror, _, hcut⟩ := snapshot_simulates_registry churn rfl hw
  exact ⟨w, w₁, w₂, hw, hw₁, hw₂, ⟨_, hsnap, rfl, (hmirror _ hsnap).2⟩,
    hcut _ _ w₁ w₂ (by decide) hw₁ hw₂ hsame⟩

end PlatformGo.ServiceRegistry
