import PlatformGo.Lib.Filled
import PlatformGo.Proofs.ConfigCache

/-!
# What a refresh of some keys does to the others

`Refresh` builds a new map from the entries of the response and stores it in
place of the old one, whatever keys it asked for. So a refresh of some keys
forgets every other key, and `Get` then answers that it does not exist.

What the cache ought to hold is read off the responses stored so far
(`latest`): for each key what the last response to a request about it said.
The cache agrees with it for as long as every refresh of some keys asks at
least for those that are cached, and not a moment longer.
-/

namespace PlatformGo.DynamicConfig

variable {c : Client} {s t : Sys} {a : Action} {i : Nat} {key : String}
  {keys : List String} {response : ResolveResponse} {epoch : Nat}

/-- What the cache holds for the key, of whatever age. -/
def Sys.cached (s : Sys) (key : String) : Option Value :=
  s.value.bind fun current => current.values.lookup key

/-- What `Get` makes of the entry of its key. -/
def found (key : String) : Option Value → Except GoErr Value
  | some value => .ok value
  | none => .error (.detail errNotFound key)

theorem find_eq (current : Snapshot) (key : String) :
    current.find key = found key (current.values.lookup key) := by
  unfold Snapshot.find found
  split <;> simp [*]

theorem found_inj {v w : Option Value} (h : found key v = found key w) :
    v = w := by
  cases v with
  | none =>
      cases w with
      | none => rfl
      | some w => cases h
  | some v =>
      cases w with
      | none => cases h
      | some w =>
          cases h
          rfl

theorem found_not_found {v : Option Value}
    (h : found key v = .error (.detail errNotFound key)) : v = none :=
  found_inj (h.trans (rfl : _ = found key none))

/-! ## The entries of a response -/

/-- The map of a response is filled by a loop over its entries. -/
theorem values_eq_fill (response : ResolveResponse) :
    response.values = Filled.fill ConfigEntry.key
      (fun e => ⟨e.value, e.secretRef, e.revision⟩) response.entries ∅ := rfl

/-- A response about the keys asked for says nothing about another one. -/
theorem values_lookup_other (hwithin : ∀ e ∈ response.entries, e.key ∈ keys)
    (hkey : key ∉ keys) : response.values.lookup key = none := by
  rw [values_eq_fill, Filled.lookup_fill_other]
  · rfl
  · intro e he heq
    rw [← heq] at hkey
    exact hkey (hwithin e he)

/-! ## The responses stored so far -/

/-- The keys asked for, none of them for all, and the response. -/
abbrev History := List (List String × ResolveResponse)

/-- One more step of a run: a response is stored, or an invalidation says that
none of the earlier ones counts. -/
def Client.record (c : Client) (h : History) : Sys × Action → History
  | (s, .store i _) =>
      match s.callers i with
      | .answered caller response _ => h ++ [(caller.keys, response)]
      | _ => h
  | (_, a) => if c.invalidates a then [] else h

def Client.history (c : Client) (as : List Action) : History :=
  (Lts.steps c.step {} as).foldl c.record []

/-- What the last response to a request about the key said of it. -/
def latest (h : History) (key : String) : Option Value :=
  h.foldl (fun value r =>
    if r.1 = [] ∨ key ∈ r.1 then r.2.values.lookup key else value) none

theorem latest_concat (h : History) (r : List String × ResolveResponse) :
    latest (h ++ [r]) key =
      if r.1 = [] ∨ key ∈ r.1 then r.2.values.lookup key
      else latest h key := by
  rw [latest, List.foldl_append]
  rfl

theorem history_concat {as : List Action}
    (hrun : Lts.run c.step {} as = some s) (h : c.step s a = some t) :
    c.history (as ++ [a]) = c.record (c.history as) (s, a) := by
  rw [Client.history, Lts.steps_append hrun, Lts.steps_cons h,
    List.foldl_append]
  rfl

theorem record_store {caller : Caller} {now : Time} (h : History)
    (hphase : s.callers i = .answered caller response epoch) :
    c.record h (s, .store i now) = h ++ [(caller.keys, response)] := by
  simp only [Client.record, hphase]

/-! ## What a step does to the cache -/

theorem get_value (s : Sys) (i : Nat) (key : String) (now : Time) :
    (s.get i key now).value = s.value := by
  unfold Sys.get
  split
  · split <;> rfl
  · rfl

theorem refreshFailed_value (s : Sys) (i : Nat) (caller : Caller)
    (err : GoErr) : (s.refreshFailed i caller err).value = s.value := by
  unfold Sys.refreshFailed
  split <;> rfl

theorem store_value {caller : Caller} {now : Time}
    (hphase : s.callers i = .answered caller response epoch)
    (h : c.step s (.store i now) = some t) :
    t.value = some (c.snapshot response epoch now) := by
  simp only [Client.step, hphase] at h
  cases h
  exact refreshed_value ..

theorem store_cached {caller : Caller} {now : Time}
    (hphase : s.callers i = .answered caller response epoch)
    (h : c.step s (.store i now) = some t) :
    t.cached key = response.values.lookup key := by
  rw [Sys.cached, store_value hphase h]
  rfl

/-- The cache is replaced by a response, dropped, or left as it is, and the
history is kept accordingly. -/
inductive CacheStep (c : Client) (s : Sys) (a : Action) (t : Sys) : Prop
  | stored {i : Nat} {now : Time} {caller : Caller}
      {response : ResolveResponse} {epoch : Nat} (ha : a = .store i now)
      (hphase : s.callers i = .answered caller response epoch)
  | dropped (hvalue : t.value = none) (hrecord : ∀ h, c.record h (s, a) = [])
  | left (hvalue : t.value = s.value) (hrecord : ∀ h, c.record h (s, a) = h)

theorem cacheStep_of_step (h : c.step s a = some t) :
    CacheStep c s a t := by
  cases a with
  | get i key now =>
      simp only [Client.step] at h
      split at h
      · cases h
        exact .left (get_value ..) fun _ => rfl
      · cases h
  | refresh i keys =>
      simp only [Client.step] at h
      split at h
      · cases h
        exact .left rfl fun _ => rfl
      · cases h
  | lock i =>
      simp only [Client.step] at h
      split at h
      · split at h
        · cases h
        · cases h
          exact .left rfl fun _ => rfl
      · cases h
  | resolve i answer =>
      simp only [Client.step] at h
      split at h
      · split at h
        · cases h
          exact .left (refreshFailed_value ..) fun _ => rfl
        · cases h
          exact .left rfl fun _ => rfl
      · cases h
  | store i now =>
      simp only [Client.step] at h
      split at h
      · next hphase => exact .stored rfl hphase
      · cases h
  | reload i =>
      simp only [Client.step] at h
      split at h
      · cases h
        exact .left rfl fun _ => rfl
      · cases h
  | lookup i =>
      simp only [Client.step] at h
      split at h
      · cases h
        exact .left rfl fun _ => rfl
      · cases h
        exact .left rfl fun _ => rfl
      · cases h
  | invalidate =>
      cases h
      exact .dropped rfl fun _ => rfl
  | changed envelope =>
      simp only [Client.step] at h
      split at h
      · next hmatch =>
          cases h
          refine .dropped rfl fun _ => ?_
          simp only [Client.record, Client.invalidates, hmatch, if_true]
      · next hmatch =>
          cases h
          refine .left rfl fun _ => ?_
          have hkeep : c.invalidates (.changed envelope) = false := by
            simp only [Client.invalidates]
          simp only [Client.record, hkeep, Bool.false_eq_true, if_false]

/-! ## When the cache holds what it ought to -/

/-- What holds of the keys and the response of a refresh of some keys that is
about to store. -/
def PartialStore (P : List String → ResolveResponse → Prop) (s : Sys) :
    Action → Prop
  | .store i _ => ∀ caller response epoch,
      s.callers i = .answered caller response epoch → caller.keys ≠ [] →
      P caller.keys response
  | _ => True

/-- The response is about the keys that were asked for. -/
def StoresWithin (s : Sys) (a : Action) : Prop :=
  PartialStore (fun keys response => ∀ e ∈ response.entries, e.key ∈ keys) s a

/-- The refresh asked for all that is cached. -/
def StoresCovering (s : Sys) (a : Action) : Prop :=
  PartialStore (fun keys _ => ∀ key, s.cached key ≠ none → key ∈ keys) s a

theorem cached_concat {as : List Action}
    (hrun : Lts.run c.step {} as = some s)
    (hcached : ∀ key, s.cached key = latest (c.history as) key)
    (hwithin : StoresWithin s a) (hcover : StoresCovering s a)
    (h : c.step s a = some t) :
    ∀ key, t.cached key = latest (c.history (as ++ [a])) key := by
  intro key
  rw [history_concat hrun h]
  cases cacheStep_of_step h with
  | dropped hvalue hrecord =>
      rw [hrecord, Sys.cached, hvalue]
      rfl
  | left hvalue hrecord =>
      rw [hrecord, ← hcached, Sys.cached, hvalue]
      rfl
  | @stored i now caller response epoch ha hphase =>
      subst ha
      rw [store_cached hphase h, record_store _ hphase, latest_concat]
      split
      · rfl
      · next hother =>
          -- the key was not asked for: no entry now, and none before
          obtain ⟨hkeys, hkey⟩ := not_or.mp hother
          rw [values_lookup_other (hwithin _ _ _ hphase hkeys) hkey,
            ← hcached]
          by_contra hne
          exact hkey (hcover _ _ _ hphase hkeys key (Ne.symm hne))

theorem cached_run {as : List Action}
    (hwithin : ∀ p ∈ Lts.steps c.step {} as, StoresWithin p.1 p.2)
    (hcover : ∀ p ∈ Lts.steps c.step {} as, StoresCovering p.1 p.2)
    (hrun : Lts.run c.step {} as = some s) :
    ∀ key, s.cached key = latest (c.history as) key := by
  refine Lts.run_history (P := fun as s =>
    (∀ p ∈ Lts.steps c.step {} as, StoresWithin p.1 p.2) →
    (∀ p ∈ Lts.steps c.step {} as, StoresCovering p.1 p.2) →
    ∀ key, s.cached key = latest (c.history as) key) ?_ ?_ hrun hwithin hcover
  · intro _ _ key
    rfl
  · intro pre m a u hpre ih hstep hw hc
    have hmem : (m, a) ∈ Lts.steps c.step {} (pre ++ [a]) :=
      Lts.step_mem hpre hstep
    have hinit : ∀ p ∈ Lts.steps c.step {} pre,
        p ∈ Lts.steps c.step {} (pre ++ [a]) :=
      fun p hp => Lts.steps_initial (List.prefix_append ..) hpre hp
    exact cached_concat hpre
      (ih (fun p hp => hw p (hinit p hp)) fun p hp => hc p (hinit p hp))
      (hw _ hmem) (hc _ hmem) hstep

/-! ## What `Get` returns -/

/-- The two ways in which `Get` comes to read the snapshot of a state: it finds
it fresh, or it loads it after its own refresh. -/
inductive Loads (s : Sys) (current : Snapshot) (j : Nat) (key : String) :
    List Action → Nat → Prop
  | fresh {now : Time} (hidle : s.callers j = .idle)
      (hnow : now < current.expiresAt) :
      Loads s current j key [.get j key now, .lookup j] s.changes
  | again {started : Nat} (hphase : s.callers j = .reload key started) :
      Loads s current j key [.reload j, .lookup j] started

theorem loads_run {current : Snapshot} {j started : Nat}
    {acts : List Action} (hvalue : s.value = some current)
    (h : Loads s current j key acts started) :
    ∃ u, Lts.run c.step s acts = some u ∧
      u.gets = s.gets ++ [⟨key, started, some current.epoch,
        found key (s.cached key)⟩] := by
  have hcached : found key (s.cached key) = current.find key := by
    rw [find_eq, Sys.cached, hvalue]
    rfl
  rw [hcached]
  cases h with
  | fresh hidle hnow => exact get_hit key hidle hvalue hnow
  | again hphase =>
      have hreload : c.step s (.reload j) =
          some (s.goto j (.lookup key started (some current))) := by
        simp only [Client.step, hphase, hvalue]
      obtain ⟨u, hu, hgets⟩ := lookup_returns (c := c)
        (s := s.goto j (.lookup key started (some current)))
        (Function.update_self ..)
      exact ⟨u, Lts.run_cons.mpr ⟨_, hreload, Lts.run_cons.mpr ⟨u, hu, rfl⟩⟩,
        hgets⟩

/-- Whenever `Get` reads the cache in the run, or would if it were called, it
returns what the last response to a request about its key said. -/
def Client.Serves (c : Client) (as : List Action) : Prop :=
  ∀ bs m current j key acts started, bs <+: as →
    Lts.run c.step {} bs = some m → m.value = some current →
    Loads m current j key acts started →
    ∃ u, Lts.run c.step m acts = some u ∧
      u.gets = m.gets ++ [⟨key, started, some current.epoch,
        found key (latest (c.history bs) key)⟩]

theorem Client.Serves.cached {as : List Action} (bs : List Action) {m : Sys}
    (hserves : c.Serves as) (hbs : bs <+: as)
    (hrun : Lts.run c.step {} bs = some m) {current : Snapshot}
    (hvalue : m.value = some current) (key : String) :
    m.cached key = latest (c.history bs) key := by
  obtain ⟨j, hj⟩ := exists_idle hrun
  have hnow : current.expiresAt - 1 < current.expiresAt :=
    Int.sub_one_lt_of_le (Int.le_refl _)
  have hload : Loads m current j key _ _ := .fresh hj hnow
  obtain ⟨u, hu, hgets⟩ := hserves bs m current j key _ _ hbs hrun hvalue hload
  obtain ⟨v, hv, hreturned⟩ := loads_run (c := c) hvalue hload
  rw [hu, Option.some.injEq] at hv
  rw [← hv, hgets] at hreturned
  have hlast := List.append_cancel_left hreturned
  simp only [List.cons.injEq, GetResult.mk.injEq, and_true, true_and] at hlast
  exact found_inj hlast.symm

theorem serves_of_covering {as : List Action}
    (hwithin : ∀ p ∈ Lts.steps c.step {} as, StoresWithin p.1 p.2)
    (hcover : ∀ p ∈ Lts.steps c.step {} as, StoresCovering p.1 p.2) :
    c.Serves as := by
  intro bs m current j key acts started hbs hrun hvalue hload
  have hcached := cached_run
    (fun p hp => hwithin p (Lts.steps_initial hbs hrun hp))
    (fun p hp => hcover p (Lts.steps_initial hbs hrun hp)) hrun key
  rw [← hcached]
  exact loads_run hvalue hload

theorem covering_of_serves {as : List Action}
    (hrun : Lts.run c.step {} as = some s)
    (hwithin : ∀ p ∈ Lts.steps c.step {} as, StoresWithin p.1 p.2)
    (hserves : c.Serves as) :
    ∀ p ∈ Lts.steps c.step {} as, StoresCovering p.1 p.2 := by
  rintro ⟨m, a⟩ hp
  cases a with
  | store i now =>
      intro caller response epoch hphase hkeys key hcached
      obtain ⟨pre, post, has, hpre⟩ := Lts.mem_steps hp
      rw [has] at hrun
      obtain ⟨m', hm', hrest⟩ := Lts.run_append.mp hrun
      rw [hpre, Option.some.injEq] at hm'
      subst hm'
      obtain ⟨t, ht, -⟩ := Lts.run_cons.mp hrest
      obtain ⟨old, hold⟩ : ∃ old, m.value = some old := by
        cases hvalue : m.value with
        | none =>
            rw [Sys.cached, hvalue] at hcached
            exact absurd rfl hcached
        | some old => exact ⟨old, rfl⟩
      have hbefore := hserves.cached pre
        (by rw [has]; exact List.prefix_append ..) hpre hold key
      have hafter := hserves.cached (pre ++ [.store i now])
        (by rw [has]; exact ⟨post, by rw [List.append_assoc]; rfl⟩)
        (Lts.run_append.mpr ⟨m, hpre, Lts.run_cons.mpr ⟨t, ht, rfl⟩⟩)
        (store_value hphase ht) key
      rw [store_cached hphase ht, history_concat hpre ht,
        record_store _ hphase, latest_concat] at hafter
      by_contra hkey
      rw [if_neg (not_or.mpr ⟨hkeys, hkey⟩), ← hbefore,
        values_lookup_other (hwithin _ hp _ _ _ hphase hkeys) hkey] at hafter
      exact hcached hafter.symm
  | _ => trivial

/-! ## A refresh of some keys -/

theorem store_keeps_iff {now : Time}
    (hphase : s.callers i = .answered (.refresh keys) response epoch)
    (hwithin : ∀ e ∈ response.entries, e.key ∈ keys)
    (h : c.step s (.store i now) = some t) :
    (∀ key, key ∉ keys → t.cached key = s.cached key) ↔
      ∀ key, s.cached key ≠ none → key ∈ keys := by
  have hgone : ∀ key, key ∉ keys → t.cached key = none := by
    intro key hkey
    rw [store_cached hphase h]
    exact values_lookup_other hwithin hkey
  constructor
  · intro hkeeps key hcached
    by_contra hkey
    rw [← hkeeps key hkey] at hcached
    exact hcached (hgone key hkey)
  · intro hcover key hkey
    rw [hgone key hkey]
    by_contra hne
    exact hkey (hcover key (Ne.symm hne))

/-- What the call that reads the cache next returns. -/
theorem get_after_store {now later : Time} {j : Nat} {u : Sys}
    {r : GetResult} {caller : Caller}
    (hphase : s.callers i = .answered caller response epoch)
    (h : c.step s (.store i now) = some t) (hidle : t.callers j = .idle)
    (hlater : later < now + c.options.ttl)
    (hrun : Lts.run c.step t [.get j key later, .lookup j] = some u)
    (hr : u.gets = t.gets ++ [r]) : r.result = found key (t.cached key) := by
  have hload : Loads t (c.snapshot response epoch now) j key _ _ :=
    .fresh hidle hlater
  obtain ⟨v, hv, hgets⟩ := loads_run (c := c) (store_value hphase h) hload
  rw [hrun, Option.some.injEq] at hv
  rw [← hv, hr] at hgets
  have hlast := List.append_cancel_left hgets
  simp only [List.cons.injEq, and_true] at hlast
  rw [hlast]

/-- A refresh of some keys leaves the others, for the cache and for a `Get`
that follows within the time to live, exactly when it asks for every key that
is cached; and in a run `Get` returns what the last response to a request
about its key said exactly when every such refresh does. -/
theorem refresh_keeps_iff (c : Client) :
    (∀ s t i now keys response epoch,
      s.callers i = .answered (.refresh keys) response epoch → keys ≠ [] →
      (∀ e ∈ response.entries, e.key ∈ keys) →
      c.step s (.store i now) = some t →
      ((∀ key, key ∉ keys → t.cached key = s.cached key ∧
          ∀ j later u r, t.callers j = .idle →
            later < now + c.options.ttl →
            Lts.run c.step t [.get j key later, .lookup j] = some u →
            u.gets = t.gets ++ [r] →
            r.result = .error (.detail errNotFound key) →
            s.cached key = none) ↔
        ∀ key, s.cached key ≠ none → key ∈ keys)) ∧
    ∀ as s, Lts.run c.step {} as = some s →
      (∀ p ∈ Lts.steps c.step {} as, StoresWithin p.1 p.2) →
      (c.Serves as ↔
        ∀ p ∈ Lts.steps c.step {} as, StoresCovering p.1 p.2) := by
  refine ⟨?_, ?_⟩
  · intro s t i now keys response epoch hphase _ hwithin h
    rw [← store_keeps_iff hphase hwithin h]
    constructor
    · intro hkeeps key hkey
      exact (hkeeps key hkey).1
    · intro hkeeps key hkey
      refine ⟨hkeeps key hkey, ?_⟩
      intro j later u r hidle hlater hrun hr herr
      rw [get_after_store hphase h hidle hlater hrun hr] at herr
      rw [← hkeeps key hkey]
      exact found_not_found herr
  · intro as s hrun hwithin
    exact ⟨covering_of_serves hrun hwithin, serves_of_covering hwithin⟩

/-! ### Two limits and a refresh of one of them -/

def limitEntry (key value : String) : ConfigEntry :=
  { environment := "testing", tenantId := "tenant-1", service := "orders"
    key, value := bytes value, revision := 1 }

def bothLimits : ResolveResponse :=
  ⟨[limitEntry "limit.read" "100", limitEntry "limit.write" "10"], "v1"⟩

def readLimit : ResolveResponse := ⟨[limitEntry "limit.read" "200"], "v2"⟩

/-- A refresh of the keys by the caller, up to its response. -/
def refreshUpTo (keys : List String) (response : ResolveResponse) :
    List Action :=
  [.refresh 1 keys, .lock 1, .resolve 1 (.ok response)]

def bothCached : List Action := refreshUpTo [] bothLimits ++ [.store 1 0]

/-- The write limit is cached and served; after a refresh of the read limit it
is not found, long before the snapshot expires. -/
theorem refresh_drops_others : ∃ s t u v,
    Lts.run flagClient.step {}
        (bothCached ++ refreshUpTo ["limit.read"] readLimit) = some s ∧
      s.cached "limit.write" = some ⟨bytes "10", "", 1⟩ ∧
      Lts.run flagClient.step s [.get 2 "limit.write" 1, .lookup 2] =
        some v ∧
      v.gets = [⟨"limit.write", 0, some 0, .ok ⟨bytes "10", "", 1⟩⟩] ∧
      flagClient.step s (.store 1 1) = some t ∧
      t.cached "limit.write" = none ∧
      Lts.run flagClient.step t [.get 2 "limit.write" 2, .lookup 2] =
        some u ∧
      u.gets = [⟨"limit.write", 0, some 0,
        .error (.detail errNotFound "limit.write")⟩] :=
  ⟨_, _, _, _, rfl, rfl, rfl, rfl, rfl, rfl, rfl, rfl⟩

theorem bothCached_steps (P : Sys → List String → ResolveResponse → Prop) :
    ∀ p ∈ Lts.steps flagClient.step {} bothCached,
      PartialStore (P p.1) p.1 p.2 := by
  -- the only store is that of a refresh of everything
  have hlast : ∀ s, s.callers 1 = .answered (.refresh []) bothLimits 0 →
      PartialStore (P s) s (.store 1 0) := by
    intro s hs caller response epoch h hkeys
    rw [hs] at h
    cases h
    exact absurd rfl hkeys
  intro p hp
  rcases List.mem_cons.mp hp with rfl | hp
  · trivial
  rcases List.mem_cons.mp hp with rfl | hp
  · trivial
  rcases List.mem_cons.mp hp with rfl | hp
  · trivial
  rw [List.mem_singleton.mp hp]
  exact hlast _ rfl

/-- A refresh that names both limits leaves every other key, and the run that
cached them serves what was stored. -/
theorem refresh_keeps_iff_bothLimits : ∃ s t,
    Lts.run flagClient.step {} (bothCached ++
        refreshUpTo ["limit.read", "limit.write"] readLimit) = some s ∧
      flagClient.step s (.store 1 1) = some t ∧
      (∀ key, key ∉ ["limit.read", "limit.write"] →
        t.cached key = s.cached key) ∧
      flagClient.Serves bothCached := by
  obtain ⟨s, t, hrun, ht, hphase, hcached⟩ : ∃ s t,
      Lts.run flagClient.step {} (bothCached ++
        refreshUpTo ["limit.read", "limit.write"] readLimit) = some s ∧
      flagClient.step s (.store 1 1) = some t ∧
      s.callers 1 = .answered
        (.refresh ["limit.read", "limit.write"]) readLimit 0 ∧
      ∀ key, s.cached key = bothLimits.values.lookup key :=
    ⟨_, _, rfl, rfl, rfl, fun _ => rfl⟩
  refine ⟨s, t, hrun, ht, ?_, ?_⟩
  · have hkeeps := ((refresh_keeps_iff flagClient).1 s t 1 1 _ _ _ hphase
      (by decide) (by decide) ht).mpr ?_
    · intro key hkey
      exact (hkeeps key hkey).1
    · intro key hne
      by_contra hkey
      have hwithin : ∀ e ∈ bothLimits.entries,
          e.key ∈ ["limit.read", "limit.write"] := by decide
      rw [hcached] at hne
      exact hne (values_lookup_other hwithin hkey)
  · exact ((refresh_keeps_iff flagClient).2 bothCached _ rfl
      (bothCached_steps fun _ keys response =>
        ∀ e ∈ response.entries, e.key ∈ keys)).mpr
      (bothCached_steps fun s keys _ =>
        ∀ key, s.cached key ≠ none → key ∈ keys)

end PlatformGo.DynamicConfig
