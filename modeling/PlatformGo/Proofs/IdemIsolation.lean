import PlatformGo.Lib.Joined
import PlatformGo.Proofs.IdemFence

/-!
# Managers of different services on one Redis

A call reads and writes the one entry its storage key names. Managers whose
storage keys never coincide therefore do not notice each other: a run of all
of them is, for each one, a run of that manager alone (`follows_alone`).

Whether the storage keys coincide is a question of the service names. The
separator of a storage key is a character a key may contain, so a service and
its key can be read as another service, longer or shorter by a piece of the
key. It takes two services of which one is the other followed by a colon and
a piece a key can open with.
-/

namespace PlatformGo.Idempotency

open Lts

variable {R : Type} {m : Manager R}

/-! ## A call sees one entry -/

/-- One entry and the clock are the same. -/
def Redis.SameAt (k : String) (r r' : Redis) : Prop :=
  r.now = r'.now ∧ r.entries k = r'.entries k

/-- What a piece of the code computes depends on one entry and the clock
only. -/
def Confined {α : Type} (k : String) (f : Redis → Redis × α) : Prop :=
  ∀ r r', r.SameAt k r' → (f r).2 = (f r').2 ∧ (f r).1.SameAt k (f r').1

theorem set_sameAt {k : String} {r r' : Redis} (h : r.SameAt k r')
    (x : Option Entry) : (r.set k x).SameAt k (r'.set k x) := by
  refine ⟨h.1, ?_⟩
  rw [set_entries_self, set_entries_self]

theorem expire_sameAt {k : String} {r r' : Redis} (h : r.SameAt k r') :
    (r.expire k).SameAt k (r'.expire k) := by
  unfold Redis.expire
  rw [h.2]
  cases r'.entries k with
  | none => exact h
  | some e => exact set_sameAt h none

theorem pexpire_sameAt {k : String} {r r' : Redis} (h : r.SameAt k r')
    (ms : Int) : (r.pexpire k ms).SameAt k (r'.pexpire k ms) := by
  unfold Redis.pexpire
  rw [h.2]
  cases hk : r'.entries k with
  | none => exact h
  | some e =>
      dsimp only
      split
      · exact expire_sameAt h
      · rw [h.1]
        exact set_sameAt h _

theorem held_sameAt {k : String} {r r' : Redis} (h : r.SameAt k r')
    (owner : String) : r.held k owner = r'.held k owner := by
  unfold Redis.held
  rw [h.2]

theorem confined_beginScript (k fingerprint : String) (ttl : Int)
    (owner : String) : Confined k (beginScript k fingerprint ttl owner) := by
  intro r r' h
  unfold beginScript
  rw [h.2]
  cases r'.entries k with
  | none => exact ⟨rfl, pexpire_sameAt (set_sameAt h _) ttl⟩
  | some e =>
      dsimp only
      split <;> exact ⟨rfl, h⟩

theorem confined_renewScript (k owner : String) (ttl : Int) :
    Confined k (renewScript k owner ttl) := by
  intro r r' h
  unfold renewScript
  rw [held_sameAt h]
  split
  · exact ⟨rfl, pexpire_sameAt h ttl⟩
  · exact ⟨rfl, h⟩

theorem confined_finishScript (k owner : String) (outcome : Outcome)
    (ttl : Int) : Confined k (finishScript k owner outcome ttl) := by
  intro r r' h
  unfold finishScript
  rw [held_sameAt h, h.2]
  cases r'.entries k with
  | none => exact ⟨rfl, h⟩
  | some e =>
      dsimp only
      split
      · exact ⟨rfl, pexpire_sameAt (set_sameAt h _) ttl⟩
      · exact ⟨rfl, h⟩

theorem confined_abortScript (k owner : String) :
    Confined k (abortScript k owner) := by
  intro r r' h
  unfold abortScript
  rw [held_sameAt h]
  split
  · exact ⟨rfl, set_sameAt h none⟩
  · exact ⟨rfl, h⟩

/-- A fault hides the answer of a script or the script itself. -/
theorem Confined.run {α : Type} {k : String} {script : Redis → Redis × α}
    (h : Confined k script) (fault : Fault) : Confined k (fault.run script) := by
  intro r r' hsame
  obtain ⟨hanswer, hafter⟩ := h r r' hsame
  cases fault with
  | none => exact ⟨congrArg Except.ok hanswer, hafter⟩
  | notExecuted e => exact ⟨rfl, hsame⟩
  | replyLost e => exact ⟨rfl, hafter⟩

/-- What is made of the answer does not look at Redis again. -/
theorem Confined.map {α β : Type} {k : String} {f : Redis → Redis × α}
    (h : Confined k f) (g : α → β) :
    Confined k fun r => ((f r).1, g (f r).2) := by
  intro r r' hsame
  obtain ⟨hanswer, hafter⟩ := h r r' hsame
  exact ⟨congrArg g hanswer, hafter⟩

theorem confined_answer {α : Type} (k : String) (x : α) :
    Confined k fun r => (r, x) :=
  fun _ _ h => ⟨rfl, h⟩

theorem confined_begin (key fingerprint owner : String) (fault : Fault) :
    Confined (m.storageKey key) (m.begin key fingerprint owner fault) := by
  intro r r' h
  obtain ⟨hanswer, hafter⟩ := (confined_beginScript (m.storageKey key)
    fingerprint (milliseconds m.cfg.processingTTL) owner).run fault r r' h
  unfold Manager.begin
  split
  · exact ⟨rfl, h⟩
  · dsimp only
    rw [hanswer]
    split
    · exact ⟨rfl, hafter⟩
    · split <;> exact ⟨rfl, hafter⟩

theorem confined_renew (key owner : String) (fault : Fault) :
    Confined (m.storageKey key) (m.renew key owner fault) := by
  unfold Manager.renew
  split
  · exact confined_answer _ _
  · exact ((confined_renewScript _ _ _).run fault).map _

theorem confined_abort (key owner : String) (fault : Fault) :
    Confined (m.storageKey key) (m.abort key owner fault) := by
  unfold Manager.abort
  split
  · exact confined_answer _ _
  · exact ((confined_abortScript _ _).run fault).map _

theorem confined_finish (context key owner : String) (outcome : Outcome)
    (ttl : Time) (fault : Fault) :
    Confined (m.storageKey key)
      (m.finish context key owner outcome ttl fault) := by
  unfold Manager.finish
  split
  · exact confined_answer _ _
  · exact ((confined_finishScript _ _ _ _).run fault).map _

theorem confined_complete (key owner : String) (response : R)
    (fault : Fault) :
    Confined (m.storageKey key) (m.complete key owner response fault) := by
  intro r r' h
  unfold Manager.complete
  split
  · exact ⟨rfl, h⟩
  · split
    · obtain ⟨hanswer, hafter⟩ := confined_abort (m := m) key owner fault r r' h
      cases hab : m.abort key owner fault r with
      | mk r₁ result =>
          cases hab' : m.abort key owner fault r' with
          | mk r₁' result' =>
              rw [hab, hab'] at hanswer hafter
              dsimp only at hanswer
              subst hanswer
              cases result <;> exact ⟨rfl, hafter⟩
    · exact confined_finish _ key owner _ _ fault r r' h

theorem confined_fail (key owner : String) (failure : Failure)
    (fault : Fault) :
    Confined (m.storageKey key) (m.fail key owner failure fault) := by
  unfold Manager.fail
  split
  · exact confined_answer _ _
  · exact confined_finish _ _ _ _ _ _

theorem confined_perform (m : Manager R) (fault : Fault) (c : Call R) :
    Confined (m.storageKey c.key) fun r => m.perform fault r c := by
  cases c with
  | begin key fingerprint owner =>
      exact confined_begin key fingerprint owner fault
  | renew key owner => exact confined_renew key owner fault
  | complete key owner response =>
      exact confined_complete key owner response fault
  | fail key owner failure => exact confined_fail key owner failure fault
  | abort key owner => exact confined_abort key owner fault

/-- A call leaves all other entries and the clock. -/
theorem perform_elsewhere (fault : Fault) (r : Redis) (c : Call R)
    {k : String} (hk : k ≠ m.storageKey c.key) :
    (m.perform fault r c).1.SameAt k r := by
  rcases perform_change m fault r c with h | ⟨x, lapsed, _, h⟩
  · rw [h]
    exact ⟨rfl, rfl⟩
  · rw [h]
    exact ⟨rfl, after_entries_ne hk⟩

/-! ## Each manager by itself -/

section Shared

variable {N : Type} [DecidableEq N] {managers : N → Manager R}

/-- What of a run of all managers is played on one of them alone. -/
def alone (n : N) : SharedAction N R → Option (Action R)
  | .call n' c fault => if n' = n then some (.call c fault) else none
  | .expire k => some (.expire k)
  | .tick d => some (.tick d)

/-- The calls on one manager with their results. -/
def Shared.answers (s : Shared N R) (n : N) : List (Call R × Result) :=
  own n s.history

/-- The keys of the calls are valid. -/
def SharedAction.KeyValid : SharedAction N R → Prop
  | .call _ c _ => valid c.key = true
  | .expire _ | .tick _ => True

/-- The storage keys of valid keys on different managers are different. -/
def KeysApart (managers : N → Manager R) : Prop :=
  ∀ n n' key key', valid key = true → valid key' = true →
    (managers n).storageKey key = (managers n').storageKey key' →
    n = n' ∧ key = key'

/-- In every run of all managers, the calls on each have the results they
have without the others. -/
def Isolated (managers : N → Manager R) : Prop :=
  ∀ as s, (∀ a ∈ as, SharedAction.KeyValid a) →
    run (sharedStep managers) {} as = some s →
    ∀ n, ∃ t, run (step (managers n)) {} (as.filterMap (alone n)) = some t ∧
      s.answers n = t.history

/-- The Redis of all managers and that of one alone. -/
structure Follows (managers : N → Manager R) (n : N) (s : Shared N R)
    (t : Store R) : Prop where
  same : ∀ key, valid key = true →
    s.redis.SameAt ((managers n).storageKey key) t.redis
  history : s.answers n = t.history

theorem answers_append {s : Shared N R} {redis : Redis} {n n' : N}
    {c : Call R} {result : Result} :
    ({ redis, history := s.history ++ [(n', c, result)] } :
        Shared N R).answers n =
      s.answers n ++ if n' = n then [(c, result)] else [] := by
  unfold Shared.answers
  rw [own_append]
  split
  · next h => rw [h, own_cons_self, own_nil]
  · next h => rw [own_cons_other h, own_nil]

omit [DecidableEq N] in
theorem sharedStep_call {s s' : Shared N R} {n : N} {c : Call R}
    {fault : Fault}
    (h : sharedStep managers s (.call n c fault) = some s') :
    c.draws.any (s.drawn.contains ·) = false ∧
      s' =
        { redis := ((managers n).perform fault s.redis c).1
          history := s.history ++
            [(n, c, ((managers n).perform fault s.redis c).2)] } := by
  simp only [sharedStep] at h
  split at h
  · cases h
  · next hfresh =>
      cases h
      exact ⟨Bool.not_eq_true _ ▸ hfresh, rfl⟩

/-- A token that is new to all managers is new to each. -/
theorem fresh_alone {s : Shared N R} {t : Store R} {n : N}
    (h : Follows managers n s t) {c : Call R}
    (hfresh : c.draws.any (s.drawn.contains ·) = false) :
    c.draws.any (t.drawn.contains ·) = false := by
  have hsub : ∀ token, token ∈ t.drawn → token ∈ s.drawn := by
    intro token htoken
    unfold Store.drawn at htoken
    rw [← h.history, List.mem_filterMap] at htoken
    obtain ⟨p, hp, hdraws⟩ := htoken
    exact List.mem_filterMap.mpr ⟨(n, p), mem_own.mp hp, hdraws⟩
  cases hd : c.draws with
  | none => rfl
  | some token =>
      rw [hd] at hfresh
      simp only [Option.any_some, List.contains_eq_mem,
        decide_eq_false_iff_not] at hfresh ⊢
      exact fun hmem => hfresh (hsub token hmem)

theorem Follows.step_own (hkeys : KeysApart managers) {n : N}
    {s s' : Shared N R} {t : Store R} {c : Call R} {fault : Fault}
    (h : Follows managers n s t) (hvalid : valid c.key = true)
    (hs : sharedStep managers s (.call n c fault) = some s') :
    ∃ t', step (managers n) t (.call c fault) = some t' ∧
      Follows managers n s' t' := by
  obtain ⟨hfresh, rfl⟩ := sharedStep_call hs
  obtain ⟨hanswer, hafter⟩ := confined_perform (managers n) fault c
    s.redis t.redis (h.same c.key hvalid)
  refine ⟨_, if_neg (by rw [fresh_alone h hfresh]; simp), ?_, ?_⟩
  · intro key hkey
    by_cases heq : key = c.key
    · subst heq
      exact hafter
    · have hne : (managers n).storageKey key ≠
          (managers n).storageKey c.key :=
        fun hsame => heq (hkeys n n key c.key hkey hvalid hsame).2
      have hleft := perform_elsewhere fault s.redis c hne
      have hright := perform_elsewhere fault t.redis c hne
      have hsame := h.same key hkey
      exact ⟨hleft.1.trans (hsame.1.trans hright.1.symm),
        hleft.2.trans (hsame.2.trans hright.2.symm)⟩
  · rw [answers_append, if_pos rfl, h.history]
    dsimp only at hanswer
    rw [hanswer]
    rfl

theorem Follows.step_other (hkeys : KeysApart managers) {n n' : N}
    (hne : n' ≠ n) {s s' : Shared N R} {t : Store R} {c : Call R}
    {fault : Fault} (h : Follows managers n s t)
    (hvalid : valid c.key = true)
    (hs : sharedStep managers s (.call n' c fault) = some s') :
    Follows managers n s' t := by
  obtain ⟨_, rfl⟩ := sharedStep_call hs
  refine ⟨fun key hkey => ?_, ?_⟩
  · have hleft := perform_elsewhere (m := managers n') fault s.redis c
      (k := (managers n).storageKey key) fun hsame =>
        hne (hkeys n n' key c.key hkey hvalid hsame).1.symm
    have hsame := h.same key hkey
    exact ⟨hleft.1.trans hsame.1, hleft.2.trans hsame.2⟩
  · rw [answers_append, if_neg hne, List.append_nil]
    exact h.history

theorem expire_elsewhere {k k' : String} (r : Redis) (h : k' ≠ k) :
    (r.expire k).SameAt k' r := by
  rcases expire_eq r k with heq | heq
  · rw [heq]
    exact ⟨rfl, rfl⟩
  · rw [heq]
    exact ⟨rfl, after_entries_ne h⟩

theorem Follows.expire {n : N} {s : Shared N R} {t : Store R} (k : String)
    (h : Follows managers n s t) :
    Follows managers n { s with redis := s.redis.expire k }
      { t with redis := t.redis.expire k } := by
  refine ⟨fun key hkey => ?_, h.history⟩
  have hsame := h.same key hkey
  by_cases hk : (managers n).storageKey key = k
  · rw [hk] at hsame ⊢
    exact expire_sameAt hsame
  · have hleft := expire_elsewhere s.redis hk
    have hright := expire_elsewhere t.redis hk
    exact ⟨hleft.1.trans (hsame.1.trans hright.1.symm),
      hleft.2.trans (hsame.2.trans hright.2.symm)⟩

/-- What is played on the manager alone is played there with the same
answer. -/
theorem Follows.step (hkeys : KeysApart managers) {n : N}
    {s s' : Shared N R} {t : Store R} {a : SharedAction N R} {b : Action R}
    (h : Follows managers n s t) (hkey : a.KeyValid)
    (hf : alone n a = some b) (hs : sharedStep managers s a = some s') :
    ∃ t', Idempotency.step (managers n) t b = some t' ∧
      Follows managers n s' t' := by
  cases a with
  | call n' c fault =>
      rw [alone] at hf
      split at hf
      · next heq =>
          subst heq
          cases hf
          exact h.step_own hkeys hkey hs
      · cases hf
  | expire k =>
      cases hf
      cases hs
      exact ⟨_, rfl, h.expire k⟩
  | tick d =>
      cases hf
      cases hs
      refine ⟨_, rfl, fun key hkey => ?_, h.history⟩
      obtain ⟨hnow, hentry⟩ := h.same key hkey
      exact ⟨by rw [hnow], hentry⟩

/-- What is not is not noticed there. -/
theorem Follows.skip (hkeys : KeysApart managers) {n : N}
    {s s' : Shared N R} {t : Store R} {a : SharedAction N R}
    (h : Follows managers n s t) (hkey : a.KeyValid)
    (hf : alone n a = none) (hs : sharedStep managers s a = some s') :
    Follows managers n s' t := by
  cases a with
  | call n' c fault =>
      rw [alone] at hf
      split at hf
      · cases hf
      · next hne => exact h.step_other hkeys hne hkey hs
  | expire k => cases hf
  | tick d => cases hf

theorem isolated_of_keysApart (hkeys : KeysApart managers) :
    Isolated managers := by
  intro as s hvalid hrun n
  have hnew : Follows managers n {} {} := ⟨fun _ _ => ⟨rfl, rfl⟩, rfl⟩
  obtain ⟨t, ht, hfollows⟩ := run_follow
    (fun _ _ _ _ _ h hkey hf hs => h.step hkeys hkey hf hs)
    (fun _ _ _ _ h hkey hf hs => h.skip hkeys hkey hf hs) hnew hvalid hrun
  exact ⟨t, ht, hfollows.history⟩

end Shared

/-! ## Service names -/

/-- A text a key with a colon can open with, up to the colon. -/
def opensKey (text : String) : Bool :=
  match text.toList with
  | [] => false
  | c :: rest => keyStart c && rest.all keyChar && rest.length ≤ 118

/-- The second name is the first, a colon and such a text. -/
def Extends (service service' : String) : Prop :=
  ∃ text, opensKey text = true ∧ service' = service ++ ":" ++ text

theorem storageKey_eq_iff {m' : Manager R} {key key' : String} :
    m.storageKey key = m'.storageKey key' ↔
      m.cfg.service.toList ++ ':' :: key.toList =
        m'.cfg.service.toList ++ ':' :: key'.toList := by
  have hkey : ∀ (m : Manager R) key, m.storageKey key =
      "idempotency:" ++ m.cfg.service ++ ":" ++ key := fun _ _ => rfl
  rw [hkey, hkey, ← String.toList_inj]
  simp only [String.toList_append, List.append_assoc,
    List.append_cancel_left_eq]
  rfl

/-- The piece before a colon of a valid key, where a valid key follows. -/
theorem opensKey_of_valid {key key' : String} {text : List Char}
    (hcut : key.toList = text ++ ':' :: key'.toList)
    (hvalid : valid key = true) (hvalid' : valid key' = true) :
    opensKey (String.ofList text) = true := by
  have hlength : 8 ≤ key'.toList.length := by
    unfold valid at hvalid'
    cases hkey : key'.toList with
    | nil =>
        rw [hkey] at hvalid'
        cases hvalid'
    | cons c rest =>
        rw [hkey] at hvalid'
        simp only [Bool.and_eq_true, decide_eq_true_eq] at hvalid'
        simp only [List.length_cons]
        omega
  unfold valid at hvalid
  rw [hcut] at hvalid
  cases text with
  | nil => simp [keyStart] at hvalid
  | cons c rest =>
      simp only [List.cons_append, Bool.and_eq_true, decide_eq_true_eq,
        List.all_append, List.all_cons, List.length_append,
        List.length_cons] at hvalid
      obtain ⟨⟨⟨hstart, hrest, _⟩, _⟩, hmax⟩ := hvalid
      simp only [opensKey, String.toList_ofList, Bool.and_eq_true,
        decide_eq_true_eq]
      exact ⟨⟨hstart, hrest⟩, by omega⟩

theorem valid_of_opensKey {text : String} (h : opensKey text = true) :
    valid (text ++ ":00000000") = true := by
  unfold opensKey at h
  unfold valid
  rw [String.toList_append]
  cases htext : text.toList with
  | nil =>
      rw [htext] at h
      cases h
  | cons c rest =>
      rw [htext] at h
      simp only [Bool.and_eq_true, decide_eq_true_eq] at h
      obtain ⟨⟨hstart, hrest⟩, hmax⟩ := h
      have htail : ":00000000".toList.all keyChar = true := by decide
      have hlength : ":00000000".toList.length = 9 := by decide
      simp only [List.cons_append, Bool.and_eq_true, decide_eq_true_eq,
        List.all_append, List.length_append, hlength]
      exact ⟨⟨⟨hstart, hrest, htail⟩, by omega⟩, by omega⟩

section Names

variable {N : Type} {managers : N → Manager R}

/-- No service name extends another. -/
def NamesApart (managers : N → Manager R) : Prop :=
  ∀ n n', ¬ Extends (managers n).cfg.service (managers n').cfg.service

/-- Where a name extends another, two valid keys name one entry. -/
theorem storageKey_eq_of_extends {m' : Manager R} {text : String}
    (h : m'.cfg.service = m.cfg.service ++ ":" ++ text) :
    m.storageKey (text ++ ":00000000") = m'.storageKey "00000000" := by
  rw [storageKey_eq_iff, h]
  simp only [String.toList_append, List.append_assoc]
  rfl

theorem keysApart_iff
    (hservice : ∀ n n', (managers n).cfg.service =
      (managers n').cfg.service → n = n') :
    KeysApart managers ↔ NamesApart managers := by
  constructor
  · rintro hkeys n n' ⟨text, htext, hname⟩
    obtain ⟨_, hkey⟩ := hkeys n n' _ _ (valid_of_opensKey htext)
      (by decide) (storageKey_eq_of_extends hname)
    have hlength := congrArg (fun key => key.toList.length) hkey
    simp only [String.toList_append, List.length_append] at hlength
    have hnine : ":00000000".toList.length = 9 := by decide
    have height : "00000000".toList.length = 8 := by decide
    omega
  · intro hnames n n' key key' hkey hkey' hsame
    have hextends : ∀ {n n' key key' text}, valid key = true →
        valid key' = true →
        (managers n').cfg.service.toList =
          (managers n).cfg.service.toList ++ ':' :: text →
        key.toList = text ++ ':' :: key'.toList → False := by
      intro n n' key key' text hkey hkey' hname hcut
      refine hnames n n' ⟨String.ofList text,
        opensKey_of_valid hcut hkey hkey', String.toList_inj.mp ?_⟩
      simp [hname]
    rcases Joined.cut_eq_iff.mp (storageKey_eq_iff.mp hsame) with
      ⟨hname, hcut⟩ | ⟨text, hname, hcut⟩ | ⟨text, hname, hcut⟩
    · exact ⟨hservice n n' (String.toList_inj.mp hname),
        String.toList_inj.mp hcut⟩
    · exact (hextends hkey hkey' hname hcut).elim
    · exact (hextends hkey' hkey hname hcut).elim

/-! ## Two managers on one entry -/

/-- `Begin` on a key without a record makes one. -/
theorem begin_new (hserves : m.Serves) (key fingerprint owner : String)
    {r : Redis} (hnone : r.entries (m.storageKey key) = none) :
    (m.begin key fingerprint owner .none r).2 =
        .decision { state := .acquired, owner } ∧
      ∃ deadline,
        (m.begin key fingerprint owner .none r).1.entries (m.storageKey key) =
          some (.fresh fingerprint owner deadline) := by
  obtain ⟨havailable, httl⟩ := hserves
  have hms : ¬ milliseconds m.cfg.processingTTL ≤ 0 := Int.not_le.mpr httl
  have hcall : m.begin key fingerprint owner .none r =
      ((beginScript (m.storageKey key) fingerprint
        (milliseconds m.cfg.processingTTL) owner r).1,
        .decision { state := .acquired, owner }) := by
    simp [Manager.begin, havailable, Fault.run, beginScript, hnone,
      Manager.decide]
  rw [hcall]
  refine ⟨rfl, some (r.now + milliseconds m.cfg.processingTTL), ?_⟩
  simp only [beginScript, hnone, Redis.pexpire, set_entries_self, hms,
    if_false]
  rfl

/-- `Begin` of the same request finds it. -/
theorem begin_again (hserves : m.Serves) {key fingerprint owner' : String}
    (owner : String) {r : Redis} {deadline : Option Time}
    (hentry : r.entries (m.storageKey key) =
      some (.fresh fingerprint owner' deadline)) :
    (m.begin key fingerprint owner .none r).2 =
      .decision { state := .processing } := by
  have havailable := hserves.1
  simp [Manager.begin, havailable, Fault.run, beginScript, hentry,
    Entry.fresh, Manager.decide]

/-- Where a name extends another, the managers get into each other's way. -/
theorem not_isolated [DecidableEq N] (hserves : ∀ n, (managers n).Serves)
    {n n' : N}
    (h : Extends (managers n).cfg.service (managers n').cfg.service) :
    ¬ Isolated managers := by
  obtain ⟨text, htext, hname⟩ := h
  intro hisolated
  have hne : n ≠ n' := by
    rintro rfl
    have hlength := congrArg (fun name => name.toList.length) hname
    simp only [String.toList_append, List.length_append] at hlength
    have hcolon : ":".toList.length = 1 := by decide
    omega
  -- The first manager begins a request, then the other one the same entry.
  let first : Call R := .begin (text ++ ":00000000") "" "1"
  let second : Call R := .begin "00000000" "" "2"
  let redis := ((managers n).perform .none {} first).1
  have hrun : run (sharedStep managers) {}
      [.call n first .none, .call n' second .none] = some
        { redis := ((managers n').perform .none redis second).1
          history :=
            [(n, first, ((managers n).perform .none {} first).2),
              (n', second, ((managers n').perform .none redis second).2)] } :=
    rfl
  have hvalid : ∀ a ∈ [SharedAction.call n first .none,
      .call n' second .none], a.KeyValid := by
    rintro a (_ | ⟨_, _ | ⟨_, ⟨⟩⟩⟩)
    · exact valid_of_opensKey htext
    · show valid "00000000" = true
      decide
  obtain ⟨t, ht, hanswers⟩ := hisolated _ _ hvalid hrun n'
  have halone : t.history =
      [(second, ((managers n').perform .none {} second).2)] := by
    simp only [List.filterMap_cons, alone, if_neg hne, if_pos,
      List.filterMap_nil] at ht
    cases ht
    rfl
  rw [halone] at hanswers
  simp only [Shared.answers, own_cons_other hne, own_cons_self, own_nil,
    List.cons.injEq, Prod.mk.injEq, and_true, true_and] at hanswers
  obtain ⟨_, deadline, hentry⟩ := begin_new (hserves n)
    (text ++ ":00000000") "" "1" (r := {}) rfl
  rw [storageKey_eq_of_extends hname] at hentry
  have hfound := begin_again (hserves n') "2" hentry
  have hnew := (begin_new (hserves n') "00000000" "" "2" (r := {}) rfl).1
  have hcontra := hfound.symm.trans (hanswers.trans hnew)
  cases hcontra

/-- Managers of different services on one Redis: the storage keys of valid
keys are all different if and only if no service name is another one followed
by a colon and a text a key can open with. Then the calls on each manager have
the results they have without the others, in every run, and for managers that
keep records only then. -/
theorem isolated_iff [DecidableEq N] (managers : N → Manager R)
    (hservice : ∀ n n', (managers n).cfg.service =
      (managers n').cfg.service → n = n') :
    (KeysApart managers ↔ NamesApart managers) ∧
    (NamesApart managers → Isolated managers) ∧
    ((∀ n, (managers n).Serves) → Isolated managers →
      NamesApart managers) := by
  have hkeys := keysApart_iff hservice
  refine ⟨hkeys, fun hnames => isolated_of_keysApart (hkeys.mpr hnames), ?_⟩
  intro hserves hisolated n n' hextends
  exact not_isolated hserves hextends hisolated

end Names

theorem not_extends {service service' : String}
    (h : (service.toList ++ [':']).isPrefixOf service'.toList = false) :
    ¬ Extends service service' := by
  rintro ⟨text, _, hname⟩
  exact Joined.ne_longer h text.toList (by simp [hname])

/-- The manager of the orders service and that of another. -/
def besideOrders (service : String) : Bool → Manager Bytes
  | false => orders
  | true => .new true { ordersConfig with service } textJson

theorem isolated_iff_billing : NamesApart (besideOrders "billing") ∧
    Isolated (besideOrders "billing") := by
  have hnames : NamesApart (besideOrders "billing") := by
    intro n n'
    cases n <;> cases n' <;> exact not_extends (by decide)
  refine ⟨hnames, (isolated_iff (besideOrders "billing") ?_).2.1 hnames⟩
  intro n n' h
  cases n <;> cases n' <;> first | rfl | exact absurd h (by decide)

/-- The orders service of a region: the two valid keys name one entry, and a
request that was begun on one manager is in progress on the other. -/
theorem regions_share_entry :
    valid "eu:12345678" = true ∧ valid "12345678" = true ∧
    orders.storageKey "eu:12345678" =
      (besideOrders "orders:eu" true).storageKey "12345678" ∧
    (∃ s, run (sharedStep (besideOrders "orders:eu")) {}
        [.call false (.begin "eu:12345678" "f" "1") .none,
          .call true (.begin "12345678" "f" "2") .none] = some s ∧
      s.answers true =
        [(.begin "12345678" "f" "2", .decision { state := .processing })]) ∧
    ∃ t, run (step (besideOrders "orders:eu" true)) {}
        [.call (.begin "12345678" "f" "2") .none] = some t ∧
      t.history = [(.begin "12345678" "f" "2",
        .decision { state := .acquired, owner := "2" })] := by
  refine ⟨by decide, by decide, by decide, ⟨_, rfl, ?_⟩, _, rfl, ?_⟩
  · decide
  · decide

end PlatformGo.Idempotency
