import PlatformGo.Lib.Distinct
import PlatformGo.Ref.AppAccess

/-!
# What an answer about applications decides

The map `Check` makes of an answer holds for an id the last decision the answer
has for it (`lookup_decisionMap`). So with two decisions for one id that differ
the order of the answer decides, and a grant at the end hides a refusal before
it. Where the decisions for an id agree, the order plays no part; this is the
one place where agreement is used.

`normalizeIDs` looks at the number of ids before it leaves out the repeated
ones, so what it bounds is not the number of ids it returns.
-/

namespace PlatformGo.AppAccess

open PlatformGo.Distinct Filled

/-! ## The ids of a request -/

/-- The trimmed ids in the order of their first occurrence. -/
def distinctIDs (values : List Bytes) : List Bytes :=
  (values.map Utf8.trimSpace).eraseDups

theorem normalizeIDs_loop_eq (result values : List Bytes) :
    normalizeIDs.loop result values =
      if ∃ value ∈ values, Utf8.trimSpace value = [] then
        .error errInvalidArgument
      else .ok (collect result (values.map Utf8.trimSpace)) := by
  induction values generalizing result with
  | nil => simp [normalizeIDs.loop, collect]
  | cons value values ih =>
      rw [normalizeIDs.loop, List.map_cons, collect]
      by_cases hblank : Utf8.trimSpace value = []
      · simp [hblank]
      · simp only [hblank, if_false, ih, List.exists_mem_cons_iff, false_or,
          List.contains_iff_mem]
        split <;> rfl

/-- What is accepted, and what is made of it. -/
theorem normalizeIDs_eq_ok {values ids : List Bytes} :
    normalizeIDs values = .ok ids ↔
      (values ≠ [] ∧ values.length ≤ maxBatchSize) ∧
        (∀ value ∈ values, Utf8.trimSpace value ≠ []) ∧
        ids = distinctIDs values := by
  rw [normalizeIDs, normalizeIDs_loop_eq, collect_nil_eq]
  split
  · next hlen =>
      refine ⟨nofun, ?_⟩
      rintro ⟨⟨hne, hle⟩, -⟩
      rcases hlen with hlen | hlen
      · exact absurd (List.length_eq_zero_iff.mp hlen) hne
      · omega
  · next hlen =>
      rw [not_or, List.length_eq_zero_iff, Nat.not_lt] at hlen
      split
      · next hblank =>
          refine ⟨nofun, ?_⟩
          rintro ⟨-, hall, -⟩
          obtain ⟨value, hmem, htrim⟩ := hblank
          exact absurd htrim (hall value hmem)
      · next hblank =>
          have hall : ∀ value ∈ values, Utf8.trimSpace value ≠ [] :=
            fun value hmem htrim => hblank ⟨value, hmem, htrim⟩
          constructor
          · intro h
            cases h
            exact ⟨hlen, hall, rfl⟩
          · rintro ⟨-, -, rfl⟩
            rfl

theorem mem_distinctIDs {values : List Bytes} {id : Bytes} :
    id ∈ distinctIDs values ↔ ∃ value ∈ values, Utf8.trimSpace value = id := by
  rw [distinctIDs, List.mem_eraseDups, List.mem_map]

/-- Ids that have been normalized are trimmed and occur once. -/
theorem distinctIDs_distinctIDs (values : List Bytes) :
    distinctIDs (distinctIDs values) = distinctIDs values := by
  have htrimmed : (distinctIDs values).map Utf8.trimSpace =
      distinctIDs values := by
    refine (List.map_congr_left ?_).trans (List.map_id _)
    intro id hid
    obtain ⟨value, -, rfl⟩ := mem_distinctIDs.mp hid
    exact Utf8.trimSpace_trimSpace value
  rw [distinctIDs, htrimmed]
  exact eraseDups_of_nodup (nodup_eraseDups _)

theorem distinctIDs_length_le (values : List Bytes) :
    (distinctIDs values).length ≤ values.length := by
  calc (distinctIDs values).length
    _ ≤ (values.map Utf8.trimSpace).length := length_eraseDups_le _
    _ = values.length := List.length_map _

/-- `normalizeIDs` accepts a list if its distinct ids are a batch, and returns
those. -/
structure CountsDistinct (values : List Bytes) : Prop where
  accepted : (∃ ids, normalizeIDs values = .ok ids) ↔
    (∀ value ∈ values, Utf8.trimSpace value ≠ []) ∧
      1 ≤ (distinctIDs values).length ∧
      (distinctIDs values).length ≤ maxBatchSize
  result : ∀ ids, normalizeIDs values = .ok ids → ids = distinctIDs values
  nodup : ∀ ids, normalizeIDs values = .ok ids → ids.Nodup
  again : ∀ ids, normalizeIDs values = .ok ids → normalizeIDs ids = .ok ids

theorem distinctIDs_ne_nil {values : List Bytes} :
    distinctIDs values ≠ [] ↔ values ≠ [] := by
  constructor
  · rintro h rfl
    exact h rfl
  · intro h hnil
    obtain ⟨value, hvalue⟩ := List.exists_mem_of_ne_nil values h
    have hmem := mem_distinctIDs.mpr ⟨value, hvalue, rfl⟩
    rw [hnil] at hmem
    cases hmem

theorem normalizeIDs_ne_nil {values ids : List Bytes}
    (h : normalizeIDs values = .ok ids) : ∀ id ∈ ids, id ≠ [] := by
  obtain ⟨-, hall, rfl⟩ := normalizeIDs_eq_ok.mp h
  intro id hid
  obtain ⟨value, hvalue, rfl⟩ := mem_distinctIDs.mp hid
  exact hall value hvalue

theorem normalizeIDs_again {values ids : List Bytes}
    (h : normalizeIDs values = .ok ids) : normalizeIDs ids = .ok ids := by
  obtain ⟨⟨hne, hlen⟩, hall, rfl⟩ := normalizeIDs_eq_ok.mp h
  refine normalizeIDs_eq_ok.mpr ⟨⟨distinctIDs_ne_nil.mpr hne, ?_⟩, ?_, ?_⟩
  · exact Nat.le_trans (distinctIDs_length_le values) hlen
  · intro id hid
    obtain ⟨value, hvalue, rfl⟩ := mem_distinctIDs.mp hid
    rw [Utf8.trimSpace_trimSpace]
    exact hall value hvalue
  · exact (distinctIDs_distinctIDs values).symm

/-- `maxBatchSize` bounds the list as it is given. That comes to a bound on the
distinct ids unless a longer list, without a blank id, has few of them. -/
theorem counts_distinct_iff (values : List Bytes) :
    CountsDistinct values ↔
      values.length ≤ maxBatchSize ∨
        (∃ value ∈ values, Utf8.trimSpace value = []) ∨
        maxBatchSize < (distinctIDs values).length := by
  have hpos : 1 ≤ (distinctIDs values).length ↔ values ≠ [] := by
    rw [← distinctIDs_ne_nil]
    exact List.length_pos_iff
  constructor
  · intro h
    by_contra hnot
    rw [not_or, not_or, not_exists] at hnot
    obtain ⟨hlong, hall, hfew⟩ := hnot
    have hall : ∀ value ∈ values, Utf8.trimSpace value ≠ [] :=
      fun value hvalue htrim => hall value ⟨hvalue, htrim⟩
    have hne : values ≠ [] := by
      rintro rfl
      exact hlong (Nat.zero_le _)
    obtain ⟨ids, hids⟩ :=
      h.accepted.mpr ⟨hall, hpos.mpr hne, Nat.not_lt.mp hfew⟩
    exact hlong (normalizeIDs_eq_ok.mp hids).1.2
  · intro h
    refine ⟨?_, ?_, ?_, ?_⟩
    · constructor
      · rintro ⟨ids, hids⟩
        obtain ⟨⟨hne, hlen⟩, hall, -⟩ := normalizeIDs_eq_ok.mp hids
        exact ⟨hall, hpos.mpr hne,
          Nat.le_trans (distinctIDs_length_le values) hlen⟩
      · rintro ⟨hall, hone, hfew⟩
        refine ⟨_, normalizeIDs_eq_ok.mpr ⟨⟨hpos.mp hone, ?_⟩, hall, rfl⟩⟩
        rcases h with hlen | ⟨value, hvalue, htrim⟩ | hmany
        · exact hlen
        · exact absurd htrim (hall value hvalue)
        · exact absurd hfew (Nat.not_le.mpr hmany)
    · intro ids hids
      exact (normalizeIDs_eq_ok.mp hids).2.2
    · intro ids hids
      rw [(normalizeIDs_eq_ok.mp hids).2.2]
      exact nodup_eraseDups _
    · intro ids hids
      exact normalizeIDs_again hids

/-- One id, given too often. -/
theorem repeated_id_refused :
    ∃ values : List Bytes, (∀ value ∈ values, Utf8.trimSpace value ≠ []) ∧
      (distinctIDs values).length = 1 ∧
      normalizeIDs values = .error errInvalidArgument := by
  refine ⟨List.replicate 101 (bytes "orders"), ?_, ?_, ?_⟩
  · intro value hvalue
    rw [List.eq_of_mem_replicate hvalue]
    decide
  · decide +kernel
  · decide +kernel

/-! ## The decisions of an answer -/

/-- The decisions an answer has for an id. -/
def decisionsFor (answer : List ApplicationDecision) (id : Bytes) :
    List ApplicationDecision :=
  answer.filter fun d => d.key = id

theorem mem_decisionsFor {answer : List ApplicationDecision} {id : Bytes}
    {d : ApplicationDecision} :
    d ∈ decisionsFor answer id ↔ d ∈ answer ∧ d.key = id := by
  rw [decisionsFor, List.mem_filter, decide_eq_true_iff]

theorem lookup_decisionMap {answer : List ApplicationDecision} {id : Bytes}
    (hid : id ≠ []) :
    (decisionMap answer).lookup id =
      (decisionsFor answer id).getLast?.map ApplicationDecision.decision := by
  have hfilter : (answer.filter fun d => d.key ≠ []).filter
      (fun d => d.key = id) = decisionsFor answer id := by
    rw [List.filter_filter]
    refine List.filter_congr fun d _ => ?_
    by_cases hd : d.key = id
    · simp [hd, hid]
    · simp [hd]
  rw [decisionMap, lookup_fill, hfilter]
  exact Option.or_none

theorem complete_eq_ok {ids : List Bytes}
    {decisions m : AList fun _ : Bytes => Decision} :
    complete ids decisions = .ok m ↔
      (∀ id ∈ ids, (decisions.lookup id).isSome = true) ∧ m = decisions := by
  rw [complete]
  split
  · next id hfind =>
      refine ⟨nofun, ?_⟩
      rintro ⟨hall, -⟩
      have hsome := hall id (List.mem_of_find?_eq_some hfind)
      have hnone := List.find?_some hfind
      rw [Option.isNone_iff_eq_none] at hnone
      rw [hnone] at hsome
      cases hsome
  · next hfind =>
      have hall : ∀ id ∈ ids, (decisions.lookup id).isSome = true := by
        intro id hid
        have hnot := List.find?_eq_none.mp hfind id hid
        rwa [Bool.not_eq_true, Option.isNone_eq_false_iff] at hnot
      constructor
      · intro h
        cases h
        exact ⟨hall, rfl⟩
      · rintro ⟨-, rfl⟩
        rfl

/-- `Check` with a client that gives an answer. -/
theorem check_eq {v : GRPCVerifier} {client : BatchCheckClient}
    {tenantID : Bytes} {applicationIDs ids : List Bytes}
    {answer : List ApplicationDecision} (hclient : v.client = some client)
    (htenant : Utf8.trimSpace tenantID ≠ [])
    (hids : normalizeIDs applicationIDs = .ok ids)
    (hanswer : client ⟨Utf8.trimSpace tenantID, ids⟩ = .ok answer) :
    v.check tenantID applicationIDs = complete ids (decisionMap answer) := by
  obtain ⟨b, rest, hcons⟩ := List.exists_cons_of_ne_nil htenant
  simp only [GRPCVerifier.check, hids, hclient, hcons] at hanswer ⊢
  rw [hanswer]

/-- The requests `Check` refuses before it asks. -/
theorem check_refused {v : GRPCVerifier} {tenantID : Bytes}
    {applicationIDs : List Bytes}
    (h : Utf8.trimSpace tenantID = [] ∨
      ∀ ids, normalizeIDs applicationIDs ≠ .ok ids) :
    v.check tenantID applicationIDs =
      .error ⟨errInvalidArgument, bytes ("tenant and 1-" ++
        toString maxBatchSize ++ " unique application IDs are required")⟩ := by
  rw [GRPCVerifier.check]
  rcases h with h | h
  · rw [h]
  · cases hids : normalizeIDs applicationIDs with
    | ok ids => exact absurd hids (h ids)
    | error err => cases Utf8.trimSpace tenantID <;> rfl

theorem normalizeIDs_singleton {applicationID : Bytes} {ids : List Bytes} :
    normalizeIDs [applicationID] = .ok ids ↔
      Utf8.trimSpace applicationID ≠ [] ∧
        ids = [Utf8.trimSpace applicationID] := by
  rw [normalizeIDs_eq_ok]
  have hone : distinctIDs [applicationID] = [Utf8.trimSpace applicationID] :=
    eraseDups_of_nodup (List.nodup_singleton _)
  rw [hone]
  simp [maxBatchSize]

/-- A verifier whose client gives one answer to every request. -/
def answering (answer : List ApplicationDecision) : GRPCVerifier :=
  ⟨some fun _ => .ok answer⟩

variable {answer answer' : List ApplicationDecision} {tenantID : Bytes}

/-- Access is granted by the last decision for the id. -/
theorem verify_none_iff {applicationID : Bytes} :
    (answering answer).verify tenantID applicationID = none ↔
      (Utf8.trimSpace tenantID ≠ [] ∧ Utf8.trimSpace applicationID ≠ []) ∧
        ∃ d, (decisionsFor answer (Utf8.trimSpace applicationID)).getLast? =
          some d ∧ d.granted = true := by
  by_cases hvalid : Utf8.trimSpace tenantID ≠ [] ∧
      Utf8.trimSpace applicationID ≠ []
  · obtain ⟨htenant, hid⟩ := hvalid
    have hcheck := check_eq (v := answering answer) rfl htenant
      (normalizeIDs_singleton.mpr ⟨hid, rfl⟩) rfl
    rw [GRPCVerifier.verify, hcheck]
    have hlookup : (decisionMap answer).lookup _ = _ := lookup_decisionMap hid
    cases hlast : (decisionsFor answer (Utf8.trimSpace applicationID)).getLast? with
    | none =>
        rw [hlast] at hlookup
        cases hcomplete : complete [Utf8.trimSpace applicationID]
            (decisionMap answer) with
        | error err => simp
        | ok m =>
            have hsome := (complete_eq_ok.mp hcomplete).1 _ List.mem_cons_self
            rw [hlookup] at hsome
            cases hsome
    | some d =>
        rw [hlast] at hlookup
        have hcomplete : complete [Utf8.trimSpace applicationID]
            (decisionMap answer) = .ok (decisionMap answer) := by
          refine complete_eq_ok.mpr ⟨?_, rfl⟩
          intro id hmem
          rw [List.mem_singleton.mp hmem, hlookup]
          rfl
        simp only [hcomplete, hlookup]
        simp [htenant, hid, ApplicationDecision.decision]
  · refine iff_of_false ?_ fun h => hvalid h.1
    rw [GRPCVerifier.verify, check_refused]
    · simp
    · rw [not_and_or, not_not, not_not] at hvalid
      rcases hvalid with h | h
      · exact .inl h
      · refine .inr fun ids hids => ?_
        exact (normalizeIDs_singleton.mp hids).1 h

/-! ## Answers in another order -/

/-- Two decisions for an id never differ in `f`. -/
def AgreeOn {α : Type} (f : ApplicationDecision → α)
    (answer : List ApplicationDecision) (id : Bytes) : Prop :=
  ∀ d ∈ answer, ∀ d' ∈ answer, d.key = id → d'.key = id → f d = f d'

/-- An answer may end with any of its decisions. -/
theorem exists_perm_getLast? {d : ApplicationDecision} {id : Bytes}
    (hd : d ∈ answer) (hkey : d.key = id) :
    ∃ answer', answer'.Perm answer ∧
      (decisionsFor answer' id).getLast? = some d := by
  refine ⟨answer.erase d ++ [d], ?_, ?_⟩
  · exact (List.perm_append_comm).trans (List.perm_cons_erase hd).symm
  · rw [decisionsFor, List.filter_append]
    simp [hkey]

theorem getLast?_agree {α : Type} {f : ApplicationDecision → α} {id : Bytes}
    (hagree : AgreeOn f answer id) (hperm : answer'.Perm answer) :
    (decisionsFor answer' id).getLast?.map f =
      (decisionsFor answer id).getLast?.map f := by
  have hfor : (decisionsFor answer' id).Perm (decisionsFor answer id) :=
    hperm.filter _
  cases hlast : (decisionsFor answer id).getLast? with
  | none =>
      rw [List.getLast?_eq_none_iff] at hlast
      rw [hlast] at hfor
      rw [hfor.eq_nil]
      rfl
  | some d =>
      cases hlast' : (decisionsFor answer' id).getLast? with
      | none =>
          rw [List.getLast?_eq_none_iff] at hlast'
          rw [hlast'] at hfor
          rw [hfor.symm.eq_nil] at hlast
          cases hlast
      | some d' =>
          have hd := mem_decisionsFor.mp (List.mem_of_getLast? hlast)
          have hd' := mem_decisionsFor.mp
            (hfor.mem_iff.mp (List.mem_of_getLast? hlast'))
          exact congrArg some (hagree d' hd'.1 d hd.1 hd'.2 hd.2)

/-- The two results of `Check` say the same about the ids. -/
def SameDecisions (ids : List Bytes) :
    Except Failure (AList fun _ : Bytes => Decision) →
      Except Failure (AList fun _ : Bytes => Decision) → Prop
  | .error err, .error err' => err = err'
  | .ok m, .ok m' => ∀ id ∈ ids, m.lookup id = m'.lookup id
  | _, _ => False

theorem isSome_lookup_decisionMap {id : Bytes} (hid : id ≠ []) :
    ((decisionMap answer).lookup id).isSome = true ↔
      ∃ d ∈ answer, d.key = id := by
  rw [lookup_decisionMap hid, Option.isSome_map]
  constructor
  · intro h
    obtain ⟨d, hd⟩ := Option.isSome_iff_exists.mp h
    exact ⟨d, mem_decisionsFor.mp (List.mem_of_getLast? hd)⟩
  · rintro ⟨d, hd⟩
    have hmem := mem_decisionsFor.mpr hd
    rw [Option.isSome_iff_ne_none, Ne, List.getLast?_eq_none_iff]
    exact List.ne_nil_of_mem hmem

/-- Which id is missing does not depend on the order. -/
theorem complete_perm {ids : List Bytes} (hids : ∀ id ∈ ids, id ≠ [])
    (hperm : answer'.Perm answer)
    (hagree : (∀ id ∈ ids, ∃ d ∈ answer, d.key = id) →
      ∀ id ∈ ids, AgreeOn ApplicationDecision.decision answer id) :
    SameDecisions ids (complete ids (decisionMap answer'))
      (complete ids (decisionMap answer)) := by
  have hmissing : (ids.find? fun id => ((decisionMap answer').lookup id).isNone)
      = ids.find? fun id => ((decisionMap answer).lookup id).isNone := by
    rw [← List.head?_filter, ← List.head?_filter]
    refine congrArg List.head? (List.filter_congr fun id hid => ?_)
    have hsome : ((decisionMap answer').lookup id).isSome =
        ((decisionMap answer).lookup id).isSome := by
      rw [Bool.eq_iff_iff, isSome_lookup_decisionMap (hids id hid),
        isSome_lookup_decisionMap (hids id hid)]
      simp only [hperm.mem_iff]
    rw [← Option.not_isSome, ← Option.not_isSome, hsome]
  rw [complete, complete, hmissing]
  cases hfind : ids.find? fun id =>
      ((decisionMap answer).lookup id).isNone with
  | some id => rfl
  | none =>
      intro id hid
      have hpresent : ∀ id ∈ ids, ∃ d ∈ answer, d.key = id := by
        intro id hid
        have hnot := List.find?_eq_none.mp hfind id hid
        rw [Bool.not_eq_true, Option.isNone_eq_false_iff] at hnot
        exact (isSome_lookup_decisionMap (hids id hid)).mp hnot
      rw [lookup_decisionMap (hids id hid), lookup_decisionMap (hids id hid)]
      exact getLast?_agree (hagree hpresent id hid) hperm

/-- No order of an answer makes `Verify` grant what one of its decisions
refuses, and `Check` returns the same whatever the order. Each holds if and
only if the decisions for an id that is asked about agree. -/
theorem unambiguous_iff_agree (tenantID applicationID : Bytes)
    (applicationIDs : List Bytes) (answer : List ApplicationDecision) :
    ((∀ answer', answer'.Perm answer →
        (answering answer').verify tenantID applicationID = none →
        (∃ d ∈ answer', d.key = Utf8.trimSpace applicationID) ∧
          ∀ d ∈ answer', d.key = Utf8.trimSpace applicationID →
            d.granted = true) ↔
      (Utf8.trimSpace tenantID ≠ [] → Utf8.trimSpace applicationID ≠ [] →
        AgreeOn ApplicationDecision.granted answer
          (Utf8.trimSpace applicationID))) ∧
    ((∀ answer', answer'.Perm answer →
        SameDecisions (distinctIDs applicationIDs)
          ((answering answer').check tenantID applicationIDs)
          ((answering answer).check tenantID applicationIDs)) ↔
      (Utf8.trimSpace tenantID ≠ [] →
        ∀ ids, normalizeIDs applicationIDs = .ok ids →
          (∀ id ∈ ids, ∃ d ∈ answer, d.key = id) →
          ∀ id ∈ ids, AgreeOn ApplicationDecision.decision answer id)) := by
  refine ⟨⟨?_, ?_⟩, ⟨?_, ?_⟩⟩
  · intro h htenant hid
    -- the answer may end with either of two decisions
    have hgrants : ∀ d ∈ answer, ∀ d' ∈ answer,
        d.key = Utf8.trimSpace applicationID →
        d'.key = Utf8.trimSpace applicationID →
        d.granted = true → d'.granted = true := by
      intro d hd d' hd' hkey hkey' hgranted
      obtain ⟨answer', hperm, hlast⟩ := exists_perm_getLast? hd hkey
      have hnone : (answering answer').verify tenantID applicationID = none :=
        verify_none_iff.mpr ⟨⟨htenant, hid⟩, d, hlast, hgranted⟩
      exact (h answer' hperm hnone).2 d' (hperm.mem_iff.mpr hd') hkey'
    intro d hd d' hd' hkey hkey'
    exact Bool.eq_iff_iff.mpr
      ⟨hgrants d hd d' hd' hkey hkey', hgrants d' hd' d hd hkey' hkey⟩
  · intro hagree answer' hperm hnone
    obtain ⟨⟨htenant, hid⟩, d, hlast, hgranted⟩ := verify_none_iff.mp hnone
    obtain ⟨hd, hkey⟩ := mem_decisionsFor.mp (List.mem_of_getLast? hlast)
    refine ⟨⟨d, hd, hkey⟩, fun d' hd' hkey' => ?_⟩
    rw [hagree htenant hid d' (hperm.mem_iff.mp hd') d
      (hperm.mem_iff.mp hd) hkey' hkey, hgranted]
  · intro h htenant ids hids hpresent id hid d hd d' hd' hkey hkey'
    obtain ⟨-, -, hdistinct⟩ := normalizeIDs_eq_ok.mp hids
    have hne := normalizeIDs_ne_nil hids
    have hok : ∀ {answer'}, answer'.Perm answer →
        (answering answer').check tenantID applicationIDs =
          .ok (decisionMap answer') := by
      intro answer' hperm
      rw [check_eq (v := answering answer') rfl htenant hids rfl]
      refine complete_eq_ok.mpr ⟨fun id hid => ?_, rfl⟩
      obtain ⟨d, hd, hkey⟩ := hpresent id hid
      exact (isSome_lookup_decisionMap (hne id hid)).mpr
        ⟨d, hperm.mem_iff.mpr hd, hkey⟩
    have hends : ∀ d ∈ answer, d.key = id →
        (decisionMap answer).lookup id = some d.decision := by
      intro d hd hkey
      obtain ⟨answer', hperm, hlast⟩ := exists_perm_getLast? hd hkey
      have hsame := h answer' hperm
      rw [hok hperm, hok (List.Perm.refl _)] at hsame
      rw [← hsame id (hdistinct ▸ hid), lookup_decisionMap (hne id hid), hlast]
      rfl
    exact Option.some.inj ((hends d hd hkey).symm.trans (hends d' hd' hkey'))
  · intro hagree answer' hperm
    by_cases hvalid : Utf8.trimSpace tenantID ≠ [] ∧
        ∃ ids, normalizeIDs applicationIDs = .ok ids
    · obtain ⟨htenant, ids, hids⟩ := hvalid
      obtain ⟨-, -, hdistinct⟩ := normalizeIDs_eq_ok.mp hids
      rw [check_eq (v := answering answer') rfl htenant hids rfl,
        check_eq (v := answering answer) rfl htenant hids rfl, ← hdistinct]
      exact complete_perm (normalizeIDs_ne_nil hids) hperm
        (hagree htenant ids hids)
    · have hrefused : Utf8.trimSpace tenantID = [] ∨
          ∀ ids, normalizeIDs applicationIDs ≠ .ok ids := by
        rw [not_and_or, not_not, not_exists] at hvalid
        exact hvalid
      rw [check_refused hrefused, check_refused hrefused]
      rfl

/-- A refusal and a grant for one id. -/
def twoDecisions : List ApplicationDecision :=
  [{ applicationId := bytes "billing", reason := bytes "expired" },
    { applicationId := bytes " billing", granted := true }]

/-- The grant at the end counts, and with the refusal at the end it does
not. -/
theorem refusal_hidden :
    ∃ answer : List ApplicationDecision, ∃ d ∈ answer,
      d.key = Utf8.trimSpace (bytes "billing") ∧ d.granted = false ∧
      (answering answer).verify (bytes "acme") (bytes "billing") = none ∧
      (answering answer.reverse).verify (bytes "acme") (bytes "billing") =
        some ⟨errNotGranted,
          bytes "tenant=acme application=billing reason=expired"⟩ := by
  refine ⟨twoDecisions, _, List.mem_cons_self, ?_, rfl, ?_, ?_⟩
  · decide
  · decide +kernel
  · decide +kernel

end PlatformGo.AppAccess
