import PlatformGo.Proofs.RegistrantExit
import PlatformGo.Ref.Refresher

/-!
# Jitter against what was promised

`waitJitter` changes a duration by up to a fifth. The constructors compare the
durations they are given, before the jitter: a heartbeat with the lease, a
refresh with the age at which a snapshot is stale. What counts is the longest
wait (`longest`), and the shortest only in so far as it is positive. The
heartbeat has to beat a lease that is cut to whole seconds and to 32 bits; the
snapshot has to last through a watch and the wait behind it.

Durations have 64 bits. A duration so long that its jitter wraps gives some
waits that are negative and one that is the longest there is, which is enough
for both comparisons to fail as they would without the bound.
-/

namespace PlatformGo.ServiceRegistry

open Lts

/-- A `time.Duration`. -/
def IsDuration (t : Int) : Prop := -2 ^ 63 ≤ t ∧ t < 2 ^ 63

instance (t : Int) : Decidable (IsDuration t) :=
  inferInstanceAs (Decidable (_ ∧ _))

/-! ## The waits of a duration -/

/-- The longest wait the jitter can make of a duration. -/
def longest (duration : Int) : Int :=
  duration + max (duration.tdiv 5 - 1) 0

section Waits

variable {duration random : Int}

theorem fifth_pos_iff : 0 < duration.tdiv 5 ↔ 5 ≤ duration := by
  by_cases h : 0 ≤ duration
  · rw [Int.tdiv_eq_ediv_of_nonneg h]
    omega
  · have hneg : (-duration).tdiv 5 = -duration.tdiv 5 := Int.neg_tdiv _ _
    rw [Int.tdiv_eq_ediv_of_nonneg (by omega)] at hneg
    omega

theorem longest_of_long (h : 5 ≤ duration) :
    longest duration = duration + duration / 5 - 1 := by
  rw [longest, Int.tdiv_eq_ediv_of_nonneg (by omega)]
  omega

theorem longest_of_short (h : ¬ 5 ≤ duration) : longest duration = duration := by
  rw [longest]
  have := mt fifth_pos_iff.mp h
  omega

theorem timer_of_short (h : ¬ 5 ≤ duration) :
    waitJitterTimer duration random = duration :=
  if_neg (mt fifth_pos_iff.mp h)

theorem drawn_of_long (h : 5 ≤ duration) :
    Drawn duration random ↔ 0 ≤ random ∧ random < duration / 5 * 2 := by
  rw [Drawn, fifth_pos_iff, Int.tdiv_eq_ediv_of_nonneg (by omega)]
  exact forall_prop_of_true h

theorem drawn_of_short (h : ¬ 5 ≤ duration) : Drawn duration random :=
  fun hpos => absurd (fifth_pos_iff.mp hpos) h

/-- A wait is the duration with a number from minus a fifth up to a fifth
added, or that number wrapped around. -/
theorem timer_of_long (hd : IsDuration duration) (h : 5 ≤ duration)
    (hdrawn : Drawn duration random) :
    waitJitterTimer duration random =
      if duration + random - duration / 5 < 2 ^ 63 then
        duration + random - duration / 5
      else duration + random - duration / 5 - 2 ^ 64 := by
  obtain ⟨hlow, hhigh⟩ := hd
  rw [drawn_of_long h] at hdrawn
  rw [waitJitterTimer, if_pos (fifth_pos_iff.mpr h),
    Int.tdiv_eq_ediv_of_nonneg (by omega), ← Int.add_sub_assoc]
  have hwait : 0 ≤ duration + random - duration / 5 := by omega
  have hwrap : duration + random - duration / 5 < 2 ^ 64 := by omega
  rw [Int.bmod_def, Int.emod_eq_of_lt hwait (by omega)]
  split <;> split <;> omega

theorem timer_le_longest (hd : IsDuration duration)
    (hdrawn : Drawn duration random) :
    waitJitterTimer duration random ≤ longest duration := by
  by_cases h : 5 ≤ duration
  · rw [timer_of_long hd h hdrawn, longest_of_long h]
    rw [drawn_of_long h] at hdrawn
    split <;> omega
  · rw [timer_of_short h, longest_of_short h]

theorem timer_pos (hd : IsDuration duration) (hpos : 0 < duration)
    (hlong : longest duration < 2 ^ 63) (hdrawn : Drawn duration random) :
    0 < waitJitterTimer duration random := by
  by_cases h : 5 ≤ duration
  · rw [timer_of_long hd h hdrawn]
    rw [longest_of_long h] at hlong
    rw [drawn_of_long h] at hdrawn
    split <;> omega
  · rw [timer_of_short h]
    exact hpos

/-- The longest wait occurs, if it fits. -/
theorem exists_longest (hd : IsDuration duration)
    (hlong : longest duration < 2 ^ 63) :
    ∃ random, Drawn duration random ∧
      waitJitterTimer duration random = longest duration := by
  by_cases h : 5 ≤ duration
  · have hdrawn : Drawn duration (duration / 5 * 2 - 1) := by
      rw [drawn_of_long h]
      omega
    refine ⟨_, hdrawn, ?_⟩
    rw [longest_of_long h] at hlong ⊢
    rw [timer_of_long hd h hdrawn, if_pos (by omega)]
    omega
  · exact ⟨0, drawn_of_short h, by rw [timer_of_short h, longest_of_short h]⟩

/-- Where it does not fit, a wait of each kind occurs: one that is negative and
the longest there is. -/
theorem exists_wrapped (hd : IsDuration duration)
    (hlong : ¬ longest duration < 2 ^ 63) :
    (∃ random, Drawn duration random ∧
      waitJitterTimer duration random < 0) ∧
    ∃ random, Drawn duration random ∧
      waitJitterTimer duration random = 2 ^ 63 - 1 := by
  have h : 5 ≤ duration := by
    by_contra hshort
    rw [longest_of_short hshort] at hlong
    exact hlong hd.2
  obtain ⟨hlow, hhigh⟩ := hd
  rw [longest_of_long h] at hlong
  have hlast : Drawn duration (duration / 5 * 2 - 1) := by
    rw [drawn_of_long h]
    omega
  have hfull : Drawn duration (2 ^ 63 - 1 - duration + duration / 5) := by
    rw [drawn_of_long h]
    omega
  refine ⟨⟨_, hlast, ?_⟩, _, hfull, ?_⟩
  · rw [timer_of_long ⟨hlow, hhigh⟩ h hlast, if_neg (by omega)]
    omega
  · rw [timer_of_long ⟨hlow, hhigh⟩ h hfull, if_pos (by omega)]
    omega

end Waits

/-! ## The heartbeat and the lease -/

section Heartbeat

variable {r : Registrant} {config : RegistrantConfig} {clientNil : Bool}

theorem IsDuration.tdiv {t n : Int} (h : IsDuration t) (hn : 0 < n) :
    IsDuration (t.tdiv n) := by
  obtain ⟨hlow, hhigh⟩ := h
  by_cases hpos : 0 ≤ t
  · have hle := Int.ediv_le_self n hpos
    have hnonneg := Int.ediv_nonneg hpos hn.le
    rw [Int.tdiv_eq_ediv_of_nonneg hpos]
    constructor <;> omega
  · have hneg : (-t).tdiv n = -t.tdiv n := Int.neg_tdiv _ _
    rw [Int.tdiv_eq_ediv_of_nonneg (by omega)] at hneg
    have hle := Int.ediv_le_self n (a := -t) (by omega)
    have hnonneg := Int.ediv_nonneg (a := -t) (by omega) hn.le
    constructor <;> omega

theorem IsDuration.default {t t' : Int} (h : IsDuration t)
    (h' : IsDuration t') : IsDuration (if t = 0 then t' else t) := by
  split
  · exact h'
  · exact h

theorem durations_of_newRegistrant (h : newRegistrant clientNil config = .ok r)
    (hlease : IsDuration config.lease)
    (hbeat : IsDuration config.heartbeatInterval) :
    IsDuration r.lease ∧ IsDuration r.heartbeatInterval := by
  unfold newRegistrant at h
  split at h
  · cases h
  · cases h
  · extract_lets lease heartbeatInterval at h
    split at h
    · cases h
    · cases h
      have hfull := hlease.default
        (show IsDuration (30 * second) by decide)
      exact ⟨hfull, hbeat.default (hfull.tdiv (by decide))⟩

/-- The lease that is asked for is the one that was set, in whole seconds, as
long as these fit. -/
theorem leaseSeconds_eq_iff (h : 0 < r.lease) :
    (r.leaseSeconds : Int) = r.lease.tdiv second ↔
      r.lease.tdiv second < 2 ^ 32 := by
  have hnonneg : 0 ≤ r.lease.tdiv second :=
    Int.tdiv_nonneg h.le (by decide)
  rw [Registrant.leaseSeconds]
  omega

theorem seconds_le (h : 0 < r.lease) :
    r.lease.tdiv second * second ≤ r.lease := by
  rw [Int.tdiv_eq_ediv_of_nonneg h.le]
  exact Int.ediv_mul_le _ (by decide)

/-- A wait is positive and shorter than the lease asked for, and that is the
lease that was set, in whole seconds. -/
def Registrant.InTime (r : Registrant) (wait : Int) (leaseSeconds : Nat) : Prop :=
  0 < wait ∧ wait < leaseSeconds * second ∧
    (leaseSeconds : Int) = r.lease.tdiv second

theorem inTime_iff (hlease : IsDuration r.lease)
    (hbeat : IsDuration r.heartbeatInterval) (hpos : 0 < r.lease) :
    (∀ random, Drawn r.heartbeatInterval random →
      r.InTime (waitJitterTimer r.heartbeatInterval random) r.leaseSeconds) ↔
    0 < r.heartbeatInterval ∧ r.lease.tdiv second < 2 ^ 32 ∧
      longest r.heartbeatInterval < r.lease.tdiv second * second := by
  rw [← leaseSeconds_eq_iff hpos]
  constructor
  · intro hall
    have hfits : longest r.heartbeatInterval < 2 ^ 63 := by
      by_contra hlong
      obtain ⟨⟨random, hdrawn, hneg⟩, -⟩ := exists_wrapped hbeat hlong
      exact absurd (hall random hdrawn).1 (Int.not_lt.mpr hneg.le)
    obtain ⟨random, hdrawn, htimer⟩ := exists_longest hbeat hfits
    obtain ⟨hwait, hshort, hseconds⟩ := hall random hdrawn
    rw [htimer] at hwait hshort
    rw [hseconds] at hshort
    refine ⟨?_, hseconds, hshort⟩
    -- A duration that is not positive has no jitter.
    by_contra hle
    have hshort : ¬ 5 ≤ r.heartbeatInterval :=
      fun hlong => hle (Int.lt_of_lt_of_le (by decide) hlong)
    rw [longest_of_short hshort] at hwait
    exact hle hwait
  · rintro ⟨hbeatPos, hseconds, hlong⟩ random hdrawn
    have hfits : longest r.heartbeatInterval < 2 ^ 63 := by
      have hle := seconds_le hpos
      exact Int.lt_trans (Int.lt_of_lt_of_le hlong hle) hlease.2
    have hle := timer_le_longest hbeat hdrawn
    refine ⟨timer_pos hbeat hbeatPos hfits hdrawn, ?_, hseconds⟩
    rw [hseconds]
    exact Int.lt_of_le_of_lt hle hlong

/-! ### In a run -/

/-- The lease a request asks for. -/
def Request.lease : Request → Option Nat
  | .registerInstance _ leaseSeconds => some leaseSeconds
  | .renewLease _ _ _ leaseSeconds => some leaseSeconds
  | .setInstanceStatus _ _ _ _ | .deregisterInstance _ _ _ => none

/-- Waits for a heartbeat are for the interval that was set, and leases are
asked for with the seconds made of the one that was set. -/
structure Beating (r : Registrant) (s : Registration) : Prop where
  wait : ∀ duration, s.at_ = .beating duration → duration = r.heartbeatInterval
  leases : ∀ request ∈ s.sent, ∀ n, request.lease = some n → n = r.leaseSeconds

theorem Beating.leave {s t : Registration} (h : Beating r s)
    (hsent : t.sent = s.sent) (hat : ∀ duration, t.at_ ≠ .beating duration) :
    Beating r t := by
  refine ⟨fun duration heq => absurd heq (hat duration), ?_⟩
  rw [hsent]
  exact h.leases

theorem Beating.send {s t : Registration} {request : Request}
    (h : Beating r s) (hsent : t.sent = s.sent ++ [request])
    (hat : ∀ duration, t.at_ ≠ .beating duration)
    (hrequest : request.lease = none ∨ request.lease = some r.leaseSeconds) :
    Beating r t := by
  refine ⟨fun duration heq => absurd heq (hat duration), ?_⟩
  rw [hsent, List.forall_mem_append, List.forall_mem_singleton]
  refine ⟨h.leases, ?_⟩
  intro n hn
  rcases hrequest with hnone | hsome
  · rw [hnone] at hn
    cases hn
  · rw [hsome] at hn
    exact (Option.some.inj hn).symm

theorem beating_step (s : Registration) (a : RunAction) (t : Registration)
    (hs : Beating r s) (h : r.step s a = some t) : Beating r t := by
  cases runMove_of_step h with
  | cancel => exact ⟨hs.wait, hs.leases⟩
  | topExit | registerFailed | again | giveUp | renewed | renewFailed
  | deregistered => exact hs.leave rfl (by intro _ heq; cases heq)
  | keep | registered =>
      refine ⟨?_, hs.leases⟩
      intro duration heq
      cases heq
      rfl
  | register | beat =>
      exact hs.send rfl (by intro _ heq; cases heq) (.inr rfl)
  | drained => exact hs.send rfl (by intro _ heq; cases heq) (.inl rfl)
  | shutdown =>
      rw [Registrant.shutdown]
      split
      · exact hs.leave rfl (by intro _ heq; cases heq)
      · exact hs.send rfl (by intro _ heq; cases heq) (.inl rfl)

theorem beating_run {token : String} {as : List RunAction} {s : Registration}
    (hrun : run r.step (r.start token) as = some s) : Beating r s := by
  refine run_inv_of beating_step ⟨?_, ?_⟩ hrun
  · intro duration heq
    cases heq
  · intro request hmem
    cases hmem

/-- In every run of `Run`, whenever it waits for the next heartbeat, the wait
is in time for every lease it has asked for. -/
def Registrant.BeatsLease (r : Registrant) : Prop :=
  ∀ token as s, run r.step (r.start token) as = some s →
    ∀ duration, s.at_ = .beating duration →
      ∀ random, Drawn duration random →
        ∀ request ∈ s.sent, ∀ leaseSeconds,
          request.lease = some leaseSeconds →
            r.InTime (waitJitterTimer duration random) leaseSeconds

theorem beatsLease_of_inTime
    (h : ∀ random, Drawn r.heartbeatInterval random →
      r.InTime (waitJitterTimer r.heartbeatInterval random) r.leaseSeconds) :
    r.BeatsLease := by
  intro token as s hrun duration hat random hdrawn request hmem n hn
  have hs := beating_run hrun
  obtain rfl := hs.wait duration hat
  rw [hs.leases request hmem n hn]
  exact h random hdrawn

/-- The waits for the next heartbeat are in time for the lease, and are so in
every run, exactly when the heartbeat is positive, the seconds of the lease fit
into 32 bits and the longest wait is shorter than they are. -/
theorem heartbeat_beats_lease_iff
    (h : newRegistrant clientNil config = .ok r)
    (hlease : IsDuration config.lease)
    (hbeat : IsDuration config.heartbeatInterval) (hpos : 0 < r.lease) :
    ((∀ random, Drawn r.heartbeatInterval random →
      r.InTime (waitJitterTimer r.heartbeatInterval random) r.leaseSeconds) ∧
      r.BeatsLease) ↔
    0 < r.heartbeatInterval ∧ r.lease.tdiv second < 2 ^ 32 ∧
      longest r.heartbeatInterval < r.lease.tdiv second * second := by
  obtain ⟨hlease, hbeat⟩ := durations_of_newRegistrant h hlease hbeat
  rw [← inTime_iff hlease hbeat hpos]
  exact and_iff_left_of_imp beatsLease_of_inTime

/-- With the defaults: a heartbeat every ten seconds, more or less, for a lease
of thirty. -/
theorem heartbeat_beats_default_lease :
    ∃ r, newRegistrant false
        { inst := some { instanceId := "orders-1", status := .healthy } } =
        .ok r ∧ r.heartbeatInterval = 10 * second ∧ r.leaseSeconds = 30 ∧
      ∀ random, Drawn r.heartbeatInterval random →
        r.InTime (waitJitterTimer r.heartbeatInterval random)
          r.leaseSeconds := by
  have hnew : newRegistrant false
      { inst := some { instanceId := "orders-1", status := .healthy } } =
      .ok ⟨{ instanceId := "orders-1", status := .healthy }, 30 * second,
        10 * second, 3 * second, 250 * millisecond, 5 * second⟩ := rfl
  have hbeats := (heartbeat_beats_lease_iff hnew (by decide) (by decide)
    (by decide)).mpr (by decide)
  exact ⟨_, hnew, rfl, rfl, hbeats.1⟩

/-- Settings that are accepted, with a wait that is longer than the lease, with
a lease of no seconds, with one of so many that they wrap to none, and with a
wait that is not positive. -/
theorem heartbeat_after_lease :
    (∃ r random, newRegistrant false
        { inst := some { instanceId := "orders-1", status := .healthy }
          lease := 30 * second, heartbeatInterval := 29 * second } = .ok r ∧
      0 < r.lease ∧ Drawn r.heartbeatInterval random ∧
      r.leaseSeconds * second <
        waitJitterTimer r.heartbeatInterval random) ∧
    (∃ r, newRegistrant false
        { inst := some { instanceId := "orders-1", status := .healthy }
          lease := 500 * millisecond } = .ok r ∧
      0 < r.lease ∧ r.leaseSeconds = 0) ∧
    (∃ r, newRegistrant false
        { inst := some { instanceId := "orders-1", status := .healthy }
          lease := 2 ^ 32 * second } = .ok r ∧
      0 < r.lease ∧ r.leaseSeconds = 0) ∧
    ∃ r, newRegistrant false
        { inst := some { instanceId := "orders-1", status := .healthy }
          heartbeatInterval := -second } = .ok r ∧
      0 < r.lease ∧ ∀ random, waitJitterTimer r.heartbeatInterval random < 0 := by
  refine ⟨⟨_, 11 * second, rfl, by decide, by decide, by decide⟩,
    ⟨_, rfl, by decide, by decide⟩, ⟨_, rfl, by decide, by decide⟩,
    _, rfl, by decide, ?_⟩
  intro random
  rw [timer_of_short (by decide)]
  decide

end Heartbeat

/-! ## The refresh and the age of a snapshot -/

section Refresh

variable {d : Discovery} {config : DiscoveryConfig} {clientNil : Bool}

/-- However long `Run` goes on with a registry that answers, `Pick` never finds
its snapshot too old. -/
def Discovery.NeverStale (d : Discovery) : Prop :=
  ∀ saved now as s, run Refresher.step (d.start saved now) as = some s →
    s.discovery.fresh s.now = s.discovery.snapshot

/-- What `Run` is doing will be over before the snapshot is too old. -/
structure Fresh (c : DiscoveryConfig) (s : Refresher) : Prop where
  config : s.discovery.config = c
  now : s.now ≤ s.deadline
  aged : ∀ snapshot, s.discovery.snapshot = some snapshot →
    s.deadline - snapshot.savedAt ≤ c.maxStale
  watching : ∀ deadline, s.at_ = .watching deadline →
    s.backoff = c.retryMin ∧ ∀ snapshot, s.discovery.snapshot = some snapshot →
      deadline = snapshot.savedAt + c.refreshInterval

/-- Time that passes does not move a deadline, and at the top of the loop none
passes. -/
theorem deadline_pass {s : Refresher} {duration : Time} (h : 0 ≤ duration)
    (hend : s.now + duration ≤ s.deadline) :
    Refresher.deadline { s with now := s.now + duration } = s.deadline := by
  unfold Refresher.deadline at hend ⊢
  cases hat : s.at_ with
  | top =>
      rw [hat] at hend
      exact Int.le_antisymm hend (Int.le_add_of_nonneg_right h)
  | watching deadline => rfl
  | waiting deadline => rfl

theorem age_le_iff {saved refresh wait stale : Int} (hstale : refresh < stale) :
    saved + refresh + max wait 0 - saved ≤ stale ↔
      refresh + wait ≤ stale := by
  omega

theorem fresh_step {c : DiscoveryConfig} (hpos : 0 < c.refreshInterval)
    (hstale : c.refreshInterval < c.maxStale)
    (hwait : ∀ random, Drawn c.retryMin random →
      c.refreshInterval + waitJitterTimer c.retryMin random ≤ c.maxStale)
    (s : Refresher) (a : Refresher.Action) (t : Refresher)
    (hs : Fresh c s) (h : s.step a = some t) : Fresh c t := by
  cases a with
  | pass duration =>
      simp only [Refresher.step] at h
      split at h
      · next hpass =>
          cases h
          have hdeadline := deadline_pass hpass.1 hpass.2
          refine ⟨hs.config, ?_, ?_, hs.watching⟩
          · rw [hdeadline]
            exact hpass.2
          · rw [hdeadline]
            exact hs.aged
      · cases h
  | refresh response =>
      simp only [Refresher.step] at h
      split at h
      · next hat =>
          cases h
          refine ⟨hs.config, ?_, ?_, ?_⟩
          · rw [hs.config]
            exact Int.le_add_of_nonneg_right hpos.le
          · intro snapshot hsnapshot
            cases hsnapshot
            rw [hs.config]
            exact Int.sub_left_le_of_le_add (Int.add_le_add_left hstale.le s.now)
          · intro deadline hdeadline
            cases hdeadline
            rw [hs.config]
            refine ⟨rfl, ?_⟩
            intro snapshot hsnapshot
            cases hsnapshot
            rfl
      · cases h
  | timeout random =>
      simp only [Refresher.step] at h
      split at h
      · next deadline hat =>
          split at h
          · next hend =>
              cases h
              obtain ⟨hbackoff, hsaved⟩ := hs.watching deadline hat
              obtain ⟨hnow, hdrawn⟩ := hend
              rw [hbackoff] at hdrawn ⊢
              refine ⟨hs.config, ?_, ?_, ?_⟩
              · exact Int.le_add_of_nonneg_right (Int.le_max_right _ _)
              · intro snapshot hsnapshot
                rw [hnow, hsaved snapshot hsnapshot]
                exact (age_le_iff hstale).mpr (hwait random hdrawn)
              · intro deadline hdeadline
                cases hdeadline
          · cases h
      · cases h
  | timer =>
      simp only [Refresher.step] at h
      split at h
      · next deadline hat =>
          split at h
          · next hend =>
              cases h
              refine ⟨hs.config, Int.le_refl _, ?_, ?_⟩
              · intro snapshot hsnapshot
                have hage := hs.aged snapshot hsnapshot
                rw [Refresher.deadline, hat, ← hend] at hage
                exact hage
              · intro deadline hdeadline
                cases hdeadline
          · cases h
      · cases h

theorem fresh_of_age {now : Time}
    (h : ∀ snapshot, d.snapshot = some snapshot →
      now - snapshot.savedAt ≤ d.config.maxStale) :
    d.fresh now = d.snapshot := by
  rw [Discovery.fresh]
  cases hsnapshot : d.snapshot with
  | none => rfl
  | some snapshot =>
      rw [Option.filter_some, if_pos]
      exact decide_eq_true (Int.not_lt.mpr (h snapshot hsnapshot))

theorem fresh_top {now backoff : Time}
    (h : ∀ snapshot, d.snapshot = some snapshot →
      now - snapshot.savedAt ≤ d.config.maxStale) :
    Fresh d.config { discovery := d, now, backoff } := by
  refine ⟨rfl, Int.le_refl _, h, ?_⟩
  intro deadline hat
  cases hat

theorem fresh_start (h : d.snapshot = none) (saved : Option Snapshot)
    (now : Time) : Fresh d.config (d.start saved now) := by
  have hnone : ∀ snapshot, d.snapshot = some snapshot →
      now - snapshot.savedAt ≤ d.config.maxStale := by
    intro snapshot hsnapshot
    rw [h] at hsnapshot
    cases hsnapshot
  unfold Discovery.start Discovery.restore
  split
  · exact fresh_top hnone
  · split
    · next hage =>
        refine fresh_top (d := d.replace _) ?_
        intro snapshot hsnapshot
        cases hsnapshot
        exact hage
    · exact fresh_top hnone

/-- The waits are what `Pick` sees of the loop. -/
theorem neverStale_iff (hnone : d.snapshot = none)
    (hpos : 0 < d.config.refreshInterval)
    (hstale : d.config.refreshInterval < d.config.maxStale) :
    d.NeverStale ↔ ∀ random, Drawn d.config.retryMin random →
      d.config.refreshInterval + waitJitterTimer d.config.retryMin random ≤
        d.config.maxStale := by
  constructor
  · intro h random hdrawn
    let wait := waitJitterTimer d.config.retryMin random
    have hrun : run Refresher.step (d.start none 0)
        [.refresh ⟨[], 0⟩, .pass d.config.refreshInterval, .timeout random,
          .pass (max wait 0)] =
        some {
          discovery := d.refresh ⟨[], 0⟩ 0
          now := 0 + d.config.refreshInterval + max wait 0
          at_ := .waiting (0 + d.config.refreshInterval + max wait 0)
          backoff := d.config.retryMin } := by
      refine run_cons.mpr ⟨_, rfl, run_cons.mpr ⟨_,
        if_pos ⟨hpos.le, Int.le_refl _⟩, run_cons.mpr ⟨_,
        if_pos ⟨rfl, hdrawn⟩, run_cons.mpr ⟨_,
        if_pos ⟨Int.le_max_right _ _, Int.le_refl _⟩, rfl⟩⟩⟩⟩
    obtain ⟨-, hage⟩ := Option.filter_eq_some_iff.mp (h none 0 _ _ hrun)
    exact (age_le_iff hstale).mp (Int.not_lt.mp (of_decide_eq_true hage))
  · intro hwait saved now as s hrun
    have hs := run_inv_of (fresh_step hpos hstale hwait)
      (fresh_start hnone saved now) hrun
    refine fresh_of_age ?_
    intro snapshot hsnapshot
    rw [hs.config]
    exact Int.le_trans (Int.sub_le_sub_right hs.now _) (hs.aged snapshot hsnapshot)

theorem not_add_longest_le {refresh stale : Int} (hpos : 0 < refresh)
    (hstale : stale < 2 ^ 63) : ¬ refresh + (2 ^ 63 - 1) ≤ stale := by
  omega

theorem newDiscovery_ok (h : newDiscovery clientNil config = .ok d)
    (hstale : IsDuration config.maxStale) (hretry : IsDuration config.retryMin) :
    d.snapshot = none ∧ 0 < d.config.refreshInterval ∧
      d.config.refreshInterval < d.config.maxStale ∧
      IsDuration d.config.maxStale ∧ IsDuration d.config.retryMin := by
  unfold newDiscovery at h
  split at h
  · cases h
  · extract_lets maxStale refreshInterval at h
    split at h
    · cases h
    · next hrefresh =>
        cases h
        obtain ⟨hpos, hless⟩ := not_or.mp hrefresh
        exact ⟨rfl, Int.not_le.mp hpos, Int.not_le.mp hless,
          hstale.default (show IsDuration (2 * minute) by decide),
          hretry.default (show IsDuration (250 * millisecond) by decide)⟩

/-- A watch and the wait behind it are never longer than a snapshot lasts, and
so none is ever too old, exactly when that is so for the longest wait. -/
theorem never_stale_iff (h : newDiscovery clientNil config = .ok d)
    (hmax : IsDuration config.maxStale) (hretry : IsDuration config.retryMin) :
    ((∀ random, Drawn d.config.retryMin random →
      d.config.refreshInterval + waitJitterTimer d.config.retryMin random ≤
        d.config.maxStale) ∧ d.NeverStale) ↔
    d.config.refreshInterval + longest d.config.retryMin ≤
      d.config.maxStale := by
  obtain ⟨hnone, hpos, hstale, hmax, hretry⟩ := newDiscovery_ok h hmax hretry
  rw [neverStale_iff hnone hpos hstale, and_self_iff]
  constructor
  · intro hall
    by_cases hfits : longest d.config.retryMin < 2 ^ 63
    · obtain ⟨random, hdrawn, htimer⟩ := exists_longest hretry hfits
      rw [← htimer]
      exact hall random hdrawn
    · -- One of the waits is the longest there is.
      obtain ⟨-, random, hdrawn, htimer⟩ := exists_wrapped hretry hfits
      have hle := hall random hdrawn
      rw [htimer] at hle
      exact absurd hle (not_add_longest_le hpos hmax.2)
  · intro hlong random hdrawn
    have hle := timer_le_longest hretry hdrawn
    exact Int.le_trans (Int.add_le_add_left hle _) hlong

/-- With the defaults a snapshot lasts two minutes and is replaced about every
minute. -/
theorem never_stale_by_default :
    ∃ d, newDiscovery false { serviceName := "orders" } = .ok d ∧
      d.config.maxStale = 2 * minute ∧ d.config.refreshInterval = minute ∧
      d.NeverStale := by
  have hnew : newDiscovery false { serviceName := "orders" } =
      .ok { config := {
        serviceName := "orders", maxStale := 2 * minute
        refreshInterval := minute, retryMin := 250 * millisecond
        retryMax := 10 * second } } := rfl
  have hnever := (never_stale_iff hnew (by decide) (by decide)).mpr (by decide)
  exact ⟨_, hnew, rfl, rfl, hnever.2⟩

/-- A refresh every 119 seconds for a snapshot that lasts 120, with ten seconds
between a watch and the next refresh: even with the shortest wait a healthy
instance is not found for some time. -/
theorem stale_between_refreshes :
    ∃ d, newDiscovery false
        { serviceName := "orders", maxStale := 120 * second
          refreshInterval := 119 * second, retryMin := 10 * second } = .ok d ∧
      Drawn d.config.retryMin 0 ∧
      d.config.maxStale <
        d.config.refreshInterval + waitJitterTimer d.config.retryMin 0 ∧
      ∃ s, run Refresher.step (d.start none 0)
          [.refresh ⟨[{ instanceId := "orders-1", status := .healthy }], 1⟩,
            .pass (119 * second), .timeout 0, .pass (2 * second)] = some s ∧
        s.discovery.pick (fun _ => s.now) = .error errNoHealthyInstance :=
  ⟨_, rfl, by decide, by decide, _, rfl, rfl⟩

end Refresh

end PlatformGo.ServiceRegistry
