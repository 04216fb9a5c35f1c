import PlatformGo.Ref.Consumer

/-!
# The delay before a redelivery

`retryDelay` doubles the delay once for every delivery after the first, sixteen
times at most, and returns the maximum as soon as the delay has reached half of
it. Half is rounded down. With an odd maximum the loop therefore returns the
maximum also where the next doubling would have ended one below it, and that is
the only way in which it differs from the doubled delay cut at the maximum
(`cappedDelay`).

A delay that is doubled is below half of the maximum, so what is computed stays
below the maximum and nothing wraps.
-/

namespace PlatformGo.EventBus

/-- The delay after a number of doublings, as it should be. -/
def cappedDelay (delay limit : Int) (shift : Nat) : Int :=
  if limit % 2 = 1 ∧ 1 ≤ shift ∧ min (delay * 2 ^ shift) limit = limit - 1 then limit
  else min (delay * 2 ^ shift) limit

/-- The products of the loop, before they are cut to 64 bits. -/
def retryDelay.products (limit : Int) : Nat → Int → List Int
  | 0, _ => []
  | shift + 1, delay =>
      if delay ≥ limit.tdiv 2 then []
      else delay * 2 :: retryDelay.products limit shift (wrap64 (delay * 2))

/-- The number of rounds the loop is given. -/
def retryShift (delivery : Nat) : Nat := min (max delivery 1 - 1) 16

def Processor.retryProducts (p : Processor) (delivery : Nat) : List Int :=
  retryDelay.products p.config.consumerMaxRetryDelay (retryShift delivery)
    p.config.consumerRetryDelay

section Loop

variable {delay limit : Int} {shift shift' : Nat}

theorem wrap64_of_lt (hpos : 0 ≤ delay) (hlt : delay < 2 ^ 63) :
    wrap64 delay = delay := by
  rw [wrap64, Int.bmod_def, Int.emod_eq_of_lt hpos (by omega)]
  split <;> omega

theorem half_eq (hpos : 0 < limit) : limit.tdiv 2 = limit / 2 :=
  Int.tdiv_eq_ediv_of_nonneg (by omega)

theorem doubled_succ (delay : Int) (shift : Nat) :
    delay * 2 ^ (shift + 1) = 2 * (delay * 2 ^ shift) := by
  rw [Int.pow_succ, ← Int.mul_assoc, Int.mul_comm]

theorem doubled_mono (hpos : 0 < delay) (h : shift ≤ shift') :
    delay * 2 ^ shift ≤ delay * 2 ^ shift' := by
  have hall : ∀ n, 0 < delay * 2 ^ n := by
    intro n
    induction n with
    | zero => simpa using hpos
    | succ n ih =>
        rw [doubled_succ]
        omega
  induction h with
  | refl => exact Int.le_refl _
  | @step n _ ih =>
      have := hall n
      rw [doubled_succ]
      omega

theorem le_doubled (hpos : 0 < delay) (shift : Nat) : delay ≤ delay * 2 ^ shift := by
  have h := doubled_mono hpos (Nat.zero_le shift)
  simpa using h

/-- One doubling more, of a delay that is far enough from the maximum. -/
theorem cappedDelay_double (h : delay * 2 < limit - 1) (shift : Nat) :
    cappedDelay (delay * 2) limit shift = cappedDelay delay limit (shift + 1) := by
  have hdouble : delay * 2 * 2 ^ shift = 2 * (delay * 2 ^ shift) := by
    rw [Int.mul_comm delay 2, Int.mul_assoc]
  -- without a doubling on the left the exception is for the right side alone,
  -- and the delay is too far from the maximum for it
  have hfirst : shift = 0 → delay * 2 ^ shift = delay := by
    intro hzero
    simp [hzero]
  rw [cappedDelay, cappedDelay, hdouble, doubled_succ]
  generalize delay * 2 ^ shift = doubled at hfirst ⊢
  split <;> split <;> omega

/-- From half of the maximum on, a doubling ends one below the maximum at the
least. -/
theorem cappedDelay_half (hpos : 0 < delay) (hhalf : limit / 2 ≤ delay)
    (shift : Nat) : cappedDelay delay limit (shift + 1) = limit := by
  have hgrow := le_doubled hpos shift
  rw [cappedDelay, doubled_succ]
  generalize delay * 2 ^ shift = doubled at hgrow ⊢
  split <;> omega

theorem go_eq_cappedDelay (hpos : 0 < delay) (hle : delay ≤ limit)
    (hlimit : limit < 2 ^ 63) (shift : Nat) :
    retryDelay.go limit shift delay = cappedDelay delay limit shift := by
  induction shift generalizing delay with
  | zero =>
      rw [retryDelay.go, cappedDelay, if_neg (by simp), Int.pow_zero, Int.mul_one,
        Int.min_eq_left hle]
  | succ shift ih =>
      rw [retryDelay.go, half_eq (by omega)]
      split
      · next hhalf => exact (cappedDelay_half hpos hhalf shift).symm
      · next hhalf =>
          have hhalf : delay < limit / 2 := Int.not_le.mp hhalf
          rw [wrap64_of_lt (by omega) (by omega), ih (by omega) (by omega)]
          exact cappedDelay_double (by omega) shift

/-- What the loop computes stays below the maximum. -/
theorem products_lt (hpos : 0 < delay) (hle : delay ≤ limit)
    (hlimit : limit < 2 ^ 63) (shift : Nat) :
    ∀ x ∈ retryDelay.products limit shift delay, 0 < x ∧ x < limit := by
  induction shift generalizing delay with
  | zero => simp [retryDelay.products]
  | succ shift ih =>
      rw [retryDelay.products, half_eq (by omega)]
      split
      · simp
      · next hhalf =>
          rw [wrap64_of_lt (by omega) (by omega), List.forall_mem_cons]
          exact ⟨by omega, ih (by omega) (by omega)⟩

theorem cappedDelay_mono (hpos : 0 < delay) (h : shift ≤ shift') :
    cappedDelay delay limit shift ≤ cappedDelay delay limit shift' := by
  have hle := doubled_mono hpos h
  rw [cappedDelay, cappedDelay]
  generalize delay * 2 ^ shift = doubled at hle ⊢
  generalize delay * 2 ^ shift' = doubled' at hle ⊢
  split <;> split <;> omega

theorem cappedDelay_between (hpos : 0 < delay) (hle : delay ≤ limit) (shift : Nat) :
    delay ≤ cappedDelay delay limit shift ∧ cappedDelay delay limit shift ≤ limit := by
  have hgrow := le_doubled hpos shift
  rw [cappedDelay]
  generalize delay * 2 ^ shift = doubled at hgrow ⊢
  split <;> omega

end Loop

/-! ## The processor -/

theorem retryDelay_eq_go (p : Processor) (delivery : Nat) :
    p.retryDelay delivery =
      retryDelay.go p.config.consumerMaxRetryDelay (retryShift delivery)
        p.config.consumerRetryDelay := by
  have hshift : (if delivery > 1 then delivery - 1 else 0) = max delivery 1 - 1 := by
    split <;> omega
  rw [Processor.retryDelay, retryShift, hshift]

theorem retryShift_mono {d d' : Nat} (h : d ≤ d') : retryShift d ≤ retryShift d' := by
  rw [retryShift, retryShift]
  omega

/-- What `defaults` and `validate` leave of the two delays. -/
theorem retryDelay_config {c : Config} (h : c.defaults.validate = none) :
    0 < c.defaults.consumerRetryDelay ∧
      c.defaults.consumerRetryDelay ≤ c.defaults.consumerMaxRetryDelay := by
  constructor
  · simp only [Config.defaults, orDefault]
    split
    · decide
    · next hpos => exact Int.not_le.mp hpos
  · simp only [Config.validate] at h
    split at h
    · cases h
    · split at h
      · cases h
      · next hle => exact Int.not_lt.mp hle

theorem maxRetryDelay_lt {c : Config} (h : c.consumerMaxRetryDelay < 2 ^ 63) :
    c.defaults.consumerMaxRetryDelay < 2 ^ 63 := by
  simp only [Config.defaults, orDefault]
  split
  · decide
  · exact h

/-- The delays of a processor with a configuration that is accepted, for every
delivery count. -/
theorem retryDelay_bounded_monotone_exact {c : Config} {p : Processor}
    (hp : p.config = c.defaults) (hvalid : c.defaults.validate = none)
    (hmax : c.consumerMaxRetryDelay < 2 ^ 63) :
    (0 < p.config.consumerRetryDelay ∧
      p.config.consumerRetryDelay ≤ p.config.consumerMaxRetryDelay) ∧
    ∀ d : Nat,
      (∀ x ∈ p.retryProducts d, -2 ^ 63 ≤ x ∧ x < 2 ^ 63) ∧
      (p.config.consumerRetryDelay ≤ p.retryDelay d ∧
        p.retryDelay d ≤ p.config.consumerMaxRetryDelay) ∧
      (∀ d', d ≤ d' → p.retryDelay d ≤ p.retryDelay d') ∧
      p.retryDelay d =
        cappedDelay p.config.consumerRetryDelay p.config.consumerMaxRetryDelay
          (min (max d 1 - 1) 16) := by
  obtain ⟨hpos, hle⟩ := retryDelay_config hvalid
  have hlimit := maxRetryDelay_lt hmax
  rw [← hp] at hpos hle hlimit
  have hexact : ∀ d, p.retryDelay d =
      cappedDelay p.config.consumerRetryDelay p.config.consumerMaxRetryDelay
        (retryShift d) := by
    intro d
    rw [retryDelay_eq_go, go_eq_cappedDelay hpos hle hlimit]
  refine ⟨⟨hpos, hle⟩, fun d => ⟨?_, ?_, ?_, hexact d⟩⟩
  · intro x hx
    have hbound := products_lt hpos hle hlimit _ x hx
    exact ⟨by omega, Int.lt_trans hbound.2 hlimit⟩
  · rw [hexact]
    exact cappedDelay_between hpos hle _
  · intro d' hd
    rw [hexact, hexact]
    exact cappedDelay_mono hpos (retryShift_mono hd)

/-- A maximum of seven nanoseconds, reached from three, where a doubling would
give six. -/
theorem retryDelay_odd_maximum :
    let p : Processor :=
      { config := Config.defaults { consumerRetryDelay := 3, consumerMaxRetryDelay := 7 }
        durable := "projection"
        codec :=
          { unmarshal := fun _ => .error (.new []), marshalDeadLetter := fun _ => .ok []
            sha256 := fun _ => Vector.replicate 32 0, isPrint := fun _ => true } }
    (∀ d d', d ≤ d' → p.retryDelay d ≤ p.retryDelay d') ∧
      p.retryDelay 1 = 3 ∧ p.retryDelay 2 = 7 := by
  refine ⟨fun d => ?_, by decide, by decide⟩
  exact ((retryDelay_bounded_monotone_exact (c :=
    { consumerRetryDelay := 3, consumerMaxRetryDelay := 7 }) rfl (by decide)
    (by decide)).2 d).2.2.1

end PlatformGo.EventBus
