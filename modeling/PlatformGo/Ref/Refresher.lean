import PlatformGo.Ref.Registrant

/-!
# Keeping a snapshot fresh

`Run` of a `Discovery` against a registry that answers at once and reports no
changes, with the time it takes: a list of the instances, a watch that ends
with its timeout, the wait of `waitJitter`, and again. No time passes at the
top of the loop; in the watch and in the wait it passes up to their end.
-/

namespace PlatformGo.ServiceRegistry

/-- `min(backoff*2, RetryMax)`, the product in 64 bits. -/
def DiscoveryConfig.nextBackoff (c : DiscoveryConfig) (backoff : Time) : Time :=
  min (Int.bmod (backoff * 2) (2 ^ 64)) c.retryMax

/-- Where `Run` is, and until when. -/
inductive RefreshAt where
  /-- At the top of the loop. -/
  | top
  | watching (deadline : Time)
  | waiting (deadline : Time)
  deriving DecidableEq, Repr

structure Refresher where
  discovery : Discovery
  now : Time
  at_ : RefreshAt := .top
  backoff : Time

/-- `restore`, for what the store has. -/
def Discovery.restore (d : Discovery) (saved : Option Snapshot) (now : Time) :
    Discovery :=
  match saved with
  | none => d
  | some snapshot =>
      if now - snapshot.savedAt ≤ d.config.maxStale then d.replace snapshot
      else d

/-- `Run` is called. -/
def Discovery.start (d : Discovery) (saved : Option Snapshot) (now : Time) :
    Refresher :=
  { discovery := d.restore saved now, now, backoff := d.config.retryMin }

inductive Refresher.Action where
  | pass (duration : Time)
  /-- `refresh` and the call of `WatchService`. -/
  | refresh (response : ListInstancesResponse)
  /-- The watch ends, and `waitJitter` sets its timer. -/
  | timeout (random : Time)
  | timer
  deriving DecidableEq, Repr

/-- The end of what `Run` is doing; at the top of the loop that is now. -/
def Refresher.deadline (s : Refresher) : Time :=
  match s.at_ with
  | .top => s.now
  | .watching deadline | .waiting deadline => deadline

def Refresher.step (s : Refresher) : Refresher.Action → Option Refresher
  | .pass duration =>
      if 0 ≤ duration ∧ s.now + duration ≤ s.deadline then
        some { s with now := s.now + duration }
      else none
  | .refresh response =>
      match s.at_ with
      | .top => some { s with
          discovery := s.discovery.refresh response s.now
          backoff := s.discovery.config.retryMin
          at_ := .watching (s.now + s.discovery.config.refreshInterval) }
      | _ => none
  | .timeout random =>
      match s.at_ with
      | .watching deadline =>
          if s.now = deadline ∧ Drawn s.backoff random then
            -- a timer with a negative duration fires at once
            some { s with
              at_ := .waiting
                (s.now + max (waitJitterTimer s.backoff random) 0) }
          else none
      | _ => none
  | .timer =>
      match s.at_ with
      | .waiting deadline =>
          if s.now = deadline then
            some { s with
              at_ := .top
              backoff := s.discovery.config.nextBackoff s.backoff }
          else none
      | _ => none

end PlatformGo.ServiceRegistry
