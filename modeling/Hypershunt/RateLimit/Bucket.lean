import Hypershunt.Foundation.Time
import Hypershunt.Foundation.TokenBucket
import Hypershunt.Listener.Service
import Mathlib.Data.Rat.Floor

/-!
# Rate-limit rules

`RateLimitRule` of `rate_limit.rs`: one token bucket for each key a request can have. A check reads
the clock before it takes the lock of the rule, so the times that the buckets see need not be in
order; what happens under the lock is one step here. A sweep drops the buckets that nobody has used
for a while and that are full by now.

Levels, rates and bursts are exact rationals, where the source computes in floating point.
-/

namespace Hypershunt

namespace RateLimit

open Listener (RequestContext RateLimitOutcome)

open TokenBucket

/-- What the buckets of a rule are for. -/
inductive RateLimitKey
  | clientIp
  | user
  | header (name : HeaderName)
  deriving DecidableEq

/-- A configured rule. Its buckets are kept apart from it, as `Buckets`. -/
structure RateLimitRule where
  name : String
  ratePerSec : ℚ
  burst : ℚ
  key : RateLimitKey

structure BucketEntry where
  tokens : ℚ
  lastRefill : Instant
  deriving DecidableEq

/-- The state of a rule, behind its lock. -/
abbrev Buckets := HashMap String BucketEntry

/-- `as_secs_f64`. -/
def asSecs (d : Duration) : ℚ := d / 10 ^ 9

theorem asSecs_add (d d' : Duration) : asSecs (d + d') = asSecs d + asSecs d' := by
  rw [asSecs, asSecs, asSecs, Nat.cast_add, add_div]

theorem asSecs_le_asSecs {d d' : Duration} (h : d ≤ d') : asSecs d ≤ asSecs d' := by
  unfold asSecs
  gcongr

theorem asSecs_nonneg (d : Duration) : 0 ≤ asSecs d := by
  unfold asSecs
  positivity

namespace RateLimitRule

variable (r : RateLimitRule)

def keyString (ctx : RequestContext) (h : HeaderMap) : String :=
  match r.key with
  | .clientIp => ctx.clientIp
  | .user => ctx.username
  | .header name => (h.getStr name).getD ""

/-- The level of a bucket at some time. -/
def refilled (e : BucketEntry) (now : Instant) : ℚ :=
  refill r.ratePerSec r.burst e.tokens
    (asSecs (now.saturatingDurationSince e.lastRefill))

/-- How long a client is told to wait, by the level of its bucket. The cast to `u32` saturates. -/
def retryAfterSecs (tokens : ℚ) : ℕ :=
  let need := max (1 - tokens) 0
  let secs := if 0 < r.ratePerSec then min ⌈need / r.ratePerSec⌉.toNat (2 ^ 32 - 1) else 2 ^ 32 - 1
  max secs 1

/-- A check of one bucket. -/
def probe (e : BucketEntry) (now : Instant) : RateLimitOutcome × BucketEntry :=
  let tokens := r.refilled e now
  if 1 ≤ tokens then (.allow, ⟨tokens - 1, now⟩)
  else (.deny (r.retryAfterSecs tokens), ⟨tokens, now⟩)

/-- The bucket of a key, which is full if there was none. -/
def entry (s : Buckets) (key : String) (now : Instant) : BucketEntry :=
  (s.lookup key).getD ⟨r.burst, now⟩

/-- `check_at`. -/
def checkAt (s : Buckets) (ctx : RequestContext) (h : HeaderMap) (now : Instant) :
    RateLimitOutcome × Buckets :=
  let key := r.keyString ctx h
  let (outcome, e) := r.probe (r.entry s key now) now
  (outcome, s.insert key e)

/-- What a sweep keeps: buckets in use, and those that are not full even now. -/
def keeps (idleThreshold : Duration) (now : Instant) (e : BucketEntry) : Bool :=
  decide (now.saturatingDurationSince e.lastRefill < idleThreshold) ||
    decide (r.refilled e now < r.burst)

/-- `evict_idle_at`, with the number of buckets dropped. -/
def evictIdleAt (s : Buckets) (idleThreshold : Duration) (now : Instant) : ℕ × Buckets :=
  let s' := s.retain fun _ e ↦ r.keeps idleThreshold now e
  (s.keys.card - s'.keys.card, s')

end RateLimitRule

/-! ## Sequences of calls -/

/-- A request that is checked, with the time it has read from the clock. -/
structure Check where
  ctx : RequestContext
  headers : HeaderMap
  now : Instant

inductive Call
  | check (c : Check)
  | evict (idleThreshold : Duration) (now : Instant)

namespace Call

def now : Call → Instant
  | check c => c.now
  | evict _ now => now

def isCheck : Call → Bool
  | check _ => true
  | evict _ _ => false

end Call

namespace RateLimitRule

variable (r : RateLimitRule)

def bucketOf (c : Check) : String := r.keyString c.ctx c.headers

/-- The checks in the order they take the lock, each with the key of its bucket and its outcome. -/
def trace : Buckets → List Call → List (String × RateLimitOutcome)
  | _, [] => []
  | s, .check c :: calls =>
    let (outcome, s) := r.checkAt s c.ctx c.headers c.now
    (r.bucketOf c, outcome) :: trace s calls
  | s, .evict idleThreshold now :: calls => trace (r.evictIdleAt s idleThreshold now).2 calls

/-! ### What a call changes -/

variable {r} {s : Buckets} {c : Check} {key : String}

theorem trace_check (calls : List Call) :
    r.trace s (.check c :: calls) =
      (r.bucketOf c, (r.checkAt s c.ctx c.headers c.now).1) ::
        r.trace (r.checkAt s c.ctx c.headers c.now).2 calls := by
  rw [trace]

theorem checkAt_fst :
    (r.checkAt s c.ctx c.headers c.now).1 = (r.probe (r.entry s (r.bucketOf c) c.now) c.now).1 := by
  rw [checkAt, bucketOf]

theorem lookup_checkAt :
    (r.checkAt s c.ctx c.headers c.now).2.lookup key =
      if key = r.bucketOf c then some (r.probe (r.entry s (r.bucketOf c) c.now) c.now).2
      else s.lookup key :=
  HashMap.lookup_insert_ite

theorem lookup_evictIdleAt (idleThreshold : Duration) (now : Instant) :
    (r.evictIdleAt s idleThreshold now).2.lookup key =
      (s.lookup key).filter (r.keeps idleThreshold now) :=
  HashMap.lookup_retain _ _ _

theorem probe_eq (e : BucketEntry) (now : Instant) :
    let req := request r.ratePerSec r.burst e.tokens
      (asSecs (now.saturatingDurationSince e.lastRefill))
    ((r.probe e now).1 = .allow ↔ req.1 = true) ∧ (r.probe e now).2 = ⟨req.2, now⟩ := by
  unfold probe request
  by_cases hone : 1 ≤ r.refilled e now
  · have hone' := hone
    rw [refilled] at hone'
    rw [if_pos hone, if_pos hone']
    exact ⟨⟨fun _ ↦ rfl, fun _ ↦ rfl⟩, rfl⟩
  · have hone' := hone
    rw [refilled] at hone'
    rw [if_neg hone, if_neg hone']
    exact ⟨⟨nofun, nofun⟩, rfl⟩

end RateLimitRule

end RateLimit

end Hypershunt
