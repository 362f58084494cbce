import Hypershunt.RateLimit.Bucket

/-!
# How many requests a rule lets through

A bucket that is refilled at a rate and starts with its burst should let through at most the burst
plus the rate times the time that its requests span. The source moves the time of the last refill
to whatever time a check has read, also when that is earlier than the time it replaces. The next
check that read a later time is then credited with a wait that was credited before. So the bound has
`ascent` in the place of the time spanned, and the two agree as long as the checks of a key take the
lock in an order in which their times, taken together, do not move forward by more than they span:
in the order of their times, for instance.

The proof reduces the checks of one key, among those of all the others, to a single token bucket and
the waits that it measures.
-/

namespace Hypershunt

namespace RateLimit

open BucketEntry RateLimitRule TokenBucket List

variable (r : RateLimitRule) (key : String)

/-- The times that the checks of one key have read, in the order in which they take the lock. -/
def timesOf (checks : List Check) : List Instant :=
  (checks.filter fun c ↦ r.bucketOf c == key).map Check.now

/-- The number of requests of one key that are let through. -/
def allowed (checks : List Check) : ℕ :=
  (r.trace ∅ (checks.map Call.check)).count (key, .allow)

/-- The waits that a bucket measures, given the time of its last refill if it is there already. -/
def waits : Option Instant → List Instant → List ℚ
  | _, [] => []
  | last, t :: ts => asSecs (t.saturatingDurationSince (last.getD t)) :: waits (some t) ts

variable {r key}

theorem waits_nonneg (last : Option Instant) (ts : List Instant) :
    ∀ wait ∈ waits last ts, 0 ≤ wait := by
  induction ts generalizing last with
  | nil => exact fun wait hwait ↦ absurd hwait not_mem_nil
  | cons t ts ih => exact forall_mem_cons.mpr ⟨asSecs_nonneg _, ih _⟩

theorem sum_waits_some (t : Instant) (ts : List Instant) :
    (waits (some t) ts).sum = asSecs (ascent (t :: ts)) := by
  induction ts generalizing t with
  | nil => simp [waits, ascent, asSecs]
  | cons t' ts ih =>
    rw [waits, sum_cons, ih, ascent, asSecs_add]
    rfl

/-- Together a bucket measures as much as the clock moves forward. -/
theorem sum_waits_none (ts : List Instant) : (waits none ts).sum = asSecs (ascent ts) := by
  rcases ts with _ | ⟨t, ts⟩
  · simp [waits, ascent, asSecs]
  · rw [waits, sum_cons, sum_waits_some]
    simp [Instant.saturatingDurationSince, asSecs]

/-- **One bucket among many**: a key is let through as by a token bucket of its own. -/
theorem count_trace (s : Buckets) (checks : List Check) :
    (r.trace s (checks.map Call.check)).count (key, .allow) =
      admitted r.ratePerSec r.burst ((s.lookup key).elim r.burst tokens)
        (waits ((s.lookup key).map lastRefill) (timesOf r key checks)) := by
  induction checks generalizing s with
  | nil => rfl
  | cons c checks ih =>
    rw [map_cons, trace_check, count_cons, ih, lookup_checkAt]
    by_cases hkey : r.bucketOf c = key
    · have htimes : timesOf r key (c :: checks) = c.now :: timesOf r key checks := by
        rw [timesOf, filter_cons_of_pos (by simpa using hkey), map_cons, ← timesOf]
      have htokens : (r.entry s key c.now).tokens =
          (s.lookup key).elim r.burst tokens := by
        rw [entry]
        rcases s.lookup key with _ | e <;> rfl
      have hlast : (r.entry s key c.now).lastRefill =
          ((s.lookup key).map lastRefill).getD c.now := by
        rw [entry]
        rcases s.lookup key with _ | e <;> rfl
      -- the entry that is probed is the token bucket, and the outcomes are the same
      obtain ⟨hallow, hentry⟩ := r.probe_eq (r.entry s key c.now) c.now
      rw [htokens, hlast] at hallow hentry
      have houtcome : (r.checkAt s c.ctx c.headers c.now).1 =
          (r.probe (r.entry s key c.now) c.now).1 := by
        rw [checkAt_fst, hkey]
      rw [if_pos hkey.symm, hkey, hentry, htimes, waits, admitted, houtcome]
      rcases hreq : request r.ratePerSec r.burst
        ((s.lookup key).elim r.burst tokens) (asSecs (c.now.saturatingDurationSince
          (((s.lookup key).map lastRefill).getD c.now))) with ⟨ok, level⟩
      rw [hreq] at hallow
      rw [Nat.add_comm]
      congr 1
      rcases ok with _ | _
      · rw [if_neg (by simpa using hallow), Bool.toNat_false]
      · rw [if_pos (by simpa using hallow), Bool.toNat_true]
    · have htimes : timesOf r key (c :: checks) = timesOf r key checks := by
        rw [timesOf, filter_cons_of_neg (by simpa using hkey), ← timesOf]
      rw [if_neg (Ne.symm hkey), htimes, if_neg, Nat.add_zero]
      simp [hkey]

/-- **How many requests of a key are let through**: at most the burst and what is refilled in the
time they span, if the clock readings do not run ahead by more than that on their way to the
lock. -/
theorem allowed_le_burst_add (r : RateLimitRule) (hrate : 0 < r.ratePerSec) (hburst : 0 < r.burst)
    (key : String) (checks : List Check)
    (hclock : ascent (timesOf r key checks) ≤ span (timesOf r key checks)) :
    (allowed r key checks : ℚ) ≤
      r.burst + r.ratePerSec * asSecs (span (timesOf r key checks)) := by
  have hbound := admitted_le hrate.le hburst.le hburst.le
    (waits_nonneg none (timesOf r key checks))
  rw [sum_waits_none] at hbound
  have hspan := mul_le_mul_of_nonneg_left (asSecs_le_asSecs hclock) hrate.le
  rw [allowed, count_trace, Finmap.lookup_empty]
  exact hbound.trans (add_le_add_right hspan _)

/-- One request a second, without a reserve. -/
private def perSecond : RateLimitRule := ⟨"login", 1, 1, .user⟩

/-- A request of one user, who has read the clock after so many seconds. -/
private def annAt (secs : ℕ) : Check := ⟨{ username := "ann" }, [], Duration.fromSecs secs⟩

/-- Requests that take the lock in the order of their times. -/
theorem allowed_le_burst_add_in_order :
    allowed perSecond "ann" [annAt 0, annAt 1, annAt 1, annAt 3] = 3 ∧
      (allowed perSecond "ann" [annAt 0, annAt 1, annAt 1, annAt 3] : ℚ) ≤ 1 + 1 * asSecs (span
        (timesOf perSecond "ann" [annAt 0, annAt 1, annAt 1, annAt 3])) :=
  ⟨by decide +kernel, allowed_le_burst_add perSecond (by decide) (by decide) "ann" _
    (ascent_le_span_of_pairwise (by decide))⟩

/-- Of four requests within a second the third takes the lock late: three are let through, where the
burst and the refill of a second make two. -/
theorem allowed_exceeds_burst :
    allowed perSecond "ann" [annAt 0, annAt 1, annAt 0, annAt 1] = 3 ∧
      span (timesOf perSecond "ann" [annAt 0, annAt 1, annAt 0, annAt 1]) = Duration.fromSecs 1 ∧
      ¬((allowed perSecond "ann" [annAt 0, annAt 1, annAt 0, annAt 1] : ℚ) ≤
        perSecond.burst + perSecond.ratePerSec * asSecs (span
          (timesOf perSecond "ann" [annAt 0, annAt 1, annAt 0, annAt 1]))) := by
  decide +kernel

end RateLimit

end Hypershunt
