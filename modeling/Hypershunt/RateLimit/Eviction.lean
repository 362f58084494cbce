import Hypershunt.RateLimit.Bucket

/-!
# Sweeping away idle buckets

A sweep may drop a bucket that is full, because a bucket that is not there counts as full. Whoever
checks later finds the same level either way: a bucket that is full at the time of the sweep is full
at every later time. So the outcomes of all checks are those of a run without any sweep.

The argument is a simulation. At each key the swept map holds what the full one holds, or nothing
where the full one holds a bucket that is full from now on. The next check of the key then finds a
full bucket in both, and leaves the same entry in both.

Rules with a negative rate, which no configuration produces, are included. They lose tokens as time
passes, so a full bucket of theirs would not stay full; but a check leaves less than the burst in a
bucket unless the burst is below one token, and then nothing is ever let through.
-/

namespace Hypershunt

open List Option

namespace RateLimit

open RateLimitRule TokenBucket

variable {r : RateLimitRule} {e e' : BucketEntry} {now now' : Instant} {full swept : Buckets}
  {key : String}

/-- The bucket is full now and remains so. -/
def StaysFull (r : RateLimitRule) (now : Instant) (e : BucketEntry) : Prop :=
  ∀ t, now ≤ t → r.refilled e t = r.burst

/-- A bucket that can only be full if it stays so. -/
def Steady (r : RateLimitRule) (e : BucketEntry) : Prop := 0 ≤ r.ratePerSec ∨ e.tokens < r.burst

/-- The swept map against the full one. -/
structure Agree (r : RateLimitRule) (now : Instant) (full swept : Buckets) : Prop where
  lookup : ∀ key, swept.lookup key = full.lookup key ∨
    swept.lookup key = none ∧ ∃ e, full.lookup key = some e ∧ StaysFull r now e
  steady : ∀ key e, swept.lookup key = some e → Steady r e

theorem refilled_new : r.refilled ⟨r.burst, now⟩ now = r.burst := by
  simp [refilled, Instant.saturatingDurationSince, asSecs]

theorem probe_congr (h : r.refilled e now = r.refilled e' now) :
    r.probe e now = r.probe e' now := by
  rw [probe, h, ← probe]

/-- A check takes a token, or finds less than one. -/
theorem tokens_probe_lt (hburst : 1 ≤ r.burst) : (r.probe e now).2.tokens < r.burst := by
  have hle : r.refilled e now ≤ r.burst := refill_le_burst
  simp only [probe]
  split_ifs with hone
  · exact (sub_one_lt _).trans_le hle
  · exact (not_le.mp hone).trans_le hburst

theorem steady_probe (h : 0 ≤ r.ratePerSec ∨ 1 ≤ r.burst) : Steady r (r.probe e now).2 :=
  h.imp_right tokens_probe_lt

/-- What a sweep drops is full, and stays so. -/
theorem Steady.staysFull {idleThreshold : Duration} (h : Steady r e)
    (hdrop : r.keeps idleThreshold now e = false) : StaysFull r now e := by
  rw [keeps, Bool.or_eq_false_iff, decide_eq_false_iff_not, decide_eq_false_iff_not,
    not_lt, not_lt] at hdrop
  have hfull : r.refilled e now = r.burst := le_antisymm refill_le_burst hdrop.2
  rcases le_or_gt 0 r.ratePerSec with hrate | hrate
  · intro t ht
    exact refill_eq_burst_of_le hrate
      (asSecs_le_asSecs (Nat.sub_le_sub_right ht e.lastRefill)) hfull
  · -- such a bucket only loses tokens, and it had less than the burst
    have hlt : e.tokens < r.burst := h.resolve_left (not_le.mpr hrate)
    have hadd : r.refilled e now ≤ _ := refill_le_add
    have hlost := mul_nonpos_of_nonneg_of_nonpos
      (asSecs_nonneg (now.saturatingDurationSince e.lastRefill)) hrate.le
    linarith

namespace Agree

section

variable (h : Agree r now full swept)

include h

/-- Both maps have a bucket of the same level for the next check. -/
theorem refilled_entry (hnow : now ≤ now') (key : String) :
    r.refilled (r.entry swept key now') now' = r.refilled (r.entry full key now') now' := by
  rw [entry, entry]
  rcases h.lookup key with heq | ⟨hnone, e, hsome, hfull⟩
  · rw [heq]
  · rw [hnone, hsome, getD_none, getD_some, hfull now' hnow, refilled_new]

theorem outcome (c : Check) (hnow : now ≤ c.now) :
    (r.checkAt swept c.ctx c.headers c.now).1 = (r.checkAt full c.ctx c.headers c.now).1 := by
  rw [checkAt_fst, checkAt_fst, probe_congr (h.refilled_entry hnow (r.bucketOf c))]

theorem mono (hnow : now ≤ now') : Agree r now' full swept where
  lookup key := (h.lookup key).imp_right fun ⟨hnone, e, hsome, hfull⟩ ↦
    ⟨hnone, e, hsome, fun t ht ↦ hfull t (hnow.trans ht)⟩
  steady := h.steady

theorem check (hrule : 0 ≤ r.ratePerSec ∨ 1 ≤ r.burst) (c : Check) (hnow : now ≤ c.now) :
    Agree r c.now (r.checkAt full c.ctx c.headers c.now).2
      (r.checkAt swept c.ctx c.headers c.now).2 where
  lookup key := by
    rw [lookup_checkAt, lookup_checkAt]
    split_ifs with hkey
    · exact Or.inl (by rw [probe_congr (h.refilled_entry hnow (r.bucketOf c))])
    · exact (h.mono hnow).lookup key
  steady key e he := by
    rw [lookup_checkAt] at he
    split_ifs at he with hkey
    · obtain rfl := Option.some.inj he
      exact steady_probe hrule
    · exact h.steady key e he

theorem evict (idleThreshold : Duration) (hnow : now ≤ now') :
    Agree r now' full (r.evictIdleAt swept idleThreshold now').2 where
  lookup key := by
    rw [lookup_evictIdleAt]
    rcases (h.mono hnow).lookup key with heq | ⟨hnone, hfull⟩
    · rcases hswept : swept.lookup key with _ | e
      · exact Or.inl (by rw [← heq, hswept, filter_none])
      · rw [hswept] at heq
        rcases hkeeps : r.keeps idleThreshold now' e with _ | _
        · refine Or.inr ⟨?_, e, heq.symm, (h.steady key e hswept).staysFull hkeeps⟩
          rw [filter_some, hkeeps]
          rfl
        · exact Or.inl (by rw [filter_some, hkeeps, ← heq]; rfl)
    · exact Or.inr ⟨by rw [hnone, filter_none], hfull⟩
  steady key e he := by
    rw [lookup_evictIdleAt, filter_eq_some_iff] at he
    exact h.steady key e he.1

end

theorem empty : Agree r 0 ∅ ∅ where
  lookup _ := Or.inl rfl
  steady _ _ he := nomatch he

/-- The simulation along a sequence of calls. -/
theorem trace (hrule : 0 ≤ r.ratePerSec ∨ 1 ≤ r.burst) (h : Agree r now full swept)
    {calls : List Call} (hnow : ∀ c ∈ calls, now ≤ c.now)
    (hcalls : (calls.map Call.now).Pairwise (· ≤ ·)) :
    r.trace swept calls = r.trace full (calls.filter Call.isCheck) := by
  induction calls generalizing now full swept with
  | nil => rfl
  | cons c calls ih =>
    obtain ⟨hfirst, -⟩ := forall_mem_cons.mp hnow
    rw [map_cons, pairwise_cons] at hcalls
    have hlater : ∀ c' ∈ calls, c.now ≤ c'.now :=
      fun c' hc' ↦ hcalls.1 c'.now (List.mem_map_of_mem hc')
    rcases c with c | ⟨idleThreshold, t⟩
    · rw [filter_cons_of_pos rfl, trace_check, trace_check,
        ih (h.check hrule c hfirst) hlater hcalls.2, h.outcome c hfirst]
    · rw [filter_cons_of_neg Bool.false_ne_true]
      exact ih (h.evict idleThreshold hfirst) hlater hcalls.2

end Agree

/-- A rule that never lets anything through says so to everyone in the same words. -/
theorem outcome_of_never (hrate : r.ratePerSec < 0) (hburst : r.burst < 1) (s : Buckets)
    (c : Check) : (r.checkAt s c.ctx c.headers c.now).1 = .deny (2 ^ 32 - 1) := by
  have hlt : ∀ e, ¬1 ≤ r.refilled e c.now :=
    fun e ↦ not_le.mpr (refill_le_burst.trans_lt hburst)
  rw [checkAt_fst, probe, if_neg (hlt _), retryAfterSecs, if_neg hrate.le.not_gt]
  rfl

theorem trace_of_never (hrate : r.ratePerSec < 0) (hburst : r.burst < 1) (s s' : Buckets)
    (calls : List Call) : r.trace s calls = r.trace s' (calls.filter Call.isCheck) := by
  induction calls generalizing s s' with
  | nil => rfl
  | cons c calls ih =>
    rcases c with c | ⟨idleThreshold, now⟩
    · rw [filter_cons_of_pos rfl, trace_check, trace_check,
        outcome_of_never hrate hburst, outcome_of_never hrate hburst, ih]
    · rw [filter_cons_of_neg Bool.false_ne_true]
      exact ih _ s'

/-- **Sweeps do not show**: if the times are in order, every check has the outcome, including the
time after which to try again, that it has without them. -/
theorem trace_filter_isCheck (r : RateLimitRule) (calls : List Call)
    (hcalls : (calls.map Call.now).Pairwise (· ≤ ·)) :
    r.trace ∅ calls = r.trace ∅ (calls.filter Call.isCheck) := by
  by_cases hrule : 0 ≤ r.ratePerSec ∨ 1 ≤ r.burst
  · exact Agree.trace hrule Agree.empty (fun c _ ↦ Nat.zero_le c.now) hcalls
  · rw [not_or, not_le, not_le] at hrule
    exact trace_of_never hrule.1 hrule.2 ∅ ∅ calls

/-- Two requests a second, none of them saved up for more than one second. -/
private def perHalfSecond : RateLimitRule := ⟨"api", 2, 2, .clientIp⟩

/-- Three requests of one client, a sweep after a minute, and three more. -/
private def sweptCalls : List Call :=
  let check (t : Instant) := Call.check ⟨{ clientIp := "192.0.2.1" }, [], t⟩
  [check 0, check 0, check 0, .evict 0 60000000000, check 60000000000, check 60000000000,
    check 60000000001]

/-- The sweep finds the bucket and drops it, which no outcome shows. -/
theorem trace_filter_isCheck_minute :
    perHalfSecond.trace ∅ sweptCalls =
        perHalfSecond.trace ∅ (sweptCalls.filter Call.isCheck) ∧
      (perHalfSecond.trace ∅ sweptCalls).map Prod.snd =
        [.allow, .allow, .deny 1, .allow, .allow, .deny 1] :=
  ⟨trace_filter_isCheck perHalfSecond sweptCalls (by decide), by decide +kernel⟩

end RateLimit

end Hypershunt
