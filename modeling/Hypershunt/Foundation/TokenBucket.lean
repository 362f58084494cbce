import Mathlib.Algebra.Order.Field.Basic
import Mathlib.Algebra.Order.BigOperators.Group.List
import Mathlib.Tactic.Linarith

/-!
# Token buckets

A bucket holds up to `burst` tokens and gains `rate` of them per unit of time; a request that finds
a whole token takes it. Levels are elements of an ordered field, so that nothing is rounded.

## The bound

Only the time that passes between requests fills a bucket, so a sequence of requests is given by its
waits, and what matters about a wait is that it is not negative. The number of requests admitted is
then at most the level at the start plus `rate` times the sum of the waits (`admitted_le`). The
invariant is that a token in the bucket is a request not yet admitted: each request raises the
number of those admitted by what it takes out of the bucket.

Whoever measures the waits by a clock that is set back measures more than has passed. `ascent` is
what is measured then: the sum of all moves of the clock forward. It is the time between the first
and the last reading when the readings are in order, and can be any multiple of that otherwise.
-/

namespace Hypershunt

namespace TokenBucket

open List

variable {K : Type*} [Field K] [LinearOrder K]

/-- The level of a bucket after some time. -/
def refill (rate burst level elapsed : K) : K := min (level + elapsed * rate) burst

/-- A request: whether it is admitted, and the level it leaves. -/
def request (rate burst level elapsed : K) : Bool × K :=
  let level := refill rate burst level elapsed
  if 1 ≤ level then (true, level - 1) else (false, level)

/-- The number of requests admitted, when they come after the given waits. -/
def admitted (rate burst : K) : K → List K → ℕ
  | _, [] => 0
  | level, wait :: waits =>
    let (ok, level) := request rate burst level wait
    ok.toNat + admitted rate burst level waits

variable {rate burst level elapsed : K}

theorem refill_le_burst : refill rate burst level elapsed ≤ burst := min_le_right _ _

theorem refill_le_add : refill rate burst level elapsed ≤ level + elapsed * rate := min_le_left _ _

theorem refill_eq_burst_iff :
    refill rate burst level elapsed = burst ↔ burst ≤ level + elapsed * rate := min_eq_right_iff

@[simp] theorem refill_burst_zero : refill rate burst burst 0 = burst := by
  rw [refill_eq_burst_iff, zero_mul, add_zero]

variable [IsStrictOrderedRing K]

theorem refill_eq_burst_of_le {elapsed' : K} (hrate : 0 ≤ rate) (hle : elapsed ≤ elapsed')
    (h : refill rate burst level elapsed = burst) : refill rate burst level elapsed' = burst := by
  rw [refill_eq_burst_iff] at h ⊢
  have := mul_le_mul_of_nonneg_right hle hrate
  linarith

theorem refill_nonneg (hrate : 0 ≤ rate) (hburst : 0 ≤ burst) (hlevel : 0 ≤ level)
    (helapsed : 0 ≤ elapsed) : 0 ≤ refill rate burst level elapsed :=
  le_min (add_nonneg hlevel (mul_nonneg helapsed hrate)) hburst

theorem refill_refill {elapsed' : K} (hrate : 0 ≤ rate) (helapsed' : 0 ≤ elapsed') :
    refill rate burst (refill rate burst level elapsed) elapsed' =
      refill rate burst level (elapsed + elapsed') := by
  have hfull : burst ≤ burst + elapsed' * rate :=
    le_add_of_nonneg_right (mul_nonneg helapsed' hrate)
  rw [refill, refill, refill, ← min_add_add_right, min_assoc, min_eq_right hfull, add_mul,
    add_assoc]

theorem one_le_refill_iff (hrate : 0 < rate) (hburst : 1 ≤ burst) :
    1 ≤ refill rate burst level elapsed ↔ (1 - level) / rate ≤ elapsed := by
  rw [refill, le_min_iff, and_iff_left hburst, div_le_iff₀ hrate, sub_le_iff_le_add']

/-- What a request takes out of the bucket, and that it does not take more than is there. -/
theorem request_spec (hrate : 0 ≤ rate) (hburst : 0 ≤ burst) (hlevel : 0 ≤ level)
    (helapsed : 0 ≤ elapsed) :
    0 ≤ (request rate burst level elapsed).2 ∧
      ((request rate burst level elapsed).1.toNat : K) + (request rate burst level elapsed).2 ≤
        level + elapsed * rate := by
  have hnonneg := refill_nonneg hrate hburst hlevel helapsed
  have hle : refill rate burst level elapsed ≤ level + elapsed * rate := refill_le_add
  unfold request
  by_cases hone : 1 ≤ refill rate burst level elapsed
  · rw [if_pos hone]
    refine ⟨sub_nonneg.mpr hone, ?_⟩
    rw [Bool.toNat_true, Nat.cast_one, add_sub_cancel]
    exact hle
  · rw [if_neg hone]
    refine ⟨hnonneg, ?_⟩
    rw [Bool.toNat_false, Nat.cast_zero, zero_add]
    exact hle

/-- **The bound of a token bucket.** -/
theorem admitted_le (hrate : 0 ≤ rate) (hburst : 0 ≤ burst) (hlevel : 0 ≤ level) {waits : List K}
    (hwaits : ∀ wait ∈ waits, 0 ≤ wait) :
    (admitted rate burst level waits : K) ≤ level + rate * waits.sum := by
  induction waits generalizing level with
  | nil => simpa [admitted] using hlevel
  | cons wait waits ih =>
    obtain ⟨hwait, hrest⟩ := forall_mem_cons.mp hwaits
    obtain ⟨hnonneg, hspent⟩ := request_spec hrate hburst hlevel hwait
    have hlater := ih hnonneg hrest
    rw [admitted, Nat.cast_add, sum_cons]
    linarith

/-! ## Waits measured by a clock -/

/-- The sum of all moves forward of a clock with these readings. -/
def ascent : List ℕ → ℕ
  | t :: t' :: ts => (t' - t) + ascent (t' :: ts)
  | _ => 0

/-- The time between the earliest and the latest reading. -/
def span (ts : List ℕ) : ℕ := ts.max?.getD 0 - ts.min?.getD 0

theorem ascent_cons_le_sub {t m : ℕ} {ts : List ℕ} (h : (t :: ts).Pairwise (· ≤ ·))
    (hm : ∀ t' ∈ t :: ts, t' ≤ m) : ascent (t :: ts) ≤ m - t := by
  induction ts generalizing t with
  | nil => exact Nat.zero_le _
  | cons t' ts ih =>
    obtain ⟨hle, hrest⟩ := pairwise_cons.mp h
    obtain ⟨-, hm'⟩ := forall_mem_cons.mp hm
    have hascent := ih hrest hm'
    have htt' : t ≤ t' := hle t' mem_cons_self
    have ht'm : t' ≤ m := hm' t' mem_cons_self
    rw [ascent]
    omega

/-- Readings in order go forward by no more than the time they span. -/
theorem ascent_le_span_of_pairwise {ts : List ℕ} (h : ts.Pairwise (· ≤ ·)) :
    ascent ts ≤ span ts := by
  rcases ts with _ | ⟨t, ts⟩
  · exact Nat.zero_le _
  · have hmax : ∀ t' ∈ t :: ts, t' ≤ (t :: ts).max?.getD 0 := fun t' ht' ↦
      le_max?_getD_of_mem ht'
    have hmin : (t :: ts).min?.getD 0 ≤ t := min?_getD_le_of_mem mem_cons_self
    have hascent := ascent_cons_le_sub h hmax
    rw [span]
    omega

end TokenBucket

end Hypershunt
