import Hypershunt.RateLimit.Eviction

/-!
# The waiting time of a denial

A denied client is told to come back after a number of seconds. That number is exact: whatever the
history of the rule, the bucket of the client holds a token again after that many seconds, if nobody
else has used it, and not after fewer of them. Sweeps in between make no difference, as a bucket
that is dropped is full.

A level lies between zero and the burst, so it takes at most the time of one token, and with a rate
of at least one token in `2 ^ 31` seconds the number fits in a `u32`.
-/

namespace Hypershunt

open List

namespace RateLimit

namespace RateLimitRule

open Duration TokenBucket Option

variable {r : RateLimitRule} {s : Buckets} {key : String} {e : BucketEntry}
  {now now' : Instant}

/-- The buckets after a call. -/
def apply (r : RateLimitRule) (s : Buckets) : Call → Buckets
  | .check c => (r.checkAt s c.ctx c.headers c.now).2
  | .evict idleThreshold now => (r.evictIdleAt s idleThreshold now).2

/-- The buckets after a sequence of calls. -/
def after (r : RateLimitRule) (s : Buckets) (calls : List Call) : Buckets := calls.foldl r.apply s

/-! ## Levels -/

/-- No bucket is below zero. -/
def NonNegative (s : Buckets) : Prop := ∀ key e, s.lookup key = some e → 0 ≤ e.tokens

section

variable (hrate : 0 ≤ r.ratePerSec) (hburst : 0 ≤ r.burst)

include hrate hburst

theorem refilled_nonneg (he : 0 ≤ e.tokens) : 0 ≤ r.refilled e now :=
  refill_nonneg hrate hburst he (asSecs_nonneg _)

theorem tokens_probe_nonneg (he : 0 ≤ e.tokens) : 0 ≤ (r.probe e now).2.tokens := by
  simp only [probe]
  split_ifs with hone
  · exact sub_nonneg.mpr hone
  · exact refilled_nonneg hrate hburst he

omit hrate in
theorem NonNegative.entry (h : NonNegative s) (key : String) (now : Instant) :
    0 ≤ (r.entry s key now).tokens := by
  rw [RateLimitRule.entry]
  rcases hlookup : s.lookup key with _ | e
  · exact hburst
  · exact h key e hlookup

theorem NonNegative.apply (h : NonNegative s) (call : Call) : NonNegative (r.apply s call) := by
  intro key e he
  rcases call with c | ⟨idleThreshold, now⟩
  · rw [RateLimitRule.apply, lookup_checkAt] at he
    split_ifs at he
    · obtain rfl := some.inj he
      exact tokens_probe_nonneg hrate hburst (h.entry hburst _ _)
    · exact h key e he
  · rw [RateLimitRule.apply, lookup_evictIdleAt, filter_eq_some_iff] at he
    exact h key e he.1

theorem nonNegative_after (calls : List Call) : NonNegative (r.after ∅ calls) := by
  induction calls using List.reverseRecOn with
  | nil =>
    intro key e he
    exact nomatch he
  | append_singleton calls call ih =>
    rw [after, foldl_append]
    exact ih.apply hrate hburst call

end

/-! ## What the checks of a key find -/

/-- Whoever checks the key from `now` on finds the level that `e` has then. -/
def Finds (r : RateLimitRule) (s : Buckets) (key : String) (e : BucketEntry) (now : Instant) :
    Prop :=
  ∀ t, now ≤ t → r.refilled (r.entry s key t) t = r.refilled e t

theorem entry_congr {s' : Buckets} (h : s'.lookup key = s.lookup key) (t : Instant) :
    r.entry s' key t = r.entry s key t := by
  rw [entry, entry, h]

theorem entry_of_lookup (h : s.lookup key = some e) (t : Instant) : r.entry s key t = e := by
  rw [entry, h, getD_some]

theorem entry_of_lookup_none (h : s.lookup key = none) (t : Instant) :
    r.entry s key t = ⟨r.burst, t⟩ := by
  rw [entry, h, getD_none]

/-- A bucket is at the same level later, if its level is stored in between. -/
theorem refilled_refilled (hrate : 0 ≤ r.ratePerSec) (hlast : e.lastRefill ≤ now)
    (hnow : now ≤ now') : r.refilled ⟨r.refilled e now, now⟩ now' = r.refilled e now' := by
  have hsum : now.saturatingDurationSince e.lastRefill + now'.saturatingDurationSince now =
      now'.saturatingDurationSince e.lastRefill :=
    (Nat.add_comm _ _).trans (Nat.sub_add_sub_cancel hnow hlast)
  rw [refilled, refilled, refill_refill hrate (asSecs_nonneg _), ← asSecs_add, hsum, ← refilled]

theorem probe_of_le (h : 1 ≤ r.refilled e now) :
    r.probe e now = (.allow, ⟨r.refilled e now - 1, now⟩) := by
  rw [probe, if_pos h]

theorem probe_of_lt (h : r.refilled e now < 1) :
    r.probe e now = (.deny (r.retryAfterSecs (r.refilled e now)), ⟨r.refilled e now, now⟩) := by
  rw [probe, if_neg (not_le.mpr h)]

/-- A sweep only drops a bucket that is found full anyway. -/
theorem Finds.evict (h : r.Finds s key e now) (hrate : 0 ≤ r.ratePerSec)
    (idleThreshold : Duration) (hnow : now ≤ now') :
    r.Finds (r.evictIdleAt s idleThreshold now').2 key e now' := by
  intro t ht
  have hlookup : (r.evictIdleAt s idleThreshold now').2.lookup key = _ :=
    lookup_evictIdleAt idleThreshold now'
  rw [← h t (hnow.trans ht)]
  rcases hs : s.lookup key with _ | e₀
  · rw [hs, filter_none] at hlookup
    rw [entry_of_lookup_none hlookup, entry_of_lookup_none hs]
  · rw [hs, filter_some] at hlookup
    rcases hkeeps : r.keeps idleThreshold now' e₀ with _ | _
    · rw [if_neg (Bool.eq_false_iff.mp hkeeps)] at hlookup
      have hfull : r.refilled e₀ t = r.burst := Steady.staysFull (.inl hrate) hkeeps t ht
      rw [entry_of_lookup_none hlookup, refilled_new, entry_of_lookup hs, hfull]
    · rw [if_pos hkeeps] at hlookup
      rw [entry_of_lookup hlookup, entry_of_lookup hs]

theorem Finds.check (h : r.Finds s key e now) (hrate : 0 ≤ r.ratePerSec)
    (hlast : e.lastRefill ≤ now) {c : Check} (hnow : now ≤ c.now)
    (hdeny : r.bucketOf c = key → r.refilled e c.now < 1) :
    r.Finds (r.checkAt s c.ctx c.headers c.now).2 key e c.now := by
  intro t ht
  have hlookup : (r.checkAt s c.ctx c.headers c.now).2.lookup key = _ := lookup_checkAt
  by_cases hkey : key = r.bucketOf c
  · rw [if_pos hkey, ← hkey] at hlookup
    have hfound := h c.now hnow
    have hlt : r.refilled (r.entry s key c.now) c.now < 1 := hfound ▸ hdeny hkey.symm
    rw [probe_of_lt hlt, hfound] at hlookup
    rw [entry_of_lookup hlookup, refilled_refilled hrate (hlast.trans hnow) ht]
  · rw [if_neg hkey] at hlookup
    rw [entry_congr hlookup, h t (hnow.trans ht)]

theorem Finds.after (hrate : 0 ≤ r.ratePerSec) {calls : List Call} {t : Instant}
    (h : r.Finds s key e now) (hlast : e.lastRefill ≤ now)
    (hordered : (now :: calls.map Call.now ++ [t]).Pairwise (· ≤ ·))
    (hdeny : ∀ c, .check c ∈ calls → r.bucketOf c = key → r.refilled e c.now < 1) :
    r.refilled (r.entry (r.after s calls) key t) t = r.refilled e t := by
  induction calls generalizing s now with
  | nil =>
    exact h t (rel_of_pairwise_cons hordered (mem_singleton_self t))
  | cons call calls ih =>
    have hnow : now ≤ call.now := rel_of_pairwise_cons hordered (by simp)
    have hstep : r.Finds (r.apply s call) key e call.now := by
      rcases call with c | ⟨idleThreshold, now'⟩
      · exact h.check hrate hlast hnow (hdeny c mem_cons_self)
      · exact h.evict hrate idleThreshold hnow
    exact ih hstep (hlast.trans hnow) hordered.of_cons fun c hc ↦
      hdeny c (mem_cons_of_mem _ hc)

/-! ## The number of seconds -/

theorem asSecs_fromSecs (n : ℕ) : asSecs (fromSecs n) = n := by
  rw [asSecs, fromSecs, Nat.cast_mul, Nat.cast_pow, Nat.cast_ofNat,
    mul_div_cancel_right₀ _ (by positivity)]

/-- The time until the next token, rounded up; not zero, and the rate is not too small for it. -/
theorem retryAfterSecs_eq {tokens : ℚ} (hrate : 1 / 2 ^ 31 ≤ r.ratePerSec) (hnonneg : 0 ≤ tokens)
    (hlt : tokens < 1) : r.retryAfterSecs tokens = ⌈(1 - tokens) / r.ratePerSec⌉₊ := by
  have hpos : 0 < r.ratePerSec := lt_of_lt_of_le (by positivity) hrate
  have hneed : 0 < 1 - tokens := sub_pos.mpr hlt
  have hle : (1 - tokens) / r.ratePerSec ≤ 2 ^ 31 := by
    rw [div_le_iff₀ hpos]
    linarith
  have hceil : ⌈(1 - tokens) / r.ratePerSec⌉₊ ≤ 2 ^ 31 := by
    rw [Nat.ceil_le]
    exact_mod_cast hle
  have hone : 1 ≤ ⌈(1 - tokens) / r.ratePerSec⌉₊ := Nat.ceil_pos.mpr (div_pos hneed hpos)
  simp only [retryAfterSecs]
  rw [if_pos hpos, max_eq_left hneed.le, Int.ceil_toNat]
  omega

theorem one_le_refilled_iff (hrate : 0 < r.ratePerSec) (hburst : 1 ≤ r.burst) (t : Instant) :
    1 ≤ r.refilled e t ↔
      (1 - e.tokens) / r.ratePerSec ≤ asSecs (t.saturatingDurationSince e.lastRefill) := by
  rw [refilled, one_le_refill_iff hrate hburst]

variable {c : Check} {n : ℕ}

/-- A bucket below one token, and the number of seconds until it has one. -/
theorem exists_of_deny (hburst : 0 ≤ r.burst) (hrate : 1 / 2 ^ 31 ≤ r.ratePerSec)
    (hs : NonNegative s) (hdeny : (r.checkAt s c.ctx c.headers c.now).1 = .deny n) :
    ∃ tokens, n = ⌈(1 - tokens) / r.ratePerSec⌉₊ ∧
      r.Finds (r.checkAt s c.ctx c.headers c.now).2 (r.bucketOf c) ⟨tokens, c.now⟩ c.now := by
  have hpos : 0 < r.ratePerSec := lt_of_lt_of_le (by positivity) hrate
  set e := r.entry s (r.bucketOf c) c.now
  have hnonneg : 0 ≤ r.refilled e c.now :=
    refilled_nonneg hpos.le hburst (hs.entry hburst _ _)
  have hlt : r.refilled e c.now < 1 := by
    by_contra hone
    rw [checkAt_fst, probe_of_le (not_lt.mp hone)] at hdeny
    exact nomatch hdeny
  rw [checkAt_fst, probe_of_lt hlt] at hdeny
  refine ⟨r.refilled e c.now, ?_, fun t _ ↦ ?_⟩
  · rw [← retryAfterSecs_eq hrate hnonneg hlt]
    exact (Listener.RateLimitOutcome.deny.inj hdeny).symm
  · have hlookup : (r.checkAt s c.ctx c.headers c.now).2.lookup (r.bucketOf c) = _ :=
      lookup_checkAt
    rw [if_pos rfl, probe_of_lt hlt] at hlookup
    rw [entry_of_lookup hlookup]

/-- After any history, a client that is told to wait for `n` seconds is let in from then on, if
nobody has used its bucket in between, but not after fewer whole seconds. -/
theorem retryAfter_exact (calls between : List Call) (c' : Check)
    (hburst : ∃ b : ℕ, 0 < b ∧ r.burst = b) (hrate : 1 / 2 ^ 31 ≤ r.ratePerSec)
    (hordered :
      ((calls ++ Call.check c :: between ++ [Call.check c']).map Call.now).Pairwise (· ≤ ·))
    (hdeny : (r.checkAt (r.after ∅ calls) c.ctx c.headers c.now).1 = .deny n)
    (hkey : r.bucketOf c' = r.bucketOf c) :
    let s := r.after ∅ (calls ++ Call.check c :: between)
    ((∀ d, Call.check d ∈ between → r.bucketOf d ≠ r.bucketOf c) →
      c.now + fromSecs n ≤ c'.now →
        (r.checkAt s c'.ctx c'.headers c'.now).1 = .allow) ∧
    ∀ m < n, c'.now = c.now + fromSecs m →
      ∃ k, (r.checkAt s c'.ctx c'.headers c'.now).1 = .deny k := by
  intro s
  obtain ⟨b, hb, hb'⟩ := hburst
  have hone : 1 ≤ r.burst := by
    rw [hb']
    exact_mod_cast hb
  have hpos : 0 < r.ratePerSec := lt_of_lt_of_le (by positivity) hrate
  obtain ⟨tokens, hn, hfinds⟩ := exists_of_deny (zero_le_one.trans hone) hrate
    (nonNegative_after hpos.le (zero_le_one.trans hone) calls) hdeny
  have htail : (c.now :: between.map Call.now ++ [c'.now]).Pairwise (· ≤ ·) := by
    simp only [append_assoc, map_append] at hordered
    exact (pairwise_append.mp hordered).2.1
  have hs : s = r.after (r.checkAt (r.after ∅ calls) c.ctx c.headers c.now).2 between :=
    foldl_append
  -- the bucket that the denial has left holds a token when its time has come
  set e : BucketEntry := ⟨tokens, c.now⟩
  have htoken : ∀ t, 1 ≤ r.refilled e t ↔ (1 - tokens) / r.ratePerSec ≤ asSecs (t - c.now) :=
    one_le_refilled_iff hpos hone
  constructor
  · intro hnone hlate
    have hle : fromSecs n ≤ c'.now - c.now := Nat.le_sub_of_add_le' hlate
    have hlevel := hfinds.after hpos.le le_rfl htail fun d hd hkey ↦ absurd hkey (hnone d hd)
    rw [← hs, ← hkey] at hlevel
    have htime : (1 - tokens) / r.ratePerSec ≤ asSecs (c'.now - c.now) :=
      calc (1 - tokens) / r.ratePerSec ≤ n := hn ▸ Nat.le_ceil _
        _ = asSecs (fromSecs n) := (asSecs_fromSecs n).symm
        _ ≤ asSecs (c'.now - c.now) := asSecs_le_asSecs hle
    have hfull : 1 ≤ r.refilled e c'.now := (htoken _).mpr htime
    rw [checkAt_fst, probe_of_le (hlevel ▸ hfull)]
  · intro m hm hsoon
    have hshort : ∀ t ≤ c'.now, r.refilled e t < 1 := by
      intro t ht
      rw [← not_le, htoken t, not_le]
      have hle : t - c.now ≤ fromSecs m := Nat.sub_le_iff_le_add'.mpr (hsoon ▸ ht)
      calc asSecs (t - c.now) ≤ asSecs (fromSecs m) := asSecs_le_asSecs hle
        _ = m := asSecs_fromSecs m
        _ < (1 - tokens) / r.ratePerSec := Nat.lt_ceil.mp (hn ▸ hm)
    have hlevel := hfinds.after hpos.le le_rfl htail fun d hd _ ↦ by
      have hmem : d.now ∈ between.map Call.now := mem_map_of_mem (f := Call.now) hd
      exact hshort d.now ((pairwise_append.mp htail).2.2 d.now (mem_cons_of_mem _ hmem)
        c'.now (mem_singleton_self _))
    rw [← hs, ← hkey] at hlevel
    have hlt : r.refilled e c'.now < 1 := hshort _ le_rfl
    rw [checkAt_fst, probe_of_lt (hlevel ▸ hlt)]
    exact ⟨_, rfl⟩

/-- One request in three seconds. -/
private def perThreeSeconds : RateLimitRule := ⟨"login", 1 / 3, 1, .clientIp⟩

private def checkOf (clientIp : String) (secs : ℕ) : Check :=
  ⟨{ clientIp := clientIp }, [], fromSecs secs⟩

/-- The second request is told to wait for two seconds. A sweep and another client do not matter to
the third, which is let in then and not a second before. -/
theorem retryAfter_exact_perThreeSeconds :
    let calls := [Call.check (checkOf "192.0.2.1" 0), Call.check (checkOf "192.0.2.1" 1),
      Call.evict 0 (fromSecs 2), Call.check (checkOf "192.0.2.7" 2)]
    let s := perThreeSeconds.after ∅ calls
    (perThreeSeconds.checkAt s { clientIp := "192.0.2.1" } [] (fromSecs 3)).1 = .allow ∧
    ∃ k, (perThreeSeconds.checkAt s { clientIp := "192.0.2.1" } [] (fromSecs 2)).1 =
      .deny k := by
  have hburst : ∃ b : ℕ, 0 < b ∧ perThreeSeconds.burst = b := ⟨1, Nat.one_pos, rfl⟩
  have hrate : 1 / 2 ^ 31 ≤ perThreeSeconds.ratePerSec := by decide +kernel
  have hdeny : (perThreeSeconds.checkAt
      (perThreeSeconds.after ∅ [Call.check (checkOf "192.0.2.1" 0)])
      (checkOf "192.0.2.1" 1).ctx [] (fromSecs 1)).1 = .deny 2 := by
    decide +kernel
  let between := [Call.evict 0 (fromSecs 2), Call.check (checkOf "192.0.2.7" 2)]
  have hothers : ∀ d, Call.check d ∈ between →
      perThreeSeconds.bucketOf d ≠ perThreeSeconds.bucketOf (checkOf "192.0.2.1" 1) := by
    intro d hd
    rcases mem_cons.mp hd with hd | hd
    · exact nomatch hd
    · obtain rfl := Call.check.inj (mem_singleton.mp hd)
      decide
  exact ⟨(retryAfter_exact _ between (checkOf "192.0.2.1" 3) hburst hrate (by decide) hdeny rfl).1
      hothers (by decide),
    (retryAfter_exact _ between (checkOf "192.0.2.1" 2) hburst hrate (by decide) hdeny rfl).2 1
      (by decide) (by decide)⟩

end RateLimitRule

end RateLimit

end Hypershunt
