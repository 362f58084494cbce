import Hypershunt.Lb.RoundRobin

/-!
# Falling back from a group

A request that names a group without available members takes two turns: the pass over the group
takes one and finds nothing, the pass over the whole pool takes the next. Requests in a row then
start two positions apart, and on a ring of even length half of the positions are never a start.
An upstream that stands on such positions only is chosen only if the walk from the position before
goes on to it (`covers_iff`).
-/

namespace Hypershunt

open List Option

namespace Lb

namespace UpstreamPool

structure Request where
  ctx : PickCtx
  first : Clock
  second : Clock

/-- What `pick` returns to requests that come one after the other. -/
def picks (hasher : Hasher) : UpstreamPool → List Request → List (Option ℕ)
  | _, [] => []
  | pool, r :: requests =>
    let (picked, pool) := pool.pick hasher r.ctx r.first r.second
    picked :: picks hasher pool requests

/-- The upstream at a position of the ring is available. -/
def AvailableAt (pool : UpstreamPool) (nowMs : UInt64) (pos : ℕ) : Prop :=
  (pool.eligibleAt (.available nowMs none) pos).isSome

/-- Upstream `i` has a position on the ring that some of `W` fallbacks in a row stop at. -/
def Covered (pool : UpstreamPool) (nowMs : UInt64) (i : ℕ) : Prop :=
  let W := pool.weightedRing.length
  let last := pool.rrCounter.toNat + 2 * W - 1
  ∃ pos, pool.weightedRing[pos]? = some i ∧
    (W % 2 = 1 ∨ pos % 2 = (pool.rrCounter.toNat + 1) % 2 ∨
      ¬pool.AvailableAt nowMs ((pos + W - 1) % W) ∨
      -- The walk from the last start reaches position zero over the end of the word.
      pos = 0 ∧ 2 ^ 64 < last + W ∧
        ∀ n, last ≤ n → n < 2 ^ 64 → ¬pool.AvailableAt nowMs (n % W))

section Fallback

variable {hasher : Hasher} {pool : UpstreamPool} {g : String} {nowMs : UInt64}
  {requests : List Request} {start : UInt64} {i : ℕ}

/-- A request for a group without available members, when the same upstreams are available. -/
def FallsBack (pool : UpstreamPool) (g : String) (nowMs : UInt64) (r : Request) : Prop :=
  r.ctx.group = some g ∧ ∀ u ∈ pool.upstreams,
    u.isAvailable r.first.nowMs = u.isAvailable nowMs ∧
      u.isAvailable r.second.nowMs = u.isAvailable nowMs

theorem walk_eq_some_iff :
    pool.walk (.available nowMs none) start = some i ↔
      ∃ pos, pool.weightedRing[pos]? = some i ∧
        Cycle.Stops (2 ^ 64) pool.weightedRing.length start.toNat (pool.AvailableAt nowMs) pos := by
  rw [walk, Cycle.scan_eq_some_iff]
  constructor
  · rintro ⟨o, ho, hi, hbefore⟩
    refine ⟨_, (eligibleAt_eq_some.mp hi).1, o, ho, rfl, ?_, fun o' ho' ↦ ?_⟩
    · rw [AvailableAt, hi]
      rfl
    · rw [AvailableAt, hbefore o' ho']
      exact Bool.false_ne_true
  · rintro ⟨pos, hpos, o, ho, rfl, havailable, hbefore⟩
    obtain ⟨j, hj⟩ := isSome_iff_exists.mp havailable
    obtain rfl : j = i := Option.some.inj ((eligibleAt_eq_some.mp hj).1.symm.trans hpos)
    exact ⟨o, ho, hj, fun o' ho' ↦ not_isSome_iff_eq_none.mp (hbefore o' ho')⟩

variable (hpolicy : pool.policy = .roundRobin) (hdeclared : pool.declared g = true)
  (hmembers : ∀ u ∈ pool.upstreams, u.group = some g → u.isAvailable nowMs = false)

include hpolicy hdeclared hmembers

theorem pick_fallback (hring : pool.weightedRing ≠ []) {r : Request}
    (hr : pool.FallsBack g nowMs r) :
    pool.pick hasher r.ctx r.first r.second =
      (pool.walk (.available nowMs none) (pool.rrCounter + 1),
        { pool with rrCounter := pool.rrCounter + 1 + 1 }) := by
  have hnone : pool.walk (.available r.first.nowMs (some g)) pool.rrCounter = none := by
    rw [walk_eq_none_iff]
    intro hsees
    obtain ⟨u, hu, havailable, hgroup⟩ := offers_some.mp hsees.offers
    rw [(hr.2 u hu).1, hmembers u hu hgroup] at havailable
    exact Bool.false_ne_true havailable
  have hsecond := eligibleAt_congr fun u hu ↦ (hr.2 u hu).2
  have hpass : pool.fetchAdd.2.pickWhere hasher r.ctx none r.second =
      (pool.walk (.available r.second.nowMs none) (pool.rrCounter + 1),
        pool.fetchAdd.2.fetchAdd.2) :=
    pickWhere_roundRobin hpolicy hring
  rw [pick, if_neg (upstreams_ne_nil hring), hr.1]
  dsimp only
  rw [if_pos hdeclared, pickWhere_roundRobin hpolicy hring, hnone]
  dsimp only
  rw [hpass, walk, walk, hsecond]
  rfl

theorem picks_fallback (hring : pool.weightedRing ≠ [])
    (hrequests : ∀ r ∈ requests, pool.FallsBack g nowMs r) :
    ∀ c, picks hasher { pool with rrCounter := c } requests =
      (List.range requests.length).map fun k ↦
        pool.walk (.available nowMs none) (c + UInt64.ofNat (2 * k + 1)) := by
  induction requests with
  | nil =>
    intro c
    rfl
  | cons r requests ih =>
    intro c
    have hpick : pick hasher r.ctx r.first r.second { pool with rrCounter := c } =
        (pool.walk (.available nowMs none) (c + 1), { pool with rrCounter := c + 1 + 1 }) :=
      @pick_fallback hasher { pool with rrCounter := c } g nowMs hpolicy hdeclared hmembers hring r
        (hrequests r mem_cons_self)
    rw [picks, hpick, length_cons, range_succ_eq_map, map_cons, List.map_map]
    dsimp only
    rw [ih fun r hr ↦ hrequests r (mem_cons_of_mem _ hr)]
    refine congrArg (_ :: ·) (map_congr_left fun k _ ↦ ?_)
    have hnext : c + 1 + 1 + UInt64.ofNat (2 * k + 1) = c + UInt64.ofNat (2 * k.succ + 1) := by
      rw [show 2 * k.succ + 1 = 1 + (1 + (2 * k + 1)) by omega, UInt64.ofNat_add 1,
        UInt64.ofNat_add 1, ← UInt64.add_assoc, ← UInt64.add_assoc]
      rfl
    rw [Function.comp_apply, hnext]

theorem mem_picks_iff (hrequests : ∀ r ∈ requests, pool.FallsBack g nowMs r)
    (hlen : requests.length = pool.weightedRing.length)
    (hwrap : pool.rrCounter.toNat + 2 * pool.weightedRing.length ≤ 2 ^ 64) {u : Upstream}
    (hu : pool.upstreams[i]? = some u) (havailable : u.isAvailable nowMs = true) :
    some i ∈ picks hasher pool requests ↔ pool.Covered nowMs i := by
  have htest : (Eligibility.available nowMs none).test u = true :=
    test_available_none.trans havailable
  obtain ⟨pos, hpos, -⟩ := exists_eligibleAt hu htest
  have hring : pool.weightedRing ≠ [] := ne_nil_of_length_pos (Nat.zero_lt_of_lt hpos)
  -- All positions of an available upstream are available.
  have hat : ∀ {pos}, pool.weightedRing[pos]? = some i → pool.AvailableAt nowMs pos := by
    intro pos hpos
    exact isSome_iff_exists.mpr ⟨i, eligibleAt_eq_some.mpr ⟨hpos, u, hu, htest⟩⟩
  have hpicks : picks hasher pool requests = _ :=
    picks_fallback hpolicy hdeclared hmembers hring hrequests pool.rrCounter
  have hstart : ∀ k < pool.weightedRing.length,
      (pool.rrCounter + UInt64.ofNat (2 * k + 1)).toNat = pool.rrCounter.toNat + 2 * k + 1 := by
    intro k hk
    rw [UInt64.toNat_add, UInt64.toNat_ofNat', Nat.add_mod_mod, Nat.mod_eq_of_lt (by omega),
      Nat.add_assoc]
  rw [hpicks, List.mem_map, hlen]
  constructor
  · rintro ⟨k, hk, hwalk⟩
    rw [mem_range] at hk
    obtain ⟨pos, hpos, hstops⟩ := walk_eq_some_iff.mp hwalk
    rw [hstart k hk] at hstops
    have hlt := (List.getElem?_eq_some_iff.mp hpos).1
    exact ⟨pos, hpos, (Cycle.exists_stops_iff hwrap hlt (hat hpos)).mp ⟨k, hk, hstops⟩⟩
  · rintro ⟨pos, hpos, hcovered⟩
    have hlt := (List.getElem?_eq_some_iff.mp hpos).1
    obtain ⟨k, hk, hstops⟩ := (Cycle.exists_stops_iff hwrap hlt (hat hpos)).mpr hcovered
    rw [← hstart k hk] at hstops
    exact ⟨k, mem_range.mpr hk, walk_eq_some_iff.mpr ⟨pos, hpos, hstops⟩⟩

end Fallback

/-- With no member of the group that is asked for available, any `W` picks in a row whose turns do
not wrap around choose every available upstream exactly if the fallbacks stop at each of them. -/
theorem covers_iff (hasher : Hasher) (pool : UpstreamPool) (g : String) (nowMs : UInt64)
    (hpolicy : pool.policy = .roundRobin) (hdeclared : pool.declared g = true)
    (hmembers : ∀ u ∈ pool.upstreams, u.group = some g → u.isAvailable nowMs = false)
    (requests : List Request) (hrequests : ∀ r ∈ requests, pool.FallsBack g nowMs r)
    (hlen : requests.length = (pool.upstreams.map fun u ↦ u.weight.toNat).sum)
    (hwrap : pool.rrCounter.toNat + 2 * (pool.upstreams.map fun u ↦ u.weight.toNat).sum ≤ 2 ^ 64) :
    (∀ i u, pool.upstreams[i]? = some u → u.isAvailable nowMs = true →
        some i ∈ picks hasher pool requests) ↔
      ∀ i u, pool.upstreams[i]? = some u → u.isAvailable nowMs = true → pool.Covered nowMs i := by
  rw [← length_weightedRing] at hlen hwrap
  refine forall₄_congr fun i u hu havailable ↦ ?_
  exact mem_picks_iff hpolicy hdeclared hmembers hrequests hlen hwrap hu havailable

/-- A group of one upstream, which is down, and `n` others. -/
private def oneDown (n : ℕ) : List Upstream :=
  { Upstream.new "http://g" 1 (some "g") with healthy := false } ::
    List.replicate n (.new "http://a" 1 none)

private def namesGroup : Request := ⟨⟨none, [], some "g"⟩, ⟨0, 0⟩, ⟨0, 0⟩⟩

theorem covers_threeOnRing :
    let pool := new (oneDown 2) .roundRobin none (by decide)
    ∀ i u, pool.upstreams[i]? = some u → u.isAvailable 0 = true →
      some i ∈ picks constHasher pool (List.replicate 3 namesGroup) := by
  intro pool
  refine (covers_iff constHasher pool "g" 0 rfl (by decide) (by decide)
    (List.replicate 3 namesGroup) ?_ (by decide) (by decide)).mpr fun i u hu havailable ↦ ?_
  · intro r hr
    rw [eq_of_mem_replicate hr]
    exact ⟨rfl, fun u _ ↦ ⟨rfl, rfl⟩⟩
  · have hpos := test_available_none.trans havailable
    obtain ⟨pos, -, hat⟩ := exists_eligibleAt hu hpos
    exact ⟨pos, (eligibleAt_eq_some.mp hat).1, .inl (by decide)⟩

/-- On a ring of four, four requests for the group never pick the third upstream. -/
theorem fallback_skips_upstream :
    let pool := new (oneDown 3) .roundRobin none (by decide)
    picks constHasher pool (List.replicate 4 namesGroup) = [some 1, some 3, some 1, some 3] ∧
      pool.upstreams[2]? = some (.new "http://a" 1 none) ∧
      (Upstream.new "http://a" 1 none).isAvailable 0 = true :=
  ⟨by decide +kernel, rfl, by decide⟩

end UpstreamPool

end Lb

end Hypershunt
