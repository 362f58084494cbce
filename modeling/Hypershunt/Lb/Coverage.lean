import Hypershunt.Lb.Pick

/-!
# Whether the picker finds an upstream

The walk around the weighted ring adds its offset to the start in a machine word. A start close to
the end of the word makes it wrap around, and as the length of the ring need not divide `2 ^ 64`,
the walk then repeats some positions and leaves out others. `pick_complete_iff` says for which
pools, starts and groups `pick` finds an upstream whenever there is one, and one of the group
whenever there is one.
-/

namespace Hypershunt

open List

namespace Lb

namespace UpstreamPool

open Hypershunt.Cycle Eligibility

variable {pool : UpstreamPool} {eligible : Eligibility}

/-! ## The ring -/

variable {idx : ℕ} {u : Upstream} {start nowMs : UInt64} {g : String}

theorem mem_ringOf {upstreams : List Upstream} :
    idx ∈ ringOf upstreams ↔ ∃ u, upstreams[idx]? = some u ∧ 0 < u.weight := by
  have hpos : ∀ u : Upstream, u.weight.toNat ≠ 0 ↔ 0 < u.weight := by
    intro u
    rw [← Nat.pos_iff_ne_zero, UInt32.lt_iff_toNat_lt]
    rfl
  simp only [ringOf, mem_flatMap, mem_replicate, Prod.exists, mk_mem_zipIdx_iff_getElem?]
  constructor
  · rintro ⟨u, i, hu, hne, rfl⟩
    exact ⟨u, hu, (hpos u).mp hne⟩
  · rintro ⟨u, hu, hw⟩
    exact ⟨u, idx, hu, (hpos u).mpr hw, rfl⟩

theorem eligibleAt_eq_some {pos : ℕ} :
    pool.eligibleAt eligible pos = some idx ↔
      pool.weightedRing[pos]? = some idx ∧
        ∃ u, pool.upstreams[idx]? = some u ∧ eligible.test u = true := by
  simp only [eligibleAt, Option.bind_eq_bind, Option.bind_eq_some_iff]
  constructor
  · rintro ⟨i, hi, u, hu, hif⟩
    split at hif
    · rename_i htest
      obtain rfl := Option.some.inj hif
      exact ⟨hi, u, hu, htest⟩
    · exact nomatch hif
  · rintro ⟨hi, u, hu, htest⟩
    exact ⟨idx, hi, u, hu, if_pos htest⟩

theorem exists_eligibleAt (hu : pool.upstreams[idx]? = some u) (htest : eligible.test u = true) :
    ∃ pos < pool.weightedRing.length, pool.eligibleAt eligible pos = some idx := by
  have hmem : idx ∈ pool.weightedRing := by
    rw [pool.ring_eq, mem_ringOf]
    exact ⟨u, hu, eligible.weight_pos htest⟩
  obtain ⟨pos, hlt, hpos⟩ := mem_iff_getElem.mp hmem
  exact ⟨pos, hlt, eligibleAt_eq_some.mpr ⟨List.getElem?_eq_some_iff.mpr ⟨hlt, hpos⟩, u, hu, htest⟩⟩

/-- The walk from `start` visits an eligible upstream. -/
def Sees (pool : UpstreamPool) (eligible : Eligibility) (start : UInt64) : Prop :=
  ∃ pos < pool.weightedRing.length, (pool.eligibleAt eligible pos).isSome ∧
    Cycle.Visited (2 ^ 64) pool.weightedRing.length start.toNat pos

/-- The result of the walk from `start`. -/
def walk (pool : UpstreamPool) (eligible : Eligibility) (start : UInt64) : Option ℕ :=
  scan (2 ^ 64) pool.weightedRing.length start.toNat (pool.eligibleAt eligible)

theorem walk_eq_none_iff : pool.walk eligible start = none ↔ ¬pool.Sees eligible start := by
  have hWM : pool.weightedRing.length ≤ 2 ^ 64 :=
    pool.ring_lt.le.trans (Nat.pow_le_pow_right Nat.two_pos (by decide))
  rw [walk, scan_eq_none_iff]
  constructor
  · rintro hnone ⟨pos, hpos, hsome, hvisited⟩
    obtain ⟨o, ho, rfl⟩ := (visited_iff hWM start.toNat_lt hpos).mp hvisited
    rw [hnone o ho] at hsome
    exact Bool.false_ne_true hsome
  · intro hnot o ho
    by_contra hne
    have hlt := position_lt (M := 2 ^ 64) (Nat.zero_lt_of_lt ho) start.toNat o
    exact hnot ⟨_, hlt, Option.isSome_iff_ne_none.mpr hne,
      (visited_iff hWM start.toNat_lt hlt).mpr ⟨o, ho, rfl⟩⟩

theorem walk_of_ring_nil (hring : pool.weightedRing = []) : pool.walk eligible start = none := by
  rw [walk, hring]
  rfl

/-- The upstream `i` of the pool passes the test. -/
def Passes (pool : UpstreamPool) (eligible : Eligibility) (i : ℕ) : Prop :=
  ∃ u, pool.upstreams[i]? = some u ∧ eligible.test u = true

theorem passes_of_walk {i : ℕ} (h : pool.walk eligible start = some i) :
    pool.Passes eligible i := by
  obtain ⟨o, -, hat, -⟩ := scan_eq_some_iff.mp h
  exact (eligibleAt_eq_some.mp hat).2

/-- Some upstream of the pool passes the test. -/
def Offers (pool : UpstreamPool) (eligible : Eligibility) : Prop :=
  ∃ i, pool.Passes eligible i

theorem Sees.offers (h : pool.Sees eligible start) : pool.Offers eligible := by
  obtain ⟨pos, -, hsome, -⟩ := h
  obtain ⟨i, hi⟩ := Option.isSome_iff_exists.mp hsome
  exact ⟨i, (eligibleAt_eq_some.mp hi).2⟩

/-- Without a wrap, the walk misses nothing. -/
theorem Offers.sees (h : pool.Offers eligible)
    (hstart : start.toNat + pool.weightedRing.length ≤ 2 ^ 64) : pool.Sees eligible start := by
  obtain ⟨i, u, hu, htest⟩ := h
  obtain ⟨pos, hpos, hat⟩ := exists_eligibleAt hu htest
  exact ⟨pos, hpos, Option.isSome_iff_exists.mpr ⟨i, hat⟩,
    visited_of_add_le (Nat.zero_lt_of_lt hpos) hstart⟩

/-! ## One pass -/

section Pass

variable (hasher : Hasher) (ctx : PickCtx) (group : Option String) (clock : Clock)

theorem start_snd (pool : UpstreamPool) (nanos : UInt64) :
    ∃ c, (pool.start hasher ctx nanos).2 = { pool with rrCounter := c } := by
  rw [start]
  split
  · exact ⟨_, rfl⟩
  · exact ⟨_, rfl⟩
  · split
    · exact ⟨_, rfl⟩
    · exact ⟨_, rfl⟩
  · split
    · exact ⟨_, rfl⟩
    · exact ⟨_, rfl⟩
  · exact ⟨_, rfl⟩

variable {hasher ctx group clock}

theorem pickWhere_of_leastConn (hpolicy : pool.policy = .leastConn) :
    pool.pickWhere hasher ctx group clock =
      pool.pickLeastConn (.available clock.nowMs group) := by
  rw [pickWhere, if_pos hpolicy]

theorem pickWhere_fst (hpolicy : pool.policy ≠ .leastConn) :
    (pool.pickWhere hasher ctx group clock).1 =
      pool.walk (.available clock.nowMs group) (pool.start hasher ctx clock.nanos).1 := by
  rw [pickWhere, if_neg hpolicy]
  split
  · rename_i hempty
    rw [walk_of_ring_nil (List.isEmpty_iff.mp hempty)]
  · obtain ⟨c, hc⟩ := start_snd hasher ctx pool clock.nanos
    dsimp only
    rw [hc]
    rfl

theorem pickWhere_roundRobin (hpolicy : pool.policy = .roundRobin)
    (hring : pool.weightedRing ≠ []) :
    pool.pickWhere hasher ctx group clock =
      (pool.walk (.available clock.nowMs group) pool.rrCounter, pool.fetchAdd.2) := by
  have hne : pool.policy ≠ .leastConn := by
    rw [hpolicy]
    exact nofun
  have hstart : pool.start hasher ctx clock.nanos = pool.fetchAdd := by rw [start, hpolicy]
  rw [pickWhere, if_neg hne, if_neg (by rwa [List.isEmpty_iff]), hstart]
  rfl

/-- Least connections finds something if there is something, the ring if the walk sees it. -/
def Finds (pool : UpstreamPool) (eligible : Eligibility) (start : UInt64) : Prop :=
  pool.Offers eligible ∧ (pool.policy = .leastConn ∨ pool.Sees eligible start)

theorem pickWhere_eq_none :
    (pool.pickWhere hasher ctx group clock).1 = none ↔
      ¬pool.Finds (.available clock.nowMs group) (pool.start hasher ctx clock.nanos).1 := by
  by_cases hpolicy : pool.policy = .leastConn
  · rw [pickWhere_of_leastConn hpolicy, Finds, and_iff_left (.inl hpolicy)]
    obtain ⟨hnone, hsome⟩ := pool.pickLeastConn_spec (.available clock.nowMs group)
    constructor
    · rintro h ⟨i, u, hu, htest⟩
      rw [hnone h u (mem_of_getElem? hu)] at htest
      exact Bool.false_ne_true htest
    · intro hoffers
      by_contra hne
      obtain ⟨i, hi⟩ := Option.ne_none_iff_exists'.mp hne
      obtain ⟨u, hu, htest, -⟩ := hsome i hi
      exact hoffers ⟨i, u, hu, htest⟩
  · rw [pickWhere_fst hpolicy, walk_eq_none_iff, not_iff_not]
    exact ⟨fun h ↦ ⟨h.offers, .inr h⟩, fun h ↦ h.2.resolve_left hpolicy⟩

theorem passes_of_pickWhere {i : ℕ} (h : (pool.pickWhere hasher ctx group clock).1 = some i) :
    pool.Passes (.available clock.nowMs group) i := by
  by_cases hpolicy : pool.policy = .leastConn
  · rw [pickWhere_of_leastConn hpolicy] at h
    obtain ⟨u, hu, htest, -⟩ := (pool.pickLeastConn_spec _).2 i h
    exact ⟨u, hu, htest⟩
  · rw [pickWhere_fst hpolicy] at h
    exact passes_of_walk h

end Pass

/-! ## Both passes -/

variable {hasher : Hasher} {ctx : PickCtx} {first second : Clock}

theorem upstreams_ne_nil (hring : pool.weightedRing ≠ []) : ¬pool.upstreams.isEmpty = true := by
  intro hempty
  rw [pool.ring_eq, List.isEmpty_iff.mp hempty] at hring
  exact hring rfl

theorem pick_of_declared (hgroup : ctx.group = some g) (hg : pool.declared g = true) :
    (pool.pick hasher ctx first second).1 =
      (pool.pickWhere hasher ctx (some g) first).1.or
        ((pool.pickWhere hasher ctx (some g) first).2.pickWhere hasher ctx none second).1 := by
  have hne : ¬pool.upstreams.isEmpty = true := by
    intro hempty
    rw [declared, List.isEmpty_iff.mp hempty] at hg
    exact Bool.false_ne_true hg
  rw [pick, if_neg hne, hgroup]
  dsimp only
  rw [if_pos hg]
  rcases pool.pickWhere hasher ctx (some g) first with ⟨_ | i, pool'⟩
  · rw [Option.none_or]
  · rfl

theorem pick_of_undeclared (hgroup : ∀ g, ctx.group = some g → pool.declared g = false) :
    (pool.pick hasher ctx first second).1 = (pool.pickWhere hasher ctx none first).1 := by
  rw [pick]
  split
  · rename_i hempty
    refine (pickWhere_eq_none.mpr ?_).symm
    rintro ⟨⟨i, u, hu, -⟩, -⟩
    rw [List.isEmpty_iff.mp hempty] at hu
    exact nomatch hu
  · split
    · rename_i g hg
      rw [if_neg (Bool.not_eq_true _ ▸ hgroup g hg)]
    · rfl

/-- `pick` finds an available upstream if there is one, in the requested group if it has one. -/
def Complete (hasher : Hasher) (ctx : PickCtx) (first second : Clock) (pool : UpstreamPool) :
    Prop :=
  ((pool.pick hasher ctx first second).1 = none ↔
      ∀ u ∈ pool.upstreams, u.isAvailable first.nowMs = false) ∧
    ∀ g, ctx.group = some g →
      (∃ u ∈ pool.upstreams, u.isAvailable first.nowMs = true ∧ u.group = some g) →
      ∃ i u, (pool.pick hasher ctx first second).1 = some i ∧ pool.upstreams[i]? = some u ∧
        u.group = some g

/-- The start of the first pass. -/
def firstStart (hasher : Hasher) (ctx : PickCtx) (first : Clock) (pool : UpstreamPool) : UInt64 :=
  (pool.start hasher ctx first.nanos).1

/-- The start of a second pass. -/
def secondStart (hasher : Hasher) (ctx : PickCtx) (first second : Clock) (pool : UpstreamPool) :
    UInt64 :=
  ((pool.start hasher ctx first.nanos).2.start hasher ctx second.nanos).1

/-- The first available upstream on the walk from `start` is of the group. -/
def Leads (pool : UpstreamPool) (nowMs : UInt64) (group : Option String) (start : UInt64) : Prop :=
  ∃ o < pool.weightedRing.length,
    (pool.eligibleAt (.available nowMs group)
      (position (2 ^ 64) pool.weightedRing.length start.toNat o)).isSome ∧
    ∀ o' < o, pool.eligibleAt (.available nowMs none)
      (position (2 ^ 64) pool.weightedRing.length start.toNat o') = none

/-- What the starts have to visit. -/
def Reaches (hasher : Hasher) (ctx : PickCtx) (first second : Clock) (pool : UpstreamPool) :
    Prop :=
  pool.policy = .leastConn ∨
    -- A member of the group is available: the first pass sees one, or the second meets one first.
    (∃ g, ctx.group = some g ∧ pool.Offers (.available first.nowMs (some g)) ∧
      (pool.Sees (.available first.nowMs (some g)) (pool.firstStart hasher ctx first) ∨
        pool.Leads first.nowMs (some g) (pool.secondStart hasher ctx first second))) ∨
    -- Otherwise the one pass over all upstreams sees one, if there is one.
    (∀ g, ctx.group = some g → ¬pool.Offers (.available first.nowMs (some g))) ∧
      (pool.Offers (.available first.nowMs none) →
        pool.Sees (.available first.nowMs none)
          (if ctx.group.any pool.declared then pool.secondStart hasher ctx first second
            else pool.firstStart hasher ctx first))

theorem test_available_none : (available nowMs none).test u = u.isAvailable nowMs := by
  simp [available]

theorem test_available_some :
    (available nowMs (some g)).test u = true ↔
      u.isAvailable nowMs = true ∧ u.group = some g := by
  simp [available]

theorem offers_iff {eligible : Eligibility} :
    pool.Offers eligible ↔ ∃ u ∈ pool.upstreams, eligible.test u = true := by
  constructor
  · rintro ⟨i, u, hu, htest⟩
    exact ⟨u, mem_of_getElem? hu, htest⟩
  · rintro ⟨u, hu, htest⟩
    obtain ⟨i, hi⟩ := mem_iff_getElem?.mp hu
    exact ⟨i, u, hi, htest⟩

theorem offers_none :
    pool.Offers (.available nowMs none) ↔ ∃ u ∈ pool.upstreams, u.isAvailable nowMs = true := by
  simp only [offers_iff, test_available_none]

theorem offers_some :
    pool.Offers (.available nowMs (some g)) ↔
      ∃ u ∈ pool.upstreams, u.isAvailable nowMs = true ∧ u.group = some g := by
  simp only [offers_iff, test_available_some]

theorem Offers.declared (h : pool.Offers (.available nowMs (some g))) : pool.declared g = true := by
  obtain ⟨u, hu, -, hgroup⟩ := offers_some.mp h
  exact any_eq_true.mpr ⟨u, hu, beq_iff_eq.mpr hgroup⟩

theorem Offers.of_some (h : pool.Offers (.available nowMs (some g))) :
    pool.Offers (.available nowMs none) := by
  obtain ⟨u, hu, havailable, -⟩ := offers_some.mp h
  exact offers_none.mpr ⟨u, hu, havailable⟩

/-- The walk over all upstreams stops at a member of the group. -/
theorem leads_iff :
    pool.Leads nowMs (some g) start ↔
      ∃ i u, pool.walk (.available nowMs none) start = some i ∧ pool.upstreams[i]? = some u ∧
        u.group = some g := by
  have hat : ∀ {pos i}, pool.eligibleAt (.available nowMs (some g)) pos = some i ↔
      pool.eligibleAt (.available nowMs none) pos = some i ∧
        ∃ u, pool.upstreams[i]? = some u ∧ u.group = some g := by
    intro pos i
    simp only [eligibleAt_eq_some, test_available_none, test_available_some]
    constructor
    · rintro ⟨hring, u, hu, havailable, hgroup⟩
      exact ⟨⟨hring, u, hu, havailable⟩, u, hu, hgroup⟩
    · rintro ⟨⟨hring, u, hu, havailable⟩, v, hv, hgroup⟩
      obtain rfl : u = v := Option.some.inj (hu.symm.trans hv)
      exact ⟨hring, u, hu, havailable, hgroup⟩
  constructor
  · rintro ⟨o, ho, hsome, hbefore⟩
    obtain ⟨i, hi⟩ := Option.isSome_iff_exists.mp hsome
    obtain ⟨hnone, u, hu, hgroup⟩ := hat.mp hi
    exact ⟨i, u, scan_eq_some_iff.mpr ⟨o, ho, hnone, hbefore⟩, hu, hgroup⟩
  · rintro ⟨i, u, hwalk, hu, hgroup⟩
    obtain ⟨o, ho, hi, hbefore⟩ := scan_eq_some_iff.mp hwalk
    exact ⟨o, ho, Option.isSome_iff_exists.mpr ⟨i, hat.mpr ⟨hi, u, hu, hgroup⟩⟩, hbefore⟩

/-- With a member of the group available, what matters is whether a member is returned. -/
theorem complete_iff_member (hg : ctx.group = some g)
    (ho : pool.Offers (.available first.nowMs (some g))) :
    pool.Complete hasher ctx first second ↔
      ∃ i u, (pool.pick hasher ctx first second).1 = some i ∧ pool.upstreams[i]? = some u ∧
        u.group = some g := by
  constructor
  · rintro ⟨-, hmember⟩
    exact hmember g hg (offers_some.mp ho)
  · rintro ⟨i, u, hi, hu, hgroup⟩
    refine ⟨⟨fun hnone ↦ ?_, fun hall ↦ ?_⟩, ?_⟩
    · rw [hi] at hnone
      exact nomatch hnone
    · obtain ⟨v, hv, havailable⟩ := offers_none.mp ho.of_some
      rw [hall v hv] at havailable
      exact absurd havailable Bool.false_ne_true
    · rintro g' hg' -
      obtain rfl : g = g' := Option.some.inj (hg.symm.trans hg')
      exact ⟨i, u, hi, hu, hgroup⟩

theorem eligibleAt_congr {now now' : UInt64}
    (h : ∀ u ∈ pool.upstreams, u.isAvailable now = u.isAvailable now') :
    pool.eligibleAt (.available now none) = pool.eligibleAt (.available now' none) := by
  funext pos
  refine Option.ext fun i ↦ ?_
  simp only [eligibleAt_eq_some, test_available_none]
  refine and_congr_right fun _ ↦ exists_congr fun u ↦ and_congr_right fun hu ↦ ?_
  rw [h u (mem_of_getElem? hu)]

section Fixed

-- The states of the upstreams do not change during the call.
variable (hfixed : ∀ u ∈ pool.upstreams, u.isAvailable second.nowMs = u.isAvailable first.nowMs)

include hfixed

theorem second_fst (hpolicy : pool.policy ≠ .leastConn) (group : Option String) :
    ((pool.pickWhere hasher ctx group first).2.pickWhere hasher ctx none second).1 =
      pool.walk (.available first.nowMs none) (pool.secondStart hasher ctx first second) := by
  by_cases hring : pool.weightedRing = []
  · have hsnd : (pool.pickWhere hasher ctx group first).2 = pool := by
      rw [pickWhere, if_neg hpolicy, if_pos (List.isEmpty_iff.mpr hring)]
    rw [hsnd, pickWhere_fst hpolicy, walk_of_ring_nil hring, walk_of_ring_nil hring]
  · have hsnd : (pool.pickWhere hasher ctx group first).2 =
        (pool.start hasher ctx first.nanos).2 := by
      rw [pickWhere, if_neg hpolicy, if_neg (by rwa [List.isEmpty_iff])]
    obtain ⟨c, hc⟩ := start_snd hasher ctx pool first.nanos
    have hpolicy' : (pool.start hasher ctx first.nanos).2.policy ≠ .leastConn := by rwa [hc]
    rw [hsnd, pickWhere_fst hpolicy', ← secondStart, walk, walk, ← eligibleAt_congr hfixed, hc]
    rfl

theorem offers_second :
    pool.Offers (.available second.nowMs none) ↔ pool.Offers (.available first.nowMs none) := by
  rw [offers_none, offers_none]
  refine exists_congr fun u ↦ and_congr_right fun hu ↦ ?_
  rw [hfixed u hu]

/-- The pass over all upstreams, which the group has no part in. -/
theorem pick_eq_none_of_not_offers
    (hno : ∀ g, ctx.group = some g → ¬pool.Offers (.available first.nowMs (some g))) :
    (pool.pick hasher ctx first second).1 = none ↔
      ¬pool.Finds (.available first.nowMs none)
        (if ctx.group.any pool.declared then pool.secondStart hasher ctx first second
          else pool.firstStart hasher ctx first) := by
  by_cases hgroup : ∃ g, ctx.group = some g ∧ pool.declared g = true
  · obtain ⟨g, hg, hdeclared⟩ := hgroup
    have hfirst : (pool.pickWhere hasher ctx (some g) first).1 = none :=
      pickWhere_eq_none.mpr fun hfinds ↦ hno g hg hfinds.1
    rw [pick_of_declared hg hdeclared, hfirst, Option.none_or,
      if_pos (show ctx.group.any pool.declared = true by rw [hg]; exact hdeclared)]
    by_cases hpolicy : pool.policy = .leastConn
    · have hsnd : (pool.pickWhere hasher ctx (some g) first).2 =
          { pool with rrCounter := pool.rrCounter + 1 } := by
        rw [pickWhere_of_leastConn hpolicy]
        rfl
      rw [hsnd, pickWhere_eq_none, Finds, Finds, and_iff_left (.inl hpolicy),
        and_iff_left (.inl hpolicy), ← offers_second hfixed]
      rfl
    · rw [second_fst hfixed hpolicy, walk_eq_none_iff, not_iff_not]
      exact ⟨fun h ↦ ⟨h.offers, .inr h⟩, fun h ↦ h.2.resolve_left hpolicy⟩
  · have hany : ¬ctx.group.any pool.declared = true := by
      rw [Option.any_eq_true]
      exact hgroup
    rw [pick_of_undeclared fun g hg ↦ Bool.eq_false_iff.mpr fun hd ↦ hgroup ⟨g, hg, hd⟩,
      if_neg hany, pickWhere_eq_none, firstStart]

/-- With no member of the group available, what matters is whether anything is returned. -/
theorem complete_of_not_offers
    (hno : ∀ g, ctx.group = some g → ¬pool.Offers (.available first.nowMs (some g))) :
    pool.Complete hasher ctx first second ↔
      pool.policy = .leastConn ∨
        (pool.Offers (.available first.nowMs none) →
          pool.Sees (.available first.nowMs none)
            (if ctx.group.any pool.declared then pool.secondStart hasher ctx first second
              else pool.firstStart hasher ctx first)) := by
  have hnone : (pool.pick hasher ctx first second).1 = none ↔ _ :=
    pick_eq_none_of_not_offers hfixed hno
  have hoffers : (∀ u ∈ pool.upstreams, u.isAvailable first.nowMs = false) ↔
      ¬pool.Offers (.available first.nowMs none) := by
    simp [offers_none]
  have hvacuous : ∀ g, ctx.group = some g →
      (∃ u ∈ pool.upstreams, u.isAvailable first.nowMs = true ∧ u.group = some g) →
      ∃ i u, (pool.pick hasher ctx first second).1 = some i ∧ pool.upstreams[i]? = some u ∧
        u.group = some g :=
    fun g hg hmember ↦ absurd (offers_some.mpr hmember) (hno g hg)
  rw [Complete, and_iff_left hvacuous, hoffers, hnone, not_iff_not, Finds]
  tauto

/-- With a member of the group available, the ways to return one. -/
theorem complete_of_offers {g : String} (hg : ctx.group = some g)
    (ho : pool.Offers (.available first.nowMs (some g))) :
    pool.Complete hasher ctx first second ↔
      pool.policy = .leastConn ∨
        pool.Sees (.available first.nowMs (some g)) (pool.firstStart hasher ctx first) ∨
        pool.Leads first.nowMs (some g) (pool.secondStart hasher ctx first second) := by
  have hfirst : (pool.pickWhere hasher ctx (some g) first).1 = none ↔
      ¬pool.Finds (.available first.nowMs (some g)) (pool.firstStart hasher ctx first) :=
    pickWhere_eq_none
  rw [complete_iff_member hg ho, pick_of_declared hg ho.declared]
  rcases hr : (pool.pickWhere hasher ctx (some g) first).1 with _ | i
  · -- The first pass found nothing, so it is on the ring and the second pass decides.
    obtain ⟨hpolicy, hsees⟩ : pool.policy ≠ .leastConn ∧ ¬pool.Sees _ _ := by
      rw [← not_or]
      exact fun h ↦ hfirst.mp hr ⟨ho, h⟩
    rw [Option.none_or, second_fst hfixed hpolicy, ← leads_iff, or_iff_right hpolicy,
      or_iff_right hsees]
  · obtain ⟨u, hu, htest⟩ := passes_of_pickWhere hr
    have hfinds : pool.Finds _ _ := not_not.mp (mt hfirst.mpr (by rw [hr]; exact nofun))
    rw [← or_assoc]
    exact ⟨fun _ ↦ .inl hfinds.2, fun _ ↦ ⟨i, u, rfl, hu, (test_available_some.mp htest).2⟩⟩

end Fixed

/-- If the states of the upstreams do not change during the call, `pick` finds an upstream, of the
group where there is one, exactly if its starts reach one. -/
theorem pick_complete_iff (hasher : Hasher) (ctx : PickCtx) (first second : Clock)
    (pool : UpstreamPool)
    (hfixed : ∀ u ∈ pool.upstreams, u.isAvailable second.nowMs = u.isAvailable first.nowMs) :
    pool.Complete hasher ctx first second ↔ pool.Reaches hasher ctx first second := by
  by_cases hmember : ∃ g, ctx.group = some g ∧ pool.Offers (.available first.nowMs (some g))
  · obtain ⟨g, hg, ho⟩ := hmember
    rw [complete_of_offers hfixed hg ho, Reaches]
    refine or_congr_right ⟨fun h ↦ .inl ⟨g, hg, ho, h⟩, ?_⟩
    rintro (⟨g', hg', -, h⟩ | ⟨hno, -⟩)
    · obtain rfl : g = g' := Option.some.inj (hg.symm.trans hg')
      exact h
    · exact absurd ho (hno g hg)
  · have hno : ∀ g, ctx.group = some g → ¬pool.Offers (.available first.nowMs (some g)) :=
      fun g hg ho ↦ hmember ⟨g, hg, ho⟩
    rw [complete_of_not_offers hfixed hno, Reaches, and_iff_right hno]
    refine or_congr_right (or_iff_right ?_).symm
    rintro ⟨g, hg, ho, -⟩
    exact hno g hg ho

/-- Three upstreams of weight one, of which only the last is available. -/
private def oneOfThree (policy : LbPolicy) (rrCounter : UInt64) : UpstreamPool where
  upstreams := [
    { Upstream.new "http://a" 1 none with healthy := false },
    { Upstream.new "http://b" 1 none with healthy := false },
    Upstream.new "http://c" 1 none]
  policy := policy
  hashHeader := none
  weightedRing := [0, 1, 2]
  rrCounter := rrCounter
  ring_eq := by decide
  ring_lt := by decide

def constHasher : Hasher := ⟨fun _ _ ↦ 0, fun _ ↦ 0, fun _ ↦ 0⟩

/-- From the last counter value, the walk visits the positions 0, 0 and 1. -/
theorem pick_misses_last :
    ((oneOfThree .roundRobin 18446744073709551615).pick constHasher ⟨none, [], none⟩ ⟨0, 0⟩
        ⟨0, 0⟩).1 = none ∧
      ∃ u ∈ (oneOfThree .roundRobin 18446744073709551615).upstreams, u.isAvailable 0 = true := by
  refine ⟨by decide +kernel, Upstream.new "http://c" 1 none, ?_, by decide⟩
  exact mem_cons_of_mem _ (mem_cons_of_mem _ mem_cons_self)

theorem pick_complete_start :
    (oneOfThree .roundRobin 0).Complete constHasher ⟨none, [], none⟩ ⟨0, 0⟩ ⟨0, 0⟩ := by
  refine (pick_complete_iff constHasher ⟨none, [], none⟩ ⟨0, 0⟩ ⟨0, 0⟩ (oneOfThree .roundRobin 0)
    fun _ _ ↦ rfl).mpr (.inr (.inr ⟨nofun, fun hoffers ↦ hoffers.sees ?_⟩))
  decide

end UpstreamPool

end Lb

end Hypershunt
