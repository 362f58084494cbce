import Hypershunt.Foundation.Cycle
import Hypershunt.Http.Header
import Hypershunt.Lb.Upstream
import Hypershunt.Net.Address

/-!
# Picking an upstream

`UpstreamPool` of `lb.rs` and its `pick`: one pass over the upstreams of the requested group, and
one over all of them if that finds nothing. The least-connections policy looks at every upstream;
the other policies walk around the weighted ring, from a start that the policy chooses.

The hasher of the standard library is a parameter, and the two clocks are read once in each pass.
-/

namespace Hypershunt

namespace Lb

open List

/-! ## The model -/

inductive LbPolicy where
  | roundRobin
  | leastConn
  | random
  | ipHash
  | headerHash
  deriving DecidableEq

structure PickCtx where
  peerIp : Option IpAddr
  headers : HeaderMap
  group : Option String

/-- What a `DefaultHasher` makes of the inputs that the picker gives it. -/
structure Hasher where
  saltAndNanos : UInt64 → UInt64 → UInt64
  octets : IpAddr → UInt64
  bytes : HeaderValue → UInt64

/-- What the clocks show during one pass. -/
structure Clock where
  nowMs : UInt64
  nanos : UInt64

/-- The index of each upstream, as often as its weight says. -/
def ringOf (upstreams : List Upstream) : List ℕ :=
  upstreams.zipIdx.flatMap fun u ↦ replicate u.1.weight.toNat u.2

theorem ringOf_eq (upstreams : List Upstream) :
    ringOf upstreams =
      (upstreams.map Upstream.weight).zipIdx.flatMap fun w ↦ replicate w.1.toNat w.2 := by
  rw [zipIdx_map, flatMap_map]
  rfl

theorem map_weight_modify (upstreams : List Upstream) (i : ℕ) {f : Upstream → Upstream}
    (hf : ∀ u, (f u).weight = u.weight) :
    (upstreams.modify i f).map Upstream.weight = upstreams.map Upstream.weight := by
  refine ext_getElem? fun j ↦ ?_
  rw [getElem?_map, getElem?_map, getElem?_modify]
  rcases upstreams[j]? with _ | u
  · rfl
  · split
    · exact congrArg some (hf u)
    · rfl

structure UpstreamPool where
  upstreams : List Upstream
  policy : LbPolicy
  hashHeader : Option String
  weightedRing : List ℕ
  rrCounter : UInt64
  ring_eq : weightedRing = ringOf upstreams
  /-- A `Vec` of words takes at most `isize::MAX` bytes. -/
  ring_lt : weightedRing.length < 2 ^ 60

/-- A test that an upstream of weight zero does not pass. -/
structure Eligibility where
  test : Upstream → Bool
  weight_pos : ∀ {u}, test u = true → 0 < u.weight

/-- The test of `pick_where`. -/
def Eligibility.available (nowMs : UInt64) (group : Option String) : Eligibility where
  test u := u.isAvailable nowMs && (group.isNone || u.group == group)
  weight_pos := by
    intro u h
    simp only [Upstream.isAvailable, Bool.and_eq_true, decide_eq_true_iff] at h
    exact h.1.1.1

/-- `u64::saturating_mul`. -/
def saturatingMul (a b : UInt64) : UInt64 :=
  if a.toNat * b.toNat < 2 ^ 64 then a * b else UInt64.ofNat (2 ^ 64 - 1)

/-- In-flight requests over weight, scaled for ordering. -/
def cost (u : Upstream) : UInt64 :=
  saturatingMul u.inFlight.toUInt64 1000 / u.weight.toUInt64

namespace UpstreamPool

def new (upstreams : List Upstream) (policy : LbPolicy) (hashHeader : Option String)
    (h : (ringOf upstreams).length < 2 ^ 60) : UpstreamPool where
  upstreams := upstreams
  policy := policy
  hashHeader := hashHeader.map Text.toAsciiLowercase
  weightedRing := ringOf upstreams
  rrCounter := 0
  ring_eq := rfl
  ring_lt := h

/-- Change one upstream, but not its weight. -/
def modify (pool : UpstreamPool) (i : ℕ) (f : Upstream → Upstream)
    (hf : ∀ u, (f u).weight = u.weight) : UpstreamPool :=
  { pool with
    upstreams := pool.upstreams.modify i f
    ring_eq := by rw [pool.ring_eq, ringOf_eq, ringOf_eq, map_weight_modify _ _ hf] }

def fetchAdd (pool : UpstreamPool) : UInt64 × UpstreamPool :=
  (pool.rrCounter, { pool with rrCounter := pool.rrCounter + 1 })

/-- The body of the loop of `pick_least_conn`. -/
def leastStep (eligible : Eligibility) (salt : UInt64) (best : Option (UInt64 × ℕ))
    (u : Upstream × ℕ) : Option (UInt64 × ℕ) :=
  if eligible.test u.1 then
    let candidate := (cost u.1, u.2)
    match best with
    | none => some candidate
    | some cur =>
      if candidate.1 < cur.1 ∨ candidate.1 = cur.1 ∧ (UInt64.ofNat u.2 + salt) &&& 1 = 0 then
        some candidate
      else some cur
  else best

def pickLeastConn (pool : UpstreamPool) (eligible : Eligibility) : Option ℕ × UpstreamPool :=
  let (salt, pool) := pool.fetchAdd
  ((pool.upstreams.zipIdx.foldl (leastStep eligible salt) none).map Prod.snd, pool)

/-- `cheap_random`. -/
def cheapRandom (hasher : Hasher) (nanos : UInt64) (pool : UpstreamPool) : UInt64 × UpstreamPool :=
  let (salt, pool) := pool.fetchAdd
  (hasher.saltAndNanos salt nanos, pool)

/-- `hash_ip`. -/
def hashIp (hasher : Hasher) (ip : Option IpAddr) : Option UInt64 :=
  ip.map fun ip ↦ hasher.octets (normalise ip)

/-- The free function `hash_header`. -/
def hashOfHeader (hasher : Hasher) (name : String) (headers : HeaderMap) : Option UInt64 :=
  (headers.get name).map hasher.bytes

/-- Where the policy starts on the ring. -/
def start (hasher : Hasher) (ctx : PickCtx) (nanos : UInt64) (pool : UpstreamPool) :
    UInt64 × UpstreamPool :=
  match pool.policy with
  | .roundRobin => pool.fetchAdd
  | .random => pool.cheapRandom hasher nanos
  | .ipHash =>
    match hashIp hasher ctx.peerIp with
    | some h => (h, pool)
    | none => pool.fetchAdd
  | .headerHash =>
    match pool.hashHeader.bind (hashOfHeader hasher · ctx.headers) with
    | some h => (h, pool)
    | none => pool.fetchAdd
  -- Handled before.
  | .leastConn => (0, pool)

/-- The upstream at a position of the ring, if it is eligible. -/
def eligibleAt (pool : UpstreamPool) (eligible : Eligibility) (pos : ℕ) : Option ℕ := do
  let idx ← pool.weightedRing[pos]?
  let u ← pool.upstreams[idx]?
  if eligible.test u then some idx else none

def pickWhere (hasher : Hasher) (ctx : PickCtx) (group : Option String) (clock : Clock)
    (pool : UpstreamPool) : Option ℕ × UpstreamPool :=
  let eligible := Eligibility.available clock.nowMs group
  if pool.policy = .leastConn then pool.pickLeastConn eligible
  else if pool.weightedRing.isEmpty then (none, pool)
  else
    let (start, pool) := pool.start hasher ctx clock.nanos
    (Cycle.scan (2 ^ 64) pool.weightedRing.length start.toNat (pool.eligibleAt eligible), pool)

def declared (pool : UpstreamPool) (group : String) : Bool :=
  pool.upstreams.any fun u ↦ u.group == some group

/-- The second clock is read only by a second pass. -/
def pick (hasher : Hasher) (ctx : PickCtx) (first second : Clock) (pool : UpstreamPool) :
    Option ℕ × UpstreamPool :=
  if pool.upstreams.isEmpty then (none, pool)
  else
    match ctx.group with
    | some g =>
      if pool.declared g then
        let (picked, pool) := pool.pickWhere hasher ctx (some g) first
        match picked with
        | some i => (some i, pool)
        | none => pool.pickWhere hasher ctx none second
      else pool.pickWhere hasher ctx none first
    | none => pool.pickWhere hasher ctx none first

/-! ## Least connections -/

variable {eligible : Eligibility} {salt : UInt64}

/-- `best` is a minimum of what the loop has seen. -/
structure IsLeast (eligible : Eligibility) (seen : List (Upstream × ℕ))
    (best : Option (UInt64 × ℕ)) : Prop where
  none_of : best = none → ∀ x ∈ seen, eligible.test x.1 = false
  some_of : ∀ c i, best = some (c, i) → (∃ u, (u, i) ∈ seen ∧ eligible.test u = true ∧ c = cost u) ∧
    ∀ x ∈ seen, eligible.test x.1 = true → c ≤ cost x.1

theorem IsLeast.step {seen : List (Upstream × ℕ)} {best : Option (UInt64 × ℕ)}
    (h : IsLeast eligible seen best) (x : Upstream × ℕ) :
    IsLeast eligible (seen ++ [x]) (leastStep eligible salt best x) := by
  have hmem : ∀ {y}, y ∈ seen ++ [x] ↔ y ∈ seen ∨ y = x := by
    intro y
    rw [mem_append, mem_singleton]
  by_cases hx : eligible.test x.1 = true
  · -- An eligible candidate is taken or loses against one that costs no more.
    have htake : (∀ y ∈ seen, eligible.test y.1 = true → cost x.1 ≤ cost y.1) →
        IsLeast eligible (seen ++ [x]) (some (cost x.1, x.2)) := by
      intro hle
      refine ⟨fun hnone ↦ (nomatch hnone), ?_⟩
      rintro c i ⟨⟩
      refine ⟨⟨x.1, hmem.mpr (.inr rfl), hx, rfl⟩, fun y hy hey ↦ ?_⟩
      rcases hmem.mp hy with hy | rfl
      · exact hle y hy hey
      · exact UInt64.le_refl _
    rcases best with _ | ⟨c, i⟩
    · rw [leastStep, if_pos hx]
      exact htake fun y hy hey ↦ absurd hey (by simp [h.none_of rfl y hy])
    · obtain ⟨⟨u, hu, heu, hc⟩, hmin⟩ := h.some_of c i rfl
      rw [leastStep, if_pos hx]
      dsimp only
      split
      · rename_i hbetter
        have hle : cost x.1 ≤ c := by
          rcases hbetter with hlt | ⟨heq, -⟩
          · exact UInt64.le_of_lt hlt
          · exact heq ▸ UInt64.le_refl _
        exact htake fun y hy hey ↦ UInt64.le_trans hle (hmin y hy hey)
      · rename_i hworse
        refine ⟨fun hnone ↦ (nomatch hnone), ?_⟩
        rintro c' i' ⟨⟩
        refine ⟨⟨u, hmem.mpr (.inl hu), heu, hc⟩, fun y hy hey ↦ ?_⟩
        rcases hmem.mp hy with hy | rfl
        · exact hmin y hy hey
        · exact UInt64.not_lt.mp (not_or.mp hworse).1
  · rw [leastStep, if_neg hx]
    refine ⟨fun hnone y hy ↦ ?_, fun c i hbest ↦ ?_⟩
    · rcases hmem.mp hy with hy | rfl
      · exact h.none_of hnone y hy
      · exact Bool.not_eq_true _ ▸ hx
    · obtain ⟨⟨u, hu, hrest⟩, hmin⟩ := h.some_of c i hbest
      refine ⟨⟨u, hmem.mpr (.inl hu), hrest⟩, fun y hy hey ↦ ?_⟩
      rcases hmem.mp hy with hy | rfl
      · exact hmin y hy hey
      · exact absurd hey hx

theorem isLeast_foldl (salt : UInt64) (xs : List (Upstream × ℕ)) :
    ∀ {seen best}, IsLeast eligible seen best →
      IsLeast eligible (seen ++ xs) (xs.foldl (leastStep eligible salt) best) := by
  induction xs with
  | nil =>
    intro seen best h
    rwa [append_nil]
  | cons x xs ih =>
    intro seen best h
    rw [append_cons]
    exact ih (h.step x)

/-- The scaled quotient is exact: neither the product nor the words overflow. -/
theorem toNat_cost (u : Upstream) :
    (cost u).toNat = 1000 * u.inFlight.toNat / u.weight.toNat := by
  have hlt := u.inFlight.toNat_lt
  have hmul : (saturatingMul u.inFlight.toUInt64 1000).toNat = u.inFlight.toNat * 1000 := by
    have hthousand : (1000 : UInt64).toNat = 1000 := rfl
    rw [saturatingMul, UInt32.toNat_toUInt64, hthousand, if_pos (by omega), UInt64.toNat_mul,
      UInt32.toNat_toUInt64, hthousand, Nat.mod_eq_of_lt (by omega)]
  rw [cost, UInt64.toNat_div, hmul, UInt32.toNat_toUInt64, Nat.mul_comm u.inFlight.toNat]

/-- What the pass of the least-connections policy returns. -/
theorem pickLeastConn_spec (pool : UpstreamPool) (eligible : Eligibility) :
    ((pool.pickLeastConn eligible).1 = none → ∀ u ∈ pool.upstreams, eligible.test u = false) ∧
      ∀ i, (pool.pickLeastConn eligible).1 = some i →
        ∃ u, pool.upstreams[i]? = some u ∧ eligible.test u = true ∧
          ∀ v ∈ pool.upstreams, eligible.test v = true → cost u ≤ cost v := by
  have hmem : ∀ {u i}, (u, i) ∈ pool.upstreams.zipIdx ↔ pool.upstreams[i]? = some u := by
    intro u i
    exact mk_mem_zipIdx_iff_getElem?
  have hinit : IsLeast eligible [] none :=
    ⟨fun _ x hx ↦ absurd hx not_mem_nil, fun _ _ h ↦ (nomatch h)⟩
  have hleast := isLeast_foldl pool.rrCounter pool.upstreams.zipIdx hinit
  rw [nil_append] at hleast
  have hmin : ∀ {u}, u ∈ pool.upstreams → ∃ i, (u, i) ∈ pool.upstreams.zipIdx := by
    intro u hu
    obtain ⟨i, hi⟩ := mem_iff_getElem?.mp hu
    exact ⟨i, hmem.mpr hi⟩
  constructor
  · intro hnone u hu
    obtain ⟨i, hi⟩ := hmin hu
    exact hleast.none_of (Option.map_eq_none_iff.mp hnone) _ hi
  · intro i hsome
    obtain ⟨⟨c, j⟩, hbest, rfl⟩ := Option.map_eq_some_iff.mp hsome
    obtain ⟨⟨u, hu, heu, rfl⟩, hle⟩ := hleast.some_of c _ hbest
    refine ⟨u, hmem.mp hu, heu, fun v hv hev ↦ ?_⟩
    obtain ⟨k, hk⟩ := hmin hv
    exact hle (v, k) hk hev

/-- An eligible upstream whose scaled load is least, and none exactly if none is eligible. -/
theorem pickLeastConn_least (pool : UpstreamPool) (eligible : Eligibility) :
    (∀ i, (pool.pickLeastConn eligible).1 = some i →
        ∃ u, pool.upstreams[i]? = some u ∧ eligible.test u = true ∧
          ∀ v ∈ pool.upstreams, eligible.test v = true →
            1000 * u.inFlight.toNat / u.weight.toNat ≤ 1000 * v.inFlight.toNat / v.weight.toNat) ∧
      ((pool.pickLeastConn eligible).1 = none ↔ ∀ u ∈ pool.upstreams, eligible.test u = false) := by
  obtain ⟨hnone, hsome⟩ := pool.pickLeastConn_spec eligible
  refine ⟨fun i hi ↦ ?_, hnone, fun hall ↦ ?_⟩
  · obtain ⟨u, hu, heu, hle⟩ := hsome i hi
    refine ⟨u, hu, heu, fun v hv hev ↦ ?_⟩
    rw [← toNat_cost, ← toNat_cost]
    exact UInt64.le_iff_toNat_le.mp (hle v hv hev)
  · by_contra hne
    obtain ⟨i, hi⟩ := Option.ne_none_iff_exists'.mp hne
    obtain ⟨u, hu, heu, -⟩ := hsome i hi
    rw [hall u (mem_of_getElem? hu)] at heu
    exact Bool.false_ne_true heu

end UpstreamPool

end Lb

end Hypershunt
