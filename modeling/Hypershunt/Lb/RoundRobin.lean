import Hypershunt.Foundation.Run
import Hypershunt.Lb.Coverage
import Mathlib.Data.List.Count
import Mathlib.Data.List.Rotate

/-!
# Round robin among concurrent requests

The picks of the round-robin policy that name no group, one memory access at a time: a picker reads
the clock and takes its turn from the shared counter, then looks at one upstream after the other,
while other pickers do the same and while the request path and the health task write to the
upstreams.

Turns are given out in the order of the counter, whatever the order in which the pickers go on. So
with every upstream of positive weight available, `W` turns in a row are the positions of the ring
in a rotated order, and each upstream is chosen as often as its weight says (`countP_chosen`).
-/

namespace Hypershunt

open List Option

namespace Lb

open UpstreamPool Hypershunt.Cycle

/-! ## What others write -/

/-- The fields of an upstream that change while the pool is in use. -/
structure Dynamic where
  inFlight : UInt32
  consecutiveErrors : UInt32
  ejectedUntilMs : UInt64
  healthy : Bool

def Upstream.write (d : Dynamic) (u : Upstream) : Upstream :=
  { u with
    inFlight := d.inFlight
    consecutiveErrors := d.consecutiveErrors
    ejectedUntilMs := d.ejectedUntilMs
    healthy := d.healthy }

def UpstreamPool.write (pool : UpstreamPool) (i : ℕ) (d : Dynamic) : UpstreamPool :=
  pool.modify i (Upstream.write d) fun _ ↦ rfl

/-! ## How often an upstream stands on the ring -/

theorem count_flatMap_replicate (weights : List UInt32) (i : ℕ) : ∀ k,
    ((weights.zipIdx k).flatMap fun w ↦ List.replicate w.1.toNat w.2).count (k + i) =
      (weights[i]?.getD 0).toNat := by
  induction weights generalizing i with
  | nil =>
    intro k
    rfl
  | cons w weights ih =>
    intro k
    rw [zipIdx_cons, flatMap_cons, count_append, count_replicate]
    rcases i with _ | i
    · have hrest : k + 0 ∉ (weights.zipIdx (k + 1)).flatMap fun w ↦
          List.replicate w.1.toNat w.2 := by
        intro hmem
        obtain ⟨v, hv, hk⟩ := mem_flatMap.mp hmem
        have hle := le_snd_of_mem_zipIdx hv
        have heq := eq_of_mem_replicate hk
        omega
      rw [count_eq_zero.mpr hrest]
      simp
    · have hne : ¬(k == k + (i + 1)) = true := by
        rw [beq_iff_eq]
        omega
      rw [if_neg hne, Nat.zero_add, show k + (i + 1) = k + 1 + i by omega, ih i (k + 1)]
      rfl

theorem count_weightedRing (pool : UpstreamPool) {i : ℕ} {u : Upstream}
    (hu : pool.upstreams[i]? = some u) : pool.weightedRing.count i = u.weight.toNat := by
  have hcount := count_flatMap_replicate (pool.upstreams.map Upstream.weight) i 0
  rw [Nat.zero_add, getElem?_map, hu] at hcount
  rw [pool.ring_eq, ringOf_eq, hcount]
  rfl

theorem length_weightedRing (pool : UpstreamPool) :
    pool.weightedRing.length = (pool.upstreams.map fun u ↦ u.weight.toNat).sum := by
  rw [pool.ring_eq, ringOf, length_flatMap]
  simp only [length_replicate]
  have hmap : pool.upstreams.zipIdx.map (fun u ↦ u.1.weight.toNat) =
      (pool.upstreams.zipIdx.map Prod.fst).map fun u ↦ u.weight.toNat :=
    (List.map_map (f := Prod.fst) (g := fun u : Upstream ↦ u.weight.toNat)).symm
  rw [hmap, zipIdx_map_fst]

namespace RoundRobin

/-! ## The model -/

structure Picker where
  nowMs : UInt64
  start : UInt64
  offset : ℕ
  /-- What `pick` has returned, once it has. -/
  result : Option (Option ℕ)

structure State where
  pool : UpstreamPool
  /-- In the order of their turns. -/
  pickers : List Picker

inductive Event where
  /-- A picker that has read the clock takes its turn. -/
  | take (nowMs : UInt64)
  /-- The picker with turn `j` looks at its next upstream, or has seen all of them. -/
  | look (j : ℕ)
  /-- The request path or the health task writes to an upstream. -/
  | write (i : ℕ) (d : Dynamic)

/-- One round of the loop of `pick_where`. -/
def Picker.look (pool : UpstreamPool) (p : Picker) : Picker :=
  if p.offset < pool.weightedRing.length then
    match pool.eligibleAt (.available p.nowMs none)
      (position (2 ^ 64) pool.weightedRing.length p.start.toNat p.offset) with
    | some i => { p with result := some (some i) }
    | none => { p with offset := p.offset + 1 }
  else { p with result := some none }

def step (s : State) : Event → Option State
  | .take nowMs =>
    -- With an empty ring, `pick_where` returns before.
    if s.pool.weightedRing.isEmpty then none
    else
      let (start, pool) := s.pool.fetchAdd
      some ⟨pool, s.pickers ++ [⟨nowMs, start, 0, none⟩]⟩
  | .look j => do
    let p ← s.pickers[j]?
    if p.result.isSome then none
    else some { s with pickers := s.pickers.set j (p.look s.pool) }
  | .write i d => some { s with pool := s.pool.write i d }

/-- Whoever looks finds every upstream of positive weight available. -/
def AllAvailable (s : State) : Event → Prop
  | .look j => ∀ p, s.pickers[j]? = some p →
      ∀ u ∈ s.pool.upstreams, 0 < u.weight → u.isAvailable p.nowMs = true
  | _ => True

instance (s : State) : ∀ e, Decidable (AllAvailable s e)
  | .take _ => isTrue trivial
  | .look j =>
    decidable_of_iff ((s.pickers[j]?).all (fun p ↦ s.pool.upstreams.all fun u ↦
      decide (0 < u.weight → u.isAvailable p.nowMs = true)) = true) (by
        simp only [AllAvailable, Option.all_eq_true, List.all_eq_true, decide_eq_true_iff])
  | .write _ _ => isTrue trivial

/-! ## A picker alone -/

section Alone

variable {pool : UpstreamPool} {pickers : List Picker} {j : ℕ} {p : Picker}

theorem step_look (hp : pickers[j]? = some p) (hresult : p.result = none) :
    step ⟨pool, pickers⟩ (.look j) = some ⟨pool, pickers.set j (p.look pool)⟩ := by
  simp [step, hp, hresult]

/-- The upstream at the next position of a picker, if it is eligible. -/
def Picker.ahead (pool : UpstreamPool) (p : Picker) (o : ℕ) : Option ℕ :=
  pool.eligibleAt (.available p.nowMs none)
    (position (2 ^ 64) pool.weightedRing.length p.start.toNat o)

theorem Picker.look_of_some {i : ℕ} (ho : p.offset < pool.weightedRing.length)
    (hi : p.ahead pool p.offset = some i) : p.look pool = { p with result := some (some i) } := by
  rw [ahead] at hi
  rw [look, if_pos ho, hi]

theorem Picker.look_of_none (ho : p.offset < pool.weightedRing.length)
    (hi : p.ahead pool p.offset = none) : p.look pool = { p with offset := p.offset + 1 } := by
  rw [ahead] at hi
  rw [look, if_pos ho, hi]

/-- A picker that is left alone ends with the first eligible upstream on its walk. -/
theorem run_looks (d : ℕ) : ∀ {pickers : List Picker} {p : Picker}, pickers[j]? = some p →
    p.result = none → p.offset + d = pool.weightedRing.length →
    (∀ o < p.offset, p.ahead pool o = none) →
    ∃ n q, run step ⟨pool, pickers⟩ (List.replicate n (.look j)) = some ⟨pool, pickers.set j q⟩ ∧
      q.result = some (pool.walk (.available p.nowMs none) p.start) := by
  induction d with
  | zero =>
    intro pickers p hp hresult hoffset hbefore
    refine ⟨1, p.look pool, ?_, ?_⟩
    · rw [replicate_one, run_cons, step_look hp hresult]
      rfl
    · rw [Picker.look, if_neg (by omega), walk, scan_eq_none_iff.mpr]
      exact fun o ho ↦ hbefore o (by omega)
  | succ d ih =>
    intro pickers p hp hresult hoffset hbefore
    have ho : p.offset < pool.weightedRing.length := by omega
    rcases hi : p.ahead pool p.offset with _ | i
    · -- The next round starts one further on.
      have hlt := (List.getElem?_eq_some_iff.mp hp).1
      obtain ⟨n, q, hrun, hq⟩ := @ih (pickers.set j { p with offset := p.offset + 1 })
        { p with offset := p.offset + 1 } (getElem?_set_self hlt) hresult
        (show p.offset + 1 + d = _ by omega) fun o ho ↦ by
          rcases Nat.lt_succ_iff_lt_or_eq.mp ho with ho | rfl
          · exact hbefore o ho
          · exact hi
      refine ⟨n + 1, q, ?_, hq⟩
      rw [replicate_succ, run_cons, step_look hp hresult, bind_some, Picker.look_of_none ho hi,
        hrun, set_set]
    · refine ⟨1, { p with result := some (some i) }, ?_, ?_⟩
      · rw [replicate_one, run_cons, step_look hp hresult, Picker.look_of_some ho hi]
        rfl
      · rw [walk, scan_eq_some_iff.mpr ⟨p.offset, ho, hi, hbefore⟩]

/-- Without others in between, the steps of a picker are `pick`. -/
theorem run_alone (hasher : Hasher) (ctx : PickCtx) (first second : Clock) (pool : UpstreamPool)
    (hpolicy : pool.policy = .roundRobin) (hgroup : ctx.group = none)
    (hring : pool.weightedRing ≠ []) (pickers : List Picker) :
    ∃ n s, run step ⟨pool, pickers⟩
        (.take first.nowMs :: List.replicate n (.look pickers.length)) = some s ∧
      s.pool = (pool.pick hasher ctx first second).2 ∧
      (s.pickers[pickers.length]?).map Picker.result =
        some (some (pool.pick hasher ctx first second).1) := by
  have hpick : pool.pick hasher ctx first second =
      (pool.walk (.available first.nowMs none) pool.rrCounter, pool.fetchAdd.2) := by
    rw [pick, if_neg (upstreams_ne_nil hring), hgroup, ← pickWhere_roundRobin hpolicy hring]
  obtain ⟨p, hp⟩ : ∃ p : Picker, p = ⟨first.nowMs, pool.rrCounter, 0, none⟩ := ⟨_, rfl⟩
  have htake : step ⟨pool, pickers⟩ (.take first.nowMs) =
      some ⟨pool.fetchAdd.2, pickers ++ [p]⟩ := by
    rw [step, if_neg (by rwa [List.isEmpty_iff]), hp]
    rfl
  obtain ⟨n, q, hrun, hq⟩ : ∃ n q, run step ⟨pool.fetchAdd.2, pickers ++ [p]⟩
      (List.replicate n (.look pickers.length)) =
        some ⟨pool.fetchAdd.2, (pickers ++ [p]).set pickers.length q⟩ ∧
      q.result = some (pool.fetchAdd.2.walk (.available p.nowMs none) p.start) := by
    refine run_looks pool.weightedRing.length getElem?_concat_length ?_ ?_ ?_
    · rw [hp]
    · rw [hp, Nat.zero_add]
      rfl
    · rw [hp]
      exact fun o ho ↦ absurd ho (Nat.not_lt_zero o)
  refine ⟨n, ⟨pool.fetchAdd.2, (pickers ++ [p]).set pickers.length q⟩, ?_, ?_, ?_⟩
  · rw [run_cons, htake, bind_some, hrun]
  · rw [hpick]
  · rw [getElem?_set_self (by simp), map_some, hq, hpick, hp]
    rfl

end Alone

/-! ## Turns -/

variable {pool : UpstreamPool} {s t : State}

/-- Picker `k` has the `k`-th turn; it has not looked yet or has chosen the upstream at it. -/
structure Turns (pool : UpstreamPool) (s : State) : Prop where
  ring : s.pool.weightedRing = pool.weightedRing
  counter : s.pool.rrCounter = pool.rrCounter + UInt64.ofNat s.pickers.length
  start : ∀ k p, s.pickers[k]? = some p → p.start = pool.rrCounter + UInt64.ofNat k
  chosen : ∀ p ∈ s.pickers, pool.weightedRing ≠ [] ∧ (p.result = none ∧ p.offset = 0 ∨
    ∃ i, p.result = some (some i) ∧
      pool.weightedRing[p.start.toNat % pool.weightedRing.length]? = some i)

theorem look_eq (hring : pool.weightedRing ≠ []) {p : Picker} (hoffset : p.offset = 0)
    (havailable : ∀ u ∈ pool.upstreams, 0 < u.weight → u.isAvailable p.nowMs = true) :
    ∃ i, p.look pool = { p with result := some (some i) } ∧
      pool.weightedRing[p.start.toNat % pool.weightedRing.length]? = some i := by
  have hW : 0 < pool.weightedRing.length := length_pos_iff.mpr hring
  have hlt := Nat.mod_lt p.start.toNat hW
  obtain ⟨i, hi⟩ : ∃ i, pool.weightedRing[p.start.toNat % pool.weightedRing.length]? = some i :=
    ⟨_, getElem?_eq_getElem hlt⟩
  have hmem : i ∈ ringOf pool.upstreams := pool.ring_eq ▸ mem_of_getElem? hi
  obtain ⟨u, hu, hweight⟩ := mem_ringOf.mp hmem
  have hposition : position (2 ^ 64) pool.weightedRing.length p.start.toNat 0 =
      p.start.toNat % pool.weightedRing.length := position_of_lt (o := 0) p.start.toNat_lt
  have heligible : pool.eligibleAt (.available p.nowMs none)
      (position (2 ^ 64) pool.weightedRing.length p.start.toNat p.offset) = some i := by
    rw [hoffset, hposition, eligibleAt_eq_some]
    refine ⟨hi, u, hu, ?_⟩
    rw [test_available_none]
    exact havailable u (mem_of_getElem? hu) hweight
  refine ⟨i, ?_, hi⟩
  rw [Picker.look, if_pos (hoffset ▸ hW), heligible]

theorem turns_init (pool : UpstreamPool) : Turns pool ⟨pool, []⟩ where
  ring := rfl
  counter := (UInt64.add_zero _).symm
  start _ _ h := nomatch h
  chosen _ h := absurd h not_mem_nil

theorem Turns.take (h : Turns pool s) (hring : s.pool.weightedRing ≠ []) (nowMs : UInt64) :
    Turns pool ⟨s.pool.fetchAdd.2, s.pickers ++ [⟨nowMs, s.pool.fetchAdd.1, 0, none⟩]⟩ where
  ring := h.ring
  counter := by
    rw [length_append, length_singleton, UInt64.ofNat_add, ← UInt64.add_assoc, ← h.counter]
    rfl
  start k p hk := by
    rcases Nat.lt_or_ge k s.pickers.length with hlt | hge
    · rw [getElem?_append_left hlt] at hk
      exact h.start k p hk
    · have hlt := (List.getElem?_eq_some_iff.mp hk).1
      rw [length_append, length_singleton] at hlt
      obtain rfl : k = s.pickers.length := by omega
      rw [getElem?_concat_length] at hk
      obtain rfl := Option.some.inj hk
      exact h.counter
  chosen p hp := by
    rcases List.mem_append.mp hp with hp | hp
    · exact h.chosen p hp
    · obtain rfl := mem_singleton.mp hp
      exact ⟨h.ring ▸ hring, .inl ⟨rfl, rfl⟩⟩

theorem Turns.look (h : Turns pool s) {j : ℕ} {p : Picker} (hp : s.pickers[j]? = some p)
    (hresult : p.result = none)
    (havailable : ∀ u ∈ s.pool.upstreams, 0 < u.weight → u.isAvailable p.nowMs = true) :
    Turns pool { s with pickers := s.pickers.set j (p.look s.pool) } := by
  have hmem := mem_of_getElem? hp
  obtain ⟨hring, hturn⟩ := h.chosen p hmem
  have hoffset : p.offset = 0 := by
    rcases hturn with ⟨-, hoffset⟩ | ⟨i, hi, -⟩
    · exact hoffset
    · rw [hresult] at hi
      exact nomatch hi
  obtain ⟨i, hlook, hi⟩ := look_eq (h.ring ▸ hring) hoffset havailable
  rw [h.ring] at hi
  rw [hlook]
  refine ⟨h.ring, ?_, fun k q hk ↦ ?_, fun q hq ↦ ?_⟩
  · rw [length_set]
    exact h.counter
  · rw [getElem?_set] at hk
    split at hk
    · rename_i heq
      subst heq
      split at hk
      · obtain rfl := Option.some.inj hk
        exact h.start j p hp
      · exact nomatch hk
    · exact h.start k q hk
  · rcases mem_or_eq_of_mem_set hq with hq | rfl
    · exact h.chosen q hq
    · exact ⟨hring, .inr ⟨i, rfl, hi⟩⟩

theorem Turns.step (h : Turns pool s) {e : Event} (hok : AllAvailable s e)
    (hstep : step s e = some t) : Turns pool t := by
  rcases e with nowMs | j | ⟨i, d⟩
  · rw [RoundRobin.step] at hstep
    split at hstep
    · exact nomatch hstep
    · rename_i hring
      obtain rfl := Option.some.inj hstep
      exact h.take (by rwa [List.isEmpty_iff] at hring) nowMs
  · simp only [RoundRobin.step, bind_eq_bind, bind_eq_some_iff] at hstep
    obtain ⟨p, hp, hif⟩ := hstep
    split at hif
    · exact nomatch hif
    · rename_i hresult
      obtain rfl := Option.some.inj hif
      exact h.look hp (not_isSome_iff_eq_none.mp hresult) (hok p hp)
  · obtain rfl := Option.some.inj hstep
    exact ⟨h.ring, h.counter, h.start, h.chosen⟩

/-! ## A window of turns -/

/-- The result of a picker that has returned is the upstream at its turn. -/
theorem Turns.result_eq (h : Turns pool s) {k : ℕ} {p first : Picker} {a : ℕ}
    (hfirst : s.pickers[a]? = some first) (hp : s.pickers[a + k]? = some p)
    (hwrap : first.start.toNat + k < 2 ^ 64) (hdone : p.result.isSome) :
    ∃ i, p.result = some (some i) ∧
      pool.weightedRing[(k + first.start.toNat) % pool.weightedRing.length]? = some i := by
  have hstart : p.start.toNat = k + first.start.toNat := by
    rw [h.start _ _ hp, UInt64.ofNat_add, ← UInt64.add_assoc, ← h.start _ _ hfirst,
      UInt64.toNat_add, UInt64.toNat_ofNat', Nat.add_mod_mod, Nat.mod_eq_of_lt hwrap, Nat.add_comm]
  rcases (h.chosen p (mem_of_getElem? hp)).2 with ⟨hnone, -⟩ | ⟨i, hi, hring⟩
  · rw [hnone] at hdone
    exact absurd hdone Bool.false_ne_true
  · exact ⟨i, hi, hstart ▸ hring⟩

/-- The results of `W` turns in a row are the ring in a rotated order. -/
theorem Turns.map_result (h : Turns pool s) {a : ℕ} {first : Picker}
    (hfirst : s.pickers[a]? = some first) (hlen : a + pool.weightedRing.length ≤ s.pickers.length)
    (hwrap : first.start.toNat + pool.weightedRing.length ≤ 2 ^ 64)
    (hdone : ∀ p ∈ (s.pickers.drop a).take pool.weightedRing.length, p.result.isSome) :
    ((s.pickers.drop a).take pool.weightedRing.length).map Picker.result =
      (pool.weightedRing.rotate first.start.toNat).map fun i ↦ some (some i) := by
  refine ext_getElem? fun k ↦ ?_
  rw [getElem?_map, getElem?_map, getElem?_take]
  split
  · rename_i hk
    obtain ⟨p, hp⟩ : ∃ p, s.pickers[a + k]? = some p :=
      ⟨_, getElem?_eq_getElem (by omega)⟩
    have hmem : p ∈ (s.pickers.drop a).take pool.weightedRing.length := by
      refine mem_of_getElem? (i := k) ?_
      rw [getElem?_take_of_lt hk, getElem?_drop, hp]
    obtain ⟨i, hi, hring⟩ := h.result_eq hfirst hp (by omega) (hdone p hmem)
    rw [getElem?_drop, hp, getElem?_rotate hk, hring, map_some, map_some, hi]
  · rename_i hk
    rw [getElem?_eq_none (by rw [length_rotate]; omega)]
    rfl

/-- Any `W` turns in a row that do not wrap around choose each upstream as often as its weight
says, if all upstreams of positive weight are available to whoever looks. -/
theorem countP_chosen (pool : UpstreamPool) (events : List Event) (s : State)
    (hrun : run step ⟨pool, []⟩ events = some s)
    (havailable : AllSteps step AllAvailable ⟨pool, []⟩ events) (a : ℕ) (first : Picker)
    (hfirst : s.pickers[a]? = some first)
    (hlen : a + (pool.upstreams.map fun u ↦ u.weight.toNat).sum ≤ s.pickers.length)
    (hwrap : first.start.toNat + (pool.upstreams.map fun u ↦ u.weight.toNat).sum ≤ 2 ^ 64)
    (hdone : ∀ p ∈ (s.pickers.drop a).take (pool.upstreams.map fun u ↦ u.weight.toNat).sum,
      p.result.isSome)
    (i : ℕ) (u : Upstream) (hu : pool.upstreams[i]? = some u) :
    ((s.pickers.drop a).take (pool.upstreams.map fun u ↦ u.weight.toNat).sum).countP
      (fun p ↦ p.result == some (some i)) = u.weight.toNat := by
  have hturns : Turns pool s :=
    (always_of_allSteps (turns_init pool) (fun _ _ _ h hok hstep ↦ h.step hok hstep)
      havailable).final hrun
  rw [← length_weightedRing] at *
  have hmap := hturns.map_result hfirst hlen hwrap hdone
  calc ((s.pickers.drop a).take pool.weightedRing.length).countP
        (fun p ↦ p.result == some (some i))
      = (((s.pickers.drop a).take pool.weightedRing.length).map Picker.result).count
          (some (some i)) := by
        rw [List.count, countP_map]
        rfl
    _ = (pool.weightedRing.rotate first.start.toNat).count i := by
        rw [hmap]
        exact count_map_of_injective _ _
          ((some_injective _).comp (some_injective _)) i
    _ = pool.weightedRing.count i := (rotate_perm _ _).count_eq i
    _ = u.weight.toNat := count_weightedRing pool hu

private def twoToOne : UpstreamPool :=
  .new [.new "http://a" 2 none, .new "http://b" 1 none] .roundRobin none (by decide)

/-- Three turns, of which the second looks first. -/
private def threeTurns : List Event := [.take 5, .take 6, .look 1, .take 6, .look 2, .look 0]

theorem run_alone_twoToOne :
    ∃ n s, run step ⟨twoToOne, []⟩ (.take 5 :: replicate n (.look 0)) = some s ∧
      s.pool = (twoToOne.pick constHasher ⟨none, [], none⟩ ⟨5, 0⟩ ⟨5, 0⟩).2 := by
  obtain ⟨n, s, hrun, hpool, -⟩ := run_alone constHasher ⟨none, [], none⟩ ⟨5, 0⟩ ⟨5, 0⟩ twoToOne
    rfl rfl (by decide) []
  exact ⟨n, s, hrun, hpool⟩

theorem countP_chosen_twoToOne :
    ∃ s, run step ⟨twoToOne, []⟩ threeTurns = some s ∧
      ((s.pickers.drop 0).take 3).countP (fun p ↦ p.result == some (some 0)) = 2 := by
  have hany : (run step ⟨twoToOne, []⟩ threeTurns).any (fun s ↦ (s.pickers[0]?).any fun first ↦
      decide (0 + 3 ≤ s.pickers.length ∧ first.start.toNat + 3 ≤ 2 ^ 64 ∧
        ∀ p ∈ (s.pickers.drop 0).take 3, p.result.isSome)) = true := by
    decide +kernel
  obtain ⟨s, hs, h⟩ := (Option.any_eq_true _ _).mp hany
  obtain ⟨first, hfirst, h⟩ := (Option.any_eq_true _ _).mp h
  obtain ⟨hlen, hwrap, hdone⟩ := of_decide_eq_true h
  exact ⟨s, hs, countP_chosen twoToOne threeTurns s hs (allSteps_of_checkSteps (by decide +kernel))
    0 first hfirst hlen hwrap hdone 0 (.new "http://a" 2 none) rfl⟩

end RoundRobin

end Lb

end Hypershunt
