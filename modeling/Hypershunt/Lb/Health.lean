import Hypershunt.Foundation.History
import Hypershunt.Lb.Upstream

/-!
# Health of a pool

While a pool is in use, two parties write to its upstreams. The task of
`spawn_active_health_task` probes them in turn, round after round, and keeps for each the lengths
of its runs of failed and of successful probes; the request path reports what became of its
requests. A `Monitor` is the state both share, and a run of it is any interleaving of answered
probes and of reports.

What happens to one upstream depends on what is observed of it alone. Its `healthy` flag is then
decided by the probes: by the last moment at which a run of failures or of successes reached its
threshold (`healthy_iff_decided`).
-/

namespace Hypershunt

open List Option

namespace Lb

open History

/-! ## The model -/

/-- The thresholds of `health-check`. -/
structure ActiveHealthConfig where
  unhealthyAfter : UInt32
  healthyAfter : UInt32

structure ProbeState where
  failures : UInt32
  successes : UInt32
  deriving DecidableEq

def ProbeState.default : ProbeState := ⟨0, 0⟩

/-- `u32::saturating_add(1)`. -/
def saturatingSucc (n : UInt32) : UInt32 :=
  if n.toNat + 1 < 2 ^ 32 then n + 1 else n

/-- What the task does with the answer to one probe. -/
def probe (active : ActiveHealthConfig) (ok : Bool) (u : Upstream) (state : ProbeState) :
    Upstream × ProbeState :=
  if ok then
    let state := { state with failures := 0, successes := saturatingSucc state.successes }
    if !u.healthy && decide (active.healthyAfter ≤ state.successes) then
      ({ u with healthy := true }, state)
    else (u, state)
  else
    let state := { state with successes := 0, failures := saturatingSucc state.failures }
    if u.healthy && decide (active.unhealthyAfter ≤ state.failures) then
      ({ u with healthy := false }, state)
    else (u, state)

/-- What the request path reports of a request, and the time of its clock then. -/
structure Report where
  time : UInt64
  ok : Bool
  deriving DecidableEq

def record (passive : PassiveHealthConfig) (u : Upstream) (r : Report) : Upstream :=
  if r.ok then recordSuccess u else recordFailure passive u r.time

structure UpstreamConfig where
  url : String
  weight : UInt32
  group : Option String

def buildUpstreams (cfgs : List UpstreamConfig) : List Upstream :=
  cfgs.map fun c ↦ .new c.url c.weight c.group

structure Monitor where
  upstreams : List Upstream
  runs : List ProbeState
  /-- The upstream whose probe the task awaits. -/
  next : ℕ

open Monitor

def Monitor.init (cfgs : List UpstreamConfig) : Monitor where
  upstreams := buildUpstreams cfgs
  runs := List.replicate (buildUpstreams cfgs).length .default
  next := 0

inductive Event where
  | probed (ok : Bool)
  | reported (i : ℕ) (r : Report)

variable (active : ActiveHealthConfig) (passive : PassiveHealthConfig)

def Monitor.step (m : Monitor) : Event → Monitor
  | .probed ok =>
    match m.upstreams[m.next]?, m.runs[m.next]? with
    | some u, some state =>
      let w := probe active ok u state
      { upstreams := m.upstreams.set m.next w.1
        runs := m.runs.set m.next w.2
        next := (m.next + 1) % m.upstreams.length }
    -- A pool without upstreams is never probed.
    | _, _ => m
  | .reported i r => { m with upstreams := m.upstreams.modify i (record passive · r) }

def Monitor.run (m : Monitor) (events : List Event) : Monitor :=
  events.foldl (step active passive) m

/-! ## One upstream of the pool -/

inductive Observation where
  | probe (ok : Bool)
  | report (r : Report)

open Observation

namespace Observation

def answer? : Observation → Option Bool
  | probe ok => some ok
  | report _ => none

def report? : Observation → Option Report
  | probe _ => none
  | report r => some r

end Observation

/-- What one event shows of upstream `i`, if `k` is the next one to be probed. -/
def seen (i k : ℕ) : Event → List Observation
  | .probed ok => if k = i then [.probe ok] else []
  | .reported j r => if j = i then [.report r] else []

/-- The next one to be probed after an event. -/
def advance (n k : ℕ) : Event → ℕ
  | .probed _ => (k + 1) % n
  | .reported _ _ => k

/-- What is observed of upstream `i` among `n`, if `k` is the next one to be probed. -/
def observed (n i : ℕ) : ℕ → List Event → List Observation
  | _, [] => []
  | k, e :: events => seen i k e ++ observed n i (advance n k e) events

/-- The answers to the probes of upstream `i` in a run from the start. -/
def answersOf (n i : ℕ) (events : List Event) : List Bool :=
  (observed n i 0 events).filterMap answer?

/-- The reports about upstream `i` in a run from the start. -/
def reportsOf (n i : ℕ) (events : List Event) : List Report :=
  (observed n i 0 events).filterMap report?

def observe (w : Upstream × ProbeState) : Observation → Upstream × ProbeState
  | .probe ok => probe active ok w.1 w.2
  | .report r => (record passive w.1 r, w.2)

variable {active passive}

/-- The task keeps one state for each upstream and awaits the answer of one that exists. -/
structure Monitor.Ready (m : Monitor) : Prop where
  length_eq : m.runs.length = m.upstreams.length
  next_lt : m.next < m.upstreams.length

namespace Monitor

variable {m : Monitor} {i : ℕ} {u : Upstream} {state : ProbeState}

theorem step_probed (ok : Bool) (hu : m.upstreams[m.next]? = some u)
    (hs : m.runs[m.next]? = some state) :
    m.step active passive (.probed ok) =
      { upstreams := m.upstreams.set m.next (probe active ok u state).1
        runs := m.runs.set m.next (probe active ok u state).2
        next := (m.next + 1) % m.upstreams.length } := by
  simp only [step, hu, hs]

/-- The upstream `i` and its run lengths, as far as both exist. -/
def at? (m : Monitor) (i : ℕ) : Option (Upstream × ProbeState) :=
  (m.upstreams[i]?).bind fun u ↦ (m.runs[i]?).map fun state ↦ (u, state)

theorem at?_eq_some {w : Upstream × ProbeState} :
    m.at? i = some w ↔ m.upstreams[i]? = some w.1 ∧ m.runs[i]? = some w.2 := by
  rcases w with ⟨u, state⟩
  simp [at?, bind_eq_some_iff]

theorem at?_set (hready : m.Ready) (w : Upstream × ProbeState) (k : ℕ) :
    at? ⟨m.upstreams.set m.next w.1, m.runs.set m.next w.2, k⟩ i =
      if m.next = i then some w else m.at? i := by
  split
  · rename_i heq
    subst heq
    exact at?_eq_some.mpr ⟨getElem?_set_self hready.next_lt,
      getElem?_set_self (hready.length_eq ▸ hready.next_lt)⟩
  · rename_i hne
    rw [at?, at?, getElem?_set_ne hne, getElem?_set_ne hne]

/-- One step: the task stays ready, and each upstream changes by what is seen of it. -/
theorem step_spec (hready : m.Ready) (e : Event) :
    (m.step active passive e).Ready ∧
      (m.step active passive e).upstreams.length = m.upstreams.length ∧
      (m.step active passive e).next = advance m.upstreams.length m.next e ∧
      ∀ i, (m.step active passive e).at? i =
        (m.at? i).map fun w ↦ (seen i m.next e).foldl (observe active passive) w := by
  rcases e with ok | ⟨j, r⟩
  · have hnext : m.next < m.runs.length := hready.length_eq ▸ hready.next_lt
    have hu := getElem?_eq_getElem hready.next_lt
    have hs := getElem?_eq_getElem hnext
    rw [step_probed ok hu hs]
    refine ⟨⟨?_, ?_⟩, length_set, rfl, ?_⟩
    · rw [length_set, length_set, hready.length_eq]
    · rw [length_set]
      exact Nat.mod_lt _ (Nat.zero_lt_of_lt hready.next_lt)
    · intro i
      rw [at?_set hready, seen]
      split
      · rename_i heq
        subst heq
        rw [at?_eq_some (w := (_, _)) |>.mpr ⟨hu, hs⟩]
        rfl
      · exact Option.map_id'.symm
  · refine ⟨⟨?_, ?_⟩, length_modify .., rfl, ?_⟩
    · rw [step, length_modify, hready.length_eq]
    · rw [step, length_modify]
      exact hready.next_lt
    · intro i
      rw [seen, step, at?, at?, getElem?_modify]
      split
      · rcases m.upstreams[i]? with _ | u
        · rfl
        · rcases m.runs[i]? with _ | state <;> rfl
      · rw [Option.map_eq_map, Option.map_id']
        exact Option.map_id'.symm

theorem run_at? (events : List Event) : ∀ {m : Monitor}, m.Ready → ∀ i,
    (m.run active passive events).at? i = (m.at? i).map fun w ↦
      (observed m.upstreams.length i m.next events).foldl (observe active passive) w := by
  induction events with
  | nil =>
    intro m _ i
    exact Option.map_id'.symm
  | cons e events ih =>
    intro m hready i
    obtain ⟨hready', hlen, hnext, hat⟩ := step_spec hready e
    rw [run, foldl_cons, ← run, ih hready', hat, hlen, hnext, Option.map_map]
    refine congrArg (Option.map · _) (funext fun w ↦ ?_)
    rw [observed, foldl_append, Function.comp_apply]

end Monitor

/-- In a run of a new pool, upstream `i` is what its own observations make of it. -/
theorem Monitor.run_init_getElem? (cfgs : List UpstreamConfig) (events : List Event)
    (i : Fin cfgs.length) :
    ((init cfgs).run active passive events).upstreams[i.val]? =
      some ((observed cfgs.length i 0 events).foldl (observe active passive)
        (.new cfgs[i].url cfgs[i].weight cfgs[i].group, .default)).1 := by
  have hlen : (buildUpstreams cfgs).length = cfgs.length := length_map ..
  have hready : (init cfgs).Ready := by
    refine ⟨length_replicate, ?_⟩
    rw [init, hlen]
    exact i.pos
  have hu : (init cfgs).upstreams[i.val]? =
      some (.new cfgs[i].url cfgs[i].weight cfgs[i].group) := by
    simp [init, buildUpstreams]
  have hs : (init cfgs).runs[i.val]? = some .default := by
    rw [init, getElem?_replicate, hlen, if_pos i.isLt]
  have hrun := @run_at? active passive events _ hready i
  have hat : (init cfgs).at? i = some (_, _) := at?_eq_some.mpr ⟨hu, hs⟩
  rw [hat, map_some] at hrun
  rw [(at?_eq_some.mp hrun).1, init, hlen]
  rfl

/-! ## Active health -/

/-- The length of a run of the answer `ok` at which it counts; zero counts as one. -/
def ActiveHealthConfig.threshold (active : ActiveHealthConfig) : Bool → ℕ
  | true => max 1 active.healthyAfter.toNat
  | false => max 1 active.unhealthyAfter.toNat

/-- The length of the run of the answer `ok` that some answers end with. -/
def runLength (ok : Bool) (answers : List Bool) : ℕ := streak (· == ok) answers

/-- What is decided at the moment of the last answer, if a run has just reached its threshold. -/
def moment (active : ActiveHealthConfig) (answers : List Bool) : Option Bool :=
  if runLength false answers = active.threshold false then some false
  else if runLength true answers = active.threshold true then some true
  else none

/-- The latest such moment decides for `v`; if there is none, the upstream is healthy. -/
def Decided (active : ActiveHealthConfig) (answers : List Bool) (v : Bool) : Prop :=
  Latest (moment active) answers v ∨ v = true ∧ Unmarked (moment active) answers

theorem ActiveHealthConfig.threshold_pos (active : ActiveHealthConfig) (ok : Bool) :
    0 < active.threshold ok := by
  rcases ok with _ | _ <;> exact Nat.lt_of_lt_of_le Nat.one_pos (Nat.le_max_left _ _)

@[simp]
theorem runLength_nil (ok : Bool) : runLength ok [] = 0 := streak_nil _

theorem ActiveHealthConfig.threshold_le (active : ActiveHealthConfig) (ok : Bool) :
    active.threshold ok ≤ 2 ^ 32 - 1 := by
  have hup := active.healthyAfter.toNat_lt
  have hdown := active.unhealthyAfter.toNat_lt
  rcases ok with _ | _ <;> rw [threshold] <;> omega

theorem moment_nil : moment active [] = none := by
  have hpos := active.threshold_pos
  rw [moment, runLength_nil, runLength_nil, if_neg (hpos false).ne, if_neg (hpos true).ne]

theorem runLength_concat_self (ok : Bool) (answers : List Bool) :
    runLength ok (answers ++ [ok]) = runLength ok answers + 1 :=
  streak_concat_of_pos (p := (· == ok)) (beq_self_eq_true ok) answers

theorem runLength_concat_not (ok : Bool) (answers : List Bool) :
    runLength (!ok) (answers ++ [ok]) = 0 :=
  streak_concat_of_neg (p := (· == !ok)) (by rcases ok with _ | _ <;> rfl) answers

/-- An answer ends every run of the other kind, so only its own run can reach the threshold. -/
theorem moment_concat (active : ActiveHealthConfig) (answers : List Bool) (ok : Bool) :
    moment active (answers ++ [ok]) =
      if runLength ok answers + 1 = active.threshold ok then some ok else none := by
  have hnot : runLength (!ok) (answers ++ [ok]) ≠ active.threshold (!ok) := by
    rw [runLength_concat_not]
    exact (active.threshold_pos _).ne
  rcases ok with _ | _
  · rw [Bool.not_false] at hnot
    rw [moment, runLength_concat_self, if_neg hnot]
  · rw [Bool.not_true] at hnot
    rw [moment, runLength_concat_self, if_neg hnot]

theorem decided_nil (v : Bool) : Decided active [] v ↔ true = v := by
  constructor
  · rintro (⟨p, hp, hm, _⟩ | ⟨rfl, _⟩)
    · rw [prefix_nil.mp hp, moment_nil] at hm
      exact nomatch hm
    · rfl
  · rintro rfl
    refine .inr ⟨rfl, fun q hq ↦ ?_⟩
    rw [prefix_nil.mp hq, moment_nil]

variable {answers : List Bool} {w : Upstream × ProbeState}

theorem decided_concat {ok : Bool} (v : Bool) :
    Decided active (answers ++ [ok]) v ↔
      if runLength ok answers + 1 = active.threshold ok then ok = v
      else Decided active answers v := by
  have hm := moment_concat active answers ok
  rw [Decided, unmarked_concat, hm]
  split
  · rename_i h
    rw [if_pos h] at hm
    rw [latest_concat hm]
    simp
  · rename_i h
    rw [if_neg h] at hm
    rw [latest_concat_of_none hm]
    simp [Decided]

/-- The length that the task keeps of the run of the answer `ok`. -/
def ProbeState.count (state : ProbeState) : Bool → UInt32
  | true => state.successes
  | false => state.failures

theorem toNat_saturatingSucc (n : UInt32) :
    (saturatingSucc n).toNat = min (n.toNat + 1) (2 ^ 32 - 1) := by
  have hlt := n.toNat_lt
  rw [saturatingSucc]
  split
  · rename_i h
    rw [UInt32.toNat_add, UInt32.toNat_one, Nat.mod_eq_of_lt h]
    omega
  · omega

/-- What is true of an upstream and its run lengths after some answers. -/
structure Tracks (active : ActiveHealthConfig) (answers : List Bool)
    (w : Upstream × ProbeState) : Prop where
  count : ∀ ok, (w.2.count ok).toNat = min (runLength ok answers) (2 ^ 32 - 1)
  /-- A run that is long enough has decided. -/
  settled : ∀ ok, active.threshold ok ≤ runLength ok answers → w.1.healthy = ok
  decided : ∀ v, w.1.healthy = v ↔ Decided active answers v

theorem tracks_init (active : ActiveHealthConfig) (url : String) (weight : UInt32)
    (group : Option String) :
    Tracks active [] (.new url weight group, .default) where
  count ok := by rcases ok with _ | _ <;> rfl
  settled ok h := absurd h (by rw [runLength_nil]; exact Nat.not_le.mpr (active.threshold_pos ok))
  decided v := (decided_nil v).symm

theorem count_probe_self (ok : Bool) (u : Upstream) (state : ProbeState) :
    (probe active ok u state).2.count ok = saturatingSucc (state.count ok) := by
  rcases ok with _ | _
  · rw [probe, if_neg Bool.false_ne_true]
    dsimp only
    split <;> rfl
  · rw [probe, if_pos rfl]
    dsimp only
    split <;> rfl

theorem count_probe_not (ok : Bool) (u : Upstream) (state : ProbeState) :
    (probe active ok u state).2.count (!ok) = 0 := by
  rcases ok with _ | _
  · rw [probe, if_neg Bool.false_ne_true]
    dsimp only
    split <;> rfl
  · rw [probe, if_pos rfl]
    dsimp only
    split <;> rfl

/-- The flag changes to the answer once its run is as long as the threshold says. -/
theorem healthy_probe (active : ActiveHealthConfig) (ok : Bool) (u : Upstream)
    (state : ProbeState) : (probe active ok u state).1.healthy =
      if active.threshold ok ≤ (saturatingSucc (state.count ok)).toNat then ok
      else u.healthy := by
  have hone : 1 ≤ (saturatingSucc (state.count ok)).toNat := by
    rw [toNat_saturatingSucc]
    omega
  rcases ok with _ | _
  · rw [probe, if_neg Bool.false_ne_true]
    rw [ProbeState.count] at hone ⊢
    simp only [ActiveHealthConfig.threshold, Nat.max_le, hone, true_and, UInt32.le_iff_toNat_le]
    rcases hu : u.healthy with _ | _ <;> split <;> simp_all
  · rw [probe, if_pos rfl]
    rw [ProbeState.count] at hone ⊢
    simp only [ActiveHealthConfig.threshold, Nat.max_le, hone, true_and, UInt32.le_iff_toNat_le]
    rcases hu : u.healthy with _ | _ <;> split <;> simp_all

theorem Tracks.probe (h : Tracks active answers w) (ok : Bool) :
    Tracks active (answers ++ [ok]) (probe active ok w.1 w.2) := by
  have hcount : (saturatingSucc (w.2.count ok)).toNat =
      min (runLength ok answers + 1) (2 ^ 32 - 1) := by
    rw [toNat_saturatingSucc, h.count ok]
    omega
  -- A threshold is a machine word, so a saturated count is as good as the length itself.
  have hreached : active.threshold ok ≤ (saturatingSucc (w.2.count ok)).toNat ↔
      active.threshold ok ≤ runLength ok answers + 1 := by
    have hle : active.threshold ok ≤ 2 ^ 32 - 1 := active.threshold_le ok
    rw [hcount]
    omega
  have hhealthy := healthy_probe active ok w.1 w.2
  rw [if_congr hreached rfl rfl] at hhealthy
  have hcases : ∀ b, b = ok ∨ b = !ok := by
    intro b
    exact (Decidable.em (b = ok)).imp_right Bool.eq_not.mpr
  refine ⟨fun b ↦ ?_, fun b hb ↦ ?_, fun v ↦ ?_⟩
  · rcases hcases b with rfl | rfl
    · rw [count_probe_self, hcount, runLength_concat_self]
    · rw [count_probe_not, runLength_concat_not]
      rfl
  · rcases hcases b with rfl | rfl
    · rw [runLength_concat_self] at hb
      rw [hhealthy, if_pos hb]
    · rw [runLength_concat_not] at hb
      exact absurd hb (Nat.not_le.mpr (active.threshold_pos _))
  · rw [decided_concat, hhealthy]
    rcases Nat.lt_trichotomy (runLength ok answers + 1) (active.threshold ok) with hlt | heq | hgt
    · rw [if_neg hlt.ne, if_neg (Nat.not_le.mpr hlt), h.decided]
    · rw [if_pos heq, if_pos heq.ge]
    · -- The run has decided before, and so the flag was the answer already.
      rw [if_neg hgt.ne', if_pos hgt.le, ← h.settled ok (Nat.lt_succ_iff.mp hgt), h.decided]

theorem Tracks.record (h : Tracks active answers w) (r : Report) :
    Tracks active answers (record passive w.1 r, w.2) := by
  have hhealthy : (Lb.record passive w.1 r).healthy = w.1.healthy := by
    rw [Lb.record]
    split
    · rfl
    · rw [recordFailure]
      split <;> rfl
  exact ⟨h.count, fun ok hok ↦ hhealthy.trans (h.settled ok hok),
    fun v ↦ by rw [hhealthy, h.decided]⟩

theorem Tracks.foldl_observe (h : Tracks active answers w) (passive : PassiveHealthConfig)
    (observations : List Observation) :
    Tracks active (answers ++ observations.filterMap answer?)
      (observations.foldl (observe active passive) w) := by
  refine foldl_filterMap_induction (P := Tracks active) ?_ ?_ observations h
  · rintro answers w (ok | r) ok' ho h
    · obtain rfl : ok = ok' := Option.some.inj ho
      exact h.probe ok
    · exact nomatch ho
  · rintro answers w (ok | r) ho h
    · exact nomatch ho
    · exact h.record r

/-- The `healthy` flag is what the latest run of probes that reached a threshold decides; without
one, the upstream is healthy. -/
theorem healthy_iff_decided (active : ActiveHealthConfig) (passive : PassiveHealthConfig)
    (cfgs : List UpstreamConfig) (events : List Event) (i : Fin cfgs.length) (v : Bool) :
    (((init cfgs).run active passive events).upstreams[i.val]?).map Upstream.healthy =
        some v ↔
      Decided active (answersOf cfgs.length i events) v := by
  have htracks := (tracks_init active cfgs[i].url cfgs[i].weight cfgs[i].group).foldl_observe
    passive (observed cfgs.length i 0 events)
  rw [run_init_getElem?, map_some, some_inj, htracks.decided]
  rfl

end Lb

end Hypershunt
