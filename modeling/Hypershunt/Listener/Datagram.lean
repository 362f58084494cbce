import Mathlib.Algebra.BigOperators.Fin
import Hypershunt.Foundation.HashMap
import Hypershunt.Foundation.Run
import Hypershunt.Foundation.Time
import Hypershunt.ProxyProto.Header

/-!
# Datagram flows

The proxy for datagrams (`listener/datagram.rs`). Each listener has a table of flows, one for each
client address, which three kinds of tasks work on: the loop that receives datagrams and creates
flows on demand, a reply task for each flow, and the sweep that drops idle flows. A table is guarded
by a lock; whoever has changed it writes its size to a gauge before the lock is released.
Connections of seqpacket listeners have no table and count in the same gauge.

A reply task that ends removes *the address* of its flow. The sweep removes flows whose reply task
still runs, and such a task may end when a later flow has taken the address: then it removes that
one. These are all removals there should not be (`removals_rightful_iff`).

Flows are told apart by a number. The sweep of the code keeps the addresses it is going to drop; the
flows it has found idle are kept beside them.
-/

namespace Hypershunt

namespace Datagram

open Function

/-- The address of a client; flow label and scope of an IPv6 address are part of it. -/
inductive ClientKey
  | udp (addr : ProxyProto.SocketAddr) (flowinfo scopeId : UInt32)
  | unixPath (path : String)
  deriving DecidableEq

abbrev FlowId := ℕ

/-- What the loop of a listener is doing with a datagram. -/
inductive Arrival
  /-- There is no flow, and a socket to the upstream is being opened. -/
  | building (key : ClientKey)
  | built (key : ClientKey) (flow : FlowId)
  /-- The flow is in the table, and the lock is still held. -/
  | inserted (key : ClientKey) (flow : FlowId)
  | found (key : ClientKey) (flow : FlowId) (fresh : Bool)
  | touched (key : ClientKey) (flow : FlowId) (fresh : Bool)

/-- The lock is released. -/
def Arrival.released : Arrival → Arrival
  | .inserted key flow => .found key flow true
  | a => a

/-- A sweep that holds the lock. -/
structure Sweep where
  now : Instant
  unread : Finset ClientKey
  toDrop : Finset ClientKey
  /-- The flows that were found idle. -/
  idle : Finset FlowId

/-- What the holder of the lock of a table is doing. -/
inductive Holder
  | sweep (w : Sweep)
  /-- It has changed the table, and is to write its size to the gauge. -/
  | publish

structure Table where
  flows : HashMap ClientKey FlowId
  holder : Option Holder
  arrival : Option Arrival

variable {n : ℕ}

/-- The tables of `n` listeners, the tasks, the gauge, and the seqpacket connections. -/
structure State (n : ℕ) where
  now : Instant
  tables : Fin n → Table
  lastSeen : HashMap FlowId Instant
  /-- The reply tasks, each with the table and the address of its flow. -/
  tasks : HashMap FlowId (Fin n × ClientKey)
  nextFlow : FlowId
  gauge : ℕ
  opening : ℕ
  opened : ℕ
  done : ℕ

open State

def State.init (n : ℕ) (now : Instant) : State n :=
  ⟨now, fun _ ↦ ⟨∅, none, none⟩, ∅, ∅, 0, 0, 0, 0, 0⟩

def State.setTable (s : State n) (i : Fin n) (t : Table) : State n :=
  { s with tables := update s.tables i t }

def State.setArrival (s : State n) (i : Fin n) (a : Option Arrival) : State n :=
  s.setTable i { s.tables i with arrival := a }

def State.setHolder (s : State n) (i : Fin n) (h : Option Holder) : State n :=
  s.setTable i { s.tables i with holder := h }

/-- `fetch_sub` of an `AtomicU64`. -/
def decrement (g : ℕ) : ℕ := if g = 0 then 2 ^ 64 - 1 else g - 1

inductive Event (n : ℕ)
  | pass (d : Duration)
  /-- A datagram arrives, and its address is looked up. -/
  | recv (i : Fin n) (key : ClientKey)
  /-- `build_upstream` returns. -/
  | build (i : Fin n) (ok : Bool)
  /-- The second half of `get_or_create_flow`. -/
  | insert (i : Fin n)
  | touch (i : Fin n)
  /-- The datagram is sent, and a fresh flow gets its reply task. -/
  | forward (i : Fin n)
  /-- A reply task passes on a datagram. -/
  | reply (flow : FlowId)
  /-- The loop of a reply task has ended, and the task gets the lock. -/
  | replyEnd (flow : FlowId)
  /-- `evict_idle` gets the lock, having read the clock before. -/
  | sweep (i : Fin n) (now : Instant)
  /-- The sweep looks at a flow. -/
  | look (i : Fin n) (key : ClientKey)
  | drop (i : Fin n)
  /-- The size of a table is written to the gauge, and its lock released. -/
  | publish (i : Fin n)
  | accept
  | refuse
  | start
  | finish
  | leave
  deriving DecidableEq

/-- The sweep looks at a flow of the table. -/
def Sweep.look (w : Sweep) (timeout : Duration) (last : Instant) (key : ClientKey) (flow : FlowId) :
    Sweep :=
  if timeout ≤ w.now.saturatingDurationSince last then
    { w with
      unread := w.unread.erase key, toDrop := insert key w.toDrop, idle := insert flow w.idle }
  else { w with unread := w.unread.erase key }

/-- The table without what the sweep drops. -/
def Table.drop (t : Table) (w : Sweep) : HashMap ClientKey FlowId :=
  t.flows.retain fun key _ ↦ decide (key ∉ w.toDrop)

variable (timeout : Fin n → Duration)

def step (s : State n) : Event n → Option (State n)
  | .pass d => some { s with now := s.now + d }
  | .recv i key => match (s.tables i).arrival, (s.tables i).holder with
    | none, none => match (s.tables i).flows.lookup key with
      | some flow => some (s.setArrival i (some (.found key flow false)))
      | none => some (s.setArrival i (some (.building key)))
    | _, _ => none
  | .build i ok => match (s.tables i).arrival with
    | some (.building key) =>
      if ok then some { s.setArrival i (some (.built key s.nextFlow)) with
        lastSeen := s.lastSeen.insert s.nextFlow s.now, nextFlow := s.nextFlow + 1 }
      else some (s.setArrival i none)
    | _ => none
  | .insert i => match (s.tables i).arrival, (s.tables i).holder with
    | some (.built key flow), none => match (s.tables i).flows.lookup key with
      | some existing => some (s.setArrival i (some (.found key existing false)))
      | none => some (s.setTable i
        ⟨(s.tables i).flows.insert key flow, some .publish, some (.inserted key flow)⟩)
    | _, _ => none
  | .touch i => match (s.tables i).arrival with
    | some (.found key flow fresh) =>
      some { s.setArrival i (some (.touched key flow fresh)) with
        lastSeen := s.lastSeen.insert flow s.now }
    | _ => none
  | .forward i => match (s.tables i).arrival with
    | some (.touched key flow fresh) =>
      some { s.setArrival i none with
        tasks := if fresh then s.tasks.insert flow (i, key) else s.tasks }
    | _ => none
  | .reply flow =>
    if flow ∈ s.tasks then some { s with lastSeen := s.lastSeen.insert flow s.now } else none
  | .replyEnd flow => match s.tasks.lookup flow with
    | some (i, key) => match (s.tables i).holder with
      | none => some { s.setTable i { s.tables i with
          flows := (s.tables i).flows.erase key, holder := some .publish } with
          tasks := s.tasks.erase flow }
      | some _ => none
    | none => none
  | .sweep i now => match (s.tables i).holder with
    | none =>
      if now ≤ s.now then
        some (s.setHolder i (some (.sweep ⟨now, (s.tables i).flows.keys, ∅, ∅⟩)))
      else none
    | some _ => none
  | .look i key => match (s.tables i).holder, (s.tables i).flows.lookup key with
    | some (.sweep w), some flow =>
      if key ∈ w.unread then
        some (s.setHolder i (some (.sweep
          (w.look (timeout i) ((s.lastSeen.lookup flow).getD 0) key flow))))
      else none
    | _, _ => none
  | .drop i => match (s.tables i).holder with
    | some (.sweep w) =>
      if w.unread = ∅ then
        let flows := (s.tables i).drop w
        some (s.setTable i { s.tables i with
          flows := flows
          holder := if flows.keys.card = (s.tables i).flows.keys.card then none
            else some .publish })
      else none
    | _ => none
  | .publish i => match (s.tables i).holder with
    | some .publish => some { s.setTable i { s.tables i with
        holder := none, arrival := (s.tables i).arrival.map Arrival.released } with
        gauge := (s.tables i).flows.keys.card }
    | _ => none
  | .accept => some { s with opening := s.opening + 1 }
  | .refuse => if s.opening = 0 then none else some { s with opening := s.opening - 1 }
  | .start =>
    if s.opening = 0 then none
    else some { s with
      opening := s.opening - 1, opened := s.opened + 1, gauge := s.gauge + 1 }
  | .finish =>
    if s.opened = 0 then none else some { s with opened := s.opened - 1, done := s.done + 1 }
  | .leave =>
    if s.done = 0 then none else some { s with done := s.done - 1, gauge := decrement s.gauge }

/-! ## What a step can do -/

/-- The part of a table that is behind the lock. -/
def State.view (s : State n) (i : Fin n) : HashMap ClientKey FlowId × Option Holder :=
  ((s.tables i).flows, (s.tables i).holder)

/-- The gauge and the connections that count in it. -/
def State.counts (s : State n) : ℕ × ℕ × ℕ := (s.gauge, s.opened, s.done)

/-- What becomes of a table. -/
inductive TableChange (s : State n) (i : Fin n) :
    Event n → HashMap ClientKey FlowId → Option Holder → Prop
  | insert (key : ClientKey) (flow : FlowId) (habsent : (s.tables i).flows.lookup key = none) :
      TableChange s i (.insert i) ((s.tables i).flows.insert key flow) (some .publish)
  | replyEnd (flow : FlowId) (key : ClientKey) (htask : s.tasks.lookup flow = some (i, key))
      (hfree : (s.tables i).holder = none) :
      TableChange s i (.replyEnd flow) ((s.tables i).flows.erase key) (some .publish)
  | sweep (now : Instant) (hfree : (s.tables i).holder = none) :
      TableChange s i (.sweep i now) (s.tables i).flows
        (some (.sweep ⟨now, (s.tables i).flows.keys, ∅, ∅⟩))
  | look (w : Sweep) (t : Duration) (last : Instant) (key : ClientKey) (flow : FlowId)
      (hw : (s.tables i).holder = some (.sweep w))
      (hflow : (s.tables i).flows.lookup key = some flow) :
      TableChange s i (.look i key) (s.tables i).flows (some (.sweep (w.look t last key flow)))
  | drop (w : Sweep) (hw : (s.tables i).holder = some (.sweep w)) :
      TableChange s i (.drop i) ((s.tables i).drop w)
        (if ((s.tables i).drop w).keys.card = (s.tables i).flows.keys.card then none
          else some .publish)

inductive Effect (s s' : State n) (e : Event n) : Prop
  | quiet (hview : s'.view = s.view) (hcounts : s'.counts = s.counts)
  | table (i : Fin n) (flows : HashMap ClientKey FlowId) (holder : Option Holder)
      (hchange : TableChange s i e flows holder)
      (hview : s'.view = update s.view i (flows, holder)) (hcounts : s'.counts = s.counts)
  | publish (i : Fin n) (he : e = .publish i) (hholder : (s.tables i).holder = some .publish)
      (hview : s'.view = update s.view i ((s.tables i).flows, none))
      (hcounts : s'.counts = ((s.tables i).flows.keys.card, s.opened, s.done))
  | start (hview : s'.view = s.view) (hcounts : s'.counts = (s.gauge + 1, s.opened + 1, s.done))
  | finish (hview : s'.view = s.view) (hopened : s.opened ≠ 0)
      (hcounts : s'.counts = (s.gauge, s.opened - 1, s.done + 1))
  | leave (he : e = .leave) (hview : s'.view = s.view) (hdone : s.done ≠ 0)
      (hcounts : s'.counts = (decrement s.gauge, s.opened, s.done - 1))

variable {timeout} {s s' : State n} {e : Event n} {i : Fin n} {flows : HashMap ClientKey FlowId}

theorem view_setTable (s : State n) (i : Fin n) (t : Table) :
    (s.setTable i t).view = update s.view i (t.flows, t.holder) := by
  funext j
  by_cases hj : j = i
  · subst hj
    simp only [view, setTable, update_self]
  · simp only [view, setTable, update_of_ne hj]

@[simp] theorem view_setArrival (s : State n) (i : Fin n) (a : Option Arrival) :
    (s.setArrival i a).view = s.view := by
  rw [setArrival, view_setTable]
  exact update_eq_self i s.view

theorem view_setHolder (s : State n) (i : Fin n) (h : Option Holder) :
    (s.setHolder i h).view = update s.view i ((s.tables i).flows, h) :=
  view_setTable s i _

theorem step_cases (h : step timeout s e = some s') : Effect s s' e := by
  rcases e with d | ⟨i, key⟩ | ⟨i, ok⟩ | i | i | i | flow | flow | ⟨i, now⟩ | ⟨i, key⟩ | i | i |
    _ | _ | _ | _ | _ <;> simp only [step] at h
  · cases h
    exact .quiet rfl rfl
  · split at h
    · split at h <;> cases h <;> exact .quiet (view_setArrival _ _ _) rfl
    · cases h
  · split at h
    · split_ifs at h <;> cases h <;> exact .quiet (view_setArrival _ _ _) rfl
    · cases h
  · split at h
    · rename_i key flow harrival hfree
      split at h <;> cases h
      · exact .quiet (view_setArrival _ _ _) rfl
      · rename_i habsent
        exact .table i _ _ (.insert key flow habsent) (view_setTable _ _ _) rfl
    · cases h
  · split at h
    · cases h
      exact .quiet (view_setArrival _ _ _) rfl
    · cases h
  · split at h
    · cases h
      exact .quiet (view_setArrival _ _ _) rfl
    · cases h
  · split_ifs at h
    cases h
    exact .quiet rfl rfl
  · split at h
    · rename_i i key htask
      split at h
      · rename_i hfree
        cases h
        exact .table i _ _ (.replyEnd flow key htask hfree) (view_setTable _ _ _) rfl
      · cases h
    · cases h
  · split at h
    · rename_i hfree
      split_ifs at h
      cases h
      exact .table i _ _ (.sweep now hfree) (view_setHolder _ _ _) rfl
    · cases h
  · split at h
    · rename_i w flow hw hflow
      split_ifs at h
      cases h
      exact .table i _ _ (.look w _ _ key flow hw hflow) (view_setHolder _ _ _) rfl
    · cases h
  · split at h
    · rename_i w hw
      rw [Option.ite_none_right_eq_some, Option.some.injEq] at h
      obtain ⟨-, rfl⟩ := h
      exact .table i _ _ (.drop w hw) (view_setTable _ _ _) rfl
    · cases h
  · split at h
    · rename_i hholder
      cases h
      exact .publish i rfl hholder (view_setTable _ _ _) rfl
    · cases h
  · cases h
    exact .quiet rfl rfl
  · split_ifs at h
    cases h
    exact .quiet rfl rfl
  · split_ifs at h
    cases h
    exact .start rfl rfl
  · split_ifs at h with hopened
    cases h
    exact .finish rfl hopened rfl
  · split_ifs at h with hdone
    cases h
    exact .leave rfl rfl hdone rfl

/-! ## Removals -/

/-- What a sweep is going to drop, it has found idle. -/
def SweepsIdle (v : HashMap ClientKey FlowId × Option Holder) : Prop :=
  ∀ w, v.2 = some (.sweep w) → ∀ key ∈ w.toDrop, ∀ flow, v.1.lookup key = some flow → flow ∈ w.idle

def Sweeping (s : State n) : Prop := ∀ i, SweepsIdle (s.view i)

/-- The flow is no longer in the table. -/
def Removed (s s' : State n) (i : Fin n) (key : ClientKey) (flow : FlowId) : Prop :=
  (s.tables i).flows.lookup key = some flow ∧ (s'.tables i).flows.lookup key ≠ some flow

/-- A flow is removed because its own reply task has ended, or by a sweep that has found it idle. -/
inductive Rightful (s : State n) (i : Fin n) (key : ClientKey) (flow : FlowId) : Event n → Prop
  | ended (htask : s.tasks.lookup flow = some (i, key)) : Rightful s i key flow (.replyEnd flow)
  | idle (w : Sweep) (hw : (s.tables i).holder = some (.sweep w)) (hidle : flow ∈ w.idle) :
      Rightful s i key flow (.drop i)

/-- A reply task that ends finds no flow under its address but its own. -/
def NoSuccessor (s : State n) : Event n → Prop
  | .replyEnd flow => ∀ i key, s.tasks.lookup flow = some (i, key) → (s.tables i).holder = none →
      ∀ flow', (s.tables i).flows.lookup key = some flow' → flow' = flow
  | _ => True

/-- Every removal of a step is rightful. -/
def RemovesRightfully (timeout : Fin n → Duration) (s : State n) (e : Event n) : Prop :=
  ∀ s', step timeout s e = some s' → ∀ i key flow, Removed s s' i key flow → Rightful s i key flow e

theorem sweeping_init (now : Instant) : Sweeping (init n now) := by
  intro i w hw
  cases hw

theorem Sweeping.change {holder : Option Holder} (h : Sweeping s)
    (hchange : TableChange s i e flows holder) : SweepsIdle (flows, holder) := by
  rcases hchange with _ | _ | _ | ⟨w, t, last, key, flow, hw, hflow⟩ | ⟨w, hw⟩
  · rintro w ⟨⟩
  · rintro w ⟨⟩
  · rintro w ⟨⟩ key hkey
    exact absurd hkey (Finset.notMem_empty key)
  · rintro w' ⟨⟩ key' hkey' flow' hflow'
    have hold : key' ∈ w.toDrop → flow' ∈ w.idle := fun hmem ↦ h i w hw key' hmem flow' hflow'
    rw [Sweep.look] at hkey' ⊢
    split_ifs at hkey' ⊢
    · rcases Finset.mem_insert.mp hkey' with rfl | hmem
      · rw [hflow, Option.some.injEq] at hflow'
        exact Finset.mem_insert.mpr (Or.inl hflow'.symm)
      · exact Finset.mem_insert_of_mem (hold hmem)
    · exact hold hkey'
  · intro w' hw'
    split_ifs at hw'
    cases hw'

theorem Sweeping.step (h : Sweeping s) (hstep : step timeout s e = some s') : Sweeping s' := by
  have hupdate : ∀ {i v}, s'.view = update s.view i v → SweepsIdle v → Sweeping s' := by
    intro i v hview hv j
    rw [hview]
    by_cases hj : j = i
    · rw [hj, update_self]
      exact hv
    · rw [update_of_ne hj]
      exact h j
  have hsame : s'.view = s.view → Sweeping s' := fun hview j ↦ hview ▸ h j
  rcases step_cases hstep with ⟨hview, -⟩ | ⟨i, flows, holder, hchange, hview, -⟩ |
    ⟨i, -, -, hview, -⟩ | ⟨hview, -⟩ | ⟨hview, -, -⟩ | ⟨-, hview, -, -⟩
  · exact hsame hview
  · exact hupdate hview (h.change hchange)
  · exact hupdate hview (by rintro w ⟨⟩)
  · exact hsame hview
  · exact hsame hview
  · exact hsame hview

variable {key : ClientKey} {flow : FlowId}

/-- The removals of a change to a table. -/
theorem rightful_of_change (h : Sweeping s) (hsuccessor : NoSuccessor s e) {holder : Option Holder}
    (hchange : TableChange s i e flows holder) (hflow : (s.tables i).flows.lookup key = some flow)
    (hgone : flows.lookup key ≠ some flow) : Rightful s i key flow e := by
  rcases hchange with ⟨key', flow', habsent⟩ | ⟨flow', key', htask, hfree⟩ | _ |
    ⟨w, t, last, key', flow', hw, -⟩ | ⟨w, hw⟩
  · rw [HashMap.lookup_insert_ite] at hgone
    split_ifs at hgone with hkey
    · rw [hkey, habsent] at hflow
      cases hflow
    · exact absurd hflow hgone
  · rw [HashMap.lookup_erase_ite] at hgone
    split_ifs at hgone with hkey
    · subst hkey
      obtain rfl := hsuccessor i key htask hfree flow hflow
      exact .ended htask
    · exact absurd hflow hgone
  · exact absurd hflow hgone
  · exact absurd hflow hgone
  · rw [Table.drop, HashMap.lookup_retain, hflow, Option.filter_some] at hgone
    split_ifs at hgone with hkey
    · exact absurd rfl hgone
    · rw [decide_eq_true_eq, not_not] at hkey
      exact .idle w hw (h i w hw key hkey flow hflow)

/-- Unless it is the end of a reply task whose address another flow has taken. -/
theorem removesRightfully_iff (h : Sweeping s) :
    RemovesRightfully timeout s e ↔ NoSuccessor s e := by
  constructor
  · intro hrightful
    rcases e with _ | _ | _ | _ | _ | _ | _ | flow | _ | _ | _ | _ | _ | _ | _ | _ | _ <;>
      try exact trivial
    intro i key htask hfree flow' hflow'
    have hstep : step timeout s (.replyEnd flow) = some { s.setTable i { s.tables i with
        flows := (s.tables i).flows.erase key, holder := some .publish } with
        tasks := s.tasks.erase flow } := by
      simp only [Datagram.step, htask, hfree]
    have hremoved : Removed s { s.setTable i { s.tables i with
        flows := (s.tables i).flows.erase key, holder := some .publish } with
        tasks := s.tasks.erase flow } i key flow' := by
      refine ⟨hflow', ?_⟩
      simp only [setTable, update_self, Finmap.lookup_erase, ne_eq, reduceCtorEq, not_false_eq_true]
    rcases hrightful _ hstep i key flow' hremoved with _ | _
    rfl
  · intro hsuccessor s' hstep i key flow hremoved
    have hgone : ∀ {v}, s'.view i = v → v.1.lookup key ≠ some flow := by
      rintro v rfl
      exact hremoved.2
    have hsame : s'.view i = s.view i → Rightful s i key flow e :=
      fun hview ↦ absurd hremoved.1 (hgone hview)
    have hupdate : ∀ {j v}, s'.view = update s.view j v →
        (j = i → v.1.lookup key ≠ some flow → Rightful s i key flow e) →
          Rightful s i key flow e := by
      intro j v hview hv
      by_cases hj : j = i
      · refine hv hj (hgone ?_)
        rw [hview, hj, update_self]
      · refine hsame ?_
        rw [hview, update_of_ne (Ne.symm hj)]
    rcases step_cases hstep with ⟨hview, -⟩ | ⟨j, flows, holder, hchange, hview, -⟩ |
      ⟨j, -, -, hview, -⟩ | ⟨hview, -⟩ | ⟨hview, -, -⟩ | ⟨-, hview, -, -⟩
    · exact hsame (congrFun hview i)
    · refine hupdate hview ?_
      rintro rfl hflows
      exact rightful_of_change h hsuccessor hchange hremoved.1 hflows
    · refine hupdate hview ?_
      rintro rfl hflows
      exact absurd hremoved.1 hflows
    · exact hsame (congrFun hview i)
    · exact hsame (congrFun hview i)
    · exact hsame (congrFun hview i)

/-- **A flow is removed rightfully** exactly if no reply task ends while the table has another flow
under its address. -/
theorem removals_rightful_iff (timeout : Fin n → Duration) (now : Instant) (es : List (Event n)) :
    AllSteps (step timeout) (RemovesRightfully timeout) (init n now) es ↔
      AllSteps (step timeout) NoSuccessor (init n now) es :=
  allSteps_congr (sweeping_init now) (fun _ _ _ h hstep ↦ h.step hstep)
    fun _ _ h ↦ removesRightfully_iff h

/-! ## A task that ends late -/

/-- A client of the listener. -/
def someClient : ClientKey := .udp ⟨.v4 0x7f000001, 40000⟩ 0 0

/-- A datagram of a client without a flow, up to the start of the reply task. -/
def newFlow (i : Fin n) (key : ClientKey) : List (Event n) :=
  [.recv i key, .build i true, .insert i, .publish i, .touch i, .forward i]

/-- A flow is dropped as idle, its client sends again, and the first flow's reply task ends. -/
private def lateEnd : List (Event 1) :=
  newFlow 0 someClient ++ [.pass 30, .sweep 0 30, .look 0 someClient, .drop 0, .publish 0] ++
    newFlow 0 someClient

/-- The second flow is in use, but the end of the first task removes it. -/
theorem late_end_removes_live_flow :
    (run (step fun _ ↦ 30) (init 1 0) lateEnd).map (fun s ↦
        ((s.tables 0).flows.lookup someClient, s.lastSeen.lookup 1, s.tasks.lookup 1)) =
      some (some 1, some 30, some (0, someClient)) ∧
    (run (step fun _ ↦ 30) (init 1 0) (lateEnd ++ [.replyEnd 0])).map (fun s ↦
        ((s.tables 0).flows.lookup someClient, s.tasks.lookup 1)) =
      some (none, some (0, someClient)) := by
  constructor
  · decide +kernel
  · decide +kernel

end Datagram

end Hypershunt
