import Mathlib.Algebra.Order.BigOperators.Group.Finset
import Hypershunt.Listener.DatagramGauge

/-!
# Sockets of datagram flows

A flow owns a socket to the upstream, and is held by the table and by its reply task. A sweep takes
an idle flow out of the table, but nothing tells the reply task: it waits for the upstream, which
may stay silent for good, and keeps the socket open (`swept_socket_stays_open`).

As long as no sweep drops a flow, the flow of every reply task is in the table
(`sockets_owned_of_noDrop`). The invariant `Owned` follows a flow from `get_or_create_flow`, where
it has no task yet, to the end of its task.
-/

namespace Hypershunt

namespace Datagram

open HashMap Function Finmap Finset Option

variable {n : ℕ} {timeout : Fin n → Duration} {s s' : State n} {e : Event n} {i : Fin n}
  {key : ClientKey} {flow : FlowId}

/-- The sockets that a reply task or a table holds while no datagram is being handled. -/
def State.sockets (s : State n) : Finset FlowId :=
  s.tasks.keys ∪ univ.biUnion fun i ↦ (s.tables i).flows.values.toFinset

/-- No step of a loop, a reply task or a sweep is half done. -/
def Quiet (s : State n) : Prop := ∀ i, (s.tables i).holder = none ∧ (s.tables i).arrival = none

instance (s : State n) : Decidable (Quiet s) := inferInstanceAs (Decidable (∀ _, _ ∧ _))

/-- Every reply task belongs to a flow that is in its table. -/
def TasksInTable (s : State n) : Prop :=
  ∀ flow i key, s.tasks.lookup flow = some (i, key) → (s.tables i).flows.lookup key = some flow

/-- The addresses that are going to be dropped. -/
def Holder.drops : Holder → Finset ClientKey
  | .sweep w => w.toDrop
  | .publish => ∅

/-- A sweep that ends has found no flow idle. -/
def NoDrop (s : State n) (e : Event n) : Prop :=
  ∀ i, e = .drop i → ∀ h ∈ (s.tables i).holder, h.drops = ∅

instance (s : State n) (e : Event n) : Decidable (NoDrop s e) :=
  inferInstanceAs (Decidable (∀ _, _ → _))

/-! ## Flows without a task -/

namespace Arrival

/-- The flow that is to get its reply task, and whether it is in the table already. -/
def pending : Arrival → Option (ClientKey × FlowId × Bool)
  | .built key flow => some (key, flow, false)
  | .inserted key flow => some (key, flow, true)
  | .found key flow true => some (key, flow, true)
  | .touched key flow true => some (key, flow, true)
  | _ => none

theorem pending_released (a : Arrival) : a.released.pending = a.pending := by
  rcases a with _ | _ | _ | _ | _ <;> rfl

end Arrival

/-- The flow that is waiting for its reply task at a table. -/
def State.pending (s : State n) (i : Fin n) : Option (ClientKey × FlowId × Bool) :=
  (s.tables i).arrival.bind Arrival.pending

/-- What the invariant sees of a state. -/
structure Owners (n : ℕ) where
  flows : Fin n → HashMap ClientKey FlowId
  pending : Fin n → Option (ClientKey × FlowId × Bool)
  tasks : HashMap FlowId (Fin n × ClientKey)
  nextFlow : FlowId

open Owners

def State.owners (s : State n) : Owners n :=
  ⟨fun i ↦ (s.tables i).flows, s.pending, s.tasks, s.nextFlow⟩

def Owners.setFlows (o : Owners n) (i : Fin n) (flows : HashMap ClientKey FlowId) : Owners n :=
  { o with flows := update o.flows i flows }

def Owners.setPending (o : Owners n) (i : Fin n) (p : Option (ClientKey × FlowId × Bool)) :
    Owners n :=
  { o with pending := update o.pending i p }

/-- What a step does to flows, tasks, and flows without a task. -/
inductive Move (s : State n) : Event n → Owners n → Prop
  | quiet (e : Event n) : Move s e s.owners
  /-- A flow that was pending, if any, is given up, or turns out to have its task. -/
  | discard (e : Event n) (i : Fin n) : Move s e (s.owners.setPending i none)
  | build (i : Fin n) (key : ClientKey) (hnone : s.pending i = none) :
      Move s (.build i true)
        { s.owners.setPending i (some (key, s.nextFlow, false)) with nextFlow := s.nextFlow + 1 }
  | insert (i : Fin n) (key : ClientKey) (flow : FlowId)
      (hpending : s.pending i = some (key, flow, false))
      (habsent : (s.tables i).flows.lookup key = none) :
      Move s (.insert i) ((s.owners.setFlows i ((s.tables i).flows.insert key flow)).setPending i
        (some (key, flow, true)))
  | spawn (i : Fin n) (key : ClientKey) (flow : FlowId)
      (hpending : s.pending i = some (key, flow, true)) :
      Move s (.forward i)
        { s.owners.setPending i none with tasks := s.tasks.insert flow (i, key) }
  | finish (i : Fin n) (key : ClientKey) (flow : FlowId)
      (htask : s.tasks.lookup flow = some (i, key)) :
      Move s (.replyEnd flow)
        { s.owners.setFlows i ((s.tables i).flows.erase key) with tasks := s.tasks.erase flow }
  | drop (i : Fin n) (w : Sweep) (hw : (s.tables i).holder = some (.sweep w)) :
      Move s (.drop i) (s.owners.setFlows i ((s.tables i).drop w))

open Move

theorem owners_setTable (s : State n) (i : Fin n) (t : Table) :
    (s.setTable i t).owners =
      (s.owners.setFlows i t.flows).setPending i (t.arrival.bind Arrival.pending) := by
  have hflows : (fun j ↦ ((s.setTable i t).tables j).flows) =
      update (fun i ↦ (s.tables i).flows) i t.flows := by
    funext j
    exact apply_update (fun _ ↦ Table.flows) s.tables i t j
  have hpending : (s.setTable i t).pending =
      update s.pending i (t.arrival.bind Arrival.pending) := by
    funext j
    exact apply_update (fun _ (t : Table) ↦ t.arrival.bind Arrival.pending) s.tables i t j
  rw [State.owners, hflows, hpending]
  rfl

theorem Owners.setFlows_self (s : State n) (i : Fin n) :
    s.owners.setFlows i (s.tables i).flows = s.owners := by
  rw [setFlows]
  exact congrArg (mk · _ _ _) (update_eq_self i s.owners.flows)

theorem Owners.setPending_self (o : Owners n) (i : Fin n) : o.setPending i (o.pending i) = o := by
  rw [setPending, update_eq_self]

theorem owners_setArrival (s : State n) (i : Fin n) (a : Option Arrival) :
    (s.setArrival i a).owners = s.owners.setPending i (a.bind Arrival.pending) := by
  rw [State.setArrival, owners_setTable, setFlows_self]

theorem owners_setTable_of_eq {t : Table} (h : t.arrival.bind Arrival.pending = s.pending i) :
    (s.setTable i t).owners = s.owners.setFlows i t.flows := by
  rw [owners_setTable, h]
  exact setPending_self (s.owners.setFlows i t.flows) i

theorem owners_setFlows (s : State n) (i : Fin n) (flows : HashMap ClientKey FlowId)
    (holder : Option Holder) :
    (s.setTable i ⟨flows, holder, (s.tables i).arrival⟩).owners = s.owners.setFlows i flows :=
  (owners_setTable s i _).trans (setPending_self (s.owners.setFlows i flows) i)

theorem owners_setHolder (s : State n) (i : Fin n) (h : Option Holder) :
    (s.setHolder i h).owners = s.owners :=
  (owners_setFlows s i (s.tables i).flows h).trans (setFlows_self s i)

theorem pending_of_arrival {a : Arrival} (h : (s.tables i).arrival = some a) :
    s.pending i = a.pending := by
  rw [State.pending, h, bind_some]

theorem Move.of_eq {o : Owners n} (hmove : Move s e o) (h : s'.owners = o) : Move s e s'.owners :=
  h ▸ hmove

theorem move_build {ok : Bool} (h : step timeout s (.build i ok) = some s') :
    Move s (.build i ok) s'.owners := by
  simp only [step] at h
  split at h
  · rename_i key harrival
    split_ifs at h with hok
    · obtain rfl := some.inj h
      subst hok
      exact (build i key (pending_of_arrival harrival)).of_eq
        (congrArg (fun o : Owners n ↦ { o with nextFlow := s.nextFlow + 1 })
          (owners_setArrival s i (some (.built key s.nextFlow))))
    · obtain rfl := some.inj h
      exact (discard _ i).of_eq (owners_setArrival s i _)
  · cases h

theorem move_insert (h : step timeout s (.insert i) = some s') : Move s (.insert i) s'.owners := by
  simp only [step] at h
  split at h
  · rename_i key flow harrival hfree
    split at h
    · obtain rfl := some.inj h
      exact (discard _ i).of_eq (owners_setArrival s i _)
    · rename_i habsent
      obtain rfl := some.inj h
      exact (insert i key flow (pending_of_arrival harrival) habsent).of_eq
        (owners_setTable s i _)
  · cases h

theorem move_touch (h : step timeout s (.touch i) = some s') : Move s (.touch i) s'.owners := by
  simp only [step] at h
  split at h
  · rename_i key flow fresh harrival
    obtain rfl := some.inj h
    have hsame : (Arrival.touched key flow fresh).pending = s.pending i := by
      rw [pending_of_arrival harrival]
      rcases fresh with _ | _ <;> rfl
    refine (quiet _).of_eq ?_
    exact (owners_setArrival s i (some (.touched key flow fresh))).trans
      ((congrArg (s.owners.setPending i) hsame).trans (setPending_self s.owners i))
  · cases h

theorem move_forward (h : step timeout s (.forward i) = some s') :
    Move s (.forward i) s'.owners := by
  simp only [step] at h
  split at h
  · rename_i key flow fresh harrival
    obtain rfl := some.inj h
    rcases fresh with _ | _
    · exact (discard _ i).of_eq (owners_setArrival s i none)
    · exact (spawn i key flow (pending_of_arrival harrival)).of_eq
        (congrArg (fun o : Owners n ↦ { o with tasks := s.tasks.insert flow (i, key) })
          (owners_setArrival s i none))
  · cases h

theorem move_replyEnd (h : step timeout s (.replyEnd flow) = some s') :
    Move s (.replyEnd flow) s'.owners := by
  simp only [step] at h
  split at h
  · rename_i i key htask
    split at h
    · obtain rfl := some.inj h
      exact (finish i key flow htask).of_eq
        (congrArg (fun o : Owners n ↦ { o with tasks := s.tasks.erase flow })
          (owners_setFlows s i ((s.tables i).flows.erase key) (some .publish)))
    · cases h
  · cases h

theorem move_drop (h : step timeout s (.drop i) = some s') : Move s (.drop i) s'.owners := by
  simp only [step] at h
  split at h
  · rename_i w hw
    split at h
    · obtain rfl := some.inj h
      exact (drop i w hw).of_eq (owners_setFlows s i ((s.tables i).drop w) _)
    · cases h
  · cases h

theorem move_publish (h : step timeout s (.publish i) = some s') :
    Move s (.publish i) s'.owners := by
  simp only [step] at h
  split at h
  · obtain rfl := some.inj h
    have hsame : ((s.tables i).arrival.map Arrival.released).bind Arrival.pending =
        s.pending i := by
      rw [State.pending]
      rcases (s.tables i).arrival with _ | a
      · rfl
      · exact a.pending_released
    exact (quiet _).of_eq ((owners_setTable_of_eq hsame).trans (setFlows_self s i))
  · cases h

theorem step_move (h : step timeout s e = some s') : Move s e s'.owners := by
  cases e with
  | build i ok => exact move_build h
  | insert i => exact move_insert h
  | touch i => exact move_touch h
  | forward i => exact move_forward h
  | replyEnd flow => exact move_replyEnd h
  | drop i => exact move_drop h
  | publish i => exact move_publish h
  | recv i key =>
    simp only [step] at h
    split at h
    · -- known or not, the address has no flow that waits for its task
      split at h <;> obtain rfl := some.inj h <;>
        exact (discard _ i).of_eq (owners_setArrival s i _)
    · cases h
  | sweep i now | look i key =>
    simp only [step] at h
    split at h
    · split_ifs at h
      obtain rfl := some.inj h
      exact (quiet _).of_eq (owners_setHolder s i _)
    · cases h
  | _ =>
    -- the other events touch neither a table nor a task
    simp only [step] at h
    try split_ifs at h
    obtain rfl := some.inj h
    exact .quiet _

/-! ## The invariant -/

variable {o : Owners n} {j : Fin n} {flow' : FlowId} {key' : ClientKey}

/-- The flow waits for its reply task at table `i`. -/
def Owners.Waits (o : Owners n) (i : Fin n) (flow : FlowId) : Prop :=
  ∃ key b, o.pending i = some (key, flow, b)

theorem Owners.pending_setPending (p : Option (ClientKey × FlowId × Bool)) :
    (o.setPending i p).pending j = if j = i then p else o.pending j :=
  update_apply o.pending i p j

theorem Owners.lookup_setFlows (m : HashMap ClientKey FlowId) :
    ((o.setFlows i m).flows j).lookup key =
      if j = i then m.lookup key else (o.flows j).lookup key := by
  have hflows : (o.setFlows i m).flows j = if j = i then m else o.flows j :=
    update_apply o.flows i m j
  rw [hflows]
  split <;> rfl

theorem Owners.Waits.of_setPending {p : Option (ClientKey × FlowId × Bool)}
    (h : (o.setPending i p).Waits j flow) :
    j = i ∧ (∃ key b, p = some (key, flow, b)) ∨ j ≠ i ∧ o.Waits j flow := by
  obtain ⟨key, b, hp⟩ := h
  rw [pending_setPending] at hp
  split_ifs at hp with hj
  · exact .inl ⟨hj, key, b, hp⟩
  · exact .inr ⟨hj, key, b, hp⟩

/-- The flows of tasks and inserted waiting flows are in the table; a waiting flow has no task, and
waits at one table only. -/
structure Owned (o : Owners n) : Prop where
  task : ∀ {flow i key}, o.tasks.lookup flow = some (i, key) → (o.flows i).lookup key = some flow
  task_lt : ∀ {flow}, flow ∈ o.tasks → flow < o.nextFlow
  inserted : ∀ {i key flow}, o.pending i = some (key, flow, true) →
    (o.flows i).lookup key = some flow
  waits_lt : ∀ {i flow}, o.Waits i flow → flow < o.nextFlow
  noTask : ∀ {i flow}, o.Waits i flow → flow ∉ o.tasks
  unique : ∀ {i j flow}, o.Waits i flow → o.Waits j flow → i = j

theorem owned_init (now : Instant) : Owned (State.init n now).owners where
  task h := nomatch h
  task_lt h := absurd h notMem_empty
  inserted h := nomatch h
  waits_lt := fun ⟨_, _, h⟩ ↦ nomatch h
  noTask := fun ⟨_, _, h⟩ ↦ nomatch h
  unique := fun ⟨_, _, h⟩ ↦ nomatch h

theorem Owned.discard (h : Owned o) (i : Fin n) : Owned (o.setPending i none) := by
  have hold : ∀ {j flow}, (o.setPending i none).Waits j flow → o.Waits j flow := by
    intro j flow hwaits
    rcases hwaits.of_setPending with ⟨-, _, _, hp⟩ | ⟨-, hwaits⟩
    · exact nomatch hp
    · exact hwaits
  refine ⟨h.task, h.task_lt, fun hp ↦ ?_, fun hw ↦ h.waits_lt (hold hw),
    fun hw ↦ h.noTask (hold hw), fun hw hw' ↦ h.unique (hold hw) (hold hw')⟩
  rw [pending_setPending] at hp
  split_ifs at hp
  exact h.inserted hp

/-- A new flow has a new number. -/
theorem Owned.build (h : Owned o) (i : Fin n) (key : ClientKey) :
    Owned { o.setPending i (some (key, o.nextFlow, false)) with nextFlow := o.nextFlow + 1 } := by
  have hold : ∀ {j flow}, (o.setPending i (some (key, o.nextFlow, false))).Waits j flow →
      j = i ∧ flow = o.nextFlow ∨ o.Waits j flow ∧ flow < o.nextFlow := by
    intro j flow hwaits
    rcases hwaits.of_setPending with ⟨rfl, key', b, hp⟩ | ⟨-, hwaits⟩
    · obtain ⟨-, rfl, -⟩ : key = key' ∧ o.nextFlow = flow ∧ false = b := by simpa using hp
      exact .inl ⟨rfl, rfl⟩
    · exact .inr ⟨hwaits, h.waits_lt hwaits⟩
  refine ⟨h.task, fun hf ↦ (h.task_lt hf).trans (Nat.lt_succ_self _), fun hp ↦ ?_, fun hw ↦ ?_,
    fun hw hf ↦ ?_, fun hw hw' ↦ ?_⟩
  · rw [pending_setPending] at hp
    split_ifs at hp
    · simp at hp
    · exact h.inserted hp
  · rcases hold hw with ⟨-, rfl⟩ | ⟨-, hlt⟩
    · exact Nat.lt_succ_self _
    · exact hlt.trans (Nat.lt_succ_self _)
  · rcases hold hw with ⟨-, rfl⟩ | ⟨hwaits, -⟩
    · exact absurd (h.task_lt hf) (Nat.lt_irrefl _)
    · exact h.noTask hwaits hf
  · rcases hold hw with ⟨rfl, rfl⟩ | ⟨hwaits, hlt⟩
    · rcases hold hw' with ⟨rfl, -⟩ | ⟨-, hlt'⟩
      · rfl
      · exact absurd hlt' (Nat.lt_irrefl _)
    · rcases hold hw' with ⟨-, rfl⟩ | ⟨hwaits', -⟩
      · exact absurd hlt (Nat.lt_irrefl _)
      · exact h.unique hwaits hwaits'

theorem Owned.insert (h : Owned o) (hpending : o.pending i = some (key, flow, false))
    (habsent : (o.flows i).lookup key = none) :
    Owned ((o.setFlows i ((o.flows i).insert key flow)).setPending i (some (key, flow, true))) := by
  have hold : ∀ {j flow'}, (o.setPending i (some (key, flow, true))).Waits j flow' →
      o.Waits j flow' := by
    intro j flow' hwaits
    rcases hwaits.of_setPending with ⟨rfl, key', b, hp⟩ | ⟨-, hwaits⟩
    · obtain ⟨-, rfl, -⟩ : key = key' ∧ flow = flow' ∧ true = b := by simpa using hp
      exact ⟨key, false, hpending⟩
    · exact hwaits
  -- What was in a table still is.
  have hkeep : ∀ {j key' flow'}, (o.flows j).lookup key' = some flow' →
      ((o.setFlows i ((o.flows i).insert key flow)).flows j).lookup key' = some flow' := by
    intro j key' flow' hlookup
    rw [lookup_setFlows, lookup_insert_ite]
    split_ifs with hj hkey
    · rw [hj, hkey, habsent] at hlookup
      exact nomatch hlookup
    · rw [← hj, hlookup]
    · exact hlookup
  refine ⟨fun ht ↦ hkeep (h.task ht), h.task_lt, fun {j key' flow'} hp ↦ ?_, fun hw ↦ h.waits_lt
    (hold hw), fun hw ↦ h.noTask (hold hw), fun hw hw' ↦ h.unique (hold hw) (hold hw')⟩
  have hp' : (if j = i then some (key, flow, true) else o.pending j) = some (key', flow', true) :=
    (pending_setPending _).symm.trans hp
  split_ifs at hp' with hj
  · obtain ⟨rfl, rfl⟩ : key = key' ∧ flow = flow' := by simpa using hp'
    refine (lookup_setFlows _).trans ?_
    rw [if_pos hj, lookup_insert_ite, if_pos rfl]
  · exact hkeep (h.inserted hp')

theorem Owned.spawn (h : Owned o) (hpending : o.pending i = some (key, flow, true)) :
    Owned { o.setPending i none with tasks := o.tasks.insert flow (i, key) } := by
  have hwaits : o.Waits i flow := ⟨key, true, hpending⟩
  have hold : ∀ {j flow'}, (o.setPending i none).Waits j flow' → o.Waits j flow' ∧ j ≠ i := by
    intro j flow' hw
    rcases hw.of_setPending with ⟨-, _, _, hp⟩ | ⟨hj, hw⟩
    · exact nomatch hp
    · exact ⟨hw, hj⟩
  refine ⟨fun ht ↦ ?_, fun hf ↦ ?_, (h.discard i).inserted, fun hw ↦ h.waits_lt (hold hw).1,
    fun hw hf ↦ ?_, fun hw hw' ↦ h.unique (hold hw).1 (hold hw').1⟩
  · rcases of_lookup_insert ht with ⟨rfl, heq⟩ | ht
    · cases heq
      exact h.inserted hpending
    · exact h.task ht
  · rcases mem_insert.mp hf with rfl | hf
    · exact h.waits_lt hwaits
    · exact h.task_lt hf
  · rcases mem_insert.mp hf with rfl | hf
    · exact (hold hw).2 (h.unique (hold hw).1 hwaits)
    · exact h.noTask (hold hw).1 hf

/-- The end of a task takes its own flow out of the table, and no other. -/
theorem Owned.finish (h : Owned o) (htask : o.tasks.lookup flow = some (i, key)) :
    Owned { o.setFlows i ((o.flows i).erase key) with tasks := o.tasks.erase flow } := by
  have hkeep : ∀ {j key' flow'}, (o.flows j).lookup key' = some flow' → flow' ≠ flow →
      ((o.setFlows i ((o.flows i).erase key)).flows j).lookup key' = some flow' := by
    intro j key' flow' hlookup hne
    rw [lookup_setFlows, lookup_erase_ite]
    split_ifs with hj hkey
    · rw [hj, hkey, h.task htask] at hlookup
      exact absurd (some.inj hlookup).symm hne
    · rw [← hj, hlookup]
    · exact hlookup
  have hmem : flow ∈ o.tasks := mem_of_lookup_eq_some htask
  refine ⟨fun ht ↦ ?_, fun hf ↦ h.task_lt (mem_erase.mp hf).2, fun hp ↦ ?_, h.waits_lt,
    fun hw hf ↦ h.noTask hw (mem_erase.mp hf).2, h.unique⟩
  · obtain ⟨hne, ht⟩ := of_lookup_erase ht
    exact hkeep (h.task ht) hne
  · refine hkeep (h.inserted hp) ?_
    rintro rfl
    exact h.noTask ⟨_, _, hp⟩ hmem

theorem Table.drop_of_empty (t : Table) {w : Sweep} (hw : w.toDrop = ∅) : t.drop w = t.flows := by
  refine ext_lookup fun key ↦ ?_
  rw [Table.drop, lookup_retain, hw]
  rcases t.flows.lookup key with _ | flow
  · rfl
  · simp

theorem Owned.step (h : Owned s.owners) (hguard : NoDrop s e)
    (hstep : step timeout s e = some s') : Owned s'.owners := by
  have hmove := step_move hstep
  generalize s'.owners = o at hmove ⊢
  rcases hmove with _ | ⟨_, i⟩ | ⟨i, key, -⟩ | ⟨i, key, flow, hpending, habsent⟩ |
    ⟨i, key, flow, hpending⟩ | ⟨i, key, flow, htask⟩ | ⟨i, w, hw⟩
  · exact h
  · exact h.discard i
  · exact h.build i key
  · exact h.insert hpending habsent
  · exact h.spawn hpending
  · exact h.finish htask
  · rw [Table.drop_of_empty _ (hguard i rfl _ hw), setFlows_self]
    exact h

/-! ## Open sockets -/

/-- If every task belongs to a flow in a table, there are no more sockets than flows. -/
theorem TasksInTable.card_sockets (h : TasksInTable s) : s.sockets.card ≤ s.flowCount := by
  have hsubset : s.tasks.keys ⊆ univ.biUnion fun i ↦ (s.tables i).flows.values.toFinset := by
    intro flow hflow
    obtain ⟨⟨i, key⟩, htask⟩ := mem_iff.mp (mem_keys.mp hflow)
    refine mem_biUnion.mpr ⟨i, mem_univ i, Multiset.mem_toFinset.mpr ?_⟩
    exact mem_values.mpr ⟨key, h flow i key htask⟩
  calc s.sockets.card
      = (univ.biUnion fun i ↦ (s.tables i).flows.values.toFinset).card := by
        rw [State.sockets, union_eq_right.mpr hsubset]
    _ ≤ ∑ i, (s.tables i).flows.values.toFinset.card := card_biUnion_le
    _ ≤ s.flowCount := sum_le_sum fun i _ ↦
        (Multiset.toFinset_card_le _).trans_eq card_values

/-- In every run in which no sweep drops a flow, whenever nothing is half done, every reply task's
flow is in its table, and there are no more open sockets than flows there. -/
theorem sockets_owned_of_noDrop (timeout : Fin n → Duration) (now : Instant) (es : List (Event n))
    (hguard : AllSteps (step timeout) NoDrop (State.init n now) es) :
    Always (step timeout) (fun s ↦ Quiet s → TasksInTable s ∧ s.sockets.card ≤ s.flowCount)
      (State.init n now) es := by
  have hinv : Always (step timeout) (fun s ↦ Owned s.owners) (State.init n now) es :=
    always_of_allSteps (owned_init now) (fun _ _ _ h hok hstep ↦ h.step hok hstep) hguard
  refine hinv.mono fun s h _ ↦ ?_
  have htasks : TasksInTable s := fun flow i key ht ↦ h.task ht
  exact ⟨htasks, htasks.card_sockets⟩

/-- A client, whose flow is used and then swept over before it is idle. -/
private def sweptInTime : List (Event 1) :=
  let i : Fin 1 := ⟨0, Nat.one_pos⟩
  newFlow i someClient ++ [.pass 20, .reply 0, .pass 20, .sweep i 40, .look i someClient, .drop i]

theorem sockets_owned_sweptInTime :
    ∃ s, run (step fun _ ↦ 30) (State.init 1 0) sweptInTime = some s ∧
      TasksInTable s ∧ s.sockets.card ≤ s.flowCount ∧ s.tasks.lookup 0 = some (0, someClient) := by
  have hany : (run (step fun _ ↦ 30) (State.init 1 0) sweptInTime).any (fun s ↦
      decide (Quiet s ∧ s.tasks.lookup 0 = some (0, someClient))) = true := by decide +kernel
  obtain ⟨s, hs, h⟩ := (any_eq_true _ _).mp hany
  obtain ⟨hquiet, htask⟩ := of_decide_eq_true h
  have hguard : AllSteps (step fun _ ↦ 30) NoDrop (State.init 1 0) sweptInTime :=
    allSteps_of_checkSteps (by decide +kernel)
  obtain ⟨htasks, hcard⟩ := (sockets_owned_of_noDrop _ 0 sweptInTime hguard).final hs hquiet
  exact ⟨s, hs, htasks, hcard, htask⟩

/-- The upstream stays silent. The sweep empties the table, and the task keeps its socket. -/
theorem swept_socket_stays_open :
    (run (step fun _ ↦ 30) (State.init 1 0) (newFlow 0 someClient ++
        [.pass 30, .sweep 0 30, .look 0 someClient, .drop 0, .publish 0])).any (fun s ↦
      decide (Quiet s ∧ s.tasks.lookup 0 = some (0, someClient) ∧
        (s.tables 0).flows.lookup someClient = none ∧ s.flowCount < s.sockets.card)) = true := by
  decide +kernel

end Datagram

end Hypershunt
