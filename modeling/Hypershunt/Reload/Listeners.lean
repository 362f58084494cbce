import Hypershunt.Foundation.HashMap
import Hypershunt.Foundation.Run
import Mathlib.Data.List.Sort
import Mathlib.Data.String.Basic

/-!
# Listeners across reloads

A reload (`reload.rs`) stops the listeners that are gone from the configuration and spawns a build
task for each new one. A build (`reload/builders.rs`) prepares its listener, and registers the
handles of its helper tasks and the channel on which it can be told to stop, each in a map under the
address of the listener. By then the reload has returned, and others may have followed.

So a listener can be removed before it has registered anything. The reload then finds nothing to
stop, and the build goes on to start a listener that is not in the configuration. It can also be
removed while a helper task is running. The reload aborts the handle, which is that of a supervisor
(`spawn_supervised` of `task.rs`); the task itself is detached by that and runs on. And a build that
fails after its ACME task was spawned drops the handle, so nothing can reach the task any more.

`stopped_always` says that nothing else goes wrong.

## Steps

The reload holds no lock for longer than one access to one of the maps, and neither does a build. An
event is such an access, with what precedes it in the same task; builds and the reload interleave in
any way. Reloads follow one another, and only applied ones are considered. Startup builds its
listeners with the same functions, so it is a reload from no listeners at all.

## The invariant

At any time an address belongs to one owner at most: a build that is still to be spawned, a build,
or a listener that has not been told to stop. The first two are wanted, that is, in the
configuration that was applied last. The third is wanted, or on the list of those to be stopped, and
the channel registered under its address is its own.
-/

namespace Hypershunt

open List Option

namespace Listeners

open HashMap Finmap

/-! ## Listeners and their builders -/

/-- A listener, as far as its builder depends on it; `bind` is the URL form of its address. -/
structure ListenerConfig where
  bind : String
  byteStream : Bool
  tls : Bool
  proxy : Bool
  deriving DecidableEq

inductive Builder
  | plain
  | tls
  | quic
  | stream (tls : Bool)
  | dgramProxy
  deriving DecidableEq

/-- `none` for the combinations that validation rejects. -/
def ListenerConfig.builder (cfg : ListenerConfig) : Option Builder :=
  match cfg.byteStream, cfg.tls, cfg.proxy with
  | true, tls, true => some (.stream tls)
  | true, true, false => some .tls
  | true, false, false => some .plain
  | false, true, false => some .quic
  | false, false, true => some .dgramProxy
  | false, _, _ => none

/-- How far a build has come: its certificate source, maybe with an ACME task; its helpers. -/
inductive Stage
  | begun
  | sourced (acme : Option ℕ)
  | registered
  deriving DecidableEq

structure Build where
  id : ℕ
  cfg : ListenerConfig
  stage : Stage
  deriving DecidableEq

namespace Build

/-- The next step is `build_cert_source`. -/
def awaitsCert (b : Build) : Bool :=
  match b.cfg.builder, b.stage with
  | some .tls, .begun => true
  | some .quic, .begun => true
  | some (.stream true), .begun => true
  | _, _ => false

/-- A fallible step other than `build_cert_source` lies ahead, before the next access to a map. -/
def mayFail (b : Build) : Bool :=
  match b.cfg.builder, b.stage with
  | some .tls, .sourced _ => true
  | some .quic, .sourced _ => true
  | some (.stream true), .registered => true
  | some (.stream false), .begun => true
  | none, _ => true
  | _, _ => false

/-- The next access is the registration of the stop channel. -/
def awaitsStop (b : Build) : Bool :=
  match b.cfg.builder, b.stage with
  | some .plain, .begun => true
  | some .dgramProxy, .begun => true
  | some (.stream false), .begun => true
  | some _, .registered => true
  | _, _ => false

end Build

/-! ## The server -/

/-- What a reload still has to do. -/
inductive Todo
  | stop (bind : String)
  | abort (bind : String)
  | spawn (cfg : ListenerConfig)
  deriving DecidableEq

/-- A reload past its last fallible step. -/
structure Applying where
  next : List ListenerConfig
  todo : List Todo

structure Server where
  current : List ListenerConfig
  /-- The listeners by the channel they were given. -/
  stopTxs : HashMap String ℕ
  helpers : HashMap String (List ℕ)
  /-- The listeners that have not been told to stop, with their addresses. -/
  accepting : HashMap ℕ String
  /-- The helper tasks that are running, with the addresses of their listeners. -/
  tasks : HashMap ℕ String
  /-- The helper tasks whose supervisor is still there. -/
  supervisors : Finset ℕ
  builds : List Build
  applying : Option Applying
  nextId : ℕ

inductive Event
  /-- A reload has taken its last fallible step. -/
  | reload (next : List ListenerConfig)
  /-- The next step of that reload. -/
  | proceed
  /-- `build_cert_source` returns; on success, whether it has spawned an ACME task. -/
  | certSource (build : ℕ) (acme : Option Bool)
  | fail (build : ℕ)
  /-- The helpers are registered, with a CRL watcher and an OCSP task or without. -/
  | registerHelpers (build : ℕ) (crl ocsp : Bool)
  | registerStop (build : ℕ)
  | helperEnds (task : ℕ)

def binds (cfgs : List ListenerConfig) : List String := cfgs.map ListenerConfig.bind

/-- The map from addresses that `diff_listeners` collects: the last entry for each. -/
def byKey : List ListenerConfig → List ListenerConfig
  | [] => []
  | cfg :: cfgs => if cfg.bind ∈ binds cfgs then byKey cfgs else cfg :: byKey cfgs

def removed (old new : List ListenerConfig) : List String :=
  ((binds old).dedup.filter fun b ↦ decide (b ∉ binds new)).insertionSort (· ≤ ·)

def added (old new : List ListenerConfig) : List ListenerConfig :=
  ((byKey new).filter fun cfg ↦ decide (cfg.bind ∉ binds old)).insertionSort fun c d ↦
    c.bind ≤ d.bind

def todoOf (old new : List ListenerConfig) : List Todo :=
  (removed old new).flatMap (fun b ↦ [.stop b, .abort b]) ++ (added old new).map .spawn

namespace Server

def build? (s : Server) (id : ℕ) : Option Build := s.builds.find? fun b ↦ b.id = id

/-- A helper task is spawned, under the number `s.nextId`. -/
def spawnHelper (s : Server) (bind : String) : Server :=
  { s with
    tasks := s.tasks.insert s.nextId bind
    supervisors := insert s.nextId s.supervisors
    nextId := s.nextId + 1 }

def spawnHelpers (s : Server) (bind : String) : ℕ → Server
  | 0 => s
  | n + 1 => (s.spawnHelper bind).spawnHelpers bind n

def setStage (s : Server) (b : Build) (stage : Stage) : Server :=
  { s with builds := s.builds.map fun b' ↦ if b'.id = b.id then { b' with stage } else b' }

/-- The build task ends, or goes on as the accept loop. -/
def finish (s : Server) (b : Build) : Server :=
  { s with builds := s.builds.filter fun b' ↦ decide (b'.id ≠ b.id) }

def certSource (s : Server) (b : Build) : Option Bool → Server
  | none => s.finish b
  | some false => s.setStage b (.sourced none)
  | some true => (s.spawnHelper b.cfg.bind).setStage b (.sourced (some s.nextId))

/-- `build_tls_listener_future` replaces the entry of its address, the other two add to it. -/
def registerHelpers (s : Server) (b : Build) (crl ocsp : Bool) : Option Server :=
  match b.cfg.builder, b.stage with
  | some .tls, .sourced acme =>
    let n := 1 + crl.toNat + ocsp.toNat
    let t := s.spawnHelpers b.cfg.bind n
    some ({ t with
      helpers := t.helpers.insert b.cfg.bind (acme.toList ++ List.range' s.nextId n)
      }.setStage b .registered)
  | some .quic, .sourced acme | some (.stream true), .sourced acme =>
    match acme with
    | none => some (s.setStage b .registered)
    | some task =>
      some ({ s with
        helpers := s.helpers.insert b.cfg.bind ((s.helpers.lookup b.cfg.bind).getD [] ++ [task])
        }.setStage b .registered)
  | _, _ => none

def registerStop (s : Server) (b : Build) : Server :=
  { s.finish b with
    stopTxs := s.stopTxs.insert b.cfg.bind s.nextId
    accepting := s.accepting.insert s.nextId b.cfg.bind
    nextId := s.nextId + 1 }

def stop (s : Server) (bind : String) : Server :=
  { s with
    stopTxs := s.stopTxs.erase bind
    accepting := (s.stopTxs.lookup bind).elim s.accepting s.accepting.erase }

/-- Aborting the handles reaches the supervisors. -/
def abort (s : Server) (bind : String) : Server :=
  { s with
    helpers := s.helpers.erase bind
    supervisors := s.supervisors \ ((s.helpers.lookup bind).getD []).toFinset }

def proceed (s : Server) (a : Applying) : Server :=
  match a.todo with
  | [] => { s with current := a.next, applying := none }
  | .stop bind :: todo => { s.stop bind with applying := some { a with todo } }
  | .abort bind :: todo => { s.abort bind with applying := some { a with todo } }
  | .spawn cfg :: todo =>
    { s with
      builds := s.builds ++ [⟨s.nextId, cfg, .begun⟩]
      applying := some { a with todo }
      nextId := s.nextId + 1 }

def step (s : Server) : Event → Option Server
  | .reload next =>
    if s.applying.isNone then some { s with applying := some ⟨next, todoOf s.current next⟩ }
    else none
  | .proceed => s.applying.map s.proceed
  | .certSource id acme =>
    (s.build? id).bind fun b ↦ if b.awaitsCert then some (s.certSource b acme) else none
  | .fail id => (s.build? id).bind fun b ↦ if b.mayFail then some (s.finish b) else none
  | .registerHelpers id crl ocsp => (s.build? id).bind fun b ↦ s.registerHelpers b crl ocsp
  | .registerStop id =>
    (s.build? id).bind fun b ↦ if b.awaitsStop then some (s.registerStop b) else none
  | .helperEnds task =>
    some { s with tasks := s.tasks.erase task, supervisors := s.supervisors.erase task }

/-- Before startup. -/
def boot : Server := ⟨[], ∅, ∅, ∅, ∅, ∅, [], none, 0⟩

/-- Every listener not told to stop is in the configuration, and so are the helpers' listeners. -/
structure Stopped (s : Server) : Prop where
  listeners : ∀ bind ∈ s.accepting.values, bind ∈ binds s.current
  registered : ∀ bind ∈ s.helpers.keys, bind ∈ binds s.current
  running : ∀ bind ∈ s.tasks.values, bind ∈ binds s.current

/-- No reload is going on, and all builds have finished. -/
def Settled (s : Server) : Prop := s.applying.isNone = true ∧ s.builds = []

instance (s : Server) : Decidable s.Settled :=
  inferInstanceAs (Decidable (s.applying.isNone = true ∧ s.builds = []))

/-- A listener is removed only when its build has finished and none of its helper tasks runs. -/
def Considerate (s : Server) : Event → Prop
  | .reload next =>
    ∀ bind ∈ removed s.current next,
      bind ∉ s.builds.map (fun b ↦ b.cfg.bind) ∧ bind ∉ s.tasks.values
  | _ => True

instance (s : Server) : DecidablePred s.Considerate
  | .reload next =>
    inferInstanceAs (Decidable (∀ bind ∈ removed s.current next,
      bind ∉ s.builds.map (fun b ↦ b.cfg.bind) ∧ bind ∉ s.tasks.values))
  | .proceed => .isTrue trivial
  | .certSource _ _ => .isTrue trivial
  | .fail _ => .isTrue trivial
  | .registerHelpers _ _ _ => .isTrue trivial
  | .registerStop _ => .isTrue trivial
  | .helperEnds _ => .isTrue trivial

/-! ## Owners of addresses -/

variable {s t : Server} {b : Build} {bind : String}

def todo (s : Server) : List Todo := s.applying.elim [] Applying.todo

/-- The addresses of the configuration that was applied last. -/
def wanted (s : Server) : List String := binds (s.applying.elim s.current Applying.next)

end Server

def Todo.spawned : Todo → Option String
  | .spawn cfg => some cfg.bind
  | _ => none

namespace Server

variable {s t : Server} {b : Build} {bind : String} {old new : List ListenerConfig}
  {cfgs : List ListenerConfig}

/-- The addresses of builds that are spawned or about to be. -/
def pending (s : Server) : List String :=
  s.todo.filterMap Todo.spawned ++ s.builds.map fun b ↦ b.cfg.bind

def owners (s : Server) : Multiset String := s.pending + s.accepting.values

structure Inv (s : Server) : Prop where
  fresh : ∀ id ∈ s.accepting, id < s.nextId
  nodup_owners : s.owners.Nodup
  pending : ∀ bind ∈ s.pending, bind ∈ s.wanted
  accepting : ∀ bind ∈ s.accepting.values, bind ∈ s.wanted ∨ .stop bind ∈ s.todo
  channel : ∀ id bind, s.accepting.lookup id = some bind → s.stopTxs.lookup bind = some id
  registered : ∀ bind ∈ s.helpers.keys, bind ∈ s.wanted ∨ .abort bind ∈ s.todo
  running : ∀ bind ∈ s.tasks.values, bind ∈ s.wanted

theorem inv_boot : boot.Inv where
  fresh _ hid := absurd hid notMem_empty
  nodup_owners := Multiset.nodup_zero
  pending := nofun
  accepting := nofun
  channel := nofun
  registered := nofun
  running := nofun

theorem wanted_of_applying {a : Applying} (h : s.applying = some a) : s.wanted = binds a.next := by
  rw [wanted, h]
  rfl

theorem todo_of_applying {a : Applying} (h : s.applying = some a) : s.todo = a.todo := by
  rw [todo, h]
  rfl

theorem stopped_of_inv (hs : s.Inv) (happlying : s.applying.isNone = true) : s.Stopped := by
  rw [isNone_iff_eq_none] at happlying
  have hwanted : s.wanted = binds s.current := by rw [wanted, happlying]; rfl
  have htodo : s.todo = [] := by rw [todo, happlying]; rfl
  refine ⟨fun bind h ↦ ?_, fun bind h ↦ ?_, fun bind h ↦ hwanted ▸ hs.running bind h⟩
  · rcases hs.accepting bind h with hw | hstop
    · exact hwanted ▸ hw
    · rw [htodo] at hstop
      exact absurd hstop not_mem_nil
  · rcases hs.registered bind h with hw | habort
    · exact hwanted ▸ hw
    · rw [htodo] at habort
      exact absurd habort not_mem_nil

/-! ## Steps of a build -/

/-- What a build does before it registers its channel concerns its own address only. -/
theorem Inv.of_build (hs : s.Inv) (hwanted : t.wanted = s.wanted) (htodo : t.todo = s.todo)
    (haccepting : t.accepting = s.accepting)
    (hstop : t.stopTxs = s.stopTxs) (hnext : s.nextId ≤ t.nextId)
    (hpending : List.Sublist t.pending s.pending)
    (hhelpers : ∀ bind ∈ t.helpers.keys, bind ∈ s.helpers.keys ∨ bind ∈ s.pending)
    (htasks : ∀ bind ∈ t.tasks.values, bind ∈ s.tasks.values ∨ bind ∈ s.pending) : t.Inv := by
  have howners : t.owners ≤ s.owners := by
    rw [owners, owners, haccepting]
    exact add_le_add_left (Multiset.coe_le.mpr hpending.subperm) _
  refine ⟨?_, Multiset.nodup_of_le howners hs.nodup_owners, ?_, ?_, ?_, ?_, ?_⟩
  · rw [haccepting]
    exact fun id hid ↦ (hs.fresh id hid).trans_le hnext
  · rw [hwanted]
    exact fun bind h ↦ hs.pending bind (hpending.subset h)
  · rw [haccepting, hwanted, htodo]
    exact hs.accepting
  · rw [haccepting, hstop]
    exact hs.channel
  · rw [hwanted, htodo]
    intro bind h
    rcases hhelpers bind h with h | h
    · exact hs.registered bind h
    · exact .inl (hs.pending bind h)
  · rw [hwanted]
    intro bind h
    rcases htasks bind h with h | h
    · exact hs.running bind h
    · exact hs.pending bind h

theorem mem_builds_of_build? {id : ℕ} (h : s.build? id = some b) : b ∈ s.builds :=
  mem_of_find?_eq_some h

theorem bind_mem_pending (hb : b ∈ s.builds) : b.cfg.bind ∈ s.pending :=
  mem_append_right _ (List.mem_map_of_mem hb)

@[simp] theorem pending_setStage (s : Server) (b : Build) (stage : Stage) :
    (s.setStage b stage).pending = s.pending := by
  rw [pending, pending, setStage, List.map_map]
  congr 1
  refine map_congr_left fun b' _ ↦ ?_
  rw [Function.comp_apply]
  split
  · rfl
  · rfl

theorem pending_finish_sublist (s : Server) (b : Build) :
    List.Sublist (s.finish b).pending s.pending :=
  (filter_sublist.map _).append_left _

theorem inv_finish (hs : s.Inv) (b : Build) : (s.finish b).Inv :=
  hs.of_build rfl rfl rfl rfl le_rfl (pending_finish_sublist s b) (fun _ ↦ .inl) fun _ ↦ .inl

theorem inv_setStage (hs : s.Inv) (b : Build) (stage : Stage) : (s.setStage b stage).Inv := by
  refine hs.of_build rfl rfl rfl rfl le_rfl ?_ (fun _ ↦ .inl) fun _ ↦ .inl
  rw [pending_setStage]

theorem inv_spawnHelper (hs : s.Inv) (hbind : bind ∈ s.pending) : (s.spawnHelper bind).Inv := by
  refine hs.of_build rfl rfl rfl rfl (Nat.le_succ _) (List.Sublist.refl _) (fun _ ↦ .inl) ?_
  intro bind' h
  rcases mem_values_insert h with rfl | h
  · exact .inr hbind
  · exact .inl h

theorem inv_spawnHelpers (hs : s.Inv) (hbind : bind ∈ s.pending) (n : ℕ) :
    (s.spawnHelpers bind n).Inv := by
  induction n generalizing s with
  | zero => exact hs
  | succ n ih => exact ih (inv_spawnHelper hs hbind) hbind

theorem inv_insertHelpers (hs : s.Inv) (hbind : bind ∈ s.pending) (handles : List ℕ) :
    Inv { s with helpers := s.helpers.insert bind handles } := by
  refine hs.of_build rfl rfl rfl rfl le_rfl (List.Sublist.refl _) ?_ fun _ ↦ .inl
  intro bind' h
  rw [keys_insert, Finset.mem_insert] at h
  rcases h with rfl | h
  · exact .inr hbind
  · exact .inl h

theorem inv_certSource (hs : s.Inv) (hb : b ∈ s.builds) (acme : Option Bool) :
    (s.certSource b acme).Inv := by
  rcases acme with _ | _ | _
  · exact inv_finish hs b
  · exact inv_setStage hs b _
  · exact inv_setStage (inv_spawnHelper hs (bind_mem_pending hb)) b _

@[simp] theorem pending_spawnHelpers (s : Server) (bind : String) (n : ℕ) :
    (s.spawnHelpers bind n).pending = s.pending := by
  induction n generalizing s with
  | zero => rfl
  | succ n ih => exact ih _

theorem inv_registerHelpers {crl ocsp : Bool} (hs : s.Inv) (hb : b ∈ s.builds)
    (h : s.registerHelpers b crl ocsp = some t) : t.Inv := by
  have hpending := bind_mem_pending hb
  rw [registerHelpers] at h
  split at h
  · obtain rfl := some.inj h
    refine inv_setStage (inv_insertHelpers (inv_spawnHelpers hs hpending _) ?_ _) b _
    rwa [pending_spawnHelpers]
  · split at h
    · obtain rfl := some.inj h
      exact inv_setStage hs b _
    · obtain rfl := some.inj h
      exact inv_setStage (inv_insertHelpers hs hpending _) b _
  · split at h
    · obtain rfl := some.inj h
      exact inv_setStage hs b _
    · obtain rfl := some.inj h
      exact inv_setStage (inv_insertHelpers hs hpending _) b _
  · exact nomatch h

theorem owners_registerStop_le (hs : s.Inv) (hb : b ∈ s.builds) :
    (s.registerStop b).owners ≤ s.owners := by
  have hnotMem : s.nextId ∉ s.accepting := fun h ↦ lt_irrefl _ (hs.fresh _ h)
  have hrest : b ∉ (s.finish b).builds := by
    rw [finish, mem_filter]
    rintro ⟨-, h⟩
    exact of_decide_eq_true h rfl
  have hbuilds : List.Subperm (b :: (s.finish b).builds) s.builds :=
    cons_subperm_of_not_mem_of_mem hrest hb filter_sublist.subperm
  have hpending : List.Subperm (b.cfg.bind :: (s.finish b).pending) s.pending := by
    refine perm_middle.symm.subperm.trans ((subperm_append_left _).mpr ?_)
    exact Multiset.coe_le.mp (Multiset.map_le_map (Multiset.coe_le.mpr hbuilds))
  calc (s.registerStop b).owners
      = (s.finish b).pending + (b.cfg.bind ::ₘ s.accepting.values) := by
        rw [← values_insert_of_notMem hnotMem]
        rfl
    _ = (b.cfg.bind :: (s.finish b).pending : List String) + s.accepting.values := by
        rw [Multiset.add_cons, ← Multiset.cons_coe, Multiset.cons_add]
    _ ≤ s.owners := add_le_add_left (Multiset.coe_le.mpr hpending) _

theorem inv_registerStop (hs : s.Inv) (hb : b ∈ s.builds) : (s.registerStop b).Inv := by
  have hpending := bind_mem_pending hb
  have hdisjoint := (Multiset.nodup_add.mp hs.nodup_owners).2.2
  refine ⟨?_, Multiset.nodup_of_le (owners_registerStop_le hs hb) hs.nodup_owners, ?_, ?_, ?_,
    hs.registered, hs.running⟩
  · intro id hid
    rcases mem_insert.mp hid with rfl | hid
    · exact Nat.lt_succ_self _
    · exact (hs.fresh id hid).trans (Nat.lt_succ_self _)
  · exact fun bind h ↦ hs.pending bind ((pending_finish_sublist s b).subset h)
  · intro bind h
    rcases mem_values_insert h with rfl | h
    · exact .inl (hs.pending _ hpending)
    · exact hs.accepting bind h
  · intro id bind h
    rcases of_lookup_insert h with ⟨rfl, rfl⟩ | h
    · exact lookup_insert _
    · -- another listener has another address, since this one belonged to the build
      have hne : bind ≠ b.cfg.bind := by
        rintro rfl
        exact Multiset.disjoint_left.mp hdisjoint hpending (mem_values.mpr ⟨id, h⟩)
      exact (lookup_insert_of_ne _ hne).trans (hs.channel id bind h)

/-! ## Steps of a reload -/

section Proceed

variable {next : List ListenerConfig} {head : Todo} {rest : List Todo}

/-- A reload does the first thing on its list, which then is kept for nothing any more. -/
theorem Inv.of_proceed (hs : s.Inv) (hsapplying : s.applying = some ⟨next, head :: rest⟩)
    (htapplying : t.applying = some ⟨next, rest⟩) (hnext : s.nextId ≤ t.nextId)
    (hpending : List.Perm t.pending s.pending)
    (haccepting : ∀ id bind, t.accepting.lookup id = some bind →
      s.accepting.lookup id = some bind ∧ head ≠ .stop bind ∧ t.stopTxs.lookup bind = some id)
    (hhelpers : ∀ bind ∈ t.helpers.keys, bind ∈ s.helpers.keys ∧ head ≠ .abort bind)
    (htasks : t.tasks = s.tasks) : t.Inv := by
  have hwanted : t.wanted = s.wanted :=
    (wanted_of_applying htapplying).trans (wanted_of_applying hsapplying).symm
  have hstodo := todo_of_applying hsapplying
  have httodo := todo_of_applying htapplying
  have howners : t.owners ≤ s.owners := by
    refine add_le_add (Multiset.coe_le.mpr hpending.subperm) (values_le ?_)
    exact fun id bind h ↦ (haccepting id bind h).1
  refine ⟨?_, Multiset.nodup_of_le howners hs.nodup_owners, ?_, ?_, ?_, ?_, ?_⟩
  · intro id hid
    obtain ⟨bind, h⟩ := mem_iff.mp hid
    have hmem : id ∈ s.accepting := mem_iff.mpr ⟨bind, (haccepting id bind h).1⟩
    exact (hs.fresh id hmem).trans_le hnext
  · rw [hwanted]
    exact fun bind h ↦ hs.pending bind (hpending.subset h)
  · rw [hwanted, httodo]
    intro bind h
    obtain ⟨id, hid⟩ := mem_values.mp h
    obtain ⟨hid, hne, -⟩ := haccepting id bind hid
    have hor := hs.accepting bind (mem_values.mpr ⟨id, hid⟩)
    rw [hstodo, mem_cons] at hor
    exact hor.imp_right fun hor ↦ hor.resolve_left hne.symm
  · exact fun id bind h ↦ (haccepting id bind h).2.2
  · rw [hwanted, httodo]
    intro bind h
    obtain ⟨hmem, hne⟩ := hhelpers bind h
    have hor := hs.registered bind hmem
    rw [hstodo, mem_cons] at hor
    exact hor.imp_right fun hor ↦ hor.resolve_left hne.symm
  · rw [hwanted, htasks]
    exact hs.running

/-- The channel under the address is that of the listener, so it is the listener that is told. -/
theorem lookup_accepting_stop (hs : s.Inv) {id : ℕ} {bind' : String}
    (h : (s.stop bind).accepting.lookup id = some bind') :
    s.accepting.lookup id = some bind' ∧ bind' ≠ bind := by
  rw [stop] at h
  rcases hlookup : s.stopTxs.lookup bind with _ | id'
  · rw [hlookup, elim_none] at h
    refine ⟨h, ?_⟩
    rintro rfl
    exact nomatch hlookup.symm.trans (hs.channel id bind' h)
  · rw [hlookup, elim_some] at h
    obtain ⟨hne, hlive⟩ := of_lookup_erase h
    refine ⟨hlive, ?_⟩
    rintro rfl
    exact hne (some.inj ((hs.channel id bind' hlive).symm.trans hlookup))

theorem inv_proceed_stop (hs : s.Inv)
    (happlying : s.applying = some ⟨next, .stop bind :: rest⟩) :
    (s.proceed ⟨next, .stop bind :: rest⟩).Inv := by
  refine hs.of_proceed happlying rfl le_rfl ?_ (fun id bind' h ↦ ?_) (fun bind' h ↦ ?_) rfl
  · rw [pending, pending, todo, todo, happlying]
    exact List.Perm.refl _
  · obtain ⟨hid, hne⟩ := lookup_accepting_stop hs h
    refine ⟨hid, fun heq ↦ hne (Todo.stop.inj heq).symm, ?_⟩
    exact (lookup_erase_ne hne).trans (hs.channel id bind' hid)
  · exact ⟨h, nofun⟩

theorem inv_proceed_abort (hs : s.Inv)
    (happlying : s.applying = some ⟨next, .abort bind :: rest⟩) :
    (s.proceed ⟨next, .abort bind :: rest⟩).Inv := by
  refine hs.of_proceed happlying rfl le_rfl ?_ (fun id bind' h ↦ ?_) (fun bind' h ↦ ?_) rfl
  · rw [pending, pending, todo, todo, happlying]
    exact List.Perm.refl _
  · exact ⟨h, nofun, hs.channel id bind' h⟩
  · have herase : bind' ∈ (s.helpers.erase bind).keys := h
    rw [keys_erase, Finset.mem_erase] at herase
    exact ⟨herase.2, fun heq ↦ herase.1 (Todo.abort.inj heq).symm⟩

theorem inv_proceed_spawn {cfg : ListenerConfig} (hs : s.Inv)
    (happlying : s.applying = some ⟨next, .spawn cfg :: rest⟩) :
    (s.proceed ⟨next, .spawn cfg :: rest⟩).Inv := by
  refine hs.of_proceed happlying rfl (Nat.le_succ _) ?_ (fun id bind' h ↦ ?_)
    (fun bind' h ↦ ⟨h, nofun⟩) rfl
  · rw [pending, pending, todo, todo, happlying, proceed, map_append, ← append_assoc]
    exact perm_append_singleton _ _
  · exact ⟨h, nofun, hs.channel id bind' h⟩

theorem inv_proceed_nil (hs : s.Inv) (happlying : s.applying = some ⟨next, []⟩) :
    (s.proceed ⟨next, []⟩).Inv := by
  have htodo := todo_of_applying happlying
  refine hs.of_build (wanted_of_applying happlying).symm htodo.symm rfl rfl le_rfl ?_
    (fun _ ↦ .inl) fun _ ↦ .inl
  rw [pending, pending, htodo]
  exact List.Sublist.refl _

theorem inv_proceed {a : Applying} (hs : s.Inv) (happlying : s.applying = some a) :
    (s.proceed a).Inv := by
  obtain ⟨next, _ | ⟨head, rest⟩⟩ := a
  · exact inv_proceed_nil hs happlying
  cases head with
  | stop bind => exact inv_proceed_stop hs happlying
  | abort bind => exact inv_proceed_abort hs happlying
  | spawn cfg => exact inv_proceed_spawn hs happlying

end Proceed

theorem mem_binds_cons {cfg : ListenerConfig} :
    bind ∈ binds (cfg :: cfgs) ↔ bind = cfg.bind ∨ bind ∈ binds cfgs :=
  mem_cons

theorem mem_binds_byKey : bind ∈ binds (byKey cfgs) ↔ bind ∈ binds cfgs := by
  induction cfgs with
  | nil => rfl
  | cons cfg cfgs ih =>
    rw [byKey, mem_binds_cons]
    split
    · rename_i hmem
      rw [ih, or_iff_right_of_imp]
      rintro rfl
      exact hmem
    · rw [mem_binds_cons, ih]

theorem nodup_binds_byKey (cfgs : List ListenerConfig) : (binds (byKey cfgs)).Nodup := by
  induction cfgs with
  | nil => exact nodup_nil
  | cons cfg cfgs ih =>
    rw [byKey]
    split
    · exact ih
    · rename_i hmem
      exact nodup_cons.mpr ⟨fun h ↦ hmem (mem_binds_byKey.mp h), ih⟩

theorem mem_removed : bind ∈ removed old new ↔ bind ∈ binds old ∧ bind ∉ binds new := by
  rw [removed, mem_insertionSort, mem_filter, mem_dedup, decide_eq_true_iff]

theorem mem_binds_added (h : bind ∈ binds (added old new)) :
    bind ∈ binds new ∧ bind ∉ binds old := by
  obtain ⟨cfg, hcfg, rfl⟩ := List.mem_map.mp h
  rw [added, mem_insertionSort, mem_filter, decide_eq_true_iff] at hcfg
  exact ⟨mem_binds_byKey.mp (List.mem_map_of_mem hcfg.1), hcfg.2⟩

theorem nodup_binds_added (old new : List ListenerConfig) : (binds (added old new)).Nodup := by
  refine ((perm_insertionSort _ _).map _).nodup_iff.mpr ?_
  exact (nodup_binds_byKey new).sublist (filter_sublist.map _)

theorem filterMap_spawned_todoOf (old new : List ListenerConfig) :
    (todoOf old new).filterMap Todo.spawned = binds (added old new) := by
  rw [todoOf, filterMap_append, filterMap_map]
  have hremoved : ((removed old new).flatMap fun b ↦ [Todo.stop b, .abort b]).filterMap
      Todo.spawned = [] := by
    rw [filterMap_eq_nil_iff]
    intro todo htodo
    obtain ⟨b, -, hb⟩ := mem_flatMap.mp htodo
    rcases mem_pair.mp hb with rfl | rfl
    · rfl
    · rfl
  rw [hremoved, nil_append]
  exact filterMap_eq_map ▸ rfl

theorem stop_mem_todoOf (h : bind ∈ removed old new) :
    .stop bind ∈ todoOf old new ∧ .abort bind ∈ todoOf old new :=
  ⟨mem_append_left _ (mem_flatMap.mpr ⟨bind, h, mem_cons_self⟩),
    mem_append_left _ (mem_flatMap.mpr
      ⟨bind, h, mem_cons_of_mem _ mem_cons_self⟩)⟩

/-- A reload that is considerate. -/
theorem inv_reload {next : List ListenerConfig} (hs : s.Inv) (hnone : s.applying = none)
    (hok : s.Considerate (.reload next)) :
    Inv { s with applying := some ⟨next, todoOf s.current next⟩ } := by
  have hwanted : s.wanted = binds s.current := by
    rw [wanted, hnone]
    rfl
  have hpending : s.pending = s.builds.map fun b ↦ b.cfg.bind := by
    rw [pending, todo, hnone]
    rfl
  obtain ⟨haccepting, hregistered, hrunning⟩ := stopped_of_inv hs (isNone_iff_eq_none.mpr hnone)
  have hnew : Server.pending { s with applying := some ⟨next, todoOf s.current next⟩ } =
      binds (added s.current next) ++ s.pending := by
    rw [hpending, ← filterMap_spawned_todoOf]
    rfl
  refine ⟨hs.fresh, ?_, ?_, fun bind h ↦ ?_, hs.channel, fun bind h ↦ ?_, fun bind h ↦ ?_⟩
  · have hold : ∀ bind ∈ s.owners, bind ∈ binds s.current := by
      intro bind h
      rcases Multiset.mem_add.mp h with h | h
      · exact hwanted ▸ hs.pending bind h
      · exact haccepting bind h
    rw [owners, hnew, ← Multiset.coe_add, add_assoc, ← owners]
    refine Multiset.nodup_add.mpr ⟨nodup_binds_added _ _, hs.nodup_owners, ?_⟩
    exact Multiset.disjoint_left.mpr fun h h' ↦ (mem_binds_added h).2 (hold _ h')
  · rw [hnew]
    intro bind h
    rcases List.mem_append.mp h with h | h
    · exact (mem_binds_added h).1
    · -- what is being built is not removed
      by_contra hnext
      have hremoved := mem_removed.mpr ⟨hwanted ▸ hs.pending bind h, hnext⟩
      exact (hok bind hremoved).1 (hpending ▸ h)
  · by_cases hnext : bind ∈ binds next
    · exact .inl hnext
    · exact .inr (stop_mem_todoOf (mem_removed.mpr ⟨haccepting bind h, hnext⟩)).1
  · by_cases hnext : bind ∈ binds next
    · exact .inl hnext
    · exact .inr (stop_mem_todoOf (mem_removed.mpr ⟨hregistered bind h, hnext⟩)).2
  · by_contra hnext
    exact (hok bind (mem_removed.mpr ⟨hrunning bind h, hnext⟩)).2 h

theorem inv_step {e : Event} (hs : s.Inv) (hok : s.Considerate e) (h : s.step e = some t) :
    t.Inv := by
  cases e with
  | reload next =>
    rw [step] at h
    split at h
    · rename_i hnone
      obtain rfl := some.inj h
      exact inv_reload hs (isNone_iff_eq_none.mp hnone) hok
    · exact nomatch h
  | proceed =>
    obtain ⟨a, happlying, rfl⟩ := map_eq_some_iff.mp h
    exact inv_proceed hs happlying
  | certSource id acme =>
    obtain ⟨b, hb, h⟩ := bind_eq_some_iff.mp h
    split at h
    · obtain rfl := some.inj h
      exact inv_certSource hs (mem_builds_of_build? hb) acme
    · exact nomatch h
  | fail id =>
    obtain ⟨b, hb, h⟩ := bind_eq_some_iff.mp h
    split at h
    · obtain rfl := some.inj h
      exact inv_finish hs b
    · exact nomatch h
  | registerHelpers id crl ocsp =>
    obtain ⟨b, hb, h⟩ := bind_eq_some_iff.mp h
    exact inv_registerHelpers hs (mem_builds_of_build? hb) h
  | registerStop id =>
    obtain ⟨b, hb, h⟩ := bind_eq_some_iff.mp h
    split at h
    · obtain rfl := some.inj h
      exact inv_registerStop hs (mem_builds_of_build? hb)
    · exact nomatch h
  | helperEnds task =>
    obtain rfl := some.inj h
    refine hs.of_build rfl rfl rfl rfl le_rfl (List.Sublist.refl _) (fun _ ↦ .inl) fun bind h ↦ ?_
    obtain ⟨k, hk⟩ := mem_values.mp h
    exact .inl (mem_values.mpr ⟨k, (of_lookup_erase hk).2⟩)

/-- **Removed listeners stop**, and their helpers with them, as long as no reload removes one that
is still being built or has a helper task running. -/
theorem stopped_always {es : List Event} (hok : AllSteps step Considerate boot es) :
    Always step (fun s ↦ s.Settled → s.Stopped) boot es := by
  have hinv : Always step Inv boot es :=
    always_of_allSteps inv_boot (fun _ _ _ hs hok h ↦ inv_step hs hok h) hok
  exact hinv.mono fun s hs hsettled ↦ stopped_of_inv hs hsettled.1

/-! ### A listener that comes and goes -/

private def web : ListenerConfig := ⟨"tcp://127.0.0.1:80", true, false, false⟩

private def secure : ListenerConfig := ⟨"tcp://127.0.0.1:443", true, true, false⟩

/-- Startup with one plain listener, and a reload that is about to build a TLS listener. -/
private def secureAdded : List Event :=
  [.reload [web], .proceed, .proceed, .registerStop 0, .reload [web, secure], .proceed, .proceed]

private def secureRemoved : List Event := [.reload [web], .proceed, .proceed, .proceed]

/-- Its certificate is read from files, so its watcher ends, and then it is removed. -/
private def fromFiles : List Event :=
  secureAdded ++ [.certSource 2 (some false), .registerHelpers 2 false false, .registerStop 2,
    .helperEnds 3] ++ secureRemoved

theorem stopped_fromFiles :
    ∃ s, run step boot fromFiles = some s ∧ (s.Settled → s.Stopped) := by
  have hrun : (run step boot fromFiles).isSome = true := by decide +kernel
  obtain ⟨s, hs⟩ := isSome_iff_exists.mp hrun
  have hok : AllSteps step Considerate boot fromFiles := allSteps_of_checkSteps (by decide +kernel)
  exact ⟨s, hs, (stopped_always hok).final hs⟩

/-- It is removed while its first certificate is being ordered. -/
private def whileOrdering : List Event :=
  secureAdded ++ secureRemoved ++
    [.certSource 2 (some true), .registerHelpers 2 false false, .registerStop 2]

/-- A listener, a registered watcher and an ACME task of an address that is not configured. -/
theorem removed_listener_starts :
    ∃ s, run step boot whileOrdering = some s ∧ s.Settled ∧
      secure.bind ∈ s.accepting.values ∧ secure.bind ∈ s.helpers.keys ∧
      secure.bind ∈ s.tasks.values ∧ secure.bind ∉ binds s.current := by
  have hany : (run step boot whileOrdering).any (fun s ↦
      decide (s.Settled ∧
        secure.bind ∈ s.accepting.values ∧ secure.bind ∈ s.helpers.keys ∧
        secure.bind ∈ s.tasks.values ∧ secure.bind ∉ binds s.current)) = true := by
    decide +kernel
  obtain ⟨s, hs, h⟩ := (any_eq_true _ _).mp hany
  exact ⟨s, hs, of_decide_eq_true h⟩

end Server

end Listeners

end Hypershunt
