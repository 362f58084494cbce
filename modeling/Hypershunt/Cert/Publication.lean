import Hypershunt.Foundation.HashMap
import Hypershunt.Foundation.Run
import Hypershunt.Foundation.Watch

/-!
# Publishing certificates

A certificate source is a watch channel with two kinds of writers. The ACME renewal loop
(`renewal_loop` of `cert/acme.rs`) publishes the pair it has just obtained. An OCSP task
(`spawn_refresh_task` of `cert/ocsp.rs`, one for each listener that staples) captures the pair in
the channel, fetches a staple for it, and publishes the captured pair again with the staple added.

Nothing stops a renewal from landing between the capture and the publication; the task then puts
the old certificate back. Those publications are the only ones that do harm: a run keeps the most
recent renewal in the channel exactly when every publication of an OCSP task is of the chain and
key that the most recent renewal published.

The source itself holds a receiver of the channel, so sends succeed for as long as it exists. That
is the lifetime modelled here.
-/

namespace Hypershunt

namespace Cert

open Option

abbrev Der := List UInt8

structure CertPair where
  chain : List Der
  key : Der
  /-- The store of TLS-ALPN-01 challenges attached to the source, by its identity. -/
  alpnStore : Option ℕ
  -- empty when there is no staple
  ocsp : List UInt8
  deriving DecidableEq

inductive StapleSource
  | url (url : String)
  | notOffered
  deriving DecidableEq

/-- Where an OCSP task is in its loop. -/
inductive TaskPhase
  | ready
  | fetching (pair : CertPair)
  | publishing (pair : CertPair) (staple : List UInt8)
  | sleeping
  /-- Parked until the channel moves past a version. -/
  | waiting (seen : ℕ)
  | exited
  deriving DecidableEq

/-- The channel of one source and the tasks that write it. `latest`, what the last renewal
published, and `fetched`, the staples with their chains, are history. -/
structure CertChannel where
  channel : Watch CertPair
  tasks : HashMap ℕ TaskPhase
  latest : CertPair
  fetched : List (List UInt8 × List Der)

namespace CertChannel

/-- The source as it is built, around its first pair. -/
def start (chain : List Der) (key : Der) (alpnStore : Option ℕ) : CertChannel :=
  let pair : CertPair := ⟨chain, key, alpnStore, []⟩
  ⟨.channel pair, ∅, pair, []⟩

def setTask (s : CertChannel) (task : ℕ) (phase : TaskPhase) : CertChannel :=
  { s with tasks := s.tasks.insert task phase }

/-- A renewal publishes; that nobody listens would be no error. -/
def renew (s : CertChannel) (pair : CertPair) : CertChannel :=
  match s.channel.send pair with
  | some w => { s with channel := w, latest := pair }
  | none => s

/-- The top of a task's loop: capture the pair, and see whether a staple can be had for it. -/
def captured (stapleSource : Der → Except String StapleSource) (s : CertChannel) : TaskPhase :=
  match s.channel.value.chain with
  | [] => .sleeping
  | leaf :: issuers => match stapleSource leaf with
    | .error _ => .sleeping
    | .ok .notOffered => .waiting s.channel.version
    | .ok (.url _) => match issuers with
      | [] => .waiting s.channel.version
      | _ :: _ => .fetching s.channel.value

/-- The task publishes the pair it captured, with the staple. -/
def publish (s : CertChannel) (task : ℕ) (pair : CertPair) (staple : List UInt8) : CertChannel :=
  match s.channel.send { pair with ocsp := staple } with
  | some w => { s with channel := w }.setTask task .sleeping
  | none => s.setTask task .exited

end CertChannel

inductive Action
  | spawn (task : ℕ)
  | renew (chain : List Der) (key : Der) (alpnStore : Option ℕ)
  | capture (task : ℕ)
  | fetched (task : ℕ) (staple : Option (List UInt8))
  | publish (task : ℕ)
  | wake (task : ℕ)

/-- One step; `stapleSource` reads a responder's address out of a certificate. -/
def step (stapleSource : Der → Except String StapleSource) (s : CertChannel) :
    Action → Option CertChannel
  | .spawn task =>
    if (s.tasks.lookup task).isSome then none
    else some ({ s with channel := s.channel.cloneReceiver }.setTask task .ready)
  | .renew chain key alpnStore => some (s.renew ⟨chain, key, alpnStore, []⟩)
  | .capture task => match s.tasks.lookup task with
    | some .ready => some (s.setTask task (s.captured stapleSource))
    | _ => none
  | .fetched task staple => match s.tasks.lookup task, staple with
    | some (.fetching pair), some staple =>
      some ({ s with fetched := (staple, pair.chain) :: s.fetched }.setTask task
        (.publishing pair staple))
    | some (.fetching _), none => some (s.setTask task .sleeping)
    | _, _ => none
  | .publish task => match s.tasks.lookup task with
    | some (.publishing pair staple) => some (s.publish task pair staple)
    | _ => none
  | .wake task => match s.tasks.lookup task with
    | some .sleeping => some (s.setTask task .ready)
    | some (.waiting seen) =>
      if s.channel.version = seen ∧ s.channel.closed = false then none
      else some (s.setTask task .ready)
    | _ => none

/-! ## No lost update -/

/-- The channel holds the most recent renewal, and a staple that was fetched for its chain. -/
structure Current (s : CertChannel) : Prop where
  chain : s.channel.value.chain = s.latest.chain
  key : s.channel.value.key = s.latest.key
  staple : s.channel.value.ocsp ≠ [] → (s.channel.value.ocsp, s.channel.value.chain) ∈ s.fetched

/-- A publication of an OCSP task is of the chain and key of the most recent renewal. -/
def PublishesLatest (s : CertChannel) : Action → Prop
  | .publish task => ∀ pair staple, s.tasks.lookup task = some (.publishing pair staple) →
      pair.chain = s.latest.chain ∧ pair.key = s.latest.key
  | _ => True

/-- The invariant: staples about to be published were fetched for the chain they go with. -/
structure Sound (s : CertChannel) : Prop where
  current : Current s
  receivers : s.channel.receivers ≠ 0
  publishing : ∀ task pair staple, s.tasks.lookup task = some (.publishing pair staple) →
    (staple, pair.chain) ∈ s.fetched

variable {stapleSource : Der → Except String StapleSource} {s t : CertChannel} {a : Action}

theorem sound_start (chain : List Der) (key : Der) (alpnStore : Option ℕ) :
    Sound (.start chain key alpnStore) where
  current := ⟨rfl, rfl, fun h ↦ absurd rfl h⟩
  receivers := Nat.one_ne_zero
  publishing := by
    intro task pair staple h
    rw [CertChannel.start, Finmap.lookup_empty] at h
    cases h

/-- Moving a task on; to a publication only with a staple for the chain it goes with. -/
theorem Sound.setTask (h : Sound s) (task : ℕ) {phase : TaskPhase}
    (hphase : ∀ pair staple, phase = .publishing pair staple → (staple, pair.chain) ∈ s.fetched) :
    Sound (s.setTask task phase) := by
  refine ⟨⟨h.current.chain, h.current.key, h.current.staple⟩, h.receivers, ?_⟩
  intro task' pair staple htask
  rcases HashMap.of_lookup_insert htask with ⟨-, rfl⟩ | htask
  · exact hphase pair staple rfl
  · exact h.publishing task' pair staple htask

theorem captured_ne_publishing (pair : CertPair) (staple : List UInt8) :
    s.captured stapleSource ≠ .publishing pair staple := by
  unfold CertChannel.captured
  split
  · exact TaskPhase.noConfusion
  · split
    · exact TaskPhase.noConfusion
    · exact TaskPhase.noConfusion
    · split <;> exact TaskPhase.noConfusion

theorem Sound.renew (h : Sound s) (chain : List Der) (key : Der) (alpnStore : Option ℕ) :
    Sound (s.renew ⟨chain, key, alpnStore, []⟩) := by
  rw [CertChannel.renew, Watch.send_of_receivers_ne_zero _ h.receivers]
  exact ⟨⟨rfl, rfl, fun hne ↦ absurd rfl hne⟩, h.receivers, h.publishing⟩

theorem publish_eq (h : s.channel.receivers ≠ 0) (task : ℕ) (pair : CertPair)
    (staple : List UInt8) :
    s.publish task pair staple = { s with
      channel := { s.channel with
        value := { pair with ocsp := staple }, version := s.channel.version + 1 } }.setTask task
        .sleeping := by
  rw [CertChannel.publish, Watch.send_of_receivers_ne_zero _ h]

/-- Publishing again what the most recent renewal published, with a staple for it. -/
theorem Sound.publish (h : Sound s) {task : ℕ} {pair : CertPair} {staple : List UInt8}
    (htask : s.tasks.lookup task = some (.publishing pair staple))
    (hchain : pair.chain = s.latest.chain) (hkey : pair.key = s.latest.key) :
    Sound (s.publish task pair staple) := by
  have hsent : Sound { s with
      channel := { s.channel with
        value := { pair with ocsp := staple }, version := s.channel.version + 1 } } :=
    ⟨⟨hchain, hkey, fun _ ↦ h.publishing task pair staple htask⟩, h.receivers, h.publishing⟩
  rw [publish_eq h.receivers]
  exact hsent.setTask task fun _ _ heq ↦ TaskPhase.noConfusion heq

theorem Sound.fetched (h : Sound s) (task : ℕ) (pair : CertPair) (staple : List UInt8) :
    Sound ({ s with fetched := (staple, pair.chain) :: s.fetched }.setTask task
      (.publishing pair staple)) := by
  have hmore : Sound { s with fetched := (staple, pair.chain) :: s.fetched } := by
    refine ⟨⟨h.current.chain, h.current.key, fun hne ↦ ?_⟩, h.receivers, ?_⟩
    · exact List.mem_cons_of_mem _ (h.current.staple hne)
    · exact fun task' pair' staple' htask ↦
        List.mem_cons_of_mem _ (h.publishing task' pair' staple' htask)
  refine hmore.setTask task fun pair' staple' heq ↦ ?_
  rw [TaskPhase.publishing.injEq] at heq
  rw [← heq.1, ← heq.2]
  exact List.mem_cons_self

theorem Sound.step (h : Sound s) (hok : PublishesLatest s a)
    (hstep : step stapleSource s a = some t) : Sound t := by
  cases a with
  | spawn task =>
    rw [Cert.step, ite_none_left_eq_some, some.injEq] at hstep
    obtain ⟨-, rfl⟩ := hstep
    have hclone : Sound { s with channel := s.channel.cloneReceiver } :=
      ⟨⟨h.current.chain, h.current.key, h.current.staple⟩, Nat.succ_ne_zero _, h.publishing⟩
    exact hclone.setTask task fun _ _ heq ↦ TaskPhase.noConfusion heq
  | renew chain key alpnStore =>
    cases hstep
    exact h.renew chain key alpnStore
  | capture task =>
    simp only [Cert.step] at hstep
    split at hstep
    · cases hstep
      exact h.setTask task fun pair staple heq ↦ absurd heq (captured_ne_publishing pair staple)
    · cases hstep
  | fetched task staple =>
    simp only [Cert.step] at hstep
    split at hstep
    · cases hstep
      exact h.fetched task _ _
    · cases hstep
      exact h.setTask task fun _ _ heq ↦ TaskPhase.noConfusion heq
    · cases hstep
  | publish task =>
    simp only [Cert.step] at hstep
    split at hstep
    case h_1 pair staple htask =>
      -- the only step that can take the published pair away from the last renewal's
      cases hstep
      obtain ⟨hchain, hkey⟩ := hok pair staple htask
      exact h.publish htask hchain hkey
    case h_2 => cases hstep
  | wake task =>
    simp only [Cert.step] at hstep
    split at hstep
    · cases hstep
      exact h.setTask task fun _ _ heq ↦ TaskPhase.noConfusion heq
    · rw [ite_none_left_eq_some, some.injEq] at hstep
      obtain ⟨-, rfl⟩ := hstep
      exact h.setTask task fun _ _ heq ↦ TaskPhase.noConfusion heq
    · cases hstep

/-- Publishing another chain or key than the most recent renewal's undoes that renewal. -/
theorem Sound.not_current_of_step (h : Sound s) (hbad : ¬PublishesLatest s a)
    (hstep : Cert.step stapleSource s a = some t) : ¬Current t := by
  cases a with
  | publish task =>
    rw [PublishesLatest] at hbad
    push Not at hbad
    obtain ⟨pair, staple, htask, hne⟩ := hbad
    simp only [Cert.step, htask, some.injEq] at hstep
    subst hstep
    rw [publish_eq h.receivers]
    exact fun hcurrent ↦ hne hcurrent.chain hcurrent.key
  | _ => exact absurd trivial hbad

/-- **When renewals are not lost**: exactly when every publication of an OCSP task is of the chain
and key of the most recent renewal. -/
theorem current_iff_publishesLatest (stapleSource : Der → Except String StapleSource)
    (chain : List Der) (key : Der) (alpnStore : Option ℕ) (actions : List Action)
    {last : CertChannel}
    (hrun : run (step stapleSource) (.start chain key alpnStore) actions = some last) :
    Always (step stapleSource) Current (.start chain key alpnStore) actions ↔
      AllSteps (step stapleSource) PublishesLatest (.start chain key alpnStore) actions :=
  always_iff_allSteps (sound_start chain key alpnStore) (fun _ h ↦ h.current)
    (fun _ _ _ h hok hstep ↦ h.step hok hstep)
    (fun _ _ _ h hbad hstep ↦ h.not_current_of_step hbad hstep) hrun

private def responder : Der → Except String StapleSource :=
  fun _ ↦ .ok (.url "http://ocsp.example/")

/-- A task that staples undisturbed. -/
theorem current_iff_publishesLatest_of_one_staple :
    ∃ last, run (step responder) (.start [[1], [9]] [1] none)
        [.spawn 0, .capture 0, .fetched 0 (some [5]), .publish 0] = some last ∧
      last.channel.value = ⟨[[1], [9]], [1], none, [5]⟩ ∧
      (Always (step responder) Current (.start [[1], [9]] [1] none)
          [.spawn 0, .capture 0, .fetched 0 (some [5]), .publish 0] ↔
        AllSteps (step responder) PublishesLatest (.start [[1], [9]] [1] none)
          [.spawn 0, .capture 0, .fetched 0 (some [5]), .publish 0]) :=
  ⟨_, rfl, rfl, current_iff_publishesLatest responder [[1], [9]] [1] none _ rfl⟩

/-- A renewal lands while a staple is fetched, and the old certificate is published over it. -/
theorem renewal_lost_to_staple :
    ∃ last, run (step responder) (.start [[1], [9]] [1] none)
        [.spawn 0, .capture 0, .renew [[2], [9]] [2] none, .fetched 0 (some [5]), .publish 0] =
        some last ∧
      last.latest.chain = [[2], [9]] ∧ last.channel.value.chain = [[1], [9]] ∧ ¬Current last := by
  refine ⟨_, rfl, rfl, rfl, fun hcurrent ↦ ?_⟩
  exact absurd hcurrent.chain (by decide)

end Cert

end Hypershunt
