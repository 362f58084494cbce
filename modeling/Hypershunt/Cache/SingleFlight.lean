import Hypershunt.Foundation.HashMap
import Hypershunt.Foundation.Run
import Hypershunt.Foundation.Watch

/-!
# Single-flight fetches

Concurrent misses on one key are coalesced (`begin_fetch` and `LeaderGuard` of `cache/store.rs`):
the first caller leads the fetch and holds a guard, later callers follow it by waiting on the
receiver kept in the in-flight map. Dropping the guard first takes the key out of the map and then,
when the guard's fields are dropped, releases the sender, which closes the channel and wakes the
followers.

## Steps

`begin_fetch` and the removal of a key each hold the map's mutex and are single steps. A drop is
two steps, and anything may happen in between; in particular the same key may get a new leader
while the old one's followers still wait.

## Why the removal is safe

The drop removes by key and does not look whose receiver it removes. That it can only be its own
rests on the invariant that a live guard's channel is the one stored under its key, which also
gives at most one live guard for each key. The channels are told apart because each guard opens
one of its own: guard number `i` sends on channel number `i`.
-/

namespace Hypershunt

open List

namespace SingleFlight

open Watch

/-- Where a guard is in its life. -/
inductive Phase
  | live
  -- the key is out of the map, the sender is still there
  | removed
  | dropped
  deriving DecidableEq

structure LeaderGuard where
  key : String
  /-- The channel whose sender the guard holds. -/
  tx : ℕ
  phase : Phase
  deriving DecidableEq

/-- What the caller of `begin_fetch` gets. -/
inductive FetchRole
  | leader (guard : ℕ)
  | follower (rx : ℕ)
  deriving DecidableEq

/-- A receiver handed out, with the guards that were live for the key then, which the map is not
asked for. -/
structure Follower where
  key : String
  rx : ℕ
  leaders : List ℕ
  deriving DecidableEq

/-- The in-flight map with the channels, guards and receivers created so far. -/
structure State where
  inflight : HashMap String ℕ
  channels : List (Watch Unit)
  guards : List LeaderGuard
  followers : List Follower

namespace State

def init : State := ⟨∅, [], [], []⟩

/-- Guard `g` is live for `key` and sends on channel `c`. -/
def Leads (s : State) (g : ℕ) (key : String) (c : ℕ) : Prop :=
  s.guards[g]? = some ⟨key, c, .live⟩

instance (s : State) (g : ℕ) (key : String) (c : ℕ) : Decidable (s.Leads g key c) :=
  inferInstanceAs (Decidable (_ = _))

/-- The live guards of a key. -/
def leaders (s : State) (key : String) : List ℕ :=
  (List.range s.guards.length).filter fun g ↦
    s.guards[g]?.any fun guard ↦ guard.key == key && guard.phase == .live

/-- The channel of a receiver has lost its sender. -/
def Closed (s : State) (c : ℕ) : Prop := ∃ w, s.channels[c]? = some w ∧ w.closed = true

/-- Claim or join the in-flight fetch for `key`. -/
def beginFetch (s : State) (key : String) : FetchRole × State :=
  match s.inflight.lookup key with
  | some rx =>
    (.follower rx,
      { s with
        channels := s.channels.modify rx cloneReceiver
        followers := s.followers ++ [⟨key, rx, s.leaders key⟩] })
  | none =>
    let c := s.channels.length
    (.leader s.guards.length,
      { s with
        inflight := s.inflight.insert key c
        channels := s.channels ++ [.channel ()]
        guards := s.guards ++ [⟨key, c, .live⟩] })

/-- `LeaderGuard::drop`: the locked removal. The receiver that was stored goes with it. -/
def dropRemove (s : State) (g : ℕ) : Option State :=
  match s.guards[g]? with
  | some ⟨key, c, .live⟩ =>
    some { s with
      inflight := s.inflight.erase key
      channels := match s.inflight.lookup key with
        | some rx => s.channels.modify rx dropReceiver
        | none => s.channels
      guards := s.guards.set g ⟨key, c, .removed⟩ }
  | _ => none

/-- The end of the drop: the guard's fields go, the sender among them. -/
def dropRelease (s : State) (g : ℕ) : Option State :=
  match s.guards[g]? with
  | some ⟨key, c, .removed⟩ =>
    some { s with
      channels := s.channels.modify c dropSender
      guards := s.guards.set g ⟨key, c, .dropped⟩ }
  | _ => none

end State

inductive Action
  | beginFetch (key : String)
  | dropRemove (guard : ℕ)
  | dropRelease (guard : ℕ)

def step (s : State) : Action → Option State
  | .beginFetch key => some (s.beginFetch key).2
  | .dropRemove g => s.dropRemove g
  | .dropRelease g => s.dropRelease g

/-! ## The invariant -/

/-- A guard holds its sender until its drop has finished. -/
def LeaderGuard.senders (guard : LeaderGuard) : ℕ := if guard.phase = .dropped then 0 else 1

/-- What links the map, the guards, the channels and the receivers handed out. -/
structure Linked (s : State) : Prop where
  own : ∀ g (guard : LeaderGuard), s.guards[g]? = some guard → guard.tx = g
  senders : s.channels.map senders = s.guards.map LeaderGuard.senders
  inflight : ∀ key c, s.inflight.lookup key = some c ↔ s.Leads c key c
  follower : ∀ f ∈ s.followers,
    f.leaders = [f.rx] ∧ ∃ phase, s.guards[f.rx]? = some ⟨f.key, f.rx, phase⟩

theorem linked_init : Linked State.init where
  own := by simp [State.init]
  senders := rfl
  inflight := by simp [State.init, State.Leads]
  follower := by simp [State.init]

variable {s t : State} {g c : ℕ} {key : String} {guard guard' : LeaderGuard}

theorem Linked.length_channels (h : Linked s) : s.channels.length = s.guards.length := by
  have := congrArg List.length h.senders
  rwa [length_map, length_map] at this

theorem Linked.tx_eq (h : Linked s) (hlead : s.Leads g key c) : c = g := h.own g _ hlead

theorem Linked.lookup_of_leads (h : Linked s) (hlead : s.Leads g key c) :
    s.inflight.lookup key = some c := by
  obtain rfl := h.tx_eq hlead
  exact (h.inflight key c).mpr hlead

theorem Linked.leaders_eq (h : Linked s) (hlookup : s.inflight.lookup key = some c) :
    s.leaders key = [c] := by
  have hlead : s.Leads c key c := (h.inflight key c).mp hlookup
  have hlt : c < s.guards.length := (List.getElem?_eq_some_iff.mp hlead).1
  have hiff : ∀ g ∈ List.range s.guards.length,
      (s.guards[g]?.any fun guard ↦ guard.key == key && guard.phase == .live) = (g == c) := by
    intro g _
    rw [Bool.eq_iff_iff, Option.any_eq_true, beq_iff_eq]
    constructor
    · rintro ⟨⟨key', c', phase⟩, hguard, hlive⟩
      obtain ⟨rfl, rfl⟩ : key' = key ∧ phase = .live := by simpa using hlive
      have hc : c' = c := Option.some.inj ((h.lookup_of_leads hguard).symm.trans hlookup)
      exact (h.tx_eq hguard).symm.trans hc
    · rintro rfl
      exact ⟨_, hlead, by simp⟩
  rw [State.leaders, filter_congr hiff, filter_beq,
    count_eq_one_of_mem nodup_range (mem_range.mpr hlt), replicate_one]

/-! ## Steps -/

/-- What happens to receivers does not show in the counts of senders. -/
private theorem map_senders_modify {f : Watch Unit → Watch Unit}
    (hf : ∀ w, (f w).senders = w.senders) (l : List (Watch Unit)) (i : ℕ) :
    (l.modify i f).map senders = l.map senders := by
  refine ext_getElem? fun j ↦ ?_
  rw [getElem?_map, getElem?_map, getElem?_modify]
  cases l[j]? with
  | none => rfl
  | some w =>
    by_cases hij : i = j
    · simp [hij, hf]
    · simp [hij]

/-- The guards after a new one is handed out: those there were, and the new one at the end. -/
private theorem getElem?_concat_guard {guards : List LeaderGuard} :
    (guards ++ [guard'])[g]? = some guard ↔
      guards[g]? = some guard ∨ (g = guards.length ∧ guard = guard') := by
  rcases lt_trichotomy g guards.length with hlt | rfl | hgt
  · rw [getElem?_append_left hlt, or_iff_left fun hend ↦ hlt.ne hend.1]
  · rw [getElem?_concat_length, getElem?_eq_none le_rfl]
    simp [eq_comm]
  · rw [getElem?_eq_none (by simp; omega), getElem?_eq_none hgt.le]
    simp [hgt.ne']

theorem Linked.beginFetch (h : Linked s) (key : String) : Linked (s.beginFetch key).2 := by
  unfold State.beginFetch
  cases hlookup : s.inflight.lookup key with
  | some rx =>
    -- a follower: one more receiver, and the guards as they were
    have hlead : s.Leads rx key rx := (h.inflight key rx).mp hlookup
    refine ⟨h.own, ?_, h.inflight, ?_⟩
    · exact (map_senders_modify senders_cloneReceiver _ _).trans h.senders
    · intro f hf
      rcases List.mem_append.mp hf with hf | hf
      · exact h.follower f hf
      · rw [mem_singleton.mp hf]
        exact ⟨h.leaders_eq hlookup, .live, hlead⟩
  | none =>
    -- a leader: its guard and its channel both go to the end, so they share an index
    refine ⟨?_, ?_, ?_, ?_⟩
    · intro g guard hg
      rcases getElem?_concat_guard.mp hg with hg | ⟨rfl, rfl⟩
      · exact h.own g guard hg
      · exact h.length_channels
    · simp only [map_append, h.senders]
      rfl
    · intro key' c
      change (Finmap.insert key s.channels.length s.inflight).lookup key' = some c ↔
        (s.guards ++ [⟨key, s.channels.length, .live⟩])[c]? = some ⟨key', c, .live⟩
      rw [HashMap.lookup_insert_ite]
      by_cases hkey : key' = key
      · rw [if_pos hkey, Option.some.injEq]
        constructor
        · rintro rfl
          rw [h.length_channels, hkey, getElem?_concat_length]
        · intro hg
          rcases getElem?_concat_guard.mp hg with hg | ⟨-, heq⟩
          · -- an old guard that is live for the key would have been in the map
            rw [hkey] at hg
            have hsome := (h.inflight key c).mpr hg
            rw [hlookup] at hsome
            cases hsome
          · exact (congrArg LeaderGuard.tx heq).symm
      · rw [if_neg hkey, h.inflight key' c]
        constructor
        · exact fun hg ↦ getElem?_concat_guard.mpr (.inl hg)
        · intro hg
          rcases getElem?_concat_guard.mp hg with hg | ⟨-, heq⟩
          · exact hg
          · exact absurd (congrArg LeaderGuard.key heq) hkey
    · intro f hf
      obtain ⟨hleaders, phase, hg⟩ := h.follower f hf
      exact ⟨hleaders, phase, getElem?_concat_guard.mpr (.inl hg)⟩

/-- Moving a guard on to its next phase: its key and channel stay, and so does every other guard. -/
private theorem getElem?_set_guard (hg : s.guards[g]? = some guard) (j : ℕ) :
    (s.guards.set g guard')[j]? = if g = j then some guard' else s.guards[j]? := by
  rw [getElem?_set, if_pos (List.getElem?_eq_some_iff.mp hg).1]

theorem Linked.own_set {phase phase' : Phase} (h : Linked s)
    (hg : s.guards[g]? = some ⟨key, c, phase⟩) :
    ∀ j (guard : LeaderGuard), (s.guards.set g ⟨key, c, phase'⟩)[j]? = some guard →
      guard.tx = j := by
  intro j guard hj
  rw [getElem?_set_guard hg] at hj
  split at hj
  case isTrue heq =>
    cases hj
    exact (h.own g _ hg).trans heq
  case isFalse => exact h.own j guard hj

theorem Linked.follower_set {phase phase' : Phase} (h : Linked s)
    (hg : s.guards[g]? = some ⟨key, c, phase⟩) :
    ∀ f ∈ s.followers, f.leaders = [f.rx] ∧
      ∃ p, (s.guards.set g ⟨key, c, phase'⟩)[f.rx]? = some ⟨f.key, f.rx, p⟩ := by
  intro f hf
  obtain ⟨hleaders, p, hp⟩ := h.follower f hf
  refine ⟨hleaders, ?_⟩
  rw [getElem?_set_guard hg]
  by_cases heq : g = f.rx
  · rw [← heq, hg, Option.some.injEq, LeaderGuard.mk.injEq] at hp
    exact ⟨phase', by rw [if_pos heq, hp.1, hp.2.1, heq]⟩
  · exact ⟨p, by rw [if_neg heq, hp]⟩

theorem Linked.dropRemove (h : Linked s) (hstep : s.dropRemove g = some t) : Linked t := by
  unfold State.dropRemove at hstep
  split at hstep
  case h_1 key c hg =>
    have hlookup : s.inflight.lookup key = some c := h.lookup_of_leads hg
    have hc : c = g := h.tx_eq hg
    rw [hlookup, Option.some.injEq] at hstep
    subst hstep
    refine ⟨h.own_set hg, ?_, ?_, h.follower_set hg⟩
    · -- the map gives up its receiver; the guard still has its sender
      rw [map_senders_modify senders_dropReceiver, h.senders]
      refine ext_getElem? fun j ↦ ?_
      rw [getElem?_map, getElem?_map, getElem?_set_guard hg]
      split
      case isTrue heq =>
        rw [← heq, hg]
        rfl
      case isFalse => rfl
    · intro key' c'
      rw [HashMap.lookup_erase_ite, State.Leads, getElem?_set_guard hg]
      by_cases hkey : key' = key
      · -- no other guard was live for the key
        rw [if_pos hkey]
        refine iff_of_false (Option.some_ne_none c').symm ?_
        split
        case isTrue => simp
        case isFalse hne =>
          intro hlive
          rw [hkey] at hlive
          have := (h.lookup_of_leads hlive).symm.trans hlookup
          exact hne (hc.symm.trans (Option.some.inj this).symm)
      · rw [if_neg hkey, h.inflight key' c']
        by_cases heq : g = c'
        · rw [if_pos heq, State.Leads, ← heq, hg]
          simp [Ne.symm hkey]
        · rw [if_neg heq, State.Leads]
  case h_2 => exact absurd hstep (by simp)

theorem Linked.dropRelease (h : Linked s) (hstep : s.dropRelease g = some t) : Linked t := by
  unfold State.dropRelease at hstep
  split at hstep
  case h_1 key c hg =>
    have hc : c = g := h.own g _ hg
    rw [Option.some.injEq] at hstep
    subst hstep
    refine ⟨h.own_set hg, ?_, ?_, h.follower_set hg⟩
    · -- the guard's channel loses the one sender it had
      refine ext_getElem? fun j ↦ ?_
      have hj := congrArg (·[j]?) h.senders
      simp only [getElem?_map] at hj
      rw [getElem?_map, getElem?_map, getElem?_modify, getElem?_set_guard hg, hc]
      by_cases heq : g = j
      · rw [← heq, hg] at hj
        rw [← heq, if_pos rfl]
        obtain ⟨w, hw, hsenders⟩ := Option.map_eq_some_iff.mp hj
        rw [hw]
        simp [hsenders, LeaderGuard.senders]
      · rw [if_neg heq, ← hj]
        simp [heq]
    · -- the guard was no longer live, so the map does not change
      intro key' c'
      rw [h.inflight key' c', State.Leads, State.Leads, getElem?_set_guard hg]
      by_cases heq : g = c'
      · rw [if_pos heq, ← heq, hg]
        simp
      · rw [if_neg heq]
  case h_2 => exact absurd hstep (by simp)

theorem Linked.step {a : Action} (h : Linked s) (hstep : step s a = some t) : Linked t := by
  cases a with
  | beginFetch key =>
    cases hstep
    exact h.beginFetch key
  | dropRemove g => exact h.dropRemove hstep
  | dropRelease g => exact h.dropRelease hstep

/-! ## Single flight -/

/-- What coalescing promises in one state. -/
structure Coalesced (s : State) : Prop where
  /-- A key has at most one live leader. -/
  one_leader : ∀ {g g' key c c'}, s.Leads g key c → s.Leads g' key c' → g = g'
  /-- The map holds the channels of the live leaders under their keys and nothing else. -/
  lookup_iff : ∀ key c, s.inflight.lookup key = some c ↔ ∃ g, s.Leads g key c
  /-- A receiver belongs to the one guard live when it was handed out, and closes with it. -/
  followed : ∀ f ∈ s.followers, ∃ g phase, f.leaders = [g] ∧
    s.guards[g]? = some ⟨f.key, f.rx, phase⟩ ∧ (phase = .dropped → s.Closed f.rx)

theorem Linked.coalesced (h : Linked s) : Coalesced s where
  one_leader := by
    intro g g' key c c' hlead hlead'
    have := (h.lookup_of_leads hlead).symm.trans (h.lookup_of_leads hlead')
    rw [← h.tx_eq hlead, ← h.tx_eq hlead', Option.some.inj this]
  lookup_iff := by
    intro key c
    constructor
    · exact fun hlookup ↦ ⟨c, (h.inflight key c).mp hlookup⟩
    · rintro ⟨g, hlead⟩
      exact h.lookup_of_leads hlead
  followed := by
    intro f hf
    obtain ⟨hleaders, phase, hg⟩ := h.follower f hf
    refine ⟨f.rx, phase, hleaders, hg, ?_⟩
    rintro rfl
    have hsenders := congrArg (·[f.rx]?) h.senders
    simp only [getElem?_map, hg] at hsenders
    obtain ⟨w, hw, hzero⟩ := Option.map_eq_some_iff.mp hsenders
    exact ⟨w, hw, (closed_iff w).mpr hzero⟩

/-- **Single flight.** Whatever the interleaving, a key has at most one live leader, the in-flight
map holds exactly the live leaders' channels, and every follower waits on the channel of the leader
it joined, which is closed once that leader's drop has finished. -/
theorem coalesced_of_run (actions : List Action)
    (hrun : run SingleFlight.step State.init actions = some s) : Coalesced s :=
  (run_induction linked_init (fun _ _ _ h hstep ↦ h.step hstep) hrun).coalesced

/-- A second leader for the key while the first is half dropped and its follower still waits. -/
theorem coalesced_of_overlapping_leaders :
    ∃ s, run SingleFlight.step State.init
        [.beginFetch "k", .beginFetch "k", .dropRemove 0, .beginFetch "k", .dropRelease 0] =
        some s ∧
      s.followers = [⟨"k", 0, [0]⟩] ∧ s.leaders "k" = [1] ∧ Coalesced s :=
  ⟨_, rfl, by decide, by decide, coalesced_of_run
    [.beginFetch "k", .beginFetch "k", .dropRemove 0, .beginFetch "k", .dropRelease 0] rfl⟩

end SingleFlight

end Hypershunt
