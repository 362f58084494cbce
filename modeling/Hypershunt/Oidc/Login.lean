import Hypershunt.Oidc.Session

/-!
# Login states

What an OIDC provider remembers between the start of a login and the callback that completes it
(`oidc.rs`): the PKCE verifier, the nonce and the return path, under a random state id that travels
through the browser.

## Steps

A start draws its random values and reads the clock before it takes the mutex of the state map, a
completion removes its entry under the mutex and looks at the entry's age after that, and an
eviction reads the clock first as well. Each of these is a step of its own, and between any two of
them any other start, completion or eviction may take a step and time may pass.

## One shot

A state id has one life: it is drawn, stored, and taken out of the map by one completion or by an
eviction. The invariant `OneShot` says so, and `consumed_once` reads off what a completion gets.
-/

namespace Hypershunt

open Option

namespace Oidc

open HashMap Finmap

structure StateEntry where
  pkceVerifier : String
  nonce : String
  returnTo : String
  created : Instant
  deriving DecidableEq

/-- The random values of a login. -/
structure Draw where
  pkceVerifier : String
  state : String
  nonce : String
  deriving DecidableEq

structure LoginConfig where
  stateTtl : Duration
  refresh : Bool
  refreshTtl : Duration
  resources : List String
  deriving DecidableEq

/-! ## Redeeming an authorisation code -/

structure CodeResponse where
  idToken : Option String
  refreshToken : Option String
  deriving DecidableEq

/-- A verified ID token, after the claims of the user-info endpoint have been merged in. -/
structure VerifiedIdToken where
  subject : String
  idpSid : Option String
  identity : Identity

/-- The identity provider, as the completion of a login meets it. -/
structure Idp where
  tokenEndpoint : Bool
  /-- Code, PKCE verifier and resources. -/
  exchangeCode : String → String → List String → Option CodeResponse
  /-- Token and nonce. -/
  verifyIdToken : String → String → Option VerifiedIdToken

/-- What a completed login hands on. -/
structure CompletedLogin where
  identity : Identity
  returnTo : String
  /-- The refresh session it starts, under its new id. -/
  refresh : Option (String × RefreshEntry)
  deriving DecidableEq

/-- `complete_login` once it holds an entry that is not too old. -/
def redeem (cfg : LoginConfig) (idp : Idp) (code : String) (entry : StateEntry) (newSid : String)
    (now : Instant) : Except String CompletedLogin :=
  if !idp.tokenEndpoint then .error "OIDC token endpoint not configured"
  else match idp.exchangeCode code entry.pkceVerifier cfg.resources with
    | none => .error "OIDC token exchange failed"
    | some response => match response.idToken with
      | none => .error "IdP response did not include an id_token"
      | some idToken => match idp.verifyIdToken idToken entry.nonce with
        | none => .error "ID token validation failed"
        | some token =>
          let refresh := if cfg.refresh then response.refreshToken.map fun refreshToken ↦
            (newSid, ⟨refreshToken, now + cfg.refreshTtl, idToken, token.subject, token.idpSid⟩)
            else none
          .ok ⟨token.identity, entry.returnTo, refresh⟩

/-! ## The state map -/

/-- A login that was started. -/
structure Start where
  returnTo : String
  draw : Draw
  created : Instant
  /-- The entry has been put into the map. -/
  stored : Bool
  deriving DecidableEq

def Start.entry (st : Start) : StateEntry :=
  ⟨st.draw.pkceVerifier, st.draw.nonce, st.returnTo, st.created⟩

inductive CompletionPhase
  | called
  /-- The entry is out of the map and its age has not been looked at. -/
  | taken (entry : StateEntry)
  /-- The entry was young enough at the given time. -/
  | consumed (entry : StateEntry) (time : Instant)
  | refused (error : String)
  | returned (entry : StateEntry) (time : Instant) (result : Except String CompletedLogin)

namespace CompletionPhase

/-- The entry a completion has taken and not refused. -/
def entry : CompletionPhase → Option StateEntry
  | .taken entry | .consumed entry _ | .returned entry _ _ => some entry
  | .called | .refused _ => none

/-- The entry a completion has consumed, and when. -/
def consumption : CompletionPhase → Option (StateEntry × Instant)
  | .consumed entry time | .returned entry time _ => some (entry, time)
  | .called | .taken _ | .refused _ => none

/-- The login a completion has handed on. -/
def login : CompletionPhase → Option CompletedLogin
  | .returned _ _ (.ok login) => some login
  | .returned _ _ (.error _) | .called | .taken _ | .consumed _ _ | .refused _ => none

theorem entry_of_consumption {phase : CompletionPhase} {entry : StateEntry} {time : Instant}
    (h : phase.consumption = some (entry, time)) : phase.entry = some entry := by
  rcases phase with _ | e | ⟨e, n⟩ | e | ⟨e, n, r⟩
  all_goals simp_all [consumption, CompletionPhase.entry]

end CompletionPhase

/-- A call of `complete_login`. -/
structure Completion where
  stateId : String
  code : String
  phase : CompletionPhase

/-- The state map with the calls that use it. `issued`, the state ids ever drawn, is history. -/
structure Logins where
  cfg : LoginConfig
  clock : Instant
  states : HashMap String StateEntry
  issued : Finset String
  starts : HashMap ℕ Start
  completions : HashMap ℕ Completion
  /-- Evictions that have read the clock and not yet taken the mutex. -/
  sweeps : HashMap ℕ Instant

namespace Logins

def init (cfg : LoginConfig) (clock : Instant) : Logins := ⟨cfg, clock, ∅, ∅, ∅, ∅, ∅⟩

def setStart (s : Logins) (i : ℕ) (st : Start) : Logins := { s with starts := s.starts.insert i st }

def setPhase (s : Logins) (c : ℕ) (k : Completion) (phase : CompletionPhase) : Logins :=
  { s with completions := s.completions.insert c { k with phase } }

end Logins

inductive LoginAction
  | tick (d : Duration)
  /-- `begin_login` up to the mutex. -/
  | draw (i : ℕ) (returnTo : String) (draw : Draw)
  | store (i : ℕ)
  | complete (c : ℕ) (stateId code : String) (ready : Bool)
  | take (c : ℕ)
  | checkAge (c : ℕ)
  | redeem (c : ℕ) (idp : Idp) (newSid : String)
  | readClock (k : ℕ)
  | evict (k : ℕ)

/-- One step. State ids are random and taken to be new. -/
def loginStep (s : Logins) : LoginAction → Option Logins
  | .tick d => some { s with clock := s.clock + d }
  | .draw i returnTo draw =>
    if (s.starts.lookup i).isSome ∨ draw.state ∈ s.issued then none
    else some ({ s with issued := insert draw.state s.issued }.setStart i
      ⟨returnTo, draw, s.clock, false⟩)
  | .store i => match s.starts.lookup i with
    | some st =>
      if st.stored then none
      else some ({ s with states := s.states.insert st.draw.state st.entry }.setStart i
        { st with stored := true })
    | none => none
  | .complete c stateId code ready =>
    if (s.completions.lookup c).isSome then none
    else some (s.setPhase c ⟨stateId, code, .called⟩
      (if ready then .called else .refused "OIDC provider not ready"))
  | .take c => match s.completions.lookup c with
    | some ⟨stateId, code, .called⟩ => match s.states.lookup stateId with
      | none => some (s.setPhase c ⟨stateId, code, .called⟩
          (.refused "unknown or expired OIDC state"))
      | some entry => some ({ s with states := s.states.erase stateId }.setPhase c
          ⟨stateId, code, .called⟩ (.taken entry))
    | _ => none
  | .checkAge c => match s.completions.lookup c with
    | some ⟨stateId, code, .taken entry⟩ => some (s.setPhase c ⟨stateId, code, .taken entry⟩
        (if s.cfg.stateTtl < s.clock.saturatingDurationSince entry.created
          then .refused "OIDC state expired before callback" else .consumed entry s.clock))
    | _ => none
  | .redeem c idp newSid => match s.completions.lookup c with
    | some ⟨stateId, code, .consumed entry time⟩ =>
      some (s.setPhase c ⟨stateId, code, .consumed entry time⟩
        (.returned entry time (Oidc.redeem s.cfg idp code entry newSid s.clock)))
    | _ => none
  | .readClock k =>
    if (s.sweeps.lookup k).isSome then none
    else some { s with sweeps := s.sweeps.insert k s.clock }
  | .evict k => match s.sweeps.lookup k with
    | some now => some { s with
        states := s.states.retain fun _ e ↦
          decide (now.saturatingDurationSince e.created ≤ s.cfg.stateTtl)
        sweeps := s.sweeps.erase k }
    | none => none

/-! ## The life of a state id -/

/-- A login start that was stored drew this id with this entry. -/
def Logins.Created (s : Logins) (sid : String) (entry : StateEntry) : Prop :=
  ∃ i st, s.starts.lookup i = some st ∧ st.stored = true ∧ st.draw.state = sid ∧ st.entry = entry

structure OneShot (cfg : LoginConfig) (s : Logins) : Prop where
  cfg_eq : s.cfg = cfg
  drawn : ∀ i st, s.starts.lookup i = some st → st.draw.state ∈ s.issued ∧ st.created ≤ s.clock
  unique : ∀ i j st st', s.starts.lookup i = some st → s.starts.lookup j = some st' →
    st.draw.state = st'.draw.state → i = j
  stored : ∀ sid entry, s.states.lookup sid = some entry → s.Created sid entry
  /-- What a completion has taken is not in the map. -/
  held : ∀ c k entry, s.completions.lookup c = some k → k.phase.entry = some entry →
    s.Created k.stateId entry ∧ k.stateId ∉ s.states
  once : ∀ c c' k k', s.completions.lookup c = some k → s.completions.lookup c' = some k' →
    k.phase.entry.isSome → k'.phase.entry.isSome → k.stateId = k'.stateId → c = c'
  inTime : ∀ c k entry time, s.completions.lookup c = some k →
    k.phase.consumption = some (entry, time) →
    entry.created ≤ time ∧ time ≤ entry.created + cfg.stateTtl

/-! ## What a step does -/

variable {cfg : LoginConfig} {s t : Logins} {a : LoginAction} {k : Completion}

/-- The shapes of a step. -/
inductive LoginStepped (s : Logins) : Logins → Prop
  /-- Time passes, and entries may leave the map. -/
  | pass {clock : Instant} {states : HashMap String StateEntry} {sweeps : HashMap ℕ Instant}
      (hclock : s.clock ≤ clock)
      (hstates : ∀ sid e, states.lookup sid = some e → s.states.lookup sid = some e) :
    LoginStepped s { s with clock, states, sweeps }
  | draw {i : ℕ} {returnTo : String} {draw : Draw} (hi : s.starts.lookup i = none)
      (hnew : draw.state ∉ s.issued) :
    LoginStepped s ({ s with issued := insert draw.state s.issued }.setStart i
      ⟨returnTo, draw, s.clock, false⟩)
  | store {i : ℕ} {st : Start} (hi : s.starts.lookup i = some st) (hst : st.stored = false) :
    LoginStepped s ({ s with states := s.states.insert st.draw.state st.entry }.setStart i
      { st with stored := true })
  | take {c : ℕ} {k : Completion} {entry : StateEntry} (hc : s.completions.lookup c = some k)
      (hentry : s.states.lookup k.stateId = some entry) :
    LoginStepped s ({ s with states := s.states.erase k.stateId }.setPhase c k (.taken entry))
  /-- A completion moves on with the entry it has, if it has one. -/
  | move {c : ℕ} {k : Completion} {phase : CompletionPhase}
      (hheld : ∀ e, phase.entry = some e → s.completions.lookup c = some k ∧
        k.phase.entry = some e)
      (htime : ∀ e n, phase.consumption = some (e, n) → k.phase.consumption = some (e, n) ∨
        (n = s.clock ∧ s.clock - e.created ≤ s.cfg.stateTtl)) :
    LoginStepped s (s.setPhase c k phase)

theorem LoginStepped.refuse {c : ℕ} {phase : CompletionPhase} (h : phase.entry = none) :
    LoginStepped s (s.setPhase c k phase) := by
  refine .move (fun e he ↦ ?_) (fun e n hn ↦ ?_)
  · rw [h] at he
    cases he
  · rw [CompletionPhase.entry_of_consumption hn] at h
    cases h

theorem loginStepped_of_loginStep (h : loginStep s a = some t) : LoginStepped s t := by
  rcases a with d | ⟨i, returnTo, draw⟩ | i | ⟨c, stateId, code, ready⟩ | c | c | ⟨c, idp, newSid⟩ |
    k | k
  case tick =>
    obtain rfl := some.inj h
    exact .pass (Nat.le_add_right _ _) fun _ _ h ↦ h
  case draw =>
    simp only [loginStep, ite_none_left_eq_some, not_or, not_isSome_iff_eq_none, some.injEq] at h
    obtain ⟨⟨hi, hnew⟩, rfl⟩ := h
    exact .draw hi hnew
  case store =>
    simp only [loginStep] at h
    split at h
    case h_1 st hi =>
      simp only [ite_none_left_eq_some, Bool.not_eq_true, some.injEq] at h
      obtain ⟨hst, rfl⟩ := h
      exact .store hi hst
    case h_2 => cases h
  case complete =>
    simp only [loginStep, ite_none_left_eq_some, some.injEq] at h
    obtain ⟨-, rfl⟩ := h
    refine .refuse ?_
    split <;> rfl
  case take =>
    simp only [loginStep] at h
    split at h
    case h_1 stateId code hc =>
      split at h
      case h_1 =>
        obtain rfl := some.inj h
        exact .refuse rfl
      case h_2 entry hentry =>
        obtain rfl := some.inj h
        exact .take hc hentry
    case h_2 => cases h
  case checkAge =>
    simp only [loginStep] at h
    split at h
    case h_1 stateId code entry hc =>
      obtain rfl := some.inj h
      by_cases hage : s.cfg.stateTtl < s.clock.saturatingDurationSince entry.created
      · rw [if_pos hage]
        exact .refuse rfl
      · rw [if_neg hage]
        refine .move (fun e he ↦ ⟨hc, he⟩) fun e n hn ↦ Or.inr ?_
        obtain ⟨rfl, rfl⟩ := Prod.mk.inj (some.inj hn)
        exact ⟨rfl, not_lt.mp hage⟩
    case h_2 => cases h
  case redeem =>
    simp only [loginStep] at h
    split at h
    case h_1 stateId code entry time hc =>
      obtain rfl := some.inj h
      exact .move (fun e he ↦ ⟨hc, he⟩) fun e n hn ↦ Or.inl hn
    case h_2 => cases h
  case readClock =>
    simp only [loginStep, ite_none_left_eq_some, some.injEq] at h
    obtain ⟨-, rfl⟩ := h
    exact .pass le_rfl fun _ _ h ↦ h
  case evict =>
    simp only [loginStep] at h
    split at h
    case h_1 now hk =>
      obtain rfl := some.inj h
      refine .pass le_rfl fun sid e he ↦ ?_
      rw [lookup_retain, filter_eq_some_iff] at he
      exact he.1
    case h_2 => cases h

/-! ## The invariant -/

theorem oneShot_init (cfg : LoginConfig) (clock : Instant) : OneShot cfg (.init cfg clock) := by
  refine ⟨rfl, ?_, ?_, ?_, ?_, ?_, ?_⟩
  all_goals simp [Logins.init]

namespace OneShot

theorem created_setStart {i : ℕ} {st : Start} {sid : String} {entry : StateEntry}
    (hi : ∀ st', s.starts.lookup i = some st' → st'.stored = false) (h : s.Created sid entry) :
    (s.setStart i st).Created sid entry := by
  obtain ⟨j, st', hj, hstored, hstate, hentry⟩ := h
  refine ⟨j, st', ?_, hstored, hstate, hentry⟩
  have hne : j ≠ i := by
    rintro rfl
    rw [hi st' hj] at hstored
    cases hstored
  rw [Logins.setStart, lookup_insert_of_ne _ hne, hj]

theorem pass (h : OneShot cfg s) {clock : Instant} {states : HashMap String StateEntry}
    {sweeps : HashMap ℕ Instant} (hclock : s.clock ≤ clock)
    (hstates : ∀ sid e, states.lookup sid = some e → s.states.lookup sid = some e) :
    OneShot cfg { s with clock, states, sweeps } where
  cfg_eq := h.cfg_eq
  drawn i st hi := ⟨(h.drawn i st hi).1, (h.drawn i st hi).2.trans hclock⟩
  unique := h.unique
  stored sid entry hsid := h.stored sid entry (hstates sid entry hsid)
  held c k entry hc hentry := by
    obtain ⟨hcreated, hnot⟩ := h.held c k entry hc hentry
    refine ⟨hcreated, fun hmem ↦ hnot ?_⟩
    obtain ⟨e, he⟩ := mem_iff.mp hmem
    exact mem_iff.mpr ⟨e, hstates _ e he⟩
  once := h.once
  inTime := h.inTime

theorem draw (h : OneShot cfg s) {i : ℕ} {returnTo : String} {draw : Draw}
    (hi : s.starts.lookup i = none) (hnew : draw.state ∉ s.issued) :
    OneShot cfg ({ s with issued := insert draw.state s.issued }.setStart i
      ⟨returnTo, draw, s.clock, false⟩) := by
  have hcreated : ∀ sid entry, s.Created sid entry →
      (s.setStart i ⟨returnTo, draw, s.clock, false⟩).Created sid entry := by
    intro sid entry hcr
    refine created_setStart (fun st' hst' ↦ ?_) hcr
    rw [hi] at hst'
    cases hst'
  have hlookup : ∀ j st, (s.starts.insert i ⟨returnTo, draw, s.clock, false⟩).lookup j = some st →
      (j = i ∧ st = ⟨returnTo, draw, s.clock, false⟩) ∨
        (s.starts.lookup j = some st ∧ st.draw.state ≠ draw.state) := by
    intro j st hj
    refine (of_lookup_insert hj).imp_right fun hj ↦ ⟨hj, fun heq ↦ hnew ?_⟩
    exact heq ▸ (h.drawn j st hj).1
  refine ⟨h.cfg_eq, fun j st hj ↦ ?_, fun j j' st st' hj hj' heq ↦ ?_, fun sid entry hsid ↦ ?_,
    fun c k entry hc hentry ↦ ?_, h.once, h.inTime⟩
  · rcases hlookup j st hj with ⟨-, rfl⟩ | ⟨hj, -⟩
    · exact ⟨Finset.mem_insert_self _ _, le_rfl⟩
    · exact ⟨Finset.mem_insert_of_mem (h.drawn j st hj).1, (h.drawn j st hj).2⟩
  · rcases hlookup j st hj with ⟨rfl, rfl⟩ | ⟨hj, hne⟩
    · rcases hlookup j' st' hj' with ⟨rfl, -⟩ | ⟨-, hne'⟩
      · rfl
      · exact absurd heq.symm hne'
    · rcases hlookup j' st' hj' with ⟨-, rfl⟩ | ⟨hj', -⟩
      · exact absurd heq hne
      · exact h.unique j j' st st' hj hj' heq
  · exact hcreated sid entry (h.stored sid entry hsid)
  · exact (h.held c k entry hc hentry).imp_left (hcreated _ _)

/-- An id that is being stored for the first time has no entry in anybody's hands. -/
theorem store (h : OneShot cfg s) {i : ℕ} {st : Start} (hi : s.starts.lookup i = some st)
    (hst : st.stored = false) :
    OneShot cfg ({ s with states := s.states.insert st.draw.state st.entry }.setStart i
      { st with stored := true }) := by
  have hcreated : ∀ sid entry, s.Created sid entry →
      (s.setStart i { st with stored := true }).Created sid entry := by
    intro sid entry hcr
    refine created_setStart (fun st' hst' ↦ ?_) hcr
    rw [hi] at hst'
    exact some.inj hst' ▸ hst
  have hlookup : ∀ j st', (s.starts.insert i { st with stored := true }).lookup j = some st' →
      ∃ st₀, s.starts.lookup j = some st₀ ∧ st₀.draw = st'.draw ∧ st₀.created = st'.created := by
    intro j st' hj
    rcases of_lookup_insert hj with ⟨rfl, rfl⟩ | hj
    · exact ⟨st, hi, rfl, rfl⟩
    · exact ⟨st', hj, rfl, rfl⟩
  refine ⟨h.cfg_eq, fun j st' hj ↦ ?_, fun j j' st₁ st₂ hj hj' heq ↦ ?_, fun sid entry hsid ↦ ?_,
    fun c k entry hc hentry ↦ ?_, h.once, h.inTime⟩
  · obtain ⟨st₀, hj, hdraw, hcr⟩ := hlookup j st' hj
    rw [← hdraw, ← hcr]
    exact h.drawn j st₀ hj
  · obtain ⟨st₁', hj, hdraw, -⟩ := hlookup j st₁ hj
    obtain ⟨st₂', hj', hdraw', -⟩ := hlookup j' st₂ hj'
    exact h.unique j j' st₁' st₂' hj hj' (by rw [hdraw, hdraw', heq])
  · rcases of_lookup_insert hsid with ⟨rfl, rfl⟩ | hsid
    · exact ⟨i, { st with stored := true }, lookup_insert _, rfl, rfl, rfl⟩
    · exact hcreated sid entry (h.stored sid entry hsid)
  · obtain ⟨hcr, hnot⟩ := h.held c k entry hc hentry
    refine ⟨hcreated _ _ hcr, fun hmem ↦ ?_⟩
    rcases mem_insert.mp hmem with heq | hmem
    · -- the start this entry came from is stored, and the one being stored now is not
      obtain ⟨j, st', hj, hstored, hstate, -⟩ := hcr
      obtain rfl := h.unique j i st' st hj hi (hstate.trans heq)
      rw [hi, some.injEq] at hj
      rw [← hj, hst] at hstored
      cases hstored
    · exact hnot hmem

theorem lookup_setPhase {c c' : ℕ} {k k' : Completion} {phase : CompletionPhase}
    (h : (s.setPhase c k phase).completions.lookup c' = some k') :
    (c' = c ∧ k' = { k with phase }) ∨ s.completions.lookup c' = some k' :=
  of_lookup_insert h

theorem move (h : OneShot cfg s) {c : ℕ} {phase : CompletionPhase}
    (hheld : ∀ e, phase.entry = some e → s.completions.lookup c = some k ∧ k.phase.entry = some e)
    (htime : ∀ e n, phase.consumption = some (e, n) → k.phase.consumption = some (e, n) ∨
      (n = s.clock ∧ s.clock - e.created ≤ s.cfg.stateTtl)) :
    OneShot cfg (s.setPhase c k phase) := by
  -- a completion that holds an entry now held it before, under the same index
  have hbefore : ∀ c' k' e, (s.setPhase c k phase).completions.lookup c' = some k' →
      k'.phase.entry = some e →
      ∃ k₀, s.completions.lookup c' = some k₀ ∧ k₀.stateId = k'.stateId ∧
        k₀.phase.entry = some e := by
    intro c' k' e hc' he
    rcases lookup_setPhase hc' with ⟨rfl, rfl⟩ | hc'
    · exact ⟨k, (hheld e he).1, rfl, (hheld e he).2⟩
    · exact ⟨k', hc', rfl, he⟩
  refine ⟨h.cfg_eq, h.drawn, h.unique, h.stored, fun c' k' e hc' he ↦ ?_,
    fun c₁ c₂ k₁ k₂ hc₁ hc₂ he₁ he₂ heq ↦ ?_, fun c' k' e n hc' hn ↦ ?_⟩
  · obtain ⟨k₀, hc₀, hid, he₀⟩ := hbefore c' k' e hc' he
    exact hid ▸ h.held c' k₀ e hc₀ he₀
  · obtain ⟨e₁, he₁⟩ := isSome_iff_exists.mp he₁
    obtain ⟨e₂, he₂⟩ := isSome_iff_exists.mp he₂
    obtain ⟨k₁', hc₁', hid₁, he₁'⟩ := hbefore c₁ k₁ e₁ hc₁ he₁
    obtain ⟨k₂', hc₂', hid₂, he₂'⟩ := hbefore c₂ k₂ e₂ hc₂ he₂
    exact h.once c₁ c₂ k₁' k₂' hc₁' hc₂' (by rw [he₁']; rfl) (by rw [he₂']; rfl)
      (by rw [hid₁, hid₂, heq])
  · rcases lookup_setPhase hc' with ⟨rfl, rfl⟩ | hc'
    · obtain ⟨hc, he⟩ := hheld e (CompletionPhase.entry_of_consumption hn)
      rcases htime e n hn with hold | ⟨rfl, hage⟩
      · exact h.inTime c' k e n hc hold
      · obtain ⟨⟨i, st, hi, -, -, rfl⟩, -⟩ := h.held c' k e hc he
        rw [h.cfg_eq] at hage
        exact ⟨(h.drawn i st hi).2, Nat.sub_le_iff_le_add'.mp hage⟩
    · exact h.inTime c' k' e n hc' hn

theorem take (h : OneShot cfg s) {c : ℕ} {entry : StateEntry} (hc : s.completions.lookup c = some k)
    (hentry : s.states.lookup k.stateId = some entry) :
    OneShot cfg ({ s with states := s.states.erase k.stateId }.setPhase c k (.taken entry)) := by
  have hsub : ∀ sid e, (s.states.erase k.stateId).lookup sid = some e →
      s.states.lookup sid = some e := fun sid e he ↦ (of_lookup_erase he).2
  have hpass : OneShot cfg { s with states := s.states.erase k.stateId } :=
    h.pass le_rfl hsub
  -- whoever else holds an entry under this id would have taken it out of the map before
  have hother : ∀ c' k', s.completions.lookup c' = some k' → k'.phase.entry.isSome →
      k'.stateId ≠ k.stateId := by
    intro c' k' hc' he heq
    obtain ⟨e, he⟩ := isSome_iff_exists.mp he
    refine (h.held c' k' e hc' he).2 ?_
    rw [heq]
    exact mem_iff.mpr ⟨entry, hentry⟩
  refine ⟨h.cfg_eq, h.drawn, h.unique, hpass.stored, fun c' k' e hc' he ↦ ?_,
    fun c₁ c₂ k₁ k₂ hc₁ hc₂ he₁ he₂ heq ↦ ?_, fun c' k' e n hc' hn ↦ ?_⟩
  · rcases lookup_setPhase hc' with ⟨rfl, rfl⟩ | hc'
    · obtain rfl := some.inj he
      refine ⟨h.stored _ _ hentry, ?_⟩
      change k.stateId ∉ s.states.erase k.stateId
      simp
    · exact hpass.held c' k' e hc' he
  · rcases lookup_setPhase hc₁ with ⟨rfl, rfl⟩ | hc₁'
    · rcases lookup_setPhase hc₂ with ⟨rfl, -⟩ | hc₂'
      · rfl
      · exact absurd heq.symm (hother c₂ k₂ hc₂' he₂)
    · rcases lookup_setPhase hc₂ with ⟨rfl, rfl⟩ | hc₂'
      · exact absurd heq (hother c₁ k₁ hc₁' he₁)
      · exact h.once c₁ c₂ k₁ k₂ hc₁' hc₂' he₁ he₂ heq
  · rcases lookup_setPhase hc' with ⟨rfl, rfl⟩ | hc'
    · cases hn
    · exact h.inTime c' k' e n hc' hn

theorem step (h : OneShot cfg s) (hstep : loginStep s a = some t) : OneShot cfg t := by
  rcases loginStepped_of_loginStep hstep with ⟨hclock, hstates⟩ | ⟨hi, hnew⟩ | ⟨hi, hst⟩ |
    ⟨hc, hentry⟩ | ⟨hheld, htime⟩
  · exact h.pass hclock hstates
  · exact h.draw hi hnew
  · exact h.store hi hst
  · exact h.take hc hentry
  · exact h.move hheld htime

end OneShot

/-- **Login states are one-shot.** Two completions never consume the same state id; and what is
consumed was generated by the one start that drew it, within the lifetime of a state. -/
theorem consumed_once {clock : Instant} {as : List LoginAction}
    (h : run loginStep (.init cfg clock) as = some t) :
    (∀ c c' k k', t.completions.lookup c = some k → t.completions.lookup c' = some k' →
      k.phase.consumption.isSome → k'.phase.consumption.isSome → k.stateId = k'.stateId → c = c') ∧
    ∀ c k entry time, t.completions.lookup c = some k →
      k.phase.consumption = some (entry, time) →
      ∃ i st, t.starts.lookup i = some st ∧ st.draw.state = k.stateId ∧
        (∀ j st', t.starts.lookup j = some st' → st'.draw.state = k.stateId → j = i) ∧
        entry.nonce = st.draw.nonce ∧ entry.pkceVerifier = st.draw.pkceVerifier ∧
        entry.returnTo = st.returnTo ∧ st.created ≤ time ∧ time ≤ st.created + cfg.stateTtl := by
  have hshot : OneShot cfg t :=
    run_induction (oneShot_init cfg clock) (fun _ _ _ hs hstep ↦ hs.step hstep) h
  have hentry : ∀ k : Completion, k.phase.consumption.isSome → k.phase.entry.isSome := by
    intro k hk
    obtain ⟨⟨entry, time⟩, hk⟩ := isSome_iff_exists.mp hk
    rw [CompletionPhase.entry_of_consumption hk]
    rfl
  refine ⟨fun c c' k k' hc hc' hk hk' heq ↦ ?_, fun c k entry time hc hk ↦ ?_⟩
  · exact hshot.once c c' k k' hc hc' (hentry k hk) (hentry k' hk') heq
  · obtain ⟨⟨i, st, hi, -, hstate, rfl⟩, -⟩ :=
      hshot.held c k entry hc (CompletionPhase.entry_of_consumption hk)
    obtain ⟨hlow, hhigh⟩ := hshot.inTime c k st.entry time hc hk
    refine ⟨i, st, hi, hstate, fun j st' hj hstate' ↦ ?_, rfl, rfl, rfl, hlow, hhigh⟩
    exact hshot.unique j i st' st hj hi (hstate'.trans hstate.symm)

/-- Two callbacks for one login: the first to take the entry consumes it. -/
private def callbackTwice : List LoginAction :=
  [.draw 0 "/inbox" ⟨"verifier", "state", "nonce"⟩, .store 0, .tick 30, .readClock 0,
    .complete 0 "state" "code" true, .complete 1 "state" "code" true, .take 1, .evict 0, .take 0,
    .checkAge 1]

theorem consumed_once_callbackTwice :
    ∃ t, run loginStep (.init ⟨60, false, 0, []⟩ 5) callbackTwice = some t ∧
      (t.completions.lookup 1).bind (·.phase.consumption) =
        some (⟨"verifier", "nonce", "/inbox", 5⟩, 35) ∧
      ∀ c c' k k', t.completions.lookup c = some k → t.completions.lookup c' = some k' →
        k.phase.consumption.isSome → k'.phase.consumption.isSome → k.stateId = k'.stateId →
        c = c' := by
  have hrun : ((run loginStep (.init ⟨60, false, 0, []⟩ 5) callbackTwice).bind fun t ↦
      (t.completions.lookup 1).bind (·.phase.consumption)) =
        some (⟨"verifier", "nonce", "/inbox", 5⟩, 35) := by
    decide +kernel
  obtain ⟨t, ht, hconsumed⟩ := bind_eq_some_iff.mp hrun
  exact ⟨t, ht, hconsumed, (consumed_once ht).1⟩

end Oidc

end Hypershunt
