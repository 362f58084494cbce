import Hypershunt.Oidc.Session

/-!
# The refresh token of a session

One session is refreshed again and again, one call after the other. The identity provider may issue
a new refresh token whenever it answers, and from then on only the newest is of use. What the
server has stored should be that token (`Current`), or nothing if the identity provider has rejected
the token or the lifetime of the session is over.

The calls are those of `Oidc.Session`, with sweeps of expired sessions between any two of their
steps. What is added is the identity provider's side: which token it issued last, and whether it
has rejected one.

## What goes wrong

The exchange drops the entry on every error, not only on a rejection: a connection that fails, or an
answer that reports a passing trouble of the provider, ends the session. And the new refresh token
is stored only at the end of the call: an answer that rotates the token but has no ID token, or one
that does not verify, leaves the old token in place. Runs without such answers keep the property
throughout (`current_always_iff`), and the first such answer breaks it.
-/

namespace Hypershunt

open List Option

namespace Oidc

open HashMap

/-- What happens to a token request. -/
inductive IdpAnswer
  /-- No answer arrives, although the provider may have issued a token already. -/
  | unreachable (issued : Option String)
  /-- An answer that is an error, and whether it rejects the token. -/
  | errorResponse (rejects : Bool)
  | noIdToken (issued : Option String)
  | invalidIdToken (issued : Option String)
  | granted (response : TokenResponse)
  deriving DecidableEq

namespace IdpAnswer

/-- The refresh token issued along with the answer. -/
def issued : IdpAnswer → Option String
  | .unreachable issued | .noIdToken issued | .invalidIdToken issued => issued
  | .errorResponse _ => none
  | .granted response => response.refreshToken

/-- What the caller of the token endpoint sees of it. -/
def seen : IdpAnswer → ExchangeAnswer
  | .unreachable _ | .errorResponse _ => .failed
  | .noIdToken _ => .noIdToken
  | .invalidIdToken _ => .invalidIdToken
  | .granted response => .granted response

/-- The provider itself says no. -/
def rejects : IdpAnswer → Bool
  | .errorResponse rejects => rejects
  | _ => false

end IdpAnswer

/-- A session over its calls. -/
structure SessionRun where
  provider : Provider
  /-- The id last handed to the caller. -/
  sid : String
  /-- The number of the latest call. -/
  call : ℕ
  /-- The refresh token issued last. -/
  issued : String
  rejected : Bool
  lapsed : Bool

inductive SessionAction
  | start (ready : Bool)
  | lookup (now : Instant) (endpoint : Bool)
  | dropExpired
  | answer (answer : IdpAnswer)
  | finish (identity : Identity) (newSid : String) (now : Instant)
  | sweep (now : Instant)

namespace SessionRun

def entry (w : SessionRun) : Option RefreshEntry := w.provider.sessions.refreshes.lookup w.sid

/-- Where the latest call is. -/
def phase (w : SessionRun) : Option Phase := (w.provider.calls.lookup w.call).map RefreshCall.phase

/-- The latest call has returned. -/
def idle (w : SessionRun) : Bool :=
  match w.phase with
  | none | some (.returned _) => true
  | _ => false

/-- The id the caller holds after a call. -/
def handed (w : SessionRun) : String :=
  match w.phase with
  | some (.returned (.ok (_, sid))) => sid
  | _ => w.sid

/-- The caller takes the id it is handed. The entry under a new id is another one. -/
def adopt (w : SessionRun) : SessionRun :=
  if w.handed = w.sid then w else { w with sid := w.handed, rejected := false, lapsed := false }

end SessionRun

section

variable (verify : String → Except String Json)

/-- One step of the session. The two flags say why an entry is gone. -/
def sessionStep (w : SessionRun) : SessionAction → Option SessionRun
  | .start ready =>
    if w.idle then (step verify w.provider (.refresh (w.call + 1) w.sid ready)).map fun p ↦
      { w with provider := p, call := w.call + 1 }
    else none
  | .lookup now endpoint => (step verify w.provider (.lookup w.call now endpoint)).map fun p ↦
      { w with provider := p }
  | .dropExpired => (step verify w.provider (.dropExpired w.call)).map fun p ↦
      { w with provider := p, lapsed := true }
  | .answer answer => (step verify w.provider (.exchanged w.call answer.seen)).map fun p ↦
      { w with
        provider := p
        issued := answer.issued.getD w.issued
        rejected := w.rejected || answer.rejects }
  | .finish identity newSid now =>
    (step verify w.provider (.finish w.call identity newSid now)).map fun p ↦
      { w with provider := p }.adopt
  | .sweep now => (step verify w.provider (.evictRefreshes now)).map fun p ↦
      let w' := { w with provider := p }
      { w' with lapsed := w.lapsed || (w.entry.isSome && w'.entry.isNone) }

end

/-- The entry holds the token issued last, or is gone for one of the two reasons. -/
def SessionRun.Stored (w : SessionRun) : Prop :=
  match w.entry with
  | some entry => entry.refreshToken = w.issued
  | none => w.rejected = true ∨ w.lapsed = true

/-- After each call the stored refresh token is current. -/
def Current (w : SessionRun) : Prop := w.idle = true → w.Stored

/-- The entry has been dropped for one of the two reasons. -/
def SessionRun.Gone (w : SessionRun) : Prop := w.rejected = true ∨ w.lapsed = true

/-- The answer does not lose a session that is there, or its token. -/
def KeepsToken (w : SessionRun) : SessionAction → Prop
  | .answer (.unreachable _) | .answer (.errorResponse false) => w.Gone
  | .answer (.noIdToken (some token)) | .answer (.invalidIdToken (some token)) =>
    token = w.issued ∨ w.entry = none
  | _ => True

/-! ## Between the calls and within them -/

/-- The entry is as it should be, unless a call is still to store a new token. -/
structure SessionInv (w : SessionRun) : Prop where
  /-- A call that has not returned works on the id the caller holds. -/
  sid_eq : ∀ c, w.provider.calls.lookup w.call = some c → w.idle = false → c.sid = w.sid
  stored : (∀ response, w.phase = some (.merging response) → response.refreshToken = none) →
    w.Stored
  merging : ∀ response token, w.phase = some (.merging response) →
    response.refreshToken = some token → token = w.issued

variable {verify : String → Except String Json} {w t : SessionRun} {sid : String} {phase : Phase}
  {issued : Option String} {result : Except String (Identity × String)} {identity : Identity}

theorem SessionRun.stored_iff_of_some {e : RefreshEntry} (h : w.entry = some e) :
    w.Stored ↔ e.refreshToken = w.issued := by
  rw [SessionRun.Stored, h]

theorem SessionRun.stored_iff_of_none (h : w.entry = none) : w.Stored ↔ w.Gone := by
  rw [SessionRun.Stored, h, SessionRun.Gone]

theorem SessionRun.phase_eq (h : w.provider.calls.lookup w.call = some ⟨sid, phase⟩) :
    w.phase = some phase := by
  rw [SessionRun.phase, h]
  rfl

theorem SessionRun.idle_of_phase (h : w.phase = some (.returned result)) : w.idle = true := by
  rw [SessionRun.idle, h]

/-- A state whose latest call is in a phase with no token to store yet. -/
theorem SessionInv.of_stored (h : w.Stored)
    (hcall : w.provider.calls.lookup w.call = some ⟨w.sid, phase⟩)
    (hphase : ∀ response, phase ≠ .merging response) : SessionInv w := by
  have hnot : ∀ response, w.phase ≠ some (.merging response) := by
    intro response heq
    rw [SessionRun.phase_eq hcall, some.injEq] at heq
    exact hphase response heq
  refine ⟨fun c hc _ ↦ ?_, fun _ ↦ h, fun response token hr ↦ absurd hr (hnot response)⟩
  rw [hcall, some.injEq] at hc
  rw [← hc]

theorem SessionInv.of_returned (h : w.Stored)
    (hcall : w.provider.calls.lookup w.call = some ⟨sid, .returned result⟩) : SessionInv w := by
  have hphase := SessionRun.phase_eq hcall
  refine ⟨fun c _ hidle ↦ ?_, fun _ ↦ h, fun response token hr ↦ ?_⟩
  · rw [SessionRun.idle_of_phase hphase] at hidle
    cases hidle
  · rw [hphase] at hr
    cases hr

/-- A state whose latest call has returned an id with a current entry. -/
theorem SessionInv.adopt {new : String} {e : RefreshEntry}
    (hcall : w.provider.calls.lookup w.call = some ⟨sid, .returned (.ok (identity, new))⟩)
    (hentry : w.provider.sessions.refreshes.lookup new = some e)
    (hissued : e.refreshToken = w.issued) : SessionInv w.adopt := by
  have hhanded : w.handed = new := by rw [SessionRun.handed, SessionRun.phase_eq hcall]
  rw [SessionRun.adopt, hhanded]
  split
  case isTrue hsid =>
    refine .of_returned ((SessionRun.stored_iff_of_some (e := e) ?_).mpr hissued) hcall
    rw [SessionRun.entry, ← hsid, hentry]
  case isFalse =>
    refine .of_returned ((SessionRun.stored_iff_of_some (e := e) ?_).mpr hissued) hcall
    exact hentry

/-- The entry decides, together with the token issued last and the two flags. -/
theorem SessionRun.Stored.congr (h : w.Stored) (hentry : t.entry = w.entry)
    (hissued : t.issued = w.issued) (hgone : w.Gone → t.Gone) : t.Stored := by
  rcases hw : w.entry with _ | e
  · rw [SessionRun.stored_iff_of_none hw] at h
    exact (SessionRun.stored_iff_of_none (hentry.trans hw)).mpr (hgone h)
  · rw [SessionRun.stored_iff_of_some hw, ← hissued] at h
    exact (SessionRun.stored_iff_of_some (hentry.trans hw)).mpr h

theorem SessionRun.adopt_of_same (h : w.phase = some (.returned (.ok (identity, w.sid)))) :
    w.adopt = w := by
  have hhanded : w.handed = w.sid := by rw [SessionRun.handed, h]
  rw [SessionRun.adopt, if_pos hhanded]

theorem SessionRun.Stored.of_gone (hentry : t.entry = none) (hgone : t.Gone) : t.Stored :=
  (SessionRun.stored_iff_of_none hentry).mpr hgone

/-- The condition on an answer that has a new token and no usable ID token. -/
def KeepsIssued (w : SessionRun) (issued : Option String) : Prop :=
  ∀ token, issued = some token → token = w.issued ∨ w.entry = none

theorem keepsToken_noIdToken :
    KeepsToken w (.answer (.noIdToken issued)) ↔ KeepsIssued w issued := by
  rcases issued with _ | token
  · simp [KeepsToken, KeepsIssued]
  · simp [KeepsToken, KeepsIssued]

theorem keepsToken_invalidIdToken :
    KeepsToken w (.answer (.invalidIdToken issued)) ↔ KeepsIssued w issued := by
  rcases issued with _ | token
  · simp [KeepsToken, KeepsIssued]
  · simp [KeepsToken, KeepsIssued]

/-- For an entry that is left alone while a token may have been issued. -/
theorem SessionRun.Stored.iff_keepsIssued (h : w.Stored) (hentry : t.entry = w.entry)
    (hissued : t.issued = issued.getD w.issued) (hgone : w.Gone → t.Gone) :
    t.Stored ↔ KeepsIssued w issued := by
  rcases hw : w.entry with _ | e
  · have ht : t.Stored :=
      .of_gone (hentry.trans hw) (hgone ((SessionRun.stored_iff_of_none hw).mp h))
    exact iff_of_true ht fun _ _ ↦ Or.inr hw
  · rw [SessionRun.stored_iff_of_some hw] at h
    rw [SessionRun.stored_iff_of_some (hentry.trans hw), hissued, h]
    rcases issued with _ | token
    · exact iff_of_true rfl nofun
    · rw [getD_some, KeepsIssued]
      constructor
      · rintro heq _ ⟨⟩
        exact Or.inl heq.symm
      · intro hkeeps
        rcases hkeeps token rfl with heq | hnone
        · exact heq.symm
        · rw [hw] at hnone
          cases hnone

@[simp] theorem Provider.lookup_setCall (p : Provider) (call : ℕ) (sid : String) (phase : Phase) :
    (p.setCall call sid phase).calls.lookup call = some ⟨sid, phase⟩ := Finmap.lookup_insert _

namespace SessionInv

variable (h : SessionInv w) {now : Instant}

include h

theorem stored_of_idle (hidle : w.idle = true) : w.Stored := by
  refine h.stored fun response hr ↦ ?_
  rw [SessionRun.idle, hr] at hidle
  cases hidle

theorem stored_of_call (hcall : w.provider.calls.lookup w.call = some ⟨sid, phase⟩)
    (hphase : ∀ response, phase ≠ .merging response) : w.Stored := by
  refine h.stored fun response hr ↦ ?_
  rw [SessionRun.phase_eq hcall, some.injEq] at hr
  exact absurd hr (hphase response)

theorem sid_of_call (hcall : w.provider.calls.lookup w.call = some ⟨sid, phase⟩)
    (hphase : ∀ result, phase ≠ .returned result) : sid = w.sid := by
  refine h.sid_eq _ hcall ?_
  rw [SessionRun.idle, SessionRun.phase_eq hcall]
  cases phase with
  | returned result => exact absurd rfl (hphase result)
  | _ => rfl

theorem start {ready : Bool} (hstep : sessionStep verify w (.start ready) = some t) :
    SessionInv t := by
  simp only [sessionStep, ite_none_right_eq_some, map_eq_some_iff] at hstep
  obtain ⟨hidle, p, hp, rfl⟩ := hstep
  simp only [step, ite_none_left_eq_some] at hp
  have hstored := h.stored_of_idle hidle
  obtain ⟨-, hp⟩ := hp
  split at hp
  all_goals obtain rfl := some.inj hp
  · exact .of_stored (hstored.congr rfl rfl id) (Provider.lookup_setCall _ _ _ _) nofun
  · exact .of_returned (hstored.congr rfl rfl id) (Provider.lookup_setCall _ _ _ _)

theorem lookup {endpoint : Bool} (hstep : sessionStep verify w (.lookup now endpoint) = some t) :
    SessionInv t := by
  simp only [sessionStep, map_eq_some_iff] at hstep
  obtain ⟨p, hp, rfl⟩ := hstep
  simp only [step] at hp
  split at hp
  case h_2 => cases hp
  case h_1 sid hcall =>
    obtain rfl := some.inj hp
    have hstored := h.stored_of_call hcall nofun
    obtain rfl : sid = w.sid := h.sid_of_call hcall nofun
    unfold Provider.lookup
    split
    · exact .of_returned (hstored.congr rfl rfl id) (Provider.lookup_setCall _ _ _ _)
    split
    · exact .of_stored (hstored.congr rfl rfl id) (Provider.lookup_setCall _ _ _ _) nofun
    split
    · exact .of_stored (hstored.congr rfl rfl id) (Provider.lookup_setCall _ _ _ _) nofun
    · exact .of_returned (hstored.congr rfl rfl id) (Provider.lookup_setCall _ _ _ _)

theorem dropExpired (hstep : sessionStep verify w .dropExpired = some t) : SessionInv t := by
  simp only [sessionStep, map_eq_some_iff] at hstep
  obtain ⟨p, hp, rfl⟩ := hstep
  simp only [step] at hp
  split at hp
  case h_2 => cases hp
  case h_1 sid hcall =>
    obtain rfl := some.inj hp
    obtain rfl : sid = w.sid := h.sid_of_call hcall nofun
    refine .of_returned (.of_gone (Finmap.lookup_erase _ _) (Or.inr rfl))
      (Provider.lookup_setCall _ _ _ _)

theorem sweep (hstep : sessionStep verify w (.sweep now) = some t) : SessionInv t := by
  simp only [sessionStep, step, map_some, some.injEq] at hstep
  subst hstep
  refine ⟨h.sid_eq, fun hmerging ↦ ?_, h.merging⟩
  have hstored := h.stored hmerging
  -- either the entry is kept as it is, or it goes and the flag says so
  rcases hentry : w.entry with _ | e
  · refine .of_gone ?_ ?_
    · rw [SessionRun.entry] at hentry ⊢
      rw [lookup_retain, hentry]
      rfl
    · exact ((SessionRun.stored_iff_of_none hentry).mp hstored).imp_right fun hlapsed ↦ by
        rw [hlapsed, Bool.true_or]
  · rw [SessionRun.stored_iff_of_some hentry] at hstored
    rw [SessionRun.entry] at hentry
    by_cases hkeep : now ≤ e.expiresAt
    · have hkept : (w.provider.sessions.refreshes.retain fun _ e ↦
          decide (now ≤ e.expiresAt)).lookup w.sid = some e := by
        rw [lookup_retain, hentry, filter_some, if_pos (decide_eq_true hkeep)]
      refine (SessionRun.stored_iff_of_some (e := e) ?_).mpr hstored
      exact hkept
    · have hgone : (w.provider.sessions.refreshes.retain fun _ e ↦
          decide (now ≤ e.expiresAt)).lookup w.sid = none := by
        rw [lookup_retain, hentry, filter_some,
          if_neg (by rw [decide_eq_true_eq]; exact hkeep)]
      refine .of_gone hgone (Or.inr ?_)
      simp only [SessionRun.entry, hgone, isSome_some, isNone_none, Bool.and_self, Bool.or_true]

theorem finish {newSid : String}
    (hstep : sessionStep verify w (.finish identity newSid now) = some t) : SessionInv t := by
  simp only [sessionStep, map_eq_some_iff] at hstep
  obtain ⟨p, hp, rfl⟩ := hstep
  simp only [step] at hp
  split at hp
  case h_2 => cases hp
  case h_1 sid response hcall =>
    obtain rfl : sid = w.sid := h.sid_of_call hcall nofun
    unfold Provider.finish at hp
    split at hp
    case h_1 token htoken =>
      rw [ite_none_left_eq_some, some.injEq] at hp
      obtain ⟨-, rfl⟩ := hp
      have hissued := h.merging response token (SessionRun.phase_eq hcall) htoken
      exact .adopt (Provider.lookup_setCall _ _ _ _) (Finmap.lookup_insert _) hissued
    case h_2 hnone =>
      obtain rfl := some.inj hp
      have hstored : w.Stored := h.stored fun response' hr ↦ by
        rw [SessionRun.phase_eq hcall, some.injEq, Phase.merging.injEq] at hr
        exact hr ▸ hnone
      rw [SessionRun.adopt_of_same (SessionRun.phase_eq (Provider.lookup_setCall _ _ _ _))]
      refine .of_returned ?_ (Provider.lookup_setCall _ _ _ _)
      -- an entry that is there keeps its refresh token
      rw [SessionRun.Stored, SessionRun.entry] at hstored ⊢
      simp only [Provider.setCall, Sessions.slide, lookup_modify, if_true]
      rcases hentry : w.provider.sessions.refreshes.lookup w.sid with _ | e
      · rw [hentry] at hstored
        exact hstored
      · rw [hentry] at hstored
        exact hstored

theorem exchanging {answer : IdpAnswer} (hstep : sessionStep verify w (.answer answer) = some t) :
    w.Stored ∧ t = { w with
      provider := w.provider.exchanged w.call w.sid answer.seen
      issued := answer.issued.getD w.issued
      rejected := w.rejected || answer.rejects } := by
  simp only [sessionStep, map_eq_some_iff] at hstep
  obtain ⟨p, hp, rfl⟩ := hstep
  simp only [step] at hp
  split at hp
  case h_2 => cases hp
  case h_1 sid token hcall =>
    obtain rfl := some.inj hp
    obtain rfl : sid = w.sid := h.sid_of_call hcall nofun
    exact ⟨h.stored_of_call hcall nofun, rfl⟩

/-- An answer without new tokens ends the call, and leaves the entry as it should be unless the
session or its token is lost. -/
theorem ended {answer : IdpAnswer} (hstep : sessionStep verify w (.answer answer) = some t)
    (hnot : ∀ response, answer ≠ .granted response) :
    t.idle = true ∧ (t.Stored ↔ KeepsToken w (.answer answer)) ∧ (t.Stored → SessionInv t) := by
  obtain ⟨hstored, rfl⟩ := h.exchanging hstep
  obtain ⟨e, hcall⟩ : ∃ e, (w.provider.exchanged w.call w.sid answer.seen).calls.lookup w.call =
      some ⟨w.sid, .returned (.error e)⟩ := by
    rcases answer with _ | _ | _ | _ | response
    case granted => exact absurd rfl (hnot response)
    all_goals exact ⟨_, Provider.lookup_setCall _ _ _ _⟩
  refine ⟨SessionRun.idle_of_phase (SessionRun.phase_eq hcall), ?_,
    fun hstored ↦ .of_returned hstored hcall⟩
  rcases answer with issued | rejects | issued | issued | response
  case granted => exact absurd rfl (hnot response)
  case unreachable =>
    refine (SessionRun.stored_iff_of_none ?_).trans ?_
    · exact Finmap.lookup_erase _ _
    · simp [SessionRun.Gone, KeepsToken, IdpAnswer.rejects]
  case errorResponse =>
    refine (SessionRun.stored_iff_of_none ?_).trans ?_
    · exact Finmap.lookup_erase _ _
    · rcases rejects with _ | _ <;> simp [SessionRun.Gone, KeepsToken, IdpAnswer.rejects]
  case noIdToken =>
    rw [keepsToken_noIdToken]
    exact hstored.iff_keepsIssued rfl rfl (.imp_left (by simp +contextual))
  case invalidIdToken =>
    rw [keepsToken_invalidIdToken]
    exact hstored.iff_keepsIssued rfl rfl (.imp_left (by simp +contextual))

theorem answer {answer : IdpAnswer} (hok : KeepsToken w (.answer answer))
    (hstep : sessionStep verify w (.answer answer) = some t) : SessionInv t := by
  rcases answer with _ | _ | _ | _ | response
  case granted =>
    obtain ⟨hstored, rfl⟩ := h.exchanging hstep
    have hcall : (w.provider.setCall w.call w.sid (.merging response)).calls.lookup w.call =
        some ⟨w.sid, .merging response⟩ := Provider.lookup_setCall _ _ _ _
    refine ⟨fun c hc _ ↦ ?_, fun hnone ↦ ?_, fun response' token hr htoken ↦ ?_⟩
    · rw [show c = ⟨w.sid, .merging response⟩ from some.inj (hc.symm.trans hcall)]
    · -- no new token: the one that was issued before is still the newest
      have hissued := hnone response (SessionRun.phase_eq hcall)
      refine hstored.congr rfl ?_ (.imp_left (by simp +contextual))
      rw [IdpAnswer.issued, hissued, getD_none]
    · have heq := some.inj (hr.symm.trans (SessionRun.phase_eq hcall))
      rw [Phase.merging.injEq] at heq
      rw [IdpAnswer.issued, ← heq, htoken, getD_some]
  all_goals
    obtain ⟨-, hstored, hinv⟩ := h.ended hstep nofun
    exact hinv (hstored.mpr hok)

theorem step {a : SessionAction} (hok : KeepsToken w a)
    (hstep : sessionStep verify w a = some t) : SessionInv t := by
  rcases a with _ | _ | _ | _ | _ | _
  · exact h.start hstep
  · exact h.lookup hstep
  · exact h.dropExpired hstep
  · exact h.answer hok hstep
  · exact h.finish hstep
  · exact h.sweep hstep

theorem not_current {a : SessionAction} (hbad : ¬KeepsToken w a)
    (hstep : sessionStep verify w a = some t) : ¬Current t := by
  rcases a with _ | _ | _ | answer | _ | _
  case answer =>
    rcases answer with _ | _ | _ | _ | _
    case granted => exact absurd trivial hbad
    all_goals
      obtain ⟨hidle, hstored, -⟩ := h.ended hstep nofun
      exact fun hcurrent ↦ hbad (hstored.mp (hcurrent hidle))
  all_goals exact absurd trivial hbad

end SessionInv

/-- **The stored refresh token is current** exactly when no answer loses the session or its
token. -/
theorem current_always_iff {as : List SessionAction} {last : SessionRun} (hidle : w.idle = true)
    (hstored : w.Stored) (hrun : run (sessionStep verify) w as = some last) :
    Always (sessionStep verify) Current w as ↔ AllSteps (sessionStep verify) KeepsToken w as := by
  have h0 : SessionInv w := by
    refine ⟨fun c _ hbusy ↦ ?_, fun _ ↦ hstored, fun response token hr _ ↦ ?_⟩
    · rw [hidle] at hbusy
      cases hbusy
    · rw [SessionRun.idle, hr] at hidle
      cases hidle
  refine always_iff_allSteps h0 (fun t h ↦ h.stored_of_idle) ?_ ?_ hrun
  · exact fun s a t h hok hstep ↦ h.step hok hstep
  · exact fun s a t h hbad hstep ↦ h.not_current hbad hstep

/-- A session right after its login. -/
private def newSession : SessionRun where
  provider :=
    { cfg := ⟨"https://idp", "client", 100, 0, 0⟩
      sessions :=
        { refreshes :=
            (∅ : HashMap String RefreshEntry).insert "sid" ⟨"first", 100, "", "alice", none⟩
          issued := {"sid"}
          rotations := []
          loggedOut := ∅ }
      seenJtis := ∅
      calls := ∅
      logouts := ∅ }
  sid := "sid"
  call := 0
  issued := "first"
  rejected := false
  lapsed := false

private def noVerify : String → Except String Json := fun _ ↦ .error ""

/-- Two refreshes: the first rotates the token, the second is rejected. -/
private def rotateThenReject : List SessionAction :=
  [.start true, .lookup 10 true, .answer (.granted ⟨"", "alice", none, some "second"⟩),
    .finish ⟨"alice", []⟩ "sid2" 11, .start true, .lookup 50 true, .answer (.errorResponse true)]

theorem current_always_rotateThenReject :
    (run (sessionStep noVerify) newSession rotateThenReject).isSome = true ∧
      Always (sessionStep noVerify) Current newSession rotateThenReject := by
  have hrun : (run (sessionStep noVerify) newSession rotateThenReject).isSome = true := by
    decide +kernel
  have hentry : newSession.entry = some ⟨"first", 100, "", "alice", none⟩ := by decide +kernel
  obtain ⟨last, hlast⟩ := isSome_iff_exists.mp hrun
  refine ⟨hrun, (current_always_iff (by decide +kernel)
    ((SessionRun.stored_iff_of_some hentry).mpr rfl) hlast).mpr ?_⟩
  intro pre a hpre t _
  have hmem : a ∈ rotateThenReject := hpre.subset (mem_append_right _ mem_cons_self)
  simp only [rotateThenReject, mem_cons, not_mem_nil, or_false] at hmem
  rcases hmem with rfl | rfl | rfl | rfl | rfl | rfl | rfl
  all_goals exact trivial

/-- A connection that fails ends the session, although nobody has rejected its token. -/
theorem unreachable_ends_session :
    ∃ t, run (sessionStep noVerify) newSession
        [.start true, .lookup 10 true, .answer (.unreachable none)] = some t ∧ ¬Current t := by
  have hrun : ((run (sessionStep noVerify) newSession
      [.start true, .lookup 10 true, .answer (.unreachable none)]).map fun t ↦
        (t.idle, t.entry, t.rejected, t.lapsed)) = some (true, none, false, false) := by
    decide +kernel
  obtain ⟨t, ht, hend⟩ := map_eq_some_iff.mp hrun
  obtain ⟨hidle, hentry, hrejected, hlapsed⟩ : t.idle = true ∧ t.entry = none ∧
      t.rejected = false ∧ t.lapsed = false := by simpa using hend
  refine ⟨t, ht, fun hcurrent ↦ ?_⟩
  rcases (SessionRun.stored_iff_of_none hentry).mp (hcurrent hidle) with hgone | hgone
  · rw [hrejected] at hgone
    cases hgone
  · rw [hlapsed] at hgone
    cases hgone

end Oidc

end Hypershunt
