import Hypershunt.Access.Policy
import Hypershunt.Foundation.Run
import Hypershunt.Oidc.Backchannel

/-!
# Refresh sessions

The map of refresh sessions of an OIDC provider (`oidc.rs`) and everything that writes it. A
session is found by an opaque id that the browser holds; refreshing it may rotate it, which stores
a new entry under a new id.

## Steps

Each section under the map's mutex is one step, and so is each answer of the identity provider; a
refresh is a call that moves from one to the next, and any number of calls are under way at once.
A back-channel logout first checks its token and remembers the token's id, and then, under another
mutex, tears sessions down.

## History

Three fields are not in the source. `issued` holds the ids ever used; new ones are random and taken
to be outside it. `rotations` records which id replaced which, and `loggedOut` the ids whose entry
a logout removed. None of them is read by the code.
-/

namespace Hypershunt

namespace Oidc

structure RefreshEntry where
  refreshToken : String
  expiresAt : Instant
  idToken : String
  subject : String
  idpSid : Option String
  deriving DecidableEq

/-- The refresh map and its history. -/
structure Sessions where
  refreshes : HashMap String RefreshEntry
  issued : Finset String
  rotations : List (String × String)
  loggedOut : Finset String

namespace Sessions

/-- `sid` was replaced by `new` in a refresh. -/
def Rotated (s : Sessions) (sid new : String) : Prop := (sid, new) ∈ s.rotations

/-- A removal that is not a logout. -/
def remove (s : Sessions) (sid : String) : Sessions :=
  { s with refreshes := s.refreshes.erase sid }

/-- A logout leaves `rest` of the map. -/
def logoutTo (s : Sessions) (rest : HashMap String RefreshEntry) : Sessions :=
  { s with
    refreshes := rest
    loggedOut := s.loggedOut ∪ s.refreshes.keys.filter fun sid ↦ (rest.lookup sid).isNone }

/-- A new session under a new id. -/
def login (s : Sessions) (sid : String) (entry : RefreshEntry) : Sessions :=
  { s with refreshes := s.refreshes.insert sid entry, issued := insert sid s.issued }

/-- A refresh answered with a new token: whether the old id was still there is not looked at. -/
def rotate (s : Sessions) (sid new : String) (entry : RefreshEntry) : Sessions :=
  { refreshes := (s.refreshes.erase sid).insert new entry
    issued := insert new s.issued
    rotations := (sid, new) :: s.rotations
    loggedOut := s.loggedOut }

/-- The end of a refresh that keeps its token: an entry that is gone stays gone. -/
def slide (s : Sessions) (sid : String) (f : RefreshEntry → RefreshEntry) : Sessions :=
  { s with refreshes := s.refreshes.modify sid f }

end Sessions

/-- A token response whose ID token has been verified. -/
structure TokenResponse where
  idToken : String
  subject : String
  idpSid : Option String
  refreshToken : Option String
  deriving DecidableEq

/-- What the token endpoint answers to a refresh. -/
inductive ExchangeAnswer
  | failed
  | noIdToken
  | invalidIdToken
  | granted (response : TokenResponse)
  deriving DecidableEq

inductive Phase
  | called
  -- found expired; the mutex is released before the entry is removed
  | expired
  | exchanging (refreshToken : String)
  | merging (response : TokenResponse)
  | returned (result : Except String (Identity × String))
  deriving DecidableEq

/-- A call of `refresh`. -/
structure RefreshCall where
  sid : String
  phase : Phase
  deriving DecidableEq

structure Config where
  issuer : String
  clientId : String
  refreshTtl : Duration
  jtiTtl : Duration
  maxIatSkewSecs : ℕ
  deriving DecidableEq

structure Provider where
  cfg : Config
  sessions : Sessions
  seenJtis : HashMap String Instant
  /-- The calls of `refresh` made so far. -/
  calls : HashMap ℕ RefreshCall
  /-- Logouts between their two steps. -/
  logouts : HashMap ℕ LogoutClaims

/-- A step, with what the clocks, the random source and the identity provider contribute to it. -/
inductive Action
  | refresh (call : ℕ) (sid : String) (ready : Bool)
  | lookup (call : ℕ) (now : Instant) (endpoint : Bool)
  | dropExpired (call : ℕ)
  | exchanged (call : ℕ) (answer : ExchangeAnswer)
  | finish (call : ℕ) (identity : Identity) (newSid : String) (now : Instant)
  | takeLogoutSession (sid : String)
  | checkLogout (logout : ℕ) (token : String) (wall : ℤ) (now : Instant)
  | tearDown (logout : ℕ)
  | completeLogin (sid : String) (entry : RefreshEntry)
  -- `evict_expired` takes the two mutexes one after the other
  | evictRefreshes (now : Instant)
  | evictJtis (now : Instant)

namespace Provider

def setCall (p : Provider) (call : ℕ) (sid : String) (phase : Phase) : Provider :=
  { p with calls := p.calls.insert call ⟨sid, phase⟩ }

/-- Under the mutex: find the entry, and leave with its refresh token unless it has expired. -/
def lookup (p : Provider) (call : ℕ) (sid : String) (now : Instant) (endpoint : Bool) : Provider :=
  match p.sessions.refreshes.lookup sid with
  | none => p.setCall call sid (.returned (.error "unknown OIDC refresh session"))
  | some entry =>
    if entry.expiresAt < now then p.setCall call sid .expired
    else if endpoint then p.setCall call sid (.exchanging entry.refreshToken)
    else p.setCall call sid (.returned (.error "OIDC token endpoint not configured"))

/-- The token endpoint has answered. Only a failed exchange drops the entry. -/
def exchanged (p : Provider) (call : ℕ) (sid : String) : ExchangeAnswer → Provider
  | .failed =>
    { p with sessions := p.sessions.remove sid }.setCall call sid
      (.returned (.error "OIDC refresh exchange failed"))
  | .noIdToken => p.setCall call sid (.returned (.error "refresh response had no id_token"))
  | .invalidIdToken =>
    p.setCall call sid (.returned (.error "refreshed ID token validation failed"))
  | .granted response => p.setCall call sid (.merging response)

/-- Under the mutex: write the refreshed session back, under a new id if the token was rotated. -/
def finish (p : Provider) (call : ℕ) (sid : String) (response : TokenResponse)
    (identity : Identity) (newSid : String) (now : Instant) : Option Provider :=
  match response.refreshToken with
  | some newToken =>
    if newSid ∈ p.sessions.issued then none
    else
      let entry : RefreshEntry :=
        ⟨newToken, now + p.cfg.refreshTtl, response.idToken, response.subject, response.idpSid⟩
      some <| { p with sessions := p.sessions.rotate sid newSid entry }.setCall call sid
        (.returned (.ok (identity, newSid)))
  | none =>
    some <| { p with sessions := p.sessions.slide sid fun e ↦
        ⟨e.refreshToken, now + p.cfg.refreshTtl, response.idToken, response.subject,
          response.idpSid⟩ }.setCall call sid (.returned (.ok (identity, sid)))

/-- `take_logout_session`: remove the entry, handing out its two tokens. -/
def takeLogoutSession (p : Provider) (sid : String) : Option (String × String) × Provider :=
  ((p.sessions.refreshes.lookup sid).map fun e ↦ (e.idToken, e.refreshToken),
    { p with sessions := p.sessions.logoutTo (p.sessions.refreshes.erase sid) })

/-- The first half of `apply_backchannel_logout`. -/
def checkLogout (verify : String → Except String Json) (p : Provider) (token : String) (wall : ℤ)
    (now : Instant) : Except String LogoutClaims × Provider :=
  let claims := do
    let payload ← verify token
    checkBackchannelClaims payload p.cfg.issuer p.cfg.clientId wall (wrapI64 p.cfg.maxIatSkewSecs)
  match claims with
  | .error e => (.error e, p)
  | .ok claims =>
    match recordJti p.seenJtis claims.jti now p.cfg.jtiTtl with
    | (false, seen) => (.error "logout_token jti replay detected", { p with seenJtis := seen })
    | (true, seen) => (.ok claims, { p with seenJtis := seen })

/-- What a logout leaves: with a session id, other sessions; with a subject only, other users. -/
def survives (claims : LogoutClaims) (entry : RefreshEntry) : Bool :=
  match claims.sid, claims.sub with
  | some sid, _ => entry.idpSid != some sid
  | none, some sub => entry.subject != sub
  | none, none => true

/-- The second half of `apply_backchannel_logout`. -/
def tearDown (p : Provider) (claims : LogoutClaims) : Provider :=
  { p with
    sessions := p.sessions.logoutTo (p.sessions.refreshes.retain fun _ e ↦ survives claims e) }

end Provider

/-- One step; `verify` parses a logout token and checks its signature. -/
def step (verify : String → Except String Json) (p : Provider) : Action → Option Provider
  | .refresh call sid ready =>
    if (p.calls.lookup call).isSome then none
    else if ready then some (p.setCall call sid .called)
    else some (p.setCall call sid (.returned (.error "OIDC provider not ready")))
  | .lookup call now endpoint => match p.calls.lookup call with
    | some ⟨sid, .called⟩ => some (p.lookup call sid now endpoint)
    | _ => none
  | .dropExpired call => match p.calls.lookup call with
    | some ⟨sid, .expired⟩ =>
      some <| { p with sessions := p.sessions.remove sid }.setCall call sid
        (.returned (.error "refresh session expired"))
    | _ => none
  | .exchanged call answer => match p.calls.lookup call with
    | some ⟨sid, .exchanging _⟩ => some (p.exchanged call sid answer)
    | _ => none
  | .finish call identity newSid now => match p.calls.lookup call with
    | some ⟨sid, .merging response⟩ => p.finish call sid response identity newSid now
    | _ => none
  | .takeLogoutSession sid => some (p.takeLogoutSession sid).2
  | .checkLogout logout token wall now =>
    if (p.logouts.lookup logout).isSome then none
    else match p.checkLogout verify token wall now with
      | (.ok claims, p) => some { p with logouts := p.logouts.insert logout claims }
      | (.error _, p) => some p
  | .tearDown logout => match p.logouts.lookup logout with
    | some claims => some { p.tearDown claims with logouts := p.logouts.erase logout }
    | none => none
  | .completeLogin sid entry =>
    if sid ∈ p.sessions.issued then none
    else some { p with sessions := p.sessions.login sid entry }
  | .evictRefreshes now =>
    let kept := p.sessions.refreshes.retain fun _ e ↦ decide (now ≤ e.expiresAt)
    some { p with sessions := { p.sessions with refreshes := kept } }
  | .evictJtis now =>
    some { p with seenJtis := p.seenJtis.retain fun _ expiresAt ↦ decide (now ≤ expiresAt) }

end Oidc

end Hypershunt
