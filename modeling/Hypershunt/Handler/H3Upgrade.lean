import Hypershunt.Foundation.HashMap
import Hypershunt.Foundation.Run
import Hypershunt.Foundation.Time
import Hypershunt.Handler.AltSvc
import Hypershunt.Http.Header

/-!
# Upgrades to HTTP/3

A proxy client with automatic upgrades (`serve` in `handler/proxy/inner.rs`) remembers the last port
that a response over HTTP/1 or 2 has announced for HTTP/3, and until when. A request that finds the
hint unexpired goes to the HTTP/3 client, which is built for the port of the hint when there is none
yet.

The client is built once, and no later hint replaces it. A request looks at the hint under one lock
and takes the client under another, and answers, failures and the clock may come between the two.
What is sent goes to the port of the current hint in every run in which an announced port is the one
of the client there is, and in which the hint stays while a request has looked at it and not yet
taken the client (`upgrades_follow_hint`).
-/

namespace Hypershunt

namespace Proxy

open Duration Option

structure H3Hint where
  port : UInt16
  expiresAt : Instant
  deriving DecidableEq

/-- A request that is being served. -/
inductive UpgradePhase
  /-- It has seen the hint, and waits for the client. -/
  | looked (port : UInt16)
  | overH3
  | plain
  deriving DecidableEq

/-- A request that was sent over HTTP/3, with the hint at that time. -/
structure H3Sent where
  client : UInt16
  hint : Option H3Hint
  time : Instant
  deriving DecidableEq

/-- The two slots of a client with automatic upgrades, and its requests. `sent` is history. -/
structure Upgrades where
  clock : Instant
  h3Hint : Option H3Hint
  /-- The port that the HTTP/3 client connects to. -/
  h3Lazy : Option UInt16
  requests : HashMap ℕ UpgradePhase
  sent : List H3Sent
  deriving DecidableEq

def Upgrades.start (clock : Instant) : Upgrades := ⟨clock, none, none, ∅, []⟩

inductive UpgradeAction
  /-- The first half of `try_upgrade_to_h3`. -/
  | look (request : ℕ)
  /-- The second half, and the answer of the constructor if it is called. -/
  | take (request : ℕ) (built : Bool)
  | failed (request : ℕ)
  /-- A response over HTTP/1 or 2, its `Alt-Svc` lines, and the clock when they were read. -/
  | answered (request : ℕ) (altSvc : List HeaderValue) (readAt : Instant)
  | tick (now : Instant)
  deriving DecidableEq

def maxAltSvcMaSecs : ℕ := 24 * 3600

/-- The hint that `absorb_alt_svc` leaves: that of the first line which does not announce a
privileged port other than the port of the upstream. -/
def absorbAltSvc (originalPort : UInt16) (altSvc : List HeaderValue) (readAt : Instant) :
    Option H3Hint :=
  altSvc.findSome? fun v ↦ v.toStr.bind fun s ↦ (AltSvc.parseAltSvcH3 s).bind fun (port, ma) ↦
    if port < 1024 ∧ port ≠ originalPort then none
    else some ⟨port, readAt + fromSecs (min ma maxAltSvcMaSecs)⟩

namespace Upgrades

def send (s : Upgrades) (request : ℕ) (client : UInt16) : Upgrades :=
  { s with
    h3Lazy := some client
    requests := s.requests.insert request .overH3
    sent := ⟨client, s.h3Hint, s.clock⟩ :: s.sent }

def look (s : Upgrades) (request : ℕ) : Upgrades :=
  match s.h3Hint with
  | none => { s with requests := s.requests.insert request .plain }
  | some hint =>
    if hint.expiresAt ≤ s.clock then
      { s with h3Hint := none, requests := s.requests.insert request .plain }
    else { s with requests := s.requests.insert request (.looked hint.port) }

/-- A client that is there is used, whatever its port. -/
def take (s : Upgrades) (request : ℕ) (port : UInt16) (built : Bool) : Upgrades :=
  match s.h3Lazy with
  | some client => s.send request client
  | none =>
    if built then s.send request port
    else { s with requests := s.requests.insert request .plain }

end Upgrades

def upgradeStep (originalPort : UInt16) (s : Upgrades) : UpgradeAction → Option Upgrades
  | .look request => if request ∈ s.requests then none else some (s.look request)
  | .take request built =>
    match s.requests.lookup request with
    | some (.looked port) => some (s.take request port built)
    | _ => none
  | .failed request =>
    if s.requests.lookup request = some .overH3 then
      some { s with h3Hint := none, requests := s.requests.erase request }
    else none
  | .answered request altSvc readAt =>
    if s.requests.lookup request = some .plain ∧ readAt ≤ s.clock then
      some { s with
        h3Hint := (absorbAltSvc originalPort altSvc readAt).or s.h3Hint
        requests := s.requests.erase request }
    else none
  | .tick now => if s.clock ≤ now then some { s with clock := now } else none

/-- The client is the one for the hint, which has not expired. -/
def H3Sent.FollowsHint (m : H3Sent) : Prop :=
  ∃ hint, m.hint = some hint ∧ m.time < hint.expiresAt ∧ hint.port = m.client

/-- An announced port is that of the client there is; and while a request has looked at the hint,
neither its port changes nor does it expire. -/
def SteadyHint (originalPort : UInt16) (s : Upgrades) : UpgradeAction → Prop
  | .answered _ altSvc readAt => ∀ hint, absorbAltSvc originalPort altSvc readAt = some hint →
      (∀ client, s.h3Lazy = some client → hint.port = client) ∧
      ∀ request port, s.requests.lookup request = some (.looked port) →
        hint.port = port ∧ s.clock < hint.expiresAt
  | .failed _ => ∀ request port, s.requests.lookup request ≠ some (.looked port)
  | .tick now => ∀ request port, s.requests.lookup request = some (.looked port) →
      ∀ hint, s.h3Hint = some hint → now < hint.expiresAt
  | _ => True

/-! ## The invariant -/

/-- Who has looked at the hint has seen the current one, and the client is for that one too. -/
structure Upgrades.Inv (s : Upgrades) : Prop where
  looked : ∀ request port, s.requests.lookup request = some (.looked port) →
    ∃ hint, s.h3Hint = some hint ∧ hint.port = port ∧ s.clock < hint.expiresAt
  client : ∀ client hint, s.h3Lazy = some client → s.h3Hint = some hint → hint.port = client
  sent : ∀ m ∈ s.sent, m.FollowsHint

section

variable {originalPort : UInt16} {s t : Upgrades} {request : ℕ}

theorem Upgrades.inv_start (clock : Instant) : (Upgrades.start clock).Inv where
  looked _ _ h := nomatch h
  client _ _ h := nomatch h
  sent := by simp [Upgrades.start]

/-- A request that enters a phase other than looking leaves the requests that have looked. -/
theorem Upgrades.lookup_of_insert {phase : UpgradePhase} {j : ℕ} {port : UInt16}
    (hphase : ∀ port, phase ≠ .looked port)
    (h : (s.requests.insert request phase).lookup j = some (.looked port)) :
    s.requests.lookup j = some (.looked port) := by
  rcases HashMap.of_lookup_insert h with ⟨-, heq⟩ | h
  · exact absurd heq.symm (hphase port)
  · exact h

theorem Upgrades.Inv.look (hs : s.Inv) : (s.look request).Inv := by
  rw [Upgrades.look]
  split
  · exact ⟨fun j port h ↦ hs.looked j port (lookup_of_insert (by simp) h), hs.client, hs.sent⟩
  · rename_i hint hhint
    split_ifs with hexpired
    · refine ⟨fun j port h ↦ ?_, (fun _ _ _ h ↦ nomatch h), hs.sent⟩
      -- the hint has not expired for those who have looked at it
      obtain ⟨hint', hhint', -, hlt⟩ := hs.looked j port (lookup_of_insert (by simp) h)
      obtain rfl := some.inj (hhint.symm.trans hhint')
      exact absurd hexpired (not_le.mpr hlt)
    · refine ⟨fun j port h ↦ ?_, hs.client, hs.sent⟩
      rcases HashMap.of_lookup_insert h with ⟨-, heq⟩ | h
      · exact ⟨hint, hhint, (UpgradePhase.looked.inj heq).symm, not_le.mp hexpired⟩
      · exact hs.looked j port h

theorem Upgrades.Inv.send (hs : s.Inv) {client : UInt16} {hint : H3Hint}
    (hhint : s.h3Hint = some hint) (hport : hint.port = client)
    (hfresh : s.clock < hint.expiresAt) : (s.send request client).Inv where
  looked j port h := hs.looked j port (lookup_of_insert (by simp) h)
  client c hint' hc hhint' := by
    obtain rfl := some.inj (hhint.symm.trans hhint')
    exact hport.trans (some.inj hc)
  sent := List.forall_mem_cons.mpr ⟨⟨hint, hhint, hfresh, hport⟩, hs.sent⟩

theorem Upgrades.Inv.take (hs : s.Inv) {port : UInt16} (built : Bool)
    (hlooked : s.requests.lookup request = some (.looked port)) :
    (s.take request port built).Inv := by
  obtain ⟨hint, hhint, hport, hfresh⟩ := hs.looked request port hlooked
  rw [Upgrades.take]
  split
  · rename_i client hclient
    exact hs.send hhint (hs.client client hint hclient hhint) hfresh
  · split_ifs
    · exact hs.send hhint hport hfresh
    · exact ⟨fun j port h ↦ hs.looked j port (lookup_of_insert (by simp) h), hs.client, hs.sent⟩

theorem Upgrades.Inv.answered (hs : s.Inv) {altSvc : List HeaderValue} {readAt : Instant}
    (hsteady : SteadyHint originalPort s (.answered request altSvc readAt)) :
    Upgrades.Inv { s with
      h3Hint := (absorbAltSvc originalPort altSvc readAt).or s.h3Hint
      requests := s.requests.erase request } := by
  rcases harmed : absorbAltSvc originalPort altSvc readAt with _ | hint
  · exact ⟨fun j port h ↦ hs.looked j port (HashMap.of_lookup_erase h).2, hs.client, hs.sent⟩
  · obtain ⟨hclient, hlooked⟩ := hsteady hint harmed
    refine ⟨fun j port h ↦ ⟨hint, rfl, hlooked j port (HashMap.of_lookup_erase h).2⟩, ?_, hs.sent⟩
    intro client hint' hc hhint'
    obtain rfl := some.inj hhint'
    exact hclient client hc

theorem Upgrades.Inv.step {a : UpgradeAction} (hs : s.Inv) (hsteady : SteadyHint originalPort s a)
    (hstep : upgradeStep originalPort s a = some t) : t.Inv := by
  cases a with
  | look request =>
    rw [upgradeStep, ite_none_left_eq_some] at hstep
    exact some.inj hstep.2 ▸ hs.look
  | take request built =>
    rw [upgradeStep.eq_def] at hstep
    dsimp only at hstep
    split at hstep
    · rename_i port hlooked
      exact some.inj hstep ▸ hs.take built hlooked
    · exact nomatch hstep
  | failed request =>
    rw [upgradeStep, ite_none_right_eq_some] at hstep
    obtain ⟨-, hstep⟩ := hstep
    rw [← some.inj hstep]
    exact ⟨fun j port h ↦ absurd (HashMap.of_lookup_erase h).2 (hsteady j port),
      (fun _ _ _ h ↦ nomatch h), hs.sent⟩
  | answered request altSvc readAt =>
    rw [upgradeStep, ite_none_right_eq_some] at hstep
    exact some.inj hstep.2 ▸ hs.answered hsteady
  | tick now =>
    rw [upgradeStep, ite_none_right_eq_some] at hstep
    obtain ⟨-, hstep⟩ := hstep
    rw [← some.inj hstep]
    refine ⟨fun j port h ↦ ?_, hs.client, hs.sent⟩
    obtain ⟨hint, hhint, hport, -⟩ := hs.looked j port h
    exact ⟨hint, hhint, hport, hsteady j port h hint hhint⟩

end

/-- **Upgrades follow the hint** in every run with steady hints: what is sent over HTTP/3 goes to
the port of the hint that is current and unexpired then. -/
theorem upgrades_follow_hint (originalPort : UInt16) (clock : Instant) (as : List UpgradeAction)
    (h : AllSteps (upgradeStep originalPort) (SteadyHint originalPort) (.start clock) as) :
    Always (upgradeStep originalPort) (fun s ↦ ∀ m ∈ s.sent, m.FollowsHint) (.start clock) as :=
  (always_of_allSteps (Upgrades.inv_start clock) (fun _ _ _ hs hsteady ↦ hs.step hsteady) h).mono
    fun _ hs ↦ hs.sent

private def announces8443 : HeaderValue := "h3=\":8443\"; ma=60"

private def announces9443 : HeaderValue := "h3=\":9443\"; ma=60"

/-- A request learns of port 8443, and the next one is sent there. -/
private def firstUpgrade : List UpgradeAction :=
  [.look 1, .answered 1 [announces8443] 0, .look 2, .take 2 true]

private theorem steadyHint_firstUpgrade :
    AllSteps (upgradeStep 443) (SteadyHint 443) (.start 0) firstUpgrade := by
  -- the one answer comes when nobody has looked and there is no client
  refine allSteps_cons.mpr ⟨trivial, fun s hs ↦ allSteps_cons.mpr ⟨?_, fun t ht ↦ ?_⟩⟩
  · obtain rfl : (⟨0, none, none, Finmap.singleton 1 .plain, []⟩ : Upgrades) = s :=
      some.inj (hs ▸ by decide +kernel)
    refine fun hint _ ↦ ⟨(fun _ hclient ↦ nomatch hclient), fun j port hlooked ↦ ?_⟩
    have hempty := Upgrades.lookup_of_insert (s := .start 0) (by simp) hlooked
    exact absurd hempty (by simp [Upgrades.start])
  · exact allSteps_cons.mpr ⟨trivial, fun _ _ ↦ allSteps_cons.mpr ⟨trivial, fun _ _ ↦ allSteps_nil⟩⟩

theorem firstUpgrade_follows_hint :
    AllSteps (upgradeStep 443) (SteadyHint 443) (.start 0) firstUpgrade ∧
      (run (upgradeStep 443) (.start 0) firstUpgrade).map (fun s ↦ s.sent.length) = some 1 ∧
      Always (upgradeStep 443) (fun s ↦ ∀ m ∈ s.sent, m.FollowsHint) (.start 0) firstUpgrade :=
  ⟨steadyHint_firstUpgrade, by decide +kernel,
    upgrades_follow_hint 443 0 firstUpgrade steadyHint_firstUpgrade⟩

/-- The hint expires, the upstream announces port 9443, and a request is sent to port 8443. -/
theorem upgrade_to_old_port :
    (run (upgradeStep 443) (.start 0) (firstUpgrade ++
        [.tick (fromSecs 60), .look 3, .answered 3 [announces9443] (fromSecs 60),
          .look 4, .take 4 true])).map (fun s ↦ (s.h3Hint, s.sent.head?)) =
      some (some ⟨9443, fromSecs 120⟩,
        some ⟨8443, some ⟨9443, fromSecs 120⟩, fromSecs 60⟩) ∧
    ¬H3Sent.FollowsHint
      ⟨8443, some ⟨9443, fromSecs 120⟩, fromSecs 60⟩ := by
  refine ⟨by decide +kernel, ?_⟩
  rintro ⟨hint, hhint, -, hport⟩
  rw [← some.inj hhint] at hport
  exact absurd hport (by decide)

end Proxy

end Hypershunt
