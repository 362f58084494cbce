import Hypershunt.Foundation.Run
import Hypershunt.Listener.Dispatch

/-!
# The gauge of active requests

`dispatch_inner` increments the gauge `requests_active` once the body cap is passed and decrements
it right before it returns. Here the function is cut at its `.await`s: `firstPoll` runs from the
arrival of a request to its first await or its return, and `resume` from one await to the next. At
an await the future may be dropped, as when the client closes its connection, and nothing
decrements the gauge then. A panic in what is awaited counts as the drop at that await.

Some returns do not decrement it either: the `503` of an OIDC endpoint while the provider is not
ready, and the refusal of a request that names no host. By `active_eq_card_add_countP` these and
the drops are all there is.

That the pieces make up the dispatcher is `reply_eq_dispatch`: a request that is not dropped gets
the reply of `dispatch`.
-/

namespace Hypershunt

open List Option

namespace Listener

open Finmap Finset HashMap

variable {T : Type} (x : Externals T) (svc : Service T)

/-! ## The pieces -/

/-- The awaits of the dispatcher, with what is needed to go on. Those of the handler count as
one. -/
inductive Await
  | oidcCallback (oidc : OidcProvider) (req : Request)
  | methodNotAllowed
  | backchannelLogout (oidc : OidcProvider) (req : Request)
  | refresh (req : Request)
  | serve (req : Request) (identity : Option Identity) (pending : List String)
  | compress (req : Request) (late : Bool) (served : Served)

/-- Where a poll ends. -/
inductive Stop
  | suspended (point : Await)
  | returned (reply : Reply)

def incActive (active : ℤ) : ℤ := active + 1

def decActive (active : ℤ) : ℤ := active - 1

/-- A request to one of the endpoints of a provider. -/
def pollOidc (oidc : OidcProvider) (req : Request) (active : ℤ) : Option (Stop × ℤ) :=
  let path := req.uri.path
  let notReady : Stop × ℤ := (.returned (.early (response503Retry 5)), active)
  if path = oidc.loginPath then
    some (if oidc.isReady then (.returned (.early (oidc.handleLogin req)), decActive active)
      else notReady)
  else if path = oidc.callbackPath then
    some (if oidc.isReady then (.suspended (.oidcCallback oidc req), active) else notReady)
  else if oidc.backchannelLogoutEnabled ∧ path = oidc.backchannelLogoutPath then
    some (if req.method ≠ .post then (.suspended .methodNotAllowed, active)
      else if oidc.isReady then (.suspended (.backchannelLogout oidc req), active)
      else notReady)
  else if path = oidc.logoutPath then
    some (if oidc.isReady then (.returned (.early (oidc.handleLogout req)), decActive active)
      else notReady)
  else none

/-- The endpoints before those of the identity provider. -/
def plainEndpoint (req : Request) : Option Response :=
  acmeChallenge svc req <|> tryServe svc req <|> jwks svc req

def pollNamed (missingHost : Bool) (req : Request) (active : ℤ) : Stop × ℤ :=
  if overCap svc.maxBodyBytes req.headers then
    (.returned ⟨response413, Grpc.mapResponse x.canonicalReason response413
      (Grpc.isGrpcRequest req.headers), none⟩, active)
  else
    let active := incActive active
    match plainEndpoint svc req with
    | some resp => (.returned (.early resp), decActive active)
    | none => match svc.state.oidc.bind (pollOidc · req active) with
      | some stop => stop
      | none =>
        if missingHost then (.returned (.early response400), active)
        else if (refreshCall svc req).isSome then (.suspended (.refresh req), active)
        else (.suspended (.serve req (priorIdentity svc req) []), active)

/-- From the arrival of a request to the first await. -/
def firstPoll (req : Request) (active : ℤ) : Stop × ℤ :=
  match normalizeHost x.parseAuthority req with
  | .ok req => pollNamed x svc false req active
  | .error .missing => pollNamed x svc true req active
  | .error _ => (.returned (.early response400), active)

/-- From an await to the next one. -/
def resume (late : Bool) (active : ℤ) : Await → Stop × ℤ
  | .oidcCallback oidc req => (.returned (.early (oidc.handleCallback req)), decActive active)
  | .methodNotAllowed =>
    (.returned (.early (responseStatus 405 svc.state.errorPages)), decActive active)
  | .backchannelLogout oidc req =>
    (.returned (.early (oidc.handleBackchannelLogout req)), decActive active)
  | .refresh req =>
    let (identity, pending) := resolveIdentity svc req
    (.suspended (.serve req identity pending), active)
  | .serve req identity pending =>
    (.suspended (.compress req late (serve x svc identity pending req)), active)
  | .compress req late served => (.returned (finish x svc late req served), decActive active)

/-! ## A server -/

/-- A request that has not been answered, on the service it arrived at. -/
structure InFlight (T : Type) where
  svc : Service T
  req : Request
  point : Await

structure Answer (T : Type) where
  svc : Service T
  req : Request
  reply : Reply

/-- The gauge, the requests in flight and the replies so far. -/
structure Server (T : Type) where
  active : ℤ
  inFlight : HashMap ℕ (InFlight T)
  replies : HashMap ℕ (Answer T)

open Server

namespace Server

def init : Server T := ⟨0, ∅, ∅⟩

/-- The end of a poll. -/
def settle (s : Server T) (i : ℕ) (svc : Service T) (req : Request) : Stop × ℤ → Server T
  | (.suspended point, active) =>
    { s with active, inFlight := s.inFlight.insert i ⟨svc, req, point⟩ }
  | (.returned reply, active) =>
    { active, inFlight := s.inFlight.erase i, replies := s.replies.insert i ⟨svc, req, reply⟩ }

/-- The gauge counts the requests in flight. -/
def Balanced (s : Server T) : Prop := s.active = s.inFlight.keys.card

end Server

inductive ServerAction (T : Type)
  | arrive (i : ℕ) (svc : Service T) (req : Request)
  | resume (i : ℕ) (late : Bool)
  | drop (i : ℕ)

open ServerAction

def serverStep (s : Server T) : ServerAction T → Option (Server T)
  | .arrive i svc req =>
    if i ∈ s.inFlight ∨ i ∈ s.replies then none
    else some (s.settle i svc req (firstPoll x svc req s.active))
  | .resume i late => (s.inFlight.lookup i).map fun f ↦
      s.settle i f.svc f.req (resume x f.svc late s.active f.point)
  | .drop i => (s.inFlight.lookup i).map fun _ ↦ { s with inFlight := s.inFlight.erase i }

/-! ## What a poll does to the gauge -/

/-- An endpoint that answers that the provider is not ready. -/
def notReady (oidc : OidcProvider) (req : Request) : Bool :=
  let path := req.uri.path
  if path = oidc.loginPath ∨ path = oidc.callbackPath then !oidc.isReady
  else if oidc.backchannelLogoutEnabled ∧ path = oidc.backchannelLogoutPath then
    req.method = .post && !oidc.isReady
  else path = oidc.logoutPath && !oidc.isReady

def keepsActiveNamed (missingHost : Bool) (req : Request) : Bool :=
  !overCap svc.maxBodyBytes req.headers && (plainEndpoint svc req).isNone &&
    (svc.state.oidc.any (notReady · req) || missingHost && (oidcEndpoint svc req).isNone)

/-- Those to an OIDC endpoint of a provider that is not ready, or without a host and an endpoint. -/
def keepsActive (req : Request) : Bool :=
  match normalizeHost x.parseAuthority req with
  | .ok req => keepsActiveNamed svc false req
  | .error .missing => keepsActiveNamed svc true req
  | .error _ => false

/-- How many requests a poll leaves in flight. -/
def Stop.count : Stop → ℤ
  | .suspended _ => 1
  | .returned _ => 0

variable {x svc} {req : Request} {active : ℤ}

variable {oidc : OidcProvider} {out : Stop × ℤ}

theorem pollOidc_eq_none_iff (active : ℤ) (h : svc.state.oidc = some oidc) :
    pollOidc oidc req active = none ↔ oidcEndpoint svc req = none := by
  simp only [pollOidc, oidcEndpoint, h, bind_eq_bind, bind_some]
  split_ifs <;> simp

theorem pollOidc_snd (h : pollOidc oidc req active = some out) :
    out.2 = active - 1 + out.1.count + if notReady oidc req then 1 else 0 := by
  simp only [pollOidc] at h
  -- the endpoints one by one, of a provider that is ready and of one that is not
  split_ifs at h
  all_goals
    obtain rfl := some.inj h
    grind [notReady, Stop.count, decActive]

/-- The endpoints of a provider answer every request for which it says that it is not ready. -/
theorem notReady_eq_false_of_pollOidc (h : pollOidc oidc req active = none) :
    notReady oidc req = false := by
  simp only [pollOidc] at h
  split_ifs at h
  simp_all [notReady]

/-- No endpoint of the provider, and so none that is not ready. -/
theorem oidcEndpoint_eq_none_of_poll (h : svc.state.oidc.bind (pollOidc · req active) = none) :
    oidcEndpoint svc req = none ∧ svc.state.oidc.any (notReady · req) = false := by
  rcases hoidc : svc.state.oidc with _ | oidc
  · simp [oidcEndpoint, hoidc]
  · rw [hoidc, bind_some] at h
    refine ⟨(pollOidc_eq_none_iff active hoidc).mp h, ?_⟩
    rw [any_some, notReady_eq_false_of_pollOidc h]

theorem pollNamed_snd (missingHost : Bool) :
    (pollNamed x svc missingHost req active).2 = active +
      (pollNamed x svc missingHost req active).1.count +
      if keepsActiveNamed svc missingHost req then 1 else 0 := by
  rw [pollNamed, keepsActiveNamed]
  by_cases hcap : overCap svc.maxBodyBytes req.headers = true
  · simp [hcap, Stop.count]
  simp only [hcap]
  rcases hplain : plainEndpoint svc req with _ | resp
  · rcases hpoll : svc.state.oidc.bind (pollOidc · req (incActive active)) with _ | out
    · obtain ⟨hendpoint, hready⟩ := oidcEndpoint_eq_none_of_poll hpoll
      rw [hendpoint, hready]
      cases missingHost
      · split_ifs <;> simp_all [Stop.count, incActive]
      · simp [Stop.count, incActive]
    · obtain ⟨oidc, hoidc, hout⟩ := bind_eq_some_iff.mp hpoll
      have hendpoint : (oidcEndpoint svc req).isNone = false := by
        rw [isNone_eq_false_iff, ← ne_none_iff_isSome, ne_eq,
          ← pollOidc_eq_none_iff (incActive active) hoidc, hout]
        nofun
      simp [hoidc, hendpoint, pollOidc_snd hout, incActive]
  · simp [Stop.count, incActive, decActive]

theorem firstPoll_snd :
    (firstPoll x svc req active).2 = active + (firstPoll x svc req active).1.count +
      if keepsActive x svc req then 1 else 0 := by
  rw [firstPoll, keepsActive]
  split
  · exact pollNamed_snd false
  · exact pollNamed_snd true
  · simp [Stop.count]

theorem resume_snd (late : Bool) (point : Await) :
    (resume x svc late active point).2 =
      active - 1 + (resume x svc late active point).1.count := by
  rcases point with ⟨oidc, req⟩ | _ | ⟨oidc, req⟩ | req | ⟨req, identity, pending⟩ |
    ⟨req, late, served⟩
  all_goals simp [resume, Stop.count, decActive]

/-! ## What a run does to it -/

/-- The steps that leave the gauge too high. -/
def ServerAction.leaks (x : Externals T) : ServerAction T → Bool
  | .arrive _ svc req => keepsActive x svc req
  | .resume _ _ => false
  | .drop _ => true

variable {s t : Server T} {a : ServerAction T} {as : List (ServerAction T)}

theorem Server.card_settle (i : ℕ) (svc : Service T) (req : Request) (out : Stop × ℤ) :
    ((s.settle i svc req out).inFlight.keys.card : ℤ) =
      (s.inFlight.keys.erase i).card + out.1.count := by
  obtain ⟨point | reply, active⟩ := out
  · have hkeys : (s.settle i svc req (.suspended point, active)).inFlight.keys =
        insert i (s.inFlight.keys.erase i) := by
      rw [settle, keys_insert]
      ext j
      by_cases hj : j = i <;> simp [hj]
    rw [hkeys, card_insert_of_notMem (notMem_erase i _)]
    rfl
  · rw [settle, keys_erase]
    exact (add_zero _).symm

theorem Server.active_settle (i : ℕ) (svc : Service T) (req : Request) (out : Stop × ℤ) :
    (s.settle i svc req out).active = out.2 := by
  obtain ⟨point | reply, active⟩ := out <;> rfl

/-- A step moves the gauge with the number of requests in flight, unless it leaks. -/
theorem active_sub_card_of_step (h : serverStep x s a = some t) :
    t.active - t.inFlight.keys.card =
      s.active - s.inFlight.keys.card + if a.leaks x then 1 else 0 := by
  rcases a with ⟨i, svc, req⟩ | ⟨i, late⟩ | i
  case arrive =>
    simp only [serverStep, ite_none_left_eq_some, not_or, some.injEq] at h
    obtain ⟨⟨hfresh, -⟩, rfl⟩ := h
    rw [card_settle, active_settle, firstPoll_snd, erase_eq_of_notMem hfresh, leaks]
    omega
  case resume =>
    obtain ⟨f, hf, rfl⟩ := map_eq_some_iff.mp h
    have hmem : i ∈ s.inFlight.keys := mem_keys.mpr (mem_iff.mpr ⟨f, hf⟩)
    have hcard := card_erase_add_one hmem
    rw [card_settle, active_settle, resume_snd, leaks, if_neg Bool.false_ne_true]
    omega
  case drop =>
    obtain ⟨f, hf, rfl⟩ := map_eq_some_iff.mp h
    have hmem : i ∈ s.inFlight.keys := mem_keys.mpr (mem_iff.mpr ⟨f, hf⟩)
    have hcard := card_erase_add_one hmem
    rw [keys_erase, leaks, if_pos rfl]
    change s.active - ((s.inFlight.keys.erase i).card : ℤ) = _
    omega

/-- **The account of the gauge**: the requests in flight, and one more for each leak. -/
theorem active_eq_card_add_countP (h : run (serverStep x) .init as = some t) :
    t.active = t.inFlight.keys.card + as.countP (leaks x) := by
  have hrun : ∀ s : Server T, run (serverStep x) s as = some t →
      t.active - t.inFlight.keys.card =
        s.active - s.inFlight.keys.card + as.countP (leaks x) := by
    clear h
    induction as with
    | nil =>
      intro s h
      obtain rfl := some.inj h
      simp
    | cons a as ih =>
      intro s h
      rw [run_cons, bind_eq_some_iff] at h
      obtain ⟨u, hu, h⟩ := h
      rw [ih u h, active_sub_card_of_step hu, countP_cons]
      split_ifs <;> omega
  have hinit := hrun _ h
  simp only [init, keys_empty, card_empty] at hinit
  omega

/-- **When the gauge balances**: exactly if no request was dropped at an await, answered that the
provider is not ready, or refused for want of a host. -/
theorem balanced_iff (h : run (serverStep x) .init as = some t) :
    (t.Balanced ↔ ∀ a ∈ as, a.leaks x = false) ∧
      (t.inFlight = ∅ → (t.active = 0 ↔ ∀ a ∈ as, a.leaks x = false)) := by
  have haccount := active_eq_card_add_countP h
  have hleaks : as.countP (leaks x) = 0 ↔ ∀ a ∈ as, a.leaks x = false := by
    simp only [countP_eq_zero, Bool.not_eq_true]
  refine ⟨?_, fun hquiet ↦ ?_⟩
  · rw [← hleaks, Server.Balanced]
    omega
  · rw [hquiet, keys_empty, card_empty] at haccount
    rw [← hleaks]
    omega

/-- A server without locations, whose identity provider is not ready yet. -/
private def emptySite : Service Unit :=
  .bare { AppState.bare (fun _ _ ↦ none) nofun with oidc := some .bare }

private def getPath (path : String) : Request := .bare .get path [("host", "example.org")]

/-- A request for a page that does not exist, from its arrival to its reply. -/
theorem balanced_after_page :
    ∃ t, run (serverStep .bare) .init
      [.arrive 0 emptySite (getPath "/"), .resume 0 false, .resume 0 false] = some t ∧
      t.inFlight.keys = ∅ ∧ t.active = 0 := by
  have hrun : ((run (serverStep .bare) .init
      [.arrive 0 emptySite (getPath "/"), .resume 0 false, .resume 0 false]).map
        fun t ↦ t.inFlight.keys) = some ∅ := by
    decide +kernel
  obtain ⟨t, ht, hkeys⟩ := map_eq_some_iff.mp hrun
  refine ⟨t, ht, hkeys, ?_⟩
  have hbalanced : t.Balanced := (balanced_iff ht).1.mpr (by decide +kernel)
  rw [hbalanced, hkeys]
  rfl

/-- A login while the provider is not ready: the request is answered and the gauge stays at one. -/
theorem login_keeps_active :
    ∃ t, run (serverStep .bare) .init [.arrive 0 emptySite (getPath "/oidc/login")] = some t ∧
      t.inFlight.keys = ∅ ∧ t.active = 1 := by
  have hrun : ((run (serverStep .bare) .init
      [.arrive 0 emptySite (getPath "/oidc/login")]).map fun t ↦ (t.inFlight.keys, t.active)) =
        some (∅, 1) := by
    decide +kernel
  obtain ⟨t, ht, hstate⟩ := map_eq_some_iff.mp hrun
  exact ⟨t, ht, congrArg Prod.fst hstate, congrArg Prod.snd hstate⟩

/-! ## The pieces make up the dispatcher -/

variable (x svc) in
/-- What a request gets from an await on. -/
def Await.outcome (late : Bool) : Await → Reply
  | .oidcCallback oidc req => .early (oidc.handleCallback req)
  | .methodNotAllowed => .early (responseStatus 405 svc.state.errorPages)
  | .backchannelLogout oidc req => .early (oidc.handleBackchannelLogout req)
  | .refresh req =>
    let (identity, pending) := resolveIdentity svc req
    finish x svc late req (Listener.serve x svc identity pending req)
  | .serve req identity pending => finish x svc late req (Listener.serve x svc identity pending req)
  | .compress req late served => finish x svc late req served

variable (x svc) in
def Stop.outcome (late : Bool) : Stop → Reply
  | .suspended point => point.outcome x svc late
  | .returned reply => reply

theorem outcome_pollOidc (hoidc : svc.state.oidc = some oidc)
    (h : pollOidc oidc req active = some out) (late : Bool) :
    ∃ resp, oidcEndpoint svc req = some resp ∧ out.1.outcome x svc late = .early resp := by
  simp only [pollOidc] at h
  simp only [oidcEndpoint, hoidc, bind_eq_bind, bind_some]
  split_ifs at h ⊢
  all_goals
    obtain rfl := some.inj h
    exact ⟨_, rfl, rfl⟩

theorem builtin_eq : builtin svc req = (plainEndpoint svc req <|> oidcEndpoint svc req) := by
  rw [builtin, plainEndpoint]
  rcases acmeChallenge svc req with _ | resp
  · rcases tryServe svc req with _ | resp
    · rfl
    · rfl
  · rfl

variable (x svc) in
/-- The dispatcher after the intake. -/
def afterIntake (late : Bool) : Except Reply Request → Reply
  | .error reply => reply
  | .ok req => (Await.refresh req).outcome x svc late

theorem outcome_pollNamed (missingHost late : Bool) :
    (pollNamed x svc missingHost req active).1.outcome x svc late =
      afterIntake x svc late (intakeNamed x svc missingHost req) := by
  rw [pollNamed, intakeNamed, builtin_eq]
  by_cases hcap : overCap svc.maxBodyBytes req.headers = true
  · simp only [hcap, if_true]
    rfl
  simp only [hcap]
  rcases hplain : plainEndpoint svc req with _ | resp
  · rcases hpoll : svc.state.oidc.bind (pollOidc · req (incActive active)) with _ | out
    · rw [(oidcEndpoint_eq_none_of_poll hpoll).1]
      cases missingHost
      · rcases hcall : refreshCall svc req with _ | call
        · simp [Stop.outcome, afterIntake, Await.outcome, resolveIdentity, hcall]
        · simp [Stop.outcome, afterIntake]
      · rfl
    · obtain ⟨oidc, hoidc, hout⟩ := bind_eq_some_iff.mp hpoll
      obtain ⟨resp, hresp, houtcome⟩ := outcome_pollOidc (x := x) hoidc hout late
      rw [hresp]
      exact houtcome
  · rfl

theorem outcome_firstPoll (late : Bool) :
    (firstPoll x svc req active).1.outcome x svc late = dispatch x svc late req := by
  have hdispatch : dispatch x svc late req = afterIntake x svc late (intake x svc req) := rfl
  rw [hdispatch, firstPoll, intake]
  rcases normalizeHost x.parseAuthority req with error | named
  · rcases error
    case missing => exact outcome_pollNamed true late
    all_goals rfl
  · exact outcome_pollNamed false late

theorem outcome_resume (late late' : Bool) (point : Await) :
    ∃ l, (resume x svc late active point).1.outcome x svc late' = point.outcome x svc l := by
  rcases point with ⟨oidc, req⟩ | _ | ⟨oidc, req⟩ | req | ⟨req, identity, pending⟩ |
    ⟨req, late, served⟩
  case serve => exact ⟨late, rfl⟩
  all_goals exact ⟨late', rfl⟩

/-- Every request is on its way to the reply of the dispatcher, or has got it. -/
structure Faithful (x : Externals T) (s : Server T) : Prop where
  inFlight : ∀ i f, s.inFlight.lookup i = some f →
    ∀ late, ∃ l, f.point.outcome x f.svc late = dispatch x f.svc l f.req
  replies : ∀ i ans, s.replies.lookup i = some ans →
    ∃ l, ans.reply = dispatch x ans.svc l ans.req

theorem Faithful.erase (h : Faithful x s) (i : ℕ) :
    Faithful x { s with inFlight := s.inFlight.erase i } where
  inFlight j f hj := h.inFlight j f (of_lookup_erase hj).2
  replies := h.replies

theorem Faithful.settle (h : Faithful x s) (i : ℕ)
    (hout : ∀ late, ∃ l, out.1.outcome x svc late = dispatch x svc l req) :
    Faithful x (s.settle i svc req out) := by
  obtain ⟨point | reply, active⟩ := out
  · refine ⟨fun j f hj ↦ ?_, h.replies⟩
    rcases of_lookup_insert hj with ⟨-, rfl⟩ | hj
    · exact hout
    · exact h.inFlight j f hj
  · refine ⟨(h.erase i).inFlight, fun j ans hj ↦ ?_⟩
    rcases of_lookup_insert hj with ⟨-, rfl⟩ | hj
    · exact hout false
    · exact h.replies j ans hj

theorem Faithful.step (h : Faithful x s) (hstep : serverStep x s a = some t) : Faithful x t := by
  rcases a with ⟨i, svc, req⟩ | ⟨i, late⟩ | i
  case arrive =>
    simp only [serverStep, ite_none_left_eq_some, some.injEq] at hstep
    obtain ⟨-, rfl⟩ := hstep
    exact h.settle i fun late ↦ ⟨late, outcome_firstPoll late⟩
  case resume =>
    obtain ⟨f, hf, rfl⟩ := map_eq_some_iff.mp hstep
    refine h.settle i fun late' ↦ ?_
    obtain ⟨l, hl⟩ : ∃ l, (resume x f.svc late s.active f.point).1.outcome x f.svc late' =
        f.point.outcome x f.svc l := outcome_resume late late' f.point
    rw [hl]
    exact h.inFlight i f hf l
  case drop =>
    obtain ⟨f, -, rfl⟩ := map_eq_some_iff.mp hstep
    exact h.erase i

/-- What a request gets is the reply of the dispatcher. -/
theorem reply_eq_dispatch (h : run (serverStep x) .init as = some t) {i : ℕ} {ans : Answer T}
    (hans : t.replies.lookup i = some ans) :
    ∃ late, ans.reply = dispatch x ans.svc late ans.req := by
  have hfaithful : Faithful x t := by
    refine run_induction ⟨?_, ?_⟩ (fun _ _ _ hs hstep ↦ hs.step hstep) h
    · simp [init]
    · simp [init]
  exact hfaithful.replies i ans hans

theorem reply_eq_dispatch_page :
    ∃ ans late, ((run (serverStep .bare) .init
        [.arrive 0 emptySite (getPath "/"), .resume 0 false, .resume 0 false]).bind
          fun t ↦ t.replies.lookup 0) = some ans ∧
      ans.reply = dispatch .bare ans.svc late ans.req := by
  have hsome : ((run (serverStep .bare) .init
      [.arrive 0 emptySite (getPath "/"), .resume 0 false, .resume 0 false]).bind
        fun t ↦ t.replies.lookup 0).isSome = true := by
    decide +kernel
  obtain ⟨ans, hans⟩ := isSome_iff_exists.mp hsome
  obtain ⟨t, ht, hlookup⟩ := bind_eq_some_iff.mp hans
  obtain ⟨late, hreply⟩ := reply_eq_dispatch ht hlookup
  exact ⟨ans, late, hans, hreply⟩

end Listener

end Hypershunt
