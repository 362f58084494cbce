import Hypershunt.Listener.Outcome

/-!
# The cookie of a rotated session

When a refresh replaces the id of a session, the browser has to learn the new id: the old one is
gone from the map. The dispatcher queues the cookie and is meant to apply the queue "to the
response just before it leaves". It does so on the path through the cache and the handler only; a
request that is refused after the refresh, or whose handler times out, drops the queue.

So the cookie is sent exactly when the request is answered: it is routed, passes every check, and
the serve future ends in time (`rotated_cookie_sent_iff_answered`).
-/

namespace Hypershunt

open List Option

namespace Listener

variable {T : Type} {x : Externals T} {svc : Service T} {route : Route T}
  {identity : Option Identity} {orig req : Request} {late : Bool} {h : HeaderMap}
  {l : HeaderName × HeaderValue}

/-- The request reaches the cache or the handler, and their answer comes in time. -/
structure Answered (x : Externals T) (svc : Service T) (identity : Option Identity) (late : Bool)
    (orig : Request) : Prop where
  inTime : timedOut svc late = false
  passes : ∃ route req, svc.state.router svc.bind orig = some (route, req) ∧
    Passes x svc route identity orig req

theorem no_cookie_of_error {resp : Response}
    (h : checks x svc route identity orig req = .error resp) (v : HeaderValue) :
    ("set-cookie", v) ∉ resp.headers := by
  have hchecked := checks_spec x svc route identity orig req
  rw [h] at hchecked
  cases hchecked with
  | challenged =>
    unfold challenge
    split
    · split
      · simp [responseRedirect]
      · simp [responseWwwAuth, htmlType]
    · simp [responseWwwAuth, htmlType]
  | denied =>
    unfold responseStatus
    split
    · simp [htmlType]
    · simp [htmlResponse, htmlType]
  | redirected => simp [responseRedirect]
  | tooLarge => simp [response413, htmlResponse, htmlType]
  | rateLimited => simp [response429, htmlType]

theorem mem_setCookie_of_mem (cookie : String) (hl : l ∈ h) : l ∈ setCookie h cookie := by
  unfold setCookie
  split
  · exact mem_append_left _ hl
  · exact hl

theorem mem_foldl_setCookie_of_mem (cookies : List String) (hl : l ∈ h) :
    l ∈ cookies.foldl setCookie h := by
  induction cookies generalizing h with
  | nil => exact hl
  | cons cookie cookies ih => exact ih (mem_setCookie_of_mem cookie hl)

theorem cookie_mem_foldl_setCookie {cookies : List String} {cookie : String}
    (hcookie : cookie ∈ cookies) (hvalue : HeaderValue.fromStr cookie = some cookie) :
    ("set-cookie", cookie) ∈ cookies.foldl setCookie h := by
  induction cookies generalizing h with
  | nil => exact absurd hcookie not_mem_nil
  | cons cookie' cookies ih =>
    rcases mem_cons.mp hcookie with rfl | hcookie
    · refine mem_foldl_setCookie_of_mem cookies ?_
      rw [setCookie, hvalue]
      exact mem_append_right _ (mem_singleton.mpr rfl)
    · exact ih hcookie

/-- What becomes of a queued cookie. -/
theorem pending_mem_serve_iff {pending : List String} {cookie : String} (hcookie : cookie ∈ pending)
    (hvalue : HeaderValue.fromStr cookie = some cookie) :
    ("set-cookie", cookie) ∈ ((serve x svc identity pending orig).inTime svc late).headers ↔
      Answered x svc identity late orig := by
  rw [Served.inTime]
  cases htime : timedOut svc late with
  | true =>
    -- the response to a timeout is made afresh and carries no cookie
    refine ⟨fun h ↦ ?_, fun h ↦ ?_⟩
    · exact absurd h not_mem_nil
    · rw [h.inTime] at htime
      cases htime
  | false =>
    rw [if_neg Bool.false_ne_true, serve]
    cases hroute : svc.state.router svc.bind orig with
    | none =>
      refine ⟨fun h ↦ ?_, fun ⟨_, route, req, hpasses, _⟩ ↦ ?_⟩
      · simp [response404, htmlResponse, htmlType] at h
      · rw [hroute] at hpasses
        cases hpasses
    | some found =>
      obtain ⟨route, req⟩ := found
      have hpasses : Answered x svc identity late orig ↔ Passes x svc route identity orig req := by
        refine ⟨fun ⟨_, route', req', heq, h⟩ ↦ ?_, fun h ↦ ⟨htime, route, req, hroute, h⟩⟩
        rw [hroute] at heq
        cases heq
        exact h
      have hchecked := checks_spec x svc route identity orig req
      rw [hpasses]
      simp only
      cases hchecks : checks x svc route identity orig req with
      | error resp =>
        -- a refusal is returned before the cookies are appended
        refine ⟨fun h ↦ absurd h (no_cookie_of_error hchecks cookie), fun h ↦ ?_⟩
        rw [checks_of_passes h] at hchecks
        cases hchecks
      | ok passed =>
        rw [hchecks] at hchecked
        cases hchecked with
        | passed h =>
          refine ⟨fun _ ↦ h, fun _ ↦ ?_⟩
          exact cookie_mem_foldl_setCookie (mem_append_left _ hcookie) hvalue

/-! ## The result -/

/-- The refresh succeeded and replaced the session id; `req'` is the request after it. -/
structure Rotates (x : Externals T) (svc : Service T) (req req' : Request) (oidc : OidcProvider)
    (sid newSid : String) (identity : Identity) : Prop where
  intake : intake x svc req = .ok req'
  call : ∃ jwt, refreshCall svc req' = some (oidc, jwt, sid)
  refresh : oidc.refresh sid = .ok (identity, newSid)
  ne : newSid ≠ sid
  /-- New ids are made of visible characters. -/
  visible : Oidc.Visible newSid

theorem cookieValue_of_refreshCall {oidc : OidcProvider} {jwt : JwtManager} {sid : String}
    (h : refreshCall svc req = some (oidc, jwt, sid)) :
    Oidc.cookieValue req.headers oidc.refreshCookieName = some sid := by
  unfold refreshCall at h
  split at h
  · cases h
  obtain ⟨oidc', -, h⟩ := bind_eq_some_iff.mp h
  split at h
  · obtain ⟨jwt', -, h⟩ := bind_eq_some_iff.mp h
    obtain ⟨sid', hsid, h⟩ := bind_eq_some_iff.mp h
    cases h
    exact hsid
  · cases h

/-- The response to a request that rotated its session carries the new cookie exactly when the
request is answered. -/
theorem rotated_cookie_sent_iff_answered (x : Externals T) (svc : Service T) (late : Bool)
    {req req' : Request} {oidc : OidcProvider} {sid newSid : String} {identity : Identity}
    (h : Rotates x svc req req' oidc sid newSid identity) :
    ("set-cookie", Oidc.refreshCookieValue oidc.refreshCookieName newSid oidc.refreshTtlSecs
        svc.isTls) ∈ (dispatch x svc late req).sent.headers ↔
      Answered x svc (some identity) late req' := by
  obtain ⟨jwt, hcall⟩ := h.call
  have hvalue := Oidc.fromStr_refreshCookieValue (cookieValue_of_refreshCall hcall) h.visible
    oidc.refreshTtlSecs svc.isTls
  have hresolve : resolveIdentity svc req' = (some identity,
      (jwt.makeSetCookie identity svc.isTls).toOption.toList ++
        [Oidc.refreshCookieValue oidc.refreshCookieName newSid oidc.refreshTtlSecs svc.isTls]) := by
    simp only [resolveIdentity, hcall, h.refresh, ne_eq, h.ne, not_false_eq_true, if_true]
  rw [dispatch_of_intake h.intake, mem_headers_finish _ _ (by decide), hresolve,
    pending_mem_serve_iff (mem_append_right _ (mem_singleton.mpr rfl)) hvalue]

private def alice : Identity := ⟨"alice", []⟩

/-- A provider that rotates session `s1` to `s2`. -/
private def rotating : OidcProvider :=
  { OidcProvider.bare with
    isReady := true
    refreshEnabled := true
    refresh := fun sid ↦ if sid = "s1" then .ok (alice, "s2") else .error "unknown session" }

/-- A location with the given policy, whose handler answers with an empty page. -/
private def page (policy : PolicyBlock Unit) : Route Unit :=
  { Route.bare fun _ _ ↦ ⟨200, [], some []⟩ with policy := some policy }

private def site (policy : PolicyBlock Unit) : Service Unit :=
  .bare { AppState.serving (page policy) with
    jwtManager := some ⟨fun _ ↦ none, none, "session", 60, fun _ ↦ .ok "token", ""⟩
    oidc := some rotating }

/-- The request of a browser whose session token has expired. -/
private def visit : Request := .bare .get "/" [("host", "example.org"), ("cookie", "sid=s1")]

private def allowAll : PolicyBlock Unit := .new (fun _ ↦ ()) [⟨none, .allow⟩]

private def denyAll : PolicyBlock Unit := .new (fun _ ↦ ()) [⟨none, .deny 403⟩]

theorem cookie_sent_when_allowed :
    ("set-cookie", "sid=s2; Path=/; HttpOnly; SameSite=Strict; Max-Age=60") ∈
      (dispatch .bare (site allowAll) false visit).sent.headers := by
  have hrotates : Rotates .bare (site allowAll) visit visit rotating "s1" "s2" alice :=
    ⟨rfl, ⟨_, rfl⟩, rfl, by decide, by decide⟩
  have hpasses : Passes .bare (site allowAll) (page allowAll) (some alice) visit visit :=
    ⟨fun policy hpolicy ↦ Option.some.inj hpolicy ▸ rfl, rfl,
      fun rule hrule ↦ absurd hrule not_mem_nil⟩
  exact (rotated_cookie_sent_iff_answered .bare (site allowAll) false hrotates).mpr
    ⟨rfl, page allowAll, visit, rfl, hpasses⟩

/-- The policy denies the request, and the browser keeps an id that no longer exists. -/
theorem cookie_lost_when_denied :
    Rotates .bare (site denyAll) visit visit rotating "s1" "s2" alice ∧
      (dispatch .bare (site denyAll) false visit).sent.status = 403 ∧
      (dispatch .bare (site denyAll) false visit).sent.headers.getAll "set-cookie" = [] :=
  ⟨⟨rfl, ⟨_, rfl⟩, rfl, by decide, by decide⟩, by decide, by decide⟩

end Listener

end Hypershunt
