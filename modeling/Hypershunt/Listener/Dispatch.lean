import Hypershunt.Http.Grpc
import Hypershunt.Listener.Service

/-!
# Dispatching a request

`dispatch_inner` of `listener/service.rs`, from the arrival of a request to the response that is
sent, and the two transports that lead to it.

The source is one function with many early returns. Here it is a sequence of stages: `intake` for
everything before the identity is resolved, `resolveIdentity`, `checks` for everything that can
still refuse a routed request, `answer` for the cache and the handler, and `finish` for what every
routed response goes through. A stage that ends the request returns its response as an error.

Metrics, logs and the access log read all of this and change none of it; they are left out.
-/

namespace Hypershunt

namespace Listener

open Text Oidc HeaderRules

/-- A response, and the body stream that was handed to the handler if it was reached. -/
structure Served where
  response : Response
  handed : Option Body

/-- The end of a request: `response` goes to the access log, `sent` to the client, which may be told
of a failure as a gRPC client. -/
structure Reply where
  response : Response
  sent : Response
  handed : Option Body

/-- An early return that is sent as it is. -/
def Reply.early (r : Response) : Reply := ⟨r, r, none⟩

variable {T : Type} (x : Externals T) (svc : Service T)

/-! ## Before the identity -/

/-- The announced length is over the cap. -/
def overCap (max : Option ℕ) (h : HeaderMap) : Bool :=
  match max, contentLength h with
  | some max, some cl => decide (max < cl)
  | _, _ => false

def acmeChallenge (req : Request) : Option Response := do
  let token ← stripPrefix "/.well-known/acme-challenge/" req.uri.path
  let body ← svc.state.acmeChallenges.lookup token
  return ⟨200, [("content-type", "text/plain")], some (bytes body)⟩

/-- `health::try_serve`. -/
def tryServe (req : Request) : Option Response := do
  let health := svc.state.health
  let path := req.uri.path
  if !health.enabledListeners.contains svc.bind || (req.method ≠ .get && req.method ≠ .head) then
    none
  else
    let ready ←
      if health.liveness.contains path then some true
      else if health.readiness.contains path then some (!svc.state.draining)
      else none
    let check := trimStartMatches (· == '/') path
    let state := if ready then "ok" else "draining"
    let body := bytes
      ("\x7b\"status\":\"" ++ state ++ "\",\"check\":\"" ++ check ++ "\"\x7d\n")
    let headers := [("content-type", "application/json"), ("cache-control", "no-cache, no-store")]
      ++ if ready then [] else [("retry-after", "1")]
    let status := if ready then 200 else 503
    if req.method = .head then
      return ⟨status, headers ++ [("content-length", Nat.repr body.length)], some []⟩
    else return ⟨status, headers, some body⟩

def jwks (req : Request) : Option Response :=
  if req.uri.path = "/.well-known/jwks.json" then
    svc.state.jwtManager.map fun jwt ↦
      ⟨200, [("content-type", "application/json"), ("cache-control", "public, max-age=3600")],
        some (bytes jwt.jwksJson)⟩
  else none

def oidcEndpoint (req : Request) : Option Response := do
  let oidc ← svc.state.oidc
  let path := req.uri.path
  let whenReady (resp : Response) : Response := if oidc.isReady then resp else response503Retry 5
  if path = oidc.loginPath then whenReady (oidc.handleLogin req)
  else if path = oidc.callbackPath then whenReady (oidc.handleCallback req)
  else if oidc.backchannelLogoutEnabled ∧ path = oidc.backchannelLogoutPath then
    if req.method ≠ .post then responseStatus 405 svc.state.errorPages
    else whenReady (oidc.handleBackchannelLogout req)
  else if path = oidc.logoutPath then whenReady (oidc.handleLogout req)
  else none

/-- The endpoints that are served before routing, in the order they are tried. -/
def builtin (req : Request) : Option Response :=
  acmeChallenge svc req <|> tryServe svc req <|> jwks svc req <|> oidcEndpoint svc req

/-- The stages from the listener's body cap to the refusal of a request without a host. -/
def intakeNamed (missingHost : Bool) (req : Request) : Except Reply Request :=
  if overCap svc.maxBodyBytes req.headers then
    .error ⟨response413,
      Grpc.mapResponse x.canonicalReason response413 (Grpc.isGrpcRequest req.headers), none⟩
  else
    match builtin svc req with
    | some resp => .error (.early resp)
    | none => if missingHost then .error (.early response400) else .ok req

/-- Everything before the identity is resolved. A missing host comes after the built-in
endpoints. -/
def intake (req : Request) : Except Reply Request :=
  match normalizeHost x.parseAuthority req with
  | .ok req => intakeNamed x svc false req
  | .error .missing => intakeNamed x svc true req
  | .error _ => .error (.early response400)

/-! ## The identity -/

/-- The identity that needs no refresh: a session token, a client certificate or a bearer token. -/
def priorIdentity (req : Request) : Option Identity :=
  let session := match svc.state.jwtManager.bind fun j ↦ j.validate req.headers with
    | some (.valid id) => some id
    | _ => none
  let bearer := do
    let oidc ← svc.state.oidc
    let token ← if oidc.bearerEnabled && oidc.isReady then extractBearer req.headers else none
    (oidc.validateBearerToken token).toOption
  -- a certificate says who the client is and nothing about groups
  session <|> svc.clientCert.map (fun c ↦ ⟨c.cn, []⟩) <|> bearer

/-- The refresh a request causes: by which provider and token manager, of which session. -/
def refreshCall (req : Request) : Option (OidcProvider × JwtManager × String) := do
  if (priorIdentity svc req).isSome then none
  else
    let oidc ← svc.state.oidc
    if oidc.isReady && oidc.refreshEnabled then
      let jwt ← svc.state.jwtManager
      let sid ← cookieValue req.headers oidc.refreshCookieName
      return (oidc, jwt, sid)
    else none

/-- The identity of a request, and the `Set-Cookie` values queued while it was resolved. -/
def resolveIdentity (req : Request) : Option Identity × List String :=
  match refreshCall svc req with
  | none => (priorIdentity svc req, [])
  | some (oidc, jwt, sid) =>
    match oidc.refresh sid with
    | .ok (identity, newSid) =>
      (some identity,
        (jwt.makeSetCookie identity svc.isTls).toOption.toList ++
          if newSid ≠ sid then
            [refreshCookieValue oidc.refreshCookieName newSid oidc.refreshTtlSecs svc.isTls]
          else [])
    -- the session is gone at the provider, so the browser is told to forget its id
    | .error _ => (none, [clearRefreshCookie oidc.refreshCookieName svc.isTls])

def credentialAuth : Authenticator :=
  (svc.state.jwtManager.bind JwtManager.inner).getD svc.state.authenticator

/-- `RequestAuthProvider`: a resolved identity spares the credential back-end. -/
def authProvider (identity : Option Identity) (h : HeaderMap) : AuthProvider := fun n ↦
  match identity with
  | some id => .authenticated id
  | none => credentialAuth svc n h

/-! ## Routed requests -/

/-- `principal_strings`. -/
def principalStrings : Principal → String × String
  | .anonymous => ("", "")
  | .authenticated id => (id.username, ",".intercalate id.groups)

/-- The country of the client, looked up only for a policy or a variable that needs it. -/
def country (route : Route T) : Option String :=
  if route.policy.any PolicyBlock.needsGeoip || route.vars.any RouteNeeds.geoip then
    svc.state.geoip.bind fun reader ↦ reader svc.peer
  else none

/-- The first values of the headers that the variables of the route refer to. -/
def varHeaders (route : Route T) (req : Request) : List (HeaderName × String) :=
  (route.vars.elim [] RouteNeeds.headers).map fun n ↦ (n, (req.headers.getStr n).getD "")

/-- What is known when the policy is evaluated. `orig` is the request before a rewrite. -/
def earlyContext (route : Route T) (orig req : Request) (principal : Principal) : RequestContext :=
  { clientIp := x.displayIp svc.peer
    username := (principalStrings principal).1
    groups := (principalStrings principal).2
    method := orig.method.asStr
    path := orig.uri.path
    query := orig.uri.query.getD ""
    pathAndQuery := orig.uri.pathAndQueryStr
    host := (orig.headers.getStr "host").getD ""
    scheme := if svc.isTls then "https" else "http"
    country := (country svc route).getD ""
    headers := varHeaders route req }

def context (route : Route T) (orig req : Request) (principal : Principal) : RequestContext :=
  { earlyContext x svc route orig req principal with
    clientCertSubject := svc.clientCert.elim "" ClientCert.subject
    clientCertSans := svc.clientCert.elim "" fun c ↦ ",".intercalate c.sans }

/-- A request that has to authenticate: a browser is sent to the login, others are challenged. -/
def challenge (route : Route T) (orig req : Request) : Response :=
  match svc.state.oidc with
  | some oidc =>
    if oidc.isReady && wantsHtml req.headers then
      responseRedirect (buildLoginRedirect oidc.loginPath orig.uri.pathAndQueryStr) 302
    else responseWwwAuth (route.realm.getD "Restricted") svc.state.errorPages
  | none => responseWwwAuth (route.realm.getD "Restricted") svc.state.errorPages

/-- The outcome of the route's policy, if it has one, and the context it leaves. -/
def evaluatePolicy (route : Route T) (identity : Option Identity) (req : Request) :
    PolicyOutcome T × EvalContext :=
  let ctx := EvalContext.new svc.peer (country svc route)
  match route.policy with
  | some policy => policy.evaluate x.parseTemplate (authProvider svc identity req.headers) ctx
  | none => (.allow, ctx)

/-- The identity for the templates, when the policy did not ask for one. -/
def templatePrincipal (route : Route T) (identity : Option Identity) (req : Request)
    (ctx : EvalContext) : Principal :=
  if (route.headerRules.any needsPrincipal || route.vars.any RouteNeeds.principal) &&
      ctx.takePrincipal = .anonymous then
    authProvider svc identity req.headers ctx.calls
  else ctx.takePrincipal

/-- The rate-limit gate: the first rule that denies. -/
def rateLimited (ctx : RequestContext) (h : HeaderMap) : List RateLimitRule → Option ℕ
  | [] => none
  | rule :: rules => match rule ctx h with
    | .allow => rateLimited ctx h rules
    | .deny retryAfterSecs => some retryAfterSecs

/-- Everything that can still refuse a routed request. -/
def checks (route : Route T) (identity : Option Identity) (orig req : Request) :
    Except Response (Principal × RequestContext) :=
  match evaluatePolicy x svc route identity req with
  | (.deny code, _) =>
    if code = 401 then .error (challenge svc route orig req)
    else .error (responseStatus code svc.state.errorPages)
  | (.redirect target code, ctx) =>
    .error (responseRedirect
      (x.render target (earlyContext x svc route orig req ctx.takePrincipal)) code)
  | (.allow, ctx) =>
    let principal := templatePrincipal svc route identity req ctx
    let rctx := context x svc route orig req principal
    -- the location's own cap; the listener's was checked on arrival
    if overCap route.maxRequestBody req.headers then .error response413
    else
      match rateLimited rctx req.headers route.rateLimits with
      | some retryAfterSecs => .error (response429 retryAfterSecs)
      | none => .ok (principal, rctx)

/-! ## The answer -/

/-- Hand the request to the handler. -/
def ask (handle : Request → Response) (req : Request) : Served := ⟨handle req, some req.body⟩

/-- `serve_with_cache`. -/
def serveWithCache (policy : CachePolicy) (handle : Request → Response) (req : Request) : Served :=
  let rcc := policy.directives req.headers
  let fetch : Served :=
    let served := ask handle req
    { served with response := policy.maybeStore req.headers served.response }
  -- the client asked not to be cached: neither a lookup nor a store
  if rcc.noStore then ask handle req
  else
    match policy.lookup 0 req.headers with
    | .hit resp => ⟨resp, none⟩
    | .staleWhileRevalidate stale => ⟨stale, none⟩
    | .revalidate validators serveStaleOnError stale revalidated =>
      -- the cache asks about its own copy, not about the client's
      let h := (req.headers.remove "if-none-match").remove "if-modified-since"
      let served := ask handle
        { req with headers := validators.foldl (fun h v ↦ h.insert v.1 v.2) h }
      let raw := served.response
      if raw.status = 304 then { served with response := revalidated raw }
      else if serveStaleOnError && 500 ≤ raw.status && raw.status < 600 then
        { served with response := stale }
      else { served with response := policy.maybeStore req.headers raw }
    | .miss =>
      if rcc.onlyIfCached then ⟨⟨504, [], some (bytes "<h1>504 Gateway Timeout</h1>")⟩, none⟩
      else if policy.leads then fetch
      else
        -- a follower looks again once the leader is done
        match policy.lookup 1 req.headers with
        | .hit resp => ⟨resp, none⟩
        | _ => fetch

/-- The cache and the handler, after the request-header rules. -/
def answer (route : Route T) (ctx : RequestContext) (req : Request) : Served :=
  let rules := route.headerRules.elim [] request
  let req := { req with headers := applyHeaders (fun t ↦ x.render t ctx) rules req.headers }
  match route.cachePolicy with
  | some policy =>
    if svc.state.cache && policy.requestCacheable req.method then
      serveWithCache policy (route.handler ctx) req
    else ask (route.handler ctx) req
  | none => ask (route.handler ctx) req

/-- Append a `Set-Cookie` line, if the text can be a header value. -/
def setCookie (h : HeaderMap) (cookie : String) : HeaderMap :=
  match HeaderValue.fromStr cookie with
  | some v => h.append "set-cookie" v
  | none => h

/-- The session cookie of a principal that has just presented credentials. -/
def freshCookie (identity : Option Identity) (principal : Principal) : List String :=
  match identity, svc.state.jwtManager, principal with
  | none, some jwt, .authenticated id =>
    if jwt.inner.isSome then (jwt.makeSetCookie id svc.isTls).toOption.toList else []
  | _, _, _ => []

/-- The response headers of a request that was answered. -/
def decorate (route : Route T) (identity : Option Identity) (pending : List String)
    (principal : Principal) (ctx : RequestContext) (h : HeaderMap) : HeaderMap :=
  let rules := route.headerRules.elim [] response
  -- a refreshed identity had its session cookie queued with the pending ones; `freshCookie` is
  -- empty for it, so the cookie is not set twice
  (pending ++ freshCookie svc identity principal).foldl setCookie
    (applyHeaders (fun t ↦ x.render t ctx) rules h)

/-- The serve future. -/
def serve (identity : Option Identity) (pending : List String) (orig : Request) : Served :=
  match svc.state.router svc.bind orig with
  | none => ⟨response404, none⟩
  | some (route, req) =>
    match checks x svc route identity orig req with
    | .error resp => ⟨resp, none⟩
    | .ok (principal, ctx) =>
      let served := answer x svc route ctx req
      let headers := decorate x svc route identity pending principal ctx served.response.headers
      ⟨{ served.response with headers := headers }, served.handed⟩

/-- The handler timeout is configured and runs out before the serve future ends. -/
def timedOut (late : Bool) : Bool := svc.handlerTimeout.isSome && late

/-- Advertise HTTP/3, unless the response already says something about it. -/
def advertiseAltSvc (resp : Response) : Response :=
  match svc.autoAltSvc.bind HeaderValue.fromStr with
  | some v =>
    if resp.headers.containsKey "alt-svc" then resp
    else { resp with headers := resp.headers.insert "alt-svc" v }
  | none => resp

/-- What every routed response goes through. A request cut off may have reached the handler. -/
def finish (late : Bool) (orig : Request) (served : Served) : Reply :=
  let resp := if timedOut svc late then response408 else served.response
  let encoding := (orig.headers.getStr "accept-encoding").bind Compress.negotiate
  let resp := advertiseAltSvc svc (Compress.maybeCompress x.encode resp encoding)
  ⟨resp, Grpc.mapResponse x.canonicalReason resp (Grpc.isGrpcRequest orig.headers), served.handed⟩

/-! ## Transports -/

/-- One request, from its arrival to its response. `late`: the handler exceeds its timeout. -/
def dispatch (late : Bool) (req : Request) : Reply :=
  match intake x svc req with
  | .error reply => reply
  | .ok req =>
    let (identity, pending) := resolveIdentity svc req
    finish x svc late req (serve x svc identity pending req)

/-- `H3RequestBody`: the frames of a stream, up to the one that takes it over the cap. -/
def h3Frames (max : Option ℕ) : ℕ → Body → Body
  | _, [] => []
  | seen, frame :: frames =>
    let seen := seen + frame.length
    -- the frame that goes over the cap is dropped whole
    if max.any fun max ↦ decide (max < seen) then [] else frame :: h3Frames max seen frames

def handleH3Request (late : Bool) (req : Request) : Reply :=
  if overCap svc.maxBodyBytes req.headers then .early response413
  else dispatch x svc late { req with body := h3Frames svc.maxBodyBytes 0 req.body }

inductive Transport
  | tcp
  | quic
  deriving DecidableEq

def receive (t : Transport) (late : Bool) (req : Request) : Reply :=
  match t with
  | .tcp => dispatch x svc late req
  | .quic => handleH3Request x svc late req

end Listener

end Hypershunt
