import Hypershunt.Access.Policy
import Hypershunt.Foundation.HashMap
import Hypershunt.Http.Compress
import Hypershunt.Http.HeaderRule
import Hypershunt.Listener.Host
import Hypershunt.Oidc.Cookies

/-!
# What a request is served with

The data the dispatcher of `listener/service.rs` works on: the application state, the route a
request resolves to, and the service of one listener. Whatever answers from outside the dispatcher
(an authenticator, the identity provider, the store of cached responses, a handler) is a field that
gives the answer, as it is while the request is served.

Templates are of an arbitrary type `T`; compiling and rendering them is among the `Externals`,
together with the libraries the dispatcher calls.
-/

namespace Hypershunt

namespace Listener

/-- What templates, rate limits and handlers see of a request. -/
structure RequestContext where
  clientIp : String := ""
  username : String := ""
  groups : String := ""
  method : String := ""
  path : String := ""
  query : String := ""
  pathAndQuery : String := ""
  host : String := ""
  scheme : String := ""
  clientCertSubject : String := ""
  clientCertSans : String := ""
  country : String := ""
  headers : List (HeaderName × String) := []
  deriving DecidableEq

structure Externals (T : Type) where
  parseAuthority : String → Option Authority
  displayIp : IpAddr → String
  parseTemplate : String → T
  render : T → RequestContext → String
  encode : Compress.Encoding → List UInt8 → Option (List UInt8)
  canonicalReason : ℕ → Option String

/-! ## Identities -/

/-- What an authenticator answers, the first time it is asked about a request and later. -/
abbrev Authenticator := ℕ → HeaderMap → Principal

inductive JwtResult
  | valid (id : Identity)
  | invalid
  | expired
  | notMine

structure JwtManager where
  validate : HeaderMap → Option JwtResult
  /-- The credential back-end, in session mode. -/
  inner : Option Authenticator
  cookieName : String
  validitySecs : ℕ
  issue : Identity → Except String String
  jwksJson : String

def JwtManager.makeSetCookie (j : JwtManager) (id : Identity) (isTls : Bool) :
    Except String String :=
  (j.issue id).map fun token ↦ Oidc.strictCookie j.cookieName token j.validitySecs isTls

structure OidcProvider where
  isReady : Bool
  loginPath : String
  callbackPath : String
  logoutPath : String
  backchannelLogoutEnabled : Bool
  backchannelLogoutPath : String
  handleLogin : Request → Response
  handleCallback : Request → Response
  handleLogout : Request → Response
  handleBackchannelLogout : Request → Response
  bearerEnabled : Bool
  validateBearerToken : String → Except String Identity
  refreshEnabled : Bool
  refreshCookieName : String
  refreshTtlSecs : ℕ
  /-- Refresh a session: the identity, and the id the session has from now on. -/
  refresh : String → Except String (Identity × String)

structure ClientCert where
  cn : String
  subject : String
  sans : List String

/-! ## Routes -/

inductive RateLimitOutcome
  | allow
  | deny (retryAfterSecs : ℕ)
  deriving DecidableEq

abbrev RateLimitRule := RequestContext → HeaderMap → RateLimitOutcome

abbrev Handler := RequestContext → Request → Response

/-- What a lookup in the response cache gives. -/
inductive Lookup
  | hit (resp : Response)
  | staleWhileRevalidate (stale : Response)
  | revalidate (validators : List (HeaderName × HeaderValue)) (serveStaleOnError : Bool)
      (stale : Response) (revalidated : Response → Response)
  | miss

/-- The directives of a request's `Cache-Control` that the dispatcher looks at. -/
structure RequestCacheControl where
  noStore : Bool := false
  onlyIfCached : Bool := false

structure CachePolicy where
  methods : List String
  honorsClientCc : Bool
  parseCacheControl : HeaderMap → RequestCacheControl
  /-- The lookups made for a request, in order. -/
  lookup : ℕ → HeaderMap → Lookup
  /-- Whether the request is the one that fetches. -/
  leads : Bool
  maybeStore : HeaderMap → Response → Response

def CachePolicy.requestCacheable (p : CachePolicy) (m : Method) : Bool :=
  (m = .get || m = .head) && p.methods.contains m.asStr

/-- The client's directives, where the location honours them. -/
def CachePolicy.directives (p : CachePolicy) (h : HeaderMap) : RequestCacheControl :=
  if p.honorsClientCc then p.parseCacheControl h else {}

/-- What the variables of a route's templates need. -/
structure RouteNeeds where
  headers : List HeaderName
  geoip : Bool
  principal : Bool

structure Route (T : Type) where
  handler : Handler
  policy : Option (PolicyBlock T)
  /-- The realm of `basic-auth`. -/
  realm : Option String
  headerRules : Option (HeaderRules T)
  rateLimits : List RateLimitRule
  maxRequestBody : Option ℕ
  cachePolicy : Option CachePolicy
  vars : Option RouteNeeds

/-! ## The service of a listener -/

structure HealthState where
  enabledListeners : List String
  liveness : List String
  readiness : List String

structure AppState (T : Type) where
  /-- The route of a request on a listener, and the request with its target rewritten. -/
  router : String → Request → Option (Route T × Request)
  /-- Routing rewrites the target of a request and nothing else. -/
  router_rewrites : ∀ {bind req route req'}, router bind req = some (route, req') →
    req' = { req with uri := req'.uri }
  acmeChallenges : HashMap String String
  authenticator : Authenticator
  geoip : Option (IpAddr → Option String)
  health : HealthState
  draining : Bool
  errorPages : ErrorPages
  jwtManager : Option JwtManager
  oidc : Option OidcProvider
  /-- Whether there is a store of cached responses. -/
  cache : Bool

structure Service (T : Type) where
  state : AppState T
  bind : String
  peer : IpAddr
  isTls : Bool
  handlerTimeout : Option ℕ
  maxBodyBytes : Option ℕ
  autoAltSvc : Option String
  clientCert : Option ClientCert

/-! ## A service without anything else

The smallest setting in which a request is served: no authentication, no rules, no limits. -/

/-- Libraries that render and encode nothing. -/
def Externals.bare : Externals Unit where
  parseAuthority s := some ⟨s, s, none⟩
  displayIp _ := "192.0.2.1"
  parseTemplate _ := ()
  render _ _ := ""
  encode _ _ := none
  canonicalReason _ := none

variable {T : Type}

def Route.bare (handler : Handler) : Route T where
  handler := handler
  policy := none
  realm := none
  headerRules := none
  rateLimits := []
  maxRequestBody := none
  cachePolicy := none
  vars := none

/-- A provider that is not ready, and whose endpoints are the usual ones. -/
def OidcProvider.bare : OidcProvider where
  isReady := false
  loginPath := "/oidc/login"
  callbackPath := "/oidc/callback"
  logoutPath := "/oidc/logout"
  backchannelLogoutEnabled := false
  backchannelLogoutPath := ""
  handleLogin _ := response404
  handleCallback _ := response404
  handleLogout _ := response404
  handleBackchannelLogout _ := response404
  bearerEnabled := false
  validateBearerToken _ := .error ""
  refreshEnabled := false
  refreshCookieName := "sid"
  refreshTtlSecs := 60
  refresh _ := .error "unknown session"

def AppState.bare (router : String → Request → Option (Route T × Request))
    (hrouter : ∀ {bind req route req'}, router bind req = some (route, req') →
      req' = { req with uri := req'.uri }) : AppState T where
  router := router
  router_rewrites := hrouter
  acmeChallenges := ∅
  authenticator _ _ := .anonymous
  geoip := none
  health := ⟨[], [], []⟩
  draining := false
  errorPages _ := none
  jwtManager := none
  oidc := none
  cache := false

/-- One route for every request. -/
def AppState.serving (route : Route T) : AppState T :=
  .bare (fun _ req ↦ some (route, req)) <| by
    rintro bind req route req' ⟨⟩
    rfl

def Service.bare (state : AppState T) : Service T where
  state := state
  bind := "tcp://[::]:80"
  peer := .v4 0
  isTls := false
  handlerTimeout := none
  maxBodyBytes := none
  autoAltSvc := none
  clientCert := none

end Listener

end Hypershunt
