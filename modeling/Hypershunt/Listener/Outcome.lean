import Hypershunt.Listener.Dispatch

/-!
# What the stages of the dispatcher leave

One statement for each stage, so that what is proved about whole requests does not depend on how
the stage is written: a routed request is either refused, with a response the server makes itself,
or passes every check and is answered; and `finish` keeps the status and every header that does not
describe the body.
-/

namespace Hypershunt

namespace Listener

variable {T : Type} {x : Externals T} {svc : Service T} {route : Route T}
  {identity : Option Identity} {orig req : Request} {late : Bool} {req' : Request}

/-! ## The intake -/

/-- The request after its host was looked at, unless that refuses it at once. -/
def named (x : Externals T) (req : Request) : Option Request :=
  match normalizeHost x.parseAuthority req with
  | .ok req' => some req'
  | .error .missing => some req
  | .error _ => none

theorem sameButHost_of_named (h : named x req = some req') : SameButHost req req' := by
  unfold named at h
  split at h
  case h_1 req'' hnormal =>
    cases h
    exact sameButHost_normalizeHost hnormal
  case h_2 =>
    cases h
    exact .refl req
  case h_3 => cases h

theorem overCap_of_named (h : named x req = some req') (max : Option ℕ) :
    overCap max req'.headers = overCap max req.headers := by
  unfold overCap
  rw [(sameButHost_of_named h).contentLength_eq]

/-- How the stages before the identity end, and why. -/
inductive Taken (x : Externals T) (svc : Service T) (req : Request) : Except Reply Request → Prop
  | badHost (h : named x req = none) : Taken x svc req (.error (.early response400))
  | tooLarge {req' : Request} (h : named x req = some req')
      (hcap : overCap svc.maxBodyBytes req'.headers = true) :
      Taken x svc req (.error ⟨response413, Grpc.mapResponse x.canonicalReason response413
        (Grpc.isGrpcRequest req'.headers), none⟩)
  | builtin {req' : Request} (h : named x req = some req')
      (hcap : overCap svc.maxBodyBytes req'.headers = false) {resp : Response}
      (hresp : builtin svc req' = some resp) : Taken x svc req (.error (.early resp))
  | noHost {req' : Request} (h : named x req = some req')
      (hcap : overCap svc.maxBodyBytes req'.headers = false) (hnone : builtin svc req' = none) :
      Taken x svc req (.error (.early response400))
  | taken {req' : Request} (h : named x req = some req')
      (hcap : overCap svc.maxBodyBytes req'.headers = false) (hnone : builtin svc req' = none) :
      Taken x svc req (.ok req')

theorem taken_intakeNamed (h : named x req = some req') (missingHost : Bool) :
    Taken x svc req (intakeNamed x svc missingHost req') := by
  unfold intakeNamed
  cases hcap : overCap svc.maxBodyBytes req'.headers with
  | true => exact .tooLarge h hcap
  | false =>
    rw [if_neg Bool.false_ne_true]
    cases hresp : builtin svc req' with
    | some resp => exact .builtin h hcap hresp
    | none =>
      cases missingHost with
      | true => exact .noHost h hcap hresp
      | false => exact .taken h hcap hresp

theorem intake_of_named (svc : Service T) (h : named x req = some req') :
    ∃ missingHost, intake x svc req = intakeNamed x svc missingHost req' := by
  unfold named at h
  split at h
  case h_1 hnormal =>
    cases h
    exact ⟨false, by rw [intake, hnormal]⟩
  case h_2 hnormal =>
    cases h
    exact ⟨true, by rw [intake, hnormal]⟩
  case h_3 => cases h

theorem taken_intake (x : Externals T) (svc : Service T) (req : Request) :
    Taken x svc req (intake x svc req) := by
  unfold intake
  split
  case h_1 req' hnormal =>
    refine taken_intakeNamed ?_ false
    rw [named, hnormal]
  case h_2 hnormal =>
    refine taken_intakeNamed ?_ true
    rw [named, hnormal]
  case h_3 e hne hnormal =>
    refine .badHost ?_
    rw [named, hnormal]
    cases e with
    | missing => exact absurd rfl hne
    | duplicate => rfl
    | invalid => rfl
    | mismatch => rfl

/-! ## The checks -/

theorem rateLimited_eq_none_iff {ctx : RequestContext} {h : HeaderMap}
    {rules : List RateLimitRule} :
    rateLimited ctx h rules = none ↔ ∀ rule ∈ rules, rule ctx h = .allow := by
  induction rules with
  | nil => exact ⟨fun _ rule hrule ↦ absurd hrule List.not_mem_nil, fun _ ↦ rfl⟩
  | cons rule rules ih =>
    rw [rateLimited, List.forall_mem_cons]
    cases hrule : rule ctx h with
    | allow => rw [ih, eq_self, true_and]
    | deny secs => exact ⟨fun h ↦ absurd h (Option.some_ne_none secs), fun h ↦ nomatch h.1⟩

/-- The principal and the context of a request that its policy allows. -/
def allowedPrincipal (x : Externals T) (svc : Service T) (route : Route T)
    (identity : Option Identity) (req : Request) : Principal :=
  templatePrincipal svc route identity req (evaluatePolicy x svc route identity req).2

def allowedContext (x : Externals T) (svc : Service T) (route : Route T)
    (identity : Option Identity) (orig req : Request) : RequestContext :=
  context x svc route orig req (allowedPrincipal x svc route identity req)

/-- The policy of the route, if it has one, allows the request. -/
def PolicyAllows (x : Externals T) (svc : Service T) (route : Route T) (identity : Option Identity)
    (req : Request) : Prop :=
  ∀ policy ∈ route.policy,
    (policy.evaluate x.parseTemplate (authProvider svc identity req.headers)
      (EvalContext.new svc.peer (country svc route))).1 = .allow

/-- The policy, every rate limit and the cap of the location let the request pass. -/
structure Passes (x : Externals T) (svc : Service T) (route : Route T) (identity : Option Identity)
    (orig req : Request) : Prop where
  policy : PolicyAllows x svc route identity req
  cap : overCap route.maxRequestBody req.headers = false
  rateLimits : ∀ rule ∈ route.rateLimits,
    rule (allowedContext x svc route identity orig req) req.headers = .allow

theorem policyAllows_iff :
    PolicyAllows x svc route identity req ↔
      (evaluatePolicy x svc route identity req).1 = .allow := by
  unfold PolicyAllows evaluatePolicy
  cases route.policy with
  | none => exact ⟨fun _ ↦ rfl, fun _ policy h ↦ nomatch h⟩
  | some policy => exact ⟨fun h ↦ h policy rfl, fun h policy' heq ↦ Option.some.inj heq ▸ h⟩

/-- How the checks of a routed request end, and why. -/
inductive Checked (x : Externals T) (svc : Service T) (route : Route T) (identity : Option Identity)
    (orig req : Request) : Except Response (Principal × RequestContext) → Prop
  | passed (h : Passes x svc route identity orig req) :
      Checked x svc route identity orig req (.ok (allowedPrincipal x svc route identity req,
        allowedContext x svc route identity orig req))
  | challenged (h : (evaluatePolicy x svc route identity req).1 = .deny 401) :
      Checked x svc route identity orig req (.error (challenge svc route orig req))
  | denied {code : ℕ} (h : (evaluatePolicy x svc route identity req).1 = .deny code)
      (hcode : code ≠ 401) :
      Checked x svc route identity orig req (.error (responseStatus code svc.state.errorPages))
  | redirected {template : T} {code : ℕ} (target : String)
      (h : (evaluatePolicy x svc route identity req).1 = .redirect template code) :
      Checked x svc route identity orig req (.error (responseRedirect target code))
  | tooLarge (hpolicy : PolicyAllows x svc route identity req)
      (hcap : overCap route.maxRequestBody req.headers = true) :
      Checked x svc route identity orig req (.error response413)
  | rateLimited (hpolicy : PolicyAllows x svc route identity req) {rule : RateLimitRule}
      (hrule : rule ∈ route.rateLimits)
      (hcap : overCap route.maxRequestBody req.headers = false)
      (hdenied : rule (allowedContext x svc route identity orig req) req.headers ≠ .allow)
      (secs : ℕ) : Checked x svc route identity orig req (.error (response429 secs))

theorem checks_spec (x : Externals T) (svc : Service T) (route : Route T)
    (identity : Option Identity) (orig req : Request) :
    Checked x svc route identity orig req (checks x svc route identity orig req) := by
  obtain ⟨outcome, ctx, he⟩ :
    ∃ outcome ctx, evaluatePolicy x svc route identity req = (outcome, ctx) := ⟨_, _, rfl⟩
  have houtcome : (evaluatePolicy x svc route identity req).1 = outcome := by rw [he]
  have hctx : allowedContext x svc route identity orig req =
      context x svc route orig req (templatePrincipal svc route identity req ctx) := by
    rw [allowedContext, allowedPrincipal, he]
  unfold checks
  rw [he]
  -- the outcome of the policy first, then the checks in the order they are made
  cases outcome with
  | deny code =>
    by_cases hcode : code = 401
    · subst hcode
      exact .challenged houtcome
    · simp only [hcode, if_false]
      exact .denied houtcome hcode
  | redirect template code => exact .redirected _ houtcome
  | allow =>
    have hpolicy := policyAllows_iff.mpr houtcome
    cases hcap : overCap route.maxRequestBody req.headers with
    | true => exact .tooLarge hpolicy hcap
    | false =>
      simp only [Bool.false_eq_true, if_false, ← hctx]
      cases hrates : rateLimited (allowedContext x svc route identity orig req) req.headers
          route.rateLimits with
      | none =>
        have hprincipal : templatePrincipal svc route identity req ctx =
            allowedPrincipal x svc route identity req := by rw [allowedPrincipal, he]
        rw [hprincipal]
        exact .passed ⟨hpolicy, hcap, rateLimited_eq_none_iff.mp hrates⟩
      | some secs =>
        have hdenied : ¬∀ rule ∈ route.rateLimits,
            rule (allowedContext x svc route identity orig req) req.headers = .allow := by
          rw [← rateLimited_eq_none_iff, hrates]
          exact Option.some_ne_none secs
        push Not at hdenied
        obtain ⟨rule, hrule, hdenied⟩ := hdenied
        exact .rateLimited hpolicy hrule hcap hdenied secs

theorem checks_of_passes (h : Passes x svc route identity orig req) :
    checks x svc route identity orig req = .ok (allowedPrincipal x svc route identity req,
      allowedContext x svc route identity orig req) := by
  have hchecked := checks_spec x svc route identity orig req
  have hallow := policyAllows_iff.mp h.policy
  generalize checks x svc route identity orig req = result at hchecked ⊢
  cases hchecked with
  | passed => rfl
  | challenged hdeny => cases hallow.symm.trans hdeny
  | denied hdeny => cases hallow.symm.trans hdeny
  | redirected _ hredirect => cases hallow.symm.trans hredirect
  | tooLarge _ hcap => cases h.cap.symm.trans hcap
  | rateLimited _ hrule _ hdenied => exact absurd (h.rateLimits _ hrule) hdenied

/-! ## The answer -/

/-- What the cache answers by itself. -/
def CachePolicy.answers (policy : CachePolicy) (h : HeaderMap) : Option Response :=
  match policy.lookup 0 h with
  | .hit resp => some resp
  | .staleWhileRevalidate stale => some stale
  | .revalidate .. => none
  | .miss =>
    if (policy.directives h).onlyIfCached then
      some ⟨504, [], some (Text.bytes "<h1>504 Gateway Timeout</h1>")⟩
    else if policy.leads then none
    else
      match policy.lookup 1 h with
      | .hit resp => some resp
      | _ => none

/-- The headers of a request after the rules of its route. -/
def ruledHeaders (x : Externals T) (route : Route T) (ctx : RequestContext) (h : HeaderMap) :
    HeaderMap :=
  applyHeaders (fun t ↦ x.render t ctx) (route.headerRules.elim [] HeaderRules.request) h

/-- What a request is answered without asking the handler. -/
def cached (x : Externals T) (svc : Service T) (route : Route T) (ctx : RequestContext)
    (req : Request) : Option Response :=
  let h := ruledHeaders x route ctx req.headers
  route.cachePolicy.bind fun policy ↦
    if svc.state.cache && policy.requestCacheable req.method && !(policy.directives h).noStore then
      policy.answers h
    else none

theorem serveWithCache_cases (policy : CachePolicy) (handle : Request → Response) (req : Request)
    (hstore : (policy.directives req.headers).noStore = false) :
    (∃ resp, policy.answers req.headers = some resp ∧
        serveWithCache policy handle req = ⟨resp, none⟩) ∨
      policy.answers req.headers = none ∧
        (serveWithCache policy handle req).handed = some req.body := by
  unfold serveWithCache CachePolicy.answers
  simp only [hstore, Bool.false_eq_true, if_false]
  cases policy.lookup 0 req.headers with
  | hit resp => exact Or.inl ⟨resp, rfl, rfl⟩
  | staleWhileRevalidate stale => exact Or.inl ⟨stale, rfl, rfl⟩
  | revalidate =>
    refine Or.inr ⟨rfl, ?_⟩
    dsimp only
    split_ifs <;> rfl
  | miss =>
    dsimp only
    split_ifs
    · exact Or.inl ⟨_, rfl, rfl⟩
    · exact Or.inr ⟨rfl, rfl⟩
    · cases policy.lookup 1 req.headers with
      | hit resp => exact Or.inl ⟨resp, rfl, rfl⟩
      | _ => exact Or.inr ⟨rfl, rfl⟩

/-- The cache answers, or the handler is handed the body. -/
theorem answer_cases (x : Externals T) (svc : Service T) (route : Route T) (ctx : RequestContext)
    (req : Request) :
    (∃ resp, cached x svc route ctx req = some resp ∧ answer x svc route ctx req = ⟨resp, none⟩) ∨
      cached x svc route ctx req = none ∧ (answer x svc route ctx req).handed = some req.body := by
  unfold answer cached
  cases route.cachePolicy with
  | none => exact Or.inr ⟨rfl, rfl⟩
  | some policy =>
    simp only [Option.bind_some]
    by_cases hcache : (svc.state.cache && policy.requestCacheable req.method) = true
    swap
    · simp only [hcache, Bool.false_and, Bool.false_eq_true, if_false]
      exact Or.inr ⟨trivial, rfl⟩
    cases hstore : (policy.directives (ruledHeaders x route ctx req.headers)).noStore with
    | true =>
      simp only [hcache, Bool.not_true, Bool.and_false, Bool.false_eq_true, if_true, if_false]
      refine Or.inr ⟨trivial, ?_⟩
      unfold serveWithCache
      exact congrArg Served.handed (if_pos hstore)
    | false =>
      simp only [hcache, Bool.not_false, Bool.and_true, if_true]
      exact serveWithCache_cases policy (route.handler ctx)
        { req with headers := ruledHeaders x route ctx req.headers } hstore

/-! ## The end -/

/-- The response of the serve future, or of its timeout. -/
def Served.inTime (svc : Service T) (late : Bool) (served : Served) : Response :=
  if timedOut svc late then response408 else served.response

theorem advertiseAltSvc_spec (resp : Response) :
    (advertiseAltSvc svc resp).status = resp.status ∧ ∀ n ≠ "alt-svc",
      (advertiseAltSvc svc resp).headers.getAll n = resp.headers.getAll n := by
  unfold advertiseAltSvc
  split
  · split
    · exact ⟨rfl, fun _ _ ↦ rfl⟩
    · exact ⟨rfl, fun _ hn ↦ HeaderMap.getAll_insert_of_ne hn⟩
  · exact ⟨rfl, fun _ _ ↦ rfl⟩

theorem getAll_finish (served : Served) {n : HeaderName}
    (hn : n ∉ ["content-length", "content-encoding", "vary", "alt-svc"]) :
    (finish x svc late orig served).response.headers.getAll n =
      (served.inTime svc late).headers.getAll n := by
  simp only [List.mem_cons, List.not_mem_nil, or_false, not_or] at hn
  obtain ⟨hlength, hencoding, hvary, haltSvc⟩ := hn
  rw [finish, (advertiseAltSvc_spec _).2 n haltSvc,
    Compress.maybeCompress_spec.2 n (by simp [hlength, hencoding, hvary])]
  rfl

/-- A failure is sent with its status, unless a gRPC client is told of it in the headers. -/
theorem status_finish_eq_iff (served : Served) {code : ℕ} (hcode : 300 ≤ code) :
    (finish x svc late orig served).sent.status = code ↔
      (served.inTime svc late).status = code ∧
        Grpc.PassesOn (Grpc.isGrpcRequest orig.headers) (served.inTime svc late) := by
  have hstatus : (finish x svc late orig served).response.status =
      (served.inTime svc late).status :=
    (advertiseAltSvc_spec _).1.trans Compress.maybeCompress_spec.1
  have hpasses : Grpc.PassesOn (Grpc.isGrpcRequest orig.headers)
        (finish x svc late orig served).response ↔
      Grpc.PassesOn (Grpc.isGrpcRequest orig.headers) (served.inTime svc late) :=
    Grpc.passesOn_congr _ (getAll_finish served (by decide)) (getAll_finish served (by decide))
  rw [← hstatus, ← hpasses]
  exact Grpc.status_mapResponse_eq_iff _ _ _ hcode

/-- The headers that are written after the handler has answered. -/
def lateHeaders : List HeaderName := Grpc.replaced ++ ["vary", "alt-svc"]

theorem mem_headers_finish (served : Served) {n : HeaderName} (v : HeaderValue)
    (hn : n ∉ lateHeaders) :
    (n, v) ∈ (finish x svc late orig served).sent.headers ↔
      (n, v) ∈ (served.inTime svc late).headers := by
  have hreplaced : n ∉ Grpc.replaced := fun hmem ↦ hn (List.mem_append_left _ hmem)
  have hlate : n ∉ ["content-length", "content-encoding", "vary", "alt-svc"] := by
    refine fun hmem ↦ hn ?_
    simp only [List.mem_cons, List.not_mem_nil, or_false] at hmem
    rcases hmem with rfl | rfl | rfl | rfl <;> decide
  rw [HeaderMap.mem_iff_mem_getAll, HeaderMap.mem_iff_mem_getAll, ← getAll_finish served hlate]
  exact iff_of_eq (congrArg (v ∈ ·) (Grpc.getAll_mapResponse _ _ _ hreplaced))

theorem dispatch_of_intake (h : intake x svc req = .ok req') :
    dispatch x svc late req = finish x svc late req'
      (serve x svc (resolveIdentity svc req').1 (resolveIdentity svc req').2 req') := by
  rw [dispatch, h]

end Listener

end Hypershunt
