import Hypershunt.Listener.Outcome

/-!
# Caps on request bodies

`max-request-body` is documented to hold for every body: one that announces a larger
`Content-Length` is answered 413 before the handler runs, and one that "exceeds the cap mid-stream"
is answered 413 as well. The dispatcher only ever looks at the announced length. A stream that
announces none reaches the handler whole over HTTP/1 and HTTP/2; over HTTP/3 it is cut at the cap of
the listener, without a 413 and without regard to the cap of the location.

`bodyCapped_iff` says which requests are capped all the same. Besides streams within the cap these
are the requests that get a 413 from somewhere: a listener or a location that sees an announced
length, a policy that denies or redirects with this code, or an answer that happens to carry it.
To a gRPC client the dispatcher does not send such a refusal as it is: it gets status 200, and a
`grpc-status` that says what is the matter.
-/

namespace Hypershunt

open Option

namespace Listener

open Body Grpc

variable {T : Type} {x : Externals T} {svc : Service T} {route : Route T}
  {identity : Option Identity} {pending : List String} {orig req : Request} {late : Bool}
  {t : Transport} {cap : ℕ} {resp : Response} {body : Body}

/-! ## Streams over HTTP/3 -/

theorem size_cons (frame : List UInt8) (frames : Body) :
    size (frame :: frames) = frame.length + size frames := rfl

theorem size_h3Frames_le (max : Option ℕ) (seen : ℕ) (frames : Body) :
    size (h3Frames max seen frames) ≤ size frames := by
  induction frames generalizing seen with
  | nil => exact le_refl _
  | cons frame frames ih =>
    rw [h3Frames]
    split
    · exact Nat.zero_le _
    · rw [size_cons, size_cons]
      exact Nat.add_le_add_left (ih _) _

/-- The request as the dispatcher gets it. -/
def arriving (svc : Service T) : Transport → Request → Request
  | .tcp, req => req
  | .quic, req => { req with body := h3Frames svc.maxBodyBytes 0 req.body }

theorem size_arriving_le (svc : Service T) (t : Transport) (req : Request) :
    (arriving svc t req).body.size ≤ req.body.size := by
  cases t with
  | tcp => exact le_refl _
  | quic => exact size_h3Frames_le _ _ _

/-! ## The property -/

/-- The cap of the location a request is routed to, if it is. -/
def locationCap (x : Externals T) (svc : Service T) (t : Transport) (req : Request) : Option ℕ :=
  match intake x svc (arriving svc t req) with
  | .ok req' => (svc.state.router svc.bind req').bind fun found ↦ found.1.maxRequestBody
  | .error _ => none

/-- The smaller of the configured caps. -/
def bodyCap (x : Externals T) (svc : Service T) (t : Transport) (req : Request) : Option ℕ :=
  Option.merge min svc.maxBodyBytes (locationCap x svc t req)

/-- A 413 is sent, and the handler was handed no more than `cap` bytes. -/
def Held (reply : Reply) (cap : ℕ) : Prop :=
  reply.sent.status = 413 ∧ ∀ body ∈ reply.handed, size body ≤ cap

/-- The handler gets no more than the smaller cap, and the client a 413 for a larger body. -/
def BodyCapped (x : Externals T) (svc : Service T) (t : Transport) (late : Bool) (req : Request) :
    Prop :=
  ∀ cap ∈ bodyCap x svc t req,
    (∀ body ∈ (receive x svc t late req).handed, size body ≤ cap) ∧
      (cap < req.body.size → (receive x svc t late req).sent.status = 413)

/-- The response to a routed request, as it leaves the serve future. -/
def decorated (x : Externals T) (svc : Service T) (route : Route T) (identity : Option Identity)
    (pending : List String) (orig req : Request) (resp : Response) : Response :=
  { resp with
    headers := decorate x svc route identity pending (allowedPrincipal x svc route identity req)
      (allowedContext x svc route identity orig req) resp.headers }

/-- What makes a routed request a 413. The refusals of the server itself are no gRPC responses, so
a gRPC client is not sent them. -/
inductive RoutedHeld (x : Externals T) (svc : Service T) (route : Route T)
    (identity : Option Identity) (pending : List String) (orig req : Request) (cap : ℕ) : Prop
  | denied (hgrpc : isGrpcRequest orig.headers = false)
      (h : (evaluatePolicy x svc route identity req).1 = .deny 413)
  | redirected (hgrpc : isGrpcRequest orig.headers = false) {template : T}
      (h : (evaluatePolicy x svc route identity req).1 = .redirect template 413)
  | announced (hgrpc : isGrpcRequest orig.headers = false)
      (hpolicy : PolicyAllows x svc route identity req)
      (hcap : overCap route.maxRequestBody req.headers = true)
  /-- The cache has a 413, and the handler is not asked. -/
  | stored (hpasses : Passes x svc route identity orig req) {resp : Response}
      (hresp : cached x svc route (allowedContext x svc route identity orig req) req = some resp)
      (hstatus : resp.status = 413)
      (hsent : PassesOn (isGrpcRequest orig.headers)
        (decorated x svc route identity pending orig req resp))
  /-- The handler, whose stream is within the cap, answers 413. -/
  | answered (hpasses : Passes x svc route identity orig req)
      (hnone : cached x svc route (allowedContext x svc route identity orig req) req = none)
      (hsize : req.body.size ≤ cap) {resp : Response}
      (hresp : (answer x svc route (allowedContext x svc route identity orig req) req).response =
        resp) (hstatus : resp.status = 413)
      (hsent : PassesOn (isGrpcRequest orig.headers)
        (decorated x svc route identity pending orig req resp))

/-- What makes a request that arrives at the dispatcher a 413. -/
inductive DispatchHeld (x : Externals T) (svc : Service T) (late : Bool) (req : Request) (cap : ℕ) :
    Prop
  | announced {req' : Request} (hnamed : named x req = some req')
      (hcap : overCap svc.maxBodyBytes req.headers = true)
      (hgrpc : isGrpcRequest req'.headers = false)
  | builtin {req' : Request} (hnamed : named x req = some req')
      (hcap : overCap svc.maxBodyBytes req.headers = false) {resp : Response}
      (hresp : builtin svc req' = some resp) (hstatus : resp.status = 413)
  | routed {req' req'' : Request} {route : Route T} (hintake : intake x svc req = .ok req')
      (hroute : svc.state.router svc.bind req' = some (route, req''))
      (htime : timedOut svc late = false)
      (h : RoutedHeld x svc route (resolveIdentity svc req').1 (resolveIdentity svc req').2 req'
        req'' cap)

/-- What makes a request a 413 of which the handler sees at most `cap` bytes. -/
def RequestHeld (x : Externals T) (svc : Service T) (t : Transport) (late : Bool) (req : Request)
    (cap : ℕ) : Prop :=
  (t = .quic ∧ overCap svc.maxBodyBytes req.headers = true) ∨
    DispatchHeld x svc late (arriving svc t req) cap

/-! ## Stage by stage -/

theorem challenge_ne_413 : (challenge svc route orig req).status ≠ 413 := by
  unfold challenge
  split
  · split
    · exact (by decide : (302 : ℕ) ≠ 413)
    · exact (by decide : (401 : ℕ) ≠ 413)
  · exact (by decide : (401 : ℕ) ≠ 413)

theorem status_responseStatus_eq_iff (code : ℕ) (pages : ErrorPages) :
    (responseStatus code pages).status = 413 ↔ code = 413 := by
  unfold responseStatus
  split
  · exact Iff.rfl
  · rename_i hcode
    refine ⟨fun h ↦ absurd h (by decide), fun h ↦ absurd ?_ hcode⟩
    rw [h]
    decide

/-- A page of the server itself. -/
theorem isGrpcResponse_of_html (h : resp.headers = [htmlType]) : isGrpcResponse resp = false := by
  rw [isGrpcResponse, h]
  decide +kernel

theorem passesOn_413_iff (isGrpc : Bool) : PassesOn isGrpc response413 ↔ isGrpc = false :=
  passesOn_iff_of_plain (isGrpcResponse_of_html rfl) isGrpc

/-- What leaves the serve future is sent as a 413, and the handler was handed at most `cap`
bytes. -/
def ServedHeld (orig : Request) (served : Served) (cap : ℕ) : Prop :=
  (served.response.status = 413 ∧ PassesOn (isGrpcRequest orig.headers) served.response) ∧
    ∀ body ∈ served.handed, size body ≤ cap

theorem servedHeld_refused :
    ServedHeld orig ⟨resp, none⟩ cap ↔
      resp.status = 413 ∧ PassesOn (isGrpcRequest orig.headers) resp :=
  ⟨fun h ↦ h.1, fun h ↦ ⟨h, fun body hbody ↦ absurd hbody (not_mem_none body)⟩⟩

theorem RoutedHeld.of_outcome {outcome : PolicyOutcome T}
    (h : RoutedHeld x svc route identity pending orig req cap)
    (houtcome : (evaluatePolicy x svc route identity req).1 = outcome) :
    outcome = .allow ∨ isGrpcRequest orig.headers = false ∧
      (outcome = .deny 413 ∨ ∃ template, outcome = .redirect template 413) := by
  subst houtcome
  cases h with
  | denied hgrpc h => exact Or.inr ⟨hgrpc, Or.inl h⟩
  | redirected hgrpc h => exact Or.inr ⟨hgrpc, Or.inr ⟨_, h⟩⟩
  | announced _ hpolicy => exact Or.inl (policyAllows_iff.mp hpolicy)
  | stored hpasses => exact Or.inl (policyAllows_iff.mp hpasses.policy)
  | answered hpasses => exact Or.inl (policyAllows_iff.mp hpasses.policy)

/-- A request that neither the policy nor the cap of the location refuses is a 413 by its answer. -/
theorem RoutedHeld.of_uncapped (h : RoutedHeld x svc route identity pending orig req cap)
    (hpolicy : PolicyAllows x svc route identity req)
    (hcap : overCap route.maxRequestBody req.headers = false) :
    let served := answer x svc route (allowedContext x svc route identity orig req) req
    Passes x svc route identity orig req ∧ ServedHeld orig
      ⟨decorated x svc route identity pending orig req served.response, served.handed⟩ cap := by
  have hallow := policyAllows_iff.mp hpolicy
  have hanswer := answer_cases x svc route (allowedContext x svc route identity orig req) req
  cases h with
  | denied _ h => cases hallow.symm.trans h
  | redirected _ h => cases hallow.symm.trans h
  | announced _ _ hover => cases hcap.symm.trans hover
  | stored hpasses hresp hstatus hsent =>
    obtain ⟨resp', hcached, hanswer⟩ | ⟨hnone, -⟩ := hanswer
    · cases hresp.symm.trans hcached
      exact ⟨hpasses, hanswer ▸ servedHeld_refused.mpr ⟨hstatus, hsent⟩⟩
    · cases hresp.symm.trans hnone
  | answered hpasses hnone hsize hresp hstatus hsent =>
    subst hresp
    obtain ⟨resp', hcached, -⟩ | ⟨-, hhanded⟩ := hanswer
    · cases hnone.symm.trans hcached
    · exact ⟨hpasses, ⟨hstatus, hsent⟩, fun body hbody ↦ some.inj (hhanded ▸ hbody) ▸ hsize⟩

theorem servedHeld_serve_iff (hroute : svc.state.router svc.bind orig = some (route, req)) :
    ServedHeld orig (serve x svc identity pending orig) cap ↔
      RoutedHeld x svc route identity pending orig req cap := by
  have hchecked := checks_spec x svc route identity orig req
  rw [serve, hroute]
  simp only
  generalize checks x svc route identity orig req = result at hchecked
  -- one case for each way the checks end; the cases of `RoutedHeld` that do not fit contradict it
  cases hchecked with
  | passed hpasses =>
    refine ⟨fun h ↦ ?_, fun h ↦ (h.of_uncapped hpasses.policy hpasses.cap).2⟩
    rcases answer_cases x svc route (allowedContext x svc route identity orig req) req with
      ⟨resp, hcached, hanswer⟩ | ⟨hnone, hhanded⟩
    · dsimp only at h
      rw [hanswer] at h
      exact .stored hpasses hcached h.1.1 h.1.2
    · exact .answered hpasses hnone (h.2 _ hhanded) rfl h.1.1 h.1.2
  | challenged hdeny =>
    refine servedHeld_refused.trans ⟨fun h ↦ absurd h.1 challenge_ne_413, fun h ↦ ?_⟩
    rcases h.of_outcome hdeny with h | ⟨-, h | ⟨_, h⟩⟩ <;> cases h
  | @denied code hdeny =>
    have hplain : isGrpcResponse (responseStatus 413 svc.state.errorPages) = false :=
      isGrpcResponse_of_html rfl
    rw [servedHeld_refused, status_responseStatus_eq_iff]
    refine ⟨fun h ↦ ?_, fun h ↦ ?_⟩
    · obtain ⟨rfl, hsent⟩ := h
      exact .denied ((passesOn_iff_of_plain hplain _).mp hsent) hdeny
    · rcases h.of_outcome hdeny with h | ⟨hgrpc, h | ⟨_, h⟩⟩ <;> cases h
      exact ⟨rfl, (passesOn_iff_of_plain hplain _).mpr hgrpc⟩
  | @redirected template code target hredirect =>
    -- a redirect is sent with the status the rule names, which may be 413
    have hplain : isGrpcResponse (responseRedirect target code) = false := rfl
    rw [servedHeld_refused, passesOn_iff_of_plain hplain]
    refine ⟨fun h ↦ ?_, fun h ↦ ?_⟩
    · obtain rfl : code = 413 := h.1
      exact .redirected h.2 hredirect
    · rcases h.of_outcome hredirect with h | ⟨hgrpc, h | ⟨_, h⟩⟩ <;> cases h
      exact ⟨rfl, hgrpc⟩
  | tooLarge hpolicy hcap =>
    rw [servedHeld_refused, passesOn_413_iff]
    refine ⟨fun h ↦ .announced h.2 hpolicy hcap, fun h ↦ ⟨rfl, ?_⟩⟩
    cases h with
    | denied hgrpc => exact hgrpc
    | redirected hgrpc => exact hgrpc
    | announced hgrpc => exact hgrpc
    | stored hpasses => cases hpasses.cap.symm.trans hcap
    | answered hpasses => cases hpasses.cap.symm.trans hcap
  | rateLimited hpolicy hrule hcap hdenied secs =>
    refine servedHeld_refused.trans ⟨fun h ↦ absurd h.1 (by decide : (429 : ℕ) ≠ 413), fun h ↦ ?_⟩
    exact absurd ((h.of_uncapped hpolicy hcap).1.rateLimits _ hrule) hdenied

theorem held_finish_iff (served : Served) :
    Held (finish x svc late orig served) cap ↔
      timedOut svc late = false ∧ ServedHeld orig served cap := by
  rw [Held, status_finish_eq_iff served (by decide), Served.inTime]
  cases timedOut svc late with
  | true => exact ⟨fun h ↦ absurd h.1.1 (by decide : (408 : ℕ) ≠ 413), fun h ↦ nomatch h.1⟩
  | false => exact ⟨fun h ↦ ⟨rfl, h⟩, fun h ↦ h.2⟩

theorem held_early_iff : Held (.early resp) cap ↔ resp.status = 413 :=
  ⟨fun h ↦ h.1, fun h ↦ ⟨h, fun body hbody ↦ absurd hbody (not_mem_none body)⟩⟩

theorem servedHeld_serve_of_no_route (hroute : svc.state.router svc.bind orig = none) :
    ¬ServedHeld orig (serve x svc identity pending orig) cap := by
  rw [serve, hroute]
  exact fun h ↦ absurd h.1.1 (by decide : (404 : ℕ) ≠ 413)

theorem held_dispatch_iff :
    Held (dispatch x svc late req) cap ↔ DispatchHeld x svc late req cap := by
  constructor
  · intro hheld
    have htaken := taken_intake x svc req
    rw [dispatch] at hheld
    generalize hresult : intake x svc req = result at htaken hheld
    cases htaken with
    | badHost => exact absurd (held_early_iff.mp hheld) (by decide : (400 : ℕ) ≠ 413)
    | tooLarge hnamed hcap =>
      have hsent := (status_mapResponse_eq_iff _ response413 _ (by decide)).mp hheld.1
      rw [overCap_of_named hnamed] at hcap
      exact .announced hnamed hcap ((passesOn_413_iff _).mp hsent.2)
    | builtin hnamed hcap hresp =>
      rw [overCap_of_named hnamed] at hcap
      exact .builtin hnamed hcap hresp (held_early_iff.mp hheld)
    | noHost => exact absurd (held_early_iff.mp hheld) (by decide : (400 : ℕ) ≠ 413)
    | @taken req' hnamed =>
      obtain ⟨htime, hserved⟩ := (held_finish_iff _).mp hheld
      cases hroute : svc.state.router svc.bind req' with
      | none => exact absurd hserved (servedHeld_serve_of_no_route hroute)
      | some found =>
        exact .routed hresult hroute htime ((servedHeld_serve_iff hroute).mp hserved)
  · intro h
    cases h with
    | announced hnamed hcap hgrpc =>
      obtain ⟨missingHost, hintake⟩ := intake_of_named svc hnamed
      rw [← overCap_of_named hnamed] at hcap
      rw [dispatch, hintake, intakeNamed, if_pos hcap]
      refine ⟨(status_mapResponse_eq_iff _ response413 _ (by decide)).mpr ⟨rfl, ?_⟩,
        fun body h ↦ absurd h (not_mem_none body)⟩
      exact (passesOn_413_iff _).mpr hgrpc
    | builtin hnamed hcap hresp hstatus =>
      obtain ⟨missingHost, hintake⟩ := intake_of_named svc hnamed
      rw [← overCap_of_named hnamed] at hcap
      rw [dispatch, hintake, intakeNamed, hcap, if_neg Bool.false_ne_true, hresp]
      exact held_early_iff.mpr hstatus
    | routed hintake hroute htime h =>
      rw [dispatch, hintake]
      exact (held_finish_iff _).mpr ⟨htime, (servedHeld_serve_iff hroute).mpr h⟩

theorem held_receive_iff :
    Held (receive x svc t late req) cap ↔ RequestHeld x svc t late req cap := by
  cases t with
  | tcp =>
    refine held_dispatch_iff.trans ⟨Or.inr, fun h ↦ ?_⟩
    rcases h with ⟨htcp, -⟩ | h
    · cases htcp
    · exact h
  | quic =>
    rw [receive, handleH3Request, RequestHeld]
    cases hcap : overCap svc.maxBodyBytes req.headers with
    | true => exact ⟨fun _ ↦ Or.inl ⟨rfl, rfl⟩, fun _ ↦ held_early_iff.mpr rfl⟩
    | false =>
      refine held_dispatch_iff.trans ⟨Or.inr, fun h ↦ ?_⟩
      rcases h with ⟨-, hover⟩ | h
      · cases hover
      · exact h

/-! ## What the handler can be handed -/

theorem body_of_intake {req' : Request} (h : intake x svc req = .ok req') :
    req'.body = req.body := by
  have htaken := taken_intake x svc req
  rw [h] at htaken
  cases htaken with
  | taken hnamed => exact (sameButHost_of_named hnamed).body

theorem size_handed_serve_le (h : body ∈ (serve x svc identity pending orig).handed) :
    body.size ≤ orig.body.size := by
  unfold serve at h
  split at h
  · exact absurd h (not_mem_none body)
  case h_2 route req hroute =>
    split at h
    · exact absurd h (not_mem_none body)
    case h_2 principal ctx _ =>
      rcases answer_cases x svc route ctx req with ⟨resp, -, hanswer⟩ | ⟨-, hhanded⟩
      · rw [hanswer] at h
        exact absurd h (not_mem_none body)
      · rw [hhanded, svc.state.router_rewrites hroute] at h
        cases h
        exact le_refl _

theorem size_handed_dispatch_le (h : body ∈ (dispatch x svc late req).handed) :
    body.size ≤ req.body.size := by
  have htaken := taken_intake x svc req
  rw [dispatch] at h
  generalize hresult : intake x svc req = result at htaken h
  cases htaken with
  | badHost => exact absurd h (not_mem_none body)
  | tooLarge => exact absurd h (not_mem_none body)
  | builtin => exact absurd h (not_mem_none body)
  | noHost => exact absurd h (not_mem_none body)
  | taken => exact body_of_intake hresult ▸ size_handed_serve_le h

/-- No transport hands the handler more than the client sent. -/
theorem size_handed_receive_le (h : body ∈ (receive x svc t late req).handed) :
    body.size ≤ req.body.size := by
  cases t with
  | tcp => exact size_handed_dispatch_le h
  | quic =>
    rw [receive, handleH3Request] at h
    split at h
    · exact absurd h (not_mem_none body)
    · exact (size_handed_dispatch_le h).trans (size_arriving_le svc .quic req)

/-! ## The result -/

/-- Exactly when the body is within the caps, or a 413 comes of its announced length or anyway. -/
theorem bodyCapped_iff (x : Externals T) (svc : Service T) (t : Transport) (late : Bool)
    (req : Request) :
    BodyCapped x svc t late req ↔
      ∀ cap ∈ bodyCap x svc t req, cap < req.body.size → RequestHeld x svc t late req cap := by
  constructor
  · intro hcapped cap hcap hlarge
    obtain ⟨hhanded, hstatus⟩ := hcapped cap hcap
    exact held_receive_iff.mp ⟨hstatus hlarge, hhanded⟩
  · intro hheld cap hcap
    by_cases hlarge : cap < req.body.size
    · obtain ⟨hstatus, hhanded⟩ := held_receive_iff.mpr (hheld cap hcap hlarge)
      exact ⟨hhanded, fun _ ↦ hstatus⟩
    · exact ⟨fun body hbody ↦ (size_handed_receive_le hbody).trans (not_lt.mp hlarge),
        fun h ↦ absurd h hlarge⟩

/-- A listener with a cap of ten bytes, and a location without restrictions of its own. -/
private def tenBytes : Service Unit :=
  { Service.bare (.serving (.bare fun _ _ ↦ ⟨200, [], some []⟩)) with maxBodyBytes := some 10 }

/-- Twelve bytes in two chunks, without a `Content-Length`. -/
private def chunked : Request :=
  { Request.bare .post "/" [("host", "example.org"), ("transfer-encoding", "chunked")] with
    body := [[1, 2, 3, 4, 5, 6], [7, 8, 9, 10, 11, 12]] }

/-- The handler is handed all twelve bytes, and the client is told that all is well. -/
theorem chunked_body_passes_cap :
    bodyCap .bare tenBytes .tcp chunked = some 10 ∧ chunked.body.size = 12 ∧
      (receive .bare tenBytes .tcp false chunked).handed = some chunked.body ∧
      (receive .bare tenBytes .tcp false chunked).sent.status = 200 :=
  ⟨rfl, rfl, rfl, rfl⟩

end Listener

end Hypershunt
