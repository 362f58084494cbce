import Hypershunt.Access.Verdict
import Hypershunt.Listener.Outcome
import Hypershunt.RateLimit.Bucket

/-!
# Limits for each user

The dispatcher asks who a request is from only where something needs to know: an identity test of
the policy, a header rule, or a variable. Everything later sees the answer in the request context.
The rate-limit gate is among what comes later, but a rule with the key `user` is not among what
needs to know. If nothing else asks, the context has no username, and the rule charges the bucket of
the empty name.

Here the rules of `rate_limit.rs` are put into the gate of the dispatcher, with their buckets, and
the buckets that a request is charged to are compared with who it is from.
-/

namespace Hypershunt

open List Option

namespace RateLimit

open Listener PolicyBlock

/-! ## The gate with its buckets -/

/-- A rule of a location with its buckets, and the time that the check is about to read. -/
structure LiveRule where
  rule : RateLimit.RateLimitRule
  buckets : Buckets
  now : Instant

open LiveRule

namespace LiveRule

def check (l : LiveRule) (ctx : RequestContext) (h : HeaderMap) : RateLimitOutcome × Buckets :=
  l.rule.checkAt l.buckets ctx h l.now

/-- The rule as the dispatcher knows it. -/
def outcome (l : LiveRule) : Listener.RateLimitRule := fun ctx h ↦ (l.check ctx h).1

-- a check is not evaluated where a definition matches on its outcome
attribute [irreducible] check

end LiveRule

variable {ctx : RequestContext} {h : HeaderMap}

/-- The rules that a pass of the gate reaches, each with the key of the bucket that it charges. -/
def charged (ctx : RequestContext) (h : HeaderMap) :
    List LiveRule → List (RateLimit.RateLimitRule × String)
  | [] => []
  | l :: ls => (l.rule, l.rule.keyString ctx h) :: match l.outcome ctx h with
    | .allow => charged ctx h ls
    | .deny _ => []

theorem key_of_mem_charged {ls : List LiveRule} {r : RateLimit.RateLimitRule} {key : String}
    (hmem : (r, key) ∈ charged ctx h ls) (hkey : r.key = .user) : key = ctx.username := by
  induction ls with
  | nil => exact absurd hmem not_mem_nil
  | cons l ls ih =>
    rw [charged, mem_cons] at hmem
    rcases hmem with heq | hmem
    · obtain ⟨rfl, rfl⟩ := Prod.mk.inj heq
      rw [RateLimitRule.keyString, hkey]
    · rcases houtcome : l.outcome ctx h with _ | secs
      · rw [houtcome] at hmem
        exact ih hmem
      · rw [houtcome] at hmem
        exact absurd hmem not_mem_nil

/-! ## Requests on their way to the gate -/

/-- A request that the router has given to a location, whose limits are rules of this kind. -/
structure Arrival (T : Type) where
  externals : Externals T
  svc : Service T
  orig : Request
  route : Route T
  req : Request
  routed : svc.state.router svc.bind orig = some (route, req)
  limits : List LiveRule
  limits_eq : route.rateLimits = limits.map outcome

open Arrival

namespace Arrival

variable {T : Type} (a : Arrival T)

/-- Who the request is from, as far as it is known before the location is. -/
def identity : Option Identity := (resolveIdentity a.svc a.orig).1

def auth : AuthProvider := authProvider a.svc a.identity a.req.headers

/-- Whoever asks is told that the request is from this user. -/
def AuthenticatesAs (id : Identity) : Prop := ∀ n, a.auth n = .authenticated id

def context : RequestContext := allowedContext a.externals a.svc a.route a.identity a.orig a.req

/-- What the policy of the location depends on. -/
def scene : Scene := .of a.svc.peer (country a.svc a.route) a.auth

/-- An identity test that the policy reaches, a header rule or a variable asks for the user. -/
def asksIdentity : Bool :=
  a.route.policy.any (fun policy ↦ asksRules a.scene policy.rules) ||
    (a.route.headerRules.any HeaderRules.needsPrincipal || a.route.vars.any RouteNeeds.principal)

/-- The rules with the keys charged; none if the policy or the body cap refuses the request
before. -/
def charges : List (RateLimit.RateLimitRule × String) :=
  match (evaluatePolicy a.externals a.svc a.route a.identity a.req).1 with
  | .allow =>
    if overCap a.route.maxRequestBody a.req.headers then []
    else charged a.context a.req.headers a.limits
  | _ => []

/-- The buckets of the rules with the key `user` that the request is charged to. -/
def userBuckets : List String := (a.charges.filter fun c ↦ c.1.key == .user).map Prod.snd

variable {a}

theorem mem_userBuckets {key : String} (hkey : key ∈ a.userBuckets) : key = a.context.username := by
  obtain ⟨⟨r, key'⟩, hmem, rfl⟩ := List.mem_map.mp hkey
  rw [mem_filter, charges] at hmem
  obtain ⟨hmem, huser⟩ := hmem
  split at hmem
  · split_ifs at hmem with hcap
    · exact absurd hmem not_mem_nil
    · exact key_of_mem_charged hmem (beq_iff_eq.mp huser)
  · exact absurd hmem not_mem_nil

theorem takePrincipal_evaluatePolicy :
    (evaluatePolicy a.externals a.svc a.route a.identity a.req).2.takePrincipal =
      if a.route.policy.any (fun policy ↦ asksRules a.scene policy.rules) then a.auth 0
      else .anonymous := by
  rw [evaluatePolicy]
  rcases a.route.policy with _ | policy
  · rfl
  · simp only [evaluate_new, any_some]
    exact Scene.takePrincipal_ctx a.scene (asksRules a.scene policy.rules)

/-- **Who the gate takes a request to be from.** -/
theorem username_context {id : Identity} (hid : a.AuthenticatesAs id) :
    a.context.username = if a.asksIdentity then id.username else "" := by
  have hprincipal : allowedPrincipal a.externals a.svc a.route a.identity a.req =
      if a.asksIdentity then .authenticated id else .anonymous := by
    rw [allowedPrincipal, templatePrincipal, takePrincipal_evaluatePolicy, asksIdentity, hid 0]
    rcases a.route.policy.any _ with _ | _
    · rcases a.route.headerRules.any _ || a.route.vars.any _ with _ | _
      · rfl
      · exact hid _
    · simp
  have hname : a.context.username =
      (principalStrings (allowedPrincipal a.externals a.svc a.route a.identity a.req)).1 := rfl
  rw [hname, hprincipal]
  rcases a.asksIdentity with _ | _ <;> rfl

end Arrival

/-- The rules with the key `user` charge every request to its user's bucket, which no other
shares. -/
structure PerUser {T : Type} (arrivals : Set (Arrival T)) : Prop where
  own : ∀ a ∈ arrivals, ∀ id, a.AuthenticatesAs id → ∀ key ∈ a.userBuckets, key = id.username
  apart : ∀ a ∈ arrivals, ∀ b ∈ arrivals, ∀ id id', a.AuthenticatesAs id → b.AuthenticatesAs id' →
    id.username ≠ id'.username → ∀ key ∈ a.userBuckets, key ∉ b.userBuckets

/-- **Limits are for each user where something asks for the user**: each request that reaches such a
rule is asked for its identity, or is from the user whose name is empty. -/
theorem perUser_iff {T : Type} (arrivals : Set (Arrival T)) :
    PerUser arrivals ↔ ∀ a ∈ arrivals, ∀ id, a.AuthenticatesAs id → a.userBuckets ≠ [] →
      a.asksIdentity = true ∨ id.username = "" := by
  constructor
  · intro h a ha id hid hne
    obtain ⟨key, hkey⟩ := exists_mem_of_ne_nil _ hne
    have hname := username_context hid
    rw [← mem_userBuckets hkey, h.own a ha id hid key hkey] at hname
    rcases hasks : a.asksIdentity with _ | _
    · rw [hasks, if_neg Bool.false_ne_true] at hname
      exact Or.inr hname
    · exact Or.inl rfl
  · intro h
    have hown : ∀ a ∈ arrivals, ∀ id, a.AuthenticatesAs id → ∀ key ∈ a.userBuckets,
        key = id.username := by
      intro a ha id hid key hkey
      rw [mem_userBuckets hkey, username_context hid]
      split_ifs with hasks
      · rfl
      · exact ((h a ha id hid (ne_nil_of_mem hkey)).resolve_left hasks).symm
    refine ⟨hown, fun a ha b hb id id' hid hid' hne key hkey hkey' ↦ hne ?_⟩
    exact (hown a ha id hid key hkey).symm.trans (hown b hb id' hid' key hkey')

/-! ### Two users and one bucket -/

private def uploads : RateLimit.RateLimitRule := ⟨"uploads", 1, 1, .user⟩

/-- The uploads of a site, limited for each user, without a policy. -/
private def uploadRoute (buckets : Buckets) : Route Unit :=
  { Route.bare fun _ _ ↦ ⟨200, [], some []⟩ with
    rateLimits := [LiveRule.outcome ⟨uploads, buckets, 0⟩] }

/-- Users present themselves with their names. -/
private def byName : Authenticator := fun _ h ↦
  match h.getStr "authorization" with
  | some name => .authenticated ⟨name, []⟩
  | none => .anonymous

private def uploadSite (buckets : Buckets) : Service Unit :=
  .bare { AppState.serving (uploadRoute buckets) with authenticator := byName }

private def uploadOf (name : String) : Request :=
  .bare .put "/files" [("host", "example.org"), ("authorization", name)]

private def uploading (buckets : Buckets) (name : String) : Arrival Unit where
  externals := .bare
  svc := uploadSite buckets
  orig := uploadOf name
  route := uploadRoute buckets
  req := uploadOf name
  routed := rfl
  limits := [⟨uploads, buckets, 0⟩]
  limits_eq := rfl

/-- The buckets after the first upload. -/
private def afterAnn : Buckets := (uploads.checkAt ∅ (uploading ∅ "ann").context [] 0).2

/-- The first user takes the only token of the nameless bucket, and the second has to wait. -/
theorem two_users_one_bucket :
    (uploading ∅ "ann").AuthenticatesAs ⟨"ann", []⟩ ∧
      (uploading afterAnn "bob").AuthenticatesAs ⟨"bob", []⟩ ∧
      (uploading ∅ "ann").userBuckets = [""] ∧ (uploading afterAnn "bob").userBuckets = [""] ∧
      (dispatch .bare (uploadSite ∅) false (uploadOf "ann")).response.status = 200 ∧
      (dispatch .bare (uploadSite afterAnn) false (uploadOf "bob")).response.status = 429 ∧
      ¬PerUser {uploading ∅ "ann", uploading afterAnn "bob"} := by
  refine ⟨fun _ ↦ rfl, fun _ ↦ rfl, by decide +kernel,
    by decide +kernel, by decide +kernel, by decide +kernel, fun h ↦ ?_⟩
  have hown := h.own _ (Set.mem_insert _ _) ⟨"ann", []⟩ (fun _ ↦ rfl) ""
    (by decide +kernel)
  exact absurd hown (by decide)

end RateLimit

end Hypershunt
