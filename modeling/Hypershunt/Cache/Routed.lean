import Hypershunt.Cache.Serve
import Hypershunt.Listener.Dispatch
import Hypershunt.Router.Route

/-!
# From the router to the cache

How the dispatcher turns a request into one that is served through the cache: the router chooses a
location and may rewrite the target, the context is taken from the request as it came, and the
request-header rules of the location are applied to the rewritten one.
-/

namespace Hypershunt

namespace Cache

open Listener (RequestContext Service)

variable {R T : Type}

/-- What is configured for a location: its route, and its cache if it has one. -/
structure Site (T : Type) where
  /-- Tells the locations of a configuration apart. -/
  id : ℕ
  route : Listener.Route T
  cache : Option (CachePolicy T)

/-- The router of the application state. -/
def routerOf (rx : Router.Externals R) (table : Router.Table R (Site T)) (listenerBind : String)
    (req : Request) : Option (Listener.Route T × Request) :=
  (table.route rx listenerBind req).map fun found ↦ (found.1.data.route, found.2)

theorem routerOf_rewrites {rx : Router.Externals R} {table : Router.Table R (Site T)}
    {listenerBind : String} {req req' : Request} {route : Listener.Route T}
    (h : routerOf rx table listenerBind req = some (route, req')) :
    req' = { req with uri := req'.uri } := by
  obtain ⟨⟨loc, req''⟩, hroute, heq⟩ := Option.map_eq_some_iff.mp h
  cases heq
  exact Router.Table.route_rewrites hroute

/-- The request that goes on to the cache. `orig` is the request before its target was rewritten. -/
def visitOf (x : Listener.Externals T) (svc : Service T) (loc : Router.Location R (Site T))
    (policy : CachePolicy T) (orig req : Request) (principal : Principal)
    (hmethod : req.method = orig.method) (hcacheable : policy.requestCacheable req.method = true) :
    Visit T :=
  let ctx := Listener.context x svc loc.data.route orig req principal
  let rules := loc.data.route.headerRules.elim [] HeaderRules.request
  { location := loc.data.id
    policy
    matchedPrefix := loc.path
    ctx
    req := { req with headers := applyHeaders (fun t ↦ x.render t ctx) rules req.headers }
    method_eq := congrArg Method.asStr hmethod.symm
    cacheable := hcacheable }

/-- What a configuration sends through the cache: on which service, from which request, and how. -/
inductive Routed (x : Listener.Externals T) (rx : Router.Externals R)
    (table : Router.Table R (Site T)) (svc : Service T) (orig : Request) : Visit T → Prop
  | mk {loc : Router.Location R (Site T)} {req : Request} {policy : CachePolicy T}
      (hroute : table.route rx svc.bind orig = some (loc, req))
      (hcache : loc.data.cache = some policy) (principal : Principal)
      (hmethod : req.method = orig.method)
      (hcacheable : policy.requestCacheable req.method = true) :
      Routed x rx table svc orig (visitOf x svc loc policy orig req principal hmethod hcacheable)

/-! ## A service without anything else

The smallest setting in which a request is routed: no authentication, no rules, no limits. -/

def bareService (table : Router.Table String (Site T)) : Service T :=
  let state := Listener.AppState.bare (routerOf Router.texts table) routerOf_rewrites
  .bare { state with cache := true }

end Cache

end Hypershunt
