import Hypershunt.Cache.Held
import Hypershunt.Cache.Routed

/-!
# Locations and the shared store

All locations share one store, and a key is made from the request, not from the location. What is
stored for one location is found by a request at another exactly if the two requests have the same
key. With a template the operator decides about that. With the default key it takes two requests
that the router tells apart although they agree in method, scheme, host, path and query: on
different listeners, or by a matcher. Rewrites do not matter, since the key has the path and query
that the client sent, and so do not matter either the locations a request passes through.
-/

namespace Hypershunt

open List Option

namespace Cache

open Listener (RequestContext Service Externals)

open World

variable {R T : Type} {dates : HttpDate} {render : T → RequestContext → String}

/-! ## Where a copy comes from -/

/-- A copy comes out of an exchange made for one of the arrived requests, with the same key. -/
def FromSameKey (render : T → RequestContext → String) (P : Visit T → Prop) (key : String)
    (copy : Copy T) : Prop :=
  ∃ e, copy.source = some e ∧ e.visit.key render = key ∧ P e.visit

/-- All requests have arrived, and all that is held comes from one of them with the same key. -/
structure Traced (render : T → RequestContext → String) (P : Visit T → Prop) (s : World T) :
    Prop where
  visits : ∀ task ∈ s.tasks, P task.visit
  holds : Holds render (FromSameKey render P) s

theorem Traced.step {P : Visit T → Prop} {s t : World T} {a : Action T}
    (hs : Traced render P s) (harrive : ∀ v, a = .arrive v → P v)
    (hstep : Cache.step dates render s a = some t) : Traced render P t := by
  refine ⟨visits_step hs.visits hstep harrive, hs.holds.step hstep ?_ ?_⟩
  · intro task htask call resp now entry _ _ _
    exact ⟨_, rfl, rfl, hs.visits task htask⟩
  · -- a confirmed copy keeps its source
    intro v copy update now _ hcopy
    exact hcopy

theorem traced_run {P : Visit T → Prop} {maxBytes : ℕ} {as : List (Action T)} {last : World T}
    (harrive : ∀ v, .arrive v ∈ as → P v)
    (hrun : run (step dates render) (init maxBytes) as = some last) :
    Traced render P last := by
  have hinit : Traced render P (init maxBytes) := ⟨by simp [init], .init maxBytes⟩
  have hall : AllSteps (Cache.step dates render) (fun _ a ↦ ∀ v, a = .arrive v → P v)
      (init maxBytes) as := by
    rintro pre a hpre _ _ v rfl
    exact harrive v (hpre.subset (mem_append_right _ (mem_singleton_self _)))
  exact (always_of_allSteps hinit (fun _ _ _ ↦ Traced.step) hall).final hrun

/-! ## The default key -/

/-- A request that names a host, and has a path. -/
structure Named (orig : Request) (host : String) : Prop where
  names : orig.headers.getStr "host" = some host
  noSlash : '/' ∉ host.toList
  path : orig.uri.HasPath

theorem toList_default_key {v : Visit T} (htemplate : v.policy.key.template = none) :
    (v.key render).toList = v.ctx.method.toList ++ ' ' :: (v.ctx.scheme.toList ++
      ':' :: '/' :: '/' :: (v.ctx.host.toList ++ v.ctx.pathAndQuery.toList)) := by
  rw [Visit.key, CachePolicy.buildKey, CacheKey.build, htemplate]
  simp only [String.toList_append, append_assoc]
  rfl

theorem exists_toList_pathAndQueryStr {u : Uri} (h : u.HasPath) :
    ∃ rest, u.pathAndQueryStr.toList = '/' :: rest := by
  have hprefix : ∃ rest, u.path.toList = '/' :: rest := by
    have hslash := h.slash
    rw [Text.startsWith_iff] at hslash
    obtain ⟨rest, hrest⟩ := hslash
    exact ⟨rest, hrest.symm⟩
  obtain ⟨scheme, authority, _ | ⟨path, _ | query⟩⟩ := u
  · obtain ⟨rest, hrest⟩ := hprefix
    simp [Uri.path] at hrest
  · exact hprefix
  · obtain ⟨rest, hrest⟩ := hprefix
    refine ⟨rest ++ "?".toList ++ query.toList, ?_⟩
    change (path ++ "?" ++ query).toList = _
    have hpath : path.toList = '/' :: rest := hrest
    rw [String.toList_append, String.toList_append, hpath]
    rfl

/-- What two requests have in common that share a default key. -/
structure SameOrigin (svc svc' : Service T) (orig orig' : Request) : Prop where
  method : orig.method.asStr = orig'.method.asStr
  scheme : svc.isTls = svc'.isTls
  host : orig.headers.getStr "host" = orig'.headers.getStr "host"
  target : orig.uri.pathAndQuery = orig'.uri.pathAndQuery

theorem not_mem_asStr_of_cacheable {p : CachePolicy T} {m : Method}
    (h : p.requestCacheable m = true) : ' ' ∉ m.asStr.toList := by
  rw [CachePolicy.requestCacheable, Bool.and_eq_true, Bool.or_eq_true, decide_eq_true_eq,
    decide_eq_true_eq] at h
  rcases h.1 with rfl | rfl
  · decide
  · decide

variable {x : Externals T} {rx : Router.Externals R} {table : Router.Table R (Site T)}
  {svc svc' : Service T} {orig orig' : Request} {v v' : Visit T} {host host' : String}

/-- The context of a routed request is taken from the request as it came. -/
theorem Routed.ctx_eq (h : Routed x rx table svc orig v) :
    v.ctx.method = orig.method.asStr ∧ v.ctx.scheme = (if svc.isTls then "https" else "http") ∧
      v.ctx.host = (orig.headers.getStr "host").getD "" ∧
      v.ctx.pathAndQuery = orig.uri.pathAndQueryStr := by
  obtain ⟨hroute, hcache, principal, hmethod, hcacheable⟩ := h
  exact ⟨rfl, rfl, rfl, rfl⟩

/-- **The default key** has all that it is made of. -/
theorem sameOrigin_of_key_eq (h : Routed x rx table svc orig v)
    (h' : Routed x rx table svc' orig' v') (hnamed : Named orig host) (hnamed' : Named orig' host')
    (htemplate : v.policy.key.template = none) (htemplate' : v'.policy.key.template = none)
    (hkey : v.key x.render = v'.key x.render) : SameOrigin svc svc' orig orig' := by
  obtain ⟨hmethod, hscheme, hhost, htarget⟩ := h.ctx_eq
  obtain ⟨hmethod', hscheme', hhost', htarget'⟩ := h'.ctx_eq
  have hchars := congrArg String.toList hkey
  rw [toList_default_key htemplate, toList_default_key htemplate'] at hchars
  -- the method ends at the blank, the scheme at the colon and the host at the slash
  have hblank : ∀ w : Visit T, ' ' ∉ w.ctx.method.toList := by
    intro w
    rw [w.method_eq]
    exact not_mem_asStr_of_cacheable w.cacheable
  obtain ⟨hm, hchars⟩ := Text.eq_of_append_cons_eq (hblank v) (hblank v') hchars
  have hcolon : ∀ tls : Bool, ':' ∉ (if tls then "https" else "http").toList := by decide
  rw [hscheme, hscheme'] at hchars
  obtain ⟨hs, hchars⟩ :=
    Text.eq_of_append_cons_eq (hcolon svc.isTls) (hcolon svc'.isTls) hchars
  rw [hhost, hhost', htarget, htarget', hnamed.names, hnamed'.names] at hchars
  obtain ⟨rest, hrest⟩ := exists_toList_pathAndQueryStr hnamed.path
  obtain ⟨rest', hrest'⟩ := exists_toList_pathAndQueryStr hnamed'.path
  have hend : host.toList ++ '/' :: rest = host'.toList ++ '/' :: rest' := by
    rw [← hrest, ← hrest']
    exact (List.cons.inj (List.cons.inj hchars).2).2
  obtain ⟨hh, hp⟩ := Text.eq_of_append_cons_eq hnamed.noSlash hnamed'.noSlash hend
  have htext : orig.uri.pathAndQueryStr = orig'.uri.pathAndQueryStr := by
    rw [← String.toList_inj, hrest, hrest', hp]
  constructor
  · rw [← hmethod, ← hmethod']
    exact String.toList_inj.mp hm
  · have hkind : ∀ tls tls' : Bool, (if tls then "https" else "http").toList =
        (if tls' then "https" else "http").toList → tls = tls' := by decide
    exact hkind _ _ hs
  · rw [hnamed.names, hnamed'.names, String.toList_inj.mp hh]
  · have hparse := hnamed.path.ofPathAndQuery
    rw [htext, hnamed'.path.ofPathAndQuery] at hparse
    exact (Uri.mk.inj (Option.some.inj hparse)).2.2.symm

/-! ## The result -/

/-- What can tell two requests apart that share a key: a template, the listener, or a matcher. -/
def ToldApart (rx : Router.Externals R) (table : Router.Table R (Site T)) (svc svc' : Service T)
    (host : String) (v v' : Visit T) : Prop :=
  v.policy.key.template ≠ none ∨ v'.policy.key.template ≠ none ∨ svc.bind ≠ svc'.bind ∨
    ∃ vhost, table.resolveVhost rx (some (Router.stripPort host)) svc.bind = some vhost ∧
      ¬vhost.Plain

/-- Requests with the same key that nothing tells apart have the same location. -/
theorem location_eq_of_key_eq (h : Routed x rx table svc orig v)
    (h' : Routed x rx table svc' orig' v') (hnamed : Named orig host) (hnamed' : Named orig' host')
    (hkey : v.key x.render = v'.key x.render) (hapart : ¬ToldApart rx table svc svc' host v v') :
    v.location = v'.location := by
  rw [ToldApart, not_or, not_or, not_or, not_not, not_not, not_not] at hapart
  obtain ⟨htemplate, htemplate', hbind, hmatchers⟩ := hapart
  have hsame := sameOrigin_of_key_eq h h' hnamed hnamed' htemplate htemplate' hkey
  obtain ⟨hroute, -, principal, -, -⟩ := h
  obtain ⟨hroute', -, principal', -, -⟩ := h'
  rw [← hbind] at hroute'
  have hsome : orig.uri.pathAndQuery.isSome = true := by
    have hparsed := Uri.isSome_of_ofPathAndQuery hnamed.path.ofPathAndQuery
    exact hparsed
  refine congrArg (fun loc ↦ loc.data.id)
    (Router.Table.location_congr hroute hroute' hsame.host hsame.target hsome ?_)
  intro vhost hvhost
  rw [hnamed.names, map_some] at hvhost
  by_contra hnot
  exact hmatchers ⟨vhost, hvhost, hnot⟩

/-- **When a response crosses locations.** Every copy that a request gets comes from an exchange
made for a request with the same key. If that was sent to another location, and both name a host,
then a location has a key template, the listeners differ, or the host has a matcher. -/
theorem reused_under_same_key (x : Externals T) (rx : Router.Externals R)
    (table : Router.Table R (Site T)) (dates : HttpDate) (maxBytes : ℕ) (as : List (Action T))
    (last : World T) (harrive : ∀ v, .arrive v ∈ as → ∃ svc orig, Routed x rx table svc orig v)
    (hrun : run (step dates x.render) (init maxBytes) as = some last) :
    ∀ task ∈ last.tasks, ∀ copy ∈ task.copies, ∃ e, copy.source = some e ∧
      e.visit.key x.render = task.visit.key x.render ∧
      (∃ svc orig, Routed x rx table svc orig e.visit) ∧
      ∀ svc orig host svc' orig' host', Routed x rx table svc orig task.visit → Named orig host →
        Routed x rx table svc' orig' e.visit → Named orig' host' →
        task.visit.location ≠ e.visit.location →
        ToldApart rx table svc svc' host task.visit e.visit := by
  have htraced := traced_run harrive hrun
  intro task htask copy hcopy
  obtain ⟨e, hsource, hkey, hcame⟩ := htraced.holds.tasks task htask copy hcopy
  refine ⟨e, hsource, hkey, hcame, ?_⟩
  intro svc orig host svc' orig' host' hrouted hnamed hrouted' hnamed' hne
  by_contra hapart
  exact hne (location_eq_of_key_eq hrouted hrouted' hnamed hnamed' hkey.symm hapart)

/-- A location at the root for the requests that a matcher accepts, if there is one. -/
private def atRoot (id : ℕ) (matcher : Option (Router.Matcher String)) :
    Router.Location String (Site Unit) :=
  ⟨"/", matcher, none, ⟨id, .bare fun _ _ ↦ response404, some .minute⟩⟩

private def insiders : Router.Location String (Site Unit) :=
  atRoot 1 (some ⟨[.header "x-tenant" [.exact "internal"]]⟩)

/-- Requests of one tenant go to one location, all others to another. -/
private def tenants : Router.Table String (Site Unit) where
  tables := AList.singleton "tcp://[::]:80"
    { literals := ∅, patterns := [], default := some ⟨[insiders, atRoot 0 none]⟩ }

private def fromInside : Request :=
  .bare .get "/" [("host", "a.test"), ("x-tenant", "internal")]

private def fromOutside : Request := .bare .get "/" [("host", "a.test")]

private def inside : Visit Unit :=
  visitOf .bare (bareService tenants) insiders .minute fromInside fromInside .anonymous rfl
    rfl

private def outside : Visit Unit :=
  visitOf .bare (bareService tenants) (atRoot 0 none) .minute fromOutside fromOutside
    .anonymous rfl rfl

/-- One request is answered and stored, then another looks. -/
private def oneThenOther (first second : Visit Unit) : List (Action Unit) :=
  fetching 0 first ⟨200, [("content-length", "2")], some [111, 107]⟩ ++
    [.arrive second, .go 1 .look]

private theorem routed_inside :
    Routed .bare Router.texts tenants (bareService tenants) fromInside inside :=
  ⟨rfl, rfl, .anonymous, rfl, rfl⟩

private theorem routed_outside :
    Routed .bare Router.texts tenants (bareService tenants) fromOutside outside :=
  ⟨rfl, rfl, .anonymous, rfl, rfl⟩

theorem reused_under_same_key_within_location :
    ∃ last task copy e,
      run (step .blank Externals.bare.render) (init 100) (oneThenOther outside outside) =
        some last ∧
      last.tasks[1]? = some task ∧ task.copies = [copy] ∧ copy.source = some e ∧
      e.visit.key Externals.bare.render = task.visit.key Externals.bare.render := by
  have heval : ((run (step .blank Externals.bare.render) (init 100)
      (oneThenOther outside outside)).bind fun last ↦
        last.tasks[1]?.map fun task ↦ task.copies.map fun copy ↦ copy.entry.body) =
      some [[111, 107]] := by decide +kernel
  obtain ⟨last, hrun, heval⟩ := bind_eq_some_iff.mp heval
  obtain ⟨task, htask, hbodies⟩ := map_eq_some_iff.mp heval
  obtain ⟨copy, hcopies, -⟩ := map_eq_singleton_iff.mp hbodies
  have harrive : ∀ v, .arrive v ∈ oneThenOther outside outside →
      ∃ svc orig, Routed .bare Router.texts tenants svc orig v := by
    intro v hv
    have hout : v = outside := by simpa [oneThenOther, fetching] using hv
    exact ⟨_, _, hout ▸ routed_outside⟩
  obtain ⟨e, hsource, hkey, -⟩ := reused_under_same_key .bare Router.texts tenants .blank 100 _
    last harrive hrun task (mem_of_getElem? htask) copy (by simp [hcopies])
  exact ⟨last, task, copy, e, hrun, htask, hcopies, hsource, hkey⟩

/-- What the location for the tenant has answered is served to a request at the other one. -/
theorem response_crosses_locations :
    Routed .bare Router.texts tenants (bareService tenants) fromInside inside ∧
      Routed .bare Router.texts tenants (bareService tenants) fromOutside outside ∧
      ∃ last task copy now resp e,
        run (step .blank Externals.bare.render) (init 100) (oneThenOther inside outside) =
          some last ∧
        last.tasks[1]? = some task ∧ task.reply = some (.stored copy now resp) ∧
        copy.source = some e ∧ e.visit.location = 1 ∧ task.visit.location = 0 ∧
        resp.body = some [111, 107] := by
  refine ⟨routed_inside, routed_outside, ?_⟩
  have heval : ((run (step .blank Externals.bare.render) (init 100)
      (oneThenOther inside outside)).bind fun last ↦ last.tasks[1]?.bind fun task ↦
        (task.reply.bind Reply.unasked).bind fun served ↦ served.1.source.map fun e ↦
          (e.visit.location, task.visit.location, served.2.2.body)) =
      some (1, 0, some [111, 107]) := by decide +kernel
  obtain ⟨last, hrun, heval⟩ := bind_eq_some_iff.mp heval
  obtain ⟨task, htask, heval⟩ := bind_eq_some_iff.mp heval
  obtain ⟨⟨copy, now, resp⟩, hserved, heval⟩ := bind_eq_some_iff.mp heval
  obtain ⟨reply, hreply, hserved⟩ := bind_eq_some_iff.mp hserved
  obtain rfl := Reply.eq_stored_of_unasked hserved
  obtain ⟨e, hsource, heval⟩ := map_eq_some_iff.mp heval
  rw [Prod.mk.injEq, Prod.mk.injEq] at heval
  exact ⟨last, task, copy, now, resp, e, hrun, htask, hreply, hsource, heval.1, heval.2.1,
    heval.2.2⟩

end Cache

end Hypershunt
