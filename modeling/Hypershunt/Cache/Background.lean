import Hypershunt.Cache.Held
import Hypershunt.Cache.Routed

/-!
# Refreshing in the background

A stale response is served at once and refreshed by a task that outlives the request. The task
cannot keep the request, so it builds another from what it has taken along: the context, which was
made before the router rewrote the target, and the headers. The handler then sees

* always the method `GET`, also where the request was a `HEAD`, and a context that says so too;
* the path and query that the client sent, also where the location's handler expects the rewritten
  ones.

The headers are those of the request, with the validators of the entry, and what is stored is what
the request would have stored for the same answer.
-/

namespace Hypershunt

namespace Cache

open Listener (RequestContext Service Externals)

open Visit Option List

variable {R T : Type} {dates : HttpDate} {render : T → RequestContext → String} {v : Visit T}

/-- The key and the entry that an operation stores. -/
def StoreOp.stored : StoreOp T → Option (String × StoredResponse)
  | .insert key entry _ => some (key, entry)
  | _ => none

/-- What is stored when the handler answers a task in a phase. -/
def Visit.storedBy (dates : HttpDate) (render : T → RequestContext → String) (v : Visit T)
    (resp : Response) (phase : Phase T) : Option (String × StoredResponse) :=
  (v.respond dates render .init resp phase).bind fun m ↦ m.op.stored

/-- The handler is called as by the request itself, conditional headers apart, and its answer leaves
the same entry under the same key. -/
structure SameAsForeground (dates : HttpDate) (render : T → RequestContext → String) (v : Visit T)
    (copy : Copy T) (call : Call) : Prop where
  method : call.req.method = v.req.method
  target : call.req.uri.pathAndQuery = v.req.uri.pathAndQuery
  matchedPrefix : call.matchedPrefix = v.matchedPrefix
  ctx : call.ctx = v.ctx
  headers : ∀ n, n ≠ "if-none-match" → n ≠ "if-modified-since" →
    call.req.headers.getAll n = v.req.headers.getAll n
  asked : ∀ resp now guard onError,
    v.storedBy dates render resp (.refreshing now copy guard) =
      v.storedBy dates render resp (.revalidating now copy onError)
  fetched : ∀ resp now guard guard', resp.status ≠ 304 →
    v.storedBy dates render resp (.refreshing now copy guard) =
      v.storedBy dates render resp (.fetching now guard')

/-- The refresh is made, and as the request would have made it. -/
def RefreshesAlike (dates : HttpDate) (render : T → RequestContext → String) (v : Visit T)
    (copy : Copy T) : Prop :=
  ∃ call, v.refreshCall dates copy.entry = some call ∧ SameAsForeground dates render v copy call

/-! ## Headers -/

theorem fst_mem_revalidationHeaders {entry : StoredResponse} {l : HeaderName × HeaderValue}
    (h : l ∈ entry.revalidationHeaders dates) :
    l.1 = "if-none-match" ∨ l.1 = "if-modified-since" := by
  rw [StoredResponse.revalidationHeaders, mem_append, mem_toList, mem_toList,
    map_eq_some_iff, map_eq_some_iff] at h
  rcases h with ⟨_, -, rfl⟩ | ⟨_, -, rfl⟩
  · exact Or.inl rfl
  · exact Or.inr rfl

theorem getAll_foldl_insert {ls : List (HeaderName × HeaderValue)} {n : HeaderName}
    (hn : ∀ l ∈ ls, l.1 ≠ n) (h : HeaderMap) :
    (ls.foldl (fun (h : HeaderMap) l ↦ h.insert l.1 l.2) h).getAll n = h.getAll n := by
  induction ls generalizing h with
  | nil => rfl
  | cons l ls ih =>
    rw [foldl_cons, ih fun l' hl' ↦ hn l' (mem_cons_of_mem l hl')]
    exact HeaderMap.getAll_insert_of_ne (hn l mem_cons_self).symm

theorem getAll_conditional (entry : StoredResponse) (h : HeaderMap) {n : HeaderName}
    (hnone : n ≠ "if-none-match") (hsince : n ≠ "if-modified-since") :
    (conditional dates entry h).getAll n = h.getAll n := by
  rw [conditional, getAll_foldl_insert, HeaderMap.getAll_remove_of_ne hsince,
    HeaderMap.getAll_remove_of_ne hnone]
  intro l hl
  rcases fst_mem_revalidationHeaders hl with heq | heq
  · exact heq ▸ hnone.symm
  · exact heq ▸ hsince.symm

/-! ## Entries -/

theorem stored_writeBack (v : Visit T) (call call' : Call) (resp : Response) (now : Instant) :
    (v.writeBack dates render call resp now).2.stored =
      (v.writeBack dates render call' resp now).2.stored := by
  unfold writeBack
  split <;> rfl

variable {resp : Response} {now : Instant}

theorem stored_writeBack_of_error {call : Call} (h : 500 ≤ resp.status) :
    (v.writeBack dates render call resp now).2.stored = none := by
  unfold writeBack
  split
  · rfl
  · rfl
  case h_3 hstore =>
    have hcacheable := (storedBy_of_writeThrough hstore).cacheable
    rw [cacheableStatus, contains_iff_mem] at hcacheable
    simp only [mem_cons, not_mem_nil, or_false] at hcacheable
    omega

theorem storedBy_refreshing {copy : Copy T} {call : Call} {guard : ℕ}
    (hcall : v.refreshCall dates copy.entry = some call) :
    v.storedBy dates render resp (.refreshing now copy guard) =
      if resp.status = 304 then (v.putBack dates render copy resp now).2.stored
      else (v.writeBack dates render call resp now).2.stored := by
  rw [storedBy, respond, hcall, map_some, bind_some]
  split <;> rfl

theorem storedBy_revalidating {copy : Copy T} {onError : Bool} (call : Call) :
    v.storedBy dates render resp (.revalidating now copy onError) =
      if resp.status = 304 then (v.putBack dates render copy resp now).2.stored
      else (v.writeBack dates render call resp now).2.stored := by
  rw [storedBy, respond]
  split
  · rfl
  · split
    case isTrue herror =>
      rw [Bool.and_eq_true, Bool.and_eq_true, decide_eq_true_eq] at herror
      rw [stored_writeBack_of_error herror.1.2]
      rfl
    case isFalse => exact stored_writeBack v _ _ resp now

theorem storedBy_fetching {guard : Option ℕ} (call : Call) :
    v.storedBy dates render resp (.fetching now guard) =
      (v.writeBack dates render call resp now).2.stored :=
  stored_writeBack v _ _ resp now

/-! ## The result -/

theorem ownedCtx_eq_self {ctx : RequestContext} (hmethod : ctx.method = "GET")
    (hscheme : ctx.scheme = "https" ∨ ctx.scheme = "http") : ownedCtx ctx = ctx := by
  have hkept : (if ctx.scheme = "https" then "https" else "http") = ctx.scheme := by
    rcases hscheme with h | h
    · rw [if_pos h, h]
    · rw [h, if_neg (by decide)]
  rw [ownedCtx, hkept, ← hmethod]

/-- **When a refresh equals the fetch it stands for**: exactly when the request is a `GET` and the
router has left its path and query as they came. -/
theorem refreshesAlike_iff (x : Externals T) (rx : Router.Externals R)
    (table : Router.Table R (Site T)) (svc : Service T) (orig : Request) (v : Visit T)
    (hrouted : Routed x rx table svc orig v) (hpath : orig.uri.HasPath) (dates : HttpDate)
    (copy : Copy T) :
    RefreshesAlike dates x.render v copy ↔
      orig.method = .get ∧ v.req.uri.pathAndQuery = orig.uri.pathAndQuery := by
  obtain ⟨hroute, hcache, principal, hmethod, hcacheable⟩ := hrouted
  rename_i loc req policy
  generalize hv : visitOf x svc loc policy orig req principal hmethod hcacheable = v
  have hvmethod : v.req.method = orig.method := by rw [← hv]; exact hmethod
  have hctx : v.ctx = Listener.context x svc loc.data.route orig req principal := by rw [← hv]; rfl
  have hcall : v.refreshCall dates copy.entry = some ⟨v.matchedPrefix, ownedCtx v.ctx,
      ⟨.get, ⟨none, none, orig.uri.pathAndQuery⟩, .http11,
        conditional dates copy.entry v.req.headers, []⟩⟩ := by
    have htext : v.ctx.pathAndQuery = orig.uri.pathAndQueryStr := by rw [hctx]; rfl
    rw [refreshCall, htext, hpath.ofPathAndQuery, map_some]
  constructor
  · rintro ⟨call, hsome, hsame⟩
    obtain rfl := some.inj (hcall.symm.trans hsome)
    exact ⟨hvmethod ▸ hsame.method.symm, hsame.target.symm⟩
  · rintro ⟨hget, htarget⟩
    have hself : ownedCtx v.ctx = v.ctx := by
      refine ownedCtx_eq_self ?_ ?_
      · rw [v.method_eq, hvmethod, hget]
        rfl
      · rw [hctx]
        exact (ite_eq_or_eq (svc.isTls = true) "https" "http")
    refine ⟨_, hcall, ?_⟩
    exact
      { method := (hvmethod.trans hget).symm
        target := htarget.symm
        matchedPrefix := rfl
        ctx := hself
        headers := fun n hnone hsince ↦ getAll_conditional copy.entry v.req.headers hnone hsince
        asked := fun resp now guard onError ↦ by
          rw [storedBy_refreshing hcall, storedBy_revalidating]
        fetched := fun resp now guard guard' hstatus ↦ by
          rw [storedBy_refreshing hcall, if_neg hstatus, storedBy_fetching] }

private def cachesBoth : CachePolicy Unit := { CachePolicy.minute with methods := ["GET", "HEAD"] }

private def root : Router.Location String (Site Unit) :=
  ⟨"/", none, none, ⟨0, .bare fun _ _ ↦ response404, some cachesBoth⟩⟩

/-- One host with a location for everything, and an old path that is rewritten to a new one. -/
private def moved : Router.Table String (Site Unit) where
  tables := AList.singleton "tcp://[::]:80"
    { literals := ∅
      patterns := []
      default := some ⟨[root,
        ⟨"/old", none, some ⟨"/old", "/new"⟩, ⟨1, .bare fun _ _ ↦ response404, none⟩⟩]⟩ }

private def asks (m : Method) (path : String) : Request := .bare m path [("host", "a.test")]

private def stale : Copy Unit :=
  ⟨⟨200, [("etag", "v1")], [111, 107], 0, Duration.fromSecs 60, 0, some "v1", none, [],
    Duration.fromSecs 30, 0⟩, none⟩

theorem refreshesAlike_of_plain_get :
    ∃ v, Routed .bare Router.texts moved (bareService moved) (asks .get "/page") v ∧
      RefreshesAlike .blank Externals.bare.render v stale := by
  have hrouted : Routed .bare Router.texts moved (bareService moved) (asks .get "/page") _ :=
    ⟨rfl, rfl, .anonymous, rfl, rfl⟩
  refine ⟨_, hrouted, (refreshesAlike_iff .bare Router.texts moved (bareService moved) _ _
    hrouted ⟨by decide, by decide⟩ .blank stale).mpr ⟨rfl, rfl⟩⟩

/-- A `HEAD` is refreshed by a `GET`, and a rewritten request with the path that was rewritten. -/
theorem refresh_changes_request :
    (∃ v call, Routed .bare Router.texts moved (bareService moved) (asks .head "/page") v ∧
      v.refreshCall .blank stale.entry = some call ∧ v.req.method = .head ∧
      call.req.method = .get ∧ ¬RefreshesAlike .blank Externals.bare.render v stale) ∧
    ∃ v call, Routed .bare Router.texts moved (bareService moved) (asks .get "/old") v ∧
      v.refreshCall .blank stale.entry = some call ∧ v.req.uri.path = "/new" ∧
      call.req.uri.path = "/old" ∧ ¬RefreshesAlike .blank Externals.bare.render v stale := by
  constructor
  · have hrouted : Routed .bare Router.texts moved (bareService moved) (asks .head "/page") _ :=
      ⟨rfl, rfl, .anonymous, rfl, rfl⟩
    refine ⟨_, _, hrouted, rfl, rfl, rfl, ?_⟩
    rintro ⟨call, hcall, hsame⟩
    obtain ⟨uri, -, rfl⟩ := map_eq_some_iff.mp hcall
    have hmethod : Method.get = Method.head := hsame.method
    cases hmethod
  · have hroute : moved.route Router.texts (bareService moved).bind (asks .get "/old") =
        some (root, asks .get "/new") := rfl
    have hrouted : Routed .bare Router.texts moved (bareService moved) (asks .get "/old") _ :=
      ⟨hroute, rfl, .anonymous, rfl, rfl⟩
    refine ⟨_, ⟨"/", _, ⟨.get, ⟨none, none, some ("/old", none)⟩, .http11, _, []⟩⟩, hrouted, rfl,
      rfl, rfl, ?_⟩
    rintro ⟨call, hcall, hsame⟩
    obtain ⟨uri, huri, rfl⟩ := map_eq_some_iff.mp hcall
    have htarget : some ("/old", none) = some ("/new", none) :=
      (congrArg Uri.pathAndQuery (some.inj huri)).trans hsame.target
    exact absurd htarget (by decide)

end Cache

end Hypershunt
