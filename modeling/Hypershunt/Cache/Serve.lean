import Hypershunt.Cache.Policy
import Hypershunt.Cache.SingleFlight

/-!
# Serving through the cache

`serve_with_cache` and `spawn_swr_refresh` of `listener/service.rs`: any number of requests that are
served at the same time against one store, the refreshes they leave running in the background, and
the sweeper.

## Steps

A step is what lies between two points at which other tasks can run. Reading the store, removing a
key and inserting an entry each take the store's lock once; joining or claiming a fetch takes the
lock of the in-flight map; the handler is awaited, and so is the leader by its followers. Everything
else is local to a task and happens together with the step before it. The time is read when a
request arrives, when a follower wakes and when a refresh starts, and not again: what is stored
later carries that moment. A request that is cut off is dropped where it waits.

## Where an entry comes from

For each key the world remembers the exchange with a handler that the body stored under it came out
of. No step reads this.
-/

namespace Hypershunt

namespace Cache

open Listener (RequestContext)

/-! ## Requests and calls -/

/-- A request that is served through the cache, after routing and after the request-header rules. -/
structure Visit (T : Type) where
  /-- Which location the router chose. -/
  location : ℕ
  policy : CachePolicy T
  matchedPrefix : String
  ctx : RequestContext
  req : Request
  method_eq : ctx.method = req.method.asStr
  cacheable : policy.requestCacheable req.method = true

/-- What a location's handler is called with. -/
structure Call where
  matchedPrefix : String
  ctx : RequestContext
  req : Request
  deriving DecidableEq

/-- A call of a handler, on whose behalf it was made, and the answer. -/
structure Exchange (T : Type) where
  visit : Visit T
  call : Call
  response : Response

/-- An entry as it was read from the store. -/
structure Copy (T : Type) where
  entry : StoredResponse
  source : Option (Exchange T)

/-- A request for the front page. -/
def frontPage : Visit Unit where
  location := 0
  policy := .minute
  matchedPrefix := "/"
  ctx := { method := "GET", scheme := "http", host := "a.test", path := "/", pathAndQuery := "/" }
  req := .bare .get "/" [("host", "a.test")]
  method_eq := rfl
  cacheable := rfl

/-- Where no location has a template, nothing has to be rendered. -/
def untemplated : Unit → RequestContext → String := fun _ _ ↦ ""

section

variable {T : Type} (dates : HttpDate) (render : T → RequestContext → String) (v : Visit T)

/-- The conditional headers of the client give way to those of the entry. -/
def conditional (entry : StoredResponse) (h : HeaderMap) : HeaderMap :=
  (entry.revalidationHeaders dates).foldl (fun h l ↦ h.insert l.1 l.2)
    ((h.remove "if-none-match").remove "if-modified-since")

/-- `OwnedCtx::from` followed by `as_ctx`: what a background task sees of the request. -/
def ownedCtx (ctx : RequestContext) : RequestContext :=
  { ctx with
    method := "GET"
    scheme := if ctx.scheme = "https" then "https" else "http" }

namespace Visit

def key : String := v.policy.buildKey render v.ctx

def directives : RequestCacheControl := v.policy.clientDirectives v.req.headers

/-- The handler gets the request as it is. -/
def fetchCall : Call := ⟨v.matchedPrefix, v.ctx, v.req⟩

/-- The handler is asked about an entry. -/
def revalidationCall (entry : StoredResponse) : Call :=
  ⟨v.matchedPrefix, v.ctx, { v.req with headers := conditional dates entry v.req.headers }⟩

/-- The handler is asked in the background. The request is gone by then, and a `GET` of the path and
query that the client asked for is built, if these make a target. -/
def refreshCall (entry : StoredResponse) : Option Call :=
  (Uri.ofPathAndQuery v.ctx.pathAndQuery).map fun uri ↦
    ⟨v.matchedPrefix, ownedCtx v.ctx,
      { method := .get
        uri
        version := .http11
        headers := conditional dates entry v.req.headers
        body := [] }⟩

end Visit

end

/-! ## Tasks -/

inductive Phase (T : Type)
  /-- About to read the store; a follower does so `again`. -/
  | looking (now : Instant) (again : Bool)
  /-- The entry that was read is of no use, and its key is about to be removed. -/
  | dropping (now : Instant) (again : Bool) (seen : StoredResponse)
  /-- About to claim the fetch, or to join it. -/
  | missed (now : Instant)
  | waiting (rx : ℕ)
  /-- The handler has the request, and nothing will be stored. -/
  | bypassing
  | fetching (now : Instant) (guard : Option ℕ)
  | revalidating (now : Instant) (copy : Copy T) (serveStaleOnError : Bool)
  /-- A background task before it claims its fetch. -/
  | spawned (copy : Copy T)
  | refreshing (now : Instant) (copy : Copy T) (guard : ℕ)
  /-- The two steps of dropping the guard. -/
  | leaving (guard : ℕ)
  | releasing (guard : ℕ)
  | done

/-- What a request is answered with. -/
inductive Reply (T : Type)
  /-- From the store, without asking the handler. -/
  | stored (copy : Copy T) (now : Instant) (resp : Response)
  /-- From the store, after the handler has confirmed it. -/
  | confirmed (copy : Copy T) (resp : Response)
  /-- From the store, because the handler failed. -/
  | onError (copy : Copy T) (resp : Response)
  | fetched (resp : Response)
  | gatewayTimeout

structure Task (T : Type) where
  visit : Visit T
  phase : Phase T
  reply : Option (Reply T)

/-- What a step does to the store. -/
inductive StoreOp (T : Type)
  | keep
  | get (key : String)
  | remove (key : String)
  | insert (key : String) (entry : StoredResponse) (source : Option (Exchange T))
  | sweep (now : Instant)

def StoreOp.apply {T : Type} (s : CacheStore) : StoreOp T → CacheStore
  | .keep => s
  | .get key => (s.get key).2
  | .remove key => s.remove key
  | .insert key entry _ => s.insert key entry
  | .sweep now => s.evictExpired now

structure World (T : Type) where
  clock : Instant
  store : CacheStore
  flights : SingleFlight.State
  tasks : List (Task T)
  sources : String → Option (Exchange T)

/-- What one task does in one step. -/
structure Move (T : Type) where
  phase : Phase T
  reply : Option (Reply T) := none
  op : StoreOp T := .keep
  flights : SingleFlight.State
  spawned : List (Task T) := []

inductive Event
  | look
  | drop
  | claim
  | wake
  | respond (resp : Response)
  | cancel
  | unlock
  | release

inductive Action (T : Type)
  | tick (d : Duration)
  | arrive (visit : Visit T)
  | sweep (now : Instant)
  | go (task : ℕ) (event : Event)

/-- A request for which there is no entry, and whose answer is stored. -/
def fetching (i : ℕ) (visit : Visit T) (resp : Response) : List (Action T) :=
  [.arrive visit, .go i .look, .go i .claim, .go i (.respond resp), .go i .unlock, .go i .release]

/-! ## The steps of a task -/

section

variable {T : Type} (dates : HttpDate) (render : T → RequestContext → String)

/-- The fetch is over, and the guard of a leader is dropped. -/
def Phase.afterFetch : Option ℕ → Phase T
  | some guard => .leaving guard
  | none => .done

/-- A lookup has found nothing it can use. -/
def Visit.miss (v : Visit T) (flights : SingleFlight.State) (now : Instant) : Bool → Move T
  | true => { phase := .fetching now none, flights }
  | false =>
    if v.directives.onlyIfCached then
      { phase := .done, reply := some .gatewayTimeout, flights }
    else { phase := .missed now, flights }

/-- What follows a lookup. A follower fetches unless the lookup is a hit. -/
def Visit.found (v : Visit T) (flights : SingleFlight.State) (copy : Copy T) (now : Instant)
    (again : Bool) : Lookup → Move T
  | .hit resp => { phase := .done, reply := some (.stored copy now resp), flights }
  | .staleWhileRevalidate entry =>
    if again then { phase := .fetching now none, flights }
    else
      { phase := .done
        reply := some (.stored copy now (entry.toResponse now))
        flights
        spawned := [⟨v, .spawned copy, none⟩] }
  | .revalidate _ serveStaleOnError =>
    if again then { phase := .fetching now none, flights }
    else { phase := .revalidating now copy serveStaleOnError, flights }
  | .miss => v.miss flights now again

/-- A read of the store. -/
def Visit.look (v : Visit T) (s : World T) (now : Instant) (again : Bool) : Move T :=
  let key := v.key render
  match s.store.peek key with
  | none => { v.miss s.flights now again with op := .get key }
  | some entry =>
    match judge dates entry v.req.headers now v.directives with
    | (_, true) =>
      { phase := .dropping now again entry, op := .get key, flights := s.flights }
    | (found, false) =>
      { v.found s.flights ⟨entry, s.sources key⟩ now again found with op := .get key }

/-- `begin_fetch`, for a request that has missed. -/
def Visit.claim (v : Visit T) (s : World T) (now : Instant) : Move T :=
  match s.flights.beginFetch (v.key render) with
  | (.leader guard, flights) => { phase := .fetching now (some guard), flights }
  | (.follower rx, flights) => { phase := .waiting rx, flights }

/-- `begin_fetch`, for a background task. A second one for the same key gives up. -/
def Visit.refresh (v : Visit T) (s : World T) (copy : Copy T) : Move T :=
  match s.flights.beginFetch (v.key render) with
  | (.leader guard, flights) =>
    match v.refreshCall dates copy.entry with
    | some _ => { phase := .refreshing s.clock copy guard, flights }
    | none => { phase := .leaving guard, flights }
  | (.follower _, flights) => { phase := .done, flights }

/-- The effect of `maybe_store` on the store, and the response it passes on. -/
def Visit.writeBack (v : Visit T) (call : Call) (resp : Response) (now : Instant) :
    Response × StoreOp T :=
  match v.policy.writeThrough dates v.req.headers resp now with
  | .bypass => (resp, .keep)
  | .failed => (CachePolicy.bodyReadFailed, .keep)
  | .store entry => (entry.toResponse now, .insert (v.key render) entry (some ⟨v, call, resp⟩))

/-- The effect of `serve_revalidated`. The body is still that of the first exchange. -/
def Visit.putBack (v : Visit T) (copy : Copy T) (resp : Response) (now : Instant) :
    Response × StoreOp T :=
  let refreshed := v.policy.revalidated dates copy.entry resp.headers now
  (freshResponse dates refreshed v.req.headers now, .insert (v.key render) refreshed copy.source)

/-- The handler's answer to a task that awaits one. -/
def Visit.respond (v : Visit T) (flights : SingleFlight.State) (resp : Response) :
    Phase T → Option (Move T)
  | .bypassing => some { phase := .done, reply := some (.fetched resp), flights }
  | .fetching now guard =>
    let (resp, op) := v.writeBack dates render v.fetchCall resp now
    some { phase := .afterFetch guard, reply := some (.fetched resp), op, flights }
  | .revalidating now copy serveStaleOnError =>
    if resp.status = 304 then
      let (resp, op) := v.putBack dates render copy resp now
      some { phase := .done, reply := some (.confirmed copy resp), op, flights }
    else if serveStaleOnError && 500 ≤ resp.status && resp.status < 600 then
      some { phase := .done, reply := some (.onError copy (copy.entry.toResponse now)), flights }
    else
      let (resp, op) :=
        v.writeBack dates render (v.revalidationCall dates copy.entry) resp now
      some { phase := .done, reply := some (.fetched resp), op, flights }
  | .refreshing now copy guard =>
    (v.refreshCall dates copy.entry).map fun call ↦
      { phase := .leaving guard
        op := if resp.status = 304 then (v.putBack dates render copy resp now).2
          else (v.writeBack dates render call resp now).2
        flights }
  | _ => none

/-- A request that is cut off while it waits. A background task is not. -/
def Phase.cancel : Phase T → Option (Phase T)
  | .waiting _ => some .done
  | .bypassing => some .done
  | .fetching _ guard => some (.afterFetch guard)
  | .revalidating _ _ _ => some .done
  | _ => none

def Task.move (s : World T) (task : Task T) : Event → Option (Move T)
  | .look => match task.phase with
    | .looking now again => some (task.visit.look dates render s now again)
    | _ => none
  | .drop => match task.phase with
    | .dropping now again _ =>
      some { task.visit.miss s.flights now again with op := .remove (task.visit.key render) }
    | _ => none
  | .claim => match task.phase with
    | .missed now => some (task.visit.claim render s now)
    | .spawned copy => some (task.visit.refresh dates render s copy)
    | _ => none
  | .wake => match task.phase with
    -- the leader is gone when its sender is
    | .waiting rx =>
      if s.flights.channels[rx]?.any Watch.closed then
        some { phase := .looking s.clock true, flights := s.flights }
      else none
    | _ => none
  | .respond resp => task.visit.respond dates render s.flights resp task.phase
  | .cancel => task.phase.cancel.map fun phase ↦ { phase, flights := s.flights }
  | .unlock => match task.phase with
    | .leaving guard => (s.flights.dropRemove guard).map fun flights ↦
      { phase := .releasing guard, flights }
    | _ => none
  | .release => match task.phase with
    | .releasing guard => (s.flights.dropRelease guard).map fun flights ↦
      { phase := .done, flights }
    | _ => none

end

/-! ## The world -/

section

variable {T : Type} (dates : HttpDate) (render : T → RequestContext → String)

namespace World

def init (maxBytes : ℕ) : World T := ⟨0, .new maxBytes, .init, [], fun _ ↦ none⟩

/-- The store does what a step asks of it. What is too large for it is not stored. -/
def exec (s : World T) (op : StoreOp T) : World T :=
  { s with
    store := op.apply s.store
    sources := match op with
      | .insert key entry source =>
        if entry.size ≤ s.store.maxBytes then Function.update s.sources key source else s.sources
      | _ => s.sources }

/-- A task changes as it moves, and keeps the answer it has given. -/
def perform (s : World T) (i : ℕ) (task : Task T) (m : Move T) : World T :=
  { s.exec m.op with
    flights := m.flights
    tasks := s.tasks.set i ⟨task.visit, m.phase, m.reply <|> task.reply⟩ ++ m.spawned }

/-- A request that does not want to be cached goes to the handler at once. -/
def arrival (s : World T) (v : Visit T) : Task T :=
  ⟨v, if v.directives.noStore then .bypassing else .looking s.clock false, none⟩

end World

def step (s : World T) : Action T → Option (World T)
  | .tick d => some { s with clock := s.clock + d }
  | .arrive v => some { s with tasks := s.tasks ++ [s.arrival v] }
  | .sweep now => if now ≤ s.clock then some (s.exec (.sweep now)) else none
  | .go i event => s.tasks[i]?.bind fun task ↦
    (task.move dates render s event).map (s.perform i task)

end

end Cache

end Hypershunt
