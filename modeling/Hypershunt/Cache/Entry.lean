import Hypershunt.Foundation.Time
import Hypershunt.Http.Message

/-!
# Stored responses

One cached response variant, `StoredResponse` of `cache/entry.rs`: the response to replay, the
moment it was stored, and the lifetime resolved for it at that moment. Freshness is judged on the
monotonic clock, so a wall-clock jump can make no entry fresh or stale.

An entry is made from a response (`new`) or from another entry and the `304` that confirmed it
(`refreshed`). Afterwards it is only read.
-/

namespace Hypershunt

open HeaderMap HeaderValue

/-- A cached response together with the metadata needed to reuse it. -/
structure StoredResponse where
  status : ℕ
  /-- Headers replayed to clients, without hop-by-hop headers and `Age`. -/
  headers : HeaderMap
  body : List UInt8
  /-- When the entry was stored. -/
  storedAt : Instant
  /-- The entry is fresh while it has been stored for less than this. -/
  freshnessLifetime : Duration
  /-- The age the origin reported at store time. -/
  initialAge : Duration
  etag : Option String
  lastModified : Option SystemTime
  /-- The request headers the response's `Vary` selects, as they were at store time. -/
  vary : List (HeaderName × Option String)
  /-- The `stale-while-revalidate` window. -/
  swr : Duration
  /-- The `stale-if-error` window. -/
  sie : Duration
  deriving DecidableEq

namespace StoredResponse

/-- A response without validators and windows, which has just come from the origin. -/
def bare (headers : HeaderMap) (lifetime : Duration) (now : Instant) : StoredResponse :=
  ⟨200, headers, [111, 107], now, lifetime, 0, none, none, [], 0, 0⟩

/-- Bytes charged against the budget. Both constructors of the source store this in a field. -/
def size (e : StoredResponse) : ℕ := e.body.length

/-- Within its freshness lifetime at `now`. -/
def isFresh (e : StoredResponse) (now : Instant) : Bool :=
  decide (now.saturatingDurationSince e.storedAt < e.freshnessLifetime)

/-! ### Making an entry -/

/-- Headers of the connection rather than of the response, and `Age`, which is computed anew. -/
def skipOnStore : List HeaderName :=
  ["connection", "keep-alive", "proxy-authenticate", "proxy-authorization", "te", "trailers",
    "transfer-encoding", "upgrade", "age"]

/-- The headers of a response that are stored. -/
def storedHeaders (h : HeaderMap) : HeaderMap := h.filter fun l ↦ !skipOnStore.contains l.1

def etagOf (h : HeaderMap) : Option String := h.getStr "etag"

def lastModifiedOf (dates : HttpDate) (h : HeaderMap) : Option SystemTime :=
  (h.getStr "last-modified").bind dates.parseHttpDate

def new (dates : HttpDate) (status : ℕ) (srcHeaders : HeaderMap) (body : List UInt8)
    (freshnessLifetime initialAge : Duration) (vary : List (HeaderName × Option String))
    (storedAt : Instant) : StoredResponse :=
  let headers := storedHeaders srcHeaders
  { status, headers, body, storedAt, freshnessLifetime, initialAge, vary
    etag := etagOf headers
    lastModified := lastModifiedOf dates headers
    swr := 0
    sie := 0 }

def withStaleWindows (e : StoredResponse) (swr sie : Duration) : StoredResponse :=
  { e with swr, sie }

/-- The headers that a `304` replaces. -/
def refreshedNames : List HeaderName :=
  ["cache-control", "date", "expires", "etag", "last-modified", "vary"]

/-- The first value of each of these names, where there is one, becomes the only one. -/
def overlay (update : HeaderMap) (names : List HeaderName) (h : HeaderMap) : HeaderMap :=
  names.foldl (fun (h : HeaderMap) n ↦ match update.get n with
    | some v => h.insert n v
    | none => h) h

/-- The entry after the origin has confirmed it. -/
def refreshed (dates : HttpDate) (e : StoredResponse) (update : HeaderMap)
    (lifetime initialAge : Duration) (now : Instant) : StoredResponse :=
  let headers := overlay update refreshedNames e.headers
  { e with
    headers
    storedAt := now
    freshnessLifetime := lifetime
    initialAge
    etag := etagOf headers
    lastModified := lastModifiedOf dates headers }

/-! ### Reading an entry -/

/-- The age reported by the origin and the time spent in the cache. -/
def currentAge (e : StoredResponse) (now : Instant) : Duration :=
  e.initialAge + now.saturatingDurationSince e.storedAt

def remainingFreshness (e : StoredResponse) (now : Instant) : Duration :=
  e.freshnessLifetime - now.saturatingDurationSince e.storedAt

def staleness (e : StoredResponse) (now : Instant) : Duration :=
  now.saturatingDurationSince e.storedAt - e.freshnessLifetime

/-- The request selects this variant. -/
def varyMatches (e : StoredResponse) (h : HeaderMap) : Bool :=
  e.vary.all fun l ↦ h.getStr l.1 == l.2

def hasValidators (e : StoredResponse) : Bool := e.etag.isSome || e.lastModified.isSome

/-- The conditional headers that ask the origin about this entry. -/
def revalidationHeaders (dates : HttpDate) (e : StoredResponse) :
    List (HeaderName × HeaderValue) :=
  ((e.etag.bind fromStr).map fun v ↦ ("if-none-match", v)).toList ++
    ((e.lastModified.bind fun t ↦ fromStr (dates.fmtHttpDate t)).map
      fun v ↦ ("if-modified-since", v)).toList

def stripWeak (tag : String) : String := (Text.stripPrefix "W/" tag).getD tag

def ifNoneMatchHits (inm : String) (etag : Option String) : Bool :=
  let inm := Text.trim inm
  if inm = "*" then etag.isSome
  else
    match etag with
    | none => false
    | some etag => (Text.split ',' inm).any fun t ↦ stripWeak (Text.trim t) == stripWeak etag

/-- The client already holds this representation. -/
def clientNotModified (dates : HttpDate) (e : StoredResponse) (h : HeaderMap) : Bool :=
  match h.getStr "if-none-match" with
  | some inm => ifNoneMatchHits inm e.etag
  | none =>
    match e.lastModified, (h.getStr "if-modified-since").bind dates.parseHttpDate with
    | some stored, some ims => decide (stored ≤ ims)
    | _, _ => false

def setAge (h : HeaderMap) (age : Duration) : HeaderMap :=
  match fromStr (Nat.repr age.asSecs) with
  | some v => h.insert "age" v
  | none => h

def toResponse (e : StoredResponse) (now : Instant) : Response :=
  ⟨e.status, setAge e.headers (e.currentAge now), some e.body⟩

/-- The validators of the entry without its body. -/
def notModifiedResponse (e : StoredResponse) (now : Instant) : Response :=
  let headers := ["etag", "last-modified", "cache-control"].foldl (fun (h : HeaderMap) n ↦
    match e.headers.get n with
    | some v => h.append n v
    | none => h) ([] : HeaderMap)
  ⟨304, (setAge headers (e.currentAge now)).remove "content-length", some []⟩

/-! ### Which headers an entry has -/

theorem getAll_storedHeaders {h : HeaderMap} {n : HeaderName} (hn : n ∉ skipOnStore) :
    (storedHeaders h).getAll n = h.getAll n := by
  rw [storedHeaders, getAll, List.filter_filter, getAll]
  congr 1
  refine List.filter_congr fun l _ ↦ ?_
  by_cases hl : l.1 = n
  · simp [hl, hn]
  · simp [hl]

/-- What an update mentions replaces all that was there; the rest is left alone. -/
theorem getAll_overlay (update : HeaderMap) (names : List HeaderName) (h : HeaderMap)
    (n : HeaderName) :
    (overlay update names h).getAll n =
      if n ∈ names ∧ (update.get n).isSome then (update.get n).toList else h.getAll n := by
  refine getAll_foldl_of_local (fun h ↦ ?_) (fun h m hnm ↦ ?_) names h
  · rcases update.get n with _ | v
    · rfl
    · exact getAll_insert_self
  · rcases update.get m with _ | v
    · rfl
    · exact getAll_insert_of_ne hnm

end StoredResponse

end Hypershunt
