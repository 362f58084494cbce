import Hypershunt.Cache.Contents
import Hypershunt.Cache.Control
import Hypershunt.Listener.Service

/-!
# The cache policy of a location

`cache/policy.rs` and `cache/key.rs`: which responses may be stored and for how long, what a lookup
makes of the entry it finds, and how an entry is put back after the origin has confirmed it.

A lookup takes the store's lock twice when the entry it found turns out to be useless: once to read
it, and again to remove whatever is then stored under the key. What lies between, `judge`, looks at
the entry alone. In the same way `writeThrough` decides about a response before the store is
touched. The functions on the store are these two followed by the store's methods.

Dates are read and written by a parameter, as are templates. Lengths of time are natural numbers;
the source's are bounded, and adding to a length at the bound is not modelled here.
-/

namespace Hypershunt

namespace Cache

open Listener (RequestContext)

open ResponseCacheControl Duration

/-! ## Keys -/

/-- The recipe for the keys of a location; without a template they have the default form. -/
structure CacheKey (T : Type) where
  template : Option T

def CacheKey.build {T : Type} (render : T → RequestContext → String) (k : CacheKey T)
    (ctx : RequestContext) : String :=
  match k.template with
  | some t => ctx.method ++ " " ++ render t ctx
  | none => ctx.method ++ " " ++ ctx.scheme ++ "://" ++ ctx.host ++ ctx.pathAndQuery

/-! ## Policies -/

structure CachePolicy (T : Type) where
  key : CacheKey T
  /-- The upper bound on freshness, and the lifetime where the origin declares none. -/
  ttl : Duration
  maxObjectSize : ℕ
  methods : List String
  honorClientCacheControl : Bool

/-- A location that keeps the responses to `GET` for a minute, under the default keys. -/
def CachePolicy.minute : CachePolicy Unit where
  key := ⟨none⟩
  ttl := fromSecs 60
  maxObjectSize := 1024
  methods := ["GET"]
  honorClientCacheControl := false

/-- What is needed to store a response. -/
structure Decision where
  lifetime : Duration
  initialAge : Duration
  vary : List (HeaderName × Option String)
  swr : Duration
  sie : Duration

inductive Lookup
  | hit (resp : Response)
  | staleWhileRevalidate (entry : StoredResponse)
  | revalidate (entry : StoredResponse) (serveStaleOnError : Bool)
  | miss
  deriving DecidableEq

/-- What becomes of a handler's response. -/
inductive WriteThrough
  /-- It is passed on untouched. -/
  | bypass
  /-- Its body could not be read. -/
  | failed
  | store (entry : StoredResponse)
  deriving DecidableEq

/-- The members of a comma-separated header line. -/
def members (v : String) : List String := (Text.split ',' v).map Text.trim

/-- The header name a member of `Vary` is, if it is one. -/
def memberName (t : String) : Option HeaderName :=
  if t.isEmpty then none else HeaderName.fromBytes (Text.toAsciiLowercase t)

/-- The names that `Vary` lists, unless it contains a star or something that is not text. -/
def varyNames (h : HeaderMap) : Option (List HeaderName) := do
  let lines ← (h.getAll "vary").mapM HeaderValue.toStr
  let tokens := lines.flatMap members
  if "*" ∈ tokens then none else some (tokens.filterMap memberName)

/-- `age_of`: zero where there is no number. -/
def ageOf (h : HeaderMap) : Duration :=
  (((h.getStr "age").bind Text.parseU64).map fromSecs).getD 0

def cacheableStatus (status : ℕ) : Bool := [200, 203, 204, 300, 301, 404, 410].contains status

/-- The values a request has for the names of a `Vary`. -/
def snapshot (names : List HeaderName) (h : HeaderMap) : List (HeaderName × Option String) :=
  names.map fun n ↦ (n, h.getStr n)

section

variable (dates : HttpDate)

def expiresMinusDate (h : HeaderMap) : Option Duration := do
  let date ← (h.getStr "date").bind dates.parseHttpDate
  let expires ← (h.getStr "expires").bind dates.parseHttpDate
  return fromSecs (expires - date)

/-- The lifetime a response declares: `s-maxage`, else `max-age`, else `Expires` minus `Date`. -/
def declaredLifetime (h : HeaderMap) : Option Duration :=
  let cc := parse h
  ((cc.sMaxage <|> cc.maxAge).map fromSecs) <|> expiresMinusDate dates h

/-- What the client gets of an entry: the client may hold the same representation already. -/
def freshResponse (entry : StoredResponse) (h : HeaderMap) (now : Instant) : Response :=
  if entry.clientNotModified dates h then entry.notModifiedResponse now else entry.toResponse now

namespace CachePolicy

variable {T : Type} (p : CachePolicy T)

def requestCacheable (m : Method) : Bool :=
  (m = .get || m = .head) && p.methods.contains m.asStr

def buildKey (render : T → RequestContext → String) (ctx : RequestContext) : String :=
  p.key.build render ctx

/-- The client's directives, where the location honours them. -/
def clientDirectives (h : HeaderMap) : RequestCacheControl :=
  if p.honorClientCacheControl then .parse h else {}

/-- `lifetime_from`. -/
def lifetimeFrom (h : HeaderMap) : Duration :=
  match declaredLifetime dates h with
  | some declared => min declared p.ttl
  | none => p.ttl

/-! ### Storing -/

/-- Whether a response may be stored, and for how long. -/
def evaluate (status : ℕ) (respHeaders reqHeaders : HeaderMap) : Option Decision :=
  let cc := parse respHeaders
  if cc.forbids then none
  else if respHeaders.containsKey "set-cookie" then none
  else if respHeaders.containsKey "content-encoding" then none
  else
    match varyNames respHeaders with
    | none => none
    | some names =>
      -- an authorized response is shared only where the origin says so
      if reqHeaders.containsKey "authorization" && !(cc.public || cc.sMaxage.isSome) then none
      else if !cacheableStatus status then none
      else if p.lifetimeFrom dates respHeaders = 0 then none
      else some
        { lifetime := p.lifetimeFrom dates respHeaders
          initialAge := ageOf respHeaders
          vary := snapshot names reqHeaders
          swr := cc.swr
          sie := cc.sie }

/-- The announced length is there and within the limit for one object. -/
def fits (respHeaders : HeaderMap) : Bool :=
  (contentLength respHeaders).any fun n ↦ decide (n ≤ p.maxObjectSize)

def writeThrough (reqHeaders : HeaderMap) (resp : Response) (now : Instant) : WriteThrough :=
  match p.evaluate dates resp.status resp.headers reqHeaders with
  | none => .bypass
  | some decision =>
    if !p.fits resp.headers then .bypass
    else
      match resp.body with
      | none => .failed
      | some body => .store
        ((StoredResponse.new dates resp.status resp.headers body decision.lifetime
          decision.initialAge decision.vary now).withStaleWindows decision.swr decision.sie)

def bodyReadFailed : Response := ⟨502, [], some (Text.bytes "<h1>502 Bad Gateway</h1>")⟩

/-! ### Putting an entry back -/

/-- The entry after a `304`, whose headers say how long it is fresh from now on. -/
def revalidated (entry : StoredResponse) (update : HeaderMap) (now : Instant) : StoredResponse :=
  entry.refreshed dates update (p.lifetimeFrom dates update) (ageOf update) now

end CachePolicy

/-! ## Looking up -/

/-- The client's directives rule out an entry that is still fresh. -/
def refused (rcc : RequestCacheControl) (entry : StoredResponse) (now : Instant) : Bool :=
  rcc.noCache || (rcc.maxAge.any fun m ↦ decide (m < (entry.currentAge now).asSecs)) ||
    rcc.minFresh.any fun m ↦ decide ((entry.remainingFreshness now).asSecs < m)

/-- The client accepts an entry that is as stale as this one. -/
def acceptsStale (rcc : RequestCacheControl) (entry : StoredResponse) (now : Instant) : Bool :=
  !rcc.noCache && rcc.maxStale.any fun m ↦
    m.all fun n ↦ decide ((entry.staleness now).asSecs ≤ n)

/-- A window of the entry is open. -/
def within (window staleness : Duration) : Bool :=
  decide (window ≠ 0) && decide (staleness ≤ window)

/-- What a lookup makes of an entry, and whether it then removes the key. -/
def judge (entry : StoredResponse) (h : HeaderMap) (now : Instant) (rcc : RequestCacheControl) :
    Lookup × Bool :=
  if !entry.varyMatches h then (.miss, false)
  else if entry.isFresh now then
    if !refused rcc entry now then (.hit (freshResponse dates entry h now), false)
    else if entry.hasValidators then (.revalidate entry false, false)
    else (.miss, false)
  else if acceptsStale rcc entry now then (.hit (entry.toResponse now), false)
  else if !rcc.noCache && within entry.swr (entry.staleness now) then
    (.staleWhileRevalidate entry, false)
  else if entry.hasValidators || within entry.sie (entry.staleness now) then
    (.revalidate entry (within entry.sie (entry.staleness now)), false)
  -- neither a validator nor an open window: the entry is of no more use
  else (.miss, true)

/-- `lookup`, when nothing else happens between its two locked sections. -/
def lookup (s : CacheStore) (key : String) (h : HeaderMap) (now : Instant)
    (rcc : RequestCacheControl) : Lookup × CacheStore :=
  match s.get key with
  | (none, s) => (.miss, s)
  | (some entry, s) =>
    match judge dates entry h now rcc with
    | (found, true) => (found, s.remove key)
    | (found, false) => (found, s)

/-! ## What a lookup finds -/

variable {dates} {entry : StoredResponse} {h : HeaderMap} {now : Instant}
  {rcc : RequestCacheControl}

/-- How a lookup judges an entry, and why. -/
inductive Judged (dates : HttpDate) (entry : StoredResponse) (h : HeaderMap) (now : Instant)
    (rcc : RequestCacheControl) : Lookup × Bool → Prop
  | variant (hvary : entry.varyMatches h = false) : Judged dates entry h now rcc (.miss, false)
  | fresh (hvary : entry.varyMatches h = true) (hfresh : entry.isFresh now = true)
      (hok : refused rcc entry now = false) :
      Judged dates entry h now rcc (.hit (freshResponse dates entry h now), false)
  | forced (hvary : entry.varyMatches h = true) (hfresh : entry.isFresh now = true)
      (hrefused : refused rcc entry now = true) (hvalid : entry.hasValidators = true) :
      Judged dates entry h now rcc (.revalidate entry false, false)
  | refetched (hvary : entry.varyMatches h = true) (hfresh : entry.isFresh now = true)
      (hrefused : refused rcc entry now = true) (hvalid : entry.hasValidators = false) :
      Judged dates entry h now rcc (.miss, false)
  | accepted (hvary : entry.varyMatches h = true) (hstale : entry.isFresh now = false)
      (haccepts : acceptsStale rcc entry now = true) :
      Judged dates entry h now rcc (.hit (entry.toResponse now), false)
  | served (hvary : entry.varyMatches h = true) (hstale : entry.isFresh now = false)
      (hrejects : acceptsStale rcc entry now = false) (hcache : rcc.noCache = false)
      (hswr : within entry.swr (entry.staleness now) = true) :
      Judged dates entry h now rcc (.staleWhileRevalidate entry, false)
  | stale (hvary : entry.varyMatches h = true) (hstale : entry.isFresh now = false)
      (hrejects : acceptsStale rcc entry now = false)
      (hswr : (!rcc.noCache && within entry.swr (entry.staleness now)) = false)
      (hkept : (entry.hasValidators || within entry.sie (entry.staleness now)) = true) :
      Judged dates entry h now rcc
        (.revalidate entry (within entry.sie (entry.staleness now)), false)
  | dead (hvary : entry.varyMatches h = true) (hstale : entry.isFresh now = false)
      (hrejects : acceptsStale rcc entry now = false)
      (hswr : (!rcc.noCache && within entry.swr (entry.staleness now)) = false)
      (hvalid : entry.hasValidators = false)
      (hsie : within entry.sie (entry.staleness now) = false) :
      Judged dates entry h now rcc (.miss, true)

theorem judged (dates : HttpDate) (entry : StoredResponse) (h : HeaderMap) (now : Instant)
    (rcc : RequestCacheControl) : Judged dates entry h now rcc (judge dates entry h now rcc) := by
  unfold judge
  cases hvary : entry.varyMatches h with
  | false => exact .variant hvary
  | true =>
    rw [if_neg (by decide)]
    cases hfresh : entry.isFresh now with
    | true =>
      rw [if_pos rfl]
      cases hrefused : refused rcc entry now with
      | false => exact .fresh hvary hfresh hrefused
      | true =>
        rw [if_neg (by decide)]
        cases hvalid : entry.hasValidators with
        | true => exact .forced hvary hfresh hrefused hvalid
        | false => exact .refetched hvary hfresh hrefused hvalid
    | false =>
      rw [if_neg Bool.false_ne_true]
      cases haccepts : acceptsStale rcc entry now with
      | true => exact .accepted hvary hfresh haccepts
      | false =>
        rw [if_neg Bool.false_ne_true]
        cases hswr : !rcc.noCache && within entry.swr (entry.staleness now) with
        | true =>
          rw [Bool.and_eq_true, Bool.not_eq_true'] at hswr
          exact .served hvary hfresh haccepts hswr.1 hswr.2
        | false =>
          rw [if_neg Bool.false_ne_true]
          cases hkept : entry.hasValidators || within entry.sie (entry.staleness now) with
          | true => exact .stale hvary hfresh haccepts hswr hkept
          | false =>
            rw [Bool.or_eq_false_iff] at hkept
            exact .dead hvary hfresh haccepts hswr hkept.1 hkept.2

theorem lookup_fst (dates : HttpDate) (s : CacheStore) (key : String) :
    (lookup dates s key h now rcc).1 =
      (s.peek key).elim .miss fun entry ↦ (judge dates entry h now rcc).1 := by
  rw [← CacheStore.get_fst]
  unfold lookup
  obtain ⟨found, s'⟩ := s.get key
  cases found with
  | none => rfl
  | some entry =>
    simp only [Option.elim_some]
    obtain ⟨r, _ | _⟩ := judge dates entry h now rcc <;> rfl

/-! ## What is stored -/

/-- The entry that storing a response makes. -/
structure StoredBy {T : Type} (dates : HttpDate) (p : CachePolicy T) (reqHeaders : HeaderMap)
    (resp : Response) (now : Instant) (entry : StoredResponse) : Prop where
  allowed : (parse resp.headers).forbids = false
  noCookie : resp.headers.containsKey "set-cookie" = false
  plain : resp.headers.containsKey "content-encoding" = false
  vary : ∃ names, varyNames resp.headers = some names ∧ entry.vary = snapshot names reqHeaders
  shared : (reqHeaders.containsKey "authorization" &&
    !((parse resp.headers).public ||
      (parse resp.headers).sMaxage.isSome)) = false
  cacheable : cacheableStatus resp.status = true
  lifetime_ne_zero : p.lifetimeFrom dates resp.headers ≠ 0
  fits : p.fits resp.headers = true
  status : entry.status = resp.status
  body : resp.body = some entry.body
  headers : entry.headers = StoredResponse.storedHeaders resp.headers
  storedAt : entry.storedAt = now
  lifetime : entry.freshnessLifetime = p.lifetimeFrom dates resp.headers
  initialAge : entry.initialAge = ageOf resp.headers
  swr : entry.swr = (parse resp.headers).swr
  sie : entry.sie = (parse resp.headers).sie

theorem storedBy_of_writeThrough {T : Type} {p : CachePolicy T} {reqHeaders : HeaderMap}
    {resp : Response} (h : p.writeThrough dates reqHeaders resp now = .store entry) :
    StoredBy dates p reqHeaders resp now entry := by
  unfold CachePolicy.writeThrough at h
  split at h
  case h_1 => cases h
  case h_2 decision heval =>
    unfold CachePolicy.evaluate at heval
    simp only [Option.ite_none_left_eq_some] at heval
    obtain ⟨hallowed, hcookie, hplain, heval⟩ := heval
    split at heval
    case h_1 => cases heval
    case h_2 names hnames =>
      simp only [Option.ite_none_left_eq_some, Option.some.injEq] at heval
      obtain ⟨hshared, hstatus, hlifetime, rfl⟩ := heval
      split at h
      case isTrue => cases h
      case isFalse hfits =>
        split at h
        case h_1 => cases h
        case h_2 body hbody =>
          cases h
          exact
            { allowed := Bool.eq_false_iff.mpr hallowed
              noCookie := Bool.eq_false_iff.mpr hcookie
              plain := Bool.eq_false_iff.mpr hplain
              vary := ⟨names, hnames, rfl⟩
              shared := Bool.eq_false_iff.mpr hshared
              cacheable := by simpa using hstatus
              lifetime_ne_zero := hlifetime
              fits := by simpa using hfits
              status := rfl
              body := hbody
              headers := rfl
              storedAt := rfl
              lifetime := rfl
              initialAge := rfl
              swr := rfl
              sie := rfl }

theorem StoredBy.varyMatches {T : Type} {p : CachePolicy T} {reqHeaders : HeaderMap}
    {resp : Response} (hs : StoredBy dates p reqHeaders resp now entry) :
    entry.varyMatches reqHeaders = true := by
  obtain ⟨names, -, hvary⟩ := hs.vary
  rw [StoredResponse.varyMatches, hvary, snapshot, List.all_map, List.all_eq_true]
  intro n _
  exact beq_self_eq_true _

end

end Cache

end Hypershunt
