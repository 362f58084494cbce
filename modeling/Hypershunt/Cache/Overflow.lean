import Hypershunt.Cache.Policy

/-!
# Ages that do not fit

The operations of the cache with the one addition in them that can panic: `current_age` adds the
`Age` a response arrived with to the time the entry has been stored, and a sum of `2 ^ 64` seconds
or more is no `Duration`. All other lengths of time are compared, or subtracted without going below
zero.

`none` stands for a panic. Where there is none, an operation does what the model of `Cache.Policy`
says (`judge_eq_of_eq_some`), so nothing that was proved about that model is lost.

When a response is stored or an entry refreshed, no time has passed and the sum is the `Age` itself,
which fits. Later it need not: a response with the largest `Age` is stored like any other, and the
first lookup a second later takes the request down.
-/

namespace Hypershunt

open Option

namespace Cache

namespace Checked

open Duration CachePolicy CacheStore

/-! ## The operations -/

def currentAge (e : StoredResponse) (now : Instant) : Option Duration :=
  checkedAdd e.initialAge (now.saturatingDurationSince e.storedAt)

/-- The response carries the current age. -/
def toResponse (e : StoredResponse) (now : Instant) : Option Response :=
  (currentAge e now).map fun age ↦ ⟨e.status, StoredResponse.setAge e.headers age, some e.body⟩

def notModifiedResponse (e : StoredResponse) (now : Instant) : Option Response :=
  (currentAge e now).map fun _ ↦ e.notModifiedResponse now

/-- `stale_response`, which also answers while an entry is refreshed in the background. -/
def staleResponse (e : StoredResponse) (now : Instant) : Option Response := toResponse e now

/-- The entry is older than the client accepts. Its age is computed only if the client says. -/
def tooOld (rcc : RequestCacheControl) (e : StoredResponse) (now : Instant) : Option Bool :=
  rcc.maxAge.elim (some false) fun m ↦ (currentAge e now).map fun age ↦ decide (m < age.asSecs)

def minFreshUnmet (rcc : RequestCacheControl) (e : StoredResponse) (now : Instant) : Bool :=
  rcc.minFresh.any fun m ↦ decide ((e.remainingFreshness now).asSecs < m)

section

variable (dates : HttpDate)

def freshResponse (e : StoredResponse) (h : HeaderMap) (now : Instant) : Option Response :=
  if e.clientNotModified dates h then notModifiedResponse e now else toResponse e now

/-- What a lookup makes of an entry. The age is compared before the entry is known to be fresh. -/
def judge (entry : StoredResponse) (h : HeaderMap) (now : Instant) (rcc : RequestCacheControl) :
    Option (Lookup × Bool) :=
  if !entry.varyMatches h then some (.miss, false)
  else
    (tooOld rcc entry now).bind fun old ↦
      if entry.isFresh now && !rcc.noCache && !old && !minFreshUnmet rcc entry now then
        (freshResponse dates entry h now).map fun resp ↦ (.hit resp, false)
      else if entry.isFresh now then
        some (if entry.hasValidators then (.revalidate entry false, false) else (.miss, false))
      else if acceptsStale rcc entry now then
        (toResponse entry now).map fun resp ↦ (.hit resp, false)
      else if !rcc.noCache && within entry.swr (entry.staleness now) then
        some (.staleWhileRevalidate entry, false)
      else if entry.hasValidators || within entry.sie (entry.staleness now) then
        some (.revalidate entry (within entry.sie (entry.staleness now)), false)
      else some (.miss, true)

def lookup (s : CacheStore) (key : String) (h : HeaderMap) (now : Instant)
    (rcc : RequestCacheControl) : Option (Lookup × CacheStore) :=
  match s.get key with
  | (none, s) => some (.miss, s)
  | (some entry, s) =>
    (judge dates entry h now rcc).map fun found ↦ (found.1, if found.2 then s.remove key else s)

variable {T : Type} (p : CachePolicy T)

def maybeStore (s : CacheStore) (key : String) (reqHeaders : HeaderMap) (resp : Response)
    (now : Instant) : Option (Response × CacheStore) :=
  match p.writeThrough dates reqHeaders resp now with
  | .bypass => some (resp, s)
  | .failed => some (bodyReadFailed, s)
  | .store entry => (toResponse entry now).map fun resp ↦ (resp, s.insert key entry)

def serveRevalidated (s : CacheStore) (key : String) (entry : StoredResponse) (resp304 : Response)
    (origReqHeaders : HeaderMap) (now : Instant) : Option (Response × CacheStore) :=
  let refreshed := p.revalidated dates entry resp304.headers now
  (freshResponse dates refreshed origReqHeaders now).map fun resp ↦ (resp, s.insert key refreshed)

end

/-! ## Where they agree with the unbounded model -/

variable {dates : HttpDate} {entry : StoredResponse} {h : HeaderMap} {now : Instant}
  {rcc : RequestCacheControl}

/-- The age of the entry at this time is a length of time. -/
def InRange (e : StoredResponse) (now : Instant) : Prop := e.currentAge now < limit

theorem currentAge_eq_some_iff {age : Duration} :
    currentAge entry now = some age ↔ InRange entry now ∧ entry.currentAge now = age := by
  rw [currentAge, checkedAdd, ite_none_right_eq_some, some.injEq]
  rfl

section

variable (hr : InRange entry now)

include hr

theorem currentAge_of_inRange : currentAge entry now = some (entry.currentAge now) :=
  currentAge_eq_some_iff.mpr ⟨hr, rfl⟩

theorem toResponse_of_inRange : toResponse entry now = some (entry.toResponse now) := by
  rw [toResponse, currentAge_of_inRange hr]
  rfl

theorem notModifiedResponse_of_inRange :
    notModifiedResponse entry now = some (entry.notModifiedResponse now) := by
  rw [notModifiedResponse, currentAge_of_inRange hr]
  rfl

theorem freshResponse_of_inRange :
    freshResponse dates entry h now = some (Cache.freshResponse dates entry h now) := by
  unfold freshResponse Cache.freshResponse
  split_ifs
  · exact notModifiedResponse_of_inRange hr
  · exact toResponse_of_inRange hr

end

theorem inRange_of_toResponse {resp : Response} (hresp : toResponse entry now = some resp) :
    InRange entry now := by
  obtain ⟨age, hage, -⟩ := map_eq_some_iff.mp hresp
  exact (currentAge_eq_some_iff.mp hage).1

theorem inRange_of_freshResponse {resp : Response}
    (hresp : freshResponse dates entry h now = some resp) : InRange entry now := by
  unfold freshResponse at hresp
  split_ifs at hresp
  · obtain ⟨age, hage, -⟩ := map_eq_some_iff.mp hresp
    exact (currentAge_eq_some_iff.mp hage).1
  · exact inRange_of_toResponse hresp

theorem tooOld_of_inRange (hr : InRange entry now) :
    tooOld rcc entry now =
      some (rcc.maxAge.any fun m ↦ decide (m < (entry.currentAge now).asSecs)) := by
  rw [tooOld, currentAge_of_inRange hr]
  rcases rcc.maxAge with _ | m <;> rfl

theorem eq_of_tooOld {old : Bool} (hold : tooOld rcc entry now = some old) :
    old = rcc.maxAge.any fun m ↦ decide (m < (entry.currentAge now).asSecs) := by
  unfold tooOld at hold
  rcases hmax : rcc.maxAge with _ | m
  all_goals rw [hmax] at hold
  · exact (some.inj hold).symm
  · obtain ⟨age, hage, rfl⟩ := map_eq_some_iff.mp hold
    rw [(currentAge_eq_some_iff.mp hage).2]
    rfl

theorem not_refused :
    (!rcc.noCache && !(rcc.maxAge.any fun m ↦ decide (m < (entry.currentAge now).asSecs)) &&
      !minFreshUnmet rcc entry now) = !refused rcc entry now := by
  rw [refused, minFreshUnmet, Bool.not_or, Bool.not_or]

/-- **Where a lookup does not panic it finds what it is said to find.** -/
theorem judge_eq_of_eq_some {found : Lookup × Bool}
    (hfound : judge dates entry h now rcc = some found) :
    Cache.judge dates entry h now rcc = found := by
  unfold judge at hfound
  unfold Cache.judge
  by_cases hvary : (!entry.varyMatches h) = true
  · rw [if_pos hvary] at hfound ⊢
    exact some.inj hfound
  rw [if_neg hvary] at hfound ⊢
  obtain ⟨old, hold, hfound⟩ := bind_eq_some_iff.mp hfound
  obtain rfl := eq_of_tooOld hold
  rw [Bool.and_assoc, Bool.and_assoc, ← Bool.and_assoc (!_), not_refused] at hfound
  by_cases hfresh : entry.isFresh now = true
  · rw [hfresh, Bool.true_and, if_pos rfl] at hfound
    rw [if_pos hfresh]
    by_cases hrefused : (!refused rcc entry now) = true
    · rw [if_pos hrefused] at hfound ⊢
      obtain ⟨resp, hresp, rfl⟩ := map_eq_some_iff.mp hfound
      rw [freshResponse_of_inRange (inRange_of_freshResponse hresp)] at hresp
      rw [some.inj hresp]
    · rw [if_neg hrefused] at hfound ⊢
      exact some.inj hfound
  · rw [Bool.eq_false_of_not_eq_true hfresh, Bool.false_and, if_neg Bool.false_ne_true,
      if_neg Bool.false_ne_true] at hfound
    rw [if_neg hfresh]
    by_cases haccepts : acceptsStale rcc entry now = true
    · rw [if_pos haccepts] at hfound ⊢
      obtain ⟨resp, hresp, rfl⟩ := map_eq_some_iff.mp hfound
      rw [toResponse_of_inRange (inRange_of_toResponse hresp)] at hresp
      rw [some.inj hresp]
    · rw [if_neg haccepts, ← apply_ite some, ← apply_ite some, some.injEq] at hfound
      rwa [if_neg haccepts]

theorem isSome_judge (hr : InRange entry now) : (judge dates entry h now rcc).isSome = true := by
  rw [judge, tooOld_of_inRange hr, bind_some, freshResponse_of_inRange hr, toResponse_of_inRange hr]
  split_ifs <;> rfl

/-! ## Which entries there are -/

variable {T : Type} {p : CachePolicy T} {headers : HeaderMap} {since : Instant} {s : CacheStore}
  {key : String}

theorem ageOf_lt (h : HeaderMap) : ageOf h < limit := by
  unfold ageOf
  rcases hage : (h.getStr "age").bind Text.parseU64 with _ | n
  · exact Nat.mul_pos (by decide) (by decide)
  · obtain ⟨text, -, hparse⟩ := bind_eq_some_iff.mp hage
    exact Nat.mul_lt_mul_of_pos_right (Text.parseU64_lt hparse) (by decide)

/-- The entries that come into being, with the headers that say how old they were at that moment. -/
inductive Made (dates : HttpDate) (p : CachePolicy T) : StoredResponse → HeaderMap → Instant → Prop
  | stored {reqHeaders : HeaderMap} {resp : Response} {now : Instant} {entry : StoredResponse}
      (h : p.writeThrough dates reqHeaders resp now = .store entry) :
      Made dates p entry resp.headers now
  | refreshed {entry : StoredResponse} {headers : HeaderMap} {since : Instant} (update : HeaderMap)
      (now : Instant) (h : Made dates p entry headers since) :
      Made dates p (p.revalidated dates entry update now) update now

namespace Made

variable (hmade : Made dates p entry headers since)

include hmade

theorem currentAge (now : Instant) :
    entry.currentAge now = ageOf headers + (now - since) := by
  rcases hmade with ⟨hstore⟩ | ⟨_, _, _⟩
  · have hs := storedBy_of_writeThrough hstore
    rw [StoredResponse.currentAge, hs.initialAge, hs.storedAt]
    rfl
  · rfl

theorem varyMatches : ∃ h, entry.varyMatches h = true := by
  induction hmade with
  | stored h => exact ⟨_, (storedBy_of_writeThrough h).varyMatches⟩
  | refreshed update now h ih => exact ih

theorem inRange_self : InRange entry since := by
  rw [InRange, hmade.currentAge, Nat.sub_self]
  exact ageOf_lt headers

end Made

/-- Whatever is done with the entry at this time, by whatever request, does not panic. -/
structure UsedSafely (dates : HttpDate) (p : CachePolicy T) (entry : StoredResponse)
    (now : Instant) : Prop where
  lookup : ∀ s key h rcc, peek s key = some entry →
    (lookup dates s key h now rcc).isSome = true
  stale : (staleResponse entry now).isSome = true
  refresh : ∀ s key resp304 h, (serveRevalidated dates p s key entry resp304 h now).isSome = true

theorem isSome_maybeStore (dates : HttpDate) (p : CachePolicy T) (s : CacheStore) (key : String)
    (reqHeaders : HeaderMap) (resp : Response) (now : Instant) :
    (maybeStore dates p s key reqHeaders resp now).isSome = true := by
  unfold maybeStore
  split
  · rfl
  · rfl
  · rename_i entry hstore
    rw [toResponse_of_inRange (Made.stored hstore).inRange_self]
    rfl

theorem isSome_lookup_eq (hpeek : s.peek key = some entry) :
    (lookup dates s key h now rcc).isSome = (judge dates entry h now rcc).isSome := by
  rw [← get_fst] at hpeek
  unfold lookup
  rcases hget : s.get key with ⟨found, s'⟩
  rw [hget] at hpeek
  obtain rfl : found = some entry := hpeek
  exact isSome_map

theorem isSome_lookup (hr : InRange entry now) (hpeek : s.peek key = some entry) :
    (lookup dates s key h now rcc).isSome = true := by
  rw [isSome_lookup_eq hpeek]
  exact isSome_judge hr

/-- A client that says how old an entry may be makes the lookup compute its age. -/
theorem lookup_eq_none (hr : ¬ InRange entry now) {m : ℕ} (hpeek : s.peek key = some entry)
    (hvary : entry.varyMatches h = true) (hmax : rcc.maxAge = some m) :
    lookup dates s key h now rcc = none := by
  have hage : currentAge entry now = none := if_neg hr
  have hjudge : judge dates entry h now rcc = none := by
    simp only [judge, tooOld, hvary, hmax, hage]
    rfl
  rw [← not_isSome_iff_eq_none, isSome_lookup_eq hpeek, hjudge]
  exact Bool.false_ne_true

theorem usedSafely_of_inRange (hmade : Made dates p entry headers since) (hr : InRange entry now) :
    UsedSafely dates p entry now where
  lookup _ _ _ _ hpeek := isSome_lookup hr hpeek
  stale := by
    rw [staleResponse, toResponse_of_inRange hr]
    rfl
  refresh s key resp304 h := by
    have hrefreshed := (Made.refreshed resp304.headers now hmade).inRange_self
    simp only [serveRevalidated, freshResponse_of_inRange hrefreshed]
    rfl

theorem inRange_of_usedSafely (hmade : Made dates p entry headers since)
    (hsafe : UsedSafely dates p entry now) : InRange entry now := by
  by_contra hr
  obtain ⟨h, hvary⟩ := hmade.varyMatches
  have hpeek : ((new entry.size).insert "" entry).peek "" = some entry :=
    peek_insert_self "" le_rfl
  have hsome := hsafe.lookup _ "" h { maxAge := some 0 } hpeek
  rw [lookup_eq_none hr hpeek hvary rfl] at hsome
  exact nomatch hsome

/-- **When the cache does not panic**: always while it stores a response, and later exactly as long
as the last `Age` and the time since then are less than `2 ^ 64` seconds together. -/
theorem usedSafely_iff (hmade : Made dates p entry headers since) (now : Instant) :
    (∀ s key reqHeaders resp t, (maybeStore dates p s key reqHeaders resp t).isSome = true) ∧
      (UsedSafely dates p entry now ↔ ageOf headers + (now - since) < limit) := by
  refine ⟨isSome_maybeStore dates p, ?_⟩
  rw [← hmade.currentAge]
  exact ⟨inRange_of_usedSafely hmade, usedSafely_of_inRange hmade⟩

/-- A response that may be kept for a minute, of the age given. -/
private def keptWithAge (age : String) : Response :=
  ⟨200, [("cache-control", "max-age=60"), ("content-length", "2"), ("age", age)],
    some [111, 107]⟩

theorem usedSafely_fifty :
    ∃ entry, Made .blank minute entry (keptWithAge "50").headers 0 ∧
      UsedSafely .blank minute entry (fromSecs 30) :=
  have hmade : Made .blank minute _ (keptWithAge "50").headers 0 :=
    .stored (rfl : minute.writeThrough .blank [] (keptWithAge "50") 0 = .store _)
  ⟨_, hmade, (usedSafely_iff hmade (fromSecs 30)).2.mpr (by decide +kernel)⟩

theorem judge_eq_fifty : ∃ entry found, Made .blank minute entry (keptWithAge "50").headers 0 ∧
    judge .blank entry [] (fromSecs 30) {} = some found ∧
      Cache.judge .blank entry [] (fromSecs 30) {} = found := by
  have hmade : Made .blank minute _ (keptWithAge "50").headers 0 :=
    .stored (rfl : minute.writeThrough .blank [] (keptWithAge "50") 0 = .store _)
  exact ⟨_, _, hmade, rfl, judge_eq_of_eq_some rfl⟩

/-- The response with the largest `Age` is stored and sent on, and a lookup a second later
panics. -/
theorem largest_age_panics :
    ∃ resp s, maybeStore .blank minute (new 1024) "k" []
        (keptWithAge "18446744073709551615") 0 = some (resp, s) ∧
      lookup .blank s "k" [] (fromSecs 1) {} = none := by
  refine ⟨_, _, rfl, ?_⟩
  decide +kernel

end Checked

end Cache

end Hypershunt
