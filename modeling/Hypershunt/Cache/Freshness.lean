import Hypershunt.Cache.Policy

/-!
# How old a hit can be

A cached response is meant never to be served staler than the origin allows: the age it has when it
is served, the one the origin reported included, should stay below the lifetime the origin declared.
An entry counts as fresh while it has *been stored* for less than its lifetime, though, and the age
it arrived with does not enter. So the bound holds exactly for the responses that arrive without an
age, and for those whose location caps the lifetime so far down that the age is made up for.
-/

namespace Hypershunt

namespace Cache

open Duration CacheStore CachePolicy

variable {dates : HttpDate} {T : Type} {p : CachePolicy T} {reqHeaders : HeaderMap}
  {resp : Response} {stored : Instant} {entry : StoredResponse} {now : Instant}

theorem isFresh_of_hit {s : CacheStore} {key : String} {h : HeaderMap} {r : Response}
    (hpeek : s.peek key = some entry) (hhit : (lookup dates s key h now {}).1 = .hit r) :
    entry.isFresh now = true := by
  rw [lookup_fst, hpeek, Option.elim_some] at hhit
  have hjudged := judged dates entry h now {}
  generalize judge dates entry h now {} = found at hhit hjudged
  cases hjudged with
  | fresh _ hfresh => exact hfresh
  | accepted _ _ haccepts => cases haccepts
  | variant | forced | refetched | served | stale | dead => cases hhit

theorem hit_of_isFresh (dates : HttpDate) {s : CacheStore} {key : String} {h : HeaderMap}
    (hpeek : s.peek key = some entry) (hvary : entry.varyMatches h = true)
    (hfresh : entry.isFresh now = true) : ∃ r, (lookup dates s key h now {}).1 = .hit r := by
  rw [lookup_fst, hpeek, Option.elim_some, judge, hvary, hfresh]
  exact ⟨_, rfl⟩

theorem StoredBy.isFresh_iff (hs : StoredBy dates p reqHeaders resp stored entry) :
    entry.isFresh now = true ↔ now - stored < p.lifetimeFrom dates resp.headers := by
  rw [StoredResponse.isFresh, decide_eq_true_iff, hs.storedAt, hs.lifetime]
  rfl

theorem CachePolicy.lifetimeFrom_of_declared {declared : Duration}
    (h : declaredLifetime dates resp.headers = some declared) :
    p.lifetimeFrom dates resp.headers = min declared p.ttl := by
  rw [lifetimeFrom, h]

/-- The ages a hit can have are those below the lifetime, shifted by the age it arrived with. -/
theorem shifted_lt_iff {age ttl declared : ℕ} (hpos : min declared ttl ≠ 0) :
    (∀ d, d < min declared ttl → age + d < declared) ↔ age = 0 ∨ age + ttl ≤ declared := by
  constructor
  · intro hall
    by_contra hcon
    rw [not_or, not_le] at hcon
    have hlt : declared - age < min declared ttl := by omega
    have := hall (declared - age) hlt
    omega
  · rintro hcond d hd
    omega

/-- Every hit is younger than the lifetime the response declared exactly when the response arrived
without an age, or with one that together with the location's `ttl` does not exceed it. -/
theorem hit_younger_than_declared_iff (dates : HttpDate) (p : CachePolicy T)
    (reqHeaders : HeaderMap) (resp : Response) (stored : Instant) (entry : StoredResponse)
    (declared : Duration) (hstore : p.writeThrough dates reqHeaders resp stored = .store entry)
    (hdeclared : declaredLifetime dates resp.headers = some declared) :
    (∀ (s : CacheStore) (key : String) (h : HeaderMap) (now : Instant) (r : Response),
        s.peek key = some entry → stored ≤ now → (lookup dates s key h now {}).1 = .hit r →
        ageOf resp.headers + (now - stored) < declared) ↔
      ageOf resp.headers = 0 ∨ ageOf resp.headers + p.ttl ≤ declared := by
  have hs := storedBy_of_writeThrough hstore
  have hlifetime := p.lifetimeFrom_of_declared hdeclared
  have hpos : min declared p.ttl ≠ 0 := hlifetime ▸ hs.lifetime_ne_zero
  rw [← shifted_lt_iff hpos]
  constructor
  · intro hyounger d hd
    -- the store that holds the entry alone, asked `d` later by the same request
    have hpeek : ((new entry.size).insert "" entry).peek "" = some entry :=
      peek_insert_self "" le_rfl
    have hfresh : entry.isFresh (stored + d) = true := by
      rw [hs.isFresh_iff, hlifetime, Nat.add_sub_cancel_left]
      exact hd
    obtain ⟨r, hhit⟩ := hit_of_isFresh dates hpeek hs.varyMatches hfresh
    have := hyounger _ _ _ _ r hpeek (Nat.le_add_right stored d) hhit
    rwa [Nat.add_sub_cancel_left] at this
  · intro hall s key h now r hpeek _ hhit
    have hfresh := isFresh_of_hit hpeek hhit
    rw [hs.isFresh_iff, hlifetime] at hfresh
    exact hall _ hfresh

/-- A response that may be kept for a minute, with the headers given. -/
private def keptForMinute (headers : HeaderMap) : Response :=
  ⟨200, [("cache-control", "max-age=60"), ("content-length", "2")] ++ headers, some [111, 107]⟩

theorem hit_younger_without_age :
    ∃ entry, minute.writeThrough .blank [] (keptForMinute []) 0 = .store entry ∧
      declaredLifetime .blank (keptForMinute []).headers = some (fromSecs 60) ∧
      ∀ (s : CacheStore) (key : String) (h : HeaderMap) (now : Instant) (r : Response),
        s.peek key = some entry → 0 ≤ now → (lookup .blank s key h now {}).1 = .hit r →
        ageOf (keptForMinute []).headers + (now - 0) < fromSecs 60 :=
  ⟨_, rfl, rfl,
    (hit_younger_than_declared_iff .blank .minute [] (keptForMinute []) 0 _ _ rfl rfl).mpr
      (Or.inl rfl)⟩

/-- The entry made of a response that was fifty seconds old when it arrived. -/
private def fiftyOld : StoredResponse :=
  { StoredResponse.bare [("cache-control", "max-age=60"), ("content-length", "2")] (fromSecs 60) 0
    with initialAge := fromSecs 50 }

/-- Half a minute later it is a hit, twenty seconds past its lifetime. -/
theorem hit_older_than_declared :
    minute.writeThrough .blank [] (keptForMinute [("age", "50")]) 0 = .store fiftyOld ∧
      declaredLifetime .blank (keptForMinute [("age", "50")]).headers =
        some (fromSecs 60) ∧
      ∃ s r, s.peek "k" = some fiftyOld ∧
        (lookup .blank s "k" [] (fromSecs 30) {}).1 = .hit r ∧
        ¬ageOf (keptForMinute [("age", "50")]).headers + (fromSecs 30 - 0) <
          fromSecs 60 := by
  have hpeek : ((new 1024).insert "k" fiftyOld).peek "k" = some fiftyOld :=
    peek_insert_self "k" (by decide)
  have hfresh : fiftyOld.isFresh (fromSecs 30) = true := by decide
  obtain ⟨r, hhit⟩ := hit_of_isFresh .blank (h := []) hpeek rfl hfresh
  exact ⟨by decide +kernel, by decide +kernel, _, r, hpeek, hhit, by decide +kernel⟩

end Cache

end Hypershunt
