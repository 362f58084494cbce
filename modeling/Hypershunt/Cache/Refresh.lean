import Hypershunt.Cache.Variant

/-!
# Confirming an entry and storing it again

When the origin answers a conditional request with `304`, the entry is put back with the headers of
the `304` laid over its own. The same metadata could be computed by storing the *merged* response:
the stored one with those headers replaced. The two paths are written separately, and they differ:

* of a header that the `304` has several lines of, only the first is taken;
* the lifetime is read off the `304` alone, so an entry whose `Cache-Control` or `Expires` the `304`
  does not repeat falls back to the location's `ttl`;
* the windows for serving stale responses and the selecting headers stay what they were, whatever
  the `304` says.

`refresh_refines_store_iff` says for which answers none of this matters.
-/

namespace Hypershunt

namespace Cache

open ResponseCacheControl CachePolicy HeaderMap Duration List

variable {dates : HttpDate} {T : Type} {n : HeaderName}

/-! ## The merged response -/

/-- All lines of each of these names, where the update has any, in place of those there were. -/
def replaceAll (update : HeaderMap) (names : List HeaderName) (h : HeaderMap) : HeaderMap :=
  names.foldl (fun (h : HeaderMap) n ↦
    if update.containsKey n then h.remove n ++ (update.getAll n).map fun v ↦ (n, v) else h) h

theorem getAll_append_lines (h : HeaderMap) (n : HeaderName) (vs : List HeaderValue)
    (n' : HeaderName) :
    getAll (h ++ vs.map fun v ↦ (n, v)) n' =
      h.getAll n' ++ if n = n' then vs else [] := by
  rw [getAll, filter_append, map_append, ← getAll]
  congr 1
  by_cases hn : n = n'
  · simp [hn, filter_map, Function.comp_def]
  · simp [hn]

theorem getAll_replaceAll (update : HeaderMap) (names : List HeaderName) (h : HeaderMap)
    (n : HeaderName) :
    (replaceAll update names h).getAll n =
      if n ∈ names ∧ update.containsKey n then update.getAll n else h.getAll n := by
  refine getAll_foldl_of_local (fun h ↦ ?_) (fun h m hnm ↦ ?_) names h
  · split
    · rw [getAll_append_lines, getAll_remove_self, if_pos rfl, nil_append]
    · rfl
  · split
    · rw [getAll_append_lines, if_neg (Ne.symm hnm), append_nil, getAll_remove_of_ne hnm]
    · rfl

/-- The stored response with the headers that a `304` replaces. -/
def merged (entry : StoredResponse) (update : HeaderMap) : Response :=
  ⟨entry.status, replaceAll update StoredResponse.refreshedNames entry.headers, some entry.body⟩

theorem getAll_merged (entry : StoredResponse) (update : HeaderMap)
    (hn : n ∈ StoredResponse.refreshedNames) :
    (merged entry update).headers.getAll n =
      if update.containsKey n then update.getAll n else entry.headers.getAll n := by
  rw [merged, getAll_replaceAll]
  by_cases hkey : update.containsKey n = true
  · rw [if_pos ⟨hn, hkey⟩, if_pos hkey]
  · rw [if_neg fun hcon ↦ hkey hcon.2, if_neg hkey]

/-! ## The comparison -/

/-- The metadata that a later use of the entry depends on. -/
structure SameMetadata (e e' : StoredResponse) : Prop where
  lifetime : e.freshnessLifetime = e'.freshnessLifetime
  swr : e.swr = e'.swr
  sie : e.sie = e'.sie
  vary : e.vary = e'.vary
  fields : ∀ n ∈ StoredResponse.refreshedNames, e.headers.getAll n = e'.headers.getAll n

/-- `s-maxage`, else `max-age`. -/
def declaredAge (h : HeaderMap) : Option Duration :=
  let cc := parse h
  (cc.sMaxage <|> cc.maxAge).map fromSecs

/-- A declared lifetime under the cap of the location, which is also the default. -/
def CachePolicy.capped (p : CachePolicy T) (declared : Option Duration) : Duration :=
  declared.elim p.ttl fun d ↦ min d p.ttl

/-- The `304` says once and for all what the merged response would. -/
structure Complete (dates : HttpDate) (p : CachePolicy T) (entry : StoredResponse)
    (h update : HeaderMap) : Prop where
  /-- None of the headers that it replaces is repeated in it. -/
  single : ∀ n ∈ StoredResponse.refreshedNames, (update.getAll n).length ≤ 1
  /-- Its `Cache-Control`, if it has one, declares the windows of the entry. -/
  windows : update.containsKey "cache-control" = true →
    (parse update).swr = entry.swr ∧
      (parse update).sie = entry.sie
  /-- Its `Vary`, if it has one, selects what the entry's does. -/
  vary : update.containsKey "vary" = true →
    snapshot (listedNames (update.getAll "vary")) h = entry.vary
  /-- It declares an age, or its `Expires` and `Date` come to what the age of the entry or the
  merged `Expires` and `Date` declare. -/
  lifetime : declaredAge update = none →
    p.capped (expiresMinusDate dates update) =
      p.capped ((if update.containsKey "cache-control" then none else declaredAge entry.headers) <|>
        expiresMinusDate dates (merged entry update).headers)

theorem CachePolicy.lifetimeFrom_eq_capped (p : CachePolicy T) (h : HeaderMap) :
    p.lifetimeFrom dates h = p.capped (declaredAge h <|> expiresMinusDate dates h) := by
  rw [lifetimeFrom, capped, declaredLifetime, declaredAge]
  rcases ((parse h).sMaxage <|> (parse h).maxAge).map
    fromSecs <|> expiresMinusDate dates h with _ | d <;> rfl

theorem parse_merged (entry : StoredResponse) (update : HeaderMap) :
    parse (merged entry update).headers =
      if update.containsKey "cache-control" then parse update
      else parse entry.headers := by
  have hlines := getAll_merged entry update (n := "cache-control") (by decide)
  by_cases hkey : update.containsKey "cache-control" = true
  · rw [if_pos hkey] at hlines ⊢
    exact parse_congr hlines
  · rw [if_neg hkey] at hlines ⊢
    exact parse_congr hlines

theorem declaredAge_merged (entry : StoredResponse) (update : HeaderMap) :
    declaredAge (merged entry update).headers =
      if update.containsKey "cache-control" then declaredAge update
      else declaredAge entry.headers := by
  rw [declaredAge, parse_merged]
  split <;> rfl

theorem declaredAge_of_not_containsKey {update : HeaderMap}
    (h : ¬update.containsKey "cache-control" = true) : declaredAge update = none := by
  rw [containsKey_eq_isSome_get, Option.not_isSome_iff_eq_none, get_eq_none_iff] at h
  rw [declaredAge, parse, directives, h]
  rfl

theorem lifetimeFrom_eq_iff (p : CachePolicy T) (entry : StoredResponse) (update : HeaderMap) :
    p.lifetimeFrom dates update = p.lifetimeFrom dates (merged entry update).headers ↔
      (declaredAge update = none → p.capped (expiresMinusDate dates update) =
        p.capped ((if update.containsKey "cache-control" then none
          else declaredAge entry.headers) <|>
            expiresMinusDate dates (merged entry update).headers)) := by
  rw [p.lifetimeFrom_eq_capped, p.lifetimeFrom_eq_capped, declaredAge_merged]
  by_cases hkey : update.containsKey "cache-control" = true
  · rw [if_pos hkey, if_pos hkey]
    rcases declaredAge update with _ | d
    · exact ⟨fun h _ ↦ h, fun h ↦ h rfl⟩
    · exact iff_of_true rfl fun h ↦ absurd h (Option.some_ne_none d)
  · rw [if_neg hkey, if_neg hkey, declaredAge_of_not_containsKey hkey]
    exact ⟨fun h _ ↦ h, fun h ↦ h rfl⟩

/-- The first line stands for all of them exactly where there are no others. -/
theorem toList_get_eq_getAll_iff {update : HeaderMap} :
    (update.get n).toList = update.getAll n ↔ (update.getAll n).length ≤ 1 := by
  rw [get_eq_head?]
  rcases update.getAll n with _ | ⟨v, _ | ⟨w, rest⟩⟩
  · simp
  · simp
  · simp

/-! ## Field by field

An entry that was made by storing a response, and the one that storing the merged response makes. -/

section

variable {p p' : CachePolicy T} {reqHeaders h update : HeaderMap} {resp : Response}
  {stored now : Instant} {entry again : StoredResponse}
  (hs : StoredBy dates p reqHeaders resp stored entry)
  (ha : StoredBy dates p' h (merged entry update) now again)

include hs in
/-- A request that selects an entry has the values that the entry's own `Vary` selects. -/
theorem StoredBy.snapshot_of_varyMatches (hselects : entry.varyMatches h = true) :
    entry.vary = snapshot (listedNames (entry.headers.getAll "vary")) h := by
  obtain ⟨names, hnames, hvary⟩ := hs.vary
  obtain ⟨-, rfl⟩ := varyNames_eq_some hnames
  rw [hs.headers, StoredResponse.getAll_storedHeaders (by decide)]
  rw [StoredResponse.varyMatches, hvary, snapshot, all_map, all_eq_true] at hselects
  rw [hvary, snapshot, snapshot]
  refine map_congr_left fun n hn ↦ ?_
  have hstr : h.getStr n = reqHeaders.getStr n := beq_iff_eq.mp (hselects n hn)
  rw [hstr]

include hs ha

/-- The windows of the merged response are the entry's, unless the answer has its own. -/
theorem windows_eq_iff :
    (entry.swr = again.swr ∧ entry.sie = again.sie) ↔
      (update.containsKey "cache-control" = true →
        (parse update).swr = entry.swr ∧ (parse update).sie = entry.sie) := by
  have hparse : parse entry.headers = parse resp.headers := by
    rw [hs.headers]
    exact parse_congr (StoredResponse.getAll_storedHeaders (by decide))
  rw [ha.swr, ha.sie, parse_merged]
  by_cases hkey : update.containsKey "cache-control" = true
  · rw [if_pos hkey, imp_iff_right hkey, eq_comm, eq_comm (a := entry.sie)]
  · rw [if_neg hkey, hparse, ← hs.swr, ← hs.sie]
    exact iff_of_true ⟨rfl, rfl⟩ fun hcon ↦ absurd hcon hkey

/-- The merged response's `Vary` selects what the entry's does, unless the answer has its own. -/
theorem vary_eq_iff (hselects : entry.varyMatches h = true) :
    entry.vary = again.vary ↔ (update.containsKey "vary" = true →
      snapshot (listedNames (update.getAll "vary")) h = entry.vary) := by
  obtain ⟨names, hnames, hvary⟩ := ha.vary
  obtain ⟨-, rfl⟩ := varyNames_eq_some hnames
  rw [hvary, getAll_merged entry update (by decide)]
  by_cases hkey : update.containsKey "vary" = true
  · rw [if_pos hkey, imp_iff_right hkey, eq_comm]
  · rw [if_neg hkey]
    refine iff_of_true ?_ fun hcon ↦ absurd hcon hkey
    exact hs.snapshot_of_varyMatches hselects

omit hs in
/-- The same values under a name, seen from the lines of the `304`. -/
theorem fields_eq_iff (hn : n ∈ StoredResponse.refreshedNames) :
    (p'.revalidated dates entry update now).headers.getAll n = again.headers.getAll n ↔
      (update.getAll n).length ≤ 1 := by
  have hkept : n ∉ StoredResponse.skipOnStore := by
    revert n
    decide
  rw [ha.headers, StoredResponse.getAll_storedHeaders hkept,
    getAll_revalidated p' entry update now hn, getAll_merged entry update hn]
  by_cases hkey : update.containsKey n = true
  · rw [if_pos hkey, if_pos hkey, toList_get_eq_getAll_iff]
  · have hnil : update.getAll n = [] := by
      rwa [containsKey_eq_isSome_get, Option.not_isSome_iff_eq_none, get_eq_none_iff] at hkey
    rw [if_neg hkey, if_neg hkey, hnil]
    exact iff_of_true rfl (Nat.zero_le 1)

end

/-- **Confirming and storing again agree on complete answers.** Where the merged response would be
stored, the entry that is put back is the one that storing would make, as far as it is reused,
exactly when the `304` is complete. -/
theorem refresh_refines_store_iff (dates : HttpDate) (p p' : CachePolicy T)
    (reqHeaders h update : HeaderMap) (resp : Response) (stored now : Instant)
    (entry again : StoredResponse)
    (hstore : p.writeThrough dates reqHeaders resp stored = .store entry)
    (hselects : entry.varyMatches h = true)
    (hagain : p'.writeThrough dates h (merged entry update) now = .store again) :
    SameMetadata (p'.revalidated dates entry update now) again ↔
      Complete dates p' entry h update := by
  have hs := storedBy_of_writeThrough hstore
  have ha := storedBy_of_writeThrough hagain
  have hlifetime : (p'.revalidated dates entry update now).freshnessLifetime =
      again.freshnessLifetime ↔ p'.lifetimeFrom dates update =
        p'.lifetimeFrom dates (merged entry update).headers := by
    rw [ha.lifetime]
    rfl
  constructor
  · intro hsame
    exact
      { single := fun n hn ↦ (fields_eq_iff ha hn).mp (hsame.fields n hn)
        windows := (windows_eq_iff hs ha).mp ⟨hsame.swr, hsame.sie⟩
        vary := (vary_eq_iff hs ha hselects).mp hsame.vary
        lifetime := (lifetimeFrom_eq_iff p' entry update).mp (hlifetime.mp hsame.lifetime) }
  · intro hcomplete
    have hopen := (windows_eq_iff hs ha).mpr hcomplete.windows
    exact
      { lifetime := hlifetime.mpr ((lifetimeFrom_eq_iff p' entry update).mpr hcomplete.lifetime)
        swr := hopen.1
        sie := hopen.2
        vary := (vary_eq_iff hs ha hselects).mpr hcomplete.vary
        fields := fun n hn ↦ (fields_eq_iff ha hn).mpr (hcomplete.single n hn) }

private def fiveSeconds : Response :=
  ⟨200, [("cache-control", "max-age=5"), ("etag", "v1"), ("content-length", "2")], some [111, 107]⟩

/-- An entry with the body and the tag of `fiveSeconds`. -/
private def tagged (cacheControl : String) (lifetime : Duration) (now : Instant) :
    StoredResponse :=
  { StoredResponse.bare [("etag", "v1"), ("content-length", "2"), ("cache-control", cacheControl)]
      lifetime now with etag := some "v1" }

private def taggedFive : StoredResponse :=
  { tagged "max-age=5" (fromSecs 5) 0 with headers := fiveSeconds.headers }

/-- An answer that says how long the entry lives on. -/
theorem refresh_refines_store_of_max_age :
    minute.writeThrough .blank [] fiveSeconds 0 = .store taggedFive ∧
      minute.writeThrough .blank [] (merged taggedFive [("cache-control", "max-age=9")])
          10 = .store (tagged "max-age=9" (fromSecs 9) 10) ∧
      SameMetadata
        (minute.revalidated .blank taggedFive [("cache-control", "max-age=9")] 10)
        (tagged "max-age=9" (fromSecs 9) 10) := by
  have hstore : minute.writeThrough .blank [] fiveSeconds 0 = .store taggedFive := by
    decide +kernel
  have hagain : minute.writeThrough .blank []
      (merged taggedFive [("cache-control", "max-age=9")]) 10 =
        .store (tagged "max-age=9" (fromSecs 9) 10) := by decide +kernel
  refine ⟨hstore, hagain, (refresh_refines_store_iff .blank .minute .minute [] [] _ _ 0 10 _
    _ hstore (by decide +kernel) hagain).mpr ?_⟩
  exact
    { single := by decide +kernel
      windows := by decide +kernel
      vary := by decide +kernel
      lifetime := by decide +kernel }

/-- An answer without headers: the origin's five seconds become the location's minute. -/
theorem refresh_forgets_lifetime :
    minute.writeThrough .blank [] fiveSeconds 0 = .store taggedFive ∧
      minute.writeThrough .blank [] (merged taggedFive []) 10 =
        .store { taggedFive with storedAt := 10 } ∧
      (minute.revalidated .blank taggedFive [] 10).freshnessLifetime =
        fromSecs 60 ∧
      ¬SameMetadata (minute.revalidated .blank taggedFive [] 10)
        { taggedFive with storedAt := 10 } := by
  refine ⟨by decide +kernel, by decide +kernel, by decide +kernel, fun hsame ↦ ?_⟩
  have hlifetime := hsame.lifetime
  revert hlifetime
  decide +kernel

end Cache

end Hypershunt
