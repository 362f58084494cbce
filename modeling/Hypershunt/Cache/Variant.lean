import Hypershunt.Cache.Policy

/-!
# Which requests a stored response answers

A response that lists request headers in `Vary` is meant for requests whose values for these headers
are those of the request it was made for. The cache keeps, for each name listed when the response
was stored, the *first* value of the header, if that is text, and compares these. What it does not
see is every further line of a header, and the difference between a value that is not text and
none at all. It does not see a change of `Vary` either: a `304` may list new names, or a star, and
the names compared stay those of the response.

`varySound_iff` says which of two requests are told apart correctly all the same.
-/

namespace Hypershunt

open List Option

namespace Cache

open HeaderMap StoredResponse CachePolicy HeaderValue

variable {dates : HttpDate} {T : Type}

/-! ## Vary -/

/-- The members of some `Vary` lines. -/
def varyMembers (lines : List HeaderValue) : List String := lines.flatMap members

/-- The header names that some `Vary` lines list. -/
def listedNames (lines : List HeaderValue) : List HeaderName :=
  (varyMembers lines).filterMap memberName

/-- One of the lines has a star. -/
def HasStar (lines : List HeaderValue) : Prop := "*" ∈ varyMembers lines

instance (lines : List HeaderValue) : Decidable (HasStar lines) :=
  inferInstanceAs (Decidable ("*" ∈ varyMembers lines))

theorem eq_of_mapM_toStr {lines texts : List String}
    (h : lines.mapM toStr = some texts) : texts = lines := by
  induction lines generalizing texts with
  | nil =>
    rw [mapM_nil] at h
    exact (Option.some.inj h).symm
  | cons v lines ih =>
    rw [mapM_cons, bind_eq_bind, bind_eq_some_iff] at h
    obtain ⟨s, hs, h⟩ := h
    rw [bind_eq_bind, bind_eq_some_iff] at h
    obtain ⟨rest, hrest, h⟩ := h
    rw [← (toStr_eq_some_iff.mp hs).2, ih hrest] at h
    exact (Option.some.inj h).symm

variable {h : HeaderMap} {entry : StoredResponse}

/-- What is stored has a `Vary` without a star, and the names it lists are compared. -/
theorem varyNames_eq_some {names : List HeaderName} (hnames : varyNames h = some names) :
    ¬HasStar (h.getAll "vary") ∧ names = listedNames (h.getAll "vary") := by
  unfold varyNames at hnames
  rw [bind_eq_bind, bind_eq_some_iff] at hnames
  obtain ⟨texts, htexts, hnames⟩ := hnames
  rw [eq_of_mapM_toStr htexts, ite_none_left_eq_some, Option.some.injEq] at hnames
  exact ⟨hnames.1, hnames.2.symm⟩

/-! ## Entries over time -/

/-- A `304` for an entry: the policy of the location it came through, its headers, and when. -/
structure Confirmation (T : Type) where
  policy : CachePolicy T
  headers : HeaderMap
  now : Instant

/-- The entry after a sequence of confirmations. -/
def confirmed (dates : HttpDate) (entry : StoredResponse) (updates : List (Confirmation T)) :
    StoredResponse :=
  updates.foldl (fun e u ↦ u.policy.revalidated dates e u.headers u.now) entry

/-- The `Vary` in force: the first line of the last `304` that has one, else the response's own. -/
def varyInForce (resp : Response) (updates : List (Confirmation T)) : List HeaderValue :=
  updates.foldl (fun lines u ↦ ((u.headers.get "vary").map fun v ↦ [v]).getD lines)
    (resp.headers.getAll "vary")

/-- Of the headers that a `304` can replace, an entry has the first line where there is one. -/
theorem getAll_revalidated (p : CachePolicy T) (entry : StoredResponse) (update : HeaderMap)
    (now : Instant) {n : HeaderName} (hn : n ∈ refreshedNames) :
    (p.revalidated dates entry update now).headers.getAll n =
      if update.containsKey n then (update.get n).toList else entry.headers.getAll n := by
  rw [revalidated, refreshed, getAll_overlay, containsKey_eq_isSome_get]
  by_cases hkey : (update.get n).isSome = true
  · rw [if_pos ⟨hn, hkey⟩, if_pos hkey]
  · rw [if_neg fun hcon ↦ hkey hcon.2, if_neg hkey]

theorem getAll_vary_revalidated (p : CachePolicy T) (e : StoredResponse) (update : HeaderMap)
    (now : Instant) :
    (p.revalidated dates e update now).headers.getAll "vary" =
      ((update.get "vary").map fun v ↦ [v]).getD (e.headers.getAll "vary") := by
  rw [getAll_revalidated p e update now (by decide), containsKey_eq_isSome_get]
  rcases update.get "vary" with _ | v <;> rfl

/-- The names compared stay those of the response; the `Vary` that is replayed changes. -/
theorem confirmed_vary (dates : HttpDate) (e : StoredResponse) (updates : List (Confirmation T)) :
    (confirmed dates e updates).vary = e.vary ∧
      (confirmed dates e updates).headers.getAll "vary" =
        updates.foldl (fun lines u ↦ ((u.headers.get "vary").map fun v ↦ [v]).getD lines)
          (e.headers.getAll "vary") := by
  induction updates generalizing e with
  | nil => exact ⟨rfl, rfl⟩
  | cons u updates ih =>
    obtain ⟨hvary, hlines⟩ := ih (u.policy.revalidated dates e u.headers u.now)
    rw [getAll_vary_revalidated] at hlines
    exact ⟨hvary, hlines⟩

/-! ## Served from the store -/

/-- The lookup gives something to serve without asking the handler. -/
def Lookup.serves : Lookup → Bool
  | .hit _ => true
  | .staleWhileRevalidate _ => true
  | .revalidate _ _ => false
  | .miss => false

theorem varyMatches_of_serves {now : Instant} {rcc : RequestCacheControl}
    (hserves : (judge dates entry h now rcc).1.serves = true) : entry.varyMatches h = true := by
  have hjudged := judged dates entry h now rcc
  generalize judge dates entry h now rcc = found at hserves hjudged
  rcases hjudged with _ | ⟨hvary, _, _⟩ | _ | _ | ⟨hvary, _, _⟩ | ⟨hvary, _, _, _, _⟩ | _ | _
  · cases hserves
  · exact hvary
  · cases hserves
  · cases hserves
  · exact hvary
  · exact hvary
  · cases hserves
  · cases hserves

/-- A client that accepts anything stale is served by whatever entry its request selects. -/
theorem serves_of_varyMatches (dates : HttpDate) (now : Instant)
    (hvary : entry.varyMatches h = true) :
    (judge dates entry h now { maxStale := some none }).1.serves = true := by
  rw [judge, hvary, if_neg (by decide)]
  by_cases hfresh : entry.isFresh now = true
  · rw [if_pos hfresh]
    rfl
  · rw [if_neg hfresh]
    rfl

/-- Whenever the entry is served to a request with headers `h` without asking the handler, `h` has
all the lines of the request it was stored for, under the names its `Vary` lists. -/
def VarySound (dates : HttpDate) (entry : StoredResponse) (reqHeaders h : HeaderMap) : Prop :=
  ∀ (s : CacheStore) (key : String) (now : Instant) (rcc : RequestCacheControl),
    s.peek key = some entry → (lookup dates s key h now rcc).1.serves = true →
    ¬HasStar (entry.headers.getAll "vary") ∧
      ∀ n ∈ listedNames (entry.headers.getAll "vary"), h.getAll n = reqHeaders.getAll n

theorem varySound_iff_of_varyMatches {reqHeaders : HeaderMap} :
    VarySound dates entry reqHeaders h ↔ (entry.varyMatches h = true →
      ¬HasStar (entry.headers.getAll "vary") ∧
        ∀ n ∈ listedNames (entry.headers.getAll "vary"), h.getAll n = reqHeaders.getAll n) := by
  constructor
  · intro hsound hvary
    have hpeek : ((CacheStore.new entry.size).insert "" entry).peek "" = some entry :=
      CacheStore.peek_insert_self "" le_rfl
    refine hsound _ "" 0 { maxStale := some none } hpeek ?_
    rw [lookup_fst, hpeek, elim_some]
    exact serves_of_varyMatches dates 0 hvary
  · intro hsame s key now rcc hpeek hserves
    rw [lookup_fst, hpeek, elim_some] at hserves
    exact hsame (varyMatches_of_serves hserves)

/-! ## What the comparison does not see -/

/-- Two requests agree in the lines after the first, and in the first one where it is not text. -/
structure UnseenAgree (reqHeaders h : HeaderMap) (n : HeaderName) : Prop where
  rest : (h.getAll n).tail = (reqHeaders.getAll n).tail
  first : h.getStr n = none → h.get n = reqHeaders.get n

theorem eq_of_head?_of_tail {α : Type*} {l l' : List α} (hhead : l.head? = l'.head?)
    (htail : l.tail = l'.tail) : l = l' := by
  rcases l with _ | ⟨a, l⟩ <;> rcases l' with _ | ⟨a', l'⟩
  · rfl
  · cases hhead
  · cases hhead
  · rw [head?_cons, head?_cons, Option.some.injEq] at hhead
    rw [tail_cons, tail_cons] at htail
    rw [hhead, htail]

theorem getAll_eq_iff_unseenAgree {reqHeaders : HeaderMap} {n : HeaderName}
    (hstr : h.getStr n = reqHeaders.getStr n) :
    h.getAll n = reqHeaders.getAll n ↔ UnseenAgree reqHeaders h n := by
  constructor
  · intro hall
    exact ⟨by rw [hall], fun _ ↦ by rw [get_eq_head?, hall, get_eq_head?]⟩
  · rintro ⟨hrest, hfirst⟩
    have hget : h.get n = reqHeaders.get n := by
      rcases hs : h.getStr n with _ | s
      · exact hfirst hs
      · -- text reads back as the value it is
        have hvalue : ∀ {g : HeaderMap}, g.getStr n = some s → g.get n = some s := by
          intro g hg
          obtain ⟨v, hv, hstr⟩ := bind_eq_some_iff.mp hg
          rw [hv, (toStr_eq_some_iff.mp hstr).2]
        rw [hvalue hs, hvalue (hstr ▸ hs)]
    rw [get_eq_head?, get_eq_head?] at hget
    exact eq_of_head?_of_tail hget hrest

/-! ## The result -/

/-- **When a variant is told apart**: the later request has another first value for a name that the
response's own `Vary` lists, or the `Vary` in force has no star and the two requests agree, for
every name it lists, in what the comparison does not see. -/
theorem varySound_iff (dates : HttpDate) (p : CachePolicy T) (reqHeaders : HeaderMap)
    (resp : Response) (stored : Instant) (entry : StoredResponse)
    (hstore : p.writeThrough dates reqHeaders resp stored = .store entry)
    (updates : List (Confirmation T)) (h : HeaderMap) :
    VarySound dates (confirmed dates entry updates) reqHeaders h ↔
      (∃ n ∈ listedNames (resp.headers.getAll "vary"), h.getStr n ≠ reqHeaders.getStr n) ∨
        ¬HasStar (varyInForce resp updates) ∧
          ∀ n ∈ listedNames (varyInForce resp updates), UnseenAgree reqHeaders h n ∧
            (n ∉ listedNames (resp.headers.getAll "vary") → h.getStr n = reqHeaders.getStr n) := by
  have hs := storedBy_of_writeThrough hstore
  obtain ⟨names, hnames, hvary⟩ := hs.vary
  obtain ⟨-, rfl⟩ := varyNames_eq_some hnames
  obtain ⟨hkept, hlines⟩ := confirmed_vary dates entry updates
  have hforce : (confirmed dates entry updates).headers.getAll "vary" =
      varyInForce resp updates := by
    rw [hlines, hs.headers, getAll_storedHeaders (by decide), varyInForce]
  have hmatches : (confirmed dates entry updates).varyMatches h = true ↔
      ∀ n ∈ listedNames (resp.headers.getAll "vary"), h.getStr n = reqHeaders.getStr n := by
    rw [varyMatches, hkept, hvary, snapshot, List.all_map, List.all_eq_true]
    exact forall₂_congr fun n _ ↦ beq_iff_eq
  rw [varySound_iff_of_varyMatches, hforce, hmatches]
  by_cases hsame : ∀ n ∈ listedNames (resp.headers.getAll "vary"), h.getStr n = reqHeaders.getStr n
  · -- the entry is selected: agreeing in all lines is agreeing in the unseen ones
    have hno : ¬∃ n ∈ listedNames (resp.headers.getAll "vary"),
        h.getStr n ≠ reqHeaders.getStr n := by
      rintro ⟨n, hn, hne⟩
      exact hne (hsame n hn)
    rw [or_iff_right hno, imp_iff_right hsame]
    refine and_congr_right fun _ ↦ forall₂_congr fun n _ ↦ ?_
    constructor
    · intro hall
      have hstr : h.getStr n = reqHeaders.getStr n := by
        rw [getStr, get_eq_head?, hall, ← get_eq_head?, ← getStr]
      exact ⟨(getAll_eq_iff_unseenAgree hstr).mp hall, fun _ ↦ hstr⟩
    · rintro ⟨hunseen, hnew⟩
      by_cases hn : n ∈ listedNames (resp.headers.getAll "vary")
      · exact (getAll_eq_iff_unseenAgree (hsame n hn)).mpr hunseen
      · exact (getAll_eq_iff_unseenAgree (hnew hn)).mpr hunseen
  · have hsome : ∃ n ∈ listedNames (resp.headers.getAll "vary"),
        h.getStr n ≠ reqHeaders.getStr n := by
      push Not at hsame
      exact hsame
    exact iff_of_true (fun hall ↦ absurd hall hsame) (Or.inl hsome)

private def byLanguage : Response :=
  ⟨200, [("vary", "Accept-Language"), ("content-length", "2")], some [111, 107]⟩

/-- The entry it makes for a request in English. -/
private def english : StoredResponse :=
  { StoredResponse.bare [("vary", "Accept-Language"), ("content-length", "2")]
      (Duration.fromSecs 60) 0 with vary := [("accept-language", some "en")] }

theorem varySound_of_other_language :
    minute.writeThrough .blank [("accept-language", "en")] byLanguage 0 =
        .store english ∧
      VarySound .blank (confirmed .blank english ([] : List (Confirmation Unit)))
        [("accept-language", "en")] [("accept-language", "de"), ("accept-language", "en")] := by
  have hstore : minute.writeThrough .blank [("accept-language", "en")] byLanguage 0 =
      .store english := by decide +kernel
  refine ⟨hstore, (varySound_iff .blank .minute _ _ _ _ hstore [] _).mpr (Or.inl ?_)⟩
  exact ⟨"accept-language", by decide +kernel, by decide +kernel⟩

/-- Two requests that prefer English and differ in what comes second get the same response. -/
theorem variant_served_to_other_request :
    minute.writeThrough .blank [("accept-language", "en"), ("accept-language", "fr")]
        byLanguage 0 = .store english ∧
      ¬VarySound .blank english [("accept-language", "en"), ("accept-language", "fr")]
        [("accept-language", "en"), ("accept-language", "de")] := by
  refine ⟨by decide +kernel, fun hsound ↦ ?_⟩
  have hsame := (varySound_iff_of_varyMatches.mp hsound (by decide +kernel)).2 "accept-language"
    (by decide +kernel)
  exact absurd hsame (by decide)

end Cache

end Hypershunt
