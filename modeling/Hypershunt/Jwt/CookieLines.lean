import Hypershunt.Oidc.Cookies

/-!
# Cookies in several header lines

A client may send its cookies in one `Cookie` line or in several; over HTTP/2 one line for each pair
is usual (RFC 9113 §8.2.3), and joined with `"; "` the lines mean the same. Both readers of cookies,
`extract_token` of the session validator and `cookie_value` of the OIDC routes, look at the first
line only.

Within a line both go through the pairs in order and take the first that brings the name
(`findSome?_split_join`), so the first line decides like the joined one exactly if nothing is found
in what it leaves out. A pair that is not visible ASCII makes the line it is in unreadable, the
joined line always.
-/

namespace Hypershunt

open List Option

namespace Jwt

open Text HeaderMap Oidc

/-- The token of a part of a `Cookie` line. -/
def tokenValue (cookieName part : String) : Option String :=
  stripPrefix (cookieName ++ "=") (trim part)

/-- The token of an `Authorization` header; here the scheme has to be spelled this way. -/
def bearerToken (h : HeaderMap) : Option String :=
  (h.getStr "authorization").bind (stripPrefix "Bearer ")

/-- The token in the named cookie, or else in `Authorization: Bearer`. -/
def extractToken (h : HeaderMap) (cookieName : String) : Option String :=
  ((h.getStr "cookie").bind fun line ↦ (split ';' line).findSome? (tokenValue cookieName)).or
    (bearerToken h)

/-! ## A line is the list of its pairs -/

/-- Pairs in one line. -/
def joinPairs (pairs : List String) : String := "; ".intercalate pairs

/-- A reader of the parts of a line that ignores a blank in front of one and empty ones. -/
structure PartReader where
  read : String → Option String
  read_blank : ∀ part, read (String.singleton ' ' ++ part) = read part
  read_empty : read "" = none

/-- What a pair brings by itself. -/
def PartReader.valueIn (r : PartReader) (pair : String) : Option String :=
  (split ';' pair).findSome? r.read

/-- What a request brings. -/
def PartReader.lookup (r : PartReader) (h : HeaderMap) : Option String :=
  (h.getStr "cookie").bind fun line ↦ (split ';' line).findSome? r.read

variable {r : PartReader}

theorem findSome?_split_blank (r : PartReader) (s : String) :
    (split ';' (String.singleton ' ' ++ s)).findSome? r.read =
      (split ';' s).findSome? r.read := by
  rw [split_singleton_append (by decide)]
  rcases split ';' s with _ | ⟨part, parts⟩
  · rfl
  · rw [modifyHead_cons, findSome?_cons, findSome?_cons, r.read_blank]

/-- Reading a joined line is reading its pairs one by one. -/
theorem findSome?_split_join (r : PartReader) (pairs : List String) :
    (split ';' (joinPairs pairs)).findSome? r.read = pairs.findSome? r.valueIn := by
  induction pairs with
  | nil =>
    change [""].findSome? r.read = none
    rw [findSome?_singleton, r.read_empty]
  | cons pair pairs ih =>
    rcases pairs with _ | ⟨next, pairs⟩
    · rw [joinPairs, String.intercalate_singleton, findSome?_singleton]
      rfl
    · have hjoin : joinPairs (pair :: next :: pairs) = pair ++ String.singleton ';' ++
          (String.singleton ' ' ++ joinPairs (next :: pairs)) := by
        have hsep : "; " = String.singleton ';' ++ String.singleton ' ' := by decide
        rw [joinPairs, joinPairs, String.intercalate_cons_cons, hsep]
        simp only [String.append_assoc]
      rw [hjoin, split_append_singleton_append, findSome?_append, findSome?_split_blank, ih]
      change _ = ([pair] ++ next :: pairs).findSome? r.valueIn
      rw [findSome?_append, findSome?_singleton]
      rfl

theorem visible_joinPairs_iff {pairs : List String} :
    Oidc.Visible (joinPairs pairs) ↔ ∀ pair ∈ pairs, Oidc.Visible pair :=
  visible_intercalate_iff (by decide)

theorem PartReader.lookup_eq {h : HeaderMap} {pairs : List String} {lines : List HeaderValue}
    (hlines : h.getAll "cookie" = joinPairs pairs :: lines) :
    r.lookup h = if ∀ pair ∈ pairs, Oidc.Visible pair then pairs.findSome? r.valueIn else none := by
  have hget : h.get "cookie" = some (joinPairs pairs) := by
    rw [get_eq_head?, hlines, head?_cons]
  have hstr : h.getStr "cookie" = HeaderValue.toStr (joinPairs pairs) := by
    rw [getStr, hget, bind_some]
  rw [PartReader.lookup, hstr, HeaderValue.toStr]
  by_cases hvisible : ∀ pair ∈ pairs, Oidc.Visible pair
  · have hall : (joinPairs pairs).toList.all visibleAscii = true :=
      visible_joinPairs_iff.mpr hvisible
    rw [if_pos hvisible, if_pos hall, bind_some]
    exact findSome?_split_join r pairs
  · have hall : ¬(joinPairs pairs).toList.all visibleAscii = true :=
      fun hall ↦ hvisible (visible_joinPairs_iff.mp hall)
    rw [if_neg hvisible, if_neg hall, bind_none]

/-! ## The first line against the joined one -/

/-- Either all pairs can be read, and the first line brings the name or no other line does, or one
cannot, and the first line yields nothing either. -/
def FirstLineDecides (r : PartReader) (first later : List String) : Prop :=
  if ∀ pair ∈ first ++ later, Oidc.Visible pair then
    (∃ pair ∈ first, (r.valueIn pair).isSome) ∨ ∀ pair ∈ later, r.valueIn pair = none
  else (∀ pair ∈ first, Oidc.Visible pair) → ∀ pair ∈ first, r.valueIn pair = none

instance (first later : List String) : Decidable (FirstLineDecides r first later) :=
  inferInstanceAs (Decidable (ite _ _ _))

/-- Two requests, one with the `Cookie` pairs in several lines, the other with them in one. -/
structure SplitCookies (h joined : HeaderMap) (first : List String) (rest : List (List String)) :
    Prop where
  lines : h.getAll "cookie" = joinPairs first :: rest.map joinPairs
  joinedLine : joined.getAll "cookie" = [joinPairs (first ++ rest.flatten)]
  others : ∀ n ≠ "cookie", h.getAll n = joined.getAll n

theorem findSome?_append_eq_left_iff {first later : List String} :
    first.findSome? r.valueIn = (first ++ later).findSome? r.valueIn ↔
      (∃ pair ∈ first, (r.valueIn pair).isSome) ∨ ∀ pair ∈ later, r.valueIn pair = none := by
  rw [findSome?_append, ← findSome?_eq_none_iff, ← findSome?_isSome_iff]
  rcases first.findSome? r.valueIn with _ | v
  · simp [eq_comm]
  · simp

variable {h joined : HeaderMap} {first : List String} {rest : List (List String)}

theorem SplitCookies.lookup_eq_iff (hs : SplitCookies h joined first rest) :
    r.lookup h = r.lookup joined ↔ FirstLineDecides r first rest.flatten := by
  rw [PartReader.lookup_eq hs.lines, PartReader.lookup_eq hs.joinedLine, FirstLineDecides]
  by_cases hall : ∀ pair ∈ first ++ rest.flatten, Oidc.Visible pair
  · have hfirst : ∀ pair ∈ first, Oidc.Visible pair :=
      fun pair hpair ↦ hall pair (mem_append_left _ hpair)
    rw [if_pos hall, if_pos hall, if_pos hfirst, findSome?_append_eq_left_iff]
  · rw [if_neg hall, if_neg hall]
    by_cases hfirst : ∀ pair ∈ first, Oidc.Visible pair
    · rw [if_pos hfirst, findSome?_eq_none_iff]
      exact ⟨fun hnone _ ↦ hnone, fun hnone ↦ hnone hfirst⟩
    · rw [if_neg hfirst]
      exact ⟨fun _ hvisible ↦ absurd hvisible hfirst, fun _ ↦ rfl⟩

/-- Whatever is found in the first line or in the joined one is the first value there is. -/
theorem SplitCookies.findSome?_eq (hs : SplitCookies h joined first rest) {v : String}
    (hv : r.lookup h = some v ∨ r.lookup joined = some v) :
    (first ++ rest.flatten).findSome? r.valueIn = some v := by
  rw [PartReader.lookup_eq hs.lines, PartReader.lookup_eq hs.joinedLine, ite_none_right_eq_some,
    ite_none_right_eq_some] at hv
  rcases hv with ⟨-, hv⟩ | ⟨-, hv⟩
  · rw [findSome?_append, hv, some_or]
  · exact hv

/-- With something to fall back to, the two may also agree because that is what was looked for. -/
theorem SplitCookies.lookup_or_eq_iff (hs : SplitCookies h joined first rest) (b : Option String) :
    (r.lookup h).or b = (r.lookup joined).or b ↔ FirstLineDecides r first rest.flatten ∨
      ∃ v, b = some v ∧ (first ++ rest.flatten).findSome? r.valueIn = some v := by
  have hfound := fun {v} ↦ hs.findSome?_eq (r := r) (v := v)
  rw [← hs.lookup_eq_iff]
  rcases hfirst : r.lookup h with _ | v <;> rcases hjoined : r.lookup joined with _ | w
  · simp
  · rw [hfound (Or.inr hjoined)]
    simp
  · rw [hfound (Or.inl hfirst)]
    simp [eq_comm]
  · have hsame : some v = some w := by
      rw [← hfound (Or.inl hfirst), ← hfound (Or.inr hjoined)]
    simp [hsame]

/-! ## The two readers -/

/-- A prefix with a character in it is not that of an empty text. -/
def tokenReader (cookieName : String) : PartReader where
  read := tokenValue cookieName
  read_blank part := by rw [tokenValue, trim_singleton_append (by decide), tokenValue]
  read_empty := by
    rw [tokenValue, stripPrefix, if_neg]
    rw [String.toList_append]
    rcases cookieName.toList with _ | ⟨c, cs⟩
    · decide
    · exact Bool.false_ne_true

def pairReader (name : String) : PartReader where
  read := pairValue name
  read_blank part := by rw [pairValue, trim_singleton_append (by decide), pairValue]
  read_empty := rfl

theorem extractToken_eq (h : HeaderMap) (cookieName : String) :
    extractToken h cookieName = ((tokenReader cookieName).lookup h).or (bearerToken h) := by
  simp only [extractToken, PartReader.lookup, tokenReader]

theorem cookieValue_eq (h : HeaderMap) (name : String) :
    cookieValue h name = (pairReader name).lookup h := by
  simp only [cookieValue, PartReader.lookup, pairReader]

theorem SplitCookies.bearerToken_eq (hs : SplitCookies h joined first rest) :
    bearerToken joined = bearerToken h := by
  have hget : joined.get "authorization" = h.get "authorization" := by
    rw [get_eq_head?, get_eq_head?, hs.others _ (by decide)]
  rw [bearerToken, bearerToken, getStr, getStr, hget]

/-- Cookies in several lines are read like joined ones exactly if the first line decides, or the
session validator finds the same token in `Authorization`. -/
theorem split_cookies_agree_iff (hs : SplitCookies h joined first rest) (name : String) :
    (extractToken h name = extractToken joined name ↔
      FirstLineDecides (tokenReader name) first rest.flatten ∨
        ∃ token, bearerToken h = some token ∧
          (first ++ rest.flatten).findSome? (tokenReader name).valueIn = some token) ∧
    (cookieValue h name = cookieValue joined name ↔
      FirstLineDecides (pairReader name) first rest.flatten) := by
  constructor
  · rw [extractToken_eq, extractToken_eq, hs.bearerToken_eq]
    exact hs.lookup_or_eq_iff (bearerToken h)
  · rw [cookieValue_eq, cookieValue_eq]
    exact hs.lookup_eq_iff

/-- Lines with the session in the second of them, and the line they mean. -/
private def sessionSecond : HeaderMap := [("cookie", "a=1"), ("cookie", "session=token")]

private def sessionJoined : HeaderMap := [("cookie", "a=1; session=token")]

private theorem splitCookies_sessionSecond :
    SplitCookies sessionSecond sessionJoined ["a=1"] [["session=token"]] where
  lines := by decide +kernel
  joinedLine := by decide +kernel
  others n hn := by
    have hne : ("cookie" == n) = false := beq_false_of_ne (Ne.symm hn)
    simp only [getAll, sessionSecond, sessionJoined, filter_cons, hne, Bool.false_eq_true, if_false]

/-- A cookie of the first line is found either way. -/
theorem split_cookies_agree_a :
    extractToken sessionSecond "a" = extractToken sessionJoined "a" ∧
      cookieValue sessionSecond "a" = cookieValue sessionJoined "a" :=
  ⟨((split_cookies_agree_iff splitCookies_sessionSecond "a").1).mpr (Or.inl (by decide +kernel)),
    ((split_cookies_agree_iff splitCookies_sessionSecond "a").2).mpr (by decide +kernel)⟩

/-- A session whose cookie is not in the first line is not seen by either reader. -/
theorem session_in_second_line_lost :
    SplitCookies sessionSecond sessionJoined ["a=1"] [["session=token"]] ∧
      extractToken sessionSecond "session" = none ∧
      extractToken sessionJoined "session" = some "token" ∧
      cookieValue sessionSecond "session" = none ∧
      cookieValue sessionJoined "session" = some "token" :=
  ⟨splitCookies_sessionSecond, by decide +kernel, by decide +kernel, by decide +kernel,
    by decide +kernel⟩

end Jwt

end Hypershunt
