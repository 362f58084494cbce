import Hypershunt.Http.Message

/-!
# Cookies and credentials of a request

The parts of `oidc/routes.rs` the dispatcher uses: reading a cookie or a bearer token, and the
cookies that carry and clear the id of a refresh session.

A `Set-Cookie` value with a control character would silently not be sent. For the cookie of a
rotated session this cannot happen (`fromStr_refreshCookieValue`): its name was read from a header
of the same request.
-/

namespace Hypershunt

namespace Oidc

open Text HeaderValue List

/-- Accepts HTML and presents no `Authorization`. -/
def wantsHtml (h : HeaderMap) : Bool :=
  !h.containsKey "authorization" &&
    (h.getStr "accept").any fun s ↦ contains "text/html" s || contains "*/*" s

/-- `percent_encode_return`: everything but unreserved characters and the slash. -/
def percentEncodeReturn (s : String) : String :=
  (bytes s).foldl (fun out b ↦
    let c := Char.ofNat b.toNat
    if b < 0x80 ∧ (c.isAlphanum ∨ c ∈ ['-', '_', '.', '~', '/']) then out.push c
    else out ++ "%" ++ hexByte b) ""

def buildLoginRedirect (loginPath returnTo : String) : String :=
  loginPath ++ "?return=" ++ percentEncodeReturn returnTo

/-- The token of an `Authorization: Bearer` header, the scheme in any case. -/
def extractBearer (h : HeaderMap) : Option String := do
  let raw ← h.getStr "authorization"
  let (scheme, token) ← splitOnce ' ' raw
  let token := trim token
  if !eqIgnoreAsciiCase scheme "bearer" || token.isEmpty then none else some token

/-- The value of a `key=value` pair with the given key. -/
def pairValue (name pair : String) : Option String :=
  match splitOnce '=' (trim pair) with
  | some (k, v) => if k = name then some v else none
  | none => none

/-- The value of a named cookie, from the first `Cookie` line. -/
def cookieValue (h : HeaderMap) (name : String) : Option String :=
  (h.getStr "cookie").bind fun raw ↦ (split ';' raw).findSome? (pairValue name)

/-- The attribute for connections over TLS. -/
def secure (isTls : Bool) : String := if isTls then "; Secure" else ""

/-- A cookie only the server itself reads. -/
def strictCookie (name value : String) (maxAge : ℕ) (isTls : Bool) : String :=
  name ++ "=" ++ value ++ "; Path=/; HttpOnly; SameSite=Strict; Max-Age=" ++ Nat.repr maxAge ++
    secure isTls

def refreshCookieValue (name sid : String) (ttlSecs : ℕ) (isTls : Bool) : String :=
  strictCookie name sid ttlSecs isTls

def clearRefreshCookie (name : String) (isTls : Bool) : String := strictCookie name "" 0 isTls

/-! ## The rotated cookie is a header value -/

/-- Text of visible ASCII, which is what header values are built from. -/
def Visible (s : String) : Prop := s.toList.all visibleAscii = true

instance (s : String) : Decidable (Visible s) :=
  inferInstanceAs (Decidable (s.toList.all visibleAscii = true))

theorem Visible.append {s t : String} (hs : Visible s) (ht : Visible t) : Visible (s ++ t) := by
  rw [Visible, String.toList_append, all_append, hs, ht, Bool.and_self]

theorem visible_intercalate_iff {sep : String} (hsep : Visible sep) {pieces : List String} :
    Visible (sep.intercalate pieces) ↔ ∀ piece ∈ pieces, Visible piece := by
  simp only [Visible, String.toList_intercalate, all_eq_true]
  constructor
  · intro h piece hpiece c hc
    exact h c (mem_intercalate_of_mem (mem_map_of_mem hpiece) hc)
  · intro h c hc
    rcases mem_of_mem_intercalate hc with hc | ⟨chars, hchars, hc⟩
    · exact all_eq_true.mp hsep c hc
    · obtain ⟨piece, hpiece, rfl⟩ := mem_map.mp hchars
      exact h piece hpiece c hc

theorem visible_of_mem {s t : String} (hs : Visible s) (h : ∀ c ∈ t.toList, c ∈ s.toList) :
    Visible t :=
  all_eq_true.mpr fun c hc ↦ all_eq_true.mp hs c (h c hc)

theorem visible_repr (n : ℕ) : Visible (Nat.repr n) :=
  all_eq_true.mpr fun _ hc ↦ visibleAscii_of_isDigit (isDigit_of_mem_repr hc)

theorem visible_of_cookieValue {h : HeaderMap} {name sid : String}
    (hsid : cookieValue h name = some sid) : Visible name := by
  obtain ⟨raw, hraw, hpairs⟩ := Option.bind_eq_some_iff.mp hsid
  obtain ⟨value, -, hvalue⟩ := Option.bind_eq_some_iff.mp hraw
  obtain ⟨hvisible, rfl⟩ := toStr_eq_some_iff.mp hvalue
  obtain ⟨pair, hpair, hfound⟩ := exists_of_findSome?_eq_some hpairs
  unfold pairValue at hfound
  split at hfound
  case h_2 => cases hfound
  case h_1 k v hsplit =>
    rw [Option.ite_none_right_eq_some] at hfound
    obtain ⟨rfl, -⟩ := hfound
    refine visible_of_mem hvisible fun c hc ↦ ?_
    have htrimmed := (mem_toList_of_splitOnce hsplit).1 c hc
    exact mem_toList_of_mem_split hpair (mem_toList_of_mem_trim htrimmed)

theorem fromStr_refreshCookieValue {h : HeaderMap} {name sid new : String}
    (hsid : cookieValue h name = some sid) (hnew : Visible new) (ttlSecs : ℕ) (isTls : Bool) :
    fromStr (refreshCookieValue name new ttlSecs isTls) =
      some (refreshCookieValue name new ttlSecs isTls) := by
  have hsecure : Visible (secure isTls) := by cases isTls <;> decide
  have hvisible : Visible (refreshCookieValue name new ttlSecs isTls) := by
    refine .append (.append (.append (.append (.append (visible_of_cookieValue hsid) ?_) hnew) ?_)
      (visible_repr ttlSecs)) hsecure
    · decide
    · decide
  exact fromStr_of_visible hvisible

end Oidc

end Hypershunt
