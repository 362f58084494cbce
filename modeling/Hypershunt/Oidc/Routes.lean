import Hypershunt.Handler.StaticFiles
import Hypershunt.Oidc.Login

/-!
# The login and callback endpoints

The handlers of `oidc/routes.rs` for the two ends of a login. The login request names the path to
return to, percent-encoded in its query; the path is decoded, filtered, kept in the login state, and
put into the `Location` header of the callback's response.

Responses are built with an `expect` at the end: a header value that is not valid makes it panic,
which is a result of `none` here.
-/

namespace Hypershunt

namespace Oidc

open Listener (JwtManager)

open HeaderValue Text Option

/-! ## Queries -/

/-- `percent_decode`, whose loop is that of the file handler. -/
def percentDecode (s : String) : String :=
  fromUtf8Lossy (StaticFiles.decodeBytes (bytes s))

/-- The decoded value of a `key=value` pair of a query. -/
def queryPair (key pair : String) : Option String :=
  match splitOnce '=' pair with
  | some (k, v) => if k = key then some (percentDecode v) else none
  | none => none

/-- `query_param`: the first pair with the key. -/
def queryParam (query key : String) : Option String :=
  (split '&' query).findSome? (queryPair key)

def maxHintLen : ℕ := 256

def validateHint (value : String) : Bool :=
  !value.isEmpty && decide (value.utf8ByteSize ≤ maxHintLen) &&
    (bytes value).all fun b ↦ 0x20 ≤ b && b ≤ 0x7e

def hintNames : List String := ["login_hint", "prompt", "max_age", "acr_values", "ui_locales"]

/-- The hint of a name: invalid, absent, or a pair to forward. -/
def idpHint (query name : String) : Option (Option (String × String)) :=
  match queryParam query name with
  | some value => if validateHint value then some (some (name, value)) else none
  | none => some none

/-- `build_idp_hints`, as the pairs that are forwarded; nothing if one of them is invalid. -/
def buildIdpHints (query : String) : Option (List (String × String)) := do
  let hints ← hintNames.mapM (idpHint query)
  return hints.filterMap id

/-- An absolute path that does not start like a URL without a scheme. -/
def isReturnPath (raw : String) : Bool :=
  startsWith "/" raw && !startsWith "//" raw && !startsWith "/\\" raw

def validateReturnTo (raw : String) : String := if isReturnPath raw then raw else "/"

/-- The path a login request asks to return to. -/
def returnPath (query : String) : String :=
  validateReturnTo ((queryParam query "return").getD "/")

/-! ## Responses -/

/-- `Response::builder` and the `expect` at its end. -/
def buildResponse (status : ℕ) (lines : List (HeaderName × String)) : Option Response :=
  (lines.mapM fun line ↦ (fromStr line.2).map fun value ↦ (line.1, value)).map
    fun headers ↦ ⟨status, headers, some []⟩

/-- Text that can be the value of a header. -/
def HeaderText (s : String) : Prop := s.toList.all validChar = true

instance (s : String) : Decidable (HeaderText s) :=
  inferInstanceAs (Decidable (s.toList.all validChar = true))

@[simp]
theorem headerText_append {s t : String} : HeaderText (s ++ t) ↔ HeaderText s ∧ HeaderText t := by
  rw [HeaderText, String.toList_append, List.all_append, Bool.and_eq_true, HeaderText, HeaderText]

/-- The line of a header, as it is sent. -/
def sentLine (line : HeaderName × String) : HeaderName × HeaderValue :=
  (line.1, ofBytes (bytes line.2))

variable {lines : List (HeaderName × String)}

theorem mapM_fromStr_eq_some_iff {headers : HeaderMap} :
    (lines.mapM fun line ↦ (fromStr line.2).map fun value ↦ (line.1, value)) =
      some headers ↔ (∀ line ∈ lines, HeaderText line.2) ∧ lines.map sentLine = headers := by
  induction lines generalizing headers with
  | nil => simp [List.mapM_nil]
  | cons line lines ih =>
    rw [List.mapM_cons, List.forall_mem_cons, List.map_cons]
    constructor
    · intro h
      obtain ⟨first, hfirst, h⟩ := bind_eq_some_iff.mp h
      obtain ⟨rest, hrest, h⟩ := bind_eq_some_iff.mp h
      obtain ⟨value, hvalue, rfl⟩ := map_eq_some_iff.mp hfirst
      obtain ⟨htext, rfl⟩ := fromStr_eq_some_iff.mp hvalue
      obtain ⟨hlines, rfl⟩ := ih.mp hrest
      exact ⟨⟨htext, hlines⟩, some.inj h⟩
    · rintro ⟨⟨htext, hlines⟩, rfl⟩
      rw [fromStr_eq_some_iff.mpr ⟨htext, rfl⟩, ih.mpr ⟨hlines, rfl⟩]
      rfl

theorem buildResponse_eq_some_iff {status : ℕ} {resp : Response} :
    buildResponse status lines = some resp ↔ (∀ line ∈ lines, HeaderText line.2) ∧
      (⟨status, lines.map sentLine, some []⟩ : Response) = resp := by
  rw [buildResponse, map_eq_some_iff]
  constructor
  · rintro ⟨headers, hheaders, rfl⟩
    obtain ⟨htext, rfl⟩ := mapM_fromStr_eq_some_iff.mp hheaders
    exact ⟨htext, rfl⟩
  · rintro ⟨htext, rfl⟩
    exact ⟨lines.map sentLine, mapM_fromStr_eq_some_iff.mpr ⟨htext, rfl⟩, rfl⟩

theorem buildResponse_isSome_iff {status : ℕ} :
    (buildResponse status lines).isSome ↔ ∀ line ∈ lines, HeaderText line.2 := by
  simp only [isSome_iff_exists, buildResponse_eq_some_iff, exists_and_left, exists_eq', and_true]

def stateCookieName : String := "__hypershunt_oidc_state"

/-- The cookie that comes back with the redirect of the identity provider. -/
def stateCookieValue (stateId : String) (ttlSecs : ℕ) (isTls : Bool) : String :=
  stateCookieName ++ "=" ++ stateId ++ "; Path=/; HttpOnly; SameSite=Lax; Max-Age=" ++
    Nat.repr ttlSecs ++ secure isTls

def clearStateCookie (isTls : Bool) : String := stateCookieValue "" 0 isTls

/-- `handle_oidc_login`, and the return path of the login it starts. `authorizeUrl` is made by the
client library. -/
def handleOidcLogin (authorizeUrl : Draw → List (String × String) → String) (ready : Bool)
    (draw : Draw) (query : String) (isTls : Bool) : Option Response × Option String :=
  match buildIdpHints query with
  | none => (some response400, none)
  | some hints =>
    if ready then
      (buildResponse 302 [("location", authorizeUrl draw hints),
        ("set-cookie", stateCookieValue draw.state 600 isTls)], some (returnPath query))
    else (some (response503Retry 5), none)

structure CallbackConfig where
  issuer : String
  requireIss : Bool
  refreshCookieName : String
  refreshTtlSecs : ℕ

/-- A code and a state, the issuer if it names one or has to, and the state in the cookie. -/
def callbackChecks (cfg : CallbackConfig) (headers : HeaderMap) (query : String) :
    Option (String × String) := do
  let code ← queryParam query "code"
  let state ← queryParam query "state"
  match queryParam query "iss" with
  | some iss => if trimEndSlashes iss ≠ trimEndSlashes cfg.issuer then none else some ()
  | none => if cfg.requireIss then none else some ()
  if cookieValue headers stateCookieName = some state then some (code, state) else none

/-- The response that ends a login. -/
def callbackRedirect (cfg : CallbackConfig) (login : CompletedLogin) (sessionCookie : String)
    (isTls : Bool) : Option Response :=
  buildResponse 302 <|
    [("location", login.returnTo), ("set-cookie", sessionCookie),
      ("set-cookie", clearStateCookie isTls)] ++
    (login.refresh.map fun (sid, _) ↦ ("set-cookie",
      refreshCookieValue cfg.refreshCookieName sid cfg.refreshTtlSecs isTls)).toList

/-- `handle_oidc_callback`; `completeLogin` takes a code and a state. -/
def handleOidcCallback (cfg : CallbackConfig) (jwt : Option JwtManager) (headers : HeaderMap)
    (query : String) (isTls : Bool) (pages : ErrorPages)
    (completeLogin : String → String → Except String CompletedLogin) : Option Response :=
  match callbackChecks cfg headers query with
  | none => some (responseStatus 400 pages)
  | some (code, state) => match completeLogin code state with
    | .error _ => some (responseStatus 400 pages)
    | .ok login => match jwt with
      | none => some (responseStatus 500 pages)
      | some jwt => match jwt.makeSetCookie login.identity isTls with
        | .error _ => some (responseStatus 500 pages)
        | .ok sessionCookie => callbackRedirect cfg login sessionCookie isTls

end Oidc

end Hypershunt
