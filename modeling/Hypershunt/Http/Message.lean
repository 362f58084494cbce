import Hypershunt.Http.Header

/-!
# Requests and responses

HTTP messages as the server sees them, and the responses it makes itself (`error.rs`).

The body of a request is a stream: the list of the data frames the transport delivers. How the
client framed it on the wire, and how the transport split it, is in that list and nowhere else; in
particular no announced length is attached to it. The body of a response may fail while it is being
read, in which case there is none.
-/

namespace Hypershunt

open Text

inductive Version
  | http09
  | http10
  | http11
  | http2
  | http3
  deriving DecidableEq

inductive Method
  | options
  | get
  | post
  | put
  | delete
  | head
  | trace
  | connect
  | patch
  | extension (name : String)
  deriving DecidableEq

def Method.asStr : Method → String
  | .options => "OPTIONS"
  | .get => "GET"
  | .post => "POST"
  | .put => "PUT"
  | .delete => "DELETE"
  | .head => "HEAD"
  | .trace => "TRACE"
  | .connect => "CONNECT"
  | .patch => "PATCH"
  | .extension name => name

/-- A request target. A target in authority form has no path. -/
structure Uri where
  scheme : Option String
  authority : Option String
  pathAndQuery : Option (String × Option String)
  deriving DecidableEq

namespace Uri

def path (u : Uri) : String := (u.pathAndQuery.map Prod.fst).getD ""

def query (u : Uri) : Option String := u.pathAndQuery.bind Prod.snd

/-- The text of path and query, with the default the dispatcher uses. -/
def pathAndQueryStr (u : Uri) : String :=
  match u.pathAndQuery with
  | none => "/"
  | some (path, none) => path
  | some (path, some query) => path ++ "?" ++ query

/-- The target parsed from a path and query, which starts with a slash or is the asterisk. -/
def ofPathAndQuery (s : String) : Option Uri :=
  if startsWith "/" s then
    match splitOnce '?' s with
    | some (path, query) => some ⟨none, none, some (path, some query)⟩
    | none => some ⟨none, none, some (s, none)⟩
  else if s = "*" then some ⟨none, none, some (s, none)⟩
  else none

theorem isSome_of_ofPathAndQuery {s : String} {u : Uri} (h : ofPathAndQuery s = some u) :
    u.pathAndQuery.isSome = true := by
  unfold ofPathAndQuery at h
  split at h
  · split at h
    · cases h
      rfl
    · cases h
      rfl
  · rw [Option.ite_none_right_eq_some, Option.some.injEq] at h
    obtain ⟨-, rfl⟩ := h
    rfl

/-- The target has a path, which starts with a slash and ends before the first question mark. -/
structure HasPath (u : Uri) : Prop where
  slash : startsWith "/" u.path = true
  mark : '?' ∉ u.path.toList

/-- Such a target is read back from its path and query, without the scheme and the authority. -/
theorem HasPath.ofPathAndQuery {u : Uri} (h : u.HasPath) :
    Uri.ofPathAndQuery u.pathAndQueryStr = some ⟨none, none, u.pathAndQuery⟩ := by
  obtain ⟨scheme, authority, _ | ⟨path, _ | query⟩⟩ := u
  · have hslash : startsWith "/" "" = true := h.slash
    exact absurd hslash (by decide)
  · have hslash : startsWith "/" path = true := h.slash
    have hmark : '?' ∉ path.toList := h.mark
    rw [pathAndQueryStr, Uri.ofPathAndQuery, if_pos hslash, splitOnce_eq_none hmark]
  · have hslash : startsWith "/" (path ++ "?" ++ query) = true := by
      have hpath : startsWith "/" path = true := h.slash
      rw [startsWith_iff] at hpath ⊢
      rw [String.append_assoc, String.toList_append]
      exact hpath.trans (List.prefix_append _ _)
    have htext : (path ++ "?" ++ query).toList = path.toList ++ '?' :: query.toList := by
      rw [String.append_assoc, String.toList_append, String.toList_append]
      rfl
    rw [pathAndQueryStr, Uri.ofPathAndQuery, if_pos hslash, splitOnce_eq_some htext h.mark]

end Uri

/-- The data frames of a request body. -/
abbrev Body := List (List UInt8)

/-- The number of bytes a stream carries. -/
def Body.size (b : Body) : ℕ := (b.map List.length).sum

structure Request where
  method : Method
  uri : Uri
  version : Version
  headers : HeaderMap
  body : Body
  deriving DecidableEq

/-- A request of HTTP/1.1 without a query and a body. -/
def Request.bare (method : Method) (path : String) (headers : HeaderMap) : Request :=
  ⟨method, ⟨none, none, some (path, none)⟩, .http11, headers, []⟩

structure Response where
  status : ℕ
  headers : HeaderMap
  /-- The body, if it can be read. -/
  body : Option (List UInt8)
  deriving DecidableEq

/-- A header that is text: `get` followed by `to_str`. -/
def HeaderMap.getStr (h : HeaderMap) (n : HeaderName) : Option String :=
  (h.get n).bind HeaderValue.toStr

/-- The `Content-Length` the body caps are checked against. -/
def contentLength (h : HeaderMap) : Option ℕ := (h.getStr "content-length").bind parseU64

/-! ## Responses of the server itself -/

def htmlType : HeaderName × HeaderValue := ("content-type", "text/html; charset=utf-8")

def htmlResponse (status : ℕ) (body : String) : Response :=
  ⟨status, [htmlType], some (bytes body)⟩

def response400 : Response := htmlResponse 400 "<h1>400 Bad Request</h1>"

def response404 : Response := htmlResponse 404 "<h1>404 Not Found</h1>"

def response413 : Response := htmlResponse 413 "<h1>413 Content Too Large</h1>"

def response429 (retryAfterSecs : ℕ) : Response :=
  ⟨429, [("retry-after", Nat.repr retryAfterSecs), htmlType],
    some (bytes "<h1>429 Too Many Requests</h1>")⟩

/-- The custom error pages, as they read while a request is served. -/
abbrev ErrorPages := ℕ → Option (List UInt8)

/-- `response_status`: any code, with the custom page for it; what is no status becomes 403. -/
def responseStatus (code : ℕ) (pages : ErrorPages) : Response :=
  if 100 ≤ code ∧ code < 1000 then
    ⟨code, [htmlType], some ((pages code).getD (bytes ("<h1>" ++ Nat.repr code ++ "</h1>")))⟩
  else htmlResponse 403 "<h1>403 Forbidden</h1>"

/-- `response_www_auth`: the realm as a quoted string, backslashes escaped before quotes. -/
def responseWwwAuth (realm : String) (pages : ErrorPages) : Response :=
  let escape : Char → List Char := fun c ↦ if c = '\\' ∨ c = '"' then ['\\', c] else [c]
  let safe := String.ofList (realm.toList.flatMap escape)
  ⟨401, [("www-authenticate", "Basic realm=\"" ++ safe ++ "\""), htmlType],
    some ((pages 401).getD (bytes "<h1>401 Unauthorized</h1>"))⟩

/-- `response_redirect`. It panics on a target that is no header value and on a code that is no
status, which its callers are to have ruled out; the panic is left out. -/
def responseRedirect (target : String) (code : ℕ) : Response :=
  ⟨code, [("location", target)], some []⟩

def response503Retry (secs : ℕ) : Response :=
  ⟨503, [("retry-after", Nat.repr secs), htmlType],
    some (bytes "<h1>503 Service Unavailable</h1>")⟩

/-- What is sent when the handler timeout runs out. -/
def response408 : Response := ⟨408, [], some (bytes "<h1>408 Request Timeout</h1>")⟩

end Hypershunt
