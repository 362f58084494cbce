import Hypershunt.Foundation.Fallible
import Hypershunt.Http.Message

/-!
# The host of a request

`normalize_host` of `listener/service.rs`: reconcile the authority of the request target with the
`Host` header, so that everything after it reads the header, and refuse requests that do not name
exactly one usable host. Parsing an authority is left to a parameter.
-/

namespace Hypershunt

namespace Listener

inductive HostError
  | missing
  | duplicate
  | invalid
  | mismatch
  deriving DecidableEq

/-- A parsed authority: its text, the host in it and the port, if that is a number. -/
structure Authority where
  text : String
  host : String
  portU16 : Option ℕ

variable (parseAuthority : String → Option Authority)

/-- A host with an optional port, and no user information. -/
def isValidHostValue (value : String) : Bool :=
  if Text.contains "@" value then false
  else
    match parseAuthority value with
    | none => false
    | some a => !(a.host.utf8ByteSize < a.text.utf8ByteSize && a.portU16.isNone)

/-- The host named by the `Host` lines; an empty value names none. -/
def hostLine : List HeaderValue → Except HostError (Option HeaderValue)
  | [] => .ok none
  | [v] =>
    match v.toStr with
    | none => .error .invalid
    | some text =>
      if text.isEmpty then .ok none
      else if isValidHostValue parseAuthority text then .ok (some v)
      else .error .invalid
  | _ :: _ :: _ => .error .duplicate

def setHost (req : Request) (value : String) : Request :=
  match HeaderValue.fromStr value with
  | some v => { req with headers := req.headers.insert "host" v }
  | none => req

def normalizeHost (req : Request) : Except HostError Request := do
  let host ← hostLine parseAuthority (req.headers.getAll "host")
  match req.uri.authority, host with
  | some authority, some host =>
    if req.version = .http2 ∨ req.version = .http3 then
      if Text.eqIgnoreAsciiCase host authority then .ok req else .error .mismatch
    else .ok (setHost req authority)
  | some authority, none => .ok (setHost req authority)
  | none, some _ => .ok req
  | none, none =>
    if req.version = .http10 ∨ req.version = .http09 then .ok req else .error .missing

variable {parseAuthority} {req req' : Request}

/-- The request differs from `req` in its `Host` header at most. -/
structure SameButHost (req req' : Request) : Prop where
  body : req'.body = req.body
  get : ∀ n, n ≠ "host" → req'.headers.get n = req.headers.get n

theorem SameButHost.refl (req : Request) : SameButHost req req := ⟨rfl, fun _ _ ↦ rfl⟩

theorem sameButHost_setHost (req : Request) (value : String) :
    SameButHost req (setHost req value) := by
  unfold setHost
  split
  · exact ⟨rfl, fun _ hn ↦ HeaderMap.get_insert_of_ne hn⟩
  · exact .refl req

theorem sameButHost_normalizeHost (h : normalizeHost parseAuthority req = .ok req') :
    SameButHost req req' := by
  obtain ⟨host, -, hmatch⟩ := bind_eq_ok_iff.mp h
  split at hmatch
  case h_1 =>
    split at hmatch
    · split at hmatch
      · cases hmatch
        exact .refl _
      · cases hmatch
    · cases hmatch
      exact sameButHost_setHost _ _
  case h_2 =>
    cases hmatch
    exact sameButHost_setHost _ _
  case h_3 =>
    cases hmatch
    exact .refl _
  case h_4 =>
    split at hmatch
    · cases hmatch
      exact .refl _
    · cases hmatch

theorem SameButHost.contentLength_eq (h : SameButHost req req') :
    contentLength req'.headers = contentLength req.headers := by
  unfold contentLength HeaderMap.getStr
  rw [h.get "content-length" (by decide)]

end Listener

end Hypershunt
