import Hypershunt.Http.Message

/-!
# gRPC statuses

`grpc.rs`: a failure that the server reports to a gRPC client is turned into a response that says
so in `grpc-status`, with HTTP status 200. The response is edited rather than built anew, so every
header that does not describe the replaced body survives (`getAll_mapResponse`).

The reason phrases of HTTP statuses are a parameter.
-/

namespace Hypershunt

namespace Grpc

open HeaderMap

def unknown : ℕ := 2
def deadlineExceeded : ℕ := 4
def permissionDenied : ℕ := 7
def resourceExhausted : ℕ := 8
def unimplemented : ℕ := 12
def internal : ℕ := 13
def unavailable : ℕ := 14
def unauthenticated : ℕ := 16

def hasGrpcContentType (headers : HeaderMap) : Bool :=
  (headers.getStr "content-type").any fun ct ↦
    Text.startsWith "application/grpc" (Text.toAsciiLowercase (Text.trimStart ct))

def isGrpcRequest (headers : HeaderMap) : Bool := hasGrpcContentType headers

/-- The response already speaks gRPC. -/
def isGrpcResponse (resp : Response) : Bool :=
  resp.headers.containsKey "grpc-status" || hasGrpcContentType resp.headers

def statusForHttp (code : ℕ) : ℕ :=
  if code = 400 then internal
  else if code = 401 then unauthenticated
  else if code = 403 then permissionDenied
  else if code = 404 then unimplemented
  else if code = 408 then deadlineExceeded
  else if code = 413 then resourceExhausted
  else if code = 429 then unavailable
  else if code = 500 then internal
  else if 502 ≤ code ∧ code ≤ 504 then unavailable
  else if 300 ≤ code ∧ code ≤ 399 then unauthenticated
  else unknown

/-- Percent-encode everything but printable ASCII, and the percent sign. -/
def encodeMessage (msg : String) : String :=
  (Text.bytes msg).foldl (fun out b ↦
    if 0x20 ≤ b ∧ b ≤ 0x7e ∧ b ≠ 0x25 then out.push (Char.ofNat b.toNat)
    else out ++ "%" ++ Text.hexByte b) ""

variable (canonicalReason : ℕ → Option String)

def rewriteAsGrpcStatus (resp : Response) : Response :=
  let reason := (canonicalReason resp.status).getD "error"
  let message := encodeMessage (reason ++ " (HTTP " ++ Nat.repr resp.status ++ ")")
  let h := ((resp.headers.remove "content-length").remove "content-encoding").insert
    "content-type" "application/grpc"
  let h := h.insert "grpc-status" (Nat.repr (statusForHttp resp.status))
  let h := match HeaderValue.fromStr message with
    | some v => h.insert "grpc-message" v
    | none => h
  ⟨200, h, some []⟩

def mapResponse (resp : Response) (isGrpc : Bool) : Response :=
  if !isGrpc || (200 ≤ resp.status && resp.status < 300) || isGrpcResponse resp then resp
  else rewriteAsGrpcStatus canonicalReason resp

/-- The headers that are replaced. -/
def replaced : List HeaderName :=
  ["content-length", "content-encoding", "content-type", "grpc-status", "grpc-message"]

theorem getAll_mapResponse (resp : Response) (isGrpc : Bool) {n : HeaderName} (hn : n ∉ replaced) :
    (mapResponse canonicalReason resp isGrpc).headers.getAll n = resp.headers.getAll n := by
  unfold mapResponse
  split
  · rfl
  simp only [replaced, List.mem_cons, List.not_mem_nil, or_false, not_or] at hn
  obtain ⟨hlength, hencoding, htype, hstatus, hmessage⟩ := hn
  have hrest : ((((resp.headers.remove "content-length").remove "content-encoding").insert
      "content-type" "application/grpc").insert "grpc-status"
        (Nat.repr (statusForHttp resp.status))).getAll n = resp.headers.getAll n := by
    rw [getAll_insert_of_ne hstatus, getAll_insert_of_ne htype, getAll_remove_of_ne hencoding,
      getAll_remove_of_ne hlength]
  unfold rewriteAsGrpcStatus
  simp only
  split
  · rw [getAll_insert_of_ne hmessage, hrest]
  · exact hrest

/-- The client is told of a response as it is, and not by a status of gRPC. -/
def PassesOn (isGrpc : Bool) (resp : Response) : Prop :=
  isGrpc = true → isGrpcResponse resp = true

theorem passesOn_iff_of_plain {resp : Response} (h : isGrpcResponse resp = false) (isGrpc : Bool) :
    PassesOn isGrpc resp ↔ isGrpc = false := by
  rw [PassesOn, h, Bool.false_eq_true, imp_false, Bool.not_eq_true]

theorem status_mapResponse_eq_iff (resp : Response) (isGrpc : Bool) {code : ℕ}
    (hcode : 300 ≤ code) :
    (mapResponse canonicalReason resp isGrpc).status = code ↔
      resp.status = code ∧ PassesOn isGrpc resp := by
  unfold mapResponse PassesOn
  split_ifs with hsame
  · refine ⟨fun h ↦ ⟨h, fun hgrpc ↦ ?_⟩, fun h ↦ h.1⟩
    -- a failure that is left alone for a gRPC client speaks gRPC already
    have hfails : ¬resp.status < 300 := by omega
    simpa [hgrpc, hfails] using hsame
  · simp only [Bool.or_eq_true, not_or, Bool.not_eq_true', Bool.not_eq_false] at hsame
    refine ⟨fun h ↦ ?_, fun h ↦ absurd (h.2 hsame.1.1) hsame.2⟩
    have hok : (200 : ℕ) = code := h
    omega

theorem passesOn_congr {resp resp' : Response} (isGrpc : Bool)
    (hstatus : resp.headers.getAll "grpc-status" = resp'.headers.getAll "grpc-status")
    (htype : resp.headers.getAll "content-type" = resp'.headers.getAll "content-type") :
    PassesOn isGrpc resp ↔ PassesOn isGrpc resp' := by
  simp only [PassesOn, isGrpcResponse, hasGrpcContentType, getStr, containsKey_eq_isSome_get,
    get_eq_head?, hstatus, htype]

end Grpc

end Hypershunt
