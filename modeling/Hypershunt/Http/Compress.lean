import Hypershunt.Http.Message

/-!
# Compression

`compress.rs`: which encoding a client accepts, which responses are worth encoding, and the change
of headers that goes with it. The codecs themselves are a parameter.
-/

namespace Hypershunt

namespace Compress

inductive Encoding
  | gzip
  | brotli
  | zstd
  deriving DecidableEq

def Encoding.name : Encoding → HeaderValue
  | .gzip => "gzip"
  | .brotli => "br"
  | .zstd => "zstd"

/-- The text before the first semicolon, trimmed. -/
def firstToken (entry : String) : String := Text.trim ((Text.split ';' entry).headD "")

/-- The best encoding a client accepts. Weights are not looked at. -/
def negotiate (acceptEncoding : String) : Option Encoding :=
  let tokens := (Text.split ',' acceptEncoding).map firstToken
  let accepts (name : String) : Bool := tokens.any fun t ↦ Text.eqIgnoreAsciiCase t name
  if accepts "zstd" then some .zstd
  else if accepts "br" then some .brotli
  else if accepts "gzip" then some .gzip
  else none

def isCompressible (contentType : String) : Bool :=
  let ct := firstToken contentType
  Text.startsWith "text/" ct ||
    ["application/json", "application/javascript", "application/ecmascript", "application/xml",
      "application/xhtml+xml", "application/wasm", "application/manifest+json",
      "image/svg+xml"].contains ct

def minSize : ℕ := 1024

/-- The headers of an encoded response. -/
def encodedHeaders (h : HeaderMap) (enc : Encoding) : HeaderMap :=
  ((h.remove "content-length").insert "content-encoding" enc.name).insert "vary" "Accept-Encoding"

/-- `maybe_compress`. The codec may fail, and so may reading the body. -/
def maybeCompress (encode : Encoding → List UInt8 → Option (List UInt8)) (resp : Response)
    (encoding : Option Encoding) : Response :=
  match encoding with
  | none => resp
  | some enc =>
    if resp.headers.containsKey "content-encoding" then resp
    else if !((resp.headers.getStr "content-type").map isCompressible).getD false then resp
    else
      match resp.body with
      | none => { resp with body := some [] }
      | some data =>
        if data.length < minSize then resp
        else
          match encode enc data with
          | none => resp
          | some compressed =>
            { resp with headers := encodedHeaders resp.headers enc, body := some compressed }

variable {encode : Encoding → List UInt8 → Option (List UInt8)} {resp : Response}
  {encoding : Option Encoding}

/-- Compression changes nothing but the body and the headers that describe it. -/
theorem maybeCompress_spec :
    (maybeCompress encode resp encoding).status = resp.status ∧
      ∀ n ∉ ["content-length", "content-encoding", "vary"],
        (maybeCompress encode resp encoding).headers.getAll n = resp.headers.getAll n := by
  unfold maybeCompress
  split
  · exact ⟨rfl, fun _ _ ↦ rfl⟩
  split_ifs
  · exact ⟨rfl, fun _ _ ↦ rfl⟩
  · exact ⟨rfl, fun _ _ ↦ rfl⟩
  split
  · exact ⟨rfl, fun _ _ ↦ rfl⟩
  split_ifs
  · exact ⟨rfl, fun _ _ ↦ rfl⟩
  split
  · exact ⟨rfl, fun _ _ ↦ rfl⟩
  · refine ⟨rfl, fun n hn ↦ ?_⟩
    simp only [List.mem_cons, List.not_mem_nil, or_false, not_or] at hn
    obtain ⟨hlength, hencoding, hvary⟩ := hn
    rw [encodedHeaders, HeaderMap.getAll_insert_of_ne hvary,
      HeaderMap.getAll_insert_of_ne hencoding, HeaderMap.getAll_remove_of_ne hlength]

end Compress

end Hypershunt
