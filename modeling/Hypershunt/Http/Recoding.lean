import Hypershunt.Http.Compress
import Hypershunt.Http.FieldList

/-!
# What compression does to a response

The body is replaced by an encoded one, and `Content-Encoding` says how to get it back. Two more
headers speak about the body. `Content-Range` counts the bytes of a part of a file, and it counts
those that are delivered: it is left as it was. `Vary` names what the response depends on, to which
the encodings that the client accepts are now added: they replace what was there.

So an encoded response keeps its meaning exactly if it depended on nothing else and was not a range
that has now another length (`meaningful_iff`). Its contents can be had back in every case.
-/

namespace Hypershunt

open List Option

namespace Compress

open HeaderMap

/-- The body of a response with the listed encodings undone, the last one first. -/
def content (decode : String → List UInt8 → Option (List UInt8)) (resp : Response) :
    Option (List UInt8) :=
  resp.body.bind fun body ↦
    (resp.headers.list "content-encoding").reverse.foldlM (fun bytes name ↦ decode name bytes) body

/-- A text of `Content-Range` with two bounds and a length. -/
inductive RangeText : HeaderValue → ℕ → ℕ → Prop
  | mk {s s' s'' : String} {a b len : ℕ} (hs : Text.parseU64 s = some a)
      (hs' : Text.parseU64 s' = some b) (hs'' : Text.parseU64 s'' = some len) :
    RangeText ("bytes " ++ s ++ "-" ++ s' ++ "/" ++ s'') a b

/-- A part of something, from one byte to another. -/
def IsRange (resp : Response) (a b : ℕ) : Prop :=
  resp.status = 206 ∧ ∃ v ∈ resp.headers.getAll "content-range", RangeText v a b

/-- A response that says the same as another one. -/
structure Meaningful (decode : String → List UInt8 → Option (List UInt8)) (resp out : Response) :
    Prop where
  content : content decode out = content decode resp
  vary : ∀ m ∈ resp.headers.list "vary", ∃ m' ∈ out.headers.list "vary",
    Text.eqIgnoreAsciiCase m m' = true
  range : ∀ a b, IsRange resp a b → resp.body.map List.length = some (b - a + 1) →
    out.body.map List.length = some (b - a + 1)

/-- The response is encoded. -/
structure Applies (encode : Encoding → List UInt8 → Option (List UInt8)) (resp : Response)
    (encoding : Option Encoding) (enc : Encoding) (data compressed : List UInt8) : Prop where
  negotiated : encoding = some enc
  plain : resp.headers.containsKey "content-encoding" = false
  compressible : ((resp.headers.getStr "content-type").map isCompressible).getD false = true
  size : minSize ≤ data.length
  encoded : encode enc data = some compressed

variable {encode : Encoding → List UInt8 → Option (List UInt8)}
  {decode : String → List UInt8 → Option (List UInt8)} {resp : Response}
  {encoding : Option Encoding} {enc : Encoding} {data compressed : List UInt8}

theorem maybeCompress_cases (encode : Encoding → List UInt8 → Option (List UInt8))
    (encoding : Option Encoding) (hbody : resp.body = some data) :
    maybeCompress encode resp encoding = resp ∧
        (∀ enc compressed, ¬Applies encode resp encoding enc data compressed) ∨
      ∃ enc compressed, Applies encode resp encoding enc data compressed ∧
        maybeCompress encode resp encoding =
          ⟨resp.status, encodedHeaders resp.headers enc, some compressed⟩ := by
  rw [maybeCompress.eq_def]
  split
  · refine Or.inl ⟨rfl, fun enc compressed happlies ↦ ?_⟩
    cases happlies.negotiated
  rename_i enc
  by_cases hplain : resp.headers.containsKey "content-encoding" = true
  · rw [if_pos hplain]
    refine Or.inl ⟨rfl, fun enc compressed happlies ↦ ?_⟩
    rw [happlies.plain] at hplain
    cases hplain
  rw [if_neg hplain]
  by_cases htype : ((resp.headers.getStr "content-type").map isCompressible).getD false = true
  swap
  · rw [if_pos (by simpa using htype)]
    exact Or.inl ⟨rfl, fun enc compressed happlies ↦ htype happlies.compressible⟩
  rw [if_neg (by simpa using htype), hbody]
  dsimp only
  by_cases hsize : data.length < minSize
  · rw [if_pos hsize]
    exact Or.inl ⟨rfl, fun enc compressed happlies ↦ absurd hsize (not_lt.mpr happlies.size)⟩
  rw [if_neg hsize]
  split
  · rename_i hencode
    refine Or.inl ⟨rfl, fun enc' compressed happlies ↦ ?_⟩
    have hencoded := happlies.encoded
    rw [← some.inj happlies.negotiated, hencode] at hencoded
    cases hencoded
  · rename_i compressed hencode
    exact Or.inr ⟨enc, compressed,
      ⟨rfl, Bool.eq_false_iff.mpr hplain, htype, not_lt.mp hsize, hencode⟩, rfl⟩

theorem content_of_plain (hplain : resp.headers.containsKey "content-encoding" = false) :
    content decode resp = resp.body := by
  have hnone : resp.headers.getAll "content-encoding" = [] := by
    rw [containsKey_eq_isSome_get, isSome_eq_false_iff, isNone_iff_eq_none] at hplain
    exact get_eq_none_iff.mp hplain
  rw [content, list, hnone]
  exact bind_fun_some _

theorem list_encodedHeaders_encoding (h : HeaderMap) (enc : Encoding) :
    (encodedHeaders h enc).list "content-encoding" = [enc.name] := by
  rw [list, encodedHeaders, getAll_insert_of_ne (by decide),
    getAll_insert_self]
  cases enc <;> decide +kernel

theorem list_encodedHeaders_vary (h : HeaderMap) (enc : Encoding) :
    (encodedHeaders h enc).list "vary" = ["Accept-Encoding"] := by
  rw [list, encodedHeaders, getAll_insert_self]
  decide +kernel

/-- What `Content-Encoding` says about an encoded response is right. -/
theorem content_encoded
    (hcodec : ∀ enc data compressed, encode enc data = some compressed →
      decode enc.name compressed = some data)
    (happlies : Applies encode resp encoding enc data compressed) :
    content decode ⟨resp.status, encodedHeaders resp.headers enc, some compressed⟩ = some data := by
  rw [content, list_encodedHeaders_encoding]
  change decode enc.name compressed >>= pure = some data
  rw [hcodec enc data compressed happlies.encoded]
  rfl

/-- **Compression keeps the meaning of a response exactly if what it encodes depends on no other
headers and is not a range of another length then.** -/
theorem meaningful_iff
    (hcodec : ∀ enc data compressed, encode enc data = some compressed →
      decode enc.name compressed = some data)
    (hbody : resp.body = some data) :
    Meaningful decode resp (maybeCompress encode resp encoding) ↔
      ∀ enc compressed, Applies encode resp encoding enc data compressed →
        (∀ m ∈ resp.headers.list "vary", Text.eqIgnoreAsciiCase m "Accept-Encoding" = true) ∧
        ∀ a b, IsRange resp a b → data.length = b - a + 1 → compressed.length = data.length := by
  rcases maybeCompress_cases encode encoding hbody with
    ⟨hsame, hnot⟩ | ⟨enc, compressed, happlies, hout⟩
  · rw [hsame]
    refine ⟨fun _ enc compressed happlies ↦ absurd happlies (hnot enc compressed), fun _ ↦ ?_⟩
    exact ⟨rfl, fun m hm ↦ ⟨m, hm, beq_self_eq_true _⟩, fun _ _ _ hlength ↦ hlength⟩
  rw [hout]
  constructor
  · intro hmeaning enc' compressed' happlies'
    -- there is one encoding, and one body
    obtain rfl : enc = enc' := some.inj (happlies.negotiated.symm.trans happlies'.negotiated)
    obtain rfl : compressed = compressed' :=
      some.inj (happlies.encoded.symm.trans happlies'.encoded)
    refine ⟨fun m hm ↦ ?_, fun a b hrange hlength ↦ ?_⟩
    · obtain ⟨m', hm', heq⟩ := hmeaning.vary m hm
      rw [list_encodedHeaders_vary, mem_singleton] at hm'
      rwa [hm'] at heq
    · have hout := hmeaning.range a b hrange (by rw [hbody, map_some, hlength])
      rw [map_some, some.injEq] at hout
      rw [hout, hlength]
  · intro hall
    obtain ⟨hvary, hrange⟩ := hall enc compressed happlies
    refine ⟨?_, fun m hm ↦ ⟨"Accept-Encoding", ?_, hvary m hm⟩, fun a b hpart hlength ↦ ?_⟩
    · rw [content_encoded hcodec happlies, content_of_plain happlies.plain, hbody]
    · rw [list_encodedHeaders_vary]
      exact mem_singleton_self _
    · rw [hbody, map_some, some.injEq] at hlength
      rw [map_some, hrange a b hpart hlength, hlength]

/-! ## A page that depends on a cookie -/

private def mark (_ : Encoding) (data : List UInt8) : Option (List UInt8) := some (0 :: data)

private def unmark (_ : String) (bytes : List UInt8) : Option (List UInt8) := some bytes.tail

private theorem unmark_mark : ∀ enc data compressed, mark enc data = some compressed →
    unmark enc.name compressed = some data := by
  intro enc data compressed h
  cases h
  rfl

private def textPage (status : ℕ) (lines : HeaderMap) : Response :=
  ⟨status, ("content-type", "text/plain") :: lines, some (List.replicate 1024 0x61)⟩

theorem plain_page_meaningful :
    (textPage 200 []).body = some (List.replicate 1024 0x61) ∧
      Meaningful unmark (textPage 200 []) (maybeCompress mark (textPage 200 []) (some .gzip)) := by
  refine ⟨rfl, (meaningful_iff unmark_mark rfl).mpr fun enc compressed _ ↦ ⟨?_, ?_⟩⟩
  · intro m hm
    have hnone : (textPage 200 []).headers.list "vary" = [] := by decide +kernel
    rw [hnone] at hm
    exact absurd hm not_mem_nil
  · rintro a b ⟨hstatus, -⟩
    cases hstatus

/-- A range of a page that depends on a cookie: the cookie is forgotten, and its length is wrong. -/
theorem cookie_and_range_lost :
    (maybeCompress mark (textPage 206 [("vary", "Cookie"),
        ("content-range", "bytes 0-1023/2048")]) (some .gzip)).headers.list "vary" =
        ["Accept-Encoding"] ∧
      (maybeCompress mark (textPage 206 [("vary", "Cookie"),
        ("content-range", "bytes 0-1023/2048")]) (some .gzip)).body.map List.length = some 1025 ∧
      ¬Meaningful unmark (textPage 206 [("vary", "Cookie"), ("content-range", "bytes 0-1023/2048")])
        (maybeCompress mark (textPage 206 [("vary", "Cookie"),
          ("content-range", "bytes 0-1023/2048")]) (some .gzip)) := by
  have hvary : (maybeCompress mark (textPage 206 [("vary", "Cookie"),
      ("content-range", "bytes 0-1023/2048")]) (some .gzip)).headers.list "vary" =
      ["Accept-Encoding"] := by
    decide +kernel
  refine ⟨hvary, by decide +kernel, fun hmeaning ↦ ?_⟩
  obtain ⟨m', hm', heq⟩ := hmeaning.vary "Cookie" (by decide +kernel)
  rw [hvary, mem_singleton] at hm'
  rw [hm'] at heq
  exact absurd heq (by decide +kernel)

end Compress

end Hypershunt
