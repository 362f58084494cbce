import Hypershunt.Foundation.Fallible
import Hypershunt.Http.Message

/-!
# Responses of CGI programs

`parse_cgi_response` of `handler/cgi_util.rs` makes an HTTP response of what a CGI program, FastCGI
or SCGI server has written: header lines, an empty line, and the body.

## Where the header ends

`find_header_boundary` looks for `\r\n\r\n` in all of the output before it looks for `\n\n`, so that
a body can move the boundary: after lines that end in `\n`, its first `\r\n\r\n` ends the header.
The boundary is the first empty line exactly when both line ends there are alike, and, where
they are `\n`, no `\r\n\r\n` occurs anywhere (`boundary_iff`).

## Where it panics

A line is passed to the builder of the response as it is, and the builder keeps an error for the
`expect` at the end. The program decides whether there is one (`parseCgiResponse_ne_panic_iff`).
-/

namespace Hypershunt

open List Option

namespace Cgi

open Text HeaderName HeaderValue

/-! ## The boundary -/

section Search

variable {α : Type} [DecidableEq α]

/-- `find_subsequence`, for a needle that is not empty. -/
def findSubsequence (haystack needle : List α) : Option ℕ :=
  haystack.tails.findIdx? fun tail ↦ needle.isPrefixOf tail

variable {haystack needle : List α} {i : ℕ}

theorem findSubsequence_eq_some_iff : findSubsequence haystack needle = some i ↔
    (∃ a b, haystack = a ++ (needle ++ b) ∧ a.length = i) ∧
      ∀ a b, haystack = a ++ (needle ++ b) → i ≤ a.length := by
  rw [findSubsequence, findIdx?_eq_some_iff_getElem]
  simp only [length_tails, getElem_tails, isPrefixOf_iff_prefix, exists_prop, Nat.lt_succ_iff]
  constructor
  · rintro ⟨hi, ⟨b, hb⟩, hfirst⟩
    refine ⟨⟨haystack.take i, b, by rw [hb, take_append_drop], length_take_of_le hi⟩, ?_⟩
    rintro a b' rfl
    by_contra hlt
    exact hfirst a.length (not_le.mp hlt) ⟨b', drop_left.symm⟩
  · rintro ⟨⟨a, b, rfl, rfl⟩, hfirst⟩
    refine ⟨by simp, ⟨b, drop_left.symm⟩, fun j hj ⟨b', hb'⟩ ↦ ?_⟩
    have hle := hfirst ((a ++ (needle ++ b)).take j) b' (by rw [hb', take_append_drop])
    exact absurd (hle.trans (length_take_le j _)) (not_le.mpr hj)

omit [DecidableEq α] in
theorem drop_occurrence (a needle b : List α) :
    (a ++ (needle ++ b)).drop (a.length + needle.length) = b := by
  rw [← append_assoc, drop_left' length_append]

theorem exists_of_findSubsequence (h : findSubsequence haystack needle = some i) :
    ∃ a b, haystack = a ++ (needle ++ b) ∧ haystack.take i = a ∧
      haystack.drop (i + needle.length) = b := by
  obtain ⟨⟨a, b, rfl, rfl⟩, -⟩ := findSubsequence_eq_some_iff.mp h
  exact ⟨a, b, rfl, take_left, drop_occurrence a needle b⟩

theorem findSubsequence_eq_none_iff : findSubsequence haystack needle = none ↔
    ∀ a b, haystack ≠ a ++ (needle ++ b) := by
  rw [findSubsequence, findIdx?_eq_none_iff]
  simp only [mem_tails, ← Bool.not_eq_true, isPrefixOf_iff_prefix]
  constructor
  · rintro h a b rfl
    exact h (needle ++ b) (suffix_append _ _) (prefix_append _ _)
  · rintro h _ ⟨a, rfl⟩ ⟨b, rfl⟩
    exact h a b rfl

end Search

def crlf : List UInt8 := [0x0d, 0x0a]

def lf : List UInt8 := [0x0a]

/-- The header and the body of a response. -/
def findHeaderBoundary (data : List UInt8) : Option (List UInt8 × List UInt8) :=
  match findSubsequence data (crlf ++ crlf) with
  | some i => some (data.take i, data.drop (i + 4))
  | none => match findSubsequence data (lf ++ lf) with
    | some i => some (data.take i, data.drop (i + 2))
    | none => none

/-- An empty line: what is before it, its own text and what is after it. -/
structure BlankLine (data before ending body : List UInt8) : Prop where
  eq : data = before ++ (ending ++ body)
  ending : ending = lf ∨ ending = crlf
  start : before = [] ∨ lf <:+ before

/-- The first empty line. -/
structure FirstBlankLine (data before ending body : List UInt8) : Prop
    extends BlankLine data before ending body where
  le : ∀ {before' ending' body'}, BlankLine data before' ending' body' →
    before.length ≤ before'.length

/-- The header is what comes before the first empty line, but for the end of its last line, and the
body what comes after it. -/
def Boundary (data : List UInt8) : Option (List UInt8 × List UInt8) → Prop
  | some (header, body) => ∃ lineEnd ending,
      FirstBlankLine data (header ++ lineEnd) ending body ∧
        (lineEnd = lf ∨ lineEnd = crlf ∨ header ++ lineEnd = [])
  | none => ∀ before ending body, ¬BlankLine data before ending body

/-- No line is empty, or the first that is ends as the line before it does, and if that is a line
feed alone then the longer separator does not occur. -/
def PlainBoundary (data : List UInt8) : Prop :=
  (∀ before ending body, ¬BlankLine data before ending body) ∨
    (∃ header body, FirstBlankLine data (header ++ crlf) crlf body) ∨
    ∃ header body, FirstBlankLine data (header ++ lf) lf body ∧
      ∀ a b, data ≠ a ++ (crlf ++ crlf ++ b)

section Boundary

variable {data before ending header body : List UInt8}

theorem blankLine_of_separator {e a b : List UInt8} (he : e = lf ∨ e = crlf)
    (h : data = a ++ (e ++ e ++ b)) : BlankLine data (a ++ e) e b where
  eq := by rw [h, append_assoc, append_assoc]
  ending := he
  start := by
    refine Or.inr (List.IsSuffix.trans ?_ (suffix_append a e))
    rcases he with rfl | rfl
    · exact suffix_rfl
    · exact ⟨[0x0d], rfl⟩

/-- The first doubled line end is at the first empty line, if the line before ends alike. -/
theorem findSubsequence_separator {e : List UInt8} (h : FirstBlankLine data (header ++ e) e body) :
    findSubsequence data (e ++ e) = some header.length ∧ data.take header.length = header ∧
      data.drop (header.length + (e ++ e).length) = body := by
  have hdata : data = header ++ (e ++ e ++ body) := by
    rw [h.eq, append_assoc, append_assoc]
  refine ⟨findSubsequence_eq_some_iff.mpr ⟨⟨header, body, hdata, rfl⟩, fun a b hab ↦ ?_⟩, ?_, ?_⟩
  · have hle := h.le (blankLine_of_separator h.ending hab)
    rwa [length_append, length_append, Nat.add_le_add_iff_right] at hle
  · rw [hdata, take_left]
  · rw [hdata, drop_occurrence]

theorem findHeaderBoundary_of_crlf (h : FirstBlankLine data (header ++ crlf) crlf body) :
    findHeaderBoundary data = some (header, body) := by
  obtain ⟨hfind, htake, hdrop⟩ := findSubsequence_separator h
  rw [findHeaderBoundary, hfind]
  exact congrArg some (Prod.ext htake hdrop)

theorem findHeaderBoundary_of_lf (h : FirstBlankLine data (header ++ lf) lf body)
    (hcrlf : ∀ a b, data ≠ a ++ (crlf ++ crlf ++ b)) :
    findHeaderBoundary data = some (header, body) := by
  obtain ⟨hfind, htake, hdrop⟩ := findSubsequence_separator h
  rw [findHeaderBoundary, findSubsequence_eq_none_iff.mpr hcrlf, hfind]
  exact congrArg some (Prod.ext htake hdrop)

theorem findHeaderBoundary_of_no_blankLine
    (h : ∀ before ending body, ¬BlankLine data before ending body) :
    findHeaderBoundary data = none := by
  rw [findHeaderBoundary,
    findSubsequence_eq_none_iff.mpr fun a b hab ↦ h _ _ _ (blankLine_of_separator (Or.inr rfl) hab),
    findSubsequence_eq_none_iff.mpr fun a b hab ↦ h _ _ _ (blankLine_of_separator (Or.inl rfl) hab)]

/-- What was found is a separator, the shorter one only when the other does not occur. -/
theorem findHeaderBoundary_eq_some (h : findHeaderBoundary data = some (header, body)) :
    data = header ++ (crlf ++ crlf ++ body) ∨
      data = header ++ (lf ++ lf ++ body) ∧ ∀ a b, data ≠ a ++ (crlf ++ crlf ++ b) := by
  rw [findHeaderBoundary] at h
  rcases hcrlf : findSubsequence data (crlf ++ crlf) with _ | i
  · rw [hcrlf] at h
    rcases hlf : findSubsequence data (lf ++ lf) with _ | i
    · rw [hlf] at h
      exact nomatch h
    · rw [hlf] at h
      obtain ⟨a, b, hdata, ha, hb⟩ := exists_of_findSubsequence hlf
      obtain ⟨rfl, rfl⟩ := Prod.mk.inj (some.inj h)
      exact Or.inr ⟨ha ▸ hb ▸ hdata, findSubsequence_eq_none_iff.mp hcrlf⟩
  · rw [hcrlf] at h
    obtain ⟨a, b, hdata, ha, hb⟩ := exists_of_findSubsequence hcrlf
    obtain ⟨rfl, rfl⟩ := Prod.mk.inj (some.inj h)
    exact Or.inl (ha ▸ hb ▸ hdata)

/-- A separator splits into two line ends in one way. -/
theorem even_split : ∀ e ∈ [lf, crlf], ∀ lineEnd ∈ [lf, crlf, []], ∀ ending ∈ [lf, crlf],
    e ++ e = lineEnd ++ ending → lineEnd = e ∧ ending = e := by
  decide

/-- The line end before the boundary that was found and the empty line are the separator. -/
theorem plainBoundary_of_boundary (h : Boundary data (findHeaderBoundary data)) :
    PlainBoundary data := by
  rcases hfound : findHeaderBoundary data with _ | ⟨header, body⟩
  · rw [hfound] at h
    exact Or.inl h
  · rw [hfound] at h
    obtain ⟨lineEnd, ending, hfirst, hend⟩ := h
    have heq := hfirst.eq
    rw [append_assoc] at heq
    have hlineEnd : lineEnd ∈ [lf, crlf, []] := by
      rcases hend with rfl | rfl | hnil
      · decide
      · decide
      · simp [(append_eq_nil_iff.mp hnil).2]
    have hending : ending ∈ [lf, crlf] := by simpa using hfirst.ending
    rcases findHeaderBoundary_eq_some hfound with hcrlf | ⟨hlf, hno⟩
    · rw [hcrlf, append_cancel_left_eq, ← append_assoc, append_cancel_right_eq] at heq
      obtain ⟨rfl, rfl⟩ := even_split crlf (by decide) lineEnd hlineEnd ending hending heq
      exact Or.inr (Or.inl ⟨header, body, hfirst⟩)
    · rw [hlf, append_cancel_left_eq, ← append_assoc, append_cancel_right_eq] at heq
      obtain ⟨rfl, rfl⟩ := even_split lf (by decide) lineEnd hlineEnd ending hending heq
      exact Or.inr (Or.inr ⟨header, body, hfirst, hno⟩)

theorem boundary_of_plainBoundary (h : PlainBoundary data) :
    Boundary data (findHeaderBoundary data) := by
  rcases h with hno | ⟨header, body, hfirst⟩ | ⟨header, body, hfirst, hno⟩
  · rw [findHeaderBoundary_of_no_blankLine hno]
    exact hno
  · rw [findHeaderBoundary_of_crlf hfirst]
    exact ⟨crlf, crlf, hfirst, Or.inr (Or.inl rfl)⟩
  · rw [findHeaderBoundary_of_lf hfirst hno]
    exact ⟨lf, lf, hfirst, Or.inl rfl⟩

theorem FirstBlankLine.unique {before' ending' body' : List UInt8}
    (h : FirstBlankLine data before ending body)
    (h' : FirstBlankLine data before' ending' body') :
    before = before' ∧ ending = ending' ∧ body = body' := by
  have hbefore : before = before' := by
    have hlength : before.length = before'.length :=
      le_antisymm (h.le h'.toBlankLine) (h'.le h.toBlankLine)
    exact (append_inj (h.eq.symm.trans h'.eq) hlength).1
  refine ⟨hbefore, ?_⟩
  have heq := h.eq.symm.trans h'.eq
  rw [hbefore, append_cancel_left_eq] at heq
  rcases h.ending with rfl | rfl <;> rcases h'.ending with rfl | rfl
  · exact ⟨rfl, append_cancel_left heq⟩
  · exact absurd (List.cons.inj heq).1 (by decide)
  · exact absurd (List.cons.inj heq).1 (by decide)
  · exact ⟨rfl, append_cancel_left heq⟩

/-- The header that is found is what is before the empty line, without the line end. -/
theorem findHeaderBoundary_of_plainBoundary (h : PlainBoundary data)
    (hfirst : FirstBlankLine data before ending body) :
    findHeaderBoundary data = some (before.take (before.length - ending.length), body) := by
  rcases h with hno | ⟨header, body', hcrlf⟩ | ⟨header, body', hlf, hno⟩
  · exact absurd hfirst.toBlankLine (hno _ _ _)
  · obtain ⟨rfl, rfl, rfl⟩ := hfirst.unique hcrlf
    rw [findHeaderBoundary_of_crlf hcrlf, length_append, Nat.add_sub_cancel, take_left]
  · obtain ⟨rfl, rfl, rfl⟩ := hfirst.unique hlf
    rw [findHeaderBoundary_of_lf hlf hno, length_append, Nat.add_sub_cancel, take_left]

end Boundary

/-- **The boundary is the first empty line exactly when it is a plain one.** -/
theorem boundary_iff (data : List UInt8) :
    (Boundary data (findHeaderBoundary data) ↔ PlainBoundary data) ∧
      ∀ before ending body, FirstBlankLine data before ending body → PlainBoundary data →
        findHeaderBoundary data = some (before.take (before.length - ending.length), body) :=
  ⟨⟨plainBoundary_of_boundary, boundary_of_plainBoundary⟩,
    fun _ _ _ hfirst h ↦ findHeaderBoundary_of_plainBoundary h hfirst⟩

/-! ## The lines of the header -/

/-- What is used of the libraries. -/
structure Library where
  /-- The debug format of a text. -/
  debug : String → String
  /-- Whether the last of these names can be added to a header map that has the others. -/
  takes : List HeaderName → Bool

/-- A status and the headers of the builder, which keeps the first error instead. -/
structure Head where
  status : ℕ
  headers : Option HeaderMap
  deriving DecidableEq

variable (x : Library)

/-- `Builder::header`. -/
def addHeader (headers : Option HeaderMap) (line : String × String) : Option HeaderMap :=
  headers.bind fun h ↦ (fromBytes (toAsciiLowercase line.1)).bind fun name ↦
    (fromStr line.2).bind fun value ↦
      if x.takes (h.map Prod.fst ++ [name]) then some (h.append name value) else none

/-- The code of a `Status` line. -/
def statusCode (val : String) : Except String ℕ :=
  match (splitWhitespace val).head?.bind parseU16 with
  | none => .error ("malformed Status header: " ++ x.debug val)
  | some code =>
    if 100 ≤ code ∧ code < 1000 then .ok code.toNat
    else .error ("invalid HTTP status code " ++ Nat.repr code.toNat)

/-- The body of the loop over the lines. -/
def parseLine (head : Head) (line : String) : Except String Head :=
  let line := trim line
  if line = "" then .ok head
  else match splitOnce ':' line with
    | none => .error ("malformed CGI header line: " ++ x.debug line)
    | some (key, val) =>
      if eqIgnoreAsciiCase (trim key) "status" then
        (statusCode x (trim val)).map fun code ↦ { head with status := code }
      else .ok { head with headers := addHeader x head.headers (trim key, trim val) }

/-- `parse_cgi_response`; nothing for the panic at its end. -/
def parseCgiResponse (stdout : List UInt8) : Option (Except String Response) :=
  match findHeaderBoundary stdout with
  | none => some (.error "CGI response has no header/body separator")
  | some (headerBytes, body) => match fromUtf8 headerBytes with
    | none => some (.error "CGI response headers are not UTF-8")
    | some text => match (lines text).foldlM (parseLine x) ⟨200, some []⟩ with
      | .error e => some (.error e)
      | .ok head => head.headers.map fun headers ↦ .ok ⟨head.status, headers, some body⟩

/-- A library whose header maps are never full. -/
private def Library.roomy : Library := ⟨fun s ↦ "\"" ++ s ++ "\"", fun _ ↦ true⟩

/-- A header with line feeds, and a body that has the longer separator. -/
private def unixOutput : List UInt8 :=
  bytes "Content-Type: text/plain\n\nStatus: 500\r\n\r\nrest"

/-- The body sets the status. -/
theorem body_moves_boundary :
    findHeaderBoundary unixOutput =
        some (bytes "Content-Type: text/plain\n\nStatus: 500", bytes "rest") ∧
      ¬Boundary unixOutput (findHeaderBoundary unixOutput) ∧
      parseCgiResponse Library.roomy unixOutput =
        some (.ok ⟨500, [("content-type", "text/plain")], some (bytes "rest")⟩) := by
  have hfound : findHeaderBoundary unixOutput =
      some (bytes "Content-Type: text/plain\n\nStatus: 500", bytes "rest") := by
    decide +kernel
  have hblank : BlankLine unixOutput (bytes "Content-Type: text/plain\n") lf
      (bytes "Status: 500\r\n\r\nrest") :=
    ⟨by decide +kernel, Or.inl rfl, Or.inr (by decide +kernel)⟩
  refine ⟨hfound, fun h ↦ ?_, by decide +kernel⟩
  rw [hfound] at h
  obtain ⟨lineEnd, ending, hfirst, -⟩ := h
  have hle := hfirst.le hblank
  rw [length_append] at hle
  exact absurd ((Nat.le_add_right _ _).trans hle) (by decide +kernel)

/-! ## Panics -/

/-- A line that is not an error: empty, or with a colon, and with a code if it is the status. -/
def ReadableLine (line : String) : Prop :=
  trim line = "" ∨ ∃ key val, splitOnce ':' (trim line) = some (key, val) ∧
    (eqIgnoreAsciiCase (trim key) "status" = true →
      ∃ code, (splitWhitespace (trim val)).head?.bind parseU16 = some code ∧
        100 ≤ code ∧ code < 1000)

/-- The name and the value of a line that is passed on. -/
def lineHeader (line : String) : Option (String × String) :=
  if trim line = "" then none
  else (splitOnce ':' (trim line)).bind fun (key, val) ↦
    if eqIgnoreAsciiCase (trim key) "status" then none
    else some (trim key, trim val)

/-- The headers that the lines of a text are to become. -/
def headerLines (text : String) : List (String × String) := (lines text).filterMap lineHeader

/-- A name that is a token and a value without control characters. -/
def ValidHeader (line : String × String) : Prop :=
  (fromBytes (toAsciiLowercase line.1)).isSome ∧ (fromStr line.2).isSome

section Lines

variable {x : Library} {line : String} {ls : List String} {h : HeaderMap}
  {kv : String × String} {kvs : List (String × String)}

theorem statusCode_isOk_iff {val : String} : (∃ code, statusCode x val = .ok code) ↔
    ∃ code, (splitWhitespace val).head?.bind parseU16 = some code ∧
      100 ≤ code ∧ code < 1000 := by
  rw [statusCode.eq_def]
  split
  · rename_i hnone
    simp [hnone]
  · rename_i code hcode
    rw [hcode]
    split_ifs with hrange
    · exact iff_of_true ⟨_, rfl⟩ ⟨code, rfl, hrange⟩
    · refine iff_of_false (fun ⟨_, h⟩ ↦ nomatch h) ?_
      rintro ⟨code', hcode', h⟩
      exact hrange (some.inj hcode' ▸ h)

theorem parseLine_of_readable (head : Head) (hline : ReadableLine line) :
    ∃ status, parseLine x head line =
      .ok ⟨status, (lineHeader line).elim head.headers (addHeader x head.headers)⟩ := by
  by_cases hempty : trim line = ""
  · simp only [parseLine, lineHeader, if_pos hempty]
    exact ⟨head.status, rfl⟩
  · obtain ⟨key, val, hsplit, hstatus⟩ := hline.resolve_left hempty
    simp only [parseLine, lineHeader, if_neg hempty, hsplit, bind_some]
    by_cases hkey : eqIgnoreAsciiCase (trim key) "status" = true
    · obtain ⟨code, hcode⟩ := statusCode_isOk_iff.mpr (hstatus hkey)
      rw [if_pos hkey, if_pos hkey, hcode]
      exact ⟨code, rfl⟩
    · rw [if_neg hkey, if_neg hkey]
      exact ⟨head.status, rfl⟩

theorem parseLine_of_not_readable (head : Head) (hline : ¬ReadableLine line) :
    ∃ e, parseLine x head line = .error e := by
  rw [ReadableLine, not_or] at hline
  simp only [parseLine, if_neg hline.1]
  split
  · exact ⟨_, rfl⟩
  · rename_i key val hsplit
    have hbad := not_exists.mp (not_exists.mp hline.2 key) val
    rw [not_and, Classical.not_imp] at hbad
    obtain ⟨hkey, hcode⟩ := hbad hsplit
    rw [if_pos hkey]
    rw [← statusCode_isOk_iff (x := x)] at hcode
    rcases hresult : statusCode x (trim val) with e | code
    · exact ⟨e, rfl⟩
    · exact absurd ⟨code, hresult⟩ hcode

theorem foldlM_parseLine_of_readable (head : Head) (hls : ∀ line ∈ ls, ReadableLine line) :
    ∃ status, ls.foldlM (parseLine x) head =
      .ok ⟨status, (ls.filterMap lineHeader).foldl (addHeader x) head.headers⟩ := by
  induction ls generalizing head with
  | nil => exact ⟨head.status, rfl⟩
  | cons line ls ih =>
    obtain ⟨hline, hls⟩ := forall_mem_cons.mp hls
    obtain ⟨status, hstep⟩ := parseLine_of_readable (x := x) head hline
    obtain ⟨status', hrest⟩ := ih ⟨status, _⟩ hls
    refine ⟨status', ?_⟩
    rw [foldlM_cons, hstep]
    change ls.foldlM (parseLine x) ⟨status, _⟩ = _
    rw [hrest, filterMap_cons]
    rcases lineHeader line with _ | kv <;> rfl

theorem foldlM_parseLine_of_not_readable (head : Head) (hls : ¬∀ line ∈ ls, ReadableLine line) :
    ∃ e, ls.foldlM (parseLine x) head = .error e := by
  induction ls generalizing head with
  | nil => exact absurd (by simp) hls
  | cons line ls ih =>
    rw [foldlM_cons]
    by_cases hline : ReadableLine line
    · obtain ⟨status, hstep⟩ := parseLine_of_readable (x := x) head hline
      rw [hstep]
      exact ih _ fun hrest ↦ hls (forall_mem_cons.mpr ⟨hline, hrest⟩)
    · obtain ⟨e, hstep⟩ := parseLine_of_not_readable (x := x) head hline
      rw [hstep]
      exact ⟨e, rfl⟩

theorem foldl_addHeader_none : kvs.foldl (addHeader x) none = none := by
  induction kvs with
  | nil => rfl
  | cons kv kvs ih => exact ih

/-- A line is added when it makes a header and there is room for it. -/
theorem addHeader_some_isSome_iff : (addHeader x (some h) kv).isSome ↔
    ValidHeader kv ∧ x.takes (h.map Prod.fst ++ [toAsciiLowercase kv.1]) = true := by
  rw [addHeader, bind_some, ValidHeader, fromBytes]
  split_ifs with hname
  · rcases hvalue : fromStr kv.2 with _ | value
    · simp
    · by_cases htakes : x.takes (h.map Prod.fst ++ [toAsciiLowercase kv.1]) = true <;>
        simp [htakes]
  · simp

theorem map_fst_of_addHeader {h' : HeaderMap} (hadd : addHeader x (some h) kv = some h') :
    h'.map Prod.fst = h.map Prod.fst ++ [toAsciiLowercase kv.1] := by
  rw [addHeader, bind_some] at hadd
  obtain ⟨name, hname, hadd⟩ := bind_eq_some_iff.mp hadd
  obtain ⟨value, -, hadd⟩ := bind_eq_some_iff.mp hadd
  rw [fromBytes, ite_none_right_eq_some, some.injEq] at hname
  rw [ite_none_right_eq_some, some.injEq] at hadd
  rw [← hadd.2, ← hname.2, HeaderMap.append, map_append]
  rfl

/-- The builder has no error when all lines are valid and there is room for each. -/
theorem foldl_addHeader_isSome_iff : (kvs.foldl (addHeader x) (some h)).isSome ↔
    (∀ kv ∈ kvs, ValidHeader kv) ∧ ∀ k < kvs.length,
      x.takes (h.map Prod.fst ++
        (kvs.map fun kv ↦ toAsciiLowercase kv.1).take (k + 1)) = true := by
  induction kvs generalizing h with
  | nil => simp
  | cons kv kvs ih =>
    rw [foldl_cons, forall_mem_cons, length_cons, map_cons, Nat.forall_lt_succ_left]
    simp only [take_succ_cons, take_zero]
    rcases hadd : addHeader x (some h) kv with _ | h'
    · have hnone : ¬(addHeader x (some h) kv).isSome := by simp [hadd]
      rw [foldl_addHeader_none, addHeader_some_isSome_iff] at *
      refine iff_of_false (by simp) fun hall ↦ hnone ⟨hall.1.1, hall.2.1⟩
    · have hsome : (addHeader x (some h) kv).isSome := by simp [hadd]
      obtain ⟨hvalid, htakes⟩ := addHeader_some_isSome_iff.mp hsome
      rw [ih, map_fst_of_addHeader hadd]
      simp only [append_assoc, singleton_append, hvalid, htakes, true_and]

end Lines

/-- **No panic** if the header is rejected or all of its lines make headers for which there is
room. -/
theorem parseCgiResponse_ne_panic_iff (x : Library) (stdout : List UInt8) :
    parseCgiResponse x stdout ≠ none ↔
      ∀ header body text, findHeaderBoundary stdout = some (header, body) →
        fromUtf8 header = some text → (∀ line ∈ lines text, ReadableLine line) →
        (∀ kv ∈ headerLines text, ValidHeader kv) ∧ ∀ k < (headerLines text).length,
          x.takes (((headerLines text).map fun kv ↦ toAsciiLowercase kv.1).take (k + 1)) =
            true := by
  rw [parseCgiResponse]
  rcases hfound : findHeaderBoundary stdout with _ | ⟨header, body⟩
  · exact iff_of_true (by simp) fun _ _ _ h ↦ nomatch h
  · -- the header and the text are the ones that are read
    have hread : ∀ {header' body' text'}, some (header, body) = some (header', body') →
        fromUtf8 header' = some text' → fromUtf8 header = some text' := fun h ht ↦ by
      rwa [(Prod.mk.inj (some.inj h)).1]
    rcases htext : fromUtf8 header with _ | text
    · refine iff_of_true (by simp [htext]) fun _ _ _ h ht ↦ ?_
      exact absurd (htext.symm.trans (hread h ht)) (by simp)
    · have hsame : ∀ {header' body' text'}, some (header, body) = some (header', body') →
          fromUtf8 header' = some text' → text = text' := fun h ht ↦
        some.inj (htext.symm.trans (hread h ht))
      by_cases hlines : ∀ line ∈ lines text, ReadableLine line
      · obtain ⟨status, hfold⟩ :=
          foldlM_parseLine_of_readable (x := x) ⟨200, some []⟩ hlines
        simp only [htext, hfold]
        rw [Ne, map_eq_none_iff, ← Ne, ne_none_iff_isSome, foldl_addHeader_isSome_iff]
        constructor
        · intro hall _ _ _ h ht _
          obtain rfl := hsame h ht
          exact hall
        · exact fun hall ↦ hall header body text rfl htext hlines
      · obtain ⟨e, hfold⟩ :=
          foldlM_parseLine_of_not_readable (x := x) ⟨200, some []⟩ hlines
        simp only [htext, hfold]
        refine iff_of_true (by simp) fun _ _ _ h ht hlines' ↦ ?_
        obtain rfl := hsame h ht
        exact absurd hlines' hlines

/-- A space in a name, a control character in a value. -/
theorem panic_on_invalid_header :
    parseCgiResponse Library.roomy (bytes "Bad Name: x\n\nbody") = none ∧
      parseCgiResponse Library.roomy (bytes "X-A: a\x01b\r\n\r\n") = none := by
  decide +kernel

end Cgi

end Hypershunt
