import Hypershunt.Cgi.Environment

/-!
# SCGI requests

An SCGI server gets the environment of a request as one netstring, with its length in front, and the
body after it (`build_scgi_request` of `handler/scgi.rs`). Nothing is escaped: names and values are
without the NUL that ends them, as those for a request are (`nulFree_buildCgiEnv`).
-/

namespace Hypershunt

namespace Cgi

open List Text

/-- A name and its value, each with a NUL at its end. -/
def pairBytes (v : String × String) : List UInt8 :=
  bytes v.1 ++ 0 :: (bytes v.2 ++ [0])

def appendPair (buf : List UInt8) (v : String × String) : List UInt8 := buf ++ pairBytes v

def headerBlock (env : List (String × String)) (body : List UInt8) : List UInt8 :=
  env.foldl (fun buf v ↦ if v.1 != "CONTENT_LENGTH" then appendPair buf v else buf)
    (appendPair [] ("CONTENT_LENGTH", Nat.repr body.length))

def buildScgiRequest (env : List (String × String)) (body : List UInt8) : List UInt8 :=
  let block := headerBlock env body
  bytes (Nat.repr block.length) ++ [0x3a] ++ block ++ [0x2c] ++ body

/-! ## Reading -/

/-- A decimal number without zeros in front, a colon, as many bytes, a comma, and the rest. -/
def readNetstring (bs : List UInt8) : Option (List UInt8 × List UInt8) :=
  match bs.dropWhile (· != 0x3a) with
  | [] => none
  | _ :: rest => (fromUtf8 (bs.takeWhile (· != 0x3a))).bind fun digits ↦
    let n := Numeral.value 10 digits.toList
    if Nat.repr n = digits ∧ rest[n]? = some 0x2c then some (rest.take n, rest.drop (n + 1))
    else none

/-- Names and values in turn, and nothing after the last NUL. -/
def readPairs : List (List UInt8) → Option (List (String × String))
  | [[]] => some []
  | key :: value :: rest => do
    let key ← fromUtf8 key
    let value ← fromUtf8 value
    return (key, value) :: (← readPairs rest)
  | _ => none

def readScgi (bs : List UInt8) : Option (List (String × String) × List UInt8) := do
  let (block, body) ← readNetstring bs
  return (← readPairs (block.splitOn 0), body)

/-! ## What is written is read -/

variable {env : List (String × String)} {body : List UInt8}

def NulFree (env : List (String × String)) : Prop :=
  ∀ v ∈ env, '\x00' ∉ v.1.toList ∧ '\x00' ∉ v.2.toList

theorem mem_of_mem_bytes {s : String} {b : UInt8} (hb : b.toNat < 128) (h : b ∈ bytes s) :
    Char.ofNat b.toNat ∈ s.toList := by
  rw [bytes_eq_flatMap] at h
  obtain ⟨c, hc, hmem⟩ := mem_flatMap.mp h
  by_cases hlt : c.toNat < 128
  · rw [utf8EncodeChar_of_lt hlt, mem_singleton] at hmem
    rwa [hmem, UInt8.toNat_ofNat', Nat.mod_eq_of_lt (by omega), Char.ofNat_toNat]
  · exact absurd (le_of_mem_utf8EncodeChar (not_lt.mp hlt) hmem) (not_le.mpr hb)

theorem headerBlock_eq (env : List (String × String)) (body : List UInt8) :
    headerBlock env body = (scgiHeaders env body).flatMap pairBytes := by
  rw [headerBlock, ← foldl_filter, flatMap_eq_foldl]
  rfl

theorem readPairs_splitOn (h : NulFree env) :
    readPairs ((env.flatMap pairBytes).splitOn 0) = some env := by
  induction env with
  | nil => rfl
  | cons v env ih =>
    obtain ⟨⟨hkey, hvalue⟩, henv⟩ := forall_mem_cons.mp h
    have hzero : ∀ {s : String}, '\x00' ∉ s.toList → (0 : UInt8) ∉ bytes s :=
      mt (mem_of_mem_bytes (by decide))
    -- the first two parts end with the NULs that were written for the first pair
    rw [flatMap_cons, pairBytes, append_assoc, cons_append, append_assoc,
      splitOn_append_cons_self, singleton_append, splitOn_append_cons_self,
      splitOn_eq_singleton (hzero hkey), splitOn_eq_singleton (hzero hvalue)]
    change readPairs (bytes v.1 :: bytes v.2 :: (env.flatMap pairBytes).splitOn 0) = _
    rw [readPairs, fromUtf8_bytes, fromUtf8_bytes, ih henv]
    rfl

theorem readNetstring_append (block body : List UInt8) :
    readNetstring (bytes (Nat.repr block.length) ++ [0x3a] ++ block ++ [0x2c] ++ body) =
      some (block, body) := by
  have hdigits : ∀ b ∈ bytes (Nat.repr block.length), (b != 0x3a) = true := by
    refine fun b hb ↦ bne_iff_ne.mpr ?_
    rintro rfl
    exact absurd (isDigit_of_mem_repr (mem_of_mem_bytes (by decide) hb)) (by decide)
  have htext : bytes (Nat.repr block.length) ++ [0x3a] ++ block ++ [0x2c] ++ body =
      bytes (Nat.repr block.length) ++ 0x3a :: (block ++ 0x2c :: body) := by simp
  rw [htext, readNetstring, dropWhile_append_of_pos hdigits, takeWhile_append_of_pos hdigits]
  simp [fromUtf8_bytes, Numeral.value_toDigits]

theorem nul_notMem_repr (n : ℕ) : '\x00' ∉ (Nat.repr n).toList :=
  fun hnul ↦ absurd (isDigit_of_mem_repr hnul) (by decide)

/-- **The request is read back**, with the length of the body first and just once. -/
theorem readScgi_buildScgiRequest (env : List (String × String)) (body : List UInt8)
    (h : NulFree env) :
    readScgi (buildScgiRequest env body) = some (("CONTENT_LENGTH", Nat.repr body.length) ::
      env.filter (·.1 != "CONTENT_LENGTH"), body) ∧
    ((("CONTENT_LENGTH", Nat.repr body.length) ::
      env.filter (·.1 != "CONTENT_LENGTH")).map Prod.fst).count "CONTENT_LENGTH" = 1 := by
  have hname : '\x00' ∉ "CONTENT_LENGTH".toList := by decide
  have hheaders : NulFree (scgiHeaders env body) :=
    forall_mem_cons.mpr ⟨⟨hname, nul_notMem_repr _⟩, fun v hv ↦ h v (mem_of_mem_filter hv)⟩
  constructor
  · rw [readScgi, buildScgiRequest, readNetstring_append, headerBlock_eq]
    change (readPairs _).bind (fun vars ↦ some (vars, body)) = _
    rw [readPairs_splitOn hheaders]
    rfl
  · rw [map_cons, count_cons_self, count_eq_zero.mpr]
    rintro hmem
    obtain ⟨v, hv, hkey⟩ := mem_map.mp hmem
    exact bne_iff_ne.mp (mem_filter.mp hv).2 hkey

theorem readScgi_buildScgiRequest_get : NulFree [("REQUEST_METHOD", "GET")] ∧
    readScgi (buildScgiRequest [("REQUEST_METHOD", "GET")] [0x2c]) =
      some ([("CONTENT_LENGTH", "1"), ("REQUEST_METHOD", "GET")], [0x2c]) := by
  have h : NulFree [("REQUEST_METHOD", "GET")] :=
    forall_mem_singleton.mpr ⟨by decide, by decide⟩
  exact ⟨h, (readScgi_buildScgiRequest [("REQUEST_METHOD", "GET")] [0x2c] h).1⟩

/-! ## The lists for requests are without NUL -/

theorem nul_notMem_of_toStr {v : HeaderValue} {s : String} (h : v.toStr = some s) :
    '\x00' ∉ s.toList := by
  obtain ⟨hvisible, rfl⟩ := HeaderValue.toStr_eq_some_iff.mp h
  exact fun hnul ↦ absurd (all_eq_true.mp hvisible _ hnul) (by decide)

theorem nul_notMem_getStr (h : HeaderMap) (n : HeaderName) :
    '\x00' ∉ ((h.getStr n).getD "").toList := by
  rcases hs : h.getStr n with _ | s
  · decide
  · obtain ⟨v, -, hv⟩ := Option.bind_eq_some_iff.mp hs
    exact nul_notMem_of_toStr hv

theorem nul_notMem_splitHostPort {host : String} (h : '\x00' ∉ host.toList) :
    '\x00' ∉ (splitHostPort host).1.toList ∧ '\x00' ∉ (splitHostPort host).2.toList := by
  have hpart : ∀ {l : List Char}, l ⊆ host.toList → '\x00' ∉ (String.ofList l).toList := by
    intro l hl
    rw [String.toList_ofList]
    exact fun hnul ↦ h (hl hnul)
  have hport : '\x00' ∉ "80".toList := by decide
  rw [splitHostPort]
  split_ifs
  · constructor
    · rw [String.ofList_append, String.toList_append, mem_append, not_or]
      exact ⟨hpart (takeWhile_sublist _).subset, by decide⟩
    · rcases hstrip : stripPrefix ":" _ with _ | port
      · exact hport
      · have htail := hpart ((tail_sublist _).trans (dropWhile_sublist (· != ']'))).subset
        rw [eq_append_of_stripPrefix hstrip, String.toList_append, mem_append, not_or] at htail
        exact htail.2
  · refine ⟨hpart fun c hc ↦ mem_reverse.mp ?_, hpart fun c hc ↦ mem_reverse.mp ?_⟩
    · exact (dropWhile_sublist _).subset (mem_of_mem_tail (mem_reverse.mp hc))
    · exact (takeWhile_sublist _).subset (mem_reverse.mp hc)
  · exact ⟨h, hport⟩

theorem nul_notMem_cgiName {n : HeaderName} (h : '\x00' ∉ n.toList) :
    '\x00' ∉ (cgiName n).toList := by
  rw [cgiName, map_map, String.toList_append, mem_append, not_or]
  refine ⟨by decide, fun hnul ↦ ?_⟩
  rw [String.toList_ofList] at hnul
  obtain ⟨c, hc, hcnul⟩ := mem_map.mp hnul
  rw [Function.comp_apply, ite_eq_iff] at hcnul
  obtain ⟨-, hcnul⟩ | ⟨-, hcnul⟩ := hcnul
  · exact absurd hcnul (by decide)
  · have hupper : '\x00'.toNat = _ := hcnul ▸ toNat_toUpper c
    have hzero : '\x00'.toNat = 0 := rfl
    have hc0 : c = '\x00' := Char.toNat_inj.mp (by split_ifs at hupper <;> omega)
    exact h (hc0 ▸ hc)

theorem nulFree_headerVars {lines : HeaderMap} (h : ∀ l ∈ lines, '\x00' ∉ l.1.toList) :
    NulFree (headerVars lines) := by
  intro v hv
  obtain ⟨l, hl, hv⟩ := mem_filterMap.mp hv
  obtain ⟨value, hvalue, rfl⟩ := Option.map_eq_some_iff.mp hv
  exact ⟨nul_notMem_cgiName (h l hl), nul_notMem_of_toStr hvalue⟩

section Request

variable {it : Iteration} {trace : Option Proxy.TraceContext} {req : Request} {root : String}
  {index : Option String}

theorem nul_notMem_scriptName {path : String} (hpath : '\x00' ∉ path.toList)
    (hindex : ∀ file ∈ index, '\x00' ∉ file.toList) : '\x00' ∉ (scriptName path index).toList := by
  rw [scriptName.eq_def]
  split_ifs
  · split
    · rw [String.toList_append, mem_append, not_or]
      exact ⟨hpath, hindex _ rfl⟩
    · exact hpath
  · exact hpath

/-- **The list for a request can be sent**, if the configured root and index file are without NUL
and so is what the server reads of the request. -/
theorem nulFree_buildCgiEnv (body : List UInt8) (hroot : '\x00' ∉ root.toList)
    (hindex : ∀ file ∈ index, '\x00' ∉ file.toList) (hmethod : '\x00' ∉ req.method.asStr.toList)
    (hpath : '\x00' ∉ req.uri.path.toList) (hquery : '\x00' ∉ (req.uri.query.getD "").toList)
    (hnames : ∀ l ∈ req.headers, '\x00' ∉ l.1.toList) :
    NulFree (buildCgiEnv it trace req root index body) := by
  have hrequest : NulFree (requestVars req root index body) := by
    have hscript := nul_notMem_scriptName hpath hindex
    have hserver := nul_notMem_splitHostPort (nul_notMem_getStr req.headers "host")
    have huri : '\x00' ∉ (if req.uri.query.getD "" = "" then req.uri.path
        else req.uri.path ++ "?" ++ req.uri.query.getD "").toList := by
      split_ifs
      · exact hpath
      · simp [hpath, hquery]
    have hfile : '\x00' ∉ (scriptFilename root req.uri.path index).toList := by
      simp only [scriptFilename, trimEndMatches, trimStartMatches, String.toList_append,
        String.toList_ofList, mem_append, mem_reverse, not_or]
      exact ⟨⟨fun hnul ↦ hroot (mem_reverse.mp ((dropWhile_sublist _).subset hnul)), by decide⟩,
        fun hnul ↦ hscript ((dropWhile_sublist _).subset hnul)⟩
    simp only [NulFree, requestVars, forall_mem_cons, hmethod, huri, hscript, hfile, hquery,
      nul_notMem_getStr, nul_notMem_repr, hserver.1, hserver.2, not_false_eq_true, and_true]
    decide
  have htrace : ∀ l ∈ Proxy.injectCurrent trace [], '\x00' ∉ l.1.toList := by
    rcases trace with _ | ⟨_ | parent, _ | state⟩ <;>
      simp [Proxy.injectCurrent, Proxy.setHeader, HeaderMap.insert, HeaderMap.append,
        HeaderMap.remove]
  refine forall_mem_append.mpr ⟨forall_mem_append.mpr ⟨hrequest, ?_⟩, ?_⟩
  · exact nulFree_headerVars fun l hl ↦ htrace l ((it.perm _).mem_iff.mp hl)
  · exact nulFree_headerVars fun l hl ↦ hnames l ((it.perm _).mem_iff.mp (mem_of_mem_filter hl))

end Request

end Cgi

end Hypershunt
