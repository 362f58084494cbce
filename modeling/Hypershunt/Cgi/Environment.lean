import Hypershunt.Handler.BackendDial
import Hypershunt.Handler.BackendHeaders

/-!
# The environment of CGI programs

`build_cgi_env` of `handler/cgi_util.rs` describes a request by names and values: fixed names, the
trace context, and one name for each header line. A CGI program gets them as its environment, where
the last value of a name counts; a FastCGI server gets the list; an SCGI server gets it with the
length of the body in front.

Two header lines make the same name when theirs differ in hyphens and underscores at most. The names
are distinct exactly when no two lines do, and then everyone sees the same value
(`unambiguous_iff`).
-/

namespace Hypershunt

open List

namespace Cgi

open Proxy (TraceContext injectCurrent beforeColon afterColon)

open Text

/-- The order in which the lines of a header map are visited, which is left open. -/
structure Iteration where
  lines : HeaderMap → HeaderMap
  perm : ∀ h, (lines h).Perm h

/-- `split_host_port`: the brackets of an IPv6 address belong to the host. -/
def splitHostPort (host : String) : String × String :=
  if host.toList.head? = some '[' ∧ ']' ∈ host.toList then
    (String.ofList (host.toList.takeWhile (· != ']') ++ [']']),
      (stripPrefix ":" (String.ofList (host.toList.dropWhile (· != ']')).tail)).getD "80")
  else if ':' ∈ host.toList then
    (String.ofList (beforeColon host.toList), String.ofList (afterColon host.toList))
  else (host, "80")

/-- The path of the request, with the index file for a directory. -/
def scriptName (path : String) (index : Option String) : String :=
  if path.toList.getLast? = some '/' then
    match index with
    | some idx => path ++ idx
    | none => path
  else path

def scriptFilename (root path : String) (index : Option String) : String :=
  trimEndMatches (· == '/') root ++ "/" ++
    trimStartMatches (· == '/') (scriptName path index)

/-- The variables that every program gets. -/
def requestVars (req : Request) (root : String) (index : Option String) (body : List UInt8) :
    List (String × String) :=
  let path := req.uri.path
  let query := req.uri.query.getD ""
  let (serverName, serverPort) := splitHostPort ((req.headers.getStr "host").getD "")
  [("GATEWAY_INTERFACE", "CGI/1.1"),
    ("SERVER_SOFTWARE", "hypershunt/0.1.0"),
    ("SERVER_PROTOCOL", "HTTP/1.1"),
    ("REQUEST_METHOD", req.method.asStr),
    ("REQUEST_URI", if query = "" then path else path ++ "?" ++ query),
    ("SCRIPT_NAME", scriptName path index),
    ("SCRIPT_FILENAME", scriptFilename root path index),
    ("PATH_INFO", ""),
    ("QUERY_STRING", query),
    ("CONTENT_TYPE", (req.headers.getStr "content-type").getD ""),
    ("CONTENT_LENGTH", Nat.repr body.length),
    ("SERVER_NAME", serverName),
    ("SERVER_PORT", serverPort),
    ("REMOTE_ADDR", "0.0.0.0")]

/-- The name of the variable for a header. -/
def cgiName (name : HeaderName) : String :=
  "HTTP_" ++ String.ofList ((name.toList.map Char.toUpper).map fun c ↦ if c = '-' then '_' else c)

/-- The variables for header lines, of which there is one for each that is text. -/
def headerVars (lines : HeaderMap) : List (String × String) :=
  lines.filterMap fun l ↦ l.2.toStr.map fun v ↦ (cgiName l.1, v)

/-- The header line has no variable of its own and is not replaced by the trace context. -/
def passedOn (traced : Bool) (l : HeaderName × HeaderValue) : Bool :=
  !(l.1 == "content-type" || l.1 == "content-length") &&
    !(traced && (l.1 == "traceparent" || l.1 == "tracestate"))

def buildCgiEnv (it : Iteration) (trace : Option TraceContext) (req : Request) (root : String)
    (index : Option String) (body : List UInt8) : List (String × String) :=
  let traceHeaders := injectCurrent trace []
  requestVars req root index body ++ headerVars (it.lines traceHeaders) ++
    headerVars ((it.lines req.headers).filter (passedOn !traceHeaders.isEmpty))

/-! ## What the programs see -/

/-- The environment of a process: the last value that was set. -/
def processVar (env : List (String × String)) (name : String) : Option String :=
  env.reverse.lookup name

/-- The headers of an SCGI request. -/
def scgiHeaders (env : List (String × String)) (body : List UInt8) : List (String × String) :=
  ("CONTENT_LENGTH", Nat.repr body.length) :: env.filter fun v ↦ v.1 != "CONTENT_LENGTH"

/-- No name occurs twice, and all three kinds of servers see the same values. -/
structure Unambiguous (env : List (String × String)) (body : List UInt8) : Prop where
  nodup : (env.map Prod.fst).Nodup
  process : ∀ name, processVar env name = env.lookup name
  scgi : ∀ name, (scgiHeaders env body).lookup name = env.lookup name

/-- The lines that become variables. -/
def variableLines (trace : Option TraceContext) (h : HeaderMap) : HeaderMap :=
  (injectCurrent trace [] ++ h.filter (passedOn !(injectCurrent trace []).isEmpty)).filter
    fun l ↦ l.2.toStr.isSome

/-- A name with underscores for hyphens. -/
def underscored (name : HeaderName) : String :=
  String.ofList (name.toList.map fun c ↦ if c = '-' then '_' else c)

/-! ## Names of variables -/

section Names

variable {n m : HeaderName} {l : List Char}

theorem map_toUpper_eq_iff {k : List Char} :
    l.map Char.toUpper = k.map Char.toUpper ↔ l.map Char.toLower = k.map Char.toLower := by
  induction l generalizing k with
  | nil => simp
  | cons c l ih =>
    rcases k with _ | ⟨d, k⟩
    · simp
    · rw [map_cons, map_cons, map_cons, map_cons, cons.injEq, cons.injEq, ih,
        toUpper_eq_toUpper_iff]

theorem toUpper_underscore (c : Char) : (if c.toUpper = '-' then '_' else c.toUpper) =
    (if c = '-' then '_' else c).toUpper := by
  have hdash : c.toUpper = '-' ↔ c = '-' := by
    rw [← Char.toNat_inj, ← Char.toNat_inj, toNat_toUpper]
    split_ifs
    · have h : '-'.toNat = 45 := rfl
      omega
    · rfl
  by_cases hc : c = '-'
  · rw [if_pos (hdash.mpr hc), if_pos hc]
    rfl
  · rw [if_neg (fun h ↦ hc (hdash.mp h)), if_neg hc]

/-- **Two headers make one variable** when their names agree but for case, hyphens and
underscores. -/
theorem cgiName_eq_iff :
    cgiName n = cgiName m ↔ eqIgnoreAsciiCase (underscored n) (underscored m) = true := by
  have hupper : ∀ k : HeaderName, (cgiName k).toList =
      "HTTP_".toList ++ (k.toList.map fun c ↦ if c = '-' then '_' else c).map Char.toUpper :=
    fun k ↦ by
      rw [cgiName, String.toList_append, append_cancel_left_eq, String.toList_ofList, map_map,
        map_map]
      exact map_congr_left fun c _ ↦ toUpper_underscore c
  rw [← String.toList_inj, hupper, hupper, append_cancel_left_eq, map_toUpper_eq_iff,
    eqIgnoreAsciiCase, beq_iff_eq, toAsciiLowercase, toAsciiLowercase,
    String.ofList_inj, underscored, underscored, String.toList_ofList, String.toList_ofList]

theorem startsWith_cgiName (n : HeaderName) : startsWith "HTTP_" (cgiName n) = true := by
  rw [startsWith_iff, cgiName, String.toList_append]
  exact prefix_append _ _

theorem map_fst_headerVars (lines : HeaderMap) : (headerVars lines).map Prod.fst =
    (lines.filter fun l ↦ l.2.toStr.isSome).map fun l ↦ cgiName l.1 := by
  induction lines with
  | nil => rfl
  | cons l lines ih =>
    rw [headerVars, filterMap_cons, filter_cons]
    rcases hl : l.2.toStr with _ | v
    · exact ih
    · exact congrArg (cgiName l.1 :: ·) ih

end Names

section Env

variable {it : Iteration} {trace : Option TraceContext} {req : Request} {root : String}
  {index : Option String} {body : List UInt8} {env : List (String × String)}

/-- The names that every program gets. -/
def requestNames : List String :=
  ["GATEWAY_INTERFACE", "SERVER_SOFTWARE", "SERVER_PROTOCOL", "REQUEST_METHOD", "REQUEST_URI",
    "SCRIPT_NAME", "SCRIPT_FILENAME", "PATH_INFO", "QUERY_STRING", "CONTENT_TYPE",
    "CONTENT_LENGTH", "SERVER_NAME", "SERVER_PORT", "REMOTE_ADDR"]

theorem map_fst_requestVars : (requestVars req root index body).map Prod.fst = requestNames := rfl

theorem map_fst_buildCgiEnv_perm :
    ((buildCgiEnv it trace req root index body).map Prod.fst).Perm
      (requestNames ++ (variableLines trace req.headers).map fun l ↦ cgiName l.1) := by
  rw [buildCgiEnv, append_assoc, map_append, map_append, map_fst_requestVars, map_fst_headerVars,
    map_fst_headerVars, variableLines, filter_append, map_append]
  refine List.Perm.append_left _ (List.Perm.append ?_ ?_)
  · exact ((it.perm _).filter _).map _
  · exact (((it.perm _).filter _).filter _).map _

/-- The fixed names are distinct, and no header makes one of them. -/
theorem nodup_buildCgiEnv_iff :
    ((buildCgiEnv it trace req root index body).map Prod.fst).Nodup ↔
      (variableLines trace req.headers).Pairwise fun l m ↦
        ¬eqIgnoreAsciiCase (underscored l.1) (underscored m.1) = true := by
  have hfixed : requestNames.Nodup := by decide
  have hother : ∀ name ∈ requestNames, startsWith "HTTP_" name = false := by decide
  rw [map_fst_buildCgiEnv_perm.nodup_iff, nodup_append, and_iff_right hfixed, and_iff_left,
    List.Nodup, pairwise_map]
  · simp only [Ne, cgiName_eq_iff]
  · rintro name hname _ hvar rfl
    obtain ⟨l, -, rfl⟩ := mem_map.mp hvar
    exact absurd (hother _ hname) (by rw [startsWith_cgiName]; decide)

theorem lookup_eq_some_iff_mem (henv : (env.map Prod.fst).Nodup) {name value : String} :
    env.lookup name = some value ↔ (name, value) ∈ env := by
  induction env with
  | nil => simp
  | cons v env ih =>
    obtain ⟨n, w⟩ := v
    rw [map_cons, nodup_cons] at henv
    by_cases hname : name = n
    · subst hname
      have habsent : (name, value) ∉ env := fun hmem ↦ henv.1 (mem_map.mpr ⟨_, hmem, rfl⟩)
      simp [habsent, eq_comm]
    · rw [lookup_cons, beq_eq_false_iff_ne.mpr hname]
      simp [hname, ih henv.2]

theorem processVar_of_nodup (henv : (env.map Prod.fst).Nodup) (name : String) :
    processVar env name = env.lookup name := by
  have hreverse : (env.reverse.map Prod.fst).Nodup :=
    (env.reverse_perm.map _).nodup_iff.mpr henv
  ext value
  rw [processVar, lookup_eq_some_iff_mem hreverse, lookup_eq_some_iff_mem henv, mem_reverse]

theorem scgiHeaders_of_nodup (henv : (env.map Prod.fst).Nodup)
    (hlength : ("CONTENT_LENGTH", Nat.repr body.length) ∈ env) (name : String) :
    (scgiHeaders env body).lookup name = env.lookup name := by
  rw [scgiHeaders, lookup_cons]
  by_cases hname : name = "CONTENT_LENGTH"
  · rw [hname, (lookup_eq_some_iff_mem henv).mpr hlength]
    rfl
  · have hfilter : ((env.filter fun v ↦ v.1 != "CONTENT_LENGTH").map Prod.fst).Nodup :=
      henv.sublist (filter_sublist.map _)
    ext value
    rw [beq_eq_false_iff_ne.mpr hname]
    dsimp only
    rw [lookup_eq_some_iff_mem hfilter, lookup_eq_some_iff_mem henv, mem_filter]
    simp [hname]

end Env

/-- **When the environment is unambiguous.** -/
theorem unambiguous_iff (it : Iteration) (trace : Option TraceContext) (req : Request)
    (root : String) (index : Option String) (body : List UInt8) :
    Unambiguous (buildCgiEnv it trace req root index body) body ↔
      (variableLines trace req.headers).Pairwise fun l m ↦
        ¬eqIgnoreAsciiCase (underscored l.1) (underscored m.1) = true := by
  refine Iff.trans ⟨Unambiguous.nodup, fun h ↦ ⟨h, processVar_of_nodup h, ?_⟩⟩ nodup_buildCgiEnv_iff
  refine scgiHeaders_of_nodup h ?_
  rw [buildCgiEnv, append_assoc, mem_append]
  exact Or.inl (by simp [requestVars])

/-- A header that a proxy in front sets, and one of the client. -/
private def twoUsers : Request := .bare .get "/app" [("x-user", "alice"), ("x_user", "bob")]

/-- A program that is started and a program behind a socket see different users. -/
theorem header_taken_twice :
    let env := buildCgiEnv ⟨id, fun _ ↦ .refl _⟩ none twoUsers "/srv" none []
    processVar env "HTTP_X_USER" = some "bob" ∧ env.lookup "HTTP_X_USER" = some "alice" ∧
      ¬Unambiguous env [] := by
  intro env
  have hprocess : processVar env "HTTP_X_USER" = some "bob" := by decide +kernel
  have hlist : env.lookup "HTTP_X_USER" = some "alice" := by decide +kernel
  refine ⟨hprocess, hlist, fun h ↦ ?_⟩
  have hsame := h.process "HTTP_X_USER"
  rw [hprocess, hlist] at hsame
  exact absurd hsame (by decide)

end Cgi

end Hypershunt
