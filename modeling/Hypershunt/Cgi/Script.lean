import Hypershunt.Cgi.Environment
import Hypershunt.Handler.SafeJoin

/-!
# The script that is announced

`SCRIPT_FILENAME` is the root and the path of the request as it was sent. The CGI handler executes
what `safe_join` finds, which decodes the path and refuses parents; other servers get the name.

So the name lies below the root exactly when no segment of the path is a parent, and it names the
file that is executed exactly when decoding does not change the path (`announced_iff`).
-/

namespace Hypershunt

open List Option

namespace Cgi

open OsString Hypershunt.Path Text String StaticFiles

/-- `resolve_script`. -/
def resolveScript (fs : FileSystem) (root : OsString) (uriPath : String) : Option OsString :=
  (safeJoin root uriPath).filter fun candidate ↦ (fs.metadata candidate).isSome

/-- What the CGI handler starts: the program with its environment, unless it answers 404. -/
def spawned (fs : FileSystem) (it : Iteration) (trace : Option Proxy.TraceContext) (req : Request)
    (root : String) (body : List UInt8) : Option (OsString × List (String × String)) :=
  if req.uri.path.toList.getLast? = some '/' then none
  else (resolveScript fs (ofStr root) req.uri.path).map fun program ↦
    (program, buildCgiEnv it trace req root none body)

/-- The environment announces a script. -/
def Announces (env : List (String × String)) (script : String) : Prop :=
  ("SCRIPT_FILENAME", script) ∈ env

/-- The components of the path are those of the root and then names, none of which is a parent. -/
def Under (root path : OsString) : Prop :=
  ∃ rel, components path = components root ++ rel ∧ ".." ∉ rel ∧ "/" ∉ rel

/-- No segment of the path, or of the index file of a directory, is a parent. -/
def NoParent (path : String) (index : Option String) : Prop :=
  ".." ∉ split '/' path ∧
    (path.toList.getLast? = some '/' → ∀ idx ∈ index, ".." ∉ split '/' idx)

section Announced

variable {it : Iteration} {trace : Option Proxy.TraceContext} {req : Request} {root : String}
  {index : Option String} {body : List UInt8} {script : String}

/-- The script is announced once: no header makes this name. -/
theorem announces_iff : Announces (buildCgiEnv it trace req root index body) script ↔
    script = scriptFilename root req.uri.path index := by
  have hheaders : ∀ lines, ("SCRIPT_FILENAME", script) ∉ headerVars lines := by
    intro lines hmem
    obtain ⟨l, -, hl⟩ := mem_filterMap.mp hmem
    obtain ⟨v, -, hv⟩ := map_eq_some_iff.mp hl
    have hname : cgiName l.1 = "SCRIPT_FILENAME" := congrArg Prod.fst hv
    exact absurd (hname ▸ startsWith_cgiName l.1) (by decide)
  rw [Announces, buildCgiEnv, List.mem_append, List.mem_append, or_iff_left (hheaders _),
    or_iff_left (hheaders _)]
  simp [requestVars]

/-- The handler starts what the decoded path leads to. -/
theorem spawned_eq_some {fs : FileSystem} {program : OsString} {env : List (String × String)}
    (h : spawned fs it trace req root body = some (program, env)) :
    program = join (ofStr root)
        (ofStr (trimStartMatches (· == '/') (percentDecode req.uri.path))) ∧
      env = buildCgiEnv it trace req root none body := by
  rw [spawned, ite_none_left_eq_some, map_eq_some_iff] at h
  obtain ⟨-, found, hfound, heq⟩ := h
  obtain ⟨rfl, rfl⟩ := Prod.ext_iff.mp heq
  rw [resolveScript, filter_eq_some_iff, safeJoin, ite_none_left_eq_some, ite_none_left_eq_some,
    Option.some.injEq] at hfound
  exact ⟨hfound.1.2.2.symm, rfl⟩

theorem scriptName_none (path : String) : scriptName path none = path := ite_self path

end Announced

/-! ## Slashes -/

section Slashes

variable {p q : OsString}

/-- Of the slashes between two paths only one counts. -/
theorem components_slashes (p q : OsString) :
    components (p ++ "/" ++ "/" ++ q) = components (p ++ "/" ++ q) := by
  rw [show p ++ "/" ++ "/" ++ q = p ++ "/" ++ ("/" ++ q) from append_assoc]
  rcases eq_or_ne p "" with rfl | hp
  · rw [empty_append, components_slash, components_slash, names_slash]
  · rw [components_append hp, components_append hp, names_slash]

theorem names_ofStr_trimStartMatches (s : String) :
    names (ofStr (trimStartMatches (· == '/') s)) =
      names (ofStr s) := by
  rw [trimStartMatches]
  conv_rhs => rw [← ofList_toList (s := s)]
  induction s.toList with
  | nil => rfl
  | cons c cs ih =>
    rw [dropWhile_cons]
    split_ifs with hc
    · have hcons : ofList (c :: cs) = "/" ++ ofList cs := by
        rw [← toList_inj, eq_of_beq hc]
        simp
      rw [ih, hcons, ofStr_append, ofStr_slash, names_slash]
    · rfl

theorem ofStr_ne_empty {s : String} (hs : s ≠ "") : ofStr s ≠ "" := fun h ↦
  hs (ofStr_inj.mp (h.trans rfl))

/-- The slashes at the end of the root do not count. -/
theorem components_trimEndMatches {root : String} (hroot : root ≠ "") (q : OsString) :
    components (ofStr (trimEndMatches (· == '/') root) ++ "/" ++ q) =
      components (ofStr root) ++ names q := by
  rw [← components_append (ofStr_ne_empty hroot), trimEndMatches]
  conv_rhs => rw [← ofList_toList (s := root), ← reverse_reverse root.toList]
  generalize root.toList.reverse = cs
  induction cs with
  | nil => rfl
  | cons c cs ih =>
    rw [dropWhile_cons]
    split_ifs with hc
    · have hsnoc : ofList (c :: cs).reverse = ofList cs.reverse ++ "/" := by
        rw [← toList_inj, eq_of_beq hc]
        simp
      rw [ih, hsnoc, ofStr_append, ofStr_slash, components_slashes]
    · rfl

end Slashes

/-- The components of the announced script. -/
theorem components_scriptFilename {root path : String} {index : Option String} (hroot : root ≠ "") :
    components (ofStr (scriptFilename root path index)) =
      components (ofStr root) ++ names (ofStr (scriptName path index)) := by
  rw [scriptFilename, ofStr_append, ofStr_append, ofStr_slash,
    components_trimEndMatches hroot, names_ofStr_trimStartMatches]

/-- Without a root the announced script is an absolute path. -/
theorem components_scriptFilename_empty (path : String) (index : Option String) :
    components (ofStr (scriptFilename "" path index)) =
      "/" :: names (ofStr (scriptName path index)) := by
  rw [scriptFilename, ofStr_append, ofStr_append, ofStr_slash,
    show ofStr (trimEndMatches (· == '/') "") = "" from rfl, empty_append,
    components_slash, names_ofStr_trimStartMatches]

theorem parent_mem_names_iff {s : String} :
    ".." ∈ names (ofStr s) ↔ ".." ∈ split '/' s := by
  rw [names, mem_filter, split_ofStr, and_iff_left (by decide)]
  conv_lhs => rw [← ofStr_parent]
  exact List.mem_map_of_injective fun _ _ h ↦ ofStr_inj.mp h

theorem noParent_iff {path : String} {index : Option String} :
    NoParent path index ↔ ".." ∉ split '/' (scriptName path index) := by
  rw [NoParent, scriptName.eq_def]
  split_ifs with hslash
  · rcases index with _ | idx
    · simp
    · obtain ⟨dir, rfl⟩ : ∃ dir : String, path = dir ++ singleton '/' := by
        refine ⟨ofList path.toList.dropLast, ?_⟩
        rw [← toList_inj, toList_append, toList_ofList]
        exact (dropLast_append_getLast? '/' hslash).symm
      have hdir := split_append_singleton_append '/' dir ""
      rw [append_empty] at hdir
      rw [hdir, split_append_singleton_append]
      have hempty : ".." ∉ split '/' "" := by decide
      simp [hempty, not_or]
  · simp [hslash]

/-- **What is announced is what is executed**, below the root, exactly for paths without parents
that decoding does not change; an empty root would make the path absolute. -/
theorem announced_iff (fs : FileSystem) (it : Iteration) (trace : Option Proxy.TraceContext)
    (req : Request) (root : String) (index : Option String) (body : List UInt8) :
    ((∀ script, Announces (buildCgiEnv it trace req root index body) script →
        Under (ofStr root) (ofStr script)) ↔
      root ≠ "" ∧ NoParent req.uri.path index) ∧
    ∀ program env, spawned fs it trace req root body = some (program, env) →
      ((∀ script, Announces env script →
          components (ofStr script) = components program) ↔
        root ≠ "" ∧ names (ofStr (percentDecode req.uri.path)) =
          names (ofStr req.uri.path)) := by
  have hempty : components (ofStr "") = [] := rfl
  refine ⟨?_, fun program env h ↦ ?_⟩
  · simp only [announces_iff, forall_eq]
    rcases eq_or_ne root "" with rfl | hroot
    · refine ⟨fun ⟨rel, hrel, _, hslash⟩ ↦ ?_, fun h ↦ absurd rfl h.1⟩
      rw [hempty, components_scriptFilename_empty, nil_append] at hrel
      exact absurd (hrel ▸ mem_cons_self) hslash
    · rw [and_iff_right hroot, noParent_iff, ← parent_mem_names_iff, Under,
        components_scriptFilename hroot]
      refine ⟨?_, fun h ↦ ⟨_, rfl, h, not_slash_mem_names⟩⟩
      rintro ⟨rel, hrel, hparent, -⟩
      rwa [append_cancel_left hrel]
  · obtain ⟨hjoin, rfl⟩ := spawned_eq_some h
    have hrelative := isAbsolute_ofStr_trimStartMatches (percentDecode req.uri.path)
    simp only [announces_iff, forall_eq]
    rcases eq_or_ne root "" with rfl | hroot
    · obtain ⟨rel, hrel, hnames⟩ := exists_components_join (ofStr "") hrelative
      rw [hjoin, hrel, hempty, components_scriptFilename_empty, nil_append]
      refine ⟨fun heq ↦ ?_, fun h ↦ absurd rfl h.1⟩
      have hslash := hnames "/" (heq ▸ mem_cons_self)
      exact absurd (hslash.resolve_left (by decide)) not_slash_mem_names
    · rw [hjoin, components_join (ofStr_ne_empty hroot) hrelative,
        components_scriptFilename hroot, append_cancel_left_eq, names_ofStr_trimStartMatches,
        scriptName_none, and_iff_right hroot, eq_comm]

private def get (path : String) : Request := .bare .get path []

/-- There is every file. -/
private def everything : FileSystem where
  canonicalize := some
  metadata _ := some ⟨false, true, 0, none⟩
  openFile _ := none

/-- A FastCGI server is told a file outside of the root, and a CGI program another name. -/
theorem announced_elsewhere :
    Announces (buildCgiEnv ⟨id, fun _ ↦ .refl _⟩ none (get "/../etc/passwd") "/srv" none [])
        "/srv/../etc/passwd" ∧
      ¬Under "/srv" "/srv/../etc/passwd" ∧
      (spawned everything ⟨id, fun _ ↦ .refl _⟩ none (get "/a%20b") "/srv" []).map Prod.fst =
        some "/srv/a b" ∧
      Announces (buildCgiEnv ⟨id, fun _ ↦ .refl _⟩ none (get "/a%20b") "/srv" none [])
        "/srv/a%20b" := by
  refine ⟨announces_iff.mpr (by decide +kernel), ?_, by decide +kernel,
    announces_iff.mpr (by decide +kernel)⟩
  rintro ⟨rel, hrel, hparent, -⟩
  have hparts : components "/srv/../etc/passwd" =
      components "/srv" ++ ["..", "etc", "passwd"] := by decide +kernel
  rw [hparts] at hrel
  exact hparent (append_cancel_left hrel ▸ mem_cons_self)

end Cgi

end Hypershunt
