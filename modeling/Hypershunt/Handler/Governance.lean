import Hypershunt.Handler.StaticFiles
import Hypershunt.Router.Route

/-!
# Which policy governs a file

A location of a host is chosen by comparing its path with that of the request, character by
character; the policy of that location is applied, and then the handler decodes the path, drops what
the file system ignores, and adds the name of an index file. So a file is sent under the policy for
one spelling of its path, and there are many spellings.

A host is looked at that only has locations for static files, over one root. The location is the one
for the file itself exactly if its path starts the plain path of the file, and the request starts
with the path of every other location of the host of which that is true.
-/

namespace Hypershunt

open List Option

namespace StaticFiles

open Listener (RequestContext)

open Router Text StaticHandler

variable {R T : Type} (x : Externals T) (fs : FileSystem)

/-- The plain path of a file: decoded, and without empty segments and dots. -/
def Found.path (found : Found) : String :=
  "/" ++ "/".intercalate
    (Path.names (percentDecode found.relative) ++ found.index.elim [] Path.names)

/-- The file, or a part of it, is sent in answer to the request. -/
def StaticHandler.Serves (h : StaticHandler T) (matchedPrefix : String) (ctx : RequestContext)
    (req : Request) (found : Found) : Prop :=
  h.locate x fs matchedPrefix ctx req.uri.path = .ok found ∧
    (h.handle x fs matchedPrefix ctx req).status ∈ [200, 206]

/-- A location for static files. -/
structure Site (T : Type) where
  handler : StaticHandler T
  policy : Option (PolicyBlock T)

/-- A host with locations for static files under one root, without matchers and rewrites. -/
structure StaticHost (R T : Type) (root : String) extends VHost R (Site T) where
  plain : toVHost.Plain
  rewrite_eq : ∀ loc ∈ locations, loc.rewrite = none
  base_eq : ∀ loc ∈ locations, loc.data.handler.base = .root root

/-- A file is sent in answer only under the policy of the location for its plain path. -/
def GovernedByFile (r : Router.Externals R) (vhost : VHost R (Site T)) (ctx : RequestContext)
    (req : Request) : Prop :=
  ∀ loc req' found, settle r vhost maxRewrites req = some (loc, req') →
    loc.data.handler.Serves x fs loc.path ctx req' found →
    (candidates vhost found.path).head? = some loc

/-- Two requests for one file, however they spell its path, are under the policy of one location. -/
def OneLocation (r : Router.Externals R) (vhost : VHost R (Site T)) (ctx₁ ctx₂ : RequestContext)
    (req₁ req₂ : Request) : Prop :=
  ∀ loc₁ loc₂ req₁' req₂' found₁ found₂,
    settle r vhost maxRewrites req₁ = some (loc₁, req₁') →
    settle r vhost maxRewrites req₂ = some (loc₂, req₂') →
    loc₁.data.handler.Serves x fs loc₁.path ctx₁ req₁' found₁ →
    loc₂.data.handler.Serves x fs loc₂.path ctx₂ req₂' found₂ →
    found₁.path = found₂.path → loc₁ = loc₂

/-! ## What there is to send -/

/-- What the file system has for a request at a location over the root. -/
structure StaticHandler.Finds (h : StaticHandler T) (root matchedPrefix : String)
    (ctx : RequestContext) (req : Request) (found : Found) : Prop where
  /-- The path without that of the location, if this is stripped, or the candidate that is there. -/
  spelled : h.lookedUp x fs (OsString.ofStr root) (h.relative matchedPrefix req.uri.path) ctx =
    .ok found.relative
  /-- It leads to a file, or to a directory with an index file. -/
  leads : ∃ canonicalPath md,
    resolve fs (OsString.ofStr root) found.relative = .ok (canonicalPath, md) ∧
    (md.isDir = false ∧ found.index = none ∧ found.target = canonicalPath ∨
      md.isDir = true ∧ ∃ name, found.index = some name ∧
        h.resolveIndex fs canonicalPath = some (name, found.target))
  metadata : fs.metadata found.target = some found.metadata
  /-- The client does not have it yet, and does not ask for a part that is not there. -/
  modified : isNotModified req (computeEtag found.metadata) = false
  range : parseRangeHeader req found.metadata.len ≠ some (.error ())
  opens : (fs.openFile found.target).isSome = true

variable {x fs} {h : StaticHandler T} {root matchedPrefix : String} {ctx ctx' : RequestContext}
  {req req' : Request} {found : Found}

theorem status_sendFile_mem_iff : (sendFile x fs req found).status ∈ [200, 206] ↔
    isNotModified req (computeEtag found.metadata) = false ∧
      parseRangeHeader req found.metadata.len ≠ some (.error ()) ∧
      (fs.openFile found.target).isSome = true := by
  rw [sendFile]
  cases isNotModified req (computeEtag found.metadata) with
  | true => simp
  | false =>
    rcases parseRangeHeader req found.metadata.len with _ | _ | ⟨start, stop⟩
    · cases fs.openFile found.target <;> simp [response500, htmlResponse]
    · simp [response416]
    · cases fs.openFile found.target <;> simp [response500, htmlResponse]

/-- A file is sent exactly if the file system has it for the request. -/
theorem serves_iff_finds (hbase : h.base = .root root) :
    h.Serves x fs matchedPrefix ctx req found ↔ h.Finds x fs root matchedPrefix ctx req found := by
  have hroot : ∀ relative, h.effectiveRoot x relative = .ok (OsString.ofStr root, relative) := by
    intro relative
    rw [effectiveRoot, hbase]
  constructor
  · rintro ⟨hlocate, hstatus⟩
    rw [handle_of_locate hlocate, status_sendFile_mem_iff] at hstatus
    obtain ⟨dir, relative, canonicalPath, md, heffective, hpath, hresolve, hpick, hmetadata⟩ :=
      exists_of_locate hlocate
    rw [hroot] at heffective
    cases heffective
    exact ⟨hpath, ⟨canonicalPath, md, hresolve, pickTarget_eq_ok_iff.mp hpick⟩, hmetadata,
      hstatus.1, hstatus.2.1, hstatus.2.2⟩
  · intro hfinds
    obtain ⟨canonicalPath, md, hresolve, hpick⟩ := hfinds.leads
    have hlocate : h.locate x fs matchedPrefix ctx req.uri.path = .ok found :=
      locate_eq_ok _ canonicalPath md (hroot _) hfinds.spelled hresolve
        (pickTarget_eq_ok_iff.mpr hpick) hfinds.metadata
    refine ⟨hlocate, ?_⟩
    rw [handle_of_locate hlocate, status_sendFile_mem_iff]
    exact ⟨hfinds.modified, hfinds.range, hfinds.opens⟩

/-! ## The result -/

variable (x fs) in
/-- The path of the location is also one for the file, and no other location is for the file that is
not for the request. -/
def Aligned (host : StaticHost R T root) (ctx : RequestContext) (req : Request) : Prop :=
  ∀ loc found, (candidates host.toVHost req.uri.path).head? = some loc →
    loc.data.handler.Finds x fs root loc.path ctx req found →
    startsWith loc.path found.path = true ∧
      ∀ loc' ∈ host.locations, startsWith loc'.path found.path = true →
        startsWith loc'.path req.uri.path = true

variable {r : Router.Externals R} {host : StaticHost R T root}

theorem StaticHost.settle_eq (host : StaticHost R T root) (req : Request) :
    settle r host.toVHost maxRewrites req =
      (candidates host.toVHost req.uri.path).head?.map fun loc ↦ (loc, req) :=
  host.plain.settle_eq host.rewrite_eq 9 req

theorem StaticHost.serves_iff_finds {loc : Router.Location R (Site T)}
    (hhead : (candidates host.toVHost req.uri.path).head? = some loc) :
    loc.data.handler.Serves x fs loc.path ctx req found ↔
      loc.data.handler.Finds x fs root loc.path ctx req found :=
  StaticFiles.serves_iff_finds
    (host.base_eq loc (mem_locations_of_mem_candidates (mem_of_head? hhead)))

theorem governedByFile_iff_aligned :
    GovernedByFile x fs r host.toVHost ctx req ↔ Aligned x fs host ctx req := by
  constructor
  · intro hgoverned loc found hhead hfinds
    have hsettle : settle r host.toVHost maxRewrites req = some (loc, req) := by
      rw [host.settle_eq, hhead, map_some]
    exact (head?_candidates_eq_iff hhead).mp
      (hgoverned loc req found hsettle ((StaticHost.serves_iff_finds hhead).mpr hfinds))
  · intro haligned loc req' found hsettle hserves
    rw [host.settle_eq] at hsettle
    obtain ⟨_, hhead, heq⟩ := map_eq_some_iff.mp hsettle
    cases heq
    exact (head?_candidates_eq_iff hhead).mpr
      (haligned loc found hhead ((StaticHost.serves_iff_finds hhead).mp hserves))

/-- **The policy of the file is applied exactly if the location is for the file as well**, and then
to every spelling of its path. -/
theorem governedByFile_iff (r : Router.Externals R) (x : Externals T) (fs : FileSystem)
    (host : StaticHost R T root) (ctx ctx' : RequestContext) (req req' : Request) :
    (GovernedByFile x fs r host.toVHost ctx req ↔ Aligned x fs host ctx req) ∧
      (Aligned x fs host ctx req → Aligned x fs host ctx' req' →
        OneLocation x fs r host.toVHost ctx ctx' req req') := by
  refine ⟨governedByFile_iff_aligned, fun h h' loc loc' _ _ found found' hsettle hsettle' hserves
    hserves' hpath ↦ ?_⟩
  have hhead := governedByFile_iff_aligned.mpr h loc _ found hsettle hserves
  have hhead' := governedByFile_iff_aligned.mpr h' loc' _ found' hsettle' hserves'
  rw [hpath, hhead', Option.some.injEq] at hhead
  exact hhead.symm

/-! ### A path that is spelled differently -/

private def srv : FileSystem where
  canonicalize p := if p ∈ ["/srv", "/srv/admin", "/srv/admin/x"] then some p else none
  metadata p :=
    if p = "/srv/admin/x" then some ⟨false, true, 1, none⟩
    else if p ∈ ["/srv", "/srv/admin"] then some ⟨true, false, 0, none⟩
    else none
  openFile p := if p = "/srv/admin/x" then some (some [0x78]) else none

private def denied : PolicyBlock Unit := .assemble [⟨none, .deny 403⟩] [none]

private def everyone : Router.Location String (Site Unit) := ⟨"/", none, none, ⟨bare "/srv", none⟩⟩

private def nobody : Router.Location String (Site Unit) :=
  ⟨"/admin/", none, none, ⟨bare "/srv", some denied⟩⟩

private def site : StaticHost String Unit "/srv" where
  locations := [everyone, nobody]
  plain := by simp [VHost.Plain, everyone, nobody]
  rewrite_eq := by simp [everyone, nobody]
  base_eq := by simp [everyone, nobody, bare]

private def getPath (path : String) : Request := .bare .get path []

private theorem head?_candidates_encoded :
    (candidates site.toVHost "/%61dmin/x").head? = some everyone := by
  refine head?_candidates_eq_some (mem_candidates_iff.mpr ⟨mem_cons_self, ?_⟩) ?_
  · change startsWith "/" "/%61dmin/x" = true
    decide +kernel
  · intro loc hloc hne
    obtain ⟨hmem, hstarts⟩ := mem_candidates_iff.mp hloc
    rcases mem_cons.mp hmem with rfl | hmem
    · exact absurd rfl hne
    · rw [mem_singleton.mp hmem] at hstarts
      change startsWith "/admin/" "/%61dmin/x" = true at hstarts
      exact absurd hstarts (by decide +kernel)

private theorem head?_candidates_plain :
    (candidates site.toVHost "/admin/x").head? = some nobody := by
  refine head?_candidates_eq_some
    (mem_candidates_iff.mpr ⟨mem_cons_of_mem _ (mem_singleton_self _), ?_⟩) ?_
  · change startsWith "/admin/" "/admin/x" = true
    decide +kernel
  · intro loc hloc hne
    obtain ⟨hmem, -⟩ := mem_candidates_iff.mp hloc
    rcases mem_cons.mp hmem with rfl | hmem
    · change "/".utf8ByteSize < "/admin/".utf8ByteSize
      decide +kernel
    · exact absurd (mem_singleton.mp hmem) hne

private theorem percentDecode_encoded : percentDecode "/%61dmin/x" = "/admin/x" := by
  decide +kernel

private def secret : Found := ⟨"/%61dmin/x", none, "/srv/admin/x", ⟨false, true, 1, none⟩⟩

private theorem locate_encoded :
    (bare "/srv").locate .bare srv "/" {} (getPath "/%61dmin/x").uri.path = .ok secret := by
  have hjoin : safeJoin "/srv" "/%61dmin/x" = some "/srv/admin/x" := by
    simp only [safeJoin, percentDecode_encoded]
    decide +kernel
  have hresolve : resolve srv "/srv" "/%61dmin/x" =
      .ok ("/srv/admin/x", ⟨false, true, 1, none⟩) := by
    simp only [resolve, hjoin]
    rfl
  exact locate_eq_ok "/srv" "/srv/admin/x" _ rfl rfl hresolve rfl rfl

/-- The plain path leads to a location that nobody may enter, an encoded letter to its file. -/
theorem encoded_path_avoids_policy :
    settle texts site.toVHost maxRewrites (getPath "/admin/x") =
        some (nobody, getPath "/admin/x") ∧
      settle texts site.toVHost maxRewrites (getPath "/%61dmin/x") =
        some (everyone, getPath "/%61dmin/x") ∧
      (bare "/srv").Serves .bare srv "/" {} (getPath "/%61dmin/x") secret ∧
      secret.path = "/admin/x" ∧
      ¬GovernedByFile .bare srv texts site.toVHost {} (getPath "/%61dmin/x") := by
  have hplain : settle texts site.toVHost maxRewrites (getPath "/admin/x") =
      some (nobody, getPath "/admin/x") := by
    rw [site.settle_eq]
    exact congrArg (Option.map _) head?_candidates_plain
  have hencoded : settle texts site.toVHost maxRewrites (getPath "/%61dmin/x") =
      some (everyone, getPath "/%61dmin/x") := by
    rw [site.settle_eq]
    exact congrArg (Option.map _) head?_candidates_encoded
  have hserves : (bare "/srv").Serves .bare srv "/" {} (getPath "/%61dmin/x") secret := by
    refine ⟨locate_encoded, ?_⟩
    rw [handle_of_locate locate_encoded]
    exact mem_cons_self
  have hpath : secret.path = "/admin/x" := by
    rw [Found.path, secret, percentDecode_encoded]
    decide +kernel
  refine ⟨hplain, hencoded, hserves, hpath, fun hgoverned ↦ ?_⟩
  have hhead := hgoverned everyone _ secret hencoded hserves
  rw [hpath, head?_candidates_plain, Option.some.injEq] at hhead
  have hpaths : "/admin/" = "/" := congrArg Router.Location.path hhead
  exact absurd hpaths (by decide +kernel)

end StaticFiles

end Hypershunt
