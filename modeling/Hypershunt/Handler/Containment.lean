import Hypershunt.Handler.Governance

/-!
# Files inside the document root

A request leads to a place of the file tree, and that place is checked: it has to be inside the
root, and no name on the way from the root may start with a dot. If it is a directory, an index file
is looked for there, and what is found is opened without another check. An index file that is a
symbolic link is sent from wherever it leads.

The check for dots reads names as text. A name that is not text is not hidden, even if it starts
with a dot.

Both are exactly what can go wrong, over every tree, every configuration and every request
(`contained_iff`).
-/

namespace Hypershunt

open List Option

namespace OsString

theorem startsWith_dot_of_toStr {n : OsString} {s : String} (hs : toStr n = some s)
    (hn : Text.startsWith "." n = true) : Text.startsWith "." s = true := by
  obtain ⟨rest, hrest⟩ := Text.startsWith_iff.mp hn
  have hbytes : Text.bytes s = 0x2e :: rest.map fun c ↦ UInt8.ofNat c.toNat := by
    rw [Text.bytes_of_fromUtf8 hs, ← hrest]
    rfl
  rw [Text.bytes_eq_flatMap] at hbytes
  rcases hcs : s.toList with _ | ⟨c, cs⟩
  · rw [hcs] at hbytes
    cases hbytes
  rw [hcs, flatMap_cons] at hbytes
  have hhead : (0x2e : UInt8) ∈ String.utf8EncodeChar c := by
    obtain ⟨b, bs, hb⟩ := exists_cons_of_ne_nil String.utf8EncodeChar_ne_nil
    rw [hb, cons_append, List.cons.injEq] at hbytes
    rw [hb, hbytes.1]
    exact mem_cons_self
  have hascii : c.toNat < 128 := by
    by_contra hge
    exact absurd (Text.le_of_mem_utf8EncodeChar (not_lt.mp hge) hhead) (by decide)
  rw [Text.utf8EncodeChar_of_lt hascii, mem_singleton] at hhead
  have hdot : c = '.' := by
    have htoNat := congrArg UInt8.toNat hhead
    rw [UInt8.toNat_ofNat', Nat.mod_eq_of_lt (hascii.trans (by decide))] at htoNat
    exact Char.toNat_inj.mp htoNat.symm
  rw [Text.startsWith_iff, hcs, hdot]
  exact prefix_append ['.'] cs

end OsString

namespace StaticFiles

open Listener (RequestContext)
open StaticHandler (bare)

/-- Inside the root, and not hidden there. -/
def Contained (fs : FileSystem) (root target : OsString) : Prop :=
  ∃ r c, fs.canonicalize root = some r ∧ fs.canonicalize target = some c ∧
    Path.startsWith c r = true ∧
    ∀ n ∈ (Path.components c).drop (Path.components r).length, Text.startsWith "." n = false

/-- The same for places of a tree. -/
def Below (top place : List OsString) : Prop :=
  top <+: place ∧ ∀ n ∈ place.drop top.length, Text.startsWith "." n = false

section Places

variable {t : FileTree} {top place : List OsString}

theorem startsWith_render (htop : t.Real top) (hplace : t.Real place) :
    Path.startsWith (FileTree.render place) (FileTree.render top) = true ↔ top <+: place := by
  rw [Path.startsWith, FileTree.components_render htop, FileTree.components_render hplace,
    isPrefixOf_iff_prefix, cons_prefix_cons, and_iff_right rfl]

theorem drop_components_render (htop : t.Real top) (hplace : t.Real place) :
    (Path.components (FileTree.render place)).drop
      (Path.components (FileTree.render top)).length = place.drop top.length := by
  rw [FileTree.components_render htop, FileTree.components_render hplace, length_cons,
    drop_succ_cons]

theorem contained_iff_below {root target : OsString} (htop : t.lookup root = some top)
    (hplace : t.lookup target = some place) :
    Contained t.fileSystem root target ↔ Below top place := by
  have hreal := FileTree.real_of_lookup htop
  have hreal' := FileTree.real_of_lookup hplace
  have hroot : t.fileSystem.canonicalize root = some (FileTree.render top) :=
    congrArg (Option.map FileTree.render) htop
  have htarget : t.fileSystem.canonicalize target = some (FileTree.render place) :=
    congrArg (Option.map FileTree.render) hplace
  constructor
  · rintro ⟨r, c, hr, hc, hstarts, hnames⟩
    rw [hroot, Option.some.injEq] at hr
    rw [htarget, Option.some.injEq] at hc
    subst hr hc
    rw [drop_components_render hreal hreal'] at hnames
    exact ⟨(startsWith_render hreal hreal').mp hstarts, hnames⟩
  · rintro ⟨hstarts, hnames⟩
    refine ⟨_, _, hroot, htarget, (startsWith_render hreal hreal').mpr hstarts, ?_⟩
    rwa [drop_components_render hreal hreal']

end Places

/-! ## The way to a file -/

section Way

variable {T : Type} {x : Externals T} {fs : FileSystem} {h : StaticHandler T}
  {matchedPrefix uriPath path : String} {ctx : RequestContext} {found : Found}
  {root canonicalPath target : OsString} {md : Metadata} {index : Option String}

/-- What was checked before a path is taken. -/
theorem exists_of_resolve
    (hresolve : StaticHandler.resolve fs root path = .ok (canonicalPath, md)) :
    ∃ joined r, safeJoin root path = some joined ∧ fs.canonicalize root = some r ∧
      fs.canonicalize joined = some canonicalPath ∧
      Path.startsWith canonicalPath r = true ∧
      (∀ n ∈ (Path.components canonicalPath).drop (Path.components r).length,
        StaticHandler.isHidden n = false) ∧
      fs.metadata canonicalPath = some md := by
  rw [StaticHandler.resolve] at hresolve
  split at hresolve
  · cases hresolve
  rename_i joined hjoin
  split at hresolve
  · cases hresolve
  rename_i r hr
  split at hresolve
  · cases hresolve
  rename_i c hc
  rw [ite_error_eq_ok_iff, not_not, ite_error_eq_ok_iff] at hresolve
  obtain ⟨hstarts, hhidden, hresolve⟩ := hresolve
  split at hresolve
  · cases hresolve
  rename_i md' hmd
  cases hresolve
  rw [Path.stripPrefix, if_pos hstarts, getD_some, List.any_eq_true] at hhidden
  refine ⟨joined, r, hjoin, hr, hc, hstarts, fun n hn ↦ ?_, hmd⟩
  exact Bool.eq_false_iff.mpr fun hdot ↦ hhidden ⟨n, hn, hdot⟩

theorem serves_of_locate {req : Request}
    (hlocate : h.locate x fs matchedPrefix ctx req.uri.path = .ok found)
    (hstatus : (sendFile x fs req found).status ∈ [200, 206]) :
    h.Serves x fs matchedPrefix ctx req found := by
  refine ⟨hlocate, ?_⟩
  rwa [handle_of_locate hlocate]

end Way

/-! ## Containment -/

variable {T : Type} {x : Externals T} {t : FileTree} {h : StaticHandler T}
  {matchedPrefix : String} {ctx : RequestContext} {req : Request} {found : Found}

/-- The root for a request, its place, and the place of the path that is looked up under it. -/
def Leads (x : Externals T) (t : FileTree) (h : StaticHandler T) (matchedPrefix : String)
    (ctx : RequestContext) (uriPath : String) (root : OsString) (top place : List OsString) :
    Prop :=
  ∃ relative path joined,
    h.effectiveRoot x (h.relative matchedPrefix uriPath) = .ok (root, relative) ∧
    h.lookedUp x t.fileSystem root relative ctx = .ok path ∧
    safeJoin root path = some joined ∧ t.lookup root = some top ∧ t.lookup joined = some place

/-- What the handler relies on at the place. -/
structure Harmless (h : StaticHandler T) (t : FileTree) (top place : List OsString) : Prop where
  /-- Hidden names on the way to a file are text. -/
  text : (t.node place).any Node.isDir = false →
    ∀ n ∈ place.drop top.length, Text.startsWith "." n = true → (OsString.toStr n).isSome = true
  /-- The first index file of a directory is, after all links, below the root, and not hidden. -/
  index : (t.node place).any Node.isDir = true → ∀ name target q,
    h.resolveIndex t.fileSystem (FileTree.render place) = some (name, target) →
    t.lookup target = some q → Below top q

/-- Names that are not hidden for the handler do not start with a dot if they are text. -/
theorem not_dots_iff {names : List OsString}
    (hvisible : ∀ n ∈ names, StaticHandler.isHidden n = false) :
    (∀ n ∈ names, Text.startsWith "." n = false) ↔
      ∀ n ∈ names, Text.startsWith "." n = true → (OsString.toStr n).isSome = true := by
  constructor
  · intro hdots n hn hdot
    rw [hdots n hn] at hdot
    cases hdot
  · intro htext n hn
    refine Bool.eq_false_iff.mpr fun hdot ↦ ?_
    obtain ⟨s, hs⟩ := isSome_iff_exists.mp (htext n hn hdot)
    have hhidden := hvisible n hn
    rw [StaticHandler.isHidden, hs, any_some, OsString.startsWith_dot_of_toStr hs hdot] at hhidden
    cases hhidden

theorem isDir_of_metadata {place : List OsString} {md : Metadata} (hreal : t.Real place)
    (hmd : t.fileSystem.metadata (FileTree.render place) = some md) :
    (t.node place).any Node.isDir = md.isDir := by
  have hmd' : ((t.lookup (FileTree.render place)).bind t.node).map Node.metadata = some md := hmd
  rw [FileTree.lookup_render hreal, bind_some] at hmd'
  obtain ⟨node, hnode, rfl⟩ := map_eq_some_iff.mp hmd'
  rw [hnode, any_some]
  cases node <;> rfl

theorem isSome_lookup_of_resolveIndex {dir target : OsString} {name : String}
    (hindex : h.resolveIndex t.fileSystem dir = some (name, target)) :
    ∃ q, t.lookup target = some q := by
  rw [StaticHandler.resolveIndex] at hindex
  obtain ⟨name', -, hname⟩ := exists_of_findSome?_eq_some hindex
  dsimp only at hname
  rw [ite_none_right_eq_some, Option.some.injEq, Prod.mk.injEq] at hname
  obtain ⟨hsome, rfl, rfl⟩ := hname
  rcases hq : t.lookup (Path.join dir (OsString.ofStr name')) with _ | q
  · have hnone : t.fileSystem.metadata (Path.join dir (OsString.ofStr name')) = none := by
      change ((t.lookup _).bind t.node).map Node.metadata = none
      rw [hq]
      rfl
    rw [hnone] at hsome
    cases hsome
  · exact ⟨q, rfl⟩

/-- One request: what is sent is contained exactly if the place is harmless. -/
theorem exists_leads
    (hlocate : h.locate x t.fileSystem matchedPrefix ctx req.uri.path = .ok found) :
    ∃ root top place, Leads x t h matchedPrefix ctx req.uri.path root top place ∧
      (Contained t.fileSystem root found.target ↔ Harmless h t top place) := by
  obtain ⟨root, relative, canonicalPath, md, hroot, hpath, hresolve, hpick, -⟩ :=
    exists_of_locate hlocate
  obtain ⟨joined, r, hjoin, hr, hc, hstarts, hvisible, hmd⟩ := exists_of_resolve hresolve
  obtain ⟨top, htop, hrealtop, rfl⟩ := FileTree.exists_of_canonicalize hr
  obtain ⟨place, hplace, hreal, rfl⟩ := FileTree.exists_of_canonicalize hc
  refine ⟨root, top, place,
    ⟨relative, found.relative, joined, hroot, hpath, hjoin, htop, hplace⟩, ?_⟩
  have hisDir := isDir_of_metadata hreal hmd
  rw [startsWith_render hrealtop hreal] at hstarts
  rw [drop_components_render hrealtop hreal] at hvisible
  rcases pickTarget_eq_ok_iff.mp hpick with ⟨hfile, -, htarget⟩ | ⟨hdir, name, -, hindex⟩
  · rw [htarget, contained_iff_below htop (FileTree.lookup_render hreal), Below,
      and_iff_right hstarts, not_dots_iff hvisible]
    rw [hfile] at hisDir
    refine ⟨fun htext ↦ ⟨fun _ ↦ htext, fun hdir ↦ ?_⟩, fun hharmless ↦ hharmless.text hisDir⟩
    rw [hisDir] at hdir
    cases hdir
  · obtain ⟨q, hq⟩ := isSome_lookup_of_resolveIndex hindex
    rw [contained_iff_below htop hq]
    rw [hdir] at hisDir
    constructor
    · refine fun hbelow ↦ ⟨fun hfile ↦ ?_, fun _ name' target' q' hindex' hq' ↦ ?_⟩
      · rw [hisDir] at hfile
        cases hfile
      · rw [hindex, Option.some.injEq, Prod.mk.injEq] at hindex'
        rw [← hindex'.2, hq, Option.some.injEq] at hq'
        exact hq' ▸ hbelow
    · exact fun hharmless ↦ hharmless.index hisDir name _ q hindex hq

theorem Leads.unique {uriPath : String} {root root' : OsString}
    {top top' place place' : List OsString}
    (hleads : Leads x t h matchedPrefix ctx uriPath root top place)
    (hleads' : Leads x t h matchedPrefix ctx uriPath root' top' place') :
    top = top' ∧ place = place' := by
  obtain ⟨relative, path, joined, hroot, hpath, hjoin, htop, hplace⟩ := hleads
  obtain ⟨relative', path', joined', hroot', hpath', hjoin', htop', hplace'⟩ := hleads'
  rw [hroot, Except.ok.injEq, Prod.mk.injEq] at hroot'
  obtain ⟨rfl, rfl⟩ := hroot'
  rw [hpath, Except.ok.injEq] at hpath'
  subst hpath'
  rw [hjoin, Option.some.injEq] at hjoin'
  subst hjoin'
  rw [htop, Option.some.injEq] at htop'
  rw [hplace, Option.some.injEq] at hplace'
  exact ⟨htop', hplace'⟩

/-- **A file that is sent is in the root exactly if the request leads to a harmless place.** -/
theorem contained_iff (hserves : h.Serves x t.fileSystem matchedPrefix ctx req found) :
    (∃ root relative, h.effectiveRoot x (h.relative matchedPrefix req.uri.path) =
        .ok (root, relative) ∧ Contained t.fileSystem root found.target) ↔
      ∃ root top place, Leads x t h matchedPrefix ctx req.uri.path root top place ∧
        Harmless h t top place := by
  obtain ⟨root, top, place, hleads, hiff⟩ := exists_leads hserves.1
  constructor
  · rintro ⟨root', relative', hroot', hcontained⟩
    obtain ⟨relative, -, -, hroot, -⟩ := id hleads
    rw [hroot, Except.ok.injEq, Prod.mk.injEq] at hroot'
    rw [← hroot'.1] at hcontained
    exact ⟨root, top, place, hleads, hiff.mp hcontained⟩
  · rintro ⟨root', top', place', hleads', hharmless⟩
    obtain ⟨rfl, rfl⟩ := hleads.unique hleads'
    obtain ⟨relative, -, -, hroot, -⟩ := hleads
    exact ⟨root, relative, hroot, hiff.mpr hharmless⟩

private def withLinks : FileTree :=
  .ofEntries
    [([], .dir 0 none), (["srv"], .dir 0 none), (["srv", "page.html"], .file [0x70] true none),
      (["srv", "index.html"], .link "../etc/passwd"), (["etc"], .dir 0 none),
      (["etc", "passwd"], .file [0x78] true none)]
    (by decide +kernel) (by decide +kernel)

private def linkedSite : StaticHandler Unit := { bare "/srv" with indexFiles := ["index.html"] }

private def linkedPage : Found := ⟨"/page.html", none, "/srv/page.html", ⟨false, true, 1, none⟩⟩

private theorem serves_page :
    linkedSite.Serves .bare withLinks.fileSystem "/" {} (.bare .get "/page.html" []) linkedPage :=
  serves_of_locate
    (locate_eq_ok "/srv" "/srv/page.html" ⟨false, true, 1, none⟩ (by decide +kernel) rfl
      (by decide +kernel) rfl (by decide +kernel))
    (by decide +kernel)

private def linkedIndex : Found :=
  ⟨"/", some "index.html", "/srv/index.html", ⟨false, true, 1, none⟩⟩

private theorem serves_index :
    linkedSite.Serves .bare withLinks.fileSystem "/" {} (.bare .get "/" []) linkedIndex :=
  serves_of_locate
    (locate_eq_ok "/srv" "/srv" ⟨true, false, 0, none⟩ (by decide +kernel) rfl
      (by decide +kernel) (by decide +kernel) (by decide +kernel))
    (by decide +kernel)

theorem page_contained :
    linkedSite.Serves .bare withLinks.fileSystem "/" {} (.bare .get "/page.html" []) linkedPage ∧
      ∃ root relative, linkedSite.effectiveRoot .bare (linkedSite.relative "/" "/page.html") =
        .ok (root, relative) ∧ Contained withLinks.fileSystem root linkedPage.target := by
  refine ⟨serves_page, (contained_iff serves_page).mpr
    ⟨"/srv", ["srv"], ["srv", "page.html"], ⟨"/page.html", "/page.html", "/srv/page.html",
      by decide +kernel, rfl, by decide +kernel, by decide +kernel, by decide +kernel⟩, ?_, ?_⟩⟩
  · intro _
    decide +kernel
  · intro hdir
    exact absurd hdir (by decide +kernel)

/-- The index file of the root is a link, and what is sent is the file it leads to. -/
theorem linked_index_escapes :
    linkedSite.Serves .bare withLinks.fileSystem "/" {} (.bare .get "/" []) linkedIndex ∧
      withLinks.fileSystem.canonicalize linkedIndex.target = some "/etc/passwd" ∧
      (sendFile .bare withLinks.fileSystem (.bare .get "/" []) linkedIndex).body = some [0x78] ∧
      ¬∃ root relative, linkedSite.effectiveRoot .bare (linkedSite.relative "/" "/") =
        .ok (root, relative) ∧ Contained withLinks.fileSystem root linkedIndex.target := by
  refine ⟨serves_index, by decide +kernel, by decide +kernel, ?_⟩
  rintro ⟨root, relative, hroot, hcontained⟩
  have hsrv : linkedSite.effectiveRoot .bare (linkedSite.relative "/" "/") =
      .ok ("/srv", "/") := by
    decide +kernel
  have htop : withLinks.lookup "/srv" = some ["srv"] := by decide +kernel
  have hplace : withLinks.lookup linkedIndex.target = some ["etc", "passwd"] := by decide +kernel
  rw [hsrv, Except.ok.injEq, Prod.mk.injEq] at hroot
  rw [← hroot.1, contained_iff_below htop hplace] at hcontained
  exact absurd hcontained.1 (by decide)

end StaticFiles

end Hypershunt
