import Hypershunt.Foundation.HashMap
import Hypershunt.Http.Message
import Mathlib.Data.List.AList
import Mathlib.Data.List.Sort

/-!
# Routing

`router.rs` and `matcher.rs`: the virtual host of a request on a listener, the location for its
path, and rewrites, which change the target of the request and start over with the choice of the
location. What a location does with a request is an arbitrary type `L` here.

Regular expressions and the assembly of a rewritten target belong to libraries and are parameters.
-/

namespace Hypershunt

open List Option

namespace Router

open Text

/-- The libraries that routing rests on; `R` is the type of compiled regular expressions. -/
structure Externals (R : Type) where
  isMatch : R → String → Bool
  /-- Replace the first match; the replacement may refer to what was captured. -/
  replace : R → String → String → String
  /-- The target with another path and query, if the text is one and the parts fit together. -/
  withPathAndQuery : Uri → String → Option Uri
  withPathAndQuery_isSome : ∀ {u u' : Uri} {s : String}, withPathAndQuery u s = some u' →
    u'.pathAndQuery.isSome = true
  /-- The rest of a target that has a path plays no part in this. -/
  withPathAndQuery_congr : ∀ {u u' : Uri} (s : String), u.pathAndQuery.isSome = true →
    u'.pathAndQuery.isSome = true →
    (withPathAndQuery u s).map Uri.pathAndQuery = (withPathAndQuery u' s).map Uri.pathAndQuery

/-- Texts as regular expressions that match themselves. -/
def texts : Externals String where
  isMatch re s := re == s
  replace re s «to» := if re == s then «to» else s
  withPathAndQuery uri s := ((Uri.ofPathAndQuery s).bind Uri.pathAndQuery).map fun pq ↦
    { uri with pathAndQuery := some pq }
  withPathAndQuery_isSome := by
    intro u u' s h
    obtain ⟨pq, -, rfl⟩ := Option.map_eq_some_iff.mp h
    rfl
  withPathAndQuery_congr := by
    intro u u' s _ _
    rw [Option.map_map, Option.map_map]
    rfl

/-! ## Matchers -/

/-- One alternative for a header value. -/
inductive HeaderMatch (R : Type)
  | exact (want : String)
  | regex (re : R)

inductive MatchPredicate (R : Type)
  | method (methods : List Method)
  | header (name : HeaderName) (values : List (HeaderMatch R))
  | headerAbsent (name : HeaderName)
  | query (name : String) (values : List String)
  | path (patterns : List R)
  | not (inner : List (MatchPredicate R))

structure Matcher (R : Type) where
  predicates : List (MatchPredicate R)

/-- The value of a query parameter where it occurs first; without `=` it is empty. -/
def queryParam (name query : String) : Option String :=
  ((split '&' query).map fun pair ↦ (splitOnce '=' pair).getD (pair, "")).lookup name

section

variable {R : Type} (x : Externals R)

def HeaderMatch.accepts (s : String) : HeaderMatch R → Bool
  | .exact want => want == s
  | .regex re => x.isMatch re s

mutual

def MatchPredicate.matches (req : Request) : MatchPredicate R → Bool
  | .method methods => methods.contains req.method
  | .header name values => (req.headers.getStr name).any fun s ↦ values.any fun m ↦ m.accepts x s
  | .headerAbsent name => !req.headers.containsKey name
  | .query name values =>
    (req.uri.query.bind (queryParam name)).any fun v ↦ values.contains v
  | .path patterns => patterns.any fun re ↦ x.isMatch re req.uri.path
  | .not inner => !allMatch req inner

/-- Every predicate accepts the request. -/
def allMatch (req : Request) : List (MatchPredicate R) → Bool
  | [] => true
  | p :: ps => p.matches req && allMatch req ps

end

def Matcher.matches (m : Matcher R) (req : Request) : Bool := allMatch x req m.predicates

end

/-! ## Locations -/

structure Rewrite (R : Type) where
  «from» : R
  «to» : String

structure Location (R L : Type) where
  path : String
  matcher : Option (Matcher R)
  rewrite : Option (Rewrite R)
  /-- What is done with a request that gets here. -/
  data : L

open Location

structure VHost (R L : Type) where
  locations : List (Location R L)

structure VhostTable (R L : Type) where
  literals : HashMap String (VHost R L)
  patterns : List (R × VHost R L)
  default : Option (VHost R L)

structure Table (R L : Type) where
  /-- One table for each listener, by the name of the listener. -/
  tables : AList fun _ : String ↦ VhostTable R L

section

variable {R L : Type} (x : Externals R)

/-- `strip_port`: up to the bracket of an IPv6 address, else up to the colon. -/
def stripPort (host : String) : String :=
  if startsWith "[" host ∧ ']' ∈ host.toList then
    String.ofList (host.toList.takeWhile (· != ']') ++ [']'])
  else String.ofList (host.toList.takeWhile (· != ':'))

/-- Longer paths come first, and earlier ones of the same length. -/
def Location.before (a b : Location R L × ℕ) : Prop :=
  b.1.path.utf8ByteSize < a.1.path.utf8ByteSize ∨
    b.1.path.utf8ByteSize = a.1.path.utf8ByteSize ∧ a.2 ≤ b.2

instance (a b : Location R L × ℕ) : Decidable (before a b) :=
  inferInstanceAs (Decidable (_ ∨ _))

/-- The locations whose path the target starts with, in the order they are tried. -/
def candidates (vhost : VHost R L) (path : String) : List (Location R L) :=
  ((vhost.locations.zipIdx.filter fun l ↦ startsWith l.1.path path).insertionSort
    before).map Prod.fst

/-- A location without a matcher takes every request. -/
def Location.accepts (loc : Location R L) (req : Request) : Bool :=
  loc.matcher.all fun m ↦ m.matches x req

def pickLocation (vhost : VHost R L) (req : Request) : Option (Location R L) :=
  (candidates vhost req.uri.path).find? fun loc ↦ loc.accepts x req

/-- The path that a rewrite gives, which is not empty, and a query after a question mark. -/
def Rewrite.pathAndQuery (rw : Rewrite R) (path : String) : String :=
  let replaced := x.replace rw.from path rw.«to»
  let (newPath, newQuery) := match splitOnce '?' replaced with
    | some (p, q) => (p, some q)
    | none => (replaced, none)
  let newPath := if newPath.isEmpty then "/" else newPath
  match newQuery with
  | some q => newPath ++ "?" ++ q
  | none => newPath

/-- The target that a rewrite gives, if its pattern matches and the result is a target. -/
def applyRewrite (uri : Uri) (rw : Rewrite R) : Option Uri :=
  if x.isMatch rw.from uri.path then x.withPathAndQuery uri (rw.pathAndQuery x uri.path) else none

def maxRewrites : ℕ := 10

/-- Choose a location, and start over where it rewrites the target; give up after so many times. -/
def settle (vhost : VHost R L) : ℕ → Request → Option (Location R L × Request)
  | 0, _ => none
  | n + 1, req =>
    match pickLocation x vhost req with
    | none => none
    | some loc =>
      match loc.rewrite.bind (applyRewrite x req.uri) with
      | some uri => settle vhost n { req with uri }
      | none => some (loc, req)

def VhostTable.resolve (table : VhostTable R L) : Option String → Option (VHost R L)
  | none => table.default
  | some host =>
    match table.literals.lookup host with
    | some vhost => some vhost
    | none =>
      match table.patterns.find? fun p ↦ x.isMatch p.1 host with
      | some (_, vhost) => some vhost
      | none => table.default

/-- `resolve_vhost`: a router with one table uses it whatever the listener. -/
def Table.resolveVhost (r : Table R L) (host : Option String) (listenerBind : String) :
    Option (VHost R L) := do
  let table ← r.tables.lookup listenerBind <|>
    match r.tables.entries with
    | [e] => some e.2
    | _ => none
  table.resolve x host

/-- The location for a request, and the request with its target rewritten. -/
def Table.route (r : Table R L) (listenerBind : String) (req : Request) :
    Option (Location R L × Request) := do
  let vhost ← r.resolveVhost x ((req.headers.getStr "host").map stripPort) listenerBind
  settle x vhost maxRewrites req

end

/-! ## What routing depends on -/

variable {R L : Type} {x : Externals R} {vhost : VHost R L} {req req' : Request}
  {loc : Location R L}

theorem settle_rewrites {n : ℕ} (h : settle x vhost n req = some (loc, req')) :
    req' = { req with uri := req'.uri } := by
  induction n generalizing req with
  | zero => cases h
  | succ n ih =>
    rw [settle] at h
    split at h
    · cases h
    · split at h
      · have hrest := ih h
        exact hrest
      · cases h
        rfl

theorem Table.route_rewrites {r : Table R L} {bind : String}
    (h : r.route x bind req = some (loc, req')) : req' = { req with uri := req'.uri } := by
  obtain ⟨vhost, -, hsettle⟩ := bind_eq_some_iff.mp h
  exact settle_rewrites hsettle

/-! ### The order in which locations are tried -/

variable {path : String} {u u' : Uri}

theorem mem_candidates_iff :
    loc ∈ candidates vhost path ↔ loc ∈ vhost.locations ∧ startsWith loc.path path = true := by
  rw [candidates, List.mem_map]
  constructor
  · rintro ⟨⟨loc, i⟩, hmem, rfl⟩
    rw [mem_insertionSort, mem_filter] at hmem
    exact ⟨fst_mem_of_mem_zipIdx hmem.1, hmem.2⟩
  · rintro ⟨hmem, hstarts⟩
    obtain ⟨i, hi⟩ := mem_iff_getElem?.mp hmem
    refine ⟨(loc, i), ?_, rfl⟩
    rw [mem_insertionSort, mem_filter]
    exact ⟨mem_zipIdx_iff_getElem?.mpr hi, hstarts⟩

instance : Std.Total (before (R := R) (L := L)) :=
  ⟨fun a b ↦ by unfold before; omega⟩

instance : IsTrans (Location R L × ℕ) before :=
  ⟨fun a b c ↦ by unfold before; omega⟩

theorem candidates_pairwise (vhost : VHost R L) (path : String) :
    (candidates vhost path).Pairwise fun a b ↦ b.path.utf8ByteSize ≤ a.path.utf8ByteSize := by
  rw [candidates, pairwise_map]
  refine (pairwise_insertionSort before _).imp fun {a b} hab ↦ ?_
  rcases hab with hlt | ⟨heq, -⟩
  · exact hlt.le
  · exact heq.le

theorem size_le_of_head? {loc' : Location R L} (hhead : (candidates vhost path).head? = some loc)
    (hmem : loc' ∈ candidates vhost path) : loc'.path.utf8ByteSize ≤ loc.path.utf8ByteSize := by
  obtain ⟨rest, hlist⟩ := head?_eq_some_iff.mp hhead
  have hsorted := candidates_pairwise vhost path
  rw [hlist] at hmem hsorted
  rcases mem_cons.mp hmem with rfl | hrest
  · exact le_rfl
  · exact rel_of_pairwise_cons hsorted hrest

theorem head?_candidates_eq_some (hmem : loc ∈ candidates vhost path)
    (hlongest : ∀ loc' ∈ candidates vhost path, loc' ≠ loc →
      loc'.path.utf8ByteSize < loc.path.utf8ByteSize) :
    (candidates vhost path).head? = some loc := by
  rcases hhead : (candidates vhost path).head? with _ | first
  · rw [head?_eq_none_iff.mp hhead] at hmem
    exact absurd hmem not_mem_nil
  · by_contra hne
    have hlt := hlongest first (mem_of_head? hhead) fun heq ↦ hne (congrArg some heq)
    exact absurd (size_le_of_head? hhead hmem) (not_le.mpr hlt)

/-- A path with no other candidates has them in the same order. -/
theorem candidates_of_subset {path' : String} (hsub : ∀ loc ∈ vhost.locations,
      startsWith loc.path path' = true → startsWith loc.path path = true) :
    candidates vhost path' =
      (candidates vhost path).filter fun loc ↦ startsWith loc.path path' := by
  have hfilter : vhost.locations.zipIdx.filter (fun l ↦ startsWith l.1.path path') =
      (vhost.locations.zipIdx.filter fun l ↦ startsWith l.1.path path).filter
        fun l ↦ startsWith l.1.path path' := by
    rw [List.filter_filter]
    refine filter_congr fun l hl ↦ ?_
    rw [Bool.eq_iff_iff, Bool.and_eq_true]
    exact ⟨fun h ↦ ⟨h, hsub l.1 (fst_mem_of_mem_zipIdx hl) h⟩, And.left⟩
  rw [candidates, candidates, List.filter_map, hfilter]
  congr 1
  -- both lists are in order and have the same members, which their indices tell apart
  refine List.Perm.eq_of_pairwise ?_ (pairwise_insertionSort _ _)
    ((pairwise_insertionSort _ _).filter _)
    ((perm_insertionSort _ _).trans ((perm_insertionSort _ _).symm.filter _))
  rintro ⟨a, i⟩ ⟨b, j⟩ ha hb hab hba
  have hij : i = j := by
    unfold before at hab hba
    omega
  subst hij
  rw [mem_insertionSort] at ha
  have hga := mem_zipIdx_iff_getElem?.mp (mem_of_mem_filter (mem_of_mem_filter ha))
  have hgb := mem_zipIdx_iff_getElem?.mp
    (mem_of_mem_filter ((mem_insertionSort _).mp (mem_of_mem_filter hb)))
  rw [hga, Option.some.injEq] at hgb
  exact Prod.ext hgb rfl

/-- The location of a path is that of another one exactly if it is a candidate for it too, and the
other path has no candidates besides. -/
theorem head?_candidates_eq_iff {path' : String}
    (hhead : (candidates vhost path).head? = some loc) :
    (candidates vhost path').head? = some loc ↔ startsWith loc.path path' = true ∧
      ∀ loc' ∈ vhost.locations, startsWith loc'.path path' = true →
        startsWith loc'.path path = true := by
  constructor
  · intro hhead'
    have hstarts := (mem_candidates_iff.mp (mem_of_head? hhead')).2
    have hloc := (mem_candidates_iff.mp (mem_of_head? hhead)).2
    refine ⟨hstarts, fun loc' hmem hstarts' ↦ ?_⟩
    have hle := size_le_of_head? hhead' (mem_candidates_iff.mpr ⟨hmem, hstarts'⟩)
    -- of two paths that a third one starts with, the one that is no longer starts the other
    rcases prefix_or_prefix_of_prefix (startsWith_iff.mp hstarts') (startsWith_iff.mp hstarts) with
      hshort | hlong
    · exact startsWith_trans (startsWith_iff.mpr hshort) hloc
    · by_cases heq : loc.path = loc'.path
      · exact heq ▸ hloc
      · have hlt := utf8ByteSize_lt_of_startsWith (startsWith_iff.mpr hlong) heq
        exact absurd hle (not_le.mpr hlt)
  · rintro ⟨hstarts, hsub⟩
    obtain ⟨rest, hlist⟩ := head?_eq_some_iff.mp hhead
    simp only [candidates_of_subset hsub, hlist, filter_cons, hstarts, if_true, head?_cons]

/-! ### Without matchers -/

theorem mem_locations_of_mem_candidates (h : loc ∈ candidates vhost path) : loc ∈ vhost.locations :=
  (mem_candidates_iff.mp h).1

/-- The host has no location that looks at more than the path. -/
def VHost.Plain (vhost : VHost R L) : Prop := ∀ loc ∈ vhost.locations, loc.matcher = none

theorem VHost.Plain.pickLocation (hplain : vhost.Plain) (req : Request) :
    pickLocation x vhost req = (candidates vhost req.uri.path).head? := by
  have haccepts : ∀ loc ∈ candidates vhost req.uri.path, loc.accepts x req = true := by
    intro loc hloc
    rw [accepts, hplain loc (mem_locations_of_mem_candidates hloc)]
    rfl
  rw [Router.pickLocation]
  rcases hlist : candidates vhost req.uri.path with _ | ⟨loc, rest⟩
  · rfl
  · have hfirst := haccepts loc (hlist ▸ mem_cons_self)
    simp only [find?_cons, hfirst, head?_cons]

theorem VHost.Plain.settle_eq (hplain : vhost.Plain)
    (hrewrite : ∀ loc ∈ vhost.locations, loc.rewrite = none) (n : ℕ) (req : Request) :
    settle x vhost (n + 1) req =
      (candidates vhost req.uri.path).head?.map fun loc ↦ (loc, req) := by
  rw [settle, hplain.pickLocation]
  rcases hhead : (candidates vhost req.uri.path).head? with _ | loc
  · rfl
  · have hmem := mem_locations_of_mem_candidates (mem_of_head? hhead)
    simp only [hrewrite loc hmem, bind_none, map_some]

theorem Uri.path_congr (h : u.pathAndQuery = u'.pathAndQuery) : u.path = u'.path := by
  rw [Uri.path, h, ← Uri.path]

theorem applyRewrite_congr (rw : Rewrite R) (huri : u.pathAndQuery = u'.pathAndQuery)
    (hsome : u.pathAndQuery.isSome = true) :
    (applyRewrite x u rw).map Uri.pathAndQuery = (applyRewrite x u' rw).map Uri.pathAndQuery := by
  unfold applyRewrite
  rw [Uri.path_congr huri]
  split
  · exact x.withPathAndQuery_congr _ hsome (huri ▸ hsome)
  · rfl

theorem isSome_of_applyRewrite {rw : Rewrite R} (h : applyRewrite x u rw = some u') :
    u'.pathAndQuery.isSome = true := by
  unfold applyRewrite at h
  split at h
  · exact x.withPathAndQuery_isSome h
  · cases h

/-- On such a host the path decides about the location, through all rewrites. -/
theorem VHost.Plain.settle_congr (hplain : vhost.Plain) {n : ℕ} {req req' : Request}
    (huri : req.uri.pathAndQuery = req'.uri.pathAndQuery)
    (hsome : req.uri.pathAndQuery.isSome = true) :
    (settle x vhost n req).map Prod.fst = (settle x vhost n req').map Prod.fst := by
  induction n generalizing req req' with
  | zero => rfl
  | succ n ih =>
    rw [settle, settle, hplain.pickLocation, hplain.pickLocation, Uri.path_congr huri]
    rcases (candidates vhost req'.uri.path).head? with _ | loc
    · rfl
    · have hrewrite : (loc.rewrite.bind (applyRewrite x req.uri)).map Uri.pathAndQuery =
          (loc.rewrite.bind (applyRewrite x req'.uri)).map Uri.pathAndQuery := by
        rcases loc.rewrite with _ | rw
        · rfl
        · exact applyRewrite_congr rw huri hsome
      rcases hu : loc.rewrite.bind (applyRewrite x req.uri) with _ | u <;>
        rcases hu' : loc.rewrite.bind (applyRewrite x req'.uri) with _ | u' <;>
        rw [hu, hu'] at hrewrite <;> simp only [hu, hu']
      · rfl
      · cases hrewrite
      · cases hrewrite
      · -- both are rewritten, to the same path and query
        obtain ⟨rw, -, hrw⟩ := bind_eq_some_iff.mp hu
        refine ih ?_ ?_
        · exact Option.some.inj hrewrite
        · exact isSome_of_applyRewrite hrw

/-- One listener, host, path and query have one location, unless the host has matchers. -/
theorem Table.location_congr {r : Table R L} {bind : String} {req₁ req₂ req₁' req₂' : Request}
    {loc₁ loc₂ : Location R L} (h₁ : r.route x bind req₁ = some (loc₁, req₁'))
    (h₂ : r.route x bind req₂ = some (loc₂, req₂'))
    (hhost : req₁.headers.getStr "host" = req₂.headers.getStr "host")
    (huri : req₁.uri.pathAndQuery = req₂.uri.pathAndQuery)
    (hsome : req₁.uri.pathAndQuery.isSome = true)
    (hplain : ∀ vhost, r.resolveVhost x ((req₁.headers.getStr "host").map stripPort) bind =
      some vhost → vhost.Plain) : loc₁ = loc₂ := by
  obtain ⟨vhost, hvhost, hsettle₁⟩ := bind_eq_some_iff.mp h₁
  obtain ⟨vhost', hvhost', hsettle₂⟩ := bind_eq_some_iff.mp h₂
  rw [← hhost, hvhost, Option.some.injEq] at hvhost'
  subst hvhost'
  have hsame := (hplain vhost hvhost).settle_congr (x := x) (n := maxRewrites) huri hsome
  rw [hsettle₁, hsettle₂] at hsame
  exact Option.some.inj hsame

end Router

end Hypershunt
