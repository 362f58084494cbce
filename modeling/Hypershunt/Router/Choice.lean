import Hypershunt.Router.Route

/-!
# The location of a request

What `route` promises, without its loop: the location it returns is the best one for the target that
the request has in the end, and that target comes from the first one by rewrites, each of which is
that of the best location at the time. `Best` and `Rewrites` say this without the sorting of the
candidates and without the counter, and `Table.route_spec` compares the code with them, both when a
location is found and when none is.

The scheme and the authority of a target survive its rewrites, because the code takes the target
apart, replaces the path and query and has the library put the parts together again; that a target
has the parts it was put together from is an assumption about the library.
-/

namespace Hypershunt

open List Option

namespace Router

open Text Location

variable {R L : Type} {x : Externals R} {vhost : VHost R L} {req req' : Request}
  {loc : Location R L} {uri : Uri} {rw : Rewrite R} {i n : ℕ}

/-! ## The best location -/

/-- The path of the location starts the path of the request, and its matcher accepts the request. -/
def Location.Suits (x : Externals R) (req : Request) (loc : Location R L) : Prop :=
  loc.path.toList <+: req.uri.path.toList ∧ loc.accepts x req = true

/-- No location that suits has a longer path, and none of the same length is declared earlier. -/
structure Best (x : Externals R) (vhost : VHost R L) (req : Request) (i : ℕ)
    (loc : Location R L) : Prop where
  declared : vhost.locations[i]? = some loc
  suits : loc.Suits x req
  longest : ∀ loc' ∈ vhost.locations, loc'.Suits x req →
    loc'.path.utf8ByteSize ≤ loc.path.utf8ByteSize
  earliest : ∀ j loc', vhost.locations[j]? = some loc' → loc'.Suits x req →
    loc'.path.utf8ByteSize = loc.path.utf8ByteSize → i ≤ j

/-- The first of a sorted list with some property comes before all others that have it. -/
theorem of_find?_insertionSort_eq_some {α : Type*} {r : α → α → Prop} [DecidableRel r]
    [Std.Total r] [IsTrans α r] {p : α → Bool} {l : List α} {a : α}
    (h : (l.insertionSort r).find? p = some a) :
    a ∈ l ∧ p a = true ∧ ∀ b ∈ l, p b = true → r a b := by
  obtain ⟨hp, before, after, hlist, hbefore⟩ := find?_eq_some_iff_append.mp h
  have hsorted := pairwise_insertionSort r l
  rw [hlist] at hsorted
  refine ⟨mem_insertionSort r |>.mp (mem_of_find?_eq_some h), hp, fun b hb hpb ↦ ?_⟩
  rw [← mem_insertionSort r, hlist, List.mem_append, mem_cons] at hb
  rcases hb with hb | rfl | hb
  · exact absurd hpb (by simpa using hbefore b hb)
  · exact (Std.Total.total b b).elim id id
  · exact rel_of_pairwise_cons (pairwise_append.mp hsorted).2.1 hb

theorem pickLocation_eq (x : Externals R) (vhost : VHost R L) (req : Request) :
    pickLocation x vhost req =
      (((vhost.locations.zipIdx.filter fun l ↦ startsWith l.1.path req.uri.path).insertionSort
        before).find? fun l ↦ l.1.accepts x req).map Prod.fst := by
  rw [pickLocation, candidates, find?_map]
  rfl

private theorem mem_suitable_iff {path : String} :
    (loc, i) ∈ vhost.locations.zipIdx.filter (fun l ↦ startsWith l.1.path path) ↔
      vhost.locations[i]? = some loc ∧ loc.path.toList <+: path.toList := by
  rw [mem_filter, mem_zipIdx_iff_getElem?, startsWith_iff]

/-- **The choice of a location.** The sorting and the search find the best one. -/
theorem pickLocation_eq_some_iff :
    pickLocation x vhost req = some loc ↔ ∃ i, Best x vhost req i loc := by
  rw [pickLocation_eq, map_eq_some_iff]
  constructor
  · rintro ⟨⟨loc, i⟩, hfind, rfl⟩
    obtain ⟨hmem, haccepts, hbefore⟩ := of_find?_insertionSort_eq_some hfind
    obtain ⟨hdeclared, hstarts⟩ := mem_suitable_iff.mp hmem
    have hfirst : ∀ j loc', vhost.locations[j]? = some loc' → loc'.Suits x req →
        before (loc, i) (loc', j) := fun j loc' hj hsuits ↦
      hbefore (loc', j) (mem_suitable_iff.mpr ⟨hj, hsuits.1⟩) hsuits.2
    refine ⟨i, hdeclared, ⟨hstarts, haccepts⟩, ?_, ?_⟩
    · intro loc' hloc' hsuits
      obtain ⟨j, hj⟩ := mem_iff_getElem?.mp hloc'
      rcases hfirst j loc' hj hsuits with hlt | ⟨heq, -⟩
      · exact hlt.le
      · exact heq.le
    · intro j loc' hj hsuits hlength
      rcases hfirst j loc' hj hsuits with hlt | ⟨-, hle⟩
      · exact absurd hlength hlt.ne
      · exact hle
  · rintro ⟨i, hbest⟩
    rcases hfind : List.find? (fun l ↦ l.1.accepts x req)
      (List.insertionSort before
        (vhost.locations.zipIdx.filter fun l ↦ startsWith l.1.path req.uri.path)) with
      _ | ⟨loc', j⟩
    · have hmem := mem_suitable_iff.mpr ⟨hbest.declared, hbest.suits.1⟩
      have hnot := find?_eq_none.mp hfind (loc, i) ((mem_insertionSort _).mpr hmem)
      exact absurd hbest.suits.2 hnot
    · obtain ⟨hmem, haccepts, hbefore⟩ := of_find?_insertionSort_eq_some hfind
      obtain ⟨hdeclared, hstarts⟩ := mem_suitable_iff.mp hmem
      have hfirst := hbefore (loc, i) (mem_suitable_iff.mpr ⟨hbest.declared, hbest.suits.1⟩)
        hbest.suits.2
      have hlongest := hbest.longest loc' (mem_of_getElem? hdeclared) ⟨hstarts, haccepts⟩
      have hearliest := hbest.earliest j loc' hdeclared ⟨hstarts, haccepts⟩
      -- each of the two comes before the other, so they have one index
      have hij : j = i := by
        unfold before at hfirst
        simp only at hfirst
        omega
      subst hij
      refine ⟨(loc', j), hfind, ?_⟩
      exact Option.some.inj (hdeclared.symm.trans hbest.declared)

theorem pickLocation_eq_none_iff :
    pickLocation x vhost req = none ↔ ∀ loc ∈ vhost.locations, ¬loc.Suits x req := by
  rw [pickLocation, find?_eq_none]
  constructor
  · rintro h loc hloc ⟨hstarts, haccepts⟩
    exact h loc (mem_candidates_iff.mpr ⟨hloc, startsWith_iff.mpr hstarts⟩) haccepts
  · intro h loc hloc haccepts
    obtain ⟨hmem, hstarts⟩ := mem_candidates_iff.mp hloc
    exact h loc hmem ⟨startsWith_iff.mp hstarts, haccepts⟩

/-! ## Rewrites -/

/-- The pattern matches and the text is a target. -/
def Rewrite.Gives (x : Externals R) (rw : Rewrite R) (uri uri' : Uri) : Prop :=
  x.isMatch rw.from uri.path = true ∧
    x.withPathAndQuery uri (rw.pathAndQuery x uri.path) = some uri'

/-- The pattern does not match, or the text is no target. -/
def Rewrite.Fails (x : Externals R) (rw : Rewrite R) (uri : Uri) : Prop :=
  x.isMatch rw.from uri.path = false ∨ x.withPathAndQuery uri (rw.pathAndQuery x uri.path) = none

theorem applyRewrite_eq_some_iff {uri' : Uri} :
    applyRewrite x uri rw = some uri' ↔ rw.Gives x uri uri' := by
  rw [applyRewrite, ite_none_right_eq_some]
  rfl

theorem applyRewrite_eq_none_iff : applyRewrite x uri rw = none ↔ rw.Fails x uri := by
  rw [applyRewrite, Rewrite.Fails]
  rcases x.isMatch rw.from uri.path with _ | _
  · simp
  · simp

/-- So many rewrites in a row, each by the best location for the target it changes. -/
inductive Rewrites (x : Externals R) (vhost : VHost R L) : ℕ → Request → Request → Prop
  | refl (req : Request) : Rewrites x vhost 0 req req
  | step {n i : ℕ} {req req' : Request} {loc : Location R L} {rw : Rewrite R} {uri : Uri} :
    Best x vhost req i loc → loc.rewrite = some rw → rw.Gives x req.uri uri →
    Rewrites x vhost n { req with uri } req' → Rewrites x vhost (n + 1) req req'

/-- The request stays with the location. -/
structure Stays (x : Externals R) (vhost : VHost R L) (req : Request) (loc : Location R L) :
    Prop where
  best : ∃ i, Best x vhost req i loc
  fails : ∀ rw, loc.rewrite = some rw → rw.Fails x req.uri

/-! ### The loop -/

theorem settle_of_best (hbest : Best x vhost req i loc) (hrw : loc.rewrite = some rw)
    (hgives : rw.Gives x req.uri uri) :
    settle x vhost (n + 1) req = settle x vhost n { req with uri } := by
  rw [settle, pickLocation_eq_some_iff.mpr ⟨i, hbest⟩]
  simp only [hrw, bind_some, applyRewrite_eq_some_iff.mpr hgives]

theorem Stays.settle (h : Stays x vhost req loc) :
    settle x vhost (n + 1) req = some (loc, req) := by
  have hnone : loc.rewrite.bind (applyRewrite x req.uri) = none := by
    rcases hrw : loc.rewrite with _ | rw
    · rfl
    · exact applyRewrite_eq_none_iff.mpr (h.fails rw hrw)
  rw [Router.settle, pickLocation_eq_some_iff.mpr h.best]
  simp only [hnone]

theorem settle_of_not_suits (h : ∀ loc ∈ vhost.locations, ¬loc.Suits x req) :
    settle x vhost (n + 1) req = none := by
  rw [settle, pickLocation_eq_none_iff.mpr h]

theorem pass_cases (x : Externals R) (vhost : VHost R L) (req : Request) :
    (∀ loc ∈ vhost.locations, ¬loc.Suits x req) ∨ (∃ loc, Stays x vhost req loc) ∨
      ∃ i loc rw uri, Best x vhost req i loc ∧ loc.rewrite = some rw ∧ rw.Gives x req.uri uri := by
  rcases hpick : pickLocation x vhost req with _ | loc
  · exact .inl (pickLocation_eq_none_iff.mp hpick)
  · obtain ⟨i, hbest⟩ := pickLocation_eq_some_iff.mp hpick
    rcases happly : loc.rewrite.bind (applyRewrite x req.uri) with _ | uri
    · refine .inr (.inl ⟨loc, ⟨i, hbest⟩, fun rw hrw ↦ ?_⟩)
      rw [hrw, bind_some] at happly
      exact applyRewrite_eq_none_iff.mp happly
    · obtain ⟨rw, hrw, hgives⟩ := bind_eq_some_iff.mp happly
      exact .inr (.inr ⟨i, loc, rw, uri, hbest, hrw, applyRewrite_eq_some_iff.mp hgives⟩)

theorem Rewrites.settle {m : ℕ} (h : Rewrites x vhost m req req') :
    settle x vhost (m + n) req = settle x vhost n req' := by
  induction h with
  | refl req => rw [Nat.zero_add]
  | step hbest hrw hgives _ ih => rw [Nat.add_right_comm, settle_of_best hbest hrw hgives, ih]

/-- Every request ends: where no location suits, with a location, or after the last pass. -/
theorem exists_rewrites (x : Externals R) (vhost : VHost R L) (n : ℕ) (req : Request) :
    (∃ req', Rewrites x vhost n req req') ∨ ∃ m < n, ∃ req', Rewrites x vhost m req req' ∧
      ((∀ loc ∈ vhost.locations, ¬loc.Suits x req') ∨ ∃ loc, Stays x vhost req' loc) := by
  induction n generalizing req with
  | zero => exact .inl ⟨req, .refl req⟩
  | succ n ih =>
    rcases pass_cases x vhost req with hnone | hstays | ⟨i, loc, rw, uri, hbest, hrw, hgives⟩
    · exact .inr ⟨0, n.succ_pos, req, .refl req, .inl hnone⟩
    · exact .inr ⟨0, n.succ_pos, req, .refl req, .inr hstays⟩
    · rcases ih { req with uri } with ⟨req', hall⟩ | ⟨m, hm, req', hsome, hend⟩
      · exact .inl ⟨req', .step hbest hrw hgives hall⟩
      · exact .inr ⟨m + 1, Nat.succ_lt_succ hm, req', .step hbest hrw hgives hsome, hend⟩

theorem settle_eq_some_iff :
    settle x vhost n req = some (loc, req') ↔
      ∃ m < n, Rewrites x vhost m req req' ∧ Stays x vhost req' loc := by
  constructor
  · intro h
    rcases exists_rewrites x vhost n req with ⟨last, hall⟩ | ⟨m, hm, last, hsome, hend⟩
    · have hzero := hall.settle (n := 0)
      rw [Nat.add_zero, h] at hzero
      exact nomatch hzero
    · obtain ⟨k, rfl⟩ := Nat.exists_eq_add_of_lt hm
      rw [Nat.add_assoc, hsome.settle] at h
      rcases hend with hnone | ⟨loc', hstays⟩
      · rw [settle_of_not_suits hnone] at h
        exact nomatch h
      · rw [hstays.settle] at h
        obtain ⟨rfl, rfl⟩ := Prod.mk.inj (Option.some.inj h)
        exact ⟨m, hm, hsome, hstays⟩
  · rintro ⟨m, hm, hsome, hstays⟩
    obtain ⟨k, rfl⟩ := Nat.exists_eq_add_of_lt hm
    rw [Nat.add_assoc, hsome.settle, hstays.settle]

theorem settle_eq_none_iff :
    settle x vhost n req = none ↔
      (∃ m < n, ∃ req', Rewrites x vhost m req req' ∧
        ∀ loc ∈ vhost.locations, ¬loc.Suits x req') ∨
      ∃ req', Rewrites x vhost n req req' := by
  constructor
  · intro h
    rcases exists_rewrites x vhost n req with hall | ⟨m, hm, last, hsome, hnone | ⟨loc, hstays⟩⟩
    · exact .inr hall
    · exact .inl ⟨m, hm, last, hsome, hnone⟩
    · rw [settle_eq_some_iff.mpr ⟨m, hm, hsome, hstays⟩] at h
      exact nomatch h
  · rintro (⟨m, hm, last, hsome, hnone⟩ | ⟨last, hall⟩)
    · obtain ⟨k, rfl⟩ := Nat.exists_eq_add_of_lt hm
      rw [Nat.add_assoc, hsome.settle, settle_of_not_suits hnone]
    · have hzero := hall.settle (n := 0)
      rw [Nat.add_zero] at hzero
      rw [hzero, settle]

/-! ### What rewrites leave alone -/

/-- The library parses the text, puts it in place of the path and query of the old target, and the
result has the parts it was made from. -/
def Externals.Assembles (x : Externals R) : Prop :=
  ∃ (parse : String → Option (String × Option String)) (fromParts : Uri → Option Uri),
    (∀ parts uri, fromParts parts = some uri → uri = parts) ∧
      ∀ uri s, x.withPathAndQuery uri s =
        (parse s).bind fun pq ↦ fromParts { uri with pathAndQuery := some pq }

theorem Externals.Assembles.eq_of_withPathAndQuery (h : x.Assembles) {s : String} {uri' : Uri}
    (huri : x.withPathAndQuery uri s = some uri') :
    uri' = { uri with pathAndQuery := uri'.pathAndQuery } := by
  obtain ⟨parse, fromParts, hparts, hwith⟩ := h
  rw [hwith] at huri
  obtain ⟨pq, -, hfrom⟩ := bind_eq_some_iff.mp huri
  rw [hparts _ _ hfrom]

theorem Rewrites.eq (h : Rewrites x vhost n req req') (hx : x.Assembles) :
    req' = { req with uri := { req.uri with pathAndQuery := req'.uri.pathAndQuery } } := by
  induction h with
  | refl req => rfl
  | step _ _ hgives _ ih =>
    rw [hx.eq_of_withPathAndQuery hgives.2] at ih
    exact ih

/-! ## The result -/

/-- **Routing.** A location is returned exactly if the request stays with it after fewer than ten
rewrites; otherwise there is no host, or no location suits one of the targets, or there were ten
rewrites in a row. They change nothing but the path and query. -/
theorem Table.route_spec (hx : x.Assembles) (r : Table R L) (bind : String) (req : Request) :
    let host := r.resolveVhost x ((req.headers.getStr "host").map stripPort) bind
    (∀ loc req', r.route x bind req = some (loc, req') ↔
      ∃ vhost, host = some vhost ∧
        ∃ n < 10, Rewrites x vhost n req req' ∧ Stays x vhost req' loc) ∧
    (r.route x bind req = none ↔
      host = none ∨ ∃ vhost, host = some vhost ∧
        ((∃ n < 10, ∃ req', Rewrites x vhost n req req' ∧
          ∀ loc ∈ vhost.locations, ¬loc.Suits x req') ∨
        ∃ req', Rewrites x vhost 10 req req')) ∧
    ∀ (vhost : VHost R L) n req', Rewrites x vhost n req req' →
      req'.uri.scheme = req.uri.scheme ∧ req'.uri.authority = req.uri.authority ∧
        req' = { req with uri := req'.uri } := by
  intro host
  refine ⟨fun loc req' ↦ ?_, ?_, fun vhost n req' h ↦ ?_⟩
  · rw [Table.route, bind_eq_bind, bind_eq_some_iff]
    exact exists_congr fun vhost ↦ and_congr_right fun _ ↦ settle_eq_some_iff
  · rw [Table.route, bind_eq_bind]
    rcases hhost : host with _ | vhost
    · rw [show r.resolveVhost x ((req.headers.getStr "host").map stripPort) bind = none from hhost]
      simp
    · rw [show r.resolveVhost x ((req.headers.getStr "host").map stripPort) bind = some vhost
        from hhost, bind_some, settle_eq_none_iff]
      simp [maxRewrites]
  · have heq := h.eq hx
    refine ⟨?_, ?_, ?_⟩
    · rw [heq]
    · rw [heq]
    · rw [heq]

private theorem texts_assembles : texts.Assembles := by
  refine ⟨fun s ↦ (Uri.ofPathAndQuery s).bind Uri.pathAndQuery, some, fun parts uri h ↦ ?_,
    fun uri s ↦ ?_⟩
  · exact (Option.some.inj h).symm
  · exact map_eq_bind

/-- Old documents have moved, and the matcher keeps everyone else from the new ones. -/
private def movedDocuments : Table String String where
  tables := AList.singleton "tcp://[::]:80"
    ⟨∅, [], some ⟨[⟨"/", none, none, "site"⟩, ⟨"/docs", some ⟨[.method [.get]]⟩, none, "docs"⟩,
      ⟨"/old", none, some ⟨"/old/a", "/docs/a?moved"⟩, "archive"⟩]⟩⟩

private def oldDocument (method : Method) : Request :=
  ⟨method, ⟨some "https", some "a.test", some ("/old/a", none)⟩, .http2, [], []⟩

/-- A reader of an old document is sent to the new one, and a writer to the site. -/
theorem Table.route_spec_movedDocuments :
    (movedDocuments.route texts "tcp://[::]:80" (oldDocument .get)).map (·.1.data) = some "docs" ∧
    (movedDocuments.route texts "tcp://[::]:80" (oldDocument .put)).map (·.1.data) = some "site" ∧
    ∃ loc req', movedDocuments.route texts "tcp://[::]:80" (oldDocument .get) = some (loc, req') ∧
      req'.uri = ⟨some "https", some "a.test", some ("/docs/a", some "moved")⟩ ∧
      ∃ vhost, ∃ n < 10, Rewrites texts vhost n (oldDocument .get) req' ∧
        Stays texts vhost req' loc := by
  refine ⟨by decide +kernel, by decide +kernel, ?_⟩
  have hany : (movedDocuments.route texts "tcp://[::]:80" (oldDocument .get)).any (fun p ↦
      decide (p.2.uri = ⟨some "https", some "a.test", some ("/docs/a", some "moved")⟩)) = true := by
    decide +kernel
  obtain ⟨⟨loc, req'⟩, hroute, huri⟩ := (Option.any_eq_true _ _).mp hany
  obtain ⟨vhost, -, hsettles⟩ :=
    ((route_spec texts_assembles movedDocuments "tcp://[::]:80" (oldDocument .get)).1 loc req').mp
      hroute
  exact ⟨loc, req', hroute, of_decide_eq_true huri, vhost, hsettles⟩

end Router

end Hypershunt
