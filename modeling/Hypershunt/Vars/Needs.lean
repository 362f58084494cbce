import Hypershunt.Vars.Substitution

/-!
# What a route needs

For each route the server works out whether its templates can read the identity or the country of
the client, which headers they can read, and whether they refer to variables at all. What is not
needed is not looked up. The needs of a variable are those of its templates and of the variables in
them, worked out with a memory of what has been done (`resolveNeeds`); by `needs_sound`, two
requests that differ in nothing but what a template does not need are rendered alike.
-/

namespace Hypershunt

open List

namespace Vars

open Relation VarNeeds Template VarScope

variable {R S : Type}

/-! ## Needs as sets of attributes -/

def VarNeeds.Reads (nd : VarNeeds) : Attribute → Prop
  | .principal => nd.principal = true
  | .geoip => nd.geoip = true
  | .header name => name ∈ nd.headers

section Reads

variable {nd nd' : VarNeeds} {a : Attribute}

theorem VarNeeds.not_reads_empty : ¬({} : VarNeeds).Reads a := by
  rcases a with _ | _ | name <;> simp [VarNeeds.Reads]

theorem VarNeeds.reads_merge : (nd.merge nd').Reads a ↔ nd.Reads a ∨ nd'.Reads a := by
  rcases a with _ | _ | name
  · exact Bool.or_eq_true_iff
  · exact Bool.or_eq_true_iff
  · exact mem_foldl_pushNew

theorem VarNeeds.reads_addRefs {r : TemplateRefs VarId} :
    (nd.addRefs r).Reads a ↔ nd.Reads a ∨ r.Reads a := by
  rcases a with _ | _ | name
  · exact Bool.or_eq_true_iff
  · exact Bool.or_eq_true_iff
  · exact mem_foldl_pushNew

/-- A loop that merges. -/
theorem VarNeeds.reads_foldl {ι : Type} {f : VarNeeds → ι → VarNeeds} {P : ι → Prop}
    (hf : ∀ nd i, (f nd i).Reads a ↔ nd.Reads a ∨ P i) (l : List ι) (nd : VarNeeds) :
    (l.foldl f nd).Reads a ↔ nd.Reads a ∨ ∃ i ∈ l, P i := by
  induction l generalizing nd with
  | nil => simp
  | cons i l ih => rw [foldl_cons, ih, hf, exists_mem_cons_iff, or_assoc]

theorem VarBody.reads_direct {body : VarBody VarId R} : body.direct.Reads a ↔ body.Reads a := by
  rw [VarBody.direct, reads_foldl (P := fun t ↦ (refs t).Reads a)
    (fun nd t ↦ reads_addRefs), or_iff_right not_reads_empty, VarBody.Reads]

theorem VarNeeds.reads_absorb {t : Template VarId} {table : VarTable R} :
    (nd.absorb t table).Reads a ↔
      (nd.Reads a ∨ t.refs.Reads a) ∨ ∃ id ∈ t.refs.vars, (table.needsOf id).Reads a := by
  rw [absorb, reads_foldl (fun nd id ↦ ?_), reads_addRefs]
  rw [reads_merge]
  rfl

theorem VarNeeds.usesVars_absorb {t : Template VarId} {table : VarTable R}
    (h : t.refs.vars ≠ []) : (nd.absorb t table).usesVars = true := by
  have hkeep : ∀ (ids : List VarId) (nd : VarNeeds), nd.usesVars = true →
      (ids.foldl (fun nd id ↦ { nd with usesVars := true }.merge (table.needsOf id)) nd).usesVars =
        true := by
    intro ids
    induction ids with
    | nil => exact fun nd h ↦ h
    | cons id ids ih => exact fun nd _ ↦ ih _ rfl
  obtain ⟨id, ids, hids⟩ := exists_cons_of_ne_nil h
  rw [absorb, hids, foldl_cons]
  exact hkeep ids _ rfl

end Reads

/-! ## Needs of variables -/

section Resolve

open Slots Dependency

variable {table : VarTable R}

/-- The needs of a variable, from those of the variables it refers to. -/
def VarTable.mergeNeeds (table : VarTable R) (ν : VarId → VarNeeds) (i : VarId) : VarNeeds :=
  (table.depsOf i).foldl (fun nd d ↦ nd.merge (ν d)) (table.directOf i)

theorem VarTable.local_mergeNeeds (table : VarTable R) :
    Closed.Local table.depsOf table.mergeNeeds :=
  fun _ _ _ h ↦ foldl_ext _ _ _ fun nd d hd ↦ congrArg nd.merge (h d hd)

theorem VarTable.Sound.freezes_resolveNeeds (h : table.Sound) {depth : ℕ}
    (hdepth : table.defs.length ≤ depth) {i : VarId} (hi : i < table.defs.length) :
    Freezes table.mergeNeeds (table.reach i) table.defs.length
      (resolveNeeds table.directOf table.depsOf depth i) fun ν ↦ ν i := by
  refine h.closed.induction (P := fun depth i ↦ Freezes table.mergeNeeds (table.reach i)
    table.defs.length (resolveNeeds table.directOf table.depsOf depth i) fun ν ↦ ν i) h.acyclic ?_
    (by rwa [length_range]) (mem_range.mpr hi)
  intro depth i hi ih
  have hloop : Freezes table.mergeNeeds {j | TransGen (fun i j ↦ j ∈ table.depsOf i) i j}
      table.defs.length ((table.depsOf i).foldlM (fun nd d ↦
        nd.merge <$> resolveNeeds table.directOf table.depsOf depth d) (table.directOf i))
      fun ν ↦ table.mergeNeeds ν i := by
    refine Freezes.foldlM (g := fun ν (nd : VarNeeds) d ↦ nd.merge (ν d)) (fun nd d hd ↦ ?_) _
    exact ((ih d hd).mono fun j hj ↦ TransGen.head' hd hj).map nd.merge
  exact hloop.stored (mem_range.mp hi) ReflTransGen.refl (fun j hj ↦ hj.to_reflTransGen)
    (h.acyclic i)

/-- The loop over all variables: what it leaves are solutions, for every variable in it. -/
theorem VarTable.Sound.run_resolveNeeds (h : table.Sound) {ν : VarId → VarNeeds}
    (hν : ∀ i < table.defs.length, ν i = table.mergeNeeds ν i) (is : List VarId)
    (his : ∀ i ∈ is, i < table.defs.length) {s : Slots VarNeeds}
    (hs : s.length = table.defs.length) (hold : ∀ i nd, s.value i = some nd → nd = ν i) :
    ∃ s', (is.foldlM (fun _ i ↦ (fun _ ↦ ()) <$> resolveNeeds table.directOf table.depsOf
        table.defs.length i) ()).run s = some ((), s') ∧ Grows s s' ∧
      ∀ i ∈ is, s'.value i = some (ν i) := by
  induction is generalizing s with
  | nil => exact ⟨s, rfl, Grows.refl s, fun i hi ↦ (nomatch hi)⟩
  | cons i is ih =>
    have hi := his i mem_cons_self
    have hlt : ∀ j ∈ table.reach i, j < table.defs.length := fun j hj ↦
      mem_range.mp (h.of_mem_reach hi hj).1
    obtain ⟨t, hrun, hgrows, hnew⟩ := (h.freezes_resolveNeeds le_rfl hi).run_eq h.closed h.acyclic
      table.local_mergeNeeds (fun j hj ↦ h.of_mem_reach hi hj)
      (fun σ τ hστ ↦ hστ i ReflTransGen.refl) (fun j hj ↦ hν j (hlt j hj)) hs
      fun j _ nd ↦ hold j nd
    have ht : t.length = table.defs.length := hgrows.length_eq.trans hs
    obtain ⟨s', hrun', hgrows', hvalues⟩ := ih (fun j hj ↦ his j (mem_cons_of_mem i hj)) ht
      fun j nd hj ↦ (hnew j nd hj).elim (hold j nd) And.right
    refine ⟨s', ?_, hgrows.trans hgrows', fun j hj ↦ ?_⟩
    · rw [foldlM_cons, StateT.run_bind, StateT.run_map, hrun]
      exact hrun'
    · rcases mem_cons.mp hj with rfl | hj
      · obtain ⟨depth, hdepth⟩ := Nat.exists_eq_succ_of_ne_zero (Nat.ne_zero_of_lt hi)
        rw [hdepth, resolveNeeds] at hrun
        exact hgrows'.value_eq (value_of_run_stored (ht ▸ hi) hrun)
      · exact hvalues j hj

theorem VarTable.Sound.resolved_eq (h : table.Sound) :
    ∃ ν resolved, table.resolved = some resolved ∧
      ∀ i < table.defs.length, ν i = table.mergeNeeds ν i ∧ resolved.value i = some (ν i) := by
  have : Inhabited VarNeeds := ⟨{}⟩
  obtain ⟨ν, hν⟩ := h.closed.exists_solution h.acyclic table.local_mergeNeeds
  have hν : ∀ i < table.defs.length, ν i = table.mergeNeeds ν i := fun i hi ↦
    hν i (mem_range.mpr hi)
  obtain ⟨resolved, hrun, -, hvalues⟩ := h.run_resolveNeeds (s := .fresh table.defs.length) hν
    (List.range table.defs.length) (fun i hi ↦ mem_range.mp hi) length_replicate
    fun i nd hi ↦ (nomatch value_fresh.symm.trans hi)
  refine ⟨ν, resolved, ?_, fun i hi ↦ ⟨hν i hi, hvalues i (mem_range.mpr hi)⟩⟩
  rw [VarTable.resolved, hrun]
  rfl

theorem VarTable.Sound.needsOf_computeNeeds (h : table.Sound) :
    ∃ ν : VarId → VarNeeds, (∀ i < table.defs.length, ν i = table.mergeNeeds ν i) ∧
      ∀ i < table.defs.length, table.computeNeeds.needsOf i = ν i := by
  obtain ⟨ν, resolved, hresolved, hν⟩ := h.resolved_eq
  refine ⟨ν, fun i hi ↦ (hν i hi).1, fun i hi ↦ ?_⟩
  have hd : table.defs[i]? = some table.defs[i] := getElem?_eq_getElem hi
  rw [VarTable.needsOf, VarTable.computeNeeds, hresolved]
  simp [hd, (hν i hi).2]

/-- **The needs of a variable** are what it reads itself and what those it refers to need. -/
theorem reads_needsOf {x : RegexEngine R} {layers : List (List VariableDef)}
    (h : buildLayered x layers = .ok table) {i : VarId} {d : VarDef R}
    (hd : table.defs[i]? = some d) {a : Attribute} :
    (table.needsOf i).Reads a ↔
      d.body.Reads a ∨ ∃ j ∈ table.depsOf i, (table.needsOf j).Reads a := by
  obtain ⟨raw, -, hsound, rfl⟩ := exists_of_buildLayered h
  obtain ⟨needs, hi⟩ := raw.getElem?_computeNeeds i
  rw [hi, Option.map_eq_some_iff] at hd
  obtain ⟨d', hd', rfl⟩ := hd
  obtain ⟨ν, hν, hneeds⟩ := hsound.needsOf_computeNeeds
  have hlt : i < raw.defs.length := (List.getElem?_eq_some_iff.mp hd').1
  have hdirect : raw.directOf i = d'.body.direct := by
    rw [VarTable.directOf, hd', Option.elim_some]
  rw [hneeds i hlt, hν i hlt, VarTable.mergeNeeds, reads_foldl (P := fun j ↦ (ν j).Reads a) (fun nd
    j ↦ reads_merge), hdirect, VarBody.reads_direct, VarTable.depsOf_computeNeeds]
  refine or_congr_right (exists_congr fun j ↦ and_congr_right fun hj ↦ ?_)
  rw [hneeds j (mem_range.mp (hsound.closed.mem (mem_range.mpr hlt) hj))]

end Resolve

/-! ## Requests that are told apart by nothing needed -/

/-- Two requests that agree on everything but what is not needed. -/
structure VarNeeds.AgreeOn (nd : VarNeeds) (ctx ctx' : RequestContext S) : Prop where
  clientIp : ctx.clientIp = ctx'.clientIp
  method : ctx.method = ctx'.method
  path : ctx.path = ctx'.path
  query : ctx.query = ctx'.query
  pathAndQuery : ctx.pathAndQuery = ctx'.pathAndQuery
  host : ctx.host = ctx'.host
  scheme : ctx.scheme = ctx'.scheme
  clientCertSubject : ctx.clientCertSubject = ctx'.clientCertSubject
  clientCertSans : ctx.clientCertSans = ctx'.clientCertSans
  principal : nd.principal = true → ctx.username = ctx'.username ∧ ctx.groups = ctx'.groups
  geoip : nd.geoip = true → ctx.country = ctx'.country
  headers : ∀ name ∈ nd.headers, ctx.headerValue name = ctx'.headerValue name
  vars : nd.usesVars = true → ctx.vars = ctx'.vars

theorem VarNeeds.AgreeOn.agree {nd : VarNeeds} {ctx ctx' : RequestContext S}
    (h : nd.AgreeOn ctx ctx') : ctx.Agree nd.Reads ctx' where
  known v huser hgroups hcountry := by
    rcases v with _ | _ | _ | _ | _ | _ | _ | _ | _ | _ | _ | _
    case clientIp => exact h.clientIp
    case username => exact absurd rfl huser
    case groups => exact absurd rfl hgroups
    case method => exact h.method
    case path => exact h.path
    case query => exact h.query
    case pathAndQuery => exact h.pathAndQuery
    case host => exact h.host
    case scheme => exact h.scheme
    case clientCertSubject => exact h.clientCertSubject
    case clientCertSans => exact h.clientCertSans
    case country => exact absurd rfl hcountry
  principal := h.principal
  geoip := h.geoip
  header name := h.headers name

/-- Slots for the variables of a request. -/
def VarScope.freshSlots (scope : VarScope R) : Slots String := scope.elim [] VarTable.newSlots

section Needs

variable {x : RegexEngine R} {layers : List (List VariableDef)} {table : VarTable R}
  {ctx ctx' : RequestContext (VarScope R)} {t : Template VarId}

/-- **A variable** has the same value for requests that agree on what it needs. -/
theorem eq_of_agree_needsOf (h : buildLayered x layers = .ok table) {σ τ : VarId → String}
    (hσ : ∀ i < table.defs.length, σ i = table.expand x ctx σ i)
    (hτ : ∀ i < table.defs.length, τ i = table.expand x ctx' τ i) {i : VarId}
    (hi : i < table.defs.length) (hagree : ctx.Agree (table.needsOf i).Reads ctx') :
    σ i = τ i := by
  obtain ⟨hrep, hacyclic⟩ := represents_of_buildLayered h
  refine hrep.closed.induction_on
    (P := fun i ↦ ctx.Agree (table.needsOf i).Reads ctx' → σ i = τ i) hacyclic ?_
    (mem_range.mpr hi) hagree
  intro i hi ih hagree
  have hlt := mem_range.mp hi
  have hd : table.defs[i]? = some table.defs[i] := getElem?_eq_getElem hlt
  rw [hσ i hlt, hτ i hlt, VarTable.expand_of_getElem? hd, VarTable.expand_of_getElem? hd]
  refine VarBody.expand_congr x (fun j hj ↦ ?_) (hagree.mono fun a ha ↦ ?_)
  · rw [← VarTable.depsOf_of_getElem? hd] at hj
    exact ih j hj (hagree.mono fun a ha ↦ (reads_needsOf h hd).mpr (Or.inr ⟨j, hj, ha⟩))
  · exact (reads_needsOf h hd).mpr (Or.inl ha)

theorem VarTable.Represents.lt_of_mem_vars (h : table.Represents x layers)
    {caps : Option CaptureScope} {s : String}
    (ht : build (some table.names.get) caps s = .ok t) :
    ∀ v ∈ t.refs.vars, v < table.defs.length := by
  intro v hv
  obtain ⟨fallback, hmem⟩ := mem_vars.mp hv
  obtain ⟨tok, -, htok⟩ := exists_of_mem_mapM ht hmem
  rcases tok with l | ⟨name, fallback', raw⟩
  · cases htok
  · obtain ⟨d, hd, -⟩ := h.getElem?_of_get (TemplatePart.vars_of_build htok)
    exact (List.getElem?_eq_some_iff.mp hd).1

/-- **Needs are sound**: from fresh slots, the text depends on nothing that a template does not
need. -/
theorem needs_sound (h : buildLayered x layers = .ok table) {caps : Option CaptureScope}
    {s : String} (ht : build (some table.names.get) caps s = .ok t) (nd : VarNeeds)
    (hagree : (nd.absorb t table).AgreeOn ctx ctx')
    (hscope : (nd.absorb t table).usesVars = true → ctx.vars = some table ∨ ctx.vars = none)
    (captured : Option (List (Option String))) {depth : ℕ} (hdepth : table.defs.length ≤ depth) :
    ∃ text slots slots',
      (t.renderInner (get x ctx depth) ctx captured).run ctx.vars.freshSlots =
        some (text, slots) ∧
      (t.renderInner (get x ctx' depth) ctx' captured).run ctx'.vars.freshSlots =
        some (text, slots') := by
  obtain ⟨hrep, hacyclic⟩ := represents_of_buildLayered h
  have hsound := hrep.sound hacyclic
  have hlt := hrep.lt_of_mem_vars ht
  have hreads : ctx.Agree t.refs.Reads ctx' :=
    hagree.agree.mono fun a ha ↦ reads_absorb.mpr (Or.inl (Or.inr ha))
  by_cases hscopes : (∀ v ∈ t.refs.vars, get x ctx depth v = pure "") ∧
      ∀ v ∈ t.refs.vars, get x ctx' depth v = pure ""
  · refine ⟨t.expand (fun _ ↦ "") ctx captured, ctx.vars.freshSlots, ctx'.vars.freshSlots, ?_, ?_⟩
    · rw [renderInner_pure hscopes.1]
      rfl
    · rw [renderInner_pure hscopes.2, expand_congr (fun _ _ ↦ rfl) hreads]
      rfl
  -- otherwise a variable is asked for, in the scope of the table
  have hvars : t.refs.vars ≠ [] := by
    intro hnil
    rw [hnil] at hscopes
    exact hscopes ⟨fun v hv ↦ (nomatch hv), fun v hv ↦ (nomatch hv)⟩
  have huses : (nd.absorb t table).usesVars = true := usesVars_absorb hvars
  have heq := hagree.vars huses
  have hdepth' : depth ≠ 0 := by
    obtain ⟨v, hv⟩ := exists_mem_of_ne_nil _ hvars
    exact Nat.ne_zero_of_lt ((hlt v hv).trans_le hdepth)
  have hctx : ctx.vars = some table := (hscope huses).resolve_right fun hnone ↦
    hscopes ⟨fun v _ ↦ get_of_none x hnone hdepth' v,
      fun v _ ↦ get_of_none x (heq ▸ hnone) hdepth' v⟩
  obtain ⟨σ, hσ⟩ := hrep.closed.exists_solution hacyclic (table.local_expand x ctx)
  obtain ⟨τ, hτ⟩ := hrep.closed.exists_solution hacyclic (table.local_expand x ctx')
  have hσ : ∀ i < table.defs.length, σ i = table.expand x ctx σ i := fun i hi ↦
    hσ i (mem_range.mpr hi)
  have hτ : ∀ i < table.defs.length, τ i = table.expand x ctx' τ i := fun i hi ↦
    hτ i (mem_range.mpr hi)
  have hfresh : ∀ σ : VarId → String, ∀ i ∈ table.reachOf t, ∀ v,
      table.newSlots.value i = some v → v = σ i := fun σ i _ v hv ↦
    (nomatch Slots.value_fresh.symm.trans hv)
  obtain ⟨slots, hrun, -⟩ := hsound.run_render hctx hdepth hlt captured hσ length_replicate
    (hfresh σ)
  obtain ⟨slots', hrun', -⟩ := hsound.run_render (heq ▸ hctx) hdepth hlt captured hτ
    length_replicate (hfresh τ)
  have hvalues : t.expand σ ctx captured = t.expand τ ctx' captured := by
    refine expand_congr (fun v hv ↦ ?_) hreads
    refine eq_of_agree_needsOf h hσ hτ (hlt v hv) (hagree.agree.mono fun a ha ↦ ?_)
    exact reads_absorb.mpr (Or.inr ⟨v, hv, ha⟩)
  refine ⟨t.expand σ ctx captured, slots, slots', ?_, ?_⟩
  · rw [hctx]
    exact hrun
  · rw [← heq, hctx, hvalues]
    exact hrun'

end Needs

/-- A greeting needs nothing but the table, so that everybody gets the same. -/
theorem needs_sound_greeting :
    ∃ table t, buildLayered substringRegex greetingLayers = .ok table ∧
      build (some table.names.get) none "\x7bline\x7d" = .ok t ∧
      absorb {} t table = { usesVars := true } ∧
      ∃ text slots slots',
        (t.renderInner (get substringRegex (greetingContext table) 2)
          (greetingContext table) none).run table.newSlots = some (text, slots) ∧
        (t.renderInner (get substringRegex
            { greetingContext table with username := "alice", country := "FR" } 2)
          { greetingContext table with username := "alice", country := "FR" } none).run
          table.newSlots = some (text, slots') := by
  have hneeds : (buildLayered substringRegex greetingLayers).toOption.bind (fun table ↦
      (build (some table.names.get) none "\x7bline\x7d").toOption.map fun t ↦
        (absorb {} t table, table.defs.length)) =
      some (({ usesVars := true } : VarNeeds), 2) := by decide +kernel
  obtain ⟨table, htable, hneeds⟩ := Option.bind_eq_some_iff.mp hneeds
  obtain ⟨t, ht, hneeds⟩ := Option.map_eq_some_iff.mp hneeds
  obtain ⟨hneeds, hlength⟩ := Prod.mk.inj hneeds
  have h := eq_ok_of_toOption htable
  replace ht := eq_ok_of_toOption ht
  refine ⟨table, t, h, ht, hneeds, ?_⟩
  have hagree : (absorb {} t table).AgreeOn (greetingContext table)
      { greetingContext table with username := "alice", country := "FR" } := by
    rw [hneeds]
    exact ⟨rfl, rfl, rfl, rfl, rfl, rfl, rfl, rfl, rfl, fun h ↦ (nomatch h), fun h ↦ (nomatch h),
      fun _ h ↦ (nomatch h), fun _ ↦ rfl⟩
  exact needs_sound h ht {} hagree (fun _ ↦ Or.inl rfl) none hlength.le

end Vars

end Hypershunt
