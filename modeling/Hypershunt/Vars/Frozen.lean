import Hypershunt.Vars.Needs

/-!
# Variables in one request

The slots for the values of variables belong to a request, while the templates of a request are
rendered in more than one context: a static handler tries files with the path below its location in
the place of the path of the request. A variable has the value that was computed when it was first
used, for the rest of the request. So a rendering is that of its template in its own context, but
with variables that are frozen (`renderAll_frozen`), and memory makes no difference as long as no
two renderings have a variable in reach to which their contexts give different values.
-/

namespace Hypershunt

open List Option

namespace Vars

open Slots Template VarScope VarBody

variable {R S : Type} {x : RegexEngine R} {layers : List (List VariableDef)} {table : VarTable R}

/-- The context of try-files, with the path below the location. -/
private def tryFilesContext (ctx : RequestContext S) (relative : String) : RequestContext S :=
  { ctx with path := relative }

/-- A template and the context it is rendered in. -/
structure Rendering (R : Type) where
  template : Template VarId
  ctx : RequestContext (VarScope R)

/-- What is rendered in the course of one request, one after the other. -/
def renderAll (x : RegexEngine R) (depth : ℕ) (rs : List (Rendering R)) :
    StateT (Slots String) Option (List String) :=
  rs.mapM fun r ↦ r.template.render x r.ctx depth

/-! ## Evaluation without memory -/

def VarScope.plainGet (x : RegexEngine R) (ctx : RequestContext (VarScope R)) :
    ℕ → VarId → Option String
  | 0, _ => none
  | depth + 1, id => match ctx.vars with
    | some table => table.eval x (plainGet x ctx depth) ctx id
    | none => some ""

def Template.plainRender (x : RegexEngine R) (ctx : RequestContext (VarScope R)) (depth : ℕ)
    (t : Template VarId) : Option String :=
  t.renderInner (plainGet x ctx depth) ctx none

theorem VarBody.eval_pure {m : Type → Type} [Monad m] [LawfulMonad m] {V : Type} [DecidableEq V]
    {getVar : V → m String} {σ : V → String} {ctx : RequestContext S} {body : VarBody V R}
    (h : ∀ v ∈ body.deps, getVar v = pure (σ v)) :
    body.eval x getVar ctx = pure (body.expand x σ ctx) := by
  have hrender : ∀ t ∈ body.templates, ∀ caps,
      t.renderInner getVar ctx caps = pure (t.expand σ ctx caps) := by
    intro t ht caps
    exact renderInner_pure fun v hv ↦ h v (mem_deps.mpr ⟨t, ht, hv⟩)
  rcases body with t | ⟨input, arms⟩
  · exact hrender t (mem_singleton_self t) none
  · rw [eval, hrender input mem_cons_self none, pure_bind, expand_matchArms]
    rw [evalArms_eq, evalArms_eq]
    rcases htaken : takenArm x (input.expand σ ctx none) arms with _ | ⟨arm, caps⟩
    · rfl
    · exact hrender arm.value (value_mem_templates htaken) caps

section Plain

variable {ctx : RequestContext (VarScope R)} {depth : ℕ} {σ : VarId → String}

theorem VarTable.Sound.plainGet_eq (h : table.Sound) (hctx : ctx.vars = some table)
    (hdepth : table.defs.length ≤ depth)
    (hσ : ∀ i < table.defs.length, σ i = table.expand x ctx σ i) {i : VarId}
    (hi : i < table.defs.length) : plainGet x ctx depth i = some (σ i) := by
  refine h.closed.induction (P := fun depth i ↦ plainGet x ctx depth i = some (σ i))
    h.acyclic ?_ (by rwa [length_range]) (mem_range.mpr hi)
  intro depth i hi ih
  have hlt := mem_range.mp hi
  have hd : table.defs[i]? = some table.defs[i] := getElem?_eq_getElem hlt
  rw [hσ i hlt, VarTable.expand_of_getElem? hd]
  simp only [plainGet, hctx, VarTable.eval, hd]
  refine eval_pure fun v hv ↦ ih v ?_
  rwa [VarTable.depsOf_of_getElem? hd]

theorem VarTable.Sound.plainRender_eq (h : table.Sound) (hctx : ctx.vars = some table)
    (hdepth : table.defs.length ≤ depth)
    (hσ : ∀ i < table.defs.length, σ i = table.expand x ctx σ i) {t : Template VarId}
    (ht : ∀ v ∈ t.refs.vars, v < table.defs.length) :
    t.plainRender x ctx depth = some (t.expand σ ctx none) :=
  renderInner_pure fun v hv ↦ h.plainGet_eq hctx hdepth hσ (ht v hv)

end Plain

/-! ## Renderings one after the other -/

/-- A rendering on a route with this table. -/
structure Rendering.On (r : Rendering R) (table : VarTable R) : Prop where
  vars : r.ctx.vars = some table
  lt : ∀ v ∈ r.template.refs.vars, v < table.defs.length

theorem renderAll_cons (x : RegexEngine R) (depth : ℕ) (r : Rendering R) (rs : List (Rendering R)) :
    renderAll x depth (r :: rs) = do
      let text ← r.template.render x r.ctx depth
      let texts ← renderAll x depth rs
      return text :: texts :=
  mapM_cons

section Runs

variable {depth : ℕ} {rs : List (Rendering R)} {s : Slots String}

/-- Whatever is in the slots, texts follow from what is there in the end. -/
theorem VarTable.Sound.run_renderAll_frozen (h : table.Sound) (hdepth : table.defs.length ≤ depth)
    (hrs : ∀ r ∈ rs, r.On table) (hs : s.length = table.defs.length) :
    ∃ texts s', (renderAll x depth rs).run s = some (texts, s') ∧ Grows s s' ∧
      ∀ σ, Extends σ s' → texts = rs.map (fun r ↦ r.template.expand σ r.ctx none) ∧
        ∀ i v, s'.value i = some v → s.value i = some v ∨
          ∃ r ∈ rs, i ∈ table.reachOf r.template ∧ v = table.expand x r.ctx σ i := by
  induction rs generalizing s with
  | nil => exact ⟨[], s, rfl, Grows.refl s, fun σ _ ↦ ⟨rfl, fun i v ↦ Or.inl⟩⟩
  | cons r rs ih =>
    have hr := hrs r mem_cons_self
    obtain ⟨text, t, hrun, hgrows, htext⟩ :=
      h.freezes_render (x := x) hr.vars hdepth hr.lt none s hs
    obtain ⟨texts, s', hruns, hgrows', htexts⟩ :=
      ih (fun r' hr' ↦ hrs r' (mem_cons_of_mem r hr')) (hgrows.length_eq.trans hs)
    refine ⟨text :: texts, s', ?_, hgrows.trans hgrows', fun σ hσ ↦ ⟨?_, fun i v hi ↦ ?_⟩⟩
    · rw [renderAll_cons, StateT.run_bind, render, hrun]
      simp [hruns]
    · rw [map_cons, (htext σ (hσ.of_grows hgrows')).1, (htexts σ hσ).1]
    · rcases (htexts σ hσ).2 i v hi with hold | ⟨r', hr', hnew⟩
      · rcases (htext σ (hσ.of_grows hgrows')).2 i v hold with hold | hnew
        · exact Or.inl hold
        · exact Or.inr ⟨r, mem_cons_self, hnew⟩
      · exact Or.inr ⟨r', mem_cons_of_mem r hr', hnew⟩

/-- Where contexts agree on the variables that renderings share, each has its own values. -/
theorem VarTable.Sound.run_renderAll_plain (h : table.Sound) (hdepth : table.defs.length ≤ depth)
    (hrs : ∀ r ∈ rs, r.On table) (hs : s.length = table.defs.length)
    {σ : Rendering R → VarId → String}
    (hσ : ∀ r, ∀ i < table.defs.length, σ r i = table.expand x r.ctx (σ r) i)
    (hshared : rs.Pairwise fun r r' ↦ ∀ i ∈ table.reachOf r.template,
      i ∈ table.reachOf r'.template → σ r i = σ r' i)
    (hold : ∀ r ∈ rs, ∀ i ∈ table.reachOf r.template, ∀ v, s.value i = some v → v = σ r i) :
    ∃ s', (renderAll x depth rs).run s =
      some (rs.map fun r ↦ r.template.expand (σ r) r.ctx none, s') := by
  induction rs generalizing s with
  | nil => exact ⟨s, rfl⟩
  | cons r rs ih =>
    rw [pairwise_cons] at hshared
    have hr := hrs r mem_cons_self
    obtain ⟨t, hrun, hgrows, hnew⟩ := h.run_render hr.vars hdepth hr.lt none (hσ r) hs
      (hold r mem_cons_self)
    have hold' : ∀ r' ∈ rs, ∀ i ∈ table.reachOf r'.template, ∀ v, t.value i = some v →
        v = σ r' i := by
      intro r' hr' i hi v hv
      rcases hnew i v hv with hbefore | ⟨hreach, rfl⟩
      · exact hold r' (mem_cons_of_mem r hr') i hi v hbefore
      · exact hshared.1 r' hr' i hreach hi
    obtain ⟨s', hruns⟩ := ih (fun r' hr' ↦ hrs r' (mem_cons_of_mem r hr'))
      (hgrows.length_eq.trans hs) hshared.2 hold'
    refine ⟨s', ?_⟩
    rw [renderAll_cons, StateT.run_bind, render, hrun]
    simp [hruns]

end Runs

/-- Two renderings give the variables that both have in reach the same values. -/
def Rendering.Compatible (x : RegexEngine R) (table : VarTable R) (r r' : Rendering R) : Prop :=
  ∀ i ∈ table.reachOf r.template, i ∈ table.reachOf r'.template →
    plainGet x r.ctx table.defs.length i = plainGet x r'.ctx table.defs.length i

/-- **Variables are frozen.** Every text is that of its template in its own context, with variables
that have one value for the whole request, given by their definition where they were in reach. Where
no two renderings disagree about a variable, the texts are those of evaluation without memory. -/
theorem renderAll_frozen (h : buildLayered x layers = .ok table) (rs : List (Rendering R))
    (hrs : ∀ r ∈ rs, r.ctx.vars = some table ∧
      ∃ s, compile s table.names.get = .ok r.template) :
    ∃ texts slots, (renderAll x table.defs.length rs).run table.newSlots = some (texts, slots) ∧
      (texts = rs.map (fun r ↦ r.template.expand (slots.overlay fun _ ↦ "") r.ctx none) ∧
        ∀ i v, slots.value i = some v → ∃ r ∈ rs, i ∈ table.reachOf r.template ∧
          v = table.expand x r.ctx (slots.overlay fun _ ↦ "") i) ∧
      (rs.Pairwise (Rendering.Compatible x table) →
        texts.map some = rs.map fun r ↦ r.template.plainRender x r.ctx table.defs.length) := by
  obtain ⟨hrep, hacyclic⟩ := represents_of_buildLayered h
  have hsound := hrep.sound hacyclic
  have hon : ∀ r ∈ rs, r.On table := by
    intro r hr
    obtain ⟨hvars, s, hs⟩ := hrs r hr
    exact ⟨hvars, hrep.lt_of_mem_vars hs⟩
  have hlength : table.newSlots.length = table.defs.length := length_replicate
  have hempty : ∀ {i v}, table.newSlots.value i ≠ some v := fun hv ↦
    (nomatch value_fresh.symm.trans hv)
  obtain ⟨texts, slots, hrun, -, hfrozen⟩ := hsound.run_renderAll_frozen (x := x) le_rfl hon hlength
  obtain ⟨htexts, hvalues⟩ := hfrozen _ (extends_overlay slots fun _ ↦ "")
  refine ⟨texts, slots, hrun, ⟨htexts, fun i v hi ↦ (hvalues i v hi).resolve_left hempty⟩, ?_⟩
  intro hcompatible
  have hsolution : ∀ r : Rendering R, ∃ σ : VarId → String,
      ∀ i ∈ List.range table.defs.length, σ i = table.expand x r.ctx σ i :=
    fun r ↦ hrep.closed.exists_solution hacyclic (table.local_expand x r.ctx)
  choose σ hσ using hsolution
  have hσ : ∀ r, ∀ i < table.defs.length, σ r i = table.expand x r.ctx (σ r) i := fun r i hi ↦
    hσ r i (mem_range.mpr hi)
  have hshared : rs.Pairwise fun r r' ↦ ∀ i ∈ table.reachOf r.template,
      i ∈ table.reachOf r'.template → σ r i = σ r' i := by
    refine hcompatible.imp_of_mem fun {r r'} hr hr' hrr' i hi hi' ↦ ?_
    have hlt := mem_range.mp (hsound.of_mem_reachOf (hon r hr).lt hi).1
    have heq := hrr' i hi hi'
    rw [hsound.plainGet_eq (hon r hr).vars le_rfl (hσ r) hlt,
      hsound.plainGet_eq (hon r' hr').vars le_rfl (hσ r') hlt] at heq
    exact Option.some.inj heq
  obtain ⟨slots', hrun'⟩ := hsound.run_renderAll_plain le_rfl hon hlength hσ hshared
    fun r _ i _ v hv ↦ absurd hv hempty
  obtain ⟨rfl, -⟩ := Prod.mk.inj (Option.some.inj (hrun.symm.trans hrun'))
  rw [List.map_map]
  refine map_congr_left fun r hr ↦ ?_
  exact (hsound.plainRender_eq (hon r hr).vars le_rfl (hσ r) (hon r hr).lt).symm

/-- A variable for the path. -/
private def pageLayers : List (List VariableDef) := [[⟨"page", .constant "\x7bpath\x7d", 1⟩]]

private def pageContext (table : VarTable String) : RequestContext (VarScope String) :=
  { RequestContext.empty (some table) with path := "/app/index.html" }

theorem renderAll_frozen_page :
    ∃ table t, buildLayered substringRegex pageLayers = .ok table ∧
      compile "\x7bpage\x7d" table.names.get = .ok t ∧
      ∃ texts slots, (renderAll substringRegex table.defs.length
          [⟨t, pageContext table⟩, ⟨t, pageContext table⟩]).run table.newSlots =
          some (texts, slots) ∧
        texts.map some = [t.plainRender substringRegex (pageContext table) table.defs.length,
          t.plainRender substringRegex (pageContext table) table.defs.length] := by
  have hsome : ((buildLayered substringRegex pageLayers).toOption.bind fun table ↦
      (compile "\x7bpage\x7d" table.names.get).toOption).isSome = true := by decide +kernel
  obtain ⟨t, hsome⟩ := isSome_iff_exists.mp hsome
  obtain ⟨table, htable, ht⟩ := bind_eq_some_iff.mp hsome
  have h := eq_ok_of_toOption htable
  replace ht := eq_ok_of_toOption ht
  obtain ⟨texts, slots, hrun, -, hplain⟩ := renderAll_frozen h
    [⟨t, pageContext table⟩, ⟨t, pageContext table⟩] fun r hr ↦ by
      rcases mem_pair.mp hr with rfl | rfl
      · exact ⟨rfl, _, ht⟩
      · exact ⟨rfl, _, ht⟩
  refine ⟨table, t, h, ht, texts, slots, hrun, hplain ?_⟩
  exact pairwise_pair.mpr fun _ _ _ ↦ rfl

/-- A variable that was logged first has the path of the request in try-files as well. -/
theorem page_frozen_in_tryFiles :
    ((buildLayered substringRegex pageLayers).toOption.bind fun table ↦
      (compile "\x7bpage\x7d" table.names.get).toOption.bind fun t ↦
        ((renderAll substringRegex 1 [⟨t, pageContext table⟩,
          ⟨t, tryFilesContext (pageContext table) "index.html"⟩]).run table.newSlots).map
            Prod.fst) = some ["/app/index.html", "/app/index.html"] ∧
    ((buildLayered substringRegex pageLayers).toOption.bind fun table ↦
      (compile "\x7bpage\x7d" table.names.get).toOption.bind fun t ↦
        t.plainRender substringRegex (tryFilesContext (pageContext table) "index.html") 1) =
      some "index.html" := by
  constructor
  · decide +kernel
  · decide +kernel

end Vars

end Hypershunt
