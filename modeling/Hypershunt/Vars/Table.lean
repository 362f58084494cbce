import Hypershunt.Foundation.HashMap
import Hypershunt.Vars.Template

/-!
# The table of variables

Variables are defined in layers, of the server, the virtual host and the location (`vars.rs`). An
inner definition takes over the index of an outer one with the same name, so that every reference,
wherever it was compiled, is to the innermost definition. A table is made once for a configuration;
cycles of references are refused then, and what each variable needs of a request is worked out.

For a request, the value of a variable is computed when it is first rendered, and kept in a slot.
That recursion is limited by nothing but the absence of cycles. Here it has a depth that it may not
exceed, and the results say that the number of variables is enough.
-/

namespace Hypershunt

open List

namespace Vars

/-! ## Configuration -/

structure VariableArm where
  /-- Without a pattern it is the arm for everything else. -/
  pattern : Option String
  value : String
  line : ℕ

inductive VariableBody
  | constant (t : String)
  | matchArms (input : String) (arms : List VariableArm)

structure VariableDef where
  name : String
  body : VariableBody
  line : ℕ

/-! ## Compiled tables -/

abbrev VarId := ℕ

structure VarNames where
  names : List String := []
  index : HashMap String ℕ := ∅

def VarNames.get (n : VarNames) (name : String) : Option VarId := n.index.lookup name

def VarNames.insert (n : VarNames) (name : String) : VarNames where
  names := n.names ++ [name]
  index := n.index.insert name n.names.length

structure VarNeeds where
  principal : Bool := false
  geoip : Bool := false
  headers : List HeaderName := []
  usesVars : Bool := false
  deriving DecidableEq

def VarNeeds.merge (n other : VarNeeds) : VarNeeds where
  principal := n.principal || other.principal
  geoip := n.geoip || other.geoip
  headers := other.headers.foldl pushNew n.headers
  usesVars := n.usesVars || other.usesVars

structure Arm (V R : Type) where
  regex : Option R
  value : Template V

inductive VarBody (V R : Type)
  | const (t : Template V)
  | matchArms (input : Template V) (arms : List (Arm V R))

open VarBody

structure VarDef (R : Type) where
  name : String
  body : VarBody VarId R
  needs : VarNeeds

structure VarTable (R : Type) where
  defs : List (VarDef R)
  names : VarNames

def reserved : List String := ["request_id", "port", "header"]

def validName (s : String) : Bool :=
  match s.toList with
  | [] => false
  | c :: cs => c.isLower && cs.all fun c ↦ c.isLower || c.isDigit || c == '_'

variable {V W R S : Type} {table : VarTable R} {x : RegexEngine R}
  {caps : Option (List (Option String))} {id : VarId}

/-! ## Choosing definitions -/

/-- The names met so far, and for each of them the innermost definition. -/
structure Chosen where
  names : VarNames := {}
  chosen : List VariableDef := []

def Chosen.add (st : Chosen) (spec : VariableDef) : Chosen :=
  match st.names.get spec.name with
  | some id => { st with chosen := st.chosen.set id spec }
  | none => { names := st.names.insert spec.name, chosen := st.chosen ++ [spec] }

/-- One definition of a layer in which `seen` are defined already. -/
def addSpec (st : Chosen × List String) (spec : VariableDef) :
    Except String (Chosen × List String) :=
  if ¬validName spec.name then
    .error ("line " ++ toString spec.line ++ ": invalid variable name '" ++ spec.name ++
      "': must match [a-z][a-z0-9_]*")
  else if spec.name ∈ builtinVars ∨ spec.name ∈ reserved then
    .error ("line " ++ toString spec.line ++ ": variable '" ++ spec.name ++
      "' collides with a built-in or reserved variable name")
  else if spec.name ∈ st.2 then
    .error ("line " ++ toString spec.line ++ ": duplicate variable '" ++ spec.name ++ "'")
  else .ok (st.1.add spec, spec.name :: st.2)

def addLayer (st : Chosen) (layer : List VariableDef) : Except String Chosen :=
  Prod.fst <$> layer.foldlM addSpec (st, [])

/-! ## Compiling definitions -/

/-- The groups of a pattern, none of which may have the name of a variable. -/
def compilePattern (x : RegexEngine R) (vars : String → Option V) (site : String) :
    Option String → Except String (Option R × CaptureScope)
  | none => .ok (none, .empty)
  | some pat => match x.new pat with
    | .error e => .error (site ++ ": invalid pattern '" ++ pat ++ "': " ++ e)
    | .ok re =>
      match ((CaptureScope.fromRegex x re).names.map Prod.fst).find? fun n ↦
          n ∈ builtinVars ∨ (vars n).isSome with
      | some n => .error (site ++ ": capture name '" ++ n ++ "' collides with a variable name")
      | none => .ok (some re, .fromRegex x re)

def compileArm (x : RegexEngine R) (vars : String → Option V) (site : String) (arm : VariableArm) :
    Except String (Arm V R) := do
  let (regex, caps) ← compilePattern x vars site arm.pattern
  let value ← (Template.compileWithCaptures arm.value vars caps).mapError (site ++ ": " ++ ·)
  return ⟨regex, value⟩

/-- Where in the configuration an error is. -/
def VariableDef.site (spec : VariableDef) (line : ℕ) : String :=
  "line " ++ toString line ++ ": variable '" ++ spec.name ++ "'"

/-- An arm with its position among `count` arms; the one without a pattern has to be the last. -/
def VariableDef.compileArmAt (x : RegexEngine R) (vars : String → Option V) (spec : VariableDef)
    (count : ℕ) (arm : VariableArm × ℕ) : Except String (Arm V R) :=
  if arm.1.pattern.isNone ∧ arm.2 + 1 ≠ count then
    .error (spec.site arm.1.line ++ ": arms after the '_' catch-all are unreachable")
  else compileArm x vars (spec.site arm.1.line) arm.1

def compileBody (x : RegexEngine R) (vars : String → Option V) (spec : VariableDef) :
    Except String (VarBody V R) :=
  match spec.body with
  | .constant t =>
    .const <$> (Template.compile t vars).mapError (spec.site spec.line ++ ": " ++ ·)
  | .matchArms input arms => do
    let input ← (Template.compile input vars).mapError (spec.site spec.line ++ ": " ++ ·)
    let arms ← arms.zipIdx.mapM (spec.compileArmAt x vars arms.length)
    return .matchArms input arms

/-! ## References between variables -/

def VarBody.templates : VarBody V R → List (Template V)
  | .const t => [t]
  | .matchArms input arms => input :: arms.map Arm.value

/-- The variables that the templates of a definition refer to. -/
def VarBody.deps [DecidableEq V] (body : VarBody V R) : List V :=
  body.templates.foldl (fun ids t ↦ t.refs.vars.foldl pushNew ids) []

def VarTable.depsOf (table : VarTable R) (i : VarId) : List VarId :=
  (table.defs[i]?).elim [] fun d ↦ d.body.deps

/-- The search for a cycle, which goes no deeper than there are variables. -/
def VarTable.cycleDfs (table : VarTable R) :
    VarId → Dependency.Search VarId →
      Except (Dependency.SearchError VarId) (Dependency.Search VarId) :=
  Dependency.Search.visit table.depsOf (table.defs.length + 1)

def VarTable.nameOf (table : VarTable R) (i : VarId) : String :=
  (table.defs[i]?).elim "" VarDef.name

def VarTable.checkCycles (table : VarTable R) : Except String Unit :=
  match (List.range table.defs.length).foldlM (fun s i ↦ table.cycleDfs i s) .start with
  | .ok _ => .ok ()
  | .error (.cycle chain) =>
    .error ("variable dependency cycle: " ++ " -> ".intercalate (chain.map table.nameOf))
  | .error .outOfFuel => .error ""

/-! ## Needs -/

/-- Take in what a template refers to, but for variables. -/
def VarNeeds.addRefs (nd : VarNeeds) (r : TemplateRefs VarId) : VarNeeds :=
  { nd with
    principal := nd.principal || r.principal
    geoip := nd.geoip || r.geoip
    headers := r.headers.foldl pushNew nd.headers }

/-- What the templates of a definition refer to themselves. -/
def VarBody.direct (body : VarBody VarId R) : VarNeeds :=
  body.templates.foldl (fun nd t ↦ nd.addRefs t.refs) {}

/-- Needs with those of everything that is referred to, each worked out once. -/
def resolveNeeds (direct : ℕ → VarNeeds) (deps : ℕ → List ℕ) :
    ℕ → ℕ → StateT (Slots VarNeeds) Option VarNeeds
  | 0, _ => failure
  | depth + 1, i => Slots.stored i <|
    (deps i).foldlM (fun nd d ↦ nd.merge <$> resolveNeeds direct deps depth d) (direct i)

def VarTable.directOf (table : VarTable R) (i : VarId) : VarNeeds :=
  (table.defs[i]?).elim {} fun d ↦ d.body.direct

/-- The slots after all needs have been worked out. -/
def VarTable.resolved (table : VarTable R) : Option (Slots VarNeeds) :=
  Prod.snd <$> ((List.range table.defs.length).foldlM (fun _ i ↦
    (fun _ ↦ ()) <$> resolveNeeds table.directOf table.depsOf table.defs.length i) ()).run
      (.fresh table.defs.length)

def VarTable.computeNeeds (table : VarTable R) : VarTable R :=
  match table.resolved with
  | none => table
  | some resolved => { table with
      defs := table.defs.zipIdx.map fun d ↦
        { d.1 with needs := (resolved.value d.2).getD d.1.needs } }

def VarTable.needsOf (table : VarTable R) (id : VarId) : VarNeeds :=
  (table.defs[id]?).elim {} VarDef.needs

/-- Take in what a template needs, through the variables it refers to. -/
def VarNeeds.absorb (nd : VarNeeds) (t : Template VarId) (table : VarTable R) : VarNeeds :=
  t.refs.vars.foldl (fun nd id ↦ { nd with usesVars := true }.merge (table.needsOf id))
    (nd.addRefs t.refs)

/-! ## Building a table -/

def compileDef (x : RegexEngine R) (vars : String → Option VarId) (spec : VariableDef) :
    Except String (VarDef R) :=
  (⟨spec.name, ·, {}⟩) <$> compileBody x vars spec

/-- A table for a chain of layers, the outermost one first. -/
def buildLayered (x : RegexEngine R) (layers : List (List VariableDef)) :
    Except String (VarTable R) := do
  let st ← layers.foldlM addLayer {}
  let defs ← st.chosen.mapM (compileDef x st.names.get)
  let table : VarTable R := ⟨defs, st.names⟩
  table.checkCycles
  return table.computeNeeds

/-! ## Evaluation -/

section Evaluation

variable {m : Type → Type} [Monad m]

/-- The value of the first arm that matches. -/
def evalArms (x : RegexEngine R) (getVar : V → m String) (ctx : RequestContext S)
    (input : String) : List (Arm V R) → m String
  | [] => pure ""
  | arm :: arms => match arm.regex with
    | none => arm.value.renderInner getVar ctx none
    | some re => match x.captures re input with
      | some caps => arm.value.renderInner getVar ctx (some caps)
      | none => evalArms x getVar ctx input arms

def VarBody.eval (x : RegexEngine R) (getVar : V → m String) (ctx : RequestContext S) :
    VarBody V R → m String
  | .const t => t.renderInner getVar ctx none
  | .matchArms input arms => do
    let input ← input.renderInner getVar ctx none
    evalArms x getVar ctx input arms

def VarTable.eval (x : RegexEngine R) (table : VarTable R) (getVar : VarId → m String)
    (ctx : RequestContext S) (id : VarId) : m String :=
  match table.defs[id]? with
  | none => pure ""
  | some d => d.body.eval x getVar ctx

/-- The arm that is taken, with what it captures. The input alone decides. -/
def takenArm (x : RegexEngine R) (input : String) :
    List (Arm V R) → Option (Arm V R × Option (List (Option String)))
  | [] => none
  | arm :: arms => match arm.regex with
    | none => some (arm, none)
    | some re => match x.captures re input with
      | some caps => some (arm, some caps)
      | none => takenArm x input arms

theorem evalArms_eq (x : RegexEngine R) (getVar : V → m String) (ctx : RequestContext S)
    (input : String) (arms : List (Arm V R)) :
    evalArms x getVar ctx input arms = (takenArm x input arms).elim (pure "") fun taken ↦
      taken.1.value.renderInner getVar ctx taken.2 := by
  induction arms with
  | nil => rfl
  | cons arm arms ih =>
    rw [evalArms, takenArm]
    split
    · rfl
    · split
      · rfl
      · exact ih

omit [Monad m] in
theorem mem_of_takenArm {input : String} {arms : List (Arm V R)} {arm : Arm V R}
    (h : takenArm x input arms = some (arm, caps)) : arm ∈ arms := by
  induction arms with
  | nil => exact nomatch h
  | cons first arms ih =>
    rw [takenArm] at h
    split at h
    · obtain ⟨rfl, -⟩ := Prod.mk.inj (Option.some.inj h)
      exact mem_cons_self
    · split at h
      · obtain ⟨rfl, -⟩ := Prod.mk.inj (Option.some.inj h)
        exact mem_cons_self
      · exact mem_cons_of_mem _ (ih h)

end Evaluation

/-- The variables of a request, none on a route that uses none. The slots are passed along. -/
abbrev VarScope (R : Type) := Option (VarTable R)

/-- The value of a variable, computed and kept on first use. -/
def VarScope.get (x : RegexEngine R) (ctx : RequestContext (VarScope R)) :
    ℕ → VarId → StateT (Slots String) Option String
  | 0, _ => failure
  | depth + 1, id => do
    match ctx.vars, (← MonadState.get)[id]? with
    | some table, some _ => Slots.once id "" (table.eval x (VarScope.get x ctx depth) ctx id)
    | _, _ => return ""

def Template.render (x : RegexEngine R) (ctx : RequestContext (VarScope R)) (depth : ℕ)
    (t : Template VarId) : StateT (Slots String) Option String :=
  t.renderInner (VarScope.get x ctx depth) ctx none

def VarTable.newSlots (table : VarTable R) : Slots String := .fresh table.defs.length

/-! ## What a value depends on -/

/-- Evaluation without effects. -/
def VarBody.expand (x : RegexEngine R) (σ : V → String) (ctx : RequestContext S)
    (body : VarBody V R) : String :=
  Id.run (body.eval x σ ctx)

theorem VarBody.expand_matchArms (x : RegexEngine R) (σ : V → String) (ctx : RequestContext S)
    (input : Template V) (arms : List (Arm V R)) :
    (matchArms input arms).expand x σ ctx =
      Id.run (evalArms x σ ctx (input.expand σ ctx none) arms) :=
  rfl

theorem VarBody.value_mem_templates {input : Template V} {text : String} {arms : List (Arm V R)}
    {arm : Arm V R} (h : takenArm x text arms = some (arm, caps)) :
    arm.value ∈ (matchArms input arms).templates :=
  mem_cons_of_mem _ (mem_map_of_mem (mem_of_takenArm h))

theorem VarBody.mem_deps [DecidableEq V] {body : VarBody V R} {v : V} :
    v ∈ body.deps ↔ ∃ t ∈ body.templates, v ∈ t.refs.vars := by
  have hloop : ∀ (ts : List (Template V)) (ids : List V),
      v ∈ ts.foldl (fun ids t ↦ t.refs.vars.foldl pushNew ids) ids ↔
        v ∈ ids ∨ ∃ t ∈ ts, v ∈ t.refs.vars := by
    intro ts
    induction ts with
    | nil => simp
    | cons t ts ih =>
      intro ids
      rw [foldl_cons, ih, mem_foldl_pushNew, exists_mem_cons_iff, or_assoc]
  rw [deps, hloop, or_iff_right not_mem_nil]

/-- Some template of the definition reads it. -/
def VarBody.Reads [DecidableEq V] (body : VarBody V R) (a : Attribute) : Prop :=
  ∃ t ∈ body.templates, t.refs.Reads a

/-- **The value** of a definition is given by the variables and attributes it refers to. -/
theorem VarBody.expand_congr [DecidableEq V] (x : RegexEngine R) {body : VarBody V R}
    {σ τ : V → String} {ctx ctx' : RequestContext S} (hvars : ∀ v ∈ body.deps, σ v = τ v)
    (hctx : ctx.Agree body.Reads ctx') : body.expand x σ ctx = body.expand x τ ctx' := by
  have hrender : ∀ t ∈ body.templates, ∀ caps, t.expand σ ctx caps = t.expand τ ctx' caps := by
    intro t ht caps
    refine Template.expand_congr (fun v hv ↦ hvars v (mem_deps.mpr ⟨t, ht, hv⟩)) ?_
    exact hctx.mono fun a ha ↦ ⟨t, ht, ha⟩
  rcases body with t | ⟨input, arms⟩
  · exact hrender t (mem_singleton_self t) none
  · rw [expand_matchArms, expand_matchArms, hrender input mem_cons_self none]
    rw [evalArms_eq, evalArms_eq]
    rcases htaken : takenArm x (input.expand τ ctx' none) arms with _ | ⟨arm, caps⟩
    · rfl
    · exact hrender arm.value (value_mem_templates htaken) caps

/-- The value that a table gives a variable, from those of the others. -/
def VarTable.expand (x : RegexEngine R) (table : VarTable R) (ctx : RequestContext S)
    (σ : VarId → String) (id : VarId) : String :=
  Id.run (table.eval x σ ctx id)

theorem VarTable.expand_of_getElem? {ctx : RequestContext S} {σ : VarId → String} {d : VarDef R}
    (h : table.defs[id]? = some d) : table.expand x ctx σ id = d.body.expand x σ ctx := by
  rw [expand, eval, h]
  rfl

theorem VarTable.depsOf_of_getElem? {d : VarDef R} (h : table.defs[id]? = some d) :
    table.depsOf id = d.body.deps := by
  rw [depsOf, h, Option.elim_some]

theorem RequestContext.Agree.refl (P : Attribute → Prop) (ctx : RequestContext S) :
    ctx.Agree P ctx :=
  ⟨fun _ _ _ _ ↦ rfl, fun _ ↦ ⟨rfl, rfl⟩, fun _ ↦ rfl, fun _ _ ↦ rfl⟩

theorem VarTable.local_expand (x : RegexEngine R) (table : VarTable R) (ctx : RequestContext S) :
    Dependency.Closed.Local table.depsOf (table.expand x ctx) := by
  intro σ τ id h
  rcases hd : table.defs[id]? with _ | d
  · rw [expand, expand, eval, eval, hd]
  · rw [expand_of_getElem? hd, expand_of_getElem? hd]
    rw [depsOf_of_getElem? hd] at h
    exact expand_congr x h (.refl _ ctx)

/-! ## Evaluation with memory -/

section Memory

open Slots Dependency Relation

variable {F : (ℕ → String) → ℕ → String} {U : Set ℕ} {n : ℕ}
  {getVar : ℕ → StateT (Slots String) Option String} {body : VarBody VarId R}
  {ctx : RequestContext (VarScope R)}

theorem VarBody.freezes_eval (x : RegexEngine R)
    (h : ∀ v ∈ body.deps, Freezes F U n (getVar v) fun σ ↦ σ v) (ctx : RequestContext S) :
    Freezes F U n (body.eval x getVar ctx) fun σ ↦ body.expand x σ ctx := by
  have hrender : ∀ t ∈ body.templates, ∀ caps,
      Freezes F U n (t.renderInner getVar ctx caps) fun σ ↦ t.expand σ ctx caps := by
    intro t ht caps
    exact t.freezes_renderInner (fun v hv ↦ h v (mem_deps.mpr ⟨t, ht, hv⟩)) ctx caps
  rcases body with t | ⟨input, arms⟩
  · exact hrender t (mem_singleton_self t) none
  · refine (hrender input mem_cons_self none).bind
      (q := fun text σ ↦ Id.run (evalArms x σ ctx text arms)) fun text ↦ ?_
    simp only [evalArms_eq]
    rcases htaken : takenArm x text arms with _ | ⟨arm, caps⟩
    · exact Freezes.pure ""
    · exact hrender arm.value (value_mem_templates htaken) caps

/-- What evaluating a variable can reach. -/
def VarTable.reach (table : VarTable R) (id : VarId) : Set VarId :=
  {j | ReflTransGen (fun i j ↦ j ∈ table.depsOf i) id j}

/-- References are to variables of the table, and go round in no circle. -/
structure VarTable.Sound (table : VarTable R) : Prop where
  closed : Closed table.depsOf (List.range table.defs.length)
  acyclic : Acyclic table.depsOf

theorem VarTable.Sound.of_mem_reach (h : table.Sound) {id j : VarId} (hid : id < table.defs.length)
    (hj : j ∈ table.reach id) :
    j ∈ List.range table.defs.length ∧ ∀ k ∈ table.depsOf j, k ∈ table.reach id := by
  refine ⟨?_, fun k hk ↦ ReflTransGen.tail hj hk⟩
  induction hj with
  | refl => exact mem_range.mpr hid
  | tail _ hk ih => exact h.closed.mem ih hk

/-- **A variable** is evaluated within the depth that is the number of variables. -/
theorem VarTable.Sound.freezes_get (h : table.Sound) (x : RegexEngine R)
    (hctx : ctx.vars = some table) {depth : ℕ} (hdepth : table.defs.length ≤ depth)
    (hid : id < table.defs.length) :
    Freezes (table.expand x ctx) (table.reach id) table.defs.length (VarScope.get x ctx depth id)
      fun σ ↦ σ id := by
  refine h.closed.induction (P := fun depth id ↦ Freezes (table.expand x ctx) (table.reach id)
    table.defs.length (VarScope.get x ctx depth id) fun σ ↦ σ id) h.acyclic ?_
    (by rwa [length_range]) (mem_range.mpr hid)
  intro depth id hid ih
  have hlt := mem_range.mp hid
  have hd : table.defs[id]? = some table.defs[id] := getElem?_eq_getElem hlt
  have heval : Freezes (table.expand x ctx) (table.reach id) table.defs.length
      (table.eval x (VarScope.get x ctx depth) ctx id) fun σ ↦ table.expand x ctx σ id := by
    simp only [expand_of_getElem? hd, eval, hd]
    refine freezes_eval x (fun v hv ↦ ?_) ctx
    rw [← depsOf_of_getElem? hd] at hv
    exact (ih v hv).mono fun j hj ↦ ReflTransGen.head hv hj
  refine (heval.once "" hlt ReflTransGen.refl subset_rfl).congr fun s hs ↦ ?_
  have hslot : s[id]? = some s[id] := getElem?_eq_getElem (hs ▸ hlt)
  simp only [VarScope.get, StateT.run_bind, StateT.run_get, hctx]
  simp [hslot]

theorem VarScope.get_of_none (x : RegexEngine R) (hctx : ctx.vars = none) {depth : ℕ}
    (hdepth : depth ≠ 0) (id : VarId) : VarScope.get x ctx depth id = Pure.pure "" := by
  obtain ⟨depth, rfl⟩ := Nat.exists_eq_succ_of_ne_zero hdepth
  funext s
  simp only [VarScope.get, hctx]
  rfl

/-- What rendering a template can reach. -/
def VarTable.reachOf (table : VarTable R) (t : Template VarId) : Set VarId :=
  {j | ∃ v ∈ t.refs.vars, j ∈ table.reach v}

section Render

variable {table : VarTable R} {x : RegexEngine R} {ctx : RequestContext (VarScope R)} {depth : ℕ}
  {t : Template VarId} {s : Slots String}

theorem VarTable.Sound.freezes_render (h : table.Sound) (hctx : ctx.vars = some table)
    (hdepth : table.defs.length ≤ depth) (ht : ∀ v ∈ t.refs.vars, v < table.defs.length)
    (caps : Option (List (Option String))) :
    Freezes (table.expand x ctx) (table.reachOf t) table.defs.length
      (t.renderInner (VarScope.get x ctx depth) ctx caps) fun σ ↦ t.expand σ ctx caps := by
  refine t.freezes_renderInner (fun v hv ↦ ?_) ctx caps
  exact (h.freezes_get x hctx hdepth (ht v hv)).mono fun j hj ↦ ⟨v, hv, hj⟩

theorem VarTable.Sound.of_mem_reachOf (h : table.Sound)
    (ht : ∀ v ∈ t.refs.vars, v < table.defs.length) {j : VarId} (hj : j ∈ table.reachOf t) :
    j ∈ List.range table.defs.length ∧ ∀ k ∈ table.depsOf j, k ∈ table.reachOf t := by
  obtain ⟨v, hv, hj⟩ := hj
  obtain ⟨hmem, hdeps⟩ := h.of_mem_reach (ht v hv) hj
  exact ⟨hmem, fun k hk ↦ ⟨v, hv, hdeps k hk⟩⟩

/-- **A rendering** from slots that hold values for this request, as far as it reaches. -/
theorem VarTable.Sound.run_render (h : table.Sound) (hctx : ctx.vars = some table)
    (hdepth : table.defs.length ≤ depth) (ht : ∀ v ∈ t.refs.vars, v < table.defs.length)
    (caps : Option (List (Option String))) {σ : VarId → String}
    (hσ : ∀ i < table.defs.length, σ i = table.expand x ctx σ i)
    (hs : s.length = table.defs.length)
    (hold : ∀ i ∈ table.reachOf t, ∀ v, s.value i = some v → v = σ i) :
    ∃ s', (t.renderInner (VarScope.get x ctx depth) ctx caps).run s =
        some (t.expand σ ctx caps, s') ∧ Grows s s' ∧
      ∀ i v, s'.value i = some v → s.value i = some v ∨ i ∈ table.reachOf t ∧ v = σ i := by
  refine (h.freezes_render hctx hdepth ht caps).run_eq h.closed h.acyclic
    (table.local_expand x ctx) (fun j hj ↦ h.of_mem_reachOf ht hj) (fun σ τ hστ ↦ ?_)
    (fun j hj ↦ hσ j (mem_range.mp (h.of_mem_reachOf ht hj).1)) hs hold
  exact Template.expand_congr (fun v hv ↦ hστ v ⟨v, hv, ReflTransGen.refl⟩) (.refl _ ctx)

end Render

end Memory

end Vars

end Hypershunt
