import Hypershunt.Vars.Table

/-!
# Variables as names

What a chain of layers means is said in terms of names: each name stands for its innermost
definition wherever it is written, and the values of the variables solve the equations that these
definitions are (`IsSubstitution`). The server compiles references to indices, searches the indices
for cycles and evaluates with a memory. `buildLayered_sound` says that this comes to the same.
-/

namespace Hypershunt

open List Option

namespace Vars

open Relation VarTable VariableDef Function

variable {V W R S : Type} {fallback : Option String} {body : VarBody String R}

/-! ## Names -/

/-- The innermost definition of a name: the last one in the chain. -/
def innermost (layers : List (List VariableDef)) (name : String) : Option VariableDef :=
  layers.flatten.reverse.find? (·.name == name)

def defined (layers : List (List VariableDef)) (name : String) : Bool :=
  (innermost layers name).isSome

/-- A token, in which a defined name is that variable before anything else. -/
def TemplatePart.ofToken (defined : String → Bool) (caps : Option CaptureScope) :
    RawTok → TemplatePart String
  | .literal l => .literal l
  | .token name fallback raw =>
    if defined name then .custom name fallback
    else match TemplatePart.build (some fun _ ↦ none) caps (.token name fallback raw) with
      | .ok part => part
      | .error _ => .unknown raw

def Template.ofText (defined : String → Bool) (caps : Option CaptureScope) (s : String) :
    Template String :=
  (lex s).map (.ofToken defined caps)

/-- An arm, unless its pattern is none. -/
def Arm.ofArm (x : RegexEngine R) (defined : String → Bool) (arm : VariableArm) :
    Option (Arm String R) :=
  match arm.pattern.map x.new with
  | none => some ⟨none, .ofText defined (some .empty) arm.value⟩
  | some (.ok re) => some ⟨some re, .ofText defined (some (.fromRegex x re)) arm.value⟩
  | some (.error _) => none

def VarBody.ofBody (x : RegexEngine R) (defined : String → Bool) : VariableBody → VarBody String R
  | .constant t => .const (.ofText defined none t)
  | .matchArms input arms =>
    .matchArms (.ofText defined none input) (arms.filterMap (Arm.ofArm x defined))

/-- What a name stands for. -/
def definition (x : RegexEngine R) (layers : List (List VariableDef)) (name : String) :
    Option (VarBody String R) :=
  (innermost layers name).map fun spec ↦ .ofBody x (defined layers) spec.body

/-- The definition of one name has another one in it. -/
def RefersTo (x : RegexEngine R) (layers : List (List VariableDef)) (a b : String) : Prop :=
  ∃ body, definition x layers a = some body ∧ b ∈ body.deps

/-- **Recursive substitution**: the value of a definition, with the values of the names in it. -/
def IsSubstitution (x : RegexEngine R) (layers : List (List VariableDef)) (ctx : RequestContext S)
    (σ : String → String) : Prop :=
  ∀ name body, definition x layers name = some body → σ name = body.expand x σ ctx

/-- Defined names, as names. -/
def lookupName (layers : List (List VariableDef)) (name : String) : Option String :=
  if defined layers name then some name else none

/-- The layers that make a table. -/
structure WellFormed (x : RegexEngine R) (layers : List (List VariableDef)) : Prop where
  validName : ∀ layer ∈ layers, ∀ spec ∈ layer, validName spec.name = true
  unreserved : ∀ layer ∈ layers, ∀ spec ∈ layer, spec.name ∉ builtinVars ∧ spec.name ∉ reserved
  nodup : ∀ layer ∈ layers, (layer.map name).Nodup
  compiles : ∀ name spec, innermost layers name = some spec →
    ∃ body, compileBody x (lookupName layers) spec = .ok body
  acyclic : ∀ name, ¬TransGen (RefersTo x layers) name name

/-! ## The choice of definitions -/

/-- The names have indices, and at the index of a name is the last definition of it. -/
structure Chosen.Sound (st : Chosen) (specs : List VariableDef) : Prop where
  length_eq : st.names.names.length = st.chosen.length
  get_iff : ∀ name id,
    st.names.get name = some id ↔ ∃ spec, st.chosen[id]? = some spec ∧ spec.name = name
  find_eq : ∀ name, (st.names.get name).bind (st.chosen[·]?) =
    specs.reverse.find? (·.name == name)

theorem VarNames.get_insert (n : VarNames) (name name' : String) :
    (n.insert name).get name' = if name' = name then some n.names.length else n.get name' :=
  HashMap.lookup_insert_ite

theorem Chosen.Sound.nil : Chosen.Sound {} [] where
  length_eq := rfl
  get_iff name id := by simp [VarNames.get]
  find_eq name := by simp [VarNames.get]

theorem getElem?_concat_eq_some {α : Type} {l : List α} {a b : α} {i : ℕ} :
    (l ++ [a])[i]? = some b ↔ l[i]? = some b ∨ i = l.length ∧ a = b := by
  rcases lt_trichotomy i l.length with hlt | rfl | hgt
  · rw [getElem?_append_left hlt, or_iff_left fun h ↦ hlt.ne h.1]
  · simp
  · rw [getElem?_eq_none (by rw [length_append]; exact hgt), getElem?_eq_none hgt.le]
    simp [hgt.ne']

theorem find?_concat (specs : List VariableDef) (spec : VariableDef) (name : String) :
    (specs ++ [spec]).reverse.find? (·.name == name) =
      if spec.name = name then some spec else specs.reverse.find? (·.name == name) := by
  rw [reverse_concat]
  split_ifs with hname
  · exact find?_cons_of_pos (by simpa using hname)
  · exact find?_cons_of_neg (by simpa using hname)

section Choice

variable {st : Chosen} {specs : List VariableDef} {spec : VariableDef} {id : VarId} {st' : Chosen}
  {layer : List VariableDef}

theorem Chosen.Sound.add_of_none (h : st.Sound specs) (hget : st.names.get spec.name = none) :
    (st.add spec).Sound (specs ++ [spec]) := by
  have hnew : ∀ (id : ℕ) (spec' : VariableDef), st.chosen[id]? = some spec' →
      ¬spec'.name = spec.name := by
    intro id spec' hid hname
    cases hget.symm.trans ((h.get_iff spec.name id).mpr ⟨spec', hid, hname⟩)
  rw [Chosen.add, hget]
  refine ⟨?_, fun name id ↦ ?_, fun name ↦ ?_⟩
  · simp [VarNames.insert, h.length_eq]
  · simp only [VarNames.get_insert, getElem?_concat_eq_some]
    split_ifs with hname
    · constructor
      · rintro heq
        obtain rfl := Option.some.inj heq
        exact ⟨spec, Or.inr ⟨h.length_eq, rfl⟩, hname.symm⟩
      · rintro ⟨spec', hid | ⟨rfl, -⟩, hname'⟩
        · exact absurd (hname'.trans hname) (hnew id spec' hid)
        · rw [h.length_eq]
    · rw [h.get_iff]
      refine exists_congr fun spec' ↦ ⟨fun hspec ↦ ⟨Or.inl hspec.1, hspec.2⟩, ?_⟩
      rintro ⟨hid | ⟨-, rfl⟩, hname'⟩
      · exact ⟨hid, hname'⟩
      · exact absurd hname'.symm hname
  · simp only [VarNames.get_insert, find?_concat, ← h.find_eq]
    split_ifs with hname hname' hname'
    · simp [h.length_eq]
    · exact absurd hname.symm hname'
    · exact absurd hname'.symm hname
    · refine Option.bind_congr fun id hid ↦ ?_
      obtain ⟨spec', hspec', -⟩ := (h.get_iff name id).mp hid
      rw [hspec']
      exact getElem?_concat_eq_some.mpr (Or.inl hspec')

theorem Chosen.Sound.add_of_some (h : st.Sound specs) (hget : st.names.get spec.name = some id) :
    (st.add spec).Sound (specs ++ [spec]) := by
  obtain ⟨old, hold, hname⟩ := (h.get_iff spec.name id).mp hget
  have hlt : id < st.chosen.length := (List.getElem?_eq_some_iff.mp hold).1
  rw [Chosen.add, hget]
  refine ⟨?_, fun name id' ↦ ?_, fun name ↦ ?_⟩
  · simp [h.length_eq]
  · simp only [h.get_iff, getElem?_set]
    split_ifs with hid
    · subst hid
      simp [hold, hname]
    · rfl
  · simp only [find?_concat, ← h.find_eq]
    split_ifs with hname'
    · rw [← hname', hget, bind_some, getElem?_set, if_pos rfl, if_pos hlt]
    · refine Option.bind_congr fun id' hid' ↦ ?_
      have hne : id ≠ id' := by
        rintro rfl
        obtain ⟨spec', hspec', rfl⟩ := (h.get_iff name id).mp hid'
        obtain rfl := Option.some.inj (hold.symm.trans hspec')
        exact hname' hname.symm
      rw [getElem?_set, if_neg hne]

theorem Chosen.Sound.add (h : st.Sound specs) (spec : VariableDef) :
    (st.add spec).Sound (specs ++ [spec]) := by
  rcases hget : st.names.get spec.name with _ | id
  · exact h.add_of_none hget
  · exact h.add_of_some hget

theorem Chosen.Sound.foldl (h : st.Sound specs) (specs' : List VariableDef) :
    (specs'.foldl Chosen.add st).Sound (specs ++ specs') := by
  induction specs' generalizing st specs with
  | nil => simpa using h
  | cons spec specs' ih => simpa using ih (h.add spec)

/-- A name that may be defined. -/
def NameOk (name : String) : Prop :=
  validName name = true ∧ name ∉ builtinVars ∧ name ∉ reserved

theorem addSpec_eq_ok_iff {seen : List String} {r : Chosen × List String} :
    addSpec (st, seen) spec = .ok r ↔
      NameOk spec.name ∧ spec.name ∉ seen ∧ r = (st.add spec, spec.name :: seen) := by
  rw [addSpec, ite_error_eq_ok_iff, ite_error_eq_ok_iff, ite_error_eq_ok_iff, NameOk, not_or,
    not_not, Except.ok.injEq, eq_comm (a := r)]
  tauto

/-- A layer is taken in if its names are in order and different. -/
theorem foldlM_addSpec_eq_ok_iff {seen : List String} :
    (∃ seen', layer.foldlM addSpec (st, seen) = .ok (st', seen')) ↔
      (∀ spec ∈ layer, NameOk spec.name ∧ spec.name ∉ seen) ∧
        (layer.map name).Nodup ∧ st' = layer.foldl Chosen.add st := by
  induction layer generalizing st seen with
  | nil => simp [pure, Except.pure, eq_comm]
  | cons spec layer ih =>
    simp only [foldlM_cons, bind_eq_ok_iff, addSpec_eq_ok_iff, forall_mem_cons, map_cons,
      nodup_cons, foldl_cons]
    constructor
    · rintro ⟨seen', -, ⟨hok, hseen, rfl⟩, hrest⟩
      obtain ⟨hnames, hnodup, rfl⟩ := ih.mp ⟨seen', hrest⟩
      refine ⟨⟨⟨hok, hseen⟩, fun spec' hspec' ↦ ?_⟩, ⟨fun hmem ↦ ?_, hnodup⟩, rfl⟩
      · exact ⟨(hnames spec' hspec').1, fun h ↦ (hnames spec' hspec').2 (mem_cons_of_mem _ h)⟩
      · obtain ⟨spec', hspec', hname⟩ := List.mem_map.mp hmem
        exact (hnames spec' hspec').2 (hname ▸ mem_cons_self)
    · rintro ⟨⟨⟨hok, hseen⟩, hnames⟩, ⟨hnotMem, hnodup⟩, rfl⟩
      have hfresh : ∀ spec' ∈ layer, spec'.name ∉ spec.name :: seen := by
        intro spec' hspec' hmem
        rcases mem_cons.mp hmem with hname | hmem
        · exact hnotMem (hname ▸ List.mem_map_of_mem hspec')
        · exact (hnames spec' hspec').2 hmem
      obtain ⟨seen', hseen'⟩ := ih.mpr ⟨fun spec' hspec' ↦
        ⟨(hnames spec' hspec').1, hfresh spec' hspec'⟩, hnodup, rfl⟩
      exact ⟨seen', _, ⟨hok, hseen, rfl⟩, hseen'⟩

theorem addLayer_eq_ok_iff :
    addLayer st layer = .ok st' ↔ (∀ spec ∈ layer, NameOk spec.name) ∧
      (layer.map name).Nodup ∧ st' = layer.foldl Chosen.add st := by
  have hseen : (∃ seen', layer.foldlM addSpec (st, []) = .ok (st', seen')) ↔ _ :=
    foldlM_addSpec_eq_ok_iff
  simp only [not_mem_nil, not_false_eq_true, and_true] at hseen
  rw [addLayer, map_eq_ok_iff, ← hseen]
  constructor
  · rintro ⟨⟨_, seen'⟩, h, rfl⟩
    exact ⟨seen', h⟩
  · rintro ⟨seen', h⟩
    exact ⟨_, h, rfl⟩

/-- **The choice** succeeds if all names are in order and no layer repeats one. -/
theorem foldlM_addLayer_eq_ok_iff {layers : List (List VariableDef)} :
    layers.foldlM addLayer st = .ok st' ↔
      (∀ layer ∈ layers, (∀ spec ∈ layer, NameOk spec.name) ∧
        (layer.map name).Nodup) ∧ st' = layers.flatten.foldl Chosen.add st := by
  induction layers generalizing st with
  | nil => simp [pure, Except.pure, eq_comm]
  | cons layer layers ih =>
    simp only [foldlM_cons, bind_eq_ok_iff, addLayer_eq_ok_iff, ih, forall_mem_cons, flatten_cons,
      foldl_append]
    constructor
    · rintro ⟨_, ⟨hnames, hnodup, rfl⟩, hrest, rfl⟩
      exact ⟨⟨⟨hnames, hnodup⟩, hrest⟩, rfl⟩
    · rintro ⟨⟨⟨hnames, hnodup⟩, hrest⟩, rfl⟩
      exact ⟨_, ⟨hnames, hnodup, rfl⟩, hrest, rfl⟩

end Choice

/-! ## Names and indices -/

def TemplatePart.map (g : V → W) : TemplatePart V → TemplatePart W
  | .literal s => .literal s
  | .var v fallback => .var v fallback
  | .custom id fallback => .custom (g id) fallback
  | .header name fallback => .header name fallback
  | .capture i fallback => .capture i fallback
  | .unknown raw => .unknown raw

def Arm.map (g : V → W) (arm : Arm V R) : Arm W R := ⟨arm.regex, arm.value.map (.map g)⟩

def VarBody.map (g : V → W) : VarBody V R → VarBody W R
  | .const t => .const (t.map (.map g))
  | .matchArms input arms => .matchArms (input.map (.map g)) (arms.map (.map g))

section Map

variable (g : V → W) (vars : String → Option V)

theorem TemplatePart.build_map (caps : Option CaptureScope) (tok : RawTok) :
    TemplatePart.build (some fun n ↦ (vars n).map g) caps tok =
      TemplatePart.map g <$> TemplatePart.build (some vars) caps tok := by
  rcases tok with l | ⟨name, fallback, raw⟩
  · rfl
  simp only [TemplatePart.build]
  rcases knownVar name with _ | v
  · rcases headerToken name with _ | h
    · rcases caps.bind (·.lookup name) with _ | i
      · rcases hv : vars name with _ | id <;> rcases caps with _ | cs <;>
          rcases digitGroup name with _ | n <;>
          simp [hv, TemplatePart.map, Functor.map, Except.map]
      · rfl
    · rfl
  · rfl

theorem Template.build_map (caps : Option CaptureScope) (s : String) :
    Template.build (some fun n ↦ (vars n).map g) caps s =
      List.map (TemplatePart.map g) <$> Template.build (some vars) caps s := by
  rw [Template.build, Template.build, ← mapM_map_comm]
  exact congrArg (List.mapM · (lex s)) (funext (TemplatePart.build_map g vars caps))

theorem compilePattern_map (x : RegexEngine R) (site : String) (pattern : Option String) :
    compilePattern x (fun n ↦ (vars n).map g) site pattern =
      compilePattern x vars site pattern := by
  simp only [compilePattern, isSome_map]

theorem compileArm_map (x : RegexEngine R) (site : String) (arm : VariableArm) :
    compileArm x (fun n ↦ (vars n).map g) site arm = Arm.map g <$> compileArm x vars site arm := by
  rw [compileArm, compileArm, compilePattern_map]
  rcases compilePattern x vars site arm.pattern with e | ⟨regex, caps⟩
  · rfl
  · simp only [bind, Except.bind, Template.compileWithCaptures, Template.build_map]
    rcases Template.build (some vars) (some caps) arm.value with e | t
    · rfl
    · rfl

theorem compileArmAt_map (x : RegexEngine R) (spec : VariableDef) (count : ℕ)
    (arm : VariableArm × ℕ) :
    spec.compileArmAt x (fun n ↦ (vars n).map g) count arm =
      Arm.map g <$> spec.compileArmAt x vars count arm := by
  rw [compileArmAt, compileArmAt]
  split_ifs
  · rfl
  · exact compileArm_map g vars x _ arm.1

/-- **Compilation** takes references as the table of names gives them. -/
theorem compileBody_map (x : RegexEngine R) (spec : VariableDef) :
    compileBody x (fun n ↦ (vars n).map g) spec = VarBody.map g <$> compileBody x vars spec := by
  rw [compileBody, compileBody]
  rcases spec.body with t | ⟨input, arms⟩
  · simp only [Template.compile, Template.build_map]
    rcases Template.build (some vars) none t with e | t
    · rfl
    · rfl
  · have harms : spec.compileArmAt x (fun n ↦ (vars n).map g) arms.length =
        fun arm ↦ Arm.map g <$> spec.compileArmAt x vars arms.length arm :=
      funext (compileArmAt_map g vars x spec arms.length)
    simp only [Template.compile, Template.build_map, harms, mapM_map_comm]
    rcases Template.build (some vars) none input with e | t
    · rfl
    · rcases arms.zipIdx.mapM (spec.compileArmAt x vars arms.length) with e | arms'
      · rfl
      · rfl

variable {σ : W → String} {ctx : RequestContext S} {caps : Option (List (Option String))}

theorem TemplatePart.expand_map (p : TemplatePart V) :
    (p.map g).expand σ ctx caps = p.expand (σ ∘ g) ctx caps := by
  rcases p with _ | _ | _ | _ | _ | _ <;> rfl

theorem Template.expand_map (t : Template V) :
    Template.expand σ ctx caps (t.map (TemplatePart.map g)) = t.expand (σ ∘ g) ctx caps := by
  simp only [Template.expand_eq_foldl, foldl_map, TemplatePart.expand_map]

theorem VarBody.expand_map (x : RegexEngine R) (body : VarBody V R) :
    (body.map g).expand x σ ctx = body.expand x (σ ∘ g) ctx := by
  rcases body with t | ⟨input, arms⟩
  · exact Template.expand_map g t
  · rw [VarBody.map, VarBody.expand_matchArms, VarBody.expand_matchArms, Template.expand_map]
    induction arms with
    | nil => rfl
    | cons arm arms ih =>
      rw [map_cons, evalArms, evalArms]
      simp only [Arm.map]
      split
      · exact Template.expand_map g arm.value
      · split
        · exact Template.expand_map g arm.value
        · exact ih

theorem TemplatePart.map_eq_custom_iff {p : TemplatePart V} {w : W} :
    p.map g = .custom w fallback ↔ ∃ v, p = .custom v fallback ∧ g v = w := by
  rcases p with _ | _ | ⟨id, fallback'⟩ | _ | _ | _ <;> simp [TemplatePart.map]
  tauto

theorem Template.mem_vars_map [DecidableEq V] [DecidableEq W] {t : Template V} {w : W} :
    w ∈ (Template.refs (t.map (TemplatePart.map g))).vars ↔ ∃ v ∈ t.refs.vars, g v = w := by
  simp only [Template.mem_vars, List.mem_map, TemplatePart.map_eq_custom_iff]
  constructor
  · rintro ⟨fallback, p, hp, v, rfl, rfl⟩
    exact ⟨v, ⟨fallback, hp⟩, rfl⟩
  · rintro ⟨v, ⟨fallback, hp⟩, rfl⟩
    exact ⟨fallback, _, hp, v, rfl, rfl⟩

theorem VarBody.templates_map (body : VarBody V R) :
    (body.map g).templates = body.templates.map (List.map (TemplatePart.map g)) := by
  rcases body with t | ⟨input, arms⟩
  · rfl
  · simp [VarBody.map, VarBody.templates, Arm.map]

theorem VarBody.mem_deps_map [DecidableEq V] [DecidableEq W] {body : VarBody V R} {w : W} :
    w ∈ (body.map g).deps ↔ ∃ v ∈ body.deps, g v = w := by
  simp only [VarBody.mem_deps, VarBody.templates_map, List.mem_map]
  constructor
  · rintro ⟨_, ⟨t, ht, rfl⟩, hw⟩
    obtain ⟨v, hv, rfl⟩ := (Template.mem_vars_map g).mp hw
    exact ⟨v, ⟨t, ht, hv⟩, rfl⟩
  · rintro ⟨v, ⟨t, ht, hv⟩, rfl⟩
    exact ⟨_, ⟨t, ht, rfl⟩, (Template.mem_vars_map g).mpr ⟨v, hv, rfl⟩⟩

end Map

/-! ## Compiled definitions -/

section Compiled

variable {layers : List (List VariableDef)} {name : String} {caps : Option CaptureScope}
  {vars : String → Option V}

/-- The characters of a name that may be defined. -/
theorem forall_of_validName (h : validName name = true) :
    ∀ c ∈ name.toList, (c.isLower || c.isDigit || c == '_') = true := by
  rw [validName] at h
  split at h
  · cases h
  · rename_i c cs heq
    rw [Bool.and_eq_true, List.all_eq_true] at h
    rw [heq, forall_mem_cons]
    exact ⟨by rw [h.1]; rfl, h.2⟩

theorem headerToken_eq_none (h : validName name = true) : headerToken name = none := by
  have hstrip : Text.stripPrefix "header:" name = none := by
    rw [Text.stripPrefix, if_neg]
    intro hpre
    have hcolon : ':' ∈ name.toList := (List.isPrefixOf_iff_prefix.mp hpre).subset (by decide)
    exact absurd (forall_of_validName h ':' hcolon) (by decide)
  rw [headerToken, hstrip, bind_none]

theorem digitGroup_eq_none (h : validName name = true) : digitGroup name = none := by
  rw [digitGroup]
  split
  · rename_i c heq
    have hlower : c.isLower = true := by simpa [validName, heq] using h
    rw [if_neg]
    rintro ⟨-, hle⟩
    have hbounds := of_decide_eq_true (Bool.and_eq_true_iff.mp hlower).1
    exact absurd (hbounds.trans hle) (by decide)
  · rfl

/-- No group has the name of a variable. -/
def Distinct (defined : String → Bool) (caps : Option CaptureScope) : Prop :=
  ∀ cs ∈ caps, ∀ c ∈ cs.names, defined c.1 = false

theorem lookup_eq_none {defined : String → Bool} (hcaps : Distinct defined caps)
    (hvalid : validName name = true) (hname : defined name = true) :
    caps.bind (·.lookup name) = none := by
  rcases caps with _ | cs
  · rfl
  · have hfind : cs.names.find? (·.1 == name) = none := by
      rw [find?_eq_none]
      intro c hc heq
      rw [beq_iff_eq] at heq
      rw [← heq, hcaps cs rfl c hc] at hname
      cases hname
    simp [CaptureScope.lookup, hfind, digitGroup_eq_none hvalid]

theorem TemplatePart.build_congr (vars vars' : String → Option V) (h : vars name = vars' name)
    (fallback : Option String) (raw : String) :
    TemplatePart.build (some vars) caps (.token name fallback raw) =
      TemplatePart.build (some vars') caps (.token name fallback raw) := by
  simp only [TemplatePart.build]
  rcases knownVar name with _ | v
  · simp only [h]
  · rfl

/-- Wherever it is written, a defined name is compiled to a reference. -/
theorem TemplatePart.eq_ofToken_of_build
    (hnames : ∀ n, defined layers n = true → NameOk n) (hcaps : Distinct (defined layers) caps)
    {tok : RawTok} {p : TemplatePart String}
    (h : TemplatePart.build (some (lookupName layers)) caps tok = .ok p) :
    p = .ofToken (defined layers) caps tok := by
  rcases tok with l | ⟨name, fallback, raw⟩
  · cases h
    rfl
  rw [TemplatePart.ofToken]
  split_ifs with hname
  · obtain ⟨hvalid, hbuiltin, -⟩ := hnames name hname
    simpa [TemplatePart.build, knownVar_eq_none hbuiltin, headerToken_eq_none hvalid, lookup_eq_none
      hcaps hvalid hname, digitGroup_eq_none hvalid, lookupName, hname, eq_comm] using h
  · rw [TemplatePart.build_congr (lookupName layers) (fun _ ↦ none) (if_neg hname)] at h
    rw [h]

theorem compilePattern_eq_ok {x : RegexEngine R} {site pat : String} {r : Option R × CaptureScope}
    (h : compilePattern x vars site (some pat) = .ok r) :
    ∃ re, x.new pat = .ok re ∧ r = (some re, .fromRegex x re) ∧
      ∀ c ∈ (CaptureScope.fromRegex x re).names, vars c.1 = none := by
  rw [compilePattern] at h
  split at h
  · cases h
  · rename_i re hre
    split at h
    · cases h
    · rename_i hfind
      refine ⟨re, hre, (Except.ok.inj h).symm, fun c hc ↦ ?_⟩
      have hfree := find?_eq_none.mp hfind c.1 (List.mem_map_of_mem hc)
      rw [decide_eq_true_eq, not_or] at hfree
      exact not_isSome_iff_eq_none.mp hfree.2

section Names

variable (hnames : ∀ n, defined layers n = true → NameOk n)
include hnames

theorem Template.eq_ofText_of_build (hcaps : Distinct (defined layers) caps) {s : String}
    {t : Template String} (h : Template.build (some (lookupName layers)) caps s = .ok t) :
    t = .ofText (defined layers) caps s := by
  rw [Template.ofText, ← filterMap_eq_map]
  refine (filterMap_of_mapM_eq_ok (fun tok _ p hp ↦ ?_) h).symm
  rw [comp_apply, TemplatePart.eq_ofToken_of_build hnames hcaps hp]

theorem Arm.ofArm_of_compileArm (x : RegexEngine R) {site : String} {arm : VariableArm}
    {arm' : Arm String R} (h : compileArm x (lookupName layers) site arm = .ok arm') :
    Arm.ofArm x (defined layers) arm = some arm' := by
  rw [compileArm, bind_eq_ok_iff] at h
  obtain ⟨⟨regex, caps⟩, hpattern, h⟩ := h
  rw [bind_eq_ok_iff] at h
  obtain ⟨value, hvalue, h⟩ := h
  rw [mapError_eq_ok_iff] at hvalue
  cases h
  rw [Arm.ofArm]
  rcases hpat : arm.pattern with _ | pat
  · rw [hpat] at hpattern
    cases hpattern
    have hvalue := Template.eq_ofText_of_build hnames (fun cs hcs c hc ↦ ?_) hvalue
    · rw [hvalue]
      rfl
    · obtain rfl := Option.some.inj hcs
      cases hc
  · rw [hpat] at hpattern
    obtain ⟨re, hre, hr, hfree⟩ := compilePattern_eq_ok hpattern
    obtain ⟨rfl, rfl⟩ := Prod.mk.inj hr
    have hvalue := Template.eq_ofText_of_build hnames (fun cs hcs c hc ↦ ?_) hvalue
    · rw [map_some, hre, hvalue]
    · obtain rfl := Option.some.inj hcs
      have hnone := hfree c hc
      rw [lookupName] at hnone
      split_ifs at hnone with hdefined
      exact Bool.eq_false_iff.mpr hdefined

/-- **A compiled definition** is the one that its text stands for. -/
theorem VarBody.eq_ofBody_of_compileBody (x : RegexEngine R) {spec : VariableDef}
    (h : compileBody x (lookupName layers) spec = .ok body) :
    body = .ofBody x (defined layers) spec.body := by
  have hdistinct : Distinct (defined layers) none := fun cs hcs ↦ nomatch hcs
  rw [compileBody] at h
  split at h
  · rename_i t heq
    rw [map_eq_ok_iff] at h
    obtain ⟨t', ht', rfl⟩ := h
    rw [mapError_eq_ok_iff] at ht'
    rw [heq, VarBody.ofBody, Template.eq_ofText_of_build hnames hdistinct ht']
  · rename_i input arms heq
    rw [bind_eq_ok_iff] at h
    obtain ⟨input', hinput, h⟩ := h
    rw [bind_eq_ok_iff] at h
    obtain ⟨arms', harms, h⟩ := h
    cases h
    rw [mapError_eq_ok_iff] at hinput
    have hfilter := filterMap_of_mapM_eq_ok (g := fun arm ↦ Arm.ofArm x (defined layers) arm.1)
      (fun arm _ arm' harm ↦ ?_) harms
    · have hzip : arms.filterMap (Arm.ofArm x (defined layers)) = arms' := by
        rw [← hfilter, ← zipIdx_map_fst 0 arms, filterMap_map, zipIdx_map_fst]
        rfl
      rw [heq, VarBody.ofBody, Template.eq_ofText_of_build hnames hdistinct hinput, hzip]
    · rw [compileArmAt, ite_error_eq_ok_iff] at harm
      exact Arm.ofArm_of_compileArm hnames x harm.2

end Names

theorem TemplatePart.vars_of_build {v : V} {raw : String} {fallback fallback' : Option String}
    (h : TemplatePart.build (some vars) caps (.token name fallback raw) = .ok (.custom v fallback'))
    : vars name = some v := by
  simp only [TemplatePart.build] at h
  split at h
  · cases h
  · cases h
  · rename_i heq
    obtain rfl := Option.some.inj heq
    split at h
    · cases h
    · cases h
    · split at h
      · cases h
      · split at h
        · rename_i hid
          cases h
          exact hid
        · cases h

theorem TemplatePart.defined_of_ofToken {defined : String → Bool} {tok : RawTok} {name : String}
    (h : TemplatePart.ofToken defined caps tok = .custom name fallback) : defined name = true := by
  rcases tok with l | ⟨name', fallback', raw⟩
  · cases h
  rw [TemplatePart.ofToken] at h
  split_ifs at h with hname
  · cases h
    exact hname
  · split at h
    · rename_i part hpart
      -- without names there are no references
      cases vars_of_build (h ▸ hpart)
    · cases h

theorem VarBody.defined_of_mem_deps {x : RegexEngine R} {defined : String → Bool}
    {body : VariableBody} (h : name ∈ (VarBody.ofBody x defined body).deps) :
    defined name = true := by
  have htext : ∀ caps s, name ∈ (Template.ofText defined caps s).refs.vars →
      defined name = true := by
    intro caps s hmem
    obtain ⟨fallback, hcustom⟩ := Template.mem_vars.mp hmem
    obtain ⟨tok, -, htok⟩ := List.mem_map.mp hcustom
    exact TemplatePart.defined_of_ofToken htok
  obtain ⟨t, ht, hvar⟩ := VarBody.mem_deps.mp h
  rcases body with s | ⟨input, arms⟩
  · obtain rfl := mem_singleton.mp ht
    exact htext none s hvar
  · rcases mem_cons.mp ht with rfl | ht
    · exact htext none input hvar
    · obtain ⟨arm', harm', rfl⟩ := List.mem_map.mp ht
      obtain ⟨arm, -, harm⟩ := mem_filterMap.mp harm'
      rw [Arm.ofArm] at harm
      split at harm
      · cases harm
        exact htext _ _ hvar
      · cases harm
        exact htext _ _ hvar
      · cases harm

end Compiled

/-! ## Tables and layers -/

/-- The index of a name. -/
def VarTable.idOf (table : VarTable R) (name : String) : VarId := (table.names.get name).getD 0

/-- The table has the innermost definitions of the layers, each at the index of its name. -/
structure VarTable.Represents (table : VarTable R) (x : RegexEngine R)
    (layers : List (List VariableDef)) : Prop where
  isSome_get : ∀ name, (table.names.get name).isSome = defined layers name
  getElem?_of_get : ∀ {name id}, table.names.get name = some id →
    ∃ d, table.defs[id]? = some d ∧ d.name = name
  get_of_getElem? : ∀ {id : VarId} {d : VarDef R}, table.defs[id]? = some d →
    table.names.get d.name = some id
  body_eq : ∀ {id : VarId} {d : VarDef R}, table.defs[id]? = some d →
    ∃ body, definition x layers d.name = some body ∧ d.body = body.map table.idOf

namespace VarTable.Represents

variable {table : VarTable R} {x : RegexEngine R} {layers : List (List VariableDef)} {a b : String}
  {i j : VarId} (h : table.Represents x layers)

theorem defined_of_definition (hbody : definition x layers a = some body) :
    defined layers a = true ∧ ∀ b ∈ body.deps, defined layers b = true := by
  rw [definition, map_eq_some_iff] at hbody
  obtain ⟨spec, hspec, rfl⟩ := hbody
  exact ⟨isSome_of_eq_some hspec, fun b hb ↦ VarBody.defined_of_mem_deps hb⟩

include h

theorem getElem?_idOf (ha : defined layers a = true) :
    ∃ d, table.defs[table.idOf a]? = some d ∧ d.name = a := by
  rw [← h.isSome_get, isSome_iff_exists] at ha
  obtain ⟨id, hid⟩ := ha
  rw [idOf, hid, getD_some]
  exact h.getElem?_of_get hid

theorem nameOf_idOf (ha : defined layers a = true) :
    table.nameOf (table.idOf a) = a := by
  obtain ⟨d, hd, hname⟩ := h.getElem?_idOf ha
  rw [nameOf, hd, elim_some, hname]

theorem mem_depsOf (hab : RefersTo x layers a b) :
    table.idOf b ∈ table.depsOf (table.idOf a) := by
  obtain ⟨body, hbody, hb⟩ := hab
  obtain ⟨d, hd, rfl⟩ := h.getElem?_idOf (defined_of_definition hbody).1
  obtain ⟨body', hbody', heq⟩ := h.body_eq hd
  obtain rfl := Option.some.inj (hbody.symm.trans hbody')
  rw [depsOf_of_getElem? hd, heq, VarBody.mem_deps_map]
  exact ⟨b, hb, rfl⟩

theorem refersTo (hij : j ∈ table.depsOf i) :
    RefersTo x layers (table.nameOf i) (table.nameOf j) ∧ j < table.defs.length := by
  rcases hd : table.defs[i]? with _ | d
  · rw [depsOf, hd] at hij
    cases hij
  · obtain ⟨body, hbody, heq⟩ := h.body_eq hd
    rw [depsOf_of_getElem? hd, heq, VarBody.mem_deps_map] at hij
    obtain ⟨b, hb, rfl⟩ := hij
    have hdefined := (defined_of_definition hbody).2 b hb
    obtain ⟨d', hd', -⟩ := h.getElem?_idOf hdefined
    refine ⟨?_, (List.getElem?_eq_some_iff.mp hd').1⟩
    rw [h.nameOf_idOf hdefined, nameOf, hd]
    exact ⟨body, hbody, hb⟩

theorem closed : Dependency.Closed table.depsOf (List.range table.defs.length) where
  mem _ hj := mem_range.mpr (h.refersTo hj).2
  nil {i} hi := by
    rw [mem_range, not_lt] at hi
    rw [depsOf, getElem?_eq_none hi, elim_none]

/-- **Cycles of names** are cycles of indices. -/
theorem acyclic_iff :
    Dependency.Acyclic table.depsOf ↔ ∀ name, ¬TransGen (RefersTo x layers) name name := by
  constructor
  · intro hacyclic name hcycle
    exact hacyclic (table.idOf name) (hcycle.lift table.idOf fun a b ↦ h.mem_depsOf)
  · intro hacyclic id hcycle
    exact hacyclic (table.nameOf id) (hcycle.lift table.nameOf fun i j hij ↦ (h.refersTo hij).1)

theorem solution_nameOf {ctx : RequestContext S}
    {σ : String → String} (hσ : IsSubstitution x layers ctx σ) (hi : i < table.defs.length) :
    σ (table.nameOf i) = table.expand x ctx (σ ∘ table.nameOf) i := by
  have hd : table.defs[i]? = some table.defs[i] := getElem?_eq_getElem hi
  obtain ⟨body, hbody, heq⟩ := h.body_eq hd
  have hname : table.nameOf i = table.defs[i].name := by rw [nameOf, hd, elim_some]
  rw [hname, hσ _ body hbody, expand_of_getElem? hd, heq, VarBody.expand_map]
  refine VarBody.expand_congr x (fun b hb ↦ ?_) (.refl _ ctx)
  rw [comp_apply, comp_apply, h.nameOf_idOf ((defined_of_definition hbody).2 b hb)]

theorem isSubstitution_idOf {ctx : RequestContext S}
    {τ : VarId → String} (hτ : ∀ i < table.defs.length, τ i = table.expand x ctx τ i) :
    IsSubstitution x layers ctx (τ ∘ table.idOf) := by
  intro name body hbody
  obtain ⟨d, hd, rfl⟩ := h.getElem?_idOf (defined_of_definition hbody).1
  obtain ⟨body', hbody', heq⟩ := h.body_eq hd
  obtain rfl := Option.some.inj (hbody.symm.trans hbody')
  rw [comp_apply, hτ _ (List.getElem?_eq_some_iff.mp hd).1, expand_of_getElem? hd,
    heq, VarBody.expand_map]

end VarTable.Represents

/-! ## Building a table -/

section Build

variable {table : VarTable R} {x : RegexEngine R} {layers : List (List VariableDef)}
  {st : Chosen} {defs : List (VarDef R)}

theorem VarTable.checkCycles_eq_ok_iff
    (h : Dependency.Closed table.depsOf (List.range table.defs.length)) :
    table.checkCycles = .ok () ↔ Dependency.Acyclic table.depsOf := by
  have hsearch : (List.range table.defs.length).foldlM (fun s i ↦ table.cycleDfs i s) .start =
      Dependency.Search.search table.depsOf (List.range table.defs.length) := by
    rw [Dependency.Search.search, length_range]
    rfl
  rw [← h.search_eq_ok_iff, ← hsearch, checkCycles]
  split
  · rename_i s hs
    exact ⟨fun _ ↦ ⟨s, hs⟩, fun _ ↦ rfl⟩
  · rename_i chain hchain
    rw [hchain]
    exact ⟨fun h ↦ (nomatch h), fun ⟨_, h⟩ ↦ (nomatch h)⟩
  · rename_i hfuel
    exact absurd (hsearch ▸ hfuel) h.search_ne_outOfFuel

theorem VarTable.getElem?_computeNeeds (table : VarTable R) (i : VarId) :
    ∃ needs : VarNeeds, table.computeNeeds.defs[i]? =
      (table.defs[i]?).map fun d ↦ { d with needs } := by
  rw [computeNeeds]
  rcases table.resolved with _ | resolved
  · rcases table.defs[i]? with _ | d
    · exact ⟨{}, rfl⟩
    · exact ⟨d.needs, rfl⟩
  · rcases hd : table.defs[i]? with _ | d
    · exact ⟨{}, by simp [hd]⟩
    · exact ⟨(resolved.value i).getD d.needs, by simp [hd]⟩

theorem VarTable.names_computeNeeds (table : VarTable R) :
    table.computeNeeds.names = table.names := by
  rw [computeNeeds]
  split <;> rfl

theorem VarTable.depsOf_computeNeeds (table : VarTable R) :
    table.computeNeeds.depsOf = table.depsOf := by
  funext i
  obtain ⟨needs, hi⟩ := table.getElem?_computeNeeds i
  rw [depsOf, depsOf, hi]
  rcases table.defs[i]? with _ | d <;> rfl

theorem VarTable.Represents.computeNeeds (h : table.Represents x layers) :
    table.computeNeeds.Represents x layers := by
  have hid : table.computeNeeds.idOf = table.idOf := by
    funext name
    rw [idOf, idOf, table.names_computeNeeds]
  have hdef : ∀ {i : VarId} {d : VarDef R}, table.computeNeeds.defs[i]? = some d →
      ∃ d', table.defs[i]? = some d' ∧ d'.name = d.name ∧ d'.body = d.body := by
    intro i d hd
    obtain ⟨needs, hi⟩ := table.getElem?_computeNeeds i
    rw [hi, map_eq_some_iff] at hd
    obtain ⟨d', hd', rfl⟩ := hd
    exact ⟨d', hd', rfl, rfl⟩
  refine ⟨fun name ↦ ?_, fun {name id} hget ↦ ?_, fun {id d} hd ↦ ?_, fun {id d} hd ↦ ?_⟩
  · rw [table.names_computeNeeds, h.isSome_get]
  · rw [table.names_computeNeeds] at hget
    obtain ⟨d, hd, hname⟩ := h.getElem?_of_get hget
    obtain ⟨needs, hi⟩ := table.getElem?_computeNeeds id
    exact ⟨_, hi.trans (congrArg _ hd), hname⟩
  · obtain ⟨d', hd', hname, -⟩ := hdef hd
    rw [table.names_computeNeeds, ← hname, h.get_of_getElem? hd']
  · obtain ⟨d', hd', hname, hbody⟩ := hdef hd
    rw [hid, ← hname, ← hbody]
    exact h.body_eq hd'

theorem Chosen.Sound.isSome_get (h : st.Sound layers.flatten) (name : String) :
    (st.names.get name).isSome = defined layers name := by
  rw [defined, innermost, ← h.find_eq]
  rcases hget : st.names.get name with _ | id
  · rfl
  · obtain ⟨spec, hspec, -⟩ := (h.get_iff name id).mp hget
    rw [bind_some, hspec]
    rfl

theorem Chosen.Sound.get_eq (h : st.Sound layers.flatten) :
    st.names.get = fun n ↦ (lookupName layers n).map fun n ↦ (st.names.get n).getD 0 := by
  funext name
  rw [lookupName, ← h.isSome_get]
  rcases hget : st.names.get name with _ | id
  · rfl
  · simp [hget]

theorem Chosen.Sound.innermost_eq (h : st.Sound layers.flatten) {id : ℕ} {spec : VariableDef}
    (hspec : st.chosen[id]? = some spec) : innermost layers spec.name = some spec := by
  have hget : st.names.get spec.name = some id := (h.get_iff _ _).mpr ⟨spec, hspec, rfl⟩
  rw [innermost, ← h.find_eq, hget, bind_some, hspec]

theorem Chosen.Sound.compiles_iff (h : st.Sound layers.flatten) :
    (∀ spec ∈ st.chosen, ∃ d, compileDef x st.names.get spec = .ok d) ↔
      ∀ name spec, innermost layers name = some spec →
        ∃ body, compileBody x (lookupName layers) spec = .ok body := by
  have hcompile : ∀ spec, (∃ d, compileDef x st.names.get spec = .ok d) ↔
      ∃ body, compileBody x (lookupName layers) spec = .ok body := by
    intro spec
    rw [compileDef, h.get_eq, compileBody_map]
    rcases compileBody x (lookupName layers) spec with e | body
    · exact ⟨fun ⟨_, h⟩ ↦ (nomatch h), fun ⟨_, h⟩ ↦ (nomatch h)⟩
    · exact ⟨fun _ ↦ ⟨body, rfl⟩, fun _ ↦ ⟨_, rfl⟩⟩
  constructor
  · intro hall name spec hspec
    rw [innermost, ← h.find_eq, bind_eq_some_iff] at hspec
    obtain ⟨id, -, hid⟩ := hspec
    exact (hcompile spec).mp (hall spec (mem_of_getElem? hid))
  · intro hall spec hmem
    obtain ⟨id, hid⟩ := getElem?_of_mem hmem
    exact (hcompile spec).mpr (hall spec.name spec (h.innermost_eq hid))

theorem nameOk_of_defined
    (h : ∀ layer ∈ layers, (∀ spec ∈ layer, NameOk spec.name) ∧
      (layer.map name).Nodup) {name : String} (hname : defined layers name = true) :
    NameOk name := by
  rw [defined, isSome_iff_exists] at hname
  obtain ⟨spec, hspec⟩ := hname
  have hmem := mem_reverse.mp (mem_of_find?_eq_some hspec)
  obtain ⟨layer, hlayer, hmem⟩ := mem_flatten.mp hmem
  have heq : spec.name = name := by simpa using find?_some hspec
  exact heq ▸ (h layer hlayer).1 spec hmem

/-- **What is compiled** represents the layers. -/
theorem represents_of_mapM (hst : st.Sound layers.flatten)
    (hnames : ∀ n, defined layers n = true → NameOk n)
    (hdefs : st.chosen.mapM (compileDef x st.names.get) = .ok defs) :
    VarTable.Represents ⟨defs, st.names⟩ x layers := by
  have hlength := length_of_mapM_eq_ok hdefs
  have hdef : ∀ {i : ℕ} {spec : VariableDef}, st.chosen[i]? = some spec →
      ∃ body, compileBody x st.names.get spec = .ok body ∧
        defs[i]? = some ⟨spec.name, body, {}⟩ := by
    intro i spec hspec
    obtain ⟨d, hd, hi⟩ := getElem?_of_mapM_eq_ok hdefs hspec
    rw [compileDef, map_eq_ok_iff] at hd
    obtain ⟨body, hbody, rfl⟩ := hd
    exact ⟨body, hbody, hi⟩
  have hspec : ∀ {i : ℕ} {d : VarDef R}, defs[i]? = some d →
      ∃ spec, st.chosen[i]? = some spec ∧ compileBody x st.names.get spec = .ok d.body ∧
        d.name = spec.name := by
    intro i d hd
    have hi : i < st.chosen.length := hlength ▸ (List.getElem?_eq_some_iff.mp hd).1
    obtain ⟨body, hbody, hd'⟩ := hdef (getElem?_eq_getElem hi)
    obtain rfl := Option.some.inj (hd.symm.trans hd')
    exact ⟨_, getElem?_eq_getElem hi, hbody, rfl⟩
  refine ⟨hst.isSome_get, fun {name id} hget ↦ ?_, fun {id d} hd ↦ ?_, fun {id d} hd ↦ ?_⟩
  · obtain ⟨spec, hchosen, hname⟩ := (hst.get_iff name id).mp hget
    obtain ⟨body, -, hd⟩ := hdef hchosen
    exact ⟨_, hd, hname⟩
  · obtain ⟨spec, hchosen, -, hname⟩ := hspec hd
    exact (hst.get_iff _ _).mpr ⟨spec, hchosen, hname.symm⟩
  · obtain ⟨spec, hchosen, hbody, hname⟩ := hspec hd
    rw [hst.get_eq, compileBody_map, map_eq_ok_iff] at hbody
    obtain ⟨body, hbody, heq⟩ := hbody
    refine ⟨body, ?_, heq.symm⟩
    rw [definition, hname, hst.innermost_eq hchosen, map_some,
      VarBody.eq_ofBody_of_compileBody hnames x hbody]

theorem sound_foldl_flatten (layers : List (List VariableDef)) :
    (layers.flatten.foldl Chosen.add {}).Sound layers.flatten := by
  simpa using Chosen.Sound.nil.foldl layers.flatten

theorem buildLayered_eq_ok_iff :
    buildLayered x layers = .ok table ↔ ∃ st defs, layers.foldlM addLayer {} = .ok st ∧
      st.chosen.mapM (compileDef x st.names.get) = .ok defs ∧
      checkCycles (⟨defs, st.names⟩ : VarTable R) = .ok () ∧
      computeNeeds ⟨defs, st.names⟩ = table := by
  simp only [buildLayered, bind_eq_ok_iff]
  constructor
  · rintro ⟨st, hst, defs, hdefs, _, hcycles, htable⟩
    exact ⟨st, defs, hst, hdefs, hcycles, Except.ok.inj htable⟩
  · rintro ⟨st, defs, hst, hdefs, hcycles, rfl⟩
    exact ⟨st, hst, defs, hdefs, (), hcycles, rfl⟩

theorem VarTable.Represents.sound (h : table.Represents x layers)
    (hacyclic : Dependency.Acyclic table.depsOf) : table.Sound :=
  ⟨h.closed, hacyclic⟩

/-- A table that is built has the needs worked out for one that represents its layers. -/
theorem exists_of_buildLayered (h : buildLayered x layers = .ok table) :
    ∃ raw : VarTable R, raw.Represents x layers ∧ raw.Sound ∧ raw.computeNeeds = table := by
  obtain ⟨st, defs, hst, hdefs, hcycles, rfl⟩ := buildLayered_eq_ok_iff.mp h
  obtain ⟨hlayers, rfl⟩ := foldlM_addLayer_eq_ok_iff.mp hst
  have hrep := represents_of_mapM (sound_foldl_flatten layers)
    (fun n ↦ nameOk_of_defined hlayers) hdefs
  exact ⟨_, hrep, hrep.sound ((checkCycles_eq_ok_iff hrep.closed).mp hcycles), rfl⟩

theorem represents_of_buildLayered (h : buildLayered x layers = .ok table) :
    table.Represents x layers ∧ Dependency.Acyclic table.depsOf := by
  obtain ⟨raw, hrep, hsound, rfl⟩ := exists_of_buildLayered h
  rw [depsOf_computeNeeds]
  exact ⟨hrep.computeNeeds, hsound.acyclic⟩

theorem wellFormed_of_buildLayered (h : buildLayered x layers = .ok table) :
    WellFormed x layers := by
  obtain ⟨hrep, hacyclic⟩ := represents_of_buildLayered h
  obtain ⟨st, defs, hst, hdefs, -⟩ := buildLayered_eq_ok_iff.mp h
  obtain ⟨hlayers, rfl⟩ := foldlM_addLayer_eq_ok_iff.mp hst
  refine ⟨fun l hl spec hspec ↦ ((hlayers l hl).1 spec hspec).1,
    fun l hl spec hspec ↦ ((hlayers l hl).1 spec hspec).2, fun l hl ↦ (hlayers l hl).2, ?_,
    hrep.acyclic_iff.mp hacyclic⟩
  refine (sound_foldl_flatten layers).compiles_iff.mp fun spec hspec ↦ ?_
  obtain ⟨i, hi⟩ := getElem?_of_mem hspec
  obtain ⟨d, hd, -⟩ := getElem?_of_mapM_eq_ok hdefs hi
  exact ⟨d, hd⟩

theorem WellFormed.exists_buildLayered (h : WellFormed x layers) :
    ∃ table, buildLayered x layers = .ok table := by
  have hlayers : ∀ layer ∈ layers, (∀ spec ∈ layer, NameOk spec.name) ∧ (layer.map name).Nodup :=
    fun l hl ↦ ⟨fun spec hspec ↦ ⟨h.validName l hl spec hspec, h.unreserved l hl spec hspec⟩,
      h.nodup l hl⟩
  have hst : layers.foldlM addLayer {} = .ok (layers.flatten.foldl Chosen.add {}) :=
    foldlM_addLayer_eq_ok_iff.mpr ⟨hlayers, rfl⟩
  have hsound := sound_foldl_flatten layers
  obtain ⟨defs, hdefs⟩ := exists_mapM_eq_ok (hsound.compiles_iff.mpr h.compiles)
  have hrep := represents_of_mapM hsound (fun n ↦ nameOk_of_defined hlayers) hdefs
  have hcycles := (checkCycles_eq_ok_iff hrep.closed).mpr (hrep.acyclic_iff.mpr h.acyclic)
  exact ⟨_, buildLayered_eq_ok_iff.mpr ⟨_, defs, hst, hdefs, hcycles, rfl⟩⟩

/-- **Tables are sound.** A table is built exactly for layers that are in order. Then the variables
have values by recursive substitution, and evaluating one ends with the value of its name. -/
theorem buildLayered_sound (x : RegexEngine R) (layers : List (List VariableDef)) :
    ((∃ table, buildLayered x layers = .ok table) ↔ WellFormed x layers) ∧
    ∀ table, buildLayered x layers = .ok table →
      (∀ name, (table.names.get name).isSome = defined layers name) ∧
      ∀ ctx : RequestContext (VarScope R), ctx.vars = some table →
        (∃ σ, IsSubstitution x layers ctx σ) ∧
        ∀ σ, IsSubstitution x layers ctx σ → ∀ slots : Slots String,
          slots.length = table.defs.length →
          (∀ name id v, table.names.get name = some id → slots.value id = some v → v = σ name) →
          ∀ name id, table.names.get name = some id → ∀ depth, table.defs.length ≤ depth →
            ∃ slots', (VarScope.get x ctx depth id).run slots = some (σ name, slots') := by
  refine ⟨⟨fun ⟨_, h⟩ ↦ wellFormed_of_buildLayered h, WellFormed.exists_buildLayered⟩, ?_⟩
  intro table h
  obtain ⟨hrep, hacyclic⟩ := represents_of_buildLayered h
  refine ⟨hrep.isSome_get, fun ctx hctx ↦ ⟨?_, ?_⟩⟩
  · obtain ⟨τ, hτ⟩ := hrep.closed.exists_solution hacyclic (table.local_expand x ctx)
    exact ⟨_, hrep.isSubstitution_idOf fun i hi ↦ hτ i (mem_range.mpr hi)⟩
  · intro σ hσ slots hlength hslots name id hget depth hdepth
    have hsound := hrep.sound hacyclic
    obtain ⟨d, hd, hname⟩ := hrep.getElem?_of_get hget
    have hid : id < table.defs.length := (List.getElem?_eq_some_iff.mp hd).1
    have hlt : ∀ j ∈ table.reach id, j < table.defs.length := fun j hj ↦
      mem_range.mp (hsound.of_mem_reach hid hj).1
    have hold : ∀ j ∈ table.reach id, ∀ v, slots.value j = some v →
        v = (σ ∘ table.nameOf) j := by
      intro j hj v hv
      obtain ⟨d', hd'⟩ : ∃ d', table.defs[j]? = some d' := ⟨_, getElem?_eq_getElem (hlt j hj)⟩
      rw [comp_apply, nameOf, hd', elim_some]
      exact hslots _ j v (hrep.get_of_getElem? hd') hv
    obtain ⟨slots', hrun, -⟩ := (hsound.freezes_get x hctx hdepth hid).run_eq hrep.closed hacyclic
      (table.local_expand x ctx) (fun j hj ↦ hsound.of_mem_reach hid hj)
      (fun σ τ hστ ↦ hστ id ReflTransGen.refl)
      (fun j hj ↦ hrep.solution_nameOf hσ (hlt j hj)) hlength hold
    have hvalue : table.nameOf id = name := by rw [nameOf, hd, elim_some, hname]
    exact ⟨slots', hrun.trans (congrArg (fun n ↦ some (σ n, slots')) hvalue)⟩

/-- Patterns that are found as they are written. -/
def substringRegex : RegexEngine String where
  new pat := .ok pat
  captureNames _ := [none]
  captures re s := if Text.contains re s then some [some re] else none

/-- A greeting that a virtual host chooses by the name of the host. -/
def greetingLayers : List (List VariableDef) :=
  [[⟨"greeting", .constant "hello", 1⟩, ⟨"line", .constant "\x7bgreeting\x7d world", 2⟩],
    [⟨"greeting", .matchArms "\x7bhost\x7d" [⟨some "fr", "bonjour", 4⟩, ⟨none, "hi", 5⟩], 3⟩]]

def greetingContext (table : VarTable String) : RequestContext (VarScope String) :=
  { RequestContext.empty (some table) with host := "fr.example.com" }

theorem buildLayered_sound_greeting :
    ∃ table, buildLayered substringRegex greetingLayers = .ok table ∧
      ∃ σ, IsSubstitution substringRegex greetingLayers (greetingContext table) σ ∧
        σ "line" = "bonjour world" := by
  have hrun : (buildLayered substringRegex greetingLayers).toOption.bind (fun table ↦
      ((VarScope.get substringRegex (greetingContext table) 2 1).run table.newSlots).map fun r ↦
        (r.1, table.names.get "line", table.defs.length)) = some ("bonjour world", some 1, 2) := by
    decide +kernel
  obtain ⟨table, htable, hrun⟩ := bind_eq_some_iff.mp hrun
  obtain ⟨⟨text, slots⟩, hrun, hline⟩ := map_eq_some_iff.mp hrun
  obtain ⟨rfl, hget, hlength⟩ : text = _ ∧ _ = some 1 ∧ table.defs.length = 2 := by
    simpa using hline
  have h := eq_ok_of_toOption htable
  obtain ⟨-, hvalues⟩ := (buildLayered_sound substringRegex greetingLayers).2 table h
  obtain ⟨⟨σ, hσ⟩, hvalue⟩ := hvalues (greetingContext table) rfl
  obtain ⟨slots', hrun'⟩ := hvalue σ hσ table.newSlots length_replicate
    (fun _ _ _ _ hslot ↦ (nomatch Slots.value_fresh.symm.trans hslot)) "line" 1 hget 2 hlength.le
  refine ⟨table, h, σ, hσ, ?_⟩
  exact (congrArg Prod.fst (some.inj (hrun.symm.trans hrun'))).symm

end Build

end Vars

end Hypershunt
