import Hypershunt.Foundation.Memo
import Hypershunt.Http.Header

/-!
# Templates

A template is literal text with `\x7bname\x7d` and `\x7bname|fallback\x7d` in it (`headers.rs`). It
is compiled once, when the names of the variables defined in the configuration are known, and
rendered for each request. A name stands for an attribute of the request, a header, a group of the
pattern in whose arm the template is, or a defined variable; anything else is left as it is.

References to defined variables are of a type `V`. The server has indices there; names are used to
say what a template means. How the value of a variable is found is a parameter of rendering, in any
monad: the server looks into slots that it fills, and without effects (`Id`) the values are just a
function.

Regular expressions are those of the `regex` crate.
-/

namespace Hypershunt

open List

namespace Vars

open Text

/-- The `regex` crate. -/
structure RegexEngine (R : Type) where
  new : String → Except String R
  /-- Of all groups, from group 0 on. -/
  captureNames : R → List (Option String)
  captures : R → String → Option (List (Option String))

/-! ## Tokens -/

inductive KnownVar
  | clientIp
  | username
  | groups
  | method
  | path
  | query
  | pathAndQuery
  | host
  | scheme
  | clientCertSubject
  | clientCertSans
  | country
  deriving DecidableEq

def builtinVars : List String :=
  ["client_ip", "username", "groups", "method", "path", "query", "path_and_query", "host", "scheme",
    "client_cert_subject", "client_cert_sans", "country"]

def knownVar : String → Option KnownVar
  | "client_ip" => some .clientIp
  | "username" => some .username
  | "groups" => some .groups
  | "method" => some .method
  | "path" => some .path
  | "query" => some .query
  | "path_and_query" => some .pathAndQuery
  | "host" => some .host
  | "scheme" => some .scheme
  | "client_cert_subject" => some .clientCertSubject
  | "client_cert_sans" => some .clientCertSans
  | "country" => some .country
  | _ => none

theorem knownVar_eq_none {name : String} (h : name ∉ builtinVars) : knownVar name = none := by
  simp only [builtinVars, mem_cons, not_mem_nil, or_false, not_or] at h
  unfold knownVar
  split
  all_goals simp_all

inductive RawTok
  | literal (l : String)
  | token (name : String) (fallback : Option String) (raw : String)
  deriving DecidableEq

/-- Literal text, if there is any. -/
def RawTok.literals (s : String) : List RawTok := if s.isEmpty then [] else [.literal s]

/-- The token between two braces; a fallback starts at the first bar. -/
def RawTok.ofBraces (token : String) : RawTok :=
  .token ((splitOnce '|' token).elim token Prod.fst) ((splitOnce '|' token).map Prod.snd)
    ("\x7b" ++ token ++ "\x7d")

def lex (rest : String) : List RawTok :=
  match _hopen : splitOnce '\x7b' rest with
  | none => RawTok.literals rest
  | some (lit, after) => RawTok.literals lit ++
    match _hclose : splitOnce '\x7d' after with
    | none => [.literal ("\x7b" ++ after)]
    | some (token, rest) => .ofBraces token :: lex rest
  termination_by rest.length
  decreasing_by
    exact (length_lt_of_splitOnce _hclose).trans (length_lt_of_splitOnce _hopen)

/-- The groups that the value of an arm can refer to. -/
structure CaptureScope where
  groups : ℕ
  names : List (String × ℕ)

def CaptureScope.empty : CaptureScope := ⟨0, []⟩

def CaptureScope.fromRegex {R : Type} (x : RegexEngine R) (re : R) : CaptureScope where
  groups := (x.captureNames re).length - 1
  names := (x.captureNames re).zipIdx.filterMap fun c ↦ c.1.map (·, c.2)

/-- One digit from 1 to 9. -/
def digitGroup (token : String) : Option ℕ :=
  match token.toList with
  | [c] => if '1' ≤ c ∧ c ≤ '9' then some (c.toNat - '0'.toNat) else none
  | _ => none

def CaptureScope.lookup (cs : CaptureScope) (token : String) : Option ℕ :=
  match cs.names.find? (·.1 == token) with
  | some named => some named.2
  | none => (digitGroup token).filter (· ≤ cs.groups)

/-- `header:` and the name of a header. -/
def headerToken (name : String) : Option HeaderName :=
  (stripPrefix "header:" name).bind fun h ↦ HeaderName.fromBytes (toAsciiLowercase h)

/-! ## Compilation -/

inductive TemplatePart (V : Type)
  | literal (s : String)
  | var (v : KnownVar) (fallback : Option String)
  | custom (id : V) (fallback : Option String)
  | header (name : HeaderName) (fallback : Option String)
  | capture (i : ℕ) (fallback : Option String)
  | unknown (raw : String)
  deriving DecidableEq

abbrev Template (V : Type) := List (TemplatePart V)

variable {V W : Type}

/-- The part for one token. In the value of an arm, a number that is no group is an error. -/
def TemplatePart.build (vars : Option (String → Option V)) (caps : Option CaptureScope) :
    RawTok → Except String (TemplatePart V)
  | .literal l => .ok (.literal l)
  | .token name fallback raw => match knownVar name, vars with
    | some v, _ => .ok (.var v fallback)
    | none, none => .ok (.unknown raw)
    | none, some vars => match headerToken name, caps.bind (·.lookup name) with
      | some h, _ => .ok (.header h fallback)
      | none, some i => .ok (.capture i fallback)
      | none, none => match caps, digitGroup name with
        | some cs, some n => .error ("value references capture \x7b" ++ toString n ++
            "\x7d but the pattern has only " ++ toString cs.groups ++ " capture group(s)")
        | _, _ => match vars name with
          | some id => .ok (.custom id fallback)
          | none => .ok (.unknown raw)

def Template.build (vars : Option (String → Option V)) (caps : Option CaptureScope) (s : String) :
    Except String (Template V) :=
  (lex s).mapM (TemplatePart.build vars caps)

def Template.compile (s : String) (vars : String → Option V) : Except String (Template V) :=
  Template.build (some vars) none s

def Template.compileWithCaptures (s : String) (vars : String → Option V) (caps : CaptureScope) :
    Except String (Template V) :=
  Template.build (some vars) (some caps) s

/-! ## Rendering -/

/-- What templates are rendered from. `S` is what is known of the defined variables. -/
structure RequestContext (S : Type) where
  clientIp : String
  username : String
  groups : String
  method : String
  path : String
  query : String
  pathAndQuery : String
  host : String
  scheme : String
  clientCertSubject : String
  clientCertSans : String
  country : String
  headers : List (HeaderName × String)
  vars : S

variable {S S' : Type}

def RequestContext.empty (vars : S) : RequestContext S :=
  ⟨"", "", "", "", "", "", "", "", "", "", "", "", [], vars⟩

def RequestContext.known (ctx : RequestContext S) : KnownVar → String
  | .clientIp => ctx.clientIp
  | .username => ctx.username
  | .groups => ctx.groups
  | .method => ctx.method
  | .path => ctx.path
  | .query => ctx.query
  | .pathAndQuery => ctx.pathAndQuery
  | .host => ctx.host
  | .scheme => ctx.scheme
  | .clientCertSubject => ctx.clientCertSubject
  | .clientCertSans => ctx.clientCertSans
  | .country => ctx.country

def RequestContext.headerValue (ctx : RequestContext S) (name : HeaderName) : String :=
  ((ctx.headers.find? (·.1 == name)).map Prod.snd).getD ""

/-- A fallback takes the place of an empty value. -/
def orFallback (value : String) (fallback : Option String) : String :=
  if value.isEmpty then fallback.getD "" else value

variable {m : Type → Type} [Monad m]

def TemplatePart.text (getVar : V → m String) (ctx : RequestContext S)
    (caps : Option (List (Option String))) : TemplatePart V → m String
  | .literal s => pure s
  | .unknown raw => pure raw
  | .var v fallback => pure (orFallback (ctx.known v) fallback)
  | .custom id fallback => (orFallback · fallback) <$> getVar id
  | .header name fallback => pure (orFallback (ctx.headerValue name) fallback)
  | .capture i fallback => pure (orFallback ((caps.bind (·[i]?.join)).getD "") fallback)

def Template.renderInner (getVar : V → m String) (ctx : RequestContext S)
    (caps : Option (List (Option String))) (t : Template V) : m String :=
  t.foldlM (fun out part ↦ (out ++ ·) <$> part.text getVar ctx caps) ""

/-- Rendering without effects. -/
def TemplatePart.expand (σ : V → String) (ctx : RequestContext S)
    (caps : Option (List (Option String))) (p : TemplatePart V) : String :=
  Id.run (p.text σ ctx caps)

def Template.expand (σ : V → String) (ctx : RequestContext S)
    (caps : Option (List (Option String))) (t : Template V) : String :=
  Id.run (t.renderInner σ ctx caps)

theorem Template.expand_eq_foldl (σ : V → String) (ctx : RequestContext S)
    (caps : Option (List (Option String))) (t : Template V) :
    t.expand σ ctx caps = t.foldl (fun out p ↦ out ++ p.expand σ ctx caps) "" := by
  have hloop : ∀ out, Id.run (t.foldlM (fun out p ↦ (out ++ ·) <$> p.text σ ctx caps) out) =
      t.foldl (fun out p ↦ out ++ p.expand σ ctx caps) out := by
    induction t with
    | nil => exact fun out ↦ rfl
    | cons p t ih => exact fun out ↦ ih (out ++ p.expand σ ctx caps)
  exact hloop ""

/-! ## References -/

/-- `push` unless it is there. -/
def pushNew {α : Type} [DecidableEq α] (l : List α) (a : α) : List α :=
  if a ∈ l then l else l ++ [a]

theorem mem_pushNew {α : Type} [DecidableEq α] {l : List α} {a b : α} :
    b ∈ pushNew l a ↔ b ∈ l ∨ b = a := by
  rw [pushNew]
  split_ifs with h
  · exact ⟨Or.inl, fun hb ↦ hb.elim id fun hba ↦ hba ▸ h⟩
  · rw [List.mem_append, mem_singleton]

theorem mem_foldl_pushNew {α : Type} [DecidableEq α] {l l' : List α} {b : α} :
    b ∈ l'.foldl pushNew l ↔ b ∈ l ∨ b ∈ l' := by
  induction l' generalizing l with
  | nil => simp
  | cons a l' ih => rw [foldl_cons, ih, mem_pushNew, mem_cons, or_assoc]

structure TemplateRefs (V : Type) where
  principal : Bool := false
  geoip : Bool := false
  headers : List HeaderName := []
  vars : List V := []

open TemplateRefs

def TemplateRefs.add [DecidableEq V] (r : TemplateRefs V) : TemplatePart V → TemplateRefs V
  | .var .username _ => { r with principal := true }
  | .var .groups _ => { r with principal := true }
  | .var .country _ => { r with geoip := true }
  | .header name _ => { r with headers := pushNew r.headers name }
  | .custom id _ => { r with vars := pushNew r.vars id }
  | _ => r

def Template.refs [DecidableEq V] (t : Template V) : TemplateRefs V := t.foldl add {}

/-- What a template can read of a request that takes an effort to find out. -/
inductive Attribute
  | principal
  | geoip
  | header (name : HeaderName)

def TemplateRefs.Reads (r : TemplateRefs V) : Attribute → Prop
  | .principal => r.principal = true
  | .geoip => r.geoip = true
  | .header name => name ∈ r.headers

section Refs

variable [DecidableEq V] {t : Template V} {p : TemplatePart V} {r : TemplateRefs V} {a : Attribute}
  {v : V}

theorem TemplateRefs.reads_add :
    (r.add p).Reads a ↔ r.Reads a ∨ (add {} p).Reads a := by
  rcases a with _ | _ | name <;> rcases p with _ | ⟨_ | _, _⟩ | _ | _ | _ | _ <;>
    simp [add, TemplateRefs.Reads, mem_pushNew]

theorem TemplateRefs.mem_vars_add :
    v ∈ (r.add p).vars ↔ v ∈ r.vars ∨ ∃ fallback, p = .custom v fallback := by
  rcases p with _ | ⟨_ | _, _⟩ | _ | _ | _ | _ <;>
    simp [add, mem_pushNew, eq_comm]

theorem Template.reads_foldl :
    (t.foldl add r).Reads a ↔
      r.Reads a ∨ ∃ p ∈ t, (add {} p).Reads a := by
  induction t generalizing r with
  | nil => simp
  | cons p t ih =>
    rw [foldl_cons, ih, reads_add, exists_mem_cons_iff, or_assoc]

theorem Template.mem_vars_foldl :
    v ∈ (t.foldl add r).vars ↔
      v ∈ r.vars ∨ ∃ fallback, .custom v fallback ∈ t := by
  induction t generalizing r with
  | nil => simp
  | cons p t ih =>
    rw [foldl_cons, ih, mem_vars_add, or_assoc, ← exists_or]
    simp only [mem_cons, eq_comm]

theorem Template.reads_of_mem (hp : p ∈ t) (ha : (add {} p).Reads a) :
    t.refs.Reads a :=
  Template.reads_foldl.mpr (Or.inr ⟨p, hp, ha⟩)

theorem Template.mem_vars : v ∈ t.refs.vars ↔ ∃ fallback, .custom v fallback ∈ t := by
  rw [Template.refs, Template.mem_vars_foldl, or_iff_right not_mem_nil]

end Refs

/-! ## What a rendering depends on -/

/-- Two requests that agree but for attributes outside of `P`. -/
structure RequestContext.Agree (P : Attribute → Prop) (ctx ctx' : RequestContext S) : Prop where
  known : ∀ v, v ≠ .username → v ≠ .groups → v ≠ .country → ctx.known v = ctx'.known v
  principal : P .principal → ctx.username = ctx'.username ∧ ctx.groups = ctx'.groups
  geoip : P .geoip → ctx.country = ctx'.country
  header : ∀ name, P (.header name) → ctx.headerValue name = ctx'.headerValue name

theorem RequestContext.Agree.mono {P Q : Attribute → Prop} {ctx ctx' : RequestContext S}
    (h : ctx.Agree P ctx') (hPQ : ∀ a, Q a → P a) : ctx.Agree Q ctx' :=
  ⟨h.known, fun hQ ↦ h.principal (hPQ _ hQ), fun hQ ↦ h.geoip (hPQ _ hQ),
    fun name hQ ↦ h.header name (hPQ _ hQ)⟩

section Render

variable {t : Template V} {ctx ctx' : RequestContext S} {caps : Option (List (Option String))}
  {σ τ : V → String}

theorem TemplatePart.expand_congr [DecidableEq V] {p : TemplatePart V}
    (hvars : ∀ v fallback, p = .custom v fallback → σ v = τ v)
    (hctx : ctx.Agree (add {} p).Reads ctx') :
    p.expand σ ctx caps = p.expand τ ctx' caps := by
  rcases p with s | ⟨v, fallback⟩ | ⟨id, fallback⟩ | ⟨name, fallback⟩ | ⟨i, fallback⟩ | raw
  · rfl
  · have hknown : ctx.known v = ctx'.known v := by
      rcases v with _ | _ | _ | _ | _ | _ | _ | _ | _ | _ | _ | _
      case username => exact (hctx.principal rfl).1
      case groups => exact (hctx.principal rfl).2
      case country => exact hctx.geoip rfl
      all_goals exact hctx.known _ (by decide) (by decide) (by decide)
    exact congrArg (orFallback · fallback) hknown
  · exact congrArg (orFallback · fallback) (hvars id fallback rfl)
  · have hheader := hctx.header name (mem_singleton_self name)
    exact congrArg (orFallback · fallback) hheader
  · rfl
  · rfl

/-- **A rendering** is given by the variables and the attributes that the template refers to. -/
theorem Template.expand_congr [DecidableEq V] (hvars : ∀ v ∈ t.refs.vars, σ v = τ v)
    (hctx : ctx.Agree t.refs.Reads ctx') : t.expand σ ctx caps = t.expand τ ctx' caps := by
  rw [Template.expand_eq_foldl, Template.expand_eq_foldl]
  refine foldl_ext _ _ _ fun out p hp ↦ congrArg (out ++ ·) ?_
  refine TemplatePart.expand_congr (fun v fallback h ↦ hvars v ?_)
    (hctx.mono fun a ↦ Template.reads_of_mem hp)
  exact Template.mem_vars.mpr ⟨fallback, h ▸ hp⟩

theorem Template.renderInner_pure [DecidableEq V] {m : Type → Type} [Monad m] [LawfulMonad m]
    {getVar : V → m String} (h : ∀ v ∈ t.refs.vars, getVar v = pure (σ v)) :
    t.renderInner getVar ctx caps = pure (t.expand σ ctx caps) := by
  have hpart : ∀ p ∈ t, p.text getVar ctx caps = pure (p.expand σ ctx caps) := by
    intro p hp
    rcases p with s | ⟨v, fallback⟩ | ⟨id, fallback⟩ | ⟨name, fallback⟩ | ⟨i, fallback⟩ | raw
    case custom =>
      rw [TemplatePart.text, h id (Template.mem_vars.mpr ⟨fallback, hp⟩), map_pure]
      rfl
    all_goals rfl
  have hloop : ∀ out, t.foldlM (fun out p ↦ (out ++ ·) <$> p.text getVar ctx caps) out =
      pure (t.foldl (fun out p ↦ out ++ p.expand σ ctx caps) out) := by
    clear h
    induction t with
    | nil => exact fun out ↦ rfl
    | cons p t ih =>
      intro out
      rw [foldlM_cons, hpart p mem_cons_self, map_pure, pure_bind, foldl_cons]
      exact ih (fun q hq ↦ hpart q (mem_cons_of_mem p hq)) _
  rw [Template.renderInner, hloop, Template.expand_eq_foldl]

end Render

section Memory

open Slots

variable {F : (ℕ → String) → ℕ → String} {U : Set ℕ} {n : ℕ}
  {getVar : ℕ → StateT (Slots String) Option String} {t : Template ℕ}

theorem Template.freezes_renderInner (h : ∀ v ∈ t.refs.vars, Freezes F U n (getVar v) fun σ ↦ σ v)
    (ctx : RequestContext S) (caps : Option (List (Option String))) :
    Freezes F U n (t.renderInner getVar ctx caps) fun σ ↦ t.expand σ ctx caps := by
  simp only [Template.expand_eq_foldl]
  refine Freezes.foldlM (g := fun σ out (p : TemplatePart ℕ) ↦ out ++ p.expand σ ctx caps)
    (fun out p hp ↦ ?_) ""
  refine Freezes.map (p := fun σ ↦ p.expand σ ctx caps) ?_ (out ++ ·)
  rcases p with s | ⟨v, fallback⟩ | ⟨id, fallback⟩ | ⟨name, fallback⟩ | ⟨i, fallback⟩ | raw
  case custom => exact (h id (Template.mem_vars.mpr ⟨fallback, hp⟩)).map _
  all_goals exact Freezes.pure _

end Memory

end Vars

end Hypershunt
