import Hypershunt.Vars.Template

/-!
# Templates keep their text

The tokens of a template make up its source. What is rendered is the source with the value, or the
fallback, in the place of each token that stands for something; other braces are text.
-/

namespace Hypershunt

namespace Vars

open String Template

variable {V S : Type} {m : Type → Type} [Monad m]

/-- The text that a token was read from. -/
def RawTok.source : RawTok → String
  | .literal l => l
  | .token _ _ raw => raw

/-- What a name can stand for. -/
inductive Referent (V : Type)
  | known (v : KnownVar)
  | header (name : HeaderName)
  | capture (i : ℕ)
  | custom (id : V)
  deriving DecidableEq

/-- The first thing that a name stands for; attributes do not need a table. -/
def resolve (vars : Option (String → Option V)) (caps : Option CaptureScope) (name : String) :
    Option (Referent V) :=
  (knownVar name).map .known <|> vars.bind fun vars ↦
    (headerToken name).map .header <|> (caps.bind (·.lookup name)).map .capture <|>
      (vars name).map .custom

def Referent.value (getVar : V → m String) (ctx : RequestContext S)
    (groups : Option (List (Option String))) : Referent V → m String
  | .known v => pure (ctx.known v)
  | .header name => pure (ctx.headerValue name)
  | .capture i => pure ((groups.bind (·[i]?.join)).getD "")
  | .custom id => getVar id

def RawTok.referent (vars : Option (String → Option V)) (caps : Option CaptureScope) :
    RawTok → Option (Referent V)
  | .literal _ => none
  | .token name _ _ => resolve vars caps name

/-- A token is replaced if its name stands for something, and its text is kept otherwise. -/
def RawTok.substitute (vars : Option (String → Option V)) (caps : Option CaptureScope)
    (getVar : V → m String) (ctx : RequestContext S) (groups : Option (List (Option String))) :
    RawTok → m String
  | .literal l => pure l
  | .token name fallback raw => (resolve vars caps name).elim (pure raw) fun r ↦
    (orFallback · fallback) <$> r.value getVar ctx groups

/-! ## Lexing -/

theorem join_literals (s : String) : join ((RawTok.literals s).map RawTok.source) = s := by
  rw [RawTok.literals]
  split_ifs with h
  · exact (isEmpty_iff.mp h).symm
  · rw [List.map_singleton, join_cons, join_nil, append_empty, RawTok.source]

/-- **Nothing is lost**: the texts of the tokens make up the source. -/
theorem join_lex (s : String) : join ((lex s).map RawTok.source) = s := by
  fun_induction lex s with
  | case1 rest => exact join_literals rest
  | case2 rest lit after hopen ih =>
    rw [List.map_append, join_append, join_literals, Text.eq_append_of_splitOnce hopen,
      append_assoc]
    refine congrArg (lit ++ ·) ?_
    split
    · rw [List.map_singleton, join_cons, join_nil, append_empty]
      rfl
    · next token rest' hclose =>
      rw [List.map_cons, join_cons, ih _ _ hclose, Text.eq_append_of_splitOnce hclose]
      simp only [RawTok.ofBraces, RawTok.source, append_assoc]
      rfl

/-! ## Rendering -/

variable {vars : Option (String → Option V)} {caps : Option CaptureScope} {t : Template V}
  (getVar : V → m String) (ctx : RequestContext S) (groups : Option (List (Option String)))

theorem text_of_build [LawfulMonad m] {tok : RawTok} {part : TemplatePart V}
    (h : TemplatePart.build vars caps tok = .ok part) :
    part.text getVar ctx groups = tok.substitute vars caps getVar ctx groups := by
  rcases tok with l | ⟨name, fallback, raw⟩
  · obtain rfl := Except.ok.inj h
    rfl
  -- the cases of the compiler; where it fails there is nothing to show
  simp only [TemplatePart.build] at h
  repeat' split at h
  all_goals cases h
  all_goals
    simp [RawTok.substitute, resolve, TemplatePart.text, Referent.value, *]

theorem renderInner_of_build [LawfulMonad m] {s : String} (h : build vars caps s = .ok t) :
    t.renderInner getVar ctx groups =
      join <$> (lex s).mapM (RawTok.substitute vars caps getVar ctx groups) := by
  have hloop : ∀ out : String,
      t.foldlM (fun out part ↦ (out ++ ·) <$> part.text getVar ctx groups) out =
        (out ++ join ·) <$> (lex s).mapM (RawTok.substitute vars caps getVar ctx groups) := by
    rw [build, mapM_eq_ok_iff] at h
    generalize lex s = toks at h ⊢
    induction h with
    | nil => simp
    | cons hbuild _ ih =>
      intro out
      simp only [List.foldlM_cons, ih]
      simp only [List.mapM_cons, text_of_build getVar ctx groups hbuild, map_eq_pure_bind,
        bind_assoc, pure_bind, join_cons, append_assoc]
  rw [renderInner, hloop ""]
  simp

/-- **Templates are lossless**: only tokens that stand for something are replaced. -/
theorem lossless [LawfulMonad m] (s : String) (h : build vars caps s = .ok t) :
    join ((lex s).map RawTok.source) = s ∧
      t.renderInner getVar ctx groups =
        join <$> (lex s).mapM (RawTok.substitute vars caps getVar ctx groups) ∧
      ((∀ tok ∈ lex s, tok.referent vars caps = none) →
        t.renderInner getVar ctx groups = pure s) := by
  refine ⟨join_lex s, renderInner_of_build getVar ctx groups h, fun hnone ↦ ?_⟩
  have hkept : (lex s).mapM (RawTok.substitute vars caps getVar ctx groups) =
      pure ((lex s).map RawTok.source) := by
    generalize lex s = toks at hnone
    induction toks with
    | nil => rfl
    | cons tok toks ih =>
      obtain ⟨htok, hrest⟩ := List.forall_mem_cons.mp hnone
      have hsource : tok.substitute vars caps getVar ctx groups = pure tok.source := by
        rcases tok with l | ⟨name, fallback, raw⟩
        · rfl
        · exact congrArg (Option.elim · _ _) htok
      rw [List.mapM_cons, hsource, ih hrest]
      simp
  rw [renderInner_of_build getVar ctx groups h, hkept, map_pure, join_lex]

theorem lossless_braces :
    let t : Template ℕ := [.literal "a", .unknown "\x7bb\x7d"]
    build (some fun _ ↦ none) none "a\x7bb\x7d" = .ok t ∧
      t.renderInner (m := Id) (fun _ ↦ "") (.empty ()) none = "a\x7bb\x7d" := by
  have h : build (some fun _ ↦ (none : Option ℕ)) none "a\x7bb\x7d" =
      .ok [.literal "a", .unknown "\x7bb\x7d"] := by decide +kernel
  exact ⟨h, (lossless (m := Id) (fun _ ↦ "") (.empty ()) none _ h).2.2 (by decide +kernel)⟩

end Vars

end Hypershunt
