import Hypershunt.Router.NamedPolicy
import Mathlib.Logic.Relation
import Mathlib.Order.WellFounded

/-!
# Resolution is expansion

What resolving named policies is for: replacing each `apply`, in place, by the fully expanded rules
of the policy it names. `Expands` says that as a relation, without memory, stack or order, and the
walk is compared with it.

## Success

An expansion is a finite derivation, so it can only exist where the names applied are defined and
the walk down them ends. In the other direction, a walk that has entered the policies `visiting`
stands at a policy all of them lead to; without cycles it can never stand at one of them, so the
circularity error is not raised.

## Order

An expansion is unique, and the resolved map holds exactly the expansions. Neither depends on the
order in which the walk was started from the keys of the map.
-/

namespace Hypershunt

open List Option Relation AList

/-- `rules` is `ruleDefs` with every `apply` expanded, all the way down. -/
inductive Expands (defs : PolicyDefs) : List PolicyRuleDef → List PolicyRule → Prop
  | nil : Expands defs [] []
  | rule {predicate : Option Predicate} {action : PolicyAction} {ruleDefs : List PolicyRuleDef}
      {rules : List PolicyRule} (h : Expands defs ruleDefs rules) :
    Expands defs (.rule predicate action :: ruleDefs) (⟨predicate, action⟩ :: rules)
  | apply {name : String} {body ruleDefs : List PolicyRuleDef} {inlined rules : List PolicyRule}
      (hdef : defs.lookup name = some body) (hbody : Expands defs body inlined)
      (h : Expands defs ruleDefs rules) :
    Expands defs (.apply name :: ruleDefs) (inlined ++ rules)

/-- Policy `n` applies policy `m`. -/
def Applies (defs : PolicyDefs) (n m : String) : Prop :=
  ∃ body, defs.lookup n = some body ∧ .apply m ∈ body

variable {defs : PolicyDefs}

variable {ruleDefs : List PolicyRuleDef} {rules : List PolicyRule} {name : String}
  {resolved resolved' : ResolvedPolicies} {visiting : List String} {body : List PolicyRuleDef}

theorem Expands.unique {rules' : List PolicyRule} (h : Expands defs ruleDefs rules)
    (h' : Expands defs ruleDefs rules') : rules = rules' := by
  induction h generalizing rules' with
  | nil =>
    cases h'
    rfl
  | rule _ ih =>
    cases h' with
    | rule h' => rw [ih h']
  | apply hdef _ _ ihbody ih =>
    cases h' with
    | apply hdef' hbody' h' =>
      rw [hdef, some.injEq] at hdef'
      subst hdef'
      rw [ihbody hbody', ih h']

/-- Names that an expansion goes through are defined. -/
theorem Expands.mem_of_apply (h : Expands defs ruleDefs rules) (hname : .apply name ∈ ruleDefs) :
    name ∈ defs := by
  induction h with
  | nil => exact absurd hname not_mem_nil
  | rule _ ih =>
    rcases mem_cons.mp hname with heq | hname
    · cases heq
    · exact ih hname
  | apply hdef _ _ _ ih =>
    rcases mem_cons.mp hname with heq | hname
    · cases heq
      exact lookup_isSome.mp (by rw [hdef]; rfl)
    · exact ih hname

/-- Walking down from a name that an expansion goes through ends. -/
theorem Expands.acc_of_apply (h : Expands defs ruleDefs rules) (hname : .apply name ∈ ruleDefs) :
    Acc (flip (Applies defs)) name := by
  induction h generalizing name with
  | nil => exact absurd hname not_mem_nil
  | rule _ ih =>
    rcases mem_cons.mp hname with heq | hname
    · cases heq
    · exact ih hname
  | apply hdef _ _ ihbody ih =>
    rcases mem_cons.mp hname with heq | hname
    · cases heq
      refine Acc.intro _ fun m hm ↦ ?_
      obtain ⟨body, hbody, hmem⟩ := hm
      rw [hdef, some.injEq] at hbody
      exact ihbody (hbody ▸ hmem)
    · exact ih hname

/-! ## Soundness of the memory -/

/-- Everything remembered is an expansion. -/
def SoundMemo (defs : PolicyDefs) (resolved : ResolvedPolicies) : Prop :=
  ∀ name rules, resolved.lookup name = some rules →
    ∃ body, defs.lookup name = some body ∧ Expands defs body rules

/-- Nothing that was remembered is forgotten or replaced. -/
def Remembers (resolved resolved' : ResolvedPolicies) : Prop :=
  ∀ name rules, resolved.lookup name = some rules → resolved'.lookup name = some rules

theorem Remembers.refl (resolved : ResolvedPolicies) : Remembers resolved resolved :=
  fun _ _ h ↦ h

theorem Remembers.trans {r₁ r₂ r₃ : ResolvedPolicies} (h : Remembers r₁ r₂)
    (h' : Remembers r₂ r₃) : Remembers r₁ r₃ := fun name rules hl ↦ h' name rules (h name rules hl)

theorem SoundMemo.insert (h : SoundMemo defs resolved) (hdef : defs.lookup name = some body)
    (hbody : Expands defs body rules) : SoundMemo defs (resolved.insert name rules) := by
  intro n rs hl
  rcases HashMap.of_lookup_insert hl with ⟨rfl, rfl⟩ | hl
  · exact ⟨body, hdef, hbody⟩
  · exact h n rs hl

/-- What one call of `resolve_one` does when it succeeds: it remembers, or it walks the body. -/
theorem resolveOne_eq_ok (h : resolveOne defs name resolved visiting = .ok (rules, resolved')) :
    (resolved.lookup name = some rules ∧ resolved' = resolved) ∨
      (resolved.lookup name = none ∧ name ∉ visiting ∧ ∃ body r,
        defs.lookup name = some body ∧
        resolveRuleDefs defs body resolved (visiting ++ [name]) = .ok (rules, r) ∧
        resolved' = r.insert name rules) := by
  rw [resolveOne] at h
  split at h
  case h_1 rs hl =>
    cases h
    exact Or.inl ⟨hl, rfl⟩
  case h_2 hl =>
    split at h
    case isTrue => cases h
    case isFalse hvisiting =>
      split at h
      case h_1 => cases h
      case h_2 body hdef =>
        rw [bind_eq_ok_iff] at h
        obtain ⟨⟨rs, r⟩, hbody, hret⟩ := h
        cases hret
        exact Or.inr ⟨hl, hvisiting, body, r, hdef, hbody, rfl⟩

/-- To prove something of every stack, it may be assumed of the stacks the walk makes of it. -/
theorem visiting_induction (defs : PolicyDefs) {P : List String → Prop}
    (h : ∀ visiting, (∀ name ∈ defs, name ∉ visiting → P (visiting ++ [name])) → P visiting)
    (visiting : List String) : P visiting := by
  induction hn : unvisited defs visiting using Nat.strongRecOn generalizing visiting with
  | ind n ih =>
    refine h visiting fun name hdef hname ↦ ih _ ?_ _ rfl
    rw [← hn]
    exact unvisited_concat_lt hdef hname

/-- What a successful call establishes, with the stack `visiting`. -/
def OneSound (defs : PolicyDefs) (visiting : List String) : Prop :=
  ∀ name resolved rules resolved',
    resolveOne defs name resolved visiting = .ok (rules, resolved') → SoundMemo defs resolved →
      SoundMemo defs resolved' ∧ Remembers resolved resolved' ∧ resolved'.lookup name = some rules

theorem OneSound.resolveRuleDefs (hone : OneSound defs visiting)
    (h : resolveRuleDefs defs ruleDefs resolved visiting = .ok (rules, resolved'))
    (hsound : SoundMemo defs resolved) :
    SoundMemo defs resolved' ∧ Remembers resolved resolved' ∧ Expands defs ruleDefs rules := by
  induction ruleDefs generalizing resolved rules with
  | nil =>
    rw [Hypershunt.resolveRuleDefs] at h
    cases h
    exact ⟨hsound, .refl _, .nil⟩
  | cons d rest ih =>
    cases d with
    | rule predicate action =>
      rw [Hypershunt.resolveRuleDefs, bind_eq_ok_iff] at h
      obtain ⟨⟨rs, r⟩, hrest, hret⟩ := h
      cases hret
      obtain ⟨hs, hr, hexp⟩ := ih hrest hsound
      exact ⟨hs, hr, .rule hexp⟩
    | apply name =>
      rw [Hypershunt.resolveRuleDefs, bind_eq_ok_iff] at h
      obtain ⟨⟨inlined, r⟩, hname, h⟩ := h
      rw [bind_eq_ok_iff] at h
      obtain ⟨⟨rs, r'⟩, hrest, hret⟩ := h
      cases hret
      -- the memo after the call holds the rules that the call returned
      obtain ⟨hs, hr, hl⟩ := hone name resolved inlined r hname hsound
      obtain ⟨body, hdef, hbody⟩ := hs name inlined hl
      obtain ⟨hs', hr', hexp⟩ := ih hrest hs
      exact ⟨hs', hr.trans hr', .apply hdef hbody hexp⟩

theorem oneSound (defs : PolicyDefs) (visiting : List String) : OneSound defs visiting := by
  refine visiting_induction defs (fun visiting ih ↦ ?_) visiting
  intro name resolved rules resolved' h hsound
  rcases resolveOne_eq_ok h with ⟨hl, rfl⟩ | ⟨hl, hvisiting, body, r, hdef, hbody, rfl⟩
  · exact ⟨hsound, .refl _, hl⟩
  · -- not in the memo, so its body was expanded with the name itself being visited
    have hmem : name ∈ defs := lookup_isSome.mp (by rw [hdef]; rfl)
    obtain ⟨hs, hr, hexp⟩ := (ih name hmem hvisiting).resolveRuleDefs hbody hsound
    refine ⟨hs.insert hdef hexp, ?_, Finmap.lookup_insert r⟩
    intro n rs hn
    have hne : n ≠ name := by
      rintro rfl
      rw [hl] at hn
      cases hn
    rw [Finmap.lookup_insert_of_ne r hne]
    exact hr n rs hn

/-! ## When the walk succeeds -/

/-- Every name applied by some policy is defined, and no policy leads back to itself. -/
structure WellFormed (defs : PolicyDefs) : Prop where
  defined : ∀ n m, Applies defs n m → m ∈ defs
  acyclic : ∀ n, ¬TransGen (Applies defs) n n

/-- A call succeeds at any policy that all the policies being visited lead to. -/
def OneTotal (defs : PolicyDefs) (visiting : List String) : Prop :=
  ∀ name ∈ defs, (∀ v ∈ visiting, TransGen (Applies defs) v name) → ∀ resolved,
    ∃ r, resolveOne defs name resolved visiting = .ok r

theorem OneTotal.resolveRuleDefs (hone : OneTotal defs visiting)
    (h : ∀ m, .apply m ∈ ruleDefs → m ∈ defs ∧ ∀ v ∈ visiting, TransGen (Applies defs) v m)
    (resolved : ResolvedPolicies) :
    ∃ r, resolveRuleDefs defs ruleDefs resolved visiting = .ok r := by
  induction ruleDefs generalizing resolved with
  | nil => exact ⟨_, by rw [Hypershunt.resolveRuleDefs]⟩
  | cons d rest ih =>
    have hrest := ih fun m hm ↦ h m (mem_cons_of_mem d hm)
    cases d with
    | rule predicate action =>
      obtain ⟨r, hr⟩ := hrest resolved
      rw [Hypershunt.resolveRuleDefs, hr]
      exact ⟨_, rfl⟩
    | apply name =>
      obtain ⟨hmem, hvisiting⟩ := h name mem_cons_self
      obtain ⟨⟨inlined, r₁⟩, hr₁⟩ := hone name hmem hvisiting resolved
      obtain ⟨⟨rules, r₂⟩, hr₂⟩ := hrest r₁
      refine ⟨(inlined ++ rules, r₂), ?_⟩
      rw [Hypershunt.resolveRuleDefs, bind_eq_ok_iff]
      refine ⟨_, hr₁, ?_⟩
      rw [bind_eq_ok_iff]
      exact ⟨_, hr₂, rfl⟩

theorem WellFormed.oneTotal (hwf : WellFormed defs) (visiting : List String) :
    OneTotal defs visiting := by
  refine visiting_induction defs (fun visiting ih ↦ ?_) visiting
  intro name hmem hleads resolved
  -- were the name being visited, it would lead to itself
  have hvisiting : name ∉ visiting := fun h ↦ hwf.acyclic name (hleads name h)
  obtain ⟨body, hdef⟩ := isSome_iff_exists.mp (lookup_isSome.mpr hmem)
  have hbody : ∀ m, .apply m ∈ body →
      m ∈ defs ∧ ∀ v ∈ visiting ++ [name], TransGen (Applies defs) v m := by
    intro m hm
    have happlies : Applies defs name m := ⟨body, hdef, hm⟩
    refine ⟨hwf.defined name m happlies, fun v hv ↦ ?_⟩
    rcases List.mem_append.mp hv with hv | hv
    · exact (hleads v hv).tail happlies
    · rw [mem_singleton.mp hv]
      exact .single happlies
  obtain ⟨r, hr⟩ := (ih name hmem hvisiting).resolveRuleDefs hbody resolved
  rw [resolveOne]
  split
  · exact ⟨_, rfl⟩
  · rw [dif_neg hvisiting]
    split
    case h_1 hnone =>
      rw [hdef] at hnone
      cases hnone
    case h_2 body' hdef' =>
      rw [hdef, some.injEq] at hdef'
      rw [← hdef', hr]
      exact ⟨_, rfl⟩

theorem resolveKeys_sound {names : List String}
    (h : resolveKeys defs names resolved = .ok resolved') (hsound : SoundMemo defs resolved) :
    SoundMemo defs resolved' ∧ Remembers resolved resolved' ∧ ∀ n ∈ names, n ∈ resolved' := by
  induction names generalizing resolved with
  | nil =>
    cases h
    exact ⟨hsound, .refl _, fun n hn ↦ absurd hn not_mem_nil⟩
  | cons name names ih =>
    rw [resolveKeys, bind_eq_ok_iff] at h
    obtain ⟨⟨rules, r⟩, hname, hrest⟩ := h
    obtain ⟨hs, hr, hl⟩ := oneSound defs [] name resolved rules r hname hsound
    obtain ⟨hs', hr', hnames⟩ := ih hrest hs
    refine ⟨hs', hr.trans hr', fun n hn ↦ ?_⟩
    rcases mem_cons.mp hn with rfl | hn
    · exact Finmap.mem_iff.mpr ⟨rules, hr' n rules hl⟩
    · exact hnames n hn

theorem WellFormed.resolveKeys (hwf : WellFormed defs) {names : List String}
    (hnames : ∀ n ∈ names, n ∈ defs) (resolved : ResolvedPolicies) :
    ∃ r, resolveKeys defs names resolved = .ok r := by
  induction names generalizing resolved with
  | nil => exact ⟨resolved, rfl⟩
  | cons name names ih =>
    obtain ⟨r, hr⟩ := hwf.oneTotal [] name (hnames name mem_cons_self)
      (fun v hv ↦ absurd hv not_mem_nil) resolved
    rw [Hypershunt.resolveKeys, hr]
    exact ih (fun n hn ↦ hnames n (mem_cons_of_mem name hn)) r.2

/-- The map is the expansion of every policy, and of nothing else. -/
def IsExpansion (defs : PolicyDefs) (resolved : ResolvedPolicies) : Prop :=
  (∀ name, name ∈ resolved ↔ name ∈ defs) ∧
    ∀ name rules, resolved.lookup name = some rules ↔
      ∃ body, defs.lookup name = some body ∧ Expands defs body rules

theorem isExpansion_of_resolve (h : resolveNamedPolicies defs = .ok resolved) :
    IsExpansion defs resolved := by
  obtain ⟨hsound, -, hkeys⟩ := resolveKeys_sound h fun name rules hl ↦ by
    rw [Finmap.lookup_empty] at hl
    cases hl
  refine ⟨fun name ↦ ⟨fun hmem ↦ ?_, fun hmem ↦ hkeys name (mem_keys.mp hmem)⟩,
    fun name rules ↦ ⟨hsound name rules, ?_⟩⟩
  · obtain ⟨rules, hl⟩ := Finmap.mem_iff.mp hmem
    obtain ⟨body, hdef, -⟩ := hsound name rules hl
    exact lookup_isSome.mp (by rw [hdef]; rfl)
  · rintro ⟨body, hdef, hbody⟩
    have hmem : name ∈ defs := lookup_isSome.mp (by rw [hdef]; rfl)
    obtain ⟨rules', hl⟩ := Finmap.mem_iff.mp (hkeys name (mem_keys.mp hmem))
    obtain ⟨body', hdef', hbody'⟩ := hsound name rules' hl
    rw [hdef, some.injEq] at hdef'
    subst hdef'
    rw [hl, hbody.unique hbody']

theorem IsExpansion.exists_expands (h : IsExpansion defs resolved)
    (hdef : defs.lookup name = some body) : ∃ rules, Expands defs body rules := by
  have hmem : name ∈ defs := lookup_isSome.mp (by rw [hdef]; rfl)
  obtain ⟨rules, hl⟩ := Finmap.mem_iff.mp ((h.1 name).mpr hmem)
  obtain ⟨body', hdef', hbody'⟩ := (h.2 name rules).mp hl
  rw [hdef, some.injEq] at hdef'
  exact ⟨rules, hdef' ▸ hbody'⟩

theorem IsExpansion.wellFormed (h : IsExpansion defs resolved) : WellFormed defs := by
  have hwf : WellFounded (flip (Applies defs)) := by
    refine ⟨fun n ↦ Acc.intro n fun m hm ↦ ?_⟩
    obtain ⟨body, hdef, happly⟩ := hm
    obtain ⟨rules, hbody⟩ := h.exists_expands hdef
    exact hbody.acc_of_apply happly
  refine ⟨fun n m happlies ↦ ?_, fun n hcycle ↦ ?_⟩
  · obtain ⟨body, hdef, happly⟩ := happlies
    obtain ⟨rules, hbody⟩ := h.exists_expands hdef
    exact hbody.mem_of_apply happly
  · have hback : TransGen (flip (Applies defs)) n n := transGen_swap.mpr hcycle
    exact hwf.transGen.irrefl.irrefl n hback

theorem IsExpansion.unique {r r' : ResolvedPolicies} (h : IsExpansion defs r)
    (h' : IsExpansion defs r') : r = r' := by
  refine Finmap.ext_lookup fun name ↦ ?_
  ext rules
  exact (h.2 name rules).trans (h'.2 name rules).symm

/-! ## Iteration order -/

section Order

variable {defs' : PolicyDefs} (hperm : defs.entries.Perm defs'.entries)

include hperm

theorem expands_of_perm {ruleDefs : List PolicyRuleDef} {rules : List PolicyRule}
    (h : Expands defs ruleDefs rules) : Expands defs' ruleDefs rules := by
  induction h with
  | nil => exact .nil
  | rule _ ih => exact .rule ih
  | apply hdef _ _ ihbody ih =>
    rw [perm_lookup hperm] at hdef
    exact .apply hdef ihbody ih

theorem isExpansion_of_perm {resolved : ResolvedPolicies} (h : IsExpansion defs resolved) :
    IsExpansion defs' resolved := by
  refine ⟨fun name ↦ ?_, fun name rules ↦ ?_⟩
  · rw [h.1 name, ← lookup_isSome, ← lookup_isSome, perm_lookup hperm]
  · rw [h.2 name rules, perm_lookup hperm]
    refine exists_congr fun body ↦ and_congr_right fun _ ↦ ?_
    exact ⟨expands_of_perm hperm, expands_of_perm hperm.symm⟩

theorem wellFormed_of_perm (h : WellFormed defs) : WellFormed defs' := by
  have happlies : Applies defs' = Applies defs := by
    funext n m
    rw [Applies, Applies, perm_lookup hperm]
  refine ⟨fun n m hnm ↦ ?_, fun n ↦ ?_⟩
  · have hmem := h.defined n m (happlies ▸ hnm)
    rwa [← lookup_isSome, ← perm_lookup hperm, lookup_isSome]
  · rw [happlies]
    exact h.acyclic n

end Order

theorem exists_resolve_iff_wellFormed :
    (∃ resolved, resolveNamedPolicies defs = .ok resolved) ↔ WellFormed defs := by
  constructor
  · rintro ⟨resolved, h⟩
    exact (isExpansion_of_resolve h).wellFormed
  · intro hwf
    exact hwf.resolveKeys (fun n hn ↦ mem_keys.mpr hn) ∅

theorem toOption_resolve_of_perm {defs' : PolicyDefs} (hperm : defs.entries.Perm defs'.entries) :
    (resolveNamedPolicies defs').toOption = (resolveNamedPolicies defs).toOption := by
  cases h : resolveNamedPolicies defs with
  | ok r =>
    have hexp := isExpansion_of_resolve h
    obtain ⟨r', h'⟩ := exists_resolve_iff_wellFormed.mpr (wellFormed_of_perm hperm hexp.wellFormed)
    rw [h', (isExpansion_of_resolve h').unique (isExpansion_of_perm hperm hexp)]
  | error e =>
    cases h' : resolveNamedPolicies defs' with
    | error e' => rfl
    | ok r' =>
      have hwf := wellFormed_of_perm hperm.symm (isExpansion_of_resolve h').wellFormed
      obtain ⟨r, hr⟩ := exists_resolve_iff_wellFormed.mpr hwf
      rw [h] at hr
      cases hr

/-! ## Inlining -/

theorem IsExpansion.inlineRules_eq_ok_iff (h : IsExpansion defs resolved)
    (ruleDefs : List PolicyRuleDef) (rules : List PolicyRule) :
    inlineRules resolved false ruleDefs = .ok rules ↔ Expands defs ruleDefs rules := by
  induction ruleDefs generalizing rules with
  | nil =>
    rw [inlineRules, Except.ok.injEq]
    constructor
    · rintro rfl
      exact .nil
    · intro hexp
      cases hexp
      rfl
  | cons d rest ih =>
    cases d with
    | rule predicate action =>
      rw [inlineRules_rule_eq_ok_iff]
      constructor
      · rintro ⟨-, rs, hrs, rfl⟩
        exact .rule ((ih rs).mp hrs)
      · intro hexp
        cases hexp with
        | rule hrest => exact ⟨rfl, _, (ih _).mpr hrest, rfl⟩
    | apply name =>
      rw [inlineRules_apply_eq_ok_iff]
      constructor
      · rintro ⟨inlined, hl, -, rs, hrs, rfl⟩
        obtain ⟨body, hdef, hbody⟩ := (h.2 name inlined).mp hl
        exact .apply hdef hbody ((ih rs).mp hrs)
      · intro hexp
        cases hexp with
        | apply hdef hbody hrest =>
          have hl := (h.2 name _).mpr ⟨_, hdef, hbody⟩
          exact ⟨_, hl, fun htcp ↦ absurd htcp Bool.false_ne_true, _, (ih _).mpr hrest, rfl⟩

theorem IsExpansion.exists_expands_iff (h : IsExpansion defs resolved)
    (ruleDefs : List PolicyRuleDef) :
    (∃ rules, Expands defs ruleDefs rules) ↔ ∀ name, .apply name ∈ ruleDefs → name ∈ defs := by
  constructor
  · rintro ⟨rules, hexp⟩ name
    exact hexp.mem_of_apply
  · intro hnames
    induction ruleDefs with
    | nil => exact ⟨[], .nil⟩
    | cons d rest ih =>
      obtain ⟨rules, hrest⟩ := ih fun name hname ↦ hnames name (mem_cons_of_mem d hname)
      cases d with
      | rule predicate action => exact ⟨_, .rule hrest⟩
      | apply name =>
        obtain ⟨body, hdef⟩ := isSome_iff_exists.mp
          (lookup_isSome.mpr (hnames name mem_cons_self))
        obtain ⟨inlined, hbody⟩ := h.exists_expands hdef
        exact ⟨_, .apply hdef hbody hrest⟩

/-- **Resolution is expansion.** It succeeds exactly when every applied name is defined and no
policy leads back to itself, and yields the expansion of every policy, whatever the order of the
map; a rule list inlined against it becomes its expansion, exactly when the names it applies are
defined. -/
theorem resolveNamedPolicies_spec (defs : PolicyDefs) :
    ((∃ resolved, resolveNamedPolicies defs = .ok resolved) ↔
      (∀ n m, Applies defs n m → m ∈ defs) ∧ ∀ n, ¬TransGen (Applies defs) n n) ∧
    (∀ resolved, resolveNamedPolicies defs = .ok resolved →
      (∀ name, name ∈ resolved ↔ name ∈ defs) ∧
      (∀ name rules, resolved.lookup name = some rules ↔
        ∃ body, defs.lookup name = some body ∧ Expands defs body rules) ∧
      ∀ ruleDefs,
        ((∃ rules, inlineRules resolved false ruleDefs = .ok rules) ↔
          ∀ name, .apply name ∈ ruleDefs → name ∈ defs) ∧
        ∀ rules, inlineRules resolved false ruleDefs = .ok rules → Expands defs ruleDefs rules) ∧
    ∀ defs' : PolicyDefs, defs.entries.Perm defs'.entries →
      (resolveNamedPolicies defs').toOption = (resolveNamedPolicies defs).toOption := by
  refine ⟨?_, ?_, fun defs' ↦ toOption_resolve_of_perm⟩
  · rw [exists_resolve_iff_wellFormed]
    exact ⟨fun h ↦ ⟨h.defined, h.acyclic⟩, fun h ↦ ⟨h.1, h.2⟩⟩
  · intro resolved h
    have hexp := isExpansion_of_resolve h
    refine ⟨hexp.1, hexp.2, fun ruleDefs ↦ ⟨?_, fun rules ↦ ?_⟩⟩
    · rw [← hexp.exists_expands_iff ruleDefs]
      exact exists_congr fun rules ↦ hexp.inlineRules_eq_ok_iff ruleDefs rules
    · exact (hexp.inlineRules_eq_ok_iff ruleDefs rules).mp

/-- Two policies, the second of which applies the first before a rule of its own. -/
private def siteDefs : PolicyDefs :=
  (∅ : PolicyDefs).insert "staff" [.rule (some .authenticated) .allow]
    |>.insert "site" [.apply "staff", .rule none (.deny 404)]

private theorem applies_siteDefs {n m : String} (h : Applies siteDefs n m) :
    n = "site" ∧ m = "staff" := by
  obtain ⟨body, hdef, happly⟩ := h
  by_cases hsite : n = "site"
  · rw [siteDefs, hsite, lookup_insert, some.injEq] at hdef
    subst hdef
    simp only [mem_cons, PolicyRuleDef.apply.injEq, reduceCtorEq, not_mem_nil, or_false] at happly
    exact ⟨hsite, happly⟩
  · rw [siteDefs, lookup_insert_ne hsite] at hdef
    by_cases hstaff : n = "staff"
    · rw [hstaff, lookup_insert, some.injEq] at hdef
      subst hdef
      simp at happly
    · rw [lookup_insert_ne hstaff, lookup_empty] at hdef
      cases hdef

theorem resolveNamedPolicies_siteDefs :
    ∃ resolved, resolveNamedPolicies siteDefs = .ok resolved ∧
      resolved.lookup "site" = some [⟨some .authenticated, .allow⟩, ⟨none, .deny 404⟩] := by
  obtain ⟨hsucceeds, hresult, -⟩ := resolveNamedPolicies_spec siteDefs
  have hdefined : ∀ n m, Applies siteDefs n m → m ∈ siteDefs := by
    intro n m hnm
    rw [(applies_siteDefs hnm).2]
    decide
  have hacyclic : ∀ n, ¬TransGen (Applies siteDefs) n n := by
    -- the last step of a cycle ends in `staff`, and none starts there
    intro n hcycle
    obtain ⟨m, hfirst, -⟩ := TransGen.head'_iff.mp hcycle
    obtain ⟨k, -, hlast⟩ := TransGen.tail'_iff.mp hcycle
    exact absurd ((applies_siteDefs hfirst).1.symm.trans (applies_siteDefs hlast).2) (by decide)
  obtain ⟨resolved, h⟩ := hsucceeds.mpr ⟨hdefined, hacyclic⟩
  obtain ⟨-, hlookup, -⟩ := hresult resolved h
  refine ⟨resolved, h, (hlookup _ _).mpr ⟨_, rfl, ?_⟩⟩
  exact Expands.apply rfl (.rule .nil) (.rule .nil)

end Hypershunt
