import Hypershunt.Router.Expansion
import Hypershunt.Router.Independence

/-!
# Whether a configuration tests countries

A configuration that tests the country of the peer has to name a GeoIP database. For this `validate`
searches one list of rules after the other, with the policies they apply (`policy_needs_geoip` of
`config/mod.rs`), and marks the names it follows. Between two searches the marked policies have no
such test and apply marked ones only, so that a later search can skip them (`usesCountry_iff`).
-/

namespace Hypershunt

open List

variable {defs : PolicyDefs} {stmts : List PolicyRuleDef} {visited : List String}

theorem unvisited_le_of_subset {visited' : List String} (h : visited ⊆ visited') :
    unvisited defs visited' ≤ unvisited defs visited := by
  refine (monotone_filter_right _ fun name hname ↦ ?_).length_le
  have hnot : name ∉ visited' := of_decide_eq_true hname
  exact decide_eq_true fun hmem ↦ hnot (h hmem)

/-- The answer, and the marked names, to which names are only added. -/
def policyNeedsGeoip (defs : PolicyDefs) (stmts : List PolicyRuleDef) (visited : List String) :
    Bool × { marked : List String // visited ⊆ marked } :=
  match stmts with
  | [] => (false, ⟨visited, Subset.refl _⟩)
  | .rule predicate _ :: rest =>
    if predicate.any Predicate.needsGeoip then (true, ⟨visited, Subset.refl _⟩)
    else policyNeedsGeoip defs rest visited
  | .apply name :: rest =>
    if _hvisited : name ∈ visited then policyNeedsGeoip defs rest visited
    else
      have hmark : visited ⊆ visited ++ [name] := subset_append_left _ _
      match _hdef : defs.lookup name with
      | none =>
        let r := policyNeedsGeoip defs rest (visited ++ [name])
        (r.1, ⟨r.2, Subset.trans hmark r.2.2⟩)
      | some inner =>
        let r := policyNeedsGeoip defs inner (visited ++ [name])
        have hsub := Subset.trans hmark r.2.2
        if r.1 then (true, ⟨r.2, hsub⟩)
        else
          let r' := policyNeedsGeoip defs rest r.2
          (r'.1, ⟨r'.2, Subset.trans hsub r'.2.2⟩)
  termination_by (unvisited defs visited, stmts.length)
  decreasing_by
    · exact Prod.Lex.right _ (Nat.lt_succ_self _)
    · exact Prod.Lex.right _ (Nat.lt_succ_self _)
    · exact Prod.Lex.right' _ (unvisited_le_of_subset hmark) (Nat.lt_succ_self _)
    · have hmem : name ∈ defs := AList.lookup_isSome.mp (by rw [_hdef]; rfl)
      exact Prod.Lex.left _ _ (unvisited_concat_lt hmem _hvisited)
    · exact Prod.Lex.right' _ (unvisited_le_of_subset hsub) (Nat.lt_succ_self _)

/-- The searches of `validate`, up to the first that finds a test. -/
def usesCountry (defs : PolicyDefs) : List (List PolicyRuleDef) → List String → Bool
  | [], _ => false
  | stmts :: rest, visited =>
    let r := policyNeedsGeoip defs stmts visited
    r.1 || usesCountry defs rest r.2

/-! ## What is to be found -/

/-- A test of the country, at any depth. -/
inductive Predicate.TestsCountry : Predicate → Prop
  | country (codes : List String) : TestsCountry (.country codes)
  | not {inner : Predicate} : TestsCountry inner → TestsCountry (.not inner)
  | and {p : Predicate} {preds : List Predicate} :
      p ∈ preds → TestsCountry p → TestsCountry (.and preds)

theorem Predicate.needsGeoip_iff (p : Predicate) : p.needsGeoip = true ↔ p.TestsCountry := by
  induction p with
  | country codes => exact iff_of_true rfl (.country codes)
  | address nets | user names | group groups | authenticated =>
    exact iff_of_false Bool.false_ne_true nofun
  | not inner ih =>
    refine ih.trans ⟨.not, ?_⟩
    rintro (_ | h)
    exact h
  | and preds ih =>
    rw [needsGeoip, anyNeedsGeoip_eq, any_eq_true]
    constructor
    · rintro ⟨p, hp, h⟩
      exact .and hp ((ih p hp).mp h)
    · rintro (_ | _ | ⟨hp, h⟩)
      exact ⟨_, hp, (ih _ hp).mpr h⟩

/-- A test of the country occurs in the rules, or in a policy that they lead to. -/
inductive CountryOccurs (defs : PolicyDefs) : List PolicyRuleDef → Prop
  | rule {stmts : List PolicyRuleDef} {p : Predicate} {action : PolicyAction} :
      .rule (some p) action ∈ stmts → p.TestsCountry → CountryOccurs defs stmts
  | apply {stmts inner : List PolicyRuleDef} {name : String} : .apply name ∈ stmts →
      defs.lookup name = some inner → CountryOccurs defs inner → CountryOccurs defs stmts

theorem CountryOccurs.mono {stmts' : List PolicyRuleDef} (h : CountryOccurs defs stmts)
    (hsub : stmts ⊆ stmts') : CountryOccurs defs stmts' := by
  cases h with
  | rule hmem htest => exact .rule (hsub hmem) htest
  | apply hmem hdef h => exact .apply (hsub hmem) hdef h

/-! ## The search is sound and complete -/

/-- A rule without a test of the country; a name that it applies is marked. -/
def Searched (marked : List String) : PolicyRuleDef → Prop
  | .rule predicate _ => predicate.any Predicate.needsGeoip = false
  | .apply name => name ∈ marked

/-- The policies that are newly marked have been searched. -/
def SearchedSince (defs : PolicyDefs) (visited marked : List String) : Prop :=
  ∀ name ∈ marked, name ∉ visited → ∀ inner, defs.lookup name = some inner →
    ∀ r ∈ inner, Searched marked r

variable {marked marked' : List String} {name : String}

theorem Searched.mono {r : PolicyRuleDef} (h : Searched marked r) (hsub : marked ⊆ marked') :
    Searched marked' r := by
  cases r with
  | rule predicate action => exact h
  | apply name => exact hsub h

theorem SearchedSince.trans (h : SearchedSince defs visited marked)
    (h' : SearchedSince defs marked marked') (hsub : marked ⊆ marked') :
    SearchedSince defs visited marked' := by
  intro name hname hnot inner hdef r hr
  by_cases hmem : name ∈ marked
  · exact (h name hmem hnot inner hdef r hr).mono hsub
  · exact h' name hname hmem inner hdef r hr

theorem SearchedSince.of_concat (h : SearchedSince defs (visited ++ [name]) marked)
    (hname : ∀ inner, defs.lookup name = some inner → ∀ r ∈ inner, Searched marked r) :
    SearchedSince defs visited marked := by
  intro other hother hnot inner hdef
  by_cases heq : other = name
  · exact hname inner (heq ▸ hdef)
  · refine h other hother (fun hmem ↦ ?_) inner hdef
    exact (mem_append.mp hmem).elim hnot fun hlast ↦ heq (mem_singleton.mp hlast)

theorem not_countryOccurs (hall : SearchedSince defs [] visited)
    (h : ∀ r ∈ stmts, Searched visited r) : ¬CountryOccurs defs stmts := by
  intro hoccurs
  induction hoccurs with
  | @rule stmts p action hmem htest =>
    exact Bool.eq_false_iff.mp (h _ hmem) (p.needsGeoip_iff.mpr htest)
  | apply hmem hdef _ ih => exact ih (hall _ (h _ hmem) not_mem_nil _ hdef)

structure FoundCountry (defs : PolicyDefs) (stmts : List PolicyRuleDef) (visited : List String)
    (found : Bool) (marked : List String) : Prop where
  sound : found = true → CountryOccurs defs stmts
  complete : found = false → (∀ r ∈ stmts, Searched marked r) ∧ SearchedSince defs visited marked

open FoundCountry

theorem FoundCountry.cons {found : Bool} {r : PolicyRuleDef}
    (h : FoundCountry defs stmts visited found marked) (hr : Searched marked r) :
    FoundCountry defs (r :: stmts) visited found marked where
  sound hfound := (h.sound hfound).mono (subset_cons_self _ _)
  complete hfound := (h.complete hfound).imp_left fun hstmts ↦ forall_mem_cons.mpr ⟨hr, hstmts⟩

/-- **One search** finds only what is there, and has searched what it marks if it finds nothing. -/
theorem foundCountry_policyNeedsGeoip (defs : PolicyDefs) (stmts : List PolicyRuleDef)
    (visited : List String) :
    FoundCountry defs stmts visited (policyNeedsGeoip defs stmts visited).1
      (policyNeedsGeoip defs stmts visited).2 := by
  fun_induction policyNeedsGeoip defs stmts visited with
  | case1 visited =>
    exact ⟨nofun, fun _ ↦ ⟨nofun, fun name hname hnot ↦ absurd hname hnot⟩⟩
  | case2 visited predicate action rest h =>
    obtain ⟨p, rfl, hp⟩ := (Option.any_eq_true _ _).mp h
    exact ⟨fun _ ↦ .rule mem_cons_self (p.needsGeoip_iff.mp hp), nofun⟩
  | case3 visited predicate action rest h ih => exact ih.cons (Bool.eq_false_iff.mpr h)
  | case4 visited name rest h ih => exact ih.cons ((policyNeedsGeoip defs rest visited).2.2 h)
  | case5 visited name rest h hmark hdef r ih =>
    refine cons ⟨ih.sound, fun hfound ↦ ?_⟩ (r.2.2 (by simp))
    refine (ih.complete hfound).imp_right fun hsince ↦ hsince.of_concat fun inner hinner ↦ ?_
    rw [hdef] at hinner
    exact absurd hinner nofun
  | case6 visited name rest h hmark inner hdef r hsub hfound ih =>
    exact ⟨fun _ ↦ .apply mem_cons_self hdef (ih.sound hfound), nofun⟩
  | case7 visited name rest h hmark inner hdef r hsub hnot r' ih ih' =>
    -- the policy was searched while its name was marked already, and the rest after it
    obtain ⟨hinner, hsince⟩ := ih.complete (Bool.eq_false_iff.mpr hnot)
    refine cons ⟨ih'.sound, fun hfound ↦ ?_⟩ (r'.2.2 (r.2.2 (by simp)))
    refine (ih'.complete hfound).imp_right fun hsince' ↦ ?_
    refine (hsince.of_concat fun body hbody ↦ ?_).trans hsince' r'.2.2
    rw [hdef, Option.some.injEq] at hbody
    exact hbody ▸ hinner

theorem usesCountry_eq_true_iff (lists : List (List PolicyRuleDef))
    (hall : SearchedSince defs [] visited) :
    usesCountry defs lists visited = true ↔ ∃ stmts ∈ lists, CountryOccurs defs stmts := by
  induction lists generalizing visited with
  | nil => simp [usesCountry]
  | cons stmts rest ih =>
    have hout := foundCountry_policyNeedsGeoip defs stmts visited
    rw [usesCountry, Bool.or_eq_true, exists_mem_cons_iff]
    cases hfound : (policyNeedsGeoip defs stmts visited).1 with
    | true => exact iff_of_true (Or.inl rfl) (Or.inl (hout.sound hfound))
    | false =>
      obtain ⟨hsearched, hsince⟩ := hout.complete hfound
      have hall' := hall.trans hsince (policyNeedsGeoip defs stmts visited).2.2
      rw [or_iff_right Bool.false_ne_true, ih hall',
        or_iff_right (not_countryOccurs hall' hsearched)]

/-- **The search is exact**: a test is found just if one occurs in a list or in what it leads to. -/
theorem usesCountry_iff (defs : PolicyDefs) (lists : List (List PolicyRuleDef)) :
    usesCountry defs lists [] = true ↔ ∃ stmts ∈ lists, CountryOccurs defs stmts :=
  usesCountry_eq_true_iff lists nofun

theorem CountryOccurs.of_expands {rules : List PolicyRule} {r : PolicyRule}
    (h : Expands defs stmts rules) (hr : r ∈ rules) (hneeds : r.needsGeoip = true) :
    CountryOccurs defs stmts := by
  induction h with
  | nil => cases hr
  | rule _ ih =>
    rcases mem_cons.mp hr with rfl | hr
    · obtain ⟨p, rfl, hp⟩ := (Option.any_eq_true _ _).mp hneeds
      exact .rule mem_cons_self (p.needsGeoip_iff.mp hp)
    · exact (ih hr).mono (subset_cons_self _ _)
  | apply hdef _ _ ihbody ih =>
    rcases mem_append.mp hr with hr | hr
    · exact .apply mem_cons_self hdef (ihbody hr)
    · exact (ih hr).mono (subset_cons_self _ _)

/-- **What is not found does not matter**: without a test, every list that was searched comes to the
same outcome for any two countries, after the same calls. -/
theorem evaluate_eq_of_not_usesCountry {T : Type*} {parse : String → T}
    {compile : String → Except String T} {lists : List (List PolicyRuleDef)}
    {resolved : ResolvedPolicies} {rules : List PolicyRule} {block : PolicyBlock T}
    (hsearch : usesCountry defs lists [] = false) (hstmts : stmts ∈ lists)
    (hresolve : resolveNamedPolicies defs = .ok resolved)
    (hinline : inlineRules resolved false stmts = .ok rules)
    (hblock : Built parse compile rules block) (peer : IpAddr) (auth : AuthProvider)
    (country country' : Option String) :
    let answer c := block.evaluate parse auth (.new peer c)
    (answer country).1 = (answer country').1 ∧
      (answer country).2.calls = (answer country').2.calls := by
  have hnot : ¬CountryOccurs defs stmts := fun hoccurs ↦ Bool.eq_false_iff.mp hsearch
    ((usesCountry_eq_true_iff lists nofun).mpr ⟨stmts, hstmts, hoccurs⟩)
  have hexp := ((isExpansion_of_resolve hresolve).inlineRules_eq_ok_iff stmts rules).mp hinline
  have hagree : ∀ r ∈ block.rules, AgreeOn r.needsGeoip r.needsAuth
      (Scene.of peer country auth) (Scene.of peer country' auth) := fun r hr ↦
    ⟨rfl, fun hneeds ↦ absurd (.of_expands hexp (hblock.rules_eq ▸ hr) hneeds) hnot, fun _ ↦ rfl⟩
  obtain ⟨hout, hasks⟩ := block.outcomeFrom_congr parse hagree 0
  simp only [PolicyBlock.outcome_evaluate_new, PolicyBlock.calls_evaluate_new, hasks]
  exact ⟨hout, trivial⟩

private def staffDefs : List PolicyRuleDef :=
  [.rule (some (.group ["staff"])) .allow, .rule none (.deny 403)]

private def staff : PolicyDefs := AList.singleton "staff" staffDefs

private def staffRules : List PolicyRule :=
  [⟨some (.group ["staff"]), .allow⟩, ⟨none, .deny 403⟩]

private theorem resolveNamedPolicies_staff :
    resolveNamedPolicies staff = .ok ((∅ : ResolvedPolicies).insert "staff" staffRules) := by
  change resolveKeys staff ["staff"] ∅ = _
  rw [resolveKeys, resolveOne, Finmap.lookup_empty]
  simp only [not_mem_nil, dite_false]
  split
  · exact absurd ‹staff.lookup "staff" = none› (Option.some_ne_none staffDefs)
  · rename_i ruleDefs hdef
    obtain rfl : staffDefs = ruleDefs := Option.some.inj hdef
    simp only [resolveRuleDefs, staffDefs]
    rfl

/-- A policy that lets one group in is applied by its name. -/
theorem evaluate_eq_of_not_usesCountry_staff :
    let answer c := (PolicyBlock.new id staffRules).evaluate id
      (fun _ ↦ .authenticated ⟨"ann", ["staff"]⟩) (.new (.v4 0) c)
    usesCountry staff [[.apply "staff"]] [] = false ∧ (answer none).1 = .allow ∧
      (answer none).1 = (answer (some "NL")).1 ∧
      (answer none).2.calls = (answer (some "NL")).2.calls := by
  have hsearch : usesCountry staff [[.apply "staff"]] [] = false := by
    rw [usesCountry, policyNeedsGeoip, dif_neg not_mem_nil]
    split
    · exact absurd ‹staff.lookup "staff" = none› (Option.some_ne_none staffDefs)
    · rename_i inner hdef
      obtain rfl : staffDefs = inner := Option.some.inj hdef
      simp [policyNeedsGeoip, usesCountry, staffDefs, Predicate.needsGeoip]
  have hinline : inlineRules ((∅ : ResolvedPolicies).insert "staff" staffRules) false
      [.apply "staff"] = .ok staffRules := rfl
  exact ⟨hsearch, rfl, evaluate_eq_of_not_usesCountry hsearch mem_cons_self
    resolveNamedPolicies_staff hinline (.new _) _ _ _ _⟩

end Hypershunt
