import Hypershunt.Access.Classical
import Hypershunt.Router.NamedPolicy

/-!
# What a policy cannot depend on

Two static checks decide what is looked up for a connection: stream listeners refuse rules with
identity tests, and the country is only looked up for blocks that test it. Both are right when the
evaluation cannot tell what was skipped. That is a statement about two evaluations, and both
instances of it come from one: evaluations that agree on everything the predicate's leaves can see
agree altogether.
-/

namespace Hypershunt

open PolicyBlock List

/-- Two scenes that agree on the peer, on the country if `geoip`, and on the answer if `auth`. -/
structure AgreeOn (geoip auth : Bool) (sc sc' : Scene) : Prop where
  peer : sc.peer = sc'.peer
  country : geoip = true → sc.country = sc'.country
  answer : auth = true → sc.answer = sc'.answer

variable {sc sc' : Scene}

theorem AgreeOn.of_mem {ps : List Predicate} (h : AgreeOn (ps.any Predicate.needsGeoip)
    (ps.any Predicate.needsAuth) sc sc') {p : Predicate} (hp : p ∈ ps) :
    AgreeOn p.needsGeoip p.needsAuth sc sc' :=
  ⟨h.peer, fun hneeds ↦ h.country (any_eq_true.mpr ⟨p, hp, hneeds⟩),
    fun hneeds ↦ h.answer (any_eq_true.mpr ⟨p, hp, hneeds⟩)⟩

theorem verdictAll_congr {ps : List Predicate}
    (h : ∀ p ∈ ps, verdict sc p = verdict sc' p ∧ asks sc p = asks sc' p) :
    verdictAll sc ps = verdictAll sc' ps ∧ asksAll sc ps = asksAll sc' ps := by
  induction ps with
  | nil => exact ⟨rfl, rfl⟩
  | cons p ps ih =>
    obtain ⟨hv, ha⟩ := h p mem_cons_self
    obtain ⟨hvs, has⟩ := ih fun q hq ↦ h q (mem_cons_of_mem p hq)
    rw [verdictAll, verdictAll, asksAll, asksAll, hv, ha, hvs, has]
    exact ⟨rfl, rfl⟩

/-- The country is seen only through country tests, the answer only through identity tests. -/
theorem verdict_congr (p : Predicate) (h : AgreeOn p.needsGeoip p.needsAuth sc sc') :
    verdict sc p = verdict sc' p ∧ asks sc p = asks sc' p := by
  induction p with
  | address nets =>
    rw [verdict, verdict, h.peer]
    exact ⟨rfl, rfl⟩
  | country codes =>
    rw [verdict, verdict, h.country rfl]
    exact ⟨rfl, rfl⟩
  | user names | group groups | authenticated =>
    rw [verdict, verdict, h.answer rfl]
    exact ⟨rfl, rfl⟩
  | not inner ih =>
    obtain ⟨hv, ha⟩ := ih h
    rw [verdict, verdict, asks, asks, hv, ha]
    exact ⟨rfl, rfl⟩
  | and preds ih =>
    rw [Predicate.needsGeoip, Predicate.needsAuth, Predicate.anyNeedsGeoip_eq,
      Predicate.anyNeedsAuth_eq] at h
    exact verdictAll_congr fun q hq ↦ ih q hq (h.of_mem hq)

theorem PolicyRule.verdict_congr {r : PolicyRule} (h : AgreeOn r.needsGeoip r.needsAuth sc sc') :
    r.verdict sc = r.verdict sc' ∧ r.asks sc = r.asks sc' := by
  obtain ⟨predicate, action⟩ := r
  cases predicate with
  | none => exact ⟨rfl, rfl⟩
  | some p => exact Hypershunt.verdict_congr p h

variable {rules : List PolicyRule}

theorem PolicyBlock.outcomeFrom_congr {T : Type*} (parse : String → T) (block : PolicyBlock T)
    (h : ∀ r ∈ rules, AgreeOn r.needsGeoip r.needsAuth sc sc') (i : ℕ) :
    block.outcomeFrom parse sc i rules = block.outcomeFrom parse sc' i rules ∧
      asksRules sc rules = asksRules sc' rules := by
  induction rules generalizing i with
  | nil => exact ⟨rfl, rfl⟩
  | cons r rs ih =>
    obtain ⟨hv, ha⟩ := PolicyRule.verdict_congr (h r mem_cons_self)
    obtain ⟨hvs, has⟩ := ih (fun q hq ↦ h q (mem_cons_of_mem r hq)) (i + 1)
    rw [outcomeFrom, outcomeFrom, asksRules, asksRules, hv, ha, hvs, has]
    exact ⟨rfl, rfl⟩

/-! ## The check of stream listeners -/

theorem needsAuth_of_checkTcpBlockRules {name : String}
    (h : checkTcpBlockRules rules name = .ok ()) : ∀ r ∈ rules, r.needsAuth = false := by
  induction rules with
  | nil => exact fun r hr ↦ absurd hr not_mem_nil
  | cons rule rules ih =>
    rw [checkTcpBlockRules] at h
    split at h
    case isTrue => cases h
    case isFalse hno =>
      intro r hr
      rcases mem_cons.mp hr with rfl | hr
      · exact Bool.eq_false_iff.mpr hno
      · exact ih h r hr

/-- What is inlined for a stream listener has no identity test, wherever it came from. -/
theorem needsAuth_of_inlineRules {named : ResolvedPolicies} {ruleDefs : List PolicyRuleDef}
    (h : inlineRules named true ruleDefs = .ok rules) : ∀ r ∈ rules, r.needsAuth = false := by
  induction ruleDefs generalizing rules with
  | nil =>
    cases h
    exact fun r hr ↦ absurd hr not_mem_nil
  | cons d rest ih =>
    cases d with
    | rule predicate action =>
      obtain ⟨hcheck, rs, hrs, rfl⟩ := inlineRules_rule_eq_ok_iff.mp h
      intro r hr
      rcases mem_cons.mp hr with rfl | hr
      · rw [checkTcpPredicate, Bool.not_true, if_neg (by decide)] at hcheck
        split at hcheck
        case isTrue => cases hcheck
        case isFalse hno => exact Bool.eq_false_iff.mpr hno
      · exact ih hrs r hr
    | apply name =>
      obtain ⟨inlined, -, hcheck, rs, hrs, rfl⟩ := inlineRules_apply_eq_ok_iff.mp h
      intro r hr
      rcases mem_append.mp hr with hr | hr
      · exact needsAuth_of_checkTcpBlockRules (hcheck rfl) r hr
      · exact ih hrs r hr

theorem mem_of_mem_upToDeciding {r : PolicyRule} (h : r ∈ upToDeciding sc rules) : r ∈ rules := by
  rcases mem_append.mp h with h | h
  · exact (List.takeWhile_prefix _).subset h
  · exact mem_of_find?_eq_some (Option.mem_toList.mp h)

/-- **Skipped lookups cannot matter.** A block inlined for a stream listener never asks the
authenticator; one whose `needs_geoip` flag is false gives the same outcome, after the same calls,
for any two countries, known or not. -/
theorem evaluate_independent {T : Type*} (parse : String → T) (compile : String → Except String T)
    (rules : List PolicyRule) (block : PolicyBlock T) (hblock : Built parse compile rules block) :
    (∀ named ruleDefs, inlineRules named true ruleDefs = .ok rules →
      ∀ peer country auth,
        (block.evaluate parse auth (.new peer country)).2.calls = 0 ∧
        ∀ auth', (block.evaluate parse auth' (.new peer country)).1 =
          (block.evaluate parse auth (.new peer country)).1) ∧
    (block.needsGeoip = false →
      ∀ peer auth country country',
        (block.evaluate parse auth (.new peer country)).1 =
          (block.evaluate parse auth (.new peer country')).1 ∧
        (block.evaluate parse auth (.new peer country)).2.calls =
          (block.evaluate parse auth (.new peer country')).2.calls) := by
  refine ⟨?_, ?_⟩
  · intro named ruleDefs hinline peer country auth
    have hneeds := needsAuth_of_inlineRules hinline
    refine ⟨?_, fun auth' ↦ ?_⟩
    · rw [calls_evaluate_new, if_neg]
      intro hasks
      obtain ⟨r, hr, hr'⟩ := exists_needsAuth_of_asksRules hasks
      rw [hneeds r (hblock.rules_eq ▸ mem_of_mem_upToDeciding hr)] at hr'
      cases hr'
    · have hagree : ∀ r ∈ block.rules, AgreeOn r.needsGeoip r.needsAuth
          (Scene.of peer country auth') (Scene.of peer country auth) := fun r hr ↦
        ⟨rfl, fun _ ↦ rfl, fun hauth ↦ absurd hauth
          (Bool.eq_false_iff.mp (hneeds r (hblock.rules_eq ▸ hr)))⟩
      rw [outcome_evaluate_new, outcome_evaluate_new]
      exact (block.outcomeFrom_congr parse hagree 0).1
  · intro hgeoip peer auth country country'
    rw [hblock.fields_eq.2, any_eq_false] at hgeoip
    have hagree : ∀ r ∈ block.rules, AgreeOn r.needsGeoip r.needsAuth
        (Scene.of peer country auth) (Scene.of peer country' auth) := fun r hr ↦
      ⟨rfl, fun hneeds ↦ absurd hneeds (hgeoip r (hblock.rules_eq ▸ hr)), fun _ ↦ rfl⟩
    obtain ⟨hout, hasks⟩ := block.outcomeFrom_congr parse hagree 0
    rw [outcome_evaluate_new, outcome_evaluate_new, calls_evaluate_new, calls_evaluate_new, hasks]
    exact ⟨hout, rfl⟩

private def loopback : IpNet := ⟨fun addr ↦ decide (addr = .v4 0x7f000001)⟩

private def streamDefs : List PolicyRuleDef :=
  [.apply "blocked", .rule (some (.not (.address [⟨fun _ ↦ true⟩]))) (.deny 403),
    .rule none .allow]

private def streamNamed : ResolvedPolicies :=
  (∅ : ResolvedPolicies).insert "blocked" [⟨some (.address [loopback]), .deny 403⟩]

/-- A stream block with a named policy: no identity tests, and no country tests either. -/
theorem evaluate_independent_streamDefs :
    ∃ rules, inlineRules streamNamed true streamDefs = .ok rules ∧
      (new id rules).needsGeoip = false ∧
      ∀ auth, ((new id rules).evaluate id auth (.new (.v4 1) none)).2.calls = 0 := by
  refine ⟨_, rfl, rfl, fun auth ↦ ?_⟩
  have h := evaluate_independent id _ _ _ (Built.new
    [⟨some (.address [loopback]), .deny 403⟩, ⟨some (.not (.address [⟨fun _ ↦ true⟩])), .deny 403⟩,
      ⟨none, .allow⟩])
  exact (h.1 streamNamed streamDefs rfl (.v4 1) none auth).1

end Hypershunt
