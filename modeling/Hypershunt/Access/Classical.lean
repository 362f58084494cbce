import Hypershunt.Access.Verdict
import Hypershunt.Foundation.Fallible

/-!
# First match in two-valued logic

A policy block looks like a decision list: the first rule that holds decides. This file says how
far the evaluator agrees with that reading when predicates are read in ordinary two-valued logic,
with every identity test false for an anonymous request.

The one bridge is `verdict_eq_match_iff`: a predicate matches exactly when it holds. Under a known
identity there is no third outcome, so the evaluator *is* the decision list, and the order of
conjuncts cannot matter. For an anonymous request a challenge can cut the list short, but only at
a rule that does not hold and that contains an identity test.
-/

namespace Hypershunt

open List PredicateResult Predicate

/-! ## Truth -/

/-- A test of the identity is false of whoever has none. -/
def Principal.satisfies (test : Identity → Bool) : Principal → Bool
  | .authenticated id => test id
  | .anonymous => false

mutual

/-- Two-valued truth of a predicate. -/
def holds (sc : Scene) : Predicate → Bool
  | .address nets => nets.any fun n ↦ n.contains sc.peer
  | .country codes => sc.country.any fun c ↦ codes.any fun code ↦ c == code
  | .authenticated => sc.answer.satisfies fun _ ↦ true
  | .user names => sc.answer.satisfies fun id ↦ names.contains id.username
  | .group groups => sc.answer.satisfies fun id ↦ id.groups.any fun g ↦ groups.contains g
  | .not inner => !holds sc inner
  | .and preds => allHold sc preds

def allHold (sc : Scene) : List Predicate → Bool
  | [] => true
  | p :: ps => holds sc p && allHold sc ps

end

variable {sc : Scene}

theorem allHold_eq (ps : List Predicate) : allHold sc ps = ps.all (holds sc) := by
  induction ps with
  | nil => rfl
  | cons p ps ih => rw [allHold, ih, all_cons]

@[simp] theorem ofBool_eq_match_iff {b : Bool} : ofBool b = .match ↔ b = true := by
  cases b <;> decide

variable {code : ℕ} {ps : List Predicate} {p : Predicate} {test : Identity → Bool}

@[simp] theorem ofBool_ne_challenge {b : Bool} : ofBool b ≠ .challenge code := by
  cases b <;> simp [ofBool]

theorem ofPrincipal_eq_match_iff {p : Principal} :
    ofPrincipal test p = .match ↔ p.satisfies test = true := by
  cases p with
  | anonymous => simp [ofPrincipal, Principal.satisfies]
  | authenticated id => exact ofBool_eq_match_iff

theorem ofPrincipal_eq_challenge_iff {p : Principal} :
    ofPrincipal test p = .challenge code ↔ code = 401 ∧ p = .anonymous := by
  cases p with
  | anonymous => simp [ofPrincipal, eq_comm]
  | authenticated id => simp [ofPrincipal]

theorem negate_eq_match_iff {r : PredicateResult} : r.negate = .match ↔ r ≠ .match := by
  cases r <;> simp [negate]

theorem negate_ne_challenge {r : PredicateResult} : r.negate ≠ .challenge code := by
  cases r <;> simp [negate]

theorem verdictAll_eq_match_iff : verdictAll sc ps = .match ↔ ∀ p ∈ ps, verdict sc p = .match := by
  induction ps with
  | nil => simp [verdictAll]
  | cons p ps ih =>
    rw [verdictAll, forall_mem_cons]
    by_cases hp : verdict sc p = .match
    · rw [if_pos hp, ih, and_iff_right hp]
    · rw [if_neg hp]
      exact iff_of_false hp fun h ↦ hp h.1

theorem verdict_eq_match_iff (p : Predicate) : verdict sc p = .match ↔ holds sc p = true := by
  induction p with
  | address nets => rw [verdict, holds, ofBool_eq_match_iff]
  | country codes => rw [verdict, holds, ofBool_eq_match_iff]
  | user names | group groups | authenticated => rw [verdict, holds, ofPrincipal_eq_match_iff]
  | not inner ih => rw [verdict, holds, negate_eq_match_iff, Ne, ih, Bool.not_eq_true']; simp
  | and preds ih =>
    rw [verdict, holds, verdictAll_eq_match_iff, allHold_eq, List.all_eq_true]
    exact forall₂_congr ih

theorem exists_challenge_of_verdictAll (h : verdictAll sc ps = .challenge code) :
    ∃ p ∈ ps, verdict sc p = .challenge code := by
  induction ps with
  | nil => simp [verdictAll] at h
  | cons p ps ih =>
    rw [verdictAll] at h
    split at h
    · obtain ⟨q, hq, hch⟩ := ih h
      exact ⟨q, mem_cons_of_mem p hq, hch⟩
    · exact ⟨p, mem_cons_self, h⟩

/-- Only an identity test challenges, always with 401, and only an anonymous request. -/
theorem verdict_challenge (h : verdict sc p = .challenge code) :
    code = 401 ∧ sc.answer = .anonymous ∧ p.needsAuth = true := by
  induction p with
  | address nets => exact absurd h ofBool_ne_challenge
  | country codes => exact absurd h ofBool_ne_challenge
  | user names | group groups | authenticated =>
    rw [verdict, ofPrincipal_eq_challenge_iff] at h
    exact ⟨h.1, h.2, rfl⟩
  | not inner ih => exact absurd h negate_ne_challenge
  | and preds ih =>
    rw [verdict] at h
    obtain ⟨q, hq, hch⟩ := exists_challenge_of_verdictAll h
    obtain ⟨hcode, hanon, hneeds⟩ := ih q hq hch
    refine ⟨hcode, hanon, ?_⟩
    rw [needsAuth, anyNeedsAuth_eq, List.any_eq_true]
    exact ⟨q, hq, hneeds⟩

theorem exists_asks_of_asksAll (h : asksAll sc ps = true) : ∃ p ∈ ps, asks sc p = true := by
  induction ps with
  | nil => simp [asksAll] at h
  | cons p ps ih =>
    rw [asksAll, Bool.or_eq_true, Bool.and_eq_true] at h
    rcases h with hp | ⟨-, hps⟩
    · exact ⟨p, mem_cons_self, hp⟩
    · obtain ⟨q, hq, hasks⟩ := ih hps
      exact ⟨q, mem_cons_of_mem p hq, hasks⟩

theorem needsAuth_of_asks (h : asks sc p = true) : p.needsAuth = true := by
  induction p with
  | address nets | country codes => simp [asks] at h
  | user names | group groups | authenticated => rfl
  | not inner ih => exact ih h
  | and preds ih =>
    obtain ⟨q, hq, hasks⟩ := exists_asks_of_asksAll h
    rw [needsAuth, anyNeedsAuth_eq, List.any_eq_true]
    exact ⟨q, hq, ih q hq hasks⟩

/-! ## Decision lists -/

namespace PolicyRule

def holds (sc : Scene) (r : PolicyRule) : Bool := r.predicate.all (Hypershunt.holds sc)

theorem verdict_eq_match_iff (r : PolicyRule) : r.verdict sc = .match ↔ r.holds sc = true := by
  unfold verdict holds
  cases r.predicate with
  | none => simp
  | some p => exact Hypershunt.verdict_eq_match_iff p

theorem verdict_challenge {r : PolicyRule} {code : ℕ} (h : r.verdict sc = .challenge code) :
    code = 401 ∧ sc.answer = .anonymous ∧ r.needsAuth = true := by
  unfold verdict at h
  unfold needsAuth
  cases hp : r.predicate with
  | none => simp [hp] at h
  | some p =>
    rw [hp] at h
    exact Hypershunt.verdict_challenge h

theorem needsAuth_of_asks {r : PolicyRule} (h : r.asks sc = true) : r.needsAuth = true := by
  unfold asks at h
  unfold needsAuth
  cases hp : r.predicate with
  | none => simp [hp] at h
  | some p =>
    rw [hp] at h
    exact Hypershunt.needsAuth_of_asks h

end PolicyRule

/-- The deciding rule: the first one that holds. -/
def deciding (sc : Scene) (rules : List PolicyRule) : Option PolicyRule :=
  rules.find? (PolicyRule.holds sc)

/-- The rules before the deciding one, all of them when there is none. -/
def beforeDeciding (sc : Scene) (rules : List PolicyRule) : List PolicyRule :=
  rules.takeWhile fun r ↦ !r.holds sc

/-- The rules up to the deciding one, which is included. -/
def upToDeciding (sc : Scene) (rules : List PolicyRule) : List PolicyRule :=
  beforeDeciding sc rules ++ (deciding sc rules).toList

section DecisionList

variable {T : Type*} {parse : String → T} {compile : String → Except String T}

/-- The outcome an action asks for when `compile` is how redirect targets are compiled. -/
def PolicyAction.Answers (compile : String → Except String T) :
    PolicyAction → PolicyOutcome T → Prop
  | .allow, out => out = .allow
  | .deny code, out => out = .deny code
  | .redirect target code, out => ∃ t, compile target = .ok t ∧ out = .redirect t code

variable {out : PolicyOutcome T} {rules : List PolicyRule} {block : PolicyBlock T} {r : PolicyRule}

theorem PolicyAction.Answers.unique {action : PolicyAction} {out' : PolicyOutcome T}
    (h : action.Answers compile out) (h' : action.Answers compile out') : out = out' := by
  cases action with
  | allow | deny code => exact Eq.trans h (Eq.symm h')
  | redirect target code =>
    obtain ⟨t, ht, rfl⟩ := h
    obtain ⟨t', ht', rfl⟩ := h'
    rw [ht, Except.ok.injEq] at ht'
    rw [ht']

/-- The classical outcome: the deciding rule's action, and a denial without one. -/
def Decides (compile : String → Except String T) (sc : Scene) (rules : List PolicyRule)
    (out : PolicyOutcome T) : Prop :=
  match deciding sc rules with
  | some r => r.action.Answers compile out
  | none => out = .deny 403

theorem Decides.unique {out' : PolicyOutcome T} (h : Decides compile sc rules out)
    (h' : Decides compile sc rules out') : out = out' := by
  unfold Decides at h h'
  cases hd : deciding sc rules with
  | none =>
    rw [hd] at h h'
    exact Eq.trans h (Eq.symm h')
  | some r =>
    rw [hd] at h h'
    exact PolicyAction.Answers.unique h h'

/-- The two ways a block is built, with the compiler its redirect targets go through. -/
inductive Built (parse : String → T) :
    (String → Except String T) → List PolicyRule → PolicyBlock T → Prop
  | new (rules : List PolicyRule) :
    Built parse (fun target ↦ .ok (parse target)) rules (PolicyBlock.new parse rules)
  | withVars {compile : String → Except String T} {rules : List PolicyRule} {block : PolicyBlock T}
      (h : PolicyBlock.withVars compile rules = .ok block) : Built parse compile rules block

namespace Built

variable (h : Built parse compile rules block)

include h

theorem fields_eq :
    block.rules = rules ∧ block.needsGeoip = rules.any PolicyRule.needsGeoip := by
  cases h with
  | new => exact ⟨rfl, rfl⟩
  | withVars h =>
    rw [PolicyBlock.withVars, bind_eq_ok_iff] at h
    obtain ⟨templates, -, hblock⟩ := h
    cases hblock
    exact ⟨rfl, rfl⟩

theorem rules_eq : block.rules = rules := h.fields_eq.1

/-- Every rule that fires answers with its own target; the fallback of `fire` is never taken. -/
theorem answers {i : ℕ} (hr : rules[i]? = some r) :
    r.action.Answers compile (block.fire parse i r.action) := by
  cases h with
  | new =>
    cases haction : r.action with
    | allow | deny code => rfl
    | redirect target code =>
      refine ⟨parse target, rfl, ?_⟩
      rw [PolicyBlock.fire, PolicyBlock.new, PolicyBlock.assemble, getElem?_map, hr]
      simp [haction]
  | withVars h =>
    rw [PolicyBlock.withVars, bind_eq_ok_iff] at h
    obtain ⟨templates, htemplates, hblock⟩ := h
    cases hblock
    obtain ⟨t?, hcompiled, ht⟩ := getElem?_of_mapM_eq_ok htemplates hr
    cases haction : r.action with
    | allow | deny code => rfl
    | redirect target code =>
      rw [haction, map_eq_ok_iff] at hcompiled
      obtain ⟨t, hcompile, rfl⟩ := hcompiled
      refine ⟨t, hcompile, ?_⟩
      rw [PolicyBlock.fire, PolicyBlock.assemble, ht]
      rfl

theorem exists_decides (sc : Scene) :
    ∃ out, Decides compile sc rules out := by
  unfold Decides
  cases hd : deciding sc rules with
  | none => exact ⟨_, rfl⟩
  | some r =>
    obtain ⟨i, hi⟩ := mem_iff_getElem?.mp (mem_of_find?_eq_some hd)
    exact ⟨_, h.answers hi⟩

end Built

/-! ## The evaluator as a decision list -/

theorem decides_cons_of_holds {rs : List PolicyRule} (h : r.holds sc = true) :
    Decides compile sc (r :: rs) out ↔ r.action.Answers compile out := by
  rw [Decides, deciding, find?_cons_of_pos h]

theorem decides_cons_of_not_holds {rs : List PolicyRule} (h : r.holds sc = false) :
    Decides compile sc (r :: rs) out ↔ Decides compile sc rs out := by
  rw [Decides, deciding, find?_cons_of_neg (by rw [h]; decide), ← deciding, ← Decides]

/-- The decision list is followed to its end or cut short by a challenge before the deciding
rule. -/
theorem outcomeFrom_spec {i : ℕ} (hanswers : ∀ j (r : PolicyRule), rules[j]? = some r →
      r.action.Answers compile (block.fire parse (i + j) r.action)) :
    Decides compile sc rules (block.outcomeFrom parse sc i rules) ∨
      (block.outcomeFrom parse sc i rules = .deny 401 ∧ sc.answer = .anonymous ∧
        ∃ r ∈ beforeDeciding sc rules, r.needsAuth = true) := by
  induction rules generalizing i with
  | nil => exact Or.inl rfl
  | cons r rs ih =>
    cases hr : r.holds sc with
    | true =>
      left
      rw [PolicyBlock.outcomeFrom, r.verdict_eq_match_iff.mpr hr, decides_cons_of_holds hr]
      exact hanswers 0 r rfl
    | false =>
      have hbefore : beforeDeciding sc (r :: rs) = r :: beforeDeciding sc rs :=
        takeWhile_cons_of_pos (by rw [hr]; rfl)
      rw [hbefore, decides_cons_of_not_holds hr, PolicyBlock.outcomeFrom]
      cases hv : r.verdict sc with
      | «match» => rw [r.verdict_eq_match_iff.mp hv] at hr; cases hr
      | challenge code =>
        -- a challenge ends the walk at a rule that does not hold
        obtain ⟨rfl, hanon, hneeds⟩ := PolicyRule.verdict_challenge hv
        exact Or.inr ⟨rfl, hanon, r, mem_cons_self, hneeds⟩
      | noMatch =>
        have hshift : ∀ j (r' : PolicyRule), rs[j]? = some r' →
            r'.action.Answers compile (block.fire parse (i + 1 + j) r'.action) := by
          intro j r' hj
          rw [Nat.add_assoc, Nat.add_comm 1 j]
          exact hanswers (j + 1) r' hj
        rcases ih hshift with hdec | ⟨hout, hanon, q, hq, hneeds⟩
        · exact Or.inl hdec
        · exact Or.inr ⟨hout, hanon, q, mem_cons_of_mem r hq, hneeds⟩

theorem exists_needsAuth_of_asksRules (h : PolicyBlock.asksRules sc rules = true) :
    ∃ r ∈ upToDeciding sc rules, r.needsAuth = true := by
  induction rules with
  | nil => simp [PolicyBlock.asksRules] at h
  | cons r rs ih =>
    rw [PolicyBlock.asksRules, Bool.or_eq_true, Bool.and_eq_true, decide_eq_true_iff] at h
    cases hr : r.holds sc with
    | true =>
      have hmem : r ∈ upToDeciding sc (r :: rs) := by
        simp [upToDeciding, deciding, hr]
      rcases h with hasks | ⟨hno, -⟩
      · exact ⟨r, hmem, PolicyRule.needsAuth_of_asks hasks⟩
      · rw [r.verdict_eq_match_iff.mpr hr] at hno
        cases hno
    | false =>
      have hup : upToDeciding sc (r :: rs) = r :: upToDeciding sc rs := by
        simp [upToDeciding, beforeDeciding, deciding, hr]
      rw [hup]
      rcases h with hasks | ⟨-, hrest⟩
      · exact ⟨r, mem_cons_self, PolicyRule.needsAuth_of_asks hasks⟩
      · obtain ⟨q, hq, hneeds⟩ := ih hrest
        exact ⟨q, mem_cons_of_mem r hq, hneeds⟩

end DecisionList

/-! ## The order of conjuncts -/

/-- The same predicate up to the order of conjuncts, at any depth. -/
inductive SameConjuncts : Predicate → Predicate → Prop
  | refl (p : Predicate) : SameConjuncts p p
  | trans {p q r : Predicate} : SameConjuncts p q → SameConjuncts q r → SameConjuncts p r
  | not {p q : Predicate} : SameConjuncts p q → SameConjuncts (.not p) (.not q)
  | conjunct {p q : Predicate} (ps qs : List Predicate) :
    SameConjuncts p q → SameConjuncts (.and (ps ++ p :: qs)) (.and (ps ++ q :: qs))
  | perm {ps qs : List Predicate} : ps.Perm qs → SameConjuncts (.and ps) (.and qs)

theorem SameConjuncts.holds_eq {q : Predicate} (h : SameConjuncts p q) :
    holds sc p = holds sc q := by
  induction h with
  | refl p => rfl
  | trans _ _ ih₁ ih₂ => exact ih₁.trans ih₂
  | not _ ih => rw [holds, holds, ih]
  | conjunct ps qs _ ih =>
    rw [holds, holds, allHold_eq, allHold_eq, all_append, all_append, all_cons, all_cons, ih]
  | perm hperm => rw [holds, holds, allHold_eq, allHold_eq, hperm.all_eq]

/-- Rules with the same action whose predicates differ in the order of conjuncts only. -/
structure PolicyRule.SameConjuncts (r r' : PolicyRule) : Prop where
  action : r.action = r'.action
  predicate : Option.Rel Hypershunt.SameConjuncts r.predicate r'.predicate

theorem PolicyRule.SameConjuncts.holds_eq {r r' : PolicyRule} (h : r.SameConjuncts r') :
    r.holds sc = r'.holds sc := by
  obtain ⟨pred, action⟩ := r
  obtain ⟨pred', action'⟩ := r'
  cases h.predicate with
  | none => rfl
  | some hp => exact hp.holds_eq

theorem decides_congr {T : Type*} {compile : String → Except String T}
    {rules rules' : List PolicyRule} (h : List.Forall₂ PolicyRule.SameConjuncts rules rules')
    (out : PolicyOutcome T) : Decides compile sc rules out ↔ Decides compile sc rules' out := by
  induction h with
  | nil => exact Iff.rfl
  | @cons r r' rs rs' hr _ ih =>
    cases hholds : r.holds sc with
    | true =>
      rw [decides_cons_of_holds hholds, decides_cons_of_holds (hr.holds_eq.symm.trans hholds),
        hr.action]
    | false =>
      rw [decides_cons_of_not_holds hholds,
        decides_cons_of_not_holds (hr.holds_eq.symm.trans hholds), ih]

/-- **First match plus challenges.** Under a known identity the evaluator returns what the decision
list returns; for an anonymous request that or, only with an identity test before the deciding rule,
a 401. The authenticator is asked at most once, and only if a rule up to the deciding one tests
it. -/
theorem evaluate_eq_decides {T : Type*} {parse : String → T} {compile : String → Except String T}
    {rules : List PolicyRule} {block : PolicyBlock T} (hblock : Built parse compile rules block)
    (peer : IpAddr) (country : Option String) (auth : AuthProvider) :
    let sc := Scene.of peer country auth
    let res := block.evaluate parse auth (.new peer country)
    ∃ out, Decides compile sc rules out ∧
      (∀ id, sc.answer = .authenticated id →
        res.1 = out ∧
        ∀ rules' block', List.Forall₂ PolicyRule.SameConjuncts rules rules' →
          Built parse compile rules' block' →
          (block'.evaluate parse auth (.new peer country)).1 = out) ∧
      (sc.answer = .anonymous →
        (res.1 = out ∨ res.1 = .deny 401) ∧
        (res.1 ≠ out → ∃ r ∈ beforeDeciding sc rules, r.needsAuth = true)) ∧
      res.2.calls ≤ 1 ∧
      ((∀ r ∈ upToDeciding sc rules, r.needsAuth = false) → res.2.calls = 0) := by
  intro sc res
  have hres : res = (block.outcomeFrom parse sc 0 rules,
      sc.ctx (PolicyBlock.asksRules sc rules)) := by
    rw [← hblock.rules_eq]
    exact block.evaluate_new peer country
  have hspec : ∀ {rules' : List PolicyRule} {block' : PolicyBlock T},
      Built parse compile rules' block' →
      Decides compile sc rules' (block'.outcomeFrom parse sc 0 rules') ∨
        (block'.outcomeFrom parse sc 0 rules' = .deny 401 ∧ sc.answer = .anonymous ∧
          ∃ r ∈ beforeDeciding sc rules', r.needsAuth = true) :=
    fun hb ↦ outcomeFrom_spec fun j r hj ↦ by rw [Nat.zero_add]; exact hb.answers hj
  obtain ⟨out, hout⟩ := hblock.exists_decides sc
  refine ⟨out, hout, ?_, ?_, ?_, ?_⟩
  · intro id hid
    -- with an identity there is no challenge
    have hdec : ∀ {rules' : List PolicyRule} {block' : PolicyBlock T},
        Built parse compile rules' block' →
        Decides compile sc rules' (block'.outcomeFrom parse sc 0 rules') := by
      intro rules' block' hb
      rcases hspec hb with hdec | ⟨-, hanon, -⟩
      · exact hdec
      · rw [hid] at hanon
        cases hanon
    refine ⟨?_, ?_⟩
    · rw [hres]
      exact (hdec hblock).unique hout
    · intro rules' block' hsame hb
      rw [PolicyBlock.outcome_evaluate_new, hb.rules_eq]
      exact (hdec hb).unique ((decides_congr hsame out).mp hout)
  · intro _
    rw [hres]
    rcases hspec hblock with hdec | ⟨hdeny, -, hbefore⟩
    · exact ⟨Or.inl (hdec.unique hout), fun hne ↦ absurd (hdec.unique hout) hne⟩
    · exact ⟨Or.inr hdeny, fun _ ↦ hbefore⟩
  · rw [hres, Scene.calls_ctx]
    split <;> decide
  · intro hnone
    rw [hres, Scene.calls_ctx, if_neg]
    intro hasks
    obtain ⟨r, hr, hneeds⟩ := exists_needsAuth_of_asksRules hasks
    rw [hnone r hr] at hneeds
    cases hneeds

private def membersRules : List PolicyRule :=
  [⟨some (.and [.group ["staff"], .country ["NZ"]]), .allow⟩, ⟨none, .redirect "/join" 302⟩]

/-- A member of staff abroad is sent on by the second rule, after one call. -/
theorem evaluate_membersRules_abroad :
    let sc := Scene.of (.v4 0) (some "FR") fun _ ↦ .authenticated ⟨"ann", ["staff"]⟩
    let res := (PolicyBlock.new id membersRules).evaluate id
      (fun _ ↦ .authenticated ⟨"ann", ["staff"]⟩) (.new (.v4 0) (some "FR"))
    ∃ out : PolicyOutcome String, Decides (fun target ↦ .ok target) sc membersRules out ∧
      res.1 = out ∧ res.1 = .redirect "/join" 302 ∧ res.2.calls ≤ 1 := by
  obtain ⟨out, hout, hid, -, hcalls, -⟩ := evaluate_eq_decides (Built.new membersRules) (.v4 0)
    (some "FR") fun _ ↦ .authenticated ⟨"ann", ["staff"]⟩
  exact ⟨out, hout, (hid _ rfl).1, by decide, hcalls⟩

end Hypershunt
