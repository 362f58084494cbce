import Hypershunt.Access.Policy

/-!
# The meaning of a policy

The evaluator threads a context through a tree. What it computes is simpler than how: given the
peer, the country and the one answer the authenticator will give, each predicate has a *verdict*,
and evaluating it *asks* the authenticator or does not. This file defines both without state and
shows that the evaluator computes them.

The link is `Scene.ctx`: during an evaluation the context is always one of two values, the one it
starts with and the one with the answer filled in.
-/

namespace Hypershunt

/-- What an evaluation can depend on: the answer is the authenticator's to its first call. -/
structure Scene where
  peer : IpAddr
  country : Option String
  answer : Principal

open Scene

namespace Scene

/-- The scene of an evaluation that starts in a new context. -/
def of (peer : IpAddr) (country : Option String) (auth : AuthProvider) : Scene :=
  ⟨normalise peer, country, auth 0⟩

/-- The context before (`false`) and after (`true`) the authenticator has been asked. -/
def ctx (sc : Scene) (asked : Bool) : EvalContext :=
  ⟨sc.peer, sc.country, if asked then some sc.answer else none, if asked then 1 else 0⟩

theorem ctx_of (peer : IpAddr) (country : Option String) (auth : AuthProvider) :
    (of peer country auth).ctx false = EvalContext.new peer country := rfl

theorem calls_ctx (sc : Scene) (asked : Bool) : (sc.ctx asked).calls = if asked then 1 else 0 := rfl

theorem takePrincipal_ctx (sc : Scene) (asked : Bool) :
    (sc.ctx asked).takePrincipal = if asked then sc.answer else .anonymous := by
  rcases asked with _ | _ <;> rfl

end Scene

/-- `not` on verdicts: a challenge counts as a match. -/
def PredicateResult.negate : PredicateResult → PredicateResult
  | .match => .noMatch
  | .noMatch | .challenge _ => .match

mutual

/-- The outcome of a predicate. -/
def verdict (sc : Scene) : Predicate → PredicateResult
  | .address nets => .ofBool (nets.any fun n ↦ n.contains sc.peer)
  | .country codes => .ofBool (sc.country.any fun c ↦ codes.any fun code ↦ c == code)
  | .authenticated => .ofPrincipal (fun _ ↦ true) sc.answer
  | .user names => .ofPrincipal (fun id ↦ names.contains id.username) sc.answer
  | .group groups => .ofPrincipal (fun id ↦ id.groups.any fun g ↦ groups.contains g) sc.answer
  | .not inner => (verdict sc inner).negate
  | .and preds => verdictAll sc preds

def verdictAll (sc : Scene) : List Predicate → PredicateResult
  | [] => .match
  | p :: ps => if verdict sc p = .match then verdictAll sc ps else verdict sc p

end

mutual

/-- Evaluating the predicate needs the authenticator's answer. -/
def asks (sc : Scene) : Predicate → Bool
  | .address _ | .country _ => false
  | .authenticated | .user _ | .group _ => true
  | .not inner => asks sc inner
  | .and preds => asksAll sc preds

def asksAll (sc : Scene) : List Predicate → Bool
  | [] => false
  | p :: ps => asks sc p || (decide (verdict sc p = .match) && asksAll sc ps)

end

/-! ## The evaluator computes it -/

variable {auth : AuthProvider} {sc : Scene}

theorem resolvePrincipal_ctx (hauth : auth 0 = sc.answer) (asked : Bool) :
    (sc.ctx asked).resolvePrincipal auth = (sc.answer, sc.ctx true) := by
  cases asked with
  | false => simp [EvalContext.resolvePrincipal, ctx, hauth]
  | true => rfl

theorem evalAll_ctx {preds : List Predicate}
    (h : ∀ p ∈ preds, ∀ asked, evalPredicate auth p (sc.ctx asked) =
      (verdict sc p, sc.ctx (asked || asks sc p))) (asked : Bool) :
    evalAll auth preds (sc.ctx asked) =
      (verdictAll sc preds, sc.ctx (asked || asksAll sc preds)) := by
  induction preds generalizing asked with
  | nil => rw [evalAll, verdictAll, asksAll, Bool.or_false]
  | cons p ps ih =>
    have hp := h p List.mem_cons_self asked
    have hps := ih fun q hq ↦ h q (List.mem_cons_of_mem p hq)
    rw [evalAll, verdictAll, asksAll, hp]
    cases hv : verdict sc p with
    | «match» => simp only [hps, if_pos, decide_true, Bool.true_and, Bool.or_assoc]
    | noMatch => simp
    | challenge code => simp

theorem evalPredicate_ctx (hauth : auth 0 = sc.answer) (p : Predicate) (asked : Bool) :
    evalPredicate auth p (sc.ctx asked) = (verdict sc p, sc.ctx (asked || asks sc p)) := by
  induction p generalizing asked with
  | address nets =>
    rw [evalPredicate, verdict, asks, Bool.or_false]
    rfl
  | country codes =>
    rw [evalPredicate, verdict, asks, Bool.or_false]
    rfl
  | user names | group groups | authenticated =>
    rw [evalPredicate, resolvePrincipal_ctx hauth, verdict, asks, Bool.or_true]
  | not inner ih =>
    rw [evalPredicate, ih, verdict, asks]
    cases verdict sc inner <;> rfl
  | and preds ih =>
    rw [evalPredicate, evalAll_ctx ih, verdict, asks]

/-! ## Rules -/

namespace PolicyRule

def verdict (sc : Scene) (r : PolicyRule) : PredicateResult :=
  match r.predicate with
  | none => .match
  | some p => Hypershunt.verdict sc p

def asks (sc : Scene) (r : PolicyRule) : Bool := r.predicate.any (Hypershunt.asks sc)

theorem eval_ctx (hauth : auth 0 = sc.answer) (r : PolicyRule) (asked : Bool) :
    r.eval auth (sc.ctx asked) = (r.verdict sc, sc.ctx (asked || r.asks sc)) := by
  unfold eval verdict asks
  cases r.predicate with
  | none => rw [Option.any_none, Bool.or_false]
  | some p => exact evalPredicate_ctx hauth p asked

end PolicyRule

namespace PolicyBlock

variable {T : Type*} {parse : String → T}

/-- What the rules from number `i` on answer. -/
def outcomeFrom (parse : String → T) (block : PolicyBlock T) (sc : Scene) :
    ℕ → List PolicyRule → PolicyOutcome T
  | _, [] => .deny 403
  | i, r :: rs => match r.verdict sc with
    | .match => block.fire parse i r.action
    | .challenge code => .deny code
    | .noMatch => outcomeFrom parse block sc (i + 1) rs

/-- Some rule up to the one that ends the evaluation asks the authenticator. -/
def asksRules (sc : Scene) : List PolicyRule → Bool
  | [] => false
  | r :: rs => r.asks sc || (decide (r.verdict sc = .noMatch) && asksRules sc rs)

theorem evaluateFrom_ctx (hauth : auth 0 = sc.answer) (block : PolicyBlock T)
    (rules : List PolicyRule) (i : ℕ) (asked : Bool) :
    block.evaluateFrom parse auth i rules (sc.ctx asked) =
      (block.outcomeFrom parse sc i rules, sc.ctx (asked || asksRules sc rules)) := by
  induction rules generalizing i asked with
  | nil => rw [evaluateFrom, outcomeFrom, asksRules, Bool.or_false]
  | cons r rs ih =>
    rw [evaluateFrom, outcomeFrom, asksRules, r.eval_ctx hauth]
    cases hv : r.verdict sc with
    | «match» => simp
    | noMatch =>
      simp only [ih, decide_true, Bool.true_and, Bool.or_assoc]
    | challenge code => simp

/-- **The evaluator refines the meaning**, and asks the authenticator, once, when that says so. -/
theorem evaluate_new (block : PolicyBlock T) (peer : IpAddr) (country : Option String) :
    block.evaluate parse auth (.new peer country) =
      let sc := of peer country auth
      (block.outcomeFrom parse sc 0 block.rules, sc.ctx (asksRules sc block.rules)) := by
  rw [evaluate, ← ctx_of peer country auth, evaluateFrom_ctx rfl, Bool.false_or]

theorem outcome_evaluate_new (block : PolicyBlock T) (peer : IpAddr) (country : Option String) :
    (block.evaluate parse auth (.new peer country)).1 =
      block.outcomeFrom parse (of peer country auth) 0 block.rules := by
  rw [evaluate_new]

theorem calls_evaluate_new (block : PolicyBlock T) (peer : IpAddr) (country : Option String) :
    (block.evaluate parse auth (.new peer country)).2.calls =
      if asksRules (of peer country auth) block.rules then 1 else 0 := by
  rw [evaluate_new, calls_ctx]

end PolicyBlock

end Hypershunt
