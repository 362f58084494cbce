import Hypershunt.Net.Address

/-!
# Access policies

The evaluator of `access.rs`. A policy block is a list of rules tried in order, each an optional
predicate and an action; the first rule whose predicate matches fires. Predicates are trees of
tests combined with `not` and `and`, and are evaluated with three outcomes: the tests that need an
identity answer `challenge 401` for an anonymous request.

## Lazy authentication

The authenticator is asked when the first identity test is reached, and its answer is kept in the
evaluation context. It is modelled as a function from the number of calls made before, so that
nothing in the model forces two calls to agree; the context counts the calls.

## Redirect targets

The target of a redirect is a template, compiled when the block is built. The evaluator hands it
out and never looks inside, so the type of templates is a parameter, and so are the two ways of
obtaining one: `parse`, which cannot fail, and compilation against a table of variables.
-/

namespace Hypershunt

structure Identity where
  username : String
  groups : List String
  deriving DecidableEq

inductive Principal
  | anonymous
  | authenticated (id : Identity)
  deriving DecidableEq

/-- The answer to the `n`-th call. -/
abbrev AuthProvider := ℕ → Principal

/-- A test of the incoming request. Several values in one leaf are alternatives. -/
inductive Predicate
  | address (nets : List IpNet)
  | country (codes : List String)
  | user (names : List String)
  | group (groups : List String)
  | authenticated
  | not (inner : Predicate)
  | and (preds : List Predicate)

namespace Predicate

/-- Induction on predicates, with one hypothesis for all the conjuncts of an `and`. -/
@[induction_eliminator] theorem induction {P : Predicate → Prop}
    (address : ∀ nets, P (.address nets)) (country : ∀ codes, P (.country codes))
    (user : ∀ names, P (.user names)) (group : ∀ groups, P (.group groups))
    (authenticated : P .authenticated) (not : ∀ inner, P inner → P (.not inner))
    (and : ∀ preds, (∀ p ∈ preds, P p) → P (.and preds)) (p : Predicate) : P p := by
  refine @Predicate.rec P (fun preds ↦ ∀ p ∈ preds, P p) address country user group authenticated
    not and ?_ ?_ p
  · exact fun p hp ↦ absurd hp List.not_mem_nil
  · intro p ps hp hps q hq
    rcases List.mem_cons.mp hq with rfl | hq
    · exact hp
    · exact hps q hq

mutual

/-- Some leaf is a country test. -/
def needsGeoip : Predicate → Bool
  | .country _ => true
  | .not inner => needsGeoip inner
  | .and preds => anyNeedsGeoip preds
  | _ => false

def anyNeedsGeoip : List Predicate → Bool
  | [] => false
  | p :: ps => needsGeoip p || anyNeedsGeoip ps

end

mutual

/-- Some leaf needs an identity. -/
def needsAuth : Predicate → Bool
  | .authenticated | .user _ | .group _ => true
  | .not inner => needsAuth inner
  | .and preds => anyNeedsAuth preds
  | _ => false

def anyNeedsAuth : List Predicate → Bool
  | [] => false
  | p :: ps => needsAuth p || anyNeedsAuth ps

end

theorem anyNeedsGeoip_eq (ps : List Predicate) : anyNeedsGeoip ps = ps.any needsGeoip := by
  induction ps with
  | nil => rfl
  | cons p ps ih => rw [anyNeedsGeoip, ih, List.any_cons]

theorem anyNeedsAuth_eq (ps : List Predicate) : anyNeedsAuth ps = ps.any needsAuth := by
  induction ps with
  | nil => rfl
  | cons p ps ih => rw [anyNeedsAuth, ih, List.any_cons]

end Predicate

/-! ## Evaluating one predicate -/

inductive PredicateResult
  | match
  | noMatch
  /-- An anonymous request met an identity test. -/
  | challenge (code : ℕ)
  deriving DecidableEq

/-- The context of one evaluation. -/
structure EvalContext where
  peer : IpAddr
  country : Option String
  -- `none` until the first identity test is evaluated
  principal : Option Principal
  /-- How often the authenticator was asked. -/
  calls : ℕ
  deriving DecidableEq

namespace EvalContext

def new (peer : IpAddr) (country : Option String) : EvalContext :=
  ⟨normalise peer, country, none, 0⟩

/-- The principal the evaluation resolved, for use after it. -/
def takePrincipal (ctx : EvalContext) : Principal := ctx.principal.getD .anonymous

/-- `resolve_principal`: ask once and keep the answer. -/
def resolvePrincipal (auth : AuthProvider) (ctx : EvalContext) : Principal × EvalContext :=
  match ctx.principal with
  | some p => (p, ctx)
  | none =>
    let p := auth ctx.calls
    (p, { ctx with principal := some p, calls := ctx.calls + 1 })

end EvalContext

/-- A test that does not look at the identity. -/
def PredicateResult.ofBool (b : Bool) : PredicateResult := if b then .match else .noMatch

/-- A test of the identity; an anonymous request is challenged instead. -/
def PredicateResult.ofPrincipal (test : Identity → Bool) : Principal → PredicateResult
  | .authenticated id => ofBool (test id)
  | .anonymous => .challenge 401

mutual

/-- `eval_predicate`. -/
def evalPredicate (auth : AuthProvider) : Predicate → EvalContext → PredicateResult × EvalContext
  | .address nets, ctx => (.ofBool (nets.any fun n ↦ n.contains ctx.peer), ctx)
  | .country codes, ctx => (.ofBool (ctx.country.any fun c ↦ codes.any fun code ↦ c == code), ctx)
  | .authenticated, ctx =>
    let (p, ctx) := ctx.resolvePrincipal auth
    (.ofPrincipal (fun _ ↦ true) p, ctx)
  | .user names, ctx =>
    let (p, ctx) := ctx.resolvePrincipal auth
    (.ofPrincipal (fun id ↦ names.contains id.username) p, ctx)
  | .group groups, ctx =>
    let (p, ctx) := ctx.resolvePrincipal auth
    (.ofPrincipal (fun id ↦ id.groups.any fun g ↦ groups.contains g) p, ctx)
  | .not inner, ctx =>
    match evalPredicate auth inner ctx with
    | (.match, ctx) => (.noMatch, ctx)
    -- whoever is anonymous satisfies "not authenticated"; no 401 is issued
    | (.noMatch, ctx) | (.challenge _, ctx) => (.match, ctx)
  | .and preds, ctx => evalAll auth preds ctx

/-- The loop of `and`: the first outcome that is not a match ends it. -/
def evalAll (auth : AuthProvider) : List Predicate → EvalContext → PredicateResult × EvalContext
  | [], ctx => (.match, ctx)
  | p :: ps, ctx =>
    match evalPredicate auth p ctx with
    | (.match, ctx) => evalAll auth ps ctx
    | other => other

end

/-! ## Policy blocks -/

inductive PolicyAction
  | allow
  | deny (code : ℕ)
  | redirect (target : String) (code : ℕ)
  deriving DecidableEq

/-- A rule; without a predicate it always matches. -/
structure PolicyRule where
  predicate : Option Predicate
  action : PolicyAction

/-- Some leaf of the rule's predicate needs an identity. -/
def PolicyRule.needsAuth (r : PolicyRule) : Bool := r.predicate.any Predicate.needsAuth

def PolicyRule.needsGeoip (r : PolicyRule) : Bool := r.predicate.any Predicate.needsGeoip

def PolicyRule.eval (auth : AuthProvider) (r : PolicyRule) (ctx : EvalContext) :
    PredicateResult × EvalContext :=
  match r.predicate with
  | none => (.match, ctx)
  | some pred => evalPredicate auth pred ctx

/-- A block of rules over templates of type `T`. -/
structure PolicyBlock (T : Type*) where
  rules : List PolicyRule
  needsGeoip : Bool
  /-- The compiled redirect targets, one place for each rule. -/
  redirectTemplates : List (Option T)

inductive PolicyOutcome (T : Type*)
  | allow
  | deny (code : ℕ)
  | redirect (target : T) (code : ℕ)
  deriving DecidableEq

namespace PolicyBlock

variable {T : Type*}

def assemble (rules : List PolicyRule) (redirectTemplates : List (Option T)) : PolicyBlock T :=
  ⟨rules, rules.any PolicyRule.needsGeoip, redirectTemplates⟩

/-- Build without a table of variables. -/
def new (parse : String → T) (rules : List PolicyRule) : PolicyBlock T :=
  assemble rules <| rules.map fun r ↦ match r.action with
    | .redirect target _ => some (parse target)
    | _ => none

/-- Build against a table of variables, for which `compile` is the compiler of templates. -/
def withVars (compile : String → Except String T) (rules : List PolicyRule) :
    Except String (PolicyBlock T) := do
  let redirectTemplates ← rules.mapM fun r ↦ match r.action with
    | .redirect target _ => some <$> compile target
    | _ => pure none
  return assemble rules redirectTemplates

/-- What the `i`-th rule of the block answers. With templates for all rules there is no fallback. -/
def fire (parse : String → T) (block : PolicyBlock T) (i : ℕ) : PolicyAction → PolicyOutcome T
  | .allow => .allow
  | .deny code => .deny code
  | .redirect target code =>
    .redirect ((block.redirectTemplates[i]?.join).getD (parse target)) code

/-- The loop of `evaluate`, from rule number `i` on. -/
def evaluateFrom (parse : String → T) (auth : AuthProvider) (block : PolicyBlock T) :
    ℕ → List PolicyRule → EvalContext → PolicyOutcome T × EvalContext
  | _, [], ctx => (.deny 403, ctx)
  | i, rule :: rules, ctx =>
    match rule.eval auth ctx with
    | (.match, ctx) => (block.fire parse i rule.action, ctx)
    | (.challenge code, ctx) => (.deny code, ctx)
    | (.noMatch, ctx) => evaluateFrom parse auth block (i + 1) rules ctx

/-- The first rule that matches fires; a challenge denies, and so does the end of the list. -/
def evaluate (parse : String → T) (auth : AuthProvider) (block : PolicyBlock T)
    (ctx : EvalContext) : PolicyOutcome T × EvalContext :=
  block.evaluateFrom parse auth 0 block.rules ctx

end PolicyBlock

end Hypershunt
