import Hypershunt.Access.Policy
import Hypershunt.Foundation.Fallible
import Hypershunt.Foundation.HashMap
import Mathlib.Data.List.AList

/-!
# Named policies

A configuration names rule lists, and a rule list may apply another one by name. The router
(`router.rs`) resolves the names once: each policy is expanded to a flat list of rules by a
depth-first walk that keeps what it has already expanded, and that refuses undefined names and
circular references.

The input map is an association list, whose order of entries is the order in which the walk is
started from its keys. The walk itself is by well-founded recursion: a policy is only entered when
it is not being visited, so the number of policies that are not being visited goes down.
-/

namespace Hypershunt

/-- A rule as configured. -/
inductive PolicyRuleDef
  | rule (predicate : Option Predicate) (action : PolicyAction)
  /-- Put the named policy's rules here. -/
  | apply (name : String)

/-- The configured policies, in the order in which the map is iterated. -/
abbrev PolicyDefs := AList fun _ : String ↦ List PolicyRuleDef

/-- Expanded policies. -/
abbrev ResolvedPolicies := HashMap String (List PolicyRule)

def undefinedPolicy (name : String) : String := "undefined policy '" ++ name ++ "'"

def circularReference (name : String) (visiting : List String) : String :=
  "circular reference in policy '" ++ name ++ "' (chain: " ++ " → ".intercalate visiting ++ ")"

/-- How many policies are not being visited. -/
def unvisited (defs : PolicyDefs) (visiting : List String) : ℕ :=
  (defs.keys.filter fun n ↦ decide (n ∉ visiting)).length

theorem unvisited_concat_lt {defs : PolicyDefs} {visiting : List String} {name : String}
    (hdef : name ∈ defs) (hname : name ∉ visiting) :
    unvisited defs (visiting ++ [name]) < unvisited defs visiting := by
  have hsub : (defs.keys.filter fun n ↦ decide (n ∉ visiting ++ [name])) =
      (defs.keys.filter fun n ↦ decide (n ∉ visiting)).filter fun n ↦ decide (n ≠ name) := by
    rw [List.filter_filter]
    refine List.filter_congr fun n _ ↦ ?_
    simp [and_comm]
  rw [unvisited, unvisited, hsub]
  refine List.length_filter_lt_length_iff_exists.mpr ⟨name, ?_, by simp⟩
  rw [List.mem_filter]
  exact ⟨AList.mem_keys.mp hdef, decide_eq_true hname⟩

mutual

/-- Resolve one policy. The stack `visiting` is what it was again when the call returns. -/
def resolveOne (defs : PolicyDefs) (name : String) (resolved : ResolvedPolicies)
    (visiting : List String) : Except String (List PolicyRule × ResolvedPolicies) :=
  match resolved.lookup name with
  | some rules => .ok (rules, resolved)
  | none =>
    if _hvisiting : name ∈ visiting then .error (circularReference name visiting)
    else match _hdef : defs.lookup name with
      | none => .error (undefinedPolicy name)
      | some ruleDefs => do
        let (rules, resolved) ← resolveRuleDefs defs ruleDefs resolved (visiting ++ [name])
        return (rules, resolved.insert name rules)
termination_by (unvisited defs visiting, 0)
decreasing_by
  have hmem : name ∈ defs := AList.lookup_isSome.mp (by rw [_hdef]; rfl)
  exact Prod.Lex.left _ _ (unvisited_concat_lt hmem _hvisiting)

/-- Resolve a list of rules, each `apply` in its place. -/
def resolveRuleDefs (defs : PolicyDefs) (ruleDefs : List PolicyRuleDef)
    (resolved : ResolvedPolicies) (visiting : List String) :
    Except String (List PolicyRule × ResolvedPolicies) :=
  match ruleDefs with
  | [] => .ok ([], resolved)
  | .rule predicate action :: rest => do
    let (rules, resolved) ← resolveRuleDefs defs rest resolved visiting
    return (⟨predicate, action⟩ :: rules, resolved)
  | .apply name :: rest => do
    let (inlined, resolved) ← resolveOne defs name resolved visiting
    let (rules, resolved) ← resolveRuleDefs defs rest resolved visiting
    return (inlined ++ rules, resolved)
termination_by (unvisited defs visiting, ruleDefs.length + 1)

end

/-- The loop of `resolve_named_policies` over the keys of the map. -/
def resolveKeys (defs : PolicyDefs) :
    List String → ResolvedPolicies → Except String ResolvedPolicies
  | [], resolved => .ok resolved
  | name :: names, resolved => do
    let (_, resolved) ← resolveOne defs name resolved []
    resolveKeys defs names resolved

/-- Resolve every named policy. -/
def resolveNamedPolicies (defs : PolicyDefs) : Except String ResolvedPolicies :=
  resolveKeys defs defs.keys ∅

/-! ## Inlining into other rule lists -/

def identityInStream : String :=
  "policy used in a stream listener context contains identity predicates, which require HTTP " ++
    "authentication"

def identityInNamedStream (name : String) : String :=
  "policy '" ++ name ++ "' contains identity predicates and cannot be used in a stream listener " ++
    "policy block"

/-- Stream listeners have no HTTP request to take credentials from. -/
def checkTcpPredicate (predicate : Option Predicate) (tcpOnly : Bool) : Except String Unit :=
  if !tcpOnly then .ok ()
  else if predicate.any Predicate.needsAuth then .error identityInStream
  else .ok ()

def checkTcpBlockRules : List PolicyRule → String → Except String Unit
  | [], _ => .ok ()
  | rule :: rules, name =>
    if rule.needsAuth then .error (identityInNamedStream name) else checkTcpBlockRules rules name

/-- Inline a list of rules against policies that are already resolved. -/
def inlineRules (named : ResolvedPolicies) (tcpOnly : Bool) :
    List PolicyRuleDef → Except String (List PolicyRule)
  | [] => .ok []
  | .rule predicate action :: rest => do
    checkTcpPredicate predicate tcpOnly
    let rules ← inlineRules named tcpOnly rest
    return ⟨predicate, action⟩ :: rules
  | .apply name :: rest =>
    match named.lookup name with
    | none => .error (undefinedPolicy name)
    | some inlined => do
      if tcpOnly then checkTcpBlockRules inlined name
      let rules ← inlineRules named tcpOnly rest
      return inlined ++ rules

theorem inlineRules_rule_eq_ok_iff {named : ResolvedPolicies} {tcpOnly : Bool}
    {predicate : Option Predicate} {action : PolicyAction} {rest : List PolicyRuleDef}
    {rules : List PolicyRule} :
    inlineRules named tcpOnly (.rule predicate action :: rest) = .ok rules ↔
      checkTcpPredicate predicate tcpOnly = .ok () ∧
        ∃ rs, inlineRules named tcpOnly rest = .ok rs ∧ rules = ⟨predicate, action⟩ :: rs := by
  simp [inlineRules, bind_eq_ok_iff, Unique.exists_iff, pure, Except.pure, eq_comm (a := rules)]

theorem inlineRules_apply_eq_ok_iff {named : ResolvedPolicies} {tcpOnly : Bool} {name : String}
    {rest : List PolicyRuleDef} {rules : List PolicyRule} :
    inlineRules named tcpOnly (.apply name :: rest) = .ok rules ↔
      ∃ inlined, named.lookup name = some inlined ∧
        (tcpOnly = true → checkTcpBlockRules inlined name = .ok ()) ∧
        ∃ rs, inlineRules named tcpOnly rest = .ok rs ∧ rules = inlined ++ rs := by
  rw [inlineRules]
  cases named.lookup name with
  | none => simp
  | some inlined =>
    cases tcpOnly <;>
      simp [bind_eq_ok_iff, Unique.exists_iff, pure, Except.pure, eq_comm (a := rules)]

end Hypershunt
