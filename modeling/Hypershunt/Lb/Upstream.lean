import Mathlib.Algebra.Order.Ring.Nat

/-!
# Upstreams

The state that the load balancer (`lb.rs`) keeps for each backend, and the reports of the request
path that change it: a run of failures ejects an upstream for some time, a success ends the run.

The fields are machine words. An addition or a multiplication that overflows wraps around, as it
does in a release build; a debug build would stop there.
-/

namespace Hypershunt

namespace Lb

/-- `passive-health`. The greatest value of `ejectAfter` stands for no ejection at all. -/
structure PassiveHealthConfig where
  ejectAfter : UInt32
  ejectForSecs : UInt64
  deriving DecidableEq

def PassiveHealthConfig.never : UInt32 := UInt32.ofNat (2 ^ 32 - 1)

/-- `PassiveHealthConfig::default`. -/
def PassiveHealthConfig.default : PassiveHealthConfig := ⟨never, 30⟩

/-- The integer properties of a `passive-health` block, as far as they are given. -/
structure PassiveHealthNode where
  ejectAfter : Option ℤ
  ejectFor : Option ℤ

/-- `parse_passive_health`: the casts keep the low bits. -/
def parsePassiveHealth : Option PassiveHealthNode → PassiveHealthConfig
  | none => .default
  | some node =>
    { ejectAfter := (node.ejectAfter.map UInt32.ofInt).getD PassiveHealthConfig.never
      ejectForSecs := (node.ejectFor.map UInt64.ofInt).getD 30 }

structure Upstream where
  url : String
  weight : UInt32
  group : Option String
  inFlight : UInt32
  consecutiveErrors : UInt32
  /-- Zero if there is no ejection. -/
  ejectedUntilMs : UInt64
  healthy : Bool
  deriving DecidableEq

namespace Upstream

def new (url : String) (weight : UInt32) (group : Option String) : Upstream :=
  ⟨url, weight, group, 0, 0, 0, true⟩

def isEjected (u : Upstream) (nowMs : UInt64) : Bool :=
  u.ejectedUntilMs != 0 && decide (nowMs < u.ejectedUntilMs)

def isAvailable (u : Upstream) (nowMs : UInt64) : Bool :=
  decide (0 < u.weight) && u.healthy && !u.isEjected nowMs

end Upstream

/-- `u64::saturating_add`. -/
def saturatingAdd (a b : UInt64) : UInt64 :=
  if a.toNat + b.toNat < 2 ^ 64 then a + b else UInt64.ofNat (2 ^ 64 - 1)

theorem toNat_saturatingAdd (a b : UInt64) :
    (saturatingAdd a b).toNat = min (a.toNat + b.toNat) (2 ^ 64 - 1) := by
  rw [saturatingAdd]
  split
  · rename_i h
    rw [UInt64.toNat_add, Nat.mod_eq_of_lt h]
    omega
  · rw [UInt64.toNat_ofNat_of_lt' (by decide)]
    omega

def recordSuccess (u : Upstream) : Upstream := { u with consecutiveErrors := 0 }

def recordFailure (passive : PassiveHealthConfig) (u : Upstream) (now : UInt64) : Upstream :=
  let n := u.consecutiveErrors + 1
  let u := { u with consecutiveErrors := n }
  if passive.ejectAfter ≠ PassiveHealthConfig.never ∧ passive.ejectAfter ≤ n then
    { u with ejectedUntilMs := saturatingAdd now (passive.ejectForSecs * 1000) }
  else u

end Lb

end Hypershunt
