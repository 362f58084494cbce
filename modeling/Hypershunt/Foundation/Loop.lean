import Mathlib.Algebra.Order.Ring.Nat

/-!
# Loops that end

The body of a loop either goes on in another state or leaves the loop with a result. A measure that
every round lowers makes the loop a total function of the state it is entered in.

The one rule for such a loop is `run_eq`: a function of the state that no round changes, and that
is the result where the loop is left, is what the loop computes.
-/

namespace Hypershunt

/-- A loop over states in `σ` with results in `ρ`. -/
structure Loop (σ ρ : Type*) where
  body : σ → σ ⊕ ρ
  measure : σ → ℕ
  measure_lt : ∀ {s t}, body s = .inl t → measure t < measure s

namespace Loop

variable {σ ρ : Type*} (l : Loop σ ρ) {s t : σ} {r : ρ} {n : ℕ}

/-- At most `n` rounds, which is enough for a measure below `n`. -/
def rounds : (n : ℕ) → (s : σ) → l.measure s < n → ρ
  | 0, _, h => absurd h (Nat.not_lt_zero _)
  | n + 1, s, h =>
    match hbody : l.body s with
    | .inl t => rounds n t ((l.measure_lt hbody).trans_le (Nat.le_of_lt_succ h))
    | .inr r => r

/-- The result of the loop. -/
def run (s : σ) : ρ := l.rounds (l.measure s + 1) s (Nat.lt_succ_self _)

theorem rounds_eq {f : σ → ρ} (hgo : ∀ s t, l.body s = .inl t → f t = f s)
    (hstop : ∀ s r, l.body s = .inr r → f s = r) (h : l.measure s < n) : l.rounds n s h = f s := by
  induction n generalizing s with
  | zero => exact absurd h (Nat.not_lt_zero _)
  | succ n ih =>
    rw [rounds]
    split
    · rename_i t hbody
      rw [ih, hgo s t hbody]
    · rename_i r hbody
      exact (hstop s r hbody).symm

/-- **The rule for loops.** -/
theorem run_eq {f : σ → ρ} (hgo : ∀ s t, l.body s = .inl t → f t = f s)
    (hstop : ∀ s r, l.body s = .inr r → f s = r) : l.run s = f s :=
  l.rounds_eq hgo hstop _

end Loop

end Hypershunt
