import Mathlib.Data.List.Basic
import Mathlib.Data.Nat.ModEq

/-!
# Walks around a ring

A ring has `W` positions. A walk starts at a number below `M`, the number of values of a machine
word, and steps to the next number `W - 1` times, going from `M - 1` to zero; its positions are
these numbers modulo `W`. Where `M` is a multiple of `W`, or where the walk does not pass `M`, it
visits every position. Otherwise the positions repeat after `M` from zero on, and some of them may
be left out: `visited_iff` says which.

The second half is about walks that stop at the first position that is `ok`, and about walks whose
starts lie two apart.
-/

namespace Hypershunt

namespace Cycle

open List

variable {M W start p : ℕ} {n : ℕ} {β : Type*}

/-- The position of a walk after `o` steps. -/
def position (M W start o : ℕ) : ℕ := (start + o) % M % W

/-- The positions that a walk of `W` numbers visits, by what is left before the end of the word. -/
def Visited (M W start p : ℕ) : Prop :=
  p + M < start + W ∨ (M - 1 - p) % W < M - start

instance : Decidable (Visited M W start p) := inferInstanceAs (Decidable (_ ∨ _))

theorem position_lt (hW : 0 < W) (start o : ℕ) : position M W start o < W :=
  Nat.mod_lt _ hW

theorem position_of_lt {o : ℕ} (h : start + o < M) : position M W start o = (start + o) % W := by
  rw [position, Nat.mod_eq_of_lt h]

theorem position_of_le {o : ℕ} (hWM : W ≤ M) (hs : start < M) (ho : o < W) (h : M ≤ start + o) :
    position M W start o = start + o - M := by
  have hlt : start + o - M < W := by omega
  rw [position, Nat.mod_eq_sub_mod h, Nat.mod_eq_of_lt (hlt.trans_le hWM), Nat.mod_eq_of_lt hlt]

theorem last_mod (hWM : W ≤ M) (hp : p < W) : (M - 1 - (M - 1 - p) % W) % W = p := by
  obtain ⟨q, hq⟩ : ∃ q, M - 1 - p = W * q + (M - 1 - p) % W := ⟨_, (Nat.div_add_mod _ _).symm⟩
  have hlast : M - 1 - (M - 1 - p) % W = p + W * q := by omega
  rw [hlast, Nat.add_mul_mod_self_left, Nat.mod_eq_of_lt hp]

theorem visited_iff (hWM : W ≤ M) (hs : start < M) (hp : p < W) :
    Visited M W start p ↔ ∃ o < W, position M W start o = p := by
  constructor
  · rintro (hwrapped | hlast)
    · refine ⟨p + M - start, by omega, ?_⟩
      rw [position_of_le hWM hs (by omega) (by omega)]
      omega
    · -- Go back from the greatest number at `p` in steps of `W`, as far as the start allows.
      have hW : 0 < W := Nat.zero_lt_of_lt hp
      obtain ⟨n, hn⟩ : ∃ n, M - 1 - (M - 1 - p) % W = start + n :=
        Nat.exists_eq_add_of_le (by omega)
      have hle : n % W ≤ n := Nat.mod_le _ _
      refine ⟨n % W, Nat.mod_lt _ hW, ?_⟩
      rw [position_of_lt (by omega), Nat.add_mod_mod, ← hn, last_mod hWM hp]
  · rintro ⟨o, ho, rfl⟩
    rcases Nat.lt_or_ge (start + o) M with hlt | hge
    · rw [position_of_lt hlt]
      refine .inr ?_
      obtain ⟨q, hq⟩ : ∃ q, start + o = W * q + (start + o) % W := ⟨_, (Nat.div_add_mod _ _).symm⟩
      have hsub : M - 1 - (start + o) % W = M - 1 - (start + o) + W * q := by omega
      have hle : (M - 1 - (start + o)) % W ≤ M - 1 - (start + o) := Nat.mod_le _ _
      rw [hsub, Nat.add_mul_mod_self_left]
      omega
    · rw [position_of_le hWM hs ho hge]
      exact .inl (by omega)

/-- A walk that does not pass the end of the word visits every position. -/
theorem visited_of_add_le (hW : 0 < W) (h : start + W ≤ M) : Visited M W start p := by
  have hlt : (M - 1 - p) % W < W := Nat.mod_lt _ hW
  exact .inr (by omega)

/-! ## The first position that is `ok` -/

/-- The first position for which `f` has a value, with that value. -/
def scan {β : Type*} (M W start : ℕ) (f : ℕ → Option β) : Option β :=
  (range W).findSome? fun o ↦ f (position M W start o)

theorem scan_eq_none_iff {f : ℕ → Option β} :
    scan M W start f = none ↔ ∀ o < W, f (position M W start o) = none := by
  simp only [scan, findSome?_eq_none_iff, mem_range]

theorem findSome?_range_eq_some_iff {g : ℕ → Option β} {b : β} :
    (range n).findSome? g = some b ↔ ∃ o < n, g o = some b ∧ ∀ o' < o, g o' = none := by
  induction n with
  | zero => simp
  | succ n ih =>
    rw [range_succ, findSome?_append, Option.or_eq_some_iff, ih,
      findSome?_eq_none_iff, findSome?_singleton]
    constructor
    · rintro (⟨o, ho, hrest⟩ | ⟨hnone, hb⟩)
      · exact ⟨o, ho.trans (Nat.lt_succ_self n), hrest⟩
      · exact ⟨n, Nat.lt_succ_self n, hb, fun o' ho' ↦ hnone o' (mem_range.mpr ho')⟩
    · rintro ⟨o, ho, hb, hnone⟩
      rcases Nat.lt_succ_iff_lt_or_eq.mp ho with hlt | rfl
      · exact .inl ⟨o, hlt, hb, hnone⟩
      · exact .inr ⟨fun o' ho' ↦ hnone o' (mem_range.mp ho'), hb⟩

theorem scan_eq_some_iff {f : ℕ → Option β} {b : β} :
    scan M W start f = some b ↔
      ∃ o < W, f (position M W start o) = some b ∧
        ∀ o' < o, f (position M W start o') = none :=
  findSome?_range_eq_some_iff

/-- The walk stops at `p`, which is `ok`. -/
def Stops (M W start : ℕ) (ok : ℕ → Prop) (p : ℕ) : Prop :=
  ∃ o < W, position M W start o = p ∧ ok p ∧ ∀ o' < o, ¬ok (position M W start o')

theorem stops_self {ok : ℕ → Prop} (hs : start < M) (hW : 0 < W) (hok : ok (start % W)) :
    Stops M W start ok (start % W) :=
  ⟨0, hW, position_of_lt hs, hok, fun _ h ↦ absurd h (Nat.not_lt_zero _)⟩

/-! ## Starts that lie two apart -/

theorem pred_mod (hW : 0 < W) (hn : 0 < n) : (n - 1) % W = (n % W + W - 1) % W := by
  have hsub : n % W + W - 1 + W * (n / W) = n - 1 + W := by
    have hdiv := Nat.div_add_mod n W
    omega
  rw [← Nat.add_mul_mod_self_left (n % W + W - 1) W (n / W), hsub, Nat.add_mod_right]

/-- Every position has a number among the first `W` after `c`. -/
theorem exists_number (hp : p < W) (c : ℕ) : ∃ n, c < n ∧ n ≤ c + W ∧ n % W = p := by
  have hW : 0 < W := Nat.zero_lt_of_lt hp
  have hlt : (p + W - (c + 1) % W) % W < W := Nat.mod_lt _ hW
  have hle : (c + 1) % W < W := Nat.mod_lt _ hW
  refine ⟨c + 1 + (p + W - (c + 1) % W) % W, by omega, by omega, ?_⟩
  obtain ⟨q, hq⟩ : ∃ q, c + 1 = W * q + (c + 1) % W := ⟨_, (Nat.div_add_mod _ _).symm⟩
  have hsum : c + 1 + (p + W - (c + 1) % W) = p + W * (q + 1) := by
    rw [Nat.mul_succ]
    omega
  rw [Nat.add_mod_mod, hsum, Nat.add_mul_mod_self_left, Nat.mod_eq_of_lt hp]

section Stride

variable {c : ℕ} {ok : ℕ → Prop}

theorem exists_stops_of_even (hc : c + 2 * W ≤ M) (hcn : c < n) (hn : n < c + 2 * W)
    (heven : (n - (c + 1)) % 2 = 0) (hok : ok (n % W)) :
    ∃ k < W, Stops M W (c + 2 * k + 1) ok (n % W) := by
  have hk : c + 2 * ((n - (c + 1)) / 2) + 1 = n := by omega
  refine ⟨(n - (c + 1)) / 2, by omega, ?_⟩
  rw [hk]
  exact stops_self (by omega) (by omega) hok

/-- The number before `n` is one of the starts, and its position is not `ok`. -/
theorem exists_stops_of_odd (hc : c + 2 * W ≤ M) (hcn : c < n) (hn : n ≤ c + W)
    (hodd : (n - (c + 1)) % 2 = 1) (hok : ok (n % W)) (hprev : ¬ok ((n % W + W - 1) % W)) :
    ∃ k < W, Stops M W (c + 2 * k + 1) ok (n % W) := by
  have hW : 1 < W := by
    by_contra hW
    obtain rfl : W = 1 := by omega
    rw [Nat.mod_one] at hok
    rw [Nat.mod_one] at hprev
    exact hprev hok
  have hk : c + 2 * ((n - (c + 1)) / 2) + 1 = n - 1 := by omega
  refine ⟨(n - (c + 1)) / 2, by omega, 1, hW, ?_, hok, ?_⟩
  · rw [hk, position_of_lt (by omega), Nat.sub_add_cancel (by omega)]
  · intro o ho
    obtain rfl : o = 0 := Nat.lt_one_iff.mp ho
    rw [hk, position_of_lt (by omega), Nat.add_zero, pred_mod (by omega) (by omega)]
    exact hprev

/-- The last walk reaches zero over the end of the word. -/
theorem exists_stops_zero (hc : c + 2 * W ≤ M) (hW : 0 < W) (hend : M < c + 2 * W - 1 + W)
    (hok : ok 0) (hbefore : ∀ n, c + 2 * W - 1 ≤ n → n < M → ¬ok (n % W)) :
    ∃ k < W, Stops M W (c + 2 * k + 1) ok 0 := by
  have hk : c + 2 * (W - 1) + 1 = c + 2 * W - 1 := by omega
  refine ⟨W - 1, by omega, M - (c + 2 * W - 1), by omega, ?_, hok, ?_⟩
  · rw [hk, position_of_le (by omega) (by omega) (by omega) (by omega)]
    omega
  · intro o ho
    rw [hk, position_of_lt (by omega)]
    exact hbefore _ (by omega) (by omega)

/-- A walk that stops after an `ok` position starts there, or has just passed the end of the
word. -/
theorem Stops.eq_or_of_prev (h : Stops M W start ok p) (hWM : W ≤ M) (hs : start < M)
    (hprev : ok ((p + W - 1) % W)) :
    start % W = p ∨ p = 0 ∧ M < start + W ∧ ∀ n, start ≤ n → n < M → ¬ok (n % W) := by
  obtain ⟨o, ho, rfl, -, hbefore⟩ := h
  have hW : 0 < W := Nat.zero_lt_of_lt ho
  rcases Nat.eq_zero_or_pos o with rfl | hpos
  · exact .inl (position_of_lt (o := 0) hs).symm
  · have hlast := hbefore (o - 1) (by omega)
    rcases Nat.lt_trichotomy (start + o) M with hlt | heq | hgt
    · -- The position before is the one that the walk has just passed.
      rw [position_of_lt hlt, ← pred_mod hW (by omega)] at hprev
      rw [position_of_lt (by omega), ← Nat.add_sub_assoc hpos] at hlast
      exact absurd hprev hlast
    · refine .inr ⟨?_, by omega, fun n hn hnM ↦ ?_⟩
      · rw [position_of_le hWM hs ho heq.ge]
        omega
      · have hn' := hbefore (n - start) (by omega)
        rwa [position_of_lt (by omega), Nat.add_sub_cancel' hn] at hn'
    · rw [position_of_le hWM hs ho hgt.le,
        show start + o - M + W - 1 = start + (o - 1) - M + W by omega, Nat.add_mod_right,
        Nat.mod_eq_of_lt (by omega)] at hprev
      rw [position_of_le hWM hs (by omega) (by omega)] at hlast
      exact absurd hprev hlast

/-- Which positions the walks from `c + 1`, `c + 3`, …, `c + 2 * W - 1` stop at. -/
theorem exists_stops_iff (hc : c + 2 * W ≤ M) (hp : p < W) (hok : ok p) :
    (∃ k < W, Stops M W (c + 2 * k + 1) ok p) ↔
      W % 2 = 1 ∨ p % 2 = (c + 1) % 2 ∨ ¬ok ((p + W - 1) % W) ∨
        p = 0 ∧ M < c + 2 * W - 1 + W ∧ ∀ n, c + 2 * W - 1 ≤ n → n < M → ¬ok (n % W) := by
  have hWM : W ≤ M := by omega
  constructor
  · rintro ⟨k, hk, hstops⟩
    by_cases hodd : W % 2 = 1
    · exact .inl hodd
    by_cases hprev : ok ((p + W - 1) % W)
    · rcases hstops.eq_or_of_prev hWM (by omega) hprev with heq | ⟨hzero, hend, hbefore⟩
      · -- An even ring keeps the parity of the start.
        have hparity : p % 2 = (c + 2 * k + 1) % 2 := by
          rw [← heq, Nat.mod_mod_of_dvd _ (Nat.dvd_of_mod_eq_zero (by omega))]
        exact .inr (.inl (by omega))
      · exact .inr (.inr (.inr ⟨hzero, by omega, fun n hn ↦ hbefore n (by omega)⟩))
    · exact .inr (.inr (.inl hprev))
  · obtain ⟨n, hcn, hn, rfl⟩ := exists_number hp c
    have hparity : W % 2 = 0 → n % W % 2 = n % 2 := fun heven ↦
      Nat.mod_mod_of_dvd _ (Nat.dvd_of_mod_eq_zero heven)
    intro hor
    by_cases heven : (n - (c + 1)) % 2 = 0
    · exact exists_stops_of_even hc hcn (by omega) heven hok
    by_cases hodd : W % 2 = 1
    · -- One round later, the number at the same position is a start.
      rw [← Nat.add_mod_right n W] at hok ⊢
      exact exists_stops_of_even hc (by omega) (by omega) (by omega) hok
    rcases hor with h | h | hprev | ⟨hzero, hend, hbefore⟩
    · exact absurd h hodd
    · have hcontra := hparity (by omega)
      omega
    · exact exists_stops_of_odd hc hcn hn (by omega) hok hprev
    · rw [hzero] at hok ⊢
      exact exists_stops_zero hc (by omega) hend hok hbefore

end Stride

end Cycle

end Hypershunt
