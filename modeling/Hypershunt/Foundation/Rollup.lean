import Hypershunt.Foundation.RingBuffer
import Mathlib.Algebra.BigOperators.Intervals

/-!
# Rollups

A list is cut into blocks of equal length and each full block is summarised by one element; the
result can be rolled up again. `blocks_eq_of_dvd` follows a rollup while its list grows. `AddsUp`
says of one figure of the elements that it is added up modulo some number, and rollups of rollups
add up like one rollup of long blocks.
-/

namespace Hypershunt

open List Option

namespace Rollup

variable {α β : Type*} {xs : List α} {ys : List α} {m n p k : ℕ} {v : α → ℕ}

/-- The block with this number. -/
def block (n k : ℕ) (xs : List α) : List α := (xs.drop (k * n)).take n

/-- One element for each full block. -/
def blocks (n : ℕ) (f : List α → β) (xs : List α) : List β :=
  (List.range (xs.length / n)).map fun k ↦ f (block n k xs)

@[simp] theorem length_blocks (n : ℕ) (f : List α → β) (xs : List α) :
    (blocks n f xs).length = xs.length / n := by
  rw [blocks, length_map, length_range]

theorem getElem?_blocks (f : List α → β) (h : k < xs.length / n) :
    (blocks n f xs)[k]? = some (f (block n k xs)) := by
  rw [blocks, getElem?_map, getElem?_range h, map_some]

theorem block_of_dvd (h : n ∣ xs.length) (hpos : 0 < xs.length) :
    block n (xs.length / n - 1) xs = xs.drop (xs.length - n) := by
  rw [block, Nat.sub_mul, Nat.div_mul_cancel h, Nat.one_mul, take_of_length_le]
  have hle : n ≤ xs.length := Nat.le_of_dvd hpos h
  rw [length_drop]
  omega

theorem block_append (h : (k + 1) * n ≤ xs.length) (ys : List α) :
    block n k (xs ++ ys) = block n k xs := by
  have hk : k * n + n ≤ xs.length := by rwa [← Nat.succ_mul]
  rw [block, block, drop_append_of_le_length (by omega), take_append_of_le_length]
  rw [length_drop]
  omega

theorem map_block_append (f : List α → β) (ys : List α) :
    ((List.range (xs.length / n)).map fun k ↦ f (block n k (xs ++ ys))) = blocks n f xs := by
  refine map_congr_left fun k hk ↦ ?_
  have hfull : (k + 1) * n ≤ xs.length := Nat.mul_le_of_le_div n _ _ (mem_range.mp hk)
  rw [block_append hfull]

theorem blocks_concat_of_not_dvd (f : List α → β) (x : α) (h : ¬n ∣ xs.length + 1) :
    blocks n f (xs ++ [x]) = blocks n f xs := by
  have hdiv : (xs ++ [x]).length / n = xs.length / n := by
    rw [length_append, length_singleton, Nat.succ_div, if_neg h, Nat.add_zero]
  rw [blocks, hdiv, map_block_append]

theorem blocks_concat_of_dvd (f : List α → β) (x : α) (h : n ∣ xs.length + 1) :
    blocks n f (xs ++ [x]) =
      blocks n f xs ++ [f ((xs ++ [x]).drop ((xs ++ [x]).length - n))] := by
  have hlen : (xs ++ [x]).length = xs.length + 1 := by simp
  have hdiv : (xs ++ [x]).length / n = xs.length / n + 1 := by
    rw [hlen, Nat.succ_div, if_pos h]
  have hlast : block n ((xs ++ [x]).length / n - 1) (xs ++ [x]) = _ :=
    block_of_dvd (hlen ▸ h) (hlen ▸ Nat.succ_pos _)
  rw [hdiv, Nat.add_sub_cancel] at hlast
  rw [blocks, hdiv, range_succ, map_append, map_singleton, hlast, map_block_append]

/-! ### From a ring buffer -/

section

variable {cap : ℕ} [NeZero cap] {b : RingBuffer α cap} {x : α}

theorem blocks_eq_of_dvd (h : b.Records (xs ++ [x])) (f : List α → β) (hcap : n ≤ cap)
    (hdvd : n ∣ b.written) :
    blocks n f (xs ++ [x]) = blocks n f xs ++ [f (b.latest n)] := by
  have hlen : b.written = xs.length + 1 := by simpa using h.written
  have hle : n ≤ (xs ++ [x]).length := Nat.le_of_dvd (by simp) (h.written ▸ hdvd)
  rw [h.latest hcap hle]
  exact blocks_concat_of_dvd f x (hlen ▸ hdvd)

theorem blocks_eq_of_not_dvd (h : b.Records (xs ++ [x])) (f : List α → β)
    (hdvd : ¬n ∣ b.written) : blocks n f (xs ++ [x]) = blocks n f xs := by
  have hlen : b.written = xs.length + 1 := by simpa using h.written
  exact blocks_concat_of_not_dvd f x (hlen ▸ hdvd)

end

/-! ## Sums -/

/-- The sum of a figure over one block. -/
def total (v : α → ℕ) (n k : ℕ) (xs : List α) : ℕ := ((block n k xs).map v).sum

/-- The sum over the positions that the block covers. -/
theorem total_eq_sum_Ico (v : α → ℕ) (n k : ℕ) (xs : List α) :
    total v n k xs = ∑ t ∈ Finset.Ico (k * n) ((k + 1) * n), (xs[t]?.map v).getD 0 := by
  rw [Finset.sum_Ico_eq_sum_range, Nat.succ_mul, Nat.add_sub_cancel_left, total, block]
  generalize k * n = a
  induction n with
  | zero => rw [take_zero, Finset.sum_range_zero, map_nil, sum_nil]
  | succ n ih =>
    rw [take_add_one, map_append, sum_append, ih, Finset.sum_range_succ, getElem?_drop]
    congr 1
    rcases xs[a + n]? with _ | x
    · rfl
    · exact Nat.add_zero _

/-- The figure of each element is the sum over its block, modulo `m`. -/
structure AddsUp (m : ℕ) (v : α → ℕ) (n : ℕ) (xs ys : List α) : Prop where
  length : ys.length = xs.length / n
  modEq : ∀ k y, ys[k]? = some y → v y ≡ total v n k xs [MOD m]

theorem addsUp_blocks {f : List α → α} (h : ∀ zs, v (f zs) ≡ (zs.map v).sum [MOD m])
    (n : ℕ) (xs : List α) : AddsUp m v n xs (blocks n f xs) where
  length := length_blocks n f xs
  modEq k y hy := by
    have hk : k < (blocks n f xs).length := (List.getElem?_eq_some_iff.mp hy).1
    rw [length_blocks] at hk
    rw [getElem?_blocks f hk, Option.some.injEq] at hy
    rw [← hy]
    exact h _

/-- A stretch of the summaries adds up to the stretch of the list that it is about. -/
theorem AddsUp.sum_modEq (h : AddsUp m v n xs ys) {a b : ℕ} (hb : a + b ≤ ys.length) :
    (((ys.drop a).take b).map v).sum ≡ (((xs.drop (a * n)).take (b * n)).map v).sum [MOD m] := by
  induction b with
  | zero => rw [take_zero, Nat.zero_mul, take_zero]
  | succ b ih =>
    have hget : ys[a + b]? = some ys[a + b] := getElem?_eq_getElem (by omega)
    have hleft : (ys.drop a).take (b + 1) = (ys.drop a).take b ++ [ys[a + b]] := by
      rw [take_add_one, getElem?_drop, hget, toList_some]
    have hright : (xs.drop (a * n)).take ((b + 1) * n) =
        (xs.drop (a * n)).take (b * n) ++ block n (a + b) xs := by
      rw [Nat.succ_mul, take_add, drop_drop, block, Nat.add_mul]
    rw [hleft, hright, map_append, map_append, sum_append, sum_append, map_singleton, sum_singleton]
    exact (ih (by omega)).add (h.modEq _ _ hget)

/-- **Rollups compose.** -/
theorem AddsUp.trans {zs : List α} (h : AddsUp m v n xs ys) (h' : AddsUp m v p ys zs) :
    AddsUp m v (p * n) xs zs where
  length := by rw [h'.length, h.length, Nat.div_div_eq_div_mul, Nat.mul_comm]
  modEq k z hz := by
    have hk : k < ys.length / p := h'.length ▸ (List.getElem?_eq_some_iff.mp hz).1
    have hfull : (k + 1) * p ≤ ys.length := Nat.mul_le_of_le_div p _ _ hk
    rw [Nat.succ_mul] at hfull
    refine (h'.modEq k z hz).trans ?_
    have hsum := h.sum_modEq hfull
    rw [Nat.mul_assoc] at hsum
    exact hsum

end Rollup

end Hypershunt
