import Mathlib.Data.List.DropRight
import Mathlib.Data.List.Infix

/-!
# Histories

A history is a list that grows at its end. Two questions are asked of it: how long the streak is
that it ends with, and what the latest of its prefixes says at which a mark was set. Both are
answered for one more entry.
-/

namespace Hypershunt

open List

namespace History

variable {α β : Type*} {p : α → Bool}

/-! ## Streaks -/

/-- The number of entries at the end for which `p` holds. -/
def streak (p : α → Bool) (xs : List α) : ℕ := (xs.rtakeWhile p).length

@[simp]
theorem streak_nil (p : α → Bool) : streak p [] = 0 := by
  rw [streak, rtakeWhile_nil, length_nil]

theorem streak_concat_of_pos {x : α} (h : p x = true) (xs : List α) :
    streak p (xs ++ [x]) = streak p xs + 1 := by
  rw [streak, rtakeWhile_concat_pos _ _ _ h, length_append, length_singleton, streak]

theorem streak_concat_of_neg {x : α} (h : p x = false) (xs : List α) :
    streak p (xs ++ [x]) = 0 := by
  rw [streak, rtakeWhile_concat_neg _ _ _ (by simp [h]), length_nil]

theorem streak_replicate {x : α} (h : p x = true) (n : ℕ) : streak p (List.replicate n x) = n := by
  induction n with
  | zero => exact streak_nil p
  | succ n ih => rw [replicate_succ', streak_concat_of_pos h, ih]

/-! ## The latest mark -/

/-- The longest prefix of `xs` that `mark` marks carries the mark `b`. -/
def Latest (mark : List α → Option β) (xs : List α) (b : β) : Prop :=
  ∃ p, p <+: xs ∧ mark p = some b ∧ ∀ q, q <+: xs → (mark q).isSome → q.length ≤ p.length

/-- No prefix of `xs` is marked. -/
def Unmarked (mark : List α → Option β) (xs : List α) : Prop :=
  ∀ q, q <+: xs → mark q = none

variable {mark : List α → Option β} {xs : List α} {x : α}

theorem latest_concat {c : β} (h : mark (xs ++ [x]) = some c) (b : β) :
    Latest mark (xs ++ [x]) b ↔ c = b := by
  constructor
  · rintro ⟨p, hp, hb, hmax⟩
    -- The whole list is marked, so no shorter prefix is the longest.
    have hlen := hmax _ (prefix_refl _) (by rw [h]; rfl)
    have hpe : p = xs ++ [x] := hp.eq_of_length_le hlen
    rw [hpe, h] at hb
    exact Option.some.inj hb
  · rintro rfl
    exact ⟨_, prefix_refl _, h, fun q hq _ ↦ hq.length_le⟩

theorem latest_concat_of_none (h : mark (xs ++ [x]) = none) (b : β) :
    Latest mark (xs ++ [x]) b ↔ Latest mark xs b := by
  have hold : ∀ q, q <+: xs ++ [x] → (mark q).isSome → q <+: xs := by
    intro q hq hm
    rcases prefix_concat_iff.mp hq with rfl | hq
    · rw [h] at hm
      exact absurd hm Bool.false_ne_true
    · exact hq
  constructor
  · rintro ⟨p, hp, hb, hmax⟩
    exact ⟨p, hold p hp (by rw [hb]; rfl), hb,
      fun q hq ↦ hmax q (hq.trans (prefix_append _ _))⟩
  · rintro ⟨p, hp, hb, hmax⟩
    exact ⟨p, hp.trans (prefix_append _ _), hb, fun q hq hm ↦ hmax q (hold q hq hm) hm⟩

theorem unmarked_concat :
    Unmarked mark (xs ++ [x]) ↔ Unmarked mark xs ∧ mark (xs ++ [x]) = none := by
  constructor
  · intro h
    exact ⟨fun q hq ↦ h q (hq.trans (prefix_append _ _)), h _ (prefix_refl _)⟩
  · rintro ⟨h, hx⟩ q hq
    rcases prefix_concat_iff.mp hq with rfl | hq
    · exact hx
    · exact h q hq

/-! ## Projected histories -/

/-- The rule for a fold of which an invariant sees only some of the entries. -/
theorem foldl_filterMap_induction {σ : Type*} {f : α → Option β} {step : σ → α → σ}
    {P : List β → σ → Prop} (hsome : ∀ ys s x y, f x = some y → P ys s → P (ys ++ [y]) (step s x))
    (hnone : ∀ ys s x, f x = none → P ys s → P ys (step s x)) (xs : List α) :
    ∀ {ys s}, P ys s → P (ys ++ xs.filterMap f) (xs.foldl step s) := by
  induction xs with
  | nil =>
    intro ys s h
    rwa [filterMap_nil, append_nil]
  | cons x xs ih =>
    intro ys s h
    rw [foldl_cons]
    rcases hx : f x with _ | y
    · rw [filterMap_cons_none hx]
      exact ih (hnone ys s x hx h)
    · rw [filterMap_cons_some hx, append_cons]
      exact ih (hsome ys s x y hx h)

end History

end Hypershunt
