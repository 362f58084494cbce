import Mathlib.Algebra.Order.Ring.Nat
import Mathlib.Data.List.TakeWhile
import Mathlib.Data.Nat.Digits.Defs

/-!
# Numerals

Numbers in a radix up to sixteen. They are written by `Nat.toDigits`, without leading zeros and in
lower case, and read digit by digit, in either case. A reader takes all the digits there are, so a
numeral is read back if what follows it does not start with a digit.
-/

namespace Hypershunt

open List Option

namespace Numeral

/-- The value of a hexadecimal digit. -/
def hexValue (c : Char) : Option ℕ :=
  if '0' ≤ c ∧ c ≤ '9' then some (c.toNat - '0'.toNat)
  else if 'a' ≤ c ∧ c ≤ 'f' then some (c.toNat - 'a'.toNat + 10)
  else if 'A' ≤ c ∧ c ≤ 'F' then some (c.toNat - 'A'.toNat + 10)
  else none

/-- `char::to_digit`. -/
def toDigit (radix : ℕ) (c : Char) : Option ℕ := (hexValue c).filter (· < radix)

def isDigit (radix : ℕ) (c : Char) : Bool := (toDigit radix c).isSome

/-- The number that some digits are. -/
def value (radix : ℕ) (cs : List Char) : ℕ :=
  cs.foldl (fun n c ↦ radix * n + (toDigit radix c).getD 0) 0

variable {radix n d : ℕ} {rest : List Char}

theorem hexValue_digitChar : ∀ d < 16, hexValue (Nat.digitChar d) = some d := by decide

theorem toDigit_digitChar (hradix : radix ≤ 16) (hd : d < radix) :
    toDigit radix (Nat.digitChar d) = some d := by
  rw [toDigit, hexValue_digitChar d (hd.trans_le hradix), filter_some, if_pos]
  exact decide_eq_true hd

theorem value_append_singleton (cs : List Char) (c : Char) :
    value radix (cs ++ [c]) = radix * value radix cs + (toDigit radix c).getD 0 := by
  rw [value, foldl_append]
  rfl

/-- Induction on a number by its digits. -/
theorem digits_induction {P : ℕ → Prop} (hone : 1 < radix) (small : ∀ d < radix, P d)
    (step : ∀ n, radix ≤ n → P (n / radix) → P n) (n : ℕ) : P n := by
  induction n using Nat.strong_induction_on with
  | _ n ih =>
    rcases Nat.lt_or_ge n radix with hlt | hge
    · exact small n hlt
    · exact step n hge (ih _ (Nat.div_lt_self (by omega) hone))

theorem value_toDigits (hone : 1 < radix) (hradix : radix ≤ 16) (n : ℕ) :
    value radix (Nat.toDigits radix n) = n := by
  induction n using digits_induction hone with
  | small d hd =>
    rw [Nat.toDigits_of_lt_base hd, ← nil_append [d.digitChar], value_append_singleton,
      toDigit_digitChar hradix hd]
    exact Nat.zero_add d
  | step n hn ih =>
    have hlast := Nat.mod_lt n (Nat.zero_lt_of_lt hone)
    rw [Nat.toDigits_of_base_le hone hn, value_append_singleton, ih, toDigit_digitChar hradix hlast,
      getD_some, Nat.div_add_mod]

theorem isDigit_of_mem_toDigits (hone : 1 < radix) (hradix : radix ≤ 16) {c : Char}
    (hc : c ∈ Nat.toDigits radix n) : isDigit radix c = true := by
  induction n using digits_induction hone with
  | small d hd =>
    rw [Nat.toDigits_of_lt_base hd, mem_singleton] at hc
    rw [hc, isDigit, toDigit_digitChar hradix hd]
    rfl
  | step n hn ih =>
    rw [Nat.toDigits_of_base_le hone hn, List.mem_append, mem_singleton] at hc
    rcases hc with hc | rfl
    · exact ih hc
    · rw [isDigit, toDigit_digitChar hradix (Nat.mod_lt n (Nat.zero_lt_of_lt hone))]
      rfl

theorem head?_toDigits_ne_zero (hone : 1 < radix) (hradix : radix ≤ 16) (hn : 0 < n) :
    (Nat.toDigits radix n).head? ≠ some '0' := by
  induction n using digits_induction hone with
  | small d hd =>
    rw [Nat.toDigits_of_lt_base hd, head?_cons]
    intro hzero
    have hvalue := toDigit_digitChar hradix hd
    rw [Option.some.inj hzero, toDigit, show hexValue '0' = some 0 from rfl, filter_some,
      if_pos (decide_eq_true (Nat.zero_lt_of_lt hone))] at hvalue
    exact hn.ne (Option.some.inj hvalue)
  | step n hge ih =>
    have hpos : 0 < n / radix := Nat.div_pos hge (Nat.zero_lt_of_lt hone)
    have hhead := ih hpos
    rw [Nat.toDigits_of_base_le hone hge]
    rcases hdigits : Nat.toDigits radix (n / radix) with _ | ⟨c, cs⟩
    · exact absurd hdigits Nat.toDigits_ne_nil
    · rw [hdigits] at hhead
      exact hhead

/-- What may follow a numeral: nothing, or something that is no digit. -/
def Ends (radix : ℕ) (rest : List Char) : Prop := ∀ c ∈ rest.head?, isDigit radix c = false

theorem ends_nil (radix : ℕ) : Ends radix [] := nofun

theorem ends_cons {c : Char} (h : isDigit radix c = false) : Ends radix (c :: rest) := by
  rintro c' ⟨⟩
  exact h

theorem takeWhile_toDigits_append (hone : 1 < radix) (hradix : radix ≤ 16) (h : Ends radix rest) :
    (Nat.toDigits radix n ++ rest).takeWhile (isDigit radix) = Nat.toDigits radix n := by
  rw [takeWhile_append_of_pos fun c hc ↦ isDigit_of_mem_toDigits hone hradix hc]
  rcases rest with _ | ⟨c, rest⟩
  · exact append_nil _
  · rw [takeWhile_cons_of_neg (by simp [h c rfl]), append_nil]

theorem dropWhile_toDigits_append (hone : 1 < radix) (hradix : radix ≤ 16) (h : Ends radix rest) :
    (Nat.toDigits radix n ++ rest).dropWhile (isDigit radix) = rest := by
  rw [dropWhile_append_of_pos fun c hc ↦ isDigit_of_mem_toDigits hone hradix hc]
  rcases rest with _ | ⟨c, rest⟩
  · rfl
  · rw [dropWhile_cons_of_neg (by simp [h c rfl])]

end Numeral

end Hypershunt
