import Mathlib.Algebra.Order.Ring.Nat
import Mathlib.Data.Nat.ModEq

/-!
# Numbers in network byte order

A number as a fixed count of bytes, the most significant first, and back. Writing a number that does
not fit keeps its low bytes, as a cast to a narrower type and `to_be_bytes` do.
-/

namespace Hypershunt

namespace BigEndian

/-- The low `w` bytes of a number. -/
def toBytes : ℕ → ℕ → List UInt8
  | 0, _ => []
  | w + 1, n => UInt8.ofNat (n / 256 ^ w) :: toBytes w n

/-- The number that some bytes are. -/
def ofBytes : List UInt8 → ℕ
  | [] => 0
  | b :: bs => b.toNat * 256 ^ bs.length + ofBytes bs

variable {w n : ℕ} {bs bs' : List UInt8}

@[simp] theorem length_toBytes (w n : ℕ) : (toBytes w n).length = w := by
  induction w with
  | zero => rfl
  | succ w ih => rw [toBytes, List.length_cons, ih]

theorem ofBytes_lt (bs : List UInt8) : ofBytes bs < 256 ^ bs.length := by
  induction bs with
  | nil => exact Nat.one_pos
  | cons b bs ih =>
    have hb : b.toNat + 1 ≤ 256 := b.toNat_lt
    calc b.toNat * 256 ^ bs.length + ofBytes bs
        < b.toNat * 256 ^ bs.length + 256 ^ bs.length := Nat.add_lt_add_left ih _
      _ = (b.toNat + 1) * 256 ^ bs.length := (Nat.succ_mul _ _).symm
      _ ≤ 256 * 256 ^ bs.length := Nat.mul_le_mul_right _ hb
      _ = 256 ^ (bs.length + 1) := (Nat.pow_succ' ..).symm

theorem ofBytes_lt_of_length (h : bs.length = w) : ofBytes bs < 256 ^ w := h ▸ ofBytes_lt bs

theorem ofBytes_toBytes_mod (w n : ℕ) : ofBytes (toBytes w n) = n % 256 ^ w := by
  induction w with
  | zero => rw [Nat.pow_zero, Nat.mod_one]; rfl
  | succ w ih =>
    rw [toBytes, ofBytes, length_toBytes, ih, Nat.mod_pow_succ, UInt8.toNat_ofNat', Nat.mul_comm,
      Nat.add_comm]

theorem ofBytes_toBytes (h : n < 256 ^ w) : ofBytes (toBytes w n) = n := by
  rw [ofBytes_toBytes_mod, Nat.mod_eq_of_lt h]

theorem eq_of_ofBytes_eq (hlength : bs.length = bs'.length) (h : ofBytes bs = ofBytes bs') :
    bs = bs' := by
  induction bs generalizing bs' with
  | nil => exact (List.length_eq_zero_iff.mp hlength.symm).symm
  | cons b bs ih =>
    obtain ⟨b', bs', rfl⟩ := List.exists_cons_of_length_eq_add_one hlength.symm
    have hlength : bs.length = bs'.length := Nat.succ.inj hlength
    have hpos : 0 < 256 ^ bs'.length := Nat.pow_pos (by decide)
    rw [ofBytes, ofBytes, hlength] at h
    have hlow := ofBytes_lt bs
    rw [hlength] at hlow
    -- the first byte is the quotient and the others are the remainder
    have hdiv := congrArg (· / 256 ^ bs'.length) h
    have hmod := congrArg (· % 256 ^ bs'.length) h
    simp only [Nat.mul_add_mod_self_right, Nat.mod_eq_of_lt hlow,
      Nat.mod_eq_of_lt (ofBytes_lt bs')] at hmod
    simp only [Nat.add_comm (_ * _), Nat.add_mul_div_right _ _ hpos, Nat.div_eq_of_lt hlow,
      Nat.div_eq_of_lt (ofBytes_lt bs'), Nat.zero_add] at hdiv
    rw [UInt8.toNat_inj.mp hdiv, ih hlength hmod]

@[simp] theorem toBytes_ofBytes (bs : List UInt8) : toBytes bs.length (ofBytes bs) = bs :=
  eq_of_ofBytes_eq (length_toBytes _ _) (ofBytes_toBytes (ofBytes_lt bs))

theorem toBytes_ofBytes_of_length (h : bs.length = w) : toBytes w (ofBytes bs) = bs :=
  h ▸ toBytes_ofBytes bs

end BigEndian

end Hypershunt
