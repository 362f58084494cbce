import Mathlib.Algebra.Order.Ring.Nat
import Mathlib.Data.List.Basic

/-!
# Self-delimiting encodings

An encoding in which the end of each item can be told from its own text. Items are then written one
after the other and read back without separators, and a text splits into items in one way at most.

The law `read_eq_some_iff` says all of this about one item at the front of a text;
`decode_eq_some_iff` says it about a whole text.
-/

namespace Hypershunt

open Option List

/-- How items of type `β` are written as texts over `α`, and how the first of them is read. -/
structure Framing (α β : Type*) where
  write : β → List α
  read : List α → Option (β × List α)
  read_eq_some_iff : ∀ {s b rest}, read s = some (b, rest) ↔ s = write b ++ rest
  write_ne_nil : ∀ b, write b ≠ []

namespace Framing

variable {α β : Type*} (c : Framing α β) {s rest : List α} {b : β} {bs : List β} {n : ℕ}

@[simp] theorem read_write_append (b : β) (rest : List α) :
    c.read (c.write b ++ rest) = some (b, rest) :=
  c.read_eq_some_iff.mpr rfl

/-- No item is the beginning of another. -/
theorem write_append_inj {b' : β} {rest' : List α} (h : c.write b ++ rest = c.write b' ++ rest') :
    b = b' ∧ rest = rest' := by
  have hread := c.read_write_append b rest
  rw [h, read_write_append] at hread
  exact ⟨(congrArg Prod.fst (some.inj hread)).symm, (congrArg Prod.snd (some.inj hread)).symm⟩

/-- Read items until the text ends, as many as `n` at most. -/
def readAll : ℕ → List α → Option (List β)
  | _, [] => some []
  | 0, _ :: _ => none
  | n + 1, s@(_ :: _) => (c.read s).bind fun p ↦ (readAll n p.2).map (p.1 :: ·)

/-- The items that a text is made of. -/
def decode (s : List α) : Option (List β) := c.readAll s.length s

theorem length_write_pos (b : β) : 0 < (c.write b).length :=
  length_pos_of_ne_nil (c.write_ne_nil b)

theorem eq_flatMap_of_readAll (h : c.readAll n s = some bs) : s = bs.flatMap c.write := by
  induction n generalizing s bs with
  | zero =>
    rcases s with _ | ⟨a, s⟩
    · obtain rfl := some.inj h
      rfl
    · exact nomatch h
  | succ n ih =>
    rcases s with _ | ⟨a, s⟩
    · obtain rfl := some.inj h
      rfl
    · obtain ⟨⟨b, rest⟩, hread, h⟩ := bind_eq_some_iff.mp h
      obtain ⟨bs', hrest, rfl⟩ := map_eq_some_iff.mp h
      rw [c.read_eq_some_iff.mp hread, flatMap_cons, ← ih hrest]

theorem readAll_flatMap (hn : (bs.flatMap c.write).length ≤ n) :
    c.readAll n (bs.flatMap c.write) = some bs := by
  induction bs generalizing n with
  | nil => rcases n with _ | n <;> rfl
  | cons b bs ih =>
    rw [flatMap_cons, length_append] at hn
    have hpos := c.length_write_pos b
    obtain ⟨n, rfl⟩ := Nat.exists_eq_add_of_le' (hpos.trans_le ((Nat.le_add_right _ _).trans hn))
    obtain ⟨a, s, hs⟩ := exists_cons_of_ne_nil (c.write_ne_nil b)
    have hread := c.read_write_append b (bs.flatMap c.write)
    have hrest := @ih n (by omega)
    rw [flatMap_cons]
    rw [hs, cons_append] at hread ⊢
    rw [readAll, hread, bind_some, hrest, map_some]

/-- **A text is read as the items it was written from.** -/
theorem decode_eq_some_iff : c.decode s = some bs ↔ s = bs.flatMap c.write := by
  constructor
  · exact c.eq_flatMap_of_readAll
  · rintro rfl
    exact c.readAll_flatMap le_rfl

end Framing

end Hypershunt
