import Mathlib.Data.Fin.Basic
import Mathlib.Data.List.Basic
import Mathlib.Data.Nat.ModEq

/-!
# Ring buffers

An array that is written round and round, and never emptied: the number of writes is counted, and
the entries are those of the last writes, as many as fit. `Records` relates such an array to the
list of everything that was ever written to it.
-/

namespace Hypershunt

open List Option Function

/-- An array of fixed length with the index of the next write and the number of writes so far. -/
structure RingBuffer (α : Type*) (cap : ℕ) where
  slots : Fin cap → α
  head : Fin cap
  written : ℕ

namespace RingBuffer

variable {α : Type*} {cap : ℕ} [NeZero cap] {b : RingBuffer α cap} {xs : List α} {k n : ℕ}

/-- A buffer before the first write. -/
def fresh (a : α) : RingBuffer α cap := ⟨fun _ ↦ a, 0, 0⟩

def push (b : RingBuffer α cap) (a : α) : RingBuffer α cap :=
  ⟨update b.slots b.head a, b.head + 1, b.written + 1⟩

/-- Where the write with this number went, unless it has been overwritten. -/
def entry (b : RingBuffer α cap) (k : ℕ) : α := b.slots (Fin.ofNat cap k)

/-- The last entries, oldest first. -/
def latest (b : RingBuffer α cap) (n : ℕ) : List α :=
  (List.range n).map fun i ↦ b.entry (b.head + cap - n + i)

/-- The list has all that was written. -/
structure Records (b : RingBuffer α cap) (xs : List α) : Prop where
  written : b.written = xs.length
  head : b.head = Fin.ofNat cap xs.length
  entry : ∀ k x, xs[k]? = some x → xs.length ≤ k + cap → b.entry k = x

theorem records_fresh (a : α) : (fresh a : RingBuffer α cap).Records [] where
  written := rfl
  head := Fin.ext (Nat.zero_mod cap).symm
  entry _ _ h := nomatch h

theorem ofNat_eq_ofNat_iff {j k : ℕ} : Fin.ofNat cap j = Fin.ofNat cap k ↔ j ≡ k [MOD cap] :=
  Fin.ext_iff

theorem entry_push (a : α) (k : ℕ) :
    (b.push a).entry k = update b.slots b.head a (Fin.ofNat cap k) :=
  rfl

/-- A write replaces the oldest entry. -/
theorem Records.push (h : b.Records xs) (a : α) : (b.push a).Records (xs ++ [a]) where
  written := by
    rw [RingBuffer.push, h.written, length_append, length_singleton]
  head := by
    rw [RingBuffer.push, h.head, length_append, length_singleton]
    refine Fin.ext ?_
    rw [Fin.val_add]
    simp [Fin.ofNat]
  entry k x hx hlive := by
    rw [length_append, length_singleton] at hlive
    rw [entry_push, h.head]
    rcases Nat.lt_trichotomy k xs.length with hlt | rfl | hgt
    · rw [getElem?_append_left hlt] at hx
      have hne : Fin.ofNat cap k ≠ Fin.ofNat cap xs.length := by
        rw [Ne, ofNat_eq_ofNat_iff]
        intro hmod
        have hdvd : cap ∣ xs.length - k := (Nat.modEq_iff_dvd' hlt.le).mp hmod
        exact absurd (Nat.le_of_dvd (Nat.sub_pos_of_lt hlt) hdvd) (by omega)
      rw [update_of_ne hne]
      exact h.entry k x hx (by omega)
    · rw [getElem?_concat_length, Option.some.injEq] at hx
      rw [update_self, hx]
    · rw [getElem?_eq_none (by simpa using Nat.succ_le_of_lt hgt)] at hx
      exact nomatch hx

theorem Records.latest (h : b.Records xs) (hcap : n ≤ cap) (hn : n ≤ xs.length) :
    b.latest n = xs.drop (xs.length - n) := by
  refine ext_getElem? fun i ↦ ?_
  rw [RingBuffer.latest, getElem?_map, getElem?_drop]
  rcases Nat.lt_or_ge i n with hi | hi
  · have hlt : xs.length - n + i < xs.length := by omega
    have hget : xs[xs.length - n + i]? = some xs[xs.length - n + i] := getElem?_eq_getElem hlt
    rw [getElem?_range hi, map_some, hget, Option.some.injEq]
    have hmod : b.head + cap - n + i ≡ xs.length - n + i [MOD cap] := by
      have hhead : (b.head : ℕ) ≡ xs.length [MOD cap] := by
        rw [h.head]
        exact Nat.mod_modEq _ _
      have hadd : b.head + cap - n + i + n ≡ xs.length - n + i + n [MOD cap] := by
        have hl : b.head + cap - n + i + n = b.head + cap + i := by omega
        have hr : xs.length - n + i + n = xs.length + i := by omega
        rw [hl, hr]
        exact ((Nat.add_modEq_right).trans hhead).add_right i
      exact Nat.ModEq.add_right_cancel' n hadd
    have hentry : b.entry (b.head + cap - n + i) = b.entry (xs.length - n + i) := by
      rw [RingBuffer.entry, RingBuffer.entry, ofNat_eq_ofNat_iff.mpr hmod]
    rw [hentry]
    exact h.entry _ _ hget (by omega)
  · rw [getElem?_eq_none (by simpa using hi), getElem?_eq_none (by omega)]
    rfl

end RingBuffer

end Hypershunt
