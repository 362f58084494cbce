import Mathlib.Algebra.BigOperators.Group.List.Basic
import Mathlib.Algebra.Order.Ring.Nat
import Mathlib.Data.List.AList

/-!
# Maps ordered by recency

A least-recently-used cache is a finite map together with the order in which its keys were last
used. Mathlib's `AList` is exactly that when its entry list is read most recently used first:
`AList.insert` puts a key in front and takes any older entry of that key out. What is missing is
the promotion a lookup performs, the removal of the oldest entry, and the weight of a map, by
which a byte budget is kept.
-/

namespace Hypershunt

open List Option

/-- A map in recency order: the head of the entry list was used last. -/
abbrev Recency (K V : Type*) := AList fun _ : K ↦ V

namespace Recency

variable {K V : Type*} {m : Recency K V}

/-- Remove the least recently used entry. -/
def popLru (m : Recency K V) : Option ((Σ _ : K, V) × Recency K V) :=
  m.entries.getLast?.map fun e ↦
    (e, ⟨m.entries.dropLast, m.nodupKeys.sublist (dropLast_sublist _)⟩)

theorem popLru_eq_none : m.popLru = none ↔ m.entries = [] := by
  rw [popLru, map_eq_none_iff, getLast?_eq_none_iff]

theorem entries_of_popLru {e : Σ _ : K, V} {m' : Recency K V} (h : m.popLru = some (e, m')) :
    m.entries = m'.entries ++ [e] := by
  rw [popLru, map_eq_some_iff] at h
  obtain ⟨e', he', heq⟩ := h
  cases heq
  exact (dropLast_append_getLast? _ he').symm

/-! ## Weight -/

/-- The total weight of a list of entries. -/
def weightOf (w : V → ℕ) (l : List (Σ _ : K, V)) : ℕ := (l.map fun e ↦ w e.2).sum

/-- The total weight of the values held. -/
def weight (w : V → ℕ) (m : Recency K V) : ℕ := weightOf w m.entries

variable (w : V → ℕ)

@[simp] theorem weightOf_nil : weightOf w ([] : List (Σ _ : K, V)) = 0 := rfl

@[simp] theorem weightOf_cons (k : K) (v : V) (l : List (Σ _ : K, V)) :
    weightOf w (⟨k, v⟩ :: l) = w v + weightOf w l := by
  rw [weightOf, map_cons, sum_cons, ← weightOf]

@[simp] theorem weightOf_append (l l' : List (Σ _ : K, V)) :
    weightOf w (l ++ l') = weightOf w l + weightOf w l' := by
  rw [weightOf, map_append, sum_append, ← weightOf, ← weightOf]

@[simp] theorem weightOf_reverse (l : List (Σ _ : K, V)) :
    weightOf w l.reverse = weightOf w l := by
  rw [weightOf, map_reverse, sum_reverse, ← weightOf]

/-! ## Lookup, store, removal -/

variable [DecidableEq K] {k : K} {v : V}

/-- Look a key up and, when it is there, make it the most recently used one. -/
def get (k : K) (m : Recency K V) : Option V × Recency K V :=
  match m.lookup k with
  | some v => (some v, m.insert k v)
  | none => (none, m)

/-- Store a value as the most recently used one; returns the value it replaces. -/
def put (k : K) (v : V) (m : Recency K V) : Option V × Recency K V := (m.lookup k, m.insert k v)

/-- Remove a key; returns its value. -/
def pop (k : K) (m : Recency K V) : Option V × Recency K V := (m.lookup k, m.erase k)

theorem entries_insert : (m.insert k v).entries = ⟨k, v⟩ :: (m.erase k).entries := rfl

theorem erase_of_lookup_eq_none (h : m.lookup k = none) : m.erase k = m :=
  AList.ext (kerase_of_notMem_keys (AList.lookup_eq_none.mp h))

theorem weight_insert : weight w (m.insert k v) = w v + weight w (m.erase k) := by
  rw [weight, entries_insert, weightOf_cons, ← weight]

theorem weight_erase (h : m.lookup k = some v) : weight w (m.erase k) + w v = weight w m := by
  have hmem : k ∈ m.entries.keys := AList.mem_keys.mp (AList.lookup_isSome.mp (by rw [h]; rfl))
  obtain ⟨b, l₁, l₂, hnot, hl, herase⟩ := exists_of_kerase hmem
  have hb : b = v := by
    have hlook : m.lookup k = some b := by
      rw [AList.lookup, hl, dlookup_append, dlookup_eq_none.mpr hnot, none_or, dlookup_cons_eq]
    exact Option.some.inj (hlook.symm.trans h)
  have hentries : (m.erase k).entries = l₁ ++ l₂ := herase
  rw [weight, weight, hentries, hl, weightOf_append, weightOf_append, weightOf_cons, hb]
  omega

theorem weight_get : weight w (m.get k).2 = weight w m := by
  unfold get
  cases h : m.lookup k with
  | none => rfl
  | some v =>
    change weight w (m.insert k v) = weight w m
    rw [weight_insert, add_comm, weight_erase w h]

/-- Store a value in a cache of limited size, which forgets its least recently used entry. -/
def putCapped (cap : ℕ) (k : K) (v : V) (m : Recency K V) : Recency K V :=
  let m : Recency K V := m.insert k v
  if cap < m.entries.length then (m.popLru.map Prod.snd).getD m else m

/-! ## What all entries satisfy -/

/-- Every entry satisfies `P`. -/
def Holds (P : K → V → Prop) (m : Recency K V) : Prop := ∀ k v, m.lookup k = some v → P k v

variable {P : K → V → Prop}

theorem holds_empty : Holds P (∅ : Recency K V) := by
  intro k v h
  rw [AList.lookup_empty] at h
  cases h

theorem Holds.insert (h : Holds P m) (hv : P k v) : Holds P (m.insert k v) := by
  intro k' v' h'
  by_cases hk : k' = k
  · subst hk
    rw [AList.lookup_insert, Option.some.injEq] at h'
    exact h' ▸ hv
  · rw [AList.lookup_insert_ne hk] at h'
    exact h k' v' h'

theorem Holds.erase (h : Holds P m) (k : K) : Holds P (m.erase k) := by
  intro k' v' h'
  by_cases hk : k' = k
  · subst hk
    rw [AList.lookup_erase] at h'
    cases h'
  · rw [AList.lookup_erase_ne hk] at h'
    exact h k' v' h'

theorem Holds.get (h : Holds P m) (k : K) : Holds P (m.get k).2 := by
  unfold Recency.get
  split
  case h_1 v hv => exact h.insert (h k v hv)
  case h_2 => exact h

theorem Holds.popLru (h : Holds P m) {e : Σ _ : K, V} {m' : Recency K V}
    (hpop : m.popLru = some (e, m')) : Holds P m' := by
  intro k v hk
  refine h k v ?_
  rw [AList.lookup, entries_of_popLru hpop, dlookup_append, ← AList.lookup, hk, some_or]

theorem Holds.putCapped (h : Holds P m) (hv : P k v) (cap : ℕ) : Holds P (m.putCapped cap k v) := by
  have hinsert : Holds P (m.insert k v) := h.insert hv
  rw [Recency.putCapped]
  split_ifs
  · rcases hpop : Recency.popLru (m.insert k v) with _ | ⟨e, m'⟩
    · exact hinsert
    · exact hinsert.popLru hpop
  · exact hinsert

end Recency

end Hypershunt
