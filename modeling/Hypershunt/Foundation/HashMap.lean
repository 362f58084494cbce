import Mathlib.Data.Finmap

/-!
# Hash maps

A hash map is mathlib's `Finmap`: finitely many keys, one value each, and two maps are equal when
every lookup agrees, so nothing here depends on an iteration order. This file adds the two
operations mathlib lacks, `retain` and `modify`, one lookup equation for each operation, in the
`if`-form that decides a lookup in an updated map by comparing keys, the values of a map without
their keys, and what a map collected from a list holds.
-/

namespace Hypershunt

open Finmap Multiset

/-- A finite map from `K` to `V`, compared by its lookups. -/
abbrev HashMap (K V : Type*) := Finmap fun _ : K ↦ V

namespace HashMap

variable {K V : Type*} [DecidableEq K] {m : HashMap K V} {k k' : K} {v : V}

theorem lookup_insert_ite :
    (insert k v m).lookup k' = if k' = k then some v else m.lookup k' := by
  by_cases h : k' = k
  · rw [if_pos h, h, lookup_insert]
  · rw [if_neg h, lookup_insert_of_ne m h]

theorem lookup_erase_ite : (m.erase k).lookup k' = if k' = k then none else m.lookup k' := by
  by_cases h : k' = k
  · rw [if_pos h, h, lookup_erase]
  · rw [if_neg h, lookup_erase_ne h]

theorem of_lookup_insert {w : V} (h : (insert k v m).lookup k' = some w) :
    k' = k ∧ w = v ∨ m.lookup k' = some w := by
  rw [lookup_insert_ite] at h
  split at h
  · exact .inl ⟨‹_›, (Option.some.inj h).symm⟩
  · exact .inr h

theorem of_lookup_erase (h : (m.erase k).lookup k' = some v) : k' ≠ k ∧ m.lookup k' = some v := by
  rwa [lookup_erase_ite, Option.ite_none_left_eq_some] at h

theorem keys_insert : (insert k v m).keys = insert k m.keys := by
  ext k'
  rw [mem_keys, mem_insert, Finset.mem_insert, mem_keys]

omit [DecidableEq K] in
private theorem nodupKeys_filter (m : HashMap K V) (p : K → V → Bool) :
    (m.entries.filter fun e ↦ p e.1 e.2).NodupKeys := by
  obtain ⟨s, hs⟩ := m
  induction s using Quotient.inductionOn with
  | h l => exact List.NodupKeys.sublist List.filter_sublist hs

/-- Keep the entries that satisfy `p`. -/
def retain (p : K → V → Bool) (m : HashMap K V) : HashMap K V where
  entries := m.entries.filter fun e ↦ p e.1 e.2
  nodupKeys := nodupKeys_filter m p

theorem lookup_retain (p : K → V → Bool) (m : HashMap K V) (k : K) :
    (m.retain p).lookup k = (m.lookup k).filter (p k) := by
  ext v
  rw [Option.filter_eq_some_iff, lookup_eq_some_iff, lookup_eq_some_iff]
  exact mem_filter

/-- Update the value under `k` in place, when there is one. -/
def modify (k : K) (f : V → V) (m : HashMap K V) : HashMap K V :=
  match m.lookup k with
  | some v => m.insert k (f v)
  | none => m

theorem lookup_modify (k k' : K) (f : V → V) (m : HashMap K V) :
    (m.modify k f).lookup k' = if k' = k then (m.lookup k).map f else m.lookup k' := by
  unfold modify
  cases h : m.lookup k with
  | none =>
    by_cases hk : k' = k
    · rw [if_pos hk, hk, h, Option.map_none]
    · rw [if_neg hk]
  | some v => rw [lookup_insert_ite, Option.map_some]

@[simp] theorem mem_retain (p : K → V → Bool) :
    k ∈ m.retain p ↔ ∃ v, m.lookup k = some v ∧ p k v = true := by
  rw [mem_iff]
  simp only [lookup_retain, Option.filter_eq_some_iff]

@[simp] theorem mem_modify (f : V → V) : k' ∈ m.modify k f ↔ k' ∈ m := by
  rw [mem_iff, mem_iff, lookup_modify]
  by_cases hk : k' = k
  · rw [if_pos hk, hk]
    simp
  · rw [if_neg hk]

/-! ## The values of a map -/

/-- The values, each as often as it occurs. -/
def values (m : HashMap K V) : Multiset V := m.entries.map Sigma.snd

theorem values_insert_of_notMem (h : k ∉ m) :
    values (insert k v m) = v ::ₘ m.values := by
  rw [values, entries_insert_of_notMem h, map_cons, values]

omit [DecidableEq K] in
theorem card_values : card m.values = m.keys.card := by
  have hkeys : m.keys.card = card (m.entries.map Sigma.fst) := rfl
  rw [hkeys, values, card_map, card_map]

theorem mem_values : v ∈ m.values ↔ ∃ k, m.lookup k = some v := by
  rw [values, mem_map]
  constructor
  · rintro ⟨⟨k, v⟩, hmem, rfl⟩
    exact ⟨k, lookup_eq_some_iff.mpr hmem⟩
  · rintro ⟨k, hk⟩
    exact ⟨⟨k, v⟩, lookup_eq_some_iff.mp hk, rfl⟩

theorem mem_values_insert {w : V} (h : w ∈ values (insert k v m)) :
    w = v ∨ w ∈ m.values := by
  obtain ⟨k', hk'⟩ := mem_values.mp h
  exact (of_lookup_insert hk').imp And.right fun hk' ↦ mem_values.mpr ⟨k', hk'⟩

theorem values_le {m' : HashMap K V}
    (h : ∀ k v, m.lookup k = some v → m'.lookup k = some v) : m.values ≤ m'.values := by
  refine map_le_map ((le_iff_subset m.nodup_entries).mpr ?_)
  rintro ⟨k, v⟩ hmem
  exact lookup_eq_some_iff.mp (h k v (lookup_eq_some_iff.mpr hmem))

theorem nodup_values_iff :
    m.values.Nodup ↔ ∀ k k' v, m.lookup k = some v → m.lookup k' = some v → k = k' := by
  rw [values, nodup_map_iff_inj_on m.nodup_entries]
  constructor
  · intro hinj k k' v hk hk'
    have heq := hinj ⟨k, v⟩ (lookup_eq_some_iff.mp hk) ⟨k', v⟩
      (lookup_eq_some_iff.mp hk') rfl
    exact congrArg Sigma.fst heq
  · rintro hinj ⟨k, v⟩ hmem ⟨k', v'⟩ hmem' rfl
    rw [hinj k k' v (lookup_eq_some_iff.mpr hmem) (lookup_eq_some_iff.mpr hmem')]

/-- The values are those of a list: each is under one key, and there are no others. -/
theorem values_eq_coe_iff {l : List V} (hl : l.Nodup) :
    m.values = ↑l ↔
      (∀ v ∈ l, ∃! k, m.lookup k = some v) ∧ ∀ k v, m.lookup k = some v → v ∈ l := by
  constructor
  · intro hvalues
    have hmem : ∀ v, v ∈ l ↔ ∃ k, m.lookup k = some v := by
      intro v
      rw [← mem_values, hvalues, mem_coe]
    have hinj := nodup_values_iff.mp (hvalues ▸ coe_nodup.mpr hl)
    refine ⟨fun v hv ↦ ?_, fun k v hk ↦ (hmem v).mpr ⟨k, hk⟩⟩
    obtain ⟨k, hk⟩ := (hmem v).mp hv
    exact ⟨k, hk, fun k' hk' ↦ hinj k' k v hk' hk⟩
  · rintro ⟨hunique, hmem⟩
    have hnodup : m.values.Nodup := by
      rw [nodup_values_iff]
      intro k k' v hk hk'
      exact (hunique v (hmem k v hk)).unique hk hk'
    rw [hnodup.ext (coe_nodup.mpr hl)]
    intro v
    rw [mem_values, mem_coe]
    exact ⟨fun ⟨k, hk⟩ ↦ hmem k v hk, fun hv ↦ (hunique v hv).exists⟩

/-! ## Collecting a list into a map -/

section Collect

variable {α : Type*} (key : α → K) (val : α → V)

theorem lookup_foldl_insert_of_notMem {l : List α} (h : k ∉ l.map key) (m : HashMap K V) :
    (l.foldl (fun m a ↦ insert (key a) (val a) m) m).lookup k = m.lookup k := by
  induction l generalizing m with
  | nil => rfl
  | cons a l ih =>
    rw [List.map_cons, List.mem_cons, not_or] at h
    rw [List.foldl_cons, ih h.2, lookup_insert_of_ne m h.1]

theorem lookup_foldl_insert_of_mem {l : List α} (hnodup : (l.map key).Nodup) {a : α} (ha : a ∈ l)
    (m : HashMap K V) :
    (l.foldl (fun m a ↦ insert (key a) (val a) m) m).lookup (key a) = some (val a) := by
  induction l generalizing m with
  | nil => exact absurd ha List.not_mem_nil
  | cons a' l ih =>
    rw [List.map_cons, List.nodup_cons] at hnodup
    rw [List.foldl_cons]
    rcases List.mem_cons.mp ha with rfl | ha
    · rw [lookup_foldl_insert_of_notMem key val hnodup.1, lookup_insert]
    · exact ih hnodup.2 ha _

end Collect

end HashMap

end Hypershunt
