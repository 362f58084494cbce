import Hypershunt.Cache.Store

/-!
# What the store holds

The store seen from outside: `peek` is the entry under a key, and each method is described by what
it does to `peek`. Recency, the byte count and the counters do not appear, and nothing is assumed
about them; only which entries an insertion evicts depends on them, and that is left open here.

A lookup changes nothing, `remove` clears its key, the sweep clears the keys of the entries that
are no longer fresh, and an insertion sets its key and may clear others.
-/

namespace Hypershunt

open List Option

namespace CacheStore

open Recency

/-- The entry stored under a key. -/
def peek (s : CacheStore) (key : String) : Option StoredResponse := s.inner.map.lookup key

variable (s : CacheStore) (key k : String) {entry e : StoredResponse}

@[simp] theorem peek_new (maxBytes : ℕ) : (new maxBytes).peek k = none := rfl

@[simp] theorem get_fst : (s.get key).1 = s.peek key := by
  unfold get Recency.get peek
  cases s.inner.map.lookup key <;> rfl

@[simp] theorem peek_get : (s.get key).2.peek k = s.peek k := by
  unfold get Recency.get peek
  cases hkey : s.inner.map.lookup key with
  | none => rfl
  | some v =>
    change (s.inner.map.insert key v).lookup k = s.inner.map.lookup k
    by_cases hk : k = key
    · rw [hk, AList.lookup_insert, hkey]
    · rw [AList.lookup_insert_ne hk]

@[simp] theorem maxBytes_get : (s.get key).2.maxBytes = s.maxBytes := rfl

/-! ## Removal -/

@[simp] theorem peek_evict :
    (s.evict key).peek k = if k = key then none else s.peek k := by
  have hmap : (s.evict key).inner.map = s.inner.map.erase key := by
    unfold evict Recency.pop
    cases s.inner.map.lookup key <;> rfl
  rw [peek, hmap]
  split
  case isTrue hk => rw [hk, AList.lookup_erase]
  case isFalse hk => rw [AList.lookup_erase_ne hk, peek]

@[simp] theorem peek_remove :
    (s.remove key).peek k = if k = key then none else s.peek k := by
  rw [remove_eq_evict]
  exact peek_evict s key k

theorem peek_foldl_evict (keys : List String) :
    (keys.foldl evict s).peek k = if k ∈ keys then none else s.peek k := by
  induction keys generalizing s with
  | nil => rw [if_neg not_mem_nil, foldl_nil]
  | cons key keys ih =>
    rw [foldl_cons, ih, peek_evict]
    by_cases hk : k = key
    · simp [hk]
    · simp [hk]

@[simp] theorem peek_evictExpired (now : Instant) :
    (s.evictExpired now).peek k = (s.peek k).filter fun e ↦ e.isFresh now := by
  have hstale : k ∈ (s.inner.map.entries.filter fun e ↦ !e.2.isFresh now).map Sigma.fst ↔
      ∃ e, s.peek k = some e ∧ e.isFresh now = false := by
    rw [List.mem_map]
    constructor
    · rintro ⟨⟨k', e⟩, hmem, rfl⟩
      rw [mem_filter, Bool.not_eq_true'] at hmem
      exact ⟨e, mem_dlookup s.inner.map.nodupKeys hmem.1, hmem.2⟩
    · rintro ⟨e, hpeek, hfresh⟩
      exact ⟨⟨k, e⟩, mem_filter.mpr ⟨of_mem_dlookup hpeek, by simp [hfresh]⟩, rfl⟩
  rw [evictExpired, peek_foldl_evict]
  cases hpeek : s.peek k with
  | none => rw [ite_self, filter_none]
  | some e =>
    cases hfresh : e.isFresh now with
    | true =>
      have hnot : k ∉ (s.inner.map.entries.filter fun e ↦ !e.2.isFresh now).map Sigma.fst := by
        rw [hstale]
        rintro ⟨e', he', hstale'⟩
        rw [hpeek, Option.some.injEq] at he'
        rw [← he', hfresh] at hstale'
        cases hstale'
      rw [if_neg hnot, filter_some, if_pos hfresh]
    | false =>
      rw [if_pos (hstale.mpr ⟨e, hpeek, hfresh⟩), filter_some, hfresh, if_neg Bool.false_ne_true]

theorem maxBytes_remove : (s.remove key).maxBytes = s.maxBytes := by
  unfold remove Recency.pop
  cases s.inner.map.lookup key <;> rfl

theorem maxBytes_evict : (s.evict key).maxBytes = s.maxBytes := by
  unfold evict Recency.pop
  cases s.inner.map.lookup key <;> rfl

theorem maxBytes_evictExpired (now : Instant) : (s.evictExpired now).maxBytes = s.maxBytes := by
  unfold evictExpired
  generalize (s.inner.map.entries.filter fun e ↦ !e.2.isFresh now).map Sigma.fst = keys
  induction keys generalizing s with
  | nil => rfl
  | cons key keys ih => rw [foldl_cons, ih, maxBytes_evict]

/-! ## Insertion -/

/-- Budget eviction takes entries from the end of the recency list and leaves one. -/
theorem entries_evictToBudget :
    (evictToBudget s).inner.map.entries <+: s.inner.map.entries ∧
      (s.inner.map.entries ≠ [] → (evictToBudget s).inner.map.entries ≠ []) ∧
      (evictToBudget s).maxBytes = s.maxBytes := by
  fun_induction evictToBudget s with
  | case1 s hguard e map hpop ih =>
    have hentries : s.inner.map.entries = map.entries ++ [e] := entries_of_popLru hpop
    refine ⟨ih.1.trans ?_, fun _ ↦ ih.2.1 ?_, ih.2.2⟩
    · rw [hentries]
      exact prefix_append _ _
    · rintro hnil
      change map.entries = [] at hnil
      rw [hentries, hnil] at hguard
      simp at hguard
  | case2 s hguard hpop => exact ⟨prefix_rfl, id, rfl⟩
  | case3 s hguard => exact ⟨prefix_rfl, id, rfl⟩

variable {s} {k}

/-- An entry within the budget ends up under its key; whatever is under another key was there. -/
theorem entries_insert_of_le (hsize : entry.size ≤ s.maxBytes) :
    ∃ kept, (s.insert key entry).inner.map.entries = ⟨key, entry⟩ :: kept ∧
      kept <+: (s.inner.map.erase key).entries := by
  obtain ⟨w, hmap, heq⟩ : ∃ w : CacheStore, w.inner.map = s.inner.map.insert key entry ∧
      (s.insert key entry).inner.map = (evictToBudget w).inner.map := by
    unfold insert Recency.put
    rw [if_neg (not_lt.mpr hsize)]
    refine ⟨_, ?_, rfl⟩
    cases s.inner.map.lookup key <;> rfl
  obtain ⟨hpre, hne, -⟩ := entries_evictToBudget w
  rw [hmap, entries_insert] at hpre hne
  obtain ⟨first, kept, hcons⟩ := exists_cons_of_ne_nil (hne (cons_ne_nil _ _))
  rw [hcons, cons_prefix_cons] at hpre
  exact ⟨kept, by rw [heq, hcons, hpre.1], hpre.2⟩

theorem peek_insert_self (hsize : entry.size ≤ s.maxBytes) :
    (s.insert key entry).peek key = some entry := by
  obtain ⟨kept, hentries, -⟩ := entries_insert_of_le key hsize
  rw [peek, AList.lookup, hentries, dlookup_cons_eq]

variable {key}

theorem peek_insert (h : (s.insert key entry).peek k = some e) :
    (k = key ∧ e = entry ∧ entry.size ≤ s.maxBytes) ∨ s.peek k = some e := by
  rcases lt_or_ge s.maxBytes entry.size with hlt | hle
  · rw [insert_of_lt hlt] at h
    exact Or.inr h
  · by_cases hk : k = key
    · rw [hk, peek_insert_self key hle, Option.some.injEq] at h
      exact Or.inl ⟨hk, h.symm, hle⟩
    · obtain ⟨kept, hentries, hpre⟩ := entries_insert_of_le key hle
      rw [peek, AList.lookup, hentries, dlookup_cons_ne kept (⟨key, entry⟩ : Σ _, _) hk] at h
      have hkept : (s.inner.map.erase key).lookup k = some e :=
        sublist_dlookup (s.inner.map.erase key).nodupKeys hpre.sublist h
      rw [AList.lookup_erase_ne hk] at hkept
      exact Or.inr hkept

theorem maxBytes_insert (s : CacheStore) (key : String) (entry : StoredResponse) :
    (s.insert key entry).maxBytes = s.maxBytes := by
  unfold insert
  split
  · rfl
  · exact (entries_evictToBudget _).2.2

end CacheStore

end Hypershunt
