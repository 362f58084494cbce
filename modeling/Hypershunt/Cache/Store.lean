import Hypershunt.Cache.Entry
import Hypershunt.Foundation.Recency

/-!
# The response store

The process-wide store of `cache/store.rs`: a recency-ordered map from cache keys to stored
responses whose byte total is tracked incrementally and kept within a budget. Every method runs
under one mutex, so a run of the store is a sequence of method calls.

## Machine arithmetic

`bytes` is a `u64`. The addition in `insert` wraps, and is written so; the subtractions saturate
at zero. Whether one of them ever does is recorded in `saturated`, which is not a field of the
source but is what turns "the count never saturates" into a statement about states.

## The invariant

`Accounted` says that the count is the sum of the sizes held, is within the budget, and that no
subtraction has saturated. A budget below `2 ^ 63` is what keeps the addition from wrapping: both
summands are at most the budget.
-/

namespace Hypershunt

open List Recency StoredResponse

/-- What the store's mutex protects. -/
structure Inner where
  map : Recency String StoredResponse
  /-- Running sum of the sizes held. -/
  bytes : ℕ
  /-- Some subtraction from `bytes` was cut off at zero. -/
  saturated : Bool

namespace Inner

/-- `bytes = bytes.saturating_sub(n)`. -/
def subBytes (inner : Inner) (n : ℕ) : Inner :=
  { inner with
    bytes := inner.bytes - n
    saturated := inner.saturated || decide (inner.bytes < n) }

/-- `bytes += n` on a `u64`. -/
def addBytes (inner : Inner) (n : ℕ) : Inner := { inner with bytes := (inner.bytes + n) % 2 ^ 64 }

end Inner

/-- The store: its budget, its contents, and the two counters it reports to the metrics. -/
structure CacheStore where
  inner : Inner
  maxBytes : ℕ
  cacheEvictions : ℕ
  cacheStores : ℕ

namespace CacheStore

/-- `CacheStore::new`. -/
def new (maxBytes : ℕ) : CacheStore := ⟨⟨∅, 0, false⟩, maxBytes, 0, 0⟩

/-- Look up a key, bumping its recency. -/
def get (s : CacheStore) (key : String) : Option StoredResponse × CacheStore :=
  let (entry, map) := s.inner.map.get key
  (entry, { s with inner := { s.inner with map := map } })

/-- The loop of `insert`: evict until the total fits the budget, always leaving one entry. -/
def evictToBudget (s : CacheStore) : CacheStore :=
  if s.maxBytes < s.inner.bytes ∧ 1 < s.inner.map.entries.length then
    match _h : s.inner.map.popLru with
    | some (evicted, map) =>
      evictToBudget
        { s with
          inner := ({ s.inner with map := map } : Inner).subBytes evicted.2.size
          cacheEvictions := s.cacheEvictions + 1 }
    | none => s
  else s
termination_by s.inner.map.entries.length
decreasing_by
  have := congrArg List.length (entries_of_popLru _h)
  rw [length_append, length_singleton] at this
  change map.entries.length < s.inner.map.entries.length
  omega

/-- Store an entry, evicting until the budget is met. One larger than the budget is refused. -/
def insert (s : CacheStore) (key : String) (entry : StoredResponse) : CacheStore :=
  if s.maxBytes < entry.size then s
  else
    let (old, map) := s.inner.map.put key entry
    let inner : Inner := { s.inner with map := map }
    let inner := match old with
      | some old => inner.subBytes old.size
      | none => inner
    let s := evictToBudget { s with inner := inner.addBytes entry.size }
    { s with cacheStores := s.cacheStores + 1 }

/-- Drop an entry. -/
def remove (s : CacheStore) (key : String) : CacheStore :=
  let (old, map) := s.inner.map.pop key
  let inner : Inner := { s.inner with map := map }
  match old with
  | some old => { s with inner := inner.subBytes old.size }
  | none => { s with inner := inner }

/-- The body of the sweep's loop: as `remove`, counted as an eviction. -/
def evict (s : CacheStore) (key : String) : CacheStore :=
  let (old, map) := s.inner.map.pop key
  let inner : Inner := { s.inner with map := map }
  match old with
  | some old =>
    { s with inner := inner.subBytes old.size, cacheEvictions := s.cacheEvictions + 1 }
  | none => { s with inner := inner }

/-- Remove every entry that is no longer fresh at `now`: the stale keys are collected first. -/
def evictExpired (s : CacheStore) (now : Instant) : CacheStore :=
  let stale := (s.inner.map.entries.filter fun e ↦ !e.2.isFresh now).map Sigma.fst
  stale.foldl evict s

/-- A call of one of the store's methods. -/
inductive Op
  | get (key : String)
  | insert (key : String) (entry : StoredResponse)
  | remove (key : String)
  | evictExpired (now : Instant)

/-- The state after one call. -/
def apply (s : CacheStore) : Op → CacheStore
  | .get key => (s.get key).2
  | .insert key entry => s.insert key entry
  | .remove key => s.remove key
  | .evictExpired now => s.evictExpired now

/-- The state after a sequence of calls on a fresh store. -/
def afterCalls (maxBytes : ℕ) (ops : List Op) : CacheStore := ops.foldl apply (new maxBytes)

/-! ## The byte count

What one addition or subtraction does to a count that is right, whatever the map holds. -/

end CacheStore

/-- The count is `n`, and every subtraction so far was exact. -/
def Inner.Tracks (inner : Inner) (n : ℕ) : Prop := inner.bytes = n ∧ inner.saturated = false

theorem Inner.Tracks.subBytes {inner : Inner} {n k : ℕ} (h : inner.Tracks (n + k)) :
    (inner.subBytes k).Tracks n := by
  obtain ⟨hbytes, hsat⟩ := h
  refine ⟨?_, ?_⟩
  · rw [Inner.subBytes, hbytes, Nat.add_sub_cancel]
  · rw [Inner.subBytes, hsat, hbytes, Bool.false_or, decide_eq_false_iff_not]
    omega

theorem Inner.Tracks.addBytes {inner : Inner} {n k : ℕ} (h : inner.Tracks n)
    (hlt : n + k < 2 ^ 64) : (inner.addBytes k).Tracks (n + k) :=
  ⟨by rw [Inner.addBytes, h.1, Nat.mod_eq_of_lt hlt], h.2⟩

namespace CacheStore

/-- **The accounting invariant.** The count is the sum of the sizes held and fits the budget. -/
structure Accounted (maxBytes : ℕ) (s : CacheStore) : Prop where
  budget : s.maxBytes = maxBytes
  tracks : s.inner.Tracks (weight size s.inner.map)
  fits : s.inner.bytes ≤ maxBytes

/-! ## Budget eviction -/

/-- A suffix of the recency list goes, and no longer rest was within budget or a single entry. -/
structure EvictedTo (s t : CacheStore) (evicted : List (Σ _ : String, StoredResponse)) : Prop where
  budget : t.maxBytes = s.maxBytes
  tracks : t.inner.Tracks (weight size t.inner.map)
  entries : s.inner.map.entries = t.inner.map.entries ++ evicted
  overBudget : ∀ rest, rest ≠ [] → rest <+: evicted →
    s.maxBytes < weightOf size (t.inner.map.entries ++ rest)
  stops : t.inner.bytes ≤ s.maxBytes ∨ t.inner.map.entries.length ≤ 1
  leaves : s.inner.map.entries ≠ [] → t.inner.map.entries ≠ []

theorem EvictedTo.refl {s : CacheStore}
    (htracks : s.inner.Tracks (weight size s.inner.map))
    (hstop : s.inner.bytes ≤ s.maxBytes ∨ s.inner.map.entries.length ≤ 1) : EvictedTo s s [] where
  budget := rfl
  tracks := htracks
  entries := (append_nil _).symm
  overBudget := fun _ hne hpre ↦ absurd (prefix_nil.mp hpre) hne
  stops := hstop
  leaves := id

theorem evictToBudget_spec (s : CacheStore)
    (htracks : s.inner.Tracks (weight size s.inner.map)) :
    ∃ evicted, EvictedTo s (evictToBudget s) evicted := by
  fun_induction evictToBudget s with
  | case1 s hguard e map hpop ih =>
    have hentries : s.inner.map.entries = map.entries ++ [e] := entries_of_popLru hpop
    have hweight : weight size s.inner.map =
        weight size map + e.2.size := by
      rw [weight, hentries, weightOf_append, ← weight, weightOf_cons, weightOf_nil, add_zero]
    obtain ⟨evicted, hev⟩ := ih (Inner.Tracks.subBytes (hweight ▸ htracks))
    refine ⟨evicted ++ [e], hev.budget, hev.tracks, ?_, ?_, hev.stops, ?_⟩
    · rw [hentries, ← append_assoc, ← hev.entries]
      rfl
    · intro rest hne hpre
      rcases prefix_concat_iff.mp hpre with rfl | hpre
      · -- the whole of what goes: this is the list the loop found over budget
        rw [← append_assoc, ← hev.entries]
        change s.maxBytes < weightOf _ (map.entries ++ [e])
        rw [← hentries, ← weight, ← htracks.1]
        exact hguard.1
      · exact hev.overBudget rest hne hpre
    · intro _
      refine hev.leaves ?_
      change map.entries ≠ []
      rintro hnil
      rw [hentries, hnil] at hguard
      simp at hguard
  | case2 s hguard hpop =>
    rw [popLru_eq_none.mp hpop] at hguard
    simp at hguard
  | case3 s hguard =>
    refine ⟨[], EvictedTo.refl htracks ?_⟩
    rw [not_and_or, not_lt, not_lt] at hguard
    exact hguard

/-! ## The methods keep the invariant -/

theorem accounted_new (maxBytes : ℕ) : Accounted maxBytes (new maxBytes) :=
  ⟨rfl, ⟨rfl, rfl⟩, Nat.zero_le _⟩

variable {maxBytes : ℕ} {s : CacheStore} {key : String}

theorem Accounted.get (h : Accounted maxBytes s) (key : String) :
    Accounted maxBytes (s.get key).2 := by
  refine ⟨h.budget, ?_, h.fits⟩
  change Inner.Tracks _ (weight _ (s.inner.map.get key).2)
  rw [weight_get]
  exact h.tracks

theorem Accounted.evict (h : Accounted maxBytes s) (key : String) :
    Accounted maxBytes (s.evict key) := by
  unfold CacheStore.evict Recency.pop
  cases hold : s.inner.map.lookup key with
  | none =>
    refine ⟨h.budget, ?_, h.fits⟩
    change Inner.Tracks _ (weight _ (s.inner.map.erase key))
    rw [erase_of_lookup_eq_none hold]
    exact h.tracks
  | some old =>
    have hweight := weight_erase size hold
    exact ⟨h.budget, Inner.Tracks.subBytes (hweight.symm ▸ h.tracks), (Nat.sub_le _ _).trans h.fits⟩

/-- `remove` and the sweep's loop body differ only in a metric. -/
theorem remove_eq_evict (s : CacheStore) (key : String) :
    s.remove key = { s.evict key with cacheEvictions := s.cacheEvictions } := by
  unfold CacheStore.remove CacheStore.evict Recency.pop
  cases s.inner.map.lookup key <;> rfl

theorem Accounted.remove (h : Accounted maxBytes s) (key : String) :
    Accounted maxBytes (s.remove key) := by
  rw [remove_eq_evict]
  have := h.evict key
  exact ⟨this.budget, this.tracks, this.fits⟩

theorem Accounted.foldl_evict (h : Accounted maxBytes s) (keys : List String) :
    Accounted maxBytes (keys.foldl CacheStore.evict s) := by
  induction keys generalizing s with
  | nil => exact h
  | cons key keys ih => exact ih (h.evict key)

/-! ## Insertion -/

/-- The store between writing the new entry and evicting. -/
private def written (s : CacheStore) (key : String) (entry : StoredResponse) : CacheStore :=
  let inner : Inner := { s.inner with map := s.inner.map.insert key entry }
  let inner := match s.inner.map.lookup key with
    | some old => inner.subBytes old.size
    | none => inner
  { s with inner := inner.addBytes entry.size }

variable {entry : StoredResponse}

private theorem insert_eq (hsize : entry.size ≤ s.maxBytes) : s.insert key entry =
      let t := evictToBudget (s.written key entry)
      { t with cacheStores := t.cacheStores + 1 } := by
  rw [CacheStore.insert, if_neg (not_lt.mpr hsize)]
  rfl

private theorem written_map (entry : StoredResponse) :
    (s.written key entry).inner.map = s.inner.map.insert key entry := by
  unfold written
  cases s.inner.map.lookup key <;> rfl

/-- The entry the key held is not counted, and the sum of the rest cannot wrap. -/
private theorem Accounted.written (h : Accounted maxBytes s) (hmax : maxBytes < 2 ^ 63)
    (hsize : entry.size ≤ maxBytes) (key : String) :
    (s.written key entry).inner.Tracks
      (weight size (s.written key entry).inner.map) := by
  have hfits : weight size s.inner.map ≤ maxBytes := h.tracks.1 ▸ h.fits
  rw [written_map, weight_insert, add_comm]
  unfold CacheStore.written
  cases hold : s.inner.map.lookup key with
  | none =>
    rw [erase_of_lookup_eq_none hold]
    exact Inner.Tracks.addBytes h.tracks (by omega)
  | some old =>
    have hweight := weight_erase size hold
    refine Inner.Tracks.addBytes (Inner.Tracks.subBytes ?_) (by omega)
    rw [hweight]
    exact h.tracks

/-- The loop stops with the new entry in front and, behind it, what is left of the others. -/
private theorem insert_spec (h : Accounted maxBytes s) (hmax : maxBytes < 2 ^ 63)
    (hsize : entry.size ≤ maxBytes) (key : String) :
    ∃ kept evicted,
      (s.insert key entry).inner.map.entries = ⟨key, entry⟩ :: kept ∧
      (s.inner.map.erase key).entries = kept ++ evicted ∧
      entry.size + weightOf size kept ≤ maxBytes ∧
      (∀ rest, rest ≠ [] → rest <+: evicted →
        maxBytes < entry.size + weightOf size (kept ++ rest)) ∧
      Accounted maxBytes (s.insert key entry) := by
  obtain ⟨evicted, hev⟩ := evictToBudget_spec _ (h.written hmax hsize key)
  have hbudget : (s.written key entry).maxBytes = maxBytes := h.budget
  have hentries := hev.entries
  rw [written_map, entries_insert] at hentries
  -- the loop takes from the back and leaves one entry, so the new one is still in front
  obtain ⟨kept, hkept⟩ : ∃ kept,
      (evictToBudget (s.written key entry)).inner.map.entries = ⟨key, entry⟩ :: kept := by
    have hne := hev.leaves (by rw [written_map, entries_insert]; exact cons_ne_nil _ _)
    obtain ⟨e, kept, hcons⟩ := exists_cons_of_ne_nil hne
    rw [hcons, cons_append, List.cons.injEq] at hentries
    exact ⟨kept, hentries.1 ▸ hcons⟩
  have hbytes : (evictToBudget (s.written key entry)).inner.bytes =
      entry.size + weightOf size kept := by
    rw [hev.tracks.1, weight, hkept, weightOf_cons]
  have hfits : entry.size + weightOf size kept ≤ maxBytes := by
    rcases hev.stops with hle | hone
    · rwa [hbytes, hbudget] at hle
    · -- stopped at the last entry: the new one, which fits on its own
      rw [hkept, length_cons] at hone
      have hnil : kept = [] := length_eq_zero_iff.mp (by omega)
      rw [hnil, weightOf_nil]
      exact hsize
  rw [insert_eq (h.budget.symm ▸ hsize)]
  refine ⟨kept, evicted, hkept, ?_, hfits, ?_, ?_⟩
  · rw [hkept, cons_append, List.cons.injEq] at hentries
    exact hentries.2
  · intro rest hne hpre
    have hover := hev.overBudget rest hne hpre
    rwa [hkept, hbudget, cons_append, weightOf_cons] at hover
  · exact ⟨hev.budget.trans hbudget, hev.tracks, hbytes ▸ hfits⟩

theorem insert_of_lt (hsize : s.maxBytes < entry.size) : s.insert key entry = s := by
  rw [CacheStore.insert, if_pos hsize]

theorem Accounted.apply (h : Accounted maxBytes s) (hmax : maxBytes < 2 ^ 63) (op : Op) :
    Accounted maxBytes (s.apply op) := by
  cases op with
  | get key => exact h.get key
  | insert key entry =>
    by_cases hsize : entry.size ≤ maxBytes
    · obtain ⟨_, _, -, -, -, -, hacc⟩ := insert_spec h hmax hsize key
      exact hacc
    · rw [CacheStore.apply, insert_of_lt (h.budget.symm ▸ not_le.mp hsize)]
      exact h
  | remove key => exact h.remove key
  | evictExpired now => exact h.foldl_evict _

theorem Accounted.foldl_apply (h : Accounted maxBytes s) (hmax : maxBytes < 2 ^ 63)
    (ops : List Op) : Accounted maxBytes (ops.foldl CacheStore.apply s) := by
  induction ops generalizing s with
  | nil => exact h
  | cons op ops ih => exact ih (h.apply hmax op)

theorem accounted_afterCalls (hmax : maxBytes < 2 ^ 63) (ops : List Op) :
    Accounted maxBytes (afterCalls maxBytes ops) :=
  (accounted_new maxBytes).foldl_apply hmax ops

/-! ## Least recently used first -/

/-- The entries held, least recently used first. -/
def lruOrder (s : CacheStore) : List (Σ _ : String, StoredResponse) := s.inner.map.entries.reverse

/-- The entries under other keys, least recently used first. -/
def othersLru (s : CacheStore) (key : String) : List (Σ _ : String, StoredResponse) :=
  (s.inner.map.erase key).entries.reverse

/-- The new entry comes first, then what the shortest eviction that makes room leaves. -/
def MakesRoom (s : CacheStore) (key : String) (entry : StoredResponse) (t : CacheStore) : Prop :=
  ∃ n, t.lruOrder = (s.othersLru key).drop n ++ [⟨key, entry⟩] ∧
    entry.size + weightOf size ((s.othersLru key).drop n) ≤ s.maxBytes ∧
    ∀ j < n, s.maxBytes < entry.size + weightOf size ((s.othersLru key).drop j)

theorem Accounted.makesRoom (h : Accounted maxBytes s) (hmax : maxBytes < 2 ^ 63)
    (hsize : entry.size ≤ maxBytes) : MakesRoom s key entry (s.insert key entry) := by
  obtain ⟨kept, evicted, hins, hothers, hfits, hover, -⟩ := insert_spec h hmax hsize key
  have hlru : s.othersLru key = evicted.reverse ++ kept.reverse := by
    rw [othersLru, hothers, reverse_append]
  have hdrop : (s.othersLru key).drop evicted.length = kept.reverse := by
    rw [hlru, ← length_reverse, drop_left]
  refine ⟨evicted.length, ?_, ?_, ?_⟩
  · rw [lruOrder, hins, hdrop, reverse_cons]
  · rw [hdrop, weightOf_reverse, h.budget]
    exact hfits
  · intro j hj
    -- dropping fewer leaves a non-empty part of what was evicted
    have hsplit : (s.othersLru key).drop j =
        (kept ++ evicted.take (evicted.length - j)).reverse := by
      rw [hlru, drop_append_of_le_length (by rw [length_reverse]; omega), drop_reverse,
        reverse_append]
    rw [hsplit, weightOf_reverse, h.budget]
    refine hover _ ?_ (List.take_prefix _ _)
    rw [Ne, take_eq_nil_iff, not_or]
    exact ⟨by omega, ne_nil_of_length_pos (by omega)⟩

/-- **Cache store accounting.** The count is the sum of the sizes held, within the budget, and no
subtraction has saturated; the next insertion that fits evicts the shortest possible prefix. -/
theorem accounted_and_makesRoom_afterCalls (maxBytes : ℕ) (hmax : maxBytes < 2 ^ 63)
    (ops : List Op) :
    Accounted maxBytes (afterCalls maxBytes ops) ∧
      ∀ key (entry : StoredResponse), entry.size ≤ maxBytes →
        MakesRoom (afterCalls maxBytes ops) key entry
          ((afterCalls maxBytes ops).insert key entry) :=
  ⟨accounted_afterCalls hmax ops,
    fun _ _ hsize ↦ (accounted_afterCalls hmax ops).makesRoom hmax hsize⟩

/-- A response with a body of `n` bytes. -/
private def ofSize (n : ℕ) : StoredResponse :=
  ⟨200, [], List.replicate n 0, 0, 60, 0, none, none, [], 0, 0⟩

/-- Two entries of four and five bytes fill a budget of ten; a third one of four makes room. -/
theorem makesRoom_of_ten_bytes :
    let s := afterCalls 10 [.insert "a" (ofSize 4), .insert "b" (ofSize 5), .get "a"]
    Accounted 10 s ∧ (ofSize 4).size ≤ 10 ∧ MakesRoom s "c" (ofSize 4) (s.insert "c" (ofSize 4)) :=
  have h := accounted_and_makesRoom_afterCalls 10 (by decide)
    [.insert "a" (ofSize 4), .insert "b" (ofSize 5), .get "a"]
  ⟨h.1, by decide, h.2 "c" (ofSize 4) (by decide)⟩

end CacheStore

end Hypershunt
