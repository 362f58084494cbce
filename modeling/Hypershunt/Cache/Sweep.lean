import Hypershunt.Cache.Serve

/-!
# The sweeper and the stale windows

A lookup has uses for an entry that is no longer fresh: within the window for
`stale-while-revalidate` it serves it, and within the one for `stale-if-error` it keeps it in
reserve. The sweeper knows nothing of windows. It takes every entry that is not fresh, so whether a
lookup finds a stale entry depends on whether the sweeper came by since it went stale.

Here the store is driven by any sequence of operations, and compared with the same sequence without
the sweeps.
-/

namespace Hypershunt

namespace Cache

open Duration StoreOp Option

variable {T : Type} {dates : HttpDate} {s : CacheStore} {key : String} {entry e : StoredResponse}
  {ops : List (StoreOp T)}

/-- The store after a sequence of operations. -/
def applyAll (s : CacheStore) (ops : List (StoreOp T)) : CacheStore := ops.foldl apply s

def StoreOp.isSweep : StoreOp T → Bool
  | .sweep _ => true
  | _ => false

/-- The same operations without the sweeps. -/
def unswept (ops : List (StoreOp T)) : List (StoreOp T) := ops.filter fun op ↦ !op.isSweep

/-- No insertion of the sequence changes what is under the key: none replaces it, none evicts it. -/
def Undisturbed (key : String) : CacheStore → List (StoreOp T) → Prop
  | _, [] => True
  | s, op :: ops =>
    (∀ k entry source, op = .insert k entry source → (op.apply s).peek key = s.peek key) ∧
      Undisturbed key (op.apply s) ops

/-- The operation leaves an entry alone that it finds under the key, insertions apart. -/
def StoreOp.spares (key : String) (e : StoredResponse) : StoreOp T → Bool
  | .remove k => decide (k ≠ key)
  | .sweep now => e.isFresh now
  | _ => true

theorem filter_of_spared {o : Option StoredResponse} : o = o.filter fun _ ↦ true := by
  rcases o with _ | e <;> rfl

theorem peek_apply (op : StoreOp T)
    (hkept : ∀ k entry source, op = .insert k entry source →
      (op.apply s).peek key = s.peek key) :
    (op.apply s).peek key = (s.peek key).filter fun e ↦ op.spares key e := by
  cases op with
  | keep => exact filter_of_spared
  | get k =>
    rw [apply, CacheStore.peek_get]
    exact filter_of_spared
  | remove k =>
    rw [apply, CacheStore.peek_remove]
    by_cases hk : key = k
    · simp [spares, hk]
    · simpa [spares, hk, Ne.symm hk] using filter_of_spared
  | insert k entry source =>
    rw [hkept k entry source rfl]
    exact filter_of_spared
  | sweep now => exact CacheStore.peek_evictExpired s key now

theorem peek_applyAll (hkept : Undisturbed key s ops) :
    (applyAll s ops).peek key = (s.peek key).filter fun e ↦ ops.all (spares key e) := by
  induction ops generalizing s with
  | nil => exact filter_of_spared
  | cons op ops ih =>
    rw [applyAll, List.foldl_cons, ← applyAll, ih hkept.2, peek_apply op hkept.1, filter_filter]
    rfl

theorem all_spares_iff : ops.all (spares key e) = true ↔
    .remove key ∉ ops ∧ ∀ now, .sweep now ∈ ops → e.isFresh now = true := by
  rw [List.all_eq_true]
  constructor
  · intro hall
    refine ⟨fun hremove ↦ ?_, fun now hsweep ↦ hall _ hsweep⟩
    have hspared := hall _ hremove
    simp [spares] at hspared
  · rintro ⟨hremove, hsweeps⟩ op hop
    cases op with
    | remove k => exact decide_eq_true fun hk ↦ hremove (hk ▸ hop)
    | sweep now => exact hsweeps now hop
    | _ => rfl

theorem all_unswept_spares_iff : (unswept ops).all (spares key e) = true ↔
    .remove key ∉ ops := by
  rw [all_spares_iff, and_iff_left]
  · have hkept : (!(remove key : StoreOp T).isSweep) = true := rfl
    rw [unswept, List.mem_filter, and_iff_left hkept]
  · intro now hsweep
    rw [unswept, List.mem_filter] at hsweep
    exact absurd hsweep.2 Bool.false_ne_true

/-- A lookup has a use for the stale entry: while it is refreshed, or if the handler fails. -/
def UsableStale (dates : HttpDate) (e : StoredResponse) (h : HeaderMap) (now : Instant)
    (rcc : RequestCacheControl) : Prop :=
  (judge dates e h now rcc).1 = .staleWhileRevalidate e ∨
    (judge dates e h now rcc).1 = .revalidate e true

/-- **When the sweeper does not matter.** A lookup that has a use for a stale entry finds what it
would have found without the sweeps exactly when every sweep found the entry still fresh, or another
lookup dropped it in any case. -/
theorem lookup_unswept_iff (dates : HttpDate) (s : CacheStore) (key : String) (e : StoredResponse)
    (hpeek : s.peek key = some e) (ops : List (StoreOp T)) (hswept : Undisturbed key s ops)
    (hunswept : Undisturbed key s (unswept ops)) (h : HeaderMap) (now : Instant)
    (rcc : RequestCacheControl) (husable : UsableStale dates e h now rcc) :
    (lookup dates (applyAll s ops) key h now rcc).1 =
        (lookup dates (applyAll s (unswept ops)) key h now rcc).1 ↔
      .remove key ∈ ops ∨ ∀ swept, .sweep swept ∈ ops → e.isFresh swept = true := by
  have hne : Lookup.miss ≠ (judge dates e h now rcc).1 := by
    intro hmiss
    rcases husable with huse | huse <;> rw [huse] at hmiss <;> cases hmiss
  rw [lookup_fst, lookup_fst, peek_applyAll hswept, peek_applyAll hunswept, hpeek,
    filter_some, filter_some]
  by_cases hremove : .remove key ∈ ops
  · -- gone either way
    rw [if_neg (all_spares_iff.not.mpr fun hcon ↦ hcon.1 hremove),
      if_neg (all_unswept_spares_iff.not.mpr (not_not_intro hremove))]
    exact iff_of_true rfl (Or.inl hremove)
  rw [if_pos (all_unswept_spares_iff.mpr hremove), or_iff_right hremove, elim_some]
  by_cases hfresh : ∀ swept, .sweep swept ∈ ops → e.isFresh swept = true
  · rw [if_pos (all_spares_iff.mpr ⟨hremove, hfresh⟩), elim_some]
    exact iff_of_true rfl hfresh
  · rw [if_neg (all_spares_iff.not.mpr fun hcon ↦ hfresh hcon.2), elim_none]
    exact iff_of_false hne hfresh

/-- A minute of freshness, and half a minute in which it may be served stale. -/
private def minuteAndHalf : StoredResponse :=
  let cacheControl := "max-age=60, stale-while-revalidate=30"
  { StoredResponse.bare [("cache-control", cacheControl), ("content-length", "2")] (fromSecs 60) 0
    with swr := fromSecs 30 }

private def holding : CacheStore := (CacheStore.new 100).insert "k" minuteAndHalf

theorem lookup_unswept_of_early_sweep :
    UsableStale .blank minuteAndHalf [] (fromSecs 75) {} ∧
      (lookup .blank (applyAll holding [(.sweep (fromSecs 50) : StoreOp Unit)]) "k" []
          (fromSecs 75) {}).1 =
        (lookup .blank (applyAll holding (unswept [(.sweep (fromSecs 50) : StoreOp Unit)]))
          "k" [] (fromSecs 75) {}).1 := by
  have husable : UsableStale .blank minuteAndHalf [] (fromSecs 75) {} :=
    Or.inl (by decide +kernel)
  refine ⟨husable, (lookup_unswept_iff .blank holding "k" minuteAndHalf (by decide +kernel)
    [.sweep (fromSecs 50)] ⟨?_, trivial⟩ trivial [] (fromSecs 75) {} husable).mpr
      (Or.inr ?_)⟩
  · intro k entry source hop
    cases hop
  · intro swept hmem
    rw [List.mem_singleton, sweep.injEq] at hmem
    rw [hmem]
    decide +kernel

/-- A sweep ten seconds into the window: a lookup five seconds later misses. -/
theorem swept_within_window :
    UsableStale .blank minuteAndHalf [] (fromSecs 75) {} ∧
      (lookup .blank holding "k" [] (fromSecs 75) {}).1 =
        .staleWhileRevalidate minuteAndHalf ∧
      (lookup .blank (applyAll holding [(.sweep (fromSecs 70) : StoreOp Unit)]) "k" []
        (fromSecs 75) {}).1 = .miss := by
  refine ⟨Or.inl ?_, ?_, ?_⟩ <;> decide +kernel

end Cache

end Hypershunt
