import Hypershunt.Foundation.Dependency

/-!
# Recursion with memory

The values of the keys `0, 1, …` are computed when they are asked for, and kept in slots. What such
a computation does is said by `Freezes`: it ends whatever is in the slots, its result follows from
the values that are in the slots afterwards, and a slot it has filled has the value that the
equations `F` give for the other slots. A slot that was filled before may have any value.

If the slots start out with solutions of the equations, or empty, then along dependencies without
cycles this makes all results those of the solution (`Freezes.run_eq`).
-/

namespace Hypershunt

/-- Values that are computed once. -/
abbrev Slots (α : Type*) := List (Option α)

namespace Slots

variable {α β γ : Type} {s s' t : Slots α} {σ : ℕ → α} {k n : ℕ} {a : α}

def value (s : Slots α) (k : ℕ) : Option α := s[k]?.join

def fresh (n : ℕ) : Slots α := List.replicate n none

@[simp] theorem value_fresh : (fresh n : Slots α).value k = none := by
  rw [value, fresh, List.getElem?_replicate]
  split_ifs <;> rfl

/-- `OnceLock::set`, which leaves a value as it is. -/
def set (k : ℕ) (a : α) (s : Slots α) : Slots α :=
  if s.value k = none then List.set s k (some a) else s

/-- What a computation leaves as it was. -/
structure Grows (s s' : Slots α) : Prop where
  length_eq : s'.length = s.length
  value_eq : ∀ {k a}, s.value k = some a → s'.value k = some a

theorem Grows.refl (s : Slots α) : Grows s s := ⟨rfl, id⟩

theorem Grows.trans (h : Grows s s') (h' : Grows s' t) : Grows s t :=
  ⟨h'.length_eq.trans h.length_eq, fun hk ↦ h'.value_eq (h.value_eq hk)⟩

theorem value_listSet {j : ℕ} (hk : k < s.length) :
    value (List.set s k (some a)) j = if j = k then some a else s.value j := by
  rw [value, List.getElem?_set]
  by_cases hj : j = k
  · simp [hj, hk]
  · simp [hj, Ne.symm hj, value]

theorem grows_listSet (hk : k < s.length) (hnone : s.value k = none) :
    Grows s (List.set s k (some a)) := by
  refine ⟨List.length_set, fun {j b} hj ↦ ?_⟩
  rw [value_listSet hk, if_neg, hj]
  rintro rfl
  cases hnone.symm.trans hj

/-- Values that agree with what is in the slots. -/
def Extends (σ : ℕ → α) (s : Slots α) : Prop := ∀ {k a}, s.value k = some a → σ k = a

theorem Extends.of_grows (h : Extends σ s') (hgrows : Grows s s') : Extends σ s :=
  fun hk ↦ h (hgrows.value_eq hk)

/-- The values in the slots, with others where there are none. -/
def overlay (s : Slots α) (σ : ℕ → α) (k : ℕ) : α := (s.value k).getD (σ k)

theorem extends_overlay (s : Slots α) (σ : ℕ → α) : Extends (s.overlay σ) s := by
  intro k a hk
  rw [overlay, hk, Option.getD_some]

/-! ## Computations -/

/-- The computation ends with `p` of the values in the slots, and fills slots in `U` as `F` says. -/
def Freezes (F : (ℕ → α) → ℕ → α) (U : Set ℕ) (n : ℕ) (x : StateT (Slots α) Option β)
    (p : (ℕ → α) → β) : Prop :=
  ∀ s, s.length = n → ∃ b s', x.run s = some (b, s') ∧ Grows s s' ∧ ∀ σ, Extends σ s' →
    b = p σ ∧ ∀ k a, s'.value k = some a → s.value k = some a ∨ k ∈ U ∧ a = F σ k

namespace Freezes

variable {F : (ℕ → α) → ℕ → α} {U U' : Set ℕ} {x : StateT (Slots α) Option β} {p : (ℕ → α) → β}

theorem pure (b : β) : Freezes F U n (Pure.pure b) fun _ ↦ b :=
  fun s _ ↦ ⟨b, s, rfl, Grows.refl s, fun _ _ ↦ ⟨rfl, fun _ _ ↦ Or.inl⟩⟩

theorem bind {f : β → StateT (Slots α) Option γ} {q : β → (ℕ → α) → γ} (hx : Freezes F U n x p)
    (hf : ∀ b, Freezes F U n (f b) (q b)) : Freezes F U n (x >>= f) fun σ ↦ q (p σ) σ := by
  intro s hs
  obtain ⟨b, t, hrun, hgrows, hb⟩ := hx s hs
  obtain ⟨c, s', hrun', hgrows', hc⟩ := hf b t (hgrows.length_eq.trans hs)
  refine ⟨c, s', ?_, hgrows.trans hgrows', fun σ hσ ↦ ?_⟩
  · rw [StateT.run_bind, hrun]
    exact hrun'
  · obtain ⟨rfl, hold⟩ := hb σ (hσ.of_grows hgrows')
    obtain ⟨rfl, hnew⟩ := hc σ hσ
    exact ⟨rfl, fun k a hk ↦ (hnew k a hk).elim (hold k a) Or.inr⟩

theorem map (hx : Freezes F U n x p) (g : β → γ) : Freezes F U n (g <$> x) fun σ ↦ g (p σ) := by
  intro s hs
  obtain ⟨b, s', hrun, hgrows, hb⟩ := hx s hs
  refine ⟨g b, s', ?_, hgrows, fun σ hσ ↦ ⟨congrArg g (hb σ hσ).1, (hb σ hσ).2⟩⟩
  rw [StateT.run_map, hrun]
  rfl

theorem mono (hx : Freezes F U n x p) (hU : U ⊆ U') : Freezes F U' n x p := by
  intro s hs
  obtain ⟨b, s', hrun, hgrows, hb⟩ := hx s hs
  refine ⟨b, s', hrun, hgrows, fun σ hσ ↦ ⟨(hb σ hσ).1, fun k a hk ↦ ?_⟩⟩
  exact ((hb σ hσ).2 k a hk).imp_right fun h ↦ ⟨hU h.1, h.2⟩

theorem congr {y : StateT (Slots α) Option β} (hx : Freezes F U n x p)
    (hxy : ∀ s, s.length = n → y.run s = x.run s) : Freezes F U n y p := by
  intro s hs
  rw [hxy s hs]
  exact hx s hs

theorem foldlM {δ : Type} {l : List δ} {f : β → δ → StateT (Slots α) Option β}
    {g : (ℕ → α) → β → δ → β} (hf : ∀ b, ∀ d ∈ l, Freezes F U n (f b d) fun σ ↦ g σ b d) (b : β) :
    Freezes F U n (l.foldlM f b) fun σ ↦ l.foldl (g σ) b := by
  induction l generalizing b with
  | nil => exact Freezes.pure b
  | cons d l ih =>
    rw [List.foldlM_cons]
    exact (hf b d List.mem_cons_self).bind fun c ↦
      ih (fun b e he ↦ hf b e (List.mem_cons_of_mem d he)) c

end Freezes

/-- The value of a slot, computed on first use and read back. -/
def once (k : ℕ) (default : α) (x : StateT (Slots α) Option α) : StateT (Slots α) Option α := do
  match (← get).value k with
  | some a => return a
  | none =>
    let a ← x
    modify (set k a)
    return ((← get).value k).getD default

/-- The value of a slot, computed on first use and written. -/
def stored (k : ℕ) (x : StateT (Slots α) Option α) : StateT (Slots α) Option α := do
  match (← get).value k with
  | some a => return a
  | none =>
    let a ← x
    modify fun s ↦ List.set s k (some a)
    return a

variable {x : StateT (Slots α) Option α}

theorem run_once_of_some {d : α} (h : s.value k = some a) : (once k d x).run s = some (a, s) := by
  simp [once, h]

theorem run_once_of_none {d : α} (h : s.value k = none) (hx : x.run s = some (a, s')) :
    (once k d x).run s = some (((s'.set k a).value k).getD d, s'.set k a) := by
  simp [once, h, hx]

theorem run_stored_of_some (h : s.value k = some a) : (stored k x).run s = some (a, s) := by
  simp [stored, h]

theorem run_stored_of_none (h : s.value k = none) (hx : x.run s = some (a, s')) :
    (stored k x).run s = some (a, List.set s' k (some a)) := by
  simp [stored, h, hx]

theorem value_of_run_stored (hlength : k < s'.length) (h : (stored k x).run s = some (a, s')) :
    s'.value k = some a := by
  rcases hk : s.value k with _ | b
  · rcases hx : x.run s with _ | ⟨b, t⟩
    · simp [stored, hk, hx] at h
    · rw [run_stored_of_none hk hx, Option.some.injEq, Prod.mk.injEq] at h
      obtain ⟨rfl, rfl⟩ := h
      rw [List.length_set] at hlength
      rw [value_listSet hlength, if_pos rfl]
  · rw [run_stored_of_some hk, Option.some.injEq, Prod.mk.injEq] at h
    obtain ⟨rfl, rfl⟩ := h
    exact hk

namespace Freezes

variable {F : (ℕ → α) → ℕ → α} {U U' : Set ℕ} {x : StateT (Slots α) Option α}

/-- A slot that is filled last has the value that was computed for it. -/
theorem listSet (hx : Freezes F U n x fun σ ↦ F σ k) (hkn : k < n) (hkU : k ∈ U') (hU : U ⊆ U')
    (hs : s.length = n) (hrun : x.run s = some (a, s')) (hnone : s'.value k = none) :
    Grows s (List.set s' k (some a)) ∧ ∀ σ, Extends σ (List.set s' k (some a)) → a = σ k ∧
      ∀ j b, value (List.set s' k (some a)) j = some b →
        s.value j = some b ∨ j ∈ U' ∧ b = F σ j := by
  obtain ⟨a', t, hrun', hgrows, ha⟩ := hx s hs
  obtain ⟨rfl, rfl⟩ : a' = a ∧ t = s' := by simpa using hrun'.symm.trans hrun
  have hk : k < t.length := by rw [hgrows.length_eq, hs]; exact hkn
  have hset : Grows t (List.set t k (some a')) := grows_listSet hk hnone
  refine ⟨hgrows.trans hset, fun σ hσ ↦ ⟨?_, fun j b hj ↦ ?_⟩⟩
  · exact (hσ ((value_listSet hk).trans (if_pos rfl))).symm
  · obtain ⟨hvalue, hnew⟩ := ha σ (hσ.of_grows hset)
    rw [value_listSet hk] at hj
    split_ifs at hj with hjk
    · obtain rfl := Option.some.inj hj
      exact Or.inr ⟨hjk ▸ hkU, hjk ▸ hvalue⟩
    · exact (hnew j b hj).imp_right fun h ↦ ⟨hU h.1, h.2⟩

/-- **The rule for `once`.** -/
theorem once (d : α) (hx : Freezes F U n x fun σ ↦ F σ k) (hkn : k < n) (hkU : k ∈ U') (hU : U ⊆ U')
    : Freezes F U' n (Slots.once k d x) fun σ ↦ σ k := by
  intro s hs
  rcases hk : s.value k with _ | a
  · obtain ⟨a, s', hrun, hgrows, ha⟩ := hx s hs
    rcases hk' : s'.value k with _ | b
    · obtain ⟨hgrows', ha'⟩ := hx.listSet hkn hkU hU hs hrun hk'
      refine ⟨a, List.set s' k (some a), ?_, hgrows', ha'⟩
      have hlt : k < s'.length := by rw [hgrows.length_eq, hs]; exact hkn
      rw [run_once_of_none hk hrun, Slots.set, if_pos hk', value_listSet hlt, if_pos rfl,
        Option.getD_some]
    · refine ⟨b, s', ?_, hgrows, fun σ hσ ↦ ⟨(hσ hk').symm, fun j c hj ↦ ?_⟩⟩
      · rw [run_once_of_none hk hrun, Slots.set, if_neg (by simp [hk']), hk', Option.getD_some]
      · exact ((ha σ hσ).2 j c hj).imp_right fun h ↦ ⟨hU h.1, h.2⟩
  · exact ⟨a, s, run_once_of_some hk, Grows.refl s, fun σ hσ ↦ ⟨(hσ hk).symm, fun _ _ ↦ Or.inl⟩⟩

/-- **The rule for `stored`**, where the computation does not come back to the slot. -/
theorem stored (hx : Freezes F U n x fun σ ↦ F σ k) (hkn : k < n) (hkU : k ∈ U') (hU : U ⊆ U')
    (hk' : k ∉ U) : Freezes F U' n (Slots.stored k x) fun σ ↦ σ k := by
  intro s hs
  rcases hk : s.value k with _ | a
  · obtain ⟨a, s', hrun, -, ha⟩ := hx s hs
    have hnone : s'.value k = none := by
      by_contra hsome
      obtain ⟨b, hb⟩ := Option.ne_none_iff_exists'.mp hsome
      rcases (ha _ (extends_overlay s' fun _ ↦ a)).2 k b hb with hold | hnew
      · cases hk.symm.trans hold
      · exact hk' hnew.1
    obtain ⟨hgrows', ha'⟩ := hx.listSet hkn hkU hU hs hrun hnone
    exact ⟨a, List.set s' k (some a), run_stored_of_none hk hrun, hgrows', ha'⟩
  · exact ⟨a, s, run_stored_of_some hk, Grows.refl s, fun σ hσ ↦ ⟨(hσ hk).symm, fun _ _ ↦ Or.inl⟩⟩

end Freezes

/-! ## Results -/

section Solution

open Dependency

variable {F : (ℕ → α) → ℕ → α} {U : Set ℕ} {x : StateT (Slots α) Option β} {p : (ℕ → α) → β}
  {deps : ℕ → List ℕ} {vs : List ℕ}

/-- **Memory makes no difference** where the slots hold solutions of the equations. -/
theorem Freezes.run_eq (hx : Freezes F U n x p) (hclosed : Closed deps vs)
    (hacyclic : Acyclic deps) (hF : Closed.Local deps F)
    (hU : ∀ k ∈ U, k ∈ vs ∧ ∀ j ∈ deps k, j ∈ U)
    (hp : ∀ ⦃σ τ⦄, (∀ k ∈ U, σ k = τ k) → p σ = p τ) (hσ : ∀ k ∈ U, σ k = F σ k)
    (hs : s.length = n) (hold : ∀ k ∈ U, ∀ a, s.value k = some a → a = σ k) :
    ∃ s', x.run s = some (p σ, s') ∧ Grows s s' ∧
      ∀ k a, s'.value k = some a → s.value k = some a ∨ k ∈ U ∧ a = σ k := by
  obtain ⟨b, s', hrun, hgrows, hb⟩ := hx s hs
  obtain ⟨hvalue, hnew⟩ := hb (s'.overlay σ) (extends_overlay s' σ)
  have hoverlay : ∀ k ∈ U, s'.overlay σ k = σ k := by
    intro k hk
    refine hclosed.induction_on (P := fun k ↦ k ∈ U → s'.overlay σ k = σ k) hacyclic ?_
      (hU k hk).1 hk
    intro k _ ih hk
    rcases hslot : s'.value k with _ | a
    · rw [overlay, hslot, Option.getD_none]
    · rw [overlay, hslot, Option.getD_some]
      rcases hnew k a hslot with hbefore | ⟨-, rfl⟩
      · exact hold k hk a hbefore
      · rw [hσ k hk]
        exact hF fun j hj ↦ ih j hj ((hU k hk).2 j hj)
  refine ⟨s', ?_, hgrows, fun k a hk ↦ ?_⟩
  · rw [hrun, hvalue, hp hoverlay]
  · refine (hnew k a hk).imp_right fun h ↦ ⟨h.1, ?_⟩
    rw [← hoverlay k h.1, overlay, hk, Option.getD_some]

end Solution

end Slots

end Hypershunt
