import Mathlib.Data.List.Forall2

/-!
# Computations that may fail

Inversion of the `Except` monad: what a successful sequence of fallible steps says about each of
its steps. The errors of input and output are those of the standard library.
-/

namespace Hypershunt

open List

/-- The kinds of input and output errors that are raised by hand. -/
inductive ErrorKind
  | invalidData
  | unexpectedEof
  deriving DecidableEq

/-- `io::Error`. -/
structure IoError where
  kind : ErrorKind
  message : String
  deriving DecidableEq

universe u v

variable {ε : Type u} {α β : Type v}

variable {x : Except ε α} {b : β} {e : ε} {γ : Type*} {l' : List β} {f : γ → Except ε β}
  {l : List γ}

theorem eq_ok_of_toOption {a : α} (h : x.toOption = some a) : x = .ok a := by
  cases x with
  | error e => cases h
  | ok a' => exact congrArg _ (Option.some.inj h)

theorem bind_eq_ok_iff {f : α → Except ε β} : x >>= f = .ok b ↔ ∃ a, x = .ok a ∧ f a = .ok b := by
  cases x with
  | error e => simp [bind, Except.bind]
  | ok a => simp [bind, Except.bind]

theorem bind_eq_error_iff {f : α → Except ε β} :
    x >>= f = .error e ↔ x = .error e ∨ ∃ a, x = .ok a ∧ f a = .error e := by
  cases x with
  | error e' => simp [bind, Except.bind]
  | ok a => simp [bind, Except.bind]

theorem map_eq_ok_iff {f : α → β} : f <$> x = .ok b ↔ ∃ a, x = .ok a ∧ f a = b := by
  cases x with
  | error e => simp [Functor.map, Except.map]
  | ok a => simp [Functor.map, Except.map]

theorem map_eq_error_iff {f : α → β} : f <$> x = .error e ↔ x = .error e := by
  cases x with
  | error e' => simp [Functor.map, Except.map]
  | ok a => simp [Functor.map, Except.map]

theorem mapError_eq_ok_iff {ε' : Type*} {f : ε → ε'} {a : α} :
    x.mapError f = .ok a ↔ x = .ok a := by
  cases x with
  | error e => simp [Except.mapError]
  | ok a' => simp [Except.mapError]

theorem ite_error_eq_ok_iff {c : Prop} [Decidable c] {a : α} :
    (if c then .error e else x) = .ok a ↔ ¬c ∧ x = .ok a := by
  by_cases hc : c
  · simp [hc]
  · simp [hc]

theorem eq_or_of_ite_error_eq_error {c : Prop} [Decidable c] {e' : ε}
    (h : (if c then .error e else x) = .error e') : e' = e ∨ x = .error e' := by
  by_cases hc : c
  · rw [if_pos hc, Except.error.injEq] at h
    exact Or.inl h.symm
  · rw [if_neg hc] at h
    exact Or.inr h

theorem mapM_eq_ok_iff : l.mapM f = .ok l' ↔ List.Forall₂ (fun a b ↦ f a = .ok b) l l' := by
  induction l generalizing l' with
  | nil =>
    rw [mapM_nil, forall₂_nil_left_iff]
    exact ⟨fun h ↦ (Except.ok.inj h).symm, fun h ↦ congrArg Except.ok h.symm⟩
  | cons a l ih =>
    rw [mapM_cons, bind_eq_ok_iff, forall₂_cons_left_iff]
    refine exists_congr fun b ↦ ?_
    rw [bind_eq_ok_iff]
    constructor
    · rintro ⟨hb, bs, hbs, h⟩
      exact ⟨bs, hb, ih.mp hbs, (Except.ok.inj h).symm⟩
    · rintro ⟨bs, hb, hbs, rfl⟩
      exact ⟨hb, bs, ih.mpr hbs, rfl⟩

theorem exists_mapM_eq_ok (h : ∀ a ∈ l, ∃ b, f a = .ok b) : ∃ l', l.mapM f = .ok l' := by
  induction l with
  | nil => exact ⟨[], rfl⟩
  | cons a l ih =>
    obtain ⟨b, hb⟩ := h a mem_cons_self
    obtain ⟨l', hl'⟩ := ih fun a ha ↦ h a (mem_cons_of_mem _ ha)
    exact ⟨b :: l', mapM_eq_ok_iff.mpr (.cons hb (mapM_eq_ok_iff.mp hl'))⟩

theorem length_of_mapM_eq_ok (h : l.mapM f = .ok l') : l'.length = l.length :=
  (mapM_eq_ok_iff.mp h).length_eq.symm

theorem exists_of_mem_mapM (h : l.mapM f = .ok l') (hb : b ∈ l') : ∃ a ∈ l, f a = .ok b := by
  have hall := mapM_eq_ok_iff.mp h
  clear h
  induction hall with
  | nil => cases hb
  | cons hab _ ih =>
    rcases mem_cons.mp hb with rfl | hb
    · exact ⟨_, mem_cons_self, hab⟩
    · obtain ⟨a', ha', h'⟩ := ih hb
      exact ⟨a', mem_cons_of_mem _ ha', h'⟩

/-- A traversal with a function applied to every result. -/
theorem mapM_map_comm {β' : Type v} (f : γ → Except ε β) (g : β → β') (l : List γ) :
    l.mapM (fun a ↦ g <$> f a) = List.map g <$> l.mapM f := by
  induction l with
  | nil => rfl
  | cons a l ih =>
    rw [mapM_cons, mapM_cons, ih]
    rcases f a with _ | b
    · rfl
    · rcases l.mapM f with _ | bs
      · rfl
      · rfl

/-- What a traversal gives, where its results can be found without failing. -/
theorem filterMap_of_mapM_eq_ok {g : γ → Option β} (hfg : ∀ a ∈ l, ∀ b, f a = .ok b → g a = some b)
    (h : l.mapM f = .ok l') : l.filterMap g = l' := by
  have hall := mapM_eq_ok_iff.mp h
  clear h
  induction hall with
  | nil => rfl
  | cons hab _ ih =>
    rw [filterMap_cons_some (hfg _ mem_cons_self _ hab), ih fun a ha ↦ hfg a (mem_cons_of_mem _ ha)]

theorem getElem?_of_mapM_eq_ok (h : l.mapM f = .ok l') {i : ℕ} {a : γ} (ha : l[i]? = some a) :
    ∃ b, f a = .ok b ∧ l'[i]? = some b := by
  have hall := mapM_eq_ok_iff.mp h
  clear h
  induction hall generalizing i with
  | nil => simp at ha
  | cons hab _ ih =>
    cases i with
    | zero =>
      rw [getElem?_cons_zero, Option.some.injEq] at ha
      exact ⟨_, ha ▸ hab, rfl⟩
    | succ i => exact ih ha

section Fold

variable {σ γ : Type*} {f : σ → γ → Except ε σ} {l : List γ} {s s' : σ}

/-- A loop that fails has gone on to the element it fails at. -/
theorem foldlM_eq_error {e : ε} (h : l.foldlM f s = .error e) :
    ∃ l₁ a l₂ t, l = l₁ ++ a :: l₂ ∧ l₁.foldlM f s = .ok t ∧ f t a = .error e := by
  induction l generalizing s with
  | nil => cases h
  | cons a l ih =>
    rw [foldlM_cons] at h
    rcases hstep : f s a with e' | t
    · rw [hstep] at h
      obtain rfl : e' = e := Except.error.inj h
      exact ⟨[], a, l, s, rfl, rfl, hstep⟩
    · rw [hstep] at h
      obtain ⟨l₁, b, l₂, t', rfl, hok, herror⟩ := ih h
      refine ⟨a :: l₁, b, l₂, t', rfl, ?_, herror⟩
      rw [foldlM_cons, hstep]
      exact hok

/-- What relates the states around one round of a loop relates those around the loop. -/
theorem rel_of_foldlM_eq_ok {R : σ → σ → Prop} (hrefl : ∀ s, R s s)
    (htrans : ∀ {s t u}, R s t → R t u → R s u) (hf : ∀ {s t a}, f s a = .ok t → R s t)
    (h : l.foldlM f s = .ok s') : R s s' := by
  induction l generalizing s with
  | nil =>
    cases h
    exact hrefl _
  | cons a l ih =>
    rw [foldlM_cons, bind_eq_ok_iff] at h
    obtain ⟨t, ht, h⟩ := h
    exact htrans (hf ht) (ih h)

end Fold

end Hypershunt
