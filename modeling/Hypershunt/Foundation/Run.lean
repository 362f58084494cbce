import Mathlib.Data.List.Induction
import Mathlib.Logic.Relation

/-!
# Runs of a partial step function

Concurrent code is modelled by a step function `σ → α → Option σ`: an action names the section of
code that runs next together with whatever the environment answers, and `none` says that the
action is not enabled. A run is a list of actions, so *every interleaving* is a quantifier over
lists.

## States along a run

`Always` speaks about every state a run visits and `AllSteps` about every step it takes, in the
state the step is taken from. The two meet in `always_iff_allSteps`: when the steps that break a
property are exactly those that violate a guard, a run keeps the property precisely when none of
its steps violates the guard.
-/

namespace Hypershunt

open List Option

variable {σ α : Type*}

/-- Execute the actions in order; `none` once one of them is not enabled. -/
def run (step : σ → α → Option σ) : σ → List α → Option σ
  | s, [] => some s
  | s, a :: as => (step s a).bind fun t ↦ run step t as

variable {step : σ → α → Option σ} {s t : σ} {a : α} {as : List α}

@[simp] theorem run_nil : run step s [] = some s := rfl

theorem run_cons : run step s (a :: as) = (step s a).bind fun t ↦ run step t as := rfl

theorem run_append (as bs : List α) :
    run step s (as ++ bs) = (run step s as).bind fun t ↦ run step t bs := by
  induction as generalizing s with
  | nil => rfl
  | cons a as ih =>
    rw [cons_append, run_cons, run_cons, bind_assoc]
    congr 1
    funext t
    exact ih

/-- The last step of a run, split off. -/
theorem run_concat : run step s (as ++ [a]) = (run step s as).bind fun t ↦ step t a := by
  rw [run_append]
  congr 1
  funext t
  rw [run_cons]
  cases step t a <;> rfl

theorem run_concat_of_eq_some {t' : σ} (ht : run step s as = some t) (hstep : step t a = some t') :
    run step s (as ++ [a]) = some t' := by
  rw [run_concat, ht, bind_some, hstep]

variable {Inv P : σ → Prop} {ok : σ → α → Prop}

/-- **The invariant rule**: what holds at the start and is kept by every step holds at the end. -/
theorem run_induction (h0 : Inv s) (hstep : ∀ s a t, Inv s → step s a = some t → Inv t)
    (h : run step s as = some t) : Inv t := by
  induction as generalizing s with
  | nil =>
    rw [run_nil, Option.some.injEq] at h
    exact h ▸ h0
  | cons a as ih =>
    rw [run_cons, bind_eq_some_iff] at h
    obtain ⟨u, hu, hrun⟩ := h
    exact ih (hstep s a u h0 hu) hrun

/-- `P` holds in every state the run visits, the first and the last included. -/
def Always (step : σ → α → Option σ) (P : σ → Prop) (s : σ) (as : List α) : Prop :=
  ∀ pre, pre <+: as → ∀ t, run step s pre = some t → P t

/-- Every step of the run meets `ok` in the state it is taken from. -/
def AllSteps (step : σ → α → Option σ) (ok : σ → α → Prop) (s : σ) (as : List α) : Prop :=
  ∀ pre a, pre ++ [a] <+: as → ∀ t, run step s pre = some t → ok t a

/-- The invariant rule for runs whose steps all meet a guard. -/
theorem always_of_allSteps (h0 : Inv s)
    (hstep : ∀ s a t, Inv s → ok s a → step s a = some t → Inv t) (hok : AllSteps step ok s as) :
    Always step Inv s as := by
  intro pre
  induction pre using List.reverseRecOn with
  | nil =>
    intro _ t ht
    rw [run_nil, Option.some.injEq] at ht
    exact ht ▸ h0
  | append_singleton pre a ih =>
    intro hpre t ht
    rw [run_concat, bind_eq_some_iff] at ht
    obtain ⟨u, hu, hstp⟩ := ht
    exact hstep u a t (ih ((prefix_append pre [a]).trans hpre) u hu) (hok pre a hpre u hu) hstp

/-- Whether every step of a run meets a guard, by taking the steps. -/
def checkSteps (step : σ → α → Option σ) (ok : σ → α → Bool) : σ → List α → Bool
  | _, [] => true
  | s, a :: as => ok s a && (step s a).all fun t ↦ checkSteps step ok t as

theorem allSteps_nil : AllSteps step ok s [] :=
  fun _ _ hpre ↦ absurd hpre (by simp)

theorem allSteps_cons :
    AllSteps step ok s (a :: as) ↔ ok s a ∧ ∀ t, step s a = some t → AllSteps step ok t as := by
  constructor
  · refine fun h ↦ ⟨h [] a (by simp) s rfl, fun t ht pre b hpre u hu ↦ ?_⟩
    exact h (a :: pre) b (by simpa using hpre) u (by rw [run_cons, ht, bind_some, hu])
  · rintro ⟨hfirst, hrest⟩ pre b hpre u hu
    rcases pre with _ | ⟨c, pre⟩
    · rw [nil_append, cons_prefix_cons] at hpre
      rw [run_nil, Option.some.injEq] at hu
      exact hpre.1 ▸ hu ▸ hfirst
    · rw [cons_append, cons_prefix_cons] at hpre
      obtain ⟨rfl, hpre⟩ := hpre
      rw [run_cons, bind_eq_some_iff] at hu
      obtain ⟨t, ht, hu⟩ := hu
      exact hrest t ht pre b hpre u hu

theorem allSteps_of_checkSteps [∀ s a, Decidable (ok s a)]
    (h : checkSteps step (fun s a ↦ decide (ok s a)) s as = true) : AllSteps step ok s as := by
  induction as generalizing s with
  | nil => exact allSteps_nil
  | cons b as ih =>
    rw [checkSteps, Bool.and_eq_true, decide_eq_true_eq] at h
    refine allSteps_cons.mpr ⟨h.1, fun t ht ↦ ih ?_⟩
    have hcheck := h.2
    rwa [ht, all_some] at hcheck

/-- Two guards that agree where an invariant holds are kept by the same runs. -/
theorem allSteps_congr {ok' : σ → α → Prop} (h0 : Inv s)
    (hstep : ∀ s a t, Inv s → step s a = some t → Inv t)
    (hiff : ∀ s a, Inv s → (ok s a ↔ ok' s a)) : AllSteps step ok s as ↔ AllSteps step ok' s as :=
  forall₄_congr fun _ a _ t ↦ forall_congr' fun ht ↦ hiff t a (run_induction h0 hstep ht)

theorem Always.mono {Q : σ → Prop} (hPQ : ∀ t, P t → Q t) (h : Always step P s as) :
    Always step Q s as :=
  fun pre hpre t ht ↦ hPQ t (h pre hpre t ht)

theorem Always.final (h : Always step P s as) (ht : run step s as = some t) : P t :=
  h as prefix_rfl t ht

/-- **Guards are exact**: if the property fails right after an unguarded step, keeping it along a
run and keeping the guard are the same. -/
theorem always_iff_allSteps (h0 : Inv s) (hP : ∀ t, Inv t → P t)
    (hstep : ∀ s a t, Inv s → ok s a → step s a = some t → Inv t)
    (hbreak : ∀ s a t, Inv s → ¬ok s a → step s a = some t → ¬P t) {last : σ}
    (hrun : run step s as = some last) : Always step P s as ↔ AllSteps step ok s as := by
  constructor
  · intro hall pre
    -- the first unguarded step is the one to look at: before it the invariant still holds
    induction hn : pre.length using Nat.strongRecOn generalizing pre with
    | ind n ih =>
      intro a hpre u hu
      have hInv : Inv u := by
        refine Always.final (always_of_allSteps h0 hstep ?_) hu
        intro pre' b hpre' t ht
        have hlen : pre'.length < n := by
          have := hpre'.length_le
          rw [length_append, length_singleton] at this
          omega
        exact ih _ hlen pre' rfl b (hpre'.trans ((prefix_append pre [a]).trans hpre)) t ht
      by_contra hbad
      obtain ⟨v, hv⟩ : ∃ v, step u a = some v := by
        obtain ⟨rest, rfl⟩ := hpre
        rw [run_append, run_concat, hu, bind_some] at hrun
        exact isSome_iff_exists.mp (by cases h : step u a <;> simp_all)
      exact hbreak u a v hInv hbad hv (hall _ hpre v (run_concat_of_eq_some hu hv))
  · intro hok
    exact (always_of_allSteps h0 hstep hok).mono hP

end Hypershunt
