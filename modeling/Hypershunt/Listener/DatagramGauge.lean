import Mathlib.Algebra.BigOperators.Group.Finset.Basic
import Hypershunt.Listener.Datagram

/-!
# The gauge of datagram flows

`datagram_flows_active` is one number for all listeners. A seqpacket connection adds one to it and
subtracts it again; a table writes its own size into it. So a table forgets the flows of the other
tables and the connections, and when a forgotten connection ends, the number may even wrap.

As long as a table writes its size only when there is nothing else to count, the gauge is exact
whenever no update is half done. The invariant `Counted` says what it is in between: the connections
plus a number that is that of the flows unless some table has changed and not written its size yet.
-/

namespace Hypershunt

namespace Datagram

open State Function Finset

variable {n : ℕ} {timeout : Fin n → Duration} {s s' : State n} {e : Event n}

/-- The flows in all tables. -/
def State.flowCount (s : State n) : ℕ := ∑ i, (s.tables i).flows.keys.card

/-- No insertion, removal, sweep, start or end of a connection is half done. -/
def Settled (s : State n) : Prop :=
  (∀ i, (s.tables i).holder = none) ∧ s.opening = 0 ∧ s.done = 0

/-- Nothing but the table that writes its size is to be counted. -/
def WritesAlone (s : State n) (e : Event n) : Prop :=
  ∀ i, e = .publish i → (∀ j, j ≠ i → (s.tables j).flows = ∅) ∧ s.opened = 0 ∧ s.done = 0

instance (s : State n) (e : Event n) : Decidable (WritesAlone s e) :=
  inferInstanceAs (Decidable (∀ _, _ → _))

/-- The gauge, whatever is half done. -/
def Counted (v : Fin n → HashMap ClientKey FlowId × Option Holder) (c : ℕ × ℕ × ℕ) : Prop :=
  ∃ flows, c.1 = c.2.1 + c.2.2 + flows ∧
    ((∀ i, (v i).2 ≠ some .publish) → flows = ∑ i, (v i).1.keys.card)

variable {i : Fin n} {v : Fin n → HashMap ClientKey FlowId × Option Holder} {c : ℕ × ℕ × ℕ}
  {flows : HashMap ClientKey FlowId} {holder : Option Holder}

theorem counted_init (now : Instant) :
    Counted (init n now).view (init n now).counts := by
  refine ⟨0, rfl, fun _ ↦ ?_⟩
  simp only [view, init, Finmap.keys_empty, card_empty, sum_const_zero]

theorem Counted.changed (h : Counted v c) (i : Fin n) (flows : HashMap ClientKey FlowId) :
    Counted (update v i (flows, some .publish)) c := by
  obtain ⟨k, hgauge, -⟩ := h
  refine ⟨k, hgauge, fun hclean ↦ ?_⟩
  exact absurd (by rw [update_self]) (hclean i)

theorem Counted.unchanged (h : Counted v c) (hclean : (v i).2 ≠ some .publish)
    (hcard : flows.keys.card = (v i).1.keys.card) (holder : Option Holder) :
    Counted (update v i (flows, holder)) c := by
  obtain ⟨k, hgauge, hflows⟩ := h
  refine ⟨k, hgauge, fun hall ↦ ?_⟩
  have hbefore : ∀ j, (v j).2 ≠ some .publish := by
    intro j
    by_cases hj : j = i
    · rw [hj]
      exact hclean
    · have hafter := hall j
      rwa [update_of_ne hj] at hafter
  rw [hflows hbefore]
  refine sum_congr rfl fun j _ ↦ ?_
  by_cases hj : j = i
  · rw [hj, update_self, hcard]
  · rw [update_of_ne hj]

/-- What changes the size of a table is followed by writing it. -/
theorem TableChange.publish_or_card_eq (hchange : TableChange s i e flows holder) :
    holder = some .publish ∨
      ((s.tables i).holder ≠ some .publish ∧ flows.keys.card = (s.tables i).flows.keys.card) := by
  rcases hchange with _ | _ | ⟨now, hfree⟩ | ⟨w, t, last, key, flow, hw, -⟩ | ⟨w, hw⟩
  · exact Or.inl rfl
  · exact Or.inl rfl
  · exact Or.inr ⟨by simp [hfree], rfl⟩
  · exact Or.inr ⟨by simp [hw], rfl⟩
  · split_ifs with hcard
    · exact Or.inr ⟨by simp [hw], hcard⟩
    · exact Or.inl rfl

theorem counted_publish (halone : ∀ j, j ≠ i → (s.tables j).flows = ∅) (hopened : s.opened = 0)
    (hdone : s.done = 0) :
    Counted (update s.view i ((s.tables i).flows, none))
      ((s.tables i).flows.keys.card, s.opened, s.done) := by
  refine ⟨(s.tables i).flows.keys.card, by simp only [hopened, hdone, zero_add], fun _ ↦ ?_⟩
  rw [sum_eq_single i]
  · rw [update_self]
  · intro j _ hj
    rw [update_of_ne hj, view, halone j hj, Finmap.keys_empty, card_empty]
  · intro hi
    exact absurd (mem_univ i) hi

theorem Counted.step (h : Counted s.view s.counts) (hguard : WritesAlone s e)
    (hstep : step timeout s e = some s') : Counted s'.view s'.counts := by
  rcases step_cases hstep with ⟨hview, hcounts⟩ | ⟨i, flows, holder, hchange, hview, hcounts⟩ |
    ⟨i, rfl, -, hview, hcounts⟩ | ⟨hview, hcounts⟩ | ⟨hview, hopened, hcounts⟩ |
    ⟨-, hview, hdone, hcounts⟩ <;> rw [hview, hcounts]
  · exact h
  · rcases hchange.publish_or_card_eq with rfl | ⟨hclean, hcard⟩
    · exact h.changed i flows
    · exact h.unchanged hclean hcard holder
  · obtain ⟨halone, hopened, hdone⟩ := hguard i rfl
    exact counted_publish halone hopened hdone
  · obtain ⟨k, hgauge, hflows⟩ := h
    refine ⟨k, ?_, hflows⟩
    simp only [counts] at hgauge ⊢
    omega
  · obtain ⟨k, hgauge, hflows⟩ := h
    refine ⟨k, ?_, hflows⟩
    simp only [counts] at hgauge ⊢
    omega
  · obtain ⟨k, hgauge, hflows⟩ := h
    refine ⟨k, ?_, hflows⟩
    simp only [counts, decrement] at hgauge ⊢
    split_ifs <;> omega

/-- A connection that leaves is still counted. -/
theorem Counted.gauge_ne_zero (h : Counted s.view s.counts) (hdone : s.done ≠ 0) : s.gauge ≠ 0 := by
  obtain ⟨k, hgauge, -⟩ := h
  simp only [counts] at hgauge
  omega

theorem Counted.gauge_eq (h : Counted s.view s.counts) (hsettled : Settled s) :
    s.gauge = s.flowCount + s.opened := by
  obtain ⟨hfree, -, hdone⟩ := hsettled
  obtain ⟨k, hgauge, hflows⟩ := h
  have hk : k = s.flowCount := hflows fun i ↦ by simp [view, hfree i]
  simp only [counts] at hgauge
  omega

/-- The gauge does not wrap in this step. -/
def NoWrap (s : State n) (e : Event n) : Prop := e = .leave → s.done ≠ 0 → s.gauge ≠ 0

/-- **The gauge is exact** in every run in which a table writes its size only while there is nothing
else to count. -/
theorem gauge_exact_of_writesAlone {now : Instant} {es : List (Event n)}
    (hok : AllSteps (step timeout) WritesAlone (init n now) es) :
    Always (step timeout) (fun s ↦ Settled s → s.gauge = s.flowCount + s.opened)
        (init n now) es ∧
      AllSteps (step timeout) NoWrap (init n now) es := by
  have hcounted : Always (step timeout) (fun s ↦ Counted s.view s.counts) (init n now) es :=
    always_of_allSteps (counted_init now) (fun _ _ _ h hguard hstep ↦ h.step hguard hstep) hok
  refine ⟨hcounted.mono fun s h ↦ h.gauge_eq, ?_⟩
  intro pre e hpre s hs _ hdone
  exact (hcounted pre ((List.prefix_append pre [e]).trans hpre) s hs).gauge_ne_zero hdone

/-! ## Two listeners, and a connection -/

/-- A table is used, and a connection after it. -/
private def flowThenConnection : List (Event 1) :=
  newFlow ⟨0, Nat.one_pos⟩ someClient ++
    [.replyEnd 0, .publish ⟨0, Nat.one_pos⟩, .accept, .start]

theorem gauge_exact_flowThenConnection :
    ∃ s, run (step fun _ ↦ 30) (init 1 0) flowThenConnection = some s ∧
      (Settled s → s.gauge = s.flowCount + s.opened) := by
  have hrun : (run (step fun _ ↦ 30) (init 1 0) flowThenConnection).isSome = true := by
    decide +kernel
  obtain ⟨s, hs⟩ := Option.isSome_iff_exists.mp hrun
  have hok : AllSteps (step fun _ ↦ 30) WritesAlone (init 1 0) flowThenConnection :=
    allSteps_of_checkSteps (by decide +kernel)
  exact ⟨s, hs, (gauge_exact_of_writesAlone hok).1.final hs⟩

/-- With two listeners the gauge shows the flows of one. With a connection and a table it wraps: the
table writes that it is empty, and then the connection ends. -/
theorem gauge_forgets_and_wraps :
    (run (step fun _ ↦ 30) (init 2 0) (newFlow 0 someClient ++ newFlow 1 someClient)).map
        (fun s ↦ (s.gauge, (s.tables 0).flows.keys.card, (s.tables 1).flows.keys.card)) =
      some (1, 1, 1) ∧
    (run (step fun _ ↦ 30) (init 1 0) ([.accept, .start] ++ newFlow 0 someClient ++
        [.replyEnd 0, .publish 0, .finish, .leave])).map (fun s ↦ (s.gauge, s.opened)) =
      some (2 ^ 64 - 1, 0) := by
  constructor
  · decide +kernel
  · decide +kernel

end Datagram

end Hypershunt
