import Hypershunt.Lb.Health

/-!
# Passive ejection

The law of ejection, over the reports about one upstream: it is ejected at a time if some failure
until then made the failures since the last success as many as `ejectAfter` says, and if less than
`ejectForSecs` has passed since that failure. The deadline of the law is a natural number of
milliseconds.

`record_failure` computes its deadline in a `u64`, and the product with 1000 wraps around. The law
holds of a pool exactly if it does not, or if ejection is off (`isEjected_iff_of_config`). Two
limits of the words are left to the runs: fewer than `2 ^ 32` failures in a row, and times before
the last millisecond that the clock can tell.
-/

namespace Hypershunt

open List Option

namespace Lb

open History PassiveHealthConfig Monitor

variable {active : ActiveHealthConfig} {passive : PassiveHealthConfig}

def Report.failed (r : Report) : Bool := !r.ok

def failuresSinceSuccess (reports : List Report) : ℕ := streak Report.failed reports

/-- The law of ejection. -/
def EjectedAt (passive : PassiveHealthConfig) (reports : List Report) (t : UInt64) : Prop :=
  ∃ before s, before ++ [⟨s, false⟩] <+: reports ∧ s ≤ t ∧
    passive.ejectAfter ≠ never ∧
    passive.ejectAfter.toNat ≤ failuresSinceSuccess (before ++ [⟨s, false⟩]) ∧
    t.toNat < s.toNat + passive.ejectForSecs.toNat * 1000

/-- What the clock shows does not decrease. -/
def InOrder (reports : List Report) : Prop :=
  reports.Pairwise fun r r' ↦ r.time ≤ r'.time

/-- No run of failures is so long that its count wraps around. -/
def Counted (reports : List Report) : Prop :=
  ∀ earlier, earlier <+: reports → failuresSinceSuccess earlier < 2 ^ 32

/-- The product of `record_failure` does not wrap around, or is never used. -/
def PassiveHealthConfig.Sound (passive : PassiveHealthConfig) : Prop :=
  passive.ejectAfter = never ∨ passive.ejectForSecs.toNat * 1000 < 2 ^ 64

/-! ## One more report -/

theorem failuresSinceSuccess_success (reports : List Report) (s : UInt64) :
    failuresSinceSuccess (reports ++ [⟨s, true⟩]) = 0 :=
  streak_concat_of_neg (p := Report.failed) (x := ⟨s, _⟩) rfl reports

theorem failuresSinceSuccess_failure (reports : List Report) (s : UInt64) :
    failuresSinceSuccess (reports ++ [⟨s, false⟩]) = failuresSinceSuccess reports + 1 :=
  streak_concat_of_pos (p := Report.failed) (x := ⟨s, _⟩) rfl reports

theorem ejectedAt_nil (t : UInt64) : ¬EjectedAt passive [] t := by
  rintro ⟨before, s, hpre, _⟩
  exact append_ne_nil_of_right_ne_nil _ (cons_ne_nil _ _) (prefix_nil.mp hpre)

theorem ejectedAt_success (reports : List Report) (s t : UInt64) :
    EjectedAt passive (reports ++ [⟨s, true⟩]) t ↔ EjectedAt passive reports t := by
  constructor
  · rintro ⟨before, s', hpre, hrest⟩
    rcases prefix_concat_iff.mp hpre with heq | hpre
    · obtain ⟨-, hr⟩ := append_inj' heq rfl
      exact absurd hr (by simp)
    · exact ⟨before, s', hpre, hrest⟩
  · rintro ⟨before, s', hpre, hrest⟩
    exact ⟨before, s', hpre.trans (prefix_append _ _), hrest⟩

theorem ejectedAt_failure (reports : List Report) (s t : UInt64) :
    EjectedAt passive (reports ++ [⟨s, false⟩]) t ↔
      EjectedAt passive reports t ∨
        s ≤ t ∧ passive.ejectAfter ≠ never ∧
          passive.ejectAfter.toNat ≤ failuresSinceSuccess reports + 1 ∧
          t.toNat < s.toNat + passive.ejectForSecs.toNat * 1000 := by
  constructor
  · rintro ⟨before, s', hpre, hrest⟩
    rcases prefix_concat_iff.mp hpre with heq | hpre
    · obtain ⟨rfl, hr⟩ := append_inj' heq rfl
      obtain rfl : s' = s := by simpa using hr
      rw [failuresSinceSuccess_failure] at hrest
      exact .inr hrest
    · exact .inl ⟨before, s', hpre, hrest⟩
  · rintro (⟨before, s', hpre, hrest⟩ | hrest)
    · exact ⟨before, s', hpre.trans (prefix_append _ _), hrest⟩
    · refine ⟨reports, s, prefix_refl _, ?_⟩
      rwa [failuresSinceSuccess_failure]

/-! ## The code -/

theorem Counted.of_concat {reports : List Report} {r : Report} (h : Counted (reports ++ [r])) :
    Counted reports :=
  fun _ hpre ↦ h _ (hpre.trans (prefix_append _ _))

theorem consecutiveErrors_recordFailure (u : Upstream) (s : UInt64) :
    (recordFailure passive u s).consecutiveErrors = u.consecutiveErrors + 1 := by
  rw [recordFailure]
  split <;> rfl

theorem ejectedUntilMs_recordFailure (u : Upstream) (s : UInt64) :
    (recordFailure passive u s).ejectedUntilMs =
      if passive.ejectAfter ≠ never ∧
          passive.ejectAfter ≤ u.consecutiveErrors + 1 then
        saturatingAdd s (passive.ejectForSecs * 1000)
      else u.ejectedUntilMs := by
  rw [recordFailure]
  split <;> rfl

/-- A time before the stored deadline; a deadline of zero has passed for every time. -/
theorem isEjected_iff (u : Upstream) (t : UInt64) :
    u.isEjected t = true ↔ t.toNat < u.ejectedUntilMs.toNat := by
  rw [Upstream.isEjected, Bool.and_eq_true, bne_iff_ne, decide_eq_true_iff, UInt64.lt_iff_toNat_lt]
  constructor
  · exact And.right
  · intro h
    refine ⟨fun hzero ↦ ?_, h⟩
    rw [hzero] at h
    exact Nat.not_lt_zero _ h

/-- What is true of an upstream after some reports about it. -/
structure Ejects (passive : PassiveHealthConfig) (reports : List Report) (u : Upstream) : Prop where
  count : Counted reports → u.consecutiveErrors.toNat = failuresSinceSuccess reports
  /-- The deadline after a failure that ejects. -/
  until_eq : Counted reports → ∀ before s, reports = before ++ [⟨s, false⟩] →
    passive.ejectAfter ≠ never →
    passive.ejectAfter.toNat ≤ failuresSinceSuccess reports →
    u.ejectedUntilMs = saturatingAdd s (passive.ejectForSecs * 1000)
  law : passive.Sound → InOrder reports → Counted reports →
    ∀ t, (∀ r ∈ reports, r.time ≤ t) → t.toNat < 2 ^ 64 - 1 →
      (u.isEjected t = true ↔ EjectedAt passive reports t)

variable {reports : List Report} {u : Upstream}

theorem ejects_init (passive : PassiveHealthConfig) (url : String) (weight : UInt32)
    (group : Option String) : Ejects passive [] (.new url weight group) where
  count _ := (streak_nil _).symm
  until_eq _ before s h := absurd h.symm (append_ne_nil_of_right_ne_nil _ (by simp))
  law _ _ _ t _ _ := by
    rw [isEjected_iff]
    exact ⟨fun h ↦ absurd h (Nat.not_lt_zero _), fun h ↦ absurd h (ejectedAt_nil t)⟩

theorem Ejects.congr {u' : Upstream} (h : Ejects passive reports u)
    (hcount : u'.consecutiveErrors = u.consecutiveErrors)
    (huntil : u'.ejectedUntilMs = u.ejectedUntilMs) : Ejects passive reports u' where
  count hc := by rw [hcount, h.count hc]
  until_eq := by rw [huntil]; exact h.until_eq
  law hs ho hc t hr ht := by rw [isEjected_iff, huntil, ← isEjected_iff, h.law hs ho hc t hr ht]

theorem Ejects.success (h : Ejects passive reports u) (s : UInt64) :
    Ejects passive (reports ++ [⟨s, true⟩]) (recordSuccess u) where
  count _ := (failuresSinceSuccess_success reports s).symm
  until_eq _ before s' heq := by
    obtain ⟨-, hr⟩ := append_inj' heq rfl
    exact absurd hr (by simp)
  law hs ho hc t hr ht := by
    rw [ejectedAt_success, ← h.law hs (pairwise_append.mp ho).1 hc.of_concat t
      (fun r hmem ↦ hr r (mem_append_left _ hmem)) ht]
    rfl

theorem Ejects.succ_consecutiveErrors (h : Ejects passive reports u) {s : UInt64}
    (hc : Counted (reports ++ [⟨s, false⟩])) :
    (u.consecutiveErrors + 1).toNat = failuresSinceSuccess reports + 1 := by
  have hlt := hc _ (prefix_refl _)
  rw [failuresSinceSuccess_failure] at hlt
  rw [UInt32.toNat_add, h.count hc.of_concat, UInt32.toNat_one, Nat.mod_eq_of_lt hlt]

/-- The deadline of `record_failure`, if the product does not wrap around. -/
theorem lt_saturatingAdd_iff {s t : UInt64} (hsound : passive.ejectForSecs.toNat * 1000 < 2 ^ 64)
    (ht : t.toNat < 2 ^ 64 - 1) :
    t.toNat < (saturatingAdd s (passive.ejectForSecs * 1000)).toNat ↔
      t.toNat < s.toNat + passive.ejectForSecs.toNat * 1000 := by
  have hmul : (passive.ejectForSecs * 1000).toNat = passive.ejectForSecs.toNat * 1000 := by
    rw [UInt64.toNat_mul]
    exact Nat.mod_eq_of_lt hsound
  rw [toNat_saturatingAdd, hmul]
  omega

/-- An earlier ejection does not outlast a later one. -/
theorem EjectedAt.lt_of_le {t s : UInt64} (h : EjectedAt passive reports t)
    (hs : ∀ r ∈ reports, r.time ≤ s) :
    t.toNat < s.toNat + passive.ejectForSecs.toNat * 1000 := by
  obtain ⟨before, s', hpre, -, -, -, hlt⟩ := h
  have hle : s' ≤ s := hs ⟨s', false⟩ (hpre.subset (mem_append_right _ (by simp)))
  rw [UInt64.le_iff_toNat_le] at hle
  omega

theorem Ejects.failure (h : Ejects passive reports u) (s : UInt64) :
    Ejects passive (reports ++ [⟨s, false⟩]) (recordFailure passive u s) where
  count hc := by
    rw [consecutiveErrors_recordFailure, failuresSinceSuccess_failure, h.succ_consecutiveErrors hc]
  until_eq hc before s' heq hne hle := by
    obtain ⟨-, hr⟩ := append_inj' heq rfl
    obtain rfl : s = s' := by simpa using hr
    rw [failuresSinceSuccess_failure, ← h.succ_consecutiveErrors hc,
      ← UInt32.le_iff_toNat_le] at hle
    rw [ejectedUntilMs_recordFailure, if_pos ⟨hne, hle⟩]
  law hs ho hc t hr ht := by
    have hbefore := h.law hs (pairwise_append.mp ho).1 hc.of_concat t
      (fun r hmem ↦ hr r (mem_append_left _ hmem)) ht
    have hst : s ≤ t := hr ⟨s, false⟩ (mem_append_right _ (by simp))
    have hreached : passive.ejectAfter ≤ u.consecutiveErrors + 1 ↔
        passive.ejectAfter.toNat ≤ failuresSinceSuccess reports + 1 := by
      rw [UInt32.le_iff_toNat_le, h.succ_consecutiveErrors hc]
    rw [isEjected_iff, ejectedUntilMs_recordFailure, ejectedAt_failure, ← hreached]
    split
    · rename_i hejects
      have hsound := hs.resolve_left hejects.1
      rw [lt_saturatingAdd_iff hsound ht]
      constructor
      · intro hlt
        exact .inr ⟨hst, hejects.1, hejects.2, hlt⟩
      · rintro (hold | ⟨-, -, -, hlt⟩)
        · exact hold.lt_of_le fun r hmem ↦
            (pairwise_append.mp ho).2.2 r hmem _ (mem_singleton_self _)
        · exact hlt
    · rename_i hejects
      rw [← isEjected_iff, hbefore]
      exact ⟨.inl, fun hor ↦ hor.resolve_right fun hnew ↦ hejects ⟨hnew.2.1, hnew.2.2.1⟩⟩

theorem Ejects.probe (h : Ejects passive reports u) (state : ProbeState) (ok : Bool) :
    Ejects passive reports (probe active ok u state).1 := by
  rcases ok with _ | _
  · rw [Lb.probe, if_neg Bool.false_ne_true]
    dsimp only
    split
    · exact h.congr rfl rfl
    · exact h
  · rw [Lb.probe, if_pos rfl]
    dsimp only
    split
    · exact h.congr rfl rfl
    · exact h

theorem Ejects.foldl_observe {w : Upstream × ProbeState} (h : Ejects passive reports w.1)
    (active : ActiveHealthConfig) (observations : List Observation) :
    Ejects passive (reports ++ observations.filterMap Observation.report?)
      (observations.foldl (observe active passive) w).1 := by
  refine foldl_filterMap_induction
    (P := fun reports (w : Upstream × ProbeState) ↦ Ejects passive reports w.1) ?_ ?_ observations h
  · rintro reports w (ok | ⟨s, ok⟩) r ho h
    · exact nomatch ho
    · obtain rfl : ⟨s, ok⟩ = r := Option.some.inj ho
      rcases ok with _ | _
      · exact h.failure s
      · exact h.success s
  · rintro reports w (ok | r) ho h
    · exact h.probe w.2 ok
    · exact nomatch ho

theorem ejects_run (active : ActiveHealthConfig) (passive : PassiveHealthConfig)
    (cfgs : List UpstreamConfig) (events : List Event) (i : Fin cfgs.length) :
    ∃ u, ((init cfgs).run active passive events).upstreams[i.val]? = some u ∧
      Ejects passive (reportsOf cfgs.length i events) u :=
  ⟨_, run_init_getElem? cfgs events i,
    (ejects_init passive cfgs[i].url cfgs[i].weight cfgs[i].group).foldl_observe
      (w := (_, .default)) active (observed cfgs.length i 0 events)⟩

/-! ## A product that wraps around -/

theorem PassiveHealthConfig.max_one_ejectAfter_lt (passive : PassiveHealthConfig) :
    max 1 passive.ejectAfter.toNat < 2 ^ 32 :=
  Nat.max_lt.mpr ⟨by decide, passive.ejectAfter.toNat_lt⟩

theorem reportsOf_replicate (n i k : ℕ) (r : Report) :
    reportsOf n i (replicate k (.reported i r)) = replicate k r := by
  rw [reportsOf]
  generalize (0 : ℕ) = next
  induction k with
  | zero => rfl
  | succ k ih =>
    rw [replicate_succ, replicate_succ, observed, seen, if_pos rfl, advance, filterMap_append, ih]
    rfl

theorem failuresSinceSuccess_replicate (k : ℕ) (s : UInt64) :
    failuresSinceSuccess (replicate k ⟨s, false⟩) = k :=
  streak_replicate rfl k

theorem counted_replicate {k : ℕ} (hk : k < 2 ^ 32) (s : UInt64) :
    Counted (replicate k ⟨s, false⟩) := by
  intro earlier hpre
  obtain ⟨hle, heq⟩ := prefix_replicate_iff.mp hpre
  rw [heq, failuresSinceSuccess_replicate]
  exact Nat.lt_of_le_of_lt hle hk

/-- A multiple of 1000 is not the last time: it is even, also after it wrapped around. -/
theorem toNat_mul_thousand_lt (n : UInt64) : (n * 1000).toNat < 2 ^ 64 - 1 := by
  have hmul : (n * 1000).toNat = (n.toNat * 1000) % 2 ^ 64 := UInt64.toNat_mul n 1000
  rw [hmul]
  omega

/-- Failures at time zero, as many as eject, by the law. -/
theorem ejectedAt_replicate {k : ℕ} {t : UInt64}
    (hne : passive.ejectAfter ≠ never)
    (hk : passive.ejectAfter.toNat ≤ k + 1) (ht : t.toNat < passive.ejectForSecs.toNat * 1000) :
    EjectedAt passive (replicate (k + 1) ⟨0, false⟩) t := by
  refine ⟨replicate k ⟨0, false⟩, 0, ?_, UInt64.zero_le, hne, ?_, ?_⟩
  · rw [← replicate_succ']
  · rwa [← replicate_succ', failuresSinceSuccess_replicate]
  · rwa [UInt64.toNat_zero, Nat.zero_add]

theorem Ejects.not_isEjected_replicate {k : ℕ}
    (h : Ejects passive (replicate (k + 1) ⟨0, false⟩) u)
    (hcounted : Counted (replicate (k + 1) ⟨0, false⟩))
    (hne : passive.ejectAfter ≠ never)
    (hk : passive.ejectAfter.toNat ≤ k + 1) :
    u.isEjected (passive.ejectForSecs * 1000) ≠ true := by
  have huntil := h.until_eq hcounted _ 0 replicate_succ' hne
    (by rwa [failuresSinceSuccess_replicate])
  rw [Ne, isEjected_iff, huntil, toNat_saturatingAdd, UInt64.toNat_zero, Nat.zero_add]
  exact Nat.not_lt.mpr (Nat.min_le_left _ _)

/-- The law of ejection holds in every run exactly if the product with 1000 cannot wrap around. -/
theorem isEjected_iff_of_config (active : ActiveHealthConfig) (passive : PassiveHealthConfig)
    (cfgs : List UpstreamConfig) (i : Fin cfgs.length) :
    (∀ events t, InOrder (reportsOf cfgs.length i events) →
        Counted (reportsOf cfgs.length i events) →
        (∀ r ∈ reportsOf cfgs.length i events, r.time ≤ t) → t.toNat < 2 ^ 64 - 1 →
        ((((init cfgs).run active passive events).upstreams[i.val]?).map
            (Upstream.isEjected · t) = some true ↔
          EjectedAt passive (reportsOf cfgs.length i events) t)) ↔
      passive.Sound := by
  constructor
  · intro hlaw
    by_contra hunsound
    obtain ⟨hne, hwraps⟩ := not_or.mp hunsound
    -- As many failures at time zero as eject, seen at the deadline that wrapped around.
    obtain ⟨k, hk⟩ : ∃ k, max 1 passive.ejectAfter.toNat = k + 1 :=
      ⟨_, (Nat.sub_add_cancel (Nat.le_max_left _ _)).symm⟩
    have hthreshold : passive.ejectAfter.toNat ≤ k + 1 := hk ▸ Nat.le_max_right _ _
    have hcounted := counted_replicate (hk ▸ passive.max_one_ejectAfter_lt) 0
    obtain ⟨u, hu, hejects⟩ := ejects_run active passive cfgs
      (replicate (k + 1) (.reported i ⟨0, false⟩)) i
    have h := hlaw (replicate (k + 1) (.reported i ⟨0, false⟩)) (passive.ejectForSecs * 1000)
    rw [hu, map_some, some_inj] at h
    rw [reportsOf_replicate] at h hejects
    refine hejects.not_isEjected_replicate hcounted hne hthreshold ((h ?_ hcounted ?_ ?_).mpr ?_)
    · exact pairwise_replicate.mpr (.inr (UInt64.le_refl _))
    · intro r hr
      rw [eq_of_mem_replicate hr]
      exact UInt64.zero_le
    · exact toNat_mul_thousand_lt _
    · refine ejectedAt_replicate hne hthreshold ?_
      have hlt := (passive.ejectForSecs * 1000).toNat_lt
      omega
  · intro hsound events t ho hc hr ht
    obtain ⟨u, hu, hejects⟩ := ejects_run active passive cfgs events i
    rw [hu, map_some, some_inj, hejects.law hsound ho hc t hr ht]

/-- `eject-for=18446744073709552` ejects for 384 milliseconds. -/
theorem ejection_lifted_early :
    let passive := parsePassiveHealth (some ⟨some 1, some 18446744073709552⟩)
    let cfgs : List UpstreamConfig := [⟨"http://a", 1, none⟩]
    let reports : List Report := [⟨1, false⟩]
    let m := (init cfgs).run ⟨2, 1⟩ passive [.reported 0 ⟨1, false⟩]
    reportsOf cfgs.length 0 [.reported 0 ⟨1, false⟩] = reports ∧
      InOrder reports ∧ Counted reports ∧
      EjectedAt passive reports 1000 ∧
      (m.upstreams[0]?).map (Upstream.isEjected · 1000) = some false := by
  refine ⟨rfl, pairwise_singleton _ _, counted_replicate (k := 1) (by decide) 1, ?_, ?_⟩
  · exact ⟨[], 1, prefix_refl _, by decide, by decide, by decide, by decide +kernel⟩
  · decide +kernel

end Lb

end Hypershunt
