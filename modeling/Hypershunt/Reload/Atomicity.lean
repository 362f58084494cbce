import Hypershunt.Reload.Stages

/-!
# When a failed reload leaves no trace

A reload that does not apply is meant to leave everything as it was. It publishes the new
certificates before it builds the router, though, and the new rate-limit rules before it binds the
new listeners; and a certificate that cannot be built leaves the renewal tasks of those built before
it running. Each of these shows in the live state, because what is built again is a new object.

What remains is a condition on the running state, the new configuration and the failing step:

* a certificate fails, and no ACME certificate was newly built before it;
* a later step fails, and the named certificates are exactly those running, from the same sources;
* the listeners cannot be bound, and moreover neither configuration has a rate-limit rule.

The argument is that identities are new: a number taken during the reload is in none of the cells
that were there before.
-/

namespace Hypershunt

open List Option

namespace Reload

open Building Finmap HashMap

variable {o : Outcomes} {s : Server} {live : Live} {b : Building} {cfg : Config}

/-- Every identity in use is below the next unused one. -/
structure Live.Allocated (live : Live) (nextId : ℕ) : Prop where
  registry : ∀ name source, live.certRegistry.lookup name = some source → source < nextId
  tasks : ∀ task ∈ live.renewalTasks, task < nextId
  rules : ∀ rule ∈ live.rateLimitRules, rule.2 < nextId

abbrev Server.Allocated (s : Server) : Prop := s.live.Allocated s.nextId

/-- The named certificates are the running ones, from the same sources. -/
structure SameCerts (live : Live) (cfg : Config) : Prop where
  carried : ∀ d ∈ cfg.certificates, carriedForward live d ≠ none
  registry : ∀ name ∈ live.certRegistry, name ∈ cfg.certificates.map CertificateDef.name
  fingerprints : ∀ name ∈ live.certSourceFingerprints,
    name ∈ cfg.certificates.map CertificateDef.name

/-- The failing step, if it comes after the checks of the configuration, has no trace before it. -/
structure LeavesNoTrace (o : Outcomes) (s : Server) (cfg : Config) : Prop where
  certificate : ∀ pre d post, cfg.certificates = pre ++ d :: post →
    (∀ d' ∈ pre, Builds o s.live d') → ¬Builds o s.live d →
      ∀ d' ∈ pre, d'.source.acme = true → carriedForward s.live d' ≠ none
  build : (∀ d ∈ cfg.certificates, Builds o s.live d) → BuildFails o cfg → SameCerts s.live cfg
  bind : (∀ d ∈ cfg.certificates, Builds o s.live d) → ¬BuildFails o cfg → BindFails o s cfg →
    SameCerts s.live cfg ∧ cfg.rateLimits = [] ∧ s.live.rateLimitRules = []

/-! ## What building adds -/

variable {d : CertificateDef} {task n : ℕ} {ds : List CertificateDef}

theorem add_of_carried {source : ℕ} (h : carriedForward live d = some source) :
    b.add live d = { b with registry := b.registry.insert d.name source } := by
  rw [add, h]

theorem nextId_le_add (d : CertificateDef) : b.nextId ≤ (b.add live d).nextId := by
  unfold add
  split
  · exact le_refl _
  · split
    · exact Nat.le_add_right _ 2
    · exact Nat.le_add_right _ 1

theorem mem_renewals_add (h : task ∈ b.renewals) : task ∈ (b.add live d).renewals := by
  unfold add
  split
  · exact h
  · split
    · exact mem_insert.mpr (Or.inr h)
    · exact h

theorem nextId_le_foldl_add (ds : List CertificateDef) :
    b.nextId ≤ (ds.foldl (add live) b).nextId := by
  induction ds generalizing b with
  | nil => exact le_refl _
  | cons d ds ih => exact (nextId_le_add d).trans ih

theorem mem_renewals_foldl_add (ds : List CertificateDef) (h : task ∈ b.renewals) :
    task ∈ (ds.foldl (add live) b).renewals := by
  induction ds generalizing b with
  | nil => exact h
  | cons d ds ih => exact ih (mem_renewals_add h)

/-- Without a newly built ACME certificate no task is spawned. -/
theorem renewals_foldl_add_of_carried
    (h : ∀ d ∈ ds, d.source.acme = true → carriedForward live d ≠ none) :
    (ds.foldl (add live) b).renewals = b.renewals ∧
      (ds.foldl (add live) b).supervisors = b.supervisors := by
  induction ds generalizing b with
  | nil => exact ⟨rfl, rfl⟩
  | cons d ds ih =>
    have hadd : (b.add live d).renewals = b.renewals ∧
        (b.add live d).supervisors = b.supervisors := by
      unfold add
      split
      · exact ⟨rfl, rfl⟩
      · rename_i hnone
        rw [if_neg fun hacme ↦ h d mem_cons_self hacme hnone]
        exact ⟨rfl, rfl⟩
    rw [foldl_cons, ← hadd.1, ← hadd.2]
    exact ih fun d' hd' ↦ h d' (mem_cons_of_mem d hd')

/-- A newly built ACME certificate leaves a task with a new identity. -/
theorem exists_task_of_new_acme (hd : d ∈ ds) (hacme : d.source.acme = true)
    (hnew : carriedForward live d = none) :
    ∃ task ∈ (ds.foldl (add live) b).renewals, b.nextId ≤ task := by
  induction ds generalizing b with
  | nil => exact absurd hd not_mem_nil
  | cons d' ds ih =>
    rcases mem_cons.mp hd with rfl | hd
    · refine ⟨b.nextId + 1, mem_renewals_foldl_add ds ?_, Nat.le_add_right _ 1⟩
      rw [add, hnew, if_pos hacme]
      exact mem_insert.mpr (Or.inl rfl)
    · obtain ⟨task, htask, hle⟩ := ih hd
      exact ⟨task, htask, (nextId_le_add d').trans hle⟩

theorem handles_foldl_add_of_carried (h : ∀ d ∈ ds, carriedForward live d ≠ none) :
    (ds.foldl (add live) b).handles = b.handles := by
  induction ds generalizing b with
  | nil => rfl
  | cons d ds ih =>
    obtain ⟨source, hsource⟩ := ne_none_iff_exists'.mp (h d mem_cons_self)
    rw [foldl_cons, ih fun d' hd' ↦ h d' (mem_cons_of_mem d hd'), add_of_carried hsource]

theorem lookup_add (live : Live) (b : Building) (d : CertificateDef) :
    ∃ id, (∀ name, (b.add live d).registry.lookup name =
        if name = d.name then some id else b.registry.lookup name) ∧
      (carriedForward live d = some id ∨
        (carriedForward live d = none ∧ b.nextId ≤ id ∧ id < (b.add live d).nextId)) := by
  unfold add
  cases hcarried : carriedForward live d with
  | some source => exact ⟨source, fun name ↦ lookup_insert_ite, Or.inl rfl⟩
  | none =>
    refine ⟨b.nextId, fun name ↦ ?_, Or.inr ⟨rfl, le_refl _, ?_⟩⟩
    · simp only
      split <;> exact lookup_insert_ite
    · simp only
      split <;> exact Nat.lt_add_of_pos_right (by decide)

theorem lookup_foldl_add_of_notMem (live : Live) (b : Building) {name : String}
    (h : name ∉ ds.map CertificateDef.name) :
    (ds.foldl (add live) b).registry.lookup name = b.registry.lookup name := by
  induction ds generalizing b with
  | nil => rfl
  | cons d ds ih =>
    rw [map_cons, mem_cons, not_or] at h
    obtain ⟨id, hlookup, -⟩ := lookup_add live b d
    rw [foldl_cons, ih _ h.2, hlookup, if_neg h.1]

theorem lookup_foldl_add_of_mem (live : Live) (b : Building)
    (hnodup : (ds.map CertificateDef.name).Nodup) (hd : d ∈ ds) :
    ∃ id, (ds.foldl (add live) b).registry.lookup d.name = some id ∧
      (carriedForward live d = some id ∨ (carriedForward live d = none ∧ b.nextId ≤ id)) := by
  induction ds generalizing b with
  | nil => exact absurd hd not_mem_nil
  | cons d' ds ih =>
    rw [map_cons, nodup_cons] at hnodup
    rcases mem_cons.mp hd with rfl | hd
    · obtain ⟨id, hlookup, hid⟩ := lookup_add live b d
      refine ⟨id, ?_, hid.imp_right fun h ↦ ⟨h.1, h.2.1⟩⟩
      rw [foldl_cons, lookup_foldl_add_of_notMem _ _ hnodup.1, hlookup, if_pos rfl]
    · obtain ⟨id, hlookup, hid⟩ := ih (b.add live d') hnodup.2 hd
      refine ⟨id, hlookup, hid.imp_right fun h ↦ ⟨h.1, (nextId_le_add d').trans h.2⟩⟩

/-! ## What is published -/

theorem carriedForward_eq_some {source : ℕ} (h : carriedForward live d = some source) :
    live.certSourceFingerprints.lookup d.name = some d.source.debug ∧
      live.certRegistry.lookup d.name = some source := by
  unfold carriedForward at h
  split at h
  case h_1 fingerprint hfingerprint =>
    rw [ite_none_right_eq_some] at h
    exact ⟨h.1 ▸ hfingerprint, h.2⟩
  case h_2 => cases h

theorem lookup_eq_none_of_notMem {V : Type*} {m : HashMap String V} {names : List String}
    (h : ∀ name ∈ m, name ∈ names) {name : String} (hname : name ∉ names) :
    m.lookup name = none :=
  lookup_eq_none.mpr fun hmem ↦ hname (h name hmem)

theorem SameCerts.certRegistry_built (h : SameCerts s.live cfg) :
    (s.built cfg).registry = s.live.certRegistry := by
  refine ext_lookup fun name ↦ ?_
  by_cases hname : name ∈ cfg.certificates.map CertificateDef.name
  · obtain ⟨d, hd, rfl⟩ := List.mem_map.mp hname
    obtain ⟨id, hlookup, hid⟩ :=
      lookup_foldl_add_of_mem s.live s.building cfg.nodup_names hd
    rcases hid with hid | ⟨hnone, -⟩
    · rw [(carriedForward_eq_some hid).2]
      exact hlookup
    · exact absurd hnone (h.carried d hd)
  · rw [lookup_eq_none_of_notMem h.registry hname]
    exact lookup_foldl_add_of_notMem s.live s.building hname

theorem SameCerts.fingerprintsOf_eq (h : SameCerts s.live cfg) :
    fingerprintsOf cfg.certificates = s.live.certSourceFingerprints := by
  refine ext_lookup fun name ↦ ?_
  by_cases hname : name ∈ cfg.certificates.map CertificateDef.name
  · obtain ⟨d, hd, rfl⟩ := List.mem_map.mp hname
    obtain ⟨source, hsource⟩ := ne_none_iff_exists'.mp (h.carried d hd)
    rw [(carriedForward_eq_some hsource).1]
    exact lookup_foldl_insert_of_mem _ _ cfg.nodup_names hd ∅
  · rw [lookup_eq_none_of_notMem h.fingerprints hname]
    exact lookup_foldl_insert_of_notMem _ _ hname ∅

theorem SameCerts.publishCerts_built (h : SameCerts s.live cfg) :
    s.live.publishCerts cfg (s.built cfg) = s.live := by
  have hhandles : (s.built cfg).handles = [] := handles_foldl_add_of_carried h.carried
  obtain ⟨hrenewals, hsupervisors⟩ := renewals_foldl_add_of_carried (b := s.building)
    fun d hd _ ↦ h.carried d hd
  rw [Live.publishCerts, hhandles, h.certRegistry_built, h.fingerprintsOf_eq, Server.built,
    hrenewals, hsupervisors]
  rfl

/-- New sources are not the running ones: if these are published again, all were carried forward. -/
theorem sameCerts_of_published (hs : s.Allocated)
    (hregistry : (s.built cfg).registry = s.live.certRegistry)
    (hfingerprints : fingerprintsOf cfg.certificates = s.live.certSourceFingerprints) :
    SameCerts s.live cfg := by
  refine ⟨fun d hd ↦ ?_, fun name hname ↦ ?_, fun name hname ↦ ?_⟩
  · obtain ⟨id, hlookup, hid⟩ :=
      lookup_foldl_add_of_mem s.live s.building cfg.nodup_names hd
    rcases hid with hid | ⟨-, hle⟩
    · rw [hid]
      exact some_ne_none id
    · have hrunning : s.live.certRegistry.lookup d.name = some id := hregistry ▸ hlookup
      exact absurd hle (not_le.mpr (hs.registry d.name id hrunning))
  · by_contra hnot
    rw [← hregistry, mem_iff] at hname
    obtain ⟨id, hid⟩ := hname
    have hempty := lookup_foldl_add_of_notMem s.live s.building hnot
    rw [Server.built, hempty, Server.building, lookup_empty] at hid
    cases hid
  · by_contra hnot
    rw [← hfingerprints, mem_iff] at hname
    obtain ⟨fingerprint, hfp⟩ := hname
    rw [fingerprintsOf, lookup_foldl_insert_of_notMem _ _ hnot, lookup_empty] at hfp
    cases hfp

/-! ## What a failure leaves -/

theorem live_abandoned_eq_iff (hs : s.Allocated) (pre : List CertificateDef) :
    (s.abandoned pre).live = s.live ↔
      ∀ d ∈ pre, d.source.acme = true → carriedForward s.live d ≠ none := by
  constructor
  · intro hlive d hd hacme hnew
    obtain ⟨task, htask, hle⟩ := exists_task_of_new_acme (b := s.building) hd hacme hnew
    have hrunning : task ∈ s.live.renewals := congrArg Live.renewals hlive ▸ htask
    exact absurd hle (not_le.mpr (hs.tasks task (mem_keys.mpr hrunning)))
  · intro hcarried
    obtain ⟨hrenewals, hsupervisors⟩ := renewals_foldl_add_of_carried (b := s.building) hcarried
    rw [Server.abandoned, hrenewals, hsupervisors]
    rfl

theorem live_published_eq_iff (hs : s.Allocated) :
    (s.published cfg).live = s.live ↔ SameCerts s.live cfg := by
  refine ⟨fun h ↦ sameCerts_of_published hs ?_ ?_, SameCerts.publishCerts_built⟩
  · exact congrArg Live.certRegistry h
  · exact congrArg Live.certSourceFingerprints h

/-- A new rule is not one that was running, so the rules are as before only where there are none. -/
theorem newRules_eq_iff (hs : s.Allocated) :
    s.newRules cfg = s.live.rateLimitRules ↔
      cfg.rateLimits = [] ∧ s.live.rateLimitRules = [] := by
  rw [Server.newRules]
  refine ⟨fun h ↦ ?_, fun ⟨hnew, hold⟩ ↦ by rw [hnew, hold, zipIdx_nil]⟩
  cases hlimits : cfg.rateLimits with
  | nil =>
    rw [hlimits, zipIdx_nil] at h
    exact ⟨rfl, h.symm⟩
  | cons rule rest =>
    rw [hlimits, zipIdx_cons] at h
    have hmem : (rule, (s.built cfg).nextId) ∈ s.live.rateLimitRules := h ▸ mem_cons_self
    have hle : s.nextId ≤ (s.built cfg).nextId :=
      nextId_le_foldl_add (b := s.building) cfg.certificates
    exact absurd hle (not_le.mpr (hs.rules _ hmem))

theorem live_ruled_eq_iff (hs : s.Allocated) :
    (s.ruled cfg).live = s.live ↔
      SameCerts s.live cfg ∧ cfg.rateLimits = [] ∧ s.live.rateLimitRules = [] := by
  rw [← newRules_eq_iff hs]
  refine ⟨fun h ↦ ⟨sameCerts_of_published hs ?_ ?_, congrArg Live.rateLimitRules h⟩,
    fun ⟨hsame, hrules⟩ ↦ ?_⟩
  · exact congrArg Live.certRegistry h
  · exact congrArg Live.certSourceFingerprints h
  · rw [Server.ruled, hrules, (live_published_eq_iff hs).mpr hsame]

/-! ## Whole runs of reloads -/

theorem Live.Allocated.mono {m : ℕ} (h : live.Allocated n) (hle : n ≤ m) :
    live.Allocated m where
  registry name source hsource := (h.registry name source hsource).trans_le hle
  tasks task htask := (h.tasks task htask).trans_le hle
  rules rule hrule := (h.rules rule hrule).trans_le hle

theorem Live.Allocated.abort (h : live.Allocated n) (handles : List ℕ) :
    (live.abort handles).Allocated n :=
  ⟨h.registry, h.tasks, h.rules⟩

theorem Live.Allocated.adopt (h : live.Allocated n) (handle : String × ℕ) :
    (live.adopt handle).Allocated n := by
  have hinsert : ({ live with certHelpers := live.certHelpers.insert handle.1 [handle.2] } :
      Live).Allocated n := ⟨h.registry, h.tasks, h.rules⟩
  unfold Live.adopt
  split
  · exact hinsert.abort _
  · exact hinsert

theorem Live.Allocated.dropCert (h : live.Allocated n) (name : String) :
    (live.dropCert name).Allocated n := by
  unfold Live.dropCert
  split
  · have herase : ({ live with certHelpers := live.certHelpers.erase name } : Live).Allocated n :=
      ⟨h.registry, h.tasks, h.rules⟩
    exact herase.abort _
  · exact h

theorem Live.Allocated.foldl {α : Type*} {f : Live → α → Live}
    (hf : ∀ live a, Live.Allocated live n → (f live a).Allocated n) (h : live.Allocated n)
    (as : List α) : (as.foldl f live).Allocated n := by
  induction as generalizing live with
  | nil => exact h
  | cons a as ih => exact ih (hf live a h)

/-- The registry and the tasks of a loop in progress, as the state they would be published in. -/
def Building.asLive (b : Building) (live : Live) : Live :=
  { live with certRegistry := b.registry, renewals := b.renewals }

theorem lt_of_mem_renewals_add (h : task ∈ (b.add live d).renewals) :
    task ∈ b.renewals ∨ task < (b.add live d).nextId := by
  unfold add at h ⊢
  split at h
  · exact Or.inl h
  · by_cases hacme : d.source.acme = true
    · rw [if_pos hacme] at h ⊢
      rcases mem_insert.mp h with rfl | h
      · exact Or.inr (Nat.lt_succ_self _)
      · exact Or.inl h
    · rw [if_neg hacme] at h
      exact Or.inl h

theorem allocated_add (hlive : live.Allocated b.nextId)
    (hb : (b.asLive live).Allocated b.nextId) (d : CertificateDef) :
    ((b.add live d).asLive live).Allocated (b.add live d).nextId := by
  have hle : b.nextId ≤ (b.add live d).nextId := nextId_le_add d
  refine ⟨fun name source hsource ↦ ?_, fun task htask ↦ ?_,
    fun rule hrule ↦ (hlive.rules rule hrule).trans_le hle⟩
  · obtain ⟨id, hlookup, hid⟩ := lookup_add live b d
    rw [asLive, hlookup] at hsource
    split at hsource
    · cases hsource
      rcases hid with hid | ⟨-, -, hlt⟩
      · exact (hlive.registry _ _ (carriedForward_eq_some hid).2).trans_le hle
      · exact hlt
    · exact (hb.registry name source hsource).trans_le hle
  · rcases lt_of_mem_renewals_add (mem_keys.mp htask) with htask | hlt
    · exact (hb.tasks task (mem_keys.mpr htask)).trans_le hle
    · exact hlt

theorem allocated_foldl_add (hlive : live.Allocated b.nextId)
    (hb : (b.asLive live).Allocated b.nextId) (ds : List CertificateDef) :
    ((ds.foldl (add live) b).asLive live).Allocated
      (ds.foldl (add live) b).nextId := by
  induction ds generalizing b with
  | nil => exact hb
  | cons d ds ih => exact ih (hlive.mono (nextId_le_add d)) (allocated_add hlive hb d)

theorem Server.Allocated.building (hs : s.Allocated) :
    (s.building.asLive s.live).Allocated s.building.nextId := by
  refine ⟨fun name source hsource ↦ ?_, hs.tasks, hs.rules⟩
  rw [asLive, Server.building, lookup_empty] at hsource
  cases hsource

/-- The state with the tasks of the loop, at any point of it. -/
theorem Server.Allocated.abandoned (hs : s.Allocated) (pre : List CertificateDef) :
    (s.abandoned pre).Allocated := by
  have hb := allocated_foldl_add hs hs.building pre
  have hle : s.nextId ≤ (s.abandoned pre).nextId := nextId_le_foldl_add (b := s.building) pre
  exact ⟨(hs.mono hle).registry, hb.tasks, hb.rules⟩

theorem Server.Allocated.published (hs : s.Allocated) (cfg : Config) :
    (s.published cfg).Allocated := by
  have hb := allocated_foldl_add hs hs.building cfg.certificates
  have hadopted := Live.Allocated.foldl (fun live h hlive ↦ hlive.adopt h)
    (hs.abandoned cfg.certificates) (s.built cfg).handles
  exact ⟨hb.registry, hadopted.tasks, hadopted.rules⟩

theorem Server.Allocated.ruled (hs : s.Allocated) (cfg : Config) : (s.ruled cfg).Allocated := by
  have hpublished := Live.Allocated.mono (hs.published cfg)
    (Nat.le_add_right (s.built cfg).nextId cfg.rateLimits.length)
  refine ⟨hpublished.registry, hpublished.tasks, fun rule hrule ↦ ?_⟩
  exact snd_lt_add_of_mem_zipIdx hrule

theorem allocated_reload (o : Outcomes) (hs : s.Allocated) : (reload o s).2.Allocated := by
  have hend := ending_reload o s
  generalize (reload o s).2 = t at hend
  cases hend with
  | rejected => exact hs
  | certificate => exact hs.abandoned _
  | build => exact hs.published _
  | bind => exact hs.ruled _
  | @applied cfg =>
    have hdropped := Live.Allocated.foldl (fun live name hlive ↦ hlive.dropCert name)
      (hs.ruled cfg)
    exact ⟨(hdropped _).registry, (hdropped _).tasks, (hdropped _).rules⟩

/-! ## The result -/

/-- A reload that does not apply leaves the live state as it was exactly when the step that fails
comes before anything it would have to undo. -/
theorem reload_atomic_iff_leavesNoTrace (o : Outcomes) (s : Server) (hs : s.Allocated) :
    ((reload o s).1 ≠ .applied → (reload o s).2.live = s.live) ↔
      ∀ cfg, o.load = .ok cfg → cfg.auth = s.authFingerprint → LeavesNoTrace o s cfg := by
  constructor
  · -- a run that fails at each of the three points, compared with the state it started from
    intro hatomic cfg hload hauth
    refine ⟨fun pre d post hds hpre hd ↦ ?_, fun hall hfails ↦ ?_, fun hall hbuilds hbind ↦ ?_⟩
    · obtain ⟨hne, hend⟩ := reload_of_certificate_failure hload hauth hds hpre hd
      exact (live_abandoned_eq_iff hs pre).mp (hend ▸ hatomic hne)
    · obtain ⟨hne, hend⟩ := reload_of_build_failure hload hauth hall hfails
      exact (live_published_eq_iff hs).mp (hend ▸ hatomic hne)
    · obtain ⟨hne, hend⟩ := reload_of_bind_failure hload hauth hall hbuilds hbind
      exact (live_ruled_eq_iff hs).mp (hend ▸ hatomic hne)
  · intro htrace hne
    have hend := ending_reload o s
    generalize (reload o s).2 = t at hend
    cases hend with
    -- refused before anything was built
    | rejected => rfl
    | certificate hload hauth hds hpre hd =>
      exact (live_abandoned_eq_iff hs _).mpr
        ((htrace _ hload hauth).certificate _ _ _ hds hpre hd)
    | build hload hauth hall hfails =>
      exact (live_published_eq_iff hs).mpr ((htrace _ hload hauth).build hall hfails)
    | bind hload hauth hall hbuilds hbind =>
      exact (live_ruled_eq_iff hs).mpr ((htrace _ hload hauth).bind hall hbuilds hbind)
    | applied _ _ _ happlied => exact absurd happlied hne

/-- A server that has been started without certificates, rate limits or listeners. -/
private def bare : Server where
  live :=
    { appState := ⟨0, none, ("", []), [], 1, ⟨2, none, none, 3, none, 4⟩⟩
      certRegistry := ∅
      certSourceFingerprints := ∅
      certHelpers := ∅
      renewals := ∅
      supervisors := ∅
      rateLimitRules := []
      listeners := [] }
  authFingerprint := "None"
  nextId := 5

private def withCerts (certificates : List CertificateDef)
    (nodup_names : (certificates.map CertificateDef.name).Nodup) : Config where
  auth := "None"
  certificates := certificates
  rateLimits := []
  geoip := none
  errorPages := []
  health := ""
  listeners := []
  nodup_names := nodup_names

/-- The router of the new configuration cannot be built. -/
private def noRouter (cfg : Config) : Outcomes where
  load := .ok cfg
  certificate _ := .ok ()
  router := .error "unknown handler"
  geoip := .ok 0
  accessLog := .ok 0
  bind _ := .ok ()

private theorem allocated_bare : bare.Allocated :=
  ⟨fun name source h ↦ absurd h (by simp [bare]), by decide, by decide⟩

/-- A certificate, a rule and a listener. -/
private def acmeSite : Config :=
  { withCerts [⟨"site", ⟨true, "Acme"⟩⟩] (nodup_singleton _) with
    rateLimits := ["login"]
    listeners := [⟨"[::]:443"⟩] }

/-- A server that runs with them. -/
private def acmeServer : Server := (reload { noRouter acmeSite with router := .ok 0 } bare).2

/-- The certificate is to be kept and the rest to go, but the router fails. -/
theorem failed_reload_keeps_certificate :
    let edited : Config := { acmeSite with rateLimits := [], listeners := [] }
    acmeServer.live.certRegistry.lookup "site" = some 5 ∧ acmeServer.live.renewalTasks = {6} ∧
      acmeServer.live.rateLimitRules = [("login", 7)] ∧
      acmeServer.live.listeners = [⟨"[::]:443"⟩] ∧
      (reload (noRouter edited) acmeServer).1 = .parseError "unknown handler" ∧
      (reload (noRouter edited) acmeServer).2.live = acmeServer.live := by
  intro edited
  have hregistry : ∀ name ∈ acmeServer.live.certRegistry.keys, name ∈ ["site"] := by
    decide +kernel
  have hfingerprints : ∀ name ∈ acmeServer.live.certSourceFingerprints.keys, name ∈ ["site"] := by
    decide +kernel
  have hsame : SameCerts acmeServer.live edited := ⟨by decide +kernel, hregistry, hfingerprints⟩
  refine ⟨by decide +kernel, by decide +kernel, by decide +kernel, by decide +kernel,
    by decide +kernel, (reload_atomic_iff_leavesNoTrace (noRouter edited) acmeServer
      (allocated_reload _ allocated_bare)).mpr ?_ (by decide +kernel)⟩
  intro cfg hload _
  cases hload
  exact ⟨fun pre d post hds _ _ d' hd' _ ↦ hsame.carried d' (hds ▸ mem_append_left _ hd'),
    fun _ _ ↦ hsame, fun _ hbuilds _ ↦ absurd (Or.inl ⟨_, rfl⟩) hbuilds⟩

/-- The added certificate is published, and renewed, although the reload fails at the router. -/
theorem failed_reload_publishes_certificate :
    let site : Config := withCerts [⟨"site", ⟨true, "Acme"⟩⟩] (nodup_singleton _)
    (reload (noRouter site) bare).1 = .parseError "unknown handler" ∧
      bare.live.certRegistry.lookup "site" = none ∧ bare.live.renewalTasks = ∅ ∧
      (reload (noRouter site) bare).2.live.certRegistry.lookup "site" = some 5 ∧
      (reload (noRouter site) bare).2.live.renewalTasks = {6} := by
  decide

end Reload

end Hypershunt
