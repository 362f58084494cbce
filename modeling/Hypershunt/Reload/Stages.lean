import Hypershunt.Reload.Reload

/-!
# Where a reload ends

A reload goes through its fallible steps in a fixed order, so it ends in one of five ways, and the
state it leaves is determined by which: `Ending` lists them, and `ending_reload` says that there are
no others.

* The configuration is not accepted, and nothing happens.
* A certificate cannot be built. The renewal tasks of those built before it keep running.
* The router, the GeoIP database or the access log fails. The certificates are published.
* A listener cannot be bound. The certificates and the rate-limit rules are published.
* Everything succeeds, and the new state is swapped in.
-/

namespace Hypershunt

namespace Reload

open Building List

variable {o : Outcomes} {s : Server} {live : Live} {b : Building} {cfg : Config}
  {d : CertificateDef}

/-! ## The certificate loop -/

/-- The definition is carried forward, or its source can be built. -/
def Builds (o : Outcomes) (live : Live) (d : CertificateDef) : Prop :=
  carriedForward live d ≠ none ∨ o.certificate d.name = .ok ()

theorem buildCertRegistry_cons_of_builds {ds : List CertificateDef} (h : Builds o live d) :
    buildCertRegistry o live (d :: ds) b = buildCertRegistry o live ds (b.add live d) := by
  rw [buildCertRegistry]
  split
  case h_1 e hcarried hcertificate =>
    rcases h with h | h
    · exact absurd hcarried h
    · rw [h] at hcertificate
      cases hcertificate
  case h_2 => rfl

theorem buildCertRegistry_append {pre : List CertificateDef} (ds : List CertificateDef)
    (b : Building) (h : ∀ d ∈ pre, Builds o live d) :
    buildCertRegistry o live (pre ++ ds) b =
      buildCertRegistry o live ds (pre.foldl (add live) b) := by
  induction pre generalizing b with
  | nil => rfl
  | cons d pre ih =>
    rw [cons_append, buildCertRegistry_cons_of_builds (h d mem_cons_self),
      ih _ fun d' hd' ↦ h d' (mem_cons_of_mem d hd'), foldl_cons]

theorem buildCertRegistry_of_not_builds (ds : List CertificateDef) (b : Building)
    (h : ¬Builds o live d) : ∃ e, buildCertRegistry o live (d :: ds) b = (some e, b) := by
  rw [Builds, not_or, not_not] at h
  obtain ⟨hcarried, hcertificate⟩ := h
  cases hc : o.certificate d.name with
  | ok => exact absurd hc hcertificate
  | error e =>
    rw [buildCertRegistry, hcarried, hc]
    exact ⟨_, rfl⟩

/-- The first definition that cannot be built, if there is one. -/
theorem all_builds_or_first_failure (o : Outcomes) (live : Live) (ds : List CertificateDef) :
    (∀ d ∈ ds, Builds o live d) ∨ ∃ pre d post, ds = pre ++ d :: post ∧
      (∀ d' ∈ pre, Builds o live d') ∧ ¬Builds o live d := by
  induction ds with
  | nil => exact Or.inl fun d hd ↦ absurd hd not_mem_nil
  | cons d ds ih =>
    by_cases hd : Builds o live d
    · rcases ih with hall | ⟨pre, d', post, rfl, hpre, hd'⟩
      · exact Or.inl (forall_mem_cons.mpr ⟨hd, hall⟩)
      · exact Or.inr ⟨d :: pre, d', post, rfl, forall_mem_cons.mpr ⟨hd, hpre⟩, hd'⟩
    · exact Or.inr ⟨[], d, ds, rfl, fun d' hd' ↦ absurd hd' not_mem_nil, hd⟩

/-- The registry after a loop without failure. -/
def Server.built (s : Server) (cfg : Config) : Building :=
  cfg.certificates.foldl (add s.live) s.building

/-! ## The steps after it -/

/-- Some step before the binding of listeners fails, certificates apart. -/
def BuildFails (o : Outcomes) (cfg : Config) : Prop :=
  (∃ e, o.router = .error e) ∨ (∃ e, openGeoip o cfg = .error e) ∨ ∃ e, o.accessLog = .error e

/-- Some new listener cannot be bound. -/
def BindFails (o : Outcomes) (s : Server) (cfg : Config) : Prop :=
  ∃ e, bindAll o (added s.live.listeners cfg.listeners) = some e

/-- The server after a certificate could not be built. -/
def Server.abandoned (s : Server) (pre : List CertificateDef) : Server :=
  let b := pre.foldl (add s.live) s.building
  { s with
    live := { s.live with renewals := b.renewals, supervisors := b.supervisors }
    nextId := b.nextId }

/-- The server after the certificates are published. -/
def Server.published (s : Server) (cfg : Config) : Server :=
  { s with live := s.live.publishCerts cfg (s.built cfg), nextId := (s.built cfg).nextId }

/-- The rate-limit rules of the new router. -/
def Server.newRules (s : Server) (cfg : Config) : List (String × ℕ) :=
  cfg.rateLimits.zipIdx (s.built cfg).nextId

/-- The server after the rate-limit rules are published as well. -/
def Server.ruled (s : Server) (cfg : Config) : Server :=
  { s.published cfg with
    live := { (s.published cfg).live with rateLimitRules := s.newRules cfg }
    nextId := (s.built cfg).nextId + cfg.rateLimits.length }

theorem exists_ok_of_not_buildFails (h : ¬BuildFails o cfg) :
    ∃ router geoip accessLog, o.router = .ok router ∧ openGeoip o cfg = .ok geoip ∧
      o.accessLog = .ok accessLog := by
  rw [BuildFails, not_or, not_or] at h
  obtain ⟨hrouter, hgeoip, haccess⟩ := h
  cases hr : o.router with
  | error e => exact absurd ⟨e, hr⟩ hrouter
  | ok router => cases hg : openGeoip o cfg with
    | error e => exact absurd ⟨e, hg⟩ hgeoip
    | ok geoip => cases ha : o.accessLog with
      | error e => exact absurd ⟨e, ha⟩ haccess
      | ok accessLog => exact ⟨router, geoip, accessLog, rfl, rfl, rfl⟩

theorem buildCertRegistry_of_all (hall : ∀ d ∈ cfg.certificates, Builds o s.live d) :
    buildCertRegistry o s.live cfg.certificates s.building = (none, s.built cfg) := by
  have hbuild := buildCertRegistry_append [] s.building hall
  rwa [append_nil] at hbuild

section Stages

variable (hload : o.load = .ok cfg) (hauth : cfg.auth = s.authFingerprint)

include hload hauth

theorem reload_of_certificate_failure {pre post : List CertificateDef}
    (hds : cfg.certificates = pre ++ d :: post) (hpre : ∀ d' ∈ pre, Builds o s.live d')
    (hd : ¬Builds o s.live d) : (reload o s).1 ≠ .applied ∧ (reload o s).2 = s.abandoned pre := by
  have hbuild := buildCertRegistry_append (d :: post) s.building hpre
  obtain ⟨e, he⟩ := buildCertRegistry_of_not_builds post
    (pre.foldl (add s.live) s.building) hd
  rw [← hds, he] at hbuild
  simp only [reload, hload, hauth, ne_eq, not_true_eq_false, if_false, hbuild]
  exact ⟨ReloadOutcome.noConfusion, rfl⟩

variable (hall : ∀ d ∈ cfg.certificates, Builds o s.live d)

include hall

theorem reload_of_build_failure (hfails : BuildFails o cfg) :
    (reload o s).1 ≠ .applied ∧ (reload o s).2 = s.published cfg := by
  simp only [reload, hload, hauth, ne_eq, not_true_eq_false, if_false,
    buildCertRegistry_of_all hall]
  -- whichever step fails, it returns the state in which the certificates are published
  cases hr : o.router with
  | error e => exact ⟨ReloadOutcome.noConfusion, rfl⟩
  | ok router => cases hg : openGeoip o cfg with
    | error e => exact ⟨ReloadOutcome.noConfusion, rfl⟩
    | ok geoip => cases ha : o.accessLog with
      | error e => exact ⟨ReloadOutcome.noConfusion, rfl⟩
      | ok accessLog =>
        rw [BuildFails, hr, hg, ha] at hfails
        rcases hfails with ⟨e, he⟩ | ⟨e, he⟩ | ⟨e, he⟩ <;> cases he

theorem reload_of_bind_failure (hbuilds : ¬BuildFails o cfg) (hbind : BindFails o s cfg) :
    (reload o s).1 ≠ .applied ∧ (reload o s).2 = s.ruled cfg := by
  obtain ⟨router, geoip, accessLog, hr, hg, ha⟩ := exists_ok_of_not_buildFails hbuilds
  obtain ⟨e, he⟩ := hbind
  simp only [reload, hload, hauth, ne_eq, not_true_eq_false, if_false,
    buildCertRegistry_of_all hall, hr, hg, ha, he]
  exact ⟨ReloadOutcome.noConfusion, rfl⟩

theorem reload_applied (hbuilds : ¬BuildFails o cfg) (hbind : ¬BindFails o s cfg) :
    ∃ router geoip accessLog, reload o s = (.applied,
      { s.ruled cfg with live := (s.ruled cfg).live.swap cfg s.live router geoip accessLog }) := by
  obtain ⟨router, geoip, accessLog, hr, hg, ha⟩ := exists_ok_of_not_buildFails hbuilds
  have hnone : bindAll o (added s.live.listeners cfg.listeners) = none :=
    Option.eq_none_iff_forall_ne_some.mpr fun e he ↦ hbind ⟨e, he⟩
  refine ⟨router, geoip, accessLog, ?_⟩
  simp only [reload, hload, hauth, ne_eq, not_true_eq_false, if_false,
    buildCertRegistry_of_all hall, hr, hg, ha, hnone]
  rfl

end Stages

/-! ## The endings -/

/-- The state a reload can leave, with what made it end there. -/
inductive Ending (o : Outcomes) (s : Server) : Server → Prop
  | rejected (h : ∀ cfg, o.load = .ok cfg → cfg.auth ≠ s.authFingerprint) : Ending o s s
  | certificate {cfg : Config} (hload : o.load = .ok cfg) (hauth : cfg.auth = s.authFingerprint)
      {pre post : List CertificateDef} {d : CertificateDef}
      (hds : cfg.certificates = pre ++ d :: post) (hpre : ∀ d' ∈ pre, Builds o s.live d')
      (hd : ¬Builds o s.live d) : Ending o s (s.abandoned pre)
  | build {cfg : Config} (hload : o.load = .ok cfg) (hauth : cfg.auth = s.authFingerprint)
      (hall : ∀ d ∈ cfg.certificates, Builds o s.live d) (hfails : BuildFails o cfg) :
      Ending o s (s.published cfg)
  | bind {cfg : Config} (hload : o.load = .ok cfg) (hauth : cfg.auth = s.authFingerprint)
      (hall : ∀ d ∈ cfg.certificates, Builds o s.live d) (hbuilds : ¬BuildFails o cfg)
      (hbind : BindFails o s cfg) : Ending o s (s.ruled cfg)
  | applied {cfg : Config} (hload : o.load = .ok cfg) (hauth : cfg.auth = s.authFingerprint)
      (hall : ∀ d ∈ cfg.certificates, Builds o s.live d) (happlied : (reload o s).1 = .applied)
      (router : ℕ) (geoip : Option ℕ) (accessLog : ℕ) : Ending o s { s.ruled cfg with
        live := (s.ruled cfg).live.swap cfg s.live router geoip accessLog }

theorem reload_of_rejected (h : ∀ cfg, o.load = .ok cfg → cfg.auth ≠ s.authFingerprint) :
    (reload o s).2 = s := by
  cases hload : o.load with
  | error e => simp only [reload, hload]
  | ok cfg => simp only [reload, hload, if_pos (h cfg hload)]

theorem ending_reload (o : Outcomes) (s : Server) : Ending o s (reload o s).2 := by
  by_cases hrejected : ∀ cfg, o.load = .ok cfg → cfg.auth ≠ s.authFingerprint
  · rw [reload_of_rejected hrejected]
    exact .rejected hrejected
  push Not at hrejected
  obtain ⟨cfg, hload, hauth⟩ := hrejected
  -- the first step that fails decides which state is returned
  rcases all_builds_or_first_failure o s.live cfg.certificates with
    hall | ⟨pre, d, post, hds, hpre, hd⟩
  · by_cases hfails : BuildFails o cfg
    · rw [(reload_of_build_failure hload hauth hall hfails).2]
      exact .build hload hauth hall hfails
    by_cases hbind : BindFails o s cfg
    · rw [(reload_of_bind_failure hload hauth hall hfails hbind).2]
      exact .bind hload hauth hall hfails hbind
    · obtain ⟨router, geoip, accessLog, hreload⟩ := reload_applied hload hauth hall hfails hbind
      have happlied : (reload o s).1 = .applied := congrArg Prod.fst hreload
      rw [congrArg Prod.snd hreload]
      exact .applied hload hauth hall happlied router geoip accessLog
  · rw [(reload_of_certificate_failure hload hauth hds hpre hd).2]
    exact .certificate hload hauth hds hpre hd

end Reload

end Hypershunt
