import Hypershunt.Foundation.Run
import Hypershunt.Reload.Atomicity

/-!
# Which renewal tasks run

Every named ACME certificate of the configuration is meant to have one renewal task, and no other
task is meant to run. A reload starts a task for each ACME certificate that it builds, which is each
that is not carried forward, and it starts it while it builds; so a reload that fails later, or at a
later certificate, has started tasks for a configuration that is never applied.

No reload stops a task. Of those it should stop it forgets some: a certificate that keeps its name
but no longer comes from ACME is neither replaced nor removed. The others it aborts, but that ends
their supervisors only.

So tasks are only ever added, and what runs is known from what was started. The tasks are those of
the applied configuration throughout a history of reloads exactly if no reload that fails has
started one, and every one that is applied carries forward the ACME certificates of the
configuration before it, all of them and only these.
-/

namespace Hypershunt

open List Option

namespace Reload

open Server Config HashMap

/-- The named ACME certificates of a configuration. -/
def Config.acmes (cfg : Config) : List CertificateDef :=
  cfg.certificates.filter fun d ↦ d.source.acme

/-- A running server, and the configuration that was applied last. -/
structure World where
  server : Server
  applied : Config

open World

/-- A server before its certificates are built. -/
def Server.blank (cfg : Config) (appState : AppState) (nextId : ℕ) : Server where
  live := ⟨appState, ∅, ∅, ∅, ∅, ∅, [], []⟩
  authFingerprint := cfg.auth
  nextId := nextId

/-- A fresh start: the certificates are built as in a reload, with nothing to carry forward. -/
def World.start (cfg : Config) (appState : AppState) (nextId : ℕ) : World :=
  let s := (blank cfg appState nextId).ruled cfg
  ⟨{ s with live := { s.live with listeners := cfg.listeners } }, cfg⟩

/-- One reload, applied or not. -/
def World.reload (w : World) (o : Outcomes) : World where
  server := (Reload.reload o w.server).2
  applied :=
    match (Reload.reload o w.server).1, o.load with
    | .applied, .ok cfg => cfg
    | _, _ => w.applied

def World.step (w : World) (o : Outcomes) : Option World := some (w.reload o)

/-- One task for every ACME certificate of the applied configuration, with its parameters. -/
structure World.RenewalsMatch (w : World) : Prop where
  one : ∀ d ∈ w.applied.certificates, d.source.acme = true →
    ∃! task, w.server.live.renewals.lookup task = some d
  other : ∀ task d, w.server.live.renewals.lookup task = some d →
    d ∈ w.applied.certificates ∧ d.source.acme = true

/-! ## The tasks a reload starts -/

/-- Building the definition starts a task. -/
def starts (live : Live) (d : CertificateDef) : Bool :=
  d.source.acme && (carriedForward live d).isNone

/-- The definitions for which the loop of `build_cert_registry` starts a task. -/
def startedBy (o : Outcomes) (live : Live) : List CertificateDef → List CertificateDef
  | [] => []
  | d :: ds =>
    match carriedForward live d, o.certificate d.name with
    | none, .error _ => []
    | _, _ => if starts live d then d :: startedBy o live ds else startedBy o live ds

/-- The definitions for which a reload starts a task, whether it is applied or not. -/
def started (o : Outcomes) (s : Server) : List CertificateDef :=
  match o.load with
  | .error _ => []
  | .ok cfg =>
    if cfg.auth ≠ s.authFingerprint then [] else startedBy o s.live cfg.certificates

/-- It starts no task if it fails, and otherwise carries forward the ACME certificates of the
configuration applied before it, and no others. -/
structure World.Harmless (w : World) (o : Outcomes) : Prop where
  failed : (Reload.reload o w.server).1 ≠ .applied → started o w.server = []
  applied : ∀ cfg, o.load = .ok cfg → (Reload.reload o w.server).1 = .applied →
    ∀ d, d.source.acme = true →
      (d ∈ cfg.certificates ∧ carriedForward w.server.live d ≠ none ↔
        d ∈ w.applied.certificates)

variable {o : Outcomes} {s : Server} {live : Live} {b : Building} {cfg : Config} {w : World}

theorem startedBy_append {pre : List CertificateDef} (ds : List CertificateDef)
    (h : ∀ d ∈ pre, Builds o live d) :
    startedBy o live (pre ++ ds) = pre.filter (starts live) ++ startedBy o live ds := by
  induction pre with
  | nil => rfl
  | cons d pre ih =>
    rw [cons_append, startedBy, filter_cons, ih fun d' hd' ↦ h d' (mem_cons_of_mem d hd')]
    split
    case h_1 e hcarried hcertificate =>
      rcases h d mem_cons_self with hd | hd
      · exact absurd hcarried hd
      · rw [hd] at hcertificate
        cases hcertificate
    case h_2 =>
      split
      · rfl
      · rfl

theorem startedBy_eq_filter {ds : List CertificateDef} (h : ∀ d ∈ ds, Builds o live d) :
    startedBy o live ds = ds.filter (starts live) := by
  have happend := startedBy_append [] h
  rwa [append_nil, startedBy, append_nil] at happend

theorem startedBy_cons_of_not_builds {d : CertificateDef} (ds : List CertificateDef)
    (h : ¬Builds o live d) : startedBy o live (d :: ds) = [] := by
  rw [Builds, not_or, not_not] at h
  obtain ⟨hcarried, hcertificate⟩ := h
  rcases hc : o.certificate d.name with e | u
  · rw [startedBy, hcarried, hc]
  · exact absurd hc hcertificate

theorem values_renewals_add (hb : ∀ task ∈ b.renewals, task < b.nextId) (d : CertificateDef) :
    (b.add live d).renewals.values =
      b.renewals.values + if starts live d then {d} else 0 := by
  unfold Building.add starts
  rcases hcarried : carriedForward live d with _ | source
  · by_cases hacme : d.source.acme = true
    · have hnew : b.nextId + 1 ∉ b.renewals := by
        intro hmem
        have hlt := hb _ hmem
        omega
      rw [if_pos hacme, hacme, isNone_none, Bool.and_self, if_pos rfl,
        values_insert_of_notMem hnew, add_comm, Multiset.singleton_add]
    · rw [if_neg hacme, Bool.eq_false_iff.mpr hacme, Bool.false_and, if_neg Bool.false_ne_true,
        add_zero]
  · rw [isNone_some, Bool.and_false, if_neg Bool.false_ne_true, add_zero]

theorem renewals_lt_nextId_add (hb : ∀ task ∈ b.renewals, task < b.nextId) (d : CertificateDef) :
    ∀ task ∈ (b.add live d).renewals, task < (b.add live d).nextId := by
  intro task htask
  rcases lt_of_mem_renewals_add htask with hmem | hlt
  · exact (hb task hmem).trans_le (nextId_le_add d)
  · exact hlt

/-- What the loop starts, one task for each definition. -/
theorem values_renewals_foldl_add (hb : ∀ task ∈ b.renewals, task < b.nextId)
    (ds : List CertificateDef) :
    (ds.foldl (Building.add live) b).renewals.values =
      b.renewals.values + ↑(ds.filter (starts live)) := by
  induction ds generalizing b with
  | nil => exact (add_zero _).symm
  | cons d ds ih =>
    rw [foldl_cons, ih (renewals_lt_nextId_add hb d), values_renewals_add hb d, add_assoc,
      filter_cons]
    split
    · rw [Multiset.singleton_add, Multiset.cons_coe]
    · rw [zero_add]

theorem Server.Allocated.values_built (hs : s.Allocated) (ds : List CertificateDef) :
    (ds.foldl (Building.add s.live) s.building).renewals.values =
      s.live.renewals.values + ↑(ds.filter (starts s.live)) :=
  values_renewals_foldl_add (fun task htask ↦ hs.tasks task (Finmap.mem_keys.mpr htask)) ds

/-! ## Nothing else changes them -/

theorem renewals_foldl_adopt (handles : List (String × ℕ)) :
    (handles.foldl Live.adopt live).renewals = live.renewals := by
  induction handles generalizing live with
  | nil => rfl
  | cons h handles ih =>
    rw [foldl_cons, ih, Live.adopt]
    split <;> rfl

theorem renewals_foldl_dropCert (names : List String) :
    (names.foldl Live.dropCert live).renewals = live.renewals := by
  induction names generalizing live with
  | nil => rfl
  | cons name names ih =>
    rw [foldl_cons, ih, Live.dropCert]
    split <;> rfl

theorem renewals_ruled : (s.ruled cfg).live.renewals = (s.built cfg).renewals :=
  renewals_foldl_adopt (s.built cfg).handles

theorem renewals_swap {old : Live} {router : ℕ} {geoip : Option ℕ} {accessLog : ℕ} :
    (live.swap cfg old router geoip accessLog).renewals = live.renewals :=
  renewals_foldl_dropCert _

theorem started_of_load (hload : o.load = .ok cfg) (hauth : cfg.auth = s.authFingerprint) :
    started o s = startedBy o s.live cfg.certificates := by
  simp only [started, hload, hauth, ne_eq, not_true_eq_false, if_false]

/-- After a reload the tasks that ran before it are running, and those that it has started. -/
theorem values_renewals_reload (o : Outcomes) (hs : s.Allocated) :
    (reload o s).2.live.renewals.values = s.live.renewals.values + ↑(started o s) := by
  have hend := ending_reload o s
  generalize (reload o s).2 = t at hend
  cases hend with
  | rejected hrejected =>
    have hnone : started o s = [] := by
      rw [started]
      split
      · rfl
      · exact if_pos (hrejected _ ‹_›)
    rw [hnone, Multiset.coe_nil, add_zero]
  | certificate hload hauth hds hpre hd =>
    rw [started_of_load hload hauth, hds, startedBy_append _ hpre,
      startedBy_cons_of_not_builds _ hd, append_nil, ← hs.values_built]
    rfl
  | build hload hauth hall =>
    rw [started_of_load hload hauth, startedBy_eq_filter hall, ← hs.values_built]
    exact congrArg values (renewals_foldl_adopt _)
  | bind hload hauth hall =>
    rw [started_of_load hload hauth, startedBy_eq_filter hall, ← hs.values_built]
    exact congrArg values renewals_ruled
  | applied hload hauth hall =>
    rw [started_of_load hload hauth, startedBy_eq_filter hall, ← hs.values_built]
    exact congrArg values (renewals_swap.trans renewals_ruled)

/-! ## The tasks of a configuration -/

theorem Config.mem_acmes {d : CertificateDef} :
    d ∈ cfg.acmes ↔ d ∈ cfg.certificates ∧ d.source.acme = true := mem_filter

theorem Config.nodup_acmes (cfg : Config) : cfg.acmes.Nodup :=
  (List.Nodup.of_map CertificateDef.name cfg.nodup_names).filter _

/-- The tasks, seen as what they renew. -/
theorem World.renewalsMatch_iff :
    w.RenewalsMatch ↔ w.server.live.renewals.values = ↑w.applied.acmes := by
  rw [values_eq_coe_iff w.applied.nodup_acmes]
  constructor
  · rintro ⟨hone, hother⟩
    refine ⟨fun d hd ↦ ?_, fun task d hd ↦ mem_acmes.mpr (hother task d hd)⟩
    exact hone d (mem_acmes.mp hd).1 (mem_acmes.mp hd).2
  · rintro ⟨hone, hother⟩
    refine ⟨fun d hd hacme ↦ ?_, fun task d hd ↦ mem_acmes.mp (hother task d hd)⟩
    exact hone d (mem_acmes.mpr ⟨hd, hacme⟩)

/-- The ACME certificates of a configuration are those carried forward and those built. -/
theorem Config.acmes_eq_add (cfg : Config) (live : Live) :
    (cfg.acmes : Multiset CertificateDef) =
      ↑(cfg.acmes.filter fun d ↦ (carriedForward live d).isSome) +
        ↑(cfg.certificates.filter (starts live)) := by
  have hstarts : cfg.certificates.filter (starts live) =
      cfg.acmes.filter fun d ↦ !(carriedForward live d).isSome := by
    rw [acmes, List.filter_filter]
    refine filter_congr fun d _ ↦ ?_
    rw [starts, Bool.and_comm, not_isSome]
  rw [hstarts, Multiset.coe_add, Multiset.coe_eq_coe]
  exact (filter_append_perm _ _).symm

/-! ## One reload -/

theorem builds_of_applied (happlied : (reload o s).1 = .applied) (hload : o.load = .ok cfg) :
    cfg.auth = s.authFingerprint ∧ ∀ d ∈ cfg.certificates, Builds o s.live d := by
  have hauth : cfg.auth = s.authFingerprint := by
    by_contra hne
    simp only [reload, hload, ne_eq, hne, not_false_eq_true, if_true] at happlied
    cases happlied
  refine ⟨hauth, ?_⟩
  rcases all_builds_or_first_failure o s.live cfg.certificates with
    hall | ⟨pre, d, post, hds, hpre, hd⟩
  · exact hall
  · exact absurd happlied (reload_of_certificate_failure hload hauth hds hpre hd).1

theorem started_of_applied (happlied : (reload o s).1 = .applied) (hload : o.load = .ok cfg) :
    started o s = cfg.certificates.filter (starts s.live) := by
  obtain ⟨hauth, hall⟩ := builds_of_applied happlied hload
  rw [started_of_load hload hauth, startedBy_eq_filter hall]

theorem exists_load_of_applied (happlied : (reload o s).1 = .applied) :
    ∃ cfg, o.load = .ok cfg := by
  rcases hload : o.load with e | cfg
  · simp only [reload, hload] at happlied
    cases happlied
  · exact ⟨cfg, rfl⟩

theorem World.applied_reload (happlied : (Reload.reload o w.server).1 = .applied)
    (hload : o.load = .ok cfg) : (w.reload o).applied = cfg := by
  simp only [reload, happlied, hload]

theorem World.applied_reload_of_failed (hfailed : (Reload.reload o w.server).1 ≠ .applied) :
    (w.reload o).applied = w.applied := by
  simp only [reload]
  split
  case h_1 happlied _ => exact absurd happlied hfailed
  case h_2 => rfl

/-- A reload keeps the tasks those of the configuration exactly if it is harmless. -/
theorem World.renewalsMatch_reload_iff (hs : w.server.Allocated) (hmatch : w.RenewalsMatch) :
    (w.reload o).RenewalsMatch ↔ w.Harmless o := by
  rw [renewalsMatch_iff] at hmatch ⊢
  have hvalues : (w.reload o).server.live.renewals.values =
      ↑w.applied.acmes + ↑(started o w.server) := hmatch ▸ values_renewals_reload o hs
  rw [hvalues]
  by_cases happlied : (Reload.reload o w.server).1 = .applied
  · obtain ⟨cfg, hload⟩ := exists_load_of_applied happlied
    -- what was built counts on both sides, so what was carried forward is left to compare
    rw [applied_reload happlied hload, started_of_applied happlied hload, cfg.acmes_eq_add
      w.server.live, add_left_inj, (Multiset.coe_nodup.mpr w.applied.nodup_acmes).ext
      (Multiset.coe_nodup.mpr (cfg.nodup_acmes.filter _))]
    simp only [Multiset.mem_coe, mem_filter, mem_acmes, isSome_iff_ne_none]
    constructor
    · intro hiff
      refine ⟨fun hfailed ↦ absurd happlied hfailed, fun cfg' hload' _ d hacme ↦ ?_⟩
      obtain rfl : cfg = cfg' := Except.ok.inj (hload.symm.trans hload')
      have hd := hiff d
      rw [and_iff_left hacme, and_iff_left hacme] at hd
      exact hd.symm
    · intro hharmless d
      have hd := hharmless.applied cfg hload happlied d
      constructor
      · rintro ⟨hmem, hacme⟩
        obtain ⟨hcfg, hcarried⟩ := (hd hacme).mpr hmem
        exact ⟨⟨hcfg, hacme⟩, hcarried⟩
      · rintro ⟨⟨hcfg, hacme⟩, hcarried⟩
        exact ⟨(hd hacme).mp ⟨hcfg, hcarried⟩, hacme⟩
  · rw [applied_reload_of_failed happlied, add_eq_left, Multiset.coe_eq_zero]
    exact ⟨fun hnone ↦ ⟨fun _ ↦ hnone, fun _ _ hyes ↦ absurd hyes happlied⟩,
      fun hharmless ↦ hharmless.failed happlied⟩

/-! ## Histories -/

theorem allocated_blank (cfg : Config) (appState : AppState) (nextId : ℕ) :
    (blank cfg appState nextId).Allocated := by
  refine ⟨fun name source hsource ↦ ?_, fun task htask ↦ ?_, fun rule hrule ↦ ?_⟩
  · cases (Finmap.lookup_empty name).symm.trans hsource
  · exact absurd (Finmap.mem_keys.mp htask) Finmap.notMem_empty
  · exact absurd hrule not_mem_nil

theorem World.allocated_start (cfg : Config) (appState : AppState) (nextId : ℕ) :
    (start cfg appState nextId).server.Allocated :=
  let h := (allocated_blank cfg appState nextId).ruled cfg
  ⟨h.registry, h.tasks, h.rules⟩

/-- A fresh start has nothing to carry forward, so it starts a task for every ACME certificate. -/
theorem World.renewalsMatch_start (cfg : Config) (appState : AppState) (nextId : ℕ) :
    (start cfg appState nextId).RenewalsMatch := by
  rw [renewalsMatch_iff]
  have hstarts : cfg.certificates.filter (starts (blank cfg appState nextId).live) =
      cfg.acmes := by
    refine filter_congr fun d _ ↦ ?_
    have hnew : carriedForward (blank cfg appState nextId).live d = none := by
      simp only [carriedForward, blank, Finmap.lookup_empty]
    rw [starts, hnew, isNone_none, Bool.and_true]
  calc (start cfg appState nextId).server.live.renewals.values
      = ((blank cfg appState nextId).built cfg).renewals.values :=
        congrArg values renewals_ruled
    _ = 0 + ↑cfg.acmes := by
        rw [built, (allocated_blank cfg appState nextId).values_built, hstarts]
        rfl
    _ = ↑cfg.acmes := zero_add _

theorem World.run_step (w : World) (os : List Outcomes) :
    run step w os = some (os.foldl reload w) := by
  induction os generalizing w with
  | nil => rfl
  | cons o os ih => exact ih (w.reload o)

/-- What a history of harmless reloads keeps. -/
structure World.Sound (w : World) : Prop where
  allocated : w.server.Allocated
  renewals : w.RenewalsMatch

theorem World.sound_start (cfg : Config) (appState : AppState) (nextId : ℕ) :
    (start cfg appState nextId).Sound :=
  ⟨allocated_start cfg appState nextId, renewalsMatch_start cfg appState nextId⟩

/-- After a fresh start, the renewal tasks are those of the applied configuration exactly if all the
reloads are harmless. -/
theorem renewalsMatch_always_iff (cfg : Config) (appState : AppState) (nextId : ℕ)
    (os : List Outcomes) :
    Always step World.RenewalsMatch (start cfg appState nextId) os ↔
      AllSteps step World.Harmless (start cfg appState nextId) os := by
  refine always_iff_allSteps (sound_start cfg appState nextId) (fun _ h ↦ h.renewals) ?_ ?_
    (run_step _ os)
  · rintro w o _ ⟨hs, hmatch⟩ hharmless ⟨⟩
    exact ⟨allocated_reload o hs, (renewalsMatch_reload_iff hs hmatch).mpr hharmless⟩
  · rintro w o _ ⟨hs, hmatch⟩ hharmful ⟨⟩
    exact (renewalsMatch_reload_iff hs hmatch).not.mpr hharmful

/-! ### A certificate that no longer comes from ACME -/

private def site (source : TlsConfig) : Config where
  auth := "None"
  certificates := [⟨"site", source⟩]
  rateLimits := []
  geoip := none
  errorPages := []
  health := ""
  listeners := []
  nodup_names := nodup_singleton _

private def fromAcme : TlsConfig := ⟨true, "Acme \x7b domains: [\"a.example\"] \x7d"⟩

private def fromFiles : TlsConfig :=
  ⟨false, "Files \x7b cert: \"c.pem\", key: \"k.pem\" \x7d"⟩

/-- Every step succeeds. -/
private def succeeds (cfg : Config) : Outcomes where
  load := .ok cfg
  certificate _ := .ok ()
  router := .ok 0
  geoip := .ok 0
  accessLog := .ok 0
  bind _ := .ok ()

private def begun : World :=
  .start (site fromAcme) ⟨0, none, ("", []), [], 1, ⟨2, none, none, 3, none, 4⟩⟩ 5

/-- The certificate is read from files now; the task goes on, and nobody has tried to stop it. -/
theorem files_leave_acme_renewal :
    (reload (succeeds (site fromFiles)) begun.server).1 = .applied ∧
      (begun.reload (succeeds (site fromFiles))).applied.certificates = [⟨"site", fromFiles⟩] ∧
      (begun.reload (succeeds (site fromFiles))).server.live.renewals.lookup 6 =
        some ⟨"site", fromAcme⟩ ∧
      (begun.reload (succeeds (site fromFiles))).server.live.supervisors = {6} ∧
      ¬(begun.reload (succeeds (site fromFiles))).RenewalsMatch := by
  have hlookup : (begun.reload (succeeds (site fromFiles))).server.live.renewals.lookup 6 =
      some ⟨"site", fromAcme⟩ := by decide +kernel
  refine ⟨by decide +kernel, by decide +kernel, hlookup, by decide +kernel, fun hmatch ↦ ?_⟩
  obtain ⟨hmem, -⟩ := hmatch.other 6 _ hlookup
  exact absurd hmem (by decide)

end Reload

end Hypershunt
