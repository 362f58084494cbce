import Hypershunt.Foundation.HashMap
import Mathlib.Data.Finset.Sort
import Mathlib.Data.List.Sort
import Mathlib.Data.String.Basic

/-!
# Reloading the configuration

`reload` of `reload.rs`: parse the new configuration, build what it asks for, and publish it into
the cells the running server reads. Most of these steps can fail, and what a failing one returns is
an input here (`Outcomes`); the order of building and publishing is the source's.

## Identities

A certificate source, a renewal task and a rate-limit rule are objects with a life of their own (a
channel, a running loop, the buckets of the clients seen so far), so building one again does not
give the same thing. Each is represented by a number, and building takes the next unused one.

A renewal task is a loop that never ends, and a supervisor that waits for it (`spawn_supervised` of
`task.rs`). The handle that is kept is that of the supervisor, and both are known by one number.
Aborting the handle ends the supervisor. That drops the handle of the loop, which goes on: a task
whose handle is dropped is not stopped.
-/

namespace Hypershunt

namespace Reload

/-- Where a named certificate comes from. Fingerprints are made of its `Debug` form, `debug`. -/
structure TlsConfig where
  acme : Bool
  debug : String
  deriving DecidableEq

structure CertificateDef where
  name : String
  source : TlsConfig
  deriving DecidableEq

/-- A listener, known by the URL form of its address. -/
structure ListenerConfig where
  bind : String
  deriving DecidableEq

/-- A configuration that has passed validation; certificate names are unique in it. -/
structure Config where
  /-- The `Debug` form of `server.auth`. -/
  auth : String
  certificates : List CertificateDef
  rateLimits : List String
  geoip : Option String
  errorPages : List (ℕ × String)
  health : String
  listeners : List ListenerConfig
  nodup_names : (certificates.map CertificateDef.name).Nodup

/-- The parts of the application state that a reload carries forward. -/
structure Carried where
  authenticator : ℕ
  jwtManager : Option ℕ
  oidc : Option ℕ
  acmeChallenges : ℕ
  cache : Option ℕ
  metrics : ℕ
  deriving DecidableEq

structure AppState where
  router : ℕ
  geoip : Option ℕ
  health : String × List ListenerConfig
  errorPages : List (ℕ × String)
  accessLog : ℕ
  carried : Carried
  deriving DecidableEq

/-- The live state: what the running server reads, and the renewal tasks that are running. -/
structure Live where
  appState : AppState
  certRegistry : HashMap String ℕ
  certSourceFingerprints : HashMap String String
  certHelpers : HashMap String (List ℕ)
  /-- The loops that are running, each with the definition it was built from. -/
  renewals : HashMap ℕ CertificateDef
  /-- The loops whose supervisor is still there. -/
  supervisors : Finset ℕ
  rateLimitRules : List (String × ℕ)
  listeners : List ListenerConfig

def Live.renewalTasks (live : Live) : Finset ℕ := live.renewals.keys

structure Server where
  live : Live
  authFingerprint : String
  /-- The next unused identity. -/
  nextId : ℕ

/-- What the fallible steps of one reload return. -/
structure Outcomes where
  load : Except String Config
  /-- Building the source of a named certificate. -/
  certificate : String → Except String Unit
  router : Except String ℕ
  geoip : Except String ℕ
  accessLog : Except String ℕ
  bind : String → Except String Unit

inductive ReloadOutcome
  | applied
  | rejectedUnsupportedChange (reason : String)
  | parseError (message : String)
  deriving DecidableEq

/-! ## Named certificates -/

/-- The running source, if it was built from the same fingerprint. -/
def carriedForward (live : Live) (d : CertificateDef) : Option ℕ :=
  match live.certSourceFingerprints.lookup d.name with
  | some fingerprint =>
    if fingerprint = d.source.debug then live.certRegistry.lookup d.name else none
  | none => none

/-- The registry under construction, with the renewal tasks running by then. -/
structure Building where
  registry : HashMap String ℕ
  handles : List (String × ℕ)
  renewals : HashMap ℕ CertificateDef
  supervisors : Finset ℕ
  nextId : ℕ

/-- The registry the loop starts from. -/
def Server.building (s : Server) : Building :=
  ⟨∅, [], s.live.renewals, s.live.supervisors, s.nextId⟩

/-- Add one definition that can be built. A renewal task is spawned at once. -/
def Building.add (live : Live) (b : Building) (d : CertificateDef) : Building :=
  match carriedForward live d with
  | some source => { b with registry := b.registry.insert d.name source }
  | none =>
    if d.source.acme then
      { registry := b.registry.insert d.name b.nextId
        handles := b.handles ++ [(d.name, b.nextId + 1)]
        renewals := b.renewals.insert (b.nextId + 1) d
        supervisors := insert (b.nextId + 1) b.supervisors
        nextId := b.nextId + 2 }
    else { b with registry := b.registry.insert d.name b.nextId, nextId := b.nextId + 1 }

/-- The loop of `build_cert_registry`. On an error the tasks of the dropped handles go on
running. -/
def buildCertRegistry (o : Outcomes) (live : Live) :
    List CertificateDef → Building → Option String × Building
  | [], b => (none, b)
  | d :: ds, b =>
    match carriedForward live d, o.certificate d.name with
    | none, .error e => (some ("building certificate '" ++ d.name ++ "': " ++ e), b)
    | _, _ => buildCertRegistry o live ds (b.add live d)

/-- Abort tasks, which reaches their supervisors. -/
def Live.abort (live : Live) (handles : List ℕ) : Live :=
  { live with supervisors := live.supervisors \ handles.toFinset }

/-- Keep the handle of a new renewal task, and abort the one it replaces. -/
def Live.adopt (live : Live) (h : String × ℕ) : Live :=
  let live' := { live with certHelpers := live.certHelpers.insert h.1 [h.2] }
  match live.certHelpers.lookup h.1 with
  | some prev => live'.abort prev
  | none => live'

def fingerprintsOf (certificates : List CertificateDef) : HashMap String String :=
  certificates.foldl (fun m d ↦ m.insert d.name d.source.debug) ∅

/-- Publish what the loop has built. -/
def Live.publishCerts (live : Live) (cfg : Config) (b : Building) : Live :=
  let live := { live with renewals := b.renewals, supervisors := b.supervisors }
  { b.handles.foldl Live.adopt live with
    certRegistry := b.registry
    certSourceFingerprints := fingerprintsOf cfg.certificates }

/-- The end of an applied reload: drop the certificates that are no longer named. -/
def Live.dropCert (live : Live) (name : String) : Live :=
  match live.certHelpers.lookup name with
  | some handles => { live with certHelpers := live.certHelpers.erase name }.abort handles
  | none => live

/-! ## Listeners -/

/-- The listeners of the new configuration that are not running, in the order they are bound. -/
def added (old new : List ListenerConfig) : List String :=
  let binds := (new.map ListenerConfig.bind).dedup
  (binds.filter fun b ↦ decide (b ∉ old.map ListenerConfig.bind)).insertionSort (· ≤ ·)

/-- Bind in order, up to the first failure. -/
def bindAll (o : Outcomes) : List String → Option String
  | [] => none
  | b :: bs => match o.bind b with
    | .ok () => bindAll o bs
    | .error e => some ("bind '" ++ b ++ "': " ++ e)

/-! ## The reload -/

/-- `geoip::open`, when a database is configured. -/
def openGeoip (o : Outcomes) (cfg : Config) : Except String (Option ℕ) :=
  match cfg.geoip with
  | some _ => o.geoip.map some
  | none => .ok none

/-- What follows once every fallible step has succeeded. -/
def Live.swap (live : Live) (cfg : Config) (old : Live) (router : ℕ) (geoip : Option ℕ)
    (accessLog : ℕ) : Live :=
  let names := cfg.certificates.map CertificateDef.name
  let removed := old.certSourceFingerprints.keys.filter fun n ↦ decide (n ∉ names)
  { (removed.sort (· ≤ ·)).foldl Live.dropCert live with
    appState := ⟨router, geoip, (cfg.health, cfg.listeners), cfg.errorPages, accessLog,
      live.appState.carried⟩
    listeners := cfg.listeners }

/-- One reload. -/
def reload (o : Outcomes) (s : Server) : ReloadOutcome × Server :=
  match o.load with
  | .error e => (.parseError e, s)
  | .ok cfg =>
    if cfg.auth ≠ s.authFingerprint then (.rejectedUnsupportedChange "auth backend changed", s)
    else
      match buildCertRegistry o s.live cfg.certificates s.building with
      | (some e, b) =>
        (.parseError e, { s with
          live := { s.live with renewals := b.renewals, supervisors := b.supervisors }
          nextId := b.nextId })
      | (none, b) =>
        -- from here on the new certificates are live, whatever follows
        let s₁ : Server := { s with live := s.live.publishCerts cfg b, nextId := b.nextId }
        match o.router with
        | .error e => (.parseError e, s₁)
        | .ok router => match openGeoip o cfg with
          | .error e => (.parseError e, s₁)
          | .ok geoip => match o.accessLog with
            | .error e => (.parseError e, s₁)
            | .ok accessLog =>
              let s₂ : Server :=
                { s₁ with
                  live := { s₁.live with rateLimitRules := cfg.rateLimits.zipIdx s₁.nextId }
                  nextId := s₁.nextId + cfg.rateLimits.length }
              match bindAll o (added s.live.listeners cfg.listeners) with
              | some e => (.parseError e, s₂)
              | none =>
                (.applied, { s₂ with live := s₂.live.swap cfg s.live router geoip accessLog })

end Reload

end Hypershunt
