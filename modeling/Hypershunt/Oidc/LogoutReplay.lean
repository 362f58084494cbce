import Hypershunt.Foundation.Fallible
import Hypershunt.Oidc.Session

/-!
# Replayed logout tokens

A back-channel logout token counts once. Its id is remembered for a configured time and then
forgotten, by the next delivery or by a sweep, so that what keeps it out later is its age: a token
is accepted only while the wall clock is within the allowed skew of its issue time.

## The two windows

Acceptance is measured on the wall clock in whole seconds and forgetting on the monotonic clock in
nanoseconds. Two readings at which the same issue time is accepted are less than twice the skew and
one second apart (`lt_of_accepted`), whatever wraps around in the arithmetic on 64-bit integers:
readings far enough apart for that would lie past the last instant at which an id can still be
recorded, where the addition of the lifetime panics instead.

## Runs

A delivery is one step, with one clock reading for both clocks, and so is a sweep; readings do not
go back. A panic while the ids are locked poisons the mutex, and later deliveries panic on it.
-/

namespace Hypershunt

namespace Oidc

open Duration Option

/-- How a delivery ends. -/
inductive Delivery
  | accepted (removed : ℕ)
  | rejected (error : String)
  | panicked
  deriving DecidableEq

/-- An accepted token. -/
structure AcceptedLogout where
  jti : String
  iat : ℤ
  time : Instant
  deriving DecidableEq

/-- A provider between deliveries. `accepted`, the newest first, is history. -/
structure LogoutRun where
  provider : Provider
  poisoned : Bool
  clock : Instant
  accepted : List AcceptedLogout

open LogoutRun

inductive LogoutEvent
  | deliver (token : String) (now : Instant)
  | sweep (now : Instant)
  deriving DecidableEq

/-- The wall clock in whole seconds, `offset` nanoseconds ahead of the monotonic clock. -/
def wallSecs (offset : ℤ) (now : Instant) : ℤ := wrapI64 ((now + offset) / 10 ^ 9)

/-- The issue time of a token. -/
def issuedAt (payload : Json) : Option ℤ := (payload.get "iat").bind Json.asI64

section

variable (verify : String → Except String Json) (offset : ℤ)

/-- What a token names, once it has been parsed, verified and checked. -/
def Provider.logoutClaims (p : Provider) (token : String) (now : Instant) :
    Except String (Json × LogoutClaims) := do
  let payload ← verify token
  let claims ← checkBackchannelClaims payload p.cfg.issuer p.cfg.clientId (wallSecs offset now)
    (wrapI64 p.cfg.maxIatSkewSecs)
  return (payload, claims)

/-- `apply_backchannel_logout`. -/
def LogoutRun.deliver (s : LogoutRun) (token : String) (now : Instant) : Delivery × LogoutRun :=
  let p := s.provider
  if now + offset < 0 then (.rejected "clock before epoch", s)
  else match p.logoutClaims verify offset token now with
    | .error e => (.rejected e, s)
    | .ok (payload, claims) =>
      if s.poisoned then (.panicked, s)
      else match recordJti p.seenJtis claims.jti now p.cfg.jtiTtl with
        | (false, seen) =>
          (.rejected "logout_token jti replay detected",
            { s with provider := { p with seenJtis := seen } })
        | (true, seen) =>
          if Instant.limit ≤ now + p.cfg.jtiTtl then
            -- the map has been pruned, and the panic leaves it locked
            (.panicked, { s with
              provider := { p with
                seenJtis := p.seenJtis.retain fun _ expiresAt ↦ decide (now < expiresAt) }
              poisoned := true })
          else
            let q := { p with seenJtis := seen }.tearDown claims
            (.accepted (p.sessions.refreshes.keys.card - q.sessions.refreshes.keys.card),
              { s with
                provider := q
                accepted := ((issuedAt payload).map fun iat ↦ ⟨claims.jti, iat, now⟩).toList ++
                  s.accepted })

/-- The part of `evict_expired` that forgets token ids. -/
def LogoutRun.sweep (s : LogoutRun) (now : Instant) : LogoutRun :=
  if s.poisoned then s
  else
    { s with provider := { s.provider with
        seenJtis := s.provider.seenJtis.retain fun _ expiresAt ↦ decide (now ≤ expiresAt) } }

/-- One step, at a reading of the clock that is not before the last one. -/
def logoutStep (s : LogoutRun) : LogoutEvent → Option LogoutRun
  | .deliver token now =>
    if now < s.clock then none
    else some { (s.deliver verify offset token now).2 with clock := now }
  | .sweep now => if now < s.clock then none else some { s.sweep now with clock := now }

end

variable {verify : String → Except String Json} {offset : ℤ} {s t : LogoutRun} {p : Provider}

/-! ## The windows -/

/-- The age check of `check_backchannel_claims`. -/
def Fresh (wall iat maxSkew : ℤ) : Prop := wrapI64 (wrapI64 (wall - iat)).natAbs ≤ maxSkew

/-- A wrapped age that passes is within the skew, or is the one number without an absolute value. -/
theorem natAbs_le_of_fresh {wall iat skew : ℤ} (hskew : 0 ≤ skew)
    (h : Fresh wall iat skew) :
    ((wrapI64 (wall - iat)).natAbs : ℤ) ≤ skew ∨ wrapI64 (wall - iat) = -2 ^ 63 := by
  obtain ⟨-, -, hlow, hhigh⟩ := wrapI64_spec (wall - iat)
  obtain ⟨k, hk, hlow', hhigh'⟩ := wrapI64_spec (wrapI64 (wall - iat)).natAbs
  rw [Fresh] at h
  omega

/-- **The windows meet**: the same issue time is fresh for less than the lifetime of an id. -/
theorem lt_of_accepted {now now' skew ttl : ℕ} {iat : ℤ} (hle : now ≤ now')
    (hfresh : Fresh (wallSecs offset now) iat (wrapI64 skew))
    (hfresh' : Fresh (wallSecs offset now') iat (wrapI64 skew))
    (httl : fromSecs (2 * skew + 1) ≤ ttl) (hlimit : now' + ttl < Instant.limit) :
    now' < now + ttl := by
  by_contra hfar
  have hlimit : now' + ttl < 2 ^ 63 * 10 ^ 9 := hlimit
  have httl : (2 * skew + 1) * 10 ^ 9 ≤ ttl := httl
  -- such a skew is small enough not to wrap itself
  have hskew : wrapI64 skew = skew := by
    obtain ⟨k, hk, hlow, hhigh⟩ := wrapI64_spec skew
    omega
  rw [hskew] at hfresh hfresh'
  obtain ⟨a, ha, -, -⟩ := wrapI64_spec ((now + offset) / 10 ^ 9)
  obtain ⟨a', ha', -, -⟩ := wrapI64_spec ((now' + offset) / 10 ^ 9)
  obtain ⟨b, hb, -, -⟩ := wrapI64_spec (wallSecs offset now - iat)
  obtain ⟨b', hb', -, -⟩ := wrapI64_spec (wallSecs offset now' - iat)
  rw [wallSecs] at hb hb'
  have hage := natAbs_le_of_fresh (Int.natCast_nonneg skew) hfresh
  have hage' := natAbs_le_of_fresh (Int.natCast_nonneg skew) hfresh'
  rw [wallSecs] at hage hage'
  rcases hage with hage | hage <;> rcases hage' with hage' | hage' <;> omega

theorem fresh_of_checkBackchannelClaims {payload : Json} {issuer clientId : String}
    {now maxSkew : ℤ} {claims : LogoutClaims}
    (h : checkBackchannelClaims payload issuer clientId now maxSkew = .ok claims) :
    ∃ iat, issuedAt payload = some iat ∧ Fresh now iat maxSkew := by
  unfold checkBackchannelClaims at h
  split at h
  case h_1 => cases h
  case h_2 iss hiss =>
    rw [ite_error_eq_ok_iff, ite_error_eq_ok_iff] at h
    obtain ⟨-, -, h⟩ := h
    split at h
    case h_1 => cases h
    case h_2 iat hiat =>
      rw [ite_error_eq_ok_iff] at h
      exact ⟨iat, hiat, not_lt.mp h.1⟩

/-! ## What a delivery does -/

/-- The id is remembered at least to the given instant. -/
def Remembers (seen : HashMap String Instant) (jti : String) (expiry : Instant) : Prop :=
  ∃ expiresAt, seen.lookup jti = some expiresAt ∧ expiry ≤ expiresAt

variable {seen seen' : HashMap String Instant} {jti : String} {now expiry : Instant}
  {ttl : Duration}

theorem Remembers.retain {keep : Instant → Bool} (h : Remembers seen jti expiry)
    (hkeep : ∀ expiresAt, expiry ≤ expiresAt → keep expiresAt = true) :
    Remembers (seen.retain fun _ expiresAt ↦ keep expiresAt) jti expiry := by
  obtain ⟨expiresAt, hlookup, hle⟩ := h
  refine ⟨expiresAt, ?_, hle⟩
  rw [HashMap.lookup_retain, hlookup, filter_some, if_pos (hkeep expiresAt hle)]

/-- The ids left when what has expired at `now` is forgotten. -/
def pruned (seen : HashMap String Instant) (now : Instant) : HashMap String Instant :=
  seen.retain fun _ expiresAt ↦ decide (now < expiresAt)

theorem Remembers.pruned (h : Remembers seen jti expiry) (hnow : now < expiry) :
    Remembers (pruned seen now) jti expiry :=
  h.retain fun _ hle ↦ decide_eq_true (hnow.trans_le hle)

theorem recordJti_eq_false (h : recordJti seen jti now ttl = (false, seen')) :
    seen' = pruned seen now := by
  simp only [recordJti] at h
  split at h
  · exact (Prod.mk.inj h).2.symm
  · cases h

theorem recordJti_eq_true (h : recordJti seen jti now ttl = (true, seen')) :
    seen' = (pruned seen now).insert jti (now + ttl) ∧ (pruned seen now).lookup jti = none := by
  simp only [recordJti] at h
  split at h
  case isTrue => cases h
  case isFalse hnone =>
    exact ⟨(Prod.mk.inj h).2.symm, not_isSome_iff_eq_none.mp hnone⟩

/-- The token a delivery accepts, if it accepts one. -/
structure Accepts (offset : ℤ) (s : LogoutRun) (now : Instant) (t : LogoutRun)
    (d : AcceptedLogout) : Prop where
  accepted_eq : t.accepted = d :: s.accepted
  time_eq : d.time = now
  fresh : Fresh (wallSecs offset now) d.iat (wrapI64 s.provider.cfg.maxIatSkewSecs)
  in_range : now + s.provider.cfg.jtiTtl < Instant.limit
  unknown : ∀ expiry, now < expiry → ¬Remembers s.provider.seenJtis d.jti expiry
  recorded : Remembers t.provider.seenJtis d.jti (now + s.provider.cfg.jtiTtl)

/-- Ids that have not expired stay remembered, and at most one token is accepted. -/
structure LogoutStepped (offset : ℤ) (s : LogoutRun) (now : Instant) (t : LogoutRun) : Prop where
  cfg_eq : t.provider.cfg = s.provider.cfg
  remembers : ∀ jti expiry, now < expiry → Remembers s.provider.seenJtis jti expiry →
    Remembers t.provider.seenJtis jti expiry
  accepts : t.accepted = s.accepted ∨ ∃ d, Accepts offset s now t d

theorem LogoutStepped.same : LogoutStepped offset s now s :=
  ⟨rfl, fun _ _ _ h ↦ h, Or.inl rfl⟩

theorem LogoutStepped.forget {poisoned : Bool}
    (h : ∀ jti expiry, now < expiry → Remembers s.provider.seenJtis jti expiry →
      Remembers seen jti expiry) :
    LogoutStepped offset s now
      { s with provider := { s.provider with seenJtis := seen }, poisoned } :=
  ⟨rfl, h, Or.inl rfl⟩

theorem issuedAt_of_logoutClaims {token : String} {payload : Json} {claims : LogoutClaims}
    (h : p.logoutClaims verify offset token now = .ok (payload, claims)) :
    ∃ iat, issuedAt payload = some iat ∧
      Fresh (wallSecs offset now) iat (wrapI64 p.cfg.maxIatSkewSecs) := by
  rw [Provider.logoutClaims, bind_eq_ok_iff] at h
  obtain ⟨payload', -, h⟩ := h
  rw [bind_eq_ok_iff] at h
  obtain ⟨claims', hclaims, h⟩ := h
  cases h
  exact fresh_of_checkBackchannelClaims hclaims

theorem logoutStepped_deliver (token : String) :
    LogoutStepped offset s now (s.deliver verify offset token now).2 := by
  rw [deliver]
  split
  · exact .same
  split
  · exact .same
  case h_2 payload claims hclaims =>
    split
    · exact .same
    split
    case h_1 seen hrecord =>
      rw [recordJti_eq_false hrecord]
      exact .forget fun jti expiry hnow h ↦ h.pruned hnow
    case h_2 seen hrecord =>
      split
      · exact .forget fun jti expiry hnow h ↦ h.pruned hnow
      case isFalse hlimit =>
        obtain ⟨rfl, hnone⟩ := recordJti_eq_true hrecord
        obtain ⟨iat, hiat, hfresh⟩ := issuedAt_of_logoutClaims hclaims
        have hunknown : ∀ expiry, now < expiry →
            ¬Remembers s.provider.seenJtis claims.jti expiry := by
          intro expiry hnow h
          obtain ⟨expiresAt, hlookup, -⟩ := h.pruned hnow
          rw [hnone] at hlookup
          cases hlookup
        refine ⟨rfl, fun jti expiry hnow h ↦ ?_, Or.inr ⟨⟨claims.jti, iat, now⟩, ?_⟩⟩
        · have hne : jti ≠ claims.jti := fun heq ↦ hunknown expiry hnow (heq ▸ h)
          obtain ⟨expiresAt, hlookup, hle⟩ := h.pruned hnow
          refine ⟨expiresAt, ?_, hle⟩
          exact (Finmap.lookup_insert_of_ne _ hne).trans hlookup
        · refine ⟨?_, rfl, hfresh, not_le.mp hlimit, hunknown, ⟨_, Finmap.lookup_insert _, le_rfl⟩⟩
          rw [hiat]
          rfl

theorem logoutStepped_sweep : LogoutStepped offset s now (s.sweep now) := by
  rw [sweep]
  split
  · exact .same
  · exact .forget fun jti expiry hnow h ↦
      h.retain fun _ hle ↦ decide_eq_true (hnow.le.trans hle)

theorem logoutStepped_of_logoutStep {e : LogoutEvent}
    (h : logoutStep verify offset s e = some t) :
    ∃ now u, s.clock ≤ now ∧ LogoutStepped offset s now u ∧ t = { u with clock := now } := by
  rcases e with ⟨token, now⟩ | now
  all_goals
    simp only [logoutStep, ite_none_left_eq_some, not_lt, some.injEq] at h
    obtain ⟨hclock, rfl⟩ := h
  · exact ⟨now, _, hclock, logoutStepped_deliver token, rfl⟩
  · exact ⟨now, _, hclock, logoutStepped_sweep, rfl⟩

/-! ## No replay -/

/-- No two tokens with the same id and the same issue time have been accepted. -/
def NoReplay (s : LogoutRun) : Prop :=
  s.accepted.Pairwise fun d d' ↦ ¬(d.jti = d'.jti ∧ d.iat = d'.iat)

/-- The invariant of a run: what was accepted is remembered until its lifetime is over. -/
structure LogoutInv (offset : ℤ) (cfg : Config) (s : LogoutRun) : Prop where
  cfg_eq : s.provider.cfg = cfg
  fresh : ∀ d ∈ s.accepted, d.time ≤ s.clock ∧
    Fresh (wallSecs offset d.time) d.iat (wrapI64 cfg.maxIatSkewSecs)
  remembered : ∀ d ∈ s.accepted, s.clock < d.time + cfg.jtiTtl →
    Remembers s.provider.seenJtis d.jti (d.time + cfg.jtiTtl)
  noReplay : NoReplay s

variable {cfg : Config}

theorem LogoutInv.step (h : LogoutInv offset cfg s)
    (httl : fromSecs (2 * cfg.maxIatSkewSecs + 1) ≤ cfg.jtiTtl) {e : LogoutEvent}
    (hstep : logoutStep verify offset s e = some t) : LogoutInv offset cfg t := by
  obtain ⟨now, u, hclock, hu, rfl⟩ := logoutStepped_of_logoutStep hstep
  have hold : ∀ d ∈ s.accepted, now < d.time + cfg.jtiTtl →
      Remembers u.provider.seenJtis d.jti (d.time + cfg.jtiTtl) := fun d hd hnow ↦
    hu.remembers d.jti _ hnow (h.remembered d hd (hclock.trans_lt hnow))
  have hfresh : ∀ d ∈ s.accepted, d.time ≤ now ∧
      Fresh (wallSecs offset d.time) d.iat (wrapI64 cfg.maxIatSkewSecs) := fun d hd ↦
    (h.fresh d hd).imp_left fun hle ↦ hle.trans hclock
  have hcfg : u.provider.cfg = cfg := hu.cfg_eq.trans h.cfg_eq
  rcases hu.accepts with heq | ⟨d, hd⟩
  · refine ⟨hcfg, ?_, ?_, ?_⟩
    · exact fun d hd ↦ hfresh d (heq ▸ hd)
    · exact fun d hd ↦ hold d (heq ▸ hd)
    · rw [NoReplay, heq]
      exact h.noReplay
  · obtain ⟨heq, rfl, hnew, hrange, hunknown, hrecorded⟩ := hd
    rw [h.cfg_eq] at hnew hrange hrecorded
    refine ⟨hcfg, ?_, ?_, ?_⟩
    · intro d' hd'
      rcases List.mem_cons.mp (heq ▸ hd') with rfl | hd'
      · exact ⟨le_rfl, hnew⟩
      · exact hfresh d' hd'
    · intro d' hd' hlt
      rcases List.mem_cons.mp (heq ▸ hd') with rfl | hd'
      · exact hrecorded
      · exact hold d' hd' hlt
    · rw [NoReplay, heq]
      refine List.pairwise_cons.mpr ⟨fun d' hd' ⟨hjti, hiat⟩ ↦ ?_, h.noReplay⟩
      -- an earlier token with this issue time is still remembered
      have hlt : d.time < d'.time + cfg.jtiTtl :=
        lt_of_accepted (hfresh d' hd').1 (hfresh d' hd').2 (hiat ▸ hnew) httl hrange
      refine hunknown _ hlt ?_
      rw [hjti]
      exact h.remembered d' hd' (hclock.trans_lt hlt)

/-- A provider that has accepted no token yet. -/
def LogoutRun.start (p : Provider) (clock : Instant) : LogoutRun := ⟨p, false, clock, []⟩

/-- **A logout token counts once**, when ids are remembered for twice the allowed skew and a
second. -/
theorem noReplay_of_run {clock : Instant} {events : List LogoutEvent}
    (httl : fromSecs (2 * p.cfg.maxIatSkewSecs + 1) ≤ p.cfg.jtiTtl)
    (hrun : run (logoutStep verify offset) (.start p clock) events = some t) : NoReplay t := by
  have h0 : LogoutInv offset p.cfg (.start p clock) := by
    refine ⟨rfl, ?_, ?_, List.Pairwise.nil⟩
    · exact fun d hd ↦ absurd hd List.not_mem_nil
    · exact fun d hd ↦ absurd hd List.not_mem_nil
  exact (run_induction h0 (fun _ _ _ h hstep ↦ h.step httl hstep) hrun).noReplay

/-- The default skew and lifetime, and a token issued 1000 seconds after the epoch. -/
private def defaultProvider : Provider where
  cfg := ⟨"https://idp", "client", 0, fromSecs 300, 120⟩
  sessions := ⟨∅, ∅, [], ∅⟩
  seenJtis := ∅
  calls := ∅
  logouts := ∅

private def readToken : String → Except String Json
  | "token" => .ok <| .object [("iss", .string "https://idp"), ("aud", .string "client"),
      ("iat", .int 1000), ("events", .object [(backchannelLogoutEvent, .object [])]),
      ("sub", .string "alice"), ("jti", .string "id")]
  | _ => .error "malformed"

/-- Delivered as early and as late as the skew allows. -/
theorem noReplay_of_late_delivery :
    ∃ t, run (logoutStep readToken 0) (.start defaultProvider 0)
        [.deliver "token" (fromSecs 880), .sweep (fromSecs 1100),
          .deliver "token" (fromSecs 1121 - 1)] = some t ∧
      t.accepted = [⟨"id", 1000, fromSecs 880⟩] ∧ NoReplay t := by
  have hrun : (run (logoutStep readToken 0) (.start defaultProvider 0)
      [.deliver "token" (fromSecs 880), .sweep (fromSecs 1100),
        .deliver "token" (fromSecs 1121 - 1)]).map accepted =
      some [⟨"id", 1000, fromSecs 880⟩] := by
    decide +kernel
  obtain ⟨t, ht, haccepted⟩ := map_eq_some_iff.mp hrun
  exact ⟨t, ht, haccepted, noReplay_of_run (by decide) ht⟩

end Oidc

end Hypershunt
