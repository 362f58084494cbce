import Hypershunt.Oidc.Backchannel
import Mathlib.Algebra.Order.Group.Unbundled.Int

/-!
# The window for issue times

A logout token is accepted while the wall clock is within the configured skew of its issue time. The
difference is computed on signed 64-bit integers, where an overflow is a panic in one build profile
and wraps around in the other. The skew passes through three casts on its way from the
configuration: an integer of 128 bits becomes a signed one of 64, then an unsigned, then a signed
one again.

The check is exact in both profiles precisely when the difference fits and the casts leave a skew on
the same side of it (`iat_check_exact_iff`). Only an issue time far in the past can make the
difference too large: the clock is never before the epoch.
-/

namespace Hypershunt

open Option

namespace Oidc

/-- Whether an overflow is a panic. -/
inductive Profile
  | debug
  | release
  deriving DecidableEq

open Profile

namespace Profile

/-- The result of an operation on signed 64-bit integers, by the exact one; nothing for a panic. -/
def i64 (p : Profile) (exact : ℤ) : Option ℤ :=
  match p with
  | .debug => if inI64 exact then some exact else none
  | .release => some (wrapI64 exact)

/-- `(now - iat).abs() > max_skew`. -/
def iatOutside (p : Profile) (now iat maxSkew : ℤ) : Option Bool :=
  (p.i64 (now - iat)).bind fun d ↦ (p.i64 d.natAbs).map fun age ↦ decide (maxSkew < age)

end Profile

/-- The issue time of a token whose issuer and audience are accepted, which is then compared. -/
def comparedIat (payload : Json) (issuer clientId : String) : Option ℤ :=
  match (payload.get "iss").bind Json.asStr with
  | none => none
  | some iss =>
    if iss ≠ trimEndSlashes issuer ∧ iss ≠ issuer then none
    else if !audOk payload clientId then none
    else (payload.get "iat").bind Json.asI64

/-- `check_backchannel_claims` as it was built; nothing for a panic. -/
def Profile.checkBackchannelClaims (p : Profile) (payload : Json) (issuer clientId : String)
    (now maxSkew : ℤ) : Option (Except String LogoutClaims) :=
  match comparedIat payload issuer clientId with
  | none => some (Oidc.checkBackchannelClaims payload issuer clientId now maxSkew)
  | some iat =>
    (p.iatOutside now iat maxSkew).map fun _ ↦
      Oidc.checkBackchannelClaims payload issuer clientId now maxSkew

/-- `prop_i64`, for the integer that the property has in the configuration. -/
def propI64 (value : Option ℤ) : Option ℤ := value.map wrapI64

def backchannelMaxIatSkewSecs (value : Option ℤ) : ℕ :=
  ((propI64 value).map fun n ↦ (n % 2 ^ 64).toNat).getD 120

/-- The skew that was asked for. -/
def configuredSkew (value : Option ℤ) : ℤ := value.getD 120

def outsideWindow : Except String LogoutClaims :=
  .error "logout_token iat outside accepted skew window"

section

variable {payload : Json} {issuer clientId : String} {now iat maxSkew n : ℤ} {p : Profile}

/-! ## Arithmetic -/

theorem wrapI64_of_inI64 (h : inI64 n) : wrapI64 n = n := by
  rw [inI64, decide_eq_true_eq] at h
  obtain ⟨k, hk, hle, hlt⟩ := wrapI64_spec n
  omega

theorem inI64_wrapI64 (n : ℤ) : inI64 (wrapI64 n) := by
  obtain ⟨k, -, hle, hlt⟩ := wrapI64_spec n
  exact decide_eq_true ⟨hle, hlt⟩

theorem wrapI64_emod (n : ℤ) : wrapI64 (n % 2 ^ 64) = wrapI64 n := by
  rw [wrapI64, wrapI64]
  exact_mod_cast Int.emod_bmod n (2 ^ 64)

/-- The three casts are the first one. -/
theorem wrapI64_backchannelMaxIatSkewSecs (value : Option ℤ) :
    wrapI64 (backchannelMaxIatSkewSecs value) = wrapI64 (configuredSkew value) := by
  rcases value with _ | n
  · rfl
  · have hpos : 0 ≤ wrapI64 n % 2 ^ 64 := Int.emod_nonneg _ (by decide)
    rw [backchannelMaxIatSkewSecs, propI64, map_some, map_some, getD_some, configuredSkew,
      getD_some, Int.toNat_of_nonneg hpos, wrapI64_emod, wrapI64_of_inI64 (inI64_wrapI64 n)]

theorem Profile.i64_of_inI64 (h : inI64 n) : p.i64 n = some n := by
  cases p with
  | debug => exact if_pos h
  | release => exact congrArg some (wrapI64_of_inI64 h)

theorem Profile.iatOutside_of_lt (hle : -2 ^ 63 < now - iat) (hlt : now - iat < 2 ^ 63) :
    p.iatOutside now iat maxSkew = some (decide (maxSkew < |now - iat|)) := by
  have habs : (((now - iat).natAbs : ℕ) : ℤ) = |now - iat| := Int.natCast_natAbs _
  have hfits : inI64 |now - iat| := by
    refine decide_eq_true ⟨?_, abs_lt.mpr ⟨hle, hlt⟩⟩
    exact (show (-2 ^ 63 : ℤ) ≤ 0 by decide).trans (abs_nonneg _)
  rw [iatOutside, i64_of_inI64 (decide_eq_true ⟨hle.le, hlt⟩), bind_some, habs, i64_of_inI64 hfits,
    map_some]

/-! ## The check -/

variable (h : comparedIat payload issuer clientId = some iat)

include h

theorem inI64_of_comparedIat : inI64 iat := by
  rw [comparedIat] at h
  split at h
  · exact nomatch h
  · split_ifs at h
    obtain ⟨v, -, hv⟩ := bind_eq_some_iff.mp h
    rw [Json.asI64.eq_def] at hv
    split at hv
    · split_ifs at hv with hin
      exact Option.some.inj hv ▸ hin
    · exact nomatch hv

theorem checkBackchannelClaims_eq_outsideWindow_iff :
    checkBackchannelClaims payload issuer clientId now maxSkew = outsideWindow ↔
      maxSkew < wrapI64 (wrapI64 (now - iat)).natAbs := by
  rw [comparedIat] at h
  rw [checkBackchannelClaims, outsideWindow]
  rcases hget : (payload.get "iss").bind Json.asStr with _ | iss
  · rw [hget] at h
    exact nomatch h
  · simp only [hget] at h
    split_ifs at h with hiss haud
    simp only [if_neg hiss, if_neg haud, h]
    by_cases hskew : maxSkew < wrapI64 (wrapI64 (now - iat)).natAbs
    · rw [if_pos hskew]
      exact iff_of_true rfl hskew
    · rw [if_neg hskew]
      refine iff_of_false ?_ hskew
      split
      · simp
      · split_ifs
        · simp
        · simp
        · simp
        · split
          · simp
          · simp

theorem Profile.checkBackchannelClaims_of_some :
    p.checkBackchannelClaims payload issuer clientId now maxSkew =
      (p.iatOutside now iat maxSkew).map fun _ ↦
        Oidc.checkBackchannelClaims payload issuer clientId now maxSkew := by
  rw [checkBackchannelClaims, h]

end

/-- The check does not panic and is passed exactly inside the window that was configured. -/
def Profile.ExactWindow (p : Profile) (payload : Json) (issuer clientId : String) (now iat : ℤ)
    (skew : Option ℤ) : Prop :=
  ∃ result, p.checkBackchannelClaims payload issuer clientId now
      (wrapI64 (backchannelMaxIatSkewSecs skew)) = some result ∧
    (result ≠ outsideWindow ↔ |now - iat| ≤ configuredSkew skew)

/-- **When the window is exact.** The clock counts signed 64-bit seconds from the epoch. -/
theorem iat_check_exact_iff (now : Fin (2 ^ 63)) (skew : Option ℤ) {payload : Json}
    {issuer clientId : String} {iat : ℤ} (h : comparedIat payload issuer clientId = some iat) :
    (∀ p : Profile, p.ExactWindow payload issuer clientId now iat skew) ↔
      (now : ℤ) - iat < 2 ^ 63 ∧
        (2 ^ 63 ≤ configuredSkew skew → |(now : ℤ) - iat| ≤ wrapI64 (configuredSkew skew)) ∧
        (configuredSkew skew < -2 ^ 63 → wrapI64 (configuredSkew skew) < |(now : ℤ) - iat|) := by
  have hiat := inI64_of_comparedIat h
  rw [inI64, decide_eq_true_eq] at hiat
  have hnow := now.isLt
  have hlow : -2 ^ 63 < (now : ℤ) - iat := by omega
  obtain ⟨k, hk, hwle, hwlt⟩ := wrapI64_spec (configuredSkew skew)
  -- a difference that does not fit is a panic where overflows are noticed
  by_cases hfits : (now : ℤ) - iat < 2 ^ 63
  · have habs := abs_lt.mpr ⟨hlow, hfits⟩
    have hpos := abs_nonneg ((now : ℤ) - iat)
    have hresult : ∀ p : Profile, p.ExactWindow payload issuer clientId now iat skew ↔
        (|(now : ℤ) - iat| ≤ wrapI64 (configuredSkew skew) ↔
          |(now : ℤ) - iat| ≤ configuredSkew skew) := fun p ↦ by
      have hage : wrapI64 (wrapI64 ((now : ℤ) - iat)).natAbs = |(now : ℤ) - iat| := by
        rw [wrapI64_of_inI64 (decide_eq_true ⟨hlow.le, hfits⟩), Int.natCast_natAbs,
          wrapI64_of_inI64 (decide_eq_true ⟨by omega, habs⟩)]
      rw [Profile.ExactWindow, checkBackchannelClaims_of_some h,
        iatOutside_of_lt hlow hfits, map_some, wrapI64_backchannelMaxIatSkewSecs]
      simp only [Option.some.injEq, exists_eq_left', Ne,
        checkBackchannelClaims_eq_outsideWindow_iff h, hage, not_lt]
    rw [forall_congr' hresult,
      (⟨fun hall ↦ hall .debug, fun hexact _ ↦ hexact⟩ : (Profile → _) ↔ _), and_iff_right hfits]
    omega
  · refine iff_of_false (fun hall ↦ ?_) fun hcond ↦ hfits hcond.1
    obtain ⟨result, hsome, -⟩ := hall .debug
    have hout : ¬inI64 ((now : ℤ) - iat) := fun hin ↦ hfits (decide_eq_true_eq.mp hin).2
    rw [checkBackchannelClaims_of_some h, iatOutside, i64, if_neg hout] at hsome
    exact nomatch hsome

/-- A logout token with the given issue time. -/
private def tokenIssuedAt (iat : ℤ) : Json :=
  .object [("iss", .string "https://idp.example"), ("aud", .string "app"), ("iat", .int iat),
    ("events", .object [(backchannelLogoutEvent, .object [])]), ("sub", .string "alice"),
    ("jti", .string "j1")]

private theorem comparedIat_tokenIssuedAt {iat : ℤ} (h : inI64 iat) :
    comparedIat (tokenIssuedAt iat) "https://idp.example" "app" = some iat := by
  have hiat : ((tokenIssuedAt iat).get "iat").bind Json.asI64 = some iat := if_pos h
  have haud : audOk (tokenIssuedAt iat) "app" = true := rfl
  rw [comparedIat, hiat]
  exact (if_neg (by decide)).trans (if_neg (by rw [haud]; decide))

theorem iat_check_exact_today :
    comparedIat (tokenIssuedAt 1700000100) "https://idp.example" "app" = some 1700000100 ∧
      ∀ p : Profile, p.ExactWindow (tokenIssuedAt 1700000100) "https://idp.example" "app"
        1700000000 1700000100 none :=
  ⟨comparedIat_tokenIssuedAt (by decide),
    (iat_check_exact_iff 1700000000 none (comparedIat_tokenIssuedAt (by decide))).mpr
      ⟨by decide, by decide, by decide⟩⟩

/-- A token from `2 ^ 63` seconds ago is accepted, or brings the check down. -/
theorem iat_check_wraps :
    release.checkBackchannelClaims (tokenIssuedAt (1700000000 - 2 ^ 63))
        "https://idp.example" "app" 1700000000 (wrapI64 (backchannelMaxIatSkewSecs none)) =
      some (.ok ⟨some "alice", none, "j1"⟩) ∧
    debug.checkBackchannelClaims (tokenIssuedAt (1700000000 - 2 ^ 63))
        "https://idp.example" "app" 1700000000 (wrapI64 (backchannelMaxIatSkewSecs none)) =
      none := by
  decide +kernel

end Oidc

end Hypershunt
