import Hypershunt.Foundation.Json
import Hypershunt.Foundation.Recency
import Hypershunt.Listener.Service

/-!
# Session tokens

Validation of the tokens hypershunt issues itself (`jwt.rs`). A token that passed the full
verification is remembered under its SHA-256 digest with the identity and the expiry it carries, and
while it is remembered its expiry alone decides.

The clock is read once for each call. It may stand before the epoch, and then no token is valid;
otherwise readings are seconds, of which there are too few for the arithmetic to overflow.
-/

namespace Hypershunt

open Json

deriving instance DecidableEq for Listener.JwtResult

namespace Jwt

open Listener (JwtResult)

/-- What libraries do with the parts of a token. -/
structure Codec where
  /-- Base64 for URLs, without padding. -/
  b64Decode : String → Option (List UInt8)
  /-- `serde_json::from_slice`. -/
  fromSlice : List UInt8 → Option Json
  /-- SHA-256 of a text. -/
  digest : String → List UInt8

/-- A segment of a token that holds JSON. -/
def Codec.decodeJson (c : Codec) (segment : String) : Option Json :=
  (c.b64Decode segment).bind c.fromSlice

/-- The public half of the key tokens are signed with. -/
structure VerifyingKey where
  kid : String
  /-- The bytes are a signature at all. -/
  isSignature : List UInt8 → Bool
  verify : String → List UInt8 → Bool

structure CachedToken where
  identity : Identity
  exp : ℕ

/-- Seconds since the epoch, unless the clock stands before it. -/
def nowSecs (clock : ℤ) : Option ℕ := if 0 ≤ clock then some clock.toNat else none

/-! ## Verification in full -/

variable (c : Codec) (key : VerifyingKey)

def orInvalid {α : Type} : Option α → Except JwtResult α
  | some a => .ok a
  | none => .error .invalid

/-- Everything before the claims: the format, the header and the signature. -/
def openToken (token : String) : Except JwtResult Json :=
  match Text.splitn '.' 3 token with
  | [headerB64, payloadB64, sigB64] => do
    let header ← orInvalid (c.decodeJson headerB64)
    if (header.get "alg").bind asStr ≠ some "ES256" then throw .invalid
    -- a token of another issuer is not ours to judge
    if (header.get "kid").bind asStr ≠ some key.kid then throw .notMine
    let sig ← orInvalid (c.b64Decode sigB64)
    if !key.isSignature sig then throw .invalid
    if !key.verify (headerB64 ++ "." ++ payloadB64) sig then throw .invalid
    orInvalid (c.decodeJson payloadB64)
  | _ => throw .invalid

/-- The expiry is looked at before the subject. -/
def readClaims (payload : Json) (now : ℕ) : Except JwtResult CachedToken := do
  let exp ← orInvalid ((payload.get "exp").bind asU64)
  if exp ≤ now then .error .expired
  else
    let username ← orInvalid ((payload.get "sub").bind asStr)
    let groups := (((payload.get "groups").bind asArray).getD []).filterMap asStr
    return ⟨⟨username, groups⟩, exp⟩

def verifyToken (token : String) (now : ℕ) : Except JwtResult CachedToken := do
  let payload ← openToken c key token
  readClaims payload now

/-- `validate_token` without its cache. -/
def validateUncached (token : String) (clock : ℤ) : JwtResult :=
  match nowSecs clock with
  | none => .invalid
  | some now => match verifyToken c key token now with
    | .ok verified => .valid verified.identity
    | .error result => result

/-! ## The cache -/

abbrev TokenCache := Recency (List UInt8) CachedToken

def jwtCacheCapacity : ℕ := 1024

def validateToken (cache : TokenCache) (token : String) (clock : ℤ) : JwtResult × TokenCache :=
  match nowSecs clock with
  | none => (.invalid, cache)
  | some now => match Recency.get (c.digest token) cache with
    | (some cached, cache) =>
      if now < cached.exp then (.valid cached.identity, cache)
      else (.expired, (Recency.pop (c.digest token) cache).2)
    | (none, cache) => match verifyToken c key token now with
      | .ok verified =>
        (.valid verified.identity, cache.putCapped jwtCacheCapacity (c.digest token) verified)
      | .error result => (result, cache)

/-- A call, at a reading of the clock, or the loss of an entry. -/
inductive TokenEvent
  | validate (token : String) (clock : ℤ)
  | forget (digest : List UInt8)

/-- The results of the calls of a sequence, in order. -/
def validateAll (cache : TokenCache) : List TokenEvent → List JwtResult
  | [] => []
  | .validate token clock :: events =>
    let (result, cache) := validateToken c key cache token clock
    result :: validateAll cache events
  | .forget digest :: events => validateAll (cache.erase digest) events

/-- The same calls without a cache. -/
def TokenEvent.uncached : TokenEvent → Option JwtResult
  | .validate token clock => some (validateUncached c key token clock)
  | .forget _ => none

/-! ## The cache changes no result -/

variable {c key} {token : String} {now : ℕ} {verified : CachedToken}

theorem readClaims_of_ok {payload : Json} {t : ℕ} (h : readClaims payload t = .ok verified)
    (now : ℕ) : readClaims payload now =
      if verified.exp ≤ now then .error .expired else .ok verified := by
  rw [readClaims, bind_eq_ok_iff] at h
  obtain ⟨exp, hexp, h⟩ := h
  rw [ite_error_eq_ok_iff, bind_eq_ok_iff] at h
  obtain ⟨-, username, husername, h⟩ := h
  obtain rfl := Except.ok.inj h
  rw [readClaims, hexp]
  change (if exp ≤ now then _ else _) = _
  rw [husername]
  rfl

/-- Of what verification in full looks at, only the expiry depends on the time. -/
theorem verifyToken_of_ok {t : ℕ} (h : verifyToken c key token t = .ok verified) (now : ℕ) :
    verifyToken c key token now =
      if verified.exp ≤ now then .error .expired else .ok verified := by
  rw [verifyToken, bind_eq_ok_iff] at h
  obtain ⟨payload, hpayload, h⟩ := h
  rw [verifyToken, hpayload]
  exact readClaims_of_ok h now

/-- Every entry was verified in full. -/
def CacheSound (c : Codec) (key : VerifyingKey) (cache : TokenCache) : Prop :=
  Recency.Holds (fun digest cached ↦ ∃ token t, c.digest token = digest ∧
    verifyToken c key token t = .ok cached) cache

/-- One call: the result of verification in full, and a cache that is sound again. -/
theorem validateToken_spec (hdigest : Function.Injective c.digest) {cache : TokenCache}
    (h : CacheSound c key cache) (token : String) (clock : ℤ) :
    (validateToken c key cache token clock).1 = validateUncached c key token clock ∧
      CacheSound c key (validateToken c key cache token clock).2 := by
  rw [validateToken, validateUncached]
  rcases nowSecs clock with _ | now
  · exact ⟨rfl, h⟩
  simp only [Recency.get]
  rcases hlookup : AList.lookup (c.digest token) cache with _ | cached
  · -- nothing remembered: the result is that of verification, and so is what is put into the cache
    rcases hverify : verifyToken c key token now with result | verified
    · exact ⟨rfl, h⟩
    · exact ⟨rfl, h.putCapped ⟨token, now, rfl, hverify⟩ _⟩
  · obtain ⟨token', t, hsame, hverify⟩ := h _ _ hlookup
    obtain rfl := hdigest hsame
    have hsound : CacheSound c key (AList.insert (c.digest token') cached cache) :=
      Recency.Holds.insert h ⟨token', t, rfl, hverify⟩
    rw [verifyToken_of_ok hverify now]
    by_cases hexp : now < cached.exp
    · simp only [hexp, if_true, if_neg (not_le.mpr hexp)]
      exact ⟨trivial, hsound⟩
    · simp only [hexp, if_false, if_pos (not_lt.mp hexp)]
      exact ⟨trivial, hsound.erase _⟩

theorem validateAll_eq (hdigest : Function.Injective c.digest) {cache : TokenCache}
    (h : CacheSound c key cache) (events : List TokenEvent) :
    validateAll c key cache events = events.filterMap (TokenEvent.uncached c key) := by
  induction events generalizing cache with
  | nil => rfl
  | cons event events ih =>
    rcases event with ⟨token, clock⟩ | digest
    · obtain ⟨hresult, hsound⟩ := validateToken_spec hdigest h token clock
      rw [List.filterMap_cons_some (f := TokenEvent.uncached c key) rfl, ← hresult, ← ih hsound]
      rfl
    · rw [List.filterMap_cons_none (f := TokenEvent.uncached c key) rfl]
      exact ih (h.erase digest)

end Jwt

end Hypershunt
