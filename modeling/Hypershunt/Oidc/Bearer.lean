import Hypershunt.Jwt.Token
import Hypershunt.Oidc.Backchannel

/-!
# Bearer tokens

The resource-server mode of `oidc/bearer.rs`: tokens of the identity provider are checked against
its published keys and the configured audiences. As with session tokens, a token that passed is
remembered with its identity until its own expiry.

Two of the checks depend on the time. A token may only get worse by its expiry and only better by
its `nbf`, so as long as the clock does not go back, a token that passed once passes until it
expires.
-/

namespace Hypershunt

namespace Oidc

open Jwt (Codec nowSecs)

open Text Json List

/-! ## Compact signatures -/

structure ParsedJws where
  alg : String
  kid : Option String
  signedInput : String
  signatureBytes : List UInt8
  payload : Json

/-- A published key. -/
structure JsonWebKey where
  keyId : Option String
  /-- Algorithm, signed input and signature. -/
  verifySignature : String → String → List UInt8 → Bool

def orError {α : Type} (message : String) : Option α → Except String α
  | some a => .ok a
  | none => .error message

/-- `parse_compact_jws`. `isAlg` are the names of signing algorithms. -/
def parseCompactJws (c : Codec) (isAlg : String → Bool) (token : String) :
    Except String ParsedJws :=
  match split '.' token with
  | [h, p, s] => do
    let headerBytes ← orError "logout_token header base64url decode" (c.b64Decode h)
    let payloadBytes ← orError "logout_token payload base64url decode" (c.b64Decode p)
    let signatureBytes ← orError "logout_token signature base64url decode" (c.b64Decode s)
    let header ← orError "logout_token header JSON parse" (c.fromSlice headerBytes)
    let payload ← orError "logout_token payload JSON parse" (c.fromSlice payloadBytes)
    let alg ← orError "logout_token header missing alg" ((header.get "alg").bind asStr)
    if isAlg alg then
      .ok ⟨alg, (header.get "kid").bind asStr, h ++ "." ++ p, signatureBytes, payload⟩
    else .error ("logout_token alg '" ++ alg ++ "' is not recognised")
  | _ :: _ :: _ :: _ :: _ => .error "malformed JWS: too many segments"
  | _ => .error "malformed JWS"

/-- A signature with a key id is tried with the keys of that id only. -/
def jwksSignatureVerifies (jwks : List JsonWebKey) (parsed : ParsedJws) : Bool :=
  jwks.any fun k ↦
    (match k.keyId, parsed.kid with
      | some jwkKid, some hdrKid => jwkKid == hdrKid
      | _, _ => parsed.kid.isNone) &&
      k.verifySignature parsed.alg parsed.signedInput parsed.signatureBytes

/-! ## Claims -/

/-- `extract_groups_claim_from_json`: an array of texts, or one text with blanks between them. -/
def extractGroupsClaim (name : String) (json : Json) : List String :=
  match json.get name with
  | some (.array items) => (items.filterMap asStr).filter fun s ↦ !s.isEmpty
  | some (.string s) => splitWhitespace s
  | _ => []

structure BearerConfig where
  issuer : String
  audiences : List String
  usernameClaim : String
  groupsClaim : String

def bearerAudOk (payload : Json) (audiences : List String) : Bool :=
  match payload.get "aud" with
  | some (.string s) => audiences.contains s
  | some (.array items) => (items.filterMap asStr).any fun s ↦ audiences.contains s
  | _ => false

structure BearerCacheEntry where
  identity : Identity
  expiresAt : ℕ

/-- The username claim, and the subject where it is missing or empty. -/
def bearerUsername (cfg : BearerConfig) (payload : Json) : String :=
  match (payload.get cfg.usernameClaim).bind asStr with
  | some s => if s.isEmpty then ((payload.get "sub").bind asStr).getD "" else s
  | none => ((payload.get "sub").bind asStr).getD ""

def checkBearerClaims (cfg : BearerConfig) (payload : Json) (now : ℕ) :
    Except String BearerCacheEntry := do
  let iss ← orError "bearer token missing iss" ((payload.get "iss").bind asStr)
  if iss ≠ trimEndSlashes cfg.issuer ∧ iss ≠ cfg.issuer then
    .error "bearer token iss does not match configured issuer"
  else if !bearerAudOk payload cfg.audiences then
    .error "bearer token aud does not match any configured bearer-audience"
  else
    let exp ← orError "bearer token missing exp" ((payload.get "exp").bind asU64)
    if exp ≤ now then .error "bearer token expired"
    -- the clock of the issuer may be a little fast
    else if ((payload.get "nbf").bind asU64).any fun nbf ↦ now + 30 < nbf then
      .error "bearer token not yet valid (nbf in the future)"
    else
      .ok ⟨⟨bearerUsername cfg payload, extractGroupsClaim cfg.groupsClaim payload⟩, exp⟩

/-! ## Validation -/

/-- The configuration, the published keys once they are known, and the size of the cache. -/
structure BearerProvider where
  cfg : BearerConfig
  jwks : Option (List JsonWebKey)
  cacheSize : ℕ

variable (c : Codec) (isAlg : String → Bool) (p : BearerProvider)

/-- The slow path. -/
def verifyBearer (token : String) (now : ℕ) : Except String BearerCacheEntry := do
  let parsed ← parseCompactJws c isAlg token
  let jwks ← orError "JWKS not available; OIDC not ready" p.jwks
  if !jwksSignatureVerifies jwks parsed then
    .error "bearer token signature did not match any JWKS key"
  else checkBearerClaims p.cfg parsed.payload now

/-- `validate_bearer_token` without its cache. -/
def validateBearerUncached (token : String) (clock : ℤ) : Except String Identity :=
  match nowSecs clock with
  | none => .error "clock before epoch"
  | some now => (verifyBearer c isAlg p token now).map BearerCacheEntry.identity

abbrev BearerCache := Recency (List UInt8) BearerCacheEntry

/-- The slow path, with its result put into the cache. -/
def verifyAndStore (cache : BearerCache) (token : String) (now : ℕ) :
    Except String Identity × BearerCache :=
  match verifyBearer c isAlg p token now with
  | .ok entry => (.ok entry.identity, cache.putCapped (max p.cacheSize 1) (c.digest token) entry)
  | .error message => (.error message, cache)

def validateBearerToken (cache : BearerCache) (token : String) (clock : ℤ) :
    Except String Identity × BearerCache :=
  match nowSecs clock with
  | none => (.error "clock before epoch", cache)
  | some now => match Recency.get (c.digest token) cache with
    | (some entry, cache) =>
      if now < entry.expiresAt then (.ok entry.identity, cache)
      -- what has expired is taken out, and the token gets another chance
      else verifyAndStore c isAlg p (Recency.pop (c.digest token) cache).2 token now
    | (none, cache) => verifyAndStore c isAlg p cache token now

/-- The identities of the calls of a sequence, in order; nothing where a token was refused. -/
def validateBearerAll (cache : BearerCache) : List Jwt.TokenEvent → List (Option Identity)
  | [] => []
  | .validate token clock :: events =>
    let (result, cache) := validateBearerToken c isAlg p cache token clock
    result.toOption :: validateBearerAll cache events
  | .forget digest :: events => validateBearerAll (cache.erase digest) events

def bearerUncached : Jwt.TokenEvent → Option (Option Identity)
  | .validate token clock => some (validateBearerUncached c isAlg p token clock).toOption
  | .forget _ => none

/-! ## The cache changes no decision -/

variable {c isAlg p} {token : String} {entry : BearerCacheEntry}

variable {now : ℕ} {clock : ℤ} {cache : BearerCache}

theorem checkBearerClaims_of_ok {cfg : BearerConfig} {payload : Json} {t : ℕ}
    (h : checkBearerClaims cfg payload t = .ok entry) (ht : t ≤ now)
    (hexp : now < entry.expiresAt) : checkBearerClaims cfg payload now = .ok entry := by
  rw [checkBearerClaims, bind_eq_ok_iff] at h ⊢
  obtain ⟨iss, hiss, h⟩ := h
  refine ⟨iss, hiss, ?_⟩
  rw [ite_error_eq_ok_iff, ite_error_eq_ok_iff, bind_eq_ok_iff] at h ⊢
  obtain ⟨hissuer, haud, exp, hexp', h⟩ := h
  refine ⟨hissuer, haud, exp, hexp', ?_⟩
  rw [ite_error_eq_ok_iff, ite_error_eq_ok_iff] at h ⊢
  obtain ⟨-, hnbf, h⟩ := h
  obtain rfl := Except.ok.inj h
  refine ⟨not_le.mpr hexp, fun hearly ↦ hnbf ?_, rfl⟩
  rw [Option.any_eq_true] at hearly ⊢
  obtain ⟨nbf, hsome, hearly⟩ := hearly
  exact ⟨nbf, hsome, decide_eq_true (by have := of_decide_eq_true hearly; omega)⟩

theorem verifyBearer_of_ok {t : ℕ} (h : verifyBearer c isAlg p token t = .ok entry) (ht : t ≤ now)
    (hexp : now < entry.expiresAt) : verifyBearer c isAlg p token now = .ok entry := by
  rw [verifyBearer, bind_eq_ok_iff] at h ⊢
  obtain ⟨parsed, hparsed, h⟩ := h
  refine ⟨parsed, hparsed, ?_⟩
  rw [bind_eq_ok_iff] at h ⊢
  obtain ⟨jwks, hjwks, h⟩ := h
  refine ⟨jwks, hjwks, ?_⟩
  rw [ite_error_eq_ok_iff] at h ⊢
  exact ⟨h.1, checkBearerClaims_of_ok h.2 ht hexp⟩

/-- Every entry was verified in full, at a time before `clock`. -/
def BearerSound (c : Codec) (isAlg : String → Bool) (p : BearerProvider) (clock : ℤ)
    (cache : BearerCache) : Prop :=
  Recency.Holds (fun digest entry ↦ ∃ (token : String) (t : ℕ), c.digest token = digest ∧
    (t : ℤ) ≤ clock ∧ verifyBearer c isAlg p token t = .ok entry) cache

theorem le_of_nowSecs (h : nowSecs clock = some now) : (now : ℤ) = clock := by
  rw [nowSecs, Option.ite_none_right_eq_some, Option.some.injEq] at h
  omega

theorem verifyAndStore_fst (cache : BearerCache) (now : ℕ) :
    (verifyAndStore c isAlg p cache token now).1 =
      (verifyBearer c isAlg p token now).map BearerCacheEntry.identity := by
  rw [verifyAndStore]
  rcases verifyBearer c isAlg p token now with message | entry <;> rfl

theorem bearerSound_verifyAndStore (h : BearerSound c isAlg p clock cache)
    (hnow : (now : ℤ) ≤ clock) :
    BearerSound c isAlg p clock (verifyAndStore c isAlg p cache token now).2 := by
  rw [verifyAndStore]
  rcases hverify : verifyBearer c isAlg p token now with message | entry
  · exact h
  · exact h.putCapped ⟨token, now, rfl, hnow, hverify⟩ _

/-- A call decides as the slow path does. -/
theorem validateBearerToken_fst (hdigest : Function.Injective c.digest)
    (h : BearerSound c isAlg p clock cache) :
    (validateBearerToken c isAlg p cache token clock).1.toOption =
      (validateBearerUncached c isAlg p token clock).toOption := by
  rw [validateBearerToken, validateBearerUncached]
  rcases hnow : nowSecs clock with _ | now
  · rfl
  simp only [Recency.get]
  rcases hlookup : AList.lookup (c.digest token) cache with _ | entry
  · simp only [verifyAndStore_fst]
  · obtain ⟨token', t, hsame, ht, hverify⟩ := h _ _ hlookup
    obtain rfl := hdigest hsame
    by_cases hexp : now < entry.expiresAt
    · have hle : t ≤ now := by
        have := le_of_nowSecs hnow
        omega
      simp only [hexp, if_true, verifyBearer_of_ok hverify hle hexp]
      rfl
    · simp only [hexp, if_false, verifyAndStore_fst]

theorem bearerSound_validateBearerToken {later : ℤ} (hle : clock ≤ later)
    (h : BearerSound c isAlg p later cache) :
    BearerSound c isAlg p later (validateBearerToken c isAlg p cache token clock).2 := by
  rw [validateBearerToken]
  rcases hnow : nowSecs clock with _ | now
  · exact h
  have hlater : (now : ℤ) ≤ later := (le_of_nowSecs hnow).trans_le hle
  have hget : BearerSound c isAlg p later (Recency.get (c.digest token) cache).2 := h.get _
  simp only
  generalize Recency.get (c.digest token) cache = found at hget ⊢
  obtain ⟨_ | entry, cache'⟩ := found
  · exact bearerSound_verifyAndStore hget hlater
  · simp only
    split_ifs
    · exact hget
    · exact bearerSound_verifyAndStore (hget.erase _) hlater

/-- The reading of the clock at a call. -/
def clockOf : Jwt.TokenEvent → Option ℤ
  | .validate _ clock => some clock
  | .forget _ => none

theorem validateBearerAll_eq (hdigest : Function.Injective c.digest) {events : List Jwt.TokenEvent}
    (hclock : (events.filterMap clockOf).Pairwise (· ≤ ·))
    (h : ∀ clock ∈ events.filterMap clockOf, BearerSound c isAlg p clock cache) :
    validateBearerAll c isAlg p cache events = events.filterMap (bearerUncached c isAlg p) := by
  induction events generalizing cache with
  | nil => rfl
  | cons event events ih =>
    rcases event with ⟨token, clock⟩ | digest
    · rw [filterMap_cons_some (f := clockOf) rfl] at hclock h
      obtain ⟨hfirst, hclock⟩ := pairwise_cons.mp hclock
      obtain ⟨hhead, htail⟩ := forall_mem_cons.mp h
      rw [filterMap_cons_some (f := bearerUncached c isAlg p) rfl, ← validateBearerToken_fst
        hdigest hhead, ← ih hclock fun later hlater ↦ bearerSound_validateBearerToken (hfirst later
        hlater) (htail later hlater)]
      rfl
    · rw [filterMap_cons_none (f := clockOf) rfl] at hclock h
      rw [filterMap_cons_none (f := bearerUncached c isAlg p) rfl]
      exact ih hclock fun clock hmem ↦ (h clock hmem).erase digest

/-- **The caches are transparent.** If no two texts share a digest, session tokens get the results
of the slow path, whatever the clock shows and the cache forgets; and while the clock does not go
back, bearer tokens are accepted as on the slow path, with the same identities. -/
theorem caches_transparent (hdigest : Function.Injective c.digest) :
    (∀ (key : Jwt.VerifyingKey) (events : List Jwt.TokenEvent),
      Jwt.validateAll c key ∅ events = events.filterMap (Jwt.TokenEvent.uncached c key)) ∧
    ∀ (isAlg : String → Bool) (p : BearerProvider) (events : List Jwt.TokenEvent),
      (events.filterMap clockOf).Pairwise (· ≤ ·) →
      validateBearerAll c isAlg p ∅ events = events.filterMap (bearerUncached c isAlg p) := by
  refine ⟨fun key events ↦ ?_, fun isAlg p events hclock ↦ ?_⟩
  · exact Jwt.validateAll_eq hdigest Recency.holds_empty events
  · exact validateBearerAll_eq hdigest hclock fun _ _ ↦ Recency.holds_empty

/-- Tokens whose segments stand for themselves. -/
private def openCodec : Codec where
  b64Decode s := some (bytes s)
  fromSlice bs :=
    if bs = bytes "header" then
      some (.object [("alg", .string "ES256"), ("kid", .string "key")])
    else if bs = bytes "payload" then
      some (.object [("iss", .string "https://idp.example"), ("aud", .string "api"),
        ("exp", .int 50), ("nbf", .int 40), ("sub", .string "user")])
    else none
  digest := bytes

private def openKey : Jwt.VerifyingKey := ⟨"key", fun _ ↦ true, fun _ _ ↦ true⟩

private def openProvider : BearerProvider :=
  ⟨⟨"https://idp.example", ["api"], "sub", "groups"⟩, some [⟨some "key", fun _ _ _ ↦ true⟩], 16⟩

/-- One token before it is valid, twice while it is, and after it has expired. -/
private def fourCalls : List Jwt.TokenEvent :=
  [.validate "header.payload.signature" 5, .validate "header.payload.signature" 20,
    .validate "header.payload.signature" 30, .validate "header.payload.signature" 50]

theorem caches_transparent_fourCalls :
    Function.Injective openCodec.digest ∧
      Jwt.validateAll openCodec openKey ∅ fourCalls =
        [.valid ⟨"user", []⟩, .valid ⟨"user", []⟩, .valid ⟨"user", []⟩, .expired] ∧
      (fourCalls.filterMap clockOf).Pairwise (· ≤ ·) ∧
      validateBearerAll openCodec (fun _ ↦ true) openProvider ∅ fourCalls =
        [none, some ⟨"user", []⟩, some ⟨"user", []⟩, none] := by
  have hdigest : Function.Injective openCodec.digest := by
    intro s t h
    have hdecode : fromUtf8 (bytes s) = fromUtf8 (bytes t) := congrArg _ h
    rwa [fromUtf8_bytes, fromUtf8_bytes, Option.some.injEq] at hdecode
  have hclock : (fourCalls.filterMap clockOf).Pairwise (· ≤ ·) := by decide
  refine ⟨hdigest, ?_, hclock, ?_⟩
  · rw [(caches_transparent hdigest).1]
    decide +kernel
  · rw [(caches_transparent hdigest).2 _ _ _ hclock]
    decide +kernel

end Oidc

end Hypershunt
