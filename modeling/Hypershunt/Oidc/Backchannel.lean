import Hypershunt.Foundation.HashMap
import Hypershunt.Foundation.Json
import Hypershunt.Foundation.Time
import Mathlib.Data.List.DropRight

/-!
# Logout tokens

The checks a back-channel logout token passes before it has any effect
(`oidc/backchannel.rs`): its claims, and the memory of token ids that makes each token count once.
That the token parses and that its signature verifies is decided before, by the JWS library and the
keys of the identity provider.
-/

namespace Hypershunt

namespace Oidc

open Json

def backchannelLogoutEvent : String := "http://schemas.openid.net/event/backchannel-logout"

/-- `str::trim_end_matches('/')`. -/
def trimEndSlashes (s : String) : String := String.ofList (s.toList.rdropWhile (· == '/'))

/-- What a valid logout token names. -/
structure LogoutClaims where
  sub : Option String
  sid : Option String
  jti : String
  deriving DecidableEq

/-- The audience is our client id, or a list that contains it. -/
def audOk (payload : Json) (clientId : String) : Bool :=
  match payload.get "aud" with
  | some (.string s) => s == clientId
  | some (.array items) => items.any fun v ↦ v.asStr == some clientId
  | _ => false

/-- `check_backchannel_claims`. The age is computed on signed 64-bit integers, where both the
difference and its absolute value wrap around. -/
def checkBackchannelClaims (payload : Json) (issuer clientId : String) (now maxSkew : ℤ) :
    Except String LogoutClaims :=
  match (payload.get "iss").bind asStr with
  | none => .error "logout_token missing iss"
  | some iss =>
    if iss ≠ trimEndSlashes issuer ∧ iss ≠ issuer then
      .error "logout_token iss does not match configured issuer"
    else if !audOk payload clientId then
      .error "logout_token aud does not include our client_id"
    else match (payload.get "iat").bind asI64 with
      | none => .error "logout_token missing iat"
      | some iat =>
        if maxSkew < wrapI64 (wrapI64 (now - iat)).natAbs then
          .error "logout_token iat outside accepted skew window"
        else match (payload.get "events").bind asObject with
          | none => .error "logout_token missing events object"
          | some events =>
            if (events.lookup backchannelLogoutEvent).isNone then
              .error "logout_token events does not declare back-channel-logout"
            else if (payload.get "nonce").isSome then
              .error "logout_token must not carry a nonce claim"
            else
              let sub := (payload.get "sub").bind asStr
              let sid := (payload.get "sid").bind asStr
              if sub.isNone ∧ sid.isNone then
                .error "logout_token must contain at least one of sub or sid"
              else match (payload.get "jti").bind asStr with
                | none => .error "logout_token missing jti"
                | some jti => .ok ⟨sub, sid, jti⟩

/-- `record_jti`: forget what has expired, then refuse an id that is still remembered. -/
def recordJti (seen : HashMap String Instant) (jti : String) (now : Instant) (ttl : Duration) :
    Bool × HashMap String Instant :=
  let seen := seen.retain fun _ expiresAt ↦ decide (now < expiresAt)
  if (seen.lookup jti).isSome then (false, seen) else (true, seen.insert jti (now + ttl))

end Oidc

end Hypershunt
