import Hypershunt.Listener.Dispatch

/-!
# Subrequest authentication

One hypershunt can ask another who a client is: the `auth-request` handler answers with the identity
in two headers (`handler/auth_request.rs`), and `SubrequestAuthenticator` reads it from there
(`auth.rs`). The list of groups travels as one text, its elements joined with commas.

Nothing is escaped, and what a header cannot carry is left out without an error. So an identity
survives the way exactly if it is one of those `Carried` describes; any other is changed into one
that is, and the request is authenticated all the same.
-/

namespace Hypershunt

open List Option

namespace Auth

open Listener (RequestContext principalStrings)

open HeaderValue
open Oidc (Visible)

/-- A header line for a text, unless it is empty or cannot be a value. -/
def identityHeader (n : HeaderName) (s : String) : HeaderMap :=
  if s.isEmpty then [] else ((fromStr s).map fun v ↦ (n, v)).toList

/-- The answer of the `auth-request` handler. -/
def makeResponse (ctx : RequestContext) : Response :=
  ⟨200, identityHeader "x-auth-user" ctx.username ++ identityHeader "x-auth-groups" ctx.groups,
    some []⟩

structure SubrequestAuthenticator where
  forwardHeaders : List HeaderName
  userHeader : Option HeaderName
  groupsHeader : Option HeaderName

open SubrequestAuthenticator

/-- The headers of a request that are passed on. -/
def SubrequestAuthenticator.forwarded (a : SubrequestAuthenticator) (h : HeaderMap) : HeaderMap :=
  a.forwardHeaders.filterMap fun n ↦ (h.get n).map fun v ↦ (n, v)

/-- The groups of a header. -/
def readGroups (s : String) : List String := Text.splitTrimmed ',' s

/-- The identity in the headers of an answer. -/
def SubrequestAuthenticator.identity (a : SubrequestAuthenticator) (h : HeaderMap) : Identity where
  username := (a.userHeader.bind h.getStr).getD ""
  groups := ((a.groupsHeader.bind h.getStr).map readGroups).getD []

/-- The service is asked through `send`, which may fail. -/
def SubrequestAuthenticator.call (a : SubrequestAuthenticator) (send : HeaderMap → Option Response)
    (h : HeaderMap) : Principal :=
  match send (a.forwarded h) with
  | none => .anonymous
  | some resp =>
    if resp.status ≠ 200 then .anonymous else .authenticated (a.identity resp.headers)

/-! ## Headers -/

variable {n m : HeaderName} {s t : String}

theorem get_identityHeader_self (n : HeaderName) (s : String) :
    (identityHeader n s).get n = if s.isEmpty then none else fromStr s := by
  rw [identityHeader]
  split_ifs
  · rfl
  · rcases fromStr s with _ | v
    · rfl
    · exact lookup_cons_self

theorem get_identityHeader_of_ne (hn : n ≠ m) (s : String) :
    (identityHeader m s).get n = none := by
  rw [identityHeader]
  split_ifs
  · rfl
  · rcases fromStr s with _ | v
    · rfl
    · rw [map_some, toList_some, HeaderMap.get, lookup_cons, beq_false_of_ne hn]
      rfl

/-- What is read of a text that was sent. -/
def received (s : String) : Option String := if s ≠ "" ∧ Visible s then some s else none

theorem bind_toStr_eq_received (s : String) :
    ((if s.isEmpty then none else fromStr s).bind toStr) = received s := by
  by_cases hempty : s.isEmpty = true
  · have hs : s = "" := by simpa using hempty
    rw [if_pos hempty, received, if_neg fun h ↦ h.1 hs, bind_none]
  · have hs : s ≠ "" := by simpa using hempty
    rw [if_neg hempty, received]
    simp only [ne_eq, hs, not_false_eq_true, true_and]
    by_cases hvisible : Visible s
    · rw [if_pos hvisible, fromStr_of_visible hvisible, bind_some]
      exact if_pos hvisible
    · rw [if_neg hvisible]
      rcases hv : fromStr s with _ | v
      · rfl
      · rw [bind_some, toStr_of_fromStr hv]
        exact if_neg hvisible

variable (ctx : RequestContext)

theorem getStr_makeResponse (n : HeaderName) : (makeResponse ctx).headers.getStr n =
    ((HeaderMap.get (identityHeader "x-auth-user" ctx.username) n).or
      (HeaderMap.get (identityHeader "x-auth-groups" ctx.groups) n)).bind HeaderValue.toStr :=
  congrArg (·.bind HeaderValue.toStr) lookup_append

theorem getStr_user : (makeResponse ctx).headers.getStr "x-auth-user" = received ctx.username := by
  rw [getStr_makeResponse, get_identityHeader_self, get_identityHeader_of_ne (by decide), or_none,
    bind_toStr_eq_received]

theorem getStr_groups :
    (makeResponse ctx).headers.getStr "x-auth-groups" = received ctx.groups := by
  rw [getStr_makeResponse, get_identityHeader_self, get_identityHeader_of_ne (by decide), none_or,
    bind_toStr_eq_received]

/-! ## Groups -/

/-- A group that a header carries. -/
structure CarriedGroup (g : String) : Prop where
  visible : Visible g
  nonempty : g ≠ ""
  trimmed : Text.trim g = g
  noComma : ',' ∉ g.toList

/-- An identity that survives the way through the headers. -/
structure Carried (id : Identity) : Prop where
  username : Visible id.username
  groups : ∀ g ∈ id.groups, CarriedGroup g

theorem received_getD_eq_iff : (received s).getD "" = s ↔ Visible s := by
  rw [received]
  split_ifs with h
  · simp only [getD_some, h.2]
  · rw [getD_none]
    constructor
    · rintro rfl
      decide
    · intro hvisible
      by_contra hne
      exact h ⟨fun hempty ↦ hne hempty.symm, hvisible⟩

theorem received_groups_eq_iff {gs : List String} :
    ((received (",".intercalate gs)).map readGroups).getD [] = gs ↔ ∀ g ∈ gs, CarriedGroup g := by
  have hvisible : Visible (",".intercalate gs) ↔ ∀ g ∈ gs, Visible g :=
    Oidc.visible_intercalate_iff (by decide)
  constructor
  · intro h g hg
    rw [received] at h
    split_ifs at h with hsent
    · rw [map_some, getD_some] at h
      rw [← h] at hg
      obtain ⟨hne, htrim, hcomma⟩ := Text.mem_splitTrimmed hg
      exact ⟨hvisible.mp hsent.2 g (h ▸ hg), hne, htrim, hcomma⟩
    · rw [map_none, getD_none] at h
      exact absurd (h ▸ hg) not_mem_nil
  · intro h
    have hread : readGroups (",".intercalate gs) = gs :=
      Text.splitTrimmed_intercalate fun g hg ↦
        ⟨(h g hg).nonempty, (h g hg).trimmed, (h g hg).noComma⟩
    rw [received]
    split_ifs with hsent
    · rw [map_some, getD_some, hread]
    · -- only an empty text is not sent, and it has no groups
      have hempty : ",".intercalate gs = "" := by
        by_contra hne
        exact hsent ⟨hne, hvisible.mpr fun g hg ↦ (h g hg).visible⟩
      rw [map_none, getD_none, ← hread, hempty]
      rfl

/-! ## Identities -/

/-- The authenticator reads the headers the handler writes. -/
structure Paired (a : SubrequestAuthenticator) : Prop where
  userHeader : a.userHeader = some "x-auth-user"
  groupsHeader : a.groupsHeader = some "x-auth-groups"

theorem call_makeResponse {a : SubrequestAuthenticator} (ha : Paired a)
    {send : HeaderMap → Option Response} {h : HeaderMap} {ctx : RequestContext}
    (hsend : send (a.forwarded h) = some (makeResponse ctx)) :
    a.call send h = .authenticated
      { username := (received ctx.username).getD ""
        groups := ((received ctx.groups).map readGroups).getD [] } := by
  have hid : a.identity (makeResponse ctx).headers =
      ⟨(received ctx.username).getD "", ((received ctx.groups).map readGroups).getD []⟩ := by
    rw [identity, ha.userHeader, ha.groupsHeader, bind_some, bind_some, getStr_user, getStr_groups]
  rw [call, hsend, ← hid]
  exact if_neg fun hstatus ↦ hstatus rfl

/-- The identity of the client, or none, comes through exactly if it can be carried. -/
theorem identity_survives_iff {a : SubrequestAuthenticator} (ha : Paired a)
    {send : HeaderMap → Option Response} {h : HeaderMap} {ctx : RequestContext} {id : Identity}
    (hctx : (ctx.username, ctx.groups) = principalStrings (.authenticated id))
    (hsend : send (a.forwarded h) = some (makeResponse ctx)) :
    (a.call send h = .anonymous ∨ a.call send h = .authenticated id) ↔ Carried id := by
  obtain ⟨husername, hgroups⟩ := Prod.mk.inj hctx
  rw [call_makeResponse ha hsend, husername, hgroups]
  constructor
  · rintro (h | h)
    · cases h
    · obtain ⟨username, groups⟩ := id
      obtain ⟨hu, hg⟩ := Identity.mk.inj (Principal.authenticated.inj h)
      exact ⟨received_getD_eq_iff.mp hu, received_groups_eq_iff.mp hg⟩
  · intro hcarried
    right
    rw [received_getD_eq_iff.mpr hcarried.username, received_groups_eq_iff.mpr hcarried.groups]

/-- The configuration the documentation shows. -/
private def documented : SubrequestAuthenticator :=
  ⟨["authorization", "cookie"], some "x-auth-user", some "x-auth-groups"⟩

/-- What the peer answers for an identity. -/
private def answerFor (id : Identity) : Response :=
  makeResponse
    { username := (principalStrings (.authenticated id)).1
      groups := (principalStrings (.authenticated id)).2 }

theorem identity_survives_alice :
    documented.call (fun _ ↦ some (answerFor ⟨"alice", ["ops", "users"]⟩)) [] = .anonymous ∨
      documented.call (fun _ ↦ some (answerFor ⟨"alice", ["ops", "users"]⟩)) [] =
        .authenticated ⟨"alice", ["ops", "users"]⟩ := by
  refine (identity_survives_iff ⟨rfl, rfl⟩ rfl rfl).mpr ⟨by decide, ?_⟩
  intro g hg
  rcases mem_cons.mp hg with rfl | hg
  · exact ⟨by decide, by decide, by decide +kernel, by decide⟩
  · obtain rfl := mem_singleton.mp hg
    exact ⟨by decide, by decide, by decide +kernel, by decide⟩

/-- A comma in a group makes two other groups of it, and a name that is not ASCII is lost. -/
theorem comma_splits_group :
    documented.call (fun _ ↦ some (answerFor ⟨"alice", ["ops,admin"]⟩)) [] =
        .authenticated ⟨"alice", ["ops", "admin"]⟩ ∧
      documented.call (fun _ ↦ some (answerFor ⟨"zoë", ["ops"]⟩)) [] =
        .authenticated ⟨"", ["ops"]⟩ := by
  decide +kernel

end Auth

end Hypershunt
