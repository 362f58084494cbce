import Hypershunt.Oidc.LoginRedirect

/-!
# The return path of a login

The path a login request asks to return to ends up in the `Location` header of the callback that
completes the login, and on its way there nothing changes it (`returnTo_of_completes`).

The filter for return paths looks at the first two characters of the decoded path only. It lets
through a slash, a tab and another slash, and a browser that drops the tab takes what follows for a
host. It also lets through control characters; a header value may have none but the tab, and
building the response panics. `staysOnSite_iff` and `handleOidcCallback_isSome_iff` say for which
requests that happens.
-/

namespace Hypershunt

open List Option

namespace Oidc

open Listener (JwtManager)

open HeaderValue CompletionPhase Text

/-! ## From the login request to the callback -/

/-- Some run accepted a login request with this query and completed it with this code and state. -/
def Completes (query code state : String) (login : CompletedLogin) : Prop :=
  ∃ cfg clock as t, run loginStep (.init cfg clock) as = some t ∧
    (∃ i st authorizeUrl isTls, t.starts.lookup i = some st ∧ st.draw.state = state ∧
      (handleOidcLogin authorizeUrl true st.draw query isTls).2 = some st.returnTo) ∧
    ∃ c k, t.completions.lookup c = some k ∧ k.code = code ∧ k.stateId = state ∧
      k.phase.login = some login

theorem returnPath_of_handleOidcLogin {authorizeUrl : Draw → List (String × String) → String}
    {ready isTls : Bool} {draw : Draw} {query path : String}
    (h : (handleOidcLogin authorizeUrl ready draw query isTls).2 = some path) :
    path = returnPath query := by
  unfold handleOidcLogin at h
  split at h
  case h_1 => cases h
  case h_2 hints hhints =>
    split_ifs at h
    exact (some.inj h).symm

theorem returnTo_of_redeem {cfg : LoginConfig} {idp : Idp} {code : String} {entry : StateEntry}
    {newSid : String} {now : Instant} {login : CompletedLogin}
    (h : redeem cfg idp code entry newSid now = .ok login) : login.returnTo = entry.returnTo := by
  rw [redeem, ite_error_eq_ok_iff] at h
  obtain ⟨-, h⟩ := h
  split at h
  case h_1 => cases h
  case h_2 response hresponse =>
    split at h
    case h_1 => cases h
    case h_2 idToken hid =>
      split at h
      case h_1 => cases h
      case h_2 token htoken =>
        cases h
        rfl

namespace CompletionPhase

/-- A completion hands on the return path of the entry it consumed. -/
def Faithful (phase : CompletionPhase) : Prop :=
  ∀ login, phase.login = some login →
    ∃ entry time, phase.consumption = some (entry, time) ∧ login.returnTo = entry.returnTo

theorem faithful_of_login_eq_none {phase : CompletionPhase} (h : phase.login = none) :
    phase.Faithful := by
  intro login hlogin
  rw [h] at hlogin
  cases hlogin

theorem faithful_returned {entry : StateEntry} {time : Instant}
    {result : Except String CompletedLogin}
    (h : ∀ login, result = .ok login → login.returnTo = entry.returnTo) :
    (returned entry time result).Faithful := by
  intro login hlogin
  rcases result with error | login'
  · cases hlogin
  · obtain rfl := some.inj hlogin
    exact ⟨entry, time, rfl, h _ rfl⟩

end CompletionPhase

/-- Every completion is faithful to its entry. -/
def Logins.Faithful (s : Logins) : Prop :=
  ∀ c k, s.completions.lookup c = some k → k.phase.Faithful

theorem Logins.Faithful.setPhase {s : Logins} (h : s.Faithful) {c : ℕ} {k : Completion}
    {phase : CompletionPhase} (hphase : phase.Faithful) : (s.setPhase c k phase).Faithful := by
  intro c' k' hc'
  rcases OneShot.lookup_setPhase hc' with ⟨-, rfl⟩ | hc'
  · exact hphase
  · exact h c' k' hc'

theorem Logins.Faithful.step {s t : Logins} {a : LoginAction} (h : s.Faithful)
    (hstep : loginStep s a = some t) : t.Faithful := by
  rcases a with d | ⟨i, returnTo, draw⟩ | i | ⟨c, stateId, code, ready⟩ | c | c | ⟨c, idp, newSid⟩ |
    k | k
  case tick =>
    obtain rfl := some.inj hstep
    exact h
  case draw | readClock =>
    simp only [loginStep, ite_none_left_eq_some, some.injEq] at hstep
    obtain ⟨-, rfl⟩ := hstep
    exact h
  case complete =>
    simp only [loginStep, ite_none_left_eq_some, some.injEq] at hstep
    obtain ⟨-, rfl⟩ := hstep
    refine h.setPhase (faithful_of_login_eq_none ?_)
    split <;> rfl
  case store =>
    simp only [loginStep] at hstep
    split at hstep
    case h_1 =>
      simp only [ite_none_left_eq_some, some.injEq] at hstep
      obtain ⟨-, rfl⟩ := hstep
      exact h
    case h_2 => cases hstep
  case take =>
    simp only [loginStep] at hstep
    split at hstep
    case h_1 =>
      split at hstep
      all_goals
        obtain rfl := some.inj hstep
        exact setPhase h (faithful_of_login_eq_none rfl)
    case h_2 => cases hstep
  case checkAge =>
    simp only [loginStep] at hstep
    split at hstep
    case h_1 =>
      obtain rfl := some.inj hstep
      refine h.setPhase (faithful_of_login_eq_none ?_)
      split <;> rfl
    case h_2 => cases hstep
  case redeem =>
    simp only [loginStep] at hstep
    split at hstep
    case h_1 =>
      obtain rfl := some.inj hstep
      exact h.setPhase (faithful_returned fun _ ↦ returnTo_of_redeem)
    case h_2 => cases hstep
  case evict =>
    simp only [loginStep] at hstep
    split at hstep
    case h_1 =>
      obtain rfl := some.inj hstep
      exact h
    case h_2 => cases hstep

/-- A completed login returns to the path its request asked for. -/
theorem returnTo_of_completes {query code state : String} {login : CompletedLogin}
    (h : Completes query code state login) : login.returnTo = returnPath query := by
  obtain ⟨cfg, clock, as, t, hrun, ⟨i, st, authorizeUrl, isTls, hi, hstate, hpath⟩,
    c, k, hc, -, hid, hlogin⟩ := h
  have hfaithful : t.Faithful :=
    run_induction (by simp [Logins.Faithful, Logins.init]) (fun _ _ _ hs hstep ↦ hs.step hstep) hrun
  have hshot : OneShot cfg t :=
    run_induction (oneShot_init cfg clock) (fun _ _ _ hs hstep ↦ hs.step hstep) hrun
  obtain ⟨entry, time, hentry, hreturn⟩ := hfaithful c k hc login hlogin
  obtain ⟨⟨j, st', hj, -, hstate', rfl⟩, -⟩ :=
    hshot.held c k entry hc (entry_of_consumption hentry)
  obtain rfl := hshot.unique j i st' st hj hi (by rw [hstate', hstate, hid])
  obtain rfl := some.inj (hj.symm.trans hi)
  rw [hreturn, ← returnPath_of_handleOidcLogin hpath]
  rfl

/-! ## A login from end to end -/

private def someUser : Identity := ⟨"user", []⟩

/-- A provider that accepts every code. -/
private def acceptingIdp : Idp where
  tokenEndpoint := true
  exchangeCode _ _ _ := some ⟨some "token", none⟩
  verifyIdToken _ _ := some ⟨"user", none, someUser⟩

/-- A login that is started and completed. -/
private def plainLogin (path : String) : List LoginAction :=
  [.draw 0 path ⟨"verifier", "state", "nonce"⟩, .store 0, .complete 0 "state" "code" true, .take 0,
    .checkAge 0, .redeem 0 acceptingIdp "sid"]

private theorem run_plainLogin (path : String) :
    ((run loginStep (.init ⟨60, false, 0, []⟩ 5) (plainLogin path)).bind
      fun t ↦ (t.starts.lookup 0).bind fun st ↦ (t.completions.lookup 0).map fun k ↦
        (st.draw.state, st.returnTo, k.code, k.stateId, k.phase.login)) =
      some ("state", path, "code", "state", some ⟨someUser, path, none⟩) := by
  rfl

/-- Every login request that is accepted can be completed. -/
private theorem completes_plainLogin {query : String} (h : (buildIdpHints query).isSome) :
    Completes query "code" "state" ⟨someUser, returnPath query, none⟩ := by
  have hrun := run_plainLogin (returnPath query)
  obtain ⟨t, ht, hrun⟩ := bind_eq_some_iff.mp hrun
  obtain ⟨st, hst, hrun⟩ := bind_eq_some_iff.mp hrun
  obtain ⟨k, hk, hrun⟩ := map_eq_some_iff.mp hrun
  simp only [Prod.mk.injEq] at hrun
  obtain ⟨hstate, hreturn, hcode, hid, hlogin⟩ := hrun
  obtain ⟨hints, hhints⟩ := isSome_iff_exists.mp h
  refine ⟨_, _, _, t, ht, ⟨0, st, fun _ _ ↦ "", false, hst, hstate, ?_⟩, 0, k, hk, hcode, hid,
    hlogin⟩
  rw [handleOidcLogin, hhints, hreturn]
  rfl

/-- The request that comes back from the identity provider. -/
private def plainCallback : HeaderMap × String :=
  ([("cookie", "__hypershunt_oidc_state=state")], "code=code&state=state")

private def plainConfig : CallbackConfig := ⟨"https://idp.example", false, "refresh", 3600⟩

private def plainJwt : JwtManager := ⟨fun _ ↦ none, none, "session", 3600, fun _ ↦ .ok "token", ""⟩

/-- The response that completes the login a request with this query starts. -/
private def plainResponse (query : String) : Option Response :=
  handleOidcCallback plainConfig (some plainJwt) plainCallback.1 plainCallback.2 true (fun _ ↦ none)
    fun _ _ ↦ .ok ⟨someUser, returnPath query, none⟩

private theorem callbackChecks_plainCallback :
    callbackChecks plainConfig plainCallback.1 plainCallback.2 = some ("code", "state") := by
  decide

private theorem plainResponse_eq (query : String) :
    plainResponse query = callbackRedirect plainConfig ⟨someUser, returnPath query, none⟩
      (strictCookie "session" "token" 3600 true) true := by
  rw [plainResponse, handleOidcCallback, callbackChecks_plainCallback]
  rfl

/-! ## What the callback sends -/

section Callback

variable {query code state : String} {login : CompletedLogin} {cfg : CallbackConfig}
  {jwt : Option JwtManager} {headers : HeaderMap} {callback : String} {isTls : Bool}
  {pages : ErrorPages} {completeLogin : String → String → Except String CompletedLogin}

/-- Without a way to issue a session token the callback says so; otherwise it redirects. -/
theorem handleOidcCallback_cases (jwt : Option JwtManager) (isTls : Bool) (pages : ErrorPages)
    (hchecks : callbackChecks cfg headers callback = some (code, state))
    (hcomplete : completeLogin code state = .ok login) :
    ((∀ manager token, jwt = some manager → manager.issue login.identity ≠ .ok token) ∧
      handleOidcCallback cfg jwt headers callback isTls pages completeLogin =
        some (responseStatus 500 pages)) ∨
    ∃ manager token, jwt = some manager ∧ manager.issue login.identity = .ok token ∧
      handleOidcCallback cfg jwt headers callback isTls pages completeLogin =
        callbackRedirect cfg login
          (strictCookie manager.cookieName token manager.validitySecs isTls) isTls := by
  simp only [handleOidcCallback, hchecks, hcomplete]
  rcases jwt with _ | manager
  · exact Or.inl ⟨nofun, rfl⟩
  · rcases hissue : manager.issue login.identity with error | token
    · refine Or.inl ⟨fun manager' token hmanager htoken ↦ ?_, ?_⟩
      · obtain rfl := some.inj hmanager
        cases hissue.symm.trans htoken
      · simp only [JwtManager.makeSetCookie, hissue]
        rfl
    · refine Or.inr ⟨manager, token, rfl, hissue, ?_⟩
      simp only [JwtManager.makeSetCookie, hissue]
      rfl

theorem location_of_callbackRedirect {sessionCookie : String} {resp : Response}
    (h : callbackRedirect cfg login sessionCookie isTls = some resp) :
    HeaderText login.returnTo ∧
      resp.headers.get "location" = some (ofBytes (bytes login.returnTo)) := by
  obtain ⟨htext, rfl⟩ := buildResponse_eq_some_iff.mp h
  exact ⟨htext ("location", login.returnTo) (by simp), rfl⟩

theorem headerText_repr (n : ℕ) : HeaderText (Nat.repr n) :=
  (fromStr_eq_some_iff.mp (fromStr_of_visible (visible_repr n))).1

theorem headerText_secure (isTls : Bool) : HeaderText (secure isTls) := by
  cases isTls <;> decide

theorem headerText_strictCookie {name value : String} {maxAge : ℕ} :
    HeaderText (strictCookie name value maxAge isTls) ↔ HeaderText name ∧ HeaderText value := by
  have hequals : HeaderText "=" := by decide
  have hattributes : HeaderText "; Path=/; HttpOnly; SameSite=Strict; Max-Age=" := by decide
  simp only [strictCookie, headerText_append, hequals, hattributes, headerText_repr,
    headerText_secure, and_true]

theorem headerText_clearStateCookie : HeaderText (clearStateCookie isTls) := by
  have hname : HeaderText (stateCookieName ++ "=" ++ "" ++
      "; Path=/; HttpOnly; SameSite=Lax; Max-Age=") := by decide
  exact headerText_append.mpr
    ⟨headerText_append.mpr ⟨hname, headerText_repr 0⟩, headerText_secure isTls⟩

theorem callbackRedirect_isSome_iff {sessionCookie : String} :
    (callbackRedirect cfg login sessionCookie isTls).isSome ↔
      HeaderText login.returnTo ∧ HeaderText sessionCookie ∧
        ∀ sid entry, login.refresh = some (sid, entry) →
          HeaderText cfg.refreshCookieName ∧ HeaderText sid := by
  rw [callbackRedirect, buildResponse_isSome_iff, forall_mem_append]
  rcases hrefresh : login.refresh with _ | ⟨sid, entry⟩
  · simp [headerText_clearStateCookie]
  · simp [headerText_clearStateCookie, refreshCookieValue, headerText_strictCookie, and_assoc]

/-! ## Staying on the site -/

/-- The characters that URL parsers drop. -/
def isDropped (c : Char) : Bool := c == '\t' || c == '\n' || c == '\r'

/-- The location is a path of the site for a URL parser. -/
def StaysOnSite (location : HeaderValue) : Prop :=
  ∃ rest, (location.toList.filter fun c ↦ !isDropped c) = '/' :: rest ∧
    rest.head? ≠ some '/' ∧ rest.head? ≠ some '\\'

/-- A slash, and after some tabs another slash or a backslash. -/
def LeavesAfterTabs (path : String) : Prop :=
  ∃ n c rest, path.toList = '/' :: (List.replicate (n + 1) '\t' ++ c :: rest) ∧
    (c = '/' ∨ c = '\\')

/-- The bytes of a character, as a header value shows them. -/
def sentChars (c : Char) : List Char :=
  (String.utf8EncodeChar c).map fun b ↦ Char.ofNat b.toNat

theorem toList_ofBytes (s : String) :
    (ofBytes (bytes s)).toList = s.toList.flatMap sentChars := by
  rw [ofBytes, String.toList_ofList, bytes_eq_flatMap, map_flatMap]
  rfl

variable {c : Char} {path : String} {rest : List Char}

theorem sentChars_of_lt (hc : c.toNat < 128) : sentChars c = [c] := by
  rw [sentChars, utf8EncodeChar_of_lt hc, map_singleton, UInt8.toNat_ofNat',
    Nat.mod_eq_of_lt (hc.trans (by decide)), Char.ofNat_toNat]

theorem sentChars_of_le (hc : 128 ≤ c.toNat) : ∃ d ds, sentChars c = d :: ds ∧ 128 ≤ d.toNat := by
  rcases hbytes : String.utf8EncodeChar c with _ | ⟨b, bs⟩
  · have hlen := String.length_utf8EncodeChar c
    have hpos := c.utf8Size_pos
    rw [hbytes, length_nil] at hlen
    omega
  · have hb : b ∈ String.utf8EncodeChar c := hbytes ▸ mem_cons_self
    have hlow := le_of_mem_utf8EncodeChar hc hb
    refine ⟨Char.ofNat b.toNat, bs.map fun b ↦ Char.ofNat b.toNat, ?_, ?_⟩
    · rw [sentChars, hbytes, map_cons]
    rw [toNat_charOfNat_byte]
    exact hlow

theorem isDropped_of_le (hc : 128 ≤ c.toNat) : isDropped c = false := by
  have htab : c ≠ '\t' := by rintro rfl; exact absurd hc (by decide)
  have hlf : c ≠ '\n' := by rintro rfl; exact absurd hc (by decide)
  have hcr : c ≠ '\r' := by rintro rfl; exact absurd hc (by decide)
  simp [isDropped, htab, hlf, hcr]

/-- The first ASCII character of a text and of the value made of it are the same to a URL parser. -/
theorem head?_filter_flatMap_sentChars {d : Char} (hd : d.toNat < 128) (cs : List Char) :
    ((cs.flatMap sentChars).filter fun c ↦ !isDropped c).head? = some d ↔
      (cs.filter fun c ↦ !isDropped c).head? = some d := by
  induction cs with
  | nil => rfl
  | cons c cs ih =>
    rw [flatMap_cons]
    by_cases hc : c.toNat < 128
    · rw [sentChars_of_lt hc, singleton_append]
      rcases hdrop : isDropped c with _ | _
      · rw [filter_cons_of_pos (by simp [hdrop]), filter_cons_of_pos (by simp [hdrop])]
        rfl
      · rw [filter_cons_of_neg (by simp [hdrop]), filter_cons_of_neg (by simp [hdrop])]
        exact ih
    · rw [not_lt] at hc
      obtain ⟨e, es, hsent, he⟩ := sentChars_of_le hc
      rw [hsent, cons_append, filter_cons_of_pos (by simp [isDropped_of_le he]),
        filter_cons_of_pos (by simp [isDropped_of_le hc]), head?_cons, head?_cons]
      constructor
      · intro h
        obtain rfl := some.inj h
        omega
      · intro h
        obtain rfl := some.inj h
        omega

/-- A location that starts with a slash stays if the next character that is not dropped lets it. -/
theorem staysOnSite_ofBytes_iff (h : path.toList = '/' :: rest) :
    StaysOnSite (ofBytes (bytes path)) ↔
      ∀ c, c = '/' ∨ c = '\\' → (rest.filter fun c ↦ !isDropped c).head? ≠ some c := by
  have hsent : (ofBytes (bytes path)).toList.filter (fun c ↦ !isDropped c) =
      '/' :: (rest.flatMap sentChars).filter fun c ↦ !isDropped c := by
    rw [toList_ofBytes, h, flatMap_cons, sentChars_of_lt (by decide), singleton_append,
      filter_cons_of_pos (by decide)]
  simp only [StaysOnSite, hsent, List.cons.injEq, true_and, exists_eq_left', forall_eq_or_imp,
    forall_eq, ne_eq, head?_filter_flatMap_sentChars (d := '/') (by decide),
    head?_filter_flatMap_sentChars (d := '\\') (by decide)]

/-- Line breaks cannot be sent, so what is dropped from a value are tabs. -/
theorem eq_tab_of_isDropped (hdrop : isDropped c = true) (hvalid : validChar c = true) :
    c = '\t' := by
  simp only [isDropped, Bool.or_eq_true, beq_iff_eq] at hdrop
  rcases hdrop with (rfl | rfl) | rfl
  · rfl
  · exact absurd hvalid (by decide)
  · exact absurd hvalid (by decide)

theorem not_leavesAfterTabs_of_stays (h : path.toList = '/' :: rest)
    (hstays : ∀ c, c = '/' ∨ c = '\\' → (rest.filter fun c ↦ !isDropped c).head? ≠ some c) :
    ¬LeavesAfterTabs path := by
  rintro ⟨n, c, rest', hpath, hc⟩
  rw [h, List.cons.injEq] at hpath
  refine hstays c hc ?_
  rw [head?_filter, find?_eq_some_iff_append]
  refine ⟨by rcases hc with rfl | rfl <;> decide, _, rest', hpath.2, fun a ha ↦ ?_⟩
  rw [eq_of_mem_replicate ha]
  rfl

/-- The filter excludes a second slash, so it takes a tab to leave the site. -/
theorem stays_of_not_leavesAfterTabs (h : path.toList = '/' :: rest)
    (hpath : isReturnPath path = true) (htext : HeaderText path) (hleaves : ¬LeavesAfterTabs path)
    (hc : c = '/' ∨ c = '\\') : (rest.filter fun c ↦ !isDropped c).head? ≠ some c := by
  intro hhead
  rw [head?_filter, find?_eq_some_iff_append] at hhead
  obtain ⟨-, dropped, rest', rfl, hdropped⟩ := hhead
  have htabs : ∀ a ∈ dropped, a = '\t' := by
    intro a ha
    have hvalid : validChar a = true := by
      refine List.all_eq_true.mp htext a ?_
      simp [h, ha]
    refine eq_tab_of_isDropped ?_ hvalid
    simpa using hdropped a ha
  rcases dropped with _ | ⟨a, dropped⟩
  · simp only [isReturnPath, startsWith, h, Bool.and_eq_true] at hpath
    rcases hc with rfl | rfl
    · exact absurd hpath.1.2 (by simp)
    · exact absurd hpath.2 (by simp)
  · refine hleaves ⟨dropped.length, c, rest', ?_, hc⟩
    rw [h, ← length_cons (a := a), ← eq_replicate_of_mem htabs]

theorem isReturnPath_of_leavesAfterTabs (h : LeavesAfterTabs path) : isReturnPath path = true := by
  obtain ⟨n, c, rest, hpath, -⟩ := h
  simp only [isReturnPath, startsWith, hpath, replicate_succ]
  rfl

theorem not_leavesAfterTabs_root : ¬LeavesAfterTabs "/" := by
  rintro ⟨n, c, rest, hpath, -⟩
  simp at hpath

/-- The filter never makes a path leave the site. -/
theorem leavesAfterTabs_validateReturnTo_iff {raw : String} :
    LeavesAfterTabs (validateReturnTo raw) ↔ LeavesAfterTabs raw := by
  rw [validateReturnTo]
  split_ifs with h
  · rfl
  · refine iff_of_false not_leavesAfterTabs_root fun hraw ↦ h ?_
    exact isReturnPath_of_leavesAfterTabs hraw

theorem isReturnPath_returnPath (query : String) : isReturnPath (returnPath query) = true := by
  rw [returnPath, validateReturnTo]
  split_ifs with h
  · exact h
  · rfl

/-- A callback that redirects leads to the path of the login. -/
theorem location_of_handleOidcCallback
    (hchecks : callbackChecks cfg headers callback = some (code, state))
    (hcomplete : completeLogin code state = .ok login) {resp : Response}
    (hresp : handleOidcCallback cfg jwt headers callback isTls pages completeLogin = some resp)
    {location : HeaderValue} (hlocation : resp.headers.get "location" = some location) :
    HeaderText login.returnTo ∧ location = ofBytes (bytes login.returnTo) := by
  rcases handleOidcCallback_cases jwt isTls pages hchecks hcomplete
    with ⟨-, h⟩ | ⟨manager, token, -, -, h⟩
  · rw [h, some.injEq] at hresp
    subst hresp
    cases hlocation
  · rw [h] at hresp
    obtain ⟨htext, hget⟩ := location_of_callbackRedirect hresp
    rw [hget, some.injEq] at hlocation
    exact ⟨htext, hlocation.symm⟩

/-- **Where the login leads to**: a path of this site, unless the login request asked for one with
tabs between its first slash and another slash or a backslash. -/
theorem staysOnSite_iff (hlogin : Completes query code state login)
    (hchecks : callbackChecks cfg headers callback = some (code, state))
    (hcomplete : completeLogin code state = .ok login) {resp : Response}
    (hresp : handleOidcCallback cfg jwt headers callback isTls pages completeLogin = some resp)
    {location : HeaderValue} (hlocation : resp.headers.get "location" = some location) :
    StaysOnSite location ↔
      ∀ path, queryParam query "return" = some path → ¬LeavesAfterTabs path := by
  obtain ⟨htext, rfl⟩ := location_of_handleOidcCallback hchecks hcomplete hresp hlocation
  rw [returnTo_of_completes hlogin] at htext ⊢
  have hpath := isReturnPath_returnPath query
  obtain ⟨rest, hrest⟩ : ∃ rest, (returnPath query).toList = '/' :: rest := by
    simp only [isReturnPath, Bool.and_eq_true, startsWith_iff] at hpath
    obtain ⟨rest, hrest⟩ := hpath.1.1
    exact ⟨rest, hrest.symm⟩
  calc StaysOnSite (ofBytes (bytes (returnPath query)))
      ↔ ¬LeavesAfterTabs (returnPath query) := by
        rw [staysOnSite_ofBytes_iff hrest]
        exact ⟨not_leavesAfterTabs_of_stays hrest,
          fun hleaves c hc ↦ stays_of_not_leavesAfterTabs hrest hpath htext hleaves hc⟩
    _ ↔ ∀ path, queryParam query "return" = some path → ¬LeavesAfterTabs path := by
        rw [returnPath, leavesAfterTabs_validateReturnTo_iff]
        rcases queryParam query "return" with _ | path
        · exact iff_of_true not_leavesAfterTabs_root nofun
        · simp

private theorem queryParam_inbox : queryParam "return=/inbox" "return" = some "/inbox" := by
  decide

private theorem completes_inbox :
    Completes "return=/inbox" "code" "state" ⟨someUser, "/inbox", none⟩ := by
  have hreturn : returnPath "return=/inbox" = "/inbox" := by
    rw [returnPath, queryParam_inbox]
    decide
  rw [← hreturn]
  exact completes_plainLogin (by decide)

/-- A login that returns to an inbox stays on the site. -/
theorem staysOnSite_inbox :
    Completes "return=/inbox" "code" "state" ⟨someUser, "/inbox", none⟩ ∧
      ∃ resp, plainResponse "return=/inbox" = some resp ∧
        resp.headers.get "location" = some "/inbox" ∧ StaysOnSite "/inbox" := by
  have hget : (plainResponse "return=/inbox").bind (fun resp ↦ resp.headers.get "location") =
      some "/inbox" := by
    rw [plainResponse_eq]
    decide +kernel
  obtain ⟨resp, hresp, hlocation⟩ := bind_eq_some_iff.mp hget
  refine ⟨completes_inbox, resp, hresp, hlocation, ?_⟩
  refine (staysOnSite_iff completes_inbox callbackChecks_plainCallback rfl hresp hlocation).mpr ?_
  rintro path hpath ⟨n, c, rest, htabs, -⟩
  obtain rfl := some.inj (queryParam_inbox.symm.trans hpath)
  rw [replicate_succ] at htabs
  exact absurd htabs (by simp)

/-- **Back to the page**: a login that a redirect has led to ends at the target asked for. -/
theorem location_after_login {returnTo : String} (h : isReturnPath returnTo = true)
    (hlogin : Completes ("return=" ++ percentEncodeReturn returnTo) code state login)
    (hchecks : callbackChecks cfg headers callback = some (code, state))
    (hcomplete : completeLogin code state = .ok login) {resp : Response}
    (hresp : handleOidcCallback cfg jwt headers callback isTls pages completeLogin = some resp)
    {location : HeaderValue} (hlocation : resp.headers.get "location" = some location) :
    location = ofBytes (bytes returnTo) := by
  rw [(location_of_handleOidcCallback hchecks hcomplete hresp hlocation).2,
    returnTo_of_completes hlogin, returnPath, queryParam_return, getD_some, validateReturnTo,
    if_pos h]

theorem location_after_login_inbox :
    ((plainResponse "return=/inbox").bind fun resp ↦ resp.headers.get "location") =
      some (ofBytes (bytes "/inbox")) := by
  have hsome : (plainResponse "return=/inbox").isSome := by
    rw [plainResponse_eq, ← returnTo_of_completes completes_inbox]
    exact callbackRedirect_isSome_iff.mpr ⟨by decide, by decide, nofun⟩
  obtain ⟨resp, hresp⟩ := isSome_iff_exists.mp hsome
  have hget := (location_of_callbackRedirect (plainResponse_eq _ ▸ hresp)).2
  have hquery : "return=/inbox" = "return=" ++ percentEncodeReturn "/inbox" := rfl
  rw [hresp, bind_some, hget, location_after_login (by decide) (hquery ▸ completes_inbox)
    callbackChecks_plainCallback rfl hresp hget]

/-- A login that returns to a slash, a tab, a slash and a host sends the browser to that host. -/
theorem tab_leaves_site :
    Completes "return=/%09/evil.example" "code" "state"
      ⟨someUser, returnPath "return=/%09/evil.example", none⟩ ∧
    callbackChecks plainConfig plainCallback.1 plainCallback.2 = some ("code", "state") ∧
      ∃ resp, plainResponse "return=/%09/evil.example" = some resp ∧
        resp.headers.get "location" = some "/\t/evil.example" ∧
        ¬StaysOnSite "/\t/evil.example" := by
  have hget : (plainResponse "return=/%09/evil.example").bind
      (fun resp ↦ resp.headers.get "location") = some "/\t/evil.example" := by
    rw [plainResponse_eq]
    decide +kernel
  obtain ⟨resp, hresp, hlocation⟩ := bind_eq_some_iff.mp hget
  refine ⟨completes_plainLogin (by decide +kernel), callbackChecks_plainCallback, resp, hresp,
    hlocation, ?_⟩
  rintro ⟨rest, hrest, hslash, -⟩
  have hdropped : ("/\t/evil.example".toList.filter fun c ↦ !isDropped c) =
      '/' :: "/evil.example".toList := by
    decide +kernel
  obtain rfl := (List.cons.inj (hdropped.symm.trans hrest)).2
  exact hslash rfl

/-- **When the callback panics**: unless the path that was asked for has no control character but
tabs, and neither have the names of the cookies. -/
theorem handleOidcCallback_isSome_iff (hlogin : Completes query code state login)
    (hchecks : callbackChecks cfg headers callback = some (code, state))
    (hcomplete : completeLogin code state = .ok login)
    (htoken : ∀ manager token, jwt = some manager → manager.issue login.identity = .ok token →
      HeaderText token)
    (hsid : ∀ sid entry, login.refresh = some (sid, entry) → HeaderText sid) :
    (handleOidcCallback cfg jwt headers callback isTls pages completeLogin).isSome ↔
      ∀ manager token, jwt = some manager → manager.issue login.identity = .ok token →
        (∀ path, queryParam query "return" = some path → isReturnPath path = true →
          HeaderText path) ∧
        HeaderText manager.cookieName ∧
        (login.refresh.isSome → HeaderText cfg.refreshCookieName) := by
  have hreturn : HeaderText login.returnTo ↔
      ∀ path, queryParam query "return" = some path → isReturnPath path = true →
        HeaderText path := by
    rw [returnTo_of_completes hlogin, returnPath, validateReturnTo]
    rcases queryParam query "return" with _ | path
    · exact iff_of_true (by decide) nofun
    · rw [getD_some]
      split_ifs with hpath
      · simp [hpath]
      · refine iff_of_true (by decide) fun path' hpath' hreturn ↦ ?_
        obtain rfl := some.inj hpath'
        exact absurd hreturn hpath
  rcases handleOidcCallback_cases jwt isTls pages hchecks hcomplete
    with ⟨hno, h⟩ | ⟨manager, token, rfl, hissue, h⟩
  · rw [h]
    exact iff_of_true rfl fun manager token hjwt hissue ↦ absurd hissue (hno manager token hjwt)
  · rw [h, callbackRedirect_isSome_iff, headerText_strictCookie, hreturn]
    constructor
    · rintro ⟨hpath, ⟨hname, -⟩, hrefresh⟩ manager' token' hmanager -
      obtain rfl := some.inj hmanager
      refine ⟨hpath, hname, fun hsome ↦ ?_⟩
      obtain ⟨⟨sid, entry⟩, hsome⟩ := isSome_iff_exists.mp hsome
      exact (hrefresh sid entry hsome).1
    · intro hall
      obtain ⟨hpath, hname, hrefresh⟩ := hall manager token rfl hissue
      refine ⟨hpath, ⟨hname, htoken manager token rfl hissue⟩, fun sid entry hlogin ↦ ?_⟩
      exact ⟨hrefresh (by rw [hlogin]; rfl), hsid sid entry hlogin⟩

/-- The response to a login that returns to an inbox is built. -/
theorem handleOidcCallback_isSome_inbox :
    Completes "return=/inbox" "code" "state" ⟨someUser, "/inbox", none⟩ ∧
      (plainResponse "return=/inbox").isSome := by
  refine ⟨completes_inbox, (handleOidcCallback_isSome_iff completes_inbox
    callbackChecks_plainCallback rfl ?_ nofun).mpr ?_⟩
  · intro manager token hmanager htoken
    obtain rfl := some.inj hmanager
    obtain rfl := Except.ok.inj htoken
    decide
  · rintro manager token hmanager -
    obtain rfl := some.inj hmanager
    refine ⟨fun path hpath _ ↦ ?_, by decide, nofun⟩
    obtain rfl := some.inj (queryParam_inbox.symm.trans hpath)
    decide

/-- A login that returns to a slash and a line feed is completed with a panic. -/
theorem lineFeed_panics :
    Completes "return=/%0A" "code" "state" ⟨someUser, returnPath "return=/%0A", none⟩ ∧
      callbackChecks plainConfig plainCallback.1 plainCallback.2 = some ("code", "state") ∧
      plainResponse "return=/%0A" = none := by
  refine ⟨completes_plainLogin (by decide +kernel), callbackChecks_plainCallback, ?_⟩
  rw [plainResponse_eq]
  decide +kernel

end Callback

end Oidc

end Hypershunt
