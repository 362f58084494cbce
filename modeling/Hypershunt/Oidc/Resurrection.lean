import Hypershunt.Oidc.Session

/-!
# Sessions that come back

Once a logout has removed a session, neither it nor anything rotated from it should be in the map
again. A refresh reads its session under the mutex, waits for the identity provider, and writes the
result back under the mutex without looking whether the session is still there. When the answer
keeps the refresh token the write is to an entry that must exist. When the answer rotates it, the
write creates one, and a logout that came in between is undone.

The steps that bring a session back are exactly these: the end of a refresh that rotates a session
which a logout has removed. Runs without such a step keep the property throughout, and any other
run loses it at the first of them.
-/

namespace Hypershunt

namespace Oidc

open Relation Finmap Sessions Option

/-- No session that a logout removed, and none rotated from it, has an entry. -/
def NoResurrection (p : Provider) : Prop :=
  ∀ sid ∈ p.sessions.loggedOut, ∀ d, ReflTransGen p.sessions.Rotated sid d →
    d ∉ p.sessions.refreshes

/-- The step is not the end of a refresh that rotates a session which a logout has removed. -/
def RotatesLiveSession (p : Provider) : Action → Prop
  | .finish call _ _ _ => ∀ sid response, p.calls.lookup call = some ⟨sid, .merging response⟩ →
      response.refreshToken ≠ none → sid ∉ p.sessions.loggedOut
  | _ => True

/-! ## The history of the map -/

namespace Sessions

/-- What every reachable history satisfies as long as no removed session was rotated. -/
structure Clean (s : Sessions) : Prop where
  keys_issued : ∀ sid ∈ s.refreshes, sid ∈ s.issued
  loggedOut_issued : ∀ sid ∈ s.loggedOut, sid ∈ s.issued
  parent_issued : ∀ sid new, s.Rotated sid new → sid ∈ s.issued
  /-- Rotating a session takes its id out of the map for good. -/
  key_not_rotated : ∀ sid ∈ s.refreshes, ∀ new, ¬s.Rotated sid new
  gone : ∀ sid ∈ s.loggedOut, sid ∉ s.refreshes ∧ ∀ new, ¬s.Rotated sid new

variable {s : Sessions}

variable {m : HashMap String RefreshEntry} {sid new : String}

/-- Taking entries away, or changing them in place, keeps a history clean. -/
theorem Clean.of_mem_imp (h : s.Clean) (hm : ∀ sid, sid ∈ m → sid ∈ s.refreshes) :
    ({ s with refreshes := m } : Sessions).Clean where
  keys_issued := fun sid hsid ↦ h.keys_issued sid (hm sid hsid)
  loggedOut_issued := h.loggedOut_issued
  parent_issued := h.parent_issued
  key_not_rotated := fun sid hsid ↦ h.key_not_rotated sid (hm sid hsid)
  gone := fun sid hsid ↦ ⟨fun hmem ↦ (h.gone sid hsid).1 (hm sid hmem), (h.gone sid hsid).2⟩

theorem mem_loggedOut_logoutTo :
    sid ∈ (s.logoutTo m).loggedOut ↔ sid ∈ s.loggedOut ∨ (sid ∈ s.refreshes ∧ sid ∉ m) := by
  simp [logoutTo, mem_keys, lookup_eq_none]

theorem Clean.logoutTo (h : s.Clean) (hm : ∀ sid, sid ∈ m → sid ∈ s.refreshes) :
    (s.logoutTo m).Clean := by
  have hsub := h.of_mem_imp hm
  refine ⟨hsub.keys_issued, ?_, hsub.parent_issued, hsub.key_not_rotated, ?_⟩
  · intro sid hsid
    rcases mem_loggedOut_logoutTo.mp hsid with hsid | ⟨hkey, -⟩
    · exact h.loggedOut_issued sid hsid
    · exact h.keys_issued sid hkey
  · intro sid hsid
    rcases mem_loggedOut_logoutTo.mp hsid with hsid | ⟨hkey, hnot⟩
    · exact hsub.gone sid hsid
    · exact ⟨hnot, h.key_not_rotated sid hkey⟩

theorem Clean.login (h : s.Clean) (hsid : sid ∉ s.issued) (entry : RefreshEntry) :
    (s.login sid entry).Clean := by
  refine ⟨?_, ?_, ?_, ?_, ?_⟩
  · intro k hk
    rcases mem_insert.mp hk with rfl | hk
    · exact Finset.mem_insert_self _ _
    · exact Finset.mem_insert_of_mem (h.keys_issued k hk)
  · exact fun k hk ↦ Finset.mem_insert_of_mem (h.loggedOut_issued k hk)
  · exact fun k new hk ↦ Finset.mem_insert_of_mem (h.parent_issued k new hk)
  · intro k hk new hrot
    rcases mem_insert.mp hk with rfl | hk
    · exact hsid (h.parent_issued k new hrot)
    · exact h.key_not_rotated k hk new hrot
  · intro k hk
    refine ⟨fun hmem ↦ ?_, (h.gone k hk).2⟩
    rcases mem_insert.mp hmem with rfl | hmem
    · exact hsid (h.loggedOut_issued k hk)
    · exact (h.gone k hk).1 hmem

theorem rotated_rotate {k d : String} {entry : RefreshEntry} :
    (s.rotate sid new entry).Rotated k d ↔ (k = sid ∧ d = new) ∨ s.Rotated k d := by
  simp [rotate, Rotated]

theorem mem_refreshes_rotate {k : String} {entry : RefreshEntry} :
    k ∈ (s.rotate sid new entry).refreshes ↔ k = new ∨ (k ≠ sid ∧ k ∈ s.refreshes) := by
  rw [rotate, mem_insert, mem_erase]

/-- Rotating a session that no logout has removed. -/
theorem Clean.rotate (h : s.Clean) (hsid : sid ∈ s.issued) (hlive : sid ∉ s.loggedOut)
    (hnew : new ∉ s.issued) (entry : RefreshEntry) : (s.rotate sid new entry).Clean := by
  have hne : ∀ k ∈ s.issued, k ≠ new := fun k hk heq ↦ hnew (heq ▸ hk)
  refine ⟨?_, ?_, ?_, ?_, ?_⟩
  · intro k hk
    rcases mem_refreshes_rotate.mp hk with rfl | ⟨-, hk⟩
    · exact Finset.mem_insert_self _ _
    · exact Finset.mem_insert_of_mem (h.keys_issued k hk)
  · exact fun k hk ↦ Finset.mem_insert_of_mem (h.loggedOut_issued k hk)
  · intro k d hrot
    rcases rotated_rotate.mp hrot with ⟨rfl, -⟩ | hrot
    · exact Finset.mem_insert_of_mem hsid
    · exact Finset.mem_insert_of_mem (h.parent_issued k d hrot)
  · intro k hk d hrot
    rcases mem_refreshes_rotate.mp hk with rfl | ⟨hksid, hk⟩
    · rcases rotated_rotate.mp hrot with ⟨heq, -⟩ | hrot
      · exact hnew (heq ▸ hsid)
      · exact hnew (h.parent_issued k d hrot)
    · rcases rotated_rotate.mp hrot with ⟨heq, -⟩ | hrot
      · exact hksid heq
      · exact h.key_not_rotated k hk d hrot
  · intro k hk
    have hk' : k ∈ s.loggedOut := hk
    refine ⟨fun hmem ↦ ?_, fun d hrot ↦ ?_⟩
    · rcases mem_refreshes_rotate.mp hmem with heq | ⟨-, hmem⟩
      · exact hne k (h.loggedOut_issued k hk') heq
      · exact (h.gone k hk').1 hmem
    · rcases rotated_rotate.mp hrot with ⟨heq, -⟩ | hrot
      · exact hlive (heq ▸ hk')
      · exact (h.gone k hk').2 d hrot

end Sessions

/-! ## What a step does -/

/-- The call has found its session. -/
def Phase.Found : Phase → Prop
  | .exchanging _ | .merging _ => True
  | _ => False

variable {verify : String → Except String Json} {p t : Provider} {a : Action}

/-- What a step does to the map and its history. -/
inductive Effect (p : Provider) : Action → Sessions → Prop
  /-- Entries are removed or changed in place. -/
  | shrink {a : Action} {m : HashMap String RefreshEntry}
      (hm : ∀ sid, sid ∈ m → sid ∈ p.sessions.refreshes) :
    Effect p a { p.sessions with refreshes := m }
  | logout {a : Action} {m : HashMap String RefreshEntry}
      (hm : ∀ sid, sid ∈ m → sid ∈ p.sessions.refreshes) : Effect p a (p.sessions.logoutTo m)
  | login {a : Action} {sid : String} {entry : RefreshEntry} (hsid : sid ∉ p.sessions.issued) :
    Effect p a (p.sessions.login sid entry)
  | rotate {call : ℕ} {identity : Identity} {sid new : String} {now : Instant}
      {response : TokenResponse} {entry : RefreshEntry}
      (hcall : p.calls.lookup call = some ⟨sid, .merging response⟩)
      (htoken : response.refreshToken ≠ none) (hnew : new ∉ p.sessions.issued) :
    Effect p (.finish call identity new now) (p.sessions.rotate sid new entry)

theorem Effect.same : Effect p a p.sessions := Effect.shrink fun _ h ↦ h

theorem Effect.remove (sid : String) : Effect p a (p.sessions.remove sid) :=
  Effect.shrink fun _ h ↦ (mem_erase.mp h).2

variable {sid : String} {s : Sessions} {call : ℕ}

/-- Dropping the entries that fail a test leaves entries there were. -/
theorem mem_of_mem_retain {m : HashMap String RefreshEntry} {f : String → RefreshEntry → Bool}
    (h : sid ∈ m.retain f) : sid ∈ m := by
  obtain ⟨entry, hentry, -⟩ := (HashMap.mem_retain _).mp h
  exact mem_iff.mpr ⟨entry, hentry⟩

/-- A call moves to a phase, and has found its session there only if it is there or was before. -/
def CallMoves (p : Provider) (call : ℕ) (sid : String) (phase : Phase) : Prop :=
  phase.Found → sid ∈ p.sessions.refreshes ∨
    ∃ phase', phase'.Found ∧ p.calls.lookup call = some ⟨sid, phase'⟩

/-- What a step does: one of the four effects on the sessions, and at most one call moves. -/
structure Stepped (p : Provider) (a : Action) (t : Provider) : Prop where
  effect : Effect p a t.sessions
  calls : t.calls = p.calls ∨ ∃ call sid phase, t.calls = p.calls.insert call ⟨sid, phase⟩ ∧
    CallMoves p call sid phase

theorem Stepped.of_effect (heffect : Effect p a t.sessions) (hcalls : t.calls = p.calls) :
    Stepped p a t :=
  ⟨heffect, Or.inl hcalls⟩

theorem Stepped.setCall (heffect : Effect p a s) {phase : Phase}
    (hmoves : CallMoves p call sid phase) :
    Stepped p a ({ p with sessions := s }.setCall call sid phase) :=
  ⟨heffect, Or.inr ⟨call, sid, phase, rfl, hmoves⟩⟩

theorem stepped_lookup (call : ℕ) (sid : String) (now : Instant) (endpoint : Bool) :
    Stepped p a (p.lookup call sid now endpoint) := by
  unfold Provider.lookup
  split
  · exact .setCall .same False.elim
  case h_2 entry hentry =>
    -- the only place where a call learns of an entry, and the entry is there
    have hmem : sid ∈ p.sessions.refreshes := mem_iff.mpr ⟨entry, hentry⟩
    split
    · exact .setCall .same False.elim
    · split
      · exact .setCall .same fun _ ↦ Or.inl hmem
      · exact .setCall .same False.elim

theorem stepped_exchanged {token : String}
    (hcall : p.calls.lookup call = some ⟨sid, .exchanging token⟩) (answer : ExchangeAnswer) :
    Stepped p a (p.exchanged call sid answer) := by
  rcases answer with _ | _ | _ | response
  · exact .setCall (.remove sid) False.elim
  · exact .setCall .same False.elim
  · exact .setCall .same False.elim
  · exact .setCall .same fun _ ↦ Or.inr ⟨.exchanging token, trivial, hcall⟩

theorem stepped_finish {identity : Identity} {new : String} {now : Instant}
    {response : TokenResponse} (hcall : p.calls.lookup call = some ⟨sid, .merging response⟩)
    (h : p.finish call sid response identity new now = some t) :
    Stepped p (.finish call identity new now) t := by
  unfold Provider.finish at h
  split at h
  case h_1 newToken htoken =>
    rw [ite_none_left_eq_some, some.injEq] at h
    obtain ⟨hnew, rfl⟩ := h
    have hsome : response.refreshToken ≠ none := by
      rw [htoken]
      exact some_ne_none newToken
    exact .setCall (.rotate hcall hsome hnew) False.elim
  case h_2 =>
    obtain rfl := some.inj h
    exact .setCall (.shrink fun k hk ↦ (HashMap.mem_modify _).mp hk) False.elim

theorem sessions_checkLogout (verify : String → Except String Json) (p : Provider)
    (token : String) (wall : ℤ) (now : Instant) :
    (p.checkLogout verify token wall now).2.sessions = p.sessions ∧
      (p.checkLogout verify token wall now).2.calls = p.calls := by
  unfold Provider.checkLogout
  simp only
  split
  · exact ⟨rfl, rfl⟩
  · split <;> exact ⟨rfl, rfl⟩

/-- **What a step does.** -/
theorem stepped (h : step verify p a = some t) : Stepped p a t := by
  cases a with
  | refresh call sid ready =>
    simp only [step, ite_none_left_eq_some] at h
    obtain ⟨-, h⟩ := h
    split at h
    · obtain rfl := some.inj h
      exact .setCall .same False.elim
    · obtain rfl := some.inj h
      exact .setCall .same False.elim
  | lookup call now endpoint =>
    simp only [step] at h
    split at h
    · obtain rfl := some.inj h
      exact stepped_lookup _ _ _ _
    · cases h
  | dropExpired call =>
    simp only [step] at h
    split at h
    · obtain rfl := some.inj h
      exact .setCall (.remove _) False.elim
    · cases h
  | exchanged call answer =>
    simp only [step] at h
    split at h
    case h_1 sid token hcall =>
      obtain rfl := some.inj h
      exact stepped_exchanged hcall answer
    case h_2 => cases h
  | finish call identity new now =>
    simp only [step] at h
    split at h
    case h_1 sid response hcall => exact stepped_finish hcall h
    case h_2 => cases h
  | takeLogoutSession sid =>
    obtain rfl := some.inj h
    exact .of_effect (.logout fun k hk ↦ (mem_erase.mp hk).2) rfl
  | checkLogout logout token wall now =>
    simp only [step, ite_none_left_eq_some] at h
    obtain ⟨-, h⟩ := h
    obtain ⟨hsessions, hcalls⟩ := sessions_checkLogout verify p token wall now
    split at h
    case h_1 claims q hq =>
      obtain rfl := some.inj h
      rw [hq] at hsessions hcalls
      exact .of_effect (hsessions ▸ .same) hcalls
    case h_2 e q hq =>
      obtain rfl := some.inj h
      rw [hq] at hsessions hcalls
      exact .of_effect (hsessions ▸ .same) hcalls
  | tearDown logout =>
    simp only [step] at h
    split at h
    · obtain rfl := some.inj h
      exact .of_effect (.logout fun k hk ↦ mem_of_mem_retain hk) rfl
    · cases h
  | completeLogin sid entry =>
    rw [step, ite_none_left_eq_some, some.injEq] at h
    obtain ⟨hsid, rfl⟩ := h
    exact .of_effect (.login hsid) rfl
  | evictRefreshes now =>
    obtain rfl := some.inj h
    exact .of_effect (.shrink fun k hk ↦ mem_of_mem_retain hk) rfl
  | evictJtis now =>
    obtain rfl := some.inj h
    exact .of_effect .same rfl

/-! ## Runs -/

/-- The history is clean, and calls that have found a session found an id that was issued. -/
structure Sound (p : Provider) : Prop where
  clean : p.sessions.Clean
  found : ∀ call sid phase, p.calls.lookup call = some ⟨sid, phase⟩ → phase.Found →
    sid ∈ p.sessions.issued

theorem Sound.noResurrection (h : Sound p) : NoResurrection p := by
  intro sid hsid d hd
  obtain ⟨hnot, hchild⟩ := h.clean.gone sid hsid
  rcases ReflTransGen.cases_head hd with rfl | ⟨new, hnew, -⟩
  · exact hnot
  · exact absurd hnew (hchild new)

theorem Effect.issued_subset (h : Effect p a s) : p.sessions.issued ⊆ s.issued := by
  cases h with
  | shrink | logout => exact Finset.Subset.refl _
  | login | rotate => exact Finset.subset_insert _ _

theorem Sound.clean_of_effect (h : Sound p) (hok : RotatesLiveSession p a)
    (heffect : Effect p a s) : s.Clean := by
  cases heffect with
  | shrink hm => exact h.clean.of_mem_imp hm
  | logout hm => exact h.clean.logoutTo hm
  | login hsid => exact h.clean.login hsid _
  | rotate hcall htoken hnew =>
    exact h.clean.rotate (h.found _ _ _ hcall trivial) (hok _ _ hcall htoken) hnew _

theorem Sound.step (h : Sound p) (hok : RotatesLiveSession p a)
    (hstep : step verify p a = some t) : Sound t := by
  obtain ⟨heffect, hcalls⟩ := stepped hstep
  refine ⟨h.clean_of_effect hok heffect, fun call sid phase hcall hfound ↦ ?_⟩
  refine heffect.issued_subset ?_
  rcases hcalls with hsame | ⟨call', sid', phase', hinsert, hfrom⟩
  · exact h.found call sid phase (hsame ▸ hcall) hfound
  · rcases HashMap.of_lookup_insert (hinsert ▸ hcall) with ⟨-, heq⟩ | hcall
    · cases heq
      rcases hfrom hfound with hmem | ⟨phase'', hfound'', hcall''⟩
      · exact h.clean.keys_issued _ hmem
      · exact h.found _ _ _ hcall'' hfound''
    · exact h.found call sid phase hcall hfound

theorem not_noResurrection_of_rotated (sid d : String) (hgone : sid ∈ p.sessions.loggedOut)
    (hrot : p.sessions.Rotated sid d) (hd : d ∈ p.sessions.refreshes) : ¬NoResurrection p :=
  fun hno ↦ hno sid hgone d (.single hrot) hd

/-- Rotating a removed session puts an entry under an id rotated from it. -/
theorem resurrection_of_step (hbad : ¬RotatesLiveSession p a)
    (hstep : Oidc.step verify p a = some t) : ¬NoResurrection t := by
  cases a with
  | finish call identity new now =>
    rw [RotatesLiveSession] at hbad
    push Not at hbad
    obtain ⟨sid, response, hcall, htoken, hgone⟩ := hbad
    simp only [Oidc.step, hcall, Provider.finish] at hstep
    obtain ⟨newToken, htoken⟩ := ne_none_iff_exists'.mp htoken
    simp only [htoken, ite_none_left_eq_some, some.injEq] at hstep
    obtain ⟨-, rfl⟩ := hstep
    exact not_noResurrection_of_rotated sid new hgone
      (rotated_rotate.mpr (Or.inl ⟨rfl, rfl⟩))
      (mem_refreshes_rotate.mpr (Or.inl rfl))
  | _ => exact absurd trivial hbad

/-- No call is under way and the map has no history yet, but for entries of earlier logins. -/
structure Quiet (p : Provider) : Prop where
  calls : p.calls = ∅
  rotations : p.sessions.rotations = []
  loggedOut : p.sessions.loggedOut = ∅
  keys_issued : ∀ sid ∈ p.sessions.refreshes, sid ∈ p.sessions.issued

theorem Quiet.sound (h : Quiet p) : Sound p := by
  have hrot : ∀ sid new, ¬p.sessions.Rotated sid new := fun sid new hrot ↦ by
    rw [Sessions.Rotated, h.rotations] at hrot
    exact List.not_mem_nil hrot
  refine ⟨⟨h.keys_issued, ?_, fun sid new hr ↦ absurd hr (hrot sid new),
    fun sid _ new ↦ hrot sid new, ?_⟩, ?_⟩
  · simp [h.loggedOut]
  · simp [h.loggedOut]
  · intro call sid phase hcall
    rw [h.calls, lookup_empty] at hcall
    cases hcall

/-- **When sessions stay gone**, those that logouts removed and those rotated from them: exactly
when no refresh ends by rotating a session which a logout has removed. -/
theorem noResurrection_iff_rotatesLiveSession (verify : String → Except String Json)
    {p last : Provider} (hp : Quiet p) (actions : List Action)
    (hrun : run (step verify) p actions = some last) :
    Always (step verify) NoResurrection p actions ↔
      AllSteps (step verify) RotatesLiveSession p actions :=
  always_iff_allSteps hp.sound (fun _ h ↦ h.noResurrection)
    (fun _ _ _ h hok hstep ↦ h.step hok hstep)
    (fun _ _ _ _ hbad hstep ↦ resurrection_of_step hbad hstep) hrun

/-! ## A logout that is undone -/

/-- A provider with one session, `s1`. -/
private def oneSession : Provider where
  cfg := ⟨"https://idp.example", "client", 3600, 600, 120⟩
  sessions := ⟨(∅ : HashMap String RefreshEntry).insert "s1" ⟨"rt1", 1000, "id1", "ann", none⟩,
    {"s1"}, [], ∅⟩
  seenJtis := ∅
  calls := ∅
  logouts := ∅

private theorem quiet_oneSession : Quiet oneSession := by
  refine ⟨rfl, rfl, rfl, fun sid hsid ↦ ?_⟩
  rcases mem_insert.mp hsid with rfl | hsid
  · exact Finset.mem_singleton_self _
  · exact absurd hsid notMem_empty

private def rotated : ExchangeAnswer := .granted ⟨"id2", "ann", none, some "rt2"⟩

/-- The browser logs out while a refresh waits for the identity provider, which rotates the token:
the session is back, under a new id. -/
theorem logout_undone_by_refresh :
    Quiet oneSession ∧ ∃ last,
      run (step fun _ ↦ .error "unverified") oneSession
        [.refresh 0 "s1" true, .lookup 0 10 true, .takeLogoutSession "s1", .exchanged 0 rotated,
          .finish 0 ⟨"ann", []⟩ "s2" 20] = some last ∧
      "s1" ∈ last.sessions.loggedOut ∧ last.sessions.Rotated "s1" "s2" ∧
      "s2" ∈ last.sessions.refreshes ∧ ¬NoResurrection last := by
  refine ⟨quiet_oneSession, _, rfl, by decide, List.mem_cons_self,
    mem_refreshes_rotate.mpr (Or.inl rfl), ?_⟩
  exact not_noResurrection_of_rotated "s1" "s2" (by decide) List.mem_cons_self
    (mem_refreshes_rotate.mpr (Or.inl rfl))

/-- The same steps with the logout after the refresh, which finds nothing under the old id. -/
theorem logout_after_refresh :
    Quiet oneSession ∧ ∃ last,
      run (step fun _ ↦ .error "unverified") oneSession
        [.refresh 0 "s1" true, .lookup 0 10 true, .exchanged 0 rotated,
          .finish 0 ⟨"ann", []⟩ "s2" 20, .takeLogoutSession "s1"] = some last ∧
      (Always (step fun _ ↦ .error "unverified") NoResurrection oneSession
          [.refresh 0 "s1" true, .lookup 0 10 true, .exchanged 0 rotated,
            .finish 0 ⟨"ann", []⟩ "s2" 20, .takeLogoutSession "s1"] ↔
        AllSteps (step fun _ ↦ .error "unverified") RotatesLiveSession oneSession
          [.refresh 0 "s1" true, .lookup 0 10 true, .exchanged 0 rotated,
            .finish 0 ⟨"ann", []⟩ "s2" 20, .takeLogoutSession "s1"]) :=
  ⟨quiet_oneSession, _, rfl,
    noResurrection_iff_rotatesLiveSession _ quiet_oneSession _ rfl⟩

end Oidc

end Hypershunt
