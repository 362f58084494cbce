import Hypershunt.Foundation.Fallible
import Hypershunt.Foundation.HashMap
import Hypershunt.Foundation.Text

/-!
# The challenges of an order

`RealProvisioner::provision` (`cert/acme.rs`) proves control of the domains of an order to the
certificate authority: it publishes a token, a TXT record or a challenge certificate for each
authorization that is not valid yet, and notes what it published in a `ChallengeCleanup`, which is
to tear everything down "in one place after the order completes (or fails)".

`ChallengeCleanup::run` is called once the authority has declared the order ready or invalid. Every
other way out is a `?` that drops the cleanup unused, and some of them lie behind a publication: a
later authorization that cannot be fetched or answered, `set_ready`, and each poll of the order.
`provision_clean_iff` says that nothing is left behind unless one of these is taken.

The answers of the authority, of the DNS provider and of the generator of challenge certificates are
arbitrary, and so is what was published before the call. A provider that refuses a record has not
published it, and `clear_txt` succeeds.
-/

namespace Hypershunt

open List

namespace Cert

namespace Acme

open Option

/-- An `anyhow` error: its messages, the outermost context first. -/
abbrev Failure := List String

def context {α : Type} (message : String) (x : Except Failure α) : Except Failure α :=
  x.mapError (message :: ·)

theorem context_eq_ok_iff {α : Type} {message : String} {x : Except Failure α} {a : α} :
    context message x = .ok a ↔ x = .ok a :=
  mapError_eq_ok_iff

inductive ChallengeKind
  | http01
  | dns01
  | tlsAlpn01
  deriving DecidableEq

/-- The name of the challenge type the authority is asked for. -/
def ChallengeKind.acmeTypeName : ChallengeKind → String
  | .http01 => "Http01"
  | .dns01 => "Dns01"
  | .tlsAlpn01 => "TlsAlpn01"

/-- A challenge on offer, with its key authorization and the text for a TXT record. -/
structure Challenge where
  token : String
  keyAuth : String
  dnsValue : String

inductive AuthorizationStatus
  | pending
  | valid
  | invalid
  | revoked
  | expired
  | deactivated
  deriving DecidableEq

structure Authorization where
  status : AuthorizationStatus
  identifier : String
  challenge : ChallengeKind → Option Challenge

inductive OrderStatus
  | pending
  | ready
  | processing
  | valid
  | invalid
  deriving DecidableEq

/-- The answers that one pass of the loop over the authorizations gets, as far as it asks. -/
structure Turn (C : Type) where
  authorization : Except Failure Authorization
  setTxt : Except Failure Unit
  challengeCert : Except Failure C
  setReady : Except Failure Unit

/-- The answers to the steps of `finalize_order`. -/
structure Finalization where
  params : Except Failure Unit
  keyPair : Except Failure String
  csr : Except Failure Unit
  finalizeCsr : Except Failure Unit
  certificate : Except Failure String

structure Order (C : Type) where
  turns : List (Turn C)
  refreshes : List (Except Failure OrderStatus)
  finalization : Finalization

/-- The answers up to the order. -/
structure Authority (C : Type) where
  account : Except Failure Unit
  newOrder : List String → Except Failure (Order C)

/-- The selected challenge, and whether its DNS provider and certificate store are configured. -/
structure RealProvisioner where
  challenge : ChallengeKind
  dnsProvider : Bool
  alpnStore : Bool

variable {C : Type}

/-! ## What is published -/

inductive Published (C : Type)
  | token (token value : String)
  | record (fqdn value : String)
  | cert (sni : String) (ck : C)
  deriving DecidableEq

/-- HTTP challenges, TXT records and challenge certificates, and what the call has published. -/
structure World (C : Type) where
  challenges : HashMap String String
  records : Finset (String × String)
  alpnStore : HashMap String C
  published : List (Published C)

open World

namespace World

def publish (w : World C) : Published C → World C
  | .token token value =>
    { w with
      challenges := w.challenges.insert token value
      published := w.published ++ [.token token value] }
  | .record fqdn value =>
    { w with
      records := insert (fqdn, value) w.records
      published := w.published ++ [.record fqdn value] }
  | .cert sni ck =>
    { w with
      alpnStore := w.alpnStore.insert sni ck
      published := w.published ++ [.cert sni ck] }

def removeToken (w : World C) (token : String) : World C :=
  { w with challenges := w.challenges.erase token }

def removeCert (w : World C) (sni : String) : World C :=
  { w with alpnStore := w.alpnStore.erase sni }

def clearTxt (w : World C) (r : String × String) : World C :=
  { w with records := w.records.erase r }

end World

namespace Published

def Present (w : World C) : Published C → Prop
  | .token t value => w.challenges.lookup t = some value
  | .record fqdn value => (fqdn, value) ∈ w.records
  | .cert sni ck => w.alpnStore.lookup sni = some ck

instance [DecidableEq C] (w : World C) : DecidablePred (Present w)
  | .token t value => inferInstanceAs (Decidable (w.challenges.lookup t = some value))
  | .record fqdn value => inferInstanceAs (Decidable ((fqdn, value) ∈ w.records))
  | .cert sni ck => inferInstanceAs (Decidable (w.alpnStore.lookup sni = some ck))

def Absent (e : Published C) (w : World C) : Prop := ¬e.Present w

instance [DecidableEq C] (e : Published C) (w : World C) : Decidable (e.Absent w) :=
  inferInstanceAs (Decidable ¬e.Present w)

end Published

namespace World

/-- Nothing the call has published is present. -/
def Clean (w : World C) : Prop := ∀ e ∈ w.published, e.Absent w

instance [DecidableEq C] (w : World C) : Decidable w.Clean :=
  inferInstanceAs (Decidable (∀ e ∈ w.published, e.Absent w))

@[simp] theorem published_publish (w : World C) (e : Published C) :
    (w.publish e).published = w.published ++ [e] := by
  cases e <;> rfl

theorem present_publish (w : World C) (e : Published C) : e.Present (w.publish e) := by
  cases e with
  | token token value => exact Finmap.lookup_insert _
  | record fqdn value => exact Finset.mem_insert_self _ _
  | cert sni ck => exact Finmap.lookup_insert _

theorem not_clean_publish (w : World C) (e : Published C) : ¬(w.publish e).Clean := by
  intro hclean
  refine hclean e ?_ (w.present_publish e)
  rw [published_publish]
  exact mem_append_right _ mem_cons_self

end World

/-! ## The cleanup -/

structure ChallengeCleanup where
  httpTokens : List String
  dnsRecords : List (String × String)
  alpnSnis : List String
  deriving DecidableEq

open ChallengeCleanup

namespace ChallengeCleanup

def new : ChallengeCleanup := ⟨[], [], []⟩

def push (c : ChallengeCleanup) : Published C → ChallengeCleanup
  | .token token _ => { c with httpTokens := c.httpTokens ++ [token] }
  | .record fqdn value => { c with dnsRecords := c.dnsRecords ++ [(fqdn, value)] }
  | .cert sni _ => { c with alpnSnis := c.alpnSnis ++ [sni] }

def run (c : ChallengeCleanup) (w : World C) : World C :=
  let w := c.httpTokens.foldl removeToken w
  let w := c.alpnSnis.foldl removeCert w
  c.dnsRecords.foldl clearTxt w

/-- The cleanup knows of `e`. -/
def Lists (c : ChallengeCleanup) : Published C → Prop
  | .token token _ => token ∈ c.httpTokens
  | .record fqdn value => (fqdn, value) ∈ c.dnsRecords
  | .cert sni _ => sni ∈ c.alpnSnis

variable {c : ChallengeCleanup} {w : World C} {e : Published C}

theorem lists_push_self : (c.push e).Lists e := by
  cases e with
  | token token value => exact mem_append_right _ mem_cons_self
  | record fqdn value => exact mem_append_right _ mem_cons_self
  | cert sni ck => exact mem_append_right _ mem_cons_self

theorem lists_push {e' : Published C} (h : c.Lists e) : (c.push e').Lists e := by
  cases e <;> cases e' <;> first | exact h | exact mem_append_left _ h

/-- A removal made for every element of a list is made for each, and no other one undoes it. -/
private theorem foldl_of_mem {σ α : Type*} {f : σ → α → σ} {Q : σ → Prop} {l : List α} {a : α}
    (hkeep : ∀ s b, Q s → Q (f s b)) (hit : ∀ s, Q (f s a)) (ha : a ∈ l) (s : σ) :
    Q (l.foldl f s) := by
  induction l generalizing s with
  | nil => exact absurd ha not_mem_nil
  | cons b l ih =>
    rw [foldl_cons]
    rcases mem_cons.mp ha with rfl | ha
    · exact foldlRecOn l f (hit s) fun t ht b _ ↦ hkeep t b ht
    · exact ih ha _

private theorem absent_removeToken (hw : e.Absent w) (token : String) :
    e.Absent (w.removeToken token) := by
  cases e with
  | token token' value => exact fun h ↦ hw (HashMap.of_lookup_erase h).2
  | record fqdn value => exact hw
  | cert sni ck => exact hw

private theorem absent_removeCert (hw : e.Absent w) (sni : String) :
    e.Absent (w.removeCert sni) := by
  cases e with
  | token token' value => exact hw
  | record fqdn value => exact hw
  | cert sni ck => exact fun h ↦ hw (HashMap.of_lookup_erase h).2

private theorem absent_clearTxt (hw : e.Absent w) (r : String × String) :
    e.Absent (w.clearTxt r) := by
  cases e with
  | token token' value => exact hw
  | record fqdn value => exact fun h ↦ hw (Finset.mem_of_mem_erase h)
  | cert sni ck => exact hw

/-- **The cleanup removes whatever it knows of.** -/
theorem absent_run (h : c.Lists e) (w : World C) : e.Absent (c.run w) := by
  have hcerts (t : World C) (ht : e.Absent t) : e.Absent (c.alpnSnis.foldl removeCert t) :=
    foldlRecOn (motive := e.Absent) _ _ ht fun _ ht sni _ ↦ absent_removeCert ht sni
  have hrecords (t : World C) (ht : e.Absent t) : e.Absent (c.dnsRecords.foldl clearTxt t) :=
    foldlRecOn (motive := e.Absent) _ _ ht fun _ ht r _ ↦ absent_clearTxt ht r
  cases e with
  | token token value =>
    refine hrecords _ (hcerts _ ?_)
    refine foldl_of_mem (Q := Published.Absent _) (fun _ t ht ↦ absent_removeToken ht t)
      (fun t ↦ ?_) h w
    exact fun hmem ↦ (HashMap.of_lookup_erase hmem).1 rfl
  | record fqdn value =>
    refine foldl_of_mem (Q := Published.Absent _) (fun _ r ht ↦ absent_clearTxt ht r)
      (fun t ↦ ?_) h _
    exact Finset.notMem_erase (fqdn, value) t.records
  | cert sni ck =>
    refine hrecords _ (foldl_of_mem (Q := Published.Absent _)
      (fun _ sni ht ↦ absent_removeCert ht sni) (fun t ↦ ?_) h _)
    exact fun hmem ↦ (HashMap.of_lookup_erase hmem).1 rfl

@[simp] theorem published_run (c : ChallengeCleanup) (w : World C) :
    (c.run w).published = w.published := by
  let Same (t : World C) : Prop := t.published = w.published
  have htokens : Same (c.httpTokens.foldl removeToken w) :=
    foldlRecOn (motive := Same) _ _ rfl fun _ ht _ _ ↦ ht
  have hcerts : Same (c.alpnSnis.foldl removeCert _) :=
    foldlRecOn (motive := Same) _ _ htokens fun _ ht _ _ ↦ ht
  exact foldlRecOn (motive := Same) _ _ hcerts fun _ ht _ _ ↦ ht

end ChallengeCleanup

/-! ## Provisioning -/

def trimWildcard (domain : String) : String := (Text.stripPrefix "*." domain).getD domain

namespace RealProvisioner

variable (p : RealProvisioner)

/-- What is published for an authorization that is not valid. -/
def publication (authz : Authorization) (turn : Turn C) : Except Failure (Published C) := do
  let domain := authz.identifier
  let challenge ← (authz.challenge p.challenge).elim
    (.error ["no " ++ p.challenge.acmeTypeName ++ " challenge for '" ++ domain ++
      "' (CA may not offer this type)"]) .ok
  match p.challenge with
  | .http01 => .ok (.token challenge.token challenge.keyAuth)
  | .dns01 =>
    if p.dnsProvider then
      let fqdn := "_acme-challenge." ++ trimWildcard domain
      context ("publishing TXT for " ++ fqdn) turn.setTxt
      .ok (.record fqdn challenge.dnsValue)
    else
      .error ["DNS-01 selected but no dns-provider configured (parser should have caught this)"]
  | .tlsAlpn01 =>
    if p.alpnStore then
      let ck ← context "building TLS-ALPN-01 challenge cert" turn.challengeCert
      .ok (.cert domain ck)
    else
      .error ["TLS-ALPN-01 selected but no challenge store attached " ++
        "(use AcmeManager::new_with_alpn_store)"]

/-- One pass of the loop over the authorizations. An error keeps what the pass published. -/
def authorize (turn : Turn C) (w : World C) (cleanup : ChallengeCleanup) :
    World C × Except Failure ChallengeCleanup :=
  match context "fetching authorization" turn.authorization with
  | .error e => (w, .error e)
  | .ok authz =>
    if authz.status = .valid then (w, .ok cleanup)
    else
      match p.publication authz turn with
      | .error e => (w, .error e)
      | .ok e =>
        (w.publish e,
          (context "setting challenge ready" turn.setReady).map fun _ ↦ cleanup.push e)

def authorizeAll : List (Turn C) → World C → ChallengeCleanup →
    World C × Except Failure ChallengeCleanup
  | [], w, cleanup => (w, .ok cleanup)
  | turn :: turns, w, cleanup =>
    match p.authorize turn w cleanup with
    | (w, .error e) => (w, .error e)
    | (w, .ok cleanup) => authorizeAll turns w cleanup

end RealProvisioner

/-- How the authority decides on an order. -/
inductive Decision
  | ready
  | invalid
  deriving DecidableEq

/-- The loop that waits for the decision; `none` if it is still waiting after these answers. -/
def poll : List (Except Failure OrderStatus) → Option (Except Failure Decision)
  | [] => none
  | answer :: answers =>
    match context "polling order" answer with
    | .error e => some (.error e)
    | .ok .ready => some (.ok .ready)
    | .ok .invalid => some (.ok .invalid)
    | .ok _ => poll answers

def finalizeOrder (f : Finalization) : Except Failure (String × String) := do
  context "building CSR params" f.params
  let keyPem ← context "generating key pair" f.keyPair
  context "serializing CSR" f.csr
  context "finalizing ACME order" f.finalizeCsr
  let certChainPem ← context "fetching certificate" f.certificate
  .ok (certChainPem, keyPem)

namespace RealProvisioner

variable (p : RealProvisioner)

/-- The state the call leaves and its result; `none` while the order is undecided. -/
def provision (domains : List String) (ca : Authority C) (w : World C) :
    Option (World C × Except Failure (String × String)) :=
  match ca.account with
  | .error e => some (w, .error e)
  | .ok _ =>
    match context "creating ACME order" (ca.newOrder domains) with
    | .error e => some (w, .error e)
    | .ok order =>
      match p.authorizeAll order.turns w .new with
      | (w, .error e) => some (w, .error e)
      | (w, .ok cleanup) =>
        match poll order.refreshes with
        | none => none
        | some (.error e) => some (w, .error e)
        | some (.ok .invalid) =>
          some (cleanup.run w,
            .error ["ACME order invalid -- check that the configured challenge type matches " ++
              "the deployment (HTTP-01 needs port 80, DNS-01 needs working DNS, " ++
              "TLS-ALPN-01 needs port 443)"])
        | some (.ok .ready) => some (cleanup.run w, finalizeOrder order.finalization)

end RealProvisioner

/-! ## What one pass does -/

namespace RealProvisioner

variable (p : RealProvisioner)

/-- The authorization is valid already. -/
def Skips (turn : Turn C) : Prop :=
  ∃ authz, turn.authorization = .ok authz ∧ authz.status = .valid

/-- The authorization is not valid yet, and all that publishing the selected challenge needs is
there. -/
def CanPublish (turn : Turn C) : Prop :=
  ∃ authz, turn.authorization = .ok authz ∧ authz.status ≠ .valid ∧
    (authz.challenge p.challenge).isSome ∧
    (p.challenge = .dns01 → p.dnsProvider = true ∧ turn.setTxt = .ok ()) ∧
    (p.challenge = .tlsAlpn01 → p.alpnStore = true ∧ ∃ ck, turn.challengeCert = .ok ck)

theorem exists_publication_iff {authz : Authorization} {turn : Turn C} :
    (∃ e, p.publication authz turn = .ok e) ↔
      (authz.challenge p.challenge).isSome ∧
        (p.challenge = .dns01 → p.dnsProvider = true ∧ turn.setTxt = .ok ()) ∧
        (p.challenge = .tlsAlpn01 → p.alpnStore = true ∧ ∃ ck, turn.challengeCert = .ok ck) := by
  rw [publication]
  cases authz.challenge p.challenge with
  | none => simp [bind, Except.bind]
  | some challenge =>
    cases p.challenge with
    | http01 => simp [bind, Except.bind]
    | dns01 =>
      cases p.dnsProvider with
      | false => simp [bind, Except.bind]
      | true => simp [bind_eq_ok_iff, context_eq_ok_iff, Unique.exists_iff]
    | tlsAlpn01 =>
      cases p.alpnStore with
      | false => simp [bind, Except.bind]
      | true => simp [bind_eq_ok_iff, context_eq_ok_iff]

variable {p} {turn : Turn C} {turns : List (Turn C)} {w w' : World C} {c c' : ChallengeCleanup}

theorem authorize_cases (p : RealProvisioner) (turn : Turn C) (w : World C)
    (c : ChallengeCleanup) :
    (Skips turn ∧ p.authorize turn w c = (w, .ok c)) ∨
    (¬Skips turn ∧ ¬p.CanPublish turn ∧ ∃ e, p.authorize turn w c = (w, .error e)) ∨
    (¬Skips turn ∧ p.CanPublish turn ∧ turn.setReady = .ok () ∧
      ∃ e, p.authorize turn w c = (w.publish e, .ok (c.push e))) ∨
    (¬Skips turn ∧ p.CanPublish turn ∧ turn.setReady ≠ .ok () ∧
      ∃ e failure, p.authorize turn w c = (w.publish e, .error failure)) := by
  rcases hauthz : turn.authorization with failure | authz
  · refine .inr (.inl ⟨?_, ?_, "fetching authorization" :: failure, ?_⟩)
    · rintro ⟨authz, h, -⟩
      exact nomatch hauthz.symm.trans h
    · rintro ⟨authz, h, -⟩
      exact nomatch hauthz.symm.trans h
    · rw [authorize, hauthz]
      rfl
  have hok (authz' : Authorization) (h : turn.authorization = .ok authz') : authz' = authz :=
    Except.ok.inj (h.symm.trans hauthz)
  by_cases hvalid : authz.status = .valid
  · refine .inl ⟨⟨authz, hauthz, hvalid⟩, ?_⟩
    rw [authorize, hauthz]
    exact if_pos hvalid
  have hskips : ¬Skips turn := by
    rintro ⟨authz', h, hvalid'⟩
    exact hvalid (hok authz' h ▸ hvalid')
  have hcan : p.CanPublish turn ↔ ∃ e, p.publication authz turn = .ok e := by
    rw [exists_publication_iff]
    constructor
    · rintro ⟨authz', h, -, hpublish⟩
      exact hok authz' h ▸ hpublish
    · exact fun hpublish ↦ ⟨authz, hauthz, hvalid, hpublish⟩
  rw [hcan]
  rcases hpub : p.publication authz turn with failure | e
  · refine .inr (.inl ⟨hskips, nofun, failure, ?_⟩)
    simp only [authorize, hauthz, context, Except.mapError, if_neg hvalid, hpub]
  rcases hready : turn.setReady with failure | ⟨⟩
  · refine .inr (.inr (.inr ⟨hskips, ⟨e, rfl⟩, nofun, e, "setting challenge ready" :: failure, ?_⟩))
    simp only [authorize, hauthz, context, Except.mapError, if_neg hvalid, hpub, hready, Except.map]
  · refine .inr (.inr (.inl ⟨hskips, ⟨e, rfl⟩, rfl, e, ?_⟩))
    simp only [authorize, hauthz, context, Except.mapError, if_neg hvalid, hpub, hready, Except.map]

/-! ## The loop over the authorizations -/

/-- Every pass goes through. -/
def AllPass (p : RealProvisioner) (turns : List (Turn C)) : Prop :=
  ∀ turn ∈ turns, Skips turn ∨ p.CanPublish turn ∧ turn.setReady = .ok ()

/-- The first pass that is not skipped, if any, ends before it publishes. -/
def NothingPublished (p : RealProvisioner) : List (Turn C) → Prop
  | [] => True
  | turn :: turns => Skips turn ∧ NothingPublished p turns ∨ ¬Skips turn ∧ ¬p.CanPublish turn

/-- What one pass has published stays where it is for the rest of the loop. -/
theorem not_clean_authorizeAll (hw : ¬w.Clean) : ¬(p.authorizeAll turns w c).1.Clean := by
  induction turns generalizing w c with
  | nil => exact hw
  | cons turn turns ih =>
    rw [authorizeAll]
    obtain ⟨-, h⟩ | ⟨-, -, failure, h⟩ | ⟨-, -, -, e, h⟩ | ⟨-, -, -, e, failure, h⟩ :=
      p.authorize_cases turn w c
    all_goals rw [h]
    · exact ih hw
    · exact hw
    · exact ih (w.not_clean_publish e)
    · exact w.not_clean_publish e

theorem clean_authorizeAll_iff (hw : w.Clean) :
    (p.authorizeAll turns w c).1.Clean ↔ p.NothingPublished turns := by
  induction turns generalizing c with
  | nil => exact iff_of_true hw trivial
  | cons turn turns ih =>
    rw [authorizeAll, NothingPublished]
    obtain ⟨hskips, h⟩ | ⟨hskips, hcan, failure, h⟩ | ⟨hskips, hcan, -, e, h⟩ |
      ⟨hskips, hcan, -, e, failure, h⟩ := p.authorize_cases turn w c
    all_goals rw [h]
    · simpa [hskips] using ih
    · simpa [hskips, hcan] using hw
    · simpa [hskips, hcan] using not_clean_authorizeAll (w.not_clean_publish e)
    · simpa [hskips, hcan] using w.not_clean_publish e

/-- A loop that goes through knows of everything it has published. -/
theorem lists_of_authorizeAll (h : p.authorizeAll turns w c = (w', .ok c'))
    (hw : ∀ e ∈ w.published, c.Lists e) : ∀ e ∈ w'.published, c'.Lists e := by
  induction turns generalizing w c with
  | nil =>
    obtain ⟨rfl, hc⟩ := Prod.mk.inj h
    obtain rfl := Except.ok.inj hc
    exact hw
  | cons turn turns ih =>
    rw [authorizeAll] at h
    obtain ⟨-, hpass⟩ | ⟨-, -, failure, hpass⟩ | ⟨-, -, -, e, hpass⟩ |
      ⟨-, -, -, e, failure, hpass⟩ := p.authorize_cases turn w c
    all_goals rw [hpass] at h
    · exact ih h hw
    · exact nomatch (Prod.mk.inj h).2
    · refine ih h fun e' he' ↦ ?_
      rw [published_publish, mem_append, mem_singleton] at he'
      rcases he' with he' | rfl
      · exact lists_push (hw e' he')
      · exact lists_push_self
    · exact nomatch (Prod.mk.inj h).2

theorem authorizeAll_ok_iff :
    (∃ c', (p.authorizeAll turns w c).2 = .ok c') ↔ p.AllPass turns := by
  induction turns generalizing w c with
  | nil => exact iff_of_true ⟨c, rfl⟩ nofun
  | cons turn turns ih =>
    rw [authorizeAll, AllPass, forall_mem_cons]
    obtain ⟨hskips, h⟩ | ⟨hskips, hcan, failure, h⟩ | ⟨hskips, hcan, hready, e, h⟩ |
      ⟨hskips, hcan, hready, e, failure, h⟩ := p.authorize_cases turn w c
    all_goals rw [h]
    · simpa [hskips, AllPass] using ih
    · simp [hskips, hcan]
    · simpa [hskips, hcan, hready, AllPass] using ih
    · simp [hskips, hready]

end RealProvisioner

/-! ## Waiting for the decision -/

/-- An answer that ends the wait. -/
def Decisive : Except Failure OrderStatus → Bool
  | .error _ => true
  | .ok status => status = .ready ∨ status = .invalid

theorem exists_poll_ok_iff {answers : List (Except Failure OrderStatus)} :
    (∃ d, poll answers = some (.ok d)) ↔
      ∃ status, answers.find? Decisive = some (.ok status) := by
  induction answers with
  | nil => exact iff_of_false nofun nofun
  | cons answer answers ih =>
    rw [poll]
    rcases answer with failure | status
    · exact iff_of_false nofun nofun
    · cases status with
      | pending => exact ih
      | ready => exact iff_of_true ⟨.ready, rfl⟩ ⟨.ready, rfl⟩
      | processing => exact ih
      | valid => exact ih
      | invalid => exact iff_of_true ⟨.invalid, rfl⟩ ⟨.invalid, rfl⟩

/-! ## What a call leaves behind -/

namespace RealProvisioner

variable {p : RealProvisioner} {domains : List String} {ca : Authority C} {w w' : World C}
  {result : Except Failure (String × String)}

theorem provision_cases (h : p.provision domains ca w = some (w', result)) :
    (w' = w ∧ ∀ order, ca.account = .ok () → ca.newOrder domains ≠ .ok order) ∨
    ∃ order, ca.account = .ok () ∧ ca.newOrder domains = .ok order ∧
      ((∃ e, p.authorizeAll order.turns w .new = (w', .error e)) ∨
      (∃ c e, p.authorizeAll order.turns w .new = (w', .ok c) ∧
        poll order.refreshes = some (.error e)) ∨
      ∃ t c d, p.authorizeAll order.turns w .new = (t, .ok c) ∧
        poll order.refreshes = some (.ok d) ∧ w' = c.run t) := by
  rw [provision] at h
  rcases haccount : ca.account with failure | ⟨⟩
  · rw [haccount] at h
    exact .inl ⟨(Prod.mk.inj (some.inj h)).1.symm, nofun⟩
  rw [haccount] at h
  rcases horder : ca.newOrder domains with failure | order
  · rw [horder] at h
    exact .inl ⟨(Prod.mk.inj (some.inj h)).1.symm, nofun⟩
  rw [horder] at h
  refine .inr ⟨order, rfl, rfl, ?_⟩
  rcases hall : p.authorizeAll order.turns w .new with ⟨t, failure | c⟩
  · simp only [context, Except.mapError, hall] at h
    obtain ⟨rfl, -⟩ := Prod.mk.inj (some.inj h)
    exact .inl ⟨failure, rfl⟩
  simp only [context, Except.mapError, hall] at h
  rcases hpoll : poll order.refreshes with _ | failure | d
  · rw [hpoll] at h
    exact nomatch h
  · rw [hpoll] at h
    obtain ⟨rfl, -⟩ := Prod.mk.inj (some.inj h)
    exact .inr (.inl ⟨c, failure, rfl, rfl⟩)
  · rw [hpoll] at h
    refine .inr (.inr ⟨t, c, d, rfl, rfl, ?_⟩)
    cases d with
    | ready => exact (Prod.mk.inj (some.inj h)).1.symm
    | invalid => exact (Prod.mk.inj (some.inj h)).1.symm

/-- No step fails between the first publication and the decision of the authority. -/
def Undisturbed (p : RealProvisioner) (order : Order C) : Prop :=
  p.NothingPublished order.turns ∨
    p.AllPass order.turns ∧ ∃ status, order.refreshes.find? Decisive = some (.ok status)

theorem clean_run {turns : List (Turn C)} {c : ChallengeCleanup} (hw : w.published = [])
    (h : p.authorizeAll turns w .new = (w', .ok c)) : (c.run w').Clean := by
  intro e he
  rw [published_run] at he
  refine absent_run (lists_of_authorizeAll h ?_ e he) w'
  rw [hw]
  exact nofun

/-- **Nothing is left behind just in case no step fails between publication and decision.** -/
theorem provision_clean_iff (hw : w.published = [])
    (h : p.provision domains ca w = some (w', result)) :
    w'.Clean ↔
      ∀ order, ca.account = .ok () → ca.newOrder domains = .ok order → p.Undisturbed order := by
  have hclean : w.Clean := by
    intro e he
    rw [hw] at he
    exact absurd he not_mem_nil
  rcases provision_cases h with ⟨rfl, hnone⟩ | ⟨order, haccount, horder, hrest⟩
  · exact iff_of_true hclean fun order haccount horder ↦ absurd horder (hnone order haccount)
  have hundisturbed : (∀ order, ca.account = .ok () → ca.newOrder domains = .ok order →
      p.Undisturbed order) ↔ p.Undisturbed order := by
    refine ⟨fun h ↦ h order haccount horder, fun h order' _ horder' ↦ ?_⟩
    exact Except.ok.inj (horder.symm.trans horder') ▸ h
  have hloop : (p.authorizeAll order.turns w .new).1.Clean ↔ p.NothingPublished order.turns :=
    clean_authorizeAll_iff hclean
  have hpass : (∃ c, (p.authorizeAll order.turns w .new).2 = .ok c) ↔ p.AllPass order.turns :=
    authorizeAll_ok_iff
  rw [hundisturbed, Undisturbed, ← exists_poll_ok_iff, ← hpass]
  rcases hrest with ⟨e, hall⟩ | ⟨c, e, hall, hpoll⟩ | ⟨t, c, d, hall, hpoll, rfl⟩
  -- on the first two ways out the cleanup is dropped
  · rw [hall] at hloop ⊢
    simpa using hloop
  · rw [hall] at hloop ⊢
    simpa [hpoll] using hloop
  · refine iff_of_true (clean_run hw hall) (.inr ⟨⟨c, ?_⟩, d, hpoll⟩)
    rw [hall]

/-! ### An order for one domain -/

private def webServer : RealProvisioner := ⟨.http01, false, false⟩

/-- The authority offers one HTTP challenge and then answers the polls with `refreshes`. -/
private def oneDomain (refreshes : List (Except Failure OrderStatus)) : Authority Unit where
  account := .ok ()
  newOrder _ :=
    .ok {
      turns := [{
        authorization := .ok {
          status := .pending
          identifier := "example.com"
          challenge := fun _ ↦ some ⟨"token", "token.thumbprint", "digest"⟩ }
        setTxt := .ok ()
        challengeCert := .ok ()
        setReady := .ok () }]
      refreshes
      finalization := ⟨.ok (), .ok "key", .ok (), .ok (), .ok "chain"⟩ }

private def untouched : World Unit := ⟨∅, ∅, ∅, []⟩

theorem provision_clean_oneDomain :
    ∃ w', webServer.provision ["example.com"] (oneDomain [.ok .pending, .ok .ready]) untouched =
        some (w', .ok ("chain", "key")) ∧
      (w'.Clean ↔ ∀ order, (oneDomain [.ok .pending, .ok .ready]).account = .ok () →
        (oneDomain [.ok .pending, .ok .ready]).newOrder ["example.com"] = .ok order →
        webServer.Undisturbed order) ∧ w'.Clean :=
  ⟨_, rfl, provision_clean_iff rfl rfl, by decide⟩

/-- One poll that fails ends the call, and the token stays. -/
theorem token_left_by_poll :
    ∃ w', webServer.provision ["example.com"] (oneDomain [.ok .pending, .error ["timed out"]])
        untouched = some (w', .error ["polling order", "timed out"]) ∧
      .token "token" "token.thumbprint" ∈ w'.published ∧
      w'.challenges.lookup "token" = some "token.thumbprint" ∧ ¬w'.Clean :=
  ⟨_, rfl, by decide, by decide, by decide⟩

end RealProvisioner

end Acme

end Cert

end Hypershunt
