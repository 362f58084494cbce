import Hypershunt.Http.HeaderRule
import Hypershunt.Net.AddressText
import Hypershunt.Oidc.Cookies

/-!
# The headers a backend receives

What the proxy makes of the headers of a request before it sends them on (`handler/proxy.rs`,
`prepare_backend_request` in `handler/proxy/inner.rs`): those of the connection are removed, the
client is added to the forwarding headers, the trace context is injected, and the host is that of
the backend. The header rules of the location have been applied before.

`Connection` names the headers that belong to the connection, and its text is the client's. A client
can therefore name a header that the operator sets, and the backend does not get it.
`header_arrives_iff` says exactly when a header that the operator has set arrives. Apart from that,
only the headers the proxy writes itself may arrive with another value.
-/

namespace Hypershunt

open List Option

namespace Proxy

open HeaderMap HeaderValue Text HeaderOp

/-- `HOP_BY_HOP`. -/
def hopByHop : List HeaderName :=
  ["connection", "keep-alive", "proxy-authenticate", "proxy-authorization", "te",
    "transfer-encoding", "upgrade"]

/-- A `TE` value contains the token `trailers`, with or without a parameter. -/
def teAcceptsTrailers (value : String) : Bool :=
  (split ',' value).any fun tok ↦
    eqIgnoreAsciiCase (trim ((split ';' tok).headD "")) "trailers"

/-- The headers named in the first `Connection` line. -/
def connectionListed (h : HeaderMap) : List HeaderName :=
  ((h.getStr "connection").map fun s ↦ (split ',' s).filterMap fun p ↦
    HeaderName.fromBytes (toAsciiLowercase (trim p))).getD []

def stripHopByHop (h : HeaderMap) : HeaderMap :=
  let stripped := (connectionListed h).foldl remove (hopByHop.foldl remove h)
  if (h.getStr "te").any teAcceptsTrailers then stripped.insert "te" "trailers" else stripped

/-- Insert a text as a header, if it can be one. -/
def insertText (n : HeaderName) (s : String) (h : HeaderMap) : HeaderMap :=
  match fromStr s with
  | some v => h.insert n v
  | none => h

/-- The chain of forwarding addresses with one more. -/
def forwardedFor (h : HeaderMap) (ip : String) : String :=
  match h.getStr "x-forwarded-for" with
  | some s => s ++ ", " ++ ip
  | none => ip

def setForwardingHeaders (peerIp : Option String) (h : HeaderMap) : HeaderMap :=
  match peerIp with
  | some ip => insertText "x-real-ip" ip (insertText "x-forwarded-for" (forwardedFor h ip) h)
  | none => h

/-- What the propagator writes for the span of a request. -/
structure TraceContext where
  traceparent : Option HeaderValue
  tracestate : Option HeaderValue

/-- Replace a header, or remove it. -/
def setHeader (n : HeaderName) (v : Option HeaderValue) (h : HeaderMap) : HeaderMap :=
  match v with
  | some v => h.insert n v
  | none => h.remove n

/-- Without tracing the headers are left alone. -/
def injectCurrent (trace : Option TraceContext) (h : HeaderMap) : HeaderMap :=
  match trace with
  | some t => setHeader "tracestate" t.tracestate (setHeader "traceparent" t.traceparent h)
  | none => h

/-- What decides about the headers besides themselves. -/
structure Outbound where
  isUpgrade : Bool
  peer : Option IpAddr
  trace : Option TraceContext
  /-- The authority of the upstream. -/
  authority : Option String

open Outbound

/-- The text of the peer's address. -/
def Outbound.peerIp (o : Outbound) : Option String :=
  o.peer.map fun ip ↦ String.ofList (displayIp ip)

/-- The headers of `prepare_backend_request_inner`. -/
def prepareHeaders (o : Outbound) (h : HeaderMap) : HeaderMap :=
  let h := if o.isUpgrade then h else stripHopByHop h
  let h := injectCurrent o.trace (setForwardingHeaders o.peerIp h)
  match o.authority with
  | some a => insertText "host" a h
  | none => h

/-! ## Header rules -/

variable {T : Type} {render : T → String} {ops : List (HeaderOp T)} {h : HeaderMap}
  {n m : HeaderName} {v : HeaderValue}

/-- The header an operation is about. -/
def opName : HeaderOp T → HeaderName
  | .set n _ | .add n _ | .remove n => n

/-- The last rule for a header sets it, to a value that is valid and not empty. -/
def LastSet (render : T → String) (ops : List (HeaderOp T)) (n : HeaderName) (v : HeaderValue) :
    Prop :=
  ∃ before template after, ops = before ++ .set n template :: after ∧
    value render template = some v ∧ ∀ op ∈ after, opName op ≠ n

theorem getAll_apply_of_ne {op : HeaderOp T} (hop : opName op ≠ n) :
    (op.apply render h).getAll n = h.getAll n := by
  rcases op with ⟨m, t⟩ | ⟨m, t⟩ | m
  · rw [apply]
    split
    · exact getAll_insert_of_ne (Ne.symm hop)
    · rfl
  · have hm : m ≠ n := hop
    rw [apply]
    split
    · rw [getAll_append, if_neg hm, append_nil]
    · rfl
  · exact getAll_remove_of_ne (Ne.symm hop)

theorem getAll_applyHeaders_of_ne (hops : ∀ op ∈ ops, opName op ≠ n) :
    (applyHeaders render ops h).getAll n = h.getAll n := by
  induction ops generalizing h with
  | nil => rfl
  | cons op ops ih =>
    obtain ⟨hop, hops⟩ := forall_mem_cons.mp hops
    exact (ih hops).trans (getAll_apply_of_ne hop)

/-- The rules leave the header with the value they set it to last. -/
theorem LastSet.getAll_eq (hlast : LastSet render ops n v) (h : HeaderMap) :
    (applyHeaders render ops h).getAll n = [v] := by
  obtain ⟨before, template, after, rfl, hvalue, hafter⟩ := hlast
  rw [applyHeaders, foldl_append, foldl_cons]
  refine (getAll_applyHeaders_of_ne hafter).trans ?_
  rw [apply, hvalue]
  exact getAll_insert_self

/-! ## The proxy, header by header -/

theorem getAll_foldl_remove (names : List HeaderName) :
    (names.foldl remove h).getAll n = if n ∈ names then [] else h.getAll n := by
  induction names generalizing h with
  | nil => rfl
  | cons m names ih =>
    rw [foldl_cons, ih]
    by_cases hm : n = m
    · simp [hm]
    · simp only [mem_cons, hm, false_or, getAll_remove_of_ne hm]

theorem getAll_stripHopByHop (hn : n ∉ hopByHop) :
    (stripHopByHop h).getAll n = if n ∈ connectionListed h then [] else h.getAll n := by
  have hte : n ≠ "te" := fun heq ↦ hn (heq ▸ by decide)
  have hstripped : ((connectionListed h).foldl remove
      (hopByHop.foldl remove h)).getAll n =
        if n ∈ connectionListed h then [] else h.getAll n := by
    rw [getAll_foldl_remove, getAll_foldl_remove, if_neg hn]
  rw [stripHopByHop]
  split_ifs
  · rw [getAll_insert_of_ne hte, hstripped, if_pos (by assumption)]
  · rw [getAll_insert_of_ne hte, hstripped, if_neg (by assumption)]
  · rw [hstripped, if_pos (by assumption)]
  · rw [hstripped, if_neg (by assumption)]

theorem getAll_insertText_of_ne (hn : n ≠ m) (s : String) :
    (insertText m s h).getAll n = h.getAll n := by
  rw [insertText]
  split
  · exact getAll_insert_of_ne hn
  · rfl

theorem getAll_setHeader_of_ne (hn : n ≠ m) (w : Option HeaderValue) :
    (setHeader m w h).getAll n = h.getAll n := by
  rcases w with _ | w
  · exact getAll_remove_of_ne hn
  · exact getAll_insert_of_ne hn

theorem getAll_setHeader_self (w : Option HeaderValue) :
    (setHeader n w h).getAll n = w.toList := by
  rcases w with _ | w
  · exact getAll_remove_self
  · exact getAll_insert_self

theorem visible_displayIp (ip : IpAddr) : Oidc.Visible (String.ofList (displayIp ip)) := by
  rw [Oidc.Visible, String.toList_ofList, List.all_eq_true]
  intro c hc
  obtain ⟨hlow, hhigh⟩ := bounds_of_isAddressChar (isAddressChar_of_mem_displayIp hc)
  have hle : 0x20 ≤ c.toNat := hlow.le
  simp [visibleAscii, hle, hhigh]

/-- What the proxy does to a header for reasons of its own. -/
inductive Own
  | leaves
  | replaces (v : Option HeaderValue)
  /-- The address of the peer is appended. -/
  | appends (ip : String)

open Own

/-- `Host`, the trace context and the forwarding headers are the proxy's own. -/
def Outbound.own (o : Outbound) (n : HeaderName) : Own :=
  if n = "host" then (o.authority.bind fromStr).elim .leaves fun v ↦ .replaces (some v)
  else if n = "traceparent" then o.trace.elim .leaves fun t ↦ .replaces t.traceparent
  else if n = "tracestate" then o.trace.elim .leaves fun t ↦ .replaces t.tracestate
  else if n = "x-real-ip" then o.peerIp.elim .leaves fun ip ↦ .replaces (some ip)
  else if n = "x-forwarded-for" then o.peerIp.elim .leaves .appends
  else .leaves

/-- What becomes of a header of these. -/
def Own.values (h : HeaderMap) (n : HeaderName) : Own → List HeaderValue
  | .leaves => h.getAll n
  | .replaces w => w.toList
  | .appends ip => [forwardedFor h ip]

/-- The client has the header removed. -/
def Outbound.Strips (o : Outbound) (h : HeaderMap) (n : HeaderName) : Prop :=
  o.isUpgrade = false ∧ n ∈ connectionListed h

/-- When a header arrives with the value it has in the request. -/
def Outbound.Keeps (o : Outbound) (h : HeaderMap) (n : HeaderName) (v : HeaderValue) : Prop :=
  match o.own n with
  | .leaves => ¬o.Strips h n
  | .replaces w => w = some v
  | .appends ip => o.Strips h n ∧ v = ip

variable {o : Outbound} {ip : String}

theorem visible_forwardedFor (h : HeaderMap) (hip : Oidc.Visible ip) :
    Oidc.Visible (forwardedFor h ip) := by
  rw [forwardedFor]
  split
  · rename_i s hs
    obtain ⟨value, -, hvalue⟩ := bind_eq_some_iff.mp hs
    obtain ⟨hvisible, rfl⟩ := toStr_eq_some_iff.mp hvalue
    exact .append (.append hvisible (by decide)) hip
  · exact hip

theorem insertText_of_visible {s : String} (hs : Oidc.Visible s) :
    insertText n s h = h.insert n s := by
  rw [insertText, fromStr_of_visible hs]

theorem getAll_setForwardingHeaders :
    (setForwardingHeaders o.peerIp h).getAll n =
      o.peerIp.elim (h.getAll n) fun ip ↦
        if n = "x-real-ip" then [ip]
        else if n = "x-forwarded-for" then [forwardedFor h ip] else h.getAll n := by
  rcases hpeer : o.peer with _ | ip
  · simp only [setForwardingHeaders, peerIp, hpeer, map_none, elim_none]
  · have hip := visible_displayIp ip
    simp only [setForwardingHeaders, peerIp, hpeer, map_some, elim_some,
      insertText_of_visible hip, insertText_of_visible (visible_forwardedFor h hip)]
    by_cases hreal : n = "x-real-ip"
    · rw [if_pos hreal, hreal, getAll_insert_self]
    · rw [if_neg hreal, getAll_insert_of_ne hreal]
      by_cases hfor : n = "x-forwarded-for"
      · rw [if_pos hfor, hfor, getAll_insert_self]
      · rw [if_neg hfor, getAll_insert_of_ne hfor]

theorem getAll_injectCurrent :
    (injectCurrent o.trace h).getAll n =
      o.trace.elim (h.getAll n) fun t ↦
        if n = "tracestate" then t.tracestate.toList
        else if n = "traceparent" then t.traceparent.toList else h.getAll n := by
  rcases o.trace with _ | t
  · rfl
  · simp only [injectCurrent, elim_some]
    by_cases hstate : n = "tracestate"
    · rw [if_pos hstate, hstate, getAll_setHeader_self]
    · rw [if_neg hstate, getAll_setHeader_of_ne hstate]
      by_cases hparent : n = "traceparent"
      · rw [if_pos hparent, hparent, getAll_setHeader_self]
      · rw [if_neg hparent, getAll_setHeader_of_ne hparent]

/-- The headers that were not removed. -/
def Outbound.remaining (o : Outbound) (h : HeaderMap) : HeaderMap :=
  if o.isUpgrade then h else stripHopByHop h

theorem getAll_remaining (hn : n ∉ hopByHop) (h : HeaderMap) [Decidable (o.Strips h n)] :
    (o.remaining h).getAll n = if o.Strips h n then [] else h.getAll n := by
  rw [remaining]
  by_cases hupgrade : o.isUpgrade = true
  · have hkept : ¬o.Strips h n := by simp [Outbound.Strips, hupgrade]
    rw [if_pos hupgrade, if_neg hkept]
  · rw [if_neg hupgrade, getAll_stripHopByHop hn]
    simp only [Outbound.Strips, Bool.eq_false_iff.mpr hupgrade, true_and]

theorem getAll_insertHost :
    (o.authority.elim h fun a ↦ insertText "host" a h).getAll n =
      if n = "host" then
        (o.authority.bind fromStr).elim (h.getAll n) fun v ↦ [v]
      else h.getAll n := by
  rcases o.authority with _ | a
  · simp only [elim_none, bind_none, ite_self]
  · simp only [elim_some, bind_some]
    by_cases hhost : n = "host"
    · rw [if_pos hhost, hhost, insertText]
      rcases fromStr a with _ | v
      · rfl
      · exact getAll_insert_self
    · rw [if_neg hhost, getAll_insertText_of_ne hhost]

theorem prepareHeaders_eq :
    prepareHeaders o h = o.authority.elim
      (injectCurrent o.trace (setForwardingHeaders o.peerIp (o.remaining h)))
      fun a ↦ insertText "host" a
        (injectCurrent o.trace (setForwardingHeaders o.peerIp (o.remaining h))) := by
  rw [prepareHeaders]
  rcases o.authority with _ | a <;> rfl

theorem getAll_prepareHeaders :
    (prepareHeaders o h).getAll n = (o.own n).values (o.remaining h) n := by
  rw [prepareHeaders_eq, getAll_insertHost, getAll_injectCurrent, getAll_setForwardingHeaders, own]
  by_cases hhost : n = "host"
  · subst hhost
    rcases o.authority.bind fromStr with _ | a
    · rcases o.trace with _ | t <;> rcases o.peerIp with _ | ip <;> simp [values]
    · simp [values]
  by_cases hparent : n = "traceparent"
  · subst hparent
    rcases o.trace with _ | t <;> rcases o.peerIp with _ | ip <;> simp [values]
  by_cases hstate : n = "tracestate"
  · subst hstate
    rcases o.trace with _ | t <;> rcases o.peerIp with _ | ip <;> simp [values]
  -- the remaining headers are not touched by the trace context
  have htrace : ∀ {l : List HeaderValue}, (o.trace.elim l fun t ↦
      if n = "tracestate" then t.tracestate.toList
      else if n = "traceparent" then t.traceparent.toList else l) = l := by
    intro l
    rcases o.trace with _ | t
    · rfl
    · rw [elim_some, if_neg hstate, if_neg hparent]
  rw [if_neg hhost, htrace, if_neg hhost, if_neg hparent, if_neg hstate]
  rcases o.peerIp with _ | ip
  · simp only [elim_none, ite_self, values]
  · simp only [elim_some]
    split_ifs <;> rfl

theorem own_eq_appends (h : o.own n = .appends ip) : n = "x-forwarded-for" ∧ Oidc.Visible ip := by
  have helim : ∀ {α : Type} (x : Option α) (f : α → Option HeaderValue),
      (x.elim leaves fun a ↦ .replaces (f a)) ≠ .appends ip := by
    rintro α (_ | a) f ⟨⟩
  rw [own] at h
  split_ifs at h with _ _ _ _ hfor
  · exact absurd h (helim _ some)
  · exact absurd h (helim _ TraceContext.traceparent)
  · exact absurd h (helim _ TraceContext.tracestate)
  · exact absurd h (helim _ some)
  · refine ⟨hfor, ?_⟩
    rcases hpeer : o.peer with _ | addr
    · rw [peerIp, hpeer] at h
      cases h
    · rw [peerIp, hpeer] at h
      cases h
      exact visible_displayIp addr

/-- The chain is the same only if there was none and the address is all there is. -/
theorem forwardedFor_eq_iff (hip : Oidc.Visible ip)
    (hv : h.getAll "x-forwarded-for" = [] ∨ h.getAll "x-forwarded-for" = [v]) :
    forwardedFor h ip = v ↔ h.getAll "x-forwarded-for" = [] ∧ v = ip := by
  rw [forwardedFor, getStr, get_eq_head?]
  rcases hv with hv | hv
  · rw [hv]
    exact ⟨fun heq ↦ ⟨rfl, heq.symm⟩, fun heq ↦ heq.2.symm⟩
  · have hne : [v] ≠ ([] : List HeaderValue) := cons_ne_nil v []
    rw [hv, head?_cons, bind_some]
    refine ⟨fun heq ↦ ?_, fun heq ↦ absurd heq.1 hne⟩
    rcases hstr : toStr v with _ | s
    · -- a value that cannot be read is not the address
      rw [hstr] at heq
      change ip = v at heq
      have hvisible : toStr ip = some ip := toStr_eq_some_iff.mpr ⟨hip, rfl⟩
      rw [heq, hstr] at hvisible
      cases hvisible
    · obtain ⟨-, rfl⟩ := toStr_eq_some_iff.mp hstr
      rw [hstr] at heq
      have hlength := congrArg (fun t ↦ t.toList.length) heq
      simp only [String.toList_append, length_append] at hlength
      have hsep : ", ".toList.length = 2 := by decide
      omega

/-- **When a header that the operator sets arrives**: exactly if the proxy keeps it. -/
theorem header_arrives_iff (hlast : LastSet render ops n v) (hn : n ∉ hopByHop) (o : Outbound)
    (h : HeaderMap) :
    (prepareHeaders o (applyHeaders render ops h)).getAll n = [v] ↔
      o.Keeps (applyHeaders render ops h) n v := by
  classical
  have hset := hlast.getAll_eq h
  generalize applyHeaders render ops h = h' at hset ⊢
  have hremaining := getAll_remaining (o := o) hn h'
  rw [hset] at hremaining
  rw [getAll_prepareHeaders, Outbound.Keeps]
  rcases hown : o.own n with _ | w | ip
  · simp only [values, hremaining]
    by_cases hstrips : o.Strips h' n <;> simp [hstrips]
  · rcases w with _ | w <;> simp [values]
  · obtain ⟨rfl, hip⟩ := own_eq_appends hown
    simp only [values, List.cons.injEq, and_true]
    rw [forwardedFor_eq_iff (v := v) hip]
    · rw [hremaining]
      by_cases hstrips : o.Strips h' "x-forwarded-for" <;> simp [hstrips]
    · rw [hremaining]
      by_cases hstrips : o.Strips h' "x-forwarded-for" <;> simp [hstrips]

/-! ## A client that names the operator's header -/

/-- An ordinary request to a backend. -/
def toBackend : Outbound := ⟨false, some (.v4 0x0a000001), none, some "backend:9000"⟩

/-- The operator passes on who the user is. -/
private def setTenant : List (HeaderOp String) := [.set "x-tenant" "alice"]

private theorem lastSet_setTenant : LastSet id setTenant "x-tenant" "alice" :=
  ⟨[], "alice", [], rfl, by decide +kernel, by simp⟩

theorem tenant_arrives :
    (prepareHeaders toBackend (applyHeaders id setTenant [("connection", "keep-alive")])).getAll
      "x-tenant" = ["alice"] :=
  (header_arrives_iff lastSet_setTenant (by decide) toBackend _).mpr (by
    rintro ⟨-, hlisted⟩
    exact absurd hlisted (by decide +kernel))

/-- A client that says the header belongs to the connection has it removed. -/
theorem tenant_removed_by_client :
    LastSet id setTenant "x-tenant" "alice" ∧ "x-tenant" ∉ hopByHop ∧
      (prepareHeaders toBackend (applyHeaders id setTenant [("connection", "X-Tenant")])).getAll
        "x-tenant" = [] :=
  ⟨lastSet_setTenant, by decide, by decide +kernel⟩

end Proxy

end Hypershunt
