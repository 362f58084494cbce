import Hypershunt.Http.Authority
import Hypershunt.Net.AddressText

/-!
# Which backend the proxy dials

A request can reach its backend in three ways (`handler/proxy/inner.rs`): through the pooled client,
over a connection of its own that starts with a PROXY header, and, for an upgrade, through a tunnel
(`handler/proxy/upgrade.rs`). Each finds the address to dial by itself: the client from the host and
the port of the URI, with the default port of the scheme; the PROXY path by handing the whole
authority to `TcpStream::connect`; the tunnel from host and port again, for plain HTTP only.

They agree for an upstream that is written as `http://host:port` and for no other:
* the URI kept for a `unix:` upstream is `http://localhost`, and the tunnel dials that;
* the tunnel does not support `https`;
* an authority without a port, or with user information in front, is no socket address;
* the brackets of an IPv6 address are left on by the tunnel and taken off by the client.

Names and addresses are compared as the texts that are looked up.
-/

namespace Hypershunt

open List Option

namespace Proxy

open UriAuthority Text

/-- `ProxyUpstreamScheme`. -/
inductive UpstreamScheme
  | auto
  | h3
  | h2c
  deriving DecidableEq

/-- The text of an authority. -/
abbrev Authority := { s : List Char // isAuthority s = true }

/-- What is used of a URI. -/
structure UpstreamUri where
  scheme : Option String
  authority : Option Authority
  path : String

/-- Parsers outside of the server. -/
structure Parsers where
  parseUri : String → Option UpstreamUri
  https_of_startsWith : ∀ str u, startsWith "https://" str = true → parseUri str = some u →
    u.scheme = some "https"
  isServerName : List Char → Bool
  /-- A server name is a DNS name or an address; neither has brackets. -/
  bracket_not_mem : ∀ s, isServerName s = true → '[' ∉ s ∧ ']' ∉ s

inductive ProxyClient
  | http
  | unix (path : String)
  | h3
  deriving DecidableEq

structure InnerProxyClient where
  client : ProxyClient
  upstream : UpstreamUri
  unixPath : Option String
  autoH3Enabled : Bool
  upgradeScheme : UpstreamScheme

open InnerProxyClient

def localhost : Authority := ⟨"localhost".toList, by decide⟩

/-- The constructor. The URI of a Unix socket has a conventional host. -/
def InnerProxyClient.new (x : Parsers) (upstreamStr : String) (scheme : UpstreamScheme) :
    Option InnerProxyClient :=
  match stripPrefix "unix:" upstreamStr with
  | some path => some ⟨.unix path, ⟨some "http", some localhost, "/"⟩, some path, false, scheme⟩
  | none => (x.parseUri upstreamStr).bind fun upstream ↦
    if upstream.scheme ≠ some "http" ∧ upstream.scheme ≠ some "https" then none
    else upstream.authority.bind fun a ↦
      if scheme = .h3 then
        if x.isServerName (host a.1) then some ⟨.h3, upstream, none, false, scheme⟩
        else none
      else some ⟨.http, upstream, none, startsWith "https://" upstreamStr, scheme⟩

/-! ## The three ways -/

inductive Endpoint
  | unix (path : String)
  | inet (host : List Char) (port : UInt16)
  deriving DecidableEq

open Endpoint

/-- `build_backend_uri`, which may fail over the path. -/
def buildBackendUri (upstream : UpstreamUri) (pathOk : Bool) : Option UpstreamUri :=
  if pathOk then
    upstream.authority.map fun a ↦ ⟨some (upstream.scheme.getD "http"), some a, upstream.path⟩
  else none

/-- Host and port of an authority, with a default port. -/
def hostAndPort (a : Authority) (default : UInt16) : Endpoint :=
  .inet (host a.1) ((portU16 a.1).getD default)

/-- Without the brackets of an IPv6 address. -/
def trimBrackets (s : List Char) : List Char :=
  (s.dropWhile (· == '[')).rdropWhile (· == ']')

/-- `HttpConnector` of the client library. -/
def httpConnect (u : UpstreamUri) : Option Endpoint :=
  u.authority.map fun a ↦ .inet (trimBrackets (host a.1))
    ((portU16 a.1).getD (if u.scheme = some "https" then 443 else 80))

/-- The pooled client. `h3Port` is that of the HTTP/3 client an earlier `Alt-Svc` has led to. -/
def plainDial (c : InnerProxyClient) (h3Port : Option UInt16) (backend : Option UpstreamUri) :
    Option Endpoint :=
  backend.bind fun uri ↦ match c.client with
    | .h3 => c.upstream.authority.map fun a ↦ hostAndPort a 443
    | .unix path => some (.unix path)
    | .http => match if c.autoH3Enabled then h3Port else none with
      | some port => c.upstream.authority.map fun a ↦ .inet (host a.1) port
      | none => httpConnect uri

/-- The text after the last colon. -/
def afterColon (s : List Char) : List Char := (s.reverse.takeWhile (· != ':')).reverse

/-- The text before the last colon. -/
def beforeColon (s : List Char) : List Char := (s.reverse.dropWhile (· != ':')).tail.reverse

/-- An IPv6 address, maybe with a scope. -/
def isScopedIpv6 (s : List Char) : Bool :=
  (parseIpv6 (s.takeWhile (· != '%'))).isSome &&
    match s.dropWhile (· != '%') with
    | [] => true
    | _ :: scope => !scope.isEmpty && scope.all Char.isDigit &&
        decide (scope.foldl (fun n c ↦ 10 * n + (c.toNat - '0'.toNat)) 0 < 2 ^ 32)

/-- The host of a socket address in text form, an IPv6 address without its brackets. -/
def socketHost (host port : List Char) : List Char :=
  if host.head? = some '[' ∧ host.getLast? = some ']' ∧ isScopedIpv6 host.tail.dropLast ∧
      port.all Char.isDigit then host.tail.dropLast
  else host

/-- `TcpStream::connect` with a text, which has to have a port. -/
def connectText (s : List Char) : Option Endpoint :=
  if ':' ∈ s then
    (parseU16 (String.ofList (afterColon s))).map fun port ↦
      .inet (socketHost (beforeColon s) (afterColon s)) port
  else none

/-- `serve_with_proxy_protocol`. -/
def proxyDial (c : InnerProxyClient) (backend : Option UpstreamUri) : Option Endpoint :=
  backend.bind fun _ ↦ match c.unixPath with
    | some path => some (.unix path)
    | none => c.upstream.authority.bind fun a ↦ connectText a.1

/-- `open_h1_upstream_tunnel`. -/
def openH1Dial (upstream : UpstreamUri) : Option Endpoint :=
  if upstream.scheme.getD "http" = "http" then upstream.authority.map fun a ↦ hostAndPort a 80
  else if upstream.scheme.getD "http" = "unix" then some (.unix upstream.path)
  else none

/-- `open_h2c_upstream_tunnel`. -/
def openH2cDial (upstream : UpstreamUri) : Option Endpoint :=
  if upstream.scheme.getD "http" ≠ "http" then none
  else upstream.authority.map fun a ↦ hostAndPort a 80

/-- `serve_upgrade`. -/
def upgradeDial (c : InnerProxyClient) (backend : Option UpstreamUri) : Option Endpoint :=
  backend.bind fun _ ↦
    if c.upgradeScheme = .h2c then openH2cDial c.upstream else openH1Dial c.upstream

/-! ## Authorities as socket addresses -/

variable {s : List Char} {port : UInt16}

theorem beforeColon_append_afterColon (h : ':' ∈ s) :
    beforeColon s ++ ':' :: afterColon s = s := by
  obtain ⟨rest, hrest⟩ : ∃ rest, s.reverse.dropWhile (· != ':') = ':' :: rest := by
    rcases hdrop : s.reverse.dropWhile (· != ':') with _ | ⟨c, rest⟩
    · rw [dropWhile_eq_nil_iff] at hdrop
      exact absurd (hdrop ':' (mem_reverse.mpr h)) (by decide)
    · have hc := head?_dropWhile_not (· != ':') s.reverse
      rw [hdrop] at hc
      have hcolon : c = ':' := by simpa using hc
      exact ⟨rest, by rw [hcolon]⟩
  have hsplit := takeWhile_append_dropWhile (p := (· != ':')) (l := s.reverse)
  rw [hrest] at hsplit
  rw [beforeColon, afterColon, hrest, tail_cons]
  calc rest.reverse ++ ':' :: (s.reverse.takeWhile (· != ':')).reverse
      = (s.reverse.takeWhile (· != ':') ++ ':' :: rest).reverse := by simp
    _ = s := by rw [hsplit, reverse_reverse]

theorem afterColon_append (t : List Char) {portText : List Char} (h : ':' ∉ portText) :
    afterColon (t ++ ':' :: portText) = portText ∧ beforeColon (t ++ ':' :: portText) = t := by
  have hall : ∀ c ∈ portText.reverse, (c != ':') = true := by
    intro c hc
    exact bne_iff_ne.mpr fun heq ↦ h (heq ▸ mem_reverse.mp hc)
  have hreverse : (t ++ ':' :: portText).reverse = portText.reverse ++ ':' :: t.reverse := by simp
  rw [afterColon, beforeColon, hreverse, takeWhile_append_of_pos hall, dropWhile_append_of_pos hall,
    takeWhile_cons_of_neg (by decide), dropWhile_cons_of_neg (by decide), append_nil,
    reverse_reverse, tail_cons, reverse_reverse]
  exact ⟨rfl, rfl⟩

theorem at_not_mem_host (s : List Char) : '@' ∉ host s := by
  have hhostPort : '@' ∉ hostPort s := by
    rw [hostPort, mem_reverse]
    exact fun hmem ↦ absurd (mem_takeWhile_imp hmem) (by decide)
  rw [host]
  split_ifs
  · rw [List.mem_append, mem_singleton, not_or]
    exact ⟨fun hmem ↦ hhostPort ((takeWhile_sublist _).mem hmem), by decide⟩
  · exact fun hmem ↦ hhostPort ((takeWhile_sublist _).mem hmem)

theorem head?_ne_of_trimBrackets (h : trimBrackets s = s) : s.head? ≠ some '[' := by
  intro hhead
  rcases s with _ | ⟨c, s⟩
  · cases hhead
  · obtain rfl : c = '[' := by simpa using hhead
    have hlength := congrArg List.length h
    have htrim : (trimBrackets ('[' :: s)).length ≤ s.length := by
      rw [trimBrackets, dropWhile_cons_of_pos (by decide)]
      exact (List.rdropWhile_prefix _ _).length_le.trans (length_dropWhile_le _ _)
    rw [length_cons] at hlength
    omega

theorem trimBrackets_of_notMem (hopen : '[' ∉ s) (hclose : ']' ∉ s) : trimBrackets s = s := by
  have hdrop : s.dropWhile (· == '[') = s := by
    rcases s with _ | ⟨c, s⟩
    · rfl
    · refine dropWhile_cons_of_neg fun hc ↦ hopen ?_
      rw [← beq_iff_eq.mp hc]
      exact mem_cons_self
  rw [trimBrackets, hdrop, rdropWhile_eq_self_iff]
  intro hne hlast
  exact hclose (beq_iff_eq.mp hlast ▸ getLast_mem hne)

theorem not_mem_of_parseU16 {c : Char} (h : parseU16 (String.ofList s) = some port)
    (hc : c.isDigit = false) (hplus : c ≠ '+') : c ∉ s := by
  intro hmem
  rcases isDigit_of_parseU16 h (by rwa [String.toList_ofList]) with heq | hdigit
  · exact hplus heq
  · rw [hc] at hdigit
    cases hdigit

theorem mem_enclosed {c : Char} (hhead : s.head? = some '[') (hlast : s.getLast? = some ']')
    (hc : c ∈ s) (hopen : c ≠ '[') (hclose : c ≠ ']') : c ∈ s.tail.dropLast := by
  rcases s with _ | ⟨d, s⟩
  · cases hhead
  · obtain rfl : d = '[' := by simpa using hhead
    have hmem : c ∈ s := (mem_cons.mp hc).resolve_left hopen
    have hlast' : s.getLast? = some ']' := by
      rcases s with _ | ⟨e, s⟩
      · cases hmem
      · rwa [getLast?_cons_cons] at hlast
    rw [tail_cons]
    rw [← dropLast_append_getLast? ']' hlast', List.mem_append, mem_singleton] at hmem
    exact hmem.resolve_right hclose

theorem head?_host (hat : '@' ∉ s) (hhead : s.head? = some '[') :
    (host s).head? = some '[' := by
  rw [host, hostPort_of_notMem hat, if_pos hhead]
  rcases s with _ | ⟨c, s⟩
  · cases hhead
  · obtain rfl : c = '[' := by simpa using hhead
    rw [takeWhile_cons_of_pos (by decide)]
    rfl

/-- The text is a host and a port. -/
def IsHostPort (s : List Char) : Prop :=
  trimBrackets (host s) = host s ∧
    ∃ portText, s = host s ++ ':' :: portText ∧
      (parseU16 (String.ofList portText)).isSome = true

theorem portU16_of_connectText {host : List Char} (h : connectText s = some (.inet host port)) :
    portU16 s = some port := by
  rw [connectText, ite_none_right_eq_some, map_eq_some_iff] at h
  obtain ⟨hcolon, port', hport, heq⟩ := h
  obtain ⟨-, rfl⟩ := inet.inj heq
  rw [portU16, if_pos hcolon]
  exact hport

/-- Text that is dialled under the name of its host is that host and a port. -/
theorem eq_append_of_connectText (htrim : trimBrackets (host s) = host s)
    (h : connectText s = some (.inet (host s) port)) :
    s = host s ++ ':' :: afterColon s := by
  rw [connectText, ite_none_right_eq_some, map_eq_some_iff] at h
  obtain ⟨hcolon, port', hport, heq⟩ := h
  obtain ⟨hhost, rfl⟩ := inet.inj heq
  have hs := beforeColon_append_afterColon hcolon
  have hhead := head?_ne_of_trimBrackets htrim
  rw [socketHost] at hhost
  split_ifs at hhost with hbrackets
  · -- then the text starts with a bracket, and so would its host
    obtain ⟨hopen, hclose, -⟩ := hbrackets
    have hat : '@' ∉ s := by
      rw [← hs, List.mem_append, mem_cons, not_or, not_or]
      refine ⟨fun hmem ↦ ?_, by decide, not_mem_of_parseU16 hport (by decide) (by decide)⟩
      exact at_not_mem_host s (hhost ▸ mem_enclosed hopen hclose hmem (by decide) (by decide))
    have hshead : s.head? = some '[' := by
      rw [← hs, head?_append, hopen, some_or]
    exact absurd (head?_host hat hshead) hhead
  · rw [← hhost]
    exact hs.symm

theorem IsHostPort.connectText_eq (h : IsHostPort s) :
    ∃ port, portU16 s = some port ∧
      connectText s = some (.inet (host s) port) := by
  obtain ⟨htrim, portText, hs, hport⟩ := h
  obtain ⟨port, hport⟩ := isSome_iff_exists.mp hport
  have hhead := head?_ne_of_trimBrackets htrim
  have hcolon : ':' ∉ portText := not_mem_of_parseU16 hport (by decide) (by decide)
  obtain ⟨hafter, hbefore⟩ := afterColon_append (host s) hcolon
  have hconnect : connectText s = some (.inet (host s) port) := by
    rw [← hs] at hafter hbefore
    have hmem : ':' ∈ s := hs ▸ mem_append_right _ mem_cons_self
    rw [connectText, if_pos hmem, hafter, hport, hbefore, map_some, socketHost,
      if_neg fun hbrackets ↦ hhead hbrackets.1]
  exact ⟨port, portU16_of_connectText hconnect, hconnect⟩

theorem isHostPort_of_connectText
    (htrim : trimBrackets (host s) = host s)
    (h : connectText s = some (.inet (host s) port)) : IsHostPort s := by
  have hport := portU16_of_connectText h
  refine ⟨htrim, afterColon s, eq_append_of_connectText htrim h, ?_⟩
  rw [portU16, ite_none_right_eq_some] at hport
  exact isSome_of_eq_some hport.2

/-! ## Agreement -/

variable {x : Parsers} {upstreamStr : String} {scheme : UpstreamScheme} {c : InnerProxyClient}
  {u : UpstreamUri} {a : Authority}

/-- The upstream is plain HTTP to a host and a port. -/
def IsHttpHostPort (x : Parsers) (upstreamStr : String) : Prop :=
  stripPrefix "unix:" upstreamStr = none ∧
    ∃ u a, x.parseUri upstreamStr = some u ∧ u.scheme = some "http" ∧ u.authority = some a ∧
      IsHostPort a.1

/-- The three ways dial the same endpoint. -/
def SameEndpoint (c : InnerProxyClient) (h3Port : Option UInt16) (pathOk : Bool) : Prop :=
  plainDial c h3Port (buildBackendUri c.upstream pathOk) =
      proxyDial c (buildBackendUri c.upstream pathOk) ∧
    plainDial c h3Port (buildBackendUri c.upstream pathOk) =
      upgradeDial c (buildBackendUri c.upstream pathOk)

theorem new_cases (h : new x upstreamStr scheme = some c) :
    (∃ path, stripPrefix "unix:" upstreamStr = some path ∧
      c = ⟨.unix path, ⟨some "http", some localhost, "/"⟩, some path, false, scheme⟩) ∨
    (stripPrefix "unix:" upstreamStr = none ∧ ∃ u a, x.parseUri upstreamStr = some u ∧
      (u.scheme = some "http" ∨ u.scheme = some "https") ∧ u.authority = some a ∧
      ((trimBrackets (host a.1) = host a.1 ∧
          c = ⟨.h3, u, none, false, scheme⟩) ∨
        c = ⟨.http, u, none, startsWith "https://" upstreamStr, scheme⟩)) := by
  rw [new] at h
  split at h
  · rename_i path hpath
    exact Or.inl ⟨path, hpath, (some.inj h).symm⟩
  · rename_i hunix
    obtain ⟨u, hu, h⟩ := bind_eq_some_iff.mp h
    rw [ite_none_left_eq_some] at h
    obtain ⟨hscheme, h⟩ := h
    obtain ⟨a, ha, h⟩ := bind_eq_some_iff.mp h
    refine Or.inr ⟨hunix, u, a, hu, ?_, ha, ?_⟩
    · by_contra hneither
      exact hscheme (not_or.mp hneither)
    · split_ifs at h with hh3 hname
      · obtain ⟨hopen, hclose⟩ := x.bracket_not_mem _ hname
        exact Or.inl ⟨trimBrackets_of_notMem hopen hclose, (some.inj h).symm⟩
      · exact Or.inr (some.inj h).symm

/-- The ways to a host and a port, whatever the default port of the client is. -/
theorem agree_iff_isHostPort (a : Authority) (default : UInt16) :
    (some (inet (trimBrackets (host a.1))
        ((portU16 a.1).getD default)) = connectText a.1 ∧
      some (inet (trimBrackets (host a.1))
        ((portU16 a.1).getD default)) = some (hostAndPort a 80)) ↔ IsHostPort a.1 := by
  constructor
  · rintro ⟨hconnect, hupgrade⟩
    have htrim := (inet.inj (some.inj hupgrade)).1
    rw [htrim] at hconnect
    exact isHostPort_of_connectText htrim hconnect.symm
  · intro h
    obtain ⟨port, hport, hconnect⟩ := h.connectText_eq
    rw [h.1, hconnect, hostAndPort, hport]
    exact ⟨rfl, rfl⟩

theorem upgradeDial_of_http (hscheme : u.scheme = some "http") (ha : u.authority = some a)
    (hu : c.upstream = u) (uri : UpstreamUri) :
    upgradeDial c (some uri) = some (hostAndPort a 80) := by
  rw [upgradeDial, bind_some, hu, openH2cDial, openH1Dial, hscheme, ha]
  simp only [getD_some, ne_eq, not_true_eq_false, if_false, if_true, map_some, ite_self]

theorem upgradeDial_of_https (hscheme : u.scheme = some "https") (hu : c.upstream = u)
    (uri : UpstreamUri) : upgradeDial c (some uri) = none := by
  rw [upgradeDial, bind_some, hu, openH2cDial, openH1Dial, hscheme]
  simp only [getD_some]
  split_ifs <;> first | rfl | simp_all

/-- With plain HTTP an `Alt-Svc` makes no difference. -/
theorem plainDial_of_http (hu : x.parseUri upstreamStr = some u) (hscheme : u.scheme = some "http")
    (ha : u.authority = some a) (uri : UpstreamUri) (huri : uri.authority = some a)
    (hclient : (trimBrackets (host a.1) = host a.1 ∧ c = ⟨.h3, u, none, false, scheme⟩) ∨
      c = ⟨.http, u, none, startsWith "https://" upstreamStr, scheme⟩)
    (h3Port : Option UInt16) :
    ∃ default, plainDial c h3Port (some uri) = some (.inet (trimBrackets (host a.1))
      ((portU16 a.1).getD default)) := by
  rcases hclient with ⟨htrim, rfl⟩ | rfl
  · refine ⟨443, ?_⟩
    rw [plainDial, bind_some, htrim]
    simp only [ha, map_some, hostAndPort]
  · have hno : startsWith "https://" upstreamStr = false := by
      rw [Bool.eq_false_iff]
      intro hstarts
      have hhttps := x.https_of_startsWith upstreamStr u hstarts hu
      rw [hscheme] at hhttps
      exact absurd (some.inj hhttps) (by decide)
    refine ⟨if uri.scheme = some "https" then 443 else 80, ?_⟩
    rw [plainDial, bind_some]
    simp only [hno, Bool.false_eq_true, if_false, httpConnect, huri, map_some]

theorem plainDial_isSome (ha : c.upstream.authority = some a) (h3Port : Option UInt16) :
    (plainDial c h3Port (buildBackendUri c.upstream true)).isSome := by
  rw [plainDial, buildBackendUri, if_pos rfl, ha, map_some, bind_some]
  split
  · rfl
  · rfl
  · split <;> rfl

/-- **The three ways agree** exactly for plain HTTP to a host and a port. -/
theorem same_endpoint_iff (hnew : new x upstreamStr scheme = some c)
    (h3Port : Option UInt16) (pathOk : Bool) :
    SameEndpoint c h3Port pathOk ↔ pathOk = false ∨ IsHttpHostPort x upstreamStr := by
  rcases pathOk with _ | _
  · exact ⟨fun _ ↦ Or.inl rfl, fun _ ↦ ⟨rfl, rfl⟩⟩
  rw [or_iff_right (by decide)]
  rcases new_cases hnew with ⟨path, hpath, rfl⟩ | ⟨hunix, u, a, hu, hscheme, ha, hclient⟩
  · -- the tunnel to a Unix socket
    constructor
    · rintro ⟨-, hupgrade⟩
      rw [buildBackendUri, if_pos rfl, map_some, upgradeDial_of_http rfl rfl rfl] at hupgrade
      cases hupgrade
    · rintro ⟨hnone, -⟩
      rw [hpath] at hnone
      cases hnone
  have hupstream : c.upstream = u := by rcases hclient with ⟨-, rfl⟩ | rfl <;> rfl
  have hunixPath : c.unixPath = none := by rcases hclient with ⟨-, rfl⟩ | rfl <;> rfl
  have hbackend : buildBackendUri c.upstream true =
      some ⟨some (u.scheme.getD "http"), some a, u.path⟩ := by
    rw [buildBackendUri, if_pos rfl, hupstream, ha, map_some]
  have hconverse : IsHttpHostPort x upstreamStr ↔ u.scheme = some "http" ∧ IsHostPort a.1 := by
    constructor
    · rintro ⟨-, u', a', hu', hscheme', ha', hhostPort⟩
      obtain rfl := some.inj (hu.symm.trans hu')
      obtain rfl := some.inj (ha.symm.trans ha')
      exact ⟨hscheme', hhostPort⟩
    · rintro ⟨hhttp, hhostPort⟩
      exact ⟨hunix, u, a, hu, hhttp, ha, hhostPort⟩
  have hproxy : proxyDial c (buildBackendUri c.upstream true) = connectText a.1 := by
    rw [hbackend, proxyDial, bind_some, hunixPath, hupstream, ha, bind_some]
  rcases hscheme with hhttp | hhttps
  · obtain ⟨default, hplain⟩ := plainDial_of_http hu hhttp ha
      ⟨some (u.scheme.getD "http"), some a, u.path⟩ rfl hclient h3Port
    rw [SameEndpoint, hproxy, hbackend, hplain, upgradeDial_of_http hhttp ha hupstream,
      agree_iff_isHostPort, hconverse]
    exact ⟨fun h ↦ ⟨hhttp, h⟩, fun h ↦ h.2⟩
  · constructor
    · rintro ⟨-, hupgrade⟩
      have hsome := plainDial_isSome (c := c) (hupstream ▸ ha) h3Port
      rw [hupgrade, hbackend, upgradeDial_of_https hhttps hupstream] at hsome
      cases hsome
    · intro h
      have hhttp := (hconverse.mp h).1
      rw [hhttps] at hhttp
      exact absurd (some.inj hhttp) (by decide)

/-! ## Upstreams -/

/-- An upstream with a port and one without. -/
private def backendUri (authority : Authority) : UpstreamUri := ⟨some "http", some authority, "/"⟩

private def withPort : Authority := ⟨"backend:8080".toList, by decide⟩

private def withoutPort : Authority := ⟨"backend".toList, by decide⟩

/-- A parser that knows two upstreams. -/
private def twoUpstreams : Parsers where
  parseUri str :=
    if str = "http://backend:8080" then some (backendUri withPort)
    else if str = "http://backend" then some (backendUri withoutPort) else none
  https_of_startsWith str u hstarts hu := by
    split_ifs at hu with hport hplain
    · exact absurd (hport ▸ hstarts) (by decide)
    · exact absurd (hplain ▸ hstarts) (by decide)
  isServerName _ := false
  bracket_not_mem s h := by cases h

theorem same_endpoint_withPort :
    ∃ c, new twoUpstreams "http://backend:8080" .auto = some c ∧
      SameEndpoint c none true := by
  have hnew : new twoUpstreams "http://backend:8080" .auto =
      some ⟨.http, backendUri withPort, none, false, .auto⟩ := rfl
  refine ⟨_, hnew, (same_endpoint_iff hnew none true).mpr (Or.inr ⟨rfl, ?_⟩)⟩
  exact ⟨backendUri withPort, withPort, rfl, rfl, rfl, by decide, "8080".toList, by decide,
    by decide +kernel⟩

/-- An upgrade to a Unix socket goes to port 80 here; without a port the PROXY path dials
nothing. -/
theorem paths_disagree :
    ((new twoUpstreams "unix:/run/app.sock" .auto).map fun c ↦
        (plainDial c none (buildBackendUri c.upstream true),
          upgradeDial c (buildBackendUri c.upstream true))) =
      some (some (.unix "/run/app.sock"), some (.inet "localhost".toList 80)) ∧
    ((new twoUpstreams "http://backend" .auto).map fun c ↦
        (plainDial c none (buildBackendUri c.upstream true),
          proxyDial c (buildBackendUri c.upstream true))) =
      some (some (.inet "backend".toList 80), none) := by
  constructor
  · decide +kernel
  · decide +kernel

end Proxy

end Hypershunt
