import Hypershunt.Http.Authority
import Hypershunt.Listener.Host
import Hypershunt.Router.Route

/-!
# Three readings of one host

A request is routed by the text that `strip_port` makes of its `Host` header. Before that,
`normalize_host` has checked a `Host` header with `is_valid_host_value`, or has copied the authority
of the target over it. The three read the same text with three parsers.

A `Host` that the client sent is checked, so the parsers agree about it. An authority is copied as
it is, and the parser that accepted it as an authority accepts more than a host with a port: with
user information in it, what is routed on is the user information.
-/

namespace Hypershunt

open List Option

namespace Listener

open Router (stripPort)

open UriAuthority Text Except HeaderValue

/-- `str::parse::<Authority>`, together with what is read from the result. -/
def authority (s : String) : Option Authority :=
  if isAuthority s.toList then
    some ⟨s, String.ofList (host s.toList),
      (portU16 s.toList).map UInt16.toNat⟩
  else none

variable {s t : String} {req req' : Request}

/-! ## One text -/

theorem host_subset {cs : List Char} {c : Char} (hc : c ∈ host cs) :
    c ∈ cs ∨ c = ']' := by
  have hhostPort {d : Char} (hd : d ∈ hostPort cs) : d ∈ cs := by
    rw [hostPort, mem_reverse] at hd
    exact mem_reverse.mp ((takeWhile_sublist _).mem hd)
  unfold host at hc
  split_ifs at hc
  · rcases List.mem_append.mp hc with hc | hc
    · exact Or.inl (hhostPort ((takeWhile_sublist _).mem hc))
    · exact Or.inr (mem_singleton.mp hc)
  · exact Or.inl (hhostPort ((takeWhile_sublist _).mem hc))

/-- **What a valid `Host` is**: a host without user information, with nothing but a number after
it. -/
theorem isValidHostValue_iff :
    isValidHostValue authority s = true ↔ '@' ∉ s.toList ∧
      isAuthority s.toList = true ∧
      ((portU16 s.toList).isSome = true ∨
        s.toList.length ≤ (host s.toList).length) := by
  have hat : contains "@" s = true ↔ '@' ∈ s.toList :=
    contains_iff_mem rfl
  unfold isValidHostValue authority
  by_cases hmem : '@' ∈ s.toList
  · rw [if_pos (hat.mpr hmem)]
    exact iff_of_false Bool.false_ne_true fun h ↦ h.1 hmem
  rw [if_neg (hat.not.mpr hmem)]
  by_cases hauth : isAuthority s.toList = true
  · have hascii : ∀ c ∈ s.toList, c.toNat < 128 := fun c hc ↦
      (visible_of_isAuthority hauth hc).2.trans (by decide)
    have hhost : ∀ c ∈ host s.toList, c.toNat < 128 := by
      intro c hc
      rcases host_subset hc with hc | rfl
      · exact hascii c hc
      · decide
    have hsize := utf8ByteSize_ofList hascii
    rw [String.ofList_toList] at hsize
    rw [if_pos hauth]
    simp only [utf8ByteSize_ofList hhost, hsize, isNone_map]
    rw [Bool.not_eq_true', Bool.and_eq_false_iff, decide_eq_false_iff_not, Nat.not_lt, or_comm,
      isNone_eq_false_iff, and_iff_right hmem, and_iff_right hauth]
  · rw [if_neg hauth]
    exact iff_of_false Bool.false_ne_true fun h ↦ hauth h.2.1

theorem toList_toAsciiLowercase (s : String) :
    (toAsciiLowercase s).toList = s.toList.map Char.toLower := String.toList_ofList

theorem isValidHostValue_toAsciiLowercase (s : String) :
    isValidHostValue authority (toAsciiLowercase s) = isValidHostValue authority s := by
  rw [Bool.eq_iff_iff, isValidHostValue_iff, isValidHostValue_iff, toList_toAsciiLowercase,
    mem_map_toLower_iff rfl, isAuthority_map_toLower,
    portU16_map_toLower, host_map_toLower, length_map, length_map]

theorem startsWith_bracket_iff : startsWith "[" s = true ↔ s.toList.head? = some '[' := by
  rw [startsWith_iff]
  change ['['] <+: s.toList ↔ _
  rcases s.toList with _ | ⟨c, cs⟩
  · exact iff_of_false (by decide) (by decide)
  · rw [cons_prefix_cons, head?_cons, some.injEq, eq_comm]
    exact and_iff_left (List.nil_prefix)

theorem stripPort_toAsciiLowercase (s : String) :
    stripPort (toAsciiLowercase s) = toAsciiLowercase (stripPort s) := by
  simp only [stripPort, startsWith_bracket_iff, toList_toAsciiLowercase, head?_map_toLower_iff (d :=
    '[') rfl, mem_map_toLower_iff (d := ']') rfl, takeWhile_map_toLower (d := ']') rfl,
    takeWhile_map_toLower (d := ':') rfl]
  split_ifs
  · rw [toAsciiLowercase, String.toList_ofList, map_append]
    rfl
  · rw [toAsciiLowercase, String.toList_ofList]

/-- Without user information the router reads the host that the authority has. -/
theorem stripPort_eq_host (h : isAuthority s.toList = true) (hat : '@' ∉ s.toList) :
    stripPort s = String.ofList (host s.toList) := by
  simp only [stripPort, host, hostPort_of_notMem hat, startsWith_bracket_iff]
  by_cases hhead : s.toList.head? = some '['
  · have hclose : ']' ∈ s.toList :=
      mem_of_isAuthority h (mem_of_mem_head? hhead)
    rw [if_pos ⟨hhead, hclose⟩, if_pos hhead]
  · rw [if_neg fun hand ↦ hhead hand.1, if_neg hhead]

/-! ## One request -/

theorem hostLine_eq_ok {lines : List HeaderValue} {host : Option HeaderValue}
    (h : hostLine authority lines = .ok host) :
    (lines = [] ∧ host = none) ∨ (lines = [""] ∧ host = none) ∨
      ∃ v, lines = [v] ∧ host = some v ∧ isValidHostValue authority v = true := by
  unfold hostLine at h
  split at h
  · exact Or.inl ⟨rfl, (ok.inj h).symm⟩
  · split at h
    · exact nomatch h
    · rename_i text htext
      obtain ⟨-, rfl⟩ := toStr_eq_some_iff.mp htext
      split_ifs at h with hempty hvalid
      · rw [String.isEmpty_iff] at hempty
        rw [hempty]
        exact Or.inr (Or.inl ⟨rfl, (ok.inj h).symm⟩)
      · exact Or.inr (Or.inr ⟨_, rfl, (ok.inj h).symm, hvalid⟩)
  · exact nomatch h

/-- **What became of it**: the authority was copied, or named the same host, or there is none. -/
theorem normalizeHost_eq_ok (h : normalizeHost authority req = .ok req') :
    (∃ a, req.uri.authority = some a ∧ req' = setHost req a) ∨
      (∃ a v, req.uri.authority = some a ∧ req.headers.getAll "host" = [v] ∧
        isValidHostValue authority v = true ∧ eqIgnoreAsciiCase v a = true ∧ req' = req) ∨
      req.uri.authority = none ∧ req' = req ∧ (req.headers.getAll "host").length ≤ 1 ∧
        ∀ v ∈ req.headers.getAll "host", v = "" ∨ isValidHostValue authority v = true := by
  obtain ⟨host, hline, hmatch⟩ := bind_eq_ok_iff.mp h
  have hlines := hostLine_eq_ok hline
  rcases hauth : req.uri.authority with _ | a
  · right
    right
    have hreq : req' = req := by
      rcases host with _ | v
      · simp only [hauth] at hmatch
        split_ifs at hmatch
        exact (ok.inj hmatch).symm
      · simp only [hauth] at hmatch
        exact (ok.inj hmatch).symm
    refine ⟨rfl, hreq, ?_⟩
    rcases hlines with ⟨hlines, -⟩ | ⟨hlines, -⟩ | ⟨v, hlines, -, hvalid⟩ <;> rw [hlines]
    · exact ⟨Nat.zero_le _, fun v hv ↦ absurd hv not_mem_nil⟩
    · exact ⟨le_rfl, fun v hv ↦ Or.inl (mem_singleton.mp hv)⟩
    · exact ⟨le_rfl, fun v' hv ↦ Or.inr (mem_singleton.mp hv ▸ hvalid)⟩
  · rcases host with _ | v
    · simp only [hauth] at hmatch
      exact Or.inl ⟨a, rfl, (ok.inj hmatch).symm⟩
    · simp only [hauth] at hmatch
      split_ifs at hmatch with hversion hsame
      · rcases hlines with ⟨-, hnone⟩ | ⟨-, hnone⟩ | ⟨v', hlines, hv, hvalid⟩
        · exact nomatch hnone
        · exact nomatch hnone
        · obtain rfl := some.inj hv
          exact Or.inr (Or.inl ⟨a, v, rfl, hlines, hvalid, hsame, (ok.inj hmatch).symm⟩)
      · exact Or.inl ⟨a, rfl, (ok.inj hmatch).symm⟩

/-- One usable `Host` at most, empty only if the target names none; and if the target names one, the
router sees the same. -/
structure HostAgrees (req req' : Request) : Prop where
  single : (req'.headers.getAll "host").length ≤ 1
  valid : ∀ v ∈ req'.headers.getAll "host",
    (v = "" ∧ req.uri.authority = none) ∨ isValidHostValue authority v = true
  agrees : ∀ a, req.uri.authority = some a →
    ∃ v parsed, req'.headers.getStr "host" = some v ∧ authority a = some parsed ∧
      eqIgnoreAsciiCase (stripPort v) parsed.host = true

theorem isSome_authority_iff :
    (authority s).isSome = true ↔ isAuthority s.toList = true := by
  unfold authority
  split_ifs with hauth
  · exact iff_of_true rfl hauth
  · exact iff_of_false Bool.false_ne_true hauth

theorem all_visibleAscii (h : isAuthority s.toList = true) :
    s.toList.all visibleAscii = true := by
  rw [List.all_eq_true]
  intro c hc
  obtain ⟨hlow, hhigh⟩ := visible_of_isAuthority h hc
  simp [visibleAscii, hlow.le, hhigh]

theorem setHost_of_isAuthority (h : isAuthority s.toList = true) :
    setHost req s = { req with headers := req.headers.insert "host" s } := by
  rw [setHost, fromStr_of_visible (all_visibleAscii h)]

theorem getStr_host {headers : HeaderMap} (hlines : headers.getAll "host" = [s])
    (h : isAuthority s.toList = true) : headers.getStr "host" = some s := by
  rw [HeaderMap.getStr, HeaderMap.get_eq_head?, hlines]
  exact toStr_eq_some_iff.mpr ⟨all_visibleAscii h, rfl⟩

/-- A `Host` that differs from a valid authority in case at most names the same host. -/
theorem agrees_of_lower_eq (hlower : toAsciiLowercase s = toAsciiLowercase t)
    (ht : isValidHostValue authority t = true) :
    ∃ parsed, authority t = some parsed ∧
      eqIgnoreAsciiCase (stripPort s) parsed.host = true := by
  obtain ⟨hat, hauth, -⟩ := isValidHostValue_iff.mp ht
  refine ⟨_, if_pos hauth, beq_iff_eq.mpr ?_⟩
  rw [← stripPort_toAsciiLowercase, hlower, stripPort_toAsciiLowercase, stripPort_eq_host hauth hat]

/-- **The host that is routed on** is right exactly if the authority of the target, where it has
one, would have passed as a `Host`. -/
theorem hostAgrees_iff (h : normalizeHost authority req = .ok req')
    (hparse : ∀ a, req.uri.authority = some a → (authority a).isSome = true) :
    HostAgrees req req' ↔
      ∀ a, req.uri.authority = some a → isValidHostValue authority a = true := by
  rcases normalizeHost_eq_ok h with ⟨a, hauth, rfl⟩ | ⟨a, v, hauth, hlines, hvalid, hsame, rfl⟩ |
    ⟨hauth, rfl, hlength, hvalid⟩
  · have hisAuth := isSome_authority_iff.mp (hparse a hauth)
    have hlines : ((setHost req a).headers).getAll "host" = [a] := by
      rw [setHost_of_isAuthority hisAuth]
      exact HeaderMap.getAll_insert_self
    constructor
    · intro hagrees a' ha'
      obtain rfl := some.inj (hauth.symm.trans ha')
      rcases hagrees.valid a (hlines ▸ mem_singleton_self a) with ⟨-, hnone⟩ | hvalid
      · rw [hauth] at hnone
        exact nomatch hnone
      · exact hvalid
    · intro hall
      have hvalid := hall a hauth
      refine ⟨hlines ▸ le_rfl, fun v hv ↦ ?_, fun a' ha' ↦ ?_⟩
      · rw [hlines, mem_singleton] at hv
        exact Or.inr (hv ▸ hvalid)
      · obtain rfl := some.inj (hauth.symm.trans ha')
        obtain ⟨parsed, hparsed, hsame⟩ := agrees_of_lower_eq rfl hvalid
        exact ⟨a, parsed, getStr_host hlines hisAuth, hparsed, hsame⟩
  · have hlower := beq_iff_eq.mp hsame
    have hvalid' : isValidHostValue authority a = true := by
      rw [← isValidHostValue_toAsciiLowercase, ← hlower, isValidHostValue_toAsciiLowercase, hvalid]
    have hisAuth := (isValidHostValue_iff.mp hvalid).2.1
    refine iff_of_true ⟨hlines ▸ le_rfl, fun v' hv ↦ ?_, fun a' ha' ↦ ?_⟩ fun a' ha' ↦ ?_
    · rw [hlines, mem_singleton] at hv
      exact Or.inr (hv ▸ hvalid)
    · obtain rfl := some.inj (hauth.symm.trans ha')
      obtain ⟨parsed, hparsed, hsame⟩ := agrees_of_lower_eq hlower hvalid'
      exact ⟨v, parsed, getStr_host hlines hisAuth, hparsed, hsame⟩
    · obtain rfl := some.inj (hauth.symm.trans ha')
      exact hvalid'
  · have hnone (a : String) : req'.uri.authority ≠ some a := hauth ▸ nofun
    exact iff_of_true ⟨hlength, fun v hv ↦ (hvalid v hv).imp_left fun he ↦ ⟨he, hauth⟩,
      fun a ha ↦ absurd ha (hnone a)⟩ fun a ha ↦ absurd ha (hnone a)

/-- A request in absolute form that also has a `Host` line. -/
private def absoluteForm (authority : String) : Request where
  method := .get
  uri := ⟨some "http", some authority, some ("/", none)⟩
  version := .http11
  headers := [("host", "other.example")]
  body := []

theorem hostAgrees_with_port :
    normalizeHost authority (absoluteForm "www.example:8080") =
        .ok (setHost (absoluteForm "www.example:8080") "www.example:8080") ∧
      HostAgrees (absoluteForm "www.example:8080")
        (setHost (absoluteForm "www.example:8080") "www.example:8080") :=
  have hnormal : normalizeHost authority (absoluteForm "www.example:8080") =
      .ok (setHost (absoluteForm "www.example:8080") "www.example:8080") := by decide +kernel
  ⟨hnormal, (hostAgrees_iff hnormal fun a ha ↦ by cases ha; decide +kernel).mpr
    fun a ha ↦ by cases ha; decide +kernel⟩

/-- The host of this authority is `www.example`; the request goes to `intranet.example`. -/
theorem userinfo_is_routed_on :
    ∃ req', normalizeHost authority (absoluteForm "intranet.example:x@www.example") = .ok req' ∧
      (authority "intranet.example:x@www.example").map Authority.host = some "www.example" ∧
      (req'.headers.getStr "host").map stripPort = some "intranet.example" ∧
      ¬ HostAgrees (absoluteForm "intranet.example:x@www.example") req' := by
  refine ⟨setHost (absoluteForm "intranet.example:x@www.example") "intranet.example:x@www.example",
    by decide +kernel, by decide +kernel, by decide +kernel, fun hagrees ↦ ?_⟩
  rcases hagrees.valid "intranet.example:x@www.example" (by decide +kernel) with
    ⟨hempty, -⟩ | hvalid
  · exact absurd hempty (by decide)
  · exact absurd hvalid (by decide +kernel)

end Listener

end Hypershunt
