import Hypershunt.Handler.HopByHop

/-!
# The chain of forwarding addresses

Each proxy on the way adds the address of its client to `X-Forwarded-For`, which is a list. This one
writes a single line, from the first line it finds. What other lines say is lost, and so is a line
that is not text, and the whole header if the client has `Connection` name it.

`chain_preserved_iff` says which requests lose nothing: a line that has any members at all is the
first, is text, and is not taken off with the connection.
-/

namespace Hypershunt

open List Option

namespace Proxy

open HeaderValue HeaderMap

/-- The header reaches the point where the address is added. -/
def Outbound.Reaches (o : Outbound) (h : HeaderMap) (n : HeaderName) : Prop :=
  o.isUpgrade = true ∨ ∀ v, h.getStr "connection" = some v → n ∉ listedBy v

/-- All members of the chain are in a first line of text that is not taken off. -/
def ChainSurvives (o : Outbound) (h : HeaderMap) : Prop :=
  ∀ (i : ℕ) (v : HeaderValue), (h.getAll "x-forwarded-for")[i]? = some v → v.members ≠ [] →
    i = 0 ∧ v.toStr.isSome = true ∧ o.Reaches h "x-forwarded-for"

variable {o : Outbound} {h : HeaderMap} {n : HeaderName}

theorem reaches_iff_not_strips : o.Reaches h n ↔ ¬o.Strips h n := by
  rw [Outbound.Reaches, Outbound.Strips, mem_connectionListed_iff]
  cases o.isUpgrade <;> simp

/-! ## One line -/

theorem members_displayIp (ip : IpAddr) :
    members (String.ofList (displayIp ip)) = [String.ofList (displayIp ip)] := by
  refine members_of_all ?_ fun c hc ↦ ?_
  · intro hempty
    exact displayIp_ne_nil ip (by simpa using congrArg String.toList hempty)
  · rw [String.toList_ofList] at hc
    have haddr := isAddressChar_of_mem_displayIp hc
    constructor
    · rintro rfl
      exact absurd haddr (by decide)
    · rw [← Bool.not_eq_true]
      intro hows
      obtain ⟨hlow, -⟩ := bounds_of_isAddressChar haddr
      rw [isOws, Bool.or_eq_true, beq_iff_eq, beq_iff_eq] at hows
      rcases hows with rfl | rfl
      · exact absurd hlow (by decide)
      · exact absurd hlow (by decide)

theorem members_forwardedFor (h : HeaderMap) (ip : IpAddr) :
    members (forwardedFor h (String.ofList (displayIp ip))) =
      (h.getStr "x-forwarded-for").elim [] members ++
        [String.ofList (displayIp ip)] := by
  rw [forwardedFor]
  rcases h.getStr "x-forwarded-for" with _ | s
  · exact members_displayIp ip
  · have hsep : s ++ ", " ++ String.ofList (displayIp ip) =
        s ++ "," ++ (String.singleton ' ' ++ String.ofList (displayIp ip)) := by
      rw [show (", " : String) = "," ++ String.singleton ' ' by decide]
      simp only [String.append_assoc]
    simp only [elim_some]
    rw [hsep, members_append, members_singleton_append (by decide),
      members_displayIp]

/-- The first line is what is left of all of them, under the condition that the proxy gets to it. -/
theorem flatMap_members_eq_iff (lines : List HeaderValue) (p : Prop) [Decidable p] :
    lines.flatMap members =
        (if p then lines.head?.bind toStr else none).elim [] members ↔
      ∀ (i : ℕ) (v : HeaderValue), lines[i]? = some v → v.members ≠ [] →
        i = 0 ∧ v.toStr.isSome = true ∧ p := by
  rcases lines with _ | ⟨v, rest⟩
  · simp
  have hrest : rest.flatMap members = [] ↔ ∀ w ∈ rest, w.members = [] :=
    flatMap_eq_nil_iff
  have hlines : (∀ (i : ℕ) (w : HeaderValue), (v :: rest)[i]? = some w → w.members ≠ [] →
        i = 0 ∧ w.toStr.isSome = true ∧ p) ↔
      (v.members ≠ [] → v.toStr.isSome = true ∧ p) ∧ rest.flatMap members = [] := by
    rw [hrest]
    constructor
    · intro hall
      refine ⟨fun hne ↦ (hall 0 v rfl hne).2, fun w hw ↦ ?_⟩
      obtain ⟨i, hi⟩ := mem_iff_getElem?.mp hw
      by_contra hne
      exact absurd (hall (i + 1) w hi hne).1 (Nat.succ_ne_zero i)
    · rintro ⟨hfirst, hnone⟩ (_ | i) w hw hne
      · cases hw
        exact ⟨rfl, hfirst hne⟩
      · exact absurd (hnone w (mem_of_getElem? hw)) hne
  rw [hlines, flatMap_cons, head?_cons, bind_some]
  by_cases hkept : v.toStr.isSome = true ∧ p
  · obtain ⟨htext, hp⟩ := hkept
    obtain ⟨s, hs⟩ := isSome_iff_exists.mp htext
    obtain ⟨-, rfl⟩ := toStr_eq_some_iff.mp hs
    simp [hp, hs]
  · have hnone : (if p then v.toStr else none) = none := by
      by_cases hp : p
      · rw [if_pos hp, ← not_isSome_iff_eq_none]
        exact fun htext ↦ hkept ⟨htext, hp⟩
      · rw [if_neg hp]
    rw [hnone, elim_none, append_eq_nil_iff]
    simp only [hkept, imp_false, not_not]

theorem getStr_remaining (hn : n ∉ hopByHop) (h : HeaderMap) [Decidable (o.Reaches h n)] :
    (o.remaining h).getStr n =
      if o.Reaches h n then (h.getAll n).head?.bind toStr else none := by
  classical
  rw [getStr, get_eq_head?, getAll_remaining hn]
  by_cases hreaches : o.Reaches h n
  · rw [if_neg (reaches_iff_not_strips.mp hreaches), if_pos hreaches]
  · rw [if_pos (not_not.mp (reaches_iff_not_strips.not.mp hreaches)), if_neg hreaches]
    rfl

theorem list_prepareHeaders {ip : IpAddr} (hpeer : o.peer = some ip) (h : HeaderMap) :
    (prepareHeaders o h).list "x-forwarded-for" =
      ((o.remaining h).getStr "x-forwarded-for").elim [] members ++
        [String.ofList (displayIp ip)] := by
  have hip : o.peerIp = some (String.ofList (displayIp ip)) := by
    rw [Outbound.peerIp, hpeer, map_some]
  have hown : o.own "x-forwarded-for" = .appends (String.ofList (displayIp ip)) := by
    simp [Outbound.own, hip]
  rw [list, getAll_prepareHeaders, hown, Own.values, flatMap_singleton, members_forwardedFor]

/-- **When the chain is preserved.** -/
theorem chain_preserved_iff (o : Outbound) (ip : IpAddr) (h : HeaderMap) :
    (prepareHeaders { o with peer := some ip } h).list "x-forwarded-for" =
        h.list "x-forwarded-for" ++ [String.ofList (displayIp ip)] ↔
      ChainSurvives o h := by
  classical
  rw [list_prepareHeaders rfl, getStr_remaining (by decide), append_left_inj, eq_comm,
    list, flatMap_members_eq_iff]
  rfl

/-- A proxy before this one has added its client in a line of its own. -/
private def twoLines : HeaderMap :=
  [("x-forwarded-for", "203.0.113.7"), ("x-forwarded-for", "198.51.100.9")]

/-- The backend does not learn of it. -/
theorem second_line_of_chain_lost :
    twoLines.list "x-forwarded-for" = ["203.0.113.7", "198.51.100.9"] ∧
      toBackend.peerIp = some "10.0.0.1" ∧
      (prepareHeaders toBackend twoLines).list "x-forwarded-for" = ["203.0.113.7", "10.0.0.1"] := by
  refine ⟨?_, ?_, ?_⟩ <;> decide +kernel

end Proxy

end Hypershunt
