import Hypershunt.Handler.BackendHeaders
import Hypershunt.Http.FieldList

/-!
# Whether all headers of the connection are removed

The proxy removes a fixed list of headers and those that `Connection` names, and keeps `TE` as far
as it says `trailers`. A message may have any number of `Connection` and `TE` lines, and each of
them counts; the proxy looks at the first. `complete_iff` says for which messages that makes no
difference.
-/

namespace Hypershunt

open List Option

namespace Proxy

open HeaderMap HeaderValue

/-- The header names in a `Connection` line. -/
def listedBy (v : HeaderValue) : List HeaderName :=
  v.members.filterMap fun m ↦ HeaderName.fromBytes (Text.toAsciiLowercase m)

/-- The header names in all `Connection` lines. -/
def connectionNames (h : HeaderMap) : List HeaderName := (h.getAll "connection").flatMap listedBy

/-- Some `TE` line accepts trailers. -/
def AcceptsTrailers (h : HeaderMap) : Prop :=
  ∃ v ∈ h.getAll "te", v.toStr.any teAcceptsTrailers = true

/-- What is left of a message belongs to the message. -/
structure Complete (h : HeaderMap) : Prop where
  fixed : ∀ n ∈ hopByHop, n ≠ "te" → (stripHopByHop h).getAll n = []
  /-- `TE` says `trailers` and nothing else, if it is there. -/
  trailers : AcceptsTrailers h → (stripHopByHop h).getAll "te" = ["trailers"]
  noTrailers : ¬AcceptsTrailers h → (stripHopByHop h).getAll "te" = []
  listed : ∀ n ∈ connectionNames h, n ≠ "te" → (stripHopByHop h).getAll n = []
  others : ∀ n, n ∉ hopByHop → n ∉ connectionNames h →
    (stripHopByHop h).getAll n = h.getAll n

variable {h : HeaderMap} {n : HeaderName}

/-! ## The first line -/

theorem fromBytes_empty : HeaderName.fromBytes (Text.toAsciiLowercase "") = none := by
  decide

/-- What the proxy reads out of the first line, if that is text, is what the line says. -/
theorem connectionListed_eq (h : HeaderMap) :
    connectionListed h = (h.getStr "connection").elim [] listedBy := by
  rw [connectionListed]
  rcases hfirst : h.getStr "connection" with _ | s
  · rfl
  · obtain ⟨v, -, hv⟩ := bind_eq_some_iff.mp hfirst
    obtain ⟨hvisible, rfl⟩ := toStr_eq_some_iff.mp hv
    rw [map_some, getD_some, elim_some, listedBy, members, filterMap_filter, filterMap_map]
    refine filterMap_congr fun p hp ↦ ?_
    have htrim : Text.trim p = trimOws p := trim_eq_trimOws fun c hc ↦
      List.all_eq_true.mp hvisible c (Text.mem_toList_of_mem_split hp hc)
    rw [htrim, Function.comp_apply]
    -- a member without text names nothing
    by_cases hempty : trimOws p = ""
    · rw [hempty, fromBytes_empty]
      rfl
    · rw [if_pos (by simpa using hempty)]

theorem connectionListed_subset (hn : n ∈ connectionListed h) : n ∈ connectionNames h := by
  rw [connectionListed_eq] at hn
  rcases hfirst : h.getStr "connection" with _ | s
  · rw [hfirst] at hn
    exact absurd hn not_mem_nil
  · rw [hfirst, elim_some] at hn
    obtain ⟨v, hget, hv⟩ := bind_eq_some_iff.mp hfirst
    obtain ⟨-, rfl⟩ := toStr_eq_some_iff.mp hv
    rw [get_eq_head?] at hget
    exact mem_flatMap.mpr ⟨v, mem_of_head? hget, hn⟩

theorem acceptsTrailers_of_first (hfirst : (h.getStr "te").any teAcceptsTrailers = true) :
    AcceptsTrailers h := by
  rw [getStr, get_eq_head?] at hfirst
  rcases hlines : h.getAll "te" with _ | ⟨v, lines⟩
  · rw [hlines] at hfirst
    exact absurd hfirst (by decide)
  · rw [hlines] at hfirst
    exact ⟨v, hlines ▸ mem_cons_self, hfirst⟩

/-! ## What is left -/

theorem getAll_stripHopByHop_of_mem (hn : n ∈ hopByHop) (hte : n ≠ "te") (h : HeaderMap) :
    (stripHopByHop h).getAll n = [] := by
  have hstripped : ((connectionListed h).foldl remove
      (hopByHop.foldl remove h)).getAll n = [] := by
    rw [getAll_foldl_remove, getAll_foldl_remove, if_pos hn, ite_self]
  rw [stripHopByHop]
  split_ifs
  · rw [getAll_insert_of_ne hte, hstripped]
  · exact hstripped

theorem getAll_te_stripHopByHop (h : HeaderMap) :
    (stripHopByHop h).getAll "te" =
      if (h.getStr "te").any teAcceptsTrailers then ["trailers"] else [] := by
  have hte : ("te" : HeaderName) ∈ hopByHop := by decide
  rw [stripHopByHop]
  split_ifs
  · exact getAll_insert_self
  · rw [getAll_foldl_remove, getAll_foldl_remove, if_pos hte, ite_self]

/-- The first `Connection` names all that any of them names, and the first `TE` accepts trailers if
any does. -/
structure FirstDecides (h : HeaderMap) : Prop where
  connection : ∀ n ∈ connectionNames h, n ∉ hopByHop → h.getAll n ≠ [] →
    ∃ v, h.getStr "connection" = some v ∧ n ∈ listedBy v
  te : AcceptsTrailers h → (h.getStr "te").any teAcceptsTrailers = true

theorem mem_connectionListed_iff :
    n ∈ connectionListed h ↔ ∃ v, h.getStr "connection" = some v ∧ n ∈ listedBy v := by
  rw [connectionListed_eq]
  rcases h.getStr "connection" with _ | v
  · simp
  · simp

/-- **When stripping is complete.** -/
theorem complete_iff (h : HeaderMap) : Complete h ↔ FirstDecides h := by
  constructor
  · intro hcomplete
    refine ⟨fun n hn hfixed hpresent ↦ ?_, fun haccepts ↦ ?_⟩
    · rw [← mem_connectionListed_iff]
      by_contra hunlisted
      have hte : n ≠ "te" := fun heq ↦ hfixed (heq ▸ by decide)
      have hgone := hcomplete.listed n hn hte
      rw [getAll_stripHopByHop hfixed, if_neg hunlisted] at hgone
      exact hpresent hgone
    · by_contra hfirst
      have hkept := hcomplete.trailers haccepts
      rw [getAll_te_stripHopByHop, if_neg hfirst] at hkept
      cases hkept
  · intro hfirst
    have hte_iff : (h.getStr "te").any teAcceptsTrailers = true ↔ AcceptsTrailers h :=
      ⟨acceptsTrailers_of_first, hfirst.te⟩
    refine ⟨fun n hn hte ↦ getAll_stripHopByHop_of_mem hn hte h, fun haccepts ↦ ?_,
      fun hrejects ↦ ?_, fun n hn hte ↦ ?_, fun n hfixed hn ↦ ?_⟩
    · rw [getAll_te_stripHopByHop, if_pos (hte_iff.mpr haccepts)]
    · rw [getAll_te_stripHopByHop, if_neg fun hacc ↦ hrejects (hte_iff.mp hacc)]
    · by_cases hfixed : n ∈ hopByHop
      · exact getAll_stripHopByHop_of_mem hfixed hte h
      · rw [getAll_stripHopByHop hfixed]
        by_cases habsent : h.getAll n = []
        · rw [habsent, ite_self]
        · rw [if_pos (mem_connectionListed_iff.mpr (hfirst.connection n hn hfixed habsent))]
    · rw [getAll_stripHopByHop hfixed, if_neg fun hlisted ↦ hn (connectionListed_subset hlisted)]

/-- The second `Connection` line names a header, which is left. -/
theorem second_connection_line_ignored :
    "x-session-id" ∈ connectionNames
        [("connection", "keep-alive"), ("connection", "X-Session-Id"), ("x-session-id", "7")] ∧
      (stripHopByHop [("connection", "keep-alive"), ("connection", "X-Session-Id"),
        ("x-session-id", "7")]).getAll "x-session-id" = ["7"] ∧
      ¬Complete [("connection", "keep-alive"), ("connection", "X-Session-Id"),
        ("x-session-id", "7")] := by
  have hnamed : "x-session-id" ∈ connectionNames
      [("connection", "keep-alive"), ("connection", "X-Session-Id"), ("x-session-id", "7")] := by
    decide +kernel
  have hkept : (stripHopByHop [("connection", "keep-alive"), ("connection", "X-Session-Id"),
      ("x-session-id", "7")]).getAll "x-session-id" = ["7"] := by
    decide +kernel
  refine ⟨hnamed, hkept, fun hcomplete ↦ ?_⟩
  have hgone := hcomplete.listed _ hnamed (by decide)
  rw [hkept] at hgone
  cases hgone

end Proxy

end Hypershunt
