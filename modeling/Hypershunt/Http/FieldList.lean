import Hypershunt.Http.Header

/-!
# Headers that are lists

Some headers are lists. Their members stand between commas, and it makes no difference whether they
share a line or have lines of their own: the list is that of all lines in order. White space around
a member does not belong to it, and a member without any text does not count.

A line is read byte by byte here, whether or not it is text. On text, the white space of the list is
all the white space there is, and `trim` cuts off the same.
-/

namespace Hypershunt

open List Text

/-- The white space a list may have around its members. -/
def isOws (c : Char) : Bool := c == ' ' || c == '\t'

def trimOws (s : String) : String := trimEndMatches isOws (trimStartMatches isOws s)

namespace HeaderValue

/-- The members of one line. -/
def members (v : HeaderValue) : List String :=
  ((split ',' v).map trimOws).filter fun m ↦ !m.isEmpty

end HeaderValue

/-- The members of all lines. -/
def HeaderMap.list (h : HeaderMap) (n : HeaderName) : List String :=
  (h.getAll n).flatMap HeaderValue.members

/-! ## White space -/

theorem isWhitespace_eq_isOws {c : Char} (hc : visibleAscii c = true) :
    isWhitespace c = isOws c := by
  simp only [visibleAscii, Bool.or_eq_true, Bool.and_eq_true, decide_eq_true_eq, beq_iff_eq] at hc
  rcases hc with ⟨hlow, hhigh⟩ | rfl
  · have hspace : (c == ' ') = (c.toNat == 0x20) := by
      rw [Bool.eq_iff_iff, beq_iff_eq, beq_iff_eq]
      exact ⟨fun h ↦ h ▸ rfl, fun h ↦ Char.toNat_inj.mp h⟩
    have htab : (c == '\t') = false := by
      rw [beq_eq_false_iff_ne]
      rintro rfl
      exact absurd hlow (by decide)
    rw [isOws, hspace, htab, Bool.or_false, isWhitespace, Bool.eq_iff_iff]
    simp only [Bool.or_eq_true, Bool.and_eq_true, decide_eq_true_eq, beq_iff_eq]
    omega
  · decide

theorem dropWhile_congr {p q : Char → Bool} {cs : List Char} (h : ∀ c ∈ cs, p c = q c) :
    cs.dropWhile p = cs.dropWhile q := by
  induction cs with
  | nil => rfl
  | cons c cs ih =>
    obtain ⟨hc, hcs⟩ := forall_mem_cons.mp h
    rw [dropWhile_cons, dropWhile_cons, hc, ih hcs]

theorem trim_eq_trimOws {s : String} (hs : ∀ c ∈ s.toList, visibleAscii c = true) :
    trim s = trimOws s := by
  have hstart : trimStart s = trimStartMatches isOws s := by
    rw [trimStart, trimStartMatches, trimStartMatches,
      dropWhile_congr fun c hc ↦ isWhitespace_eq_isOws (hs c hc)]
  have hend : ∀ c ∈ (trimStartMatches isOws s).toList.reverse,
      isWhitespace c = isOws c := by
    intro c hc
    rw [mem_reverse, trimStartMatches, String.toList_ofList] at hc
    exact isWhitespace_eq_isOws (hs c ((dropWhile_sublist _).mem hc))
  rw [trim, trimOws, hstart, trimEndMatches, trimEndMatches, dropWhile_congr hend]

theorem trimOws_singleton_append {d : Char} (hd : isOws d = true) (s : String) :
    trimOws (String.singleton d ++ s) = trimOws s := by
  rw [trimOws, trimStartMatches, String.toList_append, String.toList_singleton,
    singleton_append, dropWhile_cons_of_pos hd]
  rfl

theorem trimOws_of_all {s : String} (hs : ∀ c ∈ s.toList, isOws c = false) : trimOws s = s := by
  have hdrop : ∀ cs : List Char, (∀ c ∈ cs, isOws c = false) → cs.dropWhile isOws = cs := by
    intro cs hcs
    rw [dropWhile_eq_self_iff]
    intro hl hhead
    rw [hcs _ (getElem_mem hl)] at hhead
    cases hhead
  rw [trimOws, trimStartMatches, hdrop _ hs, String.ofList_toList, trimEndMatches,
    hdrop _ fun c hc ↦ hs c (mem_reverse.mp hc), reverse_reverse, String.ofList_toList]

/-! ## Members -/

namespace HeaderValue

theorem members_append (s t : String) : members (s ++ "," ++ t) = members s ++ members t := by
  rw [members, show ("," : String) = String.singleton ',' from rfl,
    split_append_singleton_append, map_append, filter_append]
  rfl

theorem members_singleton_append {d : Char} (hd : isOws d = true) (s : String) :
    members (String.singleton d ++ s) = members s := by
  have hne : d ≠ ',' := by
    rintro rfl
    exact absurd hd (by decide)
  rw [members, members, split_singleton_append hne]
  congr 1
  rcases split ',' s with _ | ⟨piece, pieces⟩
  · rfl
  · rw [modifyHead_cons, map_cons, map_cons, trimOws_singleton_append hd]

theorem members_of_all {s : String} (hne : s ≠ "")
    (hs : ∀ c ∈ s.toList, c ≠ ',' ∧ isOws c = false) : members s = [s] := by
  have hsplit : split ',' s = [s] := by
    have hjoin := split_intercalate (c := ',') (cons_ne_nil s []) (by
      intro p hp
      rw [mem_singleton.mp hp]
      exact fun hc ↦ (hs _ hc).1 rfl)
    rwa [String.intercalate_singleton] at hjoin
  rw [members, hsplit, map_singleton, trimOws_of_all fun c hc ↦ (hs c hc).2]
  simp [hne]

end HeaderValue

end Hypershunt
