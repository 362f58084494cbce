import Hypershunt.Foundation.Text

/-!
# Authorities

The authority of a request target, as the `http` crate reads it: `Authority::parse` goes over the
text once, counting colons and remembering brackets, percent signs and the last at sign, and judges
what it has seen at the end. The host and the port are then cut out of the text again.

The scan accepts more than a host with a port: user information before an at sign, and after the
last colon whatever characters a target may have.

Letters are all alike to the scan, so nothing here depends on their case.
-/

namespace Hypershunt

open List Option

namespace UriAuthority

open Text

/-- The characters a target may have in the places that are not further restricted. -/
def isUriChar (c : Char) : Bool := c.isAlphanum || "!$&'()*+,-.;=_~".toList.contains c

/-- What the scan has seen. -/
structure Scan where
  pos : ℕ := 0
  colonCnt : ℕ := 0
  startBracket : Bool := false
  endBracket : Bool := false
  hasPercent : Bool := false
  atSignPos : Option ℕ := none

open Scan

namespace Scan

/-- One character. A slash, a question mark or a hash would end the authority. -/
def step (sc : Scan) (c : Char) : Option Scan :=
  let next := { sc with pos := sc.pos + 1 }
  if c = ':' then if 8 ≤ sc.colonCnt then none else some { next with colonCnt := sc.colonCnt + 1 }
  else if c = '[' then
    if sc.hasPercent || sc.startBracket then none else some { next with startBracket := true }
  else if c = ']' then
    if !sc.startBracket || sc.endBracket then none
    else some { next with endBracket := true, colonCnt := 0, hasPercent := false }
  else if c = '@' then
    some { next with atSignPos := some sc.pos, colonCnt := 0, hasPercent := false }
  else if c = '%' then some { next with hasPercent := true }
  else if isUriChar c then some next
  else none

/-- The verdict at the end of the text. -/
def accepts (sc : Scan) : Bool :=
  sc.startBracket == sc.endBracket && decide (sc.colonCnt ≤ 1) &&
    !(decide (0 < sc.pos) && sc.atSignPos == some (sc.pos - 1)) && !sc.hasPercent

end Scan

def scan (s : List Char) : Option Scan := s.foldlM step {}

def isAuthority (s : List Char) : Bool := !s.isEmpty && (scan s).any accepts

/-- What comes after the last at sign. -/
def hostPort (s : List Char) : List Char := (s.reverse.takeWhile (· != '@')).reverse

/-- Up to the bracket of an IPv6 address, else up to the colon. -/
def host (s : List Char) : List Char :=
  if (hostPort s).head? = some '[' then (hostPort s).takeWhile (· != ']') ++ [']']
  else (hostPort s).takeWhile (· != ':')

/-- The number after the last colon. -/
def portU16 (s : List Char) : Option UInt16 :=
  if ':' ∈ s then parseU16 (String.ofList (s.reverse.takeWhile (· != ':')).reverse) else none

/-! ## What an authority contains -/

variable {s : List Char} {sc sc' : Scan} {c : Char}

theorem brackets_of_step (h : sc.step c = some sc') :
    sc'.startBracket = (sc.startBracket || c == '[') ∧
      sc'.endBracket = (sc.endBracket || c == ']') := by
  unfold step at h
  split_ifs at h <;> obtain rfl := Option.some.inj h <;> simp_all

theorem brackets_of_foldlM (h : s.foldlM step sc = some sc') :
    sc'.startBracket = (sc.startBracket || s.contains '[') ∧
      sc'.endBracket = (sc.endBracket || s.contains ']') := by
  induction s generalizing sc with
  | nil =>
    obtain rfl := Option.some.inj h
    simp
  | cons c s ih =>
    obtain ⟨mid, hstep, h⟩ := bind_eq_some_iff.mp h
    obtain ⟨hstart, hend⟩ := brackets_of_step hstep
    obtain ⟨hstart', hend'⟩ := ih h
    rw [hstart', hend', hstart, hend, contains_cons, contains_cons, Bool.or_assoc, Bool.or_assoc,
      BEq.comm, BEq.comm (a := c) (b := ']')]
    exact ⟨rfl, rfl⟩

theorem mem_of_isAuthority (h : isAuthority s = true) (hopen : '[' ∈ s) : ']' ∈ s := by
  rw [isAuthority, Bool.and_eq_true, Option.any_eq_true] at h
  obtain ⟨-, sc, hscan, haccepts⟩ := h
  obtain ⟨hstart, hend⟩ := brackets_of_foldlM hscan
  have hclosed : sc.startBracket = sc.endBracket := by
    simp only [accepts, Bool.and_eq_true, beq_iff_eq] at haccepts
    exact haccepts.1.1.1
  rw [hstart, hend, List.contains_iff_mem.mpr hopen] at hclosed
  exact List.contains_iff_mem.mp hclosed.symm

theorem isUriChar_visible (h : isUriChar c = true) : 0x20 < c.toNat ∧ c.toNat < 0x7f := by
  rw [isUriChar, Bool.or_eq_true, List.contains_iff_mem] at h
  rcases h with halnum | hmem
  · rw [Char.isAlphanum, Bool.or_eq_true, isAlpha_iff_toNat, Char.isDigit_iff_toNat] at halnum
    have h0 : '0'.toNat = 48 := rfl
    have h9 : '9'.toNat = 57 := rfl
    omega
  · have hall : ∀ c ∈ "!$&'()*+,-.;=_~".toList, 0x20 < c.toNat ∧ c.toNat < 0x7f :=
      forall_mem_of_all (by decide)
    exact hall c hmem

/-- No character of an authority is a control character or outside of ASCII. -/
theorem visible_of_step (h : sc.step c = some sc') : 0x20 < c.toNat ∧ c.toNat < 0x7f := by
  unfold step at h
  split_ifs at h with hcolon _ hopen _ hclose _ hat hpercent huri
  · rw [hcolon]; decide
  · rw [hopen]; decide
  · rw [hclose]; decide
  · rw [hat]; decide
  · rw [hpercent]; decide
  · exact isUriChar_visible huri

theorem visible_of_foldlM (h : s.foldlM step sc = some sc') (hc : c ∈ s) :
    0x20 < c.toNat ∧ c.toNat < 0x7f := by
  induction s generalizing sc with
  | nil => exact absurd hc not_mem_nil
  | cons d s ih =>
    obtain ⟨mid, hstep, h⟩ := bind_eq_some_iff.mp h
    rcases mem_cons.mp hc with rfl | hc
    · exact visible_of_step hstep
    · exact ih h hc

theorem visible_of_isAuthority (h : isAuthority s = true) (hc : c ∈ s) :
    0x20 < c.toNat ∧ c.toNat < 0x7f := by
  rw [isAuthority, Bool.and_eq_true, Option.any_eq_true] at h
  obtain ⟨-, sc, hscan, -⟩ := h
  exact visible_of_foldlM hscan hc

theorem hostPort_of_notMem (h : '@' ∉ s) : hostPort s = s := by
  have hall : ∀ c ∈ s.reverse, (c != '@') = true := by
    intro c hc
    exact bne_iff_ne.mpr fun heq ↦ h (heq ▸ mem_reverse.mp hc)
  rw [hostPort, takeWhile_eq_self_iff.mpr hall, reverse_reverse]

/-! ## Upper and lower case -/

theorem isUriChar_toLower (c : Char) : isUriChar c.toLower = isUriChar c := by
  unfold isUriChar
  rw [isAlphanum_toLower]
  rcases toLower_eq_or c with h | ⟨halpha, -⟩
  · rw [h]
  · rw [Char.isAlphanum, halpha, Bool.true_or, Bool.true_or, Bool.true_or]

theorem step_toLower (sc : Scan) (c : Char) : sc.step c.toLower = sc.step c := by
  simp only [step, isUriChar_toLower, toLower_eq_iff (d := ':') rfl, toLower_eq_iff (d := '[') rfl,
    toLower_eq_iff (d := ']') rfl, toLower_eq_iff (d := '@') rfl, toLower_eq_iff (d := '%') rfl]

theorem isAuthority_map_toLower (s : List Char) :
    isAuthority (s.map Char.toLower) = isAuthority s := by
  rw [isAuthority, scan, foldlM_map]
  simp only [step_toLower, isEmpty_map]
  rfl

/-- Cutting at a character that is no letter does not depend on the case of the others. -/
theorem takeWhile_map_toLower {d : Char} (hd : d.isAlpha = false) (s : List Char) :
    (s.map Char.toLower).takeWhile (· != d) = (s.takeWhile (· != d)).map Char.toLower := by
  rw [takeWhile_map]
  congr 2
  funext c
  rw [Function.comp_apply, Bool.eq_iff_iff, bne_iff_ne, bne_iff_ne, ne_eq, ne_eq, toLower_eq_iff hd]

theorem hostPort_map_toLower (s : List Char) :
    hostPort (s.map Char.toLower) = (hostPort s).map Char.toLower := by
  rw [hostPort, ← map_reverse, takeWhile_map_toLower rfl, ← map_reverse, hostPort]

theorem host_map_toLower (s : List Char) :
    host (s.map Char.toLower) = (host s).map Char.toLower := by
  unfold host
  rw [hostPort_map_toLower]
  simp only [head?_map_toLower_iff (d := '[') rfl, takeWhile_map_toLower (d := ']') rfl,
    takeWhile_map_toLower (d := ':') rfl]
  split_ifs
  · rw [map_append]
    rfl
  · rfl

theorem portU16_map_toLower (s : List Char) : portU16 (s.map Char.toLower) = portU16 s := by
  have hport := parseU16_toAsciiLowercase
    (String.ofList (s.reverse.takeWhile (· != ':')).reverse)
  rw [toAsciiLowercase, String.toList_ofList] at hport
  unfold portU16
  rw [← map_reverse, takeWhile_map_toLower rfl, ← map_reverse, hport]
  simp only [mem_map_toLower_iff (d := ':') rfl]

end UriAuthority

end Hypershunt
