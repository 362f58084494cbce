import Hypershunt.Foundation.BigEndian
import Hypershunt.Foundation.Numeral
import Hypershunt.Net.Address

/-!
# Addresses as text

How the standard library writes IP addresses and how it reads them. IPv4 addresses are four decimal
numbers. IPv6 addresses are eight hexadecimal groups, of which the first longest run of zeros is
left out if it is longer than one; an IPv4-mapped address ends with the IPv4 address instead. The
reader accepts more than the writer writes, and works by trying: before each group it looks for an
IPv4 address, and what a failed attempt has read is given back.

The reader takes no more than the address from a text, so that a whole text is an address if nothing
is left.
-/

namespace Hypershunt

open List Option Numeral

/-! ## Writing -/

/-- `Ipv4Addr::octets`. -/
def octets (addr : BitVec 32) : List UInt8 := BigEndian.toBytes 4 addr.toNat

/-- `Ipv4Addr::from` the octets. -/
def ofOctets (bs : List UInt8) : BitVec 32 := BitVec.ofNat 32 (BigEndian.ofBytes bs)

/-- `Ipv6Addr::segments`. -/
def segments (addr : BitVec 128) : List ℕ :=
  let n := addr.toNat
  [n / 2 ^ 112 % 2 ^ 16, n / 2 ^ 96 % 2 ^ 16, n / 2 ^ 80 % 2 ^ 16, n / 2 ^ 64 % 2 ^ 16,
    n / 2 ^ 48 % 2 ^ 16, n / 2 ^ 32 % 2 ^ 16, n / 2 ^ 16 % 2 ^ 16, n % 2 ^ 16]

/-- `Ipv6Addr::from` the segments. -/
def ofSegments (gs : List ℕ) : BitVec 128 :=
  BitVec.ofNat 128 (gs.foldl (fun n g ↦ 2 ^ 16 * n + g) 0)

def displayIpv4 (addr : BitVec 32) : List Char :=
  ['.'].intercalate ((octets addr).map fun o ↦ Nat.toDigits 10 o.toNat)

/-- A run of groups. -/
structure Span where
  start : ℕ
  len : ℕ

/-- The run with the group number `i` added. -/
def Span.extend (z : Span) (i : ℕ) : Span := ⟨if z.len = 0 then i else z.start, z.len + 1⟩

/-- The loop that looks for the longest run of zeros, from group number `i` on. -/
def longestZeros : ℕ → List ℕ → (longest current : Span) → Span
  | _, [], longest, _ => longest
  | i, g :: gs, longest, current =>
    if g = 0 then
      let current := current.extend i
      longestZeros (i + 1) gs (if longest.len < current.len then current else longest) current
    else longestZeros (i + 1) gs longest ⟨0, 0⟩

/-- `fmt_subslice`. -/
def fmtSubslice : List ℕ → List Char
  | [] => []
  | g :: gs => Nat.toDigits 16 g ++ gs.flatMap fun g ↦ ':' :: Nat.toDigits 16 g

def displayIpv6 (addr : BitVec 128) : List Char :=
  match toIpv4Mapped addr with
  | some v4 => "::ffff:".toList ++ displayIpv4 v4
  | none =>
    let gs := segments addr
    let zeroes := longestZeros 0 gs ⟨0, 0⟩ ⟨0, 0⟩
    if 1 < zeroes.len then
      fmtSubslice (gs.take zeroes.start) ++ "::".toList ++
        fmtSubslice (gs.drop (zeroes.start + zeroes.len))
    else fmtSubslice gs

/-! ## Reading -/

def readGivenChar (c : Char) : List Char → Option (List Char)
  | [] => none
  | c' :: s => if c' = c then some s else none

/-- A number of limited size. Where leading zeros are not allowed, zero itself still is. -/
def readNumber (radix maxDigits : ℕ) (allowZeroPrefix : Bool) (bound : ℕ) (s : List Char) :
    Option (ℕ × List Char) :=
  let digits := s.takeWhile (isDigit radix)
  let n := value radix digits
  if digits = [] ∨ maxDigits < digits.length ∨ bound ≤ n ∨
      (allowZeroPrefix = false ∧ digits.head? = some '0' ∧ 1 < digits.length) then none
  else some (n, s.dropWhile (isDigit radix))

/-- What is read after a separator, unless it is the first. -/
def readSeparator {α : Type} (sep : Char) (index : ℕ) (inner : List Char → Option (α × List Char))
    (s : List Char) : Option (α × List Char) :=
  if 0 < index then (readGivenChar sep s).bind inner else inner s

/-- The loop over the octets, of which so many are left. -/
def readOctets : ℕ → ℕ → List Char → Option (List ℕ × List Char)
  | _, 0, s => some ([], s)
  | i, left + 1, s =>
    (readSeparator '.' i (readNumber 10 3 false 256) s).bind fun o ↦
      (readOctets (i + 1) left o.2).map fun os ↦ (o.1 :: os.1, os.2)

def readIpv4Addr (s : List Char) : Option (BitVec 32 × List Char) :=
  (readOctets 0 4 s).map fun os ↦ (ofOctets (os.1.map UInt8.ofNat), os.2)

/-- The two groups that an IPv4 address at the end stands for. -/
def ipv4Groups (addr : BitVec 32) : List ℕ := [addr.toNat / 2 ^ 16, addr.toNat % 2 ^ 16]

/-- `read_groups`: the groups there are, whether the last two were an IPv4 address, and the rest. -/
def readGroups : ℕ → ℕ → List Char → List ℕ × Bool × List Char
  | _, 0, s => ([], false, s)
  | i, left + 1, s =>
    -- an IPv4 address takes the place of two groups
    match if 0 < left then readSeparator ':' i readIpv4Addr s else none with
    | some (v4, s) => (ipv4Groups v4, true, s)
    | none =>
      match readSeparator ':' i (readNumber 16 4 true (2 ^ 16)) s with
      | some (g, s) =>
        let (gs, ipv4, s) := readGroups (i + 1) left s
        (g :: gs, ipv4, s)
      | none => ([], false, s)

def readIpv6Addr (s : List Char) : Option (BitVec 128 × List Char) :=
  let (head, headIpv4, s) := readGroups 0 8 s
  if head.length = 8 then some (ofSegments head, s)
  else if headIpv4 then none
  else
    ((readGivenChar ':' s).bind (readGivenChar ':')).map fun s ↦
      let (tail, _, s) := readGroups 0 (8 - (head.length + 1)) s
      (ofSegments (head ++ List.replicate (8 - head.length - tail.length) 0 ++ tail), s)

/-- `parse_with`: an address and nothing else. -/
def parseWith {α : Type} (inner : List Char → Option (α × List Char)) (s : List Char) : Option α :=
  match inner s with
  | some (a, []) => some a
  | _ => none

def parseIpv4 (s : List Char) : Option (BitVec 32) :=
  if 15 < s.length then none else parseWith readIpv4Addr s

def parseIpv6 (s : List Char) : Option (BitVec 128) := parseWith readIpv6Addr s

/-! ## Numbers -/

variable {radix maxDigits bound n : ℕ} {zero : Bool} {s rest : List Char}

theorem readNumber_toDigits (hone : 1 < radix) (hradix : radix ≤ 16) (hmax : 0 < maxDigits)
    (hfits : n < radix ^ maxDigits) (hbound : n < bound) (hrest : Ends radix rest) :
    readNumber radix maxDigits zero bound (Nat.toDigits radix n ++ rest) = some (n, rest) := by
  rw [readNumber, takeWhile_toDigits_append hone hradix hrest,
    dropWhile_toDigits_append hone hradix hrest, value_toDigits hone hradix]
  refine if_neg ?_
  rintro (hnil | hlong | hlarge | ⟨-, hhead, hlength⟩)
  · exact Nat.toDigits_ne_nil hnil
  · exact absurd ((Nat.length_toDigits_le_iff hone hmax).mpr hfits) (by omega)
  · omega
  · rcases Nat.eq_zero_or_pos n with rfl | hn
    · rw [Nat.toDigits_of_lt_base (Nat.zero_lt_of_lt hone)] at hlength
      exact absurd hlength (by decide)
    · exact head?_toDigits_ne_zero hone hradix hn hhead

theorem readNumber_of_ends (h : Ends radix s) :
    readNumber radix maxDigits zero bound s = none := by
  have hdigits : s.takeWhile (isDigit radix) = [] := by
    rcases s with _ | ⟨c, s⟩
    · rfl
    · exact takeWhile_cons_of_neg (by simp [h c rfl])
  rw [readNumber, hdigits]
  exact if_pos (Or.inl rfl)

theorem suffix_of_readNumber {n' : ℕ}
    (h : readNumber radix maxDigits zero bound s = some (n', rest)) : rest <:+ s := by
  rw [readNumber, ite_none_left_eq_some] at h
  obtain ⟨-, rfl⟩ := Prod.mk.inj (Option.some.inj h.2)
  exact dropWhile_suffix _

variable {c : Char} {i left : ℕ} {gs : List ℕ} {z : Span}

theorem readGivenChar_eq_some_iff : readGivenChar c s = some rest ↔ s = c :: rest := by
  rcases s with _ | ⟨c', s⟩
  · simp [readGivenChar]
  · simp [readGivenChar, List.cons.injEq]

theorem mem_of_readNumber {n' : ℕ} (hc : isDigit radix c = false)
    (h : readNumber radix maxDigits zero bound s = some (n', rest)) (hmem : c ∈ s) : c ∈ rest := by
  rw [readNumber, ite_none_left_eq_some] at h
  obtain ⟨-, rfl⟩ := Prod.mk.inj (Option.some.inj h.2)
  rw [← @takeWhile_append_dropWhile _ (isDigit radix) s, List.mem_append] at hmem
  refine hmem.resolve_left fun htake ↦ ?_
  have hdigit := mem_takeWhile_imp htake
  rw [hc] at hdigit
  exact Bool.false_ne_true hdigit

/-! ## IPv4 -/

theorem ofOctets_octets (addr : BitVec 32) : ofOctets (octets addr) = addr := by
  rw [ofOctets, octets, BigEndian.ofBytes_toBytes addr.isLt, BitVec.ofNat_toNat, BitVec.setWidth_eq]

/-- An address as the first number and the others, each after its dot. -/
theorem displayIpv4_eq (addr : BitVec 32) : ∃ a b c d : UInt8, octets addr = [a, b, c, d] ∧
    displayIpv4 addr = Nat.toDigits 10 a.toNat ++
      [b, c, d].flatMap fun o ↦ '.' :: Nat.toDigits 10 o.toNat := by
  obtain ⟨a, b, c, d, hoctets⟩ : ∃ a b c d : UInt8, octets addr = [a, b, c, d] :=
    ⟨_, _, _, _, rfl⟩
  refine ⟨a, b, c, d, hoctets, ?_⟩
  rw [displayIpv4, hoctets]
  simp [List.intercalate, List.intersperse]

theorem ends_dots (os : List UInt8) (hrest : Ends 10 rest) :
    Ends 10 ((os.flatMap fun o ↦ '.' :: Nat.toDigits 10 o.toNat) ++ rest) := by
  rcases os with _ | ⟨o, os⟩
  · exact hrest
  · exact ends_cons (by decide)

theorem readNumber_octet (o : UInt8) (hrest : Ends 10 rest) :
    readNumber 10 3 false 256 (Nat.toDigits 10 o.toNat ++ rest) = some (o.toNat, rest) :=
  readNumber_toDigits (by decide) (by decide) (by decide) (o.toNat_lt.trans (by decide)) o.toNat_lt
    hrest

theorem readOctets_flatMap (os : List UInt8) (i : ℕ) (hrest : Ends 10 rest) :
    readOctets (i + 1) os.length ((os.flatMap fun o ↦ '.' :: Nat.toDigits 10 o.toNat) ++ rest) =
      some (os.map UInt8.toNat, rest) := by
  induction os generalizing i with
  | nil => rfl
  | cons o os ih =>
    rw [flatMap_cons, length_cons, readOctets, readSeparator, if_pos i.succ_pos, cons_append,
      cons_append, readGivenChar, if_pos rfl, bind_some, append_assoc,
      readNumber_octet o (ends_dots os hrest), bind_some, ih, map_some]
    rfl

/-- **IPv4 addresses are read back.** -/
theorem readIpv4Addr_displayIpv4 (addr : BitVec 32) (hrest : Ends 10 rest) :
    readIpv4Addr (displayIpv4 addr ++ rest) = some (addr, rest) := by
  obtain ⟨a, b, c, d, hoctets, hdisplay⟩ := displayIpv4_eq addr
  have hread : readOctets 0 4 (displayIpv4 addr ++ rest) =
      some ((octets addr).map UInt8.toNat, rest) := by
    have hothers := readOctets_flatMap [b, c, d] 0 hrest
    rw [hdisplay, hoctets, readOctets, readSeparator, if_neg (lt_irrefl 0), append_assoc,
      readNumber_octet a (ends_dots _ hrest), bind_some]
    simp only [length_cons, length_nil] at hothers
    rw [hothers, map_some]
    rfl
  rw [readIpv4Addr, hread, map_some, List.map_map]
  simp only [Function.comp_def, UInt8.ofNat_toNat, List.map_id', ofOctets_octets]

theorem readIpv4Addr_of_ends (h : Ends 10 s) : readIpv4Addr s = none := by
  rw [readIpv4Addr, readOctets, readSeparator, if_neg (lt_irrefl 0), readNumber_of_ends h]
  rfl

theorem dot_mem_of_readOctets {os : List ℕ × List Char}
    (h : readOctets (i + 1) (left + 1) s = some os) : '.' ∈ s := by
  obtain ⟨o, hfirst, -⟩ := bind_eq_some_iff.mp h
  rw [readSeparator, if_pos i.succ_pos] at hfirst
  obtain ⟨s', hdot, -⟩ := bind_eq_some_iff.mp hfirst
  rw [readGivenChar_eq_some_iff.mp hdot]
  exact mem_cons_self

theorem readIpv4Addr_of_no_dot (h : '.' ∉ s) : readIpv4Addr s = none := by
  rw [readIpv4Addr, map_eq_none_iff, eq_none_iff_forall_ne_some]
  intro os hread
  obtain ⟨o, hfirst, hothers⟩ := bind_eq_some_iff.mp hread
  rw [readSeparator, if_neg (lt_irrefl 0)] at hfirst
  obtain ⟨os', hothers, -⟩ := map_eq_some_iff.mp hothers
  exact h ((suffix_of_readNumber hfirst).subset (dot_mem_of_readOctets hothers))

theorem colon_mem_of_readOctets {os : List ℕ} (h : readOctets i left s = some (os, rest))
    (hmem : ':' ∈ s) : ':' ∈ rest := by
  induction left generalizing i s os with
  | zero =>
    obtain ⟨-, rfl⟩ := Prod.mk.inj (Option.some.inj h)
    exact hmem
  | succ left ih =>
    obtain ⟨o, hfirst, hmap⟩ := bind_eq_some_iff.mp h
    obtain ⟨os', hothers, heq⟩ := map_eq_some_iff.mp hmap
    obtain ⟨-, rfl⟩ := Prod.mk.inj heq
    refine ih hothers ?_
    rw [readSeparator] at hfirst
    split_ifs at hfirst with hi
    · obtain ⟨s', hdot, hfirst⟩ := bind_eq_some_iff.mp hfirst
      obtain rfl := readGivenChar_eq_some_iff.mp hdot
      refine mem_of_readNumber (by decide) hfirst ?_
      exact (mem_cons.mp hmem).resolve_left (by decide)
    · exact mem_of_readNumber (by decide) hfirst hmem

theorem parseIpv4_of_colon (h : ':' ∈ s) : parseIpv4 s = none := by
  rw [parseIpv4]
  split_ifs with hlong
  · rfl
  · rw [parseWith]
    split
    · rename_i addr hread
      obtain ⟨os, hread, heq⟩ := map_eq_some_iff.mp hread
      have hmem := colon_mem_of_readOctets hread h
      rw [(Prod.mk.inj heq).2] at hmem
      exact absurd hmem not_mem_nil
    · rfl

/-! ## Groups -/

/-- What may follow the groups that are read: nothing, or the two colons. -/
def Stops (rest : List Char) : Prop := rest = [] ∨ ∃ t, rest = ':' :: ':' :: t

/-- Groups, each after its colon. -/
abbrev colonGroups (gs : List ℕ) : List Char := gs.flatMap fun g ↦ ':' :: Nat.toDigits 16 g

theorem Stops.ends (h : Stops rest) : Ends 16 rest := by
  rcases h with rfl | ⟨t, rfl⟩
  · exact ends_nil 16
  · exact ends_cons (by decide)

theorem ends_colonGroups (gs : List ℕ) (h : Stops rest) : Ends 16 (colonGroups gs ++ rest) := by
  rcases gs with _ | ⟨g, gs⟩
  · exact h.ends
  · exact ends_cons (by decide)

theorem readNumber_group {g : ℕ} (hg : g < 2 ^ 16) (hrest : Ends 16 rest) :
    readNumber 16 4 true (2 ^ 16) (Nat.toDigits 16 g ++ rest) = some (g, rest) :=
  readNumber_toDigits (by decide) (by decide) (by decide) hg hg hrest

theorem readGroups_succ (i left : ℕ) (hdot : '.' ∉ s) :
    readGroups i (left + 1) s = match readSeparator ':' i (readNumber 16 4 true (2 ^ 16)) s with
      | some (g, s) => (g :: (readGroups (i + 1) left s).1, (readGroups (i + 1) left s).2)
      | none => ([], false, s) := by
  have hipv4 : (if 0 < left then readSeparator ':' i readIpv4Addr s else none) = none := by
    split_ifs with hleft
    · rw [readSeparator]
      split_ifs with hi
      · rw [bind_eq_none_iff]
        intro s' hcolon
        obtain rfl := readGivenChar_eq_some_iff.mp hcolon
        exact readIpv4Addr_of_no_dot fun hmem ↦ hdot (mem_cons_of_mem ':' hmem)
      · exact readIpv4Addr_of_no_dot hdot
    · rfl
  rw [readGroups, hipv4]

theorem readGroups_of_stops (i left : ℕ) (hdot : '.' ∉ rest) (hrest : Stops rest) :
    readGroups i left rest = ([], false, rest) := by
  rcases left with _ | left
  · rfl
  · have hnumber : readSeparator ':' i (readNumber 16 4 true (2 ^ 16)) rest = none := by
      rw [readSeparator]
      split_ifs with hi
      · rcases hrest with rfl | ⟨t, rfl⟩
        · rfl
        · change readNumber 16 4 true (2 ^ 16) (':' :: t) = none
          exact readNumber_of_ends (ends_cons (by decide))
      · exact readNumber_of_ends hrest.ends
    rw [readGroups_succ i left hdot, hnumber]

theorem readGroups_flatMap (i : ℕ) (hleft : gs.length ≤ left) (hgs : ∀ g ∈ gs, g < 2 ^ 16)
    (hrest : Stops rest) (hdot : '.' ∉ colonGroups gs ++ rest) :
    readGroups (i + 1) left (colonGroups gs ++ rest) = (gs, false, rest) := by
  induction gs generalizing i left with
  | nil => exact readGroups_of_stops (i + 1) left hdot hrest
  | cons g gs ih =>
    rcases left with _ | left
    · exact absurd hleft (Nat.not_succ_le_zero _)
    obtain ⟨hg, hgs⟩ := forall_mem_cons.mp hgs
    rw [colonGroups, flatMap_cons, append_assoc] at hdot ⊢
    have hnumber : readSeparator ':' (i + 1) (readNumber 16 4 true (2 ^ 16))
        (':' :: Nat.toDigits 16 g ++ (colonGroups gs ++ rest)) =
        some (g, colonGroups gs ++ rest) := by
      rw [readSeparator, if_pos i.succ_pos]
      exact readNumber_group hg (ends_colonGroups gs hrest)
    have hothers := ih (i + 1) (Nat.le_of_succ_le_succ hleft) hgs
      (fun hmem ↦ hdot (mem_append_right _ hmem))
    rw [readGroups_succ _ _ hdot, hnumber]
    simp only [hothers]

/-- **Groups are read back.** -/
theorem readGroups_fmtSubslice (hleft : gs.length ≤ left) (hgs : ∀ g ∈ gs, g < 2 ^ 16)
    (hrest : Stops rest) (hdot : '.' ∉ fmtSubslice gs ++ rest) :
    readGroups 0 left (fmtSubslice gs ++ rest) = (gs, false, rest) := by
  rcases gs with _ | ⟨g, gs⟩
  · exact readGroups_of_stops 0 left hdot hrest
  · rcases left with _ | left
    · exact absurd hleft (Nat.not_succ_le_zero _)
    obtain ⟨hg, hgs⟩ := forall_mem_cons.mp hgs
    rw [fmtSubslice, append_assoc] at hdot ⊢
    have hnumber : readSeparator ':' 0 (readNumber 16 4 true (2 ^ 16))
        (Nat.toDigits 16 g ++ (colonGroups gs ++ rest)) = some (g, colonGroups gs ++ rest) :=
      readNumber_group hg (ends_colonGroups gs hrest)
    have hothers := readGroups_flatMap 0 (Nat.le_of_succ_le_succ hleft) hgs hrest
      (fun hmem ↦ hdot (mem_append_right _ hmem))
    rw [readGroups_succ _ _ hdot, hnumber]
    simp only [hothers]

/-! ### The characters of an address -/

/-- Characters that addresses are made of. -/
def isAddressChar (c : Char) : Bool := isDigit 16 c || c == '.' || c == ':'

theorem isDigit_of_mem_fmtSubslice (hc : c ∈ fmtSubslice gs) :
    isDigit 16 c = true ∨ c = ':' := by
  have hgroup : ∀ g, c ∈ Nat.toDigits 16 g → isDigit 16 c = true :=
    fun g ↦ isDigit_of_mem_toDigits (by decide) (by decide)
  rcases gs with _ | ⟨g, gs⟩
  · exact absurd hc not_mem_nil
  · rw [fmtSubslice, List.mem_append, mem_flatMap] at hc
    rcases hc with hc | ⟨g', -, hc⟩
    · exact Or.inl (hgroup g hc)
    · exact (mem_cons.mp hc).symm.imp_left (hgroup g')

theorem dot_not_mem_fmtSubslice (gs : List ℕ) : '.' ∉ fmtSubslice gs := by
  intro hdot
  exact absurd (isDigit_of_mem_fmtSubslice hdot) (by decide)

/-! ## IPv6 -/

theorem ofSegments_segments (addr : BitVec 128) : ofSegments (segments addr) = addr := by
  have hlt := addr.isLt
  have hvalue : (segments addr).foldl (fun n g ↦ 2 ^ 16 * n + g) 0 = addr.toNat := by
    simp only [segments, foldl_cons, foldl_nil]
    omega
  rw [ofSegments, hvalue, BitVec.ofNat_toNat, BitVec.setWidth_eq]

theorem lt_of_mem_segments {addr : BitVec 128} {g : ℕ} (hg : g ∈ segments addr) : g < 2 ^ 16 := by
  simp only [segments, mem_cons, not_mem_nil, or_false] at hg
  rcases hg with rfl | rfl | rfl | rfl | rfl | rfl | rfl | rfl <;> exact Nat.mod_lt _ (by decide)

/-- The span covers zeros only. -/
def Span.Zeros (gs : List ℕ) (z : Span) : Prop :=
  ∀ j, z.start ≤ j → j < z.start + z.len → gs[j]? = some 0

theorem Span.Zeros.extend (h : z.Zeros gs) (hat : z.len ≠ 0 → z.start + z.len = i)
    (hzero : gs[i]? = some 0) :
    (z.extend i).Zeros gs ∧ (z.extend i).start + (z.extend i).len = i + 1 := by
  by_cases hlen : z.len = 0
  · have hextend : z.extend i = ⟨i, 1⟩ := by rw [Span.extend, if_pos hlen, hlen]
    rw [hextend]
    refine ⟨fun j hstart hj ↦ ?_, rfl⟩
    obtain rfl : i = j := le_antisymm hstart (Nat.le_of_lt_succ hj)
    exact hzero
  · have hextend : z.extend i = ⟨z.start, z.len + 1⟩ := by rw [Span.extend, if_neg hlen]
    have hend := hat hlen
    rw [hextend]
    refine ⟨fun j hstart hj ↦ ?_, by dsimp only; omega⟩
    rcases Nat.lt_or_eq_of_le (show j ≤ i by dsimp only at hj; omega) with hlt | rfl
    · exact h j hstart (by omega)
    · exact hzero

/-- The loop keeps a span of zeros, and the one that ends where it is. -/
theorem zeros_longestZeros {suffix : List ℕ} {longest current : Span} (hsuffix : gs.drop i = suffix)
    (hlongest : longest.Zeros gs) (hcurrent : current.Zeros gs)
    (hat : current.len ≠ 0 → current.start + current.len = i) :
    (longestZeros i suffix longest current).Zeros gs := by
  induction suffix generalizing i longest current with
  | nil => exact hlongest
  | cons g suffix ih =>
    have hnext : gs.drop (i + 1) = suffix := by
      rw [← tail_drop, hsuffix, tail_cons]
    by_cases hg : g = 0
    · have hget : gs[i]? = some 0 := by
        rw [← head?_drop, hsuffix, head?_cons, hg]
      obtain ⟨hzeros, hend⟩ := hcurrent.extend hat hget
      rw [longestZeros, if_pos hg]
      refine ih hnext ?_ hzeros fun _ ↦ hend
      split_ifs
      · exact hzeros
      · exact hlongest
    · rw [longestZeros, if_neg hg]
      exact ih hnext hlongest (fun j _ hj ↦ absurd hj (Nat.not_lt_zero j)) (fun h ↦ absurd rfl h)

theorem zeros_longestZeros_zero (gs : List ℕ) : (longestZeros 0 gs ⟨0, 0⟩ ⟨0, 0⟩).Zeros gs := by
  have hempty : Span.Zeros gs ⟨0, 0⟩ := fun j _ hj ↦ absurd hj (Nat.not_lt_zero j)
  exact zeros_longestZeros rfl hempty hempty fun h ↦ absurd rfl h

/-- A list around a span of zeros. -/
theorem Span.Zeros.eq_append (h : z.Zeros gs) (hlen : 0 < z.len) :
    z.start + z.len ≤ gs.length ∧
      gs = gs.take z.start ++ List.replicate z.len 0 ++ gs.drop (z.start + z.len) := by
  obtain ⟨hlt, -⟩ := List.getElem?_eq_some_iff.mp (h (z.start + z.len - 1) (by omega) (by omega))
  have hmiddle : (gs.drop z.start).take z.len = List.replicate z.len 0 := by
    rw [eq_replicate_iff]
    refine ⟨by rw [length_take, length_drop]; omega, fun g hg ↦ ?_⟩
    obtain ⟨j, hj⟩ := mem_iff_getElem?.mp hg
    rw [getElem?_take, ite_none_right_eq_some, getElem?_drop] at hj
    rw [h (z.start + j) (by omega) (by omega)] at hj
    exact (Option.some.inj hj.2).symm
  refine ⟨by omega, ?_⟩
  rw [← hmiddle, append_assoc, ← drop_drop, take_append_drop, take_append_drop]

theorem readIpv6Addr_of_full (hlength : gs.length = 8) (hgs : ∀ g ∈ gs, g < 2 ^ 16) :
    readIpv6Addr (fmtSubslice gs) = some (ofSegments gs, []) := by
  have hread := readGroups_fmtSubslice (hlength.le) hgs (Or.inl rfl)
    (by rw [append_nil]; exact dot_not_mem_fmtSubslice gs)
  rw [append_nil] at hread
  rw [readIpv6Addr, hread]
  exact if_pos hlength

theorem readIpv6Addr_of_compressed {head tail : List ℕ} (hlength : head.length + tail.length < 8)
    (hhead : ∀ g ∈ head, g < 2 ^ 16) (htail : ∀ g ∈ tail, g < 2 ^ 16) :
    readIpv6Addr (fmtSubslice head ++ "::".toList ++ fmtSubslice tail) =
      some (ofSegments (head ++ List.replicate (8 - head.length - tail.length) 0 ++ tail), []) := by
  have hdot : '.' ∉ fmtSubslice head ++ (':' :: ':' :: fmtSubslice tail) := by
    simp [dot_not_mem_fmtSubslice]
  have hreadHead := readGroups_fmtSubslice (show head.length ≤ 8 by omega) hhead
    (Or.inr ⟨_, rfl⟩) hdot
  have hreadTail := readGroups_fmtSubslice (show tail.length ≤ 8 - (head.length + 1) by omega) htail
    (Or.inl rfl) (by rw [append_nil]; exact dot_not_mem_fmtSubslice tail)
  rw [append_nil] at hreadTail
  have htext : fmtSubslice head ++ "::".toList ++ fmtSubslice tail =
      fmtSubslice head ++ (':' :: ':' :: fmtSubslice tail) := append_assoc _ _ _
  simp only [readIpv6Addr, htext, hreadHead]
  rw [if_neg (by omega), if_neg Bool.false_ne_true]
  simp only [readGivenChar, if_true, bind_some, map_some, hreadTail]

/-- The reader of an IPv4-mapped address finds the IPv4 address after the one group. -/
theorem readIpv6Addr_of_mapped (v4 : BitVec 32) :
    readIpv6Addr ("::ffff:".toList ++ displayIpv4 v4) =
      some (ofSegments (List.replicate 5 0 ++ 0xffff :: ipv4Groups v4), []) := by
  have hhead (t : List Char) : readGroups 0 8 (':' :: t) = ([], false, ':' :: t) := by
    rw [readGroups, if_pos (by decide), readSeparator, if_neg (lt_irrefl 0),
      readIpv4Addr_of_ends (ends_cons (by decide)), readSeparator, if_neg (lt_irrefl 0),
      readNumber_of_ends (ends_cons (by decide))]
  have hipv4 : readGroups 1 6 (':' :: displayIpv4 v4) = (ipv4Groups v4, true, []) := by
    have hread := readIpv4Addr_displayIpv4 v4 (ends_nil 10)
    rw [append_nil] at hread
    have hseparator : readSeparator ':' 1 readIpv4Addr (':' :: displayIpv4 v4) = some (v4, []) :=
      hread
    rw [readGroups, if_pos (by decide), hseparator]
  have htail : readGroups 0 7 ("ffff".toList ++ ':' :: displayIpv4 v4) =
      (0xffff :: ipv4Groups v4, true, []) := by
    have hdigits : "ffff".toList = Nat.toDigits 16 0xffff := by decide
    have hnumber := @readNumber_group (':' :: displayIpv4 v4) 0xffff (by decide)
      (ends_cons (by decide))
    have hnone : readIpv4Addr ("ffff".toList ++ ':' :: displayIpv4 v4) = none :=
      readIpv4Addr_of_ends (ends_cons (by decide))
    rw [readGroups, if_pos (by decide), readSeparator, if_neg (lt_irrefl 0), hnone, readSeparator,
      if_neg (lt_irrefl 0), hdigits, hnumber]
    simp only [hipv4]
  have htext : "::ffff:".toList ++ displayIpv4 v4 =
      ':' :: ':' :: ("ffff".toList ++ ':' :: displayIpv4 v4) := rfl
  simp only [readIpv6Addr, htext, hhead]
  rw [if_neg (by decide), if_neg Bool.false_ne_true]
  simp only [readGivenChar, if_true, bind_some, map_some, length_nil, Nat.zero_add, Nat.reduceSub,
    htail]
  rfl

theorem ofSegments_of_mapped {addr : BitVec 128} {v4 : BitVec 32}
    (h : toIpv4Mapped addr = some v4) :
    ofSegments (List.replicate 5 0 ++ 0xffff :: ipv4Groups v4) = addr := by
  rw [toIpv4Mapped, ite_none_right_eq_some, Option.some.injEq] at h
  obtain ⟨hhigh, rfl⟩ := h
  have hhigh := congrArg BitVec.toNat hhigh
  rw [BitVec.toNat_ushiftRight, Nat.shiftRight_eq_div_pow] at hhigh
  have hvalue : (List.replicate 5 0 ++ 0xffff :: ipv4Groups (addr.setWidth 32)).foldl
      (fun n g ↦ 2 ^ 16 * n + g) 0 = addr.toNat := by
    simp only [ipv4Groups, BitVec.toNat_setWidth, List.replicate, cons_append, nil_append,
      foldl_cons, foldl_nil]
    simp only [BitVec.toNat_ofNat] at hhigh
    omega
  rw [ofSegments, hvalue, BitVec.ofNat_toNat, BitVec.setWidth_eq]

/-- The groups around a run of zeros are read back with the zeros. -/
theorem readIpv6Addr_of_zeros (hlength : gs.length = 8) (hgs : ∀ g ∈ gs, g < 2 ^ 16)
    (hzeros : z.Zeros gs) (hlen : 1 < z.len) :
    readIpv6Addr (fmtSubslice (gs.take z.start) ++ "::".toList ++
      fmtSubslice (gs.drop (z.start + z.len))) = some (ofSegments gs, []) := by
  obtain ⟨hle, heq⟩ := hzeros.eq_append (Nat.zero_lt_of_lt hlen)
  have htake : (gs.take z.start).length = z.start := length_take_of_le (by omega)
  have hdrop : (gs.drop (z.start + z.len)).length = 8 - (z.start + z.len) := by
    rw [length_drop, hlength]
  rw [readIpv6Addr_of_compressed (by omega) (fun g hg ↦ hgs g (mem_of_mem_take hg))
    (fun g hg ↦ hgs g (mem_of_mem_drop hg)), htake, hdrop,
    show 8 - z.start - (8 - (z.start + z.len)) = z.len by omega, ← heq]

/-- **IPv6 addresses are read back.** -/
theorem readIpv6Addr_displayIpv6 (addr : BitVec 128) :
    readIpv6Addr (displayIpv6 addr) = some (addr, []) := by
  have hzeros := zeros_longestZeros_zero (segments addr)
  rw [displayIpv6]
  rcases hmapped : toIpv4Mapped addr with _ | v4
  · dsimp only
    split_ifs with hlen
    · rw [readIpv6Addr_of_zeros rfl (fun g ↦ lt_of_mem_segments) hzeros hlen, ofSegments_segments]
    · rw [readIpv6Addr_of_full rfl fun g ↦ lt_of_mem_segments, ofSegments_segments]
  · dsimp only
    rw [readIpv6Addr_of_mapped, ofSegments_of_mapped hmapped]

/-! ## Whole texts -/

theorem length_toDigits_octet (o : UInt8) : (Nat.toDigits 10 o.toNat).length ≤ 3 :=
  (Nat.length_toDigits_le_iff (by decide) (by decide)).mpr (o.toNat_lt.trans (by decide))

theorem length_displayIpv4 (addr : BitVec 32) : (displayIpv4 addr).length ≤ 15 := by
  obtain ⟨a, b, c, d, -, hdisplay⟩ := displayIpv4_eq addr
  have ha := length_toDigits_octet a
  have hb := length_toDigits_octet b
  have hc := length_toDigits_octet c
  have hd := length_toDigits_octet d
  simp only [hdisplay, flatMap_cons, flatMap_nil, length_append, length_cons, length_nil]
  omega

theorem length_fmtSubslice (hgs : ∀ g ∈ gs, g < 2 ^ 16) :
    (fmtSubslice gs).length ≤ 5 * gs.length - 1 := by
  have hgroup : ∀ g < 2 ^ 16, (Nat.toDigits 16 g).length ≤ 4 :=
    fun g hg ↦ (Nat.length_toDigits_le_iff (by decide) (by decide)).mpr hg
  have hcolons : ∀ gs : List ℕ, (∀ g ∈ gs, g < 2 ^ 16) →
      (gs.flatMap fun g ↦ ':' :: Nat.toDigits 16 g).length ≤ 5 * gs.length := by
    intro gs hgs
    induction gs with
    | nil => exact le_rfl
    | cons g gs ih =>
      obtain ⟨hg, hgs⟩ := forall_mem_cons.mp hgs
      have hlength := hgroup g hg
      have hrest := ih hgs
      simp only [flatMap_cons, length_append, length_cons]
      omega
  rcases gs with _ | ⟨g, gs⟩
  · exact Nat.zero_le _
  · obtain ⟨hg, hgs⟩ := forall_mem_cons.mp hgs
    have hlength := hgroup g hg
    have hrest := hcolons gs hgs
    simp only [fmtSubslice, length_append, length_cons]
    omega

theorem length_displayIpv6 (addr : BitVec 128) : (displayIpv6 addr).length ≤ 39 := by
  have hgs : ∀ g ∈ segments addr, g < 2 ^ 16 := fun g ↦ lt_of_mem_segments
  have hzeros := zeros_longestZeros_zero (segments addr)
  rw [displayIpv6]
  split
  · rename_i v4 hmapped
    have hv4 := length_displayIpv4 v4
    have hcolons : "::ffff:".toList.length = 7 := rfl
    rw [length_append, hcolons]
    omega
  · dsimp only
    generalize longestZeros 0 (segments addr) ⟨0, 0⟩ ⟨0, 0⟩ = z at hzeros
    split_ifs with hlen
    · obtain ⟨hle, -⟩ := hzeros.eq_append (Nat.zero_lt_of_lt hlen)
      have hlength : (segments addr).length = 8 := rfl
      have hhead := length_fmtSubslice fun g hg ↦ hgs g (mem_of_mem_take (i := z.start) hg)
      have htail := length_fmtSubslice fun g hg ↦
        hgs g (mem_of_mem_drop (i := z.start + z.len) hg)
      have hcolons : "::".toList.length = 2 := rfl
      rw [length_take] at hhead
      rw [length_drop] at htail
      rw [length_append, length_append, hcolons]
      omega
    · exact length_fmtSubslice hgs

theorem parseIpv4_displayIpv4 (addr : BitVec 32) : parseIpv4 (displayIpv4 addr) = some addr := by
  have hread := readIpv4Addr_displayIpv4 addr (ends_nil 10)
  rw [append_nil] at hread
  rw [parseIpv4, if_neg (not_lt.mpr (length_displayIpv4 addr)), parseWith, hread]

theorem parseIpv6_displayIpv6 (addr : BitVec 128) : parseIpv6 (displayIpv6 addr) = some addr := by
  rw [parseIpv6, parseWith, readIpv6Addr_displayIpv6]

theorem parseIpv6_displayIpv4 (addr : BitVec 32) : parseIpv6 (displayIpv4 addr) = none := by
  have hread := readIpv4Addr_displayIpv4 addr (ends_nil 10)
  rw [append_nil] at hread
  have hgroups : readGroups 0 8 (displayIpv4 addr) = (ipv4Groups addr, true, []) := by
    rw [readGroups, if_pos (by decide), readSeparator, if_neg (lt_irrefl 0), hread]
  have hnone : readIpv6Addr (displayIpv4 addr) = none := by
    simp only [readIpv6Addr, hgroups]
    rfl
  rw [parseIpv6, parseWith, hnone]

theorem colon_mem_displayIpv6 (addr : BitVec 128) : ':' ∈ displayIpv6 addr := by
  rw [displayIpv6]
  split
  · exact mem_append_left _ (by decide)
  · dsimp only
    split_ifs
    · exact mem_append_left _ (mem_append_right _ (by decide))
    · simp [segments, fmtSubslice]

theorem parseIpv4_displayIpv6 (addr : BitVec 128) : parseIpv4 (displayIpv6 addr) = none :=
  parseIpv4_of_colon (colon_mem_displayIpv6 addr)

/-- The text of an address, `Display` for `IpAddr`. -/
def displayIp : IpAddr → List Char
  | .v4 addr => displayIpv4 addr
  | .v6 addr => displayIpv6 addr

theorem isAddressChar_of_mem_displayIpv4 {addr : BitVec 32} (hc : c ∈ displayIpv4 addr) :
    isAddressChar c = true := by
  have hoctet : ∀ o : UInt8, c ∈ Nat.toDigits 10 o.toNat → isAddressChar c = true := by
    intro o ho
    have hdecimal := isDigit_of_mem_toDigits (by decide) (by decide) ho
    rw [isDigit, toDigit, isSome_filter, Option.any_eq_true] at hdecimal
    obtain ⟨d, hd, hten⟩ := hdecimal
    rw [isAddressChar, isDigit, toDigit, hd, filter_some,
      if_pos (decide_eq_true ((of_decide_eq_true hten).trans (by decide)))]
    rfl
  obtain ⟨a, b, c, d, -, hdisplay⟩ := displayIpv4_eq addr
  rw [hdisplay, List.mem_append, mem_flatMap] at hc
  rcases hc with hc | ⟨o, -, hc⟩
  · exact hoctet a hc
  · rcases mem_cons.mp hc with rfl | hc
    · rfl
    · exact hoctet o hc

theorem isAddressChar_of_mem_fmtSubslice (hc : c ∈ fmtSubslice gs) : isAddressChar c = true := by
  rcases isDigit_of_mem_fmtSubslice hc with hdigit | rfl
  · rw [isAddressChar, hdigit]
    rfl
  · rfl

theorem isAddressChar_of_mem_displayIp {ip : IpAddr} (hc : c ∈ displayIp ip) :
    isAddressChar c = true := by
  rcases ip with addr | addr
  · exact isAddressChar_of_mem_displayIpv4 hc
  · rw [displayIp, displayIpv6] at hc
    split at hc
    · rcases List.mem_append.mp hc with hc | hc
      · exact List.all_eq_true.mp (by decide : "::ffff:".toList.all isAddressChar = true) c hc
      · exact isAddressChar_of_mem_displayIpv4 hc
    · dsimp only at hc
      split_ifs at hc
      · rw [List.mem_append, List.mem_append] at hc
        rcases hc with (hc | hc) | hc
        · exact isAddressChar_of_mem_fmtSubslice hc
        · exact List.all_eq_true.mp (by decide : "::".toList.all isAddressChar = true) c hc
        · exact isAddressChar_of_mem_fmtSubslice hc
      · exact isAddressChar_of_mem_fmtSubslice hc

theorem displayIp_ne_nil (ip : IpAddr) : displayIp ip ≠ [] := by
  intro hnil
  cases ip with
  | v4 addr =>
    have hread := parseIpv4_displayIpv4 addr
    rw [show displayIpv4 addr = [] from hnil, show parseIpv4 [] = none by decide] at hread
    cases hread
  | v6 addr =>
    have hread := parseIpv6_displayIpv6 addr
    rw [show displayIpv6 addr = [] from hnil, show parseIpv6 [] = none by decide] at hread
    cases hread

theorem length_displayIp (ip : IpAddr) : (displayIp ip).length ≤ 39 := by
  rcases ip with addr | addr
  · exact (length_displayIpv4 addr).trans (by decide)
  · exact length_displayIpv6 addr

theorem bounds_of_isAddressChar (h : isAddressChar c = true) : 0x20 < c.toNat ∧ c.toNat < 0x7f := by
  have hle : ∀ a b : Char, a ≤ b → a.toNat ≤ b.toNat := fun a b hab ↦ UInt32.le_iff_toNat_le.mp hab
  rw [isAddressChar, Bool.or_eq_true, Bool.or_eq_true, beq_iff_eq, beq_iff_eq] at h
  rcases h with (hdigit | rfl) | rfl
  · rw [isDigit, toDigit, isSome_filter, Option.any_eq_true] at hdigit
    obtain ⟨d, hd, -⟩ := hdigit
    rw [hexValue] at hd
    split_ifs at hd with hdecimal hlower hupper
    · exact ⟨(by decide : 0x20 < '0'.toNat).trans_le (hle _ _ hdecimal.1),
        (hle _ _ hdecimal.2).trans_lt (by decide)⟩
    · exact ⟨(by decide : 0x20 < 'a'.toNat).trans_le (hle _ _ hlower.1),
        (hle _ _ hlower.2).trans_lt (by decide)⟩
    · exact ⟨(by decide : 0x20 < 'A'.toNat).trans_le (hle _ _ hupper.1),
        (hle _ _ hupper.2).trans_lt (by decide)⟩
  · decide
  · decide

end Hypershunt
