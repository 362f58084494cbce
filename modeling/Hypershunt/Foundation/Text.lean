import Mathlib.Algebra.Order.Ring.Nat
import Mathlib.Data.List.Basic
import Mathlib.Data.List.DropRight
import Mathlib.Data.List.Infix
import Mathlib.Data.List.TakeWhile
import Mathlib.Data.String.Basic

/-!
# Text

The operations of Rust's `str` that the server parses messages with. They work on the list of
characters, so that they can be evaluated, and so that what occurs in a piece of a string can be
traced to the string: `mem_toList_of_mem_split` and its companions say that no operation invents a
character.
-/

namespace Hypershunt

open List Option

namespace Text

/-- `char::is_whitespace`: the characters with the Unicode property `White_Space`. -/
def isWhitespace (c : Char) : Bool :=
  let n := c.toNat
  (9 ≤ n && n ≤ 13) || n == 0x20 || n == 0x85 || n == 0xa0 || n == 0x1680 ||
    (0x2000 ≤ n && n ≤ 0x200a) || n == 0x2028 || n == 0x2029 || n == 0x202f || n == 0x205f ||
    n == 0x3000

/-- `trim_start_matches` with a character test. -/
def trimStartMatches (p : Char → Bool) (s : String) : String :=
  String.ofList (s.toList.dropWhile p)

def trimEndMatches (p : Char → Bool) (s : String) : String :=
  String.ofList (s.toList.reverse.dropWhile p).reverse

def trimStart (s : String) : String := trimStartMatches isWhitespace s

def trim (s : String) : String := trimEndMatches isWhitespace (trimStart s)

/-- `trim_matches` with a character. -/
def trimMatches (c : Char) (s : String) : String :=
  trimEndMatches (· == c) (trimStartMatches (· == c) s)

/-- `split` at a character; a string without it is one piece. -/
def split (c : Char) (s : String) : List String := (s.toList.splitOn c).map String.ofList

/-- `split_once`: the text before and after the first occurrence. -/
def splitOnce (c : Char) (s : String) : Option (String × String) :=
  match s.toList.dropWhile (· != c) with
  | [] => none
  | _ :: rest => some (String.ofList (s.toList.takeWhile (· != c)), String.ofList rest)

def stripPrefix (p s : String) : Option String :=
  if p.toList.isPrefixOf s.toList then some (String.ofList (s.toList.drop p.toList.length))
  else none

def startsWith (p s : String) : Bool := p.toList.isPrefixOf s.toList

/-- `contains` with a string. -/
def contains (p s : String) : Bool := s.toList.tails.any fun t ↦ p.toList.isPrefixOf t

/-- `to_ascii_lowercase`. -/
def toAsciiLowercase (s : String) : String := String.ofList (s.toList.map Char.toLower)

def eqIgnoreAsciiCase (s t : String) : Bool := toAsciiLowercase s == toAsciiLowercase t

/-- The number that some digits are, without overflow. -/
def digitsU64 (digits : List Char) : Option ℕ :=
  if digits = [] ∨ ¬digits.all Char.isDigit then none
  else
    let n := digits.foldl (fun n c ↦ 10 * n + (c.toNat - '0'.toNat)) 0
    if n < 2 ^ 64 then some n else none

/-- `str::parse::<u64>`: an optional plus sign and at least one digit. -/
def parseU64 (s : String) : Option ℕ :=
  match s.toList with
  | '+' :: rest => digitsU64 rest
  | cs => digitsU64 cs

/-- `str::parse::<u16>`: the same with a smaller bound. -/
def parseU16 (s : String) : Option UInt16 :=
  ((parseU64 s).filter fun n ↦ decide (n < 2 ^ 16)).map UInt16.ofNat

/-- `splitn` at a character: as many pieces at most, the last of them with all that is left. -/
def splitn (c : Char) : ℕ → String → List String
  | 0, _ => []
  | 1, s => [s]
  | n + 2, s => match splitOnce c s with
    | some (piece, rest) => piece :: splitn c (n + 1) rest
    | none => [s]

/-- The words between white space. -/
def splitWhitespace (s : String) : List String :=
  ((s.toList.splitOnP isWhitespace).filter fun word ↦ !word.isEmpty).map String.ofList

/-- The pieces between separators without the white space around them, if anything is left. -/
def splitTrimmed (c : Char) (s : String) : List String :=
  ((split c s).map trim).filter fun piece ↦ !piece.isEmpty

/-- A line without the carriage return before its end. -/
def stripCarriageReturn (line : String) : String :=
  if line.toList.getLast? = some '\r' then String.ofList line.toList.dropLast else line

/-- `str::lines`: what is left after the last line feed is a line unless it is empty. -/
def lines (s : String) : List String :=
  let pieces := split '\n' s
  pieces.dropLast.map stripCarriageReturn ++
    (pieces.getLast?.filter fun piece ↦ !piece.isEmpty).toList

/-- Two upper-case hexadecimal digits. -/
def hexByte (b : UInt8) : String :=
  String.ofList [(Nat.digitChar (b.toNat / 16)).toUpper, (Nat.digitChar (b.toNat % 16)).toUpper]

/-- The UTF-8 encoding. -/
def bytes (s : String) : List UInt8 := s.toUTF8.data.toList

/-- `str::from_utf8`. -/
def fromUtf8 (bs : List UInt8) : Option String := String.fromUTF8? ⟨bs.toArray⟩

/-- What the bytes of an encoded character that have been read so far amount to. -/
inductive Utf8Prefix
  | complete (c : Char)
  | partly
  | invalid

/-- The bytes that continue an encoded character. -/
def isContinuation (b : UInt8) : Bool := 0x80 ≤ b && b ≤ 0xbf

/-- Second bytes, without overlong encodings, surrogates and numbers past the last character. -/
def isSecond (a b : UInt8) : Bool :=
  if a = 0xe0 then 0xa0 ≤ b && b ≤ 0xbf
  else if a = 0xed then 0x80 ≤ b && b ≤ 0x9f
  else if a = 0xf0 then 0x90 ≤ b && b ≤ 0xbf
  else if a = 0xf4 then 0x80 ≤ b && b ≤ 0x8f
  else isContinuation b

def utf8Prefix : List UInt8 → Utf8Prefix
  | [a] =>
    if a < 0x80 then .complete (Char.ofNat a.toNat)
    else if 0xc2 ≤ a ∧ a ≤ 0xf4 then .partly
    else .invalid
  | [a, b] =>
    if !isSecond a b then .invalid
    else if a ≤ 0xdf then .complete (Char.ofNat (a.toNat % 32 * 64 + b.toNat % 64))
    else .partly
  | [a, b, c] =>
    if !isContinuation c then .invalid
    else if a ≤ 0xef then
      .complete (Char.ofNat ((a.toNat % 16 * 64 + b.toNat % 64) * 64 + c.toNat % 64))
    else .partly
  | [a, b, c, d] =>
    if !isContinuation d then .invalid
    else .complete (Char.ofNat
      (((a.toNat % 8 * 64 + b.toNat % 64) * 64 + c.toNat % 64) * 64 + d.toNat % 64))
  | _ => .invalid

/-- The replacement character. -/
def replacement : Char := '\uFFFD'

/-- Decode bytes, the first of which begin a character. What cannot be continued is replaced, and
the byte that does not continue it is looked at again. -/
def lossyChars : List UInt8 → List UInt8 → List Char
  | [], [] => []
  | _ :: _, [] => [replacement]
  | [], b :: bs => match utf8Prefix [b] with
    | .complete c => c :: lossyChars [] bs
    | .partly => lossyChars [b] bs
    | .invalid => replacement :: lossyChars [] bs
  | a :: as, b :: bs => match utf8Prefix (a :: as ++ [b]) with
    | .complete c => c :: lossyChars [] bs
    | .partly => lossyChars (a :: as ++ [b]) bs
    | .invalid => replacement :: match utf8Prefix [b] with
      | .complete c => c :: lossyChars [] bs
      | .partly => lossyChars [b] bs
      | .invalid => replacement :: lossyChars [] bs

/-- `String::from_utf8_lossy`. -/
def fromUtf8Lossy (bs : List UInt8) : String := String.ofList (lossyChars [] bs)

/-! ## Where characters come from -/

variable {c d : Char} {s t k v : String}

theorem mem_intercalate_of_mem {sep p : List Char} {ps : List (List Char)} (hp : p ∈ ps)
    (hd : d ∈ p) : d ∈ sep.intercalate ps := by
  induction ps with
  | nil => exact absurd hp not_mem_nil
  | cons p' ps ih =>
    cases ps with
    | nil =>
      rw [mem_singleton] at hp
      rwa [intercalate_singleton, ← hp]
    | cons p'' ps =>
      rw [intercalate_cons_cons, append_assoc, List.mem_append, List.mem_append]
      rcases mem_cons.mp hp with rfl | hp
      · exact Or.inl hd
      · exact Or.inr (Or.inr (ih hp))

theorem mem_of_mem_intercalate {sep : List Char} {ps : List (List Char)}
    (hd : d ∈ sep.intercalate ps) : d ∈ sep ∨ ∃ p ∈ ps, d ∈ p := by
  induction ps with
  | nil => exact absurd hd not_mem_nil
  | cons p ps ih =>
    rcases ps with _ | ⟨p', ps⟩
    · rw [intercalate_singleton] at hd
      exact Or.inr ⟨p, mem_cons_self, hd⟩
    · rw [intercalate_cons_cons, append_assoc, List.mem_append, List.mem_append] at hd
      rcases hd with hd | hd | hd
      · exact Or.inr ⟨p, mem_cons_self, hd⟩
      · exact Or.inl hd
      · exact (ih hd).imp_right fun ⟨q, hq, hd⟩ ↦ ⟨q, mem_cons_of_mem p hq, hd⟩

theorem mem_toList_of_mem_split (ht : t ∈ split c s) (hd : d ∈ t.toList) : d ∈ s.toList := by
  obtain ⟨p, hp, rfl⟩ := List.mem_map.mp ht
  rw [String.toList_ofList] at hd
  have hmem : d ∈ [c].intercalate (s.toList.splitOn c) := mem_intercalate_of_mem hp hd
  rwa [intercalate_splitOn] at hmem

theorem mem_toList_of_mem_trim (hd : d ∈ (trim s).toList) : d ∈ s.toList := by
  rw [trim, trimEndMatches, String.toList_ofList, mem_reverse] at hd
  have hstart := (dropWhile_sublist _).mem hd
  rw [mem_reverse, trimStart, trimStartMatches, String.toList_ofList] at hstart
  exact (dropWhile_sublist _).mem hstart

theorem eq_append_of_splitOnce (h : splitOnce c s = some (k, v)) :
    s = k ++ String.singleton c ++ v := by
  unfold splitOnce at h
  split at h
  case h_1 => cases h
  case h_2 first rest hrest =>
    rw [some.injEq, Prod.mk.injEq] at h
    obtain ⟨rfl, rfl⟩ := h
    have hfirst : first = c := by
      have hhead := head?_dropWhile_not (· != c) s.toList
      rw [hrest] at hhead
      simpa using hhead
    rw [← String.toList_inj, String.toList_append, String.toList_append, String.toList_singleton,
      String.toList_ofList, String.toList_ofList, append_assoc, singleton_append, ← hfirst, ← hrest,
      hfirst, takeWhile_append_dropWhile]

theorem mem_toList_of_splitOnce (h : splitOnce c s = some (k, v)) :
    (∀ d ∈ k.toList, d ∈ s.toList) ∧ ∀ d ∈ v.toList, d ∈ s.toList := by
  rw [eq_append_of_splitOnce h]
  simp +contextual

theorem length_lt_of_splitOnce (h : splitOnce c s = some (k, v)) : v.length < s.length := by
  rw [eq_append_of_splitOnce h, String.length_append, String.length_append, String.length_singleton]
  omega

/-- Two texts that end at the same separator, which they do not contain, are the same. -/
theorem eq_of_append_cons_eq {l l' r r' : List Char} (hl : c ∉ l) (hl' : c ∉ l')
    (h : l ++ c :: r = l' ++ c :: r') : l = l' ∧ r = r' := by
  have hstem : ∀ {l r : List Char}, c ∉ l → (l ++ c :: r).takeWhile (· != c) = l := by
    intro l r hc
    rw [takeWhile_append_of_pos fun d hd ↦ bne_iff_ne.mpr (ne_of_mem_of_not_mem hd hc),
      takeWhile_cons_of_neg (by simp), append_nil]
  obtain rfl : l = l' := by rw [← hstem (r := r) hl, h, hstem hl']
  exact ⟨rfl, (List.cons.inj (append_cancel_left h)).2⟩

theorem splitOnce_eq_none (hc : c ∉ s.toList) : splitOnce c s = none := by
  have hdrop : s.toList.dropWhile (· != c) = [] := by
    rw [dropWhile_eq_nil_iff]
    exact fun d hd ↦ bne_iff_ne.mpr (ne_of_mem_of_not_mem hd hc)
  rw [splitOnce, hdrop]

theorem splitOnce_eq_some (hs : s.toList = k.toList ++ c :: v.toList) (hc : c ∉ k.toList) :
    splitOnce c s = some (k, v) := by
  have hall : ∀ d ∈ k.toList, (d != c) = true :=
    fun d hd ↦ bne_iff_ne.mpr (ne_of_mem_of_not_mem hd hc)
  have hdrop : s.toList.dropWhile (· != c) = c :: v.toList := by
    rw [hs, dropWhile_append_of_pos hall, dropWhile_cons_of_neg (by simp)]
  have htake : s.toList.takeWhile (· != c) = k.toList := by
    rw [hs, takeWhile_append_of_pos hall, takeWhile_cons_of_neg (by simp), append_nil]
  rw [splitOnce, hdrop, htake]
  simp only [String.ofList_toList]

variable {pieces : List String} {cs : List Char} {p : String} {n : ℕ}

theorem splitn_intercalate (hne : pieces ≠ []) (hc : ∀ p ∈ pieces, c ∉ p.toList) :
    splitn c pieces.length ((String.singleton c).intercalate pieces) = pieces := by
  induction pieces with
  | nil => exact absurd rfl hne
  | cons p pieces ih =>
    obtain ⟨hp, hpieces⟩ := forall_mem_cons.mp hc
    rcases pieces with _ | ⟨p', pieces⟩
    · rw [String.intercalate_singleton]
      rfl
    · have hsplit : splitOnce c ((String.singleton c).intercalate (p :: p' :: pieces)) =
          some (p, (String.singleton c).intercalate (p' :: pieces)) := by
        refine splitOnce_eq_some ?_ hp
        rw [String.intercalate_cons_cons, String.toList_append, String.toList_append,
          String.toList_singleton, append_assoc, singleton_append]
      rw [length_cons, length_cons, splitn, hsplit]
      exact congrArg (p :: ·) (ih (cons_ne_nil _ _) hpieces)

theorem split_append_singleton_append (c : Char) (s t : String) :
    split c (s ++ String.singleton c ++ t) = split c s ++ split c t := by
  rw [split, String.toList_append, String.toList_append, String.toList_singleton, append_assoc,
    singleton_append, splitOn_append_cons_self, map_append]
  rfl

/-- A character in front that is not the separator belongs to the first piece. -/
theorem split_singleton_append (hd : d ≠ c) (s : String) :
    split c (String.singleton d ++ s) = (split c s).modifyHead (String.singleton d ++ ·) := by
  rw [split, split, String.toList_append, String.toList_singleton, singleton_append,
    splitOn_cons_eq_if_modifyHead, if_neg (by simpa using hd)]
  rcases s.toList.splitOn c with _ | ⟨piece, pieces⟩
  · rfl
  · have hpiece : String.ofList (d :: piece) = String.singleton d ++ String.ofList piece := by
      rw [← String.toList_inj, String.toList_append, String.toList_ofList, String.toList_singleton,
        String.toList_ofList, singleton_append]
    rw [modifyHead_cons, map_cons, map_cons, modifyHead_cons, hpiece]

theorem not_mem_of_mem_split (ht : t ∈ split c s) : c ∉ t.toList := by
  obtain ⟨piece, hpiece, rfl⟩ := List.mem_map.mp ht
  rw [String.toList_ofList]
  clear ht
  revert piece
  induction s.toList with
  | nil =>
    intro piece hpiece
    rw [splitOn_nil, mem_singleton] at hpiece
    exact hpiece ▸ not_mem_nil
  | cons d l ih =>
    intro piece hpiece
    rw [splitOn_cons_eq_if_modifyHead] at hpiece
    split_ifs at hpiece with hd
    · rcases mem_cons.mp hpiece with rfl | hpiece
      · exact not_mem_nil
      · exact ih piece hpiece
    · rcases hl : l.splitOn c with _ | ⟨first, rest⟩
      · exact absurd hl (splitOn_ne_nil c l)
      · rw [hl] at hpiece ih
        rcases mem_cons.mp hpiece with rfl | hpiece
        · rw [mem_cons, not_or]
          exact ⟨fun hc ↦ hd (by simp [hc]), ih first mem_cons_self⟩
        · exact ih piece (mem_cons_of_mem first hpiece)

theorem split_intercalate (hne : pieces ≠ []) (hc : ∀ p ∈ pieces, c ∉ p.toList) :
    split c ((String.singleton c).intercalate pieces) = pieces := by
  have hsplit : ([c].intercalate (pieces.map String.toList)).splitOn c =
      pieces.map String.toList := by
    refine splitOn_intercalate c ?_ (by simpa using hne)
    intro l hl
    obtain ⟨p, hp, rfl⟩ := List.mem_map.mp hl
    exact hc p hp
  rw [split, String.toList_intercalate, String.toList_singleton, hsplit, List.map_map]
  exact (map_congr_left fun p _ ↦ String.ofList_toList).trans (List.map_id' pieces)

/-- Trimmed text has nothing to trim: what is cut off at the end leaves the beginning as it is. -/
theorem trim_trim (s : String) : trim (trim s) = trim s := by
  have hstart : trimStart (trim s) = trim s := by
    rw [trimStart, trimStartMatches, ← String.toList_inj, String.toList_ofList,
      dropWhile_eq_self_iff]
    intro hl hhead
    have hstem : (trim s).toList <+: (trimStart s).toList := by
      rw [trim, trimEndMatches, String.toList_ofList]
      exact rdropWhile_prefix isWhitespace _
    have hl' : 0 < (s.toList.dropWhile isWhitespace).length := by
      rw [trimStart, trimStartMatches, String.toList_ofList] at hstem
      exact lt_of_lt_of_le hl hstem.length_le
    rw [hstem.getElem hl] at hhead
    simp only [trimStart, trimStartMatches, String.toList_ofList] at hhead
    exact dropWhile_get_zero_not _ s.toList hl' hhead
  rw [trim, hstart, trim, trimEndMatches, trimEndMatches, String.toList_ofList, reverse_reverse,
    dropWhile_idempotent]

theorem mem_splitTrimmed (ht : t ∈ splitTrimmed c s) : t ≠ "" ∧ trim t = t ∧ c ∉ t.toList := by
  obtain ⟨hmem, hne⟩ := mem_filter.mp ht
  obtain ⟨piece, hpiece, rfl⟩ := List.mem_map.mp hmem
  refine ⟨by simpa using hne, trim_trim piece, fun hc ↦ ?_⟩
  exact not_mem_of_mem_split hpiece (mem_toList_of_mem_trim hc)

/-- Joined pieces that are neither empty nor have white space around them come apart again. -/
theorem splitTrimmed_intercalate (h : ∀ p ∈ pieces, p ≠ "" ∧ trim p = p ∧ c ∉ p.toList) :
    splitTrimmed c ((String.singleton c).intercalate pieces) = pieces := by
  rcases eq_or_ne pieces [] with rfl | hne
  · rfl
  · have hsplit : split c ((String.singleton c).intercalate pieces) = pieces :=
      split_intercalate hne fun p hp ↦ (h p hp).2.2
    have htrim : pieces.map trim = pieces :=
      (map_congr_left fun p hp ↦ (h p hp).2.1).trans (List.map_id' pieces)
    rw [splitTrimmed, hsplit, htrim, filter_eq_self]
    intro p hp
    simpa using (h p hp).1

theorem trim_singleton_append (hd : isWhitespace d = true) (s : String) :
    trim (String.singleton d ++ s) = trim s := by
  rw [trim, trimStart, trimStartMatches, String.toList_append, String.toList_singleton,
    singleton_append, dropWhile_cons_of_pos hd]
  rfl

/-- A property of all characters of a given text, evaluated on the text: the conclusion itself could
also be decided by going through all characters there are. -/
theorem forall_mem_of_all {p : Char → Prop} [DecidablePred p]
    (h : (cs.all fun c ↦ decide (p c)) = true) : ∀ c ∈ cs, p c :=
  fun c hc ↦ of_decide_eq_true (List.all_eq_true.mp h c hc)

theorem startsWith_iff : startsWith p s = true ↔ p.toList <+: s.toList := by
  rw [startsWith, isPrefixOf_iff_prefix]

theorem eq_append_of_stripPrefix (h : stripPrefix p s = some t) : s = p ++ t := by
  rw [stripPrefix, ite_none_right_eq_some, some.injEq, isPrefixOf_iff_prefix] at h
  obtain ⟨⟨rest, hrest⟩, rfl⟩ := h
  rw [← String.toList_inj, String.toList_append, String.toList_ofList, ← hrest, drop_left]

theorem startsWith_trans {q : String} (hpq : startsWith p q = true) (hq : startsWith q s = true) :
    startsWith p s = true := by
  rw [startsWith_iff] at hpq hq ⊢
  exact hpq.trans hq

theorem utf8ByteSize_lt_of_startsWith (h : startsWith p s = true) (hne : p ≠ s) :
    p.utf8ByteSize < s.utf8ByteSize := by
  obtain ⟨rest, hrest⟩ := startsWith_iff.mp h
  have hs : s = p ++ String.ofList rest := by
    rw [← String.toList_inj, String.toList_append, String.toList_ofList, hrest]
  have hpos : (String.ofList rest).utf8ByteSize ≠ 0 := by
    rw [Ne, String.utf8ByteSize_eq_zero_iff]
    intro hempty
    rw [hempty, String.append_empty] at hs
    exact hne hs.symm
  rw [hs, String.utf8ByteSize_append]
  omega

theorem contains_iff_mem (ht : t.toList = [c]) : contains t s = true ↔ c ∈ s.toList := by
  rw [contains, List.any_eq_true, ht]
  simp only [mem_tails, isPrefixOf_iff_prefix]
  rw [← singleton_infix_iff, infix_iff_prefix_suffix]
  exact exists_congr fun t ↦ and_comm

/-! ## Numbers and bytes -/

theorem parseU64_of_plus {rest : List Char} (h : s.toList = '+' :: rest) :
    parseU64 s = digitsU64 rest := by
  rw [parseU64, h]
  rfl

theorem parseU64_of_head (h : s.toList = cs) (hne : cs.head? ≠ some '+') :
    parseU64 s = digitsU64 cs := by
  rw [parseU64, h]
  split
  · exact absurd rfl hne
  · rfl

theorem exists_digitsU64_of_parseU64 (h : parseU64 s = some n) :
    ∃ cs, digitsU64 cs = some n ∧ ∀ d ∈ s.toList, d = '+' ∨ d ∈ cs := by
  rw [parseU64] at h
  split at h
  · rename_i rest hs
    exact ⟨rest, h, fun d hd ↦ mem_cons.mp (hs ▸ hd)⟩
  · exact ⟨_, h, fun d hd ↦ Or.inr hd⟩

theorem digitsU64_spec (h : digitsU64 cs = some n) :
    n < 2 ^ 64 ∧ ∀ d ∈ cs, d.isDigit = true := by
  rw [digitsU64, ite_none_left_eq_some, not_or, not_not, List.all_eq_true] at h
  obtain ⟨⟨-, hdigits⟩, hn⟩ := h
  rw [ite_none_right_eq_some, some.injEq] at hn
  exact ⟨hn.2 ▸ hn.1, hdigits⟩

theorem parseU64_lt (h : parseU64 s = some n) : n < 2 ^ 64 := by
  obtain ⟨cs, hcs, -⟩ := exists_digitsU64_of_parseU64 h
  exact (digitsU64_spec hcs).1

theorem isDigit_of_parseU64 (h : parseU64 s = some n) (hd : d ∈ s.toList) :
    d = '+' ∨ d.isDigit = true := by
  obtain ⟨cs, hcs, hmem⟩ := exists_digitsU64_of_parseU64 h
  exact (hmem d hd).imp_right ((digitsU64_spec hcs).2 d)

theorem isDigit_of_parseU16 {n : UInt16} (h : parseU16 s = some n) (hd : d ∈ s.toList) :
    d = '+' ∨ d.isDigit = true := by
  obtain ⟨m, hm, -⟩ := map_eq_some_iff.mp h
  exact isDigit_of_parseU64 (filter_eq_some_iff.mp hm).1 hd

theorem isDigit_of_mem_repr (hd : d ∈ (Nat.repr n).toList) : d.isDigit = true := by
  rw [Nat.toList_repr] at hd
  exact Nat.isDigit_of_mem_toDigits (by decide) (by decide) hd

theorem toNat_charOfNat (h : n.isValidChar) : (Char.ofNat n).toNat = n := by
  rw [Char.ofNat, dif_pos h]
  rfl

theorem toNat_charOfNat_byte (b : UInt8) : (Char.ofNat b.toNat).toNat = b.toNat :=
  toNat_charOfNat (Or.inl (b.toNat_lt.trans (by decide)))

theorem parseU64_repr (hn : n < 2 ^ 64) : parseU64 (Nat.repr n) = some n := by
  have hdigit : ∀ c ∈ Nat.toDigits 10 n, c.isDigit = true :=
    fun c ↦ Nat.isDigit_of_mem_toDigits (by decide) (by decide)
  have hvalue : (Nat.toDigits 10 n).foldl (fun n c ↦ 10 * n + (c.toNat - '0'.toNat)) 0 = n :=
    Nat.ofDigitChars_toDigits (by decide) (by decide)
  have hplus : (Nat.toDigits 10 n).head? ≠ some '+' := fun h ↦
    absurd (hdigit '+' (mem_of_head? h)) (by decide)
  rw [parseU64_of_head Nat.toList_repr hplus, digitsU64, if_neg, hvalue, if_pos hn]
  rintro (hnil | hall)
  · exact Nat.toDigits_ne_nil hnil
  · exact hall (List.all_eq_true.mpr hdigit)

theorem parseU16_repr (n : UInt16) : parseU16 (Nat.repr n.toNat) = some n := by
  rw [parseU16, parseU64_repr (n.toNat_lt.trans (by decide)), filter_some,
    if_pos (decide_eq_true n.toNat_lt), map_some, UInt16.ofNat_toNat]

theorem bytes_append (s t : String) : bytes (s ++ t) = bytes s ++ bytes t := by
  rw [bytes, String.toUTF8, String.toByteArray_append, ByteArray.data_append, Array.toList_append]
  rfl

theorem fromUtf8_bytes (s : String) : fromUtf8 (bytes s) = some s := by
  rw [fromUtf8, bytes, Array.toArray_toList]
  exact dif_pos s.isValidUTF8

theorem bytes_of_fromUtf8 {bs : List UInt8} (h : fromUtf8 bs = some s) : bytes s = bs := by
  rw [fromUtf8, String.fromUTF8?] at h
  split_ifs at h
  cases h
  rfl

theorem bytes_eq_flatMap (s : String) : bytes s = s.toList.flatMap String.utf8EncodeChar := by
  conv_lhs => rw [← String.ofList_toList (s := s)]
  rw [bytes, String.toUTF8, String.toByteArray_ofList, List.utf8Encode, data_toByteArray]

theorem utf8EncodeChar_of_lt (hc : c.toNat < 128) :
    String.utf8EncodeChar c = [UInt8.ofNat c.toNat] :=
  if_pos (Nat.le_of_lt_succ hc)

theorem le_of_mem_utf8EncodeChar (hc : 128 ≤ c.toNat) {b : UInt8}
    (hb : b ∈ String.utf8EncodeChar c) : 128 ≤ b.toNat := by
  have hbyte : ∀ n m, n < 64 → 128 ≤ m → m + n < 256 → 128 ≤ (UInt8.ofNat (n + m)).toNat := by
    intro n m hn hm hlt
    rw [UInt8.toNat_ofNat', Nat.mod_eq_of_lt (by omega)]
    omega
  have hlow : ¬c.val.toNat ≤ 0x7f := Nat.not_le_of_gt hc
  simp only [String.utf8EncodeChar, if_neg hlow] at hb
  split at hb
  · simp only [mem_cons, not_mem_nil, or_false] at hb
    rcases hb with rfl | rfl
    all_goals exact hbyte _ _ (by omega) (by omega) (by omega)
  split at hb
  · simp only [mem_cons, not_mem_nil, or_false] at hb
    rcases hb with rfl | rfl | rfl
    all_goals exact hbyte _ _ (by omega) (by omega) (by omega)
  · simp only [mem_cons, not_mem_nil, or_false] at hb
    rcases hb with rfl | rfl | rfl | rfl
    all_goals exact hbyte _ _ (by omega) (by omega) (by omega)

theorem bytes_ofList (h : ∀ c ∈ cs, c.toNat < 128) :
    bytes (String.ofList cs) = cs.map fun c ↦ UInt8.ofNat c.toNat := by
  rw [bytes_eq_flatMap, String.toList_ofList]
  induction cs with
  | nil => rfl
  | cons c cs ih =>
    obtain ⟨hc, hcs⟩ := forall_mem_cons.mp h
    rw [flatMap_cons, utf8EncodeChar_of_lt hc, map_cons, ih hcs, singleton_append]

theorem utf8ByteSize_ofList (h : ∀ c ∈ cs, c.toNat < 128) :
    (String.ofList cs).utf8ByteSize = cs.length := by
  have hlength := congrArg List.length (bytes_ofList h)
  rw [length_map] at hlength
  exact hlength

/-! ## Upper and lower case -/

theorem isAlpha_iff_toNat :
    c.isAlpha = true ↔ 65 ≤ c.toNat ∧ c.toNat ≤ 90 ∨ 97 ≤ c.toNat ∧ c.toNat ≤ 122 := by
  have hdef : c.isAlpha = (decide (65 ≤ c.val ∧ c.val ≤ 90) ||
      (decide (97 ≤ c.val) && decide (c.val ≤ 122))) := rfl
  rw [hdef, Bool.or_eq_true, Bool.and_eq_true, decide_eq_true_eq, decide_eq_true_eq,
    decide_eq_true_eq]
  exact Iff.rfl

theorem toNat_toUpper (c : Char) :
    c.toUpper.toNat = if 97 ≤ c.toNat ∧ c.toNat ≤ 122 then c.toNat - 32 else c.toNat := by
  unfold Char.toUpper
  split
  · rename_i h
    have hrange : 97 ≤ c.toNat ∧ c.toNat ≤ 122 := h
    rw [if_pos hrange]
    have hval : (c.val + ('A'.val - 'a'.val)).toNat = (c.toNat + (2 ^ 32 - 32)) % 2 ^ 32 :=
      UInt32.toNat_add ..
    change (c.val + ('A'.val - 'a'.val)).toNat = _
    omega
  · rename_i h
    exact (if_neg h).symm

theorem toNat_toLower (c : Char) :
    c.toLower.toNat = if 65 ≤ c.toNat ∧ c.toNat ≤ 90 then c.toNat + 32 else c.toNat := by
  unfold Char.toLower
  split
  · rename_i h
    have hrange : 65 ≤ c.toNat ∧ c.toNat ≤ 90 := h
    rw [if_pos hrange]
    have hval : (c.val + ('a'.val - 'A'.val)).toNat = (c.toNat + 32) % 2 ^ 32 :=
      UInt32.toNat_add ..
    change (c.val + ('a'.val - 'A'.val)).toNat = _
    omega
  · rename_i h
    exact (if_neg h).symm

/-- Changing the case of a character makes a letter of a letter. -/
theorem toLower_eq_or (c : Char) :
    c.toLower = c ∨ c.isAlpha = true ∧ c.toLower.isAlpha = true := by
  have hnat := toNat_toLower c
  split_ifs at hnat with hupper
  · right
    rw [isAlpha_iff_toNat, isAlpha_iff_toNat]
    omega
  · exact Or.inl (Char.toNat_inj.mp hnat)

theorem toLower_eq_iff (hd : d.isAlpha = false) : c.toLower = d ↔ c = d := by
  rcases toLower_eq_or c with h | ⟨halpha, hlower⟩
  · rw [h]
  · refine iff_of_false ?_ ?_
    · rintro rfl
      exact absurd hlower (by rw [hd]; decide)
    · rintro rfl
      exact absurd halpha (by rw [hd]; decide)

theorem mem_map_toLower_iff (hd : d.isAlpha = false) : d ∈ cs.map Char.toLower ↔ d ∈ cs := by
  rw [List.mem_map]
  constructor
  · rintro ⟨c, hc, hlower⟩
    exact (toLower_eq_iff hd).mp hlower ▸ hc
  · exact fun h ↦ ⟨d, h, (toLower_eq_iff hd).mpr rfl⟩

theorem head?_map_toLower_iff (hd : d.isAlpha = false) :
    (cs.map Char.toLower).head? = some d ↔ cs.head? = some d := by
  rcases cs with _ | ⟨c, cs⟩
  · exact Iff.rfl
  · rw [map_cons, head?_cons, head?_cons, some.injEq, some.injEq, toLower_eq_iff hd]

/-- Upper case and lower case tell the same characters apart. -/
theorem toUpper_eq_toUpper_iff : c.toUpper = d.toUpper ↔ c.toLower = d.toLower := by
  rw [← Char.toNat_inj, ← Char.toNat_inj, toNat_toUpper, toNat_toUpper, toNat_toLower,
    toNat_toLower]
  split_ifs <;> omega

theorem isAlphanum_toLower (c : Char) : c.toLower.isAlphanum = c.isAlphanum := by
  rcases toLower_eq_or c with h | ⟨halpha, hlower⟩
  · rw [h]
  · rw [Char.isAlphanum, Char.isAlphanum, halpha, hlower, Bool.true_or, Bool.true_or]

theorem isDigit_eq_false_of_isAlpha (h : c.isAlpha = true) : c.isDigit = false := by
  rw [isAlpha_iff_toNat] at h
  rw [Bool.eq_false_iff, Ne, Char.isDigit_iff_toNat]
  have h0 : '0'.toNat = 48 := rfl
  have h9 : '9'.toNat = 57 := rfl
  omega

theorem isDigit_toLower (c : Char) : c.toLower.isDigit = c.isDigit := by
  rcases toLower_eq_or c with h | ⟨halpha, hlower⟩
  · rw [h]
  · rw [isDigit_eq_false_of_isAlpha halpha, isDigit_eq_false_of_isAlpha hlower]

theorem toLower_of_isDigit (h : c.isDigit = true) : c.toLower = c := by
  rcases toLower_eq_or c with hc | ⟨halpha, -⟩
  · exact hc
  · rw [isDigit_eq_false_of_isAlpha halpha] at h
    exact nomatch h

theorem map_toLower_of_all_isDigit (h : cs.all Char.isDigit = true) : cs.map Char.toLower = cs := by
  rw [List.all_eq_true] at h
  exact (map_congr_left fun c hc ↦ toLower_of_isDigit (h c hc)).trans (List.map_id' cs)

theorem digitsU64_map_toLower (cs : List Char) :
    digitsU64 (cs.map Char.toLower) = digitsU64 cs := by
  by_cases hdigits : cs.all Char.isDigit = true
  · rw [map_toLower_of_all_isDigit hdigits]
  · have hlower : ¬ (cs.map Char.toLower).all Char.isDigit = true := by
      rwa [List.all_map, funext isDigit_toLower (f := Char.isDigit ∘ Char.toLower)]
    rw [digitsU64, if_pos (Or.inr hlower), digitsU64, if_pos (Or.inr hdigits)]

theorem parseU64_toAsciiLowercase (s : String) : parseU64 (toAsciiLowercase s) = parseU64 s := by
  have hlower : (toAsciiLowercase s).toList = s.toList.map Char.toLower := String.toList_ofList
  by_cases hplus : s.toList.head? = some '+'
  · obtain ⟨rest, hrest⟩ := head?_eq_some_iff.mp hplus
    rw [hrest, map_cons] at hlower
    rw [parseU64_of_plus hlower, parseU64_of_plus hrest, digitsU64_map_toLower]
  · have hne : (s.toList.map Char.toLower).head? ≠ some '+' :=
      (head?_map_toLower_iff rfl).not.mpr hplus
    rw [parseU64_of_head hlower hne, parseU64_of_head rfl hplus, digitsU64_map_toLower]

theorem parseU16_toAsciiLowercase (s : String) : parseU16 (toAsciiLowercase s) = parseU16 s := by
  rw [parseU16, parseU64_toAsciiLowercase, parseU16]

end Text

end Hypershunt
