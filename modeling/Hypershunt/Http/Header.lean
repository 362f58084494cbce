import Hypershunt.Foundation.Text

/-!
# Header maps

A header map is a multimap from lower-case names to values. It is kept as the list of its
`(name, value)` lines, and only what the server observes is modelled: the values of a name in
order, whether a name occurs, and the three ways of writing one.

A header value is a byte string. Byte `b` is represented by the character with code `b`, so a
value is a `String`; the values that can be read back as text are those of visible ASCII.
-/

namespace Hypershunt

open List Option Text

/-- Header names compare in lower case, which is how they are written here. -/
abbrev HeaderName := String

/-- The characters of a token. -/
def isTokenChar (c : Char) : Bool := c.isAlphanum || "!#$%&'*+-.^_`|~".toList.contains c

/-- `HeaderName::from_bytes` on text that is in lower case already: a token of limited length. -/
def HeaderName.fromBytes (s : String) : Option HeaderName :=
  if s ≠ "" ∧ s.toList.all isTokenChar ∧ s.toList.length < 2 ^ 16 then some s else none

/-- A header value, one character for each byte. -/
abbrev HeaderValue := String

/-- Visible ASCII and the horizontal tab: what a value that reads back as text contains. -/
def visibleAscii (c : Char) : Bool := (0x20 ≤ c.toNat && c.toNat < 0x7f) || c == '\t'

theorem visibleAscii_of_isDigit {c : Char} (hc : c.isDigit = true) : visibleAscii c = true := by
  obtain ⟨hlow, hhigh⟩ := Char.isDigit_iff_toNat.mp hc
  have hlow : 0x20 ≤ c.toNat := le_trans (by decide) hlow
  have hhigh : c.toNat < 0x7f := lt_of_le_of_lt hhigh (by decide)
  simp only [visibleAscii, hlow, hhigh, decide_true, Bool.and_self, Bool.true_or]

/-- No control character but the horizontal tab: what a value may contain. -/
def validByte (b : UInt8) : Bool := (0x20 ≤ b.toNat && b.toNat != 0x7f) || b.toNat == 0x09

/-- The characters of a text that can become a value. -/
def validChar (c : Char) : Bool := (0x20 ≤ c.toNat && c.toNat != 0x7f) || c == '\t'

namespace HeaderValue

def ofBytes (bs : List UInt8) : HeaderValue := String.ofList (bs.map fun b ↦ Char.ofNat b.toNat)

/-- `HeaderValue::from_str`, also `str::parse`. Bytes outside ASCII are valid. -/
def fromStr (s : String) : Option HeaderValue :=
  if (bytes s).all validByte then some (ofBytes (bytes s)) else none

/-- `HeaderValue::to_str`: a value reads back as text when it is visible ASCII. -/
def toStr (v : HeaderValue) : Option String := if v.toList.all visibleAscii then some v else none

theorem all_validByte_utf8EncodeChar (c : Char) :
    (String.utf8EncodeChar c).all validByte = validChar c := by
  by_cases hc : c.toNat < 128
  · have hbyte : (UInt8.ofNat c.toNat).toNat = c.toNat := by
      rw [UInt8.toNat_ofNat', Nat.mod_eq_of_lt (hc.trans (by decide))]
    have htab : (c.toNat == 0x09) = (c == '\t') := by
      rw [Bool.eq_iff_iff, beq_iff_eq, beq_iff_eq]
      exact ⟨fun h ↦ Char.toNat_inj.mp h, fun h ↦ h ▸ rfl⟩
    rw [utf8EncodeChar_of_lt hc, all_cons, all_nil, Bool.and_true, validByte, hbyte, htab,
      validChar]
  · rw [not_lt] at hc
    have hvalid : validChar c = true := by
      have hne : c.toNat ≠ 0x7f := by omega
      have hle : 0x20 ≤ c.toNat := by omega
      simp [validChar, hne, hle]
    rw [hvalid, List.all_eq_true]
    intro b hb
    have hge := le_of_mem_utf8EncodeChar hc hb
    have hne : b.toNat ≠ 0x7f := by omega
    have hle : 0x20 ≤ b.toNat := by omega
    simp [validByte, hne, hle]

theorem all_validByte_bytes (s : String) :
    (bytes s).all validByte = s.toList.all validChar := by
  rw [bytes_eq_flatMap, all_flatMap]
  simp only [all_validByte_utf8EncodeChar]

variable {s : String} {v : HeaderValue}

theorem fromStr_eq_some_iff :
    fromStr s = some v ↔ s.toList.all validChar = true ∧ ofBytes (bytes s) = v := by
  rw [fromStr, ite_none_right_eq_some, Option.some.injEq, all_validByte_bytes]

theorem ofBytes_of_ascii (h : ∀ c ∈ s.toList, c.toNat < 128) : ofBytes (bytes s) = s := by
  have hbytes : bytes s = s.toList.map fun c ↦ UInt8.ofNat c.toNat := by
    conv_lhs => rw [← String.ofList_toList (s := s)]
    exact bytes_ofList h
  have hchar : ∀ c ∈ s.toList, Char.ofNat (UInt8.ofNat c.toNat).toNat = c := by
    intro c hc
    rw [UInt8.toNat_ofNat', Nat.mod_eq_of_lt ((h c hc).trans (by decide)), Char.ofNat_toNat]
  rw [ofBytes, hbytes, List.map_map]
  conv_rhs => rw [← String.ofList_toList (s := s)]
  congr 1
  exact (map_congr_left hchar).trans (List.map_id' _)

theorem fromStr_of_visible (h : s.toList.all visibleAscii = true) : fromStr s = some s := by
  have hchar : ∀ c ∈ s.toList, c.toNat < 128 ∧ validChar c = true := by
    intro c hc
    have hc := List.all_eq_true.mp h c hc
    simp only [visibleAscii, Bool.or_eq_true, Bool.and_eq_true, decide_eq_true_eq, beq_iff_eq] at hc
    rcases hc with ⟨hlow, hhigh⟩ | rfl
    · have hne : c.toNat ≠ 0x7f := by omega
      refine ⟨by omega, ?_⟩
      simp [validChar, hlow, hne]
    · exact ⟨by decide, by decide⟩
  rw [fromStr_eq_some_iff]
  exact ⟨List.all_eq_true.mpr fun c hc ↦ (hchar c hc).2, ofBytes_of_ascii fun c hc ↦ (hchar c hc).1⟩

private theorem le_of_valid_of_not_visible {c : Char} (hvalid : validChar c = true)
    (hinvisible : visibleAscii c = false) : 128 ≤ c.toNat := by
  simp only [validChar, Bool.or_eq_true, Bool.and_eq_true, decide_eq_true_eq, bne_iff_ne] at hvalid
  simp only [visibleAscii, Bool.or_eq_false_iff, Bool.and_eq_false_imp, decide_eq_true_eq,
    decide_eq_false_iff_not] at hinvisible
  rcases hvalid with ⟨hlow, hne⟩ | htab
  · have hhigh := hinvisible.1 hlow
    omega
  · rw [hinvisible.2] at htab
    cases htab

private theorem not_visible_of_le {b : UInt8} (hb : 128 ≤ b.toNat) :
    ¬visibleAscii (Char.ofNat b.toNat) = true := by
  have htoNat := toNat_charOfNat_byte b
  intro hv
  simp only [visibleAscii, Bool.or_eq_true, Bool.and_eq_true, decide_eq_true_eq, htoNat,
    beq_iff_eq] at hv
  rcases hv with ⟨-, hhigh⟩ | htab
  · omega
  · rw [htab] at htoNat
    have htab : ('\t').toNat = 9 := by decide
    omega

theorem toStr_eq_some_iff : toStr v = some s ↔ v.toList.all visibleAscii = true ∧ v = s := by
  rw [toStr, ite_none_right_eq_some, Option.some.injEq]

/-- Only visible ASCII reads back: other characters are valid, but their bytes not visible. -/
theorem toStr_of_fromStr (h : fromStr s = some v) :
    toStr v = if s.toList.all visibleAscii then some s else none := by
  by_cases hs : s.toList.all visibleAscii = true
  · rw [fromStr_of_visible hs, Option.some.injEq] at h
    rw [← h, toStr]
  · obtain ⟨hvalid, rfl⟩ := fromStr_eq_some_iff.mp h
    rw [if_neg hs, toStr, if_neg]
    intro hv
    obtain ⟨c, hc, hinvisible⟩ : ∃ c ∈ s.toList, visibleAscii c = false := by
      simpa using hs
    have hge : 128 ≤ c.toNat :=
      le_of_valid_of_not_visible (List.all_eq_true.mp hvalid c hc) hinvisible
    obtain ⟨b, hb⟩ := exists_mem_of_ne_nil _ String.utf8EncodeChar_ne_nil
    have hmem : b ∈ bytes s := by
      rw [bytes_eq_flatMap]
      exact mem_flatMap.mpr ⟨c, hc, hb⟩
    have hbyte : visibleAscii (Char.ofNat b.toNat) = true := by
      refine List.all_eq_true.mp hv _ ?_
      rw [ofBytes, String.toList_ofList]
      exact List.mem_map_of_mem hmem
    exact not_visible_of_le (le_of_mem_utf8EncodeChar hge hb) hbyte

end HeaderValue

/-- The header lines of a message, in order. -/
abbrev HeaderMap := List (HeaderName × HeaderValue)

namespace HeaderMap

/-- The first value of a name. -/
def get (h : HeaderMap) (n : HeaderName) : Option HeaderValue := h.lookup n

/-- Every value of a name, in order. -/
def getAll (h : HeaderMap) (n : HeaderName) : List HeaderValue :=
  (h.filter fun l ↦ l.1 == n).map Prod.snd

def containsKey (h : HeaderMap) (n : HeaderName) : Bool := h.any fun l ↦ l.1 == n

/-- Remove every line of a name. -/
def remove (h : HeaderMap) (n : HeaderName) : HeaderMap := h.filter fun l ↦ !(l.1 == n)

/-- Add one more line. -/
def append (h : HeaderMap) (n : HeaderName) (v : HeaderValue) : HeaderMap := h ++ [(n, v)]

/-- Make `v` the only value of the name. -/
def insert (h : HeaderMap) (n : HeaderName) (v : HeaderValue) : HeaderMap :=
  append (remove h n) n v

variable {h : HeaderMap} {n n' : HeaderName} {v v' : HeaderValue}

/-! ### The values of one name -/

theorem mem_iff_mem_getAll : (n, v) ∈ h ↔ v ∈ h.getAll n := by
  simp [getAll]

theorem get_eq_head? : h.get n = (h.getAll n).head? := by
  induction h with
  | nil => rfl
  | cons l h ih =>
    obtain ⟨m, w⟩ := l
    unfold get getAll at ih ⊢
    by_cases hm : m = n
    · rw [lookup_cons, filter_cons_of_pos (by simp [hm]), hm, beq_self_eq_true]
      rfl
    · rw [lookup_cons, filter_cons_of_neg (by simp [hm]), beq_false_of_ne (Ne.symm hm), ih]

theorem get_eq_none_iff : h.get n = none ↔ h.getAll n = [] := by
  rw [get_eq_head?, head?_eq_none_iff]

theorem containsKey_eq_isSome_get : h.containsKey n = (h.get n).isSome := by
  rw [get_eq_head?, getAll, head?_map, isSome_map, head?_filter, Bool.eq_iff_iff, find?_isSome,
    containsKey, List.any_eq_true]

@[simp] theorem getAll_remove_self : (h.remove n).getAll n = [] := by
  rw [getAll, remove, List.filter_filter]
  simp

theorem getAll_remove_of_ne (hn : n' ≠ n) : (h.remove n).getAll n' = h.getAll n' := by
  rw [getAll, remove, List.filter_filter, getAll]
  congr 1
  refine filter_congr fun l _ ↦ ?_
  by_cases hl : l.1 = n'
  · simp [hl, hn]
  · simp [hl]

theorem getAll_append (n' : HeaderName) :
    (h.append n v).getAll n' = h.getAll n' ++ if n = n' then [v] else [] := by
  rw [getAll, append, filter_append, map_append, ← getAll]
  by_cases hn : n = n' <;> simp [hn]

@[simp] theorem getAll_insert_self : (h.insert n v).getAll n = [v] := by
  rw [insert, getAll_append, getAll_remove_self, if_pos rfl, nil_append]

theorem getAll_insert_of_ne (hn : n' ≠ n) : (h.insert n v).getAll n' = h.getAll n' := by
  rw [insert, getAll_append, if_neg hn.symm, append_nil, getAll_remove_of_ne hn]

theorem get_insert_of_ne (hn : n' ≠ n) : (h.insert n v).get n' = h.get n' := by
  rw [get_eq_head?, getAll_insert_of_ne hn, get_eq_head?]

/-- Lines that are replaced name by name: those of a name in the list, if the condition is met. -/
theorem getAll_foldl_of_local {g : HeaderMap → HeaderName → HeaderMap} {p : Prop} [Decidable p]
    {new : List HeaderValue} (hself : ∀ h, (g h n).getAll n = if p then new else h.getAll n)
    (hother : ∀ h m, n ≠ m → (g h m).getAll n = h.getAll n) (names : List HeaderName)
    (h : HeaderMap) :
    (names.foldl g h).getAll n = if n ∈ names ∧ p then new else h.getAll n := by
  induction names generalizing h with
  | nil => rw [foldl_nil, if_neg fun hmem ↦ not_mem_nil hmem.1]
  | cons m names ih =>
    rw [foldl_cons, ih]
    by_cases hnm : n = m
    · subst hnm
      rw [hself]
      by_cases hp : p <;> simp [hp]
    · rw [hother h m hnm]
      simp only [mem_cons, hnm, false_or]

end HeaderMap

end Hypershunt
