import Hypershunt.Foundation.Lossy
import Hypershunt.Handler.StaticFiles

/-!
# What the document root is joined to

`safe_join` refuses a NUL character, then decodes, then refuses segments that lead to a parent, and
then appends what is left to the root. The order matters. Parents are looked for in the very text
that is appended, so no way of writing them gets through. The NUL character is looked for in the
path before it is decoded, and `%00` gets through (`safe_iff`).
-/

namespace Hypershunt

open List

namespace StaticFiles

open Hypershunt.Path OsString

/-- The root with something harmless behind it. -/
structure Safe (root p : OsString) : Prop where
  /-- Relative components follow those of the root, and none of them is a parent. -/
  below : ∃ rel, components p = components root ++ rel ∧ ".." ∉ rel ∧ "/" ∉ rel
  nul : '\x00' ∉ p.toList
  under : startsWith p root = true

/-- A percent sign and two zeros. -/
def escapedNul : List UInt8 := [0x25, 0x30, 0x30]

/-! ## Escapes -/

theorem forall_byte {P : UInt8 → Prop} (h : ∀ i : Fin 256, P (UInt8.ofNat i)) (b : UInt8) :
    P b := by
  have hb := h ⟨b.toNat, b.toNat_lt⟩
  rwa [UInt8.ofNat_toNat] at hb

theorem hexNibble_spec {b n : UInt8} (h : hexNibble b = some n) :
    n.toNat < 16 ∧ (n = 0 ↔ b = 0x30) ∧ b ≠ 0 ∧ b ≠ 0x25 := by
  have hall : ∀ b : UInt8, (hexNibble b).all (fun n ↦
      decide (n.toNat < 16 ∧ (n = 0 ↔ b = 0x30) ∧ b ≠ 0 ∧ b ≠ 0x25)) = true :=
    forall_byte (by decide +kernel)
  have hb := hall b
  rw [h, Option.all_some, decide_eq_true_eq] at hb
  exact hb

theorem shiftLeft_or_eq_zero_iff {h l : UInt8} (hh : h.toNat < 16) (hl : l.toNat < 16) :
    h <<< 4 ||| l = 0 ↔ h = 0 ∧ l = 0 := by
  have hall : ∀ i j : Fin 16, (UInt8.ofNat i <<< 4 ||| UInt8.ofNat j = 0 ↔
      UInt8.ofNat i = 0 ∧ UInt8.ofNat j = 0) := by decide
  have hboth := hall ⟨h.toNat, hh⟩ ⟨l.toNat, hl⟩
  simp only [UInt8.ofNat_toNat] at hboth
  exact hboth

theorem escaped_spec {b high low byte : UInt8} (h : escaped b high low = some byte) :
    b = 0x25 ∧ (byte = 0 ↔ high = 0x30 ∧ low = 0x30) ∧ high ≠ 0 ∧ high ≠ 0x25 ∧ low ≠ 0 ∧
      low ≠ 0x25 := by
  rw [escaped, Option.ite_none_right_eq_some] at h
  obtain ⟨hb, h⟩ := h
  split at h
  · rename_i nh nl hnh hnl
    obtain ⟨hlt, hzero, hne, hpercent⟩ := hexNibble_spec hnh
    obtain ⟨hlt', hzero', hne', hpercent'⟩ := hexNibble_spec hnl
    rw [Option.some.injEq] at h
    refine ⟨hb, ?_, hne, hpercent, hne', hpercent'⟩
    rw [← h, shiftLeft_or_eq_zero_iff hlt hlt', hzero, hzero']
  · cases h

theorem escaped_nul : escaped 0x25 0x30 0x30 = some 0 := by decide

/-- **Decoding makes a zero byte of `%00` only**: the digits of an escape are no percent signs. -/
theorem zero_mem_decodeBytes (bs : List UInt8) :
    (0 : UInt8) ∈ decodeBytes bs ↔ 0 ∈ bs ∨ escapedNul <:+: bs := by
  induction bs using decodeBytes.induct with
  | case1 b high low rest byte hescape ih =>
    obtain ⟨rfl, hzero, hne, hpercent, hne', hpercent'⟩ := escaped_spec hescape
    have hhere : escapedNul <+: 0x25 :: high :: low :: rest ↔ byte = 0 := by
      rw [hzero, escapedNul]
      simp only [cons_prefix_cons, nil_prefix, and_true, true_and]
      exact ⟨fun h ↦ ⟨h.1.symm, h.2.symm⟩, fun h ↦ ⟨h.1.symm, h.2.symm⟩⟩
    have hhigh : ¬escapedNul <+: high :: low :: rest := by
      rw [escapedNul, cons_prefix_cons]
      exact fun h ↦ hpercent h.1.symm
    have hlow : ¬escapedNul <+: low :: rest := by
      rw [escapedNul, cons_prefix_cons]
      exact fun h ↦ hpercent' h.1.symm
    rw [decodeBytes, hescape]
    simp only [mem_cons, ih, infix_cons_iff, hhere, hhigh, hlow, false_or, hne.symm, hne'.symm,
      eq_comm (a := (0 : UInt8)) (b := byte)]
    simp only [show ¬((0 : UInt8) = 0x25) by decide, false_or]
    exact or_left_comm
  | case2 b high low rest hplain ih =>
    have hhere : ¬escapedNul <+: b :: high :: low :: rest := by
      rw [escapedNul]
      simp only [cons_prefix_cons, nil_prefix, and_true]
      rintro ⟨rfl, rfl, rfl⟩
      rw [escaped_nul] at hplain
      cases hplain
    rw [decodeBytes, hplain]
    simp only [mem_cons (b := b), ih, infix_cons_iff (a := b), hhere, false_or, or_assoc]
  | case3 bs hshort =>
    have hlong : ¬escapedNul <:+: bs := by
      intro hinfix
      have hlength : 3 ≤ bs.length := hinfix.length_le
      rcases bs with _ | ⟨b, _ | ⟨high, _ | ⟨low, rest⟩⟩⟩
      · exact absurd hlength (by decide)
      · exact absurd hlength (by simp)
      · exact absurd hlength (by simp)
      · exact hshort b high low rest rfl
    rw [decodeBytes, or_iff_left hlong]
    exact hshort

/-! ## Slashes in front -/

theorem mem_split_of_trimStartMatches {t s : String} {c : Char}
    (h : t ∈ Text.split c (Text.trimStartMatches (· == c) s)) : t ∈ Text.split c s := by
  have hchars : ∀ cs : List Char, t ∈ Text.split c (String.ofList (cs.dropWhile (· == c))) →
      t ∈ Text.split c (String.ofList cs) := by
    intro cs
    induction cs with
    | nil => exact id
    | cons d cs ih =>
      rw [dropWhile_cons]
      split_ifs with hd
      · intro hmem
        have hcons : String.ofList (d :: cs) = "" ++ String.singleton c ++ String.ofList cs := by
          rw [eq_of_beq hd, ← String.toList_inj]
          simp
        rw [hcons, Text.split_append_singleton_append]
        exact mem_append_right _ (ih hmem)
      · exact id
  have hmem := hchars s.toList h
  rwa [String.ofList_toList] at hmem

theorem mem_trimStartMatches_iff {s : String} {c d : Char} (hne : d ≠ c) :
    d ∈ (Text.trimStartMatches (· == c) s).toList ↔ d ∈ s.toList := by
  have hfront : d ∉ s.toList.takeWhile (· == c) := fun hmem ↦
    hne (eq_of_beq (mem_takeWhile_imp (p := (· == c)) hmem))
  rw [Text.trimStartMatches, String.toList_ofList]
  conv_rhs => rw [← takeWhile_append_dropWhile (p := (· == c)) (l := s.toList),
    List.mem_append, or_iff_right hfront]

theorem isAbsolute_ofStr_trimStartMatches (s : String) :
    isAbsolute (ofStr (Text.trimStartMatches (· == '/') s)) = false := by
  rw [Text.trimStartMatches]
  rcases hcs : s.toList.dropWhile (· == '/') with _ | ⟨d, ds⟩
  · decide
  · have hd : d ≠ '/' := by
      have hhead := head?_dropWhile_not (· == '/') s.toList
      rw [hcs] at hhead
      simpa using hhead
    have hcons : String.ofList (d :: ds) = String.singleton d ++ String.ofList ds := by
      rw [← String.toList_inj]
      simp
    rw [hcons, ofStr_append, isAbsolute, Bool.eq_false_iff, Ne, Text.startsWith_iff,
      String.toList_append]
    intro hprefix
    have hnil : (ofStr (String.singleton d)).toList ≠ [] := by
      rw [ofStr, String.toList_ofList, Text.bytes_eq_flatMap, String.toList_singleton,
        flatMap_singleton, Ne, map_eq_nil_iff]
      exact String.utf8EncodeChar_ne_nil
    obtain ⟨e, es, hes⟩ := exists_cons_of_ne_nil hnil
    rw [hes, cons_append] at hprefix
    have he : '/' = e := (cons_prefix_cons.mp hprefix).1
    have hmem : '/' ∈ (ofStr (String.singleton d)).toList := by
      rw [hes, he]
      exact mem_cons_self
    rw [mem_toList_ofStr (by decide), String.toList_singleton, mem_singleton] at hmem
    exact hd hmem.symm

/-! ## Joining -/

section Joining

variable {p q : OsString}

theorem not_slash_mem_names : "/" ∉ names q := by
  intro hmem
  exact Text.not_mem_of_mem_split (mem_filter.mp hmem).1 (by decide)

/-- Joining a relative path adds its names. An empty path is replaced, and then a leading dot is a
component. -/
theorem exists_components_join (p : OsString) (hq : isAbsolute q = false) :
    ∃ rel, components (join p q) = components p ++ rel ∧
      ∀ c ∈ rel, c = "." ∨ c ∈ names q := by
  rcases eq_or_ne p "" with rfl | hp
  · have hjoin : join "" q = q := by
      rw [join, if_neg (by simp [hq]), if_pos (Or.inl String.toList_empty),
        String.empty_append]
    have hempty : components "" = [] := by decide
    refine ⟨components q, by rw [hjoin, hempty, nil_append], fun c hc ↦ ?_⟩
    rw [components, if_neg (by simp [hq]), List.mem_append] at hc
    refine hc.imp_left fun hdot ↦ ?_
    split_ifs at hdot
    · exact mem_singleton.mp hdot
    · cases hdot
  · exact ⟨names q, components_join hp hq, fun c ↦ Or.inr⟩

theorem nul_mem_join (hq : isAbsolute q = false) :
    '\x00' ∈ (join p q).toList ↔ '\x00' ∈ p.toList ∨ '\x00' ∈ q.toList := by
  rw [join, if_neg (by simp [hq])]
  split_ifs
  · rw [String.toList_append, List.mem_append]
  · rw [String.toList_append, String.toList_append, List.mem_append, List.mem_append,
      or_iff_left (show '\x00' ∉ "/".toList by decide)]

end Joining

/-- A zero byte is in the decoded path exactly when it is escaped in the path. -/
theorem nul_mem_percentDecode {uriPath : String} (h : '\x00' ∉ uriPath.toList) :
    '\x00' ∈ (percentDecode uriPath).toList ↔ escapedNul <:+: Text.bytes uriPath := by
  have hplain : (0 : UInt8) ∉ Text.bytes uriPath := by
    intro hmem
    rw [← mem_toList_ofStr (s := uriPath) (c := '\x00') (by decide), ofStr,
      String.toList_ofList] at h
    exact h (mem_map.mpr ⟨0, hmem, by decide⟩)
  rw [percentDecode, Text.nul_mem_fromUtf8Lossy, zero_mem_decodeBytes, or_iff_right hplain]

/-- **A path that is accepted is safe unless it has an escaped NUL character.** -/
theorem safe_iff {root p : OsString} {uriPath : String} (h : safeJoin root uriPath = some p) :
    Safe root p ↔ '\x00' ∉ root.toList ∧ ¬escapedNul <:+: Text.bytes uriPath := by
  rw [safeJoin, Option.ite_none_left_eq_some, Option.ite_none_left_eq_some, Option.some.injEq] at h
  obtain ⟨hnul, hparent, rfl⟩ := h
  have hrelative := isAbsolute_ofStr_trimStartMatches (percentDecode uriPath)
  have hnuls : '\x00' ∈ (join root (ofStr
      (Text.trimStartMatches (· == '/') (percentDecode uriPath)))).toList ↔
      '\x00' ∈ root.toList ∨ escapedNul <:+: Text.bytes uriPath := by
    rw [nul_mem_join hrelative, mem_toList_ofStr (by decide),
      mem_trimStartMatches_iff (by decide), nul_mem_percentDecode hnul]
  rw [← not_or, ← hnuls]
  refine ⟨Safe.nul, fun hclean ↦ ?_⟩
  obtain ⟨rel, hrel, hnames⟩ := exists_components_join root hrelative
  refine ⟨⟨rel, hrel, fun hmem ↦ ?_, fun hmem ↦ ?_⟩, hclean, ?_⟩
  · -- the parent would be a segment of the decoded path
    have hname := (hnames _ hmem).resolve_left (by decide)
    have hsegment := (mem_filter.mp hname).1
    rw [split_ofStr] at hsegment
    obtain ⟨segment, hin, hencoded⟩ := mem_map.mp hsegment
    rw [← ofStr_parent, ofStr_inj] at hencoded
    exact hparent (mem_split_of_trimStartMatches (hencoded ▸ hin))
  · exact not_slash_mem_names ((hnames _ hmem).resolve_left (by decide))
  · rw [startsWith, hrel, isPrefixOf_iff_prefix]
    exact prefix_append _ _

theorem safe_of_repeated_slashes :
    safeJoin "/srv" "//a/%2e/b%C3%28" = some "/srv/a/./b\u00ef\u00bf\u00bd(" ∧
      Safe "/srv" "/srv/a/./b\u00ef\u00bf\u00bd(" :=
  have hjoin : safeJoin "/srv" "//a/%2e/b%C3%28" = some "/srv/a/./b\u00ef\u00bf\u00bd(" := by
    decide +kernel
  ⟨hjoin, (safe_iff hjoin).mpr ⟨by decide +kernel, by decide +kernel⟩⟩

/-- The escape is looked for before there is one. -/
theorem escaped_nul_joined :
    safeJoin "/srv" "/a%00" = some "/srv/a\x00" ∧ '\x00' ∈ ("/srv/a\x00" : OsString).toList ∧
      ¬Safe "/srv" "/srv/a\x00" :=
  ⟨by decide +kernel, by decide, fun h ↦ h.nul (by decide)⟩

end StaticFiles

end Hypershunt
