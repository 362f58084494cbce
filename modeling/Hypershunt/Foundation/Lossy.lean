import Hypershunt.Foundation.Text

/-!
# What lossy decoding keeps

`String::from_utf8_lossy` replaces what is not text. It neither makes a NUL character out of other
bytes nor loses one: a byte of zero is no part of a longer encoding, so whatever precedes it is
given up when it comes, and no longer encoding stands for the number zero. Text it leaves as it is
(`fromUtf8Lossy_bytes`).
-/

namespace Hypershunt

namespace Text

open String List

/-- Bytes that can be continued to an encoded character. -/
inductive Partly : List UInt8 → Prop
  | one {a : UInt8} (hlow : 0xc2 ≤ a) (hhigh : a ≤ 0xf4) : Partly [a]
  | two {a b : UInt8} (hlow : 0xe0 ≤ a) (hhigh : a ≤ 0xf4) (hb : isSecond a b = true) :
      Partly [a, b]
  | three {a b c : UInt8} (hlow : 0xf0 ≤ a) (hhigh : a ≤ 0xf4) (hb : isSecond a b = true)
      (hc : isContinuation c = true) : Partly [a, b, c]

theorem ofNat_ne_nul {n : ℕ} (hn : n ≠ 0) (hvalid : n.isValidChar) : Char.ofNat n ≠ '\x00' := by
  intro heq
  have htoNat := toNat_charOfNat hvalid
  rw [heq] at htoNat
  exact hn htoNat.symm

theorem isContinuation_iff {b : UInt8} :
    isContinuation b = true ↔ 0x80 ≤ b.toNat ∧ b.toNat ≤ 0xbf := by
  simp [isContinuation, UInt8.le_iff_toNat_le]

theorem isSecond_iff {a b : UInt8} : isSecond a b = true ↔
    0x80 ≤ b.toNat ∧ b.toNat ≤ 0xbf ∧ (a.toNat = 0xe0 → 0xa0 ≤ b.toNat) ∧
      (a.toNat = 0xed → b.toNat ≤ 0x9f) ∧ (a.toNat = 0xf0 → 0x90 ≤ b.toNat) ∧
      (a.toNat = 0xf4 → b.toNat ≤ 0x8f) := by
  simp only [isSecond, isContinuation, ← UInt8.toNat_inj, UInt8.le_iff_toNat_le, UInt8.reduceToNat]
  split_ifs <;> simp <;> omega

/-- Zero continues nothing, and what is complete is not the NUL character. -/
inductive Continued (pre : List UInt8) (b : UInt8) : Utf8Prefix → Prop
  | complete {c : Char} (hc : c ≠ '\x00') (hb : b ≠ 0) : Continued pre b (.complete c)
  | partly (hpartly : Partly (pre ++ [b])) (hb : b ≠ 0) : Continued pre b .partly
  | invalid : Continued pre b .invalid

theorem ne_zero_of_le {b : UInt8} (h : 0x80 ≤ b.toNat) : b ≠ 0 := by
  rintro rfl
  exact absurd h (by decide)

section Bytes

variable {a b c : UInt8}

theorem utf8Prefix_second (h : isSecond a b = true) :
    utf8Prefix [a, b] = if a.toNat ≤ 0xdf then
      .complete (Char.ofNat (a.toNat % 32 * 64 + b.toNat % 64)) else .partly := by
  simp [utf8Prefix, h, UInt8.le_iff_toNat_le]

theorem utf8Prefix_third (h : isContinuation c = true) :
    utf8Prefix [a, b, c] = if a.toNat ≤ 0xef then
      .complete (Char.ofNat ((a.toNat % 16 * 64 + b.toNat % 64) * 64 + c.toNat % 64))
      else .partly := by
  simp [utf8Prefix, h, UInt8.le_iff_toNat_le]

end Bytes

theorem continued {pre : List UInt8} (hpre : Partly pre) (b : UInt8) :
    Continued pre b (utf8Prefix (pre ++ [b])) := by
  cases hpre with
  | @one a hlow hhigh =>
    simp only [UInt8.le_iff_toNat_le, UInt8.reduceToNat] at hlow
    by_cases hsecond : isSecond a b = true
    · have hb := isSecond_iff.mp hsecond
      rw [singleton_append, utf8Prefix_second hsecond]
      split_ifs with hshort
      · exact .complete (ofNat_ne_nul (by omega) (Or.inl (by omega))) (ne_zero_of_le hb.1)
      · have hlong : 0xe0 ≤ a := UInt8.le_iff_toNat_le.mpr (not_le.mp hshort)
        exact .partly (.two hlong hhigh hsecond) (ne_zero_of_le hb.1)
    · simp [utf8Prefix, hsecond, Continued.invalid]
  | @two a b' hlow hhigh hsecond =>
    simp only [UInt8.le_iff_toNat_le, UInt8.reduceToNat] at hlow
    have hb' := isSecond_iff.mp hsecond
    change Continued _ b (utf8Prefix [a, b', b])
    by_cases hcont : isContinuation b = true
    · have hb := isContinuation_iff.mp hcont
      rw [utf8Prefix_third hcont]
      split_ifs with hshort
      · refine .complete (ofNat_ne_nul (by omega) ?_) (ne_zero_of_le hb.1)
        unfold Nat.isValidChar
        omega
      · have hlong : 0xf0 ≤ a := UInt8.le_iff_toNat_le.mpr (not_le.mp hshort)
        exact .partly (.three hlong hhigh hsecond hcont) (ne_zero_of_le hb.1)
    · simp [utf8Prefix, hcont, Continued.invalid]
  | @three a b' c hlow hhigh hsecond hcont' =>
    simp only [UInt8.le_iff_toNat_le, UInt8.reduceToNat] at hlow hhigh
    have hb' := isSecond_iff.mp hsecond
    have hc := isContinuation_iff.mp hcont'
    by_cases hcont : isContinuation b = true
    · have hb := isContinuation_iff.mp hcont
      simp only [cons_append, nil_append, utf8Prefix, hcont]
      exact .complete (ofNat_ne_nul (by omega) (Or.inr (by omega))) (ne_zero_of_le hb.1)
    · simp [utf8Prefix, hcont, Continued.invalid]

/-- What a first byte is. -/
inductive Started (b : UInt8) : Utf8Prefix → Prop
  | complete {c : Char} (hc : c = '\x00' ↔ b = 0) : Started b (.complete c)
  | partly (hpartly : Partly [b]) (hb : b ≠ 0) : Started b .partly
  | invalid (hb : b ≠ 0) : Started b .invalid

theorem started (b : UInt8) : Started b (utf8Prefix [b]) := by
  rw [utf8Prefix]
  split_ifs with hascii hlead
  · refine .complete ?_
    have hlt : b.toNat < 0x80 := UInt8.lt_iff_toNat_lt.mp hascii
    constructor
    · intro heq
      by_contra hb
      have hne : b.toNat ≠ 0 := fun h ↦ hb (UInt8.toNat_inj.mp h)
      exact ofNat_ne_nul hne (Or.inl (by omega)) heq
    · rintro rfl
      rfl
  · have hlow : 0xc2 ≤ b.toNat := UInt8.le_iff_toNat_le.mp hlead.1
    exact .partly (.one hlead.1 hlead.2) (ne_zero_of_le (by omega))
  · refine .invalid ?_
    rintro rfl
    exact hascii (by decide)

/-- Both for bytes that begin nothing and for those that continue something. -/
theorem nul_mem_lossyChars (bs : List UInt8) :
    ('\x00' ∈ lossyChars [] bs ↔ (0 : UInt8) ∈ bs) ∧
      ∀ pre, Partly pre → ('\x00' ∈ lossyChars pre bs ↔ (0 : UInt8) ∈ bs) := by
  have hrepl : replacement ≠ '\x00' := by decide
  induction bs with
  | nil =>
    refine ⟨by simp [lossyChars], fun pre hpre ↦ ?_⟩
    cases hpre <;> simp [lossyChars, hrepl.symm]
  | cons b bs ih =>
    -- the byte as the first of a character
    have hfresh : ('\x00' ∈ lossyChars [] (b :: bs) ↔ (0 : UInt8) ∈ b :: bs) := by
      rw [lossyChars, mem_cons]
      have hstart := started b
      generalize utf8Prefix [b] = start at hstart ⊢
      cases hstart with
      | complete hc => simp only [mem_cons, ih.1, eq_comm (a := '\x00'), hc, eq_comm (b := b)]
      | partly hpartly hb => simp only [ih.2 _ hpartly, hb.symm, false_or]
      | invalid hb => simp only [mem_cons, ih.1, hrepl.symm, hb.symm, false_or]
    refine ⟨hfresh, fun pre hpre ↦ ?_⟩
    obtain ⟨a, as, rfl⟩ : ∃ a as, pre = a :: as := by
      cases hpre <;> exact ⟨_, _, rfl⟩
    have hcont := continued hpre b
    rw [lossyChars]
    generalize utf8Prefix (a :: as ++ [b]) = next at hcont ⊢
    cases hcont with
    | complete hc hb => simp only [mem_cons, ih.1, hc.symm, hb.symm, false_or]
    | partly hpartly hb => simp only [mem_cons, ih.2 _ hpartly, hb.symm, false_or]
    | invalid =>
      -- the byte is looked at again
      rw [mem_cons, or_iff_right hrepl.symm]
      exact hfresh

theorem nul_mem_fromUtf8Lossy (bs : List UInt8) :
    '\x00' ∈ (fromUtf8Lossy bs).toList ↔ (0 : UInt8) ∈ bs := by
  rw [fromUtf8Lossy, toList_ofList, (nul_mem_lossyChars bs).1]

/-! ## Text is kept -/

section Steps

variable {pre bs : List UInt8} {a b c : UInt8} {char : Char}

theorem lossyChars_partly (h : utf8Prefix (pre ++ [b]) = .partly) :
    lossyChars pre (b :: bs) = lossyChars (pre ++ [b]) bs := by
  cases pre <;> simp_all [lossyChars]

theorem lossyChars_complete (h : utf8Prefix (pre ++ [b]) = .complete char) :
    lossyChars pre (b :: bs) = char :: lossyChars [] bs := by
  cases pre <;> simp_all [lossyChars]

theorem utf8Prefix_lead (hlow : 0xc2 ≤ a.toNat) (hhigh : a.toNat ≤ 0xf4) :
    utf8Prefix [a] = .partly := by
  simp only [utf8Prefix, UInt8.lt_iff_toNat_lt, UInt8.le_iff_toNat_le, UInt8.reduceToNat]
  rw [if_neg (by omega), if_pos ⟨hlow, hhigh⟩]

end Steps

/-- The encoding of a character is read back, by the number of its bytes. -/
theorem lossyChars_utf8EncodeChar (c : Char) (bs : List UInt8) :
    lossyChars [] (utf8EncodeChar c ++ bs) = c :: lossyChars [] bs := by
  have hvalid : c.toNat < 0xd800 ∨ 0xdfff < c.toNat ∧ c.toNat < 0x110000 := c.valid
  have hbyte : ∀ x < 256, (UInt8.ofNat x).toNat = x := fun x hx ↦ by
    rw [UInt8.toNat_ofNat', Nat.mod_eq_of_lt hx]
  have hchar : ∀ n, n = c.toNat → Char.ofNat n = c := by
    rintro n rfl
    exact Char.ofNat_toNat c
  have hval : c.val.toNat = c.toNat := rfl
  rw [utf8EncodeChar, hval]
  generalize c.toNat = n at *
  split_ifs with h1 h2 h3
  · have ha := hbyte n (by omega)
    refine lossyChars_complete ?_
    rw [nil_append, utf8Prefix, hchar _ ha]
    refine if_pos ?_
    rw [UInt8.lt_iff_toNat_lt, ha]
    exact Nat.lt_succ_of_le h1
  · have ha := hbyte (n / 64 % 32 + 192) (by omega)
    have hb := hbyte (n % 64 + 128) (by omega)
    refine (lossyChars_partly (utf8Prefix_lead (by omega) (by omega))).trans
      (lossyChars_complete ((utf8Prefix_second (isSecond_iff.mpr (by omega))).trans ?_))
    rw [if_pos (by omega), hchar _ (by omega)]
  · have ha := hbyte (n / 4096 % 16 + 224) (by omega)
    have hb := hbyte (n / 64 % 64 + 128) (by omega)
    have hc := hbyte (n % 64 + 128) (by omega)
    refine (lossyChars_partly (utf8Prefix_lead (by omega) (by omega))).trans
      ((lossyChars_partly ((utf8Prefix_second (isSecond_iff.mpr (by omega))).trans
        (if_neg (by omega)))).trans
      (lossyChars_complete ((utf8Prefix_third (isContinuation_iff.mpr (by omega))).trans ?_)))
    rw [if_pos (by omega), hchar _ (by omega)]
  · have ha := hbyte (n / 262144 % 8 + 240) (by omega)
    have hb := hbyte (n / 4096 % 64 + 128) (by omega)
    have hc := hbyte (n / 64 % 64 + 128) (by omega)
    have hd := hbyte (n % 64 + 128) (by omega)
    refine (lossyChars_partly (utf8Prefix_lead (by omega) (by omega))).trans
      ((lossyChars_partly ((utf8Prefix_second (isSecond_iff.mpr (by omega))).trans
        (if_neg (by omega)))).trans
      ((lossyChars_partly ((utf8Prefix_third (isContinuation_iff.mpr (by omega))).trans
        (if_neg (by omega)))).trans (lossyChars_complete ?_)))
    change utf8Prefix [_, _, _, _] = _
    rw [utf8Prefix, isContinuation_iff.mpr (by omega), if_neg (by simp), hchar _ (by omega)]

theorem fromUtf8Lossy_bytes (s : String) : fromUtf8Lossy (bytes s) = s := by
  have hchars : ∀ cs : List Char, lossyChars [] (cs.flatMap utf8EncodeChar) = cs := by
    intro cs
    induction cs with
    | nil => rfl
    | cons c cs ih => rw [flatMap_cons, lossyChars_utf8EncodeChar, ih]
  rw [fromUtf8Lossy, bytes_eq_flatMap, hchars, ofList_toList]

end Text

end Hypershunt
