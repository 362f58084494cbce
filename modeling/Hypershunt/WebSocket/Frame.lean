import Hypershunt.Foundation.BigEndian
import Hypershunt.Foundation.Fallible
import Hypershunt.Foundation.Framing
import Mathlib.Data.List.GetD
import Mathlib.Data.Nat.Bitwise

/-!
# WebSocket frames

The frame headers of `handler/proxy/upgrade/ws.rs`, read and written, and the frames of RFC 6455 as
an encoding of their own: a first byte, a length in one of three forms, an optional masking key, and
the payload, which is masked if there is a key.

`framing` says that a stream of such frames can be taken apart in one way only. The parser of the
source agrees with it (`parseHeader_cases`): on any buffer it finds the head of a frame, or asks for
more, or has seen a length that no continuation makes legal.
-/

namespace Hypershunt

open List Option

namespace WebSocket

open BigEndian

/-! ## Masking -/

abbrev Key := Fin 4 → UInt8

/-- The key that leaves everything as it is. -/
def Key.zero : Key := fun _ ↦ 0

/-- The four bytes from position `i` on as a key. -/
def keyAt (buf : List UInt8) (i : ℕ) : Key := fun j ↦ (buf.drop i).getD j 0

/-- XOR a piece of a payload that starts at `offset` with the repeated key. -/
def xorFrom (key : Key) (offset : ℕ) (bs : List UInt8) : List UInt8 :=
  bs.mapIdx fun i b ↦ b ^^^ key (Fin.ofNat 4 (offset + i))

@[simp] theorem length_xorFrom (key : Key) (offset : ℕ) (bs : List UInt8) :
    (xorFrom key offset bs).length = bs.length := length_mapIdx

@[simp] theorem xorFrom_nil (key : Key) (offset : ℕ) : xorFrom key offset [] = [] := rfl

/-- The offset is what lets a payload be masked piece by piece. -/
theorem xorFrom_append (key : Key) (offset : ℕ) (bs bs' : List UInt8) :
    xorFrom key offset (bs ++ bs') =
      xorFrom key offset bs ++ xorFrom key (offset + bs.length) bs' := by
  simp only [xorFrom, mapIdx_append, Nat.add_assoc, Nat.add_comm bs.length]

theorem xorFrom_xorFrom (key key' : Key) (offset : ℕ) (bs : List UInt8) :
    xorFrom key offset (xorFrom key' offset bs) =
      xorFrom (fun j ↦ key' j ^^^ key j) offset bs := by
  simp only [xorFrom, mapIdx_mapIdx, Function.comp_def, UInt8.xor_assoc]

@[simp] theorem xorFrom_zero (offset : ℕ) (bs : List UInt8) : xorFrom .zero offset bs = bs := by
  refine ext_getElem (length_xorFrom ..) fun i _ _ ↦ ?_
  simp only [xorFrom, getElem_mapIdx, Key.zero, UInt8.xor_zero]

/-! ## Headers in the source -/

/-- Everything on the wire before the payload. -/
structure FrameHeader where
  /-- The first byte: FIN, the reserved bits and the opcode. -/
  finRsvOpcode : UInt8
  masked : Bool
  /-- Meaningful only if the frame is masked. -/
  maskKey : Key
  payloadLen : ℕ
  headerLen : ℕ

def highBitSet : IoError := ⟨.invalidData, "ws: 64-bit frame length has high bit set"⟩

/-- The length of the payload and the position after it, for the code of the second byte. -/
def payloadLenAt (buf : List UInt8) (len7 : UInt8) : Except IoError (Option (ℕ × ℕ)) :=
  if len7 = 126 then
    if buf.length < 2 + 2 then .ok none
    else .ok (some (ofBytes ((buf.drop 2).take 2), 2 + 2))
  else if len7 = 127 then
    if buf.length < 2 + 8 then .ok none
    else
      let l := ofBytes ((buf.drop 2).take 8)
      if l &&& 0x8000000000000000 ≠ 0 then .error highBitSet else .ok (some (l, 2 + 8))
  else .ok (some (len7.toNat, 2))

/-- The header at the front of the buffer, or nothing as long as it is incomplete. -/
def parseHeader (buf : List UInt8) : Except IoError (Option FrameHeader) :=
  match buf with
  | b0 :: b1 :: _ =>
    match payloadLenAt buf (b1 &&& 0x7f) with
    | .error e => .error e
    | .ok none => .ok none
    | .ok (some (payloadLen, idx)) =>
      if b1 &&& 0x80 != 0 then
        if buf.length < idx + 4 then .ok none
        else .ok (some ⟨b0, true, keyAt buf idx, payloadLen, idx + 4⟩)
      else .ok (some ⟨b0, false, .zero, payloadLen, idx⟩)
  | _ => .ok none

def maskBit (key : Option Key) : UInt8 := if key.isSome then 0x80 else 0

def keyBytes (key : Option Key) : List UInt8 := key.elim [] List.ofFn

/-- A header with the length in its shortest form. -/
def emitHeader (finRsvOpcode : UInt8) (payloadLen : ℕ) (maskKey : Option Key) : List UInt8 :=
  finRsvOpcode ::
    (if payloadLen < 126 then [maskBit maskKey ||| UInt8.ofNat payloadLen]
      else if payloadLen ≤ 65535 then (maskBit maskKey ||| 126) :: toBytes 2 payloadLen
      else (maskBit maskKey ||| 127) :: toBytes 8 payloadLen) ++ keyBytes maskKey

/-! ## Frames -/

/-- The length of a payload in one of the three forms. -/
inductive PayloadLength
  | short (n : Fin 126)
  | medium (n : Fin (2 ^ 16))
  | long (n : Fin (2 ^ 63))
  deriving DecidableEq

namespace PayloadLength

def toNat : PayloadLength → ℕ
  | short n => n
  | medium n => n
  | long n => n

/-- The seven bits of the second byte. -/
def code : PayloadLength → UInt8
  | short n => UInt8.ofNat n
  | medium _ => 126
  | long _ => 127

/-- The bytes that follow the second one. -/
def bytes : PayloadLength → List UInt8
  | short _ => []
  | medium n => toBytes 2 n
  | long n => toBytes 8 n

/-- Read the length that follows a code. -/
def read (code : UInt8) (s : List UInt8) : Option (PayloadLength × List UInt8) :=
  if h : code.toNat < 126 then some (short ⟨code.toNat, h⟩, s)
  else if code = 126 then
    if s.length < 2 then none else some (medium (Fin.ofNat _ (ofBytes (s.take 2))), s.drop 2)
  else if s.length < 8 then none
  else if h : ofBytes (s.take 8) < 2 ^ 63 then some (long ⟨_, h⟩, s.drop 8)
  else none

/-- The form an endpoint chooses. -/
def shortest (n : ℕ) (h : n < 2 ^ 63) : PayloadLength :=
  if hshort : n < 126 then short ⟨n, hshort⟩
  else if hmedium : n < 2 ^ 16 then medium ⟨n, hmedium⟩
  else long ⟨n, h⟩

end PayloadLength

/-- What stands before the payload. -/
structure Head where
  first : UInt8
  length : PayloadLength
  key : Option Key

open Head

/-- A frame with its payload as it is before masking. -/
structure Frame extends Head where
  payload : List UInt8
  payload_length : payload.length = length.toNat

namespace Head

def bytes (hd : Head) : List UInt8 :=
  hd.first :: (maskBit hd.key ||| hd.length.code) :: (hd.length.bytes ++ keyBytes hd.key)

/-- The header that the parser makes of it. -/
def parsed (hd : Head) : FrameHeader :=
  ⟨hd.first, hd.key.isSome, hd.key.getD .zero, hd.length.toNat, hd.bytes.length⟩

end Head

def readKey (masked : Bool) (s : List UInt8) : Option (Option Key × List UInt8) :=
  if masked then if s.length < 4 then none else some (some (keyAt s 0), s.drop 4)
  else some (none, s)

def readHead : List UInt8 → Option (Head × List UInt8)
  | b0 :: b1 :: s =>
    (PayloadLength.read (b1 &&& 0x7f) s).bind fun p ↦
      (readKey (b1 &&& 0x80 != 0) p.2).map fun q ↦ (⟨b0, p.1, q.1⟩, q.2)
  | _ => none

/-- Masking and unmasking, which are the same. -/
def mask (key : Option Key) (bs : List UInt8) : List UInt8 := key.elim bs fun k ↦ xorFrom k 0 bs

/-! ### Lengths -/

namespace PayloadLength

variable {l : PayloadLength} {c : UInt8} {s rest : List UInt8}

theorem toNat_lt (l : PayloadLength) : l.toNat < 2 ^ 63 := by
  rcases l with n | n | n
  · exact n.isLt.trans (by decide)
  · exact n.isLt.trans (by decide)
  · exact n.isLt

theorem code_short (n : Fin 126) : (short n).code.toNat = n := by
  have hn := n.isLt
  rw [code, UInt8.toNat_ofNat', Nat.mod_eq_of_lt (by omega)]

theorem code_lt (l : PayloadLength) : l.code.toNat < 128 := by
  rcases l with n | n | n
  · rw [code_short]
    omega
  · exact (by decide : 126 < 128)
  · exact (by decide : 127 < 128)

theorem toNat_shortest {n : ℕ} (h : n < 2 ^ 63) : (shortest n h).toNat = n := by
  unfold shortest
  split_ifs <;> rfl

theorem read_code_append (l : PayloadLength) (rest : List UInt8) :
    read l.code (l.bytes ++ rest) = some (l, rest) := by
  rcases l with n | n | n
  · have hcode := code_short n
    rw [read, dif_pos (by rw [hcode]; exact n.isLt)]
    simp only [hcode, Fin.eta]
    rfl
  · have hn : ofBytes (toBytes 2 n) = n := ofBytes_toBytes n.isLt
    have hlength : ¬ (toBytes 2 (n : ℕ) ++ rest).length < 2 := by
      rw [length_append, length_toBytes]
      omega
    change read 126 (toBytes 2 n ++ rest) = _
    rw [read, dif_neg (by decide), if_pos rfl, if_neg hlength,
      take_left' (length_toBytes ..), drop_left' (length_toBytes ..), hn,
      Fin.ofNat_val_eq_self]
  · have hn : ofBytes (toBytes 8 n) = n := ofBytes_toBytes (n.isLt.trans (by decide))
    have hlength : ¬ (toBytes 8 (n : ℕ) ++ rest).length < 8 := by
      rw [length_append, length_toBytes]
      omega
    change read 127 (toBytes 8 n ++ rest) = _
    rw [read, dif_neg (by decide), if_neg (by decide), if_neg hlength]
    simp only [take_left' (length_toBytes ..), hn, n.isLt, dite_true,
      drop_left' (length_toBytes ..)]

theorem eq_long_of_lt (hc : c.toNat < 128) (hshort : ¬ c.toNat < 126) (hmedium : c ≠ 126) :
    c = 127 := by
  have hne : c.toNat ≠ 126 := fun h ↦ hmedium (UInt8.toNat_inj.mp h)
  refine UInt8.toNat_inj.mp ?_
  change c.toNat = 127
  omega

theorem eq_of_read (hc : c.toNat < 128) (h : read c s = some (l, rest)) :
    c = l.code ∧ s = l.bytes ++ rest := by
  unfold read at h
  split_ifs at h with hshort hmedium hlength hlength hlong
  · obtain ⟨rfl, rfl⟩ := Prod.mk.inj (some.inj h)
    exact ⟨(UInt8.ofNat_toNat ..).symm, rfl⟩
  · obtain ⟨rfl, rfl⟩ := Prod.mk.inj (some.inj h)
    have htake : (s.take 2).length = 2 := by
      rw [length_take]
      omega
    have hn : ofBytes (s.take 2) < 2 ^ 16 := ofBytes_lt_of_length htake
    refine ⟨hmedium, ?_⟩
    rw [bytes, Fin.val_ofNat, Nat.mod_eq_of_lt hn, toBytes_ofBytes_of_length htake,
      take_append_drop]
  · obtain ⟨rfl, rfl⟩ := Prod.mk.inj (some.inj h)
    have htake : (s.take 8).length = 8 := by
      rw [length_take]
      omega
    refine ⟨eq_long_of_lt hc hshort hmedium, ?_⟩
    rw [bytes, toBytes_ofBytes_of_length htake, take_append_drop]

end PayloadLength

/-! ### Heads -/

variable {s rest : List UInt8} {hd : Head}

@[simp] theorem length_keyBytes (key : Option Key) :
    (keyBytes key).length = if key.isSome then 4 else 0 := by
  rcases key with _ | k
  · rfl
  · exact length_ofFn

theorem ofFn_keyAt (h : ¬ s.length < 4) : List.ofFn (keyAt s 0) ++ s.drop 4 = s := by
  rcases s with _ | ⟨a, _ | ⟨b, _ | ⟨c, _ | ⟨d, s⟩⟩⟩⟩
  · exact absurd (by decide) h
  · exact absurd (by decide : 1 < 4) h
  · exact absurd (by decide : 2 < 4) h
  · exact absurd (by decide : 3 < 4) h
  · rfl

theorem keyAt_ofFn (key : Key) (rest : List UInt8) : keyAt (List.ofFn key ++ rest) 0 = key := by
  funext j
  have hj : (j : ℕ) < (List.ofFn key).length := by
    rw [length_ofFn]
    exact j.isLt
  rw [keyAt, drop_zero, getD_append _ _ _ _ hj, getD_eq_getElem _ _ hj, List.getElem_ofFn]

theorem readKey_eq_some_iff {masked : Bool} {key : Option Key} :
    readKey masked s = some (key, rest) ↔ masked = key.isSome ∧ s = keyBytes key ++ rest := by
  constructor
  · intro h
    unfold readKey at h
    split_ifs at h with hmasked hlength
    · obtain ⟨rfl, rfl⟩ := Prod.mk.inj (some.inj h)
      exact ⟨hmasked, (ofFn_keyAt hlength).symm⟩
    · obtain ⟨rfl, rfl⟩ := Prod.mk.inj (some.inj h)
      exact ⟨Bool.eq_false_of_not_eq_true hmasked, rfl⟩
  · rintro ⟨rfl, rfl⟩
    rcases key with _ | k
    · rfl
    · have hlength : ¬ (List.ofFn k ++ rest).length < 4 := by simp
      have hdrop : (List.ofFn k ++ rest).drop 4 = rest := drop_left' length_ofFn
      rw [readKey, isSome_some, if_pos rfl]
      change (if (List.ofFn k ++ rest).length < 4 then none
        else some (some (keyAt (List.ofFn k ++ rest) 0), (List.ofFn k ++ rest).drop 4)) = _
      rw [if_neg hlength, keyAt_ofFn, hdrop]

theorem and_maskBit_or (b : UInt8) (key : Option Key) (h : b.toNat < 128) :
    (maskBit key ||| b) &&& 0x7f = b ∧ ((maskBit key ||| b) &&& 0x80 != 0) = key.isSome := by
  obtain ⟨b⟩ := b
  rw [maskBit]
  generalize key.isSome = masked
  revert b masked
  decide +kernel

theorem maskBit_or_and (b : UInt8) (key : Option Key) (h : (b &&& 0x80 != 0) = key.isSome) :
    maskBit key ||| (b &&& 0x7f) = b := by
  obtain ⟨b⟩ := b
  rw [maskBit, ← h]
  clear h
  revert b
  decide +kernel

theorem and_lt (b : UInt8) : (b &&& 0x7f).toNat < 128 := by
  obtain ⟨b⟩ := b
  revert b
  decide +kernel

theorem readKey_keyBytes (key : Option Key) :
    readKey key.isSome (keyBytes key ++ rest) = some (key, rest) :=
  readKey_eq_some_iff.mpr ⟨rfl, rfl⟩

theorem readHead_eq_some_iff : readHead s = some (hd, rest) ↔ s = hd.bytes ++ rest := by
  constructor
  · intro h
    rcases s with _ | ⟨b0, _ | ⟨b1, s⟩⟩
    · exact nomatch h
    · exact nomatch h
    · obtain ⟨⟨l, s'⟩, hread, h⟩ := bind_eq_some_iff.mp h
      obtain ⟨⟨key, s''⟩, hkey, h⟩ := map_eq_some_iff.mp h
      obtain ⟨rfl, rfl⟩ := Prod.mk.inj h
      obtain ⟨hcode, rfl⟩ := PayloadLength.eq_of_read (and_lt b1) hread
      obtain ⟨hmasked, rfl⟩ := readKey_eq_some_iff.mp hkey
      rw [bytes, ← hcode, maskBit_or_and b1 key hmasked, cons_append, cons_append, append_assoc]
  · rintro rfl
    obtain ⟨hlow, hhigh⟩ := and_maskBit_or hd.length.code hd.key hd.length.code_lt
    rw [bytes, cons_append, cons_append, append_assoc, readHead, hlow, hhigh,
      PayloadLength.read_code_append, bind_some, readKey_keyBytes]
    rfl

/-- Heads are told apart without looking at what follows them. -/
def headFraming : Framing UInt8 Head where
  write := bytes
  read := readHead
  read_eq_some_iff := readHead_eq_some_iff
  write_ne_nil := fun _ ↦ cons_ne_nil _ _

/-! ### The parser of the source -/

/-- For numbers of eight bytes the test of the highest bit is a comparison. -/
theorem and_highBit_ne_zero_iff {n : ℕ} (h : n < 2 ^ 64) :
    n &&& 0x8000000000000000 ≠ 0 ↔ ¬ n < 2 ^ 63 := by
  rw [show 0x8000000000000000 = 2 ^ 63 by decide, Nat.and_two_pow, Nat.testBit_eq_decide_div_mod_eq]
  by_cases hlt : n < 2 ^ 63
  · rw [Nat.div_eq_of_lt hlt]
    exact iff_of_false (by decide) (not_not.mpr hlt)
  · rw [show n / 2 ^ 63 = 1 by omega]
    exact iff_of_true (by decide) hlt

section PayloadLenAt

variable {b0 b1 c : UInt8}

theorem payloadLenAt_code (l : PayloadLength) (rest : List UInt8) :
    payloadLenAt (b0 :: b1 :: (l.bytes ++ rest)) l.code =
      .ok (some (l.toNat, 2 + l.bytes.length)) := by
  rcases l with n | n | n
  · have hcode := PayloadLength.code_short n
    have hne {c : UInt8} (hc : 126 ≤ c.toNat) : (PayloadLength.short n).code ≠ c := by
      rintro rfl
      omega
    rw [payloadLenAt, if_neg (hne (by decide)), if_neg (hne (by decide)), hcode]
    rfl
  · have hn : ofBytes (toBytes 2 n) = n := ofBytes_toBytes n.isLt
    have hlength : ¬ (b0 :: b1 :: (toBytes 2 (n : ℕ) ++ rest)).length < 2 + 2 := by simp
    change payloadLenAt (b0 :: b1 :: (toBytes 2 n ++ rest)) 126 = _
    rw [payloadLenAt, if_pos rfl, if_neg hlength]
    change Except.ok (some (ofBytes ((toBytes 2 n ++ rest).take 2), 4)) = _
    rw [take_left' (length_toBytes ..), hn]
    rfl
  · have hn : ofBytes (toBytes 8 n) = n := ofBytes_toBytes (n.isLt.trans (by decide))
    have hlength : ¬ (b0 :: b1 :: (toBytes 8 (n : ℕ) ++ rest)).length < 2 + 8 := by simp
    have hbit : ¬ (n : ℕ) &&& 0x8000000000000000 ≠ 0 := by
      rw [and_highBit_ne_zero_iff (n.isLt.trans (by decide))]
      exact not_not.mpr n.isLt
    change payloadLenAt (b0 :: b1 :: (toBytes 8 n ++ rest)) 127 = _
    rw [payloadLenAt, if_neg (by decide), if_pos rfl, if_neg hlength]
    simp only [drop_succ_cons, drop_zero, take_left' (length_toBytes ..), hn, hbit, if_false]
    rfl

/-- There are too few bytes, or the length is illegal whatever comes after it. -/
theorem payloadLenAt_of_read_eq_none (hc : c.toNat < 128) (h : PayloadLength.read c s = none) :
    payloadLenAt (b0 :: b1 :: s) c = .ok none ∨
      ∀ t, payloadLenAt (b0 :: b1 :: (s ++ t)) c = .error highBitSet := by
  unfold PayloadLength.read at h
  split_ifs at h with hshort hmedium hlength hlength hlong
  · left
    rw [payloadLenAt, if_pos hmedium, if_pos (by simp only [length_cons]; omega)]
  · left
    rw [payloadLenAt, if_neg hmedium, if_pos (PayloadLength.eq_long_of_lt hc hshort hmedium),
      if_pos (by simp only [length_cons]; omega)]
  · right
    intro t
    have htake : (s.take 8).length = 8 := by
      rw [length_take]
      omega
    have hlt : ofBytes (s.take 8) < 2 ^ 64 := ofBytes_lt_of_length htake
    have hlength' : ¬ (b0 :: b1 :: (s ++ t)).length < 2 + 8 := by
      simp only [length_cons, length_append]
      omega
    rw [payloadLenAt, if_neg hmedium, if_pos (PayloadLength.eq_long_of_lt hc hshort hmedium),
      if_neg hlength']
    simp only [drop_succ_cons, drop_zero, take_append_of_le_length (Nat.not_lt.mp hlength)]
    rw [if_pos ((and_highBit_ne_zero_iff hlt).mpr hlong)]

end PayloadLenAt

theorem parseHeader_of_payloadLenAt {b0 b1 : UInt8} {n idx : ℕ}
    (h : payloadLenAt (b0 :: b1 :: s) (b1 &&& 0x7f) = .ok (some (n, 2 + idx))) :
    parseHeader (b0 :: b1 :: s) = .ok ((readKey (b1 &&& 0x80 != 0) (s.drop idx)).map fun q ↦
      ⟨b0, q.1.isSome, q.1.getD .zero, n, 2 + idx + (keyBytes q.1).length⟩) := by
  have hdrop : (b0 :: b1 :: s).drop (2 + idx) = s.drop idx := by
    rw [Nat.add_comm]
    rfl
  have hkey : keyAt (b0 :: b1 :: s) (2 + idx) = keyAt (s.drop idx) 0 := by
    unfold keyAt
    rw [hdrop, drop_zero]
  have hlength : (b0 :: b1 :: s).length < 2 + idx + 4 ↔ (s.drop idx).length < 4 := by
    simp only [length_cons, length_drop]
    omega
  simp only [parseHeader, h, readKey, hkey, hlength]
  split_ifs <;> simp

/-- The head of a frame is parsed as soon as it is there, whatever comes after it. -/
theorem parseHeader_bytes_append (hd : Head) (rest : List UInt8) :
    parseHeader (hd.bytes ++ rest) = .ok (some hd.parsed) := by
  obtain ⟨hlow, hhigh⟩ := and_maskBit_or hd.length.code hd.key hd.length.code_lt
  rw [bytes, cons_append, cons_append, append_assoc,
    parseHeader_of_payloadLenAt (by rw [hlow, payloadLenAt_code]), hhigh, drop_left,
    readKey_keyBytes, map_some, parsed]
  congr 3
  simp only [bytes, length_cons, length_append]
  omega

theorem parseHeader_of_readHead_eq_none (h : readHead s = none) :
    parseHeader s = .ok none ∨ ∀ t, parseHeader (s ++ t) = .error highBitSet := by
  rcases s with _ | ⟨b0, _ | ⟨b1, s⟩⟩
  · exact Or.inl rfl
  · exact Or.inl rfl
  rw [readHead, bind_eq_none_iff] at h
  rcases hread : PayloadLength.read (b1 &&& 0x7f) s with _ | ⟨l, rest⟩
  · rcases @payloadLenAt_of_read_eq_none _ b0 b1 _ (and_lt b1) hread with hnone | herror
    · left
      simp only [parseHeader, hnone]
    · right
      intro t
      simp only [cons_append, parseHeader, herror]
  · left
    have hkey := map_eq_none_iff.mp (h _ hread)
    obtain ⟨hcode, rfl⟩ := PayloadLength.eq_of_read (and_lt b1) hread
    rw [parseHeader_of_payloadLenAt (by rw [hcode, payloadLenAt_code]), drop_left, hkey, map_none]

/-- **What the parser says about a buffer**: it starts with the head of a frame, or it has to be
continued, or no continuation of it is legal. -/
theorem parseHeader_cases (s : List UInt8) :
    (∃ hd rest, s = bytes hd ++ rest ∧ parseHeader s = .ok (some hd.parsed)) ∨
      parseHeader s = .ok none ∨ ∀ t, parseHeader (s ++ t) = .error highBitSet := by
  rcases hread : readHead s with _ | ⟨hd, rest⟩
  · exact Or.inr (parseHeader_of_readHead_eq_none hread)
  · obtain rfl := readHead_eq_some_iff.mp hread
    exact Or.inl ⟨hd, rest, rfl, parseHeader_bytes_append hd rest⟩

theorem exists_head_of_parseHeader {h : FrameHeader} (hparse : parseHeader s = .ok (some h)) :
    ∃ hd rest, s = bytes hd ++ rest ∧ h = hd.parsed := by
  rcases parseHeader_cases s with ⟨hd, rest, hs, hsome⟩ | hnone | herror
  · rw [hsome, Except.ok.injEq, some.injEq] at hparse
    exact ⟨hd, rest, hs, hparse.symm⟩
  · rw [hnone] at hparse
    exact nomatch hparse
  · have herror := herror []
    rw [append_nil, hparse] at herror
    exact nomatch herror

theorem parseHeader_append_of_error {e : IoError} (hparse : parseHeader s = .error e)
    (t : List UInt8) : parseHeader (s ++ t) = .error e := by
  rcases parseHeader_cases s with ⟨hd, rest, -, hsome⟩ | hnone | herror
  · rw [hsome] at hparse
    exact nomatch hparse
  · rw [hnone] at hparse
    exact nomatch hparse
  · have hs := herror []
    rw [append_nil, hparse] at hs
    rw [herror, hs]

theorem parseHeader_eq_none (hcut : s <+: hd.bytes) (hne : s ≠ hd.bytes) :
    parseHeader s = .ok none := by
  obtain ⟨t, ht⟩ := hcut
  have hparse := parseHeader_bytes_append hd []
  rw [append_nil, ← ht] at hparse
  rcases parseHeader_cases s with ⟨hd', rest, rfl, -⟩ | hnone | herror
  · have happend : headFraming.write hd' ++ (rest ++ t) = headFraming.write hd ++ [] := by
      rw [append_nil, ← append_assoc]
      exact ht
    obtain ⟨rfl, hnil⟩ := headFraming.write_append_inj happend
    rw [(append_eq_nil_iff.mp hnil).1, append_nil] at hne
    exact absurd rfl hne
  · exact hnone
  · rw [herror] at hparse
    exact nomatch hparse

theorem emitHeader_eq (first : UInt8) {n : ℕ} (h : n < 2 ^ 63) (key : Option Key) :
    emitHeader first n key = bytes ⟨first, .shortest n h, key⟩ := by
  unfold emitHeader PayloadLength.shortest
  by_cases hshort : n < 126
  · rw [if_pos hshort, dif_pos hshort]
    rfl
  rw [if_neg hshort, dif_neg hshort]
  by_cases hmedium : n < 2 ^ 16
  · rw [if_pos (Nat.le_of_lt_succ hmedium), dif_pos hmedium]
    rfl
  · rw [if_neg (fun hle ↦ hmedium (Nat.lt_succ_of_le hle)), dif_neg hmedium]
    rfl

/-! ### Streams of frames -/

theorem mask_eq (key : Option Key) (bs : List UInt8) :
    mask key bs = xorFrom (key.getD .zero) 0 bs := by
  rcases key with _ | k
  · exact (xorFrom_zero 0 bs).symm
  · rfl

@[simp] theorem mask_mask (key : Option Key) (bs : List UInt8) : mask key (mask key bs) = bs := by
  rw [mask_eq, mask_eq, xorFrom_xorFrom]
  simp only [UInt8.xor_self]
  exact xorFrom_zero 0 bs

@[simp] theorem length_mask (key : Option Key) (bs : List UInt8) :
    (mask key bs).length = bs.length := by
  rw [mask_eq, length_xorFrom]

namespace Frame

def write (f : Frame) : List UInt8 := f.bytes ++ mask f.key f.payload

def read (s : List UInt8) : Option (Frame × List UInt8) :=
  (readHead s).bind fun p ↦
    if h : (p.2.take p.1.length.toNat).length = p.1.length.toNat then
      some (⟨p.1, mask p.1.key (p.2.take p.1.length.toNat), (length_mask ..).trans h⟩,
        p.2.drop p.1.length.toNat)
    else none

theorem length_payload_lt (f : Frame) : f.payload.length < 2 ^ 63 :=
  f.payload_length ▸ f.length.toNat_lt

/-- The same first byte and payload under another key, or none. -/
def remask (f : Frame) (key : Option Key) : Frame :=
  ⟨⟨f.first, .shortest f.payload.length f.length_payload_lt, key⟩, f.payload,
    (PayloadLength.toNat_shortest _).symm⟩

end Frame

/-- **The frames of RFC 6455.** -/
def framing : Framing UInt8 Frame where
  write := Frame.write
  read := Frame.read
  read_eq_some_iff := by
    intro s f rest
    constructor
    · intro h
      obtain ⟨⟨hd, s'⟩, hread, hframe⟩ := bind_eq_some_iff.mp h
      obtain ⟨hlength, hframe⟩ := dite_none_right_eq_some.mp hframe
      obtain rfl := readHead_eq_some_iff.mp hread
      obtain ⟨rfl, rfl⟩ := Prod.mk.inj (some.inj hframe)
      rw [Frame.write, mask_mask, append_assoc, take_append_drop]
    · rintro rfl
      obtain ⟨hd, payload, hlength⟩ := f
      have hlength' : (mask hd.key payload).length = hd.length.toNat :=
        (length_mask ..).trans hlength
      have hread := readHead_eq_some_iff.mpr (rfl : hd.bytes ++ (mask hd.key payload ++ rest) = _)
      have htake : (mask hd.key payload ++ rest).take hd.length.toNat = mask hd.key payload :=
        take_left' hlength'
      have hdrop : (mask hd.key payload ++ rest).drop hd.length.toNat = rest :=
        drop_left' hlength'
      rw [Frame.read, Frame.write, append_assoc, hread, bind_some]
      simp only [htake, hdrop, hlength', mask_mask, dite_true]
  write_ne_nil := fun f ↦ cons_ne_nil _ _

end WebSocket

end Hypershunt
