import Hypershunt.Foundation.BigEndian
import Hypershunt.Foundation.Framing
import Hypershunt.Foundation.Text

/-!
# FastCGI records

The encoder of `handler/fcgi.rs` and, independently of it, the format: how a record delimits itself
by its content length and its padding length, and how a name and a value delimit themselves by their
lengths. Both formats are `Framing`s, so that what a server reads is what it is to split a text.

The encoder writes the length of the content as two bytes, whatever the length is.
-/

namespace Hypershunt

open List Option

namespace Fcgi

open BigEndian

def fcgiVersion : UInt8 := 1

def fcgiBeginRequest : UInt8 := 1

def fcgiParams : UInt8 := 4

def fcgiStdin : UInt8 := 5

def fcgiResponder : ℕ := 1

def requestId : ℕ := 1

/-! ## Writing -/

/-- Content is padded to a multiple of eight bytes. -/
def paddingFor (len : ℕ) : ℕ := (8 - len % 8) % 8

def buildRecord (type : UInt8) (content : List UInt8) : List UInt8 :=
  [fcgiVersion, type] ++ toBytes 2 requestId ++ toBytes 2 content.length ++
    [UInt8.ofNat (paddingFor content.length), 0] ++ content ++
    List.replicate (paddingFor content.length) 0

/-- A length takes one byte, or four with the high bit set. -/
def encodeLength (n : ℕ) : List UInt8 :=
  if n < 128 then [UInt8.ofNat n] else toBytes 4 (n % 2 ^ 32 ||| 0x80000000)

def encodeParam (name value : List UInt8) : List UInt8 :=
  encodeLength name.length ++ encodeLength value.length ++ name ++ value

def encodeParams (vars : List (String × String)) : List UInt8 :=
  vars.flatMap fun v ↦ encodeParam (Text.bytes v.1) (Text.bytes v.2)

def buildFcgiRequest (env : List (String × String)) (body : List UInt8) : List UInt8 :=
  buildRecord fcgiBeginRequest (toBytes 2 fcgiResponder ++ [0, 0, 0, 0, 0, 0]) ++
    buildRecord fcgiParams (encodeParams env) ++ buildRecord fcgiParams [] ++
    buildRecord fcgiStdin body ++ buildRecord fcgiStdin []

/-! ## The format of records -/

/-- A record, with everything that its bytes say. -/
structure Record where
  version : UInt8
  type : UInt8
  id1 : UInt8
  id0 : UInt8
  reserved : UInt8
  content : List UInt8
  content_lt : content.length < 2 ^ 16
  padding : List UInt8
  padding_lt : padding.length < 2 ^ 8

namespace Record

/-- The eight bytes before the content. -/
def header (r : Record) : List UInt8 :=
  [r.version, r.type, r.id1, r.id0] ++ toBytes 2 r.content.length ++
    [UInt8.ofNat r.padding.length, r.reserved]

def write (r : Record) : List UInt8 := r.header ++ r.content ++ r.padding

def read : List UInt8 → Option (Record × List UInt8)
  | version :: type :: id1 :: id0 :: len1 :: len0 :: pad :: reserved :: s =>
    if pad.toNat + ofBytes [len1, len0] ≤ s.length then
      some (⟨version, type, id1, id0, reserved, s.take (ofBytes [len1, len0]),
        (length_take_le _ _).trans_lt (@ofBytes_lt_of_length 2 [len1, len0] rfl),
        (s.drop (ofBytes [len1, len0])).take pad.toNat,
        (length_take_le _ _).trans_lt pad.toNat_lt⟩,
        s.drop (ofBytes [len1, len0] + pad.toNat))
    else none
  | _ => none

theorem length_write (r : Record) :
    r.write.length = 8 + r.content.length + r.padding.length := by
  simp only [write, header, length_append, length_cons, length_nil, length_toBytes]

theorem read_write (r : Record) (rest : List UInt8) : read (r.write ++ rest) = some (r, rest) := by
  obtain ⟨version, type, id1, id0, reserved, content, hcontent, padding, hpadding⟩ := r
  have hlen : ofBytes (toBytes 2 content.length) = content.length :=
    ofBytes_toBytes hcontent
  have hpad : (UInt8.ofNat padding.length).toNat = padding.length :=
    UInt8.toNat_ofNat_of_lt' hpadding
  rw [toBytes, toBytes, toBytes] at hlen
  rw [write, header, toBytes, toBytes, toBytes]
  simp only [cons_append, nil_append, append_assoc, read, hlen, hpad]
  rw [if_pos (by simp only [length_append]; omega)]
  simp [drop_append]

theorem eq_write_of_read {s rest : List UInt8} {r : Record} (h : read s = some (r, rest)) :
    s = r.write ++ rest := by
  rw [read.eq_def] at h
  split at h
  case h_2 => exact nomatch h
  case h_1 s version type id1 id0 len1 len0 pad reserved s =>
    split_ifs at h with hle
    obtain ⟨rfl, rfl⟩ := Prod.mk.inj (Option.some.inj h)
    have hcontent : (s.take (ofBytes [len1, len0])).length = ofBytes [len1, len0] :=
      length_take_of_le (by omega)
    have hpadding : ((s.drop (ofBytes [len1, len0])).take pad.toNat).length = pad.toNat :=
      length_take_of_le (by rw [length_drop]; omega)
    have hbytes : toBytes 2 (ofBytes [len1, len0]) = [len1, len0] :=
      toBytes_ofBytes [len1, len0]
    simp only [write, header, hcontent, hpadding, hbytes, UInt8.ofNat_toNat, cons_append,
      nil_append, append_assoc]
    rw [← drop_drop, take_append_drop, take_append_drop]

/-- Records delimit themselves. -/
def framing : Framing UInt8 Record where
  write := write
  read := read
  read_eq_some_iff := ⟨eq_write_of_read, fun h ↦ h ▸ read_write _ _⟩
  write_ne_nil _ := cons_ne_nil _ _

end Record

/-! ## The format of names and values -/

/-- The greatest length that can be written, and one more. -/
def lengthBound (long : Bool) : ℕ := if long then 2 ^ 31 else 128

/-- A length, and which of its two forms it is written in. -/
structure Length where
  long : Bool
  n : ℕ
  lt : n < lengthBound long

namespace Length

def write (l : Length) : List UInt8 :=
  if l.long then toBytes 4 (2 ^ 31 + l.n) else [UInt8.ofNat l.n]

theorem short_lt {n : ℕ} (h : n < 128) : n < lengthBound false := h

theorem long_lt {b : UInt8} {s : List UInt8} :
    ofBytes (b :: s.take 3) - 2 ^ 31 < lengthBound true := by
  have hlt := ofBytes_lt (b :: s.take 3)
  have hle : 256 ^ (b :: s.take 3).length ≤ 256 ^ 4 :=
    Nat.pow_le_pow_right (by decide) (Nat.succ_le_succ (length_take_le 3 s))
  rw [lengthBound, if_pos rfl]
  omega

def read : List UInt8 → Option (Length × List UInt8)
  | [] => none
  | b :: s =>
    if h : b.toNat < 128 then some (⟨false, b.toNat, short_lt h⟩, s)
    else if 3 ≤ s.length then some (⟨true, ofBytes (b :: s.take 3) - 2 ^ 31, long_lt⟩, s.drop 3)
    else none

theorem read_write (l : Length) (rest : List UInt8) : read (l.write ++ rest) = some (l, rest) := by
  obtain ⟨_ | _, n, hlt⟩ := l
  · have hn : (UInt8.ofNat n).toNat = n :=
      UInt8.toNat_ofNat_of_lt' (hlt.trans (by decide))
    change read (UInt8.ofNat n :: rest) = _
    rw [read, dif_pos (hn.symm ▸ hlt)]
    simp only [hn]
  · rw [lengthBound, if_pos rfl] at hlt
    have hbytes : ofBytes (toBytes 4 (2 ^ 31 + n)) = 2 ^ 31 + n :=
      ofBytes_toBytes (by omega)
    have hhigh : ¬(UInt8.ofNat ((2 ^ 31 + n) / 256 ^ 3)).toNat < 128 := by
      rw [UInt8.toNat_ofNat']
      omega
    change read (UInt8.ofNat ((2 ^ 31 + n) / 256 ^ 3) :: (toBytes 3 (2 ^ 31 + n) ++ rest)) = _
    have htake : (toBytes 3 (2 ^ 31 + n) ++ rest).take 3 = toBytes 3 (2 ^ 31 + n) :=
      take_left' (length_toBytes _ _)
    have hdrop : (toBytes 3 (2 ^ 31 + n) ++ rest).drop 3 = rest :=
      drop_left' (length_toBytes _ _)
    rw [toBytes] at hbytes
    rw [read, dif_neg hhigh, if_pos (by simp)]
    simp only [htake, hdrop, hbytes, Nat.add_sub_cancel_left]

theorem eq_write_of_read {s rest : List UInt8} {l : Length} (h : read s = some (l, rest)) :
    s = l.write ++ rest := by
  rcases s with _ | ⟨b, s⟩
  · exact nomatch h
  · rw [read] at h
    split_ifs at h with hb hlen
    · obtain ⟨rfl, rfl⟩ := Prod.mk.inj (Option.some.inj h)
      simp [write]
    · obtain ⟨rfl, rfl⟩ := Prod.mk.inj (Option.some.inj h)
      have hlength : (b :: s.take 3).length = 4 := by simpa using hlen
      have hhigh : 2 ^ 31 ≤ ofBytes (b :: s.take 3) := by
        rw [ofBytes, Nat.succ.inj hlength]
        omega
      have hbytes : toBytes 4 (ofBytes (b :: s.take 3)) = b :: s.take 3 := by
        rw [← hlength, toBytes_ofBytes]
      simp only [write, if_true, Nat.add_sub_cancel' hhigh, hbytes, cons_append, take_append_drop]

def framing : Framing UInt8 Length where
  write := write
  read := read
  read_eq_some_iff := ⟨eq_write_of_read, fun h ↦ h ▸ read_write _ _⟩
  write_ne_nil l := by
    obtain ⟨_ | _, n, hlt⟩ := l <;> exact cons_ne_nil _ _

end Length

/-- A name and a value, with the forms that their lengths are written in. -/
structure Param where
  name : List UInt8
  value : List UInt8
  nameLong : Bool
  valueLong : Bool
  name_lt : name.length < lengthBound nameLong
  value_lt : value.length < lengthBound valueLong

namespace Param

def nameLength (p : Param) : Length := ⟨p.nameLong, p.name.length, p.name_lt⟩

def valueLength (p : Param) : Length := ⟨p.valueLong, p.value.length, p.value_lt⟩

def write (p : Param) : List UInt8 :=
  p.nameLength.write ++ (p.valueLength.write ++ (p.name ++ p.value))

/-- The text after the two lengths. -/
def readText (name value : Length) (s : List UInt8) : Option (Param × List UInt8) :=
  if name.n + value.n ≤ s.length then
    some (⟨s.take name.n, (s.drop name.n).take value.n, name.long, value.long,
      (length_take_le _ _).trans_lt name.lt, (length_take_le _ _).trans_lt value.lt⟩,
      s.drop (name.n + value.n))
  else none

def read (s : List UInt8) : Option (Param × List UInt8) :=
  (Length.framing.read s).bind fun name ↦
    (Length.framing.read name.2).bind fun value ↦ readText name.1 value.1 value.2

theorem read_write (p : Param) (rest : List UInt8) : read (p.write ++ rest) = some (p, rest) := by
  have hname : Length.framing.read (p.write ++ rest) =
      some (p.nameLength, p.valueLength.write ++ (p.name ++ (p.value ++ rest))) := by
    rw [Framing.read_eq_some_iff]
    simp only [write, append_assoc]
    rfl
  have hvalue : Length.framing.read (p.valueLength.write ++ (p.name ++ (p.value ++ rest))) =
      some (p.valueLength, p.name ++ (p.value ++ rest)) :=
    Length.framing.read_write_append _ _
  rw [read, hname, bind_some, hvalue, bind_some, readText, nameLength, valueLength]
  rw [if_pos (by simp only [length_append]; omega)]
  simp [drop_append]

theorem eq_write_of_read {s rest : List UInt8} {p : Param} (h : read s = some (p, rest)) :
    s = p.write ++ rest := by
  obtain ⟨⟨name, s'⟩, hname, h⟩ := bind_eq_some_iff.mp h
  obtain ⟨⟨value, t⟩, hvalue, h⟩ := bind_eq_some_iff.mp h
  rw [Framing.read_eq_some_iff] at hname hvalue
  dsimp only at hvalue h
  rw [readText] at h
  split_ifs at h with hle
  obtain ⟨rfl, rfl⟩ := Prod.mk.inj (Option.some.inj h)
  have hn : (t.take name.n).length = name.n := length_take_of_le (by omega)
  have hv : ((t.drop name.n).take value.n).length = value.n :=
    length_take_of_le (by rw [length_drop]; omega)
  have htext :
      t.take name.n ++ ((t.drop name.n).take value.n ++ t.drop (name.n + value.n)) = t := by
    rw [← drop_drop, take_append_drop, take_append_drop]
  simp only [write, nameLength, valueLength, hn, hv, append_assoc, htext]
  rw [hname, hvalue]
  rfl

def framing : Framing UInt8 Param where
  write := write
  read := read
  read_eq_some_iff := ⟨eq_write_of_read, fun h ↦ h ▸ read_write _ _⟩
  write_ne_nil p := by
    have hne := Length.framing.write_ne_nil p.nameLength
    exact fun hnil ↦ hne (append_eq_nil_iff.mp hnil).1

end Param

/-- The names and values of a stream. -/
def decodeParams (s : List UInt8) : Option (List (List UInt8 × List UInt8)) :=
  (Param.framing.decode s).map fun ps ↦ ps.map fun p ↦ (p.name, p.value)

end Fcgi

end Hypershunt
