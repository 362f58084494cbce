import Hypershunt.Foundation.Loop
import Hypershunt.WebSocket.Frame
import Mathlib.Data.Fintype.Basic

/-!
# Translating the masking of a stream

`translate_masking` of `handler/proxy/upgrade/ws.rs`: frames are read in whatever pieces the
transport delivers, and written again with the mask that the other side of the bridge requires. The
random keys are a sequence that is given; the writer is what has been written.

## The meaning of a state

The loop holds some bytes, expects others, and is inside a payload or between frames. `meaning` is
what it will have written in the end, said in terms of all bytes that are still to come and not of
the pieces they come in. No round of the loop changes it, so the loop computes it: that is
`translateMasking_eq`, and it is where the splitting of the stream disappears.
-/

namespace Hypershunt

open List

namespace WebSocket

inductive MaskMode
  | unmask
  | mask
  deriving DecidableEq

/-- The keys that will be drawn. -/
abbrev Rng := ℕ → Key

namespace MaskMode

/-- The key of an outbound frame, given the next random one. -/
def outKey (mode : MaskMode) (random : Key) : Option Key :=
  match mode with
  | .mask => some random
  | .unmask => none

/-- The keys that are left: none is drawn for a frame without a mask. -/
def next (mode : MaskMode) (rng : Rng) : Rng :=
  match mode with
  | .mask => fun i ↦ rng (i + 1)
  | .unmask => rng

theorem outKey_next (mode : MaskMode) (rng : Rng) (i : ℕ) :
    mode.outKey (mode.next rng i) = mode.outKey (rng (i + 1)) := by
  rcases mode <;> rfl

end MaskMode

/-- The one key that takes the inbound mask off and puts the outbound one on. -/
def effKey (inKey outKey : Option Key) : Key :=
  fun j ↦ (inKey.elim 0 fun k ↦ k j) ^^^ (outKey.elim 0 fun k ↦ k j)

/-- The key of an inbound frame. -/
def FrameHeader.inKey (h : FrameHeader) : Option Key := if h.masked then some h.maskKey else none

@[simp] theorem Head.inKey_parsed (hd : Head) : hd.parsed.inKey = hd.key := by
  obtain ⟨first, length, _ | k⟩ := hd
  · rfl
  · rfl

/-- What a reader delivers, one read after the other; nothing only at the end of the stream. -/
structure Reader where
  chunks : List (List UInt8)
  nonempty : [] ∉ chunks

open Reader

namespace Reader

/-- All bytes that are still to come. -/
def bytes (r : Reader) : List UInt8 := r.chunks.flatten

def read (r : Reader) : List UInt8 := r.chunks.headD []

def rest (r : Reader) : Reader := ⟨r.chunks.tail, fun h ↦ r.nonempty (mem_of_mem_tail h)⟩

end Reader

inductive State
  | header
  | payload (remaining : ℕ) (eff : Key) (offset : ℕ)

structure Translator where
  acc : List UInt8
  state : State
  reader : Reader
  rng : Rng
  written : List UInt8

open Translator

structure Outcome where
  written : List UInt8
  result : Except IoError Unit
  deriving DecidableEq

open Outcome

def partialHeader : IoError := ⟨.unexpectedEof, "ws: partial frame header at EOF"⟩

def truncatedPayload : IoError := ⟨.unexpectedEof, "ws: truncated frame payload at EOF"⟩

namespace Translator

def start (reader : Reader) (rng : Rng) : Translator := ⟨[], .header, reader, rng, []⟩

/-- Read once. -/
def pull (t : Translator) : Translator :=
  { t with acc := t.acc ++ t.reader.read, reader := t.reader.rest }

/-- Read if nothing is at hand. -/
def refill (t : Translator) : Translator := if t.acc = [] then t.pull else t

/-- Write the header of the outbound frame and go on to the payload. -/
def startPayload (mode : MaskMode) (h : FrameHeader) (t : Translator) : Translator :=
  let outKey := mode.outKey (t.rng 0)
  { t with
    acc := t.acc.drop h.headerLen
    state := .payload h.payloadLen (effKey h.inKey outKey) 0
    rng := mode.next t.rng
    written := t.written ++ emitHeader h.finRsvOpcode h.payloadLen outKey }

/-- Write as much of the payload as is there. -/
def forward (remaining : ℕ) (eff : Key) (offset : ℕ) (t : Translator) : Translator :=
  let take := min remaining t.acc.length
  let chunk := t.acc.take take
  { t with
    acc := t.acc.drop take
    state := .payload (remaining - take) eff (offset + take)
    -- without any mask the bytes are left as they are
    written := t.written ++ if eff ≠ .zero then xorFrom eff offset chunk else chunk }

/-- One round of the loop. -/
def round (mode : MaskMode) (t : Translator) : Translator ⊕ Outcome :=
  match t.state with
  | .header =>
    match parseHeader t.acc with
    | .error e => .inr ⟨t.written, .error e⟩
    | .ok (some h) => .inl (t.startPayload mode h)
    | .ok none =>
      if t.reader.read = [] then
        .inr ⟨t.written, if t.acc = [] then .ok () else .error partialHeader⟩
      else .inl t.pull
  | .payload remaining eff offset =>
    if remaining = 0 then .inl { t with state := .header }
    -- still nothing at hand: the read has reached the end
    else if t.refill.acc = [] then .inr ⟨t.written, .error truncatedPayload⟩
    else .inl (t.refill.forward remaining eff offset)

end Translator

/-! ## The loop ends -/

namespace Reader

variable {r : Reader}

theorem read_append_rest (r : Reader) : r.read ++ r.rest.bytes = r.bytes := by
  obtain ⟨_ | ⟨c, cs⟩, h⟩ := r
  · rfl
  · rfl

theorem read_eq_nil_iff : r.read = [] ↔ r.chunks = [] := by
  obtain ⟨_ | ⟨c, cs⟩, h⟩ := r
  · exact iff_of_true rfl rfl
  · have hc : c ≠ [] := fun hnil ↦ h (hnil ▸ mem_cons_self)
    exact iff_of_false hc (cons_ne_nil _ _)

theorem bytes_of_read_eq_nil (h : r.read = []) : r.bytes = [] := by
  rw [bytes, read_eq_nil_iff.mp h]
  rfl

theorem length_rest_lt (h : r.read ≠ []) : r.rest.chunks.length < r.chunks.length := by
  have hne : r.chunks ≠ [] := fun hnil ↦ h (read_eq_nil_iff.mpr hnil)
  have hpos := length_pos_of_ne_nil hne
  rw [rest, length_tail]
  omega

end Reader

namespace Translator

variable {mode : MaskMode} {t t' : Translator} {o : Outcome}

/-- The bytes that are not yet translated. -/
def stream (t : Translator) : List UInt8 := t.acc ++ t.reader.bytes

@[simp] theorem stream_pull (t : Translator) : t.pull.stream = t.stream := by
  rw [stream, stream, pull, append_assoc, read_append_rest]

/-- **What a round does** when it does not leave the loop. -/
theorem round_inl (h : t.round mode = .inl t') :
    (t.state = .header ∧ ∃ hd rest, t.acc = Head.bytes hd ++ rest ∧
        t' = t.startPayload mode hd.parsed) ∨
      (t.state = .header ∧ t.reader.read ≠ [] ∧ t' = t.pull) ∨
      (∃ eff offset, t.state = .payload 0 eff offset ∧ t' = { t with state := .header }) ∨
      ∃ remaining eff offset, t.state = .payload remaining eff offset ∧ remaining ≠ 0 ∧
        t.refill.acc ≠ [] ∧ t' = t.refill.forward remaining eff offset := by
  unfold round at h
  split at h
  · rename_i hstate
    split at h
    · exact nomatch h
    · rename_i hd hparse
      obtain ⟨hd, rest, hacc, rfl⟩ := exists_head_of_parseHeader hparse
      exact Or.inl ⟨hstate, hd, rest, hacc, (Sum.inl.inj h).symm⟩
    · split_ifs at h with hread
      exact Or.inr (Or.inl ⟨hstate, hread, (Sum.inl.inj h).symm⟩)
  · rename_i remaining eff offset hstate
    split_ifs at h with hremaining hacc
    · subst hremaining
      exact Or.inr (Or.inr (Or.inl ⟨eff, offset, hstate, (Sum.inl.inj h).symm⟩))
    · exact Or.inr (Or.inr (Or.inr
        ⟨remaining, eff, offset, hstate, hremaining, hacc, (Sum.inl.inj h).symm⟩))

@[simp] theorem stream_refill (t : Translator) : t.refill.stream = t.stream := by
  unfold refill
  split_ifs
  · exact stream_pull t
  · rfl

@[simp] theorem rng_refill (t : Translator) : t.refill.rng = t.rng := by
  unfold refill
  split_ifs <;> rfl

@[simp] theorem written_refill (t : Translator) : t.refill.written = t.written := by
  unfold refill
  split_ifs <;> rfl

theorem stream_of_refill (h : t.refill.acc = []) : t.stream = [] := by
  unfold refill at h
  split_ifs at h with hacc
  · rw [pull, hacc] at h
    rw [stream, hacc, bytes_of_read_eq_nil h]
    rfl
  · exact absurd h hacc

theorem chunks_refill_le (t : Translator) :
    t.refill.reader.chunks.length ≤ t.reader.chunks.length := by
  unfold refill
  split_ifs
  · rw [pull, rest, length_tail]
    exact Nat.sub_le _ _
  · exact le_rfl

/-- Every round consumes bytes, or reads, or leaves a payload. -/
def measure (t : Translator) : ℕ :=
  2 * t.stream.length + t.reader.chunks.length + match t.state with
    | .header => 0
    | .payload .. => 1

theorem stream_startPayload {hd : Head} {rest : List UInt8} (h : t.acc = hd.bytes ++ rest) :
    (t.startPayload mode hd.parsed).stream = rest ++ t.reader.bytes := by
  have hacc : (t.startPayload mode hd.parsed).acc = rest := by
    rw [startPayload, h]
    exact drop_left
  rw [stream, hacc]
  rfl

theorem length_stream_forward (remaining : ℕ) (eff : Key) (offset : ℕ) (t : Translator) :
    (t.forward remaining eff offset).stream.length =
      t.stream.length - min remaining t.acc.length := by
  simp only [stream, forward, length_append, length_drop]
  omega

theorem measure_lt (h : t.round mode = .inl t') : t'.measure < t.measure := by
  rcases round_inl h with ⟨hstate, hd, rest, hacc, rfl⟩ | ⟨hstate, hread, rfl⟩ |
    ⟨eff, offset, hstate, rfl⟩ | ⟨remaining, eff, offset, hstate, hremaining, hacc, rfl⟩
  · have hbytes : 2 ≤ hd.bytes.length := by
      simp [Head.bytes]
    have hlength : t.stream.length = hd.bytes.length + (rest ++ t.reader.bytes).length := by
      rw [stream, hacc, append_assoc, length_append]
    rw [measure, measure, stream_startPayload hacc, hstate, hlength]
    change 2 * (rest ++ t.reader.bytes).length + t.reader.chunks.length + 1 < _
    simp only
    omega
  · have hlt := length_rest_lt hread
    rw [measure, measure, stream_pull]
    change 2 * t.stream.length + t.reader.rest.chunks.length + (match t.state with
      | .header => 0
      | .payload .. => 1) < _
    omega
  · rw [measure, measure, hstate]
    exact Nat.lt_succ_self _
  · have hpos := length_pos_of_ne_nil hacc
    have hlength := length_stream_forward remaining eff offset t.refill
    have hle : t.refill.acc.length ≤ t.stream.length := by
      rw [← stream_refill, stream, length_append]
      exact Nat.le_add_right _ _
    have hchunks := chunks_refill_le t
    rw [stream_refill] at hlength
    rw [measure, measure, hlength, hstate]
    change 2 * _ + t.refill.reader.chunks.length + 1 < _
    simp only
    omega

end Translator

/-- The loop of the source. -/
def translator (mode : MaskMode) : Loop Translator Outcome where
  body := round mode
  measure := measure
  measure_lt := measure_lt

def translateMasking (reader : Reader) (mode : MaskMode) (rng : Rng) : Outcome :=
  (translator mode).run (.start reader rng)

/-! ## The whole stream at once -/

namespace Outcome

/-- The same outcome after something else has been written. -/
def after (o : Outcome) (bs : List UInt8) : Outcome := { o with written := bs ++ o.written }

@[simp] theorem after_nil (o : Outcome) : o.after [] = o := rfl

@[simp] theorem after_of_nil (bs : List UInt8) (result : Except IoError Unit) :
    after ⟨[], result⟩ bs = ⟨bs, result⟩ := by
  rw [after, append_nil]

theorem after_after (o : Outcome) (bs bs' : List UInt8) :
    (o.after bs).after bs' = o.after (bs' ++ bs) := by
  rw [after, after, after, append_assoc]

end Outcome

theorem length_drop_lt {s : List UInt8} {h : FrameHeader} (hparse : parseHeader s = .ok (some h))
    (n : ℕ) : ((s.drop h.headerLen).drop n).length < s.length := by
  obtain ⟨hd, rest, rfl, rfl⟩ := exists_head_of_parseHeader hparse
  have hdrop : (hd.bytes ++ rest).drop hd.parsed.headerLen = rest := drop_left
  have hpos : 0 < hd.bytes.length := Nat.succ_pos _
  rw [hdrop, length_drop, length_append]
  omega

/-- What is made of a stream between two frames. -/
def pass (mode : MaskMode) (rng : Rng) (s : List UInt8) : Outcome :=
  match _hparse : parseHeader s with
  | .error e => ⟨[], .error e⟩
  | .ok none => ⟨[], if s = [] then .ok () else .error partialHeader⟩
  | .ok (some h) =>
    let outKey := mode.outKey (rng 0)
    let rest := s.drop h.headerLen
    let payload := xorFrom (effKey h.inKey outKey) 0 (rest.take h.payloadLen)
    ((if rest.length < h.payloadLen then ⟨[], .error truncatedPayload⟩
      else pass mode (mode.next rng) (rest.drop h.payloadLen)).after payload).after
        (emitHeader h.finRsvOpcode h.payloadLen outKey)
termination_by s.length
decreasing_by exact length_drop_lt _hparse _

/-- What is made of a stream inside a payload. -/
def passPayload (mode : MaskMode) (rng : Rng) (remaining : ℕ) (eff : Key) (offset : ℕ)
    (s : List UInt8) : Outcome :=
  (if s.length < remaining then ⟨[], .error truncatedPayload⟩
    else pass mode rng (s.drop remaining)).after (xorFrom eff offset (s.take remaining))

section Pass

variable {mode : MaskMode} {rng : Rng} {s rest : List UInt8}

theorem pass_of_error {e : IoError} (h : parseHeader s = .error e) :
    pass mode rng s = ⟨[], .error e⟩ := by
  rw [pass]
  split
  · simp_all
  · simp_all
  · simp_all

theorem pass_of_none (h : parseHeader s = .ok none) :
    pass mode rng s = ⟨[], if s = [] then .ok () else .error partialHeader⟩ := by
  rw [pass]
  split
  · simp_all
  · rfl
  · simp_all

theorem pass_bytes_append (hd : Head) (rest : List UInt8) :
    pass mode rng (hd.bytes ++ rest) =
      (passPayload mode (mode.next rng) hd.length.toNat
        (effKey hd.key (mode.outKey (rng 0))) 0 rest).after
        (emitHeader hd.first hd.length.toNat (mode.outKey (rng 0))) := by
  have hparse := parseHeader_bytes_append hd rest
  have hdrop : (hd.bytes ++ rest).drop hd.parsed.headerLen = rest := drop_left
  rw [pass]
  split
  · simp_all
  · simp_all
  · rename_i h h'
    rw [hparse, Except.ok.injEq, Option.some.injEq] at h'
    subst h'
    simp only [hdrop, Head.inKey_parsed]
    rfl

@[simp] theorem passPayload_zero (eff : Key) (offset : ℕ) (s : List UInt8) :
    passPayload mode rng 0 eff offset s = pass mode rng s := rfl

/-- A piece of the payload is translated on its own, the rest with the offset moved on. -/
theorem passPayload_append {remaining offset : ℕ} {eff : Key} {bs : List UInt8}
    (h : bs.length ≤ remaining) (s : List UInt8) :
    passPayload mode rng remaining eff offset (bs ++ s) =
      (passPayload mode rng (remaining - bs.length) eff (offset + bs.length) s).after
        (xorFrom eff offset bs) := by
  obtain ⟨n, rfl⟩ := Nat.exists_eq_add_of_le h
  have hlength : (bs ++ s).length < bs.length + n ↔ s.length < n := by
    rw [length_append]
    omega
  have htake : (bs ++ s).take (bs.length + n) = bs ++ s.take n := take_length_add_append n
  have hdrop : (bs ++ s).drop (bs.length + n) = s.drop n := drop_length_add_append n
  rw [passPayload, passPayload, Nat.add_sub_cancel_left, after_after, htake, hdrop, xorFrom_append]
  simp only [hlength]

end Pass

namespace Translator

variable {mode : MaskMode} {t t' : Translator} {o : Outcome}

/-- What will have been written in the end. -/
def meaning (mode : MaskMode) (t : Translator) : Outcome :=
  (match t.state with
    | .header => pass mode t.rng t.stream
    | .payload remaining eff offset => passPayload mode t.rng remaining eff offset t.stream).after
      t.written

/-- The bytes at hand are written and then the rest of the payload. -/
theorem meaning_forward (remaining : ℕ) (eff : Key) (offset : ℕ) (t : Translator) :
    (t.forward remaining eff offset).meaning mode =
      (passPayload mode t.rng remaining eff offset t.stream).after t.written := by
  have hlength : (t.acc.take (min remaining t.acc.length)).length =
      min remaining t.acc.length := by
    rw [length_take, Nat.min_assoc, Nat.min_self]
  have hsplit : t.stream = t.acc.take (min remaining t.acc.length) ++
      (t.forward remaining eff offset).stream := by
    rw [stream, stream, forward, ← append_assoc, take_append_drop]
  have hxor : (if eff ≠ .zero then xorFrom eff offset (t.acc.take (min remaining t.acc.length))
      else t.acc.take (min remaining t.acc.length)) =
        xorFrom eff offset (t.acc.take (min remaining t.acc.length)) := by
    split_ifs with heff
    · rfl
    · rw [not_not.mp heff, xorFrom_zero]
  have hle : (t.acc.take (min remaining t.acc.length)).length ≤ remaining := by omega
  rw [hsplit, passPayload_append hle, hlength, after_after, ← hxor]
  rfl

/-- **No round changes the meaning.** -/
theorem meaning_of_round (h : t.round mode = .inl t') : t'.meaning mode = t.meaning mode := by
  rcases round_inl h with ⟨hstate, hd, rest, hacc, rfl⟩ | ⟨hstate, hread, rfl⟩ |
    ⟨eff, offset, hstate, rfl⟩ | ⟨remaining, eff, offset, hstate, hremaining, hacc, rfl⟩
  · have hstream : t.stream = hd.bytes ++ (rest ++ t.reader.bytes) := by
      rw [stream, hacc, append_assoc]
    rw [meaning, meaning, stream_startPayload hacc, hstate, hstream]
    simp only [startPayload, Head.inKey_parsed, pass_bytes_append, after_after]
    rfl
  · have hstate' : t.pull.state = .header := hstate
    rw [meaning, meaning, hstate, hstate', stream_pull]
    rfl
  · rw [meaning, meaning, hstate]
    rfl
  · rw [meaning_forward, stream_refill, rng_refill, written_refill, meaning, hstate]

/-- **Where the loop is left the meaning has been written.** -/
theorem meaning_of_stop (h : t.round mode = .inr o) : t.meaning mode = o := by
  unfold round at h
  unfold meaning
  split at h
  · split at h
    · rename_i e hparse
      obtain rfl := Sum.inr.inj h
      rw [stream, pass_of_error (parseHeader_append_of_error hparse _), after_of_nil]
    · exact nomatch h
    · rename_i hparse
      rw [ite_eq_iff, or_iff_left fun hgo ↦ nomatch hgo.2] at h
      obtain ⟨hread, h⟩ := h
      obtain rfl := Sum.inr.inj h
      rw [stream, bytes_of_read_eq_nil hread, append_nil, pass_of_none hparse, after_of_nil]
  · rename_i remaining eff offset hstate
    split_ifs at h with hremaining hacc
    obtain rfl := Sum.inr.inj h
    have hlength : ([] : List UInt8).length < remaining := Nat.pos_of_ne_zero hremaining
    rw [stream_of_refill hacc, passPayload, if_pos hlength, take_nil, xorFrom_nil,
      after_nil, after_of_nil]

end Translator

theorem translateMasking_eq (reader : Reader) (mode : MaskMode) (rng : Rng) :
    translateMasking reader mode rng = pass mode rng reader.bytes :=
  (translator mode).run_eq (fun _ _ ↦ meaning_of_round)
    fun _ _ ↦ meaning_of_stop

/-! ## Frames in, frames out -/

/-- The frames that are written for the frames that are read. -/
def translation (mode : MaskMode) (rng : Rng) (frames : List Frame) : List Frame :=
  frames.mapIdx fun i f ↦ f.remask (mode.outKey (rng i))

section Frames

variable {mode : MaskMode} {rng : Rng}

/-- One pass takes the old mask off and puts the new one on. -/
theorem xorFrom_effKey (inKey outKey : Option Key) (bs : List UInt8) :
    xorFrom (effKey inKey outKey) 0 (mask inKey bs) = mask outKey bs := by
  rw [mask_eq, mask_eq, xorFrom_xorFrom]
  congr 1
  funext j
  have helim : ∀ key : Option Key, key.getD .zero j = key.elim 0 fun k ↦ k j := by
    rintro (_ | k)
    · rfl
    · rfl
  rw [effKey, helim, helim, ← UInt8.xor_assoc, UInt8.xor_self, UInt8.zero_xor]

theorem emitHeader_frame (f : Frame) (key : Option Key) :
    emitHeader f.first f.length.toNat key = (f.remask key).bytes := by
  rw [← f.payload_length]
  exact emitHeader_eq f.first f.length_payload_lt key

theorem pass_write_append (f : Frame) (rest : List UInt8) :
    pass mode rng (f.write ++ rest) =
      (pass mode (mode.next rng) rest).after (f.remask (mode.outKey (rng 0))).write := by
  have hlength : (mask f.key f.payload).length = f.length.toNat :=
    (length_mask ..).trans f.payload_length
  rw [Frame.write, append_assoc, pass_bytes_append, passPayload_append hlength.le, hlength,
    Nat.sub_self, passPayload_zero, xorFrom_effKey, after_after, emitHeader_frame]
  rfl

theorem outKey_iterate_next (mode : MaskMode) (rng : Rng) (n i : ℕ) :
    mode.outKey ((mode.next^[n] rng) i) = mode.outKey (rng (n + i)) := by
  induction n generalizing rng with
  | zero => rw [Nat.zero_add]; rfl
  | succ n ih => rw [Function.iterate_succ_apply, ih, MaskMode.outKey_next]; congr 2; omega

/-- Complete frames are translated one after the other. -/
theorem pass_flatMap_append (mode : MaskMode) (rng : Rng) (frames : List Frame)
    (tail : List UInt8) :
    pass mode rng (frames.flatMap framing.write ++ tail) =
      (pass mode (mode.next^[frames.length] rng) tail).after
        ((translation mode rng frames).flatMap framing.write) := by
  induction frames generalizing rng with
  | nil => rfl
  | cons f frames ih =>
    have htranslation : translation mode rng (f :: frames) =
        f.remask (mode.outKey (rng 0)) :: translation mode (mode.next rng) frames := by
      rw [translation, mapIdx_cons, translation]
      simp only [MaskMode.outKey_next]
    rw [flatMap_cons, append_assoc, htranslation, flatMap_cons, ← after_after, length_cons,
      Function.iterate_succ_apply, ← ih]
    exact pass_write_append f _

theorem pass_of_prefix_payload (mode : MaskMode) (rng : Rng) {last : Frame} {payload : List UInt8}
    (hcut : payload <+: mask last.key last.payload) (hne : payload ≠ mask last.key last.payload) :
    ∃ part e, pass mode rng (last.bytes ++ payload) = ⟨part, .error e⟩ ∧
      part <+: (last.remask (mode.outKey (rng 0))).write := by
  have hlength : payload.length < last.length.toNat := by
    rw [← last.payload_length, ← length_mask last.key last.payload]
    exact lt_of_le_of_ne hcut.length_le fun h ↦ hne (hcut.eq_of_length h)
  obtain ⟨rest, hrest⟩ := hcut
  have hmask := xorFrom_effKey last.key (mode.outKey (rng 0)) last.payload
  rw [← hrest, xorFrom_append] at hmask
  refine ⟨(last.remask (mode.outKey (rng 0))).bytes ++
    xorFrom (effKey last.key (mode.outKey (rng 0))) 0 payload, truncatedPayload, ?_, ?_⟩
  · rw [pass_bytes_append, passPayload, if_pos hlength, take_of_length_le hlength.le,
      after_of_nil, emitHeader_frame]
    rfl
  · refine (prefix_append_right_inj _).mpr ?_
    change _ <+: mask (mode.outKey (rng 0)) last.payload
    rw [← hmask]
    exact prefix_append _ _

/-- A frame that is cut off is an error, after the beginning of its translation. -/
theorem pass_of_prefix (mode : MaskMode) (rng : Rng) {last : Frame} {tail : List UInt8}
    (hcut : tail <+: last.write) (hne : tail ≠ last.write) (hnil : tail ≠ []) :
    ∃ part e, pass mode rng tail = ⟨part, .error e⟩ ∧
      part <+: (last.remask (mode.outKey (rng 0))).write := by
  rcases prefix_or_prefix_of_prefix hcut (prefix_append last.bytes _) with
    hhead | ⟨payload, rfl⟩
  · by_cases hbytes : tail = last.bytes
    · subst hbytes
      have hmask : [] ≠ mask last.key last.payload := by
        intro hmask
        rw [Frame.write, ← hmask, append_nil] at hne
        exact hne rfl
      have hpart := pass_of_prefix_payload mode rng nil_prefix hmask
      rwa [append_nil] at hpart
    · refine ⟨[], partialHeader, ?_, nil_prefix⟩
      rw [pass_of_none (parseHeader_eq_none hhead hbytes), if_neg hnil]
  · refine pass_of_prefix_payload mode rng ((prefix_append_right_inj _).mp hcut) ?_
    rintro rfl
    exact hne rfl

/-- What no mask touches is the same before and after. -/
theorem map_translation {α : Type*} {g : Frame → α} (mode : MaskMode) (rng : Rng)
    (frames : List Frame) (hg : ∀ f key, g (Frame.remask f key) = g f) :
    (translation mode rng frames).map g = frames.map g := by
  refine ext_getElem (by simp [translation]) fun i _ _ ↦ ?_
  simp only [translation, getElem_map, getElem_mapIdx, hg]

/-- **The translation of a stream.** Complete frames come out with their first bytes and payloads
and with the masks of the mode, however they are split into reads. A stream that ends inside a frame
is an error, after the frames before it and a part of its own. -/
theorem translateMasking_frames (mode : MaskMode) (rng : Rng) (frames : List Frame)
    (reader : Reader) :
    (reader.bytes = frames.flatMap framing.write →
      (translateMasking reader mode rng).result = .ok () ∧
      ∃ out, framing.decode (translateMasking reader mode rng).written = some out ∧
        out.map (·.first) = frames.map (·.first) ∧ out.map (·.payload) = frames.map (·.payload) ∧
        ∀ f ∈ out, f.key.isSome = decide (mode = .mask)) ∧
    (∀ reader' : Reader, reader'.bytes = reader.bytes →
      translateMasking reader' mode rng = translateMasking reader mode rng) ∧
    ∀ last tail, reader.bytes = frames.flatMap framing.write ++ tail →
      tail <+: framing.write last → tail ≠ framing.write last → tail ≠ [] →
      ∃ part e, translateMasking reader mode rng =
          ⟨(translation mode rng frames).flatMap framing.write ++ part, .error e⟩ ∧
        part <+: framing.write (last.remask (mode.outKey (rng frames.length))) := by
  refine ⟨fun hframes ↦ ?_, fun reader' hbytes ↦ ?_, fun last tail hbytes hcut hne hnil ↦ ?_⟩
  · have hpass := pass_flatMap_append mode rng frames []
    rw [append_nil] at hpass
    rw [translateMasking_eq, hframes, hpass, pass_of_none rfl, after_of_nil]
    refine ⟨rfl, _, framing.decode_eq_some_iff.mpr rfl, ?_, ?_, fun f hf ↦ ?_⟩
    · exact map_translation mode rng frames fun _ _ ↦ rfl
    · exact map_translation mode rng frames fun _ _ ↦ rfl
    · obtain ⟨i, hi, rfl⟩ := mem_mapIdx.mp hf
      rcases mode <;> rfl
  · rw [translateMasking_eq, translateMasking_eq, hbytes]
  · obtain ⟨part, e, hpass, hpart⟩ := pass_of_prefix mode (mode.next^[frames.length] rng)
      hcut hne hnil
    refine ⟨part, e, ?_, ?_⟩
    · rw [translateMasking_eq, hbytes, pass_flatMap_append, hpass]
      rfl
    · rwa [outKey_iterate_next, Nat.add_zero] at hpart

end Frames

end WebSocket

end Hypershunt
