import Hypershunt.Fcgi.Record

/-!
# FastCGI answers

`parse_fcgi_stdout` of `handler/fcgi.rs` joins the output records of everything that a FastCGI
server sent before it closed the connection.

An answer is a list of records of which the last, and no other, ends the request. All of one is
joined, whatever follows it. The loop leaves a record out of account until eight bytes of it are
there, so that an answer which stops between two records, or in the first eight bytes of one, counts
as complete.
-/

namespace Hypershunt

open List

namespace Fcgi

open BigEndian (toBytes ofBytes)

def fcgiEndRequest : UInt8 := 3

def fcgiStdout : UInt8 := 6

/-- The loop of `parse_fcgi_stdout`. Records of other types are skipped. -/
def collectStdout (pos : ℕ) (stdout : List UInt8) : List UInt8 → Except String (List UInt8)
  | _ :: type :: _ :: _ :: len1 :: len0 :: pad :: _ :: s =>
    if s.length < ofBytes [len1, len0] + pad.toNat then
      .error ("truncated fastcgi record at byte " ++ Nat.repr pos)
    else if type = fcgiEndRequest then .ok stdout
    else
      collectStdout (pos + (8 + (ofBytes [len1, len0] + pad.toNat)))
        (if type = fcgiStdout then stdout ++ s.take (ofBytes [len1, len0]) else stdout)
        (s.drop (ofBytes [len1, len0] + pad.toNat))
  | _ => .ok stdout
termination_by s => s.length
decreasing_by
  simp only [length_drop, length_cons]
  omega

def parseFcgiStdout (data : List UInt8) : Except String (List UInt8) := collectStdout 0 [] data

/-! ## Answers -/

/-- What a record adds to the output. -/
def Record.stdout (r : Record) : List UInt8 := if r.type = fcgiStdout then r.content else []

/-- Everything that a server sends for one request. -/
structure Answer where
  records : List Record
  ending : Record
  records_ne : ∀ r ∈ records, r.type ≠ fcgiEndRequest
  ending_eq : ending.type = fcgiEndRequest

namespace Answer

def bytes (a : Answer) : List UInt8 := (a.records ++ [a.ending]).flatMap Record.write

/-- The contents of the output records. -/
def stdout (a : Answer) : List UInt8 := a.records.flatMap Record.stdout

end Answer

/-- The first `k` bytes of the records end after the header of one of them and before its end. -/
def CutInside (rs : List Record) (k : ℕ) : Prop :=
  ∃ before r after, rs = before ++ r :: after ∧
    (before.flatMap Record.write).length + 8 ≤ k ∧
    k < (before.flatMap Record.write).length + r.write.length

/-! ## One record -/

section Step

variable {r : Record} {pos k : ℕ} {out rest s : List UInt8}

/-- The content and padding that follow a header, of which some may be missing. -/
theorem collectStdout_header_append (rest : List UInt8)
    (hs : s <+: r.content ++ r.padding ++ rest) :
    collectStdout pos out (r.header ++ s) =
      if s.length < r.content.length + r.padding.length then
        .error ("truncated fastcgi record at byte " ++ Nat.repr pos)
      else if r.type = fcgiEndRequest then .ok out
      else collectStdout (pos + r.write.length) (out ++ r.stdout)
        (s.drop (r.content.length + r.padding.length)) := by
  have hlen : ofBytes (toBytes 2 r.content.length) = r.content.length :=
    BigEndian.ofBytes_toBytes r.content_lt
  have hpad : (UInt8.ofNat r.padding.length).toNat = r.padding.length :=
    UInt8.toNat_ofNat_of_lt' r.padding_lt
  rw [toBytes, toBytes, toBytes] at hlen
  rw [Record.header, toBytes, toBytes, toBytes]
  simp only [cons_append, nil_append]
  rw [collectStdout, hlen, hpad]
  refine ite_congr rfl (fun _ ↦ rfl) fun hwhole ↦ ite_congr rfl (fun _ ↦ rfl) fun _ ↦ ?_
  have hcontent : s.take r.content.length = r.content := by
    obtain ⟨t, ht⟩ := hs
    have htake := congrArg (List.take r.content.length) ht
    rwa [take_append_of_le_length (by omega), append_assoc, take_append_of_le_length (by omega),
      take_length] at htake
  rw [hcontent, Record.length_write, Record.stdout, Nat.add_assoc 8]
  split_ifs
  · rfl
  · rw [append_nil]

theorem collectStdout_write_append (r : Record) (rest : List UInt8) :
    collectStdout pos out (r.write ++ rest) =
      if r.type = fcgiEndRequest then .ok out
      else collectStdout (pos + r.write.length) (out ++ r.stdout) rest := by
  have hwhole : ¬(r.content ++ r.padding ++ rest).length <
      r.content.length + r.padding.length := by
    simp only [length_append]
    omega
  rw [Record.write, append_assoc, append_assoc, ← append_assoc r.content,
    collectStdout_header_append rest prefix_rfl, if_neg hwhole, drop_left' length_append]
  rfl

theorem collectStdout_of_length_lt (h : s.length < 8) : collectStdout pos out s = .ok out := by
  rw [collectStdout.eq_def]
  split
  · simp only [length_cons] at h
    omega
  · rfl

theorem collectStdout_take_write (h8 : 8 ≤ k) (hk : k < r.write.length) :
    ∃ e, collectStdout pos out ((r.write ++ rest).take k) = .error e := by
  have hheader : r.header.length = 8 := rfl
  rw [Record.length_write] at hk
  rw [take_append_of_le_length (by rw [Record.length_write]; omega), Record.write, append_assoc,
    take_append, take_of_length_le (hheader.trans_le h8), hheader]
  have hprefix : (r.content ++ r.padding).take (k - 8) <+: r.content ++ r.padding ++ [] := by
    rw [append_nil]
    exact take_prefix _ _
  refine ⟨_, (collectStdout_header_append [] hprefix).trans (if_pos ?_)⟩
  rw [length_take, length_append]
  omega

end Step

/-! ## Cuts -/

section Cuts

variable {r : Record} {rs : List Record} {k : ℕ}

theorem cutInside_cons_of_lt (hk : k < r.write.length) : CutInside (r :: rs) k ↔ 8 ≤ k := by
  constructor
  · rintro ⟨before, r', after, hrs, h8, -⟩
    omega
  · intro h8
    exact ⟨[], r, rs, rfl, by simpa using h8, by simpa using hk⟩

theorem cutInside_cons_of_le (hk : r.write.length ≤ k) :
    CutInside (r :: rs) k ↔ CutInside rs (k - r.write.length) := by
  constructor
  · rintro ⟨before, r', after, hrs, h8, hlt⟩
    rcases before with _ | ⟨r'', before⟩
    · obtain ⟨rfl, rfl⟩ := List.cons.inj hrs
      simp only [flatMap_nil, length_nil, Nat.zero_add] at hlt
      omega
    · obtain ⟨rfl, rfl⟩ := List.cons.inj hrs
      rw [flatMap_cons, length_append] at h8 hlt
      exact ⟨before, r', after, rfl, by omega, by omega⟩
  · rintro ⟨before, r', after, rfl, h8, hlt⟩
    refine ⟨r :: before, r', after, rfl, ?_, ?_⟩ <;>
      rw [flatMap_cons, length_append] <;> omega

end Cuts

/-! ## Whole answers -/

section Whole

variable {rs : List Record} {e : Record} {pos k : ℕ} {out rest : List UInt8}

theorem collectStdout_flatMap (hrs : ∀ r ∈ rs, r.type ≠ fcgiEndRequest) :
    collectStdout pos out (rs.flatMap Record.write ++ rest) =
      collectStdout (pos + (rs.flatMap Record.write).length) (out ++ rs.flatMap Record.stdout)
        rest := by
  induction rs generalizing pos out with
  | nil => simp
  | cons r rs ih =>
    rw [flatMap_cons, append_assoc, collectStdout_write_append, if_neg (hrs r mem_cons_self),
      ih fun r hr ↦ hrs r (mem_cons_of_mem _ hr), flatMap_cons, length_append, ← append_assoc,
      Nat.add_assoc]

theorem collectStdout_take_first {r : Record} (hk : k < r.write.length) :
    (∃ err, collectStdout pos out (((r :: rs).flatMap Record.write).take k) = .error err) ↔
      CutInside (r :: rs) k := by
  rw [cutInside_cons_of_lt hk, flatMap_cons]
  refine ⟨fun herr ↦ ?_, fun h8 ↦ collectStdout_take_write h8 hk⟩
  by_contra h8
  rw [collectStdout_of_length_lt ((length_take_le _ _).trans_lt (not_le.mp h8))] at herr
  exact nomatch herr

/-- A cut is noticed when it is inside a record, after the header. -/
theorem collectStdout_take (hrs : ∀ r ∈ rs, r.type ≠ fcgiEndRequest)
    (hk : k < ((rs ++ [e]).flatMap Record.write).length) :
    (∃ err, collectStdout pos out (((rs ++ [e]).flatMap Record.write).take k) = .error err) ↔
      CutInside (rs ++ [e]) k := by
  induction rs generalizing pos out k with
  | nil => exact collectStdout_take_first (by simpa using hk)
  | cons r rs ih =>
    rcases lt_or_ge k r.write.length with hlt | hle
    · exact collectStdout_take_first hlt
    · -- the first record is whole, and the cut is in what follows
      rw [cons_append, flatMap_cons, length_append] at hk
      rw [cons_append, cutInside_cons_of_le hle, flatMap_cons, take_append, take_of_length_le hle,
        collectStdout_write_append, if_neg (hrs r mem_cons_self)]
      exact ih (fun r hr ↦ hrs r (mem_cons_of_mem _ hr)) (by omega)

end Whole

/-- **A whole answer is joined whatever follows it, and a cut one is rejected exactly when the cut
is inside a record whose header has arrived.** -/
theorem answer_joined_or_rejected_iff (a : Answer) :
    (∀ rest, parseFcgiStdout (a.bytes ++ rest) = .ok a.stdout) ∧
      ∀ k < a.bytes.length, (∃ e, parseFcgiStdout (a.bytes.take k) = .error e) ↔
        CutInside (a.records ++ [a.ending]) k := by
  refine ⟨fun rest ↦ ?_, fun k hk ↦ collectStdout_take a.records_ne hk⟩
  rw [parseFcgiStdout, Answer.bytes, flatMap_append, append_assoc, collectStdout_flatMap
    a.records_ne, flatMap_singleton, collectStdout_write_append, if_pos a.ending_eq, nil_append]
  rfl

/-- Half of the output is there, the other half and the end of the request are not. -/
private def halfAnswer : Answer where
  records := [⟨1, fcgiStdout, 0, 1, 0, [65, 66], by decide, [], by decide⟩,
    ⟨1, fcgiStdout, 0, 1, 0, [67], by decide, [], by decide⟩]
  ending := ⟨1, fcgiEndRequest, 0, 1, 0, [0, 0, 0, 0, 0, 0, 0, 0], by decide, [], by decide⟩
  records_ne := by decide
  ending_eq := rfl

theorem answer_cut_between_records :
    halfAnswer.stdout = [65, 66, 67] ∧ 10 < halfAnswer.bytes.length ∧
      parseFcgiStdout (halfAnswer.bytes.take 10) = .ok [65, 66] ∧
      parseFcgiStdout (halfAnswer.bytes.take 17) = .ok [65, 66] := by
  have h10 : halfAnswer.bytes.take 10 =
      (halfAnswer.records.take 1).flatMap Record.write ++ [] := by decide
  have h17 : halfAnswer.bytes.take 17 =
      (halfAnswer.records.take 1).flatMap Record.write ++ [1, 6, 0, 1, 0, 1, 0] := by decide
  have hfirst : ∀ r ∈ halfAnswer.records.take 1, r.type ≠ fcgiEndRequest := by decide
  refine ⟨by decide, by decide, ?_, ?_⟩
  · rw [parseFcgiStdout, h10, collectStdout_flatMap hfirst, collectStdout_of_length_lt (by decide)]
    decide
  · rw [parseFcgiStdout, h17, collectStdout_flatMap hfirst, collectStdout_of_length_lt (by decide)]
    decide

end Fcgi

end Hypershunt
