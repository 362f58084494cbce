import Hypershunt.Fcgi.Record

/-!
# What a FastCGI server makes of a request

A server splits the bytes of `build_fcgi_request` into records, expects the begin record first, then
the records of the parameters and then those of the body, each of the two streams ended by an empty
record, and puts the contents of each stream together.

It recovers the request exactly if both the encoded parameters and the body are shorter than 2^16
bytes. The encoder makes one record of each stream, and the length of longer content is cut to its
low two bytes, so the server takes what follows for another record. That the server cannot recover
the request even by luck is shown by counting bytes: content of that size needs three records where
the encoder has written two, and the paddings cannot make up for the header of the third.
-/

namespace Hypershunt

open List Option

namespace Fcgi

open BigEndian (toBytes ofBytes)

open Record Text

/-! ## Reading a request -/

/-- The contents of a stream, put together. -/
def contents (rs : List Record) : List UInt8 := rs.flatMap content

@[simp] theorem contents_cons (r : Record) (rs : List Record) :
    contents (r :: rs) = r.content ++ contents rs := rfl

@[simp] theorem contents_append (rs rs' : List Record) :
    contents (rs ++ rs') = contents rs ++ contents rs' :=
  flatMap_append

/-- The last record of a stream is empty. -/
def ended (rs : List Record) : Bool := rs.getLast?.any fun r ↦ r.content.isEmpty

/-- A record of the only request on the connection. -/
def Record.wellFormed (r : Record) : Bool :=
  r.version == fcgiVersion && ofBytes [r.id1, r.id0] == requestId

/-- The parameters and the body, as a server reads them. -/
def readRequest (s : List UInt8) : Option (List (List UInt8 × List UInt8) × List UInt8) :=
  match framing.decode s with
  | some (first :: rest) =>
    let params := rest.takeWhile fun r ↦ r.type == fcgiParams
    let stdin := rest.dropWhile fun r ↦ r.type == fcgiParams
    if (first :: rest).all wellFormed ∧ first.type = fcgiBeginRequest ∧
        first.content.take 2 = toBytes 2 fcgiResponder ∧ ended params ∧ ended stdin ∧
        stdin.all fun r ↦ r.type == fcgiStdin then
      (decodeParams (contents params)).map fun env ↦ (env, contents stdin)
    else none
  | _ => none

/-! ## The encoder and the format -/

theorem paddingFor_lt (len : ℕ) : paddingFor len < 8 := Nat.mod_lt _ (by decide)

/-- The record that `build_record` means to write. -/
def Record.of (type : UInt8) (content : List UInt8) (h : content.length < 2 ^ 16) : Record where
  version := fcgiVersion
  type := type
  id1 := 0
  id0 := 1
  reserved := 0
  content := content
  content_lt := h
  padding := replicate (paddingFor content.length) 0
  padding_lt := by
    rw [length_replicate]
    exact (paddingFor_lt _).trans (by decide)

variable {content body : List UInt8} {type : UInt8} {env : List (String × String)}
  {rs : List Record} {rest rest' : List UInt8}

theorem buildRecord_eq_write (type : UInt8) (h : content.length < 2 ^ 16) :
    buildRecord type content = framing.write (of type content h) := by
  simp only [framing, buildRecord, write, header, of, length_replicate]
  rfl

theorem length_buildRecord (type : UInt8) (content : List UInt8) :
    (buildRecord type content).length = 8 + content.length + paddingFor content.length := by
  simp only [buildRecord, length_append, length_cons, length_nil, length_replicate,
    BigEndian.length_toBytes]

/-- What a reader takes from the header of a record that was built, long content or not. -/
theorem header_of_write_append {r : Record}
    (h : framing.write r ++ rest = buildRecord type content ++ rest') :
    r.type = type ∧ r.padding.length = paddingFor content.length := by
  simp only [framing, write, header, buildRecord, toBytes, cons_append,
    nil_append, append_assoc, cons.injEq] at h
  obtain ⟨-, htype, -, -, -, -, hpadding, -⟩ := h
  have hpad := congrArg UInt8.toNat hpadding
  rw [UInt8.toNat_ofNat_of_lt' r.padding_lt,
    UInt8.toNat_ofNat_of_lt' ((paddingFor_lt _).trans (by decide))] at hpad
  exact ⟨htype, hpad⟩

theorem lt_lengthBound {n : ℕ} (h : n < 2 ^ 31) : n < lengthBound (decide (128 ≤ n)) := by
  rw [lengthBound]
  split_ifs with hlong
  · exact h
  · simpa using hlong

theorem encodeLength_eq_write {n : ℕ} (h : n < 2 ^ 31) :
    encodeLength n = Length.write ⟨decide (128 ≤ n), n, lt_lengthBound h⟩ := by
  rw [encodeLength, Length.write]
  by_cases hshort : n < 128
  · simp [hshort]
  · have hor : n % 2 ^ 32 ||| 0x80000000 = 2 ^ 31 + n := by
      have hadd := Nat.two_pow_add_eq_or_of_lt h 1
      rw [Nat.mod_eq_of_lt (h.trans (by decide)), Nat.or_comm]
      simpa using hadd.symm
    rw [if_neg hshort, hor, if_pos (decide_eq_true (not_lt.mp hshort))]

/-- The parameter that `encode_params` means to write. -/
def Param.of (name value : List UInt8) (hname : name.length < 2 ^ 31)
    (hvalue : value.length < 2 ^ 31) : Param :=
  ⟨name, value, _, _, lt_lengthBound hname, lt_lengthBound hvalue⟩

theorem encodeParam_eq_write {name value : List UInt8} (hname : name.length < 2 ^ 31)
    (hvalue : value.length < 2 ^ 31) :
    encodeParam name value = Param.framing.write (Param.of name value hname hvalue) := by
  rw [encodeParam, encodeLength_eq_write hname, encodeLength_eq_write hvalue, append_assoc,
    append_assoc]
  rfl

theorem length_encodeLength_le (l : Length) : (encodeLength l.n).length ≤ l.write.length := by
  obtain ⟨_ | _, n, hlt⟩ := l
  · have hshort : n < 128 := hlt
    simp [encodeLength, Length.write, hshort]
  · simp only [encodeLength, Length.write, if_true, BigEndian.length_toBytes]
    split_ifs
    · exact Nat.one_le_of_lt (by decide : 0 < 4)
    · rw [BigEndian.length_toBytes]

theorem length_encodeParam_le (p : Param) :
    (encodeParam p.name p.value).length ≤ (Param.framing.write p).length := by
  have hname := length_encodeLength_le p.nameLength
  have hvalue := length_encodeLength_le p.valueLength
  simp only [Param.nameLength, Param.valueLength] at hname hvalue
  simp only [Param.framing, Param.write, Param.nameLength, Param.valueLength, encodeParam,
    length_append]
  omega

/-! ## Parameters -/

/-- A variable as the bytes of its name and its value. -/
def varBytes (v : String × String) : List UInt8 × List UInt8 := (bytes v.1, bytes v.2)

/-- Names and values of lengths that can be encoded. -/
def Encodable (env : List (String × String)) : Prop :=
  ∀ v ∈ env, (bytes v.1).length < 2 ^ 31 ∧ (bytes v.2).length < 2 ^ 31

theorem encodeParams_cons (v : String × String) (env : List (String × String)) :
    encodeParams (v :: env) = encodeParam (bytes v.1) (bytes v.2) ++ encodeParams env :=
  rfl

theorem decodeParams_encodeParams (henv : Encodable env) :
    decodeParams (encodeParams env) = some (env.map varBytes) := by
  have hparams : ∃ ps : List Param, ps.flatMap Param.framing.write = encodeParams env ∧
      ps.map (fun p ↦ (p.name, p.value)) = env.map varBytes := by
    induction env with
    | nil => exact ⟨[], rfl, rfl⟩
    | cons v env ih =>
      obtain ⟨hv, henv⟩ := forall_mem_cons.mp henv
      obtain ⟨ps, hwrite, hmap⟩ := ih henv
      refine ⟨Param.of _ _ hv.1 hv.2 :: ps, ?_, ?_⟩
      · rw [flatMap_cons, hwrite, encodeParams_cons, encodeParam_eq_write hv.1 hv.2]
      · rw [map_cons, hmap, map_cons]
        rfl
  obtain ⟨ps, hwrite, hmap⟩ := hparams
  rw [decodeParams, Param.framing.decode_eq_some_iff.mpr hwrite.symm, map_some, hmap]

theorem length_encodeParams_le {s : List UInt8} (h : decodeParams s = some (env.map varBytes)) :
    (encodeParams env).length ≤ s.length := by
  obtain ⟨ps, hdecode, hmap⟩ := map_eq_some_iff.mp h
  rw [Param.framing.decode_eq_some_iff] at hdecode
  clear h
  subst hdecode
  induction ps generalizing env with
  | nil =>
    obtain rfl := map_eq_nil_iff.mp hmap.symm
    exact le_rfl
  | cons p ps ih =>
    rcases env with _ | ⟨v, env⟩
    · exact Nat.zero_le _
    · rw [map_cons, map_cons, cons.injEq] at hmap
      obtain ⟨hp, hmap⟩ := hmap
      obtain ⟨hname, hvalue⟩ := Prod.mk.inj hp
      have hrest := ih hmap
      have hfirst := length_encodeParam_le p
      rw [hname, hvalue] at hfirst
      rw [encodeParams_cons, flatMap_cons, length_append, length_append]
      exact Nat.add_le_add hfirst hrest

/-! ## Counting bytes -/

/-- The padding of some records. -/
def paddings (rs : List Record) : ℕ := (rs.map fun r ↦ r.padding.length).sum

@[simp] theorem paddings_cons (r : Record) (rs : List Record) :
    paddings (r :: rs) = r.padding.length + paddings rs := rfl

theorem length_flatMap_write (rs : List Record) :
    (rs.flatMap framing.write).length =
      8 * rs.length + (contents rs).length + paddings rs := by
  induction rs with
  | nil => rfl
  | cons r rs ih =>
    have hr : (framing.write r).length = 8 + r.content.length + r.padding.length :=
      r.length_write
    rw [flatMap_cons, length_append, ih, hr, contents_cons, length_append, length_cons,
      paddings_cons]
    omega

theorem length_contents_le (rs : List Record) :
    (contents rs).length ≤ rs.length * (2 ^ 16 - 1) := by
  induction rs with
  | nil => exact le_rfl
  | cons r rs ih =>
    have hr := r.content_lt
    rw [contents_cons, length_append, length_cons]
    omega

theorem exists_eq_append_of_ended (h : ended rs = true) :
    ∃ init last, rs = init ++ [last] ∧ last.content = [] := by
  rcases eq_nil_or_concat rs with rfl | ⟨init, last, rfl⟩
  · exact nomatch h
  · rw [ended, concat_eq_append, getLast?_append] at h
    exact ⟨init, last, concat_eq_append, by simpa using h⟩

theorem length_contents_of_ended (h : ended rs = true) :
    1 ≤ rs.length ∧ (contents rs).length ≤ (rs.length - 1) * (2 ^ 16 - 1) := by
  obtain ⟨init, last, rfl, hlast⟩ := exists_eq_append_of_ended h
  have hcontents : contents (init ++ [last]) = contents init := by
    rw [contents_append, contents_cons, hlast]
    exact append_nil _
  rw [hcontents, length_append]
  exact ⟨Nat.le_add_left 1 _, length_contents_le init⟩

/-- The two records of content that is written, as the counting sees them. -/
theorem length_stream (type : UInt8) (content : List UInt8) :
    (buildRecord type content ++ buildRecord type []).length =
      16 + content.length + paddingFor content.length := by
  rw [length_append, length_buildRecord, length_buildRecord]
  simp only [length_nil, paddingFor]
  omega

/-- The first record of a stream carries the padding that was written for it. -/
theorem paddingFor_le_paddings (hne : rs ≠ [])
    (h : rs.flatMap framing.write ++ rest = buildRecord type content ++ rest') :
    paddingFor content.length ≤ paddings rs := by
  obtain ⟨r, rs, rfl⟩ := exists_cons_of_ne_nil hne
  rw [flatMap_cons, append_assoc] at h
  rw [paddings_cons, (header_of_write_append h).2]
  exact Nat.le_add_right _ _

/-- **A stream of two records**: if it is read from what was written for it, its content is
short. -/
theorem length_lt_of_stream (hended : ended rs = true)
    (hcontents : content.length ≤ (contents rs).length)
    (h : rs.flatMap framing.write = buildRecord type content ++ buildRecord type []) :
    content.length < 2 ^ 16 := by
  have hlength := congrArg length h
  rw [length_flatMap_write, length_stream] at hlength
  obtain ⟨hpos, hfew⟩ := length_contents_of_ended hended
  have hpad := paddingFor_le_paddings (ne_nil_of_length_pos hpos)
    ((append_nil _).trans h)
  -- the eight bytes of a third header are not there
  have htwo : rs.length ≤ 2 := by omega
  calc content.length ≤ (rs.length - 1) * (2 ^ 16 - 1) := hcontents.trans hfew
    _ ≤ 1 * (2 ^ 16 - 1) := Nat.mul_le_mul_right _ (by omega)
    _ < 2 ^ 16 := by decide

/-- The two streams of a request as a server reads them. -/
structure Streams (params stdin : List Record) : Prop where
  params_ended : ended params = true
  stdin_ended : ended stdin = true
  params_type : ∀ r ∈ params, r.type = fcgiParams
  stdin_type : ∀ r ∈ stdin, r.type = fcgiStdin

namespace Streams

variable {params stdin : List Record} {encoded body : List UInt8} (h : Streams params stdin)
  (hwrite : (params ++ stdin).flatMap framing.write =
    (buildRecord fcgiParams encoded ++ buildRecord fcgiParams []) ++
      (buildRecord fcgiStdin body ++ buildRecord fcgiStdin []))

include h hwrite

/-- Longer parameters could only borrow the header of another record from the body, and an empty
body has two headers of the other kind. -/
theorem length_params_lt (hparams : encoded.length ≤ (contents params).length)
    (hstdin : contents stdin = body) : encoded.length < 2 ^ 16 := by
  by_contra hlong
  rw [not_lt] at hlong
  obtain ⟨hposp, hfewp⟩ := length_contents_of_ended h.params_ended
  obtain ⟨hposs, hfews⟩ := length_contents_of_ended h.stdin_ended
  rw [hstdin] at hfews
  have hthree : 3 ≤ params.length := by
    by_contra htwo
    have hone := Nat.mul_le_mul_right (2 ^ 16 - 1) (show params.length - 1 ≤ 1 by omega)
    omega
  have hlength := congrArg length hwrite
  rw [length_append, length_stream, length_stream, flatMap_append, length_append,
    length_flatMap_write, length_flatMap_write, hstdin] at hlength
  obtain ⟨init, last, rfl, hlast⟩ := exists_eq_append_of_ended h.params_ended
  rw [length_append, length_singleton] at hthree hlength
  simp only [flatMap_append, flatMap_singleton, append_assoc] at hwrite
  have hpad := paddingFor_le_paddings (ne_nil_of_length_pos (by omega)) hwrite
  have hpaddings : paddings (init ++ [last]) = paddings init + last.padding.length := by
    simp [paddings]
  rw [hpaddings] at hlength
  rcases body with _ | ⟨b, body⟩
  · -- what is left for the two terminators are the two headers of the empty body
    obtain ⟨sinit, slast, rfl, hslast⟩ := exists_eq_append_of_ended h.stdin_ended
    have hspaddings : paddings (sinit ++ [slast]) = paddings sinit + slast.padding.length := by
      simp [paddings]
    have hempty : paddingFor ([] : List UInt8).length = 0 := rfl
    rw [hspaddings, hempty, length_append, length_singleton, length_nil] at hlength
    obtain rfl : sinit = [] := length_eq_zero_iff.mp (by omega)
    rw [nil_append, flatMap_singleton, ← append_assoc (buildRecord fcgiParams encoded)] at hwrite
    have hterminators := (append_inj' hwrite (by
      have hl : (framing.write last).length = _ := last.length_write
      have hs : (framing.write slast).length = _ := slast.length_write
      rw [length_append, length_append, hl, hs, length_buildRecord, hempty, hlast, hslast,
        length_nil]
      omega)).2
    have hstdinType := (header_of_write_append hterminators).1
    rw [h.params_type last (mem_append_right _ mem_cons_self)] at hstdinType
    exact absurd hstdinType (by decide)
  · have hbody := paddingFor_lt (b :: body).length
    have htwo : 2 ≤ stdin.length := by
      by_contra hone
      have hzero : stdin.length - 1 = 0 := by omega
      rw [hzero, Nat.zero_mul] at hfews
      exact absurd hfews (Nat.not_succ_le_zero _)
    omega

/-- Short parameters are read from the two records written for them, and the body from the
others. -/
theorem stdin_write (hencoded : encoded.length < 2 ^ 16) :
    stdin.flatMap framing.write = buildRecord fcgiStdin body ++ buildRecord fcgiStdin [] := by
  have hne : fcgiParams ≠ fcgiStdin := by decide
  rw [buildRecord_eq_write fcgiParams hencoded, buildRecord_eq_write fcgiParams (by decide),
    append_assoc] at hwrite
  rcases params with _ | ⟨first, params⟩
  · exact absurd h.params_ended (by decide)
  rw [cons_append, flatMap_cons] at hwrite
  obtain ⟨-, hwrite⟩ := framing.write_append_inj hwrite
  rcases params with _ | ⟨second, params⟩
  · -- the second record is one of parameters, so that it is not the first of the body
    obtain ⟨sinit, slast, rfl, -⟩ := exists_eq_append_of_ended h.stdin_ended
    rcases sinit with _ | ⟨r, sinit⟩
    · rw [nil_append, nil_append, flatMap_cons] at hwrite
      have htype := h.stdin_type slast mem_cons_self
      rw [(framing.write_append_inj hwrite).1] at htype
      exact absurd htype hne
    · rw [nil_append, cons_append, flatMap_cons] at hwrite
      have htype := h.stdin_type r mem_cons_self
      rw [(framing.write_append_inj hwrite).1] at htype
      exact absurd htype hne
  rw [cons_append, flatMap_cons] at hwrite
  obtain ⟨-, hwrite⟩ := framing.write_append_inj hwrite
  rcases params with _ | ⟨third, params⟩
  · exact hwrite
  · rw [cons_append, flatMap_cons] at hwrite
    have htype := (header_of_write_append hwrite).1
    rw [h.params_type third (by simp)] at htype
    exact absurd htype hne

/-- **What is recovered is short.** -/
theorem length_lt (hparams : encoded.length ≤ (contents params).length)
    (hstdin : contents stdin = body) : encoded.length < 2 ^ 16 ∧ body.length < 2 ^ 16 := by
  have hencoded := h.length_params_lt hwrite hparams hstdin
  exact ⟨hencoded, length_lt_of_stream h.stdin_ended (hstdin ▸ le_rfl)
    (h.stdin_write hwrite hencoded)⟩

end Streams

/-! ## Recovering a request -/

/-- The content of the begin record. -/
def beginContent : List UInt8 := toBytes 2 fcgiResponder ++ [0, 0, 0, 0, 0, 0]

theorem buildFcgiRequest_eq (env : List (String × String)) (body : List UInt8) :
    buildFcgiRequest env body =
      framing.write (of fcgiBeginRequest beginContent (by decide)) ++
        ((buildRecord fcgiParams (encodeParams env) ++ buildRecord fcgiParams []) ++
          (buildRecord fcgiStdin body ++ buildRecord fcgiStdin [])) := by
  rw [← buildRecord_eq_write, buildFcgiRequest, beginContent]
  simp only [append_assoc]

theorem readRequest_eq_some {s : List UInt8} {env : List (List UInt8 × List UInt8)}
    (h : readRequest s = some (env, body)) :
    ∃ first params stdin, s = framing.write first ++
        (params ++ stdin).flatMap framing.write ∧ Streams params stdin ∧
      decodeParams (contents params) = some env ∧ contents stdin = body := by
  rw [readRequest] at h
  split at h
  case h_2 => exact nomatch h
  case h_1 first rest hdecode =>
    rw [framing.decode_eq_some_iff] at hdecode
    dsimp only at h
    split_ifs at h with hcond
    obtain ⟨-, -, -, hparams, hstdin, htype⟩ := hcond
    obtain ⟨env', henv, hpair⟩ := map_eq_some_iff.mp h
    obtain ⟨rfl, rfl⟩ := Prod.mk.inj hpair
    refine ⟨first, _, _, ?_, ⟨hparams, hstdin, ?_, ?_⟩, henv, rfl⟩
    · rw [takeWhile_append_dropWhile, hdecode, flatMap_cons]
    · intro r hr
      have hmem := mem_takeWhile_imp hr
      exact beq_iff_eq.mp hmem
    · exact fun r hr ↦ beq_iff_eq.mp (all_eq_true.mp htype r hr)

theorem length_lt_of_readRequest
    (h : readRequest (buildFcgiRequest env body) = some (env.map varBytes, body)) :
    (encodeParams env).length < 2 ^ 16 ∧ body.length < 2 ^ 16 := by
  obtain ⟨first, params, stdin, hwrite, hstreams, hparams, hstdin⟩ := readRequest_eq_some h
  rw [buildFcgiRequest_eq] at hwrite
  obtain ⟨-, hwrite⟩ := framing.write_append_inj hwrite
  exact hstreams.length_lt hwrite.symm (length_encodeParams_le hparams) hstdin

theorem wellFormed_of (type : UInt8) (h : content.length < 2 ^ 16) :
    (of type content h).wellFormed = true := by
  change (fcgiVersion == fcgiVersion && ofBytes [0, 1] == requestId) = true
  decide

theorem readRequest_of_length_lt (henv : Encodable env)
    (hparams : (encodeParams env).length < 2 ^ 16) (hbody : body.length < 2 ^ 16) :
    readRequest (buildFcgiRequest env body) = some (env.map varBytes, body) := by
  have hzero : ([] : List UInt8).length < 2 ^ 16 := by decide
  have hdecode : framing.decode (buildFcgiRequest env body) =
      some [.of fcgiBeginRequest beginContent (by decide),
        .of fcgiParams (encodeParams env) hparams, .of fcgiParams [] hzero,
        .of fcgiStdin body hbody, .of fcgiStdin [] hzero] := by
    rw [framing.decode_eq_some_iff, buildFcgiRequest_eq, buildRecord_eq_write _ hparams,
      buildRecord_eq_write _ hbody, buildRecord_eq_write fcgiParams hzero,
      buildRecord_eq_write fcgiStdin hzero]
    simp only [flatMap_cons, flatMap_nil, append_nil, append_assoc]
  have hcontents : contents [of fcgiParams (encodeParams env) hparams,
      .of fcgiParams [] hzero] = encodeParams env := by simp [contents, of]
  have hstdin : contents [of fcgiStdin body hbody, .of fcgiStdin [] hzero] = body := by
    simp [contents, of]
  rw [readRequest, hdecode]
  change (if _ then (decodeParams (contents [of fcgiParams (encodeParams env) hparams,
      .of fcgiParams [] hzero])).map fun env ↦ (env, contents
      [of fcgiStdin body hbody, .of fcgiStdin [] hzero]) else none) = _
  rw [if_pos ⟨by simp only [all_cons, wellFormed_of]; rfl, rfl, rfl, rfl, rfl, rfl⟩, hcontents,
    hstdin, decodeParams_encodeParams henv, map_some]

/-- **Which requests a server recovers**: those whose encoded variables and whose body are both
shorter than 2^16 bytes. -/
theorem readRequest_buildFcgiRequest_iff {env : List (String × String)} (henv : Encodable env)
    (body : List UInt8) :
    readRequest (buildFcgiRequest env body) = some (env.map varBytes, body) ↔
      (encodeParams env).length < 2 ^ 16 ∧ body.length < 2 ^ 16 :=
  ⟨length_lt_of_readRequest, fun h ↦ readRequest_of_length_lt henv h.1 h.2⟩

/-- A variable and a short body. -/
theorem readRequest_buildFcgiRequest_short :
    readRequest (buildFcgiRequest [("REQUEST_METHOD", "POST")] [1, 2, 3]) =
      some ([("REQUEST_METHOD", "POST")].map varBytes, [1, 2, 3]) :=
  (readRequest_buildFcgiRequest_iff
    (by simp only [Encodable, forall_mem_singleton]; decide +kernel) [1, 2, 3]).mpr
    (by decide +kernel)

/-- An upload of 64 KiB without any variables is not recovered. -/
theorem large_body_not_recovered :
    readRequest (buildFcgiRequest [] (replicate (2 ^ 16) 0)) ≠
      some ([], replicate (2 ^ 16) 0) := by
  intro h
  have hlength := (@length_lt_of_readRequest _ [] h).2
  rw [length_replicate] at hlength
  exact absurd hlength (lt_irrefl _)

end Fcgi

end Hypershunt
