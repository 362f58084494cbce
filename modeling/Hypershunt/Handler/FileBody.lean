import Hypershunt.Handler.StaticFiles

/-!
# Files as streams

`FileBody`, the body of a response that sends a file. It is polled, and polls the file in turn, for
at most one chunk and for no more than is left to send. The file answers as it likes: not yet, or
with any number of bytes that fits.

What is left to send is a list of bytes (`rest`), and a poll takes a frame off its front or leaves
it alone. So whatever the file answers, the frames are the bytes in order, and the end is reported
only when all of them have been sent (`Delivers`). For a range the bytes are those the request
asked for.
-/

namespace Hypershunt

open List Option

namespace StaticFiles

open StaticHandler Text

/-! ## Polling -/

/-- The answer of a file to one poll. -/
inductive ReadAnswer
  | pending
  /-- At least one byte, and as many of these as the buffer and the file have room for. -/
  | ready (n : ℕ)
  | error
  deriving DecidableEq

/-- A file at some position. -/
structure OpenFile where
  contents : List UInt8
  pos : ℕ

/-- The bytes that are read into a buffer. There are none only at the end of the file. -/
def OpenFile.read (f : OpenFile) (buffer n : ℕ) : List UInt8 :=
  (f.contents.drop f.pos).take (min (max 1 n) buffer)

def OpenFile.advance (f : OpenFile) (n : ℕ) : OpenFile := { f with pos := f.pos + n }

structure FileBody where
  file : OpenFile
  /-- The bytes that remain to be delivered, or all until the end of the file. -/
  remaining : Option ℕ
  done : Bool

/-- The answer of a body to one poll. -/
inductive Polled
  | pending
  | frame (bytes : List UInt8)
  | failed
  | finished
  deriving DecidableEq

def Polled.data : Polled → List UInt8
  | .frame bytes => bytes
  | _ => []

namespace FileBody

def chunk : ℕ := 65536

def new (file : OpenFile) (limit : Option ℕ) : FileBody := ⟨file, limit, false⟩

/-- How many bytes to request in a read. -/
def want (b : FileBody) : ℕ := b.remaining.elim chunk (min · chunk)

def pollFrame (b : FileBody) (answer : ReadAnswer) : FileBody × Polled :=
  if b.done then (b, .finished)
  else if b.remaining = some 0 then ({ b with done := true }, .finished)
  else
    match answer with
    | .pending => (b, .pending)
    | .error => ({ b with done := true }, .failed)
    | .ready n =>
      let bytes := b.file.read b.want n
      if bytes = [] then ({ b with done := true }, .finished)
      else
        ({ b with
            file := b.file.advance bytes.length
            remaining := b.remaining.map (· - bytes.length) },
          .frame bytes)

/-- The answers to one poll after the other. -/
def deliver : FileBody → List ReadAnswer → List Polled
  | _, [] => []
  | b, answer :: answers => (b.pollFrame answer).2 :: deliver (b.pollFrame answer).1 answers

/-! ## What is left -/

/-- The bytes that are still to be sent. -/
def rest (b : FileBody) : List UInt8 :=
  if b.done then []
  else b.remaining.elim (b.file.contents.drop b.file.pos) (b.file.contents.drop b.file.pos).take

variable {b : FileBody} {answer : ReadAnswer} {answers : List ReadAnswer}

theorem rest_of_done (h : b.done = true) : b.rest = [] := by
  rw [rest, if_pos h]

/-- No more is requested than remains, so that the subtraction does not underflow. -/
theorem length_read_le {r : ℕ} (h : b.remaining = some r) (n : ℕ) :
    (b.file.read b.want n).length ≤ r := by
  rw [OpenFile.read, length_take, want, h, elim_some]
  omega

theorem read_eq_nil_iff (hzero : b.remaining ≠ some 0) (n : ℕ) :
    b.file.read b.want n = [] ↔ b.file.contents.drop b.file.pos = [] := by
  have hwant : 0 < b.want := by
    rw [want]
    rcases hr : b.remaining with _ | r
    · decide
    · have hpos : r ≠ 0 := fun h ↦ hzero (h ▸ hr)
      rw [elim_some]
      exact lt_min (Nat.pos_of_ne_zero hpos) (by decide)
  rw [OpenFile.read, take_eq_nil_iff]
  exact or_iff_right (by omega)

theorem rest_eq_append (hdone : b.done = false) (n : ℕ) :
    b.rest = b.file.read b.want n ++ FileBody.rest { b with
      file := b.file.advance (b.file.read b.want n).length
      remaining := b.remaining.map (· - (b.file.read b.want n).length) } := by
  set bytes := b.file.read b.want n with hbytes
  have hfront : b.file.contents.drop b.file.pos =
      bytes ++ b.file.contents.drop (b.file.pos + bytes.length) := by
    have htake : bytes = (b.file.contents.drop b.file.pos).take bytes.length :=
      prefix_iff_eq_take.mp (List.take_prefix _ _)
    conv_lhs => rw [← take_append_drop bytes.length (b.file.contents.drop b.file.pos),
      ← htake, drop_drop]
  have hnot : ¬b.done = true := by simp [hdone]
  rw [rest, rest, if_neg hnot, if_neg hnot]
  rcases hr : b.remaining with _ | r
  · exact hfront
  · have hle : bytes.length ≤ r := length_read_le hr n
    rw [map_some, elim_some, elim_some, hfront, take_append, take_of_length_le hle]
    rfl

/-- **What one poll does.** -/
theorem pollFrame_cases (b : FileBody) (herror : answer ≠ .error) :
    (answer = .pending ∧ b.pollFrame answer = (b, .pending)) ∨
      (∃ b' bytes, b.pollFrame answer = (b', .frame bytes) ∧ bytes ≠ [] ∧
        b.rest = bytes ++ b'.rest) ∨
      ∃ b', b.pollFrame answer = (b', .finished) ∧ b.rest = [] ∧ b'.rest = [] := by
  by_cases hdone : b.done = true
  · refine Or.inr (Or.inr ⟨b, ?_, rest_of_done hdone, rest_of_done hdone⟩)
    rw [pollFrame.eq_def, if_pos hdone]
  rw [pollFrame.eq_def, if_neg hdone]
  by_cases hzero : b.remaining = some 0
  · refine Or.inr (Or.inr ⟨{ b with done := true }, if_pos hzero, ?_, rest_of_done rfl⟩)
    rw [rest, if_neg hdone, hzero, elim_some, take_zero]
  rw [if_neg hzero]
  cases answer with
  | pending => exact Or.inl ⟨rfl, rfl⟩
  | error => exact absurd rfl herror
  | ready n =>
    dsimp only
    by_cases hnil : b.file.read b.want n = []
    · refine Or.inr (Or.inr ⟨{ b with done := true }, if_pos hnil, ?_, rest_of_done rfl⟩)
      rw [rest, if_neg hdone, (read_eq_nil_iff hzero n).mp hnil]
      rcases b.remaining with _ | r
      · rfl
      · exact take_nil
    · refine Or.inr (Or.inl ⟨_, _, if_neg hnil, hnil, ?_⟩)
      exact rest_eq_append (Bool.eq_false_iff.mpr hdone) n

/-- The frames are what is left without what is still left, and the end comes with nothing left. -/
theorem exists_rest_deliver (b : FileBody) (herror : .error ∉ answers) :
    ∃ left, b.rest = (b.deliver answers).flatMap Polled.data ++ left ∧
      (.finished ∈ b.deliver answers → left = []) ∧
      (b.rest.length < answers.countP (· ≠ .pending) → .finished ∈ b.deliver answers) := by
  induction answers generalizing b with
  | nil =>
    refine ⟨b.rest, rfl, fun hmem ↦ absurd hmem not_mem_nil, fun hlt ↦ ?_⟩
    exact absurd hlt (Nat.not_lt_zero _)
  | cons answer answers ih =>
    rw [mem_cons, not_or] at herror
    rw [deliver, flatMap_cons, countP_cons]
    rcases pollFrame_cases b (Ne.symm herror.1) with
      ⟨rfl, hpoll⟩ | ⟨b', bytes, hpoll, hne, hrest⟩ | ⟨b', hpoll, hrest, hrest'⟩
    · obtain ⟨left, hleft, hfinished, hcount⟩ := ih b herror.2
      rw [hpoll]
      refine ⟨left, hleft, fun hmem ↦ ?_, fun hlt ↦ mem_cons_of_mem _ (hcount ?_)⟩
      · exact hfinished ((mem_cons.mp hmem).resolve_left (by simp))
      · simpa using hlt
    · obtain ⟨left, hleft, hfinished, hcount⟩ := ih b' herror.2
      have hpos : 0 < bytes.length := length_pos_iff.mpr hne
      rw [hpoll]
      refine ⟨left, ?_, fun hmem ↦ ?_, fun hlt ↦ mem_cons_of_mem _ (hcount ?_)⟩
      · rw [hrest, hleft, ← append_assoc]
        rfl
      · exact hfinished ((mem_cons.mp hmem).resolve_left (by simp))
      · rw [hrest, length_append] at hlt
        split_ifs at hlt <;> omega
    · obtain ⟨left, hleft, -, -⟩ := ih b' herror.2
      rw [hrest', eq_comm, append_eq_nil_iff] at hleft
      rw [hpoll]
      refine ⟨[], ?_, fun _ ↦ rfl, fun _ ↦ mem_cons_self⟩
      rw [hrest, hleft.1]
      rfl

/-- The frames of a body are these bytes, whatever the file answers as long as it does not fail. -/
structure Delivers (b : FileBody) (bytes : List UInt8) : Prop where
  /-- At any time they are the beginning of them. -/
  front : ∀ answers, .error ∉ answers → (b.deliver answers).flatMap Polled.data <+: bytes
  /-- At the end they are all of them. -/
  whole : ∀ answers, .error ∉ answers → .finished ∈ b.deliver answers →
    (b.deliver answers).flatMap Polled.data = bytes
  /-- The end comes once the file has answered often enough. -/
  finishes : ∀ answers, .error ∉ answers → bytes.length < answers.countP (· ≠ .pending) →
    .finished ∈ b.deliver answers

theorem delivers_rest (b : FileBody) : b.Delivers b.rest := by
  refine ⟨fun answers herror ↦ ?_, fun answers herror hmem ↦ ?_, fun answers herror hlt ↦ ?_⟩
  · obtain ⟨left, hleft, -, -⟩ := exists_rest_deliver b herror
    exact ⟨left, hleft.symm⟩
  · obtain ⟨left, hleft, hfinished, -⟩ := exists_rest_deliver b herror
    rw [hleft, hfinished hmem, append_nil]
  · obtain ⟨-, -, -, hcount⟩ := exists_rest_deliver b herror
    exact hcount hlt

end FileBody

/-! ## Ranges -/

open Listener (RequestContext)

/-- The interval that a header asks for, of a file with so many bytes. -/
inductive Requested (len : ℕ) : String → ℕ → ℕ → Prop
  /-- The last bytes, or all if there are not that many. -/
  | suffix {s : String} {n : ℕ} (hs : parseU64 s = some n) :
    Requested len ("bytes=-" ++ s) (len - n) (len - 1)
  /-- From a byte to the last one. -/
  | fromByte {s : String} {a : ℕ} (hs : parseU64 s = some a) :
    Requested len ("bytes=" ++ s ++ "-") a (len - 1)
  | closed {s s' : String} {a b : ℕ} (hs : parseU64 s = some a)
      (hs' : parseU64 s' = some b) :
    Requested len ("bytes=" ++ s ++ "-" ++ s') a b

theorem requested_of_rangeBounds {bytes : String} {len a b : ℕ}
    (h : rangeBounds bytes len = some (.ok (a, b))) : Requested len ("bytes=" ++ bytes) a b := by
  rw [rangeBounds] at h
  split at h
  · rename_i suffix hsuffix
    obtain ⟨n, hn, h⟩ := bind_eq_some_iff.mp h
    split_ifs at h
    · cases h
    · cases h
      rw [eq_append_of_stripPrefix hsuffix, ← String.append_assoc]
      exact .suffix hn
  · obtain ⟨⟨first, last⟩, hsplit, h⟩ := bind_eq_some_iff.mp h
    obtain ⟨start, hstart, h⟩ := bind_eq_some_iff.mp h
    rw [eq_append_of_splitOnce hsplit, ← String.append_assoc, ← String.append_assoc]
    split_ifs at h with hlast hlen
    · cases h
    · cases h
      rw [hlast, String.append_empty]
      exact .fromByte hstart
    · obtain ⟨stop, hstop, h⟩ := bind_eq_some_iff.mp h
      cases h
      exact .closed hstart hstop

theorem exists_of_parseRangeHeader {req : Request} {len a b : ℕ}
    (h : parseRangeHeader req len = some (.ok (a, b))) :
    ∃ value, req.headers.getStr "range" = some value ∧ Requested len value a b ∧ a ≤ b ∧
      b < len := by
  rw [parseRangeHeader] at h
  obtain ⟨value, hvalue, h⟩ := bind_eq_some_iff.mp h
  obtain ⟨bytes, hbytes, h⟩ := bind_eq_some_iff.mp h
  rw [ite_none_left_eq_some] at h
  obtain ⟨bounds, hbounds, h⟩ := bind_eq_some_iff.mp h.2
  rcases bounds with _ | ⟨start, stop⟩
  · cases h
  · dsimp only at h
    split_ifs at h with hoff
    · cases h
    · cases h
      rw [not_or, not_lt, not_le] at hoff
      refine ⟨value, hvalue, ?_, hoff.1, hoff.2⟩
      rw [eq_append_of_stripPrefix hbytes]
      exact requested_of_rangeBounds hbounds

/-- The stream that is the body of the response with a file. -/
def bodyStream (req : Request) (found : Found) (contents : List UInt8) : Option FileBody :=
  match parseRangeHeader req found.metadata.len with
  | some (.error ()) => none
  | some (.ok (start, stop)) => some (.new ⟨contents, start⟩ (some (stop - start + 1)))
  | none => some (.new ⟨contents, 0⟩ none)

section Answers

variable {T : Type} {x : Externals T} {fs : FileSystem} {t : FileTree} {h : StaticHandler T}
  {matchedPrefix uriPath : String} {ctx : RequestContext} {req : Request} {found : Found}
  {resp : Response}

theorem exists_of_sendFile_status (hstatus : (sendFile x fs req found).status = 206) :
    ∃ a b, parseRangeHeader req found.metadata.len = some (.ok (a, b)) ∧
      (sendFile x fs req found).headers = contentHeaders x found (b - a + 1) ++
        ("content-range", "bytes " ++ Nat.repr a ++ "-" ++ Nat.repr b ++ "/" ++
          Nat.repr found.metadata.len) :: validatorHeaders found := by
  rw [sendFile] at hstatus ⊢
  dsimp only at hstatus ⊢
  split_ifs at hstatus with hmodified
  · cases hstatus
  rw [if_neg hmodified]
  split at hstatus
  · cases hstatus
  · rename_i a b hrange
    split at hstatus
    · cases hstatus
    · exact ⟨a, b, hrange, rfl⟩
  · split at hstatus <;> cases hstatus

/-- **The bytes of an answer with a file are those its stream has to send.** -/
theorem body_sendFile (hstatus : (sendFile x fs req found).status ∈ [200, 206]) :
    ∃ contents, fs.openFile found.target = some contents ∧
      (sendFile x fs req found).body =
        contents.bind fun bytes ↦ (bodyStream req found bytes).map FileBody.rest := by
  unfold bodyStream
  rw [sendFile] at hstatus ⊢
  dsimp only at hstatus ⊢
  split_ifs at hstatus ⊢
  · simp at hstatus
  rcases hrange : parseRangeHeader req found.metadata.len with _ | ⟨⟩ | ⟨start, stop⟩
  · rcases hopen : fs.openFile found.target with _ | contents
    · simp [hrange, hopen, response500, htmlResponse] at hstatus
    · exact ⟨contents, rfl, by simp [FileBody.new, FileBody.rest]⟩
  · simp [hrange, response416] at hstatus
  · rcases hopen : fs.openFile found.target with _ | contents
    · simp [hrange, hopen, response500, htmlResponse] at hstatus
    · exact ⟨contents, rfl, by simp [FileBody.new, FileBody.rest, map_eq_bind]⟩

theorem eq_of_effectiveRoot_error {relative : String}
    (herror : h.effectiveRoot x relative = .error resp) : resp = response404 := by
  rw [effectiveRoot] at herror
  split at herror
  · cases herror
  delta resolveUserdir at herror
  dsimp only at herror
  split at herror
  · cases herror
    rfl
  rcases eq_or_of_ite_error_eq_error herror with rfl | herror
  · rfl
  rcases eq_or_of_ite_error_eq_error herror with rfl | herror
  · rfl
  rcases eq_or_of_ite_error_eq_error herror with rfl | herror
  · rfl
  split at herror
  · cases herror
    rfl
  rcases eq_or_of_ite_error_eq_error herror with rfl | herror
  · rfl
  · cases herror

theorem eq_of_lookedUp_error {root : OsString} {relative : String}
    (herror : h.lookedUp x fs root relative ctx = .error resp) : resp = response404 := by
  rw [lookedUp] at herror
  split_ifs at herror
  split at herror
  · cases herror
  · cases herror
    rfl

theorem mem_of_resolve_error {root : OsString} {path : String}
    (herror : resolve fs root path = .error resp) :
    resp ∈ [response400, response403, response404, response500] := by
  rw [resolve] at herror
  split at herror
  · cases herror
    simp
  split at herror
  · cases herror
    simp
  split at herror
  · cases herror
    simp
  rcases eq_or_of_ite_error_eq_error herror with rfl | herror
  · simp
  rcases eq_or_of_ite_error_eq_error herror with rfl | herror
  · simp
  split at herror
  · cases herror
    simp
  · cases herror

/-- Without an index file there is a listing, a redirection or a refusal. -/
theorem status_of_pickTarget_error {dir : OsString} {md : Metadata}
    (herror : h.pickTarget x fs ctx uriPath dir md = .error resp) :
    resp = x.renderDirectoryListing dir uriPath ∨ resp.status ∈ [302, 403, 500] := by
  rw [pickTarget] at herror
  by_cases hdir : md.isDir = true
  · rw [if_pos hdir] at herror
    split at herror
    · cases herror
    split_ifs at herror
    · cases herror
      exact Or.inl rfl
    split at herror
    · cases herror
      right
      rw [emitFallbackRedirect]
      split
      · exact mem_cons_self
      · decide
    · cases herror
      exact Or.inr (by decide)
  · rw [if_neg hdir] at herror
    cases herror

/-- An answer without a file is not partial unless a listing is. -/
theorem status_ne_of_locate
    (hlisting : ∀ dir path, (x.renderDirectoryListing dir path).status ≠ 206)
    (herror : h.locate x fs matchedPrefix ctx uriPath = .error resp) : resp.status ≠ 206 := by
  rw [locate, bind_eq_error_iff] at herror
  rcases herror with herror | ⟨⟨root, relative⟩, -, herror⟩
  · rw [eq_of_effectiveRoot_error herror]
    decide
  rcases bind_eq_error_iff.mp herror with herror | ⟨path, -, herror⟩
  · rw [eq_of_lookedUp_error herror]
    decide
  rcases bind_eq_error_iff.mp herror with herror | ⟨⟨dir, md⟩, -, herror⟩
  · have hnone : ∀ r ∈ [response400, response403, response404, response500], r.status ≠ 206 := by
      decide
    exact hnone resp (mem_of_resolve_error herror)
  rcases bind_eq_error_iff.mp herror with herror | ⟨⟨index, target⟩, -, herror⟩
  · rcases status_of_pickTarget_error herror with rfl | hstatus
    · exact hlisting dir uriPath
    · intro hcontent
      rw [hcontent] at hstatus
      exact absurd hstatus (by decide)
  · dsimp only at herror
    split at herror
    · cases herror
      decide
    · cases herror

/-- A regular file. -/
def Regular (t : FileTree) (target : OsString) (contents : List UInt8) : Prop :=
  ∃ readable modified, (t.lookup target).bind t.node = some (.file contents readable modified)

/-- What is right about a partial answer with some bytes of a file, from one to another. -/
structure ExactRange (resp : Response) (value : String) (contents : List UInt8)
    (body : FileBody) (a b : ℕ) : Prop where
  requested : Requested contents.length value a b
  le : a ≤ b
  lt : b < contents.length
  contentRange : resp.headers.getAll "content-range" =
    ["bytes " ++ Nat.repr a ++ "-" ++ Nat.repr b ++ "/" ++ Nat.repr contents.length]
  contentLength : resp.headers.getAll "content-length" = [Nat.repr (b - a + 1)]
  delivers : body.Delivers ((contents.drop a).take (b - a + 1))

/-- **The body of a partial answer is the range that was requested.** -/
theorem partial_content_exact
    (hlisting : ∀ dir path, (x.renderDirectoryListing dir path).status ≠ 206)
    (hregular : ∀ found, h.locate x t.fileSystem matchedPrefix ctx req.uri.path = .ok found →
      ∃ contents, Regular t found.target contents)
    (hstatus : (h.handle x t.fileSystem matchedPrefix ctx req).status = 206) :
    ∃ found contents value body a b,
      h.locate x t.fileSystem matchedPrefix ctx req.uri.path = .ok found ∧
      Regular t found.target contents ∧
      req.headers.getStr "range" = some value ∧
      bodyStream req found contents = some body ∧
      ExactRange (h.handle x t.fileSystem matchedPrefix ctx req) value contents body a b := by
  rcases hlocate : h.locate x t.fileSystem matchedPrefix ctx req.uri.path with resp | found
  · rw [handle, hlocate] at hstatus
    exact absurd hstatus (status_ne_of_locate hlisting hlocate)
  obtain ⟨contents, readable, modified, hnode⟩ := hregular found hlocate
  have hlen : found.metadata.len = contents.length := by
    obtain ⟨-, -, -, -, -, -, -, -, hmd⟩ := exists_of_locate hlocate
    change ((t.lookup found.target).bind t.node).map Node.metadata = _ at hmd
    rw [hnode, map_some, Option.some.injEq] at hmd
    rw [← hmd]
    rfl
  rw [handle_of_locate hlocate] at hstatus ⊢
  obtain ⟨a, b, hrange, hheaders⟩ := exists_of_sendFile_status hstatus
  obtain ⟨value, hvalue, hrequested, hle, hlt⟩ := exists_of_parseRangeHeader hrange
  have hrest : (FileBody.new ⟨contents, a⟩ (some (b - a + 1))).rest =
      (contents.drop a).take (b - a + 1) := rfl
  refine ⟨found, contents, value, .new ⟨contents, a⟩ (some (b - a + 1)), a, b, rfl,
    ⟨readable, modified, hnode⟩, hvalue, ?_, ?_⟩
  · rw [bodyStream, hrange]
  · rw [hlen] at hrequested hlt hheaders
    refine ⟨hrequested, hle, hlt, ?_, ?_, hrest ▸ FileBody.delivers_rest _⟩
    · rw [hheaders]
      rfl
    · rw [hheaders]
      rfl

end Answers

private def getLastTwo : Request := .bare .get "/five" [("range", "bytes=-2")]

private theorem locate_fiveBytes :
    (bare "/srv").locate .bare fiveBytes.fileSystem "/" {} getLastTwo.uri.path =
      .ok ⟨"/five", none, "/srv/five", ⟨false, true, 5, none⟩⟩ :=
  locate_eq_ok "/srv" "/srv/five" ⟨false, true, 5, none⟩ (by decide +kernel) rfl
    (by decide +kernel) rfl (by decide +kernel)

theorem last_two_bytes_exact :
    ((bare "/srv").handle .bare fiveBytes.fileSystem "/" {} getLastTwo).status = 206 ∧
      ∃ found contents value body a b,
        (bare "/srv").locate .bare fiveBytes.fileSystem "/" {} getLastTwo.uri.path = .ok found ∧
        Regular fiveBytes found.target contents ∧
        getLastTwo.headers.getStr "range" = some value ∧
        bodyStream getLastTwo found contents = some body ∧
        ExactRange ((bare "/srv").handle .bare fiveBytes.fileSystem "/" {} getLastTwo) value
          contents body a b := by
  have hstatus :
      ((bare "/srv").handle .bare fiveBytes.fileSystem "/" {} getLastTwo).status = 206 := by
    rw [handle_of_locate locate_fiveBytes]
    decide +kernel
  have hlisting : response404.status ≠ 206 := by decide
  refine ⟨hstatus, partial_content_exact (fun _ _ ↦ hlisting) (fun found hlocate ↦ ?_) hstatus⟩
  rw [← Except.ok.inj (locate_fiveBytes.symm.trans hlocate)]
  exact ⟨[0x61, 0x62, 0x63, 0x64, 0x65], true, none, by decide +kernel⟩

end StaticFiles

end Hypershunt
