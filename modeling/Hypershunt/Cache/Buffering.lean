import Hypershunt.Cache.Variant

/-!
# What the cache reads into memory

`maybe_store` decides from the headers of an answer whether to keep it, and only then reads its
body. The body is a stream that owes the headers nothing: a CGI program writes whatever length it
likes and then whatever it likes. The comment in the source has it that only a body that is bounded
and fits the limit is read into memory; what is tested is that the first `Content-Length` line fits,
and `collect` then reads to the end of the stream, wherever that is.

A body is here what polling it yields, one poll after another, so that a stream which never ends is
one of the cases. `bounded_iff` says for which answers the cache stays within its limit and replays
them under their own length.
-/

namespace Hypershunt

namespace Cache

open CachePolicy StoredResponse HeaderMap List

/-! ## Bodies -/

/-- What polling a body once yields. -/
inductive Poll
  /-- Nothing for now, or a frame without data. -/
  | pending
  | data (bytes : List UInt8)
  | failed
  | finished

namespace Poll

/-- The stream has more to come. -/
def goesOn : Poll → Bool
  | pending => true
  | data _ => true
  | failed => false
  | finished => false

def bytes : Poll → List UInt8
  | pending => []
  | data bytes => bytes
  | failed => []
  | finished => []

end Poll

/-- The answer of a handler, with its body still to be read. -/
structure Answer where
  status : ℕ
  headers : HeaderMap
  body : ℕ → Poll

/-- The data of so many polls. -/
def carried (body : ℕ → Poll) (n : ℕ) : List UInt8 := (range n).flatMap fun i ↦ (body i).bytes

/-- So many polls have not reached the end of the stream. -/
def GoesOn (body : ℕ → Poll) (n : ℕ) : Prop := ∀ i < n, (body i).goesOn = true

/-- The stream consists of these bytes and ends well. -/
def EndsWith (body : ℕ → Poll) (bytes : List UInt8) : Prop :=
  ∃ n, GoesOn body n ∧ body n = .finished ∧ carried body n = bytes

theorem carried_succ (body : ℕ → Poll) (n : ℕ) :
    carried body (n + 1) = carried body n ++ (body n).bytes := by
  rw [carried, range_succ, flatMap_append, flatMap_singleton, carried]

theorem GoesOn.succ {body : ℕ → Poll} {n : ℕ} (h : GoesOn body n)
    (hn : (body n).goesOn = true) : GoesOn body (n + 1) := by
  intro i hi
  rcases Nat.lt_succ_iff_lt_or_eq.mp hi with hlt | rfl
  · exact h i hlt
  · exact hn

/-! ## Reading a body to its end -/

/-- The state of `body.collect()`. -/
inductive Collect
  | reading (bytes : List UInt8)
  | done (bytes : List UInt8)
  | failed

namespace Collect

def poll : Collect → Poll → Collect
  | reading bytes, .pending => reading bytes
  | reading bytes, .data more => reading (bytes ++ more)
  | reading _, .failed => failed
  | reading bytes, .finished => done bytes
  -- the body is not polled again
  | c, _ => c

/-- The bytes in memory. -/
def held : Collect → List UInt8
  | reading bytes => bytes
  | done bytes => bytes
  | failed => []

end Collect

/-- `body.collect()` after so many polls. -/
def collect (body : ℕ → Poll) : ℕ → Collect
  | 0 => .reading []
  | n + 1 => (collect body n).poll (body n)

/-- What has been collected after so many polls, in terms of the stream. -/
inductive Collected (body : ℕ → Poll) (n : ℕ) : Collect → Prop
  | reading (hgoes : GoesOn body n) : Collected body n (.reading (carried body n))
  | done {m : ℕ} (hm : m < n) (hgoes : GoesOn body m) (hend : body m = .finished) :
      Collected body n (.done (carried body m))
  | failed {m : ℕ} (hm : m < n) (hend : body m = .failed) : Collected body n .failed

/-- By induction on the polls, of which only those before the end of the stream change anything. -/
theorem collected (body : ℕ → Poll) (n : ℕ) : Collected body n (collect body n) := by
  induction n with
  | zero => exact .reading fun i hi ↦ absurd hi (Nat.not_lt_zero i)
  | succ n ih =>
    rw [collect]
    generalize collect body n = c at ih
    cases ih with
    | reading hgoes =>
      have hnext := carried_succ body n
      cases hpoll : body n with
      | pending =>
        rw [hpoll, Poll.bytes, append_nil] at hnext
        rw [Collect.poll, ← hnext]
        exact .reading (hgoes.succ (by rw [hpoll]; rfl))
      | data more =>
        rw [hpoll, Poll.bytes] at hnext
        rw [Collect.poll, ← hnext]
        exact .reading (hgoes.succ (by rw [hpoll]; rfl))
      | failed => exact .failed n.lt_succ_self hpoll
      | finished => exact .done n.lt_succ_self hgoes hpoll
    | done hm hgoes hend => exact .done (hm.trans n.lt_succ_self) hgoes hend
    | failed hm hend => exact .failed (hm.trans n.lt_succ_self) hend

theorem collect_of_goesOn {body : ℕ → Poll} {n : ℕ} (h : GoesOn body n) :
    collect body n = .reading (carried body n) := by
  have hc := collected body n
  generalize collect body n = c at hc
  cases hc with
  | reading => rfl
  | done hm _ hend => exact absurd (h _ hm) (by rw [hend]; decide)
  | failed hm hend => exact absurd (h _ hm) (by rw [hend]; decide)

theorem exists_collect_eq_done_iff {body : ℕ → Poll} {bytes : List UInt8} :
    (∃ n, collect body n = .done bytes) ↔ EndsWith body bytes := by
  constructor
  · rintro ⟨n, hn⟩
    have hc := collected body n
    rw [hn] at hc
    cases hc with
    | done _ hgoes hend => exact ⟨_, hgoes, hend, rfl⟩
  · rintro ⟨n, hgoes, hend, rfl⟩
    refine ⟨n + 1, ?_⟩
    rw [collect, collect_of_goesOn hgoes, hend, Collect.poll]

/-- What is in memory at some time is what the stream has carried at some time before its end. -/
theorem forall_held_iff {body : ℕ → Poll} {bound : ℕ} :
    (∀ n, (collect body n).held.length ≤ bound) ↔
      ∀ n, GoesOn body n → (carried body n).length ≤ bound := by
  constructor
  · intro h n hgoes
    have hheld := h n
    rwa [collect_of_goesOn hgoes] at hheld
  · intro h n
    have hc := collected body n
    generalize collect body n = c at hc
    cases hc with
    | reading hgoes => exact h n hgoes
    | done _ hgoes _ => exact h _ hgoes
    | failed => exact Nat.zero_le bound

/-! ## Keeping an answer -/

/-- The response that has been read after so many polls, if the body has come to an end. -/
def Answer.response (a : Answer) (n : ℕ) : Option Response :=
  match collect a.body n with
  | .reading _ => none
  | .done bytes => some ⟨a.status, a.headers, some bytes⟩
  | .failed => some ⟨a.status, a.headers, none⟩

section

variable (dates : HttpDate) {T : Type} (p : CachePolicy T)

/-- The answer is one whose body is read into memory. -/
def CachePolicy.buffers (reqHeaders : HeaderMap) (a : Answer) : Bool :=
  (p.evaluate dates a.status a.headers reqHeaders).isSome && p.fits a.headers

/-- The part of the body that is in memory after so many polls. -/
def CachePolicy.buffered (reqHeaders : HeaderMap) (a : Answer) (n : ℕ) : List UInt8 :=
  if p.buffers dates reqHeaders a then (collect a.body n).held else []

/-- After so many polls the answer is written as this entry, and the store takes it. -/
def CachePolicy.Stores (s : CacheStore) (reqHeaders : HeaderMap) (a : Answer) (now : Instant)
    (n : ℕ) (e : StoredResponse) : Prop :=
  (∃ resp, a.response n = some resp ∧ p.writeThrough dates reqHeaders resp now = .store e) ∧
    e.size ≤ s.maxBytes

/-- What is made of an entry: all of it, or what a hit and a confirmed entry give, maybe a `304`. -/
inductive Replays (e : StoredResponse) : Response → Prop
  | whole (now : Instant) : Replays e (e.toResponse now)
  | fresh (h : HeaderMap) (now : Instant) : Replays e (freshResponse dates e h now)

end

/-- The length that a `Content-Length` line gives. -/
def lengthOf (v : HeaderValue) : Option ℕ := (HeaderValue.toStr v).bind Text.parseU64

/-- The body is as long as every `Content-Length` says; only a `304` may do without one. -/
structure LengthRight (r : Response) : Prop where
  lines : ∀ v ∈ r.headers.getAll "content-length", lengthOf v = r.body.map length
  absent : r.headers.getAll "content-length" = [] → r.status = 304 ∧ r.body = some []

/-- The cache keeps to its limit for one object, and what it replays has the length that it
claims. -/
structure Bounded (dates : HttpDate) {T : Type} (p : CachePolicy T) (s : CacheStore)
    (reqHeaders : HeaderMap) (a : Answer) (now : Instant) : Prop where
  buffered : ∀ n, (p.buffered dates reqHeaders a n).length ≤ p.maxObjectSize
  stored : ∀ n e, p.Stores dates s reqHeaders a now n e → e.body.length ≤ p.maxObjectSize
  replayed : ∀ n e, p.Stores dates s reqHeaders a now n e →
    ∀ (updates : List (Confirmation T)) (r : Response),
      Replays dates (confirmed dates e updates) r → LengthRight r

/-- The body keeps to the limit, and, where the store can take it, to the length announced. -/
structure Keeps {T : Type} (p : CachePolicy T) (s : CacheStore) (a : Answer) : Prop where
  limit : ∀ n, GoesOn a.body n → (carried a.body n).length ≤ p.maxObjectSize
  announced : ∀ bytes, EndsWith a.body bytes → bytes.length ≤ s.maxBytes →
    ∀ v ∈ a.headers.getAll "content-length", lengthOf v = some bytes.length

/-! ## What is replayed -/

variable {dates : HttpDate} {T : Type} {p : CachePolicy T} {s : CacheStore}
  {reqHeaders : HeaderMap} {a : Answer} {now : Instant} {e : StoredResponse} {n : ℕ}

/-- A confirmation replaces neither the body nor the headers it does not know of. -/
theorem confirmed_keeps (dates : HttpDate) {m : HeaderName}
    (hm : m ∉ refreshedNames) (updates : List (Confirmation T))
    (e : StoredResponse) :
    (confirmed dates e updates).body = e.body ∧
      (confirmed dates e updates).headers.getAll m = e.headers.getAll m := by
  induction updates generalizing e with
  | nil => exact ⟨rfl, rfl⟩
  | cons u updates ih =>
    obtain ⟨hbody, hlines⟩ := ih (u.policy.revalidated dates e u.headers u.now)
    rw [revalidated, refreshed, getAll_overlay, if_neg fun hcon ↦ hm hcon.1] at hlines
    exact ⟨hbody, hlines⟩

theorem getAll_toResponse {m : HeaderName} (hm : m ≠ "age") (e : StoredResponse) (now : Instant) :
    (e.toResponse now).headers.getAll m = e.headers.getAll m := by
  rw [toResponse, setAge]
  split
  · exact getAll_insert_of_ne hm
  · rfl

theorem lengthRight_notModifiedResponse (e : StoredResponse) (now : Instant) :
    LengthRight (e.notModifiedResponse now) where
  lines := by
    intro v hv
    rw [notModifiedResponse, getAll_remove_self] at hv
    exact absurd hv not_mem_nil
  absent := fun _ ↦ ⟨rfl, rfl⟩

theorem lengthRight_of_replays {r : Response}
    (hlines : ∀ v ∈ e.headers.getAll "content-length", lengthOf v = some e.body.length)
    (hsome : e.headers.getAll "content-length" ≠ []) (hr : Replays dates e r) :
    LengthRight r := by
  have hwhole : ∀ now, LengthRight (e.toResponse now) := by
    intro now
    constructor
    · rw [getAll_toResponse (by decide)]
      exact hlines
    · rw [getAll_toResponse (by decide)]
      exact fun hnone ↦ absurd hnone hsome
  cases hr with
  | whole now => exact hwhole now
  | fresh h now =>
    rw [freshResponse]
    split
    · exact lengthRight_notModifiedResponse e now
    · exact hwhole now

theorem getAll_ne_nil_of_fits {h : HeaderMap} (hfits : p.fits h = true) :
    h.getAll "content-length" ≠ [] := by
  intro hnone
  rw [fits, contentLength, getStr, get_eq_none_iff.mpr hnone]
    at hfits
  cases hfits

/-! ## What is stored -/

/-- An answer that is read into memory, and whose body ends well, becomes an entry. -/
theorem exists_writeThrough_of_buffers (hbuffers : p.buffers dates reqHeaders a = true)
    (bytes : List UInt8) (now : Instant) :
    ∃ e, p.writeThrough dates reqHeaders ⟨a.status, a.headers, some bytes⟩ now = .store e := by
  rw [buffers, Bool.and_eq_true, Option.isSome_iff_exists] at hbuffers
  obtain ⟨⟨decision, hdecision⟩, hfits⟩ := hbuffers
  rw [writeThrough, hdecision]
  simp only [hfits]
  exact ⟨_, rfl⟩

theorem buffers_of_writeThrough {bytes : Option (List UInt8)}
    (h : p.writeThrough dates reqHeaders ⟨a.status, a.headers, bytes⟩ now = .store e) :
    p.buffers dates reqHeaders a = true := by
  rw [buffers, (storedBy_of_writeThrough h).fits, Bool.and_true]
  rw [writeThrough] at h
  cases heval : p.evaluate dates a.status a.headers reqHeaders with
  | none =>
    rw [heval] at h
    cases h
  | some decision => rfl

/-- What is stored is what has been collected, under the headers of the answer. -/
theorem CachePolicy.Stores.spec (h : p.Stores dates s reqHeaders a now n e) :
    p.buffers dates reqHeaders a = true ∧ collect a.body n = .done e.body ∧
      e.headers.getAll "content-length" = a.headers.getAll "content-length" := by
  obtain ⟨⟨resp, hresp, hwrite⟩, -⟩ := h
  have hs := storedBy_of_writeThrough hwrite
  rw [Answer.response] at hresp
  split at hresp
  · cases hresp
  · cases hresp
    have hbody := hs.body
    cases hbody
    refine ⟨buffers_of_writeThrough hwrite, ‹_›, ?_⟩
    rw [hs.headers]
    exact getAll_storedHeaders (by decide)
  · cases hresp
    cases hs.body

/-- An answer that is read into memory is stored as soon as its body has come to its end. -/
theorem exists_stores_of_endsWith (hbuffers : p.buffers dates reqHeaders a = true)
    {bytes : List UInt8} (hends : EndsWith a.body bytes) (hsize : bytes.length ≤ s.maxBytes)
    (now : Instant) : ∃ n e, p.Stores dates s reqHeaders a now n e ∧ e.body = bytes := by
  obtain ⟨n, hn⟩ := exists_collect_eq_done_iff.mpr hends
  obtain ⟨e, he⟩ := exists_writeThrough_of_buffers hbuffers bytes now
  have hbody : e.body = bytes := (Option.some.inj (storedBy_of_writeThrough he).body).symm
  refine ⟨n, e, ⟨⟨_, ?_, he⟩, ?_⟩, hbody⟩
  · rw [Answer.response, hn]
  · rw [size, hbody]
    exact hsize

/-- **Bounded buffering**: exactly when the answer is passed on unread or its body keeps to the
limit and to the length announced. The test of the announced length ensures neither. -/
theorem bounded_iff (dates : HttpDate) (p : CachePolicy T) (s : CacheStore)
    (reqHeaders : HeaderMap) (a : Answer) (now : Instant) :
    Bounded dates p s reqHeaders a now ↔
      (p.buffers dates reqHeaders a = true → Keeps p s a) := by
  constructor
  · intro h hbuffers
    constructor
    · refine forall_held_iff.mp fun n ↦ ?_
      have hheld := h.buffered n
      rwa [buffered, if_pos hbuffers] at hheld
    · intro bytes hends hsize v hv
      obtain ⟨n, e, hstores, hbody⟩ := exists_stores_of_endsWith hbuffers hends hsize now
      -- the response that the cache returns at once shows it
      have hright := (h.replayed n e hstores [] _ (.whole now)).lines v
      rw [getAll_toResponse (by decide)] at hright
      rw [← hbody]
      exact hright (hstores.spec.2.2 ▸ hv)
  · intro h
    constructor
    · intro n
      rw [buffered]
      split
      · exact forall_held_iff.mpr (h ‹_›).limit n
      · exact Nat.zero_le _
    · intro n e hstores
      obtain ⟨hbuffers, hdone, -⟩ := hstores.spec
      have hheld := forall_held_iff.mpr (h hbuffers).limit n
      rwa [hdone] at hheld
    · intro n e hstores updates r hr
      obtain ⟨hbuffers, hdone, hlines⟩ := hstores.spec
      obtain ⟨hbody, hkept⟩ := confirmed_keeps dates (m := "content-length") (by decide) updates e
      have hends := exists_collect_eq_done_iff.mp ⟨n, hdone⟩
      refine lengthRight_of_replays ?_ ?_ hr
      · rw [hkept, hlines, hbody]
        exact (h hbuffers).announced e.body hends hstores.2
      · rw [hkept, hlines]
        rw [buffers, Bool.and_eq_true] at hbuffers
        exact getAll_ne_nil_of_fits hbuffers.2

/-- What a CGI program may well say: a length of two bytes, and then five. -/
private def overlong : Answer where
  status := 200
  headers := [("content-length", "2")]
  body
    | 0 => .data (Text.bytes "hello")
    | _ => .finished

/-- Where four bytes are the limit, five are read into memory. -/
theorem five_of_two_bytes_buffered :
    ¬Bounded .blank { minute with maxObjectSize := 4 } (CacheStore.new 100) []
      overlong 0 := by
  intro h
  have hlength : (buffered .blank { minute with maxObjectSize := 4 } []
      overlong 1).length = 5 := by
    decide +kernel
  have hle := h.buffered 1
  rw [hlength] at hle
  exact absurd hle (by decide)

end Cache

end Hypershunt
