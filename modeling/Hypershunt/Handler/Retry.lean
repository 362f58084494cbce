import Hypershunt.Lb.Coverage
import Hypershunt.Lb.Health
import Hypershunt.Listener.Service

/-!
# Attempts

`ProxyHandler::handle` of `handler/proxy.rs`: an upstream is picked and the request sent to it, and
if the status of its answer is one of those in the configuration, another attempt is made, as long
as there are some left. The body is read before the first of several attempts, to have it for each.

The pool is shared. Between two looks at it other requests and the probes may have changed the state
of its upstreams, though not the list of them, so what they do is a parameter of each round, as are
the clocks and the answers. What is proved holds for all of them (`handle_disciplined`).

The counters for the status page are left out, and so is what one upstream's client makes of the
request it is given: address, prefix of the path, and headers of the connection.
-/

namespace Hypershunt

open List Option

def response502 : Response := htmlResponse 502 "<h1>502 Bad Gateway</h1>"

namespace Lb

namespace UpstreamPool

variable {hasher : Hasher} {ctx : PickCtx}

theorem upstreams_pickWhere (pool : UpstreamPool) (group : Option String) (clock : Clock) :
    (pool.pickWhere hasher ctx group clock).2.upstreams = pool.upstreams := by
  rw [pickWhere]
  split_ifs
  · rfl
  · rfl
  · obtain ⟨c, hc⟩ := start_snd hasher ctx pool clock.nanos
    dsimp only
    rw [hc]

theorem lt_of_pickWhere {pool : UpstreamPool} {group : Option String} {clock : Clock} {i : ℕ}
    (h : (pool.pickWhere hasher ctx group clock).1 = some i) : i < pool.upstreams.length := by
  obtain ⟨u, hu, -⟩ := passes_of_pickWhere h
  exact (List.getElem?_eq_some_iff.mp hu).1

theorem pick_spec (pool : UpstreamPool) (hasher : Hasher) (ctx : PickCtx) (first second : Clock) :
    (pool.pick hasher ctx first second).2.upstreams = pool.upstreams ∧
      ∀ i, (pool.pick hasher ctx first second).1 = some i → i < pool.upstreams.length := by
  have hpass : ∀ (p : UpstreamPool) (group : Option String) (clock : Clock),
      p.upstreams = pool.upstreams →
      (p.pickWhere hasher ctx group clock).2.upstreams = pool.upstreams ∧
        ∀ i, (p.pickWhere hasher ctx group clock).1 = some i → i < pool.upstreams.length := by
    intro p group clock hp
    rw [upstreams_pickWhere, hp, ← hp]
    exact ⟨rfl, fun i ↦ lt_of_pickWhere⟩
  rw [pick]
  split_ifs
  · exact ⟨rfl, fun i hi ↦ by cases hi⟩
  split
  · rename_i g hg
    split_ifs
    · dsimp only
      split
      · rename_i i hi
        refine ⟨upstreams_pickWhere pool _ first, fun j hj ↦ ?_⟩
        cases hj
        exact lt_of_pickWhere hi
      · exact hpass _ none second (upstreams_pickWhere pool _ first)
    · exact hpass pool none first rfl
  · exact hpass pool none first rfl

end UpstreamPool

end Lb

namespace Proxy

open Lb (UpstreamPool Upstream PickCtx Hasher Clock PassiveHealthConfig)

/-! ## The model -/

/-- `max` is the number of attempts beyond the first. -/
structure RetryConfig where
  max : UInt32
  onStatus : List ℕ

structure ProxyHandler where
  hasher : Hasher
  passive : PassiveHealthConfig
  retry : RetryConfig

open ProxyHandler

/-- A request that has come to the handler. -/
structure Inbound where
  request : Request
  /-- The body can be read to its end. -/
  readable : Bool
  isUpgrade : Bool
  peerIp : Option IpAddr
  /-- The text of the `group-by` template, unless it is empty. -/
  group : Option String

/-- What other tasks do to the pool in the meantime. -/
structure Others where
  act : UpstreamPool → UpstreamPool
  length_eq : ∀ pool, (act pool).upstreams.length = pool.upstreams.length

/-- The surroundings of one attempt. -/
structure Round where
  beforePick : Others
  whileServed : Others
  first : Clock
  second : Clock
  /-- The answer of an upstream to a request. -/
  serve : ℕ → Request → Response
  /-- The time at which the answer is there. -/
  nowMs : UInt64

structure Attempt where
  upstream : ℕ
  request : Request
  response : Response

/-- The pool, and what was sent so far, with the answers. -/
structure State where
  pool : UpstreamPool
  attempts : List Attempt

def Inbound.pickCtx (req : Inbound) : PickCtx := ⟨req.peerIp, req.request.headers, req.group⟩

/-- `Full::new`, which has no frame without data. -/
def full (bytes : List UInt8) : Body := if bytes = [] then [] else [bytes]

def isServerError (status : ℕ) : Bool := decide (500 ≤ status) && decide (status < 600)

namespace ProxyHandler

def maxAttempts (h : ProxyHandler) : ℕ := max (Lb.saturatingSucc h.retry.max).toNat 1

def shouldRetry (h : ProxyHandler) (status : ℕ) : Bool := h.retry.onStatus.contains status

def recordOutcome (h : ProxyHandler) (i status : ℕ) (nowMs : UInt64) (pool : UpstreamPool) :
    UpstreamPool :=
  pool.modify i
    (fun u ↦ if isServerError status then Lb.recordFailure h.passive u nowMs
      else Lb.recordSuccess u) <| by
    intro u
    rw [Lb.recordFailure]
    split_ifs <;> rfl

/-- The body of the loop up to the decision; `none` if no upstream can be picked. The counter of
requests in flight is up while an upstream serves. -/
def attempt (h : ProxyHandler) (round : Round) (ctx : PickCtx) (request : Request) (s : State) :
    Option Response × State :=
  match (round.beforePick.act s.pool).pick h.hasher ctx round.first round.second with
  | (none, pool) => (none, { s with pool := pool })
  | (some i, pool) =>
    let pool := pool.modify i (fun u ↦ { u with inFlight := u.inFlight + 1 }) fun _ ↦ rfl
    let resp := round.serve i request
    let pool := h.recordOutcome i resp.status round.nowMs (round.whileServed.act pool)
    (some resp,
      ⟨pool.modify i (fun u ↦ { u with inFlight := u.inFlight - 1 }) fun _ ↦ rfl,
        s.attempts ++ [⟨i, request, resp⟩]⟩)

/-- One attempt and no more. -/
def once (h : ProxyHandler) (round : Round) (ctx : PickCtx) (request : Request) (s : State) :
    Response × State :=
  match h.attempt round ctx request s with
  | (none, s) => (response502, s)
  | (some resp, s) => (resp, s)

/-- The loop, with so many attempts left. -/
def loop (h : ProxyHandler) (rounds : ℕ → Round) (ctx : PickCtx) (request : Request) :
    ℕ → ℕ → Option Response → State → Response × State
  | 0, _, lastResp, s => (lastResp.getD response502, s)
  | left + 1, k, lastResp, s =>
    match h.attempt (rounds k) ctx request s with
    | (none, s) => (lastResp.getD response502, s)
    | (some resp, s) =>
      if h.shouldRetry resp.status && decide (k + 1 < h.maxAttempts) then
        loop h rounds ctx request left (k + 1) (some resp) s
      else (resp, s)

def handle (h : ProxyHandler) (rounds : ℕ → Round) (req : Inbound) (pool : UpstreamPool) :
    Response × State :=
  let s : State := ⟨pool, []⟩
  if req.isUpgrade then h.once (rounds 0) req.pickCtx req.request s
  else if h.maxAttempts = 1 then h.once (rounds 0) req.pickCtx req.request s
  else if req.readable then
    h.loop rounds req.pickCtx { req.request with body := full req.request.body.flatten }
      h.maxAttempts 0 none s
  else (response502, s)

/-- The attempts that a request is allowed: once a tunnel is open, there is no way back. -/
def allowed (h : ProxyHandler) (req : Inbound) : ℕ := if req.isUpgrade then 1 else h.maxAttempts

end ProxyHandler

/-! ## Discipline -/

/-- The same method, target, headers and bytes. -/
structure SameRequest (r r' : Request) : Prop where
  method : r.method = r'.method
  uri : r.uri = r'.uri
  headers : r.headers = r'.headers
  body : r.body.flatten = r'.body.flatten

/-- The pool when an upstream that was picked has answered. -/
def Round.answered (round : Round) (picked : UpstreamPool) (i : ℕ) : UpstreamPool :=
  round.whileServed.act
    (picked.modify i (fun u ↦ { u with inFlight := u.inFlight + 1 }) fun _ ↦ rfl)

/-- What one request leaves of the upstream that served it: one more error in a row, and it is
ejected if these are enough, or no error any more. -/
def counted (passive : PassiveHealthConfig) (status : ℕ) (nowMs : UInt64) (u : Upstream) :
    Upstream :=
  let u := { u with inFlight := u.inFlight - 1 }
  if 500 ≤ status ∧ status < 600 then
    { u with
      consecutiveErrors := u.consecutiveErrors + 1
      ejectedUntilMs :=
        if passive.ejectAfter ≠ PassiveHealthConfig.never ∧
            passive.ejectAfter ≤ u.consecutiveErrors + 1 then
          Lb.saturatingAdd nowMs (passive.ejectForSecs * 1000)
        else u.ejectedUntilMs }
  else { u with consecutiveErrors := 0 }

/-- An attempt as it should be, between two states of the pool. -/
structure Attempted (h : ProxyHandler) (round : Round) (ctx : PickCtx) (before : UpstreamPool)
    (a : Attempt) (after : UpstreamPool) : Prop where
  /-- The pool picks the upstream, which is the one that answers. -/
  picked : ∃ pool, (round.beforePick.act before).pick h.hasher ctx round.first round.second =
      (some a.upstream, pool) ∧
    -- it is counted for this upstream, and no other one is changed
    ∀ j, after.upstreams[j]? = ((round.answered pool a.upstream).upstreams[j]?).map fun u ↦
      if j = a.upstream then counted h.passive a.response.status round.nowMs u else u
  response : a.response = round.serve a.upstream a.request

/-- Attempts one after the other, the last of which leaves the pool in this state. -/
inductive Trail (h : ProxyHandler) (rounds : ℕ → Round) (ctx : PickCtx) (start : UpstreamPool) :
    List Attempt → UpstreamPool → Prop
  | start : Trail h rounds ctx start [] start
  | attempt {as : List Attempt} {a : Attempt} {before after : UpstreamPool}
      (htrail : Trail h rounds ctx start as before)
      (ha : Attempted h (rounds as.length) ctx before a after) :
      Trail h rounds ctx start (as ++ [a]) after

/-- Why there are no more attempts than these, which have left the pool in the state `last`. -/
inductive Stopped (h : ProxyHandler) (rounds : ℕ → Round) (req : Inbound) (last : UpstreamPool)
    (s : State) : Prop
  /-- The last answer is one that is not tried again. -/
  | settled (a : Attempt) (hlast : s.attempts.getLast? = some a)
      (hstatus : h.shouldRetry a.response.status = false) (hpool : s.pool = last)
  | exhausted (hlength : s.attempts.length = h.allowed req) (hpool : s.pool = last)
  /-- The pool has no upstream for the next attempt. -/
  | unavailable {round : Round} (hround : round = rounds s.attempts.length)
      (hnone : (round.beforePick.act last).pick h.hasher req.pickCtx round.first round.second =
        (none, s.pool))
  /-- There was none, as the body for it could not be read. -/
  | unreadable (hbody : req.readable = false) (hnone : s.attempts = []) (hpool : s.pool = last)

structure Disciplined (h : ProxyHandler) (rounds : ℕ → Round) (req : Inbound)
    (pool : UpstreamPool) (resp : Response) (s : State) : Prop where
  bounded : s.attempts.length ≤ h.retry.max.toNat + 1
  same : ∀ a ∈ s.attempts, SameRequest a.request req.request
  /-- What was tried again was to be tried again. -/
  retried : ∀ a ∈ s.attempts.dropLast, h.shouldRetry a.response.status = true
  stopped : ∃ last, Trail h rounds req.pickCtx pool s.attempts last ∧ Stopped h rounds req last s
  answered : ∀ a, s.attempts.getLast? = some a → resp = a.response
  refused : s.attempts = [] → resp = response502
  served : ∀ a ∈ s.attempts, a.upstream < pool.upstreams.length

variable {h : ProxyHandler} {rounds : ℕ → Round} {ctx : PickCtx} {request : Request} {req : Inbound}
  {pool : UpstreamPool} {s : State}

theorem SameRequest.refl (r : Request) : SameRequest r r := ⟨rfl, rfl, rfl, rfl⟩

theorem flatten_full (bytes : List UInt8) : (full bytes).flatten = bytes := by
  rw [full]
  split_ifs with hnil
  · exact hnil.symm
  · rw [flatten_singleton]

theorem isServerError_iff (status : ℕ) :
    isServerError status = true ↔ 500 ≤ status ∧ status < 600 := by
  simp [isServerError]

/-- The outcome is recorded while the request counts as one in flight, which makes no difference. -/
theorem counted_eq (passive : PassiveHealthConfig) (status : ℕ) (nowMs : UInt64) (u : Upstream) :
    let v := if isServerError status then Lb.recordFailure passive u nowMs else Lb.recordSuccess u
    counted passive status nowMs u = { v with inFlight := v.inFlight - 1 } := by
  simp only [counted, isServerError_iff, Lb.recordFailure, Lb.recordSuccess]
  split_ifs <;> rfl

theorem getElem?_recordOutcome (h : ProxyHandler) (i status j : ℕ) (nowMs : UInt64)
    (pool : UpstreamPool) :
    ((h.recordOutcome i status nowMs pool).modify i
        (fun u ↦ { u with inFlight := u.inFlight - 1 }) fun _ ↦ rfl).upstreams[j]? =
      pool.upstreams[j]?.map fun u ↦ if j = i then counted h.passive status nowMs u else u := by
  simp only [recordOutcome, UpstreamPool.modify, getElem?_modify]
  rcases pool.upstreams[j]? with _ | u
  · rfl
  by_cases hj : i = j
  · simp only [hj, if_true, map_some, counted_eq]
    rfl
  · simp only [hj, Ne.symm hj, if_false, map_some]
    rfl

/-- **What one attempt does.** -/
theorem attempt_cases (h : ProxyHandler) (round : Round) (ctx : PickCtx) (request : Request)
    (s : State) :
    (∃ pool, (round.beforePick.act s.pool).pick h.hasher ctx round.first round.second =
        (none, pool) ∧ h.attempt round ctx request s = (none, { s with pool := pool })) ∨
      ∃ a pool, h.attempt round ctx request s = (some a.response, ⟨pool, s.attempts ++ [a]⟩) ∧
        a.request = request ∧ Attempted h round ctx s.pool a pool ∧
        a.upstream < s.pool.upstreams.length ∧
        pool.upstreams.length = s.pool.upstreams.length := by
  obtain ⟨hpool, hlt⟩ :=
    (round.beforePick.act s.pool).pick_spec h.hasher ctx round.first round.second
  rw [attempt]
  split
  · rename_i pool hpick
    exact Or.inl ⟨pool, hpick, rfl⟩
  · rename_i i pool hpick
    rw [hpick] at hpool hlt
    refine Or.inr ⟨⟨i, request, round.serve i request⟩, _, rfl, rfl,
      ⟨⟨pool, hpick, fun j ↦ getElem?_recordOutcome h i _ j _ _⟩, rfl⟩, ?_, ?_⟩
    · rw [← round.beforePick.length_eq]
      exact hlt i rfl
    · -- no upstream is added or removed
      simp only [recordOutcome, UpstreamPool.modify, length_modify, round.whileServed.length_eq]
      rw [hpool, round.beforePick.length_eq]

theorem maxAttempts_le (h : ProxyHandler) : h.maxAttempts ≤ h.retry.max.toNat + 1 := by
  rw [maxAttempts, Lb.toNat_saturatingSucc]
  omega

theorem allowed_le (h : ProxyHandler) (req : Inbound) : h.allowed req ≤ h.retry.max.toNat + 1 := by
  rw [allowed]
  split_ifs
  · omega
  · exact maxAttempts_le h

/-! ## The loop -/

/-- Where the loop is after some attempts, all of which are to be repeated. -/
structure Going (h : ProxyHandler) (rounds : ℕ → Round) (ctx : PickCtx) (request : Request)
    (pool : UpstreamPool) (k : ℕ) (lastResp : Option Response) (s : State) : Prop where
  upstreams : s.pool.upstreams.length = pool.upstreams.length
  length : s.attempts.length = k
  request : ∀ a ∈ s.attempts, a.request = request
  retried : ∀ a ∈ s.attempts, h.shouldRetry a.response.status = true
  last : lastResp = s.attempts.getLast?.map Attempt.response
  served : ∀ a ∈ s.attempts, a.upstream < pool.upstreams.length
  trail : Trail h rounds ctx pool s.attempts s.pool

theorem going_nil (h : ProxyHandler) (rounds : ℕ → Round) (ctx : PickCtx) (request : Request)
    (pool : UpstreamPool) : Going h rounds ctx request pool 0 none ⟨pool, []⟩ := by
  refine ⟨rfl, rfl, ?_, ?_, rfl, ?_, .start⟩ <;> exact fun _ ha ↦ absurd ha not_mem_nil

variable {k : ℕ} {lastResp : Option Response} {a : Attempt} {after : UpstreamPool}

/-- One more attempt after which the loop goes on. -/
theorem Going.next (hgoing : Going h rounds ctx request pool k lastResp s)
    (hrequest : a.request = request) (ha : Attempted h (rounds k) ctx s.pool a after)
    (hi : a.upstream < pool.upstreams.length)
    (hupstreams : after.upstreams.length = pool.upstreams.length)
    (hretry : h.shouldRetry a.response.status = true) :
    Going h rounds ctx request pool (k + 1) (some a.response) ⟨after, s.attempts ++ [a]⟩ where
  upstreams := hupstreams
  length := by rw [length_append, hgoing.length, length_singleton]
  request := forall_mem_append.mpr ⟨hgoing.request, forall_mem_singleton.mpr hrequest⟩
  retried := forall_mem_append.mpr ⟨hgoing.retried, forall_mem_singleton.mpr hretry⟩
  last := by rw [getLast?_concat, map_some]
  served := forall_mem_append.mpr ⟨hgoing.served, forall_mem_singleton.mpr hi⟩
  trail := .attempt hgoing.trail (hgoing.length.symm ▸ ha)

/-- The loop ends without another attempt. -/
theorem Going.disciplined (hgoing : Going h rounds req.pickCtx request pool k lastResp s)
    (hsame : SameRequest request req.request) (hle : k ≤ h.allowed req)
    (hstopped : Stopped h rounds req s.pool ⟨after, s.attempts⟩) :
    Disciplined h rounds req pool (lastResp.getD response502) ⟨after, s.attempts⟩ where
  bounded := hgoing.length.trans_le (hle.trans (allowed_le h req))
  same b hb := by rwa [hgoing.request b hb]
  retried b hb := hgoing.retried b (mem_of_mem_dropLast hb)
  stopped := ⟨s.pool, hgoing.trail, hstopped⟩
  answered b hb := by
    have hlast : s.attempts.getLast? = some b := hb
    rw [hgoing.last, hlast, map_some, getD_some]
  refused hnil := by
    have hnone : s.attempts = [] := hnil
    rw [hgoing.last, hnone]
    rfl
  served := hgoing.served

/-- The loop ends with an attempt. -/
theorem Going.disciplined_of_last (hgoing : Going h rounds req.pickCtx request pool k lastResp s)
    (hsame : SameRequest request req.request) (hlt : k < h.allowed req)
    (hrequest : a.request = request) (ha : Attempted h (rounds k) req.pickCtx s.pool a after)
    (hi : a.upstream < pool.upstreams.length)
    (hend : h.shouldRetry a.response.status = true → k + 1 = h.allowed req) :
    Disciplined h rounds req pool a.response ⟨after, s.attempts ++ [a]⟩ := by
  have hlength : (s.attempts ++ [a]).length = k + 1 := by
    rw [length_append, hgoing.length, length_singleton]
  have hstopped : Stopped h rounds req after ⟨after, s.attempts ++ [a]⟩ := by
    by_cases hretry : h.shouldRetry a.response.status = true
    · exact .exhausted (hlength.trans (hend hretry)) rfl
    · exact .settled a getLast?_concat (Bool.eq_false_iff.mpr hretry) rfl
  refine ⟨?_, ?_, fun b hb ↦ ?_, ⟨after, .attempt hgoing.trail (hgoing.length.symm ▸ ha), hstopped⟩,
    fun b hb ↦ ?_, fun hnil ↦ absurd hnil (by simp),
    forall_mem_append.mpr ⟨hgoing.served, forall_mem_singleton.mpr hi⟩⟩
  · exact hlength.trans_le (hlt.trans_le (allowed_le h req))
  · refine forall_mem_append.mpr ⟨fun b hb ↦ ?_, forall_mem_singleton.mpr (hrequest ▸ hsame)⟩
    rwa [hgoing.request b hb]
  · rw [dropLast_concat] at hb
    exact hgoing.retried b hb
  · rw [getLast?_concat, Option.some.injEq] at hb
    rw [← hb]

theorem loop_disciplined (hsame : SameRequest request req.request)
    (hupgrade : req.isUpgrade = false) (left : ℕ) (hleft : left + k = h.maxAttempts)
    (hgoing : Going h rounds req.pickCtx request pool k lastResp s) :
    Disciplined h rounds req pool (h.loop rounds req.pickCtx request left k lastResp s).1
      (h.loop rounds req.pickCtx request left k lastResp s).2 := by
  have hallowed : h.allowed req = h.maxAttempts := by
    rw [allowed, hupgrade]
    rfl
  induction left generalizing k lastResp s with
  | zero =>
    rw [loop]
    refine hgoing.disciplined hsame (by omega) (.exhausted ?_ rfl)
    rw [hgoing.length, hallowed]
    omega
  | succ left ih =>
    rw [loop]
    rcases attempt_cases h (rounds k) req.pickCtx request s with
      ⟨pool', hpick, hnone⟩ | ⟨a, pool', hsome, hrequest, ha, hi, hupstreams⟩
    · rw [hnone]
      exact hgoing.disciplined hsame (by omega) (.unavailable (hgoing.length ▸ rfl) hpick)
    · rw [hgoing.upstreams] at hi hupstreams
      rw [hsome]
      dsimp only
      split_ifs with hagain
      · rw [Bool.and_eq_true, decide_eq_true_eq] at hagain
        exact ih (by omega) (hgoing.next hrequest ha hi hupstreams hagain.1)
      · refine hgoing.disciplined_of_last hsame (by omega) hrequest ha hi fun hretry ↦ ?_
        rw [hretry, Bool.true_and, decide_eq_true_eq] at hagain
        omega

theorem once_disciplined (hallowed : h.allowed req = 1) (pool : UpstreamPool) :
    Disciplined h rounds req pool
      (h.once (rounds 0) req.pickCtx req.request ⟨pool, []⟩).1
      (h.once (rounds 0) req.pickCtx req.request ⟨pool, []⟩).2 := by
  have hgoing := going_nil h rounds req.pickCtx req.request pool
  have hsame := SameRequest.refl req.request
  rw [once]
  rcases attempt_cases h (rounds 0) req.pickCtx req.request ⟨pool, []⟩ with
    ⟨pool', hpick, hnone⟩ | ⟨a, pool', hsome, hrequest, ha, hi, -⟩
  · rw [hnone]
    exact hgoing.disciplined hsame (Nat.zero_le _) (.unavailable rfl hpick)
  · rw [hsome]
    exact hgoing.disciplined_of_last hsame (by omega) hrequest ha hi fun _ ↦ hallowed.symm

/-- **Attempts are made as the configuration says**, for every pool, request and answers. -/
theorem handle_disciplined (h : ProxyHandler) (rounds : ℕ → Round) (req : Inbound)
    (pool : UpstreamPool) :
    Disciplined h rounds req pool (h.handle rounds req pool).1 (h.handle rounds req pool).2 := by
  rw [handle]
  dsimp only
  split_ifs with hupgrade hone hreadable
  · exact once_disciplined (by rw [allowed, if_pos hupgrade]) pool
  · exact once_disciplined (by rw [allowed, if_neg hupgrade, hone]) pool
  · have hsame : SameRequest { req.request with body := full req.request.body.flatten }
        req.request :=
      ⟨rfl, rfl, rfl, flatten_full req.request.body.flatten⟩
    exact loop_disciplined hsame (Bool.eq_false_iff.mpr hupgrade) h.maxAttempts rfl
      (going_nil h rounds _ _ pool)
  · exact (going_nil h rounds req.pickCtx req.request pool).disciplined (SameRequest.refl _)
      (Nat.zero_le _) (.unreadable (Bool.eq_false_iff.mpr hreadable) rfl rfl)

end Proxy

end Hypershunt
