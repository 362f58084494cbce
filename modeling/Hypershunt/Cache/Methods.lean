import Hypershunt.Cache.Held

/-!
# `GET` and `HEAD` in one store

The answer to a `HEAD` has no body, so it must never be found by a `GET`. What keeps the two apart
is the key alone: whatever an operator's template makes of a request, its method stands first. A
background refresh asks with `GET` whatever the request it was left by, and stores under the key of
that request; so a `GET` may answer a `HEAD`, and not the other way round.
-/

namespace Hypershunt

namespace Cache

open Listener (RequestContext)

open String CachePolicy

variable {T : Type} {dates : HttpDate} {render : T → RequestContext → String}

/-! ## Keys -/

theorem CacheKey.exists_build_eq (render : T → RequestContext → String) (k : CacheKey T)
    (ctx : RequestContext) :
    ∃ rest, k.build render ctx = ctx.method ++ rest := by
  unfold CacheKey.build
  split
  · exact ⟨_, append_assoc⟩
  · simp only [append_assoc]
    exact ⟨_, rfl⟩

theorem Visit.exists_key_eq (render : T → RequestContext → String) (v : Visit T) :
    ∃ rest, v.key render = v.req.method.asStr ++ rest := by
  obtain ⟨rest, hrest⟩ := v.policy.key.exists_build_eq render v.ctx
  exact ⟨rest, by rw [← v.method_eq, ← hrest]; rfl⟩

theorem Visit.method_eq_get_of_key_eq {v v' : Visit T} (hget : v.req.method = .get)
    (hkey : v.key render = v'.key render) : v'.req.method = .get := by
  have hcacheable := v'.cacheable
  rw [requestCacheable, Bool.and_eq_true, Bool.or_eq_true, decide_eq_true_eq,
    decide_eq_true_eq] at hcacheable
  rcases hcacheable.1 with hget' | hhead
  · exact hget'
  · -- the two keys differ in their first letter
    obtain ⟨rest, hrest⟩ := v.exists_key_eq render
    obtain ⟨rest', hrest'⟩ := v'.exists_key_eq render
    rw [hrest, hrest', hget, hhead] at hkey
    have hchars := congrArg toList hkey
    rw [toList_append, toList_append] at hchars
    exact absurd (List.cons.inj hchars).1 (by decide)

/-! ## Bodies -/

/-- Under the key of a `GET`, a copy has the body of an answer to a `GET`. -/
def BodyOfGet (render : T → RequestContext → String) (key : String) (copy : Copy T) : Prop :=
  (∃ v : Visit T, v.req.method = .get ∧ v.key render = key) →
    ∃ x, copy.source = some x ∧ x.call.req.method = .get ∧ x.response.body = some copy.entry.body

theorem Visit.Calls.method_eq_get {v : Visit T} {call : Call} (h : v.Calls dates call)
    (hget : v.req.method = .get) : call.req.method = .get := by
  cases h with
  | fetch => exact hget
  | revalidation entry => exact hget
  | refresh entry hcall =>
    obtain ⟨uri, -, rfl⟩ := Option.map_eq_some_iff.mp hcall
    rfl

theorem holds_bodyOfGet {maxBytes : ℕ} {as : List (Action T)} {last : World T}
    (hrun : run (step dates render) (World.init maxBytes) as = some last) :
    Holds render (BodyOfGet render) last := by
  refine run_induction (.init maxBytes) (fun s a t hs hstep ↦ hs.step hstep ?_ ?_) hrun
  · rintro task - call resp now entry hcall hwrite - ⟨v', hget, hkey⟩
    have hmethod := hcall.method_eq_get (Visit.method_eq_get_of_key_eq hget hkey)
    exact ⟨_, rfl, hmethod, (storedBy_of_writeThrough hwrite).body⟩
  · -- a confirmed copy keeps its body
    rintro v copy update now - hcopy hkey
    exact hcopy hkey

/-- **A `GET` finds only answers to `GET`s**, in the store and in the copies handed out. -/
theorem body_of_get (dates : HttpDate) (render : T → RequestContext → String) (maxBytes : ℕ)
    (as : List (Action T)) (last : World T)
    (hrun : run (step dates render) (World.init maxBytes) as = some last) :
    (∀ v : Visit T, v.req.method = .get → ∀ e, last.store.peek (v.key render) = some e →
      ∃ x, last.sources (v.key render) = some x ∧ x.call.req.method = .get ∧
        x.response.body = some e.body) ∧
    ∀ task ∈ last.tasks, task.visit.req.method = .get → ∀ copy ∈ task.copies,
      ∃ x, copy.source = some x ∧ x.call.req.method = .get ∧
        x.response.body = some copy.entry.body := by
  have hholds := holds_bodyOfGet hrun
  constructor
  · intro v hget e hpeek
    exact hholds.store _ e hpeek ⟨v, hget, rfl⟩
  · intro task htask hget copy hcopy
    exact hholds.tasks task htask copy hcopy ⟨task.visit, hget, rfl⟩

/-- A request for the front page, at a location that caches both methods under a fixed template. -/
private def both (m : Method) (hm : (m = .get || m = .head) = true)
    (hlisted : ["GET", "HEAD"].contains m.asStr = true) : Visit Unit where
  location := 0
  policy := { minute with key := ⟨some ()⟩, methods := ["GET", "HEAD"] }
  matchedPrefix := "/"
  ctx := { method := m.asStr, scheme := "http", host := "a.test", path := "/", pathAndQuery := "/" }
  req := .bare m "/" [("host", "a.test")]
  method_eq := rfl
  cacheable := Bool.and_eq_true_iff.mpr ⟨hm, hlisted⟩

private def getPage : Visit Unit := both .get rfl (by decide)

private def headPage : Visit Unit := both .head rfl (by decide)

/-- A `HEAD` is answered and stored, then a `GET`, which a second `GET` finds. -/
private def headThenGets : List (Action Unit) :=
  fetching 0 headPage ⟨200, [("content-length", "2")], some []⟩ ++
    fetching 1 getPage ⟨200, [("content-length", "2")], some [111, 107]⟩ ++
    [.arrive getPage, .go 2 .look]

theorem body_of_get_after_head :
    ∃ last task copy x, run (step .blank fun _ _ ↦ "page") (World.init 100) headThenGets =
        some last ∧
      last.tasks[2]? = some task ∧ task.copies = [copy] ∧ copy.source = some x ∧
      x.call.req.method = .get ∧ x.response.body = some copy.entry.body ∧
      copy.entry.body = [111, 107] := by
  have heval : ((run (step .blank fun _ _ ↦ "page") (World.init 100) headThenGets).bind fun last ↦
      last.tasks[2]?.map fun task ↦ (task.visit.req.method,
        task.copies.map fun copy ↦ copy.entry.body)) = some (.get, [[111, 107]]) := by
    decide +kernel
  obtain ⟨last, hrun, heval⟩ := Option.bind_eq_some_iff.mp heval
  obtain ⟨task, htask, heval⟩ := Option.map_eq_some_iff.mp heval
  obtain ⟨hget, hbodies⟩ := Prod.mk.inj heval
  obtain ⟨copy, hcopies, hbody⟩ := List.map_eq_singleton_iff.mp hbodies
  obtain ⟨x, hsource, hmethod, hsame⟩ := (body_of_get .blank (fun _ _ ↦ "page") 100 headThenGets
    last hrun).2 task (List.mem_of_getElem? htask) hget copy (by simp [hcopies])
  exact ⟨last, task, copy, x, hrun, htask, hcopies, hsource, hmethod, hsame, hbody⟩

end Cache

end Hypershunt
