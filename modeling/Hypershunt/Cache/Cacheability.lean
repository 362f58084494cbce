import Hypershunt.Cache.Held
import Hypershunt.Cache.Variant

/-!
# Whether what is stored may be stored

A handler's response is stored only if its `Cache-Control` does not forbid it, its `Vary` has no
star and its lifetime is not zero. The headers of a `304` are laid over those of an entry without
any such test, and the entry is put back as it then is. Whether the store keeps its promise is
therefore up to the `304`s: `cacheability_iff` says that a run keeps it exactly as long as every
confirmation could be stored itself.
-/

namespace Hypershunt

namespace Cache

open Listener (RequestContext)

open ResponseCacheControl World Option

variable {T : Type} {dates : HttpDate} {render : T → RequestContext → String}

/-- Nothing in the entry rules out that it is stored. -/
structure Cacheable (e : StoredResponse) : Prop where
  allowed : (parse e.headers).forbids = false
  noStar : ¬HasStar (e.headers.getAll "vary")
  lifetime : e.freshnessLifetime ≠ 0

/-- All that is stored may be stored. -/
def AllCacheable (s : World T) : Prop := ∀ k e, s.store.peek k = some e → Cacheable e

/-- The first line of a header, alone. -/
def firstLine (h : HeaderMap) (n : HeaderName) : HeaderMap := ((h.get n).map fun v ↦ (n, v)).toList

/-- The lines of a `304` that are laid over an entry's forbid nothing, and it gives a lifetime. -/
structure Allows (dates : HttpDate) (p : CachePolicy T) (update : HeaderMap) : Prop where
  allowed : (parse (firstLine update "cache-control")).forbids = false
  noStar : ¬HasStar (update.get "vary").toList
  lifetime : p.lifetimeFrom dates update ≠ 0

/-- A step that confirms an entry does so with headers that allow to store it. -/
def ConfirmsWell (dates : HttpDate) (s : World T) (a : Action T) : Prop :=
  ∀ v copy update now, Confirms s a v copy update now → Allows dates v.policy update

theorem cacheable_of_writeThrough {p : CachePolicy T} {h : HeaderMap} {resp : Response}
    {now : Instant} {entry : StoredResponse}
    (hwrite : p.writeThrough dates h resp now = .store entry) : Cacheable entry := by
  have hs := storedBy_of_writeThrough hwrite
  obtain ⟨names, hnames, -⟩ := hs.vary
  constructor
  · rw [hs.headers, parse_congr
      (StoredResponse.getAll_storedHeaders (h := resp.headers) (by decide))]
    exact hs.allowed
  · rw [hs.headers, StoredResponse.getAll_storedHeaders (by decide)]
    exact (varyNames_eq_some hnames).1
  · rw [hs.lifetime]
    exact hs.lifetime_ne_zero

theorem getAll_firstLine (h : HeaderMap) (n : HeaderName) :
    (firstLine h n).getAll n = (h.get n).toList := by
  rw [firstLine]
  rcases h.get n with _ | v
  · rfl
  · simp [HeaderMap.getAll]

/-- An entry that may be stored may be put back exactly if the `304` allows it. -/
theorem cacheable_revalidated_iff {p : CachePolicy T} {e : StoredResponse} (he : Cacheable e)
    (update : HeaderMap) (now : Instant) :
    Cacheable (p.revalidated dates e update now) ↔ Allows dates p update := by
  have hcc : (parse (p.revalidated dates e update now).headers).forbids =
      (parse (firstLine update "cache-control")).forbids := by
    have hlines : (p.revalidated dates e update now).headers.getAll "cache-control" = _ :=
      getAll_revalidated p e update now (by decide)
    by_cases hkey : update.containsKey "cache-control" = true
    · rw [if_pos hkey, ← getAll_firstLine] at hlines
      rw [parse_congr hlines]
    · rw [if_neg hkey] at hlines
      rw [parse_congr hlines, he.allowed]
      rw [HeaderMap.containsKey_eq_isSome_get, not_isSome_iff_eq_none] at hkey
      rw [firstLine, hkey]
      rfl
  have hvary : HasStar ((p.revalidated dates e update now).headers.getAll "vary") ↔
      HasStar (update.get "vary").toList := by
    rw [getAll_vary_revalidated]
    rcases update.get "vary" with _ | v
    · exact iff_of_false he.noStar (by decide)
    · exact Iff.rfl
  constructor
  · rintro ⟨hallowed, hstar, hlifetime⟩
    exact ⟨hcc ▸ hallowed, hvary.not.mp hstar, hlifetime⟩
  · rintro ⟨hallowed, hstar, hlifetime⟩
    exact ⟨hcc ▸ hallowed, hvary.not.mpr hstar, hlifetime⟩

/-! ## Runs -/

/-- What is held may be stored and is small enough for the store. -/
def Fit (maxBytes : ℕ) (_ : String) (copy : Copy T) : Prop :=
  Cacheable copy.entry ∧ copy.entry.size ≤ maxBytes

/-- All that is held is fit for a store of this size, and the store is of this size. -/
structure FitWorld (render : T → RequestContext → String) (maxBytes : ℕ) (s : World T) : Prop where
  holds : Holds render (Fit maxBytes) s
  budget : s.store.maxBytes = maxBytes

variable {maxBytes : ℕ} {s t : World T} {a : Action T}

theorem FitWorld.allCacheable (hs : FitWorld render maxBytes s) : AllCacheable s :=
  fun k e hpeek ↦ (hs.holds.store k e hpeek).1

theorem FitWorld.step (hs : FitWorld render maxBytes s) (hwell : ConfirmsWell dates s a)
    (hstep : Cache.step dates render s a = some t) : FitWorld render maxBytes t := by
  refine ⟨hs.holds.step hstep ?_ ?_, (maxBytes_step hstep).trans hs.budget⟩
  · intro task _ call resp now entry _ hwrite hsize
    exact ⟨cacheable_of_writeThrough hwrite, hs.budget ▸ hsize⟩
  · rintro v copy update now hconfirms ⟨hcopy, hsize⟩
    exact ⟨(cacheable_revalidated_iff hcopy update now).mpr (hwell v copy update now hconfirms),
      hsize⟩

/-- A confirmation puts the entry back whatever its headers say. -/
theorem peek_of_confirms {v : Visit T} {copy : Copy T} {update : HeaderMap} {now : Instant}
    (hconfirms : Confirms s a v copy update now) (hsize : copy.entry.size ≤ s.store.maxBytes)
    (hstep : Cache.step dates render s a = some t) :
    t.store.peek (v.key render) = some (v.policy.revalidated dates copy.entry update now) := by
  obtain ⟨htask, hasked, hstatus⟩ := hconfirms
  rcases step_cases hstep with ⟨_, ha, -⟩ | ⟨_, ha, -⟩ | ⟨_, ha, -⟩ |
    ⟨i, event, task', m, ha, htask', hmove, rfl⟩
  · cases ha
  · cases ha
  · cases ha
  · cases ha
    obtain rfl : _ = task' := some.inj (htask.symm.trans htask')
    have hop := op_of_confirms hasked hstatus hmove
    change (s.exec m.op).store.peek _ = _
    rw [hop]
    exact CacheStore.peek_insert_self _ hsize

/-- **When the store holds only what may be stored**: exactly when every `304` that confirms an
entry has a first `Cache-Control` that does not forbid storing, a first `Vary` without a star, and a
lifetime under the location's policy. -/
theorem cacheability_iff (dates : HttpDate) (render : T → RequestContext → String) (maxBytes : ℕ)
    (as : List (Action T)) (last : World T)
    (hrun : run (step dates render) (init maxBytes) as = some last) :
    Always (step dates render) AllCacheable (init maxBytes) as ↔
      AllSteps (step dates render) (ConfirmsWell dates) (init maxBytes) as := by
  have hinit : FitWorld render maxBytes (init maxBytes) := ⟨.init maxBytes, rfl⟩
  refine always_iff_allSteps hinit (fun _ ↦ FitWorld.allCacheable) (fun _ _ _ ↦ FitWorld.step) ?_
    hrun
  intro s a t hs hbad hstep hall
  rw [ConfirmsWell] at hbad
  push Not at hbad
  obtain ⟨v, copy, update, now, hconfirms, hnot⟩ := hbad
  obtain ⟨hcopy, hsize⟩ := hs.holds.confirmed hconfirms
  have hput := peek_of_confirms hconfirms (hs.budget ▸ hsize) hstep
  exact hnot ((cacheable_revalidated_iff hcopy update now).mp (hall _ _ hput))

/-- A tagged response is stored; seventy seconds later a request finds it stale and asks about
it. -/
private def fetchThenAsk (update : HeaderMap) : List (Action Unit) :=
  fetching 0 frontPage ⟨200, [("etag", "v1"), ("content-length", "2")], some [111, 107]⟩ ++
    [.tick (Duration.fromSecs 70), .arrive frontPage, .go 1 .look,
      .go 1 (.respond ⟨304, update, some []⟩)]

theorem cacheability_iff_of_max_age :
    ∃ last, run (step .blank untemplated) (init 100)
        (fetchThenAsk [("cache-control", "max-age=30")]) = some last ∧
      (Always (step .blank untemplated) AllCacheable (init 100)
          (fetchThenAsk [("cache-control", "max-age=30")]) ↔
        AllSteps (step .blank untemplated) (ConfirmsWell .blank) (init 100)
          (fetchThenAsk [("cache-control", "max-age=30")])) := by
  obtain ⟨last, hrun⟩ : ∃ last, run (step .blank untemplated) (init 100)
      (fetchThenAsk [("cache-control", "max-age=30")]) = some last :=
    isSome_iff_exists.mp (by decide +kernel)
  exact ⟨last, hrun, cacheability_iff .blank untemplated 100 _ last hrun⟩

/-- A `304` that says `no-store`: the entry is put back, with that line. -/
theorem confirmed_against_no_store :
    ∃ last e, run (step .blank untemplated) (init 100)
        (fetchThenAsk [("cache-control", "no-store")]) = some last ∧
      last.store.peek "GET http://a.test/" = some e ∧
      (parse e.headers).noStore = true ∧ ¬AllCacheable last := by
  have hpeek : ((run (step .blank untemplated) (init 100)
      (fetchThenAsk [("cache-control", "no-store")])).bind fun last ↦
        (last.store.peek "GET http://a.test/").map fun e ↦
          (parse e.headers).noStore) = some true := by decide +kernel
  obtain ⟨last, hrun, hpeek⟩ := bind_eq_some_iff.mp hpeek
  obtain ⟨e, he, hforbids⟩ := map_eq_some_iff.mp hpeek
  refine ⟨last, e, hrun, he, hforbids, fun hall ↦ ?_⟩
  have hallowed := (hall _ _ he).allowed
  rw [forbids, hforbids] at hallowed
  cases hallowed

end Cache

end Hypershunt
