import Hypershunt.Cache.Held

/-!
# What a client may demand

A location that honours the `Cache-Control` of requests promises that nothing older than `max-age`,
or with less freshness left than `min-fresh`, is served from the store, unless the client accepts
stale responses; that nothing is served from it unasked to a client that says `no-cache`; and that
the handler is left alone for a client that says `only-if-cached`.

The first promise is checked for entries that are fresh, in whole seconds, and forgotten for those
within their `stale-while-revalidate` window. The last is kept when nothing is found, and forgotten
when what is found has to be confirmed first. `obeys_iff` says which lookups go well all the same.
-/

namespace Hypershunt

namespace Cache

open Listener (RequestContext)

open Duration Visit World Move Option

variable {T : Type} {dates : HttpDate} {render : T → RequestContext → String} {s t : World T}
  {a : Action T}

/-! ## The promise -/

/-- An entry may be served to a client with these directives without asking the handler. -/
structure ServedWell (rcc : RequestCacheControl) (e : StoredResponse) (now : Instant) : Prop where
  unconditional : rcc.noCache = false
  age : rcc.maxStale = none → ∀ n, rcc.maxAge = some n → e.currentAge now ≤ fromSecs n
  freshness : rcc.maxStale = none → ∀ m, rcc.minFresh = some m →
    fromSecs m ≤ e.remainingFreshness now

/-- The handler has been called for the client and has not answered yet. -/
def Phase.awaitsHandler : Phase T → Bool
  | .bypassing => true
  | .fetching _ _ => true
  | .revalidating _ _ _ => true
  | _ => false

/-- A request whose directives are kept to. They are empty where the location ignores them. -/
structure Task.Obeys (task : Task T) : Prop where
  served : ∀ copy now resp, task.reply = some (.stored copy now resp) →
    ServedWell task.visit.directives copy.entry now
  unasked : task.visit.directives.onlyIfCached = true → task.phase.awaitsHandler = false

def AllObey (s : World T) : Prop := ∀ task ∈ s.tasks, task.Obeys

/-! ## The condition -/

/-- What a lookup makes of the entry that the request selects agrees with the directives. -/
structure Settles (rcc : RequestCacheControl) (e : StoredResponse) (now : Instant) (again : Bool) :
    Prop where
  /-- For `only-if-cached`: the entry can be used as it is, or there is nothing to ask about it. -/
  usable : rcc.onlyIfCached = true → if e.isFresh now then
      refused rcc e now = false ∨ e.hasValidators = false
    else acceptsStale rcc e now = true ∨
      (rcc.noCache = false ∧ within e.swr (e.staleness now) = true) ∨
      (e.hasValidators = false ∧ within e.sie (e.staleness now) = false)
  /-- The age of a fresh entry does not exceed `max-age` by less than a second. -/
  whole : rcc.maxStale = none → e.isFresh now = true → refused rcc e now = false →
    ∀ n, rcc.maxAge = some n → (e.currentAge now).asSecs = n →
      e.currentAge now = fromSecs n
  /-- If it is refreshed meanwhile, it is young enough, and the client does not ask for
  freshness. -/
  young : again = false → rcc.noCache = false → rcc.maxStale = none → e.isFresh now = false →
    within e.swr (e.staleness now) = true →
    (∀ n, rcc.maxAge = some n → e.currentAge now ≤ fromSecs n) ∧
      ∀ m, rcc.minFresh = some m → m = 0

/-- No `only-if-cached` with `no-store` arrives, and no lookup finds an entry it cannot settle. -/
structure Settled (render : T → RequestContext → String) (s : World T) (a : Action T) : Prop where
  arrival : ∀ v, a = .arrive v → v.directives.onlyIfCached = true → v.directives.noStore = false
  lookup : ∀ i task now again e, a = .go i .look → s.tasks[i]? = some task →
    task.phase = .looking now again → s.store.peek (task.visit.key render) = some e →
    e.varyMatches task.visit.req.headers = true → Settles task.visit.directives e now again

/-! ## One lookup -/

variable {rcc : RequestCacheControl} {e : StoredResponse} {now : Instant} {d : Duration}
  {v : Visit T} {again : Bool} {m : Move T} {flights : SingleFlight.State}

theorem asSecs_le_of_not_refused (h : refused rcc e now = false) :
    rcc.noCache = false ∧ (∀ n, rcc.maxAge = some n → (e.currentAge now).asSecs ≤ n) ∧
      ∀ m, rcc.minFresh = some m → m ≤ (e.remainingFreshness now).asSecs := by
  rw [refused, Bool.or_eq_false_iff, Bool.or_eq_false_iff] at h
  obtain ⟨⟨hcache, hage⟩, hfresh⟩ := h
  refine ⟨hcache, fun n hn ↦ ?_, fun m hm ↦ ?_⟩
  · rw [hn, any_some, decide_eq_false_iff_not, not_lt] at hage
    exact hage
  · rw [hm, any_some, decide_eq_false_iff_not, not_lt] at hfresh
    exact hfresh

theorem fromSecs_le_of_le_asSecs {m : ℕ} (h : m ≤ d.asSecs) : fromSecs m ≤ d :=
  (Nat.le_div_iff_mul_le (by decide)).mp h

theorem le_fromSecs_of_asSecs_lt {n : ℕ} (h : d.asSecs < n) : d ≤ fromSecs n :=
  le_of_lt ((Nat.div_lt_iff_lt_mul (by decide)).mp h)

theorem eq_fromSecs_of_le {n : ℕ} (h : d ≤ fromSecs n) (hsecs : d.asSecs = n) :
    d = fromSecs n :=
  le_antisymm h (fromSecs_le_of_le_asSecs hsecs.ge)

/-- A fresh entry that the directives do not refuse is served well, up to a fraction of a second. -/
theorem servedWell_fresh_iff (hok : refused rcc e now = false) :
    ServedWell rcc e now ↔ (rcc.maxStale = none → ∀ n, rcc.maxAge = some n →
      (e.currentAge now).asSecs = n → e.currentAge now = fromSecs n) := by
  obtain ⟨hcache, hage, hfresh⟩ := asSecs_le_of_not_refused hok
  constructor
  · intro hwell hstale n hn hsecs
    exact eq_fromSecs_of_le (hwell.age hstale n hn) hsecs
  · intro hwhole
    refine ⟨hcache, fun hstale n hn ↦ ?_, fun _ m hm ↦ fromSecs_le_of_le_asSecs (hfresh m hm)⟩
    rcases (hage n hn).lt_or_eq with hlt | heq
    · exact le_fromSecs_of_asSecs_lt hlt
    · exact (hwhole hstale n hn heq).le

theorem remainingFreshness_of_stale (h : e.isFresh now = false) : e.remainingFreshness now = 0 := by
  rw [StoredResponse.isFresh, decide_eq_false_iff_not, not_lt] at h
  exact Nat.sub_eq_zero_of_le h

theorem servedWell_stale_iff (hcache : rcc.noCache = false) (hstale : e.isFresh now = false) :
    ServedWell rcc e now ↔ (rcc.maxStale = none →
      (∀ n, rcc.maxAge = some n → e.currentAge now ≤ fromSecs n) ∧
        ∀ m, rcc.minFresh = some m → m = 0) := by
  have hzero : ∀ m, fromSecs m ≤ e.remainingFreshness now ↔ m = 0 := by
    intro m
    rw [remainingFreshness_of_stale hstale, Nat.le_zero, fromSecs, Nat.mul_eq_zero,
      or_iff_left (by decide)]
  constructor
  · intro hwell hmax
    exact ⟨hwell.age hmax, fun m hm ↦ (hzero m).mp (hwell.freshness hmax m hm)⟩
  · intro hyoung
    exact ⟨hcache, fun hmax ↦ (hyoung hmax).1, fun hmax m hm ↦ (hzero m).mpr ((hyoung hmax).2 m hm)⟩

/-- A move after which the directives are kept to. -/
structure Move.Obeys (v : Visit T) (m : Move T) : Prop where
  served : ∀ copy now resp, m.reply = some (.stored copy now resp) →
    ServedWell v.directives copy.entry now
  unasked : v.directives.onlyIfCached = true → m.phase.awaitsHandler = false

theorem Visit.obeys_miss (op : StoreOp T)
    (hagain : v.directives.onlyIfCached = true → again = false) :
    Move.Obeys v { v.miss flights now again with op } := by
  cases again with
  | true => exact ⟨by simp [miss], fun honly ↦ absurd (hagain honly) (by decide)⟩
  | false =>
    rw [miss]
    split
    · exact ⟨by simp, fun _ ↦ rfl⟩
    · exact ⟨by simp, fun _ ↦ rfl⟩

/-- The handler is asked whatever the client says: well only if it does not object. -/
theorem Move.obeys_asking_iff (hreply : m.reply = none) (hasks : m.phase.awaitsHandler = true) :
    Move.Obeys v m ↔ ¬v.directives.onlyIfCached = true := by
  constructor
  · intro hobeys honly
    rw [hobeys.unasked honly] at hasks
    cases hasks
  · intro hnot
    exact ⟨by simp [hreply], fun honly ↦ absurd honly hnot⟩

/-- An entry is handed out: well only if it may be served. -/
theorem Move.obeys_serving_iff {copy : Copy T} {resp : Response}
    (hreply : m.reply = some (.stored copy now resp)) (hunasked : m.phase.awaitsHandler = false) :
    Move.Obeys v m ↔ ServedWell v.directives copy.entry now := by
  constructor
  · intro hobeys
    exact hobeys.served copy now resp hreply
  · intro hwell
    refine ⟨fun copy' now' resp' hreply' ↦ ?_, fun _ ↦ hunasked⟩
    rw [hreply] at hreply'
    cases hreply'
    exact hwell

theorem settles_fresh_iff (hfresh : e.isFresh now = true) :
    Settles rcc e now again ↔
      (rcc.onlyIfCached = true → refused rcc e now = false ∨ e.hasValidators = false) ∧
        (rcc.maxStale = none → refused rcc e now = false → ∀ n, rcc.maxAge = some n →
          (e.currentAge now).asSecs = n → e.currentAge now = fromSecs n) := by
  constructor
  · intro hsettles
    refine ⟨fun honly ↦ ?_, fun hmax ↦ hsettles.whole hmax hfresh⟩
    have husable := hsettles.usable honly
    rwa [if_pos hfresh] at husable
  · rintro ⟨husable, hwhole⟩
    exact
      { usable := fun honly ↦ by rw [if_pos hfresh]; exact husable honly
        whole := fun hmax _ ↦ hwhole hmax
        young := fun _ _ _ hstale ↦ absurd hfresh (Bool.eq_false_iff.mp hstale) }

theorem settles_stale_iff (hstale : e.isFresh now = false) :
    Settles rcc e now again ↔
      (rcc.onlyIfCached = true → acceptsStale rcc e now = true ∨
        (rcc.noCache = false ∧ within e.swr (e.staleness now) = true) ∨
        (e.hasValidators = false ∧ within e.sie (e.staleness now) = false)) ∧
      (again = false → rcc.noCache = false → rcc.maxStale = none →
        within e.swr (e.staleness now) = true →
        (∀ n, rcc.maxAge = some n → e.currentAge now ≤ fromSecs n) ∧
          ∀ m, rcc.minFresh = some m → m = 0) := by
  have hnot : ¬e.isFresh now = true := Bool.eq_false_iff.mp hstale
  constructor
  · intro hsettles
    refine ⟨fun honly ↦ ?_, fun hagain hcache hmax ↦ hsettles.young hagain hcache hmax hstale⟩
    have husable := hsettles.usable honly
    rwa [if_neg hnot] at husable
  · rintro ⟨husable, hyoung⟩
    exact
      { usable := fun honly ↦ by rw [if_neg hnot]; exact husable honly
        whole := fun _ hfresh ↦ absurd hfresh hnot
        young := fun hagain hcache hmax _ ↦ hyoung hagain hcache hmax }

/-- A client that accepts a stale entry has sent `max-stale`, and no `no-cache`. -/
theorem noCache_maxStale_of_acceptsStale (h : acceptsStale rcc e now = true) :
    rcc.noCache = false ∧ rcc.maxStale ≠ none := by
  rw [acceptsStale, Bool.and_eq_true, Bool.not_eq_true', any_eq_true] at h
  obtain ⟨hcache, max, hmax, -⟩ := h
  exact ⟨hcache, hmax ▸ some_ne_none max⟩

theorem within_eq_false (h : (!rcc.noCache && within e.swr (e.staleness now)) = false)
    (hcache : rcc.noCache = false) : within e.swr (e.staleness now) = false := by
  rwa [hcache, Bool.not_false, Bool.true_and] at h

/-- **One lookup**, of a request that selects the entry it finds. -/
theorem Visit.obeys_look_iff (v : Visit T) (hpeek : s.store.peek (v.key render) = some e)
    (hvary : e.varyMatches v.req.headers = true)
    (hagain : v.directives.onlyIfCached = true → again = false) :
    Move.Obeys v (v.look dates render s now again) ↔ Settles v.directives e now again := by
  simp only [look, hpeek]
  have hjudged := judged dates e v.req.headers now v.directives
  generalize judge dates e v.req.headers now v.directives = result at hjudged ⊢
  rcases hjudged with hother | ⟨-, hfresh, hok⟩ | ⟨-, hfresh, hrefused, hvalid⟩ |
    ⟨-, hfresh, hrefused, hvalid⟩ | ⟨-, hstale, haccepts⟩ | ⟨-, hstale, hrejects, hcache, hswr⟩ |
    ⟨-, hstale, hrejects, hswr, hkept⟩ | ⟨-, hstale, hrejects, hswr, hvalid, hsie⟩
  · exact absurd hvary (Bool.eq_false_iff.mp hother)
  · -- a hit
    rw [obeys_serving_iff rfl rfl, servedWell_fresh_iff hok, settles_fresh_iff hfresh]
    exact ⟨fun hwhole ↦ ⟨fun _ ↦ Or.inl hok, fun hmax _ ↦ hwhole hmax⟩,
      fun hsettles hmax ↦ hsettles.2 hmax hok⟩
  · -- the client refuses it, and it can be asked about
    rw [obeys_asking_iff (by cases again <;> rfl) (by cases again <;> rfl),
      settles_fresh_iff hfresh]
    simp [hrefused, hvalid]
  · -- the client refuses it, and it cannot
    rw [settles_fresh_iff hfresh]
    refine iff_of_true (obeys_miss _ hagain) ⟨fun _ ↦ Or.inr hvalid, fun _ hok ↦ ?_⟩
    exact absurd hrefused (Bool.eq_false_iff.mp hok)
  · -- stale, and the client accepts that
    obtain ⟨hcache, hmax⟩ := noCache_maxStale_of_acceptsStale haccepts
    rw [obeys_serving_iff rfl rfl, servedWell_stale_iff hcache hstale, settles_stale_iff hstale]
    exact iff_of_true (fun hcon ↦ absurd hcon hmax)
      ⟨fun _ ↦ Or.inl haccepts, fun _ _ hcon ↦ absurd hcon hmax⟩
  · -- stale, within the window for serving it while it is refreshed
    rcases again with _ | _
    · rw [obeys_serving_iff rfl rfl, servedWell_stale_iff hcache hstale, settles_stale_iff hstale]
      exact ⟨fun hyoung ↦ ⟨fun _ ↦ Or.inr (Or.inl ⟨hcache, hswr⟩), fun _ _ hmax _ ↦ hyoung hmax⟩,
        fun hsettles hmax ↦ hsettles.2 rfl hcache hmax hswr⟩
    · -- a follower fetches all the same
      have hnot : ¬v.directives.onlyIfCached = true := fun honly ↦ absurd (hagain honly) (by decide)
      rw [obeys_asking_iff rfl rfl, settles_stale_iff hstale]
      exact iff_of_true hnot ⟨fun honly ↦ absurd honly hnot, fun hcon ↦ absurd hcon (by decide)⟩
  · -- stale, and kept for its validator or for the case of an error
    rw [obeys_asking_iff (by cases again <;> rfl) (by cases again <;> rfl),
      settles_stale_iff hstale]
    constructor
    · intro hnot
      refine ⟨fun honly ↦ absurd honly hnot, fun _ hcache _ hopen ↦ ?_⟩
      exact absurd hopen (Bool.eq_false_iff.mp (within_eq_false hswr hcache))
    · rintro ⟨husable, -⟩ honly
      rcases husable honly with haccepts | ⟨hcache, hopen⟩ | ⟨hvalid, hsie⟩
      · exact absurd haccepts (Bool.eq_false_iff.mp hrejects)
      · exact absurd hopen (Bool.eq_false_iff.mp (within_eq_false hswr hcache))
      · rw [hvalid, hsie] at hkept
        exact absurd hkept Bool.false_ne_true
  · -- stale, and of no use
    rw [settles_stale_iff hstale]
    refine iff_of_true ⟨by simp, fun _ ↦ rfl⟩ ⟨fun _ ↦ Or.inr (Or.inr ⟨hvalid, hsie⟩), ?_⟩
    intro _ hcache _ hopen
    exact absurd hopen (Bool.eq_false_iff.mp (within_eq_false hswr hcache))

/-- A lookup goes well if it settles what it finds. -/
theorem Visit.obeys_look (hagain : v.directives.onlyIfCached = true → again = false)
    (hsettles : ∀ e, s.store.peek (v.key render) = some e →
      e.varyMatches v.req.headers = true → Settles v.directives e now again) :
    Move.Obeys v (v.look dates render s now again) := by
  rcases hpeek : s.store.peek (v.key render) with _ | e
  · simp only [look, hpeek]
    exact obeys_miss _ hagain
  · by_cases hvary : e.varyMatches v.req.headers = true
    · exact (v.obeys_look_iff hpeek hvary hagain).mpr (hsettles e hpeek hvary)
    · rw [Bool.not_eq_true] at hvary
      simp only [look, hpeek, judge, hvary]
      exact obeys_miss _ hagain

/-! ## Runs -/

/-- No way leads from here to the handler. -/
def Phase.StoreOnly : Phase T → Prop
  | .looking _ again => again = false
  | .dropping _ again _ => again = false
  | .missed _ => False
  | .waiting _ => False
  | .bypassing => False
  | .fetching _ _ => False
  | .revalidating _ _ _ => False
  | _ => True

theorem Phase.StoreOnly.awaitsHandler {phase : Phase T} (h : phase.StoreOnly) :
    phase.awaitsHandler = false := by
  cases phase with
  | bypassing => exact h.elim
  | fetching => exact h.elim
  | revalidating => exact h.elim
  | _ => rfl

theorem Phase.storeOnly_afterFetch (guard : Option ℕ) :
    (Phase.afterFetch guard : Phase T).StoreOnly := by
  rcases guard with _ | guard <;> trivial

/-- What a run keeps: the promise about what was served, and the distance to the handler. -/
structure Fine (v : Visit T) (phase : Phase T) (reply : Option (Reply T)) : Prop where
  served : ∀ copy now resp, reply = some (.stored copy now resp) →
    ServedWell v.directives copy.entry now
  storeOnly : v.directives.onlyIfCached = true → phase.StoreOnly

def AllFine (s : World T) : Prop := ∀ task ∈ s.tasks, Fine task.visit task.phase task.reply

theorem AllFine.allObey (hs : AllFine s) : AllObey s := fun task htask ↦
  ⟨(hs task htask).served, fun honly ↦ ((hs task htask).storeOnly honly).awaitsHandler⟩

theorem Visit.storeOnly_miss (honly : v.directives.onlyIfCached = true) :
    (v.miss flights now false).phase.StoreOnly := by
  rw [miss, if_pos honly]
  trivial

theorem Visit.storeOnly_look (honly : v.directives.onlyIfCached = true)
    (hunasked : (v.look dates render s now false).phase.awaitsHandler = false) :
    (v.look dates render s now false).phase.StoreOnly := by
  unfold look at hunasked ⊢
  simp only at hunasked ⊢
  split
  · exact storeOnly_miss honly
  case h_2 hpeek =>
    simp only [hpeek] at hunasked
    split
    · rfl
    case h_2 found hjudge =>
      simp only [hjudge] at hunasked
      cases found with
      | hit resp => trivial
      | staleWhileRevalidate entry => trivial
      | revalidate entry onError => cases hunasked
      | miss => exact storeOnly_miss honly

/-- The lookups that a task makes in a step settle what they find. -/
def Task.LooksWell (render : T → RequestContext → String) (s : World T) (task : Task T)
    (event : Event) : Prop :=
  ∀ now again e, event = .look → task.phase = .looking now again →
    s.store.peek (task.visit.key render) = some e →
    e.varyMatches task.visit.req.headers = true → Settles task.visit.directives e now again

theorem Task.fine_move {task : Task T} {event : Event}
    (hmove : task.move dates render s event = some m)
    (hfine : Fine task.visit task.phase task.reply) (hlooks : task.LooksWell render s event) :
    Fine task.visit m.phase m.reply := by
  cases Task.moves hmove with
  | @look now again hphase =>
    rw [hphase] at hfine
    have hagain : task.visit.directives.onlyIfCached = true → again = false := hfine.storeOnly
    have hobeys : Move.Obeys task.visit (task.visit.look dates render s now again) :=
      obeys_look hagain fun e ↦ hlooks now again e rfl hphase
    refine ⟨hobeys.served, fun honly ↦ ?_⟩
    obtain rfl := hagain honly
    exact storeOnly_look honly (hobeys.unasked honly)
  | @drop now again seen hphase =>
    rw [hphase] at hfine
    have hagain : task.visit.directives.onlyIfCached = true → again = false := hfine.storeOnly
    refine ⟨(obeys_miss .keep hagain).served, fun honly ↦ ?_⟩
    obtain rfl := hagain honly
    exact storeOnly_miss honly
  | claim hphase =>
    refine ⟨?_, fun honly ↦ ?_⟩
    · unfold claim
      split <;> simp
    · rw [hphase] at hfine
      exact (hfine.storeOnly honly).elim
  | refresh =>
    unfold refresh
    split
    · split
      · exact ⟨by simp, fun _ ↦ trivial⟩
      · exact ⟨by simp, fun _ ↦ trivial⟩
    · exact ⟨by simp, fun _ ↦ trivial⟩
  | wake hphase =>
    rw [hphase] at hfine
    exact ⟨by simp, fun honly ↦ (hfine.storeOnly honly).elim⟩
  | fetched => exact ⟨by simp, fun _ ↦ Phase.storeOnly_afterFetch _⟩
  | cancel hcancel =>
    obtain ⟨guard, rfl⟩ := Phase.eq_afterFetch_of_cancel hcancel
    exact ⟨by simp, fun _ ↦ Phase.storeOnly_afterFetch guard⟩
  | _ => exact ⟨by simp, fun _ ↦ trivial⟩

theorem AllFine.step (hs : AllFine s) (hok : Settled render s a)
    (hstep : Cache.step dates render s a = some t) : AllFine t := by
  intro task htask
  rcases mem_tasks_step hstep htask with hold | ⟨v, rfl, rfl⟩ |
    ⟨i, event, task', m, rfl, htask', hmove, hfrom⟩
  · exact hs task hold
  · rw [arrival]
    refine ⟨by simp, fun honly ↦ ?_⟩
    rw [hok.arrival v rfl honly, if_neg Bool.false_ne_true]
    rfl
  · rcases hfrom with rfl | ⟨copy, rfl, -⟩
    · have hfine := hs task' (List.mem_of_getElem? htask')
      have hmoved := Task.fine_move hmove hfine fun now again e hlook hphase hpeek hvary ↦
        hok.lookup i task' now again e (by rw [hlook]) htask' hphase hpeek hvary
      refine ⟨fun copy now resp hreply ↦ ?_, hmoved.storeOnly⟩
      rcases reply_of_orElse hreply with hgiven | ⟨-, hbefore⟩
      · exact hmoved.served copy now resp hgiven
      · exact hfine.served copy now resp hbefore
    · exact ⟨by simp, fun _ ↦ trivial⟩

/-- A step that does not go well leaves a request whose directives are not kept to. -/
theorem AllFine.not_allObey (hs : AllFine s) (hbad : ¬Settled render s a)
    (hstep : Cache.step dates render s a = some t) : ¬AllObey t := by
  intro hall
  refine hbad ⟨?_, ?_⟩
  · rintro v rfl honly
    obtain rfl := some.inj hstep
    have hobeys := hall (s.arrival v) (List.mem_append_right _ (List.mem_singleton_self _))
    have hunasked := hobeys.unasked honly
    by_contra hstore
    rw [Bool.not_eq_false] at hstore
    rw [arrival, if_pos hstore] at hunasked
    cases hunasked
  · rintro i task now again e rfl htask hphase hpeek hvary
    have hfine := hs task (List.mem_of_getElem? htask)
    rw [hphase] at hfine
    have hagain : task.visit.directives.onlyIfCached = true → again = false := hfine.storeOnly
    have hmove : task.move dates render s .look =
        some (task.visit.look dates render s now again) := by
      rw [Task.move, hphase]
    rw [Cache.step, htask, bind_some, hmove, map_some, some.injEq] at hstep
    subst hstep
    obtain ⟨hlt, -⟩ := List.getElem?_eq_some_iff.mp htask
    have hobeys := hall _ (List.mem_append_left _
      (List.mem_of_getElem? (List.getElem?_set_self hlt)))
    refine (task.visit.obeys_look_iff hpeek hvary hagain).mp ⟨?_, hobeys.unasked⟩
    intro copy now' resp hreply
    refine hobeys.served copy now' resp ?_
    rw [hreply]
    rfl

/-- **When clients are obeyed**: exactly when no request arrives with both `only-if-cached` and
`no-store`, and every lookup settles the entry it finds: with `only-if-cached` no answer about it is
needed; if it is fresh, its age does not exceed `max-age` by a fraction of a second; and if it is
served stale, it is young enough and the client asks for no freshness. -/
theorem obeys_iff (dates : HttpDate) (render : T → RequestContext → String) (maxBytes : ℕ)
    (as : List (Action T)) (last : World T)
    (hrun : run (step dates render) (init maxBytes) as = some last) :
    Always (step dates render) AllObey (init maxBytes) as ↔
      AllSteps (step dates render) (Settled render) (init maxBytes) as := by
  have hinit : AllFine (init maxBytes : World T) := by simp [AllFine, init]
  exact always_iff_allSteps hinit (fun _ ↦ AllFine.allObey) (fun _ _ _ ↦ AllFine.step)
    (fun _ _ _ ↦ AllFine.not_allObey) hrun

/-- A request with these directives, at a location that honours them. -/
private def demanding (cacheControl : String) : Visit Unit :=
  { frontPage with
    policy := { CachePolicy.minute with honorClientCacheControl := true }
    req := { frontPage.req with
      headers := [("host", "a.test"), ("cache-control", cacheControl)] }
    method_eq := rfl
    cacheable := rfl }

/-- A response is stored for a request without directives; later another request comes. -/
private def storeThenLook (cacheControl demand : String) (later : ℕ) : List (Action Unit) :=
  let headers := [("cache-control", cacheControl), ("etag", "v1"), ("content-length", "2")]
  fetching 0 (demanding "") ⟨200, headers, some [111, 107]⟩ ++
    [.tick (fromSecs later), .arrive (demanding demand), .go 1 .look]

theorem obeys_iff_of_young_entry :
    ∃ last, run (step .blank untemplated) (init 100)
        (storeThenLook "max-age=60" "max-age=30, only-if-cached" 20) = some last ∧
      (Always (step .blank untemplated) AllObey (init 100)
          (storeThenLook "max-age=60" "max-age=30, only-if-cached" 20) ↔
        AllSteps (step .blank untemplated) (Settled untemplated) (init 100)
          (storeThenLook "max-age=60" "max-age=30, only-if-cached" 20)) := by
  obtain ⟨last, hrun⟩ : ∃ last, run (step .blank untemplated) (init 100)
      (storeThenLook "max-age=60" "max-age=30, only-if-cached" 20) = some last :=
    isSome_iff_exists.mp (by decide +kernel)
  exact ⟨last, hrun, obeys_iff .blank untemplated 100 _ last hrun⟩

/-- The age of what a request is given without asking the handler. -/
private def servedAge (reply : Option (Reply Unit)) : Option Duration :=
  (reply.bind Reply.unasked).map fun served ↦ served.1.entry.currentAge served.2.1

/-- An entry aged eighty seconds is served to a client that accepts thirty, and the handler is asked
about a stale one for a client that wants only what is cached. -/
theorem directives_ignored :
    (∃ w task, run (step .blank untemplated) (init 100)
        (storeThenLook "max-age=60, stale-while-revalidate=30" "max-age=30" 80) = some w ∧
      w.tasks[1]? = some task ∧ task.visit.directives = { maxAge := some 30 } ∧
      servedAge task.reply = some (fromSecs 80) ∧ ¬AllObey w) ∧
    ∃ w task, run (step .blank untemplated) (init 100)
        (storeThenLook "max-age=60" "only-if-cached" 80) = some w ∧
      w.tasks[1]? = some task ∧ task.visit.directives = { onlyIfCached := true } ∧
      task.phase.awaitsHandler = true ∧ ¬AllObey w := by
  constructor
  · have heval : ((run (step .blank untemplated) (init 100)
        (storeThenLook "max-age=60, stale-while-revalidate=30" "max-age=30" 80)).bind fun w ↦
          w.tasks[1]?.map fun task ↦ (task.visit.directives, servedAge task.reply)) =
        some ({ maxAge := some 30 }, some (fromSecs 80)) := by decide +kernel
    obtain ⟨w, hrun, heval⟩ := bind_eq_some_iff.mp heval
    obtain ⟨task, htask, heval⟩ := map_eq_some_iff.mp heval
    obtain ⟨hrcc, hage⟩ := Prod.mk.inj heval
    refine ⟨w, task, hrun, htask, hrcc, hage, fun hall ↦ ?_⟩
    obtain ⟨⟨copy, now, resp⟩, hserved, hage⟩ := map_eq_some_iff.mp hage
    obtain ⟨reply, hreply, hserved⟩ := bind_eq_some_iff.mp hserved
    obtain rfl := Reply.eq_stored_of_unasked hserved
    have hwell := (hall task (List.mem_of_getElem? htask)).served copy now resp hreply
    rw [hrcc] at hwell
    have hle := hwell.age rfl 30 rfl
    rw [show copy.entry.currentAge now = fromSecs 80 from hage] at hle
    revert hle
    decide +kernel
  · have heval : ((run (step .blank untemplated) (init 100)
        (storeThenLook "max-age=60" "only-if-cached" 80)).bind fun w ↦
          w.tasks[1]?.map fun task ↦ (task.visit.directives, task.phase.awaitsHandler)) =
        some ({ onlyIfCached := true }, true) := by decide +kernel
    obtain ⟨w, hrun, heval⟩ := bind_eq_some_iff.mp heval
    obtain ⟨task, htask, heval⟩ := map_eq_some_iff.mp heval
    obtain ⟨hrcc, hasks⟩ := Prod.mk.inj heval
    refine ⟨w, task, hrun, htask, hrcc, hasks, fun hall ↦ ?_⟩
    have hunasked := (hall task (List.mem_of_getElem? htask)).unasked (by rw [hrcc])
    rw [hasks] at hunasked
    cases hunasked

end Cache

end Hypershunt
