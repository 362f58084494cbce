import Hypershunt.Cache.Held

/-!
# When an entry leaves the store

An entry goes when another takes its key, when the budget needs its room, when the sweeper finds it
stale, or when a lookup finds it of no use. The last is the delicate one: a lookup reads the entry
under its key in one step and, having judged it, removes *whatever is under the key* in another.
The entry it has judged is stale and stays so, since the clock does not go back. What it removes
need not be that entry.

`fresh_kept_iff` says when a fresh entry is lost this way.
-/

namespace Hypershunt

namespace Cache

open Listener (RequestContext)

open World CacheStore Option

variable {T : Type} {dates : HttpDate} {render : T → RequestContext → String} {s t : World T}
  {a : Action T}

/-- What a step does to the store. -/
def opOf (dates : HttpDate) (render : T → RequestContext → String) (s : World T) :
    Action T → StoreOp T
  | .sweep now => .sweep now
  | .go i event =>
    ((s.tasks[i]?.bind fun task ↦ task.move dates render s event).map Move.op).getD .keep
  | _ => .keep

theorem opOf_go {i : ℕ} {event : Event} {task : Task T} {m : Move T}
    (htask : s.tasks[i]? = some task) (hmove : task.move dates render s event = some m) :
    opOf dates render s (.go i event) = m.op := by
  rw [opOf, htask, bind_some, hmove, map_some, getD_some]

theorem store_step (h : step dates render s a = some t) :
    t.store = (s.exec (opOf dates render s a)).store := by
  rcases step_cases h with ⟨d, rfl, rfl⟩ | ⟨v, rfl, rfl⟩ | ⟨now, rfl, -, rfl⟩ |
    ⟨i, event, task, m, rfl, htask, hmove, rfl⟩
  · rfl
  · rfl
  · rfl
  · rw [opOf_go htask hmove]
    rfl

/-- An insertion may replace an entry and evict others. -/
def StoreOp.isInsert : StoreOp T → Bool
  | .insert _ _ _ => true
  | _ => false

/-- Every fresh entry stays where it is, unless the step is an insertion. -/
def KeepsFresh (dates : HttpDate) (render : T → RequestContext → String) (s : World T)
    (a : Action T) : Prop :=
  ∀ t, step dates render s a = some t → ∀ k e, s.store.peek k = some e →
    e.isFresh s.clock = true → t.store.peek k = some e ∨ (opOf dates render s a).isInsert = true

/-- A lookup that removes its key finds there what it has judged, or nothing that is fresh. -/
def RemovesStale (render : T → RequestContext → String) (s : World T) (a : Action T) : Prop :=
  ∀ i task now again seen e, a = .go i .drop → s.tasks[i]? = some task →
    task.phase = .dropping now again seen → s.store.peek (task.visit.key render) = some e →
    e = seen ∨ e.isFresh s.clock = false

/-! ## The clock -/

variable {e : StoredResponse} {now : Instant}

theorem isFresh_eq_false_of_le {now' : Instant} (h : e.isFresh now = false) (hle : now ≤ now') :
    e.isFresh now' = false := by
  unfold StoredResponse.isFresh Instant.saturatingDurationSince at *
  rw [decide_eq_false_iff_not, not_lt] at *
  exact le_trans h (Nat.sub_le_sub_right hle _)

/-- The times in a phase are past, and what is about to be dropped was stale. -/
def Phase.Timely (clock : Instant) : Phase T → Prop
  | .looking now _ => now ≤ clock
  | .dropping now _ seen => now ≤ clock ∧ seen.isFresh now = false
  | _ => True

def Timely (s : World T) : Prop := ∀ task ∈ s.tasks, task.phase.Timely s.clock

theorem Phase.Timely.mono {phase : Phase T} {clock clock' : Instant} (h : phase.Timely clock)
    (hle : clock ≤ clock') : phase.Timely clock' := by
  cases phase with
  | looking now again => exact le_trans h hle
  | dropping now again seen => exact ⟨le_trans h.1 hle, h.2⟩
  | _ => trivial

theorem Phase.timely_afterFetch (clock : Instant) (guard : Option ℕ) :
    (Phase.afterFetch guard : Phase T).Timely clock := by
  rcases guard with _ | guard <;> trivial

theorem Visit.timely_miss (v : Visit T) (flights : SingleFlight.State) (now : Instant)
    (again : Bool) (clock : Instant) : (v.miss flights now again).phase.Timely clock := by
  unfold Visit.miss
  split
  · trivial
  · split <;> trivial

theorem Visit.timely_found (v : Visit T) (flights : SingleFlight.State) (copy : Copy T)
    (now : Instant) (again : Bool) (clock : Instant) (found : Lookup) :
    (v.found flights copy now again found).phase.Timely clock := by
  unfold Visit.found
  split
  · trivial
  · split <;> trivial
  · split <;> trivial
  · exact v.timely_miss flights now again clock

theorem isFresh_of_dropped {h : HeaderMap} {rcc : RequestCacheControl} {found : Lookup}
    (hjudge : judge dates e h now rcc = (found, true)) : e.isFresh now = false := by
  have hjudged := judged dates e h now rcc
  rw [hjudge] at hjudged
  rcases hjudged with _ | _ | _ | _ | _ | _ | _ | ⟨_, hstale, _, _, _, _⟩
  exact hstale

theorem Visit.timely_look (v : Visit T) (again : Bool) (hle : now ≤ s.clock) :
    (v.look dates render s now again).phase.Timely s.clock := by
  unfold Visit.look
  simp only
  split
  · exact v.timely_miss s.flights now again s.clock
  · split
    case h_1 hjudge => exact ⟨hle, isFresh_of_dropped hjudge⟩
    case h_2 => exact v.timely_found s.flights _ now again s.clock _

theorem Task.timely_move {task : Task T} {event : Event} {m : Move T}
    (hmove : task.move dates render s event = some m) (ht : task.phase.Timely s.clock) :
    m.phase.Timely s.clock := by
  cases Task.moves hmove with
  | look hphase =>
    rw [hphase] at ht
    exact task.visit.timely_look _ ht
  | drop => exact task.visit.timely_miss _ _ _ _
  | claim =>
    unfold Visit.claim
    split <;> trivial
  | refresh =>
    unfold Visit.refresh
    split
    · split <;> trivial
    · trivial
  | wake => exact le_rfl
  | fetched => exact Phase.timely_afterFetch _ _
  | cancel hcancel =>
    obtain ⟨guard, rfl⟩ := Phase.eq_afterFetch_of_cancel hcancel
    exact Phase.timely_afterFetch _ guard
  | _ => trivial

theorem timely_init (maxBytes : ℕ) : Timely (init maxBytes : World T) := by
  simp [Timely, init]

theorem Timely.step (hs : Timely s) (hstep : Cache.step dates render s a = some t) : Timely t := by
  intro task htask
  have hthen : task.phase.Timely s.clock := by
    rcases mem_tasks_step hstep htask with hold | ⟨v, rfl, rfl⟩ |
      ⟨i, event, task', m, rfl, htask', hmove, hfrom⟩
    · exact hs task hold
    · rw [arrival]
      split
      · trivial
      · exact le_rfl
    · rcases hfrom with rfl | ⟨copy, rfl, -⟩
      · exact Task.timely_move hmove (hs task' (List.mem_of_getElem? htask'))
      · trivial
  exact hthen.mono (clock_le_step hstep)

/-! ## The result -/

theorem peek_sweep_of_isFresh {k : String} (hpeek : s.store.peek k = some e)
    (hfresh : e.isFresh s.clock = true) (hle : now ≤ s.clock) :
    (s.exec (.sweep now)).store.peek k = some e := by
  have hnow : e.isFresh now = true := by
    by_contra hstale
    rw [Bool.not_eq_true] at hstale
    rw [isFresh_eq_false_of_le hstale hle] at hfresh
    cases hfresh
  rw [store_exec, StoreOp.apply, peek_evictExpired, hpeek, filter_some, if_pos hnow]

theorem Timely.keepsFresh (hs : Timely s) (hown : RemovesStale render s a) :
    KeepsFresh dates render s a := by
  intro t hstep k e hpeek hfresh
  rw [store_step hstep]
  rcases step_cases hstep with ⟨d, rfl, rfl⟩ | ⟨v, rfl, rfl⟩ | ⟨now, rfl, hle, rfl⟩ |
    ⟨i, event, task, m, rfl, htask, hmove, rfl⟩
  · exact Or.inl hpeek
  · exact Or.inl hpeek
  · exact Or.inl (peek_sweep_of_isFresh hpeek hfresh hle)
  · rw [opOf_go htask hmove]
    have hm := (Task.moved hmove).op
    generalize m.op = op at hm ⊢
    cases hm with
    | keep => exact Or.inl hpeek
    | get => exact Or.inl (by rw [store_exec, StoreOp.apply, peek_get, hpeek])
    | @remove now again seen hphase =>
      left
      rw [store_exec, StoreOp.apply, peek_remove, if_neg, hpeek]
      rintro rfl
      -- the entry judged was stale then, so it is stale now
      have htimely := hs task (List.mem_of_getElem? htask)
      rw [hphase] at htimely
      have hstale : e.isFresh s.clock = false := by
        rcases hown i task now again seen e rfl htask hphase hpeek with rfl | hstale
        · exact isFresh_eq_false_of_le htimely.2 htimely.1
        · exact hstale
      rw [hfresh] at hstale
      cases hstale
    | write => exact Or.inr rfl
    | put => exact Or.inr rfl

theorem removesStale_of_keepsFresh (hkeeps : KeepsFresh dates render s a) :
    RemovesStale render s a := by
  rintro i task now again seen e rfl htask hphase hpeek
  right
  by_contra hfresh
  rw [Bool.not_eq_false] at hfresh
  obtain ⟨m, hmove, hop⟩ : ∃ m, task.move dates render s .drop = some m ∧
      m.op = .remove (task.visit.key render) := by
    rw [Task.move, hphase]
    exact ⟨_, rfl, rfl⟩
  have hstep : step dates render s (.go i .drop) = some (s.perform i task m) := by
    rw [step, htask, bind_some, hmove, map_some]
  have hremove : opOf dates render s (.go i .drop) = .remove (task.visit.key render) := by
    rw [opOf_go htask hmove, hop]
  rcases hkeeps _ hstep _ e hpeek hfresh with hkept | hinsert
  · rw [store_step hstep, hremove, store_exec, StoreOp.apply, peek_remove, if_pos rfl] at hkept
    cases hkept
  · rw [hremove] at hinsert
    cases hinsert

/-- **When fresh entries are kept**, but for insertions that replace them or need their room:
exactly when every lookup that removes its key finds nothing there that is fresh. -/
theorem fresh_kept_iff (dates : HttpDate) (render : T → RequestContext → String) (maxBytes : ℕ)
    (as : List (Action T)) :
    AllSteps (step dates render) (KeepsFresh dates render) (init maxBytes) as ↔
      AllSteps (step dates render) (RemovesStale render) (init maxBytes) as :=
  allSteps_congr (timely_init maxBytes) (fun _ _ _ ↦ Timely.step)
    fun _ _ hs ↦ ⟨removesStale_of_keepsFresh, hs.keepsFresh⟩

private def untagged : Response := ⟨200, [("content-length", "2")], some [111, 107]⟩

/-- Two requests read a stale entry to drop it; the second does, and fetches and stores a new
one. -/
private def twoReaders : List (Action Unit) :=
  fetching 0 frontPage untagged ++
    [.tick (Duration.fromSecs 70), .arrive frontPage, .go 1 .look, .arrive frontPage, .go 2 .look,
      .go 2 .drop, .go 2 .claim, .go 2 (.respond untagged)]

/-- The first of the two now removes the new entry, which has its whole minute before it. -/
theorem fresh_entry_dropped :
    ∃ s t e, run (step .blank untemplated) (init 100) twoReaders = some s ∧
      step .blank untemplated s (.go 1 .drop) = some t ∧
      s.store.peek "GET http://a.test/" = some e ∧ e.isFresh s.clock = true ∧
      t.store.peek "GET http://a.test/" = none ∧
      ¬KeepsFresh .blank untemplated s (.go 1 .drop) := by
  have heval : ((run (step .blank untemplated) (init 100) twoReaders).bind fun s ↦
      (step .blank untemplated s (.go 1 .drop)).bind fun t ↦
        (s.store.peek "GET http://a.test/").map fun e ↦
          (e.isFresh s.clock, t.store.peek "GET http://a.test/",
            (opOf .blank untemplated s (.go 1 .drop)).isInsert)) = some (true, none, false) := by
    decide +kernel
  obtain ⟨s, hrun, heval⟩ := bind_eq_some_iff.mp heval
  obtain ⟨t, hstep, heval⟩ := bind_eq_some_iff.mp heval
  obtain ⟨e, hpeek, heval⟩ := map_eq_some_iff.mp heval
  rw [Prod.mk.injEq, Prod.mk.injEq] at heval
  obtain ⟨hfresh, hgone, hop⟩ := heval
  refine ⟨s, t, e, hrun, hstep, hpeek, hfresh, hgone, fun hkeeps ↦ ?_⟩
  rcases hkeeps t hstep _ e hpeek hfresh with hkept | hinsert
  · rw [hgone] at hkept
    cases hkept
  · rw [hop] at hinsert
    cases hinsert

end Cache

end Hypershunt
