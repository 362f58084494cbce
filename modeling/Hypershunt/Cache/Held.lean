import Hypershunt.Cache.Serve

/-!
# What the store and the tasks hold

An entry is in the store, or it is a copy in the hands of a task: one the handler is being asked
about, or one the client was given. Copies come from the store. What goes into the store comes from
an answer that may be stored, or it is a copy that an answer has confirmed.

So a property of entries and their keys holds of all that is held at any time as soon as it holds
of what a storable answer makes, and confirming keeps it (`Holds.step`).
-/

namespace Hypershunt

open List

namespace Cache

open Listener (RequestContext)

open CacheStore Option

variable {T : Type}

/-! ## Copies -/

def Phase.copies : Phase T → List (Copy T)
  | .revalidating _ copy _ => [copy]
  | .spawned copy => [copy]
  | .refreshing _ copy _ => [copy]
  | _ => []

def Reply.copies : Reply T → List (Copy T)
  | .stored copy _ _ => [copy]
  | .confirmed copy _ => [copy]
  | .onError copy _ => [copy]
  | _ => []

/-- What was served from the store without asking the handler, and when. -/
def Reply.unasked : Reply T → Option (Copy T × Instant × Response)
  | .stored copy now resp => some (copy, now, resp)
  | _ => none

variable {copy : Copy T} {now : Instant} {resp : Response} {again : Bool} {a : Action T}

theorem Reply.eq_stored_of_unasked {reply : Reply T} (h : reply.unasked = some (copy, now, resp)) :
    reply = .stored copy now resp := by
  unfold Reply.unasked at h
  split at h
  · cases h
    rfl
  · cases h

def Task.copies (task : Task T) : List (Copy T) :=
  task.phase.copies ++ task.reply.elim [] Reply.copies

/-- The copy that the handler is asked about, and the time of the request. -/
def Phase.asked : Phase T → Option (Instant × Copy T)
  | .revalidating now copy _ => some (now, copy)
  | .refreshing now copy _ => some (now, copy)
  | _ => none

variable {dates : HttpDate} {render : T → RequestContext → String} {s t : World T} {task : Task T}
  {event : Event} {m : Move T} {flights : SingleFlight.State}

/-! ## What a task can do -/

/-- The moves of a task, one for each phase it can be in. -/
inductive Task.Moves (dates : HttpDate) (render : T → RequestContext → String) (s : World T)
    (task : Task T) : Event → Move T → Prop
  | look {now : Instant} {again : Bool} (hphase : task.phase = .looking now again) :
      Moves dates render s task .look (task.visit.look dates render s now again)
  | drop {now : Instant} {again : Bool} {seen : StoredResponse}
      (hphase : task.phase = .dropping now again seen) :
      Moves dates render s task .drop
        { task.visit.miss s.flights now again with op := .remove (task.visit.key render) }
  | claim {now : Instant} (hphase : task.phase = .missed now) :
      Moves dates render s task .claim (task.visit.claim render s now)
  | refresh {copy : Copy T} (hphase : task.phase = .spawned copy) :
      Moves dates render s task .claim (task.visit.refresh dates render s copy)
  | wake {rx : ℕ} (hphase : task.phase = .waiting rx) :
      Moves dates render s task .wake { phase := .looking s.clock true, flights := s.flights }
  | bypassed {resp : Response} (hphase : task.phase = .bypassing) :
      Moves dates render s task (.respond resp)
        { phase := .done, reply := some (.fetched resp), flights := s.flights }
  | fetched {resp : Response} {now : Instant} {guard : Option ℕ}
      (hphase : task.phase = .fetching now guard) :
      Moves dates render s task (.respond resp)
        { phase := .afterFetch guard
          reply := some (.fetched
            (task.visit.writeBack dates render task.visit.fetchCall resp now).1)
          op := (task.visit.writeBack dates render task.visit.fetchCall resp now).2
          flights := s.flights }
  | confirmed {resp : Response} {now : Instant} {copy : Copy T} {onError : Bool}
      (hphase : task.phase = .revalidating now copy onError) (hstatus : resp.status = 304) :
      Moves dates render s task (.respond resp)
        { phase := .done
          reply := some (.confirmed copy (task.visit.putBack dates render copy resp now).1)
          op := (task.visit.putBack dates render copy resp now).2
          flights := s.flights }
  | failed {resp : Response} {now : Instant} {copy : Copy T} {onError : Bool}
      (hphase : task.phase = .revalidating now copy onError) (hstatus : ¬resp.status = 304)
      (herror : (onError && 500 ≤ resp.status && resp.status < 600) = true) :
      Moves dates render s task (.respond resp)
        { phase := .done
          reply := some (.onError copy (copy.entry.toResponse now))
          flights := s.flights }
  | refetched {resp : Response} {now : Instant} {copy : Copy T} {onError : Bool}
      (hphase : task.phase = .revalidating now copy onError) (hstatus : ¬resp.status = 304)
      (hok : ¬(onError && 500 ≤ resp.status && resp.status < 600) = true) :
      Moves dates render s task (.respond resp)
        { phase := .done
          reply := some (.fetched (task.visit.writeBack dates render
            (task.visit.revalidationCall dates copy.entry) resp now).1)
          op := (task.visit.writeBack dates render
            (task.visit.revalidationCall dates copy.entry) resp now).2
          flights := s.flights }
  | refreshed {resp : Response} {now : Instant} {copy : Copy T} {guard : ℕ} {call : Call}
      (hphase : task.phase = .refreshing now copy guard)
      (hcall : task.visit.refreshCall dates copy.entry = some call) :
      Moves dates render s task (.respond resp)
        { phase := .leaving guard
          op := if resp.status = 304 then (task.visit.putBack dates render copy resp now).2
            else (task.visit.writeBack dates render call resp now).2
          flights := s.flights }
  | cancel {phase : Phase T} (hcancel : task.phase.cancel = some phase) :
      Moves dates render s task .cancel { phase, flights := s.flights }
  | unlock {guard : ℕ} {flights : SingleFlight.State} (hphase : task.phase = .leaving guard) :
      Moves dates render s task .unlock { phase := .releasing guard, flights }
  | release {guard : ℕ} {flights : SingleFlight.State} (hphase : task.phase = .releasing guard) :
      Moves dates render s task .release { phase := .done, flights }

theorem Visit.moves_respond
    (h : task.visit.respond dates render s.flights resp task.phase = some m) :
    task.Moves dates render s (.respond resp) m := by
  unfold Visit.respond at h
  split at h
  case h_1 hphase =>
    cases h
    exact .bypassed hphase
  case h_2 hphase =>
    cases h
    exact .fetched hphase
  case h_3 hphase =>
    split at h
    case isTrue hstatus =>
      cases h
      exact .confirmed hphase hstatus
    case isFalse hstatus =>
      split at h
      case isTrue herror =>
        cases h
        exact .failed hphase hstatus herror
      case isFalse hok =>
        cases h
        exact .refetched hphase hstatus hok
  case h_4 hphase =>
    obtain ⟨call, hcall, rfl⟩ := map_eq_some_iff.mp h
    exact .refreshed hphase hcall
  case h_5 => cases h

theorem Task.moves (h : task.move dates render s event = some m) :
    task.Moves dates render s event m := by
  cases event with
  | look =>
    simp only [Task.move] at h
    split at h
    · cases h
      exact .look (by assumption)
    · cases h
  | drop =>
    simp only [Task.move] at h
    split at h
    · cases h
      exact .drop (by assumption)
    · cases h
  | claim =>
    simp only [Task.move] at h
    split at h
    · cases h
      exact .claim (by assumption)
    · cases h
      exact .refresh (by assumption)
    · cases h
  | wake =>
    simp only [Task.move] at h
    split at h
    · rw [ite_none_right_eq_some, some.injEq] at h
      obtain ⟨-, rfl⟩ := h
      exact .wake (by assumption)
    · cases h
  | respond resp => exact Visit.moves_respond h
  | cancel =>
    obtain ⟨phase, hcancel, rfl⟩ := map_eq_some_iff.mp h
    exact .cancel hcancel
  | unlock =>
    simp only [Task.move] at h
    split at h
    · obtain ⟨flights, -, rfl⟩ := map_eq_some_iff.mp h
      exact .unlock (by assumption)
    · cases h
  | release =>
    simp only [Task.move] at h
    split at h
    · obtain ⟨flights, -, rfl⟩ := map_eq_some_iff.mp h
      exact .release (by assumption)
    · cases h

/-- A request that is cut off leaves as one whose fetch is over. -/
theorem Phase.eq_afterFetch_of_cancel {phase phase' : Phase T} (h : phase.cancel = some phase') :
    ∃ guard, phase' = .afterFetch guard := by
  unfold Phase.cancel at h
  split at h
  case h_3 now guard => exact ⟨guard, (some.inj h).symm⟩
  case h_5 => cases h
  all_goals exact ⟨none, (some.inj h).symm⟩

/-! ## What a move does -/

/-- The calls that are made for a request. -/
inductive Visit.Calls (dates : HttpDate) (v : Visit T) : Call → Prop
  | fetch : v.Calls dates v.fetchCall
  | revalidation (entry : StoredResponse) : v.Calls dates (v.revalidationCall dates entry)
  | refresh (entry : StoredResponse) {call : Call} (h : v.refreshCall dates entry = some call) :
      v.Calls dates call

/-- What a task can do to the store. -/
inductive Operates (dates : HttpDate) (render : T → RequestContext → String) (task : Task T) :
    Event → StoreOp T → Prop
  | keep (event : Event) : Operates dates render task event .keep
  | get : Operates dates render task .look (.get (task.visit.key render))
  | remove {now : Instant} {again : Bool} {seen : StoredResponse}
      (hphase : task.phase = .dropping now again seen) :
      Operates dates render task .drop (.remove (task.visit.key render))
  | write {call : Call} {resp : Response} {now : Instant} {entry : StoredResponse}
      (hcall : task.visit.Calls dates call)
      (hwrite : task.visit.policy.writeThrough dates task.visit.req.headers resp now =
        .store entry) :
      Operates dates render task (.respond resp)
        (.insert (task.visit.key render) entry (some ⟨task.visit, call, resp⟩))
  | put {now : Instant} {copy : Copy T} {resp : Response}
      (hasked : task.phase.asked = some (now, copy)) (hstatus : resp.status = 304) :
      Operates dates render task (.respond resp)
        (.insert (task.visit.key render)
          (task.visit.policy.revalidated dates copy.entry resp.headers now) copy.source)

/-- A copy that a task has, or that it finds in the store. -/
def Available (render : T → RequestContext → String) (s : World T) (task : Task T)
    (copy : Copy T) : Prop :=
  copy ∈ task.phase.copies ∨ ∃ entry, s.store.peek (task.visit.key render) = some entry ∧
    copy = ⟨entry, s.sources (task.visit.key render)⟩

/-- What a move does to the store, and where the copies come from that it leaves with tasks. -/
structure Moved (dates : HttpDate) (render : T → RequestContext → String) (s : World T)
    (task : Task T) (event : Event) (m : Move T) : Prop where
  op : Operates dates render task event m.op
  phase : ∀ copy ∈ m.phase.copies, Available render s task copy
  reply : ∀ copy ∈ m.reply.elim [] Reply.copies, Available render s task copy
  spawned : ∀ task' ∈ m.spawned, ∃ copy, task' = ⟨task.visit, .spawned copy, none⟩ ∧
    Available render s task copy

theorem Moved.of_nil (hop : Operates dates render task event m.op) (hphase : m.phase.copies = [])
    (hreply : m.reply.elim [] Reply.copies = []) (hspawned : m.spawned = []) :
    Moved dates render s task event m where
  op := hop
  phase := by simp [hphase]
  reply := by simp [hreply]
  spawned := by simp [hspawned]

theorem copies_afterFetch (guard : Option ℕ) :
    (Phase.afterFetch guard : Phase T).copies = [] := by
  rcases guard with _ | guard <;> rfl

theorem Visit.moved_miss {v : Visit T} {op : StoreOp T} (hop : Operates dates render task event op)
    : Moved dates render s task event { v.miss flights now again with op } := by
  unfold Visit.miss
  split
  · exact .of_nil hop rfl rfl rfl
  · split
    · exact .of_nil hop rfl rfl rfl
    · exact .of_nil hop rfl rfl rfl

theorem Visit.moved_found {found : Lookup} {op : StoreOp T} (hcopy : Available render s task copy)
    (hop : Operates dates render task event op) :
    Moved dates render s task event { task.visit.found flights copy now again found with op } := by
  have hone : ∀ copy' ∈ [copy], Available render s task copy' := by
    intro copy' hmem
    rw [mem_singleton] at hmem
    exact hmem ▸ hcopy
  unfold Visit.found
  split
  · exact { op := hop, phase := by simp [Phase.copies], reply := hone, spawned := by simp }
  · split
    · exact .of_nil hop rfl rfl rfl
    · refine { op := hop, phase := by simp [Phase.copies], reply := hone, spawned := ?_ }
      intro task' hmem
      exact ⟨copy, mem_singleton.mp hmem, hcopy⟩
  · split
    · exact .of_nil hop rfl rfl rfl
    · exact { op := hop, phase := hone, reply := by simp, spawned := by simp }
  · exact Visit.moved_miss hop

theorem Visit.moved_look :
    Moved dates render s task .look (task.visit.look dates render s now again) := by
  unfold Visit.look
  simp only
  split
  · exact Visit.moved_miss .get
  · split
    · exact .of_nil .get rfl rfl rfl
    · exact Visit.moved_found (Or.inr ⟨_, by assumption, rfl⟩) .get

theorem Visit.moved_claim : Moved dates render s task .claim (task.visit.claim render s now) := by
  unfold Visit.claim
  split
  · exact .of_nil (.keep _) rfl rfl rfl
  · exact .of_nil (.keep _) rfl rfl rfl

theorem Visit.moved_refresh (hphase : task.phase = .spawned copy) :
    Moved dates render s task .claim (task.visit.refresh dates render s copy) := by
  unfold Visit.refresh
  split
  · split
    · refine { op := .keep _, phase := ?_, reply := by simp, spawned := by simp }
      intro copy' hmem
      exact Or.inl (by rw [hphase]; exact hmem)
    · exact .of_nil (.keep _) rfl rfl rfl
  · exact .of_nil (.keep _) rfl rfl rfl

theorem Visit.operates_writeBack {call : Call} (hcall : task.visit.Calls dates call) :
    Operates dates render task (.respond resp)
      (task.visit.writeBack dates render call resp now).2 := by
  unfold Visit.writeBack
  split
  · exact .keep _
  · exact .keep _
  · exact .write hcall (by assumption)

/-- **What a move does.** -/
theorem Task.moved (h : task.move dates render s event = some m) :
    Moved dates render s task event m := by
  -- a copy that the handler was asked about, as the list of what the answer is made from
  have hone : ∀ {copy}, task.phase.copies = [copy] →
      ∀ copy' ∈ [copy], Available render s task copy' := by
    intro copy hcopies copy' hmem
    exact Or.inl (hcopies ▸ hmem)
  cases Task.moves h with
  | look => exact Visit.moved_look
  | drop hphase => exact Visit.moved_miss (.remove hphase)
  | claim => exact Visit.moved_claim
  | refresh hphase => exact Visit.moved_refresh hphase
  | wake => exact .of_nil (.keep _) rfl rfl rfl
  | bypassed => exact .of_nil (.keep _) rfl rfl rfl
  | fetched =>
    exact .of_nil (Visit.operates_writeBack .fetch) (copies_afterFetch _) rfl rfl
  | confirmed hphase hstatus =>
    exact
      { op := .put (by rw [hphase]; rfl) hstatus
        phase := by simp [Phase.copies]
        reply := hone (by rw [hphase]; rfl)
        spawned := by simp }
  | failed hphase =>
    exact
      { op := .keep _
        phase := by simp [Phase.copies]
        reply := hone (by rw [hphase]; rfl)
        spawned := by simp }
  | refetched => exact .of_nil (Visit.operates_writeBack (.revalidation _)) rfl rfl rfl
  | refreshed hphase hcall =>
    refine .of_nil ?_ rfl rfl rfl
    simp only
    split
    case isTrue hstatus => exact .put (by rw [hphase]; rfl) hstatus
    case isFalse => exact Visit.operates_writeBack (.refresh _ hcall)
  | cancel hcancel =>
    obtain ⟨guard, rfl⟩ := Phase.eq_afterFetch_of_cancel hcancel
    exact .of_nil (.keep _) (copies_afterFetch guard) rfl rfl
  | unlock => exact .of_nil (.keep _) rfl rfl rfl
  | release => exact .of_nil (.keep _) rfl rfl rfl

/-- A confirmation puts the copy back, with the headers of the `304` laid over it. -/
theorem op_of_confirms (hasked : task.phase.asked = some (now, copy)) (hstatus : resp.status = 304)
    (h : task.move dates render s (.respond resp) = some m) :
    m.op = .insert (task.visit.key render)
      (task.visit.policy.revalidated dates copy.entry resp.headers now) copy.source := by
  simp only [Task.move] at h
  unfold Phase.asked at hasked
  split at hasked
  case h_1 hphase =>
    cases hasked
    rw [hphase, Visit.respond, if_pos hstatus] at h
    cases h
    rfl
  case h_2 hphase =>
    cases hasked
    rw [hphase] at h
    obtain ⟨call, -, rfl⟩ := map_eq_some_iff.mp h
    exact if_pos hstatus
  case h_3 => cases hasked

/-! ## What a step does -/

/-- **What a step does.** -/
theorem step_cases (h : step dates render s a = some t) :
    (∃ d, a = .tick d ∧ t = { s with clock := s.clock + d }) ∨
      (∃ v, a = .arrive v ∧ t = { s with tasks := s.tasks ++ [s.arrival v] }) ∨
      (∃ now, a = .sweep now ∧ now ≤ s.clock ∧ t = s.exec (.sweep now)) ∨
      ∃ i event task m, a = .go i event ∧ s.tasks[i]? = some task ∧
        task.move dates render s event = some m ∧ t = s.perform i task m := by
  cases a with
  | tick d => exact Or.inl ⟨d, rfl, (some.inj h).symm⟩
  | arrive v => exact Or.inr (Or.inl ⟨v, rfl, (some.inj h).symm⟩)
  | sweep now =>
    simp only [step, ite_none_right_eq_some, some.injEq] at h
    exact Or.inr (Or.inr (Or.inl ⟨now, rfl, h.1, h.2.symm⟩))
  | go i event =>
    obtain ⟨task, htask, h⟩ := bind_eq_some_iff.mp h
    obtain ⟨m, hm, rfl⟩ := map_eq_some_iff.mp h
    exact Or.inr (Or.inr (Or.inr ⟨i, event, task, m, rfl, htask, hm, rfl⟩))

/-- The answer of a task that has moved is the one just given, or else the one given before. -/
theorem reply_of_orElse {given before : Option (Reply T)} {reply : Reply T}
    (h : (given <|> before) = some reply) :
    given = some reply ∨ (given = none ∧ before = some reply) := by
  rcases given with _ | given
  · exact Or.inr ⟨rfl, h⟩
  · exact Or.inl h

/-- **Where a task comes from**: it was there before, has arrived, has moved, or was spawned. -/
theorem mem_tasks_step (hstep : step dates render s a = some t) (htask : task ∈ t.tasks) :
    task ∈ s.tasks ∨ (∃ v, a = .arrive v ∧ task = s.arrival v) ∨
      ∃ i event task' m, a = .go i event ∧ s.tasks[i]? = some task' ∧
        task'.move dates render s event = some m ∧
        (task = ⟨task'.visit, m.phase, m.reply <|> task'.reply⟩ ∨
          ∃ copy, task = ⟨task'.visit, .spawned copy, none⟩ ∧ Available render s task' copy) := by
  rcases step_cases hstep with ⟨d, rfl, rfl⟩ | ⟨v, rfl, rfl⟩ | ⟨now, rfl, -, rfl⟩ |
    ⟨i, event, task', m, rfl, htask', hmove, rfl⟩
  · exact Or.inl htask
  · rcases List.mem_append.mp htask with hold | hnew
    · exact Or.inl hold
    · exact Or.inr (Or.inl ⟨v, rfl, mem_singleton.mp hnew⟩)
  · exact Or.inl htask
  · rcases List.mem_append.mp htask with hset | hspawned
    · rcases mem_or_eq_of_mem_set hset with hold | hmoved
      · exact Or.inl hold
      · exact Or.inr (Or.inr ⟨i, event, task', m, rfl, htask', hmove, Or.inl hmoved⟩)
    · have hfrom := (Task.moved hmove).spawned task hspawned
      exact Or.inr (Or.inr ⟨i, event, task', m, rfl, htask', hmove, Or.inr hfrom⟩)

/-- A step is a handler's confirmation of a copy: for whom, of what, by which headers, as of
when. -/
inductive Confirms (s : World T) : Action T → Visit T → Copy T → HeaderMap → Instant → Prop
  | mk {i : ℕ} {task : Task T} {resp : Response} {now : Instant} {copy : Copy T}
      (htask : s.tasks[i]? = some task) (hasked : task.phase.asked = some (now, copy))
      (hstatus : resp.status = 304) :
      Confirms s (.go i (.respond resp)) task.visit copy resp.headers now

namespace World

theorem store_exec (s : World T) (op : StoreOp T) : (s.exec op).store = op.apply s.store := rfl

@[simp] theorem maxBytes_exec (s : World T) (op : StoreOp T) :
    (s.exec op).store.maxBytes = s.store.maxBytes := by
  cases op with
  | keep => rfl
  | get key => exact maxBytes_get _ _
  | remove key => exact maxBytes_remove _ _
  | insert key entry source => exact maxBytes_insert _ _ _
  | sweep now => exact maxBytes_evictExpired _ _

theorem sources_insert (s : World T) (key k : String) (entry : StoredResponse)
    (source : Option (Exchange T)) :
    (s.exec (.insert key entry source)).sources k =
      if entry.size ≤ s.store.maxBytes ∧ k = key then source else s.sources k := by
  simp only [exec]
  by_cases hsize : entry.size ≤ s.store.maxBytes
  · rw [if_pos hsize, Function.update_apply]
    simp only [hsize, true_and]
  · rw [if_neg hsize, if_neg fun hcon ↦ hsize hcon.1]

/-- What is stored was stored before, or has just been inserted. -/
theorem peek_exec (op : StoreOp T) {k : String} {e : StoredResponse}
    (h : (s.exec op).store.peek k = some e) :
    (op = .insert k e ((s.exec op).sources k) ∧ e.size ≤ s.store.maxBytes) ∨
      s.store.peek k = some e ∧ (s.exec op).sources k = s.sources k := by
  cases op with
  | keep => exact Or.inr ⟨h, rfl⟩
  | get key => exact Or.inr ⟨by rwa [store_exec, StoreOp.apply, peek_get] at h, rfl⟩
  | remove key =>
    rw [store_exec, StoreOp.apply, peek_remove, ite_none_left_eq_some] at h
    exact Or.inr ⟨h.2, rfl⟩
  | sweep now =>
    rw [store_exec, StoreOp.apply, peek_evictExpired, filter_eq_some_iff] at h
    exact Or.inr ⟨h.1, rfl⟩
  | insert key entry source =>
    rw [sources_insert]
    by_cases hnew : entry.size ≤ s.store.maxBytes ∧ k = key
    · obtain ⟨hsize, rfl⟩ := hnew
      rw [store_exec, StoreOp.apply, peek_insert_self k hsize, some.injEq] at h
      rw [if_pos ⟨hsize, rfl⟩, h]
      exact Or.inl ⟨rfl, h ▸ hsize⟩
    · rw [if_neg hnew]
      refine Or.inr ⟨(peek_insert h).resolve_left ?_, rfl⟩
      exact fun hcon ↦ hnew ⟨hcon.2.2, hcon.1⟩

end World

/-! ## The rule -/

/-- A property of keys and copies holds of all that is held. -/
structure Holds (render : T → RequestContext → String) (Good : String → Copy T → Prop)
    (s : World T) : Prop where
  store : ∀ k e, s.store.peek k = some e → Good k ⟨e, s.sources k⟩
  tasks : ∀ task ∈ s.tasks, ∀ copy ∈ task.copies, Good (task.visit.key render) copy

variable {Good : String → Copy T → Prop}

theorem Holds.init (maxBytes : ℕ) : Holds render Good (World.init maxBytes) where
  store := by simp [World.init]
  tasks := by simp [World.init]

theorem Phase.mem_copies_of_asked {phase : Phase T} (h : phase.asked = some (now, copy)) :
    copy ∈ phase.copies := by
  unfold Phase.asked at h
  split at h
  · cases h
    exact mem_singleton_self _
  · cases h
    exact mem_singleton_self _
  · cases h

theorem Holds.available (hs : Holds render Good s) (htask : task ∈ s.tasks) {copy : Copy T}
    (h : Available render s task copy) : Good (task.visit.key render) copy := by
  rcases h with hmem | ⟨entry, hpeek, rfl⟩
  · exact hs.tasks task htask copy (mem_append_left _ hmem)
  · exact hs.store _ _ hpeek

theorem Holds.confirmed (hs : Holds render Good s) {v : Visit T} {update : HeaderMap}
    (h : Confirms s a v copy update now) : Good (v.key render) copy := by
  obtain ⟨htask, hasked, -⟩ := h
  refine hs.tasks _ (mem_of_getElem? htask) copy (mem_append_left _ ?_)
  exact Phase.mem_copies_of_asked hasked

theorem Holds.tasks_step (hs : Holds render Good s) (hstep : step dates render s a = some t) :
    ∀ task ∈ t.tasks, ∀ copy ∈ task.copies, Good (task.visit.key render) copy := by
  intro task htask copy hcopy
  rcases mem_tasks_step hstep htask with hold | ⟨v, rfl, rfl⟩ |
    ⟨i, event, task', m, rfl, htask', hmove, hfrom⟩
  · exact hs.tasks task hold copy hcopy
  · rw [Task.copies, World.arrival] at hcopy
    split at hcopy <;> exact absurd hcopy not_mem_nil
  · have hmem : task' ∈ s.tasks := mem_of_getElem? htask'
    rcases hfrom with rfl | ⟨copy', rfl, havailable⟩
    · rcases List.mem_append.mp hcopy with hphase | hreply
      · exact hs.available hmem ((Task.moved hmove).phase copy hphase)
      · rcases hgiven : m.reply with _ | given
        · rw [hgiven] at hreply
          exact hs.tasks task' hmem copy (mem_append_right _ hreply)
        · rw [hgiven] at hreply
          exact hs.available hmem ((Task.moved hmove).reply copy (hgiven ▸ hreply))
    · obtain rfl : copy = copy' := mem_singleton.mp hcopy
      exact hs.available hmem havailable

/-- **The rule for all that is held**: what holds of storable answers and survives a
confirmation. -/
theorem Holds.step (hs : Holds render Good s) (hstep : step dates render s a = some t)
    (hwrite : ∀ task ∈ s.tasks, ∀ (call : Call) (resp : Response) (now : Instant)
      (entry : StoredResponse), task.visit.Calls dates call →
      task.visit.policy.writeThrough dates task.visit.req.headers resp now = .store entry →
      entry.size ≤ s.store.maxBytes →
      Good (task.visit.key render) ⟨entry, some ⟨task.visit, call, resp⟩⟩)
    (hput : ∀ (v : Visit T) (copy : Copy T) (update : HeaderMap) (now : Instant),
      Confirms s a v copy update now → Good (v.key render) copy →
      Good (v.key render) ⟨v.policy.revalidated dates copy.entry update now, copy.source⟩) :
    Holds render Good t := by
  refine ⟨fun k e hpeek ↦ ?_, hs.tasks_step hstep⟩
  rcases step_cases hstep with ⟨d, rfl, rfl⟩ | ⟨v, rfl, rfl⟩ | ⟨now, rfl, -, rfl⟩ |
    ⟨i, event, task, m, rfl, htask, hmove, rfl⟩
  · exact hs.store k e hpeek
  · exact hs.store k e hpeek
  · rcases World.peek_exec _ hpeek with ⟨hop, -⟩ | ⟨hold, hsource⟩
    · cases hop
    · exact hsource ▸ hs.store k e hold
  · have hm := Task.moved hmove
    rcases World.peek_exec m.op hpeek with ⟨hop, hsize⟩ | ⟨hold, hsource⟩
    · change Good k ⟨e, (s.exec m.op).sources k⟩
      have hmop := hm.op
      rw [hop] at hmop
      generalize (s.exec m.op).sources k = source at hmop ⊢
      rcases hmop with _ | _ | _ | ⟨hcall, hwritten⟩ | ⟨hasked, hstatus⟩
      · exact hwrite task (mem_of_getElem? htask) _ _ _ _ hcall hwritten hsize
      · have hconfirms : Confirms s _ _ _ _ _ := ⟨htask, hasked, hstatus⟩
        exact hput _ _ _ _ hconfirms (hs.confirmed hconfirms)
    · change Good k ⟨e, (s.exec m.op).sources k⟩
      rw [hsource]
      exact hs.store k e hold

theorem visits_step {P : Visit T → Prop} (hs : ∀ task ∈ s.tasks, P task.visit)
    (hstep : Cache.step dates render s a = some t) (harrive : ∀ v, a = .arrive v → P v) :
    ∀ task ∈ t.tasks, P task.visit := by
  intro task htask
  rcases mem_tasks_step hstep htask with hold | ⟨v, rfl, rfl⟩ | ⟨i, event, task', m, rfl, htask', -,
    hfrom⟩
  · exact hs task hold
  · exact harrive v rfl
  · have hmem := hs task' (mem_of_getElem? htask')
    rcases hfrom with rfl | ⟨copy, rfl, -⟩
    · exact hmem
    · exact hmem

theorem clock_le_step (hstep : Cache.step dates render s a = some t) : s.clock ≤ t.clock := by
  rcases step_cases hstep with ⟨d, rfl, rfl⟩ | ⟨v, rfl, rfl⟩ | ⟨now, rfl, -, rfl⟩ |
    ⟨i, event, task, m, rfl, -, -, rfl⟩
  · exact Nat.le_add_right _ _
  · exact le_rfl
  · exact le_rfl
  · exact le_rfl

theorem maxBytes_step (hstep : Cache.step dates render s a = some t) :
    t.store.maxBytes = s.store.maxBytes := by
  rcases step_cases hstep with ⟨d, rfl, rfl⟩ | ⟨v, rfl, rfl⟩ | ⟨now, rfl, -, rfl⟩ |
    ⟨i, event, task, m, rfl, -, -, rfl⟩
  · rfl
  · rfl
  · exact World.maxBytes_exec s _
  · exact World.maxBytes_exec s m.op

end Cache

end Hypershunt
