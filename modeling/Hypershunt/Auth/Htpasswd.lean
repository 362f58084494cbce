import Hypershunt.Foundation.HashMap
import Hypershunt.Foundation.Run
import Hypershunt.Foundation.Text
import Hypershunt.Foundation.Time

/-!
# The password file

`FileAuthenticator` keeps the parsed password file and reads it again when its modification time has
changed (`auth.rs`). Of the threads that find the table due for a check, each looks at the
modification time first and then takes the write lock; the lock is held while the file is loaded, so
there is one load at a time.

A load reads the content and then, by a second call, the modification time the content is remembered
with. An edit between the two pins the old content under the new time: no later check sees a change,
and a user whom the edit has removed is accepted until the next edit. Without such an edit the table
is that of the version with its modification time (`Inv.cached`), whatever the threads and the other
edits do.

All versions of the file so far are kept in the state, since a modification time is compared with
those of the past. Reading the file or its modification time may fail at any time.
-/

namespace Hypershunt

open List Option

namespace Auth

open Text

/-! ## The entries of a file -/

structure FileAuthEntry where
  hash : String
  groups : List String
  deriving DecidableEq

abbrev Entries := HashMap String FileAuthEntry

/-- The supported hash schemes. -/
def isSupportedHash (hash : String) : Bool :=
  ["$2y$", "$2b$", "$2a$", "$6$", "$argon2id$"].any fun scheme ↦ startsWith scheme hash

/-- The entry of a line, if it is one. -/
def parseLine (line : String) : Option (String × FileAuthEntry) :=
  let line := trim line
  if line.isEmpty || startsWith "#" line then none
  else match splitn ':' 3 line with
    | user :: hash :: rest =>
      if isSupportedHash hash then
        some (user, ⟨hash, (rest.head?.map (splitTrimmed ',')).getD []⟩)
      else none
    | _ => none

/-- A later line for the same user wins. -/
def parseEntries (text : String) : Entries :=
  ((lines text).filterMap parseLine).foldl (fun m e ↦ m.insert e.1 e.2) ∅

/-- One version of the file. -/
structure File where
  content : List UInt8
  mtime : SystemTime
  deriving DecidableEq

/-- The entries of a version, if it is text. -/
def File.entries (f : File) : Option Entries := (fromUtf8 f.content).map parseEntries

/-! ## Threads -/

structure FileAuthState where
  entries : Entries
  mtime : Option SystemTime
  lastCheck : Instant

/-- The progress of `load_htpasswd`. -/
inductive Load
  | started
  | read (text : String)
  | stamped (text : String) (mtime : Option SystemTime)

/-- The content has been read and its modification time has not. -/
def Load.isRead : Load → Bool
  | .read _ => true
  | _ => false

/-- The progress of `maybe_refresh` before the write lock is taken. -/
inductive Attempt
  | expired
  | stamped (mtime : Option SystemTime)

structure State where
  file : File
  /-- All versions of the file, the present one included. -/
  versions : List File
  now : Instant
  /-- The authenticator, once it has been built. -/
  cache : Option FileAuthState
  /-- The load in progress. Unless it is the first, it holds the write lock. -/
  load : Option Load
  attempts : HashMap ℕ Attempt

def State.init (f : File) (now : Instant) : State := ⟨f, [f], now, none, none, ∅⟩

/-- A thread does the next of its steps; `ok` says whether a system call succeeds. -/
inductive Event
  | edit (f : File)
  | pass (d : Duration)
  /-- `FileAuthenticator::new` starts. -/
  | new
  /-- A thread looks at the age of the table. -/
  | check (thread : ℕ)
  | stat (thread : ℕ) (ok : Bool)
  /-- A thread gets the write lock. -/
  | acquire (thread : ℕ)
  /-- The load reads the content. -/
  | read (ok : Bool)
  /-- The load reads the modification time. -/
  | stamp (ok : Bool)
  | store

variable (ttl : Duration)

/-- The table was checked less than a while ago. -/
def State.fresh (s : State) (c : FileAuthState) : Bool :=
  decide (s.now.saturatingDurationSince c.lastCheck < ttl)

/-- `metadata(path).modified().ok()`. -/
def State.stat (s : State) (ok : Bool) : Option SystemTime := if ok then some s.file.mtime else none

/-- The text of the file, if it can be read and is text. -/
def State.text (s : State) (ok : Bool) : Option String :=
  if ok then fromUtf8 s.file.content else none

/-- What `maybe_refresh` does when it gets the write lock. -/
def State.locked (s : State) (c : FileAuthState) (mtime : Option SystemTime) : State :=
  if s.fresh ttl c then s
  else if mtime = c.mtime then { s with cache := some { c with lastCheck := s.now } }
  else { s with cache := some { c with lastCheck := s.now }, load := some .started }

def step (s : State) : Event → Option State
  | .edit f =>
    -- no two contents share a modification time; a version may come back with its own
    if ∀ v ∈ s.versions, v.mtime = f.mtime → v = f then
      some { s with file := f, versions := f :: s.versions }
    else none
  | .pass d => some { s with now := s.now + d }
  | .new => match s.cache, s.load with
    | none, none => some { s with load := some .started }
    | _, _ => none
  | .check thread => match s.cache, s.load, s.attempts.lookup thread with
    | some c, none, none =>
      if s.fresh ttl c then some s
      else some { s with attempts := s.attempts.insert thread .expired }
    | _, _, _ => none
  | .stat thread ok => match s.attempts.lookup thread with
    | some .expired =>
      some { s with attempts := s.attempts.insert thread (.stamped (s.stat ok)) }
    | _ => none
  | .acquire thread => match s.cache, s.load, s.attempts.lookup thread with
    | some c, none, some (.stamped mtime) =>
      some { s.locked ttl c mtime with attempts := s.attempts.erase thread }
    | _, _, _ => none
  | .read ok => match s.load with
    | some .started => some { s with load := (s.text ok).map Load.read }
    | _ => none
  | .stamp ok => match s.load with
    | some (.read text) => some { s with load := some (.stamped text (s.stat ok)) }
    | _ => none
  | .store => match s.load with
    | some (.stamped text mtime) => some { s with
        cache := some ⟨parseEntries text, mtime, (s.cache.map FileAuthState.lastCheck).getD s.now⟩
        load := none }
    | _ => none

/-- The entry of a user, in the table there is. -/
def State.lookup (s : State) (user : String) : Option FileAuthEntry :=
  s.cache.bind fun c ↦ c.entries.lookup user

/-! ## What a step can do -/

/-- A table with the entries and the modification time of the one there was. -/
def SameTable (before after : Option FileAuthState) : Prop :=
  ∀ c', after = some c' → ∃ c, before = some c ∧ c'.entries = c.entries ∧ c'.mtime = c.mtime

/-- The table and the load after a step that is not an edit. -/
inductive Change (s : State) : Option FileAuthState → Option Load → Prop
  | keep {c : Option FileAuthState} (hc : SameTable s.cache c) : Change s c s.load
  | start {c : Option FileAuthState} (hc : SameTable s.cache c) : Change s c (some .started)
  | fail : Change s s.cache none
  | read {text : String} (htext : fromUtf8 s.file.content = some text) :
      Change s s.cache (some (.read text))
  | stamp {text : String} (ok : Bool) (hload : s.load = some (.read text)) :
      Change s s.cache (some (.stamped text (s.stat ok)))
  | store {text : String} {mtime : Option SystemTime} (hload : s.load = some (.stamped text mtime))
      (lastCheck : Instant) : Change s (some ⟨parseEntries text, mtime, lastCheck⟩) none

variable {ttl} {s s' : State} {e : Event}

theorem SameTable.refl (c : Option FileAuthState) : SameTable c c :=
  fun c' hc' ↦ ⟨c', hc', rfl, rfl⟩

variable {c : FileAuthState} {mtime : SystemTime} {text : String} {cache : Option FileAuthState}
  {load : Option Load}

theorem sameTable_checked (hc : s.cache = some c) (now : Instant) :
    SameTable s.cache (some { c with lastCheck := now }) := by
  rintro c' ⟨⟩
  exact ⟨c, hc, rfl, rfl⟩

theorem change_locked (hc : s.cache = some c) (mtime : Option SystemTime) :
    (s.locked ttl c mtime).file = s.file ∧ (s.locked ttl c mtime).versions = s.versions ∧
      Change s (s.locked ttl c mtime).cache (s.locked ttl c mtime).load := by
  rw [State.locked]
  split_ifs
  · exact ⟨rfl, rfl, .keep (SameTable.refl _)⟩
  · exact ⟨rfl, rfl, .keep (sameTable_checked hc s.now)⟩
  · exact ⟨rfl, rfl, .start (sameTable_checked hc s.now)⟩

theorem step_cases (h : step ttl s e = some s') :
    (∃ f, e = .edit f ∧ (∀ v ∈ s.versions, v.mtime = f.mtime → v = f) ∧
      s' = { s with file := f, versions := f :: s.versions }) ∨
    (s'.file = s.file ∧ s'.versions = s.versions ∧ Change s s'.cache s'.load) := by
  rcases e with f | d | _ | thread | ⟨thread, ok⟩ | thread | ok | ok | _ <;> simp only [step] at h
  · rw [ite_none_right_eq_some, Option.some.injEq] at h
    exact Or.inl ⟨f, rfl, h.1, h.2.symm⟩
  all_goals right
  · cases h
    exact ⟨rfl, rfl, .keep (SameTable.refl _)⟩
  · split at h
    · cases h
      exact ⟨rfl, rfl, .start (SameTable.refl _)⟩
    · cases h
  · split at h
    · split_ifs at h <;> cases h <;> exact ⟨rfl, rfl, .keep (SameTable.refl _)⟩
    · cases h
  · split at h
    · cases h
      exact ⟨rfl, rfl, .keep (SameTable.refl _)⟩
    · cases h
  · split at h
    · rename_i c mtime hc hload hattempt
      cases h
      exact change_locked hc mtime
    · cases h
  · split at h
    · cases h
      refine ⟨rfl, rfl, ?_⟩
      rcases htext : s.text ok with _ | text
      · exact .fail
      · rw [State.text, ite_none_right_eq_some] at htext
        exact .read htext.2
    · cases h
  · split at h
    · rename_i text hload
      cases h
      exact ⟨rfl, rfl, .stamp ok hload⟩
    · cases h
  · split at h
    · rename_i text mtime hload
      cases h
      exact ⟨rfl, rfl, .store hload _⟩
    · cases h

/-! ## Coherence -/

/-- A version with this modification time and this text. -/
def State.HasVersion (s : State) (mtime : SystemTime) (text : String) : Prop :=
  ∃ v ∈ s.versions, v.mtime = mtime ∧ fromUtf8 v.content = some text

/-- The table and every load under way belong to one version. -/
structure Inv (s : State) : Prop where
  current : s.file ∈ s.versions
  distinct : ∀ v ∈ s.versions, ∀ w ∈ s.versions, v.mtime = w.mtime → v = w
  cached : ∀ c mtime, s.cache = some c → c.mtime = some mtime →
    ∃ text, s.HasVersion mtime text ∧ c.entries = parseEntries text
  read : ∀ text, s.load = some (.read text) → fromUtf8 s.file.content = some text
  stamped : ∀ text mtime, s.load = some (.stamped text (some mtime)) → s.HasVersion mtime text

/-- A table with the modification time of the file has the entries of the file. -/
def Coherent (s : State) : Prop :=
  ∀ c, s.cache = some c → c.mtime = some s.file.mtime → s.file.entries = some c.entries

/-- No edit falls between the two reads of a load. -/
def Undisturbed (s : State) : Event → Prop
  | .edit _ => ¬s.load.any Load.isRead = true
  | _ => True

instance (s : State) : (e : Event) → Decidable (Undisturbed s e)
  | .edit _ => inferInstanceAs (Decidable (¬_))
  | .pass _ | .new | .check _ | .stat _ _ | .acquire _ | .read _ | .stamp _ | .store =>
    inferInstanceAs (Decidable True)

theorem inv_init (f : File) (now : Instant) : Inv (State.init f now) where
  current := mem_singleton_self f
  distinct v hv w hw _ := by rw [mem_singleton.mp hv, mem_singleton.mp hw]
  cached c mtime hc := by cases hc
  read text h := by cases h
  stamped text mtime h := by cases h

theorem Inv.coherent (h : Inv s) : Coherent s := by
  intro c hc hmtime
  obtain ⟨text, ⟨v, hv, hvm, htext⟩, hentries⟩ := h.cached c s.file.mtime hc hmtime
  obtain rfl := h.distinct v hv s.file h.current hvm
  rw [File.entries, htext, map_some, hentries]

theorem State.HasVersion.edit (h : s.HasVersion mtime text) (f : File) :
    State.HasVersion { s with file := f, versions := f :: s.versions } mtime text := by
  obtain ⟨v, hv, hversion⟩ := h
  exact ⟨v, mem_cons_of_mem f hv, hversion⟩

theorem Inv.edit (h : Inv s) {f : File} (hf : ∀ v ∈ s.versions, v.mtime = f.mtime → v = f)
    (hload : ¬s.load.any Load.isRead = true) :
    Inv { s with file := f, versions := f :: s.versions } where
  current := mem_cons_self
  distinct v hv w hw heq := by
    rcases mem_cons.mp hv with rfl | hv' <;> rcases mem_cons.mp hw with rfl | hw'
    · rfl
    · exact (hf w hw' heq.symm).symm
    · exact hf v hv' heq
    · exact h.distinct v hv' w hw' heq
  cached c mtime hc hmtime := by
    obtain ⟨text, hversion, hentries⟩ := h.cached c mtime hc hmtime
    exact ⟨text, hversion.edit f, hentries⟩
  read text htext := absurd (congrArg (Option.any Load.isRead) htext) hload
  stamped text mtime hstamped := (h.stamped text mtime hstamped).edit f

theorem Inv.cached_of_change (h : Inv s) (hchange : Change s cache load) (hc : cache = some c)
    (hmtime : c.mtime = some mtime) :
    ∃ text, s.HasVersion mtime text ∧ c.entries = parseEntries text := by
  have hsame (htable : SameTable s.cache cache) :
      ∃ text, s.HasVersion mtime text ∧ c.entries = parseEntries text := by
    obtain ⟨c₀, hc₀, hentries, hmtime₀⟩ := htable c hc
    rw [hentries]
    exact h.cached c₀ mtime hc₀ (hmtime₀ ▸ hmtime)
  rcases hchange with htable | htable | _ | _ | _ | ⟨hload, lastCheck⟩
  · exact hsame htable
  · exact hsame htable
  · exact hsame (SameTable.refl _)
  · exact hsame (SameTable.refl _)
  · exact hsame (SameTable.refl _)
  · cases hc
    obtain rfl := hmtime
    exact ⟨_, h.stamped _ mtime hload, rfl⟩

theorem Inv.read_of_change (h : Inv s) (hchange : Change s cache load)
    (hload : load = some (.read text)) : fromUtf8 s.file.content = some text := by
  rcases hchange with htable | htable | _ | htext | _ | _
  · exact h.read text hload
  · cases hload
  · cases hload
  · cases hload
    exact htext
  · cases hload
  · cases hload

theorem Inv.stamped_of_change (h : Inv s) (hchange : Change s cache load)
    (hload : load = some (.stamped text (some mtime))) : s.HasVersion mtime text := by
  rcases hchange with htable | htable | _ | htext | ⟨ok, hread⟩ | _
  · exact h.stamped text mtime hload
  · cases hload
  · cases hload
  · cases hload
  · rw [Option.some.injEq, Load.stamped.injEq, State.stat, ite_none_right_eq_some,
      Option.some.injEq] at hload
    obtain ⟨rfl, -, hmtime⟩ := hload
    -- the file is still the one the text was read from
    exact ⟨s.file, h.current, hmtime, h.read _ hread⟩
  · cases hload

theorem Inv.change (h : Inv s) (hfile : s'.file = s.file) (hversions : s'.versions = s.versions)
    (hchange : Change s s'.cache s'.load) : Inv s' where
  current := by
    rw [hfile, hversions]
    exact h.current
  distinct := by
    rw [hversions]
    exact h.distinct
  cached c mtime hc hmtime := by
    simp only [State.HasVersion, hversions]
    exact h.cached_of_change hchange hc hmtime
  read text hload := by
    rw [hfile]
    exact h.read_of_change hchange hload
  stamped text mtime hload := by
    rw [State.HasVersion, hversions]
    exact h.stamped_of_change hchange hload

theorem Inv.step (h : Inv s) (hguard : Undisturbed s e) (hstep : step ttl s e = some s') :
    Inv s' := by
  rcases step_cases hstep with ⟨f, rfl, hf, rfl⟩ | ⟨hfile, hversions, hchange⟩
  · exact h.edit hf hguard
  · exact h.change hfile hversions hchange

/-- A check ends with the modification time the file has now, having loaded the file or not. -/
inductive EndsCheck (ttl : Duration) (s s' : State) : Event → Prop
  | unchanged {thread : ℕ} {c : FileAuthState} (hc : s.cache = some c)
      (hexpired : s.fresh ttl c = false)
      (hattempt : s.attempts.lookup thread = some (.stamped (some s.file.mtime)))
      (hload : s'.load = none) : EndsCheck ttl s s' (.acquire thread)
  | loaded {text : String} (hload : s.load = some (.stamped text (some s.file.mtime))) :
      EndsCheck ttl s s' .store

theorem EndsCheck.mtime_eq (hend : EndsCheck ttl s s' e) (hstep : step ttl s e = some s') :
    ∃ c, s'.cache = some c ∧ c.mtime = some s'.file.mtime := by
  rcases hend with @⟨thread, c, hc, hexpired, hattempt, hload⟩ | @⟨text, hload⟩
  · rcases hlocked : s.load with _ | l
    · simp only [Auth.step, hc, hattempt, hlocked, Option.some.injEq, State.locked, hexpired,
        Bool.false_eq_true, if_false] at hstep
      subst hstep
      split_ifs at hload ⊢ with hmtime
      exact ⟨_, rfl, hmtime.symm⟩
    · simp only [Auth.step, hc, hattempt, hlocked, reduceCtorEq] at hstep
  · simp only [Auth.step, hload, Option.some.injEq] at hstep
    subst hstep
    exact ⟨_, rfl, rfl⟩

/-- **Coherence of the password table**, if no edit falls between the two reads of a load: a table
with the modification time of the file has its entries. -/
theorem coherent_of_undisturbed {f : File} {now : Instant} {es : List Event}
    (hok : AllSteps (step ttl) Undisturbed (State.init f now) es)
    (hrun : run (step ttl) (State.init f now) es = some s) :
    Coherent s ∧
      ∀ pre e s₁, es = pre ++ [e] → run (step ttl) (State.init f now) pre = some s₁ →
        EndsCheck ttl s₁ s e →
        ∀ user, (s.file.entries.bind fun m ↦ m.lookup user) = none → s.lookup user = none := by
  have hinv : Always (step ttl) Inv (State.init f now) es :=
    always_of_allSteps (inv_init f now) (fun _ _ _ h hguard hstep ↦ h.step hguard hstep) hok
  have hcoherent : Coherent s := (hinv.final hrun).coherent
  refine ⟨hcoherent, ?_⟩
  rintro pre e s₁ rfl hpre hend user huser
  rw [run_concat, hpre, bind_some] at hrun
  obtain ⟨c, hc, hmtime⟩ := hend.mtime_eq hrun
  rw [hcoherent c hc hmtime, bind_some] at huser
  rw [State.lookup, hc, bind_some, huser]

/-! ## An edit in between -/

/-- Versions of a file in which a user is added and removed. -/
private def emptyFile : File := ⟨[], 1⟩

private def bobAdded : File := ⟨bytes "bob:$6$salt$hash", 2⟩

private def bobRemoved : File := ⟨[], 3⟩

/-- A file is loaded, edited and loaded again after a check. -/
private def editAndReload (between after : List Event) : List Event :=
  [.new, .read true, .stamp true, .store, .edit bobAdded, .pass 60, .check 0, .stat 0 true,
    .acquire 0, .read true] ++ between ++ [.stamp true, .store] ++ after

/-- Undisturbed, the load leaves the table of the file. -/
theorem coherent_after_reload :
    ∃ s, run (step 60) (State.init emptyFile 0) (editAndReload [] []) = some s ∧ Coherent s := by
  have hrun : (run (step 60) (State.init emptyFile 0) (editAndReload [] [])).isSome = true := by
    decide +kernel
  obtain ⟨s, hs⟩ := isSome_iff_exists.mp hrun
  exact ⟨s, hs, (coherent_of_undisturbed (allSteps_of_checkSteps (by decide +kernel)) hs).1⟩

/-- A user whom an edit between the two reads of a load removed is still found, also by later
checks. -/
theorem removed_user_pinned :
    (run (step 60) (State.init emptyFile 0)
        (editAndReload [.edit bobRemoved] [.pass 60, .check 0, .stat 0 true, .acquire 0])).map
      (fun s ↦ (s.file.mtime, s.cache.bind FileAuthState.mtime,
        s.file.entries.bind fun m ↦ m.lookup "bob", s.lookup "bob")) =
      some (3, some 3, none, some ⟨"$6$salt$hash", []⟩) := by
  decide +kernel

end Auth

end Hypershunt
