import Hypershunt.Foundation.Rollup

/-!
# The archives of the metrics

`tick_loop` of `metrics.rs`: every five seconds the counters are read and what they have gained goes
into a slot of the fine archive. Twelve such slots are consolidated into one of the minute archive,
sixty of these into one of the hourly archive and twenty-four of those into one of the daily
archive. All four are ring buffers.

The slots have narrow fields. A gain that does not fit is recorded as the greatest value that does
(except for requests), but sums are cast, so that they wrap. `exact_iff` says which histories are
archived as if the sums were recorded like the gains: those without a slot whose true sum is too
large, up to the coincidence that it wraps to the greatest value.

The path tables that are archived alongside are left out, and the percentage of the CPU, which is
computed in floating point, is a parameter.
-/

namespace Hypershunt

namespace Metrics

open RingBuffer List

/-! ## Slots -/

structure Slot where
  req : UInt32
  mem : UInt32
  cpu : UInt16
  auth : UInt16
  jwt : UInt16
  jwtExpiry : UInt16
  jwtIssued : UInt16
  err4xx : UInt16
  err5xx : UInt16
  active : UInt16
  deriving DecidableEq

def Slot.zero : Slot := ⟨0, 0, 0, 0, 0, 0, 0, 0, 0, 0⟩

/-- What a tick reads: the counters, the gauge of requests in flight, and memory and CPU time, zero
where they cannot be read. -/
structure Reading where
  total : ℕ
  auth : ℕ
  jwt : ℕ
  jwtExp : ℕ
  jwtIss : ℕ
  s4xx : ℕ
  s5xx : ℕ
  activeNow : Int
  memKb : ℕ
  cpuNow : ℕ

open Reading

def Reading.zero : Reading := ⟨0, 0, 0, 0, 0, 0, 0, 0, 0, 0⟩

/-- What a counter has gained, cast to `u32` before the bound of sixteen bits. -/
def delta (now last : ℕ) : UInt16 := UInt16.ofNat (min ((now - last) % 2 ^ 32) (2 ^ 16 - 1))

variable (cpuHp : ℕ → UInt16)

/-- The slot of a tick. Without an earlier reading of the CPU time there is no percentage. -/
def fineSlot (last now : Reading) : Slot where
  req := UInt32.ofNat (now.total - last.total)
  mem := UInt32.ofNat now.memKb
  cpu := cpuHp (if last.cpuNow = 0 then 0 else now.cpuNow - last.cpuNow)
  auth := delta now.auth last.auth
  jwt := delta now.jwt last.jwt
  jwtExpiry := delta now.jwtExp last.jwtExp
  jwtIssued := delta now.jwtIss last.jwtIss
  err4xx := delta now.s4xx last.s4xx
  err5xx := delta now.s5xx last.s5xx
  active := UInt16.ofNat (min now.activeNow.toNat (2 ^ 16 - 1))

/-- A quotient in sixteen bits, or zero. -/
def average (sum count : ℕ) : UInt16 := UInt16.ofNat (min (sum / count % 2 ^ 32) (2 ^ 16 - 1))

/-- One slot for several. The averages of memory and CPU are over the slots that have a reading. -/
def consolidate (slots : List Slot) : Slot :=
  let read := slots.filter (0 < ·.mem)
  { req := UInt32.ofNat (slots.map (·.req.toNat)).sum
    mem := UInt32.ofNat ((read.map (·.mem.toNat)).sum / read.length)
    cpu := average (read.map (·.cpu.toNat)).sum read.length
    auth := UInt16.ofNat (slots.map (·.auth.toNat)).sum
    jwt := UInt16.ofNat (slots.map (·.jwt.toNat)).sum
    jwtExpiry := UInt16.ofNat (slots.map (·.jwtExpiry.toNat)).sum
    jwtIssued := UInt16.ofNat (slots.map (·.jwtIssued.toNat)).sum
    err4xx := UInt16.ofNat (slots.map (·.err4xx.toNat)).sum
    err5xx := UInt16.ofNat (slots.map (·.err5xx.toNat)).sum
    active := average (slots.map (·.active.toNat)).sum slots.length }

/-! ## Archives -/

/-- The archives and the last reading, which the next gains are measured from. -/
structure Archives where
  fine : RingBuffer Slot 720
  minute : RingBuffer Slot 1440
  hourly : RingBuffer Slot 720
  daily : RingBuffer Slot 365
  last : Reading

def Archives.new : Archives :=
  ⟨.fresh Slot.zero, .fresh Slot.zero, .fresh Slot.zero, .fresh Slot.zero, zero⟩

def consolidateFineToMinute (fine : RingBuffer Slot 720) (minute : RingBuffer Slot 1440) :
    RingBuffer Slot 1440 :=
  minute.push (consolidate (fine.latest 12))

def consolidateCoarse {c d : ℕ} [NeZero c] [NeZero d] (src : RingBuffer Slot c)
    (dst : RingBuffer Slot d) (n : ℕ) : RingBuffer Slot d :=
  dst.push (consolidate (src.latest (min n c)))

/-- One pass of `tick_loop`. -/
def tick (s : Archives) (now : Reading) : Archives :=
  let s := { s with fine := s.fine.push (fineSlot cpuHp s.last now), last := now }
  if 12 ∣ s.fine.written then
    let s := { s with minute := consolidateFineToMinute s.fine s.minute }
    if 60 ∣ s.minute.written then
      let s := { s with hourly := consolidateCoarse s.minute s.hourly 60 }
      if 24 ∣ s.hourly.written then
        { s with daily := consolidateCoarse s.hourly s.daily 24 }
      else s
    else s
  else s

/-- The archives after a sequence of ticks. -/
def after (readings : List Reading) : Archives := readings.foldl (tick cpuHp) Archives.new

/-- What the ticks have recorded in the fine archive, including what has been overwritten since. -/
def recorded : Reading → List Reading → List Slot
  | _, [] => []
  | last, now :: readings => fineSlot cpuHp last now :: recorded now readings

/-! ## What the archives hold -/

section

open Rollup

variable {cpuHp} {s : Archives} {xs : List Slot} {now : Reading}

/-- Each archive has the rollup of what was recorded. -/
structure Holds (s : Archives) (xs : List Slot) : Prop where
  fine : s.fine.Records xs
  minute : s.minute.Records (blocks 12 consolidate xs)
  hourly : s.hourly.Records (blocks 60 consolidate (blocks 12 consolidate xs))
  daily : s.daily.Records
    (blocks 24 consolidate (blocks 60 consolidate (blocks 12 consolidate xs)))

theorem holds_new : Holds Archives.new [] where
  fine := records_fresh _
  minute := records_fresh _
  hourly := records_fresh _
  daily := records_fresh _

theorem exists_consolidateCoarse {c d n : ℕ} [NeZero c] [NeZero d] {src : RingBuffer Slot c}
    {dst : RingBuffer Slot d} {x : Slot} (hsrc : src.Records (xs ++ [x]))
    (hdst : dst.Records (blocks n consolidate xs)) (hn : n ≤ c) (hdvd : n ∣ src.written) :
    ∃ y, blocks n consolidate (xs ++ [x]) = blocks n consolidate xs ++ [y] ∧
      (consolidateCoarse src dst n).Records (blocks n consolidate xs ++ [y]) := by
  refine ⟨consolidate (src.latest n), blocks_eq_of_dvd hsrc consolidate hn hdvd, ?_⟩
  rw [consolidateCoarse, min_eq_left hn]
  exact hdst.push _

/-- A tick writes to the archives as far up as blocks end. -/
theorem Holds.tick (h : Holds s xs) (cpuHp : ℕ → UInt16) (now : Reading) :
    Holds (tick cpuHp s now) (xs ++ [fineSlot cpuHp s.last now]) := by
  have hfine := h.fine.push (fineSlot cpuHp s.last now)
  simp only [Metrics.tick]
  split
  case isFalse h12 =>
    have hy := blocks_eq_of_not_dvd hfine consolidate h12
    exact ⟨hfine, hy ▸ h.minute, hy ▸ h.hourly, hy ▸ h.daily⟩
  case isTrue h12 =>
    obtain ⟨y, hy, hminute⟩ := exists_consolidateCoarse hfine h.minute (by decide) h12
    split
    case isFalse h60 =>
      have hz := blocks_eq_of_not_dvd hminute consolidate h60
      exact ⟨hfine, hy ▸ hminute, hy ▸ hz ▸ h.hourly, hy ▸ hz ▸ h.daily⟩
    case isTrue h60 =>
      obtain ⟨z, hz, hhourly⟩ := exists_consolidateCoarse hminute h.hourly (by decide) h60
      split
      case isFalse h24 =>
        have hw := blocks_eq_of_not_dvd hhourly consolidate h24
        exact ⟨hfine, hy ▸ hminute, hy ▸ hz ▸ hhourly, hy ▸ hz ▸ hw ▸ h.daily⟩
      case isTrue h24 =>
        obtain ⟨w, hw, hdaily⟩ := exists_consolidateCoarse hhourly h.daily (by decide) h24
        exact ⟨hfine, hy ▸ hminute, hy ▸ hz ▸ hhourly, hy ▸ hz ▸ hw ▸ hdaily⟩

theorem last_tick : (tick cpuHp s now).last = now := by
  simp only [tick]
  split_ifs <;> rfl

theorem holds_foldl (h : Holds s xs) (readings : List Reading) :
    Holds (readings.foldl (Metrics.tick cpuHp) s) (xs ++ recorded cpuHp s.last readings) := by
  induction readings generalizing s xs with
  | nil => rwa [recorded, append_nil]
  | cons now readings ih =>
    have hstep := ih (h.tick cpuHp now)
    rwa [last_tick, append_assoc, singleton_append] at hstep

theorem holds_after (readings : List Reading) :
    Holds (after cpuHp readings) (recorded cpuHp zero readings) :=
  holds_foldl holds_new readings

theorem length_recorded (last : Reading) (readings : List Reading) :
    (recorded cpuHp last readings).length = readings.length := by
  induction readings generalizing last with
  | nil => rfl
  | cons now readings ih => rw [recorded, length_cons, length_cons, ih]

end

/-! ## Sums -/

/-- The archives above the fine one. -/
inductive Level
  | minute
  | hourly
  | daily
  deriving DecidableEq

namespace Level

/-- The number of ticks that a slot is about. -/
def ticks : Level → ℕ
  | minute => 12
  | hourly => 720
  | daily => 17280

def cap : Level → ℕ
  | minute => 1440
  | hourly => 720
  | daily => 365

/-- The ticks that the slot with this number covers. -/
def covers (level : Level) (k : ℕ) : Finset ℕ :=
  Finset.Ico (k * level.ticks) ((k + 1) * level.ticks)

end Level

namespace Archives

def written (s : Archives) : Level → ℕ
  | .minute => s.minute.written
  | .hourly => s.hourly.written
  | .daily => s.daily.written

def entry (s : Archives) : Level → ℕ → Slot
  | .minute => s.minute.entry
  | .hourly => s.hourly.entry
  | .daily => s.daily.entry

/-- The slot has been written and not been overwritten. -/
def Live (s : Archives) (level : Level) (k : ℕ) : Prop :=
  k < s.written level ∧ s.written level ≤ k + level.cap

end Archives

/-- The fields that are summed. -/
inductive Field
  | req
  | auth
  | jwt
  | jwtExpiry
  | jwtIssued
  | err4xx
  | err5xx
  deriving DecidableEq

namespace Field

def get : Field → Slot → ℕ
  | req, slot => slot.req.toNat
  | auth, slot => slot.auth.toNat
  | jwt, slot => slot.jwt.toNat
  | jwtExpiry, slot => slot.jwtExpiry.toNat
  | jwtIssued, slot => slot.jwtIssued.toNat
  | err4xx, slot => slot.err4xx.toNat
  | err5xx, slot => slot.err5xx.toNat

/-- The number of values. -/
def size : Field → ℕ
  | req => 2 ^ 32
  | _ => 2 ^ 16

theorem get_lt_size (slot : Slot) (field : Field) : field.get slot < field.size := by
  rcases field
  · exact slot.req.toNat_lt
  all_goals exact UInt16.toNat_lt _

/-- Sums are cast. -/
theorem get_consolidate (field : Field) (slots : List Slot) :
    field.get (consolidate slots) = (slots.map field.get).sum % field.size := by
  rcases field
  · exact UInt32.toNat_ofNat'
  all_goals exact UInt16.toNat_ofNat'

end Field

section

open Rollup

variable {s : Archives} {xs : List Slot} {level : Level} {k : ℕ}

/-- What has been written to an archive. -/
def Level.rollup (xs : List Slot) : Level → List Slot
  | .minute => blocks 12 consolidate xs
  | .hourly => blocks 60 consolidate (blocks 12 consolidate xs)
  | .daily => blocks 24 consolidate (blocks 60 consolidate (blocks 12 consolidate xs))

theorem Level.addsUp_rollup (field : Field) (xs : List Slot) (level : Level) :
    AddsUp field.size field.get level.ticks xs (level.rollup xs) := by
  have hcast : ∀ slots, field.get (consolidate slots) ≡
      (slots.map field.get).sum [MOD field.size] := fun slots ↦
    field.get_consolidate slots ▸ Nat.mod_modEq _ _
  have hblocks : ∀ n ys, AddsUp field.size field.get n ys (blocks n consolidate ys) :=
    addsUp_blocks hcast
  have hminute := hblocks 12 xs
  have hhourly := hminute.trans (hblocks 60 _)
  rcases level
  · exact hminute
  · exact hhourly
  · exact hhourly.trans (hblocks 24 _)

theorem Holds.written (h : Holds s xs) (level : Level) :
    s.written level = (level.rollup xs).length := by
  rcases level
  · exact h.minute.written
  · exact h.hourly.written
  · exact h.daily.written

theorem Holds.entry (h : Holds s xs) (hlive : s.Live level k) :
    (level.rollup xs)[k]? = some (s.entry level k) := by
  obtain ⟨hwritten, hlive⟩ := hlive
  rw [h.written level] at hwritten hlive
  have hget := getElem?_eq_getElem hwritten
  rw [hget, Option.some.injEq]
  rcases level
  · exact (h.minute.entry k _ hget hlive).symm
  · exact (h.hourly.entry k _ hget hlive).symm
  · exact (h.daily.entry k _ hget hlive).symm

/-- What a slot holds: the sum over the ticks it covers, cast to the type of the field. -/
theorem Holds.get_entry (h : Holds s xs) (hlive : s.Live level k) (field : Field) :
    field.get (s.entry level k) =
      total field.get level.ticks k xs % field.size := by
  have hmod := (level.addsUp_rollup field xs).modEq k _ (h.entry hlive)
  rw [← hmod, Nat.mod_eq_of_lt (field.get_lt_size _)]

end

variable {cpuHp}

theorem written_after (readings : List Reading) (level : Level) :
    (after cpuHp readings).written level = readings.length / level.ticks := by
  rw [(holds_after readings).written level, (level.addsUp_rollup .req _).length, length_recorded]

theorem Level.mem_covers_iff {level : Level} {k t : ℕ} :
    t ∈ level.covers k ↔ k * level.ticks ≤ t ∧ t < (k + 1) * level.ticks :=
  Finset.mem_Ico

variable (cpuHp)

/-- The sum of what was recorded for a field in the ticks that a slot covers. -/
def sumOver (readings : List Reading) (level : Level) (k : ℕ) (field : Field) : ℕ :=
  ∑ t ∈ level.covers k,
    ((recorded cpuHp zero readings)[t]?.map field.get).getD 0

/-- The archives hold the sums, bounded by their fields, and their slots cover the past in turn. -/
structure Exact (readings : List Reading) : Prop where
  sums : ∀ level k field, (after cpuHp readings).Live level k →
    field.get ((after cpuHp readings).entry level k) =
      min (sumOver cpuHp readings level k field) (field.size - 1)
  past : ∀ level k, (after cpuHp readings).Live level k → ∀ t ∈ level.covers k, t < readings.length
  disjoint : ∀ (level : Level) k, Disjoint (level.covers k) (level.covers (k + 1))
  adjacent : ∀ (level : Level) k, level.covers k ∪ level.covers (k + 1) =
    Finset.Ico (k * level.ticks) ((k + 2) * level.ticks)

variable {cpuHp}

theorem get_entry_after {readings : List Reading} {level : Level} {k : ℕ}
    (hlive : (after cpuHp readings).Live level k) (field : Field) :
    field.get ((after cpuHp readings).entry level k) =
      sumOver cpuHp readings level k field % field.size := by
  rw [(holds_after readings).get_entry hlive, Rollup.total_eq_sum_Ico]
  rfl

theorem mod_eq_min_iff {n m : ℕ} (hm : 0 < m) :
    n % m = min n (m - 1) ↔ n < m ∨ n % m = m - 1 := by
  rcases Nat.lt_or_ge n m with hlt | hge
  · rw [Nat.mod_eq_of_lt hlt]
    omega
  · omega

/-- **Which histories are archived exactly**: those in which no live slot has a sum too large for
its field, unless it happens to be cast to the greatest value. -/
theorem exact_iff (cpuHp : ℕ → UInt16) (readings : List Reading) :
    Exact cpuHp readings ↔ ∀ (level : Level) k (field : Field),
      k < readings.length / level.ticks → readings.length / level.ticks ≤ k + level.cap →
        sumOver cpuHp readings level k field < field.size ∨
          sumOver cpuHp readings level k field % field.size = field.size - 1 := by
  have hlive : ∀ level k, (after cpuHp readings).Live level k ↔
      k < readings.length / level.ticks ∧ readings.length / level.ticks ≤ k + level.cap := by
    intro level k
    rw [Archives.Live, written_after]
  have hsize : ∀ field : Field, 0 < field.size := fun field ↦
    (Nat.zero_le _).trans_lt (field.get_lt_size Slot.zero)
  constructor
  · intro h level k field hk hcap
    have hl := (hlive level k).mpr ⟨hk, hcap⟩
    rw [← mod_eq_min_iff (hsize field), ← get_entry_after hl]
    exact h.sums level k field hl
  · intro h
    refine ⟨fun level k field hl ↦ ?_, fun level k hl t ht ↦ ?_, fun level k ↦ ?_, fun level k ↦ ?_⟩
    · obtain ⟨hk, hcap⟩ := (hlive level k).mp hl
      rw [get_entry_after hl, mod_eq_min_iff (hsize field)]
      exact h level k field hk hcap
    · obtain ⟨hk, -⟩ := (hlive level k).mp hl
      exact (Level.mem_covers_iff.mp ht).2.trans_le (Nat.mul_le_of_le_div _ _ _ hk)
    · exact Finset.Ico_disjoint_Ico_consecutive _ _ _
    · refine Finset.Ico_union_Ico_eq_Ico ?_ ?_
      · exact Nat.mul_le_mul_right _ (Nat.le_succ k)
      · exact Nat.mul_le_mul_right _ (Nat.le_succ (k + 1))

/-- Two thousand client errors a second, for one minute. -/
private def busyMinute : List Reading :=
  (range 12).map fun i ↦ { zero with s4xx := 10000 * (i + 1) }

/-- The gains fit, but their sum does not, and the minute shows less than half of it. -/
theorem busyMinute_wraps :
    sumOver (fun _ ↦ 0) busyMinute .minute 0 .err4xx = 120000 ∧
    Field.err4xx.get ((after (fun _ ↦ 0) busyMinute).entry .minute 0) = 54464 ∧
    ¬Exact (fun _ ↦ 0) busyMinute := by
  have hsum : sumOver (fun _ ↦ 0) busyMinute .minute 0 .err4xx = 120000 := by decide +kernel
  have hget : Field.err4xx.get ((after (fun _ ↦ 0) busyMinute).entry .minute 0) = 54464 := by
    decide +kernel
  refine ⟨hsum, hget, fun h ↦ ?_⟩
  have hlive : (after (fun _ ↦ 0) busyMinute).Live .minute 0 := by
    constructor <;> decide +kernel
  have hexact := h.sums .minute 0 .err4xx hlive
  rw [hsum, hget] at hexact
  exact absurd hexact (by decide)

end Metrics

end Hypershunt
