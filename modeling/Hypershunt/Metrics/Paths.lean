import Hypershunt.Foundation.HashMap
import Hypershunt.Foundation.Text

/-!
# The statistics of paths

`record_path` of `metrics.rs` counts the requests of a path under its first 128 bytes. Taking these
panics where they end inside of a character (`recordPath_iff`).
-/

namespace Hypershunt

namespace Metrics

open String Option List

def maxTrackedPaths : ℕ := 200

def maxPathLen : ℕ := 128

/-- `&s[..n]`: the prefix of so many bytes, or a panic if no character ends there. -/
def sliceTo (n : ℕ) (s : String) : Option String :=
  (s.toList.inits.map ofList).find? fun key ↦ key.utf8ByteSize == n

/-- The key for a path, or a panic. -/
def pathKey (path : String) : Option String :=
  if maxPathLen < path.utf8ByteSize then sliceTo maxPathLen path else some path

/-- Count a key, unless it is new and there are too many. -/
def countPath (current : HashMap String UInt64) (p : String) : HashMap String UInt64 :=
  if current.entries.card < maxTrackedPaths ∨ p ∈ current then
    current.insert p ((current.lookup p).getD 0 + 1)
  else current

def recordPath (current : HashMap String UInt64) (path : String) :
    Option (HashMap String UInt64) :=
  (pathKey path).map (countPath current)

def IsCharBoundary (path : String) (n : ℕ) : Prop :=
  ∃ key rest, path = key ++ rest ∧ key.utf8ByteSize = n

/-- A prefix of the path is counted that is not too long. -/
def Counted (current : HashMap String UInt64) (path : String) (after : HashMap String UInt64) :
    Prop :=
  ∃ key rest, path = key ++ rest ∧ key.utf8ByteSize ≤ maxPathLen ∧ after = countPath current key

theorem mem_inits_iff {path key : String} :
    key ∈ path.toList.inits.map ofList ↔ ∃ rest, path = key ++ rest := by
  simp only [List.mem_map, mem_inits]
  constructor
  · rintro ⟨pre, ⟨rest, hrest⟩, rfl⟩
    exact ⟨ofList rest, by rw [← ofList_append, hrest, ofList_toList]⟩
  · rintro ⟨rest, rfl⟩
    exact ⟨key.toList, ⟨rest.toList, toList_append.symm⟩, ofList_toList⟩

theorem of_sliceTo {n : ℕ} {path key : String} (h : sliceTo n path = some key) :
    (∃ rest, path = key ++ rest) ∧ key.utf8ByteSize = n :=
  ⟨mem_inits_iff.mp (mem_of_find?_eq_some h),
    beq_iff_eq.mp (find?_some (p := fun key : String ↦ key.utf8ByteSize == n) h)⟩

/-- **A path is counted** just if it is not too long or a character ends at the limit. -/
theorem recordPath_iff (current : HashMap String UInt64) (path : String) :
    (∃ after, recordPath current path = some after ∧ Counted current path after) ↔
      path.utf8ByteSize ≤ maxPathLen ∨ IsCharBoundary path maxPathLen := by
  rw [recordPath, pathKey]
  split_ifs with hlong
  · rw [or_iff_right (not_le.mpr hlong)]
    constructor
    · rintro ⟨after, hafter, -⟩
      obtain ⟨key, hkey, -⟩ := map_eq_some_iff.mp hafter
      obtain ⟨⟨rest, hrest⟩, hsize⟩ := of_sliceTo hkey
      exact ⟨key, rest, hrest, hsize⟩
    · rintro ⟨key, rest, hrest, hsize⟩
      -- the slice that is found has the same size, and need not be compared with this one
      have hfound : (sliceTo maxPathLen path).isSome = true :=
        find?_isSome.mpr ⟨key, mem_inits_iff.mpr ⟨rest, hrest⟩, beq_iff_eq.mpr hsize⟩
      obtain ⟨found, hfound⟩ := isSome_iff_exists.mp hfound
      obtain ⟨⟨rest, hrest⟩, hsize⟩ := of_sliceTo hfound
      rw [hfound, map_some]
      exact ⟨_, rfl, found, rest, hrest, hsize.le, rfl⟩
  · refine iff_of_true ⟨_, rfl, path, "", ?_, not_lt.mp hlong, rfl⟩ (Or.inl (not_lt.mp hlong))
    rw [append_empty]

/-- A slash and 64 characters of two bytes each. -/
private def accentedPath : String := ofList ('/' :: replicate 64 'é')

theorem recordPath_accented :
    ¬∃ after, recordPath ∅ accentedPath = some after ∧ Counted ∅ accentedPath after := by
  have hpanic : recordPath ∅ accentedPath = none := by decide +kernel
  rintro ⟨after, hafter, -⟩
  rw [hpanic] at hafter
  nomatch hafter

end Metrics

end Hypershunt
