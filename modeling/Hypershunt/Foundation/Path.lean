import Hypershunt.Foundation.Text
import Hypershunt.Foundation.Time

/-!
# Paths

Unix paths and the operations of Rust's `std::path` on them. A path is a byte string, and byte `b`
is represented by the character with code `b`, as in header values: text becomes a path by way of
its encoding, and there are names that are not text. A path is compared and cut by its components,
for which repeated slashes and dots between them do not count; only what a file system makes of a
path is a matter of the whole string.
-/

namespace Hypershunt

open List

/-- A byte string, one character for each byte. -/
abbrev OsString := String

namespace OsString

/-- The encoding of a text. -/
def ofStr (s : String) : OsString :=
  String.ofList ((Text.bytes s).map fun b ↦ Char.ofNat b.toNat)

/-- `OsStr::to_str`: the text, if there is one. -/
def toStr (s : OsString) : Option String :=
  Text.fromUtf8 (s.toList.map fun c ↦ UInt8.ofNat c.toNat)

end OsString

namespace Path

def isAbsolute (p : OsString) : Bool := Text.startsWith "/" p

/-- The components of a path that are names, or lead to the parent. -/
def names (p : OsString) : List OsString :=
  (Text.split '/' p).filter fun segment ↦ segment ≠ "" && segment ≠ "."

/-- `Path::components`, each as a string. The root is a component, and so is a dot in front. -/
def components (p : OsString) : List OsString :=
  (if isAbsolute p then ["/"]
    else if (Text.split '/' p).head? = some "." then ["."]
    else []) ++ names p

/-- `Path::join`: a path that is absolute replaces the other. -/
def join (p q : OsString) : OsString :=
  if isAbsolute q then q
  else if p.toList = [] ∨ p.toList.getLast? = some '/' then p ++ q
  else p ++ "/" ++ q

/-- `Path::starts_with`: whole components are compared. -/
def startsWith (p base : OsString) : Bool := (components base).isPrefixOf (components p)

/-- `Path::strip_prefix`, as the components that are left. -/
def stripPrefix (p base : OsString) : Option (List OsString) :=
  if startsWith p base then some ((components p).drop (components base).length) else none

end Path

/-! ## Text as paths -/

namespace OsString

variable {s t : String} {c : Char}

theorem toStr_ofStr (s : String) : toStr (ofStr s) = some s := by
  have hbyte : ∀ b ∈ Text.bytes s, UInt8.ofNat (Char.ofNat b.toNat).toNat = b := fun b _ ↦ by
    rw [Text.toNat_charOfNat_byte, UInt8.ofNat_toNat]
  rw [toStr, ofStr, String.toList_ofList, map_map, ← Text.fromUtf8_bytes s]
  congr 1
  exact (map_congr_left hbyte).trans (map_id' _)

theorem ofStr_inj : ofStr s = ofStr t ↔ s = t := by
  refine ⟨fun h ↦ ?_, fun h ↦ h ▸ rfl⟩
  have hs := toStr_ofStr s
  rw [h, toStr_ofStr, Option.some.injEq] at hs
  exact hs.symm

theorem ofStr_append (s t : String) : ofStr (s ++ t) = ofStr s ++ ofStr t := by
  rw [ofStr, Text.bytes_append, map_append, String.ofList_append]
  rfl

/-- Plain text is its own encoding. -/
theorem ofStr_of_ascii (h : ∀ c ∈ s.toList, c.toNat < 128) : ofStr s = s := by
  have hchar : ∀ c ∈ s.toList, Char.ofNat (UInt8.ofNat c.toNat).toNat = c := fun c hc ↦ by
    rw [UInt8.toNat_ofNat', Nat.mod_eq_of_lt ((h c hc).trans (by decide)), Char.ofNat_toNat]
  have hbytes := Text.bytes_ofList h
  rw [String.ofList_toList] at hbytes
  rw [ofStr, hbytes, map_map]
  exact (congrArg _ ((map_congr_left hchar).trans (map_id' _))).trans String.ofList_toList

theorem ofStr_slash : ofStr "/" = "/" := ofStr_of_ascii (Text.forall_mem_of_all (by decide))

theorem ofStr_parent : ofStr ".." = ".." := ofStr_of_ascii (Text.forall_mem_of_all (by decide))

theorem mem_toList_ofStr (hc : c.toNat < 128) : c ∈ (ofStr s).toList ↔ c ∈ s.toList := by
  rw [ofStr, String.toList_ofList, mem_map, Text.bytes_eq_flatMap]
  constructor
  · rintro ⟨b, hb, rfl⟩
    obtain ⟨d, hd, hb⟩ := mem_flatMap.mp hb
    rw [Text.toNat_charOfNat_byte] at hc
    by_cases hascii : d.toNat < 128
    · rw [Text.utf8EncodeChar_of_lt hascii, mem_singleton] at hb
      rw [hb, UInt8.toNat_ofNat', Nat.mod_eq_of_lt (hascii.trans (by decide)), Char.ofNat_toNat]
      exact hd
    · have hge := Text.le_of_mem_utf8EncodeChar (not_lt.mp hascii) hb
      omega
  · intro hmem
    refine ⟨UInt8.ofNat c.toNat, mem_flatMap.mpr ⟨c, hmem, ?_⟩, ?_⟩
    · rw [Text.utf8EncodeChar_of_lt hc]
      exact mem_singleton_self _
    · rw [UInt8.toNat_ofNat', Nat.mod_eq_of_lt (hc.trans (by decide)), Char.ofNat_toNat]

theorem ofStr_intercalate (sep : String) (pieces : List String) :
    ofStr (sep.intercalate pieces) = (ofStr sep).intercalate (pieces.map ofStr) := by
  induction pieces with
  | nil => rfl
  | cons p pieces ih =>
    rcases pieces with _ | ⟨p', pieces⟩
    · rw [map_singleton, String.intercalate_singleton, String.intercalate_singleton]
    · rw [String.intercalate_cons_cons, ofStr_append, ofStr_append, ih]
      simp only [map_cons, String.intercalate_cons_cons]

theorem split_ofStr (s : String) : Text.split '/' (ofStr s) = (Text.split '/' s).map ofStr := by
  have hjoin : (String.singleton '/').intercalate (Text.split '/' s) = s := by
    rw [← String.toList_inj, String.toList_intercalate, String.toList_singleton, Text.split,
      map_map]
    have hid : (String.toList ∘ String.ofList) = id := funext fun _ ↦ String.toList_ofList
    rw [hid, map_id, intercalate_splitOn]
  have hne : Text.split '/' s ≠ [] := by
    rw [Text.split, Ne, map_eq_nil_iff]
    exact splitOn_ne_nil _ _
  conv_lhs => rw [← hjoin, ofStr_intercalate,
    show ofStr (String.singleton '/') = String.singleton '/' from ofStr_slash]
  refine Text.split_intercalate (by simpa using hne) fun p hp ↦ ?_
  obtain ⟨piece, hpiece, rfl⟩ := mem_map.mp hp
  rw [mem_toList_ofStr (by decide)]
  exact Text.not_mem_of_mem_split hpiece

end OsString

namespace Path

variable {p q : OsString}

theorem names_append (p q : OsString) : names (p ++ "/" ++ q) = names p ++ names q := by
  rw [names, show ("/" : String) = String.singleton '/' from rfl,
    Text.split_append_singleton_append, filter_append]
  rfl

theorem names_slash (q : OsString) : names ("/" ++ q) = names q := by
  have h := names_append "" q
  rw [String.empty_append] at h
  rw [h]
  rfl

theorem components_slash (q : OsString) : components ("/" ++ q) = "/" :: names q := by
  have habsolute : isAbsolute ("/" ++ q) = true := by
    rw [isAbsolute, Text.startsWith_iff, String.toList_append]
    exact prefix_append _ _
  rw [components, if_pos habsolute, names_slash]
  rfl

/-- What a path starts with decides its first component; what follows adds its names. -/
theorem components_append (hp : p ≠ "") (q : OsString) :
    components (p ++ "/" ++ q) = components p ++ names q := by
  obtain ⟨c, cs, hcs⟩ : ∃ c cs, p.toList = c :: cs :=
    exists_cons_of_ne_nil fun h ↦ hp (String.toList_inj.mp h)
  have habsolute : isAbsolute (p ++ "/" ++ q) = isAbsolute p := by
    rw [isAbsolute, isAbsolute, Text.startsWith, Text.startsWith, String.toList_append,
      String.toList_append, hcs]
    rfl
  have hhead : (Text.split '/' (p ++ "/" ++ q)).head? = (Text.split '/' p).head? := by
    rw [show ("/" : String) = String.singleton '/' from rfl, Text.split_append_singleton_append]
    refine head?_append_of_ne_nil _ ?_
    rw [Text.split, Ne, map_eq_nil_iff]
    exact splitOn_ne_nil _ _
  rw [components, habsolute, hhead, names_append, ← append_assoc]
  rfl

/-- **A relative path is added to the components.** -/
theorem components_join (hp : p ≠ "") (hq : isAbsolute q = false) :
    components (join p q) = components p ++ names q := by
  have hchars : p.toList ≠ [] := fun h ↦ hp (String.toList_inj.mp h)
  rw [join, if_neg (by simp [hq])]
  split_ifs with hslash
  · -- the slash at the end of the first path separates the two
    obtain ⟨r, rfl⟩ : ∃ r : String, p = r ++ "/" := by
      refine ⟨String.ofList p.toList.dropLast, ?_⟩
      rw [← String.toList_inj, String.toList_append, String.toList_ofList]
      exact (dropLast_append_getLast? '/' (hslash.resolve_left hchars)).symm
    rcases eq_or_ne r "" with rfl | hr
    · have hroot : components "/" = ["/"] := components_slash ""
      rw [String.empty_append, components_slash, hroot, singleton_append]
    · have hempty : names "" = [] := rfl
      rw [components_append hr, ← String.append_empty (s := r ++ "/"), components_append hr, hempty,
        append_nil]
  · exact components_append hp q

end Path

/-- What a file system reports of a file. -/
structure Metadata where
  isDir : Bool
  isFile : Bool
  len : ℕ
  /-- The time of the last change, unless it is unknown or before the epoch. -/
  modified : Option SystemTime
  deriving DecidableEq

/-- A file system while a request is served. -/
structure FileSystem where
  /-- The path of the same file without links, dots and parents, if there is such a file. -/
  canonicalize : OsString → Option OsString
  metadata : OsString → Option Metadata
  /-- What can be opened, and of that the contents, if they can be read. -/
  openFile : OsString → Option (Option (List UInt8))

end Hypershunt
