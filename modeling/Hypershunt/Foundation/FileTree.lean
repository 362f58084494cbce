import Hypershunt.Foundation.Path

/-!
# File trees with symbolic links

A file system as a tree of names. Each place of the tree has a file, a directory, a symbolic link
or something else; places are lists of names from the root on. Below everything but a directory
there is nothing.

A path is looked up as the kernel does it: name by name, where a dot stays, two dots go up, and a
link is replaced by its target, at most forty times. The place at which this ends is never a link,
and no link is on the way to it from the root. So its plain path, which is the canonical path of
whatever led there, leads to it again.
-/

namespace Hypershunt

open List Option Text Hypershunt.Path

/-- What is at a place of the tree. -/
inductive Node
  | file (contents : List UInt8) (readable : Bool) (modified : Option SystemTime)
  | dir (len : ℕ) (modified : Option SystemTime)
  | link (target : OsString)
  /-- Devices, sockets and pipes. -/
  | special (opened : Option (Option (List UInt8)))
  deriving DecidableEq

open Node

namespace Node

def isDir : Node → Bool
  | .dir _ _ => true
  | _ => false

def isLink : Node → Bool
  | .link _ => true
  | _ => false

def metadata : Node → Metadata
  | .file contents _ modified => ⟨false, true, contents.length, modified⟩
  | .dir len modified => ⟨true, false, len, modified⟩
  | .link _ | .special _ => ⟨false, false, 0, none⟩

/-- A directory can be opened, but not read. -/
def opened : Node → Option (Option (List UInt8))
  | .file contents readable _ => if readable then some (some contents) else none
  | .dir _ _ => some none
  | .link _ => none
  | .special opened => opened

end Node

/-- What an entry of a directory may be called. -/
structure IsName (n : OsString) : Prop where
  ne_empty : n ≠ ""
  ne_dot : n ≠ "."
  ne_parent : n ≠ ".."
  slash : '/' ∉ n.toList
  nul : '\x00' ∉ n.toList

structure FileTree where
  node : List OsString → Option Node
  /-- The working directory. -/
  cwd : List OsString
  root_isDir : (node []).any isDir = true
  cwd_isDir : (node cwd).any isDir = true
  /-- Entries are in directories. -/
  parent_isDir : ∀ p n, (node (p ++ [n])).isSome = true → (node p).any isDir = true
  isName : ∀ p n, (node (p ++ [n])).isSome = true → IsName n

namespace FileTree

/-- What becomes of a path up to the first link. -/
inductive Advance
  | arrived (p : List OsString)
  | missing
  | follow (cur : List OsString) (target : OsString) (rest : List OsString)

/-- From a place along some components. Only a directory has anything below it, or beside it. -/
def advance (t : FileTree) : List OsString → List OsString → Advance
  | cur, [] => .arrived cur
  | cur, c :: rest =>
    if (t.node cur).any isDir then
      if c = "" ∨ c = "." then advance t cur rest
      else if c = ".." then advance t cur.dropLast rest
      else
        match t.node (cur ++ [c]) with
        | none => .missing
        | some (.link target) => .follow cur target rest
        | some _ => advance t (cur ++ [c]) rest
    else .missing

/-- The same, through as many links. -/
def walk (t : FileTree) : ℕ → List OsString → List OsString → Option (List OsString)
  | links, cur, todo =>
    match advance t cur todo with
    | .arrived p => some p
    | .missing => none
    | .follow cur target rest =>
      match links with
      | 0 => none
      | links + 1 =>
        if target = "" then none
        else walk t links (if isAbsolute target then [] else cur)
          (split '/' target ++ rest)

def maxLinks : ℕ := 40

/-- The place a path leads to. -/
def lookup (t : FileTree) (p : OsString) : Option (List OsString) :=
  if p = "" ∨ '\x00' ∈ p.toList then none
  else walk t maxLinks (if isAbsolute p then [] else t.cwd) (split '/' p)

/-- The plain path of a place. -/
def render (p : List OsString) : OsString := "/" ++ "/".intercalate p

def fileSystem (t : FileTree) : FileSystem where
  canonicalize p := (t.lookup p).map render
  metadata p := ((t.lookup p).bind t.node).map metadata
  openFile p := ((t.lookup p).bind t.node).bind opened

variable {t : FileTree} {p q cur : List OsString}

/-! ## Where a path ends -/

/-- There is something at the place, and it is not a link. -/
def Real (t : FileTree) (p : List OsString) : Prop :=
  ∃ node, t.node p = some node ∧ node.isLink = false

section

variable (h : (t.node p).any isDir = true)

include h

theorem exists_of_isDir :
    ∃ len modified, t.node p = some (.dir len modified) := by
  rcases hnode : t.node p with _ | node
  · rw [hnode] at h
    cases h
  · rw [hnode, any_some] at h
    cases node with
    | dir len modified => exact ⟨len, modified, rfl⟩
    | _ => cases h

theorem isSome_of_isDir : (t.node p).isSome = true := by
  obtain ⟨len, modified, hnode⟩ := exists_of_isDir h
  rw [hnode]
  rfl

theorem real_of_isDir : t.Real p := by
  obtain ⟨len, modified, hnode⟩ := exists_of_isDir h
  exact ⟨_, hnode, rfl⟩

theorem real_dropLast : t.Real p.dropLast := by
  rcases eq_nil_or_concat p with rfl | ⟨p, n, rfl⟩
  · exact real_of_isDir h
  · rw [concat_eq_append] at h ⊢
    rw [dropLast_concat]
    exact real_of_isDir (t.parent_isDir p n (isSome_of_isDir h))

end

/-- The place at which an advance stops. -/
def Advance.place : Advance → Option (List OsString)
  | .arrived p => some p
  | .missing => none
  | .follow cur _ _ => some cur

theorem real_of_advance {todo : List OsString} (hcur : t.Real cur)
    (h : (t.advance cur todo).place = some q) : t.Real q := by
  induction todo generalizing cur with
  | nil =>
    rw [advance, Advance.place, Option.some.injEq] at h
    exact h ▸ hcur
  | cons c todo ih =>
    rw [advance] at h
    by_cases hdir : (t.node cur).any isDir = true
    · rw [if_pos hdir] at h
      by_cases hdot : c = "" ∨ c = "."
      · rw [if_pos hdot] at h
        exact ih hcur h
      rw [if_neg hdot] at h
      by_cases hup : c = ".."
      · rw [if_pos hup] at h
        exact ih (real_dropLast hdir) h
      rw [if_neg hup] at h
      split at h
      · cases h
      · cases h
        exact hcur
      · rename_i node hlink hnode
        refine ih ⟨node, hnode, ?_⟩ h
        cases node with
        | link target => exact absurd rfl (hlink target)
        | _ => rfl
    · rw [if_neg hdir] at h
      cases h

theorem real_of_walk {links : ℕ} {todo : List OsString} (hcur : t.Real cur)
    (h : t.walk links cur todo = some q) : t.Real q := by
  induction links generalizing cur todo with
  | zero =>
    rw [walk] at h
    split at h
    · rename_i p hp
      cases h
      exact real_of_advance hcur (by rw [hp]; rfl)
    · cases h
    · cases h
  | succ links ih =>
    rw [walk] at h
    split at h
    · rename_i p hp
      cases h
      exact real_of_advance hcur (by rw [hp]; rfl)
    · cases h
    · rename_i cur' target rest hfollow
      rw [ite_none_left_eq_some] at h
      refine ih ?_ h.2
      split
      · exact real_of_isDir t.root_isDir
      · exact real_of_advance hcur (by rw [hfollow]; rfl)

/-- **A path does not lead to a link.** -/
theorem real_of_lookup {path : OsString} (h : t.lookup path = some q) : t.Real q := by
  rw [lookup, ite_none_left_eq_some] at h
  refine real_of_walk ?_ h.2
  split
  · exact real_of_isDir t.root_isDir
  · exact real_of_isDir t.cwd_isDir

/-! ## Plain paths -/

theorem isDir_of_append (n : OsString) (q : List OsString)
    (h : (t.node (p ++ n :: q)).isSome = true) : (t.node p).any isDir = true := by
  induction q using List.reverseRecOn with
  | nil => exact t.parent_isDir p n h
  | append_singleton q m ih =>
    exact ih (isSome_of_isDir (t.parent_isDir (p ++ n :: q) m (by simpa using h)))

theorem isName_of_mem (h : (t.node p).isSome = true) {n : OsString} (hn : n ∈ p) : IsName n := by
  obtain ⟨before, after, rfl⟩ := append_of_mem hn
  rcases after with _ | ⟨m, after⟩
  · exact t.isName before n h
  · have hdir : (t.node (before ++ [n])).any isDir = true :=
      isDir_of_append m after (by simpa using h)
    exact t.isName before n (isSome_of_isDir hdir)

theorem Real.isSome (h : t.Real p) : (t.node p).isSome = true := by
  obtain ⟨node, hnode, -⟩ := h
  rw [hnode]
  rfl

/-- The way to a place that is no link goes straight down. -/
theorem advance_of_real (h : t.Real (p ++ q)) : t.advance p q = .arrived (p ++ q) := by
  induction q generalizing p with
  | nil => rw [advance, append_nil]
  | cons n q ih =>
    have hsome := h.isSome
    have hname : IsName n := isName_of_mem hsome (by simp)
    have hdir := isDir_of_append n q hsome
    have hassoc : p ++ n :: q = p ++ [n] ++ q := by simp
    have hnext : t.Real (p ++ [n]) := by
      rcases q with _ | ⟨m, q⟩
      · exact h
      · rw [hassoc] at hsome
        exact real_of_isDir (isDir_of_append m q hsome)
    obtain ⟨node, hnode, hlink⟩ := hnext
    rw [advance, if_pos hdir, if_neg (not_or.mpr ⟨hname.ne_empty, hname.ne_dot⟩),
      if_neg hname.ne_parent, hnode, hassoc]
    cases node with
    | link target => cases hlink
    | _ => exact ih (hassoc ▸ h)

theorem split_render (hnames : ∀ n ∈ p, '/' ∉ n.toList) :
    split '/' (render p) = if p = [] then ["", ""] else "" :: p := by
  rcases p with _ | ⟨n, p⟩
  · decide
  · have hjoin : render (n :: p) = (String.singleton '/').intercalate ("" :: n :: p) := by
      rw [render, String.intercalate_cons_cons, String.empty_append]
      rfl
    rw [if_neg (cons_ne_nil n p), hjoin, split_intercalate (cons_ne_nil _ _)]
    exact forall_mem_cons.mpr ⟨by decide, hnames⟩

theorem isAbsolute_render (p : List OsString) : isAbsolute (render p) = true := by
  rw [isAbsolute, startsWith_iff, render, String.toList_append]
  exact prefix_append _ _

theorem nul_not_mem_render (hnames : ∀ n ∈ p, '\x00' ∉ n.toList) :
    '\x00' ∉ (render p).toList := by
  rw [render, String.toList_append, String.toList_intercalate, List.mem_append]
  rintro (hslash | hname)
  · exact absurd hslash (by decide)
  · rcases mem_of_mem_intercalate hname with hslash | ⟨cs, hcs, hname⟩
    · exact absurd hslash (by decide)
    · obtain ⟨n, hn, rfl⟩ := List.mem_map.mp hcs
      exact hnames n hn hname

/-- **The plain path of a place that is no link leads there.** -/
theorem lookup_render (h : t.Real p) : t.lookup (render p) = some p := by
  have hname : ∀ n ∈ p, IsName n := fun n hn ↦ isName_of_mem h.isSome hn
  have hempty : render p ≠ "" := by
    intro hempty
    have habsolute := isAbsolute_render p
    rw [hempty] at habsolute
    exact absurd habsolute (by decide)
  have hwalk : t.advance [] (split '/' (render p)) = .arrived p := by
    have hdown : t.advance [] p = .arrived p := advance_of_real (p := []) h
    rw [split_render fun n hn ↦ (hname n hn).slash]
    split_ifs with hroot
    · subst hroot
      simp only [advance, if_pos t.root_isDir, true_or, if_true]
    · rw [advance, if_pos t.root_isDir, if_pos (Or.inl rfl), hdown]
  rw [lookup, if_neg (not_or.mpr ⟨hempty, nul_not_mem_render fun n hn ↦ (hname n hn).nul⟩),
    if_pos (isAbsolute_render p), walk, hwalk]

theorem components_render (h : t.Real p) : components (render p) = "/" :: p := by
  have hname : ∀ n ∈ p, IsName n := fun n hn ↦ isName_of_mem h.isSome hn
  have hkeep : p.filter (fun segment ↦ segment ≠ "" && segment ≠ ".") = p := by
    rw [filter_eq_self]
    intro n hn
    simp [(hname n hn).ne_empty, (hname n hn).ne_dot]
  rw [components, if_pos (isAbsolute_render p), names, split_render fun n hn ↦ (hname n hn).slash]
  split_ifs with hroot
  · subst hroot
    rfl
  · rw [filter_cons_of_neg (by simp), hkeep]
    rfl

/-! ## The file system of a tree -/

/-- A canonical path is the plain path of a place that is no link. -/
theorem exists_of_canonicalize {path c : OsString} (h : t.fileSystem.canonicalize path = some c) :
    ∃ q, t.lookup path = some q ∧ t.Real q ∧ c = render q := by
  obtain ⟨q, hq, rfl⟩ := map_eq_some_iff.mp h
  exact ⟨q, hq, real_of_lookup hq, rfl⟩

/-! ## Trees of a few entries -/

instance (n : OsString) : Decidable (IsName n) :=
  decidable_of_iff (n ≠ "" ∧ n ≠ "." ∧ n ≠ ".." ∧ '/' ∉ n.toList ∧ '\x00' ∉ n.toList)
    ⟨fun ⟨h₁, h₂, h₃, h₄, h₅⟩ ↦ ⟨h₁, h₂, h₃, h₄, h₅⟩,
      fun ⟨h₁, h₂, h₃, h₄, h₅⟩ ↦ ⟨h₁, h₂, h₃, h₄, h₅⟩⟩

/-- Every entry but the root has a name and is in a directory. -/
def Closed (entries : List (List OsString × Node)) : Prop :=
  ∀ e ∈ entries, e.1 = [] ∨
    IsName (e.1.getLast?.getD "") ∧ (entries.lookup e.1.dropLast).any isDir = true

instance (entries : List (List OsString × Node)) : Decidable (Closed entries) :=
  inferInstanceAs (Decidable (∀ e ∈ entries, _))

theorem Closed.of_isSome {entries : List (List OsString × Node)} (h : Closed entries)
    {n : OsString} (hsome : (entries.lookup (p ++ [n])).isSome = true) :
    IsName n ∧ (entries.lookup p).any isDir = true := by
  obtain ⟨node, hnode⟩ := isSome_iff_exists.mp hsome
  obtain ⟨before, after, heq, -⟩ := lookup_eq_some_iff.mp hnode
  have hentry := h (p ++ [n], node) (heq ▸ mem_append_right _ mem_cons_self)
  rw [getLast?_concat, dropLast_concat] at hentry
  exact hentry.resolve_left (by simp)

/-- The tree of some entries, with the root as the working directory. -/
def ofEntries (entries : List (List OsString × Node))
    (hroot : (entries.lookup []).any isDir = true) (hclosed : Closed entries) :
    FileTree where
  node p := entries.lookup p
  cwd := []
  root_isDir := hroot
  cwd_isDir := hroot
  parent_isDir _ _ hsome := (hclosed.of_isSome hsome).2
  isName _ _ hsome := (hclosed.of_isSome hsome).1

end FileTree

end Hypershunt
