import Hypershunt.Cert.Publication

/-!
# The directory of a certificate

A renewal stores its certificate and key with `atomic_write_cert_dir` (`cert/acme.rs`): both files
are written to a staging directory, the live directory is moved aside, and the staging directory
takes its place. `load_cert_and_key` (`cert/tls.rs`) reads the two files by their paths, one after
the other.

The live directory is a complete pair of one call at any time. A load is another matter: the
staging directory of a later call may take the place of the live one between its two reads, and then
it gets the certificate of one call and the key of another. `sameCall_iff` says that it takes just
that.

Every operation on the file system is a step of its own and may fail, and a call may be abandoned
before any of them, as when the server is killed. The calls on the directory are sequential.
-/

namespace Hypershunt

open List Option

namespace Cert

open Function

abbrev Pem := List UInt8

/-! ## Directories -/

/-- A file, with the call that wrote it. -/
structure PemFile where
  call : ℕ
  pem : Pem
  deriving DecidableEq

structure PemFolder where
  cert : Option PemFile
  key : Option PemFile
  deriving DecidableEq

/-- The directory, and its siblings with the suffixes `.new` and `.old`. -/
inductive Place
  | live
  | staging
  | old
  deriving DecidableEq

/-- How an operation ends. A failure may leave anything, but a failed rename or creation nothing. -/
inductive Outcome
  | done
  | failed (left : Option PemFolder)
  deriving DecidableEq

abbrev Disk := Place → Option PemFolder

namespace Disk

/-- The operations return the disk after them, and whether they succeeded. -/
def removeDirAll (d : Disk) (p : Place) : Outcome → Disk × Bool
  | .done => (update d p none, true)
  | .failed left => (update d p left, false)

def createDirAll (d : Disk) (p : Place) : Outcome → Disk × Bool
  | .done => (update d p (some ((d p).getD ⟨none, none⟩)), true)
  | .failed _ => (d, false)

def writeFile (d : Disk) (p : Place) (put : PemFolder → PemFolder) : Outcome → Disk × Bool
  | .done => match d p with
    | some folder => (update d p (some (put folder)), true)
    | none => (d, false)
  | .failed left => (update d p left, false)

/-- A directory is not moved over one with something in it. -/
def rename (d : Disk) (source target : Place) : Outcome → Disk × Bool
  | .done => match d source, d target with
    | some folder, none | some folder, some ⟨none, none⟩ =>
      (update (update d target (some folder)) source none, true)
    | _, _ => (d, false)
  | .failed _ => (d, false)

end Disk

/-! ## Writing -/

/-- The operations of a call, in order. -/
inductive WriteStage
  | clearStaging
  | createStaging
  | writeCert
  | writeKey
  | checkLive
  | clearOld
  | moveAside
  | install
  | cleanUp
  deriving DecidableEq

structure Write where
  call : ℕ
  certPem : Pem
  keyPem : Pem
  /-- What it does next. -/
  next : WriteStage
  deriving DecidableEq

/-- What a load read: the parsed files, and how many pairs were installed at either read. -/
structure Loaded where
  certFile : PemFile
  keyFile : PemFile
  chain : List Der
  key : Der
  installsAtCert : ℕ
  installsAtKey : ℕ
  deriving DecidableEq

inductive Load
  | certRead (file : PemFile) (chain : List Der) (installs : ℕ)
  | failed
  | loaded (result : Loaded)
  deriving DecidableEq

/-- The directory, the call that is writing it, and the loads that read it. `calls` and `installed`,
the calls whose staging directory took the place of the live one, are history. -/
structure CertDir where
  disk : Disk
  writer : Option Write
  calls : List (Pem × Pem)
  installed : List ℕ
  loads : HashMap ℕ Load

namespace CertDir

def init : CertDir := ⟨fun _ ↦ none, none, [], [], ∅⟩

def goOn (s : CertDir) (w : Write) (disk : Disk) (next : WriteStage) : CertDir :=
  { s with disk, writer := some { w with next } }

/-- The call returns. -/
def finish (s : CertDir) (disk : Disk) : CertDir := { s with disk, writer := none }

/-- Go on after an operation that succeeded, return its error otherwise. -/
def perform (s : CertDir) (w : Write) (op : Disk × Bool) (next : WriteStage) : CertDir :=
  if op.2 then s.goOn w op.1 next else s.finish op.1

/-- The next operation of `atomic_write_cert_dir`. -/
def atomicWriteCertDir (s : CertDir) (w : Write) (outcome : Outcome) : CertDir :=
  match w.next with
  | .clearStaging => s.goOn w (s.disk.removeDirAll .staging outcome).1 .createStaging
  | .createStaging => s.perform w (s.disk.createDirAll .staging outcome) .writeCert
  | .writeCert => s.perform w (s.disk.writeFile .staging
      (fun folder ↦ { folder with cert := some ⟨w.call, w.certPem⟩ }) outcome) .writeKey
  | .writeKey => s.perform w (s.disk.writeFile .staging
      (fun folder ↦ { folder with key := some ⟨w.call, w.keyPem⟩ }) outcome) .checkLive
  -- a directory whose metadata cannot be read does not exist
  | .checkLive => s.goOn w s.disk
      (if outcome = .done ∧ (s.disk .live).isSome then .clearOld else .install)
  | .clearOld => s.goOn w (s.disk.removeDirAll .old outcome).1 .moveAside
  | .moveAside => s.perform w (s.disk.rename .live .old outcome) .install
  | .install =>
    let op := s.disk.rename .staging .live outcome
    { s.perform w op .cleanUp with
      installed := if op.2 then s.installed ++ [w.call] else s.installed }
  | .cleanUp => s.finish (s.disk.removeDirAll .old outcome).1

def setLoad (s : CertDir) (l : ℕ) (load : Load) : CertDir :=
  { s with loads := s.loads.insert l load }

end CertDir

inductive DirAction
  /-- A call begins. -/
  | write (certPem keyPem : Pem)
  | operate (outcome : Outcome)
  | abandon
  /-- The two reads of a load; a file may fail to open. -/
  | readCert (l : ℕ) (opens : Bool)
  | readKey (l : ℕ) (opens : Bool)

section Reading

-- the PEM reader: the certificates of a file, and its first private key
variable (certs : Pem → Option (List Der)) (privateKey : Pem → Option Der)

/-- The first half of `load_cert_and_key`. -/
def readCert (s : CertDir) (opens : Bool) : Load :=
  match (s.disk .live).bind (·.cert), opens with
  | some file, true => match certs file.pem with
    | some (leaf :: chain) => .certRead file (leaf :: chain) s.installed.length
    | some [] | none => .failed
  | _, _ => .failed

/-- The second half. -/
def readKey (s : CertDir) (certFile : PemFile) (chain : List Der) (installs : ℕ) (opens : Bool) :
    Load :=
  match (s.disk .live).bind (·.key), opens with
  | some file, true => match privateKey file.pem with
    | some key => .loaded ⟨certFile, file, chain, key, installs, s.installed.length⟩
    | none => .failed
  | _, _ => .failed

def dirStep (s : CertDir) : DirAction → Option CertDir
  | .write certPem keyPem =>
    if s.writer.isSome then none
    else some { s with
      writer := some ⟨s.calls.length, certPem, keyPem, .clearStaging⟩
      calls := s.calls ++ [(certPem, keyPem)] }
  | .operate outcome => s.writer.map fun w ↦ s.atomicWriteCertDir w outcome
  | .abandon => s.writer.map fun _ ↦ s.finish s.disk
  | .readCert l opens =>
    if (s.loads.lookup l).isSome then none else some (s.setLoad l (readCert certs s opens))
  | .readKey l opens => match s.loads.lookup l with
    | some (.certRead file chain installs) =>
      some (s.setLoad l (readKey privateKey s file chain installs opens))
    | _ => none

end Reading

/-! ## What a step does -/

variable {certs : Pem → Option (List Der)} {privateKey : Pem → Option Der} {s t : CertDir}
  {a : DirAction} {w : Write} {calls calls' : List (Pem × Pem)} {installed installed' : List ℕ}
  {part : Pem × Pem → Pem}

namespace Disk

variable {d d' : Disk} {p q : Place} {outcome : Outcome} {put : PemFolder → PemFolder}

theorem removeDirAll_of_ne (h : q ≠ p) : (d.removeDirAll p outcome).1 q = d q := by
  rcases outcome with _ | left
  · exact update_of_ne h _ _
  · exact update_of_ne h _ _

theorem createDirAll_of_ne (h : q ≠ p) : (d.createDirAll p outcome).1 q = d q := by
  rcases outcome with _ | left
  · exact update_of_ne h _ _
  · rfl

theorem writeFile_of_ne (h : q ≠ p) : (d.writeFile p put outcome).1 q = d q := by
  rcases outcome with _ | left
  · rw [writeFile]
    split
    · exact update_of_ne h _ _
    · rfl
  · exact update_of_ne h _ _

theorem writeFile_eq_true (h : (d.writeFile p put outcome).2 = true) :
    ∃ folder, d p = some folder ∧ (d.writeFile p put outcome).1 p = some (put folder) := by
  rcases outcome with _ | left
  · rw [writeFile] at h ⊢
    split at h
    case h_1 folder hp => exact ⟨folder, hp, update_self _ _ _⟩
    case h_2 => cases h
  · cases h

theorem rename_eq_true (h : (d.rename p q outcome).2 = true) :
    (d.rename p q outcome).1 = update (update d q (d p)) p none := by
  rcases outcome with _ | left
  · rw [rename] at h ⊢
    split at h
    case h_1 folder hp hq => rw [hp]
    case h_2 folder hp hq => rw [hp]
    case h_3 => cases h
  · cases h

theorem rename_eq_false (h : (d.rename p q outcome).2 = false) : (d.rename p q outcome).1 = d := by
  rcases outcome with _ | left
  · rw [rename] at h ⊢
    split at h
    case h_1 => cases h
    case h_2 => cases h
    case h_3 => rfl
  · rfl

end Disk

namespace Write

/-- The folder a call puts together. -/
def folder (w : Write) : PemFolder := ⟨some ⟨w.call, w.certPem⟩, some ⟨w.call, w.keyPem⟩⟩

/-- How far the staging directory is. -/
def Staged (w : Write) (staging : Option PemFolder) : Prop :=
  match w.next with
  | .writeKey => ∃ folder, staging = some folder ∧ folder.cert = some ⟨w.call, w.certPem⟩
  | .checkLive | .clearOld | .moveAside | .install => staging = some w.folder
  | .clearStaging | .createStaging | .writeCert | .cleanUp => True

end Write

/-- The shapes of an operation: what it does to the live directory, and what is staged after it. -/
inductive Operated (s : CertDir) (w : Write) : CertDir → Prop
  | goOn {disk : Disk} {next : WriteStage} (hnext : next ≠ .cleanUp) (hw : w.next ≠ .cleanUp)
      (hlive : disk .live = s.disk .live ∨ disk .live = none)
      (hstaged : { w with next }.Staged (disk .staging)) : Operated s w (s.goOn w disk next)
  | finish {disk : Disk} (hlive : disk .live = s.disk .live ∨ disk .live = none) :
    Operated s w (s.finish disk)
  | install {disk : Disk} (hw : w.next ≠ .cleanUp) (hlive : disk .live = some w.folder) :
    Operated s w { s.goOn w disk .cleanUp with installed := s.installed ++ [w.call] }

theorem Operated.perform {op : Disk × Bool} {next : WriteStage} (hnext : next ≠ .cleanUp)
    (hw : w.next ≠ .cleanUp) (hlive : op.1 .live = s.disk .live ∨ op.1 .live = none)
    (hstaged : op.2 = true → { w with next }.Staged (op.1 .staging)) :
    Operated s w (s.perform w op next) := by
  rw [CertDir.perform]
  split_ifs with hop
  · exact .goOn hnext hw hlive (hstaged hop)
  · exact .finish hlive

theorem operated_atomicWriteCertDir (hstaged : w.Staged (s.disk .staging)) (outcome : Outcome) :
    Operated s w (s.atomicWriteCertDir w outcome) := by
  obtain ⟨call, certPem, keyPem, next⟩ := w
  rcases next with _ | _ | _ | _ | _ | _ | _ | _ | _
  case clearStaging =>
    exact .goOn nofun nofun (Or.inl (Disk.removeDirAll_of_ne nofun)) trivial
  case createStaging =>
    exact .perform nofun nofun (Or.inl (Disk.createDirAll_of_ne nofun)) fun _ ↦ trivial
  case writeCert =>
    refine .perform nofun nofun (Or.inl (Disk.writeFile_of_ne nofun)) fun hop ↦ ?_
    obtain ⟨folder, -, hfolder⟩ := Disk.writeFile_eq_true hop
    exact ⟨_, hfolder, rfl⟩
  case writeKey =>
    refine .perform nofun nofun (Or.inl (Disk.writeFile_of_ne nofun)) fun hop ↦ ?_
    obtain ⟨folder, hbefore, hfolder⟩ := Disk.writeFile_eq_true hop
    obtain ⟨folder', hstaging, hcert⟩ := hstaged
    obtain rfl := some.inj (hbefore.symm.trans hstaging)
    simp only [Write.Staged, Write.folder, hfolder, hcert]
  case checkLive =>
    simp only [CertDir.atomicWriteCertDir]
    split_ifs
    · exact .goOn nofun nofun (Or.inl rfl) hstaged
    · exact .goOn nofun nofun (Or.inl rfl) hstaged
  case clearOld =>
    have hstaging : (s.disk.removeDirAll .old outcome).1 .staging = s.disk .staging :=
      Disk.removeDirAll_of_ne nofun
    refine .goOn nofun nofun (Or.inl (Disk.removeDirAll_of_ne nofun)) ?_
    rw [hstaging]
    exact hstaged
  case moveAside =>
    have hrename : ∀ op, op = s.disk.rename .live .old outcome →
        (op.1 .live = s.disk .live ∨ op.1 .live = none) ∧
          op.1 .staging = s.disk .staging := by
      rintro op rfl
      rcases hop : (s.disk.rename .live .old outcome).2 with _ | _
      · rw [Disk.rename_eq_false hop]
        exact ⟨Or.inl rfl, rfl⟩
      · rw [Disk.rename_eq_true hop]
        exact ⟨Or.inr rfl, rfl⟩
    obtain ⟨hlive, hstaging⟩ := hrename _ rfl
    refine .perform nofun nofun hlive fun _ ↦ ?_
    rw [hstaging]
    exact hstaged
  case install =>
    simp only [CertDir.atomicWriteCertDir, CertDir.perform]
    rcases hop : (s.disk.rename .staging .live outcome).2 with _ | _
    · rw [Disk.rename_eq_false hop]
      exact .finish (Or.inl rfl)
    · rw [Disk.rename_eq_true hop]
      exact .install nofun hstaged
  case cleanUp =>
    exact .finish (Or.inl (Disk.removeDirAll_of_ne nofun))

/-! ## The invariant -/

/-- A load has seen a file: the whole text of its call, in the `n`-th pair that was installed. -/
structure Saw (calls : List (Pem × Pem)) (installed : List ℕ) (part : Pem × Pem → Pem)
    (file : PemFile) (n : ℕ) : Prop where
  written : (calls[file.call]?).map part = some file.pem
  pos : 0 < n
  installed : installed[n - 1]? = some file.call

theorem Saw.mono {file : PemFile} {n : ℕ} (h : Saw calls installed part file n)
    (hcalls : calls <+: calls') (hinstalled : installed <+: installed') :
    Saw calls' installed' part file n := by
  obtain ⟨calls', rfl⟩ := hcalls
  obtain ⟨installed', rfl⟩ := hinstalled
  refine ⟨?_, h.pos, ?_⟩
  · obtain ⟨pems, hpems, hpem⟩ := map_eq_some_iff.mp h.written
    rw [getElem?_append_left (List.getElem?_eq_some_iff.mp hpems).1, hpems, map_some, hpem]
  · rw [getElem?_append_left (List.getElem?_eq_some_iff.mp h.installed).1, h.installed]

/-- What a load holds. -/
def Load.Seen (certs : Pem → Option (List Der)) (privateKey : Pem → Option Der)
    (calls : List (Pem × Pem)) (installed : List ℕ) : Load → Prop
  | .certRead file chain n => Saw calls installed Prod.fst file n ∧ certs file.pem = some chain
  | .failed => True
  | .loaded r => (Saw calls installed Prod.fst r.certFile r.installsAtCert ∧
      certs r.certFile.pem = some r.chain) ∧
    Saw calls installed Prod.snd r.keyFile r.installsAtKey ∧
      privateKey r.keyFile.pem = some r.key

theorem Load.Seen.mono {load : Load} (h : load.Seen certs privateKey calls installed)
    (hcalls : calls <+: calls') (hinstalled : installed <+: installed') :
    load.Seen certs privateKey calls' installed' := by
  rcases load with ⟨file, chain, n⟩ | _ | r
  · exact ⟨h.1.mono hcalls hinstalled, h.2⟩
  · trivial
  · exact ⟨⟨h.1.1.mono hcalls hinstalled, h.1.2⟩, h.2.1.mono hcalls hinstalled, h.2.2⟩

structure Intact (certs : Pem → Option (List Der)) (privateKey : Pem → Option Der) (s : CertDir) :
    Prop where
  live : ∀ folder, s.disk .live = some folder → ∃ call certPem keyPem,
    s.calls[call]? = some (certPem, keyPem) ∧ s.installed.getLast? = some call ∧
      folder = ⟨some ⟨call, certPem⟩, some ⟨call, keyPem⟩⟩
  writing : ∀ w, s.writer = some w → s.calls[w.call]? = some (w.certPem, w.keyPem) ∧
    w.Staged (s.disk .staging) ∧ (w.next ≠ .cleanUp → ∀ c ∈ s.installed, c < w.call)
  bounded : ∀ c ∈ s.installed, c < s.calls.length
  increasing : s.installed.Pairwise (· < ·)
  loads : ∀ l load, s.loads.lookup l = some load → load.Seen certs privateKey s.calls s.installed

theorem intact_init : Intact certs privateKey .init := by
  refine ⟨nofun, nofun, nofun, List.Pairwise.nil, fun l load hl ↦ ?_⟩
  simp [CertDir.init] at hl

namespace Intact

variable (h : Intact certs privateKey s)

include h

theorem update {disk : Disk} {writer : Option Write}
    (hlive : disk .live = s.disk .live ∨ disk .live = none)
    (hwriting : ∀ w, writer = some w → s.calls[w.call]? = some (w.certPem, w.keyPem) ∧
      w.Staged (disk .staging) ∧ (w.next ≠ .cleanUp → ∀ c ∈ s.installed, c < w.call)) :
    Intact certs privateKey { s with disk, writer } where
  live folder hfolder := by
    rcases hlive with hlive | hlive
    · exact h.live folder (hlive.symm.trans hfolder)
    · cases hlive.symm.trans hfolder
  writing := hwriting
  bounded := h.bounded
  increasing := h.increasing
  loads := h.loads

theorem install (hw : s.writer = some w) (hnext : w.next ≠ .cleanUp) {disk : Disk}
    (hlive : disk .live = some w.folder) :
    Intact certs privateKey
      { s.goOn w disk .cleanUp with installed := s.installed ++ [w.call] } := by
  obtain ⟨hcall, -, hlater⟩ := h.writing w hw
  refine ⟨fun folder hfolder ↦ ?_, fun w' hw' ↦ ?_, fun c hc ↦ ?_, ?_, fun l load hl ↦ ?_⟩
  · obtain rfl := some.inj (hlive.symm.trans hfolder)
    exact ⟨w.call, w.certPem, w.keyPem, hcall, getLast?_concat, rfl⟩
  · obtain rfl := some.inj hw'
    exact ⟨hcall, trivial, fun hne ↦ absurd rfl hne⟩
  · rcases List.mem_append.mp hc with hc | hc
    · exact h.bounded c hc
    · rw [mem_singleton.mp hc]
      exact (List.getElem?_eq_some_iff.mp hcall).1
  · refine pairwise_append.mpr ⟨h.increasing, pairwise_singleton _ _, ?_⟩
    intro c hc c' hc'
    rw [mem_singleton.mp hc']
    exact hlater hnext c hc
  · exact (h.loads l load hl).mono prefix_rfl (prefix_append _ _)

theorem operate (hw : s.writer = some w) (outcome : Outcome) :
    Intact certs privateKey (s.atomicWriteCertDir w outcome) := by
  obtain ⟨hcall, hstaged, hlater⟩ := h.writing w hw
  have hop := operated_atomicWriteCertDir hstaged outcome
  generalize s.atomicWriteCertDir w outcome = t at hop ⊢
  rcases hop with ⟨-, hnext, hlive, hstaged'⟩ | hlive | ⟨hnext, hlive⟩
  · refine h.update hlive fun w' hw' ↦ ?_
    obtain rfl := some.inj hw'
    exact ⟨hcall, hstaged', fun _ ↦ hlater hnext⟩
  · exact h.update hlive nofun
  · exact h.install hw hnext hlive

theorem write (certPem keyPem : Pem) :
    Intact certs privateKey { s with
      writer := some ⟨s.calls.length, certPem, keyPem, .clearStaging⟩
      calls := s.calls ++ [(certPem, keyPem)] } := by
  refine ⟨fun folder hfolder ↦ ?_, fun w hw ↦ ?_, fun c hc ↦ ?_, h.increasing, fun l load hl ↦ ?_⟩
  · obtain ⟨call, certPem', keyPem', hcall, hlast, hpair⟩ := h.live folder hfolder
    refine ⟨call, certPem', keyPem', ?_, hlast, hpair⟩
    rw [getElem?_append_left (List.getElem?_eq_some_iff.mp hcall).1, hcall]
  · obtain rfl := some.inj hw
    exact ⟨getElem?_concat_length, trivial, fun _ ↦ h.bounded⟩
  · rw [length_append]
    exact Nat.lt_add_right _ (h.bounded c hc)
  · exact (h.loads l load hl).mono (prefix_append _ _) prefix_rfl

theorem setLoad {l : ℕ} {load : Load}
    (hload : load.Seen certs privateKey s.calls s.installed) :
    Intact certs privateKey (s.setLoad l load) where
  live := h.live
  writing := h.writing
  bounded := h.bounded
  increasing := h.increasing
  loads l' load' hl' := by
    rcases HashMap.of_lookup_insert hl' with ⟨-, rfl⟩ | hl'
    · exact hload
    · exact h.loads l' load' hl'

/-- What a read finds in the live directory was written by the call that was installed last. -/
theorem saw {file : PemFile} {get : PemFolder → Option PemFile}
    (hget : ∀ call certPem keyPem,
      get ⟨some ⟨call, certPem⟩, some ⟨call, keyPem⟩⟩ = some ⟨call, part (certPem, keyPem)⟩)
    (hfile : (s.disk .live).bind get = some file) :
    Saw s.calls s.installed part file s.installed.length := by
  obtain ⟨folder, hfolder, hfile⟩ := bind_eq_some_iff.mp hfile
  obtain ⟨call, certPem, keyPem, hcall, hlast, rfl⟩ := h.live folder hfolder
  rw [hget, some.injEq] at hfile
  subst hfile
  refine ⟨by rw [hcall]; rfl, ?_, by rw [← hlast, getLast?_eq_getElem?]⟩
  refine length_pos_of_mem (mem_of_getLast? hlast)

theorem seen_readCert (opens : Bool) :
    (readCert certs s opens).Seen certs privateKey s.calls s.installed := by
  unfold readCert
  split
  case h_1 file hfile =>
    split
    case h_1 leaf chain hchain => exact ⟨h.saw (fun _ _ _ ↦ rfl) hfile, hchain⟩
    case h_2 => trivial
    case h_3 => trivial
  case h_2 => trivial

theorem seen_readKey {certFile : PemFile} {chain : List Der} {n : ℕ}
    (hcert : (Load.certRead certFile chain n).Seen certs privateKey s.calls s.installed)
    (opens : Bool) :
    (readKey privateKey s certFile chain n opens).Seen certs privateKey s.calls s.installed := by
  unfold readKey
  split
  case h_1 file hfile =>
    split
    case h_1 key hkey => exact ⟨hcert, h.saw (fun _ _ _ ↦ rfl) hfile, hkey⟩
    case h_2 => trivial
  case h_2 => trivial

theorem step (hstep : dirStep certs privateKey s a = some t) :
    Intact certs privateKey t := by
  rcases a with ⟨certPem, keyPem⟩ | outcome | _ | ⟨l, opens⟩ | ⟨l, opens⟩
  case write =>
    simp only [dirStep, ite_none_left_eq_some, some.injEq] at hstep
    obtain ⟨-, rfl⟩ := hstep
    exact h.write certPem keyPem
  case operate =>
    obtain ⟨w, hw, rfl⟩ := map_eq_some_iff.mp hstep
    exact h.operate hw outcome
  case abandon =>
    obtain ⟨w, -, rfl⟩ := map_eq_some_iff.mp hstep
    exact h.update (Or.inl rfl) nofun
  case readCert =>
    simp only [dirStep, ite_none_left_eq_some, some.injEq] at hstep
    obtain ⟨-, rfl⟩ := hstep
    exact h.setLoad (h.seen_readCert opens)
  case readKey =>
    simp only [dirStep] at hstep
    split at hstep
    case h_1 file chain installs hl =>
      obtain rfl := some.inj hstep
      exact h.setLoad (h.seen_readKey (h.loads l _ hl) opens)
    case h_2 => cases hstep

end Intact

/-! ## Generations -/

/-- The certificate chain and the key were given to one call. -/
def Loaded.SameCall (certs : Pem → Option (List Der)) (privateKey : Pem → Option Der)
    (calls : List (Pem × Pem)) (r : Loaded) : Prop :=
  ∃ call certPem keyPem, calls[call]? = some (certPem, keyPem) ∧ r.certFile = ⟨call, certPem⟩ ∧
    r.keyFile = ⟨call, keyPem⟩ ∧ certs certPem = some r.chain ∧ privateKey keyPem = some r.key

/-- **When a load mixes two certificates**: exactly if a staging directory took the place of the
live one between its two reads. -/
theorem sameCall_iff {as : List DirAction} (h : run (dirStep certs privateKey) .init as = some t)
    {l : ℕ} {r : Loaded} (hl : t.loads.lookup l = some (.loaded r)) :
    r.SameCall certs privateKey t.calls ↔ r.installsAtCert = r.installsAtKey := by
  have hintact : Intact certs privateKey t :=
    run_induction intact_init (fun _ _ _ hs hstep ↦ hs.step hstep) h
  obtain ⟨⟨hcert, hchain⟩, hkey, hkeyPem⟩ := hintact.loads l _ hl
  have hnodup : t.installed.Nodup := hintact.increasing.imp Nat.ne_of_lt
  constructor
  · rintro ⟨call, certPem, keyPem, -, hcertFile, hkeyFile, -⟩
    have hsame : t.installed[r.installsAtCert - 1]? = t.installed[r.installsAtKey - 1]? := by
      rw [hcert.installed, hkey.installed, hcertFile, hkeyFile]
    have hindex :=
      (getElem?_inj (List.getElem?_eq_some_iff.mp hcert.installed).1 hnodup).mp hsame
    have hpos := hcert.pos
    have hpos' := hkey.pos
    omega
  · intro heq
    obtain ⟨⟨call, certPem⟩, ⟨call', keyPem⟩, chain, key, n, n'⟩ := r
    obtain rfl : n = n' := heq
    obtain rfl : call = call' := some.inj (hcert.installed.symm.trans hkey.installed)
    obtain ⟨⟨certPem', keyPem'⟩, hpems, rfl⟩ := map_eq_some_iff.mp hcert.written
    have hkeyWritten : (t.calls[call]?).map Prod.snd = some keyPem := hkey.written
    rw [hpems, map_some, some.injEq] at hkeyWritten
    subst hkeyWritten
    exact ⟨call, certPem', keyPem', hpems, rfl, rfl, hchain, hkeyPem⟩

/-- A call runs from end to end. -/
private def writeAll (certPem keyPem : Pem) (operations : ℕ) : List DirAction :=
  .write certPem keyPem :: List.replicate operations (.operate .done)

/-- A reader of PEM files that takes a file for its only certificate and for its key. -/
private def plainCerts (pem : Pem) : Option (List Der) := some [pem]

private def plainKey (pem : Pem) : Option Der := some pem

/-- A load between two calls. -/
theorem sameCall_between_writes :
    ∃ t r, run (dirStep plainCerts plainKey) .init
      (writeAll [1] [2] 7 ++ [.readCert 0 true, .readKey 0 true] ++ writeAll [3] [4] 9) = some t ∧
      t.loads.lookup 0 = some (.loaded r) ∧ r.SameCall plainCerts plainKey t.calls := by
  have hrun : ((run (dirStep plainCerts plainKey) .init
      (writeAll [1] [2] 7 ++ [.readCert 0 true, .readKey 0 true] ++ writeAll [3] [4] 9)).bind
        fun t ↦ t.loads.lookup 0) =
      some (.loaded ⟨⟨0, [1]⟩, ⟨0, [2]⟩, [[1]], [2], 1, 1⟩) := by
    decide +kernel
  obtain ⟨t, ht, hload⟩ := bind_eq_some_iff.mp hrun
  exact ⟨t, _, ht, hload, (sameCall_iff ht hload).mpr rfl⟩

/-- A renewal between the two reads of a load: the old certificate comes with the new key. -/
theorem load_mixes_calls :
    ∃ t r, run (dirStep plainCerts plainKey) .init
      (writeAll [1] [2] 7 ++ [.readCert 0 true] ++ writeAll [3] [4] 9 ++ [.readKey 0 true]) =
        some t ∧
      t.loads.lookup 0 = some (.loaded r) ∧ r.chain = [[1]] ∧ r.key = [4] ∧
      ¬r.SameCall plainCerts plainKey t.calls := by
  have hrun : ((run (dirStep plainCerts plainKey) .init
      (writeAll [1] [2] 7 ++ [.readCert 0 true] ++ writeAll [3] [4] 9 ++ [.readKey 0 true])).bind
        fun t ↦ t.loads.lookup 0) =
      some (.loaded ⟨⟨0, [1]⟩, ⟨1, [4]⟩, [[1]], [4], 1, 2⟩) := by
    decide +kernel
  obtain ⟨t, ht, hload⟩ := bind_eq_some_iff.mp hrun
  refine ⟨t, _, ht, hload, rfl, rfl, ?_⟩
  rintro ⟨call, certPem, keyPem, -, hcert, hkey, -⟩
  cases hcert
  cases hkey

end Cert

end Hypershunt
