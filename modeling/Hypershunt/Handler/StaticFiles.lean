import Hypershunt.Foundation.FileTree
import Hypershunt.Listener.Service

/-!
# Static files

`handler/static_files.rs`: a request path is decoded, joined to the document root and resolved to a
file, which is then sent, as a whole or the range that was asked for.

The source does this in one function, `handle`. Here it is cut where the file is known: `locate`
finds it or refuses, `sendFile` answers with it. The metrics it counts are left out. The page that
lists a directory, the types of files by their names and the user database are parameters.
-/

namespace Hypershunt

open OsString

/-! ## More responses of the server itself -/

def response403 : Response := htmlResponse 403 "<h1>403 Forbidden</h1>"

def response500 : Response := htmlResponse 500 "<h1>500 Internal Server Error</h1>"

def noIndex403Body : String :=
  "<!doctype html><html lang=\"en\"><head><meta charset=\"utf-8\">" ++
  "<meta name=\"viewport\" content=\"width=device-width, initial-scale=1\">" ++
  "<title>403 - nothing to serve here</title><style>" ++
  "body\x7bfont-family:system-ui,sans-serif;max-width:40rem;margin:4rem auto;" ++
  "padding:0 1rem;line-height:1.5;color:#222\x7d" ++
  "h1\x7bfont-size:1.4rem\x7dcode\x7bbackground:#f3f3f3;padding:.1em .35em;" ++
  "border-radius:4px\x7dul\x7bpadding-left:1.2rem\x7d" ++
  "footer\x7bmargin-top:2rem;color:#888;font-size:.85rem\x7d" ++
  "</style></head><body><h1>403 &mdash; nothing to serve here</h1>" ++
  "<p>This location maps to a directory that has no index file, and " ++
  "directory listing is disabled.</p><p>To serve content, do one of:</p><ul>" ++
  "<li>add an <code>index.html</code> (or <code>index.htm</code>) to the directory;</li>" ++
  "<li>enable a listing with <code>directory-listing=#true</code>;</li>" ++
  "<li>redirect elsewhere with <code>fallback-redirect=\"&hellip;\"</code>.</li>" ++
  "</ul><footer>hypershunt</footer></body></html>"

/-- `response_403_no_index`: a directory without anything to send. -/
def response403NoIndex : Response := htmlResponse 403 noIndex403Body

def response416 (totalLen : ℕ) : Response :=
  ⟨416, [("content-range", "bytes */" ++ Nat.repr totalLen)],
    some (Text.bytes "<h1>416 Range Not Satisfiable</h1>")⟩

namespace StaticFiles

open Listener (RequestContext)

/-- An entry of the user database. -/
structure User where
  uid : ℕ
  dir : OsString

/-- The libraries the handler calls; `T` is the type of compiled templates. -/
structure Externals (T : Type) where
  render : T → RequestContext → String
  /-- The type of a file by its name. -/
  mimeGuess : OsString → Option String
  userFromName : String → Option User
  /-- The page for a directory that was requested under some path. -/
  renderDirectoryListing : OsString → String → Response

/-- Files are looked for under one directory, or under one in the home of the user in the path. -/
inductive Base
  | root (dir : String)
  | userdir (subdir : String) (allowlist : List String) (minUid : ℕ)
  deriving DecidableEq

structure StaticHandler (T : Type) where
  base : Base
  indexFiles : List String
  stripPrefix : Bool
  /-- Candidates for the file, instead of the path. -/
  tryFiles : List T
  directoryListing : Bool
  fallbackRedirect : Option T

/-- No templates, users or listings. -/
def Externals.bare : Externals Unit where
  render _ _ := ""
  mimeGuess _ := none
  userFromName _ := none
  renderDirectoryListing _ _ := response404

/-- The files of a directory and nothing else. -/
def StaticHandler.bare (dir : String) : StaticHandler Unit :=
  ⟨.root dir, [], false, [], false, none⟩

def fiveBytes : FileTree :=
  .ofEntries [([], .dir 0 none), (["srv"], .dir 0 none),
    (["srv", "five"], .file [0x61, 0x62, 0x63, 0x64, 0x65] true none)]
    (by decide +kernel) (by decide +kernel)

open StaticHandler

/-! ## From a request path to a path of the file system -/

def hexNibble (b : UInt8) : Option UInt8 :=
  if 0x30 ≤ b ∧ b ≤ 0x39 then some (b - 0x30)
  else if 0x61 ≤ b ∧ b ≤ 0x66 then some (b - 0x61 + 10)
  else if 0x41 ≤ b ∧ b ≤ 0x46 then some (b - 0x41 + 10)
  else none

/-- The byte that a percent sign and two digits stand for. -/
def escaped (b high low : UInt8) : Option UInt8 :=
  if b = 0x25 then
    match hexNibble high, hexNibble low with
    | some h, some l => some (h <<< 4 ||| l)
    | _, _ => none
  else none

/-- The loop of `percent_decode`. Without two digits after it a percent sign stands for itself. -/
def decodeBytes : List UInt8 → List UInt8
  | b :: high :: low :: rest =>
    match escaped b high low with
    | some byte => byte :: decodeBytes rest
    | none => b :: decodeBytes (high :: low :: rest)
  | bs => bs

def percentDecode (s : String) : String := Text.fromUtf8Lossy (decodeBytes (Text.bytes s))

/-- The root and the decoded path, unless the path leads to a parent. -/
def safeJoin (root : OsString) (uriPath : String) : Option OsString :=
  if '\x00' ∈ uriPath.toList then none
  else
    let decoded := percentDecode uriPath
    if ".." ∈ Text.split '/' decoded then none
    else some (Path.join root (ofStr (Text.trimStartMatches (· == '/') decoded)))

variable {T : Type} (x : Externals T) (fs : FileSystem)

namespace StaticHandler

/-- The candidate that is a file, rendered with the path in place of the one that was requested. -/
def tryFilesResolve (h : StaticHandler T) (root : OsString) (relative : String)
    (ctx : RequestContext) : Option String :=
  h.tryFiles.findSome? fun template ↦
    let candidate := x.render template { ctx with path := relative }
    match (safeJoin root candidate).bind fs.metadata with
    | some md => if md.isFile then some candidate else none
    | none => none

/-- The characters of user names. -/
def isUserChar (c : Char) : Bool := c.isAlphanum || c == '_' || c == '-'

/-- The directory of the user a path starts with, and the rest of the path. -/
def resolveUserdir (subdir : String) (allowlist : List String) (minUid : ℕ) (relative : String) :
    Except Response (OsString × String) :=
  let path := (Text.stripPrefix "/" relative).getD relative
  match Text.stripPrefix "~" path with
  | none => .error response404
  | some path =>
    let (username, rest) := (Text.splitOnce '/' path).getD (path, "")
    if username = "" then .error response404
    else if ¬username.toList.all isUserChar then .error response404
    else if allowlist ≠ [] ∧ username ∉ allowlist then .error response404
    else
      match x.userFromName username with
      | none => .error response404
      | some user =>
        if user.uid < minUid then .error response404
        else .ok (Path.join user.dir (ofStr subdir), "/" ++ rest)

/-- The root for a request, and the path under it. -/
def effectiveRoot (h : StaticHandler T) (relative : String) :
    Except Response (OsString × String) :=
  match h.base with
  | .root dir => .ok (ofStr dir, relative)
  | .userdir subdir allowlist minUid => resolveUserdir x subdir allowlist minUid relative

/-- The path of a request as the location sees it. -/
def relative (h : StaticHandler T) (matchedPrefix uriPath : String) : String :=
  if h.stripPrefix then (Text.stripPrefix matchedPrefix uriPath).getD uriPath else uriPath

/-- The path that is looked up: one of the candidates if there are any. -/
def lookedUp (h : StaticHandler T) (root : OsString) (relative : String) (ctx : RequestContext) :
    Except Response String :=
  if h.tryFiles.isEmpty then .ok relative
  else
    match h.tryFilesResolve x fs root relative ctx with
    | some candidate => .ok candidate
    | none => .error response404

/-- The first index file of a directory that is there, and its name. -/
def resolveIndex (h : StaticHandler T) (dir : OsString) : Option (String × OsString) :=
  h.indexFiles.findSome? fun name ↦
    let candidate := Path.join dir (ofStr name)
    if (fs.metadata candidate).isSome then some (name, candidate) else none

def emitFallbackRedirect (template : T) (ctx : RequestContext) : Response :=
  match HeaderValue.fromStr (x.render template ctx) with
  | some url =>
    ⟨302, [("location", url), ("content-length", "0"), ("cache-control", "no-store")], some []⟩
  | none => response500

end StaticHandler

/-- The file that is sent. -/
structure Found where
  /-- The path that was looked up under the root, as it was spelled. -/
  relative : String
  /-- The name that was added to the path of a directory. -/
  index : Option String
  /-- Where the file is. -/
  target : OsString
  metadata : Metadata

namespace StaticHandler

/-- A name that is text and starts with a dot. -/
def isHidden (name : OsString) : Bool := (toStr name).any (Text.startsWith ".")

/-- The canonical path of what may be sent: it exists under the root, and no name in it is
hidden. -/
def resolve (root : OsString) (relative : String) : Except Response (OsString × Metadata) :=
  match safeJoin root relative with
  | none => .error response400
  | some filePath =>
    match fs.canonicalize root with
    | none => .error response500
    | some canonicalRoot =>
      match fs.canonicalize filePath with
      | none => .error response404
      | some canonicalPath =>
        if ¬Path.startsWith canonicalPath canonicalRoot then .error response403
        else if ((Path.stripPrefix canonicalPath canonicalRoot).getD
            (Path.components canonicalPath)).any isHidden then .error response404
        else
          match fs.metadata canonicalPath with
          | none => .error response404
          | some md => .ok (canonicalPath, md)

/-- What is sent for it, and the name of the index file if it is one. -/
def pickTarget (h : StaticHandler T) (ctx : RequestContext) (uriPath : String)
    (canonicalPath : OsString) (md : Metadata) : Except Response (Option String × OsString) :=
  if md.isDir then
    match h.resolveIndex fs canonicalPath with
    | some (name, target) => .ok (some name, target)
    | none =>
      if h.directoryListing then .error (x.renderDirectoryListing canonicalPath uriPath)
      else
        match h.fallbackRedirect with
        | some template => .error (emitFallbackRedirect x template ctx)
        | none => .error response403NoIndex
  else .ok (none, canonicalPath)

/-- The first half of `handle`: the file for a request path, or the response without one. -/
def locate (h : StaticHandler T) (matchedPrefix : String) (ctx : RequestContext)
    (uriPath : String) : Except Response Found := do
  let (root, relative) ← h.effectiveRoot x (h.relative matchedPrefix uriPath)
  let relative ← h.lookedUp x fs root relative ctx
  let (canonicalPath, md) ← resolve fs root relative
  let (index, target) ← h.pickTarget x fs ctx uriPath canonicalPath md
  match fs.metadata target with
  | none => .error response404
  | some metadata => .ok ⟨relative, index, target, metadata⟩

end StaticHandler

variable {h : StaticHandler T} {matchedPrefix : String} {ctx : RequestContext}

/-- A file is sent itself, and for a directory its index file. -/
theorem pickTarget_eq_ok_iff {x : Externals T} {fs : FileSystem} {uriPath : String}
    {canonicalPath target : OsString} {md : Metadata} {index : Option String} :
    h.pickTarget x fs ctx uriPath canonicalPath md = .ok (index, target) ↔
      md.isDir = false ∧ index = none ∧ target = canonicalPath ∨
        md.isDir = true ∧ ∃ name, index = some name ∧
          h.resolveIndex fs canonicalPath = some (name, target) := by
  rw [pickTarget]
  cases md.isDir with
  | false => simp [eq_comm]
  | true =>
    rcases h.resolveIndex fs canonicalPath with _ | ⟨name, file⟩
    · -- a listing, a redirection or a refusal
      cases h.directoryListing <;> cases h.fallbackRedirect <;> simp
    · simp [eq_comm]

/-- The stages that a file has passed. -/
theorem exists_of_locate {x : Externals T} {fs : FileSystem} {uriPath : String} {found : Found}
    (hlocate : h.locate x fs matchedPrefix ctx uriPath = .ok found) :
    ∃ root relative canonicalPath md,
      h.effectiveRoot x (h.relative matchedPrefix uriPath) = .ok (root, relative) ∧
      h.lookedUp x fs root relative ctx = .ok found.relative ∧
      resolve fs root found.relative = .ok (canonicalPath, md) ∧
      h.pickTarget x fs ctx uriPath canonicalPath md = .ok (found.index, found.target) ∧
      fs.metadata found.target = some found.metadata := by
  rw [locate, bind_eq_ok_iff] at hlocate
  obtain ⟨⟨root, relative⟩, hroot, hlocate⟩ := hlocate
  obtain ⟨path, hpath, hlocate⟩ := bind_eq_ok_iff.mp hlocate
  obtain ⟨⟨canonicalPath, md⟩, hresolve, hlocate⟩ := bind_eq_ok_iff.mp hlocate
  obtain ⟨⟨index, target⟩, hpick, hlocate⟩ := bind_eq_ok_iff.mp hlocate
  dsimp only at hlocate
  split at hlocate
  · cases hlocate
  · rename_i metadata hmetadata
    cases hlocate
    exact ⟨root, relative, canonicalPath, md, hroot, hpath, hresolve, hpick, hmetadata⟩

theorem locate_eq_ok {x : Externals T} {fs : FileSystem} {uriPath relative path : String}
    {index : Option String} {target : OsString} {metadata : Metadata}
    (root canonicalPath : OsString) (md : Metadata)
    (hroot : h.effectiveRoot x (h.relative matchedPrefix uriPath) = .ok (root, relative))
    (hpath : h.lookedUp x fs root relative ctx = .ok path)
    (hresolve : resolve fs root path = .ok (canonicalPath, md))
    (hpick : h.pickTarget x fs ctx uriPath canonicalPath md = .ok (index, target))
    (hmetadata : fs.metadata target = some metadata) :
    h.locate x fs matchedPrefix ctx uriPath = .ok ⟨path, index, target, metadata⟩ := by
  simp only [locate, hroot, hpath, hresolve, hpick, hmetadata, bind, Except.bind]

/-! ## From a file to a response -/

def computeEtag (md : Metadata) : String :=
  "\"" ++ Nat.repr (md.modified.getD 0) ++ "-" ++ Nat.repr md.len ++ "\""

def isNotModified (req : Request) (etag : String) : Bool :=
  (req.headers.getStr "if-none-match").any (· == etag)

/-- The bounds of a range. An empty file has no end to count from. -/
def rangeBounds (bytes : String) (fileLen : ℕ) : Option (Except Unit (ℕ × ℕ)) :=
  match Text.stripPrefix "-" bytes with
  | some suffix => do
    let n ← Text.parseU64 suffix
    if n = 0 ∨ fileLen = 0 then some (.error ()) else some (.ok (fileLen - n, fileLen - 1))
  | none => do
    let (first, last) ← Text.splitOnce '-' bytes
    let start ← Text.parseU64 first
    if last = "" then
      if fileLen = 0 then some (.error ()) else some (.ok (start, fileLen - 1))
    else
      let stop ← Text.parseU64 last
      some (.ok (start, stop))

/-- `parse_range_header`: nothing for a request that is answered as if it had no range. -/
def parseRangeHeader (req : Request) (fileLen : ℕ) : Option (Except Unit (ℕ × ℕ)) := do
  let value ← req.headers.getStr "range"
  let bytes ← Text.stripPrefix "bytes=" value
  if ',' ∈ bytes.toList then none
  else
    match ← rangeBounds bytes fileLen with
    | .error () => some (.error ())
    | .ok (start, stop) =>
      if stop < start ∨ fileLen ≤ stop then some (.error ()) else some (.ok (start, stop))

/-- The headers of every response that carries contents. -/
def contentHeaders (found : Found) (length : ℕ) : HeaderMap :=
  [("content-type", (x.mimeGuess found.target).getD "application/octet-stream"),
    ("content-length", Nat.repr length)]

def validatorHeaders (found : Found) : HeaderMap :=
  [("etag", computeEtag found.metadata), ("accept-ranges", "bytes")]

/-- The second half of `handle`: the file, a range of it, or word that it has not changed. -/
def sendFile (req : Request) (found : Found) : Response :=
  let etag := computeEtag found.metadata
  let fileLen := found.metadata.len
  if isNotModified req etag then ⟨304, [("etag", etag)], some []⟩
  else
    match parseRangeHeader req fileLen with
    | some (.error ()) => response416 fileLen
    | some (.ok (start, stop)) =>
      match fs.openFile found.target with
      | none => response500
      | some contents =>
        let length := stop - start + 1
        let range := "bytes " ++ Nat.repr start ++ "-" ++ Nat.repr stop ++ "/" ++ Nat.repr fileLen
        ⟨206, contentHeaders x found length ++ ("content-range", range) :: validatorHeaders found,
          contents.map fun bytes ↦ (bytes.drop start).take length⟩
    | none =>
      match fs.openFile found.target with
      | none => response500
      | some contents =>
        ⟨200, contentHeaders x found fileLen ++ validatorHeaders found, contents⟩

def StaticHandler.handle (h : StaticHandler T) (matchedPrefix : String) (ctx : RequestContext)
    (req : Request) : Response :=
  match h.locate x fs matchedPrefix ctx req.uri.path with
  | .error resp => resp
  | .ok found => sendFile x fs req found

theorem handle_of_locate {x : Externals T} {fs : FileSystem} {req : Request} {found : Found}
    (hlocate : h.locate x fs matchedPrefix ctx req.uri.path = .ok found) :
    h.handle x fs matchedPrefix ctx req = sendFile x fs req found := by
  rw [handle, hlocate]

end StaticFiles

end Hypershunt
