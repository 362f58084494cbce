import Hypershunt.Foundation.Time
import Hypershunt.Http.Message

/-!
# Cache-Control

The directives of `Cache-Control` that the cache reads (`cache/policy.rs`), on responses and on
requests. Both parsers walk the same list of directives: every line that is text, split at commas,
with the name of a directive in lower case and its argument. A later directive overrides an earlier
one, also when its argument is not a number.
-/

namespace Hypershunt

namespace Cache

open Text

/-- One directive: its name in lower case and its argument. -/
def directive (s : String) : String × Option String :=
  let s := trim s
  match splitOnce '=' s with
  | some (name, arg) => (toAsciiLowercase (trim name), some (trim arg))
  | none => (toAsciiLowercase s, none)

/-- The directives of a message, over all its `Cache-Control` lines. -/
def directives (h : HeaderMap) : List (String × Option String) :=
  ((h.getAll "cache-control").filterMap HeaderValue.toStr).flatMap fun s ↦
    (split ',' s).map directive

/-- `parse_secs`: a number of seconds, with or without quotes. -/
def parseSecs (arg : String) : Option ℕ := parseU64 (trimMatches '"' arg)

structure ResponseCacheControl where
  noStore : Bool := false
  «private» : Bool := false
  noCache : Bool := false
  «public» : Bool := false
  maxAge : Option ℕ := none
  sMaxage : Option ℕ := none
  staleWhileRevalidate : Option ℕ := none
  staleIfError : Option ℕ := none
  deriving DecidableEq

namespace ResponseCacheControl

def set (cc : ResponseCacheControl) (d : String × Option String) : ResponseCacheControl :=
  match d.1 with
  | "no-store" => { cc with noStore := true }
  | "private" => { cc with «private» := true }
  | "no-cache" => { cc with noCache := true }
  | "public" => { cc with «public» := true }
  | "max-age" => { cc with maxAge := d.2.bind parseSecs }
  | "s-maxage" => { cc with sMaxage := d.2.bind parseSecs }
  | "stale-while-revalidate" => { cc with staleWhileRevalidate := d.2.bind parseSecs }
  | "stale-if-error" => { cc with staleIfError := d.2.bind parseSecs }
  | _ => cc

def parse (h : HeaderMap) : ResponseCacheControl := (directives h).foldl set {}

/-- A response with one of these must not be in a shared cache. -/
def forbids (cc : ResponseCacheControl) : Bool := cc.noStore || cc.private || cc.noCache

/-- The windows for serving stale responses, zero where none is declared. -/
def swr (cc : ResponseCacheControl) : Duration :=
  (cc.staleWhileRevalidate.map Duration.fromSecs).getD 0

def sie (cc : ResponseCacheControl) : Duration := (cc.staleIfError.map Duration.fromSecs).getD 0

theorem parse_congr {h h' : HeaderMap}
    (heq : h.getAll "cache-control" = h'.getAll "cache-control") :
    parse h = parse h' := by
  rw [parse, directives, heq, ← directives, ← parse]

end ResponseCacheControl

structure RequestCacheControl where
  noStore : Bool := false
  noCache : Bool := false
  onlyIfCached : Bool := false
  maxAge : Option ℕ := none
  minFresh : Option ℕ := none
  /-- `some none` without an argument: any staleness will do. -/
  maxStale : Option (Option ℕ) := none
  deriving DecidableEq

namespace RequestCacheControl

def set (cc : RequestCacheControl) (d : String × Option String) : RequestCacheControl :=
  match d.1 with
  | "no-store" => { cc with noStore := true }
  | "no-cache" => { cc with noCache := true }
  | "only-if-cached" => { cc with onlyIfCached := true }
  | "max-age" => { cc with maxAge := d.2.bind parseSecs }
  | "min-fresh" => { cc with minFresh := d.2.bind parseSecs }
  | "max-stale" => { cc with maxStale := some (d.2.bind parseSecs) }
  | _ => cc

def parse (h : HeaderMap) : RequestCacheControl := (directives h).foldl set {}

end RequestCacheControl

end Cache

end Hypershunt
