import Hypershunt.Foundation.Fallible
import Hypershunt.Foundation.Text
import Hypershunt.Net.AddressText

/-!
# The PROXY protocol

`proxy_proto.rs`: the header that tells a backend who the client is, in its text and its binary
version, and the parser for the same header on a listener. A reader is the bytes that are still to
come; parsing returns those that it has not consumed.

In the binary version two addresses of different families are sent as no addresses at all. The text
version names the family of the source only, and writes both addresses, whatever the destination is;
the parser then finds an address of the wrong kind and refuses the connection.
-/

namespace Hypershunt

open List

namespace ProxyProto

open Text BigEndian

inductive ProxyProtocolVersion
  | v1
  | v2
  deriving DecidableEq

/-- An address with a port. Flow labels and scopes are no part of what the protocol carries. -/
structure SocketAddr where
  ip : IpAddr
  port : UInt16
  deriving DecidableEq

/-! ## Building -/

def v1Proto : IpAddr → String
  | .v4 _ => "TCP4"
  | .v6 _ => "TCP6"

/-- The parts of the line. -/
def v1Parts (src dst : SocketAddr) : List String :=
  ["PROXY", v1Proto src.ip, String.ofList (displayIp src.ip), String.ofList (displayIp dst.ip),
    Nat.repr src.port.toNat, Nat.repr dst.port.toNat]

def buildV1 (src dst : SocketAddr) : List UInt8 :=
  bytes (" ".intercalate (v1Parts src dst) ++ "\r\n")

def v2Signature : List UInt8 :=
  [0x0d, 0x0a, 0x0d, 0x0a, 0x00, 0x0d, 0x0a, 0x51, 0x55, 0x49, 0x54, 0x0a]

/-- `Ipv6Addr::octets`. -/
def octets16 (addr : BitVec 128) : List UInt8 := toBytes 16 addr.toNat

def v2Ports (src dst : SocketAddr) : List UInt8 :=
  toBytes 2 src.port.toNat ++ toBytes 2 dst.port.toNat

def buildV2 (src dst : SocketAddr) : List UInt8 :=
  v2Signature ++ [0x21] ++ match src.ip, dst.ip with
    | .v4 s, .v4 d => [0x11] ++ toBytes 2 12 ++ octets s ++ octets d ++ v2Ports src dst
    | .v6 s, .v6 d => [0x21] ++ toBytes 2 36 ++ octets16 s ++ octets16 d ++ v2Ports src dst
    -- mixed address families
    | _, _ => [0x00] ++ toBytes 2 0

def buildHeader (version : ProxyProtocolVersion) (src dst : SocketAddr) : List UInt8 :=
  match version with
  | .v1 => buildV1 src dst
  | .v2 => buildV2 src dst

/-! ## Parsing -/

def invalidData (message : String) : IoError := ⟨.invalidData, message⟩

def earlyEof : IoError := ⟨.unexpectedEof, "early eof"⟩

def badV1 : IoError := invalidData "malformed PROXY v1 header"

/-- The loop that reads one byte at a time until `\r\n`; the line without it, and the rest. -/
def readLine : List UInt8 → List UInt8 → Except IoError (List UInt8 × List UInt8)
  | buf, s =>
    if 108 ≤ buf.length then .error (invalidData "PROXY v1 header exceeds 108 bytes")
    else match s with
      | [] => .error earlyEof
      | b :: s =>
        if buf.getLast? = some 0x0d ∧ b = 0x0a then .ok (buf.dropLast, s)
        else readLine (buf ++ [b]) s

/-- The addresses of a line for one of the two families. -/
def v1Addresses (proto : String) (parts : List String) : Option (SocketAddr × SocketAddr) := do
  let srcIp ← parts[2]?
  let dstIp ← parts[3]?
  let srcPort ← parts[4]?.bind parseU16
  let dstPort ← parts[5]?.bind parseU16
  if proto = "TCP4" then
    let s ← parseIpv4 srcIp.toList
    let d ← parseIpv4 dstIp.toList
    return (⟨.v4 s, srcPort⟩, ⟨.v4 d, dstPort⟩)
  else if proto = "TCP6" then
    let s ← parseIpv6 srcIp.toList
    let d ← parseIpv6 dstIp.toList
    return (⟨.v6 s, srcPort⟩, ⟨.v6 d, dstPort⟩)
  else none

def parseV1Line (line : String) : Except IoError (Option (SocketAddr × SocketAddr)) :=
  let parts := splitn ' ' 6 line
  let proto := parts[1]?.getD ""
  if parts[0]? ≠ some "PROXY" then .error (invalidData "PROXY v1 header missing 'PROXY' prefix")
  else if proto = "UNKNOWN" then .ok none
  else match v1Addresses proto parts with
    | some addrs => .ok (some addrs)
    | none => .error badV1

def parseV1 (s : List UInt8) :
    Except IoError (Option (SocketAddr × SocketAddr) × List UInt8) := do
  let (line, rest) ← readLine [] s
  match fromUtf8 line with
  | none => .error (invalidData "PROXY v1 header is not valid UTF-8")
  | some line => return (← parseV1Line line, rest)

def readExact (n : ℕ) (s : List UInt8) : Except IoError (List UInt8 × List UInt8) :=
  if n ≤ s.length then .ok (s.take n, s.drop n) else .error earlyEof

/-- The bytes of a block from one place on. -/
def slice (block : List UInt8) (start len : ℕ) : List UInt8 := (block.drop start).take len

def v2Addresses (family : UInt8) (block : List UInt8) :
    Except IoError (Option (SocketAddr × SocketAddr)) :=
  if family = 0 then .ok none
  else if family = 1 then
    if block.length < 12 then .error (invalidData "PROXY v2 AF_INET address block too short")
    else .ok (some
      (⟨.v4 (ofOctets (slice block 0 4)), UInt16.ofNat (ofBytes (slice block 8 2))⟩,
        ⟨.v4 (ofOctets (slice block 4 4)), UInt16.ofNat (ofBytes (slice block 10 2))⟩))
  else if family = 2 then
    if block.length < 36 then .error (invalidData "PROXY v2 AF_INET6 address block too short")
    else .ok (some
      (⟨.v6 (BitVec.ofNat 128 (ofBytes (slice block 0 16))),
          UInt16.ofNat (ofBytes (slice block 32 2))⟩,
        ⟨.v6 (BitVec.ofNat 128 (ofBytes (slice block 16 16))),
          UInt16.ofNat (ofBytes (slice block 34 2))⟩))
  -- AF_UNIX has no addresses to extract
  else .ok none

def parseV2 (s : List UInt8) :
    Except IoError (Option (SocketAddr × SocketAddr) × List UInt8) := do
  let (fixed, s) ← readExact 16 s
  let version := fixed.getD 12 0 >>> 4
  let cmd := fixed.getD 12 0 &&& 0x0f
  let family := fixed.getD 13 0 >>> 4
  if fixed.take 12 ≠ v2Signature then .error (invalidData "PROXY v2 signature mismatch")
  else if version ≠ 2 then .error (invalidData "PROXY v2 version field must be 2")
  else
    let (block, s) ← readExact (ofBytes (slice fixed 14 2)) s
    -- LOCAL: the caller keeps the address of the connection
    if cmd = 0 then .ok (none, s)
    else if cmd ≠ 1 then .error (invalidData "PROXY v2 unknown command byte")
    else return (← v2Addresses family block, s)

def parseIncoming (version : ProxyProtocolVersion) (s : List UInt8) :
    Except IoError (Option (SocketAddr × SocketAddr) × List UInt8) :=
  match version with
  | .v1 => parseV1 s
  | .v2 => parseV2 s

/-! ## The text version -/

variable {src dst : SocketAddr} {rest : List UInt8}

theorem readLine_append {buf bs : List UInt8} (hbuf : 0x0d ∉ buf) (hbs : 0x0d ∉ bs)
    (hlength : buf.length + bs.length + 2 ≤ 108) :
    readLine buf (bs ++ 0x0d :: 0x0a :: rest) = .ok (buf ++ bs, rest) := by
  induction bs generalizing buf with
  | nil =>
    have hlast : buf.getLast? ≠ some 0x0d := fun h ↦ hbuf (mem_of_getLast? h)
    rw [length_nil] at hlength
    rw [nil_append, readLine, if_neg (by omega), if_neg fun h ↦ hlast h.1, readLine,
      if_neg (by rw [length_append, length_singleton]; omega), if_pos (by simp)]
    simp
  | cons b bs ih =>
    have hlast : buf.getLast? ≠ some 0x0d := fun h ↦ hbuf (mem_of_getLast? h)
    obtain ⟨hb, hbs⟩ := not_or.mp (mem_cons.not.mp hbs)
    rw [length_cons] at hlength
    rw [cons_append, readLine, if_neg (by omega), if_neg fun h ↦ hlast h.1,
      ih (by simp [hbuf, hb]) hbs (by rw [length_append, length_singleton]; omega), append_assoc,
      singleton_append]

theorem parseV1_line {line : String} (hplain : ∀ c ∈ line.toList, 0x20 ≤ c.toNat ∧ c.toNat < 128)
    (hlength : line.toList.length ≤ 106) :
    parseV1 (bytes (line ++ "\r\n") ++ rest) = (parseV1Line line).map fun r ↦ (r, rest) := by
  have hbytes : bytes line = line.toList.map fun c ↦ UInt8.ofNat c.toNat := by
    rw [← bytes_ofList fun c hc ↦ (hplain c hc).2, String.ofList_toList]
  have hcr : 0x0d ∉ bytes line := by
    rw [hbytes, List.mem_map]
    rintro ⟨c, hc, heq⟩
    obtain ⟨hlow, hhigh⟩ := hplain c hc
    have hcode := congrArg UInt8.toNat heq
    rw [UInt8.toNat_ofNat_of_lt' (hhigh.trans (by decide))] at hcode
    exact absurd (hcode ▸ hlow) (by decide)
  have hread : readLine [] (bytes (line ++ "\r\n") ++ rest) = .ok (bytes line, rest) := by
    have hcrlf : bytes "\r\n" = [0x0d, 0x0a] := by decide
    rw [bytes_append, hcrlf, append_assoc]
    refine readLine_append not_mem_nil hcr ?_
    rw [hbytes, length_map, length_nil]
    omega
  simp only [parseV1, hread, bind, Except.bind, fromUtf8_bytes]
  rcases parseV1Line line with e | r <;> rfl

theorem plain_of_mem_v1Parts {p : String} (hp : p ∈ v1Parts src dst) :
    ∀ c ∈ p.toList, 0x20 < c.toNat ∧ c.toNat < 128 := by
  have hip : ∀ ip, ∀ c ∈ (String.ofList (displayIp ip)).toList, 0x20 < c.toNat ∧ c.toNat < 128 := by
    intro ip c hc
    rw [String.toList_ofList] at hc
    exact (bounds_of_isAddressChar (isAddressChar_of_mem_displayIp hc)).imp_right
      fun hlt ↦ hlt.trans (by decide)
  have hport : ∀ n, ∀ c ∈ (Nat.repr n).toList, 0x20 < c.toNat ∧ c.toNat < 128 := by
    intro n c hc
    rw [Nat.toList_repr] at hc
    have hdigit := Nat.isDigit_of_mem_toDigits (by decide) (by decide) hc
    rw [Char.isDigit_iff_toNat] at hdigit
    exact ⟨Nat.lt_of_lt_of_le (by decide) hdigit.1, Nat.lt_of_le_of_lt hdigit.2 (by decide)⟩
  simp only [v1Parts, mem_cons, not_mem_nil, or_false] at hp
  rcases hp with rfl | rfl | rfl | rfl | rfl | rfl
  · have hproxy : ∀ c ∈ "PROXY".toList, 0x20 < c.toNat ∧ c.toNat < 128 :=
      forall_mem_of_all (by decide)
    exact hproxy
  · rcases src.ip with addr | addr
    · have htcp : ∀ c ∈ "TCP4".toList, 0x20 < c.toNat ∧ c.toNat < 128 :=
        forall_mem_of_all (by decide)
      exact htcp
    · have htcp : ∀ c ∈ "TCP6".toList, 0x20 < c.toNat ∧ c.toNat < 128 :=
        forall_mem_of_all (by decide)
      exact htcp
  · exact hip _
  · exact hip _
  · exact hport _
  · exact hport _

theorem length_v1Line : (" ".intercalate (v1Parts src dst)).toList.length ≤ 106 := by
  have hproto : (v1Proto src.ip).toList.length = 4 := by
    rcases src.ip with addr | addr
    · exact (by decide : "TCP4".toList.length = 4)
    · exact (by decide : "TCP6".toList.length = 4)
  have hport : ∀ n : UInt16, (Nat.repr n.toNat).toList.length ≤ 5 := by
    intro n
    rw [Nat.toList_repr]
    exact (Nat.length_toDigits_le_iff (by decide) (by decide)).mpr (n.toNat_lt.trans (by decide))
  have hsrc := length_displayIp src.ip
  have hdst := length_displayIp dst.ip
  have hsport := hport src.port
  have hdport := hport dst.port
  have hblank : " ".toList.length = 1 := rfl
  have hname : "PROXY".toList.length = 5 := rfl
  simp only [v1Parts, String.intercalate_cons_cons, String.intercalate_singleton,
    String.toList_append, length_append, String.toList_ofList, hblank, hname, hproto]
  omega

theorem parseV1_buildV1 :
    parseV1 (buildV1 src dst ++ rest) =
      (v1Addresses (v1Proto src.ip) (v1Parts src dst)).elim (.error badV1)
        fun addrs ↦ .ok (some addrs, rest) := by
  have hplain : ∀ c ∈ (" ".intercalate (v1Parts src dst)).toList,
      0x20 ≤ c.toNat ∧ c.toNat < 128 := by
    intro c hc
    rw [String.toList_intercalate] at hc
    rcases mem_of_mem_intercalate hc with hblank | ⟨cs, hcs, hc⟩
    · rw [show " ".toList = [' '] from rfl, mem_singleton] at hblank
      rw [hblank]
      decide
    · obtain ⟨p, hp, rfl⟩ := List.mem_map.mp hcs
      exact ⟨(plain_of_mem_v1Parts hp c hc).1.le, (plain_of_mem_v1Parts hp c hc).2⟩
  have hsplit : splitn ' ' 6 (" ".intercalate (v1Parts src dst)) = v1Parts src dst := by
    have hblank : " " = String.singleton ' ' := by decide
    rw [hblank]
    refine @splitn_intercalate ' ' (v1Parts src dst) (cons_ne_nil _ _) fun p hp hmem ↦ ?_
    exact absurd (plain_of_mem_v1Parts hp ' ' hmem).1 (by decide)
  have hproto : v1Proto src.ip ≠ "UNKNOWN" := by
    rcases src.ip with addr | addr
    · exact (by decide : "TCP4" ≠ "UNKNOWN")
    · exact (by decide : "TCP6" ≠ "UNKNOWN")
  have hline : parseV1Line (" ".intercalate (v1Parts src dst)) =
      (v1Addresses (v1Proto src.ip) (v1Parts src dst)).elim (.error badV1)
        fun addrs ↦ .ok (some addrs) := by
    have hsecond : (v1Parts src dst)[1]?.getD "" = v1Proto src.ip := rfl
    simp only [parseV1Line, hsplit, hsecond]
    rw [if_neg (fun h ↦ h rfl), if_neg hproto]
    rcases v1Addresses _ (v1Parts src dst) with _ | addrs <;> rfl
  rw [buildV1, parseV1_line hplain length_v1Line, hline]
  rcases v1Addresses _ (v1Parts src dst) with _ | addrs <;> rfl

/-- The two addresses are both IPv4 or both IPv6. -/
def sameFamily (src dst : SocketAddr) : Bool :=
  match src.ip, dst.ip with
  | .v4 _, .v4 _ | .v6 _, .v6 _ => true
  | _, _ => false

/-- The addresses are read back from their own texts, and not from those of the other family. -/
theorem v1Addresses_v1Parts :
    v1Addresses (v1Proto src.ip) (v1Parts src dst) =
      if sameFamily src dst then some (src, dst) else none := by
  obtain ⟨ip, port⟩ := src
  obtain ⟨ip', port'⟩ := dst
  have hfamilies : "TCP6" ≠ "TCP4" := by decide
  rcases ip with s | s <;> rcases ip' with d | d <;>
    simp [v1Addresses, v1Parts, v1Proto, sameFamily, displayIp, parseU16_repr, hfamilies,
      parseIpv4_displayIpv4, parseIpv4_displayIpv6, parseIpv6_displayIpv4, parseIpv6_displayIpv6]

/-! ## The binary version -/

theorem readExact_append {n : ℕ} {bs : List UInt8} (h : bs.length = n) :
    readExact n (bs ++ rest) = .ok (bs, rest) := by
  subst h
  rw [readExact, if_pos (by simp), take_left, drop_left]

theorem parseV2_append {famByte : UInt8} {block : List UInt8} {n : ℕ} (hblock : block.length = n)
    (hn : n < 256 ^ 2) :
    parseV2 (v2Signature ++ [0x21] ++ ([famByte] ++ toBytes 2 n ++ block) ++ rest) =
      (v2Addresses (famByte >>> 4) block).map fun r ↦ (r, rest) := by
  have hfixed : (v2Signature ++ [0x21] ++ [famByte] ++ toBytes 2 n).length = 16 := by
    simp [v2Signature]
  have hsplit : v2Signature ++ [0x21] ++ ([famByte] ++ toBytes 2 n ++ block) ++ rest =
      (v2Signature ++ [0x21] ++ [famByte] ++ toBytes 2 n) ++ (block ++ rest) := by
    simp only [append_assoc]
  have hlen : ofBytes (slice (v2Signature ++ [0x21] ++ [famByte] ++ toBytes 2 n) 14 2) = n := by
    rw [slice, drop_left' (by simp [v2Signature]), take_of_length_le (by simp),
      ofBytes_toBytes hn]
  have hsignature : (v2Signature ++ [0x21] ++ [famByte] ++ toBytes 2 n).take 12 = v2Signature := rfl
  have hcommand : (v2Signature ++ [0x21] ++ [famByte] ++ toBytes 2 n).getD 12 0 = 0x21 := rfl
  have hfamily : (v2Signature ++ [0x21] ++ [famByte] ++ toBytes 2 n).getD 13 0 = famByte := rfl
  simp only [parseV2, hsplit, readExact_append hfixed, hlen, readExact_append hblock, hsignature,
    hcommand, hfamily, bind, Except.bind]
  rw [if_neg (fun h ↦ h rfl), if_neg (by decide), if_neg (by decide), if_neg (by decide)]
  rcases v2Addresses (famByte >>> 4) block with e | r <;> rfl

theorem slice_append {a b c : List UInt8} {start len : ℕ} (ha : a.length = start)
    (hb : b.length = len) : slice (a ++ (b ++ c)) start len = b := by
  rw [slice, drop_left' ha, take_left' hb]

theorem ofNat_ofBytes_port (port : UInt16) :
    UInt16.ofNat (ofBytes (toBytes 2 port.toNat)) = port := by
  rw [ofBytes_toBytes port.toNat_lt, UInt16.ofNat_toNat]

theorem ofNat_ofBytes_octets16 (addr : BitVec 128) :
    BitVec.ofNat 128 (ofBytes (octets16 addr)) = addr := by
  rw [octets16, ofBytes_toBytes addr.isLt, BitVec.ofNat_toNat, BitVec.setWidth_eq]

theorem slice_block {s d p q : List UInt8} {w : ℕ} (hs : s.length = w) (hd : d.length = w)
    (hp : p.length = 2) (hq : q.length = 2) :
    slice (s ++ d ++ (p ++ q)) 0 w = s ∧ slice (s ++ d ++ (p ++ q)) w w = d ∧
      slice (s ++ d ++ (p ++ q)) (2 * w) 2 = p ∧ slice (s ++ d ++ (p ++ q)) (2 * w + 2) 2 = q := by
  refine ⟨?_, ?_, ?_, ?_⟩
  · exact (congrArg (slice · 0 w) (append_assoc s d _)).trans (@slice_append [] s _ 0 w rfl hs)
  · rw [append_assoc]
    exact slice_append hs hd
  · exact slice_append (by rw [length_append]; omega) hp
  · have hlast := @slice_append (s ++ d ++ p) q [] (2 * w + 2) 2
      (by rw [length_append, length_append]; omega) hq
    rwa [append_nil, append_assoc (s ++ d)] at hlast

theorem v2Addresses_inet (s d : BitVec 32) (p q : UInt16) :
    v2Addresses 1 (octets s ++ octets d ++ (toBytes 2 p.toNat ++ toBytes 2 q.toNat)) =
      .ok (some (⟨.v4 s, p⟩, ⟨.v4 d, q⟩)) := by
  obtain ⟨hs, hd, hp, hq⟩ := slice_block (length_toBytes 4 s.toNat)
    (length_toBytes 4 d.toNat) (length_toBytes 2 p.toNat)
    (length_toBytes 2 q.toNat)
  rw [v2Addresses, if_neg (by decide), if_pos rfl, if_neg (by simp [octets])]
  simp only [octets] at hs hd hp hq ⊢
  rw [hs, hd, hp, hq, ofNat_ofBytes_port, ofNat_ofBytes_port, ← octets, ← octets, ofOctets_octets,
    ofOctets_octets]

theorem v2Addresses_inet6 (s d : BitVec 128) (p q : UInt16) :
    v2Addresses 2 (octets16 s ++ octets16 d ++ (toBytes 2 p.toNat ++ toBytes 2 q.toNat)) =
      .ok (some (⟨.v6 s, p⟩, ⟨.v6 d, q⟩)) := by
  obtain ⟨hs, hd, hp, hq⟩ := slice_block (length_toBytes 16 s.toNat)
    (length_toBytes 16 d.toNat) (length_toBytes 2 p.toNat)
    (length_toBytes 2 q.toNat)
  rw [v2Addresses, if_neg (by decide), if_neg (by decide), if_pos rfl, if_neg (by simp [octets16])]
  simp only [octets16] at hs hd hp hq ⊢
  rw [hs, hd, hp, hq, ofNat_ofBytes_port, ofNat_ofBytes_port, ← octets16, ← octets16,
    ofNat_ofBytes_octets16, ofNat_ofBytes_octets16]

/-- **The binary version.** Both addresses of one family are read back; mixed ones are none. -/
theorem parseV2_buildV2 :
    parseV2 (buildV2 src dst ++ rest) =
      .ok (if sameFamily src dst then some (src, dst) else none, rest) := by
  obtain ⟨ip, p⟩ := src
  obtain ⟨ip', q⟩ := dst
  rcases ip with s | s <;> rcases ip' with d | d
  · have hparse := @parseV2_append rest 0x11
      (octets s ++ octets d ++ (toBytes 2 p.toNat ++ toBytes 2 q.toNat)) 12
      (by simp [octets]) (by decide)
    rw [show (0x11 : UInt8) >>> 4 = 1 by decide, v2Addresses_inet] at hparse
    simp only [buildV2, v2Ports, append_assoc] at hparse ⊢
    exact hparse
  · exact @parseV2_append rest 0x00 [] 0 rfl (by decide)
  · exact @parseV2_append rest 0x00 [] 0 rfl (by decide)
  · have hparse := @parseV2_append rest 0x21
      (octets16 s ++ octets16 d ++ (toBytes 2 p.toNat ++ toBytes 2 q.toNat)) 36
      (by simp [octets16]) (by decide)
    rw [show (0x21 : UInt8) >>> 4 = 2 by decide, v2Addresses_inet6] at hparse
    simp only [buildV2, v2Ports, append_assoc] at hparse ⊢
    exact hparse

/-! ## Both versions -/

/-- Whatever follows, the header gives its addresses, or none if their families differ, and no more
is consumed. -/
def RoundTrips (version : ProxyProtocolVersion) (src dst : SocketAddr) : Prop :=
  ∀ rest, ∃ addrs,
    parseIncoming version (buildHeader version src dst ++ rest) = .ok (addrs, rest) ∧
      (addrs = some (src, dst) ∨ addrs = none ∧ sameFamily src dst = false)

/-- **Which headers are read back**: the binary ones, and text whose addresses are of one family. -/
theorem roundTrips_iff (version : ProxyProtocolVersion) (src dst : SocketAddr) :
    RoundTrips version src dst ↔ version = .v2 ∨ sameFamily src dst = true := by
  rcases version with _ | _
  · rw [or_iff_right nofun]
    constructor
    · intro h
      obtain ⟨addrs, hparse, -⟩ := h []
      rw [parseIncoming, buildHeader, parseV1_buildV1, v1Addresses_v1Parts] at hparse
      by_contra hmixed
      rw [if_neg hmixed] at hparse
      exact nomatch hparse
    · intro hsame rest
      refine ⟨some (src, dst), ?_, Or.inl rfl⟩
      rw [parseIncoming, buildHeader, parseV1_buildV1, v1Addresses_v1Parts, if_pos hsame]
      rfl
  · refine iff_of_true (fun rest ↦ ⟨_, parseV2_buildV2, ?_⟩) (Or.inl rfl)
    rcases sameFamily src dst with _ | _
    · exact Or.inr ⟨rfl, rfl⟩
    · exact Or.inl rfl

/-- An IPv6 client of an IPv4 listener. -/
private def v6Client : SocketAddr := ⟨.v6 1, 50000⟩

private def v4Listener : SocketAddr := ⟨.v4 0xc0000201, 443⟩

/-- The backend refuses the header that it is sent for such a client. -/
theorem mixed_v1_refused :
    buildHeader .v1 v6Client v4Listener = bytes "PROXY TCP6 ::1 192.0.2.1 50000 443\r\n" ∧
      parseIncoming .v1 (buildHeader .v1 v6Client v4Listener) =
        .error (invalidData "malformed PROXY v1 header") ∧
      ¬RoundTrips .v1 v6Client v4Listener := by
  have hparse : parseIncoming .v1 (buildHeader .v1 v6Client v4Listener) =
      .error (invalidData "malformed PROXY v1 header") := by decide +kernel
  refine ⟨by decide +kernel, hparse, fun h ↦ ?_⟩
  obtain ⟨addrs, hok, -⟩ := h []
  rw [append_nil, hparse] at hok
  exact nomatch hok

end ProxyProto

end Hypershunt
