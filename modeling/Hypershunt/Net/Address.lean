import Mathlib.Data.Nat.Notation

/-!
# Addresses and networks

IP addresses as the machine words they are. What a network contains is left open.
-/

namespace Hypershunt

inductive IpAddr
  | v4 (addr : BitVec 32)
  | v6 (addr : BitVec 128)
  deriving DecidableEq

/-- `Ipv6Addr::to_ipv4_mapped`: the last 32 bits of `::ffff:a.b.c.d`. -/
def toIpv4Mapped (addr : BitVec 128) : Option (BitVec 32) :=
  if addr >>> 32 = 0xffff#128 then some (addr.setWidth 32) else none

/-- `normalise` of `access.rs`: an IPv4-mapped address counts as the IPv4 address it maps. -/
def normalise : IpAddr → IpAddr
  | .v6 addr => match toIpv4Mapped addr with
    | some v4 => .v4 v4
    | none => .v6 addr
  | .v4 addr => .v4 addr

/-- A network of the `ipnet` crate, as the test that it is used for. -/
structure IpNet where
  contains : IpAddr → Bool

end Hypershunt
