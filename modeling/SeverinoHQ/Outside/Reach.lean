/-
# Where an address can be reached from

An address belongs to a network, and a network is the tailnet, the house or the internet.
What HQ takes for a public address is what the standard library calls global, outside the
ranges HQ names itself.
-/

import Mathlib.Algebra.Group.Nat.Defs
import Mathlib.Tactic.SplitIfs

namespace SeverinoHQ.Outside

/-! ## Addresses and ranges -/

/-- An address as the standard library parses one. -/
inductive Address
  | v4 (bits : BitVec 32)
  | v6 (bits : BitVec 128)
  deriving DecidableEq, Repr

/-- The value four octets name. -/
def ip4 (a b c d : Nat) : BitVec 32 := BitVec.ofNat 32 (((a * 256 + b) * 256 + c) * 256 + d)

/-- The value that begins with the groups named, with zeros after them. -/
def ip6 (groups : List Nat) : BitVec 128 :=
  BitVec.ofNat 128 (groups.foldl (fun value group => value * 65536 + group) 0 *
    65536 ^ (8 - groups.length))

/-- `in` of a network: the bits the network fixes are as in its base. -/
def within {width : Nat} (bits : BitVec width) (networks : List (BitVec width × Nat)) : Bool :=
  networks.any fun network =>
    bits >>> (width - network.2) == network.1 >>> (width - network.2)

/-- The ranges the standard library names, for addresses of one kind. -/
structure Ranges (width : Nat) where
  privateNetworks : List (BitVec width × Nat)
  exceptions : List (BitVec width × Nat)
  shared : List (BitVec width × Nat)
  reserved : List (BitVec width × Nat)
  multicast : BitVec width × Nat
  linkLocal : BitVec width × Nat
  loopback : BitVec width × Nat

def ranges4 : Ranges 32 where
  privateNetworks := [(ip4 0 0 0 0, 8), (ip4 10 0 0 0, 8), (ip4 127 0 0 0, 8),
    (ip4 169 254 0 0, 16), (ip4 172 16 0 0, 12), (ip4 192 0 0 0, 24), (ip4 192 0 0 170, 31),
    (ip4 192 0 2 0, 24), (ip4 192 168 0 0, 16), (ip4 198 18 0 0, 15), (ip4 198 51 100 0, 24),
    (ip4 203 0 113 0, 24), (ip4 240 0 0 0, 4), (ip4 255 255 255 255, 32)]
  exceptions := [(ip4 192 0 0 9, 32), (ip4 192 0 0 10, 32)]
  shared := [(ip4 100 64 0 0, 10)]
  reserved := [(ip4 240 0 0 0, 4)]
  multicast := (ip4 224 0 0 0, 4)
  linkLocal := (ip4 169 254 0 0, 16)
  loopback := (ip4 127 0 0 0, 8)

def ranges6 : Ranges 128 where
  privateNetworks := [(ip6 [0, 0, 0, 0, 0, 0, 0, 1], 128), (ip6 [], 128),
    (ip6 [0, 0, 0, 0, 0, 0xffff], 96), (ip6 [0x64, 0xff9b, 1], 48), (ip6 [0x100], 64),
    (ip6 [0x2001], 23), (ip6 [0x2001, 0xdb8], 32), (ip6 [0x2002], 16), (ip6 [0x3fff], 20),
    (ip6 [0xfc00], 7), (ip6 [0xfe80], 10)]
  exceptions := [(ip6 [0x2001, 1, 0, 0, 0, 0, 0, 1], 128), (ip6 [0x2001, 1, 0, 0, 0, 0, 0, 2], 128),
    (ip6 [0x2001, 3], 32), (ip6 [0x2001, 4, 0x112], 48), (ip6 [0x2001, 0x20], 28),
    (ip6 [0x2001, 0x30], 28)]
  shared := []
  reserved := [(ip6 [], 8), (ip6 [0x100], 8), (ip6 [0x200], 7), (ip6 [0x400], 6),
    (ip6 [0x800], 5), (ip6 [0x1000], 4), (ip6 [0x4000], 3), (ip6 [0x6000], 3), (ip6 [0x8000], 3),
    (ip6 [0xa000], 3), (ip6 [0xc000], 3), (ip6 [0xe000], 4), (ip6 [0xf000], 5), (ip6 [0xf800], 6),
    (ip6 [0xfe00], 9)]
  multicast := (ip6 [0xff00], 8)
  linkLocal := (ip6 [0xfe80], 10)
  loopback := (ip6 [0, 0, 0, 0, 0, 0, 0, 1], 128)

namespace Ranges

variable {width : Nat} (ranges : Ranges width) (bits : BitVec width)

/-- `is_link_local`, `is_multicast`, `is_unspecified` or `is_reserved`. -/
def special : Bool :=
  within bits [ranges.linkLocal, ranges.multicast] || bits == 0 || within bits ranges.reserved

def isPrivate : Bool :=
  within bits ranges.privateNetworks && !within bits ranges.exceptions

def isGlobal : Bool := !within bits ranges.shared && !ranges.isPrivate bits

end Ranges

/-! ## What HQ takes for public -/

namespace Address

/-- `ipv4_mapped`. -/
def mapped (bits : BitVec 128) : Option (BitVec 32) :=
  if within bits [(ip6 [0, 0, 0, 0, 0, 0xffff], 96)] then some (bits.setWidth 32) else none

/-- What the standard library says of an address; of one that maps an IPv4 address, what it
says of that one. -/
def said (four : BitVec 32 → Bool) (six : BitVec 128 → Bool) : Address → Bool
  | .v4 bits => four bits
  | .v6 bits => ((mapped bits).map four).getD (six bits)

/-- `found in` each network of a list that names both kinds. -/
def among (four : List (BitVec 32 × Nat)) (six : List (BitVec 128 × Nat)) : Address → Bool
  | .v4 bits => within bits four
  | .v6 bits => within bits six

def isTailnet : Address → Bool :=
  among [(ip4 100 64 0 0, 10)] [(ip6 [0xfd7a, 0x115c, 0xa1e0], 48)]

/-- In one of the ranges `PRIVATE`. -/
def isHome : Address → Bool :=
  among [(ip4 10 0 0 0, 8), (ip4 172 16 0 0, 12), (ip4 192 168 0 0, 16), (ip4 127 0 0 0, 8)]
    [(ip6 [0, 0, 0, 0, 0, 0, 0, 1], 128), (ip6 [0xfc00], 7)]

def isDocumentation : Address → Bool :=
  among [(ip4 192 0 2 0, 24), (ip4 198 51 100 0, 24), (ip4 203 0 113 0, 24)]
    [(ip6 [0x2001, 0xdb8], 32)]

inductive Network
  | loopback
  | tailnet
  | network
  | everyone
  deriving DecidableEq, Repr

/-- `network_of`. -/
def networkOf (address : Address) : Network :=
  if address.said (within · [ranges4.loopback]) (within · [ranges6.loopback]) then .loopback
  else if address.isTailnet then .tailnet
  else if address.isHome then .network
  else .everyone

/-- `is_public`, of a text that is an address; of any other it is false. -/
def isPublic (address : Address) : Bool :=
  if address.said ranges4.special ranges6.special then false
  else if !address.said ranges4.isGlobal ranges6.isGlobal && !address.isDocumentation then false
  else address.networkOf == .everyone && !address.isDocumentation

end Address

end SeverinoHQ.Outside
