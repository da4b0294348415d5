import Mathlib.Algebra.Group.Nat.Defs
import DistDpi.Flow.ConnKey
import DistDpi.Support.Access

/-!
# Packet — definitions

`classifyFlows` and `populateFlowTable` of `PacketHandler.cpp` (Linux branch): from the bytes of a
frame to the call of `InsertOrUpdateFlows`.  A pointer into the packet is the offset of what it
points to.  A read outside the packet is undefined, and the computation ends there.
-/

namespace DistDpi

/-- `PktMdata`.  `PacketProducer` assigns `pkt` with a `uint32_t` length. -/
structure PktMdata where
  filter : Nat
  pkt : List UInt8
  dir : UInt8
  lt : pkt.length < 2 ^ 32
  deriving DecidableEq, Repr

/-- The arguments of `InsertOrUpdateFlows`. -/
structure InsertCall where
  key : ConnKey
  pktString : List UInt8
  filter : Nat
  dir : UInt8
  deriving DecidableEq, Repr

/-- A computation on a packet, with its subtractions on `u_int`. -/
abbrev Parse := Access UInt32

def ETH_P_8021Q : UInt16 := 0x8100

def ETH_P_IP : UInt16 := 0x0800

def IPPROTO_TCP : UInt8 := 6

def IPPROTO_UDP : UInt8 := 17

/-- `ntohs` of two bytes in the order they are stored. -/
def ntohs (b₀ b₁ : UInt8) : UInt16 := b₀.toUInt16 <<< 8 ||| b₁.toUInt16

/-- `ntohl` of four. -/
def ntohl (b₀ b₁ b₂ b₃ : UInt8) : UInt32 :=
  b₀.toUInt32 <<< 24 ||| b₁.toUInt32 <<< 16 ||| b₂.toUInt32 <<< 8 ||| b₃.toUInt32

/-- `iph->ihl`, of the first byte of the IP header. -/
def ihl (b : UInt8) : UInt8 := b &&& 0xf

/-- `iph->version`, of the same byte. -/
def ipVersion (b : UInt8) : UInt8 := b >>> 4

/-- `th->doff`, of byte 12 of the TCP header. -/
def doff (b : UInt8) : UInt8 := b >>> 4

namespace Parse

def ntohsAt (pkt : List UInt8) (off : Nat) : Parse UInt16 := do
  let b₀ ← Access.get pkt off
  let b₁ ← Access.get pkt (off + 1)
  return ntohs b₀ b₁

def ntohlAt (pkt : List UInt8) (off : Nat) : Parse UInt32 := do
  let b₀ ← Access.get pkt off
  let b₁ ← Access.get pkt (off + 1)
  let b₂ ← Access.get pkt (off + 2)
  let b₃ ← Access.get pkt (off + 3)
  return ntohl b₀ b₁ b₂ b₃

/-- `while (ntohs(*eth_type) == ETH_P_8021Q)`, with fuel: each turn reads further into the packet,
so that a fuel of its length is never used up (`stripVlans_eq`). -/
def stripVlans (pkt : List UInt8) : Nat → Nat → UInt32 → Parse (Nat × UInt32)
  | 0, ethType, _ => Access.fault ethType
  | fuel + 1, ethType, len => do
      if (← ntohsAt pkt ethType) = ETH_P_8021Q then
        stripVlans pkt fuel (ethType + 4) (← Access.sub len 4)
      else return (ethType, len)

/-- The `switch` of `populateFlowTable`: the ports of the key, and where the payload is. -/
def ports (pkt : List UInt8) (ptr : Nat) (len : UInt32) (key : ConnKey) :
    Parse (ConnKey × Nat × UInt32) := do
  if key.ipproto = IPPROTO_TCP then
    let srcport ← ntohsAt pkt ptr
    let dstport ← ntohsAt pkt (ptr + 2)
    let off := doff (← Access.get pkt (ptr + 12))
    let len ← Access.sub len (off.toUInt32 <<< 2)
    return ({ key with srcport, dstport }, ptr + 4 * off.toNat, len)
  else if key.ipproto = IPPROTO_UDP then
    let srcport ← ntohsAt pkt ptr
    let dstport ← ntohsAt pkt (ptr + 2)
    let len ← Access.sub len 8
    return ({ key with srcport, dstport }, ptr + 8, len)
  else return (key, ptr, len)

/-- `PacketHandler::populateFlowTable`. -/
def populateFlowTable (pkt : List UInt8) (ptr : Nat) (len : UInt32) (key : ConnKey) (filter : Nat)
    (dir : UInt8) : Parse InsertCall := do
  let (key, ptr, len) ← ports pkt ptr len key
  let pktString ← Access.slice pkt ptr len.toNat
  return { key, pktString, filter, dir }

/-- `classifyFlows`, from the IP header on. -/
def ipHeader (mdata : PktMdata) (iph : Nat) (len : UInt32) : Parse (Option InsertCall) := do
  let b ← Access.get mdata.pkt iph
  if ihl b < 5 ∨ ipVersion b ≠ 4 then return none
  let totLen ← ntohsAt mdata.pkt (iph + 2)
  if len < totLen.toUInt32 then return none
  let ipproto ← Access.get mdata.pkt (iph + 9)
  let srcaddr ← ntohlAt mdata.pkt (iph + 12)
  let dstaddr ← ntohlAt mdata.pkt (iph + 16)
  let len ← Access.sub totLen.toUInt32 ((ihl b).toUInt32 <<< 2)
  let call ← populateFlowTable mdata.pkt (iph + 4 * (ihl b).toNat) len
    { srcaddr, dstaddr, srcport := 0, dstport := 0, ipproto } mdata.filter mdata.dir
  return some call

/-- `PacketHandler::classifyFlows`: the call it makes, if any. -/
def classifyFlows (mdata : PktMdata) : Parse (Option InsertCall) := do
  let len ← Access.sub (UInt32.ofNat mdata.pkt.length) 12
  let (ethType, len) ← stripVlans mdata.pkt (mdata.pkt.length + 1) 12 len
  if (← ntohsAt mdata.pkt ethType) ≠ ETH_P_IP then return none
  let len ← Access.sub len 2
  ipHeader mdata (ethType + 2) len

end Parse
end DistDpi
