import Gravastar.DnsPacket.Read

/-!
# Rewriting DNS packets in place (`dns_packet.cpp`)

Rebind protection walks every record of a reply and zeroes private addresses;
the cache path overwrites the message ID. Both work on the caller's buffer.
-/

namespace Gravastar
open Traced

/-- `IsPrivateIPv4`, given the first two bytes of the address. -/
def isPrivateIPv4 (addr0 addr1 : UInt8) : Bool :=
  if addr0 = 10 then true
  else if addr0 = 192 ∧ addr1 = 168 then true
  else if addr0 = 172 ∧ addr1 ≥ 16 ∧ addr1 ≤ 31 then true
  else false

/-- The four assignments through `addr`. -/
def zeroAddress (packet : Bytes) (addr : Nat) : Traced Bytes := do
  let packet ← poke packet addr 0
  let packet ← poke packet (addr + 1) 0
  let packet ← poke packet (addr + 2) 0
  poke packet (addr + 3) 0

/-- The record loop of `RewritePrivateARecordsToZero`: the value it returns
(`none` for false, else `*rewritten`) and the buffer as it leaves it. -/
def rewriteRecords : Nat → Bytes → Nat → Bool → Traced (Option Bool × Bytes)
  | 0, packet, _, replaced => pure (some replaced, packet)
  | n + 1, packet, offset, replaced => do
    match ← readRecord packet offset with
    | none => pure (none, packet)
    | some r =>
      if r.type = dnsTypeA ∧ r.rdlength = 4 then do
        let addr0 ← peek packet r.rdataOffset
        let addr1 ← peek packet (r.rdataOffset + 1)
        if isPrivateIPv4 addr0 addr1 then do
          let packet ← zeroAddress packet r.rdataOffset
          rewriteRecords n packet r.next true
        else
          rewriteRecords n packet r.next replaced
      else
        rewriteRecords n packet r.next replaced

/-- `RewritePrivateARecordsToZero`. -/
def rewritePrivateARecordsToZero (packet : Bytes) : Traced (Option Bool × Bytes) :=
  if packet.length < 12 then
    pure (none, packet)
  else do
    let qdcount ← readU16 packet 4
    let ancount ← readU16 packet 6
    let nscount ← readU16 packet 8
    let arcount ← readU16 packet 10
    match ← skipQuestions packet qdcount.toNat 12 with
    | none => pure (none, packet)
    | some offset =>
      rewriteRecords (ancount.toNat + nscount.toNat + arcount.toNat) packet offset false

/-- `PatchResponseId`. -/
def patchResponseId (packet : Bytes) (id : UInt16) : Bytes :=
  if packet.length < 2 then packet
  else
    let packet := packet.set 0 (UInt8.ofNat (id.toNat >>> 8 &&& 0xff))
    packet.set 1 (UInt8.ofNat (id.toNat &&& 0xff))

end Gravastar
