import Gravastar.Bytes
import Gravastar.Lib.Traced

/-!
# Reading DNS packets (`dns_packet.cpp`)

Every function reads the packet through `peek` and `slice`, so that the indices
it touches stay visible next to its result. A `size_t` is a natural number, and
`none` stands for `return false`.
-/

namespace Gravastar
open Traced

def dnsTypeA : UInt16 := 1
def dnsTypeCname : UInt16 := 5
def dnsTypePtr : UInt16 := 12
def dnsTypeMx : UInt16 := 15
def dnsTypeTxt : UInt16 := 16
def dnsTypeAaaa : UInt16 := 28

structure DnsHeader where
  id : UInt16
  flags : UInt16
  qdcount : UInt16
  ancount : UInt16
  nscount : UInt16
  arcount : UInt16
  deriving DecidableEq, Repr

structure DnsQuestion where
  qname : Bytes
  qtype : UInt16
  qclass : UInt16
  rawOffset : Nat
  rawLength : Nat
  deriving DecidableEq, Repr

def readU16 (buf : Bytes) (offset : Nat) : Traced UInt16 := do
  let hi ← peek buf offset
  let lo ← peek buf (offset + 1)
  pure (UInt16.ofNat (hi.toNat <<< 8 ||| lo.toNat))

/-- A dot goes between labels, never in front of the first one. -/
def appendLabel (name label : Bytes) : Bytes :=
  (if name.isEmpty then name else name ++ [dot]) ++ label

/-! ## Names in questions: no compression -/

/-- The loop of `ParseQName`; it also ends, without an error, where the packet ends. -/
def parseQNameLoop (packet : Bytes) (pos : Nat) (name : Bytes) : Traced (Option (Bytes × Nat)) :=
  if pos < packet.length then do
    let len ← peek packet pos
    if len = 0 then
      pure (some (name, pos + 1))
    else if len &&& 0xC0 ≠ 0 then
      pure none
    else if pos + 1 + len.toNat > packet.length then
      pure none
    else do
      let label ← slice packet (pos + 1) len.toNat
      parseQNameLoop packet (pos + 1 + len.toNat) (appendLabel name label)
  else
    pure (some (name, pos))
termination_by packet.length - pos

def parseQName (packet : Bytes) (offset : Nat) : Traced (Option (Bytes × Nat)) := do
  match ← parseQNameLoop packet offset [] with
  | none => pure none
  | some (name, pos) => if pos > packet.length then pure none else pure (some (name, pos))

/-! ## Names in records: compression pointers -/

/-- The loop of `ReadName`. The measure drops a whole packet length with every
jump, and by the bytes consumed otherwise. -/
def readNameLoop (packet : Bytes) (pos jumpEnd : Nat) (jumped : Bool) (depth : Nat)
    (name : Bytes) : Traced (Option (Bytes × Nat)) :=
  if pos < packet.length then do
    let len ← peek packet pos
    if len = 0 then
      pure (some (name, if jumped then jumpEnd else pos + 1))
    else if len &&& 0xC0 = 0xC0 then
      if pos + 1 ≥ packet.length then
        pure none
      else do
        let low ← peek packet (pos + 1)
        let ptr := (len &&& 0x3F).toNat <<< 8 ||| low.toNat
        let jumpEnd := if jumped then jumpEnd else pos + 2
        if depth + 1 > 16 then
          pure none
        else
          readNameLoop packet ptr jumpEnd true (depth + 1) name
    else if len &&& 0xC0 ≠ 0 then
      pure none
    else if pos + 1 + len.toNat > packet.length then
      pure none
    else do
      let label ← slice packet (pos + 1) len.toNat
      readNameLoop packet (pos + 1 + len.toNat) jumpEnd jumped depth (appendLabel name label)
  else
    pure none
termination_by (17 - depth) * (packet.length + 1) + (packet.length - pos)
decreasing_by
  · have hd : 17 - depth = (17 - (depth + 1)) + 1 := by omega
    rw [hd, Nat.add_mul]
    omega
  · omega

/-- `ReadName`; every caller in the file starts it at depth 0. -/
def readName (packet : Bytes) (offset : Nat) (depth : Nat := 0) : Traced (Option (Bytes × Nat)) :=
  if depth > 16 then pure none else readNameLoop packet offset offset false depth []

/-! ## Queries -/

/-- `ParseDnsQuery` with both out-parameters present, as all its callers have it. -/
def parseDnsQuery (packet : Bytes) : Traced (Option (DnsHeader × DnsQuestion)) :=
  if packet.length < 12 then
    pure none
  else do
    let id ← readU16 packet 0
    let flags ← readU16 packet 2
    let qdcount ← readU16 packet 4
    let ancount ← readU16 packet 6
    let nscount ← readU16 packet 8
    let arcount ← readU16 packet 10
    if (← readU16 packet 4) = 0 then
      pure none
    else
      match ← parseQName packet 12 with
      | none => pure none
      | some (qname, e) =>
        if e + 4 > packet.length then
          pure none
        else do
          let qtype ← readU16 packet e
          let qclass ← readU16 packet (e + 2)
          pure (some (⟨id, flags, qdcount, ancount, nscount, arcount⟩,
            ⟨qname, qtype, qclass, 12, (e + 4) - 12⟩))

/-! ## Records -/

/-- The fixed part of a resource record and where its RDATA starts. -/
structure RecordHead where
  type : UInt16
  rdlength : UInt16
  rdataOffset : Nat
  deriving DecidableEq, Repr

/-- Offset of whatever follows the record. -/
def RecordHead.next (r : RecordHead) : Nat := r.rdataOffset + r.rdlength.toNat

/-- The question loop that opens both record walks. -/
def skipQuestions (packet : Bytes) : Nat → Nat → Traced (Option Nat)
  | 0, offset => pure (some offset)
  | n + 1, offset => do
    match ← readName packet offset with
    | none => pure none
    | some (_, e) =>
      if e + 4 > packet.length then pure none else skipQuestions packet n (e + 4)

/-- The part of the record loop that both record walks share: owner name, fixed
fields, and the check that the RDATA lies inside the packet. -/
def readRecord (packet : Bytes) (offset : Nat) : Traced (Option RecordHead) := do
  match ← readName packet offset with
  | none => pure none
  | some (_, e) =>
    if e + 10 > packet.length then
      pure none
    else do
      let type ← readU16 packet e
      let rdlength ← readU16 packet (e + 8)
      let rdataOffset := e + 10
      if rdataOffset + rdlength.toNat > packet.length then
        pure none
      else
        pure (some ⟨type, rdlength, rdataOffset⟩)

/-- The answer loop of `ExtractFirstPtrTarget`. -/
def firstPtrTarget (packet : Bytes) : Nat → Nat → Traced (Option Bytes)
  | 0, _ => pure none
  | n + 1, offset => do
    match ← readRecord packet offset with
    | none => pure none
    | some r =>
      if r.type = dnsTypePtr then
        match ← readName packet r.rdataOffset with
        | none => pure none
        | some (target, _) => pure (some target)
      else
        firstPtrTarget packet n r.next

/-- `ExtractFirstPtrTarget`. -/
def extractFirstPtrTarget (packet : Bytes) : Traced (Option Bytes) :=
  if packet.length < 12 then
    pure none
  else do
    let qdcount ← readU16 packet 4
    let ancount ← readU16 packet 6
    match ← skipQuestions packet qdcount.toNat 12 with
    | none => pure none
    | some offset => firstPtrTarget packet ancount.toNat offset

end Gravastar
