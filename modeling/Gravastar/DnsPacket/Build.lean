import Gravastar.DnsPacket.Read

/-!
# Building DNS responses (`dns_packet.cpp`)

`inet_pton` is libc's: the builders take it as a parameter, of which only the
two addresses that the server itself writes are known.
-/

namespace Gravastar

/-- libc's `inet_pton` for the two families, `none` where it does not return 1. -/
structure InetPton where
  inet : Bytes → Option (Vector UInt8 4)
  inet6 : Bytes → Option (Vector UInt8 16)
  inet_any : inet (ascii "0.0.0.0") = some (Vector.replicate 4 0)
  inet6_loopback : inet6 (ascii "::1") = some ((Vector.replicate 15 0).push 1)

/-- One that accepts nothing but these two texts. -/
def InetPton.own : InetPton where
  inet s := if s = ascii "0.0.0.0" then some (Vector.replicate 4 0) else none
  inet6 s := if s = ascii "::1" then some ((Vector.replicate 15 0).push 1) else none
  inet_any := if_pos rfl
  inet6_loopback := if_pos rfl

/-- `c_str()` as a C function sees it: the bytes before the first NUL. -/
def cStr (s : Bytes) : Bytes := s.takeWhile (· ≠ 0)

def writeU16 (value : UInt16) : Bytes :=
  [UInt8.ofNat (value.toNat >>> 8 &&& 0xff), UInt8.ofNat (value.toNat &&& 0xff)]

def writeU32 (value : UInt32) : Bytes :=
  [UInt8.ofNat (value.toNat >>> 24 &&& 0xff), UInt8.ofNat (value.toNat >>> 16 &&& 0xff),
    UInt8.ofNat (value.toNat >>> 8 &&& 0xff), UInt8.ofNat (value.toNat &&& 0xff)]

/-- The loop of `WriteQName` from `start` on; a length is cut to one byte. -/
def writeQNameLoop (name : Bytes) (start : Nat) : Bytes :=
  if start < name.length then
    let label := (name.drop start).takeWhile (· ≠ dot)
    UInt8.ofNat label.length :: label ++ writeQNameLoop name (start + label.length + 1)
  else
    [0]
termination_by name.length - start

def writeQName (name : Bytes) : Bytes := if name.isEmpty then [0] else writeQNameLoop name 0

def responseFlags (queryHeader : DnsHeader) : UInt16 :=
  0x8000 ||| (queryHeader.flags &&& 0x0100) ||| 0x0080

def buildResponseHeader (queryHeader : DnsHeader) (qdcount ancount : UInt16) : Bytes :=
  writeU16 queryHeader.id ++ writeU16 (responseFlags queryHeader) ++ writeU16 qdcount ++
    writeU16 ancount ++ writeU16 0 ++ writeU16 0

/-- `AppendQuestion`. -/
def appendQuestion (question : DnsQuestion) : Bytes :=
  writeQName question.qname ++ writeU16 question.qtype ++ writeU16 question.qclass

def buildEmptyResponse (queryHeader : DnsHeader) (question : DnsQuestion) : Bytes :=
  buildResponseHeader queryHeader 1 0 ++ appendQuestion question

/-- Every `Build*Response` with an answer: header, question, then one record of
class 1 and TTL 60 under the query's own name. -/
def buildResponse (queryHeader : DnsHeader) (question : DnsQuestion) (type : UInt16)
    (rdata : Bytes) : Bytes :=
  buildResponseHeader queryHeader 1 1 ++ appendQuestion question ++ writeQName question.qname ++
    writeU16 type ++ writeU16 1 ++ writeU32 60 ++ writeU16 (UInt16.ofNat rdata.length) ++ rdata

/-- The four address bytes, zeros where `inet_pton` rejects the text. -/
def ipv4Rdata (pton : InetPton) (ipv4 : Bytes) : Bytes :=
  ((pton.inet (cStr ipv4)).getD (Vector.replicate 4 0)).toList

def ipv6Rdata (pton : InetPton) (ipv6 : Bytes) : Bytes :=
  ((pton.inet6 (cStr ipv6)).getD (Vector.replicate 16 0)).toList

/-- The chunk loop of `BuildTXTResponse`. -/
def txtChunks (text : Bytes) (offset : Nat) : Bytes :=
  if offset < text.length then
    let chunk := min (text.length - offset) 255
    UInt8.ofNat chunk :: (text.drop offset).take chunk ++ txtChunks text (offset + chunk)
  else
    []
termination_by text.length - offset

def txtRdata (text : Bytes) : Bytes := if text.isEmpty then [0] else txtChunks text 0

def mxRdata (preference : UInt16) (exchange : Bytes) : Bytes :=
  writeU16 preference ++ writeQName exchange

def buildAResponse (pton : InetPton) (queryHeader : DnsHeader) (question : DnsQuestion)
    (ipv4 : Bytes) : Bytes :=
  buildResponse queryHeader question dnsTypeA (ipv4Rdata pton ipv4)

def buildAAAAResponse (pton : InetPton) (queryHeader : DnsHeader) (question : DnsQuestion)
    (ipv6 : Bytes) : Bytes :=
  buildResponse queryHeader question dnsTypeAaaa (ipv6Rdata pton ipv6)

def buildCNAMEResponse (queryHeader : DnsHeader) (question : DnsQuestion) (target : Bytes) :
    Bytes :=
  buildResponse queryHeader question dnsTypeCname (writeQName target)

def buildPTRResponse (queryHeader : DnsHeader) (question : DnsQuestion) (target : Bytes) :
    Bytes :=
  buildResponse queryHeader question dnsTypePtr (writeQName target)

def buildTXTResponse (queryHeader : DnsHeader) (question : DnsQuestion) (text : Bytes) : Bytes :=
  buildResponse queryHeader question dnsTypeTxt (txtRdata text)

def buildMXResponse (queryHeader : DnsHeader) (question : DnsQuestion) (preference : UInt16)
    (exchange : Bytes) : Bytes :=
  buildResponse queryHeader question dnsTypeMx (mxRdata preference exchange)

end Gravastar
