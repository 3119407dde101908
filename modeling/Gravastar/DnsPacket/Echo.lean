import Gravastar.DnsPacket.Query

/-!
# The question in a response

Every builder starts with a fresh header and a re-encoded question. The header
always matches the query; the question does exactly if no label of the query
holds a dot, although the query's own bytes were at hand in `raw_offset` and
`raw_length`.
-/

namespace Gravastar
open Traced

/-- The responses the builders can make for one query. -/
inductive Built (pton : InetPton) (header : DnsHeader) (question : DnsQuestion) : Bytes → Prop
  | empty : Built pton header question (buildEmptyResponse header question)
  | a (ipv4 : Bytes) : Built pton header question (buildAResponse pton header question ipv4)
  | aaaa (ipv6 : Bytes) : Built pton header question (buildAAAAResponse pton header question ipv6)
  | cname (target : Bytes) : Built pton header question (buildCNAMEResponse header question target)
  | ptr (target : Bytes) : Built pton header question (buildPTRResponse header question target)
  | txt (text : Bytes) : Built pton header question (buildTXTResponse header question text)
  | mx (preference : UInt16) (exchange : Bytes) :
      Built pton header question (buildMXResponse header question preference exchange)

/-- A header with the query's ID, QR, the query's RD and one question, then the question's
own bytes. -/
structure EchoesQuery (packet : Bytes) (question : DnsQuestion) (response : Bytes) : Prop where
  length : 12 ≤ response.length
  id : (readU16 response 0).val = (readU16 packet 0).val
  qr : (readU16 response 2).val &&& 0x8000 = 0x8000
  rd : (readU16 response 2).val &&& 0x0100 = (readU16 packet 2).val &&& 0x0100
  qdcount : (readU16 response 4).val = 1
  question : (packet.drop question.rawOffset).take question.rawLength <+: response.drop 12

theorem responseFlags_qr (header : DnsHeader) :
    responseFlags header &&& 0x8000 = 0x8000 := by
  refine UInt16.toBitVec_inj.mp ?_
  simp only [responseFlags, UInt16.toBitVec_and, UInt16.toBitVec_or]
  rw [BitVec.and_or_distrib_right, BitVec.and_or_distrib_right, BitVec.and_assoc]
  simp

theorem responseFlags_rd (header : DnsHeader) :
    responseFlags header &&& 0x0100 = header.flags &&& 0x0100 := by
  refine UInt16.toBitVec_inj.mp ?_
  simp only [responseFlags, UInt16.toBitVec_and, UInt16.toBitVec_or]
  rw [BitVec.and_or_distrib_right, BitVec.and_or_distrib_right, BitVec.and_assoc]
  simp

/-- All builders start alike. -/
theorem Built.head {pton : InetPton} {header : DnsHeader} {question : DnsQuestion}
    {response : Bytes} (h : Built pton header question response) :
    ∃ ancount rest, response =
      buildResponseHeader header 1 ancount ++ (appendQuestion question ++ rest) := by
  cases h
  case empty => exact ⟨0, [], by simp [buildEmptyResponse]⟩
  all_goals exact ⟨1, _, buildResponse_eq ..⟩

/-- The question section of a query is what `raw_offset` and `raw_length` point at. -/
theorem IsQuery.raw {packet : Bytes} {ls : List Label} (h : IsQuery packet ls) :
    (packet.drop (questionAt packet ls).rawOffset).take (questionAt packet ls).rawLength =
      encodeName ls ++ (writeU16 (questionAt packet ls).qtype ++
        writeU16 (questionAt packet ls).qclass) := by
  obtain ⟨rest, hrest⟩ := h.name
  have hfit := h.complete
  have hdrop := drop_of_drop hrest.symm rfl
  rw [drop_eq_writeU16 (by omega), drop_eq_writeU16 (by omega)] at hdrop
  have hlen : (encodeName ls).length + 4 =
      (encodeName ls ++ (writeU16 (questionAt packet ls).qtype ++
        writeU16 (questionAt packet ls).qclass)).length := by
    simp
  rw [show (questionAt packet ls).rawLength = (encodeName ls).length + 4 from rfl, hlen,
    show (questionAt packet ls).rawOffset = 12 from rfl, ← hrest, ← hdrop,
    show ∀ a b c d : Bytes, a ++ (b ++ (c ++ d)) = (a ++ (b ++ c)) ++ d by simp]
  exact List.take_left

theorem echoes_iff {packet : Bytes} {ls : List Label} (h : IsQuery packet ls) (ancount : UInt16)
    (rest : Bytes) :
    EchoesQuery packet (questionAt packet ls)
      (buildResponseHeader (headerAt packet) 1 ancount ++
        (appendQuestion (questionAt packet ls) ++ rest)) ↔ DotFree ls := by
  set q := questionAt packet ls
  set response := buildResponseHeader (headerAt packet) 1 ancount ++ (appendQuestion q ++ rest)
    with hresponse
  have hheader : headerAt response = _ := headerAt_response ..
  have h12 : response.drop 12 = appendQuestion q ++ rest := drop_response ..
  constructor
  · intro hecho
    have hpre := hecho.question
    rw [h.raw, h12, appendQuestion, List.append_assoc, List.append_assoc] at hpre
    exact encodeName_prefix_writeQName.mp ((List.prefix_append ..).trans hpre)
  · intro hd
    have hid := congrArg DnsHeader.id hheader
    have hflags : (readU16 response 2).val = responseFlags (headerAt packet) :=
      congrArg DnsHeader.flags hheader
    have hqd := congrArg DnsHeader.qdcount hheader
    refine ⟨by simp [hresponse], hid, ?_, ?_, hqd, ?_⟩
    · rw [hflags, responseFlags_qr]
    · rw [hflags, responseFlags_rd]
      rfl
    · have hname : writeQName q.qname = encodeName ls := writeQName_eq ⟨hd, .inl rfl⟩
      rw [h.raw, h12, appendQuestion, hname, ← List.append_assoc]
      exact List.prefix_append ..

/-- Whatever the builder and its value, the response to a query echoes it exactly if no label
of its first question holds a dot. -/
theorem question_echo (pton : InetPton) (packet : Bytes) (header : DnsHeader)
    (question : DnsQuestion) (hparse : (parseDnsQuery packet).val = some (header, question))
    (response : Bytes) (hbuilt : Built pton header question response) :
    EchoesQuery packet question response ↔
      ∃ ls, encodeName ls <+: packet.drop 12 ∧ DotFree ls := by
  obtain ⟨ls, hls, rfl, rfl⟩ := parseDnsQuery_iff.mp hparse
  obtain ⟨ancount, rest, rfl⟩ := hbuilt.head
  rw [echoes_iff hls]
  refine ⟨fun hd => ⟨ls, hls.name, hd⟩, ?_⟩
  rintro ⟨ms, hms, hd⟩
  rwa [encodeName_unique hls.name hms]

/-- The query `a. IN A` is echoed. -/
theorem question_echo_plain :
    EchoesQuery [18, 52, 1, 0, 0, 1, 0, 0, 0, 0, 0, 0, 1, 97, 0, 0, 1, 0, 1] ⟨[97], 1, 1, 12, 7⟩
        (buildEmptyResponse ⟨0x1234, 0x0100, 1, 0, 0, 0⟩ ⟨[97], 1, 1, 12, 7⟩) ↔
      ∃ ls, encodeName ls <+:
        [18, 52, 1, 0, 0, 1, 0, 0, 0, 0, 0, 0, 1, 97, 0, 0, 1, 0, 1].drop 12 ∧ DotFree ls :=
  question_echo InetPton.own [18, 52, 1, 0, 0, 1, 0, 0, 0, 0, 0, 0, 1, 97, 0, 0, 1, 0, 1]
    ⟨0x1234, 0x0100, 1, 0, 0, 0⟩ ⟨[97], 1, 1, 12, 7⟩ (by decide +kernel) _ .empty

/-- The one label `a.b` of a query comes back as the two labels `a` and `b`. -/
theorem question_not_echoed :
    ¬ ∀ (pton : InetPton) (packet : Bytes) (header : DnsHeader) (question : DnsQuestion),
      (parseDnsQuery packet).val = some (header, question) →
        ∀ response, Built pton header question response →
          EchoesQuery packet question response := by
  intro h
  have hecho := h InetPton.own
    [18, 52, 1, 0, 0, 1, 0, 0, 0, 0, 0, 0, 3, 97, 46, 98, 0, 0, 1, 0, 1]
    ⟨0x1234, 0x0100, 1, 0, 0, 0⟩ ⟨[97, 46, 98], 1, 1, 12, 9⟩ (by decide +kernel) _ .empty
  exact absurd hecho.question (by decide +kernel)

end Gravastar
