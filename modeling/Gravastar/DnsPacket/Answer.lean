import Gravastar.DnsPacket.Query

/-!
# Decoding the answers that are built locally

`decodeMessage` reads a message the way its receiver does: fixed fields as in
RFC 1035, names with `ReadName`, as many questions and records as the header
counts, and nothing behind them. Every builder's message decodes to the question
and one answer, and the RDATA of the answer to the value it was built from.
-/

namespace Gravastar
open Traced

/-! ## The receiver -/

structure WireQuestion where
  qname : Bytes
  qtype : UInt16
  qclass : UInt16
  deriving DecidableEq, Repr

/-- A record's fields, and where its RDATA starts. -/
structure WireRecord where
  owner : Bytes
  type : UInt16
  cls : UInt16
  ttl : Nat
  rdlength : UInt16
  rdata : Nat
  deriving DecidableEq, Repr

def readU32 (buf : Bytes) (offset : Nat) : Nat :=
  (readU16 buf offset).val.toNat * 65536 + (readU16 buf (offset + 2)).val.toNat

def decodeQuestion (msg : Bytes) (offset : Nat) : Option (WireQuestion × Nat) :=
  match (readName msg offset).val with
  | none => none
  | some (qname, e) =>
    if e + 4 ≤ msg.length then
      some (⟨qname, (readU16 msg e).val, (readU16 msg (e + 2)).val⟩, e + 4)
    else none

def decodeRecord (msg : Bytes) (offset : Nat) : Option (WireRecord × Nat) :=
  match (readName msg offset).val with
  | none => none
  | some (owner, e) =>
    if e + 10 ≤ msg.length then
      let r : WireRecord := ⟨owner, (readU16 msg e).val, (readU16 msg (e + 2)).val,
        readU32 msg (e + 4), (readU16 msg (e + 8)).val, e + 10⟩
      if r.rdata + r.rdlength.toNat ≤ msg.length then some (r, r.rdata + r.rdlength.toNat)
      else none
    else none

/-- `n` items in a row. -/
def decodeMany {α : Type} (decode : Nat → Option (α × Nat)) : Nat → Nat → Option (List α × Nat)
  | 0, offset => some ([], offset)
  | n + 1, offset =>
    match decode offset with
    | none => none
    | some (x, e) =>
      match decodeMany decode n e with
      | none => none
      | some (xs, e) => some (x :: xs, e)

/-- Header, questions and records of a message that ends behind its last record. -/
def decodeMessage (msg : Bytes) : Option (DnsHeader × List WireQuestion × List WireRecord) :=
  if msg.length < 12 then none
  else
    let h := headerAt msg
    match decodeMany (decodeQuestion msg) h.qdcount.toNat 12 with
    | none => none
    | some (questions, e) =>
      match decodeMany (decodeRecord msg)
        (h.ancount.toNat + h.nscount.toNat + h.arcount.toNat) e with
      | none => none
      | some (records, e) => if e = msg.length then some (h, questions, records) else none

/-- The character-strings of a TXT record's RDATA. -/
def decodeStrings : Bytes → Option (List Bytes)
  | [] => some []
  | len :: rest =>
    if len.toNat ≤ rest.length then
      (decodeStrings (rest.drop len.toNat)).map (rest.take len.toNat :: ·)
    else none
termination_by rdata => rdata.length
decreasing_by
  simp only [List.length_drop, List.length_cons]
  omega

/-! ## What the builders write -/

theorem readName_of_drop {msg rest : Bytes} {i : Nat} {ls : List Label}
    (h : msg.drop i = encodeName ls ++ rest) :
    (readName msg i).val = some (nameText ls, i + (encodeName ls).length) := by
  have hpre : encodeName ls <+: msg.drop i := h ▸ List.prefix_append ..
  have hat := NameAt.of_prefix hpre
  have hread := readNameLoop_complete hat i false 0 [] (by omega)
  simpa [readName, foldl_appendLabel_nil] using hread

theorem readU32_of_drop {buf rest : Bytes} {i : Nat} (h : buf.drop i = writeU32 60 ++ rest) :
    readU32 buf i = 60 := by
  have h0 : buf.drop i = writeU16 0 ++ (writeU16 60 ++ rest) := h
  have h2 : buf.drop (i + 2) = writeU16 60 ++ rest := drop_of_drop h0 rfl
  rw [readU32, readU16_of_drop h0, readU16_of_drop h2]
  rfl

theorem length_of_drop {buf s rest : Bytes} {i : Nat} (h : buf.drop i = s ++ rest)
    (hs : 0 < s.length) : i + s.length + rest.length = buf.length := by
  have hlen := congrArg List.length h
  rw [List.length_drop, List.length_append] at hlen
  omega

theorem decodeQuestion_of_drop {msg rest : Bytes} {i : Nat} {ls : List Label}
    {qtype qclass : UInt16}
    (h : msg.drop i = encodeName ls ++ (writeU16 qtype ++ (writeU16 qclass ++ rest))) :
    decodeQuestion msg i =
      some (⟨nameText ls, qtype, qclass⟩, i + (encodeName ls).length + 4) := by
  have hqtype := drop_of_drop h rfl
  have hqclass : msg.drop (i + (encodeName ls).length + 2) = writeU16 qclass ++ rest :=
    drop_of_drop hqtype rfl
  have hlen := length_of_drop hqclass Nat.zero_lt_two
  rw [length_writeU16] at hlen
  rw [decodeQuestion, readName_of_drop h]
  simp only [if_pos (show i + (encodeName ls).length + 4 ≤ msg.length by omega),
    readU16_of_drop hqtype, readU16_of_drop hqclass]

section
variable {msg rdata : Bytes} {i : Nat} {ls : List Label} {type rdlength : UInt16}
  (h : msg.drop i = encodeName ls ++
    (writeU16 type ++ (writeU16 1 ++ (writeU32 60 ++ (writeU16 rdlength ++ rdata)))))
include h

theorem rdlength_of_drop :
    msg.drop (i + (encodeName ls).length + 8) = writeU16 rdlength ++ rdata := by
  have htype := drop_of_drop h rfl
  have hcls : msg.drop (i + (encodeName ls).length + 2) = writeU16 1 ++ _ :=
    drop_of_drop htype rfl
  have httl : msg.drop (i + (encodeName ls).length + 4) = writeU32 60 ++ _ :=
    drop_of_drop hcls rfl
  exact drop_of_drop httl rfl

theorem rdata_of_drop : msg.drop (i + (encodeName ls).length + 10) = rdata ∧
    i + (encodeName ls).length + 10 + rdata.length = msg.length :=
  ⟨drop_of_drop (rdlength_of_drop h) rfl, length_of_drop (rdlength_of_drop h) Nat.zero_lt_two⟩

/-- A record of class 1 and TTL 60 whose RDLENGTH counts no more than what is behind it. -/
theorem decodeRecord_of_drop (hle : rdlength.toNat ≤ rdata.length) :
    decodeRecord msg i =
      some (⟨nameText ls, type, 1, 60, rdlength, i + (encodeName ls).length + 10⟩,
        i + (encodeName ls).length + 10 + rdlength.toNat) := by
  have htype := drop_of_drop h rfl
  have hcls : msg.drop (i + (encodeName ls).length + 2) = writeU16 1 ++ _ :=
    drop_of_drop htype rfl
  have httl : msg.drop (i + (encodeName ls).length + 4) = writeU32 60 ++ _ :=
    drop_of_drop hcls rfl
  have hlen := (rdata_of_drop h).2
  rw [decodeRecord, readName_of_drop h]
  simp only [if_pos (show i + (encodeName ls).length + 10 ≤ msg.length by omega),
    readU16_of_drop htype, readU16_of_drop hcls, readU32_of_drop httl,
    readU16_of_drop (rdlength_of_drop h)]
  rw [if_pos (by omega)]

end

/-- The one record of a built response: its RDLENGTH is cut to 16 bits. -/
theorem decodeMessage_buildResponse (header : DnsHeader) {question : DnsQuestion}
    {ls : List Label} (hd : DotFree ls) (htext : question.qname = nameText ls) (type : UInt16)
    (rdata : Bytes) :
    ∃ offset, (buildResponse header question type rdata).drop offset = rdata ∧
      offset + rdata.length = (buildResponse header question type rdata).length ∧
      decodeMessage (buildResponse header question type rdata) =
        if rdata.length < 65536 then
          some (⟨header.id, responseFlags header, 1, 1, 0, 0⟩,
            [⟨question.qname, question.qtype, question.qclass⟩],
            [⟨question.qname, type, 1, 60, UInt16.ofNat rdata.length, offset⟩])
        else none := by
  set msg := buildResponse header question type rdata
  have heq : msg = buildResponseHeader header 1 1 ++ (appendQuestion question ++ _) :=
    buildResponse_eq ..
  have hheader : headerAt msg = _ := heq ▸ headerAt_response ..
  have h12 : msg.drop 12 = appendQuestion question ++ _ := heq ▸ drop_response ..
  rw [appendQuestion, writeQName_eq ⟨hd, .inl htext⟩, List.append_assoc, List.append_assoc] at h12
  have hqtype := drop_of_drop h12 rfl
  have hqclass := drop_of_drop hqtype rfl
  have howner : msg.drop (12 + (encodeName ls).length + 4) = encodeName ls ++ _ :=
    drop_of_drop hqclass rfl
  obtain ⟨hrdata, hlen⟩ := rdata_of_drop howner
  have hcut : (UInt16.ofNat rdata.length).toNat = rdata.length % 65536 := UInt16.toNat_ofNat' ..
  have hquestion := decodeQuestion_of_drop h12
  have hrecord := decodeRecord_of_drop howner (hcut.trans_le (Nat.mod_le ..))
  refine ⟨_, hrdata, hlen, ?_⟩
  rw [decodeMessage, if_neg (by omega), hheader]
  simp only [show (1 : UInt16).toNat = 1 from rfl, show (0 : UInt16).toNat = 0 from rfl,
    Nat.add_zero, decodeMany, hquestion, hrecord, hcut, htext]
  by_cases hfit : rdata.length < 65536
  · rw [if_pos hfit, if_pos (by omega)]
  · rw [if_neg hfit, if_neg (by omega)]

/-! ## TXT -/

/-- The chunks decode to character-strings that make up the rest of the text. -/
theorem decodeStrings_txtChunks (text : Bytes) (offset : Nat) :
    ∃ strings, decodeStrings (txtChunks text offset) = some strings ∧
      (∀ s ∈ strings, s.length ≤ 255) ∧ strings.flatten = text.drop offset := by
  induction offset using txtChunks.induct text with
  | case1 offset hin chunk ih =>
    obtain ⟨strings, hdecode, hshort, hflat⟩ := ih
    have hchunk : chunk ≤ 255 := Nat.min_le_right ..
    have hlen : ((text.drop offset).take chunk).length = chunk := by
      simp only [List.length_take, List.length_drop, chunk]
      omega
    have hnat : (UInt8.ofNat chunk).toNat = ((text.drop offset).take chunk).length := by
      rw [UInt8.toNat_ofNat', hlen]
      omega
    refine ⟨(text.drop offset).take chunk :: strings, ?_, ?_, ?_⟩
    · rw [txtChunks, if_pos hin]
      change decodeStrings
        (UInt8.ofNat chunk :: (text.drop offset).take chunk ++ txtChunks text (offset + chunk)) = _
      rw [List.cons_append, decodeStrings, hnat, if_pos (by rw [List.length_append]; omega),
        List.drop_left, List.take_left, hdecode]
      rfl
    · exact List.forall_mem_cons.mpr ⟨hlen.trans_le hchunk, hshort⟩
    · rw [List.flatten_cons, hflat, ← List.drop_drop, List.take_append_drop]
  | case2 offset hout =>
    rw [txtChunks, if_neg hout, List.drop_eq_nil_of_le (by omega)]
    exact ⟨[], by rw [decodeStrings], by simp, rfl⟩

theorem decodeStrings_txtRdata (text : Bytes) :
    ∃ strings, decodeStrings (txtRdata text) = some strings ∧
      (∀ s ∈ strings, s.length ≤ 255) ∧ strings.flatten = text := by
  rw [txtRdata]
  by_cases h : text.isEmpty
  · rw [if_pos h, List.isEmpty_iff.mp h]
    exact ⟨[[]], by simp [decodeStrings], by simp, rfl⟩
  · rw [if_neg h]
    exact decodeStrings_txtChunks text 0

/-- Every 255 bytes of text, and the rest of it, cost one length byte. -/
theorem length_txtChunks (text : Bytes) (offset : Nat) :
    (txtChunks text offset).length =
      (text.length - offset) + (text.length - offset + 254) / 255 := by
  induction offset using txtChunks.induct text with
  | case1 offset hin chunk ih =>
    rw [txtChunks, if_pos hin]
    dsimp only
    rw [List.length_append, List.length_cons, List.length_take, List.length_drop, ih]
    simp only [chunk]
    omega
  | case2 offset hout =>
    rw [txtChunks, if_neg hout, List.length_nil]
    omega

/-! ## The round trip -/

/-- `msg` holds the question and one answer of this type under its name, and no record in another
section. The answer has class 1, TTL 60 and an RDLENGTH that covers all the bytes left, which
`value` describes from their offset on. -/
def DecodesTo (msg : Bytes) (question : DnsQuestion) (type : UInt16) (value : Nat → Prop) : Prop :=
  ∃ id flags rdlength offset,
    decodeMessage msg = some (⟨id, flags, 1, 1, 0, 0⟩,
      [⟨question.qname, question.qtype, question.qclass⟩],
      [⟨question.qname, type, 1, 60, rdlength, offset⟩]) ∧
    offset + rdlength.toNat = msg.length ∧ value offset

/-- A name stands at `offset` and ends with the message. -/
def NameUpToEnd (msg : Bytes) (labels : List Label) (offset : Nat) : Prop :=
  (readName msg offset).val = some (nameText labels, msg.length)

/-- Character-strings of at most 255 bytes fill the rest, and together give the text. -/
def StringsUpToEnd (msg text : Bytes) (offset : Nat) : Prop :=
  ∃ strings, decodeStrings (msg.drop offset) = some strings ∧
    (∀ s ∈ strings, s.length ≤ 255) ∧ strings.flatten = text

theorem decodesTo_buildResponse (header : DnsHeader) {question : DnsQuestion} {ls : List Label}
    (hd : DotFree ls) (htext : question.qname = nameText ls) (type : UInt16) {rdata : Bytes}
    (hfit : rdata.length ≤ 65535) {value : Nat → Prop}
    (hvalue : ∀ offset, (buildResponse header question type rdata).drop offset = rdata →
      offset + rdata.length = (buildResponse header question type rdata).length → value offset) :
    DecodesTo (buildResponse header question type rdata) question type value := by
  obtain ⟨offset, hrdata, hlen, hdecode⟩ :=
    decodeMessage_buildResponse header hd htext type rdata
  rw [if_pos (by omega)] at hdecode
  refine ⟨_, _, _, offset, hdecode, ?_, hvalue offset hrdata hlen⟩
  rw [UInt16.toNat_ofNat', ← hlen]
  omega

theorem nameUpToEnd {msg : Bytes} {ls : List Label} {offset : Nat}
    (hdrop : msg.drop offset = encodeName ls)
    (hlen : offset + (encodeName ls).length = msg.length) : NameUpToEnd msg ls offset := by
  rw [NameUpToEnd, readName_of_drop (hdrop.trans (List.append_nil _).symm), hlen]

/-- What the six builders write for a dot-joined name decodes to the question and to the value:
an address, a name, a preference with a name, or a text. -/
theorem built_answers_decode (pton : InetPton) (header : DnsHeader) (question : DnsQuestion)
    (hname : ∃ ls, DotFree ls ∧ question.qname = nameText ls) :
    (∀ ipv4, DecodesTo (buildAResponse pton header question ipv4) question dnsTypeA
      fun o => (buildAResponse pton header question ipv4).drop o =
        ((pton.inet (cStr ipv4)).getD (Vector.replicate 4 0)).toList) ∧
    (∀ ipv6, DecodesTo (buildAAAAResponse pton header question ipv6) question dnsTypeAaaa
      fun o => (buildAAAAResponse pton header question ipv6).drop o =
        ((pton.inet6 (cStr ipv6)).getD (Vector.replicate 16 0)).toList) ∧
    (∀ target labels, WritesName target labels → (encodeName labels).length ≤ 65535 →
      DecodesTo (buildCNAMEResponse header question target) question dnsTypeCname
        (NameUpToEnd (buildCNAMEResponse header question target) labels) ∧
      DecodesTo (buildPTRResponse header question target) question dnsTypePtr
        (NameUpToEnd (buildPTRResponse header question target) labels)) ∧
    (∀ preference exchange labels, WritesName exchange labels →
      2 + (encodeName labels).length ≤ 65535 →
      DecodesTo (buildMXResponse header question preference exchange) question dnsTypeMx
        fun o => (readU16 (buildMXResponse header question preference exchange) o).val =
            preference ∧
          NameUpToEnd (buildMXResponse header question preference exchange) labels (o + 2)) ∧
    (∀ text, (txtRdata text).length ≤ 65535 →
      DecodesTo (buildTXTResponse header question text) question dnsTypeTxt
        (StringsUpToEnd (buildTXTResponse header question text) text)) := by
  obtain ⟨ls, hd, htext⟩ := hname
  refine ⟨fun ipv4 => ?_, fun ipv6 => ?_, fun target labels htarget hfit => ⟨?_, ?_⟩,
    fun preference exchange labels hexchange hfit => ?_, fun text hfit => ?_⟩
  · exact decodesTo_buildResponse header hd htext _ (by simp [ipv4Rdata])
      fun o hdrop _ => hdrop
  · exact decodesTo_buildResponse header hd htext _ (by simp [ipv6Rdata])
      fun o hdrop _ => hdrop
  · have heq := writeQName_eq htarget
    exact decodesTo_buildResponse header hd htext _ (heq ▸ hfit)
      fun o hdrop hlen => nameUpToEnd (hdrop.trans heq) (heq ▸ hlen)
  · have heq := writeQName_eq htarget
    exact decodesTo_buildResponse header hd htext _ (heq ▸ hfit)
      fun o hdrop hlen => nameUpToEnd (hdrop.trans heq) (heq ▸ hlen)
  · have hmx : mxRdata preference exchange = writeU16 preference ++ encodeName labels :=
      congrArg _ (writeQName_eq hexchange)
    have hmxlen : (mxRdata preference exchange).length = 2 + (encodeName labels).length := by
      rw [hmx, List.length_append, length_writeU16]
    refine decodesTo_buildResponse header hd htext _ (hmxlen ▸ hfit) fun o hdrop hlen => ?_
    have hdrop' := hdrop.trans hmx
    rw [hmxlen, ← Nat.add_assoc] at hlen
    exact ⟨readU16_of_drop hdrop', nameUpToEnd (drop_of_drop hdrop' rfl) hlen⟩
  · refine decodesTo_buildResponse header hd htext _ hfit fun o hdrop _ => ?_
    rw [StringsUpToEnd, buildTXTResponse, hdrop]
    exact decodeStrings_txtRdata text

/-- The query `a. IN MX`, answered with preference 10 and the exchange written `b.`. -/
theorem built_mx_decodes :
    DecodesTo (buildMXResponse ⟨1, 0, 1, 0, 0, 0⟩ ⟨[97], 15, 1, 12, 7⟩ 10 [98, 46])
      ⟨[97], 15, 1, 12, 7⟩ dnsTypeMx fun o =>
        (readU16 (buildMXResponse ⟨1, 0, 1, 0, 0, 0⟩ ⟨[97], 15, 1, 12, 7⟩ 10 [98, 46]) o).val = 10 ∧
          NameUpToEnd (buildMXResponse ⟨1, 0, 1, 0, 0, 0⟩ ⟨[97], 15, 1, 12, 7⟩ 10 [98, 46])
            [⟨[98], by decide, by decide⟩] (o + 2) :=
  (built_answers_decode InetPton.own ⟨1, 0, 1, 0, 0, 0⟩ ⟨[97], 15, 1, 12, 7⟩
    ⟨[⟨[97], by decide, by decide⟩], by decide, by decide⟩).2.2.2.1 10 [98, 46]
    [⟨[98], by decide, by decide⟩] (by decide) (by decide)

theorem length_txtRdata {text : Bytes} (h : text ≠ []) :
    (txtRdata text).length = text.length + (text.length + 254) / 255 := by
  rw [txtRdata, if_neg (by simpa using h), length_txtChunks]
  rfl

/-- 65280 bytes of text make 65536 bytes of RDATA, whose RDLENGTH is cut to 0. -/
theorem built_txt_not_decoded :
    ¬ DecodesTo
      (buildTXTResponse ⟨1, 0, 1, 0, 0, 0⟩ ⟨[97], 16, 1, 12, 7⟩ (List.replicate 65280 120))
      ⟨[97], 16, 1, 12, 7⟩ dnsTypeTxt
      (StringsUpToEnd
        (buildTXTResponse ⟨1, 0, 1, 0, 0, 0⟩ ⟨[97], 16, 1, 12, 7⟩ (List.replicate 65280 120))
        (List.replicate 65280 120)) := by
  rintro ⟨_, _, _, _, hdecode, -⟩
  have hlen : (txtRdata (List.replicate 65280 120)).length = 65536 := by
    have hpos : 0 < (List.replicate 65280 (120 : UInt8)).length := by
      rw [List.length_replicate]
      omega
    rw [length_txtRdata (List.ne_nil_of_length_pos hpos), List.length_replicate]
  obtain ⟨_, -, -, hnone⟩ := @decodeMessage_buildResponse ⟨1, 0, 1, 0, 0, 0⟩
    ⟨[97], 16, 1, 12, 7⟩ [⟨[97], by decide, by decide⟩] (by decide) (by decide) dnsTypeTxt
    (txtRdata (List.replicate 65280 120))
  rw [buildTXTResponse, hnone, if_neg (by omega)] at hdecode
  exact absurd hdecode (by simp)

end Gravastar
