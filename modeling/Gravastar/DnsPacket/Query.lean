import Gravastar.DnsPacket.Encode

/-!
# What `ParseDnsQuery` accepts, and how the question is echoed

A query is accepted when it has a header, claims at least one question and the
first question is complete and uncompressed. The response builders do not copy
the question: they write the decoded name again.
-/

namespace Gravastar
open Traced

/-- The six fields of the header. -/
def headerAt (packet : Bytes) : DnsHeader :=
  ⟨(readU16 packet 0).val, (readU16 packet 2).val, (readU16 packet 4).val,
    (readU16 packet 6).val, (readU16 packet 8).val, (readU16 packet 10).val⟩

/-- The first question, with the labels of its name. -/
def questionAt (packet : Bytes) (labels : List Label) : DnsQuestion :=
  let e := 12 + (encodeName labels).length
  ⟨nameText labels, (readU16 packet e).val, (readU16 packet (e + 2)).val, 12,
    (encodeName labels).length + 4⟩

/-- The packet is long enough, claims a question, and the first one has these labels. -/
structure IsQuery (packet : Bytes) (labels : List Label) : Prop where
  qdcount : (readU16 packet 4).val ≠ 0
  name : encodeName labels <+: packet.drop 12
  complete : 12 + (encodeName labels).length + 4 ≤ packet.length

/-- The labels up to ASCII letter case. -/
def foldedLabels (labels : List Label) : List Bytes := labels.map fun l => toLower l.bytes

/-- The first questions of two packets are the same DNS question. -/
def SameQuestion (p q : Bytes) : Prop :=
  ∃ ls ms, IsQuery p ls ∧ IsQuery q ms ∧ foldedLabels ls = foldedLabels ms ∧
    (questionAt p ls).qtype = (questionAt q ms).qtype ∧
    (questionAt p ls).qclass = (questionAt q ms).qclass

theorem parseDnsQuery_iff {packet : Bytes} {header : DnsHeader} {question : DnsQuestion} :
    (parseDnsQuery packet).val = some (header, question) ↔
      ∃ ls, IsQuery packet ls ∧ header = headerAt packet ∧ question = questionAt packet ls := by
  rw [parseDnsQuery]
  by_cases hlen : packet.length < 12
  · rw [if_pos hlen]
    refine ⟨by simp, ?_⟩
    rintro ⟨ls, h, -⟩
    have := h.complete
    omega
  rw [if_neg hlen]
  simp only [val_bind, val_ite, val_pure]
  by_cases hq : (readU16 packet 4).val = 0
  · rw [if_pos hq]
    exact ⟨by simp, fun ⟨ls, h, _⟩ => absurd hq h.qdcount⟩
  rw [if_neg hq]
  have hsome : ∀ {n e}, (parseQName packet 12).val = some (n, e) → e + 4 ≤ packet.length →
      ∃ ls, IsQuery packet ls ∧ e = 12 + (encodeName ls).length ∧ n = nameText ls := by
    intro n e h he
    obtain ⟨ls, hpre, rfl, rfl⟩ := (val_parseQName_iff (by omega)).mp h
    exact ⟨ls, ⟨hq, hpre, he⟩, rfl, rfl⟩
  constructor
  · intro h
    cases hp : (parseQName packet 12).val with
    | none => simp [hp] at h
    | some r =>
      obtain ⟨n, e⟩ := r
      rw [hp] at h
      simp only [val_ite, val_bind, val_pure] at h
      split_ifs at h with he
      obtain ⟨ls, hls, rfl, rfl⟩ := hsome hp (by omega)
      obtain ⟨rfl, rfl⟩ := Prod.mk.inj (Option.some.inj h)
      exact ⟨ls, hls, rfl, by simp [questionAt]; omega⟩
  · rintro ⟨ls, h, rfl, rfl⟩
    have hfit := h.complete
    have hp : (parseQName packet 12).val = some (nameText ls, 12 + (encodeName ls).length) :=
      (val_parseQName_iff (by omega)).mpr ⟨ls, h.name, rfl, rfl⟩
    rw [hp]
    simp only [val_bind, val_pure, if_neg (Nat.not_lt.mpr hfit), gt_iff_lt]
    simp [headerAt, questionAt]
    omega

/-- The header a builder writes, read back. -/
theorem headerAt_response (header : DnsHeader) (qdcount ancount : UInt16) (t : Bytes) :
    headerAt (buildResponseHeader header qdcount ancount ++ t) =
      ⟨header.id, responseFlags header, qdcount, ancount, 0, 0⟩ := by
  set response := buildResponseHeader header qdcount ancount ++ t
  have h0 : response.drop 0 = writeU16 header.id ++ _ := buildResponseHeader_append ..
  have h2 : response.drop 2 = writeU16 (responseFlags header) ++ _ := drop_of_drop h0 rfl
  have h4 : response.drop 4 = writeU16 qdcount ++ _ := drop_of_drop h2 rfl
  have h6 : response.drop 6 = writeU16 ancount ++ _ := drop_of_drop h4 rfl
  have h8 : response.drop 8 = writeU16 0 ++ _ := drop_of_drop h6 rfl
  have h10 : response.drop 10 = writeU16 0 ++ _ := drop_of_drop h8 rfl
  simp only [headerAt, readU16_of_drop h0, readU16_of_drop h2, readU16_of_drop h4,
    readU16_of_drop h6, readU16_of_drop h8, readU16_of_drop h10]

theorem drop_response (header : DnsHeader) (qdcount ancount : UInt16) (t : Bytes) :
    (buildResponseHeader header qdcount ancount ++ t).drop 12 = t := rfl

end Gravastar
