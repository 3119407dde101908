import Gravastar.DnsPacket.Query

/-!
# The grammar of accepted queries

A query is a header that claims a question and, behind it, labels, a zero byte
and two 16-bit fields. The name in it cannot be cut short or go elsewhere, and
the reader for names in records agrees with it.
-/

namespace Gravastar
open Traced

/-- The 16-bit field in two bytes, the high one first. -/
def bigEndian (hi lo : UInt8) : UInt16 := UInt16.ofNat (hi.toNat * 256 + lo.toNat)

/-- Neither a whole label nor the zero byte comes next: the text is over, or its first byte is the
start of a pointer, a reserved byte, or the length of a label that is cut off. -/
def BrokenName (s : Bytes) : Prop :=
  s = [] ∨ ∃ len t, s = len :: t ∧ (64 ≤ len.toNat ∨ t.length < len.toNat)

theorem readU16_eq_bigEndian {packet rest : Bytes} {offset : Nat} {hi lo : UInt8}
    (h : packet.drop offset = hi :: lo :: rest) :
    (readU16 packet offset).val = bigEndian hi lo := by
  have h0 : packet[offset]? = some hi := by
    have hget := congrArg (fun l : Bytes => l[0]?) h
    simpa using hget
  have h1 : packet[offset + 1]? = some lo := by
    have hget := congrArg (fun l : Bytes => l[1]?) h
    simpa using hget
  refine UInt16.toNat_inj.mp ?_
  have := hi.toNat_lt
  have := lo.toNat_lt
  rw [toNat_readU16, List.getD, List.getD, h0, h1, Option.getD_some, Option.getD_some, bigEndian,
    UInt16.toNat_ofNat']
  omega

/-- A list of at least four elements starts with four. -/
theorem exists_four {s : Bytes} (h : 4 ≤ s.length) : ∃ a b c d t, s = a :: b :: c :: d :: t := by
  match s, h with
  | a :: b :: c :: d :: t, _ => exact ⟨a, b, c, d, t, rfl⟩

theorem isQuery_iff {packet : Bytes} {labels : List Label} :
    IsQuery packet labels ↔
      12 ≤ packet.length ∧ (readU16 packet 4).val ≠ 0 ∧
        ∃ type₁ type₀ class₁ class₀ rest,
          packet.drop 12 = encodeName labels ++ type₁ :: type₀ :: class₁ :: class₀ :: rest := by
  constructor
  · intro h
    obtain ⟨rest, hrest⟩ := h.name
    have hlen := congrArg List.length hrest
    have hcomplete := h.complete
    rw [List.length_append, List.length_drop] at hlen
    obtain ⟨type₁, type₀, class₁, class₀, t, rfl⟩ := exists_four (by omega : 4 ≤ rest.length)
    exact ⟨by omega, h.qdcount, type₁, type₀, class₁, class₀, t, hrest.symm⟩
  · rintro ⟨h12, hq, type₁, type₀, class₁, class₀, rest, hdrop⟩
    have hlen := congrArg List.length hdrop
    rw [List.length_append, List.length_drop] at hlen
    simp only [List.length_cons] at hlen
    exact ⟨hq, ⟨_, hdrop.symm⟩, by omega⟩

theorem questionAt_eq {packet rest : Bytes} {labels : List Label}
    {type₁ type₀ class₁ class₀ : UInt8}
    (h : packet.drop 12 = encodeName labels ++ type₁ :: type₀ :: class₁ :: class₀ :: rest) :
    questionAt packet labels = ⟨nameText labels, bigEndian type₁ type₀, bigEndian class₁ class₀,
      12, (encodeName labels).length + 4⟩ := by
  have htype := drop_of_drop h rfl
  have hclass : packet.drop (12 + (encodeName labels).length + 2) = class₁ :: class₀ :: rest := by
    rw [← List.drop_drop, htype]
    rfl
  rw [questionAt, readU16_eq_bigEndian htype, readU16_eq_bigEndian hclass]

/-- A name that starts with these labels goes on behind them. -/
theorem encodeName_of_labels {ls ms : List Label} {x y : Bytes}
    (h : ls.flatMap Label.encode ++ x = encodeName ms ++ y) :
    ∃ ms', x = encodeName ms' ++ y := by
  induction ls generalizing ms with
  | nil => exact ⟨ms, h⟩
  | cons l ls ih =>
    rw [List.flatMap_cons, List.append_assoc] at h
    cases ms with
    | nil =>
      have hz : UInt8.ofNat l.bytes.length = 0 := (List.cons.inj h).1
      exact absurd hz l.toNat_pos_lt.1
    | cons m ms =>
      rw [encodeName_cons, List.append_assoc] at h
      obtain ⟨hlen, hbytes⟩ := List.cons.inj h
      have hsame : l.bytes.length = m.bytes.length := by
        rw [← l.toNat_length, ← m.toNat_length, hlen]
      exact ih (List.append_inj hbytes hsame).2

/-- Nothing broken starts a name. -/
theorem not_broken_encodeName (ls : List Label) {y : Bytes} :
    ¬ BrokenName (encodeName ls ++ y) := by
  rintro (hnil | ⟨len, t, hcons, hbroken⟩)
  · simp [encodeName] at hnil
  · cases ls with
    | nil =>
      obtain ⟨rfl, rfl⟩ := List.cons.inj hcons
      simp at hbroken
    | cons l ls =>
      rw [encodeName_cons, List.append_assoc] at hcons
      obtain ⟨rfl, rfl⟩ : UInt8.ofNat l.bytes.length = len ∧
          l.bytes ++ (encodeName ls ++ y) = t := List.cons.inj hcons
      have hshort := l.short
      rw [l.toNat_length, List.length_append] at hbroken
      omega

/-- `ParseDnsQuery` accepts exactly the grammar: a header that claims a question, a terminated
uncompressed name and two fields. A broken name is never accepted, and `ReadName` reads every
accepted name in the same way. -/
theorem parseDnsQuery_grammar (packet : Bytes) :
    (∀ header question, (parseDnsQuery packet).val = some (header, question) ↔
      12 ≤ packet.length ∧ (headerAt packet).qdcount ≠ 0 ∧ header = headerAt packet ∧
        ∃ labels type₁ type₀ class₁ class₀ rest,
          packet.drop 12 =
            encodeName labels ++ type₁ :: type₀ :: class₁ :: class₀ :: rest ∧
          question = ⟨nameText labels, bigEndian type₁ type₀, bigEndian class₁ class₀, 12,
            (encodeName labels ++ [type₁, type₀, class₁, class₀]).length⟩) ∧
    (∀ (labels : List Label) broken, packet.drop 12 = labels.flatMap Label.encode ++ broken →
      BrokenName broken → (parseDnsQuery packet).val = none) ∧
    ∀ header question, (parseDnsQuery packet).val = some (header, question) →
      (readName packet 12).val =
        some (question.qname, question.rawOffset + question.rawLength - 4) := by
  refine ⟨fun header question => ?_, fun labels broken hdrop hbroken => ?_,
    fun header question h => ?_⟩
  · rw [parseDnsQuery_iff]
    constructor
    · rintro ⟨labels, hquery, rfl, rfl⟩
      obtain ⟨h12, hq, type₁, type₀, class₁, class₀, rest, hdrop⟩ := isQuery_iff.mp hquery
      refine ⟨h12, hq, rfl, labels, type₁, type₀, class₁, class₀, rest, hdrop, ?_⟩
      rw [questionAt_eq hdrop, List.length_append]
      rfl
    · rintro ⟨h12, hq, rfl, labels, type₁, type₀, class₁, class₀, rest, hdrop, rfl⟩
      refine ⟨labels, isQuery_iff.mpr ⟨h12, hq, _, _, _, _, _, hdrop⟩, rfl, ?_⟩
      rw [questionAt_eq hdrop, List.length_append]
      rfl
  · by_contra hsome
    obtain ⟨⟨header, question⟩, h⟩ := Option.ne_none_iff_exists'.mp hsome
    obtain ⟨ls, hquery, -, -⟩ := parseDnsQuery_iff.mp h
    obtain ⟨y, hname⟩ := hquery.name
    obtain ⟨ms, rfl⟩ := encodeName_of_labels (hdrop.symm.trans hname.symm)
    exact not_broken_encodeName ms hbroken
  · obtain ⟨labels, hquery, -, rfl⟩ := parseDnsQuery_iff.mp h
    refine val_readName_iff.mpr ⟨0, labels, by omega, ?_, rfl⟩
    exact NameAt.of_prefix hquery.name

end Gravastar
