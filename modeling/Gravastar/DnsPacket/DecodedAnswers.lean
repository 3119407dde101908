import Gravastar.DnsPacket.Answer
import Gravastar.DnsPacket.PtrAnswers

/-!
# The answers of a decoded message

The receiver of the built messages and the walk of `ExtractFirstPtrTarget` skip
the same questions and meet the same records: a message that decodes holds for
the walk the answers that the receiver has decoded.
-/

namespace Gravastar
open Traced

/-! ## What was decoded -/

/-- What the walk keeps of a record. -/
def WireRecord.head (r : WireRecord) : RecordHead := ⟨r.type, r.rdlength, r.rdata⟩

theorem decodeMany_succ {α : Type} {decode : Nat → Option (α × Nat)} {n offset e : Nat}
    {xs : List α} (h : decodeMany decode (n + 1) offset = some (xs, e)) :
    ∃ x next rest, decode offset = some (x, next) ∧ decodeMany decode n next = some (rest, e) ∧
      xs = x :: rest := by
  rw [decodeMany] at h
  cases hx : decode offset with
  | none => simp [hx] at h
  | some r =>
    rw [hx] at h
    dsimp only at h
    cases hrest : decodeMany decode n r.2 with
    | none => simp [hrest] at h
    | some r' =>
      rw [hrest] at h
      obtain ⟨rfl, rfl⟩ := Prod.mk.inj (Option.some.inj h)
      exact ⟨r.1, r.2, r'.1, rfl, hrest, rfl⟩

theorem decodeQuestion_eq_some {msg : Bytes} {offset e : Nat} {question : WireQuestion}
    (h : decodeQuestion msg offset = some (question, e)) :
    ∃ n, nameEnd msg offset = some n ∧ n + 4 ≤ msg.length ∧ n + 4 = e := by
  rw [decodeQuestion] at h
  cases hname : (readName msg offset).val with
  | none => simp [hname] at h
  | some r =>
    rw [hname] at h
    dsimp only at h
    split_ifs at h with hfits
    exact ⟨r.2, by rw [nameEnd, hname]; rfl, hfits, congrArg Prod.snd (Option.some.inj h)⟩

theorem decodeRecord_eq_some {msg : Bytes} {offset e : Nat} {record : WireRecord}
    (h : decodeRecord msg offset = some (record, e)) :
    recordAt msg (nameEnd msg) offset = some record.head ∧ record.head.next = e := by
  rw [decodeRecord] at h
  rw [recordAt, nameEnd]
  cases hname : (readName msg offset).val with
  | none => simp [hname] at h
  | some r =>
    rw [hname] at h
    dsimp only [Option.map_some] at h ⊢
    split_ifs at h with hfits hdata
    obtain ⟨rfl, rfl⟩ := Prod.mk.inj (Option.some.inj h)
    refine ⟨?_, rfl⟩
    rw [if_neg (Nat.not_lt.mpr hfits)]
    exact if_neg (Nat.not_lt.mpr hdata)

theorem decodeMessage_eq_some {msg : Bytes} {header : DnsHeader} {questions : List WireQuestion}
    {records : List WireRecord} (h : decodeMessage msg = some (header, questions, records)) :
    12 ≤ msg.length ∧ header = headerAt msg ∧ ∃ next,
      decodeMany (decodeQuestion msg) header.qdcount.toNat 12 = some (questions, next) ∧
      decodeMany (decodeRecord msg) (header.ancount.toNat + header.nscount.toNat +
        header.arcount.toNat) next = some (records, msg.length) := by
  rw [decodeMessage] at h
  split_ifs at h with hlen
  dsimp only at h
  cases hquestions : decodeMany (decodeQuestion msg) (headerAt msg).qdcount.toNat 12 with
  | none => simp [hquestions] at h
  | some r =>
    rw [hquestions] at h
    dsimp only at h
    cases hrecords : decodeMany (decodeRecord msg) ((headerAt msg).ancount.toNat +
        (headerAt msg).nscount.toNat + (headerAt msg).arcount.toNat) r.2 with
    | none => simp [hrecords] at h
    | some r' =>
      rw [hrecords] at h
      dsimp only at h
      split_ifs at h with hend
      obtain ⟨rfl, hlists⟩ := Prod.mk.inj (Option.some.inj h)
      obtain ⟨rfl, rfl⟩ := Prod.mk.inj hlists
      exact ⟨Nat.le_of_not_lt hlen, rfl, r.2, hquestions, hend ▸ hrecords⟩

/-! ## Decoded and walked -/

theorem questionsEnd_of_decodeMany {msg : Bytes} {n offset e : Nat} {questions : List WireQuestion}
    (h : decodeMany (decodeQuestion msg) n offset = some (questions, e)) :
    questionsEnd msg (nameEnd msg) n offset = some e := by
  induction n generalizing offset questions with
  | zero => exact congrArg (Option.map Prod.snd) h
  | succ n ih =>
    obtain ⟨question, next, rest, hquestion, hrest, -⟩ := decodeMany_succ h
    obtain ⟨m, hname, hfits, rfl⟩ := decodeQuestion_eq_some hquestion
    rw [questionsEnd, hname]
    dsimp only
    rw [if_neg (Nat.not_lt.mpr hfits), ih hrest]

theorem recordsFrom_of_decodeMany {msg : Bytes} {k n offset e : Nat} {records : List WireRecord}
    (h : decodeMany (decodeRecord msg) n offset = some (records, e)) (hk : k ≤ n) :
    recordsFrom msg (nameEnd msg) k offset = (records.take k).map WireRecord.head := by
  induction n generalizing k offset records with
  | zero =>
    obtain rfl := Nat.le_zero.mp hk
    rfl
  | succ n ih =>
    cases k with
    | zero => rfl
    | succ k =>
      obtain ⟨record, next, rest, hrecord, hrest, rfl⟩ := decodeMany_succ h
      obtain ⟨hhead, rfl⟩ := decodeRecord_eq_some hrecord
      rw [recordsFrom, hhead]
      dsimp only
      rw [ih hrest (Nat.le_of_succ_le_succ hk)]
      rfl

/-- The answers that a receiver decodes are those that the walk meets. -/
theorem answers_of_decodeMessage {msg : Bytes} {header : DnsHeader}
    {questions : List WireQuestion} {records : List WireRecord}
    (h : decodeMessage msg = some (header, questions, records)) :
    answers msg = (records.take header.ancount.toNat).map WireRecord.head := by
  obtain ⟨hlen, rfl, next, hquestions, hrecords⟩ := decodeMessage_eq_some h
  have hend : questionsEnd msg (nameEnd msg) (readU16 msg 4).val.toNat 12 = some next :=
    questionsEnd_of_decodeMany hquestions
  -- ANCOUNT is the first of the three counts
  have hcount : (headerAt msg).ancount.toNat ≤ (headerAt msg).ancount.toNat +
      (headerAt msg).nscount.toNat + (headerAt msg).arcount.toNat := by omega
  rw [answers, if_neg (Nat.not_lt.mpr hlen), hend]
  exact recordsFrom_of_decodeMany hrecords hcount

end Gravastar
