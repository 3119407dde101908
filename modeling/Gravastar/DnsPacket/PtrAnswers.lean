import Gravastar.DnsPacket.Walk

/-!
# The first PTR answer

`ExtractFirstPtrTarget` walks the answers like the records of a reply, and reads
the name in the RDATA of the first PTR record. Where that name ends is computed
and not looked at.
-/

namespace Gravastar
open Traced

/-- The answer records that the walk meets. -/
def answers (packet : Bytes) : List RecordHead :=
  if packet.length < 12 then []
  else
    match questionsEnd packet (nameEnd packet) (readU16 packet 4).val.toNat 12 with
    | none => []
    | some offset => recordsFrom packet (nameEnd packet) (readU16 packet 6).val.toNat offset

def firstPtr (packet : Bytes) : Option RecordHead :=
  (answers packet).find? (·.type = dnsTypePtr)

/-! ## The walk -/

theorem val_firstPtrTarget (packet : Bytes) (n offset : Nat) :
    (firstPtrTarget packet n offset).val =
      ((recordsFrom packet (nameEnd packet) n offset).find? (·.type = dnsTypePtr)).bind
        fun r => (readName packet r.rdataOffset).val.map Prod.fst := by
  induction n generalizing offset with
  | zero => rfl
  | succ n ih =>
    rw [firstPtrTarget, val_bind, val_readRecord, recordsFrom]
    cases recordAt packet (nameEnd packet) offset with
    | none => rfl
    | some r =>
      dsimp only
      by_cases htype : r.type = dnsTypePtr
      · rw [if_pos htype, val_bind, List.find?_cons_of_pos (by simpa using htype),
          Option.bind_some]
        cases (readName packet r.rdataOffset).val <;> rfl
      · rw [if_neg htype, ih, List.find?_cons_of_neg (by simpa using htype)]

/-- The target is the name in the first PTR answer. -/
theorem val_extractFirstPtrTarget (packet : Bytes) :
    (extractFirstPtrTarget packet).val =
      (firstPtr packet).bind fun r => (readName packet r.rdataOffset).val.map Prod.fst := by
  rw [extractFirstPtrTarget, firstPtr, answers]
  split_ifs
  · rfl
  · simp only [val_bind, val_skipQuestions]
    cases questionsEnd packet (nameEnd packet) (readU16 packet 4).val.toNat 12 with
    | none => rfl
    | some offset => exact val_firstPtrTarget packet _ offset

theorem extractFirstPtrTarget_eq_some {packet t : Bytes} :
    (extractFirstPtrTarget packet).val = some t ↔
      ∃ r e, firstPtr packet = some r ∧ (readName packet r.rdataOffset).val = some (t, e) := by
  rw [val_extractFirstPtrTarget, Option.bind_eq_some_iff]
  constructor
  · rintro ⟨r, hr, hname⟩
    obtain ⟨⟨t', e⟩, hread, rfl⟩ := Option.map_eq_some_iff.mp hname
    exact ⟨r, e, hr, hread⟩
  · rintro ⟨r, e, hr, hread⟩
    exact ⟨r, hr, by rw [hread]; rfl⟩

/-! ## The end of the name -/

/-- The target is the name that the RDATA of the first PTR answer consists of, exactly if the
name that starts there, if there is one, does not end before or behind the RDATA. -/
theorem first_ptr_target_iff (packet : Bytes) :
    (∀ t, (extractFirstPtrTarget packet).val = some t ↔
        ∃ r, firstPtr packet = some r ∧
          (readName packet r.rdataOffset).val = some (t, r.rdataOffset + r.rdlength.toNat)) ↔
      ∀ r jumps labels e, firstPtr packet = some r → jumps ≤ 16 →
        NameAt packet r.rdataOffset jumps labels e → e = r.rdataOffset + r.rdlength.toNat := by
  constructor
  · intro h r jumps labels e hr hjumps hat
    have hread := val_readName_iff.mpr ⟨jumps, labels, hjumps, hat, rfl⟩
    obtain ⟨r', hr', hexact⟩ := (h (nameText labels)).mp
      (extractFirstPtrTarget_eq_some.mpr ⟨r, e, hr, hread⟩)
    obtain rfl : r = r' := Option.some.inj (hr.symm.trans hr')
    exact congrArg Prod.snd (Option.some.inj (hread.symm.trans hexact))
  · intro h t
    rw [extractFirstPtrTarget_eq_some]
    constructor
    · rintro ⟨r, e, hr, hread⟩
      obtain ⟨jumps, labels, hjumps, hat, -⟩ := val_readName_iff.mp hread
      exact ⟨r, hr, h r jumps labels e hr hjumps hat ▸ hread⟩
    · rintro ⟨r, hr, hread⟩
      exact ⟨r, _, hr, hread⟩

/-- A reply with one PTR answer whose RDATA is empty, and a name behind it. -/
def emptyPtrReply : Bytes :=
  [0, 1, 0x81, 0x80, 0, 0, 0, 1, 0, 0, 0, 0] ++
    [0, 0, 12, 0, 1, 0, 0, 0, 60, 0, 0] ++ [4, 104, 111, 115, 116, 0]

/-- The name behind the record is taken for its target. -/
theorem empty_ptr_has_target :
    (extractFirstPtrTarget emptyPtrReply).val = some (ascii "host") ∧
      ¬ ∃ r, firstPtr emptyPtrReply = some r ∧ (readName emptyPtrReply r.rdataOffset).val =
        some (ascii "host", r.rdataOffset + r.rdlength.toNat) := by
  have hptr : firstPtr emptyPtrReply = some ⟨dnsTypePtr, 0, 23⟩ := by decide +kernel
  have hname : (readName emptyPtrReply 23).val = some (ascii "host", 29) := by decide +kernel
  refine ⟨by decide +kernel, ?_⟩
  rintro ⟨r, hr, hread⟩
  obtain rfl := Option.some.inj (hptr.symm.trans hr)
  exact absurd (hname.symm.trans hread) (by decide)

end Gravastar
