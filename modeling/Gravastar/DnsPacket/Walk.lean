import Gravastar.DnsPacket.Safety

/-!
# Walking the records of a packet

`records` are the resource records that a walk with `ReadName` meets, up to the
first one it cannot read. Where a record lies does not depend on what its name
points to, so `skeleton` repeats the walk with a name reader that stops at the
first pointer: it meets at least the same records, and in-place edits of RDATA
or of the message ID cannot move it.
-/

namespace Gravastar
open Traced

/-! ## Private addresses -/

/-- The 32-bit address in the four bytes at `offset`. -/
def addressAt (packet : Bytes) (offset : Nat) : Nat :=
  (((packet.getD offset 0).toNat * 256 + (packet.getD (offset + 1) 0).toNat) * 256 +
    (packet.getD (offset + 2) 0).toNat) * 256 + (packet.getD (offset + 3) 0).toNat

/-- `base/len` in CIDR notation. -/
def inNetwork (base len addr : Nat) : Bool := addr / 2 ^ (32 - len) = base / 2 ^ (32 - len)

/-- `10.0.0.0/8`, `172.16.0.0/12` and `192.168.0.0/16`. -/
def isRfc1918 (addr : Nat) : Bool :=
  inNetwork (10 * 2 ^ 24) 8 addr || inNetwork (172 * 2 ^ 24 + 16 * 2 ^ 16) 12 addr ||
    inNetwork (192 * 2 ^ 24 + 168 * 2 ^ 16) 16 addr

theorem isRfc1918_iff {a b c d : Nat} (hb : b < 256) (hc : c < 256) (hd : d < 256) :
    isRfc1918 (((a * 256 + b) * 256 + c) * 256 + d) = true ↔
      a = 10 ∨ a = 192 ∧ b = 168 ∨ a = 172 ∧ 16 ≤ b ∧ b ≤ 31 := by
  simp only [isRfc1918, inNetwork, Bool.or_eq_true, decide_eq_true_eq, Nat.reduceSub,
    Nat.reducePow, Nat.reduceMul, Nat.reduceAdd, Nat.reduceDiv]
  omega

theorem isPrivateIPv4_iff (a b : UInt8) :
    isPrivateIPv4 a b = true ↔
      a.toNat = 10 ∨ a.toNat = 192 ∧ b.toNat = 168 ∨
        a.toNat = 172 ∧ 16 ≤ b.toNat ∧ b.toNat ≤ 31 := by
  simp only [isPrivateIPv4, ← UInt8.toNat_inj, ge_iff_le, UInt8.le_iff_toNat_le, UInt8.reduceToNat]
  split_ifs <;> simp <;> omega

/-- The code's test on two bytes is the test on the whole address. -/
theorem isPrivateIPv4_eq (packet : Bytes) (offset : Nat) :
    isPrivateIPv4 (packet.getD offset 0) (packet.getD (offset + 1) 0) =
      isRfc1918 (addressAt packet offset) := by
  rw [Bool.eq_iff_iff, addressAt, isPrivateIPv4_iff,
    isRfc1918_iff (UInt8.toNat_lt _) (UInt8.toNat_lt _) (UInt8.toNat_lt _)]

/-- A record of TYPE A and RDLENGTH 4 whose RDATA is a private address. -/
def RecordHead.isPrivateA (packet : Bytes) (r : RecordHead) : Bool :=
  r.type = dnsTypeA ∧ r.rdlength = 4 ∧ isRfc1918 (addressAt packet r.rdataOffset)

/-! ## The walk, over any way of finding the end of a name -/

section
variable (packet : Bytes) (nameEnd : Nat → Option Nat)

def recordAt (offset : Nat) : Option RecordHead :=
  match nameEnd offset with
  | none => none
  | some e =>
    if e + 10 > packet.length then none
    else
      let r : RecordHead := ⟨(readU16 packet e).val, (readU16 packet (e + 8)).val, e + 10⟩
      if r.next > packet.length then none else some r

def recordsFrom : Nat → Nat → List RecordHead
  | 0, _ => []
  | n + 1, offset =>
    match recordAt packet nameEnd offset with
    | none => []
    | some r => r :: recordsFrom n r.next

def questionsEnd : Nat → Nat → Option Nat
  | 0, offset => some offset
  | n + 1, offset =>
    match nameEnd offset with
    | none => none
    | some e => if e + 4 > packet.length then none else questionsEnd n (e + 4)

/-- ANCOUNT + NSCOUNT + ARCOUNT. -/
def recordCount : Nat :=
  (readU16 packet 6).val.toNat + (readU16 packet 8).val.toNat + (readU16 packet 10).val.toNat

/-- Skip QDCOUNT questions, then list the records met. -/
def recordsBy : List RecordHead :=
  if packet.length < 12 then []
  else
    match questionsEnd packet nameEnd (readU16 packet 4).val.toNat 12 with
    | none => []
    | some offset => recordsFrom packet nameEnd (recordCount packet) offset

variable {packet nameEnd}

theorem recordAt_mono {other : Nat → Option Nat} {offset : Nat} {r : RecordHead}
    (hsub : ∀ o e, nameEnd o = some e → other o = some e)
    (h : recordAt packet nameEnd offset = some r) : recordAt packet other offset = some r := by
  cases hn : nameEnd offset with
  | none => simp [recordAt, hn] at h
  | some e =>
    rw [recordAt, hn] at h
    rw [recordAt, hsub _ _ hn]
    exact h

theorem recordsFrom_mono {other : Nat → Option Nat}
    (hsub : ∀ o e, nameEnd o = some e → other o = some e) (n offset : Nat) :
    recordsFrom packet nameEnd n offset ⊆ recordsFrom packet other n offset := by
  induction n generalizing offset with
  | zero => simp [recordsFrom]
  | succ n ih =>
    cases h : recordAt packet nameEnd offset with
    | none => simp [recordsFrom, h]
    | some r =>
      rw [recordsFrom, recordsFrom, h, recordAt_mono hsub h]
      exact List.cons_subset_cons r (ih r.next)

theorem questionsEnd_mono {other : Nat → Option Nat} {n offset e : Nat}
    (hsub : ∀ o e, nameEnd o = some e → other o = some e)
    (h : questionsEnd packet nameEnd n offset = some e) :
    questionsEnd packet other n offset = some e := by
  induction n generalizing offset with
  | zero => exact h
  | succ n ih =>
    cases hn : nameEnd offset with
    | none => simp [questionsEnd, hn] at h
    | some e' =>
      rw [questionsEnd, hn] at h
      rw [questionsEnd, hsub _ _ hn]
      dsimp only at h ⊢
      split_ifs at h ⊢ with hfit
      exact ih h

/-- A name reader that succeeds more often meets more records. -/
theorem recordsBy_mono {other : Nat → Option Nat}
    (hsub : ∀ o e, nameEnd o = some e → other o = some e) :
    recordsBy packet nameEnd ⊆ recordsBy packet other := by
  unfold recordsBy
  split_ifs
  · simp
  · cases h : questionsEnd packet nameEnd (readU16 packet 4).val.toNat 12 with
    | none => simp
    | some offset =>
      rw [questionsEnd_mono hsub h]
      exact recordsFrom_mono hsub _ _

end

/-! ## The walk of the code -/

/-- The end of the name at `offset`, as `ReadName` reports it. -/
def nameEnd (packet : Bytes) (offset : Nat) : Option Nat :=
  (readName packet offset).val.map Prod.snd

/-- The records that the code's walk meets. -/
def records (packet : Bytes) : List RecordHead := recordsBy packet (nameEnd packet)

theorem val_readRecord (packet : Bytes) (offset : Nat) :
    (readRecord packet offset).val = recordAt packet (nameEnd packet) offset := by
  rw [readRecord, val_bind, recordAt, nameEnd]
  cases (readName packet offset).val with
  | none => rfl
  | some r =>
    obtain ⟨name, e⟩ := r
    simp [RecordHead.next]

theorem val_skipQuestions (packet : Bytes) (n offset : Nat) :
    (skipQuestions packet n offset).val = questionsEnd packet (nameEnd packet) n offset := by
  induction n generalizing offset with
  | zero => rfl
  | succ n ih =>
    rw [skipQuestions, val_bind, questionsEnd, nameEnd]
    cases (readName packet offset).val with
    | none => rfl
    | some r =>
      obtain ⟨name, e⟩ := r
      simp [ih]

/-! ## The skeleton -/

/-- The end of the in-line part of a name: stop at the root or at a pointer. -/
def skipName (packet : Bytes) (pos : Nat) : Option Nat :=
  if h : pos < packet.length then
    let len := packet[pos]
    if len = 0 then some (pos + 1)
    else if len &&& 0xC0 = 0xC0 then
      if pos + 1 < packet.length then some (pos + 2) else none
    else if len &&& 0xC0 ≠ 0 then none
    else if pos + 1 + len.toNat > packet.length then none
    else skipName packet (pos + 1 + len.toNat)
  else none
termination_by packet.length - pos

/-- The records met when names are only skipped. -/
def skeleton (packet : Bytes) : List RecordHead := recordsBy packet (skipName packet)

theorem NameAt.skipName {packet : Bytes} {pos j e : Nat} {ls : List Label}
    (h : NameAt packet pos j ls e) : skipName packet pos = some e := by
  induction h with
  | root h0 =>
    obtain ⟨hin, h0⟩ := List.getElem?_eq_some_iff.mp h0
    simp [Gravastar.skipName, hin, h0]
  | @label pos j e l ls hat _ ih =>
    obtain ⟨hp, -⟩ := prefix_label_iff.mp hat
    obtain ⟨hin, hp⟩ := List.getElem?_eq_some_iff.mp hp
    obtain ⟨hne, htop⟩ := l.toNat_pos_lt
    have hfit := label_fits hat
    rw [Gravastar.skipName]
    simp only [hin, hp, hne, htop, l.toNat_length, dif_pos, if_false, ne_eq, not_true_eq_false,
      gt_iff_lt, Nat.not_lt.mpr hfit]
    simpa using ih
  | @pointer pos j e hi lo ls hp hptr hq _ _ =>
    obtain ⟨hin, hp⟩ := List.getElem?_eq_some_iff.mp hp
    obtain ⟨hin1, -⟩ := List.getElem?_eq_some_iff.mp hq
    have hne : hi ≠ 0 := by
      rintro rfl
      simp at hptr
    simp [Gravastar.skipName, hin, hp, hne, hptr, hin1]

theorem nameEnd_skipName {packet : Bytes} {offset e : Nat}
    (h : nameEnd packet offset = some e) : skipName packet offset = some e := by
  obtain ⟨⟨name, e'⟩, hr, rfl⟩ := Option.map_eq_some_iff.mp h
  obtain ⟨j, ls, _, hat, _⟩ := val_readName_iff.mp hr
  exact hat.skipName

/-- What the code's walk meets, the skeleton meets too. -/
theorem records_subset_skeleton (packet : Bytes) : records packet ⊆ skeleton packet :=
  recordsBy_mono fun _ _ => nameEnd_skipName

end Gravastar
