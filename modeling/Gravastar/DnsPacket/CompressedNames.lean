import Gravastar.DnsPacket.Walk

/-!
# The grammar of compressed names

The labels of a name, and the place where the name ends, are said apart here: a
derivation follows the pointers and never says where the name ends, and the end
is found in line, where the first pointer stands for the rest.
-/

namespace Gravastar
open Traced

/-- Two bytes form a pointer: in the number they make, the top bits are set and the other
fourteen are the position. -/
def PointerAt (packet : Bytes) (pos target : Nat) : Prop :=
  ∃ hi lo : UInt8, packet[pos]? = some hi ∧ packet[pos + 1]? = some lo ∧
    hi.toNat * 256 + lo.toNat = 0xC000 + target ∧ target < 0x4000

/-- `SpelledAt packet pos jumps labels`: the name at `pos` has these labels, and it takes so many
jumps to read them. -/
inductive SpelledAt (packet : Bytes) : Nat → Nat → List Label → Prop where
  | zero {pos : Nat} : packet[pos]? = some 0 → SpelledAt packet pos 0 []
  | label {pos jumps : Nat} {l : Label} {labels : List Label} : l.encode <+: packet.drop pos →
      SpelledAt packet (pos + 1 + l.bytes.length) jumps labels →
      SpelledAt packet pos jumps (l :: labels)
  | pointer {pos target jumps : Nat} {labels : List Label} : PointerAt packet pos target →
      SpelledAt packet target jumps labels → SpelledAt packet pos (jumps + 1) labels

/-- From `pos` to `k` there are labels in line. -/
inductive InLine (packet : Bytes) : Nat → Nat → Prop where
  | here {pos : Nat} : InLine packet pos pos
  | label {pos k : Nat} {l : Label} : l.encode <+: packet.drop pos →
      InLine packet (pos + 1 + l.bytes.length) k → InLine packet pos k

/-- `EndsAt packet pos jumps e`: behind the labels that stand in line comes the zero, if there are
no jumps, and else the first pointer; the name ends behind it. -/
inductive EndsAt (packet : Bytes) (pos : Nat) : Nat → Nat → Prop where
  | zero {k : Nat} : InLine packet pos k → packet[k]? = some 0 → EndsAt packet pos 0 (k + 1)
  | pointer {k target jumps : Nat} : InLine packet pos k → PointerAt packet k target →
      EndsAt packet pos (jumps + 1) (k + 2)

/-! ## One position -/

section
variable {packet : Bytes} {pos target jumps e : Nat} {l : Label} {labels : List Label}

/-- A pointer as the bit operations of `ReadName` have it. -/
theorem pointerAt_iff : PointerAt packet pos target ↔
    ∃ hi lo : UInt8, packet[pos]? = some hi ∧ hi &&& 0xC0 = 0xC0 ∧ packet[pos + 1]? = some lo ∧
      target = (hi &&& 0x3F).toNat <<< 8 ||| lo.toNat := by
  have hword : ∀ hi lo : UInt8, (hi &&& 0x3F).toNat <<< 8 ||| lo.toNat =
      hi.toNat % 64 * 256 + lo.toNat := by
    intro hi lo
    rw [shiftLeft_or_byte, UInt8.toNat_and]
    exact congrArg (· * 256 + lo.toNat) (Nat.and_two_pow_sub_one_eq_mod hi.toNat 6)
  constructor
  · rintro ⟨hi, lo, hhi, hlo, hsum, htarget⟩
    have := lo.toNat_lt
    have := hi.toNat_lt
    refine ⟨hi, lo, hhi, (topBits_iff hi).2.mpr (by omega), hlo, ?_⟩
    rw [hword]
    omega
  · rintro ⟨hi, lo, hhi, htop, hlo, rfl⟩
    have := lo.toNat_lt
    have := hi.toNat_lt
    have := (topBits_iff hi).2.mp htop
    refine ⟨hi, lo, hhi, hlo, ?_, ?_⟩ <;> rw [hword] <;> omega

theorem PointerAt.byte (h : PointerAt packet pos target) :
    ∃ hi : UInt8, packet[pos]? = some hi ∧ 192 ≤ hi.toNat := by
  obtain ⟨hi, lo, hhi, htop, -⟩ := pointerAt_iff.mp h
  exact ⟨hi, hhi, (topBits_iff hi).2.mp htop⟩

theorem PointerAt.unique {target' : Nat} (h : PointerAt packet pos target)
    (h' : PointerAt packet pos target') : target = target' := by
  obtain ⟨hi, lo, hhi, hlo, hsum, -⟩ := h
  obtain ⟨hi', lo', hhi', hlo', hsum', -⟩ := h'
  obtain rfl : hi = hi' := Option.some.inj (hhi.symm.trans hhi')
  obtain rfl : lo = lo' := Option.some.inj (hlo.symm.trans hlo')
  omega

theorem Label.byte_of_prefix (h : l.encode <+: packet.drop pos) :
    ∃ len : UInt8, packet[pos]? = some len ∧ 0 < len.toNat ∧ len.toNat < 64 := by
  have := l.nonempty
  have := l.short
  refine ⟨_, (prefix_label_iff.mp h).1, ?_⟩
  rw [l.toNat_length]
  omega

theorem Label.unique_of_prefix {l' : Label} (h : l.encode <+: packet.drop pos)
    (h' : l'.encode <+: packet.drop pos) : l = l' := by
  obtain ⟨hlen, htake⟩ := prefix_label_iff.mp h
  obtain ⟨hlen', htake'⟩ := prefix_label_iff.mp h'
  have hsame : l.bytes.length = l'.bytes.length := by
    rw [← l.toNat_length, ← l'.toNat_length, Option.some.inj (hlen.symm.trans hlen')]
  have hbytes : l.bytes = l'.bytes := by
    rw [← htake, ← htake', hsame]
  cases l
  cases l'
  simpa using hbytes

/-- At the zero, at a pointer and behind the labels there are no labels in line. -/
theorem InLine.eq_of_not_label {k : Nat} (h : InLine packet pos k)
    (hnone : ∀ l : Label, ¬ l.encode <+: packet.drop pos) : k = pos := by
  cases h with
  | here => rfl
  | label hlabel _ => exact absurd hlabel (hnone _)

theorem not_label_of_zero (hzero : packet[pos]? = some 0) (l : Label) :
    ¬ l.encode <+: packet.drop pos := by
  intro hlabel
  obtain ⟨len, hlen, hpos, -⟩ := Label.byte_of_prefix hlabel
  obtain rfl : 0 = len := Option.some.inj (hzero.symm.trans hlen)
  exact absurd hpos (by decide)

theorem PointerAt.not_label (h : PointerAt packet pos target) (l : Label) :
    ¬ l.encode <+: packet.drop pos := by
  intro hlabel
  obtain ⟨len, hlen, -, hlt⟩ := Label.byte_of_prefix hlabel
  obtain ⟨hi, hhi, htop⟩ := h.byte
  obtain rfl : hi = len := Option.some.inj (hhi.symm.trans hlen)
  omega

theorem PointerAt.not_zero (h : PointerAt packet pos target) : packet[pos]? ≠ some 0 := by
  intro hzero
  obtain ⟨hi, hhi, htop⟩ := h.byte
  obtain rfl : hi = 0 := Option.some.inj (hhi.symm.trans hzero)
  exact absurd htop (by decide)

/-! ## Where a name ends -/

theorem EndsAt.zero_iff (hzero : packet[pos]? = some 0) :
    EndsAt packet pos 0 e ↔ e = pos + 1 := by
  constructor
  · rintro ⟨hline, -⟩
    rw [hline.eq_of_not_label (not_label_of_zero hzero)]
  · rintro rfl
    exact .zero .here hzero

theorem EndsAt.pointer_iff (hpointer : PointerAt packet pos target) :
    EndsAt packet pos (jumps + 1) e ↔ e = pos + 2 := by
  constructor
  · rintro (_ | ⟨hline, -⟩)
    rw [hline.eq_of_not_label hpointer.not_label]
  · rintro rfl
    exact .pointer .here hpointer

/-- A label in line does not move the end. -/
theorem EndsAt.label_iff (hlabel : l.encode <+: packet.drop pos) :
    EndsAt packet pos jumps e ↔ EndsAt packet (pos + 1 + l.bytes.length) jumps e := by
  constructor
  · rintro (⟨_ | ⟨hlabel', hline⟩, hzero⟩ | ⟨_ | ⟨hlabel', hline⟩, hpointer⟩)
    · exact absurd hlabel (not_label_of_zero hzero l)
    · rw [← Label.unique_of_prefix hlabel hlabel'] at hline
      exact .zero hline hzero
    · exact absurd hlabel (hpointer.not_label l)
    · rw [← Label.unique_of_prefix hlabel hlabel'] at hline
      exact .pointer hline hpointer
  · rintro (⟨hline, hzero⟩ | ⟨hline, hpointer⟩)
    · exact .zero (.label hlabel hline) hzero
    · exact .pointer (.label hlabel hline) hpointer

/-- A derivation has an end, wherever its pointers point to. -/
theorem SpelledAt.exists_end (h : SpelledAt packet pos jumps labels) :
    ∃ e, EndsAt packet pos jumps e := by
  induction h with
  | zero hzero => exact ⟨_, .zero .here hzero⟩
  | label hlabel _ ih =>
    obtain ⟨e, hends⟩ := ih
    exact ⟨e, (EndsAt.label_iff hlabel).mpr hends⟩
  | pointer hpointer _ _ => exact ⟨_, .pointer .here hpointer⟩

/-- The names that the readers are about are the derivations together with their ends. -/
theorem nameAt_iff : NameAt packet pos jumps labels e ↔
    SpelledAt packet pos jumps labels ∧ EndsAt packet pos jumps e := by
  constructor
  · intro h
    induction h with
    | root hzero => exact ⟨.zero hzero, (EndsAt.zero_iff hzero).mpr rfl⟩
    | label hlabel _ ih => exact ⟨.label hlabel ih.1, (EndsAt.label_iff hlabel).mpr ih.2⟩
    | pointer hhi htop hlo _ ih =>
      have hpointer := pointerAt_iff.mpr ⟨_, _, hhi, htop, hlo, rfl⟩
      exact ⟨.pointer hpointer ih.1, (EndsAt.pointer_iff hpointer).mpr rfl⟩
  · rintro ⟨hspelled, hends⟩
    induction hspelled generalizing e with
    | zero hzero =>
      obtain rfl := (EndsAt.zero_iff hzero).mp hends
      exact .root hzero
    | label hlabel _ ih => exact .label hlabel (ih ((EndsAt.label_iff hlabel).mp hends))
    | pointer hpointer hrest ih =>
      obtain rfl := (EndsAt.pointer_iff hpointer).mp hends
      obtain ⟨hi, lo, hhi, htop, hlo, rfl⟩ := pointerAt_iff.mp hpointer
      obtain ⟨e', hends'⟩ := hrest.exists_end
      exact .pointer hhi htop hlo (ih hends')

/-! ## One derivation -/

/-- There is at most one way to read a name. -/
theorem SpelledAt.unique {jumps' : Nat} {labels' : List Label}
    (h : SpelledAt packet pos jumps labels) (h' : SpelledAt packet pos jumps' labels') :
    jumps' = jumps ∧ labels' = labels := by
  induction h generalizing jumps' labels' with
  | zero hzero =>
    cases h' with
    | zero _ => exact ⟨rfl, rfl⟩
    | label hlabel _ => exact absurd hlabel (not_label_of_zero hzero _)
    | pointer hpointer _ => exact absurd hzero hpointer.not_zero
  | label hlabel _ ih =>
    cases h' with
    | zero hzero => exact absurd hlabel (not_label_of_zero hzero _)
    | label hlabel' hrest =>
      obtain rfl := Label.unique_of_prefix hlabel hlabel'
      obtain ⟨hjumps, hlabels⟩ := ih hrest
      exact ⟨hjumps, by rw [hlabels]⟩
    | pointer hpointer _ => exact absurd hlabel (hpointer.not_label _)
  | pointer hpointer _ ih =>
    cases h' with
    | zero hzero => exact absurd hzero hpointer.not_zero
    | label hlabel _ => exact absurd hlabel (hpointer.not_label _)
    | pointer hpointer' hrest =>
      obtain rfl := hpointer.unique hpointer'
      obtain ⟨hjumps, hlabels⟩ := ih hrest
      exact ⟨by rw [hjumps], hlabels⟩

/-- Positions from which pointers and labels only lead to one another have no name, whatever the
shape of the cycle. -/
theorem not_spelledAt_of_cycle {cycle : Set Nat}
    (hcycle : ∀ pos ∈ cycle, (∃ target ∈ cycle, PointerAt packet pos target) ∨
      ∃ l : Label, l.encode <+: packet.drop pos ∧ pos + 1 + l.bytes.length ∈ cycle)
    (hpos : pos ∈ cycle) : ¬ SpelledAt packet pos jumps labels := by
  intro h
  induction h with
  | zero hzero =>
    rcases hcycle _ hpos with ⟨target, -, hpointer⟩ | ⟨l, hlabel, -⟩
    · exact hpointer.not_zero hzero
    · exact not_label_of_zero hzero l hlabel
  | label hlabel _ ih =>
    rcases hcycle _ hpos with ⟨target, -, hpointer⟩ | ⟨l, hlabel', hnext⟩
    · exact hpointer.not_label _ hlabel
    · rw [Label.unique_of_prefix hlabel' hlabel] at hnext
      exact ih hnext
  | pointer hpointer _ ih =>
    rcases hcycle _ hpos with ⟨target, htarget, hpointer'⟩ | ⟨l, hlabel, -⟩
    · rw [hpointer'.unique hpointer] at htarget
      exact ih htarget
    · exact hpointer.not_label l hlabel

/-! ## The reader -/

/-- What the reader returns comes from a derivation with at most 16 jumps. -/
theorem spelledAt_of_readName {n : Bytes} (h : (readName packet pos).val = some (n, e)) :
    ∃ jumps labels, jumps ≤ 16 ∧ SpelledAt packet pos jumps labels := by
  obtain ⟨jumps, labels, hjumps, hat, -⟩ := val_readName_iff.mp h
  exact ⟨jumps, labels, hjumps, (nameAt_iff.mp hat).1⟩

/-- Behind a 17th jump the reader does not look, not even for a name that stands there. -/
theorem val_readName_of_jumps (h : SpelledAt packet pos jumps labels) (hmany : 16 < jumps) :
    (readName packet pos).val = none := by
  refine Option.eq_none_iff_forall_ne_some.mpr fun r hr => ?_
  obtain ⟨jumps', labels', hjumps, hspelled⟩ := spelledAt_of_readName hr
  obtain ⟨rfl, -⟩ := h.unique hspelled
  omega

theorem val_readName_of_cycle {cycle : Set Nat}
    (hcycle : ∀ pos ∈ cycle, (∃ target ∈ cycle, PointerAt packet pos target) ∨
      ∃ l : Label, l.encode <+: packet.drop pos ∧ pos + 1 + l.bytes.length ∈ cycle)
    (hpos : pos ∈ cycle) : (readName packet pos).val = none := by
  refine Option.eq_none_iff_forall_ne_some.mpr fun r hr => ?_
  obtain ⟨jumps, labels, -, hspelled⟩ := spelledAt_of_readName hr
  exact not_spelledAt_of_cycle hcycle hpos hspelled

end

/-- `ReadName` succeeds exactly if there is a derivation with at most 16 jumps, and then returns
the dotted text of its labels and the end of what stands in line. -/
theorem readName_grammar (packet : Bytes) (offset : Nat) :
    ((readName packet offset).val.isSome ↔
      ∃ jumps labels, jumps ≤ 16 ∧ SpelledAt packet offset jumps labels) ∧
    ∀ n e, (readName packet offset).val = some (n, e) ↔
      ∃ jumps labels, jumps ≤ 16 ∧ SpelledAt packet offset jumps labels ∧
        n = nameText labels ∧ EndsAt packet offset jumps e := by
  have hiff : ∀ n e, (readName packet offset).val = some (n, e) ↔
      ∃ jumps labels, jumps ≤ 16 ∧ SpelledAt packet offset jumps labels ∧
        n = nameText labels ∧ EndsAt packet offset jumps e := by
    intro n e
    rw [val_readName_iff]
    constructor
    · rintro ⟨jumps, labels, hjumps, hat, htext⟩
      obtain ⟨hspelled, hends⟩ := nameAt_iff.mp hat
      exact ⟨jumps, labels, hjumps, hspelled, htext, hends⟩
    · rintro ⟨jumps, labels, hjumps, hspelled, htext, hends⟩
      exact ⟨jumps, labels, hjumps, nameAt_iff.mpr ⟨hspelled, hends⟩, htext⟩
  refine ⟨⟨fun h => ?_, ?_⟩, hiff⟩
  · obtain ⟨r, hr⟩ := Option.isSome_iff_exists.mp h
    exact spelledAt_of_readName hr
  · rintro ⟨jumps, labels, hjumps, hspelled⟩
    obtain ⟨e, hends⟩ := hspelled.exists_end
    rw [(hiff (nameText labels) e).mpr ⟨jumps, labels, hjumps, hspelled, rfl, hends⟩]
    rfl

end Gravastar
