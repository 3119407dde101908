import Gravastar.DnsPacket.Read

/-!
# The grammar of encoded names

A wire label holds 1 to 63 arbitrary bytes. `encodeName` is the uncompressed
form of a name; `NameAt` adds compression pointers and counts them. The two
name readers decode exactly these grammars.
-/

namespace Gravastar
open Traced

/-- A label as RFC 1035 has it on the wire. -/
structure Label where
  bytes : Bytes
  nonempty : 0 < bytes.length
  short : bytes.length ≤ 63
  deriving DecidableEq, Repr

/-- A length byte and the label's own bytes. -/
def Label.encode (l : Label) : Bytes := UInt8.ofNat l.bytes.length :: l.bytes

/-- The uncompressed wire form of a name. -/
def encodeName (labels : List Label) : Bytes := labels.flatMap Label.encode ++ [0]

/-- The dotted text of a name. -/
def nameText (labels : List Label) : Bytes := dotJoin (labels.map Label.bytes)

@[simp] theorem encodeName_nil : encodeName [] = [0] := rfl

@[simp] theorem encodeName_cons (l : Label) (ls : List Label) :
    encodeName (l :: ls) = l.encode ++ encodeName ls := by simp [encodeName]

theorem Label.toNat_length (l : Label) : (UInt8.ofNat l.bytes.length).toNat = l.bytes.length := by
  have := l.short
  rw [UInt8.toNat_ofNat']
  omega

theorem Label.length_encode (l : Label) : l.encode.length = 1 + l.bytes.length := by
  simp [Label.encode, Nat.add_comm]

theorem length_encodeName_pos (ls : List Label) : 0 < (encodeName ls).length := by
  simp [encodeName]

/-! ## Length bytes -/

/-- Split on the two top bits of a length byte. -/
theorem topBits_iff (b : UInt8) :
    (b &&& 0xC0 = 0 ↔ b.toNat < 64) ∧ (b &&& 0xC0 = 0xC0 ↔ 192 ≤ b.toNat) := by
  revert b
  apply forall_byte
  decide +kernel

theorem topBits_zero {b : UInt8} : b &&& 0xC0 = 0 ↔ b.toNat < 64 := (topBits_iff b).1

theorem Label.toNat_pos_lt (l : Label) :
    UInt8.ofNat l.bytes.length ≠ 0 ∧ UInt8.ofNat l.bytes.length &&& 0xC0 = 0 := by
  have hl := l.toNat_length
  have := l.nonempty
  have := l.short
  refine ⟨fun h => ?_, topBits_zero.mpr (by omega)⟩
  rw [h] at hl
  simp at hl
  omega

/-! ## Labels in a packet -/

/-- A label stands at `pos`: the byte there is its length and its bytes follow. -/
theorem prefix_label_iff {packet : Bytes} {pos : Nat} {l : Label} :
    l.encode <+: packet.drop pos ↔
      packet[pos]? = some (UInt8.ofNat l.bytes.length) ∧
        (packet.drop (pos + 1)).take l.bytes.length = l.bytes := by
  have hd : packet.drop (pos + 1) = (packet.drop pos).tail := by simp
  rw [hd]
  cases hp : packet.drop pos with
  | nil =>
    have : packet[pos]? = none := by simpa using hp
    simp [this, Label.encode]
  | cons b s =>
    have hb : packet[pos]? = some b := by
      have := congrArg (·[0]?) hp
      simpa using this
    rw [hb, Label.encode, List.cons_prefix_cons, List.prefix_iff_eq_take]
    simp [eq_comm]

theorem drop_label {packet : Bytes} {pos : Nat} {l : Label} (h : l.encode <+: packet.drop pos) :
    packet.drop pos = l.encode ++ packet.drop (pos + 1 + l.bytes.length) := by
  obtain ⟨s, hs⟩ := h
  have hd : packet.drop (pos + 1 + l.bytes.length) = s := by
    rw [Nat.add_assoc, ← List.drop_drop, ← hs, ← l.length_encode, List.drop_left]
  rw [hd, hs]

/-- The bytes that the readers cut out after checking a length byte form a label. -/
theorem exists_label {packet : Bytes} {pos : Nat} {len : UInt8} (hp : packet[pos]? = some len)
    (h0 : len ≠ 0) (h63 : len &&& 0xC0 = 0) (hfit : pos + 1 + len.toNat ≤ packet.length) :
    ∃ l : Label, l.bytes = (packet.drop (pos + 1)).take len.toNat ∧
      l.bytes.length = len.toNat ∧ l.encode <+: packet.drop pos := by
  have hlen : ((packet.drop (pos + 1)).take len.toNat).length = len.toNat := by
    rw [List.length_take, List.length_drop]
    omega
  have hpos : 0 < len.toNat := by
    refine Nat.pos_of_ne_zero fun h => h0 ?_
    exact UInt8.toNat_inj.mp (by simpa using h)
  have hlt := topBits_zero.mp h63
  refine ⟨⟨_, by omega, by omega⟩, rfl, hlen, prefix_label_iff.mpr ⟨?_, ?_⟩⟩
  · simp [hlen, hp]
  · simp [hlen]

theorem label_fits {packet : Bytes} {pos : Nat} {l : Label} (h : l.encode <+: packet.drop pos) :
    pos + 1 + l.bytes.length ≤ packet.length := by
  have hl := h.length_le
  have := l.nonempty
  rw [l.length_encode, List.length_drop] at hl
  omega

/-! ## Text built label by label -/

theorem foldl_appendLabel (name : Bytes) (ls : List Label) (h : name ≠ []) :
    (ls.map Label.bytes).foldl appendLabel name =
      name ++ (ls.map Label.bytes).flatMap (dot :: ·) := by
  induction ls generalizing name with
  | nil => simp
  | cons l ls ih =>
    have hn : name.isEmpty = false := by simpa using h
    rw [List.map_cons, List.foldl_cons, ih _ (by simp [appendLabel, hn])]
    simp [appendLabel, hn]

/-- Appending the labels one by one to the empty text gives the dotted text. -/
theorem foldl_appendLabel_nil (ls : List Label) :
    (ls.map Label.bytes).foldl appendLabel [] = nameText ls := by
  cases ls with
  | nil => rfl
  | cons l ls =>
    have hl : l.bytes ≠ [] := List.ne_nil_of_length_pos l.nonempty
    have h0 : appendLabel [] l.bytes = l.bytes := by simp [appendLabel]
    rw [List.map_cons, List.foldl_cons, h0, foldl_appendLabel _ _ hl, nameText, List.map_cons,
      dotJoin_eq_flatMap]

/-! ## Names in questions -/

theorem root_prefix_iff {packet : Bytes} {pos : Nat} :
    encodeName [] <+: packet.drop pos ↔ packet[pos]? = some 0 := by
  have hp : packet[pos]? = (packet.drop pos)[0]? := by simp
  rw [hp, encodeName_nil]
  cases packet.drop pos <;> simp [eq_comm]

/-- One turn of the `ParseQName` loop, without the trace. -/
theorem val_parseQNameLoop (packet : Bytes) (pos : Nat) (name : Bytes) :
    (parseQNameLoop packet pos name).val =
      match packet[pos]? with
      | none => some (name, pos)
      | some len =>
        if len = 0 then some (name, pos + 1)
        else if len &&& 0xC0 ≠ 0 then none
        else if pos + 1 + len.toNat > packet.length then none
        else (parseQNameLoop packet (pos + 1 + len.toNat)
          (appendLabel name ((packet.drop (pos + 1)).take len.toNat))).val := by
  rw [parseQNameLoop]
  by_cases h : pos < packet.length
  · have hp : packet[pos]? = some packet[pos] := List.getElem?_eq_getElem h
    have hd : packet.getD pos default = packet[pos] := by simp [h]
    simp only [if_pos h, val_bind, val_peek, hd, hp, val_ite, val_pure, val_slice]
  · have hp : packet[pos]? = none := List.getElem?_eq_none (by omega)
    simp [if_neg h, hp]

theorem val_parseQName {packet : Bytes} {offset : Nat} {n : Bytes} {e : Nat} :
    (parseQName packet offset).val = some (n, e) ↔
      (parseQNameLoop packet offset []).val = some (n, e) ∧ e ≤ packet.length := by
  rw [parseQName, val_bind]
  cases (parseQNameLoop packet offset []).val with
  | none => simp
  | some r =>
    obtain ⟨name, pos⟩ := r
    by_cases h : pos > packet.length
    · simp only [if_pos h, val_pure]
      constructor
      · simp
      · rintro ⟨hr, hle⟩
        simp only [Option.some.injEq, Prod.mk.injEq] at hr
        omega
    · simp only [if_neg h, val_pure, Option.some.injEq, Prod.mk.injEq]
      constructor
      · rintro ⟨rfl, rfl⟩
        exact ⟨⟨rfl, rfl⟩, by omega⟩
      · exact And.left

/-- `ParseQName` stops behind a terminated name or, without one, where the packet ends. -/
theorem parseQNameLoop_sound (packet : Bytes) (pos : Nat) (name n : Bytes) (e : Nat)
    (hpos : pos ≤ packet.length) (h : (parseQNameLoop packet pos name).val = some (n, e)) :
    ∃ ls, n = (ls.map Label.bytes).foldl appendLabel name ∧
      (encodeName ls <+: packet.drop pos ∧ e = pos + (encodeName ls).length ∨
        packet.drop pos = ls.flatMap Label.encode ∧ e = packet.length) := by
  induction pos, name using parseQNameLoop.induct packet with
  | case2 pos name hend =>
    have he : pos = packet.length := by omega
    have hp : packet[pos]? = none := List.getElem?_eq_none (by omega)
    simp only [val_parseQNameLoop, hp, Option.some.injEq, Prod.mk.injEq] at h
    obtain ⟨rfl, rfl⟩ := h
    exact ⟨[], rfl, .inr ⟨by simp [he], he⟩⟩
  | case1 pos name hin ih =>
    rw [val_parseQNameLoop] at h
    have hp : packet[pos]? = some packet[pos] := List.getElem?_eq_getElem hin
    rw [hp] at h
    by_cases h0 : packet[pos] = 0
    · simp only [if_pos h0, Option.some.injEq, Prod.mk.injEq] at h
      obtain ⟨rfl, rfl⟩ := h
      exact ⟨[], rfl, .inl ⟨root_prefix_iff.mpr (by rw [hp, h0]), rfl⟩⟩
    by_cases htop : packet[pos] &&& 0xC0 = 0
    · by_cases hfit : pos + 1 + packet[pos].toNat > packet.length
      · simp [h0, htop, hfit] at h
      obtain ⟨l, hl, hlen, hat⟩ := exists_label hp h0 htop (by omega)
      simp only [if_neg h0, ne_eq, htop, not_true_eq_false, if_false, if_neg hfit, ← hl] at h
      have hdrop := drop_label hat
      rw [hlen] at hdrop
      obtain ⟨ls, rfl, ⟨hpre, rfl⟩ | ⟨hall, rfl⟩⟩ := ih packet[pos] hfit l.bytes (by omega) h
      · refine ⟨l :: ls, rfl, .inl ⟨?_, ?_⟩⟩
        · rw [hdrop, encodeName_cons]
          exact (List.prefix_append_right_inj _).mpr hpre
        · rw [encodeName_cons, List.length_append, l.length_encode, hlen]
          omega
      · exact ⟨l :: ls, rfl, .inr ⟨by rw [hdrop, hall, List.flatMap_cons], rfl⟩⟩
    · simp [h0, htop] at h

theorem parseQNameLoop_complete (packet : Bytes) (pos : Nat) (ls : List Label) (name : Bytes)
    (h : encodeName ls <+: packet.drop pos) :
    (parseQNameLoop packet pos name).val =
      some ((ls.map Label.bytes).foldl appendLabel name, pos + (encodeName ls).length) := by
  induction ls generalizing pos name with
  | nil =>
    simp [val_parseQNameLoop, root_prefix_iff.mp h]
  | cons l ls ih =>
    rw [encodeName_cons] at h
    have hat : l.encode <+: packet.drop pos := (List.prefix_append _ _).trans h
    rw [drop_label hat, List.prefix_append_right_inj] at h
    obtain ⟨hp, htake⟩ := prefix_label_iff.mp hat
    have hfit := label_fits hat
    obtain ⟨hne, htop⟩ := l.toNat_pos_lt
    rw [val_parseQNameLoop, hp]
    simp only [if_neg hne, ne_eq, htop, not_true_eq_false, if_false, l.toNat_length, htake,
      gt_iff_lt, if_neg (Nat.not_lt.mpr hfit), ih _ _ h, List.map_cons, List.foldl_cons,
      encodeName_cons, List.length_append, l.length_encode]
    congr 2
    omega

/-- Where bytes are left behind it, `ParseQName` read a terminated uncompressed name. -/
theorem val_parseQName_iff {packet : Bytes} {offset : Nat} {n : Bytes} {e : Nat}
    (he : e < packet.length) :
    (parseQName packet offset).val = some (n, e) ↔
      ∃ ls, encodeName ls <+: packet.drop offset ∧ e = offset + (encodeName ls).length ∧
        n = nameText ls := by
  rw [val_parseQName]
  constructor
  · rintro ⟨h, -⟩
    have hoff : offset ≤ packet.length := by
      by_contra hout
      have hn : packet[offset]? = none := List.getElem?_eq_none (by omega)
      simp only [val_parseQNameLoop, hn, Option.some.injEq, Prod.mk.injEq] at h
      omega
    obtain ⟨ls, rfl, ⟨hpre, rfl⟩ | ⟨-, rfl⟩⟩ := parseQNameLoop_sound packet offset [] n e hoff h
    · exact ⟨ls, hpre, rfl, foldl_appendLabel_nil ls⟩
    · omega
  · rintro ⟨ls, hpre, rfl, rfl⟩
    rw [parseQNameLoop_complete packet offset ls [] hpre, foldl_appendLabel_nil]
    exact ⟨rfl, by omega⟩

/-! ## Compressed names -/

/-- `NameAt packet pos j labels e`: at `pos` stands a name with these labels that
takes `j` jumps and whose in-line part ends at `e`. -/
inductive NameAt (packet : Bytes) : Nat → Nat → List Label → Nat → Prop where
  | root {pos : Nat} : packet[pos]? = some 0 → NameAt packet pos 0 [] (pos + 1)
  | label {pos j e : Nat} {l : Label} {ls : List Label} : l.encode <+: packet.drop pos →
      NameAt packet (pos + 1 + l.bytes.length) j ls e → NameAt packet pos j (l :: ls) e
  | pointer {pos j e : Nat} {hi lo : UInt8} {ls : List Label} : packet[pos]? = some hi →
      hi &&& 0xC0 = 0xC0 → packet[pos + 1]? = some lo →
      NameAt packet ((hi &&& 0x3F).toNat <<< 8 ||| lo.toNat) j ls e →
      NameAt packet pos (j + 1) ls (pos + 2)

/-- One turn of the `ReadName` loop, without the trace. -/
theorem val_readNameLoop (packet : Bytes) (pos jumpEnd : Nat) (jumped : Bool) (depth : Nat)
    (name : Bytes) :
    (readNameLoop packet pos jumpEnd jumped depth name).val =
      match packet[pos]? with
      | none => none
      | some len =>
        if len = 0 then some (name, if jumped then jumpEnd else pos + 1)
        else if len &&& 0xC0 = 0xC0 then
          match packet[pos + 1]? with
          | none => none
          | some low =>
            if depth + 1 > 16 then none
            else (readNameLoop packet ((len &&& 0x3F).toNat <<< 8 ||| low.toNat)
              (if jumped then jumpEnd else pos + 2) true (depth + 1) name).val
        else if len &&& 0xC0 ≠ 0 then none
        else if pos + 1 + len.toNat > packet.length then none
        else (readNameLoop packet (pos + 1 + len.toNat) jumpEnd jumped depth
          (appendLabel name ((packet.drop (pos + 1)).take len.toNat))).val := by
  rw [readNameLoop]
  by_cases h : pos < packet.length
  · have hp : packet[pos]? = some packet[pos] := List.getElem?_eq_getElem h
    have hd : packet.getD pos default = packet[pos] := by simp [h]
    simp only [if_pos h, val_bind, val_peek, hd, hp, val_ite, val_pure]
    by_cases h1 : pos + 1 < packet.length
    · have hq : packet[pos + 1]? = some packet[pos + 1] := List.getElem?_eq_getElem h1
      have hd1 : packet.getD (pos + 1) default = packet[pos + 1] := by simp [h1]
      simp only [hq, hd1, if_neg (Nat.not_le_of_lt h1), ge_iff_le, val_slice]
    · have hq : packet[pos + 1]? = none := List.getElem?_eq_none (by omega)
      simp only [hq, if_pos (Nat.le_of_not_lt h1), ge_iff_le, val_slice]
  · have hp : packet[pos]? = none := List.getElem?_eq_none (by omega)
    simp [if_neg h, hp]

theorem readNameLoop_sound (packet : Bytes) (pos jumpEnd : Nat) (jumped : Bool) (depth : Nat)
    (name n : Bytes) (e : Nat) (hd : depth ≤ 16)
    (h : (readNameLoop packet pos jumpEnd jumped depth name).val = some (n, e)) :
    ∃ j ls e', depth + j ≤ 16 ∧ NameAt packet pos j ls e' ∧
      n = (ls.map Label.bytes).foldl appendLabel name ∧ e = if jumped then jumpEnd else e' := by
  induction pos, jumpEnd, jumped, depth, name using readNameLoop.induct packet with
  | case2 pos jumpEnd jumped depth name hpos => simp [readNameLoop, hpos] at h
  | case1 pos jumpEnd jumped depth name hpos ihJump ihLabel =>
    rw [val_readNameLoop] at h
    have hp : packet[pos]? = some packet[pos] := List.getElem?_eq_getElem hpos
    rw [hp] at h
    by_cases h0 : packet[pos] = 0
    · simp only [if_pos h0, Option.some.injEq, Prod.mk.injEq] at h
      obtain ⟨rfl, rfl⟩ := h
      exact ⟨0, [], pos + 1, by omega, .root (by rw [hp, h0]), rfl, rfl⟩
    by_cases hptr : packet[pos] &&& 0xC0 = 0xC0
    · cases hq : packet[pos + 1]? with
      | none => simp [h0, hptr, hq] at h
      | some low =>
        by_cases hdepth : depth + 1 > 16
        · simp [h0, hptr, hq, hdepth] at h
        simp only [if_neg h0, if_pos hptr, hq, if_neg hdepth] at h
        have hin : ¬ pos + 1 ≥ packet.length := by
          have := (List.getElem?_eq_some_iff.mp hq).1
          omega
        obtain ⟨j, ls, e', hj, hat, rfl, rfl⟩ :=
          ihJump packet[pos] hin low hdepth (by omega) h
        exact ⟨j + 1, ls, pos + 2, by omega, .pointer hp hptr hq hat, rfl, by simp⟩
    by_cases htop : packet[pos] &&& 0xC0 = 0
    · by_cases hfit : pos + 1 + packet[pos].toNat > packet.length
      · simp [h0, htop, hfit] at h
      obtain ⟨l, hl, hlen, hat⟩ := exists_label hp h0 htop (by omega)
      simp only [if_neg h0, ne_eq, htop, not_true_eq_false, if_false, if_neg hfit,
        ← hl] at h
      obtain ⟨j, ls, e', hj, hrest, rfl, rfl⟩ := ihLabel packet[pos] hfit l.bytes hd h
      exact ⟨j, l :: ls, e', hj, .label hat (by rwa [hlen]), rfl, rfl⟩
    · simp [h0, hptr, htop] at h

theorem readNameLoop_complete {packet : Bytes} {pos j e : Nat} {ls : List Label}
    (h : NameAt packet pos j ls e) (jumpEnd : Nat) (jumped : Bool) (depth : Nat) (name : Bytes)
    (hd : depth + j ≤ 16) :
    (readNameLoop packet pos jumpEnd jumped depth name).val =
      some ((ls.map Label.bytes).foldl appendLabel name, if jumped then jumpEnd else e) := by
  induction h generalizing jumpEnd jumped depth name with
  | root h0 => simp [val_readNameLoop, h0]
  | @label pos j e l ls hat _ ih =>
    obtain ⟨hp, htake⟩ := prefix_label_iff.mp hat
    have hfit := label_fits hat
    obtain ⟨hne, htop⟩ := l.toNat_pos_lt
    rw [val_readNameLoop, hp]
    simp only [if_neg hne, htop, l.toNat_length, htake, if_neg (Nat.not_lt.mpr hfit), gt_iff_lt]
    simpa using ih jumpEnd jumped depth (appendLabel name l.bytes) hd
  | @pointer pos j e hi lo ls hp hptr hq _ ih =>
    have hne : hi ≠ 0 := by
      rintro rfl
      simp at hptr
    rw [val_readNameLoop, hp]
    simp only [if_neg hne, if_pos hptr, hq, if_neg (by omega : ¬ depth + 1 > 16)]
    rw [ih _ _ _ _ (by omega)]
    simp

/-- `ReadName` succeeds exactly on the names of the grammar that take at most 16 jumps. -/
theorem val_readName_iff {packet : Bytes} {offset : Nat} {n : Bytes} {e : Nat} :
    (readName packet offset).val = some (n, e) ↔
      ∃ j ls, j ≤ 16 ∧ NameAt packet offset j ls e ∧ n = nameText ls := by
  constructor
  · intro h
    obtain ⟨j, ls, e', hj, hat, rfl, rfl⟩ :=
      readNameLoop_sound packet offset offset false 0 [] n e (by omega)
        (by simpa [readName] using h)
    exact ⟨j, ls, by omega, by simpa using hat, foldl_appendLabel_nil ls⟩
  · rintro ⟨j, ls, hj, hat, rfl⟩
    have := readNameLoop_complete hat offset false 0 [] (by omega)
    simpa [readName, foldl_appendLabel_nil] using this

/-- The in-line part of a name ends behind its start and inside the packet. -/
theorem NameAt.end_bounds {packet : Bytes} {pos j e : Nat} {ls : List Label}
    (h : NameAt packet pos j ls e) : pos < e ∧ e ≤ packet.length := by
  induction h with
  | root h0 =>
    have := (List.getElem?_eq_some_iff.mp h0).1
    omega
  | label _ _ ih => omega
  | pointer _ _ hq _ _ =>
    have := (List.getElem?_eq_some_iff.mp hq).1
    omega

/-- An uncompressed name in the packet is a name of the grammar. -/
theorem NameAt.of_prefix {packet : Bytes} {pos : Nat} {ls : List Label}
    (h : encodeName ls <+: packet.drop pos) :
    NameAt packet pos 0 ls (pos + (encodeName ls).length) := by
  induction ls generalizing pos with
  | nil => exact .root (root_prefix_iff.mp h)
  | cons l ls ih =>
    rw [encodeName_cons] at h ⊢
    have hat : l.encode <+: packet.drop pos := (List.prefix_append _ _).trans h
    rw [drop_label hat, List.prefix_append_right_inj] at h
    have hrest := ih h
    rw [List.length_append, l.length_encode, ← Nat.add_assoc, ← Nat.add_assoc]
    exact .label hat hrest

end Gravastar
