import Gravastar.DnsPacket.Build
import Gravastar.DnsPacket.Names
import Gravastar.Lib.Marker

/-!
# What the writers put on the wire

`WriteQName` cuts its text at the dots. On the text of labels that hold no dot
it writes the wire form of the name; a dot inside a label changes the first
length byte it meets. The fixed-width fields read back as they were written.
-/

namespace Gravastar
open Traced

/-- No label holds the separator. -/
def DotFree (labels : List Label) : Prop := ∀ l ∈ labels, dot ∉ l.bytes

instance (labels : List Label) : Decidable (DotFree labels) :=
  inferInstanceAs (Decidable (∀ l ∈ labels, dot ∉ l.bytes))

theorem dotFree_cons {l : Label} {ls : List Label} :
    DotFree (l :: ls) ↔ dot ∉ l.bytes ∧ DotFree ls := List.forall_mem_cons

/-- A name as the configuration may write it: with or without a final dot. -/
def WritesName (text : Bytes) (labels : List Label) : Prop :=
  DotFree labels ∧ (text = nameText labels ∨ labels ≠ [] ∧ text = nameText labels ++ [dot])

@[simp] theorem nameText_nil : nameText [] = [] := rfl

@[simp] theorem nameText_singleton (l : Label) : nameText [l] = l.bytes := by simp [nameText]

@[simp] theorem nameText_cons_cons (l m : Label) (ls : List Label) :
    nameText (l :: m :: ls) = l.bytes ++ dot :: nameText (m :: ls) := by simp [nameText]

@[simp] theorem nameText_eq_nil {ls : List Label} : nameText ls = [] ↔ ls = [] := by
  constructor
  · intro h
    cases ls with
    | nil => rfl
    | cons l ls =>
      have hl := l.nonempty
      rw [nameText, List.map_cons, dotJoin_eq_flatMap] at h
      rw [(List.append_eq_nil_iff.mp h).1] at hl
      simp at hl
  · rintro rfl
    rfl

theorem nameText_cons_ne_nil (l : Label) (ls : List Label) : nameText (l :: ls) ≠ [] := by simp

/-- The text of dot-free labels does not end in a dot. -/
theorem getLast?_nameText {ls : List Label} (hd : DotFree ls) :
    (nameText ls).getLast? ≠ some dot := by
  induction ls with
  | nil => simp
  | cons l ls ih =>
    cases ls with
    | nil =>
      rw [nameText_singleton]
      exact fun h => (dotFree_cons.mp hd).1 (List.mem_of_getLast? h)
    | cons m ls =>
      have hrest := ih (dotFree_cons.mp hd).2
      rw [nameText_cons_cons, List.getLast?_append, List.getLast?_cons]
      cases hlast : (nameText (m :: ls)).getLast? with
      | none => exact absurd (List.getLast?_eq_none_iff.mp hlast) (nameText_cons_ne_nil m ls)
      | some b =>
        rw [hlast] at hrest
        simpa using hrest

/-- A wire name ends itself: of two names at one place neither goes on behind the other. -/
theorem encodeName_unique {ls ms : List Label} {s : Bytes} (hl : encodeName ls <+: s)
    (hm : encodeName ms <+: s) : ls = ms := by
  induction ls generalizing ms s with
  | nil =>
    cases ms with
    | nil => rfl
    | cons m ms =>
      obtain ⟨t, rfl⟩ := hl
      have hz := (List.cons_prefix_cons.mp hm).1
      exact absurd hz m.toNat_pos_lt.1
  | cons l ls ih =>
    cases ms with
    | nil =>
      obtain ⟨t, rfl⟩ := hm
      have hz := (List.cons_prefix_cons.mp hl).1
      exact absurd hz l.toNat_pos_lt.1
    | cons m ms =>
      obtain ⟨t, rfl⟩ := hl
      rw [encodeName_cons, encodeName_cons, List.append_assoc] at hm
      have hlen : l.bytes.length = m.bytes.length := by
        rw [← l.toNat_length, ← m.toNat_length, (List.cons_prefix_cons.mp hm).1]
      have hbytes : m.bytes = l.bytes := by
        have hpre := (List.prefix_append _ _).trans (List.cons_prefix_cons.mp hm).2
        have hsame := List.prefix_of_prefix_length_le hpre (List.prefix_append ..) hlen.ge
        exact hsame.eq_of_length hlen.symm
      obtain rfl : l = m := by
        cases l
        cases m
        simp_all
      rw [ih (List.prefix_append _ t) ((List.prefix_append_right_inj _).mp hm)]

instance (text : Bytes) (labels : List Label) : Decidable (WritesName text labels) :=
  inferInstanceAs (Decidable (_ ∧ (_ ∨ _)))

/-! ## `WriteQName` -/

theorem takeWhile_label {s t : Bytes} (h : dot ∉ s) (ht : t.head? = some dot ∨ t = []) :
    (s ++ t).takeWhile (· ≠ dot) = s := by
  rw [Marker.takeWhile_append h]
  cases t with
  | nil => simp
  | cons b t =>
    obtain rfl : b = dot := by simpa using ht
    simp

/-- One turn of the loop, at a label behind `pre`. -/
theorem writeQNameLoop_label {pre rest : Bytes} {l : Label} (h : dot ∉ l.bytes)
    (hr : rest.head? = some dot ∨ rest = []) :
    writeQNameLoop (pre ++ (l.bytes ++ rest)) pre.length =
      l.encode ++ writeQNameLoop (pre ++ (l.bytes ++ rest)) (pre.length + l.bytes.length + 1) := by
  have hl := l.nonempty
  rw [writeQNameLoop, if_pos (by simp; omega)]
  simp only [List.drop_left, takeWhile_label h hr]
  rfl

theorem writeQNameLoop_end {name : Bytes} {start : Nat} (h : name.length ≤ start) :
    writeQNameLoop name start = [0] := by
  rw [writeQNameLoop, if_neg (by omega)]

theorem writeQNameLoop_nameText (tail : Bytes) (ht : tail = [] ∨ tail = [dot]) (l : Label)
    (ls : List Label) (hd : DotFree (l :: ls)) (pre : Bytes) :
    writeQNameLoop (pre ++ (nameText (l :: ls) ++ tail)) pre.length = encodeName (l :: ls) := by
  induction ls generalizing l pre with
  | nil =>
    have hlen : tail.length ≤ 1 := by rcases ht with rfl | rfl <;> simp
    rw [nameText_singleton, writeQNameLoop_label (dotFree_cons.mp hd).1 (by
      rcases ht with rfl | rfl <;> simp), writeQNameLoop_end (by simp; omega)]
    simp
  | cons m ls ih =>
    have hl := dotFree_cons.mp hd
    have hpre : pre ++ (l.bytes ++ dot :: nameText (m :: ls) ++ tail) =
        (pre ++ l.bytes ++ [dot]) ++ (nameText (m :: ls) ++ tail) := by simp
    have hlen : pre.length + l.bytes.length + 1 = (pre ++ l.bytes ++ [dot]).length := by
      simp [Nat.add_assoc]
    rw [nameText_cons_cons, List.append_assoc, List.cons_append,
      writeQNameLoop_label hl.1 (.inl rfl), ← List.cons_append, ← List.append_assoc l.bytes,
      hpre, hlen, ih m hl.2, encodeName_cons l]

/-- Re-encoding the text of dot-free labels, with or without a final dot, is the identity. -/
theorem writeQName_eq {text : Bytes} {ls : List Label} (h : WritesName text ls) :
    writeQName text = encodeName ls := by
  obtain ⟨hd, rfl | ⟨hne, rfl⟩⟩ := h
  · cases ls with
    | nil => rfl
    | cons l ls =>
      have hn : (nameText (l :: ls)).isEmpty = false := by simp
      rw [writeQName, hn]
      simpa using writeQNameLoop_nameText [] (.inl rfl) l ls hd []
  · cases ls with
    | nil => exact absurd rfl hne
    | cons l ls =>
      have hn : (nameText (l :: ls) ++ [dot]).isEmpty = false := by simp
      rw [writeQName, hn]
      simpa using writeQNameLoop_nameText [dot] (.inr rfl) l ls hd []

theorem length_takeWhile_lt {s t : Bytes} (h : dot ∈ s) :
    ((s ++ t).takeWhile (· ≠ dot)).length < s.length := by
  induction s with
  | nil => simp at h
  | cons b s ih =>
    by_cases hb : b = dot
    · simp [hb]
    · have := ih ((List.mem_cons.mp h).resolve_left (Ne.symm hb))
      simp [hb]
      simpa using this

/-- A dot inside a label makes the loop write a shorter length byte than the wire had. -/
theorem writeQNameLoop_dotted {l : Label} (h : dot ∈ l.bytes) (pre rest s t : Bytes) :
    ¬ l.encode ++ s <+: writeQNameLoop (pre ++ (l.bytes ++ rest)) pre.length ++ t := by
  have hl := l.nonempty
  have hshort := l.short
  have hlt := length_takeWhile_lt (t := rest) h
  rw [writeQNameLoop, if_pos (by simp; omega), List.drop_left, Label.encode]
  simp only [List.cons_append, List.cons_prefix_cons]
  rintro ⟨hlen, -⟩
  have hnat := congrArg UInt8.toNat hlen
  rw [UInt8.toNat_ofNat', UInt8.toNat_ofNat'] at hnat
  omega

theorem writeQNameLoop_ne (l : Label) (ls : List Label) (hd : ¬ DotFree (l :: ls))
    (pre t : Bytes) :
    ¬ encodeName (l :: ls) <+: writeQNameLoop (pre ++ nameText (l :: ls)) pre.length ++ t := by
  induction ls generalizing l pre with
  | nil =>
    have hl : dot ∈ l.bytes := by simpa [DotFree] using hd
    simpa using writeQNameLoop_dotted hl pre [] [0] t
  | cons m ls ih =>
    rw [nameText_cons_cons, encodeName_cons]
    by_cases hl : dot ∈ l.bytes
    · exact writeQNameLoop_dotted hl pre _ _ t
    · have hpre : pre ++ (l.bytes ++ dot :: nameText (m :: ls)) =
          (pre ++ l.bytes ++ [dot]) ++ nameText (m :: ls) := by simp
      have hlen : pre.length + l.bytes.length + 1 = (pre ++ l.bytes ++ [dot]).length := by
        simp [Nat.add_assoc]
      rw [writeQNameLoop_label hl (.inl rfl), List.append_assoc, List.prefix_append_right_inj,
        hpre, hlen]
      exact ih m (fun hd' => hd (dotFree_cons.mpr ⟨hl, hd'⟩)) _

/-- The wire form of a name survives decoding and re-encoding exactly if no label holds a dot. -/
theorem encodeName_prefix_writeQName {ls : List Label} {t : Bytes} :
    encodeName ls <+: writeQName (nameText ls) ++ t ↔ DotFree ls := by
  constructor
  · intro h
    cases ls with
    | nil => simp [DotFree]
    | cons l ls =>
      have hn : (nameText (l :: ls)).isEmpty = false := by simp
      rw [writeQName, hn] at h
      by_contra hd
      exact writeQNameLoop_ne l ls hd [] t h
  · intro hd
    rw [writeQName_eq ⟨hd, .inl rfl⟩]
    exact List.prefix_append ..

/-! ## Fixed-width fields -/

theorem writeU16_eq (v : UInt16) :
    writeU16 v = [UInt8.ofNat (v.toNat / 256), UInt8.ofNat (v.toNat % 256)] := by
  have hv := v.toNat_lt
  rw [writeU16, shiftRight_and_byte hv, and_byte]

theorem toNat_readU16 (buf : Bytes) (i : Nat) : (readU16 buf i).val.toNat =
    (buf.getD i 0).toNat * 256 + (buf.getD (i + 1) 0).toNat := by
  have hval : (readU16 buf i).val =
    UInt16.ofNat ((buf.getD i 0).toNat <<< 8 ||| (buf.getD (i + 1) 0).toNat) := rfl
  have hhi := (buf.getD i 0).toNat_lt
  have hlo := (buf.getD (i + 1) 0).toNat_lt
  rw [hval, UInt16.toNat_ofNat', shiftLeft_or_byte]
  omega

/-- A 16-bit field reads back as it was written. -/
theorem readU16_of_drop {buf rest : Bytes} {i : Nat} {v : UInt16}
    (h : buf.drop i = writeU16 v ++ rest) : (readU16 buf i).val = v := by
  have hv := v.toNat_lt
  rw [writeU16_eq] at h
  have h0 : buf[i]? = some (UInt8.ofNat (v.toNat / 256)) := by
    have hget := congrArg (fun l : List UInt8 => l[0]?) h
    simpa using hget
  have h1 : buf[i + 1]? = some (UInt8.ofNat (v.toNat % 256)) := by
    have hget := congrArg (fun l : List UInt8 => l[1]?) h
    simpa using hget
  refine UInt16.toNat_inj.mp ?_
  rw [toNat_readU16, List.getD, List.getD, h0, h1, Option.getD_some, Option.getD_some,
    UInt8.toNat_ofNat', UInt8.toNat_ofNat']
  omega

/-- Two bytes of a packet are the 16-bit field read there. -/
theorem drop_eq_writeU16 {buf : Bytes} {i : Nat} (h : i + 2 ≤ buf.length) :
    buf.drop i = writeU16 (readU16 buf i).val ++ buf.drop (i + 2) := by
  have h0 : buf.getD i 0 = buf[i] := by simp [show i < buf.length by omega]
  have h1 : buf.getD (i + 1) 0 = buf[i + 1] := by simp [show i + 1 < buf.length by omega]
  have hhi := (buf[i]).toNat_lt
  have hlo := (buf[i + 1]).toNat_lt
  rw [List.drop_eq_getElem_cons (by omega), List.drop_eq_getElem_cons (by omega), writeU16_eq,
    toNat_readU16, h0, h1,
    show (buf[i].toNat * 256 + buf[i + 1].toNat) / 256 = buf[i].toNat by omega,
    show (buf[i].toNat * 256 + buf[i + 1].toNat) % 256 = buf[i + 1].toNat by omega]
  simp

@[simp] theorem length_writeU16 (v : UInt16) : (writeU16 v).length = 2 := rfl

theorem drop_of_drop {buf s rest : Bytes} {i j : Nat} (h : buf.drop i = s ++ rest)
    (hj : i + s.length = j) : buf.drop j = rest := by
  rw [← hj, ← List.drop_drop, h, List.drop_left]

/-! ## The layout of responses -/

@[simp] theorem length_buildResponseHeader (header : DnsHeader) (qdcount ancount : UInt16) :
    (buildResponseHeader header qdcount ancount).length = 12 := rfl

theorem buildResponseHeader_append (header : DnsHeader) (qdcount ancount : UInt16) (t : Bytes) :
    buildResponseHeader header qdcount ancount ++ t =
      writeU16 header.id ++ (writeU16 (responseFlags header) ++ (writeU16 qdcount ++
        (writeU16 ancount ++ (writeU16 0 ++ (writeU16 0 ++ t))))) := by
  simp only [buildResponseHeader, List.append_assoc]

theorem buildResponse_eq (header : DnsHeader) (question : DnsQuestion) (type : UInt16)
    (rdata : Bytes) : buildResponse header question type rdata =
      buildResponseHeader header 1 1 ++ (appendQuestion question ++ (writeQName question.qname ++
        (writeU16 type ++ (writeU16 1 ++ (writeU32 60 ++
          (writeU16 (UInt16.ofNat rdata.length) ++ rdata)))))) := by
  simp only [buildResponse, List.append_assoc]

end Gravastar
