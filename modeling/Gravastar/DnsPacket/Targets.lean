import Gravastar.DnsPacket.Answer
import Gravastar.Lib.Marker

/-!
# Which written names can be read back

`WriteQName` takes any text. A label of 64 or more bytes gets a length byte that
`ReadName` rejects, follows as a pointer, or takes for a shorter label; an empty
one looks like the end. Read back as the text it was written from, up to the end
of the message, is a name with labels of 1 to 63 bytes and no other.
-/

namespace Gravastar
open Traced

theorem length_writeQNameLoop_pos (name : Bytes) (start : Nat) :
    0 < (writeQNameLoop name start).length := by
  rw [writeQNameLoop]
  split_ifs <;> simp

/-! ## The first label of a text -/

theorem dropTrailingDot_of_dot_not_mem {s : Bytes} (h : dot ∉ s) : dropTrailingDot s = s := by
  rw [dropTrailingDot, if_neg fun hlast => h (List.mem_of_getLast? hlast)]

theorem dropTrailingDot_append_dot (s : Bytes) : dropTrailingDot (s ++ [dot]) = s := by
  simp [dropTrailingDot]

theorem dropTrailingDot_append {r : Bytes} (s : Bytes) (h : r ≠ []) :
    dropTrailingDot (s ++ r) = s ++ dropTrailingDot r := by
  rw [dropTrailingDot, dropTrailingDot, List.getLast?_append_of_ne_nil s h]
  split_ifs
  · exact List.dropLast_append_of_ne_nil h
  · rfl

/-- Behind the first label of a name's text comes a dot, or nothing. -/
theorem nameText_cons_eq (l : Label) (ls : List Label) :
    ∃ more, nameText (l :: ls) = l.bytes ++ more ∧
      (more = [] ∧ ls = [] ∨ more = dot :: nameText ls ∧ ls ≠ []) := by
  cases ls with
  | nil => exact ⟨[], by simp, .inl ⟨rfl, rfl⟩⟩
  | cons m ls => exact ⟨_, nameText_cons_cons l m ls, .inr ⟨rfl, by simp⟩⟩

theorem nameText_eq_undotted {l : Label} {ls : List Label} {a : Bytes} (ha : dot ∉ a)
    (h : nameText (l :: ls) = a) : l.bytes = a ∧ ls = [] := by
  obtain ⟨more, hmore, ⟨hnil, hls⟩ | ⟨hdot, -⟩⟩ := nameText_cons_eq l ls
  · rw [hnil, List.append_nil] at hmore
    exact ⟨hmore.symm.trans h, hls⟩
  · refine absurd ?_ ha
    rw [← h, hmore, hdot]
    simp

/-- A name's text that is cut at a dot: the first label and the rest of the labels. -/
theorem nameText_eq_dotted {l : Label} {ls : List Label} {a r : Bytes} (hl : dot ∉ l.bytes)
    (ha : dot ∉ a) (h : nameText (l :: ls) = a ++ dot :: r) :
    l.bytes = a ∧ ls ≠ [] ∧ nameText ls = r := by
  obtain ⟨more, hmore, ⟨hnil, -⟩ | ⟨hdot, hls⟩⟩ := nameText_cons_eq l ls
  · refine absurd ?_ hl
    rw [hnil, List.append_nil] at hmore
    rw [← hmore, h]
    simp
  · obtain ⟨hlabel, hrest⟩ := Marker.cut_first hl ha (.inl (by rw [hdot]; rfl)) (.inl rfl)
      (hmore.symm.trans h)
    rw [hdot] at hrest
    exact ⟨hlabel, hls, (List.cons.inj hrest).2⟩

theorem WritesName.cons {l : Label} {ls : List Label} {r : Bytes} (hl : dot ∉ l.bytes)
    (h : WritesName r ls) (hne : ls ≠ []) : WritesName (l.bytes ++ dot :: r) (l :: ls) := by
  obtain ⟨m, ms, rfl⟩ := List.exists_cons_of_ne_nil hne
  refine ⟨dotFree_cons.mpr ⟨hl, h.1⟩, ?_⟩
  rcases h.2 with rfl | ⟨-, rfl⟩
  · exact .inl (nameText_cons_cons l m ms).symm
  · exact .inr ⟨by simp, by simp⟩

/-! ## The reader against the writer -/

/-- Where `ReadName` meets a label that a length byte of the writer announces, it does not read
further than the writer's label. -/
theorem label_prefix {packet label rest : Bytes} {pos : Nat} {l : Label}
    (hdrop : packet.drop pos = UInt8.ofNat label.length :: label ++ rest)
    (hl : l.encode <+: packet.drop pos) : l.bytes <+: label := by
  rw [hdrop, Label.encode, List.cons_append, List.cons_prefix_cons] at hl
  have hnat := congrArg UInt8.toNat hl.1
  rw [l.toNat_length, UInt8.toNat_ofNat'] at hnat
  exact List.prefix_of_prefix_length_le hl.2 (List.prefix_append ..)
    (hnat.trans_le (Nat.mod_le ..))

/-- A name that ends with the message begins with a label, if one was written. -/
theorem NameAt.exists_label_of_writer {packet label rest : Bytes} {pos j : Nat}
    {ls : List Label} (hdrop : packet.drop pos = UInt8.ofNat label.length :: label ++ rest)
    (hrest : 0 < rest.length) (hat : NameAt packet pos j ls packet.length) :
    ∃ l ms, ls = l :: ms ∧ l.bytes <+: label ∧
      NameAt packet (pos + 1 + l.bytes.length) j ms packet.length := by
  have hbyte : packet[pos]? = some (UInt8.ofNat label.length) := by
    have hget := congrArg (·[0]?) hdrop
    simpa using hget
  have hlen := congrArg List.length hdrop
  simp only [List.length_drop, List.length_append, List.length_cons] at hlen
  generalize hend : packet.length = e at hat
  cases hat with
  | root => omega
  | pointer hp hptr hq =>
    -- a length byte of 192 or more has at least that many bytes behind it
    obtain rfl := Option.some.inj (hbyte.symm.trans hp)
    have htop := (topBits_iff _).2.mp hptr
    rw [UInt8.toNat_ofNat'] at htop
    have := Nat.mod_le label.length (2 ^ 8)
    omega
  | @label _ _ _ l ls hl hrest =>
    subst hend
    exact ⟨l, ls, rfl, label_prefix hdrop hl, hrest⟩

/-- The induction follows the labels of the text. The reader stays in step with the writer: it
meets a length byte exactly where one was written. -/
theorem writesName_of_nameAt {packet name : Bytes} {j : Nat} (start : Nat) :
    ∀ {pos : Nat} {ls : List Label}, packet.drop pos = writeQNameLoop name start →
      NameAt packet pos j ls packet.length → nameText ls = dropTrailingDot (name.drop start) →
      WritesName (name.drop start) ls := by
  fun_induction writeQNameLoop name start with
  | case2 start hend =>
    intro pos ls _ _ htext
    rw [List.drop_eq_nil_of_le (by omega)] at htext ⊢
    obtain rfl := nameText_eq_nil.mp htext
    exact ⟨by simp [DotFree], .inl rfl⟩
  | case1 start hin label =>
    rename_i ih
    intro pos ls hdrop hat htext
    obtain ⟨l, ms, rfl, hpre, hrest⟩ :=
      hat.exists_label_of_writer hdrop (length_writeQNameLoop_pos ..)
    by_cases hdot : dot ∈ name.drop start
    · obtain ⟨a, r, hcut, ha⟩ := List.eq_append_cons_of_mem hdot
      have hlabel : label = a := by
        rw [show label = (name.drop start).takeWhile (· ≠ dot) from rfl, hcut]
        exact takeWhile_label ha (.inl rfl)
      clear_value label
      subst hlabel
      have hr : name.drop (start + label.length + 1) = r := by
        rw [Nat.add_assoc, ← List.drop_drop, hcut]
        simp [← List.drop_drop]
      have hl : dot ∉ l.bytes := fun h => ha (hpre.subset h)
      rw [hcut] at htext ⊢
      by_cases hnil : r = []
      · subst hnil
        rw [dropTrailingDot_append_dot] at htext
        obtain ⟨rfl, rfl⟩ := nameText_eq_undotted ha htext
        exact ⟨by simpa [DotFree] using ha, .inr ⟨by simp, by simp⟩⟩
      · have hr' : dropTrailingDot (dot :: r) = dot :: dropTrailingDot r :=
          dropTrailingDot_append [dot] hnil
        rw [dropTrailingDot_append label (by simp), hr'] at htext
        obtain ⟨rfl, hne, htail⟩ := nameText_eq_dotted hl ha htext
        have hdrop' := drop_of_drop (j := pos + 1 + l.bytes.length) hdrop (by simp; omega)
        have hih := ih hdrop' hrest (by rw [hr, htail])
        rw [hr] at hih
        exact hih.cons ha hne
    · rw [dropTrailingDot_of_dot_not_mem hdot] at htext
      obtain ⟨hl, rfl⟩ := nameText_eq_undotted hdot htext
      rw [← hl] at hdot ⊢
      exact ⟨by simpa [DotFree] using hdot, .inl (by simp)⟩

/-- What reads back as the text it was written from, without one final dot, is a name. -/
theorem exists_writesName {msg target : Bytes} {offset : Nat}
    (hdrop : msg.drop offset = writeQName target)
    (hread : (readName msg offset).val = some (dropTrailingDot target, msg.length)) :
    ∃ labels, WritesName target labels := by
  rw [writeQName] at hdrop
  split_ifs at hdrop with hnil
  · rw [List.isEmpty_iff.mp hnil]
    exact ⟨[], by simp [DotFree], .inl rfl⟩
  · obtain ⟨j, ls, -, hat, htext⟩ := val_readName_iff.mp hread
    exact ⟨ls, writesName_of_nameAt 0 hdrop hat htext.symm⟩

/-! ## In a response -/

/-- A response decodes to whatever is said about its RDATA exactly if RDLENGTH can count it. -/
theorem decodesTo_iff (header : DnsHeader) {question : DnsQuestion} {ls : List Label}
    (hd : DotFree ls) (htext : question.qname = nameText ls) (type : UInt16) (rdata : Bytes) :
    ∃ offset, (buildResponse header question type rdata).drop offset = rdata ∧
      offset + rdata.length = (buildResponse header question type rdata).length ∧
      ∀ value : Nat → Prop,
        DecodesTo (buildResponse header question type rdata) question type value ↔
          rdata.length ≤ 65535 ∧ value offset := by
  obtain ⟨offset, hdrop, hlen, hdecode⟩ :=
    decodeMessage_buildResponse header hd htext type rdata
  refine ⟨offset, hdrop, hlen, fun value => ⟨?_, ?_⟩⟩
  · rintro ⟨id, flags, rdlength, offset', hdecode', -, hvalue⟩
    rw [hdecode] at hdecode'
    split_ifs at hdecode' with hfit
    obtain ⟨-, -, hoffset⟩ := by simpa using hdecode'
    exact ⟨by omega, hoffset ▸ hvalue⟩
  · rintro ⟨hfit, hvalue⟩
    rw [if_pos (by omega)] at hdecode
    refine ⟨_, _, _, offset, hdecode, ?_, hvalue⟩
    rw [UInt16.toNat_ofNat', ← hlen]
    omega

/-- The name that stands at `offset` ends with the message, and is `target` without one final
dot. -/
def TargetUpToEnd (msg target : Bytes) (offset : Nat) : Prop :=
  (readName msg offset).val = some (dropTrailingDot target, msg.length)

theorem takeWhile_dropTrailingDot (s : Bytes) :
    (dropTrailingDot s).takeWhile (· ≠ dot) = s.takeWhile (· ≠ dot) := by
  by_cases hlast : s.getLast? = some dot
  · obtain ⟨t, rfl⟩ := List.getLast?_eq_some_iff.mp hlast
    rw [dropTrailingDot_append_dot]
    by_cases hdot : dot ∈ t
    · obtain ⟨a, r, rfl, ha⟩ := List.eq_append_cons_of_mem hdot
      rw [List.append_assoc, takeWhile_label ha (.inl rfl), takeWhile_label ha (.inl rfl)]
    · rw [takeWhile_label hdot (.inl rfl)]
      simpa using takeWhile_label hdot (.inr rfl)
  · rw [dropTrailingDot, if_neg hlast]

/-- A text with a longer first label than the one that was written is not read there. -/
theorem not_targetUpToEnd_of_shorter {msg written target : Bytes} {offset : Nat}
    (hdrop : msg.drop offset = writeQName written) (hne : written ≠ [])
    (hshorter : (written.takeWhile (· ≠ dot)).length < (target.takeWhile (· ≠ dot)).length) :
    ¬ TargetUpToEnd msg target offset := by
  intro hread
  obtain ⟨j, ls, -, hat, htext⟩ := val_readName_iff.mp hread
  rw [writeQName, if_neg (by simpa using hne), writeQNameLoop,
    if_pos (List.length_pos_of_ne_nil hne), List.drop_zero] at hdrop
  obtain ⟨l, ms, rfl, hpre, -⟩ :=
    hat.exists_label_of_writer hdrop (length_writeQNameLoop_pos ..)
  have hl : dot ∉ l.bytes := fun h => by simpa using List.mem_takeWhile_imp (hpre.subset h)
  obtain ⟨more, hmore, hend⟩ := nameText_cons_eq l ms
  have hfirst : l.bytes = target.takeWhile (· ≠ dot) := by
    rw [← takeWhile_dropTrailingDot, htext, hmore]
    refine (takeWhile_label hl ?_).symm
    rcases hend with ⟨hnil, -⟩ | ⟨hdot, -⟩
    · exact .inr hnil
    · exact .inl (by rw [hdot]; rfl)
  exact absurd hpre.length_le (by rw [hfirst]; omega)

/-- The text is a name whose wire form, behind `before` bytes of RDATA, RDLENGTH can count. -/
def IsTarget (before : Nat) (text : Bytes) : Prop :=
  ∃ labels, WritesName text labels ∧ before + (encodeName labels).length ≤ 65535

theorem WritesName.dropTrailingDot {text : Bytes} {labels : List Label}
    (h : WritesName text labels) : dropTrailingDot text = nameText labels := by
  obtain ⟨hd, rfl | ⟨-, rfl⟩⟩ := h
  · rw [Gravastar.dropTrailingDot, if_neg (getLast?_nameText hd)]
  · exact dropTrailingDot_append_dot _

/-- A written name ends the message and reads back as its text exactly if it is a name. -/
theorem targetUpToEnd_iff {msg target : Bytes} {offset : Nat}
    (hdrop : msg.drop offset = writeQName target)
    (hlen : offset + (writeQName target).length = msg.length) :
    TargetUpToEnd msg target offset ↔ ∃ labels, WritesName target labels := by
  constructor
  · exact exists_writesName hdrop
  · rintro ⟨labels, h⟩
    rw [writeQName_eq h] at hdrop hlen
    rw [TargetUpToEnd, h.dropTrailingDot]
    exact nameUpToEnd hdrop hlen

end Gravastar
