import Gravastar.Config
import Gravastar.Lib.Marker

/-!
# Written values

How lines of a configuration file are written, and what the loaders see of
them behind `Trim(StripComment(line))`: remarks disappear, a key and its value
come apart again, and a quoted string gives back the text inside.
-/

namespace Gravastar

/-! ## Text without white space at its ends -/

/-- Not empty, with other bytes than white space at both ends. -/
def Tight (s : Bytes) : Prop :=
  s.head?.map isSpace = some false ∧ s.getLast?.map isSpace = some false

instance (s : Bytes) : Decidable (Tight s) := inferInstanceAs (Decidable (_ ∧ _))

namespace Tight

variable {s t : Bytes}

theorem of_ends (hne : s ≠ []) (hfirst : ∀ b ∈ s.head?, isSpace b = false)
    (hlast : ∀ b ∈ s.getLast?, isSpace b = false) : Tight s := by
  have hhead := List.head?_eq_some_head hne
  have hgetLast := List.getLast?_eq_some_getLast hne
  rw [Tight, hhead, hgetLast, Option.map_some, Option.map_some, hfirst _ hhead, hlast _ hgetLast]
  exact ⟨rfl, rfl⟩

theorem ne_nil (h : Tight s) : s ≠ [] := by
  rintro rfl
  cases h.1

theorem trim_eq (h : Tight s) : trim s = s := by
  have hend : ∀ o : Option UInt8, o.map isSpace = some false → ∀ b ∈ o, isSpace b = false := by
    rintro _ ho b rfl
    exact Option.some.inj ho
  exact trim_eq_self (hend _ h.1) (hend _ h.2)

theorem isEmpty_eq (h : Tight s) : s.isEmpty = false := List.isEmpty_eq_false_iff.mpr h.ne_nil

/-- Only the ends count. -/
theorem append (hs : Tight s) (mid : Bytes) (ht : Tight t) : Tight (s ++ mid ++ t) := by
  have hhead : (s ++ mid ++ t).head? = s.head? := by
    rw [List.append_assoc]
    exact List.head?_append_of_ne_nil s hs.ne_nil
  have hlast : (s ++ mid ++ t).getLast? = t.getLast? := List.getLast?_append_of_ne_nil _ ht.ne_nil
  exact ⟨hhead ▸ hs.1, hlast ▸ ht.2⟩

end Tight

/-! ## Comments -/

/-- What may stand behind the text of a line, or alone: white space and a comment. -/
structure Remark where
  blank : Bytes
  comment : Bytes
  isBlank : Blank blank
  isComment : comment = [] ∨ comment.head? = some 35
  oneLine : newline ∉ blank ++ comment

namespace Remark

def text (r : Remark) : Bytes := r.blank ++ r.comment

/-- Nothing at all. -/
def empty : Remark := ⟨[], [], blank_nil, .inl rfl, by simp⟩

@[simp] theorem text_empty : empty.text = [] := rfl

end Remark

theorem stripComment_append {s : Bytes} (h : 35 ∉ s) (t : Bytes) :
    stripComment (s ++ t) = s ++ stripComment t := Marker.takeWhile_append h t

theorem stripComment_comment {s : Bytes} (h : s = [] ∨ s.head? = some 35) :
    stripComment s = [] := by
  rcases h with rfl | h
  · rfl
  · cases s with
    | nil => rfl
    | cons b s =>
      obtain rfl : b = 35 := by simpa using h
      rfl

theorem Blank.notMem {w : Bytes} (h : Blank w) {b : UInt8} (hb : isSpace b = false) : b ∉ w :=
  fun hmem => Bool.false_ne_true (hb.symm.trans (h b hmem))

theorem stripComment_remark (r : Remark) : stripComment r.text = r.blank := by
  rw [Remark.text, stripComment_append (r.isBlank.notMem (by decide)),
    stripComment_comment r.isComment, List.append_nil]

/-- A line of its own with a remark, or an empty one, is empty for the loaders. -/
@[simp] theorem trim_stripComment_remark (r : Remark) : trim (stripComment r.text) = [] := by
  rw [stripComment_remark]
  exact r.isBlank.trim_eq

/-- Of a line with a text, the indentation and the remark are dropped. -/
theorem trim_stripComment_text {indent s : Bytes} (hindent : Blank indent) (hs : Tight s)
    (hcomment : 35 ∉ s) (r : Remark) :
    trim (stripComment (indent ++ s ++ r.text)) = s := by
  have hstart : 35 ∉ indent ++ s := by
    simpa [hcomment] using hindent.notMem (b := 35) (by decide)
  rw [stripComment_append hstart, stripComment_remark, trim_append_blank _ r.isBlank,
    hindent.trim_append]
  exact hs.trim_eq

/-! ## Keys and values -/

/-- A key that comes apart from its value again. -/
structure PlainKey (key : Bytes) : Prop where
  tight : Tight key
  noEquals : 61 ∉ key
  noComment : 35 ∉ key
  oneLine : newline ∉ key

instance (key : Bytes) : Decidable (PlainKey key) :=
  decidable_of_iff (Tight key ∧ 61 ∉ key ∧ 35 ∉ key ∧ newline ∉ key)
    ⟨fun h => ⟨h.1, h.2.1, h.2.2.1, h.2.2.2⟩, fun h => ⟨h.1, h.2, h.3, h.4⟩⟩

/-- `key = value`. -/
def keyLine (key value : Bytes) : Bytes := key ++ ascii " = " ++ value

section
variable {key value : Bytes} (hkey : PlainKey key)
include hkey

theorem notMem_keyLine {b : UInt8} (hb : b = 35 ∨ b = newline) (hvalue : b ∉ value) :
    b ∉ keyLine key value := by
  have hsep : ascii " = " = [32, 61, 32] := by decide
  have hbyte : b ≠ 32 ∧ b ≠ 61 ∧ b ∉ key := by
    rcases hb with rfl | rfl
    · exact ⟨by decide, by decide, hkey.noComment⟩
    · exact ⟨by decide, by decide, hkey.oneLine⟩
  simp [keyLine, hsep, hbyte, hvalue]

theorem tight_keyLine (hvalue : Tight value) : Tight (keyLine key value) :=
  hkey.tight.append _ hvalue

theorem trim_stripComment_keyLine (hvalue : Tight value) (h : 35 ∉ value) (r : Remark) :
    trim (stripComment (keyLine key value ++ r.text)) = keyLine key value := by
  have hline : 35 ∉ keyLine key value := notMem_keyLine hkey (.inl rfl) h
  simpa using trim_stripComment_text blank_nil (tight_keyLine hkey hvalue) hline r

theorem keyValue_keyLine (hvalue : Tight value) :
    keyValue (keyLine key value) = some (key, value) := by
  have hspace : Blank (ascii " ") := by decide
  have hline : keyLine key value = (key ++ ascii " ") ++ 61 :: (ascii " " ++ value) := by
    simp [keyLine, show ascii " = " = [32, 61, 32] by decide, show ascii " " = [32] by decide]
  have hstart : 61 ∉ key ++ ascii " " := by
    simpa [hkey.noEquals] using hspace.notMem (b := 61) (by decide)
  rw [hline, keyValue, if_pos (by simp), Marker.takeWhile_cut hstart, Marker.dropWhile_cut hstart,
    List.tail_cons, trim_append_blank _ hspace, hspace.trim_append, hkey.tight.trim_eq,
    hvalue.trim_eq]

/-- A loader finds a key line not empty, with the key and the value. -/
theorem keyLine_read (hvalue : Tight value) (h : 35 ∉ value) (r : Remark) :
    (trim (stripComment (keyLine key value ++ r.text))).isEmpty = false ∧
      keyValue (trim (stripComment (keyLine key value ++ r.text))) = some (key, value) := by
  rw [trim_stripComment_keyLine hkey hvalue h]
  exact ⟨(tight_keyLine hkey hvalue).isEmpty_eq, keyValue_keyLine hkey hvalue⟩

/-- Trimming a line leaves the start of its value as it is. -/
theorem trim_keyLine_cons {b : UInt8} (hb : isSpace b = false) (s : Bytes) :
    ∃ t, trim (keyLine key (b :: s)) = keyLine key (b :: t) ∧ Tight (b :: t) ∧ t <+: s := by
  obtain ⟨t, w, rfl, hw, ht⟩ := exists_blank_end_cons hb s
  have htight : Tight (b :: t) := .of_ends (by simp) (by simpa using hb) ht
  refine ⟨t, ?_, htight, List.prefix_append t w⟩
  have hline : keyLine key (b :: (t ++ w)) = keyLine key (b :: t) ++ w := by simp [keyLine]
  rw [hline, trim_append_blank _ hw]
  exact (tight_keyLine hkey htight).trim_eq

end

/-! ## The white space of a line -/

theorem mem_trim {s : Bytes} {b : UInt8} (hb : isSpace b = false) : b ∈ trim s ↔ b ∈ s := by
  obtain ⟨w, w', hs, hw, hw', -⟩ := exists_trim s
  have hmem : b ∈ s ↔ b ∈ w ++ trim s ++ w' := by rw [← hs]
  simp [hmem, hw.notMem hb, hw'.notMem hb]

/-- A key and its value lose their white space anyway. -/
theorem keyValue_trim (s : Bytes) : keyValue (trim s) = keyValue s := by
  obtain ⟨w, w', hs, hw, hw', -⟩ := exists_trim s
  have hequals : 61 ∈ trim s ↔ 61 ∈ s := mem_trim (by decide)
  rw [keyValue, keyValue]
  by_cases h : 61 ∈ trim s
  · rw [if_pos h, if_pos (hequals.mp h)]
    obtain ⟨before, after, hcut, hbefore⟩ := List.eq_append_cons_of_mem h
    have hs' : s = (w ++ before) ++ 61 :: (after ++ w') := by
      rw [hs, hcut]
      simp
    have hstart : 61 ∉ w ++ before := by
      rw [List.mem_append, not_or]
      exact ⟨hw.notMem (by decide), hbefore⟩
    rw [hcut, hs', Marker.takeWhile_cut hbefore, Marker.dropWhile_cut hbefore,
      Marker.takeWhile_cut hstart, Marker.dropWhile_cut hstart, List.tail_cons, List.tail_cons,
      hw.trim_append, trim_append_blank _ hw']
  · rw [if_neg h, if_neg fun hs => h (hequals.mpr hs)]

theorem mem_of_keyValue {raw key value : Bytes} (h : keyValue raw = some (key, value)) {b : UInt8}
    (hb : b ∈ value) : b ∈ raw := by
  rw [keyValue] at h
  split_ifs at h
  obtain ⟨-, rfl⟩ := Prod.mk.inj (Option.some.inj h)
  obtain ⟨w, w', hs, -⟩ := exists_trim (raw.dropWhile (· ≠ 61)).tail
  have hinner := List.mem_append_left w' (List.mem_append_right w hb)
  rw [← hs] at hinner
  exact (List.dropWhile_sublist _).mem (List.mem_of_mem_tail hinner)

theorem trim_of_keyValue {raw key value : Bytes} (h : keyValue raw = some (key, value)) :
    trim value = value := by
  rw [keyValue] at h
  split_ifs at h
  obtain ⟨-, rfl⟩ := Prod.mk.inj (Option.some.inj h)
  exact trim_trim _

/-! ## Quoted strings -/

def quoted (s : Bytes) : Bytes := quote :: s ++ [quote]

theorem notMem_quoted {b : UInt8} (hb : b ≠ quote) {s : Bytes} (h : b ∉ s) : b ∉ quoted s := by
  simp [quoted, hb, h]

@[simp] theorem getLast?_quoted (s : Bytes) : (quoted s).getLast? = some quote :=
  List.getLast?_concat

theorem tight_quoted (s : Bytes) : Tight (quoted s) := by
  have hquote : isSpace quote = false := by decide
  exact .of_ends (by simp [quoted]) (by simpa [quoted] using hquote) (by simpa using hquote)

/-- A quoted string gives back its text, whatever that is. -/
theorem parseQuotedString_quoted (s : Bytes) : parseQuotedString (quoted s) = some s := by
  have hends : ¬ ((quoted s).length < 2 ∨ (quoted s).head? ≠ some quote ∨
      (quoted s).getLast? ≠ some quote) := by
    rw [getLast?_quoted]
    simp [quoted]
  rw [parseQuotedString, (tight_quoted s).trim_eq, if_neg hends]
  simp [quoted]

/-- Without its closing quote a string is refused. -/
theorem parseQuotedString_open {s : Bytes} (h : quote ∉ s) :
    parseQuotedString (quote :: s) = none := by
  obtain ⟨t, ht, hstart⟩ := trim_cons (b := quote) (by decide) s
  rw [parseQuotedString, ht]
  cases t using List.reverseRecOn with
  | nil => rfl
  | append_singleton t b =>
    -- The last byte is one of the text, which holds no quote.
    have hb : b ≠ quote := fun heq => h (heq ▸ hstart.mem (by simp))
    have hlast : (quote :: (t ++ [b])).getLast? = some b := by
      rw [← List.cons_append, List.getLast?_concat]
    simp [hlast, hb]

/-! ## Numbers -/

theorem tight_decimal (n : Nat) : Tight (decimal n) :=
  .of_ends (decimal_ne_nil n) (fun _ hb => isSpace_of_mem_decimal (List.mem_of_mem_head? hb))
    fun _ hb => isSpace_of_mem_decimal (List.mem_of_mem_getLast? hb)

/-- A written number is read, cut off at the largest value. -/
theorem parseInteger_decimal (n : Nat) :
    parseInteger (decimal n) = some (UInt64.ofNat (min n (2 ^ 64 - 1))) := by
  have hminus : (decimal n).head? ≠ some 45 := head?_decimal_ne n (by decide)
  have hunsigned : ¬ ((decimal n).head? = some 43 ∨ (decimal n).head? = some 45) :=
    not_or.mpr ⟨head?_decimal_ne n (by decide), hminus⟩
  have hstrtoul : strtoul (decimal n) = some (UInt64.ofNat (min n (2 ^ 64 - 1)), []) := by
    rw [strtoul]
    dsimp only
    rw [if_neg hunsigned, takeWhile_isDigit_decimal, dropWhile_isDigit_decimal,
      (tight_decimal n).isEmpty_eq, digitsValue_decimal, if_neg Bool.false_ne_true, if_neg hminus]
    by_cases hlarge : n ≥ 2 ^ 64
    · rw [if_pos hlarge, Nat.min_eq_right (by omega)]
    · rw [if_neg hlarge, Nat.min_eq_left (by omega)]
  rw [parseInteger, (tight_decimal n).trim_eq, (tight_decimal n).isEmpty_eq, hstrtoul]
  simp

end Gravastar
