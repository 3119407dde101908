import Gravastar.Config.Values

/-!
# Files of local records

A file with one `[[record]]` table for each record is read back as the list of
these records, in the form in which they are compared, exactly if no string has
a `#` in it: the loader drops everything from there on, and with it the quote at
the end of the string.
-/

namespace Gravastar

/-! ## Files -/

/-- The keys of a table that the loader knows. -/
inductive RecordField
  | name
  | type
  | value
  deriving DecidableEq

namespace RecordField

def key : RecordField → Bytes
  | name => ascii "name"
  | type => ascii "type"
  | value => ascii "value"

def get (rec : LocalRecord) : RecordField → Bytes
  | name => rec.name
  | type => rec.type
  | value => rec.value

end RecordField

/-- The strings of a record as TOML can hold them, between quotes on one line. -/
structure LocalRecord.Writable (rec : LocalRecord) : Prop where
  ne_nil : ∀ f : RecordField, f.get rec ≠ []
  noQuote : ∀ f : RecordField, quote ∉ f.get rec
  oneLine : ∀ f : RecordField, newline ∉ f.get rec
  name_ne_dot : rec.name ≠ [dot]

/-- The form in which a record is compared. -/
def LocalRecord.canonical (rec : LocalRecord) : LocalRecord :=
  ⟨canonicalName rec.name, toLower rec.type, rec.value⟩

/-- One `[[record]]` table with its three lines, in any order, and what stands above it. -/
structure RecordTable where
  above : List Remark
  record : LocalRecord
  order : List RecordField
  writable : record.Writable
  order_perm : order.Perm [.name, .type, .value]

namespace RecordTable

def lines (t : RecordTable) : List Bytes :=
  t.above.map Remark.text ++
    ascii "[[record]]" :: t.order.map fun f => keyLine f.key (quoted (f.get t.record))

/-- No string has a `#` in it. -/
def Plain (t : RecordTable) : Prop := ∀ f : RecordField, 35 ∉ f.get t.record

end RecordTable

def recordFile (tables : List RecordTable) : Bytes :=
  joinLines (tables.flatMap RecordTable.lines)

/-! ## Lines -/

namespace RecordField

theorem plainKey (f : RecordField) : PlainKey f.key := by
  cases f <;> decide

theorem isTableHeader_keyLine (f : RecordField) (v : Bytes) :
    isTableHeader (keyLine f.key v) = false := by
  cases f <;> simp [isTableHeader, keyLine, key, ascii]

end RecordField

/-- What is left of the line of a string with a `#` in it, `before` being the text up to there. -/
theorem stripComment_keyLine_quoted {key before : Bytes} (hkey : PlainKey key)
    (hbefore : 35 ∉ before) (after : Bytes) :
    stripComment (keyLine key (quoted (before ++ 35 :: after))) =
      keyLine key (quote :: before) := by
  have hstart : 35 ∉ keyLine key (quote :: before) :=
    notMem_keyLine hkey (.inl rfl) (by simp [hbefore, quote])
  have hline : keyLine key (quoted (before ++ 35 :: after)) =
      keyLine key (quote :: before) ++ 35 :: (after ++ [quote]) := by
    simp [keyLine, quoted]
  rw [hline, stripComment_append hstart, stripComment_comment (.inr rfl), List.append_nil]

/-! ## What the loader makes of a line -/

namespace RecordLoader

variable (l : RecordLoader) (number : Nat)

theorem lines_append (first rest : List Bytes) :
    l.lines number (first ++ rest) =
      l.lines number first >>= fun m => m.lines (number + first.length) rest := by
  induction first generalizing l number with
  | nil => rfl
  | cons text first ih =>
    rw [List.cons_append, lines, lines]
    cases l.line number text with
    | error e => rfl
    | ok m => exact (ih m (number + 1)).trans (by rw [List.length_cons, Nat.add_right_comm]; rfl)

theorem line_remark (r : Remark) : l.line number r.text = .ok l := by
  simp [line]

theorem lines_remarks (above : List Remark) :
    l.lines number (above.map Remark.text) = .ok l := by
  induction above generalizing number with
  | nil => rfl
  | cons r above ih =>
    rw [List.map_cons, lines, line_remark]
    exact ih (number + 1)

/-- A table header closes the table before it. -/
theorem line_header {l' : RecordLoader} (h : l.finish = .ok l') :
    l.line number (ascii "[[record]]") = .ok { l' with inRecord := true } := by
  have hraw : trim (stripComment (ascii "[[record]]")) = ascii "[[record]]" := by decide
  have hheader : isTableHeader (ascii "[[record]]") = true := by decide
  rw [line, hraw, hheader, h]
  rfl

/-- A key line inside a table, as far as the loader sees it. -/
theorem line_key {f : RecordField} {text v : Bytes} (hin : l.inRecord = true)
    (htext : trim (stripComment text) = keyLine f.key v) (hv : Tight v) :
    l.line number text =
      match parseQuotedString v with
      | none => .error (ascii "invalid local record value at line " ++ decimal number)
      | some s => .ok { l with current := setField l.current f.key s } := by
  have hempty : (keyLine f.key v).isEmpty = false := (tight_keyLine f.plainKey hv).isEmpty_eq
  rw [line, htext, hempty, f.isTableHeader_keyLine, keyValue_keyLine f.plainKey hv, hin]
  rfl

theorem line_plain {f : RecordField} {s : Bytes} (hin : l.inRecord = true) (hs : 35 ∉ s) :
    l.line number (keyLine f.key (quoted s)) =
      .ok { l with current := setField l.current f.key s } := by
  have htext : trim (stripComment (keyLine f.key (quoted s))) = keyLine f.key (quoted s) := by
    simpa using trim_stripComment_keyLine f.plainKey (tight_quoted s)
      (notMem_quoted (by decide) hs) .empty
  rw [l.line_key number hin htext (tight_quoted s), parseQuotedString_quoted]

/-- A string with a `#` in it has lost its closing quote. -/
theorem line_comment {f : RecordField} {s : Bytes} (hin : l.inRecord = true) (hs : 35 ∈ s)
    (hquote : quote ∉ s) :
    l.line number (keyLine f.key (quoted s)) =
      .error (ascii "invalid local record value at line " ++ decimal number) := by
  obtain ⟨before, after, rfl, hbefore⟩ := List.eq_append_cons_of_mem hs
  have hopen : quote ∉ before := fun h => hquote (List.mem_append_left _ h)
  obtain ⟨t, ht, htight, hstart⟩ :=
    trim_keyLine_cons f.plainKey (b := quote) (by decide) before
  have htext : trim (stripComment (keyLine f.key (quoted (before ++ 35 :: after)))) =
      keyLine f.key (quote :: t) := by
    rw [stripComment_keyLine_quoted f.plainKey hbefore, ht]
  rw [l.line_key number hin htext htight,
    parseQuotedString_open fun h => hopen (hstart.mem h)]

end RecordLoader

/-! ## What the loader makes of a table -/

namespace RecordTable

variable (t : RecordTable)

/-- The record that the loader builds from its first fields. -/
def setFields (cur : LocalRecord) (order : List RecordField) : LocalRecord :=
  order.foldl (fun cur f => RecordLoader.setField cur f.key (f.get t.record)) cur

/-- The order of the lines does not matter, and nothing of an earlier record is left. -/
theorem setFields_order (cur : LocalRecord) : t.setFields cur t.order = t.record.canonical := by
  have hcomm : RightCommutative fun (cur : LocalRecord) (f : RecordField) =>
      RecordLoader.setField cur f.key (f.get t.record) := by
    refine ⟨fun cur f g => ?_⟩
    cases f <;> cases g <;> rfl
  exact (t.order_perm.foldl_eq cur).trans rfl

theorem lines_fields_plain (l : RecordLoader) (number : Nat) (order : List RecordField)
    (hin : l.inRecord = true) (hplain : t.Plain) :
    l.lines number (order.map fun f => keyLine f.key (quoted (f.get t.record))) =
      .ok { l with current := t.setFields l.current order } := by
  induction order generalizing l number with
  | nil => rfl
  | cons f order ih =>
    rw [List.map_cons, RecordLoader.lines, l.line_plain number hin (hplain f)]
    exact ih { l with current := _ } (number + 1) hin

theorem lines_fields_comment (l : RecordLoader) (number : Nat) (order : List RecordField)
    (hin : l.inRecord = true) (h : ∃ f ∈ order, 35 ∈ f.get t.record) :
    ∃ e, l.lines number (order.map fun f => keyLine f.key (quoted (f.get t.record))) =
      .error e := by
  induction order generalizing l number with
  | nil => simp at h
  | cons f order ih =>
    rw [List.map_cons, RecordLoader.lines]
    by_cases hf : 35 ∈ f.get t.record
    · rw [l.line_comment number hin hf (t.writable.noQuote f)]
      exact ⟨_, rfl⟩
    · rw [l.line_plain number hin hf]
      obtain ⟨g, hg, hcomment⟩ := h
      have hrest : g ∈ order := (List.mem_cons.mp hg).resolve_left fun heq => hf (heq ▸ hcomment)
      exact ih { l with current := _ } (number + 1) hin ⟨g, hrest, hcomment⟩

theorem canonicalName_ne_nil {s : Bytes} (hne : s ≠ []) (hdot : s ≠ [dot]) :
    canonicalName s ≠ [] := by
  cases s with
  | nil => exact absurd rfl hne
  | cons b s =>
    cases s with
    | nil =>
      have hb : lowerByte b ≠ dot := fun h => hdot (by rw [lowerByte_eq_dot.mp h])
      simp [canonicalName, dropTrailingDot, toLower, hb]
    | cons c s =>
      rw [canonicalName, dropTrailingDot]
      split_ifs <;> simp [toLower]

/-- No field of a written record is empty. -/
theorem canonical_filled : ¬ (t.record.canonical.name.isEmpty ∨ t.record.canonical.type.isEmpty ∨
    t.record.canonical.value.isEmpty) := by
  have hname : canonicalName t.record.name ≠ [] :=
    canonicalName_ne_nil (t.writable.ne_nil .name) t.writable.name_ne_dot
  have htype : t.record.type ≠ [] := t.writable.ne_nil .type
  have hvalue : t.record.value ≠ [] := t.writable.ne_nil .value
  simp [LocalRecord.canonical, toLower, hname, htype, hvalue]

theorem finish_canonical (out : List LocalRecord) :
    RecordLoader.finish ⟨t.record.canonical, true, out⟩ =
      .ok ⟨⟨[], [], []⟩, true, out ++ [t.record.canonical]⟩ := by
  rw [RecordLoader.finish, if_pos rfl, if_neg t.canonical_filled]

variable {l l' : RecordLoader}

theorem lines_eq (hfinish : l.finish = .ok l') (number : Nat) :
    l.lines number t.lines =
      RecordLoader.lines { l' with inRecord := true } (number + t.above.length + 1)
        (t.order.map fun f => keyLine f.key (quoted (f.get t.record))) := by
  rw [lines, RecordLoader.lines_append, RecordLoader.lines_remarks, List.length_map]
  change RecordLoader.lines l _ (_ :: _) = _
  rw [RecordLoader.lines, l.line_header _ hfinish]
  rfl

/-- A plain table is read; its record is still waiting for the next table then. -/
theorem lines_plain (hfinish : l.finish = .ok l') (hplain : t.Plain) (number : Nat) :
    l.lines number t.lines = .ok ⟨t.record.canonical, true, l'.out⟩ := by
  rw [t.lines_eq hfinish, t.lines_fields_plain _ _ _ rfl hplain, setFields_order]

theorem lines_comment (hfinish : l.finish = .ok l') (h : ¬ t.Plain) (number : Nat) :
    ∃ e, l.lines number t.lines = .error e := by
  rw [t.lines_eq hfinish]
  obtain ⟨f, hf⟩ := not_forall.mp h
  have hmem : f ∈ t.order := t.order_perm.symm.mem_iff.mp (by cases f <;> simp)
  exact t.lines_fields_comment _ _ _ rfl ⟨f, hmem, not_not.mp hf⟩

end RecordTable

/-! ## What the loader makes of a file -/

variable {l l' : RecordLoader}

theorem lines_tables_plain {tables : List RecordTable} (hfinish : l.finish = .ok l')
    (hplain : ∀ t ∈ tables, t.Plain) (number : Nat) :
    ∃ m m', l.lines number (tables.flatMap RecordTable.lines) = .ok m ∧ m.finish = .ok m' ∧
      m'.out = l'.out ++ tables.map (·.record.canonical) := by
  induction tables generalizing l l' number with
  | nil => exact ⟨l, l', rfl, hfinish, by simp⟩
  | cons t tables ih =>
    obtain ⟨m, m', hm, hm', hout⟩ := ih (t.finish_canonical l'.out)
      (fun u hu => hplain u (List.mem_cons_of_mem _ hu)) (number + t.lines.length)
    refine ⟨m, m', ?_, hm', by simp [hout]⟩
    rw [List.flatMap_cons, RecordLoader.lines_append,
      t.lines_plain hfinish (hplain t List.mem_cons_self)]
    exact hm

theorem lines_tables_comment {tables : List RecordTable} (hfinish : l.finish = .ok l')
    (h : ∃ t ∈ tables, ¬ t.Plain) (number : Nat) :
    ∃ e, l.lines number (tables.flatMap RecordTable.lines) = .error e := by
  induction tables generalizing l l' number with
  | nil => simp at h
  | cons t tables ih =>
    rw [List.flatMap_cons, RecordLoader.lines_append]
    by_cases ht : t.Plain
    · rw [t.lines_plain hfinish ht]
      obtain ⟨u, hu, hcomment⟩ := h
      have hrest : u ∈ tables := (List.mem_cons.mp hu).resolve_left fun heq => hcomment (heq ▸ ht)
      exact ih (t.finish_canonical l'.out) ⟨u, hrest, hcomment⟩ _
    · obtain ⟨e, he⟩ := t.lines_comment hfinish ht number
      rw [he]
      exact ⟨e, rfl⟩

theorem newline_notMem_lines (t : RecordTable) : ∀ line ∈ t.lines, newline ∉ line := by
  intro line hline
  simp only [RecordTable.lines, List.mem_append, List.mem_cons, List.mem_map] at hline
  rcases hline with ⟨r, -, rfl⟩ | rfl | ⟨f, -, rfl⟩
  · exact r.oneLine
  · decide
  · exact notMem_keyLine f.plainKey (.inr rfl)
      (notMem_quoted (by decide) (t.writable.oneLine f))

theorem loadLocalRecords_recordFile (path : Bytes) (tables : List RecordTable) :
    loadLocalRecords path (some (recordFile tables)) =
      RecordLoader.lines ⟨⟨[], [], []⟩, false, []⟩ 1 (tables.flatMap RecordTable.lines) >>=
        fun l => l.finish >>= fun l => pure l.out := by
  have hlines : getLines (recordFile tables) = tables.flatMap RecordTable.lines := by
    refine getLines_joinLines fun line hline => ?_
    obtain ⟨t, -, ht⟩ := List.mem_flatMap.mp hline
    exact newline_notMem_lines t line ht
  rw [loadLocalRecords, readLines, hlines]
  rfl

theorem RecordTable.plain_iff (t : RecordTable) :
    t.Plain ↔ 35 ∉ t.record.name ∧ 35 ∉ t.record.type ∧ 35 ∉ t.record.value := by
  refine ⟨fun h => ⟨h .name, h .type, h .value⟩, fun h f => ?_⟩
  cases f with
  | name => exact h.1
  | type => exact h.2.1
  | value => exact h.2.2

/-- A file of records is read back exactly if no string in it has a `#`. -/
theorem loadLocalRecords_eq_canonical_iff (path : Bytes) (tables : List RecordTable) :
    loadLocalRecords path (some (recordFile tables)) = .ok (tables.map (·.record.canonical)) ↔
      ∀ t ∈ tables, 35 ∉ t.record.name ∧ 35 ∉ t.record.type ∧ 35 ∉ t.record.value := by
  have hstart : RecordLoader.finish ⟨⟨[], [], []⟩, false, []⟩ = .ok ⟨⟨[], [], []⟩, false, []⟩ :=
    rfl
  simp only [← RecordTable.plain_iff, loadLocalRecords_recordFile]
  constructor
  · intro hload
    by_contra hplain
    obtain ⟨e, he⟩ := lines_tables_comment hstart (by simpa using hplain) 1
    rw [he] at hload
    cases hload
  · intro hplain
    obtain ⟨m, m', hm, hm', hout⟩ := lines_tables_plain hstart hplain 1
    rw [hm]
    change m.finish >>= _ = _
    rw [hm']
    exact congrArg Except.ok hout

/-- A text record whose value has a `#` in it, as it may stand in a zone file. -/
def hashRecord : RecordTable where
  above := []
  record := ⟨ascii "info.local", ascii "TXT", ascii "ticket #42"⟩
  order := [.name, .type, .value]
  writable := by
    refine ⟨?_, ?_, ?_, by decide⟩ <;> intro f <;> cases f <;> decide
  order_perm := List.Perm.refl _

theorem hashRecord_refused :
    recordFile [hashRecord] =
      ascii "[[record]]\nname = \"info.local\"\ntype = \"TXT\"\nvalue = \"ticket #42\"\n" ∧
    loadLocalRecords (ascii "local_records.toml") (some (recordFile [hashRecord])) =
      .error (ascii "invalid local record value at line 4") := by
  decide +kernel

end Gravastar
