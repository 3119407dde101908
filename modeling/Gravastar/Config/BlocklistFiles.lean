import Gravastar.Config.Arrays
import Mathlib.Data.Finset.Lattice.Lemmas

/-!
# Blocklist files

The loader of blocklists reads quoted strings line by line and takes no notice
of what stands between them, so the layout of the array does not matter as long
as no item has a closing bracket in it.
-/

namespace Gravastar

/-- Text without quotes in front of the rest. -/
theorem extractQuotedLoop_append {s : Bytes} (h : quote ∉ s) (inQuote : Bool) (current t : Bytes) :
    extractQuotedLoop inQuote current (s ++ t) =
      extractQuotedLoop inQuote (if inQuote then current ++ s else current) t := by
  induction s generalizing current with
  | nil => simp
  | cons b s ih =>
    rw [List.mem_cons, not_or] at h
    rw [List.cons_append, extractQuotedLoop, if_neg (Ne.symm h.1), ih h.2]
    cases inQuote <;> simp

/-- Text without quotes at the end. -/
theorem extractQuotedLoop_append_right {t : Bytes} (h : quote ∉ t) (inQuote : Bool)
    (current s : Bytes) :
    extractQuotedLoop inQuote current (s ++ t) = extractQuotedLoop inQuote current s := by
  induction s generalizing inQuote current with
  | nil => simpa [extractQuotedLoop] using extractQuotedLoop_append h inQuote current []
  | cons b s ih =>
    rw [List.cons_append, extractQuotedLoop, extractQuotedLoop]
    split_ifs <;> simp [ih]

theorem extractQuotedStrings_append {s : Bytes} (h : quote ∉ s) (t : Bytes) :
    extractQuotedStrings (s ++ t) = extractQuotedStrings t :=
  extractQuotedLoop_append h false [] t

theorem extractQuotedStrings_append_right (s : Bytes) {t : Bytes} (h : quote ∉ t) :
    extractQuotedStrings (s ++ t) = extractQuotedStrings s :=
  extractQuotedLoop_append_right h false [] s

theorem extractQuotedStrings_quoted {s : Bytes} (h : quote ∉ s) (t : Bytes) :
    extractQuotedStrings (quoted s ++ t) = s :: extractQuotedStrings t := by
  have hopen : extractQuotedStrings (quoted s ++ t) =
      extractQuotedLoop true [] (s ++ quote :: t) := by
    rw [extractQuotedStrings, quoted, List.cons_append, List.cons_append, extractQuotedLoop]
    simp
  rw [hopen, extractQuotedLoop_append h, extractQuotedLoop]
  simp [extractQuotedStrings]

theorem extractQuotedStrings_trim (s : Bytes) :
    extractQuotedStrings (trim s) = extractQuotedStrings s := by
  obtain ⟨w, w', hs, hw, hw', -⟩ := exists_trim s
  rw [congrArg extractQuotedStrings hs,
    extractQuotedStrings_append_right _ (hw'.notMem (by decide)),
    extractQuotedStrings_append (hw.notMem (by decide))]

/-! ## What the loader makes of a line -/

namespace BlocklistLoader

variable (l : BlocklistLoader)

theorem insertItems_eq (text : Bytes) :
    l.insertItems text = ⟨!text.contains 93,
      l.out ∪ ((extractQuotedStrings text).map canonicalName).toFinset⟩ := by
  rw [insertItems]
  congr 1
  generalize extractQuotedStrings text = items
  generalize l.out = out
  induction items generalizing out with
  | nil => simp
  | cons item items ih =>
    rw [List.foldl_cons, ih, List.map_cons, List.toFinset_cons, Finset.insert_union,
      Finset.union_insert]

theorem insertItems_trim (text : Bytes) : l.insertItems (trim text) = l.insertItems text := by
  have hbracket : (trim text).contains 93 = text.contains 93 := by
    rw [Bool.eq_iff_iff, List.contains_iff_mem, List.contains_iff_mem]
    exact mem_trim (by decide)
  rw [insertItems, insertItems, extractQuotedStrings_trim, hbracket]

variable {l}

/-- Inside the array a line adds its quoted strings. -/
theorem line_inside (h : l.inDomains = true) (text : Bytes) :
    l.line text = l.insertItems (stripComment text) := by
  rw [line, ← l.insertItems_trim (stripComment text)]
  cases hempty : (trim (stripComment text)).isEmpty with
  | false => simp [h]
  | true =>
    obtain ⟨inDomains, out⟩ := l
    obtain rfl : inDomains = true := h
    rw [List.isEmpty_iff.mp hempty]
    rfl

/-- Outside of it only the key `domains` matters. -/
theorem line_outside (h : l.inDomains = false) (text : Bytes) :
    l.line text =
      match keyValue (stripComment text) with
      | none => l
      | some (key, value) => if key ≠ ascii "domains" then l else l.insertItems value := by
  rw [line, ← keyValue_trim (stripComment text)]
  cases hempty : (trim (stripComment text)).isEmpty with
  | false => cases keyValue (trim (stripComment text)) <;> simp [h]
  | true =>
    rw [List.isEmpty_iff.mp hempty]
    rfl

theorem line_nil (l : BlocklistLoader) : l.line [] = l := rfl

end BlocklistLoader

/-! ## Layouts -/

/-- Commas and white space between items. -/
structure Separator where
  text : Bytes
  plain : ∀ b ∈ text, isSpace b = true ∨ b = 44
  oneLine : newline ∉ text

structure BlocklistItem where
  text : Bytes
  noQuote : quote ∉ text
  noComment : 35 ∉ text
  noBracket : 93 ∉ text
  oneLine : newline ∉ text

/-- Any number of items on one line, with separators around them. -/
structure ItemRow where
  items : List (Separator × BlocklistItem)
  trail : Separator

namespace ItemRow

def text (row : ItemRow) : Bytes :=
  (row.items.flatMap fun x => x.1.text ++ quoted x.2.text) ++ row.trail.text

def strings (row : ItemRow) : List Bytes := row.items.map fun x => x.2.text

end ItemRow

/-- An array of domains: the lines without the closing bracket, and the last one. The first line has
the key in front. -/
structure DomainsArray where
  indent : Indent
  beforeEquals : Indent
  afterEquals : Indent
  rows : List (ItemRow × Remark)
  last : ItemRow
  remark : Remark

namespace DomainsArray

variable (a : DomainsArray)

/-- `domains = [`. -/
def opening : Bytes :=
  a.indent.text ++ ascii "domains" ++ a.beforeEquals.text ++ [61] ++ a.afterEquals.text ++ [91]

def closing : Bytes := a.last.text ++ [93] ++ a.remark.text

def lines : List Bytes :=
  match a.rows with
  | [] => [a.opening ++ a.closing]
  | (row, remark) :: rows =>
    (a.opening ++ (row.text ++ remark.text)) ::
      rows.map (fun r => r.1.text ++ r.2.text) ++ [a.closing]

def items : List Bytes := (a.rows.flatMap fun r => r.1.strings) ++ a.last.strings

end DomainsArray

/-- A line without an assignment, or with one to another key. -/
structure OtherLine where
  text : Bytes
  oneLine : newline ∉ text
  other : ∀ key value, keyValue (stripComment text) = some (key, value) → key ≠ ascii "domains"

/-- A file, with or without a line break behind its last line. -/
def fileText (lines : List Bytes) (ended : Bool) : Bytes :=
  if ended then joinLines lines else (joinLines lines).dropLast

/-! ## What the loader makes of a layout -/

namespace Separator

variable (x : Separator)

theorem notMem {b : UInt8} (hspace : isSpace b = false) (hcomma : b ≠ 44) : b ∉ x.text := by
  intro hb
  rcases x.plain b hb with h | h
  · rw [hspace] at h
    cases h
  · exact hcomma h

end Separator

namespace ItemRow

variable (row : ItemRow)

/-- Bytes that are in no separator and in no item. -/
theorem notMem_text {b : UInt8} (hseparator : ∀ x : Separator, b ∉ x.text)
    (hitem : ∀ x : BlocklistItem, b ∉ x.text) (hquote : b ≠ quote) : b ∉ row.text := by
  rw [text, List.mem_append, not_or]
  refine ⟨fun hb => ?_, hseparator row.trail⟩
  obtain ⟨x, -, hx⟩ := List.mem_flatMap.mp hb
  rcases List.mem_append.mp hx with hx | hx
  · exact hseparator x.1 hx
  · exact notMem_quoted hquote (hitem x.2) hx

theorem noComment : 35 ∉ row.text :=
  row.notMem_text (fun x => x.notMem (by decide) (by decide)) BlocklistItem.noComment (by decide)

theorem noBracket : 93 ∉ row.text :=
  row.notMem_text (fun x => x.notMem (by decide) (by decide)) BlocklistItem.noBracket (by decide)

theorem oneLine : newline ∉ row.text :=
  row.notMem_text Separator.oneLine BlocklistItem.oneLine (by decide)

theorem extractQuotedStrings_text : extractQuotedStrings row.text = row.strings := by
  have htrail : quote ∉ row.trail.text := row.trail.notMem (by decide) (by decide)
  rw [text, extractQuotedStrings_append_right _ htrail, strings]
  induction row.items with
  | nil => rfl
  | cons x items ih =>
    have hseparator : quote ∉ x.1.text := x.1.notMem (by decide) (by decide)
    rw [List.flatMap_cons, List.append_assoc, extractQuotedStrings_append hseparator,
      extractQuotedStrings_quoted x.2.noQuote, ih, List.map_cons]

end ItemRow

theorem Remark.notMem (r : Remark) : newline ∉ r.text := r.oneLine

theorem Indent.notMem (x : Indent) {b : UInt8} (hb : isSpace b = false) : b ∉ x.text :=
  x.isBlank.notMem hb

namespace BlocklistLoader

variable {l : BlocklistLoader}

/-- A row inside the array adds its items. -/
theorem insertItems_row (row : ItemRow) (w : Bytes) (hw : Blank w) :
    l.insertItems (row.text ++ w) =
      ⟨true, l.out ∪ (row.strings.map canonicalName).toFinset⟩ := by
  have hbracket : (row.text ++ w).contains 93 = false := by
    simpa using And.intro row.noBracket (hw.notMem (by decide : isSpace 93 = false))
  rw [insertItems_eq, hbracket, extractQuotedStrings_append_right _ (hw.notMem (by decide)),
    row.extractQuotedStrings_text]
  rfl

/-- The last row closes the array. -/
theorem insertItems_last (row : ItemRow) (w : Bytes) (hw : Blank w) :
    l.insertItems (row.text ++ [93] ++ w) =
      ⟨false, l.out ∪ (row.strings.map canonicalName).toFinset⟩ := by
  have hbracket : (row.text ++ [93] ++ w).contains 93 = true := by simp
  have htail : quote ∉ [93] ++ w := by
    simpa using And.intro (by decide : quote ≠ 93) (hw.notMem (by decide : isSpace quote = false))
  rw [insertItems_eq, hbracket, List.append_assoc, extractQuotedStrings_append_right _ htail,
    row.extractQuotedStrings_text]
  rfl

/-- The bracket that opens the array adds nothing. -/
theorem insertItems_bracket (text : Bytes) : l.insertItems (91 :: text) = l.insertItems text := by
  have hquotes : extractQuotedStrings (91 :: text) = extractQuotedStrings text :=
    extractQuotedStrings_append (s := [91]) (by decide) text
  have hbracket : (91 :: text).contains 93 = text.contains 93 := by simp
  rw [insertItems_eq, insertItems_eq, hquotes, hbracket]

end BlocklistLoader

namespace DomainsArray

variable (a : DomainsArray)

theorem noComment_opening : 35 ∉ a.opening := by
  have hindent : ∀ x : Indent, 35 ∉ x.text := fun x => x.notMem (by decide)
  simp [opening, hindent, ascii]

theorem newline_notMem_opening : newline ∉ a.opening := by
  have hkey : newline ∉ ascii "domains" := by decide
  have hequals : newline ≠ 61 := by decide
  have hbracket : newline ≠ 91 := by decide
  simp [opening, a.indent.oneLine, a.beforeEquals.oneLine, a.afterEquals.oneLine, hkey, hequals,
    hbracket]

/-- The first line has the key, and behind it whatever follows the bracket. -/
theorem keyValue_opening (text : Bytes) :
    keyValue (a.opening ++ text) = some (ascii "domains", trim (91 :: text)) := by
  have hline : a.opening ++ text =
      (a.indent.text ++ ascii "domains" ++ a.beforeEquals.text) ++
        61 :: (a.afterEquals.text ++ 91 :: text) := by
    simp [opening]
  have hstart : 61 ∉ a.indent.text ++ ascii "domains" ++ a.beforeEquals.text := by
    have hindent : ∀ x : Indent, 61 ∉ x.text := fun x => x.notMem (by decide)
    simp [hindent, ascii]
  have hkey : trim (ascii "domains") = ascii "domains" := by decide
  rw [hline, keyValue, if_pos (by simp), Marker.takeWhile_cut hstart, Marker.dropWhile_cut hstart,
    List.tail_cons, trim_append_blank _ a.beforeEquals.isBlank, a.indent.isBlank.trim_append, hkey,
    a.afterEquals.isBlank.trim_append]

variable {l : BlocklistLoader}

/-- The first line is read like a line inside the array without the key. -/
theorem line_opening (h : l.inDomains = false) {text : Bytes} (hcomment : 35 ∉ text) (r : Remark) :
    l.line (a.opening ++ (text ++ r.text)) = l.insertItems (text ++ r.blank) := by
  have hstart : 35 ∉ a.opening ++ text := by
    rw [List.mem_append, not_or]
    exact ⟨a.noComment_opening, hcomment⟩
  rw [BlocklistLoader.line_outside h, ← List.append_assoc, stripComment_append hstart,
    stripComment_remark, List.append_assoc, a.keyValue_opening]
  dsimp only
  rw [if_neg (by simp), BlocklistLoader.insertItems_trim, BlocklistLoader.insertItems_bracket]

theorem line_within (h : l.inDomains = true) {text : Bytes} (hcomment : 35 ∉ text) (r : Remark) :
    l.line (text ++ r.text) = l.insertItems (text ++ r.blank) := by
  rw [BlocklistLoader.line_inside h, stripComment_append hcomment, stripComment_remark]

theorem noComment_closing : 35 ∉ a.last.text ++ [93] := by
  simpa using a.last.noComment

/-- The rows between the first line and the last one. -/
theorem foldl_rows (rows : List (ItemRow × Remark)) (out : Finset Bytes) :
    (rows.map fun r => r.1.text ++ r.2.text).foldl BlocklistLoader.line ⟨true, out⟩ =
      ⟨true, out ∪ ((rows.flatMap fun r => r.1.strings).map canonicalName).toFinset⟩ := by
  induction rows generalizing out with
  | nil => simp
  | cons r rows ih =>
    rw [List.map_cons, List.foldl_cons, line_within rfl r.1.noComment,
      BlocklistLoader.insertItems_row _ _ r.2.isBlank, ih]
    simp [Finset.union_assoc]

theorem line_closing (out : Finset Bytes) :
    BlocklistLoader.line ⟨true, out⟩ a.closing =
      ⟨false, out ∪ (a.last.strings.map canonicalName).toFinset⟩ := by
  rw [closing, line_within rfl a.noComment_closing,
    BlocklistLoader.insertItems_last _ _ a.remark.isBlank]

/-- The whole array: all its items are added, and the array is closed again. -/
theorem foldl_lines (out : Finset Bytes) :
    a.lines.foldl BlocklistLoader.line ⟨false, out⟩ =
      ⟨false, out ∪ (a.items.map canonicalName).toFinset⟩ := by
  rw [lines, items]
  split
  · next hrows =>
    rw [List.foldl_cons, List.foldl_nil, closing, line_opening _ rfl a.noComment_closing,
      BlocklistLoader.insertItems_last _ _ a.remark.isBlank, hrows]
    rfl
  · next row remark rows hrows =>
    have hfirst := a.line_opening (l := ⟨false, out⟩) rfl row.noComment remark
    rw [BlocklistLoader.insertItems_row _ _ remark.isBlank] at hfirst
    rw [List.cons_append, List.foldl_cons, hfirst, List.foldl_append, foldl_rows, List.foldl_cons,
      List.foldl_nil, line_closing, hrows]
    simp [Finset.union_assoc]

theorem newline_notMem_lines : ∀ line ∈ a.lines, newline ∉ line := by
  have hclosing : newline ∉ a.closing := by
    have hbracket : newline ≠ 93 := by decide
    simp [closing, a.last.oneLine, a.remark.notMem, hbracket]
  intro line hline
  rw [lines] at hline
  split at hline
  · obtain rfl := List.mem_singleton.mp hline
    rw [List.mem_append, not_or]
    exact ⟨a.newline_notMem_opening, hclosing⟩
  · simp only [List.cons_append, List.mem_cons, List.mem_append, List.mem_map, List.not_mem_nil,
      or_false] at hline
    rcases hline with rfl | ⟨r, -, rfl⟩ | rfl
    · simp [a.newline_notMem_opening, ItemRow.oneLine, Remark.notMem]
    · simp [ItemRow.oneLine, Remark.notMem]
    · exact hclosing

end DomainsArray

/-! ## Files -/

theorem foldl_other {l : BlocklistLoader} (h : l.inDomains = false) (lines : List OtherLine) :
    (lines.map OtherLine.text).foldl BlocklistLoader.line l = l := by
  induction lines with
  | nil => rfl
  | cons line lines ih =>
    have hline : l.line line.text = l := by
      rw [BlocklistLoader.line_outside h]
      cases hkey : keyValue (stripComment line.text) with
      | none => rfl
      | some kv => exact if_pos (line.other kv.1 kv.2 hkey)
    rw [List.map_cons, List.foldl_cons, hline, ih]

theorem getLinesLoop_last {line : Bytes} (h : newline ∉ line) (cur : Bytes) :
    getLinesLoop cur line = if (cur ++ line).isEmpty then [] else [cur ++ line] := by
  induction line generalizing cur with
  | nil => simp [getLinesLoop]
  | cons b line ih =>
    rw [List.mem_cons, not_or] at h
    rw [getLinesLoop, if_neg (Ne.symm h.1), ih h.2]
    simp

/-- A file of one line, without a line break. -/
theorem getLines_line {line : Bytes} (h : newline ∉ line) :
    getLines line = if line.isEmpty then [] else [line] := getLinesLoop_last h []

theorem getLines_append_last {lines : List Bytes} (h : ∀ line ∈ lines, newline ∉ line)
    {line : Bytes} (hline : newline ∉ line) :
    getLines (joinLines lines ++ line) = lines ++ if line.isEmpty then [] else [line] := by
  rw [getLines, joinLines]
  induction lines with
  | nil => exact getLines_line hline
  | cons first lines ih =>
    rw [List.flatMap_cons, List.append_assoc, List.append_assoc, List.singleton_append,
      getLinesLoop_line [] (h first List.mem_cons_self), List.nil_append,
      ih fun l hl => h l (List.mem_cons_of_mem _ hl), List.cons_append]

/-- Where empty lines do nothing, the line break behind the last line makes no difference. -/
theorem foldl_getLines_fileText {σ : Type} {step : σ → Bytes → σ} (hempty : ∀ s, step s [] = s)
    {lines : List Bytes} (h : ∀ line ∈ lines, newline ∉ line) (ended : Bool) (s : σ) :
    (getLines (fileText lines ended)).foldl step s = lines.foldl step s := by
  cases ended with
  | true => rw [fileText, if_pos rfl, getLines_joinLines h]
  | false =>
    rcases List.eq_nil_or_concat lines with rfl | ⟨front, last, rfl⟩
    · rfl
    · rw [List.concat_eq_append] at h ⊢
      have htext : fileText (front ++ [last]) false = joinLines front ++ last := by
        rw [fileText, if_neg Bool.false_ne_true, joinLines, List.flatMap_append,
          List.flatMap_singleton, ← List.append_assoc, List.dropLast_concat]
        rfl
      rw [htext, getLines_append_last (fun line hline => h line (List.mem_append_left _ hline))
        (h last (by simp)), List.foldl_append, List.foldl_append]
      cases last with
      | nil => exact (hempty _).symm
      | cons b last => rfl

/-- However the array is laid out, exactly the names of its items are added, in the form in which
they are compared. -/
theorem loadBlocklist_layout (out : Finset Bytes) (path : Bytes) (above below : List OtherLine)
    (a : DomainsArray) (ended : Bool) :
    loadBlocklistInto out path (some (fileText
        (above.map OtherLine.text ++ a.lines ++ below.map OtherLine.text) ended)) =
      .ok (out ∪ (a.items.map canonicalName).toFinset) := by
  have hlines : ∀ line ∈ above.map OtherLine.text ++ a.lines ++ below.map OtherLine.text,
      newline ∉ line := by
    simp only [List.mem_append, List.mem_map]
    rintro line ((⟨x, -, rfl⟩ | hline) | ⟨x, -, rfl⟩)
    · exact x.oneLine
    · exact a.newline_notMem_lines line hline
    · exact x.oneLine
  have hload : ∀ content, loadBlocklistInto out path (some content) =
      .ok ((getLines content).foldl BlocklistLoader.line ⟨false, out⟩).out := fun _ => rfl
  have habove := foldl_other (l := ⟨false, out⟩) rfl above
  have hbelow := foldl_other (l := ⟨false, out ∪ (a.items.map canonicalName).toFinset⟩) rfl below
  rw [hload, foldl_getLines_fileText BlocklistLoader.line_nil hlines, List.foldl_append,
    List.foldl_append, habove, a.foldl_lines, hbelow]

def twoSpaces : Separator := ⟨[32, 32], by decide +kernel, by decide⟩

def noSeparator : Separator := ⟨[], fun _ h => absurd h List.not_mem_nil, List.not_mem_nil⟩

def oneComma : Separator := ⟨[44], by decide +kernel, by decide⟩

def adsItem : BlocklistItem :=
  ⟨ascii "ads.example.com", by decide, by decide, by decide, by decide⟩

def trackingItem : BlocklistItem :=
  ⟨ascii "Tracking.example.net.", by decide, by decide, by decide, by decide⟩

/-- Two items over four lines, with a bracket in a remark. -/
def twoDomains : DomainsArray where
  indent := .empty
  beforeEquals := ⟨[32], by decide, by decide⟩
  afterEquals := ⟨[32], by decide, by decide⟩
  rows :=
    [(⟨[], noSeparator⟩, ⟨[32], ascii "# up to ]", by decide, .inr rfl, by decide⟩),
      (⟨[(twoSpaces, adsItem)], oneComma⟩, .empty),
      (⟨[(twoSpaces, trackingItem)], noSeparator⟩, .empty)]
  last := ⟨[], noSeparator⟩
  remark := .empty

/-- A line with another key. -/
def versionLine : OtherLine where
  text := ascii "version = 1"
  oneLine := by decide
  other key value h := by
    have hkey : keyValue (stripComment (ascii "version = 1")) =
        some (ascii "version", ascii "1") := by decide +kernel
    obtain ⟨rfl, -⟩ := Prod.mk.inj (Option.some.inj (hkey.symm.trans h))
    decide

theorem loadBlocklist_layout_two :
    loadBlocklistInto ∅ [] (some (ascii "version = 1\ndomains = [ # up to ]\n" ++
        ascii "  \"ads.example.com\",\n  \"Tracking.example.net.\"\n]")) =
      .ok {ascii "ads.example.com", ascii "tracking.example.net"} := by
  have hload := loadBlocklist_layout ∅ [] [versionLine] [] twoDomains false
  have htext : fileText ([versionLine].map OtherLine.text ++ twoDomains.lines ++ []) false =
      ascii "version = 1\ndomains = [ # up to ]\n" ++
        ascii "  \"ads.example.com\",\n  \"Tracking.example.net.\"\n]" := by decide +kernel
  have hnames : ∅ ∪ (twoDomains.items.map canonicalName).toFinset =
      {ascii "ads.example.com", ascii "tracking.example.net"} := by decide +kernel
  rw [List.map_nil, htext, hnames] at hload
  exact hload

end Gravastar
