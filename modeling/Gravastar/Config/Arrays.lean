import Gravastar.Config.Values

/-!
# Arrays of strings

The ways in which an array of strings is written over one or several lines, and
what the loaders make of each. They take the lines up to the first closing
bracket as the array, wherever that bracket stands, and refuse a comma behind
the last item.
-/

namespace Gravastar

/-! ## Layouts -/

/-- White space that stays on its line. -/
structure Indent where
  text : Bytes
  isBlank : Blank text
  oneLine : newline ∉ text

def Indent.empty : Indent := ⟨[], blank_nil, by simp⟩

/-- An item and the white space in front of it. -/
structure ArrayItem where
  item : Bytes
  indent : Indent
  plain : quote ∉ item ∧ 35 ∉ item ∧ 44 ∉ item ∧ newline ∉ item

/-- An item on a line of its own, with what stands above and behind it. -/
structure ItemLine extends ArrayItem where
  above : List Remark
  remark : Remark

inductive StringArray
  | oneLine (items : List ArrayItem) (closing : Indent) (remark : Remark)
  | perLine (items : List ItemLine) (trailingComma : Bool) (opening : Remark)
      (below : List Remark) (closing : Indent) (remark : Remark)

namespace ArrayItem

def text (x : ArrayItem) : Bytes := x.indent.text ++ quoted x.item

/-- Items with commas between them. -/
def joined (items : List ArrayItem) : Bytes := [44].intercalate (items.map text)

end ArrayItem

namespace ItemLine

def line (x : ItemLine) (comma : Bool) : Bytes :=
  x.indent.text ++ (quoted x.item ++ if comma then [44] else []) ++ x.remark.text

/-- Item lines, each item but the last one with a comma. -/
def lines (trailingComma : Bool) : List ItemLine → List Bytes
  | [] => []
  | x :: more =>
    x.above.map Remark.text ++ x.line (trailingComma || !more.isEmpty) :: lines trailingComma more

end ItemLine

namespace StringArray

def items : StringArray → List Bytes
  | oneLine items .. => items.map (·.item)
  | perLine items .. => items.map (·.item)

/-- What stands behind the equals sign. -/
def value : StringArray → Bytes
  | oneLine items closing _ => 91 :: (ArrayItem.joined items ++ closing.text) ++ [93]
  | perLine .. => [91]

/-- What stands behind the value on the first line. -/
def first : StringArray → Remark
  | oneLine _ _ remark => remark
  | perLine _ _ opening .. => opening

/-- The lines below the first one. -/
def more : StringArray → List Bytes
  | oneLine .. => []
  | perLine items trailingComma _ below closing remark =>
    ItemLine.lines trailingComma items ++ below.map Remark.text ++
      [closing.text ++ [93] ++ remark.text]

def lines (key : Bytes) (a : StringArray) : List Bytes :=
  (keyLine key a.value ++ a.first.text) :: a.more

/-- On one line any items do; on several lines there is no comma behind the last item, and no
closing bracket in any item. -/
def ReadsBack : StringArray → Prop
  | oneLine .. => True
  | perLine items trailingComma .. => trailingComma = false ∧ ∀ x ∈ items, 93 ∉ x.item

end StringArray

/-! ## Parsing a joined array -/

theorem tight_singleton {b : UInt8} (h : isSpace b = false) : Tight [b] :=
  .of_ends (by simp) (by simpa using h) (by simpa using h)

theorem tight_bracketed (inner : Bytes) : Tight (91 :: inner ++ [93]) :=
  (tight_singleton (b := 91) (by decide)).append inner (tight_singleton (b := 93) (by decide))

theorem parseStringArray_bracketed (inner : Bytes) :
    parseStringArray (91 :: inner ++ [93]) =
      if (trim inner).isEmpty then some [] else (split (trim inner) 44).mapM parseQuotedString := by
  have hlast : (91 :: inner ++ [93]).getLast? = some 93 := List.getLast?_concat
  have hends : ¬ ((91 :: inner ++ [93]).length < 2 ∨ (91 :: inner ++ [93]).head? ≠ some 91 ∨
      (91 :: inner ++ [93]).getLast? ≠ some 93) := by
    rw [hlast]
    simp
  rw [parseStringArray, (tight_bracketed inner).trim_eq, if_neg hends]
  simp

/-- A text that does not end in a closing bracket is no array. -/
theorem parseStringArray_unclosed {s : Bytes} (hs : Tight s) (hlast : s.getLast? ≠ some 93) :
    parseStringArray s = none := by
  rw [parseStringArray, hs.trim_eq, if_pos (.inr (.inr hlast))]

namespace ArrayItem

variable (x : ArrayItem)

theorem comma_notMem_text : 44 ∉ x.text := by
  rw [text, List.mem_append, not_or]
  exact ⟨x.indent.isBlank.notMem (by decide),
    notMem_quoted (by decide) x.plain.2.2.1⟩

theorem parseQuotedString_text : parseQuotedString x.text = some x.item := by
  rw [← parseQuotedString_quoted x.item, parseQuotedString, text, x.indent.isBlank.trim_append]
  rfl

theorem split_joined {items : List ArrayItem} (hne : items ≠ []) :
    split (joined items) 44 = items.map text := by
  rw [split_eq_splitOn, joined]
  refine List.splitOn_intercalate 44 (fun s hs => ?_) (by simpa using hne)
  obtain ⟨x, -, rfl⟩ := List.mem_map.mp hs
  exact x.comma_notMem_text

theorem mapM_parse (items : List ArrayItem) :
    (items.map text).mapM parseQuotedString = some (items.map (·.item)) := by
  induction items with
  | nil => rfl
  | cons x items ih => simp [parseQuotedString_text, ih]

/-- The first item without its indentation. -/
def bare : ArrayItem := { x with indent := Indent.empty }

theorem joined_cons_cons (y : ArrayItem) (items : List ArrayItem) :
    joined (x :: y :: items) = x.text ++ 44 :: joined (y :: items) := by
  simp [joined]

theorem joined_bare (items : List ArrayItem) :
    joined (x :: items) = x.indent.text ++ joined (x.bare :: items) := by
  cases items with
  | nil => simp [joined, text, bare, Indent.empty]
  | cons y items => simp [joined_cons_cons, text, bare, Indent.empty]

theorem notMem_text {b : UInt8} (hb : b = 35 ∨ b = newline) : b ∉ x.text := by
  rw [text, List.mem_append, not_or]
  rcases hb with rfl | rfl
  · exact ⟨x.indent.isBlank.notMem (by decide),
      notMem_quoted (by decide) x.plain.2.1⟩
  · exact ⟨x.indent.oneLine, notMem_quoted (by decide) x.plain.2.2.2⟩

theorem notMem_joined {items : List ArrayItem} {b : UInt8} (hb : b = 35 ∨ b = newline) :
    b ∉ joined items := by
  intro hmem
  rcases mem_intercalate hmem with rfl | ⟨p, hp, hbp⟩
  · exact absurd hb (by decide)
  · obtain ⟨x, -, rfl⟩ := List.mem_map.mp hp
    exact x.notMem_text hb hbp

/-- Up to the indentation of the first item, joined items start and end with a quote. -/
theorem tight_joined_bare (items : List ArrayItem) : Tight (joined (x.bare :: items)) := by
  have hbare : x.bare.text = quoted x.item := by simp [text, bare, Indent.empty]
  induction items generalizing x with
  | nil => simpa [joined, hbare] using tight_quoted x.item
  | cons y items ih =>
    have hy : joined (x.bare :: y :: items) =
        quoted x.item ++ 44 :: y.indent.text ++ joined (y.bare :: items) := by
      rw [joined_cons_cons, hbare, joined_bare]
      simp
    exact hy ▸ (tight_quoted x.item).append _ (ih y (by simp [text, bare, Indent.empty]))

end ArrayItem

theorem parseStringArray_joined {items : List ArrayItem} (hne : items ≠ []) {w : Bytes}
    (hw : Blank w) :
    parseStringArray (91 :: (ArrayItem.joined items ++ w) ++ [93]) = some (items.map (·.item)) := by
  cases items with
  | nil => exact absurd rfl hne
  | cons x items =>
    have htight := x.tight_joined_bare items
    rw [parseStringArray_bracketed, trim_append_blank _ hw, x.joined_bare,
      x.indent.isBlank.trim_append, htight.trim_eq, htight.isEmpty_eq,
      ArrayItem.split_joined (by simp)]
    exact ArrayItem.mapM_parse (x.bare :: items)

/-- Behind a last comma the parser looks for another item. -/
theorem parseStringArray_trailing {items : List ArrayItem} (hne : items ≠ []) :
    parseStringArray (91 :: (ArrayItem.joined items ++ [44]) ++ [93]) = none := by
  cases items with
  | nil => exact absurd rfl hne
  | cons x items =>
    have htight : Tight (ArrayItem.joined (x.bare :: items) ++ [44]) := by
      simpa using (x.tight_joined_bare items).append [] (tight_singleton (b := 44) (by decide))
    have hlast : split [] 44 = [[]] := rfl
    rw [parseStringArray_bracketed, x.joined_bare, List.append_assoc,
      x.indent.isBlank.trim_append, htight.trim_eq, htight.isEmpty_eq, split_append_cons,
      ArrayItem.split_joined (by simp), hlast, List.mapM_append, ArrayItem.mapM_parse]
    rfl

/-! ## Joining the lines of an array -/

section

variable {value : Bytes}

theorem joinArray_closed (h : 93 ∈ value) (rest : List Bytes) :
    joinArray value rest = (value, rest) := by
  cases rest with
  | nil => rfl
  | cons line rest => rw [joinArray, if_pos (by simpa using h)]

theorem joinArray_line (h : 93 ∉ value) (line : Bytes) (rest : List Bytes) :
    joinArray value (line :: rest) = joinArray (value ++ trim (stripComment line)) rest := by
  rw [joinArray, if_neg (by simpa using h)]

theorem joinArray_remarks (h : 93 ∉ value) (above : List Remark) (rest : List Bytes) :
    joinArray value (above.map Remark.text ++ rest) = joinArray value rest := by
  induction above with
  | nil => rfl
  | cons r above ih =>
    rw [List.map_cons, List.cons_append, joinArray_line h, trim_stripComment_remark,
      List.append_nil]
    exact ih

namespace ItemLine

/-- What an item line adds to the array. -/
def content (x : ItemLine) (comma : Bool) : Bytes := quoted x.item ++ if comma then [44] else []

variable (x : ItemLine) (comma : Bool)

theorem tight_content : Tight (x.content comma) := by
  cases comma with
  | false => simpa [content] using tight_quoted x.item
  | true =>
    simpa [content] using (tight_quoted x.item).append [] (tight_singleton (b := 44) (by decide))

theorem notMem_content {b : UInt8} (hb : b = 35 ∨ b = newline) : b ∉ x.content comma := by
  have hbytes : b ≠ 44 ∧ b ≠ quote := by rcases hb with rfl | rfl <;> decide
  have hitem : b ∉ x.item := by
    rcases hb with rfl | rfl
    · exact x.plain.2.1
    · exact x.plain.2.2.2
  cases comma <;> simp [content, notMem_quoted hbytes.2 hitem, hbytes.1]

theorem trim_stripComment_line : trim (stripComment (x.line comma)) = x.content comma := by
  have hcomment : 35 ∉ x.content comma := x.notMem_content comma (.inl rfl)
  exact trim_stripComment_text x.indent.isBlank (x.tight_content comma) hcomment x.remark

theorem newline_notMem_line : newline ∉ x.line comma := by
  rw [line, List.mem_append, List.mem_append, not_or, not_or]
  exact ⟨⟨x.indent.oneLine, x.notMem_content comma (.inr rfl)⟩, x.remark.oneLine⟩

theorem newline_notMem_lines (trailingComma : Bool) (items : List ItemLine) :
    ∀ line ∈ lines trailingComma items, newline ∉ line := by
  induction items with
  | nil => simp [lines]
  | cons x more ih =>
    intro text htext
    rw [lines, List.mem_append, List.mem_cons, List.mem_map] at htext
    rcases htext with ⟨r, -, rfl⟩ | rfl | hrest
    · exact r.oneLine
    · exact x.newline_notMem_line _
    · exact ih text hrest

theorem bracket_mem_content : 93 ∈ x.content comma ↔ 93 ∈ x.item := by
  cases comma <;> simp [content, quoted, quote]

theorem getLast?_content : (x.content comma).getLast? = some (if comma then 44 else quote) := by
  cases comma <;> simp [content]

theorem joinArray_lines_cons (trailingComma : Bool) (more : List ItemLine) (h : 93 ∉ value)
    (rest : List Bytes) :
    joinArray value (lines trailingComma (x :: more) ++ rest) =
      joinArray (value ++ x.content (trailingComma || !more.isEmpty))
        (lines trailingComma more ++ rest) := by
  rw [lines, List.append_assoc, joinArray_remarks h, List.cons_append, joinArray_line h,
    trim_stripComment_line]

/-- Everything that item lines add to the array. -/
def contents (trailingComma : Bool) : List ItemLine → Bytes
  | [] => []
  | x :: more => x.content (trailingComma || !more.isEmpty) ++ contents trailingComma more

theorem bracket_notMem_contents (trailingComma : Bool) {items : List ItemLine}
    (hitems : ∀ x ∈ items, 93 ∉ x.item) : 93 ∉ contents trailingComma items := by
  induction items with
  | nil => simp [contents]
  | cons x more ih =>
    simp [contents, bracket_mem_content, hitems x List.mem_cons_self,
      ih fun y hy => hitems y (List.mem_cons_of_mem _ hy)]

theorem joinArray_lines (trailingComma : Bool) {items : List ItemLine} (h : 93 ∉ value)
    (hitems : ∀ x ∈ items, 93 ∉ x.item) (rest : List Bytes) :
    joinArray value (lines trailingComma items ++ rest) =
      joinArray (value ++ contents trailingComma items) rest := by
  induction items generalizing value with
  | nil => simp [lines, contents]
  | cons x more ih =>
    have hx : 93 ∉ value ++ x.content (trailingComma || !more.isEmpty) := by
      simp [h, bracket_mem_content, hitems x List.mem_cons_self]
    rw [x.joinArray_lines_cons trailingComma more h, contents,
      ih hx fun y hy => hitems y (List.mem_cons_of_mem _ hy), List.append_assoc]

/-- The first item with a closing bracket in it ends the array too early. -/
theorem parseStringArray_joinArray (trailingComma : Bool) {items : List ItemLine} (h : 93 ∉ value)
    (hvalue : Tight value) (hitems : ∃ x ∈ items, 93 ∈ x.item) (rest : List Bytes) :
    parseStringArray (joinArray value (lines trailingComma items ++ rest)).1 = none := by
  induction items generalizing value with
  | nil => simp at hitems
  | cons x more ih =>
    rw [x.joinArray_lines_cons trailingComma more h]
    have htight := x.tight_content (trailingComma || !more.isEmpty)
    have hnext : Tight (value ++ x.content (trailingComma || !more.isEmpty)) := by
      simpa using hvalue.append [] htight
    by_cases hx : 93 ∈ x.item
    · rw [joinArray_closed (by simp [bracket_mem_content, hx])]
      refine parseStringArray_unclosed hnext ?_
      rw [List.getLast?_append_of_ne_nil _ htight.ne_nil, getLast?_content]
      split_ifs <;> decide
    · obtain ⟨y, hy, hbracket⟩ := hitems
      have hrest : y ∈ more := (List.mem_cons.mp hy).resolve_left fun heq => hx (heq ▸ hbracket)
      exact ih (by simp [h, bracket_mem_content, hx]) hnext ⟨y, hrest, hbracket⟩

/-- Over all lines this is what the array has on one line without white space. -/
theorem contents_eq (trailingComma : Bool) {items : List ItemLine} (hne : items ≠ []) :
    contents trailingComma items =
      ArrayItem.joined (items.map (·.toArrayItem.bare)) ++ if trailingComma then [44] else [] := by
  induction items with
  | nil => exact absurd rfl hne
  | cons x more ih =>
    have hbare : x.toArrayItem.bare.text = quoted x.item := by
      simp [ArrayItem.text, ArrayItem.bare, Indent.empty]
    cases more with
    | nil => simp [contents, content, ArrayItem.joined, hbare]
    | cons y more =>
      rw [contents, ih (by simp)]
      simp [ArrayItem.joined, content, hbare]

end ItemLine

end

/-! ## Arrays in any layout -/

namespace StringArray

variable (a : StringArray)

theorem tight_value : Tight a.value := by
  cases a with
  | oneLine items closing remark => exact tight_bracketed _
  | perLine items trailingComma opening below closing remark =>
    exact tight_singleton (b := 91) (by decide)

theorem notMem_value {b : UInt8} (hb : b = 35 ∨ b = newline) : b ∉ a.value := by
  have hbracket : b ≠ 91 ∧ b ≠ 93 := by rcases hb with rfl | rfl <;> decide
  cases a with
  | oneLine items closing remark =>
    have hclosing : b ∉ closing.text := by
      rcases hb with rfl | rfl
      · exact closing.isBlank.notMem (by decide)
      · exact closing.oneLine
    simp [value, hbracket, hclosing, ArrayItem.notMem_joined hb]
  | perLine items trailingComma opening below closing remark => simp [value, hbracket]

theorem newline_notMem_lines {key : Bytes} (hkey : PlainKey key) :
    ∀ line ∈ a.lines key, newline ∉ line := by
  intro text htext
  rw [lines, List.mem_cons] at htext
  rcases htext with rfl | hmore
  · rw [List.mem_append, not_or]
    exact ⟨notMem_keyLine hkey (.inr rfl) (a.notMem_value (.inr rfl)), a.first.oneLine⟩
  · cases a with
    | oneLine items closing remark => simp [more] at hmore
    | perLine items trailingComma opening below closing remark =>
      simp only [more, List.mem_append, List.mem_map, List.mem_singleton] at hmore
      rcases hmore with (hitem | ⟨r, -, rfl⟩) | rfl
      · exact ItemLine.newline_notMem_lines _ _ text hitem
      · exact r.oneLine
      · have hbracket : newline ∉ [93] := by decide
        rw [List.mem_append, List.mem_append, not_or, not_or]
        exact ⟨⟨closing.oneLine, hbracket⟩, remark.oneLine⟩

theorem joinArray_perLine {items : List ItemLine} (hne : items ≠ [])
    (hitems : ∀ x ∈ items, 93 ∉ x.item) (trailingComma : Bool) (opening : Remark)
    (below : List Remark) (closing : Indent) (remark : Remark) (rest : List Bytes) :
    joinArray [91]
        ((perLine items trailingComma opening below closing remark).more ++ rest) =
      (91 :: (ArrayItem.joined (items.map (·.toArrayItem.bare)) ++
        if trailingComma then [44] else []) ++ [93], rest) := by
  have hopen : 93 ∉ [91] ++ ItemLine.contents trailingComma items := by
    simp [ItemLine.bracket_notMem_contents trailingComma hitems]
  have hclose : trim (stripComment (closing.text ++ [93] ++ remark.text)) = [93] :=
    trim_stripComment_text closing.isBlank (tight_singleton (by decide)) (by simp) remark
  rw [more, List.append_assoc, List.append_assoc,
    ItemLine.joinArray_lines trailingComma (by simp) hitems, joinArray_remarks hopen,
    List.singleton_append (l := rest), joinArray_line hopen, hclose, joinArray_closed (by simp),
    ItemLine.contents_eq trailingComma hne]
  simp

variable (hne : a.items ≠ []) (rest : List Bytes)
include hne

theorem joinArray_of_readsBack (h : a.ReadsBack) :
    ∃ v, joinArray a.value (a.more ++ rest) = (v, rest) ∧ parseStringArray v = some a.items := by
  cases a with
  | oneLine items closing remark =>
    have hitems : items ≠ [] := by simpa [StringArray.items] using hne
    exact ⟨_, joinArray_closed (by simp [value]) _,
      parseStringArray_joined hitems closing.isBlank⟩
  | perLine items trailingComma opening below closing remark =>
    have hitems : items ≠ [] := by simpa [StringArray.items] using hne
    obtain ⟨rfl, hbracket⟩ := h
    refine ⟨_, joinArray_perLine hitems hbracket false opening below closing remark rest, ?_⟩
    have hback : (items.map (·.toArrayItem.bare)).map (·.item) = items.map (·.item) := by
      rw [List.map_map]
      rfl
    rw [StringArray.items, ← hback]
    exact parseStringArray_joined (by simpa using hitems) blank_nil

theorem parse_of_not_readsBack (h : ¬ a.ReadsBack) :
    parseStringArray (joinArray a.value (a.more ++ rest)).1 = none := by
  cases a with
  | oneLine items closing remark => exact absurd trivial h
  | perLine items trailingComma opening below closing remark =>
    have hitems : items ≠ [] := by simpa [StringArray.items] using hne
    by_cases hbracket : ∃ x ∈ items, 93 ∈ x.item
    · rw [value, more, List.append_assoc, List.append_assoc]
      exact ItemLine.parseStringArray_joinArray trailingComma (by simp)
        (tight_singleton (by decide)) hbracket _
    · have hfree : ∀ x ∈ items, 93 ∉ x.item := by simpa using hbracket
      obtain rfl : trailingComma = true := by
        by_contra htrailing
        exact h ⟨by simpa using htrailing, hfree⟩
      rw [value, joinArray_perLine hitems hfree]
      exact parseStringArray_trailing (by simpa using hitems)

end StringArray

end Gravastar
