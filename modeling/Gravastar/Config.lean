import Gravastar.LocalRecords
import Mathlib.Data.Finset.Insert

/-!
# Configuration files (`config.cpp`)

A file is the bytes read from it, `none` where it cannot be opened. Three of the
loaders are here: the blocklist that the updater merges into what it downloads,
the local records and the upstream servers. The helpers for values, which
`upstream_blocklist.cpp` has once more with the same bodies, come first.
-/

namespace Gravastar

/-! ## Lines -/

/-- What `std::getline` returns call after call. -/
def getLinesLoop (cur : Bytes) : Bytes → List Bytes
  | [] => if cur.isEmpty then [] else [cur]
  | c :: s => if c = newline then cur :: getLinesLoop [] s else getLinesLoop (cur ++ [c]) s

def getLines (content : Bytes) : List Bytes := getLinesLoop [] content

/-- The text of some lines, each with its line break. -/
def joinLines (lines : List Bytes) : Bytes := lines.flatMap (· ++ [newline])

theorem getLinesLoop_line (cur : Bytes) {line : Bytes} (h : newline ∉ line) (s : Bytes) :
    getLinesLoop cur (line ++ newline :: s) = (cur ++ line) :: getLinesLoop [] s := by
  induction line generalizing cur with
  | nil => simp [getLinesLoop]
  | cons b line ih =>
    rw [List.mem_cons, not_or] at h
    rw [List.cons_append, getLinesLoop, if_neg (Ne.symm h.1), ih _ h.2]
    simp

theorem getLines_joinLines {lines : List Bytes} (h : ∀ line ∈ lines, newline ∉ line) :
    getLines (joinLines lines) = lines := by
  rw [getLines, joinLines]
  induction lines with
  | nil => rfl
  | cons line lines ih =>
    rw [List.flatMap_cons, List.append_assoc, List.singleton_append,
      getLinesLoop_line [] (h line List.mem_cons_self), List.nil_append,
      ih fun l hl => h l (List.mem_cons_of_mem _ hl)]

/-- `ReadLines`. -/
def readLines (path : Bytes) (file : Option Bytes) : Except Bytes (List Bytes) :=
  match file with
  | none => .error (ascii "unable to open file: " ++ path)
  | some content => .ok (getLines content)

/-! ## Values -/

/-- `StripComment`. -/
def stripComment (line : Bytes) : Bytes := line.takeWhile (· ≠ 35)

/-- `key = value`, cut at the first `=`. -/
def keyValue (line : Bytes) : Option (Bytes × Bytes) :=
  if 61 ∈ line then
    some (trim (line.takeWhile (· ≠ 61)), trim (line.dropWhile (· ≠ 61)).tail)
  else none

def quote : UInt8 := 34

def parseQuotedString (raw : Bytes) : Option Bytes :=
  let s := trim raw
  if s.length < 2 ∨ s.head? ≠ some quote ∨ s.getLast? ≠ some quote then none
  else some ((s.drop 1).take (s.length - 2))

/-- `strtoul` in base ten on a text without white space in front: the value, cut off at the
largest one, and the rest of the text. -/
def strtoul (s : Bytes) : Option (UInt64 × Bytes) :=
  let unsigned := if s.head? = some 43 ∨ s.head? = some 45 then s.tail else s
  let digits := unsigned.takeWhile isDigit
  if digits.isEmpty then none
  else
    let rest := unsigned.dropWhile isDigit
    if digitsValue digits ≥ 2 ^ 64 then some (UInt64.ofNat (2 ^ 64 - 1), rest)
    else if s.head? = some 45 then some (-UInt64.ofNat (digitsValue digits), rest)
    else some (UInt64.ofNat (digitsValue digits), rest)

/-- A zero byte ends the text for `strtoul`, and passes for its end. -/
def parseInteger (raw : Bytes) : Option UInt64 :=
  let s := trim raw
  if s.isEmpty then none
  else
    match strtoul s with
    | none => none
    | some (value, rest) => if rest = [] ∨ rest.head? = some 0 then some value else none

def parseStringArray (raw : Bytes) : Option (List Bytes) :=
  let s := trim raw
  if s.length < 2 ∨ s.head? ≠ some 91 ∨ s.getLast? ≠ some 93 then none
  else
    let inner := trim ((s.drop 1).take (s.length - 2))
    if inner.isEmpty then some [] else (split inner 44).mapM parseQuotedString

/-- The loop that appends lines to the value of an array until there is a closing bracket in it:
the value and the lines behind it. -/
def joinArray (value : Bytes) : List Bytes → Bytes × List Bytes
  | [] => (value, [])
  | line :: rest =>
    if value.contains 93 then (value, line :: rest)
    else joinArray (value ++ trim (stripComment line)) rest

theorem length_joinArray_le (value : Bytes) (rest : List Bytes) :
    (joinArray value rest).2.length ≤ rest.length := by
  induction rest generalizing value with
  | nil => exact Nat.le_refl _
  | cons line rest ih =>
    rw [joinArray]
    split_ifs
    · exact Nat.le_refl _
    · exact (ih _).trans (Nat.le_succ _)

/-- The loop of `ExtractQuotedStrings`. -/
def extractQuotedLoop (inQuote : Bool) (current : Bytes) : Bytes → List Bytes
  | [] => []
  | c :: raw =>
    if c = quote then
      if inQuote then current :: extractQuotedLoop false [] raw
      else extractQuotedLoop true current raw
    else extractQuotedLoop inQuote (if inQuote then current ++ [c] else current) raw

def extractQuotedStrings (raw : Bytes) : List Bytes := extractQuotedLoop false [] raw

/-! ## `LoadBlocklist` -/

/-- `in_domains` and `*out`. -/
structure BlocklistLoader where
  inDomains : Bool
  out : Finset Bytes
  deriving DecidableEq

namespace BlocklistLoader

/-- Insert the quoted items of a text; a closing bracket ends the array. -/
def insertItems (l : BlocklistLoader) (text : Bytes) : BlocklistLoader :=
  ⟨!text.contains 93,
    (extractQuotedStrings text).foldl (fun out item => insert (canonicalName item) out) l.out⟩

def line (l : BlocklistLoader) (line : Bytes) : BlocklistLoader :=
  let trimmed := trim (stripComment line)
  if trimmed.isEmpty then l
  else if !l.inDomains then
    match keyValue trimmed with
    | none => l
    | some (key, value) => if key ≠ ascii "domains" then l else l.insertItems value
  else l.insertItems trimmed

end BlocklistLoader

/-- `LoadBlocklist` into an empty set. -/
def loadBlocklist (path : Bytes) (file : Option Bytes) : Except Bytes (Finset Bytes) := do
  let lines ← readLines path file
  pure (lines.foldl BlocklistLoader.line ⟨false, ∅⟩).out

/-- `LoadBlocklist` into a set that has items already. -/
def loadBlocklistInto (out : Finset Bytes) (path : Bytes) (file : Option Bytes) :
    Except Bytes (Finset Bytes) := do
  let lines ← readLines path file
  pure (lines.foldl BlocklistLoader.line ⟨false, out⟩).out

theorem loadBlocklist_eq (path : Bytes) (file : Option Bytes) :
    loadBlocklist path file = loadBlocklistInto ∅ path file := rfl

/-! ## `LoadLocalRecords` -/

/-- `[[name]]`. -/
def isTableHeader (raw : Bytes) : Bool :=
  (ascii "[[").isPrefixOf raw && raw.length > 4 && (ascii "]]").isSuffixOf raw

/-- `current`, `in_record` and `*out`. -/
structure RecordLoader where
  current : LocalRecord
  inRecord : Bool
  out : List LocalRecord
  deriving DecidableEq, Repr

namespace RecordLoader

/-- The record read so far goes to the output, if it has all its fields. -/
def finish (l : RecordLoader) : Except Bytes RecordLoader :=
  if l.inRecord then
    if l.current.name.isEmpty ∨ l.current.type.isEmpty ∨ l.current.value.isEmpty then
      .error (ascii "incomplete local record")
    else .ok { l with current := ⟨[], [], []⟩, out := l.out ++ [l.current] }
  else .ok l

def setField (rec : LocalRecord) (key v : Bytes) : LocalRecord :=
  if key = ascii "name" then { rec with name := canonicalName v }
  else if key = ascii "type" then { rec with type := toLower v }
  else if key = ascii "value" then { rec with value := v }
  else rec

def line (l : RecordLoader) (number : Nat) (line : Bytes) : Except Bytes RecordLoader :=
  let raw := trim (stripComment line)
  if raw.isEmpty then .ok l
  else if isTableHeader raw then do
    let l ← l.finish
    let currentTable := trim ((raw.drop 2).take (raw.length - 4))
    pure { l with inRecord := currentTable = ascii "record" }
  else
    match keyValue raw with
    | none => .ok l
    | some (key, value) =>
      if l.inRecord then
        match parseQuotedString value with
        | none => .error (ascii "invalid local record value at line " ++ decimal number)
        | some v => .ok { l with current := setField l.current key v }
      else .ok l

/-- The lines from `number` on. -/
def lines (l : RecordLoader) (number : Nat) : List Bytes → Except Bytes RecordLoader
  | [] => .ok l
  | line :: rest => do
    let l ← l.line number line
    l.lines (number + 1) rest

end RecordLoader

def loadLocalRecords (path : Bytes) (file : Option Bytes) : Except Bytes (List LocalRecord) := do
  let lines ← readLines path file
  let l ← RecordLoader.lines ⟨⟨[], [], []⟩, false, []⟩ 1 lines
  let l ← l.finish
  pure l.out

/-- `LoadLocalRecords` behind records that are there already. -/
def loadLocalRecordsInto (out : List LocalRecord) (path : Bytes) (file : Option Bytes) :
    Except Bytes (List LocalRecord) := do
  let lines ← readLines path file
  let l ← RecordLoader.lines ⟨⟨[], [], []⟩, false, out⟩ 1 lines
  let l ← l.finish
  pure l.out

theorem loadLocalRecords_eq (path : Bytes) (file : Option Bytes) :
    loadLocalRecords path file = loadLocalRecordsInto [] path file := rfl

/-! ## `LoadUpstreams` -/

/-- `*udp_out` and `*dot_out`. -/
structure UpstreamServers where
  udp : List Bytes
  dot : List Bytes
  deriving DecidableEq, Repr

namespace UpstreamServers

def lines (out : UpstreamServers) : List Bytes → Except Bytes UpstreamServers
  | [] => .ok out
  | line :: rest =>
    let line := trim (stripComment line)
    if line.isEmpty then lines out rest
    else
      match keyValue line with
      | none => lines out rest
      | some (key, value) =>
        if key = ascii "udp_servers" then
          match parseStringArray (joinArray value rest).1 with
          | none => .error (ascii "invalid udp_servers")
          | some items => lines { out with udp := out.udp ++ items } (joinArray value rest).2
        else if key = ascii "dot_servers" then
          match parseStringArray (joinArray value rest).1 with
          | none => .error (ascii "invalid dot_servers")
          | some items => lines { out with dot := out.dot ++ items } (joinArray value rest).2
        else lines out rest
termination_by rest => rest.length
decreasing_by
  all_goals
    first
    | exact Nat.lt_succ_self _
    | exact Nat.lt_succ_of_le (length_joinArray_le _ _)

end UpstreamServers

/-- `LoadUpstreams` into empty lists. -/
def loadUpstreams (path : Bytes) (file : Option Bytes) : Except Bytes UpstreamServers := do
  let lines ← readLines path file
  UpstreamServers.lines ⟨[], []⟩ lines

/-! ## What is accepted -/

/-- No field is empty; the name and the type are in the form that they are compared in. -/
structure LocalRecord.Accepted (rec : LocalRecord) : Prop where
  name_ne : rec.name ≠ []
  type_ne : rec.type ≠ []
  value_ne : rec.value ≠ []
  name_lower : toLower rec.name = rec.name
  type_lower : toLower rec.type = rec.type

theorem lowerByte_lowerByte (b : UInt8) : lowerByte (lowerByte b) = lowerByte b := by
  revert b
  apply forall_byte
  decide +kernel

@[simp] theorem toLower_toLower (s : Bytes) : toLower (toLower s) = toLower s := by
  simp [toLower, lowerByte_lowerByte]

@[simp] theorem toLower_canonicalName (s : Bytes) :
    toLower (canonicalName s) = canonicalName s := by
  rw [canonicalName, dropTrailingDot]
  split_ifs
  · rw [toLower, List.map_dropLast]
    exact congrArg List.dropLast (toLower_toLower s)
  · exact toLower_toLower s

theorem exists_of_bind_ok {ε α β : Type} {x : Except ε α} {f : α → Except ε β} {b : β}
    (h : x >>= f = .ok b) : ∃ a, x = .ok a ∧ f a = .ok b := by
  cases x with
  | error e => cases h
  | ok a => exact ⟨a, rfl, h⟩

namespace RecordLoader

/-- What has been read so far is in the form of an accepted record, apart from missing fields. -/
structure Sound (l : RecordLoader) : Prop where
  out : ∀ rec ∈ l.out, rec.Accepted
  name_lower : toLower l.current.name = l.current.name
  type_lower : toLower l.current.type = l.current.type

variable {l l' : RecordLoader}

theorem Sound.finish (h : l.Sound) (hl : l.finish = .ok l') : l'.Sound := by
  rw [RecordLoader.finish] at hl
  split_ifs at hl with hin hmissing
  · obtain rfl := Except.ok.inj hl
    simp only [List.isEmpty_iff, not_or] at hmissing
    refine ⟨fun rec hrec => ?_, rfl, rfl⟩
    rcases List.mem_append.mp hrec with hold | hnew
    · exact h.out rec hold
    · obtain rfl := List.mem_singleton.mp hnew
      exact ⟨hmissing.1, hmissing.2.1, hmissing.2.2, h.name_lower, h.type_lower⟩
  · obtain rfl := Except.ok.inj hl
    exact h

theorem Sound.setField (h : l.Sound) (key v : Bytes) :
    Sound { l with current := setField l.current key v } := by
  refine ⟨h.out, ?_, ?_⟩
  · rw [RecordLoader.setField]
    split_ifs
    · exact toLower_canonicalName v
    · exact h.name_lower
    · exact h.name_lower
    · exact h.name_lower
  · rw [RecordLoader.setField]
    split_ifs
    · exact h.type_lower
    · exact toLower_toLower v
    · exact h.type_lower
    · exact h.type_lower

theorem Sound.line (h : l.Sound) {number : Nat} {line : Bytes}
    (hl : l.line number line = .ok l') : l'.Sound := by
  rw [RecordLoader.line] at hl
  dsimp only at hl
  split_ifs at hl with hempty hheader hin
  · exact Except.ok.inj hl ▸ h
  · obtain ⟨l₁, hfinish, hrest⟩ := exists_of_bind_ok hl
    obtain rfl := Except.ok.inj hrest
    have hsound := h.finish hfinish
    exact ⟨hsound.out, hsound.name_lower, hsound.type_lower⟩
  · cases hkey : keyValue (trim (stripComment line)) with
    | none =>
      rw [hkey] at hl
      exact Except.ok.inj hl ▸ h
    | some r =>
      rw [hkey] at hl
      dsimp only at hl
      cases hv : parseQuotedString r.2 with
      | none => simp [hv] at hl
      | some v =>
        rw [hv] at hl
        exact Except.ok.inj hl ▸ h.setField r.1 v
  · cases hkey : keyValue (trim (stripComment line)) with
    | none | some =>
      rw [hkey] at hl
      exact Except.ok.inj hl ▸ h

theorem Sound.lines (h : l.Sound) {number : Nat} {rest : List Bytes}
    (hl : l.lines number rest = .ok l') : l'.Sound := by
  induction rest generalizing l number with
  | nil => exact Except.ok.inj hl ▸ h
  | cons line rest ih =>
    obtain ⟨l₁, hline, hrest⟩ := exists_of_bind_ok hl
    exact ih (h.line hline) hrest

end RecordLoader

theorem loadLocalRecords_accepted {path : Bytes} {file : Option Bytes} {records : List LocalRecord}
    (h : loadLocalRecords path file = .ok records) : ∀ rec ∈ records, rec.Accepted := by
  obtain ⟨lines, -, h⟩ := exists_of_bind_ok h
  obtain ⟨l, hlines, h⟩ := exists_of_bind_ok h
  obtain ⟨l', hfinish, h⟩ := exists_of_bind_ok h
  obtain rfl := Except.ok.inj h
  have hstart : RecordLoader.Sound ⟨⟨[], [], []⟩, false, []⟩ := ⟨by simp, rfl, rfl⟩
  exact ((hstart.lines hlines).finish hfinish).out

end Gravastar
