import Gravastar.Config.Values

/-!
# Tables of local records

A file is cut at its table headers. The loader carries a record and a flag from
line to line; what it returns is said here table by table: one record for each
`[[record]]`, made of the last assignments in that table and of nothing else.
-/

namespace Gravastar

/-! ## Tables -/

/-- The name in a line `[[name]]`. -/
def tableHeader (line : Bytes) : Option Bytes :=
  let raw := trim (stripComment line)
  if isTableHeader raw then some (trim ((raw.drop 2).take (raw.length - 4))) else none

/-- A table: its name, and the lines up to the next header. -/
structure Table where
  name : Bytes
  body : List Bytes

/-- The lines up to the next header. -/
def bodyOf (lines : List Bytes) : List Bytes :=
  lines.takeWhile fun line => (tableHeader line).isNone

/-- What stands above the first header belongs to no table. -/
def tables : List Bytes → List Table
  | [] => []
  | line :: rest =>
    match tableHeader line with
    | none => tables rest
    | some name => ⟨name, bodyOf rest⟩ :: tables rest

def recordTables (lines : List Bytes) : List Table :=
  (tables lines).filter fun t => t.name = ascii "record"

/-- The lines with an equals sign, as keys and values. -/
def assignmentsIn (lines : List Bytes) : List (Bytes × Bytes) :=
  lines.filterMap fun line => keyValue (trim (stripComment line))

/-- The text between the quotes. -/
def unquoted (value : Bytes) : Bytes := value.tail.dropLast

/-- The text of the last assignment to a key, empty if there is none. -/
def lastText (assignments : List (Bytes × Bytes)) (key : Bytes) : Bytes :=
  match (assignments.filter fun kv => kv.1 = key).getLast? with
  | none => []
  | some kv => unquoted kv.2

/-- The record that some assignments make. -/
def recordOf (assignments : List (Bytes × Bytes)) : LocalRecord where
  name := canonicalName (lastText assignments (ascii "name"))
  type := toLower (lastText assignments (ascii "type"))
  value := lastText assignments (ascii "value")

/-- Only quoted strings are assigned. -/
def AllQuoted (assignments : List (Bytes × Bytes)) : Prop :=
  ∀ kv ∈ assignments, ∃ s, kv.2 = quoted s

structure LocalRecord.Complete (rec : LocalRecord) : Prop where
  name_ne : rec.name ≠ []
  type_ne : rec.type ≠ []
  value_ne : rec.value ≠ []

namespace Table

def record (t : Table) : LocalRecord := recordOf (assignmentsIn t.body)

structure WellFormed (t : Table) : Prop where
  allQuoted : AllQuoted (assignmentsIn t.body)
  complete : t.record.Complete

end Table

/-! ## One line -/

@[simp] theorem unquoted_quoted (s : Bytes) : unquoted (quoted s) = s := by
  simp [unquoted, quoted]

theorem parseQuotedString_eq_some {value s : Bytes} (h : trim value = value) :
    parseQuotedString value = some s ↔ value = quoted s := by
  constructor
  · intro hparse
    rw [parseQuotedString, h] at hparse
    split_ifs at hparse with hends
    simp only [not_or, not_not] at hends
    obtain ⟨hlength, hfirst, hlast⟩ := hends
    obtain ⟨front, rfl⟩ := List.getLast?_eq_some_iff.mp hlast
    cases front with
    | nil => simp at hlength
    | cons b front =>
      obtain rfl : b = quote := by simpa using hfirst
      simpa [quoted] using hparse
  · rintro rfl
    exact parseQuotedString_quoted s

namespace RecordLoader

variable (l : RecordLoader) (number : Nat)

/-- A header closes the table before it and says whether the next one holds a record. -/
theorem line_tableHeader {line name : Bytes} (h : tableHeader line = some name) :
    l.line number line =
      l.finish >>= fun l => .ok { l with inRecord := name = ascii "record" } := by
  rw [tableHeader] at h
  split_ifs at h with hheader
  obtain rfl := Option.some.inj h
  have hne : (trim (stripComment line)).isEmpty = false := by
    rw [List.isEmpty_eq_false_iff]
    intro hnil
    rw [hnil] at hheader
    exact absurd hheader (by decide)
  rw [RecordLoader.line, hne, hheader]
  rfl

/-- Any other line assigns a value or does nothing. -/
theorem line_other {line : Bytes} (h : tableHeader line = none) :
    l.line number line =
      match keyValue (trim (stripComment line)) with
      | none => .ok l
      | some (key, value) =>
        if l.inRecord then
          match parseQuotedString value with
          | none => .error (ascii "invalid local record value at line " ++ decimal number)
          | some v => .ok { l with current := setField l.current key v }
        else .ok l := by
  have hheader : isTableHeader (trim (stripComment line)) = false := by
    rw [tableHeader] at h
    split_ifs at h with hheader
    exact Bool.eq_false_iff.mpr hheader
  rw [RecordLoader.line, hheader]
  cases hempty : (trim (stripComment line)).isEmpty with
  | false => rfl
  | true =>
    rw [List.isEmpty_iff.mp hempty]
    rfl

end RecordLoader

/-! ## The last assignments -/

theorem lastText_concat (assignments : List (Bytes × Bytes)) (kv : Bytes × Bytes) (key : Bytes) :
    lastText (assignments ++ [kv]) key =
      if kv.1 = key then unquoted kv.2 else lastText assignments key := by
  unfold lastText
  rw [List.filter_append]
  split_ifs with hkey <;> simp [hkey]

/-- An assignment more changes the field of its key. -/
theorem recordOf_concat (assignments : List (Bytes × Bytes)) (kv : Bytes × Bytes) :
    recordOf (assignments ++ [kv]) =
      RecordLoader.setField (recordOf assignments) kv.1 (unquoted kv.2) := by
  simp only [recordOf, lastText_concat, RecordLoader.setField]
  have htype : ascii "type" ≠ ascii "name" := by decide
  have hvalue : ascii "value" ≠ ascii "name" := by decide
  have hvalue' : ascii "value" ≠ ascii "type" := by decide
  split_ifs <;> simp_all

theorem finish_eq_ok {l l' : RecordLoader} (hin : l.inRecord = true) :
    l.finish = .ok l' ↔
      l.current.Complete ∧
        l' = { l with current := ⟨[], [], []⟩, out := l.out ++ [l.current] } := by
  rw [RecordLoader.finish, if_pos hin]
  split_ifs with hempty
  · simp only [List.isEmpty_iff] at hempty
    refine iff_of_false (by simp) fun h => ?_
    exact hempty.elim h.1.name_ne fun h' => h'.elim h.1.type_ne h.1.value_ne
  · simp only [List.isEmpty_iff, not_or] at hempty
    constructor
    · intro h
      exact ⟨⟨hempty.1, hempty.2.1, hempty.2.2⟩, (Except.ok.inj h).symm⟩
    · rintro ⟨-, rfl⟩
      rfl

/-! ## The lines of a file -/

theorem bodyOf_other {line : Bytes} (h : tableHeader line = none) (rest : List Bytes) :
    bodyOf (line :: rest) = line :: bodyOf rest := by
  rw [bodyOf, List.takeWhile_cons_of_pos (by simp [h])]
  rfl

theorem bodyOf_header {line name : Bytes} (h : tableHeader line = some name) (rest : List Bytes) :
    bodyOf (line :: rest) = [] := by
  rw [bodyOf, List.takeWhile_cons_of_neg (by simp [h])]

theorem recordTables_other {line : Bytes} (h : tableHeader line = none) (rest : List Bytes) :
    recordTables (line :: rest) = recordTables rest := by
  rw [recordTables, tables, h]
  rfl

theorem recordTables_header {line name : Bytes} (h : tableHeader line = some name)
    (rest : List Bytes) :
    recordTables (line :: rest) =
      if name = ascii "record" then ⟨name, bodyOf rest⟩ :: recordTables rest
      else recordTables rest := by
  rw [recordTables, tables, h, List.filter_cons]
  simp [recordTables]

namespace RecordLoader

/-- The loop and what follows it. -/
def run (l : RecordLoader) (number : Nat) (lines : List Bytes) : Except Bytes (List LocalRecord) :=
  l.lines number lines >>= fun l => l.finish >>= fun l => pure l.out

/-- No record is being read, and nothing is left of the last one. -/
structure Between (l : RecordLoader) : Prop where
  outside : l.inRecord = false
  cleared : l.current = ⟨[], [], []⟩

/-- A record is being read, and has these assignments. -/
structure Inside (l : RecordLoader) (assignments : List (Bytes × Bytes)) : Prop where
  inside : l.inRecord = true
  current : l.current = recordOf assignments

/-- What the tables in the lines yield behind what there is. -/
def Yields (out : List LocalRecord) (lines : List Bytes) (result : List LocalRecord) : Prop :=
  (∀ t ∈ recordTables lines, t.WellFormed) ∧ result = out ++ (recordTables lines).map Table.record

variable {l : RecordLoader} {number : Nat} {result : List LocalRecord}

theorem run_cons (l : RecordLoader) (number : Nat) (line : Bytes) (rest : List Bytes) :
    l.run number (line :: rest) = l.line number line >>= fun m => m.run (number + 1) rest := by
  rw [run, lines]
  cases l.line number line with
  | error e => rfl
  | ok m => rfl

/-- What the run of the remaining lines returns, by the state that it starts in. -/
structure RunSpec (rest : List Bytes) : Prop where
  between : ∀ (l : RecordLoader) number result, l.Between →
    (l.run number rest = .ok result ↔ Yields l.out rest result)
  inside : ∀ (l : RecordLoader) number result assignments, l.Inside assignments →
    (l.run number rest = .ok result ↔
      AllQuoted (assignmentsIn (bodyOf rest)) ∧
        (recordOf (assignments ++ assignmentsIn (bodyOf rest))).Complete ∧
        Yields (l.out ++ [recordOf (assignments ++ assignmentsIn (bodyOf rest))]) rest result)

/-- Behind a header the run starts anew. -/
theorem RunSpec.header {rest : List Bytes} (spec : RunSpec rest) {line name : Bytes}
    (h : tableHeader line = some name) (hcleared : l.current = ⟨[], [], []⟩) (number : Nat)
    (result : List LocalRecord) :
    RecordLoader.run { l with inRecord := name = ascii "record" } number rest = .ok result ↔
      Yields l.out (line :: rest) result := by
  rw [Yields, recordTables_header h]
  by_cases hname : name = ascii "record"
  · have hinside : Inside { l with inRecord := name = ascii "record" } [] :=
      ⟨decide_eq_true hname, hcleared⟩
    refine (spec.inside _ number result [] hinside).trans ?_
    simp only [if_pos hname, List.nil_append, List.forall_mem_cons, List.map_cons, Yields]
    constructor
    · rintro ⟨hquoted, hcomplete, hrest, rfl⟩
      exact ⟨⟨⟨hquoted, hcomplete⟩, hrest⟩, by simp [Table.record]⟩
    · rintro ⟨⟨⟨hquoted, hcomplete⟩, hrest⟩, rfl⟩
      exact ⟨hquoted, hcomplete, hrest, by simp [Table.record]⟩
  · have hbetween : Between { l with inRecord := name = ascii "record" } :=
      ⟨decide_eq_false hname, hcleared⟩
    rw [if_neg hname]
    exact spec.between _ number result hbetween

theorem finish_between (h : l.Between) : l.finish = .ok l := by
  rw [finish, h.outside]
  rfl

/-- A record is finished if it is complete, and refused otherwise. -/
theorem Inside.finish_bind {assignments : List (Bytes × Bytes)} (h : l.Inside assignments)
    {β : Type} (f : RecordLoader → Except Bytes β) (b : β) :
    l.finish >>= f = .ok b ↔ (recordOf assignments).Complete ∧
      f { l with current := ⟨[], [], []⟩, out := l.out ++ [recordOf assignments] } = .ok b := by
  by_cases hcomplete : (recordOf assignments).Complete
  · have hfinish : l.finish =
        .ok { l with current := ⟨[], [], []⟩, out := l.out ++ [recordOf assignments] } := by
      rw [finish_eq_ok h.inside, h.current]
      exact ⟨hcomplete, rfl⟩
    rw [hfinish]
    exact (and_iff_right hcomplete).symm
  · refine iff_of_false (fun hrun => ?_) fun h => hcomplete h.1
    obtain ⟨m, hfinish, -⟩ := exists_of_bind_ok hrun
    exact hcomplete (h.current ▸ ((finish_eq_ok h.inside).mp hfinish).1)

/-- An assignment in a record. -/
theorem Inside.assign {assignments : List (Bytes × Bytes)} (h : l.Inside assignments)
    (key s : Bytes) :
    Inside { l with current := setField l.current key s } (assignments ++ [(key, quoted s)]) := by
  refine ⟨h.inside, ?_⟩
  rw [recordOf_concat, unquoted_quoted, h.current]

/-! ## The run of the lines -/

theorem between_nil (h : l.Between) : l.run number [] = .ok result ↔ Yields l.out [] result := by
  have hrun : l.run number [] = l.finish >>= fun l => pure l.out := rfl
  have hok : (.ok l.out : Except Bytes (List LocalRecord)) = .ok result ↔ result = l.out :=
    ⟨fun h => (Except.ok.inj h).symm, fun h => h ▸ rfl⟩
  rw [hrun, finish_between h]
  refine hok.trans ?_
  simp [Yields, recordTables, tables]

/-- At the end of the file the record is finished. -/
theorem inside_nil {assignments : List (Bytes × Bytes)} (h : l.Inside assignments) :
    l.run number [] = .ok result ↔
      (recordOf assignments).Complete ∧ Yields (l.out ++ [recordOf assignments]) [] result := by
  have hrun : l.run number [] = l.finish >>= fun l => pure l.out := rfl
  have hok : (pure (l.out ++ [recordOf assignments]) : Except Bytes (List LocalRecord)) =
      .ok result ↔ result = l.out ++ [recordOf assignments] :=
    ⟨fun h => (Except.ok.inj h).symm, fun h => h ▸ rfl⟩
  rw [hrun, h.finish_bind]
  refine and_congr_right fun _ => hok.trans ?_
  simp [Yields, recordTables, tables]

namespace RunSpec

variable {rest : List Bytes} (spec : RunSpec rest) {line name : Bytes}
  {assignments : List (Bytes × Bytes)}
include spec

/-- Outside a record a line starts a table or does nothing. -/
theorem between_cons (line : Bytes) (h : l.Between) :
    l.run number (line :: rest) = .ok result ↔ Yields l.out (line :: rest) result := by
  rw [run_cons]
  cases hheader : tableHeader line with
  | some name =>
    rw [line_tableHeader _ _ hheader, finish_between h]
    exact spec.header hheader h.cleared _ _
  | none =>
    have hline : l.line number line = .ok l := by
      rw [line_other _ _ hheader, h.outside]
      cases keyValue (trim (stripComment line)) <;> rfl
    rw [hline, Yields, recordTables_other hheader]
    exact spec.between l _ _ h

/-- A header finishes the record. -/
theorem inside_header (hheader : tableHeader line = some name) (h : l.Inside assignments) :
    l.run number (line :: rest) = .ok result ↔
      (recordOf assignments).Complete ∧
        Yields (l.out ++ [recordOf assignments]) (line :: rest) result := by
  have hbind : l.run number (line :: rest) = l.finish >>= fun l =>
      RecordLoader.run { l with inRecord := name = ascii "record" } (number + 1) rest := by
    rw [run_cons, line_tableHeader _ _ hheader]
    cases l.finish <;> rfl
  rw [hbind, h.finish_bind]
  refine and_congr_right fun _ => ?_
  exact spec.header
    (l := { l with current := ⟨[], [], []⟩, out := l.out ++ [recordOf assignments] })
    hheader rfl (number + 1) result

/-- Any other line of a record adds an assignment, if it has a key. -/
theorem inside_other (hheader : tableHeader line = none) (h : l.Inside assignments) :
    l.run number (line :: rest) = .ok result ↔
      AllQuoted (assignmentsIn (line :: bodyOf rest)) ∧
        (recordOf (assignments ++ assignmentsIn (line :: bodyOf rest))).Complete ∧
        Yields (l.out ++ [recordOf (assignments ++ assignmentsIn (line :: bodyOf rest))]) rest
          result := by
  have hline := l.line_other number hheader
  rw [run_cons, assignmentsIn, List.filterMap_cons]
  cases hkey : keyValue (trim (stripComment line)) with
  | none =>
    rw [hkey] at hline
    rw [hline]
    exact spec.inside l _ _ assignments h
  | some kv =>
    obtain ⟨key, value⟩ := kv
    rw [hkey] at hline
    dsimp only at hline
    rw [if_pos h.inside] at hline
    cases hparse : parseQuotedString value with
    | none =>
      rw [hparse] at hline
      rw [hline]
      refine iff_of_false (by rintro ⟨⟩) fun h => ?_
      obtain ⟨s, rfl⟩ := h.1 (key, value) List.mem_cons_self
      rw [parseQuotedString_quoted] at hparse
      cases hparse
    | some s =>
      rw [hparse] at hline
      rw [hline]
      obtain rfl := (parseQuotedString_eq_some (trim_of_keyValue hkey)).mp hparse
      refine (spec.inside _ (number + 1) result _ (h.assign key s)).trans ?_
      rw [List.append_assoc]
      refine and_congr_left' ?_
      simp [AllQuoted, assignmentsIn]

end RunSpec

/-- The induction follows the lines. A line that is no header assigns at most one value, and a
header closes the record, so the state is always one of the two kinds. -/
theorem runSpec (rest : List Bytes) : RunSpec rest := by
  have hnil : assignmentsIn [] = [] := rfl
  have hquoted : AllQuoted [] := by simp [AllQuoted]
  induction rest with
  | nil =>
    refine ⟨fun l number result h => between_nil h, fun l number result assignments h => ?_⟩
    have hbody : bodyOf [] = [] := rfl
    rw [hbody, hnil, List.append_nil, and_iff_right hquoted]
    exact inside_nil h
  | cons line rest spec =>
    refine ⟨fun l number result h => spec.between_cons line h,
      fun l number result assignments h => ?_⟩
    cases hheader : tableHeader line with
    | some name =>
      rw [bodyOf_header hheader, hnil, List.append_nil, and_iff_right hquoted]
      exact spec.inside_header hheader h
    | none =>
      rw [bodyOf_other hheader, Yields, recordTables_other hheader]
      exact spec.inside_other hheader h

end RecordLoader

/-- The file is loaded exactly if all its `[[record]]` tables are well-formed, and yields one record
for each of them. -/
theorem loadLocalRecords_tables (out : List LocalRecord) (path content : Bytes)
    (result : List LocalRecord) :
    loadLocalRecordsInto out path (some content) = .ok result ↔
      (∀ t ∈ recordTables (getLines content), t.WellFormed) ∧
        result = out ++ (recordTables (getLines content)).map Table.record :=
  (RecordLoader.runSpec (getLines content)).between ⟨⟨[], [], []⟩, false, out⟩ 1 result ⟨rfl, rfl⟩

end Gravastar
