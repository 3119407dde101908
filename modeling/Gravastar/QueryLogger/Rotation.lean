import Gravastar.RotatingLog.Names

/-!
# Rotation and the lines in the logs

A line moves from the log to an archive, and goes when the archive is one of the
old ones that are removed. It goes too when a later archive takes the name of
its own, which is chosen by a look at the uncompressed file.
-/

namespace Gravastar

/-! ## Directories -/

namespace LogDir

variable {dir : LogDir}

theorem lookup_ensureOpen {name text : Bytes} (log : LogFile) (h : dir.lookup name = some text) :
    (dir.ensureOpen log).lookup name = some text := by
  rw [ensureOpen]
  split_ifs with hexists
  · exact h
  · rw [AList.lookup_insert_ne, h]
    rintro rfl
    simp [fileExists, h] at hexists

theorem lookup_ensureOpen_ne {name : Bytes} {log : LogFile} (h : name ≠ log.name) :
    (dir.ensureOpen log).lookup name = dir.lookup name := lookup_openNamed_ne h

/-- Renaming moves the text; nothing else changes. -/
theorem lookup_rename {source target text : Bytes} (h : dir.lookup source = some text)
    (name : Bytes) :
    (dir.rename source target).lookup name =
      if name = target then some text else if name = source then none else dir.lookup name := by
  rw [rename, h]
  dsimp only
  split_ifs with htarget hsource
  · rw [htarget, AList.lookup_insert]
  · rw [AList.lookup_insert_ne htarget, hsource, AList.lookup_erase]
  · rw [AList.lookup_insert_ne htarget, AList.lookup_erase_ne hsource]

/-! ## Names -/

theorem uniqueRotatedName_cases (dir : LogDir) (now : Int) (baseName : Bytes) :
    ∃ stamp, dir.uniqueRotatedName now baseName = stamp ++ ascii "_" ++ baseName := by
  have hfirst : ∃ stamp, rotatedName now baseName = stamp ++ ascii "_" ++ baseName := ⟨_, rfl⟩
  have halt : ∀ i, ∃ stamp, rotatedNameAlt now baseName i = stamp ++ ascii "_" ++ baseName :=
    fun _ => ⟨_, rfl⟩
  rw [uniqueRotatedName]
  cases hfind : List.find? _ _ with
  | none => exact halt 999
  | some candidate =>
    rcases List.mem_cons.mp (List.mem_of_find?_eq_some hfind) with rfl | hmem
    · exact hfirst
    · obtain ⟨i, -, rfl⟩ := List.mem_map.mp hmem
      exact halt i

theorem uniqueRotatedName_free {now : Int} {baseName : Bytes}
    (h : dir.fileExists (rotatedName now baseName) = false) :
    dir.uniqueRotatedName now baseName = rotatedName now baseName := by
  rw [uniqueRotatedName]
  simp [h]

theorem archiveEntry_eq_some {suffix name : Bytes} {entry : Int × Bytes}
    (h : archiveEntry suffix name = some entry) : entry.2 = name ∧ suffix <:+ name := by
  rw [archiveEntry] at h
  split_ifs at h with hsuffix
  dsimp only at h
  split_ifs at h
  obtain rfl := Option.some.inj h
  exact ⟨rfl, by simpa using hsuffix⟩

/-! ## `CleanupOld` -/

theorem lookup_foldl_erase (names : List (Int × Bytes)) (dir : LogDir) (name : Bytes) :
    (names.foldl (fun dir entry => dir.erase entry.2) dir).lookup name = dir.lookup name ∨
      (names.foldl (fun dir entry => dir.erase entry.2) dir).lookup name = none ∧
        ∃ entry ∈ names, entry.2 = name := by
  induction names generalizing dir with
  | nil => exact .inl rfl
  | cons entry names ih =>
    rw [List.foldl_cons]
    by_cases hname : entry.2 = name
    · subst hname
      rcases ih (dir.erase entry.2) with hsame | ⟨hnone, -⟩
      · rw [AList.lookup_erase] at hsame
        exact .inr ⟨hsame, entry, List.mem_cons_self, rfl⟩
      · exact .inr ⟨hnone, entry, List.mem_cons_self, rfl⟩
    · rcases ih (dir.erase entry.2) with hsame | ⟨hnone, other, hmem, hother⟩
      · rw [AList.lookup_erase_ne (Ne.symm hname)] at hsame
        exact .inl hsame
      · exact .inr ⟨hnone, other, List.mem_cons_of_mem _ hmem, hother⟩

/-- The archives of a log other than a given one. -/
def otherArchives (dir : LogDir) (suffix name : Bytes) : List (Int × Bytes) :=
  (dir.entries suffix).filter fun entry => entry.2 ≠ name

theorem nodup_entries (dir : LogDir) (suffix : Bytes) :
    ((dir.entries suffix).map Prod.snd).Nodup := by
  rw [entries, List.map_filterMap]
  refine dir.keys_nodup.filterMap ?_
  intro name name' entry h h'
  obtain ⟨_, hentry, rfl⟩ := Option.mem_map.mp h
  obtain ⟨_, hentry', hsame⟩ := Option.mem_map.mp h'
  rw [← (archiveEntry_eq_some hentry).1, ← hsame, (archiveEntry_eq_some hentry').1]

theorem length_le_filter_ne {entries : List (Int × Bytes)} (h : (entries.map Prod.snd).Nodup)
    (name : Bytes) :
    entries.length ≤ (entries.filter fun entry => entry.2 ≠ name).length + 1 := by
  induction entries with
  | nil => simp
  | cons entry entries ih =>
    rw [List.map_cons, List.nodup_cons] at h
    by_cases hname : entry.2 = name
    · have hrest : entries.filter (fun entry => decide (entry.2 ≠ name)) = entries := by
        refine List.filter_eq_self.mpr fun other hother => decide_eq_true fun heq => h.1 ?_
        rw [hname, ← heq]
        exact List.mem_map_of_mem hother
      rw [List.filter_cons_of_neg (by simp [hname]), hrest, List.length_cons]
    · rw [List.filter_cons_of_pos (by simp [hname]), List.length_cons, List.length_cons]
      exact Nat.succ_le_succ (ih h.2)

/-- A file stays as it is, or it was an archive and there are ten others. -/
theorem lookup_cleanupOld (dir : LogDir) (suffix name : Bytes) :
    (dir.cleanupOld suffix).lookup name = dir.lookup name ∨
      (dir.cleanupOld suffix).lookup name = none ∧ suffix <:+ name ∧
        10 ≤ (dir.otherArchives suffix name).length := by
  rw [cleanupOld]
  dsimp only
  split_ifs with hfew
  · exact .inl rfl
  · rcases lookup_foldl_erase (((dir.entries suffix).insertionSort
      fun a b => a.1 < b.1 ∨ a.1 = b.1 ∧ a.2 ≤ b.2).take ((dir.entries suffix).length - 10)) dir
      name with hsame | ⟨hnone, entry, hmem, rfl⟩
    · exact .inl hsame
    · have hentry : entry ∈ dir.entries suffix :=
        (List.perm_insertionSort _ _).mem_iff.mp (List.mem_of_mem_take hmem)
      obtain ⟨key, -, hkey⟩ := List.mem_filterMap.mp hentry
      obtain ⟨hname, hsuffix⟩ := archiveEntry_eq_some hkey
      have hlength := length_le_filter_ne (dir.nodup_entries suffix) entry.2
      rw [← otherArchives] at hlength
      exact .inr ⟨hnone, hname ▸ hsuffix, by omega⟩

/-! ## Texts -/

theorem lookup_append (dir : LogDir) (log : LogFile) (text name : Bytes) :
    (dir.append log text).lookup name =
      if name = log.name then some ((dir.lookup log.name).getD [] ++ text)
      else dir.lookup name := by
  rw [append]
  split_ifs with hname
  · rw [hname, AList.lookup_insert]
  · exact AList.lookup_insert_ne hname

/-- The file holds the line. -/
def HoldsLine (dir : LogDir) (line name : Bytes) : Prop :=
  ∃ text, dir.lookup name = some text ∧ line ++ [newline] <:+: text

theorem HoldsLine.of_lookup_eq {dir' : LogDir} {line name : Bytes} (h : dir.HoldsLine line name)
    (heq : dir'.lookup name = dir.lookup name) : dir'.HoldsLine line name := by
  obtain ⟨text, htext, hline⟩ := h
  exact ⟨text, heq.trans htext, hline⟩

theorem HoldsLine.ensureOpen {line name : Bytes} (h : dir.HoldsLine line name) (log : LogFile) :
    (dir.ensureOpen log).HoldsLine line name := by
  obtain ⟨text, htext, hline⟩ := h
  exact ⟨text, lookup_ensureOpen log htext, hline⟩

/-- A text that grows keeps its lines. -/
theorem HoldsLine.append {line name : Bytes} (h : dir.HoldsLine line name) (log : LogFile)
    (more : Bytes) : (dir.append log more).HoldsLine line name := by
  obtain ⟨text, htext, hline⟩ := h
  by_cases hname : name = log.name
  · subst hname
    refine ⟨text ++ more, ?_, hline.trans (List.prefix_append ..).isInfix⟩
    rw [lookup_append, if_pos rfl, htext, Option.getD_some]
  · refine ⟨text, ?_, hline⟩
    rw [lookup_append, if_neg hname, htext]

theorem holdsLine_append_self (dir : LogDir) (log : LogFile) (line : Bytes) :
    (dir.append log (line ++ [newline])).HoldsLine line log.name := by
  refine ⟨_, ?_, (List.suffix_append ((dir.lookup log.name).getD []) _).isInfix⟩
  rw [lookup_append, if_pos rfl]

/-- The line is in the log, or in one of the archives of the log. -/
def Kept (dir : LogDir) (log : LogFile) (line : Bytes) : Prop :=
  ∃ name, (name = log.name ∨ log.archiveSuffix <:+ name) ∧ dir.HoldsLine line name

end LogDir

/-! ## Names that differ -/

theorem name_injective {log log' : LogFile} (h : log.name = log'.name) : log = log' := by
  revert h
  cases log <;> cases log' <;> decide

theorem getLast?_name (log : LogFile) : log.name.getLast? = some 103 := log.logName.endsInG

theorem getLast?_rotated (stamp : Bytes) (log : LogFile) :
    (stamp ++ ascii "_" ++ log.name).getLast? = some 103 := by
  rw [List.append_assoc]
  exact LogName.getLast?_rotated (N := log.logName) stamp

theorem getLast?_archive {log : LogFile} {name : Bytes} (h : log.archiveSuffix <:+ name) :
    name.getLast? = some 122 := by
  obtain ⟨stamp, rfl⟩ := h
  rw [LogFile.archiveSuffix, ← List.append_assoc]
  exact LogName.getLast?_gz _

theorem archive_ne {log : LogFile} {name other : Bytes} (h : log.archiveSuffix <:+ name)
    (hother : other.getLast? = some 103) : name ≠ other := by
  rintro rfl
  rw [getLast?_archive h] at hother
  cases hother

theorem rotated_ne_name (stamp : Bytes) (log log' : LogFile) :
    stamp ++ ascii "_" ++ log.name ≠ log'.name := by
  have hrotated : log.logName.isRotated (stamp ++ ascii "_" ++ log.name) = true := by
    rw [List.append_assoc]
    exact LogName.isRotated_plain stamp
  have hne : stamp ++ ascii "_" ++ log.name ≠ log'.logName.text :=
    LogName.ne_text_of_isRotated hrotated
  exact hne

theorem archive_of_rotated (stamp : Bytes) (log : LogFile) :
    log.archiveSuffix <:+ stamp ++ ascii "_" ++ log.name ++ ascii ".gz" := by
  refine ⟨stamp, ?_⟩
  rw [LogFile.archiveSuffix]
  simp only [List.append_assoc]

/-- An archive belongs to one log. -/
theorem archive_log {log log' : LogFile} {name : Bytes} (h : log.archiveSuffix <:+ name)
    (h' : log'.archiveSuffix <:+ name) : log = log' := by
  have hname : log.logName = log'.logName :=
    LogName.eq_of_isRotated (LogName.isRotated_of_archiveSuffix h)
      (LogName.isRotated_of_archiveSuffix h')
  exact name_injective (congrArg LogName.text hname)

namespace QueryLogger
open LogDir

/-- The name that the log gets when it is rotated now. -/
def rotatedTo (dir : LogDir) (log : LogFile) (now : Int) : Bytes :=
  dir.uniqueRotatedName now log.name

theorem lookup_rotate {dir : LogDir} {log : LogFile} {text : Bytes}
    (h : dir.lookup log.name = some text) (now : Int) (name : Bytes) :
    (rotate dir log now).lookup name =
      if name = rotatedTo dir log now ++ ascii ".gz" then some text
      else if name = rotatedTo dir log now ∨ name = log.name then none
      else dir.lookup name := by
  have hrenamed : (dir.rename log.name (rotatedTo dir log now)).lookup (rotatedTo dir log now) =
      some text := by
    rw [lookup_rename h, if_pos rfl]
  rw [rotate, compressFile, ← rotatedTo, lookup_rename hrenamed, lookup_rename h]
  grind

section
variable (logger : QueryLogger)

def machine (start : LogDir) : Machine LogDir LogEvent Bool := ⟨start, logger.step⟩

/-- The call finds the log too long. -/
def Rotates (dir : LogDir) (e : LogEvent) : Prop :=
  logger.enabled = true ∧ logger.maxBytes ≤ ((dir.lookup e.call.log.name).getD []).length

/-- The files when the log has been compressed and the old archives are still there. -/
def beforeCleanup (dir : LogDir) (e : LogEvent) : LogDir :=
  rotate (dir.ensureOpen e.call.log) e.call.log e.now

/-- The call removes an archive that holds the line, while there are ten other archives. -/
def CleanedUp (dir : LogDir) (e : LogEvent) (log : LogFile) (line : Bytes) : Prop :=
  logger.Rotates dir e ∧ e.call.log = log ∧ ∃ name, log.archiveSuffix <:+ name ∧
    (beforeCleanup dir e).HoldsLine line name ∧
    ((beforeCleanup dir e).cleanupOld log.archiveSuffix).lookup name = none ∧
    10 ≤ ((beforeCleanup dir e).otherArchives log.archiveSuffix name).length

/-- The name that is chosen for a rotated log has no archive yet. -/
def FreshName (dir : LogDir) (e : LogEvent) : Prop :=
  logger.Rotates dir e →
    dir.fileExists (rotatedTo (dir.ensureOpen e.call.log) e.call.log e.now ++ ascii ".gz") = false

/-- There is no archive of this log from this second. -/
def FreshSecond (dir : LogDir) (e : LogEvent) : Prop :=
  logger.Rotates dir e →
    dir.fileExists (rotatedName e.now e.call.log.name ++ ascii ".gz") = false

/-- Every line whose call returned true is in the log or in an archive, or its archive was
removed. -/
def LinesKept (start : LogDir) (es : List LogEvent) : Prop :=
  ∀ newer e older, es = newer ++ e :: older →
    (logger.step ((logger.machine start).after older) e).1 = true →
      Kept ((logger.machine start).after es) e.call.log (e.call.line e.time) ∨
        ∃ later cleanup between, newer = later ++ cleanup :: between ∧
          logger.CleanedUp ((logger.machine start).after (between ++ e :: older)) cleanup
            e.call.log (e.call.line e.time)

end

section
variable {logger : QueryLogger} {dir : LogDir} {e : LogEvent}

theorem exists_lookup_ensureOpen (dir : LogDir) (log : LogFile) :
    (dir.ensureOpen log).lookup log.name = some ((dir.lookup log.name).getD []) :=
  lookup_openNamed dir log.name

theorem ensureOpen_ensureOpen (dir : LogDir) (log : LogFile) :
    (dir.ensureOpen log).ensureOpen log = dir.ensureOpen log := by
  rw [LogDir.ensureOpen, if_pos]
  rw [LogDir.fileExists, exists_lookup_ensureOpen, Option.isSome_some]

/-- What a call does. -/
inductive Logs (logger : QueryLogger) (dir : LogDir) (e : LogEvent) : Bool × LogDir → Prop
  | disabled (off : logger.enabled = false) : Logs logger dir e (false, dir)
  | written (short : ¬ logger.Rotates dir e) :
      Logs logger dir e (true, (dir.ensureOpen e.call.log).append e.call.log
        (e.call.line e.time ++ [newline]))
  | rotated (long : logger.Rotates dir e) :
      Logs logger dir e (true,
        (((beforeCleanup dir e).cleanupOld e.call.log.archiveSuffix).ensureOpen e.call.log).append
          e.call.log (e.call.line e.time ++ [newline]))

theorem step_spec (logger : QueryLogger) (dir : LogDir) (e : LogEvent) :
    Logs logger dir e (logger.step dir e) := by
  rw [step, writeLine]
  cases hon : logger.enabled with
  | false => exact .disabled hon
  | true =>
    dsimp only [Bool.not_true]
    rw [if_neg (by decide), rotateIfNeeded, exists_lookup_ensureOpen]
    dsimp only
    split_ifs with hshort
    · rw [ensureOpen_ensureOpen]
      exact .written fun h => absurd h.2 (by omega)
    · exact .rotated ⟨hon, by omega⟩

/-- A rotation that takes a free name moves the line along, or leaves it where it is. -/
theorem kept_beforeCleanup {log : LogFile} {line : Bytes}
    (hfresh : dir.fileExists (rotatedTo (dir.ensureOpen e.call.log) e.call.log e.now ++
      ascii ".gz") = false) (h : dir.Kept log line) : (beforeCleanup dir e).Kept log line := by
  obtain ⟨stamp, hstamp⟩ := uniqueRotatedName_cases (dir.ensureOpen e.call.log) e.now
    e.call.log.name
  rw [← rotatedTo] at hstamp
  have hlookup := lookup_rotate (exists_lookup_ensureOpen dir e.call.log) e.now
  obtain ⟨name, hname, hline⟩ := h
  by_cases hlog : name = e.call.log.name
  · -- The text of the log goes to the new archive.
    have hsame : log = e.call.log := by
      rcases hname with hname | hname
      · exact name_injective (hname.symm.trans hlog)
      · exact absurd hlog (archive_ne hname (getLast?_name _))
    obtain ⟨text, htext, hline⟩ := hline
    rw [hlog] at htext
    have hsuffix : log.archiveSuffix <:+
        rotatedTo (dir.ensureOpen e.call.log) e.call.log e.now ++ ascii ".gz" := by
      rw [hsame, hstamp]
      exact archive_of_rotated stamp e.call.log
    refine ⟨_, .inr hsuffix, text, ?_, hline⟩
    rw [beforeCleanup, hlookup, if_pos rfl, htext, Option.getD_some]
  · refine ⟨name, hname, hline.of_lookup_eq ?_⟩
    have hgz : name ≠ rotatedTo (dir.ensureOpen e.call.log) e.call.log e.now ++ ascii ".gz" := by
      rintro rfl
      obtain ⟨text, htext, -⟩ := hline
      simp [LogDir.fileExists, htext] at hfresh
    have hplain : name ≠ rotatedTo (dir.ensureOpen e.call.log) e.call.log e.now := by
      rw [hstamp]
      rcases hname with rfl | hname
      · exact (rotated_ne_name stamp _ _).symm
      · exact archive_ne hname (getLast?_rotated stamp _)
    rw [beforeCleanup, hlookup, if_neg hgz, if_neg (by simp [hplain, hlog]),
      lookup_ensureOpen_ne hlog]

/-- One call keeps a line, or removes its archive while there are ten others. -/
theorem kept_step {log : LogFile} {line : Bytes} (hfresh : logger.FreshName dir e)
    (h : dir.Kept log line) :
    (logger.step dir e).2.Kept log line ∨ logger.CleanedUp dir e log line := by
  have hspec := logger.step_spec dir e
  generalize logger.step dir e = r at hspec
  cases hspec with
  | disabled => exact .inl h
  | written =>
    obtain ⟨name, hname, hline⟩ := h
    exact .inl ⟨name, hname, (hline.ensureOpen _).append _ _⟩
  | rotated long =>
    obtain ⟨name, hname, hline⟩ := kept_beforeCleanup (hfresh long) h
    rcases lookup_cleanupOld (beforeCleanup dir e) e.call.log.archiveSuffix name with
      hsame | ⟨hnone, hsuffix, hothers⟩
    · exact .inl ⟨name, hname, ((hline.of_lookup_eq hsame).ensureOpen _).append _ _⟩
    · rcases hname with hname | hname
      · exact absurd hname (archive_ne hsuffix (getLast?_name _))
      · obtain rfl := archive_log hsuffix hname
        exact .inr ⟨long, rfl, name, hsuffix, hline, hnone, hothers⟩

/-- A call that returns true has put its line into the log. -/
theorem kept_written (h : (logger.step dir e).1 = true) :
    (logger.step dir e).2.Kept e.call.log (e.call.line e.time) := by
  have hspec := logger.step_spec dir e
  generalize logger.step dir e = r at hspec h
  cases hspec with
  | disabled => cases h
  | written => exact ⟨_, .inl rfl, holdsLine_append_self ..⟩
  | rotated => exact ⟨_, .inl rfl, holdsLine_append_self ..⟩

/-- Where every rotation takes a free name, lines go with old archives only. -/
theorem linesKept_of_freshNames {start : LogDir} {es : List LogEvent}
    (h : (logger.machine start).Along logger.FreshName es) : logger.LinesKept start es := by
  intro newer e older hsplit hwritten
  subst hsplit
  induction newer with
  | nil => exact .inl (kept_written hwritten)
  | cons last newer ih =>
    rcases ih h.2 with hkept | ⟨later, cleanup, between, rfl, hcleaned⟩
    · rcases kept_step h.1 hkept with hkept | hcleaned
      · exact .inl hkept
      · exact .inr ⟨[], last, newer, rfl, hcleaned⟩
    · exact .inr ⟨last :: later, cleanup, between, rfl, hcleaned⟩

/-- A call makes no file but the log and, if it rotates the log, the new archive. -/
theorem lookup_step_eq_none {name : Bytes} (h : dir.lookup name = none)
    (hname : name ≠ e.call.log.name)
    (hgz : logger.Rotates dir e →
      name ≠ rotatedTo (dir.ensureOpen e.call.log) e.call.log e.now ++ ascii ".gz") :
    (logger.step dir e).2.lookup name = none := by
  have hspec := logger.step_spec dir e
  generalize logger.step dir e = r at hspec
  cases hspec with
  | disabled => exact h
  | written => rw [lookup_append, if_neg hname, lookup_ensureOpen_ne hname, h]
  | rotated long =>
    rw [lookup_append, if_neg hname, lookup_ensureOpen_ne hname]
    have hbefore : (beforeCleanup dir e).lookup name = none := by
      rw [beforeCleanup, lookup_rotate (exists_lookup_ensureOpen dir e.call.log),
        if_neg (hgz long), lookup_ensureOpen_ne hname, h, ite_self]
    rcases lookup_cleanupOld (beforeCleanup dir e) e.call.log.archiveSuffix name with
      hsame | ⟨hnone, -⟩
    · rw [hsame, hbefore]
    · exact hnone

/-! ## Names chosen from a directory without uncompressed leftovers -/

/-- No rotated log is there uncompressed. -/
def Compressed (dir : LogDir) : Prop :=
  ∀ (now : Int) (log : LogFile), dir.lookup (rotatedName now log.name) = none

theorem Compressed.step (h : Compressed dir) : Compressed (logger.step dir e).2 := by
  intro now log
  refine lookup_step_eq_none (h now log) (rotated_ne_name (decimalInt now) _ _) fun _ => ?_
  obtain ⟨stamp, hrotated⟩ := uniqueRotatedName_cases (dir.ensureOpen e.call.log) e.now
    e.call.log.name
  rw [rotatedTo, hrotated]
  exact (archive_ne (archive_of_rotated stamp _) (getLast?_rotated (decimalInt now) log)).symm

theorem Compressed.rotatedTo_eq (h : Compressed dir) (log : LogFile) (now : Int) :
    rotatedTo (dir.ensureOpen log) log now = rotatedName now log.name := by
  have hname : rotatedName now log.name ≠ log.name := rotated_ne_name (decimalInt now) _ _
  refine uniqueRotatedName_free ?_
  rw [LogDir.fileExists, lookup_ensureOpen_ne hname, h now log]
  rfl

theorem Compressed.freshName_iff (h : Compressed dir) :
    logger.FreshName dir e ↔ logger.FreshSecond dir e := by
  rw [FreshName, FreshSecond, h.rotatedTo_eq]

/-- Lines are kept in every run whose rotations take free names. From a directory without leftovers
these are the runs in which no log is rotated while there is an archive of it from this second. -/
theorem rotation_keeps_lines (logger : QueryLogger) (start : LogDir) (es : List LogEvent) :
    let m := logger.machine start
    (m.Along logger.FreshName es → logger.LinesKept start es) ∧
      (Compressed start → ((m.Along logger.FreshName es ∧ logger.LinesKept start es) ↔
        m.Along logger.FreshSecond es)) := by
  intro m
  refine ⟨linesKept_of_freshNames, fun hstart => ?_⟩
  have hiff : m.Along logger.FreshName es ↔ m.Along logger.FreshSecond es := by
    induction es with
    | nil => exact Iff.rfl
    | cons e es ih =>
      have hcompressed : Compressed (m.after es) :=
        m.invariant hstart (fun _ _ h => h.step) es
      exact and_congr hcompressed.freshName_iff ih
  exact ⟨fun h => hiff.mp h.1, fun h => ⟨hiff.mpr h, linesKept_of_freshNames (hiff.mpr h)⟩⟩

/-! ## One rotation a second -/

/-- The run has rotated the log in this second. -/
def RotatedIn (logger : QueryLogger) (start : LogDir) (es : List LogEvent) (log : LogFile)
    (now : Int) : Prop :=
  ∃ newer e older, es = newer ++ e :: older ∧
    logger.Rotates ((logger.machine start).after older) e ∧ e.call.log = log ∧ e.now = now

/-- No log is rotated twice in one second. -/
def OncePerSecond (logger : QueryLogger) (start : LogDir) (es : List LogEvent) : Prop :=
  ∀ newer e older, es = newer ++ e :: older →
    logger.Rotates ((logger.machine start).after older) e →
      ¬ logger.RotatedIn start older e.call.log e.now

theorem RotatedIn.cons {start : LogDir} {es : List LogEvent} {log : LogFile} {now : Int}
    (h : logger.RotatedIn start es log now) (e : LogEvent) :
    logger.RotatedIn start (e :: es) log now := by
  obtain ⟨newer, e', older, rfl, hrest⟩ := h
  exact ⟨e :: newer, e', older, rfl, hrest⟩

theorem underscore_notMem_decimalInt (n : Int) : 95 ∉ decimalInt n := by
  have hdigits : ∀ m, 95 ∉ decimal m := by
    intro m hmem
    have := (decimal_digit hmem).2
    simp at this
  rw [decimalInt]
  split_ifs
  · simp [ascii, hdigits]
  · exact hdigits _

theorem decimalInt_injective {m n : Int} (h : decimalInt m = decimalInt n) : m = n := by
  have hsign : ∀ k t, decimal k ≠ ascii "-" ++ t := by
    intro k t heq
    have hmem : (45 : UInt8) ∈ decimal k := by simp [heq, ascii]
    have := (decimal_digit hmem).1
    simp at this
  rw [decimalInt, decimalInt] at h
  split_ifs at h with hm hn hn
  · have := decimal_injective (List.append_cancel_left h)
    omega
  · exact absurd h.symm (hsign _ _)
  · exact absurd h (hsign _ _)
  · have := decimal_injective h
    omega

theorem rotatedName_injective {m n : Int} {log log' : LogFile}
    (h : rotatedName m log.name = rotatedName n log'.name) : m = n ∧ log = log' := by
  rw [rotatedName, rotatedName, List.append_assoc, List.append_assoc] at h
  obtain ⟨hstamp, hname⟩ := Marker.cut_first (underscore_notMem_decimalInt m)
    (underscore_notMem_decimalInt n) (.inl rfl) (.inl rfl) h
  exact ⟨decimalInt_injective hstamp, name_injective (List.append_cancel_left hname)⟩

/-- The archives of a second come from a rotation in that second. -/
theorem rotatedIn_of_archive {start : LogDir} (hstart : Compressed start)
    (hnone : ∀ (now : Int) (log : LogFile),
      start.lookup (rotatedName now log.name ++ ascii ".gz") = none) {es : List LogEvent}
    {log : LogFile} {now : Int}
    (h : ((logger.machine start).after es).lookup (rotatedName now log.name ++ ascii ".gz") ≠
      none) : logger.RotatedIn start es log now := by
  induction es with
  | nil => exact absurd (hnone now log) h
  | cons e es ih =>
    by_contra hnot
    have hcompressed : Compressed ((logger.machine start).after es) :=
      Machine.invariant _ hstart (fun _ _ hdir => hdir.step) es
    have hbefore : ((logger.machine start).after es).lookup
        (rotatedName now log.name ++ ascii ".gz") = none := by
      by_contra hexists
      exact hnot ((ih hexists).cons e)
    refine h (lookup_step_eq_none hbefore
      (archive_ne (archive_of_rotated (decimalInt now) log) (getLast?_name _)) ?_)
    intro hrotates harchive
    rw [hcompressed.rotatedTo_eq] at harchive
    obtain ⟨hnow, hlog⟩ := rotatedName_injective (List.append_cancel_right harchive)
    exact hnot ⟨[], e, es, rfl, hrotates, hlog.symm, hnow.symm⟩

theorem freshSecond_of_oncePerSecond {start : LogDir} (hstart : Compressed start)
    (hnone : ∀ (now : Int) (log : LogFile),
      start.lookup (rotatedName now log.name ++ ascii ".gz") = none) {es : List LogEvent}
    (h : logger.OncePerSecond start es) : (logger.machine start).Along logger.FreshSecond es := by
  induction es with
  | nil => trivial
  | cons e es ih =>
    refine ⟨fun hrotates => ?_, ih fun newer e' older hsplit =>
      h (e :: newer) e' older (by rw [hsplit]; rfl)⟩
    by_contra hexists
    refine h [] e es rfl hrotates (rotatedIn_of_archive hstart hnone fun hlookup => hexists ?_)
    rw [LogDir.fileExists, hlookup]
    rfl

/-! ## Two rotations in one second -/

theorem length_otherArchives_le (dir : LogDir) (suffix name : Bytes) :
    (dir.otherArchives suffix name).length ≤ dir.keys.length :=
  (List.length_filter_le ..).trans (List.length_filterMap_le ..)

/-- A query from one client, in one second. -/
def burstEvent (qname : Bytes) : LogEvent :=
  ⟨.logPass (ascii "10.0.0.1") (ascii "-") qname (ascii "A") (ascii "cache") [], 100, none⟩

/-- The second rotation takes the name of the first, and the first line is nowhere. -/
theorem rotation_loses_line :
    let logger : QueryLogger := ⟨1, true⟩
    let burst := [burstEvent (ascii "c"), burstEvent (ascii "b"), burstEvent (ascii "a")]
    let dir := (logger.machine ∅).after burst
    dir.keys = [ascii "pass.log", ascii "100_pass.log.gz"] ∧
      ¬ logger.FreshName ((logger.machine ∅).after burst.tail) (burstEvent (ascii "c")) ∧
      ¬ logger.LinesKept ∅ burst := by
  intro logger burst dir
  have hkeys : dir.keys = [ascii "pass.log", ascii "100_pass.log.gz"] := by decide +kernel
  refine ⟨hkeys, fun hfresh => ?_, fun h => ?_⟩
  · have hnone := hfresh ⟨rfl, by decide +kernel⟩
    revert hnone
    decide +kernel
  · rcases h [burstEvent (ascii "c"), burstEvent (ascii "b")] (burstEvent (ascii "a")) [] rfl
      (by decide +kernel) with ⟨name, -, text, htext, hline⟩ |
        ⟨later, cleanup, between, hsplit, -, -, name, -, -, -, hothers⟩
    · have hlost : ∀ name ∈ dir.keys, ((dir.lookup name).all fun text =>
          decide ¬ (burstEvent (ascii "a")).call.line none ++ [newline] <:+: text) = true := by
        decide +kernel
      have hmem : name ∈ dir.keys :=
        AList.mem_keys.mp (AList.lookup_isSome.mp (Option.isSome_of_eq_some htext))
      have hnot := hlost name hmem
      rw [htext, Option.all_some] at hnot
      exact of_decide_eq_true hnot hline
    · have hfew := hothers.trans (length_otherArchives_le ..)
      revert hfew
      rcases later with _ | ⟨_, _ | ⟨_, later⟩⟩
      · obtain ⟨rfl, rfl⟩ := List.cons.inj hsplit
        decide +kernel
      · obtain ⟨-, hsplit⟩ := List.cons.inj hsplit
        obtain ⟨rfl, rfl⟩ := List.cons.inj hsplit
        decide +kernel
      · simp at hsplit

end

end QueryLogger

end Gravastar
