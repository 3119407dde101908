import Gravastar.Lib.Marker
import Gravastar.RotatingLog

/-!
# Names of rotated logs

A rotated log keeps the name of its log behind the last underscore; `gzip` puts
its own ending behind that.
-/

namespace Gravastar

namespace LogName

variable (N : LogName)

/-- The end of the name of a rotated log. -/
def rotatedSuffix : Bytes := ascii "_" ++ N.text

/-- The end of the name of a compressed one. -/
def archiveSuffix : Bytes := ascii "_" ++ N.text ++ ascii ".gz"

/-- The file is a rotated log of this name, compressed or not. -/
def isRotated (name : Bytes) : Bool :=
  N.rotatedSuffix.isSuffixOf name || N.archiveSuffix.isSuffixOf name

/-- The cleanup counts the file. -/
def counts (name : Bytes) : Bool := (LogDir.archiveEntry N.archiveSuffix name).isSome

variable {N} {N' : LogName} {name : Bytes}

theorem isRotated_iff :
    N.isRotated name = true ↔
      ∃ stamp, name = stamp ++ N.rotatedSuffix ∨
        name = stamp ++ N.rotatedSuffix ++ ascii ".gz" := by
  have hsuffix : N.archiveSuffix = N.rotatedSuffix ++ ascii ".gz" := rfl
  rw [isRotated, Bool.or_eq_true, List.isSuffixOf_iff_suffix, List.isSuffixOf_iff_suffix, hsuffix]
  constructor
  · rintro (⟨stamp, rfl⟩ | ⟨stamp, rfl⟩)
    · exact ⟨stamp, .inl rfl⟩
    · exact ⟨stamp, .inr (List.append_assoc ..).symm⟩
  · rintro ⟨stamp, rfl | rfl⟩
    · exact .inl ⟨stamp, rfl⟩
    · exact .inr ⟨stamp, (List.append_assoc ..).symm⟩

theorem isRotated_plain (stamp : Bytes) : N.isRotated (stamp ++ N.rotatedSuffix) = true :=
  isRotated_iff.mpr ⟨stamp, .inl rfl⟩

theorem isRotated_archive (stamp : Bytes) :
    N.isRotated (stamp ++ N.rotatedSuffix ++ ascii ".gz") = true :=
  isRotated_iff.mpr ⟨stamp, .inr rfl⟩

theorem isRotated_of_archiveSuffix (h : N.archiveSuffix <:+ name) : N.isRotated name = true := by
  obtain ⟨stamp, rfl⟩ := h
  exact isRotated_iff.mpr ⟨stamp, .inr (List.append_assoc ..).symm⟩

/-- A log is not one of the rotated logs. -/
theorem not_isRotated_text : N.isRotated N'.text = false := by
  rw [Bool.eq_false_iff]
  intro h
  obtain ⟨stamp, htext | htext⟩ := isRotated_iff.mp h
  all_goals
    apply N'.noUnderscore
    rw [htext]
    simp [rotatedSuffix, ascii]

theorem ne_text_of_isRotated (h : N.isRotated name = true) : name ≠ N'.text := by
  rintro rfl
  rw [not_isRotated_text] at h
  cases h

/-- Behind the last underscore stands the name of the log. -/
theorem eq_of_rotatedSuffix {stamp stamp' : Bytes}
    (h : stamp ++ N.rotatedSuffix = stamp' ++ N'.rotatedSuffix) : N = N' := by
  have hreverse := congrArg List.reverse h
  have hcut : ∀ (s : Bytes) (M : LogName),
      (s ++ M.rotatedSuffix).reverse = M.text.reverse ++ 95 :: s.reverse := by
    intro s M
    simp [rotatedSuffix, ascii]
  rw [hcut, hcut] at hreverse
  have hnames := (Marker.cut_first (by simpa using N.noUnderscore) (by simpa using N'.noUnderscore)
    (.inl rfl) (.inl rfl) hreverse).1
  exact LogName.ext (List.reverse_injective hnames)

theorem getLast?_rotated (stamp : Bytes) :
    (stamp ++ N.rotatedSuffix).getLast? = some 103 := by
  have hne : N.text ≠ [] := by
    intro hnil
    have hlast := N.endsInG
    rw [hnil] at hlast
    cases hlast
  rw [rotatedSuffix, ← List.append_assoc, List.getLast?_append_of_ne_nil _ hne, N.endsInG]

theorem getLast?_gz (s : Bytes) : (s ++ ascii ".gz").getLast? = some 122 := by
  rw [List.getLast?_append_of_ne_nil _ (by decide)]
  decide

/-- A rotated log is of one name only. -/
theorem eq_of_isRotated (h : N.isRotated name = true) (h' : N'.isRotated name = true) :
    N = N' := by
  obtain ⟨stamp, hname⟩ := isRotated_iff.mp h
  obtain ⟨stamp', hname'⟩ := isRotated_iff.mp h'
  rcases hname with rfl | rfl <;> rcases hname' with heq | heq
  · exact eq_of_rotatedSuffix heq
  · have hlast := congrArg List.getLast? heq
    rw [getLast?_rotated, getLast?_gz] at hlast
    cases hlast
  · have hlast := congrArg List.getLast? heq
    rw [getLast?_rotated, getLast?_gz] at hlast
    cases hlast
  · exact eq_of_rotatedSuffix (List.append_cancel_right heq)

end LogName

namespace LogDir

variable {dir : LogDir} {name : Bytes}

theorem lookup_openNamed_ne {log : Bytes} (h : name ≠ log) :
    (dir.openNamed log).lookup name = dir.lookup name := by
  unfold openNamed
  split_ifs
  · rfl
  · exact AList.lookup_insert_ne h

theorem lookup_openNamed (dir : LogDir) (log : Bytes) :
    (dir.openNamed log).lookup log = some ((dir.lookup log).getD []) := by
  unfold openNamed fileExists
  cases h : dir.lookup log with
  | some text => simpa using h
  | none => simp

theorem lookup_appendTo_ne {log : Bytes} (h : name ≠ log) (text : Bytes) :
    (dir.appendTo log text).lookup name = dir.lookup name := AList.lookup_insert_ne h

end LogDir

end Gravastar
