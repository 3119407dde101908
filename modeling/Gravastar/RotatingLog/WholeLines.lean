import Gravastar.Config
import Gravastar.QueryLogger.Rotation

/-!
# The files of a rotated log hold whole lines

Rotation, compression and cleanup move and remove files, and only a write adds
to a text. So every file of the directory holds lines that were written to one
log one after the other, and the log itself the newest of these. An archive
that takes the name of another, or a `gzip` that fails, does not change that.
-/

namespace Gravastar

namespace LogDir

/-- Where `lines` have been written to the logs: every file has some of the lines of one log, which
stand together in it, and a log has the last ones of its own. -/
structure HoldsLines (lines : LogName → List Bytes) (dir : LogDir) : Prop where
  log : ∀ (N : LogName) text, dir.lookup N.text = some text →
    ∃ part, part <:+ lines N ∧ text = joinLines part
  file : ∀ name text, dir.lookup name = some text →
    ∃ N part, part <:+: lines N ∧ text = joinLines part

variable {lines : LogName → List Bytes} {dir : LogDir}

theorem holdsLines_empty (lines : LogName → List Bytes) : HoldsLines lines ∅ where
  log N text h := by simp at h
  file name text h := by simp at h

/-- Fewer files. -/
theorem HoldsLines.of_lookup {dir' : LogDir} (h : dir.HoldsLines lines)
    (hsub : ∀ name text, dir'.lookup name = some text → dir.lookup name = some text) :
    dir'.HoldsLines lines :=
  ⟨fun N text htext => h.log N text (hsub _ _ htext),
    fun name text htext => h.file name text (hsub _ _ htext)⟩

theorem HoldsLines.openNamed (h : dir.HoldsLines lines) (N : LogName) :
    (dir.openNamed N.text).HoldsLines lines := by
  constructor
  · intro M text htext
    by_cases hname : M.text = N.text
    · rw [hname, lookup_openNamed, Option.some.injEq] at htext
      cases hold : dir.lookup N.text with
      | none =>
        rw [hold] at htext
        exact ⟨[], List.nil_suffix, htext.symm⟩
      | some old =>
        rw [hold] at htext
        exact htext ▸ h.log M old (hname ▸ hold)
    · exact h.log M text (lookup_openNamed_ne hname ▸ htext)
  · intro name text htext
    by_cases hname : name = N.text
    · rw [hname, lookup_openNamed, Option.some.injEq] at htext
      cases hold : dir.lookup N.text with
      | none =>
        rw [hold] at htext
        exact ⟨N, [], List.nil_infix, htext.symm⟩
      | some old =>
        rw [hold] at htext
        exact htext ▸ h.file _ old hold
    · exact h.file name text (lookup_openNamed_ne hname ▸ htext)

/-- A file gets a new name that is not one of a log. -/
theorem HoldsLines.rename (h : dir.HoldsLines lines) (source : Bytes) {target : Bytes}
    (htarget : ∀ N : LogName, N.text ≠ target) : (dir.rename source target).HoldsLines lines := by
  cases hsource : dir.lookup source with
  | none =>
    unfold LogDir.rename
    rw [hsource]
    exact h
  | some moved =>
    constructor
    · intro N text htext
      rw [lookup_rename hsource, if_neg (htarget N)] at htext
      split_ifs at htext
      exact h.log N text htext
    · intro name text htext
      rw [lookup_rename hsource] at htext
      split_ifs at htext with hnew
      · exact Option.some.inj htext ▸ h.file source moved hsource
      · exact h.file name text htext

theorem HoldsLines.cleanupOld (h : dir.HoldsLines lines) (suffix : Bytes) :
    (dir.cleanupOld suffix).HoldsLines lines := by
  refine h.of_lookup fun name text htext => ?_
  rcases lookup_cleanupOld dir suffix name with hsame | ⟨hnone, -⟩
  · rwa [hsame] at htext
  · rw [hnone] at htext
    cases htext

/-- The lines of the logs with one more in this log. -/
def withLine (lines : LogName → List Bytes) (N : LogName) (line : Bytes) (M : LogName) :
    List Bytes :=
  if M.text = N.text then lines M ++ [line] else lines M

theorem joinLines_concat (part : List Bytes) (line : Bytes) :
    joinLines (part ++ [line]) = joinLines part ++ (line ++ [newline]) := by
  simp [joinLines]

/-- Where a line is appended, it is the last one of its log. -/
theorem HoldsLines.appendTo (h : dir.HoldsLines lines) (N : LogName) (line : Bytes) :
    (dir.appendTo N.text (line ++ [newline])).HoldsLines (withLine lines N line) := by
  have hwrite : ∀ part, part <:+ lines N → part ++ [line] <:+ withLine lines N line N := by
    rintro part ⟨front, hfront⟩
    unfold withLine
    rw [if_pos rfl, ← hfront, List.append_assoc]
    exact List.suffix_append front (part ++ [line])
  have hgrow : ∀ M part, part <:+: lines M → part <:+: withLine lines N line M := by
    rintro M part hpart
    unfold withLine
    split_ifs
    · exact hpart.trans (List.prefix_append _ _).isInfix
    · exact hpart
  have hnew : ∀ text, (dir.appendTo N.text (line ++ [newline])).lookup N.text = some text →
      ∃ part, part <:+ withLine lines N line N ∧ text = joinLines part := by
    intro text htext
    unfold LogDir.appendTo at htext
    rw [AList.lookup_insert, Option.some.injEq] at htext
    cases hold : dir.lookup N.text with
    | none =>
      rw [hold] at htext
      exact ⟨[] ++ [line], hwrite [] List.nil_suffix, by rw [← htext, joinLines_concat]; rfl⟩
    | some old =>
      obtain ⟨part, hpart, rfl⟩ := h.log N old hold
      rw [hold] at htext
      exact ⟨part ++ [line], hwrite part hpart, by rw [← htext, joinLines_concat]; rfl⟩
  constructor
  · intro M text htext
    by_cases hname : M.text = N.text
    · obtain rfl := LogName.ext hname
      exact hnew text htext
    · obtain ⟨part, hpart, hjoin⟩ := h.log M text (lookup_appendTo_ne hname _ ▸ htext)
      refine ⟨part, ?_, hjoin⟩
      unfold withLine
      rwa [if_neg hname]
  · intro name text htext
    by_cases hname : name = N.text
    · subst hname
      obtain ⟨part, hpart, hjoin⟩ := hnew text htext
      exact ⟨N, part, hpart.isInfix, hjoin⟩
    · obtain ⟨M, part, hpart, hjoin⟩ := h.file name text (lookup_appendTo_ne hname _ ▸ htext)
      exact ⟨M, part, hgrow M part hpart, hjoin⟩

end LogDir

namespace RotatingLogger
open LogDir

variable {ε : Type} (L : RotatingLogger ε)

/-- The lines that a run has written to a log, the oldest first. -/
def written : List ε → LogName → List Bytes
  | [], _ => []
  | e :: es, N =>
    if L.enabled then withLine (written es) (L.write e).log (L.write e).line N else written es N

/-- A rotation takes the log away under a name that no log has. -/
theorem holdsLines_rotate {lines : LogName → List Bytes} {dir : LogDir}
    (h : dir.HoldsLines lines) (w : LogWrite) : (RotatingLogger.rotate dir w).HoldsLines lines := by
  obtain ⟨stamp, hstamp⟩ : ∃ stamp, dir.uniqueRotatedName w.now.toInt w.log.text =
      stamp ++ w.log.rotatedSuffix := by
    obtain ⟨stamp, hstamp⟩ := uniqueRotatedName_cases dir w.now.toInt w.log.text
    exact ⟨stamp, hstamp.trans (List.append_assoc ..)⟩
  have hrotated : ∀ N : LogName, N.text ≠ dir.uniqueRotatedName w.now.toInt w.log.text := by
    intro N
    rw [hstamp]
    exact (LogName.ne_text_of_isRotated (LogName.isRotated_plain stamp)).symm
  have harchive : ∀ N : LogName,
      N.text ≠ dir.uniqueRotatedName w.now.toInt w.log.text ++ ascii ".gz" := by
    intro N
    rw [hstamp]
    exact (LogName.ne_text_of_isRotated (LogName.isRotated_archive stamp)).symm
  unfold RotatingLogger.rotate LogDir.tryCompress LogDir.compressFile
  dsimp only
  split_ifs
  · exact (h.rename _ hrotated).rename _ harchive
  · exact h.rename _ hrotated

theorem holdsLines_step {lines : LogName → List Bytes} {dir : LogDir}
    (h : dir.HoldsLines lines) (e : ε) :
    (L.step dir e).2.HoldsLines
      fun N =>
        if L.enabled then withLine lines (L.write e).log (L.write e).line N else lines N := by
  unfold RotatingLogger.step writeLine
  cases L.enabled with
  | false => exact h
  | true =>
    have hneeded : (L.rotateIfNeeded (dir.openNamed (L.write e).log.text) (L.write e)).HoldsLines
        lines := by
      unfold rotateIfNeeded
      split
      · exact h.openNamed _
      · split_ifs
        · exact h.openNamed _
        · exact (holdsLines_rotate (h.openNamed _) _).cleanupOld _
    exact (hneeded.openNamed _).appendTo _ _

/-- Every file that a run leaves has whole lines, of one log and in their order. -/
theorem holdsLines_after (es : List ε) : (L.machine.after es).HoldsLines (L.written es) := by
  induction es with
  | nil => exact holdsLines_empty _
  | cons e es ih => exact holdsLines_step L ih e

/-- A write ends the log with its line. -/
theorem exists_lookup_step {L : RotatingLogger ε} (h : L.enabled = true) (dir : LogDir) (e : ε) :
    ∃ front, (L.step dir e).2.lookup (L.write e).log.text =
      some (front ++ ((L.write e).line ++ [newline])) := by
  unfold RotatingLogger.step writeLine
  rw [h]
  exact ⟨_, AList.lookup_insert _⟩

end RotatingLogger

end Gravastar
