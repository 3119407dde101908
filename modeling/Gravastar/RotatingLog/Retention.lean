import Gravastar.QueryLogger.Rotation
import Mathlib.Data.Finset.Card

/-!
# How many rotated logs stay

The cleanup keeps the ten newest of the archives that it sees. It sees the
compressed ones with a positive time in their name, and takes that time for
their age.
-/

namespace Gravastar

/-! ## Rotated logs in a directory -/

namespace LogDir

/-- The rotated logs of a name. -/
def rotatedFiles (dir : LogDir) (N : LogName) : Finset Bytes :=
  (dir.keys.filter N.isRotated).toFinset

variable {dir dir' : LogDir} {N : LogName} {name : Bytes}

theorem mem_rotatedFiles :
    name ∈ dir.rotatedFiles N ↔ (dir.lookup name).isSome = true ∧ N.isRotated name = true := by
  rw [rotatedFiles, List.mem_toFinset, List.mem_filter, ← AList.mem_keys, AList.lookup_isSome]

theorem rotatedFiles_congr
    (h : ∀ name, N.isRotated name = true → dir.lookup name = dir'.lookup name) :
    dir.rotatedFiles N = dir'.rotatedFiles N := by
  ext name
  grind [mem_rotatedFiles]

/-- Opening a log and writing to it does not touch rotated logs. -/
theorem rotatedFiles_write (dir : LogDir) (log : LogName) (text : Bytes) :
    ((dir.openNamed log.text).appendTo log.text text).rotatedFiles N = dir.rotatedFiles N := by
  apply rotatedFiles_congr
  intro name hname
  have hne : name ≠ log.text := LogName.ne_text_of_isRotated hname
  rw [lookup_appendTo_ne hne, lookup_openNamed_ne hne]

end LogDir

namespace RotatingLogger
open LogDir

/-- The name that a log gets when it is rotated now. -/
def rotatedTo (dir : LogDir) (w : LogWrite) : Bytes :=
  (dir.openNamed w.log.text).uniqueRotatedName w.now.toInt w.log.text

/-- The file that the rotation makes. -/
def newFile (dir : LogDir) (w : LogWrite) : Bytes :=
  if w.compresses then rotatedTo dir w ++ ascii ".gz" else rotatedTo dir w

/-- The files as the cleanup finds them. -/
def beforeCleanup (dir : LogDir) (w : LogWrite) : LogDir := rotate (dir.openNamed w.log.text) w

section
variable {dir : LogDir} {w : LogWrite} {N : LogName} {name : Bytes}

theorem exists_rotatedTo (dir : LogDir) (w : LogWrite) :
    ∃ stamp, rotatedTo dir w = stamp ++ w.log.rotatedSuffix := by
  obtain ⟨stamp, hstamp⟩ := uniqueRotatedName_cases (dir.openNamed w.log.text) w.now.toInt
    w.log.text
  exact ⟨stamp, hstamp.trans (List.append_assoc ..)⟩

theorem isRotated_rotatedTo (dir : LogDir) (w : LogWrite) :
    w.log.isRotated (rotatedTo dir w) = true := by
  obtain ⟨stamp, hstamp⟩ := exists_rotatedTo dir w
  exact hstamp ▸ LogName.isRotated_plain stamp

theorem isRotated_newFile (dir : LogDir) (w : LogWrite) :
    w.log.isRotated (newFile dir w) = true := by
  obtain ⟨stamp, hstamp⟩ := exists_rotatedTo dir w
  unfold newFile
  split_ifs
  · exact hstamp ▸ LogName.isRotated_archive stamp
  · exact isRotated_rotatedTo dir w

/-- The rotation moves the log to the new file. -/
theorem lookup_beforeCleanup (hnew : name ≠ newFile dir w) :
    (beforeCleanup dir w).lookup name =
      if name = w.log.text ∨ name = rotatedTo dir w then none else dir.lookup name := by
  have hopen := lookup_openNamed dir w.log.text
  have hmoved : ((dir.openNamed w.log.text).rename w.log.text (rotatedTo dir w)).lookup
      (rotatedTo dir w) = some ((dir.lookup w.log.text).getD []) := by
    rw [lookup_rename hopen, if_pos rfl]
  unfold beforeCleanup rotate tryCompress compressFile
  dsimp only
  rw [← rotatedTo]
  unfold newFile at hnew
  have hsame : name ≠ w.log.text → (dir.openNamed w.log.text).lookup name = dir.lookup name :=
    lookup_openNamed_ne
  split_ifs at hnew ⊢ with hcompress
  · rw [lookup_rename hmoved, if_neg hnew, lookup_rename hopen]
    grind
  · rw [lookup_rename hmoved, if_neg hnew, lookup_rename hopen]
    grind
  · rw [lookup_rename hopen]
    grind
  · rw [lookup_rename hopen]
    grind

theorem mem_beforeCleanup (h : name ∈ (beforeCleanup dir w).rotatedFiles N) :
    name = newFile dir w ∨ name ∈ dir.rotatedFiles N := by
  obtain ⟨hexists, hrotated⟩ := mem_rotatedFiles.mp h
  by_cases hnew : name = newFile dir w
  · exact .inl hnew
  · rw [lookup_beforeCleanup hnew] at hexists
    split_ifs at hexists
    · cases hexists
    · exact .inr (mem_rotatedFiles.mpr ⟨hexists, hrotated⟩)

/-- At most one more. -/
theorem card_beforeCleanup_le (dir : LogDir) (w : LogWrite) (N : LogName) :
    ((beforeCleanup dir w).rotatedFiles N).card ≤ (dir.rotatedFiles N).card + 1 := by
  have hsubset : (beforeCleanup dir w).rotatedFiles N ⊆
      insert (newFile dir w) (dir.rotatedFiles N) := by
    intro name hname
    exact Finset.mem_insert.mpr (mem_beforeCleanup hname)
  exact (Finset.card_le_card hsubset).trans (Finset.card_insert_le _ _)

/-- The rotated logs of other names stay. -/
theorem rotatedFiles_beforeCleanup_ne (h : N ≠ w.log) :
    (beforeCleanup dir w).rotatedFiles N = dir.rotatedFiles N := by
  apply rotatedFiles_congr
  intro name hname
  have hother : ∀ other, w.log.isRotated other = true → name ≠ other := by
    rintro other hrotated rfl
    exact h (LogName.eq_of_isRotated hname hrotated)
  have htext : name ≠ w.log.text := LogName.ne_text_of_isRotated hname
  rw [lookup_beforeCleanup (hother _ (isRotated_newFile dir w)), if_neg]
  exact not_or.mpr ⟨htext, hother _ (isRotated_rotatedTo dir w)⟩

end

end RotatingLogger

/-! ## What the cleanup removes -/

namespace LogDir

/-- The order in which archives are removed: by time, then by name. -/
def Precedes (a b : Int × Bytes) : Prop := a.1 < b.1 ∨ a.1 = b.1 ∧ a.2 ≤ b.2

instance : DecidableRel Precedes := fun a b =>
  inferInstanceAs (Decidable (a.1 < b.1 ∨ a.1 = b.1 ∧ a.2 ≤ b.2))

theorem precedes_refl (a : Int × Bytes) : Precedes a a := .inr ⟨rfl, List.le_refl _⟩

instance : IsTrans (Int × Bytes) Precedes where
  trans a b c hab hbc := by
    unfold Precedes at *
    rcases hab with hab | ⟨hab, hle⟩ <;> rcases hbc with hbc | ⟨hbc, hle'⟩
    · exact .inl (hab.trans hbc)
    · exact .inl (hbc ▸ hab)
    · exact .inl (hab ▸ hbc)
    · exact .inr ⟨hab.trans hbc, List.le_trans hle hle'⟩

instance : Std.Total (Precedes) where
  total a b := by
    unfold Precedes
    rcases lt_trichotomy a.1 b.1 with hlt | heq | hgt
    · exact .inl (.inl hlt)
    · exact (List.le_total a.2 b.2).imp (fun h => .inr ⟨heq, h⟩) fun h => .inr ⟨heq.symm, h⟩
    · exact .inr (.inl hgt)

theorem precedes_antisymm {a b : Int × Bytes} (hab : Precedes a b) (hba : Precedes b a) :
    a = b := by
  unfold Precedes at hab hba
  have htime : a.1 = b.1 := by omega
  have hname : a.2 = b.2 :=
    List.le_antisymm (hab.resolve_left (by omega)).2 (hba.resolve_left (by omega)).2
  exact Prod.ext htime hname

/-- What the cleanup reads from a name. -/
def stamp (name : Bytes) : Int × Bytes := (extractLongLong (name.takeWhile (· ≠ 95)), name)

theorem archiveEntry_stamp {suffix name : Bytes} {entry : Int × Bytes}
    (h : archiveEntry suffix name = some entry) : entry = stamp name := by
  unfold archiveEntry at h
  dsimp only at h
  split_ifs at h
  exact (Option.some.inj h).symm

variable {dir : LogDir} {N : LogName} {name : Bytes}

theorem mem_entries {entry : Int × Bytes} :
    entry ∈ dir.entries N.archiveSuffix ↔
      ∃ name ∈ dir.rotatedFiles N, N.counts name = true ∧ entry = stamp name := by
  rw [entries, List.mem_filterMap]
  constructor
  · rintro ⟨name, hname, hentry⟩
    have hrotated : N.isRotated name = true :=
      LogName.isRotated_of_archiveSuffix (archiveEntry_eq_some hentry).2
    have hexists : (dir.lookup name).isSome = true :=
      AList.lookup_isSome.mpr (AList.mem_keys.mpr hname)
    exact ⟨name, mem_rotatedFiles.mpr ⟨hexists, hrotated⟩, Option.isSome_of_eq_some hentry,
      archiveEntry_stamp hentry⟩
  · rintro ⟨name, hname, hcounts, rfl⟩
    obtain ⟨entry, hentry⟩ := Option.isSome_iff_exists.mp hcounts
    refine ⟨name, AList.mem_keys.mp (AList.lookup_isSome.mp (mem_rotatedFiles.mp hname).1), ?_⟩
    rw [hentry, archiveEntry_stamp hentry]

/-- The rotated logs that the cleanup counts. -/
def countedFiles (dir : LogDir) (N : LogName) : Finset Bytes :=
  (dir.rotatedFiles N).filter fun name => N.counts name = true

theorem length_entries (dir : LogDir) (N : LogName) :
    (dir.entries N.archiveSuffix).length = (dir.countedFiles N).card := by
  have hnames : ((dir.entries N.archiveSuffix).map Prod.snd).toFinset = dir.countedFiles N := by
    ext name
    rw [List.mem_toFinset, List.mem_map, countedFiles, Finset.mem_filter]
    constructor
    · rintro ⟨entry, hentry, rfl⟩
      obtain ⟨name, hname, hcounts, rfl⟩ := mem_entries.mp hentry
      exact ⟨hname, hcounts⟩
    · rintro ⟨hname, hcounts⟩
      exact ⟨stamp name, mem_entries.mpr ⟨name, hname, hcounts, rfl⟩, rfl⟩
  rw [← hnames, List.toFinset_card_of_nodup (nodup_entries dir _), List.length_map]

theorem cleanupOld_few (h : (dir.countedFiles N).card ≤ 10) :
    dir.cleanupOld N.archiveSuffix = dir := by
  rw [← length_entries] at h
  rw [cleanupOld]
  exact if_pos h

/-- Of eleven archives the first one goes. -/
theorem cleanupOld_eleven (h : (dir.countedFiles N).card = 11) :
    ∃ first ∈ dir.countedFiles N,
      (∀ name ∈ dir.countedFiles N, Precedes (stamp first) (stamp name)) ∧
        dir.cleanupOld N.archiveSuffix = dir.erase first := by
  rw [← length_entries] at h
  have hsorted : ((dir.entries N.archiveSuffix).insertionSort Precedes).Pairwise Precedes :=
    List.pairwise_insertionSort _ _
  have hmem : ∀ entry, entry ∈ (dir.entries N.archiveSuffix).insertionSort Precedes ↔
      entry ∈ dir.entries N.archiveSuffix := fun entry => List.mem_insertionSort _
  have hclean : dir.cleanupOld N.archiveSuffix =
      (((dir.entries N.archiveSuffix).insertionSort Precedes).take 1).foldl
        (fun dir entry => dir.erase entry.2) dir := by
    rw [cleanupOld, h]
    rfl
  cases hlist : (dir.entries N.archiveSuffix).insertionSort Precedes with
  | nil =>
    have hlength := List.length_insertionSort Precedes (dir.entries N.archiveSuffix)
    rw [hlist, h] at hlength
    cases hlength
  | cons entry rest =>
    rw [hlist] at hsorted hmem hclean
    obtain ⟨first, hfirst, hcounts, rfl⟩ := mem_entries.mp ((hmem entry).mp List.mem_cons_self)
    refine ⟨first, Finset.mem_filter.mpr ⟨hfirst, hcounts⟩, ?_, hclean⟩
    intro name hname
    obtain ⟨hrotated, hcounted⟩ := Finset.mem_filter.mp hname
    have hentry := (hmem (stamp name)).mpr (mem_entries.mpr ⟨name, hrotated, hcounted, rfl⟩)
    rcases List.mem_cons.mp hentry with heq | hrest
    · exact heq ▸ precedes_refl _
    · exact List.rel_of_pairwise_cons hsorted hrest

end LogDir

/-! ## One call -/

namespace RotatingLogger
open LogDir

variable {ε : Type} (L : RotatingLogger ε)

/-- The call finds the log too long. -/
def Rotates (dir : LogDir) (e : ε) : Prop :=
  L.enabled = true ∧ L.maxBytes ≤ ((dir.lookup (L.write e).log.text).getD []).length

instance (dir : LogDir) (e : ε) : Decidable (L.Rotates dir e) := inferInstanceAs (Decidable (_ ∧ _))

variable {L} {dir : LogDir} {e : ε} {N : LogName}

theorem rotatedFiles_step_rotates (h : L.Rotates dir e) (N : LogName) :
    (L.step dir e).2.rotatedFiles N =
      ((beforeCleanup dir (L.write e)).cleanupOld
        (L.write e).log.archiveSuffix).rotatedFiles N := by
  have hlong : ¬ ((dir.lookup (L.write e).log.text).getD []).length < L.maxBytes := not_lt.mpr h.2
  have hneeded : L.rotateIfNeeded (dir.openNamed (L.write e).log.text) (L.write e) =
      (beforeCleanup dir (L.write e)).cleanupOld (L.write e).log.archiveSuffix := by
    rw [rotateIfNeeded, lookup_openNamed]
    exact if_neg hlong
  rw [step, writeLine, h.1, hneeded]
  exact rotatedFiles_write _ _ _

theorem rotatedFiles_step_short (h : ¬ L.Rotates dir e) (N : LogName) :
    (L.step dir e).2.rotatedFiles N = dir.rotatedFiles N := by
  rw [step, writeLine]
  cases hon : L.enabled with
  | false => rfl
  | true =>
    have hshort : ((dir.lookup (L.write e).log.text).getD []).length < L.maxBytes := by
      by_contra hlong
      exact h ⟨hon, not_lt.mp hlong⟩
    have hneeded : L.rotateIfNeeded (dir.openNamed (L.write e).log.text) (L.write e) =
        dir.openNamed (L.write e).log.text := by
      rw [rotateIfNeeded, lookup_openNamed]
      exact if_pos hshort
    rw [hneeded]
    refine (rotatedFiles_write _ _ _).trans (rotatedFiles_congr fun name hname => ?_)
    exact lookup_openNamed_ne (LogName.ne_text_of_isRotated hname)

/-- A call leaves the rotated logs of other names alone. -/
theorem rotatedFiles_step_ne (h : N ≠ (L.write e).log) :
    (L.step dir e).2.rotatedFiles N = dir.rotatedFiles N := by
  by_cases hrotates : L.Rotates dir e
  · rw [rotatedFiles_step_rotates hrotates]
    refine (rotatedFiles_congr fun name hname => ?_).trans (rotatedFiles_beforeCleanup_ne h)
    rcases lookup_cleanupOld (beforeCleanup dir (L.write e)) (L.write e).log.archiveSuffix name with
      hsame | ⟨-, hsuffix, -⟩
    · exact hsame
    · have hrotated := LogName.isRotated_of_archiveSuffix hsuffix
      exact absurd (LogName.eq_of_isRotated hname hrotated) h
  · exact rotatedFiles_step_short hrotates N

variable (L)

/-! ## Runs -/

/-- The rotated logs that a run has made of a name, the newest first. -/
def made (N : LogName) : List ε → List Bytes
  | [] => []
  | e :: es =>
    if (L.write e).log.text = N.text ∧ L.Rotates (L.machine.after es) e then
      newFile (L.machine.after es) (L.write e) :: made N es
    else made N es

/-- The last time that `a` was made is no later than the last time that `b` was. -/
def NoLater (es : List ε) (N : LogName) (a b : Bytes) : Prop :=
  (L.made N es).idxOf b ≤ (L.made N es).idxOf a

/-- The rotated logs that the cleanup finds after a run, when the log of the call is rotated. -/
def found (older : List ε) (e : ε) : Finset Bytes :=
  (beforeCleanup (L.machine.after older) (L.write e)).rotatedFiles (L.write e).log

/-- The rotated logs that the call leaves. -/
def kept (older : List ε) (e : ε) : Finset Bytes :=
  (L.step (L.machine.after older) e).2.rotatedFiles (L.write e).log

/-- If the call rotates its log, it leaves at most ten rotated logs, and none that was made before
one that it removes. -/
def RetainsTen (older : List ε) (e : ε) : Prop :=
  L.Rotates (L.machine.after older) e → (L.kept older e).card ≤ 10 ∧
    ∀ a ∈ L.found older e, a ∉ L.kept older e → ∀ b ∈ L.kept older e,
      L.NoLater (e :: older) (L.write e).log a b

/-- There are no more than ten rotated logs, or all are counted and the first by the time in its
name is the one made first. -/
def Orderly (older : List ε) (e : ε) : Prop :=
  L.Rotates (L.machine.after older) e → (L.found older e).card ≤ 10 ∨
    (∀ a ∈ L.found older e, (L.write e).log.counts a = true) ∧
      ∀ a ∈ L.found older e, (∀ b ∈ L.found older e, Precedes (stamp a) (stamp b)) →
        ∀ b ∈ L.found older e, L.NoLater (e :: older) (L.write e).log a b

variable {L} {older : List ε}

theorem kept_eq (h : L.Rotates (L.machine.after older) e) :
    L.kept older e =
      ((beforeCleanup (L.machine.after older) (L.write e)).cleanupOld
        (L.write e).log.archiveSuffix).rotatedFiles (L.write e).log :=
  rotatedFiles_step_rotates h _

/-- With at most ten counted rotated logs nothing is removed. -/
theorem kept_eq_found (h : L.Rotates (L.machine.after older) e)
    (hfew : ((L.found older e).filter fun a => (L.write e).log.counts a = true).card ≤ 10) :
    L.kept older e = L.found older e := by
  rw [kept_eq h, cleanupOld_few hfew]
  rfl

/-- With eleven counted ones the first goes. -/
theorem kept_eq_erase (h : L.Rotates (L.machine.after older) e)
    (hall : ∀ a ∈ L.found older e, (L.write e).log.counts a = true)
    (hcard : (L.found older e).card = 11) :
    ∃ first ∈ L.found older e, (∀ b ∈ L.found older e, Precedes (stamp first) (stamp b)) ∧
      L.kept older e = (L.found older e).erase first := by
  have hcounted : (beforeCleanup (L.machine.after older) (L.write e)).countedFiles
      (L.write e).log = L.found older e := Finset.filter_true_of_mem hall
  obtain ⟨first, hfirst, hleast, hclean⟩ := cleanupOld_eleven (hcounted ▸ hcard)
  rw [hcounted] at hfirst hleast
  refine ⟨first, hfirst, hleast, ?_⟩
  rw [kept_eq h, hclean]
  ext name
  rw [Finset.mem_erase, mem_rotatedFiles, found, mem_rotatedFiles]
  by_cases hname : name = first
  · subst hname
    rw [AList.lookup_erase]
    simp
  · rw [AList.lookup_erase_ne hname]
    simp [hname]

/-- From at most ten rotated logs, a call retains ten exactly if it is orderly. -/
theorem retainsTen_iff_orderly
    (hfew : ((L.machine.after older).rotatedFiles (L.write e).log).card ≤ 10) :
    L.RetainsTen older e ↔ L.Orderly older e := by
  refine forall_congr' fun hrotates => ?_
  have hcard : (L.found older e).card ≤ 11 :=
    (card_beforeCleanup_le _ _ _).trans (Nat.succ_le_succ hfew)
  have hcounted := Finset.card_filter_le (L.found older e)
    fun a => (L.write e).log.counts a = true
  by_cases hten : (L.found older e).card ≤ 10
  · rw [kept_eq_found hrotates (hcounted.trans hten)]
    exact iff_of_true ⟨hten, fun a ha hnot => absurd ha hnot⟩ (.inl hten)
  · have heleven : (L.found older e).card = 11 := by omega
    by_cases hall : ∀ a ∈ L.found older e, (L.write e).log.counts a = true
    · obtain ⟨first, hfirst, hleast, hkept⟩ := kept_eq_erase hrotates hall heleven
      have hlength : ((L.found older e).erase first).card = 10 := by
        rw [Finset.card_erase_of_mem hfirst, heleven]
      rw [hkept]
      constructor
      · rintro ⟨-, hages⟩
        refine .inr ⟨hall, fun a ha hmin b hb => ?_⟩
        obtain rfl : a = first :=
          congrArg Prod.snd (precedes_antisymm (hmin first hfirst) (hleast a ha))
        by_cases hb' : b = a
        · exact hb' ▸ le_refl _
        · exact hages a ha (by simp) b (Finset.mem_erase.mpr ⟨hb', hb⟩)
      · intro horderly
        have hages := (horderly.resolve_left hten).2 first hfirst hleast
        refine ⟨hlength.le, fun a ha hnot b hb => ?_⟩
        obtain rfl : a = first := by
          by_contra hne
          exact hnot (Finset.mem_erase.mpr ⟨hne, ha⟩)
        exact hages b (Finset.mem_of_mem_erase hb)
    · -- A rotated log that is not counted stays, and with it there are eleven.
      have hfewer :
          ((L.found older e).filter fun a => (L.write e).log.counts a = true).card ≤ 10 := by
        obtain ⟨a, ha, hnot⟩ := not_forall₂.mp hall
        have hlt := Finset.card_lt_card (Finset.filter_ssubset (p := fun a =>
          (L.write e).log.counts a = true) |>.mpr ⟨a, ha, hnot⟩)
        omega
      rw [kept_eq_found hrotates hfewer]
      exact iff_of_false (fun h => hten h.1) fun h => h.elim hten fun h => hall h.1

/-- A run that has retained ten at every rotation has at most ten rotated logs of every name. -/
theorem card_rotatedFiles_le {es : List ε} (h : Machine.Throughout L.RetainsTen es)
    (N : LogName) : ((L.machine.after es).rotatedFiles N).card ≤ 10 := by
  induction es with
  | nil =>
    have hempty : (L.machine.after []).rotatedFiles N = ∅ := rfl
    rw [hempty]
    exact Nat.zero_le _
  | cons e es ih =>
    change ((L.step (L.machine.after es) e).2.rotatedFiles N).card ≤ 10
    by_cases hrotates : L.Rotates (L.machine.after es) e
    · by_cases hlog : N = (L.write e).log
      · subst hlog
        exact (h.1 hrotates).1
      · rw [rotatedFiles_step_ne hlog]
        exact ih h.2
    · rw [rotatedFiles_step_short hrotates]
      exact ih h.2

theorem throughout_retainsTen_iff (es : List ε) :
    Machine.Throughout L.RetainsTen es ↔ Machine.Throughout L.Orderly es := by
  induction es with
  | nil => exact Iff.rfl
  | cons e es ih =>
    constructor
    · intro h
      exact ⟨(retainsTen_iff_orderly (card_rotatedFiles_le h.2 _)).mp h.1, ih.mp h.2⟩
    · intro h
      have hrest := ih.mpr h.2
      exact ⟨(retainsTen_iff_orderly (card_rotatedFiles_le hrest _)).mpr h.1, hrest⟩

/-! ## A clock that never runs backwards -/

/-- Of two elements of a list the first one to come is in relation with the other. -/
theorem rel_of_idxOf_lt {α : Type} [BEq α] [LawfulBEq α] {r : α → α → Prop} {l : List α}
    (h : l.Pairwise r) {a b : α} (hb : b ∈ l) (hlt : l.idxOf a < l.idxOf b) : r a b := by
  have hbound := List.idxOf_lt_length_of_mem hb
  have hrel := List.pairwise_iff_getElem.mp h (l.idxOf a) (l.idxOf b) (hlt.trans hbound) hbound hlt
  simpa using hrel

theorem extractLongLong_decimalInt {t : Int64} (h : 0 < t) :
    extractLongLong (decimalInt t.toInt) = t.toInt := by
  have hpos : 0 < t.toInt := by simpa using Int64.lt_iff_toInt_lt.mp h
  have hbound : t.toInt < 2 ^ 63 := t.toInt_lt
  have hminus : (decimal t.toInt.natAbs).head? ≠ some 45 := head?_decimal_ne _ (by decide)
  have hunsigned : ¬ ((decimal t.toInt.natAbs).head? = some 43 ∨
      (decimal t.toInt.natAbs).head? = some 45) :=
    not_or.mpr ⟨head?_decimal_ne _ (by decide), hminus⟩
  rw [decimalInt, if_neg (by omega), extractLongLong, dropWhile_isSpace_decimal,
    if_neg hunsigned, takeWhile_isDigit_decimal, digitsValue_decimal, if_neg hminus]
  omega

/-- The archive of a second. -/
def archiveName (N : LogName) (t : Int64) : Bytes :=
  rotatedName t.toInt N.text ++ ascii ".gz"

theorem archiveName_eq (N : LogName) (t : Int64) :
    archiveName N t = decimalInt t.toInt ++ N.archiveSuffix := by
  simp [archiveName, rotatedName, LogName.archiveSuffix]

theorem stamp_archiveName (N : LogName) {t : Int64} (h : 0 < t) :
    stamp (archiveName N t) = (t.toInt, archiveName N t) := by
  have htime : (archiveName N t).takeWhile (· ≠ 95) = decimalInt t.toInt := by
    rw [archiveName_eq]
    exact Marker.takeWhile_cut (QueryLogger.underscore_notMem_decimalInt _) _
  rw [stamp, htime, extractLongLong_decimalInt h]

theorem counts_archiveName (N : LogName) {t : Int64} (h : 0 < t) :
    N.counts (archiveName N t) = true := by
  have hpos : 0 < t.toInt := by simpa using Int64.lt_iff_toInt_lt.mp h
  have hsuffix : N.archiveSuffix.isSuffixOf (archiveName N t) = true := by
    rw [archiveName_eq]
    exact List.isSuffixOf_iff_suffix.mpr (List.suffix_append _ _)
  have hunderscore : (archiveName N t).contains 95 = true := by
    rw [archiveName_eq]
    simp [LogName.archiveSuffix, ascii]
  have htime := congrArg Prod.fst (stamp_archiveName N h)
  rw [stamp] at htime
  rw [LogName.counts, archiveEntry, hsuffix, hunderscore]
  dsimp only at htime ⊢
  rw [htime, Bool.not_true, if_neg Bool.false_ne_true, if_neg Bool.false_ne_true,
    if_neg (by omega)]
  rfl

variable (L)

/-- Every compression succeeds, and the clock is positive and never runs backwards. -/
def Steady (es : List ε) : Prop :=
  (∀ e ∈ es, (L.write e).compresses = true ∧ 0 < (L.write e).now) ∧
    es.Pairwise fun newer older => (L.write older).now ≤ (L.write newer).now

variable {L} {es : List ε}

theorem Steady.tail (h : L.Steady (e :: es)) : L.Steady es :=
  ⟨fun e' he' => h.1 e' (List.mem_cons_of_mem _ he'), (List.pairwise_cons.mp h.2).2⟩

theorem made_cons_rotates (h : L.Rotates (L.machine.after es) e) :
    L.made (L.write e).log (e :: es) =
      newFile (L.machine.after es) (L.write e) :: L.made (L.write e).log es := by
  rw [made, if_pos ⟨rfl, h⟩]

theorem made_cons_other
    (h : ¬ ((L.write e).log = N ∧ L.Rotates (L.machine.after es) e)) :
    L.made N (e :: es) = L.made N es := by
  rw [made, if_neg]
  rintro ⟨htext, hrotates⟩
  exact h ⟨LogName.ext htext, hrotates⟩

/-- The cleanup makes no file. -/
theorem kept_subset_found (h : L.Rotates (L.machine.after older) e) :
    L.kept older e ⊆ L.found older e := by
  intro name hname
  rw [kept_eq h, mem_rotatedFiles] at hname
  rcases lookup_cleanupOld (beforeCleanup (L.machine.after older) (L.write e))
    (L.write e).log.archiveSuffix name with hsame | ⟨hnone, -⟩
  · exact mem_rotatedFiles.mpr (hsame ▸ hname)
  · rw [hnone] at hname
    cases hname.1

/-- In a run from an empty directory every rotated log was made by the run. -/
theorem mem_made {name : Bytes} (h : name ∈ (L.machine.after es).rotatedFiles N) :
    name ∈ L.made N es := by
  induction es with
  | nil => cases (mem_rotatedFiles.mp h).1
  | cons e es ih =>
    change name ∈ (L.step (L.machine.after es) e).2.rotatedFiles N at h
    by_cases hmakes : (L.write e).log = N ∧ L.Rotates (L.machine.after es) e
    · obtain ⟨rfl, hrotates⟩ := hmakes
      rw [made_cons_rotates hrotates, List.mem_cons]
      exact (mem_beforeCleanup (kept_subset_found hrotates h)).imp_right ih
    · rw [made_cons_other hmakes]
      by_cases hlog : (L.write e).log = N
      · rw [rotatedFiles_step_short fun hrotates => hmakes ⟨hlog, hrotates⟩] at h
        exact ih h
      · rw [rotatedFiles_step_ne (Ne.symm hlog)] at h
        exact ih h

theorem mem_made_of_found {name : Bytes} (h : L.Rotates (L.machine.after older) e)
    (hname : name ∈ L.found older e) : name ∈ L.made (L.write e).log (e :: older) := by
  rw [made_cons_rotates h, List.mem_cons]
  exact (mem_beforeCleanup hname).imp_right mem_made

/-- Where there are only archives, a rotation makes the archive of its second. -/
theorem newFile_eq_archiveName (dir : LogDir) {w : LogWrite} (hcompresses : w.compresses = true)
    (h : ∀ name ∈ dir.rotatedFiles w.log, ∃ t, name = archiveName w.log t) :
    newFile dir w = archiveName w.log w.now := by
  have hname : rotatedName w.now.toInt w.log.text = decimalInt w.now.toInt ++ w.log.rotatedSuffix :=
    List.append_assoc ..
  have hrotated : w.log.isRotated (rotatedName w.now.toInt w.log.text) = true :=
    hname ▸ LogName.isRotated_plain _
  have hne : rotatedName w.now.toInt w.log.text ≠ w.log.text :=
    LogName.ne_text_of_isRotated hrotated
  have hfree : (dir.openNamed w.log.text).fileExists (rotatedName w.now.toInt w.log.text) =
      false := by
    rw [LogDir.fileExists, lookup_openNamed_ne hne, Bool.eq_false_iff]
    intro hexists
    obtain ⟨t, ht⟩ := h _ (mem_rotatedFiles.mpr ⟨hexists, hrotated⟩)
    have hlast := congrArg List.getLast? ht
    rw [hname, LogName.getLast?_rotated, archiveName, LogName.getLast?_gz] at hlast
    cases hlast
  rw [newFile, hcompresses, if_pos rfl, rotatedTo, uniqueRotatedName_free hfree]
  rfl

/-- In a steady run the rotated logs are archives, made in the order of their times. -/
theorem Steady.made_eq (h : L.Steady es) (N : LogName) :
    ∃ times : List Int64, L.made N es = times.map (archiveName N) ∧
      times.Sublist (es.map fun e => (L.write e).now) := by
  induction es with
  | nil => exact ⟨[], rfl, List.Sublist.refl _⟩
  | cons e es ih =>
    obtain ⟨times, hmade, hsublist⟩ := ih h.tail
    by_cases hmakes : (L.write e).log = N ∧ L.Rotates (L.machine.after es) e
    · obtain ⟨rfl, hrotates⟩ := hmakes
      have hnew := newFile_eq_archiveName (L.machine.after es)
        (h.1 e List.mem_cons_self).1 fun name hname => by
          obtain ⟨t, -, ht⟩ := List.mem_map.mp (hmade ▸ mem_made hname)
          exact ⟨t, ht.symm⟩
      refine ⟨(L.write e).now :: times, ?_, hsublist.cons_cons _⟩
      rw [made_cons_rotates hrotates, hnew, hmade, List.map_cons]
    · exact ⟨times, (made_cons_other hmakes).trans hmade, hsublist.cons _⟩

/-- A call of a steady run is orderly. -/
theorem Steady.orderly (h : L.Steady (e :: older)) : L.Orderly older e := by
  intro hrotates
  obtain ⟨times, hmade, hsublist⟩ := h.made_eq (L.write e).log
  have hpositive : ∀ t ∈ times, 0 < t := by
    intro t ht
    obtain ⟨e', he', rfl⟩ := List.mem_map.mp (hsublist.mem ht)
    exact (h.1 e' he').2
  have hfound : ∀ a ∈ L.found older e, ∃ t ∈ times, archiveName (L.write e).log t = a :=
    fun a ha => List.mem_map.mp (hmade ▸ mem_made_of_found hrotates ha)
  have horder : (L.made (L.write e).log (e :: older)).Pairwise
      fun newer older => (stamp older).1 ≤ (stamp newer).1 := by
    have hclock : times.Pairwise fun newer older => older ≤ newer :=
      (List.pairwise_map.mpr h.2).sublist hsublist
    rw [hmade, List.pairwise_map]
    refine hclock.imp_of_mem fun {t u} ht hu hle => ?_
    rw [stamp_archiveName _ (hpositive t ht), stamp_archiveName _ (hpositive u hu)]
    exact Int64.le_iff_toInt_le.mp hle
  refine .inr ⟨fun a ha => ?_, fun a ha hfirst b hb => ?_⟩
  · obtain ⟨t, ht, rfl⟩ := hfound a ha
    exact counts_archiveName _ (hpositive t ht)
  · -- A file made before the first one would have the same time, and so the same name.
    unfold NoLater
    by_contra hlater
    have hle := rel_of_idxOf_lt horder (mem_made_of_found hrotates hb) (not_le.mp hlater)
    have hprecedes := hfirst b hb
    obtain ⟨t, ht, rfl⟩ := hfound a ha
    obtain ⟨u, hu, rfl⟩ := hfound b hb
    rw [stamp_archiveName _ (hpositive t ht), stamp_archiveName _ (hpositive u hu)] at *
    have hsame : t.toInt = u.toInt := by
      unfold Precedes at hprecedes
      omega
    rw [Int64.toInt_inj.mp hsame] at hlater
    exact hlater (le_refl _)

theorem Steady.throughout (h : L.Steady es) : Machine.Throughout L.Orderly es := by
  induction es with
  | nil => trivial
  | cons e es ih => exact ⟨h.orderly, ih h.tail⟩

end RotatingLogger

/-! ## The two loggers -/

/-- A run retains ten rotated logs of each name at every rotation exactly if all its calls are
orderly, and so where no compression fails and the clock is positive and never runs backwards. -/
theorem retention_bound_iff (logger : QueryLogger) (es : List QueryLogEvent)
    (controller : ControllerLogger) (cs : List ControllerLogEvent) :
    ((Machine.Throughout logger.rotating.RetainsTen es ↔
        Machine.Throughout logger.rotating.Orderly es) ∧
      (logger.rotating.Steady es → Machine.Throughout logger.rotating.RetainsTen es)) ∧
    (Machine.Throughout controller.rotating.RetainsTen cs ↔
        Machine.Throughout controller.rotating.Orderly cs) ∧
      (controller.rotating.Steady cs → Machine.Throughout controller.rotating.RetainsTen cs) := by
  have hlogger := logger.rotating.throughout_retainsTen_iff es
  have hcontroller := controller.rotating.throughout_retainsTen_iff cs
  exact ⟨⟨hlogger, fun h => hlogger.mpr h.throughout⟩,
    hcontroller, fun h => hcontroller.mpr h.throughout⟩

/-- A query from one client. -/
def passEvent (now : Int64) (compresses : Bool) : QueryLogEvent :=
  ⟨.logPass (ascii "10.0.0.1") (ascii "-") (ascii "example.org") (ascii "A") (ascii "cache") [],
    now, none, compresses⟩

/-- Calls at the given times, the newest first. -/
def passRun (times : List Int64) (compresses : Bool) : List QueryLogEvent :=
  times.map (passEvent · compresses)

/-- Twelve calls, each of which but the first rotates the log. -/
theorem retention_bound_steady :
    Machine.Throughout (QueryLogger.mk 1 true).rotating.RetainsTen
      (passRun [12, 11, 10, 9, 8, 7, 6, 5, 4, 3, 2, 1] true) := by
  have hsteady : (QueryLogger.mk 1 true).rotating.Steady
      (passRun [12, 11, 10, 9, 8, 7, 6, 5, 4, 3, 2, 1] true) :=
    ⟨by decide, by decide⟩
  exact (retention_bound_iff ⟨1, true⟩ (passRun [12, 11, 10, 9, 8, 7, 6, 5, 4, 3, 2, 1] true)
    ⟨1, true⟩ []).1.2 hsteady

/-- Without compression eleven rotated logs stay. With a clock that is set back the newest archive
is removed and older ones stay. -/
theorem retention_bound_broken :
    let L := (QueryLogger.mk 1 true).rotating
    let failing := passRun [12, 11, 10, 9, 8, 7, 6, 5, 4, 3, 2, 1] false
    let setBack := passRun [2, 13, 12, 11, 10, 9, 8, 7, 6, 5, 4, 3] true
    ((L.machine.after failing).rotatedFiles LogFile.pass.logName).card = 11 ∧
      ¬ Machine.Throughout L.RetainsTen failing ∧
      ascii "2_pass.log.gz" ∈ L.made LogFile.pass.logName setBack ∧
      ascii "2_pass.log.gz" ∉ (L.machine.after setBack).rotatedFiles LogFile.pass.logName ∧
      ascii "4_pass.log.gz" ∈ (L.machine.after setBack).rotatedFiles LogFile.pass.logName ∧
      ¬ Machine.Throughout L.RetainsTen setBack := by
  intro L failing setBack
  have hcard : ((L.machine.after failing).rotatedFiles LogFile.pass.logName).card = 11 := by
    decide +kernel
  refine ⟨hcard, fun h => ?_, by decide +kernel, by decide +kernel, by decide +kernel, fun h => ?_⟩
  · have hten := RotatingLogger.card_rotatedFiles_le h LogFile.pass.logName
    omega
  · have hages := (h.1 (by decide +kernel)).2 (ascii "2_pass.log.gz") (by decide +kernel)
      (by decide +kernel) (ascii "4_pass.log.gz") (by decide +kernel)
    revert hages
    unfold RotatingLogger.NoLater
    decide +kernel

end Gravastar
