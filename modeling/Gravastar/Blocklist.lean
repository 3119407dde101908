import Gravastar.Bytes
import Mathlib.Data.Finset.Insert

/-!
# The blocklist (`blocklist.cpp`)

`domains_` is replaced as a whole under the write lock and read under the read
lock, so one call sees one domain set.
-/

namespace Gravastar

structure Blocklist where
  domains : Finset Bytes
  deriving DecidableEq

namespace Blocklist

/-- `SetDomains`. -/
def setDomains (_ : Blocklist) (domains : Finset Bytes) : Blocklist := ⟨domains⟩

/-- The suffix that the inner loop puts together from `labels[i]` on. -/
def joinFrom (label : Bytes) (labels : List Bytes) : Bytes :=
  labels.foldl (fun suffix l => suffix ++ [dot] ++ l) label

/-- The outer loop, over the labels still ahead. -/
def suffixListed (domains : Finset Bytes) : List Bytes → Bool
  | [] => false
  | label :: labels =>
    if joinFrom label labels ∈ domains then true else suffixListed domains labels

def isBlocked (b : Blocklist) (name : Bytes) : Bool :=
  if b.domains = ∅ then false
  else
    let canon := canonicalName name
    if canon ∈ b.domains then true
    else
      let labels := split canon dot
      if labels.length < 2 then false else suffixListed b.domains labels.tail

/-! ## What is blocked -/

theorem joinFrom_eq (label : Bytes) (labels : List Bytes) :
    joinFrom label labels = dotJoin (label :: labels) := by
  rw [joinFrom]
  induction labels generalizing label with
  | nil => simp
  | cons l labels ih =>
    rw [List.foldl_cons, ih]
    cases labels <;> simp

theorem suffixListed_iff {domains : Finset Bytes} {labels : List Bytes} :
    suffixListed domains labels = true ↔
      ∃ rest, rest ≠ [] ∧ rest <:+ labels ∧ dotJoin rest ∈ domains := by
  induction labels with
  | nil =>
    simp [suffixListed]
  | cons label labels ih =>
    rw [suffixListed, joinFrom_eq]
    split_ifs with hlisted
    · simp only [true_iff]
      exact ⟨label :: labels, by simp, List.suffix_rfl, hlisted⟩
    · rw [ih]
      constructor
      · rintro ⟨rest, hne, hsuffix, hmem⟩
        exact ⟨rest, hne, hsuffix.trans (List.suffix_cons ..), hmem⟩
      · rintro ⟨rest, hne, hsuffix, hmem⟩
        rcases List.suffix_cons_iff.mp hsuffix with rfl | hsuffix
        · exact absurd hmem hlisted
        · exact ⟨rest, hne, hsuffix, hmem⟩

/-- The suffixes of a name behind a dot are the joins of its later labels. -/
theorem dot_suffix_iff {c d : Bytes} :
    dot :: d <:+ c ↔ ∃ rest, rest ≠ [] ∧ rest <:+ (split c dot).tail ∧ dotJoin rest = d := by
  constructor
  · rintro ⟨front, rfl⟩
    refine ⟨split d dot, ?_, ?_, dotJoin_split d⟩
    · rw [split_eq_splitOn]
      exact List.splitOn_ne_nil dot d
    · rw [split_append_cons, List.tail_append_of_ne_nil]
      · exact List.suffix_append ..
      · rw [split_eq_splitOn]
        exact List.splitOn_ne_nil dot front
  · rintro ⟨rest, hne, ⟨front, hfront⟩, rfl⟩
    have hc := dotJoin_split c
    cases hsplit : split c dot with
    | nil =>
      rw [split_eq_splitOn] at hsplit
      exact absurd hsplit (List.splitOn_ne_nil dot c)
    | cons label labels =>
      rw [hsplit, List.tail_cons] at hfront
      rw [hsplit, ← hfront, ← List.cons_append, dotJoin_append (by simp) hne] at hc
      exact ⟨_, hc⟩

/-- The early exits change nothing. -/
theorem isBlocked_eq (b : Blocklist) (name : Bytes) :
    b.isBlocked name = (decide (canonicalName name ∈ b.domains) ||
      suffixListed b.domains (split (canonicalName name) dot).tail) := by
  rw [isBlocked]
  dsimp only
  split_ifs with hempty hself hshort
  · have hnone : suffixListed ∅ (split (canonicalName name) dot).tail ≠ true := by
      rw [Ne, suffixListed_iff]
      simp
    simp [hempty, hnone]
  · simp [hself]
  · have htail : (split (canonicalName name) dot).tail = [] :=
      List.eq_nil_of_length_eq_zero (by rw [List.length_tail]; omega)
    simp [hself, htail, suffixListed]
  · simp [hself]

/-- A listed domain blocks itself and the names that end in a dot and it, and no other name. -/
theorem isBlocked_iff (b : Blocklist) (name : Bytes) :
    b.isBlocked name = true ↔
      ∃ d ∈ b.domains, canonicalName name = d ∨ dot :: d <:+ canonicalName name := by
  rw [isBlocked_eq, Bool.or_eq_true, decide_eq_true_iff, suffixListed_iff]
  constructor
  · rintro (hself | ⟨rest, hne, hsuffix, hmem⟩)
    · exact ⟨_, hself, .inl rfl⟩
    · exact ⟨_, hmem, .inr (dot_suffix_iff.mpr ⟨rest, hne, hsuffix, rfl⟩)⟩
  · rintro ⟨d, hmem, rfl | hsuffix⟩
    · exact .inl hmem
    · obtain ⟨rest, hne, hrest, rfl⟩ := dot_suffix_iff.mp hsuffix
      exact .inr ⟨rest, hne, hrest, hmem⟩

end Blocklist

end Gravastar
