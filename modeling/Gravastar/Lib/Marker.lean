import Mathlib.Data.List.Infix
import Mathlib.Data.List.TakeWhile

/-!
# Markers

A marker is a separator and what follows it, where the separator does not come
again: a space and a keyword, say. Two occurrences of a marker in a list are the
same or lie apart, so a list has one last cut at a marker.
-/

namespace Marker

variable {α : Type} {sep : α} {w : List α}

/-- There is one way to cut a list in front of its first separator. -/
theorem cut_first {a b x y : List α} (ha : sep ∉ a) (hb : sep ∉ b)
    (hx : x.head? = some sep ∨ x = []) (hy : y.head? = some sep ∨ y = [])
    (h : a ++ x = b ++ y) : a = b ∧ x = y := by
  induction a generalizing b with
  | nil =>
    cases b with
    | nil => exact ⟨rfl, h⟩
    | cons d b =>
      obtain rfl : x = d :: (b ++ y) := h
      grind
  | cons c a ih =>
    cases b with
    | nil =>
      obtain rfl : c :: (a ++ x) = y := h
      grind
    | cons d b =>
      rw [List.cons_append, List.cons_append, List.cons.injEq] at h
      obtain ⟨rfl, hrest⟩ := h
      obtain ⟨rfl, rfl⟩ := ih (fun hmem => ha (List.mem_cons_of_mem _ hmem))
        (fun hmem => hb (List.mem_cons_of_mem _ hmem)) hrest
      exact ⟨rfl, rfl⟩

/-- A search for a separator goes past a text without one. -/
theorem takeWhile_append [DecidableEq α] {a : List α} (ha : sep ∉ a) (b : List α) :
    (a ++ b).takeWhile (· ≠ sep) = a ++ b.takeWhile (· ≠ sep) := by
  apply List.takeWhile_append_of_pos
  intro c hc
  exact decide_eq_true fun heq => ha (heq ▸ hc)

theorem dropWhile_append [DecidableEq α] {a : List α} (ha : sep ∉ a) (b : List α) :
    (a ++ b).dropWhile (· ≠ sep) = b.dropWhile (· ≠ sep) := by
  apply List.dropWhile_append_of_pos
  intro c hc
  exact decide_eq_true fun heq => ha (heq ▸ hc)

theorem takeWhile_cut [DecidableEq α] {a : List α} (ha : sep ∉ a) (b : List α) :
    (a ++ sep :: b).takeWhile (· ≠ sep) = a := by
  rw [takeWhile_append ha, List.takeWhile_cons_of_neg (by simp), List.append_nil]

theorem dropWhile_cut [DecidableEq α] {a : List α} (ha : sep ∉ a) (b : List α) :
    (a ++ sep :: b).dropWhile (· ≠ sep) = sep :: b := by
  rw [dropWhile_append ha, List.dropWhile_cons_of_neg (by simp)]

/-- Behind the first of two occurrences comes the second. -/
theorem cut_of_prefix (hw : sep ∉ w) {a b t b' : List α}
    (h : a ++ (sep :: w) ++ b = a ++ t ++ (sep :: w) ++ b') :
    t = [] ∧ b = b' ∨ ∃ x, t = (sep :: w) ++ x ∧ b = x ++ (sep :: w) ++ b' := by
  rw [List.append_assoc, List.append_assoc, List.append_assoc, List.append_cancel_left_eq] at h
  cases t with
  | nil => exact .inl ⟨rfl, by simpa using h⟩
  | cons c t =>
    rw [List.cons_append, List.cons_append, List.cons.injEq] at h
    obtain ⟨rfl, hrest⟩ := h
    rcases List.append_eq_append_iff.mp hrest with ⟨x, rfl, rfl⟩ | ⟨x, hsplit, hx⟩
    · exact .inr ⟨x, rfl, by simp⟩
    · -- The rest of the marker would hold the start of the second occurrence.
      cases x with
      | nil =>
        rw [List.append_nil] at hsplit
        exact .inr ⟨[], by simp [hsplit], by simpa using hx.symm⟩
      | cons d x =>
        obtain rfl : sep = d := by simpa using congrArg List.head? hx
        exact absurd (hsplit ▸ by simp) hw

/-- Two occurrences of a marker are the same or lie apart. -/
theorem cut_cases (hw : sep ∉ w) {a b a' b' : List α}
    (h : a ++ (sep :: w) ++ b = a' ++ (sep :: w) ++ b') :
    (a = a' ∧ b = b') ∨
      (∃ x, a' = a ++ (sep :: w) ++ x ∧ b = x ++ (sep :: w) ++ b') ∨
      ∃ x, a = a' ++ (sep :: w) ++ x ∧ b' = x ++ (sep :: w) ++ b := by
  have hsplit := h
  rw [List.append_assoc, List.append_assoc] at hsplit
  rcases List.append_eq_append_iff.mp hsplit with ⟨t, rfl, -⟩ | ⟨t, rfl, -⟩
  · rcases cut_of_prefix hw h with ⟨rfl, rfl⟩ | ⟨x, rfl, rfl⟩
    · exact .inl ⟨by simp, rfl⟩
    · exact .inr (.inl ⟨x, by simp, rfl⟩)
  · rcases cut_of_prefix hw h.symm with ⟨rfl, rfl⟩ | ⟨x, rfl, rfl⟩
    · exact .inl ⟨by simp, rfl⟩
    · exact .inr (.inr ⟨x, by simp, rfl⟩)

/-- There is one way to cut a list at the last occurrence of a marker. -/
theorem cut_last (hw : sep ∉ w) {a b a' b' : List α} (hb : ¬ (sep :: w) <:+: b)
    (hb' : ¬ (sep :: w) <:+: b') (h : a ++ (sep :: w) ++ b = a' ++ (sep :: w) ++ b') :
    a = a' ∧ b = b' := by
  rcases cut_cases hw h with heq | ⟨x, -, rfl⟩ | ⟨x, -, rfl⟩
  · exact heq
  · exact absurd ⟨x, b', rfl⟩ hb
  · exact absurd ⟨x, b, rfl⟩ hb'

/-- Behind a text without separators, a marker lies in the rest. -/
theorem infix_of_append {s t : List α} (hs : sep ∉ s) (h : (sep :: w) <:+: s ++ t) :
    (sep :: w) <:+: t := by
  induction s with
  | nil => exact h
  | cons c s ih =>
    rw [List.cons_append, List.infix_cons_iff] at h
    rcases h with hstart | hrest
    · rw [List.cons_prefix_cons] at hstart
      exact absurd (hstart.1 ▸ List.mem_cons_self) hs
    · exact ih (fun hmem => hs (List.mem_cons_of_mem _ hmem)) hrest

/-- In front of a text without separators lies every occurrence of a text that ends in one. -/
theorem infix_of_append_right {v s t : List α} (ht : sep ∉ t) (h : v ++ [sep] <:+: s ++ t) :
    v ++ [sep] <:+: s := by
  obtain ⟨a, b, heq⟩ := h
  rcases List.append_eq_append_iff.mp heq with ⟨x, rfl, -⟩ | ⟨x, hs, rfl⟩
  · exact ⟨a, x, rfl⟩
  · rcases List.eq_nil_or_concat x with rfl | ⟨x, c, rfl⟩
    · exact ⟨a, [], by simpa using hs⟩
    · -- The separator at the end would lie in the second text.
      have hlast : sep = c := by simpa using congrArg List.getLast? hs
      simp [hlast] at ht

/-- A marker in a text that starts with another one lies behind that. -/
theorem infix_of_marker {v t : List α} (hv : sep ∉ v) (hne : ¬ w <+: v ++ t)
    (h : (sep :: w) <:+: (sep :: v) ++ t) : (sep :: w) <:+: t := by
  rw [List.cons_append, List.infix_cons_iff, List.cons_prefix_cons] at h
  rcases h with ⟨-, hstart⟩ | hrest
  · exact absurd hstart hne
  · exact infix_of_append hv hrest

end Marker
