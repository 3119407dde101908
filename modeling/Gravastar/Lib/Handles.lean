import Mathlib.Data.List.Nodup

/-!
# Handles that are opened and closed

What a program does with the handles that it is given is a log of uses. A log is
in order when a handle is opened only while it is not open and used or closed
only while it is; what is open then follows from the log, and nothing that is
closed is touched again.
-/

/-- What a call does with a handle. -/
inductive HandleUse (η : Type) where
  | opens (handle : η)
  | uses (handle : η)
  | closes (handle : η)
  deriving DecidableEq, Repr

variable {η : Type} [DecidableEq η]

/-- What is open behind a use, `none` where the use is not allowed. -/
def HandleUse.on (held : List η) : HandleUse η → Option (List η)
  | .opens handle => if handle ∈ held then none else some (handle :: held)
  | .uses handle => if handle ∈ held then some held else none
  | .closes handle => if handle ∈ held then some (held.erase handle) else none

/-- What is open behind a log, `none` where it is not in order. -/
def heldAfter (held : List η) : List (HandleUse η) → Option (List η)
  | [] => some held
  | use :: log => (use.on held).bind fun held => heldAfter held log

namespace HandleUse

variable {held held' : List η} {handle : η}

/-- A use of what is not open is not allowed, and only an opening brings a handle in. -/
theorem on_nodup {use : HandleUse η} (hheld : held.Nodup) (h : use.on held = some held') :
    held'.Nodup := by
  unfold on at h
  cases use <;> simp only [Option.ite_none_right_eq_some, Option.ite_none_left_eq_some,
    Option.some.injEq] at h
  case opens => exact h.2 ▸ List.nodup_cons.mpr ⟨h.1, hheld⟩
  case uses => exact h.2 ▸ hheld
  case closes => exact h.2 ▸ hheld.erase _

/-- The openings of a handle are its closings, and one more while it is open. -/
theorem on_count {use : HandleUse η} (hheld : held.Nodup) (h : use.on held = some held')
    (handle : η) :
    held.count handle + [use].count (.opens handle) =
      held'.count handle + [use].count (.closes handle) := by
  unfold on at h
  cases use with
  | opens x =>
    simp only [Option.ite_none_left_eq_some, Option.some.injEq] at h
    obtain ⟨-, rfl⟩ := h
    by_cases hx : x = handle <;> simp [hx]
  | uses x =>
    simp only [Option.ite_none_right_eq_some, Option.some.injEq] at h
    obtain ⟨-, rfl⟩ := h
    simp
  | closes x =>
    simp only [Option.ite_none_right_eq_some, Option.some.injEq] at h
    obtain ⟨hmem, rfl⟩ := h
    by_cases hx : x = handle
    · subst hx
      have hone := List.count_eq_one_of_mem hheld hmem
      simp [List.count_erase_self, hone]
    · simp [List.count_erase_of_ne (Ne.symm hx), hx]

end HandleUse

variable {held held' : List η} {log : List (HandleUse η)}

theorem heldAfter_append (held : List η) (log log' : List (HandleUse η)) :
    heldAfter held (log ++ log') = (heldAfter held log).bind (heldAfter · log') := by
  induction log generalizing held with
  | nil => rfl
  | cons use log ih =>
    rw [List.cons_append, heldAfter, heldAfter, Option.bind_assoc]
    congr 1
    funext held
    exact ih held

theorem heldAfter_nodup (hheld : held.Nodup) (h : heldAfter held log = some held') :
    held'.Nodup := by
  induction log generalizing held with
  | nil =>
    obtain rfl := Option.some.inj h
    exact hheld
  | cons use log ih =>
    obtain ⟨mid, huse, hlog⟩ := Option.bind_eq_some_iff.mp h
    exact ih (use.on_nodup hheld huse) hlog

/-- Over a log in order, a handle is opened as often as it is closed, and once more if it is open
at the end and was not at the start. -/
theorem heldAfter_count (hheld : held.Nodup) (h : heldAfter held log = some held') (handle : η) :
    held.count handle + log.count (.opens handle) =
      held'.count handle + log.count (.closes handle) := by
  induction log generalizing held with
  | nil =>
    obtain rfl := Option.some.inj h
    rfl
  | cons use log ih =>
    obtain ⟨mid, huse, hlog⟩ := Option.bind_eq_some_iff.mp h
    have hstep := use.on_count hheld huse handle
    have hrest := ih (use.on_nodup hheld huse) hlog
    rw [← List.singleton_append, List.count_append, List.count_append]
    omega

/-- Where a handle is used or closed, it has been opened once more than it was closed. -/
def UsedWhileOpen (log : List (HandleUse η)) : Prop :=
  ∀ before use after handle, log = before ++ use :: after →
    use = .uses handle ∨ use = .closes handle →
    before.count (.opens handle) = before.count (.closes handle) + 1

/-- Every handle is closed as often as it is opened. -/
def AllClosed (log : List (HandleUse η)) : Prop :=
  ∀ handle, log.count (.opens handle) = log.count (.closes handle)

theorem usedWhileOpen_of_heldAfter (h : heldAfter [] log = some held) : UsedWhileOpen log := by
  rintro before use after handle rfl huse
  rw [heldAfter_append] at h
  obtain ⟨mid, hbefore, hafter⟩ := Option.bind_eq_some_iff.mp h
  obtain ⟨_, hon, -⟩ := Option.bind_eq_some_iff.mp hafter
  have hmem : handle ∈ mid := by
    obtain rfl | rfl := huse
    all_goals exact (Option.ite_none_right_eq_some.mp hon).1
  have hcount := heldAfter_count List.nodup_nil hbefore handle
  rw [List.count_eq_one_of_mem (heldAfter_nodup List.nodup_nil hbefore) hmem] at hcount
  rw [List.count_nil] at hcount
  omega

theorem allClosed_of_heldAfter (h : heldAfter [] log = some []) : AllClosed log := fun handle => by
  have hcount := heldAfter_count List.nodup_nil h handle
  rwa [List.count_nil, Nat.zero_add, Nat.zero_add] at hcount
