import Gravastar.Lib.Simulation
import Mathlib.Algebra.BigOperators.Group.Finset.Basic
import Mathlib.Algebra.Order.Group.Multiset

/-!
# Accounts

Things come into a machine and go out of it. If each step lets out what it does
not keep, so does every run: what came in is what is held and what went out, each
thing as often as it came.
-/

section
variable {ι : Type} [DecidableEq ι] [Fintype ι]

/-- When one party changes, the others keep their part of a sum over all. -/
theorem exists_sum_of_ne {M : Type} [AddCommMonoid M] (f f' : ι → M) {i : ι}
    (h : ∀ j, j ≠ i → f' j = f j) : ∃ rest, ∑ j, f j = rest + f i ∧ ∑ j, f' j = rest + f' i := by
  have hold := Finset.sum_erase_add Finset.univ f (Finset.mem_univ i)
  have hnew := Finset.sum_erase_add Finset.univ f' (Finset.mem_univ i)
  have hrest : ∑ j ∈ Finset.univ.erase i, f' j = ∑ j ∈ Finset.univ.erase i, f j :=
    Finset.sum_congr rfl fun j hj => h j (Finset.ne_of_mem_erase hj)
  exact ⟨_, hold.symm, by rw [← hrest, hnew]⟩

theorem exists_sum_update {M β : Type} [AddCommMonoid M] (g : β → M) (f : ι → β) (i : ι) (b : β) :
    ∃ rest, ∑ j, g (f j) = rest + g (f i) ∧ ∑ j, g (Function.update f i b j) = rest + g b := by
  have h := exists_sum_of_ne (fun j => g (f j)) (fun j => g (Function.update f i b j)) (i := i)
    fun j hj => by rw [Function.update_of_ne hj]
  rwa [Function.update_self] at h

end

namespace Machine

variable {σ ε ω α : Type} {M : Machine σ ε ω} {came went : ε × ω → Option α}

theorem accounted (held : σ → Multiset α) (init : held M.init = 0)
    (step : ∀ es e, ((came (e, (M.step (M.after es) e).1)).toList : Multiset α) +
      held (M.after es) =
        held (M.after (e :: es)) + ((went (e, (M.step (M.after es) e).1)).toList : Multiset α))
    (es : List ε) :
    (M.observed came es : Multiset α) = held (M.after es) + (M.observed went es : Multiset α) := by
  induction es with
  | nil => simp [init]
  | cons e es ih =>
    rw [observed_cons, observed_cons, ← Multiset.coe_add, ← Multiset.coe_add, ih, ← add_assoc,
      step es e, add_assoc]

end Machine
