import Mathlib.Data.List.Basic
import Mathlib.Data.List.Range

/-!
# Computations over a buffer, with the indices they touch

A `Traced` value is a result together with every index that was read or
written while computing it. Reads are total: outside the buffer they return a
default, and the offending index stays in the trace. A bounds proof is then a
statement about `touched`, while `val` alone is the ordinary result, so
functional proofs never mention the trace.
-/

/-- A result and the buffer indices touched on the way to it. -/
structure Traced (α : Type) where
  val : α
  touched : List Nat

namespace Traced

variable {α β : Type}

instance : Monad Traced where
  pure a := ⟨a, []⟩
  bind x f := ⟨(f x.val).val, x.touched ++ (f x.val).touched⟩

@[simp] theorem val_pure (a : α) : (pure a : Traced α).val = a := rfl
@[simp] theorem touched_pure (a : α) : (pure a : Traced α).touched = [] := rfl

@[simp] theorem val_bind (x : Traced α) (f : α → Traced β) :
    (x >>= f).val = (f x.val).val := rfl

@[simp] theorem touched_bind (x : Traced α) (f : α → Traced β) :
    (x >>= f).touched = x.touched ++ (f x.val).touched := rfl

@[simp] theorem val_ite (c : Prop) [Decidable c] (x y : Traced α) :
    (if c then x else y).val = if c then x.val else y.val := by split <;> rfl

/-! ## Buffer accesses -/

/-- Read one cell. -/
def peek [Inhabited α] (xs : List α) (i : Nat) : Traced α := ⟨xs.getD i default, [i]⟩

/-- Read `n` consecutive cells from `i` on. -/
def slice (xs : List α) (i n : Nat) : Traced (List α) := ⟨(xs.drop i).take n, List.range' i n⟩

/-- Overwrite one cell. -/
def poke (xs : List α) (i : Nat) (a : α) : Traced (List α) := ⟨xs.set i a, [i]⟩

@[simp] theorem val_peek [Inhabited α] (xs : List α) (i : Nat) :
    (peek xs i).val = xs.getD i default := rfl

@[simp] theorem val_slice (xs : List α) (i n : Nat) :
    (slice xs i n).val = (xs.drop i).take n := rfl

@[simp] theorem val_poke (xs : List α) (i : Nat) (a : α) : (poke xs i a).val = xs.set i a := rfl

/-! ## Bounds -/

/-- Every index touched by `x` lies below `n`. -/
def Within (n : Nat) (x : Traced α) : Prop := ∀ i ∈ x.touched, i < n

variable {n : Nat}

theorem within_pure (a : α) : Within n (pure a) := by simp [Within]

theorem within_bind {x : Traced α} {f : α → Traced β} :
    Within n (x >>= f) ↔ Within n x ∧ Within n (f x.val) := by
  simp [Within, List.mem_append, or_imp, forall_and]

theorem Within.bind {x : Traced α} {f : α → Traced β} (hx : Within n x)
    (hf : Within n (f x.val)) : Within n (x >>= f) := within_bind.mpr ⟨hx, hf⟩

theorem Within.mono {m : Nat} {x : Traced α} (h : Within n x) (hm : n ≤ m) : Within m x :=
  fun i hi => (h i hi).trans_le hm

theorem within_peek [Inhabited α] (xs : List α) (i : Nat) : Within n (peek xs i) ↔ i < n := by
  simp [Within, peek]

theorem within_poke (xs : List α) (i : Nat) (a : α) : Within n (poke xs i a) ↔ i < n := by
  simp [Within, poke]

/-- A slice that ends inside the buffer touches only cells of the buffer. -/
theorem within_slice (xs : List α) {i k : Nat} (h : i + k ≤ n) : Within n (slice xs i k) := by
  intro j hj
  have := List.mem_range'_1.mp hj
  omega

end Traced
