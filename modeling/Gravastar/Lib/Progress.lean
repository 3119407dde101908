import Gravastar.Lib.Simulation

/-!
# Machines that come to an end

Some events of a machine are moves. If every move makes a size smaller and no
other event makes it larger, a run has no more moves than the size it starts
with; and if there is a move wherever the machine is not done, it is done after
so many of them, in whatever order they come and whatever comes between them.
-/

namespace Machine

variable {σ ε ω : Type}

/-- The moves of a run, each in the state it is made in. -/
def moves (M : Machine σ ε ω) (move : σ → ε → Prop) [∀ s e, Decidable (move s e)] :
    List ε → Nat
  | [] => 0
  | e :: es => (if move (M.after es) e then 1 else 0) + moves M move es

/-- In states that meet `P` a move makes the size smaller, and nothing makes it larger. -/
structure Shrinks (M : Machine σ ε ω) (P : σ → Prop) (move : σ → ε → Prop) (size : σ → Nat) :
    Prop where
  keep : ∀ s e, P s → P (M.step s e).2
  smaller : ∀ s e, P s → move s e → size (M.step s e).2 < size s
  le : ∀ s e, P s → size (M.step s e).2 ≤ size s

namespace Shrinks

variable {M : Machine σ ε ω} {P : σ → Prop} {move : σ → ε → Prop} {size : σ → Nat}
  [∀ s e, Decidable (move s e)]

omit [∀ s e, Decidable (move s e)] in
theorem keeps (h : M.Shrinks P move size) {s : σ} (hs : P s) (es : List ε) :
    P ((M.startingAt s).after es) :=
  Machine.invariant (M.startingAt s) hs h.keep es

omit [∀ s e, Decidable (move s e)] in
/-- The same of a run that goes on. -/
theorem keeps_append (h : M.Shrinks P move size) {before : List ε} (hs : P (M.after before))
    (later : List ε) : P (M.after (later ++ before)) := by
  rw [after_append]
  exact h.keeps hs later

/-- Every move of a run has made the size smaller. -/
theorem moves_add_size_le (h : M.Shrinks P move size) {s : σ} (hs : P s) (es : List ε) :
    (M.startingAt s).moves move es + size ((M.startingAt s).after es) ≤ size s := by
  induction es with
  | nil => simp [moves]
  | cons e es ih =>
    have hP := h.keeps hs es
    rw [moves, after_cons, step_startingAt]
    split_ifs with hmove
    · have hlt := h.smaller _ e hP hmove
      omega
    · have hle := h.le _ e hP
      omega

theorem moves_le (h : M.Shrinks P move size) {s : σ} (hs : P s) (es : List ε) :
    (M.startingAt s).moves move es ≤ size s :=
  Nat.le_trans (Nat.le_add_right ..) (h.moves_add_size_le hs es)

end Shrinks

end Machine
