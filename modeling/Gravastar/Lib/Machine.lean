import Mathlib.Data.List.Basic

/-!
# Deterministic machines and their runs

A machine answers every event with an output and moves to a new state. A run is
the list of its events, the newest at the head, so that an induction over the
list adds the last step of the run.
-/

structure Machine (σ ε ω : Type) where
  init : σ
  step : σ → ε → ω × σ

namespace Machine

variable {σ ε ω : Type} (M : Machine σ ε ω)

/-- The state after a run. -/
def after : List ε → σ
  | [] => M.init
  | e :: es => (M.step (after es) e).2

/-- The events of a run with their outputs, the newest first. -/
def log : List ε → List (ε × ω)
  | [] => []
  | e :: es => (e, (M.step (M.after es) e).1) :: log es

/-- Every event of the run meets `ok` in the state it arrives in. -/
def Along (ok : σ → ε → Prop) : List ε → Prop
  | [] => True
  | e :: es => ok (M.after es) e ∧ Along ok es

/-- Every event meets `ok` after the run before it. -/
def Throughout (ok : List ε → ε → Prop) : List ε → Prop
  | [] => True
  | e :: es => ok es e ∧ Throughout ok es

@[simp] theorem after_nil : M.after [] = M.init := rfl

@[simp] theorem after_cons (e : ε) (es : List ε) :
    M.after (e :: es) = (M.step (M.after es) e).2 := rfl

@[simp] theorem log_nil : M.log [] = [] := rfl

@[simp] theorem log_cons (e : ε) (es : List ε) :
    M.log (e :: es) = (e, (M.step (M.after es) e).1) :: M.log es := rfl

/-- What holds at the start and is kept by every step holds after every run. -/
theorem invariant {P : σ → Prop} (start : P M.init) (keep : ∀ s e, P s → P (M.step s e).2)
    (es : List ε) : P (M.after es) := by
  induction es with
  | nil => exact start
  | cons e es ih => exact keep _ e ih

/-- An invariant that also reads the run, and is kept by the steps that meet `ok`. -/
theorem invariant_along {ok : σ → ε → Prop} {P : List ε → σ → Prop} (start : P [] M.init)
    (keep : ∀ es e, ok (M.after es) e → P es (M.after es) →
      P (e :: es) (M.step (M.after es) e).2) {es : List ε} (h : M.Along ok es) :
    P es (M.after es) := by
  induction es with
  | nil => exact start
  | cons e es ih => exact keep es e h.1 (ih h.2)

end Machine
