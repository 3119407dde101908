import Mathlib.Data.List.Basic

/-!
# Computations against a script

The answers of an environment are a list that is given in advance. A
computation takes them in order, and may end well, fail, or still be waiting
when the script is over. A triple speaks of the state that it ends or fails in,
whatever the script says; loops have the rule with an invariant, so the lengths
of scripts never come up.
-/

/-- How a computation ends: waiting, failed, or with a value and the rest of the script. -/
inductive Outcome (σ ε α : Type) where
  | pending
  | failed (s : σ)
  | done (a : α) (s : σ) (rest : List ε)
  deriving DecidableEq

/-- What one turn of a loop does with an answer. No environment gives an answer that is stuck. -/
inductive Turn (σ β : Type) where
  | stuck
  | failed (s : σ)
  | next (b : β) (s : σ)

/-- A value and state in `Q`, or a failure in `F`, if it is over. -/
def Outcome.Ends {σ ε α : Type} (Q : α → σ → Prop) (F : σ → Prop) : Outcome σ ε α → Prop
  | .pending => True
  | .failed s => F s
  | .done a s _ => Q a s

/-- The loop goes on in `I`, or fails in `F`. -/
def Turn.Keeps {σ β : Type} (I : β → σ → Prop) (F : σ → Prop) : Turn σ β → Prop
  | .stuck => True
  | .failed s => F s
  | .next b s => I b s

def Scripted (σ ε α : Type) := σ → List ε → Outcome σ ε α

namespace Scripted

/-- How a script ends. -/
abbrev Ending (σ ε α : Type) := Outcome σ ε α

variable {σ ε α β : Type}

instance : Monad (Scripted σ ε) where
  pure a := fun s script => .done a s script
  bind m f := fun s script =>
    match m s script with
    | .pending => .pending
    | .failed s => .failed s
    | .done a s rest => f a s rest

def fail : Scripted σ ε α := fun s _ => .failed s

def modify (f : σ → σ) : Scripted σ ε Unit := fun s script => .done () (f s) script

/-- While the condition holds, take an answer and do what the body makes of it. -/
def loop (cond : β → Bool) (body : β → ε → σ → Turn σ β) (b : β) : Scripted σ ε β
  | s, [] => if cond b then .pending else .done b s []
  | s, e :: script =>
    if cond b then
      match body b e s with
      | .stuck => .pending
      | .failed s => .failed s
      | .next b s => loop cond body b s script
    else .done b s (e :: script)

/-! ## Triples -/

/-- From a state in `P` the computation ends in `Q` or fails in `F`, for every script. -/
def Triple (P : σ → Prop) (m : Scripted σ ε α) (Q : α → σ → Prop) (F : σ → Prop) : Prop :=
  ∀ s script, P s → (m s script).Ends Q F

namespace Triple

variable {P : σ → Prop} {m : Scripted σ ε α} {Q : α → σ → Prop} {F : σ → Prop}

theorem of_done (h : Triple P m Q F) {s s' : σ} {script rest : List ε} {a : α} (hs : P s)
    (hrun : m s script = .done a s' rest) : Q a s' := by
  have hpost := h s script hs
  rw [hrun] at hpost
  exact hpost

theorem of_failed (h : Triple P m Q F) {s s' : σ} {script : List ε} (hs : P s)
    (hrun : m s script = .failed s') : F s' := by
  have hpost := h s script hs
  rw [hrun] at hpost
  exact hpost

theorem conseq {P' : σ → Prop} {Q' : α → σ → Prop} {F' : σ → Prop} (h : Triple P m Q F)
    (hP : ∀ s, P' s → P s) (hQ : ∀ a s, Q a s → Q' a s) (hF : ∀ s, F s → F' s) :
    Triple P' m Q' F' := by
  intro s script hs
  have hpost := h s script (hP s hs)
  cases hrun : m s script with
  | pending => trivial
  | failed s' =>
    rw [hrun] at hpost
    exact hF s' hpost
  | done a s' rest =>
    rw [hrun] at hpost
    exact hQ a s' hpost

theorem pure {a : α} (h : ∀ s, P s → Q a s) : Triple P (Pure.pure a : Scripted σ ε α) Q F :=
  fun s _ hs => h s hs

theorem fail (h : ∀ s, P s → F s) : Triple P (Scripted.fail : Scripted σ ε α) Q F :=
  fun s _ hs => h s hs

theorem modify {f : σ → σ} {Q : Unit → σ → Prop} (h : ∀ s, P s → Q () (f s)) :
    Triple P (Scripted.modify f : Scripted σ ε Unit) Q F :=
  fun s _ hs => h s hs

theorem bind {f : α → Scripted σ ε β} {R : β → σ → Prop} (hm : Triple P m Q F)
    (hf : ∀ a, Triple (Q a) (f a) R F) : Triple P (m >>= f) R F := by
  intro s script hs
  have hpost := hm s script hs
  have hbind : (m >>= f) s script =
      match m s script with
      | .pending => .pending
      | .failed s => .failed s
      | .done a s rest => f a s rest := rfl
  rw [hbind]
  cases hrun : m s script with
  | pending => trivial
  | failed s' =>
    rw [hrun] at hpost
    exact hpost
  | done a s' rest =>
    rw [hrun] at hpost
    exact hf a s' rest hpost

/-- What does not depend on the state can be taken out of the precondition. -/
theorem of_and {c : Prop} (h : c → Triple P m Q F) : Triple (fun s => c ∧ P s) m Q F :=
  fun s script hs => h hs.1 s script hs.2

theorem ite {c : Prop} [Decidable c] {m' : Scripted σ ε α} (h : c → Triple P m Q F)
    (h' : ¬ c → Triple P m' Q F) : Triple P (if c then m else m') Q F := by
  split_ifs with hc
  · exact h hc
  · exact h' hc

/-- An invariant of the body is one of the loop. -/
theorem loop {cond : β → Bool} {body : β → ε → σ → Turn σ β} {I : β → σ → Prop}
    (hbody : ∀ b e s, cond b = true → I b s → (body b e s).Keeps I F) (b : β) :
    Triple (I b) (Scripted.loop cond body b) (fun b' s' => cond b' = false ∧ I b' s') F := by
  intro s script hI
  induction script generalizing b s with
  | nil =>
    rw [Scripted.loop]
    cases hcond : cond b with
    | false => exact ⟨hcond, hI⟩
    | true => trivial
  | cons e script ih =>
    rw [Scripted.loop]
    cases hcond : cond b with
    | false => exact ⟨hcond, hI⟩
    | true =>
      have hstep := hbody b e s hcond hI
      cases hturn : body b e s with
      | stuck => trivial
      | failed s' =>
        rw [hturn] at hstep
        exact hstep
      | next b' s' =>
        rw [hturn] at hstep
        exact ih b' s' hstep

end Triple

end Scripted
