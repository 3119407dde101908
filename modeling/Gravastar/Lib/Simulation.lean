import Gravastar.Lib.Machine

/-!
# Simulations between machines

A machine simulates another one if every step of the first is matched by a run
of the second that is seen in the same way from outside. Then every run is
matched by a run, and what is known of all runs of the second machine is known
of the first.
-/

namespace Machine

variable {σ ε ω τ δ ψ α : Type}

/-- The same machine, started elsewhere. -/
def startingAt (M : Machine σ ε ω) (s : σ) : Machine σ ε ω := ⟨s, M.step⟩

section
variable (M : Machine σ ε ω)

@[simp] theorem init_startingAt (s : σ) : (M.startingAt s).init = s := rfl

@[simp] theorem step_startingAt (s : σ) : (M.startingAt s).step = M.step := rfl

/-- A run that goes on starts where the first part of it has ended. -/
theorem after_append (newer older : List ε) :
    M.after (newer ++ older) = (M.startingAt (M.after older)).after newer := by
  induction newer with
  | nil => rfl
  | cons e newer ih => simp [ih]

theorem log_append (newer older : List ε) :
    M.log (newer ++ older) = (M.startingAt (M.after older)).log newer ++ M.log older := by
  induction newer with
  | nil => rfl
  | cons e newer ih => simp [ih, after_append]

/-- What an observer notices of a run, the newest first. -/
def observed (see : ε × ω → Option α) (es : List ε) : List α := (M.log es).filterMap see

variable {see : ε × ω → Option α}

@[simp] theorem observed_nil : M.observed see [] = [] := rfl

theorem observed_cons (e : ε) (es : List ε) : M.observed see (e :: es) =
    (see (e, (M.step (M.after es) e).1)).toList ++ M.observed see es := by
  rw [observed, log_cons]
  cases h : see (e, (M.step (M.after es) e).1) with
  | none =>
    rw [List.filterMap_cons_none h]
    rfl
  | some a =>
    rw [List.filterMap_cons_some h]
    rfl

theorem observed_append (newer older : List ε) : M.observed see (newer ++ older) =
    (M.startingAt (M.after older)).observed see newer ++ M.observed see older := by
  rw [observed, log_append, List.filterMap_append]
  rfl

/-- What can be told from what was noticed. -/
theorem filterMap_observed {β : Type} (g : α → Option β) (es : List ε) :
    (M.observed see es).filterMap g = (M.log es).filterMap fun entry => (see entry).bind g :=
  List.filterMap_filterMap

end

/-- Every step of `M` is matched by a run of `N`, and an observer of both notices the same. The
step may be one that a run has led to. -/
structure Simulates (M : Machine σ ε ω) (N : Machine τ δ ψ) (related : σ → τ → Prop)
    (see : ε × ω → Option α) (see' : δ × ψ → Option α) : Prop where
  init : related M.init N.init
  step : ∀ es t e, related (M.after es) t → ∃ ds,
    related (M.step (M.after es) e).2 ((N.startingAt t).after ds) ∧
      (N.startingAt t).observed see' ds = (see (e, (M.step (M.after es) e).1)).toList

/-- Every run is matched by a run. -/
theorem Simulates.exists_run {M : Machine σ ε ω} {N : Machine τ δ ψ} {related : σ → τ → Prop}
    {see : ε × ω → Option α} {see' : δ × ψ → Option α} (h : M.Simulates N related see see')
    (es : List ε) :
    ∃ ds, related (M.after es) (N.after ds) ∧ N.observed see' ds = M.observed see es := by
  induction es with
  | nil => exact ⟨[], h.init, rfl⟩
  | cons e es ih =>
    obtain ⟨older, hrelated, hseen⟩ := ih
    obtain ⟨newer, hrelated', hseen'⟩ := h.step es (N.after older) e hrelated
    refine ⟨newer ++ older, ?_, ?_⟩
    · rw [after_append]
      exact hrelated'
    · rw [observed_append, observed_cons, hseen, hseen']

/-! ## Parts of a machine -/

/-- What a run comes to below, where each step comes to the events `below`, the newest first. -/
def eventsBelow (M : Machine σ ε ω) (below : σ → ε → List δ) : List ε → List δ
  | [] => []
  | e :: es => below (M.after es) e ++ M.eventsBelow below es

/-- A part of the machine that goes the way of another machine goes it in the whole run. -/
theorem after_eventsBelow {M : Machine σ ε ω} {N : Machine τ δ ψ} {below : σ → ε → List δ}
    (related : σ → τ → Prop) (hinit : related M.init N.init)
    (hstep : ∀ es e t, related (M.after es) t →
      related (M.step (M.after es) e).2 ((N.startingAt t).after (below (M.after es) e)))
    (es : List ε) : related (M.after es) (N.after (M.eventsBelow below es)) := by
  induction es with
  | nil => exact hinit
  | cons e es ih =>
    rw [eventsBelow, after_append]
    exact hstep es e _ ih

/-- An observer of the part notices the same as one of the whole, if this holds of every step. -/
theorem filterMap_eventsBelow {M : Machine σ ε ω} {below : σ → ε → List δ}
    {see : ε × ω → Option α} {see' : δ → Option α}
    (hstep : ∀ es e, (below (M.after es) e).filterMap see' =
      (see (e, (M.step (M.after es) e).1)).toList) (es : List ε) :
    (M.eventsBelow below es).filterMap see' = M.observed see es := by
  induction es with
  | nil => rfl
  | cons e es ih => rw [eventsBelow, List.filterMap_append, hstep, ih, observed_cons]

theorem exists_mem_of_eventsBelow {M : Machine σ ε ω} {below : σ → ε → List δ} {d : δ}
    {es : List ε} (h : d ∈ M.eventsBelow below es) : ∃ s, ∃ e ∈ es, d ∈ below s e := by
  induction es with
  | nil => cases h
  | cons e es ih =>
    rw [eventsBelow, List.mem_append] at h
    rcases h with hnew | hold
    · exact ⟨_, e, List.mem_cons_self, hnew⟩
    · obtain ⟨s, e', he', hd⟩ := ih hold
      exact ⟨s, e', List.mem_cons_of_mem _ he', hd⟩

end Machine
