import Gravastar.Lib.Machine
import Gravastar.UpstreamBlocklist

/-!
# The thread of the updater (`upstream_blocklist.cpp`)

`Start` and `Stop` are called by one thread, and `ThreadLoop` is another. What
either does with `running_` happens under the mutex, so a step is what a thread
does from taking the mutex to giving it back, and waiting gives it back.
-/

namespace Gravastar

/-- Where the thread is in `ThreadLoop`. -/
inductive LoopStage where
  /-- Before or in the initial update. -/
  | initial
  /-- About to look at the condition of the loop. -/
  | looking
  /-- In `pthread_cond_timedwait`; the broadcast of `Stop` unblocks it. -/
  | waiting (unblocked : Bool)
  /-- Before or in a periodic update. -/
  | periodic
  | ended
  deriving DecidableEq, Repr

def LoopStage.unblock : LoopStage → LoopStage
  | .waiting _ => .waiting true
  | .initial => .initial
  | .looking => .looking
  | .periodic => .periodic
  | .ended => .ended

/-- `thread` is the thread that was created and not joined yet. -/
structure UpdaterThread where
  running : Bool
  thread : Option LoopStage
  /-- `Stop` is in `pthread_join`. -/
  joining : Bool
  deriving DecidableEq, Repr

namespace UpdaterThread

def new : UpdaterThread := ⟨false, none, false⟩

/-- `created` says whether `pthread_create` succeeds. -/
def start (t : UpdaterThread) (created : Bool) : Bool × UpdaterThread :=
  if t.running then (false, t)
  else if created then (true, { t with running := true, thread := some .initial })
  else (false, { t with running := false })

/-- `Stop` up to `pthread_join`. -/
def stop (t : UpdaterThread) : UpdaterThread :=
  if t.running then ⟨false, t.thread.map LoopStage.unblock, true⟩ else t

/-- `pthread_join` returns where the thread has ended. -/
def join (t : UpdaterThread) : UpdaterThread :=
  if t.joining ∧ t.thread = some .ended then { t with thread := none, joining := false } else t

/-- The thread is in `UpdateOnce`. -/
def updates (t : UpdaterThread) : Bool :=
  t.thread = some .initial || t.thread = some .periodic

/-- `UpdateOnce` returns. -/
def updated (t : UpdaterThread) : UpdaterThread :=
  if t.updates then { t with thread := some .looking } else t

/-- `while (running_)`. -/
def look (t : UpdaterThread) : UpdaterThread :=
  if t.thread = some .looking then
    { t with thread := some (if t.running then .waiting false else .ended) }
  else t

/-- `pthread_cond_timedwait` returns, and the thread looks at `running_` again. -/
def wakeUp (t : UpdaterThread) : UpdaterThread :=
  if t.thread = some (.waiting false) ∨ t.thread = some (.waiting true) then
    { t with thread := some (if t.running then .periodic else .ended) }
  else t

/-- The thread goes on without the timer. -/
def CanGoOn (t : UpdaterThread) : Prop :=
  t.updates = true ∨ t.thread = some .looking ∨ t.thread = some (.waiting true)

instance (t : UpdaterThread) : Decidable t.CanGoOn := inferInstanceAs (Decidable (_ ∨ _ ∨ _))

section
variable (t : UpdaterThread)

@[simp] theorem joining_start (created : Bool) : (t.start created).2.joining = t.joining := by
  rw [start]
  split_ifs <;> rfl

@[simp] theorem joining_updated : t.updated.joining = t.joining := by
  rw [updated]
  split_ifs <;> rfl

@[simp] theorem joining_look : t.look.joining = t.joining := by
  unfold look
  split <;> rfl

@[simp] theorem joining_wakeUp : t.wakeUp.joining = t.joining := by
  unfold wakeUp
  split <;> rfl

variable {t}

/-- Without a thread nothing goes on. -/
theorem thread_eq_none (h : t.thread = none) :
    t.updated.thread = none ∧ t.look.thread = none ∧ t.wakeUp.thread = none := by
  simp [updated, look, wakeUp, updates, h]

end

/-! ## What holds throughout -/

/-- Idle, running or being joined, and nobody waits for a timer once `Stop` was called. -/
inductive Sound : UpdaterThread → Prop
  | idle : Sound ⟨false, none, false⟩
  | running {stage : LoopStage} (alive : stage ≠ .ended) : Sound ⟨true, some stage, false⟩
  | joining {stage : LoopStage} (awake : stage ≠ .waiting false) : Sound ⟨false, some stage, true⟩

variable {t : UpdaterThread}

theorem Sound.start (h : t.Sound) (hidle : t.joining = false) (created : Bool) :
    (t.start created).2.Sound := by
  cases h with
  | idle => cases created <;> first | exact .idle | exact .running nofun
  | running alive => exact .running alive
  | joining => cases hidle

theorem Sound.stop (h : t.Sound) : t.stop.Sound := by
  cases h with
  | idle => exact .idle
  | @running stage alive =>
    refine .joining ?_
    cases stage <;> nofun
  | joining awake => exact .joining awake

theorem Sound.join (h : t.Sound) : t.join.Sound := by
  rw [UpdaterThread.join]
  split_ifs with hj
  · cases h with
    | idle | running => cases hj.1
    | joining => exact .idle
  · exact h

theorem Sound.updated (h : t.Sound) : t.updated.Sound := by
  rw [UpdaterThread.updated]
  split_ifs with hu
  · cases h with
    | idle => cases hu
    | running => exact .running nofun
    | joining => exact .joining nofun
  · exact h

theorem Sound.look (h : t.Sound) : t.look.Sound := by
  rw [UpdaterThread.look]
  split
  · rename_i hl
    cases h with
    | idle => cases hl
    | running => exact .running nofun
    | joining => exact .joining nofun
  · exact h

theorem Sound.wakeUp (h : t.Sound) : t.wakeUp.Sound := by
  rw [UpdaterThread.wakeUp]
  split
  · rename_i hw
    cases h with
    | idle => rcases hw with hw | hw <;> cases hw
    | running => exact .running nofun
    | joining => exact .joining nofun
  · exact h

/-! ## The end of the thread -/

/-- How many steps the thread has left after `Stop` was called. -/
def toDo (t : UpdaterThread) : Nat :=
  match t.thread with
  | none | some .ended => 0
  | some .looking | some (.waiting _) => 1
  | some .initial | some .periodic => 2

theorem toDo_le (t : UpdaterThread) : t.toDo ≤ 2 := by
  unfold toDo
  split <;> omega

/-- A thread that is told to end has a step left or has ended, and each step brings it nearer. -/
theorem Sound.goes_on (h : t.Sound) (hj : t.joining = true) :
    t.CanGoOn ∨ t.thread = some .ended := by
  cases h with
  | idle | running => cases hj
  | @joining stage awake =>
    cases stage with
    | initial | periodic => exact .inl (.inl rfl)
    | looking => exact .inl (.inr (.inl rfl))
    | waiting unblocked =>
      cases unblocked with
      | false => exact absurd rfl awake
      | true => exact .inl (.inr (.inr rfl))
    | ended => exact .inr rfl

theorem toDo_updated (t : UpdaterThread) :
    t.updated.toDo ≤ t.toDo ∧ (t.updates = true → t.updated.toDo < t.toDo) := by
  rw [updated]
  split_ifs with h
  · have h2 : t.toDo = 2 := by
      rcases (Bool.or_eq_true _ _).mp h with h | h <;> simp [toDo, of_decide_eq_true h]
    rw [h2]
    exact ⟨Nat.le_succ 1, fun _ => Nat.lt_succ_self 1⟩
  · exact ⟨le_rfl, fun h' => absurd h' h⟩

theorem toDo_look (hr : t.running = false) :
    t.look.toDo ≤ t.toDo ∧ (t.thread = some .looking → t.look.toDo < t.toDo) := by
  by_cases h : t.thread = some .looking
  · rw [look, if_pos h]
    simp [toDo, h, hr]
  · rw [look, if_neg h]
    exact ⟨le_rfl, fun h' => absurd h' h⟩

theorem toDo_wakeUp (hr : t.running = false) :
    t.wakeUp.toDo ≤ t.toDo ∧ (t.thread = some (.waiting true) → t.wakeUp.toDo < t.toDo) := by
  by_cases h : t.thread = some (.waiting false) ∨ t.thread = some (.waiting true)
  · rw [wakeUp, if_pos h]
    rcases h with h | h <;> simp [toDo, h, hr]
  · rw [wakeUp, if_neg h]
    exact ⟨le_rfl, fun h' => absurd (.inr h') h⟩

end UpdaterThread

end Gravastar
