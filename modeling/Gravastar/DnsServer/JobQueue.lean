import Gravastar.Lib.Machine
import Mathlib.Data.List.Basic
import Mathlib.Logic.Function.Basic

/-!
# The job queue between the receiver and the workers (`dns_server.cpp`)

Everything that `Enqueue`, `Dequeue` and `StopWorkers` do to `queue_` and
`running_` happens under `queue_mutex_`, so a step is what one thread does from
taking the mutex to giving it back. Giving it back includes waiting: a waiting
worker may wake up at any time, signalled or not, and looks again. Jobs and
workers are of any type.
-/

namespace Gravastar

section
variable {ι α : Type}

/-- Where a worker is in `WorkerLoop`. -/
inductive WorkerState (α : Type) where
  /-- About to call `Dequeue`. -/
  | idle
  /-- In `pthread_cond_wait`. -/
  | waiting
  /-- In `HandleQuery`. -/
  | handling (job : α)
  /-- Out of the loop. -/
  | left
  deriving DecidableEq, Repr

/-- The receiver is in the loop of `Run` or has gone on to `StopWorkers`. -/
structure JobQueue (ι α : Type) where
  queue : List α
  running : Bool
  receiving : Bool
  workers : ι → WorkerState α

/-- How a worker's turn under the mutex ends. -/
inductive DequeueResult (α : Type) where
  | waits
  | returnsFalse
  | returns (job : α)
  deriving DecidableEq, Repr

inductive QueueEvent (ι α : Type) where
  /-- The receiver has a packet. -/
  | enqueue (job : α)
  | stopWorkers
  /-- A worker enters `Dequeue` or wakes up in it. -/
  | dequeue (worker : ι)
  /-- `HandleQuery` returns. -/
  | handled (worker : ι)
  deriving DecidableEq, Repr

/-- What a step did. -/
inductive QueueOutput (ι α : Type) where
  | none
  | enqueued (job : α)
  | returned (worker : ι) (job : α)
  | returnedFalse (worker : ι)
  deriving DecidableEq, Repr

/-- The job that a call of `Enqueue` put in. -/
def QueueOutput.enqueuedJob : QueueOutput ι α → Option α
  | .enqueued job => some job
  | .none | .returned _ _ | .returnedFalse _ => Option.none

/-- The job that a call of `Dequeue` returned. -/
def QueueOutput.returnedJob : QueueOutput ι α → Option α
  | .returned _ job => some job
  | .none | .enqueued _ | .returnedFalse _ => Option.none

namespace JobQueue

def enqueue (s : JobQueue ι α) (job : α) : JobQueue ι α := { s with queue := s.queue ++ [job] }

def stopWorkers (s : JobQueue ι α) : JobQueue ι α := { s with running := false, receiving := false }

/-- `Dequeue` from a look at the condition of its loop on. -/
def dequeue (s : JobQueue ι α) : DequeueResult α × List α :=
  if s.queue.isEmpty && s.running then (.waits, s.queue)
  else if !s.running && s.queue.isEmpty then (.returnsFalse, s.queue)
  else
    match s.queue with
    | [] => (.waits, []) -- not reached: an empty queue is caught above
    | job :: queue => (.returns job, queue)

variable [DecidableEq ι]

def setWorker (s : JobQueue ι α) (w : ι) (state : WorkerState α) : JobQueue ι α :=
  { s with workers := Function.update s.workers w state }

/-- A worker's turn, after which it waits, leaves `WorkerLoop` or handles a job. -/
def dequeueStep (s : JobQueue ι α) (w : ι) : QueueOutput ι α × JobQueue ι α :=
  match s.dequeue with
  | (.waits, queue) => (.none, { s with queue }.setWorker w .waiting)
  | (.returnsFalse, queue) => (.returnedFalse w, { s with queue }.setWorker w .left)
  | (.returns job, queue) => (.returned w job, { s with queue }.setWorker w (.handling job))

/-- An event of a thread that is elsewhere in its program does nothing. -/
def step (s : JobQueue ι α) : QueueEvent ι α → QueueOutput ι α × JobQueue ι α
  | .enqueue job => if s.receiving then (.enqueued job, s.enqueue job) else (.none, s)
  | .stopWorkers => if s.receiving then (.none, s.stopWorkers) else (.none, s)
  | .dequeue w =>
    match s.workers w with
    | .idle | .waiting => s.dequeueStep w
    | .handling _ | .left => (.none, s)
  | .handled w =>
    match s.workers w with
    | .handling _ => (.none, s.setWorker w .idle)
    | .idle | .waiting | .left => (.none, s)

/-- `Run` has set `running_`, and the workers start. -/
def machine : Machine (JobQueue ι α) (QueueEvent ι α) (QueueOutput ι α) :=
  ⟨⟨[], true, true, fun _ => .idle⟩, step⟩

/-- The jobs enqueued in a run, the oldest first. -/
def enqueuedJobs (es : List (QueueEvent ι α)) : List α :=
  ((machine.log es).filterMap fun entry => entry.2.enqueuedJob).reverse

/-- The jobs returned by `Dequeue` in a run, to whichever worker, the oldest first. -/
def returnedJobs (es : List (QueueEvent ι α)) : List α :=
  ((machine.log es).filterMap fun entry => entry.2.returnedJob).reverse

/-! ## One step -/

/-- What a step can do, with what it has found out. -/
inductive Step (s : JobQueue ι α) : QueueEvent ι α → QueueOutput ι α → JobQueue ι α → Prop
  | enqueue (job : α) (receiving : s.receiving = true) :
      Step s (.enqueue job) (.enqueued job) (s.enqueue job)
  | stopWorkers : Step s .stopWorkers .none s.stopWorkers
  | waits (w : ι) (running : s.running = true) :
      Step s (.dequeue w) .none (s.setWorker w .waiting)
  | returnsFalse (w : ι) (stopped : s.running = false) (empty : s.queue = []) :
      Step s (.dequeue w) (.returnedFalse w) (s.setWorker w .left)
  | returns (w : ι) (job : α) (rest : List α) (front : s.queue = job :: rest) :
      Step s (.dequeue w) (.returned w job) ({ s with queue := rest }.setWorker w (.handling job))
  | handled (w : ι) : Step s (.handled w) .none (s.setWorker w .idle)
  | elsewhere (e : QueueEvent ι α) : Step s e .none s

theorem dequeueStep_spec (s : JobQueue ι α) (w : ι) :
    Step s (.dequeue w) (s.dequeueStep w).1 (s.dequeueStep w).2 := by
  obtain ⟨queue, running, receiving, workers⟩ := s
  cases queue with
  | cons job rest => cases running <;> exact .returns w job rest rfl
  | nil =>
    cases running with
    | true => exact .waits w rfl
    | false => exact .returnsFalse w rfl rfl

theorem step_spec (s : JobQueue ι α) (e : QueueEvent ι α) :
    Step s e (s.step e).1 (s.step e).2 := by
  cases e with
  | enqueue job =>
    rw [step]
    split_ifs with h
    · exact .enqueue job h
    · exact .elsewhere _
  | stopWorkers =>
    rw [step]
    split_ifs with h
    · exact .stopWorkers
    · exact .elsewhere _
  | dequeue w =>
    rw [step]
    cases s.workers w with
    | idle | waiting => exact s.dequeueStep_spec w
    | handling job => exact .elsewhere _
    | left => exact .elsewhere _
  | handled w =>
    rw [step]
    cases s.workers w with
    | handling job => exact .handled w
    | idle | waiting => exact .elsewhere _
    | left => exact .elsewhere _

/-- The receiver alone clears `running_`, and workers leave only what is drained for good. -/
structure Drained (s : JobQueue ι α) : Prop where
  running : s.running = s.receiving
  left : ∀ w, s.workers w = .left → s.running = false ∧ s.queue = []

theorem workers_setWorker (s : JobQueue ι α) (w v : ι) (state : WorkerState α) :
    (s.setWorker w state).workers v = if v = w then state else s.workers v := by
  simp [setWorker, Function.update_apply]

theorem Step.drained {s s' : JobQueue ι α} {e : QueueEvent ι α} {out : QueueOutput ι α}
    (h : Step s e out s') (hs : s.Drained) : s'.Drained := by
  cases h with
  | enqueue job receiving =>
    refine ⟨hs.running, fun w hw => ?_⟩
    have hstopped := (hs.left w hw).1
    rw [hs.running, receiving] at hstopped
    cases hstopped
  | stopWorkers => exact ⟨rfl, fun w hw => ⟨rfl, (hs.left w hw).2⟩⟩
  | waits w running =>
    refine ⟨hs.running, fun v hv => ?_⟩
    rw [workers_setWorker] at hv
    split_ifs at hv
    exact hs.left v hv
  | returnsFalse w stopped empty => exact ⟨hs.running, fun _ _ => ⟨stopped, empty⟩⟩
  | returns w job rest front =>
    refine ⟨hs.running, fun v hv => ?_⟩
    rw [workers_setWorker] at hv
    split_ifs at hv
    have hempty := (hs.left v hv).2
    rw [front] at hempty
    cases hempty
  | handled w =>
    refine ⟨hs.running, fun v hv => ?_⟩
    rw [workers_setWorker] at hv
    split_ifs at hv
    exact hs.left v hv
  | elsewhere => exact hs

/-- What a step adds to either end of the queue. -/
theorem Step.queue {s s' : JobQueue ι α} {e : QueueEvent ι α} {out : QueueOutput ι α}
    (h : Step s e out s') :
    out.returnedJob.toList ++ s'.queue = s.queue ++ out.enqueuedJob.toList := by
  cases h with
  | enqueue job => rfl
  | returns w job rest front =>
    rw [front]
    exact (List.append_nil _).symm
  | stopWorkers | waits | returnsFalse | handled | elsewhere => exact (List.append_nil _).symm

/-! ## Every run -/

variable {es : List (QueueEvent ι α)}

theorem reverse_filterMap_cons {β γ : Type} (f : β → Option γ) (b : β) (bs : List β) :
    ((b :: bs).filterMap f).reverse = (bs.filterMap f).reverse ++ (f b).toList := by
  cases h : f b <;> simp [h]

theorem enqueuedJobs_cons (e : QueueEvent ι α) : enqueuedJobs (e :: es) =
    enqueuedJobs es ++ (step (machine.after es) e).1.enqueuedJob.toList :=
  reverse_filterMap_cons ..

theorem returnedJobs_cons (e : QueueEvent ι α) : returnedJobs (e :: es) =
    returnedJobs es ++ (step (machine.after es) e).1.returnedJob.toList :=
  reverse_filterMap_cons ..

theorem run_drained (es : List (QueueEvent ι α)) : (machine.after es).Drained := by
  apply Machine.invariant
  · exact ⟨rfl, fun _ h => by cases h⟩
  · intro s e hs
    exact (s.step_spec e).drained hs

/-- The jobs returned so far and those in the queue are the jobs enqueued, in this order. -/
theorem run_queue (es : List (QueueEvent ι α)) :
    returnedJobs es ++ (machine.after es).queue = enqueuedJobs es := by
  induction es with
  | nil => rfl
  | cons e es ih =>
    have hstep := ((machine.after es).step_spec e).queue
    rw [returnedJobs_cons, enqueuedJobs_cons, List.append_assoc, Machine.after_cons, ← ih,
      List.append_assoc]
    exact congrArg _ hstep

/-- For any number of workers and every order of steps: jobs are returned in the order in which
they were enqueued, each once; `Dequeue` returns false only after the stop and from an empty queue;
and when all workers have left, every job was returned. -/
theorem jobs_delivered [Nonempty ι] (es : List (QueueEvent ι α)) :
    returnedJobs es <+: enqueuedJobs es ∧
      (∀ newer e older w, es = newer ++ e :: older →
        (step (machine.after older) e).1 = .returnedFalse w →
        (machine.after older).running = false ∧ (machine.after older).queue = []) ∧
      ((∀ w, (machine.after es).workers w = .left) → returnedJobs es = enqueuedJobs es) := by
  refine ⟨⟨_, run_queue es⟩, ?_, ?_⟩
  · intro newer e older w _ hout
    have hstep := (machine.after older).step_spec e
    rw [hout] at hstep
    generalize (step (machine.after older) e).2 = s' at hstep
    cases hstep with
    | returnsFalse _ stopped empty => exact ⟨stopped, empty⟩
  · intro hleft
    obtain ⟨w⟩ := ‹Nonempty ι›
    have hempty := ((run_drained es).left w (hleft w)).2
    rw [← run_queue es, hempty, List.append_nil]

/-- Two workers, three jobs, a wake-up for nothing and a stop with a job still in the queue. -/
def shutdownRun : List (QueueEvent Bool Nat) :=
  [.dequeue true, .handled true, .dequeue false, .dequeue true, .handled true, .stopWorkers,
    .handled false, .dequeue true, .enqueue 3, .enqueue 2, .dequeue false, .enqueue 1,
    .dequeue true, .dequeue false, .dequeue false]

theorem jobs_delivered_shutdown : returnedJobs shutdownRun = [1, 2, 3] ∧
    returnedJobs shutdownRun = enqueuedJobs shutdownRun :=
  ⟨by decide, (jobs_delivered shutdownRun).2.2 (by decide)⟩

end JobQueue

end

end Gravastar
