import Gravastar.DnsServer.JobQueue
import Gravastar.Lib.Accounting
import Gravastar.Lib.Progress
import Mathlib.Algebra.BigOperators.Group.Finset.Basic
import Mathlib.Algebra.Order.BigOperators.Group.Finset
import Mathlib.Data.Finset.Card
import Mathlib.Data.Fintype.Basic

/-!
# Waiting and waking up (`dns_server.cpp`)

In `JobQueue` a waiting worker may look again at any time. Here it sleeps until
it is woken: by the signal of `Enqueue`, which unblocks at least one sleeper if
there is one, by the broadcast of `StopWorkers`, or for nothing. The queue is
the same one, so jobs are still returned in order; and the signals that are sent
are enough, both for the jobs and for the end.
-/

namespace Gravastar

section
variable {ι α : Type}

def WorkerState.isWaiting : WorkerState α → Bool
  | .waiting => true
  | .idle | .handling _ | .left => false

/-- In `Dequeue`, or about to enter it. -/
def WorkerState.dequeues : WorkerState α → Bool
  | .idle | .waiting => true
  | .handling _ | .left => false

def WorkerState.handles : WorkerState α → Bool
  | .handling _ => true
  | .idle | .waiting | .left => false

/-- The workers in `woken` are still in `pthread_cond_wait`, but nothing blocks them there. -/
structure SignalQueue (ι α : Type) extends JobQueue ι α where
  woken : Finset ι

inductive SignalEvent (ι α : Type) where
  /-- The receiver has a packet, and its signal unblocks these workers. -/
  | enqueue (job : α) (signalled : Finset ι)
  | stopWorkers
  /-- A worker wakes up for nothing. -/
  | wakeUp (worker : ι)
  | dequeue (worker : ι)
  | handled (worker : ι)
  deriving DecidableEq

/-- What an observer of the queue sees of a step. -/
def QueueOutput.seen : QueueOutput ι α → Option (QueueOutput ι α)
  | .none => Option.none
  | .enqueued job => some (.enqueued job)
  | .returned w job => some (.returned w job)
  | .returnedFalse w => some (.returnedFalse w)

namespace SignalQueue

variable [DecidableEq ι] [Fintype ι]

/-- The workers that are blocked in `pthread_cond_wait`. -/
def asleep (s : SignalQueue ι α) : Finset ι :=
  {w | (s.workers w).isWaiting ∧ w ∉ s.woken}

/-- What `pthread_cond_signal` may do. -/
def Signals (s : SignalQueue ι α) (signalled : Finset ι) : Prop :=
  signalled ⊆ s.asleep ∧ (s.asleep.Nonempty → signalled.Nonempty)

instance (s : SignalQueue ι α) (signalled : Finset ι) : Decidable (s.Signals signalled) :=
  inferInstanceAs (Decidable (_ ∧ _))

/-- Nothing happens where the threads or the system cannot do what the event says. -/
def step (s : SignalQueue ι α) : SignalEvent ι α → QueueOutput ι α × SignalQueue ι α
  | .enqueue job signalled =>
    if s.receiving ∧ s.Signals signalled then
      (.enqueued job, ⟨s.toJobQueue.enqueue job, s.woken ∪ signalled⟩)
    else (.none, s)
  | .stopWorkers =>
    if s.receiving then (.none, ⟨s.toJobQueue.stopWorkers, s.woken ∪ s.asleep⟩) else (.none, s)
  | .wakeUp w => if w ∈ s.asleep then (.none, { s with woken := insert w s.woken }) else (.none, s)
  | .dequeue w =>
    if w ∈ s.asleep then (.none, s)
    else
      let (out, queue) := s.toJobQueue.step (.dequeue w)
      (out, ⟨queue, s.woken.erase w⟩)
  | .handled w =>
    let (out, queue) := s.toJobQueue.step (.handled w)
    (out, ⟨queue, s.woken⟩)

def machine : Machine (SignalQueue ι α) (SignalEvent ι α) (QueueOutput ι α) :=
  ⟨⟨JobQueue.machine.init, ∅⟩, step⟩

/-- The worker is about to look at the condition of the loop in `Dequeue`. -/
def InDequeue (s : SignalQueue ι α) (w : ι) : Prop :=
  w ∉ s.asleep ∧ (s.workers w).dequeues = true

instance (s : SignalQueue ι α) (w : ι) : Decidable (s.InDequeue w) :=
  inferInstanceAs (Decidable (_ ∧ _))

/-- The event is a move of a worker that has one. -/
def Moves (s : SignalQueue ι α) : SignalEvent ι α → Prop
  | .dequeue w => s.InDequeue w
  | .handled w => (s.workers w).handles = true
  | .enqueue _ _ | .stopWorkers | .wakeUp _ => False

instance (s : SignalQueue ι α) : ∀ e, Decidable (s.Moves e)
  | .dequeue w => inferInstanceAs (Decidable (s.InDequeue w))
  | .handled _ => inferInstanceAs (Decidable (_ = true))
  | .enqueue _ _ | .stopWorkers | .wakeUp _ => inferInstanceAs (Decidable False)

/-! ## The queue is the same -/

/-- The events of `JobQueue` that an event comes to. -/
def queueEvents (s : SignalQueue ι α) : SignalEvent ι α → List (QueueEvent ι α)
  | .enqueue job signalled => if s.Signals signalled then [.enqueue job] else []
  | .stopWorkers => [.stopWorkers]
  | .wakeUp _ => []
  | .dequeue w => if w ∈ s.asleep then [] else [.dequeue w]
  | .handled w => [.handled w]

theorem mem_asleep {s : SignalQueue ι α} {w : ι} :
    w ∈ s.asleep ↔ s.workers w = .waiting ∧ w ∉ s.woken := by
  unfold asleep
  rw [Finset.mem_filter]
  cases h : s.workers w <;> simp [WorkerState.isWaiting]

/-- A step is a step of the queue below it, or no step of it. -/
theorem step_queue (s : SignalQueue ι α) (e : SignalEvent ι α) :
    let below := JobQueue.machine.startingAt s.toJobQueue
    below.after (s.queueEvents e) = (s.step e).2.toJobQueue ∧
      below.observed (fun entry => entry.2.seen) (s.queueEvents e) = (s.step e).1.seen.toList := by
  intro below
  cases e with
  | enqueue job signalled =>
    by_cases hs : s.Signals signalled <;> by_cases hr : s.receiving <;>
      simp [queueEvents, step, hs, hr, below, Machine.observed_cons, JobQueue.machine,
        JobQueue.step, QueueOutput.seen]
  | stopWorkers =>
    by_cases hr : s.receiving <;>
      simp [queueEvents, step, hr, below, Machine.observed_cons, JobQueue.machine,
        JobQueue.step, QueueOutput.seen]
  | wakeUp w =>
    by_cases hw : w ∈ s.asleep <;> simp [queueEvents, step, hw, below, QueueOutput.seen]
  | dequeue w =>
    by_cases hw : w ∈ s.asleep <;>
      simp [queueEvents, step, hw, below, Machine.observed_cons, JobQueue.machine,
        QueueOutput.seen]
  | handled w =>
    simp [queueEvents, step, below, Machine.observed_cons, JobQueue.machine]

/-- Signals and sleep only choose among the runs of the queue. -/
theorem simulates : (machine : Machine (SignalQueue ι α) _ _).Simulates JobQueue.machine
    (fun s t => s.toJobQueue = t) (fun entry => entry.2.seen) (fun entry => entry.2.seen) where
  init := rfl
  step := by
    rintro es _ e rfl
    exact ⟨_, (step_queue (machine.after es) e).1.symm, (step_queue (machine.after es) e).2⟩

/-! ## One step -/

/-- What a step can do, with what it has found out. -/
inductive Step (s : SignalQueue ι α) :
    SignalEvent ι α → QueueOutput ι α → SignalQueue ι α → Prop
  | enqueue (job : α) (signalled : Finset ι) (receiving : s.receiving = true)
      (signals : s.Signals signalled) :
      Step s (.enqueue job signalled) (.enqueued job)
        ⟨s.toJobQueue.enqueue job, s.woken ∪ signalled⟩
  | stopWorkers (receiving : s.receiving = true) :
      Step s .stopWorkers .none ⟨s.toJobQueue.stopWorkers, s.woken ∪ s.asleep⟩
  | wakeUp (w : ι) (sleeps : w ∈ s.asleep) :
      Step s (.wakeUp w) .none { s with woken := insert w s.woken }
  | waits (w : ι) (turn : s.InDequeue w) (running : s.running = true) (empty : s.queue = []) :
      Step s (.dequeue w) .none ⟨s.toJobQueue.setWorker w .waiting, s.woken.erase w⟩
  | returnsFalse (w : ι) (turn : s.InDequeue w) (stopped : s.running = false)
      (empty : s.queue = []) :
      Step s (.dequeue w) (.returnedFalse w) ⟨s.toJobQueue.setWorker w .left, s.woken.erase w⟩
  | returns (w : ι) (job : α) (rest : List α) (turn : s.InDequeue w)
      (front : s.queue = job :: rest) :
      Step s (.dequeue w) (.returned w job)
        ⟨{ s.toJobQueue with queue := rest }.setWorker w (.handling job), s.woken.erase w⟩
  | handled (w : ι) (job : α) (handling : s.workers w = .handling job) :
      Step s (.handled w) .none ⟨s.toJobQueue.setWorker w .idle, s.woken⟩
  | nothing (e : SignalEvent ι α) (still : ¬ s.Moves e) : Step s e .none s

theorem dequeueStep_spec (s : SignalQueue ι α) {w : ι} (turn : s.InDequeue w) :
    Step s (.dequeue w) (s.toJobQueue.dequeueStep w).1
      ⟨(s.toJobQueue.dequeueStep w).2, s.woken.erase w⟩ := by
  obtain ⟨⟨queue, running, receiving, workers⟩, woken⟩ := s
  cases queue with
  | cons job rest => cases running <;> exact .returns w job rest turn rfl
  | nil =>
    cases running with
    | true => exact .waits w turn rfl rfl
    | false => exact .returnsFalse w turn rfl rfl

theorem step_spec {s : SignalQueue ι α} (hs : ∀ w ∈ s.woken, s.workers w = .waiting)
    (e : SignalEvent ι α) : Step s e (s.step e).1 (s.step e).2 := by
  cases e with
  | enqueue job signalled =>
    rw [step]
    split_ifs with h
    · exact .enqueue job signalled h.1 h.2
    · exact .nothing _ nofun
  | stopWorkers =>
    rw [step]
    split_ifs with h
    · exact .stopWorkers h
    · exact .nothing _ nofun
  | wakeUp w =>
    rw [step]
    split_ifs with h
    · exact .wakeUp w h
    · exact .nothing _ nofun
  | dequeue w =>
    rw [step]
    split_ifs with h
    · exact .nothing _ fun turn => turn.1 h
    · have hturn : (s.workers w).dequeues = true → s.InDequeue w := fun hw => ⟨h, hw⟩
      have hwoken : (s.workers w).dequeues = false → s.woken.erase w = s.woken := by
        intro hw
        refine Finset.erase_eq_of_notMem fun hmem => ?_
        rw [hs w hmem] at hw
        cases hw
      rw [JobQueue.step]
      cases hw : s.workers w with
      | idle | waiting => exact dequeueStep_spec s (hturn (by rw [hw]; rfl))
      | handling job | left =>
        dsimp only
        rw [hwoken (by rw [hw]; rfl)]
        exact .nothing _ fun turn => by simpa [hw, WorkerState.dequeues] using turn.2
  | handled w =>
    rw [step, JobQueue.step]
    cases hw : s.workers w with
    | handling job => exact .handled w job hw
    | idle | waiting | left =>
      exact .nothing _ fun moves => by simp [Moves, hw, WorkerState.handles] at moves

/-! ## No wake-up is lost -/

/-- Who is woken was waiting; and while anybody sleeps the server runs, and as many workers are
woken as there are jobs. -/
structure Attended (s : SignalQueue ι α) : Prop where
  woken : ∀ w ∈ s.woken, s.workers w = .waiting
  running : s.asleep.Nonempty → s.running = true
  jobs : s.asleep.Nonempty → s.queue.length ≤ s.woken.card

/-- Only the worker of the turn is elsewhere afterwards. -/
theorem asleep_setWorker (s : SignalQueue ι α) (queue : List α) (w : ι) (state : WorkerState α)
    (hstate : state ≠ .waiting) {woken : Finset ι} (hwoken : s.woken.erase w ⊆ woken) :
    asleep ⟨{ s.toJobQueue with queue }.setWorker w state, woken⟩ ⊆ s.asleep := by
  intro v hv
  obtain ⟨hwaiting, hsleeps⟩ := mem_asleep.mp hv
  dsimp only at hwaiting hsleeps
  rw [JobQueue.workers_setWorker] at hwaiting
  split_ifs at hwaiting with hne
  · exact absurd hwaiting hstate
  · exact mem_asleep.mpr ⟨hwaiting, fun h => hsleeps (hwoken (Finset.mem_erase.mpr ⟨hne, h⟩))⟩

omit [Fintype ι] in
theorem waiting_of_mem_erase {s : SignalQueue ι α}
    (hs : ∀ w ∈ s.woken, s.workers w = .waiting) (queue : List α) (w : ι) (state : WorkerState α) :
    ∀ v ∈ s.woken.erase w,
      ({ s.toJobQueue with queue }.setWorker w state).workers v = .waiting := by
  intro v hv
  obtain ⟨hne, hv⟩ := Finset.mem_erase.mp hv
  rw [JobQueue.workers_setWorker, if_neg hne]
  exact hs v hv

theorem Step.attended {s s' : SignalQueue ι α} {e : SignalEvent ι α} {out : QueueOutput ι α}
    (h : Step s e out s') (hs : s.Attended) : s'.Attended := by
  cases h with
  | enqueue job signalled receiving signals =>
    have hsub : asleep ⟨s.toJobQueue.enqueue job, s.woken ∪ signalled⟩ ⊆ s.asleep := by
      intro w hw
      obtain ⟨hwaiting, hsleeps⟩ := mem_asleep.mp hw
      exact mem_asleep.mpr ⟨hwaiting, fun h => hsleeps (Finset.mem_union_left _ h)⟩
    refine ⟨fun w hw => ?_, fun h => hs.running (h.mono hsub), fun h => ?_⟩
    · rcases Finset.mem_union.mp hw with hw | hw
      · exact hs.woken w hw
      · exact (mem_asleep.mp (signals.1 hw)).1
    · -- the signal wakes a worker that was not woken before
      have hdisjoint : Disjoint s.woken signalled := Finset.disjoint_right.mpr fun w hw =>
        (mem_asleep.mp (signals.1 hw)).2
      have hsome := (signals.2 (h.mono hsub)).card_pos
      have hjobs := hs.jobs (h.mono hsub)
      dsimp only [JobQueue.enqueue]
      rw [Finset.card_union_of_disjoint hdisjoint, List.length_append, List.length_singleton]
      omega
  | stopWorkers receiving =>
    have hnone : ∀ w, w ∉ asleep ⟨s.toJobQueue.stopWorkers, s.woken ∪ s.asleep⟩ := by
      intro w hw
      obtain ⟨hwaiting, hsleeps⟩ := mem_asleep.mp hw
      refine hsleeps (Finset.mem_union_right _ (mem_asleep.mpr ⟨hwaiting, fun h => ?_⟩))
      exact hsleeps (Finset.mem_union_left _ h)
    refine ⟨fun w hw => ?_, fun ⟨w, hw⟩ => absurd hw (hnone w), fun ⟨w, hw⟩ => absurd hw (hnone w)⟩
    rcases Finset.mem_union.mp hw with hw | hw
    · exact hs.woken w hw
    · exact (mem_asleep.mp hw).1
  | wakeUp w sleeps =>
    have hsub : asleep { s with woken := insert w s.woken } ⊆ s.asleep := by
      intro v hv
      obtain ⟨hwaiting, hsleeps⟩ := mem_asleep.mp hv
      exact mem_asleep.mpr ⟨hwaiting, fun h => hsleeps (Finset.mem_insert_of_mem h)⟩
    refine ⟨fun v hv => ?_, fun h => hs.running (h.mono hsub), fun h => ?_⟩
    · rcases Finset.mem_insert.mp hv with rfl | hv
      · exact (mem_asleep.mp sleeps).1
      · exact hs.woken v hv
    · exact (hs.jobs (h.mono hsub)).trans (Finset.card_le_card (Finset.subset_insert w _))
  | waits w turn running empty =>
    refine ⟨waiting_of_mem_erase hs.woken _ _ _, fun _ => running, fun _ => ?_⟩
    dsimp only [JobQueue.setWorker]
    rw [empty]
    exact Nat.zero_le _
  | returnsFalse w turn stopped empty =>
    have hnone : ¬ (asleep ⟨s.toJobQueue.setWorker w .left, s.woken.erase w⟩).Nonempty := by
      intro h
      have hsub := asleep_setWorker s s.queue w .left nofun
        (Finset.Subset.refl _)
      have hrunning := hs.running (h.mono hsub)
      rw [stopped] at hrunning
      cases hrunning
    exact ⟨waiting_of_mem_erase hs.woken _ _ _, fun h => absurd h hnone, fun h => absurd h hnone⟩
  | returns w job rest turn front =>
    have hsub := asleep_setWorker s rest w (.handling job) nofun
      (Finset.Subset.refl _)
    refine ⟨waiting_of_mem_erase hs.woken _ _ _, fun h => hs.running (h.mono hsub), fun h => ?_⟩
    have hjobs := hs.jobs (h.mono hsub)
    have herase := Finset.pred_card_le_card_erase (s := s.woken) (a := w)
    rw [front, List.length_cons] at hjobs
    dsimp only [JobQueue.setWorker]
    omega
  | handled w job handling =>
    have hsub := asleep_setWorker s s.queue w .idle nofun
      (Finset.erase_subset w s.woken)
    have hnot : w ∉ s.woken := fun h => by simpa [handling] using hs.woken w h
    refine ⟨?_, fun h => hs.running (h.mono hsub), fun h => hs.jobs (h.mono hsub)⟩
    have hwoken := waiting_of_mem_erase hs.woken s.queue w .idle
    rwa [Finset.erase_eq_of_notMem hnot] at hwoken
  | nothing => exact hs

theorem run_attended (es : List (SignalEvent ι α)) : (machine.after es).Attended := by
  apply Machine.invariant
  · exact ⟨fun w hw => absurd hw (Finset.notMem_empty w), fun _ => rfl, fun _ => Nat.zero_le _⟩
  · exact fun s e hs => (step_spec hs.woken e).attended hs

/-! ## Every run -/

/-- The jobs enqueued in a run, the oldest first. -/
def enqueuedJobs (es : List (SignalEvent ι α)) : List α :=
  ((machine.log es).filterMap fun entry => entry.2.enqueuedJob).reverse

/-- The jobs returned by `Dequeue` in a run, the oldest first. -/
def returnedJobs (es : List (SignalEvent ι α)) : List α :=
  ((machine.log es).filterMap fun entry => entry.2.returnedJob).reverse

theorem enqueuedJobs_cons (e : SignalEvent ι α) (es : List (SignalEvent ι α)) :
    enqueuedJobs (e :: es) =
      enqueuedJobs es ++ (step (machine.after es) e).1.enqueuedJob.toList :=
  JobQueue.reverse_filterMap_cons ..

omit [DecidableEq ι] [Fintype ι] in
theorem seen_bind_enqueuedJob (out : QueueOutput ι α) :
    out.seen.bind QueueOutput.enqueuedJob = out.enqueuedJob := by cases out <;> rfl

omit [DecidableEq ι] [Fintype ι] in
theorem seen_bind_returnedJob (out : QueueOutput ι α) :
    out.seen.bind QueueOutput.returnedJob = out.returnedJob := by cases out <;> rfl

/-- The same jobs go through the queue in a run of `JobQueue`. -/
theorem exists_queue_run (es : List (SignalEvent ι α)) :
    ∃ ds, (machine.after es).toJobQueue = JobQueue.machine.after ds ∧
      enqueuedJobs es = JobQueue.enqueuedJobs ds ∧ returnedJobs es = JobQueue.returnedJobs ds := by
  obtain ⟨ds, hafter, hseen⟩ := simulates.exists_run es
  refine ⟨ds, hafter, ?_, ?_⟩
  · have h := congrArg (List.filterMap QueueOutput.enqueuedJob) hseen
    simp only [Machine.filterMap_observed, seen_bind_enqueuedJob] at h
    rw [enqueuedJobs, JobQueue.enqueuedJobs, h]
  · have h := congrArg (List.filterMap QueueOutput.returnedJob) hseen
    simp only [Machine.filterMap_observed, seen_bind_returnedJob] at h
    rw [returnedJobs, JobQueue.returnedJobs, h]

theorem run_drained (es : List (SignalEvent ι α)) :
    (machine.after es).toJobQueue.Drained := by
  obtain ⟨ds, hafter, -, -⟩ := exists_queue_run es
  rw [hafter]
  exact JobQueue.run_drained ds

theorem run_queue (es : List (SignalEvent ι α)) :
    returnedJobs es ++ (machine.after es).queue = enqueuedJobs es := by
  obtain ⟨ds, hafter, henqueued, hreturned⟩ := exists_queue_run es
  rw [hafter, henqueued, hreturned]
  exact JobQueue.run_queue ds

/-- Whoever neither sleeps nor has left can go on. -/
theorem moves_of_awake {s : SignalQueue ι α} {w : ι} (hawake : w ∉ s.asleep)
    (hleft : s.workers w ≠ .left) : s.Moves (.dequeue w) ∨ s.Moves (.handled w) := by
  cases hw : s.workers w with
  | idle | waiting => exact .inl ⟨hawake, by rw [hw]; rfl⟩
  | handling job => exact .inr (by rw [Moves, hw]; rfl)
  | left => exact absurd hw hleft

/-- No wake-up is lost: in every run, whatever the signals unblock and whoever wakes up for
nothing, the jobs go through the queue in order, each once; while anybody sleeps, the server runs
and there is a woken worker for every job in the queue; and as long as there is a job in the queue,
some worker can go on. -/
theorem no_lost_wakeup [Nonempty ι] (es : List (SignalEvent ι α)) :
    let s := machine.after es
    returnedJobs es ++ s.queue = enqueuedJobs es ∧
      (s.asleep.Nonempty → s.running = true ∧ s.queue.length ≤ s.woken.card) ∧
      (s.queue ≠ [] → ∃ w, s.Moves (.dequeue w) ∨ s.Moves (.handled w)) := by
  intro s
  have hattended : s.Attended := run_attended es
  have hdrained : s.Drained := run_drained es
  refine ⟨run_queue es, fun h => ⟨hattended.running h, hattended.jobs h⟩, fun hqueue => ?_⟩
  have hleft : ∀ w, s.workers w ≠ .left := fun w hw => hqueue (hdrained.left w hw).2
  rcases s.asleep.eq_empty_or_nonempty with hawake | hsleeps
  · obtain ⟨w⟩ := ‹Nonempty ι›
    refine ⟨w, moves_of_awake ?_ (hleft w)⟩
    rw [hawake]
    exact Finset.notMem_empty w
  · have hwoken : 0 < s.woken.card :=
      (List.length_pos_iff.mpr hqueue).trans_le (hattended.jobs hsleeps)
    obtain ⟨w, hw⟩ := Finset.card_pos.mp hwoken
    exact ⟨w, moves_of_awake (fun h => (mem_asleep.mp h).2 hw) (hleft w)⟩

/-- Both workers sleep when two jobs come. -/
theorem no_lost_wakeup_two_jobs :
    let s := machine.after ([.enqueue 2 {false}, .enqueue 1 {true}, .dequeue false,
      .dequeue true] : List (SignalEvent Bool Nat))
    ∃ w, s.Moves (.dequeue w) ∨ s.Moves (.handled w) :=
  (no_lost_wakeup _).2.2 (by decide)

/-! ## The end -/

end SignalQueue

/-- How often a worker moves until it has left, unless it gets another job. -/
def WorkerState.toDo : WorkerState α → Nat
  | .left => 0
  | .idle | .waiting => 1
  | .handling _ => 2

namespace SignalQueue

variable [DecidableEq ι] [Fintype ι]

/-- What the workers still have to do after the stop. -/
def toDo (s : SignalQueue ι α) : Nat := 2 * s.queue.length + ∑ w, (s.workers w).toDo

/-- `StopWorkers` was called. -/
structure Stopped (s : SignalQueue ι α) : Prop where
  attended : s.Attended
  receiving : s.receiving = false
  running : s.running = false

theorem Step.stopped {s s' : SignalQueue ι α} {e : SignalEvent ι α} {out : QueueOutput ι α}
    (h : Step s e out s') (hs : s.Stopped) : s'.Stopped ∧ out.enqueuedJob = Option.none := by
  have hattended := h.attended hs.attended
  obtain ⟨-, hreceiving, hrunning⟩ := hs
  cases h with
  | enqueue job signalled receiving => simp [hreceiving] at receiving
  | stopWorkers receiving => simp [hreceiving] at receiving
  | waits w turn running => simp [hrunning] at running
  | wakeUp | returnsFalse | returns | handled | nothing =>
    exact ⟨⟨hattended, hreceiving, hrunning⟩, rfl⟩

theorem toDo_of_dequeues {state : WorkerState α} (h : state.dequeues = true) : state.toDo = 1 := by
  cases state <;> first | rfl | cases h

/-- After the stop every move leaves less to do. -/
theorem Step.toDo {s s' : SignalQueue ι α} {e : SignalEvent ι α} {out : QueueOutput ι α}
    (h : Step s e out s') (hs : s.Stopped) :
    s'.toDo ≤ s.toDo ∧ (s.Moves e → s'.toDo < s.toDo) := by
  obtain ⟨-, hreceiving, hrunning⟩ := hs
  have hsum := fun w => exists_sum_update WorkerState.toDo s.workers w
  cases h with
  | enqueue job signalled receiving => simp [hreceiving] at receiving
  | stopWorkers receiving => simp [hreceiving] at receiving
  | waits w turn running => simp [hrunning] at running
  | wakeUp w sleeps => exact ⟨le_rfl, nofun⟩
  | returnsFalse w turn stopped empty =>
    obtain ⟨rest, hold, hnew⟩ := hsum w .left
    rw [toDo_of_dequeues turn.2] at hold
    rw [WorkerState.toDo] at hnew
    have hlt : SignalQueue.toDo ⟨s.toJobQueue.setWorker w .left, s.woken.erase w⟩ < s.toDo := by
      simp only [SignalQueue.toDo, JobQueue.setWorker]
      omega
    exact ⟨hlt.le, fun _ => hlt⟩
  | returns w job rest turn front =>
    obtain ⟨others, hold, hnew⟩ := hsum w (.handling job)
    rw [toDo_of_dequeues turn.2] at hold
    rw [WorkerState.toDo] at hnew
    have hlt : SignalQueue.toDo ⟨{ s.toJobQueue with queue := rest }.setWorker w (.handling job),
        s.woken.erase w⟩ < s.toDo := by
      simp only [SignalQueue.toDo, JobQueue.setWorker, front, List.length_cons]
      omega
    exact ⟨hlt.le, fun _ => hlt⟩
  | handled w job handling =>
    obtain ⟨rest, hold, hnew⟩ := hsum w .idle
    rw [handling, WorkerState.toDo] at hold
    rw [WorkerState.toDo] at hnew
    have hlt : SignalQueue.toDo ⟨s.toJobQueue.setWorker w .idle, s.woken⟩ < s.toDo := by
      simp only [SignalQueue.toDo, JobQueue.setWorker]
      omega
    exact ⟨hlt.le, fun _ => hlt⟩
  | nothing e still => exact ⟨le_rfl, fun moves => absurd moves still⟩

theorem shrinks : (machine : Machine (SignalQueue ι α) _ _).Shrinks Stopped Moves toDo where
  keep _ e hs := ((step_spec hs.attended.woken e).stopped hs).1
  smaller _ e hs := ((step_spec hs.attended.woken e).toDo hs).2
  le _ e hs := ((step_spec hs.attended.woken e).toDo hs).1

theorem run_stopped {es : List (SignalEvent ι α)} (h : (machine.after es).receiving = false) :
    (machine.after es).Stopped :=
  ⟨run_attended es, h, (run_drained es).running.trans h⟩

/-- Nothing is enqueued after the stop. -/
theorem enqueuedJobs_append {before : List (SignalEvent ι α)}
    (h : (machine.after before).receiving = false) (later : List (SignalEvent ι α)) :
    enqueuedJobs (later ++ before) = enqueuedJobs before ∧
      (machine.after (later ++ before)).Stopped := by
  induction later with
  | nil => exact ⟨rfl, run_stopped h⟩
  | cons e later ih =>
    obtain ⟨henqueued, hstopped⟩ := ih
    obtain ⟨hnext, hnone⟩ := (step_spec hstopped.attended.woken e).stopped hstopped
    refine ⟨?_, hnext⟩
    change enqueuedJobs (e :: (later ++ before)) = enqueuedJobs before
    rw [enqueuedJobs_cons, hnone, henqueued]
    exact List.append_nil _

/-- `StopWorkers` returns: after the stop no worker sleeps and each that has not left can go on,
until together they have made a number of moves that is known when the stop is called. When all
have left, every job that was ever enqueued was returned. -/
theorem stop_drains [Nonempty ι] (before later : List (SignalEvent ι α))
    (stopped : (machine.after before).receiving = false) :
    let s := machine.after before
    let s' := machine.after (later ++ before)
    (machine.startingAt s).moves Moves later ≤
        2 * s.queue.length + ∑ w, (s.workers w).toDo ∧
      (∀ w, s'.workers w ≠ .left → s'.Moves (.dequeue w) ∨ s'.Moves (.handled w)) ∧
      ((∀ w, s'.workers w = .left) → returnedJobs (later ++ before) = enqueuedJobs before) := by
  intro s s'
  obtain ⟨henqueued, hstopped⟩ := enqueuedJobs_append stopped later
  refine ⟨shrinks.moves_le (run_stopped stopped) later, fun w hw => ?_, fun hleft => ?_⟩
  · refine moves_of_awake (fun h => ?_) hw
    have hrunning := hstopped.attended.running ⟨w, h⟩
    rw [hstopped.running] at hrunning
    cases hrunning
  · obtain ⟨w⟩ := ‹Nonempty ι›
    have hempty : s'.queue = [] := ((run_drained (later ++ before)).left w (hleft w)).2
    rw [← henqueued, ← run_queue, hempty, List.append_nil]

/-- Both workers sleep, one is signalled, and the stop comes before it has looked. -/
def busyStop : List (SignalEvent Bool Nat) :=
  [.stopWorkers, .enqueue 2 {false}, .enqueue 1 {true}, .dequeue false, .dequeue true]

/-- Each takes a job, handles it and leaves. -/
def lastTurns : List (SignalEvent Bool Nat) :=
  [.dequeue true, .dequeue false, .handled false, .handled true, .dequeue true, .dequeue false]

theorem stop_drains_busy :
    (machine.startingAt (machine.after busyStop)).moves Moves lastTurns ≤ 6 ∧
      returnedJobs (lastTurns ++ busyStop) = [1, 2] := by
  have stopped : (machine.after busyStop).receiving = false := by decide
  obtain ⟨hmoves, -, hreturned⟩ := stop_drains busyStop lastTurns stopped
  exact ⟨hmoves.trans (by decide), (hreturned (by decide)).trans (by decide)⟩

end SignalQueue

end

end Gravastar
