import Gravastar.DnsServer.Turns
import Gravastar.DnsServer.WakeUps

/-!
# The whole server (`dns_server.cpp`)

The receiver, the workers and the updater at once: datagrams come in, go through
the queue and are handled turn by turn, in any order of the threads. Whatever
the order, each datagram is settled once, with a reply or as refused, and logged
once where there is a logger.
-/

namespace Gravastar

section
variable {ι : Type}

/-- The stage of a worker that is not in `HandleQuery` is `returning`. -/
structure Service (ι : Type) where
  jobs : SignalQueue ι Datagram
  stages : ι → Stage
  shared : ServerState

inductive ServiceEvent (ι : Type) where
  /-- `recvfrom` has a datagram for `Run`, and the signal unblocks these workers. -/
  | receive (d : Datagram) (signalled : Finset ι)
  /-- `Run` has left its loops and calls `StopWorkers`. -/
  | stopWorkers
  | wakeUp (worker : ι)
  | dequeue (worker : ι)
  /-- A worker in `HandleQuery` goes on, with the clock and the network that it meets. -/
  | turn (worker : ι) (env : QueryEnv)
  /-- The updater thread installs a domain set. -/
  | setDomains (domains : Finset Bytes)

inductive ServiceOutput (ι : Type) where
  | queue (out : QueueOutput ι Datagram)
  | turned (worker : ι) (d : Datagram) (out : TurnOutput)
  deriving DecidableEq

/-- What an observer of the queue sees. -/
def ServiceOutput.queueSeen : ServiceOutput ι → Option (QueueOutput ι Datagram)
  | .queue out => out.seen
  | .turned _ _ _ => none

namespace Service

variable [DecidableEq ι] [Fintype ι]

/-- A worker that gets a job enters `HandleQuery`. -/
def stagesAfter (s : Service ι) : QueueOutput ι Datagram → ι → Stage
  | .returned w _ => Function.update s.stages w .parsing
  | .none | .enqueued _ | .returnedFalse _ => s.stages

def queueStep (s : Service ι) (e : SignalEvent ι Datagram) : ServiceOutput ι × Service ι :=
  let (out, jobs) := s.jobs.step e
  (.queue out, { s with jobs, stages := s.stagesAfter out })

/-- The buffer of `Run` takes 4096 bytes of a datagram, and an empty one is ignored. -/
def step (server : DnsServer) (s : Service ι) : ServiceEvent ι → ServiceOutput ι × Service ι
  | .receive d signalled =>
    if d.packet.isEmpty then (.queue .none, s)
    else s.queueStep (.enqueue { d with packet := d.packet.take 4096 } signalled)
  | .stopWorkers => s.queueStep .stopWorkers
  | .wakeUp w => s.queueStep (.wakeUp w)
  | .dequeue w => s.queueStep (.dequeue w)
  | .turn w env =>
    match s.jobs.workers w with
    | .handling d =>
      if s.stages w = .returning then s.queueStep (.handled w)
      else
        let (out, stage, shared) := server.turn d env s.shared (s.stages w)
        (.turned w d out, { s with stages := Function.update s.stages w stage, shared })
    | .idle | .waiting | .left => (.queue .none, s)
  | .setDomains domains =>
    (.queue .none,
      { s with
        shared := { s.shared with blocklist := s.shared.blocklist.map (·.setDomains domains) } })

/-- The event is a move of a worker that has one. -/
def Moves (s : Service ι) : ServiceEvent ι → Prop
  | .dequeue w => s.jobs.InDequeue w
  | .turn w _ => (s.jobs.workers w).handles = true
  | .receive _ _ | .stopWorkers | .wakeUp _ | .setDomains _ => False

instance (s : Service ι) : ∀ e, Decidable (s.Moves e)
  | .dequeue w => inferInstanceAs (Decidable (s.jobs.InDequeue w))
  | .turn _ _ => inferInstanceAs (Decidable (_ = true))
  | .receive _ _ | .stopWorkers | .wakeUp _ | .setDomains _ => inferInstanceAs (Decidable False)

/-- `Run` has started the workers. -/
def machine (server : DnsServer) (start : ServerState) :
    Machine (Service ι) (ServiceEvent ι) (ServiceOutput ι) :=
  ⟨⟨SignalQueue.machine.init, fun _ => .returning, start⟩, step server⟩

/-! ## One step -/

/-- The event of the queue that an event of the server comes to. -/
def queueEvent (s : Service ι) : ServiceEvent ι → Option (SignalEvent ι Datagram)
  | .receive d signalled =>
    if d.packet.isEmpty then none
    else some (.enqueue { d with packet := d.packet.take 4096 } signalled)
  | .stopWorkers => some .stopWorkers
  | .wakeUp w => some (.wakeUp w)
  | .dequeue w => some (.dequeue w)
  | .turn w _ => if s.stages w = .returning then some (.handled w) else none
  | .setDomains _ => none

/-- What a step can do, with what it has found out. -/
inductive Step (server : DnsServer) (s : Service ι) :
    ServiceEvent ι → ServiceOutput ι → Service ι → Prop
  | queue {e : ServiceEvent ι} {e' : SignalEvent ι Datagram} {out : QueueOutput ι Datagram}
      {jobs : SignalQueue ι Datagram} (of_event : s.queueEvent e = some e')
      (step : SignalQueue.Step s.jobs e' out jobs) :
      Step server s e (.queue out) { s with jobs, stages := s.stagesAfter out }
  | turned {w : ι} {d : Datagram} {env : QueryEnv} {out : TurnOutput} {stage : Stage}
      {shared : ServerState} (handling : s.jobs.workers w = .handling d)
      (going : s.stages w ≠ .returning)
      (turn : server.Turn d env s.shared (s.stages w) out stage shared) :
      Step server s (.turn w env) (.turned w d out)
        { s with stages := Function.update s.stages w stage, shared }
  | setDomains (domains : Finset Bytes) :
      Step server s (.setDomains domains) (.queue .none)
        { s with
          shared := { s.shared with blocklist := s.shared.blocklist.map (·.setDomains domains) } }
  | nothing (e : ServiceEvent ι) (still : ¬ s.Moves e) : Step server s e (.queue .none) s

variable {server : DnsServer}

theorem queueStep_spec {s : Service ι} (hs : s.jobs.Attended) {e : ServiceEvent ι}
    {e' : SignalEvent ι Datagram} (h : s.queueEvent e = some e') :
    Step server s e (s.queueStep e').1 (s.queueStep e').2 :=
  .queue h (SignalQueue.step_spec hs.woken e')

theorem step_spec (server : DnsServer) {s : Service ι} (hs : s.jobs.Attended) (e : ServiceEvent ι) :
    Step server s e (s.step server e).1 (s.step server e).2 := by
  cases e with
  | receive d signalled =>
    rw [step]
    split_ifs with h
    · exact .nothing _ nofun
    · exact queueStep_spec hs (if_neg h)
  | stopWorkers | wakeUp | dequeue => exact queueStep_spec hs rfl
  | turn w env =>
    rw [step]
    cases hw : s.jobs.workers w with
    | handling d =>
      dsimp only
      split_ifs with hstage
      · exact queueStep_spec hs (if_pos hstage)
      · exact .turned hw hstage (DnsServer.turn_spec d env s.shared (s.stages w))
    | idle | waiting | left =>
      exact .nothing _ fun moves => by simp [Moves, hw, WorkerState.handles] at moves
  | setDomains domains => exact .setDomains domains

/-! ## The queue in the server -/

theorem queueStep_jobs (s : Service ι) (e : SignalEvent ι Datagram) :
    let below := SignalQueue.machine.startingAt s.jobs
    below.after [e] = (s.queueStep e).2.jobs ∧
      below.observed (fun entry => entry.2.seen) [e] = (s.queueStep e).1.queueSeen.toList := by
  intro below
  refine ⟨rfl, ?_⟩
  rw [Machine.observed_cons]
  exact List.append_nil _

/-- A step is a step of the queue, or no step of it. -/
theorem step_jobs (server : DnsServer) (s : Service ι) (e : ServiceEvent ι) :
    let below := SignalQueue.machine.startingAt s.jobs
    below.after (s.queueEvent e).toList = (s.step server e).2.jobs ∧
      below.observed (fun entry => entry.2.seen) (s.queueEvent e).toList =
        (s.step server e).1.queueSeen.toList := by
  intro below
  have hnone : below.after [] = s.jobs ∧
      below.observed (fun entry => entry.2.seen) [] =
        (ServiceOutput.queue QueueOutput.none : ServiceOutput ι).queueSeen.toList := ⟨rfl, rfl⟩
  cases e with
  | receive d signalled =>
    rw [step, queueEvent]
    split_ifs
    · exact hnone
    · exact s.queueStep_jobs _
  | stopWorkers | wakeUp | dequeue => exact s.queueStep_jobs _
  | setDomains domains => exact hnone
  | turn w env =>
    rw [step, queueEvent]
    cases hw : s.jobs.workers w with
    | handling d =>
      dsimp only
      split_ifs
      · exact s.queueStep_jobs _
      · exact ⟨rfl, rfl⟩
    | idle | waiting | left =>
      -- a worker elsewhere does not return from `HandleQuery`
      have hstep : s.jobs.step (.handled w) = (.none, s.jobs) := by
        simp only [SignalQueue.step, JobQueue.step, hw]
      split_ifs
      · have hjobs := s.queueStep_jobs (.handled w)
        simp only [queueStep, hstep] at hjobs
        exact hjobs
      · exact hnone

theorem simulates_queue (server : DnsServer) (start : ServerState) :
    (machine server start : Machine (Service ι) _ _).Simulates SignalQueue.machine
      (fun s t => s.jobs = t)
      (fun entry => entry.2.queueSeen) (fun entry => entry.2.seen) where
  init := rfl
  step := by
    rintro es _ e rfl
    have hstep := step_jobs server ((machine server start).after es) e
    exact ⟨_, hstep.1.symm, hstep.2⟩

section
variable (server : DnsServer) (start : ServerState) (es : List (ServiceEvent ι))

theorem exists_queue_run :
    ∃ ds, ((machine server start).after es).jobs = SignalQueue.machine.after ds ∧
      SignalQueue.machine.observed (fun entry => entry.2.seen) ds =
        (machine server start).observed (fun entry => entry.2.queueSeen) es :=
  (simulates_queue server start).exists_run es

theorem run_attended : ((machine server start).after es).jobs.Attended := by
  obtain ⟨ds, hafter, -⟩ := exists_queue_run server start es
  rw [hafter]
  exact SignalQueue.run_attended ds

theorem run_drained : ((machine server start).after es).jobs.Drained := by
  obtain ⟨ds, hafter, -⟩ := exists_queue_run server start es
  rw [hafter]
  exact SignalQueue.run_drained ds

theorem run_step (e : ServiceEvent ι) :
    Step server ((machine server start).after es)
      e (((machine server start).after es).step server e).1
      ((machine server start).after (e :: es)) :=
  step_spec server (run_attended server start es) e

end

/-! ## What the workers hold -/

/-- What a worker holds, where `f` says what belongs to a datagram at a stage. -/
def heldBy {α : Type} (f : Datagram → Stage → Multiset α) :
    WorkerState Datagram → Stage → Multiset α
  | .handling d, stage => f d stage
  | .idle, _ | .waiting, _ | .left, _ => 0

def held {α : Type} (f : Datagram → Stage → Multiset α) (s : Service ι) : Multiset α :=
  ∑ w, heldBy f (s.jobs.workers w) (s.stages w)

/-- How a step changes the queue, what the workers hold and what the threads share. -/
inductive Changes (server : DnsServer) (s s' : Service ι) : ServiceOutput ι → Prop
  | taken {w : ι} {d : Datagram} (front : s.jobs.queue = d :: s'.jobs.queue)
      (holds : ∀ {α : Type} (f : Datagram → Stage → Multiset α), (∀ d, f d .returning = 0) →
        s'.held f = s.held f + f d .parsing)
      (shared : s'.shared = s.shared) : Changes server s s' (.queue (.returned w d))
  | turned {w : ι} {d : Datagram} {env : QueryEnv} {out : TurnOutput} {stage stage' : Stage}
      (turn : server.Turn d env s.shared stage out stage' s'.shared)
      (jobs : s'.jobs = s.jobs)
      (holds : ∀ {α : Type} (f : Datagram → Stage → Multiset α),
        ∃ rest, s.held f = rest + f d stage ∧ s'.held f = rest + f d stage') :
      Changes server s s' (.turned w d out)
  | setDomains (domains : Finset Bytes) (jobs : s'.jobs = s.jobs)
      (holds : ∀ {α : Type} (f : Datagram → Stage → Multiset α), s'.held f = s.held f)
      (shared : s'.shared =
        { s.shared with blocklist := s.shared.blocklist.map (·.setDomains domains) }) :
      Changes server s s' (.queue .none)
  | others {out : QueueOutput ι Datagram} (none_returned : out.returnedJob = none)
      (queue : s'.jobs.queue = s.jobs.queue ++ out.enqueuedJob.toList)
      (holds : ∀ {α : Type} (f : Datagram → Stage → Multiset α), (∀ d, f d .returning = 0) →
        s'.held f = s.held f)
      (shared : s'.shared = s.shared) : Changes server s s' (.queue out)

variable {α : Type} {f : Datagram → Stage → Multiset α}

/-- Only the worker of a step holds something else afterwards. -/
theorem held_update {s s' : Service ι} {w : ι} (state : WorkerState Datagram) {stage : Stage}
    (workers : s'.jobs.workers = Function.update s.jobs.workers w state)
    (stages : s'.stages = Function.update s.stages w stage) :
    ∃ rest, s.held f = rest + heldBy f (s.jobs.workers w) (s.stages w) ∧
      s'.held f = rest + heldBy f state stage := by
  have hsum := exists_sum_of_ne (fun v => heldBy f (s.jobs.workers v) (s.stages v))
    (fun v => heldBy f (s'.jobs.workers v) (s'.stages v)) (i := w) fun v hv => by
      rw [workers, stages, Function.update_of_ne hv, Function.update_of_ne hv]
  obtain ⟨rest, hold, hnew⟩ := hsum
  rw [workers, stages, Function.update_self, Function.update_self] at hnew
  refine ⟨rest, hold, ?_⟩
  rw [held, workers, stages]
  exact hnew

/-- A worker that held nothing. -/
theorem held_update_of_zero {s s' : Service ι} {w : ι} (state : WorkerState Datagram)
    {stage : Stage} (workers : s'.jobs.workers = Function.update s.jobs.workers w state)
    (stages : s'.stages = Function.update s.stages w stage)
    (zero : heldBy f (s.jobs.workers w) (s.stages w) = 0) :
    s'.held f = s.held f + heldBy f state stage := by
  obtain ⟨rest, hold, hnew⟩ := held_update (f := f) state workers stages
  rw [zero, add_zero] at hold
  rw [hnew, hold]

theorem heldBy_of_dequeues {state : WorkerState Datagram} (h : state.dequeues = true)
    (stage : Stage) : heldBy f state stage = 0 := by
  cases state <;> first | rfl | cases h

omit [DecidableEq ι] [Fintype ι] in
theorem stage_of_handled {s : Service ι} {e : ServiceEvent ι} {w : ι}
    (h : s.queueEvent e = some (.handled w)) : s.stages w = .returning := by
  cases e with
  | turn v env =>
    rw [queueEvent] at h
    split_ifs at h with hstage
    obtain rfl := SignalEvent.handled.inj (Option.some.inj h)
    exact hstage
  | receive d signalled =>
    rw [queueEvent] at h
    split_ifs at h
    cases Option.some.inj h
  | stopWorkers | wakeUp | dequeue | setDomains => simp [queueEvent] at h

theorem Step.changes {server : DnsServer} {s s' : Service ι} {e : ServiceEvent ι}
    {out : ServiceOutput ι} (h : Step server s e out s') : Changes server s s' out := by
  cases h with
  | queue of_event step =>
    cases step with
    | enqueue job signalled => exact .others rfl rfl (fun _ _ => rfl) rfl
    | stopWorkers | wakeUp | nothing =>
      exact .others rfl (List.append_nil _).symm (fun _ _ => rfl) rfl
    | waits w turn =>
      refine .others rfl (List.append_nil _).symm (fun f _ => ?_) rfl
      exact Eq.trans (held_update_of_zero .waiting rfl (Function.update_eq_self w _).symm
        (heldBy_of_dequeues turn.2 _)) (add_zero _)
    | returnsFalse w turn =>
      refine .others rfl (List.append_nil _).symm (fun f _ => ?_) rfl
      exact Eq.trans (held_update_of_zero .left rfl (Function.update_eq_self w _).symm
        (heldBy_of_dequeues turn.2 _)) (add_zero _)
    | returns w job rest turn front =>
      exact .taken front (fun f _ => held_update_of_zero (.handling job) rfl rfl
        (heldBy_of_dequeues turn.2 _)) rfl
    | handled w job handling =>
      refine .others rfl (List.append_nil _).symm (fun f hf => ?_) rfl
      have zero : heldBy f (s.jobs.workers w) (s.stages w) = 0 := by
        rw [handling, stage_of_handled of_event]
        exact hf job
      exact Eq.trans (held_update_of_zero .idle rfl (Function.update_eq_self w _).symm
        zero) (add_zero _)
  | @turned w d env out stage shared handling going turn =>
    refine .turned turn rfl fun f => ?_
    have hworkers : s.jobs.workers = Function.update s.jobs.workers w (.handling d) :=
      handling ▸ (Function.update_eq_self w _).symm
    have hsum : ∃ rest, s.held f = rest + heldBy f (s.jobs.workers w) (s.stages w) ∧
        held f { s with stages := Function.update s.stages w stage, shared } =
          rest + heldBy f (.handling d) stage := held_update (.handling d) hworkers rfl
    rw [handling] at hsum
    exact hsum
  | setDomains domains => exact .setDomains domains rfl (fun _ => rfl) rfl
  | nothing => exact .others rfl (List.append_nil _).symm (fun _ _ => rfl) rfl

end Service

end

end Gravastar
