import Gravastar.DnsServer.Settled

/-!
# The end of the server (`dns_server.cpp`)

`StopWorkers` waits for the workers. They come to an end because after the stop
every turn of theirs leaves less to do: a datagram costs at most ten, one for
taking it, eight in `HandleQuery` and one for coming back.
-/

namespace Gravastar

section
variable {ι : Type} [DecidableEq ι] [Fintype ι]

namespace Service

/-- How often a worker moves until it has left, unless it gets another datagram. -/
def toDoBy : WorkerState Datagram → Stage → Nat
  | .left, _ => 0
  | .idle, _ | .waiting, _ => 1
  | .handling _, stage => 2 + stage.toDo

def toDo (s : Service ι) : Nat :=
  10 * s.jobs.queue.length + ∑ w, toDoBy (s.jobs.workers w) (s.stages w)

theorem toDoBy_of_dequeues {state : WorkerState Datagram} (h : state.dequeues = true)
    (stage : Stage) : toDoBy state stage = 1 := by
  cases state <;> first | rfl | cases h

/-- When a worker has less to do and the queue is not longer, or it has taken one datagram out,
there is less to do. -/
theorem toDo_update {s s' : Service ι} {w : ι} (state : WorkerState Datagram) {stage : Stage}
    (workers : s'.jobs.workers = Function.update s.jobs.workers w state)
    (stages : s'.stages = Function.update s.stages w stage)
    (less : 10 * s'.jobs.queue.length + toDoBy state stage <
      10 * s.jobs.queue.length + toDoBy (s.jobs.workers w) (s.stages w)) : s'.toDo < s.toDo := by
  obtain ⟨rest, hold, hnew⟩ := exists_sum_of_ne
    (fun v => toDoBy (s.jobs.workers v) (s.stages v))
    (fun v => toDoBy (s'.jobs.workers v) (s'.stages v)) (i := w) fun v hv => by
      rw [workers, stages, Function.update_of_ne hv, Function.update_of_ne hv]
  rw [workers, stages, Function.update_self, Function.update_self] at hnew
  rw [toDo, toDo, hold, workers, stages, hnew]
  omega

theorem moves_of_queueEvent {s : Service ι} {e : ServiceEvent ι} {e' : SignalEvent ι Datagram}
    (h : s.queueEvent e = some e') (moves : s.Moves e) : s.jobs.Moves e' := by
  cases e with
  | dequeue w =>
    obtain rfl := Option.some.inj h
    exact moves
  | turn w env =>
    rw [queueEvent] at h
    split_ifs at h
    obtain rfl := Option.some.inj h
    exact moves
  | receive | stopWorkers | wakeUp | setDomains => exact moves.elim

/-- After the stop every move leaves less to do. -/
theorem Step.toDo {server : DnsServer} {s s' : Service ι} {e : ServiceEvent ι}
    {out : ServiceOutput ι} (h : Step server s e out s') (hs : s.jobs.Stopped) :
    s'.toDo ≤ s.toDo ∧ (s.Moves e → s'.toDo < s.toDo) := by
  have hlt : s'.toDo < s.toDo → s'.toDo ≤ s.toDo ∧ (s.Moves e → s'.toDo < s.toDo) :=
    fun h => ⟨h.le, fun _ => h⟩
  obtain ⟨-, hreceiving, hrunning⟩ := hs
  cases h with
  | queue of_event step =>
    have hmoves := moves_of_queueEvent of_event
    cases step with
    | enqueue job signalled receiving => simp [hreceiving] at receiving
    | stopWorkers receiving => simp [hreceiving] at receiving
    | waits w turn running => simp [hrunning] at running
    | wakeUp w sleeps => exact ⟨le_rfl, fun moves => (hmoves moves).elim⟩
    | nothing e' still => exact ⟨le_rfl, fun moves => absurd (hmoves moves) still⟩
    | returnsFalse w turn =>
      refine hlt (toDo_update .left rfl (Function.update_eq_self w _).symm ?_)
      rw [toDoBy_of_dequeues turn.2]
      exact Nat.lt_succ_self _
    | returns w job rest turn front =>
      refine hlt (toDo_update (.handling job) rfl rfl ?_)
      rw [toDoBy_of_dequeues turn.2, front, List.length_cons]
      simp only [toDoBy, Stage.toDo, JobQueue.setWorker]
      omega
    | handled w job handling =>
      refine hlt (toDo_update .idle rfl (Function.update_eq_self w _).symm ?_)
      rw [handling]
      simp only [toDoBy, JobQueue.setWorker]
      omega
  | @turned w d env out stage shared handling going turn =>
    refine hlt (toDo_update (.handling d) (handling ▸ (Function.update_eq_self w _).symm)
      rfl ?_)
    have hturn := turn.toDo_lt going
    rw [handling]
    simp only [toDoBy]
    omega
  | setDomains => exact ⟨le_rfl, fun moves => moves.elim⟩
  | nothing e still => exact ⟨le_rfl, fun moves => absurd moves still⟩

theorem Step.stopped {server : DnsServer} {s s' : Service ι} {e : ServiceEvent ι}
    {out : ServiceOutput ι} (h : Step server s e out s') (hs : s.jobs.Stopped) :
    s'.jobs.Stopped ∧ out.received = none := by
  cases h with
  | queue of_event step => exact step.stopped hs
  | turned | setDomains | nothing => exact ⟨hs, rfl⟩

section
variable (server : DnsServer) (start : ServerState)

theorem shrinks :
    (machine server start : Machine (Service ι) _ _).Shrinks (fun s => s.jobs.Stopped) Moves
      Service.toDo where
  keep _ e hs := ((step_spec server hs.attended e).stopped hs).1
  smaller _ e hs := ((step_spec server hs.attended e).toDo hs).2
  le _ e hs := ((step_spec server hs.attended e).toDo hs).1

/-- Nothing is received after the stop. -/
theorem received_append (before : List (ServiceEvent ι))
    (h : ((machine server start).after before).jobs.receiving = false)
    (later : List (ServiceEvent ι)) :
    received server start (later ++ before) = received server start before ∧
      ((machine server start).after (later ++ before)).jobs.Stopped := by
  induction later with
  | nil =>
    refine ⟨rfl, run_attended server start before, h, ?_⟩
    exact (run_drained server start before).running.trans h
  | cons e later ih =>
    obtain ⟨hreceived, hstopped⟩ := ih
    obtain ⟨hnext, hnone⟩ := (run_step server start (later ++ before) e).stopped hstopped
    refine ⟨?_, hnext⟩
    rw [← hreceived]
    change (machine server start).observed _ (e :: (later ++ before)) = _
    rw [Machine.observed_cons]
    exact congrArg (· ++ received server start (later ++ before)) (congrArg Option.toList hnone)

theorem toDoBy_le (state : WorkerState Datagram) (stage : Stage) : toDoBy state stage ≤ 10 := by
  have hstage : stage.toDo ≤ 8 := by
    unfold Stage.toDo
    split <;> omega
  cases state <;> simp only [toDoBy] <;> omega

omit [DecidableEq ι] in
theorem toDo_le (s : Service ι) : s.toDo ≤ 10 * (s.jobs.queue.length + Fintype.card ι) := by
  have hsum : ∑ w, toDoBy (s.jobs.workers w) (s.stages w) ≤ Fintype.card ι * 10 :=
    Finset.sum_le_card_nsmul _ _ 10 fun w _ => toDoBy_le _ _
  rw [Service.toDo]
  omega

/-- After the stop nobody sleeps. -/
theorem moves_of_stopped {s : Service ι} (hs : s.jobs.Stopped) {w : ι}
    (hw : s.jobs.workers w ≠ .left) : s.Moves (.dequeue w) ∨ ∀ env, s.Moves (.turn w env) := by
  have hawake : w ∉ s.jobs.asleep := fun h => by
    have hrunning := hs.attended.running ⟨w, h⟩
    rw [hs.running] at hrunning
    cases hrunning
  rcases SignalQueue.moves_of_awake hawake hw with hdequeue | hhandled
  · exact .inl hdequeue
  · exact .inr fun _ => hhandled

/-- `Run` returns: after the stop each worker that has not left has a move, and all of them together
have no more than ten for each datagram in the queue and each worker; when all have left, every
datagram that was ever received is settled. -/
theorem run_returns [Nonempty ι] (before later : List (ServiceEvent ι))
    (stopped : ((machine server start).after before).jobs.receiving = false) :
    let s := (machine server start).after before
    let s' := (machine server start).after (later ++ before)
    ((machine server start).startingAt s).moves Moves later ≤
        10 * (s.jobs.queue.length + Fintype.card ι) ∧
      (∀ w, s'.jobs.workers w ≠ .left →
        s'.Moves (.dequeue w) ∨ ∀ env, s'.Moves (.turn w env)) ∧
      ((∀ w, s'.jobs.workers w = .left) →
        ((settled server start (later ++ before)).map Prod.fst).Perm
          (received server start before)) := by
  intro s s'
  have hstart : s.jobs.Stopped :=
    (received_append server start before stopped []).2
  obtain ⟨hreceived, hstopped⟩ := received_append server start before stopped later
  refine ⟨((shrinks server start).moves_le hstart later).trans s.toDo_le,
    fun w hw => moves_of_stopped hstopped hw, fun hleft => ?_⟩
  obtain ⟨w⟩ := ‹Nonempty ι›
  rw [← hreceived]
  refine settled_perm server start _ (hleft w) fun v => ?_
  rw [hleft v]
  rfl

end

/-- A packet that does not parse. -/
def badDatagram : Datagram := ⟨[0], .replicate 4 10, 5353⟩

/-- It is still in the queue when the stop comes. -/
def stopWithOne : List (ServiceEvent Unit) := [.stopWorkers, .receive badDatagram ∅]

theorem run_returns_refused :
    let start := ServerState.initial none none
    let m : Machine (Service Unit) _ _ := machine (plainServer false) start
    let later : List (ServiceEvent Unit) :=
      let env : QueryEnv := ⟨0, noReply, 0, 0⟩
      [.dequeue (), .turn () env, .turn () env, .dequeue ()]
    (m.startingAt (m.after stopWithOne)).moves Moves later ≤ 20 ∧
      ((settled (plainServer false) start (later ++ stopWithOne)).map Prod.fst).Perm
        [badDatagram] := by
  intro start m later
  have stopped : (m.after stopWithOne).jobs.receiving = false := by decide
  obtain ⟨hmoves, -, hsettled⟩ := run_returns (plainServer false) start stopWithOne later stopped
  exact ⟨hmoves.trans (by decide), hsettled (by decide +kernel)⟩

end Service

end

end Gravastar
