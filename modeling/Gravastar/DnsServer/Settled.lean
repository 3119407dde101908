import Gravastar.DnsServer.Service

/-!
# What becomes of a datagram

The datagrams received are accounted for at every moment: they are in the queue,
in the hands of a worker that has not settled them yet, or settled. The answers
sent are accounted for in the same way until they are logged.
-/

namespace Gravastar

/-! ## One turn -/

/-- `none` for a packet that was refused. -/
def TurnOutput.settled : TurnOutput → Option (Option Answer)
  | .refused => some none
  | .sent a => some (some a)
  | .quiet | .resolved _ | .logged _ _ => none

def TurnOutput.sentAnswer : TurnOutput → Option Answer
  | .sent a => some a
  | .quiet | .refused | .resolved _ | .logged _ _ => none

def TurnOutput.loggedAnswer : TurnOutput → Option Answer
  | .logged a _ => some a
  | .quiet | .refused | .resolved _ | .sent _ => none

def TurnOutput.answer : TurnOutput → Option Answer
  | .resolved a => some a
  | .quiet | .refused | .sent _ | .logged _ _ => none

/-- The client has not got its reply yet. -/
def Stage.unsettled : Stage → Bool
  | .parsing | .looking _ none | .forwarding _ none | .sending _ => true
  | .looking _ (some _) | .forwarding _ (some _) | .naming _ | .logging _ _ | .returning => false

/-- The datagram, while it is unsettled. -/
def Stage.unsettledFrom (d : Datagram) (stage : Stage) : Multiset Datagram :=
  if stage.unsettled then {d} else 0

/-- The answer that was sent and is still to be logged. -/
def Stage.unlogged : Stage → Option Answer
  | .looking _ client | .forwarding _ client => client
  | .naming a | .logging a _ => some a
  | .parsing | .sending _ | .returning => none

/-- `a` answers the query of the datagram. -/
def Answers (answers : List Answer) (d : Datagram) (a : Answer) : Prop :=
  a ∈ answers ∧ parsedJob d.packet = some a.job

/-- The name comes from an answer to the query for it, or is `-` where there is no such query. -/
def Names (answers : List Answer) (d : Datagram) (name : Bytes) : Prop :=
  match clientNameJob d.clientAddr with
  | none => name = ascii "-"
  | some job => ∃ a ∈ answers, a.job = job ∧ name = clientNameIn a.result.response

/-- What a worker holds belongs to its datagram. -/
def Stage.Holds (answers : List Answer) (d : Datagram) : Stage → Prop
  | .parsing | .returning => True
  | .looking job none | .forwarding job none => parsedJob d.packet = some job
  | .looking job (some a) | .forwarding job (some a) =>
    Answers answers d a ∧ clientNameJob d.clientAddr = some job
  | .sending a | .naming a => Answers answers d a
  | .logging a name => Answers answers d a ∧ Names answers d name

/-- What others notice of a turn is justified by the answers so far. -/
def TurnOutput.Justified (answers : List Answer) (d : Datagram) : TurnOutput → Prop
  | .quiet | .resolved _ => True
  | .refused => parsedJob d.packet = none
  | .sent a => Answers answers d a
  | .logged a name => Answers answers d a ∧ Names answers d name

theorem Answers.mono {answers answers' : List Answer} {d : Datagram} {a : Answer}
    (h : Answers answers d a) (hsub : answers ⊆ answers') : Answers answers' d a :=
  ⟨hsub h.1, h.2⟩

theorem Names.mono {answers answers' : List Answer} {d : Datagram} {name : Bytes}
    (h : Names answers d name) (hsub : answers ⊆ answers') : Names answers' d name := by
  unfold Names at h ⊢
  cases hjob : clientNameJob d.clientAddr with
  | none =>
    rw [hjob] at h
    exact h
  | some job =>
    rw [hjob] at h
    obtain ⟨a, ha, hname⟩ := h
    exact ⟨a, hsub ha, hname⟩

theorem Stage.Holds.mono {answers answers' : List Answer} {d : Datagram} {stage : Stage}
    (h : stage.Holds answers d) (hsub : answers ⊆ answers') : stage.Holds answers' d := by
  cases stage with
  | parsing | returning => trivial
  | looking job client | forwarding job client =>
    cases client with
    | none => exact h
    | some a => exact ⟨h.1.mono hsub, h.2⟩
  | sending a | naming a => exact Answers.mono h hsub
  | logging a name => exact ⟨h.1.mono hsub, h.2.mono hsub⟩

theorem TurnOutput.Justified.mono {answers answers' : List Answer} {d : Datagram}
    {out : TurnOutput} (h : out.Justified answers d) (hsub : answers ⊆ answers') :
    out.Justified answers' d := by
  cases out with
  | quiet | resolved => trivial
  | refused => exact h
  | sent a => exact Answers.mono h hsub
  | logged a name => exact ⟨h.1.mono hsub, h.2.mono hsub⟩

namespace DnsServer

variable {server : DnsServer} {d : Datagram} {env : QueryEnv} {s s' : ServerState}
  {stage stage' : Stage} {out : TurnOutput}

/-- An answer is handed on to the query it was for. -/
theorem holds_afterAnswer {answers : List Answer} {job : Job} {client : Option Answer}
    {answer : Answer} (hjob : answer.job = job)
    (h : (Stage.looking job client).Holds answers d) :
    (Stage.afterAnswer answer client).Holds (answer :: answers) d := by
  cases client with
  | none => exact ⟨List.mem_cons_self, hjob ▸ h⟩
  | some a =>
    refine ⟨h.1.mono (List.subset_cons_self _ _), ?_⟩
    rw [Names, h.2]
    exact ⟨answer, List.mem_cons_self, hjob, rfl⟩

theorem Asks.holds {answers : List Answer} {client : Option Answer} {job : Job}
    (asks : Asks d stage client job) (h : stage.Holds answers d) :
    (Stage.looking job client).Holds answers d := by
  cases asks with
  | client parsed => exact parsed
  | name parsed => exact ⟨h, parsed⟩

theorem Turn.holds {answers : List Answer} (h : server.Turn d env s stage out stage' s')
    (hs : stage.Holds answers d) :
    stage'.Holds (out.answer.toList ++ answers) d ∧ out.Justified answers d := by
  cases h with
  | refused unparsed => exact ⟨trivial, unparsed⟩
  | answered asks => exact ⟨holds_afterAnswer rfl (Asks.holds asks hs), trivial⟩
  | waits asks => exact ⟨Asks.holds asks hs, trivial⟩
  | hit => exact ⟨holds_afterAnswer rfl hs, trivial⟩
  | @miss _ client => exact ⟨by cases client <;> exact hs, trivial⟩
  | @forwarded job client answer of_job =>
    have hjob : answer.job = job := by rw [of_job]
    refine ⟨holds_afterAnswer hjob ?_, trivial⟩
    cases client <;> exact hs
  | sent =>
    refine ⟨?_, hs⟩
    split_ifs
    · exact hs
    · trivial
  | noName unparsed =>
    refine ⟨⟨hs, ?_⟩, trivial⟩
    rw [Names, unparsed]
  | logged => exact ⟨trivial, hs⟩
  | done => exact ⟨trivial, trivial⟩

/-- A turn settles the datagram or leaves it as unsettled as it was. -/
theorem Turn.unsettled (h : server.Turn d env s stage out stage' s') :
    stage.unsettledFrom d = stage'.unsettledFrom d + (out.settled.map fun _ => d).toList := by
  cases h with
  | refused | logged | done | noName => rfl
  | answered asks => cases asks <;> rfl
  | waits asks => cases asks <;> rfl
  | @hit _ client | @miss _ client | @forwarded _ client => cases client <;> rfl
  | sent => split_ifs <;> rfl

/-- What is sent is logged before the worker goes on to another datagram, if there is a logger. -/
theorem Turn.unlogged (h : server.Turn d env s stage out stage' s') :
    ((if server.logger then out.sentAnswer else none).toList : Multiset Answer) +
        (stage.unlogged.toList : Multiset Answer) =
      (stage'.unlogged.toList : Multiset Answer) + (out.loggedAnswer.toList : Multiset Answer) := by
  cases h with
  | refused | logged | done | noName =>
    simp [TurnOutput.sentAnswer, TurnOutput.loggedAnswer, Stage.unlogged]
  | answered asks =>
    cases asks <;>
      simp [TurnOutput.sentAnswer, TurnOutput.loggedAnswer, Stage.unlogged, Stage.afterAnswer]
  | waits asks =>
    cases asks <;> simp [TurnOutput.sentAnswer, TurnOutput.loggedAnswer, Stage.unlogged]
  | @hit _ client | @miss _ client | @forwarded _ client =>
    cases client <;>
      simp [TurnOutput.sentAnswer, TurnOutput.loggedAnswer, Stage.unlogged, Stage.afterAnswer]
  | sent => split_ifs <;> simp [TurnOutput.sentAnswer, TurnOutput.loggedAnswer, Stage.unlogged]

end DnsServer

/-! ## The server -/

section
variable {ι : Type}

namespace ServiceOutput

/-- The datagram that `Run` put into the queue. -/
def received : ServiceOutput ι → Option Datagram
  | .queue out => out.enqueuedJob
  | .turned _ _ _ => none

/-- The datagram settled, with the answer that was sent, or `none` where it was refused. -/
def settled : ServiceOutput ι → Option (Datagram × Option Answer)
  | .queue _ => none
  | .turned _ d out => out.settled.map fun a => (d, a)

/-- An answer that was sent, and for which datagram. -/
def sentAnswer (out : ServiceOutput ι) : Option (Datagram × Answer) :=
  out.settled.bind fun p => p.2.map fun a => (p.1, a)

/-- An answer about which the logger was told, and for which datagram. -/
def logged : ServiceOutput ι → Option (Datagram × Answer)
  | .queue _ => none
  | .turned _ d out => out.loggedAnswer.map fun a => (d, a)

/-- An answer that `ResolveQuery` gave, to whichever query. -/
def answer : ServiceOutput ι → Option Answer
  | .queue _ => none
  | .turned _ _ out => out.answer

@[simp] theorem sentAnswer_queue (out : QueueOutput ι Datagram) :
    (queue out).sentAnswer = none := rfl

@[simp] theorem sentAnswer_turned (w : ι) (d : Datagram) (out : TurnOutput) :
    (turned w d out).sentAnswer = out.sentAnswer.map fun a => (d, a) := by cases out <;> rfl

end ServiceOutput

namespace Service

variable [DecidableEq ι] [Fintype ι]

/-- The datagrams in the hands of workers that have not settled them. -/
def unsettled (s : Service ι) : Multiset Datagram := s.held fun d stage => stage.unsettledFrom d

/-- The datagrams that are not settled, in the queue or with a worker. -/
def pending (s : Service ι) : Multiset Datagram := (s.jobs.queue : Multiset Datagram) + s.unsettled

/-- The answers sent by workers that have not logged them. -/
def unlogged (s : Service ι) : Multiset (Datagram × Answer) :=
  s.held fun d stage => (stage.unlogged.toList : Multiset Answer).map fun a => (d, a)

omit [DecidableEq ι] in
theorem Changes.pending {server : DnsServer} {s s' : Service ι} {out : ServiceOutput ι}
    (h : Changes server s s' out) :
    (out.received.toList : Multiset Datagram) + s.pending =
      s'.pending + ((out.settled.map Prod.fst).toList : Multiset Datagram) := by
  cases h with
  | @taken w d front holds =>
    have hholds := holds (fun d stage => stage.unsettledFrom d) fun _ => rfl
    have hd : Stage.unsettledFrom d .parsing = {d} := rfl
    rw [hd] at hholds
    rw [Service.pending, Service.pending, unsettled, unsettled, front, hholds,
      ← Multiset.cons_coe, ← Multiset.singleton_add]
    simp only [ServiceOutput.received, QueueOutput.enqueuedJob, ServiceOutput.settled,
      Option.map_none, Option.toList_none, Multiset.coe_nil, zero_add, add_zero]
    ac_rfl
  | @turned w d env out stage stage' turn jobs holds =>
    obtain ⟨rest, hold, hnew⟩ := holds fun d stage => stage.unsettledFrom d
    rw [Service.pending, Service.pending, unsettled, unsettled, jobs, hold, hnew, turn.unsettled]
    simp [ServiceOutput.received, ServiceOutput.settled, add_assoc, Function.comp_def]
  | setDomains domains jobs holds =>
    rw [Service.pending, Service.pending, unsettled, unsettled, jobs, holds]
    exact add_comm 0 _
  | @others out none_returned queue holds =>
    rw [Service.pending, Service.pending, unsettled, unsettled, queue, holds _ fun _ => rfl,
      ← Multiset.coe_add]
    simp only [ServiceOutput.received, ServiceOutput.settled, Option.map_none, Option.toList_none,
      Multiset.coe_nil, add_zero]
    ac_rfl

omit [DecidableEq ι] in
theorem Changes.unlogged {server : DnsServer} {s s' : Service ι} {out : ServiceOutput ι}
    (h : Changes server s s' out) :
    ((if server.logger then out.sentAnswer else none).toList : Multiset (Datagram × Answer)) +
        s.unlogged =
      s'.unlogged + (out.logged.toList : Multiset (Datagram × Answer)) := by
  cases h with
  | taken front holds =>
    rw [Service.unlogged, Service.unlogged, holds _ fun _ => rfl]
    simp [ServiceOutput.logged, Stage.unlogged]
  | @turned w d env out stage stage' turn jobs holds =>
    obtain ⟨rest, hold, hnew⟩ := holds fun d stage =>
      (stage.unlogged.toList : Multiset Answer).map fun a => (d, a)
    have hturn := congrArg (Multiset.map fun a => (d, a)) turn.unlogged
    rw [Multiset.map_add, Multiset.map_add] at hturn
    have hsent : ((if server.logger then (ServiceOutput.turned w d out).sentAnswer
        else none).toList : Multiset (Datagram × Answer)) =
          ((if server.logger then out.sentAnswer else none).toList : Multiset Answer).map
            fun a => (d, a) := by
      split_ifs <;> simp [Option.toList_map]
    have hlogged : ((ServiceOutput.turned w d out).logged.toList : Multiset (Datagram × Answer)) =
        (out.loggedAnswer.toList : Multiset Answer).map fun a => (d, a) := by
      simp [ServiceOutput.logged, Option.toList_map]
    rw [hsent, hlogged, Service.unlogged, Service.unlogged, hold, hnew, add_left_comm, hturn,
      add_assoc]
  | setDomains domains jobs holds =>
    rw [Service.unlogged, Service.unlogged, holds]
    simp [ServiceOutput.logged]
  | others none_returned queue holds =>
    rw [Service.unlogged, Service.unlogged, holds _ fun _ => rfl]
    simp [ServiceOutput.logged]

/-- The workers hold what belongs to their datagrams. -/
def Holds (answers : List Answer) (s : Service ι) : Prop :=
  ∀ w d, s.jobs.workers w = .handling d → (s.stages w).Holds answers d

theorem Step.holds {server : DnsServer} {s s' : Service ι} {e : ServiceEvent ι}
    {out : ServiceOutput ι} (h : Step server s e out s') {answers : List Answer}
    (hs : Holds answers s) :
    Holds (out.answer.toList ++ answers) s' ∧
      ∀ w d turned, out = .turned w d turned → turned.Justified answers d := by
  -- a worker that is given something else to do holds nothing
  have hother : ∀ {w : ι} {state : WorkerState Datagram} (queue : List Datagram)
      {woken : Finset ι}, (∀ d, state ≠ .handling d) →
      Holds answers ⟨⟨{ s.jobs.toJobQueue with queue }.setWorker w state, woken⟩, s.stages,
        s.shared⟩ := by
    intro w state queue woken hstate v d hv
    dsimp only at hv
    rw [JobQueue.workers_setWorker] at hv
    split_ifs at hv
    · exact absurd hv (hstate d)
    · exact hs v d hv
  cases h with
  | queue of_event step =>
    refine ⟨?_, nofun⟩
    cases step with
    | enqueue | stopWorkers | wakeUp | nothing => exact hs
    | waits w => exact hother s.jobs.queue nofun
    | returnsFalse w => exact hother s.jobs.queue nofun
    | handled w => exact hother s.jobs.queue nofun
    | returns w job rest turn front =>
      intro v d hv
      dsimp only at hv
      rw [JobQueue.workers_setWorker] at hv
      dsimp only [stagesAfter]
      split_ifs at hv with hvw
      · rw [hvw, Function.update_self]
        trivial
      · rw [Function.update_of_ne hvw]
        exact hs v d hv
  | @turned w d env out stage shared handling going turn =>
    obtain ⟨hholds, hjustified⟩ := turn.holds (hs w d handling)
    refine ⟨fun v d' hv => ?_, fun w' d' turned heq => ?_⟩
    · by_cases hvw : v = w
      · obtain rfl := WorkerState.handling.inj (handling.symm.trans (hvw ▸ hv))
        dsimp only
        rw [hvw, Function.update_self]
        exact hholds
      · dsimp only
        rw [Function.update_of_ne hvw]
        exact (hs v d' hv).mono (List.subset_append_right _ _)
    · obtain ⟨-, rfl, rfl⟩ := ServiceOutput.turned.inj heq
      exact hjustified
  | setDomains | nothing => exact ⟨hs, nofun⟩

section
variable (server : DnsServer) (start : ServerState) (es : List (ServiceEvent ι))

def received : List Datagram :=
  (machine server start).observed (fun entry => entry.2.received) es

def settled : List (Datagram × Option Answer) :=
  (machine server start).observed (fun entry => entry.2.settled) es

/-- The answers sent, each with the datagram it was sent for. -/
def sentAnswers : List (Datagram × Answer) :=
  (settled server start es).filterMap fun p => p.2.map fun a => (p.1, a)

def logged : List (Datagram × Answer) :=
  (machine server start).observed (fun entry => entry.2.logged) es

def answers : List Answer :=
  (machine server start).observed (fun entry => entry.2.answer) es

/-- What was received is in the queue, with a worker or settled. -/
theorem run_received :
    (received server start es : Multiset Datagram) =
      ((machine server start).after es).pending +
        ((settled server start es).map Prod.fst : List Datagram) := by
  have hsettled : (settled server start es).map Prod.fst =
      (machine server start).observed (fun entry => entry.2.settled.map Prod.fst) es := by
    rw [settled, ← List.filterMap_eq_map, Machine.filterMap_observed]
    refine congrArg (fun see => List.filterMap see _) (funext fun entry => ?_)
    cases entry.2.settled <;> rfl
  rw [hsettled]
  refine Machine.accounted pending ?_ (fun es e => ?_) es
  · exact (zero_add _).trans (Finset.sum_eq_zero fun w _ => rfl)
  · exact (run_step server start es e).changes.pending

theorem run_unlogged :
    ((if server.logger then sentAnswers server start es else [] : List _) :
        Multiset (Datagram × Answer)) =
      ((machine server start).after es).unlogged + (logged server start es : Multiset _) := by
  have hsent : (if server.logger then sentAnswers server start es else []) =
      (machine server start).observed
        (fun entry => if server.logger then entry.2.sentAnswer else none) es := by
    split_ifs
    · exact Machine.filterMap_observed ..
    · exact (List.filterMap_none _).symm
  rw [hsent]
  refine Machine.accounted unlogged ?_ (fun es e => ?_) es
  · exact Finset.sum_eq_zero fun w _ => rfl
  · exact (run_step server start es e).changes.unlogged

theorem answers_cons (e : ServiceEvent ι) : answers server start (e :: es) =
    (((machine server start).after es).step server e).1.answer.toList ++
      answers server start es := Machine.observed_cons ..

/-- What the workers have done so far was justified. -/
theorem run_justified :
    Holds (answers server start es) ((machine server start).after es) ∧
      ∀ e w d out, (e, ServiceOutput.turned w d out) ∈ (machine server start).log es →
        out.Justified (answers server start es) d := by
  induction es with
  | nil =>
    refine ⟨fun w d h => ?_, fun e w d out h => by cases h⟩
    simp [machine, SignalQueue.machine, JobQueue.machine] at h
  | cons e es ih =>
    obtain ⟨hholds, hjustified⟩ := (run_step server start es e).holds ih.1
    have hsub : answers server start es ⊆ answers server start (e :: es) :=
      answers_cons server start es e ▸ List.subset_append_right _ _
    refine ⟨answers_cons server start es e ▸ hholds, fun e' w d out hmem => ?_⟩
    rw [Machine.log_cons, List.mem_cons] at hmem
    rcases hmem with hnow | hbefore
    · exact (hjustified w d out (congrArg Prod.snd hnow).symm).mono hsub
    · exact (ih.2 e' w d out hbefore).mono hsub

omit [DecidableEq ι] in
theorem held_eq_zero {α : Type} (f : Datagram → Stage → Multiset α) {s : Service ι}
    (h : ∀ w, (s.jobs.workers w).handles = false) : s.held f = 0 := by
  refine Finset.sum_eq_zero fun w _ => ?_
  have hw := h w
  cases hstate : s.jobs.workers w with
  | idle | waiting | left => rfl
  | handling d => simp [hstate, WorkerState.handles] at hw

/-- The answer is to the query of the datagram; without one, there is no query in it. -/
def Settles (answers : List Answer) (d : Datagram) : Option Answer → Prop
  | none => parsedJob d.packet = none
  | some a => Answers answers d a

theorem settles_of_mem {d : Datagram} {a : Option Answer}
    (h : (d, a) ∈ settled server start es) : Settles (answers server start es) d a := by
  obtain ⟨⟨e, out⟩, hmem, hout⟩ := List.mem_filterMap.mp h
  cases out with
  | queue out => cases hout
  | turned w d' out =>
    obtain ⟨a', ha', heq⟩ := Option.map_eq_some_iff.mp hout
    obtain ⟨rfl, rfl⟩ := Prod.mk.inj heq
    have hj := (run_justified server start es).2 e w d' out hmem
    cases out with
    | quiet | resolved | logged => cases ha'
    | refused =>
      obtain rfl := Option.some.inj ha'
      exact hj
    | sent b =>
      obtain rfl := Option.some.inj ha'
      exact hj

/-- Once a worker has left and none is in `HandleQuery`, everything is settled. -/
theorem settled_perm {w : ι} (hleft : ((machine server start).after es).jobs.workers w = .left)
    (hnone : ∀ v, (((machine server start).after es).jobs.workers v).handles = false) :
    ((settled server start es).map Prod.fst).Perm (received server start es) := by
  have hqueue : ((machine server start).after es).jobs.queue = [] :=
    ((run_drained server start es).left w hleft).2
  have hpending : ((machine server start).after es).pending = 0 := by
    rw [pending, hqueue, unsettled, held_eq_zero _ hnone]
    rfl
  have hreceived := run_received server start es
  rw [hpending, zero_add] at hreceived
  exact (Multiset.coe_eq_coe.mp hreceived).symm

end

/-- In every run of the server, for any number of workers and every order of the threads: each
datagram received is in the queue, with a worker, or settled, and this once; it is settled as
refused if its packet does not parse, and else by an answer to its own query. When a worker has
left and none is in `HandleQuery`, the datagrams received are the datagrams settled. -/
theorem every_datagram_settled_once (server : DnsServer) (start : ServerState)
    (es : List (ServiceEvent ι)) :
    let s := (machine server start).after es
    (received server start es : Multiset Datagram) =
        s.pending + ((settled server start es).map Prod.fst : List Datagram) ∧
      (∀ d a, (d, a) ∈ settled server start es → Settles (answers server start es) d a) ∧
      (∀ w, s.jobs.workers w = .left → (∀ v, (s.jobs.workers v).handles = false) →
        ((settled server start es).map Prod.fst).Perm (received server start es)) :=
  ⟨run_received server start es, fun _ _ => settles_of_mem server start es,
    fun _ => settled_perm server start es⟩

/-- With a logger each answer that is sent is logged once, after it was sent and before its worker
takes the next datagram; the line is about this answer, and names the client by an answer to the
query for its name. Without a logger nothing is logged. -/
theorem every_reply_logged_once (server : DnsServer) (start : ServerState)
    (es : List (ServiceEvent ι)) :
    let s := (machine server start).after es
    let sent := if server.logger then sentAnswers server start es else []
    (sent : Multiset (Datagram × Answer)) = s.unlogged + (logged server start es : Multiset _) ∧
      (∀ e w d a name,
        (e, ServiceOutput.turned w d (.logged a name)) ∈ (machine server start).log es →
          parsedJob d.packet = some a.job ∧ Names (answers server start es) d name) ∧
      ((∀ w, (s.jobs.workers w).handles = false) → (logged server start es).Perm sent) := by
  intro s sent
  have hunlogged := run_unlogged server start es
  refine ⟨hunlogged, fun e w d a name h => ?_, fun hnone => ?_⟩
  · obtain ⟨hanswers, hname⟩ := (run_justified server start es).2 e w d _ h
    exact ⟨hanswers.2, hname⟩
  · have hzero : s.unlogged = 0 := held_eq_zero _ hnone
    change (sent : Multiset _) = s.unlogged + _ at hunlogged
    rw [hzero, zero_add] at hunlogged
    exact (Multiset.coe_eq_coe.mp hunlogged).symm

end Service

end

end Gravastar
