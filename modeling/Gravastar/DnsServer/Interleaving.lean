import Gravastar.DnsServer.RebindSafety
import Gravastar.DnsServer.Settled

/-!
# The server refines the machine of its queries

`DnsServer.machine` lets the pieces of any number of queries come in any order,
without workers, a queue or a reply. Every run of the server is one of its runs:
the queries under way are those in the hands of the workers, the lookups of
client names among them, and the answers are the same. So what is known of that
machine is known of what the server sends.
-/

namespace Gravastar

/-! ## One turn -/

/-- The query that is about to be looked up in the cache. -/
def Stage.lookedUp : Stage → Multiset Job
  | .looking job _ => {job}
  | .parsing | .forwarding _ _ | .sending _ | .naming _ | .logging _ _ | .returning => 0

/-- The query that the resolver works on. -/
def Stage.forwarded : Stage → Multiset Job
  | .forwarding job _ => {job}
  | .parsing | .looking _ _ | .sending _ | .naming _ | .logging _ _ | .returning => 0

/-- The queries under way are these, in any order. -/
structure UnderWay (w : Workers) (s : ServerState) (unresolved missed : Multiset Job) : Prop where
  shared : w.toServerState = s
  unresolved : (w.unresolved : Multiset Job) = unresolved
  missed : (w.missed : Multiset Job) = missed

theorem lookedUp_afterAnswer (answer : Answer) (client : Option Answer) :
    (Stage.afterAnswer answer client).lookedUp = 0 := by cases client <;> rfl

theorem forwarded_afterAnswer (answer : Answer) (client : Option Answer) :
    (Stage.afterAnswer answer client).forwarded = 0 := by cases client <;> rfl

/-- A query in the hands of a worker is at some place of the list. -/
theorem exists_getElem?_of_coe {jobs : List Job} {rest : Multiset Job} {job : Job}
    (h : (jobs : Multiset Job) = rest + {job}) :
    ∃ i : Nat, jobs[i]? = some job ∧ (jobs.eraseIdx i : Multiset Job) = rest := by
  have hmem : job ∈ jobs := by
    rw [← Multiset.mem_coe, h]
    exact Multiset.mem_add.mpr (.inr (Multiset.mem_singleton_self job))
  obtain ⟨i, hi, rfl⟩ := List.getElem_of_mem hmem
  refine ⟨i, List.getElem?_eq_getElem hi, ?_⟩
  have hperm := Multiset.coe_eq_coe.mpr (List.getElem_cons_eraseIdx_perm hi)
  rw [h, ← Multiset.cons_coe, ← Multiset.singleton_add, add_comm] at hperm
  exact add_right_cancel hperm

theorem parsedJob_eq_some {packet : Bytes} {job : Job} (h : parsedJob packet = some job) :
    (parseDnsQuery job.packet).val = some (job.header, job.question) := by
  obtain ⟨⟨header, question⟩, hparse, rfl⟩ := Option.map_eq_some_iff.mp h
  exact hparse

namespace DnsServer

variable {server : DnsServer} {d : Datagram} {env : QueryEnv} {s s' : ServerState}
  {stage stage' : Stage} {out : TurnOutput}

theorem Asks.parsed {client : Option Answer} {job : Job} (asks : Asks d stage client job) :
    (parseDnsQuery job.packet).val = some (job.header, job.question) := by
  cases asks with
  | client parsed => exact parsedJob_eq_some parsed
  | name parsed =>
    rw [clientNameJob] at parsed
    split_ifs at parsed
    exact parsedJob_eq_some parsed

theorem Asks.none_under_way {client : Option Answer} {job : Job} (asks : Asks d stage client job) :
    stage.lookedUp = 0 ∧ stage.forwarded = 0 := by
  cases asks <;> exact ⟨rfl, rfl⟩

/-- A turn is at most one event of the machine. -/
theorem Turn.simulated (h : server.Turn d env s stage out stage' s') (start : ServerState)
    {w : Workers} {unresolved missed : Multiset Job}
    (hw : UnderWay w s (unresolved + stage.lookedUp) (missed + stage.forwarded)) :
    ∃ ds, UnderWay (((server.machine start).startingAt w).after ds) s'
        (unresolved + stage'.lookedUp) (missed + stage'.forwarded) ∧
      ((server.machine start).startingAt w).observed Prod.snd ds = out.answer.toList := by
  obtain ⟨rfl, hunresolved, hmissed⟩ := hw
  have hone : ∀ e, ((server.machine start).startingAt w).observed Prod.snd [e] =
      (server.step w e).1.toList := fun e => by
    rw [Machine.observed_cons]
    exact List.append_nil _
  cases h with
  | refused | noName | logged | done => exact ⟨[], ⟨rfl, hunresolved, hmissed⟩, rfl⟩
  | sent => exact ⟨[], ⟨rfl, by split_ifs <;> exact hunresolved,
      by split_ifs <;> exact hmissed⟩, rfl⟩
  | @answered _ client job result asks found =>
    rw [asks.none_under_way.1] at hunresolved
    rw [asks.none_under_way.2] at hmissed
    have hstep : server.step w (.accept job.packet) = (some ⟨job, result, []⟩, w) := by
      simp [step, acceptStep, asks.parsed, found]
    refine ⟨[.accept job.packet], ?_, ?_⟩
    · rw [lookedUp_afterAnswer, forwarded_afterAnswer]
      change UnderWay (server.step w _).2 _ _ _
      rw [hstep]
      exact ⟨rfl, hunresolved, hmissed⟩
    · rw [hone, hstep]
      rfl
  | @waits _ client job asks notFound =>
    rw [asks.none_under_way.1, add_zero] at hunresolved
    rw [asks.none_under_way.2] at hmissed
    have hstep : server.step w (.accept job.packet) =
        (none, { w with unresolved := w.unresolved ++ [job] }) := by
      simp [step, acceptStep, asks.parsed, notFound]
    refine ⟨[.accept job.packet], ?_, ?_⟩
    · change UnderWay (server.step w _).2 _ _ _
      rw [hstep]
      refine ⟨rfl, ?_, hmissed⟩
      rw [← hunresolved, Stage.lookedUp, ← Multiset.coe_singleton, Multiset.coe_add]
    · rw [hone, hstep]
      rfl
  | @hit job client cached found =>
    obtain ⟨i, hi, hrest⟩ := exists_getElem?_of_coe hunresolved
    have hstep : server.step w (.lookup i env.getNow) =
        (some ⟨job, ⟨cached, .resolveCache, []⟩, []⟩,
          { w with
            unresolved := w.unresolved.eraseIdx i
            cache := (lookupCache w.cache job.key env.getNow).2 }) := by
      simp only [step, lookupStep, hi]
      cases hc : lookupCache w.cache job.key env.getNow with
      | mk r cache =>
        rw [hc] at found
        obtain rfl : r = some cached := found
        rfl
    refine ⟨[.lookup i env.getNow], ?_, ?_⟩
    · rw [lookedUp_afterAnswer, forwarded_afterAnswer, add_zero]
      change UnderWay (server.step w _).2 _ _ _
      rw [hstep]
      exact ⟨rfl, hrest, hmissed⟩
    · rw [hone, hstep]
      rfl
  | @miss job client notFound =>
    obtain ⟨i, hi, hrest⟩ := exists_getElem?_of_coe hunresolved
    have hstep : server.step w (.lookup i env.getNow) =
        (none,
          { w with
            unresolved := w.unresolved.eraseIdx i
            missed := w.missed ++ [job]
            cache := (lookupCache w.cache job.key env.getNow).2 }) := by
      simp only [step, lookupStep, hi]
      cases hc : lookupCache w.cache job.key env.getNow with
      | mk r cache =>
        rw [hc] at notFound
        obtain rfl : r = none := notFound
        rfl
    refine ⟨[.lookup i env.getNow], ?_, ?_⟩
    · change UnderWay (server.step w _).2 _ _ _
      rw [hstep]
      refine ⟨rfl, hrest.trans (add_zero _).symm, ?_⟩
      rw [Stage.forwarded, add_zero] at hmissed
      rw [← hmissed, Stage.forwarded, ← Multiset.coe_singleton, Multiset.coe_add]
    · rw [hone, hstep]
      rfl
  | @forwarded job client answer of_job =>
    obtain ⟨i, hi, hrest⟩ := exists_getElem?_of_coe hmissed
    have hstep : server.step w (.forward i env.exchange env.putNow env.putTime) =
        (some answer,
          { w with
            missed := w.missed.eraseIdx i
            cache := storeResponse w.cache job.key answer.result.response env.putNow
              env.putTime }) := by
      simp only [step, forwardStep, hi, of_job]
    refine ⟨[.forward i env.exchange env.putNow env.putTime], ?_, ?_⟩
    · rw [lookedUp_afterAnswer, forwarded_afterAnswer, add_zero]
      change UnderWay (server.step w _).2 _ _ _
      rw [hstep]
      exact ⟨rfl, hunresolved.trans (add_zero _), hrest.trans (add_zero _).symm⟩
    · rw [hone, hstep]
      rfl

end DnsServer

/-! ## The server -/

section
variable {ι : Type} [DecidableEq ι] [Fintype ι]

namespace Service

/-- The machine is where the workers are, without what they do before and after. -/
def Refines (s : Service ι) (w : Workers) : Prop :=
  UnderWay w s.shared (s.held fun _ stage => stage.lookedUp)
    (s.held fun _ stage => stage.forwarded)

omit [DecidableEq ι] in
theorem Changes.simulated {server : DnsServer} {s s' : Service ι} {out : ServiceOutput ι}
    (h : Changes server s s' out) (start : ServerState) {w : Workers} (hw : Refines s w) :
    ∃ ds, Refines s' (((server.machine start).startingAt w).after ds) ∧
      ((server.machine start).startingAt w).observed Prod.snd ds = out.answer.toList := by
  cases h with
  | taken front holds shared =>
    refine ⟨[], ?_, rfl⟩
    rw [Refines, shared, holds _ fun _ => rfl, holds _ fun _ => rfl]
    change UnderWay w s.shared (_ + 0) (_ + 0)
    rw [add_zero, add_zero]
    exact hw
  | @turned v d env out stage stage' turn jobs holds =>
    obtain ⟨unresolved, holdUnresolved, hnewUnresolved⟩ := holds fun _ stage => stage.lookedUp
    obtain ⟨missed, holdMissed, hnewMissed⟩ := holds fun _ stage => stage.forwarded
    rw [Refines, holdUnresolved, holdMissed] at hw
    obtain ⟨ds, hds, hseen⟩ := turn.simulated start hw
    refine ⟨ds, ?_, hseen⟩
    rw [Refines, hnewUnresolved, hnewMissed]
    exact hds
  | setDomains domains jobs holds shared =>
    obtain ⟨hshared, hunresolved, hmissed⟩ := hw
    refine ⟨[.setDomains domains], ⟨?_, ?_, ?_⟩, rfl⟩
    · rw [shared, ← hshared]
      rfl
    · rw [holds]
      exact hunresolved
    · rw [holds]
      exact hmissed
  | others none_returned queue holds shared =>
    refine ⟨[], ?_, rfl⟩
    rw [Refines, shared, holds _ fun _ => rfl, holds _ fun _ => rfl]
    exact hw

theorem simulates (server : DnsServer) (start : ServerState) :
    (machine server start : Machine (Service ι) _ _).Simulates (server.machine start) Refines
      (fun entry => entry.2.answer) Prod.snd where
  init := ⟨rfl, (Finset.sum_eq_zero fun _ _ => rfl).symm, (Finset.sum_eq_zero fun _ _ => rfl).symm⟩
  step es _ e hw := (run_step server start es e).changes.simulated start hw

variable (server : DnsServer)

/-- For any number of workers, every run of the server is a run of the machine of its queries: the
same blocklist and cache, the same queries under way, and the same answers in the same order. -/
theorem refines_machine (start : ServerState) (es : List (ServiceEvent ι)) :
    ∃ ds, Refines ((machine server start).after es) ((server.machine start).after ds) ∧
      server.answers start ds = answers server start es :=
  (simulates server start).exists_run es

/-- What the server sends is safe from rebinding: with the protection on, no reply to a received
datagram that comes from an upstream or the cache holds a private A record, and neither does what
is stored, in every run with any number of workers. -/
theorem sent_rebind_safe (hon : server.config.rebindProtection = true)
    (blocklist : Option Blocklist) (limits : Option (Nat × Nat)) (es : List (ServiceEvent ι)) :
    let start := ServerState.initial blocklist limits
    (∀ d a, (d, some a) ∈ settled server start es → a.result.isForeign →
        ∀ bytes ∈ a.sent, NoPrivateA bytes) ∧
      ∀ key response expiry,
        Cached ((machine server start).after es).shared.cache key response expiry →
          NoPrivateA response := by
  intro start
  obtain ⟨ds, hrefines, hanswers⟩ := refines_machine server start es
  refine ⟨fun d a hsettled hforeign bytes hbytes => ?_, fun key response expiry hcached => ?_⟩
  · have ha : a ∈ server.answers start ds := by
      rw [hanswers]
      exact (settles_of_mem server start es hsettled).1
    obtain ⟨newer, older, hsplit⟩ := List.append_of_mem ha
    obtain ⟨-, e, ds₀, -, -, hstep⟩ := server.exists_step_of_answers hsplit
    have hsound := (server.run_ok (soundCache_initial blocklist limits) ds₀).sound
    have hclean := (hstep.clean hon hsound (run_clean hon blocklist limits ds₀)).2 a rfl hforeign
    exact noPrivateA_sent hclean hbytes
  · have hclean := run_clean hon blocklist limits ds key response expiry
    rw [← hrefines.shared] at hcached
    exact (hclean hcached).noPrivateA

/-- One worker, and an upstream that replies with the address 10.0.0.1. -/
def privateReplyRun : List (ServiceEvent Unit) :=
  let env : QueryEnv := ⟨0, udpDelivers (addressReply 7 [10, 0, 0, 1]), 0, 0⟩
  [.turn () env, .turn () env, .turn () env, .turn () env, .dequeue (),
    .receive ⟨plainQuery 7 [97] 1 1, .replicate 4 10, 5353⟩ ∅]

theorem sent_rebind_safe_private_reply :
    ∃ p ∈ settled (plainServer true) (.initial none (some (100, 60))) privateReplyRun,
      ∃ a ∈ p.2, a.sent = some (addressReply 7 [0, 0, 0, 0]) ∧
        NoPrivateA (addressReply 7 [0, 0, 0, 0]) := by
  let d : Datagram := ⟨plainQuery 7 [97] 1 1, .replicate 4 10, 5353⟩
  let a : Answer := ⟨plainJob, ⟨addressReply 7 [0, 0, 0, 0], .resolveUpstream, ascii "0.0.0.0"⟩,
    [.resolveDot plainJob.packet, .resolveUdp plainJob.packet]⟩
  have hsettled : (d, some a) ∈
      settled (plainServer true) (.initial none (some (100, 60))) privateReplyRun := by
    decide +kernel
  have hsent : a.sent = some (addressReply 7 [0, 0, 0, 0]) := by decide +kernel
  exact ⟨(d, some a), hsettled, a, rfl, hsent,
    (sent_rebind_safe (plainServer true) rfl none (some (100, 60)) privateReplyRun).1 d a hsettled
      (.inl rfl) _ hsent⟩

end Service

end

end Gravastar
