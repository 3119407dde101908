import Gravastar.Cache.History
import Gravastar.DnsServer.Settled

/-!
# What the shared cache answers

All workers share one cache, and each call into it is one critical section. So
what the calls of a run do to the cache is what they do in this order to a
cache of its own, and what is known of such runs holds between the workers.
-/

namespace Gravastar

open DnsCache

/-- The key and the response that a call stores. -/
def CacheCall.stored : CacheCall → Option (Bytes × Bytes)
  | .put key response _ _ => some (key, response)
  | .get _ _ | .setLimits _ _ => none

/-- What is stored of an answer: its response, if the upstreams were asked for it and it is not
empty. That is their reply as `ProtectRebind` left it, or else the empty response that says that
no reply came or that it was refused. -/
def Answer.stored (a : Answer) : Option (Bytes × Bytes) :=
  if a.result.source = .resolveUpstream ∧ a.result.response ≠ [] then
    some (a.job.key, a.result.response)
  else none

/-! ## A cache of its own -/

section
variable {maxBytes ttlSec : Nat} {calls : List CacheCall} {k response : Bytes} {now time : Int}

theorem lastPut_of_get (hfix : FixedLimits calls)
    (h : (((cacheMachine maxBytes ttlSec).after calls).get k now).1 = some response) :
    ∃ time, lastPut k ((cacheMachine maxBytes ttlSec).log calls) = some (response, time) ∧
      now < time + ttlSec := by
  obtain ⟨xs, hxs, -, -, hremembers⟩ := cache_run_remembers maxBytes ttlSec hfix
  obtain ⟨ys, -, hget⟩ := hxs.get k now
  obtain ⟨deadline, hmem, hlive⟩ :=
    (Recency.get_eq_some hxs.items_nodup).mp ((congrArg Prod.fst hget).symm.trans h)
  obtain ⟨time, hlast, hdeadline⟩ := hremembers.sound _ hmem
  exact ⟨time, hlast, hdeadline ▸ hlive⟩

theorem get_of_lastPut (hfix : FixedLimits calls) (hclock : ClockMonotone (.get k now :: calls))
    (hput : lastPut k ((cacheMachine maxBytes ttlSec).log calls) = some (response, time))
    (hlive : now < time + ttlSec)
    (hfits : WorkingSetFits maxBytes k ((cacheMachine maxBytes ttlSec).log calls)) :
    (((cacheMachine maxBytes ttlSec).after calls).get k now).1 = some response := by
  obtain ⟨xs, hxs, -, -, hremembers⟩ := cache_run_remembers maxBytes ttlSec hfix
  obtain ⟨ys, -, hget⟩ := hxs.get k now
  -- nothing read before `now` has let the entry expire
  have hreads : ∀ read ∈ calls.flatMap CacheCall.reads, read < time + ttlSec := fun read hread =>
    lt_of_le_of_lt ((List.pairwise_cons.mp hclock).1 read hread) hlive
  obtain ⟨front, back, hkept, -⟩ := hremembers.kept k response time hput hreads hfits
  have hmem : ⟨k, response, time + ttlSec⟩ ∈ xs.map Slot.item := by simp [hkept]
  have hfound := (Recency.get_eq_some hxs.items_nodup).mpr ⟨time + ttlSec, hmem, hlive⟩
  exact (congrArg Prod.fst hget).trans hfound

end

/-! ## The calls of a turn -/

namespace DnsServer

/-- The call into the cache that a turn makes, where there is a cache. -/
def cacheCalls (server : DnsServer) (env : QueryEnv) : Stage → List CacheCall
  | .looking job _ => [.get job.key env.getNow]
  | .forwarding job _ =>
    let response := server.upstreamResponse job.packet job.header job.question env.exchange
    if response.isEmpty then [] else [.put job.key response env.putNow env.putTime]
  | .parsing | .sending _ | .naming _ | .logging _ _ | .returning => []

variable {server : DnsServer} {d : Datagram} {env : QueryEnv} {s s' : ServerState}
  {stage stage' : Stage} {out : TurnOutput}

/-- The query that a worker resolves next is not in the cache or the resolver yet. -/
theorem Asks.cacheCalls {client : Option Answer} {job : Job} (h : Asks d stage client job) :
    server.cacheCalls env stage = [] := by
  cases h <;> rfl

theorem Turn.cache_eq (h : server.Turn d env s stage out stage' s') {c : DnsCache}
    (hc : s.cache = some c) (maxBytes ttlSec : Nat) :
    s'.cache = some (((cacheMachine maxBytes ttlSec).startingAt c).after
      (server.cacheCalls env stage)) := by
  cases h with
  | answered asks | waits asks =>
    rw [asks.cacheCalls]
    exact hc
  | hit | miss =>
    dsimp only [DnsServer.cacheCalls]
    rw [hc]
    rfl
  | @forwarded job client answer of_job =>
    subst of_job
    dsimp only [DnsServer.cacheCalls]
    rw [hc, storeResponse]
    split_ifs
    · rfl
    · rfl
  | refused | sent | noName | logged | done => exact hc

/-- Stored is what queries are answered with after the upstreams were asked. -/
theorem Turn.stored_eq (h : server.Turn d env s stage out stage' s') :
    (server.cacheCalls env stage).filterMap CacheCall.stored =
      (out.answer.bind Answer.stored).toList := by
  cases h with
  | @answered stage client job result asks found =>
    have hsource : result.source ≠ .resolveUpstream := fun hsource =>
      server.not_isForeign_of_answerLocally found (.inl hsource)
    rw [asks.cacheCalls]
    simp [TurnOutput.answer, Answer.stored, hsource]
  | waits asks =>
    rw [asks.cacheCalls]
    rfl
  | hit | miss => rfl
  | @forwarded job client answer of_job =>
    subst of_job
    dsimp only [DnsServer.cacheCalls]
    split_ifs with hempty
    · simp [TurnOutput.answer, Answer.stored, List.isEmpty_iff.mp hempty]
    · have hne := mt List.isEmpty_iff.mpr hempty
      simp [TurnOutput.answer, Answer.stored, CacheCall.stored, hne]
  | refused | sent | noName | logged | done => rfl

theorem Turn.response_of_resolveUpstream {a : Answer}
    (h : server.Turn d env s stage (.resolved a) stage' s')
    (hsource : a.result.source = .resolveUpstream) :
    a.result.response =
      server.upstreamResponse a.job.packet a.job.header a.job.question env.exchange := by
  cases h with
  | answered asks found =>
    exact absurd (.inl hsource) (server.not_isForeign_of_answerLocally found)
  | hit => cases hsource
  | forwarded of_job =>
    subst of_job
    rfl

theorem Turn.found_of_resolveCache {a : Answer}
    (h : server.Turn d env s stage (.resolved a) stage' s')
    (hsource : a.result.source = .resolveCache) :
    (lookupCache s.cache a.job.key env.getNow).1 = some a.result.response := by
  cases h with
  | answered asks found =>
    exact absurd (.inr hsource) (server.not_isForeign_of_answerLocally found)
  | hit found => exact found
  | forwarded of_job =>
    subst of_job
    cases hsource

theorem Turn.resolved_of_found {job : Job} {client : Option Answer} {response : Bytes}
    (h : server.Turn d env s (.looking job client) out stage' s')
    (hfound : (lookupCache s.cache job.key env.getNow).1 = some response) :
    out = .resolved ⟨job, ⟨response, .resolveCache, []⟩, []⟩ := by
  cases h with
  | answered asks | waits asks => cases asks
  | hit found =>
    obtain rfl := Option.some.inj (found.symm.trans hfound)
    rfl
  | miss notFound => cases notFound.symm.trans hfound

/-- Nobody changes the limits. -/
theorem setLimits_notMem_cacheCalls (server : DnsServer) (env : QueryEnv) (stage : Stage)
    (maxBytes ttlSec : Nat) : .setLimits maxBytes ttlSec ∉ server.cacheCalls env stage := by
  cases stage with
  | looking => simp [DnsServer.cacheCalls]
  | forwarding =>
    dsimp only [DnsServer.cacheCalls]
    split_ifs <;> simp
  | parsing | sending | naming | logging | returning => exact List.not_mem_nil

end DnsServer

namespace Service

variable {ι : Type} [DecidableEq ι] [Fintype ι]

/-- The calls into the cache that an event of the server comes to. -/
def cacheCalls (server : DnsServer) (s : Service ι) : ServiceEvent ι → List CacheCall
  | .turn w env =>
    if (s.jobs.workers w).handles then server.cacheCalls env (s.stages w) else []
  | .receive _ _ | .stopWorkers | .wakeUp _ | .dequeue _ | .setDomains _ => []

section
variable {server : DnsServer} {s s' : Service ι} {e : ServiceEvent ι} {out : ServiceOutput ι}

omit [DecidableEq ι] [Fintype ι] in
theorem cacheCalls_of_queueEvent {e' : SignalEvent ι Datagram} (h : s.queueEvent e = some e') :
    s.cacheCalls server e = [] := by
  cases e with
  | turn w env =>
    rw [queueEvent] at h
    split_ifs at h with hreturning
    simp [cacheCalls, hreturning, DnsServer.cacheCalls]
  | receive | stopWorkers | wakeUp | dequeue | setDomains => rfl

theorem cacheCalls_of_not_moves (h : ¬ s.Moves e) : s.cacheCalls server e = [] := by
  cases e with
  | turn w env => exact if_neg h
  | receive | stopWorkers | wakeUp | dequeue | setDomains => rfl

omit [DecidableEq ι] [Fintype ι] in
theorem cacheCalls_turn {w : ι} {d : Datagram} (h : s.jobs.workers w = .handling d)
    (env : QueryEnv) :
    s.cacheCalls server (.turn w env) = server.cacheCalls env (s.stages w) := by
  simp [cacheCalls, h, WorkerState.handles]

theorem Step.cache_eq (h : Step server s e out s') {c : DnsCache} (hc : s.shared.cache = some c)
    (maxBytes ttlSec : Nat) :
    s'.shared.cache = some (((cacheMachine maxBytes ttlSec).startingAt c).after
      (s.cacheCalls server e)) := by
  cases h with
  | queue of_event =>
    rw [cacheCalls_of_queueEvent of_event]
    exact hc
  | turned handling going turn =>
    rw [cacheCalls_turn handling]
    exact turn.cache_eq hc maxBytes ttlSec
  | setDomains => exact hc
  | nothing _ still =>
    rw [cacheCalls_of_not_moves still]
    exact hc

theorem Step.stored_eq (h : Step server s e out s') :
    (s.cacheCalls server e).filterMap CacheCall.stored =
      (out.answer.bind Answer.stored).toList := by
  cases h with
  | queue of_event =>
    rw [cacheCalls_of_queueEvent of_event]
    rfl
  | turned handling going turn =>
    rw [cacheCalls_turn handling]
    exact turn.stored_eq
  | setDomains => rfl
  | nothing _ still =>
    rw [cacheCalls_of_not_moves still]
    rfl

end

/-! ## Every run -/

section
variable (server : DnsServer) (start : ServerState) (es : List (ServiceEvent ι))

/-- The calls into the cache in a run, in the order of their critical sections. -/
def cacheRun : List CacheCall := (machine server start).eventsBelow (cacheCalls server) es

theorem run_stored : (cacheRun server start es).filterMap CacheCall.stored =
    (answers server start es).filterMap Answer.stored := by
  rw [answers, Machine.filterMap_observed]
  exact Machine.filterMap_eventsBelow (fun es e => (run_step server start es e).stored_eq) es

/-- The turn in which the upstreams were asked. -/
theorem exists_exchange_of_answers {a : Answer} (ha : a ∈ answers server start es)
    (hsource : a.result.source = .resolveUpstream) :
    ∃ w env, .turn w env ∈ es ∧ a.result.response =
      server.upstreamResponse a.job.packet a.job.header a.job.question env.exchange := by
  induction es with
  | nil => cases ha
  | cons e es ih =>
    rw [answers_cons, List.mem_append, Option.mem_toList] at ha
    rcases ha with hnow | hbefore
    · have hstep := run_step server start es e
      generalize (((machine server start).after es).step server e).1 = out at hstep hnow
      generalize (machine server start).after (e :: es) = s' at hstep
      cases hstep with
      | queue | setDomains | nothing => cases hnow
      | @turned w d env out stage shared handling going turn =>
        cases out with
        | resolved b =>
          obtain rfl := Option.some.inj hnow
          exact ⟨w, env, List.mem_cons_self, turn.response_of_resolveUpstream hsource⟩
        | quiet | refused | sent | logged => cases hnow
    · obtain ⟨w, env, hmem, hresponse⟩ := ih hbefore
      exact ⟨w, env, List.mem_cons_of_mem e hmem, hresponse⟩

end

theorem run_cache (server : DnsServer) (blocklist : Option Blocklist) (maxBytes ttlSec : Nat)
    (es : List (ServiceEvent ι)) :
    let start := ServerState.initial blocklist (some (maxBytes, ttlSec))
    ((machine server start).after es).shared.cache =
      some ((cacheMachine maxBytes ttlSec).after (cacheRun server start es)) := by
  intro start
  refine Machine.after_eventsBelow (fun (s : Service ι) c => s.shared.cache = some c) rfl ?_ es
  intro es e c hc
  exact (run_step server start es e).cache_eq hc maxBytes ttlSec

theorem fixedLimits_cacheRun (server : DnsServer) (start : ServerState)
    (es : List (ServiceEvent ι)) : FixedLimits (cacheRun server start es) := by
  intro maxBytes ttlSec hmem
  obtain ⟨s, e, -, hcall⟩ := Machine.exists_mem_of_eventsBelow hmem
  cases e with
  | turn w env =>
    dsimp only [cacheCalls] at hcall
    split_ifs at hcall
    · exact server.setLimits_notMem_cacheCalls env (s.stages w) maxBytes ttlSec hcall
    · cases hcall
  | receive | stopWorkers | wakeUp | dequeue | setDomains => cases hcall

/-- The cache that all workers share keeps its promises between them. What is stored is what queries
were answered with after the upstreams were asked, in this order, and each of these answers is what
`ResolveQuery` makes of one exchange: the reply, a rewritten one, or the empty response where none
came or it was refused. Whoever answers from the cache gives the last response stored for the
question, less than `ttl_sec` after it was stored; and if the clock never ran backwards, whoever
looks for a response stored less than `ttl_sec` ago, whose working set has fitted since it was last
touched, answers with it and asks no upstream. -/
theorem cached_answers_fresh (server : DnsServer) (blocklist : Option Blocklist)
    (maxBytes ttlSec : Nat) (es : List (ServiceEvent ι)) :
    let start := ServerState.initial blocklist (some (maxBytes, ttlSec))
    let m := machine server start
    let calls := cacheRun server start es
    let log := (cacheMachine maxBytes ttlSec).log calls
    calls.filterMap CacheCall.stored = (answers server start es).filterMap Answer.stored ∧
      (∀ a ∈ answers server start es, a.result.source = .resolveUpstream →
        ∃ w env, .turn w env ∈ es ∧ a.result.response =
          server.upstreamResponse a.job.packet a.job.header a.job.question env.exchange) ∧
      ∀ w env d out, (m.step (m.after es) (.turn w env)).1 = .turned w d out →
        (∀ a, out = .resolved a → a.result.source = .resolveCache → ∃ time,
          lastPut a.job.key log = some (a.result.response, time) ∧ env.getNow < time + ttlSec) ∧
        ∀ job client, (m.after es).stages w = .looking job client →
          ClockMonotone (.get job.key env.getNow :: calls) → ∀ response time,
            lastPut job.key log = some (response, time) → env.getNow < time + ttlSec →
              WorkingSetFits maxBytes job.key log →
                out = .resolved ⟨job, ⟨response, .resolveCache, []⟩, []⟩ := by
  intro start m calls log
  refine ⟨run_stored server start es, fun a => exists_exchange_of_answers server start es,
    fun w env d out hturned => ?_⟩
  have hfix : FixedLimits calls := fixedLimits_cacheRun server start es
  have hcache := run_cache server blocklist maxBytes ttlSec es
  have hstep : Step server (m.after es) (.turn w env) (m.step (m.after es) (.turn w env)).1
      (m.after (.turn w env :: es)) := run_step server start es (.turn w env)
  rw [hturned] at hstep
  generalize m.after (.turn w env :: es) = s' at hstep
  cases hstep with
  | turned handling going turn =>
    constructor
    · rintro a rfl hsource
      have hfound := turn.found_of_resolveCache hsource
      rw [hcache] at hfound
      exact lastPut_of_get hfix hfound
    · intro job client hstage hclock response time hput hlive hfits
      rw [hstage] at turn
      refine turn.resolved_of_found ?_
      rw [hcache]
      exact get_of_lastPut hfix hclock hput hlive hfits

end Service

end Gravastar
