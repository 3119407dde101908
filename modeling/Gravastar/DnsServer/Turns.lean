import Gravastar.DnsServer.Runs
import Gravastar.Lib.Simulation

/-!
# A worker's turns in `HandleQuery` (`dns_server.cpp`)

`HandleQuery` is cut where it touches what other threads share, and where it
sends or logs. It looks into the cache and asks the upstreams up to twice: for
the query of the client, and then for the name of the client if there is a
logger. A worker that is never interrupted does what `handleQuery` says.
-/

namespace Gravastar

/-- What `recvfrom` stored: the `Job` of the queue. -/
structure Datagram where
  packet : Bytes
  clientAddr : Vector UInt8 4
  clientPort : UInt16
  deriving DecidableEq, Repr

/-- Where a worker is in `HandleQuery`. While it resolves the name of a client, it holds the answer
that the client has got. -/
inductive Stage where
  /-- About to parse the packet and to ask the blocklist and the local records. -/
  | parsing
  /-- About to look into the cache. -/
  | looking (job : Job) (client : Option Answer)
  /-- In the resolver. -/
  | forwarding (job : Job) (client : Option Answer)
  /-- About to send. -/
  | sending (a : Answer)
  /-- About to call `ResolveClientName`. -/
  | naming (a : Answer)
  /-- About to call the logger. -/
  | logging (a : Answer) (clientName : Bytes)
  | returning
  deriving DecidableEq

/-- What others notice of a turn. -/
inductive TurnOutput where
  | quiet
  /-- The packet does not parse. -/
  | refused
  /-- `ResolveQuery` returns. -/
  | resolved (a : Answer)
  /-- The client was sent `a.sent`, unless the response is empty. -/
  | sent (a : Answer)
  /-- The logger was called for this answer. -/
  | logged (a : Answer) (clientName : Bytes)
  deriving DecidableEq

/-- The query in a packet, as a worker holds it. -/
def parsedJob (packet : Bytes) : Option Job :=
  (parseDnsQuery packet).val.map fun r => ⟨packet, r.1, r.2⟩

/-- The query that `ResolveClientName` makes for an address. -/
def clientNameJob (addr : Vector UInt8 4) : Option Job :=
  let parts := split (inetNtop addr) dot
  if parts.length ≠ 4 then none else parsedJob (clientNameQuery parts)

/-- The client's name in the response to that query. -/
def clientNameIn (response : Bytes) : Bytes :=
  match (extractFirstPtrTarget response).val with
  | none => ascii "-"
  | some ptrName => if ptrName.isEmpty then ascii "-" else ptrName

/-- Where a worker goes on when `ResolveQuery` has returned. -/
def Stage.afterAnswer (answer : Answer) : Option Answer → Stage
  | none => .sending answer
  | some a => .logging a (clientNameIn answer.result.response)

namespace DnsServer

variable (server : DnsServer)

/-- The part of `ResolveQuery` before the cache. -/
def askLocally (s : ServerState) (job : Job) (client : Option Answer) :
    TurnOutput × Stage × ServerState :=
  match server.answerLocally s.blocklist job.header job.question with
  | some result => (.resolved ⟨job, result, []⟩, .afterAnswer ⟨job, result, []⟩ client, s)
  | none => (.quiet, .looking job client, s)

/-- One turn. The clock and the network are those of the turn. -/
def turn (d : Datagram) (env : QueryEnv) (s : ServerState) :
    Stage → TurnOutput × Stage × ServerState
  | .parsing =>
    match parsedJob d.packet with
    | none => (.refused, .returning, s)
    | some job => server.askLocally s job none
  | .looking job client =>
    match lookupCache s.cache job.key env.getNow with
    | (some cached, cache) =>
      let answer : Answer := ⟨job, ⟨cached, .resolveCache, []⟩, []⟩
      (.resolved answer, .afterAnswer answer client, { s with cache })
    | (none, cache) => (.quiet, .forwarding job client, { s with cache })
  | .forwarding job client =>
    let response := server.upstreamResponse job.packet job.header job.question env.exchange
    let answer : Answer := ⟨job, ⟨response, .resolveUpstream,
      server.usedServer job.packet env.exchange⟩, upstreamCalls job.packet env.exchange⟩
    (.resolved answer, .afterAnswer answer client,
      { s with cache := storeResponse s.cache job.key response env.putNow env.putTime })
  | .sending a => (.sent a, if server.logger then .naming a else .returning, s)
  | .naming a =>
    match clientNameJob d.clientAddr with
    | none => (.quiet, .logging a (ascii "-"), s)
    | some job => server.askLocally s job (some a)
  | .logging a clientName => (.logged a clientName, .returning, s)
  | .returning => (.quiet, .returning, s)

/-! ## One turn -/

/-- The query that a worker resolves next, and for whom. -/
inductive Asks (d : Datagram) : Stage → Option Answer → Job → Prop
  | client {job : Job} (parsed : parsedJob d.packet = some job) : Asks d .parsing none job
  | name {a : Answer} {job : Job} (parsed : clientNameJob d.clientAddr = some job) :
      Asks d (.naming a) (some a) job

/-- What a turn can do, with what it has found out. -/
inductive Turn (d : Datagram) (env : QueryEnv) (s : ServerState) :
    Stage → TurnOutput → Stage → ServerState → Prop
  | refused (unparsed : parsedJob d.packet = none) : Turn d env s .parsing .refused .returning s
  | answered {stage : Stage} {client : Option Answer} {job : Job} {result : ResolveResult}
      (asks : Asks d stage client job)
      (found : server.answerLocally s.blocklist job.header job.question = some result) :
      Turn d env s stage (.resolved ⟨job, result, []⟩) (.afterAnswer ⟨job, result, []⟩ client) s
  | waits {stage : Stage} {client : Option Answer} {job : Job} (asks : Asks d stage client job)
      (notFound : server.answerLocally s.blocklist job.header job.question = none) :
      Turn d env s stage .quiet (.looking job client) s
  | hit {job : Job} {client : Option Answer} {cached : Bytes}
      (found : (lookupCache s.cache job.key env.getNow).1 = some cached) :
      Turn d env s (.looking job client) (.resolved ⟨job, ⟨cached, .resolveCache, []⟩, []⟩)
        (.afterAnswer ⟨job, ⟨cached, .resolveCache, []⟩, []⟩ client)
        { s with cache := (lookupCache s.cache job.key env.getNow).2 }
  | miss {job : Job} {client : Option Answer}
      (notFound : (lookupCache s.cache job.key env.getNow).1 = none) :
      Turn d env s (.looking job client) .quiet (.forwarding job client)
        { s with cache := (lookupCache s.cache job.key env.getNow).2 }
  | forwarded {job : Job} {client : Option Answer} {answer : Answer}
      (of_job : answer = ⟨job, ⟨server.upstreamResponse job.packet job.header job.question
        env.exchange, .resolveUpstream, server.usedServer job.packet env.exchange⟩,
        upstreamCalls job.packet env.exchange⟩) :
      Turn d env s (.forwarding job client) (.resolved answer) (.afterAnswer answer client)
        { s with
          cache := storeResponse s.cache job.key answer.result.response env.putNow env.putTime }
  | sent {a : Answer} :
      Turn d env s (.sending a) (.sent a) (if server.logger then .naming a else .returning) s
  | noName {a : Answer} (unparsed : clientNameJob d.clientAddr = none) :
      Turn d env s (.naming a) .quiet (.logging a (ascii "-")) s
  | logged {a : Answer} {clientName : Bytes} :
      Turn d env s (.logging a clientName) (.logged a clientName) .returning s
  | done : Turn d env s .returning .quiet .returning s

variable {server}

theorem askLocally_spec {d : Datagram} {stage : Stage} {client : Option Answer} {job : Job}
    (asks : Asks d stage client job) (env : QueryEnv) (s : ServerState) :
    server.Turn d env s stage (server.askLocally s job client).1
      (server.askLocally s job client).2.1 (server.askLocally s job client).2.2 := by
  rw [askLocally]
  cases h : server.answerLocally s.blocklist job.header job.question with
  | some result => exact .answered asks h
  | none => exact .waits asks h

theorem turn_spec (d : Datagram) (env : QueryEnv) (s : ServerState) (stage : Stage) :
    server.Turn d env s stage (server.turn d env s stage).1 (server.turn d env s stage).2.1
      (server.turn d env s stage).2.2 := by
  cases stage with
  | parsing =>
    rw [turn]
    cases h : parsedJob d.packet with
    | none => exact .refused h
    | some job => exact askLocally_spec (.client h) env s
  | looking job client =>
    rw [turn]
    cases h : lookupCache s.cache job.key env.getNow with
    | mk found cache =>
      have hcache : cache = (lookupCache s.cache job.key env.getNow).2 := by rw [h]
      subst hcache
      cases found with
      | some cached => exact .hit (by rw [h])
      | none => exact .miss (by rw [h])
  | forwarding job client => exact .forwarded rfl
  | sending a => exact .sent
  | naming a =>
    rw [turn]
    cases h : clientNameJob d.clientAddr with
    | none => exact .noName h
    | some job => exact askLocally_spec (.name h) env s
  | logging a clientName => exact .logged
  | returning => exact .done

end DnsServer

/-! ## How many turns -/

/-- The number of turns that may still be left. -/
def Stage.toDo : Stage → Nat
  | .parsing => 8
  | .looking _ none => 7
  | .forwarding _ none => 6
  | .sending _ => 5
  | .naming _ => 4
  | .looking _ (some _) => 3
  | .forwarding _ (some _) => 2
  | .logging _ _ => 1
  | .returning => 0

/-- What the outside notices: the failure of `HandleQuery`, the bytes sent or the line logged. -/
inductive Effect where
  | failed
  | reply (bytes : Option Bytes)
  | line (call : LogCall)
  deriving DecidableEq

def TurnOutput.effect (d : Datagram) : TurnOutput → Option Effect
  | .quiet | .resolved _ => none
  | .refused => some .failed
  | .sent a => some (.reply a.sent)
  | .logged a clientName =>
    some (.line (DnsServer.logCall (inetNtop d.clientAddr) clientName a.job.question a.result))

/-- The effects of `HandleQuery`, the newest first. -/
def Handled.effects (handled : Handled) : List Effect :=
  if handled.ok then (handled.logged.map .line).toList ++ [.reply handled.sent] else [.failed]

namespace DnsServer

variable {server : DnsServer}

theorem toDo_afterAnswer (answer : Answer) (client : Option Answer) :
    (Stage.afterAnswer answer client).toDo = if client.isNone then 5 else 1 := by
  cases client <;> rfl

/-- A query and the name of its client take at most eight turns. -/
theorem Turn.toDo_lt {d : Datagram} {env : QueryEnv} {s s' : ServerState} {stage stage' : Stage}
    {out : TurnOutput} (h : server.Turn d env s stage out stage' s')
    (hstage : stage ≠ .returning) : stage'.toDo < stage.toDo := by
  cases h with
  | refused => exact Nat.zero_lt_succ 7
  | answered asks =>
    rw [toDo_afterAnswer]
    cases asks <;> simp [Stage.toDo]
  | waits asks => cases asks <;> simp [Stage.toDo]
  | @hit _ client _ _ =>
    rw [toDo_afterAnswer]
    cases client <;> simp [Stage.toDo]
  | @miss _ client _ => cases client <;> simp [Stage.toDo]
  | @forwarded _ client _ _ =>
    rw [toDo_afterAnswer]
    cases client <;> simp [Stage.toDo]
  | sent => split_ifs <;> simp [Stage.toDo]
  | noName => simp [Stage.toDo]
  | logged => exact Nat.zero_lt_one
  | done => exact absurd rfl hstage

/-! ## Without interruption -/

/-- `HandleQuery` alone, from a given state of what the threads share. -/
def thread (server : DnsServer) (d : Datagram) (s : ServerState) :
    Machine (Stage × ServerState) QueryEnv TurnOutput :=
  ⟨(.parsing, s), fun t env => server.turn d env t.2 t.1⟩

theorem thread_turn (server : DnsServer) (d : Datagram) (s : ServerState) (envs : List QueryEnv)
    (env : QueryEnv) :
    server.Turn d env ((server.thread d s).after envs).2 ((server.thread d s).after envs).1
      ((server.thread d s).step ((server.thread d s).after envs) env).1
      ((server.thread d s).after (env :: envs)).1 ((server.thread d s).after (env :: envs)).2 :=
  turn_spec d env _ _

/-- A worker that is not interrupted returns within eight turns. -/
theorem toDo_after_le (server : DnsServer) (d : Datagram) (s : ServerState)
    (envs : List QueryEnv) : ((server.thread d s).after envs).1.toDo ≤ 8 - envs.length := by
  induction envs with
  | nil => exact le_rfl
  | cons env envs ih =>
    have hturn := thread_turn server d s envs env
    rw [List.length_cons]
    by_cases hstage : ((server.thread d s).after envs).1 = .returning
    · rw [hstage] at hturn
      generalize (server.thread d s).after (env :: envs) = t at hturn ⊢
      generalize ((server.thread d s).step ((server.thread d s).after envs) env).1 = out at hturn
      obtain ⟨stage, s'⟩ := t
      dsimp only at hturn ⊢
      cases hturn with
      | answered asks | waits asks => cases asks
      | done => exact Nat.zero_le _
    · have hlt := hturn.toDo_lt hstage
      omega

end DnsServer

/-- The clocks and the networks that a worker meets, for the query of the client and for the name
of the client. -/
structure Met where
  query : QueryEnv
  name : QueryEnv
  deriving DecidableEq

namespace Met

/-- Those for the query of the client, or for the name of the client with this answer. -/
def of (met : Met) : Option Answer → QueryEnv
  | none => met.query
  | some _ => met.name

def set (met : Met) (env : QueryEnv) : Option Answer → Met
  | none => { met with query := env }
  | some _ => { met with name := env }

/-- A look into the cache reads the clock. The resolver uses the network, and when its response is
stored the clock is read again. -/
def turn (met : Met) (env : QueryEnv) : Stage → Met
  | .looking _ client => met.set { met.of client with getNow := env.getNow } client
  | .forwarding _ client => met.set { env with getNow := (met.of client).getNow } client
  | .parsing | .sending _ | .naming _ | .logging _ _ | .returning => met

@[simp] theorem of_set (met : Met) (env : QueryEnv) (client : Option Answer) :
    (met.set env client).of client = env := by cases client <;> rfl

end Met

namespace DnsServer

variable {server : DnsServer}

/-- What a worker has met in its turns. What they did not ask for is as in `unmet`. -/
def met (server : DnsServer) (d : Datagram) (s : ServerState) (unmet : Met) :
    List QueryEnv → Met
  | [] => unmet
  | env :: envs => (server.met d s unmet envs).turn env ((server.thread d s).after envs).1

theorem resolveClientName_eq (s : ServerState) (addr : Vector UInt8 4) (env : QueryEnv) :
    server.resolveClientName s addr env =
      match clientNameJob addr with
      | none => (ascii "-", s)
      | some job =>
        let outcome := server.resolveQuery s job.packet job.header job.question env
        (clientNameIn outcome.result.response, outcome.state) := by
  rw [resolveClientName, clientNameJob]
  dsimp only
  split_ifs with hparts
  · rfl
  · rw [parsedJob]
    cases hp : (parseDnsQuery (clientNameQuery (split (inetNtop addr) dot))).val with
    | none => rfl
    | some r =>
      dsimp only [Option.map_some]
      rw [clientNameIn]
      cases (extractFirstPtrTarget _).val <;> rfl

/-- There is only one outcome. -/
theorem Resolves.resolveQuery_eq {s : ServerState} {job : Job} {env : QueryEnv} {outcome : Outcome}
    (h : server.Resolves s job env outcome) :
    server.resolveQuery s job.packet job.header job.question env = outcome := by
  have hkey : makeCacheKey job.question.qname job.question.qtype = job.key := rfl
  cases h with
  | locally found => rw [resolveQuery, found]
  | hit notLocal found =>
    rw [resolveQuery, notLocal]
    dsimp only
    rw [hkey, ← Prod.mk.eta (p := lookupCache s.cache job.key env.getNow), found]
  | miss notLocal notFound =>
    rw [resolveQuery, notLocal]
    dsimp only
    rw [hkey, ← Prod.mk.eta (p := lookupCache s.cache job.key env.getNow), notFound]

theorem handleQuery_of_job (server : DnsServer) {d : Datagram} {job : Job}
    (hjob : parsedJob d.packet = some job) (s : ServerState) (env nameEnv : QueryEnv) :
    server.handleQuery s d.packet d.clientAddr env nameEnv =
      let outcome := server.resolveQuery s job.packet job.header job.question env
      let sent := sentResponse job.header outcome.result
      if server.logger then
        let named := server.resolveClientName outcome.state d.clientAddr nameEnv
        ⟨true, sent, some (logCall (inetNtop d.clientAddr) named.1 job.question outcome.result),
          named.2⟩
      else ⟨true, sent, none, outcome.state⟩ := by
  obtain ⟨⟨header, question⟩, hparse, rfl⟩ := Option.map_eq_some_iff.mp hjob
  rw [handleQuery, hparse]

section
variable (server : DnsServer) (d : Datagram) (start : ServerState) (met : Met)

/-- The answer to the query of the client, and the state in which `ResolveQuery` left it. -/
def IsAnswer (a : Answer) (s : ServerState) : Prop :=
  parsedJob d.packet = some a.job ∧
    server.Resolves start a.job met.query ⟨a.result, s, a.calls⟩

/-- A query is resolved from this state on: that of the client, or that for the name of the client
with this answer. -/
def Asked (s : ServerState) (seen : List Effect) : Option Answer → Job → Prop
  | none, job => parsedJob d.packet = some job ∧ s = start ∧ seen = []
  | some a, job => clientNameJob d.clientAddr = some job ∧ IsAnswer server d start met a s ∧
      server.logger = true ∧ seen = [.reply a.sent]

/-- How far a worker has come that started in `start`, where it has met `met` and `seen` was
noticed of it. -/
def Progress (seen : List Effect) (s : ServerState) : Stage → Prop
  | .parsing => s = start ∧ seen = []
  | .looking job client => Asked server d start met s seen client job ∧
      server.answerLocally s.blocklist job.header job.question = none
  | .forwarding job client => ∃ s₀, Asked server d start met s₀ seen client job ∧
      server.answerLocally s₀.blocklist job.header job.question = none ∧
      (lookupCache s₀.cache job.key (met.of client).getNow).1 = none ∧
      s = { s₀ with cache := (lookupCache s₀.cache job.key (met.of client).getNow).2 }
  | .sending a => IsAnswer server d start met a s ∧ seen = []
  | .naming a => IsAnswer server d start met a s ∧ server.logger = true ∧ seen = [.reply a.sent]
  | .logging a clientName => ∃ s₀, IsAnswer server d start met a s₀ ∧ server.logger = true ∧
      server.resolveClientName s₀ d.clientAddr met.name = (clientName, s) ∧
      seen = [.reply a.sent]
  | .returning =>
    let handled := server.handleQuery start d.packet d.clientAddr met.query met.name
    s = handled.state ∧ seen = handled.effects

end

variable {d : Datagram} {start s s' s₀ : ServerState} {met : Met} {seen : List Effect}
  {env : QueryEnv} {client : Option Answer} {job : Job}

/-- The query of the client is not met again when its name is resolved. -/
theorem Asked.set (h : Asked server d start met s seen client job) (env : QueryEnv) :
    Asked server d start (met.set env client) s seen client job := by cases client <;> exact h

theorem Asks.asked {stage : Stage} (asks : Asks d stage client job)
    (h : Progress server d start met seen s stage) :
    Asked server d start met s seen client job ∧ met.turn env stage = met := by
  cases asks with
  | client parsed => exact ⟨⟨parsed, h⟩, rfl⟩
  | name parsed => exact ⟨⟨parsed, h⟩, rfl⟩

theorem Asked.progress_afterAnswer (h : Asked server d start met s₀ seen client job)
    {answer : Answer} (hjob : answer.job = job)
    (hresolves : server.Resolves s₀ job (met.of client) ⟨answer.result, s, answer.calls⟩) :
    Progress server d start met seen s (.afterAnswer answer client) := by
  subst hjob
  cases client with
  | none =>
    obtain ⟨parsed, rfl, rfl⟩ := h
    exact ⟨⟨parsed, hresolves⟩, rfl⟩
  | some a =>
    obtain ⟨parsed, hanswer, hlogger, hseen⟩ := h
    refine ⟨s₀, hanswer, hlogger, ?_, hseen⟩
    rw [resolveClientName_eq, parsed]
    dsimp only
    rw [show met.name = met.of (some a) from rfl, hresolves.resolveQuery_eq]

/-- One case for each thing that a turn can do. -/
theorem Turn.progress {stage stage' : Stage} {out : TurnOutput}
    (h : server.Turn d env s stage out stage' s')
    (hs : Progress server d start met seen s stage) :
    Progress server d start (met.turn env stage) ((out.effect d).toList ++ seen) s' stage' := by
  cases h with
  | refused unparsed =>
    obtain ⟨rfl, rfl⟩ := hs
    have hparse : (parseDnsQuery d.packet).val = none := by simpa [parsedJob] using unparsed
    have hhandled : server.handleQuery s d.packet d.clientAddr met.query met.name =
        ⟨false, none, none, s⟩ := by rw [handleQuery, hparse]
    dsimp only [Progress, Met.turn]
    rw [hhandled]
    exact ⟨rfl, rfl⟩
  | answered asks found =>
    obtain ⟨hasked, hmet⟩ := asks.asked hs
    rw [hmet]
    exact hasked.progress_afterAnswer rfl (.locally found)
  | waits asks notFound =>
    obtain ⟨hasked, hmet⟩ := asks.asked hs
    rw [hmet]
    exact ⟨hasked, notFound⟩
  | hit found =>
    obtain ⟨hasked, notLocal⟩ := hs
    refine (hasked.set _).progress_afterAnswer rfl ?_
    rw [Met.of_set]
    exact .hit notLocal found
  | miss notFound =>
    obtain ⟨hasked, notLocal⟩ := hs
    refine ⟨s, hasked.set _, notLocal, ?_⟩
    rw [Met.turn, Met.of_set]
    exact ⟨notFound, rfl⟩
  | forwarded of_job =>
    obtain ⟨s₀, hasked, notLocal, notFound, rfl⟩ := hs
    subst of_job
    refine (hasked.set _).progress_afterAnswer rfl ?_
    rw [Met.of_set]
    exact .miss notLocal notFound
  | @sent a =>
    obtain ⟨hanswer, rfl⟩ := hs
    split_ifs with hlogger
    · exact ⟨hanswer, hlogger, rfl⟩
    · have hhandled := handleQuery_of_job server hanswer.1 start met.query met.name
      rw [if_neg hlogger, hanswer.2.resolveQuery_eq] at hhandled
      dsimp only [Progress, Met.turn]
      rw [hhandled]
      exact ⟨rfl, rfl⟩
  | noName unparsed =>
    obtain ⟨hanswer, hlogger, hseen⟩ := hs
    refine ⟨s, hanswer, hlogger, ?_, hseen⟩
    rw [resolveClientName_eq, unparsed]
  | logged =>
    obtain ⟨s₀, hanswer, hlogger, hnamed, rfl⟩ := hs
    have hhandled := handleQuery_of_job server hanswer.1 start met.query met.name
    rw [if_pos hlogger, hanswer.2.resolveQuery_eq] at hhandled
    dsimp only at hhandled
    rw [hnamed] at hhandled
    dsimp only [Progress, Met.turn]
    rw [hhandled]
    exact ⟨rfl, rfl⟩
  | done => exact hs

/-- The induction follows the turns. -/
theorem thread_progress (server : DnsServer) (d : Datagram) (s : ServerState) (unmet : Met)
    (envs : List QueryEnv) :
    Progress server d s (server.met d s unmet envs)
      ((server.thread d s).observed (fun entry => entry.2.effect d) envs)
      ((server.thread d s).after envs).2 ((server.thread d s).after envs).1 := by
  induction envs with
  | nil => exact ⟨rfl, rfl⟩
  | cons env envs ih =>
    rw [Machine.observed_cons]
    exact (thread_turn server d s envs env).progress ih

/-- A worker that is not interrupted has returned after eight turns, and then it has done what
`handleQuery` does with the clocks and the networks that it met: it leaves the same state, and the
client and the logger get the same. -/
theorem handleQuery_turns (server : DnsServer) (d : Datagram) (s : ServerState)
    (envs : List QueryEnv) :
    let m := server.thread d s
    (8 ≤ envs.length → (m.after envs).1 = .returning) ∧
      ((m.after envs).1 = .returning → ∀ unmet,
        let met := server.met d s unmet envs
        let handled := server.handleQuery s d.packet d.clientAddr met.query met.name
        (m.after envs).2 = handled.state ∧
          m.observed (fun entry => entry.2.effect d) envs = handled.effects) := by
  intro m
  refine ⟨fun hlong => ?_, fun hreturned unmet => ?_⟩
  · have hle := toDo_after_le server d s envs
    rw [Nat.sub_eq_zero_of_le hlong] at hle
    change (m.after envs).1.toDo ≤ 0 at hle
    cases hstage : (m.after envs).1 with
    | returning => rfl
    | looking _ client | forwarding _ client =>
      rw [hstage] at hle
      cases client <;> simp [Stage.toDo] at hle
    | parsing | sending | naming | logging => simp [hstage, Stage.toDo] at hle
  · have hprogress := thread_progress server d s unmet envs
    change Progress server d s _ _ (m.after envs).2 (m.after envs).1 at hprogress
    rw [hreturned] at hprogress
    exact hprogress

/-- Eight turns at different times. -/
def eightTurns : List QueryEnv := [8, 7, 6, 5, 4, 3, 2, 1].map fun now => ⟨now, noReply, now, now⟩

/-- The query for `a` misses the cache at 2 and is forwarded at 3, that for the name of the client
at 6 and 7. -/
theorem handleQuery_turns_eight :
    let server : DnsServer := { plainServer false with logger := true }
    let d : Datagram := ⟨plainQuery 7 [97] 1 1, #v[127, 0, 0, 1], 4000⟩
    let start := ServerState.initial none (some (1000, 60))
    let m := server.thread d start
    let handled := server.handleQuery start d.packet d.clientAddr ⟨2, noReply, 3, 3⟩
      ⟨6, noReply, 7, 7⟩
    (m.after eightTurns).1 = .returning ∧ (m.after eightTurns).2 = handled.state ∧
      m.observed (fun entry => entry.2.effect d) eightTurns = handled.effects := by
  intro server d start m handled
  obtain ⟨hreturns, hhandled⟩ := handleQuery_turns server d start eightTurns
  have hreturned : (m.after eightTurns).1 = .returning := hreturns (by decide)
  have hmet : server.met d start ⟨⟨0, noReply, 0, 0⟩, ⟨0, noReply, 0, 0⟩⟩ eightTurns =
      ⟨⟨2, noReply, 3, 3⟩, ⟨6, noReply, 7, 7⟩⟩ := by decide +kernel
  have heffects := hhandled hreturned ⟨⟨0, noReply, 0, 0⟩, ⟨0, noReply, 0, 0⟩⟩
  rw [hmet] at heffects
  exact ⟨hreturned, heffects⟩

end DnsServer

end Gravastar
