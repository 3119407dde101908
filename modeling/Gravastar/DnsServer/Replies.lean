import Gravastar.DnsServer.CacheKey
import Gravastar.DnsServer.RebindSafety

/-!
# Which replies are passed on

Neither the resolver nor the server compares a reply with the query it is for.
Rebind protection turns away what it cannot walk, and rewrites the rest; without
it every reply goes to the client and into the cache as it came.
-/

namespace Gravastar

open DnsServer

/-! ## One query -/

/-- What a reply to a query should look like: a response, with the query's ID and question. -/
structure MatchesQuery (packet reply : Bytes) : Prop where
  length : 12 ≤ reply.length
  qr : (readU16 reply 2).val &&& 0x8000 = 0x8000
  id : (readU16 reply 0).val = (readU16 packet 0).val
  question : SameQuestion packet reply

/-- What is returned and stored for a query, given what the network does for it. -/
inductive PassedOn (server : DnsServer) (job : Job) (x : Exchange) : Bytes → Prop
  | nothing (undelivered : server.received job.packet x = none) :
      PassedOn server job x (buildEmptyResponse job.header job.question)
  | untouched {reply : Bytes} (off : server.config.rebindProtection = false)
      (delivered : server.received job.packet x = some reply) : PassedOn server job x reply
  | rejected {reply : Bytes} (on : server.config.rebindProtection = true)
      (delivered : server.received job.packet x = some reply)
      (refused : (rewritePrivateARecordsToZero reply).val.1 = none) :
      PassedOn server job x (buildEmptyResponse job.header job.question)
  | rewritten {reply response : Bytes} {replaced : Bool}
      (on : server.config.rebindProtection = true)
      (delivered : server.received job.packet x = some reply)
      (accepted : (rewritePrivateARecordsToZero reply).val = (some replaced, response))
      (long : 12 ≤ reply.length) (header : AgreeOn 0 12 reply response)
      (zeroed : ∀ i : Nat, response[i]? = reply[i]? ∨ response[i]? = some 0) :
      PassedOn server job x response

theorem resolveDot_ne_nil {packet reply : Bytes} {x : DotExchange}
    (h : (resolveDot packet x).response = some reply) : reply ≠ [] := by
  unfold resolveDot at h
  split_ifs at h
  cases hlen : tlsReadAll 2 x.stream with
  | none => simp [hlen] at h
  | some r =>
    obtain ⟨lenBuf, stream⟩ := r
    rw [hlen] at h
    dsimp only at h
    split_ifs at h with hzero
    rw [tlsReadAll] at h
    split_ifs at h with hfit
    obtain rfl := Option.some.inj h
    intro hnil
    have hcut := congrArg List.length hnil
    simp only [List.length_take, List.length_nil] at hcut
    omega

theorem resolveUdp_ne_nil {pton : InetPton} {udpServers : List Bytes} {x : UdpExchange}
    {reply : Bytes} (h : (resolveUdp pton udpServers x).response = some reply) : reply ≠ [] := by
  unfold resolveUdp at h
  cases udpServers with
  | nil => simp at h
  | cons server more =>
    dsimp only at h
    split_ifs at h
    cases hd : x.datagram with
    | none => simp [hd] at h
    | some datagram =>
      rw [hd] at h
      dsimp only at h
      split_ifs at h with hempty
      obtain rfl := Option.some.inj h
      simpa using hempty

variable {server : DnsServer}

theorem received_ne_nil {packet reply : Bytes} {x : Exchange}
    (h : server.received packet x = some reply) : reply ≠ [] := by
  rw [received] at h
  cases hdot : (resolveDot packet x.dot).response with
  | some r =>
    rw [hdot] at h
    obtain rfl := Option.some.inj h
    exact resolveDot_ne_nil hdot
  | none =>
    rw [hdot] at h
    exact resolveUdp_ne_nil h

theorem length_buildEmptyResponse (header : DnsHeader) (question : DnsQuestion) :
    (buildEmptyResponse header question).length = 16 + (writeQName question.qname).length := by
  simp [buildEmptyResponse, appendQuestion]
  omega

theorem buildEmptyResponse_ne_nil (header : DnsHeader) (question : DnsQuestion) :
    buildEmptyResponse header question ≠ [] := by
  intro h
  have hlen := length_buildEmptyResponse header question
  rw [h, List.length_nil] at hlen
  omega

/-- The empty answer counts no records, so there is nothing in it to rewrite. -/
theorem protect_buildEmptyResponse (header : DnsHeader) (question : DnsQuestion) :
    server.protect header question (buildEmptyResponse header question) =
      buildEmptyResponse header question := by
  cases hon : server.config.rebindProtection with
  | false => simp [protect, hon]
  | true =>
    rw [protect_on hon header question (buildEmptyResponse_ne_nil header question)]
    obtain ⟨han, hns, har⟩ := counts_buildEmptyResponse header question
    have hlen : ¬ (buildEmptyResponse header question).length < 12 := by
      rw [length_buildEmptyResponse]
      omega
    set response := buildEmptyResponse header question
    simp only [rewritePrivateARecordsToZero, if_neg hlen, Traced.val_bind, han, hns, har]
    cases (skipQuestions response (readU16 response 4).val.toNat 12).val with
    | none => rfl
    | some offset => rfl

theorem passedOn_upstreamResponse (server : DnsServer) (job : Job) (x : Exchange) :
    PassedOn server job x (server.upstreamResponse job.packet job.header job.question x) := by
  rw [upstreamResponse]
  cases hr : server.received job.packet x with
  | none =>
    rw [Option.getD_none, protect_buildEmptyResponse]
    exact .nothing hr
  | some reply =>
    rw [Option.getD_some]
    cases hon : server.config.rebindProtection with
    | false =>
      rw [show server.protect job.header job.question reply = reply by simp [protect, hon]]
      exact .untouched hon hr
    | true =>
      rw [protect_on hon _ _ (received_ne_nil hr)]
      cases hw : (rewritePrivateARecordsToZero reply).val with
      | mk replaced response =>
        cases replaced with
        | none => exact .rejected hon hr (congrArg Prod.fst hw)
        | some b =>
          obtain ⟨hlong, hheader, hzeroed⟩ := rewrite_keeps hw
          exact .rewritten hon hr hw hlong hheader hzeroed

/-! ## Runs -/

/-- In the run, the worker of `job` came back from the resolver with `x`. -/
def Forwarded (server : DnsServer) (s : ServerState) (es : List ServerEvent) (job : Job)
    (x : Exchange) : Prop :=
  ∃ newer i now time older, es = newer ++ .forward i x now time :: older ∧
    ((server.machine s).after older).missed[i]? = some job

/-- An answer from upstream is what was passed on when its worker came back. -/
theorem passedOn_of_mem_answers {s : ServerState} {es : List ServerEvent} {a : Answer}
    (ha : a ∈ server.answers s es) (hsource : a.result.source = .resolveUpstream) :
    ∃ x, Forwarded server s es a.job x ∧ PassedOn server a.job x a.result.response := by
  obtain ⟨newer, older, hsplit⟩ := List.append_of_mem ha
  obtain ⟨es₁, e, es₀, rfl, -, hstep⟩ := server.exists_step_of_answers hsplit
  generalize (server.machine s).after (e :: es₀) = w' at hstep
  cases hstep with
  | answered parsed found =>
    exact absurd (.inl hsource) (server.not_isForeign_of_answerLocally found)
  | hit => simp at hsource
  | @forwarded i x now time job at_i =>
    exact ⟨x, ⟨es₁, i, now, time, es₀, rfl, at_i⟩, passedOn_upstreamResponse server job x⟩

/-- A query that no one interrupts gets what is passed on for it, if it goes upstream. -/
theorem passedOn_resolveQuery {s : ServerState} {job : Job} {env : QueryEnv}
    (hsource : (server.resolveQuery s job.packet job.header job.question env).result.source =
      .resolveUpstream) :
    PassedOn server job env.exchange
      (server.resolveQuery s job.packet job.header job.question env).result.response := by
  have hspec := server.resolveQuery_spec s job env
  generalize server.resolveQuery s job.packet job.header job.question env = outcome at hsource hspec
  cases hspec with
  | locally found => exact absurd (.inl hsource) (server.not_isForeign_of_answerLocally found)
  | hit => cases hsource
  | miss => exact passedOn_upstreamResponse server job env.exchange

/-- In every run, an answer from upstream, in the run or in one query after it, is what was passed
on for its query, and the cache holds and answers with nothing else. -/
theorem replies_passed_on (server : DnsServer) (blocklist : Option Blocklist)
    (limits : Option (Nat × Nat)) (es : List ServerEvent) :
    let s := ServerState.initial blocklist limits
    let w := (server.machine s).after es
    (∀ a ∈ server.answers s es, a.result.source = .resolveUpstream →
      ∃ x, Forwarded server s es a.job x ∧ PassedOn server a.job x a.result.response) ∧
    (∀ job : Job, ∀ env,
      (server.resolveQuery w.toServerState job.packet job.header job.question env).result.source =
        .resolveUpstream →
      PassedOn server job env.exchange
        (server.resolveQuery w.toServerState job.packet job.header job.question
          env).result.response) ∧
    (∀ key response expiry, Cached w.cache key response expiry →
      ∃ a ∈ server.answers s es, a.result.source = .resolveUpstream ∧ a.job.key = key ∧
        a.result.response = response) ∧
    ∀ a ∈ server.answers s es, a.result.source = .resolveCache →
      ∃ b ∈ server.answers s es, b.result.source = .resolveUpstream ∧ b.job.key = a.job.key ∧
        b.result.response = a.result.response := by
  intro s w
  refine ⟨fun a ha hs => passedOn_of_mem_answers ha hs, fun job env => passedOn_resolveQuery,
    fun key response expiry hc => ?_, fun a ha hs => ?_⟩
  · obtain ⟨a, hlast, hresponse⟩ := run_fromLastStored es key response expiry hc
    obtain ⟨hmem, hsource, hkey⟩ := lastStored_spec hlast
    exact ⟨a, hmem, hsource, hkey, hresponse⟩
  · obtain ⟨newer, older, hsplit⟩ := List.append_of_mem ha
    obtain ⟨b, hlast, hresponse⟩ := lastStored_of_answers hsplit hs
    obtain ⟨hmem, hsource, hkey⟩ := lastStored_spec hlast
    exact ⟨b, hsplit ▸ List.mem_append_right _ (List.mem_cons_of_mem _ hmem), hsource, hkey,
      hresponse⟩

/-- The query for `a` goes upstream, and this datagram comes back. -/
def answeredBy (datagram : Bytes) : List ServerEvent :=
  [.forward 0 (udpDelivers datagram) 0 0, .lookup 0 0, .accept plainJob.packet]

/-- The answer to that query that sends the datagram on. -/
def strayAnswer (datagram : Bytes) : Answer :=
  ⟨plainJob, ⟨datagram, .resolveUpstream, ascii "0.0.0.0"⟩,
    [.resolveDot plainJob.packet, .resolveUdp plainJob.packet]⟩

/-- A query for `b` that arrives instead of a reply is sent back for the name `a`, and cached for
it, rebind protection or not; so are three stray bytes without the protection. -/
theorem replies_not_matched :
    (∀ protection, ∃ a ∈ (plainServer protection).answers (.initial none (some (100, 60)))
        (answeredBy (plainQuery 9 [98] 1 1)),
      a.result.source = .resolveUpstream ∧ a.sent = some (plainQuery 9 [98] 1 1) ∧
      Cached (((plainServer protection).machine (.initial none (some (100, 60)))).after
        (answeredBy (plainQuery 9 [98] 1 1))).cache a.job.key (plainQuery 9 [98] 1 1) 60 ∧
      ¬ MatchesQuery a.job.packet (plainQuery 9 [98] 1 1)) ∧
    ∃ a ∈ (plainServer false).answers (.initial none (some (100, 60))) (answeredBy [1, 2, 3]),
      a.result.source = .resolveUpstream ∧ a.sent = some [1, 2, 3] ∧
      Cached (((plainServer false).machine (.initial none (some (100, 60)))).after
        (answeredBy [1, 2, 3])).cache a.job.key [1, 2, 3] 60 ∧
      ¬ MatchesQuery a.job.packet [1, 2, 3] := by
  constructor
  · intro protection
    refine ⟨strayAnswer (plainQuery 9 [98] 1 1), ?_, rfl, rfl, ?_, fun h => ?_⟩
    · cases protection <;> decide +kernel
    · cases protection <;> decide +kernel
    · exact absurd h.id (by decide)
  · refine ⟨strayAnswer [1, 2, 3], by decide +kernel, rfl, rfl, by decide +kernel, fun h => ?_⟩
    exact absurd h.length (by decide)

end Gravastar
