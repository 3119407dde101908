import Gravastar.DnsServer.Runs

/-!
# Blocklist before local records before the cache before an upstream

Each stage that answers does so from its own input alone: two servers that
agree on that input, after any two runs, give the same answer, call no upstream
and leave their caches as they are.
-/

namespace Gravastar

open DnsServer

/-- The blocklist after the last `SetDomains` of a run. -/
def installed (blocklist : Option Blocklist) : List ServerEvent → Option Blocklist
  | [] => blocklist
  | .setDomains domains :: es => (installed blocklist es).map (·.setDomains domains)
  | _ :: es => installed blocklist es

/-- 0.0.0.0 for A, ::1 for AAAA, and no record for any other type. -/
def sinkholeResult (header : DnsHeader) (question : DnsQuestion) : ResolveResult :=
  ⟨if question.qtype = dnsTypeA then buildResponse header question dnsTypeA [0, 0, 0, 0]
    else if question.qtype = dnsTypeAaaa then
      buildResponse header question dnsTypeAaaa [0, 0, 0, 0, 0, 0, 0, 0, 0, 0, 0, 0, 0, 0, 0, 1]
    else buildEmptyResponse header question, .resolveBlocklist, []⟩

theorem sinkhole_eq (pton : InetPton) (header : DnsHeader) (question : DnsQuestion) :
    sinkhole pton header question = (sinkholeResult header question).response := by
  have h4 : ipv4Rdata pton (ascii "0.0.0.0") = [0, 0, 0, 0] := by
    rw [ipv4Rdata, show cStr (ascii "0.0.0.0") = ascii "0.0.0.0" by decide, pton.inet_any]
    rfl
  have h6 : ipv6Rdata pton (ascii "::1") = [0, 0, 0, 0, 0, 0, 0, 0, 0, 0, 0, 0, 0, 0, 0, 1] := by
    rw [ipv6Rdata, show cStr (ascii "::1") = ascii "::1" by decide, pton.inet6_loopback]
    rfl
  simp only [sinkhole, sinkholeResult, buildAResponse, buildAAAAResponse, h4, h6]

variable {server : DnsServer} {s : ServerState}

theorem blocklist_after (es : List ServerEvent) :
    ((server.machine s).after es).blocklist = installed s.blocklist es := by
  induction es with
  | nil => rfl
  | cons e es ih =>
    have hstep := server.step_spec ((server.machine s).after es) e
    rw [after_cons]
    generalize server.step ((server.machine s).after es) e = r at hstep
    obtain ⟨out, w'⟩ := r
    cases hstep with
    | setDomains domains => exact congrArg (Option.map _) ih
    | refused | answered | waits | noLookup | hit | miss | noForward | forwarded => exact ih

theorem answerLocally_blocked {blocklist : Option Blocklist} (header : DnsHeader)
    {question : DnsQuestion} (h : isBlockedBy blocklist question.qname = true) :
    server.answerLocally blocklist header question = some (sinkholeResult header question) := by
  rw [answerLocally, if_pos h, sinkhole_eq]
  rfl

theorem answerLocally_record {blocklist : Option Blocklist} (header : DnsHeader)
    {question : DnsQuestion} (h : isBlockedBy blocklist question.qname = false) {value : Bytes}
    {type : UInt16} (hrec : server.localRecords.resolve question.qname question.qtype =
      some (value, type)) :
    server.answerLocally blocklist header question =
      some ⟨localResponse server.pton header question value type, .resolveLocal, []⟩ := by
  rw [answerLocally, if_neg (by simp [h]), hrec]

theorem answerLocally_none {blocklist : Option Blocklist} (header : DnsHeader)
    {question : DnsQuestion} (h : isBlockedBy blocklist question.qname = false)
    (hrec : server.localRecords.resolve question.qname question.qtype = none) :
    server.answerLocally blocklist header question = none := by
  rw [answerLocally, if_neg (by simp [h]), hrec]

/-- Whatever the clock and the network do, this is the answer, no upstream is called and nothing
changes; with other queries under way, the first event of the query already ends it. -/
def AnswersAtOnce (server : DnsServer) (w : Workers) (job : Job) (result : ResolveResult) : Prop :=
  (∀ env, server.resolveQuery w.toServerState job.packet job.header job.question env =
      ⟨result, w.toServerState, []⟩) ∧
    server.step w (.accept job.packet) = (some ⟨job, result, []⟩, w)

theorem answersAtOnce {w : Workers} {job : Job} {result : ResolveResult}
    (hp : (parseDnsQuery job.packet).val = some (job.header, job.question))
    (h : server.answerLocally w.blocklist job.header job.question = some result) :
    AnswersAtOnce server w job result := by
  refine ⟨fun env => ?_, ?_⟩
  · rw [resolveQuery, h]
  · simp only [step, acceptStep, hp, h]

/-- With other queries under way, a live entry answers a query that gets as far as the cache. -/
theorem lookup_live {w : Workers} (hsound : SoundCache w.cache) {i : Nat} {job : Job}
    (hi : w.unresolved[i]? = some job) {response : Bytes} {expiry now : Int}
    (hc : Cached w.cache job.key response expiry) (hlive : now < expiry) :
    (server.step w (.lookup i now)).1 = some ⟨job, ⟨response, .resolveCache, []⟩, []⟩ := by
  have hfound := (lookupCache_eq_some hsound).mpr ⟨expiry, hc, hlive⟩
  rw [step, lookupStep, hi]
  dsimp only
  generalize lookupCache w.cache job.key now = r at hfound
  obtain ⟨found, cache⟩ := r
  obtain rfl : found = some response := hfound
  rfl

/-- Two servers, each after a run of its own. A name blocked by the installed domains gets the
sink-hole answer from both. A local record for a name that is not blocked gives the same answer if
both have the same domains and records. Otherwise a live cache entry is the answer, and no upstream
is called. -/
theorem resolution_precedence (server₁ server₂ : DnsServer)
    (blocklist₁ blocklist₂ : Option Blocklist) (limits₁ limits₂ : Option (Nat × Nat))
    (es₁ es₂ : List ServerEvent) (job : Job)
    (hp : (parseDnsQuery job.packet).val = some (job.header, job.question))
    (hsame : installed blocklist₁ es₁ = installed blocklist₂ es₂) :
    let w₁ := (server₁.machine (.initial blocklist₁ limits₁)).after es₁
    let w₂ := (server₂.machine (.initial blocklist₂ limits₂)).after es₂
    (isBlockedBy (installed blocklist₁ es₁) job.question.qname = true →
      AnswersAtOnce server₁ w₁ job (sinkholeResult job.header job.question) ∧
        AnswersAtOnce server₂ w₂ job (sinkholeResult job.header job.question)) ∧
    (isBlockedBy (installed blocklist₁ es₁) job.question.qname = false →
      (server₁.localRecords.resolve job.question.qname job.question.qtype).isSome →
      server₁.localRecords = server₂.localRecords → server₁.pton = server₂.pton →
      ∃ result, result.source = .resolveLocal ∧ AnswersAtOnce server₁ w₁ job result ∧
        AnswersAtOnce server₂ w₂ job result) ∧
    (isBlockedBy (installed blocklist₁ es₁) job.question.qname = false →
      server₁.localRecords.resolve job.question.qname job.question.qtype = none →
      ∀ response expiry, Cached w₁.cache job.key response expiry →
        (∀ env, env.getNow < expiry →
          let outcome :=
            server₁.resolveQuery w₁.toServerState job.packet job.header job.question env
          outcome.calls = [] ∧ outcome.result = ⟨response, .resolveCache, []⟩) ∧
        ∀ i now, w₁.unresolved[i]? = some job → now < expiry →
          (server₁.step w₁ (.lookup i now)).1 =
            some ⟨job, ⟨response, .resolveCache, []⟩, []⟩) := by
  intro w₁ w₂
  have hb₁ : w₁.blocklist = installed blocklist₁ es₁ := blocklist_after es₁
  have hb₂ : w₂.blocklist = installed blocklist₁ es₁ := (blocklist_after es₂).trans hsame.symm
  refine ⟨fun hblocked => ?_, fun hfree hsome hlocal hpton => ?_, fun hfree hnone r t hc => ?_⟩
  · exact ⟨answersAtOnce hp (answerLocally_blocked _ (hb₁ ▸ hblocked)),
      answersAtOnce hp (answerLocally_blocked _ (hb₂ ▸ hblocked))⟩
  · obtain ⟨⟨value, type⟩, hrec⟩ := Option.isSome_iff_exists.mp hsome
    refine ⟨_, rfl, answersAtOnce hp (answerLocally_record _ (hb₁ ▸ hfree) hrec),
      answersAtOnce hp ?_⟩
    rw [answerLocally_record _ (hb₂ ▸ hfree) (hlocal ▸ hrec), hpton]
  · have hsound : SoundCache w₁.cache :=
      (server₁.run_ok (soundCache_initial blocklist₁ limits₁) es₁).sound
    refine ⟨fun env hlive => ?_, fun i now hi hlive => lookup_live hsound hi hc hlive⟩
    exact server₁.resolveQuery_live hsound (answerLocally_none _ (hb₁ ▸ hfree) hnone) hc hlive

/-- A server that knows a TXT record for `a`. -/
def recordServer : DnsServer :=
  { plainServer true with localRecords := .load [⟨[97], ascii "txt", ascii "hello"⟩] }

/-- The name `a` was answered by an upstream and cached. It is answered from the cache, until it
is put on the blocklist: then it gets the sink-hole answer, as from a server that never saw it. A
local record answers for `a` whether or not there is a cache. -/
theorem resolution_precedence_runs :
    let cached : List ServerEvent := [.forward 0 (udpDelivers [1, 2, 3]) 0 0, .lookup 0 0,
      .accept (plainQuery 7 [97] 1 1)]
    let machine := (plainServer false).machine (.initial (some ⟨∅⟩) (some (100, 60)))
    let job : Job := ⟨plainQuery 7 [97] 1 1, ⟨7, 256, 1, 0, 0, 0⟩, ⟨[97], 1, 1, 12, 7⟩⟩
    let txtJob : Job := ⟨plainQuery 7 [97] 16 1, ⟨7, 256, 1, 0, 0, 0⟩, ⟨[97], 16, 1, 12, 7⟩⟩
    (AnswersAtOnce (plainServer false) (machine.after (.setDomains {[97]} :: cached)) job
        (sinkholeResult job.header job.question) ∧
      AnswersAtOnce (plainServer true)
        (((plainServer true).machine (.initial (some ⟨{[97]}⟩) none)).after []) job
        (sinkholeResult job.header job.question)) ∧
    (∃ result, result.source = .resolveLocal ∧
      AnswersAtOnce recordServer
        ((recordServer.machine (.initial (some ⟨{[97]}⟩) (some (100, 60)))).after [.setDomains ∅])
        txtJob result ∧
      AnswersAtOnce recordServer ((recordServer.machine (.initial (some ⟨∅⟩) none)).after [])
        txtJob result) ∧
    ((plainServer false).resolveQuery (machine.after cached).toServerState job.packet job.header
      job.question ⟨5, noReply, 5, 5⟩).calls = [] :=
  ⟨(resolution_precedence (plainServer false) (plainServer true) (some ⟨∅⟩) (some ⟨{[97]}⟩)
      (some (100, 60)) none
      [.setDomains {[97]}, .forward 0 (udpDelivers [1, 2, 3]) 0 0, .lookup 0 0,
        .accept (plainQuery 7 [97] 1 1)] []
      ⟨plainQuery 7 [97] 1 1, ⟨7, 256, 1, 0, 0, 0⟩, ⟨[97], 1, 1, 12, 7⟩⟩ (by decide +kernel) rfl).1
      (by decide +kernel),
    (resolution_precedence recordServer recordServer (some ⟨{[97]}⟩) (some ⟨∅⟩) (some (100, 60))
      none [.setDomains ∅] []
      ⟨plainQuery 7 [97] 16 1, ⟨7, 256, 1, 0, 0, 0⟩, ⟨[97], 16, 1, 12, 7⟩⟩ (by decide +kernel)
      rfl).2.1 (by decide +kernel) (by decide +kernel) rfl rfl,
    (((resolution_precedence (plainServer false) (plainServer false) (some ⟨∅⟩) (some ⟨∅⟩)
      (some (100, 60)) (some (100, 60))
      [.forward 0 (udpDelivers [1, 2, 3]) 0 0, .lookup 0 0, .accept (plainQuery 7 [97] 1 1)]
      [.forward 0 (udpDelivers [1, 2, 3]) 0 0, .lookup 0 0, .accept (plainQuery 7 [97] 1 1)]
      ⟨plainQuery 7 [97] 1 1, ⟨7, 256, 1, 0, 0, 0⟩, ⟨[97], 1, 1, 12, 7⟩⟩ (by decide +kernel)
      rfl).2.2 (by decide +kernel) (by decide +kernel) [1, 2, 3] 60 (by decide +kernel)).1
      ⟨5, noReply, 5, 5⟩ (by decide)).1⟩

end Gravastar
