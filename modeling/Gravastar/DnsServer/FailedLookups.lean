import Gravastar.DnsServer.Replies

/-!
# What is remembered of a failed lookup

A lookup that fails is answered with an empty response, and that response is
not empty bytes: the test before the cache update lets it through. It stays out
of the cache only where it does not fit, and then it has driven out the rest.
-/

namespace Gravastar

open DnsServer

variable {server : DnsServer}

/-! ## One lookup -/

/-- Both transports failed, or rebind protection could not walk the reply. -/
def LookupFailed (server : DnsServer) (packet : Bytes) (x : Exchange) : Prop :=
  ∀ reply, server.received packet x = some reply →
    server.config.rebindProtection = true ∧ (rewritePrivateARecordsToZero reply).val.1 = none

theorem PassedOn.of_failed {job : Job} {x : Exchange} {response : Bytes}
    (h : PassedOn server job x response) (hfailed : LookupFailed server job.packet x) :
    response = buildEmptyResponse job.header job.question := by
  cases h with
  | nothing | rejected => rfl
  | untouched off delivered => simp [(hfailed _ delivered).1] at off
  | rewritten on delivered accepted =>
    have hrefused := (hfailed _ delivered).2
    rw [accepted] at hrefused
    cases hrefused

/-- The lookup left the cache as it found it, expired entries apart, and the next one for the name
and the type goes upstream again. -/
structure NotRemembered (server : DnsServer) (s : ServerState) (job : Job) (env : QueryEnv) :
    Prop where
  nothing_new : ∀ key response expiry,
    Cached (server.resolveQuery s job.packet job.header job.question env).state.cache
      key response expiry → Cached s.cache key response expiry ∧ env.getNow < expiry
  nothing_lost : ∀ key response expiry, Cached s.cache key response expiry →
    env.getNow < expiry → env.putNow < expiry →
    Cached (server.resolveQuery s job.packet job.header job.question env).state.cache
      key response expiry
  retried : ∀ next : Job, ∀ env', next.key = job.key →
    server.answerLocally s.blocklist next.header next.question = none →
    (server.resolveQuery (server.resolveQuery s job.packet job.header job.question env).state
      next.packet next.header next.question env').calls ≠ []

/-- The empty answer to this query is larger than the whole cache. -/
def TooLarge (c : DnsCache) (job : Job) : Prop :=
  c.maxBytes < 16 + (writeQName job.question.qname).length

instance (c : DnsCache) (job : Job) : Decidable (TooLarge c job) :=
  inferInstanceAs (Decidable (c.maxBytes < _))

variable {s : ServerState} {job : Job} {env : QueryEnv}

/-- After a failed lookup, the empty answer has been put into the cache. -/
theorem state_of_failed (hlocal : server.answerLocally s.blocklist job.header job.question = none)
    (hmiss : (lookupCache s.cache job.key env.getNow).1 = none)
    (hfailed : LookupFailed server job.packet env.exchange) :
    (server.resolveQuery s job.packet job.header job.question env).state =
      { s with
        cache := s.cache.map fun c => (c.get job.key env.getNow).2.put job.key
          (buildEmptyResponse job.header job.question) env.putNow env.putTime } := by
  have hne : ¬ (buildEmptyResponse job.header job.question).isEmpty = true := by
    simpa using buildEmptyResponse_ne_nil job.header job.question
  rw [server.resolveQuery_miss hlocal hmiss]
  dsimp only
  rw [(passedOn_upstreamResponse server job env.exchange).of_failed hfailed, storeResponse,
    if_neg hne]
  cases hc : s.cache <;> simp [lookupCache]

/-- What the cache holds after a failed lookup was put into what the lookup before it left. -/
theorem cached_after_failed
    (hlocal : server.answerLocally s.blocklist job.header job.question = none)
    (hmiss : (lookupCache s.cache job.key env.getNow).1 = none)
    (hfailed : LookupFailed server job.packet env.exchange) {key response : Bytes} {expiry : Int} :
    Cached (server.resolveQuery s job.packet job.header job.question env).state.cache
        key response expiry ↔
      ∃ c ∈ s.cache, ((c.get job.key env.getNow).2.put job.key
        (buildEmptyResponse job.header job.question) env.putNow env.putTime).Contains
          key response expiry := by
  simp only [state_of_failed hlocal hmiss hfailed, Cached, Option.mem_map,
    exists_exists_and_eq_and]

/-- An empty answer that is too large leaves an empty cache behind. -/
theorem not_cached_of_tooLarge (hsound : SoundCache s.cache)
    (hlocal : server.answerLocally s.blocklist job.header job.question = none)
    (hmiss : (lookupCache s.cache job.key env.getNow).1 = none)
    (hfailed : LookupFailed server job.packet env.exchange)
    (hlarge : ∀ c ∈ s.cache, TooLarge c job) (key response : Bytes) (expiry : Int) :
    ¬ Cached (server.resolveQuery s job.packet job.header job.question env).state.cache
      key response expiry := by
  intro hcached
  obtain ⟨c, hc, hk⟩ := (cached_after_failed hlocal hmiss hfailed).mp hcached
  have hget := (hsound c hc).get job.key env.getNow
  refine DnsCache.not_contains_put hget _ _ _ ?_ _ _ _ hk
  rw [get_maxBytes, length_buildEmptyResponse]
  exact hlarge c hc

/-- An empty answer that fits is there after a failed lookup, and was not before. -/
theorem tooLarge_of_notRemembered (hsound : SoundCache s.cache)
    (hlocal : server.answerLocally s.blocklist job.header job.question = none)
    (hmiss : (lookupCache s.cache job.key env.getNow).1 = none)
    (hfailed : LookupFailed server job.packet env.exchange)
    (h : NotRemembered server s job env) {c : DnsCache} (hc : c ∈ s.cache) : TooLarge c job := by
  by_contra hfit
  have hget := (hsound c hc).get job.key env.getNow
  have hfits : (buildEmptyResponse job.header job.question).length ≤
      (c.get job.key env.getNow).2.maxBytes := by
    rw [get_maxBytes, length_buildEmptyResponse]
    exact Nat.le_of_not_lt hfit
  have hput := DnsCache.contains_put hget job.key env.putNow env.putTime hfits
  have hlive := h.nothing_new _ _ _
    ((cached_after_failed hlocal hmiss hfailed).mpr ⟨c, hc, hput⟩)
  rw [(lookupCache_eq_some hsound).mpr ⟨_, hlive⟩] at hmiss
  cases hmiss

theorem notRemembered_iff (hsound : SoundCache s.cache)
    (hlocal : server.answerLocally s.blocklist job.header job.question = none)
    (hmiss : (lookupCache s.cache job.key env.getNow).1 = none)
    (hfailed : LookupFailed server job.packet env.exchange) :
    NotRemembered server s job env ↔ ∀ c ∈ s.cache, TooLarge c job ∧
      ∀ key response expiry, c.Contains key response expiry →
        expiry ≤ env.getNow ∨ expiry ≤ env.putNow := by
  constructor
  · intro h c hc
    have hlarge : ∀ d ∈ s.cache, TooLarge d job := fun d hd =>
      tooLarge_of_notRemembered hsound hlocal hmiss hfailed h hd
    refine ⟨hlarge c hc, fun key response expiry hk => ?_⟩
    by_contra hlive
    have hkept := h.nothing_lost key response expiry ⟨c, hc, hk⟩ (by omega) (by omega)
    exact not_cached_of_tooLarge hsound hlocal hmiss hfailed hlarge _ _ _ hkept
  · intro h
    have hempty := not_cached_of_tooLarge hsound hlocal hmiss hfailed fun c hc => (h c hc).1
    have hstate := state_of_failed hlocal hmiss hfailed
    refine ⟨fun k r t hk => absurd hk (hempty k r t), fun k r t hk hget hput => ?_,
      fun next env' _ hnext => ?_⟩
    · obtain ⟨c, hc, hk⟩ := hk
      rcases (h c hc).2 k r t hk with ht | ht <;> omega
    · refine server.resolveQuery_forwards ?_ (by rw [hstate]; exact hnext)
        (fun r t => hempty _ r t) env'
      intro d hd
      rw [hstate] at hd
      obtain ⟨c, hc, rfl⟩ := Option.map_eq_some_iff.mp hd
      exact ((hsound c hc).get _ _).put _ _ _ _

/-! ## Runs -/

/-- The reply of an upstream to a query with this key came back in the run, and the response is
this reply or what rebind protection made of it. -/
def ReceivedFor (server : DnsServer) (s : ServerState) (es : List ServerEvent)
    (key response : Bytes) : Prop :=
  ∃ job x reply, Forwarded server s es job x ∧ job.key = key ∧
    server.received job.packet x = some reply ∧
    (response = reply ∨
      ∃ replaced, (rewritePrivateARecordsToZero reply).val = (some replaced, response))

/-- Everything in the cache was received from an upstream for its key. -/
def FromUpstream (server : DnsServer) (s : ServerState) (es : List ServerEvent) (w : Workers) :
    Prop :=
  ∀ key response expiry, Cached w.cache key response expiry → ReceivedFor server s es key response

/-- A lookup that comes back has not failed, or its empty answer does not fit. -/
def ServerEvent.Harmless (server : DnsServer) (w : Workers) : ServerEvent → Prop
  | .forward i x _ _ => ∀ job, w.missed[i]? = some job →
      LookupFailed server job.packet x → ∀ c ∈ w.cache, TooLarge c job
  | _ => True

theorem PassedOn.received {job : Job} {x : Exchange} {response : Bytes}
    (h : PassedOn server job x response) (hok : ¬ LookupFailed server job.packet x) :
    ∃ reply, server.received job.packet x = some reply ∧
      (response = reply ∨
        ∃ replaced, (rewritePrivateARecordsToZero reply).val = (some replaced, response)) := by
  cases h with
  | nothing undelivered => exact absurd (by simp [LookupFailed, undelivered]) hok
  | untouched off delivered => exact ⟨_, delivered, .inl rfl⟩
  | @rejected reply on delivered refused =>
    refine absurd (fun reply' h => ?_) hok
    obtain rfl := Option.some.inj (delivered.symm.trans h)
    exact ⟨on, refused⟩
  | rewritten on delivered accepted => exact ⟨_, delivered, .inr ⟨_, accepted⟩⟩

theorem Forwarded.cons {es : List ServerEvent} {x : Exchange} (h : Forwarded server s es job x)
    (e : ServerEvent) : Forwarded server s (e :: es) job x := by
  obtain ⟨newer, i, now, time, older, rfl, hjob⟩ := h
  exact ⟨e :: newer, i, now, time, older, rfl, hjob⟩

theorem ReceivedFor.cons {es : List ServerEvent} {key response : Bytes}
    (h : ReceivedFor server s es key response) (e : ServerEvent) :
    ReceivedFor server s (e :: es) key response := by
  obtain ⟨job, x, reply, hforward, h⟩ := h
  exact ⟨job, x, reply, hforward.cons e, h⟩

/-- A harmless event stores nothing but what an upstream sent. -/
theorem DnsServer.Step.receivedFor {w w' : Workers} {e : ServerEvent} {out : Option Answer}
    {es : List ServerEvent} (h : server.Step w e out w') (hw : (server.machine s).after es = w)
    (hsound : SoundCache w.cache) (hok : e.Harmless server w)
    (hold : FromUpstream server s es w) : FromUpstream server s (e :: es) w' := by
  intro key response expiry hc
  cases h with
  | setDomains | refused | answered | waits | noLookup | noForward =>
    exact (hold key response expiry hc).cons _
  | hit | miss => exact (hold key response expiry ((cached_lookup hsound).mp hc).1).cons _
  | @forwarded i x now time job at_i =>
    rcases Cached.of_store hsound hc with ⟨rfl, rfl, -⟩ | ⟨-, hc'⟩
    · have hpassed := passedOn_upstreamResponse server job x
      by_cases hfailed : LookupFailed server job.packet x
      · -- the empty answer does not fit, so the cache would be empty
        refine absurd hc (not_cached_store hsound ?_ (fun c hc' => ?_) _ _ _)
        · rw [hpassed.of_failed hfailed]
          exact buildEmptyResponse_ne_nil job.header job.question
        · rw [hpassed.of_failed hfailed, length_buildEmptyResponse]
          exact hok job at_i hfailed c hc'
      · obtain ⟨reply, hreply, hresponse⟩ := hpassed.received hfailed
        subst hw
        exact ⟨job, x, reply, ⟨[], i, now, time, es, rfl, at_i⟩, rfl, hreply, hresponse⟩
    · exact (hold key response expiry hc').cons _

theorem run_fromUpstream {blocklist : Option Blocklist} {limits : Option (Nat × Nat)}
    {es : List ServerEvent}
    (h : (server.machine (.initial blocklist limits)).Along (fun w e => e.Harmless server w) es) :
    FromUpstream server (.initial blocklist limits) es
      ((server.machine (.initial blocklist limits)).after es) := by
  refine Machine.invariant_along (server.machine (.initial blocklist limits))
    (P := FromUpstream server (.initial blocklist limits)) ?_ (fun es e hok hold => ?_) h
  · exact fun k r t hc => absurd hc (not_cached_initial blocklist limits k r t)
  · have hsound := (server.run_ok (soundCache_initial blocklist limits) es).sound
    exact (server.step_spec _ e).receivedFor rfl hsound hok hold

/-- In any state reached, a failed lookup is not remembered exactly when there is no cache, or one
that is too small for the empty answer and holds nothing that lives on. In a run where only such
lookups fail, everything in the cache was received from an upstream for its key. -/
theorem failed_lookup_not_remembered (server : DnsServer) (blocklist : Option Blocklist)
    (limits : Option (Nat × Nat)) (es : List ServerEvent) :
    let s := ServerState.initial blocklist limits
    let w := (server.machine s).after es
    (∀ (job : Job) (env : QueryEnv),
      server.answerLocally w.blocklist job.header job.question = none →
      (lookupCache w.cache job.key env.getNow).1 = none →
      ((LookupFailed server job.packet env.exchange →
          NotRemembered server w.toServerState job env) ↔
        ¬ LookupFailed server job.packet env.exchange ∨ ∀ c ∈ w.cache, TooLarge c job ∧
          ∀ key response expiry, c.Contains key response expiry →
            expiry ≤ env.getNow ∨ expiry ≤ env.putNow)) ∧
    ((server.machine s).Along (fun w e => e.Harmless server w) es →
      FromUpstream server s es w) := by
  intro s w
  have hsound : SoundCache w.cache :=
    (server.run_ok (soundCache_initial blocklist limits) es).sound
  refine ⟨fun job env hlocal hmiss => ?_, run_fromUpstream⟩
  by_cases hfailed : LookupFailed server job.packet env.exchange
  · have hiff := notRemembered_iff hsound hlocal hmiss hfailed
    simp only [hfailed, forall_const, not_true_eq_false, false_or]
    exact hiff
  · simp [hfailed]

theorem lookupFailed_noReply (protection : Bool) (packet : Bytes) :
    LookupFailed (plainServer protection) packet noReply := nofun

theorem lookupFailed_short (packet : Bytes) :
    LookupFailed (plainServer true) packet (udpDelivers [1, 2, 3]) := by
  intro reply h
  obtain rfl := Option.some.inj h
  exact ⟨rfl, rfl⟩

/-- A good reply is stored, and comes from upstream; an outage goes by a cache that is too small. -/
theorem failed_lookup_not_remembered_runs :
    FromUpstream (plainServer true) (.initial none (some (100, 60)))
        (answeredBy (addressReply 7 [1, 2, 3, 4]))
        (((plainServer true).machine (.initial none (some (100, 60)))).after
          (answeredBy (addressReply 7 [1, 2, 3, 4]))) ∧
      NotRemembered (plainServer true) (.initial none (some (10, 60))) plainJob
        ⟨0, noReply, 0, 0⟩ := by
  constructor
  · refine (failed_lookup_not_remembered (plainServer true) none (some (100, 60))
      (answeredBy (addressReply 7 [1, 2, 3, 4]))).2 ⟨fun job _ hfailed => ?_, ?_⟩
    · exact absurd (hfailed _ rfl).2 (by decide +kernel)
    · exact ⟨trivial, trivial, trivial⟩
  · refine ((failed_lookup_not_remembered (plainServer true) none (some (10, 60)) []).1 plainJob
      ⟨0, noReply, 0, 0⟩ rfl rfl).mpr (.inr fun c hc => ?_) (lookupFailed_noReply true _)
    obtain rfl := Option.some.inj hc
    exact ⟨by decide +kernel, fun k r t hk => absurd hk (DnsCache.not_contains_new 10 60 k r t)⟩

/-- An outage, or a reply that rebind protection turns away, is remembered: the next query for the
name is answered from the cache. -/
theorem failed_lookup_remembered :
    let s := ServerState.initial none (some (100, 60))
    (parseDnsQuery plainJob.packet).val = some (plainJob.header, plainJob.question) ∧
      (∀ protection, (plainServer protection).answerLocally s.blocklist plainJob.header
        plainJob.question = none) ∧
      (lookupCache s.cache plainJob.key 0).1 = none ∧
      (∀ protection, LookupFailed (plainServer protection) plainJob.packet noReply ∧
        ¬ NotRemembered (plainServer protection) s plainJob ⟨0, noReply, 0, 0⟩) ∧
      LookupFailed (plainServer true) plainJob.packet (udpDelivers [1, 2, 3]) ∧
      ¬ NotRemembered (plainServer true) s plainJob ⟨0, udpDelivers [1, 2, 3], 0, 0⟩ := by
  intro s
  refine ⟨by decide +kernel, fun _ => rfl, rfl, fun protection =>
    ⟨lookupFailed_noReply protection _, fun h => ?_⟩, lookupFailed_short _, fun h => ?_⟩
  · refine h.retried plainJob ⟨1, noReply, 1, 1⟩ rfl rfl ?_
    cases protection <;> decide +kernel
  · refine h.retried plainJob ⟨1, noReply, 1, 1⟩ rfl rfl ?_
    decide +kernel

end Gravastar
