import Gravastar.Cache.Contents
import Gravastar.DnsServer

/-!
# Runs of the server

`Step` says once what an event can do, with the facts the code has checked on
the way; every invariant is a case analysis over it. A query that is handled
without interruption is three events in a row.
-/

namespace Gravastar

/-! ## The cache behind a pointer -/

/-- The cache, where there is one, is in a state that calls lead to. -/
def SoundCache (cache : Option DnsCache) : Prop := ∀ c ∈ cache, c.Sound

/-- There is a cache, and it contains this entry. -/
def Cached (cache : Option DnsCache) (key response : Bytes) (expiry : Int) : Prop :=
  ∃ c ∈ cache, c.Contains key response expiry

instance (cache : Option DnsCache) (key response : Bytes) (expiry : Int) :
    Decidable (Cached cache key response expiry) :=
  decidable_of_iff ((cache.any fun c => c.Contains key response expiry) = true)
    (by simp [Cached, Option.any_eq_true])

/-- The state a server starts in: a blocklist and an empty cache, if it has them. -/
def ServerState.initial (blocklist : Option Blocklist) (cacheLimits : Option (Nat × Nat)) :
    ServerState :=
  ⟨blocklist, cacheLimits.map fun limits => DnsCache.new limits.1 limits.2⟩

theorem soundCache_initial (blocklist : Option Blocklist) (cacheLimits : Option (Nat × Nat)) :
    SoundCache (ServerState.initial blocklist cacheLimits).cache := by
  intro c hc
  obtain ⟨limits, -, rfl⟩ := Option.map_eq_some_iff.mp hc
  exact sound_new limits.1 limits.2

variable {cache : Option DnsCache}

@[simp] theorem not_cached_none (key response : Bytes) (expiry : Int) :
    ¬ Cached none key response expiry := by simp [Cached]

@[simp] theorem cached_some {c : DnsCache} {key response : Bytes} {expiry : Int} :
    Cached (some c) key response expiry ↔ c.Contains key response expiry := by simp [Cached]

theorem not_cached_initial (blocklist : Option Blocklist) (cacheLimits : Option (Nat × Nat))
    (key response : Bytes) (expiry : Int) :
    ¬ Cached (ServerState.initial blocklist cacheLimits).cache key response expiry := by
  cases cacheLimits with
  | none => exact not_cached_none key response expiry
  | some limits =>
    exact fun h => DnsCache.not_contains_new limits.1 limits.2 key response expiry
      (cached_some.mp h)

theorem SoundCache.lookup (h : SoundCache cache) (key : Bytes) (now : Int) :
    SoundCache (lookupCache cache key now).2 := by
  cases cache with
  | none => simp [SoundCache, lookupCache]
  | some c => simpa [SoundCache, lookupCache] using (h c rfl).get key now

theorem SoundCache.store (h : SoundCache cache) (key response : Bytes) (now time : Int) :
    SoundCache (storeResponse cache key response now time) := by
  rw [storeResponse]
  split_ifs
  · exact h
  · cases cache with
    | none => simp [SoundCache]
    | some c => simpa [SoundCache] using (h c rfl).put key response now time

theorem lookupCache_eq_some (h : SoundCache cache) {key response : Bytes} {now : Int} :
    (lookupCache cache key now).1 = some response ↔
      ∃ expiry, Cached cache key response expiry ∧ now < expiry := by
  cases cache with
  | none => simp [lookupCache]
  | some c => simpa [lookupCache] using DnsCache.get_eq_some (h c rfl)

theorem cached_lookup (h : SoundCache cache) {key k response : Bytes} {now expiry : Int} :
    Cached (lookupCache cache key now).2 k response expiry ↔
      Cached cache k response expiry ∧ now < expiry := by
  cases cache with
  | none => simp [lookupCache]
  | some c => simpa [lookupCache] using DnsCache.contains_get (h c rfl)

theorem Cached.of_store (h : SoundCache cache) {key response k r : Bytes} {now time t : Int}
    (hc : Cached (storeResponse cache key response now time) k r t) :
    (k = key ∧ r = response ∧ response ≠ []) ∨
      ((k ≠ key ∨ response = []) ∧ Cached cache k r t) := by
  rw [storeResponse] at hc
  split_ifs at hc with he
  · exact .inr ⟨.inr (List.isEmpty_iff.mp he), hc⟩
  · cases cache with
    | none => simp at hc
    | some c =>
      rw [Option.map_some, cached_some] at hc
      rcases DnsCache.Contains.of_put (h c rfl) hc with ⟨hk, hr, -⟩ | ⟨hk, hold, -⟩
      · exact .inl ⟨hk, hr, by simpa using he⟩
      · exact .inr ⟨.inl hk, cached_some.mpr hold⟩

/-- A response that does not fit leaves nothing in the cache. -/
theorem not_cached_store (h : SoundCache cache) {key response : Bytes} {now time : Int}
    (hne : response ≠ []) (hbig : ∀ c ∈ cache, c.maxBytes < response.length) (k r : Bytes)
    (t : Int) : ¬ Cached (storeResponse cache key response now time) k r t := by
  rw [storeResponse, if_neg (by simpa using hne)]
  rintro ⟨d, hd, hk⟩
  obtain ⟨c, hc, rfl⟩ := Option.map_eq_some_iff.mp hd
  exact DnsCache.not_contains_put (h c hc) key now time (hbig c hc) k r t hk

/-! ## One event -/

/-- From an upstream or from the cache: bytes that came from somebody else. -/
def ResolveResult.isForeign (result : ResolveResult) : Prop :=
  result.source = .resolveUpstream ∨ result.source = .resolveCache

namespace DnsServer

variable (server : DnsServer)

theorem not_isForeign_of_answerLocally {blocklist : Option Blocklist} {header : DnsHeader}
    {question : DnsQuestion} {result : ResolveResult}
    (h : server.answerLocally blocklist header question = some result) : ¬ result.isForeign := by
  rw [answerLocally] at h
  split_ifs at h
  · obtain rfl := Option.some.inj h
    simp [ResolveResult.isForeign]
  · cases hr : server.localRecords.resolve question.qname question.qtype with
    | none => simp [hr] at h
    | some r =>
      rw [hr] at h
      obtain rfl := Option.some.inj h
      simp [ResolveResult.isForeign]

/-- What an event does to the workers, and the answer it brings about. -/
inductive Step (w : Workers) : ServerEvent → Option Answer → Workers → Prop
  | setDomains (domains : Finset Bytes) : Step w (.setDomains domains) none
      { w with blocklist := w.blocklist.map (·.setDomains domains) }
  | refused {packet : Bytes} (unparsed : (parseDnsQuery packet).val = none) :
      Step w (.accept packet) none w
  | answered {packet : Bytes} {header : DnsHeader} {question : DnsQuestion} {result : ResolveResult}
      (parsed : (parseDnsQuery packet).val = some (header, question))
      (found : server.answerLocally w.blocklist header question = some result) :
      Step w (.accept packet) (some ⟨⟨packet, header, question⟩, result, []⟩) w
  | waits {packet : Bytes} {header : DnsHeader} {question : DnsQuestion}
      (parsed : (parseDnsQuery packet).val = some (header, question))
      (notFound : server.answerLocally w.blocklist header question = none) :
      Step w (.accept packet) none
        { w with unresolved := w.unresolved ++ [⟨packet, header, question⟩] }
  | noLookup {i : Nat} {now : Int} (none_i : w.unresolved[i]? = none) :
      Step w (.lookup i now) none w
  | hit {i : Nat} {now : Int} {job : Job} {cached : Bytes} (at_i : w.unresolved[i]? = some job)
      (found : (lookupCache w.cache job.key now).1 = some cached) :
      Step w (.lookup i now) (some ⟨job, ⟨cached, .resolveCache, []⟩, []⟩)
        { w with
          unresolved := w.unresolved.eraseIdx i
          cache := (lookupCache w.cache job.key now).2 }
  | miss {i : Nat} {now : Int} {job : Job} (at_i : w.unresolved[i]? = some job)
      (notFound : (lookupCache w.cache job.key now).1 = none) :
      Step w (.lookup i now) none
        { w with
          unresolved := w.unresolved.eraseIdx i
          missed := w.missed ++ [job]
          cache := (lookupCache w.cache job.key now).2 }
  | noForward {i : Nat} {x : Exchange} {now time : Int} (none_i : w.missed[i]? = none) :
      Step w (.forward i x now time) none w
  | forwarded {i : Nat} {x : Exchange} {now time : Int} {job : Job}
      (at_i : w.missed[i]? = some job) :
      Step w (.forward i x now time)
        (some ⟨job, ⟨server.upstreamResponse job.packet job.header job.question x,
          .resolveUpstream, server.usedServer job.packet x⟩, upstreamCalls job.packet x⟩)
        { w with
          missed := w.missed.eraseIdx i
          cache := storeResponse w.cache job.key
            (server.upstreamResponse job.packet job.header job.question x) now time }

theorem step_spec (w : Workers) (e : ServerEvent) :
    server.Step w e (server.step w e).1 (server.step w e).2 := by
  cases e with
  | setDomains domains => exact .setDomains domains
  | accept packet =>
    rw [step, acceptStep]
    cases hp : (parseDnsQuery packet).val with
    | none => exact .refused hp
    | some r =>
      obtain ⟨header, question⟩ := r
      dsimp only
      cases hl : server.answerLocally w.blocklist header question with
      | none => exact .waits hp hl
      | some result => exact .answered hp hl
  | lookup i now =>
    rw [step, lookupStep]
    cases hi : w.unresolved[i]? with
    | none => exact .noLookup hi
    | some job =>
      dsimp only
      cases hc : lookupCache w.cache job.key now with
      | mk found cache =>
        have hcache : cache = (lookupCache w.cache job.key now).2 := by rw [hc]
        subst hcache
        cases found with
        | none => exact .miss hi (by rw [hc])
        | some cached => exact .hit hi (by rw [hc])
  | forward i x now time =>
    rw [step, forwardStep]
    cases hi : w.missed[i]? with
    | none => exact .noForward hi
    | some job => exact .forwarded hi

/-! ## What holds in every run -/

/-- Queries under way were parsed from accepted packets, and the cache is sound. -/
structure RunOk (es : List ServerEvent) (w : Workers) : Prop where
  jobs : ∀ job ∈ w.unresolved ++ w.missed,
    (parseDnsQuery job.packet).val = some (job.header, job.question) ∧ .accept job.packet ∈ es
  sound : SoundCache w.cache

theorem Step.runOk {es : List ServerEvent} {w w' : Workers} {e : ServerEvent} {out : Option Answer}
    (h : server.Step w e out w') (hok : RunOk es w) : RunOk (e :: es) w' := by
  have hold : ∀ job ∈ w.unresolved ++ w.missed,
      (parseDnsQuery job.packet).val = some (job.header, job.question) ∧
        .accept job.packet ∈ e :: es := fun job hj =>
    ⟨(hok.jobs job hj).1, List.mem_cons_of_mem _ (hok.jobs job hj).2⟩
  cases h with
  | setDomains domains => exact ⟨hold, hok.sound⟩
  | refused | answered | noLookup | noForward => exact ⟨hold, hok.sound⟩
  | waits parsed =>
    refine ⟨fun job hj => ?_, hok.sound⟩
    simp only [List.append_assoc, List.mem_append, List.mem_singleton] at hj
    rcases hj with hj | rfl | hj
    · exact hold job (List.mem_append_left _ hj)
    · exact ⟨parsed, List.mem_cons_self⟩
    · exact hold job (List.mem_append_right _ hj)
  | hit at_i =>
    refine ⟨fun job hj => hold job ?_, hok.sound.lookup _ _⟩
    rcases List.mem_append.mp hj with hj | hj
    · exact List.mem_append_left _ (List.mem_of_mem_eraseIdx hj)
    · exact List.mem_append_right _ hj
  | miss at_i =>
    refine ⟨fun job hj => hold job ?_, hok.sound.lookup _ _⟩
    simp only [List.mem_append, List.mem_singleton] at hj
    rcases hj with hj | hj | rfl
    · exact List.mem_append_left _ (List.mem_of_mem_eraseIdx hj)
    · exact List.mem_append_right _ hj
    · exact List.mem_append_left _ (List.mem_of_getElem? at_i)
  | forwarded at_i =>
    refine ⟨fun job hj => hold job ?_, hok.sound.store _ _ _ _⟩
    rcases List.mem_append.mp hj with hj | hj
    · exact List.mem_append_left _ hj
    · exact List.mem_append_right _ (List.mem_of_mem_eraseIdx hj)

variable {s : ServerState} {es : List ServerEvent}

theorem run_ok (hs : SoundCache s.cache) (es : List ServerEvent) :
    RunOk es ((server.machine s).after es) := by
  induction es with
  | nil => exact ⟨by simp [machine], hs⟩
  | cons e es ih => exact (server.step_spec _ e).runOk server ih

/-- The answers of a run, the newest first. -/
def answers (s : ServerState) (es : List ServerEvent) : List Answer :=
  ((server.machine s).log es).filterMap Prod.snd

theorem after_cons (e : ServerEvent) : (server.machine s).after (e :: es) =
    (server.step ((server.machine s).after es) e).2 := rfl

theorem answers_cons (e : ServerEvent) : server.answers s (e :: es) =
    (server.step ((server.machine s).after es) e).1.toList ++ server.answers s es := by
  rw [answers, Machine.log_cons]
  cases h : (server.step ((server.machine s).after es) e).1 with
  | none =>
    rw [List.filterMap_cons_none (by exact h)]
    rfl
  | some a =>
    rw [List.filterMap_cons_some (by exact h)]
    rfl

/-- Every answer was given by one event, in a state its run had reached. -/
theorem exists_step_of_answers {a : Answer} {newer older : List Answer}
    (h : server.answers s es = newer ++ a :: older) :
    ∃ es₁ e es₀, es = es₁ ++ e :: es₀ ∧ server.answers s es₀ = older ∧
      server.Step ((server.machine s).after es₀) e (some a)
        ((server.machine s).after (e :: es₀)) := by
  induction es generalizing newer with
  | nil => simp [answers] at h
  | cons e es ih =>
    have hstep := server.step_spec ((server.machine s).after es) e
    rw [answers_cons] at h
    cases hout : (server.step ((server.machine s).after es) e).1 with
    | none =>
      rw [hout] at h
      obtain ⟨es₁, e', es₀, rfl, hes₀, hstep'⟩ := ih h
      exact ⟨e :: es₁, e', es₀, rfl, hes₀, hstep'⟩
    | some b =>
      rw [hout] at h hstep
      cases newer with
      | nil =>
        obtain ⟨rfl, hes⟩ := List.cons.inj h
        exact ⟨[], e, es, rfl, hes, hstep⟩
      | cons c newer =>
        obtain ⟨es₁, e', es₀, rfl, hes₀, hstep'⟩ := ih (List.cons.inj h).2
        exact ⟨e :: es₁, e', es₀, rfl, hes₀, hstep'⟩

/-- An answered query was accepted in the run. -/
theorem job_of_mem_answers (hs : SoundCache s.cache) {a : Answer} (ha : a ∈ server.answers s es) :
    (parseDnsQuery a.job.packet).val = some (a.job.header, a.job.question) ∧
      .accept a.job.packet ∈ es := by
  obtain ⟨newer, older, hsplit⟩ := List.append_of_mem ha
  obtain ⟨es₁, e, es₀, rfl, -, hstep⟩ := server.exists_step_of_answers hsplit
  have hok := server.run_ok hs es₀
  have hold : ∀ {job}, job ∈ ((server.machine s).after es₀).unresolved ++
      ((server.machine s).after es₀).missed →
      (parseDnsQuery job.packet).val = some (job.header, job.question) ∧
        .accept job.packet ∈ es₁ ++ e :: es₀ := fun hj =>
    ⟨(hok.jobs _ hj).1, List.mem_append_right _ (List.mem_cons_of_mem _ (hok.jobs _ hj).2)⟩
  generalize (server.machine s).after (e :: es₀) = w' at hstep
  cases hstep with
  | answered parsed => exact ⟨parsed, by simp⟩
  | hit at_i => exact hold (List.mem_append_left _ (List.mem_of_getElem? at_i))
  | forwarded at_i => exact hold (List.mem_append_right _ (List.mem_of_getElem? at_i))

/-! ## A query without interruption -/

/-- What `ResolveQuery` can come to, with what it has found out on the way. -/
inductive Resolves (w : ServerState) (job : Job) (env : QueryEnv) : Outcome → Prop
  | locally {result : ResolveResult}
      (found : server.answerLocally w.blocklist job.header job.question = some result) :
      Resolves w job env ⟨result, w, []⟩
  | hit {cached : Bytes}
      (notLocal : server.answerLocally w.blocklist job.header job.question = none)
      (found : (lookupCache w.cache job.key env.getNow).1 = some cached) :
      Resolves w job env ⟨⟨cached, .resolveCache, []⟩,
        { w with cache := (lookupCache w.cache job.key env.getNow).2 }, []⟩
  | miss (notLocal : server.answerLocally w.blocklist job.header job.question = none)
      (notFound : (lookupCache w.cache job.key env.getNow).1 = none) :
      Resolves w job env
        ⟨⟨server.upstreamResponse job.packet job.header job.question env.exchange,
            .resolveUpstream, server.usedServer job.packet env.exchange⟩,
          { w with
            cache := storeResponse (lookupCache w.cache job.key env.getNow).2 job.key
              (server.upstreamResponse job.packet job.header job.question env.exchange)
              env.putNow env.putTime },
          upstreamCalls job.packet env.exchange⟩

theorem resolveQuery_spec (w : ServerState) (job : Job) (env : QueryEnv) :
    server.Resolves w job env
      (server.resolveQuery w job.packet job.header job.question env) := by
  rw [resolveQuery]
  cases hl : server.answerLocally w.blocklist job.header job.question with
  | some result => exact .locally hl
  | none =>
    dsimp only
    rw [show makeCacheKey job.question.qname job.question.qtype = job.key from rfl]
    cases hc : lookupCache w.cache job.key env.getNow with
    | mk found cache =>
      have hcache : cache = (lookupCache w.cache job.key env.getNow).2 := by rw [hc]
      subst hcache
      cases found with
      | some cached => exact .hit hl (by rw [hc])
      | none => exact .miss hl (by rw [hc])

/-- A live entry answers a query that is not answered locally. -/
theorem resolveQuery_live {w : ServerState} (hsound : SoundCache w.cache) {job : Job}
    (hlocal : server.answerLocally w.blocklist job.header job.question = none) {response : Bytes}
    {expiry : Int} (hc : Cached w.cache job.key response expiry) {env : QueryEnv}
    (hlive : env.getNow < expiry) :
    (server.resolveQuery w job.packet job.header job.question env).calls = [] ∧
      (server.resolveQuery w job.packet job.header job.question env).result =
        ⟨response, .resolveCache, []⟩ := by
  have hfound := (lookupCache_eq_some hsound).mpr ⟨expiry, hc, hlive⟩
  have hspec := server.resolveQuery_spec w job env
  generalize server.resolveQuery w job.packet job.header job.question env = outcome at hspec
  cases hspec with
  | locally found => simp [hlocal] at found
  | hit _ found =>
    obtain rfl := Option.some.inj (found.symm.trans hfound)
    exact ⟨rfl, rfl⟩
  | miss _ notFound => simp [hfound] at notFound

/-- A query that is neither answered locally nor cached goes upstream. -/
theorem resolveQuery_miss {w : ServerState} {job : Job}
    (hlocal : server.answerLocally w.blocklist job.header job.question = none) {env : QueryEnv}
    (hmiss : (lookupCache w.cache job.key env.getNow).1 = none) :
    server.resolveQuery w job.packet job.header job.question env =
      let response := server.upstreamResponse job.packet job.header job.question env.exchange
      ⟨⟨response, .resolveUpstream, server.usedServer job.packet env.exchange⟩,
        { w with
          cache := storeResponse (lookupCache w.cache job.key env.getNow).2 job.key response
            env.putNow env.putTime },
        upstreamCalls job.packet env.exchange⟩ := by
  have hspec := server.resolveQuery_spec w job env
  generalize server.resolveQuery w job.packet job.header job.question env = outcome at hspec
  cases hspec with
  | locally found => simp [hlocal] at found
  | hit _ found => simp [hmiss] at found
  | miss => rfl

theorem upstreamCalls_ne_nil (packet : Bytes) (x : Exchange) : upstreamCalls packet x ≠ [] := by
  rw [upstreamCalls]
  split <;> simp

/-- Where nothing is cached for its key, a query that is not answered locally is forwarded. -/
theorem resolveQuery_forwards {w : ServerState} (hsound : SoundCache w.cache) {job : Job}
    (hlocal : server.answerLocally w.blocklist job.header job.question = none)
    (hnone : ∀ response expiry, ¬ Cached w.cache job.key response expiry) (env : QueryEnv) :
    (server.resolveQuery w job.packet job.header job.question env).calls ≠ [] := by
  have hmiss : (lookupCache w.cache job.key env.getNow).1 = none := by
    refine Option.eq_none_iff_forall_not_mem.mpr fun response hr => ?_
    obtain ⟨expiry, hc, -⟩ := (lookupCache_eq_some hsound).mp hr
    exact hnone response expiry hc
  rw [server.resolveQuery_miss hlocal hmiss]
  exact upstreamCalls_ne_nil _ _

/-- A new query goes through its three steps before anything else happens. -/
def queryEvents (w : Workers) (packet : Bytes) (env : QueryEnv) : List ServerEvent :=
  [.forward w.missed.length env.exchange env.putNow env.putTime,
    .lookup w.unresolved.length env.getNow, .accept packet]

theorem eraseIdx_append_singleton (jobs : List Job) (job : Job) :
    (jobs ++ [job]).eraseIdx jobs.length = jobs := by
  simp [List.eraseIdx_append_of_length_le]

/-- `ResolveQuery` is a run of the machine: it ends in the same state, has one answer and leaves
the queries under way alone. -/
theorem resolveQuery_run {packet : Bytes} {header : DnsHeader} {question : DnsQuestion}
    (hp : (parseDnsQuery packet).val = some (header, question)) (env : QueryEnv) {w : Workers}
    (hw : (server.machine s).after es = w) :
    (server.machine s).after (queryEvents w packet env ++ es) =
        { w with toServerState :=
            (server.resolveQuery w.toServerState packet header question env).state } ∧
      server.answers s (queryEvents w packet env ++ es) =
        ⟨⟨packet, header, question⟩,
          (server.resolveQuery w.toServerState packet header question env).result,
          (server.resolveQuery w.toServerState packet header question env).calls⟩ ::
            server.answers s es := by
  have hlast : w.unresolved[w.unresolved.length]? = none := by simp
  have hlast' : w.missed[w.missed.length]? = none := by simp
  simp only [queryEvents, List.cons_append, List.nil_append, after_cons, answers_cons, hw,
    resolveQuery]
  cases hl : server.answerLocally w.blocklist header question with
  | some result =>
    simp [step, acceptStep, lookupStep, forwardStep, hp, hl]
  | none =>
    cases hc : lookupCache w.cache (makeCacheKey question.qname question.qtype) env.getNow with
    | mk found cache =>
      cases found with
      | some cached =>
        simp [step, acceptStep, lookupStep, forwardStep, hp, hl, hc, Job.key,
          eraseIdx_append_singleton]
      | none =>
        simp [step, acceptStep, lookupStep, forwardStep, hp, hl, hc, Job.key,
          eraseIdx_append_singleton]

theorem resolveClientName_run (addr : Vector UInt8 4) (env : QueryEnv) {w : Workers}
    (hw : (server.machine s).after es = w) :
    ∃ more, (server.machine s).after (more ++ es) =
        { w with
          toServerState := (server.resolveClientName w.toServerState addr env).2 } ∧
      server.answers s es ⊆ server.answers s (more ++ es) := by
  have hidle : ∃ more, (server.machine s).after (more ++ es) = w ∧
      server.answers s es ⊆ server.answers s (more ++ es) := ⟨[], hw, List.Subset.refl _⟩
  rw [resolveClientName]
  dsimp only
  split_ifs with hparts
  · exact hidle
  · cases hp : (parseDnsQuery (clientNameQuery (split (inetNtop addr) dot))).val with
    | none => exact hidle
    | some r =>
      obtain ⟨header, question⟩ := r
      obtain ⟨hafter, hanswers⟩ := server.resolveQuery_run hp env hw
      refine ⟨_, hafter.trans ?_, hanswers ▸ List.subset_cons_self _ _⟩
      dsimp only
      generalize (extractFirstPtrTarget _).val = target
      cases target <;> rfl

/-- `HandleQuery` is a run of the machine too, its lookup of the client's name included: it sends
what one of the answers of this run sends. -/
theorem handleQuery_run {packet : Bytes} {header : DnsHeader} {question : DnsQuestion}
    (hp : (parseDnsQuery packet).val = some (header, question)) (addr : Vector UInt8 4)
    (env nameEnv : QueryEnv) {w : Workers} (hw : (server.machine s).after es = w) :
    let outcome := server.resolveQuery w.toServerState packet header question env
    let handled := server.handleQuery w.toServerState packet addr env nameEnv
    handled.sent = sentResponse header outcome.result ∧
      ∃ more, (server.machine s).after (more ++ es) = { w with toServerState := handled.state } ∧
        ⟨⟨packet, header, question⟩, outcome.result, outcome.calls⟩ ∈
          server.answers s (more ++ es) := by
  intro outcome handled
  obtain ⟨hafter, hanswers⟩ := server.resolveQuery_run hp env hw
  by_cases hlog : server.logger = true
  · have hhandled : handled = ⟨true, sentResponse header outcome.result,
        some (logCall (inetNtop addr) (server.resolveClientName outcome.state addr nameEnv).1
          question outcome.result), (server.resolveClientName outcome.state addr nameEnv).2⟩ := by
      simp only [handled, handleQuery, hp, if_pos hlog, outcome]
    rw [hhandled]
    obtain ⟨more, hafter', hsub⟩ := server.resolveClientName_run addr nameEnv hafter
    refine ⟨rfl, more ++ queryEvents w packet env, by rw [List.append_assoc, hafter'], ?_⟩
    rw [List.append_assoc]
    exact hsub (hanswers ▸ List.mem_cons_self)
  · have hhandled : handled = ⟨true, sentResponse header outcome.result, none, outcome.state⟩ := by
      simp only [handled, handleQuery, hp, if_neg hlog, outcome]
    rw [hhandled]
    exact ⟨rfl, queryEvents w packet env, hafter, hanswers ▸ List.mem_cons_self⟩

end DnsServer

/-! ## Inputs for concrete runs -/

/-- The query for `label`, of the given type and class. -/
def plainQuery (id : UInt8) (label : Bytes) (qtype qclass : UInt8) : Bytes :=
  [0, id, 1, 0, 0, 1, 0, 0, 0, 0, 0, 0, UInt8.ofNat label.length] ++ label ++
    [0, 0, qtype, 0, qclass]

/-- The query for `a`, as a worker holds it. -/
def plainJob : Job :=
  ⟨plainQuery 7 [97] 1 1, ⟨7, 256, 1, 0, 0, 0⟩, ⟨[97], 1, 1, 12, 7⟩⟩

/-- An upstream's reply to `plainQuery id [97] 1 1` with one address. -/
def addressReply (id : UInt8) (address : Bytes) : Bytes :=
  [0, id, 0x81, 0x80, 0, 1, 0, 1, 0, 0, 0, 0, 1, 97, 0, 0, 1, 0, 1, 0xC0, 12, 0, 1, 0, 1,
    0, 0, 0, 60, 0, 4] ++ address

/-- A server with one UDP upstream and no DoT, local records or logger. -/
def plainServer (rebindProtection : Bool) : DnsServer :=
  ⟨⟨rebindProtection⟩, ⟨∅⟩, [ascii "0.0.0.0"], InetPton.own, false⟩

/-- The UDP upstream delivers this datagram. -/
def udpDelivers (datagram : Bytes) : Exchange :=
  ⟨⟨none, false, []⟩, ⟨true, true, true, some datagram⟩⟩

/-- Nothing comes back. -/
def noReply : Exchange := ⟨⟨none, false, []⟩, ⟨true, true, false, none⟩⟩

end Gravastar
