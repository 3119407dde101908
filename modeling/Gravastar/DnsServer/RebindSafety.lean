import Gravastar.DnsPacket.Query
import Gravastar.DnsPacket.Rebind
import Gravastar.DnsServer.Runs

/-!
# Rebind protection over whole runs

With the protection on, what is stored has been rewritten, and what is sent was
just rewritten or comes from the store. Either way its skeleton is clean, which
a patched message ID does not change.
-/

namespace Gravastar

open DnsServer

/-! ## One response -/

theorem skeletonClean_nil : SkeletonClean [] := by simp [SkeletonClean, skeleton, recordsBy]

theorem counts_buildEmptyResponse (header : DnsHeader) (question : DnsQuestion) :
    let response := buildEmptyResponse header question
    (readU16 response 6).val = 0 ∧ (readU16 response 8).val = 0 ∧
      (readU16 response 10).val = 0 := by
  intro response
  have hheader : headerAt response = _ := headerAt_response header 1 0 (appendQuestion question)
  exact ⟨congrArg DnsHeader.ancount hheader, congrArg DnsHeader.nscount hheader,
    congrArg DnsHeader.arcount hheader⟩

/-- A response that counts no records has none. -/
theorem skeletonClean_buildEmptyResponse (header : DnsHeader) (question : DnsQuestion) :
    SkeletonClean (buildEmptyResponse header question) := by
  obtain ⟨han, hns, har⟩ := counts_buildEmptyResponse header question
  set response := buildEmptyResponse header question
  have hcount : recordCount response = 0 := by
    rw [recordCount, han, hns, har]
    rfl
  intro r hr
  rw [skeleton, recordsBy, hcount] at hr
  split_ifs at hr
  · simp at hr
  · cases hq : questionsEnd response (skipName response) (readU16 response 4).val.toNat 12 <;>
      simp [hq, recordsFrom] at hr

theorem protect_on {server : DnsServer} (hon : server.config.rebindProtection = true)
    (header : DnsHeader) (question : DnsQuestion) {response : Bytes} (hne : response ≠ []) :
    server.protect header question response =
      match (rewritePrivateARecordsToZero response).val with
      | (none, _) => buildEmptyResponse header question
      | (some _, rewritten) => rewritten := by
  have he : (!response.isEmpty && server.config.rebindProtection) = true := by simp [hne, hon]
  exact if_pos he

theorem skeletonClean_protect {server : DnsServer} (hon : server.config.rebindProtection = true)
    (header : DnsHeader) (question : DnsQuestion) (response : Bytes) :
    SkeletonClean (server.protect header question response) := by
  by_cases hne : response = []
  · subst hne
    exact skeletonClean_nil
  · rw [protect_on hon header question hne]
    cases hr : (rewritePrivateARecordsToZero response).val with
    | mk rewritten packet =>
      cases rewritten with
      | none => exact skeletonClean_buildEmptyResponse header question
      | some b => exact rewrite_clean hr

theorem noPrivateA_sent {header : DnsHeader} {result : ResolveResult}
    (h : SkeletonClean result.response) {bytes : Bytes} (hs : bytes ∈ sentResponse header result) :
    NoPrivateA bytes := by
  rw [sentResponse] at hs
  split_ifs at hs
  · simp at hs
  · obtain rfl := Option.some.inj hs
    exact (h.patchResponseId header.id).noPrivateA
  · obtain rfl := Option.some.inj hs
    exact h.noPrivateA

/-! ## Runs -/

/-- Every stored response has a clean skeleton. -/
def CleanCache (cache : Option DnsCache) : Prop :=
  ∀ key response expiry, Cached cache key response expiry → SkeletonClean response

variable {server : DnsServer}

/-- One event stores clean responses and answers from an upstream or the cache with clean ones. -/
theorem DnsServer.Step.clean (hon : server.config.rebindProtection = true) {w w' : Workers}
    {e : ServerEvent} {out : Option Answer} (h : server.Step w e out w')
    (hsound : SoundCache w.cache) (hclean : CleanCache w.cache) :
    CleanCache w'.cache ∧ ∀ a ∈ out, a.result.isForeign → SkeletonClean a.result.response := by
  cases h with
  | setDomains | refused | waits | noLookup | noForward => exact ⟨hclean, by simp⟩
  | answered parsed found =>
    refine ⟨hclean, fun a ha hforeign => ?_⟩
    obtain rfl := Option.some.inj ha
    exact absurd hforeign (server.not_isForeign_of_answerLocally found)
  | hit at_i found =>
    refine ⟨fun k r t hc => hclean k r t ((cached_lookup hsound).mp hc).1, fun a ha _ => ?_⟩
    obtain rfl := Option.some.inj ha
    obtain ⟨t, hc, -⟩ := (lookupCache_eq_some hsound).mp found
    exact hclean _ _ t hc
  | miss at_i notFound =>
    exact ⟨fun k r t hc => hclean k r t ((cached_lookup hsound).mp hc).1, by simp⟩
  | @forwarded i x now time job at_i =>
    have hresponse : SkeletonClean
        (server.upstreamResponse job.packet job.header job.question x) :=
      skeletonClean_protect hon _ _ _
    refine ⟨fun k r t hc => ?_, fun a ha _ => ?_⟩
    · rcases Cached.of_store hsound hc with ⟨-, rfl, -⟩ | ⟨-, hold⟩
      · exact hresponse
      · exact hclean k r t hold
    · obtain rfl := Option.some.inj ha
      exact hresponse

theorem run_clean (hon : server.config.rebindProtection = true) (blocklist : Option Blocklist)
    (limits : Option (Nat × Nat)) (es : List ServerEvent) :
    CleanCache ((server.machine (.initial blocklist limits)).after es).cache := by
  induction es with
  | nil => exact fun k r t hc => absurd hc (not_cached_initial blocklist limits k r t)
  | cons e es ih =>
    have hsound := (server.run_ok (soundCache_initial blocklist limits) es).sound
    exact ((server.step_spec _ e).clean hon hsound ih).1

/-- With rebind protection on and an empty cache to start from, neither what is sent for a query
resolved by an upstream or the cache, nor what is stored, holds a private A record: for all
queries, clocks and upstreams, in any interleaving, and for a whole `HandleQuery` at any point. -/
theorem rebind_safety (hon : server.config.rebindProtection = true) (blocklist : Option Blocklist)
    (limits : Option (Nat × Nat)) (es : List ServerEvent) :
    let w := (server.machine (.initial blocklist limits)).after es
    (∀ a ∈ server.answers (.initial blocklist limits) es, a.result.isForeign →
      ∀ bytes ∈ a.sent, NoPrivateA bytes) ∧
    (∀ key response expiry, Cached w.cache key response expiry → NoPrivateA response) ∧
    (∀ packet header question, (parseDnsQuery packet).val = some (header, question) →
      ∀ addr env nameEnv,
      let handled := server.handleQuery w.toServerState packet addr env nameEnv
      ((server.resolveQuery w.toServerState packet header question env).result.isForeign →
        ∀ bytes ∈ handled.sent, NoPrivateA bytes) ∧
      ∀ key response expiry, Cached handled.state.cache key response expiry →
        NoPrivateA response) := by
  intro w
  have hanswers : ∀ es, ∀ a ∈ server.answers (.initial blocklist limits) es,
      a.result.isForeign → ∀ bytes ∈ a.sent, NoPrivateA bytes := by
    intro es a ha hforeign bytes hb
    obtain ⟨newer, older, hsplit⟩ := List.append_of_mem ha
    obtain ⟨-, e, es₀, -, -, hstep⟩ := server.exists_step_of_answers hsplit
    have hsound := (server.run_ok (soundCache_initial blocklist limits) es₀).sound
    have hclean := (hstep.clean hon hsound (run_clean hon blocklist limits es₀)).2 a rfl hforeign
    exact noPrivateA_sent hclean hb
  refine ⟨hanswers es, fun k r t hc => (run_clean hon blocklist limits es k r t hc).noPrivateA,
    fun packet header question hp addr env nameEnv => ?_⟩
  have hw : (server.machine (.initial blocklist limits)).after es = w := rfl
  obtain ⟨hsent, more, hafter, hmem⟩ := server.handleQuery_run hp addr env nameEnv hw
  constructor
  · intro hforeign bytes hb
    rw [hsent] at hb
    exact hanswers _ _ hmem hforeign bytes hb
  · intro k r t hc
    have hclean := run_clean hon blocklist limits (more ++ es) k r t
    rw [hafter] at hclean
    exact (hclean hc).noPrivateA

/-- The address 10.0.0.1 does not get out, here from the cache with the ID of a second query. -/
theorem rebind_safety_private_reply :
    ∃ a ∈ (plainServer true).answers (.initial none (some (100, 60))) [.lookup 0 1,
        .accept (plainQuery 8 [97] 1 1),
        .forward 0 (udpDelivers (addressReply 7 [10, 0, 0, 1])) 0 0, .lookup 0 0,
        .accept (plainQuery 7 [97] 1 1)],
      a.result.source = .resolveCache ∧ a.sent = some (addressReply 8 [0, 0, 0, 0]) ∧
        NoPrivateA (addressReply 8 [0, 0, 0, 0]) := by
  let es : List ServerEvent := [.lookup 0 1, .accept (plainQuery 8 [97] 1 1),
    .forward 0 (udpDelivers (addressReply 7 [10, 0, 0, 1])) 0 0, .lookup 0 0,
    .accept (plainQuery 7 [97] 1 1)]
  let a : Answer := ⟨⟨plainQuery 8 [97] 1 1, ⟨8, 256, 1, 0, 0, 0⟩, ⟨[97], 1, 1, 12, 7⟩⟩,
    ⟨addressReply 7 [0, 0, 0, 0], .resolveCache, []⟩, []⟩
  have ha : a ∈ (plainServer true).answers (.initial none (some (100, 60))) es := by
    decide +kernel
  have hsent : a.sent = some (addressReply 8 [0, 0, 0, 0]) := by decide +kernel
  exact ⟨a, ha, rfl, hsent,
    (@rebind_safety (plainServer true) rfl none (some (100, 60)) es).1 a ha (.inr rfl) _ hsent⟩

end Gravastar
