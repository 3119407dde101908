import Gravastar.DnsPacket.Query
import Gravastar.DnsServer.Runs

/-!
# Which question a cached answer belongs to

A cache entry was stored for the last query with the same key. The key is the
dotted text of the name and the type: it forgets the class, and where one label
ends when labels hold dots. Two questions that differ only there share an entry.
-/

namespace Gravastar

open DnsServer

/-! ## Questions -/

/-- The types agree, and so do the names once they are written with dots between the labels; but
the labels or the classes do not. -/
def Confusable (p q : Bytes) : Prop :=
  ∃ ls ms, IsQuery p ls ∧ IsQuery q ms ∧ (questionAt p ls).qtype = (questionAt q ms).qtype ∧
    canonicalName (nameText ls) = canonicalName (nameText ms) ∧
    (foldedLabels ls ≠ foldedLabels ms ∨ (questionAt p ls).qclass ≠ (questionAt q ms).qclass)

theorem sameQuestion_of_key {a b : Job}
    (ha : (parseDnsQuery a.packet).val = some (a.header, a.question))
    (hb : (parseDnsQuery b.packet).val = some (b.header, b.question)) (hkey : a.key = b.key)
    (hclear : ¬ Confusable a.packet b.packet) : SameQuestion a.packet b.packet := by
  obtain ⟨ls, hls, -, hqa⟩ := parseDnsQuery_iff.mp ha
  obtain ⟨ms, hms, -, hqb⟩ := parseDnsQuery_iff.mp hb
  rw [Job.key, Job.key, hqa, hqb] at hkey
  obtain ⟨hname, htype⟩ := nameTypeKey_injective hkey
  by_cases hlabels : foldedLabels ls = foldedLabels ms
  · by_cases hclass : (questionAt a.packet ls).qclass = (questionAt b.packet ms).qclass
    · exact ⟨ls, ms, hls, hms, hlabels, htype, hclass⟩
    · exact absurd ⟨ls, ms, hls, hms, htype, hname, .inr hclass⟩ hclear
  · exact absurd ⟨ls, ms, hls, hms, htype, hname, .inl hlabels⟩ hclear

theorem canonicalName_nameText {ls : List Label} (hd : DotFree ls) :
    canonicalName (nameText ls) = dotJoin (foldedLabels ls) := by
  have hlast : (toLower (nameText ls)).getLast? ≠ some dot := by
    rw [toLower, List.getLast?_map]
    intro h
    obtain ⟨b, hb, hdot⟩ := Option.map_eq_some_iff.mp h
    exact getLast?_nameText hd (hb.trans (congrArg some (lowerByte_eq_dot.mp hdot)))
  rw [canonicalName, dropTrailingDot, if_neg hlast, nameText, toLower_dotJoin, List.map_map]
  rfl

theorem dotJoin_foldedLabels {ls ms : List Label} (hl : DotFree ls) (hm : DotFree ms)
    (h : dotJoin (foldedLabels ls) = dotJoin (foldedLabels ms)) :
    foldedLabels ls = foldedLabels ms := by
  have hfree : ∀ {ls : List Label}, DotFree ls → ∀ l ∈ foldedLabels ls, dot ∉ l := by
    intro ls hd l hmem
    obtain ⟨l, hl, rfl⟩ := List.mem_map.mp hmem
    exact fun hdot => hd l hl (dot_mem_toLower.mp hdot)
  have hnil : ∀ {ls : List Label}, dotJoin (foldedLabels ls) = [] → foldedLabels ls = [] := by
    intro ls hj
    cases ls with
    | nil => rfl
    | cons l ls =>
      have hpos := l.nonempty
      rw [foldedLabels, List.map_cons, dotJoin_eq_flatMap] at hj
      rw [← length_toLower, (List.append_eq_nil_iff.mp hj).1] at hpos
      simp at hpos
  by_cases hls : foldedLabels ls = []
  · rw [hls] at h ⊢
    exact (hnil h.symm).symm
  · by_cases hms : foldedLabels ms = []
    · rw [hms] at h
      exact absurd (hnil h) hls
    · exact dotJoin_injective (hfree hl) (hfree hm) hls hms h

/-- Without dots inside labels only the class can be confused. -/
theorem confusable_iff_of_dotFree {p q : Bytes} {ls ms : List Label} (hp : IsQuery p ls)
    (hq : IsQuery q ms) (hl : DotFree ls) (hm : DotFree ms) :
    Confusable p q ↔ foldedLabels ls = foldedLabels ms ∧
      (questionAt p ls).qtype = (questionAt q ms).qtype ∧
      (questionAt p ls).qclass ≠ (questionAt q ms).qclass := by
  constructor
  · rintro ⟨ls', ms', hp', hq', htype, hname, hdiff⟩
    obtain rfl := encodeName_unique hp.name hp'.name
    obtain rfl := encodeName_unique hq.name hq'.name
    rw [canonicalName_nameText hl, canonicalName_nameText hm] at hname
    have hlabels := dotJoin_foldedLabels hl hm hname
    exact ⟨hlabels, htype, hdiff.resolve_left (not_not.mpr hlabels)⟩
  · rintro ⟨hlabels, htype, hclass⟩
    refine ⟨ls, ms, hp, hq, htype, ?_, .inr hclass⟩
    rw [canonicalName_nameText hl, canonicalName_nameText hm, hlabels]

/-! ## Runs -/

/-- The answer whose response was put last under `key`: with an upstream's, or for want of one. -/
def lastStored (key : Bytes) (answers : List Answer) : Option Answer :=
  answers.find? fun a =>
    a.result.source = .resolveUpstream ∧ a.result.response ≠ [] ∧ a.job.key = key

theorem lastStored_skip {key : Bytes} {a : Answer} {answers : List Answer}
    (h : a.result.source = .resolveUpstream → a.result.response ≠ [] → a.job.key ≠ key) :
    lastStored key (a :: answers) = lastStored key answers :=
  List.find?_cons_of_neg (by simpa using h)

theorem lastStored_spec {key : Bytes} {a : Answer} {answers : List Answer}
    (h : lastStored key answers = some a) :
    a ∈ answers ∧ a.result.source = .resolveUpstream ∧ a.job.key = key := by
  have hkey := List.find?_some h
  simp only [decide_eq_true_eq] at hkey
  exact ⟨List.mem_of_find?_eq_some h, hkey.1, hkey.2.2⟩

variable {server : DnsServer}

/-- Every entry holds the response that was stored last under its key. -/
def FromLastStored (cache : Option DnsCache) (answers : List Answer) : Prop :=
  ∀ key response expiry, Cached cache key response expiry →
    ∃ a, lastStored key answers = some a ∧ a.result.response = response

theorem DnsServer.Step.fromLastStored {w w' : Workers} {e : ServerEvent} {out : Option Answer}
    {answers : List Answer} (h : server.Step w e out w') (hsound : SoundCache w.cache)
    (hfrom : FromLastStored w.cache answers) : FromLastStored w'.cache (out.toList ++ answers) := by
  cases h with
  | setDomains | refused | waits | noLookup | noForward => exact hfrom
  | answered parsed found =>
    intro key response expiry hc
    rw [Option.toList_some, List.singleton_append, lastStored_skip]
    · exact hfrom key response expiry hc
    · exact fun hs => absurd (.inl hs) (server.not_isForeign_of_answerLocally found)
  | hit at_i found =>
    intro key response expiry hc
    rw [Option.toList_some, List.singleton_append, lastStored_skip (by simp)]
    exact hfrom key response expiry ((cached_lookup hsound).mp hc).1
  | miss at_i notFound =>
    intro key response expiry hc
    exact hfrom key response expiry ((cached_lookup hsound).mp hc).1
  | forwarded at_i =>
    intro key response expiry hc
    rw [Option.toList_some, List.singleton_append]
    rcases Cached.of_store hsound hc with ⟨rfl, rfl, hne⟩ | ⟨hold, hc⟩
    · exact ⟨_, List.find?_cons_of_pos (by simpa using hne), rfl⟩
    · rw [lastStored_skip]
      · exact hfrom key response expiry hc
      · exact fun _ hne hkey => hold.elim (fun h => h hkey.symm) hne

variable {blocklist : Option Blocklist} {limits : Option (Nat × Nat)} {es : List ServerEvent}

theorem run_fromLastStored (es : List ServerEvent) :
    FromLastStored ((server.machine (.initial blocklist limits)).after es).cache
      (server.answers (.initial blocklist limits) es) := by
  induction es with
  | nil => exact fun k r t hc => absurd hc (not_cached_initial blocklist limits k r t)
  | cons e es ih =>
    have hsound := (server.run_ok (soundCache_initial blocklist limits) es).sound
    rw [answers_cons]
    exact (server.step_spec _ e).fromLastStored hsound ih

/-- An answer from the cache repeats the answer that was stored last for its key. -/
theorem lastStored_of_answers {newer older : List Answer} {a : Answer}
    (hsplit : server.answers (.initial blocklist limits) es = newer ++ a :: older)
    (hsource : a.result.source = .resolveCache) :
    ∃ b, lastStored a.job.key older = some b ∧ b.result.response = a.result.response := by
  obtain ⟨es₁, e, es₀, rfl, rfl, hstep⟩ := server.exists_step_of_answers hsplit
  have hsound := (server.run_ok (soundCache_initial blocklist limits) es₀).sound
  generalize (server.machine (.initial blocklist limits)).after (e :: es₀) = w' at hstep
  cases hstep with
  | answered parsed found =>
    exact absurd (.inr hsource) (server.not_isForeign_of_answerLocally found)
  | forwarded => simp at hsource
  | hit at_i found =>
    obtain ⟨t, hc, -⟩ := (lookupCache_eq_some hsound).mp found
    exact run_fromLastStored es₀ _ _ t hc

/-- Every answer from the cache was stored while resolving the same question. -/
def CacheAnswersBelong (answers : List Answer) : Prop :=
  ∀ newer a older, answers = newer ++ a :: older → a.result.source = .resolveCache →
    ∃ b, lastStored a.job.key older = some b ∧ b.result.response = a.result.response ∧
      SameQuestion b.job.packet a.job.packet

theorem run_cacheAnswersBelong
    (hclear : ∀ p q, .accept p ∈ es → .accept q ∈ es → ¬ Confusable p q) :
    CacheAnswersBelong (server.answers (.initial blocklist limits) es) := by
  intro newer a older hsplit hsource
  obtain ⟨b, hb, hresponse⟩ := lastStored_of_answers hsplit hsource
  obtain ⟨hmem, -, hkey⟩ := lastStored_spec hb
  have hjob : ∀ c ∈ a :: older, (parseDnsQuery c.job.packet).val =
      some (c.job.header, c.job.question) ∧ .accept c.job.packet ∈ es := fun c hc =>
    server.job_of_mem_answers (soundCache_initial blocklist limits)
      (hsplit ▸ List.mem_append_right _ hc)
  obtain ⟨hparse, haccept⟩ := hjob a List.mem_cons_self
  obtain ⟨hparse', haccept'⟩ := hjob b (List.mem_cons_of_mem _ hmem)
  exact ⟨b, hb, hresponse,
    sameQuestion_of_key hparse' hparse hkey (hclear _ _ haccept' haccept)⟩

theorem not_confusable_of_sameQuestion {p q : Bytes} (h : SameQuestion p q) :
    ¬ Confusable p q := by
  rintro ⟨ls, ms, hp, hq, -, -, hdiff⟩
  obtain ⟨ls', ms', hp', hq', hlabels, -, hclass⟩ := h
  obtain rfl := encodeName_unique hp.name hp'.name
  obtain rfl := encodeName_unique hq.name hq'.name
  exact hdiff.elim (fun h => h hlabels) fun h => h hclass

/-- An answer from the cache that was stored for a question confusable with its own. -/
theorem not_cacheAnswersBelong {a b : Answer} (ha : a.result.source = .resolveCache)
    (hconf : Confusable b.job.packet a.job.packet) : ¬ CacheAnswersBelong [a, b] := by
  intro hbelong
  obtain ⟨c, hc, -, hsame⟩ := hbelong [] a [b] rfl ha
  obtain rfl := List.mem_singleton.mp (lastStored_spec hc).1
  exact not_confusable_of_sameQuestion hsame hconf

/-- Of two confusable queries, the second gets the answer that was stored for the first. -/
theorem exists_confused_run {p q : Bytes} (hconf : Confusable p q) :
    ∃ es, (∀ r, .accept r ∈ es → r = p ∨ r = q) ∧
      ¬ CacheAnswersBelong
        ((plainServer false).answers (.initial none (some (100, 60))) es) := by
  obtain ⟨ls, ms, hp, hq, htype, hname, -⟩ := id hconf
  have hparsep := parseDnsQuery_iff.mpr ⟨ls, hp, rfl, rfl⟩
  have hparseq := parseDnsQuery_iff.mpr ⟨ms, hq, rfl, rfl⟩
  let server := plainServer false
  let s := ServerState.initial none (some (100, 60))
  let env : QueryEnv := ⟨0, udpDelivers [1], 0, 0⟩
  let jobp : Job := ⟨p, headerAt p, questionAt p ls⟩
  let jobq : Job := ⟨q, headerAt q, questionAt q ms⟩
  have hkey : jobq.key = jobp.key := by
    simp only [Job.key, makeCacheKey, nameTypeKey, jobp, jobq, ← htype]
    exact congrArg (· ++ ascii "|" ++ decimal (questionAt p ls).qtype.toNat) hname.symm
  -- the first query misses the empty cache and stores the reply
  let c := (DnsCache.new 100 60).put jobp.key [1] 0 0
  have hfirst : server.resolveQuery s p (headerAt p) (questionAt p ls) env =
      ⟨⟨[1], .resolveUpstream, ascii "0.0.0.0"⟩, ⟨none, some c⟩,
        [.resolveDot p, .resolveUdp p]⟩ := rfl
  have hstart : (server.machine s).after [] = ⟨s, [], []⟩ := rfl
  obtain ⟨hafter, hanswers⟩ := server.resolveQuery_run hparsep env hstart
  rw [hfirst] at hafter hanswers
  -- the second query finds it
  have hcached : Cached (some c) jobq.key [1] 60 := by
    rw [hkey, cached_some]
    exact DnsCache.contains_put (sound_new 100 60) jobp.key 0 0 (by decide)
  have hsound : SoundCache (some c) := by
    intro d hd
    obtain rfl := Option.some.inj hd
    exact (sound_new 100 60).put jobp.key [1] 0 0
  have hsecond : (server.resolveQuery ⟨none, some c⟩ q (headerAt q) (questionAt q ms) env).result =
      ⟨[1], .resolveCache, []⟩ :=
    (@resolveQuery_live server ⟨none, some c⟩ hsound jobq rfl _ _ hcached env (by decide)).2
  obtain ⟨-, hanswers'⟩ := server.resolveQuery_run hparseq env hafter
  refine ⟨queryEvents ⟨⟨none, some c⟩, [], []⟩ q env ++ (queryEvents ⟨s, [], []⟩ p env ++ []),
    ?_, ?_⟩
  · intro r hr
    simp [queryEvents] at hr
    tauto
  · rw [hanswers', hanswers]
    exact not_cacheAnswersBelong (congrArg ResolveResult.source hsecond) hconf

/-- Over queries from a given set, cached answers belong to the question in every run exactly when
no two of the queries are confusable. -/
theorem cached_answers_belong (packets : Set Bytes) :
    (∀ p ∈ packets, ∀ q ∈ packets, ¬ Confusable p q) ↔
      ∀ (server : DnsServer) (blocklist : Option Blocklist) (limits : Option (Nat × Nat))
        (es : List ServerEvent), (∀ p, .accept p ∈ es → p ∈ packets) →
        CacheAnswersBelong (server.answers (.initial blocklist limits) es) := by
  constructor
  · intro hclear server blocklist limits es hes
    exact run_cacheAnswersBelong fun p q hp hq => hclear p (hes p hp) q (hes q hq)
  · intro hbelong p hp q hq hconf
    obtain ⟨es, hes, hnot⟩ := exists_confused_run hconf
    refine hnot (hbelong _ _ _ es fun r hr => ?_)
    rcases hes r hr with rfl | rfl
    · exact hp
    · exact hq

/-- The queries for `a` and for `A`, of one type and class, share an entry as they should. -/
theorem cached_answers_belong_case :
    CacheAnswersBelong ((plainServer false).answers (.initial none (some (100, 60)))
      [.lookup 0 1, .accept (plainQuery 8 [65] 1 1),
        .forward 0 (udpDelivers (addressReply 7 [1, 2, 3, 4])) 0 0, .lookup 0 0,
        .accept (plainQuery 7 [97] 1 1)]) :=
  (cached_answers_belong {plainQuery 7 [97] 1 1, plainQuery 8 [65] 1 1}).mp
    (by
      have ha : IsQuery (plainQuery 7 [97] 1 1) [⟨[97], by decide, by decide⟩] :=
        ⟨by decide, by decide, by decide⟩
      have hA : IsQuery (plainQuery 8 [65] 1 1) [⟨[65], by decide, by decide⟩] :=
        ⟨by decide, by decide, by decide⟩
      rintro p (rfl | rfl) q (rfl | rfl)
      · rw [confusable_iff_of_dotFree ha ha (by decide) (by decide)]
        decide
      · rw [confusable_iff_of_dotFree ha hA (by decide) (by decide)]
        decide
      · rw [confusable_iff_of_dotFree hA ha (by decide) (by decide)]
        decide
      · rw [confusable_iff_of_dotFree hA hA (by decide) (by decide)]
        decide)
    _ _ _ _ (by simp)

/-- The query for `a.b` in two labels. -/
def twoLabelQuery (id : UInt8) : Bytes :=
  [0, id, 1, 0, 0, 1, 0, 0, 0, 0, 0, 0, 1, 97, 1, 98, 0, 0, 1, 0, 1]

/-- A query in class CH gets the answer stored for one in class IN; and one for the labels `a` and
`b` the answer stored for the single label `a.b`. -/
theorem cached_answers_cross :
    ¬ CacheAnswersBelong ((plainServer false).answers (.initial none (some (100, 60)))
      [.lookup 0 1, .accept (plainQuery 8 [97] 1 3),
        .forward 0 (udpDelivers (addressReply 7 [1, 2, 3, 4])) 0 0, .lookup 0 0,
        .accept (plainQuery 7 [97] 1 1)]) ∧
    ¬ CacheAnswersBelong ((plainServer false).answers (.initial none (some (100, 60)))
      [.lookup 0 1, .accept (twoLabelQuery 8),
        .forward 0 (udpDelivers (addressReply 7 [1, 2, 3, 4])) 0 0, .lookup 0 0,
        .accept (plainQuery 7 [97, 46, 98] 1 1)]) := by
  let reply := addressReply 7 [1, 2, 3, 4]
  let upstream : ResolveResult := ⟨reply, .resolveUpstream, ascii "0.0.0.0"⟩
  have hclass : (plainServer false).answers (.initial none (some (100, 60)))
      [.lookup 0 1, .accept (plainQuery 8 [97] 1 3), .forward 0 (udpDelivers reply) 0 0,
        .lookup 0 0, .accept (plainQuery 7 [97] 1 1)] =
      [⟨⟨plainQuery 8 [97] 1 3, ⟨8, 256, 1, 0, 0, 0⟩, ⟨[97], 1, 3, 12, 7⟩⟩,
          ⟨reply, .resolveCache, []⟩, []⟩,
        ⟨⟨plainQuery 7 [97] 1 1, ⟨7, 256, 1, 0, 0, 0⟩, ⟨[97], 1, 1, 12, 7⟩⟩, upstream,
          [.resolveDot (plainQuery 7 [97] 1 1), .resolveUdp (plainQuery 7 [97] 1 1)]⟩] := by
    decide +kernel
  have hlabels : (plainServer false).answers (.initial none (some (100, 60)))
      [.lookup 0 1, .accept (twoLabelQuery 8), .forward 0 (udpDelivers reply) 0 0,
        .lookup 0 0, .accept (plainQuery 7 [97, 46, 98] 1 1)] =
      [⟨⟨twoLabelQuery 8, ⟨8, 256, 1, 0, 0, 0⟩, ⟨[97, 46, 98], 1, 1, 12, 9⟩⟩,
          ⟨reply, .resolveCache, []⟩, []⟩,
        ⟨⟨plainQuery 7 [97, 46, 98] 1 1, ⟨7, 256, 1, 0, 0, 0⟩, ⟨[97, 46, 98], 1, 1, 12, 9⟩⟩,
          upstream, [.resolveDot (plainQuery 7 [97, 46, 98] 1 1),
            .resolveUdp (plainQuery 7 [97, 46, 98] 1 1)]⟩] := by
    decide +kernel
  let a : Label := ⟨[97], by decide, by decide⟩
  let b : Label := ⟨[98], by decide, by decide⟩
  let ab : Label := ⟨[97, 46, 98], by decide, by decide⟩
  rw [hclass, hlabels]
  constructor
  · exact not_cacheAnswersBelong rfl ⟨[a], [a], ⟨by decide, by decide, by decide⟩,
      ⟨by decide, by decide, by decide⟩, by decide, by decide, .inr (by decide)⟩
  · exact not_cacheAnswersBelong rfl ⟨[ab], [a, b], ⟨by decide, by decide, by decide⟩,
      ⟨by decide, by decide, by decide⟩, by decide, by decide, .inl (by decide)⟩

end Gravastar
