import Gravastar.DnsPacket.Rebind
import Gravastar.DnsServer.Forwarding

/-!
# Letter case never decides anything

Every lookup folds the name it is given: the blocklist, the local records and
the cache see the same text for two spellings of a question. What is sent back
repeats the spelling that was asked for, and differs nowhere else.
-/

namespace Gravastar

open DnsServer

/-- The packets differ at most in the letter case of bytes inside the labels of their first
question. -/
def CaseVariants (p q : Bytes) : Prop :=
  ∃ ls ms, encodeName ls <+: p.drop 12 ∧ encodeName ms <+: q.drop 12 ∧
    foldedLabels ls = foldedLabels ms ∧ AgreeOn 0 12 p q ∧
    AgreeOn (12 + (encodeName ls).length) p.length p q

/-- The same bytes, but for `n` and `n'`: nothing at all, or 12 bytes, the echoed name, 4 bytes and,
in an answer, the name once more as the owner of a record. -/
inductive SameButNames (n n' : Bytes) : Bytes → Bytes → Prop
  | nothing : SameButNames n n' [] []
  | question (header fields : Bytes) : header.length = 12 → fields.length = 4 →
      SameButNames n n' (header ++ n ++ fields) (header ++ n' ++ fields)
  | answer (header fields record : Bytes) : header.length = 12 → fields.length = 4 →
      SameButNames n n' (header ++ n ++ fields ++ n ++ record)
        (header ++ n' ++ fields ++ n' ++ record)

/-! ## Two spellings of a text -/

section
variable {s t : Bytes}

theorem length_eq_of_toLower (h : toLower s = toLower t) : s.length = t.length := by
  rw [← length_toLower s, h, length_toLower]

theorem toLower_takeWhile (s : Bytes) :
    toLower (s.takeWhile (· ≠ dot)) = (toLower s).takeWhile (· ≠ dot) := by
  have hdot : ((fun b => decide (b ≠ dot)) ∘ lowerByte) = fun b => decide (b ≠ dot) := by
    funext b
    simp [lowerByte_eq_dot]
  rw [toLower, toLower, List.takeWhile_map, hdot]

theorem canonicalName_congr (h : toLower s = toLower t) : canonicalName s = canonicalName t := by
  rw [canonicalName, canonicalName, h]

theorem isBlockedBy_congr (h : toLower s = toLower t) (blocklist : Option Blocklist) :
    isBlockedBy blocklist s = isBlockedBy blocklist t := by
  cases blocklist with
  | none => rfl
  | some b =>
    rw [isBlockedBy, isBlockedBy, Blocklist.isBlocked, Blocklist.isBlocked, canonicalName_congr h]

theorem nameTypeKey_congr (h : toLower s = toLower t) (qtype : UInt16) :
    nameTypeKey s qtype = nameTypeKey t qtype := by
  rw [nameTypeKey, nameTypeKey, canonicalName_congr h]

theorem resolve_congr (h : toLower s = toLower t) (records : LocalRecords) (qtype : UInt16) :
    records.resolve s qtype = records.resolve t qtype := by
  rw [LocalRecords.resolve, LocalRecords.resolve, LocalRecords.makeKey, LocalRecords.makeKey,
    nameTypeKey_congr h]

theorem toLower_writeQNameLoop (h : toLower s = toLower t) (start : Nat) :
    toLower (writeQNameLoop s start) = toLower (writeQNameLoop t start) := by
  have hlen := length_eq_of_toLower h
  fun_induction writeQNameLoop s start with
  | case2 start hend => rw [writeQNameLoop_end (by omega)]
  | case1 start hin label ih =>
    have hlabel : toLower label = toLower ((t.drop start).takeWhile (· ≠ dot)) := by
      have hdrop : toLower (s.drop start) = toLower (t.drop start) := by
        rw [toLower, toLower, List.map_drop, List.map_drop]
        exact congrArg (List.drop start) h
      rw [show label = (s.drop start).takeWhile (· ≠ dot) from rfl, toLower_takeWhile, hdrop,
        toLower_takeWhile]
    have hlabellen := length_eq_of_toLower hlabel
    rw [writeQNameLoop.eq_def t, if_pos (by omega)]
    dsimp only
    rw [← hlabellen, toLower_append, toLower_append, ih]
    congr 1
    exact congrArg (lowerByte (UInt8.ofNat label.length) :: ·) hlabel

/-- The written names differ in letter case only. -/
theorem toLower_writeQName (h : toLower s = toLower t) :
    toLower (writeQName s) = toLower (writeQName t) := by
  have hlen := length_eq_of_toLower h
  rw [writeQName, writeQName]
  by_cases hs : s = []
  · subst hs
    obtain rfl := List.eq_nil_of_length_eq_zero hlen.symm
    rfl
  · have ht : t ≠ [] := by
      rintro rfl
      exact hs (List.eq_nil_of_length_eq_zero hlen)
    rw [if_neg (by simpa using hs), if_neg (by simpa using ht)]
    exact toLower_writeQNameLoop h 0

end

/-! ## Two spellings of a question -/

/-- Equal questions, up to the letter case of the name. -/
structure SameUpToCase (question question' : DnsQuestion) : Prop where
  qname : toLower question.qname = toLower question'.qname
  qtype : question.qtype = question'.qtype
  qclass : question.qclass = question'.qclass

theorem toLower_nameText {ls ms : List Label} (h : foldedLabels ls = foldedLabels ms) :
    toLower (nameText ls) = toLower (nameText ms) := by
  have hfold : ∀ ls : List Label, toLower (nameText ls) = dotJoin (foldedLabels ls) := by
    intro ls
    rw [nameText, toLower_dotJoin, List.map_map]
    rfl
  rw [hfold, hfold, h]

theorem length_encodeName_of_folded {ls ms : List Label} (h : foldedLabels ls = foldedLabels ms) :
    (encodeName ls).length = (encodeName ms).length := by
  induction ls generalizing ms with
  | nil =>
    obtain rfl := List.map_eq_nil_iff.mp h.symm
    rfl
  | cons l ls ih =>
    cases ms with
    | nil => simp [foldedLabels] at h
    | cons m ms =>
      obtain ⟨hl, hrest⟩ := List.cons.inj h
      rw [encodeName_cons, encodeName_cons, List.length_append, List.length_append,
        l.length_encode, m.length_encode, length_eq_of_toLower hl, ih hrest]

/-- Two accepted case variants have the same header, and the same question up to case. -/
theorem CaseVariants.parse {p q : Bytes} {header header' : DnsHeader}
    {question question' : DnsQuestion} (hp : (parseDnsQuery p).val = some (header, question))
    (hq : (parseDnsQuery q).val = some (header', question')) (h : CaseVariants p q) :
    header = header' ∧ SameUpToCase question question' := by
  obtain ⟨ls, ms, hls, hms, hfolded, hhead, htail⟩ := h
  obtain ⟨ls', hp', rfl, rfl⟩ := parseDnsQuery_iff.mp hp
  obtain ⟨ms', hq', rfl, rfl⟩ := parseDnsQuery_iff.mp hq
  obtain rfl := encodeName_unique hls hp'.name
  obtain rfl := encodeName_unique hms hq'.name
  have hfit := hp'.complete
  have hlen := length_encodeName_of_folded hfolded
  refine ⟨?_, toLower_nameText hfolded, ?_, ?_⟩
  · simp only [headerAt, hhead.readU16 (Nat.zero_le _) (by omega : 0 + 1 < 12),
      hhead.readU16 (Nat.zero_le _) (by omega : 2 + 1 < 12),
      hhead.readU16 (Nat.zero_le _) (by omega : 4 + 1 < 12),
      hhead.readU16 (Nat.zero_le _) (by omega : 6 + 1 < 12),
      hhead.readU16 (Nat.zero_le _) (by omega : 8 + 1 < 12),
      hhead.readU16 (Nat.zero_le _) (by omega : 10 + 1 < 12)]
  · simp only [questionAt, ← hlen]
    exact (htail.readU16 (by omega) (by omega)).symm
  · simp only [questionAt, ← hlen]
    exact (htail.readU16 (by omega) (by omega)).symm

/-! ## The responses -/

section
variable {header : DnsHeader} {question question' : DnsQuestion}

theorem sameButNames_buildEmptyResponse (h : SameUpToCase question question') :
    SameButNames (writeQName question.qname) (writeQName question'.qname)
      (buildEmptyResponse header question) (buildEmptyResponse header question') := by
  have hquestion := @SameButNames.question (writeQName question.qname)
    (writeQName question'.qname) (buildResponseHeader header 1 0)
    (writeU16 question.qtype ++ writeU16 question.qclass) rfl rfl
  simpa only [buildEmptyResponse, appendQuestion, ← h.qtype, ← h.qclass, List.append_assoc]
    using hquestion

theorem sameButNames_buildResponse (h : SameUpToCase question question') (type : UInt16)
    (rdata : Bytes) :
    SameButNames (writeQName question.qname) (writeQName question'.qname)
      (buildResponse header question type rdata) (buildResponse header question' type rdata) := by
  have hanswer := @SameButNames.answer (writeQName question.qname)
    (writeQName question'.qname) (buildResponseHeader header 1 1)
    (writeU16 question.qtype ++ writeU16 question.qclass)
    (writeU16 type ++ writeU16 1 ++ writeU32 60 ++ writeU16 (UInt16.ofNat rdata.length) ++ rdata)
    rfl rfl
  simpa only [buildResponse, appendQuestion, ← h.qtype, ← h.qclass, List.append_assoc]
    using hanswer

theorem sameButNames_sinkhole (h : SameUpToCase question question') (pton : InetPton) :
    SameButNames (writeQName question.qname) (writeQName question'.qname)
      (sinkhole pton header question) (sinkhole pton header question') := by
  rw [sinkhole, sinkhole, ← h.qtype]
  split_ifs
  · exact sameButNames_buildResponse h _ _
  · exact sameButNames_buildResponse h _ _
  · exact sameButNames_buildEmptyResponse h

theorem sameButNames_localResponse (h : SameUpToCase question question') (pton : InetPton)
    (value : Bytes) (type : UInt16) :
    SameButNames (writeQName question.qname) (writeQName question'.qname)
      (localResponse pton header question value type)
      (localResponse pton header question' value type) := by
  rw [localResponse, localResponse]
  split_ifs
  · exact sameButNames_buildResponse h _ _
  · exact sameButNames_buildResponse h _ _
  · exact sameButNames_buildResponse h _ _
  · exact sameButNames_buildResponse h _ _
  · exact sameButNames_buildResponse h _ _
  · exact sameButNames_buildResponse h _ _
  · exact .nothing

/-- The blocklist and the local records answer both spellings or neither. -/
theorem answerLocally_congr (h : SameUpToCase question question') (server : DnsServer)
    (blocklist : Option Blocklist) :
    (server.answerLocally blocklist header question = none ∧
        server.answerLocally blocklist header question' = none) ∨
      ∃ r r', server.answerLocally blocklist header question = some r ∧
        server.answerLocally blocklist header question' = some r' ∧ r.source = r'.source ∧
        ¬ r.isForeign ∧
        SameButNames (writeQName question.qname) (writeQName question'.qname) r.response
          r'.response := by
  have hblocked := isBlockedBy_congr h.qname blocklist
  have hresolve := resolve_congr h.qname server.localRecords question.qtype
  cases hb : isBlockedBy blocklist question.qname with
  | true =>
    refine .inr ⟨⟨sinkhole server.pton header question, .resolveBlocklist, []⟩,
      ⟨sinkhole server.pton header question', .resolveBlocklist, []⟩, ?_, ?_, rfl, ?_,
      sameButNames_sinkhole h server.pton⟩
    · rw [answerLocally, if_pos hb]
    · rw [answerLocally, if_pos (hblocked ▸ hb)]
    · simp [ResolveResult.isForeign]
  | false =>
    have hb' := hblocked ▸ hb
    cases hr : server.localRecords.resolve question.qname question.qtype with
    | none =>
      have hr' : server.localRecords.resolve question'.qname question'.qtype = none := by
        rw [← h.qtype, ← hresolve, hr]
      exact .inl ⟨answerLocally_none header hb hr, answerLocally_none header hb' hr'⟩
    | some r =>
      obtain ⟨value, type⟩ := r
      have hr' : server.localRecords.resolve question'.qname question'.qtype =
          some (value, type) := by
        rw [← h.qtype, ← hresolve, hr]
      refine .inr ⟨_, _, answerLocally_record header hb hr, answerLocally_record header hb' hr',
        rfl, ?_, sameButNames_localResponse h server.pton value type⟩
      simp [ResolveResult.isForeign]

end

/-- Two spellings of a query, in the same state and at the same time, whatever the upstreams then
do: the same stage answers under the same cache key. A local answer repeats the spelling of the
query and is the same otherwise; a cached one is the same. -/
theorem letter_case_irrelevant (server : DnsServer) (s : ServerState) {p q : Bytes}
    {header header' : DnsHeader} {question question' : DnsQuestion}
    (hp : (parseDnsQuery p).val = some (header, question))
    (hq : (parseDnsQuery q).val = some (header', question')) (hcase : CaseVariants p q)
    {env env' : QueryEnv} (hnow : env.getNow = env'.getNow) :
    let result := (server.resolveQuery s p header question env).result
    let result' := (server.resolveQuery s q header' question' env').result
    result.source = result'.source ∧
      makeCacheKey question.qname question.qtype =
        makeCacheKey question'.qname question'.qtype ∧
      (result.source = .resolveBlocklist ∨ result.source = .resolveLocal →
        toLower (writeQName question.qname) = toLower (writeQName question'.qname) ∧
          SameButNames (writeQName question.qname) (writeQName question'.qname) result.response
            result'.response) ∧
      (result.source = .resolveCache → result.response = result'.response) := by
  obtain ⟨rfl, hsame⟩ := hcase.parse hp hq
  have hkey : makeCacheKey question.qname question.qtype =
      makeCacheKey question'.qname question'.qtype := by
    rw [makeCacheKey, makeCacheKey, nameTypeKey_congr hsame.qname, hsame.qtype]
  have hlookup : lookupCache s.cache (Job.key ⟨p, header, question⟩) env.getNow =
      lookupCache s.cache (Job.key ⟨q, header, question'⟩) env'.getNow := by
    rw [Job.key, Job.key, hkey, hnow]
  have hspec := server.resolveQuery_spec s ⟨p, header, question⟩ env
  have hspec' := server.resolveQuery_spec s ⟨q, header, question'⟩ env'
  dsimp only at hspec hspec'
  generalize server.resolveQuery s p header question env = outcome at hspec ⊢
  generalize server.resolveQuery s q header question' env' = outcome' at hspec' ⊢
  intro result result'
  rcases answerLocally_congr hsame server s.blocklist with
    ⟨hnone, hnone'⟩ | ⟨r, r', hr, hr', hsource, hforeign, hbytes⟩
  · cases hspec with
    | locally found => exact absurd (hnone.symm.trans found) (by simp)
    | hit _ found =>
      cases hspec' with
      | locally found' => exact absurd (hnone'.symm.trans found') (by simp)
      | hit _ found' =>
        rw [hlookup] at found
        exact ⟨rfl, hkey, by simp [result], fun _ => Option.some.inj (found.symm.trans found')⟩
      | miss _ notFound' =>
        rw [hlookup] at found
        exact absurd (notFound'.symm.trans found) (by simp)
    | miss _ notFound =>
      cases hspec' with
      | locally found' => exact absurd (hnone'.symm.trans found') (by simp)
      | hit _ found' =>
        rw [hlookup] at notFound
        exact absurd (notFound.symm.trans found') (by simp)
      | miss => exact ⟨rfl, hkey, by simp [result], by simp [result]⟩
  · cases hspec with
    | hit notLocal | miss notLocal => exact absurd (hr.symm.trans notLocal) (by simp)
    | locally found =>
      cases hspec' with
      | hit notLocal' | miss notLocal' => exact absurd (hr'.symm.trans notLocal') (by simp)
      | locally found' =>
        obtain rfl := Option.some.inj (hr.symm.trans found)
        obtain rfl := Option.some.inj (hr'.symm.trans found')
        exact ⟨hsource, hkey, fun _ => ⟨toLower_writeQName hsame.qname, hbytes⟩,
          fun hcached => absurd (.inr hcached) hforeign⟩

/-- `a` and `A` are the same name to a server that blocks `a`. -/
theorem letter_case_irrelevant_blocked :
    let result := ((plainServer true).resolveQuery ⟨some ⟨{[97]}⟩, none⟩ (plainQuery 7 [97] 1 1)
      ⟨7, 256, 1, 0, 0, 0⟩ ⟨[97], 1, 1, 12, 7⟩ ⟨0, noReply, 0, 0⟩).result
    let result' := ((plainServer true).resolveQuery ⟨some ⟨{[97]}⟩, none⟩ (plainQuery 7 [65] 1 1)
      ⟨7, 256, 1, 0, 0, 0⟩ ⟨[65], 1, 1, 12, 7⟩ ⟨0, udpDelivers [1], 9, 9⟩).result
    result.source = result'.source ∧ makeCacheKey [97] 1 = makeCacheKey [65] 1 ∧
      (result.source = .resolveBlocklist ∨ result.source = .resolveLocal →
        toLower (writeQName [97]) = toLower (writeQName [65]) ∧
          SameButNames (writeQName [97]) (writeQName [65]) result.response result'.response) ∧
      (result.source = .resolveCache → result.response = result'.response) := by
  have hhead : ∀ i < 12, (plainQuery 7 [65] 1 1)[i]? = (plainQuery 7 [97] 1 1)[i]? := by decide
  have htail : ∀ i < 19, 15 ≤ i → (plainQuery 7 [65] 1 1)[i]? = (plainQuery 7 [97] 1 1)[i]? := by
    decide
  refine @letter_case_irrelevant (plainServer true) ⟨some ⟨{[97]}⟩, none⟩ (plainQuery 7 [97] 1 1)
    (plainQuery 7 [65] 1 1) ⟨7, 256, 1, 0, 0, 0⟩ ⟨7, 256, 1, 0, 0, 0⟩ ⟨[97], 1, 1, 12, 7⟩
    ⟨[65], 1, 1, 12, 7⟩ (by decide +kernel) (by decide +kernel)
    ⟨[⟨[97], by decide, by decide⟩], [⟨[65], by decide, by decide⟩], by decide, by decide,
      by decide, ⟨rfl, fun i _ hi => hhead i hi⟩, ⟨rfl, fun i hl hi => htail i hi hl⟩⟩
    ⟨0, noReply, 0, 0⟩ ⟨0, udpDelivers [1], 9, 9⟩ rfl

end Gravastar
