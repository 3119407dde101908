import Gravastar.Config
import Gravastar.DnsPacket.Targets
import Gravastar.DnsServer.Forwarding
import Gravastar.DnsServer.MxValues

/-!
# Answers from local records

The loader takes any non-empty value, and the encoders take any text: whether
an answer can be read depends on the value alone. The host of an MX record can
lose the digits it starts with on its way into the answer. A record answers
queries of its own type only, an alias included.
-/

namespace Gravastar

open DnsServer

/-! ## What can be carried -/

/-- The message answers the question from a record of this value: its one answer has an RDLENGTH
that covers the rest of the message, where the configured target or text stands. For MX the target
is the host that the value names, behind the two bytes of the preference. -/
def AnswersRecord (msg : Bytes) (question : DnsQuestion) (value : Bytes) : Prop :=
  DecodesTo msg question question.qtype fun offset =>
    if question.qtype = dnsTypeCname ∨ question.qtype = dnsTypePtr then
      TargetUpToEnd msg value offset
    else if question.qtype = dnsTypeMx then
      ∃ host, MxHost value host ∧ TargetUpToEnd msg host (offset + 2)
    else if question.qtype = dnsTypeTxt then StringsUpToEnd msg value offset
    else True

/-- The values that an answer of a type can carry: names with labels of 1 to 63 bytes and texts, as
long as RDLENGTH can count them, and any address. A host in an MX record has a preference in front
of it, or no digits that would be taken for one. -/
def CanCarry (qtype : UInt16) (value : Bytes) : Prop :=
  if qtype = dnsTypeCname ∨ qtype = dnsTypePtr then IsTarget 0 value
  else if qtype = dnsTypeMx then
    ∃ host, MxHost value host ∧ IsTarget 2 host ∧ (PreferenceHost value host ∨ KeepsDigits host)
  else if qtype = dnsTypeTxt then value.length ≤ 65279
  else True

/-- A host that starts with digits is not carried without a preference. -/
theorem Token.not_canCarry {t sign number rest : Bytes} (ht : Token t)
    (hcut : NumberCut t sign number rest) (hrest : rest ≠ []) (hlt : digitsValue number < 2 ^ 64) :
    ¬ CanCarry dnsTypeMx t := by
  rw [CanCarry, if_neg (by decide), if_pos rfl]
  rintro ⟨host, hhost, -, hpair | hkeeps⟩
  · exact ht.not_preferenceHost host hpair
  · have hwhole := ht.wholeValue blank_nil blank_nil
    rw [List.nil_append, List.append_nil] at hwhole
    obtain rfl := (existsUnique_mxHost t).unique hhost (.inr ⟨ht.not_preferenceHost, hwhole⟩)
    exact absurd (hkeeps sign number rest hcut hrest) (by omega)

theorem typeFromString_known {type : Bytes} (h : LocalRecords.typeFromString type ≠ 0) :
    LocalRecords.typeFromString type ∈
      [dnsTypeA, dnsTypeAaaa, dnsTypeCname, dnsTypePtr, dnsTypeMx, dnsTypeTxt] := by
  rw [LocalRecords.typeFromString] at h ⊢
  split_ifs at h ⊢ <;> simp_all

theorem length_txtRdata_le_iff (text : Bytes) :
    (txtRdata text).length ≤ 65535 ↔ text.length ≤ 65279 := by
  by_cases h : text = []
  · subst h
    decide
  · rw [length_txtRdata h]
    omega

theorem isTarget_iff {msg target : Bytes} {before offset : Nat}
    (hdrop : msg.drop offset = writeQName target)
    (hlen : offset + (writeQName target).length = msg.length) :
    before + (writeQName target).length ≤ 65535 ∧ TargetUpToEnd msg target offset ↔
      IsTarget before target := by
  rw [targetUpToEnd_iff hdrop hlen]
  constructor
  · rintro ⟨hfit, labels, h⟩
    exact ⟨labels, h, writeQName_eq h ▸ hfit⟩
  · rintro ⟨labels, h, hfit⟩
    exact ⟨(writeQName_eq h).symm ▸ hfit, labels, h⟩

section
variable {header : DnsHeader} {question : DnsQuestion} {ls : List Label} {value : Bytes}

theorem answersRecord_target (hd : DotFree ls) (htext : question.qname = nameText ls)
    (htype : question.qtype = dnsTypeCname ∨ question.qtype = dnsTypePtr) :
    AnswersRecord (buildResponse header question question.qtype (writeQName value)) question
      value ↔ IsTarget 0 value := by
  obtain ⟨offset, hdrop, hlen, hiff⟩ :=
    decodesTo_iff header hd htext question.qtype (writeQName value)
  rw [AnswersRecord, hiff, if_pos htype, ← isTarget_iff hdrop hlen, Nat.zero_add]

theorem answersRecord_mx (hd : DotFree ls) (htext : question.qname = nameText ls)
    (htype : question.qtype = dnsTypeMx) (preference : UInt16) :
    AnswersRecord (buildResponse header question question.qtype
        (mxRdata preference (parseMxValue value).2)) question value ↔
      ∃ host, MxHost value host ∧ IsTarget 2 host ∧
        (PreferenceHost value host ∨ KeepsDigits host) := by
  obtain ⟨offset, hdrop, hlen, hiff⟩ := decodesTo_iff header hd htext question.qtype
    (mxRdata preference (parseMxValue value).2)
  have hexchange : (buildResponse header question question.qtype
      (mxRdata preference (parseMxValue value).2)).drop (offset + 2) =
      writeQName (parseMxValue value).2 := drop_of_drop hdrop rfl
  have hrdlength : (mxRdata preference (parseMxValue value).2).length =
      2 + (writeQName (parseMxValue value).2).length := by
    rw [mxRdata, List.length_append, length_writeU16]
  rw [hrdlength, ← Nat.add_assoc] at hlen
  have htarget := @isTarget_iff _ _ 2 _ hexchange hlen
  rw [AnswersRecord, hiff, hrdlength, if_neg (by rw [htype]; decide), if_pos htype]
  constructor
  · rintro ⟨hfit, host, hhost, hread⟩
    have hkeeps : PreferenceHost value host ∨ KeepsDigits host := by
      rcases hhost with hpair | ⟨-, hwhole⟩
      · exact .inl hpair
      · by_contra hlost
        -- the first label is written without the digits, and the host is not read with them
        obtain ⟨hne, hshorter⟩ := hwhole.loses_digits (not_or.mp hlost).2
        exact not_targetUpToEnd_of_shorter hexchange hne hshorter hread
    refine ⟨host, hhost, ?_, hkeeps⟩
    rw [← hhost.parseMxValue_eq hkeeps] at hread ⊢
    exact htarget.mp ⟨hfit, hread⟩
  · rintro ⟨host, hhost, his, hkeeps⟩
    rw [← hhost.parseMxValue_eq hkeeps] at his
    obtain ⟨hfit, hread⟩ := htarget.mpr his
    exact ⟨hfit, host, hhost, hhost.parseMxValue_eq hkeeps ▸ hread⟩

theorem answersRecord_txt (hd : DotFree ls) (htext : question.qname = nameText ls)
    (htype : question.qtype = dnsTypeTxt) :
    AnswersRecord (buildResponse header question question.qtype (txtRdata value)) question value ↔
      value.length ≤ 65279 := by
  obtain ⟨offset, hdrop, -, hiff⟩ :=
    decodesTo_iff header hd htext question.qtype (txtRdata value)
  have hstrings : StringsUpToEnd
      (buildResponse header question question.qtype (txtRdata value)) value offset := by
    rw [StringsUpToEnd, hdrop]
    exact decodeStrings_txtRdata value
  rw [AnswersRecord, hiff, if_neg (by rw [htype]; decide), if_neg (by rw [htype]; decide),
    if_pos htype, length_txtRdata_le_iff, and_iff_left hstrings]

theorem answersRecord_address (hd : DotFree ls) (htext : question.qname = nameText ls)
    (htype : question.qtype = dnsTypeA ∨ question.qtype = dnsTypeAaaa) {rdata : Bytes}
    (hfit : rdata.length ≤ 65535) :
    AnswersRecord (buildResponse header question question.qtype rdata) question value := by
  obtain ⟨offset, -, -, hiff⟩ := decodesTo_iff header hd htext question.qtype rdata
  refine (hiff _).mpr ⟨hfit, ?_⟩
  rcases htype with htype | htype <;> rw [htype] <;> exact trivial

end

/-! ## The answer of the code -/

section
variable (pton : InetPton) (header : DnsHeader) (question : DnsQuestion) (value : Bytes)

theorem localResponse_a : localResponse pton header question value dnsTypeA =
    buildResponse header question dnsTypeA (ipv4Rdata pton value) := by
  rw [localResponse, if_pos rfl, buildAResponse]

theorem localResponse_aaaa : localResponse pton header question value dnsTypeAaaa =
    buildResponse header question dnsTypeAaaa (ipv6Rdata pton value) := by
  rw [localResponse, if_neg (by decide), if_pos rfl, buildAAAAResponse]

theorem localResponse_cname : localResponse pton header question value dnsTypeCname =
    buildResponse header question dnsTypeCname (writeQName value) := by
  rw [localResponse, if_neg (by decide), if_neg (by decide), if_pos rfl, buildCNAMEResponse]

theorem localResponse_ptr : localResponse pton header question value dnsTypePtr =
    buildResponse header question dnsTypePtr (writeQName value) := by
  rw [localResponse, if_neg (by decide), if_neg (by decide), if_neg (by decide), if_pos rfl,
    buildPTRResponse]

theorem localResponse_txt : localResponse pton header question value dnsTypeTxt =
    buildResponse header question dnsTypeTxt (txtRdata value) := by
  rw [localResponse, if_neg (by decide), if_neg (by decide), if_neg (by decide),
    if_neg (by decide), if_pos rfl, buildTXTResponse]

theorem localResponse_mx : localResponse pton header question value dnsTypeMx =
    buildResponse header question dnsTypeMx
      (mxRdata (parseMxValue value).1 (parseMxValue value).2) := by
  rw [localResponse, if_neg (by decide), if_neg (by decide), if_neg (by decide),
    if_neg (by decide), if_neg (by decide), if_pos rfl]
  rfl

end

section
variable {header : DnsHeader} {question : DnsQuestion} {ls : List Label} {value : Bytes}

/-- The answer can be read exactly if the value of the record can be carried. -/
theorem answersRecord_localResponse (pton : InetPton) (hd : DotFree ls)
    (htext : question.qname = nameText ls)
    (hknown : question.qtype ∈
      [dnsTypeA, dnsTypeAaaa, dnsTypeCname, dnsTypePtr, dnsTypeMx, dnsTypeTxt]) :
    AnswersRecord (localResponse pton header question value question.qtype) question value ↔
      CanCarry question.qtype value := by
  simp only [List.mem_cons, List.not_mem_nil, or_false] at hknown
  rcases hknown with h | h | h | h | h | h
  · rw [CanCarry, if_neg (by rw [h]; decide), if_neg (by rw [h]; decide),
      if_neg (by rw [h]; decide), iff_true, h, localResponse_a, ← h]
    exact answersRecord_address hd htext (.inl h) (by simp [ipv4Rdata])
  · rw [CanCarry, if_neg (by rw [h]; decide), if_neg (by rw [h]; decide),
      if_neg (by rw [h]; decide), iff_true, h, localResponse_aaaa, ← h]
    exact answersRecord_address hd htext (.inr h) (by simp [ipv6Rdata])
  · rw [CanCarry, if_pos (.inl h), ← answersRecord_target hd htext (.inl h), h,
      localResponse_cname]
  · rw [CanCarry, if_pos (.inr h), ← answersRecord_target hd htext (.inr h), h,
      localResponse_ptr]
  · rw [CanCarry, if_neg (by rw [h]; decide), if_pos h,
      ← answersRecord_mx hd htext h (parseMxValue value).1, h, localResponse_mx]
  · rw [CanCarry, if_neg (by rw [h]; decide), if_neg (by rw [h]; decide), if_pos h,
      ← answersRecord_txt hd htext h, h, localResponse_txt]

end

/-- What `ResolveQuery` did if it says that a local record answered. -/
theorem resolveQuery_local {server : DnsServer} {s : ServerState} {job : Job} {env : QueryEnv}
    (h : (server.resolveQuery s job.packet job.header job.question env).result.source =
      .resolveLocal) :
    ∃ value rtype, server.localRecords.resolve job.question.qname job.question.qtype =
        some (value, rtype) ∧
      (server.resolveQuery s job.packet job.header job.question env).result.response =
        localResponse server.pton job.header job.question value rtype := by
  have hspec := server.resolveQuery_spec s job env
  generalize server.resolveQuery s job.packet job.header job.question env = outcome at hspec h
  cases hspec with
  | hit | miss => cases h
  | locally found =>
    cases hb : isBlockedBy s.blocklist job.question.qname with
    | true =>
      rw [answerLocally_blocked job.header hb] at found
      obtain rfl := Option.some.inj found
      cases h
    | false =>
      cases hr : server.localRecords.resolve job.question.qname job.question.qtype with
      | none =>
        rw [answerLocally_none job.header hb hr] at found
        cases found
      | some r =>
        rw [answerLocally_record job.header hb hr] at found
        obtain rfl := Option.some.inj found
        exact ⟨r.1, r.2, rfl, rfl⟩

/-- A server with these local records and nothing else. -/
def localServer (records : List LocalRecord) : DnsServer :=
  { plainServer true with localRecords := .load records }

/-- The file with one alias, `a`, for the given target. -/
def aliasFile (target : Bytes) : Bytes :=
  ascii "[[record]]\nname = \"A.\"\ntype = \"CNAME\"\nvalue = \"" ++ target ++ ascii "\"\n"

theorem IsTarget.length_le {before : Nat} {text : Bytes} (h : IsTarget before text)
    (hdot : dot ∉ text) : text.length ≤ 63 := by
  obtain ⟨labels, ⟨-, htext⟩, -⟩ := h
  have hname : nameText labels = text := by
    rcases htext with htext | ⟨-, htext⟩
    · exact htext.symm
    · exact absurd (htext ▸ by simp) hdot
  cases labels with
  | nil =>
    rw [← hname]
    exact Nat.zero_le _
  | cons l ls => exact (nameText_eq_undotted hdot hname).1 ▸ l.short

/-- A name that is not blocked, with an alias in the table but no record of the type asked for: the
alias is not the answer, the query goes on to the cache and the upstreams. -/
theorem alias_not_followed (server : DnsServer) (records : List LocalRecord)
    (hserver : server.localRecords = .load records) (s : ServerState) (packet : Bytes)
    (header : DnsHeader) (question : DnsQuestion)
    (hfree : isBlockedBy s.blocklist question.qname = false)
    (halias : ∃ rec ∈ records, rec.IsFor question.qname dnsTypeCname)
    (hnone : ∀ rec ∈ records, ¬ rec.IsFor question.qname question.qtype) (env : QueryEnv) :
    let outcome := server.resolveQuery s packet header question env
    (∃ target, server.localRecords.resolve question.qname dnsTypeCname =
        some (target, dnsTypeCname)) ∧
      outcome.result.source ≠ .resolveLocal ∧
      (outcome.result.source = .resolveCache ∨ .resolveDot packet ∈ outcome.calls) := by
  intro outcome
  rw [hserver]
  refine ⟨?_, ?_⟩
  · obtain ⟨rec, hmem, hfor⟩ := halias
    cases hr : (LocalRecords.load records).resolve question.qname dnsTypeCname with
    | none => exact absurd hfor (LocalRecords.resolve_load_eq_none.mp hr rec hmem)
    | some r =>
      obtain ⟨target, rtype⟩ := r
      obtain ⟨rfl, -⟩ := LocalRecords.exists_record_of_resolve hr
      exact ⟨target, rfl⟩
  · have hr := hserver ▸ LocalRecords.resolve_load_eq_none.mpr hnone
    have hspec := server.resolveQuery_spec s ⟨packet, header, question⟩ env
    change server.Resolves s ⟨packet, header, question⟩ env outcome at hspec
    clear_value outcome
    cases hspec with
    | locally found =>
      rw [answerLocally_none header hfree hr] at found
      cases found
    | hit => exact ⟨by simp, .inl rfl⟩
    | miss =>
      refine ⟨by simp, .inr ?_⟩
      rw [upstreamCalls]
      split <;> simp

/-- The query for the addresses of `docs.local`. -/
def docsQuery (qtype : UInt8) : Bytes :=
  [0, 7, 1, 0, 0, 1, 0, 0, 0, 0, 0, 0, 4] ++ ascii "docs" ++ [5] ++ ascii "local" ++
    [0, 0, qtype, 0, 1]

/-- `docs.local` is an alias for `docs.example.com`. -/
def docsServer : DnsServer :=
  localServer [⟨ascii "docs.local", ascii "cname", ascii "docs.example.com"⟩]

theorem alias_not_followed_docs :
    let outcome := docsServer.resolveQuery ⟨none, none⟩ (docsQuery 28) ⟨7, 256, 1, 0, 0, 0⟩
      ⟨ascii "docs.local", 28, 1, 12, 16⟩ ⟨0, noReply, 0, 0⟩
    (∃ target, docsServer.localRecords.resolve (ascii "docs.local") dnsTypeCname =
        some (target, dnsTypeCname)) ∧
      outcome.result.source ≠ .resolveLocal ∧
      (outcome.result.source = .resolveCache ∨ .resolveDot (docsQuery 28) ∈ outcome.calls) :=
  alias_not_followed docsServer
    [⟨ascii "docs.local", ascii "cname", ascii "docs.example.com"⟩] rfl ⟨none, none⟩
    (docsQuery 28) ⟨7, 256, 1, 0, 0, 0⟩ ⟨ascii "docs.local", 28, 1, 12, 16⟩ (by decide)
    (by decide +kernel) (by decide +kernel) ⟨0, noReply, 0, 0⟩

/-- The query for the address of `docs.local` goes to the resolver. -/
theorem alias_forwarded :
    (parseDnsQuery (docsQuery 1)).val =
        some (⟨7, 256, 1, 0, 0, 0⟩, ⟨ascii "docs.local", 1, 1, 12, 16⟩) ∧
      docsServer.localRecords.resolve (ascii "docs.local") dnsTypeCname =
        some (ascii "docs.example.com", dnsTypeCname) ∧
      docsServer.localRecords.resolve (ascii "docs.local") dnsTypeA = none ∧
      (docsServer.resolveQuery ⟨none, none⟩ (docsQuery 1) ⟨7, 256, 1, 0, 0, 0⟩
        ⟨ascii "docs.local", 1, 1, 12, 16⟩ ⟨0, noReply, 0, 0⟩).result.source =
        .resolveUpstream := by
  decide +kernel

end Gravastar
