import Gravastar.DnsPacket.Answer
import Gravastar.DnsPacket.Walk
import Gravastar.DnsServer.Precedence

/-!
# What is handed to an upstream

The blocklist and the local records are asked about the first question of a
packet; the packet itself is handed on with all its questions. `questions` are
those that the walk of rebind protection meets in it.
-/

namespace Gravastar

open DnsServer

/-- The questions from `offset` on, up to the first one that does not decode. -/
def questionsFrom (packet : Bytes) : Nat → Nat → List WireQuestion
  | 0, _ => []
  | n + 1, offset =>
    match decodeQuestion packet offset with
    | none => []
    | some (question, e) => question :: questionsFrom packet n e

/-- The questions of a packet, as many of its QDCOUNT as decode one behind the other. -/
def questions (packet : Bytes) : List WireQuestion :=
  questionsFrom packet (readU16 packet 4).val.toNat 12

theorem length_questionsFrom_le (packet : Bytes) (n offset : Nat) :
    (questionsFrom packet n offset).length ≤ n := by
  fun_induction questionsFrom packet n offset <;> grind

/-- The walk gets behind the question section exactly if every question decodes. -/
theorem questionsEnd_isSome_iff (packet : Bytes) (n offset : Nat) :
    (questionsEnd packet (nameEnd packet) n offset).isSome ↔
      (questionsFrom packet n offset).length = n := by
  induction n generalizing offset with
  | zero => simp [questionsEnd, questionsFrom]
  | succ n ih =>
    rw [questionsEnd, questionsFrom, decodeQuestion, nameEnd]
    cases (readName packet offset).val with
    | none => simp
    | some r =>
      obtain ⟨name, e⟩ := r
      by_cases hfit : e + 4 ≤ packet.length
      · simpa [hfit, Nat.not_lt.mpr hfit] using ih (e + 4)
      · simp [hfit, Nat.lt_of_not_le hfit]

/-- The question that the filter is asked about is the first one that the walk meets. -/
theorem questions_of_parse {packet : Bytes} {header : DnsHeader} {question : DnsQuestion}
    (hp : (parseDnsQuery packet).val = some (header, question)) :
    ∃ rest, questions packet = ⟨question.qname, question.qtype, question.qclass⟩ :: rest ∧
      rest.length < header.qdcount.toNat := by
  obtain ⟨ls, hq, rfl, rfl⟩ := parseDnsQuery_iff.mp hp
  have hpos : 0 < (readU16 packet 4).val.toNat := by
    refine Nat.pos_of_ne_zero fun h => hq.qdcount ?_
    exact UInt16.toNat_inj.mp h
  obtain ⟨n, hn⟩ := Nat.exists_eq_add_one_of_ne_zero hpos.ne'
  obtain ⟨t, ht⟩ := hq.name
  have hfirst : decodeQuestion packet 12 = some (⟨(questionAt packet ls).qname,
      (questionAt packet ls).qtype, (questionAt packet ls).qclass⟩,
      12 + (encodeName ls).length + 4) := by
    rw [decodeQuestion, readName_of_drop ht.symm]
    exact if_pos hq.complete
  have hcount : (headerAt packet).qdcount.toNat = n + 1 := hn
  refine ⟨questionsFrom packet n (12 + (encodeName ls).length + 4), ?_, ?_⟩
  · rw [questions, hn, questionsFrom, hfirst]
  · rw [hcount]
    exact Nat.lt_succ_of_le (length_questionsFrom_le ..)

theorem answerLocally_eq_none {server : DnsServer} {blocklist : Option Blocklist}
    {header : DnsHeader} {question : DnsQuestion} :
    server.answerLocally blocklist header question = none ↔
      isBlockedBy blocklist question.qname = false ∧
        server.localRecords.resolve question.qname question.qtype = none := by
  constructor
  · intro h
    cases hb : isBlockedBy blocklist question.qname with
    | true => simp [answerLocally_blocked header hb] at h
    | false =>
      refine ⟨rfl, ?_⟩
      cases hr : server.localRecords.resolve question.qname question.qtype with
      | none => rfl
      | some r => simp [answerLocally_record header hb hr] at h
  · rintro ⟨hb, hr⟩
    exact answerLocally_none header hb hr

theorem answerLocally_of_calls {server : DnsServer} {s : ServerState} {job : Job}
    {env : QueryEnv}
    (h : (server.resolveQuery s job.packet job.header job.question env).calls ≠ []) :
    server.answerLocally s.blocklist job.header job.question = none := by
  have hspec := server.resolveQuery_spec s job env
  generalize server.resolveQuery s job.packet job.header job.question env = outcome at hspec h
  cases hspec with
  | locally | hit => exact absurd rfl h
  | miss notLocal => exact notLocal

/-- Where the packet goes to the resolver, its first question is neither blocked nor answered by a
local record, and with QDCOUNT 1 that is every question of the packet. -/
theorem forwarded_first_question (server : DnsServer) (s : ServerState) {packet : Bytes}
    {header : DnsHeader} {question : DnsQuestion}
    (hp : (parseDnsQuery packet).val = some (header, question)) (env : QueryEnv)
    (hcall : .resolveDot packet ∈ (server.resolveQuery s packet header question env).calls ∨
      .resolveUdp packet ∈ (server.resolveQuery s packet header question env).calls) :
    ∃ first rest, questions packet = first :: rest ∧
      isBlockedBy s.blocklist first.qname = false ∧
      server.localRecords.resolve first.qname first.qtype = none ∧
      (header.qdcount = 1 → rest = []) := by
  have hne : (server.resolveQuery s packet header question env).calls ≠ [] := by
    rcases hcall with h | h <;> exact List.ne_nil_of_mem h
  obtain ⟨hfree, hnone⟩ :=
    answerLocally_eq_none.mp (@answerLocally_of_calls server s ⟨packet, header, question⟩ env hne)
  obtain ⟨rest, hquestions, hlen⟩ := questions_of_parse hp
  refine ⟨_, rest, hquestions, hfree, hnone, fun hone => ?_⟩
  rw [hone] at hlen
  exact List.eq_nil_of_length_eq_zero (Nat.lt_one_iff.mp hlen)

/-- The query for `a` is forwarded by a server that blocks `b`. -/
theorem forwarded_first_question_plain :
    ∃ first rest, questions (plainQuery 7 [97] 1 1) = first :: rest ∧
      isBlockedBy (some ⟨{[98]}⟩) first.qname = false ∧
      (plainServer true).localRecords.resolve first.qname first.qtype = none ∧
      ((1 : UInt16) = 1 → rest = []) :=
  @forwarded_first_question (plainServer true) ⟨some ⟨{[98]}⟩, none⟩ (plainQuery 7 [97] 1 1)
    ⟨7, 256, 1, 0, 0, 0⟩ ⟨[97], 1, 1, 12, 7⟩ (by decide +kernel) ⟨0, noReply, 0, 0⟩
    (by decide +kernel)

/-- The query for `a` with a second question, for `b`. -/
def twoQuestions : Bytes :=
  [0, 7, 1, 0, 0, 2, 0, 0, 0, 0, 0, 0, 1, 97, 0, 0, 1, 0, 1, 1, 98, 0, 0, 1, 0, 1]

/-- `b` is blocked, and the packet that also asks for `b` goes to the resolver. -/
theorem forwarded_blocked_question :
    (parseDnsQuery twoQuestions).val = some (⟨7, 256, 2, 0, 0, 0⟩, ⟨[97], 1, 1, 12, 7⟩) ∧
      .resolveDot twoQuestions ∈ ((plainServer true).resolveQuery ⟨some ⟨{[98]}⟩, none⟩
        twoQuestions ⟨7, 256, 2, 0, 0, 0⟩ ⟨[97], 1, 1, 12, 7⟩ ⟨0, noReply, 0, 0⟩).calls ∧
      questions twoQuestions = [⟨[97], 1, 1⟩, ⟨[98], 1, 1⟩] ∧
      isBlockedBy (some ⟨{[98]}⟩) [98] = true := by
  decide +kernel

end Gravastar
