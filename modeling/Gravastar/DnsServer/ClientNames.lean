import Gravastar.DnsPacket.DecodedAnswers
import Gravastar.DnsServer.Forwarding
import Gravastar.DnsServer.Settled

/-!
# The names of clients

`ResolveClientName` writes a PTR query for the reverse name of the client's
address by hand and resolves it like any other. Local records can say how a
client is to be called in the log.
-/

namespace Gravastar
open Traced

/-! ## The query for an address -/

theorem length_decimal_le (b : UInt8) : (decimal b.toNat).length ≤ 3 := by
  rw [decimal, List.length_map, Nat.length_toDigits_le_iff (by omega) (by omega)]
  have := b.toNat_lt
  omega

theorem dot_notMem_decimal (n : Nat) : dot ∉ decimal n := fun h => by
  have := (decimal_digit h).1
  simp [dot] at this

def octetLabel (b : UInt8) : Label where
  bytes := decimal b.toNat
  nonempty := List.length_pos_iff.mpr (decimal_ne_nil _)
  short := (length_decimal_le b).trans (by omega)

/-- The labels of `in-addr.arpa`. -/
def reverseZone : List Label :=
  [⟨ascii "in-addr", by decide, by decide⟩, ⟨ascii "arpa", by decide, by decide⟩]

/-- The labels of `d.c.b.a.in-addr.arpa` for the address `a.b.c.d`. -/
def reverseLabels (addr : Vector UInt8 4) : List Label :=
  addr.toList.reverse.map octetLabel ++ reverseZone

def reverseName (addr : Vector UInt8 4) : Bytes := nameText (reverseLabels addr)

theorem dotFree_reverseLabels (addr : Vector UInt8 4) : DotFree (reverseLabels addr) := by
  intro l hl
  rcases List.mem_append.mp hl with hl | hl
  · obtain ⟨b, -, rfl⟩ := List.mem_map.mp hl
    exact dot_notMem_decimal _
  · exact (by decide : DotFree reverseZone) l hl

/-- Different clients have different names there. -/
theorem reverseName_injective : Function.Injective reverseName := by
  intro addr addr' h
  have hdotted : ∀ a, ∀ l ∈ (reverseLabels a).map Label.bytes, dot ∉ l := fun a l hl => by
    obtain ⟨label, hlabel, rfl⟩ := List.mem_map.mp hl
    exact dotFree_reverseLabels a label hlabel
  have hlabels := dotJoin_injective (hdotted addr) (hdotted addr') (by simp [reverseLabels,
    reverseZone]) (by simp [reverseLabels, reverseZone]) h
  simp only [reverseLabels, List.map_append, List.append_left_inj, List.map_map] at hlabels
  have hoctet : Function.Injective (Label.bytes ∘ octetLabel) := fun a b hab =>
    UInt8.toNat_inj.mp (decimal_injective hab)
  have hlists := List.reverse_injective (List.map_injective_iff.mpr hoctet hlabels)
  exact Vector.toList_inj.mp hlists

/-- The name that is put together from the parts of the address. -/
theorem reverseName_eq (addr : Vector UInt8 4) :
    let parts := addr.toList.map fun b => decimal b.toNat
    parts.getD 3 [] ++ [dot] ++ parts.getD 2 [] ++ [dot] ++ parts.getD 1 [] ++ [dot] ++
      parts.getD 0 [] ++ ascii ".in-addr.arpa" = reverseName addr := by
  obtain ⟨a, b, c, d, h⟩ := List.length_eq_four.mp addr.length_toList
  have hzone : ascii ".in-addr.arpa" = dot :: (ascii "in-addr" ++ dot :: ascii "arpa") := by decide
  simp [h, reverseName, reverseLabels, reverseZone, octetLabel, hzone]

theorem clientNameQuery_eq (addr : Vector UInt8 4) :
    clientNameQuery (addr.toList.map fun b => decimal b.toNat) =
      [0x42, 0x42, 0x01, 0x00, 0x00, 0x01, 0x00, 0x00, 0x00, 0x00, 0x00, 0x00] ++
        encodeName (reverseLabels addr) ++ (writeU16 dnsTypePtr ++ writeU16 1) := by
  have hd := dotFree_reverseLabels addr
  obtain ⟨l, ls, hlabels⟩ := List.exists_cons_of_ne_nil (l := reverseLabels addr)
    (by simp [reverseLabels, reverseZone])
  have hname : writeQNameLoop (reverseName addr) 0 = encodeName (reverseLabels addr) := by
    rw [reverseName]
    rw [hlabels] at hd ⊢
    simpa using writeQNameLoop_nameText [] (.inl rfl) l ls hd []
  have htype : ([0x00, UInt8.ofNat dnsTypePtr.toNat, 0x00, 0x01] : Bytes) =
      writeU16 dnsTypePtr ++ writeU16 1 := by decide
  rw [clientNameQuery, reverseName_eq addr, hname, htype]

/-- The query asks for one name. -/
theorem isQuery_clientNameQuery (addr : Vector UInt8 4) :
    let query := clientNameQuery (addr.toList.map fun b => decimal b.toNat)
    IsQuery query (reverseLabels addr) ∧ (questionAt query (reverseLabels addr)).qtype =
      dnsTypePtr := by
  intro query
  have h4 : query.drop 4 = writeU16 1 ++ _ := congrArg (List.drop 4) (clientNameQuery_eq addr)
  have h12 : query.drop 12 =
      encodeName (reverseLabels addr) ++ (writeU16 dnsTypePtr ++ writeU16 1) :=
    congrArg (List.drop 12) (clientNameQuery_eq addr)
  have htype : query.drop (12 + (encodeName (reverseLabels addr)).length) =
      writeU16 dnsTypePtr ++ writeU16 1 := drop_of_drop h12 rfl
  have hlen := length_of_drop h12 (length_encodeName_pos _)
  rw [List.length_append, length_writeU16, length_writeU16] at hlen
  refine ⟨⟨?_, h12 ▸ List.prefix_append .., hlen.le⟩, readU16_of_drop htype⟩
  rw [readU16_of_drop h4]
  decide

/-- Every address has a query, for its name there and the type PTR. -/
theorem exists_clientNameJob (addr : Vector UInt8 4) :
    ∃ job, clientNameJob addr = some job ∧ job.question.qname = reverseName addr ∧
      job.question.qtype = dnsTypePtr := by
  let query := clientNameQuery (addr.toList.map fun b => decimal b.toNat)
  obtain ⟨hquery, htype⟩ := isQuery_clientNameQuery addr
  have hparts : split (inetNtop addr) dot = addr.toList.map fun b => decimal b.toNat := by
    refine split_dotJoin (fun l hl => ?_) ?_
    · obtain ⟨b, -, rfl⟩ := List.mem_map.mp hl
      exact dot_notMem_decimal _
    · exact List.ne_nil_of_length_pos (by simp)
  have hparsed : (parseDnsQuery query).val =
      some (headerAt query, questionAt query (reverseLabels addr)) :=
    parseDnsQuery_iff.mpr ⟨_, hquery, rfl, rfl⟩
  refine ⟨⟨query, headerAt query, questionAt query (reverseLabels addr)⟩, ?_, rfl, htype⟩
  rw [clientNameJob, hparts, if_neg (by simp), parsedJob, hparsed]
  rfl

/-! ## The name in a response -/

/-- The client's name in the answer from a record is the name that the record has as its value. -/
theorem clientNameIn_buildPTRResponse (header : DnsHeader) {question : DnsQuestion}
    {ls labels : List Label} {value : Bytes} (hd : DotFree ls)
    (htext : question.qname = nameText ls) (hvalue : WritesName value labels) (hne : labels ≠ [])
    (hfit : (encodeName labels).length ≤ 65535) :
    clientNameIn (buildPTRResponse header question value) = nameText labels := by
  have heq := writeQName_eq hvalue
  set msg := buildPTRResponse header question value with hmsg
  obtain ⟨offset, hrdata, hlen, hdecode⟩ :=
    decodeMessage_buildResponse header hd htext dnsTypePtr (writeQName value)
  rw [if_pos (heq ▸ Nat.lt_succ_of_le hfit)] at hdecode
  have hanswers := answers_of_decodeMessage hdecode
  have hname : NameUpToEnd msg labels offset := nameUpToEnd (hrdata.trans heq) (heq ▸ hlen)
  have hfirst : firstPtr msg =
      some ⟨dnsTypePtr, UInt16.ofNat (writeQName value).length, offset⟩ := by
    rw [firstPtr, hmsg, buildPTRResponse, hanswers]
    rfl
  have htarget : (extractFirstPtrTarget msg).val = some (nameText labels) :=
    extractFirstPtrTarget_eq_some.mpr ⟨_, _, hfirst, hname⟩
  rw [clientNameIn, htarget]
  simp [hne]

/-- A response without answers has none. -/
theorem clientNameIn_buildEmptyResponse (header : DnsHeader) (question : DnsQuestion) :
    clientNameIn (buildEmptyResponse header question) = ascii "-" := by
  set msg := buildEmptyResponse header question with hmsg
  have hcount : (readU16 msg 6).val = 0 :=
    congrArg DnsHeader.ancount (headerAt_response header 1 0 (appendQuestion question))
  have hfirst : firstPtr msg = none := by
    rw [firstPtr, answers, hcount]
    split_ifs
    · rfl
    · cases questionsEnd msg (nameEnd msg) (readU16 msg 4).val.toNat 12 <;> rfl
  rw [clientNameIn, val_extractFirstPtrTarget, hfirst]
  rfl

/-! ## Every run -/

/-- A query that a worker looks up or forwards has no local record. -/
def Stage.Unrecorded (server : DnsServer) : Stage → Prop
  | .looking job _ | .forwarding job _ =>
    server.localRecords.resolve job.question.qname job.question.qtype = none
  | .parsing | .sending _ | .naming _ | .logging _ _ | .returning => True

namespace DnsServer

variable {server : DnsServer} {d : Datagram} {env : QueryEnv} {s s' : ServerState}
  {stage stage' : Stage} {out : TurnOutput}

theorem Turn.unrecorded (h : server.Turn d env s stage out stage' s')
    (hstage : stage.Unrecorded server) : stage'.Unrecorded server := by
  have hafter : ∀ (a : Answer) client, (Stage.afterAnswer a client).Unrecorded server :=
    fun a client => by cases client <;> trivial
  cases h with
  | waits asks notFound => exact (answerLocally_eq_none.mp notFound).2
  | miss => exact hstage
  | answered | hit | forwarded => exact hafter ..
  | sent =>
    split_ifs
    · trivial
    · trivial
  | refused | noName | logged | done => trivial

/-- Where the reverse name of the client has a record, the name to log is found in the turn in which
the worker asks for it. -/
theorem Turn.naming {answers : List Answer} {a : Answer} {name : Bytes}
    (h : server.Turn d env s stage out (.logging a name) s') (hstage : stage.Unrecorded server)
    (hholds : stage.Holds answers d)
    (hrecord : server.localRecords.resolve (reverseName d.clientAddr) dnsTypePtr ≠ none) :
    stage = .naming a ∧ ∃ job result, clientNameJob d.clientAddr = some job ∧
      server.answerLocally s.blocklist job.header job.question = some result ∧
      name = clientNameIn result.response := by
  obtain ⟨job, hjob, hqname, hqtype⟩ := exists_clientNameJob d.clientAddr
  rw [← hqname, ← hqtype] at hrecord
  -- what was looked up or forwarded is another query
  have hother : ∀ job' client answer, (Stage.looking job' client).Holds answers d →
      (Stage.looking job' client).Unrecorded server →
      .logging a name ≠ Stage.afterAnswer answer client := by
    rintro job' (_ | b) answer hholds hstage heq
    · cases heq
    · obtain rfl := Option.some.inj (hjob.symm.trans hholds.2)
      exact hrecord hstage
  generalize hlogging : Stage.logging a name = stage' at h
  cases h with
  | @answered _ client job' result asks found =>
    cases asks with
    | client parsed => cases hlogging
    | name parsed =>
      obtain ⟨rfl, rfl⟩ := Stage.logging.inj hlogging
      exact ⟨rfl, job', result, parsed, found, rfl⟩
  | hit => exact absurd hlogging (hother _ _ _ hholds hstage)
  | @forwarded job' client =>
    refine absurd hlogging (hother job' _ _ ?_ hstage)
    cases client <;> exact hholds
  | sent => split_ifs at hlogging
  | noName unparsed => cases hjob.symm.trans unparsed
  | refused | waits | miss | logged | done => cases hlogging

end DnsServer

namespace Service

variable {ι : Type} [DecidableEq ι] [Fintype ι]

theorem Step.unrecorded {server : DnsServer} {s s' : Service ι} {e : ServiceEvent ι}
    {out : ServiceOutput ι} (h : Step server s e out s')
    (hs : ∀ w, (s.stages w).Unrecorded server) : ∀ w, (s'.stages w).Unrecorded server := by
  cases h with
  | @queue _ _ out _ of_event step =>
    cases out with
    | returned w d =>
      intro v
      dsimp only [stagesAfter]
      by_cases hv : v = w
      · rw [hv, Function.update_self]
        trivial
      · rw [Function.update_of_ne hv]
        exact hs v
    | none | enqueued | returnedFalse => exact hs
  | @turned w d env out stage shared handling going turn =>
    intro v
    dsimp only
    by_cases hv : v = w
    · rw [hv, Function.update_self]
      exact turn.unrecorded (hs w)
    · rw [Function.update_of_ne hv]
      exact hs v
  | setDomains | nothing => exact hs

/-- A worker in `HandleQuery` is still where it was, or had a turn. -/
theorem Step.stage_eq {server : DnsServer} {s s' : Service ι} {e : ServiceEvent ι}
    {out : ServiceOutput ι} (h : Step server s e out s') {w : ι} {d : Datagram}
    (hworker : s'.jobs.workers w = .handling d) (hparsed : s'.stages w ≠ .parsing)
    (hgoing : s'.stages w ≠ .returning) :
    s.jobs.workers w = .handling d ∧
      (s'.stages w = s.stages w ∧ (∀ env, e ≠ .turn w env) ∨
        ∃ env turned shared, e = .turn w env ∧
          server.Turn d env s.shared (s.stages w) turned (s'.stages w) shared) := by
  cases h with
  | @queue e e' out jobs of_event step =>
    have hother : ∀ env, e ≠ .turn w env := by
      rintro env rfl
      rw [queueEvent] at of_event
      split_ifs at of_event with hreturning
      obtain rfl := Option.some.inj of_event
      cases step <;> exact hgoing hreturning
    -- the worker of the step does not come out of it in `HandleQuery`
    have hstate : ∀ {v : ι} {state : WorkerState Datagram} (queue : List Datagram),
        (∀ d, state ≠ .handling d) →
        ({ s.jobs.toJobQueue with queue }.setWorker v state).workers w = .handling d →
        s.jobs.workers w = .handling d := by
      intro v state queue hnot hv
      rw [JobQueue.workers_setWorker] at hv
      split_ifs at hv
      · exact absurd hv (hnot d)
      · exact hv
    cases step with
    | enqueue | stopWorkers | wakeUp | nothing => exact ⟨hworker, .inl ⟨rfl, hother⟩⟩
    | waits | returnsFalse | handled =>
      exact ⟨hstate s.jobs.queue (by simp) hworker, .inl ⟨rfl, hother⟩⟩
    | returns v job rest turn front =>
      dsimp only [stagesAfter] at hworker hparsed ⊢
      rw [JobQueue.workers_setWorker] at hworker
      split_ifs at hworker with hwv
      · rw [hwv, Function.update_self] at hparsed
        exact absurd rfl hparsed
      · exact ⟨hworker, .inl ⟨Function.update_of_ne hwv .., hother⟩⟩
  | @turned v d' env out stage shared handling going turn =>
    dsimp only at hworker ⊢
    by_cases hwv : w = v
    · subst hwv
      obtain rfl := WorkerState.handling.inj (handling.symm.trans hworker)
      rw [Function.update_self]
      exact ⟨hworker, .inr ⟨env, out, shared, rfl, turn⟩⟩
    · refine ⟨hworker, .inl ⟨Function.update_of_ne hwv .., ?_⟩⟩
      rintro _ ⟨⟩
      exact hwv rfl
  | setDomains => exact ⟨hworker, .inl ⟨rfl, by simp⟩⟩
  | nothing _ still =>
    refine ⟨hworker, .inl ⟨rfl, ?_⟩⟩
    rintro env rfl
    exact still (by simp [Moves, hworker, WorkerState.handles])

section
variable (server : DnsServer) (start : ServerState) (es : List (ServiceEvent ι))

theorem run_unrecorded (w : ι) :
    (((machine server start).after es).stages w).Unrecorded server := by
  induction es generalizing w with
  | nil => trivial
  | cons e es ih => exact (run_step server start es e).unrecorded ih w

/-- Where a worker is in `HandleQuery` once it has parsed the packet, its last turn has brought
it. -/
theorem exists_last_turn {w : ι} {d : Datagram}
    (hworker : ((machine server start).after es).jobs.workers w = .handling d)
    (hparsed : ((machine server start).after es).stages w ≠ .parsing)
    (hgoing : ((machine server start).after es).stages w ≠ .returning) :
    ∃ newer env older out shared, es = newer ++ .turn w env :: older ∧
      (∀ env', .turn w env' ∉ newer) ∧
      ((machine server start).after older).jobs.workers w = .handling d ∧
      server.Turn d env ((machine server start).after older).shared
        (((machine server start).after older).stages w) out
        (((machine server start).after es).stages w) shared := by
  induction es with
  | nil => exact absurd rfl hgoing
  | cons e es ih =>
    obtain ⟨hbefore, ⟨hstage, hother⟩ | ⟨env, out, shared, rfl, hturn⟩⟩ :=
      (run_step server start es e).stage_eq hworker hparsed hgoing
    · rw [hstage] at hparsed hgoing ⊢
      obtain ⟨newer, env, older, out, shared, rfl, hlast, hturn⟩ := ih hbefore hparsed hgoing
      refine ⟨e :: newer, env, older, out, shared, rfl, fun env' hmem => ?_, hturn⟩
      rcases List.mem_cons.mp hmem with rfl | hmem
      · exact hother env' rfl
      · exact hlast env' hmem
    · exact ⟨[], env, es, out, shared, rfl, fun _ => List.not_mem_nil, hbefore, hturn⟩

/-- The log calls a client by its local record: every address is looked up under a name of its own,
and whenever the logger is called for a client with a PTR record whose value is a name, it is called
with this name, unless the reverse name was blocked in the turn in which the worker asked for it,
which was its last one: then it is called with `-`. -/
theorem clients_named_by_records :
    (∀ addr, ∃ job, clientNameJob addr = some job ∧ job.question.qname = reverseName addr ∧
        job.question.qtype = dnsTypePtr) ∧
      Function.Injective reverseName ∧
      ∀ e w d a name value labels,
        (((machine server start).after es).step server e).1 = .turned w d (.logged a name) →
        server.localRecords.resolve (reverseName d.clientAddr) dnsTypePtr =
          some (value, dnsTypePtr) →
        WritesName value labels → labels ≠ [] → (encodeName labels).length ≤ 65535 →
        ∃ newer env older, es = newer ++ .turn w env :: older ∧ (∀ env', .turn w env' ∉ newer) ∧
          ((machine server start).after older).stages w = .naming a ∧
          name = if isBlockedBy ((machine server start).after older).shared.blocklist
            (reverseName d.clientAddr) then ascii "-" else nameText labels := by
  refine ⟨exists_clientNameJob, reverseName_injective, ?_⟩
  intro e w d a name value labels hlogged hrecord hvalue hne hfit
  have hstep := run_step server start es e
  rw [hlogged] at hstep
  generalize (machine server start).after (e :: es) = s' at hstep
  cases hstep with
  | @turned _ _ _ _ stage shared handling going turn =>
    have hstage : ((machine server start).after es).stages w = .logging a name := by
      generalize ((machine server start).after es).stages w = stage₀ at turn
      cases turn
      rfl
    obtain ⟨newer, env, older, out, shared, hes, hlast, hworker, hturn⟩ :=
      exists_last_turn server start es handling (by simp [hstage]) (by simp [hstage])
    rw [hstage] at hturn
    obtain ⟨hnaming, job, result, hjob, hfound, hname⟩ := hturn.naming
      (run_unrecorded server start older w)
      ((run_justified server start older).1 w d hworker) (by simp [hrecord])
    obtain ⟨job', hjob', hqname, hqtype⟩ := exists_clientNameJob d.clientAddr
    obtain rfl := Option.some.inj (hjob.symm.trans hjob')
    refine ⟨newer, env, older, hes, hlast, hnaming, ?_⟩
    rw [← hqname, ← hqtype] at hrecord
    rw [hname, ← hqname]
    split_ifs with hblocked
    · rw [answerLocally_blocked job.header hblocked] at hfound
      rw [← Option.some.inj hfound, sinkholeResult, hqtype]
      exact clientNameIn_buildEmptyResponse _ _
    · rw [answerLocally_record job.header (Bool.eq_false_iff.mpr hblocked) hrecord] at hfound
      rw [← Option.some.inj hfound, hqtype]
      exact clientNameIn_buildPTRResponse _ (dotFree_reverseLabels _) hqname hvalue hne hfit

end

/-- A server that knows the client 127.0.0.1 by name. -/
def printerServer : DnsServer :=
  { plainServer false with
    logger := true
    localRecords := .load
      [⟨ascii "1.0.0.127.in-addr.arpa", ascii "ptr", ascii "printer.home"⟩] }

/-- The client asks for `a`. -/
def printerDatagram : Datagram := ⟨plainQuery 7 [97] 1 1, #v[127, 0, 0, 1], 4000⟩

/-- The query comes in and gets its reply, and the client's name has been found. -/
def printerRun : List (ServiceEvent Unit) :=
  let env : QueryEnv := ⟨0, noReply, 0, 0⟩
  [.turn () env, .turn () env, .turn () env, .dequeue (), .receive printerDatagram ∅]

/-- The reply says that `a` is blocked. -/
def printerAnswer : Answer :=
  ⟨plainJob, ⟨sinkhole InetPton.own plainJob.header plainJob.question, .resolveBlocklist, []⟩, []⟩

theorem clients_named_by_records_printer :
    let m := machine printerServer (ServerState.initial (some ⟨{[97]}⟩) none)
    ∃ newer env older, printerRun = newer ++ .turn () env :: older ∧
      (∀ env', .turn () env' ∉ newer) ∧ (m.after older).stages () = .naming printerAnswer ∧
      ascii "printer.home" = if isBlockedBy (m.after older).shared.blocklist
        (reverseName printerDatagram.clientAddr) then ascii "-" else ascii "printer.home" :=
  (clients_named_by_records printerServer (ServerState.initial (some ⟨{[97]}⟩) none)
    printerRun).2.2 (.turn () ⟨0, noReply, 0, 0⟩) () printerDatagram printerAnswer
    (ascii "printer.home") (ascii "printer.home")
    [⟨ascii "printer", by decide, by decide⟩, ⟨ascii "home", by decide, by decide⟩]
    (by decide +kernel) (by decide +kernel) (by decide) (by decide) (by decide)

end Service

end Gravastar
