import Gravastar.DnsPacket.Answer
import Gravastar.DnsServer.Runs
import Gravastar.Lib.Marker
import Gravastar.QueryLogger

/-!
# What a log line says

Everything in a line but the client's name and the name of the query is plain.
These two are decoded from the wire and may hold any byte, also those that end a
line or start the next field.
-/

namespace Gravastar
open Traced

/-! ## The names that the decoders return -/

def IsName (text : Bytes) : Prop := ∃ labels, text = nameText labels

theorem isName_of_query {packet : Bytes} {header : DnsHeader} {question : DnsQuestion}
    (h : (parseDnsQuery packet).val = some (header, question)) : IsName question.qname := by
  obtain ⟨labels, -, -, rfl⟩ := parseDnsQuery_iff.mp h
  exact ⟨labels, rfl⟩

theorem exists_query (labels : List Label) (qtype : UInt16) :
    ∃ packet header question, (parseDnsQuery packet).val = some (header, question) ∧
      question.qname = nameText labels ∧ question.qtype = qtype := by
  set packet := buildResponseHeader ⟨0, 0, 0, 0, 0, 0⟩ 1 0 ++
    (encodeName labels ++ (writeU16 qtype ++ (writeU16 1 ++ []))) with hpacket
  have hname : packet.drop 12 = encodeName labels ++ _ := drop_response ..
  have htype := drop_of_drop hname rfl
  have hhead := headerAt_response ⟨0, 0, 0, 0, 0, 0⟩ 1 0
    (encodeName labels ++ (writeU16 qtype ++ (writeU16 1 ++ [])))
  refine ⟨packet, _, questionAt packet labels,
    parseDnsQuery_iff.mpr ⟨labels, ⟨?_, ?_, ?_⟩, rfl, rfl⟩, rfl, readU16_of_drop htype⟩
  · have hcount := congrArg DnsHeader.qdcount hhead
    change (readU16 packet 4).val = 1 at hcount
    rw [hcount]
    decide
  · exact ⟨_, hname.symm⟩
  · simp [hpacket]
    omega

theorem isName_of_firstPtrTarget {packet target : Bytes} (n offset : Nat)
    (h : (firstPtrTarget packet n offset).val = some target) : IsName target := by
  induction n generalizing offset with
  | zero => simp [firstPtrTarget] at h
  | succ n ih =>
    rw [firstPtrTarget, val_bind] at h
    cases hr : (readRecord packet offset).val with
    | none => simp [hr] at h
    | some r =>
      simp only [hr, val_ite, val_bind] at h
      split_ifs at h with hptr
      · cases hname : (readName packet r.rdataOffset).val with
        | none => simp [hname] at h
        | some r' =>
          obtain ⟨text, e⟩ := r'
          simp only [hname, val_pure, Option.some.injEq] at h
          obtain ⟨_, labels, -, -, rfl⟩ := val_readName_iff.mp hname
          exact ⟨labels, h.symm⟩
      · exact ih _ h

theorem isName_of_ptr {reply target : Bytes}
    (h : (extractFirstPtrTarget reply).val = some target) : IsName target := by
  rw [extractFirstPtrTarget] at h
  split_ifs at h with hlen
  simp only [val_bind] at h
  cases hskip : (skipQuestions reply (readU16 reply 4).val.toNat 12).val with
  | none => simp [hskip] at h
  | some offset =>
    rw [hskip] at h
    exact isName_of_firstPtrTarget _ _ h

theorem exists_ptr (labels : List Label) :
    ∃ reply, (extractFirstPtrTarget reply).val = some (nameText labels) := by
  set record := encodeName [] ++ (writeU16 dnsTypePtr ++ (writeU16 1 ++ (writeU32 60 ++
    (writeU16 0 ++ (encodeName labels ++ []))))) with hrecord
  set reply := buildResponseHeader ⟨0, 0, 0, 0, 0, 0⟩ 0 1 ++ record with hreply
  have howner : reply.drop 12 = record := drop_response ..
  have htype : reply.drop 13 = writeU16 dnsTypePtr ++ _ := drop_of_drop howner rfl
  have hcls : reply.drop 15 = writeU16 1 ++ _ := drop_of_drop htype rfl
  have httl : reply.drop 17 = writeU32 60 ++ _ := drop_of_drop hcls rfl
  have hrdlen : reply.drop 21 = writeU16 0 ++ _ := drop_of_drop httl rfl
  have htarget : reply.drop 23 = encodeName labels ++ [] := drop_of_drop hrdlen rfl
  have hhead := headerAt_response ⟨0, 0, 0, 0, 0, 0⟩ 0 1 record
  have hqdcount : (readU16 reply 4).val = 0 := congrArg DnsHeader.qdcount hhead
  have hancount : (readU16 reply 6).val = 1 := congrArg DnsHeader.ancount hhead
  have hlen : 23 ≤ reply.length := by
    simp [hreply, hrecord, writeU32]
    omega
  have hname : (readName reply 12).val = some ([], 13) := readName_of_drop howner
  have hread : (readRecord reply 12).val = some ⟨dnsTypePtr, 0, 23⟩ := by
    rw [readRecord, val_bind, hname]
    simp only [val_ite, val_bind, val_pure, readU16_of_drop htype, readU16_of_drop hrdlen]
    rw [if_neg (by omega), if_neg (by simpa using hlen)]
  refine ⟨reply, ?_⟩
  rw [extractFirstPtrTarget, if_neg (by omega)]
  simp only [val_bind, hqdcount, hancount]
  change (firstPtrTarget reply 1 12).val = _
  rw [firstPtrTarget, val_bind, hread]
  simp only [if_true, val_bind, readName_of_drop htarget, val_pure]

/-! ## The calls of `HandleQuery` -/

/-- The name of a server that ends neither its line nor its field. -/
def PlainServer (name : Bytes) : Prop := newline ∉ name ∧ ¬ ascii " qtype=" <:+: name

/-- Any accepted query, any name that a PTR reply can give, any source; an upstream server is named
only where one was asked. -/
inductive Loggable : LogCall → Prop
  | intro {addr : Vector UInt8 4} {packet : Bytes} {header : DnsHeader} {question : DnsQuestion}
      {clientName : Bytes} {result : ResolveResult}
      (accepted : (parseDnsQuery packet).val = some (header, question))
      (named : clientName = ascii "-" ∨
        ∃ reply, (extractFirstPtrTarget reply).val = some clientName ∧ clientName ≠ [])
      (upstream : result.upstream = [] ∨
        result.source = .resolveUpstream ∧ PlainServer result.upstream) :
      Loggable (DnsServer.logCall (inetNtop addr) clientName question result)

namespace LogCall

def clientIp : LogCall → Bytes
  | .logBlock ip _ _ _ => ip
  | .logPass ip _ _ _ _ _ => ip

def clientName : LogCall → Bytes
  | .logBlock _ name _ _ => name
  | .logPass _ name _ _ _ _ => name

def qname : LogCall → Bytes
  | .logBlock _ _ qname _ => qname
  | .logPass _ _ qname _ _ _ => qname

/-- What comes behind `qtype=`. -/
def rest : LogCall → Bytes
  | .logBlock _ _ _ qtype => qtype
  | .logPass _ _ _ qtype resolvedBy upstream =>
    qtype ++ (ascii " resolved_by=" ++
      (resolvedBy ++ if upstream.isEmpty then [] else ascii " upstream=" ++ upstream))

theorem line_eq (time : Option LocalTime) (c : LogCall) :
    c.line time = ascii "ts=" ++ nowString time ++ ascii " client_ip=" ++
      (c.clientIp ++ (ascii " client_name=" ++
        (c.clientName ++ ascii " qname=" ++ c.qname ++ ascii " qtype=" ++ c.rest))) := by
  cases c with
  | logBlock => simp [line, buildBlockLine, clientIp, clientName, qname, rest]
  | logPass => simp [line, buildLine, clientIp, clientName, qname, rest]

end LogCall

/-! ## Plain fields -/

/-- No white space and no control characters. -/
def Graphic (s : Bytes) : Prop := ∀ b ∈ s, 32 < b

instance (s : Bytes) : Decidable (Graphic s) := List.decidableBAll (32 < ·) s

theorem Graphic.append {s t : Bytes} (hs : Graphic s) (ht : Graphic t) : Graphic (s ++ t) := by
  intro b hb
  rcases List.mem_append.mp hb with h | h
  · exact hs b h
  · exact ht b h

theorem Graphic.space_notMem {s : Bytes} (h : Graphic s) : 32 ∉ s :=
  fun hmem => absurd (h 32 hmem) (by decide)

theorem Graphic.newline_notMem {s : Bytes} (h : Graphic s) : newline ∉ s :=
  fun hmem => absurd (h newline hmem) (by decide)

theorem graphic_decimal (n : Nat) : Graphic (decimal n) := by
  intro b hb
  have hdigit := (decimal_digit hb).1
  exact UInt8.lt_iff_toNat_lt.mpr (Nat.lt_of_lt_of_le (by decide) hdigit)

theorem graphic_twoDigits (n : Nat) : Graphic (twoDigits n) := by
  rw [twoDigits]
  split_ifs
  · exact Graphic.append (by decide) (graphic_decimal n)
  · exact graphic_decimal n

theorem graphic_nowString (time : Option LocalTime) : Graphic (nowString time) := by
  cases time with
  | none => decide
  | some t =>
    have hdash : Graphic (ascii "-") := by decide
    have hcolon : Graphic (ascii ":") := by decide
    have hdate := (((graphic_decimal t.year).append hdash).append
      (graphic_twoDigits t.month)).append hdash |>.append (graphic_twoDigits t.day)
    have hhour := (hdate.append (by decide : Graphic (ascii "T"))).append (graphic_twoDigits t.hour)
    exact (((hhour.append hcolon).append (graphic_twoDigits t.minute)).append hcolon).append
      (graphic_twoDigits t.second)

theorem graphic_inetNtop (addr : Vector UInt8 4) : Graphic (inetNtop addr) := by
  rw [inetNtop]
  induction addr.toList with
  | nil => decide
  | cons b bytes ih =>
    rw [List.map_cons, dotJoin_eq_flatMap]
    refine (graphic_decimal b.toNat).append ?_
    intro c hc
    obtain ⟨_, hl, hc⟩ := List.mem_flatMap.mp hc
    obtain ⟨n, -, rfl⟩ := List.mem_map.mp hl
    rcases List.mem_cons.mp hc with rfl | hc
    · decide
    · exact graphic_decimal _ c hc

theorem graphic_qtypeToString (qtype : UInt16) : Graphic (qtypeToString qtype) := by
  rw [qtypeToString]
  split_ifs
  all_goals first | decide | exact Graphic.append (by decide) (graphic_decimal _)

/-- A call whose address, type, source and server are plain. -/
inductive PlainCall : LogCall → Prop
  | block {ip clientName qname qtype : Bytes} (hip : Graphic ip) (hqtype : Graphic qtype) :
      PlainCall (.logBlock ip clientName qname qtype)
  | pass {ip clientName qname qtype resolvedBy upstream : Bytes} (hip : Graphic ip)
      (hqtype : Graphic qtype) (hresolvedBy : Graphic resolvedBy)
      (hupstream : PlainServer upstream) :
      PlainCall (.logPass ip clientName qname qtype resolvedBy upstream)

theorem plainServer_nil : PlainServer [] := by
  refine ⟨by simp, fun h => ?_⟩
  simpa [ascii] using List.infix_nil.mp h

theorem Loggable.plain {c : LogCall} (h : Loggable c) : PlainCall c := by
  obtain ⟨accepted, named, upstream⟩ := h
  rw [DnsServer.logCall]
  dsimp only
  split_ifs
  · exact .block (graphic_inetNtop _) (graphic_qtypeToString _)
  all_goals
    refine .pass (graphic_inetNtop _) (graphic_qtypeToString _) (by decide) ?_
    rcases upstream with hnone | ⟨-, hplain⟩
    · exact hnone ▸ plainServer_nil
    · exact hplain

/-! ## One way to read a line -/

theorem qname_marker : ascii " qname=" = 32 :: ascii "qname=" := rfl

theorem qtype_marker : ascii " qtype=" = 32 :: ascii "qtype=" := rfl

theorem resolvedBy_marker : ascii " resolved_by=" = 32 :: ascii "resolved_by=" := rfl

theorem upstream_marker : ascii " upstream=" = 32 :: ascii "upstream=" := rfl

namespace PlainCall

variable {c c' : LogCall}

theorem graphic_clientIp (h : PlainCall c) : Graphic c.clientIp := by
  cases h <;> assumption

/-- Behind the type comes no second `qtype=`. -/
theorem rest_qtype (h : PlainCall c) : ¬ ascii " qtype=" <:+: c.rest := by
  intro hinside
  rw [qtype_marker] at hinside
  cases h with
  | block _ hqtype =>
    rw [LogCall.rest] at hinside
    exact hqtype.space_notMem (hinside.subset List.mem_cons_self)
  | pass _ hqtype hresolvedBy hupstream =>
    rw [LogCall.rest, resolvedBy_marker, upstream_marker] at hinside
    rw [PlainServer, qtype_marker] at hupstream
    have hresolved := Marker.infix_of_append hqtype.space_notMem hinside
    have hword := Marker.infix_of_marker (by decide) ?_ hresolved
    · have hserver := Marker.infix_of_append hresolvedBy.space_notMem hword
      split_ifs at hserver
      · simp at hserver
      · refine hupstream.2 (Marker.infix_of_marker (by decide) ?_ hserver)
        simp [ascii]
    · simp [ascii]

theorem rest_newline (h : PlainCall c) : newline ∉ c.rest := by
  cases h with
  | block _ hqtype => exact hqtype.newline_notMem
  | pass _ hqtype hresolvedBy hupstream =>
    have hresolved : newline ∉ ascii " resolved_by=" := by decide
    have hserver : newline ∉ ascii " upstream=" := by decide
    have htype := hqtype.newline_notMem
    have hby := hresolvedBy.newline_notMem
    have hname := hupstream.1
    rw [LogCall.rest]
    split_ifs <;> grind

/-- The rest of a line says which log it belongs to, and what it holds. -/
theorem ext (h : PlainCall c) (h' : PlainCall c') (hip : c.clientIp = c'.clientIp)
    (hname : c.clientName = c'.clientName) (hqname : c.qname = c'.qname)
    (hrest : c.rest = c'.rest) : c = c' := by
  have hmem : ∀ s : Bytes, 32 ∈ ascii " resolved_by=" ++ s := by
    intro s
    rw [resolvedBy_marker]
    simp
  cases h with
  | block _ hqtype =>
    cases h' with
    | block => grind [LogCall.clientIp, LogCall.clientName, LogCall.qname, LogCall.rest]
    | pass =>
      have hqtype' := (congrArg Graphic hrest).mp hqtype
      exact absurd (List.mem_append_right _ (hmem _)) hqtype'.space_notMem
  | @pass ip clientName qname qtype resolvedBy upstream _ hqtype hresolvedBy =>
    cases h' with
    | block _ hqtype' =>
      have hqtype'' := (congrArg Graphic hrest).mpr hqtype'
      exact absurd (List.mem_append_right _ (hmem _)) hqtype''.space_notMem
    | @pass _ _ _ qtype' resolvedBy' upstream' _ hqtype' hresolvedBy' =>
      obtain rfl : ip = _ := hip
      obtain rfl : clientName = _ := hname
      obtain rfl : qname = _ := hqname
      rw [LogCall.rest, LogCall.rest, resolvedBy_marker, upstream_marker] at hrest
      obtain ⟨rfl, hsource⟩ := Marker.cut_first hqtype.space_notMem hqtype'.space_notMem
        (.inl rfl) (.inl rfl) hrest
      rw [List.append_cancel_left_eq] at hsource
      obtain ⟨rfl, hserver⟩ := Marker.cut_first hresolvedBy.space_notMem
        hresolvedBy'.space_notMem (by split_ifs <;> simp) (by split_ifs <;> simp) hsource
      have hupstream : upstream = upstream' := by
        split_ifs at hserver with hu hu' hu'
        · rw [List.isEmpty_iff.mp hu, List.isEmpty_iff.mp hu']
        · simp at hserver
        · simp at hserver
        · rwa [List.append_cancel_left_eq] at hserver
      rw [hupstream]

end PlainCall

/-! ## Forged lines -/

/-- ` qname=` stands in one of the two names, between what could be two names. -/
def OtherCut (clientName qname : Bytes) : Prop :=
  (∃ a x, clientName = a ++ ascii " qname=" ++ x ∧ a ≠ [] ∧ IsName a ∧
      IsName (x ++ ascii " qname=" ++ qname)) ∨
    ∃ x b, qname = x ++ ascii " qname=" ++ b ∧ IsName (clientName ++ ascii " qname=" ++ x) ∧
      IsName b

/-- Two calls write the same line if they agree, but for where the client's name ends. -/
theorem line_eq_iff {c c' : LogCall} (h : PlainCall c) (h' : PlainCall c')
    (time : Option LocalTime) :
    c.line time = c'.line time ↔ c.clientIp = c'.clientIp ∧ c.rest = c'.rest ∧
      c.clientName ++ ascii " qname=" ++ c.qname =
        c'.clientName ++ ascii " qname=" ++ c'.qname := by
  rw [LogCall.line_eq, LogCall.line_eq, List.append_cancel_left_eq]
  constructor
  · intro hline
    obtain ⟨hip, hrest⟩ := Marker.cut_first h.graphic_clientIp.space_notMem
      h'.graphic_clientIp.space_notMem (.inl rfl) (.inl rfl) hline
    rw [List.append_cancel_left_eq] at hrest
    have hqtype := h.rest_qtype
    have hqtype' := h'.rest_qtype
    rw [qtype_marker] at hrest hqtype hqtype'
    obtain ⟨hnames, hrest⟩ := Marker.cut_last (by decide) hqtype hqtype' hrest
    exact ⟨hip, hrest, hnames⟩
  · rintro ⟨hip, hrest, hnames⟩
    rw [hip, hrest, hnames]

/-- A line is broken where one of the names is. -/
theorem newline_mem_line {c : LogCall} (h : PlainCall c) (time : Option LocalTime) :
    newline ∈ c.line time ↔ newline ∈ c.clientName ∨ newline ∈ c.qname := by
  have hwords : newline ∉ ascii "ts=" ∧ newline ∉ ascii " client_ip=" ∧
      newline ∉ ascii " client_name=" ∧ newline ∉ ascii " qname=" ∧ newline ∉ ascii " qtype=" := by
    decide
  obtain ⟨hts, hclientIp, hclientName, hqname, hqtype⟩ := hwords
  have htime := (graphic_nowString time).newline_notMem
  have hip := h.graphic_clientIp.newline_notMem
  have hrest := h.rest_newline
  rw [LogCall.line_eq]
  simp only [List.mem_append]
  grind

theorem logCall_names (ip clientName : Bytes) (question : DnsQuestion) (result : ResolveResult) :
    let c := DnsServer.logCall ip clientName question result
    c.clientIp = ip ∧ c.clientName = clientName ∧ c.qname = question.qname := by
  intro c
  simp only [c, DnsServer.logCall]
  split_ifs <;> exact ⟨rfl, rfl, rfl⟩

theorem logCall_rest {question question' : DnsQuestion} (h : question.qtype = question'.qtype)
    (ip clientName ip' clientName' : Bytes) (result : ResolveResult) :
    (DnsServer.logCall ip clientName question result).rest =
      (DnsServer.logCall ip' clientName' question' result).rest := by
  simp only [DnsServer.logCall, h]
  split_ifs <;> rfl

/-- The same call about other names. -/
theorem Loggable.withNames {c : LogCall} (h : Loggable c) {clientName qname : Bytes}
    (hclient : IsName clientName) (hne : clientName ≠ []) (hqname : IsName qname) :
    ∃ c', Loggable c' ∧ c'.clientIp = c.clientIp ∧ c'.rest = c.rest ∧
      c'.clientName = clientName ∧ c'.qname = qname := by
  obtain ⟨clientLabels, rfl⟩ := hclient
  obtain ⟨labels, rfl⟩ := hqname
  cases h with
  | @intro addr _ _ question clientName _ _ _ upstream =>
    obtain ⟨packet, header, question', accepted, hqname, hqtype⟩ :=
      exists_query labels question.qtype
    obtain ⟨reply, hreply⟩ := exists_ptr clientLabels
    obtain ⟨hip, hclient', hqname'⟩ := logCall_names (inetNtop addr) (nameText clientLabels)
      question' _
    refine ⟨_, @Loggable.intro addr _ _ _ _ _ accepted (.inr ⟨reply, hreply, hne⟩) upstream, ?_,
      logCall_rest hqtype .., hclient', hqname'.trans hqname⟩
    exact hip.trans (logCall_names ..).1.symm

theorem isName_dash : IsName (ascii "-") := ⟨[⟨ascii "-", by decide, by decide⟩], rfl⟩

theorem Loggable.isName {c : LogCall} (h : Loggable c) :
    IsName c.clientName ∧ c.clientName ≠ [] ∧ IsName c.qname := by
  cases h with
  | @intro addr _ _ question clientName result accepted named _ =>
    obtain ⟨-, hclient, hqname⟩ := logCall_names (inetNtop addr) clientName question result
    rw [hclient, hqname]
    rcases named with rfl | ⟨reply, hreply, hne⟩
    · exact ⟨isName_dash, by decide, isName_of_query accepted⟩
    · exact ⟨isName_of_ptr hreply, hne, isName_of_query accepted⟩

/-- Another call that writes the same line cuts the names at another place. -/
theorem otherCut_iff {c : LogCall} (h : Loggable c) (time : Option LocalTime) :
    (∃ c', Loggable c' ∧ c'.line time = c.line time ∧ c' ≠ c) ↔
      OtherCut c.clientName c.qname := by
  constructor
  · rintro ⟨c', h', hline, hne⟩
    obtain ⟨hip, hrest, hnames⟩ := (line_eq_iff h'.plain h.plain time).mp hline
    obtain ⟨hclient, hnonempty, hqname⟩ := h'.isName
    rw [qname_marker] at hnames
    rw [OtherCut, qname_marker]
    rcases Marker.cut_cases (by decide) hnames.symm with
      ⟨hclient', hqname'⟩ | ⟨x, hclient', hqname'⟩ | ⟨x, hclient', hqname'⟩
    · exact absurd (h'.plain.ext h.plain hip hclient'.symm hqname'.symm hrest) hne
    · exact .inr ⟨x, c'.qname, hqname', hclient' ▸ hclient, hqname⟩
    · exact .inl ⟨c'.clientName, x, hclient', hnonempty, hclient, hqname' ▸ hqname⟩
  · -- The marker comes with a byte of its own, so the names of the other cut differ.
    have hother : ∀ {clientName qname}, IsName clientName → clientName ≠ [] → IsName qname →
        clientName ++ ascii " qname=" ++ qname = c.clientName ++ ascii " qname=" ++ c.qname →
          clientName.length ≠ c.clientName.length →
            ∃ c', Loggable c' ∧ c'.line time = c.line time ∧ c' ≠ c := by
      intro clientName qname hclient hnonempty hqname hnames hlength
      obtain ⟨c', h', hip, hrest, rfl, rfl⟩ := h.withNames hclient hnonempty hqname
      refine ⟨c', h', (line_eq_iff h'.plain h.plain time).mpr ⟨hip, hrest, hnames⟩, ?_⟩
      rintro rfl
      exact hlength rfl
    have hmarker : (ascii " qname=").length = 7 := rfl
    rintro (⟨a, x, hcut, hnonempty, ha, hx⟩ | ⟨x, b, hcut, hx, hb⟩)
    · refine hother ha hnonempty hx ?_ ?_
      · simp only [hcut, List.append_assoc]
      · simp only [hcut, List.length_append, hmarker]
        omega
    · refine hother hx (by simp [qname_marker]) hb ?_ ?_
      · simp only [hcut, List.append_assoc]
      · simp only [List.length_append, hmarker]
        omega

/-- A call writes one line, and no other call writes the same one, exactly if the names in it hold
no line break and no second ` qname=` between names. -/
theorem log_line_intact (time : Option LocalTime) {c : LogCall} (h : Loggable c) :
    (newline ∉ c.line time ∧ ∀ c', Loggable c' → c'.line time = c.line time → c' = c) ↔
      newline ∉ c.clientName ∧ newline ∉ c.qname ∧ ¬ OtherCut c.clientName c.qname := by
  rw [newline_mem_line h.plain, ← otherCut_iff h time]
  grind

/-- A query for an address that was answered from the cache. -/
def cacheCall (clientName qname : Bytes) : LogCall :=
  .logPass (inetNtop #v[10, 0, 0, 1]) clientName qname (ascii "A") (ascii "cache") []

theorem loggable_cacheCall {clientName qname : Bytes} (hclient : IsName clientName)
    (hne : clientName ≠ []) (hqname : IsName qname) : Loggable (cacheCall clientName qname) := by
  obtain ⟨clientLabels, rfl⟩ := hclient
  obtain ⟨labels, rfl⟩ := hqname
  obtain ⟨packet, header, question, accepted, hqname, hqtype⟩ := exists_query labels dnsTypeA
  obtain ⟨reply, hreply⟩ := exists_ptr clientLabels
  have h := @Loggable.intro #v[10, 0, 0, 1] packet header question _ ⟨[], .resolveCache, []⟩
    accepted (.inr ⟨reply, hreply, hne⟩) (.inl rfl)
  rw [cacheCall, ← hqname]
  rw [DnsServer.logCall, hqtype] at h
  exact h

/-- A text of up to 63 bytes is a name of one label. -/
theorem isName_short {text : Bytes} (h : 0 < text.length ∧ text.length ≤ 63) : IsName text :=
  ⟨[⟨text, h.1, h.2⟩], by simp⟩

theorem log_line_intact_cached :
    newline ∉ (cacheCall (ascii "x") (ascii "a")).line none ∧
      ∀ c', Loggable c' → c'.line none = (cacheCall (ascii "x") (ascii "a")).line none →
        c' = cacheCall (ascii "x") (ascii "a") := by
  have h : Loggable (cacheCall (ascii "x") (ascii "a")) :=
    loggable_cacheCall (isName_short (by decide)) (by decide) (isName_short (by decide))
  refine (log_line_intact none h).mpr ⟨by decide, by decide, ?_⟩
  have hmarker : (ascii " qname=").length = 7 := rfl
  have hx : (ascii "x").length = 1 := rfl
  have ha : (ascii "a").length = 1 := rfl
  rintro (⟨a, x, hcut, -⟩ | ⟨x, b, hcut, -⟩)
  · have hlength : (ascii "x").length = (a ++ ascii " qname=" ++ x).length := congrArg _ hcut
    simp only [List.length_append] at hlength
    omega
  · have hlength : (ascii "a").length = (x ++ ascii " qname=" ++ b).length := congrArg _ hcut
    simp only [List.length_append] at hlength
    omega

/-- Two queries from two clients with one line, and a query whose name breaks the line and goes on
with a record of its own. -/
theorem log_line_forged :
    let first := cacheCall (ascii "x") (ascii "a qname=b")
    let second := cacheCall (ascii "x qname=a") (ascii "b")
    let broken := cacheCall (ascii "x") (ascii "a\nts=1 client_ip=10.0.0.2 client_name=y qname=b")
    Loggable first ∧ Loggable second ∧ first ≠ second ∧ first.line none = second.line none ∧
      Loggable broken ∧ newline ∈ broken.line none := by
  intro first second broken
  have hcall : ∀ {clientName qname : Bytes}, 0 < clientName.length ∧ clientName.length ≤ 63 →
      0 < qname.length ∧ qname.length ≤ 63 → Loggable (cacheCall clientName qname) :=
    fun hclient hqname => loggable_cacheCall (isName_short hclient)
      (List.ne_nil_of_length_pos hclient.1) (isName_short hqname)
  refine ⟨hcall (by decide) (by decide), hcall (by decide) (by decide), by decide,
    by decide +kernel, hcall (by decide) (by decide), by decide +kernel⟩

/-! ## `HandleQuery` -/

/-- The servers that a query can come to have plain names. -/
structure PlainServers (server : DnsServer) (x : Exchange) : Prop where
  udp : ∀ name ∈ server.udpServers, PlainServer name
  dot : ∀ name, x.dot.server = some name → PlainServer name

theorem PlainServers.usedServer {server : DnsServer} {x : Exchange} (h : PlainServers server x)
    (packet : Bytes) : PlainServer (server.usedServer packet x) := by
  have hdot : PlainServer ((resolveDot packet x.dot).usedServer.getD []) := by
    rw [resolveDot_usedServer]
    cases hname : x.dot.server with
    | none => exact plainServer_nil
    | some name => exact h.dot name hname
  rw [DnsServer.usedServer]
  split
  · exact hdot
  · rw [resolveUdp_usedServer]
    cases hudp : server.udpServers with
    | nil => exact hdot
    | cons name names => exact h.udp name (by simp [hudp])

theorem upstream_of_answerLocally {server : DnsServer} {blocklist : Option Blocklist}
    {header : DnsHeader} {question : DnsQuestion} {result : ResolveResult}
    (h : server.answerLocally blocklist header question = some result) : result.upstream = [] := by
  rw [DnsServer.answerLocally] at h
  split_ifs at h
  · obtain rfl := Option.some.inj h
    rfl
  · split at h
    · obtain rfl := Option.some.inj h
      rfl
    · cases h

theorem resolveClientName_named (server : DnsServer) (s : ServerState) (addr : Vector UInt8 4)
    (env : QueryEnv) : (server.resolveClientName s addr env).1 = ascii "-" ∨
      ∃ reply, (extractFirstPtrTarget reply).val = some (server.resolveClientName s addr env).1 ∧
        (server.resolveClientName s addr env).1 ≠ [] := by
  rw [DnsServer.resolveClientName]
  dsimp only
  split_ifs
  · exact .inl rfl
  · split
    · exact .inl rfl
    · split
      · exact .inl rfl
      · rename_i ptrName hptr
        cases ptrName with
        | nil => exact .inl rfl
        | cons b name => exact .inr ⟨_, hptr, by simp⟩

/-- Each line that `HandleQuery` has written comes from such a call. -/
theorem handleQuery_loggable {server : DnsServer} {s : ServerState} {packet : Bytes}
    {clientAddr : Vector UInt8 4} {env nameEnv : QueryEnv} {c : LogCall}
    (hplain : PlainServers server env.exchange)
    (h : (server.handleQuery s packet clientAddr env nameEnv).logged = some c) : Loggable c := by
  rw [DnsServer.handleQuery] at h
  cases haccepted : (parseDnsQuery packet).val with
  | none => simp [haccepted] at h
  | some r =>
    obtain ⟨header, question⟩ := r
    rw [haccepted] at h
    dsimp only at h
    split_ifs at h
    have hspec := server.resolveQuery_spec s ⟨packet, header, question⟩ env
    dsimp only at hspec
    generalize server.resolveQuery s packet header question env = outcome at h hspec
    obtain rfl := Option.some.inj h
    refine .intro haccepted (resolveClientName_named ..) ?_
    cases hspec with
    | locally found => exact .inl (upstream_of_answerLocally found)
    | hit => exact .inl rfl
    | miss => exact .inr ⟨rfl, hplain.usedServer _⟩

end Gravastar
