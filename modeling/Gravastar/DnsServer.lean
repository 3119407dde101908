import Gravastar.Blocklist
import Gravastar.Cache
import Gravastar.DnsPacket.Rewrite
import Gravastar.LocalRecords
import Gravastar.UpstreamResolver

/-!
# Resolving queries (`dns_server.cpp`)

`ResolveQuery` is cut where it touches state that other threads share: the
blocklist, the cache lookup, and the cache update after the upstream answered.
`resolveQuery` runs the pieces in a row; `machine` lets the pieces of any
number of queries, and `SetDomains`, come in any order.
-/

namespace Gravastar

/-- The setting that resolving reads. -/
structure ServerConfig where
  rebindProtection : Bool
  deriving DecidableEq, Repr

/-- What stays as the constructor got it. `logger` says whether there is one. -/
structure DnsServer where
  config : ServerConfig
  localRecords : LocalRecords
  udpServers : List Bytes
  pton : InetPton
  logger : Bool

/-- What changes, `none` for a null pointer. -/
structure ServerState where
  blocklist : Option Blocklist
  cache : Option DnsCache
  deriving DecidableEq

inductive ResolveSource where
  | resolveBlocklist
  | resolveLocal
  | resolveCache
  | resolveUpstream
  | resolveNone
  deriving DecidableEq, Repr

structure ResolveResult where
  response : Bytes
  source : ResolveSource
  upstream : Bytes
  deriving DecidableEq, Repr

/-- A call into the resolver, with the query it hands over. -/
inductive UpstreamCall where
  | resolveDot (query : Bytes)
  | resolveUdp (query : Bytes)
  deriving DecidableEq, Repr

/-! ## Helpers -/

def makeCacheKey (name : Bytes) (qtype : UInt16) : Bytes := nameTypeKey name qtype

def qtypeToString (qtype : UInt16) : Bytes :=
  if qtype = dnsTypeA then ascii "A"
  else if qtype = dnsTypeAaaa then ascii "AAAA"
  else if qtype = dnsTypeCname then ascii "CNAME"
  else if qtype = dnsTypePtr then ascii "PTR"
  else if qtype = dnsTypeMx then ascii "MX"
  else if qtype = dnsTypeTxt then ascii "TXT"
  else ascii "TYPE" ++ decimal qtype.toNat

/-- `iss >> parsed_pref` into an `unsigned long`: white space, a sign, digits; `none` where the
stream fails. A minus sign negates modulo 2^64. -/
def extractUnsignedLong (s : Bytes) : Option (Nat × Bytes) :=
  let s := s.dropWhile isSpace
  let minus := s.head? = some 45
  let s := if s.head? = some 43 ∨ minus then s.tail else s
  let digits := s.takeWhile isDigit
  let n := digitsValue digits
  if digits.isEmpty ∨ n ≥ 2 ^ 64 then none
  else some (if minus then (2 ^ 64 - n) % 2 ^ 64 else n, s.drop digits.length)

/-- `iss >> parsed_target`: white space, then everything up to the next one. -/
def extractToken (s : Bytes) : Option Bytes :=
  let token := (s.dropWhile isSpace).takeWhile (! isSpace ·)
  if token.isEmpty then none else some token

def parseMxValue (value : Bytes) : UInt16 × Bytes :=
  match extractUnsignedLong value with
  | none => (10, trim value)
  | some (parsedPref, rest) =>
    match extractToken rest with
    | none => (10, trim value)
    | some parsedTarget =>
      (if parsedPref ≤ 65535 then UInt16.ofNat parsedPref else 10, parsedTarget)

/-! ## The pieces of `ResolveQuery` -/

/-- What the network does for one query: the DoT attempt and, if that fails, the UDP one. -/
structure Exchange where
  dot : DotExchange
  udp : UdpExchange
  deriving DecidableEq, Repr

/-- The answer to a blocked query. -/
def sinkhole (pton : InetPton) (header : DnsHeader) (question : DnsQuestion) : Bytes :=
  if question.qtype = dnsTypeA then buildAResponse pton header question (ascii "0.0.0.0")
  else if question.qtype = dnsTypeAaaa then buildAAAAResponse pton header question (ascii "::1")
  else buildEmptyResponse header question

/-- `blocklist_ && blocklist_->IsBlocked(question.qname)`. -/
def isBlockedBy (blocklist : Option Blocklist) (name : Bytes) : Bool :=
  match blocklist with
  | none => false
  | some b => b.isBlocked name

/-- The answer from a local record of the given type and value. -/
def localResponse (pton : InetPton) (header : DnsHeader) (question : DnsQuestion)
    (localValue : Bytes) (localType : UInt16) : Bytes :=
  if localType = dnsTypeA then buildAResponse pton header question localValue
  else if localType = dnsTypeAaaa then buildAAAAResponse pton header question localValue
  else if localType = dnsTypeCname then buildCNAMEResponse header question localValue
  else if localType = dnsTypePtr then buildPTRResponse header question localValue
  else if localType = dnsTypeTxt then buildTXTResponse header question localValue
  else if localType = dnsTypeMx then
    let (pref, exchange) := parseMxValue localValue
    buildMXResponse header question pref exchange
  else []

namespace DnsServer

variable (server : DnsServer)

/-- The blocklist and the local records, before the cache is looked at. -/
def answerLocally (blocklist : Option Blocklist) (header : DnsHeader) (question : DnsQuestion) :
    Option ResolveResult :=
  if isBlockedBy blocklist question.qname then
    some ⟨sinkhole server.pton header question, .resolveBlocklist, []⟩
  else
    match server.localRecords.resolve question.qname question.qtype with
    | some (localValue, localType) =>
      some ⟨localResponse server.pton header question localValue localType, .resolveLocal, []⟩
    | none => none

/-- The reply of an upstream, if there was one. -/
def received (packet : Bytes) (x : Exchange) : Option Bytes :=
  match (Gravastar.resolveDot packet x.dot).response with
  | some reply => some reply
  | none => (Gravastar.resolveUdp server.pton server.udpServers x.udp).response

/-- `result->upstream`: the last server tried, if any. -/
def usedServer (packet : Bytes) (x : Exchange) : Bytes :=
  let dot := Gravastar.resolveDot packet x.dot
  match dot.response with
  | some _ => dot.usedServer.getD []
  | none =>
    ((Gravastar.resolveUdp server.pton server.udpServers x.udp).usedServer.orElse
      fun _ => dot.usedServer).getD []

def upstreamCalls (packet : Bytes) (x : Exchange) : List UpstreamCall :=
  match (Gravastar.resolveDot packet x.dot).response with
  | some _ => [.resolveDot packet]
  | none => [.resolveDot packet, .resolveUdp packet]

/-- The block under `config_.rebind_protection`. -/
def protect (header : DnsHeader) (question : DnsQuestion) (response : Bytes) : Bytes :=
  if !response.isEmpty && server.config.rebindProtection then
    match (rewritePrivateARecordsToZero response).val with
    | (none, _) => buildEmptyResponse header question
    | (some _, rewritten) => rewritten
  else response

/-- The response of a query that goes upstream. -/
def upstreamResponse (packet : Bytes) (header : DnsHeader) (question : DnsQuestion)
    (x : Exchange) : Bytes :=
  server.protect header question
    ((server.received packet x).getD (buildEmptyResponse header question))

end DnsServer

/-- `cache_->Get(key, &cached)`, where there is a cache. -/
def lookupCache (cache : Option DnsCache) (key : Bytes) (now : Int) :
    Option Bytes × Option DnsCache :=
  match cache with
  | none => (none, none)
  | some c => ((c.get key now).1, some (c.get key now).2)

/-- `cache_->Put(key, result->response)`, where there is a cache and a response. -/
def storeResponse (cache : Option DnsCache) (key response : Bytes) (now time : Int) :
    Option DnsCache :=
  if response.isEmpty then cache else cache.map fun c => c.put key response now time

/-! ## `ResolveQuery` and `HandleQuery` -/

/-- Everything a query does not control: three readings of the clock and the network. -/
structure QueryEnv where
  getNow : Int
  exchange : Exchange
  putNow : Int
  putTime : Int
  deriving DecidableEq, Repr

/-- The result, the state left behind and the calls into the resolver on the way. -/
structure Outcome where
  result : ResolveResult
  state : ServerState
  calls : List UpstreamCall
  deriving DecidableEq

/-- What goes out to the client; a cached response gets the ID of the query. -/
def sentResponse (header : DnsHeader) (result : ResolveResult) : Option Bytes :=
  if result.response.isEmpty then none
  else if result.source = .resolveCache then some (patchResponseId result.response header.id)
  else some result.response

/-- A call of `LogBlock` or `LogPass`. -/
inductive LogCall where
  | logBlock (clientIp clientName domain qtype : Bytes)
  | logPass (clientIp clientName domain qtype resolvedBy upstream : Bytes)
  deriving DecidableEq, Repr

/-- What `HandleQuery` returns, sends and logs, and the state it leaves. -/
structure Handled where
  ok : Bool
  sent : Option Bytes
  logged : Option LogCall
  state : ServerState
  deriving DecidableEq

/-- `inet_ntop(AF_INET, ...)`. -/
def inetNtop (addr : Vector UInt8 4) : Bytes := dotJoin (addr.toList.map fun b => decimal b.toNat)

/-- The PTR query for a client's address. -/
def clientNameQuery (parts : List Bytes) : Bytes :=
  let qname := parts.getD 3 [] ++ [dot] ++ parts.getD 2 [] ++ [dot] ++ parts.getD 1 [] ++ [dot] ++
    parts.getD 0 [] ++ ascii ".in-addr.arpa"
  [0x42, 0x42, 0x01, 0x00, 0x00, 0x01, 0x00, 0x00, 0x00, 0x00, 0x00, 0x00] ++
    writeQNameLoop qname 0 ++ [0x00, UInt8.ofNat dnsTypePtr.toNat, 0x00, 0x01]

namespace DnsServer

variable (server : DnsServer)

def resolveQuery (s : ServerState) (packet : Bytes) (header : DnsHeader) (question : DnsQuestion)
    (env : QueryEnv) : Outcome :=
  match server.answerLocally s.blocklist header question with
  | some result => ⟨result, s, []⟩
  | none =>
    let key := makeCacheKey question.qname question.qtype
    match lookupCache s.cache key env.getNow with
    | (some cached, cache) => ⟨⟨cached, .resolveCache, []⟩, { s with cache := cache }, []⟩
    | (none, cache) =>
      let response := server.upstreamResponse packet header question env.exchange
      ⟨⟨response, .resolveUpstream, server.usedServer packet env.exchange⟩,
        { s with cache := storeResponse cache key response env.putNow env.putTime },
        upstreamCalls packet env.exchange⟩

/-- `ResolveClientName`, with the state it leaves behind. -/
def resolveClientName (s : ServerState) (addr : Vector UInt8 4) (env : QueryEnv) :
    Bytes × ServerState :=
  let parts := split (inetNtop addr) dot
  if parts.length ≠ 4 then (ascii "-", s)
  else
    let query := clientNameQuery parts
    match (parseDnsQuery query).val with
    | none => (ascii "-", s)
    | some (header, question) =>
      let outcome := server.resolveQuery s query header question env
      match (extractFirstPtrTarget outcome.result.response).val with
      | none => (ascii "-", outcome.state)
      | some ptrName => (if ptrName.isEmpty then ascii "-" else ptrName, outcome.state)

/-- The line that `HandleQuery` has written about a result. -/
def logCall (clientIp clientName : Bytes) (question : DnsQuestion) (result : ResolveResult) :
    LogCall :=
  let qtype := qtypeToString question.qtype
  if result.source = .resolveBlocklist then
    .logBlock clientIp clientName question.qname qtype
  else
    let resolvedBy :=
      if result.source = .resolveLocal then ascii "local"
      else if result.source = .resolveCache then ascii "cache"
      else ascii "external"
    .logPass clientIp clientName question.qname qtype resolvedBy result.upstream

/-- The second environment is for the lookup of the client's name. -/
def handleQuery (s : ServerState) (packet : Bytes) (clientAddr : Vector UInt8 4)
    (env nameEnv : QueryEnv) : Handled :=
  match (parseDnsQuery packet).val with
  | none => ⟨false, none, none, s⟩
  | some (header, question) =>
    let outcome := server.resolveQuery s packet header question env
    let sent := sentResponse header outcome.result
    if server.logger then
      let (clientName, s) := server.resolveClientName outcome.state clientAddr nameEnv
      ⟨true, sent, some (logCall (inetNtop clientAddr) clientName question outcome.result), s⟩
    else ⟨true, sent, none, outcome.state⟩

end DnsServer

/-! ## Many queries at a time -/

/-- An accepted query in the hands of a worker. -/
structure Job where
  packet : Bytes
  header : DnsHeader
  question : DnsQuestion
  deriving DecidableEq, Repr

def Job.key (job : Job) : Bytes := makeCacheKey job.question.qname job.question.qtype

/-- What `ResolveQuery` returned for a query, and the calls into the resolver for it. -/
structure Answer where
  job : Job
  result : ResolveResult
  calls : List UpstreamCall
  deriving DecidableEq, Repr

/-- What the client of an answered query gets. -/
def Answer.sent (a : Answer) : Option Bytes := sentResponse a.job.header a.result

/-- The shared state, and the queries under way: those about to look into the cache and those
that missed it. -/
structure Workers extends ServerState where
  unresolved : List Job
  missed : List Job
  deriving DecidableEq

inductive ServerEvent where
  /-- The updater thread installs a domain set. -/
  | setDomains (domains : Finset Bytes)
  /-- A worker parses a packet and asks the blocklist and the local records. -/
  | accept (packet : Bytes)
  /-- The worker of an unresolved query looks into the cache. -/
  | lookup (i : Nat) (now : Int)
  /-- The worker of a query that missed the cache comes back from the resolver. -/
  | forward (i : Nat) (x : Exchange) (now time : Int)

namespace DnsServer

variable (server : DnsServer)

def acceptStep (w : Workers) (packet : Bytes) : Option Answer × Workers :=
  match (parseDnsQuery packet).val with
  | none => (none, w)
  | some (header, question) =>
    match server.answerLocally w.blocklist header question with
    | some result => (some ⟨⟨packet, header, question⟩, result, []⟩, w)
    | none => (none, { w with unresolved := w.unresolved ++ [⟨packet, header, question⟩] })

def lookupStep (w : Workers) (i : Nat) (now : Int) : Option Answer × Workers :=
  match w.unresolved[i]? with
  | none => (none, w)
  | some job =>
    let w := { w with unresolved := w.unresolved.eraseIdx i }
    match lookupCache w.cache job.key now with
    | (some cached, cache) =>
      (some ⟨job, ⟨cached, .resolveCache, []⟩, []⟩, { w with cache := cache })
    | (none, cache) => (none, { w with cache := cache, missed := w.missed ++ [job] })

def forwardStep (w : Workers) (i : Nat) (x : Exchange) (now time : Int) :
    Option Answer × Workers :=
  match w.missed[i]? with
  | none => (none, w)
  | some job =>
    let response := server.upstreamResponse job.packet job.header job.question x
    (some ⟨job, ⟨response, .resolveUpstream, server.usedServer job.packet x⟩,
        upstreamCalls job.packet x⟩,
      { w with
        missed := w.missed.eraseIdx i
        cache := storeResponse w.cache job.key response now time })

def step (w : Workers) : ServerEvent → Option Answer × Workers
  | .setDomains domains => (none, { w with blocklist := w.blocklist.map (·.setDomains domains) })
  | .accept packet => server.acceptStep w packet
  | .lookup i now => lookupStep w i now
  | .forward i x now time => server.forwardStep w i x now time

/-- A server that starts in a given state with no query under way. -/
def machine (s : ServerState) : Machine Workers ServerEvent (Option Answer) :=
  ⟨⟨s, [], []⟩, server.step⟩

end DnsServer

end Gravastar
