import Gravastar.Lib.Handles
import Gravastar.UpstreamResolver.Framing
import Gravastar.UpstreamResolver.HostPort

/-!
# Connecting to an upstream server

`ResolveUdp` and `ResolveDot` with every call that they make on the way to the
answer. What the system and the TLS library return is given in advance. Each way
out of `ResolveDot` closes what is open by then in calls of its own, so the log
of these calls is what is looked at.
-/

namespace Gravastar

/-- What can be open during a resolve: the list from `getaddrinfo`, a socket, `cfg` and `ctx`. -/
inductive NetHandle where
  | addresses
  | socket (fd : Nat)
  | config
  | context
  deriving DecidableEq, Repr

/-- The calls, with what they return where a handle or a guard depends on it. `exchange` stands for
the reads and writes behind the handshake. -/
inductive NetCall where
  | socket (fd : Option Nat)
  | sendto (fd : Nat)
  | select (fd : Nat)
  | recvfrom (fd : Nat)
  | close (fd : Nat)
  | tlsInit (ok : Bool)
  | getaddrinfo (host : Bytes) (port : Int) (ok : Bool)
  | nextAddress
  | fcntl (fd : Nat)
  | connect (fd : Nat)
  | waitForSocket (fd : Nat)
  | getsockopt (fd : Nat)
  | setsockopt (fd : Nat)
  | freeaddrinfo
  | configNew (ok : Bool)
  | setCaPath (path : Bytes)
  | setCaFile (path : Bytes)
  | insecureNoverifycert
  | insecureNoverifyname
  | client (ok : Bool)
  | configure (ok : Bool)
  | configFree
  | connectSocket (fd : Nat) (name : Bytes) (ok : Bool)
  | tlsError
  | exchange (fd : Nat)
  | tlsClose
  | tlsFree
  deriving DecidableEq, Repr

/-- What a call does with the handles. -/
def NetCall.uses : NetCall → List (HandleUse NetHandle)
  | .socket (some fd) => [.opens (.socket fd)]
  | .sendto fd | .select fd | .recvfrom fd | .fcntl fd | .waitForSocket fd | .getsockopt fd
  | .setsockopt fd => [.uses (.socket fd)]
  | .close fd => [.closes (.socket fd)]
  | .getaddrinfo _ _ true => [.opens .addresses]
  | .nextAddress => [.uses .addresses]
  | .connect fd => [.uses .addresses, .uses (.socket fd)]
  | .freeaddrinfo => [.closes .addresses]
  | .configNew true => [.opens .config]
  | .setCaPath _ | .setCaFile _ | .insecureNoverifycert | .insecureNoverifyname =>
    [.uses .config]
  | .client true => [.opens .context]
  | .configure _ => [.uses .context, .uses .config]
  | .configFree => [.closes .config]
  | .connectSocket fd _ _ | .exchange fd => [.uses .context, .uses (.socket fd)]
  | .tlsError | .tlsClose => [.uses .context]
  | .tlsFree => [.closes .context]
  | .socket none | .tlsInit _ | .getaddrinfo _ _ false | .configNew false | .client false => []

/-- What is open behind the calls, `none` where one of them was not allowed. -/
def openAfter (held : List NetHandle) (calls : List NetCall) : Option (List NetHandle) :=
  heldAfter held (calls.flatMap NetCall.uses)

/-! ## UDP -/

/-- The calls of `ResolveUdp`, where `socket` returns `fd` if it succeeds. -/
def resolveUdpCalls (pton : InetPton) (udpServers : List Bytes) (x : UdpExchange) (fd : Nat) :
    List NetCall :=
  match udpServers with
  | [] => []
  | server :: _ =>
    if x.socketOk = false then [.socket none]
    else if (pton.inet (cStr server)).isNone then [.socket (some fd), .close fd]
    else if x.sendOk = false then [.socket (some fd), .sendto fd, .close fd]
    else if x.ready = false then [.socket (some fd), .sendto fd, .select fd, .close fd]
    else [.socket (some fd), .sendto fd, .select fd, .recvfrom fd, .close fd]

/-! ## TCP -/

/-- What `connect` says and, where it is in progress, `WaitForSocket` and `getsockopt`. -/
inductive ConnectResult where
  | connected
  | inProgress (writable noError : Bool)
  | refused
  deriving DecidableEq, Repr

/-- What the calls on one address of the list return. -/
structure AddressAnswers where
  socket : Option Nat
  getFlags : Bool
  setFlags : Bool
  connect : ConnectResult
  deriving DecidableEq, Repr

/-- A turn of the loop in `ConnectTcp`. -/
def tryAddress (a : AddressAnswers) : Option Nat × List NetCall :=
  match a.socket with
  | none => (none, [.nextAddress, .socket none])
  | some sock =>
    let opened := [.nextAddress, .socket (some sock), .fcntl sock]
    let connecting := opened ++ [.fcntl sock, .connect sock]
    let connected := [.fcntl sock, .setsockopt sock, .setsockopt sock]
    if a.getFlags = false then (none, opened ++ [.close sock])
    else if a.setFlags = false then (none, opened ++ [.fcntl sock, .close sock])
    else
      match a.connect with
      | .connected => (some sock, connecting ++ connected)
      | .inProgress writable noError =>
        if writable = false then (none, connecting ++ [.waitForSocket sock, .close sock])
        else if noError = false then
          (none, connecting ++ [.waitForSocket sock, .getsockopt sock, .close sock])
        else (some sock, connecting ++ [.waitForSocket sock, .getsockopt sock] ++ connected)
      | .refused => (none, connecting ++ [.close sock])

def connectLoop : List AddressAnswers → Option Nat × List NetCall
  | [] => (none, [])
  | a :: rest =>
    match tryAddress a with
    | (some sock, calls) => (some sock, calls)
    | (none, calls) =>
      let (fd, more) := connectLoop rest
      (fd, calls ++ more)

/-- `ConnectTcp`: the first address that can be connected to. -/
def connectTcp (host : Bytes) (port : Int) :
    Option (List AddressAnswers) → Option Nat × List NetCall
  | none => (none, [.getaddrinfo (cStr host) port false])
  | some addresses =>
    let (fd, calls) := connectLoop addresses
    (fd, .getaddrinfo (cStr host) port true :: calls ++ [.freeaddrinfo])

/-! ## TLS -/

/-- Which of the places for certificates are there, and whether the library takes them. -/
structure CaFiles where
  certsDir : Bool
  certPem : Bool
  caBundle : Bool
  accepted : Bool
  deriving DecidableEq, Repr

/-- `ConfigureTls`: the first place that is there. -/
def configureTls (ca : CaFiles) : Bool × List NetCall :=
  if ca.certsDir then (ca.accepted, [.setCaPath (ascii "/etc/ssl/certs")])
  else if ca.certPem then (ca.accepted, [.setCaFile (ascii "/etc/ssl/cert.pem")])
  else if ca.caBundle then
    (ca.accepted, [.setCaFile (ascii "/etc/ssl/certs/ca-certificates.crt")])
  else (false, [])

/-- What `ResolveDot` does to `cfg`: it goes on without verification where there are no
certificates to verify with. -/
def configCalls (dotVerify : Bool) (ca : CaFiles) : List NetCall :=
  let disable := [.insecureNoverifycert, .insecureNoverifyname]
  let (insecure, calls) :=
    if dotVerify then
      let (ok, calls) := configureTls ca
      if ok then (false, calls) else (true, calls ++ disable)
    else (true, [])
  if insecure then calls ++ disable else calls

/-- What everything that `ResolveDot` calls returns, in its order. -/
structure DotAnswers where
  tlsInit : Bool
  addresses : Option (List AddressAnswers)
  configNew : Bool
  ca : CaFiles
  client : Bool
  configure : Bool
  connectSocket : Bool
  turns : List TlsTurn
  deriving DecidableEq, Repr

/-- `ResolveDot` from `tls_config_new` to `tls_connect_socket`. -/
def tlsHandshake (dotVerify : Bool) (host : Bytes) (sock : Nat) (a : DotAnswers) :
    Bool × List NetCall :=
  if a.configNew = false then (false, [.configNew false, .close sock])
  else
    let configured := .configNew true :: configCalls dotVerify a.ca
    if a.client = false then
      (false, configured ++ [.client false, .configFree, .close sock])
    else if a.configure = false then
      (false, configured ++ [.client true, .configure false, .tlsError, .tlsFree, .configFree,
        .close sock])
    else
      let connecting := configured ++ [.client true, .configure true, .configFree]
      if a.connectSocket = false then
        (false, connecting ++ [.connectSocket sock (cStr host) false, .tlsError, .tlsFree,
          .close sock])
      else (true, connecting ++ [.connectSocket sock (cStr host) true])

/-- What a `ResolveDot` leaves: its calls, `tls_inited`, `*used_server`, and what it returns with
the bytes sent and left by then, unless it still waits. -/
structure DotRun where
  calls : List NetCall
  tlsInited : Bool
  usedServer : Option Bytes
  returned : Option (Bool × DotState)
  deriving DecidableEq, Repr

/-- `ResolveDot`. -/
def resolveDotRun (dotServers : List Bytes) (dotVerify tlsInited : Bool) (query : Bytes)
    (a : DotAnswers) (s : DotState) : DotRun :=
  match dotServers with
  | [] => ⟨[], tlsInited, none, some (false, s)⟩
  | input :: _ =>
    if tlsInited = false ∧ a.tlsInit = false then
      ⟨[.tlsInit false], false, none, some (false, s)⟩
    else
      let init := if tlsInited then [] else [.tlsInit true]
      match parseDotServer input with
      | none => ⟨init, true, none, some (false, s)⟩
      | some (host, connectHost, port) =>
        let connectHost := if connectHost.isEmpty then host else connectHost
        let server := some (host ++ ascii "@" ++ connectHost ++ ascii ":" ++ decimal port.toNat)
        match connectTcp connectHost port a.addresses with
        | (none, connecting) => ⟨init ++ connecting, true, server, some (false, s)⟩
        | (some sock, connecting) =>
          match tlsHandshake dotVerify host sock a with
          | (false, handshake) =>
            ⟨init ++ connecting ++ handshake, true, server, some (false, s)⟩
          | (true, handshake) =>
            let exchange := if query.length > 0xFFFF then [] else [.exchange sock]
            let calls := init ++ connecting ++ handshake ++ exchange
            let leaving := [.tlsClose, .tlsFree, .close sock]
            match resolveDotConnected query s a.turns with
            | .pending => ⟨calls, true, server, none⟩
            | .failed s => ⟨calls ++ leaving, true, server, some (false, s)⟩
            | .done _ s _ => ⟨calls ++ leaving, true, server, some (true, s)⟩

/-! ## What is open -/

section
variable {held : List NetHandle}

theorem openAfter_append (held : List NetHandle) (calls more : List NetCall) :
    openAfter held (calls ++ more) = (openAfter held calls).bind (openAfter · more) := by
  unfold openAfter
  rw [List.flatMap_append, heldAfter_append]

theorem openAfter_cons (held : List NetHandle) (call : NetCall) (calls : List NetCall) :
    openAfter held (call :: calls) = (openAfter held [call]).bind (openAfter · calls) :=
  openAfter_append held [call] calls

/-- A turn that fails leaves only the list open, and one that succeeds the socket too. -/
theorem openAfter_tryAddress (a : AddressAnswers) :
    openAfter [.addresses] (tryAddress a).2 =
      some ((tryAddress a).1.toList.map .socket ++ [.addresses]) := by
  obtain ⟨socket, getFlags, setFlags, connect⟩ := a
  unfold tryAddress openAfter
  cases socket with
  | none => rfl
  | some sock =>
    dsimp only
    split_ifs
    · simp [heldAfter, NetCall.uses, HandleUse.on]
    · simp [heldAfter, NetCall.uses, HandleUse.on]
    · cases connect with
      | connected => simp [heldAfter, NetCall.uses, HandleUse.on]
      | refused => simp [heldAfter, NetCall.uses, HandleUse.on]
      | inProgress writable noError =>
        dsimp only
        split_ifs <;> simp [heldAfter, NetCall.uses, HandleUse.on]

theorem openAfter_connectLoop (addresses : List AddressAnswers) :
    openAfter [.addresses] (connectLoop addresses).2 =
      some ((connectLoop addresses).1.toList.map .socket ++ [.addresses]) := by
  induction addresses with
  | nil => rfl
  | cons a rest ih =>
    have hturn := openAfter_tryAddress a
    unfold connectLoop
    generalize tryAddress a = turn at hturn ⊢
    obtain ⟨fd, calls⟩ := turn
    cases fd with
    | some sock => exact hturn
    | none =>
      dsimp only at hturn ⊢
      rw [openAfter_append, hturn]
      exact ih

/-- `ConnectTcp` leaves its socket open, or nothing. -/
theorem openAfter_connectTcp (host : Bytes) (port : Int)
    (addresses : Option (List AddressAnswers)) :
    openAfter [] (connectTcp host port addresses).2 =
      some ((connectTcp host port addresses).1.toList.map .socket) := by
  cases addresses with
  | none => rfl
  | some addresses =>
    have hloop := openAfter_connectLoop addresses
    have hlist : openAfter [] [.getaddrinfo (cStr host) port true] = some [.addresses] := rfl
    simp only [connectTcp]
    rw [List.cons_append, openAfter_cons, hlist, Option.bind_some, openAfter_append, hloop,
      Option.bind_some]
    cases (connectLoop addresses).1 <;> simp [openAfter, heldAfter, NetCall.uses, HandleUse.on]

theorem openAfter_configCalls (dotVerify : Bool) (ca : CaFiles) (h : .config ∈ held) :
    openAfter held (configCalls dotVerify ca) = some held := by
  obtain ⟨certsDir, certPem, caBundle, accepted⟩ := ca
  unfold configCalls configureTls openAfter
  cases dotVerify
  · simp [heldAfter, NetCall.uses, HandleUse.on, h]
  · cases certsDir <;> cases certPem <;> cases caBundle <;> cases accepted <;>
      simp [heldAfter, NetCall.uses, HandleUse.on, h]

/-- A handshake that fails leaves nothing open, and one that succeeds the context and the
socket. -/
theorem openAfter_tlsHandshake (dotVerify : Bool) (host : Bytes) (sock : Nat) (a : DotAnswers) :
    openAfter [.socket sock] (tlsHandshake dotVerify host sock a).2 =
      some (if (tlsHandshake dotVerify host sock a).1 then [.context, .socket sock] else []) := by
  have hconfigured : openAfter [.socket sock] (.configNew true :: configCalls dotVerify a.ca) =
      some [.config, .socket sock] := by
    have hnew : openAfter [.socket sock] [.configNew true] = some [.config, .socket sock] := by
      simp [openAfter, heldAfter, NetCall.uses, HandleUse.on]
    rw [openAfter_cons, hnew, Option.bind_some, openAfter_configCalls _ _ (List.mem_cons_self ..)]
  unfold tlsHandshake
  cases a.configNew
  · simp [openAfter, heldAfter, NetCall.uses, HandleUse.on]
  cases a.client
  · simp only [Bool.true_eq_false, if_false, if_true, openAfter_append, hconfigured,
      Option.bind_some]
    simp [openAfter, heldAfter, NetCall.uses, HandleUse.on]
  cases a.configure
  · simp only [Bool.true_eq_false, if_false, if_true, openAfter_append, hconfigured,
      Option.bind_some]
    simp [openAfter, heldAfter, NetCall.uses, HandleUse.on]
  cases a.connectSocket <;>
    simp only [Bool.true_eq_false, if_false, if_true, openAfter_append, hconfigured,
      Option.bind_some] <;>
    simp [openAfter, heldAfter, NetCall.uses, HandleUse.on]

end

/-! ## Where TLS comes in -/

/-- The calls on `cfg` and `ctx`. -/
def NetCall.isTls : NetCall → Bool
  | .configNew _ | .setCaPath _ | .setCaFile _ | .insecureNoverifycert | .insecureNoverifyname
  | .client _ | .configure _ | .configFree | .connectSocket _ _ _ | .tlsError | .exchange _
  | .tlsClose | .tlsFree => true
  | _ => false

theorem isTls_of_mem_tryAddress (a : AddressAnswers) : ∀ c ∈ (tryAddress a).2, c.isTls = false := by
  obtain ⟨socket, getFlags, setFlags, connect⟩ := a
  unfold tryAddress
  cases socket with
  | none => simp [NetCall.isTls]
  | some sock =>
    dsimp only
    split_ifs
    · simp [NetCall.isTls]
    · simp [NetCall.isTls]
    · cases connect with
      | connected | refused => simp [NetCall.isTls]
      | inProgress writable noError =>
        dsimp only
        split_ifs <;> simp [NetCall.isTls]

theorem isTls_of_mem_connectLoop (addresses : List AddressAnswers) :
    ∀ c ∈ (connectLoop addresses).2, c.isTls = false := by
  induction addresses with
  | nil => simp [connectLoop]
  | cons a rest ih =>
    have hturn := isTls_of_mem_tryAddress a
    unfold connectLoop
    generalize tryAddress a = turn at hturn ⊢
    obtain ⟨_ | sock, calls⟩ := turn
    · exact List.forall_mem_append.mpr ⟨hturn, ih⟩
    · exact hturn

theorem isTls_of_mem_connectTcp (host : Bytes) (port : Int)
    (addresses : Option (List AddressAnswers)) :
    ∀ c ∈ (connectTcp host port addresses).2, c.isTls = false := by
  cases addresses with
  | none => simp [connectTcp, NetCall.isTls]
  | some addresses =>
    have hloop := isTls_of_mem_connectLoop addresses
    simp only [connectTcp]
    refine List.forall_mem_append.mpr ⟨List.forall_mem_cons.mpr ⟨rfl, hloop⟩, ?_⟩
    simp [NetCall.isTls]

/-- Verification is given up where it is not asked for, and where there is nothing to verify
with. -/
theorem insecure_mem_configCalls (dotVerify : Bool) (ca : CaFiles) {c : NetCall}
    (hc : c = .insecureNoverifycert ∨ c = .insecureNoverifyname) :
    c ∈ configCalls dotVerify ca ↔ ¬ (dotVerify = true ∧ (configureTls ca).1 = true) := by
  obtain ⟨certsDir, certPem, caBundle, accepted⟩ := ca
  unfold configCalls configureTls
  obtain rfl | rfl := hc
  all_goals
    cases dotVerify
    · simp
    · cases certsDir <;> cases certPem <;> cases caBundle <;> cases accepted <;> simp

theorem exchange_notMem_configCalls (dotVerify : Bool) (ca : CaFiles) (fd : Nat) :
    .exchange fd ∉ configCalls dotVerify ca := by
  obtain ⟨certsDir, certPem, caBundle, accepted⟩ := ca
  unfold configCalls configureTls
  cases dotVerify
  · simp
  · cases certsDir <;> cases certPem <;> cases caBundle <;> cases accepted <;> simp

theorem exchange_notMem_tlsHandshake (dotVerify : Bool) (host : Bytes) (sock : Nat)
    (a : DotAnswers) (fd : Nat) : .exchange fd ∉ (tlsHandshake dotVerify host sock a).2 := by
  have hconfig := exchange_notMem_configCalls dotVerify a.ca fd
  unfold tlsHandshake
  split_ifs <;> simp [hconfig]

/-- A handshake that succeeds ends with `tls_connect_socket`, on a configuration that verifies where
it should. -/
theorem exists_connectSocket {dotVerify : Bool} {host : Bytes} {sock : Nat} {a : DotAnswers}
    (h : (tlsHandshake dotVerify host sock a).1 = true) :
    ∃ before, (tlsHandshake dotVerify host sock a).2 =
        before ++ [.connectSocket sock (cStr host) true] ∧
      ∀ c, c = .insecureNoverifycert ∨ c = .insecureNoverifyname →
        (c ∈ before ↔ ¬ (dotVerify = true ∧ (configureTls a.ca).1 = true)) := by
  unfold tlsHandshake at h ⊢
  split_ifs at h ⊢
  refine ⟨_, rfl, fun c hc => ?_⟩
  rw [← insecure_mem_configCalls dotVerify a.ca hc]
  obtain rfl | rfl := hc <;> simp

/-! ## The ways through `ResolveDot` -/

/-- What `ResolveDot` returns from behind the handshake. -/
def dotReturned : Scripted.Ending DotState TlsTurn Unit → Option (Bool × DotState)
  | .pending => none
  | .failed s => some (false, s)
  | .done _ s _ => some (true, s)

/-- The ways through `ResolveDot`: it stops on the way to a peer, with nothing left open, or it gets
there. -/
inductive DotPath (dotServers : List Bytes) (dotVerify : Bool) (query : Bytes) (a : DotAnswers)
    (s : DotState) : DotRun → Prop
  | stopped {calls : List NetCall} {inited : Bool} {server : Option Bytes} :
      openAfter [] calls = some [] → (∀ fd, .exchange fd ∉ calls) →
      DotPath dotServers dotVerify query a s ⟨calls, inited, server, some (false, s)⟩
  | connected {input host connectHost : Bytes} {port : Int} {sock : Nat} {before : List NetCall}
      (server : Option Bytes) :
      dotServers.head? = some input → parseDotServer input = some (host, connectHost, port) →
      openAfter [] before = some [.socket sock] → (∀ c ∈ before, c.isTls = false) →
      (tlsHandshake dotVerify host sock a).1 = true →
      DotPath dotServers dotVerify query a s
        ⟨before ++ (tlsHandshake dotVerify host sock a).2 ++
          (if query.length > 0xFFFF then [] else [.exchange sock]) ++
          (if (dotReturned (resolveDotConnected query s a.turns)).isNone then []
            else [.tlsClose, .tlsFree, .close sock]),
          true, server, dotReturned (resolveDotConnected query s a.turns)⟩

theorem resolveDotRun_path (dotServers : List Bytes) (dotVerify tlsInited : Bool) (query : Bytes)
    (a : DotAnswers) (s : DotState) :
    DotPath dotServers dotVerify query a s
      (resolveDotRun dotServers dotVerify tlsInited query a s) := by
  unfold resolveDotRun
  cases dotServers with
  | nil => exact .stopped rfl (by simp)
  | cons input rest =>
    dsimp only
    by_cases hfail : tlsInited = false ∧ a.tlsInit = false
    · rw [if_pos hfail]
      exact .stopped rfl (by simp)
    rw [if_neg hfail]
    have hinit : openAfter [] (if tlsInited then [] else [.tlsInit true]) = some [] ∧
        ∀ c ∈ (if tlsInited then [] else [NetCall.tlsInit true]), c.isTls = false := by
      split_ifs <;> exact ⟨rfl, by simp [NetCall.isTls]⟩
    generalize (if tlsInited then [] else [NetCall.tlsInit true]) = init at hinit ⊢
    obtain ⟨hclosed, hplain⟩ := hinit
    have hquiet : ∀ {calls : List NetCall}, (∀ c ∈ calls, c.isTls = false) →
        ∀ fd, .exchange fd ∉ calls := fun h fd hmem => Bool.noConfusion (h _ hmem)
    cases hinput : parseDotServer input with
    | none => exact .stopped hclosed (hquiet hplain)
    | some address =>
      obtain ⟨host, connectHost, port⟩ := address
      dsimp only
      generalize (if connectHost.isEmpty then host else connectHost) = peer
      have hopen := openAfter_connectTcp peer port a.addresses
      have htcp := isTls_of_mem_connectTcp peer port a.addresses
      generalize connectTcp peer port a.addresses = tcp at hopen htcp ⊢
      obtain ⟨fd, connecting⟩ := tcp
      have hbefore : openAfter [] (init ++ connecting) = some (fd.toList.map .socket) := by
        rw [openAfter_append, hclosed]
        exact hopen
      have hplain' : ∀ c ∈ init ++ connecting, c.isTls = false :=
        List.forall_mem_append.mpr ⟨hplain, htcp⟩
      cases fd with
      | none => exact .stopped hbefore (hquiet hplain')
      | some sock =>
        dsimp only
        have hshake := openAfter_tlsHandshake dotVerify host sock a
        have hsilent := exchange_notMem_tlsHandshake dotVerify host sock a
        cases htls : tlsHandshake dotVerify host sock a with
        | mk ok handshake =>
          rw [htls] at hshake hsilent
          cases ok with
          | false =>
            refine .stopped ?_ fun fd => by simp [hquiet hplain fd, hquiet htcp fd, hsilent fd]
            rw [openAfter_append, hbefore]
            exact hshake
          | true =>
            have hpath : DotPath (input :: rest) dotVerify query a s _ :=
              .connected (some (host ++ ascii "@" ++ peer ++ ascii ":" ++ decimal port.toNat))
                rfl hinput hbefore hplain' (congrArg Prod.fst htls)
            rw [htls] at hpath
            dsimp only at hpath ⊢
            cases hrun : resolveDotConnected query s a.turns <;>
              simpa [hrun, dotReturned] using hpath

/-! ## What is left open -/

section
variable {dotServers : List Bytes} {dotVerify : Bool} {query : Bytes} {a : DotAnswers}
  {s : DotState} {run : DotRun}

/-- Only a run that still waits has something open. -/
theorem DotPath.openAfter_calls (h : DotPath dotServers dotVerify query a s run) :
    ∃ held, openAfter [] run.calls = some held ∧ (run.returned.isSome → held = []) := by
  cases h with
  | stopped hclosed _ => exact ⟨[], hclosed, fun _ => rfl⟩
  | @connected input host connectHost port sock before server hhead hparse hbefore hplain hshake =>
    have htls := openAfter_tlsHandshake dotVerify host sock a
    rw [hshake, if_pos rfl] at htls
    have hexchange : openAfter [.context, .socket sock]
        (if query.length > 0xFFFF then [] else [.exchange sock]) =
          some [.context, .socket sock] := by
      split_ifs <;> simp [openAfter, heldAfter, NetCall.uses, HandleUse.on]
    dsimp only
    simp only [openAfter_append, hbefore, htls, hexchange, Option.bind_some]
    cases dotReturned (resolveDotConnected query s a.turns) with
    | none => exact ⟨_, rfl, by simp⟩
    | some result =>
      refine ⟨[], ?_, fun _ => rfl⟩
      simp [openAfter, heldAfter, NetCall.uses, HandleUse.on]

theorem openAfter_resolveUdpCalls (pton : InetPton) (udpServers : List Bytes) (x : UdpExchange)
    (fd : Nat) : openAfter [] (resolveUdpCalls pton udpServers x fd) = some [] := by
  unfold resolveUdpCalls
  cases udpServers with
  | nil => rfl
  | cons server rest =>
    dsimp only
    split_ifs <;> simp [openAfter, heldAfter, NetCall.uses, HandleUse.on]

end

/-- Whatever the system and the TLS library answer: `ResolveUdp`, and `ResolveDot` on each of its
ways out, close the list, the sockets, `cfg` and `ctx` as often as they opened them, and in every
run, also in one that still waits, these are used and closed only while they are open. -/
theorem resolvers_close_what_they_open (pton : InetPton) (udpServers dotServers : List Bytes)
    (dotVerify tlsInited : Bool) (query : Bytes) (x : UdpExchange) (fd : Nat) (a : DotAnswers)
    (s : DotState) :
    let udp := (resolveUdpCalls pton udpServers x fd).flatMap NetCall.uses
    let run := resolveDotRun dotServers dotVerify tlsInited query a s
    let dot := run.calls.flatMap NetCall.uses
    (UsedWhileOpen udp ∧ AllClosed udp) ∧
      UsedWhileOpen dot ∧ (run.returned.isSome → AllClosed dot) := by
  have hudp := openAfter_resolveUdpCalls pton udpServers x fd
  obtain ⟨held, hdot, hempty⟩ :=
    (resolveDotRun_path dotServers dotVerify tlsInited query a s).openAfter_calls
  refine ⟨⟨usedWhileOpen_of_heldAfter hudp, allClosed_of_heldAfter hudp⟩,
    usedWhileOpen_of_heldAfter hdot, fun hreturned => ?_⟩
  obtain rfl := hempty hreturned
  exact allClosed_of_heldAfter hdot

/-! ## What leaves for whom -/

/-- A query that does not fit in two bytes is not sent. -/
theorem resolveDotConnected_long {query : Bytes} (hlong : query.length > 0xFFFF) (s : DotState)
    (turns : List TlsTurn) : resolveDotConnected query s turns = .failed s := by
  unfold resolveDotConnected
  rw [if_pos hlong]
  rfl

/-- What has been sent when it returns. -/
theorem sent_of_dotReturned {query : Bytes} {s s' : DotState} {turns : List TlsTurn} {ok : Bool}
    (h : dotReturned (resolveDotConnected query s turns) = some (ok, s')) :
    ∃ k, s'.sent = s.sent ++ (frame query).take k := by
  have htriple := resolveDotConnected_triple s query
  cases hrun : resolveDotConnected query s turns with
  | pending => simp [hrun, dotReturned] at h
  | failed t =>
    rw [hrun] at h
    obtain ⟨-, rfl⟩ := Prod.mk.inj (Option.some.inj h)
    exact (htriple.of_failed rfl hrun).sent
  | done u t rest =>
    rw [hrun] at h
    obtain ⟨-, rfl⟩ := Prod.mk.inj (Option.some.inj h)
    exact ⟨(frame query).length, by rw [List.take_length, (htriple.of_done rfl hrun).sent]⟩

/-- Bytes of the query are written only behind a handshake with the peer that the first address in
the configuration names, and with verification on unless it is not asked for or `ConfigureTls`
finds no certificates. No other bytes are sent. -/
theorem dot_query_goes_to_peer (dotServers : List Bytes) (dotVerify tlsInited : Bool)
    (query : Bytes) (a : DotAnswers) (s : DotState) :
    let run := resolveDotRun dotServers dotVerify tlsInited query a s
    (∀ fd, .exchange fd ∈ run.calls → ∃ input host connectHost port before after,
      dotServers.head? = some input ∧ parseDotServer input = some (host, connectHost, port) ∧
        run.calls = before ++ .connectSocket fd (cStr host) true :: .exchange fd :: after ∧
        ∀ c, c = .insecureNoverifycert ∨ c = .insecureNoverifyname →
          (c ∈ before ↔ ¬ (dotVerify = true ∧ (configureTls a.ca).1 = true))) ∧
    ∀ ok s', run.returned = some (ok, s') →
      (∃ k, s'.sent = s.sent ++ (frame query).take k) ∧
        ((∀ fd, .exchange fd ∉ run.calls) → s' = s) := by
  dsimp only
  have hpath := resolveDotRun_path dotServers dotVerify tlsInited query a s
  generalize resolveDotRun dotServers dotVerify tlsInited query a s = run at hpath
  cases hpath with
  | stopped hclosed hsilent =>
    refine ⟨fun fd hmem => absurd hmem (hsilent fd), fun ok s' hreturned => ?_⟩
    obtain ⟨-, rfl⟩ := Prod.mk.inj (Option.some.inj hreturned)
    exact ⟨⟨0, by simp⟩, fun _ => rfl⟩
  | @connected input host connectHost port sock before server hhead hparse hbefore hplain hshake =>
    have hsilent := exchange_notMem_tlsHandshake dotVerify host sock a
    obtain ⟨pre, hpre, hinsecure⟩ := exists_connectSocket hshake
    constructor
    · intro fd hmem
      dsimp only at hmem ⊢
      generalize hleaving : (if (dotReturned (resolveDotConnected query s a.turns)).isNone then []
        else [.tlsClose, .tlsFree, .close sock] : List NetCall) = leaving at hmem ⊢
      have hleave : .exchange fd ∉ leaving := by
        rw [← hleaving]
        split_ifs <;> simp
      have hplain' : .exchange fd ∉ before := fun hc => Bool.noConfusion (hplain _ hc)
      rw [List.mem_append, List.mem_append, List.mem_append, or_iff_left hleave,
        or_iff_right (not_or.mpr ⟨hplain', hsilent fd⟩)] at hmem
      split_ifs at hmem with hlong
      · simp at hmem
      obtain rfl : fd = sock := by simpa using hmem
      refine ⟨input, host, connectHost, port, before ++ pre, leaving, hhead, hparse, ?_, ?_⟩
      · simp [hpre, hlong]
      · intro c hc
        rw [List.mem_append, or_iff_right, hinsecure c hc]
        intro hmem
        obtain rfl | rfl := hc
        all_goals exact Bool.noConfusion (hplain _ hmem)
    · intro ok s' hreturned
      refine ⟨sent_of_dotReturned hreturned, fun hnone => ?_⟩
      by_cases hlong : query.length > 0xFFFF
      · rw [resolveDotConnected_long hlong] at hreturned
        obtain ⟨-, rfl⟩ := Prod.mk.inj (Option.some.inj hreturned)
        rfl
      · exact absurd (by simp [hlong]) (hnone sock)

/-! ## Seen from the server -/

theorem resolveDot_eq {query : Bytes} {x : DotExchange} {response : Option Bytes}
    (h : (resolveDot query x).response = response) :
    resolveDot query x = ⟨response, x.server⟩ := by
  subst h
  rw [← resolveDot_usedServer query x]

/-- A `ResolveDot` that returns is one exchange over bytes that the peer sent, which is established
where the query could be written; if it fails, the response is not touched. -/
theorem resolveDotRun_refines (dotServers : List Bytes) (dotVerify tlsInited : Bool)
    (query : Bytes) (a : DotAnswers) (s : DotState) :
    let run := resolveDotRun dotServers dotVerify tlsInited query a s
    ∀ ok s', run.returned = some (ok, s') → (ok = false → s'.response = s.response) ∧
      ∃ x : DotExchange, (x.established = true ↔ ∃ fd, .exchange fd ∈ run.calls) ∧
        x.stream <+: s.incoming ∧
        resolveDot query x = ⟨if ok then some s'.response else none, run.usedServer⟩ := by
  intro run ok s' hreturned
  have hpath : DotPath dotServers dotVerify query a s run := resolveDotRun_path ..
  clear_value run
  cases hpath with
  | @stopped calls inited server hclosed hsilent =>
    obtain ⟨rfl, rfl⟩ := Prod.mk.inj (Option.some.inj hreturned)
    refine ⟨fun _ => rfl, ⟨server, false, []⟩, ?_, List.nil_prefix, rfl⟩
    exact iff_of_false Bool.false_ne_true fun ⟨fd, hmem⟩ => hsilent fd hmem
  | @connected input host connectHost port sock before server hhead hparse hbefore hplain hshake =>
    have hsilent := exchange_notMem_tlsHandshake dotVerify host sock a
    obtain ⟨hdone, hfailed⟩ := resolveDotConnected_refines query server s a.turns
    by_cases hlong : query.length > 0xFFFF
    · rw [resolveDotConnected_long hlong] at hreturned
      obtain ⟨rfl, rfl⟩ := Prod.mk.inj (Option.some.inj hreturned)
      refine ⟨fun _ => rfl, ⟨server, false, []⟩, ?_, List.nil_prefix, rfl⟩
      refine iff_of_false Bool.false_ne_true fun ⟨fd, hmem⟩ => ?_
      have hplain' : .exchange fd ∉ before := fun hc => Bool.noConfusion (hplain _ hc)
      simp [hlong, hplain', hsilent fd, resolveDotConnected_long hlong, dotReturned] at hmem
    have hexchange : ∃ fd, .exchange fd ∈ before ++ (tlsHandshake dotVerify host sock a).2 ++
        (if query.length > 0xFFFF then [] else [.exchange sock]) ++
        (if (dotReturned (resolveDotConnected query s a.turns)).isNone then []
          else [.tlsClose, .tlsFree, .close sock]) := ⟨sock, by simp [hlong]⟩
    cases hrun : resolveDotConnected query s a.turns with
    | pending => simp [hrun, dotReturned] at hreturned
    | failed t =>
      rw [hrun] at hreturned
      obtain ⟨rfl, rfl⟩ := Prod.mk.inj (Option.some.inj hreturned)
      obtain ⟨k, -, hnone⟩ := hfailed _ hrun
      have hkept := ((resolveDotConnected_triple s query).of_failed rfl hrun).response
      refine ⟨fun _ => hkept, ⟨server, true, s.incoming.take k⟩, iff_of_true rfl ?_,
        List.take_prefix .., resolveDot_eq hnone⟩
      exact hrun ▸ hexchange
    | done u t rest =>
      rw [hrun] at hreturned
      obtain ⟨rfl, rfl⟩ := Prod.mk.inj (Option.some.inj hreturned)
      refine ⟨fun h => Bool.noConfusion h, ⟨server, true, s.incoming⟩, iff_of_true rfl ?_,
        List.prefix_rfl, resolveDot_eq (hdone _ rest hrun)⟩
      exact hrun ▸ hexchange

/-- The first address refuses the connection, the second takes it and answers. -/
def answeringPeer : DotAnswers where
  tlsInit := true
  addresses := some [⟨some 5, true, true, .refused⟩, ⟨some 5, true, true, .inProgress true true⟩]
  configNew := true
  ca := ⟨true, false, false, true⟩
  client := true
  configure := true
  connectSocket := true
  turns := [⟨.count 2, false⟩, ⟨.count 1, false⟩, ⟨.count 2, false⟩, ⟨.count 2, false⟩]

theorem resolveDotRun_refines_answer :
    let run := resolveDotRun [ascii "dns@1.1.1.1"] true false [7] answeringPeer
      ⟨[], [0, 2, 9, 8], []⟩
    run.calls.count (.close 5) = 2 ∧ ∃ x : DotExchange,
      (x.established = true ↔ ∃ fd, .exchange fd ∈ run.calls) ∧ x.stream <+: [0, 2, 9, 8] ∧
        resolveDot [7] x = ⟨some [9, 8], run.usedServer⟩ :=
  ⟨by decide +kernel,
    (resolveDotRun_refines [ascii "dns@1.1.1.1"] true false [7] answeringPeer
      ⟨[], [0, 2, 9, 8], []⟩ true ⟨[0, 1, 7], [], [9, 8]⟩ (by decide +kernel)).2⟩

end Gravastar
