import Gravastar.DnsPacket.Build

/-!
# Asking an upstream server (`upstream_resolver.cpp`)

The network is a parameter: an exchange says what each socket call does, and
any exchange may happen. Only the bytes that reach the caller matter here, so
everything up to a written DoT query is one flag, and TLS is the stream of bytes
that the peer sends before it stops.
-/

namespace Gravastar

/-- What the socket calls of one `ResolveUdp` do. The datagram may come from anyone. -/
structure UdpExchange where
  socketOk : Bool
  sendOk : Bool
  ready : Bool
  datagram : Option Bytes
  deriving DecidableEq, Repr

/-- What one `ResolveDot` meets: the text it leaves in `*used_server`, whether the query was
written over an established TLS connection, and the stream that comes back. -/
structure DotExchange where
  server : Option Bytes
  established : Bool
  stream : Bytes
  deriving DecidableEq, Repr

/-- `*response` and `*used_server`, `none` where they are left alone. -/
structure Resolved where
  response : Option Bytes
  usedServer : Option Bytes
  deriving DecidableEq, Repr

/-- The size of the receive buffer. -/
def udpBufferSize : Nat := 4096

/-- `ResolveUdp`: the first datagram that arrives, cut to the buffer. -/
def resolveUdp (pton : InetPton) (udpServers : List Bytes) (x : UdpExchange) : Resolved :=
  match udpServers with
  | [] => ⟨none, none⟩
  | server :: _ =>
    if x.socketOk = false then ⟨none, some server⟩
    else if (pton.inet (cStr server)).isNone then ⟨none, some server⟩
    else if x.sendOk = false then ⟨none, some server⟩
    else if x.ready = false then ⟨none, some server⟩
    else
      match x.datagram with
      | none => ⟨none, some server⟩
      | some datagram =>
        let got := datagram.take udpBufferSize
        if got.isEmpty then ⟨none, some server⟩ else ⟨some got, some server⟩

/-- `TlsReadAll`: `n` bytes and what follows them, unless the stream ends first. -/
def tlsReadAll (n : Nat) (stream : Bytes) : Option (Bytes × Bytes) :=
  if n ≤ stream.length then some (stream.take n, stream.drop n) else none

/-- `ResolveDot`: a two-byte length and as many bytes. -/
def resolveDot (query : Bytes) (x : DotExchange) : Resolved :=
  if x.established = false then ⟨none, x.server⟩
  else if query.length > 0xFFFF then ⟨none, x.server⟩
  else
    match tlsReadAll 2 x.stream with
    | none => ⟨none, x.server⟩
    | some (lenBuf, stream) =>
      let respLen := (lenBuf.getD 0 0).toNat <<< 8 ||| (lenBuf.getD 1 0).toNat
      if respLen = 0 then ⟨none, x.server⟩
      else
        match tlsReadAll respLen stream with
        | none => ⟨none, x.server⟩
        | some (buf, _) => ⟨some buf, x.server⟩

/-- `ResolveUdp` names the first server, whatever comes of it. -/
theorem resolveUdp_usedServer (pton : InetPton) (udpServers : List Bytes) (x : UdpExchange) :
    (resolveUdp pton udpServers x).usedServer = udpServers.head? := by
  cases udpServers with
  | nil => rfl
  | cons server _ =>
    rw [resolveUdp]
    split_ifs
    any_goals rfl
    split
    · rfl
    · dsimp only
      split_ifs <;> rfl

theorem resolveDot_usedServer (query : Bytes) (x : DotExchange) :
    (resolveDot query x).usedServer = x.server := by
  rw [resolveDot]
  split_ifs
  any_goals rfl
  split
  · rfl
  · dsimp only
    split_ifs
    · rfl
    · split <;> rfl

end Gravastar
