import Gravastar.Lib.Scripted
import Gravastar.UpstreamResolver

/-!
# Framing over TLS

`ResolveDot` behind the handshake. What `tls_write` and `tls_read` return, and
whether `WaitForSocket` finds the socket ready, is a script; a count that is
returned moves so many bytes of the buffer, and nothing else moves any.
-/

namespace Gravastar

/-- What a call of `tls_write` or `tls_read` returns. -/
inductive TlsResult where
  | count (n : Nat)
  | zero
  | wantPollin
  | wantPollout
  | error
  deriving DecidableEq, Repr

/-- A result, and what `WaitForSocket` says if it is asked then. -/
structure TlsTurn where
  result : TlsResult
  ready : Bool
  deriving DecidableEq, Repr

/-- The bytes written so far, the bytes that are still to be read, and `*response`. -/
structure DotState where
  sent : Bytes
  incoming : Bytes
  response : Bytes
  deriving DecidableEq, Repr

abbrev Dot := Scripted DotState TlsTurn

/-- `tls_write` of a buffer, where it returns a count. -/
def tlsWrite (buf : Bytes) (n : Nat) (s : DotState) : Option DotState :=
  if 1 ≤ n ∧ n ≤ buf.length then some { s with sent := s.sent ++ buf.take n } else none

/-- `tls_read` of at most `size` bytes, where it returns a count. -/
def tlsRead (size n : Nat) (s : DotState) : Option (Bytes × DotState) :=
  if 1 ≤ n ∧ n ≤ size ∧ n ≤ s.incoming.length then
    some (s.incoming.take n, { s with incoming := s.incoming.drop n })
  else none

/-- A turn of the loop in `TlsWriteAll`. -/
def tlsWriteTurn (data : Bytes) (offset : Nat) (turn : TlsTurn) (s : DotState) :
    Turn DotState Nat :=
  match turn.result with
  | .count n =>
    match tlsWrite (data.drop offset) n s with
    | none => .stuck
    | some s => .next (offset + n) s
  | .wantPollin | .wantPollout => if turn.ready then .next offset s else .failed s
  | .zero | .error => .failed s

def tlsWriteAll (data : Bytes) : Dot Nat :=
  .loop (fun offset => offset < data.length) (tlsWriteTurn data) 0

/-- A turn of the loop in `TlsReadAll`, with the offset and the buffer. -/
def tlsReadTurn (b : Nat × Bytes) (turn : TlsTurn) (s : DotState) : Turn DotState (Nat × Bytes) :=
  let (offset, data) := b
  match turn.result with
  | .count n =>
    match tlsRead (data.length - offset) n s with
    | none => .stuck
    | some (got, s) => .next (offset + n, data.take offset ++ got ++ data.drop (offset + n)) s
  | .zero => .failed s
  | .wantPollin | .wantPollout => if turn.ready then .next (offset, data) s else .failed s
  | .error => .failed s

/-- `TlsReadAll` into a buffer. -/
def tlsReadInto (data : Bytes) : Dot (Nat × Bytes) :=
  .loop (fun (offset, data) => offset < data.length) tlsReadTurn (0, data)

/-- `ResolveDot`, once it is connected. -/
def resolveDotConnected (query : Bytes) : Dot Unit := do
  if query.length > 0xFFFF then Scripted.fail
  else
    let _ ← tlsWriteAll [UInt8.ofNat (query.length >>> 8 &&& 0xff),
      UInt8.ofNat (query.length &&& 0xff)]
    let _ ← tlsWriteAll query
    let (_, lenBuf) ← tlsReadInto [0, 0]
    let respLen := (lenBuf.getD 0 0).toNat <<< 8 ||| (lenBuf.getD 1 0).toNat
    if respLen = 0 then Scripted.fail
    else
      let (_, buf) ← tlsReadInto (List.replicate respLen 0)
      Scripted.modify fun s => { s with response := buf }

/-- A message with its length in two bytes in front. -/
def frame (message : Bytes) : Bytes :=
  UInt8.ofNat (message.length / 256) :: UInt8.ofNat (message.length % 256) :: message

/-! ## Lengths in two bytes -/

theorem frame_length_bytes {message : Bytes} (h : message.length ≤ 65535) :
    [UInt8.ofNat (message.length >>> 8 &&& 0xff),
      UInt8.ofNat (message.length &&& 0xff)] ++ message = frame message := by
  rw [shiftRight_and_byte (Nat.lt_succ_of_le h), and_byte]
  rfl

/-- The length that two bytes say. -/
def lengthOf (hi lo : UInt8) : Nat := hi.toNat <<< 8 ||| lo.toNat

theorem lengthOf_eq (hi lo : UInt8) : lengthOf hi lo = hi.toNat * 256 + lo.toNat :=
  shiftLeft_or_byte hi.toNat lo

theorem lengthOf_le (hi lo : UInt8) : lengthOf hi lo ≤ 65535 := by
  have hhi := hi.toNat_lt
  have hlo := lo.toNat_lt
  rw [lengthOf_eq]
  omega

/-- Two bytes and as many as they say are a frame. -/
theorem frame_of_length {hi lo : UInt8} {message : Bytes} (h : message.length = lengthOf hi lo) :
    frame message = hi :: lo :: message := by
  have hhi := hi.toNat_lt
  have hlo := lo.toNat_lt
  rw [lengthOf_eq] at h
  have hdiv : message.length / 256 = hi.toNat := by omega
  have hmod : message.length % 256 = lo.toNat := by omega
  rw [frame, hdiv, hmod, UInt8.ofNat_toNat, UInt8.ofNat_toNat]

/-- The length in front of a frame is that of the message. -/
theorem lengthOf_frame {message : Bytes} (h : message.length ≤ 65535) :
    lengthOf (UInt8.ofNat (message.length / 256)) (UInt8.ofNat (message.length % 256)) =
      message.length := by
  rw [lengthOf_eq, UInt8.toNat_ofNat', UInt8.toNat_ofNat']
  omega

theorem exists_two {bytes : Bytes} (h : 2 ≤ bytes.length) :
    ∃ hi lo tail, bytes = hi :: lo :: tail := by
  match bytes, h with
  | hi :: lo :: tail, _ => exact ⟨hi, lo, tail, rfl⟩

/-! ## The loops -/

section
variable {s₀ : DotState}

/-- The bytes in front of the offset have gone out. -/
def Written (s₀ : DotState) (data : Bytes) (offset : Nat) (s : DotState) : Prop :=
  offset ≤ data.length ∧ s = { s₀ with sent := s₀.sent ++ data.take offset }

/-- Each turn sends the bytes behind the offset, or none. -/
theorem Written.turn {data : Bytes} {offset : Nat} {s : DotState} (hlt : offset < data.length)
    (h : Written s₀ data offset s) (turn : TlsTurn) :
    (tlsWriteTurn data offset turn s).Keeps (Written s₀ data)
      fun s' => ∃ k, s' = { s₀ with sent := s₀.sent ++ data.take k } := by
  obtain ⟨result, ready⟩ := turn
  have hstay := h
  obtain ⟨hle, rfl⟩ := h
  cases result with
  | count n =>
    by_cases hn : 1 ≤ n ∧ n ≤ (data.drop offset).length
    · have hlen := hn.2
      rw [List.length_drop] at hlen
      simp only [tlsWriteTurn, tlsWrite, if_pos hn]
      refine ⟨by omega, ?_⟩
      rw [List.append_assoc, ← List.take_add]
    · simp only [tlsWriteTurn, tlsWrite, if_neg hn]
      trivial
  | wantPollin | wantPollout =>
    cases ready with
    | true => exact hstay
    | false => exact ⟨offset, rfl⟩
  | zero | error => exact ⟨offset, rfl⟩

/-- All of the data goes out, each byte once. -/
theorem tlsWriteAll_triple (data : Bytes) :
    Scripted.Triple (· = s₀) (tlsWriteAll data)
      (fun _ s => s = { s₀ with sent := s₀.sent ++ data })
      (fun s => ∃ k, s = { s₀ with sent := s₀.sent ++ data.take k }) := by
  refine (Scripted.Triple.loop (I := Written s₀ data) ?_ 0).conseq ?_ ?_ fun s h => h
  · intro offset turn s hcond h
    exact h.turn (of_decide_eq_true hcond) turn
  · rintro s rfl
    exact ⟨Nat.zero_le _, by simp⟩
  · rintro offset s ⟨hcond, hle, rfl⟩
    rw [List.take_of_length_le (Nat.le_of_not_lt (of_decide_eq_false hcond))]

/-- The front of the buffer is what has come in. -/
def Filled (s₀ : DotState) (size : Nat) (b : Nat × Bytes) (s : DotState) : Prop :=
  b.1 ≤ size ∧ b.2.length = size ∧ b.1 ≤ s₀.incoming.length ∧
    b.2.take b.1 = s₀.incoming.take b.1 ∧ s = { s₀ with incoming := s₀.incoming.drop b.1 }

/-- Each turn puts the next bytes behind the offset, or none. -/
theorem Filled.turn {size : Nat} {b : Nat × Bytes} {s : DotState} (hlt : b.1 < b.2.length)
    (h : Filled s₀ size b s) (turn : TlsTurn) :
    (tlsReadTurn b turn s).Keeps (Filled s₀ size)
      fun s' => ∃ k < size, s' = { s₀ with incoming := s₀.incoming.drop k } := by
  obtain ⟨result, ready⟩ := turn
  obtain ⟨offset, data⟩ := b
  have hstay := h
  obtain ⟨hle, hsize, hin, htake, rfl⟩ := h
  dsimp only at hle hsize hin htake hlt
  cases result with
  | count n =>
    by_cases hn : 1 ≤ n ∧ n ≤ data.length - offset ∧ n ≤ (s₀.incoming.drop offset).length
    · have hlen := hn.2.2
      rw [List.length_drop] at hlen
      simp only [tlsReadTurn, tlsRead, if_pos hn]
      refine ⟨by dsimp only; omega, ?_, by dsimp only; omega, ?_, ?_⟩
      · simp only [List.length_append, List.length_take, List.length_drop]
        omega
      · have hfront : (data.take offset ++ (s₀.incoming.drop offset).take n).length =
            offset + n := by
          simp only [List.length_append, List.length_take, List.length_drop]
          omega
        rw [List.take_left' hfront, htake, ← List.take_add]
      · rw [List.drop_drop]
    · simp only [tlsReadTurn, tlsRead, if_neg hn]
      trivial
  | wantPollin | wantPollout =>
    cases ready with
    | true => exact hstay
    | false => exact ⟨offset, by omega, rfl⟩
  | zero | error => exact ⟨offset, by omega, rfl⟩

/-- The buffer is filled with the next bytes, and no more than these are read. -/
theorem tlsReadInto_triple (data : Bytes) :
    Scripted.Triple (· = s₀) (tlsReadInto data)
      (fun b s => data.length ≤ s₀.incoming.length ∧ b.2 = s₀.incoming.take data.length ∧
        s = { s₀ with incoming := s₀.incoming.drop data.length })
      (fun s => ∃ k < data.length, s = { s₀ with incoming := s₀.incoming.drop k }) := by
  refine (Scripted.Triple.loop (I := Filled s₀ data.length) ?_ (0, data)).conseq ?_ ?_ fun s h => h
  · intro b turn s hcond h
    exact h.turn (of_decide_eq_true hcond) turn
  · rintro s rfl
    exact ⟨Nat.zero_le _, rfl, Nat.zero_le _, by simp, by simp⟩
  · rintro ⟨offset, buf⟩ s ⟨hcond, hle, hsize, hin, htake, rfl⟩
    dsimp only at hle hsize hin htake
    obtain rfl : offset = data.length :=
      Nat.le_antisymm hle (hsize ▸ Nat.le_of_not_lt (of_decide_eq_false hcond))
    rw [List.take_of_length_le (by omega)] at htake
    exact ⟨hin, htake, rfl⟩

/-! ## A whole exchange -/

/-- The query has gone out as a frame, and the response is the frame that came in. -/
structure Exchanged (query : Bytes) (s₀ s : DotState) : Prop where
  query_le : query.length ≤ 65535
  sent : s.sent = s₀.sent ++ frame query
  received : s₀.incoming = frame s.response ++ s.incoming
  response_ne : s.response ≠ []
  response_le : s.response.length ≤ 65535

/-- No more than the query has gone out, no whole frame was read, and the response is what it
was. -/
structure Interrupted (query : Bytes) (s₀ s : DotState) : Prop where
  sent : ∃ k, s.sent = s₀.sent ++ (frame query).take k
  incoming : ∃ k, s.incoming = s₀.incoming.drop k ∧ ∀ message : Bytes, message ≠ [] →
    message.length ≤ 65535 → ¬ frame message <+: s₀.incoming.take k
  response : s.response = s₀.response

/-- A frame is longer than two bytes. -/
theorem not_frame_prefix_of_short {bytes message : Bytes} (hbytes : bytes.length ≤ 2)
    (hne : message ≠ []) : ¬ frame message <+: bytes := by
  intro h
  have hlen := h.length_le
  have hpos := List.length_pos_of_ne_nil hne
  simp only [frame, List.length_cons] at hlen
  omega

/-- Fewer bytes than their length says are not a frame. -/
theorem not_frame_prefix_of_cut {hi lo : UInt8} {bytes message : Bytes}
    (hcut : bytes.length < lengthOf hi lo) (hle : message.length ≤ 65535) :
    ¬ frame message <+: hi :: lo :: bytes := by
  intro h
  rw [frame, List.cons_prefix_cons, List.cons_prefix_cons] at h
  obtain ⟨rfl, rfl, hpre⟩ := h
  rw [lengthOf_frame hle] at hcut
  exact absurd hpre.length_le (by omega)

theorem Interrupted.of_write (s₀ : DotState) (query : Bytes) (k : Nat) :
    Interrupted query s₀ { s₀ with sent := s₀.sent ++ (frame query).take k } :=
  ⟨⟨k, rfl⟩, ⟨0, by simp, fun _ hne _ => not_frame_prefix_of_short (by simp) hne⟩, rfl⟩

theorem Interrupted.of_read (query : Bytes) {k : Nat} (h : ∀ message : Bytes, message ≠ [] →
    message.length ≤ 65535 → ¬ frame message <+: s₀.incoming.take k) :
    Interrupted query s₀ ⟨s₀.sent ++ frame query, s₀.incoming.drop k, s₀.response⟩ :=
  ⟨⟨(frame query).length, by rw [List.take_length]⟩, ⟨k, rfl, h⟩, rfl⟩

/-- What comes in behind the two bytes of a length. -/
theorem readResponse_triple {query tail : Bytes} {hi lo : UInt8} (hquery : query.length ≤ 65535)
    (hin : s₀.incoming = hi :: lo :: tail) :
    Scripted.Triple (· = (⟨s₀.sent ++ frame query, tail, s₀.response⟩ : DotState))
      (if lengthOf hi lo = 0 then Scripted.fail
        else do
          let (_, buf) ← tlsReadInto (List.replicate (lengthOf hi lo) 0)
          Scripted.modify fun s => { s with response := buf })
      (fun _ s => Exchanged query s₀ s) (fun s => Interrupted query s₀ s) := by
  refine .ite (fun _ => .fail ?_) fun hne => ?_
  · rintro s rfl
    have hread : ∀ message : Bytes, message ≠ [] → message.length ≤ 65535 →
        ¬ frame message <+: s₀.incoming.take 2 := fun message hmessage _ =>
      not_frame_prefix_of_short (by simp) hmessage
    have h := Interrupted.of_read query hread
    rwa [hin] at h
  · refine ((tlsReadInto_triple _).conseq (fun s h => h) (fun b s h => h) ?_).bind fun b => ?_
    · rintro s ⟨k, hk, rfl⟩
      rw [List.length_replicate] at hk
      have hread : ∀ message : Bytes, message ≠ [] → message.length ≤ 65535 →
          ¬ frame message <+: s₀.incoming.take (k + 2) := by
        intro message _ hle
        rw [hin]
        exact not_frame_prefix_of_cut (by rw [List.length_take]; omega) hle
      have h := Interrupted.of_read query hread
      rwa [hin] at h
    · refine .modify ?_
      rintro s ⟨hlen, hbuf, rfl⟩
      rw [List.length_replicate] at hlen hbuf
      have hbuf' : b.2.length = lengthOf hi lo := by
        rw [hbuf, List.length_take]
        exact Nat.min_eq_left hlen
      refine ⟨hquery, rfl, ?_, ?_, ?_⟩
      · dsimp only
        rw [frame_of_length hbuf', hin, hbuf, List.length_replicate]
        simp
      · exact List.ne_nil_of_length_pos (by dsimp only; omega)
      · exact hbuf'.trans_le (lengthOf_le hi lo)

/-- Every run over every script. -/
theorem resolveDotConnected_triple (s₀ : DotState) (query : Bytes) :
    Scripted.Triple (· = s₀) (resolveDotConnected query) (fun _ s => Exchanged query s₀ s)
      (fun s => Interrupted query s₀ s) := by
  rw [resolveDotConnected]
  refine .ite (fun _ => .fail ?_) fun hshort => ?_
  · rintro s rfl
    simpa using Interrupted.of_write s query 0
  have hframe := frame_length_bytes (Nat.le_of_not_lt hshort)
  generalize hheader : [UInt8.ofNat (query.length >>> 8 &&& 0xff),
    UInt8.ofNat (query.length &&& 0xff)] = header at hframe
  have htwo : header.length = 2 := hheader ▸ rfl
  refine ((tlsWriteAll_triple _).conseq (fun s h => h) (fun _ s h => h) ?_).bind fun _ => ?_
  · rintro s ⟨k, rfl⟩
    have h := Interrupted.of_write s₀ query (min k 2)
    rwa [← hframe, List.take_append_of_le_length (by omega), ← htwo,
      ← List.take_eq_take_min] at h
  refine ((tlsWriteAll_triple _).conseq (fun s h => h) (fun _ s h => h) ?_).bind fun _ => ?_
  · rintro s ⟨k, rfl⟩
    have h := Interrupted.of_write s₀ query (header.length + k)
    rwa [← hframe, List.take_length_add_append, ← List.append_assoc] at h
  have hsent : s₀.sent ++ header ++ query = s₀.sent ++ frame query := by
    rw [List.append_assoc, hframe]
  refine ((tlsReadInto_triple _).conseq (fun s h => h) (fun _ s h => h) ?_).bind fun b => ?_
  · rintro s ⟨k, hk, rfl⟩
    rw [hsent]
    exact Interrupted.of_read query fun message hne _ =>
      not_frame_prefix_of_short ((List.length_take_le ..).trans (Nat.le_of_lt hk)) hne
  refine .of_and fun hlen => .of_and fun hbuf => ?_
  obtain ⟨hi, lo, tail, hin⟩ : ∃ hi lo tail, s₀.incoming = hi :: lo :: tail := exists_two hlen
  obtain ⟨offset, lenBuf⟩ := b
  obtain rfl : lenBuf = [hi, lo] := by
    dsimp only at hbuf
    rw [hbuf, hin]
    rfl
  have hresponse := readResponse_triple (Nat.le_of_not_lt hshort) hin
  dsimp only
  rw [hsent, hin]
  exact hresponse

end

/-- For every way in which TLS cuts the stream: if `ResolveDot` succeeds, the query has gone out as
one frame and the response is the first frame that came in, of which nothing is left and behind
which nothing was read; if it fails, the response is not touched. -/
theorem dot_framing (query : Bytes) (s : DotState) (turns : List TlsTurn) :
    (∀ s' rest, resolveDotConnected query s turns = .done () s' rest →
      s'.sent = s.sent ++ frame query ∧ s.incoming = frame s'.response ++ s'.incoming ∧
        s'.response ≠ [] ∧ s'.response.length ≤ 65535) ∧
      ∀ s', resolveDotConnected query s turns = .failed s' → s'.response = s.response := by
  have h := resolveDotConnected_triple s query
  constructor
  · intro s' rest hrun
    have hdone := h.of_done rfl hrun
    exact ⟨hdone.sent, hdone.received, hdone.response_ne, hdone.response_le⟩
  · intro s' hrun
    exact (h.of_failed rfl hrun).response

/-- The query goes out in two pieces, the length of the response comes in byte by byte, and a byte
behind the response is left. -/
example :
    resolveDotConnected [7] ⟨[], [0, 2, 9, 8, 1], []⟩
        [⟨.count 2, false⟩, ⟨.wantPollout, true⟩, ⟨.count 1, false⟩, ⟨.count 1, false⟩,
          ⟨.wantPollin, true⟩, ⟨.count 1, false⟩, ⟨.count 2, false⟩] =
      .done () ⟨[0, 1, 7], [1], [9, 8]⟩ [] := by
  decide +kernel

/-! ## The exchange as one step -/

section
variable {query response tail : Bytes} {hi lo : UInt8} {server : Option Bytes}

/-- A stream with a length in front gives as many bytes, if there are any and all have come. -/
theorem resolveDot_length (hquery : query.length ≤ 65535) :
    (resolveDot query ⟨server, true, hi :: lo :: tail⟩).response =
      if lengthOf hi lo = 0 ∨ tail.length < lengthOf hi lo then none
      else some (tail.take (lengthOf hi lo)) := by
  have hread : tlsReadAll 2 (hi :: lo :: tail) = some ([hi, lo], tail) := rfl
  have hlen : ([hi, lo].getD 0 0).toNat <<< 8 ||| ([hi, lo].getD 1 0).toNat = lengthOf hi lo := rfl
  rw [resolveDot, if_neg (by simp), if_neg (Nat.not_lt.mpr hquery), hread]
  dsimp only
  rw [hlen, tlsReadAll]
  by_cases hzero : lengthOf hi lo = 0
  · rw [if_pos hzero, if_pos (.inl hzero)]
  · rw [if_neg hzero]
    by_cases hcut : tail.length < lengthOf hi lo
    · rw [if_neg (Nat.not_le.mpr hcut), if_pos (.inr hcut)]
    · rw [if_pos (Nat.le_of_not_lt hcut), if_neg (not_or.mpr ⟨hzero, hcut⟩)]

theorem resolveDot_short {stream : Bytes} (hshort : stream.length < 2) :
    (resolveDot query ⟨server, true, stream⟩).response = none := by
  rw [resolveDot, tlsReadAll, if_neg (by simp), if_neg (Nat.not_le.mpr hshort)]
  split_ifs <;> rfl

/-- The first frame of a stream, by its length. -/
theorem frame_prefix_iff :
    (if lengthOf hi lo = 0 ∨ tail.length < lengthOf hi lo then none
      else some (tail.take (lengthOf hi lo))) = some response ↔
      response ≠ [] ∧ response.length ≤ 65535 ∧ frame response <+: hi :: lo :: tail := by
  constructor
  · intro h
    split_ifs at h with hnone
    rw [not_or, Nat.not_lt] at hnone
    obtain rfl := Option.some.inj h
    have hlen : (tail.take (lengthOf hi lo)).length = lengthOf hi lo := by
      rw [List.length_take, Nat.min_eq_left hnone.2]
    refine ⟨List.ne_nil_of_length_pos (by omega), hlen.trans_le (lengthOf_le hi lo), ?_⟩
    rw [frame_of_length hlen]
    simpa using List.take_prefix (lengthOf hi lo) tail
  · rintro ⟨hne, hle, hframe⟩
    rw [frame, List.cons_prefix_cons, List.cons_prefix_cons] at hframe
    obtain ⟨rfl, rfl, hpre⟩ := hframe
    have hpos := List.length_pos_of_ne_nil hne
    have hlen := hpre.length_le
    rw [lengthOf_frame hle, if_neg (by omega), ← List.prefix_iff_eq_take.mp hpre]

/-- Seen from outside, a response is a frame at the start of the stream. -/
theorem resolveDot_response_iff {stream : Bytes} :
    (resolveDot query ⟨server, true, stream⟩).response = some response ↔
      query.length ≤ 65535 ∧ response ≠ [] ∧ response.length ≤ 65535 ∧
        frame response <+: stream := by
  by_cases hquery : query.length ≤ 65535
  · rw [and_iff_right hquery]
    by_cases hshort : stream.length < 2
    · rw [resolveDot_short hshort]
      exact iff_of_false (by simp) fun h =>
        not_frame_prefix_of_short (Nat.le_of_lt hshort) h.1 h.2.2
    · obtain ⟨hi, lo, tail, rfl⟩ := exists_two (Nat.le_of_not_lt hshort)
      rw [resolveDot_length hquery, frame_prefix_iff]
  · refine iff_of_false ?_ fun h => hquery h.1
    simp [resolveDot, Nat.lt_of_not_le hquery]

end

/-- A run that is over is an exchange over the bytes that it has read or could have read. -/
theorem resolveDotConnected_refines (query : Bytes) (server : Option Bytes) (s : DotState)
    (turns : List TlsTurn) :
    (∀ s' rest, resolveDotConnected query s turns = .done () s' rest →
      (resolveDot query ⟨server, true, s.incoming⟩).response = some s'.response) ∧
    ∀ s', resolveDotConnected query s turns = .failed s' →
      ∃ k, s'.incoming = s.incoming.drop k ∧
        (resolveDot query ⟨server, true, s.incoming.take k⟩).response = none := by
  have h := resolveDotConnected_triple s query
  constructor
  · intro s' rest hrun
    have hdone := h.of_done rfl hrun
    exact resolveDot_response_iff.mpr ⟨hdone.query_le, hdone.response_ne, hdone.response_le,
      s'.incoming, hdone.received.symm⟩
  · intro s' hrun
    obtain ⟨k, hk, hframe⟩ := (h.of_failed rfl hrun).incoming
    refine ⟨k, hk, Option.eq_none_iff_forall_ne_some.mpr fun response hresponse => ?_⟩
    obtain ⟨-, hne, hle, hpre⟩ := resolveDot_response_iff.mp hresponse
    exact hframe response hne hle hpre

end Gravastar
