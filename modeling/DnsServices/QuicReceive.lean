import DnsServices.Worker

namespace DnsServices.Microdoh3

open Shared

/-!
# The receive path of the QUIC driver

`poll_socket` of `quic.rs` takes batches of buffers from the socket, cuts each
buffer into the datagrams that the kernel has put together in it, and hands them
to the endpoint of the QUIC library one by one.  The socket is dual-stack, so
the address of an IPv4 peer comes in its mapped form and is mapped back.

The library is a parameter.  What the endpoint was given is recorded.
-/

section Code

/-- `Ipv6Addr::to_ipv4_mapped` -/
def toIpv4Mapped (octets : Vector UInt8 16) : Option IpAddr :=
  if octets.toList.take 12 = List.replicate 10 0 ++ [0xFF, 0xFF] then
    some (.v4 octets[12] octets[13] octets[14] octets[15])
  else
    none

/-- Undo a v4-mapped IPv6 address; anything else is returned unchanged. -/
def unmapIp : IpAddr → IpAddr
  | .v6 octets =>
      match toIpv4Mapped octets with
      | some v4 =>
          v4
      | none =>
          .v6 octets
  | .v4 a b c d =>
      .v4 a b c d

/-- `unmapIp` for a whole socket address. -/
def unmapAddr (addr : SocketAddr) : SocketAddr :=
  { addr with ip := unmapIp addr.ip }

/-- The codepoints of both libraries. -/
inductive EcnCodepoint where
  | ect0
  | ect1
  | ce
  deriving Repr, DecidableEq

/-- What the kernel says of one buffer. -/
structure RecvMeta where
  addr : SocketAddr
  len : Nat
  /-- The length of each datagram in the buffer but the last, if not zero. -/
  stride : Nat
  ecn : Option EcnCodepoint
  dstIp : Option IpAddr
  deriving Repr, DecidableEq

/-- What one call of `recv` returns. -/
inductive RecvResult where
  | ok (batch : List (RecvMeta × Bytes))
  | wouldBlock
  | connectionReset
  | error

/-- The path of a datagram, as the endpoint is told. -/
structure FourTuple where
  remote : SocketAddr
  localIp : Option IpAddr
  deriving Repr, DecidableEq

/-- One call of `Endpoint::handle`. -/
structure Handled where
  now : Instant
  path : FourTuple
  ecn : Option EcnCodepoint
  data : Bytes
  deriving Repr, DecidableEq

/-- What the endpoint makes of a datagram. -/
inductive DatagramEvent (η ν τ : Type) where
  | connectionEvent (handle : η) (event : ν)
  | response (transmit : τ)
  | newConnection

/-- The calls of the QUIC library on this path; the loop over the endpoint
events is made of its calls alone. -/
structure Noq (ε κ η ν τ : Type) where
  handle : ε → Handled → ε × Option (DatagramEvent η ν τ)
  handleEvent : κ → ν → κ
  drainEndpointEvents : ε → κ → η → ε × κ

/-- The receiving side of `Quic`. -/
structure Quic (ε κ η τ : Type) where
  endpoint : ε
  conn : Option κ
  handle : Option η
  /-- The responses of the endpoint that were sent. -/
  sent : List τ
  /-- What the endpoint was given (history only). -/
  handled : List Handled

/-- The slices of `chunks`, with the length as the bound of the loop. -/
def chunksFrom (size : Nat) : Nat → Bytes → List Bytes
  | 0, _ => []
  | _ + 1, [] => []
  | fuel + 1, data =>
      data.take size :: chunksFrom size fuel (data.drop size)

/-- `slice::chunks` -/
def chunks (size : Nat) (data : Bytes) : List Bytes :=
  chunksFrom size data.length data

/-- The datagrams of one buffer. -/
def segments (entry : RecvMeta × Bytes) : List (RecvMeta × Bytes) :=
  let data := entry.2.take entry.1.len
  let stride :=
    if entry.1.stride = 0 then max data.length 1 else entry.1.stride
  (chunks stride data).map fun seg => (entry.1, seg)

namespace Quic

variable {ε κ η ν τ : Type} [DecidableEq η] (noq : Noq ε κ η ν τ)

/-- A connection event is for the one connection, or for none. -/
def handleDatagramEvent
    (quic : Quic ε κ η τ) :
    Option (DatagramEvent η ν τ) → Quic ε κ η τ
  | some (.connectionEvent h ev) =>
      if some h = quic.handle then
        { quic with conn := quic.conn.map fun conn => noq.handleEvent conn ev }
      else
        quic
  | some (.response transmit) =>
      { quic with sent := quic.sent ++ [transmit] }
  | some .newConnection =>
      quic
  | none =>
      quic

/-- Transfer pending endpoint events from the connection to the endpoint. -/
def drainEndpointEvents (quic : Quic ε κ η τ) : Quic ε κ η τ :=
  match quic.conn, quic.handle with
  | some conn, some handle =>
      let drained := noq.drainEndpointEvents quic.endpoint conn handle
      { quic with endpoint := drained.1, conn := some drained.2 }
  | _, _ =>
      quic

/-- Hand one datagram to the endpoint. -/
def processDatagram
    (now : Instant)
    (quic : Quic ε κ η τ)
    (datagram : RecvMeta × Bytes) : Quic ε κ η τ :=
  let call : Handled :=
    { now := now
      path :=
        { remote := unmapAddr datagram.1.addr
          localIp := datagram.1.dstIp.map unmapIp }
      ecn := datagram.1.ecn
      data := datagram.2 }
  let answer := noq.handle quic.endpoint call
  { quic with
    endpoint := answer.1
    handled := quic.handled ++ [call] }.handleDatagramEvent noq answer.2

/-- Process all readable datagrams; `false` stands for an error. -/
def pollSocket
    (now : Instant)
    (quic : Quic ε κ η τ) : List RecvResult → Quic ε κ η τ × Bool
  | .ok (first :: rest) :: later =>
      let datagrams := (first :: rest).flatMap segments
      pollSocket now
        ((datagrams.foldl (processDatagram noq now) quic).drainEndpointEvents
          noq)
        later
  | .error :: _ =>
      (quic, false)
  -- nothing more to read
  | _ =>
      (quic, true)

end Quic

end Code

section Addresses

/-- The form in which a dual-stack socket reports an address. -/
def mapIp : IpAddr → IpAddr
  | .v4 a b c d =>
      .v6 #v[0, 0, 0, 0, 0, 0, 0, 0, 0, 0, 0xFF, 0xFF, a, b, c, d]
  | .v6 octets =>
      .v6 octets

/-- An address that a peer can have: no IPv6 address on the wire is a mapped
one. -/
def Genuine (ip : IpAddr) : Prop :=
  ∀ octets, ip = .v6 octets → toIpv4Mapped octets = none

/-- Mapping an address into IPv6 and back keeps it. -/
theorem unmapIp_mapIp {ip : IpAddr} (genuine : Genuine ip) :
    unmapIp (mapIp ip) = ip := by
  cases ip with
  | v4 a b c d =>
      rfl
  | v6 octets =>
      simp only [mapIp, unmapIp, genuine octets rfl]

end Addresses

section Segments

/-- Datagrams of one length, but for a shorter one at the end, are cut apart
again. -/
theorem chunksFrom_flatten
    {size fuel : Nat}
    {wires : List Bytes}
    (nonempty : ∀ wire ∈ wires, wire ≠ [])
    (fits : ∀ wire ∈ wires, wire.length ≤ size)
    (full : ∀ wire ∈ wires.dropLast, wire.length = size)
    (enough : wires.flatten.length ≤ fuel) :
    chunksFrom size fuel wires.flatten = wires := by
  induction wires generalizing fuel with
  | nil =>
      cases fuel <;> rfl
  | cons first rest inductionHypothesis =>
      obtain ⟨head, tail, cons⟩ :=
        List.exists_cons_of_ne_nil (nonempty first List.mem_cons_self)
      rw [List.flatten_cons, List.length_append, cons, List.length_cons]
        at enough
      obtain ⟨fuel, rfl⟩ : ∃ less, fuel = less + 1 :=
        ⟨fuel - 1, by omega⟩
      have step :
          chunksFrom size (fuel + 1) (first :: rest).flatten =
            (first :: rest).flatten.take size ::
              chunksFrom size fuel ((first :: rest).flatten.drop size) := by
        rw [List.flatten_cons, cons, List.cons_append, chunksFrom]
        exact List.cons_ne_nil _ _
      rw [step, List.flatten_cons]
      cases rest with
      | nil =>
          have short := fits first List.mem_cons_self
          rw [List.flatten_nil, List.append_nil, List.take_of_length_le short,
            List.drop_eq_nil_of_le short]
          cases fuel <;> rfl
      | cons second others =>
          have isFull : first.length = size :=
            full first (List.dropLast_cons_cons ▸ List.mem_cons_self)
          rw [List.take_left' isFull, List.drop_left' isFull]
          refine congrArg (first :: ·) (inductionHypothesis ?_ ?_ ?_ (by omega))
          · intro wire member
            exact nonempty wire (List.mem_cons_of_mem _ member)
          · intro wire member
            exact fits wire (List.mem_cons_of_mem _ member)
          · intro wire member
            refine full wire ?_
            rw [List.dropLast_cons_cons]
            exact List.mem_cons_of_mem _ member

/-- One buffer with the datagrams of one peer that the kernel has put into
it. -/
structure Arrival where
  peer : SocketAddr
  wires : List Bytes
  info : RecvMeta
  buffer : Bytes
  nonempty : ∀ wire ∈ wires, wire ≠ []
  content : buffer.take info.len = wires.flatten
  /-- One datagram, or several of one length and perhaps a shorter last one. -/
  put :
    info.stride = 0 ∧ wires.length = 1 ∨
      0 < info.stride ∧ (∀ wire ∈ wires, wire.length ≤ info.stride) ∧
        ∀ wire ∈ wires.dropLast, wire.length = info.stride
  reported : info.addr = { peer with ip := mapIp peer.ip }
  genuine : Genuine peer.ip

namespace Arrival

/-- A buffer splits into the datagrams that were coalesced into it. -/
theorem segments_eq (arrival : Arrival) :
    segments (arrival.info, arrival.buffer) =
      arrival.wires.map fun wire => (arrival.info, wire) := by
  have cut :
      chunks
          (if arrival.info.stride = 0 then
            max arrival.wires.flatten.length 1
          else
            arrival.info.stride)
          arrival.wires.flatten =
        arrival.wires := by
    rcases arrival.put with ⟨zero, one⟩ | ⟨positive, fits, full⟩
    · obtain ⟨wire, single⟩ := List.length_eq_one_iff.mp one
      rw [if_pos zero]
      refine chunksFrom_flatten arrival.nonempty ?_ ?_ (Nat.le_refl _)
      · rw [single]
        simp
      · rw [single]
        simp
    · rw [if_neg positive.ne']
      exact chunksFrom_flatten arrival.nonempty fits full (Nat.le_refl _)
  rw [segments, arrival.content]
  exact congrArg (List.map _) cut

/-- The calls of the endpoint that the datagrams of a buffer should make. -/
def calls (now : Instant) (arrival : Arrival) : List Handled :=
  arrival.wires.map fun wire =>
    { now := now
      path :=
        { remote := arrival.peer
          localIp := arrival.info.dstIp.map unmapIp }
      ecn := arrival.info.ecn
      data := wire }

end Arrival

/-- What the socket returns for a batch of buffers. -/
def batchOf (arrivals : List Arrival) : RecvResult :=
  .ok (arrivals.map fun arrival => (arrival.info, arrival.buffer))

end Segments

section Delivery

variable {ε κ η ν τ : Type} [DecidableEq η] {noq : Noq ε κ η ν τ}

namespace Quic

theorem handled_handleDatagramEvent
    (quic : Quic ε κ η τ)
    (event : Option (DatagramEvent η ν τ)) :
    (quic.handleDatagramEvent noq event).handled = quic.handled := by
  unfold handleDatagramEvent
  split
  · split <;> rfl
  · rfl
  · rfl
  · rfl

omit [DecidableEq η] in
theorem handled_drainEndpointEvents (quic : Quic ε κ η τ) :
    (quic.drainEndpointEvents noq).handled = quic.handled := by
  unfold drainEndpointEvents
  split <;> rfl

/-- The datagrams of one buffer reach the endpoint in order. -/
theorem handled_foldl_segments
    (now : Instant)
    (arrival : Arrival)
    (quic : Quic ε κ η τ) :
    ((segments (arrival.info, arrival.buffer)).foldl (processDatagram noq now)
        quic).handled =
      quic.handled ++ arrival.calls now := by
  have address : unmapAddr arrival.info.addr = arrival.peer := by
    rw [arrival.reported, unmapAddr, unmapIp_mapIp arrival.genuine]
  rw [arrival.segments_eq, Arrival.calls]
  generalize arrival.wires = wires
  induction wires generalizing quic with
  | nil =>
      exact (List.append_nil _).symm
  | cons wire rest inductionHypothesis =>
      rw [List.map_cons, List.foldl_cons, inductionHypothesis, processDatagram,
        handled_handleDatagramEvent, address, List.map_cons, List.append_assoc,
        List.singleton_append]

/-- A batch hands its datagrams over in order. -/
theorem handled_foldl_batch
    (now : Instant)
    (arrivals : List Arrival)
    (quic : Quic ε κ η τ) :
    (((arrivals.map fun arrival => (arrival.info, arrival.buffer)).flatMap
          segments).foldl (processDatagram noq now) quic).handled =
      quic.handled ++ arrivals.flatMap (Arrival.calls now) := by
  induction arrivals generalizing quic with
  | nil =>
      exact (List.append_nil _).symm
  | cons arrival rest inductionHypothesis =>
      rw [List.map_cons, List.flatMap_cons, List.foldl_append,
        inductionHypothesis, handled_foldl_segments, List.flatMap_cons,
        List.append_assoc]

/--
However the kernel puts datagrams together and the socket hands them out, the
endpoint is given each of them once, in order, whole, and from the address of
its peer; a read that fails loses none that was read before.
-/
theorem handled_pollSocket
    (noq : Noq ε κ η ν τ)
    (now : Instant)
    (quic : Quic ε κ η τ)
    (batches : List (List Arrival))
    (nonempty : ∀ batch ∈ batches, batch ≠ [])
    (last : RecvResult)
    (ends : ∀ batch, last = .ok batch → batch = [])
    (unread : List RecvResult) :
    (quic.pollSocket noq now
        (batches.map batchOf ++ last :: unread)).1.handled =
      quic.handled ++ batches.flatten.flatMap (Arrival.calls now) := by
  induction batches generalizing quic with
  | nil =>
      have stops :
          (quic.pollSocket noq now (last :: unread)).1 = quic := by
        cases last with
        | ok batch =>
            rw [ends batch rfl]
            rfl
        | wouldBlock =>
            rfl
        | connectionReset =>
            rfl
        | error =>
            rfl
      rw [List.map_nil, List.nil_append, stops]
      exact (List.append_nil _).symm
  | cons batch rest inductionHypothesis =>
      obtain ⟨first, others, rfl⟩ :=
        List.exists_cons_of_ne_nil (nonempty batch List.mem_cons_self)
      have later (quic : Quic ε κ η τ) :=
        inductionHypothesis quic
          fun batch member => nonempty batch (List.mem_cons_of_mem _ member)
      have read :
          ((((first :: others).map fun arrival =>
                (arrival.info, arrival.buffer)).flatMap segments).foldl
              (processDatagram noq now) quic).handled =
            quic.handled ++ (first :: others).flatMap (Arrival.calls now) :=
        handled_foldl_batch now (first :: others) quic
      rw [List.map_cons] at read
      rw [List.map_cons, List.cons_append, batchOf, List.map_cons, pollSocket,
        later, handled_drainEndpointEvents, read, List.flatten_cons,
        List.flatMap_append, List.append_assoc]

end Quic

/-- A long and a short datagram of an IPv4 peer in one buffer. -/
def longAndShort : Arrival where
  peer := { ip := .v4 104 21 63 104, port := 443 }
  wires := [[1, 2, 3], [4]]
  info :=
    { addr :=
        { ip := mapIp (.v4 104 21 63 104)
          port := 443 }
      len := 4
      stride := 3
      ecn := some .ect0
      dstIp := none }
  buffer := [1, 2, 3, 4, 0, 0]
  nonempty := by decide
  content := by decide
  put := by decide
  reported := rfl
  genuine := by
    intro octets isV6
    cases isV6

/-- Two batches with a coalesced buffer and an odd last segment. -/
theorem handled_pollSocket_longAndShort :
    let noq : Noq Unit Nat Nat Nat Nat :=
      { handle := fun endpoint _ => (endpoint, some (.connectionEvent 0 1))
        handleEvent := fun conn event => conn + event
        drainEndpointEvents := fun endpoint conn _ => (endpoint, conn) }
    let quic : Quic Unit Nat Nat Nat :=
      { endpoint := (), conn := some 0, handle := some 0, sent := []
        handled := [] }
    (quic.pollSocket noq 0
        ([[longAndShort, longAndShort], [longAndShort]].map batchOf ++
          .wouldBlock :: [])).1.handled =
      quic.handled ++
        [longAndShort, longAndShort, longAndShort].flatMap
          (Arrival.calls 0) := by
  intro noq quic
  refine Quic.handled_pollSocket noq 0 quic
    [[longAndShort, longAndShort], [longAndShort]] ?_ .wouldBlock ?_ []
  · intro batch member
    rcases List.mem_cons.mp member with rfl | member
    · exact List.cons_ne_nil _ _
    · rw [List.mem_singleton.mp member]
      exact List.cons_ne_nil _ _
  · intro batch isOk
    cases isOk

-- what the kernel has put together is cut apart
example : segments (longAndShort.info, longAndShort.buffer) =
    [(longAndShort.info, [1, 2, 3]), (longAndShort.info, [4])] := by
  decide

end Delivery

end DnsServices.Microdoh3
