import LightningLink.Common.Packet
import LightningLink.Server.SessionManager
import LightningLink.Server.WorldState

/-!
# Optimized server

Library `Server`. Models `server/server.cpp` and `server/udp_snapshot_broadcaster.cpp`.
The socket is replaced by the datagrams a step receives and sends, the clock by the
reading a step makes, and the iteration order of each hash map by a traversal of the step.
An event is one datagram of `handle_inbound_udp` or one `tick_and_maybe_broadcast`.
-/

namespace LightningLink.Srv

open Support Proto

/-- Arguments of one `LaggedSocket::send_to`. -/
structure Datagram where
  endpoint : Endpoint
  payload : List UInt8
  deriving DecidableEq

/-- Counters of `server/udp_snapshot_broadcaster.hpp:23–24`. -/
structure UdpSnapshotBroadcaster where
  bytesSent : UInt64
  snapshotsSent : UInt64

/-- Encode once and send to every recipient; `server/udp_snapshot_broadcaster.cpp:8–20`. -/
def UdpSnapshotBroadcaster.broadcast {F : Type} [FloatBits F] (snap : Snapshot F)
    (recipients : List Endpoint) (b : UdpSnapshotBroadcaster) :
    Nat × UdpSnapshotBroadcaster × List Datagram :=
  let buf := encodeSnapshot (fun _ ↦ 0) maxSnapshotBytes snap
  if buf.2 = 0 then (0, b, [])
  else
    (buf.2 * recipients.length,
      ⟨recipients.foldl (fun sent _ ↦ sent + UInt64.ofNat buf.2) b.bytesSent, b.snapshotsSent + 1⟩,
      recipients.map fun ep ↦ ⟨ep, buf.1.bytes buf.2⟩)

/-- `server/server.hpp:29–51`, without configuration, socket and log. -/
structure Server (F : Type) where
  world : WorldState F
  sessions : SessionManager
  broadcaster : UdpSnapshotBroadcaster
  inputsReceivedTotal : UInt64

/-- Iteration orders of the hash maps during a tick. -/
structure TickOrder (F : Type) where
  reap : UMap.Traversal Endpoint Session
  players : UMap.Traversal UInt16 (ServerPlayer F)
  recipients : UMap.Traversal Endpoint Session

/-- Visits by increasing endpoint and by increasing id. -/
def TickOrder.sorted {F : Type} : TickOrder F :=
  let rank (e : Endpoint) : Nat := e.ip.toNat * 65536 + e.port.toNat
  have inj : Function.Injective rank := by
    intro a b h
    have ha := a.port.toNat_lt
    have hb := b.port.toNat_lt
    have hr : a.ip.toNat * 65536 + a.port.toNat = b.ip.toNat * 65536 + b.port.toNat := h
    have hip : a.ip = b.ip := UInt32.toNat_inj.mp (by omega)
    have hport : a.port = b.port := UInt16.toNat_inj.mp (by omega)
    cases a
    cases b
    simp_all
  ⟨.byRank rank inj, .byRank UInt16.toNat fun _ _ h ↦ UInt16.toNat_inj.mp h, .byRank rank inj⟩

/-- A step of the server: a datagram handled or a tick, with its clock reading. -/
inductive Event (F : Type)
  | datagram (now : Int) (src : Endpoint) (payload : List UInt8)
  | tick (now : Int) (order : TickOrder F)

namespace Server

variable {F : Type}

/-- Server that has just started. -/
def init : Server F := ⟨WorldState.init, SessionManager.init, ⟨0, 0⟩, 0⟩

/-- `JOIN_REQUEST`; `server/server.cpp:90–102`. The 32-byte buffer has no defined contents. -/
def handleJoinRequest [FloatArith F] [FloatBits F] (now : Int) (src : Endpoint) (s : Server F) :
    Server F × List Datagram :=
  match s.sessions.registerOrGet now src with
  | (none, sessions) => ({ s with sessions := sessions }, [])
  | (some id, sessions) =>
    let ja : JoinAccept F := ⟨id, arenaWidth F, arenaHeight F⟩
    let out := encodeJoinAccept (fun _ ↦ 0) 32 ja
    ({ s with world := (s.world.addPlayer id).2, sessions := sessions },
      [⟨src, out.1.bytes out.2⟩])

/-- `INPUT_COMMAND`; `server/server.cpp:104–111`. -/
def handleInputCommand (now : Int) (src : Endpoint) (ip : InputPacket) (s : Server F) : Server F :=
  if s.sessions.verifyInput src ip.playerId then
    { s with
      world := (s.world.applyInput ip.playerId ip.seq ip.mx ip.my).2
      sessions := s.sessions.touch now src
      inputsReceivedTotal := s.inputsReceivedTotal + 1 }
  else s

/-- `DISCONNECT_NOTICE`; `server/server.cpp:113–121`. -/
def handleDisconnectNotice (src : Endpoint) (dn : DisconnectNotice) (s : Server F) : Server F :=
  match s.sessions.byEndpoint src with
  | none => s
  | some ses =>
    if ses.playerId = dn.playerId then
      { s with
        world := (s.world.removePlayer dn.playerId).2
        sessions := (s.sessions.removeByEndpoint src).2 }
    else s

/-- One iteration of `handle_inbound_udp`; `server/server.cpp:83–125`. The receive buffer
holds at most `MAX_PACKET_BYTES` bytes of the datagram. -/
def handleInboundUdp [FloatArith F] [FloatBits F] (now : Int) (src : Endpoint)
    (payload : List UInt8) (s : Server F) : Server F × List Datagram :=
  let received := payload.take maxPacketBytes
  let buf := Memory.ofList received
  let size := received.length
  match peekType buf size with
  | none => (s, [])
  | some .joinRequest =>
    match decodeJoinRequest buf size with
    | none => (s, [])
    | some _ => s.handleJoinRequest now src
  | some .inputCommand =>
    match decodeInput buf size with
    | none => (s, [])
    | some ip => (s.handleInputCommand now src ip, [])
  | some .disconnectNotice =>
    match decodeDisconnect buf size with
    | none => (s, [])
    | some dn => (s.handleDisconnectNotice src dn, [])
  | some _ => (s, [])

/-- Reap, remove the players of reaped sessions, simulate, and broadcast on every
`TICKS_PER_SNAPSHOT`-th tick; `server/server.cpp:129–145`. -/
def tickAndMaybeBroadcast [FloatArith F] [FloatBits F] (now : Int) (order : TickOrder F)
    (s : Server F) : Server F × List Datagram :=
  let reaped := s.sessions.reapTimeouts now order.reap
  let sessions := reaped.2
  let world := reaped.1.foldl (fun w id ↦ (w.removePlayer id).2) s.world
  let world := world.stepTick
  if world.tick.toNat % ticksPerSnapshot = 0 then
    let snap : Snapshot F := ⟨world.tick, world.collectPlayerStates order.players⟩
    let sent := s.broadcaster.broadcast snap (sessions.allEndpoints order.recipients)
    ({ s with world := world, sessions := sessions, broadcaster := sent.2.1 }, sent.2.2)
  else ({ s with world := world, sessions := sessions }, [])

/-- One event: the state after it and the datagrams sent. -/
def handle [FloatArith F] [FloatBits F] (s : Server F) : Event F → Server F × List Datagram
  | .datagram now src payload => s.handleInboundUdp now src payload
  | .tick now order => s.tickAndMaybeBroadcast now order

/-- State after one event. -/
def step [FloatArith F] [FloatBits F] (s : Server F) (ev : Event F) : Server F := (s.handle ev).1

/-- State after a finite run. -/
def run [FloatArith F] [FloatBits F] (s : Server F) (evs : List (Event F)) : Server F :=
  evs.foldl step s

/-- State after one more event. -/
theorem run_concat [FloatArith F] [FloatBits F] (s : Server F) (evs : List (Event F))
    (ev : Event F) : s.run (evs ++ [ev]) = (s.run evs).step ev := by
  rw [run, List.foldl_append]
  rfl

/-- A datagram acts through the packet it carries. -/
theorem handleInboundUdp_eq [FloatArith F] [FloatBits F] (now : Int) (src : Endpoint)
    (payload : List UInt8) (s : Server F) :
    s.handleInboundUdp now src payload =
      match Packet.read payload with
      | some (.joinRequest _) => s.handleJoinRequest now src
      | some (.input ip) => (s.handleInputCommand now src ip, [])
      | some (.disconnect dn) => (s.handleDisconnectNotice src dn, [])
      | _ => (s, []) := by
  rw [← Packet.read_take payload maxPacketBytes (by decide)]
  unfold handleInboundUdp Packet.read
  dsimp only
  cases peekType (Memory.ofList (payload.take maxPacketBytes))
      (payload.take maxPacketBytes).length with
  | none => rfl
  | some t =>
    rw [Option.bind_some]
    unfold decodeList decode
    cases t with
    | joinRequest => cases decodeJoinRequest _ _ <;> rfl
    | joinAccept => cases (decodeJoinAccept _ _ : Option (JoinAccept F32)) <;> rfl
    | inputCommand => cases decodeInput _ _ <;> rfl
    | worldSnapshot => cases (decodeSnapshot _ _ : Option (Snapshot F32)) <;> rfl
    | disconnectNotice => cases decodeDisconnect _ _ <;> rfl

end Server
end LightningLink.Srv
