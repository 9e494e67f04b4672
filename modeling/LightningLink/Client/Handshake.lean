import LightningLink.Common.Packet

/-!
# Datagrams of a client

Library `Client`. Models what `client/client.cpp` sends, and the handshake in which it
takes its id from a `JOIN_ACCEPT`.
-/

namespace LightningLink.Cl

open Proto

/-- Bytes of a packet encoded in a buffer without defined contents. -/
def sendBytes (cap : Nat) (p : Packet) : List UInt8 :=
  let out := p.encode (fun _ ↦ 0) cap
  out.1.bytes out.2

/-- `JOIN_REQUEST`; `client/client.cpp:85–88`. -/
def joinBytes : List UInt8 := sendBytes 8 (.joinRequest ⟨protocolVersion⟩)

/-- `INPUT_COMMAND`; `client/client.cpp:281–283`. -/
def inputBytes (ip : InputPacket) : List UInt8 := sendBytes 32 (.input ip)

/-- `DISCONNECT_NOTICE`; `client/client.cpp:393–396`. -/
def disconnectBytes (myPid : UInt16) : List UInt8 := sendBytes 8 (.disconnect ⟨myPid⟩)

/-- Size of the receive buffer of the handshake. -/
def handshakeBytes : Nat := 64

/-- Id that a datagram received in the handshake assigns; `client/client.cpp:95–104`. -/
def acceptedId (payload : List UInt8) : Option UInt16 :=
  let received := payload.take handshakeBytes
  let buf := Memory.ofList received
  match peekType buf received.length with
  | some .joinAccept =>
    (decodeJoinAccept buf received.length : Option (JoinAccept F32)).map JoinAccept.playerId
  | _ => none

/-- A packet sent from a buffer that holds it is read back. -/
theorem read_sendBytes (cap : Nat) (p : Packet) (hp : p.Bounded) (hcap : p.wireLength ≤ cap) :
    Packet.read (sendBytes cap p) = some p := by
  have hb := (p.encode_encodes (fun _ ↦ 0) cap).bytes (by rwa [p.length_wire])
  exact (congrArg Packet.read hb).trans (Packet.read_wire p hp)

@[simp] theorem read_joinBytes : Packet.read joinBytes = some (.joinRequest ⟨protocolVersion⟩) :=
  read_sendBytes _ _ trivial (by decide)

@[simp] theorem read_inputBytes (ip : InputPacket) :
    Packet.read (inputBytes ip) = some (.input ip) :=
  read_sendBytes _ _ trivial (by change 9 ≤ 32; decide)

@[simp] theorem read_disconnectBytes (myPid : UInt16) :
    Packet.read (disconnectBytes myPid) = some (.disconnect ⟨myPid⟩) :=
  read_sendBytes _ _ trivial (by change 3 ≤ 8; decide)

/-- The handshake takes its id from a `JOIN_ACCEPT` only. -/
theorem read_of_acceptedId (payload : List UInt8) (id : UInt16) (h : acceptedId payload = some id) :
    ∃ ja, Packet.read payload = some (.joinAccept ja) ∧ ja.playerId = id := by
  unfold acceptedId at h
  dsimp only at h
  split at h
  · next ht =>
    obtain ⟨ja, hja, hid⟩ := Option.map_eq_some_iff.mp h
    refine ⟨ja, ?_, hid⟩
    have hread : Packet.read (payload.take handshakeBytes) = some (.joinAccept ja) := by
      rw [Packet.read, ht, Option.bind_some]
      exact congrArg (Option.map Packet.joinAccept) hja
    rw [Packet.read_eq_some_iff] at hread ⊢
    exact ⟨hread.1, hread.2.trans (List.take_prefix _ _)⟩
  · cases h

end LightningLink.Cl
