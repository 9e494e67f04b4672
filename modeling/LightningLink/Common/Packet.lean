import LightningLink.Common.Codec

/-!
# Round trip and grammar of the packet codec

Library `Common`. The five packet types as one sum, with the encoder and the decoder of
`common/serialization.cpp` that belongs to each. An encoder writes the wire bytes of its
packet when they fit and nothing past them; a decoder accepts a byte string exactly when
it starts with the wire bytes of a packet of its type.
-/

namespace LightningLink.Proto

open Support

/-- A packet of any of the five types. -/
inductive Packet
  | joinRequest (p : JoinRequest)
  | joinAccept (p : JoinAccept F32)
  | input (p : InputPacket)
  | snapshot (p : Snapshot F32)
  | disconnect (p : DisconnectNotice)
  deriving DecidableEq

/-- Decoder of a packet type. -/
def decode (t : PacketType) (data : Memory) (size : Nat) : Option Packet :=
  match t with
  | .joinRequest => (decodeJoinRequest data size).map .joinRequest
  | .joinAccept => (decodeJoinAccept data size).map .joinAccept
  | .inputCommand => (decodeInput data size).map .input
  | .worldSnapshot => (decodeSnapshot data size).map .snapshot
  | .disconnectNotice => (decodeDisconnect data size).map .disconnect

/-- Decoder of a packet type on a byte string. -/
def decodeList (t : PacketType) (bs : List UInt8) : Option Packet :=
  decode t (Memory.ofList bs) bs.length

namespace Packet

/-- Type tag of a packet. -/
def type : Packet → PacketType
  | joinRequest _ => .joinRequest
  | joinAccept _ => .joinAccept
  | input _ => .inputCommand
  | snapshot _ => .worldSnapshot
  | disconnect _ => .disconnectNotice

/-- Snapshots carry at most `MAX_PLAYERS` records; other packets are not restricted. -/
def Bounded : Packet → Prop
  | snapshot p => p.players.length ≤ maxPlayers
  | _ => True

instance (p : Packet) : Decidable p.Bounded := by
  cases p <;> unfold Bounded <;> infer_instance

/-- Exact wire length. -/
def wireLength : Packet → Nat
  | joinRequest _ => 3
  | joinAccept _ => 11
  | input _ => 9
  | snapshot p => 7 + 22 * p.players.length
  | disconnect _ => 3

/-- Encoder of a packet's type. -/
def encode (out : Memory) (cap : Nat) : Packet → Memory × Nat
  | joinRequest p => encodeJoinRequest out cap p
  | joinAccept p => encodeJoinAccept out cap p
  | input p => encodeInput out cap p
  | snapshot p => encodeSnapshot out cap p
  | disconnect p => encodeDisconnect out cap p

/-- Bytes the encoder leaves in a buffer of exactly the wire length. -/
def encoded (p : Packet) : List UInt8 :=
  let r := p.encode (fun _ ↦ 0) p.wireLength
  r.1.bytes r.2

/-- Bytes written by the formats; a snapshot of any length has its count cast to 16 bits. -/
def wire : Packet → List UInt8
  | joinRequest p => joinRequestFormat.write p
  | joinAccept p => joinAcceptFormat.write p
  | input p => inputFormat.write p
  | snapshot p => PacketType.worldSnapshot.toByte :: (u32.write p.serverTick ++
      (u16.write (UInt16.ofNat p.players.length) ++ playerFormat.writeAll p.players))
  | disconnect p => disconnectFormat.write p

/-! ### Encoders -/

private theorem wrote_u8 (w : BufferWriter) (v : UInt8) (h : w.pos ≤ w.cap) :
    Wrote w (w.putU8 v).2 (u8.write v) := by
  rw [u8_write]
  exact Wrote.putBytes w _ h

private theorem wrote_u16 (w : BufferWriter) (v : UInt16) (h : w.pos ≤ w.cap) :
    Wrote w (w.putU16 v).2 (u16.write v) := Wrote.putBytes w _ h

private theorem wrote_u32 (w : BufferWriter) (v : UInt32) (h : w.pos ≤ w.cap) :
    Wrote w (w.putU32 v).2 (u32.write v) := Wrote.putBytes w _ h

private theorem wrote_i8 (w : BufferWriter) (v : Int8) (h : w.pos ≤ w.cap) :
    Wrote w (w.putI8 v).2 (i8.write v) := wrote_u8 w _ h

private theorem wrote_f32 (w : BufferWriter) (v : F32) (h : w.pos ≤ w.cap) :
    Wrote w (w.putF32 v).2 (f32.write v) := wrote_u32 w _ h

private theorem wrote_player (w : BufferWriter) (ps : PlayerState F32) (h : w.pos ≤ w.cap) :
    Wrote w (putPlayer w ps) (playerFormat.write ps) := by
  have h1 := wrote_u16 w ps.id h
  have h2 := h1.trans (wrote_f32 _ ps.pos.x h1.room)
  have h3 := h2.trans (wrote_f32 _ ps.pos.y h2.room)
  have h4 := h3.trans (wrote_f32 _ ps.vel.x h3.room)
  have h5 := h4.trans (wrote_f32 _ ps.vel.y h4.room)
  have h6 := h5.trans (wrote_u32 _ ps.lastProcessedInputSeq h5.room)
  simpa [playerFormat, Format.imap, Format.seq, putPlayer] using h6

/-- Every encoder has the outcome of writing the wire bytes of its packet. -/
theorem encode_encodes (p : Packet) (out : Memory) (cap : Nat) :
    Encodes out cap (p.encode out cap) p.wire := by
  have h0 (t : PacketType) := wrote_u8 (BufferWriter.new out cap) t.toByte (Nat.zero_le _)
  cases p with
  | joinRequest p =>
    have h1 := h0 .joinRequest
    have h2 := h1.trans (wrote_u16 _ p.clientVersion h1.room)
    rw [u8_write] at h2
    exact h2.finish
  | joinAccept p =>
    have h1 := h0 .joinAccept
    have h2 := h1.trans (wrote_u16 _ p.playerId h1.room)
    have h3 := h2.trans (wrote_f32 _ p.arenaW h2.room)
    have h4 := h3.trans (wrote_f32 _ p.arenaH h3.room)
    rw [u8_write, List.append_assoc, List.append_assoc] at h4
    exact h4.finish
  | input p =>
    have h1 := h0 .inputCommand
    have h2 := h1.trans (wrote_u16 _ p.playerId h1.room)
    have h3 := h2.trans (wrote_u32 _ p.seq h2.room)
    have h4 := h3.trans (wrote_i8 _ p.mx h3.room)
    have h5 := h4.trans (wrote_i8 _ p.my h4.room)
    rw [u8_write, List.append_assoc, List.append_assoc, List.append_assoc] at h5
    exact h5.finish
  | snapshot p =>
    have h1 := h0 .worldSnapshot
    have h2 := h1.trans (wrote_u32 _ p.serverTick h1.room)
    have h3 := h2.trans (wrote_u16 _ (UInt16.ofNat p.players.length) h2.room)
    have h4 := h3.trans (Wrote.foldl putPlayer playerFormat.write wrote_player p.players _ h3.room)
    rw [u8_write, List.append_assoc, List.append_assoc] at h4
    exact h4.finish
  | disconnect p =>
    have h1 := h0 .disconnectNotice
    have h2 := h1.trans (wrote_u16 _ p.playerId h1.room)
    rw [u8_write] at h2
    exact h2.finish

private theorem length_player (ps : PlayerState F32) : (playerFormat.write ps).length = 22 := by
  simp [playerFormat, Format.imap, Format.seq, u16, f32, u32, Format.word]

/-- The wire bytes have the wire length. -/
theorem length_wire (p : Packet) : p.wire.length = p.wireLength := by
  cases p with
  | snapshot p =>
    have hs : (playerFormat.writeAll p.players).length = 22 * p.players.length := by
      unfold Format.writeAll
      induction p.players with
      | nil => rfl
      | cons x xs ih =>
        rw [List.flatMap_cons, List.length_append, ih, length_player, List.length_cons]
        omega
    simp only [wire, List.length_cons, List.length_append, hs, wireLength, u32, u16, Format.word,
      length_toBE]
    omega
  | _ => simp [wire, wireLength, joinRequestFormat, joinAcceptFormat, inputFormat,
      disconnectFormat, Format.tag, Format.imap, Format.seq, u8, i8, u16, f32, u32, Format.word]

/-- With exactly the wire length as capacity the encoder leaves the wire bytes. -/
theorem encoded_eq (p : Packet) : p.encoded = p.wire :=
  (p.encode_encodes _ _).bytes (Nat.le_of_eq p.length_wire)

/-- A bounded packet fits the snapshot buffer. -/
theorem length_wire_le (p : Packet) (hp : p.Bounded) : p.wire.length ≤ maxSnapshotBytes := by
  rw [length_wire]
  cases p with
  | snapshot p =>
    change p.players.length ≤ 8 at hp
    change 7 + 22 * p.players.length ≤ 183
    omega
  | _ => simp [wireLength, maxSnapshotBytes, maxPlayers]

/-- The first wire byte is the type tag. -/
theorem wire_eq_cons (p : Packet) : ∃ bs, p.wire = p.type.toByte :: bs := by
  cases p <;> exact ⟨_, rfl⟩

/-! ### Decoders -/

/-- Packet of a type at the front of a byte string, with the bytes after it. -/
def parse : PacketType → List UInt8 → Option (Packet × List UInt8)
  | .joinRequest, bs => (joinRequestFormat.parse bs).map fun x ↦ (.joinRequest x.1, x.2)
  | .joinAccept, bs => (joinAcceptFormat.parse bs).map fun x ↦ (.joinAccept x.1, x.2)
  | .inputCommand, bs => (inputFormat.parse bs).map fun x ↦ (.input x.1, x.2)
  | .worldSnapshot, bs => (snapshotFormat.parse bs).map fun x ↦ (.snapshot x.1.val, x.2)
  | .disconnectNotice, bs => (disconnectFormat.parse bs).map fun x ↦ (.disconnect x.1, x.2)

/-- Every decoder returns what the parser of its type finds at the front of the buffer. -/
theorem decode_eq (t : PacketType) (data : Memory) (size : Nat) :
    decode t data size = (parse t (data.bytes size)).map Prod.fst := by
  cases t <;>
    simp only [decode, parse, decodeJoinRequest_eq, decodeJoinAccept_eq, decodeInput_eq,
      decodeSnapshot_eq, decodeDisconnect_eq, Option.map_map] <;> rfl

private theorem parse_case {α : Type} (f : Format α) (mk : α → Packet) (t : PacketType)
    (sound : ∀ a, (mk a).type = t ∧ (mk a).Bounded ∧ (mk a).wire = f.write a)
    (complete : ∀ p : Packet, p.type = t → p.Bounded → ∃ a, mk a = p)
    (bs : List UInt8) (p : Packet) (rest : List UInt8) :
    (f.parse bs).map (fun x ↦ (mk x.1, x.2)) = some (p, rest) ↔
      p.type = t ∧ p.Bounded ∧ bs = p.wire ++ rest := by
  rw [Option.map_eq_some_iff]
  constructor
  · rintro ⟨⟨a, s⟩, ha, hp⟩
    obtain ⟨rfl, rfl⟩ := Prod.mk.inj hp
    obtain ⟨ht, hb, hw⟩ := sound a
    refine ⟨ht, hb, ?_⟩
    rw [hw]
    exact f.write_of_parse ha
  · rintro ⟨ht, hb, rfl⟩
    obtain ⟨a, rfl⟩ := complete p ht hb
    rw [(sound a).2.2]
    exact ⟨(a, rest), f.parse_write a rest, rfl⟩

/-- A packet is found exactly where its wire bytes stand. -/
theorem parse_eq_some_iff (t : PacketType) (bs : List UInt8) (p : Packet) (rest : List UInt8) :
    parse t bs = some (p, rest) ↔ p.type = t ∧ p.Bounded ∧ bs = p.wire ++ rest := by
  cases t with
  | joinRequest =>
    refine parse_case joinRequestFormat joinRequest _ (fun _ ↦ ⟨rfl, trivial, rfl⟩) ?_ bs p rest
    intro p ht _
    cases p with
    | joinRequest a => exact ⟨a, rfl⟩
    | _ => cases ht
  | joinAccept =>
    refine parse_case joinAcceptFormat joinAccept _ (fun _ ↦ ⟨rfl, trivial, rfl⟩) ?_ bs p rest
    intro p ht _
    cases p with
    | joinAccept a => exact ⟨a, rfl⟩
    | _ => cases ht
  | inputCommand =>
    refine parse_case inputFormat input _ (fun _ ↦ ⟨rfl, trivial, rfl⟩) ?_ bs p rest
    intro p ht _
    cases p with
    | input a => exact ⟨a, rfl⟩
    | _ => cases ht
  | worldSnapshot =>
    refine parse_case snapshotFormat (fun a ↦ snapshot a.val) _
      (fun a ↦ ⟨rfl, a.property, rfl⟩) ?_ bs p rest
    intro p ht hb
    cases p with
    | snapshot a => exact ⟨⟨a, hb⟩, rfl⟩
    | _ => cases ht
  | disconnectNotice =>
    refine parse_case disconnectFormat disconnect _ (fun _ ↦ ⟨rfl, trivial, rfl⟩) ?_ bs p rest
    intro p ht _
    cases p with
    | disconnect a => exact ⟨a, rfl⟩
    | _ => cases ht

/-- A decoder returns a packet exactly on the byte strings that start with its wire bytes. -/
theorem decode_eq_some_iff (t : PacketType) (data : Memory) (size : Nat) (p : Packet) :
    decode t data size = some p ↔
      p.type = t ∧ p.Bounded ∧ ∃ rest, data.bytes size = p.wire ++ rest := by
  rw [decode_eq, Option.map_eq_some_iff]
  constructor
  · rintro ⟨⟨q, rest⟩, hq, rfl⟩
    obtain ⟨ht, hb, hw⟩ := (parse_eq_some_iff t _ q rest).mp hq
    exact ⟨ht, hb, rest, hw⟩
  · rintro ⟨ht, hb, rest, hw⟩
    exact ⟨(p, rest), (parse_eq_some_iff t _ p rest).mpr ⟨ht, hb, hw⟩, rfl⟩

/-- The same on a byte list. -/
theorem decodeList_eq_some_iff (t : PacketType) (bs : List UInt8) (p : Packet) :
    decodeList t bs = some p ↔ p.type = t ∧ p.Bounded ∧ p.wire <+: bs := by
  rw [decodeList, decode_eq_some_iff, Memory.bytes_ofList]
  simp only [List.IsPrefix, eq_comm]

/-- Two wire packets at the front of one byte string are the same packet. -/
theorem wire_append_inj {p q : Packet} (hp : p.Bounded) (hq : q.Bounded) {s t : List UInt8}
    (h : p.wire ++ s = q.wire ++ t) : p = q ∧ s = t := by
  obtain ⟨bs, hbs⟩ := p.wire_eq_cons
  obtain ⟨cs, hcs⟩ := q.wire_eq_cons
  have ht : p.type = q.type := by
    have hc := h
    rw [hbs, hcs, List.cons_append, List.cons_append] at hc
    have hb := (List.cons.inj hc).1
    revert hb
    cases p.type <;> cases q.type <;> decide
  have hp' := (parse_eq_some_iff p.type _ p s).mpr ⟨rfl, hp, rfl⟩
  have hq' := (parse_eq_some_iff p.type _ q t).mpr ⟨ht.symm, hq, rfl⟩
  rw [h, hq'] at hp'
  obtain ⟨rfl, rfl⟩ := Prod.mk.inj (Option.some.inj hp')
  exact ⟨rfl, rfl⟩

/-- The first byte of a buffer that starts with a wire packet names its type. -/
theorem peekType_of_wire (data : Memory) (size : Nat) (p : Packet)
    (h : p.wire <+: data.bytes size) : peekType data size = some p.type := by
  obtain ⟨bs, hbs⟩ := p.wire_eq_cons
  obtain ⟨rest, hr⟩ := h
  cases size with
  | zero => simp [Memory.bytes, hbs] at hr
  | succ n =>
    have h0 : data 0 = p.type.toByte := by
      have hh := congrArg List.head? hr
      simpa [hbs, Memory.bytes, List.range_succ_eq_map] using hh.symm
    unfold peekType
    rw [if_neg (Nat.succ_ne_zero n), h0]
    cases p.type <;> rfl

/-- The outcome of a decoder depends on the bytes within the snapshot size only. -/
theorem decodeList_take (t : PacketType) (bs : List UInt8) (n : Nat) (hn : maxSnapshotBytes ≤ n) :
    decodeList t (bs.take n) = decodeList t bs := by
  apply Option.ext
  intro p
  rw [decodeList_eq_some_iff, decodeList_eq_some_iff, List.prefix_take_iff]
  constructor
  · rintro ⟨ht, hb, hp, _⟩
    exact ⟨ht, hb, hp⟩
  · rintro ⟨ht, hb, hp⟩
    exact ⟨ht, hb, hp, (p.length_wire_le hb).trans hn⟩

/-- Packet that a datagram carries: the switch on `peek_type` followed by the decoder. -/
def read (bs : List UInt8) : Option Packet :=
  (peekType (Memory.ofList bs) bs.length).bind fun t ↦ decodeList t bs

/-- A datagram carries the packet whose wire bytes it starts with. -/
theorem read_eq_some_iff (bs : List UInt8) (p : Packet) :
    read bs = some p ↔ p.Bounded ∧ p.wire <+: bs := by
  rw [read, Option.bind_eq_some_iff]
  constructor
  · rintro ⟨t, _, hd⟩
    exact ((decodeList_eq_some_iff t bs p).mp hd).2
  · rintro ⟨hb, hw⟩
    refine ⟨p.type, ?_, (decodeList_eq_some_iff p.type bs p).mpr ⟨rfl, hb, hw⟩⟩
    apply peekType_of_wire
    rwa [Memory.bytes_ofList]

/-- Truncation to a receive buffer does not change the packet. -/
theorem read_take (bs : List UInt8) (n : Nat) (hn : maxSnapshotBytes ≤ n) :
    read (bs.take n) = read bs := by
  apply Option.ext
  intro p
  rw [read_eq_some_iff, read_eq_some_iff, List.prefix_take_iff]
  constructor
  · rintro ⟨hb, hp, _⟩
    exact ⟨hb, hp⟩
  · rintro ⟨hb, hp⟩
    exact ⟨hb, hp, (p.length_wire_le hb).trans hn⟩

/-- A bounded packet is read from its own wire bytes. -/
@[simp] theorem read_wire (p : Packet) (hp : p.Bounded) : read p.wire = some p :=
  (read_eq_some_iff _ p).mpr ⟨hp, List.prefix_rfl⟩

end Packet

/-! ### Round trip and grammar -/

open Packet

/-- A snapshot fits the broadcaster's buffer exactly when it is bounded. -/
theorem encodeSnapshot_fits (out : Memory) (s : Snapshot F32) :
    (encodeSnapshot out maxSnapshotBytes s).2 ≠ 0 ↔ s.players.length ≤ maxPlayers := by
  have he : (encodeSnapshot out maxSnapshotBytes s).2 = _ :=
    ((Packet.snapshot s).encode_encodes out maxSnapshotBytes).size
  rw [he, length_wire]
  change (if 7 + 22 * s.players.length ≤ 183 then 7 + 22 * s.players.length else 0) ≠ 0 ↔
    s.players.length ≤ 8
  split <;> omega

/-- Round trip of the codec for all five packet types, every capacity and every suffix, and
agreement of the two snapshot limits. -/
theorem encode_roundTrip (out : Memory) (cap : Nat) (p : Packet) (s : Snapshot F32) :
    (p.Bounded →
      (p.encode out cap).2 = (if p.wireLength ≤ cap then p.wireLength else 0) ∧
      (∀ i, min cap p.wireLength ≤ i → (p.encode out cap).1 i = out i) ∧
      (p.wireLength ≤ cap →
        peekType (p.encode out cap).1 (p.encode out cap).2 = some p.type ∧
        ∀ rest, decodeList p.type
          ((p.encode out cap).1.bytes (p.encode out cap).2 ++ rest) = some p)) ∧
    ((encodeSnapshot out maxSnapshotBytes s).2 ≠ 0 ↔ s.players.length ≤ maxPlayers) ∧
    ((encodeSnapshot out maxSnapshotBytes s).2 ≠ 0 →
      decodeSnapshot (encodeSnapshot out maxSnapshotBytes s).1
        (encodeSnapshot out maxSnapshotBytes s).2 = some s) := by
  refine ⟨?_, encodeSnapshot_fits out s, ?_⟩
  · intro hp
    have he := p.encode_encodes out cap
    have hl := p.length_wire
    rw [← hl]
    refine ⟨he.size, he.frame, ?_⟩
    intro hcap
    have hb := he.bytes hcap
    refine ⟨peekType_of_wire _ _ p ⟨[], by rw [List.append_nil, hb]⟩, ?_⟩
    intro rest
    rw [decodeList_eq_some_iff, hb]
    exact ⟨rfl, hp, List.prefix_append _ _⟩
  · intro hs
    have hb : (Packet.snapshot s).Bounded := (encodeSnapshot_fits out s).mp hs
    have he := ((Packet.snapshot s).encode_encodes out maxSnapshotBytes).bytes
      ((Packet.snapshot s).length_wire_le hb)
    have hd := (decode_eq_some_iff .worldSnapshot (encodeSnapshot out maxSnapshotBytes s).1
      (encodeSnapshot out maxSnapshotBytes s).2 (.snapshot s)).mpr
        ⟨rfl, hb, [], by rw [List.append_nil]; exact he⟩
    obtain ⟨q, hq, hs⟩ := Option.map_eq_some_iff.mp hd
    rw [hq, Packet.snapshot.inj hs]

/-- An input to the left, and a snapshot of two players of which one moves up, each read back in
front of any bytes. -/
theorem encode_roundTrip_two :
    let input : Packet := .input ⟨2, 7, -1, 0⟩
    let snap : Snapshot F32 := ⟨3, [⟨1, ⟨⟨0x43c80000⟩, ⟨0x43960000⟩⟩, ⟨⟨0⟩, ⟨0xc35c0000⟩⟩, 5⟩,
      ⟨2, ⟨⟨0x3f800000⟩, ⟨0x40000000⟩⟩, ⟨⟨0⟩, ⟨0⟩⟩, 0⟩]⟩
    (∀ rest, decodeList .inputCommand ((input.encode (fun _ ↦ 0) 32).1.bytes
      (input.encode (fun _ ↦ 0) 32).2 ++ rest) = some input) ∧
    (∀ rest, decodeList .worldSnapshot (((Packet.snapshot snap).encode (fun _ ↦ 0) 60).1.bytes
      ((Packet.snapshot snap).encode (fun _ ↦ 0) 60).2 ++ rest) = some (.snapshot snap)) ∧
    decodeSnapshot (encodeSnapshot (fun _ ↦ 0) maxSnapshotBytes snap).1
      (encodeSnapshot (fun _ ↦ 0) maxSnapshotBytes snap).2 = some snap := by
  intro input snap
  obtain ⟨hinput, hfits, hsnap⟩ := encode_roundTrip (fun _ ↦ 0) 32 input snap
  have hsnapshot := (encode_roundTrip (fun _ ↦ 0) 60 (.snapshot snap) snap).1
  exact ⟨((hinput trivial).2.2 (by decide)).2, ((hsnapshot (by decide)).2.2 (by decide)).2,
    hsnap (hfits.mpr (by decide))⟩

/-- Each decoder accepts exactly its grammar: acceptance, the returned value and its
uniqueness, disjointness of the decoders, strict prefixes, and the bytes that matter. -/
theorem decode_grammar (t : PacketType) (b : List UInt8) :
    ((decodeList t b).isSome ↔
      ∃ (p : Packet) (s : List UInt8), p.type = t ∧ p.Bounded ∧ b = p.encoded ++ s) ∧
    (∀ p, decodeList t b = some p →
      p.type = t ∧ p.Bounded ∧ b.take p.wireLength = p.encoded ∧
      (∀ (q : Packet) (s : List UInt8), q.Bounded → b = q.encoded ++ s → q = p) ∧
      (∀ u, (decodeList u b).isSome → u = t) ∧
      peekType (Memory.ofList b) b.length = some t) ∧
    (∀ p : Packet, p.Bounded → b <+: p.encoded → b ≠ p.encoded → decodeList t b = none) ∧
    (∀ data : Memory, data.bytes b.length = b → decode t data b.length = decodeList t b) ∧
    (∀ c : List UInt8, c.take maxSnapshotBytes = b.take maxSnapshotBytes →
      decodeList t c = decodeList t b) ∧
    decodeList t (b.take maxPacketBytes) = decodeList t b := by
  refine ⟨?_, ?_, ?_, ?_, ?_, decodeList_take t b _ (by decide)⟩
  · rw [Option.isSome_iff_exists]
    constructor
    · rintro ⟨p, hp⟩
      obtain ⟨ht, hb, s, hs⟩ := (decodeList_eq_some_iff t b p).mp hp
      exact ⟨p, s, ht, hb, by rw [encoded_eq, hs]⟩
    · rintro ⟨p, s, ht, hb, hs⟩
      rw [encoded_eq] at hs
      exact ⟨p, (decodeList_eq_some_iff t b p).mpr ⟨ht, hb, s, hs.symm⟩⟩
  · intro p hp
    obtain ⟨ht, hb, rest, hr⟩ := (decodeList_eq_some_iff t b p).mp hp
    refine ⟨ht, hb, ?_, ?_, ?_, ?_⟩
    · rw [encoded_eq, ← hr, ← length_wire, List.take_left]
    · intro q s hq hs
      rw [encoded_eq, ← hr] at hs
      exact (wire_append_inj hb hq hs).1.symm
    · intro u hu
      obtain ⟨q, hq⟩ := Option.isSome_iff_exists.mp hu
      obtain ⟨htq, hbq, s, hs⟩ := (decodeList_eq_some_iff u b q).mp hq
      rw [← hr] at hs
      rw [← ht, ← htq, (wire_append_inj hbq hb hs).1]
    · rw [← ht]
      apply peekType_of_wire
      rw [Memory.bytes_ofList]
      exact ⟨rest, hr⟩
  · intro p hp hpre hne
    obtain ⟨cs, hcs⟩ := hpre
    cases hd : decodeList t b with
    | none => rfl
    | some q =>
      -- A packet inside a strict prefix would be a second packet at the front of `p`.
      obtain ⟨_, hq, rest, hr⟩ := (decodeList_eq_some_iff t b q).mp hd
      have he : q.wire ++ (rest ++ cs) = p.wire ++ [] := by
        rw [← List.append_assoc, hr, hcs, encoded_eq, List.append_nil]
      have hnil := (wire_append_inj hq hp he).2
      rw [(List.append_eq_nil_iff.mp hnil).2, List.append_nil] at hcs
      exact absurd hcs hne
  · intro data hdata
    rw [decodeList, decode_eq, decode_eq, hdata, Memory.bytes_ofList]
  · intro c hc
    rw [← decodeList_take t c maxSnapshotBytes le_rfl, hc, decodeList_take t b _ le_rfl]

end LightningLink.Proto
