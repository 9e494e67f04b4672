import LightningLink.Common.Wire

/-!
# Packet formats, round trip and grammar

Library `Common`. The five packet types of `common/protocol.hpp:19–24` as one sum, their
formats, and the two laws of `common/serialization.cpp` over all of them: what an encoder
wrote is decoded again in front of any bytes, and a decoder accepts nothing else.
-/

namespace LightningLink.Proto

open Support BufferReader

/-! ### Field formats -/

def u8 : Format UInt8 :=
  Format.word 1 UInt8.toNat UInt8.ofNat UInt8.toNat_lt (fun _ ↦ UInt8.ofNat_toNat)
    fun _ hn ↦ UInt8.toNat_ofNat_of_lt' hn

def u16 : Format UInt16 :=
  Format.word 2 UInt16.toNat UInt16.ofNat UInt16.toNat_lt (fun _ ↦ UInt16.ofNat_toNat)
    fun _ hn ↦ UInt16.toNat_ofNat_of_lt' hn

def u32 : Format UInt32 :=
  Format.word 4 UInt32.toNat UInt32.ofNat UInt32.toNat_lt (fun _ ↦ UInt32.ofNat_toNat)
    fun _ hn ↦ UInt32.toNat_ofNat_of_lt' hn

def i8 : Format Int8 :=
  u8.imap UInt8.toInt8 Int8.toUInt8 Int8.toInt8_toUInt8 UInt8.toUInt8_toInt8

def f32 : Format F32 :=
  u32.imap F32.mk F32.bits (fun _ ↦ rfl) fun _ ↦ rfl

private theorem follows_getBytes (n : Nat) :
    Follows (getBytes n) fun bs ↦
      if n ≤ bs.length then some (bs.take n, bs.drop n) else none := by
  intro r hok hpos
  dsimp only
  have hl := length_rest r
  by_cases hn : n ≤ r.rest.length
  · have hroom : ¬(r.size < r.pos + n) := by omega
    rw [if_pos hn]
    refine ⟨?_, by simp⟩
    intro a rest h
    obtain ⟨rfl, rfl⟩ := Prod.mk.inj (Option.some.inj h)
    refine ⟨r.rest.take n, (List.take_append_drop n _).symm, ?_⟩
    have hs : r.size - r.pos = n + (r.size - (r.pos + n)) := by omega
    have ht : r.rest.take n = (List.range n).map fun i ↦ r.data (r.pos + i) := by
      rw [rest, hs, List.range_add, List.map_append, List.take_left' (by simp)]
    rw [ht]
    simp [getBytes, hok, hroom, advance]
  · have hroom : r.size < r.pos + n := by omega
    rw [if_neg hn]
    refine ⟨by simp, fun _ ↦ ?_⟩
    simp [getBytes, hroom]

/-- Reading a big-endian word follows its format. -/
theorem follows_word {α : Type} (w : Nat) (num : α → Nat) (ofNum : Nat → α) (h1 h2 h3) :
    Follows (do return ofNum (fromBE (← getBytes w))) (Format.word w num ofNum h1 h2 h3).parse := by
  refine ((follows_getBytes w).map fun bs ↦ ofNum (fromBE bs)).of_eq fun bs ↦ ?_
  unfold Format.word
  dsimp only
  split <;> rfl

theorem follows_getU8 : Follows getU8 u8.parse := follows_word _ _ _ _ _ _

theorem follows_getU16 : Follows getU16 u16.parse := follows_word _ _ _ _ _ _

theorem follows_getU32 : Follows getU32 u32.parse := follows_word _ _ _ _ _ _

theorem follows_getI8 : Follows getI8 i8.parse := follows_getU8.map UInt8.toInt8

theorem follows_getF32 : Follows getF32 f32.parse := follows_getU32.map F32.mk

/-! ### Packet formats -/

def joinRequestFormat : Format JoinRequest :=
  Format.tag PacketType.joinRequest.toByte <|
    u16.imap JoinRequest.mk JoinRequest.clientVersion (fun _ ↦ rfl) fun _ ↦ rfl

def joinAcceptFormat : Format (JoinAccept F32) :=
  Format.tag PacketType.joinAccept.toByte <|
    (u16.seq (f32.seq f32)).imap (fun p ↦ ⟨p.1, p.2.1, p.2.2⟩)
      (fun p ↦ (p.playerId, p.arenaW, p.arenaH)) (fun _ ↦ rfl) fun _ ↦ rfl

def inputFormat : Format InputPacket :=
  Format.tag PacketType.inputCommand.toByte <|
    (u16.seq (u32.seq (i8.seq i8))).imap (fun p ↦ ⟨p.1, p.2.1, p.2.2.1, p.2.2.2⟩)
      (fun p ↦ (p.playerId, p.seq, p.mx, p.my)) (fun _ ↦ rfl) fun _ ↦ rfl

def playerFormat : Format (PlayerState F32) :=
  (u16.seq (f32.seq (f32.seq (f32.seq (f32.seq u32))))).imap
    (fun p ↦ ⟨p.1, ⟨p.2.1, p.2.2.1⟩, ⟨p.2.2.2.1, p.2.2.2.2.1⟩, p.2.2.2.2.2⟩)
    (fun p ↦ (p.id, p.pos.x, p.pos.y, p.vel.x, p.vel.y, p.lastProcessedInputSeq))
    (fun _ ↦ rfl) fun _ ↦ rfl

/-- A snapshot with at most `MAX_PLAYERS` records. -/
def BoundedSnapshot : Type := {s : Snapshot F32 // s.players.length ≤ maxPlayers}

def snapshotFormat : Format BoundedSnapshot :=
  Format.tag PacketType.worldSnapshot.toByte <|
    (u32.seq (Format.counted u16 maxPlayers (by decide) playerFormat)).imap
      (fun p ↦ ⟨⟨p.1, p.2.val⟩, p.2.property⟩)
      (fun s ↦ (s.val.serverTick, ⟨s.val.players, s.property⟩)) (fun _ ↦ rfl) fun _ ↦ rfl

def disconnectFormat : Format DisconnectNotice :=
  Format.tag PacketType.disconnectNotice.toByte <|
    u16.imap DisconnectNotice.mk DisconnectNotice.playerId (fun _ ↦ rfl) fun _ ↦ rfl

/-! ### Decoders follow the formats -/

private theorem follows_tag {α : Type} (t : UInt8) {m : Read α}
    {p : List UInt8 → Option (α × List UInt8)} (hm : Follows m p) :
    Follows (do require ((← getU8) = t); m) fun bs ↦
      (u8.parse bs).bind fun x ↦ if x.1 = t then p x.2 else none := by
  refine (follows_getU8.bind fun b ↦ (Follows.require (decide (b = t))).bind fun _ ↦ hm).of_eq
    fun bs ↦ ?_
  congr 1
  funext x
  by_cases hx : x.1 = t <;> simp [hx]

/-- A byte is written as itself. -/
theorem u8_write (b : UInt8) : u8.write b = [b] := by
  change [UInt8.ofNat (b.toNat / 1)] = [b]
  rw [Nat.div_one, UInt8.ofNat_toNat]

private theorem parse_tag {α : Type} (t : UInt8) (f : Format α) (bs : List UInt8) :
    (Format.tag t f).parse bs = (u8.parse bs).bind fun x ↦ if x.1 = t then f.parse x.2 else none := by
  cases bs with
  | nil => rfl
  | cons b bs =>
    have hb : u8.parse (b :: bs) = some (b, bs) := by
      rw [u8.parse_eq_some_iff, u8_write, List.singleton_append]
    rw [Format.parse_tag_cons, hb, Option.bind_some]

private theorem follows_getPlayer : Follows getPlayer playerFormat.parse := by
  refine (follows_getU16.bind fun id ↦ follows_getF32.bind fun x ↦ follows_getF32.bind fun y ↦
    follows_getF32.bind fun vx ↦ follows_getF32.bind fun vy ↦ follows_getU32.map fun seq ↦
      PlayerState.mk id ⟨x, y⟩ ⟨vx, vy⟩ seq).of_eq fun bs ↦ ?_
  simp [playerFormat, Format.seq, Format.imap, Option.map_eq_bind, Option.bind_assoc]

private theorem follows_getPlayers (n : Nat) :
    Follows (getPlayers n) (playerFormat.parseN n) := by
  induction n with
  | zero => exact Follows.pure []
  | succ n ih =>
    refine (follows_getPlayer.bind fun p ↦ ih.map fun ps ↦ p :: ps).of_eq fun bs ↦ ?_
    rw [Format.parseN]

/-- `decode_join_request` returns what its format parses. -/
theorem decodeJoinRequest_eq (data : Memory) (size : Nat) :
    decodeJoinRequest data size = (joinRequestFormat.parse (data.bytes size)).map Prod.fst := by
  refine ((follows_tag _ (follows_getU16.map JoinRequest.mk)).of_eq fun bs ↦ ?_).run data size
  rw [joinRequestFormat, parse_tag]
  rfl

/-- `decode_join_accept` returns what its format parses. -/
theorem decodeJoinAccept_eq (data : Memory) (size : Nat) :
    decodeJoinAccept data size = (joinAcceptFormat.parse (data.bytes size)).map Prod.fst := by
  refine ((follows_tag _ (follows_getU16.bind fun id ↦ follows_getF32.bind fun w ↦
    follows_getF32.map fun h ↦ JoinAccept.mk id w h)).of_eq fun bs ↦ ?_).run data size
  rw [joinAcceptFormat, parse_tag]
  simp [Format.seq, Format.imap, Option.map_eq_bind, Option.bind_assoc]

/-- `decode_input` returns what its format parses. -/
theorem decodeInput_eq (data : Memory) (size : Nat) :
    decodeInput data size = (inputFormat.parse (data.bytes size)).map Prod.fst := by
  refine ((follows_tag _ (follows_getU16.bind fun id ↦ follows_getU32.bind fun seq ↦
    follows_getI8.bind fun mx ↦ follows_getI8.map fun my ↦
      InputPacket.mk id seq mx my)).of_eq fun bs ↦ ?_).run data size
  rw [inputFormat, parse_tag]
  simp [Format.seq, Format.imap, Option.map_eq_bind, Option.bind_assoc]

/-- `decode_snapshot` returns what its format parses. -/
theorem decodeSnapshot_eq (data : Memory) (size : Nat) :
    decodeSnapshot data size =
      (snapshotFormat.parse (data.bytes size)).map fun x ↦ x.1.val := by
  have hb : Follows (do
      let tick ← getU32
      let n ← getU16
      require (n.toNat ≤ maxPlayers)
      return (⟨tick, ← getPlayers n.toNat⟩ : Snapshot F32)) fun bs ↦ (u32.parse bs).bind fun x ↦
        (((Format.counted u16 maxPlayers (by decide) playerFormat).parse x.2).map
          fun p ↦ (p.1.val, p.2)).map fun p ↦ (Snapshot.mk x.1 p.1, p.2) := by
    refine (follows_getU32.bind fun tick ↦ follows_getU16.bind fun n ↦
      (Follows.require (decide (n.toNat ≤ maxPlayers))).bind fun _ ↦
        (follows_getPlayers n.toNat).map fun ps ↦ Snapshot.mk tick ps).of_eq fun bs ↦ ?_
    congr 1
    funext x
    rw [Format.counted_parse_val, Option.map_bind]
    congr 1
    funext y
    by_cases hy : y.1.toNat ≤ maxPlayers <;> simp [hy]
  apply ((follows_tag _ hb).run data size).trans
  rw [snapshotFormat, parse_tag, Option.map_bind, Option.map_bind]
  congr 1
  funext x
  by_cases hx : x.1 = PacketType.worldSnapshot.toByte
  · simp [hx, Format.seq, Format.imap, Option.map_eq_bind, Option.bind_assoc]
  · simp [hx]

/-- `decode_disconnect` returns what its format parses. -/
theorem decodeDisconnect_eq (data : Memory) (size : Nat) :
    decodeDisconnect data size = (disconnectFormat.parse (data.bytes size)).map Prod.fst := by
  refine ((follows_tag _ (follows_getU16.map DisconnectNotice.mk)).of_eq fun bs ↦ ?_).run data size
  rw [disconnectFormat, parse_tag]
  rfl

end LightningLink.Proto
