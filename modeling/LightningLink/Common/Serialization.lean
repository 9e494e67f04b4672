import LightningLink.Common.Types
import LightningLink.Support.Format

/-!
# Packets, bounded buffers and the typed codec

Library `Common`. Models `common/protocol.hpp` and `common/serialization.cpp`. Buffers are
memories indexed by offset; the writer and the reader carry the capacity, the position
and the sticky flag of the source. `htons`/`htonl` followed by `memcpy` is the big-endian
byte order of `toBE`.
-/

namespace LightningLink.Proto

open Support FloatBits

/-- Memory behind a byte pointer. -/
abbrev Memory := Nat → UInt8

/-- The first `n` bytes of a memory. -/
def Memory.bytes (data : Memory) (n : Nat) : List UInt8 := (List.range n).map data

/-- Copy bytes into a memory at an offset; `memcpy`. -/
def Memory.write (data : Memory) (pos : Nat) (bs : List UInt8) : Memory := fun i ↦
  if pos ≤ i ∧ i < pos + bs.length then bs.getD (i - pos) 0 else data i

/-- Memory holding a byte list, with zeros after it. -/
def Memory.ofList (bs : List UInt8) : Memory := fun i ↦ bs.getD i 0

/-! ### Packets; `common/protocol.hpp:10–46` -/

inductive PacketType
  | joinRequest
  | joinAccept
  | inputCommand
  | worldSnapshot
  | disconnectNotice
  deriving DecidableEq, Repr

/-- Wire value of a packet type. -/
def PacketType.toByte : PacketType → UInt8
  | joinRequest => 1
  | joinAccept => 2
  | inputCommand => 3
  | worldSnapshot => 4
  | disconnectNotice => 5

structure JoinRequest where
  clientVersion : UInt16
  deriving DecidableEq, Repr

structure JoinAccept (F : Type) where
  playerId : UInt16
  arenaW : F
  arenaH : F
  deriving DecidableEq, Repr

structure InputPacket where
  playerId : UInt16
  seq : UInt32
  mx : Int8
  my : Int8
  deriving DecidableEq, Repr

structure Snapshot (F : Type) where
  serverTick : UInt32
  players : List (PlayerState F)
  deriving DecidableEq, Repr

structure DisconnectNotice where
  playerId : UInt16
  deriving DecidableEq, Repr

/-- `MAX_SNAPSHOT_BYTES`; `common/protocol.hpp:45`. -/
def maxSnapshotBytes : Nat := 1 + 4 + 2 + maxPlayers * (2 + 4 + 4 + 4 + 4 + 4)

/-! ### BufferWriter; `common/serialization.cpp:23–48` -/

structure BufferWriter where
  data : Memory
  cap : Nat
  pos : Nat
  ok : Bool

namespace BufferWriter

/-- A writer at the start of a buffer. -/
def new (data : Memory) (cap : Nat) : BufferWriter := ⟨data, cap, 0, true⟩

/-- Common body of the `put_*` functions: test the room, copy, advance. -/
def putBytes (w : BufferWriter) (bs : List UInt8) : Bool × BufferWriter :=
  if !w.ok || w.cap < w.pos + bs.length then (false, { w with ok := false })
  else (true, { w with data := w.data.write w.pos bs, pos := w.pos + bs.length })

def putU8 (w : BufferWriter) (v : UInt8) : Bool × BufferWriter := w.putBytes [v]

def putU16 (w : BufferWriter) (v : UInt16) : Bool × BufferWriter := w.putBytes (toBE 2 v.toNat)

def putU32 (w : BufferWriter) (v : UInt32) : Bool × BufferWriter := w.putBytes (toBE 4 v.toNat)

def putI8 (w : BufferWriter) (v : Int8) : Bool × BufferWriter := w.putU8 v.toUInt8

def putF32 {F : Type} [FloatBits F] (w : BufferWriter) (v : F) : Bool × BufferWriter :=
  w.putU32 (bitsFromFloat v)

/-- Memory and encoded size, or size 0 after a failed write; the `return` of every encoder. -/
def finish (w : BufferWriter) : Memory × Nat := (w.data, if w.ok then w.pos else 0)

end BufferWriter

/-! ### BufferReader; `common/serialization.cpp:50–83` -/

structure BufferReader where
  data : Memory
  size : Nat
  pos : Nat
  ok : Bool

/-- A reading step: the value read, or none where the source returns `false`. -/
def Read (α : Type) : Type := BufferReader → Option α × BufferReader

/-- Steps chained by `&&`, or by an early `return false`. -/
instance : Monad Read where
  pure a := fun r ↦ (some a, r)
  bind m k := fun r ↦
    match m r with
    | (some a, r) => k a r
    | (none, r) => (none, r)

/-- A step after one that has a value. -/
theorem Read.bind_of_some {α β : Type} (m : Read α) (k : α → Read β) {r r' : BufferReader} {a : α}
    (h : m r = (some a, r')) : (m >>= k) r = k a r' := by
  simp only [bind, h]

/-- A step after one that has failed. -/
theorem Read.bind_of_none {α β : Type} (m : Read α) (k : α → Read β) {r : BufferReader}
    (h : (m r).1 = none) : ((m >>= k) r).1 = none := by
  cases hm : m r with
  | mk o r' =>
    rw [hm] at h
    obtain rfl : o = none := h
    simp only [bind, hm]

namespace BufferReader

/-- A reader at the start of a buffer. -/
def new (data : Memory) (size : Nat) : BufferReader := ⟨data, size, 0, true⟩

/-- Common body of the `get_*` functions: test the remaining size, copy, advance. -/
def getBytes (n : Nat) : Read (List UInt8) := fun r ↦
  if !r.ok || r.size < r.pos + n then (none, { r with ok := false })
  else (some ((List.range n).map fun i ↦ r.data (r.pos + i)), { r with pos := r.pos + n })

def getU8 : Read UInt8 := do return UInt8.ofNat (fromBE (← getBytes 1))

def getU16 : Read UInt16 := do return UInt16.ofNat (fromBE (← getBytes 2))

def getU32 : Read UInt32 := do return UInt32.ofNat (fromBE (← getBytes 4))

def getI8 : Read Int8 := do return (← getU8).toInt8

def getF32 {F : Type} [FloatBits F] : Read F := do return floatFromBits (← getU32)

/-- `return false` where a check on a read value fails. -/
def require (c : Bool) : Read Unit := fun r ↦ (if c then some () else none, r)

end BufferReader

/-! ### Typed encoders; `common/serialization.cpp:85–133` -/

open BufferWriter BufferReader

variable {F : Type} [FloatBits F]

def encodeJoinRequest (out : Memory) (cap : Nat) (p : JoinRequest) : Memory × Nat :=
  let w := BufferWriter.new out cap
  let w := (w.putU8 PacketType.joinRequest.toByte).2
  let w := (w.putU16 p.clientVersion).2
  w.finish

def encodeJoinAccept (out : Memory) (cap : Nat) (p : JoinAccept F) : Memory × Nat :=
  let w := BufferWriter.new out cap
  let w := (w.putU8 PacketType.joinAccept.toByte).2
  let w := (w.putU16 p.playerId).2
  let w := (w.putF32 p.arenaW).2
  let w := (w.putF32 p.arenaH).2
  w.finish

def encodeInput (out : Memory) (cap : Nat) (p : InputPacket) : Memory × Nat :=
  let w := BufferWriter.new out cap
  let w := (w.putU8 PacketType.inputCommand.toByte).2
  let w := (w.putU16 p.playerId).2
  let w := (w.putU32 p.seq).2
  let w := (w.putI8 p.mx).2
  let w := (w.putI8 p.my).2
  w.finish

/-- One iteration of the player loop of `encode_snapshot`. -/
def putPlayer (w : BufferWriter) (ps : PlayerState F) : BufferWriter :=
  let w := (w.putU16 ps.id).2
  let w := (w.putF32 ps.pos.x).2
  let w := (w.putF32 ps.pos.y).2
  let w := (w.putF32 ps.vel.x).2
  let w := (w.putF32 ps.vel.y).2
  (w.putU32 ps.lastProcessedInputSeq).2

/-- The player count is cast to 16 bits before it is written. -/
def encodeSnapshot (out : Memory) (cap : Nat) (p : Snapshot F) : Memory × Nat :=
  let w := BufferWriter.new out cap
  let w := (w.putU8 PacketType.worldSnapshot.toByte).2
  let w := (w.putU32 p.serverTick).2
  let w := (w.putU16 (UInt16.ofNat p.players.length)).2
  let w := p.players.foldl putPlayer w
  w.finish

def encodeDisconnect (out : Memory) (cap : Nat) (p : DisconnectNotice) : Memory × Nat :=
  let w := BufferWriter.new out cap
  let w := (w.putU8 PacketType.disconnectNotice.toByte).2
  let w := (w.putU16 p.playerId).2
  w.finish

/-! ### Typed decoders; `common/serialization.cpp:135–197` -/

/-- Packet type of the first byte; no type on an empty buffer or an unknown byte. -/
def peekType (data : Memory) (size : Nat) : Option PacketType :=
  if size = 0 then none
  else
    let t := data 0
    if t < 1 ∨ 5 < t then none
    else if t = 1 then some .joinRequest
    else if t = 2 then some .joinAccept
    else if t = 3 then some .inputCommand
    else if t = 4 then some .worldSnapshot
    else some .disconnectNotice

def decodeJoinRequest (data : Memory) (size : Nat) : Option JoinRequest :=
  let read : Read JoinRequest := do
    require ((← getU8) = PacketType.joinRequest.toByte)
    return ⟨← getU16⟩
  (read (BufferReader.new data size)).1

def decodeJoinAccept (data : Memory) (size : Nat) : Option (JoinAccept F) :=
  let read : Read (JoinAccept F) := do
    require ((← getU8) = PacketType.joinAccept.toByte)
    return ⟨← getU16, ← getF32, ← getF32⟩
  (read (BufferReader.new data size)).1

def decodeInput (data : Memory) (size : Nat) : Option InputPacket :=
  let read : Read InputPacket := do
    require ((← getU8) = PacketType.inputCommand.toByte)
    return ⟨← getU16, ← getU32, ← getI8, ← getI8⟩
  (read (BufferReader.new data size)).1

/-- One iteration of the player loop of `decode_snapshot`. -/
def getPlayer : Read (PlayerState F) := do
  return ⟨← getU16, ⟨← getF32, ← getF32⟩, ⟨← getF32, ← getF32⟩, ← getU32⟩

/-- The player loop of `decode_snapshot`. -/
def getPlayers : Nat → Read (List (PlayerState F))
  | 0 => return []
  | n + 1 => return (← getPlayer) :: (← getPlayers n)

def decodeSnapshot (data : Memory) (size : Nat) : Option (Snapshot F) :=
  let read : Read (Snapshot F) := do
    require ((← getU8) = PacketType.worldSnapshot.toByte)
    let tick ← getU32
    let n ← getU16
    require (n.toNat ≤ maxPlayers)
    return ⟨tick, ← getPlayers n.toNat⟩
  (read (BufferReader.new data size)).1

def decodeDisconnect (data : Memory) (size : Nat) : Option DisconnectNotice :=
  let read : Read DisconnectNotice := do
    require ((← getU8) = PacketType.disconnectNotice.toByte)
    return ⟨← getU16⟩
  (read (BufferReader.new data size)).1

end LightningLink.Proto
