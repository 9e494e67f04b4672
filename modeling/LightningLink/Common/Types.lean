import Mathlib.Init

/-!
# Constants, floating-point interface and value types

Library `Common`. Models `common/constants.hpp`, `common/types.hpp` and
`common/math_utils.hpp`. The arithmetic of `float` and `double` is a parameter: a model
of the code is instantiated with bit patterns where bytes matter and with exact numbers
where lengths do.
-/

namespace LightningLink

/-! ### Floating point -/

/-- The operators of a C++ floating type that the code applies to its values. -/
class FloatOps (F : Type) extends Add F, Sub F, Mul F, Div F where
  /-- Integral literal, or `static_cast` from an integer type. -/
  ofInt : Int → F
  lt : F → F → Bool
  sqrt : F → F

/-- `float` together with `double` and the conversion between them. -/
class FloatArith (F : Type) extends FloatOps F where
  Double : Type
  [doubleOps : FloatOps Double]
  /-- `static_cast<float>(double)`. -/
  ofDouble : Double → F

attribute [reducible, instance] FloatArith.doubleOps

/-- The 32-bit patterns of a floating type; `common/serialization.cpp:10–19`. -/
class FloatBits (F : Type) where
  bitsFromFloat : F → UInt32
  floatFromBits : UInt32 → F

/-- A `float` as its 32-bit pattern. -/
structure F32 where
  bits : UInt32
  deriving DecidableEq, Repr

instance : FloatBits F32 where
  bitsFromFloat := F32.bits
  floatFromBits := F32.mk

open FloatOps FloatArith

/-- A binary32 operation on bit patterns. -/
private def F32.lift₂ (op : Float32 → Float32 → Float32) (a b : F32) : F32 :=
  ⟨(op (.ofBits a.bits) (.ofBits b.bits)).toBits⟩

instance : FloatOps Float where
  ofInt := Float.ofInt
  lt a b := a < b
  sqrt := Float.sqrt

/-- The IEEE 754 arithmetic of `float` and `double`. -/
instance : FloatArith F32 where
  add := F32.lift₂ (· + ·)
  sub := F32.lift₂ (· - ·)
  mul := F32.lift₂ (· * ·)
  div := F32.lift₂ (· / ·)
  ofInt n := ⟨(Float32.ofInt n).toBits⟩
  lt a b := Float32.ofBits a.bits < Float32.ofBits b.bits
  sqrt a := ⟨(Float32.ofBits a.bits).sqrt.toBits⟩
  Double := Float
  ofDouble d := ⟨d.toFloat32.toBits⟩

/-! ### Constants; `common/constants.hpp` -/

/-- `TICK_RATE_HZ`. -/
def tickRateHz : Nat := 60

/-- `SNAPSHOT_RATE_HZ`. -/
def snapshotRateHz : Nat := 20

/-- `TICKS_PER_SNAPSHOT`, every third tick. -/
def ticksPerSnapshot : Nat := tickRateHz / snapshotRateHz

/-- `PROTOCOL_VERSION`. -/
def protocolVersion : UInt16 := 2

/-- `MAX_PLAYERS`. -/
def maxPlayers : Nat := 8

/-- `MAX_PACKET_BYTES`, the size of the receive buffers. -/
def maxPacketBytes : Nat := 1200

/-- `INPUT_HISTORY_SIZE`, the capacity of the prediction ring. -/
def inputHistorySize : Nat := 120

/-- `CLIENT_TIMEOUT_SEC = 3.0` in the nanoseconds of `steady_clock`. -/
def clientTimeout : Int := 3000000000

section

variable (F : Type) [FloatArith F]

/-- `DT_SECONDS = 1.0 / TICK_RATE_HZ`, a `double`. -/
def dtSeconds : Double F := ofInt 1 / ofInt tickRateHz

/-- `ARENA_WIDTH`. -/
def arenaWidth : F := ofInt 1280

/-- `ARENA_HEIGHT`. -/
def arenaHeight : F := ofInt 720

/-- `PLAYER_SPEED`, world units per second. -/
def playerSpeed : F := ofInt 240

/-- The literal `0.5f`. -/
def half : F := ofInt 1 / ofInt 2

end

/-! ### Value types; `common/types.hpp` -/

/-- Two-dimensional vector. -/
structure Vec2 (F : Type) where
  x : F
  y : F
  deriving DecidableEq, Repr

namespace Vec2

variable {F : Type} [FloatArith F]

instance : Add (Vec2 F) where add a b := ⟨a.x + b.x, a.y + b.y⟩
instance : Sub (Vec2 F) where sub a b := ⟨a.x - b.x, a.y - b.y⟩
instance : HMul (Vec2 F) F (Vec2 F) where hMul a s := ⟨a.x * s, a.y * s⟩

/-- The default `{0.0f, 0.0f}`. -/
def zero : Vec2 F := ⟨ofInt 0, ofInt 0⟩

end Vec2

/-- Player record as carried by snapshots. -/
structure PlayerState (F : Type) where
  id : UInt16
  pos : Vec2 F
  vel : Vec2 F
  lastProcessedInputSeq : UInt32
  deriving DecidableEq, Repr

/-- Normalized endpoint key; `common/net_compat.hpp:20–25`. -/
structure Endpoint where
  ip : UInt32
  port : UInt16
  deriving DecidableEq, Repr

/-! ### Vector helpers; `common/math_utils.hpp` -/

section

variable {F : Type} [FloatArith F]

/-- `std::max(lo, std::min(v, hi))` with the standard library's argument order. -/
def clampf (v lo hi : F) : F :=
  let m := if lt hi v then hi else v
  if lt lo m then m else lo

/-- Per-axis clamp to the rectangle `[0, w] × [0, h]`. -/
def clampToArena (p : Vec2 F) (w h : F) : Vec2 F :=
  ⟨clampf p.x (ofInt 0) w, clampf p.y (ofInt 0) h⟩

/-- Unit vector of a direction, or zero where its length is not positive. -/
def normalizeDir (mx my : Int8) : Vec2 F :=
  let x : F := ofInt mx.toInt
  let y : F := ofInt my.toInt
  let m := sqrt (x * x + y * y)
  if lt (ofInt 0) m then ⟨x / m, y / m⟩ else ⟨ofInt 0, ofInt 0⟩

/-- Linear interpolation. -/
def lerp (a b : Vec2 F) (t : F) : Vec2 F := ⟨a.x + (b.x - a.x) * t, a.y + (b.y - a.y) * t⟩

end

end LightningLink
