import LightningLink.Baseline.Server
import Mathlib.Data.Nat.Sqrt

/-!
# Rational numbers for runs on fixed inputs

Library `Baseline`. Rational numbers in the place of `float` and `double`, with their text and
their bits. They are exact where a run has whole values and square roots of squares only, as
around the middle of the arena.
-/

namespace LightningLink.Baseline

open Support FloatOps

/-- Rational arithmetic, with the root of squares. -/
@[reducible] def ratOps : FloatOps Rat where
  ofInt := Rat.ofInt
  lt a b := a < b
  sqrt a := mkRat a.num.toNat.sqrt a.den.sqrt

/-- `float` and `double` as rational numbers. -/
@[reducible] def ratArith : FloatArith Rat where
  toFloatOps := ratOps
  Double := Rat
  doubleOps := ratOps
  ofDouble := id

/-- Whole numbers in decimal. -/
@[reducible] def ratText : FloatText Rat where
  write x := writeInt x.floor
  scan cs :=
    let t := Istringstream.takeNumber (fun neg n ↦ (if neg then -n else n, false)) cs
    (Rat.ofInt t.1, t.2)
  isSpace_write x c hc := by
    have hdigit : ∀ n, c ∈ writeNat n → isSpace c = false := fun n h ↦
      Istringstream.isSpace_of_isDigit (Nat.isDigit_of_mem_toDigits (by decide) (by decide) h)
    unfold writeInt at hc
    split at hc
    · rcases List.mem_cons.mp hc with rfl | hc
      · decide
      · exact hdigit _ hc
    · exact hdigit _ hc

/-- Binary32 patterns of the sizes of the arena and of its middle. -/
@[reducible] def ratBits : FloatBits Rat where
  bitsFromFloat x :=
    if x = 1280 then 0x44A00000 else if x = 720 then 0x44340000
    else if x = 640 then 0x44200000 else if x = 360 then 0x43B40000 else 0
  floatFromBits b :=
    if b = 0x44A00000 then 1280 else if b = 0x44340000 then 720
    else if b = 0x44200000 then 640 else if b = 0x43B40000 then 360 else 0

/-- Visits by increasing descriptor. -/
def byFd {V : Type} : UMap.Traversal Int V :=
  .byRank (fun fd ↦ 2 * fd.natAbs + if fd < 0 then 1 else 0) fun a b h ↦ by
    dsimp only at h
    split at h <;> split at h <;> omega

private theorem id_injective : Function.Injective UInt16.toNat :=
  fun _ _ h ↦ UInt16.toNat_inj.mp h

private theorem seq_injective : Function.Injective UInt32.toNat :=
  fun _ _ h ↦ UInt32.toNat_inj.mp h

/-- Visits by increasing id. -/
def byId {V : Type} : UMap.Traversal UInt16 V := .byRank UInt16.toNat id_injective

/-- Visits by increasing sequence number. -/
def bySeq {V : Type} : UMap.Traversal UInt32 V := .byRank UInt32.toNat seq_injective

/-- Body of a snapshot line of tick 3 with player 1 at rest in the middle of the arena. -/
def middleLine (ack : Nat) : List Char :=
  ['S', 'S', ' ', '3', ' ', '1', ' ', '1', ' ', '6', '4', '0', ' ', '3', '6', '0', ' ',
    '0', ' ', '0', ' '] ++ writeNat ack

end LightningLink.Baseline
