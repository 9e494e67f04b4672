import LightningLink.Baseline.Client
import LightningLink.Baseline.Server
import LightningLink.Support.Pipe

/-!
# Lines of the text protocol

Library `Baseline`. Every buffer that either side passes to `::send` is one line: it ends with
a newline and has no other. An input line is read by the server as the fields it was made of.
-/

namespace LightningLink.Baseline

open Support FloatOps FloatArith Srv

/-- A line with its newline, and no other newline. -/
def IsLine (data : List Char) : Prop := Terminated '\n' data

/-- What has no white space has no newline. -/
private theorem newline_notMem {cs : List Char} (h : ∀ c ∈ cs, isSpace c = false) : '\n' ∉ cs :=
  fun hmem ↦ Bool.noConfusion ((h _ hmem).symm.trans (by decide : isSpace '\n' = true))

private theorem newline_notMem_writeNat (n : Nat) : '\n' ∉ writeNat n := by
  intro h
  have : ('\n' : Char).isDigit = true := Nat.isDigit_of_mem_toDigits (by decide) (by decide) h
  cases this

private theorem newline_notMem_writeInt (i : Int) : '\n' ∉ writeInt i := by
  unfold writeInt
  split
  · rw [List.mem_cons, not_or]
    exact ⟨by decide, newline_notMem_writeNat _⟩
  · exact newline_notMem_writeNat _

private theorem newline_notMem_float {F : Type} [FloatText F] (x : F) :
    '\n' ∉ FloatText.write x := newline_notMem (FloatText.isSpace_write x)

section

variable {F : Type} [FloatText F]

/-- The line after `accept` is a line. -/
theorem isLine_joinLine [FloatArith F] (id : UInt16) : IsLine (joinLine F id) := by
  refine ⟨_, rfl, ?_⟩
  simp [newline_notMem_writeNat, newline_notMem_float]

private theorem newline_notMem_formatPlayer (p : PlayerState F) : '\n' ∉ formatPlayer p := by
  simp [formatPlayer, newline_notMem_writeNat, newline_notMem_float]

/-- A snapshot line is a line. -/
theorem isLine_formatSnapshotLine (order : UMap.Traversal UInt16 (ServerPlayer F))
    (w : WorldState F) : IsLine (formatSnapshotLine order w) := by
  refine ⟨_, rfl, ?_⟩
  simp [newline_notMem_writeNat, newline_notMem_formatPlayer]

end

/-- Characters of an input line before its newline. -/
def inputBody (seq : UInt32) (mx my : Int8) : List Char :=
  ['I', 'N', ' '] ++ writeNat seq.toNat ++ ' ' :: writeInt mx.toInt ++ ' ' :: writeInt my.toInt

private theorem newline_notMem_inputBody (seq : UInt32) (mx my : Int8) :
    '\n' ∉ inputBody seq mx my := by
  simp [inputBody, newline_notMem_writeNat, newline_notMem_writeInt]

/-- An input line is a line. -/
theorem isLine_inputLine (seq : UInt32) (mx my : Int8) : IsLine (inputLine seq mx my) :=
  ⟨inputBody seq mx my, rfl, newline_notMem_inputBody seq mx my⟩

/-- `BYE` is a line. -/
theorem isLine_byeLine : IsLine byeLine := ⟨['B', 'Y', 'E'], rfl, by decide⟩

/-! ### Reading an input line -/

/-- The command and the fields of an input line. -/
theorem read_inputBody (seq : UInt32) (mx my : Int8) :
    let cmd := (Istringstream.ofString (inputBody seq mx my)).getWord
    cmd.1 = some ['I', 'N'] ∧ parseIn cmd.2 = (seq, mx.toInt, my.toInt) := by
  let rest := ' ' :: (writeNat seq.toNat ++ ' ' :: (writeInt mx.toInt ++ ' ' ::
    (writeInt my.toInt ++ [])))
  have hword : (Istringstream.ofString (inputBody seq mx my)).getWord =
      (some ['I', 'N'], ⟨rest, false, false⟩) := by
    have hbody : inputBody seq mx my = ['I', 'N'] ++ rest := by simp [inputBody, rest]
    rw [hbody]
    exact Istringstream.getWord_append (List.cons_ne_nil _ _) (by simp [isSpace]) _
  have hseq : seq.toNat < 2 ^ 32 := seq.toNat_lt
  have hmx := And.intro mx.le_toInt mx.toInt_lt
  have hmy := And.intro my.le_toInt my.toInt_lt
  have hends : ∀ cs, Istringstream.Ends (' ' :: cs) := fun cs ↦ .inr ⟨cs, rfl⟩
  simp only [hword, true_and]
  unfold parseIn
  simp only [rest]
  rw [Istringstream.getUnsigned_writeNat hseq (hends _)]
  simp only [List.isEmpty_cons]
  rw [Istringstream.getSigned_writeInt (by omega) (by omega) (hends _)]
  simp only [List.isEmpty_cons]
  rw [Istringstream.getSigned_writeInt (by omega) (by omega) (.inl rfl)]
  simp only [Option.getD_some, uint32_ofInt_toNat]

/-- The server takes an input line for the input it was made of. -/
theorem processLine_inputBody {F : Type} (now : Int) (seq : UInt32) (mx my : Int8)
    (s : TcpClient × WorldState F × UInt64) :
    processLine now (inputBody seq mx my) s =
      ({ s.1 with lastInput := now }, (s.2.1.applyInput s.1.playerId seq mx my).2, s.2.2 + 1) := by
  obtain ⟨hcmd, hfields⟩ := read_inputBody seq mx my
  have hne : (inputBody seq mx my).isEmpty = false := rfl
  unfold processLine
  simp only [hne, Bool.false_eq_true, if_false, hcmd, if_true, hfields, Int8.ofInt_toInt]

/-- A buffer that holds one input line is used up. -/
theorem processLines_inputLine {F : Type} (clock : Nat → Int) (seq : UInt32) (mx my : Int8)
    (c : TcpClient) (world : WorldState F) (inputs : UInt64) (hc : c.rxBuffer = inputLine seq mx my) :
    processLines clock (c, world, inputs) =
      ({ c with rxBuffer := [], lastInput := clock 0 },
        (world.applyInput c.playerId seq mx my).2, inputs + 1) := by
  have hcut : splitLines '\n' c.rxBuffer = ([inputBody seq mx my], []) := by
    rw [hc]
    exact splitLines_line_append (newline_notMem_inputBody seq mx my) []
  unfold processLines
  simp only [hcut, List.zipIdx_cons, List.zipIdx_nil, List.foldl_cons, List.foldl_nil]
  exact processLine_inputBody (clock 0) seq mx my _

end LightningLink.Baseline
