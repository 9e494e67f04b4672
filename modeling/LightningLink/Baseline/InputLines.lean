import LightningLink.Baseline.Fields
import LightningLink.Baseline.Intake
import LightningLink.Server.Delivery

/-!
# Input lines

Library `Baseline`. What an input line asks for, read off its tokens, beside what `process_lines`
makes of it. A line that names an input is executed even if its fields are missing or out of
range, and a direction is cut to eight bits before it is clamped.
-/

namespace LightningLink.Baseline

open Support Srv

/-- Number and direction of a line whose first four tokens are `IN` and three decimal integers in
the ranges of their variables. -/
def inputFields (line : List Char) : Option (Int × Int × Int) :=
  match tokens isSpace line with
  | cmd :: seq :: mx :: my :: _ =>
    if cmd = ['I', 'N'] then
      (decimal seq).bind fun seq ↦ (decimal mx).bind fun mx ↦ (decimal my).bind fun my ↦
        if (0 ≤ seq ∧ seq < 2 ^ 32) ∧ (-2 ^ 31 ≤ mx ∧ mx < 2 ^ 31) ∧ -2 ^ 31 ≤ my ∧ my < 2 ^ 31 then
          some (seq, mx, my)
        else none
    else none
  | _ => none

/-- A line is handled as its fields say: an input with its number and its clamped direction, or
nothing. -/
def Obeyed {F : Type} (now : Int) (line : List Char) (s : TcpClient × WorldState F × UInt64) :
    Prop :=
  let s' := processLine now line s
  match inputFields line with
  | none => s'.2 = s.2 ∧ s'.1.lastInput = s.1.lastInput
  | some (seq, mx, my) => ∃ dx dy, inputCall line = some (UInt32.ofInt seq, dx, dy) ∧
      s'.2 = ((s.2.1.applyInput s.1.playerId (UInt32.ofInt seq) dx dy).2, s.2.2 + 1) ∧
      (clampDir dx).toInt = max (-1) (min 1 mx) ∧ (clampDir dy).toInt = max (-1) (min 1 my)

/-- The low byte of a number has its sign. -/
def KeepsSign (m : Int) : Prop := (m.bmod 256).sign = m.sign

instance (m : Int) : Decidable (KeepsSign m) := by
  unfold KeepsSign
  infer_instance

/-- A line does not begin with `IN`, or its fields are in range and the low bytes of the direction
have its signs. -/
def ProperInput (line : List Char) : Prop :=
  match inputFields line with
  | none => (tokens isSpace line).head? ≠ some ['I', 'N']
  | some (_, mx, my) => KeepsSign mx ∧ KeepsSign my

instance (line : List Char) : Decidable (ProperInput line) := by
  unfold ProperInput
  split <;> infer_instance

/-- A line calls `apply_input` if its first token is `IN`. -/
theorem isSome_inputCall_iff (line : List Char) :
    (inputCall line).isSome = true ↔ (tokens isSpace line).head? = some ['I', 'N'] := by
  unfold inputCall
  dsimp only
  rw [Istringstream.getWord_ofString]
  split
  · next h => simp [h]
  · next h => simp [h]

/-- The call for a line whose fields are in range. -/
theorem inputCall_of_fields {line : List Char} {seq mx my : Int}
    (h : inputFields line = some (seq, mx, my)) :
    inputCall line = some (UInt32.ofInt seq, Int8.ofInt mx, Int8.ofInt my) := by
  unfold inputFields at h
  split at h
  · next cmd tseq tmx tmy rest htokens =>
    split at h
    · next hcmd =>
      simp only [Option.bind_eq_some_iff, Option.ite_none_right_eq_some, Option.some.injEq,
        Prod.mk.injEq] at h
      obtain ⟨_, hseq, _, hmx, _, hmy, hranges, rfl, rfl, rfl⟩ := h
      obtain ⟨⟨hseq0, hseq1⟩, ⟨hmx0, hmx1⟩, hmy0, hmy1⟩ := hranges
      have hline := Istringstream.holds_ofString line
      rw [htokens, hcmd] at hline
      obtain ⟨hword, hfields⟩ := hline.getWord
      obtain ⟨hgetSeq, hdirs⟩ := hfields.getUnsigned hseq hseq0 hseq1
      obtain ⟨hgetMx, hlast⟩ := hdirs.getSigned hmx hmx0 hmx1
      obtain ⟨hgetMy, _⟩ := hlast.getSigned hmy hmy0 hmy1
      unfold inputCall parseIn
      simp only [hword, if_true, hgetSeq, hgetMx, hgetMy, Option.getD_some]
    · cases h
  · cases h

/-- The direction that is clamped is the low byte. -/
theorem toInt_clampDir_ofInt (m : Int) :
    (clampDir (Int8.ofInt m)).toInt = max (-1) (min 1 m) ↔ KeepsSign m := by
  have hsign (i : Int) : max (-1) (min 1 i) = i.sign := by
    rcases Int.lt_trichotomy i 0 with h | rfl | h
    · rw [Int.sign_eq_neg_one_of_neg h]
      omega
    · rfl
    · rw [Int.sign_eq_one_of_pos h]
      omega
  have hbyte : (Int8.ofInt m).toInt = m.bmod 256 := Int8.toInt_ofInt
  rw [toInt_clampDir, hbyte, hsign, hsign]
  rfl

/-- In every state exactly the proper lines are handled as their fields say. -/
theorem obeyed_iff {F : Type} (now : Int) (line : List Char)
    (s : TcpClient × WorldState F × UInt64) : Obeyed now line s ↔ ProperInput line := by
  unfold Obeyed ProperInput
  cases hfields : inputFields line with
  | none =>
    dsimp only
    rw [ne_eq, ← isSome_inputCall_iff, processLine_eq]
    cases hcall : inputCall line with
    | none =>
      simp only [Option.isSome_none, Bool.false_eq_true, not_false_eq_true, iff_true]
      split <;> exact ⟨rfl, rfl⟩
    | some call =>
      simp only [Option.isSome_some, not_true_eq_false, iff_false, not_and]
      intro hsame
      have hcount : s.2.2 + 1 = s.2.2 := congrArg Prod.snd hsame
      rw [← UInt64.add_zero s.2.2, UInt64.add_assoc, UInt64.add_right_inj] at hcount
      cases hcount
  | some fields =>
    obtain ⟨seq, mx, my⟩ := fields
    have hcall := inputCall_of_fields hfields
    have heq := processLine_eq now line s
    rw [hcall] at heq
    dsimp only at heq ⊢
    rw [heq, hcall]
    constructor
    · rintro ⟨dx, dy, hsome, _, hdx, hdy⟩
      obtain ⟨_, rfl, rfl⟩ := Prod.mk.inj (Option.some.inj hsome) |>.imp_right Prod.mk.inj
      exact ⟨(toInt_clampDir_ofInt mx).mp hdx, (toInt_clampDir_ofInt my).mp hdy⟩
    · rintro ⟨hmx, hmy⟩
      exact ⟨_, _, rfl, rfl, (toInt_clampDir_ofInt mx).mpr hmx, (toInt_clampDir_ofInt my).mpr hmy⟩

/-- A server whose client 1 has just joined. Without its direction an input is executed and
counted; a number out of range is read as the largest, after which the next input is refused; and
a large direction is turned around. -/
theorem input_line_disobeyed :
    letI := ratArith
    letI := ratText
    let s : BaselineServer Rat := BaselineServer.init.run [.accept 4 0]
    let after (line : String) : BaselineServer Rat := s.step (.read 4 line.toList false fun _ ↦ 1)
    (∀ c, s.clients.find? 4 = some c →
      ¬ Obeyed 1 "IN 5".toList (c, s.world, s.inputsReceived) ∧
      ¬ Obeyed 1 "IN 7 200 0".toList (c, s.world, s.inputsReceived)) ∧
    (after "IN 5\n").inputsReceived = 1 ∧
    ((after "IN 4294967296 1 0\nIN 8 1 0\n").world.get 1).map (fun p ↦ (p.latestSeenSeq, p.pendingMx)) =
      some (4294967295, 0) ∧
    ((after "IN 7 200 0\n").world.get 1).map (fun p ↦ p.pendingMx) = some (-1) := by
  let _ := ratArith
  let _ := ratText
  refine ⟨fun c _ ↦ ⟨?_, ?_⟩, ?_⟩
  · rw [obeyed_iff]
    decide +kernel
  · rw [obeyed_iff]
    decide +kernel
  · decide +kernel

end LightningLink.Baseline
