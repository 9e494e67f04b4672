import LightningLink.Baseline.Framing

/-!
# What the baseline server executes of a stream

Library `Baseline`. The calls of `apply_input` that `process_lines` makes depend on the stream
of a client alone, not on how `::recv` cuts it into chunks and how often the lines are processed
in between.
-/

namespace LightningLink.Baseline

open Support Srv

/-- Arguments of the call of `apply_input` that a line leads to, without the id;
`server/tcp_baseline.cpp:81–87`. -/
def inputCall (line : List Char) : Option (UInt32 × Int8 × Int8) :=
  let cmd := (Istringstream.ofString line).getWord
  if cmd.1 = some ['I', 'N'] then
    let (seq, mx, my) := parseIn cmd.2
    some (seq, Int8.ofInt mx, Int8.ofInt my)
  else none

/-- The first token of a line is `BYE`. -/
def IsBye (line : List Char) : Prop :=
  (Istringstream.ofString line).getWord.1 = some ['B', 'Y', 'E']

instance (line : List Char) : Decidable (IsBye line) := by
  unfold IsBye
  infer_instance

/-- A world and `inputs_received` after calls of `apply_input` for a player. -/
def applyCalls {F : Type} (id : UInt16) (calls : List (UInt32 × Int8 × Int8))
    (w : WorldState F × UInt64) : WorldState F × UInt64 :=
  calls.foldl (fun w call ↦ ((w.1.applyInput id call.1 call.2.1 call.2.2).2, w.2 + 1)) w

variable {F : Type}

/-- A line calls `apply_input`, marks the client, or does nothing. -/
theorem processLine_eq (now : Int) (line : List Char) (s : TcpClient × WorldState F × UInt64) :
    processLine now line s =
      match inputCall line with
      | some (seq, mx, my) => ({ s.1 with lastInput := now },
          (s.2.1.applyInput s.1.playerId seq mx my).2, s.2.2 + 1)
      | none => if IsBye line then ({ s.1 with fd := -1 }, s.2) else s := by
  by_cases hempty : line = []
  · subst hempty
    rfl
  · unfold processLine inputCall IsBye
    rw [if_neg (by rwa [List.isEmpty_iff])]
    dsimp only
    by_cases hin : (Istringstream.ofString line).getWord.1 = some ['I', 'N']
    · rw [if_pos hin, if_pos hin]
    · rw [if_neg hin, if_neg hin]

/-- A line that says `BYE` calls nothing. -/
theorem inputCall_of_isBye {line : List Char} (h : IsBye line) : inputCall line = none := by
  unfold inputCall
  dsimp only
  rw [show (Istringstream.ofString line).getWord.1 = _ from h]
  rfl

/-- What several lines change in a client, the world and `inputs_received`. -/
theorem foldl_processLine (clock : Nat → Int) (lines : List (List Char)) (n : Nat)
    (s : TcpClient × WorldState F × UInt64) :
    let r := (lines.zipIdx n).foldl (fun s l ↦ processLine (clock l.2) l.1 s) s
    r.1.playerId = s.1.playerId ∧ r.1.rxBuffer = s.1.rxBuffer ∧
      r.1.fd = (if ∃ line ∈ lines, IsBye line then -1 else s.1.fd) ∧
      r.2 = applyCalls s.1.playerId (lines.filterMap inputCall) s.2 := by
  induction lines generalizing n s with
  | nil => simp [applyCalls]
  | cons line lines ih =>
    rw [List.zipIdx_cons, List.foldl_cons]
    obtain ⟨hid, hbuf, hfd, hcalls⟩ := ih (n + 1) (processLine (clock n) line s)
    dsimp only
    rw [hid, hbuf, hfd, hcalls, processLine_eq]
    simp only [List.mem_cons, exists_eq_or_imp]
    cases hcall : inputCall line with
    | some call =>
      have hbye : ¬ IsBye line := fun hbye ↦ by rw [inputCall_of_isBye hbye] at hcall; cases hcall
      rw [List.filterMap_cons_some hcall]
      refine ⟨rfl, rfl, ?_, rfl⟩
      simp only [hbye, false_or]
    | none =>
      rw [List.filterMap_cons_none hcall]
      by_cases hbye : IsBye line
      · simp [hbye]
      · simp [hbye]

/-- What `process_lines` changes. -/
theorem processLines_spec (clock : Nat → Int) (s : TcpClient × WorldState F × UInt64) :
    let cut := splitLines '\n' s.1.rxBuffer
    let r := processLines clock s
    r.1.playerId = s.1.playerId ∧ r.1.rxBuffer = cut.2 ∧
      r.1.fd = (if ∃ line ∈ cut.1, IsBye line then -1 else s.1.fd) ∧
      r.2 = applyCalls s.1.playerId (cut.1.filterMap inputCall) s.2 :=
  foldl_processLine clock _ 0 _

/-! ### The loop -/

/-- The loop of `process_lines` as it is written: cut one line off, handle it, and look again, at
most so many times; `server/tcp_baseline.cpp:73–93`. -/
def processLinesLoop (clock : Nat → Int) : Nat → Nat → TcpClient × WorldState F × UInt64 →
    Option (TcpClient × WorldState F × UInt64)
  | 0, _, _ => none
  | fuel + 1, handled, s =>
    match cutLine '\n' s.1.rxBuffer with
    | none => some s
    | some (line, rest) =>
      processLinesLoop clock fuel (handled + 1)
        (processLine (clock handled) line ({ s.1 with rxBuffer := rest }, s.2))

/-- Handling a line commutes with changing the buffer. -/
theorem processLine_rxBuffer (now : Int) (line buf : List Char)
    (s : TcpClient × WorldState F × UInt64) :
    processLine now line ({ s.1 with rxBuffer := buf }, s.2) =
      ({ (processLine now line s).1 with rxBuffer := buf }, (processLine now line s).2) := by
  rw [processLine_eq, processLine_eq]
  cases inputCall line with
  | some call => rfl
  | none =>
    dsimp only
    split <;> rfl

/-- The loop ends after the last newline, with what the lines cut at once lead to. -/
theorem processLinesLoop_eq (clock : Nat → Int) (fuel n : Nat)
    (s : TcpClient × WorldState F × UInt64) (hfuel : s.1.rxBuffer.count '\n' < fuel) :
    let cut := splitLines '\n' s.1.rxBuffer
    processLinesLoop clock fuel n s = some ((cut.1.zipIdx n).foldl
      (fun s l ↦ processLine (clock l.2) l.1 s) ({ s.1 with rxBuffer := cut.2 }, s.2)) := by
  induction fuel generalizing n s with
  | zero => exact absurd hfuel (Nat.not_lt_zero _)
  | succ fuel ih =>
    unfold processLinesLoop
    dsimp only
    rw [splitLines_eq]
    cases hcut : cutLine '\n' s.1.rxBuffer with
    | none => rfl
    | some cut =>
      obtain ⟨line, rest⟩ := cut
      obtain ⟨hbuf, _⟩ := eq_of_cutLine hcut
      have hcount : rest.count '\n' < fuel := by
        rw [hbuf, List.count_append, List.count_cons_self] at hfuel
        omega
      have hrest : (processLine (clock n) line ({ s.1 with rxBuffer := rest }, s.2)).1.rxBuffer =
          rest := BaselineServer.rxBuffer_processLine _ _ _
      have hcommute (buf : List Char) := processLine_rxBuffer (clock n) line buf s
      dsimp only
      rw [ih (n + 1) _ (by rwa [hrest]), hrest, List.zipIdx_cons, List.foldl_cons,
        hcommute rest, hcommute (splitLines '\n' rest).2]

/-! ### Chunks -/

/-- A part of the read loop at one client. -/
inductive Intake
  /-- `::recv` yields bytes. -/
  | recv (chunk : List Char)
  /-- `process_lines` is called. -/
  | process (clock : Nat → Int)

namespace Intake

/-- What a part changes in the client, the world and `inputs_received`. A descriptor that is marked
yields nothing, and its lines are not processed; `server/tcp_baseline.cpp:160–172`. -/
def step (s : TcpClient × WorldState F × UInt64) : Intake → TcpClient × WorldState F × UInt64
  | .recv chunk =>
    if s.1.fd < 0 then s else ({ s.1 with rxBuffer := s.1.rxBuffer ++ chunk }, s.2)
  | .process clock => if s.1.fd < 0 then s else processLines clock s

/-- State after several parts. -/
def run (s : TcpClient × WorldState F × UInt64) (ops : List Intake) :
    TcpClient × WorldState F × UInt64 := ops.foldl step s

/-- Lines that a part handles. -/
def lines (s : TcpClient × WorldState F × UInt64) : Intake → List (List Char)
  | .recv _ => []
  | .process _ => if s.1.fd < 0 then [] else (splitLines '\n' s.1.rxBuffer).1

/-- Lines that several parts handle, in order. -/
def handled (s : TcpClient × WorldState F × UInt64) : List Intake → List (List Char)
  | [] => []
  | op :: ops => op.lines s ++ handled (step s op) ops

/-- Calls of `apply_input` that several parts make, in order. -/
def calls (s : TcpClient × WorldState F × UInt64) (ops : List Intake) :
    List (UInt32 × Int8 × Int8) := (handled s ops).filterMap inputCall

/-- Bytes of a part. -/
def bytes : Intake → List Char
  | .recv chunk => chunk
  | .process _ => []

/-- A stream without `BYE`, after the bytes in the buffer of a client. -/
def Stays (s : TcpClient × WorldState F × UInt64) (stream : List Char) : Prop :=
  ∀ line ∈ (splitLines '\n' (s.1.rxBuffer ++ stream)).1, ¬ IsBye line

/-- A part of a stream: what it handles and what is left in the buffer make up the bytes. -/
theorem step_spec (s : TcpClient × WorldState F × UInt64) (op : Intake) (later : List Char)
    (hfd : 0 ≤ s.1.fd) (hstays : Stays s (op.bytes ++ later)) :
    let s' := step s op
    (0 ≤ s'.1.fd ∧ s'.1.playerId = s.1.playerId) ∧ Stays s' later ∧
      joinLines '\n' (op.lines s) ++ s'.1.rxBuffer = s.1.rxBuffer ++ op.bytes ∧
      (∀ line ∈ op.lines s, '\n' ∉ line) ∧
      s'.2 = applyCalls s.1.playerId ((op.lines s).filterMap inputCall) s.2 := by
  have hopen : ¬ s.1.fd < 0 := Int.not_lt.mpr hfd
  cases op with
  | recv chunk =>
    simp only [step, lines, bytes, if_neg hopen, Stays] at hstays ⊢
    refine ⟨⟨hfd, trivial⟩, ?_, rfl, by simp, rfl⟩
    rwa [List.append_assoc]
  | process clock =>
    obtain ⟨hid, hbuf, hmark, hcalls⟩ := processLines_spec clock s
    simp only [step, lines, bytes, if_neg hopen, Stays, List.nil_append, List.append_nil]
      at hstays ⊢
    have hnl := notMem_of_mem_lines (d := '\n') s.1.rxBuffer
    have hjoin := joinLines_append_rest (d := '\n') s.1.rxBuffer
    have hcut : splitLines '\n' (s.1.rxBuffer ++ later) =
        ((splitLines '\n' s.1.rxBuffer).1 ++
          (splitLines '\n' ((splitLines '\n' s.1.rxBuffer).2 ++ later)).1,
          (splitLines '\n' ((splitLines '\n' s.1.rxBuffer).2 ++ later)).2) := by
      rw [← splitLines_joinLines_append hnl, ← List.append_assoc, hjoin]
    rw [hcut] at hstays
    have hnone : ¬ ∃ line ∈ (splitLines '\n' s.1.rxBuffer).1, IsBye line := by
      rintro ⟨line, hline, hbye⟩
      exact hstays line (List.mem_append_left _ hline) hbye
    rw [hid, hbuf, hmark, if_neg hnone, hcalls]
    refine ⟨⟨hfd, rfl⟩, ?_, hjoin, hnl, rfl⟩
    intro line hline
    exact hstays line (List.mem_append_right _ hline)

/-- All parts of a stream. -/
theorem run_spec (s : TcpClient × WorldState F × UInt64) (ops : List Intake) (hfd : 0 ≤ s.1.fd)
    (hstays : Stays s (ops.flatMap bytes)) :
    let s' := run s ops
    joinLines '\n' (handled s ops) ++ s'.1.rxBuffer = s.1.rxBuffer ++ ops.flatMap bytes ∧
      (∀ line ∈ handled s ops, '\n' ∉ line) ∧
      s'.2 = applyCalls s.1.playerId (calls s ops) s.2 ∧ 0 ≤ s'.1.fd := by
  induction ops generalizing s with
  | nil => exact ⟨(List.append_nil _).symm, by simp [handled], rfl, hfd⟩
  | cons op ops ih =>
    obtain ⟨⟨hopen, hid⟩, hlater, hjoin, hnl, hcalls⟩ :=
      step_spec s op (ops.flatMap bytes) hfd hstays
    obtain ⟨hjoins, hnls, hcallss, hend⟩ := ih (step s op) hopen hlater
    refine ⟨?_, ?_, ?_, hend⟩
    · rw [handled, joinLines_append, List.append_assoc]
      change joinLines '\n' (op.lines s) ++ (_ ++ (run (step s op) ops).1.rxBuffer) = _
      rw [hjoins, ← List.append_assoc, hjoin, List.flatMap_cons, List.append_assoc]
    · rw [handled]
      exact List.forall_mem_append.mpr ⟨hnl, hnls⟩
    · change (run (step s op) ops).2 = _
      rw [hcallss, hid, hcalls, calls, calls, handled, List.filterMap_append, applyCalls,
        applyCalls, applyCalls, List.foldl_append]

theorem handled_concat (s : TcpClient × WorldState F × UInt64) (ops : List Intake) (op : Intake) :
    handled s (ops ++ [op]) = handled s ops ++ op.lines (run s ops) := by
  induction ops generalizing s with
  | nil => exact List.append_nil _
  | cons op' ops ih =>
    rw [List.cons_append, handled, ih, handled, List.append_assoc]
    rfl

/-- A stream that is processed at its end is handled like one that is received at once. -/
theorem run_concat_spec (s : TcpClient × WorldState F × UInt64) (ops : List Intake)
    (clock : Nat → Int) (hfd : 0 ≤ s.1.fd) (hstays : Stays s (ops.flatMap bytes)) :
    let s' := run s (ops ++ [.process clock])
    let cut := splitLines '\n' (s.1.rxBuffer ++ ops.flatMap bytes)
    handled s (ops ++ [.process clock]) = cut.1 ∧ s'.1.rxBuffer = cut.2 ∧
      s'.2 = applyCalls s.1.playerId (cut.1.filterMap inputCall) s.2 := by
  have hbytes : (ops ++ [Intake.process clock]).flatMap bytes = ops.flatMap bytes := by
    rw [List.flatMap_append, List.flatMap_singleton]
    exact List.append_nil _
  obtain ⟨hjoin, hnl, _, hopen⟩ := run_spec s ops hfd hstays
  have hcalls := (run_spec s (ops ++ [.process clock]) hfd (by rwa [hbytes])).2.2.1
  have hlines : handled s (ops ++ [.process clock]) =
      handled s ops ++ (splitLines '\n' (run s ops).1.rxBuffer).1 := by
    rw [handled_concat, lines, if_neg (Int.not_lt.mpr hopen)]
  have hrun : run s (ops ++ [.process clock]) = processLines clock (run s ops) := by
    rw [run, List.foldl_concat, ← run]
    exact if_neg (Int.not_lt.mpr hopen)
  dsimp only at hjoin hcalls ⊢
  rw [← hjoin, splitLines_joinLines_append hnl]
  refine ⟨hlines, ?_, ?_⟩
  · rw [hrun]
    exact (processLines_spec clock _).2.1
  · rw [hcalls, calls, hlines]

end Intake

/-- Cutting a stream into chunks and processing its lines in between does not change the calls of
`apply_input`, `inputs_received` and the rest of the buffer. The loop ends on every buffer. -/
theorem chunks_law (s : TcpClient × WorldState F × UInt64) (hfd : 0 ≤ s.1.fd) (ops : List Intake)
    (clock once : Nat → Int) (hstays : Intake.Stays s (ops.flatMap Intake.bytes)) :
    let stream := s.1.rxBuffer ++ ops.flatMap Intake.bytes
    let cut := splitLines '\n' stream
    let chunked := Intake.run s (ops ++ [.process clock])
    let whole := Intake.run s [.recv (ops.flatMap Intake.bytes), .process once]
    (Intake.calls s (ops ++ [.process clock]) =
        Intake.calls s [.recv (ops.flatMap Intake.bytes), .process once] ∧
      chunked.2 = whole.2 ∧ chunked.1.rxBuffer = whole.1.rxBuffer) ∧
    (chunked.2 = applyCalls s.1.playerId (Intake.calls s (ops ++ [.process clock])) s.2 ∧
      Intake.handled s (ops ++ [.process clock]) = cut.1) ∧
    (chunked.1.rxBuffer = cut.2 ∧ '\n' ∉ cut.2 ∧ joinLines '\n' cut.1 ++ cut.2 = stream) ∧
    ∀ (c : TcpClient × WorldState F × UInt64) (fuel : Nat), c.1.rxBuffer.count '\n' < fuel →
      processLinesLoop clock fuel 0 c = some (processLines clock c) := by
  obtain ⟨hlines, hbuf, hworld⟩ := Intake.run_concat_spec s ops clock hfd hstays
  have hbytes : [Intake.recv (ops.flatMap Intake.bytes)].flatMap Intake.bytes =
      ops.flatMap Intake.bytes := List.append_nil _
  obtain ⟨hlines', hbuf', hworld'⟩ := Intake.run_concat_spec s
    [.recv (ops.flatMap Intake.bytes)] once hfd (by rwa [hbytes])
  rw [hbytes] at hlines' hbuf' hworld'
  dsimp only [List.singleton_append, List.cons_append, List.nil_append] at hlines' hbuf' hworld'
  intro stream cut chunked whole
  refine ⟨⟨?_, ?_, ?_⟩, ⟨?_, hlines⟩, ⟨hbuf, notMem_rest _, joinLines_append_rest _⟩, ?_⟩
  · rw [Intake.calls, Intake.calls, hlines, hlines']
  · exact hworld.trans hworld'.symm
  · exact hbuf.trans hbuf'.symm
  · rw [Intake.calls, hlines]
    exact hworld
  · intro c fuel hfuel
    exact processLinesLoop_eq clock fuel 0 c hfuel

/-- Two inputs whose lines are cut within a number and before a newline, and the beginning
of a third. -/
theorem chunks_law_two :
    let s : TcpClient × WorldState F32 × UInt64 := (⟨4, 1, [], 0⟩, WorldState.init, 0)
    let ops : List Intake := [.recv "IN 1".toList, .recv "2 1 0".toList, .process fun _ ↦ 0,
      .recv "\nIN 13 0 1\nIN".toList]
    let chunked := Intake.run s (ops ++ [.process fun _ ↦ 0])
    let whole := Intake.run s [.recv (ops.flatMap Intake.bytes), .process fun _ ↦ 0]
    (Intake.calls s (ops ++ [.process fun _ ↦ 0]) =
        Intake.calls s [.recv (ops.flatMap Intake.bytes), .process fun _ ↦ 0] ∧
      chunked.2 = whole.2 ∧ chunked.1.rxBuffer = whole.1.rxBuffer) ∧
    (chunked.2 = applyCalls 1 [(12, 1, 0), (13, 0, 1)] s.2 ∧
      Intake.handled s (ops ++ [.process fun _ ↦ 0]) = ["IN 12 1 0".toList, "IN 13 0 1".toList]) ∧
    chunked.1.rxBuffer = "IN".toList ∧
    processLinesLoop (fun _ ↦ 0) 3 0 (⟨4, 1, ops.flatMap Intake.bytes, 0⟩, s.2) =
      some (processLines (fun _ ↦ 0) (⟨4, 1, ops.flatMap Intake.bytes, 0⟩, s.2)) := by
  intro s ops chunked whole
  have hstays : Intake.Stays s (ops.flatMap Intake.bytes) := by
    change ∀ line ∈ _, ¬ IsBye line
    decide
  obtain ⟨hsame, ⟨hcalls, hhandled⟩, ⟨hrest, _⟩, hloop⟩ :=
    chunks_law s (by decide) ops (fun _ ↦ 0) (fun _ ↦ 0) hstays
  have hlines : Intake.handled s (ops ++ [.process fun _ ↦ 0]) =
      ["IN 12 1 0".toList, "IN 13 0 1".toList] := hhandled.trans (by decide +kernel)
  have hinputs : ["IN 12 1 0".toList, "IN 13 0 1".toList].filterMap inputCall =
      [(12, 1, 0), (13, 0, 1)] := by decide +kernel
  rw [Intake.calls, hlines, hinputs] at hcalls
  exact ⟨hsame, ⟨hcalls, hlines⟩, hrest.trans (by decide +kernel),
    hloop _ 3 (by decide +kernel)⟩

end LightningLink.Baseline
