import LightningLink.Baseline.Conditioner
import LightningLink.Baseline.Text
import LightningLink.Support.UnorderedMap

/-!
# Baseline client

Library `Baseline`. Models `client/tcp_baseline_client.cpp` without drawing: the handshake, the
line splitter in front of the conditioner, the snapshot parser, the pending inputs with their
log, and the lines passed to `::send`. The socket is replaced by what `::recv` yields. An
event is one part of a loop iteration, with the clock readings and draws it makes.
-/

namespace LightningLink.Baseline

open Support FloatOps FloatArith

/-- `client/tcp_baseline_client.cpp:34–37`. -/
structure BaselinePendingInput where
  seq : UInt32
  sendMs : UInt64
  deriving DecidableEq

/-- Row of `input_log`, without its constant mode; `client/tcp_baseline_client.cpp:253–256`. -/
structure BaselineLogRow (F : Type) [FloatArith F] where
  wallTimeMs : UInt64
  playerId : UInt16
  inputSeq : UInt32
  ackSeq : UInt32
  rttMs : Double F
  reconciliationErrorPx : Double F
  perceivedDelayMs : Double F

/-- Local variables of `run_baseline_client`; `client/tcp_baseline_client.cpp:112–168`. -/
structure BaselineClient (F : Type) [FloatArith F]
    (Q : PriorityQueue DelayedLine DelayedLine.deliverAtMs) where
  rxBuf : List Char
  myPid : UInt16
  arenaW : F
  arenaH : F
  cond : Conditioner (Double F) Q
  latest : UMap UInt16 (PlayerState F)
  pending : UMap UInt32 BaselinePendingInput
  latestTick : UInt32
  bytesRx : UInt64
  inputsSent : UInt32
  nextSeq : UInt32
  lastDelayMs : Double F
  inputLog : List (BaselineLogRow F)

/-- The line sent for an input; `client/tcp_baseline_client.cpp:271–273`. -/
def inputLine (seq : UInt32) (mx my : Int8) : List Char :=
  ['I', 'N', ' '] ++ writeNat seq.toNat ++ ' ' :: writeInt mx.toInt ++ ' ' :: writeInt my.toInt ++
    ['\n']

/-- `client/tcp_baseline_client.cpp:340`. -/
def byeLine : List Char := ['B', 'Y', 'E', '\n']

/-- Groups of six fields, as many as announced. A field that is not reached is 0;
`client/tcp_baseline_client.cpp:235–244`. -/
def parsePlayers {F : Type} [FloatArith F] [FloatText F] :
    Nat → Istringstream → List (PlayerState F)
  | 0, _ => []
  | n + 1, iss =>
    let pid := iss.getUnsigned 32
    let x := pid.2.getFloat
    let y := x.2.getFloat
    let vx := y.2.getFloat
    let vy := vx.2.getFloat
    let lastSeq := vy.2.getUnsigned 64
    ⟨UInt16.ofInt (pid.1.getD 0), ⟨x.1.getD (ofInt 0), y.1.getD (ofInt 0)⟩,
      ⟨vx.1.getD (ofInt 0), vy.1.getD (ofInt 0)⟩, UInt32.ofInt (lastSeq.1.getD 0)⟩ ::
      parsePlayers n lastSeq.2

/-- Tick and players of an `SS` line; `client/tcp_baseline_client.cpp:225–244`. -/
def parseSnapshot {F : Type} [FloatArith F] [FloatText F] (line : List Char) :
    Option (UInt32 × List (PlayerState F)) :=
  let cmd := (Istringstream.ofString line).getWord
  if cmd.1 = some ['S', 'S'] then
    let tick := cmd.2.getUnsigned 32
    let count := tick.2.getUnsigned 64
    some (UInt32.ofInt (tick.1.getD 0), parsePlayers (count.1.getD 0).toNat count.2)
  else none

/-- Ack of the last record of a player, if there is one; `client/tcp_baseline_client.cpp:243`. -/
def ackOf {F : Type} (myPid : UInt16) (players : List (PlayerState F)) : Option UInt32 :=
  players.foldl (fun ack p ↦ if p.id = myPid then some p.lastProcessedInputSeq else ack) none

/-- A part of the handshake or of an iteration of the main loop. -/
inductive ClientEvent (F : Type) [FloatArith F]
  /-- One iteration of the handshake loop, in which `::recv` yields the characters. -/
  | handshake (received : List Char)
  | drain (received : List Char) (draw : Nat → Double F) (clock : Nat → UInt64)
  | releaseIn (clock : Nat → UInt64) (nowMs : Nat → UInt64)
      (order : Nat → UMap.Traversal UInt32 BaselinePendingInput)
  | input (mx my : Int8) (draw : Double F) (enqueueMs sendMs : UInt64)
  | releaseOut (clock : Nat → UInt64)
  | bye

namespace BaselineClient

variable {F : Type} [FloatArith F] {Q : PriorityQueue DelayedLine DelayedLine.deliverAtMs}

/-- Client that has just connected. -/
def init (addLatencyMsEachDirection : Int) (lossProb : Double F) : BaselineClient F Q where
  rxBuf := []
  myPid := 0
  arenaW := arenaWidth F
  arenaH := arenaHeight F
  cond := Conditioner.init addLatencyMsEachDirection lossProb
  latest := UMap.empty
  pending := UMap.empty
  latestTick := 0
  bytesRx := 0
  inputsSent := 0
  nextSeq := 1
  lastDelayMs := ofInt 0
  inputLog := []

/-- Read, and take at most one line; `client/tcp_baseline_client.cpp:124–132`. -/
def handshake [FloatText F] (received : List Char) (c : BaselineClient F Q) : BaselineClient F Q :=
  let buf := c.rxBuf ++ received
  match cutLine '\n' buf with
  | none => { c with rxBuf := buf }
  | some (line, rest) =>
    let cmd := (Istringstream.ofString line).getWord
    if cmd.1 = some ['J', 'A'] then
      let pid := cmd.2.getUnsigned 16
      let w := pid.2.getFloat
      let h := w.2.getFloat
      { c with
        rxBuf := rest
        myPid := (pid.1.map UInt16.ofInt).getD c.myPid
        arenaW := w.1.getD c.arenaW
        arenaH := h.1.getD c.arenaH }
    else { c with rxBuf := rest }

/-- Read, and pass the complete lines to the conditioner;
`client/tcp_baseline_client.cpp:199–218`. -/
def drain (received : List Char) (draw : Nat → Double F) (clock : Nat → UInt64)
    (c : BaselineClient F Q) : BaselineClient F Q :=
  let cut := splitLines '\n' (c.rxBuf ++ received)
  { c with
    rxBuf := cut.2
    bytesRx := c.bytesRx + UInt64.ofNat received.length
    cond := cut.1.zipIdx.foldl
      (fun cond l ↦ cond.enqueueIn l.1 (draw l.2) (clock l.2)) c.cond }

/-- Log and erase a pending input that is acknowledged; `client/tcp_baseline_client.cpp:250–261`. -/
def retire (ack : UInt32) (nowMs : UInt64) (c : BaselineClient F Q)
    (e : UInt32 × BaselinePendingInput) : BaselineClient F Q :=
  if e.1 ≤ ack then
    let dMs : Double F := ofInt (nowMs - e.2.sendMs).toNat
    { c with
      lastDelayMs := dMs
      inputLog := c.inputLog ++ [⟨nowMs, c.myPid, e.1, ack, dMs, ofInt 0, dMs⟩]
      pending := c.pending.erase e.1 }
  else c

/-- Store the players of a snapshot and retire what the local player's record acknowledges;
`client/tcp_baseline_client.cpp:232–263`. -/
def applySnapshot (tick : UInt32) (players : List (PlayerState F)) (nowMs : UInt64)
    (order : UMap.Traversal UInt32 BaselinePendingInput) (c : BaselineClient F Q) :
    BaselineClient F Q :=
  let c := { c with
    latestTick := tick
    latest := players.foldl (fun m p ↦ m.assign p.id p) c.latest }
  match ackOf c.myPid players with
  | none => c
  | some ack => (order.order c.pending).foldl (retire ack nowMs) c

/-- A released line; `client/tcp_baseline_client.cpp:222–264`. -/
def handleLine [FloatText F] (line : List Char) (nowMs : UInt64)
    (order : UMap.Traversal UInt32 BaselinePendingInput) (c : BaselineClient F Q) :
    BaselineClient F Q :=
  if line.isEmpty then c
  else match parseSnapshot line with
    | none => c
    | some (tick, players) => c.applySnapshot tick players nowMs order

/-- Release the matured lines and handle each; `client/tcp_baseline_client.cpp:221–265`. -/
def releaseIn [FloatText F] (clock : Nat → UInt64) (nowMs : Nat → UInt64)
    (order : Nat → UMap.Traversal UInt32 BaselinePendingInput) (c : BaselineClient F Q) :
    BaselineClient F Q :=
  let released := c.cond.releaseIn clock
  released.2.zipIdx.foldl (fun c l ↦ c.handleLine l.1.data (nowMs l.2) (order l.2))
    { c with cond := released.1 }

/-- Remember an input, and clear a full map; `client/tcp_baseline_client.cpp:283–284`. -/
def addPending (seq : UInt32) (sendMs : UInt64) (pending : UMap UInt32 BaselinePendingInput) :
    UMap UInt32 BaselinePendingInput :=
  let pending := pending.assign seq ⟨seq, sendMs⟩
  if 256 < pending.size then UMap.empty else pending

/-- A map that does not overflow keeps all inputs. -/
theorem addPending_of_le {seq : UInt32} {sendMs : UInt64}
    {pending : UMap UInt32 BaselinePendingInput}
    (h : (pending.assign seq ⟨seq, sendMs⟩).size ≤ 256) :
    addPending seq sendMs pending = pending.assign seq ⟨seq, sendMs⟩ := if_neg (Nat.not_lt.mpr h)

/-- A map that overflows loses all of them. -/
theorem addPending_of_lt {seq : UInt32} {sendMs : UInt64}
    {pending : UMap UInt32 BaselinePendingInput}
    (h : 256 < (pending.assign seq ⟨seq, sendMs⟩).size) :
    addPending seq sendMs pending = UMap.empty := if_pos h

/-- Enqueue the line of an input and remember it; `client/tcp_baseline_client.cpp:268–290`. -/
def sendInput (mx my : Int8) (draw : Double F) (enqueueMs sendMs : UInt64)
    (c : BaselineClient F Q) : BaselineClient F Q :=
  { c with
    cond := c.cond.enqueueOut (inputLine c.nextSeq mx my) draw enqueueMs
    pending := addPending c.nextSeq sendMs c.pending
    inputsSent := c.inputsSent + 1
    nextSeq := c.nextSeq + 1 }

variable [FloatText F]

/-- One event: the client after it and the buffers passed to `::send`. -/
def handle (c : BaselineClient F Q) : ClientEvent F → BaselineClient F Q × List (List Char)
  | .handshake received => (c.handshake received, [])
  | .drain received draw clock => (c.drain received draw clock, [])
  | .releaseIn clock nowMs order => (c.releaseIn clock nowMs order, [])
  | .input mx my draw enqueueMs sendMs => (c.sendInput mx my draw enqueueMs sendMs, [])
  | .releaseOut clock =>
    let released := c.cond.releaseOut clock
    ({ c with cond := released.1 }, released.2.map DelayedLine.data)
  | .bye => (c, [byeLine])

/-- State after one event. -/
def step (c : BaselineClient F Q) (ev : ClientEvent F) : BaselineClient F Q := (c.handle ev).1

/-- State after a finite run. -/
def run (c : BaselineClient F Q) (evs : List (ClientEvent F)) : BaselineClient F Q :=
  evs.foldl step c

/-- State after one more event. -/
theorem run_concat (c : BaselineClient F Q) (evs : List (ClientEvent F)) (ev : ClientEvent F) :
    c.run (evs ++ [ev]) = (c.run evs).step ev := by
  rw [run, List.foldl_append]
  rfl

/-! ### Frames -/

/-- The handshake cuts off at most one line, and changes the id and the arena only. -/
theorem handshake_frame (received : List Char) (c : BaselineClient F Q) :
    ∃ pid w h, c.handshake received = { c with
      rxBuf := match cutLine '\n' (c.rxBuf ++ received) with
        | none => c.rxBuf ++ received
        | some (_, rest) => rest
      myPid := pid
      arenaW := w
      arenaH := h } := by
  unfold handshake
  dsimp only
  cases cutLine '\n' (c.rxBuf ++ received) with
  | none => exact ⟨c.myPid, c.arenaW, c.arenaH, rfl⟩
  | some cut =>
    dsimp only
    split <;> exact ⟨_, _, _, rfl⟩

omit [FloatText F] in
/-- Retiring inputs changes the delay, the log and the pending inputs only. -/
theorem foldl_retire (ack : UInt32) (nowMs : UInt64) (es : List (UInt32 × BaselinePendingInput))
    (c : BaselineClient F Q) : ∃ delay log pending, es.foldl (retire ack nowMs) c = { c with
      lastDelayMs := delay, inputLog := log, pending := pending } := by
  induction es generalizing c with
  | nil => exact ⟨c.lastDelayMs, c.inputLog, c.pending, rfl⟩
  | cons e es ih =>
    obtain ⟨delay, log, pending, h⟩ := ih (retire ack nowMs c e)
    refine ⟨delay, log, pending, ?_⟩
    rw [List.foldl_cons, h]
    unfold retire
    dsimp only
    split <;> rfl

omit [FloatText F] in
/-- A snapshot changes the tick and the players, and what retiring changes. -/
theorem applySnapshot_frame (tick : UInt32) (players : List (PlayerState F)) (nowMs : UInt64)
    (order : UMap.Traversal UInt32 BaselinePendingInput) (c : BaselineClient F Q) :
    ∃ delay log pending, c.applySnapshot tick players nowMs order = { c with
      latestTick := tick
      latest := players.foldl (fun m p ↦ m.assign p.id p) c.latest
      lastDelayMs := delay
      inputLog := log
      pending := pending } := by
  unfold applySnapshot
  dsimp only
  split
  · exact ⟨c.lastDelayMs, c.inputLog, c.pending, rfl⟩
  · next ack _ => exact foldl_retire ack nowMs (order.order c.pending) _

/-- A line that is parsed is applied. -/
theorem handleLine_of_parse {line : List Char} {tick : UInt32} {players : List (PlayerState F)}
    (hparse : parseSnapshot line = some (tick, players)) (nowMs : UInt64)
    (order : UMap.Traversal UInt32 BaselinePendingInput) (c : BaselineClient F Q) :
    c.handleLine line nowMs order = c.applySnapshot tick players nowMs order := by
  have hne : ¬line.isEmpty = true := by
    intro hempty
    rw [List.isEmpty_iff.mp hempty] at hparse
    cases hparse
  rw [handleLine, if_neg hne, hparse]

/-- What a line of a snapshot stores. -/
theorem handleLine_stores {line : List Char} {tick : UInt32} {players : List (PlayerState F)}
    (hparse : parseSnapshot line = some (tick, players)) (nowMs : UInt64)
    (order : UMap.Traversal UInt32 BaselinePendingInput) (c : BaselineClient F Q) :
    (c.handleLine line nowMs order).latestTick = tick ∧
      (c.handleLine line nowMs order).latest =
        players.foldl (fun m p ↦ m.assign p.id p) c.latest := by
  obtain ⟨delay, log, pending, hframe⟩ := c.applySnapshot_frame tick players nowMs order
  rw [handleLine_of_parse hparse, hframe]
  exact ⟨rfl, rfl⟩

/-- A released line does not concern the buffer and the conditioner. -/
theorem handleLine_frame (line : List Char) (nowMs : UInt64)
    (order : UMap.Traversal UInt32 BaselinePendingInput) (c : BaselineClient F Q) :
    (c.handleLine line nowMs order).rxBuf = c.rxBuf ∧
      (c.handleLine line nowMs order).cond = c.cond := by
  unfold handleLine
  split
  · exact ⟨rfl, rfl⟩
  · split
    · exact ⟨rfl, rfl⟩
    · next tick players _ =>
      obtain ⟨delay, log, pending, hframe⟩ := c.applySnapshot_frame tick players nowMs order
      rw [hframe]
      exact ⟨rfl, rfl⟩

/-- Nor do several. -/
theorem releaseIn_frame (clock nowMs : Nat → UInt64)
    (order : Nat → UMap.Traversal UInt32 BaselinePendingInput) (c : BaselineClient F Q) :
    (c.releaseIn clock nowMs order).rxBuf = c.rxBuf ∧
      (c.releaseIn clock nowMs order).cond = (c.cond.releaseIn clock).1 := by
  unfold releaseIn
  dsimp only
  apply List.foldlRecOn
    (motive := fun c' : BaselineClient F Q ↦
      c'.rxBuf = c.rxBuf ∧ c'.cond = (c.cond.releaseIn clock).1)
  · exact ⟨rfl, rfl⟩
  · rintro c' ⟨hbuf, hcond⟩ l _
    obtain ⟨hbuf', hcond'⟩ := handleLine_frame l.1.data (nowMs l.2) (order l.2) c'
    exact ⟨hbuf'.trans hbuf, hcond'.trans hcond⟩

end BaselineClient
end LightningLink.Baseline
