import LightningLink.Client.Interpolation
import LightningLink.Client.Prediction
import LightningLink.Common.Packet

/-!
# Optimized client

Library `Client`. Models the main loop of `client/client.cpp` after the handshake: draining
the snapshot queue, pruning, and the input step. Each part of an iteration is an event, with
the clock reading it makes and the iteration orders of its hash maps.
-/

namespace LightningLink.Cl

open Support Proto FloatOps FloatArith

/-- `client/client.cpp:36–40`. -/
structure PendingInputSample (F : Type) where
  seq : UInt32
  sendMs : UInt64
  predictedPos : Vec2 F

/-- Visits by increasing sequence number. -/
def PendingInputSample.sorted {F : Type} : UMap.Traversal UInt32 (PendingInputSample F) :=
  .byRank UInt32.toNat fun _ _ h ↦ UInt32.toNat_inj.mp h

/-- Label of the optimizations chosen at the start; `client/client.cpp:153–161`. -/
inductive ModeLabel
  | optimizedRaw
  | optimizedNoPred
  | optimizedNoInterp
  | optimized
  deriving DecidableEq, Repr

/-- Row of the input log; `client/client.cpp:234–243`. -/
structure InputLogRow (F : Type) [FloatArith F] where
  wallMs : UInt64
  playerId : UInt16
  inputSeq : UInt32
  ackSeq : UInt32
  rttMs : Double F
  reconciliationErrorPx : F
  perceivedDelayMs : Double F
  mode : ModeLabel

/-- Snapshot with its receipt time; `client/snapshot_queue.hpp:14–17`. -/
structure StampedSnapshot (F : Type) where
  snap : Snapshot F
  recvWallMs : UInt64

/-- Snapshot that the receive thread queues for a datagram; `client/network_receiver.cpp:26–44`. -/
def NetworkReceiver.receive (payload : List UInt8) : Option (Snapshot F32) :=
  let received := payload.take maxPacketBytes
  let buf := Memory.ofList received
  match peekType buf received.length with
  | some .worldSnapshot => decodeSnapshot buf received.length
  | _ => none

/-- Local variables of the main loop; `client/client.cpp:135–163`. -/
structure Client (F : Type) [FloatArith F] where
  myPid : UInt16
  predictionEnabled : Bool
  modeLabel : ModeLabel
  predictor : Predictor F
  interp : Interpolator F
  localPos : Vec2 F
  latestAuthoritative : UMap UInt16 (PlayerState F)
  pending : UMap UInt32 (PendingInputSample F)
  inputsSentTotal : UInt32
  snapshotsReceived : UInt32
  latestTick : UInt32
  lastAckSeq : UInt32
  lastDelayMs : Double F
  lastReconErrPx : F
  inputLog : List (InputLogRow F)

/-- A part of a loop iteration. -/
inductive Event (F : Type) [FloatArith F]
  /-- The F3 key. -/
  | togglePrediction
  /-- A snapshot popped from the queue. -/
  | snapshot (ss : StampedSnapshot F) (nowMs : UInt64)
      (order : UMap.Traversal UInt32 (PendingInputSample F))
  | prune (nowMs : UInt64) (order : UMap.Traversal UInt16 (List (InterpSample F)))
  /-- An input polled, over a frame time within `(0, 0.25]`. -/
  | input (mx my : Int8) (dt : Double F) (nowMs : UInt64)
      (order : UMap.Traversal UInt32 (PendingInputSample F))

/-- Age in milliseconds above which a full `pending` drops a sample. -/
def pendingStaleMs : UInt64 := 2000

namespace Client

variable {F : Type} [FloatArith F]

/-- Client that has just taken its id. -/
def init (myPid : UInt16) (disablePrediction disableInterpolation : Bool) : Client F where
  myPid := myPid
  predictionEnabled := !disablePrediction
  modeLabel :=
    if disablePrediction then
      if disableInterpolation then .optimizedRaw else .optimizedNoPred
    else if disableInterpolation then .optimizedNoInterp else .optimized
  predictor := Predictor.init
  interp := Interpolator.init
  localPos := initialPos
  latestAuthoritative := UMap.empty
  pending := UMap.empty
  inputsSentTotal := 0
  snapshotsReceived := 0
  latestTick := 0
  lastAckSeq := 0
  lastDelayMs := ofInt 0
  lastReconErrPx := ofInt 0
  inputLog := []

/-- Store a record, and ingest it if it is of another player; `client/client.cpp:197–206`. -/
def storeRecord (recvWallMs : UInt64) (c : Client F) (ps : PlayerState F) : Client F :=
  let c := { c with latestAuthoritative := c.latestAuthoritative.assign ps.id ps }
  if ps.id ≠ c.myPid then
    { c with interp := c.interp.ingest ps.id ⟨ps.pos, ps.vel, recvWallMs⟩ }
  else c

/-- Log and erase a pending input that is acknowledged; `client/client.cpp:221–249`. -/
def matchPending (nowMs : UInt64) (c : Client F) (e : UInt32 × PendingInputSample F) : Client F :=
  if e.1 ≤ c.lastAckSeq then
    let rttMs : Double F := ofInt (nowMs - e.2.sendMs).toNat
    { c with
      lastDelayMs := rttMs
      inputLog := c.inputLog ++ [⟨nowMs, c.myPid, e.1, c.lastAckSeq, rttMs, c.lastReconErrPx,
        if c.predictionEnabled then ofInt 0 else rttMs, c.modeLabel⟩]
      pending := c.pending.erase e.1 }
  else c

/-- Reconcile the local player and match the pending inputs; `client/client.cpp:210–250`. -/
def reconcileLocal (auth : PlayerState F) (nowMs : UInt64)
    (order : UMap.Traversal UInt32 (PendingInputSample F)) (c : Client F) : Client F :=
  let pre := c.localPos
  let pos := if c.predictionEnabled then c.predictor.reconcile auth else auth.pos
  let dx := pos.x - pre.x
  let dy := pos.y - pre.y
  let c := { c with
    localPos := pos
    lastReconErrPx := sqrt (dx * dx + dy * dy)
    lastAckSeq := auth.lastProcessedInputSeq }
  (order.order c.pending).foldl (matchPending nowMs) c

/-- One iteration of the drain loop; `client/client.cpp:193–252`. -/
def drainSnapshot (ss : StampedSnapshot F) (nowMs : UInt64)
    (order : UMap.Traversal UInt32 (PendingInputSample F)) (c : Client F) : Client F :=
  let c := { c with
    snapshotsReceived := c.snapshotsReceived + 1
    latestTick := ss.snap.serverTick }
  let c := ss.snap.players.foldl (storeRecord ss.recvWallMs) c
  match c.latestAuthoritative.find? c.myPid with
  | none => c
  | some auth => c.reconcileLocal auth nowMs order

/-- Drop the old samples of a full map; `client/client.cpp:293–299`. -/
def boundPending (nowMs : UInt64) (order : UMap.Traversal UInt32 (PendingInputSample F))
    (pending : UMap UInt32 (PendingInputSample F)) : UMap UInt32 (PendingInputSample F) :=
  if 256 < pending.size then
    (order.order pending).foldl
      (fun m e ↦ if pendingStaleMs < nowMs - e.2.sendMs then m.erase e.1 else m) pending
  else pending

/-- Predict an input, send it and remember it: the client after it and the packet sent;
`client/client.cpp:265–299`. Without prediction a zero input is recorded and the position stays. -/
def sendInput (mx my : Int8) (dt : Double F) (nowMs : UInt64)
    (order : UMap.Traversal UInt32 (PendingInputSample F)) (c : Client F) :
    Client F × InputPacket :=
  let (seq, localPos, predictor) :=
    if c.predictionEnabled then c.predictor.recordAndStep mx my dt c.localPos
    else
      let (seq, _, predictor) := c.predictor.recordAndStep 0 0 dt c.localPos
      (seq, c.localPos, predictor)
  ({ c with
    predictor := predictor
    localPos := localPos
    inputsSentTotal := c.inputsSentTotal + 1
    pending := boundPending nowMs order (c.pending.assign seq ⟨seq, nowMs, localPos⟩) },
    ⟨c.myPid, seq, mx, my⟩)

/-- State after one event. -/
def step (c : Client F) : Event F → Client F
  | .togglePrediction => { c with predictionEnabled := !c.predictionEnabled }
  | .snapshot ss nowMs order => c.drainSnapshot ss nowMs order
  | .prune nowMs order => { c with interp := c.interp.prune nowMs order }
  | .input mx my dt nowMs order => (c.sendInput mx my dt nowMs order).1

/-- State after a finite run. -/
def run (c : Client F) (evs : List (Event F)) : Client F := evs.foldl step c

/-- State after one more event. -/
theorem run_concat (c : Client F) (evs : List (Event F)) (ev : Event F) :
    c.run (evs ++ [ev]) = (c.run evs).step ev := by
  rw [run, List.foldl_append]
  rfl

/-! ### Frames of the drain loop -/

/-- Samples of the other players of a snapshot. -/
def ingestOthers (myPid : UInt16) (recvWallMs : UInt64) (players : List (PlayerState F))
    (interp : Interpolator F) : Interpolator F :=
  players.foldl
    (fun i ps ↦ if ps.id ≠ myPid then i.ingest ps.id ⟨ps.pos, ps.vel, recvWallMs⟩ else i) interp

/-- Storing records changes the records and the histories only. -/
theorem foldl_storeRecord (recvWallMs : UInt64) (players : List (PlayerState F)) (c : Client F) :
    players.foldl (storeRecord recvWallMs) c = { c with
      latestAuthoritative := players.foldl (fun m ps ↦ m.assign ps.id ps) c.latestAuthoritative
      interp := ingestOthers c.myPid recvWallMs players c.interp } := by
  induction players generalizing c with
  | nil => rfl
  | cons ps players ih =>
    rw [List.foldl_cons, ih]
    unfold storeRecord ingestOthers
    dsimp only [List.foldl_cons]
    split <;> rfl

/-- Matching pending inputs changes the delay, the log and the pending inputs only. -/
theorem foldl_matchPending (nowMs : UInt64) (es : List (UInt32 × PendingInputSample F))
    (c : Client F) : ∃ delay log pending, es.foldl (matchPending nowMs) c = { c with
      lastDelayMs := delay, inputLog := log, pending := pending } := by
  induction es generalizing c with
  | nil => exact ⟨c.lastDelayMs, c.inputLog, c.pending, rfl⟩
  | cons e es ih =>
    obtain ⟨delay, log, pending, h⟩ := ih (matchPending nowMs c e)
    refine ⟨delay, log, pending, ?_⟩
    rw [List.foldl_cons, h]
    unfold matchPending
    dsimp only
    split <;> rfl

/-- Reconciling changes the position with its error, the acknowledged number, and what matching
changes. -/
theorem reconcileLocal_frame (auth : PlayerState F) (nowMs : UInt64)
    (order : UMap.Traversal UInt32 (PendingInputSample F)) (c : Client F) :
    ∃ err delay log pending, c.reconcileLocal auth nowMs order = { c with
      localPos := if c.predictionEnabled then c.predictor.reconcile auth else auth.pos
      lastReconErrPx := err
      lastAckSeq := auth.lastProcessedInputSeq
      lastDelayMs := delay
      inputLog := log
      pending := pending } := by
  unfold reconcileLocal
  dsimp only
  obtain ⟨delay, log, pending, h⟩ := foldl_matchPending nowMs (order.order c.pending) _
  exact ⟨_, delay, log, pending, h⟩

/-- A client that has stored a snapshot; `client/client.cpp:195–207`. -/
def store (ss : StampedSnapshot F) (c : Client F) : Client F :=
  { c with
    snapshotsReceived := c.snapshotsReceived + 1
    latestTick := ss.snap.serverTick
    latestAuthoritative :=
      ss.snap.players.foldl (fun m ps ↦ m.assign ps.id ps) c.latestAuthoritative
    interp := ingestOthers c.myPid ss.recvWallMs ss.snap.players c.interp }

/-- Draining stores a snapshot and reconciles with the record that is then there. -/
theorem drainSnapshot_eq (ss : StampedSnapshot F) (nowMs : UInt64)
    (order : UMap.Traversal UInt32 (PendingInputSample F)) (c : Client F) :
    c.drainSnapshot ss nowMs order =
      match (c.store ss).latestAuthoritative.find? c.myPid with
      | none => c.store ss
      | some auth => (c.store ss).reconcileLocal auth nowMs order := by
  unfold drainSnapshot
  dsimp only
  rw [foldl_storeRecord]
  rfl

/-- Draining keeps what storing and reconciling keep. -/
theorem drainSnapshot_stores (ss : StampedSnapshot F) (nowMs : UInt64)
    (order : UMap.Traversal UInt32 (PendingInputSample F)) (c : Client F) :
    let c' := c.drainSnapshot ss nowMs order
    (c'.myPid = c.myPid ∧ c'.predictor = c.predictor) ∧
      c'.latestTick = ss.snap.serverTick ∧
      c'.latestAuthoritative = (c.store ss).latestAuthoritative ∧
      c'.interp = (c.store ss).interp := by
  rw [drainSnapshot_eq]
  split
  · exact ⟨⟨rfl, rfl⟩, rfl, rfl, rfl⟩
  · next auth _ =>
    obtain ⟨err, delay, log, pending, h⟩ := (c.store ss).reconcileLocal_frame auth nowMs order
    dsimp only
    rw [h]
    exact ⟨⟨rfl, rfl⟩, rfl, rfl, rfl⟩

/-- Draining a snapshot keeps the id and the predictor. -/
theorem drainSnapshot_frame (ss : StampedSnapshot F) (nowMs : UInt64)
    (order : UMap.Traversal UInt32 (PendingInputSample F)) (c : Client F) :
    (c.drainSnapshot ss nowMs order).myPid = c.myPid ∧
      (c.drainSnapshot ss nowMs order).predictor = c.predictor :=
  (drainSnapshot_stores ss nowMs order c).1

/-- An input is numbered by the predictor, names the client's id, and advances the number. -/
theorem sendInput_spec (mx my : Int8) (dt : Double F) (nowMs : UInt64)
    (order : UMap.Traversal UInt32 (PendingInputSample F)) (c : Client F) :
    let sent := c.sendInput mx my dt nowMs order
    sent.2 = ⟨c.myPid, c.predictor.nextSeq, mx, my⟩ ∧ sent.1.myPid = c.myPid ∧
      sent.1.predictor.nextSeq = c.predictor.nextSeq + 1 := by
  unfold sendInput
  dsimp only
  split <;> exact ⟨rfl, rfl, rfl⟩

end Client

/-- The receive thread queues the snapshots that a datagram can be read as. -/
theorem NetworkReceiver.receive_eq_some_iff (payload : List UInt8) (snap : Snapshot F32) :
    receive payload = some snap ↔ Packet.read payload = some (.snapshot snap) := by
  rw [← Packet.read_take payload maxPacketBytes (by decide)]
  unfold receive Packet.read
  dsimp only
  cases peekType (Memory.ofList (payload.take maxPacketBytes))
      (payload.take maxPacketBytes).length with
  | none => simp
  | some t =>
    rw [Option.bind_some]
    unfold decodeList decode
    cases t with
    | worldSnapshot => cases (decodeSnapshot _ _ : Option (Snapshot F32)) <;> simp
    | _ => simp

end LightningLink.Cl
