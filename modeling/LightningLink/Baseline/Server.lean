import LightningLink.Baseline.Text
import LightningLink.Server.WorldState

/-!
# Baseline server

Library `Baseline`. Models `server/tcp_baseline.cpp`. The sockets are replaced by what
`::accept` and `::recv` yield and by the arguments of `::send`. An event is one accepted
connection, one client of the read loop, or one tick; a loop iteration is a sequence of them.
-/

namespace LightningLink.Baseline

open Support FloatOps FloatArith Srv

/-- `server/tcp_baseline.cpp:35–40`. -/
structure TcpClient where
  fd : Int
  playerId : UInt16
  rxBuffer : List Char
  lastInput : Int
  deriving DecidableEq

/-- Arguments of one `::send`. -/
structure Send where
  fd : Int
  data : List Char
  deriving DecidableEq

/-- Local variables of `run_baseline_server`; `server/tcp_baseline.cpp:125–129`. -/
structure BaselineServer (F : Type) where
  world : WorldState F
  clients : UMap Int TcpClient
  bytesSent : UInt64
  snapshotsSent : UInt64
  inputsReceived : UInt64

/-- An id is that of a client; `server/tcp_baseline.cpp:44–45`. -/
def taken (clients : UMap Int TcpClient) (id : UInt16) : Bool :=
  decide (∃ fd ∈ clients.keys, (clients.find? fd).any fun c ↦ c.playerId = id)

/-- First id of `1..MAX_PLAYERS` that no client has, else 0; `server/tcp_baseline.cpp:42–49`. -/
def allocId (clients : UMap Int TcpClient) : UInt16 :=
  (((List.range maxPlayers).map fun i ↦ UInt16.ofNat (i + 1)).find? fun id ↦
    !taken clients id).getD 0

/-- The line after `accept`; `server/tcp_baseline.cpp:150–151`. -/
def joinLine (F : Type) [FloatArith F] [FloatText F] (id : UInt16) : List Char :=
  ['J', 'A', ' '] ++ writeNat id.toNat ++ ' ' :: FloatText.write (arenaWidth F) ++
    ' ' :: FloatText.write (arenaHeight F) ++ ['\n']

/-- `server/tcp_baseline.cpp:60–65`. -/
def formatPlayer {F : Type} [FloatText F] (p : PlayerState F) : List Char :=
  ' ' :: writeNat p.id.toNat ++ ' ' :: FloatText.write p.pos.x ++ ' ' :: FloatText.write p.pos.y ++
    ' ' :: FloatText.write p.vel.x ++ ' ' :: FloatText.write p.vel.y ++
    ' ' :: writeNat p.lastProcessedInputSeq.toNat

/-- `server/tcp_baseline.cpp:55–69`. -/
def formatSnapshotLine {F : Type} [FloatText F]
    (order : UMap.Traversal UInt16 (ServerPlayer F)) (w : WorldState F) : List Char :=
  let states := w.collectPlayerStates order
  ['S', 'S', ' '] ++ writeNat w.tick.toNat ++ ' ' :: writeNat states.length ++
    states.flatMap formatPlayer ++ ['\n']

/-- Fields of an `IN` line. A field that is not reached keeps its value 0;
`server/tcp_baseline.cpp:82–84`. -/
def parseIn (iss : Istringstream) : UInt32 × Int × Int :=
  let seq := iss.getUnsigned 32
  let mx := seq.2.getSigned 31
  let my := mx.2.getSigned 31
  (UInt32.ofInt (seq.1.getD 0), mx.1.getD 0, my.1.getD 0)

/-- Loop body of `process_lines` for one line, on the client, the world and
`inputs_received`; `server/tcp_baseline.cpp:76–92`. -/
def processLine {F : Type} (now : Int) (line : List Char)
    (s : TcpClient × WorldState F × UInt64) : TcpClient × WorldState F × UInt64 :=
  if line.isEmpty then s
  else
    let cmd := (Istringstream.ofString line).getWord
    if cmd.1 = some ['I', 'N'] then
      let (seq, mx, my) := parseIn cmd.2
      ({ s.1 with lastInput := now },
        (s.2.1.applyInput s.1.playerId seq (Int8.ofInt mx) (Int8.ofInt my)).2, s.2.2 + 1)
    else if cmd.1 = some ['B', 'Y', 'E'] then ({ s.1 with fd := -1 }, s.2)
    else s

/-- Cut the complete lines off the buffer and handle each, with the clock reading made for
it; `server/tcp_baseline.cpp:71–94`. -/
def processLines {F : Type} (clock : Nat → Int) (s : TcpClient × WorldState F × UInt64) :
    TcpClient × WorldState F × UInt64 :=
  let cut := splitLines '\n' s.1.rxBuffer
  cut.1.zipIdx.foldl (fun s l ↦ processLine (clock l.2) l.1 s) ({ s.1 with rxBuffer := cut.2 }, s.2)

/-- A part of a loop iteration. -/
inductive ServerEvent (F : Type)
  /-- `::accept` yields a descriptor. -/
  | accept (fd : Int) (now : Int)
  /-- `::recv` yields bytes, and then an end of stream or nothing more. -/
  | read (fd : Int) (received : List Char) (eof : Bool) (clock : Nat → Int)
  | tick (players : UMap.Traversal UInt16 (ServerPlayer F)) (clients : UMap.Traversal Int TcpClient)

namespace BaselineServer

variable {F : Type}

/-- Server that has just started. -/
def init : BaselineServer F := ⟨WorldState.init, UMap.empty, 0, 0, 0⟩

/-- One iteration of the accept loop. A connection without an id is closed;
`server/tcp_baseline.cpp:144–153`. -/
def accept [FloatArith F] [FloatText F] (fd now : Int) (s : BaselineServer F) :
    BaselineServer F × List Send :=
  let id := allocId s.clients
  if id = 0 then (s, [])
  else
    ({ s with
      world := (s.world.addPlayer id).2
      clients := s.clients.assign fd ⟨fd, id, [], now⟩ }, [⟨fd, joinLine F id⟩])

/-- One client of the read loop. `::recv` on the descriptor −1 of a client that has said `BYE`
fails; `server/tcp_baseline.cpp:158–174`. -/
def read (fd : Int) (received : List Char) (eof : Bool) (clock : Nat → Int)
    (s : BaselineServer F) : BaselineServer F :=
  match s.clients.find? fd with
  | none => s
  | some c =>
    let c := if c.fd < 0 then c else { c with
      rxBuffer := c.rxBuffer ++ received
      fd := if eof then -1 else c.fd }
    if c.fd < 0 then
      { s with
        world := (s.world.removePlayer c.playerId).2
        clients := s.clients.erase fd }
    else
      let r := processLines clock (c, s.world, s.inputsReceived)
      { s with
        world := r.2.1
        clients := s.clients.assign fd r.1
        inputsReceived := r.2.2 }

/-- Simulate, and send a snapshot line to every client on every `TICKS_PER_SNAPSHOT`-th tick;
`server/tcp_baseline.cpp:178–186`. -/
def tick [FloatArith F] [FloatText F] (players : UMap.Traversal UInt16 (ServerPlayer F))
    (clients : UMap.Traversal Int TcpClient) (s : BaselineServer F) :
    BaselineServer F × List Send :=
  let world := s.world.stepTick
  if world.tick.toNat % ticksPerSnapshot = 0 then
    let line := formatSnapshotLine players world
    let fds := (clients.order s.clients).map Prod.fst
    ({ s with
      world := world
      snapshotsSent := s.snapshotsSent + 1
      bytesSent := fds.foldl (fun sent _ ↦ sent + UInt64.ofNat line.length) s.bytesSent },
      fds.map fun fd ↦ ⟨fd, line⟩)
  else ({ s with world := world }, [])

variable [FloatArith F] [FloatText F]

/-- One event: the state after it and the calls of `::send`. -/
def handle (s : BaselineServer F) : ServerEvent F → BaselineServer F × List Send
  | .accept fd now => s.accept fd now
  | .read fd received eof clock => (s.read fd received eof clock, [])
  | .tick players clients => s.tick players clients

/-- State after one event. -/
def step (s : BaselineServer F) (ev : ServerEvent F) : BaselineServer F := (s.handle ev).1

/-- State after a finite run. -/
def run (s : BaselineServer F) (evs : List (ServerEvent F)) : BaselineServer F := evs.foldl step s

end BaselineServer

end LightningLink.Baseline
