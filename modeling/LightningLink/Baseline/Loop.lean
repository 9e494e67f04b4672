import LightningLink.Baseline.Client
import LightningLink.Baseline.Server
import LightningLink.Common.Pacing

/-!
# Main loops of the baseline

Library `Baseline`. Models the loops of `server/tcp_baseline.cpp:136–205` and
`client/tcp_baseline_client.cpp:181–297` over the parts of their iterations. The server accepts,
reads from every client, and ticks if it is time; the client reads, handles the lines that are
released, sends an input if it is time, and writes what is released.
-/

namespace LightningLink.Baseline

open Support FloatArith Srv

/-- What an iteration of `run_baseline_server` receives and reads. -/
structure ServerTurn (F : Type) where
  /-- Descriptors that `::accept` yields, with the clock readings. -/
  accepted : List (Int × Int)
  /-- Order of the read loop. -/
  visits : UMap.Traversal Int TcpClient
  /-- What `::recv` yields on a descriptor before it ends or has nothing more. -/
  received : Int → List Char
  eof : Int → Bool
  /-- Clock readings for the lines of a descriptor. -/
  clock : Int → Nat → Int
  now : Int
  players : UMap.Traversal UInt16 (ServerPlayer F)
  clients : UMap.Traversal Int TcpClient

namespace ServerTurn

variable {F : Type}

/-- Events of the accept loop; `server/tcp_baseline.cpp:137–155`. -/
def accepts (a : ServerTurn F) : List (ServerEvent F) := a.accepted.map fun d ↦ .accept d.1 d.2

/-- Events of the read loop; `server/tcp_baseline.cpp:157–174`. Erasing the current entry keeps the
order of the others. -/
def reads (a : ServerTurn F) (s : BaselineServer F) : List (ServerEvent F) :=
  (a.visits.order s.clients).map fun e ↦ .read e.1 (a.received e.1) (a.eof e.1) (a.clock e.1)

/-- Event of a step; `server/tcp_baseline.cpp:178–186`. -/
def tick (a : ServerTurn F) : ServerEvent F := .tick a.players a.clients

variable [FloatArith F] [FloatText F]

/-- Events of an iteration. -/
def events (p : Scheduled (BaselineServer F)) (a : ServerTurn F) : List (ServerEvent F) :=
  a.accepts ++ a.reads (p.state.run a.accepts) ++ if p.next ≤ a.now then [a.tick] else []

end ServerTurn

namespace BaselineServer

variable {F : Type} [FloatArith F] [FloatText F]

/-- `server/tcp_baseline.cpp:136–205`. -/
def loop : Loop (BaselineServer F) (ServerTurn F) where
  period := tickPeriod
  now a := a.now
  work a s :=
    let s := s.run a.accepts
    s.run (a.reads s)
  step a s := s.step a.tick

/-- An iteration runs through its events. -/
theorem state_iterate (p : Scheduled (BaselineServer F)) (a : ServerTurn F) :
    (loop.iterate p a).state = p.state.run (a.events p) := by
  rw [Loop.state_iterate, ServerTurn.events, run, List.foldl_append, List.foldl_append]
  change (if p.next ≤ a.now then _ else _) = _
  split <;> rfl

/-- The loop only reaches states that events reach. -/
theorem state_run_loop (p : Scheduled (BaselineServer F)) (as : List (ServerTurn F)) :
    (loop.run p as).state = p.state.run (loop.events ServerTurn.events p as) :=
  loop.state_run_of_events ServerTurn.events step state_iterate p as

end BaselineServer

/-- What an iteration of `run_baseline_client` receives, draws and reads. -/
structure ClientTurn (F : Type) [FloatArith F] where
  now : Int
  received : List Char
  dropDraw : Nat → Double F
  enqueueClock : Nat → UInt64
  releaseClock : Nat → UInt64
  /-- Clock readings that retire pending inputs, by released line. -/
  ackMs : Nat → UInt64
  ackOrder : Nat → UMap.Traversal UInt32 BaselinePendingInput
  mx : Int8
  my : Int8
  inputDraw : Double F
  inputEnqueueMs : UInt64
  sendMs : UInt64
  sendClock : Nat → UInt64

namespace ClientTurn

variable {F : Type} [FloatArith F]

/-- Events before the input step; `client/tcp_baseline_client.cpp:198–266`. -/
def inbound (a : ClientTurn F) : List (ClientEvent F) :=
  [.drain a.received a.dropDraw a.enqueueClock, .releaseIn a.releaseClock a.ackMs a.ackOrder]

/-- Event of the input step; `client/tcp_baseline_client.cpp:269–287`. -/
def input (a : ClientTurn F) : ClientEvent F :=
  .input a.mx a.my a.inputDraw a.inputEnqueueMs a.sendMs

/-- Event after the input step; `client/tcp_baseline_client.cpp:292–297`. -/
def outbound (a : ClientTurn F) : ClientEvent F := .releaseOut a.sendClock

/-- Events of an iteration. -/
def events {Q : PriorityQueue DelayedLine DelayedLine.deliverAtMs}
    (p : Scheduled (BaselineClient F Q)) (a : ClientTurn F) : List (ClientEvent F) :=
  a.inbound ++ (if p.next ≤ a.now then [a.input] else []) ++ [a.outbound]

end ClientTurn

namespace BaselineClient

variable {F : Type} [FloatArith F] [FloatText F]
  {Q : PriorityQueue DelayedLine DelayedLine.deliverAtMs}

/-- `client/tcp_baseline_client.cpp:181–297`. -/
def loop : Loop (BaselineClient F Q) (ClientTurn F) where
  period := inputPeriod
  now a := a.now
  work a c := c.run a.inbound
  step a c := c.step a.input
  finish a c := c.step a.outbound

/-- The loop only reaches states that events reach. -/
theorem state_run_loop (p : Scheduled (BaselineClient F Q)) (as : List (ClientTurn F)) :
    (loop.run p as).state = p.state.run (loop.events ClientTurn.events p as) := by
  refine loop.state_run_of_events ClientTurn.events step (fun p a ↦ ?_) p as
  rw [Loop.state_iterate, ClientTurn.events, List.foldl_append, List.foldl_append]
  change step (if p.next ≤ a.now then _ else _) _ = _
  split <;> rfl

end BaselineClient
end LightningLink.Baseline
