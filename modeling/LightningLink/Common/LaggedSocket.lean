import LightningLink.Common.Types
import LightningLink.Support.PriorityQueue
import Mathlib.Data.Nat.Sqrt

/-!
# Conditioned socket

Library `Common`. Models `common/lagged_socket.hpp` and `common/lagged_socket.cpp`. One queue
holds the delayed datagrams of both directions. The random generator is replaced by the
values drawn for each datagram, the clock by the readings of each call, and the socket by
the results of `::recvfrom` and the arguments of `::sendto`, which accepts every datagram.
The last section says where every datagram is after any sequence of calls.
-/

namespace LightningLink

open Support FloatOps

/-- `common/lagged_socket.hpp:18–24`, without the seed. -/
structure LaggedSocketConfig (D : Type) where
  addLatencyMsSend : Int
  addLatencyMsRecv : Int
  jitterMs : Int
  lossProb : D

/-- Values that the generator yields for one datagram. -/
structure Draws (D : Type) where
  jitter : Int
  loss : D

/-- `LaggedSocket::Pending`; `common/lagged_socket.hpp:59–64`. -/
structure Pending where
  deliverAtUs : UInt64
  ep : Endpoint
  bytes : List UInt8
  outbound : Bool
  deriving DecidableEq

/-- A datagram that `::recvfrom` yields, with the draws and the clock reading made for it. -/
structure Arrival (D : Type) where
  src : Endpoint
  payload : List UInt8
  draws : Draws D
  nowUs : UInt64

/-- A datagram passed to `::sendto`, with the clock reading before it. -/
structure Sent where
  atUs : UInt64
  ep : Endpoint
  bytes : List UInt8
  deriving DecidableEq

/-- Data that `recv_from` returns, with its capacity and the clock reading of its search. -/
structure Returned where
  atUs : UInt64
  cap : Nat
  src : Endpoint
  bytes : List UInt8
  deriving DecidableEq

/-- Size of the buffer that `recv_from` reads datagrams into. -/
def recvTmpBytes : Nat := 2048

namespace LaggedSocketConfig

variable {D : Type} [FloatOps D]

/-- `common/lagged_socket.cpp:56–60`. -/
def sampleJitterMs (jitterMs draw : Int) : Int := if jitterMs ≤ 0 then 0 else draw

/-- The random loss of both directions; `common/lagged_socket.cpp:74–79` and `139–142`. -/
def drops (cfg : LaggedSocketConfig D) (draws : Draws D) : Bool :=
  lt (ofInt 0) cfg.lossProb && lt draws.loss cfg.lossProb

/-- No datagram is dropped. -/
def Lossless (cfg : LaggedSocketConfig D) : Prop := lt (ofInt 0) cfg.lossProb = false

instance (cfg : LaggedSocketConfig D) : Decidable cfg.Lossless :=
  inferInstanceAs (Decidable (_ = _))

omit [FloatOps D] in
/-- Delay of a datagram; `common/lagged_socket.cpp:82` and `145`. -/
def totalMs (cfg : LaggedSocketConfig D) (latencyMs : Int) (draws : Draws D) : Int :=
  max 0 (latencyMs + sampleJitterMs cfg.jitterMs draws.jitter)

/-- Entry of a datagram handed to `send_to`; `common/lagged_socket.cpp:90–96`. -/
def outboundEntry (cfg : LaggedSocketConfig D) (ep : Endpoint) (data : List UInt8)
    (draws : Draws D) (nowUs : UInt64) : Pending where
  deliverAtUs := nowUs + UInt64.ofInt (cfg.totalMs cfg.addLatencyMsSend draws) * 1000
  ep := ep
  bytes := data
  outbound := true

/-- Entry of a datagram read from the socket; `common/lagged_socket.cpp:147–151`. -/
def inboundEntry (cfg : LaggedSocketConfig D) (a : Arrival D) : Pending where
  deliverAtUs := a.nowUs + UInt64.ofInt (cfg.totalMs cfg.addLatencyMsRecv a.draws) * 1000
  ep := a.src
  bytes := a.payload.take recvTmpBytes
  outbound := false

/-- Whole numbers in the place of `double`, for a loss of 0 or 1. -/
@[reducible] def wholeLoss : FloatOps Int where
  ofInt := id
  lt a b := a < b
  sqrt a := (a.toNat.sqrt : Nat)

/-- Without loss no draw drops a datagram. -/
theorem drops_of_lossless {cfg : LaggedSocketConfig D} (h : cfg.Lossless) (draws : Draws D) :
    cfg.drops draws = false := by
  unfold Lossless at h
  simp [drops, h]

end LaggedSocketConfig

/-- `common/lagged_socket.hpp:70–74`, over any implementation of `std::priority_queue`. -/
structure LaggedSocket (D : Type) (Q : PriorityQueue Pending Pending.deliverAtUs) where
  fd : Int
  cfg : LaggedSocketConfig D
  queue : Q.Carrier

/-- A call of the owner of the socket, with the clock readings it makes. -/
inductive Call (D : Type)
  | sendTo (ep : Endpoint) (data : List UInt8) (draws : Draws D) (nowUs : UInt64)
  /-- The arrivals end where `::recvfrom` fails or would block. -/
  | recvFrom (cap : Nat) (arrivals : List (Arrival D)) (flushUs scanUs : UInt64)
  | pump (nowUs : UInt64)

namespace LaggedSocket

variable {D : Type} {Q : PriorityQueue Pending Pending.deliverAtUs}

/-- Socket that has just been bound. -/
def bound (fd : Nat) (cfg : LaggedSocketConfig D) : LaggedSocket D Q := ⟨fd, cfg, Q.empty⟩

/-- Send at once, delay or drop: the result, the socket after it and what is passed to
`::sendto`; `common/lagged_socket.cpp:62–101`. -/
def sendTo [FloatOps D] (ep : Endpoint) (data : List UInt8) (draws : Draws D) (nowUs : UInt64)
    (s : LaggedSocket D Q) : Bool × LaggedSocket D Q × List Sent :=
  if s.fd < 0 then (false, s, [])
  else if s.cfg.drops draws then (true, s, [])
  else if s.cfg.totalMs s.cfg.addLatencyMsSend draws = 0 then (true, s, [⟨nowUs, ep, data⟩])
  else (true, { s with queue := Q.push (s.cfg.outboundEntry ep data draws nowUs) s.queue }, [])

/-- Send the matured entries up to the first that is inbound; `common/lagged_socket.cpp:103–116`. -/
def flushOutboundLocked (nowUs : UInt64) (s : LaggedSocket D Q) : LaggedSocket D Q × List Sent :=
  let r := Q.popWhile (fun _ p ↦ p.deliverAtUs ≤ nowUs && p.outbound) s.queue
  ({ s with queue := r.2 }, r.1.map fun p ↦ ⟨nowUs, p.ep, p.bytes⟩)

/-- Queue what the socket holds. An empty datagram ends the loop like a failure;
`common/lagged_socket.cpp:124–155`. -/
def drain [FloatOps D] : List (Arrival D) → LaggedSocket D Q → LaggedSocket D Q
  | [], s => s
  | a :: as, s =>
    if a.payload.length = 0 then s
    else if s.cfg.drops a.draws then drain as s
    else drain as { s with queue := Q.push (s.cfg.inboundEntry a) s.queue }

/-- Drain the socket, send what has matured, and take the first matured inbound entry;
`common/lagged_socket.cpp:118–184`. -/
def recvFrom [FloatOps D] (cap : Nat) (arrivals : List (Arrival D)) (flushUs scanUs : UInt64)
    (s : LaggedSocket D Q) : Option Returned × LaggedSocket D Q × List Sent :=
  if s.fd < 0 then (none, s, [])
  else
    let flushed := (s.drain arrivals).flushOutboundLocked flushUs
    let found := Q.takeFirst (fun p ↦ !p.outbound && p.deliverAtUs ≤ scanUs) flushed.1.queue
    (found.1.map fun p ↦ ⟨scanUs, cap, p.ep, p.bytes.take cap⟩,
      { flushed.1 with queue := found.2 }, flushed.2)

/-- `common/lagged_socket.cpp:186–189`. -/
def pump (nowUs : UInt64) (s : LaggedSocket D Q) : LaggedSocket D Q × List Sent :=
  s.flushOutboundLocked nowUs

variable [FloatOps D]

/-- One call: the socket after it, what is passed to `::sendto` and what is returned. -/
def call (s : LaggedSocket D Q) : Call D → LaggedSocket D Q × List Sent × List Returned
  | .sendTo ep data draws nowUs =>
    let r := s.sendTo ep data draws nowUs
    (r.2.1, r.2.2, [])
  | .recvFrom cap arrivals flushUs scanUs =>
    let r := s.recvFrom cap arrivals flushUs scanUs
    (r.2.1, r.2.2, r.1.toList)
  | .pump nowUs =>
    let r := s.pump nowUs
    (r.1, r.2, [])

/-- Calls one after another: the socket after them, all that is passed to `::sendto` and all
that is returned. -/
def run (s : LaggedSocket D Q) (calls : List (Call D)) :
    LaggedSocket D Q × List Sent × List Returned :=
  calls.foldl (fun r c ↦
    let o := r.1.call c
    (o.1, r.2.1 ++ o.2.1, r.2.2 ++ o.2.2)) (s, [], [])

end LaggedSocket
end LightningLink
