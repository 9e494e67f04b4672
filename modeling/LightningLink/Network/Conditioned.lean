import LightningLink.Network.Ownership
import LightningLink.Common.Interleaving

/-!
# The network behind conditioned sockets

Library `Network`. Every client and the server own a `LaggedSocket`, which drops and delays
what they send and receive, and the threads of a client use theirs section by section. What
the processes and the server do then is what they do over a network that loses, delays and
reorders datagrams: every run of `Conditioned` is matched by a run of `System` in which they
are in the same states and everything under way is in flight.
-/

namespace LightningLink

/-- Datagram that a call passes to `::sendto`. -/
def Sent.datagram (x : Sent) : Srv.Datagram := ⟨x.ep, x.bytes⟩

/-- Datagram of an entry. -/
def Pending.datagram (p : Pending) : Srv.Datagram := ⟨p.ep, p.bytes⟩

namespace Net

open Support Proto Srv Cl FloatArith

/-- Draws and clock reading of one call of `send_to`. -/
structure Tx (D : Type) where
  draws : Draws D
  nowUs : UInt64

section

variable {D : Type} {Q : PriorityQueue Pending Pending.deliverAtUs} [FloatArith F32]

/-- Capacity of the buffer in which a process receives, if it does; `client/client.cpp:95` and
`client/network_receiver.cpp:26`. -/
def Process.receiveCap : Process → Option Nat
  | .joining _ _ => some handshakeBytes
  | .playing _ => some maxPacketBytes
  | _ => none

/-- The processes and the server with their sockets, the datagrams that a process has received
and not yet handled, and the datagrams on the wire. -/
structure Conditioned (D : Type) (Q : PriorityQueue Pending Pending.deliverAtUs) where
  serverEp : Endpoint
  process : Endpoint → Process
  server : ValidServer F32
  socket : Endpoint → LaggedSocket D Q
  inHand : Endpoint → Option Returned
  serverSocket : LaggedSocket D Q
  toServer : Multiset Datagram
  toClients : Multiset Datagram

namespace Conditioned

/-- A step of a thread of a client, of the server or of the wire. -/
inductive Action (D : Type)
  | start (e : Endpoint) (noPrediction noInterpolation : Bool) (tx : Tx D)
  | giveUp (e : Endpoint)
  | drain (e : Endpoint) (nowMs : UInt64) (order : UMap.Traversal UInt32 (PendingInputSample F32))
  | act (e : Endpoint) (ev : Cl.Event F32)
  | input (e : Endpoint) (mx my : Int8) (dt : Double F32) (nowMs : UInt64)
      (order : UMap.Traversal UInt32 (PendingInputSample F32)) (tx : Tx D)
  | quit (e : Endpoint) (tx : Tx D) (pumpUs : UInt64)
  | close (e : Endpoint)
  | pump (e : Endpoint) (nowUs : UInt64)
  /-- One iteration of the loop of `recv_from`. -/
  | read (e : Endpoint) (a : Arrival D)
  /-- The end of `recv_from`. -/
  | search (e : Endpoint) (flushUs scanUs : UInt64)
  /-- What follows `recv_from`. -/
  | handle (e : Endpoint) (wallMs : UInt64)
  | pumpServer (nowUs : UInt64)
  | readServer (a : Arrival D)
  | searchServer (now : Int) (flushUs scanUs : UInt64) (tx : Nat → Tx D)
  | tick (now : Int) (order : TickOrder F32) (tx : Nat → Tx D)
  | loseToServer (d : Datagram)
  | loseToClient (d : Datagram)

/-- Nothing has started; the server is listening. -/
def init (serverEp : Endpoint) (cfg : Endpoint → LaggedSocketConfig D)
    (serverCfg : LaggedSocketConfig D) : Conditioned D Q where
  serverEp := serverEp
  process _ := .idle
  server := ValidServer.init
  socket e := ⟨-1, cfg e, Q.empty⟩
  inHand _ := none
  serverSocket := .bound 3 serverCfg
  toServer := 0
  toClients := 0

/-- The process at an endpoint changes. -/
def become (e : Endpoint) (p : Process) (c : Conditioned D Q) : Conditioned D Q :=
  { c with process := Function.update c.process e p }

variable [FloatOps D]

/-- Sections on the socket of a client, if it is open. -/
def exec (e : Endpoint) (cs : List (Critical D)) (c : Conditioned D Q) :
    Conditioned D Q × List Returned :=
  if (c.socket e).fd < 0 then (c, [])
  else
    let r := (c.socket e).trace cs
    ({ c with
        socket := Function.update c.socket e r.1
        toServer := c.toServer +
          ((r.2.1.map Sent.bytes).map fun payload ↦ (⟨e, payload⟩ : Datagram) : List Datagram) },
      r.2.2)

/-- A client sends to the server. -/
def send (e : Endpoint) (bytes : List UInt8) (tx : Tx D) (c : Conditioned D Q) : Conditioned D Q :=
  (c.exec e [.send c.serverEp bytes tx.draws tx.nowUs]).1

/-- Sections on the socket of the server. -/
def execServer (cs : List (Critical D)) (c : Conditioned D Q) : Conditioned D Q × List Returned :=
  let r := c.serverSocket.trace cs
  ({ c with
      serverSocket := r.1
      toClients := c.toClients + (r.2.1.map Sent.datagram : List Datagram) },
    r.2.2)

omit [FloatArith F32] in
/-- Sections in which the server sends datagrams. -/
def sends (tx : Nat → Tx D) : List Datagram → List (Critical D)
  | [] => []
  | d :: ds =>
    .send d.endpoint d.payload (tx 0).draws (tx 0).nowUs :: sends (fun i ↦ tx (i + 1)) ds

/-- The server handles an event and sends. -/
def serve (ev : Srv.Event F32) (tx : Nat → Tx D) (c : Conditioned D Q) : Conditioned D Q :=
  let next : Conditioned D Q := { c with server := c.server.step ev }
  (next.execServer (sends tx (c.server.server.handle ev).2)).1

/-- State after an action; one that is not enabled does nothing. -/
def step (c : Conditioned D Q) : Action D → Conditioned D Q
  | .start e noPrediction noInterpolation tx =>
    match c.process e with
    | .idle =>
      let opened : Conditioned D Q :=
        { c with socket := Function.update c.socket e { c.socket e with fd := 3 } }
      (opened.become e (.joining noPrediction noInterpolation)).send e joinBytes tx
    | _ => c
  | .giveUp e =>
    match c.process e with
    | .joining _ _ => c.become e .done
    | _ => c
  | .drain e nowMs order => c.become e ((c.process e).drain nowMs order)
  | .act e ev => c.become e ((c.process e).act ev)
  | .input e mx my dt nowMs order tx =>
    match c.process e with
    | .playing p =>
      let sent := p.client.sendInput mx my dt nowMs order
      (c.become e (.playing ⟨sent.1, p.queue, p.sent ++ [sent.2]⟩)).send e (inputBytes sent.2) tx
    | _ => c
  | .quit e tx pumpUs =>
    match c.process e with
    | .playing p =>
      (((c.become e .done).send e (disconnectBytes p.client.myPid) tx).exec e [.pump pumpUs]).1
    | _ => c
  | .close e =>
    match c.process e with
    | .done =>
      { c with socket := Function.update c.socket e { c.socket e with fd := -1, queue := Q.empty } }
    | _ => c
  | .pump e nowUs => (c.exec e [.pump nowUs]).1
  | .read e a =>
    if (⟨e, a.payload⟩ : Datagram) ∈ c.toClients then
      let taken : Conditioned D Q := { c with toClients := c.toClients.erase ⟨e, a.payload⟩ }
      (taken.exec e [.read a]).1
    else c
  | .search e flushUs scanUs =>
    match c.inHand e, (c.process e).receiveCap with
    | none, some cap =>
      let r := c.exec e [.search cap flushUs scanUs]
      { r.1 with inHand := Function.update c.inHand e r.2.head? }
    | _, _ => c
  | .handle e wallMs =>
    match c.inHand e with
    | none => c
    | some x =>
      let taken : Conditioned D Q := { c with inHand := Function.update c.inHand e none }
      taken.become e ((c.process e).receive wallMs x.bytes)
  | .pumpServer nowUs => (c.execServer [.pump nowUs]).1
  | .readServer a =>
    if (⟨a.src, a.payload⟩ : Datagram) ∈ c.toServer then
      let taken : Conditioned D Q := { c with toServer := c.toServer.erase ⟨a.src, a.payload⟩ }
      (taken.execServer [.read a]).1
    else c
  | .searchServer now flushUs scanUs tx =>
    let r := c.execServer [.search maxPacketBytes flushUs scanUs]
    match r.2 with
    | [] => r.1
    | x :: _ => r.1.serve (.datagram now x.src x.bytes) tx
  | .tick now order tx => c.serve (.tick now order) tx
  | .loseToServer d => { c with toServer := c.toServer.erase d }
  | .loseToClient d => { c with toClients := c.toClients.erase d }

/-- State after a finite run. -/
def run (c : Conditioned D Q) (as : List (Action D)) : Conditioned D Q := as.foldl step c

/-- Event that the server handles with an action. -/
def serves (c : Conditioned D Q) : Action D → Option (Srv.Event F32)
  | .searchServer now flushUs scanUs _ =>
    (c.execServer [.search maxPacketBytes flushUs scanUs]).2.head?.map
      fun x ↦ .datagram now x.src x.bytes
  | .tick now order _ => some (.tick now order)
  | _ => none

/-- Events that the server handles in a run. -/
def history (c : Conditioned D Q) : List (Action D) → List (Srv.Event F32)
  | [] => []
  | a :: as => (c.serves a).toList ++ history (c.step a) as

/-! ### What is under way -/

omit [FloatArith F32] [FloatOps D] in
/-- Datagrams in a conditioner, in one direction. -/
def carried (outbound : Bool) (s : LaggedSocket D Q) : Multiset Datagram :=
  (s.queued outbound).map Pending.datagram

omit [FloatOps D] in
/-- Payloads on their way from a client to the server. -/
def up (c : Conditioned D Q) (e : Endpoint) : Multiset (List UInt8) :=
  (carried true (c.socket e)).map Datagram.payload + payloads e c.toServer +
    payloads e (carried false c.serverSocket)

omit [FloatOps D] in
/-- Payloads on their way from the server to a client, except the one that it holds. -/
def down (c : Conditioned D Q) (e : Endpoint) : Multiset (List UInt8) :=
  payloads e (carried true c.serverSocket) + payloads e c.toClients +
    (carried false (c.socket e)).map Datagram.payload

/-- What a read keeps of payloads. -/
def heads (ps : Multiset (List UInt8)) : Multiset (List UInt8) := ps.map (List.take recvTmpBytes)

/-- The payloads under way, and the result that a client holds, come from those in flight. -/
def Covers (flight : Multiset (List UInt8)) (hand : Option Returned)
    (under : Multiset (List UInt8)) : Prop :=
  match hand with
  | none => heads under ≤ heads flight
  | some x => ∃ payload, x.bytes = payload.take x.cap ∧ heads (payload ::ₘ under) ≤ heads flight

/-- The processes and the server are in the states that they have without conditioners, and
everything under way is in flight there. -/
structure Refines (c : Conditioned D Q) (s : System) : Prop where
  process : c.process = s.process
  server : c.server = s.server
  opened : 0 ≤ c.serverSocket.fd
  up : ∀ e, heads (c.up e) ≤ heads (payloads e s.toServer)
  down : ∀ e, Covers (payloads e s.toClients) (c.inHand e) (c.down e)
  cap : ∀ e x, c.inHand e = some x →
    c.process e = .done ∨ (c.process e).receiveCap = some x.cap

end Conditioned
end
end Net
end LightningLink
