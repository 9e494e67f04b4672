import LightningLink.Client.Client
import LightningLink.Client.Handshake
import LightningLink.Server.Stream
import Mathlib.Data.Multiset.AddSub

/-!
# Server, clients and network

Library `Network`. One server and one client process at each endpoint exchange datagrams
over a network that may lose, delay and reorder them, and neither duplicates nor forges
them. A `Link` is what concerns one endpoint: its process, its datagrams in flight in both
directions, and its member at the server.
-/

namespace LightningLink.Net

open Support Proto Srv Cl FloatArith

section

variable [FloatArith F32]

/-- A client in its main loop: its variables, its snapshot queue, and the inputs it has sent. -/
structure Playing where
  client : Client F32
  queue : List (StampedSnapshot F32)
  sent : List InputPacket

/-- What the process at an endpoint is doing. -/
inductive Process
  | idle
  /-- It has sent its `JOIN_REQUEST`. -/
  | joining (noPrediction noInterpolation : Bool)
  | playing (p : Playing)
  /-- It has given up the handshake, or left the main loop. -/
  | done

namespace Process

/-- A datagram received in the handshake or by the receive thread. -/
def receive (wallMs : UInt64) (payload : List UInt8) : Process → Process
  | joining noPrediction noInterpolation =>
    match acceptedId payload with
    | none => joining noPrediction noInterpolation
    | some id =>
      if id = 0 then done else playing ⟨Client.init id noPrediction noInterpolation, [], []⟩
  | playing p =>
    match NetworkReceiver.receive payload with
    | none => playing p
    | some snap => playing { p with queue := p.queue ++ [⟨snap, wallMs⟩] }
  | p => p

/-- Pop the oldest snapshot of the queue, if any, and drain it. -/
def drain (nowMs : UInt64) (order : UMap.Traversal UInt32 (PendingInputSample F32)) :
    Process → Process
  | playing p =>
    match p.queue with
    | [] => playing p
    | ss :: queue => playing { p with client := p.client.step (.snapshot ss nowMs order)
                                      queue := queue }
  | p => p

/-- A part of the main loop that neither pops a snapshot nor sends. -/
def act (ev : Cl.Event F32) : Process → Process
  | playing p =>
    match ev with
    | .togglePrediction => playing { p with client := p.client.step .togglePrediction }
    | .prune nowMs order => playing { p with client := p.client.step (.prune nowMs order) }
    | _ => playing p
  | p => p

end Process

/-- The processes, the server and the datagrams in flight. The endpoint of a datagram is its
sender on the way to the server, and its receiver on the way back. -/
structure System where
  process : Endpoint → Process
  server : ValidServer F32
  toServer : Multiset Datagram
  toClients : Multiset Datagram

/-- A step of a process, of the network or of the server. -/
inductive Action
  | start (e : Endpoint) (noPrediction noInterpolation : Bool)
  | giveUp (e : Endpoint)
  | drain (e : Endpoint) (nowMs : UInt64) (order : UMap.Traversal UInt32 (PendingInputSample F32))
  | act (e : Endpoint) (ev : Cl.Event F32)
  | input (e : Endpoint) (mx my : Int8) (dt : Double F32) (nowMs : UInt64)
      (order : UMap.Traversal UInt32 (PendingInputSample F32))
  | quit (e : Endpoint)
  | deliver (d : Datagram) (now : Int)
  | receive (d : Datagram) (wallMs : UInt64)
  | loseToServer (d : Datagram)
  | loseToClient (d : Datagram)
  | tick (now : Int) (order : TickOrder F32)

namespace System

/-- Nothing has started. -/
def init : System := ⟨fun _ ↦ .idle, ValidServer.init, 0, 0⟩

/-- The process at an endpoint changes and sends. -/
def become (e : Endpoint) (p : Process) (sends : List (List UInt8)) (s : System) : System :=
  { s with
    process := Function.update s.process e p
    toServer := s.toServer + (sends.map fun payload ↦ (⟨e, payload⟩ : Datagram) : List Datagram) }

/-- The server handles an event and sends. -/
def serve (ev : Srv.Event F32) (s : System) : System :=
  { s with
    server := s.server.step ev
    toClients := s.toClients + ((s.server.server.handle ev).2 : Multiset Datagram) }

/-- State after an action; one that is not enabled does nothing. -/
def step (s : System) : Action → System
  | .start e noPrediction noInterpolation =>
    match s.process e with
    | .idle => s.become e (.joining noPrediction noInterpolation) [joinBytes]
    | _ => s
  | .giveUp e =>
    match s.process e with
    | .joining _ _ => s.become e .done []
    | _ => s
  | .drain e nowMs order => s.become e ((s.process e).drain nowMs order) []
  | .act e ev => s.become e ((s.process e).act ev) []
  | .input e mx my dt nowMs order =>
    match s.process e with
    | .playing p =>
      let sent := p.client.sendInput mx my dt nowMs order
      s.become e (.playing ⟨sent.1, p.queue, p.sent ++ [sent.2]⟩) [inputBytes sent.2]
    | _ => s
  | .quit e =>
    match s.process e with
    | .playing p => s.become e .done [disconnectBytes p.client.myPid]
    | _ => s
  | .deliver d now =>
    if d ∈ s.toServer then
      { s with toServer := s.toServer.erase d }.serve (.datagram now d.endpoint d.payload)
    else s
  | .receive d wallMs =>
    if d ∈ s.toClients then
      { s with toClients := s.toClients.erase d }.become d.endpoint
        ((s.process d.endpoint).receive wallMs d.payload) []
    else s
  | .loseToServer d => { s with toServer := s.toServer.erase d }
  | .loseToClient d => { s with toClients := s.toClients.erase d }
  | .tick now order => s.serve (.tick now order)

/-- State after a finite run. -/
def run (s : System) (as : List Action) : System := as.foldl step s

end System
end
end LightningLink.Net
