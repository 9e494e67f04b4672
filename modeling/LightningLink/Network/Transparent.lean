import LightningLink.Common.Inbound
import LightningLink.Network.Refinement

/-!
# The network behind transparent sockets

Library `Network`. With the conditioners off the wire is the whole network: every run of
`System` is one of `Conditioned`, in which the processes and the server are in the same states
and the same datagrams are in flight.
-/

namespace LightningLink

open Support FloatOps

namespace LaggedSocket

variable {D : Type} [FloatOps D] {Q : PriorityQueue Pending Pending.deliverAtUs}

/-- A socket without latency, jitter and loss that holds nothing. -/
structure Clear (s : LaggedSocket D Q) : Prop where
  cfg : s.cfg.Transparent
  queue : Q.elems s.queue = 0

namespace Clear

variable {s : LaggedSocket D Q}

/-- A datagram is passed on. -/
theorem send (h : s.Clear) (hfd : 0 ≤ s.fd) (ep : Endpoint) (data : List UInt8) (draws : Draws D)
    (nowUs : UInt64) : s.trace [.send ep data draws nowUs] = (s, [⟨nowUs, ep, data⟩], []) := by
  rw [trace_singleton]
  unfold critical call sendTo
  dsimp only
  rw [if_neg (by omega), LaggedSocketConfig.drops_of_lossless h.cfg.loss,
    if_pos (h.cfg.totalMs draws).1]
  rfl

/-- There is nothing to flush. -/
theorem flush (h : s.Clear) (nowUs : UInt64) : s.flushOutboundLocked nowUs = (s, []) := by
  have hsize : Q.size s.queue = 0 := by
    rw [PriorityQueue.size, h.queue]
    rfl
  rw [flushOutboundLocked, Q.popWhile_of_size_zero hsize]
  rfl

/-- A datagram is read into the queue. -/
theorem read (h : s.Clear) (hfd : 0 ≤ s.fd) (a : Arrival D) :
    s.trace [.read a] = ({ s with queue := Q.push (s.cfg.inboundEntry a) s.queue }, [], []) := by
  rw [trace_singleton, s.critical_read hfd a, LaggedSocketConfig.drops_of_lossless h.cfg.loss]
  rfl

/-- The search takes what has just been read. -/
theorem search (h : s.Clear) (hfd : 0 ≤ s.fd) (a : Arrival D) (cap : Nat)
    (flushUs scanUs : UInt64) (hdue : a.nowUs ≤ scanUs) :
    ∃ s' : LaggedSocket D Q, s'.Clear ∧ s'.fd = s.fd ∧
      ({ s with queue := Q.push (s.cfg.inboundEntry a) s.queue } : LaggedSocket D Q).trace
        [.search cap flushUs scanUs] =
        (s', [], [⟨scanUs, cap, a.src, (a.payload.take recvTmpBytes).take cap⟩]) := by
  have helems : Q.elems (Q.push (s.cfg.inboundEntry a) s.queue) = {s.cfg.inboundEntry a} := by
    rw [Q.elems_push, h.queue]
    rfl
  obtain ⟨rest, hpop, hempty⟩ := Q.pop_of_singleton helems
  refine ⟨{ s with queue := rest }, ⟨h.cfg, hempty⟩, rfl, ?_⟩
  have hflush : Q.popWhile (fun _ p ↦ p.deliverAtUs ≤ flushUs && p.outbound)
      (Q.push (s.cfg.inboundEntry a) s.queue) = ([], Q.push (s.cfg.inboundEntry a) s.queue) :=
    Q.popWhile_of_not hpop (Bool.and_false _)
  have hfound : Q.takeFirst (fun p ↦ !p.outbound && p.deliverAtUs ≤ scanUs)
      (Q.push (s.cfg.inboundEntry a) s.queue) = (some (s.cfg.inboundEntry a), rest) := by
    apply Q.takeFirst_of_pop hpop
    rw [h.cfg.deliverAtUs]
    exact decide_eq_true hdue
  rw [trace_singleton]
  unfold critical call recvFrom drain flushOutboundLocked
  dsimp only
  rw [if_neg (by omega), hflush]
  dsimp only
  rw [hfound]
  rfl

end Clear
end LaggedSocket

namespace Net

open Proto Srv Cl FloatArith

section

variable {D : Type} {Q : PriorityQueue Pending Pending.deliverAtUs} [FloatArith F32] [FloatOps D]

namespace Conditioned

/-- The processes, the server and the datagrams in flight are those of the bare network, and
every conditioner is off and empty. -/
structure Mirrors (c : Conditioned D Q) (s : System) : Prop where
  process : c.process = s.process
  server : c.server = s.server
  toServer : c.toServer = s.toServer
  toClients : c.toClients = s.toClients
  clear : ∀ e, (c.socket e).Clear
  opened : ∀ e, (c.process e).receiveCap.isSome → 0 ≤ (c.socket e).fd
  inHand : c.inHand = fun _ ↦ none
  serverClear : c.serverSocket.Clear
  serverOpened : 0 ≤ c.serverSocket.fd

/-- A draw and a reading of the clock. -/
def still : Tx D := ⟨⟨0, ofInt 0⟩, 0⟩

/-- Datagram that arrives at the time 0. -/
def arrival (src : Endpoint) (payload : List UInt8) : Arrival D :=
  ⟨src, payload, ⟨0, ofInt 0⟩, 0⟩

omit [FloatArith F32] in
/-- Sections in which the server sends. -/
theorem trace_sends {socket : LaggedSocket D Q} (h : socket.Clear) (hfd : 0 ≤ socket.fd)
    (tx : Nat → Tx D) (ds : List Datagram) :
    (socket.trace (sends tx ds)).1 = socket ∧
      (socket.trace (sends tx ds)).2.1.map Sent.datagram = ds := by
  induction ds generalizing tx with
  | nil => exact ⟨rfl, rfl⟩
  | cons d ds ih =>
    obtain ⟨hsocket, hsent⟩ := ih fun i ↦ tx (i + 1)
    have happend := socket.trace_append
      [.send d.endpoint d.payload (tx 0).draws (tx 0).nowUs] (sends (fun i ↦ tx (i + 1)) ds)
    rw [h.send hfd] at happend
    rw [sends, ← List.singleton_append, happend]
    dsimp only
    rw [hsocket, List.map_append, hsent]
    exact ⟨rfl, rfl⟩

/-- Two runs in a row. -/
theorem run_append (c : Conditioned D Q) (as bs : List (Action D)) :
    c.run (as ++ bs) = (c.run as).run bs := List.foldl_append ..

/-- Events of two runs in a row. -/
theorem history_append (c : Conditioned D Q) (as bs : List (Action D)) :
    c.history (as ++ bs) = c.history as ++ (c.run as).history bs := by
  induction as generalizing c with
  | nil => rfl
  | cons a as ih =>
    rw [List.cons_append, history, ih, ← List.append_assoc]
    rfl

namespace Mirrors

variable {c : Conditioned D Q} {s : System}

/-- A process changes. -/
theorem become (h : Mirrors c s) (e : Endpoint) (p : Process)
    (hp : p.receiveCap.isSome → 0 ≤ (c.socket e).fd) :
    Mirrors (c.become e p) (s.become e p []) where
  process := by
    unfold Conditioned.become System.become
    rw [h.process]
  server := h.server
  toServer := h.toServer.trans (add_zero _).symm
  toClients := h.toClients
  clear := h.clear
  opened e' := by
    unfold Conditioned.become
    dsimp only
    rw [Function.update_apply]
    split
    · next he => exact he ▸ hp
    · exact h.opened e'
  inHand := h.inHand
  serverClear := h.serverClear
  serverOpened := h.serverOpened

/-- A process sends a datagram. -/
theorem send (h : Mirrors c s) (e : Endpoint) (hfd : 0 ≤ (c.socket e).fd) (bytes : List UInt8)
    (tx : Tx D) :
    Mirrors (c.send e bytes tx) { s with toServer := s.toServer + {⟨e, bytes⟩} } := by
  have hsend : c.send e bytes tx = { c with toServer := c.toServer + {⟨e, bytes⟩} } := by
    unfold Conditioned.send exec
    rw [if_neg (by omega), (h.clear e).send hfd]
    dsimp only
    rw [Function.update_eq_self]
    rfl
  rw [hsend]
  exact { h with toServer := congrArg (· + _) h.toServer }

/-- There is nothing to pump. -/
theorem exec_pump (h : Mirrors c s) (e : Endpoint) (nowUs : UInt64) :
    (c.exec e [.pump nowUs]).1 = c := by
  unfold exec
  split
  · rfl
  · rw [LaggedSocket.trace_singleton]
    unfold LaggedSocket.critical LaggedSocket.call LaggedSocket.pump
    dsimp only
    rw [(h.clear e).flush]
    dsimp only
    rw [Function.update_eq_self]
    exact congrArg (fun ds ↦ { c with toServer := ds }) (add_zero _)

/-- The server handles an event. -/
theorem serve (h : Mirrors c s) (ev : Srv.Event F32) (tx : Nat → Tx D) :
    Mirrors (c.serve ev tx) (s.serve ev) := by
  obtain ⟨hsocket, hsent⟩ :=
    trace_sends h.serverClear h.serverOpened tx (c.server.server.handle ev).2
  have hserve : c.serve ev tx = { c with
      server := c.server.step ev
      toClients := c.toClients + ((c.server.server.handle ev).2 : Multiset Datagram) } := by
    unfold Conditioned.serve execServer
    dsimp only
    rw [hsocket, hsent]
  rw [hserve]
  exact { h with
    server := congrArg (ValidServer.step · ev) h.server
    toClients := by
      change c.toClients + _ = s.toClients + _
      rw [h.toClients, h.server] }

/-- A datagram on the wire is read by the server and handled. -/
theorem deliver (h : Mirrors c s) {d : Datagram} (hd : d ∈ s.toServer) (now : Int) :
    let as : List (Action D) := [.readServer (arrival d.endpoint d.payload),
      .searchServer now 0 0 fun _ ↦ still]
    Mirrors (c.run as) (s.step (.deliver d now)) ∧
      c.history as = [cut (.datagram now d.endpoint d.payload)] := by
  intro as
  let a : Arrival D := arrival d.endpoint d.payload
  let queue := Q.push (c.serverSocket.cfg.inboundEntry a) c.serverSocket.queue
  obtain ⟨socket, hclear, hfd, hsearch⟩ :=
    h.serverClear.search h.serverOpened a maxPacketBytes 0 0 (UInt64.le_refl _)
  let read : Conditioned D Q := { c with
    toServer := c.toServer.erase d
    serverSocket := { c.serverSocket with queue := queue } }
  let found : Conditioned D Q := { c with toServer := c.toServer.erase d, serverSocket := socket }
  have hread : c.step (.readServer a) = read := by
    unfold Conditioned.step
    dsimp only
    rw [if_pos (h.toServer.symm ▸ hd)]
    unfold execServer
    dsimp only
    rw [h.serverClear.read h.serverOpened]
    exact congrArg (fun ds ↦ { read with toClients := ds }) (add_zero _)
  let bytes := (d.payload.take recvTmpBytes).take maxPacketBytes
  have hexec : read.execServer [.search maxPacketBytes 0 0] =
      (found, [⟨0, maxPacketBytes, d.endpoint, bytes⟩]) := by
    unfold execServer
    rw [hsearch]
    exact congrArg (fun ds ↦ ({ found with toClients := ds }, _)) (add_zero _)
  have hfound : Mirrors found { s with toServer := s.toServer.erase d } :=
    { h with
      toServer := congrArg (Multiset.erase · d) h.toServer
      serverClear := hclear
      serverOpened := hfd ▸ h.serverOpened }
  have hstep : c.run as = found.serve (.datagram now d.endpoint bytes) fun _ ↦ still := by
    change (c.step (.readServer a)).step (.searchServer now 0 0 fun _ ↦ still) = _
    rw [hread]
    unfold Conditioned.step
    dsimp only
    rw [hexec]
  refine ⟨?_, ?_⟩
  · have hcongr := serve_congr { s with toServer := s.toServer.erase d }
      (handle_take s.server.server now d.endpoint (List.take_take ▸ rfl :
        (d.payload.take recvTmpBytes).take recvTmpBytes = d.payload.take recvTmpBytes))
    rw [hstep, System.step, if_pos hd, ← hcongr]
    exact hfound.serve _ _
  · change ((c.step (.readServer a)).serves (.searchServer now 0 0 fun _ ↦ still)).toList ++ [] = _
    have hcut : bytes = d.payload.take maxPacketBytes := List.take_take
    rw [hread, List.append_nil, Conditioned.serves, hexec, hcut]
    rfl

/-- A datagram on the wire is received by a process. -/
theorem receive (h : Mirrors c s) {d : Datagram} (hd : d ∈ s.toClients) (src : Endpoint)
    (wallMs : UInt64) {cap : Nat} (hcap : (c.process d.endpoint).receiveCap = some cap) :
    let as : List (Action D) := [.read d.endpoint (arrival src d.payload),
      .search d.endpoint 0 0, .handle d.endpoint wallMs]
    Mirrors (c.run as) (s.step (.receive d wallMs)) ∧ c.history as = [] := by
  intro as
  let e := d.endpoint
  let a : Arrival D := arrival src d.payload
  have hopen : 0 ≤ (c.socket e).fd := h.opened e (hcap ▸ rfl)
  obtain ⟨socket, hclear, hfd, hsearch⟩ := (h.clear e).search hopen a cap 0 0 (UInt64.le_refl _)
  let queue := Q.push ((c.socket e).cfg.inboundEntry a) (c.socket e).queue
  let taken : Conditioned D Q := { c with toClients := c.toClients.erase d }
  let read : Conditioned D Q := { taken with
    socket := Function.update c.socket e { c.socket e with queue := queue } }
  let searched : Conditioned D Q := { taken with socket := Function.update c.socket e socket }
  have hread : c.step (.read e a) = read := by
    unfold Conditioned.step
    dsimp only
    rw [if_pos (h.toClients.symm ▸ hd)]
    unfold exec
    dsimp only
    rw [if_neg (by omega), (h.clear e).read hopen]
    exact congrArg (fun ds ↦ { read with toServer := ds }) (add_zero _)
  have hexec : read.exec e [.search cap 0 0] =
      (searched, [⟨0, cap, src, (d.payload.take recvTmpBytes).take cap⟩]) := by
    unfold exec
    have hself : read.socket e = { c.socket e with queue := queue } := Function.update_self ..
    rw [hself, if_neg (by exact not_lt.mpr hopen), hsearch]
    dsimp only
    rw [Function.update_idem]
    exact congrArg (fun ds ↦ ({ searched with toServer := ds }, _)) (add_zero _)
  have hsearched : Mirrors searched { s with toClients := s.toClients.erase d } :=
    { h with
      toClients := congrArg (Multiset.erase · d) h.toClients
      clear := fun e' ↦ by
        change (Function.update c.socket e socket e').Clear
        rw [Function.update_apply]
        split
        · exact hclear
        · exact h.clear e'
      opened := fun e' he' ↦ by
        change 0 ≤ (Function.update c.socket e socket e').fd
        rw [Function.update_apply]
        split
        · exact hfd ▸ hopen
        · exact h.opened e' he' }
  let x : Returned := ⟨0, cap, src, (d.payload.take recvTmpBytes).take cap⟩
  have hstep : c.run as = searched.become e ((c.process e).receive wallMs x.bytes) := by
    change ((c.step (.read e a)).step (.search e 0 0)).step (.handle e wallMs) = _
    have hheld : read.step (.search e 0 0) =
        { searched with inHand := Function.update c.inHand e (some x) } := by
      have hhand : read.inHand e = none := congrFun h.inHand e
      have hcap : (read.process e).receiveCap = some cap := hcap
      unfold Conditioned.step
      dsimp only
      rw [hhand, hcap]
      dsimp only
      rw [hexec]
      rfl
    rw [hread, hheld]
    unfold Conditioned.step
    dsimp only
    rw [Function.update_self]
    dsimp only
    rw [Function.update_idem, h.inHand, Function.update_eq_self_iff.mpr rfl, ← h.inHand]
  have hreceive : (c.process e).receive wallMs x.bytes =
      (s.process e).receive wallMs d.payload := by
    rw [← h.process]
    exact receive_take _ wallMs (Or.inr hcap) (List.take_take ▸ rfl)
  refine ⟨?_, rfl⟩
  rw [hstep, System.step, if_pos hd, hreceive]
  apply hsearched.become
  intro _
  change 0 ≤ (Function.update c.socket e socket e).fd
  rw [Function.update_self, hfd]
  exact hopen

/-- A process that goes on receiving, or has received before, changes. -/
theorem become_same (h : Mirrors c s) (e : Endpoint) {p : Process}
    (hp : p.receiveCap = (c.process e).receiveCap) : Mirrors (c.become e p) (s.become e p []) :=
  h.become e p fun hcap ↦ h.opened e (hp ▸ hcap)

/-- A client opens its socket and asks to join. -/
theorem start (h : Mirrors c s) {e : Endpoint} (hidle : s.process e = .idle)
    (noPrediction noInterpolation : Bool) :
    Mirrors (c.step (.start e noPrediction noInterpolation still))
      (s.step (.start e noPrediction noInterpolation)) := by
  let socket : LaggedSocket D Q := { c.socket e with fd := 3 }
  let opened : Conditioned D Q := { c with socket := Function.update c.socket e socket }
  have hfd : 0 ≤ socket.fd := (by decide : (0 : Int) ≤ 3)
  have hopened : Mirrors opened s := { h with
    clear := fun e' ↦ by
      change (Function.update c.socket e socket e').Clear
      rw [Function.update_apply]
      split
      · exact ⟨(h.clear e).cfg, (h.clear e).queue⟩
      · exact h.clear e'
    opened := fun e' he' ↦ by
      change 0 ≤ (Function.update c.socket e socket e').fd
      rw [Function.update_apply]
      split
      · exact hfd
      · exact h.opened e' he' }
  have hfd : 0 ≤ (opened.socket e).fd := by
    change 0 ≤ (Function.update c.socket e socket e).fd
    rwa [Function.update_self]
  have hjoining := (hopened.become e (.joining noPrediction noInterpolation) fun _ ↦ hfd).send e
    hfd joinBytes still
  unfold Conditioned.step System.step
  dsimp only
  rw [hidle, show c.process e = .idle from h.process ▸ hidle]
  dsimp only
  rw [become_send]
  exact hjoining

/-- A client sends an input. -/
theorem input (h : Mirrors c s) {e : Endpoint} {p : Playing} (hp : s.process e = .playing p)
    (mx my : Int8) (dt : Double F32) (nowMs : UInt64)
    (order : UMap.Traversal UInt32 (PendingInputSample F32)) :
    Mirrors (c.step (.input e mx my dt nowMs order still))
      (s.step (.input e mx my dt nowMs order)) := by
  have hplaying : c.process e = .playing p := h.process ▸ hp
  unfold Conditioned.step System.step
  dsimp only
  rw [hp, hplaying]
  dsimp only
  rw [become_send]
  exact (h.become_same e (hplaying ▸ rfl)).send e (h.opened e (hplaying ▸ rfl)) _ still

/-- A client leaves its main loop. -/
theorem quit (h : Mirrors c s) {e : Endpoint} {p : Playing} (hp : s.process e = .playing p) :
    Mirrors (c.step (.quit e still 0)) (s.step (.quit e)) := by
  have hplaying : c.process e = .playing p := h.process ▸ hp
  have hsent := (h.become e .done fun hcap ↦ by cases hcap).send e (h.opened e (hplaying ▸ rfl))
    (disconnectBytes p.client.myPid) still
  unfold Conditioned.step System.step
  dsimp only
  rw [hp, hplaying]
  dsimp only
  rw [become_send, hsent.exec_pump]
  exact hsent

/-- A client drains the oldest snapshot of its queue. -/
theorem drain (h : Mirrors c s) (e : Endpoint) (nowMs : UInt64)
    (order : UMap.Traversal UInt32 (PendingInputSample F32)) :
    Mirrors (c.step (.drain e nowMs order)) (s.step (.drain e nowMs order)) := by
  rw [System.step, ← h.process]
  exact h.become_same e (receiveCap_drain _ nowMs order)

/-- Every action on the bare network is matched. -/
theorem step (h : Mirrors c s) (a : Net.Action) :
    ∃ as : List (Action D), Mirrors (c.run as) (s.step a) ∧
      c.history as = (s.serves a).toList.map cut := by
  cases a with
  | start e noPrediction noInterpolation =>
    cases hp : s.process e with
    | idle =>
      exact ⟨[.start e noPrediction noInterpolation still],
        h.start hp noPrediction noInterpolation, rfl⟩
    | _ =>
      refine ⟨[], ?_, rfl⟩
      rw [System.step, hp]
      exact h
  | giveUp e =>
    unfold System.step
    dsimp only
    split
    · next hjoining =>
      refine ⟨[.giveUp e], ?_, rfl⟩
      change Mirrors (c.step (.giveUp e)) _
      unfold Conditioned.step
      dsimp only
      rw [h.process, hjoining]
      exact h.become e .done fun hcap ↦ by cases hcap
    · exact ⟨[], h, rfl⟩
  | drain e nowMs order =>
    exact ⟨[.drain e nowMs order], h.drain e nowMs order, rfl⟩
  | act e ev =>
    refine ⟨[.act e ev], ?_, rfl⟩
    change Mirrors (c.step (.act e ev)) _
    rw [System.step, ← h.process]
    exact h.become_same e (receiveCap_act _ ev)
  | input e mx my dt nowMs order =>
    cases hp : s.process e with
    | playing p =>
      exact ⟨[.input e mx my dt nowMs order still], h.input hp mx my dt nowMs order, rfl⟩
    | _ =>
      refine ⟨[], ?_, rfl⟩
      rw [System.step, hp]
      exact h
  | quit e =>
    cases hp : s.process e with
    | playing p => exact ⟨[.quit e still 0], h.quit hp, rfl⟩
    | _ =>
      refine ⟨[], ?_, rfl⟩
      rw [System.step, hp]
      exact h
  | deliver d now =>
    by_cases hd : d ∈ s.toServer
    · refine ⟨_, (h.deliver hd now).1, (h.deliver hd now).2.trans ?_⟩
      rw [System.serves, if_pos hd]
      rfl
    · refine ⟨[], ?_, ?_⟩
      · rw [System.step, if_neg hd]
        exact h
      · rw [System.serves, if_neg hd]
        rfl
  | receive d wallMs =>
    by_cases hd : d ∈ s.toClients
    · cases hcap : (c.process d.endpoint).receiveCap with
      | some cap => exact ⟨_, h.receive hd c.serverEp wallMs hcap⟩
      | none =>
        -- The process receives nothing, so the datagram is as good as lost.
        have hsame : (s.process d.endpoint).receive wallMs d.payload = c.process d.endpoint := by
          rw [← h.process]
          cases hp : c.process d.endpoint with
          | idle => rfl
          | done => rfl
          | joining => rw [hp] at hcap; cases hcap
          | playing => rw [hp] at hcap; cases hcap
        let lost : Conditioned D Q := { c with toClients := c.toClients.erase d }
        have hlost : Mirrors lost { s with toClients := s.toClients.erase d } :=
          { h with toClients := congrArg (Multiset.erase · d) h.toClients }
        have hbecome : lost.become d.endpoint (c.process d.endpoint) = lost :=
          congrArg (fun pr ↦ { lost with process := pr }) (Function.update_eq_self _ _)
        refine ⟨[.loseToClient d], ?_, rfl⟩
        have hreceived := hlost.become_same d.endpoint (p := c.process d.endpoint) rfl
        rw [hbecome] at hreceived
        rw [System.step, if_pos hd, hsame]
        exact hreceived
    · refine ⟨[], ?_, rfl⟩
      rw [System.step, if_neg hd]
      exact h
  | loseToServer d =>
    exact ⟨[.loseToServer d],
      { h with toServer := congrArg (Multiset.erase · d) h.toServer }, rfl⟩
  | loseToClient d =>
    exact ⟨[.loseToClient d],
      { h with toClients := congrArg (Multiset.erase · d) h.toClients }, rfl⟩
  | tick now order =>
    exact ⟨[.tick now order fun _ ↦ still], h.serve (.tick now order) _, rfl⟩

/-- Every run on the bare network is matched. -/
theorem run (h : Mirrors c s) (acts : List Net.Action) :
    ∃ as : List (Action D), Mirrors (c.run as) (s.run acts) ∧
      c.history as = (s.history acts).map cut := by
  induction acts generalizing c s with
  | nil => exact ⟨[], h, rfl⟩
  | cons a acts ih =>
    obtain ⟨first, hfirst, hserves⟩ := h.step a
    obtain ⟨rest, hrest, hhistory⟩ := ih hfirst
    refine ⟨first ++ rest, ?_, ?_⟩
    · rw [run_append]
      exact hrest
    · rw [history_append, hserves, hhistory, System.history, List.map_append]

end Mirrors

/-- Conditioners that are off. -/
theorem mirrors_init (serverEp : Endpoint) {cfg : Endpoint → LaggedSocketConfig D}
    {serverCfg : LaggedSocketConfig D} (hcfg : ∀ e, (cfg e).Transparent)
    (hserver : serverCfg.Transparent) :
    Mirrors (init serverEp cfg serverCfg : Conditioned D Q) System.init where
  process := rfl
  server := rfl
  toServer := rfl
  toClients := rfl
  clear e := ⟨hcfg e, Q.elems_empty⟩
  opened _ h := by cases h
  inHand := rfl
  serverClear := ⟨hserver, Q.elems_empty⟩
  serverOpened := (by decide : (0 : Int) ≤ 3)

/-- With the conditioners off, whatever the processes, the server and a bare network can do
happens behind the conditioned sockets as well: the states, the datagrams in flight and the events
that the server handles are the same, up to the bytes that it reads of them. -/
theorem mirrors_run (serverEp : Endpoint) (cfg : Endpoint → LaggedSocketConfig D)
    (serverCfg : LaggedSocketConfig D) (hcfg : ∀ e, (cfg e).Transparent)
    (hserver : serverCfg.Transparent) (acts : List Net.Action) :
    let start : Conditioned D Q := init serverEp cfg serverCfg
    let bare := System.init.run acts
    ∃ as : List (Action D), (start.run as).process = bare.process ∧
      (start.run as).server = bare.server ∧ (start.run as).toServer = bare.toServer ∧
      (start.run as).toClients = bare.toClients ∧
      start.history as = (System.init.history acts).map cut := by
  intro start bare
  obtain ⟨as, h, hhistory⟩ := (mirrors_init (Q := Q) serverEp hcfg hserver).run acts
  exact ⟨as, h.process, h.server, h.toServer, h.toClients, hhistory⟩

end Conditioned
end

namespace Conditioned

/-- A client joins and the server ticks. -/
theorem mirrors_run_three :
    letI := LaggedSocketConfig.wholeLoss
    let cfg : LaggedSocketConfig Int := ⟨0, 0, 0, 0⟩
    let start : Conditioned Int (.newestFirst Pending.deliverAtUs) := init ⟨9, 9⟩ (fun _ ↦ cfg) cfg
    let bare := System.init.run [.start ⟨1, 1⟩ false false, .deliver ⟨⟨1, 1⟩, joinBytes⟩ 0,
      .tick 0 .sorted]
    ∃ as : List (Action Int), (start.run as).process = bare.process ∧
      (start.run as).server = bare.server ∧ (start.run as).toServer = bare.toServer ∧
      (start.run as).toClients = bare.toClients ∧
      start.history as = [.datagram 0 ⟨1, 1⟩ joinBytes, .tick 0 .sorted] := by
  let _ := LaggedSocketConfig.wholeLoss
  intro cfg start bare
  have hcfg : cfg.Transparent := ⟨rfl, rfl, rfl, by decide⟩
  exact mirrors_run ⟨9, 9⟩ (fun _ ↦ cfg) cfg (fun _ ↦ hcfg) hcfg _

end Conditioned
end Net
end LightningLink
