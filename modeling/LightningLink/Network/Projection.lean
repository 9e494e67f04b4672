import LightningLink.Client.Inputs
import LightningLink.Client.Newest
import LightningLink.Network.Refinement

/-!
# The parts of a run

Library `Network`. Every run of the whole system, with its conditioners, is a run of the server
and a run of each client that fit together: the server handles no datagram more often than the
process at its endpoint has sent it, and a client queues no snapshot more often than the server
has sent it there. So whatever holds of every run of the server, or of a client, holds of it in
the system.
-/

namespace LightningLink.Net

open Support Proto Srv Cl FloatArith

section

variable [FloatArith F32]

/-! ### The part of the server -/

/-- Payload that an event delivers from an endpoint. -/
def heardBy (e : Endpoint) : Srv.Event F32 → Option (List UInt8)
  | .datagram _ src payload => if src = e then some payload else none
  | .tick _ _ => none

/-- Payloads that a history of the server delivers from an endpoint. -/
def heard (e : Endpoint) (evs : List (Srv.Event F32)) : Multiset (List UInt8) :=
  evs.filterMap (heardBy e)

/-- Payloads that the server sends to an endpoint in a history. -/
def told (e : Endpoint) (evs : List (Srv.Event F32)) : Multiset (List UInt8) :=
  Server.sentTo e Server.init evs

omit [FloatArith F32] in
/-- One more event delivers its payload. -/
theorem heard_concat (e : Endpoint) (evs : List (Srv.Event F32)) (ev : Srv.Event F32) :
    heard e (evs ++ [ev]) = heard e evs + ((heardBy e ev).toList : Multiset (List UInt8)) := by
  unfold heard
  rw [List.filterMap_append, ← Multiset.coe_add]
  cases h : heardBy e ev with
  | none => rw [List.filterMap_cons_none h]; rfl
  | some payload => rw [List.filterMap_cons_some h]; rfl

/-- One more event sends what it is handled with. -/
theorem told_concat (e : Endpoint) (evs : List (Srv.Event F32)) (ev : Srv.Event F32) :
    told e (evs ++ [ev]) = told e evs +
      payloads e (((ValidServer.reached evs).server.handle ev).2 : Multiset Datagram) := by
  have happend (s : Server F32) : Server.sentTo e s (evs ++ [ev]) = Server.sentTo e s evs ++
      (((s.run evs).handle ev).2.filter fun d ↦ d.endpoint = e).map Datagram.payload := by
    induction evs generalizing s with
    | nil => exact List.append_nil _
    | cons ev' evs ih =>
      rw [List.cons_append, Server.sentTo, ih, Server.sentTo, List.append_assoc]
      rfl
  rw [told, happend, ← Multiset.coe_add, ← ValidServer.server_reached]
  rfl

/-- Input that a payload carries. -/
def inputIn (payload : List UInt8) : Option InputPacket :=
  match Packet.read payload with
  | some (.input ip) => some ip
  | _ => none

/-- Inputs that a history of the server delivers from an endpoint. -/
def heardInputs (e : Endpoint) (evs : List (Srv.Event F32)) : Multiset InputPacket :=
  (heard e evs).filterMap inputIn

omit [FloatArith F32] in
/-- One more event delivers the input that it carries. -/
theorem heardInputs_concat (e : Endpoint) (evs : List (Srv.Event F32)) (ev : Srv.Event F32) :
    heardInputs e (evs ++ [ev]) =
      heardInputs e evs + (((heardBy e ev).bind inputIn).toList : Multiset InputPacket) := by
  unfold heardInputs
  rw [heard_concat, Multiset.filterMap_add]
  congr 1
  cases heardBy e ev with
  | none => rfl
  | some payload =>
    rw [Option.toList_some, Multiset.coe_singleton, Option.bind_some]
    cases h : inputIn payload with
    | none => exact Multiset.filterMap_cons_none _ _ h
    | some ip => exact Multiset.filterMap_cons_some _ _ _ h

/-! ### The part of a client -/

omit [FloatArith F32] in
/-- A packet is sent as its wire bytes. -/
theorem sendBytes_eq (cap : Nat) (p : Packet) (hcap : p.wireLength ≤ cap) :
    sendBytes cap p = p.wire :=
  (p.encode_encodes (fun _ ↦ 0) cap).bytes (by rwa [p.length_wire])

/-- A client since it has taken its id: what it has received, and what it has done. Whatever it
has drained or still has in its queue it has received, in this order. -/
structure Life where
  id : UInt16
  noPrediction : Bool
  noInterpolation : Bool
  accept : List UInt8
  snapshots : List (List UInt8)
  evs : List (Cl.Event F32)
  queue : List (StampedSnapshot F32)
  accepted : acceptedId accept = some id
  received : snapshots.map NetworkReceiver.receive =
    (popped evs ++ queue.map StampedSnapshot.snap).map some

namespace Life

/-- The client at the start of its main loop. -/
def start (l : Life) : Client F32 := .init l.id l.noPrediction l.noInterpolation

/-- The inputs that it has sent. -/
def sent (l : Life) : List InputPacket := l.start.sent l.evs

/-- The state that it has reached. -/
def playing (l : Life) : Playing := ⟨l.start.run l.evs, l.queue, l.sent⟩

/-- What it has sent. -/
def out (l : Life) : Multiset (List UInt8) := joinBytes ::ₘ (l.sent.map inputBytes : List _)

/-- What it has taken from the network. -/
def taken (l : Life) : Multiset (List UInt8) := l.accept ::ₘ (l.snapshots : Multiset _)

/-- The start of the main loop. -/
def begin (id : UInt16) (noPrediction noInterpolation : Bool) (accept : List UInt8)
    (accepted : acceptedId accept = some id) : Life :=
  ⟨id, noPrediction, noInterpolation, accept, [], [], [], accepted, rfl⟩

/-- A snapshot is queued. -/
def receive (l : Life) (wallMs : UInt64) (payload : List UInt8) (snap : Snapshot F32)
    (h : NetworkReceiver.receive payload = some snap) : Life :=
  { l with
    snapshots := l.snapshots ++ [payload]
    queue := l.queue ++ [⟨snap, wallMs⟩]
    received := by
      simp only [List.map_append, l.received, List.map_singleton, h, List.append_assoc] }

/-- The oldest snapshot of the queue is drained. -/
def drain (l : Life) (ss : StampedSnapshot F32) (queue : List (StampedSnapshot F32))
    (hqueue : l.queue = ss :: queue) (nowMs : UInt64)
    (order : UMap.Traversal UInt32 (PendingInputSample F32)) : Life :=
  { l with
    evs := l.evs ++ [.snapshot ss nowMs order]
    queue := queue
    received := by
      rw [l.received, hqueue, popped_append]
      exact congrArg _ (List.append_cons _ _ _) }

/-- Another part of the main loop. -/
def act (l : Life) (ev : Cl.Event F32) (hev : ev.popped = none) : Life :=
  { l with
    evs := l.evs ++ [ev]
    received := by
      have hnone : popped [ev] = [] := List.filterMap_cons_none hev
      rw [l.received, popped_append, hnone, List.append_nil] }

/-- The id stays. -/
theorem myPid_playing (l : Life) : l.playing.client.myPid = l.id :=
  (Client.run_cache l.start l.evs).2

/-- After one more event. -/
theorem concat_eq (l : Life) (ev : Cl.Event F32) (queue : List (StampedSnapshot F32)) :
    (⟨l.start.run (l.evs ++ [ev]), queue, l.start.sent (l.evs ++ [ev])⟩ : Playing) =
      ⟨l.playing.client.step ev, queue, l.sent ++ (l.playing.client.sends ev).toList⟩ := by
  rw [Client.run_concat, Client.sent_concat]
  rfl

/-- An event that sends nothing leaves what has been sent. -/
theorem out_concat (l : Life) (ev : Cl.Event F32) :
    joinBytes ::ₘ ((l.start.sent (l.evs ++ [ev])).map inputBytes : Multiset (List UInt8)) =
      l.out + ((l.playing.client.sends ev).toList.map inputBytes : List _) := by
  rw [Client.sent_concat, List.map_append, ← Multiset.coe_add, ← Multiset.cons_add]
  rfl

/-- The inputs among what it has sent. -/
theorem inputs_out (l : Life) : l.out.filterMap inputIn = (l.sent : Multiset InputPacket) := by
  have hread (ip : InputPacket) : (inputIn ∘ inputBytes) ip = some ip := by
    rw [Function.comp_apply, inputIn, read_inputBytes]
  have hjoin : inputIn joinBytes = none := by
    rw [inputIn, read_joinBytes]
  rw [out, Multiset.filterMap_cons_none _ _ hjoin, Multiset.filterMap_coe, List.filterMap_map]
  exact congrArg _ ((List.filterMap_congr fun ip _ ↦ hread ip).trans List.filterMap_some)

/-- The server hears no input more often than the client has sent it. -/
theorem heardInputs_le (l : Life) {e : Endpoint} {evs : List (Srv.Event F32)}
    (h : heard e evs ≤ l.out) : heardInputs e evs ≤ (l.sent : Multiset InputPacket) :=
  (Multiset.filterMap_le_filterMap _ h).trans_eq l.inputs_out

end Life

/-- What a process has done as a client, has sent to the server and has taken from the
network. -/
inductive Process.Did : Process → List (Cl.Event F32) → Multiset (List UInt8) →
    Multiset (List UInt8) → Prop
  | idle : Did .idle [] 0 0
  | joining (noPrediction noInterpolation : Bool) :
    Did (.joining noPrediction noInterpolation) [] {joinBytes} 0
  | playing (l : Life) : Did (.playing l.playing) l.evs l.out l.taken
  /-- It has given up the handshake, or was offered the id 0. -/
  | refused : Did .done [] {joinBytes} 0
  /-- It has left the main loop. -/
  | left (l : Life) : Did .done l.evs (disconnectBytes l.id ::ₘ l.out) l.taken

namespace Process.Did

variable {pr : Process} {did : List (Cl.Event F32)} {out taken : Multiset (List UInt8)}

/-- A datagram is received: it is ignored, or taken. -/
theorem receive (h : pr.Did did out taken) (wallMs : UInt64) (payload : List UInt8) :
    ∃ taken', (pr.receive wallMs payload).Did did out taken' ∧ taken' ≤ payload ::ₘ taken := by
  have hignored {pr' : Process} (h' : pr'.Did did out taken) :
      ∃ taken', pr'.Did did out taken' ∧ taken' ≤ payload ::ₘ taken :=
    ⟨taken, h', Multiset.le_cons_self taken payload⟩
  cases h with
  | idle => exact hignored .idle
  | refused => exact hignored .refused
  | left l => exact hignored (.left l)
  | joining noPrediction noInterpolation =>
    unfold Process.receive
    dsimp only
    split
    · exact hignored (.joining noPrediction noInterpolation)
    · next id hid =>
      split
      · exact hignored .refused
      · exact ⟨_, .playing (.begin id noPrediction noInterpolation payload hid), le_rfl⟩
  | playing l =>
    unfold Process.receive Life.playing
    dsimp only
    split
    · exact hignored (.playing l)
    · next snap hsnap =>
      refine ⟨_, .playing (l.receive wallMs payload snap hsnap), le_of_eq ?_⟩
      unfold Life.taken Life.receive
      dsimp only
      rw [← Multiset.coe_add, Multiset.coe_singleton, ← Multiset.cons_add, add_comm,
        Multiset.singleton_add]

/-- A client that is playing. -/
theorem of_life (l : Life) {p : Playing} (hp : l.playing = p) (hdid : l.evs = did)
    (hout : l.out = out) (htaken : l.taken = taken) : (Process.playing p).Did did out taken :=
  hp ▸ hdid ▸ hout ▸ htaken ▸ .playing l

/-- The life of a client that is playing. -/
theorem exists_life {p : Playing} (h : (Process.playing p).Did did out taken) :
    ∃ l : Life, l.playing = p ∧ l.evs = did ∧ l.out = out ∧ l.taken = taken := by
  cases h with
  | playing l => exact ⟨l, rfl, rfl, rfl, rfl⟩

/-- A process that has not taken an id has sent a join request at most. -/
theorem out_le (h : pr.Did did out taken) (hp : ∀ p, pr ≠ .playing p) (hdone : pr ≠ .done) :
    out ≤ {joinBytes} := by
  cases h with
  | idle => exact Multiset.zero_le _
  | joining => exact le_rfl
  | playing l => exact absurd rfl (hp _)
  | refused => exact absurd rfl hdone
  | left l => exact absurd rfl hdone

/-- The queue is drained. -/
theorem drain (h : pr.Did did out taken) (nowMs : UInt64)
    (order : UMap.Traversal UInt32 (PendingInputSample F32)) :
    (pr.drain nowMs order).Did (did ++ (pr.drains nowMs order).toList) out taken := by
  cases h with
  | idle => exact .idle
  | refused => exact .refused
  | left l => exact (List.append_nil l.evs).symm ▸ .left l
  | joining noPrediction noInterpolation => exact .joining noPrediction noInterpolation
  | playing l =>
    unfold Process.drain Process.drains
    dsimp only
    split
    · next hqueue =>
      rw [hqueue]
      exact (List.append_nil l.evs).symm ▸ .playing l
    · next ss queue hqueue =>
      rw [hqueue]
      refine of_life (l.drain ss queue hqueue nowMs order) ((l.concat_eq _ queue).trans ?_) rfl
        ((l.out_concat _).trans (add_zero _)) rfl
      exact congrArg (Playing.mk _ queue) (List.append_nil _)

/-- The other parts of the main loop. -/
theorem act (h : pr.Did did out taken) (ev : Cl.Event F32) :
    (pr.act ev).Did (did ++ (pr.acts ev).toList) out taken := by
  cases h with
  | idle => exact .idle
  | refused => exact .refused
  | left l => exact (List.append_nil l.evs).symm ▸ .left l
  | joining noPrediction noInterpolation => exact .joining noPrediction noInterpolation
  | playing l =>
    have hact (ev : Cl.Event F32) (hev : ev.popped = none)
        (hsends : l.playing.client.sends ev = none) :
        (Process.playing { l.playing with client := l.playing.client.step ev }).Did
          (l.evs ++ [ev]) l.out l.taken := by
      have heq := l.concat_eq ev l.queue
      have hout := l.out_concat ev
      rw [hsends] at heq hout
      refine of_life (l.act ev hev) (heq.trans ?_) rfl (hout.trans (add_zero _)) rfl
      exact congrArg (Playing.mk _ l.queue) (List.append_nil _)
    cases ev with
    | togglePrediction => exact hact .togglePrediction rfl rfl
    | prune nowMs order => exact hact (.prune nowMs order) rfl rfl
    | snapshot => exact (List.append_nil l.evs).symm ▸ .playing l
    | input => exact (List.append_nil l.evs).symm ▸ .playing l

/-- An input is sent. -/
theorem input {p : Playing} (h : (Process.playing p).Did did out taken) (mx my : Int8)
    (dt : Double F32) (nowMs : UInt64) (order : UMap.Traversal UInt32 (PendingInputSample F32)) :
    let sent := p.client.sendInput mx my dt nowMs order
    (Process.playing ⟨sent.1, p.queue, p.sent ++ [sent.2]⟩).Did
      (did ++ [.input mx my dt nowMs order]) (out + ([inputBytes sent.2] : List _)) taken := by
  cases h with
  | playing l =>
    exact of_life (l.act (.input mx my dt nowMs order) rfl) (l.concat_eq _ l.queue) rfl
      (l.out_concat _) rfl

/-- The main loop is left. -/
theorem quit {p : Playing} (h : (Process.playing p).Did did out taken) :
    Process.done.Did did (out + ([disconnectBytes p.client.myPid] : List _)) taken := by
  cases h with
  | playing l =>
    rw [l.myPid_playing, add_comm]
    exact .left l

/-- Nothing that a process sends is longer than what the server reads. -/
theorem length_le (h : pr.Did did out taken) :
    ∀ payload ∈ out, payload.length ≤ maxPacketBytes := by
  have hlen {payload : List UInt8} {p : Packet} (hp : p.Bounded) (heq : payload = p.wire) :
      payload.length ≤ maxPacketBytes := by
    rw [heq]
    exact (p.length_wire_le hp).trans (by decide)
  have hjoin : ∀ payload ∈ ({joinBytes} : Multiset (List UInt8)),
      payload.length ≤ maxPacketBytes := fun payload hmem ↦ by
    rw [Multiset.mem_singleton.mp hmem]
    exact hlen (p := .joinRequest ⟨protocolVersion⟩) trivial (sendBytes_eq _ _ (by decide))
  have hout (l : Life) : ∀ payload ∈ l.out, payload.length ≤ maxPacketBytes := fun payload hmem ↦ by
    rcases Multiset.mem_cons.mp hmem with rfl | hsent
    · exact hjoin _ (Multiset.mem_singleton_self _)
    · obtain ⟨ip, _, rfl⟩ := List.mem_map.mp (Multiset.mem_coe.mp hsent)
      exact hlen (p := .input ip) trivial (sendBytes_eq _ _ (by change 9 ≤ 32; decide))
  cases h with
  | idle => exact fun _ hmem ↦ absurd hmem (Multiset.notMem_zero _)
  | joining => exact hjoin
  | refused => exact hjoin
  | playing l => exact hout l
  | left l =>
    intro payload hmem
    rcases Multiset.mem_cons.mp hmem with rfl | hsent
    · exact hlen (p := .disconnect ⟨l.id⟩) trivial (sendBytes_eq _ _ (by change 3 ≤ 8; decide))
    · exact hout l payload hsent

end Process.Did

/-! ### The parts fit together -/

namespace System

/-- The part of an endpoint fits a history of the server: what the server has heard from it and
what is in flight it has sent, and what it has taken and what is in flight the server has
sent. -/
def Fits (s : System) (evs : List (Srv.Event F32)) (did : List (Cl.Event F32)) (e : Endpoint) :
    Prop :=
  ∃ out taken, (s.process e).Did did out taken ∧ heard e evs + payloads e s.toServer ≤ out ∧
    taken + payloads e s.toClients ≤ told e evs

/-- The history leads to the state of the server, and the parts of all endpoints fit it. -/
def Splits (s : System) (evs : List (Srv.Event F32)) (did : Endpoint → List (Cl.Event F32)) :
    Prop :=
  s.server = ValidServer.reached evs ∧ ∀ e, s.Fits evs (did e) e

variable {s : System} {evs : List (Srv.Event F32)} {did : Endpoint → List (Cl.Event F32)}

/-- Datagrams are lost. -/
theorem Splits.lose (h : s.Splits evs did) {toServer toClients : Multiset Datagram}
    (hup : ∀ e, payloads e toServer ≤ payloads e s.toServer)
    (hdown : ∀ e, payloads e toClients ≤ payloads e s.toClients) :
    ({ s with toServer := toServer, toClients := toClients } : System).Splits evs did := by
  refine ⟨h.1, fun e ↦ ?_⟩
  obtain ⟨out, taken, hdid, hheard, htold⟩ := h.2 e
  exact ⟨out, taken, hdid, (add_le_add le_rfl (hup e)).trans hheard,
    (add_le_add le_rfl (hdown e)).trans htold⟩

/-- A process changes and sends. -/
theorem Splits.become (h : s.Splits evs did) (src : Endpoint) (pr : Process)
    (ev : Option (Cl.Event F32)) (sends : List (List UInt8))
    (hpr : ∀ did out taken, (s.process src).Did did out taken →
      pr.Did (did ++ ev.toList) (out + (sends : Multiset (List UInt8))) taken) :
    (s.become src pr sends).Splits evs fun e ↦
      did e ++ (if src = e then ev else none).toList := by
  refine ⟨h.1, fun e ↦ ?_⟩
  obtain ⟨out, taken, hdid, hheard, htold⟩ := h.2 e
  unfold Fits System.become
  dsimp only
  rw [payloads_add, payloads_sends, Function.update_apply, ← add_assoc]
  by_cases he : src = e
  · rw [if_pos he.symm, if_pos he, if_pos he]
    exact ⟨_, taken, hpr _ out taken (he ▸ hdid), add_le_add hheard le_rfl, htold⟩
  · rw [if_neg (Ne.symm he), if_neg he, if_neg he, add_zero, Option.toList_none, List.append_nil]
    exact ⟨out, taken, hdid, hheard, htold⟩

/-- A process changes and sends before or after its main loop. -/
theorem Splits.become_outside (h : s.Splits evs did) (src : Endpoint) (pr : Process)
    (sends : List (List UInt8)) (hpr : ∀ did out taken, (s.process src).Did did out taken →
      pr.Did did (out + (sends : Multiset (List UInt8))) taken) :
    (s.become src pr sends).Splits evs did := by
  have hbecome := h.become src pr none sends fun did out taken hdid ↦
    (List.append_nil did).symm ▸ hpr did out taken hdid
  simpa only [ite_self, Option.toList_none, List.append_nil] using hbecome

/-- The server handles an event: a tick, or a datagram taken out of flight. -/
theorem Splits.serve (h : s.Splits evs did) (ev : Srv.Event F32) {toServer : Multiset Datagram}
    (hup : ∀ e, ((heardBy e ev).toList : Multiset (List UInt8)) + payloads e toServer ≤
      payloads e s.toServer) :
    (({ s with toServer := toServer } : System).serve ev).Splits (evs ++ [ev]) did := by
  obtain ⟨hserver, hfits⟩ := h
  refine ⟨?_, fun e ↦ ?_⟩
  · rw [ValidServer.reached_concat, ← hserver]
    rfl
  · obtain ⟨out, taken, hdid, hheard, htold⟩ := hfits e
    refine ⟨out, taken, hdid, ?_, ?_⟩
    · rw [heard_concat, add_assoc]
      exact (add_le_add le_rfl (hup e)).trans hheard
    · change taken + payloads e (s.toClients + _) ≤ _
      rw [payloads_add, ← add_assoc, told_concat, hserver]
      exact add_le_add htold le_rfl

/-- A datagram reaches a process. -/
theorem Splits.receive (h : s.Splits evs did) {d : Datagram} (hd : d ∈ s.toClients)
    (wallMs : UInt64) :
    (({ s with toClients := s.toClients.erase d } : System).become d.endpoint
      ((s.process d.endpoint).receive wallMs d.payload) []).Splits evs did := by
  refine ⟨h.1, fun e ↦ ?_⟩
  obtain ⟨out, taken, hdid, hheard, htold⟩ := h.2 e
  unfold Fits System.become
  dsimp only
  rw [payloads_add, payloads_sends, Function.update_apply]
  split
  · next he =>
    subst he
    obtain ⟨taken', hdid', hle⟩ := hdid.receive wallMs d.payload
    refine ⟨out, taken', hdid', by simpa using hheard, ?_⟩
    rw [payloads_erase d _ hd, Multiset.add_cons, ← Multiset.cons_add] at htold
    exact (add_le_add hle le_rfl).trans htold
  · refine ⟨out, taken, hdid, by simpa using hheard, ?_⟩
    exact (add_le_add le_rfl (payloads_erase_le e d _)).trans htold

/-- An action extends the history by what it serves and the events of the clients by what it
does, and the parts fit them. -/
theorem Splits.step (h : s.Splits evs did) (a : Action) :
    (s.step a).Splits (evs ++ (s.serves a).toList) fun e ↦ did e ++ (s.does e a).toList := by
  have hserved {s' : System} {did' : Endpoint → List (Cl.Event F32)} (h' : s'.Splits evs did') :
      s'.Splits (evs ++ []) did' := (List.append_nil evs).symm ▸ h'
  have hidle {s' : System} {evs' : List (Srv.Event F32)} (h' : s'.Splits evs' did) :
      s'.Splits evs' fun e ↦ did e ++ [] := by
    simpa only [List.append_nil] using h'
  have hstay {s' : System} (h' : s'.Splits evs did) :
      s'.Splits (evs ++ []) fun e ↦ did e ++ [] := hserved (hidle h')
  cases a with
  | start e noPrediction noInterpolation =>
    unfold System.step
    dsimp only
    split
    · next hidle =>
      refine hstay (h.become_outside e _ _ fun did out taken hdid ↦ ?_)
      rw [hidle] at hdid
      cases hdid
      exact .joining noPrediction noInterpolation
    · exact hstay h
  | giveUp e =>
    unfold System.step
    dsimp only
    split
    · next hjoining =>
      refine hstay (h.become_outside e _ _ fun did out taken hdid ↦ ?_)
      rw [hjoining] at hdid
      cases hdid
      exact .refused
    · exact hstay h
  | drain e nowMs order =>
    refine hserved (h.become e _ _ _ fun did out taken hdid ↦ ?_)
    rw [Multiset.coe_nil, add_zero]
    exact hdid.drain nowMs order
  | act e ev =>
    refine hserved (h.become e _ _ _ fun did out taken hdid ↦ ?_)
    rw [Multiset.coe_nil, add_zero]
    exact hdid.act ev
  | input e mx my dt nowMs order =>
    unfold System.step does
    dsimp only
    cases hp : s.process e with
    | playing p =>
      exact hserved (h.become e _ (some _) _ fun _ _ _ hdid ↦
        (hp ▸ hdid).input mx my dt nowMs order)
    | _ =>
      refine hserved ?_
      simpa only [Process.inputs, ite_self, Option.toList_none] using hidle h
  | quit e =>
    unfold System.step
    dsimp only
    split
    · next p hp => exact hstay (h.become_outside e _ _ fun _ _ _ hdid ↦ (hp ▸ hdid).quit)
    · exact hstay h
  | deliver d now =>
    unfold System.step serves
    dsimp only
    split
    · next hd =>
      refine hidle (h.serve (.datagram now d.endpoint d.payload) fun e ↦ ?_)
      change ((if d.endpoint = e then some d.payload else none).toList :
        Multiset (List UInt8)) + _ ≤ _
      split
      · next he =>
        subst he
        rw [payloads_erase d _ hd]
        exact le_of_eq (Multiset.singleton_add _ _)
      · exact (zero_add _).trans_le (payloads_erase_le e d _)
    · exact hstay h
  | receive d wallMs =>
    unfold System.step
    dsimp only
    split
    · next hd => exact hstay (h.receive hd wallMs)
    · exact hstay h
  | loseToServer d => exact hstay (h.lose (fun e ↦ payloads_erase_le e d _) fun _ ↦ le_rfl)
  | loseToClient d => exact hstay (h.lose (fun _ ↦ le_rfl) fun e ↦ payloads_erase_le e d _)
  | tick now order => exact hidle (h.serve (.tick now order) fun _ ↦ (zero_add _).le)

/-- A system that has not started. -/
theorem splits_init : init.Splits [] fun _ ↦ [] :=
  ⟨rfl, fun e ↦ ⟨0, 0, .idle, (zero_add (payloads e 0)).le, (zero_add (payloads e 0)).le⟩⟩

/-- A run extends the history by what it serves and the events of the clients by what it does,
and the parts fit them. -/
theorem Splits.run (h : s.Splits evs did) (as : List Action) :
    (s.run as).Splits (evs ++ s.history as) fun e ↦ did e ++ s.doings e as := by
  induction as generalizing s evs did with
  | nil =>
    have hnil : s.Splits (evs ++ []) fun e ↦ did e ++ [] := by
      simpa only [List.append_nil] using h
    exact hnil
  | cons a as ih =>
    have hrest := ih (h.step a)
    simp only [List.append_assoc] at hrest
    exact hrest

/-- Every run splits. -/
theorem splits_reached (as : List Action) :
    (init.run as).Splits (init.history as) fun e ↦ init.doings e as :=
  splits_init.run as

/-- The server reads the datagrams of the history whole. -/
theorem Splits.map_cut (h : s.Splits evs did) : evs.map cut = evs := by
  refine (List.map_congr_left fun ev hev ↦ ?_).trans (List.map_id evs)
  cases ev with
  | tick now order => rfl
  | datagram now src payload =>
    obtain ⟨out, taken, hdid, hheard, _⟩ := h.2 src
    have hmem : payload ∈ heard src evs := List.mem_filterMap.mpr ⟨_, hev, if_pos rfl⟩
    have hlen := hdid.length_le payload
      (Multiset.mem_of_le ((Multiset.le_add_right _ _).trans hheard) hmem)
    rw [cut, List.take_of_length_le hlen]
    rfl

end System

/-! ### Behind conditioners -/

namespace Conditioned

variable {D : Type} [FloatOps D] {Q : PriorityQueue Pending Pending.deliverAtUs}

/-- Every run is matched by one without conditioners with the same history, whose parts fit
it. -/
theorem exists_splits (serverEp : Endpoint) (cfg : Endpoint → LaggedSocketConfig D)
    (serverCfg : LaggedSocketConfig D) (as : List (Action D)) :
    let c : Conditioned D Q := init serverEp cfg serverCfg
    ∃ acts : List Net.Action, Refines (c.run as) (System.init.run acts) ∧
      c.history as = System.init.history acts ∧
        (System.init.run acts).Splits (c.history as) fun e ↦ c.doings e as := by
  intro c
  obtain ⟨acts, h, hhistory, hdoings⟩ := (refines_init (Q := Q) serverEp cfg serverCfg).run as
  have hsplits := System.splits_reached acts
  rw [hsplits.map_cut] at hhistory
  refine ⟨acts, h, hhistory, ?_⟩
  rw [show c.history as = _ from hhistory, show (fun e ↦ c.doings e as) = _ from funext hdoings]
  exact hsplits

/-- In every run of the server, its clients and their conditioners, the server is in the state
that it reaches alone with the events that it has handled, and every client is in the state that
a client reaches alone with the events of its main loop. The server has handled no datagram more
often than the process at its endpoint has sent it, and a process has taken no datagram more
often than the server has sent it there. -/
theorem splits_run (serverEp : Endpoint) (cfg : Endpoint → LaggedSocketConfig D)
    (serverCfg : LaggedSocketConfig D) (as : List (Action D)) :
    let start : Conditioned D Q := init serverEp cfg serverCfg
    (start.run as).server = ValidServer.reached (start.history as) ∧
      ∀ e, ∃ out taken, ((start.run as).process e).Did (start.doings e as) out taken ∧
        heard e (start.history as) ≤ out ∧ taken ≤ told e (start.history as) := by
  intro start
  obtain ⟨acts, h, _, hserver, hfits⟩ := exists_splits (Q := Q) serverEp cfg serverCfg as
  refine ⟨h.server.trans hserver, fun e ↦ ?_⟩
  obtain ⟨out, taken, hdid, hheard, htold⟩ := hfits e
  exact ⟨out, taken, h.process ▸ hdid, (Multiset.le_add_right _ _).trans hheard,
    (Multiset.le_add_right _ _).trans htold⟩

end Conditioned

end
end LightningLink.Net
