import LightningLink.Client.Correction
import LightningLink.Client.Loop
import LightningLink.Client.Rendering
import LightningLink.Network.Projection

/-!
# Where the data of a client comes from

Library `Network`. The history of the server is the list of datagrams and ticks that it has
handled. Every packet on its way to a client, in its hands or in its queue is, bit for bit,
one that the server has sent to it in this history. The client plays with an id that the
server has given it, and stores and samples nothing but records of snapshots that it was sent.
Its position is where inputs that it has recorded itself lead from one of its own records, or
from the start.
-/

namespace LightningLink

open Support Proto FloatArith

/-! ### The server -/

namespace Srv

section

variable [FloatArith F32]

/-- A snapshot that the server broadcasts in a history: the world after one of its ticks. -/
def Broadcasts (evs : List (Event F32)) (snap : Snapshot F32) : Prop :=
  ∃ past now order rest, evs = past ++ .tick now order :: rest ∧
    let s := (ValidServer.reached (past ++ [.tick now order]) : ValidServer F32).server
    s.world.tick.toNat % ticksPerSnapshot = 0 ∧ snap = s.tickSnapshot order

/-- A packet that the server sends to an endpoint in a history. -/
def Sends (evs : List (Event F32)) (e : Endpoint) (p : Packet) : Prop :=
  ∃ past ev rest, evs = past ++ ev :: rest ∧
    ∃ d ∈ ((ValidServer.reached past : ValidServer F32).server.handle ev).2,
      d.endpoint = e ∧ Packet.read d.payload = some p

/-- A longer history has more packets. -/
theorem Sends.append {evs : List (Event F32)} {e : Endpoint} {p : Packet} (h : Sends evs e p)
    (more : List (Event F32)) : Sends (evs ++ more) e p := by
  obtain ⟨past, ev, rest, rfl, hd⟩ := h
  exact ⟨past, ev, rest ++ more, by rw [List.append_assoc, List.cons_append], hd⟩

/-- What the server sends is a snapshot of a broadcast or the answer to a join. -/
theorem Sends.cases {evs : List (Event F32)} {e : Endpoint} {p : Packet} (h : Sends evs e p) :
    (∃ snap, p = .snapshot snap ∧ Broadcasts evs snap) ∨
      ∃ past ev rest ja, evs = past ++ ev :: rest ∧ p = .joinAccept ja ∧ ev.Joins e ∧
        ((ValidServer.reached past : ValidServer F32).server.handle ev).2 =
          Server.joinAnswer F32 e ja.playerId := by
  obtain ⟨past, ev, rest, rfl, d, hd, rfl, hr⟩ := h
  let v : ValidServer F32 := ValidServer.reached past
  cases ev with
  | datagram now src bytes =>
    rcases v.server.sends_of_datagram now src bytes with hnone | ⟨hjoins, id, hjoin⟩
    · rw [hnone] at hd
      cases hd
    · obtain ⟨out, _, _, hans, hread⟩ := (answers_joinAnswer src id id).mpr rfl
      have hmem := hd
      rw [hjoin, hans] at hmem
      obtain rfl := List.mem_singleton.mp hmem
      obtain rfl := Option.some.inj (hread.symm.trans hr)
      exact Or.inr ⟨past, _, rest, _, rfl, rfl, hjoins, hjoin⟩
  | tick now order =>
    have hsnap := (v.wf.of_mem_tick now order hd).1
    rw [snapshotOf_eq_some_iff_read] at hsnap
    refine Or.inl ⟨_, Option.some.inj (hr.symm.trans hsnap), past, now, order, rest, rfl, ?_, ?_⟩
    · rw [ValidServer.reached_concat]
      by_contra hb
      have hnil := v.server.tick_of_not_broadcast now order hb
      change d ∈ (v.server.tickAndMaybeBroadcast now order).2 at hd
      rw [hnil] at hd
      cases hd
    · rw [ValidServer.reached_concat]
      rfl

/-- A snapshot that the server sends is broadcast. -/
theorem Sends.broadcasts {evs : List (Event F32)} {e : Endpoint} {snap : Snapshot F32}
    (h : Sends evs e (.snapshot snap)) : Broadcasts evs snap := by
  rcases h.cases with ⟨snap', heq, hb⟩ | ⟨_, _, _, _, _, heq, _⟩
  · exact Packet.snapshot.inj heq ▸ hb
  · cases heq

end
end Srv

/-! ### A client -/

namespace Cl

section

variable {F : Type} [FloatArith F]

/-- A position that a client can show: where inputs that it has recorded, in their order, lead
from the position of a record of its own player or from the start. -/
def Placed (P : Snapshot F → Prop) (myPid : UInt16) (inputs : List (PredictedInput F))
    (pos : Vec2 F) : Prop :=
  ∃ (origin : Vec2 F) (moves : List (PredictedInput F)), moves.Sublist inputs ∧
    pos = moves.foldl PredictedInput.move origin ∧ (origin = initialPos ∨
      ∃ snap, P snap ∧ ∃ ps ∈ snap.players, ps.id = myPid ∧ ps.pos = origin)

/-- A sample is that of a record of another player. -/
def Interpolator.Sourced (P : Snapshot F → Prop) (myPid : UInt16) (i : Interpolator F) : Prop :=
  ∀ id dq, i.histories.find? id = some dq → ∀ x ∈ dq,
    id ≠ myPid ∧ ∃ snap, P snap ∧ ∃ ps ∈ snap.players, ps.id = id ∧ x.pos = ps.pos ∧ x.vel = ps.vel

/-- What a client has comes from snapshots with a property and from the inputs that it has
recorded. -/
structure Client.Sourced (P : Snapshot F → Prop) (inputs : List (PredictedInput F))
    (c : Client F) : Prop where
  localPos : Placed P c.myPid inputs c.localPos
  ring : c.predictor.ring.toList.Sublist inputs
  pending : ∀ seq x, c.pending.find? seq = some x → Placed P c.myPid inputs x.predictedPos
  stored : ∀ id ps, c.latestAuthoritative.find? id = some ps →
    ps.id = id ∧ ∃ snap, P snap ∧ ps ∈ snap.players
  samples : c.interp.Sourced P c.myPid

namespace Placed

variable {P : Snapshot F → Prop} {myPid : UInt16} {inputs : List (PredictedInput F)} {pos : Vec2 F}

/-- More inputs take nothing back. -/
theorem append (h : Placed P myPid inputs pos) (more : List (PredictedInput F)) :
    Placed P myPid (inputs ++ more) pos := by
  obtain ⟨origin, moves, hmoves, hpos⟩ := h
  exact ⟨origin, moves, hmoves.trans (List.sublist_append_left _ _), hpos⟩

/-- A recorded input moves on. -/
theorem move (h : Placed P myPid inputs pos) (pi : PredictedInput F) :
    Placed P myPid (inputs ++ [pi]) (pi.move pos) := by
  obtain ⟨origin, moves, hmoves, rfl, horigin⟩ := h
  exact ⟨origin, moves ++ [pi], hmoves.append (.refl _), List.foldl_concat .. |>.symm, horigin⟩

/-- The position of a record, without a move. -/
theorem of_record {snap : Snapshot F} (hsnap : P snap) {ps : PlayerState F}
    (hps : ps ∈ snap.players) (hid : ps.id = myPid) : Placed P myPid inputs ps.pos :=
  ⟨ps.pos, [], List.nil_sublist _, rfl, Or.inr ⟨snap, hsnap, ps, hps, hid, rfl⟩⟩

/-- Replaying the inputs of the ring on top of a record. -/
theorem reconcile {p : Predictor F} {auth : PlayerState F} {snap : Snapshot F} (hsnap : P snap)
    (hmem : auth ∈ snap.players) (hid : auth.id = myPid) (hring : p.ring.toList.Sublist inputs) :
    Placed P myPid inputs (p.reconcile auth) := by
  refine ⟨auth.pos, p.ring.toList.filter fun pi ↦ auth.lastProcessedInputSeq < pi.seq,
    List.filter_sublist.trans hring, ?_, Or.inr ⟨snap, hsnap, auth, hmem, hid, rfl⟩⟩
  rw [Predictor.reconcile_eq, List.foldl_filter]
  simp only [decide_eq_true_eq]
  rfl

end Placed

namespace Interpolator.Sourced

variable {P : Snapshot F → Prop} {myPid : UInt16} {i : Interpolator F}

omit [FloatArith F] in
/-- A record of another player is ingested. -/
theorem ingest (h : i.Sourced P myPid) {snap : Snapshot F} (hsnap : P snap) {ps : PlayerState F}
    (hps : ps ∈ snap.players) (hne : ps.id ≠ myPid) (recvWallMs : UInt64) :
    (i.ingest ps.id ⟨ps.pos, ps.vel, recvWallMs⟩).Sourced P myPid := by
  intro id dq hdq x hx
  unfold Interpolator.ingest at hdq
  rw [UMap.find?_assign] at hdq
  split at hdq
  · next hid =>
    obtain rfl := Option.some.inj hdq
    rcases List.mem_append.mp (List.mem_of_mem_drop hx) with hx | hx
    · cases hold : i.histories.find? ps.id with
      | none =>
        rw [hold] at hx
        cases hx
      | some old =>
        rw [hold] at hx
        exact hid ▸ h ps.id old hold x hx
    · rw [List.mem_singleton.mp hx]
      exact ⟨hid ▸ hne, snap, hsnap, ps, hps, hid.symm, rfl, rfl⟩
  · exact h id dq hdq x hx

omit [FloatArith F] in
/-- Pruning adds no sample. -/
theorem prune (h : i.Sourced P myPid) (nowMs : UInt64)
    (order : UMap.Traversal UInt16 (List (InterpSample F))) :
    (i.prune nowMs order).Sourced P myPid := by
  intro id dq hdq
  rw [i.find?_prune] at hdq
  exact h id dq (Option.filter_eq_some_iff.mp hdq).1

end Interpolator.Sourced

namespace Client

variable {P : Snapshot F → Prop} {inputs : List (PredictedInput F)} {c : Client F}

/-- A client that has just taken its id. -/
theorem sourced_init (P : Snapshot F → Prop) (myPid : UInt16)
    (noPrediction noInterpolation : Bool) :
    (init myPid noPrediction noInterpolation : Client F).Sourced P [] where
  localPos := ⟨initialPos, [], .refl _, rfl, Or.inl rfl⟩
  ring := .refl []
  pending seq x h := by
    change (UMap.empty : UMap UInt32 (PendingInputSample F)).find? seq = some x at h
    rw [UMap.find?_empty] at h
    cases h
  stored id ps h := by
    change (UMap.empty : UMap UInt16 (PlayerState F)).find? id = some ps at h
    rw [UMap.find?_empty] at h
    cases h
  samples id dq h := by
    change (UMap.empty : UMap UInt16 (List (InterpSample F))).find? id = some dq at h
    rw [UMap.find?_empty] at h
    cases h

namespace Sourced

/-- A snapshot is stored. -/
theorem store (h : c.Sourced P inputs) {ss : StampedSnapshot F} (hs : P ss.snap) :
    (c.store ss).Sourced P inputs where
  localPos := h.localPos
  ring := h.ring
  pending := h.pending
  stored id ps hps := by
    change (ss.snap.players.foldl (fun m ps ↦ m.assign ps.id ps)
      c.latestAuthoritative).find? id = some ps at hps
    rw [UMap.find?_foldl_assign PlayerState.id] at hps
    rcases Option.or_eq_some_iff.mp hps with hlast | ⟨_, hold⟩
    · obtain ⟨hmem, hid⟩ := List.mem_filter.mp (List.mem_of_getLast? hlast)
      exact ⟨of_decide_eq_true hid, ss.snap, hs, hmem⟩
    · exact h.stored id ps hold
  samples := by
    change (ingestOthers c.myPid ss.recvWallMs ss.snap.players c.interp).Sourced P c.myPid
    unfold ingestOthers
    apply List.foldlRecOn (motive := fun i : Interpolator F ↦ i.Sourced P c.myPid)
    · exact h.samples
    · intro i hi ps hps
      split
      · next hne => exact hi.ingest hs hps hne ss.recvWallMs
      · exact hi

/-- A snapshot is drained. -/
theorem drain (h : c.Sourced P inputs) {ss : StampedSnapshot F} (hs : P ss.snap)
    (nowMs : UInt64) (order : UMap.Traversal UInt32 (PendingInputSample F)) :
    (c.step (.snapshot ss nowMs order)).Sourced P inputs := by
  have hstore := h.store hs
  obtain ⟨hmyPid, hpredictor⟩ := drainSnapshot_frame ss nowMs order c
  obtain ⟨_, _, hlatest, hinterp⟩ := drainSnapshot_stores ss nowMs order c
  refine ⟨?_, hpredictor ▸ h.ring, fun seq x hx ↦ ?_, hlatest ▸ hstore.stored,
    hinterp ▸ hmyPid ▸ hstore.samples⟩
  · change Placed P (c.drainSnapshot ss nowMs order).myPid inputs
      (c.drainSnapshot ss nowMs order).localPos
    rw [hmyPid, drainSnapshot_eq]
    split
    · exact h.localPos
    · next auth hauth =>
      obtain ⟨err, delay, log, pending, heq⟩ := (c.store ss).reconcileLocal_frame auth nowMs order
      obtain ⟨hid, snap, hsnap, hmem⟩ := hstore.stored _ auth hauth
      rw [heq]
      dsimp only
      split
      · exact .reconcile hsnap hmem hid h.ring
      · exact .of_record hsnap hmem hid
  · change Placed P (c.drainSnapshot ss nowMs order).myPid inputs x.predictedPos
    rw [hmyPid]
    exact h.pending seq x (find?_step (fun _ _ _ _ _ heq ↦ by cases heq) hx)

/-- An input is sent. -/
theorem input (h : c.Sourced P inputs) (mx my : Int8) (dt : Double F) (nowMs : UInt64)
    (order : UMap.Traversal UInt32 (PendingInputSample F)) :
    (c.step (.input mx my dt nowMs order)).Sourced P
      (inputs ++ (c.record (.input mx my dt nowMs order)).toList) := by
  let sent := (c.sendInput mx my dt nowMs order).1
  obtain ⟨hlatest, hinterp⟩ := sendInput_stores mx my dt nowMs order c
  obtain ⟨_, hmyPid, _⟩ := c.sendInput_spec mx my dt nowMs order
  have hrecord : ∃ pi, c.record (.input mx my dt nowMs order) = some pi ∧
      sent.predictor.ring = c.predictor.ring.push pi ∧
      (sent.localPos = pi.move c.localPos ∨ sent.localPos = c.localPos) ∧
      sent.pending = boundPending nowMs order
        (c.pending.assign c.predictor.nextSeq ⟨c.predictor.nextSeq, nowMs, sent.localPos⟩) := by
    change ∃ pi, c.record _ = some pi ∧ (c.sendInput mx my dt nowMs order).1.predictor.ring = _ ∧
      ((c.sendInput mx my dt nowMs order).1.localPos = _ ∨
        (c.sendInput mx my dt nowMs order).1.localPos = _) ∧
      (c.sendInput mx my dt nowMs order).1.pending = boundPending nowMs order
        (c.pending.assign _ ⟨_, nowMs, (c.sendInput mx my dt nowMs order).1.localPos⟩)
    unfold sendInput record
    dsimp only
    cases c.predictionEnabled with
    | true => exact ⟨_, rfl, rfl, Or.inl rfl, rfl⟩
    | false => exact ⟨_, rfl, rfl, Or.inr rfl, rfl⟩
  obtain ⟨pi, hpi, hring, hpos, hpending⟩ := hrecord
  rw [hpi, Option.toList_some]
  have hplaced : Placed P c.myPid (inputs ++ [pi]) sent.localPos := by
    rcases hpos with hpos | hpos
    · exact hpos ▸ h.localPos.move pi
    · exact hpos ▸ h.localPos.append [pi]
  refine ⟨hmyPid ▸ hplaced, ?_, fun seq x hx ↦ ?_, hlatest ▸ h.stored,
    hinterp ▸ hmyPid ▸ h.samples⟩
  · change sent.predictor.ring.toList.Sublist _
    rw [hring, Ring.toList_push]
    exact (List.drop_sublist _ _).trans (h.ring.append (.refl _))
  · change sent.pending.find? seq = some x at hx
    change Placed P sent.myPid _ _
    rw [hpending] at hx
    have hassign := find?_boundPending_subset hx
    rw [UMap.find?_assign] at hassign
    rw [show sent.myPid = c.myPid from hmyPid]
    split at hassign
    · obtain rfl := Option.some.inj hassign
      exact hplaced
    · exact (h.pending seq x hassign).append [pi]

/-- An event adds what it records. -/
theorem step (h : c.Sourced P inputs) (ev : Event F)
    (hev : ∀ snap, ev.popped = some snap → P snap) :
    (c.step ev).Sourced P (inputs ++ (c.record ev).toList) := by
  cases ev with
  | togglePrediction =>
    exact (List.append_nil inputs).symm ▸
      ⟨h.localPos, h.ring, h.pending, h.stored, h.samples⟩
  | prune nowMs order =>
    exact (List.append_nil inputs).symm ▸
      ⟨h.localPos, h.ring, h.pending, h.stored, h.samples.prune nowMs order⟩
  | snapshot ss nowMs order =>
    exact (List.append_nil inputs).symm ▸ h.drain (hev ss.snap rfl) nowMs order
  | input mx my dt nowMs order => exact h.input mx my dt nowMs order

end Sourced

/-- In every run, what a client has comes from the snapshots that it has popped and from the
inputs that it has recorded. -/
theorem sourced_reached (myPid : UInt16) (noPrediction noInterpolation : Bool)
    (evs : List (Event F)) (hpopped : ∀ snap ∈ popped evs, P snap) :
    let start : Client F := init myPid noPrediction noInterpolation
    (start.run evs).Sourced P (start.recorded evs) := by
  intro start
  induction evs using List.reverseRecOn with
  | nil => exact sourced_init P myPid noPrediction noInterpolation
  | append_singleton evs ev ih =>
    rw [popped_append] at hpopped
    rw [run_concat, recorded_concat]
    refine (ih fun snap hs ↦ hpopped snap (List.mem_append_left _ hs)).step ev fun snap hs ↦ ?_
    exact hpopped snap (List.mem_append_right _ (List.mem_filterMap.mpr
      ⟨ev, List.mem_singleton_self ev, hs⟩))

end Client
end
end Cl

/-! ### The system -/

namespace Net

open Srv Cl

section

variable [FloatArith F32]

/-- A client in its main loop plays with an id from a packet with a property. It is in the state
to which its events lead, and what it has comes from such packets and from the inputs that it has
recorded with these events; its queue comes from such packets. -/
def Process.Sourced (P : Packet → Prop) (did : List (Cl.Event F32)) : Process → Prop
  | .playing p =>
    (∃ ja, P (.joinAccept ja) ∧ ja.playerId = p.client.myPid) ∧
      (∃ noPrediction noInterpolation,
        let start : Client F32 := .init p.client.myPid noPrediction noInterpolation
        p.client = start.run did ∧
          p.client.Sourced (fun snap ↦ P (.snapshot snap)) (start.recorded did)) ∧
      ∀ ss ∈ p.queue, P (.snapshot ss.snap)
  | _ => True

/-- A client that is sourced has such records. -/
theorem Process.Sourced.exists_sourced {P : Packet → Prop} {did : List (Cl.Event F32)} {p : Playing}
    (h : (Process.playing p).Sourced P did) :
    ∃ inputs, p.client.Sourced (fun snap ↦ P (.snapshot snap)) inputs := by
  obtain ⟨_, ⟨_, _, _, hclient⟩, _⟩ := h
  exact ⟨_, hclient⟩

/-- Every packet in flight to a client has a property, and what it has comes from such ones. -/
structure System.Sourced (P : Endpoint → Packet → Prop) (did : Endpoint → List (Cl.Event F32))
    (s : System) : Prop where
  flight : ∀ d ∈ s.toClients, ∀ p, Packet.read d.payload = some p → P d.endpoint p
  process : ∀ e, (s.process e).Sourced (P e) (did e)

/-- A payload that the server has sent carries a packet that it has sent. -/
theorem sends_of_mem_told {e : Endpoint} {evs : List (Srv.Event F32)} {payload : List UInt8}
    (h : payload ∈ told e evs) {p : Packet} (hp : Packet.read payload = some p) :
    Sends evs e p := by
  induction evs using List.reverseRecOn with
  | nil => cases h
  | append_singleton evs ev ih =>
    rw [told_concat] at h
    rcases Multiset.mem_add.mp h with h | h
    · exact (ih h).append [ev]
    · exact ⟨evs, ev, [], rfl, ⟨e, payload⟩, Multiset.mem_coe.mp ((mem_payloads _ _ _).mp h), rfl,
        hp⟩

namespace Life

variable {l : Life} {e : Endpoint} {evs : List (Srv.Event F32)}

/-- A snapshot that a client has popped or still has in its queue the server has sent. -/
theorem sends_of_mem (htaken : l.taken ≤ told e evs) {snap : Snapshot F32}
    (h : snap ∈ popped l.evs ++ l.queue.map StampedSnapshot.snap) :
    Sends evs e (.snapshot snap) := by
  have hmem := List.mem_map_of_mem (f := some) h
  rw [← l.received] at hmem
  obtain ⟨payload, hpayload, hrecv⟩ := List.mem_map.mp hmem
  exact sends_of_mem_told (Multiset.mem_of_le htaken (Multiset.mem_cons_of_mem hpayload))
    ((NetworkReceiver.receive_eq_some_iff _ _).mp hrecv)

/-- What a client has comes from what it has taken. -/
theorem sourced (htaken : l.taken ≤ told e evs) :
    (Process.playing l.playing).Sourced (Sends evs e) l.evs := by
  obtain ⟨ja, hread, hid⟩ := read_of_acceptedId l.accept l.id l.accepted
  refine ⟨⟨ja, sends_of_mem_told (Multiset.mem_of_le htaken (Multiset.mem_cons_self _ _)) hread,
    hid.trans l.myPid_playing.symm⟩, ⟨l.noPrediction, l.noInterpolation, ?_⟩, fun ss hss ↦ ?_⟩
  · rw [l.myPid_playing]
    exact ⟨rfl, Client.sourced_reached l.id l.noPrediction l.noInterpolation l.evs fun snap hsnap ↦
      sends_of_mem htaken (List.mem_append_left _ hsnap)⟩
  · exact sends_of_mem htaken (List.mem_append_right _ (List.mem_map_of_mem hss))

end Life

/-- What the parts of a run have comes from what the server has sent. -/
theorem System.Splits.sourced {s : System} {evs : List (Srv.Event F32)}
    {did : Endpoint → List (Cl.Event F32)} (h : s.Splits evs did) : s.Sourced (Sends evs) did := by
  refine ⟨fun d hd p hr ↦ ?_, fun e ↦ ?_⟩
  · obtain ⟨out, taken, _, _, htold⟩ := h.2 d.endpoint
    exact sends_of_mem_told (Multiset.mem_of_le ((Multiset.le_add_left _ _).trans htold)
      ((mem_payloads _ _ _).mpr hd)) hr
  · obtain ⟨out, taken, hdid, _, htold⟩ := h.2 e
    revert hdid
    cases s.process e with
    | playing p =>
      intro hdid
      obtain ⟨l, rfl, hevs, _, rfl⟩ := hdid.exists_life
      exact hevs ▸ l.sourced ((Multiset.le_add_right _ _).trans htold)
    | _ => exact fun _ ↦ trivial

/-! ### Behind conditioners -/

namespace Conditioned

variable {D : Type} [FloatOps D] {Q : PriorityQueue Pending Pending.deliverAtUs}

/-- Every packet on its way to a client, in its conditioner or in its hands has a property, and
what the client has comes from such ones and from its own inputs. -/
structure Sourced (P : Endpoint → Packet → Prop) (did : Endpoint → List (Cl.Event F32))
    (c : Conditioned D Q) : Prop where
  down : ∀ e, ∀ payload ∈ c.down e, ∀ p, Packet.read payload = some p → P e p
  inHand : ∀ e x, c.inHand e = some x → ∀ p, Packet.read x.bytes = some p → P e p
  process : ∀ e, (c.process e).Sourced (P e) (did e)

omit [FloatArith F32] [FloatOps D] in
/-- What is under way stands for a datagram in flight that carries the same packet. -/
theorem exists_read {e : Endpoint} {payload : List UInt8} {under : Multiset (List UInt8)}
    {flight : Multiset Datagram} (h : heads (payload ::ₘ under) ≤ heads (payloads e flight)) :
    ∃ d ∈ flight, d.endpoint = e ∧ Packet.read d.payload = Packet.read payload := by
  obtain ⟨d, hd, he, htake, _⟩ := exists_datagram h
  refine ⟨d, hd, he, ?_⟩
  rw [← Packet.read_take d.payload recvTmpBytes (by decide), ← htake,
    Packet.read_take payload recvTmpBytes (by decide)]

omit [FloatOps D] in
/-- What holds of the packets in flight holds of those under way. -/
theorem Refines.sourced {c : Conditioned D Q} {s : System} (h : Refines c s)
    {P : Endpoint → Packet → Prop} {did : Endpoint → List (Cl.Event F32)} (hs : s.Sourced P did) :
    c.Sourced P did := by
  refine ⟨fun e payload hpayload p hr ↦ ?_, fun e x hx p hr ↦ ?_, h.process ▸ hs.process⟩
  · obtain ⟨under, hunder⟩ := Multiset.exists_cons_of_mem hpayload
    obtain ⟨d, hd, rfl, hread⟩ := exists_read (hunder ▸ (h.down e).heads_le)
    exact hs.flight d hd p (hread.trans hr)
  · have hdown := h.down e
    rw [hx] at hdown
    obtain ⟨payload, hbytes, hle⟩ := hdown
    obtain ⟨d, hd, rfl, hread⟩ := exists_read hle
    refine hs.flight d hd p (hread.trans ?_)
    rw [hbytes, Packet.read_eq_some_iff] at hr
    exact (Packet.read_eq_some_iff _ _).mpr ⟨hr.1, hr.2.trans (List.take_prefix _ _)⟩

/-- In every run, every packet that reaches a client anywhere is one that the server has sent to
it with one of the events that it has handled, and the server is in the state to which these
lead. What a client has comes from such packets and from the inputs that it has recorded. -/
theorem sourced_run (serverEp : Endpoint) (cfg : Endpoint → LaggedSocketConfig D)
    (serverCfg : LaggedSocketConfig D) (as : List (Action D)) :
    let start : Conditioned D Q := init serverEp cfg serverCfg
    (start.run as).server = ValidServer.reached (start.history as) ∧
      (start.run as).Sourced (Sends (start.history as)) fun e ↦ start.doings e as := by
  intro start
  obtain ⟨acts, h, _, hsplits⟩ := exists_splits (Q := Q) serverEp cfg serverCfg as
  exact ⟨h.server.trans hsplits.1, h.sourced hsplits.sourced⟩

end Conditioned
end
end Net
end LightningLink
