import LightningLink.Server.Stream

/-!
# Counters of the server

Library `Server`. The counters that `Server` and its broadcaster keep for the log are exact, up
to the width of their types: ticks, broadcasts, the bytes of all snapshots handed to the socket,
and the inputs that have passed the check of their id. There are as many sessions as have been
opened by joins and not closed by disconnects and timeouts.
-/

namespace LightningLink.Srv

open Support Proto

section

variable {F : Type}

/-- Input that the server counts with an event, with its endpoint. -/
def Server.counts (s : Server F) : Event F → Option (Endpoint × InputPacket)
  | .datagram _ src payload =>
    match Packet.read payload with
    | some (.input ip) =>
      if s.sessions.verifyInput src ip.playerId then some (src, ip) else none
    | _ => none
  | .tick _ _ => none

/-- An event opens a session: a join of an endpoint without one, as long as an id is free. -/
def Server.opens (s : Server F) : Event F → Bool
  | .datagram _ src payload =>
    match Packet.read payload with
    | some (.joinRequest _) =>
      (s.sessions.byEndpoint src).isNone && s.sessions.nextFreeId ≠ 0
    | _ => false
  | .tick _ _ => false

/-- Sessions that an event closes: that of a client which disconnects with its id, or those that
have timed out at a tick. -/
def Server.closes (s : Server F) : Event F → Nat
  | .datagram _ src payload =>
    match Packet.read payload with
    | some (.disconnect dn) => if s.sessions.verifyInput src dn.playerId then 1 else 0
    | _ => 0
  | .tick now order => (s.sessions.reapTimeouts now order.reap).1.length

/-- What has happened in a run. -/
structure Totals where
  ticks : Nat
  broadcasts : Nat
  bytes : Nat
  inputs : List (Endpoint × InputPacket)
  opened : Nat
  closed : Nat

/-- Nothing has happened. -/
def Totals.zero : Totals := ⟨0, 0, 0, [], 0, 0⟩

variable [FloatArith F] [FloatBits F]

/-- An event that broadcasts. -/
def Server.Broadcasts (s : Server F) (ev : Event F) : Prop :=
  ev.isTick = true ∧ (s.step ev).world.tick.toNat % ticksPerSnapshot = 0

instance (s : Server F) (ev : Event F) : Decidable (s.Broadcasts ev) :=
  inferInstanceAs (Decidable (_ ∧ _))

/-- One more event. -/
def Totals.next (t : Totals) (s : Server F) (ev : Event F) : Totals where
  ticks := t.ticks + if ev.isTick then 1 else 0
  broadcasts := t.broadcasts + if s.Broadcasts ev then 1 else 0
  bytes := t.bytes + if s.Broadcasts ev then
    ((s.handle ev).2.map fun d ↦ d.payload.length).sum else 0
  inputs := t.inputs ++ (s.counts ev).toList
  opened := t.opened + if s.opens ev then 1 else 0
  closed := t.closed + s.closes ev

/-- Totals after a run. -/
def Totals.after (t : Totals) (s : Server F) : List (Event F) → Totals
  | [] => t
  | ev :: evs => (t.next s ev).after (s.step ev) evs

/-- Totals of a run from the start. -/
def totals (evs : List (Event F)) : Totals := Totals.zero.after Server.init evs

/-- Totals after one more event. -/
theorem totals_concat (evs : List (Event F)) (ev : Event F) :
    totals (evs ++ [ev]) = (totals evs).next (ValidServer.reached evs).server ev := by
  have hafter (t : Totals) (s : Server F) :
      t.after s (evs ++ [ev]) = (t.after s evs).next (s.run evs) ev := by
    induction evs generalizing t s with
    | nil => rfl
    | cons ev' evs ih => exact ih (t.next s ev') (s.step ev')
  rw [totals, hafter, ValidServer.server_reached]
  rfl

/-- The counters hold the totals. -/
structure Server.Counted (s : Server F) (t : Totals) : Prop where
  ticks : s.world.tick = UInt32.ofNat t.ticks
  snapshotsSent : s.broadcaster.snapshotsSent = UInt64.ofNat t.broadcasts
  bytesSent : s.broadcaster.bytesSent = UInt64.ofNat t.bytes
  inputs : s.inputsReceivedTotal = UInt64.ofNat t.inputs.length
  sessions : s.sessions.size + t.closed = t.opened

/-- A join opens a session, or leaves their number. -/
theorem SessionManager.size_registerOrGet (now : Int) (ep : Endpoint) (m : SessionManager) :
    (m.registerOrGet now ep).2.size =
      m.size + if (m.byEndpoint ep).isNone && m.nextFreeId ≠ 0 then 1 else 0 := by
  unfold SessionManager.size registerOrGet byEndpoint
  cases hs : m.sessions.find? ep with
  | some ses =>
    refine UMap.size_eq_of_isSome _ _ fun k ↦ ?_
    dsimp only
    rw [UMap.find?_assign]
    split
    · next hk => rw [hk, hs]; rfl
    · rfl
  | none =>
    dsimp only
    by_cases hid : m.nextFreeId = 0
    · simp [hid]
    · have hadd : m.sessions.emplace ep ⟨m.nextFreeId, ep, now⟩ =
          m.sessions.assign ep ⟨m.nextFreeId, ep, now⟩ := by
        unfold UMap.emplace
        simp [hs]
      simp only [hid, if_false, hadd, UMap.size_assign_of_none hs]
      simp [hid]

/-- A refreshed session is still there. -/
theorem SessionManager.size_touch (now : Int) (ep : Endpoint) (m : SessionManager) :
    (m.touch now ep).size = m.size := by
  refine UMap.size_eq_of_isSome _ _ fun k ↦ ?_
  rw [sessions_touch]
  split
  · rw [Option.isSome_map]
  · rfl

/-- Reaping closes the sessions that it reports. -/
theorem SessionManager.size_reapTimeouts (now : Int) (order : UMap.Traversal Endpoint Session)
    (m : SessionManager) :
    (m.reapTimeouts now order).2.size + (m.reapTimeouts now order).1.length = m.size := by
  have hkept := (order.enumerates m.sessions).filter (m.sessions_reapTimeouts now order)
  have hsplit := (order.order m.sessions).length_eq_length_filter_add fun e ↦ e.2.expired now
  rw [SessionManager.size, ← hkept.length_eq, reapTimeouts_fst, List.length_map,
    SessionManager.size, ← (order.enumerates m.sessions).length_eq, hsplit, Nat.add_comm]

/-- Sessions are opened and closed one by one. -/
theorem Server.size_step (s : Server F) (ev : Event F) :
    (s.step ev).sessions.size + s.closes ev =
      s.sessions.size + if s.opens ev then 1 else 0 := by
  cases ev with
  | tick now order =>
    have hsessions : (s.step (.tick now order)).sessions =
        (s.sessions.reapTimeouts now order.reap).2 := by
      change (s.tickAndMaybeBroadcast now order).1.sessions = _
      unfold tickAndMaybeBroadcast
      dsimp only
      split <;> rfl
    rw [hsessions]
    exact s.sessions.size_reapTimeouts now order.reap
  | datagram now src payload =>
    change (s.handleInboundUdp now src payload).1.sessions.size + _ = _
    rw [handleInboundUdp_eq, closes, opens]
    cases Packet.read payload with
    | none => rfl
    | some p =>
      cases p with
      | joinRequest jr =>
        have hsessions : (s.handleJoinRequest now src).1.sessions =
            (s.sessions.registerOrGet now src).2 := by
          unfold handleJoinRequest
          split <;> next heq => rw [heq]
        exact (congrArg SessionManager.size hsessions).trans
          (s.sessions.size_registerOrGet now src)
      | input ip =>
        change (s.handleInputCommand now src ip).sessions.size = s.sessions.size
        unfold handleInputCommand
        split
        · exact s.sessions.size_touch now src
        · rfl
      | disconnect dn =>
        change (s.handleDisconnectNotice src dn).sessions.size + _ = s.sessions.size
        unfold handleDisconnectNotice SessionManager.verifyInput SessionManager.byEndpoint
        cases hs : s.sessions.sessions.find? src with
        | none => rfl
        | some ses =>
          by_cases hid : ses.playerId = dn.playerId
          · have hremoved : (s.sessions.removeByEndpoint src).2.sessions =
                s.sessions.sessions.erase src := by
              unfold SessionManager.removeByEndpoint
              rw [hs]
            simp only [hid, if_true, decide_true]
            exact (congrArg (fun m : UMap Endpoint Session ↦ m.size + 1) hremoved).trans
              (UMap.size_erase_of_some hs)
          · simp [hid]
      | joinAccept ja => rfl
      | snapshot snap => rfl

/-- A datagram leaves the broadcaster, and is counted if it carries a verified input. -/
theorem Server.counts_datagram (s : Server F) (now : Int) (src : Endpoint)
    (payload : List UInt8) :
    (s.step (.datagram now src payload)).broadcaster = s.broadcaster ∧
      (s.step (.datagram now src payload)).inputsReceivedTotal = s.inputsReceivedTotal +
        UInt64.ofNat (s.counts (.datagram now src payload)).toList.length := by
  change (s.handleInboundUdp now src payload).1.broadcaster = _ ∧
    (s.handleInboundUdp now src payload).1.inputsReceivedTotal = _
  rw [handleInboundUdp_eq, counts]
  cases Packet.read payload with
  | none => exact ⟨rfl, (UInt64.add_zero _).symm⟩
  | some p =>
    cases p with
    | joinRequest jr =>
      dsimp only
      unfold handleJoinRequest
      split <;> exact ⟨rfl, (UInt64.add_zero _).symm⟩
    | input ip =>
      dsimp only
      unfold handleInputCommand
      split <;> exact ⟨rfl, by simp⟩
    | disconnect dn =>
      dsimp only
      unfold handleDisconnectNotice
      split
      · exact ⟨rfl, (UInt64.add_zero _).symm⟩
      · split <;> exact ⟨rfl, (UInt64.add_zero _).symm⟩
    | joinAccept ja => exact ⟨rfl, (UInt64.add_zero _).symm⟩
    | snapshot snap => exact ⟨rfl, (UInt64.add_zero _).symm⟩

/-- A tick counts no input. -/
theorem Server.inputs_tick (s : Server F) (now : Int) (order : TickOrder F) :
    (s.step (.tick now order)).inputsReceivedTotal = s.inputsReceivedTotal := by
  change (s.tickAndMaybeBroadcast now order).1.inputsReceivedTotal = _
  unfold tickAndMaybeBroadcast
  dsimp only
  split <;> rfl

end

section

variable [FloatArith F32]

/-- A tick that does not broadcast leaves the broadcaster. -/
theorem Server.broadcaster_tick (s : Server F32) (now : Int) (order : TickOrder F32)
    (hb : ¬s.Broadcasts (.tick now order)) :
    (s.step (.tick now order)).broadcaster = s.broadcaster := by
  have hno : (s.tickAndMaybeBroadcast now order).1.world.tick.toNat % ticksPerSnapshot ≠ 0 :=
    fun h ↦ hb ⟨rfl, h⟩
  change (s.tickAndMaybeBroadcast now order).1.broadcaster = _
  revert hno
  unfold tickAndMaybeBroadcast
  dsimp only
  split
  · next h => exact fun hno ↦ absurd h hno
  · exact fun _ ↦ rfl

/-- A broadcast is counted, with the bytes of all datagrams that it sends. -/
theorem Server.WF.broadcaster_broadcast {s : Server F32} (h : s.WF) (now : Int)
    (order : TickOrder F32) (hb : s.Broadcasts (.tick now order)) :
    (s.step (.tick now order)).broadcaster =
      ⟨s.broadcaster.bytesSent + UInt64.ofNat
          (((s.handle (.tick now order)).2.map fun d ↦ d.payload.length).sum),
        s.broadcaster.snapshotsSent + 1⟩ := by
  have hwf : (s.tickAndMaybeBroadcast now order).1.WF := h.step s (.tick now order)
  have hlen := hwf.length_tickSnapshot order
  obtain ⟨hbytes, hsends⟩ := tick_of_broadcast now order hwf hb.2
  have hsum : ((s.handle (.tick now order)).2.map fun d ↦ d.payload.length).sum =
      (s.tickAndMaybeBroadcast now order).1.sessions.sessions.size *
        (7 + 22 * (s.tickAndMaybeBroadcast now order).1.sessions.sessions.size) := by
    change ((s.tickAndMaybeBroadcast now order).2.map fun d ↦ d.payload.length).sum = _
    rw [hsends, List.map_map]
    have hconst : (fun d : Datagram ↦ d.payload.length) ∘ (fun ep ↦ (⟨ep, (Packet.snapshot
        ((s.tickAndMaybeBroadcast now order).1.tickSnapshot order)).wire⟩ : Datagram)) =
          fun _ ↦ 7 + 22 * (s.tickAndMaybeBroadcast now order).1.sessions.sessions.size := by
      funext ep
      rw [Function.comp_apply, Packet.length_wire, ← hlen]
      rfl
    rw [hconst, List.map_const', List.sum_replicate_nat, SessionManager.allEndpoints,
      List.length_map, (order.recipients.enumerates _).length_eq]
  have hcount : (s.tickAndMaybeBroadcast now order).1.broadcaster.snapshotsSent =
      s.broadcaster.snapshotsSent + 1 := by
    have hfit := hlen.trans_le hwf.size_le
    have hdue := hb.2
    change (s.tickAndMaybeBroadcast now order).1.world.tick.toNat % ticksPerSnapshot = 0 at hdue
    revert hfit hdue
    unfold tickAndMaybeBroadcast
    dsimp only
    split
    · intro hfit _
      exact congrArg (fun x ↦ x.2.1.snapshotsSent) (s.broadcaster.broadcast_eq _
        ((s.sessions.reapTimeouts now order.reap).2.allEndpoints order.recipients) hfit)
    · next hno => exact fun _ hdue ↦ absurd hdue hno
  rw [hsum]
  change (s.tickAndMaybeBroadcast now order).1.broadcaster = _
  rw [← hbytes, ← hcount]

/-- Every event keeps the counters at the totals. -/
theorem Server.Counted.step {v : ValidServer F32} {t : Totals} (h : v.server.Counted t)
    (ev : Event F32) : (v.step ev).server.Counted (t.next v.server ev) := by
  have hsessions : (v.step ev).server.sessions.size + (t.closed + v.server.closes ev) =
      t.opened + if v.server.opens ev then 1 else 0 := by
    have hsize := v.server.size_step ev
    have hcounted := h.sessions
    change (v.server.step ev).sessions.size + _ = _
    omega
  cases ev with
  | datagram now src payload =>
    obtain ⟨hbroadcaster, hinputs⟩ := v.server.counts_datagram now src payload
    have hno : ¬v.server.Broadcasts (.datagram now src payload) := fun hb ↦ Bool.noConfusion hb.1
    unfold Totals.next
    rw [if_neg hno, if_neg hno]
    refine ⟨(v.server.tick_step _).trans h.ticks, ?_, ?_, ?_, hsessions⟩
    · exact (congrArg (·.snapshotsSent) hbroadcaster).trans h.snapshotsSent
    · exact (congrArg (·.bytesSent) hbroadcaster).trans h.bytesSent
    · rw [List.length_append, UInt64.ofNat_add, ← h.inputs]
      exact hinputs
  | tick now order =>
    have htick : (v.step (.tick now order)).server.world.tick = UInt32.ofNat (t.ticks + 1) := by
      rw [UInt32.ofNat_add, ← h.ticks]
      exact v.server.tick_step (.tick now order)
    have hinputs : (v.step (.tick now order)).server.inputsReceivedTotal =
        UInt64.ofNat (t.inputs ++ []).length := by
      rw [List.append_nil, ← h.inputs]
      exact v.server.inputs_tick now order
    unfold Totals.next
    by_cases hb : v.server.Broadcasts (.tick now order)
    · have heq : (v.step (.tick now order)).server.broadcaster = _ :=
        v.wf.broadcaster_broadcast now order hb
      rw [if_pos hb, if_pos hb]
      refine ⟨htick, ?_, ?_, hinputs, hsessions⟩
      · rw [heq, UInt64.ofNat_add, ← h.snapshotsSent]
        rfl
      · rw [heq, UInt64.ofNat_add, ← h.bytesSent]
    · have heq : (v.step (.tick now order)).server.broadcaster = v.server.broadcaster :=
        v.server.broadcaster_tick now order hb
      rw [if_neg hb, if_neg hb]
      exact ⟨htick, (congrArg (·.snapshotsSent) heq).trans h.snapshotsSent,
        (congrArg (·.bytesSent) heq).trans h.bytesSent, hinputs, hsessions⟩

/-- The counters of every reachable server hold the totals. -/
theorem Server.counted_reached (evs : List (Event F32)) :
    (ValidServer.reached evs : ValidServer F32).server.Counted (totals evs) := by
  induction evs using List.reverseRecOn with
  | nil => exact ⟨rfl, rfl, rfl, rfl, rfl⟩
  | append_singleton evs ev ih =>
    rw [totals_concat, ValidServer.reached_concat]
    exact ih.step ev

end
end LightningLink.Srv
