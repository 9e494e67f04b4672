import LightningLink.Server.Acknowledgement
import LightningLink.Server.Rejoin

/-!
# Snapshots sent to one endpoint

Library `Server`. The snapshots that a run sends to an endpoint after its join: their ticks
increase, each holds one record of the endpoint's player, and the numbers these records
acknowledge never decrease.
-/

namespace LightningLink

open Support Proto

/-- The ids of a snapshot are distinct, and the record of one of them acknowledges a number. -/
def Proto.Snapshot.Acks {F : Type} (snap : Snapshot F) (id : UInt16) (ack : UInt32) : Prop :=
  (snap.players.map PlayerState.id).Nodup ∧
    ∃ ps ∈ snap.players, ps.id = id ∧ ps.lastProcessedInputSeq = ack

/-- A later snapshot: its tick is higher, and it acknowledges no less for an id. -/
def Proto.Snapshot.Before {F : Type} (id : UInt16) (snap later : Snapshot F) : Prop :=
  snap.serverTick < later.serverTick ∧
    ∀ ack ack', snap.Acks id ack → later.Acks id ack' → ack ≤ ack'

/-- A snapshot acknowledges one number for an id. -/
theorem Proto.Snapshot.Acks.unique {F : Type} {snap : Snapshot F} {id : UInt16}
    {ack ack' : UInt32} (h : snap.Acks id ack) (h' : snap.Acks id ack') : ack = ack' := by
  obtain ⟨hnodup, ps, hps, hid, rfl⟩ := h
  obtain ⟨_, qs, hqs, hqid, rfl⟩ := h'
  rw [List.inj_on_of_nodup_map hnodup hps hqs (hid.trans hqid.symm)]

/-- Where keys are distinct, at most one element has a given key. -/
theorem countP_of_nodup_map {α β : Type} [DecidableEq β] (f : α → β) (xs : List α)
    (h : (xs.map f).Nodup) (b : β) :
    xs.countP (fun x ↦ f x = b) = if b ∈ xs.map f then 1 else 0 := by
  rw [← h.count, List.count_eq_countP, List.countP_map]
  exact List.countP_congr fun x _ ↦ by simp

/-- The records of an acknowledged id are one record. -/
theorem Proto.Snapshot.Acks.filter_eq {F : Type} {snap : Snapshot F} {id : UInt16} {ack : UInt32}
    (h : snap.Acks id ack) : ∃ ps, snap.players.filter (fun ps ↦ ps.id = id) = [ps] ∧
      ps.lastProcessedInputSeq = ack := by
  obtain ⟨hnodup, ps, hps, hid, hack⟩ := h
  have hone : (snap.players.filter fun ps ↦ ps.id = id).length = 1 := by
    rw [← List.countP_eq_length_filter, countP_of_nodup_map PlayerState.id _ hnodup, if_pos]
    exact List.mem_map.mpr ⟨ps, hps, hid⟩
  obtain ⟨qs, hqs⟩ := List.length_eq_one_iff.mp hone
  have hmem : ps ∈ snap.players.filter fun ps ↦ ps.id = id :=
    List.mem_filter.mpr ⟨hps, decide_eq_true hid⟩
  rw [hqs, List.mem_singleton] at hmem
  exact ⟨qs, hqs, hmem ▸ hack⟩

namespace Srv

/-- Payloads that a run sends to an endpoint, in order. -/
def Server.sentTo {F : Type} [FloatArith F] [FloatBits F] (e : Endpoint) :
    Server F → List (Event F) → List (List UInt8)
  | _, [] => []
  | s, ev :: evs =>
    ((s.handle ev).2.filter fun d ↦ d.endpoint = e).map Datagram.payload ++
      sentTo e (s.step ev) evs

/-- The largest number seen is the one acknowledged. -/
def ServerPlayer.Settled {F : Type} (p : ServerPlayer F) : Prop :=
  p.latestSeenSeq = p.state.lastProcessedInputSeq

section

variable {F : Type} [FloatArith F] [FloatBits F]

/-- The record of every member is settled. -/
theorem ValidServer.settled (evs : List (Event F)) (e : Endpoint) {m : Member F}
    (hm : (ValidServer.reached evs).server.member e = some m) : m.player.Settled := by
  refine ValidServer.member_invariant ServerPlayer.Settled (fun _ ↦ rfl) (fun p h ↦ h) ?_ evs e hm
  intro p seq mx my h
  unfold ServerPlayer.input
  split
  · exact h
  · rfl

omit [FloatArith F] [FloatBits F] in
private theorem ack_le_input {p : ServerPlayer F} (h : p.Settled) (seq : UInt32) (mx my : Int8) :
    p.state.lastProcessedInputSeq ≤ (p.input seq mx my).state.lastProcessedInputSeq := by
  unfold ServerPlayer.input
  split
  · exact UInt32.le_refl _
  · next hs => rw [← h]; exact UInt32.not_lt.mp hs

/-- An event that keeps a member does not lower what its record acknowledges. -/
theorem acked_le_step (past : List (Event F)) (e : Endpoint) (ev : Event F)
    {m m' : Member F} (hm : (ValidServer.reached past).server.member e = some m)
    (hm' : ((ValidServer.reached past).step ev).server.member e = some m') :
    m.player.state.lastProcessedInputSeq ≤ m'.player.state.lastProcessedInputSeq := by
  rcases ((ValidServer.reached past).member_step ev e hm hm').2 with h | h | ⟨seq, mx, my, h⟩
  · rw [h]
    exact UInt32.le_refl _
  · rw [h]
    exact UInt32.le_refl _
  · rw [h]
    exact ack_le_input (ValidServer.settled past e hm) seq mx my

/-- Only a tick counts. -/
theorem Server.tick_step (s : Server F) (ev : Event F) :
    (s.step ev).world.tick = if ev.isTick then s.world.tick + 1 else s.world.tick := by
  cases ev with
  | tick now order =>
    change (s.tickAndMaybeBroadcast now order).1.world.tick = s.world.tick + 1
    unfold tickAndMaybeBroadcast
    have hremove (ids : List UInt16) (w : WorldState F) :
        (ids.foldl (fun w id ↦ (w.removePlayer id).2) w).tick = w.tick := by
      induction ids generalizing w with
      | nil => rfl
      | cons id ids ih => exact ih _
    dsimp only
    split <;> exact congrArg (· + 1) (hremove _ _)
  | datagram now src payload =>
    change (s.handleInboundUdp now src payload).1.world.tick = s.world.tick
    rw [handleInboundUdp_eq]
    split
    · unfold handleJoinRequest
      split
      · rfl
      · exact WorldState.tick_addPlayer _ _
    · unfold handleInputCommand
      split
      · exact WorldState.tick_applyInput _ _ _ _ _
      · rfl
    · unfold handleDisconnectNotice
      split
      · rfl
      · split <;> rfl
    · rfl

/-- A datagram is answered only if it joins, with an id for its sender. -/
theorem Server.sends_of_datagram (s : Server F) (now : Int) (src : Endpoint)
    (payload : List UInt8) :
    (s.handle (.datagram now src payload)).2 = [] ∨
      (.datagram now src payload : Event F).Joins src ∧
        ∃ id, (s.handle (.datagram now src payload)).2 = joinAnswer F src id := by
  change (s.handleInboundUdp now src payload).2 = [] ∨ (_ ∧ _) ∧
    ∃ id, (s.handleInboundUdp now src payload).2 = joinAnswer F src id
  rw [handleInboundUdp_eq]
  split
  · next jr hr =>
    unfold handleJoinRequest
    split
    · exact Or.inl rfl
    · exact Or.inr ⟨⟨rfl, jr, hr⟩, _, rfl⟩
  all_goals exact Or.inl rfl

/-- What a member acknowledges after an event: what it did, or an input delivered to it. -/
theorem ValidServer.acked_step (v : ValidServer F) (ev : Event F) (e : Endpoint) {m m' : Member F}
    (hm : v.server.member e = some m) (hm' : (v.step ev).server.member e = some m') :
    m'.player.state.lastProcessedInputSeq = m.player.state.lastProcessedInputSeq ∨
      ∃ ip, ev.delivers e m.session.playerId = some ip ∧
        m'.player.state.lastProcessedInputSeq = ip.seq := by
  have hv : (v.step ev).server.member e = _ := (memberView e).view_step_of_some ev hm
  rw [hm'] at hv
  cases hi : ev.inputOf e with
  | none =>
    rw [show (memberView e).input ev = none from hi] at hv
    rw [Option.some.inj hv]
    exact Or.inl rfl
  | some i =>
    rw [show (memberView e).input ev = some i from hi] at hv
    have hd : ev.delivers e m.session.playerId = i.delivers m.session.playerId := by
      rw [Event.delivers, hi, Option.bind_some]
    rw [hd]
    cases hdel : i.delivers m.session.playerId with
    | none =>
      exact Or.inl (congrArg (fun x ↦ x.2.1) (Member.next_of_none hv.symm hdel))
    | some ip =>
      rw [Member.next_of_delivers hv.symm hdel]
      unfold ServerPlayer.input
      split
      · exact Or.inl rfl
      · exact Or.inr ⟨ip, rfl, rfl⟩

end

/-- A payload that is read as another packet is no snapshot. -/
theorem snapshotOf_eq_some_iff_read (payload : List UInt8) (snap : Snapshot F32) :
    snapshotOf payload = some snap ↔ Packet.read payload = some (.snapshot snap) := by
  rw [snapshotOf_eq_some_iff, Packet.read_eq_some_iff]
  rfl

namespace Server

variable [FloatArith F32]

/-- Snapshots that an event sends to an endpoint. -/
def snapshotsTo (e : Endpoint) (s : Server F32) (evs : List (Event F32)) :
    List (Snapshot F32) :=
  (sentTo e s evs).filterMap snapshotOf

private theorem snapshotsTo_cons (e : Endpoint) (s : Server F32) (ev : Event F32)
    (evs : List (Event F32)) :
    snapshotsTo e s (ev :: evs) = snapshotsTo e s [ev] ++ snapshotsTo e (s.step ev) evs := by
  simp only [snapshotsTo, sentTo, List.append_nil, List.filterMap_append]

/-- A datagram is not answered with a snapshot. -/
theorem snapshotsTo_datagram (e : Endpoint) (s : Server F32) (now : Int) (src : Endpoint)
    (payload : List UInt8) : snapshotsTo e s [.datagram now src payload] = [] := by
  rw [snapshotsTo, List.filterMap_eq_nil_iff]
  intro bytes hb
  simp only [sentTo, List.append_nil, List.mem_map, List.mem_filter] at hb
  obtain ⟨d, ⟨hd, _⟩, rfl⟩ := hb
  rcases s.sends_of_datagram now src payload with h | ⟨_, id, h⟩
  · rw [h] at hd
    cases hd
  · rw [h] at hd
    obtain ⟨bytes, w, ht, hans, hread⟩ := (answers_joinAnswer src id id).mpr rfl
    rw [hans, List.mem_singleton] at hd
    subst hd
    apply Option.eq_none_iff_forall_ne_some.mpr
    intro snap hs
    rw [snapshotOf_eq_some_iff_read, hread] at hs
    cases hs

/-- A tick sends its snapshot to an endpoint when it broadcasts and the session lives. -/
theorem WF.snapshotsTo_tick {s : Server F32} (hs : s.WF) (e : Endpoint) (now : Int)
    (order : TickOrder F32) :
    snapshotsTo e s [.tick now order] =
      let r := s.tickAndMaybeBroadcast now order
      if r.1.world.tick.toNat % ticksPerSnapshot = 0 ∧
          (r.1.sessions.sessions.find? e).isSome then [r.1.tickSnapshot order] else [] := by
  have hdec : ∀ d ∈ (s.tickAndMaybeBroadcast now order).2, snapshotOf d.payload =
      some ((s.tickAndMaybeBroadcast now order).1.tickSnapshot order) :=
    fun _ hd ↦ (hs.of_mem_tick now order hd).1
  simp only [snapshotsTo, sentTo, handle, List.append_nil, List.filterMap_map]
  by_cases hb : (s.tickAndMaybeBroadcast now order).1.world.tick.toNat % ticksPerSnapshot = 0
  · obtain ⟨hnodup, hlive⟩ := hs.endpoints_tick now order hb
    -- The endpoints are distinct, so at most one datagram goes to `e`.
    have hlen : ((s.tickAndMaybeBroadcast now order).2.filter fun d ↦ d.endpoint = e).length =
        if (((s.tickAndMaybeBroadcast now order).1.sessions.sessions.find? e).isSome) then 1
        else 0 := by
      rw [← List.countP_eq_length_filter, countP_of_nodup_map Datagram.endpoint _ hnodup]
      exact if_congr (hlive e) rfl rfl
    have hmap : ((s.tickAndMaybeBroadcast now order).2.filter fun d ↦ d.endpoint = e).filterMap
        (snapshotOf ∘ Datagram.payload) = List.replicate
          ((s.tickAndMaybeBroadcast now order).2.filter fun d ↦ d.endpoint = e).length
          ((s.tickAndMaybeBroadcast now order).1.tickSnapshot order) := by
      rw [← List.map_const', ← List.filterMap_eq_map']
      exact List.filterMap_congr fun d hd ↦ hdec d (List.mem_filter.mp hd).1
    rw [hmap, hlen]
    by_cases he : ((s.tickAndMaybeBroadcast now order).1.sessions.sessions.find? e).isSome <;>
      simp [hb, he]
  · rw [tick_of_not_broadcast s now order hb, if_neg fun h ↦ hb h.1]
    rfl

/-- The snapshots that a run sends to an endpoint, read off the states after its ticks. -/
def broadcastsTo (e : Endpoint) : Server F32 → List (Event F32) → List (Snapshot F32)
  | _, [] => []
  | s, .datagram now src payload :: evs => broadcastsTo e (s.step (.datagram now src payload)) evs
  | s, .tick now order :: evs =>
    let after := s.step (.tick now order)
    (if after.world.tick.toNat % ticksPerSnapshot = 0 ∧ (after.sessions.sessions.find? e).isSome
      then [after.tickSnapshot order] else []) ++ broadcastsTo e after evs

/-- What an endpoint decodes is what the ticks broadcast. -/
theorem snapshotsTo_eq (v : ValidServer F32) (e : Endpoint) (evs : List (Event F32)) :
    snapshotsTo e v.server evs = broadcastsTo e v.server evs := by
  induction evs generalizing v with
  | nil => rfl
  | cons ev evs ih =>
    have ih := ih (v.step ev)
    rw [snapshotsTo_cons]
    cases ev with
    | datagram now src payload =>
      rw [snapshotsTo_datagram]
      exact ih
    | tick now order =>
      rw [v.wf.snapshotsTo_tick]
      exact congrArg _ ih

omit [FloatArith F32] in
/-- The snapshot of a valid server acknowledges what the record of a member does. -/
theorem WF.acks_tickSnapshot {s : Server F32} (h : s.WF) (order : TickOrder F32) {e : Endpoint}
    {m : Member F32} (hm : s.member e = some m) : (s.tickSnapshot order).Acks
      m.session.playerId m.player.state.lastProcessedInputSeq := by
  constructor
  · rw [h.ids_tickSnapshot]
    exact (order.players.enumerates _).1
  · obtain ⟨hps, hid⟩ := (h.record_iff order m.player.state m.session.playerId).mpr
      ⟨m.player, ((member_eq_some_iff s e m).mp hm).2, rfl⟩
    exact ⟨_, hps, hid, rfl⟩

/-- An event sends at most one snapshot to an endpoint. It has the tick of the state after
the event and acknowledges what the member has there. -/
theorem snapshotsTo_event (v : ValidServer F32) (e : Endpoint) (ev : Event F32) :
    snapshotsTo e v.server [ev] = [] ∨
      ∃ snap m, snapshotsTo e v.server [ev] = [snap] ∧ ev.isTick = true ∧
        snap.serverTick = (v.step ev).server.world.tick ∧
        (v.step ev).server.member e = some m ∧
        snap.Acks m.session.playerId m.player.state.lastProcessedInputSeq := by
  cases ev with
  | datagram now src payload => exact Or.inl (snapshotsTo_datagram e v.server now src payload)
  | tick now order =>
    rw [v.wf.snapshotsTo_tick]
    dsimp only
    split
    · next hb =>
      have hwf := (v.step (.tick now order)).wf
      obtain ⟨m, hm⟩ := Option.isSome_iff_exists.mp ((hwf.member_isSome e).mpr hb.2)
      exact Or.inr ⟨_, m, rfl, rfl, rfl, hm, hwf.acks_tickSnapshot order hm⟩
    · exact Or.inl rfl

/-- Without a session and without a join, nothing is sent to an endpoint. -/
theorem snapshotsTo_of_none (v : ValidServer F32) (e : Endpoint)
    (hs : v.server.sessions.sessions.find? e = none) (evs : List (Event F32))
    (hj : ∀ ev ∈ evs, ¬ev.Joins e) : snapshotsTo e v.server evs = [] := by
  induction evs generalizing v with
  | nil => rfl
  | cons ev evs ih =>
    have hnone := sessions_step_none v.server ev e hs (hj ev List.mem_cons_self)
    have hrest := ih (v.step ev) hnone fun x hx ↦ hj x (List.mem_cons_of_mem _ hx)
    rw [snapshotsTo_cons]
    rcases snapshotsTo_event v e ev with hhere | ⟨_, m, _, _, _, hm, _⟩
    · rw [hhere]
      exact hrest
    · change (v.step ev).server.sessions.sessions.find? e = none at hnone
      rw [((member_eq_some_iff _ e m).mp hm).1] at hnone
      cases hnone

/-- The snapshots sent to a member of a reachable state, if its endpoint does not join
again: they are later than the state, acknowledge no less, and come in order. -/
theorem stream (e : Endpoint) (past evs : List (Event F32)) {m : Member F32}
    (hm : (ValidServer.reached past).server.member e = some m) (hj : ∀ ev ∈ evs, ¬ev.Joins e)
    (ht : (ValidServer.reached past : ValidServer F32).server.world.tick.toNat +
      evs.countP Event.isTick < 2 ^ 32) :
    (∀ snap ∈ snapshotsTo e (ValidServer.reached past).server evs,
      (ValidServer.reached past : ValidServer F32).server.world.tick < snap.serverTick ∧
        ∃ ack, m.player.state.lastProcessedInputSeq ≤ ack ∧
          snap.Acks m.session.playerId ack) ∧
    (snapshotsTo e (ValidServer.reached past).server evs).Pairwise
      (Snapshot.Before m.session.playerId) := by
  induction evs generalizing past m with
  | nil => exact ⟨fun _ h ↦ absurd h List.not_mem_nil, List.Pairwise.nil⟩
  | cons ev evs ih =>
    have hr : (ValidServer.reached (past ++ [ev]) : ValidServer F32) = _ :=
      ValidServer.reached_concat past ev
    have htick := tick_step (ValidServer.reached past : ValidServer F32).server ev
    change ((ValidServer.reached past).step ev).server.world.tick = _ at htick
    rw [List.countP_cons] at ht
    have hnow : ((ValidServer.reached past).step ev).server.world.tick.toNat =
        (ValidServer.reached past : ValidServer F32).server.world.tick.toNat +
          if ev.isTick then 1 else 0 := by
      rw [htick]
      split
      · next h =>
        rw [if_pos h] at ht
        rw [UInt32.toNat_add, UInt32.toNat_one]
        omega
      · rfl
    have hjs : ∀ x ∈ evs, ¬x.Joins e := fun x hx ↦ hj x (List.mem_cons_of_mem _ hx)
    rw [snapshotsTo_cons]
    change (∀ snap ∈ _ ++ snapshotsTo e ((ValidServer.reached past).step ev).server evs, _) ∧
      (_ ++ snapshotsTo e ((ValidServer.reached past).step ev).server evs).Pairwise _
    cases hm' : ((ValidServer.reached past).step ev).server.member e with
    | none =>
      have hs := ((ValidServer.reached past).step ev).wf.session_none hm'
      rw [snapshotsTo_of_none _ e hs evs hjs, List.append_nil]
      rcases snapshotsTo_event (ValidServer.reached past) e ev with h | ⟨_, _, _, _, _, h, _⟩
      · rw [h]
        exact ⟨fun _ h ↦ absurd h List.not_mem_nil, List.Pairwise.nil⟩
      · rw [hm'] at h
        cases h
    | some m' =>
      have hid := ((ValidServer.reached past).member_step ev e hm hm').1
      have hack := acked_le_step past e ev hm hm'
      have ih := ih (past ++ [ev]) (m := m') (by rw [hr]; exact hm') hjs (by rw [hr]; omega)
      rw [hr, hid] at ih
      obtain ⟨hrest, hpair⟩ := ih
      rcases snapshotsTo_event (ValidServer.reached past) e ev with
        h | ⟨here, m₁, h, htk, hnew, hm₁, hacks⟩
      · rw [h]
        refine ⟨fun snap hs ↦ ?_, hpair⟩
        obtain ⟨hlt, ack, hle, hacks⟩ := hrest snap hs
        rw [UInt32.lt_iff_toNat_lt] at hlt ⊢
        exact ⟨by omega, ack, UInt32.le_trans hack hle, hacks⟩
      · obtain rfl := Option.some.inj (hm'.symm.trans hm₁)
        rw [hid] at hacks
        rw [if_pos htk] at hnow
        rw [h, List.singleton_append, List.pairwise_cons]
        refine ⟨fun snap hs ↦ ?_, fun later hl ↦ ?_, hpair⟩
        · rcases List.mem_cons.mp hs with rfl | hs
          · rw [UInt32.lt_iff_toNat_lt, hnew]
            exact ⟨by omega, _, hack, hacks⟩
          · obtain ⟨hlt, ack, hle, hacks⟩ := hrest snap hs
            rw [UInt32.lt_iff_toNat_lt] at hlt ⊢
            exact ⟨by omega, ack, UInt32.le_trans hack hle, hacks⟩
        · obtain ⟨hlt, ack, hle, hlater⟩ := hrest later hl
          refine ⟨by rw [hnew]; exact hlt, fun a b ha hb ↦ ?_⟩
          rw [ha.unique hacks, hb.unique hlater]
          exact hle

end Server
end Srv
end LightningLink
