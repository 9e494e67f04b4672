import LightningLink.Server.Store

/-!
# Snapshot broadcast

Library `Server`. What a broadcasting tick hands to the socket: one datagram for every
live session, each carrying all player records of the world. The store invariant keeps the
snapshot within the buffer.
-/

namespace LightningLink.Srv

open Support Proto

/-- Decoder of snapshots on the payload of a datagram. -/
def snapshotOf (payload : List UInt8) : Option (Snapshot F32) :=
  decodeSnapshot (Memory.ofList payload) payload.length

/-- A payload decodes to the bounded snapshots whose wire bytes it starts with. -/
theorem snapshotOf_eq_some_iff (payload : List UInt8) (snap : Snapshot F32) :
    snapshotOf payload = some snap ↔
      snap.players.length ≤ maxPlayers ∧ (Packet.snapshot snap).wire <+: payload := by
  have h : decodeList .worldSnapshot payload = (snapshotOf payload).map Packet.snapshot := rfl
  have hd := Packet.decodeList_eq_some_iff .worldSnapshot payload (.snapshot snap)
  rw [h] at hd
  constructor
  · intro hs
    rw [hs] at hd
    exact (hd.mp rfl).2
  · intro hw
    obtain ⟨s, hs, he⟩ := Option.map_eq_some_iff.mp (hd.mpr ⟨rfl, hw⟩)
    rw [hs, Packet.snapshot.inj he]

private theorem foldl_add_const (xs : List Endpoint) (n : Nat) (b : UInt64) :
    xs.foldl (fun sent _ ↦ sent + UInt64.ofNat n) b = b + UInt64.ofNat (xs.length * n) := by
  induction xs generalizing b with
  | nil => simp
  | cons x xs ih =>
    rw [List.foldl_cons, ih, List.length_cons, Nat.add_mul, Nat.one_mul, UInt64.ofNat_add,
      UInt64.add_assoc, UInt64.add_comm (UInt64.ofNat n)]

/-- A snapshot within the limit is sent to every recipient and counted for each. -/
theorem UdpSnapshotBroadcaster.broadcast_eq (b : UdpSnapshotBroadcaster) (snap : Snapshot F32)
    (recipients : List Endpoint) (h : snap.players.length ≤ maxPlayers) :
    b.broadcast snap recipients =
      ((7 + 22 * snap.players.length) * recipients.length,
        ⟨b.bytesSent + UInt64.ofNat (recipients.length * (7 + 22 * snap.players.length)),
          b.snapshotsSent + 1⟩,
        recipients.map fun ep ↦ ⟨ep, (Packet.snapshot snap).wire⟩) := by
  have hne := (encodeSnapshot_fits (fun _ ↦ 0) snap).mpr h
  have he := (Packet.snapshot snap).encode_encodes (fun _ ↦ 0) maxSnapshotBytes
  have hfit := (Packet.snapshot snap).length_wire_le h
  have hsize : (encodeSnapshot (fun _ ↦ 0) maxSnapshotBytes snap).2 =
      7 + 22 * snap.players.length := by
    have hs := he.size
    rw [if_pos hfit, Packet.length_wire] at hs
    exact hs
  have hbytes : (encodeSnapshot (fun _ ↦ 0) maxSnapshotBytes snap).1.bytes
      (7 + 22 * snap.players.length) = (Packet.snapshot snap).wire := by
    rw [← hsize]
    exact he.bytes hfit
  unfold broadcast
  dsimp only
  rw [if_neg hne, foldl_add_const, hsize, hbytes]

namespace Server

/-- Snapshot that a tick hands to the broadcaster. -/
def tickSnapshot {F : Type} (order : TickOrder F) (s : Server F) : Snapshot F :=
  ⟨s.world.tick, s.world.collectPlayerStates order.players⟩

/-- A snapshot of a valid world has a record for every session. -/
theorem WF.length_tickSnapshot {F : Type} {s : Server F} (h : s.WF) (order : TickOrder F) :
    (s.tickSnapshot order).players.length = s.sessions.sessions.size := by
  rw [tickSnapshot, WorldState.collectPlayerStates, List.length_map,
    (order.players.enumerates _).length_eq, h.size_players]

/-- The records of a snapshot are the player states of the world. -/
theorem mem_tickSnapshot {F : Type} (s : Server F) (order : TickOrder F) (ps : PlayerState F) :
    ps ∈ (s.tickSnapshot order).players ↔ ∃ id p, s.world.get id = some p ∧ p.state = ps := by
  rw [tickSnapshot, WorldState.collectPlayerStates]
  simp only [List.mem_map, Prod.exists, (order.players.enumerates _).2]
  rfl

/-- The record of an id in a valid snapshot is the state of its player. -/
theorem WF.record_iff {F : Type} {s : Server F} (h : s.WF) (order : TickOrder F)
    (ps : PlayerState F) (id : UInt16) :
    (ps ∈ (s.tickSnapshot order).players ∧ ps.id = id) ↔
      ∃ p, s.world.get id = some p ∧ p.state = ps := by
  rw [mem_tickSnapshot]
  constructor
  · rintro ⟨⟨id', p, hp, rfl⟩, hid⟩
    rw [h.key id' p hp] at hid
    exact ⟨p, hid ▸ hp, rfl⟩
  · rintro ⟨p, hp, rfl⟩
    exact ⟨⟨id, p, hp, rfl⟩, h.key id p hp⟩

/-- The ids of a valid snapshot are the keys of the world, each once. -/
theorem WF.ids_tickSnapshot {F : Type} {s : Server F} (h : s.WF) (order : TickOrder F) :
    (s.tickSnapshot order).players.map PlayerState.id =
      (order.players.order s.world.players).map Prod.fst := by
  rw [tickSnapshot, WorldState.collectPlayerStates, List.map_map]
  refine List.map_congr_left fun e he ↦ ?_
  exact h.key e.1 e.2 (((order.players.enumerates _).2 e.1 e.2).mp he)

section

variable [FloatArith F32]

/-- State and datagrams of a broadcasting tick. -/
theorem tick_of_broadcast {s : Server F32} (now : Int) (order : TickOrder F32)
    (h : ((s.tickAndMaybeBroadcast now order).1).WF)
    (hb : (s.tickAndMaybeBroadcast now order).1.world.tick.toNat % ticksPerSnapshot = 0) :
    let r := s.tickAndMaybeBroadcast now order
    let n := r.1.sessions.sessions.size
    r.1.broadcaster.bytesSent = s.broadcaster.bytesSent + UInt64.ofNat (n * (7 + 22 * n)) ∧
    r.2 = (r.1.sessions.allEndpoints order.recipients).map fun ep ↦
      ⟨ep, (Packet.snapshot (r.1.tickSnapshot order)).wire⟩ := by
  have hlen := h.length_tickSnapshot order
  have hle := hlen.trans_le h.size_le
  have hrec : ((s.tickAndMaybeBroadcast now order).1.sessions.allEndpoints
      order.recipients).length = (s.tickAndMaybeBroadcast now order).1.sessions.sessions.size := by
    rw [SessionManager.allEndpoints, List.length_map, (order.recipients.enumerates _).length_eq]
  revert h hb hlen hle hrec
  unfold tickAndMaybeBroadcast
  dsimp only
  split
  · intro h _ hlen hle hrec
    have hbr := s.broadcaster.broadcast_eq _
      ((s.sessions.reapTimeouts now order.reap).2.allEndpoints order.recipients) hle
    rw [hlen, hrec] at hbr
    exact ⟨congrArg (fun x ↦ x.2.1.bytesSent) hbr, congrArg (fun x ↦ x.2.2) hbr⟩
  · next hn =>
    intro _ hb
    exact absurd hb hn

/-- Other ticks send nothing. -/
theorem tick_of_not_broadcast (s : Server F32) (now : Int) (order : TickOrder F32)
    (hb : (s.tickAndMaybeBroadcast now order).1.world.tick.toNat % ticksPerSnapshot ≠ 0) :
    (s.tickAndMaybeBroadcast now order).2 = [] := by
  revert hb
  unfold tickAndMaybeBroadcast
  dsimp only
  split
  · next ht => exact fun hb ↦ absurd ht hb
  · exact fun _ ↦ rfl

/-- A broadcasting tick addresses every live session once. -/
theorem WF.endpoints_tick {s : Server F32} (hs : s.WF) (now : Int) (order : TickOrder F32)
    (hb : (s.tickAndMaybeBroadcast now order).1.world.tick.toNat % ticksPerSnapshot = 0) :
    let r := s.tickAndMaybeBroadcast now order
    (r.2.map Datagram.endpoint).Nodup ∧
      ∀ ep, ep ∈ r.2.map Datagram.endpoint ↔ (r.1.sessions.sessions.find? ep).isSome := by
  intro r
  have h : r.1.WF := hs.step s (.tick now order)
  have hends : r.2.map Datagram.endpoint = r.1.sessions.allEndpoints order.recipients := by
    rw [show r.2 = _ from (tick_of_broadcast now order h hb).2, List.map_map]
    exact List.map_id _
  have hrec := order.recipients.enumerates r.1.sessions.sessions
  rw [hends]
  exact ⟨hrec.1, hrec.mem_keys⟩

/-- Every datagram that a tick sends carries the snapshot, and goes to a live session. -/
theorem WF.of_mem_tick {s : Server F32} (hs : s.WF) (now : Int) (order : TickOrder F32)
    {d : Datagram} (hd : d ∈ (s.tickAndMaybeBroadcast now order).2) :
    snapshotOf d.payload = some ((s.tickAndMaybeBroadcast now order).1.tickSnapshot order) ∧
      ((s.tickAndMaybeBroadcast now order).1.sessions.sessions.find? d.endpoint).isSome := by
  have h : (s.tickAndMaybeBroadcast now order).1.WF := hs.step s (.tick now order)
  have hle := (h.length_tickSnapshot order).trans_le h.size_le
  by_cases hb : (s.tickAndMaybeBroadcast now order).1.world.tick.toNat % ticksPerSnapshot = 0
  · rw [(tick_of_broadcast now order h hb).2] at hd
    obtain ⟨ep, hep, rfl⟩ := List.mem_map.mp hd
    refine ⟨(snapshotOf_eq_some_iff _ _).mpr ⟨hle, List.prefix_rfl⟩, ?_⟩
    exact ((order.recipients.enumerates _).mem_keys ep).mp hep
  · rw [tick_of_not_broadcast s now order hb] at hd
    cases hd

/-- A broadcasting tick sends to every live session. -/
theorem WF.exists_mem_tick {s : Server F32} (hs : s.WF) (now : Int) (order : TickOrder F32)
    (hb : (s.tickAndMaybeBroadcast now order).1.world.tick.toNat % ticksPerSnapshot = 0)
    {e : Endpoint}
    (he : ((s.tickAndMaybeBroadcast now order).1.sessions.sessions.find? e).isSome) :
    ∃ d ∈ (s.tickAndMaybeBroadcast now order).2, d.endpoint = e :=
  List.mem_map.mp (((hs.endpoints_tick now order hb).2 e).mpr he)

/-- A broadcasting tick of a reachable server: the snapshot fits the buffer, goes to every
live session once and nowhere else, decodes to every player state once, with the
recipient's own id in it, and is counted. -/
theorem run_broadcast (past : List (Event F32)) (now : Int) (order : TickOrder F32) :
    let s : Server F32 := init.run past
    let r := s.tickAndMaybeBroadcast now order
    let snap := r.1.tickSnapshot order
    let n := r.1.sessions.sessions.size
    r.1.world.tick.toNat % ticksPerSnapshot = 0 →
      (encodeSnapshot (fun _ ↦ 0) maxSnapshotBytes snap).2 ≠ 0 ∧
      (r.2.map Datagram.endpoint).Nodup ∧
      (∀ ep, ep ∈ r.2.map Datagram.endpoint ↔ (r.1.sessions.sessions.find? ep).isSome) ∧
      (∀ d ∈ r.2, snapshotOf d.payload = some snap) ∧
      snap.serverTick = r.1.world.tick ∧
      (snap.players.map PlayerState.id).Nodup ∧
      (∀ ps, ps ∈ snap.players ↔ ∃ id p, r.1.world.players.find? id = some p ∧ p.state = ps) ∧
      (∀ ep ses, r.1.sessions.sessions.find? ep = some ses →
        ses.playerId ∈ snap.players.map PlayerState.id) ∧
      r.1.broadcaster.bytesSent = s.broadcaster.bytesSent + UInt64.ofNat (n * (7 + 22 * n)) := by
  intro s r snap n hb
  have h : r.1.WF := (wf_init.run past).step s (.tick now order)
  have hle : snap.players.length ≤ maxPlayers := (h.length_tickSnapshot order).trans_le h.size_le
  obtain ⟨hbytes, hsends⟩ := tick_of_broadcast now order h hb
  have hids := h.ids_tickSnapshot order
  have henum := order.players.enumerates r.1.world.players
  obtain ⟨hdistinct, hlive⟩ := (wf_init.run past).endpoints_tick now order hb
  refine ⟨(encodeSnapshot_fits _ snap).mpr hle, hdistinct, hlive, ?_, rfl, ?_,
    mem_tickSnapshot r.1 order, ?_, hbytes⟩
  · intro d hd
    rw [show r.2 = _ from hsends] at hd
    obtain ⟨ep, _, rfl⟩ := List.mem_map.mp hd
    exact (snapshotOf_eq_some_iff _ snap).mpr ⟨hle, List.prefix_rfl⟩
  · rw [hids]
    exact henum.1
  · intro ep ses hses
    obtain ⟨p, hp⟩ := h.exists_player hses
    rw [hids, henum.mem_keys]
    exact Option.isSome_iff_exists.mpr ⟨p, hp⟩

end

/-- The third tick after a join reaches the player: 29 bytes are counted. -/
theorem run_broadcast_third_tick :
    let s : Server F32 := init.run
      [.datagram 0 ⟨1, 1⟩ [1, 0, 2], .tick 0 .sorted, .tick 0 .sorted]
    let r := s.tickAndMaybeBroadcast 0 .sorted
    r.1.broadcaster.bytesSent = s.broadcaster.bytesSent +
      UInt64.ofNat (r.1.sessions.sessions.size * (7 + 22 * r.1.sessions.sessions.size)) :=
  (run_broadcast [.datagram 0 ⟨1, 1⟩ [1, 0, 2], .tick 0 .sorted, .tick 0 .sorted] 0 .sorted
    (by decide)).2.2.2.2.2.2.2.2

end Server
end LightningLink.Srv
