import LightningLink.Client.Client
import LightningLink.Server.Stream
import LightningLink.Support.LastWrite

/-!
# Newest authoritative state

Library `Client`. The drain loop overwrites what it holds with whatever snapshot it pops
next. It holds the newest state received, reconciles against it and never lowers the
acknowledged number exactly when the snapshots arrive in the order of their ticks.
-/

namespace LightningLink.Cl

open Support Proto FloatArith

/-- Snapshots as updates of the authoritative records. -/
def snapshotFeed (F : Type) : Feed (Snapshot F) UInt32 UInt16 (PlayerState F) :=
  ⟨Snapshot.serverTick, Snapshot.players, PlayerState.id⟩

section

variable {F : Type} [FloatArith F]

/-- Snapshot that an event pops. -/
def Event.popped : Event F → Option (Snapshot F)
  | .snapshot ss _ _ => some ss.snap
  | _ => none

/-- Snapshots that a run pops, in order. -/
def popped (evs : List (Event F)) : List (Snapshot F) := evs.filterMap Event.popped

/-- A run pops what its parts pop. -/
theorem popped_append (evs evs' : List (Event F)) :
    popped (evs ++ evs') = popped evs ++ popped evs' := List.filterMap_append

/-- A part of a run from its start pops a part of what the run pops. -/
theorem popped_mono {evs evs' : List (Event F)} (h : evs <+: evs') :
    popped evs <+: popped evs' := by
  obtain ⟨rest, rfl⟩ := h
  rw [popped_append]
  exact List.prefix_append _ _

namespace Client

/-- What the drain loop overwrites: `latest_tick` and `latest_authoritative`. -/
def cache (c : Client F) : UInt32 × UMap UInt16 (PlayerState F) :=
  (c.latestTick, c.latestAuthoritative)

/-- Record that reconciliation reads, and what it sets. -/
structure Reconciled (before after : Client F) (auth : PlayerState F) : Prop where
  ack : after.lastAckSeq = auth.lastProcessedInputSeq
  pos : after.localPos =
    if before.predictionEnabled then before.predictor.reconcile auth else auth.pos

/-- A popped snapshot is received by the cache, and its state of the player reconciled. -/
theorem drainSnapshot_spec (ss : StampedSnapshot F) (nowMs : UInt64)
    (order : UMap.Traversal UInt32 (PendingInputSample F)) (c : Client F) :
    let c' := c.drainSnapshot ss nowMs order
    c'.cache = (snapshotFeed F).receive c.cache ss.snap ∧
      ∀ auth, c'.latestAuthoritative.find? c.myPid = some auth → Reconciled c c' auth := by
  intro c'
  obtain ⟨_, htick, hlatest, _⟩ := drainSnapshot_stores ss nowMs order c
  refine ⟨Prod.ext htick hlatest, fun auth hauth ↦ ?_⟩
  rw [hlatest] at hauth
  have hc' : c' = (c.store ss).reconcileLocal auth nowMs order := by
    rw [show c' = c.drainSnapshot ss nowMs order from rfl, drainSnapshot_eq, hauth]
  obtain ⟨err, delay, log, pending, h⟩ := (c.store ss).reconcileLocal_frame auth nowMs order
  rw [hc', h]
  exact ⟨rfl, rfl⟩

/-- An event acts on the cache through the snapshot it pops; the id stays. -/
theorem step_cache (c : Client F) (ev : Event F) :
    (c.step ev).cache = (ev.popped.toList).foldl (snapshotFeed F).receive c.cache ∧
      (c.step ev).myPid = c.myPid := by
  cases ev with
  | snapshot ss nowMs order =>
    exact ⟨(drainSnapshot_spec ss nowMs order c).1, (drainSnapshot_frame ss nowMs order c).1⟩
  | _ => exact ⟨rfl, rfl⟩

/-- A run acts on the cache through the snapshots it pops. -/
theorem run_cache (c : Client F) (evs : List (Event F)) :
    (c.run evs).cache = (popped evs).foldl (snapshotFeed F).receive c.cache ∧
      (c.run evs).myPid = c.myPid := by
  induction evs generalizing c with
  | nil => exact ⟨rfl, rfl⟩
  | cons ev evs ih =>
    obtain ⟨hc, hp⟩ := ih (c.step ev)
    obtain ⟨hc₁, hp₁⟩ := c.step_cache ev
    refine ⟨hc.trans ?_, hp.trans hp₁⟩
    rw [hc₁, ← List.foldl_append]
    congr 1
    unfold popped
    rw [List.filterMap_cons]
    cases ev.popped <;> rfl

/-- A popped snapshot with a record of the player is reconciled with that record. -/
theorem step_snapshot (ss : StampedSnapshot F) (nowMs : UInt64)
    (order : UMap.Traversal UInt32 (PendingInputSample F)) (c : Client F) {ack : UInt32}
    (h : ss.snap.Acks c.myPid ack) : ∃ auth ∈ ss.snap.players, auth.id = c.myPid ∧
      auth.lastProcessedInputSeq = ack ∧ Reconciled c (c.step (.snapshot ss nowMs order)) auth := by
  obtain ⟨hnodup, auth, hauth, hid, hack⟩ := h
  obtain ⟨hcache, hrec⟩ := drainSnapshot_spec ss nowMs order c
  refine ⟨auth, hauth, hid, hack, hrec auth ?_⟩
  have hfind := UMap.find?_foldl_assign_of_mem PlayerState.id _ c.latestAuthoritative auth hauth
    hnodup
  rw [← hid]
  exact (congrArg (fun x ↦ x.2.find? auth.id) hcache).trans hfind

/-- What is acknowledged after a last popped snapshot, if any. -/
def AckOf (id : UInt16) (ack : UInt32) : Option (Snapshot F) → Prop
  | none => ack = 0
  | some snap => snap.Acks id ack

/-- A client acknowledges what the last snapshot does that it has popped. -/
theorem run_ackOf (myPid : UInt16) (noPrediction noInterpolation : Bool) (evs : List (Event F))
    (h : ∀ snap ∈ popped evs, ∃ ack, snap.Acks myPid ack) :
    AckOf myPid ((init myPid noPrediction noInterpolation).run evs).lastAckSeq
      (popped evs).getLast? := by
  induction evs using List.reverseRecOn with
  | nil => rfl
  | append_singleton evs ev ih =>
    rw [popped_append] at h ⊢
    rw [run_concat]
    have ih := ih fun snap hs ↦ h snap (List.mem_append_left _ hs)
    cases ev with
    | snapshot ss nowMs order =>
      obtain ⟨ack, hacks⟩ := h ss.snap (List.mem_append_right _ (List.mem_singleton_self _))
      have hpid : ((init myPid noPrediction noInterpolation : Client F).run evs).myPid = myPid :=
        (run_cache _ evs).2
      obtain ⟨auth, _, _, hauth, hrec⟩ :=
        step_snapshot ss nowMs order _ (show ss.snap.Acks _ ack from hpid ▸ hacks)
      rw [hrec.ack, hauth]
      change AckOf myPid ack (popped evs ++ [ss.snap]).getLast?
      rw [List.getLast?_concat]
      exact hacks
    | _ =>
      change AckOf myPid _ (popped evs ++ []).getLast?
      rw [List.append_nil]
      exact ih

/-- A client that pops a snapshot newer than all before it reconciles against the newest
record of its player. -/
theorem run_reconciled (myPid : UInt16) (noPrediction noInterpolation : Bool)
    (before : List (Event F)) (ss : StampedSnapshot F) (nowMs : UInt64)
    (order : UMap.Traversal UInt32 (PendingInputSample F))
    (hnew : ∀ snap ∈ popped before, snap.serverTick < ss.snap.serverTick)
    {ack : UInt32} (h : ss.snap.Acks myPid ack) :
    let start : Client F := init myPid noPrediction noInterpolation
    ∃ auth, auth.id = myPid ∧ (snapshotFeed F).IsNewest (popped before ++ [ss.snap]) auth ∧
      Reconciled (start.run before) (start.run (before ++ [.snapshot ss nowMs order])) auth := by
  intro start
  have hpid : (start.run before).myPid = myPid := (run_cache start before).2
  obtain ⟨auth, hauth, hid, _, hrec⟩ :=
    step_snapshot ss nowMs order (start.run before)
      (show ss.snap.Acks (start.run before).myPid ack from hpid ▸ h)
  have hlast := List.mem_append_right (popped before) (List.mem_singleton_self ss.snap)
  refine ⟨auth, hid.trans hpid, ⟨ss.snap, hlast, hauth, fun w hw _ _ _ ↦ ?_⟩, ?_⟩
  · rcases List.mem_append.mp hw with hw | hw
    · exact UInt32.le_of_lt (hnew w hw)
    · rw [List.mem_singleton.mp hw]
      exact UInt32.le_refl _
  · rw [run_concat]
    exact hrec

omit [FloatArith F] in
/-- Snapshots in the order of their ticks do not lower what is acknowledged. -/
theorem ackOf_mono {id : UInt16} {got all : List (Snapshot F)} {ack ack' : UInt32}
    (hp : got <+: all) (hinc : all.Pairwise fun snap later ↦ snap.serverTick < later.serverTick)
    (hmono : ∀ snap ∈ all, ∀ later ∈ all, snap.serverTick < later.serverTick →
      ∀ m n, snap.Acks id m → later.Acks id n → m ≤ n)
    (h : AckOf id ack got.getLast?) (h' : AckOf id ack' all.getLast?) : ack ≤ ack' := by
  cases hl : got.getLast? with
  | none =>
    rw [hl] at h
    rw [show ack = 0 from h]
    exact UInt32.zero_le
  | some snap =>
    rw [hl] at h
    have hsnap := List.mem_of_getLast? hl
    obtain ⟨rest, rfl⟩ := hp
    rcases rest.eq_nil_or_concat with rfl | ⟨rest, later, rfl⟩
    · rw [List.append_nil, hl] at h'
      rw [h.unique h']
      exact UInt32.le_refl _
    · rw [List.concat_eq_append, ← List.append_assoc] at h' hmono hinc
      rw [List.getLast?_concat] at h'
      have hlast := List.mem_append_right (got ++ rest) (List.mem_singleton_self later)
      have hlt := (List.pairwise_append.mp hinc).2.2 snap (List.mem_append_left _ hsnap) later
        (List.mem_singleton_self later)
      exact hmono snap (List.mem_append_left _ (List.mem_append_left _ hsnap)) later hlast hlt
        _ _ h h'

/-- A client whose tick is below one received does not hold the newest. -/
theorem not_newest_of_lt {got : List (Snapshot F)} {c : Client F} (snap : Snapshot F)
    (hsnap : snap ∈ got) (hlt : c.latestTick < snap.serverTick) :
    ¬(snapshotFeed F).Newest got c.cache :=
  fun h ↦ Std.not_lt_of_ge (h.upper snap hsnap) hlt

end Client
end

namespace Client

variable [FloatArith F32]

/-- The receive thread queues the snapshots sent. -/
theorem filterMap_receive (e : Endpoint) (s : Srv.Server F32) (sevs : List (Srv.Event F32)) :
    (Srv.Server.sentTo e s sevs).filterMap NetworkReceiver.receive =
      Srv.Server.snapshotsTo e s sevs := by
  refine List.filterMap_congr fun payload _ ↦ Option.ext fun snap ↦ ?_
  rw [NetworkReceiver.receive_eq_some_iff, Srv.snapshotOf_eq_some_iff_read]

/-- Snapshots received from one session, in any order: each acknowledges a number for the
player, a higher tick no lower one, and the ticks are distinct. -/
theorem received_spec (past sevs : List (Srv.Event F32)) (e : Endpoint) (ses : Srv.Session)
    (hs : (Srv.Server.init.run past).sessions.sessions.find? e = some ses)
    (hj : ∀ ev ∈ sevs, ¬ev.Joins e)
    (ht : (Srv.Server.init.run past).world.tick.toNat + sevs.countP Srv.Event.isTick < 2 ^ 32)
    (got : List (Snapshot F32))
    (hsub : got.Subperm ((Srv.Server.sentTo e (Srv.Server.init.run past) sevs).filterMap
      NetworkReceiver.receive)) :
    (∀ snap ∈ got, ∃ ack, snap.Acks ses.playerId ack) ∧
    (∀ snap ∈ got, ∀ later ∈ got, snap.serverTick < later.serverTick →
      ∀ ack ack', snap.Acks ses.playerId ack → later.Acks ses.playerId ack' → ack ≤ ack') ∧
    (got.map Snapshot.serverTick).Nodup := by
  rw [filterMap_receive, ← Srv.ValidServer.server_reached] at hsub
  rw [← Srv.ValidServer.server_reached] at hs ht
  obtain ⟨m, hm⟩ := Option.isSome_iff_exists.mp
    (((Srv.ValidServer.reached past).wf.member_isSome e).mpr (by rw [hs]; rfl))
  have hses : m.session = ses :=
    Option.some.inj (((Srv.Server.member_eq_some_iff _ e m).mp hm).1.symm.trans hs)
  obtain ⟨hacks, hpair⟩ := Srv.Server.stream e past sevs hm hj ht
  rw [hses] at hacks hpair
  refine ⟨fun snap hg ↦ ?_, fun snap hg later hl ↦ ?_, ?_⟩
  · obtain ⟨_, ack, _, ha⟩ := hacks snap (hsub.subset hg)
    exact ⟨ack, ha⟩
  · have hall := (hpair.imp fun h _ ↦ h.2).forall_of_forall_of_flip
      (R := fun a b ↦ a.serverTick < b.serverTick →
        ∀ ack ack', a.Acks ses.playerId ack → b.Acks ses.playerId ack' → ack ≤ ack')
      (fun _ _ h ↦ absurd h (UInt32.lt_irrefl _))
      (hpair.imp fun h hlt ↦ absurd hlt (UInt32.lt_asymm h.1))
    exact hall (hsub.subset hg) (hsub.subset hl)
  · obtain ⟨l, hperm, hsl⟩ := hsub
    rw [← (hperm.map _).nodup_iff]
    apply (hsl.map _).nodup
    rw [List.Nodup, List.pairwise_map]
    exact hpair.imp fun h ↦ UInt32.ne_of_lt h.1

/-- After every event of a client that receives snapshots of one session, in any order and
with any losses: it holds the newest state, it has not lowered the acknowledged number, and
it has reconciled against the newest record of its player. This is so exactly when every
snapshot popped has a higher tick than all before it. -/
theorem run_newest_iff (past sevs : List (Srv.Event F32)) (e : Endpoint) (ses : Srv.Session)
    (hs : (Srv.Server.init.run past).sessions.sessions.find? e = some ses)
    (hj : ∀ ev ∈ sevs, ¬ev.Joins e)
    (ht : (Srv.Server.init.run past).world.tick.toNat + sevs.countP Srv.Event.isTick < 2 ^ 32)
    (noPrediction noInterpolation : Bool) (evs : List (Event F32))
    (hsub : (popped evs).Subperm ((Srv.Server.sentTo e (Srv.Server.init.run past) sevs).filterMap
      NetworkReceiver.receive)) :
    let start := init ses.playerId noPrediction noInterpolation
    (∀ done, done <+: evs →
      (snapshotFeed F32).Newest (popped done) (start.run done).cache ∧
      (∀ before, before <+: done → (start.run before).lastAckSeq ≤ (start.run done).lastAckSeq) ∧
      ∀ before ss nowMs order, done = before ++ [.snapshot ss nowMs order] →
        ∃ auth, auth.id = ses.playerId ∧ (snapshotFeed F32).IsNewest (popped done) auth ∧
          Reconciled (start.run before) (start.run done) auth) ↔
      (popped evs).Pairwise fun snap later ↦ snap.serverTick < later.serverTick := by
  obtain ⟨hacks, hmono, hnodup⟩ := received_spec past sevs e ses hs hj ht _ hsub
  intro start
  have hcache : ∀ done, (start.run done).cache =
      (popped done).foldl (snapshotFeed F32).receive start.cache := fun done ↦ (run_cache start done).1
  have hiff := (snapshotFeed F32).newest_iff start.cache (popped evs) hnodup fun snap h ↦
    (hacks snap h).choose_spec.1
  constructor
  · intro h
    refine hiff.mp fun past hp ↦ ?_
    obtain ⟨done, hd, rfl⟩ := List.prefix_filterMap_iff.mp hp
    exact hcache done ▸ (h done hd).1
  · intro hinc done hd
    have hpd : popped done <+: popped evs := popped_mono hd
    have hincd := hinc.sublist hpd.sublist
    have hacksd := fun snap h ↦ hacks snap (hpd.subset h)
    refine ⟨hcache done ▸ hiff.mpr hinc _ hpd, fun before hb ↦ ?_, ?_⟩
    · exact ackOf_mono (popped_mono hb) hincd
        (fun snap hs later hl ↦ hmono snap (hpd.subset hs) later (hpd.subset hl))
        (run_ackOf _ _ _ before fun snap h ↦ hacksd snap ((popped_mono hb).subset h))
        (run_ackOf _ _ _ done hacksd)
    · rintro before ss nowMs order rfl
      change (popped (before ++ [.snapshot ss nowMs order])).Pairwise _ at hincd
      rw [popped_append] at hincd hacksd ⊢
      have hlast := List.mem_singleton_self ss.snap
      obtain ⟨ack, ha⟩ := hacksd ss.snap (List.mem_append_right _ hlast)
      exact run_reconciled _ _ _ before ss nowMs order
        (fun snap hs ↦ (List.pairwise_append.mp hincd).2.2 snap hs ss.snap hlast) ha

end Client

/-- The events that pop snapshots one after another. -/
def pops {F : Type} [FloatArith F] (snaps : List (Snapshot F)) : List (Event F) :=
  snaps.map fun snap ↦ .snapshot ⟨snap, 0⟩ 0 PendingInputSample.sorted

/-- They pop these snapshots. -/
theorem popped_pops {F : Type} [FloatArith F] (snaps : List (Snapshot F)) :
    popped (pops snaps) = snaps := by
  rw [popped, pops, List.filterMap_map]
  exact List.filterMap_some

namespace Client

/-- The snapshots received from a server are those it has broadcast. -/
theorem received_eq (past sevs : List (Srv.Event F32)) (e : Endpoint) :
    (Srv.Server.sentTo e (Srv.Server.init.run past) sevs).filterMap NetworkReceiver.receive =
      Srv.Server.broadcastsTo e (Srv.Server.init.run past) sevs := by
  rw [filterMap_receive, ← Srv.ValidServer.server_reached, Srv.Server.snapshotsTo_eq]

/-- Two snapshots popped in order, with an input acknowledged between them. -/
theorem run_newest_two :
    let s : Srv.Server F32 := Srv.Server.init.run [.datagram 0 ⟨1, 1⟩ [1, 0, 2]]
    let sevs : List (Srv.Event F32) := [.tick 0 .sorted, .tick 0 .sorted, .tick 0 .sorted,
      .datagram 0 ⟨1, 1⟩ [3, 0, 1, 0, 0, 0, 1, 1, 0],
      .tick 0 .sorted, .tick 0 .sorted, .tick 0 .sorted]
    let evs := pops (Srv.Server.broadcastsTo ⟨1, 1⟩ s sevs)
    (snapshotFeed F32).Newest (popped evs) ((init 1 false false).run evs).cache := by
  intro s sevs evs
  refine ((run_newest_iff [.datagram 0 ⟨1, 1⟩ [1, 0, 2]] sevs ⟨1, 1⟩ ⟨1, ⟨1, 1⟩, 0⟩ (by decide)
    (by decide) (by decide) false false evs ?_).mpr ?_ evs List.prefix_rfl).1
  · rw [popped_pops, received_eq]
  · rw [popped_pops]
    decide

/-- The same two snapshots popped in the other order. The older one overwrites the tick and
the record of the player, and the acknowledged number falls from 1 to 0. -/
theorem stale_overwrites :
    let s : Srv.Server F32 := Srv.Server.init.run [.datagram 0 ⟨1, 1⟩ [1, 0, 2]]
    let sevs : List (Srv.Event F32) := [.tick 0 .sorted, .tick 0 .sorted, .tick 0 .sorted,
      .datagram 0 ⟨1, 1⟩ [3, 0, 1, 0, 0, 0, 1, 1, 0],
      .tick 0 .sorted, .tick 0 .sorted, .tick 0 .sorted]
    let evs := pops (Srv.Server.broadcastsTo ⟨1, 1⟩ s sevs).reverse
    let start : Client F32 := init 1 false false
    (popped evs).Subperm ((Srv.Server.sentTo ⟨1, 1⟩ s sevs).filterMap NetworkReceiver.receive) ∧
    (popped evs).map Snapshot.serverTick = [6, 3] ∧
    (start.run evs).latestTick = 3 ∧
    ((start.run evs).latestAuthoritative.find? 1).map PlayerState.lastProcessedInputSeq = some 0 ∧
    (start.run (evs.take 1)).lastAckSeq = 1 ∧ (start.run evs).lastAckSeq = 0 ∧
    ¬(snapshotFeed F32).Newest (popped evs) (start.run evs).cache := by
  intro s sevs evs start
  have hpop : popped evs = (Srv.Server.broadcastsTo ⟨1, 1⟩ s sevs).reverse := popped_pops _
  have hticks : (popped evs).map Snapshot.serverTick = [6, 3] := by
    rw [hpop]
    decide
  have hlatest : (start.run evs).latestTick = 3 := by decide
  refine ⟨?_, hticks, hlatest, by decide, by decide, by decide, ?_⟩
  · rw [hpop, received_eq]
    exact (List.reverse_perm _).subperm
  · obtain ⟨snap, hsnap, htick⟩ :=
      List.mem_map.mp (show (6 : UInt32) ∈ (popped evs).map Snapshot.serverTick by
        rw [hticks]
        exact List.mem_cons_self)
    apply not_newest_of_lt snap hsnap
    rw [htick, hlatest]
    decide

end Client
end LightningLink.Cl
