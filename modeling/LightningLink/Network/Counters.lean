import LightningLink.Network.Projection
import LightningLink.Server.Accounting

/-!
# Counters of the server and of the clients

Library `Network`. The counters in the logs of the two sides agree as far as a network that
loses datagrams allows: the inputs that the server counts from an endpoint are inputs that the
client there has counted as sent, each no more often, and a client has received no more
snapshots than the server counts broadcasts.
-/

namespace LightningLink

open Support Proto Srv Cl

/-! ### A client -/

namespace Cl.Client

variable {F : Type} [FloatArith F]

/-- An event counts the snapshot that it pops and the input that it sends. -/
theorem counters_step (c : Client F) (ev : Cl.Event F) :
    (c.step ev).snapshotsReceived =
        c.snapshotsReceived + UInt32.ofNat ev.popped.toList.length ∧
      (c.step ev).inputsSentTotal =
        c.inputsSentTotal + UInt32.ofNat (c.sends ev).toList.length := by
  cases ev with
  | togglePrediction => exact ⟨(UInt32.add_zero _).symm, (UInt32.add_zero _).symm⟩
  | prune nowMs order => exact ⟨(UInt32.add_zero _).symm, (UInt32.add_zero _).symm⟩
  | input mx my dt nowMs order =>
    change (c.sendInput mx my dt nowMs order).1.snapshotsReceived = _ ∧
      (c.sendInput mx my dt nowMs order).1.inputsSentTotal = _
    unfold sendInput
    exact ⟨(UInt32.add_zero _).symm, rfl⟩
  | snapshot ss nowMs order =>
    change (c.drainSnapshot ss nowMs order).snapshotsReceived = c.snapshotsReceived + 1 ∧
      (c.drainSnapshot ss nowMs order).inputsSentTotal = c.inputsSentTotal + 0
    rw [drainSnapshot_eq, UInt32.add_zero]
    split
    · exact ⟨rfl, rfl⟩
    · next auth _ =>
      obtain ⟨err, delay, log, pending, h⟩ := (c.store ss).reconcileLocal_frame auth nowMs order
      rw [h]
      exact ⟨rfl, rfl⟩

/-- A run counts the snapshots that it pops and the inputs that it sends. -/
theorem counters_run (myPid : UInt16) (noPrediction noInterpolation : Bool)
    (evs : List (Cl.Event F)) :
    let start : Client F := init myPid noPrediction noInterpolation
    (start.run evs).snapshotsReceived = UInt32.ofNat (popped evs).length ∧
      (start.run evs).inputsSentTotal = UInt32.ofNat (start.sent evs).length := by
  intro start
  induction evs using List.reverseRecOn with
  | nil => exact ⟨rfl, rfl⟩
  | append_singleton evs ev ih =>
    obtain ⟨hsnapshots, hinputs⟩ := (start.run evs).counters_step ev
    have hone : (popped [ev]).length = ev.popped.toList.length := by
      cases h : ev.popped with
      | none => rw [popped, List.filterMap_cons_none h]; rfl
      | some snap => rw [popped, List.filterMap_cons_some h]; rfl
    rw [run_concat, sent_concat, popped_append, List.length_append, List.length_append,
      UInt32.ofNat_add, UInt32.ofNat_add, ← ih.1, ← ih.2, hone]
    exact ⟨hsnapshots, hinputs⟩

end Cl.Client

/-! ### The server -/

namespace Net

section

variable [FloatArith F32]

/-- Inputs that the server counts from an endpoint. -/
def countedFrom (e : Endpoint) (t : Totals) : Multiset InputPacket :=
  ((t.inputs.filter fun x ↦ x.1 = e).map Prod.snd : List InputPacket)

/-- The server counts no input more often than it hears it. -/
theorem countedFrom_le (e : Endpoint) (evs : List (Srv.Event F32)) :
    countedFrom e (totals evs) ≤ heardInputs e evs := by
  induction evs using List.reverseRecOn with
  | nil => exact Multiset.zero_le _
  | append_singleton evs ev ih =>
    rw [totals_concat, heardInputs_concat, countedFrom, Totals.next, List.filter_append,
      List.map_append, ← Multiset.coe_add]
    refine add_le_add ih ?_
    cases hcounts : (ValidServer.reached evs).server.counts ev with
    | none => exact Multiset.zero_le _
    | some x =>
      cases ev with
      | tick now order => cases hcounts
      | datagram now src payload =>
        unfold Server.counts at hcounts
        dsimp only at hcounts
        split at hcounts
        · next ip hr =>
          split at hcounts
          · obtain rfl := Option.some.inj hcounts
            by_cases he : src = e
            · have hheard : (heardBy e (.datagram now src payload : Srv.Event F32)).bind inputIn =
                  some ip := by
                rw [show heardBy e (.datagram now src payload) = some payload from if_pos he,
                  Option.bind_some, inputIn, hr]
              rw [hheard, Option.toList_some, List.filter_cons, if_pos (decide_eq_true he)]
              exact le_rfl
            · rw [Option.toList_some, List.filter_cons, if_neg (by simpa using he)]
              exact Multiset.zero_le _
          · cases hcounts
        · cases hcounts

/-- Snapshots that the server sends to an endpoint in a history. -/
def toldSnapshots (e : Endpoint) (evs : List (Srv.Event F32)) : Multiset (Snapshot F32) :=
  (told e evs).filterMap NetworkReceiver.receive

/-- A broadcast sends one snapshot to an endpoint at most. -/
theorem card_toldSnapshots_le (e : Endpoint) (evs : List (Srv.Event F32)) :
    (toldSnapshots e evs).card ≤ (totals evs).broadcasts := by
  induction evs using List.reverseRecOn with
  | nil => exact le_rfl
  | append_singleton evs ev ih =>
    let v : ValidServer F32 := ValidServer.reached evs
    have hone : (payloads e ((v.server.handle ev).2 : Multiset Datagram)).filterMap
        NetworkReceiver.receive =
          (Server.snapshotsTo e v.server [ev] : Multiset (Snapshot F32)) := by
      rw [← Cl.Client.filterMap_receive, ← Multiset.filterMap_coe, Server.sentTo, Server.sentTo,
        List.append_nil]
      rfl
    rw [toldSnapshots, told_concat, Multiset.filterMap_add, Multiset.card_add, hone,
      totals_concat]
    refine add_le_add ih ?_
    cases ev with
    | datagram now src payload =>
      rw [Server.snapshotsTo_datagram]
      exact Nat.zero_le _
    | tick now order =>
      rw [v.wf.snapshotsTo_tick]
      dsimp only
      by_cases hb : v.server.Broadcasts (.tick now order)
      · rw [if_pos hb]
        split
        · exact le_rfl
        · exact Nat.zero_le _
      · rw [if_neg hb, if_neg fun h ↦ hb ⟨rfl, h.1⟩]
        exact le_rfl

/-- What a client has taken from its queue, and what is still there, the server has sent. -/
theorem Life.snapshots_le (l : Life) {e : Endpoint} {evs : List (Srv.Event F32)}
    (h : l.taken ≤ told e evs) :
    (popped l.evs ++ l.queue.map StampedSnapshot.snap : Multiset (Snapshot F32)) ≤
      toldSnapshots e evs := by
  have hread : l.snapshots.filterMap NetworkReceiver.receive =
      popped l.evs ++ l.queue.map StampedSnapshot.snap := by
    have hsome := congrArg (List.filterMap fun x ↦ x) l.received
    rw [List.filterMap_map, List.filterMap_map] at hsome
    exact hsome.trans List.filterMap_some
  rw [← hread, ← Multiset.filterMap_coe]
  exact Multiset.filterMap_le_filterMap _ ((Multiset.le_cons_self _ _).trans h)

end

/-- The counters of a client in its main loop, beside the events of the server and its own: it has
counted the snapshots that it has drained. These, together with those still in its queue, the
server has sent to it, none of them twice, so they are no more than the broadcasts. It has counted
the inputs it has sent, among which are all that the server has counted from it, none of them
twice. -/
def Process.Accounted [FloatArith F32] (evs : List (Srv.Event F32)) (did : List (Cl.Event F32))
    (e : Endpoint) : Process → Prop
  | .playing p =>
    (p.client.snapshotsReceived = UInt32.ofNat (popped did).length ∧
      (popped did ++ p.queue.map StampedSnapshot.snap : Multiset (Snapshot F32)) ≤
        toldSnapshots e evs ∧
      (popped did).length + p.queue.length ≤ (totals evs).broadcasts) ∧
    p.client.inputsSentTotal = UInt32.ofNat p.sent.length ∧
      countedFrom e (totals evs) ≤ (p.sent : Multiset InputPacket)
  | _ => True

/-- In every run of the server, its clients and their conditioners, the counters of the server
hold the totals of the events that it has handled, and those of every client fit them. -/
theorem Conditioned.accounted_run [FloatArith F32] {D : Type} [FloatOps D]
    {Q : PriorityQueue Pending Pending.deliverAtUs} (serverEp : Endpoint)
    (cfg : Endpoint → LaggedSocketConfig D) (serverCfg : LaggedSocketConfig D)
    (as : List (Conditioned.Action D)) :
    let start : Conditioned D Q := init serverEp cfg serverCfg
    (start.run as).server.server.Counted (totals (start.history as)) ∧
      ∀ e, ((start.run as).process e).Accounted (start.history as) (start.doings e as) e := by
  intro start
  obtain ⟨acts, h, _, hserver, hfits⟩ := exists_splits (Q := Q) serverEp cfg serverCfg as
  refine ⟨?_, fun e ↦ ?_⟩
  · rw [show (start.run as).server = _ from h.server, hserver]
    exact Server.counted_reached _
  · obtain ⟨out, taken, hdid, hheard, htold⟩ := hfits e
    rw [show (start.run as).process = _ from h.process]
    revert hdid
    cases (System.init.run acts).process e with
    | playing p =>
      intro hdid
      obtain ⟨l, rfl, hevs, rfl, rfl⟩ := hdid.exists_life
      obtain ⟨hsnapshots, hinputs⟩ :=
        Cl.Client.counters_run l.id l.noPrediction l.noInterpolation l.evs
      have hsent := l.snapshots_le ((Multiset.le_add_right _ _).trans htold)
      rw [← show l.evs = start.doings e as from hevs]
      refine ⟨⟨hsnapshots, hsent, ?_⟩, hinputs, ?_⟩
      · have hle := Multiset.card_le_card hsent
        rw [Multiset.coe_card, List.length_append, List.length_map] at hle
        exact hle.trans (card_toldSnapshots_le e _)
      · exact (countedFrom_le e _).trans
          (l.heardInputs_le ((Multiset.le_add_right _ _).trans hheard))
    | _ => exact fun _ ↦ trivial

end Net
end LightningLink
