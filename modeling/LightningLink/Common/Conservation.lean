import LightningLink.Common.LaggedSocket
import Mathlib.Data.List.Induction

/-!
# Where every datagram is

Library `Common`. A call moves entries only into the queue and out of it, so what was handed
to `send_to` or read from the socket has left through `::sendto` or `recv_from`, or still
waits. `conserved` adds that nothing leaves early and that `recv_from` returns the least
matured entry, for every implementation of the queue.
-/

namespace LightningLink

open Support FloatOps

/-- What a call of `send_to` wants delivered. -/
def Call.handed {D : Type} (cfg : LaggedSocketConfig D) : Call D → List Pending
  | .sendTo ep data draws nowUs => [cfg.outboundEntry ep data draws nowUs]
  | _ => []

/-- What a call of `recv_from` reads from the socket. -/
def Call.read {D : Type} (cfg : LaggedSocketConfig D) : Call D → List Pending
  | .recvFrom _ arrivals _ _ =>
    (arrivals.takeWhile fun a ↦ a.payload.length ≠ 0).map cfg.inboundEntry
  | _ => []

/-- What is read is inbound. -/
theorem Call.read_inbound {D : Type} (cfg : LaggedSocketConfig D) (c : Call D) :
    ∀ p ∈ c.read cfg, p.outbound = false := by
  cases c with
  | recvFrom cap arrivals flushUs scanUs =>
    intro p hp
    obtain ⟨a, _, rfl⟩ := List.mem_map.mp hp
    rfl
  | _ => exact fun _ hp ↦ absurd hp List.not_mem_nil

/-- What is handed over is outbound. -/
theorem Call.handed_outbound {D : Type} (cfg : LaggedSocketConfig D) (c : Call D) :
    ∀ p ∈ c.handed cfg, p.outbound = true := by
  cases c with
  | sendTo ep data draws nowUs =>
    intro p hp
    rw [List.mem_singleton.mp hp]
    rfl
  | _ => exact fun _ hp ↦ absurd hp List.not_mem_nil

/-- Entries of one direction are all of it. -/
theorem filter_side {xs : List Pending} {outbound : Bool} (h : ∀ p ∈ xs, p.outbound = outbound) :
    ((xs : Multiset Pending).filter fun p ↦ p.outbound = outbound) = xs :=
  Multiset.filter_eq_self.mpr h

/-- Entries of one direction are none of the other. -/
theorem filter_otherSide {xs : List Pending} {a b : Bool} (h : ∀ p ∈ xs, p.outbound = a)
    (hab : a ≠ b) : ((xs : Multiset Pending).filter fun p ↦ p.outbound = b) = 0 :=
  Multiset.filter_eq_nil.mpr fun p hp hb ↦ hab ((h p hp).symm.trans hb)

/-- A transmission is that of an entry, unchanged and not before its time. -/
structure Sent.Releases (x : Sent) (p : Pending) : Prop where
  ep : x.ep = p.ep
  bytes : x.bytes = p.bytes
  due : p.deliverAtUs ≤ x.atUs

/-- A result is that of an entry, cut to the capacity and not before its time. -/
structure Returned.Releases (x : Returned) (p : Pending) : Prop where
  src : x.src = p.ep
  bytes : x.bytes = p.bytes.take x.cap
  due : p.deliverAtUs ≤ x.atUs

namespace LaggedSocket

variable {D : Type} {Q : PriorityQueue Pending Pending.deliverAtUs}

/-- Queued entries of one direction. -/
def queued (s : LaggedSocket D Q) (outbound : Bool) : Multiset Pending :=
  (Q.elems s.queue).filter fun p ↦ p.outbound = outbound

/-- A datagram without delay is due at once. -/
theorem outboundEntry_due (cfg : LaggedSocketConfig D) (ep : Endpoint) (data : List UInt8)
    (draws : Draws D) (nowUs : UInt64) (h : cfg.totalMs cfg.addLatencyMsSend draws = 0) :
    (cfg.outboundEntry ep data draws nowUs).deliverAtUs = nowUs := by
  unfold LaggedSocketConfig.outboundEntry
  rw [h]
  exact UInt64.add_zero nowUs

/-- Flushing releases matured outbound entries and keeps the others. -/
theorem flushOutboundLocked_spec (nowUs : UInt64) (s : LaggedSocket D Q) :
    ∃ (released : List Pending) (queue : Q.Carrier), s.flushOutboundLocked nowUs =
        ({ s with queue := queue }, released.map fun p ↦ ⟨nowUs, p.ep, p.bytes⟩) ∧
      (∀ p ∈ released, p.deliverAtUs ≤ nowUs ∧ p.outbound = true) ∧
      PriorityQueue.Pops Q (fun _ p ↦ p.deliverAtUs ≤ nowUs && p.outbound)
        s.queue released queue := by
  have hpops := Q.pops_popWhile (fun _ p ↦ p.deliverAtUs ≤ nowUs && p.outbound) s.queue
  refine ⟨_, _, rfl, ?_, hpops⟩
  intro p hp
  obtain ⟨_, htest⟩ := hpops.test_of_mem p hp
  simpa using htest

/-- What flushing transmits are the entries it releases. -/
theorem forall₂_sent {released : List Pending} {nowUs : UInt64}
    (h : ∀ p ∈ released, p.deliverAtUs ≤ nowUs) :
    List.Forall₂ Sent.Releases (released.map fun p ↦ ⟨nowUs, p.ep, p.bytes⟩) released := by
  rw [List.forall₂_map_left_iff, List.forall₂_same]
  exact fun p hp ↦ ⟨rfl, rfl, h p hp⟩

variable [FloatOps D]

/-- Without loss, draining queues all that is read. -/
theorem drain_spec (arrivals : List (Arrival D)) (s : LaggedSocket D Q) (h : s.cfg.Lossless) :
    ∃ queue, s.drain arrivals = { s with queue := queue } ∧
      Q.elems queue = ((arrivals.takeWhile fun a ↦ a.payload.length ≠ 0).map
        s.cfg.inboundEntry : List Pending) + Q.elems s.queue := by
  induction arrivals generalizing s with
  | nil => exact ⟨s.queue, rfl, by simp⟩
  | cons a as ih =>
    unfold drain
    by_cases ha : a.payload.length = 0
    · refine ⟨s.queue, if_pos ha, ?_⟩
      rw [List.takeWhile_cons_of_neg (by simpa using ha)]
      simp
    · rw [if_neg ha, LaggedSocketConfig.drops_of_lossless h]
      obtain ⟨queue, heq, helems⟩ := ih { s with queue := Q.push (s.cfg.inboundEntry a) s.queue } h
      refine ⟨queue, heq, ?_⟩
      rw [helems, Q.elems_push, List.takeWhile_cons_of_pos (by simpa using ha), List.map_cons,
        ← Multiset.cons_coe, Multiset.cons_add, Multiset.add_cons]

/-- What a call on an open socket without loss does: the entries that leave outbound and
inbound, and the queue after it. -/
inductive Transition (s : LaggedSocket D Q) :
    Call D → List Pending → List Pending → Q.Carrier → Prop
  /-- A datagram without delay does not enter the queue. -/
  | direct {ep : Endpoint} {data : List UInt8} {draws : Draws D} {nowUs : UInt64}
      (htotal : s.cfg.totalMs s.cfg.addLatencyMsSend draws = 0) :
      Transition s (.sendTo ep data draws nowUs) [s.cfg.outboundEntry ep data draws nowUs] []
        s.queue
  | enqueue {ep : Endpoint} {data : List UInt8} {draws : Draws D} {nowUs : UInt64}
      (htotal : s.cfg.totalMs s.cfg.addLatencyMsSend draws ≠ 0) :
      Transition s (.sendTo ep data draws nowUs) [] []
        (Q.push (s.cfg.outboundEntry ep data draws nowUs) s.queue)
  /-- What is read enters, matured outbound entries leave, and then the search takes one. -/
  | receive {cap : Nat} {arrivals : List (Arrival D)} {flushUs scanUs : UInt64}
      {released : List Pending} {drained flushed queue : Q.Carrier} {found : Option Pending}
      (hread : Q.elems drained =
        (Call.recvFrom cap arrivals flushUs scanUs).read s.cfg + Q.elems s.queue)
      (hout : ∀ p ∈ released, p.outbound = true)
      (hpops : PriorityQueue.Pops Q (fun _ p ↦ p.deliverAtUs ≤ flushUs && p.outbound)
        drained released flushed)
      (hfound : Q.takeFirst (fun p ↦ !p.outbound && p.deliverAtUs ≤ scanUs) flushed =
        (found, queue)) :
      Transition s (.recvFrom cap arrivals flushUs scanUs) released found.toList queue
  | pump {nowUs : UInt64} {released : List Pending} {queue : Q.Carrier}
      (hout : ∀ p ∈ released, p.outbound = true)
      (hpops : PriorityQueue.Pops Q (fun _ p ↦ p.deliverAtUs ≤ nowUs && p.outbound)
        s.queue released queue) :
      Transition s (.pump nowUs) released [] queue

/-- What the search takes is inbound and has matured. -/
theorem found_matured {scanUs : UInt64} {queue queue' : Q.Carrier} {p : Pending}
    (h : Q.takeFirst (fun p ↦ !p.outbound && p.deliverAtUs ≤ scanUs) queue = (some p, queue')) :
    p.outbound = false ∧ p.deliverAtUs ≤ scanUs := by
  simpa using (Q.takeFirst_some h).1

/-- Every call makes a transition, and sends and returns what leaves in it. -/
theorem call_transition (s : LaggedSocket D Q) (c : Call D) (hfd : 0 ≤ s.fd)
    (h : s.cfg.Lossless) :
    ∃ released delivered queue, (s.call c).1 = { s with queue := queue } ∧
      List.Forall₂ Sent.Releases (s.call c).2.1 released ∧
      List.Forall₂ Returned.Releases (s.call c).2.2 delivered ∧
      Transition s c released delivered queue := by
  have hopen : ¬ s.fd < 0 := by omega
  cases c with
  | sendTo ep data draws nowUs =>
    unfold call sendTo
    dsimp only
    rw [if_neg hopen, LaggedSocketConfig.drops_of_lossless h]
    simp only [Bool.false_eq_true, if_false]
    by_cases ht : s.cfg.totalMs s.cfg.addLatencyMsSend draws = 0
    · have hdue := outboundEntry_due s.cfg ep data draws nowUs ht
      rw [if_pos ht]
      refine ⟨_, _, _, rfl, .cons ⟨rfl, rfl, ?_⟩ .nil, .nil, .direct ht⟩
      rw [hdue]
      exact UInt64.le_refl nowUs
    · rw [if_neg ht]
      exact ⟨_, _, _, rfl, .nil, .nil, .enqueue ht⟩
  | recvFrom cap arrivals flushUs scanUs =>
    obtain ⟨drained, hdrain, hread⟩ := s.drain_spec arrivals h
    obtain ⟨released, flushed, hflush, hrel, hpops⟩ :=
      flushOutboundLocked_spec flushUs { s with queue := drained }
    unfold call recvFrom
    dsimp only
    rw [if_neg hopen, hdrain, hflush]
    dsimp only
    cases hfound : Q.takeFirst (fun p ↦ !p.outbound && p.deliverAtUs ≤ scanUs) flushed with
    | mk found queue =>
      refine ⟨released, found.toList, queue, rfl, forall₂_sent fun p hp ↦ (hrel p hp).1, ?_,
        .receive hread (fun p hp ↦ (hrel p hp).2) hpops hfound⟩
      cases found with
      | none => exact .nil
      | some p => exact .cons ⟨rfl, rfl, (found_matured hfound).2⟩ .nil
  | pump nowUs =>
    obtain ⟨released, queue, hflush, hrel, hpops⟩ := flushOutboundLocked_spec nowUs s
    unfold call pump
    dsimp only
    rw [hflush]
    exact ⟨released, [], queue, rfl, forall₂_sent fun p hp ↦ (hrel p hp).1, .nil,
      .pump (fun p hp ↦ (hrel p hp).2) hpops⟩

omit [FloatOps D] in
/-- A transition loses and duplicates nothing: entries handed over or read come in, outbound
and inbound entries leave, and the others stay. -/
theorem Transition.balance {s : LaggedSocket D Q} {c : Call D} {released delivered : List Pending}
    {queue : Q.Carrier} (h : Transition s c released delivered queue) :
    (∀ p ∈ released, p.outbound = true) ∧ (∀ p ∈ delivered, p.outbound = false) ∧
      (c.handed s.cfg + c.read s.cfg : Multiset Pending) + Q.elems s.queue =
        released + delivered + Q.elems queue := by
  cases h with
  | direct htotal =>
    exact ⟨by simp [LaggedSocketConfig.outboundEntry], by simp, by simp [Call.handed, Call.read]⟩
  | enqueue htotal => exact ⟨by simp, by simp, by simp [Call.handed, Call.read, Q.elems_push]⟩
  | @receive cap arrivals flushUs scanUs _ drained flushed _ found hread hout hpops hfound =>
    have hin : ((Call.recvFrom cap arrivals flushUs scanUs).handed s.cfg +
        (Call.recvFrom cap arrivals flushUs scanUs).read s.cfg : Multiset Pending) +
        Q.elems s.queue = released + Q.elems flushed := by
      rw [← hpops.elems_eq, hread]
      simp [Call.handed]
    rw [hin]
    cases found with
    | none =>
      refine ⟨hout, by simp, ?_⟩
      rw [(Q.takeFirst_none hfound).1]
      simp
    | some p =>
      refine ⟨hout, by simpa using (found_matured hfound).1, ?_⟩
      rw [(Q.takeFirst_some hfound).2.1, Option.toList_some, Multiset.coe_singleton,
        ← Multiset.singleton_add, add_assoc]
  | pump hout hpops =>
    refine ⟨hout, by simp, ?_⟩
    rw [hpops.elems_eq]
    simp [Call.handed, Call.read]

/-! ### Runs -/

/-- One more call of a run. -/
theorem run_concat (s : LaggedSocket D Q) (calls : List (Call D)) (c : Call D) :
    s.run (calls ++ [c]) =
      (((s.run calls).1.call c).1, (s.run calls).2.1 ++ ((s.run calls).1.call c).2.1,
        (s.run calls).2.2 ++ ((s.run calls).1.call c).2.2) := by
  rw [run, List.foldl_append]
  rfl

/-- After any calls on a socket that has just been bound, each entry handed over or read has
left through one transmission or one result, or is queued. -/
theorem run_spec (fd : Nat) (cfg : LaggedSocketConfig D) (h : cfg.Lossless)
    (calls : List (Call D)) :
    let r := (bound fd cfg : LaggedSocket D Q).run calls
    (r.1.fd = fd ∧ r.1.cfg = cfg) ∧
      ∃ released delivered, List.Forall₂ Sent.Releases r.2.1 released ∧
        List.Forall₂ Returned.Releases r.2.2 delivered ∧
        (∀ p ∈ released, p.outbound = true) ∧ (∀ p ∈ delivered, p.outbound = false) ∧
        (calls.flatMap (Call.handed cfg) + calls.flatMap (Call.read cfg) : Multiset Pending) =
          released + delivered + Q.elems r.1.queue := by
  induction calls using List.reverseRecOn with
  | nil =>
    refine ⟨⟨rfl, rfl⟩, [], [], .nil, .nil, by simp, by simp, ?_⟩
    simp [run, bound, Q.elems_empty]
  | append_singleton calls c ih =>
    obtain ⟨⟨hfd, hcfg⟩, released, delivered, hsent, hret, hout, hin, hsum⟩ := ih
    obtain ⟨released', delivered', queue, hcall, hsent', hret', htrans⟩ :=
      call_transition ((bound fd cfg : LaggedSocket D Q).run calls).1 c (by omega) (by rwa [hcfg])
    obtain ⟨hout', hin', hsum'⟩ := htrans.balance
    rw [hcfg] at hsum'
    intro r
    have hr : r = _ := run_concat (bound fd cfg) calls c
    rw [hr, hcall]
    refine ⟨⟨hfd, hcfg⟩, released ++ released', delivered ++ delivered',
      List.rel_append hsent hsent', List.rel_append hret hret', ?_, ?_, ?_⟩
    · exact List.forall_mem_append.mpr ⟨hout, hout'⟩
    · exact List.forall_mem_append.mpr ⟨hin, hin'⟩
    · simp only [List.flatMap_append, List.flatMap_singleton, ← Multiset.coe_add]
      -- What came before is accounted for by `ih`, the call itself by its step lemma.
      calc ((calls.flatMap (Call.handed cfg) : Multiset Pending) + c.handed cfg) +
            (calls.flatMap (Call.read cfg) + c.read cfg)
          = (calls.flatMap (Call.handed cfg) + calls.flatMap (Call.read cfg)) +
            (c.handed cfg + c.read cfg) := add_add_add_comm _ _ _ _
        _ = released + delivered + (c.handed cfg + c.read cfg +
            Q.elems ((bound fd cfg : LaggedSocket D Q).run calls).1.queue) := by
          rw [hsum, add_assoc, add_comm (Q.elems _)]
        _ = (released + delivered) + (released' + delivered') + _ := by
          rw [hsum', ← add_assoc]
        _ = _ := by rw [add_add_add_comm]

/-- What `recv_from` returns is least among the inbound entries, queued or just read, that
have matured at its clock reading; it returns nothing only if there are none. -/
theorem recvFrom_least (s : LaggedSocket D Q) (hfd : 0 ≤ s.fd) (h : s.cfg.Lossless) (cap : Nat)
    (arrivals : List (Arrival D)) (flushUs scanUs : UInt64) :
    let matured := (s.queued false +
      (Call.recvFrom cap arrivals flushUs scanUs).read s.cfg).filter fun p ↦ p.deliverAtUs ≤ scanUs
    match (s.recvFrom cap arrivals flushUs scanUs).1 with
    | none => matured = 0
    | some x => ∃ p ∈ matured, (∀ y ∈ matured, p.deliverAtUs ≤ y.deliverAtUs) ∧
        x = ⟨scanUs, cap, p.ep, p.bytes.take cap⟩ := by
  intro matured
  obtain ⟨drained, hdrain, hread⟩ := s.drain_spec arrivals h
  obtain ⟨released, flushed, hflush, hrel, hpops⟩ :=
    flushOutboundLocked_spec flushUs { s with queue := drained }
  have helems := hpops.elems_eq
  -- Flushing removes outbound entries only, so the search sees all inbound ones.
  have hin : s.queued false + (Call.recvFrom cap arrivals flushUs scanUs).read s.cfg =
      (Q.elems flushed).filter fun p ↦ p.outbound = false := by
    calc s.queued false + (Call.recvFrom cap arrivals flushUs scanUs).read s.cfg
        = (Q.elems drained).filter fun p ↦ p.outbound = false := by
          rw [hread, Multiset.filter_add, add_comm]
          exact congrArg (· + _) (filter_side (Call.read_inbound _ _)).symm
      _ = (Q.elems flushed).filter fun p ↦ p.outbound = false := by
          rw [helems, Multiset.filter_add, filter_otherSide (fun p hp ↦ (hrel p hp).2) (by decide)]
          exact zero_add _
  have hmatured : ∀ p, p ∈ matured ↔
      p ∈ Q.elems flushed ∧ p.outbound = false ∧ p.deliverAtUs ≤ scanUs := by
    intro p
    rw [Multiset.mem_filter, hin, Multiset.mem_filter, and_assoc]
  unfold recvFrom
  rw [if_neg (by omega), hdrain, hflush]
  dsimp only
  cases hfound : Q.takeFirst (fun p ↦ !p.outbound && p.deliverAtUs ≤ scanUs) flushed with
  | mk found queue =>
    cases found with
    | none =>
      refine Multiset.eq_zero_of_forall_notMem fun p hp ↦ ?_
      obtain ⟨hmem, hout, hdue⟩ := (hmatured p).mp hp
      simpa [hout, hdue] using (Q.takeFirst_none hfound).2 p hmem
    | some p =>
      obtain ⟨_, htake, hleast⟩ := Q.takeFirst_some hfound
      refine ⟨p, (hmatured p).mpr ⟨?_, found_matured hfound⟩, fun y hy ↦ ?_, rfl⟩
      · rw [htake]
        exact Multiset.mem_cons_self _ _
      · obtain ⟨hmem, hout, hdue⟩ := (hmatured y).mp hy
        exact hleast y hmem (by simp [hout, hdue])

/-- Nothing is lost, duplicated or delivered early. After any calls, each entry handed over
has been transmitted once or is queued, each entry read has been returned once or is queued,
neither before its time, and the next result is the least matured inbound entry. -/
theorem conserved (fd : Nat) (cfg : LaggedSocketConfig D) (h : cfg.Lossless)
    (calls : List (Call D)) :
    let r := (bound fd cfg : LaggedSocket D Q).run calls
    (∃ released, List.Forall₂ Sent.Releases r.2.1 released ∧
      (calls.flatMap (Call.handed cfg) : Multiset Pending) = released + r.1.queued true) ∧
    (∃ delivered, List.Forall₂ Returned.Releases r.2.2 delivered ∧
      (calls.flatMap (Call.read cfg) : Multiset Pending) = delivered + r.1.queued false) ∧
    ∀ cap arrivals flushUs scanUs,
      let matured := (r.1.queued false +
        (Call.recvFrom cap arrivals flushUs scanUs).read cfg).filter fun p ↦ p.deliverAtUs ≤ scanUs
      match (r.1.recvFrom cap arrivals flushUs scanUs).1 with
      | none => matured = 0
      | some x => ∃ p ∈ matured, (∀ y ∈ matured, p.deliverAtUs ≤ y.deliverAtUs) ∧
          x = ⟨scanUs, cap, p.ep, p.bytes.take cap⟩ := by
  intro r
  obtain ⟨⟨hfd, hcfg⟩, released, delivered, hsent, hret, hout, hin, hsum⟩ :=
    run_spec (Q := Q) fd cfg h calls
  have hhanded : ∀ p ∈ calls.flatMap (Call.handed cfg), p.outbound = true := by
    intro p hp
    obtain ⟨c, _, hp⟩ := List.mem_flatMap.mp hp
    exact c.handed_outbound cfg p hp
  have hread : ∀ p ∈ calls.flatMap (Call.read cfg), p.outbound = false := by
    intro p hp
    obtain ⟨c, _, hp⟩ := List.mem_flatMap.mp hp
    exact c.read_inbound cfg p hp
  refine ⟨⟨released, hsent, ?_⟩, ⟨delivered, hret, ?_⟩, fun cap arrivals flushUs scanUs ↦ ?_⟩
  · have hside := congrArg (Multiset.filter fun p ↦ p.outbound = true) hsum
    simp only [Multiset.filter_add, filter_side hhanded, filter_side hout,
      filter_otherSide hread Bool.false_ne_true, filter_otherSide hin Bool.false_ne_true,
      add_zero] at hside
    exact hside
  · have hside := congrArg (Multiset.filter fun p ↦ p.outbound = false) hsum
    simp only [Multiset.filter_add, filter_side hread, filter_side hin,
      filter_otherSide hhanded Bool.false_ne_true.symm,
      filter_otherSide hout Bool.false_ne_true.symm, zero_add] at hside
    exact hside
  · have hleast := recvFrom_least r.1 (hfd ▸ Int.natCast_nonneg fd) (by rwa [hcfg]) cap arrivals
      flushUs scanUs
    rwa [hcfg] at hleast

/-- Of two datagrams read and one handed over, one has been transmitted, one is returned and
one is queued. -/
theorem conserved_three :
    letI := LaggedSocketConfig.wholeLoss
    let cfg : LaggedSocketConfig Int := ⟨40, 40, 10, 0⟩
    let calls : List (Call Int) := [.sendTo ⟨1, 1⟩ [7] ⟨-10, 0⟩ 1000,
      .recvFrom 1 [⟨⟨2, 2⟩, [8, 9], ⟨-10, 0⟩, 2000⟩, ⟨⟨2, 2⟩, [6], ⟨10, 0⟩, 2000⟩] 45000 45000]
    let r := (bound 3 cfg : LaggedSocket Int (.newestFirst Pending.deliverAtUs)).run calls
    (r.2.1 = [⟨45000, ⟨1, 1⟩, [7]⟩] ∧ r.2.2 = [⟨45000, 1, ⟨2, 2⟩, [8]⟩]) ∧
      ∃ delivered, List.Forall₂ Returned.Releases r.2.2 delivered ∧
        (calls.flatMap (Call.read cfg) : Multiset Pending) = delivered + r.1.queued false := by
  let _ := LaggedSocketConfig.wholeLoss
  exact ⟨by decide +kernel, (conserved 3 ⟨40, 40, 10, 0⟩ (by decide) _).2.1⟩

end LaggedSocket
end LightningLink
