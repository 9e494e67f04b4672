import LightningLink.Baseline.Conditioner
import LightningLink.Common.Conservation
import LightningLink.Support.Heap

/-!
# Order under constant latency

Library `Baseline`. Both conditioners order what waits by its time alone. The datagrams or
lines of a direction come out in the order in which they went in as long as each gets a later
time than those that still wait; among several with the same time a heap lets a later one out
before an earlier one.
-/

namespace LightningLink

open Support FloatOps
open PriorityQueue (InOrder)

namespace LaggedSocket

variable {D : Type} {Q : PriorityQueue Pending Pending.deliverAtUs}

/-- Datagrams go in later than those of their direction that still wait. -/
def Spread (s : LaggedSocket D Q) (c : Call D) : Prop :=
  (∀ p ∈ c.handed s.cfg, ∀ q ∈ s.queued true, q.deliverAtUs < p.deliverAtUs) ∧
  (∀ p ∈ c.read s.cfg, ∀ q ∈ s.queued false, q.deliverAtUs < p.deliverAtUs) ∧
  (c.read s.cfg).Pairwise fun p q ↦ p.deliverAtUs < q.deliverAtUs

instance (s : LaggedSocket D Q) (c : Call D) : Decidable (s.Spread c) :=
  inferInstanceAs (Decidable (_ ∧ _ ∧ _))

/-- What has left is a first part of what went in, in each direction, and nothing waits to be
sent where sending takes no time. -/
structure Ordered (s : LaggedSocket D Q) (handed released read delivered : List Pending) :
    Prop where
  outbound : InOrder Pending.deliverAtUs handed released (s.queued true)
  inbound : InOrder Pending.deliverAtUs read delivered (s.queued false)
  direct : s.cfg.addLatencyMsSend ≤ 0 → s.queued true = 0

/-- Adding entries of one direction to the queue. -/
theorem queued_add (s : LaggedSocket D Q) (queue : Q.Carrier) (xs : List Pending) {a : Bool}
    (h : Q.elems queue = (xs : Multiset Pending) + Q.elems s.queue)
    (hxs : ∀ p ∈ xs, p.outbound = a) :
    ({ s with queue := queue } : LaggedSocket D Q).queued a = xs + s.queued a ∧
      ∀ b, a ≠ b → ({ s with queue := queue } : LaggedSocket D Q).queued b = s.queued b := by
  unfold queued
  rw [h]
  refine ⟨?_, fun b hab ↦ ?_⟩
  · rw [Multiset.filter_add, filter_side hxs]
  · rw [Multiset.filter_add, filter_otherSide hxs hab, zero_add]

namespace Ordered

variable {s : LaggedSocket D Q} {handed released read delivered : List Pending}

/-- Entries with later times are read. -/
theorem drain {xs : List Pending} {queue : Q.Carrier}
    (h : Ordered s handed released read delivered)
    (helems : Q.elems queue = (xs : Multiset Pending) + Q.elems s.queue)
    (hxs : ∀ p ∈ xs, p.outbound = false)
    (hlater : ∀ p ∈ xs, ∀ q ∈ s.queued false, q.deliverAtUs < p.deliverAtUs)
    (hpair : xs.Pairwise fun p q ↦ p.deliverAtUs < q.deliverAtUs) :
    Ordered { s with queue := queue } handed released (read ++ xs) delivered := by
  obtain ⟨hsame, hother⟩ := queued_add s queue xs helems hxs
  have hout := hother true Bool.false_ne_true
  refine ⟨?_, ?_, fun hd ↦ ?_⟩
  · rw [hout]
    exact h.outbound
  · rw [hsame]
    exact h.inbound.push hpair hlater
  · rw [hout]
    exact h.direct hd

/-- Flushing lets outbound entries leave. -/
theorem flush {nowUs : UInt64} {xs : List Pending} {queue : Q.Carrier}
    (h : Ordered s handed released read delivered) (hxs : ∀ p ∈ xs, p.outbound = true)
    (hpops : PriorityQueue.Pops Q (fun _ p ↦ p.deliverAtUs ≤ nowUs && p.outbound)
      s.queue xs queue) :
    Ordered { s with queue := queue } handed (released ++ xs) read delivered := by
  obtain ⟨hsame, hother⟩ :=
    queued_add { s with queue := queue } s.queue xs hpops.elems_eq hxs
  refine ⟨h.outbound.pops _ hpops hxs, ?_, fun hd ↦ ?_⟩
  · have hin := hother false Bool.false_ne_true.symm
    change s.queued false = _ at hin
    rw [← hin]
    exact h.inbound
  · change s.queued true = _ at hsame
    rw [h.direct hd] at hsame
    refine Multiset.eq_zero_of_forall_notMem fun p hp ↦ ?_
    exact Multiset.notMem_zero p (hsame ▸ Multiset.mem_add.mpr (Or.inr hp))

/-- The search lets the least matured inbound entry leave. -/
theorem scan {scanUs : UInt64} {p : Pending} {queue : Q.Carrier}
    (h : Ordered s handed released read delivered)
    (hfound : Q.takeFirst (fun p ↦ !p.outbound && p.deliverAtUs ≤ scanUs) s.queue =
      (some p, queue)) :
    Ordered { s with queue := queue } handed released read (delivered ++ [p]) := by
  obtain ⟨_, htake, hleast⟩ := Q.takeFirst_some hfound
  have hp := found_matured hfound
  obtain ⟨hsame, hother⟩ := queued_add { s with queue := queue } s.queue [p] htake
    (List.forall_mem_singleton.mpr hp.1)
  change s.queued false = _ at hsame
  have hout := hother true Bool.false_ne_true
  change s.queued true = _ at hout
  refine ⟨?_, h.inbound.leave hsame fun y hy ↦ ?_, fun hd ↦ ?_⟩
  · rw [← hout]
    exact h.outbound
  · obtain ⟨hmem, hin⟩ := Multiset.mem_filter.mp hy
    -- An entry that has not matured is due after the reading that found `p`.
    by_cases hy : y.deliverAtUs ≤ scanUs
    · exact hleast y hmem (by simp [hin, hy])
    · exact Std.le_trans hp.2 (Std.le_of_lt (Std.not_le.mp hy))
  · rw [← hout]
    exact h.direct hd

/-- A transition keeps the order of both directions. -/
theorem transition {c : Call D} {released' delivered' : List Pending} {queue : Q.Carrier}
    (h : Ordered s handed released read delivered) (hjitter : s.cfg.jitterMs = 0)
    (hspread : s.Spread c) (htrans : Transition s c released' delivered' queue) :
    Ordered { s with queue := queue } (handed ++ c.handed s.cfg) (released ++ released')
      (read ++ c.read s.cfg) (delivered ++ delivered') := by
  obtain ⟨hsend, hread, hpair⟩ := hspread
  have htotal : ∀ draws, s.cfg.totalMs s.cfg.addLatencyMsSend draws =
      max 0 s.cfg.addLatencyMsSend := by
    intro draws
    simp [LaggedSocketConfig.totalMs, LaggedSocketConfig.sampleJitterMs, hjitter]
  cases htrans with
  | @direct ep data draws nowUs ht =>
    -- Nothing waits, so the datagram that is sent at once overtakes none.
    rw [htotal] at ht
    have hzero := h.direct (by omega)
    simp only [Call.handed, Call.read, List.append_nil]
    refine ⟨?_, h.inbound, h.direct⟩
    have hout := h.outbound
    change InOrder _ _ _ (s.queued true)
    rw [hzero] at hout ⊢
    exact hout.pass _
  | @enqueue ep data draws nowUs ht =>
    rw [htotal] at ht
    have hadd := queued_add s _ [_]
      (Q.elems_push (s.cfg.outboundEntry ep data draws nowUs) s.queue)
      (a := true) (List.forall_mem_singleton.mpr rfl)
    simp only [Call.handed, Call.read, List.append_nil]
    refine ⟨?_, ?_, fun hd ↦ ?_⟩
    · rw [hadd.1]
      exact h.outbound.push (List.pairwise_singleton _ _) hsend
    · rw [hadd.2 false Bool.false_ne_true.symm]
      exact h.inbound
    · have hd' : s.cfg.addLatencyMsSend ≤ 0 := hd
      omega
  | @receive cap arrivals flushUs scanUs _ drained flushed _ found helems hout hpops hfound =>
    have hin := Call.read_inbound s.cfg (.recvFrom cap arrivals flushUs scanUs)
    have hflushed := (h.drain helems hin hread hpair).flush hout hpops
    simp only [Call.handed, List.append_nil]
    cases found with
    | none =>
      rw [Option.toList_none, List.append_nil]
      obtain ⟨houtb, hinb, hdir⟩ := hflushed
      unfold queued at houtb hinb hdir
      rw [← (Q.takeFirst_none hfound).1] at houtb hinb hdir
      exact ⟨houtb, hinb, hdir⟩
    | some p => exact hflushed.scan hfound
  | pump hout hpops =>
    simp only [Call.handed, Call.read, List.append_nil]
    exact h.flush hout hpops

end Ordered

variable [FloatOps D]

/-- Datagrams leave in order in every run whose datagrams go in with later and later times. -/
theorem run_ordered (fd : Nat) (cfg : LaggedSocketConfig D) (hloss : cfg.Lossless)
    (hjitter : cfg.jitterMs = 0) (calls : List (Call D)) :
    let s : LaggedSocket D Q := bound fd cfg
    EveryStep (fun past c ↦ (s.run past).1.Spread c) calls →
    let r := s.run calls
    (r.1.fd = fd ∧ r.1.cfg = cfg) ∧
      ∃ released delivered, List.Forall₂ Sent.Releases r.2.1 released ∧
        List.Forall₂ Returned.Releases r.2.2 delivered ∧
        Ordered r.1 (calls.flatMap (Call.handed cfg)) released
          (calls.flatMap (Call.read cfg)) delivered := by
  intro s hspread r
  induction calls using List.reverseRecOn with
  | nil =>
    have hempty : ∀ b, s.queued b = 0 := by
      intro b
      change Multiset.filter _ (Q.elems Q.empty) = 0
      rw [Q.elems_empty]
      rfl
    refine ⟨⟨rfl, rfl⟩, [], [], .nil, .nil, ?_, ?_, fun _ ↦ hempty true⟩
    · exact (hempty true).symm ▸ InOrder.nil
    · exact (hempty false).symm ▸ InOrder.nil
  | append_singleton calls c ih =>
    obtain ⟨⟨hfd, hcfg⟩, released, delivered, hsent, hret, hord⟩ := ih hspread.init
    obtain ⟨released', delivered', queue, hcall, hsent', hret', htrans⟩ :=
      call_transition (s.run calls).1 c (by omega) (by rwa [hcfg])
    have hord' := hord.transition (by rw [hcfg, hjitter]) hspread.last htrans
    have hr : r = _ := run_concat s calls c
    rw [hr, hcall]
    refine ⟨⟨hfd, hcfg⟩, released ++ released', delivered ++ delivered',
      List.rel_append hsent hsent', List.rel_append hret hret', ?_⟩
    rw [hcfg] at hord'
    simpa only [List.flatMap_append, List.flatMap_singleton, hcfg] using hord'

end LaggedSocket

open Baseline in
/-- Constant latency preserves order while times are spread. For every implementation of the
queues, in every run of the socket without jitter and loss, and in every run of the line
conditioner without loss, whose items all go in later than those of their direction that
still wait, what has come out in a direction is a first part of what went in. -/
theorem order_of_spread {D : Type} [FloatOps D]
    (Q : PriorityQueue Pending Pending.deliverAtUs)
    (QL : PriorityQueue DelayedLine DelayedLine.deliverAtMs) :
    (∀ (fd : Nat) (cfg : LaggedSocketConfig D) (calls : List (Call D)),
      let s : LaggedSocket D Q := LaggedSocket.bound fd cfg
      cfg.Lossless → cfg.jitterMs = 0 →
      EveryStep (fun past c ↦ (s.run past).1.Spread c) calls →
      (∃ released, released <+: calls.flatMap (Call.handed cfg) ∧
        List.Forall₂ Sent.Releases (s.run calls).2.1 released) ∧
      ∃ delivered, delivered <+: calls.flatMap (Call.read cfg) ∧
        List.Forall₂ Returned.Releases (s.run calls).2.2 delivered) ∧
    ∀ (latency : Int) (lossProb : D) (evs : List (Conditioner.Event D)),
      let c : Conditioner D QL := Conditioner.init latency lossProb
      lt (ofInt 0) lossProb = false →
      EveryStep (fun past ev ↦ (c.run past).1.Spread ev) evs →
      (c.run evs).2.1 <+: evs.flatMap (Conditioner.Event.received latency) ∧
      (c.run evs).2.2 <+: evs.flatMap (Conditioner.Event.entered latency) := by
  constructor
  · intro fd cfg calls s hloss hjitter hspread
    obtain ⟨_, released, delivered, hsent, hret, hord⟩ :=
      LaggedSocket.run_ordered fd cfg hloss hjitter calls hspread
    exact ⟨⟨released, hord.outbound.isPrefix, hsent⟩, delivered, hord.inbound.isPrefix, hret⟩
  · intro latency lossProb evs c hloss hspread
    obtain ⟨_, hin, hout⟩ := Conditioner.run_inOrder latency lossProb hloss evs hspread
    exact ⟨hin.isPrefix, hout.isPrefix⟩

open Baseline in
/-- Two datagrams read and two lines received within one step of the main loop, but not within
one clock unit. -/
theorem order_of_spread_two :
    letI := LaggedSocketConfig.wholeLoss
    let cfg : LaggedSocketConfig Int := ⟨50, 50, 0, 0⟩
    let calls : List (Call Int) := [
      .recvFrom 8 [⟨⟨1, 1⟩, [1], ⟨0, 0⟩, 1000⟩, ⟨⟨1, 1⟩, [2], ⟨0, 0⟩, 1001⟩] 52000 52000]
    let evs : List (Conditioner.Event Int) := [.enqueueIn ['a'] 0 1000, .enqueueIn ['b'] 0 1001]
    (∃ delivered, delivered <+: calls.flatMap (Call.read cfg) ∧ List.Forall₂ Returned.Releases
      ((LaggedSocket.bound 3 cfg : LaggedSocket Int (.heap Pending.deliverAtUs)).run
        calls).2.2 delivered) ∧
    ((Conditioner.init 50 0 : Conditioner Int (.heap DelayedLine.deliverAtMs)).run
      evs).2.1 <+: evs.flatMap (Conditioner.Event.received 50) := by
  let _ := LaggedSocketConfig.wholeLoss
  have h := order_of_spread (D := Int) (.heap Pending.deliverAtUs)
    (.heap DelayedLine.deliverAtMs)
  exact ⟨(h.1 3 ⟨50, 50, 0, 0⟩ _ (by decide) rfl (.cons (by decide +kernel) .nil)).2,
    (h.2 50 0 _ (by decide) (.cons (by decide +kernel) (.cons (by decide +kernel) .nil))).1⟩

open Baseline in
/-- Four datagrams read in one microsecond, of which a call finds none due, and four lines
received in one millisecond: the heaps let the third out before the second. -/
theorem order_lost_within_unit :
    letI := LaggedSocketConfig.wholeLoss
    let cfg : LaggedSocketConfig Int := ⟨50, 50, 0, 0⟩
    let calls : List (Call Int) := [
      .recvFrom 8 [⟨⟨1, 1⟩, [1], ⟨0, 0⟩, 1000⟩, ⟨⟨1, 1⟩, [2], ⟨0, 0⟩, 1000⟩,
        ⟨⟨1, 1⟩, [3], ⟨0, 0⟩, 1000⟩, ⟨⟨1, 1⟩, [4], ⟨0, 0⟩, 1000⟩] 1000 1000,
      .recvFrom 8 [] 2000 2000, .recvFrom 8 [] 51000 51000, .recvFrom 8 [] 51000 51000,
      .recvFrom 8 [] 51000 51000, .recvFrom 8 [] 51000 51000]
    let evs : List (Conditioner.Event Int) := [.enqueueIn ['a'] 0 1000, .enqueueIn ['b'] 0 1000,
      .enqueueIn ['c'] 0 1000, .enqueueIn ['d'] 0 1000, .releaseIn fun _ ↦ 1050]
    ((calls.flatMap (Call.read cfg)).map Pending.bytes = [[1], [2], [3], [4]] ∧
      ((LaggedSocket.bound 3 cfg : LaggedSocket Int (.heap Pending.deliverAtUs)).run
        calls).2.2.map Returned.bytes = [[1], [3], [2], [4]]) ∧
    (evs.flatMap (Conditioner.Event.received 50)).map DelayedLine.data =
        [['a'], ['b'], ['c'], ['d']] ∧
      ((Conditioner.init 50 0 : Conditioner Int (.heap DelayedLine.deliverAtMs)).run
        evs).2.1.map DelayedLine.data = [['a'], ['c'], ['b'], ['d']] := by
  decide +kernel

end LightningLink
