import LightningLink.Common.Types
import LightningLink.Support.PriorityQueue
import LightningLink.Support.Machine

/-!
# Line conditioner

Library `Baseline`. Models the `Conditioner` of `client/tcp_baseline_client.cpp` with the
loops that fill and release its queues. The loops read the clock anew for every line. Lines
come out in the order in which they went in as long as each gets a later time than those
of its direction that still wait.
-/

namespace LightningLink.Baseline

open Support FloatOps
open PriorityQueue (InOrder)

/-- `client/tcp_baseline_client.cpp:44`. A `std::string` is the list of its characters. -/
structure DelayedLine where
  deliverAtMs : UInt64
  data : List Char
  deriving DecidableEq

/-- Line with the time of its release; `client/tcp_baseline_client.cpp:212–215` and `276–279`. -/
def DelayedLine.after (addLatencyMs : Int) (line : List Char) (nowMs : UInt64) : DelayedLine :=
  ⟨nowMs + UInt64.ofInt addLatencyMs, line⟩

/-- `client/tcp_baseline_client.cpp:46–62`, without the generator. -/
structure Conditioner (D : Type) (Q : PriorityQueue DelayedLine DelayedLine.deliverAtMs) where
  addLatencyMsEachDirection : Int
  lossProb : D
  outQueue : Q.Carrier
  inQueue : Q.Carrier

/-- A use of the conditioner by the main loop, with the draws and clock readings it makes. -/
inductive Conditioner.Event (D : Type)
  | enqueueIn (line : List Char) (draw : D) (nowMs : UInt64)
  | releaseIn (clock : Nat → UInt64)
  | enqueueOut (line : List Char) (draw : D) (nowMs : UInt64)
  | releaseOut (clock : Nat → UInt64)

namespace Conditioner

variable {D : Type} {Q : PriorityQueue DelayedLine DelayedLine.deliverAtMs}

/-- Conditioner with empty queues; `client/tcp_baseline_client.cpp:154–160`. -/
def init (addLatencyMsEachDirection : Int) (lossProb : D) : Conditioner D Q :=
  ⟨addLatencyMsEachDirection, lossProb, Q.empty, Q.empty⟩

/-- `client/tcp_baseline_client.cpp:64–68`. -/
def shouldDrop [FloatOps D] (c : Conditioner D Q) (draw : D) : Bool :=
  if lt (ofInt 0) c.lossProb then lt draw c.lossProb else false

/-- Skip, drop or delay a received line; `client/tcp_baseline_client.cpp:210–216`. -/
def enqueueIn [FloatOps D] (line : List Char) (draw : D) (nowMs : UInt64) (c : Conditioner D Q) :
    Conditioner D Q :=
  if line.isEmpty then c
  else if c.shouldDrop draw then c
  else { c with inQueue := Q.push (.after c.addLatencyMsEachDirection line nowMs) c.inQueue }

/-- Take the matured received lines; `client/tcp_baseline_client.cpp:221–223`. -/
def releaseIn (clock : Nat → UInt64) (c : Conditioner D Q) : Conditioner D Q × List DelayedLine :=
  let r := Q.popWhile (fun i l ↦ l.deliverAtMs ≤ clock i) c.inQueue
  ({ c with inQueue := r.2 }, r.1)

/-- Drop or delay an input line; `client/tcp_baseline_client.cpp:275–281`. -/
def enqueueOut [FloatOps D] (line : List Char) (draw : D) (nowMs : UInt64) (c : Conditioner D Q) :
    Conditioner D Q :=
  if c.shouldDrop draw then c
  else { c with outQueue := Q.push (.after c.addLatencyMsEachDirection line nowMs) c.outQueue }

/-- Take the matured input lines; `client/tcp_baseline_client.cpp:293–297`. -/
def releaseOut (clock : Nat → UInt64) (c : Conditioner D Q) : Conditioner D Q × List DelayedLine :=
  let r := Q.popWhile (fun i l ↦ l.deliverAtMs ≤ clock i) c.outQueue
  ({ c with outQueue := r.2 }, r.1)

/-- One use: the conditioner after it, and the lines that come out inbound and outbound. -/
def handle [FloatOps D] (c : Conditioner D Q) :
    Event D → Conditioner D Q × List DelayedLine × List DelayedLine
  | .enqueueIn line draw nowMs => (c.enqueueIn line draw nowMs, [], [])
  | .releaseIn clock => ((c.releaseIn clock).1, (c.releaseIn clock).2, [])
  | .enqueueOut line draw nowMs => (c.enqueueOut line draw nowMs, [], [])
  | .releaseOut clock => ((c.releaseOut clock).1, [], (c.releaseOut clock).2)

/-- Uses one after another: the conditioner after them and all lines that came out. -/
def run [FloatOps D] (c : Conditioner D Q) (evs : List (Event D)) :
    Conditioner D Q × List DelayedLine × List DelayedLine :=
  evs.foldl (fun r ev ↦
    let o := r.1.handle ev
    (o.1, r.2.1 ++ o.2.1, r.2.2 ++ o.2.2)) (c, [], [])

/-- Lines that go into the inbound queue. -/
def Event.received (addLatencyMs : Int) : Event D → List DelayedLine
  | .enqueueIn line _ nowMs => if line.isEmpty then [] else [.after addLatencyMs line nowMs]
  | _ => []

/-- Lines that go into the outbound queue. -/
def Event.entered (addLatencyMs : Int) : Event D → List DelayedLine
  | .enqueueOut line _ nowMs => [.after addLatencyMs line nowMs]
  | _ => []

/-- A line goes in later than those of its direction that still wait. -/
def Spread (c : Conditioner D Q) (ev : Event D) : Prop :=
  (∀ y ∈ ev.received c.addLatencyMsEachDirection, ∀ x ∈ Q.elems c.inQueue,
    x.deliverAtMs < y.deliverAtMs) ∧
  ∀ y ∈ ev.entered c.addLatencyMsEachDirection, ∀ x ∈ Q.elems c.outQueue,
    x.deliverAtMs < y.deliverAtMs

instance (c : Conditioner D Q) (ev : Event D) : Decidable (c.Spread ev) :=
  inferInstanceAs (Decidable (_ ∧ _))

/-! ### Order -/

/-- A queue that releases its matured lines keeps their order. -/
theorem inOrder_popWhile {ins outs : List DelayedLine} {q : Q.Carrier} (clock : Nat → UInt64)
    (h : InOrder DelayedLine.deliverAtMs ins outs (Q.elems q)) :
    let r := Q.popWhile (fun i l ↦ l.deliverAtMs ≤ clock i) q
    InOrder DelayedLine.deliverAtMs ins (outs ++ r.1) (Q.elems r.2) := by
  have hpops := Q.pops_popWhile (fun i l ↦ l.deliverAtMs ≤ clock i) q
  have hall : ∀ s : Multiset DelayedLine, (s.filter fun _ ↦ True) = s :=
    fun _ ↦ Multiset.filter_eq_self.mpr fun _ _ ↦ trivial
  rw [← hall (Q.elems q)] at h
  have hrest := h.pops (fun _ ↦ True) hpops fun _ _ ↦ trivial
  rwa [hall] at hrest

/-- A queue that takes at most one later line keeps the order. -/
theorem inOrder_push {ins outs : List DelayedLine} {q : Q.Carrier} {l : DelayedLine}
    (h : InOrder DelayedLine.deliverAtMs ins outs (Q.elems q))
    (hl : ∀ x ∈ Q.elems q, x.deliverAtMs < l.deliverAtMs) :
    InOrder DelayedLine.deliverAtMs (ins ++ [l]) outs (Q.elems (Q.push l q)) := by
  have hpush := h.push (List.pairwise_singleton _ l) (List.forall_mem_singleton.mpr hl)
  rwa [Multiset.coe_singleton, Multiset.singleton_add, ← Q.elems_push] at hpush

variable [FloatOps D]

/-- One use keeps the settings and the order of both directions. -/
theorem handle_inOrder {c : Conditioner D Q} {ev : Event D} {ins outs ins' outs' : List DelayedLine}
    (hloss : lt (ofInt 0) c.lossProb = false) (hspread : c.Spread ev)
    (hin : InOrder DelayedLine.deliverAtMs ins outs (Q.elems c.inQueue))
    (hout : InOrder DelayedLine.deliverAtMs ins' outs' (Q.elems c.outQueue)) :
    let o := c.handle ev
    (o.1.lossProb = c.lossProb ∧
      o.1.addLatencyMsEachDirection = c.addLatencyMsEachDirection) ∧
    InOrder DelayedLine.deliverAtMs (ins ++ ev.received c.addLatencyMsEachDirection)
      (outs ++ o.2.1) (Q.elems o.1.inQueue) ∧
    InOrder DelayedLine.deliverAtMs (ins' ++ ev.entered c.addLatencyMsEachDirection)
      (outs' ++ o.2.2) (Q.elems o.1.outQueue) := by
  have hkeep : ∀ draw, c.shouldDrop draw = false := fun draw ↦ by simp [shouldDrop, hloss]
  obtain ⟨hinLater, houtLater⟩ := hspread
  cases ev with
  | enqueueIn line draw nowMs =>
    simp only [Event.received] at hinLater
    simp only [handle, enqueueIn, Event.received, Event.entered, hkeep, List.append_nil]
    by_cases hline : line.isEmpty = true
    · simpa only [if_pos hline, List.append_nil, and_self, true_and] using And.intro hin hout
    · simp only [if_neg hline] at hinLater ⊢
      exact ⟨⟨rfl, rfl⟩, inOrder_push hin (List.forall_mem_singleton.mp hinLater), hout⟩
  | releaseIn clock =>
    simp only [handle, Event.received, Event.entered, List.append_nil]
    exact ⟨⟨rfl, rfl⟩, inOrder_popWhile clock hin, hout⟩
  | enqueueOut line draw nowMs =>
    simp only [handle, enqueueOut, Event.received, Event.entered, hkeep, List.append_nil]
    exact ⟨⟨rfl, rfl⟩, hin, inOrder_push hout (List.forall_mem_singleton.mp houtLater)⟩
  | releaseOut clock =>
    simp only [handle, Event.received, Event.entered, List.append_nil]
    exact ⟨⟨rfl, rfl⟩, hin, inOrder_popWhile clock hout⟩

/-- One more use of a run. -/
theorem run_concat (c : Conditioner D Q) (evs : List (Event D)) (ev : Event D) :
    c.run (evs ++ [ev]) =
      (((c.run evs).1.handle ev).1, (c.run evs).2.1 ++ ((c.run evs).1.handle ev).2.1,
        (c.run evs).2.2 ++ ((c.run evs).1.handle ev).2.2) := by
  rw [run, List.foldl_append]
  rfl

/-- Lines come out in order in every run whose lines go in with later and later times. -/
theorem run_inOrder (latency : Int) (lossProb : D) (hloss : lt (ofInt 0) lossProb = false)
    (evs : List (Event D)) :
    let c : Conditioner D Q := init latency lossProb
    EveryStep (fun past ev ↦ (c.run past).1.Spread ev) evs →
    let r := c.run evs
    (r.1.lossProb = lossProb ∧ r.1.addLatencyMsEachDirection = latency) ∧
    InOrder DelayedLine.deliverAtMs (evs.flatMap (Event.received latency)) r.2.1
      (Q.elems r.1.inQueue) ∧
    InOrder DelayedLine.deliverAtMs (evs.flatMap (Event.entered latency)) r.2.2
      (Q.elems r.1.outQueue) := by
  intro c hspread r
  induction evs using List.reverseRecOn with
  | nil =>
    refine ⟨⟨rfl, rfl⟩, ?_⟩
    have hempty : Q.elems Q.empty = 0 := Q.elems_empty
    simp only [r, c, run, init, List.foldl_nil, List.flatMap_nil, hempty]
    exact ⟨InOrder.nil, InOrder.nil⟩
  | append_singleton evs ev ih =>
    obtain ⟨⟨hl, ha⟩, hin, hout⟩ := ih hspread.init
    have hstep := handle_inOrder (by rwa [hl]) hspread.last hin hout
    have hr : r = _ := run_concat c evs ev
    rw [hl, ha] at hstep
    rw [hr]
    simpa only [List.flatMap_append, List.flatMap_singleton] using hstep

end Conditioner
end LightningLink.Baseline
