import LightningLink.Baseline.Retirement
import LightningLink.Client.Inputs
import LightningLink.Support.Ledger

/-!
# Every input logged at most once

Library `Baseline`. Each client keeps a ledger of its inputs: remembered, logged with the ack
that retired them, or dropped because more than 256 were remembered. Both ledgers stay
balanced, whatever snapshots arrive and whatever they acknowledge.
-/

namespace LightningLink

open Support

/-- Whether an event sends an input. -/
def Cl.Event.isInput {F : Type} [FloatArith F] : Cl.Event F → Bool
  | .input .. => true
  | _ => false

namespace Baseline

open FloatOps FloatArith

/-- Whether an event sends an input. -/
def ClientEvent.isInput {F : Type} [FloatArith F] : ClientEvent F → Bool
  | .input .. => true
  | _ => false

/-- The first input numbers. -/
def firstSeqs (n : Nat) : List UInt32 := (List.range' 1 n).map UInt32.ofNat

/-- One more number. -/
theorem firstSeqs_succ (n : Nat) : firstSeqs (n + 1) = firstSeqs n ++ [UInt32.ofNat (n + 1)] := by
  rw [firstSeqs, List.range'_1_concat, List.map_append, Nat.add_comm 1 n]
  rfl

/-- The next number is new until all are used. -/
theorem notMem_firstSeqs {n : Nat} (h : n + 1 < 2 ^ 32) : UInt32.ofNat (n + 1) ∉ firstSeqs n := by
  intro hmem
  obtain ⟨i, hi, heq⟩ := List.mem_map.mp hmem
  rw [List.mem_range'_1] at hi
  have hnat := congrArg UInt32.toNat heq
  rw [UInt32.toNat_ofNat', UInt32.toNat_ofNat'] at hnat
  omega

/-! ### The ledger of a client -/

section Books

variable {F : Type} [FloatArith F] {V : Type}

/-- Ledger with the given remembered inputs and log rows. -/
def books (issued writtenOff : Multiset UInt32) (pending : UMap UInt32 V) (rows : List (Row F)) :
    Ledger UInt32 :=
  ⟨issued, pending.keys, (rows.map fun r ↦ (r.1, r.2.1) : List (UInt32 × UInt32)), writtenOff⟩

/-- A loop that retires the acknowledged inputs settles them. -/
theorem books_retired (issued writtenOff : Multiset UInt32) {pending pending' : UMap UInt32 V}
    {rows rows' : List (Row F)} {es : List (UInt32 × V)} (hes : UMap.Enumerates es pending)
    (time : V → UInt64) {ack : UInt32} {t : UInt64}
    (hrows : rows' = rows ++ BothClients.retired ack t (es.map fun e ↦ (e.1, time e.2)))
    (hpending : ∀ k, pending'.find? k = if k ≤ ack then none else pending.find? k) :
    books issued writtenOff pending' rows' =
      (books issued writtenOff pending rows).settle ack := by
  have hkeys : pending'.keys = pending.keys.filter fun k ↦ ¬k ≤ ack := by
    ext k
    rw [Finset.mem_filter, UMap.mem_keys, UMap.mem_keys, hpending]
    by_cases hk : k ≤ ack <;> simp [hk]
  have hreceipts : (rows'.map fun r ↦ (r.1, r.2.1)) =
      (rows.map fun r ↦ (r.1, r.2.1)) ++
        ((es.map Prod.fst).filter fun k ↦ k ≤ ack).map fun k ↦ (k, ack) := by
    rw [hrows, List.map_append, BothClients.retired]
    simp [List.filter_map, Function.comp_def, BothClients.rowOf]
  rw [books, hkeys, hreceipts, ← Multiset.coe_add, ← Multiset.map_coe _ (List.filter _ _),
    ← Multiset.filter_coe, hes.coe_keys]
  rfl

/-- The books of a client after some inputs: they are balanced, the inputs are numbered from 1,
and the next number is the next one. -/
structure InOrder (n : Nat) (nextSeq : UInt32) (l : Ledger UInt32) : Prop where
  balanced : l.Balanced
  issued : l.issued = firstSeqs n
  next : nextSeq = UInt32.ofNat (n + 1)

/-- Without inputs. -/
theorem inOrder_empty : InOrder 0 1 .empty := ⟨Ledger.balanced_empty, rfl, rfl⟩

/-- Settling keeps the books in order. -/
theorem InOrder.settle {n : Nat} {nextSeq : UInt32} {l : Ledger UInt32} (h : InOrder n nextSeq l)
    (ack : UInt32) : InOrder n nextSeq (l.settle ack) :=
  ⟨h.balanced.settle ack, h.issued, h.next⟩

/-- So does an input after which a bound drops some of what is remembered. -/
theorem InOrder.input {n : Nat} {nextSeq : UInt32} {l : Ledger UInt32} (h : InOrder n nextSeq l)
    (hn : n + 1 < 2 ^ 32) {drops : Finset UInt32} (hdrops : drops ⊆ insert nextSeq l.pending) :
    InOrder (n + 1) (nextSeq + 1) ((l.issue nextSeq).writeOff drops) where
  balanced := by
    apply (h.balanced.issue _).writeOff hdrops
    rw [h.issued, h.next]
    exact notMem_firstSeqs hn
  issued := by
    change nextSeq ::ₘ l.issued = _
    rw [h.issued, h.next, firstSeqs_succ, ← Multiset.coe_add, Multiset.coe_singleton,
      ← Multiset.singleton_add, add_comm]
  next := by
    rw [h.next]
    exact (UInt32.ofNat_add (n + 1) 1).symm

/-- What books in order say about the inputs sent so far: their numbers are the first ones, each
is remembered, logged or dropped and only one of these, none is logged twice, and none before
its acknowledgement. -/
structure Accounted (n : Nat) (l : Ledger UInt32) : Prop where
  issued : l.issued = firstSeqs n
  total : l.issued = l.pending.val + l.settled + l.writtenOff
  inOnePlace : ∀ k ∈ l.issued, l.InOnePlace k
  loggedOnce : l.settled.Nodup
  acked : ∀ r ∈ l.receipts, r.1 ≤ r.2

/-- Books in order account for the inputs. -/
theorem InOrder.accounted {n : Nat} {nextSeq : UInt32} {l : Ledger UInt32}
    (h : InOrder n nextSeq l) : Accounted n l where
  issued := h.issued
  total := h.balanced.total
  inOnePlace _ := h.balanced.inOnePlace
  loggedOnce := h.balanced.settled_nodup
  acked := h.balanced.acked

end Books

/-! ### The optimized client -/

end Baseline

namespace Cl.Client

open Baseline FloatArith

variable {F : Type} [FloatArith F]

/-- Remembered inputs that the bound drops: if there are more than 256, the old ones. -/
def outdated (t : UInt64) (pending : UMap UInt32 (PendingInputSample F)) : Finset UInt32 :=
  if 256 < pending.size then
    pending.keys.filter fun k ↦
      (pending.find? k).any fun e ↦ pendingStaleMs < t - e.sendMs
  else ∅

omit [FloatArith F] in
/-- The bound drops what is remembered. -/
theorem outdated_subset (t : UInt64) (pending : UMap UInt32 (PendingInputSample F)) :
    outdated t pending ⊆ pending.keys := by
  unfold outdated
  split
  · exact Finset.filter_subset _ _
  · exact Finset.empty_subset _

omit [FloatArith F] in
/-- The bound forgets what it drops. -/
theorem keys_boundPending (t : UInt64)
    (order : UMap.Traversal UInt32 (PendingInputSample F))
    (pending : UMap UInt32 (PendingInputSample F)) :
    (boundPending t order pending).keys = pending.keys \ outdated t pending := by
  unfold boundPending outdated
  split
  · ext k
    rw [Finset.mem_sdiff, Finset.mem_filter, UMap.mem_keys, UMap.mem_keys,
      (order.enumerates pending).find?_foldl_eraseIf fun e ↦ pendingStaleMs < t - e.sendMs]
    cases pending.find? k with
    | none => simp
    | some e => by_cases hd : pendingStaleMs < t - e.sendMs <;> simp [hd, Option.filter]
  · exact (Finset.sdiff_empty).symm

/-- Inputs that an event of the optimized client drops. -/
def drops (c : Client F) : Event F → Finset UInt32
  | .input mx my dt t order =>
    let seq := c.predictor.nextSeq
    outdated t (c.pending.assign seq ⟨seq, t, (c.sendInput mx my dt t order).1.localPos⟩)
  | _ => ∅

/-- Inputs that a run of it drops. -/
def dropped (c : Client F) (evs : List (Event F)) : Multiset UInt32 :=
  observed step (fun c ev ↦ (c.drops ev).val) c evs

/-- Ledger of the optimized client after a run. -/
def ledger (c : Client F) (evs : List (Event F)) : Ledger UInt32 :=
  books ((c.sent evs).map Proto.InputPacket.seq : List UInt32) (c.dropped evs) (c.run evs).pending
    (BothClients.rows (c.run evs))

/-- Ledger after one more event. -/
theorem ledger_concat (c : Client F) (evs : List (Event F)) (ev : Event F) :
    let c' := (c.run evs).step ev
    c.ledger (evs ++ [ev]) =
      books ((c.sent evs).map Proto.InputPacket.seq +
          (((c.run evs).sends ev).toList.map Proto.InputPacket.seq : List UInt32))
        (c.dropped evs + ((c.run evs).drops ev).val) c'.pending (BothClients.rows c') := by
  rw [ledger, sent_concat, dropped, observed_concat, ← dropped, run_concat, List.map_append,
    ← Multiset.coe_add]
  rfl

/-- An input is issued, and the bound writes off what it drops. -/
theorem ledger_input (c : Client F) (evs : List (Event F)) (mx my : Int8) (dt : Double F)
    (t : UInt64) (order : UMap.Traversal UInt32 (PendingInputSample F)) :
    let ev : Event F := .input mx my dt t order
    c.ledger (evs ++ [ev]) = ((c.ledger evs).issue (c.run evs).predictor.nextSeq).writeOff
      ((c.run evs).drops ev) := by
  intro ev
  obtain ⟨hpending, hlog⟩ := BothClients.optimized_input mx my dt t order (c.run evs)
  obtain ⟨hsent, _⟩ := sendInput_spec mx my dt t order (c.run evs)
  have hrows : BothClients.rows ((c.run evs).sendInput mx my dt t order).1 =
      BothClients.rows (c.run evs) := by
    rw [BothClients.rows, hlog, BothClients.rows]
  rw [ledger_concat]
  change books (_ + ([((c.run evs).sendInput mx my dt t order).2.seq] : List UInt32)) _
    ((c.run evs).sendInput mx my dt t order).1.pending
    (BothClients.rows ((c.run evs).sendInput mx my dt t order).1) = _
  rw [hsent, hrows, books, hpending, keys_boundPending, UMap.keys_assign, Multiset.coe_singleton,
    add_comm _ ({_} : Multiset UInt32), Multiset.singleton_add]
  rfl

/-- An event without effect on the inputs and the log leaves the ledger alone. -/
theorem ledger_quiet (c : Client F) (evs : List (Event F)) (ev : Event F)
    (hsends : (c.run evs).sends ev = none) (hdrops : (c.run evs).drops ev = ∅)
    (hpending : ((c.run evs).step ev).pending = (c.run evs).pending)
    (hrows : BothClients.rows ((c.run evs).step ev) = BothClients.rows (c.run evs)) :
    c.ledger (evs ++ [ev]) = c.ledger evs := by
  rw [ledger_concat, hsends, hdrops, hpending, hrows, Option.toList_none, List.map_nil,
    Multiset.coe_nil, add_zero, Finset.empty_val, add_zero]
  rfl

/-- A snapshot settles what it acknowledges. -/
theorem ledger_snapshot (c : Client F) (evs : List (Event F)) (ss : StampedSnapshot F)
    (t : UInt64) (order : UMap.Traversal UInt32 (PendingInputSample F)) :
    let l := c.ledger (evs ++ [.snapshot ss t order])
    l = c.ledger evs ∨ ∃ ack, l = (c.ledger evs).settle ack := by
  have hretires := BothClients.drainSnapshot_retires ss t order (c.run evs)
  dsimp only at hretires ⊢
  split at hretires
  · exact Or.inl (ledger_quiet c evs (.snapshot ss t order) rfl rfl hretires.2 hretires.1)
  · next auth _ =>
    right
    refine ⟨auth.lastProcessedInputSeq, ?_⟩
    rw [ledger_concat]
    change books (_ + 0) (_ + 0) ((c.run evs).drainSnapshot ss t order).pending
      (BothClients.rows ((c.run evs).drainSnapshot ss t order)) = _
    rw [add_zero, add_zero]
    exact books_retired _ _ (order.enumerates _) (fun e ↦ e.sendMs) hretires.1 hretires.2

/-- An event keeps the books of the optimized client in order. -/
theorem inOrder_concat (c : Client F) (evs : List (Event F)) (ev : Event F)
    (h : InOrder (evs.countP Event.isInput) (c.run evs).predictor.nextSeq (c.ledger evs))
    (hlen : (evs ++ [ev]).countP Event.isInput < 2 ^ 32 - 1) :
    InOrder ((evs ++ [ev]).countP Event.isInput) (c.run (evs ++ [ev])).predictor.nextSeq
      (c.ledger (evs ++ [ev])) := by
  rw [List.countP_append, List.countP_singleton] at hlen ⊢
  rw [run_concat]
  cases ev with
  | input mx my dt t order =>
    rw [ledger_input]
    change InOrder _ ((c.run evs).sendInput mx my dt t order).1.predictor.nextSeq _
    rw [(sendInput_spec mx my dt t order (c.run evs)).2.2]
    have hdrops := outdated_subset t ((c.run evs).pending.assign (c.run evs).predictor.nextSeq
      ⟨(c.run evs).predictor.nextSeq, t, ((c.run evs).sendInput mx my dt t order).1.localPos⟩)
    rw [UMap.keys_assign] at hdrops
    exact h.input (by simp [Event.isInput] at hlen; omega) hdrops
  | snapshot ss t order =>
    change InOrder _ ((c.run evs).drainSnapshot ss t order).predictor.nextSeq _
    rw [(drainSnapshot_frame ss t order (c.run evs)).2]
    rcases ledger_snapshot c evs ss t order with hl | ⟨ack, hl⟩
    · rw [hl]
      exact h
    · rw [hl]
      exact h.settle ack
  | togglePrediction =>
    rw [ledger_quiet c evs .togglePrediction rfl rfl rfl rfl]
    exact h
  | prune t order =>
    rw [ledger_quiet c evs (.prune t order) rfl rfl rfl rfl]
    exact h

/-- The books of the optimized client are in order after every run. -/
theorem inOrder_run (pid : UInt16) (noPrediction noInterpolation : Bool)
    (evs : List (Event F)) (hlen : evs.countP Event.isInput < 2 ^ 32 - 1) :
    let c : Client F := .init pid noPrediction noInterpolation
    InOrder (evs.countP Event.isInput) (c.run evs).predictor.nextSeq (c.ledger evs) := by
  intro c
  induction evs using List.reverseRecOn with
  | nil => exact inOrder_empty
  | append_singleton evs ev ih =>
    apply inOrder_concat c evs ev (ih _) hlen
    rw [List.countP_append] at hlen
    omega

/-- A snapshot with an ack for the local player leaves no input up to it. -/
theorem lt_of_mem_drainSnapshot (ss : StampedSnapshot F) (t : UInt64)
    (order : UMap.Traversal UInt32 (PendingInputSample F)) (c : Client F) {ack : UInt32}
    (h : ackOf c.myPid ss.snap.players = some ack) :
    ∀ k ∈ (c.step (.snapshot ss t order)).pending.keys, ack < k := by
  intro k hk
  rw [UMap.mem_keys] at hk
  change ((c.drainSnapshot ss t order).pending.find? k).isSome = true at hk
  rw [(BothClients.drainSnapshot_spec ss t order c ack h).2] at hk
  split at hk
  · cases hk
  · next hle => exact UInt32.not_le.mp hle

end Cl.Client

/-! ### The baseline client -/

namespace Baseline

namespace BaselineClient

open FloatArith

variable {F : Type} [FloatArith F] {Q : PriorityQueue DelayedLine DelayedLine.deliverAtMs}

/-- Number that an event gives to an input. -/
def numbers (c : BaselineClient F Q) : ClientEvent F → Multiset UInt32
  | .input .. => {c.nextSeq}
  | _ => 0

/-- Remembered inputs that the bound drops: if there are more than 256, all. -/
def cleared (pending : UMap UInt32 BaselinePendingInput) : Finset UInt32 :=
  if 256 < pending.size then pending.keys else ∅

/-- The bound drops what is remembered. -/
theorem cleared_subset (pending : UMap UInt32 BaselinePendingInput) :
    cleared pending ⊆ pending.keys := by
  unfold cleared
  split
  · exact Finset.Subset.refl _
  · exact Finset.empty_subset _

/-- The bound forgets what it drops. -/
theorem keys_addPending (seq : UInt32) (sendMs : UInt64)
    (pending : UMap UInt32 BaselinePendingInput) :
    (addPending seq sendMs pending).keys =
      insert seq pending.keys \ cleared (pending.assign seq ⟨seq, sendMs⟩) := by
  unfold addPending cleared
  dsimp only
  rw [← UMap.keys_assign pending seq ⟨seq, sendMs⟩]
  split
  · rw [UMap.keys_empty, Finset.sdiff_self]
  · exact Finset.sdiff_empty.symm

/-- Inputs that an event drops. -/
def drops (c : BaselineClient F Q) : ClientEvent F → Finset UInt32
  | .input _ _ _ _ sendMs => cleared (c.pending.assign c.nextSeq ⟨c.nextSeq, sendMs⟩)
  | _ => ∅

/-- Client with its ledger, where the inputs sent and dropped are given. -/
def booked (issued writtenOff : Multiset UInt32) (c : BaselineClient F Q) : Ledger UInt32 :=
  books issued writtenOff c.pending (BothClients.baselineRows c)

/-- An input is issued, and all are written off if there are too many. -/
theorem booked_input (issued writtenOff : Multiset UInt32) (c : BaselineClient F Q) (mx my : Int8)
    (draw : Double F) (enqueueMs sendMs : UInt64) :
    let ev : ClientEvent F := .input mx my draw enqueueMs sendMs
    (c.sendInput mx my draw enqueueMs sendMs).booked (c.nextSeq ::ₘ issued)
        (writtenOff + (c.drops ev).val) =
      ((c.booked issued writtenOff).issue c.nextSeq).writeOff (c.drops ev) := by
  intro ev
  change Ledger.mk _ (addPending c.nextSeq sendMs c.pending).keys _ _ = _
  rw [keys_addPending]
  rfl

variable [FloatText F]

/-- Client after the first lines of a release; `client/tcp_baseline_client.cpp:221–265`. -/
def releaseFirst (count : Nat) (clock nowMs : Nat → UInt64)
    (order : Nat → UMap.Traversal UInt32 BaselinePendingInput) (c : BaselineClient F Q) :
    BaselineClient F Q :=
  let released := c.cond.releaseIn clock
  (released.2.zipIdx.take count).foldl (fun c l ↦ c.handleLine l.1.data (nowMs l.2) (order l.2))
    { c with cond := released.1 }

/-- A line settles what it acknowledges, if it does. -/
theorem booked_handleLine (issued writtenOff : Multiset UInt32) (line : List Char) (t : UInt64)
    (order : UMap.Traversal UInt32 BaselinePendingInput) (c : BaselineClient F Q) :
    let c' := c.handleLine line t order
    c'.nextSeq = c.nextSeq ∧
      (c'.booked issued writtenOff = c.booked issued writtenOff ∨
        ∃ ack, c'.booked issued writtenOff = (c.booked issued writtenOff).settle ack) := by
  unfold handleLine
  dsimp only
  split
  · exact ⟨rfl, Or.inl rfl⟩
  · split
    · exact ⟨rfl, Or.inl rfl⟩
    · next tick players _ =>
      cases hack : ackOf c.myPid players with
      | none =>
        unfold applySnapshot
        dsimp only
        rw [hack]
        exact ⟨rfl, Or.inl rfl⟩
      | some ack =>
        obtain ⟨hrows, hpending, _, hseq⟩ :=
          BothClients.applySnapshot_spec tick players t order c ack hack
        exact ⟨hseq, Or.inr ⟨ack, books_retired issued writtenOff (order.enumerates _)
          (fun e ↦ e.sendMs) hrows hpending⟩⟩

/-- The lines of a release keep the books in order. -/
theorem inOrder_releaseFirst (issued writtenOff : Multiset UInt32) (n count : Nat)
    (clock nowMs : Nat → UInt64) (order : Nat → UMap.Traversal UInt32 BaselinePendingInput)
    (c : BaselineClient F Q) (h : InOrder n c.nextSeq (c.booked issued writtenOff)) :
    let c' := c.releaseFirst count clock nowMs order
    InOrder n c'.nextSeq (c'.booked issued writtenOff) := by
  apply List.foldlRecOn
    (motive := fun c' : BaselineClient F Q ↦ InOrder n c'.nextSeq (c'.booked issued writtenOff))
  · exact h
  · intro c' h' l _
    obtain ⟨hseq, hbooked⟩ :=
      booked_handleLine issued writtenOff l.1.data (nowMs l.2) (order l.2) c'
    rw [hseq]
    rcases hbooked with heq | ⟨ack, heq⟩
    · rw [heq]
      exact h'
    · rw [heq]
      exact h'.settle ack

/-- Ledger of the baseline client after a run and the first lines of a release. -/
def ledger (c : BaselineClient F Q) (evs : List (ClientEvent F)) (count : Nat)
    (clock nowMs : Nat → UInt64) (order : Nat → UMap.Traversal UInt32 BaselinePendingInput) :
    Ledger UInt32 :=
  ((c.run evs).releaseFirst count clock nowMs order).booked (observed step numbers c evs)
    (observed step (fun c ev ↦ (c.drops ev).val) c evs)

/-- The whole release. -/
theorem releaseIn_eq (clock nowMs : Nat → UInt64)
    (order : Nat → UMap.Traversal UInt32 BaselinePendingInput) (c : BaselineClient F Q) :
    c.releaseIn clock nowMs order =
      c.releaseFirst (c.cond.releaseIn clock).2.zipIdx.length clock nowMs order := by
  unfold releaseFirst
  dsimp only
  rw [List.take_length]
  rfl

/-- The other events concern neither the inputs nor the log. -/
theorem step_quiet (c : BaselineClient F Q) (ev : ClientEvent F) :
    match ev with
    | .input .. | .releaseIn .. => True
    | _ => (c.step ev).nextSeq = c.nextSeq ∧ (c.step ev).pending = c.pending ∧
        (c.step ev).inputLog = c.inputLog ∧ c.numbers ev = 0 ∧ c.drops ev = ∅ := by
  cases ev with
  | input mx my draw enqueueMs sendMs => trivial
  | releaseIn clock nowMs order => trivial
  | handshake received =>
    obtain ⟨pid, w, height, hframe⟩ := c.handshake_frame received
    have hstep : c.step (.handshake received) = c.handshake received := rfl
    rw [hstep, hframe]
    exact ⟨rfl, rfl, rfl, rfl, rfl⟩
  | _ => exact ⟨rfl, rfl, rfl, rfl, rfl⟩

/-- The books of the baseline client are in order after every run. -/
theorem inOrder_run (latency : Int) (lossProb : Double F) (evs : List (ClientEvent F))
    (hlen : evs.countP ClientEvent.isInput < 2 ^ 32 - 1) :
    let c : BaselineClient F Q := .init latency lossProb
    InOrder (evs.countP ClientEvent.isInput) (c.run evs).nextSeq
      ((c.run evs).booked (observed step numbers c evs)
        (observed step (fun c ev ↦ (c.drops ev).val) c evs)) := by
  intro c
  induction evs using List.reverseRecOn with
  | nil => exact inOrder_empty
  | append_singleton evs ev ih =>
    rw [List.countP_append, List.countP_singleton] at hlen ⊢
    have ih := ih (by omega)
    rw [observed_concat, observed_concat]
    rw [run_concat]
    change InOrder _ _ (((c.run evs).step ev).booked (_ + numbers (c.run evs) ev)
      (_ + (drops (c.run evs) ev).val))
    have hquiet := step_quiet (c.run evs) ev
    cases ev with
    | input mx my draw enqueueMs sendMs =>
      change InOrder _ ((c.run evs).nextSeq + 1)
        (((c.run evs).sendInput mx my draw enqueueMs sendMs).booked
          (_ + {(c.run evs).nextSeq}) _)
      rw [add_comm _ ({_} : Multiset UInt32), Multiset.singleton_add, booked_input]
      have hdrops := cleared_subset
        ((c.run evs).pending.assign (c.run evs).nextSeq ⟨(c.run evs).nextSeq, sendMs⟩)
      rw [UMap.keys_assign] at hdrops
      exact ih.input (by simp [ClientEvent.isInput] at hlen; omega) hdrops
    | releaseIn clock nowMs order =>
      change InOrder _ _ (((c.run evs).releaseIn clock nowMs order).booked (_ + 0) (_ + 0))
      change InOrder _ ((c.run evs).releaseIn clock nowMs order).nextSeq _
      rw [add_zero, add_zero, releaseIn_eq]
      exact inOrder_releaseFirst _ _ _ _ clock nowMs order (c.run evs) ih
    | _ =>
      obtain ⟨hseq, hpending, hlog, hnumbers, hdrops⟩ := hquiet
      rw [hseq, hnumbers, hdrops, booked, BothClients.baselineRows, hpending, hlog,
        Finset.empty_val, add_zero, add_zero]
      exact ih

/-- A line with an ack for the local player leaves no input up to it. -/
theorem lt_of_mem_handleLine (line : List Char) (t : UInt64)
    (order : UMap.Traversal UInt32 BaselinePendingInput) (c : BaselineClient F Q)
    {tick ack : UInt32} {players : List (PlayerState F)}
    (hparse : parseSnapshot line = some (tick, players))
    (hack : ackOf c.myPid players = some ack) :
    ∀ k ∈ (c.handleLine line t order).pending.keys, ack < k := by
  intro k hk
  rw [handleLine_of_parse hparse, UMap.mem_keys,
    (BothClients.applySnapshot_spec tick players t order c ack hack).2.1] at hk
  split at hk
  · cases hk
  · next hle => exact UInt32.not_le.mp hle

/-- A line keeps the id and remembers no input. -/
theorem keys_handleLine (line : List Char) (t : UInt64)
    (order : UMap.Traversal UInt32 BaselinePendingInput) (c : BaselineClient F Q) :
    (c.handleLine line t order).myPid = c.myPid ∧
      (c.handleLine line t order).pending.keys ⊆ c.pending.keys := by
  unfold handleLine
  split
  · exact ⟨rfl, Finset.Subset.refl _⟩
  · split
    · exact ⟨rfl, Finset.Subset.refl _⟩
    · next tick players _ =>
      cases hack : ackOf c.myPid players with
      | none =>
        unfold applySnapshot
        dsimp only
        rw [hack]
        exact ⟨rfl, Finset.Subset.refl _⟩
      | some ack =>
        obtain ⟨_, hpending, hpid, _⟩ :=
          BothClients.applySnapshot_spec tick players t order c ack hack
        refine ⟨hpid, fun k hk ↦ ?_⟩
        rw [UMap.mem_keys, hpending] at hk
        rw [UMap.mem_keys]
        split at hk
        · cases hk
        · exact hk

/-- Several lines of which one has an ack for the local player leave no input up to it. -/
theorem lt_of_mem_foldl (nowMs : Nat → UInt64)
    (order : Nat → UMap.Traversal UInt32 BaselinePendingInput) {lines : List (DelayedLine × Nat)}
    {l : DelayedLine × Nat} (hl : l ∈ lines) {tick ack : UInt32} {players : List (PlayerState F)}
    (hparse : parseSnapshot l.1.data = some (tick, players)) (c : BaselineClient F Q)
    (hack : ackOf c.myPid players = some ack) :
    ∀ k ∈ (lines.foldl (fun c l ↦ c.handleLine l.1.data (nowMs l.2) (order l.2)) c).pending.keys,
      ack < k := by
  induction lines generalizing c with
  | nil => cases hl
  | cons l' lines ih =>
    obtain ⟨hpid, _⟩ := c.keys_handleLine l'.1.data (nowMs l'.2) (order l'.2)
    by_cases hmem : l ∈ lines
    · exact ih hmem _ (hpid.symm ▸ hack)
    · obtain rfl := (List.mem_cons.mp hl).resolve_right hmem
      apply List.foldlRecOn (motive := fun c' : BaselineClient F Q ↦
        ∀ k ∈ c'.pending.keys, ack < k) lines
      · exact lt_of_mem_handleLine l.1.data (nowMs l.2) (order l.2) c hparse hack
      · exact fun c' h' l' _ k hk ↦
          h' k ((c'.keys_handleLine l'.1.data (nowMs l'.2) (order l'.2)).2 hk)

/-- A release of a line with an ack for the local player leaves no input up to it. -/
theorem lt_of_mem_releaseIn (clock nowMs : Nat → UInt64)
    (order : Nat → UMap.Traversal UInt32 BaselinePendingInput) (c : BaselineClient F Q)
    {line : DelayedLine} (hline : line ∈ (c.cond.releaseIn clock).2) {tick ack : UInt32}
    {players : List (PlayerState F)} (hparse : parseSnapshot line.data = some (tick, players))
    (hack : ackOf c.myPid players = some ack) :
    ∀ k ∈ (c.step (.releaseIn clock nowMs order)).pending.keys, ack < k := by
  obtain ⟨i, hi⟩ := List.getElem?_of_mem hline
  have hmem : (line, i) ∈ (c.cond.releaseIn clock).2.zipIdx := List.mem_zipIdx_iff_getElem?.mpr hi
  change ∀ k ∈ (c.releaseIn clock nowMs order).pending.keys, ack < k
  unfold releaseIn
  exact lt_of_mem_foldl nowMs order hmem hparse _ hack

end BaselineClient

/-! ### Both clients -/

namespace BothClients

open Cl FloatArith

variable {F : Type} [FloatArith F] [FloatText F]
  {Q : PriorityQueue DelayedLine DelayedLine.deliverAtMs}

/-- Both clients account for their inputs at every moment of every run, and a snapshot with an
ack for the local player leaves no input up to it; in the baseline client, neither do the line
and the whole release of which it is one. -/
theorem inputs_accounted (pid : UInt16) (noPrediction noInterpolation : Bool) (latency : Int)
    (lossProb : Double F) (evs : List (Event F)) (baselineEvs : List (ClientEvent F))
    (hlen : evs.countP Event.isInput < 2 ^ 32 - 1)
    (hbaseline : baselineEvs.countP ClientEvent.isInput < 2 ^ 32 - 1) :
    let c : Client F := .init pid noPrediction noInterpolation
    let b : BaselineClient F Q := .init latency lossProb
    (Accounted (evs.countP Event.isInput) (c.ledger evs) ∧
      ∀ ss t order ack, ackOf (c.run evs).myPid ss.snap.players = some ack →
        ∀ k ∈ ((c.run evs).step (.snapshot ss t order)).pending.keys, ack < k) ∧
    (∀ count clock nowMs order,
      Accounted (baselineEvs.countP ClientEvent.isInput)
        (b.ledger baselineEvs count clock nowMs order) ∧
      let now := (b.run baselineEvs).releaseFirst count clock nowMs order
      ∀ line t order tick players ack, parseSnapshot line = some (tick, players) →
        ackOf now.myPid (players : List (PlayerState F)) = some ack →
        ∀ k ∈ (now.handleLine line t order).pending.keys, ack < k) ∧
    ∀ clock nowMs order, ∀ line ∈ ((b.run baselineEvs).cond.releaseIn clock).2,
      ∀ tick players ack, parseSnapshot line.data = some (tick, players) →
        ackOf (b.run baselineEvs).myPid (players : List (PlayerState F)) = some ack →
        ∀ k ∈ ((b.run baselineEvs).step (.releaseIn clock nowMs order)).pending.keys, ack < k := by
  intro c b
  refine ⟨⟨(Client.inOrder_run pid noPrediction noInterpolation evs hlen).accounted, ?_⟩, ?_, ?_⟩
  · intro ss t order ack hack
    exact Client.lt_of_mem_drainSnapshot ss t order (c.run evs) hack
  · intro count clock nowMs order
    have h := BaselineClient.inOrder_run (Q := Q) latency lossProb baselineEvs hbaseline
    refine ⟨(BaselineClient.inOrder_releaseFirst _ _ _ count clock nowMs order _ h).accounted, ?_⟩
    intro now line t order tick players ack hparse hack
    exact now.lt_of_mem_handleLine line t order hparse hack
  · intro clock nowMs order line hline tick players ack hparse hack
    exact (b.run baselineEvs).lt_of_mem_releaseIn clock nowMs order hline hparse hack

/-- Both clients send two inputs, and the first is acknowledged. -/
theorem inputs_accounted_two :
    let _ := ratArith
    let _ := ratText
    let c : Client Rat := .init 1 false false
    let b : BaselineClient Rat (.newestFirst DelayedLine.deliverAtMs) := .init 0 (0 : Rat)
    let evs : List (Event Rat) := [.input 1 0 (0 : Rat) 1000 bySeq, .input 0 1 (0 : Rat) 1017 bySeq]
    let baselineEvs : List (ClientEvent Rat) := [.handshake ['J', 'A', ' ', '1', '\n'],
      .input 1 0 (0 : Rat) 1000 1000, .input 0 1 (0 : Rat) 1017 1017,
      .drain (middleLine 1 ++ ['\n']) (fun _ ↦ (0 : Rat)) fun _ ↦ 1100]
    (Accounted 2 (c.ledger evs) ∧
      ∀ k ∈ ((c.run evs).step (.snapshot ⟨⟨3, [⟨1, ⟨640, 360⟩, ⟨0, 0⟩, 1⟩]⟩, 1100⟩ 1100
        bySeq)).pending.keys, 1 < k) ∧
    Accounted 2 (b.ledger baselineEvs 1 (fun _ ↦ 1100) (fun _ ↦ 1100) fun _ ↦ bySeq) ∧
      ∀ k ∈ ((b.run baselineEvs).step (.releaseIn (fun _ ↦ 1100) (fun _ ↦ 1100)
        fun _ ↦ bySeq)).pending.keys, 1 < k := by
  let _ := ratArith
  let _ := ratText
  intro _ _ c b evs baselineEvs
  obtain ⟨⟨hc, hsnapshot⟩, hb, hrelease⟩ :=
    inputs_accounted (F := Rat) (Q := .newestFirst DelayedLine.deliverAtMs)
      1 false false 0 (0 : Rat) evs baselineEvs (by decide) (by decide)
  exact ⟨⟨hc, hsnapshot _ 1100 bySeq 1 (by decide +kernel)⟩,
    (hb 1 (fun _ ↦ 1100) (fun _ ↦ 1100) fun _ ↦ bySeq).1,
    hrelease (fun _ ↦ 1100) (fun _ ↦ 1100) (fun _ ↦ bySeq) ⟨1100, middleLine 1⟩
      (by decide +kernel) 3 _ 1 rfl (by decide +kernel)⟩

end BothClients
end Baseline
end LightningLink
