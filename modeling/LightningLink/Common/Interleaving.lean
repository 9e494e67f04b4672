import LightningLink.Common.Conservation

/-!
# Two threads on one socket

Library `Common`. The receive thread of a client calls `pump` and `recv_from` while its main
thread calls `send_to` and `pump`. Each call is a sequence of critical sections, one for
every stretch in which it holds the mutex of the socket; the sections of the two threads
come in any order. What is drawn for a datagram or read from the clock outside a section is
a parameter of the section.
-/

namespace LightningLink

open Support

/-- A stretch in which a thread holds the mutex; `common/lagged_socket.cpp:62–189`. -/
inductive Critical (D : Type)
  | send (ep : Endpoint) (data : List UInt8) (draws : Draws D) (nowUs : UInt64)
  /-- One iteration of the loop of `recv_from`. -/
  | read (a : Arrival D)
  /-- The rest of `recv_from`. -/
  | search (cap : Nat) (flushUs scanUs : UInt64)
  | pump (nowUs : UInt64)

/-- Sections of a call. -/
def Call.critical {D : Type} : Call D → List (Critical D)
  | .sendTo ep data draws nowUs => [.send ep data draws nowUs]
  | .recvFrom cap arrivals flushUs scanUs =>
    (arrivals.takeWhile fun a ↦ a.payload.length ≠ 0).map Critical.read ++
      [.search cap flushUs scanUs]
  | .pump nowUs => [.pump nowUs]

section

variable {D : Type} [FloatOps D]

/-- What a section wants delivered: the datagram that it sends or reads, if no draw drops it. -/
def Critical.kept (cfg : LaggedSocketConfig D) : Critical D → List Pending
  | .send ep data draws nowUs =>
    if cfg.drops draws then [] else [cfg.outboundEntry ep data draws nowUs]
  | .read a => if cfg.drops a.draws then [] else [cfg.inboundEntry a]
  | _ => []

/-- What a call wants delivered. -/
def Call.kept (cfg : LaggedSocketConfig D) (c : Call D) : List Pending :=
  c.critical.flatMap (Critical.kept cfg)

namespace LaggedSocket

variable {Q : PriorityQueue Pending Pending.deliverAtUs}

/-- One section: the socket after it, what is passed to `::sendto` and what is returned. -/
def critical (s : LaggedSocket D Q) : Critical D → LaggedSocket D Q × List Sent × List Returned
  | .send ep data draws nowUs => s.call (.sendTo ep data draws nowUs)
  | .read a =>
    if s.fd < 0 then (s, [], [])
    else if s.cfg.drops a.draws then (s, [], [])
    else ({ s with queue := Q.push (s.cfg.inboundEntry a) s.queue }, [], [])
  | .search cap flushUs scanUs => s.call (.recvFrom cap [] flushUs scanUs)
  | .pump nowUs => s.call (.pump nowUs)

/-- Sections one after another. -/
def trace (s : LaggedSocket D Q) :
    List (Critical D) → LaggedSocket D Q × List Sent × List Returned
  | [] => (s, [], [])
  | c :: cs =>
    let o := s.critical c
    let r := trace o.1 cs
    (r.1, o.2.1 ++ r.2.1, o.2.2 ++ r.2.2)

/-! ### A call is its sections -/

/-- Sections after other sections. -/
theorem trace_append (s : LaggedSocket D Q) (cs ds : List (Critical D)) :
    s.trace (cs ++ ds) = (((s.trace cs).1.trace ds).1,
      (s.trace cs).2.1 ++ ((s.trace cs).1.trace ds).2.1,
      (s.trace cs).2.2 ++ ((s.trace cs).1.trace ds).2.2) := by
  induction cs generalizing s with
  | nil => rfl
  | cons c cs ih => simp only [List.cons_append, trace, ih, List.append_assoc]

/-- A single section. -/
theorem trace_singleton (s : LaggedSocket D Q) (c : Critical D) : s.trace [c] = s.critical c := by
  simp [trace]

/-- A datagram that no draw drops is queued. -/
theorem critical_read (s : LaggedSocket D Q) (hfd : 0 ≤ s.fd) (a : Arrival D) :
    s.critical (.read a) = (if s.cfg.drops a.draws then s
      else { s with queue := Q.push (s.cfg.inboundEntry a) s.queue }, [], []) := by
  unfold critical
  dsimp only
  rw [if_neg (by omega)]
  split <;> rfl

/-- Draining the socket is a section for every datagram before the first empty one. -/
theorem trace_read (arrivals : List (Arrival D)) (s : LaggedSocket D Q) (hfd : 0 ≤ s.fd) :
    s.trace ((arrivals.takeWhile fun a ↦ a.payload.length ≠ 0).map Critical.read) =
      (s.drain arrivals, [], []) := by
  induction arrivals generalizing s with
  | nil => rfl
  | cons a as ih =>
    unfold drain
    by_cases ha : a.payload.length = 0
    · rw [if_pos ha, List.takeWhile_cons_of_neg (by simpa using ha)]
      rfl
    · rw [if_neg ha, List.takeWhile_cons_of_pos (by simpa using ha), List.map_cons, trace,
        s.critical_read hfd a]
      dsimp only
      by_cases hd : s.cfg.drops a.draws
      · rw [if_pos hd, if_pos hd, ih s hfd]
        rfl
      · have hpush := ih { s with queue := Q.push (s.cfg.inboundEntry a) s.queue } hfd
        rw [if_neg hd, if_neg hd, hpush]
        rfl

/-- Without another thread between them, the sections of a call do what the call does. -/
theorem trace_critical (s : LaggedSocket D Q) (hfd : 0 ≤ s.fd) (c : Call D) :
    s.trace c.critical = s.call c := by
  cases c with
  | sendTo ep data draws nowUs => exact s.trace_singleton _
  | pump nowUs => exact s.trace_singleton _
  | recvFrom cap arrivals flushUs scanUs =>
    have hdrain : (s.drain arrivals).fd = s.fd := by
      clear hfd
      induction arrivals generalizing s with
      | nil => rfl
      | cons a as ih =>
        unfold drain
        split
        · rfl
        · split
          · exact ih s
          · exact ih _
    rw [Call.critical, trace_append, trace_read arrivals s hfd, trace_singleton]
    have hopen : ¬s.fd < 0 := by omega
    simp only [critical, call, recvFrom, hdrain, if_neg hopen, List.nil_append]
    rfl

/-! ### Where every datagram is -/

/-- Sections of an open socket: what they want delivered has left outbound or inbound,
unchanged and not before its time, or is queued. -/
structure Moved (s : LaggedSocket D Q) (kept : List Pending)
    (r : LaggedSocket D Q × List Sent × List Returned) (released delivered : List Pending) :
    Prop where
  fd : r.1.fd = s.fd
  cfg : r.1.cfg = s.cfg
  sent : List.Forall₂ Sent.Releases r.2.1 released
  returned : List.Forall₂ Returned.Releases r.2.2 delivered
  outbound : ∀ p ∈ released, p.outbound = true
  inbound : ∀ p ∈ delivered, p.outbound = false
  balance : (kept : Multiset Pending) + Q.elems s.queue =
    released + delivered + Q.elems r.1.queue

omit [FloatOps D] in
/-- Nothing moves without a section. -/
theorem Moved.refl (s : LaggedSocket D Q) : Moved s [] (s, [], []) [] [] :=
  ⟨rfl, rfl, .nil, .nil, by simp, by simp, by simp⟩

omit [FloatOps D] in
/-- Sections after other sections. -/
theorem Moved.trans {s : LaggedSocket D Q} {kept kept' released released' delivered delivered' :
    List Pending} {r r' : LaggedSocket D Q × List Sent × List Returned}
    (h : Moved s kept r released delivered) (h' : Moved r.1 kept' r' released' delivered') :
    Moved s (kept ++ kept') (r'.1, r.2.1 ++ r'.2.1, r.2.2 ++ r'.2.2) (released ++ released')
      (delivered ++ delivered') where
  fd := h'.fd.trans h.fd
  cfg := h'.cfg.trans h.cfg
  sent := List.rel_append h.sent h'.sent
  returned := List.rel_append h.returned h'.returned
  outbound := List.forall_mem_append.mpr ⟨h.outbound, h'.outbound⟩
  inbound := List.forall_mem_append.mpr ⟨h.inbound, h'.inbound⟩
  balance := by
    simp only [← Multiset.coe_add]
    -- The queue between the two is what the first leaves and the second finds.
    calc (kept + kept' : Multiset Pending) + Q.elems s.queue
        = kept' + (kept + Q.elems s.queue) := by rw [add_comm (kept : Multiset Pending), add_assoc]
      _ = released + delivered + (kept' + Q.elems r.1.queue) := by rw [h.balance, add_left_comm]
      _ = (released + delivered) + (released' + delivered') + _ := by rw [h'.balance, ← add_assoc]
      _ = _ := by rw [add_add_add_comm]

omit [FloatOps D] in
/-- A transition without anything handed over or read moves the entries that leave in it. -/
theorem Transition.moved {s : LaggedSocket D Q} {c : Call D} {released delivered : List Pending}
    {queue : Q.Carrier} {sent : List Sent} {returned : List Returned}
    (h : Transition s c released delivered queue) (hsent : List.Forall₂ Sent.Releases sent released)
    (hret : List.Forall₂ Returned.Releases returned delivered) :
    Moved s (c.handed s.cfg ++ c.read s.cfg) ({ s with queue := queue }, sent, returned)
      released delivered :=
  ⟨rfl, rfl, hsent, hret, h.balance.1, h.balance.2.1, h.balance.2.2⟩

/-- Every section moves what it keeps. -/
theorem critical_spec (s : LaggedSocket D Q) (hfd : 0 ≤ s.fd) (c : Critical D) :
    ∃ released delivered, Moved s (c.kept s.cfg) (s.critical c) released delivered := by
  have hopen : ¬s.fd < 0 := by omega
  cases c with
  | send ep data draws nowUs =>
    unfold critical call sendTo Critical.kept
    dsimp only
    rw [if_neg hopen]
    split
    · exact ⟨[], [], .refl s⟩
    · by_cases ht : s.cfg.totalMs s.cfg.addLatencyMsSend draws = 0
      · rw [if_pos ht]
        refine ⟨_, _, Transition.moved (.direct ht) (.cons ⟨rfl, rfl, ?_⟩ .nil) .nil⟩
        rw [outboundEntry_due s.cfg ep data draws nowUs ht]
        exact UInt64.le_refl nowUs
      · rw [if_neg ht]
        exact ⟨_, _, Transition.moved (.enqueue ht) .nil .nil⟩
  | read a =>
    rw [s.critical_read hfd a, Critical.kept]
    split
    · exact ⟨[], [], .refl s⟩
    · exact ⟨[], [], rfl, rfl, .nil, .nil, by simp, by simp, by simp [Q.elems_push]⟩
  | search cap flushUs scanUs =>
    obtain ⟨released, flushed, hflush, hrel, hpops⟩ := flushOutboundLocked_spec flushUs s
    unfold critical call recvFrom drain Critical.kept
    dsimp only
    rw [if_neg hopen, hflush]
    dsimp only
    cases hfound : Q.takeFirst (fun p ↦ !p.outbound && p.deliverAtUs ≤ scanUs) flushed with
    | mk found queue =>
      have htrans : Transition s (.recvFrom cap [] flushUs scanUs) released found.toList queue :=
        .receive (by simp [Call.read]) (fun p hp ↦ (hrel p hp).2) hpops hfound
      refine ⟨released, found.toList, htrans.moved (forall₂_sent fun p hp ↦ (hrel p hp).1) ?_⟩
      cases found with
      | none => exact .nil
      | some p => exact .cons ⟨rfl, rfl, (found_matured hfound).2⟩ .nil
  | pump nowUs =>
    obtain ⟨released, queue, hflush, hrel, hpops⟩ := flushOutboundLocked_spec nowUs s
    unfold critical call pump Critical.kept
    dsimp only
    rw [hflush]
    exact ⟨released, [], (Transition.pump (fun p hp ↦ (hrel p hp).2) hpops).moved
      (forall₂_sent fun p hp ↦ (hrel p hp).1) .nil⟩

/-- Any sections in any order move what they keep. -/
theorem trace_spec (s : LaggedSocket D Q) (hfd : 0 ≤ s.fd) (cs : List (Critical D)) :
    ∃ released delivered, Moved s (cs.flatMap (Critical.kept s.cfg)) (s.trace cs)
      released delivered := by
  induction cs generalizing s with
  | nil => exact ⟨[], [], .refl s⟩
  | cons c cs ih =>
    obtain ⟨released, delivered, h⟩ := s.critical_spec hfd c
    obtain ⟨released', delivered', h'⟩ := ih (s.critical c).1 (by rw [h.fd]; exact hfd)
    rw [h.cfg] at h'
    exact ⟨_, _, h.trans h'⟩

/-- Calls one after another are their sections. -/
theorem trace_calls (s : LaggedSocket D Q) (hfd : 0 ≤ s.fd) (calls : List (Call D)) :
    s.trace (calls.flatMap Call.critical) = s.run calls := by
  induction calls using List.reverseRecOn with
  | nil => rfl
  | append_singleton calls c ih =>
    obtain ⟨_, _, h⟩ := s.trace_spec hfd (calls.flatMap Call.critical)
    have hopen : 0 ≤ (s.run calls).1.fd := by rw [← ih, h.fd]; exact hfd
    rw [List.flatMap_append, List.flatMap_singleton, trace_append, ih, trace_critical _ hopen,
      run_concat]

end LaggedSocket

/-! ### Schedules -/

/-- Threads of a client that share its socket; `client/client.cpp:111–113`. -/
inductive Thread
  | main
  | receiver
  deriving DecidableEq

omit [FloatOps D] in
/-- Sections of a thread in a schedule of both. -/
def Thread.own (t : Thread) (schedule : List (Thread × Critical D)) : List (Critical D) :=
  (schedule.filter fun x ↦ x.1 = t).map Prod.snd

omit [FloatOps D] in
/-- What the sections of a schedule contribute comes from the two threads. -/
theorem Thread.flatMap_own (f : Critical D → List Pending)
    (schedule : List (Thread × Critical D)) :
    ((schedule.map Prod.snd).flatMap f : Multiset Pending) =
      (Thread.main.own schedule).flatMap f + (Thread.receiver.own schedule).flatMap f := by
  induction schedule with
  | nil => rfl
  | cons x schedule ih =>
    obtain ⟨t, c⟩ := x
    rw [List.map_cons, List.flatMap_cons, ← Multiset.coe_add, ih]
    cases t with
    | main => simp [Thread.own, ← Multiset.coe_add, add_assoc]
    | receiver => simp [Thread.own, ← Multiset.coe_add, add_left_comm]

namespace LaggedSocket

variable {Q : PriorityQueue Pending Pending.deliverAtUs}

/-- However the scheduler mixes the sections of the two threads, every datagram handed over
or read by either of them and not dropped by a draw has left exactly once, unchanged and not
before its time, or is queued. -/
theorem interleaved (fd : Nat) (cfg : LaggedSocketConfig D) (calls : Thread → List (Call D))
    (schedule : List (Thread × Critical D))
    (hown : ∀ t : Thread, t.own schedule = (calls t).flatMap Call.critical) :
    let r := (bound fd cfg : LaggedSocket D Q).trace (schedule.map Prod.snd)
    let kept : Multiset Pending :=
      (calls .main).flatMap (Call.kept cfg) + (calls .receiver).flatMap (Call.kept cfg)
    (∃ released, List.Forall₂ Sent.Releases r.2.1 released ∧
      (kept.filter fun p ↦ p.outbound = true) = released + r.1.queued true) ∧
    ∃ delivered, List.Forall₂ Returned.Releases r.2.2 delivered ∧
      (kept.filter fun p ↦ p.outbound = false) = delivered + r.1.queued false := by
  intro r kept
  obtain ⟨released, delivered, h⟩ := (bound fd cfg : LaggedSocket D Q).trace_spec
    (Int.natCast_nonneg fd) (schedule.map Prod.snd)
  have hkept : kept = released + delivered + Q.elems r.1.queue := by
    rw [← h.balance]
    change kept = _ + Q.elems Q.empty
    rw [Q.elems_empty, add_zero, Thread.flatMap_own, hown, hown, List.flatMap_assoc,
      List.flatMap_assoc]
    rfl
  refine ⟨⟨released, h.sent, ?_⟩, delivered, h.returned, ?_⟩
  · rw [hkept, Multiset.filter_add, Multiset.filter_add, filter_side h.outbound,
      filter_otherSide h.inbound Bool.false_ne_true, add_zero]
    rfl
  · rw [hkept, Multiset.filter_add, Multiset.filter_add, filter_side h.inbound,
      filter_otherSide h.outbound Bool.false_ne_true.symm, zero_add]
    rfl

end LaggedSocket
end

/-- While the receive thread is in its loop, the main thread sends: one datagram is
transmitted, one is returned and one is queued. -/
theorem LaggedSocket.interleaved_three :
    letI := LaggedSocketConfig.wholeLoss
    let cfg : LaggedSocketConfig Int := ⟨40, 40, 10, 0⟩
    let a : Arrival Int := ⟨⟨2, 2⟩, [8, 9], ⟨-10, 0⟩, 2000⟩
    let b : Arrival Int := ⟨⟨2, 2⟩, [6], ⟨10, 0⟩, 2000⟩
    let schedule : List (Thread × Critical Int) := [(.receiver, .read a),
      (.main, .send ⟨1, 1⟩ [7] ⟨-10, 0⟩ 1000), (.receiver, .read b),
      (.receiver, .search 1 45000 45000)]
    let r := (bound 3 cfg : LaggedSocket Int (.newestFirst Pending.deliverAtUs)).trace
      (schedule.map Prod.snd)
    ∃ delivered, List.Forall₂ Returned.Releases r.2.2 delivered ∧
      (([cfg.outboundEntry ⟨1, 1⟩ [7] ⟨-10, 0⟩ 1000] + [cfg.inboundEntry a, cfg.inboundEntry b] :
        Multiset Pending).filter fun p ↦ p.outbound = false) = delivered + r.1.queued false := by
  let _ := LaggedSocketConfig.wholeLoss
  intro cfg a b schedule r
  let calls : Thread → List (Call Int)
    | .main => [.sendTo ⟨1, 1⟩ [7] ⟨-10, 0⟩ 1000]
    | .receiver => [.recvFrom 1 [a, b] 45000 45000]
  have hown : ∀ t : Thread, t.own schedule = (calls t).flatMap Call.critical := by
    intro t
    cases t <;> rfl
  exact (interleaved 3 cfg calls schedule hown).2

end LightningLink
