import LightningLink.Common.Conservation

/-!
# What one call of `recv_from` reads

Library `Common`. The kernel's receive queue beside the socket. The loop of `recv_from` ends
at a result of `::recvfrom` that is not positive, which an empty datagram gives like an empty
queue: what waits behind an empty datagram stays in the kernel. The loop of
`handle_inbound_udp`, up to 256 results, ends with the first call that returns nothing.
-/

namespace LightningLink

open Support FloatOps

/-- No latency, jitter or loss. -/
structure LaggedSocketConfig.Transparent {D : Type} [FloatOps D] (cfg : LaggedSocketConfig D) :
    Prop where
  send : cfg.addLatencyMsSend = 0
  recv : cfg.addLatencyMsRecv = 0
  jitter : cfg.jitterMs = 0
  loss : cfg.Lossless

/-- Nothing is added to the time of a datagram, in either direction. -/
theorem LaggedSocketConfig.Transparent.totalMs {D : Type} [FloatOps D]
    {cfg : LaggedSocketConfig D} (h : cfg.Transparent) (draws : Draws D) :
    cfg.totalMs cfg.addLatencyMsSend draws = 0 ∧ cfg.totalMs cfg.addLatencyMsRecv draws = 0 := by
  unfold LaggedSocketConfig.totalMs
  rw [h.send, h.recv, sampleJitterMs, h.jitter, if_pos (Int.le_refl 0)]
  exact ⟨rfl, rfl⟩

/-- Without latency and jitter an entry is due when it is read. -/
theorem LaggedSocketConfig.Transparent.deliverAtUs {D : Type} [FloatOps D]
    {cfg : LaggedSocketConfig D} (h : cfg.Transparent) (a : Arrival D) :
    (cfg.inboundEntry a).deliverAtUs = a.nowUs := by
  unfold inboundEntry
  rw [(h.totalMs a.draws).2]
  exact UInt64.add_zero a.nowUs

/-- What is sent passes by the queue. -/
theorem LaggedSocketConfig.Transparent.sendTo {D : Type} [FloatOps D]
    {Q : PriorityQueue Pending Pending.deliverAtUs} {s : LaggedSocket D Q}
    (h : s.cfg.Transparent) (ep : Endpoint) (data : List UInt8) (draws : Draws D)
    (nowUs : UInt64) : (s.sendTo ep data draws nowUs).2.1 = s := by
  unfold LaggedSocket.sendTo
  rw [if_pos (h.totalMs draws).1]
  split
  · rfl
  · split <;> rfl

/-- What the loop of `recv_from` leaves in the kernel's receive queue;
`common/lagged_socket.cpp:124–130`. -/
def unread {D : Type} : List (Arrival D) → List (Arrival D)
  | [] => []
  | a :: as => if a.payload.length = 0 then as else unread as

/-- A socket and the datagrams that wait in the kernel. -/
structure Host (D : Type) (Q : PriorityQueue Pending Pending.deliverAtUs) where
  socket : LaggedSocket D Q
  kernel : List (Arrival D)

/-- Clock readings of one call of `recv_from`, and what arrives before the next. -/
structure Turn (D : Type) where
  flushUs : UInt64
  scanUs : UInt64
  incoming : List (Arrival D)

namespace Host

variable {D : Type} {Q : PriorityQueue Pending Pending.deliverAtUs}

/-- `recv_from` with its effect on the kernel's queue; `common/lagged_socket.cpp:118–184`. -/
def recvFrom [FloatOps D] (cap : Nat) (t : Turn D) (h : Host D Q) : Option Returned × Host D Q :=
  let r := h.socket.recvFrom cap h.kernel t.flushUs t.scanUs
  (r.1, ⟨r.2.1, if h.socket.fd < 0 then h.kernel else unread h.kernel⟩)

/-- The loop of `handle_inbound_udp`: the results that it processes, and the host after it. On
a transparent socket what processing sends leaves the host alone; `server/server.cpp:80–86`. -/
def handleInboundUdp [FloatOps D] : Nat → (Nat → Turn D) → Host D Q → List Returned × Host D Q
  | 0, _, h => ([], h)
  | guard + 1, turns, h =>
    let r := h.recvFrom maxPacketBytes (turns 0)
    match r.1 with
    | none => ([], r.2)
    | some x =>
      let next : Host D Q := { r.2 with kernel := r.2.kernel ++ (turns 0).incoming }
      let rest := handleInboundUdp guard (fun i ↦ turns (i + 1)) next
      (x :: rest.1, rest.2)

/-- Inbound entries and the datagrams in the kernel that are not empty. -/
def waiting (h : Host D Q) : Multiset Pending :=
  h.socket.queued false +
    ((h.kernel.filter fun a ↦ a.payload.length ≠ 0).map h.socket.cfg.inboundEntry : List Pending)

end Host

/-! ### The kernel's queue -/

section

variable {D : Type}

/-- No empty datagram has another one behind it. -/
def NoneBehindEmpty (as : List (Arrival D)) : Prop :=
  ∀ before a after, as = before ++ a :: after → a.payload.length = 0 → after = []

/-- The kernel's queue is empty after the loop exactly if no empty datagram has another one
behind it. -/
theorem unread_eq_nil_iff (as : List (Arrival D)) : unread as = [] ↔ NoneBehindEmpty as := by
  induction as with
  | nil => simp [unread, NoneBehindEmpty]
  | cons x xs ih =>
    rw [unread]
    by_cases hx : x.payload.length = 0
    · rw [if_pos hx]
      refine ⟨fun hnil before a after heq _ ↦ ?_, fun h ↦ h [] x xs rfl hx⟩
      have hlen := congrArg List.length heq
      rw [hnil, List.length_append, List.length_cons, List.length_cons, List.length_nil] at hlen
      exact List.length_eq_zero_iff.mp (by omega)
    · rw [if_neg hx, ih]
      constructor
      · intro h before a after heq ha
        cases before with
        | nil =>
          obtain ⟨rfl, _⟩ := List.cons.inj heq
          exact absurd ha hx
        | cons y before => exact h before a after (List.cons.inj heq).2 ha
      · intro h before a after heq ha
        exact h (x :: before) a after (by rw [heq, List.cons_append]) ha

/-- A loop that empties the kernel's queue has read all that is not empty. -/
theorem takeWhile_of_unread {as : List (Arrival D)} (h : unread as = []) :
    (as.takeWhile fun a ↦ a.payload.length ≠ 0) = as.filter fun a ↦ a.payload.length ≠ 0 := by
  induction as with
  | nil => rfl
  | cons x xs ih =>
    rw [unread] at h
    by_cases hx : x.payload.length = 0
    · rw [if_pos hx] at h
      rw [h, List.takeWhile_cons_of_neg (by simpa using hx),
        List.filter_cons_of_neg (by simpa using hx), List.filter_nil]
    · rw [if_neg hx] at h
      rw [List.takeWhile_cons_of_pos (by simpa using hx),
        List.filter_cons_of_pos (by simpa using hx), ih h]

end

/-! ### One call -/

namespace LaggedSocket

variable {D : Type} {Q : PriorityQueue Pending Pending.deliverAtUs} [FloatOps D]

/-- A call of `recv_from` on an open socket without loss returns one inbound entry, queued or
just read, and keeps the others; or it returns nothing and none of them has matured. -/
theorem recvFrom_spec (s : LaggedSocket D Q) (hfd : 0 ≤ s.fd) (h : s.cfg.Lossless) (cap : Nat)
    (arrivals : List (Arrival D)) (flushUs scanUs : UInt64) :
    let r := s.recvFrom cap arrivals flushUs scanUs
    let inbound := s.queued false + (Call.recvFrom cap arrivals flushUs scanUs).read s.cfg
    (r.2.1.fd = s.fd ∧ r.2.1.cfg = s.cfg) ∧
    match r.1 with
    | none => ∀ p ∈ inbound, ¬p.deliverAtUs ≤ scanUs
    | some x => ∃ p, x.Releases p ∧ inbound = p ::ₘ r.2.1.queued false := by
  intro r inbound
  obtain ⟨released, delivered, queue, hcall, _, hret, htrans⟩ :=
    s.call_transition (.recvFrom cap arrivals flushUs scanUs) hfd h
  have hsocket : r.2.1 = { s with queue := queue } := hcall
  have hresult : List.Forall₂ Returned.Releases r.1.toList delivered := hret
  refine ⟨by rw [hsocket]; exact ⟨rfl, rfl⟩, ?_⟩
  have hleast := s.recvFrom_least hfd h cap arrivals flushUs scanUs
  change match r.1 with
    | none => inbound.filter (fun p ↦ p.deliverAtUs ≤ scanUs) = 0
    | some x => ∃ p ∈ inbound.filter (fun p ↦ p.deliverAtUs ≤ scanUs), _ at hleast
  cases hr : r.1 with
  | none =>
    rw [hr] at hleast
    exact Multiset.filter_eq_nil.mp hleast
  | some x =>
    rw [hr] at hresult
    obtain ⟨hout, hin, hsum⟩ := htrans.balance
    cases hresult with
    | cons hx hnil =>
      cases hnil
      refine ⟨_, hx, ?_⟩
      -- The inbound side of the balance.
      have hside := congrArg (Multiset.filter fun p ↦ p.outbound = false) hsum
      have hhanded := filter_otherSide (Call.handed_outbound s.cfg
        (.recvFrom cap arrivals flushUs scanUs)) Bool.true_eq_false.mp
      simp only [Multiset.filter_add, filter_side (Call.read_inbound _ _), filter_side hin,
        filter_otherSide hout Bool.true_eq_false.mp, hhanded, zero_add] at hside
      rw [hsocket]
      calc inbound = _ := add_comm _ _
        _ = _ := hside
        _ = _ := by rw [← Multiset.cons_coe, Multiset.coe_nil, Multiset.cons_add, zero_add]; rfl

omit [FloatOps D] in
/-- Every inbound entry in the queue is due. -/
def Settled (nowUs : UInt64) (s : LaggedSocket D Q) : Prop :=
  ∀ p ∈ s.queued false, p.deliverAtUs ≤ nowUs

/-- A socket that has had no latency, jitter or loss since it was bound holds only inbound
entries that are due. -/
theorem settled_run (fd : Nat) (cfg : LaggedSocketConfig D) (h : cfg.Transparent)
    (calls : List (Call D)) (nowUs : UInt64)
    (hclock : ∀ cap arrivals flushUs scanUs, Call.recvFrom cap arrivals flushUs scanUs ∈ calls →
      ∀ a ∈ arrivals, a.nowUs ≤ nowUs) :
    ((bound fd cfg : LaggedSocket D Q).run calls).1.Settled nowUs := by
  obtain ⟨_, released, delivered, _, _, hout, _, hsum⟩ := run_spec (Q := Q) fd cfg h.loss calls
  intro p hp
  obtain ⟨hmem, hin⟩ := Multiset.mem_filter.mp hp
  have hp : p ∈ (calls.flatMap (Call.handed cfg) + calls.flatMap (Call.read cfg) :
      Multiset Pending) := by
    rw [hsum]
    exact Multiset.mem_add.mpr (Or.inr hmem)
  rcases Multiset.mem_add.mp hp with hp | hp
  · obtain ⟨c, _, hp⟩ := List.mem_flatMap.mp (Multiset.mem_coe.mp hp)
    rw [c.handed_outbound cfg p hp] at hin
    cases hin
  · obtain ⟨c, hc, hp⟩ := List.mem_flatMap.mp (Multiset.mem_coe.mp hp)
    cases c with
    | recvFrom cap arrivals flushUs scanUs =>
      obtain ⟨a, ha, rfl⟩ := List.mem_map.mp hp
      rw [h.deliverAtUs]
      exact hclock cap arrivals flushUs scanUs hc a ((List.takeWhile_sublist _).subset ha)
    | _ => cases hp

end LaggedSocket

/-! ### The loop of the server -/

namespace Host

variable {D : Type} {Q : PriorityQueue Pending Pending.deliverAtUs} [FloatOps D]

/-- Inbound entries that a call sees: the queued ones and those of the datagrams it reads. -/
def reach (h : Host D Q) : Multiset Pending :=
  h.socket.queued false +
    ((h.kernel.takeWhile fun a ↦ a.payload.length ≠ 0).map h.socket.cfg.inboundEntry : List Pending)

omit [FloatOps D] in
/-- A call that empties the kernel's queue sees all that waits. -/
theorem reach_eq_waiting {h : Host D Q} (hk : unread h.kernel = []) : h.reach = h.waiting := by
  rw [reach, waiting, takeWhile_of_unread hk]

/-- One call reads up to the first empty datagram, and returns one of the entries it sees or
finds none of them due. -/
theorem recvFrom_spec (h : Host D Q) (hfd : 0 ≤ h.socket.fd) (hl : h.socket.cfg.Lossless)
    (cap : Nat) (t : Turn D) :
    let r := h.recvFrom cap t
    r.2.kernel = unread h.kernel ∧
      (r.2.socket.fd = h.socket.fd ∧ r.2.socket.cfg = h.socket.cfg) ∧
      match r.1 with
      | none => ∀ p ∈ h.reach, ¬p.deliverAtUs ≤ t.scanUs
      | some x => ∃ p, x.Releases p ∧ h.reach = p ::ₘ r.2.socket.queued false :=
  ⟨if_neg (by omega), h.socket.recvFrom_spec hfd hl cap h.kernel t.flushUs t.scanUs⟩

/-- The loop makes all its results, or they include everything that the first call sees and
that stays due. -/
theorem handleInboundUdp_delivers (guard : Nat) (turns : Nat → Turn D) (h : Host D Q)
    (hfd : 0 ≤ h.socket.fd) (hl : h.socket.cfg.Lossless) (w : Multiset Pending)
    (hw : w ≤ h.reach) (hdue : ∀ i, ∀ p ∈ w, p.deliverAtUs ≤ (turns i).scanUs) :
    (h.handleInboundUdp guard turns).1.length = guard ∨
      ∃ delivered : List Pending,
        List.Forall₂ Returned.Releases (h.handleInboundUdp guard turns).1 delivered ∧
          w ≤ delivered := by
  induction guard generalizing h turns w with
  | zero => exact Or.inl rfl
  | succ guard ih =>
    obtain ⟨_, ⟨hfd', hcfg'⟩, hresult⟩ := h.recvFrom_spec hfd hl maxPacketBytes (turns 0)
    rw [handleInboundUdp]
    cases hr : (h.recvFrom maxPacketBytes (turns 0)).1 with
    | none =>
      rw [hr] at hresult
      have hzero : w = 0 := Multiset.eq_zero_of_forall_notMem fun p hp ↦
        hresult p (Multiset.mem_of_le hw hp) (hdue 0 p hp)
      exact Or.inr ⟨[], .nil, hzero.le⟩
    | some x =>
      rw [hr] at hresult
      obtain ⟨p, hx, hreach⟩ := hresult
      -- What is left of `w` is queued when the next call begins.
      have hnext : w.erase p ≤ (h.recvFrom maxPacketBytes (turns 0)).2.socket.queued false := by
        rw [Multiset.erase_le_iff_le_cons, ← hreach]
        exact hw
      let next : Host D Q := { (h.recvFrom maxPacketBytes (turns 0)).2 with
        kernel := (h.recvFrom maxPacketBytes (turns 0)).2.kernel ++ (turns 0).incoming }
      rcases ih (fun i ↦ turns (i + 1)) next (by rw [hfd']; exact hfd) (by rw [hcfg']; exact hl)
        (w.erase p) (hnext.trans (Multiset.le_add_right _ _))
        (fun i y hy ↦ hdue (i + 1) y (Multiset.mem_of_mem_erase hy)) with hlen | ⟨delivered, hd, hle⟩
      · exact Or.inl (congrArg (· + 1) hlen)
      · refine Or.inr ⟨p :: delivered, .cons hx hd, ?_⟩
        rw [← Multiset.cons_coe, ← Multiset.erase_le_iff_le_cons]
        exact hle

/-! ### Draining -/

/-- One call empties the kernel's queue, and returns nothing only if no datagram that is not
empty waits anywhere. -/
structure Drains (h : Host D Q) (cap : Nat) (t : Turn D) : Prop where
  emptied : (h.recvFrom cap t).2.kernel = []
  nothing : (h.recvFrom cap t).1 = none →
    (∀ a ∈ h.kernel, a.payload = []) ∧ ∀ p ∈ h.socket.queued false, p.bytes = []

/-- The server's loop makes its 256 results, or processes all that waited when it began. -/
def ProcessesAll (h : Host D Q) (turns : Nat → Turn D) : Prop :=
  (h.handleInboundUdp 256 turns).1.length = 256 ∨
    ∃ delivered : List Pending,
      List.Forall₂ Returned.Releases (h.handleInboundUdp 256 turns).1 delivered ∧
        h.waiting ≤ delivered

/-- Without latency, jitter and loss, `recv_from` drains the socket and the server processes
all that waits exactly where no empty datagram has another one behind it. -/
theorem drains_iff (h : Host D Q) (hfd : 0 ≤ h.socket.fd) (hcfg : h.socket.cfg.Transparent)
    (cap : Nat) (turns : Nat → Turn D)
    (hclock : ∀ i, ∀ a ∈ h.kernel, a.nowUs ≤ (turns i).scanUs)
    (hqueued : ∀ i, h.socket.Settled (turns i).scanUs) :
    h.Drains cap (turns 0) ∧ h.ProcessesAll turns ↔ NoneBehindEmpty h.kernel := by
  have hdue : ∀ i, ∀ p ∈ h.waiting, p.deliverAtUs ≤ (turns i).scanUs := by
    intro i p hp
    rcases Multiset.mem_add.mp hp with hp | hp
    · exact hqueued i p hp
    · obtain ⟨a, ha, rfl⟩ := List.mem_map.mp (Multiset.mem_coe.mp hp)
      rw [hcfg.deliverAtUs]
      exact hclock i a (List.mem_of_mem_filter ha)
  obtain ⟨hkernel, _, hresult⟩ := h.recvFrom_spec hfd hcfg.loss cap (turns 0)
  rw [← unread_eq_nil_iff]
  refine ⟨fun hd ↦ hkernel.symm.trans hd.1.emptied, fun hk ↦ ⟨⟨hkernel.trans hk, fun hnone ↦ ?_⟩, ?_⟩⟩
  · rw [hnone] at hresult
    have hzero : h.waiting = 0 := by
      rw [← reach_eq_waiting hk] at hdue ⊢
      exact Multiset.eq_zero_of_forall_notMem fun p hp ↦ hresult p hp (hdue 0 p hp)
    have hnomem : ∀ p, p ∉ h.waiting := fun p ↦ hzero ▸ Multiset.notMem_zero p
    refine ⟨fun a ha ↦ ?_, fun p hp ↦ absurd (Multiset.mem_add.mpr (Or.inl hp)) (hnomem p)⟩
    by_contra hne
    refine hnomem (h.socket.cfg.inboundEntry a) (Multiset.mem_add.mpr (Or.inr ?_))
    rw [Multiset.mem_coe]
    exact List.mem_map_of_mem (List.mem_filter.mpr ⟨ha, by simpa using hne⟩)
  · exact handleInboundUdp_delivers 256 turns h hfd hcfg.loss h.waiting
      (reach_eq_waiting hk).ge hdue

/-- An entry that is queued, two datagrams and a stranger's empty one behind them. -/
theorem drains_iff_three :
    let _ := LaggedSocketConfig.wholeLoss
    let h : Host Int (.newestFirst _) := ⟨⟨3, ⟨0, 0, 0, 0⟩, [⟨1, ⟨2, 2⟩, [4, 0, 1], false⟩]⟩,
      [⟨⟨1, 1⟩, [1, 0, 2], ⟨0, 0⟩, 1⟩, ⟨⟨2, 2⟩, [3, 0, 1, 0, 0, 0, 1, 255, 0], ⟨0, 0⟩, 2⟩,
        ⟨⟨9, 9⟩, [], ⟨0, 0⟩, 2⟩]⟩
    h.Drains 1200 ⟨2, 2, []⟩ ∧ h.ProcessesAll fun _ ↦ ⟨2, 2, []⟩ := by
  intro _ h
  refine (h.drains_iff (by decide) ⟨rfl, rfl, rfl, by decide⟩ 1200 (fun _ ↦ ⟨2, 2, []⟩)
    (fun _ ↦ by decide) (fun _ ↦ by unfold LaggedSocket.Settled; decide)).mpr ?_
  rw [← unread_eq_nil_iff]
  rfl

/-- A stranger's empty datagram in front of a join request: the call returns nothing and the
join request stays in the kernel, and so the server's loop ends without it. -/
theorem drains_empty_first :
    let _ := LaggedSocketConfig.wholeLoss
    let h : Host Int (.newestFirst _) := ⟨⟨3, ⟨0, 0, 0, 0⟩, []⟩,
      [⟨⟨9, 9⟩, [], ⟨0, 0⟩, 1⟩, ⟨⟨1, 1⟩, [1, 0, 2], ⟨0, 0⟩, 1⟩]⟩
    ¬h.Drains 1200 ⟨2, 2, []⟩ ∧ ¬h.ProcessesAll fun _ ↦ ⟨2, 2, []⟩ := by
  intro _ h
  constructor
  · intro hd
    exact absurd hd.emptied (List.cons_ne_nil _ _)
  · have hnone : (h.handleInboundUdp 256 fun _ ↦ ⟨2, 2, []⟩).1 = [] := rfl
    unfold ProcessesAll
    rw [hnone]
    rintro (hlen | ⟨delivered, hd, hle⟩)
    · cases hlen
    · cases hd
      exact absurd (Multiset.le_zero.mp hle) (by decide)

end Host

end LightningLink
