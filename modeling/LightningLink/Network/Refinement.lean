import LightningLink.Network.Conditioned
import Mathlib.Tactic.Abel

/-!
# Conditioned sockets refine a lossy network

Library `Network`. Sections of a socket never add to what is under way more than what is
handed to them, so a step of `Conditioned` is matched by at most one action of `System`.
What is dropped, and what waits in a conditioner, stays in flight there. Datagrams are
compared up to the bytes that a read keeps.
-/

namespace LightningLink.Net

open Support Proto Srv Cl FloatArith

section

variable [FloatArith F32]

/-- What the server reads of a datagram. -/
def cut : Srv.Event F32 → Srv.Event F32
  | .datagram now src payload => .datagram now src (payload.take maxPacketBytes)
  | ev => ev

namespace Process

/-- Event of the client that pops the oldest snapshot of its queue. -/
def drains (nowMs : UInt64) (order : UMap.Traversal UInt32 (PendingInputSample F32)) :
    Process → Option (Cl.Event F32)
  | playing p => p.queue.head?.map fun ss ↦ .snapshot ss nowMs order
  | _ => none

/-- Event of the client that neither pops a snapshot nor sends. -/
def acts (ev : Cl.Event F32) : Process → Option (Cl.Event F32)
  | playing _ =>
    match ev with
    | .togglePrediction => some ev
    | .prune _ _ => some ev
    | _ => none
  | _ => none

/-- Event of the client that sends an input. -/
def inputs (mx my : Int8) (dt : Double F32) (nowMs : UInt64)
    (order : UMap.Traversal UInt32 (PendingInputSample F32)) : Process → Option (Cl.Event F32)
  | playing _ => some (.input mx my dt nowMs order)
  | _ => none

end Process

namespace System

/-- Event of the client at an endpoint with an action. -/
def does (e : Endpoint) (s : System) : Action → Option (Cl.Event F32)
  | .drain src nowMs order => if src = e then (s.process src).drains nowMs order else none
  | .act src ev => if src = e then (s.process src).acts ev else none
  | .input src mx my dt nowMs order =>
    if src = e then (s.process src).inputs mx my dt nowMs order else none
  | _ => none

/-- Events of the client at an endpoint in a run. -/
def doings (e : Endpoint) (s : System) : List Action → List (Cl.Event F32)
  | [] => []
  | a :: as => (s.does e a).toList ++ doings e (s.step a) as

/-- Events of one action. -/
theorem doings_singleton (e : Endpoint) (s : System) (a : Action) :
    s.doings e [a] = (s.does e a).toList := List.append_nil _

/-- Events of two runs in a row. -/
theorem doings_append (e : Endpoint) (s : System) (as bs : List Action) :
    s.doings e (as ++ bs) = s.doings e as ++ (s.run as).doings e bs := by
  induction as generalizing s with
  | nil => rfl
  | cons a as ih =>
    rw [List.cons_append, doings, ih, ← List.append_assoc]
    rfl

/-- Event that the server handles with an action. -/
def serves (s : System) : Action → Option (Srv.Event F32)
  | .deliver d now =>
    if d ∈ s.toServer then some (.datagram now d.endpoint d.payload) else none
  | .tick now order => some (.tick now order)
  | _ => none

/-- Events that the server handles in a run. -/
def history (s : System) : List Action → List (Srv.Event F32)
  | [] => []
  | a :: as => (s.serves a).toList ++ history (s.step a) as

/-- Events of two runs in a row. -/
theorem history_append (s : System) (as bs : List Action) :
    s.history (as ++ bs) = s.history as ++ (s.run as).history bs := by
  induction as generalizing s with
  | nil => rfl
  | cons a as ih =>
    rw [List.cons_append, history, ih, ← List.append_assoc]
    rfl

end System
end

section

variable {D : Type} {Q : PriorityQueue Pending Pending.deliverAtUs} [FloatOps D]

namespace Conditioned

/-! ### Sections -/

omit [FloatOps D] in
/-- What a section hands over. -/
def outgoing : Critical D → List Datagram
  | .send ep data _ _ => [⟨ep, data⟩]
  | _ => []

omit [FloatOps D] in
/-- What a section reads. -/
def incoming : Critical D → List Datagram
  | .read a => [⟨a.src, a.payload.take recvTmpBytes⟩]
  | _ => []

/-- A section keeps at most what it hands over or reads. -/
theorem kept_le (cfg : LaggedSocketConfig D) (c : Critical D) :
    (((c.kept cfg : Multiset Pending).filter fun p ↦ p.outbound = true).map Pending.datagram ≤
        outgoing c) ∧
      ((c.kept cfg : Multiset Pending).filter fun p ↦ p.outbound = false).map Pending.datagram ≤
        incoming c := by
  cases c with
  | send ep data draws nowUs =>
    unfold Critical.kept
    dsimp only
    split
    · exact ⟨Multiset.zero_le _, Multiset.zero_le _⟩
    · exact ⟨le_rfl, le_rfl⟩
  | read a =>
    unfold Critical.kept
    dsimp only
    split
    · exact ⟨Multiset.zero_le _, Multiset.zero_le _⟩
    · exact ⟨le_rfl, le_rfl⟩
  | search => exact ⟨le_rfl, le_rfl⟩
  | pump => exact ⟨le_rfl, le_rfl⟩

/-- Sections keep at most what they hand over or read. -/
theorem flatMap_kept_le (cfg : LaggedSocketConfig D) (cs : List (Critical D)) :
    (((cs.flatMap (Critical.kept cfg) : Multiset Pending).filter fun p ↦ p.outbound = true).map
        Pending.datagram ≤ cs.flatMap outgoing) ∧
      ((cs.flatMap (Critical.kept cfg) : Multiset Pending).filter fun p ↦ p.outbound = false).map
        Pending.datagram ≤ cs.flatMap incoming := by
  induction cs with
  | nil => exact ⟨le_rfl, le_rfl⟩
  | cons c cs ih =>
    obtain ⟨hout, hin⟩ := kept_le cfg c
    simp only [List.flatMap_cons, ← Multiset.coe_add, Multiset.filter_add, Multiset.map_add]
    exact ⟨add_le_add hout ih.1, add_le_add hin ih.2⟩

omit [FloatOps D] in
/-- Transmitted datagrams are those of the entries that they release. -/
theorem map_datagram {sent : List Sent} {released : List Pending}
    (h : List.Forall₂ Sent.Releases sent released) :
    sent.map Sent.datagram = released.map Pending.datagram := by
  induction h with
  | nil => rfl
  | cons hx _ ih =>
    rw [List.map_cons, List.map_cons, ih, Sent.datagram, hx.ep, hx.bytes]
    rfl

/-- Sections put on the wire and keep in the conditioner at most what they find there and what
is handed to them; likewise what they return. -/
theorem trace_le (s : LaggedSocket D Q) (hfd : 0 ≤ s.fd) (cs : List (Critical D)) :
    let r := s.trace cs
    r.1.fd = s.fd ∧
    (r.2.1.map Sent.datagram : List Datagram) + carried true r.1 ≤
      cs.flatMap outgoing + carried true s ∧
    ∃ delivered : List Pending, List.Forall₂ Returned.Releases r.2.2 delivered ∧
      (delivered.map Pending.datagram : List Datagram) + carried false r.1 ≤
        cs.flatMap incoming + carried false s := by
  intro r
  obtain ⟨released, delivered, h⟩ := s.trace_spec hfd cs
  obtain ⟨hout, hin⟩ := flatMap_kept_le s.cfg cs
  have hsent : r.2.1.map Sent.datagram = released.map Pending.datagram := map_datagram h.sent
  have hside (b : Bool) (left : List Pending)
      (hleft : ((released + delivered : Multiset Pending).filter fun p ↦ p.outbound = b) = left) :
      (left.map Pending.datagram : List Datagram) + carried b r.1 =
        ((cs.flatMap (Critical.kept s.cfg) : Multiset Pending).filter fun p ↦ p.outbound = b).map
          Pending.datagram + carried b s := by
    have hb := congrArg (Multiset.filter fun p ↦ p.outbound = b) h.balance
    rw [Multiset.filter_add, Multiset.filter_add, hleft] at hb
    have hm := congrArg (Multiset.map Pending.datagram) hb
    rw [Multiset.map_add, Multiset.map_add] at hm
    exact hm.symm
  refine ⟨h.fd, ?_, delivered, h.returned, ?_⟩
  · rw [hsent, hside true released ?_]
    · exact add_le_add hout le_rfl
    · rw [Multiset.filter_add, filter_side h.outbound,
        filter_otherSide h.inbound Bool.false_ne_true, add_zero]
  · rw [hside false delivered ?_]
    · exact add_le_add hin le_rfl
    · rw [Multiset.filter_add, filter_side h.inbound,
        filter_otherSide h.outbound Bool.false_ne_true.symm, zero_add]

/-! ### What is under way after sections -/

/-- What a read keeps, of more payloads. -/
theorem heads_mono {ps qs : Multiset (List UInt8)} (h : ps ≤ qs) : heads ps ≤ heads qs :=
  Multiset.map_le_map h

/-- What a read keeps, of two bags of payloads. -/
theorem heads_add (ps qs : Multiset (List UInt8)) : heads (ps + qs) = heads ps + heads qs :=
  Multiset.map_add _ ps qs

/-- Payloads of an endpoint among more datagrams. -/
theorem payloads_mono (e : Endpoint) {ds es : Multiset Datagram} (h : ds ≤ es) :
    payloads e ds ≤ payloads e es :=
  Multiset.map_le_map (Multiset.filter_le_filter _ h)

variable [FloatArith F32]

/-- Sections on the socket of a client change nothing else. -/
theorem exec_frame (e : Endpoint) (cs : List (Critical D)) (c : Conditioned D Q) :
    let r := (c.exec e cs).1
    r.process = c.process ∧ r.server = c.server ∧ r.serverSocket = c.serverSocket ∧
      r.inHand = c.inHand := by
  unfold exec
  dsimp only
  split <;> exact ⟨rfl, rfl, rfl, rfl⟩

/-- Sections on the socket of a client add to what is under way at most what they hand over
or read, and take out what they return. -/
theorem exec_le (e : Endpoint) (cs : List (Critical D)) (c : Conditioned D Q) :
    let r := c.exec e cs
    (∀ e', r.1.up e' ≤ c.up e' +
        if e = e' then (cs.flatMap outgoing : Multiset Datagram).map Datagram.payload else 0) ∧
    ∃ delivered : List Pending, List.Forall₂ Returned.Releases r.2 delivered ∧
      ∀ e', (if e = e' then (delivered.map Pending.bytes : Multiset (List UInt8)) else 0) +
          r.1.down e' ≤ c.down e' +
        if e = e' then (cs.flatMap incoming : Multiset Datagram).map Datagram.payload else 0 := by
  unfold exec
  dsimp only
  split
  · refine ⟨fun e' ↦ Multiset.le_add_right _ _, [], .nil, fun e' ↦ ?_⟩
    rw [show (if e = e' then (([] : List Pending).map Pending.bytes : Multiset (List UInt8))
      else 0) = 0 by split <;> rfl, zero_add]
    exact Multiset.le_add_right _ _
  · next hfd =>
    let r := (c.socket e).trace cs
    obtain ⟨_, hout, delivered, hret, hin⟩ := trace_le (c.socket e) (by omega) cs
    have hout := Multiset.map_le_map (f := Datagram.payload) hout
    have hin := Multiset.map_le_map (f := Datagram.payload) hin
    simp only [Multiset.map_add, Multiset.map_coe, List.map_map] at hout hin
    refine ⟨fun e' ↦ ?_, delivered, hret, fun e' ↦ ?_⟩
    · unfold up
      dsimp only
      rw [payloads_add, payloads_sends, Function.update_apply]
      by_cases he : e = e'
      · subst he
        rw [if_pos rfl, if_pos rfl, if_pos rfl, Multiset.map_coe]
        calc _ = ((r.2.1.map Sent.bytes : List _) : Multiset (List UInt8)) +
              (carried true r.1).map Datagram.payload +
              (payloads e c.toServer + payloads e (carried false c.serverSocket)) := by abel
          _ ≤ _ := add_le_add hout le_rfl
          _ = _ := by abel
      · rw [if_neg (Ne.symm he), if_neg he, if_neg he, add_zero, add_zero]
    · unfold down
      dsimp only
      rw [Function.update_apply]
      by_cases he : e = e'
      · subst he
        rw [if_pos rfl, if_pos rfl, if_pos rfl, Multiset.map_coe]
        calc _ = ((delivered.map Pending.bytes : List _) : Multiset (List UInt8)) +
              (carried false r.1).map Datagram.payload +
              (payloads e (carried true c.serverSocket) + payloads e c.toClients) := by abel
          _ ≤ _ := add_le_add hin le_rfl
          _ = _ := by abel
      · rw [if_neg (Ne.symm he), if_neg he, if_neg he, add_zero, zero_add]

/-- Sections that hand nothing over add nothing to what is on its way to the server. -/
theorem exec_up_le (e : Endpoint) (cs : List (Critical D)) (c : Conditioned D Q)
    (hout : cs.flatMap outgoing = []) (e' : Endpoint) : (c.exec e cs).1.up e' ≤ c.up e' := by
  obtain ⟨hup, _⟩ := c.exec_le e cs
  have hup := hup e'
  rw [hout] at hup
  simpa using hup

/-- Sections that read nothing add nothing to what is on its way to a client. -/
theorem exec_down_le (e : Endpoint) (cs : List (Critical D)) (c : Conditioned D Q)
    (hin : cs.flatMap incoming = []) (e' : Endpoint) : (c.exec e cs).1.down e' ≤ c.down e' := by
  obtain ⟨_, delivered, _, hdown⟩ := c.exec_le e cs
  have hdown := (Multiset.le_add_left _ _).trans (hdown e')
  rw [hin] at hdown
  simpa using hdown

/-- Sections on the socket of the server add to what is under way at most what they hand over
or read, and take out what they return. -/
theorem execServer_le (cs : List (Critical D)) (c : Conditioned D Q)
    (hfd : 0 ≤ c.serverSocket.fd) :
    let r := c.execServer cs
    r.1.serverSocket.fd = c.serverSocket.fd ∧
    (∀ e, r.1.down e ≤ c.down e + payloads e (cs.flatMap outgoing)) ∧
    ∃ delivered : List Pending, List.Forall₂ Returned.Releases r.2 delivered ∧
      ∀ e, payloads e (delivered.map Pending.datagram) + r.1.up e ≤
        c.up e + payloads e (cs.flatMap incoming) := by
  let r := c.serverSocket.trace cs
  obtain ⟨hfd', hout, delivered, hret, hin⟩ := trace_le c.serverSocket hfd cs
  refine ⟨hfd', fun e ↦ ?_, delivered, hret, fun e ↦ ?_⟩
  · have hout := payloads_mono e hout
    rw [payloads_add, payloads_add] at hout
    unfold down execServer
    dsimp only
    rw [payloads_add]
    calc _ = payloads e (r.2.1.map Sent.datagram : List Datagram) + payloads e (carried true r.1) +
          (payloads e c.toClients + (carried false (c.socket e)).map Datagram.payload) := by abel
      _ ≤ _ := add_le_add hout le_rfl
      _ = _ := by abel
  · have hin := payloads_mono e hin
    rw [payloads_add, payloads_add] at hin
    unfold up execServer
    dsimp only
    calc _ = payloads e (delivered.map Pending.datagram : List Datagram) +
          payloads e (carried false r.1) +
          ((carried true (c.socket e)).map Datagram.payload + payloads e c.toServer) := by abel
      _ ≤ _ := add_le_add hin le_rfl
      _ = _ := by abel

/-! ### Matching -/

omit [FloatOps D] [FloatArith F32] in
/-- More in flight covers more under way. -/
theorem Covers.add {flight under under' more : Multiset (List UInt8)} {hand : Option Returned}
    (h : Covers flight hand under) (hu : heads under' ≤ heads (under + more)) :
    Covers (flight + more) hand under' := by
  rw [heads_add] at hu
  cases hand with
  | none =>
    change heads under ≤ heads flight at h
    change heads under' ≤ heads (flight + more)
    rw [heads_add]
    exact hu.trans (add_le_add h le_rfl)
  | some x =>
    obtain ⟨payload, hx, hle⟩ := h
    refine ⟨payload, hx, ?_⟩
    rw [heads_add]
    refine le_trans ?_ (add_le_add hle le_rfl)
    rw [heads, heads, Multiset.map_cons, Multiset.map_cons, Multiset.cons_add]
    exact Multiset.cons_le_cons _ hu

omit [FloatOps D] [FloatArith F32] in
/-- The search takes what it returns out of what is under way. -/
theorem Covers.search {flight under under' : Multiset (List UInt8)} {returned : List Returned}
    {delivered : List Pending} (h : Covers flight none under)
    (hret : List.Forall₂ Returned.Releases returned delivered)
    (hle : (delivered.map Pending.bytes : Multiset (List UInt8)) + under' ≤ under) :
    Covers flight returned.head? under' := by
  have hheads := (heads_mono hle).trans h
  cases hret with
  | nil =>
    change heads under' ≤ heads flight
    simpa using hheads
  | @cons x p _ rest hx _ =>
    refine ⟨p.bytes, hx.bytes, le_trans (heads_mono ?_) hheads⟩
    rw [List.map_cons, ← Multiset.cons_coe, Multiset.cons_add]
    exact Multiset.cons_le_cons _ (Multiset.le_add_left _ _)

omit [FloatOps D] in
/-- A change in which the same is added in flight and at most this under way. -/
theorem Refines.change {c c' : Conditioned D Q} {s s' : System} (h : Refines c s)
    (process : c'.process = s'.process) (server : c'.server = s'.server)
    (opened : c'.serverSocket.fd = c.serverSocket.fd) (hand : c'.inHand = c.inHand)
    (cap : ∀ e x, c.inHand e = some x →
      c'.process e = .done ∨ (c'.process e).receiveCap = some x.cap)
    (moreUp moreDown : Endpoint → Multiset (List UInt8))
    (hup : ∀ e, heads (c'.up e) ≤ heads (c.up e + moreUp e))
    (hup' : ∀ e, payloads e s'.toServer = payloads e s.toServer + moreUp e)
    (hdown : ∀ e, heads (c'.down e) ≤ heads (c.down e + moreDown e))
    (hdown' : ∀ e, payloads e s'.toClients = payloads e s.toClients + moreDown e) :
    Refines c' s' where
  process := process
  server := server
  opened := opened ▸ h.opened
  up e := by
    rw [hup', heads_add]
    refine (hup e).trans ?_
    rw [heads_add]
    exact add_le_add (h.up e) le_rfl
  down e := by
    rw [hdown', hand]
    exact (h.down e).add (hdown e)
  cap e x hx := cap e x (hand ▸ hx)

omit [FloatOps D] in
/-- A change in which nothing is added under way. -/
theorem Refines.mono {c c' : Conditioned D Q} {s : System} (h : Refines c s)
    (process : c'.process = c.process) (server : c'.server = c.server)
    (opened : c'.serverSocket.fd = c.serverSocket.fd) (hand : c'.inHand = c.inHand)
    (hup : ∀ e, heads (c'.up e) ≤ heads (c.up e))
    (hdown : ∀ e, heads (c'.down e) ≤ heads (c.down e)) : Refines c' s := by
  refine h.change (process.trans h.process) (server.trans h.server) opened hand ?_
    (fun _ ↦ 0) (fun _ ↦ 0) ?_ ?_ ?_ ?_
  · intro e x hx
    rw [process]
    exact h.cap e x hx
  · simpa using hup
  · simp
  · simpa using hdown
  · simp

omit [FloatOps D] in
/-- A process changes. -/
theorem Refines.become {c : Conditioned D Q} {s : System} (h : Refines c s) (e : Endpoint)
    (p : Process) (hp : ∀ x, c.inHand e = some x → p = .done ∨ p.receiveCap = some x.cap) :
    Refines (c.become e p) (s.become e p []) := by
  refine h.change ?_ h.server rfl rfl ?_ (fun _ ↦ 0) (fun _ ↦ 0) ?_ ?_ ?_ ?_
  · unfold Conditioned.become System.become
    rw [h.process]
  · intro e' x hx
    unfold Conditioned.become
    dsimp only
    rw [Function.update_apply]
    split
    · next he => exact hp x (he ▸ hx)
    · exact h.cap e' x hx
  · exact fun e' ↦ (congrArg heads (add_zero (c.up e'))).ge
  · simp [System.become]
  · exact fun e' ↦ (congrArg heads (add_zero (c.down e'))).ge
  · simp [System.become]

/-- A client sends a datagram. -/
theorem Refines.send {c : Conditioned D Q} {s : System} (h : Refines c s) (e : Endpoint)
    (bytes : List UInt8) (tx : Tx D) :
    Refines (c.send e bytes tx) { s with toServer := s.toServer + {⟨e, bytes⟩} } := by
  obtain ⟨hp, hs, hsock, hhand⟩ := c.exec_frame e [.send c.serverEp bytes tx.draws tx.nowUs]
  obtain ⟨hup, _⟩ := c.exec_le e [.send c.serverEp bytes tx.draws tx.nowUs]
  refine h.change (hp.trans h.process) (hs.trans h.server) (congrArg _ hsock) hhand ?_
    (fun e' ↦ if e = e' then {bytes} else 0) (fun _ ↦ 0) ?_ ?_ ?_ ?_
  · intro e' x hx
    rw [Conditioned.send, hp]
    exact h.cap e' x hx
  · intro e'
    exact heads_mono (hup e')
  · intro e'
    rw [payloads_add]
    exact congrArg _ (payloads_sends e' e [bytes])
  · intro e'
    rw [add_zero]
    exact heads_mono (c.exec_down_le e _ rfl e')
  · simp

omit [FloatOps D] [FloatArith F32] in
/-- Equal reads have equal beginnings. -/
theorem take_congr {a b : List UInt8} {n m : Nat} (h : a.take m = b.take m) (hn : n ≤ m) :
    a.take n = b.take n := by
  have h' := congrArg (List.take n) h
  rwa [List.take_take, List.take_take, Nat.min_eq_left hn] at h'

omit [FloatOps D] [FloatArith F32] in
/-- A payload under way comes from a datagram in flight, and the others from the rest. -/
theorem exists_datagram {e : Endpoint} {payload : List UInt8} {under : Multiset (List UInt8)}
    {flight : Multiset Datagram} (h : heads (payload ::ₘ under) ≤ heads (payloads e flight)) :
    ∃ d ∈ flight, d.endpoint = e ∧ payload.take recvTmpBytes = d.payload.take recvTmpBytes ∧
      heads under ≤ heads (payloads e (flight.erase d)) := by
  have hmem : payload.take recvTmpBytes ∈ heads (payloads e flight) := by
    apply Multiset.mem_of_le h
    rw [heads, Multiset.map_cons]
    exact Multiset.mem_cons_self _ _
  obtain ⟨payload', hpayload, htake⟩ := Multiset.mem_map.mp hmem
  have hd := (mem_payloads e flight payload').mp hpayload
  refine ⟨⟨e, payload'⟩, hd, rfl, htake.symm, ?_⟩
  have herase := payloads_erase ⟨e, payload'⟩ flight hd
  dsimp only at herase
  rw [herase, heads, heads, Multiset.map_cons, Multiset.map_cons, htake] at h
  exact (Multiset.cons_le_cons_iff _).mp h

omit [FloatOps D] [FloatArith F32] in
/-- A datagram taken out is none of another endpoint. -/
theorem payloads_erase_of_ne {e : Endpoint} {d : Datagram} (h : d.endpoint ≠ e)
    (ds : Multiset Datagram) : payloads e (ds.erase d) = payloads e ds := by
  by_cases hd : d ∈ ds
  · have hcons := congrArg (payloads e) (Multiset.cons_erase hd)
    rw [payloads, Multiset.filter_cons_of_neg (p := fun x : Datagram ↦ x.endpoint = e) _ h] at hcons
    exact hcons
  · rw [Multiset.erase_of_notMem hd]

omit [FloatOps D] [FloatArith F32] in
/-- The receive thread looks at what a read keeps. -/
theorem receive_congr {a b : List UInt8} (h : a.take recvTmpBytes = b.take recvTmpBytes) :
    NetworkReceiver.receive a = NetworkReceiver.receive b := by
  unfold NetworkReceiver.receive
  rw [take_congr h (by decide)]

omit [FloatOps D] [FloatArith F32] in
/-- The receive thread looks at what fits into its buffer. -/
theorem receive_cut (a : List UInt8) :
    NetworkReceiver.receive (a.take maxPacketBytes) = NetworkReceiver.receive a := by
  unfold NetworkReceiver.receive
  rw [List.take_take, Nat.min_self]

omit [FloatOps D] in
/-- A process handles what `recv_from` returns like the whole datagram. -/
theorem receive_take (pr : Process) (wallMs : UInt64) {cap : Nat} {a b : List UInt8}
    (hcap : pr = .done ∨ pr.receiveCap = some cap)
    (h : a.take recvTmpBytes = b.take recvTmpBytes) :
    pr.receive wallMs (a.take cap) = pr.receive wallMs b := by
  rcases hcap with rfl | hcap
  · rfl
  · cases pr with
    | idle => cases hcap
    | done => cases hcap
    | joining noPrediction noInterpolation =>
      obtain rfl := Option.some.inj hcap
      have hid : acceptedId (a.take handshakeBytes) = acceptedId b := by
        unfold acceptedId
        rw [List.take_take, Nat.min_self, take_congr h (by decide)]
      unfold Process.receive
      dsimp only
      rw [hid]
    | playing p =>
      obtain rfl := Option.some.inj hcap
      unfold Process.receive
      dsimp only
      rw [receive_cut, receive_congr h]

omit [FloatArith F32] in
/-- The search returns into the buffer that it is given. -/
theorem trace_search_cap (s : LaggedSocket D Q) (cap : Nat) (flushUs scanUs : UInt64) :
    ∀ x ∈ (s.trace [.search cap flushUs scanUs]).2.2, x.cap = cap := by
  rw [LaggedSocket.trace_singleton]
  unfold LaggedSocket.critical LaggedSocket.call LaggedSocket.recvFrom
  dsimp only
  split
  · exact fun x hx ↦ absurd hx List.not_mem_nil
  · intro x hx
    rw [Option.mem_toList, Option.map_eq_some_iff] at hx
    obtain ⟨p, _, rfl⟩ := hx
    rfl

/-- The search of a client takes a datagram out of its conditioner. -/
theorem Refines.search {c : Conditioned D Q} {s : System} (h : Refines c s) (e : Endpoint)
    (flushUs scanUs : UInt64) : Refines (c.step (.search e flushUs scanUs)) s := by
  unfold Conditioned.step
  dsimp only
  split
  · next cap hhand hcap =>
    obtain ⟨hp, hs, hsock, _⟩ := c.exec_frame e [.search cap flushUs scanUs]
    have hup := c.exec_up_le e [.search cap flushUs scanUs] rfl
    obtain ⟨_, delivered, hret, hdown⟩ := c.exec_le e [.search cap flushUs scanUs]
    have hcaps : ∀ x ∈ (c.exec e [.search cap flushUs scanUs]).2, x.cap = cap := by
      unfold exec
      split
      · exact fun x hx ↦ absurd hx List.not_mem_nil
      · exact trace_search_cap _ cap flushUs scanUs
    refine ⟨hp.trans h.process, hs.trans h.server, ?_, fun e' ↦ ?_, fun e' ↦ ?_, fun e' x hx ↦ ?_⟩
    · exact hsock ▸ h.opened
    · exact (heads_mono (hup e')).trans (h.up e')
    · have hold := h.down e'
      have hdown := hdown e'
      dsimp only
      rw [Function.update_apply]
      by_cases he : e = e'
      · subst he
        rw [if_pos rfl]
        rw [hhand] at hold
        rw [if_pos rfl, if_pos rfl] at hdown
        exact hold.search hret (hdown.trans (Multiset.add_zero _).le)
      · rw [if_neg (Ne.symm he)]
        rw [if_neg he, if_neg he, zero_add] at hdown
        rw [← Multiset.add_zero (payloads e' s.toClients)]
        exact hold.add (heads_mono hdown)
    · dsimp only at hx ⊢
      rw [Function.update_apply] at hx
      rw [hp]
      split at hx
      · next he =>
        rw [hcaps x (List.mem_of_mem_head? hx), he]
        exact Or.inr hcap
      · exact h.cap e' x hx
  · exact h

omit [FloatOps D] in
/-- A client handles the datagram that it holds. -/
theorem Refines.handle {c : Conditioned D Q} {s : System} (h : Refines c s) {e : Endpoint}
    {x : Returned} (hx : c.inHand e = some x) (wallMs : UInt64) :
    ∃ d, Refines
      (({ c with inHand := Function.update c.inHand e none } : Conditioned D Q).become e
        ((c.process e).receive wallMs x.bytes)) (s.step (.receive d wallMs)) := by
  have hcovers := h.down e
  rw [hx] at hcovers
  obtain ⟨payload, hbytes, hle⟩ := hcovers
  obtain ⟨d, hd, rfl, htake, hrest⟩ := exists_datagram hle
  have hreceive := receive_take (c.process d.endpoint) wallMs (h.cap d.endpoint x hx) htake
  rw [← hbytes] at hreceive
  have htaken : Refines { c with inHand := Function.update c.inHand d.endpoint none }
      { s with toClients := s.toClients.erase d } := by
    refine ⟨h.process, h.server, h.opened, h.up, fun e ↦ ?_, fun e y hy ↦ ?_⟩
    · dsimp only
      rw [Function.update_apply]
      split
      · next he =>
        rw [he]
        exact hrest
      · next he =>
        rw [payloads_erase_of_ne (Ne.symm he)]
        exact h.down e
    · dsimp only at hy
      rw [Function.update_apply] at hy
      split at hy
      · cases hy
      · exact h.cap e y hy
  refine ⟨d, ?_⟩
  rw [System.step, if_pos hd, hreceive, congrFun h.process d.endpoint]
  apply htaken.become
  intro y hy
  dsimp only at hy
  rw [Function.update_self] at hy
  cases hy

omit [FloatOps D] [FloatArith F32] in
/-- Sections that send datagrams hand over just these. -/
theorem flatMap_sends (tx : Nat → Tx D) (ds : List Datagram) :
    (sends tx ds).flatMap outgoing = ds ∧ (sends tx ds).flatMap incoming = [] := by
  induction ds generalizing tx with
  | nil => exact ⟨rfl, rfl⟩
  | cons d ds ih =>
    obtain ⟨hout, hin⟩ := ih fun i ↦ tx (i + 1)
    rw [sends, List.flatMap_cons, List.flatMap_cons, hout, hin]
    exact ⟨rfl, rfl⟩

/-- The server handles an event. -/
theorem Refines.serve {c : Conditioned D Q} {s : System} (h : Refines c s) (ev : Srv.Event F32)
    (tx : Nat → Tx D) : Refines (c.serve ev tx) (s.serve ev) := by
  let next : Conditioned D Q := { c with server := c.server.step ev }
  obtain ⟨hfd, hdown, delivered, _, hup⟩ :=
    execServer_le (sends tx (c.server.server.handle ev).2) next h.opened
  obtain ⟨hout, hin⟩ := flatMap_sends tx (c.server.server.handle ev).2
  refine h.change h.process ?_ hfd rfl h.cap (fun _ ↦ 0)
    (fun e ↦ payloads e ((c.server.server.handle ev).2 : Multiset Datagram)) ?_ ?_ ?_ ?_
  · change c.server.step ev = s.server.step ev
    rw [h.server]
  · intro e
    have hup := (Multiset.le_add_left _ _).trans (hup e)
    rw [hin] at hup
    exact heads_mono hup
  · intro e
    exact (add_zero _).symm
  · intro e
    have hdown := hdown e
    rw [hout] at hdown
    exact heads_mono hdown
  · intro e
    rw [h.server]
    exact payloads_add e _ _

omit [FloatOps D] in
/-- The server handles what `recv_from` returns like the whole datagram. -/
theorem handle_take (s : Server F32) (now : Int) (src : Endpoint) {a b : List UInt8}
    (h : a.take recvTmpBytes = b.take recvTmpBytes) :
    s.handle (.datagram now src (a.take maxPacketBytes)) = s.handle (.datagram now src b) := by
  unfold Server.handle Server.handleInboundUdp
  dsimp only
  rw [List.take_take, Nat.min_self, take_congr h (by decide)]

/-- Events that the server handles alike. -/
theorem serve_congr (s : System) {ev ev' : Srv.Event F32}
    (h : s.server.server.handle ev = s.server.server.handle ev') : s.serve ev = s.serve ev' := by
  have hstep : s.server.step ev = s.server.step ev' := by
    unfold ValidServer.step
    rw [ValidServer.mk.injEq]
    exact congrArg Prod.fst h
  rw [System.serve, hstep, h]
  rfl

/-- Sections of the server that hand nothing over and read what is under way to it. -/
theorem Refines.execServer {c c' : Conditioned D Q} {s : System} (h : Refines c s)
    (cs : List (Critical D)) (hprocess : c'.process = c.process) (hserver : c'.server = c.server)
    (hsocket : c'.serverSocket = c.serverSocket) (hhand : c'.inHand = c.inHand)
    (hout : cs.flatMap outgoing = [])
    (hup : ∀ e, heads (c'.up e + payloads e (cs.flatMap incoming)) ≤ heads (c.up e))
    (hdown : ∀ e, heads (c'.down e) ≤ heads (c.down e)) :
    Refines (c'.execServer cs).1 s := by
  obtain ⟨hfd, hdown', delivered, _, hup'⟩ := execServer_le cs c' (hsocket ▸ h.opened)
  rw [hout] at hdown'
  refine h.mono hprocess hserver (hfd.trans (congrArg _ hsocket)) hhand (fun e ↦ ?_) fun e ↦ ?_
  · exact (heads_mono ((Multiset.le_add_left _ _).trans (hup' e))).trans (hup e)
  · exact (heads_mono ((hdown' e).trans (add_zero _).le)).trans (hdown e)

/-- Event of the client at an endpoint with an action. -/
def does (e : Endpoint) (c : Conditioned D Q) : Action D → Option (Cl.Event F32)
  | .drain src nowMs order => if src = e then (c.process src).drains nowMs order else none
  | .act src ev => if src = e then (c.process src).acts ev else none
  | .input src mx my dt nowMs order _ =>
    if src = e then (c.process src).inputs mx my dt nowMs order else none
  | _ => none

/-- Events of the client at an endpoint in a run. -/
def doings (e : Endpoint) (c : Conditioned D Q) : List (Action D) → List (Cl.Event F32)
  | [] => []
  | a :: as => (c.does e a).toList ++ doings e (c.step a) as

/-- A step is matched by actions with which the server handles the same events, and the clients
do the same. -/
def Matched (c : Conditioned D Q) (s : System) (a : Action D) : Prop :=
  ∃ as : List Net.Action, Refines (c.step a) (s.run as) ∧
    (c.serves a).toList = (s.history as).map cut ∧ ∀ e, (c.does e a).toList = s.doings e as

/-- The server searches its conditioner and handles what it finds. -/
theorem Refines.searchServer {c : Conditioned D Q} {s : System} (h : Refines c s) (now : Int)
    (flushUs scanUs : UInt64) (tx : Nat → Tx D) :
    Matched c s (.searchServer now flushUs scanUs tx) := by
  obtain ⟨hfd, hdown, delivered, hret, hup⟩ :=
    execServer_le [.search maxPacketBytes flushUs scanUs] c h.opened
  have hcaps := trace_search_cap c.serverSocket maxPacketBytes flushUs scanUs
  change ∀ x ∈ (c.execServer [.search maxPacketBytes flushUs scanUs]).2, _ at hcaps
  unfold Matched Conditioned.step Conditioned.serves
  dsimp only
  have hmono := h.execServer [.search maxPacketBytes flushUs scanUs] rfl rfl rfl rfl rfl
    (fun e ↦ (congrArg heads (add_zero (c.up e))).le) fun _ ↦ le_rfl
  generalize c.execServer [.search maxPacketBytes flushUs scanUs] = r at *
  split
  · next hr =>
    rw [hr]
    exact ⟨[], hmono, rfl, fun _ ↦ rfl⟩
  · next x returned hr =>
    rw [hr] at hret hcaps
    cases hret with
    | @cons _ p _ rest hx _ =>
      -- The entry was under way from its endpoint, so a datagram in flight stands for it.
      have hle : p.bytes ::ₘ r.1.up p.ep ≤ c.up p.ep := by
        refine le_trans ?_ ((hup p.ep).trans (add_zero _).le)
        rw [List.map_cons, ← Multiset.cons_coe, payloads,
          Multiset.filter_cons_of_pos (p := fun x : Datagram ↦ x.endpoint = p.ep) _ rfl,
          Multiset.map_cons, Multiset.cons_add]
        exact Multiset.cons_le_cons _ (Multiset.le_add_left _ _)
      obtain ⟨d, hd, hep, htake, hunder⟩ := exists_datagram ((heads_mono hle).trans (h.up p.ep))
      have htaken : Refines r.1 { s with toServer := s.toServer.erase d } := by
        refine ⟨hmono.process, hmono.server, hmono.opened, fun e ↦ ?_, hmono.down, hmono.cap⟩
        by_cases he : d.endpoint = e
        · rw [← he, hep]
          exact hunder
        · rw [payloads_erase_of_ne he]
          exact hmono.up e
      refine ⟨[.deliver d now], ?_, ?_, fun _ ↦ rfl⟩
      · change Refines _ (s.step (.deliver d now))
        rw [System.step, if_pos hd, hx.src, hx.bytes, hcaps x List.mem_cons_self, ← hep,
          ← serve_congr _ (handle_take _ now d.endpoint htake)]
        exact htaken.serve _ tx
      · have hcut : d.payload.take maxPacketBytes = x.bytes := by
          rw [hx.bytes, hcaps x List.mem_cons_self]
          exact take_congr htake.symm (by decide)
        rw [hr, System.history, System.serves, if_pos hd, System.history, List.append_nil,
          Option.toList_some, List.map_singleton, cut, hcut, hep, ← hx.src]
        rfl

omit [FloatOps D] [FloatArith F32] in
/-- Cut payloads keep what a read keeps. -/
theorem heads_take (ps : Multiset (List UInt8)) (payload : List UInt8) :
    heads (ps + {payload.take recvTmpBytes}) = heads (ps + {payload}) := by
  have htake : heads {payload.take recvTmpBytes} = heads {payload} := by
    unfold heads
    rw [Multiset.map_singleton, Multiset.map_singleton, List.take_take, Nat.min_self]
  rw [heads_add, heads_add, htake]

omit [FloatOps D] [FloatArith F32] in
/-- Payloads of an endpoint before a datagram is taken out. -/
theorem payloads_eq_erase (e : Endpoint) {d : Datagram} {ds : Multiset Datagram} (h : d ∈ ds) :
    payloads e ds = payloads e (ds.erase d) + if d.endpoint = e then {d.payload} else 0 := by
  split
  · next he =>
    rw [← he, payloads_erase d ds h, add_comm, Multiset.singleton_add]
  · next he => rw [payloads_erase_of_ne he, add_zero]

omit [FloatOps D] in
/-- A client reads a datagram from the wire. -/
theorem down_erase (c : Conditioned D Q) {d : Datagram} (h : d ∈ c.toClients) (e : Endpoint) :
    c.down e = ({ c with toClients := c.toClients.erase d } : Conditioned D Q).down e +
      if d.endpoint = e then {d.payload} else 0 := by
  unfold down
  dsimp only
  rw [payloads_eq_erase e h]
  abel

omit [FloatOps D] in
/-- The server reads a datagram from the wire. -/
theorem up_erase (c : Conditioned D Q) {d : Datagram} (h : d ∈ c.toServer) (e : Endpoint) :
    c.up e = ({ c with toServer := c.toServer.erase d } : Conditioned D Q).up e +
      if d.endpoint = e then {d.payload} else 0 := by
  unfold up
  dsimp only
  rw [payloads_eq_erase e h]
  abel

/-- A datagram that a client reads goes from the wire to its conditioner or is dropped. -/
theorem Refines.read {c : Conditioned D Q} {s : System} (h : Refines c s) (e : Endpoint)
    (a : Arrival D) : Refines (c.step (.read e a)) s := by
  unfold Conditioned.step
  dsimp only
  split
  · next hmem =>
    let taken : Conditioned D Q := { c with toClients := c.toClients.erase ⟨e, a.payload⟩ }
    obtain ⟨hp, hs, hsock, hhand⟩ := taken.exec_frame e [.read a]
    obtain ⟨_, delivered, _, hdown⟩ := taken.exec_le e [.read a]
    refine h.mono hp hs (congrArg _ hsock) hhand (fun e' ↦ ?_) fun e' ↦ ?_
    · exact heads_mono (taken.exec_up_le e [.read a] rfl e')
    · refine (heads_mono ((Multiset.le_add_left _ _).trans (hdown e'))).trans ?_
      rw [c.down_erase hmem e']
      dsimp only
      split
      · exact (heads_take (taken.down e') a.payload).le
      · exact le_rfl
  · exact h

/-- A datagram that the server reads goes from the wire to its conditioner or is dropped. -/
theorem Refines.readServer {c : Conditioned D Q} {s : System} (h : Refines c s) (a : Arrival D) :
    Refines (c.step (.readServer a)) s := by
  unfold Conditioned.step
  dsimp only
  split
  · next hmem =>
    let taken : Conditioned D Q := { c with toServer := c.toServer.erase ⟨a.src, a.payload⟩ }
    refine h.execServer [.read a] rfl rfl rfl rfl rfl (fun e ↦ ?_) fun e ↦ le_rfl
    rw [c.up_erase hmem e]
    have hpayloads := payloads_sends e a.src [a.payload.take recvTmpBytes]
    change payloads e ([Critical.read a].flatMap incoming : List Datagram) = _ at hpayloads
    rw [hpayloads]
    dsimp only
    split
    · exact (heads_take (taken.up e) a.payload).le
    · exact le_rfl
  · exact h

/-! ### Runs -/

/-- A client sends what has matured. -/
theorem Refines.pump {c : Conditioned D Q} {s : System} (h : Refines c s) (e : Endpoint)
    (nowUs : UInt64) : Refines (c.exec e [.pump nowUs]).1 s := by
  obtain ⟨hp, hs, hsock, hhand⟩ := c.exec_frame e [.pump nowUs]
  exact h.mono hp hs (congrArg _ hsock) hhand
    (fun e' ↦ heads_mono (c.exec_up_le e _ rfl e'))
    fun e' ↦ heads_mono (c.exec_down_le e _ rfl e')

omit [FloatOps D] in
/-- The socket of a client is opened, or closed with what it holds. -/
theorem Refines.socket {c : Conditioned D Q} {s : System} (h : Refines c s) (e : Endpoint)
    (sock : LaggedSocket D Q) (hle : ∀ b, carried b sock ≤ carried b (c.socket e)) :
    Refines { c with socket := Function.update c.socket e sock } s := by
  have hall (b : Bool) (e' : Endpoint) :
      carried b (Function.update c.socket e sock e') ≤ carried b (c.socket e') := by
    rw [Function.update_apply]
    split
    · next he => exact he ▸ hle b
    · exact le_rfl
  refine h.mono rfl rfl rfl rfl (fun e' ↦ heads_mono ?_) fun e' ↦ heads_mono ?_
  · exact add_le_add (add_le_add (Multiset.map_le_map (hall true e')) le_rfl) le_rfl
  · exact add_le_add le_rfl (Multiset.map_le_map (hall false e'))

omit [FloatOps D] in
/-- A process that goes on receiving in the same buffer changes. -/
theorem Refines.become_same {c : Conditioned D Q} {s : System} (h : Refines c s) (e : Endpoint)
    {p : Process} (hp : p.receiveCap = (c.process e).receiveCap)
    (hdone : c.process e = .done → p = .done) :
    Refines (c.become e p) (s.become e p []) := by
  apply h.become e p
  intro x hx
  rw [hp]
  exact (h.cap e x hx).imp hdone id

omit [FloatOps D] in
/-- Draining a snapshot does not change the buffer. -/
theorem receiveCap_drain (pr : Process) (nowMs : UInt64)
    (order : UMap.Traversal UInt32 (PendingInputSample F32)) :
    (pr.drain nowMs order).receiveCap = pr.receiveCap := by
  cases pr with
  | playing p =>
    unfold Process.drain
    dsimp only
    split <;> rfl
  | _ => rfl

omit [FloatOps D] in
/-- The other parts of the main loop do not change the buffer. -/
theorem receiveCap_act (pr : Process) (ev : Cl.Event F32) :
    (pr.act ev).receiveCap = pr.receiveCap := by
  cases pr with
  | playing p =>
    unfold Process.act
    dsimp only
    split <;> rfl
  | _ => rfl

omit [FloatOps D] in
/-- A process that changes and sends. -/
theorem become_send (s : System) (e : Endpoint) (p : Process) (bytes : List UInt8) :
    s.become e p [bytes] = { s.become e p [] with
      toServer := (s.become e p []).toServer + {⟨e, bytes⟩} } := by
  unfold System.become
  simp

/-- Every step is matched. -/
theorem Refines.step {c : Conditioned D Q} {s : System} (h : Refines c s) (a : Action D) :
    Matched c s a := by
  cases a with
  | start e noPrediction noInterpolation tx =>
    unfold Matched Conditioned.step
    dsimp only
    split
    · next hidle =>
      have hopened := h.socket e { c.socket e with fd := 3 } fun _ ↦ le_rfl
      have hbecome := hopened.become e (.joining noPrediction noInterpolation) fun x hx ↦ by
        rcases h.cap e x hx with hcap | hcap
        · rw [hidle] at hcap
          cases hcap
        · rw [hidle] at hcap
          cases hcap
      refine ⟨[.start e noPrediction noInterpolation], ?_, rfl, fun _ ↦ rfl⟩
      change Refines _ (s.step (.start e noPrediction noInterpolation))
      rw [System.step, ← h.process, hidle]
      dsimp only
      rw [become_send]
      exact hbecome.send e joinBytes tx
    · exact ⟨[], h, rfl, fun _ ↦ rfl⟩
  | giveUp e =>
    unfold Matched Conditioned.step
    dsimp only
    split
    · next hjoining =>
      refine ⟨[.giveUp e], ?_, rfl, fun _ ↦ rfl⟩
      change Refines _ (s.step (.giveUp e))
      rw [System.step, ← h.process, hjoining]
      exact h.become e .done fun _ _ ↦ Or.inl rfl
    · exact ⟨[], h, rfl, fun _ ↦ rfl⟩
  | drain e nowMs order =>
    refine ⟨[.drain e nowMs order], ?_, rfl, fun e' ↦ ?_⟩
    · change Refines _ (s.step (.drain e nowMs order))
      rw [System.step, ← h.process]
      apply h.become_same e (receiveCap_drain _ nowMs order)
      intro hdone
      rw [hdone]
      rfl
    · rw [System.doings_singleton, does, System.does, h.process]
  | act e ev =>
    refine ⟨[.act e ev], ?_, rfl, fun e' ↦ ?_⟩
    · change Refines _ (s.step (.act e ev))
      rw [System.step, ← h.process]
      apply h.become_same e (receiveCap_act _ ev)
      intro hdone
      rw [hdone]
      rfl
    · rw [System.doings_singleton, does, System.does, h.process]
  | input e mx my dt nowMs order tx =>
    refine ⟨[.input e mx my dt nowMs order], ?_, rfl, fun e' ↦ ?_⟩
    · change Refines _ (s.step (.input e mx my dt nowMs order))
      rw [Conditioned.step, System.step, ← h.process]
      cases hp : c.process e with
      | playing p =>
        dsimp only
        rw [become_send]
        apply Refines.send
        apply h.become_same e
        · rw [hp]
          rfl
        · rw [hp]
          exact fun hdone ↦ by cases hdone
      | _ => exact h
    · rw [System.doings_singleton, does, System.does, h.process]
  | quit e tx pumpUs =>
    unfold Matched Conditioned.step
    dsimp only
    split
    · next p hp =>
      have hsent :=
        (h.become e .done fun _ _ ↦ Or.inl rfl).send e (disconnectBytes p.client.myPid) tx
      refine ⟨[.quit e], ?_, rfl, fun _ ↦ rfl⟩
      change Refines _ (s.step (.quit e))
      rw [System.step, ← h.process, hp]
      dsimp only
      rw [become_send]
      exact hsent.pump e pumpUs
    · exact ⟨[], h, rfl, fun _ ↦ rfl⟩
  | close e =>
    unfold Matched Conditioned.step
    dsimp only
    split
    · refine ⟨[], h.socket e _ fun b ↦ ?_, rfl, fun _ ↦ rfl⟩
      unfold carried LaggedSocket.queued
      dsimp only
      rw [Q.elems_empty]
      exact Multiset.zero_le _
    · exact ⟨[], h, rfl, fun _ ↦ rfl⟩
  | pump e nowUs => exact ⟨[], h.pump e nowUs, rfl, fun _ ↦ rfl⟩
  | read e a => exact ⟨[], h.read e a, rfl, fun _ ↦ rfl⟩
  | search e flushUs scanUs => exact ⟨[], h.search e flushUs scanUs, rfl, fun _ ↦ rfl⟩
  | handle e wallMs =>
    cases hx : c.inHand e with
    | none =>
      refine ⟨[], ?_, rfl, fun _ ↦ rfl⟩
      rw [Conditioned.step, hx]
      exact h
    | some x =>
      obtain ⟨d, hd⟩ := h.handle hx wallMs
      refine ⟨[.receive d wallMs], ?_, rfl, fun _ ↦ rfl⟩
      rw [Conditioned.step, hx]
      exact hd
  | pumpServer nowUs =>
    exact ⟨[], h.execServer [.pump nowUs] rfl rfl rfl rfl rfl
      (fun e ↦ (congrArg heads (add_zero (c.up e))).le) fun _ ↦ le_rfl, rfl, fun _ ↦ rfl⟩
  | readServer a => exact ⟨[], h.readServer a, rfl, fun _ ↦ rfl⟩
  | searchServer now flushUs scanUs tx => exact h.searchServer now flushUs scanUs tx
  | tick now order tx => exact ⟨[.tick now order], h.serve (.tick now order) tx, rfl, fun _ ↦ rfl⟩
  | loseToServer d =>
    refine ⟨[], h.mono rfl rfl rfl rfl (fun e ↦ heads_mono ?_) fun _ ↦ le_rfl, rfl, fun _ ↦ rfl⟩
    exact add_le_add (add_le_add le_rfl (payloads_erase_le e d _)) le_rfl
  | loseToClient d =>
    refine ⟨[], h.mono rfl rfl rfl rfl (fun _ ↦ le_rfl) fun e ↦ heads_mono ?_, rfl, fun _ ↦ rfl⟩
    exact add_le_add (add_le_add le_rfl (payloads_erase_le e d _)) le_rfl

omit [FloatOps D] in
/-- Nothing has started. -/
theorem refines_init (serverEp : Endpoint) (cfg : Endpoint → LaggedSocketConfig D)
    (serverCfg : LaggedSocketConfig D) :
    Refines (init serverEp cfg serverCfg : Conditioned D Q) System.init := by
  have hempty (b : Bool) (fd : Int) (cfg : LaggedSocketConfig D) :
      carried b (⟨fd, cfg, Q.empty⟩ : LaggedSocket D Q) = 0 := by
    unfold carried LaggedSocket.queued
    rw [Q.elems_empty]
    rfl
  refine ⟨rfl, rfl, Int.natCast_nonneg 3, fun e ↦ ?_, fun e ↦ ?_, fun e x hx ↦ by cases hx⟩
  · change heads ((carried true ⟨-1, cfg e, Q.empty⟩).map Datagram.payload + payloads e 0 +
      payloads e (carried false ⟨3, serverCfg, Q.empty⟩)) ≤ heads (payloads e 0)
    rw [hempty, hempty]
    rfl
  · change heads (payloads e (carried true ⟨3, serverCfg, Q.empty⟩) + payloads e 0 +
      (carried false ⟨-1, cfg e, Q.empty⟩).map Datagram.payload) ≤ heads (payloads e 0)
    rw [hempty, hempty]
    rfl

/-- Every run from related states is matched by a run. -/
theorem Refines.run {c : Conditioned D Q} {s : System} (h : Refines c s) (as : List (Action D)) :
    ∃ acts : List Net.Action, Refines (c.run as) (s.run acts) ∧
      c.history as = (s.history acts).map cut ∧ ∀ e, c.doings e as = s.doings e acts := by
  induction as generalizing c s with
  | nil => exact ⟨[], h, rfl, fun _ ↦ rfl⟩
  | cons a as ih =>
    obtain ⟨first, hfirst, hserves, hdoes⟩ := h.step a
    obtain ⟨rest, hrest, hhistory, hdoings⟩ := ih hfirst
    refine ⟨first ++ rest, ?_, ?_, fun e ↦ ?_⟩
    · rw [System.run, List.foldl_append]
      exact hrest
    · rw [history, hserves, hhistory, System.history_append, List.map_append]
    · rw [doings, hdoes, hdoings, System.doings_append]

/-- Whatever the conditioners drop and delay and however the threads of the clients take turns,
the processes and the server are in states that they reach over a network without conditioners,
where everything that is under way is in flight, the server handles the same datagrams, up to
the bytes that it reads of them, and the clients do the same. -/
theorem refines_run (serverEp : Endpoint) (cfg : Endpoint → LaggedSocketConfig D)
    (serverCfg : LaggedSocketConfig D) (as : List (Action D)) :
    let c : Conditioned D Q := init serverEp cfg serverCfg
    ∃ acts : List Net.Action, Refines (c.run as) (System.init.run acts) ∧
      c.history as = (System.init.history acts).map cut ∧
        ∀ e, c.doings e as = System.init.doings e acts :=
  (refines_init serverEp cfg serverCfg).run as

/-! ### Transfer -/

/-- A snapshot on its way to a client, in its conditioner, in its hands or in its queue. -/
def Reaches (c : Conditioned D Q) (e : Endpoint) (p : Playing) (snap : Snapshot F32) : Prop :=
  (∃ payload ∈ c.down e, NetworkReceiver.receive payload = some snap) ∨
    (∃ x, c.inHand e = some x ∧ NetworkReceiver.receive x.bytes = some snap) ∨
    ∃ ss ∈ p.queue, ss.snap = snap

/-- Every snapshot that reaches a client has one record of its id, which acknowledges nothing
or an input that the client has sent with this id, and a number below its next one unless the
numbers have wrapped. -/
def OwnRecords (c : Conditioned D Q) : Prop :=
  ∀ e p, c.process e = .playing p → ∀ snap, c.Reaches e p snap →
    ∃ ps, snap.players.filter (fun ps ↦ ps.id = p.client.myPid) = [ps] ∧
      (ps.lastProcessedInputSeq = 0 ∨
        ∃ ip ∈ p.sent, ip.playerId = p.client.myPid ∧ ip.seq = ps.lastProcessedInputSeq) ∧
      (p.sent.length < 2 ^ 32 - 1 → ps.lastProcessedInputSeq < p.client.predictor.nextSeq)

omit [FloatOps D] [FloatArith F32] in
/-- Everything under way comes from what is in flight. -/
theorem Covers.heads_le {flight under : Multiset (List UInt8)} {hand : Option Returned}
    (h : Covers flight hand under) : heads under ≤ heads flight := by
  cases hand with
  | none => exact h
  | some x =>
    obtain ⟨payload, _, hle⟩ := h
    exact (heads_mono (Multiset.le_cons_self under payload)).trans hle

omit [FloatOps D] in
/-- A snapshot that reaches a client is in flight to it, or in its queue. -/
theorem Refines.reaches {c : Conditioned D Q} {s : System} (h : Refines c s) {e : Endpoint}
    {p : Playing} (hp : c.process e = .playing p) {snap : Snapshot F32} (hr : c.Reaches e p snap) :
    (∃ payload ∈ payloads e s.toClients, NetworkReceiver.receive payload = some snap) ∨
      ∃ ss ∈ p.queue, ss.snap = snap := by
  have hflight {payload : List UInt8} {under : Multiset (List UInt8)}
      (hle : heads (payload ::ₘ under) ≤ heads (payloads e s.toClients))
      (hrecv : NetworkReceiver.receive payload = some snap) :
      ∃ payload ∈ payloads e s.toClients, NetworkReceiver.receive payload = some snap := by
    obtain ⟨d, hd, rfl, htake, _⟩ := exists_datagram hle
    exact ⟨d.payload, (mem_payloads _ _ _).mpr hd, (receive_congr htake).symm.trans hrecv⟩
  have hcovers := h.down e
  rcases hr with ⟨payload, hmem, hrecv⟩ | ⟨x, hx, hrecv⟩ | hq
  · obtain ⟨under, hunder⟩ := Multiset.exists_cons_of_mem hmem
    exact Or.inl (hflight (hunder ▸ hcovers.heads_le) hrecv)
  · rw [hx] at hcovers
    obtain ⟨payload, hbytes, hle⟩ := hcovers
    rcases h.cap e x hx with hcap | hcap
    · rw [hp] at hcap
      cases hcap
    · rw [hp] at hcap
      rw [hbytes, ← Option.some.inj hcap, receive_cut] at hrecv
      exact Or.inl (hflight hle hrecv)
  · exact Or.inr hq

/-- Behind conditioners, too, every snapshot that reaches a client is its own. -/
theorem ownRecords_run (serverEp : Endpoint) (cfg : Endpoint → LaggedSocketConfig D)
    (serverCfg : LaggedSocketConfig D) (as : List (Action D)) :
    ((init serverEp cfg serverCfg : Conditioned D Q).run as).OwnRecords := by
  intro e p hp snap hr
  obtain ⟨acts, h, _⟩ := (refines_init (Q := Q) serverEp cfg serverCfg).run as
  have hholds := System.holds_run acts e
  rw [System.Holds, ← h.process, hp] at hholds
  have hplaying : p.Own ((System.init.run acts).link e) := hholds
  have hown : Own p.client.myPid p.sent snap := by
    rcases h.reaches hp hr with ⟨payload, hmem, hrecv⟩ | ⟨ss, hss, rfl⟩
    · exact hplaying.owns.snapshot payload hmem snap
        ((NetworkReceiver.receive_eq_some_iff _ _).mp hrecv)
    · exact hplaying.queue ss hss
  obtain ⟨ack, hacks, hissued⟩ := hown
  obtain ⟨ps, hps, rfl⟩ := hacks.filter_eq
  exact ⟨ps, hps, hissued, fun hn ↦ hplaying.numbered.lt_next hn hissued⟩

end Conditioned
end
end LightningLink.Net
