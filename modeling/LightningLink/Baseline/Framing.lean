import LightningLink.Baseline.Exact
import LightningLink.Baseline.Lines

/-!
# Line framing over short writes

Library `Baseline`. One connection between the baseline server and a client, with the other
connections of the server around it. Every `::send` on it may accept any first part of its
buffer, and `::recv` yields what was accepted in chunks of any size. Neither side looks at the
result of `::send`, so that the rest of a buffer is lost. The lines that are cut off at either
end are lines that were sent unless a buffer is accepted whole after a part of another.
-/

namespace LightningLink.Baseline

open Support FloatArith Srv

/-- The connection at the server: not accepted yet, open, or closed. -/
inductive Phase
  | queued
  | accepted (fd : Int)
  | closed
  deriving DecidableEq

/-- Both ends of a connection, the characters under way, and the lines cut off so far. -/
structure Connection (F : Type) [FloatArith F]
    (Q : PriorityQueue DelayedLine DelayedLine.deliverAtMs) where
  server : BaselineServer F
  client : BaselineClient F Q
  phase : Phase
  down : Pipe Char
  up : Pipe Char
  clientLines : List (List Char)
  serverLines : List (List Char)

/-- A step of either end. `n` characters at most are read, and `sizes` says how many are
accepted of the buffers passed to `::send`, one after another. -/
inductive Connection.Action (F : Type) [FloatArith F]
  /-- `::accept` yields the connection. -/
  | accept (fd now : Int) (sizes : Nat → Nat)
  /-- The read loop is at the connection. -/
  | read (n : Nat) (eof : Bool) (clock : Nat → Int)
  /-- A tick, or an event of another connection. -/
  | server (ev : ServerEvent F) (sizes : Nat → Nat)
  | handshake (n : Nat)
  | drain (n : Nat) (draw : Nat → Double F) (clock : Nat → UInt64)
  /-- A step of the client that reads nothing. -/
  | client (ev : ClientEvent F) (sizes : Nat → Nat)

/-- The event names a descriptor. -/
def ServerEvent.On {F : Type} (fd : Int) : ServerEvent F → Prop
  | .accept fd' _ => fd' = fd
  | .read fd' _ _ _ => fd' = fd
  | .tick _ _ => False

instance {F : Type} (fd : Int) (ev : ServerEvent F) : Decidable (ev.On fd) := by
  cases ev <;> unfold ServerEvent.On <;> infer_instance

/-- The event reads from the socket. -/
def ClientEvent.Reads {F : Type} [FloatArith F] : ClientEvent F → Prop
  | .handshake _ => True
  | .drain _ _ _ => True
  | _ => False

instance {F : Type} [FloatArith F] (ev : ClientEvent F) : Decidable ev.Reads := by
  cases ev <;> unfold ClientEvent.Reads <;> infer_instance

/-- Buffers sent on a descriptor. -/
def sentOn (fd : Int) (sends : List Send) : List (List Char) :=
  (sends.filter fun send ↦ send.fd = fd).map Send.data

/-- Lines that the read loop cuts off at a client: none at one that is removed. -/
def BaselineServer.cutAt {F : Type} (fd : Int) (received : List Char) (eof : Bool)
    (s : BaselineServer F) : List (List Char) :=
  match s.clients.find? fd with
  | none => []
  | some c => if c.fd < 0 ∨ eof then [] else (splitLines '\n' (c.rxBuffer ++ received)).1

namespace Connection

variable {F : Type} [FloatArith F] {Q : PriorityQueue DelayedLine DelayedLine.deliverAtMs}

/-- A server that has just started, and a client that has just connected. -/
def init (latency : Int) (lossProb : Double F) : Connection F Q :=
  ⟨BaselineServer.init, BaselineClient.init latency lossProb, .queued, .empty, .empty, [], []⟩

/-- Phase of a connection that the server keeps as long as it has its client. -/
def phaseAt (fd : Int) (server : BaselineServer F) : Phase :=
  if (server.clients.find? fd).isSome then .accepted fd else .closed

variable [FloatText F]

/-- The client at the descriptor is the one of the connection: the server handles an event and
sends. -/
def serve (fd : Int) (ev : ServerEvent F) (sizes : Nat → Nat) (s : Connection F Q) :
    Connection F Q :=
  let r := s.server.handle ev
  { s with
    server := r.1
    phase := phaseAt fd r.1
    down := s.down.writeAll sizes (sentOn fd r.2) }

/-- State after an action; one that cannot occur does nothing. -/
def step (s : Connection F Q) : Action F → Connection F Q
  | .accept fd now sizes =>
    match s.phase with
    | .queued => if (s.server.clients.find? fd).isSome then s else s.serve fd (.accept fd now) sizes
    | _ => s
  | .read n eof clock =>
    match s.phase with
    | .accepted fd =>
      let received := s.up.front n
      { s with
        up := s.up.drop n
        serverLines := s.serverLines ++ s.server.cutAt fd received eof
        }.serve fd (.read fd received eof clock) fun _ ↦ 0
    | _ => s
  | .server ev sizes =>
    match s.phase with
    | .accepted fd => if ev.On fd then s else s.serve fd ev sizes
    | _ => { s with server := s.server.step ev }
  | .handshake n =>
    let received := s.down.front n
    { s with
      client := s.client.step (.handshake received)
      down := s.down.drop n
      clientLines := s.clientLines ++
        ((cutLine '\n' (s.client.rxBuf ++ received)).map Prod.fst).toList }
  | .drain n draw clock =>
    let received := s.down.front n
    { s with
      client := s.client.step (.drain received draw clock)
      down := s.down.drop n
      clientLines := s.clientLines ++ (splitLines '\n' (s.client.rxBuf ++ received)).1 }
  | .client ev sizes =>
    if ev.Reads then s
    else
      let r := s.client.handle ev
      { s with client := r.1, up := s.up.writeAll sizes r.2 }

/-- State after a finite run. -/
def run (s : Connection F Q) (as : List (Action F)) : Connection F Q := as.foldl step s

end Connection

/-! ### What the server sends and keeps -/

namespace BaselineServer

variable {F : Type} [FloatArith F] [FloatText F]

/-- Every buffer that the server sends is a line. -/
theorem isLine_of_mem_handle (s : BaselineServer F) (ev : ServerEvent F) :
    ∀ send ∈ (s.handle ev).2, IsLine send.data := by
  cases ev with
  | accept fd now =>
    change ∀ send ∈ (s.accept fd now).2, _
    unfold accept
    dsimp only
    split
    · exact fun _ h ↦ absurd h List.not_mem_nil
    · exact List.forall_mem_singleton.mpr (isLine_joinLine _)
  | read fd received eof clock => exact fun _ h ↦ absurd h List.not_mem_nil
  | tick players clients =>
    change ∀ send ∈ (s.tick players clients).2, _
    unfold tick
    dsimp only
    split
    · rw [List.forall_mem_map]
      exact fun _ _ ↦ isLine_formatSnapshotLine _ _
    · exact fun _ h ↦ absurd h List.not_mem_nil

omit [FloatArith F] [FloatText F] in
/-- Handling a line does not concern the buffer. -/
theorem rxBuffer_processLine (now : Int) (line : List Char)
    (s : TcpClient × WorldState F × UInt64) :
    (processLine now line s).1.rxBuffer = s.1.rxBuffer := by
  unfold processLine
  split
  · rfl
  · dsimp only
    split
    · rfl
    · split <;> rfl

omit [FloatArith F] [FloatText F] in
/-- The buffer keeps what follows the lines cut off. -/
theorem rxBuffer_processLines (clock : Nat → Int) (s : TcpClient × WorldState F × UInt64) :
    (processLines clock s).1.rxBuffer = (splitLines '\n' s.1.rxBuffer).2 := by
  unfold processLines
  dsimp only
  apply List.foldlRecOn (motive := fun s' : TcpClient × WorldState F × UInt64 ↦
    s'.1.rxBuffer = (splitLines '\n' s.1.rxBuffer).2)
  · rfl
  · intro s' hs' l _
    exact (rxBuffer_processLine (clock l.2) l.1 s').trans hs'

/-- Events that do not name a descriptor leave its client alone. -/
theorem find?_handle_of_not_on {fd : Int} {ev : ServerEvent F} (h : ¬ev.On fd)
    (s : BaselineServer F) : (s.handle ev).1.clients.find? fd = s.clients.find? fd := by
  cases ev with
  | accept fd' now =>
    change (s.accept fd' now).1.clients.find? fd = _
    unfold accept
    dsimp only
    split
    · rfl
    · exact (UMap.find?_assign ..).trans (if_neg (Ne.symm h))
  | read fd' received eof clock =>
    change (s.read fd' received eof clock).clients.find? fd = _
    have hne : fd ≠ fd' := Ne.symm h
    unfold read
    split
    · rfl
    · next c _ =>
      dsimp only
      by_cases hgone : c.fd < 0
      · rw [if_pos hgone, if_pos hgone]
        exact (UMap.find?_erase ..).trans (if_neg hne)
      · rw [if_neg hgone]
        split
        · exact (UMap.find?_erase ..).trans (if_neg hne)
        · exact (UMap.find?_assign ..).trans (if_neg hne)
  | tick players clients =>
    change (s.tick players clients).1.clients.find? fd = _
    unfold tick
    dsimp only
    split <;> rfl

omit [FloatArith F] [FloatText F] in
/-- The read loop at a client: it is removed and no line is cut off, or its buffer keeps what
follows the lines cut off. -/
theorem find?_read (fd : Int) (received : List Char) (eof : Bool) (clock : Nat → Int)
    (s : BaselineServer F) {c : TcpClient} (hc : s.clients.find? fd = some c) :
    let cut := splitLines '\n' (c.rxBuffer ++ received)
    ((s.read fd received eof clock).clients.find? fd = none ∧ s.cutAt fd received eof = []) ∨
      ∃ c', (s.read fd received eof clock).clients.find? fd = some c' ∧ c'.rxBuffer = cut.2 ∧
        s.cutAt fd received eof = cut.1 := by
  unfold read cutAt
  rw [hc]
  dsimp only
  by_cases hgone : c.fd < 0
  · left
    simp [hgone, UMap.find?_erase]
  · cases eof with
    | true =>
      left
      simp [hgone, UMap.find?_erase]
    | false =>
      right
      simp only [if_neg hgone, Bool.false_eq_true, if_false, or_false]
      exact ⟨_, (UMap.find?_assign ..).trans (if_pos rfl), rxBuffer_processLines clock _, trivial⟩

/-- A client that has just been accepted has an empty buffer. -/
theorem rxBuffer_of_find?_accept {s : BaselineServer F} {fd now : Int} {c : TcpClient}
    (h : s.clients.find? fd = none)
    (hc : (s.accept fd now).1.clients.find? fd = some c) : c.rxBuffer = [] := by
  unfold accept at hc
  dsimp only at hc
  split at hc
  · rw [h] at hc
    cases hc
  · rw [UMap.find?_assign, if_pos rfl, Option.some.injEq] at hc
    rw [← hc]

end BaselineServer

/-! ### What the client sends and keeps -/

namespace BaselineClient

variable {F : Type} [FloatArith F] [FloatText F]
  {Q : PriorityQueue DelayedLine DelayedLine.deliverAtMs}

/-- The lines that wait to be sent are lines. -/
def Ready (c : BaselineClient F Q) : Prop := ∀ l ∈ Q.elems c.cond.outQueue, IsLine l.data

/-- A step of the client that reads nothing keeps the buffer, sends lines, and leaves lines to
be sent. -/
theorem handle_spec {c : BaselineClient F Q} (h : c.Ready) (ev : ClientEvent F)
    (hev : ¬ev.Reads) : (c.handle ev).1.rxBuf = c.rxBuf ∧ (c.handle ev).1.Ready ∧
      ∀ data ∈ (c.handle ev).2, IsLine data := by
  cases ev with
  | handshake received => exact absurd trivial hev
  | drain received draw clock => exact absurd trivial hev
  | releaseIn clock nowMs order =>
    obtain ⟨hbuf, hcond⟩ := releaseIn_frame clock nowMs order c
    refine ⟨hbuf, ?_, fun _ hd ↦ absurd hd List.not_mem_nil⟩
    change ∀ l ∈ Q.elems (c.releaseIn clock nowMs order).cond.outQueue, _
    rw [hcond]
    exact h
  | input mx my draw enqueueMs sendMs =>
    refine ⟨rfl, ?_, fun _ hd ↦ absurd hd List.not_mem_nil⟩
    change ∀ l ∈ Q.elems (c.cond.enqueueOut (inputLine c.nextSeq mx my) draw enqueueMs).outQueue, _
    unfold Conditioner.enqueueOut
    split
    · exact h
    · dsimp only
      rw [Q.elems_push, Multiset.forall_mem_cons]
      exact ⟨isLine_inputLine c.nextSeq mx my, h⟩
  | releaseOut clock =>
    have helems := (Q.pops_popWhile (fun i l ↦ l.deliverAtMs ≤ clock i) c.cond.outQueue).elems_eq
    unfold Ready at h
    rw [helems] at h
    refine ⟨rfl, fun l hl ↦ h l (Multiset.mem_add.mpr (.inr hl)), ?_⟩
    intro data hdata
    obtain ⟨l, hl, rfl⟩ := List.mem_map.mp hdata
    exact h l (Multiset.mem_add.mpr (.inl hl))
  | bye => exact ⟨rfl, h, List.forall_mem_singleton.mpr isLine_byeLine⟩

omit [FloatText F] in
/-- The drain does not concern the lines that wait to be sent. -/
theorem outQueue_drain (received : List Char) (draw : Nat → Double F) (clock : Nat → UInt64)
    (c : BaselineClient F Q) :
    (c.drain received draw clock).cond.outQueue = c.cond.outQueue := by
  unfold drain
  dsimp only
  apply List.foldlRecOn
    (motive := fun cond : Conditioner (Double F) Q ↦ cond.outQueue = c.cond.outQueue)
  · rfl
  · intro cond hcond l _
    unfold Conditioner.enqueueIn
    split
    · exact hcond
    · split <;> exact hcond

end BaselineClient

/-! ### Framing -/

namespace Connection

variable {F : Type} [FloatArith F] {Q : PriorityQueue DelayedLine DelayedLine.deliverAtMs}

/-- The characters that the server keeps of the connection. A connection that is not accepted
has none, and those of a closed one are lost. -/
def Keeps (server : BaselineServer F) (rest : List Char) : Phase → Prop
  | .queued => rest = []
  | .accepted fd => ∃ c, server.clients.find? fd = some c ∧ c.rxBuffer = rest
  | .closed => True

omit [FloatArith F] in
/-- The server keeps the characters if the client, in case it is there, does. -/
theorem keeps_phaseAt {server : BaselineServer F} {rest : List Char} {fd : Int}
    (h : ∀ c, server.clients.find? fd = some c → c.rxBuffer = rest) :
    Keeps server rest (phaseAt fd server) := by
  unfold phaseAt
  cases hc : server.clients.find? fd with
  | none => exact trivial
  | some c => exact ⟨c, hc, h c hc⟩

/-- Both ends cut what they have read into lines, and what is sent and what waits are lines. -/
structure WellFramed (s : Connection F Q) : Prop where
  down : s.down.Framed '\n' s.clientLines s.client.rxBuf
  up : ∃ rest, s.up.Framed '\n' s.serverLines rest ∧ Keeps s.server rest s.phase
  sentDown : ∀ w ∈ s.down.writes, IsLine w.data
  sentUp : ∀ w ∈ s.up.writes, IsLine w.data
  ready : s.client.Ready

/-- Nothing has been sent. -/
theorem wellFramed_init (latency : Int) (lossProb : Double F) :
    (init latency lossProb : Connection F Q).WellFramed where
  down := .empty
  up := ⟨[], .empty, rfl⟩
  sentDown _ hw := absurd hw List.not_mem_nil
  sentUp _ hw := absurd hw List.not_mem_nil
  ready l hl := by
    change l ∈ Q.elems Q.empty at hl
    rw [Q.elems_empty] at hl
    exact absurd hl (Multiset.notMem_zero l)

variable [FloatText F]

/-- What the server sends are lines, so that only the characters it keeps matter. -/
theorem WellFramed.serve {s : Connection F Q} (h : s.WellFramed) (fd : Int) (ev : ServerEvent F)
    (sizes : Nat → Nat) {up : Pipe Char} {serverLines : List (List Char)} {rest : List Char}
    (hsentUp : ∀ w ∈ up.writes, IsLine w.data) (hup : up.Framed '\n' serverLines rest)
    (hkeeps : ∀ c, (s.server.handle ev).1.clients.find? fd = some c → c.rxBuffer = rest) :
    ({ s with up := up, serverLines := serverLines }.serve fd ev sizes).WellFramed where
  down := h.down.writeAll sizes _
  up := ⟨rest, hup, keeps_phaseAt hkeeps⟩
  sentDown := by
    apply Pipe.forall_writes_writeAll h.sentDown
    unfold sentOn
    rw [List.forall_mem_map]
    intro send hsend
    exact s.server.isLine_of_mem_handle ev send (List.mem_of_mem_filter hsend)
  sentUp := hsentUp
  ready := h.ready

/-- A connection that is accepted starts with an empty buffer. -/
theorem WellFramed.accept {s : Connection F Q} (h : s.WellFramed) (fd now : Int)
    (sizes : Nat → Nat) : (s.step (.accept fd now sizes)).WellFramed := by
  obtain ⟨rest, hup, hkeeps⟩ := h.up
  unfold Connection.step
  dsimp only
  split
  · next hphase =>
    split
    · exact h
    · next hfree =>
      rw [hphase] at hkeeps
      apply h.serve fd _ sizes h.sentUp hup
      intro c hc
      rw [hkeeps]
      exact BaselineServer.rxBuffer_of_find?_accept (Option.not_isSome_iff_eq_none.mp hfree) hc
  · exact h

/-- The read loop cuts off the lines of the connection, or closes it. -/
theorem WellFramed.read {s : Connection F Q} (h : s.WellFramed) (n : Nat) (eof : Bool)
    (clock : Nat → Int) : (s.step (.read n eof clock)).WellFramed := by
  obtain ⟨rest, hup, hkeeps⟩ := h.up
  unfold Connection.step
  dsimp only
  split
  · next fd hphase =>
    rw [hphase] at hkeeps
    obtain ⟨c, hc, rfl⟩ := hkeeps
    have hsentUp : ∀ w ∈ (s.up.drop n).writes, IsLine w.data := h.sentUp
    rcases s.server.find?_read fd (s.up.front n) eof clock hc with
      ⟨hgone, hcut⟩ | ⟨c', hc', hbuf, hcut⟩
    · apply h.serve fd _ _ hsentUp
      · rw [hcut, List.append_nil]
        exact hup.read n
      · intro c' hc'
        exact absurd (hgone.symm.trans hc') (by simp)
    · apply h.serve fd _ _ hsentUp
      · rw [hcut]
        exact (hup.read n).split
      · intro c'' hc''
        rw [← hbuf]
        exact congrArg TcpClient.rxBuffer (Option.some.inj (hc''.symm.trans hc'))
  · exact h

/-- Other events of the server do not concern the characters it keeps. -/
theorem WellFramed.server {s : Connection F Q} (h : s.WellFramed) (ev : ServerEvent F)
    (sizes : Nat → Nat) : (s.step (.server ev sizes)).WellFramed := by
  obtain ⟨rest, hup, hkeeps⟩ := h.up
  unfold Connection.step
  dsimp only
  split
  · next fd hphase =>
    split
    · exact h
    · next hon =>
      rw [hphase] at hkeeps
      obtain ⟨c, hc, rfl⟩ := hkeeps
      apply h.serve fd ev sizes h.sentUp hup
      intro c' hc'
      rw [BaselineServer.find?_handle_of_not_on hon, hc] at hc'
      exact congrArg TcpClient.rxBuffer (Option.some.inj hc').symm
  · next hphase =>
    refine ⟨h.down, ⟨rest, hup, ?_⟩, h.sentDown, h.sentUp, h.ready⟩
    cases hp : s.phase with
    | queued =>
      rw [hp] at hkeeps
      exact hkeeps
    | accepted fd => exact absurd hp (hphase fd)
    | closed => exact trivial

/-- The handshake cuts off at most one line. -/
theorem WellFramed.handshake {s : Connection F Q} (h : s.WellFramed) (n : Nat) :
    (s.step (.handshake n)).WellFramed := by
  obtain ⟨pid, w, height, hframe⟩ := s.client.handshake_frame (s.down.front n)
  refine ⟨?_, h.up, h.sentDown, h.sentUp, ?_⟩
  · have hread := h.down.read n
    change (s.down.drop n).Framed '\n' (s.clientLines ++ _)
      (s.client.handshake (s.down.front n)).rxBuf
    rw [hframe]
    cases hcut : cutLine '\n' (s.client.rxBuf ++ s.down.front n) with
    | none => simpa using hread
    | some cut => exact hread.cut hcut
  · change ∀ l ∈ Q.elems (s.client.handshake (s.down.front n)).cond.outQueue, _
    rw [hframe]
    exact h.ready

/-- The drain cuts off all lines. -/
theorem WellFramed.drain {s : Connection F Q} (h : s.WellFramed) (n : Nat)
    (draw : Nat → Double F) (clock : Nat → UInt64) :
    (s.step (.drain n draw clock)).WellFramed := by
  refine ⟨(h.down.read n).split, h.up, h.sentDown, h.sentUp, ?_⟩
  intro l hl
  apply h.ready l
  rwa [← s.client.outQueue_drain (s.down.front n) draw clock]

/-- Other steps of the client send lines. -/
theorem WellFramed.client {s : Connection F Q} (h : s.WellFramed) (ev : ClientEvent F)
    (sizes : Nat → Nat) : (s.step (.client ev sizes)).WellFramed := by
  obtain ⟨rest, hup, hkeeps⟩ := h.up
  unfold Connection.step
  dsimp only
  split
  · exact h
  · next hev =>
    obtain ⟨hbuf, hready, hsent⟩ := BaselineClient.handle_spec h.ready ev hev
    refine ⟨?_, ⟨rest, hup.writeAll sizes _, hkeeps⟩, h.sentDown,
      Pipe.forall_writes_writeAll h.sentUp sizes hsent, hready⟩
    change s.down.Framed '\n' s.clientLines (s.client.handle ev).1.rxBuf
    rw [hbuf]
    exact h.down

/-- The step lemma: every action keeps both ends well framed. -/
theorem WellFramed.step {s : Connection F Q} (h : s.WellFramed) (a : Action F) :
    (s.step a).WellFramed := by
  cases a with
  | accept fd now sizes => exact h.accept fd now sizes
  | read n eof clock => exact h.read n eof clock
  | server ev sizes => exact h.server ev sizes
  | handshake n => exact h.handshake n
  | drain n draw clock => exact h.drain n draw clock
  | client ev sizes => exact h.client ev sizes

/-- Both ends stay well framed throughout a run. -/
theorem wellFramed_run (latency : Int) (lossProb : Double F) (as : List (Action F)) :
    ((init latency lossProb : Connection F Q).run as).WellFramed :=
  List.foldlRecOn as step (wellFramed_init latency lossProb) fun _ h a _ ↦ h.step a

/-- In every run, as long as no buffer sent in a direction is accepted whole after a part of
another, the lines that the reader of this direction cuts off, with their newlines, are
buffers that were sent, in order and without repetition. -/
theorem lines_of_untorn (latency : Int) (lossProb : Double F) (as : List (Action F)) :
    let s := (init latency lossProb : Connection F Q).run as
    (Untorn s.down.writes →
      (s.clientLines.map (· ++ ['\n'])).Sublist (s.down.writes.map Write.data)) ∧
    (Untorn s.up.writes →
      (s.serverLines.map (· ++ ['\n'])).Sublist (s.up.writes.map Write.data)) := by
  intro s
  have h : s.WellFramed := wellFramed_run latency lossProb as
  obtain ⟨rest, hup, _⟩ := h.up
  exact ⟨h.down.sublist h.sentDown, hup.sublist h.sentUp⟩

/-- A run in which nothing is accepted after a short write. -/
theorem lines_of_untorn_two :
    letI := ratArith
    letI := ratText
    let tick : Nat → Action Rat := fun n ↦ .server (.tick byId byFd) fun _ ↦ n
    let as : List (Action Rat) := [.accept 5 0 fun _ ↦ 100, .handshake 9, .handshake 100,
      tick 0, tick 0, tick 100, tick 0, tick 0, tick 11,
      .drain 30 (fun _ ↦ (0 : Rat)) fun _ ↦ 0, .drain 30 (fun _ ↦ (0 : Rat)) fun _ ↦ 0]
    let s := (init 0 (0 : Rat) : Connection Rat (.newestFirst DelayedLine.deliverAtMs)).run as
    (s.clientLines.map (· ++ ['\n'])).Sublist (s.down.writes.map Write.data) ∧
      s.clientLines.length = 2 := by
  let _ := ratArith
  let _ := ratText
  exact ⟨(lines_of_untorn (F := Rat) (Q := .newestFirst DelayedLine.deliverAtMs) 0 (0 : Rat) _).1
    (by decide +kernel), by decide +kernel⟩

/-- The snapshot line of tick 3 is accepted up to the `64` of `640`, that of tick 6 is
accepted whole; the first input line is accepted up to its number, the second is accepted
whole. Each reader cuts off one line made of both, and the client puts the player at 64. -/
theorem lines_torn :
    letI := ratArith
    letI := ratText
    let tick : Nat → Action Rat := fun n ↦ .server (.tick byId byFd) fun _ ↦ n
    let as : List (Action Rat) := [.accept 5 0 fun _ ↦ 100, .handshake 100,
      tick 0, tick 0, tick 11, tick 0, tick 0, tick 100,
      .drain 100 (fun _ ↦ (0 : Rat)) fun _ ↦ 0,
      .client (.releaseIn (fun _ ↦ 0) (fun _ ↦ 0) fun _ ↦ bySeq) fun _ ↦ 0,
      .client (.input 1 0 (0 : Rat) 0 0) fun _ ↦ 0, .client (.releaseOut fun _ ↦ 0) fun _ ↦ 4,
      .client (.input 0 1 (0 : Rat) 0 0) fun _ ↦ 0, .client (.releaseOut fun _ ↦ 0) fun _ ↦ 100,
      .read 100 false fun _ ↦ 0]
    let s := (init 0 (0 : Rat) : Connection Rat (.newestFirst DelayedLine.deliverAtMs)).run as
    (∃ l ∈ s.clientLines, l ++ ['\n'] ∉ s.down.writes.map Write.data) ∧
      (∃ l ∈ s.serverLines, l ++ ['\n'] ∉ s.up.writes.map Write.data) ∧
      (s.client.latest.find? 1).map (fun p ↦ p.pos.x) = some 64 := by
  decide +kernel

end Connection
end LightningLink.Baseline
