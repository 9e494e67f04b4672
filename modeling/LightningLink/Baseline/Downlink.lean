import LightningLink.Baseline.RoundTrip
import LightningLink.Baseline.Uplink

/-!
# What the baseline client shows

Library `Baseline`. Between the world of the server and the map from which the client draws lie
the text format, the socket, the line splitter and the conditioner. As long as no line is torn,
every record in the map is, up to how the streams read their own output, one that the server had
for this player at an earlier point of the run, and the client takes the id for its own that the
server has given it.
-/

namespace LightningLink.Baseline

open Support FloatArith Srv
open Istringstream (Ends)

/-! ### Lines -/

/-- Id that a line assigns in the handshake; `client/tcp_baseline_client.cpp:129–132`. -/
def offeredId (line : List Char) : Option UInt16 :=
  let cmd := (Istringstream.ofString line).getWord
  if cmd.1 = some ['J', 'A'] then (cmd.2.getUnsigned 16).1.map UInt16.ofInt else none

section

variable {F : Type} [FloatArith F] [FloatText F]

/-- Characters of the line after `accept` before its newline. -/
def joinBody (F : Type) [FloatArith F] [FloatText F] (id : UInt16) : List Char :=
  ['J', 'A', ' '] ++ writeNat id.toNat ++ ' ' :: FloatText.write (arenaWidth F) ++
    ' ' :: FloatText.write (arenaHeight F)

/-- It offers its id, and is no snapshot. -/
theorem read_joinBody (id : UInt16) : offeredId (joinBody F id) = some id ∧
    (parseSnapshot (joinBody F id) : Option (UInt32 × List (PlayerState F))) = none := by
  let rest := ' ' :: (writeNat id.toNat ++ (' ' :: FloatText.write (arenaWidth F) ++
    ' ' :: FloatText.write (arenaHeight F)))
  have hbody : joinBody F id = ['J', 'A'] ++ rest := by simp [joinBody, rest]
  have hword : (Istringstream.ofString (joinBody F id)).getWord =
      (some ['J', 'A'], ⟨rest, false, false⟩) := by
    rw [hbody]
    exact Istringstream.getWord_append (List.cons_ne_nil _ _) (by simp [isSpace]) _
  have hid := Istringstream.getUnsigned_writeNat (w := 16) id.toNat_lt
    (.inr ⟨FloatText.write (arenaWidth F) ++ ' ' :: FloatText.write (arenaHeight F), rfl⟩)
  unfold offeredId parseSnapshot
  simp only [hword, if_true, rest]
  refine ⟨?_, if_neg (by decide)⟩
  rw [List.cons_append, hid, Option.map_some, uint16_ofInt_toNat]

omit [FloatArith F] in
/-- A snapshot line offers no id. -/
theorem offeredId_snapshotBody (tick : UInt32) (states : List (PlayerState F)) :
    offeredId (snapshotBody tick states) = none := by
  have hbody : snapshotBody tick states = ['S', 'S'] ++ ' ' :: (writeNat tick.toNat ++
      ' ' :: (writeNat states.length ++ states.flatMap formatPlayer)) := by simp [snapshotBody]
  unfold offeredId
  dsimp only
  rw [hbody, Istringstream.getWord_append (List.cons_ne_nil _ _) (by simp [isSpace])]
  exact if_neg fun h : some ['S', 'S'] = some ['J', 'A'] ↦ absurd h (by decide)

end

/-! ### The client -/

namespace BaselineClient

variable {F : Type} [FloatArith F] [FloatText F]
  {Q : PriorityQueue DelayedLine DelayedLine.deliverAtMs} {c : BaselineClient F Q}
  {lines : List (List Char)}

/-- What the client has comes from lines that it has cut off. -/
structure Heard (lines : List (List Char)) (c : BaselineClient F Q) : Prop where
  id : c.myPid = 0 ∨ ∃ l ∈ lines, offeredId l = some c.myPid
  queue : ∀ l ∈ Q.elems c.cond.inQueue, l.data ∈ lines
  latest : ∀ id p, c.latest.find? id = some p →
    p.id = id ∧ ∃ l ∈ lines, ∃ snap, parseSnapshot l = some snap ∧ p ∈ snap.2
  tick : c.latestTick = 0 ∨ ∃ l ∈ lines, ∃ snap : UInt32 × List (PlayerState F),
    parseSnapshot l = some snap ∧ c.latestTick = snap.1

/-- A client that has just connected. -/
theorem heard_init (latency : Int) (lossProb : Double F) :
    (init latency lossProb : BaselineClient F Q).Heard [] where
  id := Or.inl rfl
  queue l hl := by
    change l ∈ Q.elems Q.empty at hl
    rw [Q.elems_empty] at hl
    exact absurd hl (Multiset.notMem_zero l)
  latest id p hp := by cases hp
  tick := Or.inl rfl

/-- More lines are cut off. -/
theorem Heard.append (h : c.Heard lines) (more : List (List Char)) : c.Heard (lines ++ more) where
  id := h.id.imp_right fun ⟨l, hl, hid⟩ ↦ ⟨l, List.mem_append_left _ hl, hid⟩
  queue l hl := List.mem_append_left _ (h.queue l hl)
  latest id p hp := (h.latest id p hp).imp_right fun ⟨l, hl, hsnap⟩ ↦
    ⟨l, List.mem_append_left _ hl, hsnap⟩
  tick := h.tick.imp_right fun ⟨l, hl, hsnap⟩ ↦ ⟨l, List.mem_append_left _ hl, hsnap⟩

/-- A line that has been cut off is handled. -/
theorem Heard.handleLine (h : c.Heard lines) {line : List Char} (hline : line ∈ lines)
    (nowMs : UInt64) (order : UMap.Traversal UInt32 BaselinePendingInput) :
    (c.handleLine line nowMs order).Heard lines := by
  unfold BaselineClient.handleLine
  split
  · exact h
  · split
    · exact h
    · next tick players hparse =>
      obtain ⟨delay, log, pending, hframe⟩ := c.applySnapshot_frame tick players nowMs order
      rw [hframe]
      refine ⟨h.id, h.queue, fun id p hp ↦ ?_, Or.inr ⟨line, hline, _, hparse, rfl⟩⟩
      rw [UMap.find?_foldl_assign PlayerState.id] at hp
      rcases Option.or_eq_some_iff.mp hp with hlast | ⟨_, hold⟩
      · obtain ⟨hmem, hid⟩ := List.mem_filter.mp (List.mem_of_getLast? hlast)
        exact ⟨of_decide_eq_true hid, line, hline, _, hparse, hmem⟩
      · exact h.latest id p hold

/-- The matured lines are handled. -/
theorem Heard.releaseIn (h : c.Heard lines) (clock nowMs : Nat → UInt64)
    (order : Nat → UMap.Traversal UInt32 BaselinePendingInput) :
    (c.releaseIn clock nowMs order).Heard lines := by
  have helems := (Q.pops_popWhile (fun i l ↦ l.deliverAtMs ≤ clock i) c.cond.inQueue).elems_eq
  unfold BaselineClient.releaseIn
  dsimp only
  apply List.foldlRecOn (motive := fun c' : BaselineClient F Q ↦ c'.Heard lines)
  · refine ⟨h.id, fun l hl ↦ h.queue l ?_, h.latest, h.tick⟩
    rw [helems]
    exact Multiset.mem_add.mpr (.inr hl)
  · intro c' hc' l hl
    refine hc'.handleLine (h.queue l.1 ?_) (nowMs l.2) (order l.2)
    rw [helems]
    exact Multiset.mem_add.mpr (.inl (Multiset.mem_coe.mpr (List.fst_mem_of_mem_zipIdx hl)))

/-- The lines that are cut off of the buffer go to the conditioner. -/
theorem Heard.drain (h : c.Heard lines) (received : List Char) (draw : Nat → Double F)
    (clock : Nat → UInt64) : (c.drain received draw clock).Heard
      (lines ++ (splitLines '\n' (c.rxBuf ++ received)).1) := by
  have hmore := h.append (splitLines '\n' (c.rxBuf ++ received)).1
  refine ⟨hmore.id, ?_, hmore.latest, hmore.tick⟩
  unfold BaselineClient.drain
  dsimp only
  apply List.foldlRecOn (motive := fun cond : Conditioner (Double F) Q ↦
    ∀ l ∈ Q.elems cond.inQueue, l.data ∈ lines ++ (splitLines '\n' (c.rxBuf ++ received)).1)
  · exact hmore.queue
  · intro cond hcond l hl
    unfold Conditioner.enqueueIn
    split
    · exact hcond
    · split
      · exact hcond
      · dsimp only
        rw [Q.elems_push, Multiset.forall_mem_cons]
        exact ⟨List.mem_append_right _ (List.fst_mem_of_mem_zipIdx hl), hcond⟩

/-- A line of the handshake is handled. -/
theorem Heard.handshake (h : c.Heard lines) (received : List Char) :
    (c.handshake received).Heard
      (lines ++ ((cutLine '\n' (c.rxBuf ++ received)).map Prod.fst).toList) := by
  unfold BaselineClient.handshake
  dsimp only
  cases cutLine '\n' (c.rxBuf ++ received) with
  | none =>
    have hmore := h.append []
    exact ⟨hmore.id, hmore.queue, hmore.latest, hmore.tick⟩
  | some cut =>
    have hmore := h.append [cut.1]
    dsimp only [Option.map_some, Option.toList_some]
    split
    · next hcmd =>
      refine ⟨?_, hmore.queue, hmore.latest, hmore.tick⟩
      dsimp only
      cases hpid : ((Istringstream.ofString cut.1).getWord.2.getUnsigned 16).1 with
      | none => exact hmore.id
      | some pid =>
        refine Or.inr ⟨cut.1, List.mem_append_right _ (List.mem_singleton_self _), ?_⟩
        unfold offeredId
        dsimp only
        rw [if_pos hcmd, hpid]
        rfl
    · exact ⟨hmore.id, hmore.queue, hmore.latest, hmore.tick⟩

/-- The other parts of the main loop read nothing. -/
theorem Heard.handle (h : c.Heard lines) (ev : ClientEvent F) (hev : ¬ev.Reads) :
    (c.handle ev).1.Heard lines := by
  cases ev with
  | handshake received => exact absurd trivial hev
  | drain received draw clock => exact absurd trivial hev
  | releaseIn clock nowMs order => exact h.releaseIn clock nowMs order
  | input mx my draw enqueueMs sendMs =>
    refine ⟨h.id, ?_, h.latest, h.tick⟩
    change ∀ l ∈ Q.elems (c.cond.enqueueOut (inputLine c.nextSeq mx my) draw enqueueMs).inQueue, _
    unfold Conditioner.enqueueOut
    split
    · exact h.queue
    · exact h.queue
  | releaseOut clock => exact ⟨h.id, h.queue, h.latest, h.tick⟩
  | bye => exact h

end BaselineClient

/-! ### The server -/

namespace BaselineServer

variable {F : Type} [FloatArith F] [FloatText F] {s : BaselineServer F} {fd : Int}

/-- The server sends to a client the line of its id when it is accepted, and snapshots. -/
theorem mem_sentOn_handle (ev : ServerEvent F) {data : List Char}
    (h : data ∈ sentOn fd (s.handle ev).2) :
    (∃ now, ev = .accept fd now ∧ allocId s.clients ≠ 0 ∧
      data = joinLine F (allocId s.clients)) ∨
    ∃ order, data = formatSnapshotLine order (s.step ev).world := by
  obtain ⟨send, hsend, rfl⟩ := List.mem_map.mp h
  obtain ⟨hmem, hfd⟩ := List.mem_filter.mp hsend
  cases ev with
  | accept fd' now =>
    left
    change send ∈ (s.accept fd' now).2 at hmem
    unfold accept at hmem
    dsimp only at hmem
    split at hmem
    · cases hmem
    · next hid =>
      obtain rfl := List.mem_singleton.mp hmem
      obtain rfl : fd' = fd := of_decide_eq_true hfd
      exact ⟨now, rfl, hid, rfl⟩
  | read fd' received eof clock => cases hmem
  | tick players clients =>
    right
    change send ∈ (s.tick players clients).2 at hmem
    change ∃ order, _ = formatSnapshotLine order (s.tick players clients).1.world
    revert hmem
    unfold tick
    dsimp only
    split
    · intro hmem
      obtain ⟨fd', _, rfl⟩ := List.mem_map.mp hmem
      exact ⟨players, rfl⟩
    · exact fun hmem ↦ absurd hmem List.not_mem_nil

/-- A client keeps its id as long as it is there. -/
theorem playerId_step {c c' : TcpClient} (hc : s.clients.find? fd = some c) {ev : ServerEvent F}
    (hev : ∀ now, ev ≠ .accept fd now) (hc' : (s.step ev).clients.find? fd = some c') :
    c'.playerId = c.playerId := by
  by_cases hon : ev.On fd
  · cases ev with
    | accept fd' now => exact absurd (congrArg (ServerEvent.accept · now) hon) (hev now)
    | read fd' received eof clock =>
      obtain rfl : fd' = fd := hon
      change (s.read fd' received eof clock).clients.find? fd' = some c' at hc'
      by_cases hgone : c.fd < 0 ∨ eof = true
      · rw [read_of_gone hc hgone] at hc'
        exact absurd ((UMap.find?_erase ..).symm.trans hc') (by simp)
      · rw [read_of_stays hc hgone] at hc'
        dsimp only at hc'
        rw [UMap.find?_assign, if_pos rfl] at hc'
        rw [← Option.some.inj hc']
        exact (processLines_spec clock _).1
    | tick players clients => exact hon.elim
  · rw [show (s.step ev).clients.find? fd = _ from find?_handle_of_not_on hon s, hc] at hc'
    rw [Option.some.inj hc']

end BaselineServer

/-! ### The connection -/

namespace Connection

variable {F : Type} [FloatArith F] [FloatText F]
  {Q : PriorityQueue DelayedLine DelayedLine.deliverAtMs}

/-- What the server has sent on the connection: the line of one id, which its client there has,
and snapshots of some worlds. -/
structure Speaks (s : Connection F Q) (worlds : WorldState F → Prop) (id : UInt16) : Prop where
  said : ∀ data ∈ s.down.writes.map Write.data, data = joinLine F id ∨
    ∃ order w, worlds w ∧ data = formatSnapshotLine order w
  queued : s.phase = .queued → s.down.writes = []
  accepted : ∀ fd, s.phase = .accepted fd →
    ∃ c, s.server.clients.find? fd = some c ∧ c.playerId = id

variable {s : Connection F Q} {worlds : WorldState F → Prop} {id : UInt16}

/-- Steps that neither send nor change the server. -/
theorem Speaks.change (h : s.Speaks worlds id) {s' : Connection F Q}
    (hserver : s'.server = s.server) (hphase : s'.phase = s.phase)
    (hdown : s'.down.writes = s.down.writes) : s'.Speaks worlds id where
  said := hdown ▸ h.said
  queued := by
    rw [hphase, hdown]
    exact h.queued
  accepted := by
    rw [hphase, hserver]
    exact h.accepted

/-- The server handles an event for the client at a descriptor: it accepts it, which gives it an
id, or has it with its id. -/
theorem Speaks.serve (up : Pipe Char) (lines : List (List Char))
    (h : ∀ data ∈ s.down.writes.map Write.data, data = joinLine F id ∨
      ∃ order w, worlds w ∧ data = formatSnapshotLine order w) (fd : Int) (ev : ServerEvent F)
    (sizes : Nat → Nat) (hworld : worlds (s.server.step ev).world)
    (hjoin : ∀ now, ev = .accept fd now → allocId s.server.clients ≠ 0 →
      allocId s.server.clients = id)
    (hid : ∀ c, (s.server.step ev).clients.find? fd = some c → c.playerId = id) :
    ({ s with up := up, serverLines := lines }.serve fd ev sizes).Speaks worlds id where
  said := by
    change ∀ data ∈ (s.down.writeAll sizes (sentOn fd (s.server.handle ev).2)).writes.map
      Write.data, _
    rw [Pipe.map_data_writeAll, List.forall_mem_append]
    refine ⟨h, fun data hdata ↦ ?_⟩
    rcases BaselineServer.mem_sentOn_handle ev hdata with ⟨now, hev, hne, rfl⟩ | ⟨order, rfl⟩
    · rw [hjoin now hev hne]
      exact Or.inl rfl
    · exact Or.inr ⟨order, _, hworld, rfl⟩
  queued := phaseAt_cases (P := fun phase ↦ phase = .queued → _) (fun _ hphase ↦ by cases hphase)
    fun _ _ hphase ↦ by cases hphase
  accepted := phaseAt_cases (P := fun phase ↦ ∀ fd', phase = .accepted fd' →
      ∃ c, (s.server.step ev).clients.find? fd' = some c ∧ c.playerId = id)
    (fun _ _ hphase ↦ by cases hphase) fun c hc fd' hphase ↦ by
      obtain rfl := Phase.accepted.inj hphase
      exact ⟨c, hc, hid c hc⟩

/-- Every action keeps it, perhaps with the id that the server gives the client then. -/
theorem Speaks.step (h : s.Speaks worlds id) (a : Action F)
    (hworld : worlds (s.step a).server.world) : ∃ id', (s.step a).Speaks worlds id' := by
  cases a with
  | accept fd now sizes =>
    revert hworld
    unfold Connection.step
    dsimp only
    split
    · next hphase =>
      split
      · exact fun _ ↦ ⟨id, h⟩
      · next hnone =>
        intro hworld
        refine ⟨allocId s.server.clients, Speaks.serve s.up s.serverLines ?_ fd (.accept fd now)
          sizes hworld (fun _ _ _ ↦ rfl) fun c hc ↦ ?_⟩
        · rw [h.queued hphase]
          exact fun _ hdata ↦ absurd hdata List.not_mem_nil
        · change (s.server.accept fd now).1.clients.find? fd = some c at hc
          by_cases hid : allocId s.server.clients = 0
          · unfold BaselineServer.accept at hc
            rw [if_pos hid] at hc
            exact absurd (congrArg Option.isSome hc) hnone
          · rw [BaselineServer.accept_of_ne hid] at hc
            dsimp only at hc
            rw [UMap.find?_assign, if_pos rfl] at hc
            rw [← Option.some.inj hc]
    · exact fun _ ↦ ⟨id, h⟩
  | read n eof clock =>
    revert hworld
    unfold Connection.step
    dsimp only
    split
    · next fd hphase =>
      intro hworld
      obtain ⟨c, hc, hid⟩ := h.accepted fd hphase
      refine ⟨id, Speaks.serve _ _ h.said fd (.read fd (s.up.front n) eof clock) _ hworld
        (fun _ hev ↦ by cases hev) fun c' hc' ↦ ?_⟩
      exact (BaselineServer.playerId_step hc (fun _ hev ↦ by cases hev) hc').trans hid
    · exact fun _ ↦ ⟨id, h⟩
  | server ev sizes =>
    revert hworld
    unfold Connection.step
    dsimp only
    split
    · next fd hphase =>
      split
      · exact fun _ ↦ ⟨id, h⟩
      · next hon =>
        intro hworld
        have hev (now : Int) : ev ≠ .accept fd now := fun hev ↦ hon (by rw [hev]; rfl)
        obtain ⟨c, hc, hid⟩ := h.accepted fd hphase
        refine ⟨id, Speaks.serve s.up s.serverLines h.said fd ev sizes hworld
          (fun now heq ↦ absurd heq (hev now)) fun c' hc' ↦ ?_⟩
        exact (BaselineServer.playerId_step hc hev hc').trans hid
    · next hphase =>
      exact fun _ ↦ ⟨id, h.said, h.queued, fun fd hfd ↦ absurd hfd (hphase fd)⟩
  | handshake n => exact ⟨id, h.change rfl rfl rfl⟩
  | drain n draw clock => exact ⟨id, h.change rfl rfl rfl⟩
  | client ev sizes =>
    by_cases hev : ev.Reads
    · rw [show s.step (.client ev sizes) = s from if_pos hev]
      exact ⟨id, h⟩
    · rw [s.step_client hev]
      exact ⟨id, h.change rfl rfl rfl⟩

/-- Every action keeps what the client has heard. -/
theorem heard_step (h : s.client.Heard s.clientLines) (a : Action F) :
    (s.step a).client.Heard (s.step a).clientLines := by
  cases a with
  | accept fd now sizes =>
    unfold Connection.step
    dsimp only
    split
    · split <;> exact h
    · exact h
  | read n eof clock =>
    unfold Connection.step
    dsimp only
    split <;> exact h
  | server ev sizes =>
    unfold Connection.step
    dsimp only
    split
    · split <;> exact h
    · exact h
  | handshake n => exact h.handshake (s.down.front n)
  | drain n draw clock => exact h.drain (s.down.front n) draw clock
  | client ev sizes =>
    by_cases hev : ev.Reads
    · rw [show s.step (.client ev sizes) = s from if_pos hev]
      exact h
    · rw [s.step_client hev]
      exact h.handle ev hev

/-- Worlds that the server has had in a run. -/
def Past (start : Connection F Q) (as : List (Action F)) (w : WorldState F) : Prop :=
  ∃ past, past <+: as ∧ (start.run past).server.world = w

/-- What both ends have said and heard after a run. -/
theorem speaks_run (latency : Int) (lossProb : Double F) (as : List (Action F)) :
    let start : Connection F Q := init latency lossProb
    (start.run as).client.Heard (start.run as).clientLines ∧
      ∃ id, (start.run as).Speaks (start.Past as) id := by
  intro start
  induction as using List.reverseRecOn with
  | nil =>
    exact ⟨BaselineClient.heard_init latency lossProb, 0,
      ⟨fun _ hdata ↦ absurd hdata List.not_mem_nil, fun _ ↦ rfl, fun _ hphase ↦ by cases hphase⟩⟩
  | append_singleton as a ih =>
    obtain ⟨hheard, id, hspeaks⟩ := ih
    have hmono : (start.run as).Speaks (start.Past (as ++ [a])) id := by
      refine ⟨fun data hdata ↦ (hspeaks.said data hdata).imp_right ?_, hspeaks.queued,
        hspeaks.accepted⟩
      rintro ⟨order, w, ⟨past, hpast, hw⟩, hline⟩
      exact ⟨order, w, ⟨past, hpast.trans (List.prefix_append as [a]), hw⟩, hline⟩
    have hrun : start.run (as ++ [a]) = (start.run as).step a := List.foldl_append
    rw [hrun]
    exact ⟨heard_step hheard a, hmono.step a ⟨as ++ [a], List.prefix_rfl, by rw [hrun]⟩⟩

/-- The client shows the past: every record in its map is one that the server had for the player
at an earlier point of the run, as the streams read it back, so is the tick of its last snapshot,
and its id is the one that the server has given it. -/
structure Truthful (rd : F → F) (start : Connection F Q) (as : List (Action F)) : Prop where
  latest : ∀ id p, (start.run as).client.latest.find? id = some p →
    ∃ w q, start.Past as w ∧ w.get id = some q ∧ p = rounded rd q.state
  tick : (start.run as).client.latestTick = 0 ∨
    ∃ w, start.Past as w ∧ (start.run as).client.latestTick = w.tick
  id : ∀ fd c, (start.run as).phase = .accepted fd →
    (start.run as).server.clients.find? fd = some c →
      (start.run as).client.myPid = 0 ∨ (start.run as).client.myPid = c.playerId

/-- In every run in which accepted descriptors are new, coordinates are finite and no line of the
server is torn, the client shows the past. -/
theorem truthful_run {finite : F → Prop} {rd : F → F} (hrd : ReadsBack finite rd) (latency : Int)
    (lossProb : Double F) (as : List (Action F))
    (hfresh : EveryStep (fun past a ↦ ((init latency lossProb : Connection F Q).run past).Fresh a)
      as)
    (hfinite : ∀ w, (init latency lossProb : Connection F Q).Past as w →
      ∀ id q, w.get id = some q → FiniteState finite q.state)
    (huntorn : Untorn ((init latency lossProb : Connection F Q).run as).down.writes) :
    Truthful rd (init latency lossProb : Connection F Q) as := by
  let start : Connection F Q := init latency lossProb
  obtain ⟨hheard, id, hspeaks⟩ := speaks_run (Q := Q) latency lossProb as
  have hframed : (start.run as).WellFramed := wellFramed_run latency lossProb as
  have hsub := hframed.down.sublist hframed.sentDown huntorn
  -- A line that the client has cut off offers the id, or is a snapshot of an earlier world.
  have hline {l : List Char} (hl : l ∈ (start.run as).clientLines) :
      (offeredId l = some id ∧ (parseSnapshot l : Option (UInt32 × List (PlayerState F))) = none) ∨
      offeredId l = none ∧ ∃ order w, start.Past as w ∧
        parseSnapshot l = some (w.tick, (w.collectPlayerStates order).map (rounded rd)) := by
    rcases hspeaks.said _ (hsub.subset (List.mem_map_of_mem hl)) with hdata | ⟨order, w, hw, hdata⟩
    · obtain rfl : l = joinBody F id := List.append_cancel_right hdata
      exact Or.inl (read_joinBody id)
    · obtain rfl : l = snapshotBody w.tick (w.collectPlayerStates order) :=
        List.append_cancel_right hdata
      refine Or.inr ⟨offeredId_snapshotBody _ _, order, w, hw,
        (parseSnapshot_snapshotBody hrd w.tick (fun p hp ↦ ?_)
          (length_collectPlayerStates order w)).1⟩
      obtain ⟨e, he, rfl⟩ := List.mem_map.mp hp
      exact hfinite w hw e.1 e.2 (((order.enumerates w.players).2 e.1 e.2).mp he)
  refine ⟨fun pid p hp ↦ ?_, ?_, fun fd c hphase hc ↦ ?_⟩
  · obtain ⟨hid, l, hl, snap, hsnap, hmem⟩ := hheard.latest pid p hp
    rcases hline hl with ⟨_, hnone⟩ | ⟨_, order, w, hw, hparse⟩
    · rw [hnone] at hsnap
      cases hsnap
    · obtain rfl := Option.some.inj (hparse.symm.trans hsnap)
      obtain ⟨ps, hps, rfl⟩ := List.mem_map.mp hmem
      obtain ⟨e, he, rfl⟩ := List.mem_map.mp hps
      have hget : w.get e.1 = some e.2 := ((order.enumerates w.players).2 e.1 e.2).mp he
      obtain ⟨past, hpast, rfl⟩ := hw
      have hkey := (steers_run_of_fresh (Q := Q) latency lossProb past
        (hfresh.past hpast)).occupied.key e.1 e.2 hget
      obtain rfl : e.1 = pid := hkey.symm.trans hid
      exact ⟨_, e.2, ⟨past, hpast, rfl⟩, hget, rfl⟩
  · refine hheard.tick.imp_right ?_
    rintro ⟨l, hl, snap, hsnap, htick⟩
    rcases hline hl with ⟨_, hnone⟩ | ⟨_, order, w, hw, hparse⟩
    · rw [hnone] at hsnap
      cases hsnap
    · obtain rfl := Option.some.inj (hparse.symm.trans hsnap)
      exact ⟨w, hw, htick⟩
  · refine hheard.id.imp_right ?_
    rintro ⟨l, hl, hoffer⟩
    obtain ⟨c', hc', hid⟩ := hspeaks.accepted fd hphase
    rcases hline hl with ⟨hsome, _⟩ | ⟨hnone, _⟩
    · rw [Option.some.inj (hc.symm.trans hc'), hid]
      exact Option.some.inj (hoffer.symm.trans hsome)
    · rw [hnone] at hoffer
      cases hoffer

/-- The client is accepted and shows the snapshot of tick 3. -/
theorem truthful_run_three :
    letI := ratArith
    letI := ratText
    let tick : Nat → Action Rat := fun n ↦ .server (.tick byId byFd) fun _ ↦ n
    let as := [.accept 5 0 fun _ ↦ 100, .handshake 100, tick 0, tick 0, tick 100,
      .drain 100 (fun _ ↦ (0 : Rat)) fun _ ↦ 0,
      .client (.releaseIn (fun _ ↦ 0) (fun _ ↦ 0) fun _ ↦ bySeq) fun _ ↦ 0]
    let start : Connection Rat (.newestFirst DelayedLine.deliverAtMs) := init 0 (0 : Rat)
    (start.run as).client.latestTick = 3 ∧ (start.run as).client.myPid = 1 ∧
      Truthful (fun x ↦ Rat.ofInt x.floor) start as := by
  intro tick as
  let _ := ratArith
  let _ := ratText
  have htruthful := fun hfresh ↦ @truthful_run Rat ratArith ratText
    (.newestFirst DelayedLine.deliverAtMs) (fun _ ↦ True) _ ratText_readsBack 0 (0 : Rat) as hfresh
    fun _ _ _ _ _ ↦ ⟨trivial, trivial, trivial, trivial⟩
  refine ⟨by decide +kernel, by decide +kernel,
    htruthful (.cons ⟨by decide, rfl⟩ fun past a hp ↦ ?_) (by decide +kernel)⟩
  have ha := hp.subset (List.mem_append_right past (List.mem_singleton_self a))
  simp only [List.mem_cons, List.not_mem_nil, or_false] at ha
  rcases ha with rfl | rfl | rfl | rfl | rfl | rfl <;> exact trivial

end Connection
end LightningLink.Baseline
