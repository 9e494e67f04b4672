import LightningLink.Baseline.Exact
import LightningLink.Baseline.Occupancy
import LightningLink.Server.Obedience

/-!
# Who steers a player of the baseline server

Library `Baseline`. Between an input of the client and the record of its player lie the
conditioner, the socket and the line splitter, which lose, delay and reorder inputs and cut lines
anywhere. As long as no line is torn, the server executes inputs of the client only, none of them
more often than it was sent, and the record obeys the newest one, whatever the other connections
do.
-/

namespace LightningLink.Baseline

open Support FloatArith Srv

/-! ### Calls -/

/-- Call of `apply_input` that a buffer of one line asks for. -/
def asked (data : List Char) : Option (UInt32 × Int8 × Int8) := inputCall data.dropLast

/-- An input line asks for its input. -/
theorem asked_inputLine (seq : UInt32) (mx my : Int8) :
    asked (inputLine seq mx my) = some (seq, mx, my) := by
  have hbody : (inputLine seq mx my).dropLast = inputBody seq mx my := List.dropLast_concat
  obtain ⟨hcmd, hfields⟩ := read_inputBody seq mx my
  rw [asked, hbody, inputCall]
  simp only [hcmd, if_true, hfields, Int8.ofInt_toInt]

/-- `BYE` asks for nothing. -/
theorem asked_byeLine : asked byeLine = none := by decide

section

variable {F : Type}

/-- Calls for a player do not concern the others. -/
theorem get_applyCalls_of_ne {id a : UInt16} (h : a ≠ id) (calls : List (UInt32 × Int8 × Int8))
    (w : WorldState F × UInt64) : (applyCalls id calls w).1.get a = w.1.get a := by
  induction calls generalizing w with
  | nil => rfl
  | cons call calls ih =>
    refine (ih _).trans ?_
    rw [WorldState.get_applyInput, if_neg h]

/-- The record of the player obeys them, too. -/
theorem obeys_applyCalls {id : UInt16} {past : List (UInt32 × Int8 × Int8)} {p : ServerPlayer F}
    (calls : List (UInt32 × Int8 × Int8)) {w : WorldState F × UInt64}
    (hp : w.1.get id = some p) (h : Obeys past p) :
    ∃ q, (applyCalls id calls w).1.get id = some q ∧ Obeys (past ++ calls) q := by
  induction calls generalizing w past p with
  | nil => exact ⟨p, hp, (List.append_nil past).symm ▸ h⟩
  | cons call calls ih =>
    rw [List.append_cons]
    refine ih (w := ((w.1.applyInput id call.1 call.2.1 call.2.2).2, w.2 + 1)) ?_ (h.input call)
    rw [WorldState.get_applyInput, if_pos rfl, hp]
    rfl

end

/-! ### The server -/

namespace BaselineServer

variable {F : Type} [FloatArith F] [FloatText F] {s : BaselineServer F} {fd : Int}
  {calls : List (UInt32 × Int8 × Int8)}

omit [FloatArith F] [FloatText F] in
/-- The server has a client at a descriptor, whose record obeys some calls. -/
def Serves (s : BaselineServer F) (fd : Int) (calls : List (UInt32 × Int8 × Int8)) : Prop :=
  ∃ c p, s.clients.find? fd = some c ∧ s.world.get c.playerId = some p ∧ Obeys calls p

/-- A client that has just been accepted. -/
theorem Occupied.serves_accept (h : s.Occupied) (hfd : s.clients.find? fd = none) (now : Int) :
    (s.accept fd now).1.clients.find? fd = none ∨ (s.accept fd now).1.Serves fd [] := by
  by_cases hid : allocId s.clients = 0
  · left
    unfold BaselineServer.accept
    rwa [if_pos hid]
  · right
    have hfree : taken s.clients (allocId s.clients) = false := by
      rcases allocId_cases s.clients with ⟨hzero, _⟩ | ⟨_, _, hfree⟩
      · exact absurd hzero hid
      · exact hfree
    rw [accept_of_ne hid]
    refine ⟨_, _, (UMap.find?_assign ..).trans (if_pos rfl), ?_, obeys_spawn (allocId s.clients)⟩
    exact (WorldState.get_addPlayer ..).trans (if_pos ⟨rfl, h.get_eq_none hfree⟩)

omit [FloatArith F] [FloatText F] in
/-- The read loop at the client: it leaves, or its lines are obeyed. -/
theorem Serves.read (h : s.Serves fd calls) (received : List Char) (eof : Bool)
    (clock : Nat → Int) :
    (s.read fd received eof clock).clients.find? fd = none ∨
      (s.read fd received eof clock).Serves fd
        (calls ++ (s.cutAt fd received eof).filterMap inputCall) := by
  obtain ⟨c, p, hc, hp, hobeys⟩ := h
  by_cases hgone : c.fd < 0 ∨ eof = true
  · left
    rw [read_of_gone hc hgone]
    exact (UMap.find?_erase ..).trans (if_pos rfl)
  · right
    obtain ⟨hid, _, _, hcalls⟩ := processLines_spec clock
      ({ c with rxBuffer := c.rxBuffer ++ received }, s.world, s.inputsReceived)
    obtain ⟨q, hq, hobeys'⟩ := obeys_applyCalls
      ((splitLines '\n' (c.rxBuffer ++ received)).1.filterMap inputCall)
      (w := (s.world, s.inputsReceived)) hp hobeys
    rw [read_of_stays hc hgone, cutAt, hc]
    dsimp only
    rw [if_neg hgone]
    refine ⟨_, q, (UMap.find?_assign ..).trans (if_pos rfl), ?_, hobeys'⟩
    rw [hid, hcalls]
    exact hq

/-- The other connections and the ticks leave the obeyed calls. -/
theorem Serves.step (h : s.Serves fd calls) (hs : s.Occupied) (ev : ServerEvent F)
    (hon : ¬ev.On fd) : (s.step ev).Serves fd calls := by
  obtain ⟨c, p, hc, hp, hobeys⟩ := h
  have hstays : (s.step ev).clients.find? fd = some c :=
    (find?_handle_of_not_on hon s).trans hc
  cases ev with
  | accept fd' now =>
    by_cases hid : allocId s.clients = 0
    · have hsame : (s.step (.accept fd' now)) = s := by
        change (s.accept fd' now).1 = s
        unfold BaselineServer.accept
        rw [if_pos hid]
      rw [hsame]
      exact ⟨c, p, hc, hp, hobeys⟩
    · refine ⟨c, p, hstays, ?_, hobeys⟩
      change (s.accept fd' now).1.world.get c.playerId = some p
      rw [accept_of_ne hid]
      refine (WorldState.get_addPlayer ..).trans ((if_neg fun hnone ↦ ?_).trans hp)
      rw [← hnone.1, hp] at hnone
      cases hnone.2
  | read fd' received eof clock =>
    change (s.read fd' received eof clock).Serves fd calls
    change (s.read fd' received eof clock).clients.find? fd = some c at hstays
    cases hc' : s.clients.find? fd' with
    | none =>
      unfold BaselineServer.read
      rw [hc']
      exact ⟨c, p, hc, hp, hobeys⟩
    | some c' =>
      have hne : c.playerId ≠ c'.playerId := fun heq ↦ hon (hs.distinct fd fd' c c' hc hc' heq).symm
      refine ⟨c, p, hstays, ?_, hobeys⟩
      by_cases hgone : c'.fd < 0 ∨ eof = true
      · rw [read_of_gone hc' hgone]
        exact (WorldState.get_removePlayer ..).trans ((if_neg hne).trans hp)
      · rw [read_of_stays hc' hgone]
        obtain ⟨_, _, _, hcalls⟩ := processLines_spec clock
          ({ c' with rxBuffer := c'.rxBuffer ++ received }, s.world, s.inputsReceived)
        dsimp only
        rw [hcalls]
        exact (get_applyCalls_of_ne hne _ _).trans hp
  | tick players clients =>
    refine ⟨c, p.move, hstays, ?_, hobeys.move⟩
    change (s.tick players clients).1.world.get c.playerId = some p.move
    have hworld : (s.tick players clients).1.world = s.world.stepTick := by
      unfold BaselineServer.tick
      dsimp only
      split <;> rfl
    rw [hworld, WorldState.get_stepTick, hp]
    rfl

end BaselineServer

/-! ### The connection -/

namespace Connection

variable {F : Type} [FloatArith F] {Q : PriorityQueue DelayedLine DelayedLine.deliverAtMs}

omit [FloatArith F] in
/-- What a client has at a descriptor decides about the phase. -/
theorem phaseAt_cases {server : BaselineServer F} {fd : Int} {P : Phase → Prop}
    (hgone : server.clients.find? fd = none → P .closed)
    (hthere : ∀ c, server.clients.find? fd = some c → P (.accepted fd)) :
    P (phaseAt fd server) := by
  unfold phaseAt
  cases hc : server.clients.find? fd with
  | none => exact hgone hc
  | some c => exact hthere c hc

/-- A descriptor that the server accepts, for the connection or another one, is new. -/
def Fresh (s : Connection F Q) : Action F → Prop
  | .accept fd now _ => s.server.Fresh (.accept fd now)
  | .server ev _ => s.server.Fresh ev
  | _ => True

/-- Input that the client makes with an action. -/
def issues (s : Connection F Q) : Action F → Option (UInt32 × Int8 × Int8)
  | .client (.input mx my _ _ _) _ => some (s.client.nextSeq, mx, my)
  | _ => none

variable [FloatText F]

/-- Inputs that the client makes in a run. -/
def issued (s : Connection F Q) : List (Action F) → List (UInt32 × Int8 × Int8)
  | [] => []
  | a :: as => (s.issues a).toList ++ issued (s.step a) as

/-- One more action. -/
theorem issued_concat (s : Connection F Q) (as : List (Action F)) (a : Action F) :
    s.issued (as ++ [a]) = s.issued as ++ ((s.run as).issues a).toList := by
  induction as generalizing s with
  | nil => exact List.append_nil _
  | cons a' as ih =>
    rw [List.cons_append, issued, ih, issued, List.append_assoc]
    rfl

omit [FloatArith F] [FloatText F] in
/-- Inputs that buffers ask for. -/
def askedIn (datas : List (List Char)) : Multiset (UInt32 × Int8 × Int8) := datas.filterMap asked

omit [FloatText F] in
/-- Inputs that the client has passed to `::send`, and those that wait in the conditioner. -/
def under (s : Connection F Q) : Multiset (UInt32 × Int8 × Int8) :=
  askedIn (s.up.writes.map Write.data) +
    (Q.elems s.client.cond.outQueue).filterMap fun l ↦ asked l.data

/-- A part of the main loop sends. -/
theorem step_client (s : Connection F Q) {ev : ClientEvent F} (hev : ¬ev.Reads)
    (sizes : Nat → Nat) : s.step (.client ev sizes) =
      { s with
        client := (s.client.handle ev).1
        up := s.up.writeAll sizes (s.client.handle ev).2 } :=
  if_neg hev

/-- The lines that the server has cut off are obeyed while the connection is open. -/
def Steered (server : BaselineServer F) (lines : List (List Char)) : Phase → Prop
  | .queued => lines = []
  | .accepted fd => server.Serves fd (lines.filterMap inputCall)
  | .closed => True

/-- The server is consistent, nothing is under way that the client has not made, and the record
of the client obeys what the server has read. -/
structure Steers (s : Connection F Q) (calls : List (UInt32 × Int8 × Int8)) : Prop where
  occupied : s.server.Occupied
  under : s.under ≤ (calls : Multiset (UInt32 × Int8 × Int8))
  record : Steered s.server s.serverLines s.phase

omit [FloatText F] in
/-- Nothing has been made. -/
theorem steers_init (latency : Int) (lossProb : Double F) :
    (init latency lossProb : Connection F Q).Steers [] where
  occupied := BaselineServer.occupied_init
  under := by
    change askedIn [] + (Q.elems Q.empty).filterMap _ ≤ _
    rw [Q.elems_empty]
    exact le_rfl
  record := rfl

/-- The server handles an event for the client at a descriptor. -/
theorem Steers.serve {s : Connection F Q} {calls : List (UInt32 × Int8 × Int8)} (h : s.Steers calls)
    (fd : Int) (ev : ServerEvent F) (sizes : Nat → Nat) (hfresh : s.server.Fresh ev)
    {lines : List (List Char)} {up : Pipe Char} (hup : up.writes = s.up.writes)
    (hrecord : (s.server.step ev).clients.find? fd = none ∨
      (s.server.step ev).Serves fd (lines.filterMap inputCall)) :
    ({ s with up := up, serverLines := lines }.serve fd ev sizes).Steers calls where
  occupied := h.occupied.step ev hfresh
  under := by
    refine le_trans (le_of_eq ?_) h.under
    change askedIn (up.writes.map Write.data) + _ = _
    rw [hup]
    rfl
  record := by
    refine phaseAt_cases (fun _ ↦ trivial) fun c hc ↦ ?_
    rcases hrecord with hgone | hserves
    · exact absurd (hgone.symm.trans hc) (by simp)
    · exact hserves

omit [FloatText F] in
/-- The client changes and sends. -/
theorem Steers.change {s s' : Connection F Q} {calls more : List (UInt32 × Int8 × Int8)}
    (h : s.Steers calls) (hserver : s'.server = s.server) (hlines : s'.serverLines = s.serverLines)
    (hphase : s'.phase = s.phase)
    (hunder : s'.under ≤ s.under + (more : Multiset (UInt32 × Int8 × Int8))) :
    s'.Steers (calls ++ more) where
  occupied := hserver ▸ h.occupied
  under := by
    rw [← Multiset.coe_add]
    exact hunder.trans (add_le_add h.under le_rfl)
  record := by
    rw [hserver, hlines, hphase]
    exact h.record

/-- A part of the main loop of the client adds its input to what is under way, if it makes one. -/
theorem under_client (s : Connection F Q) (ev : ClientEvent F) (sizes : Nat → Nat)
    (hev : ¬ev.Reads) : (s.step (.client ev sizes)).under ≤
      s.under + ((s.issues (.client ev sizes)).toList : Multiset (UInt32 × Int8 × Int8)) := by
  have hunder : (s.step (.client ev sizes)).under =
      askedIn (s.up.writes.map Write.data) + askedIn (s.client.handle ev).2 +
        (Q.elems (s.client.handle ev).1.cond.outQueue).filterMap fun l ↦ asked l.data := by
    rw [s.step_client hev, under, Pipe.map_data_writeAll, askedIn, List.filterMap_append,
      ← Multiset.coe_add]
    rfl
  rw [hunder]
  cases ev with
  | handshake received => exact absurd trivial hev
  | drain received draw clock => exact absurd trivial hev
  | releaseIn clock nowMs order =>
    obtain ⟨_, hcond⟩ := BaselineClient.releaseIn_frame clock nowMs order s.client
    change _ + 0 + (Q.elems (s.client.releaseIn clock nowMs order).cond.outQueue).filterMap _ ≤
      s.under + 0
    rw [hcond, add_zero, add_zero]
    exact le_rfl
  | input mx my draw enqueueMs sendMs =>
    change _ + 0 + (Q.elems (s.client.cond.enqueueOut (inputLine s.client.nextSeq mx my) draw
      enqueueMs).outQueue).filterMap _ ≤ _
    rw [add_zero]
    unfold Conditioner.enqueueOut
    split
    · exact Multiset.le_add_right _ _
    · dsimp only
      rw [Q.elems_push, Multiset.filterMap_cons_some (fun l : DelayedLine ↦ asked l.data)
        (.after _ (inputLine s.client.nextSeq mx my) enqueueMs) _
        (asked_inputLine s.client.nextSeq mx my), ← Multiset.singleton_add, add_left_comm, add_comm]
      exact le_rfl
  | releaseOut clock =>
    have helems := (Q.pops_popWhile (fun i l ↦ l.deliverAtMs ≤ clock i)
      s.client.cond.outQueue).elems_eq
    refine le_of_eq ?_
    change _ + askedIn ((s.client.cond.releaseOut clock).2.map DelayedLine.data) +
      (Q.elems (s.client.cond.releaseOut clock).1.outQueue).filterMap _ = s.under + 0
    have hsent : askedIn ((s.client.cond.releaseOut clock).2.map DelayedLine.data) =
        ((s.client.cond.releaseOut clock).2.filterMap fun l ↦ asked l.data : List _) := by
      rw [askedIn, List.filterMap_map]
      rfl
    rw [under, helems, Multiset.filterMap_add, Multiset.filterMap_coe, hsent, add_zero, add_assoc]
    rfl
  | bye =>
    have hbye : askedIn [byeLine] = 0 :=
      congrArg Multiset.ofList (List.filterMap_cons_none asked_byeLine)
    change _ + askedIn [byeLine] + _ ≤ s.under + 0
    rw [hbye, add_zero, add_zero]
    exact le_rfl

/-- Every action keeps the client in control of its player. -/
theorem Steers.step {s : Connection F Q} {calls : List (UInt32 × Int8 × Int8)}
    (h : s.Steers calls) (a : Action F) (hfresh : s.Fresh a) :
    (s.step a).Steers (calls ++ (s.issues a).toList) := by
  have hstay {s' : Connection F Q} (h' : s'.Steers calls) : s'.Steers (calls ++ []) :=
    (List.append_nil calls).symm ▸ h'
  have hrecord := h.record
  cases a with
  | accept fd now sizes =>
    refine hstay ?_
    unfold Connection.step
    dsimp only
    split
    · next hphase =>
      rw [hphase] at hrecord
      split
      · exact h
      · have hlines : s.serverLines = [] := hrecord
        exact h.serve fd (.accept fd now) sizes hfresh rfl
          (hlines ▸ h.occupied.serves_accept hfresh.2 now)
    · exact h
  | read n eof clock =>
    refine hstay ?_
    unfold Connection.step
    dsimp only
    split
    · next fd hphase =>
      rw [hphase] at hrecord
      refine h.serve fd (.read fd (s.up.front n) eof clock) _ trivial rfl ?_
      rw [List.filterMap_append]
      exact hrecord.read (s.up.front n) eof clock
    · exact h
  | server ev sizes =>
    refine hstay ?_
    unfold Connection.step
    dsimp only
    split
    · next fd hphase =>
      rw [hphase] at hrecord
      split
      · exact h
      · next hon => exact h.serve fd ev sizes hfresh rfl (.inr (hrecord.step h.occupied ev hon))
    · next hphase =>
      refine ⟨h.occupied.step ev hfresh, h.under, ?_⟩
      cases hp : s.phase with
      | queued =>
        rw [hp] at hrecord
        exact hrecord
      | accepted fd => exact absurd hp (hphase fd)
      | closed => exact trivial
  | handshake n =>
    obtain ⟨pid, w, height, hframe⟩ := s.client.handshake_frame (s.down.front n)
    refine h.change rfl rfl rfl (le_of_eq ?_)
    change _ + (Q.elems (s.client.handshake (s.down.front n)).cond.outQueue).filterMap _ =
      s.under + 0
    rw [hframe, add_zero]
    rfl
  | drain n draw clock =>
    refine h.change rfl rfl rfl (le_of_eq ?_)
    change _ + (Q.elems (s.client.drain (s.down.front n) draw clock).cond.outQueue).filterMap _ =
      s.under + 0
    rw [BaselineClient.outQueue_drain, add_zero]
    rfl
  | client ev sizes =>
    by_cases hev : ev.Reads
    · have hsame : s.step (.client ev sizes) = s := if_pos hev
      rw [hsame]
      exact h.change rfl rfl rfl (Multiset.le_add_right _ _)
    · have hunder := s.under_client ev sizes hev
      rw [s.step_client hev] at hunder ⊢
      exact h.change rfl rfl rfl hunder

/-- Every run keeps it. -/
theorem steers_run_of_fresh (latency : Int) (lossProb : Double F) (as : List (Action F))
    (hfresh : EveryStep (fun past a ↦ ((init latency lossProb : Connection F Q).run past).Fresh a)
      as) :
    ((init latency lossProb : Connection F Q).run as).Steers
      ((init latency lossProb : Connection F Q).issued as) := by
  induction as using List.reverseRecOn with
  | nil => exact steers_init latency lossProb
  | append_singleton as a ih =>
    rw [issued_concat, run, List.foldl_append]
    exact (ih hfresh.init).step a hfresh.last

/-- In every run in which accepted descriptors are new and no line of the client is torn, the
lines that the server has cut off ask for inputs that the client has made, for none of them more
often than it was made, and the record of a client that is connected obeys the newest one. -/
theorem obeys_run (latency : Int) (lossProb : Double F) (as : List (Action F))
    (hfresh : EveryStep (fun past a ↦ ((init latency lossProb : Connection F Q).run past).Fresh a)
      as) :
    let start : Connection F Q := init latency lossProb
    let calls := (start.run as).serverLines.filterMap inputCall
    Untorn (start.run as).up.writes →
      (calls : Multiset (UInt32 × Int8 × Int8)) ≤ (start.issued as : Multiset _) ∧
        ∀ fd, (start.run as).phase = .accepted fd → (start.run as).server.Serves fd calls := by
  intro start calls huntorn
  have hsteers := steers_run_of_fresh (Q := Q) latency lossProb as hfresh
  refine ⟨?_, fun fd hphase ↦ ?_⟩
  · have hframed : (start.run as).WellFramed := wellFramed_run latency lossProb as
    obtain ⟨rest, hup, _⟩ := hframed.up
    have hsub := (hup.sublist hframed.sentUp huntorn).filterMap asked
    have hasked (l : List Char) : (asked ∘ (· ++ ['\n'])) l = inputCall l := by
      rw [Function.comp_apply, asked, List.dropLast_concat]
    rw [List.filterMap_map, funext hasked] at hsub
    exact (Multiset.coe_le.mpr hsub.subperm).trans
      ((Multiset.le_add_right _ _).trans hsteers.under)
  · have hrecord := hsteers.record
    rw [show ((init latency lossProb : Connection F Q).run as).phase = _ from hphase] at hrecord
    exact hrecord

/-- Two inputs, of which the second is read by the server after a tick. -/
theorem obeys_run_two :
    letI := ratArith
    letI := ratText
    let input : Int8 → Int8 → Action Rat :=
      fun mx my ↦ .client (.input mx my (0 : Rat) 0 0) fun _ ↦ 0
    let sent : Action Rat := .client (.releaseOut fun _ ↦ 0) fun _ ↦ 100
    let read : Action Rat := .read 100 false fun _ ↦ 0
    let as := [.accept 5 0 fun _ ↦ 100, input 1 0, sent, read,
      .server (.tick byId byFd) fun _ ↦ 0, input 0 (-1), sent, read]
    let s := (init 0 (0 : Rat) : Connection Rat (.newestFirst DelayedLine.deliverAtMs)).run as
    s.serverLines.filterMap inputCall = [(1, 1, 0), (2, 0, -1)] ∧
      s.server.Serves 5 (s.serverLines.filterMap inputCall) := by
  intro input sent read as
  let _ := ratArith
  let _ := ratText
  have hobeys := fun hfresh ↦ @obeys_run Rat ratArith (.newestFirst DelayedLine.deliverAtMs)
    ratText 0 (0 : Rat) as hfresh
  refine ⟨by decide +kernel, (hobeys (.cons ⟨by decide, rfl⟩ fun past a hp ↦ ?_)
    (by decide +kernel)).2 5 (by decide +kernel)⟩
  have ha := hp.subset (List.mem_append_right past (List.mem_singleton_self a))
  simp only [List.mem_cons, List.not_mem_nil, or_false] at ha
  rcases ha with rfl | rfl | rfl | rfl | rfl | rfl | rfl <;> exact trivial

end Connection
end LightningLink.Baseline
