import LightningLink.Baseline.Loop
import LightningLink.Baseline.Occupancy

/-!
# Departures from the baseline server

Library `Baseline`. A client that has said `BYE` stays behind as a mark until the read loop of the
next iteration; then, or where its stream ends, its entry, its record and its descriptor go
together. Connections are accepted in between.
-/

namespace LightningLink.Baseline

open Support FloatArith Srv

namespace BaselineServer

variable {F : Type}

/-! ### Descriptors -/

/-- Descriptors that an event opens. -/
def opened : ServerEvent F → Multiset Int
  | .accept fd _ => {fd}
  | _ => 0

/-- Descriptors that an event passes to `::close`; `server/tcp_baseline.cpp:148,168`. -/
def closed (s : BaselineServer F) : ServerEvent F → Multiset Int
  | .accept fd _ => if allocId s.clients = 0 then {fd} else 0
  | .read fd _ eof _ =>
    match s.clients.find? fd with
    | none => 0
    | some c => if c.fd < 0 ∨ eof then {fd} else 0
  | .tick _ _ => 0

/-- Connections that are open on a descriptor. -/
def openOn (s : BaselineServer F) (fd : Int) : Nat :=
  if (s.clients.find? fd).isSome then 1 else 0

variable [FloatArith F] [FloatText F]

/-- Descriptors that a run opens. -/
def openedBy (s : BaselineServer F) (evs : List (ServerEvent F)) : Multiset Int :=
  observed step (fun _ ev ↦ opened ev) s evs

/-- Descriptors that a run closes. -/
def closedBy (s : BaselineServer F) (evs : List (ServerEvent F)) : Multiset Int :=
  observed step closed s evs

omit [FloatArith F] [FloatText F] in
/-- An event opens and closes nothing on a descriptor that it does not name. -/
theorem count_of_not_on {ev : ServerEvent F} {fd : Int} (hon : ¬ ev.On fd) (s : BaselineServer F) :
    (opened ev).count fd = 0 ∧ (s.closed ev).count fd = 0 := by
  have hother {fd' : Int} (hne : ¬ fd' = fd) : Multiset.count fd {fd'} = 0 := by
    rw [Multiset.count_singleton, if_neg (Ne.symm hne)]
  cases ev with
  | accept fd' now =>
    refine ⟨hother hon, ?_⟩
    rw [closed]
    split
    · exact hother hon
    · rfl
  | read fd' received eof clock =>
    refine ⟨rfl, ?_⟩
    rw [closed]
    cases s.clients.find? fd' with
    | none => rfl
    | some c =>
      dsimp only
      split
      · exact hother hon
      · rfl
  | tick players clients => exact ⟨rfl, rfl⟩

/-- An event opens and closes on a descriptor what it changes there. -/
theorem count_step {s : BaselineServer F} {ev : ServerEvent F} (hfresh : s.Fresh ev) (fd : Int) :
    (opened ev).count fd + s.openOn fd = (s.closed ev).count fd + (s.step ev).openOn fd := by
  by_cases hon : ev.On fd
  · cases ev with
    | accept fd' now =>
      obtain rfl : fd' = fd := hon
      have hclosed : s.openOn fd' = 0 := by
        rw [openOn, hfresh.2]
        rfl
      change _ = _ + (s.accept fd' now).1.openOn fd'
      rw [hclosed, opened, closed, Multiset.count_singleton_self]
      by_cases hzero : allocId s.clients = 0
      · rw [accept, if_pos hzero, if_pos hzero, Multiset.count_singleton_self, hclosed]
      · rw [accept_of_ne hzero, if_neg hzero, openOn, UMap.find?_assign, if_pos rfl]
        rfl
    | read fd' received eof clock =>
      obtain rfl : fd' = fd := hon
      change _ = _ + (s.read fd' received eof clock).openOn fd'
      cases hc : s.clients.find? fd' with
      | none =>
        unfold read
        simp [opened, closed, openOn, hc]
      | some c =>
        by_cases hgone : c.fd < 0 ∨ eof = true
        · rw [read_of_gone hc hgone]
          simp [opened, closed, openOn, hc, hgone, UMap.find?_erase]
        · rw [read_of_stays hc hgone]
          simp [opened, closed, openOn, hc, hgone, UMap.find?_assign]
    | tick players clients => exact absurd hon id
  · have hsame : (s.step ev).openOn fd = s.openOn fd := by
      rw [openOn, step, find?_handle_of_not_on hon, openOn]
    obtain ⟨hopened, hclosed⟩ := count_of_not_on hon s
    rw [hsame, hopened, hclosed]

/-- Over a run as many connections are opened on a descriptor as are closed on it or stay open. -/
theorem count_run (s : BaselineServer F) (evs : List (ServerEvent F))
    (hfresh : EveryStep (fun past ev ↦ (s.run past).Fresh ev) evs) (fd : Int) :
    (s.openedBy evs).count fd + s.openOn fd =
      (s.closedBy evs).count fd + (s.run evs).openOn fd := by
  induction evs using List.reverseRecOn with
  | nil => rfl
  | append_singleton evs ev ih =>
    have hlast := count_step hfresh.last fd
    have hpast := ih hfresh.init
    unfold openedBy closedBy at hpast ⊢
    have hrun : s.run (evs ++ [ev]) = (s.run evs).step ev := List.foldl_concat ..
    rw [observed_concat, observed_concat, Multiset.count_add, Multiset.count_add, hrun]
    change _ = _ + ((s.run evs).closed ev).count fd + _
    omega

/-! ### Closing -/

/-- A connection is refused: all ids are in use, and nothing changes. -/
structure Refused (s s' : BaselineServer F) : Prop where
  full : ∀ id : UInt16, 1 ≤ id.toNat → id.toNat ≤ maxPlayers →
    ∃ fd c, s.clients.find? fd = some c ∧ c.playerId = id
  same : s' = s

/-- A client goes with its record, and no other entry or record changes. -/
structure Erased (s s' : BaselineServer F) (fd : Int) (c : TcpClient) : Prop where
  here : s.clients.find? fd = some c
  entries : ∀ fd', s'.clients.find? fd' = if fd' = fd then none else s.clients.find? fd'
  records : ∀ id, s'.world.get id = if id = c.playerId then none else s.world.get id

/-- What is closed is refused or erased. -/
theorem refused_or_erased {s : BaselineServer F} {ev : ServerEvent F} {fd : Int}
    (h : fd ∈ s.closed ev) :
    (∃ now, ev = .accept fd now ∧ s.Refused (s.step ev)) ∨ ∃ c, s.Erased (s.step ev) fd c := by
  cases ev with
  | accept fd' now =>
    rw [closed] at h
    split at h
    · next hzero =>
      obtain rfl := Multiset.mem_singleton.mp h
      refine Or.inl ⟨now, rfl, ?_, ?_⟩
      · rcases allocId_cases s.clients with ⟨_, hall⟩ | ⟨hlo, _, _⟩
        · intro id hpos hle
          exact (taken_iff _ _).mp (hall id hpos hle)
        · rw [hzero] at hlo
          exact absurd hlo (by decide)
      · change (s.accept fd now).1 = s
        unfold accept
        rw [if_pos hzero]
    · exact absurd h (Multiset.notMem_zero _)
  | read fd' received eof clock =>
    rw [closed] at h
    cases hc : s.clients.find? fd' with
    | none =>
      rw [hc] at h
      exact absurd h (Multiset.notMem_zero _)
    | some c =>
      rw [hc] at h
      dsimp only at h
      split at h
      · next hgone =>
        obtain rfl := Multiset.mem_singleton.mp h
        refine Or.inr ⟨c, hc, fun fd' ↦ ?_, fun id ↦ ?_⟩
        · change (s.read fd received eof clock).clients.find? fd' = _
          rw [read_of_gone hc hgone, UMap.find?_erase]
        · change (s.read fd received eof clock).world.get id = _
          rw [read_of_gone hc hgone, WorldState.get_removePlayer]
      · exact absurd h (Multiset.notMem_zero _)
  | tick players clients => exact absurd h (Multiset.notMem_zero _)

/-! ### Iterations -/

/-- Events that do not name a descriptor leave its client alone. -/
theorem find?_run_of_not_on {fd : Int} {evs : List (ServerEvent F)}
    (h : ∀ ev ∈ evs, ¬ ev.On fd) (s : BaselineServer F) :
    (s.run evs).clients.find? fd = s.clients.find? fd := by
  induction evs generalizing s with
  | nil => rfl
  | cons ev evs ih =>
    obtain ⟨hev, hevs⟩ := List.forall_mem_cons.mp h
    exact (ih hevs (s.step ev)).trans (find?_handle_of_not_on hev s)

/-- Reading at other descriptors leaves a client alone. -/
theorem find?_run_reads_of_notMem (a : ServerTurn F) (s : BaselineServer F) {fd : Int}
    {es : List (Int × TcpClient)} (h : fd ∉ es.map Prod.fst) :
    (s.run (es.map fun e ↦ .read e.1 (a.received e.1) (a.eof e.1) (a.clock e.1))).clients.find? fd =
      s.clients.find? fd := by
  apply find?_run_of_not_on
  rintro ev hev hon
  obtain ⟨e, he, rfl⟩ := List.mem_map.mp hev
  exact h (List.mem_map.mpr ⟨e, he, hon⟩)

/-- The read loop visits every client once. -/
theorem find?_run_reads (a : ServerTurn F) (s : BaselineServer F) {fd : Int} {c : TcpClient}
    (hc : s.clients.find? fd = some c) :
    let after := (s.run (a.reads s)).clients.find? fd
    (c.fd < 0 ∨ a.eof fd = true → after = none) ∧
    (¬ (c.fd < 0 ∨ a.eof fd = true) → ∃ c', after = some c' ∧ c'.playerId = c.playerId ∧
      c'.fd = if ∃ line ∈ (splitLines '\n' (c.rxBuffer ++ a.received fd)).1, IsBye line then -1
        else c.fd) := by
  have henum := a.visits.enumerates s.clients
  obtain ⟨before, later, horder⟩ := List.append_of_mem ((henum.2 fd c).mpr hc)
  have hnodup := henum.1
  rw [horder, List.map_append, List.map_cons, List.nodup_append] at hnodup
  have hbefore : fd ∉ before.map Prod.fst := fun h ↦
    hnodup.2.2 fd h fd List.mem_cons_self rfl
  have hlater : fd ∉ later.map Prod.fst := (List.nodup_cons.mp hnodup.2.1).1
  have hvisit := find?_run_reads_of_notMem a s hbefore
  rw [hc] at hvisit
  have hafter : (s.run (a.reads s)).clients.find? fd =
      ((s.run (before.map fun e ↦ .read e.1 (a.received e.1) (a.eof e.1) (a.clock e.1))).read fd
        (a.received fd) (a.eof fd) (a.clock fd)).clients.find? fd := by
    rw [ServerTurn.reads, horder, List.map_append, List.map_cons, run, List.foldl_append,
      List.foldl_cons]
    exact find?_run_reads_of_notMem a _ hlater
  generalize s.run (before.map fun e ↦ .read e.1 (a.received e.1) (a.eof e.1) (a.clock e.1)) = s'
    at hvisit hafter
  dsimp only
  rw [hafter]
  constructor
  · intro hgone
    rw [read_of_gone hvisit hgone, UMap.find?_erase, if_pos rfl]
  · intro hstays
    obtain ⟨hid, _, hfd, _⟩ := processLines_spec (a.clock fd)
      ({ c with rxBuffer := c.rxBuffer ++ a.received fd }, s'.world, s'.inputsReceived)
    rw [read_of_stays hvisit hstays, UMap.find?_assign, if_pos rfl]
    exact ⟨_, rfl, hid, hfd⟩

/-- The read loop adds no client. -/
theorem find?_run_reads_of_none (a : ServerTurn F) (s : BaselineServer F) {fd : Int}
    (hc : s.clients.find? fd = none) : (s.run (a.reads s)).clients.find? fd = none := by
  have hother : fd ∉ (a.visits.order s.clients).map Prod.fst := by
    rw [(a.visits.enumerates s.clients).mem_keys, hc]
    exact Bool.false_ne_true
  exact (find?_run_reads_of_notMem a s hother).trans hc

/-- No connection that is accepted takes the place of a client. -/
theorem find?_run_accepts {a : ServerTurn F} {s : BaselineServer F}
    (hfresh : EveryStep (fun past ev ↦ (s.run past).Fresh ev) a.accepts) {fd : Int} {c : TcpClient}
    (hc : s.clients.find? fd = some c) : (s.run a.accepts).clients.find? fd = some c := by
  have haccept : ∀ ev ∈ a.accepts, ∃ fd' now, ev = .accept fd' now := by
    intro ev hev
    obtain ⟨d, _, rfl⟩ := List.mem_map.mp hev
    exact ⟨d.1, d.2, rfl⟩
  generalize a.accepts = evs at hfresh haccept
  induction evs using List.reverseRecOn with
  | nil => exact hc
  | append_singleton evs ev ih =>
    obtain ⟨fd', now, rfl⟩ := haccept ev (List.mem_append_right _ (List.mem_singleton.mpr rfl))
    have hpast := ih hfresh.init fun ev hev ↦ haccept ev (List.mem_append_left _ hev)
    have hother : ¬ (ServerEvent.accept fd' now : ServerEvent F).On fd := by
      rintro (rfl : fd' = fd)
      rw [hfresh.last.2] at hpast
      cases hpast
    rw [run, List.foldl_concat]
    exact (find?_handle_of_not_on hother _).trans hpast

/-- The read loop opens nothing. -/
theorem count_openedBy_reads (a : ServerTurn F) (s s' : BaselineServer F) (fd : Int) :
    (s'.openedBy (a.reads s)).count fd = 0 := by
  unfold openedBy ServerTurn.reads
  induction a.visits.order s.clients generalizing s' with
  | nil => rfl
  | cons e es ih =>
    rw [List.map_cons, observed, Multiset.count_add, ih]
    rfl

omit [FloatArith F] [FloatText F] in
/-- The other events of an iteration are always possible. -/
theorem fresh_of_no_accept {evs : List (ServerEvent F)}
    (h : ∀ ev ∈ evs, ∀ fd now, ev ≠ .accept fd now) (s : List (ServerEvent F) → BaselineServer F) :
    EveryStep (fun past ev ↦ (s past).Fresh ev) evs := by
  intro past ev hp
  have hev := h ev (hp.subset (List.mem_append_right _ (List.mem_singleton.mpr rfl)))
  cases ev with
  | accept fd now => exact absurd rfl (hev fd now)
  | read => trivial
  | tick => trivial

omit [FloatArith F] [FloatText F] in
theorem no_accept_reads (a : ServerTurn F) (s : BaselineServer F) :
    ∀ ev ∈ a.reads s, ∀ fd now, ev ≠ .accept fd now := by
  rintro ev hev fd now rfl
  obtain ⟨e, _, he⟩ := List.mem_map.mp hev
  cases he

/-- Who is there after the read loop was there before, with the same id. -/
theorem find?_of_run_reads (a : ServerTurn F) (s : BaselineServer F) {fd : Int} {c' : TcpClient}
    (h : (s.run (a.reads s)).clients.find? fd = some c') :
    ∃ c, s.clients.find? fd = some c ∧ c'.playerId = c.playerId := by
  cases hc : s.clients.find? fd with
  | none =>
    rw [find?_run_reads_of_none a s hc] at h
    cases h
  | some c =>
    obtain ⟨hgone, hstays⟩ := find?_run_reads a s hc
    have hopen : ¬ (c.fd < 0 ∨ a.eof fd = true) := by
      intro hleaves
      rw [hgone hleaves] at h
      cases h
    obtain ⟨d, hd, hid, _⟩ := hstays hopen
    rw [h] at hd
    rw [Option.some.inj hd]
    exact ⟨c, rfl, hid⟩

/-- In the read loop, a client that is marked or at the end of its stream goes with its record, and
is closed once; another keeps its record, and is marked exactly where a line says `BYE`. -/
theorem run_reads_spec (a : ServerTurn F) {s : BaselineServer F} (hs : s.Occupied) {fd : Int}
    {c : TcpClient} (hc : s.clients.find? fd = some c) :
    let served := s.run (a.reads s)
    let closes := (s.closedBy (a.reads s)).count fd
    (c.fd < 0 ∨ a.eof fd = true →
      served.clients.find? fd = none ∧ served.world.get c.playerId = none ∧ closes = 1) ∧
    (¬ (c.fd < 0 ∨ a.eof fd = true) → closes = 0 ∧ (served.world.get c.playerId).isSome = true ∧
      ∃ c', served.clients.find? fd = some c' ∧ c'.playerId = c.playerId ∧
        (c'.fd < 0 ↔ ∃ line ∈ (splitLines '\n' (c.rxBuffer ++ a.received fd)).1, IsBye line)) := by
  intro served closes
  obtain ⟨hgone, hstays⟩ := find?_run_reads a s hc
  have hreads := fresh_of_no_accept (no_accept_reads a s) s.run
  have hserved : served.Occupied := occupied_run hs hreads
  have hledger : 1 = closes + served.openOn fd := by
    have hcount := count_run s (a.reads s) hreads fd
    rwa [count_openedBy_reads, openOn, hc, Option.isSome_some, if_pos rfl, Nat.zero_add] at hcount
  unfold openOn at hledger
  constructor
  · intro hleaves
    have hnone : served.clients.find? fd = none := hgone hleaves
    rw [hnone] at hledger
    refine ⟨hnone, ?_, hledger.symm⟩
    rw [← Option.not_isSome_iff_eq_none, ← hserved.world]
    rintro ⟨fd', c', hc', hid⟩
    obtain ⟨d, hd, hsame⟩ := find?_of_run_reads a s hc'
    rw [hs.distinct fd' fd d c hd hc (hsame.symm.trans hid)] at hc'
    exact Option.some_ne_none _ (hc'.symm.trans hnone)
  · intro hopen
    obtain ⟨c', hc', hid, hfd⟩ := hstays hopen
    rw [show served.clients.find? fd = some c' from hc', Option.isSome_some, if_pos rfl] at hledger
    refine ⟨by omega, (hserved.world _).mp ⟨fd, c', hc', hid⟩, c', hc', hid, ?_⟩
    rw [hfd]
    split
    · next hbye => exact iff_of_true (by decide) hbye
    · next hbye => exact iff_of_false (fun h ↦ hopen (Or.inl h)) hbye

end BaselineServer

/-- The read loop of an iteration erases a client and its record, and closes its descriptor once. -/
def ServerTurn.Drops {F : Type} [FloatArith F] [FloatText F] (a : ServerTurn F)
    (s : BaselineServer F) (fd : Int) (id : UInt16) : Prop :=
  let joined := s.run a.accepts
  let served := BaselineServer.loop.work a s
  served.clients.find? fd = none ∧ served.world.get id = none ∧
    (joined.closedBy (a.reads joined)).count fd = 1

namespace BaselineServer

variable {F : Type} [FloatArith F] [FloatText F]

/-- Descriptors are unique among open connections. -/
def Unique (p : Scheduled (BaselineServer F)) (as : List (ServerTurn F)) : Prop :=
  EveryStep (fun past ev ↦ (p.state.run past).Fresh ev) (loop.events ServerTurn.events p as)

/-- Only the accept loop of an iteration can break uniqueness. -/
theorem unique_concat_iff {p : Scheduled (BaselineServer F)} {as : List (ServerTurn F)}
    {a : ServerTurn F} : Unique p (as ++ [a]) ↔ Unique p as ∧
      EveryStep (fun past ev ↦ ((loop.run p as).state.run past).Fresh ev) a.accepts := by
  have hrun (past : List (ServerEvent F)) :
      p.state.run (loop.events ServerTurn.events p as ++ past) =
        (loop.run p as).state.run past := by
    rw [state_run_loop, run, List.foldl_append]
    rfl
  unfold Unique
  rw [loop.events_concat, EveryStep.append_iff, ServerTurn.events, List.append_assoc,
    EveryStep.append_iff]
  simp only [hrun]
  refine and_congr_right fun _ ↦ and_iff_left (fresh_of_no_accept ?_ _)
  intro ev hev fd now
  rcases List.mem_append.mp hev with hread | htick
  · exact no_accept_reads a _ ev hread fd now
  · split at htick
    · rintro rfl
      cases List.mem_singleton.mp htick
    · cases htick

/-- The invariant after any number of iterations. -/
theorem Unique.occupied {p : Scheduled (BaselineServer F)} {as : List (ServerTurn F)}
    (h : Unique p as) (hp : p.state.Occupied) : (loop.run p as).state.Occupied := by
  rw [state_run_loop]
  exact occupied_run hp h

/-- A step changes no client. -/
theorem find?_iterate (p : Scheduled (BaselineServer F)) (a : ServerTurn F) (fd : Int) :
    (loop.iterate p a).state.clients.find? fd = (loop.work a p.state).clients.find? fd := by
  rw [Loop.state_iterate]
  change (if p.next ≤ a.now then (loop.work a p.state).step a.tick
    else loop.work a p.state).clients.find? fd = _
  split
  · have htick : ¬ a.tick.On fd := fun hon ↦ hon
    exact find?_handle_of_not_on htick _
  · rfl

/-- The store invariant of the loop. What is closed is refused while all ids are in use, or erased
with its record; on every descriptor, what is opened is closed once or open. A client whose stream
ends goes in the same iteration, one that says `BYE` in the next, and the others stay. -/
theorem occupancy (t₀ : Int) (as : List (ServerTurn F)) (a : ServerTurn F)
    (hunique : Unique ⟨init, t₀⟩ (as ++ [a])) :
    let start : BaselineServer F := init
    let p : Scheduled (BaselineServer F) := ⟨start, t₀⟩
    let evs := loop.events ServerTurn.events p (as ++ [a])
    let before := (loop.run p as).state
    let joined := before.run a.accepts
    let after := (loop.run p (as ++ [a])).state
    after.Occupied ∧
    (∀ past ev, past ++ [ev] <+: evs → ∀ fd ∈ (start.run past).closed ev,
      (∃ now, ev = .accept fd now ∧ (start.run past).Refused ((start.run past).step ev)) ∨
        ∃ c, (start.run past).Erased ((start.run past).step ev) fd c) ∧
    (∀ past, past <+: evs → ∀ fd, (start.openedBy past).count fd =
      (start.closedBy past).count fd + (start.run past).openOn fd) ∧
    (∀ fd c, before.clients.find? fd = some c → joined.clients.find? fd = some c) ∧
    ∀ fd c, joined.clients.find? fd = some c →
      (c.fd < 0 ∨ a.eof fd = true → a.Drops before fd c.playerId) ∧
      (¬ (c.fd < 0 ∨ a.eof fd = true) →
        let bye := ∃ line ∈ (splitLines '\n' (c.rxBuffer ++ a.received fd)).1, IsBye line
        (∃ c', after.clients.find? fd = some c' ∧ c'.playerId = c.playerId ∧ (c'.fd < 0 ↔ bye)) ∧
        (bye → ∀ b, Unique p (as ++ [a] ++ [b]) → b.Drops after fd c.playerId)) := by
  intro start p evs before joined after
  obtain ⟨hpast, haccepts⟩ := unique_concat_iff.mp hunique
  have hbefore : before.Occupied := hpast.occupied occupied_init
  have hjoined : joined.Occupied := occupied_run hbefore haccepts
  have hdrops : ∀ fd c, joined.clients.find? fd = some c → c.fd < 0 ∨ a.eof fd = true →
      a.Drops before fd c.playerId := fun fd c hc ↦ (run_reads_spec a hjoined hc).1
  refine ⟨hunique.occupied occupied_init, fun past ev _ fd h ↦ refused_or_erased h, ?_,
    fun fd c hc ↦ find?_run_accepts haccepts hc, fun fd c hc ↦ ⟨hdrops fd c hc, fun hopen ↦ ?_⟩⟩
  · intro past hprefix fd
    have hledger := count_run start past (EveryStep.past hunique hprefix) fd
    rwa [show start.openOn fd = 0 from rfl, add_zero] at hledger
  · obtain ⟨_, _, c', hserved, hid, hmark⟩ := (run_reads_spec a hjoined hc).2 hopen
    have hafter : after.clients.find? fd = some c' := by
      rw [show after = _ from congrArg Scheduled.state (loop.run_concat p as a), find?_iterate]
      exact hserved
    refine ⟨⟨c', hafter, hid, hmark⟩, fun hbye b hnext ↦ ?_⟩
    have hrejoined := (unique_concat_iff.mp hnext).2
    have hkept := find?_run_accepts hrejoined hafter
    have hoccupied := occupied_run (hunique.occupied occupied_init) hrejoined
    rw [← hid]
    exact (run_reads_spec b hoccupied hkept).1 (Or.inl (hmark.mpr hbye))

/-- A client says `BYE` in its first iteration. -/
theorem occupancy_bye :
    let _ := ratArith
    let _ := ratText
    let bye : ServerTurn Rat := ⟨[(4, 0)], byFd, fun _ ↦ ['B', 'Y', 'E', '\n'], fun _ ↦ false,
      fun _ _ ↦ 0, 0, byId, byFd⟩
    let quiet : ServerTurn Rat := ⟨[], byFd, fun _ ↦ [], fun _ ↦ false, fun _ _ ↦ 0, 1, byId, byFd⟩
    quiet.Drops (loop.run ⟨init, 0⟩ [bye]).state 4 1 := by
  intro _ _ bye quiet
  have hbye : Unique (⟨init, 0⟩ : Scheduled (BaselineServer Rat)) ([] ++ [bye]) :=
    unique_concat_iff.mpr ⟨EveryStep.nil, EveryStep.nil.concat ⟨by decide, by decide +kernel⟩⟩
  have hquiet : Unique (⟨init, 0⟩ : Scheduled (BaselineServer Rat)) ([] ++ [bye] ++ [quiet]) :=
    unique_concat_iff.mpr ⟨hbye, EveryStep.nil⟩
  have hjoined : ((init : BaselineServer Rat).run bye.accepts).clients.find? 4 =
      some ⟨4, 1, [], 0⟩ := by decide +kernel
  have hleaves := ((occupancy 0 [] bye hbye).2.2.2.2 4 ⟨4, 1, [], 0⟩ hjoined).2 (by decide)
  exact hleaves.2 (by decide +kernel) quiet hquiet

end BaselineServer
end LightningLink.Baseline
