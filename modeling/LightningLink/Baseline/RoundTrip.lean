import LightningLink.Baseline.Exact
import LightningLink.Baseline.Lines

/-!
# Snapshot lines read back

Library `Baseline`. The client reads a snapshot line as the tick and the players it was made
of. Numbers come back as they were; coordinates come back as the streams of the platform read
their own output.
-/

namespace LightningLink.Baseline

open Support FloatOps FloatArith Srv
open Istringstream (Ends)

section

variable {F : Type}

/-- What the streams do with floating values: a finite one is written as one token, which is
read back entirely, as `rd` of it. -/
structure ReadsBack [FloatText F] (finite : F → Prop) (rd : F → F) : Prop where
  token : ∀ x, finite x → FloatText.write x ≠ []
  back : ∀ x, finite x → ∀ rest, Ends rest →
    FloatText.scan (FloatText.write x ++ rest) = (rd x, false, rest)

/-- Coordinates that are finite. -/
structure FiniteState (finite : F → Prop) (p : PlayerState F) : Prop where
  x : finite p.pos.x
  y : finite p.pos.y
  vx : finite p.vel.x
  vy : finite p.vel.y

/-- A player record with the coordinates read back. -/
def rounded (rd : F → F) (p : PlayerState F) : PlayerState F :=
  { p with pos := ⟨rd p.pos.x, rd p.pos.y⟩, vel := ⟨rd p.vel.x, rd p.vel.y⟩ }

variable [FloatText F] {finite : F → Prop} {rd : F → F}

/-- A finite value is extracted as it is read back. -/
theorem ReadsBack.getFloat (h : ReadsBack finite rd) {x : F} (hx : finite x) {rest : List Char}
    (hrest : Ends rest) :
    Istringstream.getFloat ⟨' ' :: (FloatText.write x ++ rest), false, false⟩ =
      (some (rd x), ⟨rest, rest.isEmpty, false⟩) := by
  obtain ⟨c, cs, hcs⟩ := List.exists_cons_of_ne_nil (h.token x hx)
  have hspace : isSpace c = false := FloatText.isSpace_write x c (hcs ▸ List.mem_cons_self)
  unfold Istringstream.getFloat
  rw [hcs, List.cons_append, Istringstream.extract_space _ hspace,
    Istringstream.extract_cons _ hspace, ← List.cons_append, ← hcs, h.back x hx rest hrest]

/-! ### Players -/

variable [FloatArith F]

/-- One group of six fields; `client/tcp_baseline_client.cpp:236–241`. -/
def readPlayer (iss : Istringstream) : PlayerState F × Istringstream :=
  let pid := iss.getUnsigned 32
  let x := pid.2.getFloat
  let y := x.2.getFloat
  let vx := y.2.getFloat
  let vy := vx.2.getFloat
  let lastSeq := vy.2.getUnsigned 64
  (⟨UInt16.ofInt (pid.1.getD 0), ⟨x.1.getD (ofInt 0), y.1.getD (ofInt 0)⟩,
    ⟨vx.1.getD (ofInt 0), vy.1.getD (ofInt 0)⟩, UInt32.ofInt (lastSeq.1.getD 0)⟩, lastSeq.2)

/-- Parsing reads one group after another. -/
theorem parsePlayers_succ (n : Nat) (iss : Istringstream) :
    (parsePlayers (n + 1) iss : List (PlayerState F)) =
      (readPlayer iss).1 :: parsePlayers n (readPlayer (F := F) iss).2 := by
  simp only [parsePlayers, readPlayer]

/-- The stream behind the groups read. -/
def afterPlayers (F : Type) [FloatText F] [FloatArith F] : Nat → Istringstream → Istringstream
  | 0, iss => iss
  | n + 1, iss => afterPlayers F n (readPlayer (F := F) iss).2

/-- A written player is read back. -/
theorem readPlayer_formatPlayer (h : ReadsBack finite rd) {p : PlayerState F}
    (hp : FiniteState finite p) {rest : List Char} (hrest : Ends rest) :
    readPlayer ⟨formatPlayer p ++ rest, false, false⟩ =
      (rounded rd p, ⟨rest, rest.isEmpty, false⟩) := by
  have hformat : formatPlayer p ++ rest = ' ' :: (writeNat p.id.toNat ++
      ' ' :: (FloatText.write p.pos.x ++ ' ' :: (FloatText.write p.pos.y ++
      ' ' :: (FloatText.write p.vel.x ++ ' ' :: (FloatText.write p.vel.y ++
      ' ' :: (writeNat p.lastProcessedInputSeq.toNat ++ rest)))))) := by
    simp [formatPlayer]
  have hends : ∀ cs, Ends (' ' :: cs) := fun cs ↦ .inr ⟨cs, rfl⟩
  have hid := p.id.toNat_lt
  have hseq := p.lastProcessedInputSeq.toNat_lt
  unfold readPlayer
  rw [hformat, Istringstream.getUnsigned_writeNat (by omega) (hends _)]
  simp only [List.isEmpty_cons]
  rw [h.getFloat hp.x (hends _)]
  simp only [List.isEmpty_cons]
  rw [h.getFloat hp.y (hends _)]
  simp only [List.isEmpty_cons]
  rw [h.getFloat hp.vx (hends _)]
  simp only [List.isEmpty_cons]
  rw [h.getFloat hp.vy (hends _)]
  simp only [List.isEmpty_cons]
  rw [Istringstream.getUnsigned_writeNat (by omega) hrest]
  simp only [Option.getD_some, uint16_ofInt_toNat, uint32_ofInt_toNat]
  rfl

omit [FloatArith F] in
/-- Players are written behind a space. -/
theorem ends_flatMap (ps : List (PlayerState F)) : Ends (ps.flatMap formatPlayer) := by
  cases ps with
  | nil => exact .inl rfl
  | cons p ps => exact .inr ⟨_, rfl⟩

/-- Written players are read back, and nothing is left behind them. -/
theorem parsePlayers_flatMap (h : ReadsBack finite rd) {ps : List (PlayerState F)}
    (hps : ∀ p ∈ ps, FiniteState finite p) :
    let s : Istringstream := ⟨ps.flatMap formatPlayer, (ps.flatMap formatPlayer).isEmpty, false⟩
    parsePlayers ps.length s = ps.map (rounded rd) ∧
      afterPlayers F ps.length s = ⟨[], true, false⟩ := by
  induction ps with
  | nil => exact ⟨rfl, rfl⟩
  | cons p ps ih =>
    obtain ⟨hp, hps⟩ := List.forall_mem_cons.mp hps
    obtain ⟨hparse, hafter⟩ := ih hps
    intro s
    have hread := readPlayer_formatPlayer h hp (ends_flatMap ps)
    have hs : s = ⟨formatPlayer p ++ ps.flatMap formatPlayer, false, false⟩ := rfl
    rw [List.length_cons, parsePlayers_succ, afterPlayers, hs, hread, List.map_cons]
    exact ⟨congrArg _ hparse, hafter⟩

/-! ### Snapshot lines -/

/-- Characters of a snapshot line before its newline. -/
def snapshotBody (tick : UInt32) (states : List (PlayerState F)) : List Char :=
  ['S', 'S', ' '] ++ writeNat tick.toNat ++ ' ' :: writeNat states.length ++
    states.flatMap formatPlayer

/-- The stream behind what is parsed of a snapshot line. -/
def afterSnapshot (F : Type) [FloatText F] [FloatArith F] (line : List Char) : Istringstream :=
  let cmd := (Istringstream.ofString line).getWord
  let tick := cmd.2.getUnsigned 32
  let count := tick.2.getUnsigned 64
  afterPlayers F (count.1.getD 0).toNat count.2

/-- A written snapshot is read back, and nothing is left behind it. -/
theorem parseSnapshot_snapshotBody (h : ReadsBack finite rd) (tick : UInt32)
    {states : List (PlayerState F)} (hstates : ∀ p ∈ states, FiniteState finite p)
    (hlen : states.length < 2 ^ 64) :
    parseSnapshot (snapshotBody tick states) = some (tick, states.map (rounded rd)) ∧
      afterSnapshot F (snapshotBody tick states) = ⟨[], true, false⟩ := by
  obtain ⟨hparse, hafter⟩ := parsePlayers_flatMap h hstates
  let rest := ' ' :: (writeNat tick.toNat ++ ' ' :: (writeNat states.length ++
    states.flatMap formatPlayer))
  have hbody : snapshotBody tick states = ['S', 'S'] ++ rest := by simp [snapshotBody, rest]
  have hword : (Istringstream.ofString (snapshotBody tick states)).getWord =
      (some ['S', 'S'], ⟨rest, false, false⟩) := by
    rw [hbody]
    exact Istringstream.getWord_append (List.cons_ne_nil _ _) (by simp [isSpace]) _
  have htick := Istringstream.getUnsigned_writeNat (w := 32) tick.toNat_lt
    (.inr ⟨writeNat states.length ++ states.flatMap formatPlayer, rfl⟩)
  have hcount := Istringstream.getUnsigned_writeNat hlen (ends_flatMap states)
  unfold parseSnapshot afterSnapshot
  simp only [hword, if_true, rest, htick, List.isEmpty_cons, hcount, Option.getD_some,
    Int.toNat_natCast, uint32_ofInt_toNat, hparse, hafter, and_self]

omit [FloatText F] [FloatArith F] in
/-- A world has fewer records than its parser can count. -/
theorem length_collectPlayerStates (order : UMap.Traversal UInt16 (ServerPlayer F))
    (w : WorldState F) : (w.collectPlayerStates order).length < 2 ^ 64 := by
  have hle : w.players.keys.card ≤ (Finset.range (2 ^ 16)).card :=
    Finset.card_le_card_of_injOn UInt16.toNat
      (fun id _ ↦ Finset.mem_coe.mpr (Finset.mem_range.mpr id.toNat_lt))
      fun _ _ _ _ h ↦ UInt16.toNat_inj.mp h
  rw [Finset.card_range] at hle
  rw [WorldState.collectPlayerStates, List.length_map, (order.enumerates w.players).length_eq,
    UMap.size]
  omega

omit [FloatArith F] in
/-- A snapshot line is its body and a newline, and is split so. -/
theorem split_formatSnapshotLine (order : UMap.Traversal UInt16 (ServerPlayer F))
    (w : WorldState F) :
    let body := snapshotBody w.tick (w.collectPlayerStates order)
    formatSnapshotLine order w = body ++ ['\n'] ∧ '\n' ∉ body ∧
      splitLines '\n' (formatSnapshotLine order w) = ([body], []) := by
  intro body
  have hline : formatSnapshotLine order w = body ++ ['\n'] := rfl
  obtain ⟨body', hbody, hnot⟩ := isLine_formatSnapshotLine order w
  obtain rfl : body = body' := List.append_cancel_right (hline.symm.trans hbody)
  exact ⟨hline, hnot, by rw [hline, splitLines_line_append hnot]; rfl⟩

/-! ### The client -/

omit [FloatText F] [FloatArith F] in
/-- The ack is that of the last record of the player. -/
theorem ackOf_eq (myPid : UInt16) (players : List (PlayerState F)) :
    ackOf myPid players = ((players.filter fun p ↦ p.id = myPid).getLast?).map
      PlayerState.lastProcessedInputSeq := by
  induction players using List.reverseRecOn with
  | nil => rfl
  | append_singleton players p ih =>
    rw [ackOf, List.foldl_append, ← ackOf, List.foldl_cons, List.foldl_nil, ih,
      List.filter_append]
    by_cases hp : p.id = myPid <;> simp [hp]

omit [FloatText F] [FloatArith F] in
/-- Reading back keeps the acks. -/
theorem ackOf_map_rounded (rd : F → F) (myPid : UInt16) (players : List (PlayerState F)) :
    ackOf myPid (players.map (rounded rd)) = ackOf myPid players := by
  rw [ackOf, List.foldl_map]
  rfl

namespace BaselineClient

variable {Q : PriorityQueue DelayedLine DelayedLine.deliverAtMs}

omit [FloatText F] in
/-- A line that completes the buffer is queued, if it is not empty and not dropped. -/
theorem drain_line {body received : List Char} (hbody : '\n' ∉ body) (hne : body ≠ [])
    (c : BaselineClient F Q) (hbuf : c.rxBuf ++ received = body ++ ['\n']) (draw : Nat → Double F)
    (hkept : c.cond.shouldDrop (draw 0) = false) (clock : Nat → UInt64) :
    let c' := c.drain received draw clock
    c'.rxBuf = [] ∧ Q.elems c'.cond.inQueue =
      .after c.cond.addLatencyMsEachDirection body (clock 0) ::ₘ Q.elems c.cond.inQueue := by
  have hsplit : splitLines '\n' (body ++ ['\n']) = ([body], []) := splitLines_line_append hbody []
  unfold drain
  dsimp only
  rw [hbuf, hsplit]
  dsimp only [List.zipIdx_cons, List.zipIdx_nil, List.foldl_cons, List.foldl_nil]
  rw [Conditioner.enqueueIn, if_neg (by simpa using hne), hkept, if_neg Bool.false_ne_true,
    Q.elems_push]
  exact ⟨rfl, rfl⟩

/-- The latest line of the queue is handled last of those released with it. -/
theorem releaseIn_last {c : BaselineClient F Q} {l : DelayedLine} {s : Multiset DelayedLine}
    (hq : Q.elems c.cond.inQueue = l ::ₘ s) (hlast : ∀ x ∈ s, x.deliverAtMs < l.deliverAtMs)
    {clock : Nat → UInt64} (hdue : ∀ i, l.deliverAtMs ≤ clock i) {tick : UInt32}
    {players : List (PlayerState F)} (hparse : parseSnapshot l.data = some (tick, players))
    (nowMs : Nat → UInt64) (order : Nat → UMap.Traversal UInt32 BaselinePendingInput) :
    (c.releaseIn clock nowMs order).latestTick = tick ∧
      ∃ latest, (c.releaseIn clock nowMs order).latest =
        players.foldl (fun m p ↦ m.assign p.id p) latest ∧ (s = 0 → latest = c.latest) := by
  have hpops := Q.pops_popWhile (fun i l ↦ l.deliverAtMs ≤ clock i) c.cond.inQueue
  have hall : ∀ i, ∀ x ∈ Q.elems c.cond.inQueue, decide (x.deliverAtMs ≤ clock i) = true := by
    intro i x hx
    rw [hq, Multiset.mem_cons] at hx
    rcases hx with rfl | hx
    · exact decide_eq_true (hdue i)
    · exact decide_eq_true (Std.le_trans (Std.le_of_lt (hlast x hx)) (hdue i))
  obtain ⟨ls, hpopAll, hls⟩ := Q.popAll_concat hq hlast
  have hreleased : (c.cond.releaseIn clock).2 = ls ++ [l] := (hpops.eq_popAll hall).trans hpopAll
  unfold releaseIn
  dsimp only
  rw [hreleased, List.zipIdx_append, List.foldl_append]
  obtain ⟨htick, hlatest⟩ := handleLine_stores hparse (nowMs ls.length) (order ls.length)
    (ls.zipIdx.foldl (fun c l ↦ c.handleLine l.1.data (nowMs l.2) (order l.2))
      { c with cond := (c.cond.releaseIn clock).1 })
  dsimp only [List.zipIdx_cons, List.zipIdx_nil, List.foldl_cons, List.foldl_nil]
  rw [Nat.zero_add, htick, hlatest]
  refine ⟨rfl, _, rfl, fun hs ↦ ?_⟩
  obtain rfl : ls = [] := (Multiset.coe_eq_zero ls).mp (hls.trans hs)
  rfl

end BaselineClient

/-- The client reads the line of any world with finite coordinates as the world: its splitter
takes it for one line, the parser finds the tick and the players in their order and leaves
nothing behind, and both are stored when the line is due, the last of what is released then. -/
theorem snapshot_roundTrip {Q : PriorityQueue DelayedLine DelayedLine.deliverAtMs}
    (h : ReadsBack finite rd) (order : UMap.Traversal UInt16 (ServerPlayer F)) (w : WorldState F)
    (hw : ∀ p ∈ w.collectPlayerStates order, FiniteState finite p) :
    let states := w.collectPlayerStates order
    let players := states.map (rounded rd)
    ∃ body, (formatSnapshotLine order w = body ++ ['\n'] ∧ '\n' ∉ body ∧
        splitLines '\n' (formatSnapshotLine order w) = ([body], [])) ∧
      (parseSnapshot body = some (w.tick, players) ∧ afterSnapshot F body = ⟨[], true, false⟩) ∧
      (∀ (c : BaselineClient F Q) received draw clock,
        c.rxBuf ++ received = formatSnapshotLine order w →
        c.cond.shouldDrop (draw 0) = false →
        (c.drain received draw clock).rxBuf = [] ∧
        Q.elems (c.drain received draw clock).cond.inQueue =
          .after c.cond.addLatencyMsEachDirection body (clock 0) ::ₘ Q.elems c.cond.inQueue) ∧
      (∀ (c : BaselineClient F Q) received draw clock,
        c.rxBuf ++ received = formatSnapshotLine order w →
        c.cond.shouldDrop (draw 0) = false →
        let l := DelayedLine.after c.cond.addLatencyMsEachDirection body (clock 0)
        (∀ x ∈ Q.elems c.cond.inQueue, x.deliverAtMs < l.deliverAtMs) →
        ∀ releaseClock, (∀ i, l.deliverAtMs ≤ releaseClock i) → ∀ nowMs order,
        let c' := (c.drain received draw clock).releaseIn releaseClock nowMs order
        c'.latestTick = w.tick ∧
          ∃ latest, c'.latest = players.foldl (fun m p ↦ m.assign p.id p) latest ∧
            (Q.elems c.cond.inQueue = 0 → latest = c.latest)) ∧
      ∀ (c : BaselineClient F Q) nowMs order,
        (c.handleLine body nowMs order).latestTick = w.tick ∧
        (c.handleLine body nowMs order).latest =
          players.foldl (fun m p ↦ m.assign p.id p) c.latest ∧
        ackOf c.myPid players = ((states.filter fun p ↦ p.id = c.myPid).getLast?).map
          PlayerState.lastProcessedInputSeq := by
  intro states players
  obtain ⟨hline, hnot, hsplit⟩ := split_formatSnapshotLine order w
  have hparse := parseSnapshot_snapshotBody h w.tick hw (length_collectPlayerStates order w)
  have hdrain (c : BaselineClient F Q) (received draw clock)
      (hbuf : c.rxBuf ++ received = formatSnapshotLine order w)
      (hkept : c.cond.shouldDrop (draw 0) = false) :=
    BaselineClient.drain_line hnot (List.cons_ne_nil _ _) c (hbuf.trans hline) draw hkept clock
  refine ⟨snapshotBody w.tick states, ⟨hline, hnot, hsplit⟩, hparse, hdrain, ?_, ?_⟩
  · intro c received draw clock hbuf hkept l hlater releaseClock hdue nowMs order'
    obtain ⟨_, hq⟩ := hdrain c received draw clock hbuf hkept
    exact BaselineClient.releaseIn_last hq hlater hdue hparse.1 nowMs order'
  · intro c nowMs order'
    obtain ⟨htick, hlatest⟩ := BaselineClient.handleLine_stores hparse.1 nowMs order' c
    exact ⟨htick, hlatest, by rw [ackOf_map_rounded, ackOf_eq]⟩

end

/-- Rational numbers are read back as the whole numbers below them. -/
theorem ratText_readsBack :
    let _ := ratText
    ReadsBack (fun _ : Rat ↦ True) fun x ↦ Rat.ofInt x.floor := by
  let _ := ratText
  intro _
  constructor
  · intro x _
    change writeInt x.floor ≠ []
    obtain ⟨c, cs, hcs, _⟩ := Istringstream.writeNat_eq_cons x.floor.toNat
    unfold writeInt
    split
    · exact List.cons_ne_nil _ _
    · exact hcs ▸ List.cons_ne_nil c cs
  · intro x _ rest hrest
    change (Rat.ofInt (Istringstream.takeNumber _ (writeInt x.floor ++ rest)).1,
      (Istringstream.takeNumber _ (writeInt x.floor ++ rest)).2) = _
    unfold writeInt
    split
    · next hneg =>
      have habs : -(x.floor.natAbs : Int) = x.floor := by omega
      rw [List.cons_append, Istringstream.takeNumber_minus _ _ hrest, if_pos rfl, habs]
    · next hneg =>
      have hnat : (x.floor.toNat : Int) = x.floor := by omega
      rw [Istringstream.takeNumber_writeNat _ _ hrest, if_neg Bool.false_ne_true, hnat]

/-- A world with two players, one of which moves and plays at the client that is told of it. -/
theorem snapshot_roundTrip_two :
    let _ := ratArith
    let _ := ratText
    let standing : ServerPlayer Rat := ⟨⟨1, ⟨640, 360⟩, ⟨0, 0⟩, 0⟩, 0, 0, false, 0⟩
    let moving : ServerPlayer Rat :=
      ⟨⟨300, ⟨1 / 2, 700⟩, ⟨240, -240⟩, 65536⟩, 1, -1, true, 65536⟩
    let w : WorldState Rat := ⟨(UMap.empty.assign 1 standing).assign 300 moving, 4000000000⟩
    let players := (w.collectPlayerStates byId).map (rounded fun x ↦ Rat.ofInt x.floor)
    let c : BaselineClient Rat (.newestFirst DelayedLine.deliverAtMs) :=
      { BaselineClient.init 50 (0 : Rat) with myPid := 300 }
    let drained := c.drain (formatSnapshotLine byId w) (fun _ ↦ (0 : Rat)) fun _ ↦ 1000
    let c' := drained.releaseIn (fun _ ↦ 1050) (fun _ ↦ 1050) fun _ ↦ bySeq
    ∃ body, (formatSnapshotLine byId w = body ++ ['\n'] ∧ '\n' ∉ body) ∧
      (parseSnapshot body = some (w.tick, players) ∧ afterSnapshot Rat body = ⟨[], true, false⟩) ∧
      (drained.rxBuf = [] ∧
        PriorityQueue.elems _ drained.cond.inQueue = {DelayedLine.mk 1050 body}) ∧
      (c'.latestTick = 4000000000 ∧
        c'.latest = players.foldl (fun m p ↦ m.assign p.id p) UMap.empty) ∧
      ackOf c.myPid players = some 65536 := by
  let _ := ratArith
  let _ := ratText
  intro _ _ standing moving w players c drained c'
  obtain ⟨body, ⟨hline, hnot, _⟩, hparse, hdrain, hstore, hack⟩ :=
    snapshot_roundTrip (Q := .newestFirst DelayedLine.deliverAtMs) ratText_readsBack byId w
      fun p _ ↦ ⟨trivial, trivial, trivial, trivial⟩
  have hkept : c.cond.shouldDrop (0 : Rat) = false := rfl
  obtain ⟨htick, latest, hlatest, hempty⟩ := hstore c (formatSnapshotLine byId w)
    (fun _ ↦ (0 : Rat)) (fun _ ↦ 1000) rfl hkept (fun _ hx ↦ absurd hx (Multiset.notMem_zero _))
    (fun _ ↦ 1050) (fun _ ↦ Std.le_refl _) (fun _ ↦ 1050) fun _ ↦ bySeq
  obtain rfl := hempty rfl
  refine ⟨body, ⟨hline, hnot⟩, hparse, hdrain c _ _ _ rfl hkept, ⟨htick, hlatest⟩, ?_⟩
  exact (hack c 0 bySeq).2.2.trans rfl

end LightningLink.Baseline
