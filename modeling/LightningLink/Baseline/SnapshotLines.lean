import LightningLink.Baseline.Fields
import LightningLink.Baseline.Retirement
import LightningLink.Baseline.RoundTrip

/-!
# Snapshot lines

Library `Baseline`. The shape of a snapshot line, read off its tokens, beside what the client
makes of a line that does not have it. The client stores what it reads without a look at the state
of the stream, and goes through as many groups as the line announces.
-/

namespace LightningLink.Baseline

open Support FloatOps FloatArith Srv

/-- A token is an unsigned number of so many bits. -/
def inRange (w : Nat) (token : List Char) : Bool := (decimal token).any fun i ↦ 0 ≤ i ∧ i < 2 ^ w

section

variable (F : Type) [FloatText F]

/-- A token is a floating number. -/
def isNumber (token : List Char) : Bool :=
  let r : F × Bool × List Char := FloatText.scan token
  !r.2.1 && r.2.2.isEmpty

/-- Tokens are so many groups of six numeric fields, and nothing else. -/
def groupsShaped : Nat → List (List Char) → Bool
  | 0, ts => ts.isEmpty
  | n + 1, id :: x :: y :: vx :: vy :: seq :: ts =>
    inRange 16 id && isNumber F x && isNumber F y && isNumber F vx && isNumber F vy &&
      inRange 32 seq && groupsShaped n ts
  | _ + 1, _ => false

/-- A line is `SS`, a tick, a count and so many groups; `server/tcp_baseline.cpp:55–69`. -/
def wellShaped (line : List Char) : Bool :=
  match tokens isSpace line with
  | cmd :: tick :: count :: ts =>
    cmd = ['S', 'S'] && inRange 32 tick &&
      (decimal count).any fun n ↦ 0 ≤ n ∧ n < 2 ^ 64 ∧ groupsShaped F n.toNat ts
  | _ => false

/-- Groups of six fields on a line. -/
def groupsOn (line : List Char) : Nat := ((tokens isSpace line).length - 3) / 6

/-- Iterations of the parse loop for a line; `client/tcp_baseline_client.cpp:235`. -/
def iterations [FloatArith F] (line : List Char) : Nat :=
  (parseSnapshot line : Option (UInt32 × List (PlayerState F))).elim 0 fun r ↦ r.2.length

end

/-- A line changes nothing that is stored, and is parsed in as many iterations as it has groups. -/
def BaselineClient.Spared {F : Type} [FloatArith F] [FloatText F]
    {Q : PriorityQueue DelayedLine DelayedLine.deliverAtMs} (line : List Char) (nowMs : UInt64)
    (order : UMap.Traversal UInt32 BaselinePendingInput) (c : BaselineClient F Q) : Prop :=
  let c' := c.handleLine line nowMs order
  (c'.latest = c.latest ∧ c'.latestTick = c.latestTick ∧ c'.pending = c.pending) ∧
    iterations F line ≤ groupsOn line

/-- What a parsed line says is there already: the tick, the last record of each player, and no
pending input that is acknowledged. -/
structure BaselineClient.Knows {F : Type} [FloatArith F]
    {Q : PriorityQueue DelayedLine DelayedLine.deliverAtMs} (c : BaselineClient F Q)
    (tick : UInt32) (players : List (PlayerState F)) : Prop where
  tick : tick = c.latestTick
  records : ∀ id p, (players.filter fun q ↦ q.id = id).getLast? = some p →
    c.latest.find? id = some p
  acks : ∀ ack, ackOf c.myPid players = some ack → ∀ k, k ≤ ack → c.pending.find? k = none

/-! ### Lines of the server -/

section

/-- A written unsigned number is a decimal token. -/
theorem decimal_writeNat (n : Nat) : decimal (writeNat n) = some (n : Int) := by
  obtain ⟨c, cs, hcs, hc⟩ := Istringstream.writeNat_eq_cons n
  have hne : ∀ d : Char, d.isDigit = false → (writeNat n).head? ≠ some d := by
    intro d hd
    rw [hcs, List.head?_cons]
    intro he
    rw [Option.some.inj he, hd] at hc
    cases hc
  have hall : (writeNat n).all Char.isDigit = true :=
    List.all_eq_true.mpr fun d hd ↦ Nat.isDigit_of_mem_toDigits (by decide) (by decide) hd
  unfold decimal
  simp only [hne '-' (by decide), hne '+' (by decide), or_self, if_false, hall]
  rw [if_pos ⟨hcs ▸ List.cons_ne_nil c cs, trivial⟩, writeNat, Nat.ofDigitChars_ten_toDigits]

theorem inRange_writeNat {w n : Nat} (h : n < 2 ^ w) : inRange w (writeNat n) = true := by
  have hpow : ((2 ^ w : Nat) : Int) = 2 ^ w := by norm_cast
  unfold inRange
  rw [decimal_writeNat, Option.any_some, decide_eq_true_eq]
  omega

/-- A token behind a space. -/
theorem tokens_space_append {t rest : List Char} (hne : t ≠ []) (ht : ∀ c ∈ t, isSpace c = false)
    (hrest : Istringstream.Ends rest) :
    tokens isSpace (' ' :: (t ++ rest)) = t :: tokens isSpace rest := by
  have hended : Ended isSpace rest := by
    rcases hrest with rfl | ⟨cs, rfl⟩
    · exact fun c hc ↦ absurd hc (by simp)
    · intro c hc
      rw [← Option.some.inj hc]
      decide
  rw [tokens_cons_of_sep (by decide), tokens_append hne ht hended]

private theorem writeNat_token (n : Nat) :
    writeNat n ≠ [] ∧ ∀ c ∈ writeNat n, isSpace c = false :=
  ⟨Nat.toDigits_ne_nil, fun _ hc ↦ Istringstream.isSpace_of_isDigit
    (Nat.isDigit_of_mem_toDigits (by decide) (by decide) hc)⟩

variable {F : Type} [FloatText F] {finite : F → Prop} {rd : F → F}

/-- A written finite value is a numeric token. -/
theorem ReadsBack.isNumber (h : ReadsBack finite rd) {x : F} (hx : finite x) :
    isNumber F (FloatText.write x) = true := by
  have hback := h.back x hx [] (.inl rfl)
  rw [List.append_nil] at hback
  unfold Baseline.isNumber
  rw [hback]
  rfl

/-- Written players are groups. -/
theorem groupsShaped_flatMap (h : ReadsBack finite rd) {ps : List (PlayerState F)}
    (hps : ∀ p ∈ ps, FiniteState finite p) :
    groupsShaped F ps.length (tokens isSpace (ps.flatMap formatPlayer)) = true ∧
      (tokens isSpace (ps.flatMap formatPlayer)).length = 6 * ps.length := by
  induction ps with
  | nil => exact ⟨rfl, rfl⟩
  | cons p ps ih =>
    obtain ⟨hp, hps⟩ := List.forall_mem_cons.mp hps
    obtain ⟨hgroups, hlength⟩ := ih hps
    have hfloat {x : F} (hx : finite x) := And.intro (h.token x hx) (FloatText.isSpace_write x)
    have hends : ∀ cs, Istringstream.Ends (' ' :: cs) := fun cs ↦ .inr ⟨cs, rfl⟩
    have hformat : (p :: ps).flatMap formatPlayer = ' ' :: (writeNat p.id.toNat ++
        ' ' :: (FloatText.write p.pos.x ++ ' ' :: (FloatText.write p.pos.y ++
        ' ' :: (FloatText.write p.vel.x ++ ' ' :: (FloatText.write p.vel.y ++
        ' ' :: (writeNat p.lastProcessedInputSeq.toNat ++ ps.flatMap formatPlayer)))))) := by
      simp [formatPlayer]
    rw [hformat,
      tokens_space_append (writeNat_token _).1 (writeNat_token _).2 (hends _),
      tokens_space_append (hfloat hp.x).1 (hfloat hp.x).2 (hends _),
      tokens_space_append (hfloat hp.y).1 (hfloat hp.y).2 (hends _),
      tokens_space_append (hfloat hp.vx).1 (hfloat hp.vx).2 (hends _),
      tokens_space_append (hfloat hp.vy).1 (hfloat hp.vy).2 (hends _),
      tokens_space_append (writeNat_token _).1 (writeNat_token _).2 (ends_flatMap ps)]
    constructor
    · rw [List.length_cons, groupsShaped, inRange_writeNat p.id.toNat_lt, h.isNumber hp.x,
        h.isNumber hp.y, h.isNumber hp.vx, h.isNumber hp.vy,
        inRange_writeNat p.lastProcessedInputSeq.toNat_lt, hgroups]
      rfl
    · simp only [List.length_cons, hlength]
      omega

/-- The server writes lines of the shape. -/
theorem wellShaped_snapshotBody (h : ReadsBack finite rd) (tick : UInt32)
    {states : List (PlayerState F)} (hstates : ∀ p ∈ states, FiniteState finite p)
    (hlen : states.length < 2 ^ 64) :
    wellShaped F (snapshotBody tick states) = true ∧
      groupsOn (snapshotBody tick states) = states.length := by
  obtain ⟨hgroups, hlength⟩ := groupsShaped_flatMap h hstates
  have hbody : snapshotBody tick states = ['S', 'S'] ++ ' ' :: (writeNat tick.toNat ++
      ' ' :: (writeNat states.length ++ states.flatMap formatPlayer)) := by simp [snapshotBody]
  have htokens : tokens isSpace (snapshotBody tick states) = ['S', 'S'] :: writeNat tick.toNat ::
      writeNat states.length :: tokens isSpace (states.flatMap formatPlayer) := by
    rw [hbody, tokens_append (List.cons_ne_nil _ _) (by simp [isSpace])
      (by intro c hc; rw [← Option.some.inj hc]; decide),
      tokens_space_append (writeNat_token _).1 (writeNat_token _).2 (.inr ⟨_, rfl⟩),
      tokens_space_append (writeNat_token _).1 (writeNat_token _).2 (ends_flatMap states)]
  constructor
  · unfold wellShaped
    rw [htokens]
    dsimp only
    rw [inRange_writeNat tick.toNat_lt, decimal_writeNat, Option.any_some, Int.toNat_natCast,
      hgroups]
    simpa using hlen
  · unfold groupsOn
    rw [htokens]
    simp only [List.length_cons, hlength]
    omega

end

/-! ### What a line changes -/

section

variable {F : Type} [FloatArith F] [FloatText F]

theorem length_parsePlayers (n : Nat) (iss : Istringstream) :
    (parsePlayers n iss : List (PlayerState F)).length = n := by
  induction n generalizing iss with
  | zero => rfl
  | succ n ih => rw [parsePlayers_succ, List.length_cons, ih]

omit [FloatArith F] in
theorem length_of_groupsShaped {n : Nat} {ts : List (List Char)}
    (h : groupsShaped F n ts = true) : ts.length = 6 * n := by
  induction n generalizing ts with
  | zero =>
    rw [List.isEmpty_iff.mp h]
    rfl
  | succ n ih =>
    unfold groupsShaped at h
    split at h
    · next heq => cases heq
    · next m id x y vx vy seq ts heq =>
      cases heq
      rw [Bool.and_eq_true] at h
      simp only [List.length_cons, ih h.2]
      omega
    · cases h

/-- A line is parsed if its first token is `SS`. -/
theorem isSome_parseSnapshot_iff (line : List Char) :
    (parseSnapshot line : Option (UInt32 × List (PlayerState F))).isSome = true ↔
      (tokens isSpace line).head? = some ['S', 'S'] := by
  unfold parseSnapshot
  dsimp only
  rw [Istringstream.getWord_ofString]
  split
  · next h => simp [h]
  · next h => simp [h]

/-- The loop goes through as many groups as a line announces. -/
theorem iterations_eq {line : List Char}
    (h : (Istringstream.ofString line).getWord.1 = some ['S', 'S']) :
    let fields := (Istringstream.ofString line).getWord.2
    iterations F line = (((fields.getUnsigned 32).2.getUnsigned 64).1.getD 0).toNat := by
  unfold iterations parseSnapshot
  simp only [h, if_true, Option.elim_some, length_parsePlayers]

/-- A line of the shape is parsed in as many iterations as it has groups. -/
theorem iterations_of_wellShaped {line : List Char} (h : wellShaped F line = true) :
    iterations F line = groupsOn line := by
  unfold wellShaped at h
  split at h
  · next cmd tick count ts htokens =>
    simp only [Bool.and_eq_true, decide_eq_true_eq, inRange, Option.any_eq_true] at h
    obtain ⟨⟨hcmd, i, htick, hi0, hi1⟩, n, hcount, hn0, hn1, hgroups⟩ := h
    have hline := Istringstream.holds_ofString line
    rw [htokens, hcmd] at hline
    obtain ⟨hword, hfields⟩ := hline.getWord
    obtain ⟨_, hrest⟩ := hfields.getUnsigned htick hi0 hi1
    obtain ⟨hgetCount, _⟩ := hrest.getUnsigned hcount hn0 hn1
    rw [iterations_eq hword, hgetCount, Option.getD_some, groupsOn, htokens, List.length_cons,
      List.length_cons, List.length_cons, length_of_groupsShaped hgroups]
    omega
  · cases h

variable {Q : PriorityQueue DelayedLine DelayedLine.deliverAtMs}

namespace BaselineClient

/-- A line that is no command changes nothing. -/
theorem handleLine_of_head?_ne {line : List Char}
    (h : (tokens isSpace line).head? ≠ some ['S', 'S']) (nowMs : UInt64)
    (order : UMap.Traversal UInt32 BaselinePendingInput) (c : BaselineClient F Q) :
    c.handleLine line nowMs order = c := by
  rw [ne_eq, ← isSome_parseSnapshot_iff (F := F), Option.not_isSome_iff_eq_none] at h
  unfold handleLine
  rw [h]
  split <;> rfl

omit [FloatArith F] [FloatText F] in
/-- A snapshot leaves the records alone if they are stored. -/
theorem latest_eq_iff {players : List (PlayerState F)} {m : UMap UInt16 (PlayerState F)} :
    players.foldl (fun m p ↦ m.assign p.id p) m = m ↔
      ∀ id p, (players.filter fun q ↦ q.id = id).getLast? = some p → m.find? id = some p := by
  constructor
  · intro h id p hlast
    rw [← h, UMap.find?_foldl_assign, hlast]
    rfl
  · intro h
    apply UMap.ext_find?
    intro id
    rw [UMap.find?_foldl_assign]
    cases hlast : (players.filter fun q ↦ q.id = id).getLast? with
    | none => rfl
    | some p => exact (h id p hlast).symm

omit [FloatText F] in
/-- A snapshot leaves the pending inputs alone if none is acknowledged. -/
theorem pending_applySnapshot_eq_iff (tick : UInt32) (players : List (PlayerState F))
    (nowMs : UInt64) (order : UMap.Traversal UInt32 BaselinePendingInput)
    (c : BaselineClient F Q) : (c.applySnapshot tick players nowMs order).pending = c.pending ↔
      ∀ ack, ackOf c.myPid players = some ack → ∀ k, k ≤ ack → c.pending.find? k = none := by
  cases hack : ackOf c.myPid players with
  | none =>
    unfold applySnapshot
    dsimp only
    rw [hack]
    simp
  | some ack =>
    obtain ⟨_, hpending, _⟩ := BothClients.applySnapshot_spec tick players nowMs order c ack hack
    constructor
    · rintro hsame _ ⟨⟩ k hk
      have hfind := hpending k
      rwa [hsame, if_pos hk] at hfind
    · intro h
      apply UMap.ext_find?
      intro k
      rw [hpending]
      split
      · next hk => exact (h ack rfl k hk).symm
      · rfl

/-- A line is without effect exactly if what is parsed of it is known already, in no more
iterations than it has groups. -/
theorem spared_iff (line : List Char) (nowMs : UInt64)
    (order : UMap.Traversal UInt32 BaselinePendingInput) (c : BaselineClient F Q) :
    c.Spared line nowMs order ↔ ∀ tick players, parseSnapshot line = some (tick, players) →
      c.Knows tick players ∧ players.length ≤ groupsOn line := by
  unfold Spared iterations
  cases hparse : (parseSnapshot line : Option (UInt32 × List (PlayerState F))) with
  | none =>
    have hhead : (tokens isSpace line).head? ≠ some ['S', 'S'] := by
      rw [ne_eq, ← isSome_parseSnapshot_iff (F := F), hparse]
      exact Bool.false_ne_true
    rw [handleLine_of_head?_ne hhead]
    simp
  | some parsed =>
    obtain ⟨tick, players⟩ := parsed
    have hpending := pending_applySnapshot_eq_iff tick players nowMs order c
    obtain ⟨htick, hlatest⟩ := handleLine_stores hparse nowMs order c
    rw [← handleLine_of_parse hparse] at hpending
    dsimp only
    rw [htick, hlatest, latest_eq_iff, hpending]
    constructor
    · rintro ⟨⟨hrecords, hsame, hacks⟩, hcount⟩ _ _ ⟨⟩
      exact ⟨⟨hsame, hrecords, hacks⟩, hcount⟩
    · intro h
      obtain ⟨hknows, hcount⟩ := h tick players rfl
      exact ⟨⟨hknows.records, hknows.tick, hknows.acks⟩, hcount⟩

/-- A malformed line is without effect in every state exactly if its first token is not `SS`, and
in one state exactly if what is parsed of it is known there, in no more iterations than it has
groups. -/
theorem malformed_spared_iff (line : List Char) :
    ((wellShaped F line = false →
        ∀ (c : BaselineClient F Q) (nowMs : UInt64)
          (order : UMap.Traversal UInt32 BaselinePendingInput), c.Spared line nowMs order) ↔
      (wellShaped F line = false → (tokens isSpace line).head? ≠ some ['S', 'S'])) ∧
    ∀ (c : BaselineClient F Q) (nowMs : UInt64)
      (order : UMap.Traversal UInt32 BaselinePendingInput),
      (wellShaped F line = false → c.Spared line nowMs order) ↔
      (wellShaped F line = false → ∀ tick players, parseSnapshot line = some (tick, players) →
        c.Knows tick players ∧ players.length ≤ groupsOn line) := by
  refine ⟨⟨?_, ?_⟩, ?_⟩
  · intro h hshape hhead
    rw [← isSome_parseSnapshot_iff (F := F), Option.isSome_iff_exists] at hhead
    obtain ⟨⟨tick, players⟩, hparse⟩ := hhead
    -- A client that has seen another tick.
    let c : BaselineClient F Q := { init 0 (ofInt 0) with latestTick := tick + 1 }
    have hknown : tick = tick + 1 :=
      (((spared_iff line 0 bySeq c).mp (h hshape c 0 bySeq) tick players hparse).1).tick
    rw [← UInt32.add_zero tick, UInt32.add_assoc, UInt32.add_right_inj] at hknown
    cases hknown
  · intro h hshape c nowMs order
    rw [spared_iff]
    intro tick players hparse
    have hhead := h hshape
    rw [ne_eq, ← isSome_parseSnapshot_iff (F := F), hparse] at hhead
    exact absurd rfl hhead
  · intro c nowMs order
    rw [spared_iff]

end BaselineClient

end

/-- A client that has stored a snapshot with itself and waits for an acknowledgement. A line cut
within a coordinate moves the player, puts a player 0 on the screen and takes the tick; a line with
a field too many retires the input; and a line that ends after its count keeps the loop going. -/
theorem malformed_line_stored :
    letI := ratArith
    letI := ratText
    let c : BaselineClient Rat (.newestFirst DelayedLine.deliverAtMs) :=
      (BaselineClient.init 0 (0 : Rat)).run
        [.handshake "JA 1 1280 720\n".toList, .input 1 0 (0 : Rat) 0 0,
          .drain "SS 3 1 1 640 360 0 0 0\n".toList (fun _ ↦ (0 : Rat)) fun _ ↦ 0,
          .releaseIn (fun _ ↦ 0) (fun _ ↦ 0) fun _ ↦ bySeq]
    let after (line : String) := c.handleLine line.toList 0 bySeq
    let cut := "SS 6 2 1 64"
    let long := "SS 6 1 1 640 360 0 0 1 0"
    let endless := "SS 6 18446744073709551615"
    (wellShaped Rat cut.toList = false ∧ ¬ c.Spared cut.toList 0 bySeq) ∧
    ((c.latest.find? 1).map (fun p ↦ p.pos) = some ⟨640, 360⟩ ∧
      ((after cut).latest.find? 1).map (fun p ↦ p.pos) = some ⟨64, 0⟩ ∧
      ((after cut).latest.find? 0).isSome = true ∧ (after cut).latestTick = 6) ∧
    (wellShaped Rat long.toList = false ∧ c.pending.size = 1 ∧ (after long).pending.size = 0) ∧
    wellShaped Rat endless.toList = false ∧ groupsOn endless.toList = 0 ∧
      iterations Rat endless.toList = 18446744073709551615 := by
  let _ := ratArith
  let _ := ratText
  refine ⟨⟨?_, ?_⟩, ?_, ?_, ?_, ?_, ?_⟩
  · decide +kernel
  · intro h
    exact absurd h.1.2.1 (by decide +kernel)
  · decide +kernel
  · decide +kernel
  · decide +kernel
  · decide +kernel
  · rw [iterations_eq (by decide +kernel)]
    decide +kernel

end LightningLink.Baseline
