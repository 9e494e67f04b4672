import LightningLink.Baseline.Client
import LightningLink.Baseline.Exact
import LightningLink.Client.Client
import LightningLink.Support.Machine

/-!
# Retirement of acknowledged inputs

Library `Baseline`. Both clients remember when each input was sent, log a row for every
remembered input that a snapshot acknowledges, and forget it. They write the same rows as long
as neither map overflows; an overflow makes the optimized client drop its old inputs and the
baseline client all of them.
-/

namespace LightningLink.Baseline

open Support FloatOps FloatArith

/-- Sequence number, ack and round-trip time of a log row. -/
abbrev Row (F : Type) [FloatArith F] := UInt32 × UInt32 × Double F

/-- What happens to both clients at one clock reading. -/
inductive TimedEvent (F : Type) [FloatArith F]
  | input (mx my : Int8) (dt draw : Double F) (t : UInt64)
      (order : UMap.Traversal UInt32 (Cl.PendingInputSample F))
  | snapshot (ss : Cl.StampedSnapshot F) (line : List Char) (t : UInt64)
      (order : UMap.Traversal UInt32 (Cl.PendingInputSample F))
      (baselineOrder : UMap.Traversal UInt32 BaselinePendingInput)

/-- The two clients of one player. -/
structure BothClients (F : Type) [FloatArith F]
    (Q : PriorityQueue DelayedLine DelayedLine.deliverAtMs) where
  optimized : Cl.Client F
  baseline : BaselineClient F Q

namespace BothClients

variable {F : Type} [FloatArith F] {Q : PriorityQueue DelayedLine DelayedLine.deliverAtMs}

/-- Clients that have just taken the id `pid`. -/
def init (pid : UInt16) (disablePrediction disableInterpolation : Bool) (latency : Int)
    (lossProb : Double F) : BothClients F Q :=
  ⟨Cl.Client.init pid disablePrediction disableInterpolation,
    { BaselineClient.init latency lossProb with myPid := pid }⟩

/-- Rows in the log of the optimized client. -/
def rows (c : Cl.Client F) : List (Row F) :=
  c.inputLog.map fun r ↦ (r.inputSeq, r.ackSeq, r.rttMs)

/-- Rows in the log of the baseline client. -/
def baselineRows (c : BaselineClient F Q) : List (Row F) :=
  c.inputLog.map fun r ↦ (r.inputSeq, r.ackSeq, r.rttMs)

/-- Remembering one more input fills no map beyond its bound. -/
def Fits (b : BothClients F Q) : TimedEvent F → Prop
  | .input _ _ _ _ t _ =>
    (b.baseline.pending.assign b.baseline.nextSeq ⟨b.baseline.nextSeq, t⟩).size ≤ 256
  | .snapshot .. => True

instance (b : BothClients F Q) (ev : TimedEvent F) : Decidable (b.Fits ev) := by
  cases ev <;> unfold Fits <;> infer_instance

variable [FloatText F]

/-- A snapshot and the line read for it carry the same ack for the local player. -/
def Carries (b : BothClients F Q) : TimedEvent F → Prop
  | .input .. => True
  | .snapshot ss line _ _ _ => ∃ ack tick players,
      ackOf b.optimized.myPid ss.snap.players = some ack ∧
      parseSnapshot line = some (tick, players) ∧
      ackOf b.baseline.myPid (players : List (PlayerState F)) = some ack

/-- One event for each client. -/
def step (b : BothClients F Q) : TimedEvent F → BothClients F Q
  | .input mx my dt draw t order =>
    ⟨b.optimized.step (.input mx my dt t order), b.baseline.sendInput mx my draw t t⟩
  | .snapshot ss line t order baselineOrder =>
    ⟨b.optimized.step (.snapshot ss t order), b.baseline.handleLine line t baselineOrder⟩

/-- Clients after a finite run. -/
def run (b : BothClients F Q) (evs : List (TimedEvent F)) : BothClients F Q := evs.foldl step b

/-- Clients after one more event. -/
theorem run_concat (b : BothClients F Q) (evs : List (TimedEvent F)) (ev : TimedEvent F) :
    b.run (evs ++ [ev]) = (b.run evs).step ev := by
  rw [run, List.foldl_append]
  rfl

/-! ### What a snapshot retires -/

section Retired

omit [FloatText F]

/-- Row of an input sent at `e.2` and acknowledged by `ack` at `t`. -/
def rowOf (ack : UInt32) (t : UInt64) (e : UInt32 × UInt64) : Row F :=
  (e.1, ack, ofInt (t - e.2).toNat)

/-- Rows of the remembered inputs that are acknowledged. -/
def retired (ack : UInt32) (t : UInt64) (es : List (UInt32 × UInt64)) : List (Row F) :=
  (es.filter fun e ↦ e.1 ≤ ack).map (rowOf ack t)

/-- One loop over the remembered inputs, which logs and forgets an acknowledged one: what it has
logged and forgotten at its end. `P` is what the loop leaves alone. -/
theorem foldl_retires {C V : Type} {visit : C → UInt32 × V → C} {log : C → List (Row F)}
    {pending : C → UMap UInt32 V} {time : V → UInt64} {ack : UInt32} {t : UInt64} {P : C → Prop}
    (hvisit : ∀ c e, P c → P (visit c e) ∧
      log (visit c e) = log c ++ retired ack t [(e.1, time e.2)] ∧
      pending (visit c e) = if e.1 ≤ ack then (pending c).erase e.1 else pending c)
    (es : List (UInt32 × V)) (c : C) (h : P c) :
    log (es.foldl visit c) = log c ++ retired ack t (es.map fun e ↦ (e.1, time e.2)) ∧
      pending (es.foldl visit c) =
        ((es.filter fun e ↦ e.1 ≤ ack).map Prod.fst).foldl UMap.erase (pending c) := by
  induction es generalizing c with
  | nil => exact ⟨(List.append_nil _).symm, rfl⟩
  | cons e es ih =>
    obtain ⟨hkept, hlog, hpending⟩ := hvisit c e h
    obtain ⟨hlogs, hpendings⟩ := ih (visit c e) hkept
    rw [List.foldl_cons, hlogs, hpendings, hlog, hpending, List.append_assoc]
    by_cases he : e.1 ≤ ack
    · simp [he, retired]
    · simp [he, retired]

/-- The optimized client logs and forgets the acknowledged inputs it visits. -/
theorem foldl_matchPending_spec (t : UInt64) (es : List (UInt32 × Cl.PendingInputSample F))
    (c : Cl.Client F) :
    let c' := es.foldl (Cl.Client.matchPending t) c
    rows c' = rows c ++ retired c.lastAckSeq t (es.map fun e ↦ (e.1, e.2.sendMs)) ∧
      c'.pending = ((es.filter fun e ↦ e.1 ≤ c.lastAckSeq).map Prod.fst).foldl UMap.erase c.pending := by
  apply foldl_retires (P := fun c' : Cl.Client F ↦ c'.lastAckSeq = c.lastAckSeq)
  · intro c' e hack
    unfold Cl.Client.matchPending
    rw [hack]
    by_cases he : e.1 ≤ c.lastAckSeq <;> simp [he, hack, rows, retired, rowOf]
  · rfl

/-- The baseline client does the same. -/
theorem foldl_retire_spec (ack : UInt32) (t : UInt64) (es : List (UInt32 × BaselinePendingInput))
    (c : BaselineClient F Q) :
    let c' := es.foldl (BaselineClient.retire ack t) c
    baselineRows c' = baselineRows c ++ retired ack t (es.map fun e ↦ (e.1, e.2.sendMs)) ∧
      c'.pending = ((es.filter fun e ↦ e.1 ≤ ack).map Prod.fst).foldl UMap.erase c.pending := by
  apply foldl_retires (P := fun _ : BaselineClient F Q ↦ True)
  · intro c' e _
    unfold BaselineClient.retire
    by_cases he : e.1 ≤ ack <;> simp [he, baselineRows, retired, rowOf]
  · trivial

/-- Erasing the acknowledged keys of an enumeration. -/
theorem find?_erase_acked {V : Type} {es : List (UInt32 × V)} {m : UMap UInt32 V}
    (h : UMap.Enumerates es m) (ack k : UInt32) :
    (((es.filter fun e ↦ e.1 ≤ ack).map Prod.fst).foldl UMap.erase m).find? k =
      if k ≤ ack then none else m.find? k := by
  rw [UMap.find?_foldl_erase]
  have hmem : k ∈ (es.filter fun e ↦ e.1 ≤ ack).map Prod.fst ↔
      k ≤ ack ∧ (m.find? k).isSome = true := by
    rw [← h.mem_keys]
    simp only [List.mem_map, List.mem_filter, decide_eq_true_eq]
    constructor
    · rintro ⟨e, ⟨he, hle⟩, rfl⟩
      exact ⟨hle, e, he, rfl⟩
    · rintro ⟨hle, e, he, rfl⟩
      exact ⟨e, ⟨he, hle⟩, rfl⟩
  by_cases hk : k ≤ ack
  · rw [if_pos hk]
    split
    · rfl
    · next hn =>
      rw [hmem, not_and] at hn
      exact Option.not_isSome_iff_eq_none.mp (hn hk)
  · rw [if_neg hk, if_neg fun hn ↦ hk (hmem.mp hn).1]

/-- Maps with the same send times are enumerated with the same send times. -/
theorem perm_times {V W : Type} {es : List (UInt32 × V)} {fs : List (UInt32 × W)}
    {m : UMap UInt32 V} {n : UMap UInt32 W} (timeV : V → UInt64) (timeW : W → UInt64)
    (hes : UMap.Enumerates es m) (hfs : UMap.Enumerates fs n)
    (h : ∀ k, (m.find? k).map timeV = (n.find? k).map timeW) :
    (es.map fun e ↦ (e.1, timeV e.2)).Perm (fs.map fun e ↦ (e.1, timeW e.2)) := by
  have hnodup : ∀ {U : Type} {us : List (UInt32 × U)} {l : UMap UInt32 U} (time : U → UInt64),
      UMap.Enumerates us l → (us.map fun e ↦ (e.1, time e.2)).Nodup := by
    intro U us l time hus
    apply List.Nodup.of_map Prod.fst
    rw [List.map_map]
    exact hus.1
  have hmem : ∀ {U : Type} {us : List (UInt32 × U)} {l : UMap UInt32 U} (time : U → UInt64),
      UMap.Enumerates us l → ∀ k t, (k, t) ∈ us.map (fun e ↦ (e.1, time e.2)) ↔
        (l.find? k).map time = some t := by
    intro U us l time hus k t
    simp [hus.2, Option.map_eq_some_iff]
  rw [List.perm_ext_iff_of_nodup (hnodup timeV hes) (hnodup timeW hfs)]
  rintro ⟨k, t⟩
  rw [hmem timeV hes, hmem timeW hfs, h]

omit [FloatArith F] in
/-- The record stored for a player after a snapshot carries the ack of the last record. -/
theorem find?_foldl_assign_ack (pid : UInt16) (ps : List (PlayerState F))
    (m : UMap UInt16 (PlayerState F)) (old : Option UInt32) (ack : UInt32)
    (hold : old = none ∨ (m.find? pid).map (fun p ↦ p.lastProcessedInputSeq) = old)
    (h : ps.foldl (fun ack p ↦ if p.id = pid then some p.lastProcessedInputSeq else ack) old =
      some ack) :
    ((ps.foldl (fun m p ↦ m.assign p.id p) m).find? pid).map (fun p ↦ p.lastProcessedInputSeq) =
      some ack := by
  induction ps generalizing m old with
  | nil =>
    rw [List.foldl_nil] at h ⊢
    rcases hold with hold | hold
    · rw [hold] at h
      cases h
    · rw [hold, h]
  | cons p ps ih =>
    rw [List.foldl_cons] at h ⊢
    apply ih _ _ _ h
    by_cases hp : p.id = pid
    · right
      simp [UMap.find?_assign, hp]
    · simpa [UMap.find?_assign, hp, Ne.symm hp] using hold

/-- A snapshot retires what the record acknowledges that is then stored for the local player. -/
theorem drainSnapshot_retires (ss : Cl.StampedSnapshot F) (t : UInt64)
    (order : UMap.Traversal UInt32 (Cl.PendingInputSample F)) (c : Cl.Client F) :
    let c' := c.drainSnapshot ss t order
    match (c.store ss).latestAuthoritative.find? c.myPid with
    | none => rows c' = rows c ∧ c'.pending = c.pending
    | some auth =>
      rows c' = rows c ++ retired auth.lastProcessedInputSeq t
          ((order.order c.pending).map fun e ↦ (e.1, e.2.sendMs)) ∧
        ∀ k, c'.pending.find? k =
          if k ≤ auth.lastProcessedInputSeq then none else c.pending.find? k := by
  dsimp only
  rw [Cl.Client.drainSnapshot_eq]
  cases (c.store ss).latestAuthoritative.find? c.myPid with
  | none => exact ⟨rfl, rfl⟩
  | some auth =>
    unfold Cl.Client.reconcileLocal
    dsimp only
    refine ⟨(foldl_matchPending_spec t _ _).1, fun k ↦ ?_⟩
    rw [(foldl_matchPending_spec t _ _).2]
    exact find?_erase_acked (order.enumerates c.pending) _ k

/-- What a snapshot with the local player's record changes in the optimized client. -/
theorem drainSnapshot_spec (ss : Cl.StampedSnapshot F) (t : UInt64)
    (order : UMap.Traversal UInt32 (Cl.PendingInputSample F)) (c : Cl.Client F) (ack : UInt32)
    (h : ackOf c.myPid ss.snap.players = some ack) :
    let c' := c.drainSnapshot ss t order
    rows c' = rows c ++ retired ack t ((order.order c.pending).map fun e ↦ (e.1, e.2.sendMs)) ∧
      ∀ k, c'.pending.find? k = if k ≤ ack then none else c.pending.find? k := by
  have hretires := drainSnapshot_retires ss t order c
  have hack := find?_foldl_assign_ack c.myPid ss.snap.players c.latestAuthoritative none ack
    (.inl rfl) h
  obtain ⟨auth, hauth, rfl⟩ := Option.map_eq_some_iff.mp hack
  rw [show (c.store ss).latestAuthoritative.find? c.myPid = some auth from hauth] at hretires
  exact hretires

/-- What it changes in the baseline client. -/
theorem applySnapshot_spec (tick : UInt32) (players : List (PlayerState F)) (t : UInt64)
    (order : UMap.Traversal UInt32 BaselinePendingInput) (c : BaselineClient F Q) (ack : UInt32)
    (h : ackOf c.myPid players = some ack) :
    let c' := c.applySnapshot tick players t order
    baselineRows c' =
        baselineRows c ++ retired ack t ((order.order c.pending).map fun e ↦ (e.1, e.2.sendMs)) ∧
      (∀ k, c'.pending.find? k = if k ≤ ack then none else c.pending.find? k) ∧
      c'.myPid = c.myPid ∧ c'.nextSeq = c.nextSeq := by
  unfold BaselineClient.applySnapshot
  dsimp only
  rw [h]
  dsimp only
  let c₁ : BaselineClient F Q := { c with
    latestTick := tick
    latest := players.foldl (fun m p ↦ m.assign p.id p) c.latest }
  obtain ⟨hrows, hpending⟩ := foldl_retire_spec ack t (order.order c.pending) c₁
  obtain ⟨delay, log, pending, hframe⟩ :=
    BaselineClient.foldl_retire ack t (order.order c.pending) c₁
  refine ⟨hrows, fun k ↦ ?_, ?_⟩
  · rw [hpending]
    exact find?_erase_acked (order.enumerates c.pending) ack k
  · rw [hframe]
    exact ⟨rfl, rfl⟩

/-! ### Agreement -/

/-- Both clients are the same player, give the next input the same number, remember the same
inputs with the same times, and have written the same rows. -/
structure Agree (b : BothClients F Q) : Prop where
  pid : b.optimized.myPid = b.baseline.myPid
  seq : b.optimized.predictor.nextSeq = b.baseline.nextSeq
  pending : ∀ k, (b.optimized.pending.find? k).map (fun e ↦ e.sendMs) =
    (b.baseline.pending.find? k).map (fun e ↦ e.sendMs)
  rows : (rows b.optimized).Perm (baselineRows b.baseline)

/-- Clients that have just joined agree. -/
theorem agree_init (pid : UInt16) (noPrediction noInterpolation : Bool) (latency : Int)
    (lossProb : Double F) :
    Agree (init pid noPrediction noInterpolation latency lossProb : BothClients F Q) where
  pid := rfl
  seq := rfl
  pending _ := rfl
  rows := .nil

/-- An input that is remembered like the other one of the same number and time. -/
theorem map_find?_assign {V W : Type} {m : UMap UInt32 V} {n : UMap UInt32 W}
    (timeV : V → UInt64) (timeW : W → UInt64)
    (h : ∀ k, (m.find? k).map timeV = (n.find? k).map timeW) (seq : UInt32) {v : V} {w : W}
    (ht : timeV v = timeW w) (k : UInt32) :
    ((m.assign seq v).find? k).map timeV = ((n.assign seq w).find? k).map timeW := by
  rw [UMap.find?_assign, UMap.find?_assign]
  split
  · simp [ht]
  · exact h k

/-- What an input changes in the optimized client: it is remembered, and the bound applied. -/
theorem optimized_input (mx my : Int8) (dt : Double F) (t : UInt64)
    (order : UMap.Traversal UInt32 (Cl.PendingInputSample F)) (c : Cl.Client F) :
    let c' := (c.sendInput mx my dt t order).1
    c'.pending = Cl.Client.boundPending t order
        (c.pending.assign c.predictor.nextSeq ⟨c.predictor.nextSeq, t, c'.localPos⟩) ∧
      c'.inputLog = c.inputLog := by
  unfold Cl.Client.sendInput
  dsimp only
  split <;> exact ⟨rfl, rfl⟩

end Retired

/-- Both clients apply a snapshot with the same ack. -/
theorem step_snapshot {b : BothClients F Q} {ss : Cl.StampedSnapshot F} {line : List Char}
    {t : UInt64} {order : UMap.Traversal UInt32 (Cl.PendingInputSample F)}
    {baselineOrder : UMap.Traversal UInt32 BaselinePendingInput}
    (h : b.Carries (.snapshot ss line t order baselineOrder)) : ∃ ack tick players,
      ackOf b.optimized.myPid ss.snap.players = some ack ∧
      ackOf b.baseline.myPid (players : List (PlayerState F)) = some ack ∧
      b.step (.snapshot ss line t order baselineOrder) =
        ⟨b.optimized.drainSnapshot ss t order,
          b.baseline.applySnapshot tick players t baselineOrder⟩ := by
  obtain ⟨ack, tick, players, hack, hparse, hbaseline⟩ := h
  refine ⟨ack, tick, players, hack, hbaseline, ?_⟩
  rw [BothClients.step, BaselineClient.handleLine_of_parse hparse]
  rfl

/-- An event keeps the agreement unless it overflows the maps. -/
theorem Agree.step {b : BothClients F Q} (h : Agree b) (ev : TimedEvent F) (hfits : b.Fits ev)
    (hcarries : b.Carries ev) : Agree (b.step ev) := by
  cases ev with
  | input mx my dt draw t order =>
    obtain ⟨hpending, hlog⟩ := optimized_input mx my dt t order b.optimized
    generalize (b.optimized.sendInput mx my dt t order).1.localPos = pos at hpending
    obtain ⟨_, hpid, hseq⟩ := Cl.Client.sendInput_spec mx my dt t order b.optimized
    have htimes := map_find?_assign _ _ h.pending b.baseline.nextSeq
      (v := ⟨b.baseline.nextSeq, t, pos⟩) (w := ⟨b.baseline.nextSeq, t⟩) rfl
    have hsize : (b.optimized.pending.assign b.baseline.nextSeq
        ⟨b.baseline.nextSeq, t, pos⟩).size ≤ 256 := by
      apply le_of_eq_of_le _ hfits
      apply UMap.size_eq_of_isSome
      intro k
      rw [← Option.isSome_map, htimes, Option.isSome_map]
    constructor
    · exact hpid.trans h.pid
    · exact hseq.trans (congrArg (· + 1) h.seq)
    · intro k
      change (((b.optimized.sendInput mx my dt t order).1.pending).find? k).map _ =
        ((BaselineClient.addPending b.baseline.nextSeq t b.baseline.pending).find? k).map _
      rw [hpending, h.seq, Cl.Client.boundPending, if_neg (Nat.not_lt.mpr hsize),
        BaselineClient.addPending_of_le hfits]
      exact htimes k
    · change (BothClients.rows (b.optimized.sendInput mx my dt t order).1).Perm
        (baselineRows b.baseline)
      rw [BothClients.rows, hlog]
      exact h.rows
  | snapshot ss line t order baselineOrder =>
    obtain ⟨ack, tick, players, hack, hbaseline, hstep⟩ := step_snapshot hcarries
    obtain ⟨hrows, hpending⟩ := drainSnapshot_spec ss t order b.optimized ack hack
    obtain ⟨hrows', hpending', hpid', hseq'⟩ :=
      applySnapshot_spec tick players t baselineOrder b.baseline ack hbaseline
    obtain ⟨hpid, hpredictor⟩ := Cl.Client.drainSnapshot_frame ss t order b.optimized
    rw [hstep]
    constructor
    · exact hpid.trans (h.pid.trans hpid'.symm)
    · exact (congrArg (·.nextSeq) hpredictor).trans (h.seq.trans hseq'.symm)
    · intro k
      dsimp only
      rw [hpending, hpending']
      split
      · rfl
      · exact h.pending k
    · dsimp only
      rw [hrows, hrows']
      apply h.rows.append
      exact ((perm_times _ _ (order.enumerates _) (baselineOrder.enumerates _)
        h.pending).filter _).map _

/-- In every run of inputs and of snapshots with the local player, read with the same ack by
both clients, in which no input overflows the remembered ones, both clients write the same
rows. -/
theorem rows_perm_of_fits (pid : UInt16) (noPrediction noInterpolation : Bool) (latency : Int)
    (lossProb : Double F) (evs : List (TimedEvent F)) :
    let start : BothClients F Q := init pid noPrediction noInterpolation latency lossProb
    EveryStep (fun past ev ↦ (start.run past).Carries ev) evs →
    EveryStep (fun past ev ↦ (start.run past).Fits ev) evs →
    (rows (start.run evs).optimized).Perm (baselineRows (start.run evs).baseline) := by
  intro start hcarries hfits
  have hagree : Agree (start.run evs) := by
    apply (hcarries.and hfits).invariant
      (agree_init pid noPrediction noInterpolation latency lossProb)
    intro past ev h hpast
    exact hpast.step ev h.2 h.1
  exact hagree.rows

/-- A run of two inputs and of a snapshot that acknowledges the first. -/
theorem rows_perm_of_fits_two :
    letI := ratArith
    letI := ratText
    let evs : List (TimedEvent Rat) := [
      .input 1 0 (0 : Rat) (0 : Rat) 1000 bySeq,
      .input 0 1 (0 : Rat) (0 : Rat) 1017 bySeq,
      .snapshot ⟨⟨3, [⟨1, ⟨640, 360⟩, ⟨0, 0⟩, 1⟩]⟩, 1100⟩ (middleLine 1) 1100 bySeq bySeq]
    let start : BothClients Rat (.newestFirst DelayedLine.deliverAtMs) :=
      init 1 false false 0 (0 : Rat)
    (rows (start.run evs).optimized).Perm (baselineRows (start.run evs).baseline) := by
  let _ := ratArith
  let _ := ratText
  refine rows_perm_of_fits (F := Rat) (Q := .newestFirst DelayedLine.deliverAtMs)
    1 false false 0 (0 : Rat) _ ?_ ?_
  · exact .cons trivial (.cons trivial (.cons ⟨1, 3, _, by decide +kernel, rfl, by decide +kernel⟩
      .nil))
  · exact .cons (by decide +kernel) (.cons (by decide +kernel) (.cons trivial .nil))

/-! ### What an overflow loses -/

omit [FloatArith F] [FloatText F] in
/-- The bound keeps an input that was just sent. -/
theorem find?_boundPending {m : UMap UInt32 (Cl.PendingInputSample F)} {seq : UInt32}
    {e : Cl.PendingInputSample F} (h : m.find? seq = some e)
    (order : UMap.Traversal UInt32 (Cl.PendingInputSample F)) :
    (Cl.Client.boundPending e.sendMs order m).find? seq = some e := by
  unfold Cl.Client.boundPending
  split
  · rw [(order.enumerates m).find?_foldl_eraseIf
      (fun e' ↦ Cl.pendingStaleMs < e.sendMs - e'.sendMs), h, Option.filter_some, UInt64.sub_self]
    rfl
  · exact h

/-- An input that overflows the maps is remembered by the optimized client only. -/
theorem step_overflow {b : BothClients F Q} (h : Agree b) (mx my : Int8)
    (dt draw : Double F) (t : UInt64) (order : UMap.Traversal UInt32 (Cl.PendingInputSample F))
    (hover : ¬b.Fits (.input mx my dt draw t order)) :
    let b' := b.step (.input mx my dt draw t order)
    (∃ e, b'.optimized.pending.find? b.baseline.nextSeq = some e) ∧
      b'.baseline.pending = UMap.empty ∧ baselineRows b'.baseline = baselineRows b.baseline ∧
      b'.optimized.myPid = b.optimized.myPid ∧ b'.baseline.myPid = b.baseline.myPid := by
  obtain ⟨hpending, _⟩ := optimized_input mx my dt t order b.optimized
  generalize (b.optimized.sendInput mx my dt t order).1.localPos = pos at hpending
  obtain ⟨_, hpid, _⟩ := Cl.Client.sendInput_spec mx my dt t order b.optimized
  refine ⟨⟨⟨b.baseline.nextSeq, t, pos⟩, ?_⟩, ?_, rfl, hpid, rfl⟩
  · change (b.optimized.sendInput mx my dt t order).1.pending.find? _ = _
    rw [hpending, h.seq]
    have hnew : (b.optimized.pending.assign b.baseline.nextSeq
        (⟨b.baseline.nextSeq, t, pos⟩ : Cl.PendingInputSample F)).find? b.baseline.nextSeq =
        some ⟨b.baseline.nextSeq, t, pos⟩ := by
      rw [UMap.find?_assign, if_pos rfl]
    exact find?_boundPending hnew order
  · exact BaselineClient.addPending_of_lt (Nat.not_le.mp hover)

/-- A snapshot that acknowledges an input which only the optimized client remembers: only this
client writes a row. -/
theorem step_lost {b : BothClients F Q} {seq ack : UInt32} {e : Cl.PendingInputSample F}
    (hkept : b.optimized.pending.find? seq = some e) (hcleared : b.baseline.pending = UMap.empty)
    (ss : Cl.StampedSnapshot F) (line : List Char) (t : UInt64)
    (order : UMap.Traversal UInt32 (Cl.PendingInputSample F))
    (baselineOrder : UMap.Traversal UInt32 BaselinePendingInput)
    (hack : ackOf b.optimized.myPid ss.snap.players = some ack) (hle : seq ≤ ack)
    (hcarries : b.Carries (.snapshot ss line t order baselineOrder)) :
    let b' := b.step (.snapshot ss line t order baselineOrder)
    (∃ r ∈ rows b'.optimized, r.1 = seq) ∧ baselineRows b'.baseline = baselineRows b.baseline := by
  obtain ⟨ack', tick, players, hack', hbaseline, hstep⟩ := step_snapshot hcarries
  obtain rfl : ack = ack' := Option.some.inj (hack.symm.trans hack')
  rw [hstep]
  constructor
  · dsimp only
    rw [(drainSnapshot_spec ss t order b.optimized ack hack).1]
    refine ⟨rowOf ack t (seq, e.sendMs), List.mem_append_right _ ?_, rfl⟩
    apply List.mem_map_of_mem
    simp only [List.mem_filter, List.mem_map, decide_eq_true_eq]
    exact ⟨⟨_, ((order.enumerates _).2 _ _).mpr hkept, rfl⟩, hle⟩
  · dsimp only
    rw [(applySnapshot_spec tick players t baselineOrder b.baseline ack hbaseline).1, hcleared]
    have hnone : baselineOrder.order UMap.empty = [] :=
      List.length_eq_zero_iff.mp (baselineOrder.enumerates UMap.empty).length_eq
    rw [hnone]
    exact List.append_nil _

/-- Inputs sent at the given times by a player that stands still. -/
def standing (times : List UInt64) : List (TimedEvent F) :=
  times.map fun t ↦ .input 0 0 (ofInt 0) (ofInt 0) t bySeq

omit [FloatText F] in
/-- One more input. -/
theorem standing_concat (times : List UInt64) (t : UInt64) : (standing (times ++ [t]) :
    List (TimedEvent F)) = standing times ++ [.input 0 0 (ofInt 0) (ofInt 0) t bySeq] :=
  List.map_append

/-- Both clients remember the first `n` inputs, none of which is acknowledged. -/
structure Outage (b : BothClients F Q) (pid : UInt16) (n : Nat) : Prop where
  agree : Agree b
  size : b.baseline.pending.size = n
  nextSeq : b.baseline.nextSeq = UInt32.ofNat (n + 1)
  keys : ∀ k, (b.baseline.pending.find? k).isSome = true → k.toNat ≤ n
  rows : baselineRows b.baseline = []
  pid : b.optimized.myPid = pid

namespace Outage

variable {b : BothClients F Q} {pid : UInt16} {n : Nat}

omit [FloatText F] in
/-- The next number is not remembered. -/
theorem fresh (h : Outage b pid n) (hn : n ≤ 256) :
    b.baseline.pending.find? b.baseline.nextSeq = none := by
  rw [← Option.not_isSome_iff_eq_none]
  intro hs
  have hle := h.keys _ hs
  rw [h.nextSeq, UInt32.toNat_ofNat', Nat.mod_eq_of_lt (by omega)] at hle
  omega

omit [FloatText F] in
/-- One more input fits as long as there are fewer than 256. -/
theorem fits_iff (h : Outage b pid n) (hn : n ≤ 256) (t : UInt64) :
    b.Fits (.input 0 0 (ofInt 0) (ofInt 0) t bySeq) ↔ n < 256 := by
  change (b.baseline.pending.assign b.baseline.nextSeq ⟨b.baseline.nextSeq, t⟩).size ≤ 256 ↔ _
  rw [UMap.size_assign_of_none (h.fresh hn), h.size]
  omega

/-- It is remembered too. -/
theorem input (h : Outage b pid n) (hn : n < 256) (t : UInt64) :
    Outage (b.step (.input 0 0 (ofInt 0) (ofInt 0) t bySeq)) pid (n + 1) := by
  have hfits := (h.fits_iff hn.le t).mpr hn
  have hpending : (b.step (.input 0 0 (ofInt 0) (ofInt 0) t bySeq)).baseline.pending =
      b.baseline.pending.assign b.baseline.nextSeq ⟨b.baseline.nextSeq, t⟩ :=
    BaselineClient.addPending_of_le hfits
  constructor
  · exact h.agree.step _ hfits trivial
  · rw [hpending, UMap.size_assign_of_none (h.fresh hn.le), h.size]
  · change b.baseline.nextSeq + 1 = _
    rw [h.nextSeq, UInt32.ofNat_add (n + 1) 1]
    rfl
  · intro k
    rw [hpending, UMap.find?_assign]
    split
    · next hk =>
      rw [hk, h.nextSeq, UInt32.toNat_ofNat', Nat.mod_eq_of_lt (by omega)]
      exact fun _ ↦ le_rfl
    · exact fun hs ↦ Nat.le_succ_of_le (h.keys k hs)
  · exact h.rows
  · exact (Cl.Client.sendInput_spec 0 0 _ t bySeq b.optimized).2.1.trans h.pid

end Outage

/-- As many inputs as the maps hold are all remembered. -/
theorem outage_standing (pid : UInt16) (latency : Int) (lossProb : Double F)
    (times : List UInt64) (hle : times.length ≤ 256) :
    Outage ((init pid false false latency lossProb : BothClients F Q).run (standing times)) pid
      times.length := by
  induction times using List.reverseRecOn with
  | nil =>
    constructor
    · exact agree_init pid false false latency lossProb
    · rfl
    · rfl
    · simp [standing, run, init, BaselineClient.init]
    · rfl
    · rfl
  | append_singleton times t ih =>
    rw [List.length_append, List.length_singleton] at hle ⊢
    rw [standing_concat, run_concat]
    exact (ih (by omega)).input (by omega) t

/-- A snapshot that both clients read with the same ack. -/
def ReadBy (pid : UInt16) (ack : UInt32) (ss : Cl.StampedSnapshot F) (line : List Char) : Prop :=
  ackOf pid ss.snap.players = some ack ∧ ∃ tick players, parseSnapshot line = some (tick, players) ∧
    ackOf pid (players : List (PlayerState F)) = some ack

/-- One input too many without an ack, whatever the times: when the ack comes only the
optimized client logs the last input. -/
theorem row_lost_of_outage (pid : UInt16) (latency : Int) (lossProb : Double F)
    (times : List UInt64) (hlen : times.length = 256) (t : UInt64) (ss : Cl.StampedSnapshot F)
    (line : List Char) (ack : UInt32) (hread : ReadBy pid ack ss line) (hack : 257 ≤ ack)
    (t' : UInt64) :
    let start : BothClients F Q := init pid false false latency lossProb
    let evs := standing (times ++ [t]) ++ [.snapshot ss line t' bySeq bySeq]
    EveryStep (fun past ev ↦ (start.run past).Carries ev) evs ∧
      ∃ r ∈ rows (start.run evs).optimized, r ∉ baselineRows (start.run evs).baseline := by
  intro start evs
  have h : Outage (start.run (standing times)) pid times.length :=
    outage_standing pid latency lossProb times hlen.le
  have hover : ¬(start.run (standing times)).Fits (.input 0 0 (ofInt 0) (ofInt 0) t bySeq) := by
    rw [h.fits_iff hlen.le, hlen]
    exact Nat.lt_irrefl 256
  obtain ⟨⟨e, hkept⟩, hcleared, hrows, hpid, hbpid⟩ :=
    step_overflow h.agree 0 0 _ _ t bySeq hover
  rw [← run_concat, ← standing_concat] at hkept hcleared hrows hpid hbpid
  obtain ⟨hopt, tick, players, hparse, hbase⟩ := hread
  rw [h.pid] at hpid
  have hcarries : (start.run (standing (times ++ [t]))).Carries
      (.snapshot ss line t' bySeq bySeq) := by
    refine ⟨ack, tick, players, by rw [hpid, hopt], hparse, ?_⟩
    rw [hbpid, ← h.agree.pid, h.pid, hbase]
  have hinputs : ∀ times : List UInt64,
      EveryStep (fun past ev ↦ (start.run past).Carries ev) (standing times) := by
    intro times past ev hp
    obtain ⟨t, _, rfl⟩ := List.mem_map.mp (hp.subset (List.mem_append_right _ (.head _)))
    trivial
  refine ⟨(hinputs _).concat hcarries, ?_⟩
  obtain ⟨⟨r, hr, _⟩, hnone⟩ := step_lost hkept hcleared ss line t' bySeq bySeq
    (by rw [hpid, hopt]) (by rw [h.nextSeq, hlen]; exact hack) hcarries
  rw [run_concat]
  refine ⟨r, hr, ?_⟩
  rw [hnone, hrows, h.rows]
  exact List.not_mem_nil

/-- The 257th input without an ack, at 60 inputs a second: the baseline client forgets all
inputs. When the ack comes only the optimized client logs the last inputs. -/
theorem rows_differ_of_overflow :
    letI := ratArith
    letI := ratText
    let start : BothClients Rat (.newestFirst DelayedLine.deliverAtMs) :=
      init 1 false false 0 (0 : Rat)
    let times : List UInt64 := (List.range 256).map fun i ↦ 1000 + 17 * UInt64.ofNat i
    let evs : List (TimedEvent Rat) := standing (times ++ [5352]) ++
      [.snapshot ⟨⟨3, [⟨1, ⟨640, 360⟩, ⟨0, 0⟩, 257⟩]⟩, 5400⟩ (middleLine 257) 5400 bySeq bySeq]
    EveryStep (fun past ev ↦ (start.run past).Carries ev) evs ∧
      ∃ r ∈ rows (start.run evs).optimized, r ∉ baselineRows (start.run evs).baseline := by
  let _ := ratArith
  let _ := ratText
  intro start times evs
  exact row_lost_of_outage (F := Rat) 1 0 (0 : Rat) times (by simp [times]) 5352 _
    (middleLine 257) 257 ⟨rfl, 3, _, rfl, by decide +kernel⟩ (by decide) 5400

end BothClients
end LightningLink.Baseline
