import LightningLink.Client.Client
import LightningLink.Common.Pacing

/-!
# Main loop of the optimized client

Library `Client`. Models the loop of `client/client.cpp:171–304` over its parts: key presses,
the snapshots of the queue, pruning, and the input step at its rate. `wall_time_ms` truncates
the clock that paces the loop. No acknowledgement is needed to bound the pending inputs, since
the pacing bounds how many inputs the last two seconds hold.
-/

namespace LightningLink.Cl

open Support Proto FloatArith

/-- Reading of the clock in nanoseconds, within the 64 bits of its representation. -/
structure ClockReading where
  ns : Int
  lower : -2 ^ 63 ≤ ns
  upper : ns < 2 ^ 63

/-- `wall_time_ms`; `common/logging.cpp:8–12`. `duration_cast` truncates. -/
def wallTimeMs (t : ClockReading) : UInt64 := UInt64.ofInt (t.ns.tdiv 1000000)

/-- What an iteration of `run_optimized_client` receives and reads. -/
structure Turn (F : Type) [FloatArith F] where
  now : ClockReading
  /-- Presses of the F3 key. -/
  presses : Nat
  /-- Snapshots that the drain loop pops, with the reading that matches the pending inputs. -/
  popped : List (StampedSnapshot F × ClockReading × UMap.Traversal UInt32 (PendingInputSample F))
  prunedAt : ClockReading
  pruneOrder : UMap.Traversal UInt16 (List (InterpSample F))
  mx : Int8
  my : Int8
  dt : Double F
  /-- Reading that stamps the input. -/
  sentAt : ClockReading
  /-- Reading that bounds the pending inputs. -/
  boundedAt : ClockReading
  boundOrder : UMap.Traversal UInt32 (PendingInputSample F)
  now_le : now.ns ≤ sentAt.ns
  sentAt_le : sentAt.ns ≤ boundedAt.ns

variable {F : Type} [FloatArith F]

/-- Events of an iteration before its input step. -/
def Turn.events (a : Turn F) : List (Event F) :=
  List.replicate a.presses .togglePrediction ++
    a.popped.map (fun d ↦ .snapshot d.1 (wallTimeMs d.2.1) d.2.2) ++
    [.prune (wallTimeMs a.prunedAt) a.pruneOrder]

/-- Each iteration reads the clock after those before it. -/
def Clocked (as : List (Turn F)) : Prop := as.Pairwise fun a b ↦ a.boundedAt.ns ≤ b.now.ns

namespace Client

/-- Predict an input, send it and remember it, with a reading of the clock for its stamp and one
for the bound: the client after it and the packet sent; `client/client.cpp:265–299`. -/
def sendInputAt (mx my : Int8) (dt : Double F) (sendMs nowMs : UInt64)
    (order : UMap.Traversal UInt32 (PendingInputSample F)) (c : Client F) :
    Client F × InputPacket :=
  let (seq, localPos, predictor) :=
    if c.predictionEnabled then c.predictor.recordAndStep mx my dt c.localPos
    else
      let (seq, _, predictor) := c.predictor.recordAndStep 0 0 dt c.localPos
      (seq, c.localPos, predictor)
  ({ c with
    predictor := predictor
    localPos := localPos
    inputsSentTotal := c.inputsSentTotal + 1
    pending := boundPending nowMs order (c.pending.assign seq ⟨seq, sendMs, localPos⟩) },
    ⟨c.myPid, seq, mx, my⟩)

/-- The event of an input reads the clock once. -/
theorem sendInputAt_self (mx my : Int8) (dt : Double F) (nowMs : UInt64)
    (order : UMap.Traversal UInt32 (PendingInputSample F)) (c : Client F) :
    c.sendInputAt mx my dt nowMs nowMs order = c.sendInput mx my dt nowMs order := rfl

/-- Input step of an iteration. -/
def inputStep (a : Turn F) (c : Client F) : Client F × InputPacket :=
  c.sendInputAt a.mx a.my a.dt (wallTimeMs a.sentAt) (wallTimeMs a.boundedAt) a.boundOrder

/-- Pending inputs of an input step before they are bounded; `client/client.cpp:287–291`. -/
def remember (a : Turn F) (c : Client F) : UMap UInt32 (PendingInputSample F) :=
  c.pending.assign c.predictor.nextSeq
    ⟨c.predictor.nextSeq, wallTimeMs a.sentAt, (c.inputStep a).1.localPos⟩

/-- `client/client.cpp:171–304`. -/
def loop : Loop (Client F) (Turn F) where
  period := inputPeriod
  now a := a.now.ns
  work a c := c.run a.events
  step a c := (c.inputStep a).1

/-- An iteration takes the input step if its rate allows. -/
theorem state_iterate (p : Scheduled (Client F)) (a : Turn F) :
    (loop.iterate p a).state =
      if p.next ≤ a.now.ns then ((loop.work a p.state).inputStep a).1 else loop.work a p.state :=
  loop.state_iterate p a

/-- Numbers of the inputs that several iterations send, with the readings that stamp them. -/
def sentInputs (p : Scheduled (Client F)) : List (Turn F) → List (UInt32 × ClockReading)
  | [] => []
  | a :: as =>
    (if p.next ≤ a.now.ns then [(((loop.work a p.state).inputStep a).2.seq, a.sentAt)] else []) ++
      sentInputs (loop.iterate p a) as

/-- An input step numbers the input by the predictor and bounds the pending inputs. -/
theorem inputStep_spec (a : Turn F) (c : Client F) :
    (c.inputStep a).2.seq = c.predictor.nextSeq ∧ (c.inputStep a).1.pending =
      boundPending (wallTimeMs a.boundedAt) a.boundOrder (c.remember a) := by
  unfold remember inputStep sendInputAt
  dsimp only
  split <;> exact ⟨rfl, rfl⟩

theorem sentInputs_concat (p : Scheduled (Client F)) (as : List (Turn F)) (a : Turn F) :
    sentInputs p (as ++ [a]) = sentInputs p as ++
      if (loop.run p as).next ≤ a.now.ns then
        [(((loop.work a (loop.run p as).state).inputStep a).2.seq, a.sentAt)]
      else [] := by
  induction as generalizing p with
  | nil =>
    rw [List.nil_append, sentInputs, sentInputs, sentInputs, List.append_nil]
    rfl
  | cons b as ih =>
    rw [List.cons_append, sentInputs, ih, sentInputs, List.append_assoc]
    rfl

/-- Inputs are stamped in the iterations that run a step. -/
theorem map_snd_sentInputs (p : Scheduled (Client F)) (as : List (Turn F)) :
    (sentInputs p as).map Prod.snd = (loop.executed p as).map Turn.sentAt := by
  induction as generalizing p with
  | nil => rfl
  | cons a as ih =>
    rw [sentInputs, Loop.executed, List.map_append, List.map_append, ih]
    congr 1
    change _ = List.map _ (if p.next ≤ a.now.ns then [a] else [])
    split <;> rfl

/-! ### Ages of pending inputs -/

private theorem tdiv_bounds (x : Int) :
    (x - 1000000 < x.tdiv 1000000 * 1000000 ∧ x.tdiv 1000000 * 1000000 < x + 1000000) ∧
      (0 ≤ x → x.tdiv 1000000 * 1000000 ≤ x) ∧ (x ≤ 0 → x ≤ x.tdiv 1000000 * 1000000) := by
  rcases Int.le_total 0 x with h | h
  · rw [Int.tdiv_eq_ediv_of_nonneg h]
    omega
  · have hneg : x.tdiv 1000000 = -((-x) / 1000000) := by
      rw [← Int.tdiv_eq_ediv_of_nonneg (by omega), Int.neg_tdiv, Int.neg_neg]
    omega

/-- The age of an input does not wrap. -/
theorem toNat_age {s t : ClockReading} (h : s.ns ≤ t.ns) :
    (wallTimeMs t - wallTimeMs s).toNat =
      (t.ns.tdiv 1000000 - s.ns.tdiv 1000000).toNat := by
  have hage : wallTimeMs t - wallTimeMs s =
      UInt64.ofInt (t.ns.tdiv 1000000 - s.ns.tdiv 1000000) := by
    rw [Int.sub_eq_add_neg, UInt64.ofInt_add, UInt64.ofInt_neg, ← UInt64.sub_eq_add_neg]
    rfl
  have hle : s.ns.tdiv 1000000 ≤ t.ns.tdiv 1000000 := Int.tdiv_le_tdiv (by decide) h
  have hs := tdiv_bounds s.ns
  have ht := tdiv_bounds t.ns
  have hlower := s.lower
  have hupper := t.upper
  have hsmall : (t.ns.tdiv 1000000 - s.ns.tdiv 1000000).toNat < UInt64.size := by
    unfold UInt64.size
    omega
  rw [hage, UInt64.ofInt, Int.emod_eq_of_lt (by omega) (by omega),
    UInt64.toNat_ofNat_of_lt' hsmall]

/-- An input of the last 2000 ms is not too old. -/
theorem not_stale_of_recent {s t : ClockReading} (h : s.ns ≤ t.ns)
    (hrecent : t.ns - s.ns ≤ 2000 * 1000000) :
    ¬ pendingStaleMs < wallTimeMs t - wallTimeMs s := by
  have hs := tdiv_bounds s.ns
  have ht := tdiv_bounds t.ns
  have hstale : pendingStaleMs.toNat = 2000 := rfl
  rw [UInt64.lt_iff_toNat_lt, toNat_age h]
  omega

/-- Truncation adds less than two milliseconds. -/
theorem recent_of_not_stale {s t : ClockReading} (h : s.ns ≤ t.ns)
    (hstale : ¬ pendingStaleMs < wallTimeMs t - wallTimeMs s) :
    t.ns - 2002 * 1000000 ≤ s.ns := by
  have hs := tdiv_bounds s.ns
  have ht := tdiv_bounds t.ns
  have hbound : pendingStaleMs.toNat = 2000 := rfl
  rw [UInt64.lt_iff_toNat_lt, toNat_age h] at hstale
  omega

omit [FloatArith F] in
/-- A bound drops the samples that are too old. -/
theorem find?_boundPending_iff {nowMs : UInt64}
    {order : UMap.Traversal UInt32 (PendingInputSample F)}
    {m : UMap UInt32 (PendingInputSample F)} (hfull : 256 < m.size) {k : UInt32}
    {e : PendingInputSample F} :
    (boundPending nowMs order m).find? k = some e ↔
      m.find? k = some e ∧ ¬ pendingStaleMs < nowMs - e.sendMs := by
  rw [boundPending, if_pos hfull,
    (order.enumerates m).find?_foldl_eraseIf fun e ↦ pendingStaleMs < nowMs - e.sendMs,
    Option.filter_eq_some_iff]
  simp

/-- Reconciling only erases pending inputs. -/
theorem find?_foldl_matchPending {nowMs : UInt64} {es : List (UInt32 × PendingInputSample F)}
    {c : Client F} {k : UInt32} {e : PendingInputSample F}
    (h : (es.foldl (matchPending nowMs) c).pending.find? k = some e) :
    c.pending.find? k = some e := by
  induction es generalizing c with
  | nil => exact h
  | cons d es ih =>
    have hd := ih h
    unfold matchPending at hd
    split at hd
    · dsimp only at hd
      rw [UMap.find?_erase] at hd
      split at hd
      · cases hd
      · exact hd
    · exact hd

/-- Only an input adds to the pending inputs. -/
theorem find?_step {c : Client F} {ev : Event F}
    (hev : ∀ mx my dt nowMs order, ev ≠ .input mx my dt nowMs order) {k : UInt32}
    {e : PendingInputSample F} (h : (c.step ev).pending.find? k = some e) :
    c.pending.find? k = some e := by
  cases ev with
  | togglePrediction => exact h
  | prune => exact h
  | input mx my dt nowMs order => exact absurd rfl (hev mx my dt nowMs order)
  | snapshot ss nowMs order =>
    change (c.drainSnapshot ss nowMs order).pending.find? k = some e at h
    rw [drainSnapshot_eq] at h
    split at h
    · exact h
    · next auth _ => exact find?_foldl_matchPending (c := { c.store ss with
        localPos := _, lastReconErrPx := _, lastAckSeq := _ }) h

/-- The work of an iteration only erases pending inputs. -/
theorem find?_work {a : Turn F} {c : Client F} {k : UInt32} {e : PendingInputSample F}
    (h : (loop.work a c).pending.find? k = some e) : c.pending.find? k = some e := by
  change (c.run a.events).pending.find? k = some e at h
  have hevents : ∀ ev ∈ a.events, ∀ mx my dt nowMs order, ev ≠ .input mx my dt nowMs order := by
    unfold Turn.events
    simp only [List.mem_append, List.mem_replicate, List.mem_map, List.mem_singleton]
    rintro ev ((⟨_, rfl⟩ | ⟨d, _, rfl⟩) | rfl) <;> simp
  generalize a.events = evs at h hevents
  induction evs generalizing c with
  | nil => exact h
  | cons ev evs ih =>
    rw [List.forall_mem_cons] at hevents
    exact find?_step hevents.1 (ih h hevents.2)

/-! ### Where pending inputs come from -/

/-- Every pending input has been sent, and is stamped with the reading that sent it last. -/
def Stamped (sent : List (UInt32 × ClockReading)) (m : UMap UInt32 (PendingInputSample F)) : Prop :=
  ∀ k e, m.find? k = some e → ∃ t, (k, t) ∈ sent ∧ e.sendMs = wallTimeMs t ∧
    ∀ t', (k, t') ∈ sent → t'.ns ≤ t.ns

omit [FloatArith F] in
/-- Erasing pending inputs keeps their stamps. -/
theorem Stamped.of_subset {sent : List (UInt32 × ClockReading)}
    {m m' : UMap UInt32 (PendingInputSample F)} (h : Stamped sent m)
    (hsub : ∀ k e, m'.find? k = some e → m.find? k = some e) : Stamped sent m' :=
  fun k e he ↦ h k e (hsub k e he)

omit [FloatArith F] in
/-- An input that is sent after the others is stamped. -/
theorem Stamped.assign {sent : List (UInt32 × ClockReading)}
    {m : UMap UInt32 (PendingInputSample F)} (h : Stamped sent m) {t : ClockReading}
    (hlast : ∀ d ∈ sent, d.2.ns ≤ t.ns) (k : UInt32) (pos : Vec2 F) :
    Stamped (sent ++ [(k, t)]) (m.assign k ⟨k, wallTimeMs t, pos⟩) := by
  intro k' e he
  rw [UMap.find?_assign] at he
  split at he
  · next hk =>
    subst hk
    refine ⟨t, List.mem_append_right _ (List.mem_singleton.mpr rfl), ?_, ?_⟩
    · rw [← Option.some.inj he]
    · intro t' ht'
      rcases List.mem_append.mp ht' with hold | hnew
      · exact hlast _ hold
      · rw [(Prod.mk.inj (List.mem_singleton.mp hnew)).2]
  · next hk =>
    obtain ⟨t₀, hsent, hms, hlatest⟩ := h k' e he
    refine ⟨t₀, List.mem_append_left _ hsent, hms, ?_⟩
    intro t' ht'
    rcases List.mem_append.mp ht' with hold | hnew
    · exact hlatest t' hold
    · exact absurd (Prod.mk.inj (List.mem_singleton.mp hnew)).1 hk

omit [FloatArith F] in
/-- Bounding the pending inputs only erases. -/
theorem find?_boundPending_subset {nowMs : UInt64}
    {order : UMap.Traversal UInt32 (PendingInputSample F)}
    {m : UMap UInt32 (PendingInputSample F)} {k : UInt32} {e : PendingInputSample F}
    (h : (boundPending nowMs order m).find? k = some e) : m.find? k = some e := by
  by_cases hfull : 256 < m.size
  · exact ((find?_boundPending_iff hfull).mp h).1
  · rwa [boundPending, if_neg hfull] at h

/-- Inputs have been sent in iterations. -/
theorem exists_of_mem_sentInputs {p : Scheduled (Client F)} {as : List (Turn F)}
    {d : UInt32 × ClockReading} (h : d ∈ sentInputs p as) : ∃ a ∈ as, a.sentAt = d.2 := by
  have hstamp : d.2 ∈ (loop.executed p as).map Turn.sentAt := by
    rw [← map_snd_sentInputs]
    exact List.mem_map_of_mem h
  obtain ⟨a, ha, heq⟩ := List.mem_map.mp hstamp
  exact ⟨a, (loop.executed_sublist p as).subset ha, heq⟩

/-- Inputs of the earlier iterations have been sent before an iteration begins. -/
theorem sent_before {p : Scheduled (Client F)} {as : List (Turn F)} {a : Turn F}
    (hclock : Clocked (as ++ [a])) {d : UInt32 × ClockReading} (h : d ∈ sentInputs p as) :
    d.2.ns ≤ a.now.ns := by
  obtain ⟨b, hb, heq⟩ := exists_of_mem_sentInputs h
  have hle := (List.pairwise_append.mp hclock).2.2 b hb a (List.mem_singleton.mpr rfl)
  rw [← heq]
  exact b.sentAt_le.trans hle

/-- Inputs have been sent by the end of the last iteration. -/
theorem sent_by_end {p : Scheduled (Client F)} {as : List (Turn F)} {a : Turn F}
    (hclock : Clocked (as ++ [a])) {d : UInt32 × ClockReading}
    (h : d ∈ sentInputs p (as ++ [a])) : d.2.ns ≤ a.boundedAt.ns := by
  rw [sentInputs_concat, List.mem_append] at h
  cases h with
  | inl hold => exact (sent_before hclock hold).trans (a.now_le.trans a.sentAt_le)
  | inr hnew =>
    split at hnew
    · rw [List.mem_singleton.mp hnew]
      exact a.sentAt_le
    · cases hnew

/-- Pending inputs that an input step adds to are stamped with the input. -/
theorem Stamped.remember {p : Scheduled (Client F)} {as : List (Turn F)} {a : Turn F}
    (h : Stamped (sentInputs p as) (loop.run p as).state.pending)
    (hclock : Clocked (as ++ [a])) (hdue : (loop.run p as).next ≤ a.now.ns) :
    Stamped (sentInputs p (as ++ [a])) ((loop.work a (loop.run p as).state).remember a) := by
  rw [sentInputs_concat, if_pos hdue, (inputStep_spec a _).1]
  have hwork := h.of_subset (fun k e ↦ find?_work (a := a))
  exact hwork.assign (fun d hd ↦ (sent_before hclock hd).trans a.now_le) _ _

/-- In every run the pending inputs are stamped. -/
theorem stamped_run (p : Scheduled (Client F)) (hempty : p.state.pending = UMap.empty)
    (as : List (Turn F)) (hclock : Clocked as) :
    Stamped (sentInputs p as) (loop.run p as).state.pending := by
  induction as using List.reverseRecOn with
  | nil =>
    intro k e he
    change p.state.pending.find? k = some e at he
    rw [hempty, UMap.find?_empty] at he
    cases he
  | append_singleton as a ih =>
    have h := ih (List.pairwise_append.mp hclock).1
    rw [Loop.run_concat, state_iterate]
    by_cases hdue : (loop.run p as).next ≤ a.now.ns
    · rw [if_pos hdue]
      refine (h.remember hclock hdue).of_subset ?_
      intro k e he
      rw [(inputStep_spec a _).2] at he
      exact find?_boundPending_subset he
    · rw [if_neg hdue, sentInputs_concat, if_neg hdue, List.append_nil]
      exact h.of_subset fun k e ↦ find?_work

/-! ### How many inputs a window holds -/

/-- At most one iteration that has begun before a window sends within it. -/
theorem countP_sentAt_le (first : Int) (as : List (Turn F)) (hclock : Clocked as) :
    as.countP (fun a ↦ first ≤ a.sentAt.ns) ≤ as.countP (fun a ↦ first ≤ a.now.ns) + 1 := by
  induction as with
  | nil => exact Nat.zero_le _
  | cons a as ih =>
    obtain ⟨hlater, htail⟩ := List.pairwise_cons.mp hclock
    rw [List.countP_cons, List.countP_cons]
    by_cases hsent : first ≤ a.sentAt.ns
    · have hall : as.countP (fun b ↦ first ≤ b.now.ns) = as.length := by
        rw [List.countP_eq_length]
        intro b hb
        have := a.sentAt_le
        have := hlater b hb
        exact decide_eq_true (by omega)
      have hle : as.countP (fun b ↦ first ≤ b.sentAt.ns) ≤ as.length := List.countP_le_length
      rw [if_pos (decide_eq_true hsent), hall]
      omega
    · have hnow : ¬ first ≤ a.now.ns := by
        have := a.now_le
        omega
      rw [if_neg (by simpa using hsent), if_neg (by simpa using hnow)]
      exact ih htail

/-- Inputs that have been sent within the last 2002 ms. -/
theorem countP_sentInputs_le (p : Scheduled (Client F)) (as : List (Turn F)) (a : Turn F)
    (hclock : Clocked (as ++ [a])) :
    (sentInputs p (as ++ [a])).countP
      (fun d ↦ a.boundedAt.ns - 2002 * 1000000 ≤ d.2.ns) ≤ 123 := by
  generalize hfirst : a.boundedAt.ns - 2002 * 1000000 = first
  have hstamps : (sentInputs p (as ++ [a])).countP (fun d ↦ first ≤ d.2.ns) =
      (loop.executed p (as ++ [a])).countP fun b ↦ first ≤ b.sentAt.ns := by
    have hmap := congrArg (List.countP fun t : ClockReading ↦ first ≤ t.ns)
      (map_snd_sentInputs p (as ++ [a]))
    rw [List.countP_map, List.countP_map] at hmap
    exact hmap
  have hbegun := countP_sentAt_le first (loop.executed p (as ++ [a]))
    (hclock.sublist (loop.executed_sublist p _))
  -- All iterations so far have begun by the time of the last one.
  have hlast : (loop.executed p (as ++ [a])).countP (fun b ↦ first ≤ b.now.ns) =
      (loop.executed p (as ++ [a])).countP fun b ↦
        first ≤ loop.now b ∧ loop.now b ≤ a.boundedAt.ns := by
    apply List.countP_congr
    intro b hb
    have hle : b.now.ns ≤ a.boundedAt.ns := by
      rcases List.mem_append.mp ((loop.executed_sublist p _).subset hb) with h | h
      · have hbefore := (List.pairwise_append.mp hclock).2.2 b h a (List.mem_singleton.mpr rfl)
        exact b.now_le.trans (b.sentAt_le.trans (hbefore.trans (a.now_le.trans a.sentAt_le)))
      · rw [List.mem_singleton.mp h]
        exact a.now_le.trans a.sentAt_le
    change decide _ = true ↔ decide (_ ∧ b.now.ns ≤ _) = true
    simp only [hle, and_true]
    rfl
  have hperiod : 0 < (loop (F := F)).period := show 0 < inputPeriod by decide
  have hspread : first ≤ a.boundedAt.ns := by omega
  have hwindow := loop.countP_executed_window hperiod p (as ++ [a]) hspread
  have hspan : (a.boundedAt.ns - first) / (loop (F := F)).period = 120 := by
    rw [← hfirst, Int.sub_sub_self]
    rfl
  rw [← hlast, hspan] at hwindow
  omega

/-- A bound leaves inputs of the last 2002 ms only. -/
theorem size_boundPending_le {p : Scheduled (Client F)} {as : List (Turn F)} {a : Turn F}
    {m : UMap UInt32 (PendingInputSample F)} (hclock : Clocked (as ++ [a]))
    (hstamped : Stamped (sentInputs p (as ++ [a])) m) :
    (boundPending (wallTimeMs a.boundedAt) a.boundOrder m).size ≤ 256 := by
  by_cases hfull : 256 < m.size
  · have hkeys : (boundPending (wallTimeMs a.boundedAt) a.boundOrder m).keys ⊆
        (((sentInputs p (as ++ [a])).filter
          fun d ↦ a.boundedAt.ns - 2002 * 1000000 ≤ d.2.ns).map Prod.fst).toFinset := by
      intro k hk
      obtain ⟨e, he⟩ := Option.isSome_iff_exists.mp ((UMap.mem_keys _ k).mp hk)
      obtain ⟨hm, hstale⟩ := (find?_boundPending_iff hfull).mp he
      obtain ⟨t, hsent, hms, _⟩ := hstamped k e hm
      rw [hms] at hstale
      have hrecent := recent_of_not_stale (sent_by_end hclock hsent) hstale
      rw [List.mem_toFinset, List.mem_map]
      exact ⟨(k, t), List.mem_filter.mpr ⟨hsent, decide_eq_true hrecent⟩, rfl⟩
    calc (boundPending (wallTimeMs a.boundedAt) a.boundOrder m).size
        ≤ _ := Finset.card_le_card hkeys
      _ ≤ _ := List.toFinset_card_le _
      _ = (sentInputs p (as ++ [a])).countP
          (fun d ↦ a.boundedAt.ns - 2002 * 1000000 ≤ d.2.ns) := by
        rw [List.length_map, List.countP_eq_length_filter]
      _ ≤ 123 := countP_sentInputs_le p as a hclock
      _ ≤ 256 := by decide
  · rw [boundPending, if_neg hfull]
    exact Nat.not_lt.mp hfull

/-- The pending inputs stay bounded. -/
theorem size_run_le (p : Scheduled (Client F)) (hempty : p.state.pending = UMap.empty)
    (as : List (Turn F)) (hclock : Clocked as) : (loop.run p as).state.pending.size ≤ 256 := by
  induction as using List.reverseRecOn with
  | nil =>
    change p.state.pending.size ≤ 256
    rw [hempty, UMap.size, UMap.keys_empty]
    exact Nat.zero_le _
  | append_singleton as a ih =>
    have hpast := (List.pairwise_append.mp hclock).1
    rw [Loop.run_concat, state_iterate]
    by_cases hdue : (loop.run p as).next ≤ a.now.ns
    · rw [if_pos hdue, (inputStep_spec a _).2]
      exact size_boundPending_le hclock ((stamped_run p hempty as hpast).remember hclock hdue)
    · rw [if_neg hdue]
      refine (Finset.card_le_card ?_).trans (ih hpast)
      intro k hk
      obtain ⟨e, he⟩ := Option.isSome_iff_exists.mp ((UMap.mem_keys _ k).mp hk)
      exact (UMap.mem_keys _ k).mpr (Option.isSome_iff_exists.mpr ⟨e, find?_work he⟩)

/-- However the clock stalls and whatever is acknowledged, at most 256 inputs are pending after an
iteration, and the bound drops none that was sent in the last 2000 ms. -/
theorem pending_bounded (myPid : UInt16) (disablePrediction disableInterpolation : Bool)
    (start : ClockReading) (as : List (Turn F)) (a : Turn F) (hclock : Clocked (as ++ [a])) :
    let p : Scheduled (Client F) := ⟨init myPid disablePrediction disableInterpolation, start.ns⟩
    let before := loop.run p as
    let after := loop.run p (as ++ [a])
    after.state.pending.size ≤ 256 ∧
    (before.next ≤ a.now.ns → ∀ k t, (k, t) ∈ sentInputs p (as ++ [a]) →
      a.boundedAt.ns - t.ns ≤ 2000 * 1000000 →
      after.state.pending.find? k = ((loop.work a before.state).remember a).find? k) := by
  intro p before after
  constructor
  · exact size_run_le p rfl (as ++ [a]) hclock
  · intro hdue k t hsent hrecent
    have hstamped := (stamped_run p rfl as (List.pairwise_append.mp hclock).1).remember hclock hdue
    change (loop.run p (as ++ [a])).state.pending.find? k =
      ((loop.work a (loop.run p as).state).remember a).find? k
    rw [Loop.run_concat, state_iterate, if_pos hdue, (inputStep_spec a _).2]
    generalize (loop.work a (loop.run p as).state).remember a = m at hstamped ⊢
    by_cases hfull : 256 < m.size
    · apply Option.ext
      intro e
      rw [find?_boundPending_iff hfull]
      constructor
      · exact And.left
      · intro he
        refine ⟨he, ?_⟩
        obtain ⟨last, hlast, hms, hlatest⟩ := hstamped k e he
        have hafter := hlatest t hsent
        rw [hms]
        exact not_stale_of_recent (sent_by_end hclock hlast) (by omega)
    · rw [boundPending, if_neg hfull]

/-- A loop that sends an input, and two after a stall: the second is remembered with the third. -/
theorem pending_bounded_stalled :
    let first : ClockReading := ⟨5, by decide, by decide⟩
    let second : ClockReading := ⟨3000000000, by decide, by decide⟩
    let third : ClockReading := ⟨3020000000, by decide, by decide⟩
    let poll (t : ClockReading) : Turn F32 := ⟨t, 0, [], t,
      .byRank UInt16.toNat fun _ _ h ↦ UInt16.toNat_inj.mp h, 1, 0, dtSeconds F32, t, t,
      PendingInputSample.sorted, Int.le_refl _, Int.le_refl _⟩
    let p : Scheduled (Client F32) := ⟨init 1 false false, first.ns⟩
    let before := loop.run p [poll first, poll second]
    let after := loop.run p ([poll first, poll second] ++ [poll third])
    after.state.pending.size ≤ 256 ∧
      (2, second) ∈ sentInputs p ([poll first, poll second] ++ [poll third]) ∧
      (after.state.pending.find? 2).map PendingInputSample.sendMs = some 3000 ∧
      after.state.pending.find? 2 =
        ((loop.work (poll third) before.state).remember (poll third)).find? 2 := by
  intro first second third poll p before after
  have hclock : Clocked ([poll first, poll second] ++ [poll third]) := by
    refine List.Pairwise.cons ?_ (List.Pairwise.cons ?_ (List.pairwise_singleton _ _))
    · intro b hb
      rcases List.mem_cons.mp hb with rfl | hb
      · change (5 : Int) ≤ 3000000000
        decide
      · rw [List.mem_singleton.mp hb]
        change (5 : Int) ≤ 3020000000
        decide
    · intro b hb
      rw [List.mem_singleton.mp hb]
      change (3000000000 : Int) ≤ 3020000000
      decide
  obtain ⟨hsize, hkept⟩ := pending_bounded 1 false false first [poll first, poll second]
    (poll third) hclock
  have hsent : sentInputs p ([poll first, poll second] ++ [poll third]) =
      [(1, first), (2, second), (3, third)] := rfl
  have hmem : (2, second) ∈ sentInputs p ([poll first, poll second] ++ [poll third]) := by
    rw [hsent]
    exact List.mem_cons_of_mem _ List.mem_cons_self
  refine ⟨hsize, hmem, rfl, hkept ?_ 2 second hmem ?_⟩
  · change (3000000000 : Int) ≤ 3020000000
    decide
  · change (3020000000 - 3000000000 : Int) ≤ 2000 * 1000000
    decide

end Client
end LightningLink.Cl
