import LightningLink.Client.Client
import LightningLink.Client.History

/-!
# Recorded inputs and sent inputs

Library `Client`. The input step records an input in the ring and sends it. The ring holds
the directions sent exactly when nothing but zero directions are sent while prediction is
off, since the code records a zero input then, whatever it sends.
-/

namespace LightningLink.Proto

/-- Number and direction of a packet. -/
def InputPacket.command (ip : InputPacket) : UInt32 × Int8 × Int8 := (ip.seq, ip.mx, ip.my)

end LightningLink.Proto

namespace LightningLink.Cl

open Support Proto FloatArith

variable {F : Type} [FloatArith F]

/-- Number and direction of a recorded input. -/
def PredictedInput.command (pi : PredictedInput F) : UInt32 × Int8 × Int8 := (pi.seq, pi.mx, pi.my)

namespace Client

/-- Packet that an event sends. -/
def sends (c : Client F) : Event F → Option InputPacket
  | .input mx my dt nowMs order => some (c.sendInput mx my dt nowMs order).2
  | _ => none

/-- Packets that a run sends, in order. -/
def sent (c : Client F) : List (Event F) → List InputPacket
  | [] => []
  | ev :: evs => (c.sends ev).toList ++ sent (c.step ev) evs

/-- Packets sent up to one more event. -/
theorem sent_concat (c : Client F) (evs : List (Event F)) (ev : Event F) :
    c.sent (evs ++ [ev]) = c.sent evs ++ ((c.run evs).sends ev).toList := by
  induction evs generalizing c with
  | nil => exact List.append_nil _
  | cons e evs ih =>
    rw [List.cons_append, sent, ih, sent, List.append_assoc]
    rfl

/-- The ring holds, in order, the last packets sent: their numbers and directions. -/
def Records (c : Client F) (packets : List InputPacket) : Prop :=
  c.predictor.ring.toList.map PredictedInput.command <:+ packets.map InputPacket.command

instance (c : Client F) (packets : List InputPacket) : Decidable (c.Records packets) :=
  inferInstanceAs (Decidable (_ <:+ _))

/-- An event that sends no direction but zero while prediction is off. -/
def Plain (c : Client F) : Event F → Prop
  | .input mx my _ _ _ => c.predictionEnabled = false → mx = 0 ∧ my = 0
  | _ => True

/-- What the input step records, beside what it sends. -/
theorem sendInput_ring (mx my : Int8) (dt : Double F) (nowMs : UInt64)
    (order : UMap.Traversal UInt32 (PendingInputSample F)) (c : Client F) :
    ∃ pi : PredictedInput F,
      (c.sendInput mx my dt nowMs order).1.predictor.ring = c.predictor.ring.push pi ∧
      (pi.command = (c.sendInput mx my dt nowMs order).2.command ↔
        c.Plain (.input mx my dt nowMs order)) := by
  unfold sendInput Plain
  dsimp only
  cases hp : c.predictionEnabled with
  | true =>
    refine ⟨⟨c.predictor.nextSeq, mx, my, dt⟩, rfl, ?_⟩
    simp [PredictedInput.command, InputPacket.command, Predictor.recordAndStep]
  | false =>
    refine ⟨⟨c.predictor.nextSeq, 0, 0, dt⟩, rfl, ?_⟩
    simp [PredictedInput.command, InputPacket.command, Predictor.recordAndStep, eq_comm]

/-- Other events leave the ring and send nothing. -/
theorem step_ring (c : Client F) (ev : Event F) (h : c.sends ev = none) :
    (c.step ev).predictor = c.predictor ∧ c.Plain ev := by
  cases ev with
  | input mx my dt nowMs order => cases h
  | snapshot ss nowMs order => exact ⟨(drainSnapshot_frame ss nowMs order c).2, trivial⟩
  | togglePrediction => exact ⟨rfl, trivial⟩
  | prune nowMs order => exact ⟨rfl, trivial⟩

/-- An event keeps the ring at what was sent exactly when it is plain. -/
theorem records_step_iff (c : Client F) (packets : List InputPacket) (h : c.Records packets)
    (ev : Event F) : (c.step ev).Records (packets ++ (c.sends ev).toList) ↔ c.Plain ev := by
  cases hs : c.sends ev with
  | none =>
    obtain ⟨hp, hplain⟩ := c.step_ring ev hs
    rw [Option.toList_none, List.append_nil, Records, hp]
    exact ⟨fun _ ↦ hplain, fun _ ↦ h⟩
  | some ip =>
    cases ev with
    | input mx my dt nowMs order =>
      obtain rfl := Option.some.inj hs
      obtain ⟨pi, hring, hiff⟩ := sendInput_ring mx my dt nowMs order c
      rw [← hiff, Option.toList_some, Records, List.map_append]
      change (c.sendInput mx my dt nowMs order).1.predictor.ring.toList.map _ <:+ _ ↔ _
      rw [hring]
      exact Ring.suffix_push_iff _ _ _ _ _ h
    | _ => cases hs

/-- What reconciliation replays while the ring holds what was sent: the directions of the
last unacknowledged packets, in order. -/
theorem Records.replays {c : Client F} {packets : List InputPacket} (h : c.Records packets)
    (auth : PlayerState F) : ∃ inputs : List (PredictedInput F),
      c.predictor.reconcile auth = replayAll auth.pos inputs ∧
      inputs.map PredictedInput.command <:+
        (packets.filter fun ip ↦ auth.lastProcessedInputSeq < ip.seq).map InputPacket.command := by
  refine ⟨_, Predictor.reconcile_eq_replayAll auth c.predictor, ?_⟩
  have hf := List.IsSuffix.filter (fun x ↦ decide (auth.lastProcessedInputSeq < x.1)) h
  rwa [List.filter_map, List.filter_map] at hf

/-- In every state of a run the ring holds the directions sent with its numbers, and
reconciliation replays those of the packets it finds unacknowledged: this is so exactly when
no event of the run sends a direction but zero while prediction is off. -/
theorem run_records_iff (myPid : UInt16) (noPrediction noInterpolation : Bool)
    (evs : List (Event F)) :
    let start : Client F := init myPid noPrediction noInterpolation
    (∀ done, done <+: evs → (start.run done).Records (start.sent done) ∧
      ∀ auth, ∃ inputs, (start.run done).predictor.reconcile auth = replayAll auth.pos inputs ∧
        inputs.map PredictedInput.command <:+
          ((start.sent done).filter fun ip ↦ auth.lastProcessedInputSeq < ip.seq).map
            InputPacket.command) ↔
      ∀ past ev, past ++ [ev] <+: evs → (start.run past).Plain ev := by
  intro start
  constructor
  · intro h past ev hp
    have hpast := (h past ((List.prefix_append _ _).trans hp)).1
    have hnext := (h _ hp).1
    rw [run_concat, sent_concat] at hnext
    exact (records_step_iff _ _ hpast ev).mp hnext
  · intro h done
    have hrec : done <+: evs → (start.run done).Records (start.sent done) := by
      induction done using List.reverseRecOn with
      | nil => exact fun _ ↦ List.nil_suffix
      | append_singleton past ev ih =>
        intro hp
        have hpast := ih ((List.prefix_append _ _).trans hp)
        rw [run_concat, sent_concat]
        exact (records_step_iff _ _ hpast ev).mpr (h past ev hp)
    exact fun hd ↦ ⟨hrec hd, (hrec hd).replays⟩

/-- Prediction is switched off, a move to the right is sent, and prediction is switched on
again: the ring holds a zero direction under the number of the packet. -/
theorem toggled_input_replaced :
    let evs : List (Event F32) := [.togglePrediction,
      .input 1 0 (dtSeconds F32) 0 PendingInputSample.sorted, .togglePrediction]
    let start : Client F32 := init 1 false false
    start.sent evs = [⟨1, 1, 1, 0⟩] ∧
      (start.run evs).predictor.ring.toList.map PredictedInput.command = [(1, 0, 0)] ∧
      (start.run evs).predictionEnabled = true ∧ ¬(start.run evs).Records (start.sent evs) := by
  refine ⟨by decide, by decide, by decide, by decide⟩

end Client
end LightningLink.Cl
